import MisFITS.Program

/-! Two programs in lockstep: from related states they reply the same, and the states
that they leave are related again. -/
namespace Program

variable {ε σ τ α β γ ι : Type} {R Q : σ → τ → Prop} {s : σ} {t : τ} {x : EStateM ε σ α}
  {y : EStateM ε τ α}

def Matches (R : σ → τ → Prop) : EStateM.Result ε σ α → EStateM.Result ε τ α → Prop
  | .ok a s, .ok b t => a = b ∧ R s t
  | .error e s, .error f t => e = f ∧ R s t
  | _, _ => False

theorem Matches.mono (more : ∀ s t, R s t → Q s t) (both : Matches R (x s) (y t)) :
    Matches Q (x s) (y t) := by
  revert both
  cases x s <;> cases y t <;> simp only [Matches]
  · exact And.imp_right (more _ _)
  · exact id
  · exact id
  · exact And.imp_right (more _ _)

theorem Matches.bind {f : α → EStateM ε σ β} {g : α → EStateM ε τ β}
    (first : Matches R (x s) (y t)) (errors : ∀ s t, R s t → Q s t)
    (rest : ∀ a s t, R s t → Matches Q (f a s) (g a t)) :
    Matches Q ((x >>= f) s) ((y >>= g) t) := by
  cases runs : x s with
  | ok a s' =>
    cases runt : y t with
    | ok b t' =>
      rw [runs, runt] at first
      obtain ⟨rfl, related⟩ := first
      rw [bind_of_ok runs, bind_of_ok runt]
      exact rest a s' t' related
    | error e t' =>
      rw [runs, runt] at first
      cases first
  | error e s' =>
    cases runt : y t with
    | ok b t' =>
      rw [runs, runt] at first
      cases first
    | error e' t' =>
      rw [runs, runt] at first
      obtain ⟨rfl, related⟩ := first
      rw [bind_of_error runs, bind_of_error runt]
      exact ⟨rfl, errors s' t' related⟩

def Lockstep (R : σ → τ → Prop) (x : EStateM ε σ α) (y : EStateM ε τ α) : Prop :=
  ∀ s t, R s t → Matches R (x s) (y t)

theorem Lockstep.loop {κ : Type} {pairs : List (ι × κ)} {f : α → ι → EStateM ε σ α}
    {g : α → κ → EStateM ε τ α} (pass : ∀ p ∈ pairs, ∀ a, Lockstep R (f a p.1) (g a p.2)) (a : α) :
    Lockstep R ((pairs.map Prod.fst).foldlM f a) ((pairs.map Prod.snd).foldlM g a) := by
  induction pairs generalizing a with
  | nil => exact fun s t related => ⟨rfl, related⟩
  | cons p pairs ih =>
    intro s t related
    rw [List.map_cons, List.map_cons, List.foldlM_cons, List.foldlM_cons]
    apply Matches.bind (pass p List.mem_cons_self a s t related) (fun _ _ related => related)
    exact fun b => ih (fun q member => pass q (List.mem_cons_of_mem p member)) b

theorem Lockstep.bind {f : α → EStateM ε σ β} {g : α → EStateM ε τ β} (first : Lockstep R x y)
    (rest : ∀ a, Lockstep R (f a) (g a)) : Lockstep R (x >>= f) (y >>= g) :=
  fun s t related => (first s t related).bind (fun _ _ related => related) rest

theorem Lockstep.map {f : α → β} (both : Lockstep R x y) :
    Lockstep R (x >>= fun a => pure (f a)) (y >>= fun a => pure (f a)) :=
  both.bind (fun _ _ _ related => ⟨rfl, related⟩)

/-- A call whose caller catches what it throws. -/
def attempt (x : EStateM ε σ α) : EStateM ε σ (Except ε α) := fun s =>
  match x s with
  | .ok a s => .ok (.ok a) s
  | .error e s => .ok (.error e) s

theorem Lockstep.attempt (both : Lockstep R x y) :
    Lockstep R (Program.attempt x) (Program.attempt y) := by
  intro s t related
  have matched := both s t related
  unfold Program.attempt
  cases runs : x s <;> cases runt : y t <;> rw [runs, runt] at matched
  · exact ⟨congrArg Except.ok matched.1, matched.2⟩
  · cases matched
  · cases matched
  · exact ⟨congrArg Except.error matched.1, matched.2⟩

/-- So many calls, each chosen by what the ones before have brought. -/
def converse (reply : ι → EStateM ε σ γ) (next : List γ → ι) : Nat → List γ → EStateM ε σ (List γ)
  | 0, seen => pure seen
  | calls + 1, seen => do
    let seen := seen ++ [← reply (next seen)]
    converse reply next calls seen

/-- Where each call matches, all that is ever seen is the same. -/
theorem Lockstep.converse {reply : ι → EStateM ε σ γ} {reply' : ι → EStateM ε τ γ}
    {next : List γ → ι} (each : ∀ seen, Lockstep R (reply (next seen)) (reply' (next seen)))
    (calls : Nat) (seen : List γ) : Lockstep R (Program.converse reply next calls seen)
      (Program.converse reply' next calls seen) := by
  induction calls generalizing seen with
  | zero => exact fun s t related => ⟨rfl, related⟩
  | succ calls ih => exact (each seen).bind (fun _ => ih _)

theorem converse_ok {reply : ι → EStateM ε σ γ} {next : List γ → ι}
    (returns : ∀ i s, ∃ c s', reply i s = .ok c s') (calls : Nat) (seen : List γ) (s : σ) :
    ∃ seen' s', converse reply next calls seen s = .ok seen' s' := by
  induction calls generalizing seen s with
  | zero => exact ⟨seen, s, rfl⟩
  | succ calls ih =>
    obtain ⟨c, s', replied⟩ := returns (next seen) s
    unfold converse
    rw [bind_of_ok replied]
    exact ih _ s'

end Program
