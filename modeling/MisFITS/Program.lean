import Mathlib.Logic.Basic

/-! Programs that carry a state and may stop with an exception, as `EStateM`
runs them: the state reached is kept on both outcomes. The rules below take a
sequence of steps apart and put invariants of single steps together. -/
namespace Program

variable {ε σ α β : Type}

def after : EStateM.Result ε σ α → σ
  | .ok _ s => s
  | .error _ s => s

def returned : EStateM.Result ε σ α → Bool
  | .ok _ _ => true
  | .error _ _ => false

theorem ok_of_returned {x : EStateM ε σ Unit} {s : σ} (h : returned (x s) = true) :
    x s = .ok () (after (x s)) := by
  cases run : x s with
  | ok a t => rfl
  | error e t =>
    rw [run] at h
    cases h

theorem error_of_thrown {x : EStateM ε σ α} {s : σ} (h : returned (x s) = false) :
    ∃ e, x s = .error e (after (x s)) := by
  cases run : x s with
  | ok a t =>
    rw [run] at h
    cases h
  | error e t => exact ⟨e, rfl⟩

def value : EStateM.Result ε σ α → Option α
  | .ok a _ => some a
  | .error _ _ => none

theorem ok_of_value {x : EStateM ε σ α} {s : σ} {a : α} (h : value (x s) = some a) :
    x s = .ok a (after (x s)) := by
  cases run : x s with
  | ok b t =>
    rw [run] at h
    cases h
    rfl
  | error e t =>
    rw [run] at h
    cases h

theorem after_discard (x : EStateM ε σ α) (s : σ) :
    after ((x >>= fun _ => pure ()) s) = after (x s) := by
  change after (EStateM.bind x _ s) = _
  unfold EStateM.bind
  cases x s <;> rfl

theorem bind_ok {x : EStateM ε σ α} {g : α → EStateM ε σ β} {s t : σ} {b : β} :
    (x >>= g) s = .ok b t ↔ ∃ a u, x s = .ok a u ∧ g a u = .ok b t := by
  change EStateM.bind x g s = _ ↔ _
  unfold EStateM.bind
  cases x s with
  | ok a u => simp [and_assoc]
  | error e u => simp

theorem bind_error {x : EStateM ε σ α} {g : α → EStateM ε σ β} {s t : σ} {e : ε} :
    (x >>= g) s = .error e t ↔
      x s = .error e t ∨ ∃ a u, x s = .ok a u ∧ g a u = .error e t := by
  change EStateM.bind x g s = _ ↔ _
  unfold EStateM.bind
  cases x s with
  | ok a u => simp [and_assoc]
  | error e u => simp

theorem bind_of_ok {x : EStateM ε σ α} {s u : σ} {a : α} (h : x s = .ok a u)
    (g : α → EStateM ε σ β) : (x >>= g) s = g a u := by
  change EStateM.bind x g s = _
  simp only [EStateM.bind, h]

theorem bind_of_error {x : EStateM ε σ α} {s u : σ} {e : ε} (h : x s = .error e u)
    (g : α → EStateM ε σ β) : (x >>= g) s = .error e u := by
  change EStateM.bind x g s = _
  simp only [EStateM.bind, h]

@[simp] theorem pure_ok {a b : α} {s t : σ} :
    (pure a : EStateM ε σ α) s = .ok b t ↔ a = b ∧ s = t := by
  change EStateM.Result.ok a s = .ok b t ↔ _
  simp

@[simp] theorem pure_error {a : α} {e : ε} {s t : σ} :
    (pure a : EStateM ε σ α) s = .error e t ↔ False := by
  change EStateM.Result.ok a s = .error e t ↔ _
  simp

@[simp] theorem throw_ok {e : ε} {a : α} {s t : σ} :
    (throw e : EStateM ε σ α) s = .ok a t ↔ False := by
  change EStateM.Result.error e s = .ok a t ↔ _
  simp

@[simp] theorem throw_error {e e' : ε} {s t : σ} :
    (throw e : EStateM ε σ α) s = .error e' t ↔ e = e' ∧ s = t := by
  change EStateM.Result.error e s = .error e' t ↔ _
  simp

@[simp] theorem modify_ok {g : σ → σ} {s t : σ} {u : Unit} :
    (modify g : EStateM ε σ Unit) s = .ok u t ↔ t = g s := by
  change EStateM.Result.ok () (g s) = .ok u t ↔ _
  simp [eq_comm]

theorem except_bind_ok {x : Except ε α} {g : α → Except ε β} {b : β} :
    (x >>= g) = .ok b ↔ ∃ a, x = .ok a ∧ g a = .ok b := by
  cases x <;> simp [bind, Except.bind]

theorem except_map_ok {x : Except ε α} {g : α → β} {b : β} :
    x.map g = .ok b ↔ ∃ a, x = .ok a ∧ g a = b := by
  cases x <;> simp [Except.map]

theorem check_ok {p : Prop} [Decidable p] {e : ε} {g : α → EStateM ε σ β} {m : EStateM ε σ β}
    {s t : σ} {b : β} : (if p then throw e >>= g else m) s = .ok b t ↔ ¬p ∧ m s = .ok b t := by
  by_cases failed : p
  · simp only [failed, if_true, not_true_eq_false, false_and, iff_false]
    intro run
    obtain ⟨_, _, thrown, _⟩ := bind_ok.mp run
    exact throw_ok.mp thrown
  · simp only [failed, if_false, not_false_eq_true, true_and]

theorem check_of_not {p : Prop} [Decidable p] {e : ε} {g : α → EStateM ε σ β}
    {m : EStateM ε σ β} (passed : ¬p) (s : σ) : (if p then throw e >>= g else m) s = m s := by
  rw [if_neg passed]

/-- Every run of the program, returning or throwing, relates its first state to its last. -/
def Keeps (R : σ → σ → Prop) (m : EStateM ε σ α) : Prop :=
  ∀ s, R s (after (m s))

section Keeps

variable {R : σ → σ → Prop}

theorem Keeps.ok {m : EStateM ε σ α} (h : Keeps R m) {s t : σ} {a : α}
    (run : m s = .ok a t) : R s t := by
  have hs := h s
  rw [run] at hs
  exact hs

theorem Keeps.error {m : EStateM ε σ α} (h : Keeps R m) {s t : σ} {e : ε}
    (run : m s = .error e t) : R s t := by
  have hs := h s
  rw [run] at hs
  exact hs

theorem Keeps.pure (refl : ∀ s, R s s) (a : α) : Keeps R (pure a : EStateM ε σ α) :=
  fun s => refl s

theorem Keeps.throw (refl : ∀ s, R s s) (e : ε) : Keeps R (throw e : EStateM ε σ α) :=
  fun s => refl s

theorem Keeps.bind (trans : ∀ s t u, R s t → R t u → R s u)
    {x : EStateM ε σ α} {g : α → EStateM ε σ β}
    (hx : Keeps R x) (hg : ∀ a, Keeps R (g a)) : Keeps R (x >>= g) := by
  intro s
  cases run : x s with
  | ok a u =>
    rw [bind_of_ok run]
    exact trans s u _ (hx.ok run) (hg a u)
  | error e u =>
    rw [bind_of_error run]
    exact hx.error run

theorem Keeps.ite {p : Prop} [Decidable p] {x y : EStateM ε σ α} (hx : Keeps R x)
    (hy : Keeps R y) : Keeps R (if p then x else y) := by
  split
  · exact hx
  · exact hy

theorem Keeps.check (refl : ∀ s, R s s) {p : Prop} [Decidable p] {e : ε} {g : α → EStateM ε σ β}
    {m : EStateM ε σ β} (hm : Keeps R m) :
    Keeps R (if p then MonadExcept.throw e >>= g else m) := by
  refine Keeps.ite (fun s => ?_) hm
  rw [bind_of_error (show (MonadExcept.throw e : EStateM ε σ α) s = .error e s from rfl)]
  exact refl s

theorem Keeps.loop (refl : ∀ s, R s s) (trans : ∀ s t u, R s t → R t u → R s u)
    {step : β → α → EStateM ε σ β} (pass : ∀ b x, Keeps R (step b x))
    (xs : List α) (b : β) : Keeps R (xs.foldlM step b) := by
  induction xs generalizing b with
  | nil => exact Keeps.pure refl b
  | cons x xs ih => exact Keeps.bind trans (pass b x) ih

end Keeps

def Returns (R : σ → σ → Prop) (m : EStateM ε σ α) : Prop :=
  ∀ s a t, m s = .ok a t → R s t

section Returns

variable {R : σ → σ → Prop}

theorem Keeps.returns {m : EStateM ε σ α} (h : Keeps R m) : Returns R m :=
  fun _ _ _ run => h.ok run

theorem Returns.bind (trans : ∀ s t u, R s t → R t u → R s u)
    {x : EStateM ε σ α} {g : α → EStateM ε σ β}
    (hx : Returns R x) (hg : ∀ a, Returns R (g a)) : Returns R (x >>= g) := by
  intro s b t run
  obtain ⟨a, u, first, rest⟩ := bind_ok.mp run
  exact trans s u t (hx s a u first) (hg a u b t rest)

theorem Returns.check {p : Prop} [Decidable p] {e : ε} {g : α → EStateM ε σ β}
    {m : EStateM ε σ β} (h : Returns R m) :
    Returns R (if p then throw e >>= g else m) :=
  fun s b t run => h s b t (check_ok.mp run).2

theorem Returns.loop (refl : ∀ s, R s s) (trans : ∀ s t u, R s t → R t u → R s u)
    {step : β → α → EStateM ε σ β} (pass : ∀ b x, Returns R (step b x))
    (xs : List α) (b : β) : Returns R (xs.foldlM step b) := by
  induction xs generalizing b with
  | nil => exact (Keeps.pure refl b).returns
  | cons x xs ih => exact Returns.bind trans (pass b x) ih

end Returns

def Raises (P : ε → Prop) (m : EStateM ε σ α) : Prop :=
  ∀ s e t, m s = .error e t → P e

section Raises

variable {P : ε → Prop}

theorem Raises.pure (a : α) : Raises P (pure a : EStateM ε σ α) :=
  fun _ _ _ run => (pure_error.mp run).elim

theorem Raises.throw {e : ε} (h : P e) : Raises P (throw e : EStateM ε σ α) :=
  fun _ _ _ run => (throw_error.mp run).1 ▸ h

theorem Raises.bind {x : EStateM ε σ α} {g : α → EStateM ε σ β}
    (hx : Raises P x) (hg : ∀ a, Raises P (g a)) : Raises P (x >>= g) := by
  intro s e t run
  rcases bind_error.mp run with h | ⟨a, u, _, h⟩
  · exact hx s e t h
  · exact hg a u e t h

theorem Raises.ite {p : Prop} [Decidable p] {x y : EStateM ε σ α} (hx : Raises P x)
    (hy : Raises P y) : Raises P (if p then x else y) := by
  split
  · exact hx
  · exact hy

theorem Raises.check {p : Prop} [Decidable p] {e : ε} {g : α → EStateM ε σ β}
    {m : EStateM ε σ β} (he : P e) (hm : Raises P m) :
    Raises P (if p then MonadExcept.throw e >>= g else m) := by
  refine Raises.ite ?_ hm
  intro s e' t run
  rcases bind_error.mp run with thrown | ⟨a, u, thrown, _⟩
  · exact (throw_error.mp thrown).1 ▸ he
  · exact (throw_ok.mp thrown).elim

theorem Raises.loop {step : β → α → EStateM ε σ β} (pass : ∀ b x, Raises P (step b x))
    (xs : List α) (b : β) : Raises P (xs.foldlM step b) := by
  induction xs generalizing b with
  | nil => exact Raises.pure b
  | cons x xs ih => exact Raises.bind (pass b x) ih

end Raises

/-! A loop over a list that carries a value. What one pass keeps, of the
elements done so far, the value and the state, the whole loop keeps. -/
section Loop

variable {step : β → α → EStateM ε σ β} {I : List α → β → σ → Prop}

theorem loop_mem (done : List α) {xs : List α} {b b' : β} {s s' : σ}
    (pass : ∀ done x b s b' s', x ∈ xs → I done b s → step b x s = .ok b' s' →
      I (done ++ [x]) b' s')
    (start : I done b s) (run : xs.foldlM step b s = .ok b' s') : I (done ++ xs) b' s' := by
  induction xs generalizing done b s with
  | nil =>
    obtain ⟨rfl, rfl⟩ := pure_ok.mp run
    rwa [List.append_nil]
  | cons x xs ih =>
    obtain ⟨b₁, s₁, first, rest⟩ := bind_ok.mp run
    have more := ih (done ++ [x])
      (fun done y b s b' s' member => pass done y b s b' s' (List.mem_cons_of_mem x member))
      (pass done x b s b₁ s₁ List.mem_cons_self start first) rest
    rwa [List.append_assoc] at more

theorem loop_ok (done : List α) {xs : List α} {b b' : β} {s s' : σ}
    (pass : ∀ done x b s b' s', I done b s → step b x s = .ok b' s' → I (done ++ [x]) b' s')
    (start : I done b s) (run : xs.foldlM step b s = .ok b' s') : I (done ++ xs) b' s' :=
  loop_mem done (fun done x b s b' s' _ => pass done x b s b' s') start run

theorem loop_error (done : List α) {xs : List α} {b : β} {s s' : σ} {e : ε}
    (pass : ∀ done x b s b' s', I done b s → step b x s = .ok b' s' → I (done ++ [x]) b' s')
    (start : I done b s) (run : xs.foldlM step b s = .error e s') :
    ∃ pre x post b₁ s₁, xs = pre ++ x :: post ∧ I (done ++ pre) b₁ s₁ ∧
      step b₁ x s₁ = .error e s' := by
  induction xs generalizing done b s with
  | nil => exact (pure_error.mp run).elim
  | cons x xs ih =>
    rcases bind_error.mp run with here | ⟨b₁, s₁, first, rest⟩
    · exact ⟨[], x, xs, b, s, rfl, by rwa [List.append_nil], here⟩
    · obtain ⟨pre, y, post, b₂, s₂, rfl, held, thrown⟩ :=
        ih (done ++ [x]) (pass done x b s b₁ s₁ start first) rest
      refine ⟨x :: pre, y, post, b₂, s₂, rfl, ?_, thrown⟩
      rwa [List.append_assoc] at held

theorem loop_snoc {xs : List α} {x : α} {b b' b'' : β} {s s' s'' : σ}
    (before : xs.foldlM step b s = .ok b' s') (next : step b' x s' = .ok b'' s'') :
    (xs ++ [x]).foldlM step b s = .ok b'' s'' := by
  rw [List.foldlM_append]
  exact bind_ok.mpr ⟨b', s', before, bind_ok.mpr ⟨b'', s'', next, rfl⟩⟩

theorem loop_keeps {xs : List α} {b b' : β} {s s' : σ} {P : σ → Prop}
    (pass : ∀ x b s b' s', P s → step b x s = .ok b' s' → P s')
    (start : P s) (run : xs.foldlM step b s = .ok b' s') : P s' :=
  loop_ok (I := fun _ _ s => P s) [] (fun _ => pass) start run

end Loop

end Program
