import Mathlib.Data.Set.Lattice
import MisFITS.Program
import MisFITS.Run

/-! Steps that overwrite some places of a state and leave the other ones. Steps that
were interrupted and are done again from the start leave no trace. -/
namespace Overwrite
open Program

/-- The places of a state, and whether two states have the same there. -/
structure Places (σ ι : Type) where
  same : ι → σ → σ → Prop
  refl : ∀ i s, same i s s
  symm : ∀ {i s t}, same i s t → same i t s
  trans : ∀ {i s t u}, same i s t → same i t u → same i s u

variable {ε σ ι α : Type} {V : Places σ ι} {Inv : σ → Prop} {P Q A : Set ι}
  {m : EStateM ε σ Unit} {s t u s' t' : σ}

def Places.Agree (V : Places σ ι) (P : Set ι) (s t : σ) : Prop := ∀ i ∈ P, V.same i s t

theorem Places.Agree.refl (s : σ) : V.Agree P s s := fun i _ => V.refl i s

theorem Places.Agree.symm (h : V.Agree P s t) : V.Agree P t s :=
  fun i member => V.symm (h i member)

theorem Places.Agree.trans (h : V.Agree P s t) (h' : V.Agree P t u) : V.Agree P s u :=
  fun i member => V.trans (h i member) (h' i member)

theorem Places.Agree.mono (h : V.Agree P s t) (fewer : Q ⊆ P) : V.Agree Q s t :=
  fun i member => h i (fewer member)

/-- Wherever the program starts, with the invariant, it changes no other places than
these, whether it returns or throws. -/
structure Confined (V : Places σ ι) (Inv : σ → Prop) (P : Set ι) (m : EStateM ε σ Unit) :
    Prop where
  keeps : ∀ s, Inv s → Inv (after (m s))
  frame : ∀ s, Inv s → V.Agree Pᶜ s (after (m s))

def Settles (V : Places σ ι) (Inv : σ → Prop) (P : Set ι) (m : EStateM ε σ Unit) : Prop :=
  ∀ s t s' t', Inv s → Inv t → m s = .ok () s' → m t = .ok () t' → V.Agree P s' t'

theorem confined_of (both : ∀ s, Inv s → Inv (after (m s)) ∧ V.Agree Pᶜ s (after (m s))) :
    Confined V Inv P m := ⟨fun s inv => (both s inv).1, fun s inv => (both s inv).2⟩

theorem Confined.mono (h : Confined V Inv P m) (more : P ⊆ Q) : Confined V Inv Q m where
  keeps := h.keeps
  frame s inv := (h.frame s inv).mono (Set.compl_subset_compl.mpr more)

theorem Confined.ok (h : Confined V Inv P m) (inv : Inv s) (run : m s = .ok () s') :
    Inv s' ∧ V.Agree Pᶜ s s' := by
  have keeps := h.keeps s inv
  have frame := h.frame s inv
  rw [run] at keeps frame
  exact ⟨keeps, frame⟩

theorem Confined.error {e : ε} (h : Confined V Inv P m) (inv : Inv s) (run : m s = .error e s') :
    Inv s' ∧ V.Agree Pᶜ s s' := by
  have keeps := h.keeps s inv
  have frame := h.frame s inv
  rw [run] at keeps frame
  exact ⟨keeps, frame⟩

theorem Confined.bind {m' : Unit → EStateM ε σ Unit} (h : Confined V Inv P m)
    (h' : ∀ u, Confined V Inv P (m' u)) : Confined V Inv P (m >>= m') := by
  refine confined_of (fun s inv => ?_)
  cases run : m s with
  | ok u t =>
    obtain ⟨held, frame⟩ := h.ok inv run
    rw [bind_of_ok run]
    exact ⟨(h' u).keeps t held, frame.trans ((h' u).frame t held)⟩
  | error e t =>
    rw [bind_of_error run]
    exact h.error inv run

section Loop

variable {step : Unit → α → EStateM ε σ Unit} {place : α → Set ι} {xs : List α}

def covered (place : α → Set ι) (xs : List α) : Set ι := ⋃ x ∈ xs, place x

theorem covered_cons {x : α} : covered place (x :: xs) = place x ∪ covered place xs := by
  simp [covered]

theorem subset_covered {x : α} (member : x ∈ xs) : place x ⊆ covered place xs :=
  Set.subset_biUnion_of_mem (u := place) member

theorem loop_confined (pass : ∀ x ∈ xs, ∀ u, Confined V Inv (place x) (step u x)) :
    Confined V Inv (covered place xs) (xs.foldlM step ()) := by
  have within : ∀ ys : List α, (∀ y ∈ ys, y ∈ xs) → ∀ u,
      Confined V Inv (covered place xs) (ys.foldlM step u) := by
    intro ys
    induction ys with
    | nil => exact fun _ u => ⟨fun s inv => inv, fun s _ => .refl s⟩
    | cons y ys ih =>
      intro members u
      rw [List.foldlM_cons]
      exact ((pass y (members y List.mem_cons_self) u).mono
        (subset_covered (members y List.mem_cons_self))).bind
        (fun v => ih (fun z member => members z (List.mem_cons_of_mem y member)) v)
  exact within xs (fun _ member => member) ()

/-- Where two states agree, and wherever the passes of a loop write, they agree
when the loop has run from both. -/
theorem loop_settles (pass : ∀ x ∈ xs, ∀ u, Confined V Inv (place x) (step u x))
    (settles : ∀ x ∈ xs, ∀ u, Settles V Inv (place x) (step u x)) {v v' : Unit}
    (hs : Inv s) (ht : Inv t) (agree : V.Agree A s t)
    (runs : xs.foldlM step v s = .ok () s') (runt : xs.foldlM step v' t = .ok () t') :
    V.Agree (A ∪ covered place xs) s' t' := by
  induction xs generalizing s t A with
  | nil =>
    obtain ⟨_, rfl⟩ := pure_ok.mp runs
    obtain ⟨_, rfl⟩ := pure_ok.mp runt
    simpa [covered] using agree
  | cons x xs ih =>
    obtain ⟨_, s₁, firsts, rests⟩ := bind_ok.mp runs
    obtain ⟨_, t₁, firstt, restt⟩ := bind_ok.mp runt
    have here := List.mem_cons_self (a := x) (l := xs)
    obtain ⟨hs₁, frames⟩ := (pass x here ()).ok hs firsts
    obtain ⟨ht₁, framet⟩ := (pass x here ()).ok ht firstt
    have settled := settles x here () s t s₁ t₁ hs ht firsts firstt
    have first : V.Agree (A ∪ place x) s₁ t₁ := by
      intro i member
      by_cases written : i ∈ place x
      · exact settled i written
      · have kept := member.resolve_right written
        exact V.trans (V.symm (frames i written)) (V.trans (agree i kept) (framet i written))
    have rest := ih (fun y member => pass y (List.mem_cons_of_mem x member))
      (fun y member => settles y (List.mem_cons_of_mem x member)) hs₁ ht₁ first rests restt
    rwa [Set.union_assoc, ← covered_cons] at rest

/-- A loop that is run again from the start, in a state that differs no more than where
its passes write, ends as if it had run once. -/
theorem loop_again (pass : ∀ x ∈ xs, ∀ u, Confined V Inv (place x) (step u x))
    (settles : ∀ x ∈ xs, ∀ u, Settles V Inv (place x) (step u x)) (hs : Inv s) (ht : Inv t)
    (differ : V.Agree (covered place xs)ᶜ s t) (runs : xs.foldlM step () s = .ok () s')
    (runt : xs.foldlM step () t = .ok () t') : ∀ i, V.same i s' t' := by
  have all := loop_settles pass settles hs ht differ runs runt
  rw [Set.compl_union_self] at all
  exact fun i => all i (Set.mem_univ i)

end Loop

theorem attempts {A : Type} {failed : A → σ → σ → Prop} {start : σ → σ}
    {trace : List (A × σ)} (run : Run.Trace failed s trace) (inv : Inv (start s))
    (confined : ∀ a s s', failed a s s' → Inv (start s) →
      Inv (start s') ∧ V.Agree Pᶜ (start s) (start s')) :
    Inv (start (Run.last s trace)) ∧ V.Agree Pᶜ (start s) (start (Run.last s trace)) := by
  refine Run.Trace.last (R := fun s s' => Inv (start s) →
    Inv (start s') ∧ V.Agree Pᶜ (start s) (start s')) ?_ ?_ confined run inv
  · exact fun s inv => ⟨inv, .refl _⟩
  · intro s t u first later inv
    obtain ⟨middle, frame⟩ := first inv
    obtain ⟨ends, frame'⟩ := later middle
    exact ⟨ends, frame.trans frame'⟩

end Overwrite
