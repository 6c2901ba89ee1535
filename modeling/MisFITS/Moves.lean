import Mathlib.Data.List.Induction
import Mathlib.Logic.Function.Basic

/-! Moves from place to place of a store, one after the other, and where the
value that ends up at a place has come from. -/
namespace Moves

variable {K V : Type} [DecidableEq K]

/-- Each move puts at its second place what it makes of the store and its places. -/
def run (make : (K → V) → K → K → V) (moves : List (K × K)) (store : K → V) : K → V :=
  moves.foldl (fun s m => Function.update s m.2 (make s m.1 m.2)) store

section run

variable {make : (K → V) → K → K → V} {moves : List (K × K)} {store : K → V} {a b : K} {v : V}

@[simp] theorem run_nil : run make [] store = store := rfl

theorem run_append : run make (moves ++ [(a, b)]) store =
    Function.update (run make moves store) b (make (run make moves store) a b) := by
  rw [run, List.foldl_append]
  rfl

theorem run_filled (all : ∀ m ∈ moves, m.2 = b → ∀ s, make s m.1 m.2 = v)
    (there : ∃ m ∈ moves, m.2 = b) : run make moves store b = v := by
  induction moves using List.reverseRecOn with
  | nil =>
    obtain ⟨_, member, _⟩ := there
    cases member
  | append_singleton moves m ih =>
    rw [run_append]
    by_cases last : m.2 = b
    · rw [← last, Function.update_self]
      exact all m (by simp) last _
    · rw [Function.update_of_ne (Ne.symm last)]
      apply ih (fun n member => all n (List.mem_append_left _ member))
      obtain ⟨n, member, here⟩ := there
      rcases List.mem_append.mp member with before | this
      · exact ⟨n, before, here⟩
      · cases List.mem_singleton.mp this
        exact absurd here last

end run

variable (convert : K → K → V → V)

/-- The place that the value of a place has come from, and what the moves have made of it. -/
def origin (moves : List (K × K)) : K → K × (V → V) :=
  run (fun o a b => ((o a).1, convert a b ∘ (o a).2)) moves (fun b => (b, id))

theorem run_origin (moves : List (K × K)) (store : K → V) (b : K) :
    run (fun s a b => convert a b (s a)) moves store b =
      (origin convert moves b).2 (store (origin convert moves b).1) := by
  induction moves using List.reverseRecOn generalizing b with
  | nil => rfl
  | append_singleton moves m ih =>
    unfold origin
    rw [run_append, run_append]
    by_cases here : b = m.2
    · subst here
      rw [Function.update_self, Function.update_self, ih]
      rfl
    · rw [Function.update_of_ne here, Function.update_of_ne here]
      exact ih b

end Moves
