import Mathlib.Data.List.Basic

/-! Text between marks: a mark inside of it is written twice, and a single one
ends it. -/
namespace Quotes

variable {α : Type} [DecidableEq α] (mark : α)

def double : List α → List α
  | [] => []
  | a :: text => if a = mark then mark :: mark :: double text else a :: double text

def undouble : List α → List α
  | [] => []
  | [a] => if a = mark then [] else [a]
  | a :: b :: rest =>
    if a = mark then (if b = mark then mark :: undouble rest else [])
    else a :: undouble (b :: rest)

variable {mark} {a : α} {text rest : List α} {n : Nat}

theorem double_length : (double mark text).length = text.length + text.count mark := by
  induction text with
  | nil => rfl
  | cons a text ih =>
    by_cases here : a = mark
    · simp only [double, here, if_true, List.length_cons, ih, List.count_cons_self]
      omega
    · simp only [double, here, if_false, List.length_cons, ih, List.count_cons_of_ne here]
      omega

theorem undouble_mark : undouble mark (mark :: mark :: rest) = mark :: undouble mark rest := by
  simp [undouble]

theorem undouble_other (other : a ≠ mark) : undouble mark (a :: rest) = a :: undouble mark rest := by
  cases rest <;> simp [undouble, other]

theorem undouble_double : undouble mark (double mark text) = text := by
  induction text with
  | nil => rfl
  | cons a text ih =>
    by_cases here : a = mark
    · simp only [double, here, if_true, undouble_mark, ih]
    · simp only [double, here, if_false, undouble_other here, ih]

theorem undouble_take_length (cut : n < (double mark text).length) :
    (undouble mark ((double mark text).take n)).length < text.length := by
  induction text generalizing n with
  | nil => cases cut
  | cons a text ih =>
    by_cases here : a = mark
    · simp only [double, here, if_true, List.length_cons] at cut ⊢
      match n with
      | 0 => simp [undouble]
      | 1 => simp [undouble]
      | n + 2 =>
        have shorter := ih (n := n) (by omega)
        simp only [List.take_succ_cons, undouble_mark, List.length_cons]
        omega
    · simp only [double, here, if_false, List.length_cons] at cut ⊢
      cases n with
      | zero => simp [undouble]
      | succ n =>
        have shorter := ih (n := n) (by omega)
        simp only [List.take_succ_cons, undouble_other here, List.length_cons]
        omega

end Quotes
