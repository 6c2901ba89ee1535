import Mathlib.Algebra.BigOperators.Group.List.Basic
import Mathlib.Algebra.Ring.Int.Defs

/-! Segments of a line that lie end to end. -/
namespace Segments

variable {α : Type} {offset size : α → Int}

/-- The segments fill the line from `start` to `stop`, each one beginning where
the one before it ends. -/
def Tiles (offset size : α → Int) : Int → Int → List α → Prop
  | start, stop, [] => start = stop
  | start, stop, x :: xs => offset x = start ∧ Tiles offset size (start + size x) stop xs

/-- Segments tile just when each is behind the sizes before it. -/
theorem tiles_iff {start stop : Int} {xs : List α} :
    Tiles offset size start stop xs ↔
      (∀ i x, xs[i]? = some x → offset x = start + ((xs.take i).map size).sum) ∧
        start + (xs.map size).sum = stop := by
  induction xs generalizing start with
  | nil => simp [Tiles]
  | cons x xs ih =>
    simp only [Tiles, ih, List.map_cons, List.sum_cons, Int.add_assoc]
    constructor
    · rintro ⟨first, rest, stops⟩
      refine ⟨fun i y entry => ?_, stops⟩
      cases i with
      | zero =>
        obtain rfl : x = y := by simpa using entry
        simpa using first
      | succ i => simpa using rest i y (by simpa using entry)
    · rintro ⟨all, stops⟩
      refine ⟨by simpa using all 0 x rfl, fun i y entry => ?_, stops⟩
      simpa using all (i + 1) y (by simpa using entry)

end Segments
