import Mathlib.Algebra.BigOperators.Group.List.Basic
import Mathlib.Algebra.Ring.Nat
import Mathlib.Data.List.Basic

/-! Parts of a list by their position, and lists written over a part. -/
namespace Slices

variable {α : Type} {xs ys : List α} {xss : List (List α)} {sizes : List Nat} {i j k n : Nat}

def slice (i n : Nat) (xs : List α) : List α := (xs.drop i).take n

def overlay (i : Nat) (ys xs : List α) : List α := xs.take i ++ (ys ++ xs.drop (i + ys.length))

/-- Where part `k` begins when parts of these sizes lie end to end. -/
def start (sizes : List Nat) (k : Nat) : Nat := (sizes.take k).sum

theorem overlay_length (room : i + ys.length ≤ xs.length) :
    (overlay i ys xs).length = xs.length := by
  simp only [overlay, List.length_append, List.length_take, List.length_drop]
  omega

theorem slice_overlay (room : i + ys.length ≤ xs.length) :
    slice i ys.length (overlay i ys xs) = ys := by
  have before : (xs.take i).length = i := List.length_take_of_le (by omega)
  simp only [slice, overlay]
  rw [List.drop_left' before, List.take_left]

theorem slice_overlay_before (apart : j + n ≤ i) (room : i ≤ xs.length) :
    slice j n (overlay i ys xs) = slice j n xs := by
  have before : (xs.take i).length = i := List.length_take_of_le (by omega)
  simp only [slice, overlay]
  rw [List.drop_append_of_le_length (by omega), List.take_append_of_le_length, List.drop_take,
    List.take_take, Nat.min_eq_left (by omega)]
  rw [List.length_drop]
  omega

theorem slice_overlay_behind (apart : i + ys.length ≤ j) (room : i ≤ xs.length) :
    slice j n (overlay i ys xs) = slice j n xs := by
  have before : (xs.take i).length = i := List.length_take_of_le (by omega)
  simp only [slice, overlay]
  rw [List.drop_append, List.drop_append, List.drop_drop, before,
    List.drop_of_length_le (by omega), List.drop_of_length_le (by omega)]
  congr 2
  simp only [List.nil_append]
  congr 1
  omega

theorem start_succ (entry : sizes[k]? = some n) : start sizes (k + 1) = start sizes k + n := by
  rw [start, List.take_add_one, entry, List.sum_append]
  simp [start]

theorem start_mono (le : j ≤ k) : start sizes j ≤ start sizes k := by
  obtain ⟨d, rfl⟩ := Nat.exists_eq_add_of_le le
  rw [start, start, List.take_add, List.sum_append]
  omega

theorem start_add_le (entry : sizes[j]? = some n) (lt : j < k) :
    start sizes j + n ≤ start sizes k :=
  (start_succ entry).symm.trans_le (start_mono lt)

theorem start_add_le_sum (entry : sizes[j]? = some n) : start sizes j + n ≤ sizes.sum := by
  have inside := (List.getElem?_eq_some_iff.mp entry).1
  have whole : start sizes sizes.length = sizes.sum := by rw [start, List.take_length]
  exact (start_add_le entry inside).trans_eq whole

theorem start_replicate (le : k ≤ j) : start (List.replicate j n) k = k * n := by
  rw [start, List.take_replicate, Nat.min_eq_left le, List.sum_replicate_nat]

theorem flatten_parts (entry : xss[k]? = some xs) :
    ((xss.take k).flatten).length = start (xss.map List.length) k ∧
      xss.flatten = (xss.take k).flatten ++ (xs ++ (xss.drop (k + 1)).flatten) := by
  obtain ⟨inside, rfl⟩ := List.getElem?_eq_some_iff.mp entry
  constructor
  · rw [List.length_flatten, start, List.map_take]
  · rw [← List.flatten_cons, ← List.drop_eq_getElem_cons inside, ← List.flatten_append,
      List.take_append_drop]

theorem flatten_set (entry : xss[k]? = some xs) (same : ys.length = xs.length) :
    (xss.set k ys).flatten = overlay (start (xss.map List.length) k) ys xss.flatten := by
  obtain ⟨before, parts⟩ := flatten_parts entry
  have inside := (List.getElem?_eq_some_iff.mp entry).1
  have here : (xss.set k ys)[k]? = some ys := List.getElem?_set_self inside
  obtain ⟨_, parts'⟩ := flatten_parts here
  have behind : xss.flatten.drop (start (xss.map List.length) k + ys.length) =
      (xss.drop (k + 1)).flatten := by
    rw [parts, same, ← before, ← List.append_assoc, ← List.length_append, List.drop_left]
  have front : xss.flatten.take (start (xss.map List.length) k) = (xss.take k).flatten := by
    rw [parts, ← before, List.take_left]
  rw [parts', overlay, behind, front, List.take_set_of_le (Nat.le_refl k),
    List.drop_set_of_lt (Nat.lt_succ_self k)]

theorem slice_flatten (entry : xss[k]? = some xs) :
    slice (start (xss.map List.length) k) xs.length xss.flatten = xs := by
  obtain ⟨before, parts⟩ := flatten_parts entry
  rw [slice, parts, List.drop_left' before, List.take_left]

end Slices
