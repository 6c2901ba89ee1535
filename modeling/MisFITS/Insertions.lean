import Mathlib.Algebra.BigOperators.Group.List.Basic
import Mathlib.Algebra.Ring.Int.Defs
import Mathlib.Data.List.Basic

/-! Lists into which elements are put and from which they are taken: where the others go,
and how much lies in front of them. -/
namespace Insertions

variable {α β : Type} {x : α} {xs : List α} {i n m : Nat} {size : α → Int}

inductive Splice (α : Type) where
  | insert (i : Nat) (x : α)
  | erase (i : Nat)

namespace Splice

def on : Splice α → List α → List α
  | insert i x, xs => xs.take i ++ x :: xs.drop i
  | erase i, xs => xs.eraseIdx i

def map (f : α → β) : Splice α → Splice β
  | insert i x => insert i (f x)
  | erase i => erase i

def carry : Splice α → Nat → Option Nat
  | insert i _, n => some (if i ≤ n then n + 1 else n)
  | erase i, n => if n = i then none else some (if i < n then n - 1 else n)

/-- What comes to lie in front of a place, less what no longer does. -/
def growth (size : α → Int) (xs : List α) : Splice α → Nat → Int
  | insert i x, n => if i ≤ n then size x else 0
  | erase i, n => if i < n then -(xs[i]?.elim 0 size) else 0

def Inside (length : Nat) : Splice α → Prop
  | insert i _ => i ≤ length
  | erase i => i < length

end Splice

def front (size : α → Int) (xs : List α) (n : Nat) : Int := ((xs.take n).map size).sum

@[simp] theorem map_on (f : α → β) (e : Splice α) : (e.on xs).map f = (e.map f).on (xs.map f) := by
  cases e with
  | insert i x => simp [Splice.on, Splice.map]
  | erase i => simp [Splice.on, Splice.map, List.eraseIdx_map]

@[simp] theorem carry_map (f : α → β) (e : Splice α) : (e.map f).carry = e.carry := by
  cases e <;> rfl

theorem getElem?_carry {e : Splice α} (inside : e.Inside xs.length) (carried : e.carry n = some m) :
    (e.on xs)[m]? = xs[n]? := by
  cases e with
  | insert i x =>
    have length : (xs.take i).length = i := List.length_take_of_le inside
    simp only [Splice.carry, Option.some.injEq] at carried
    subst carried
    split
    · rename_i behind
      have next : n + 1 - i = n - i + 1 := by omega
      rw [Splice.on, List.getElem?_append_right (by omega), length, next]
      simp [Nat.add_sub_cancel' behind]
    · rw [Splice.on, List.getElem?_append_left (by omega)]
      simp [show n < i by omega]
  | erase i =>
    simp only [Splice.carry] at carried
    split at carried
    · cases carried
    · cases carried
      rw [Splice.on, List.getElem?_eraseIdx]
      split
      · rw [if_neg (by omega)]
        congr 1
        omega
      · rw [if_pos (by omega)]

theorem front_insert (inside : i ≤ xs.length) (n : Nat) :
    front size (Splice.on (.insert i x) xs) (if i ≤ n then n + 1 else n) =
      front size xs n + if i ≤ n then size x else 0 := by
  have length : (xs.take i).length = i := List.length_take_of_le inside
  split
  · rename_i behind
    have next : n + 1 - i = n - i + 1 := by omega
    have whole : xs.take n = xs.take i ++ (xs.drop i).take (n - i) := by
      rw [← List.take_add, Nat.add_sub_cancel' behind]
    rw [front, front, Splice.on, List.take_append, length, next, whole, List.take_take,
      Nat.min_eq_right (by omega)]
    simp [add_assoc, add_comm (size x)]
  · rw [front, front, Splice.on, List.take_append, length, List.take_take, Nat.min_eq_left (by omega)]
    simp [show n - i = 0 by omega]

theorem front_erase (inside : i < xs.length) :
    front size (Splice.on (.erase i) xs) (if i < n then n - 1 else n) =
      front size xs n + if i < n then -(xs[i]?.elim 0 size) else 0 := by
  have length : (xs.take i).length = i := List.length_take_of_le (Nat.le_of_lt inside)
  split
  · rename_i behind
    have next : n - i = n - 1 - i + 1 := by omega
    have whole : xs.take n = xs.take i ++ xs[i] :: (xs.drop (i + 1)).take (n - 1 - i) := by
      have split : xs.take n = xs.take i ++ (xs.drop i).take (n - i) := by
        rw [← List.take_add, Nat.add_sub_cancel' (Nat.le_of_lt behind)]
      rw [split, next, List.drop_eq_getElem_cons inside, List.take_succ_cons]
    rw [front, front, Splice.on, List.eraseIdx_eq_take_drop_succ, List.take_append, length, whole,
      List.take_take, Nat.min_eq_right (by omega), List.getElem?_eq_getElem inside]
    simp only [List.map_append, List.sum_append, List.map_cons, List.sum_cons, Option.elim]
    omega
  · rw [front, front, Splice.on, List.eraseIdx_eq_take_drop_succ, List.take_append, length,
      List.take_take, Nat.min_eq_left (by omega)]
    simp [show n - i = 0 by omega]

theorem front_carry (size : α → Int) {e : Splice α} (inside : e.Inside xs.length)
    (carried : e.carry n = some m) :
    front size (e.on xs) m = front size xs n + e.growth size xs n := by
  cases e with
  | insert i x =>
    simp only [Splice.carry, Option.some.injEq] at carried
    subst carried
    exact front_insert inside n
  | erase i =>
    simp only [Splice.carry] at carried
    split at carried
    · cases carried
    · cases carried
      exact front_erase inside

end Insertions
