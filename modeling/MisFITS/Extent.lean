import Mathlib.Algebra.BigOperators.Group.List.Basic
import Mathlib.Algebra.Ring.Int.Defs
import Mathlib.Logic.Function.Basic
import MisFITS.Exception

/-! The shape of a cell, after `extent.hpp` and `extent.cc`. A `LONGLONG` is an
integer; the one conversion to `int` that matters, in `nelem`, is explicit. -/
namespace MisFITS

/-- Conversion to a 32-bit `int`. -/
def toInt (x : Int) : Int := x.bmod (2 ^ 32)

theorem toInt_of_lt {x : Int} (h : 0 ≤ x) (lt : x < 2 ^ 31) : toInt x = x :=
  Int.bmod_eq_of_le (by omega) (by omega)

theorem toInt_bounds (x : Int) : -2147483648 ≤ toInt x ∧ toInt x < 2147483648 := by
  have least := Int.le_bmod (x := x) (m := 2 ^ 32) (by decide)
  have most := Int.bmod_lt (x := x) (m := 2 ^ 32) (by decide)
  exact ⟨least, most⟩

abbrev Extent := List Int

structure Shape where
  axes : List Int
  noUnit : 1 ∉ axes

namespace Extent

/-- The constructor: the first axis always, the others only when above one. -/
def make (e0 e1 e2 e3 e4 e5 e6 e7 e8 e9 : Int) : Extent :=
  e0 :: [e1, e2, e3, e4, e5, e6, e7, e8, e9].filter (fun e => 1 < e)

/-- `std::accumulate` keeps its sum in the type of the initial value, an `int`. -/
def nelem (e : Extent) : Int := e.foldl (fun acc x => toInt (acc * x)) 1

def naxes (e : Extent) : Nat := e.length

def squeeze (e : Extent) : Extent := e.filter (fun x => x ≠ 1)

def equal (a b : Extent) : Bool := a.squeeze = b.squeeze

def toStringFrom : Extent → String
  | [] => ""
  | [d] => toString d ++ ")"
  | d :: rest => toString d ++ "," ++ toStringFrom rest

/-- `to_string`: without axes, `naxes - 1` wraps and the loop runs off the vector. -/
def toText : Extent → Except Exception String
  | [] => .error .overrun
  | e => .ok ("(" ++ toStringFrom e)

@[simp] theorem equal_iff {a b : Extent} : equal a b = true ↔ a.squeeze = b.squeeze := by
  simp [equal]

theorem toInt_mul (a x : Int) : toInt (toInt a * x) = toInt (a * x) :=
  Int.bmod_mul_bmod

theorem foldl_nelem (e : Extent) (a : Int) :
    e.foldl (fun acc x => toInt (acc * x)) (toInt a) = toInt (a * e.prod) := by
  induction e generalizing a with
  | nil => simp
  | cons x e ih => rw [List.foldl_cons, toInt_mul, ih, List.prod_cons, Int.mul_assoc]

theorem nelem_eq (e : Extent) : e.nelem = toInt e.prod := by
  have h := foldl_nelem e 1
  rw [Int.one_mul] at h
  exact h

theorem nelem_of_lt {e : Extent} (h : 0 ≤ e.prod) (lt : e.prod < 2 ^ 31) : e.nelem = e.prod := by
  rw [nelem_eq, toInt_of_lt h lt]

variable {a b : Extent} {β : Type}

def shape (e : Extent) : Shape where
  axes := e.squeeze
  noUnit := by simp [squeeze]

theorem equal_iff_shape : equal a b = true ↔ a.shape = b.shape := by
  rw [equal_iff, shape, shape, Shape.mk.injEq]

theorem squeeze_axes (s : Shape) : squeeze s.axes = s.axes := by
  refine List.filter_eq_self.mpr (fun x member => ?_)
  have other : x ≠ 1 := fun one => s.noUnit (one ▸ member)
  simpa using other

theorem squeeze_squeeze (e : Extent) : e.squeeze.squeeze = e.squeeze := squeeze_axes e.shape

theorem equal_squeeze (e : Extent) : equal e e.squeeze = true :=
  equal_iff.mpr (squeeze_squeeze e).symm

theorem shape_squeeze (e : Extent) : shape e.squeeze = e.shape :=
  (equal_iff_shape.mp (equal_squeeze e)).symm

theorem equal_equivalence : Equivalence (fun a b => equal a b = true) := by
  simp only [equal_iff_shape]
  exact eq_equivalence.comap shape

theorem squeeze_unit (before behind : Extent) :
    squeeze (before ++ 1 :: behind) = squeeze (before ++ behind) := by simp [squeeze]

theorem squeeze_cons_of_ne {x : Int} {e : Extent} (other : x ≠ 1) :
    squeeze (x :: e) = x :: squeeze e := List.filter_cons_of_pos (by simpa using other)

/-- What a dimension of one makes no difference to, wherever it stands, is what is
computed from the shape. -/
theorem factors_iff {f : Extent → β} : f.FactorsThrough shape ↔
    ∀ before behind, f (before ++ 1 :: behind) = f (before ++ behind) := by
  constructor
  · intro factors before behind
    exact factors (equal_iff_shape.mp (equal_iff.mpr (squeeze_unit before behind)))
  · intro unit
    have squeezed : ∀ e before : Extent, f (before ++ e) = f (before ++ e.squeeze) := by
      intro e
      induction e with
      | nil => exact fun _ => rfl
      | cons x e ih =>
        intro before
        by_cases one : x = 1
        · rw [one, unit, ih]
          exact congrArg (fun e => f (before ++ e)) (squeeze_unit [] e).symm
        · rw [squeeze_cons_of_ne one, List.append_cons, ih, ← List.append_cons]
    intro a b same
    have first := squeezed a []
    have second := squeezed b []
    rw [equal_iff.mp (equal_iff_shape.mpr same)] at first
    exact first.trans second.symm

theorem prod_factors : Function.FactorsThrough (fun e : Extent => e.prod) shape := by
  refine factors_iff.mpr (fun before behind => ?_)
  rw [List.prod_append, List.prod_cons, Int.one_mul, List.prod_append]

theorem prod_squeeze (e : Extent) : e.squeeze.prod = e.prod := prod_factors (shape_squeeze e)

theorem nelem_factors : nelem.FactorsThrough shape := by
  intro a b same
  rw [nelem_eq, nelem_eq]
  exact congrArg toInt (prod_factors same)

theorem nelem_squeeze (e : Extent) : e.squeeze.nelem = e.nelem := nelem_factors (shape_squeeze e)

theorem nelem_equal (same : equal a b = true) : a.nelem = b.nelem :=
  nelem_factors (equal_iff_shape.mp same)

end Extent
end MisFITS
