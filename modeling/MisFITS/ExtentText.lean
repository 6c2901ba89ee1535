import MisFITS.ColumnInfo
import MisFITS.Separated

/-! The text of an extent, as it stands in TDIM, and what can be read from it. -/
namespace MisFITS
open Separated

namespace Extent

variable {e : Extent} {d : Int} {n : Nat}

def numeral (d : Int) : List Char := (toString d).toList

def ofDigits (digits : List Char) : Option Nat :=
  if digits ≠ [] ∧ digits.all Char.isDigit then some (Nat.ofDigitChars 10 digits 0) else none

def ofNumeral : List Char → Option Int
  | '-' :: digits => (ofDigits digits).map (fun n : Nat => -(n : Int))
  | digits => (ofDigits digits).map (fun n : Nat => (n : Int))

theorem digits_toDigits : ∀ c ∈ Nat.toDigits 10 n, c.isDigit :=
  fun _ member => Nat.isDigit_of_mem_toDigits (by decide) (by decide) member

theorem ofDigits_toDigits (n : Nat) : ofDigits (Nat.toDigits 10 n) = some n := by
  unfold ofDigits
  rw [if_pos ⟨Nat.toDigits_ne_nil, List.all_eq_true.mpr digits_toDigits⟩, Nat.ofDigitChars_ten_toDigits]

theorem numeral_of_nonneg (nonneg : 0 ≤ d) : numeral d = Nat.toDigits 10 d.toNat := by
  unfold numeral
  rw [Int.toString_eq_repr, Int.repr_eq_if, if_pos nonneg, Nat.toList_repr]

theorem numeral_of_neg (negative : d < 0) : numeral d = '-' :: Nat.toDigits 10 (-d).toNat := by
  unfold numeral
  rw [Int.toString_eq_repr, Int.repr_eq_if, if_neg (by omega), String.toList_append, Nat.toList_repr]
  rfl

theorem ofNumeral_numeral (d : Int) : ofNumeral (numeral d) = some d := by
  by_cases nonneg : 0 ≤ d
  · have value := ofDigits_toDigits d.toNat
    rw [numeral_of_nonneg nonneg]
    cases digits : Nat.toDigits 10 d.toNat with
    | nil => exact absurd digits Nat.toDigits_ne_nil
    | cons c rest =>
      have digit : c.isDigit := digits_toDigits c (by rw [digits]; exact List.mem_cons_self)
      have other : c ≠ '-' := by
        rintro rfl
        exact absurd digit (by decide)
      rw [digits] at value
      unfold ofNumeral
      split
      · rename_i same
        cases same
        exact absurd rfl other
      · rw [value, Option.map_some, Int.toNat_of_nonneg nonneg]
  · rw [numeral_of_neg (by omega)]
    change (ofDigits _).map _ = _
    rw [ofDigits_toDigits, Option.map_some, Int.toNat_of_nonneg (by omega), Int.neg_neg]

theorem comma_not_mem_numeral (d : Int) : ',' ∉ numeral d := by
  have plain : ∀ n, ',' ∉ Nat.toDigits 10 n := fun n member =>
    absurd (digits_toDigits ',' member) (by decide)
  by_cases nonneg : 0 ≤ d
  · rw [numeral_of_nonneg nonneg]
    exact plain _
  · rw [numeral_of_neg (by omega), List.mem_cons, not_or]
    exact ⟨by decide, plain _⟩

def ofText (text : String) : Option Extent :=
  match text.toList with
  | '(' :: axes => if axes.getLast? = some ')' then decode ',' ofNumeral axes.dropLast else none
  | _ => none

theorem toStringFrom_eq (nonempty : e ≠ []) :
    (toStringFrom e).toList = encode ',' numeral e ++ [')'] := by
  induction e with
  | nil => exact absurd rfl nonempty
  | cons d e ih =>
    cases e with
    | nil =>
      rw [toStringFrom, String.toList_append, encode_singleton]
      rfl
    | cons d' e =>
      have rest := ih (List.cons_ne_nil d' e)
      rw [toStringFrom, String.toList_append, String.toList_append, rest,
        encode_cons (List.cons_ne_nil d' e)]
      · simp [numeral]
      · simp

theorem toText_eq (nonempty : e ≠ []) : toText e = .ok ("(" ++ toStringFrom e) := by
  cases e with
  | nil => exact absurd rfl nonempty
  | cons d e => rfl

theorem toList_toText (nonempty : e ≠ []) :
    ("(" ++ toStringFrom e).toList = '(' :: (encode ',' numeral e ++ [')']) := by
  rw [String.toList_append, toStringFrom_eq nonempty]
  rfl

theorem ofText_toText (nonempty : e ≠ []) : ofText ("(" ++ toStringFrom e) = some e := by
  unfold ofText
  rw [toList_toText nonempty]
  change (if _ then decode ',' ofNumeral _ else none) = _
  rw [List.getLast?_concat, if_pos rfl, List.dropLast_concat]
  exact decode_encode (fun d _ => comma_not_mem_numeral d) (fun d _ => ofNumeral_numeral d) nonempty

theorem ofText_of_run {text : String} (run : toText e = .ok text) : ofText text = some e := by
  have nonempty : e ≠ [] := by
    rintro rfl
    cases run
  cases (toText_eq nonempty).symm.trans run
  exact ofText_toText nonempty

theorem toText_form (nonempty : e ≠ []) :
    "(" ++ toStringFrom e = "(" ++ String.intercalate "," (e.map toString) ++ ")" := by
  refine String.toList_injective ?_
  rw [toList_toText nonempty, String.toList_append, String.toList_append, String.toList_intercalate,
    List.map_map]
  rfl

structure Readable (e : Extent) (text : String) : Prop where
  runs : toText e = .ok text
  form : text = "(" ++ String.intercalate "," (e.map toString) ++ ")"
  back : ofText text = some e
  unique : ∀ e', toText e' = .ok text → e' = e

/-- An extent has a text that gives it back exactly when it has an axis. -/
theorem readable_iff (e : Extent) : (∃ text, Readable e text) ↔ e ≠ [] := by
  constructor
  · rintro ⟨text, readable⟩ rfl
    cases readable.runs
  · intro nonempty
    refine ⟨_, toText_eq nonempty, toText_form nonempty, ofText_toText nonempty, fun e' run => ?_⟩
    exact Option.some.inj ((ofText_of_run run).symm.trans (ofText_toText nonempty))

/-- What is left of a scalar when it is squeezed has no axes, and no text. -/
theorem not_readable : squeeze (make 1 1 1 1 1 1 1 1 1 1) = [] ∧
    toText (squeeze (make 1 1 1 1 1 1 1 1 1 1)) = .error .overrun := ⟨by decide, rfl⟩

end Extent
end MisFITS
