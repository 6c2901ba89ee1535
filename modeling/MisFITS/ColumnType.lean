import MisFITS.Exception

/-! Column types, after `types.hpp` and `types.cc`. -/
namespace MisFITS.ColumnType

/-- `ColumnType::ID`. `other` is any type code of a header outside of the enumeration. -/
inductive ID where
  | bit | byte | logical | string | short | long | longLong | float | double
  | complex | doubleComplex | ushort | ulong
  | other (code : Int)
  deriving DecidableEq, Repr

/-- The instances of `Impl<T>`, which is what a `SpecPtr` can point to. -/
inductive Spec where
  | bit | byte | logical | string | short | long | longLong | float | double
  | ushort | ulong
  deriving DecidableEq, Repr

def Spec.id : Spec → ID
  | .bit => .bit | .byte => .byte | .logical => .logical | .string => .string
  | .short => .short | .long => .long | .longLong => .longLong
  | .float => .float | .double => .double | .ushort => .ushort | .ulong => .ulong

def Spec.code : Spec → Char
  | .bit => 'X' | .byte => 'B' | .logical => 'L' | .string => 'A'
  | .short => 'I' | .long => 'J' | .longLong => 'K'
  | .float => 'E' | .double => 'D' | .ushort => 'U' | .ulong => 'V'

def specFromId : ID → Except Exception Spec
  | .bit => .ok .bit | .byte => .ok .byte | .logical => .ok .logical | .string => .ok .string
  | .short => .ok .short | .long => .ok .long | .longLong => .ok .longLong
  | .float => .ok .float | .double => .ok .double | .ushort => .ok .ushort | .ulong => .ok .ulong
  | .complex | .doubleComplex | .other _ => .error (.assert "unknown type id")

theorem specFromId_id (s : Spec) : specFromId s.id = .ok s := by cases s <;> rfl

theorem id_of_specFromId {i : ID} {s : Spec} (h : specFromId i = .ok s) : s.id = i := by
  cases i <;> cases h <;> rfl

@[simp] theorem Spec.id_inj {s s' : Spec} : s.id = s'.id ↔ s = s' := by
  constructor
  · intro h
    have same := congrArg specFromId h
    rw [specFromId_id, specFromId_id] at same
    exact Except.ok.inj same
  · exact congrArg Spec.id

end MisFITS.ColumnType
