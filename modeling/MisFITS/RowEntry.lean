import MisFITS.BitSet
import MisFITS.Table

/-! Bound columns, after `row_entry.hpp` and `row_entry.cc`. A column is bound to
a variable of the program when it is made: its constructor runs on the variable,
and the value of the variable goes in and out of `read` and `write`. The buffer that a
`write` has filled before its call throws stays with the object: `Row.writeEntryBy`. -/
namespace MisFITS
open ColumnType Program HDU

/-- A call that fills an array from its start on. -/
def fill {α : Type} (values base : List α) : Except Exception (List α) :=
  if base.length < values.length then .error .overrun else .ok (values ++ base.drop values.length)

def drain {α : Type} (n : Int) (base : List α) : Except Exception (List α) :=
  if base.length < n then .error .overrun else .ok (base.take n.toNat)

def resizeTo {α : Type} (base : List α) (n : Nat) (value : α) : List α :=
  (base ++ List.replicate n value).take n

namespace Table

variable (api : Cfitsio) (t : Nat)

def readCol (T : StorageType) (colnum : Nat) (firstrow firstelem nelem : Int) : M (List T.Native) :=
  onFile (.table t) (readChdu · (api.readCol T colnum firstrow firstelem nelem))

def writeCol (T : StorageType) (colnum : Nat) (firstrow firstelem : Int) (data : List T.Native) :
    M Unit :=
  onFile (.table t) (editChdu · (api.writeCol T colnum firstrow firstelem data))

def readBytes (firstrow offset nbytes : Int) : M (List Byte) :=
  onFile (.table t) (readChdu · (api.readTblbytes firstrow offset nbytes))

def writeBytes (firstrow offset : Int) (data : List Byte) : M Unit :=
  onFile (.table t) (editChdu · (api.writeTblbytes firstrow offset data))

end Table

structure ColumnBase where
  colnum : Nat
  nelem : Int
  natomic : Int
  id : ID

def ColumnBase.ofInfo (info : ColumnInfo) : ColumnBase where
  colnum := info.colnum
  nelem := info.extent.nelem
  natomic := info.extent.nelem
  id := info.columnType.id

def StorageType.zero : (T : StorageType) → T.Native
  | .byte | .logical => (0 : BitVec 8)
  | .double => (0 : BitVec 64)
  | .float => (0 : BitVec 32)
  | .int | .long | .longLong | .short | .uint | .ulong | .ushort => (0 : Int)

namespace RowEntry

variable (api : Cfitsio) (t : Nat)

/-! ## `Column<T>` and `ColumnVector<T>` -/

namespace Column

/-- `ColumnInit<T>::init`, which only `byte_t` has a body for. -/
def init (T : StorageType) (info : ColumnInfo) : ColumnBase :=
  let it := ColumnBase.ofInfo info
  if T = .byte ∧ it.id = .bit then
    let natomic := it.natomic.tdiv 8
    { it with natomic := if natomic * 8 < it.nelem then natomic + 1 else natomic }
  else it

/-- The constructor. A vector is resized; what a pointer points to is not. -/
def make (T : StorageType) (vector : Bool) (info : ColumnInfo) :
    EStateM Exception (List T.Native) ColumnBase := do
  let it := init T info
  if vector then
    modify (resizeTo · (toSize it.natomic) T.zero)
  return it

def read (T : StorageType) (it : ColumnBase) (firstrow : Int) (base : List T.Native) :
    M (List T.Native) := do
  ofExcept (fill (← Table.readCol api t T it.colnum firstrow 1 it.natomic) base)

def write (T : StorageType) (it : ColumnBase) (firstrow : Int) (base : List T.Native) : M Unit := do
  let data ← ofExcept (drain it.natomic base)
  Table.writeCol api t T it.colnum firstrow 1 data

end Column

/-! ## `Column<bool>` and `BoolColumnVector` -/

structure BoolColumn extends ColumnBase where
  buffer : List Byte

namespace BoolColumn

def make (vector : Bool) (info : ColumnInfo) : EStateM Exception (List Bool) BoolColumn := do
  let it := ColumnBase.ofInfo info
  if vector then
    modify (resizeTo · (toSize it.natomic) false)
  return { it with buffer := List.replicate (toSize it.natomic) 0 }

def load (it : BoolColumn) (base : List Bool) (data : List Byte) :
    Except Exception (BoolColumn × List Bool) := do
  let buffer ← fill data it.buffer
  let chars ← drain it.natomic buffer
  return ({ it with buffer }, ← fill (chars.map (fun b => decide (b ≠ 0))) base)

def read (it : BoolColumn) (firstrow : Int) (base : List Bool) : M (BoolColumn × List Bool) := do
  ofExcept (load it base (← Table.readCol api t .logical it.colnum firstrow 1 it.natomic))

def write (it : BoolColumn) (firstrow : Int) (base : List Bool) : M BoolColumn := do
  let bits ← ofExcept (drain it.natomic base)
  let buffer ← ofExcept (fill (bits.map (fun v => if v then (1 : Byte) else 0)) it.buffer)
  let data ← ofExcept (drain it.natomic buffer)
  Table.writeCol api t .logical it.colnum firstrow 1 data
  return { it with buffer }

end BoolColumn

/-! ## `Column<BitSet>` -/

structure BitSetColumn extends ColumnBase where
  maxBits : Nat
  buffer : List Byte

namespace BitSetColumn

variable (S : DynamicBitset)

def make (info : ColumnInfo) : EStateM Exception S.Bits BitSetColumn := do
  let it := ColumnBase.ofInfo info
  modify (S.resize · (toSize it.nelem))
  let base ← get
  let natomic : Int ←
    if it.id = .bit then pure ((S.blocks base).length : Int)
    else if it.id = .logical then pure it.nelem
    else throw (.assert
      "can't only use a misFITS::BitSet object with BIT and LOGICAL FITS columns")
  return { it with
    natomic, maxBits := toSize (natomic * DynamicBitset.bitsPerBlock)
    buffer := List.replicate (toSize natomic) 0 }

def assign (base : S.Bits) (idx : Nat) : List Byte → Except Exception S.Bits
  | [] => .ok base
  | b :: buffer =>
    if idx < S.size base then assign (S.set base idx (decide (b ≠ 0))) (idx + 1) buffer
    else .error .overrun

def load (it : BitSetColumn) (base : S.Bits) (data : List Byte) :
    Except Exception (BitSetColumn × S.Bits) := do
  let buffer ← fill data it.buffer
  let base ←
    if it.id = .bit then
      let whole := S.resize base it.maxBits
      pure (S.resize (S.fromBlocks (inputBlocks buffer) whole) (toSize it.nelem))
    else if it.id = .logical then
      assign S base 0 (← drain it.natomic buffer)
    else .error (.assert "internal error")
  return ({ it with buffer }, base)

def read (it : BitSetColumn) (firstrow : Int) (base : S.Bits) : M (BitSetColumn × S.Bits) := do
  ofExcept (load S it base (← Table.readCol api t .byte it.colnum firstrow 1 it.buffer.length))

def store (it : BitSetColumn) (base : S.Bits) : Except Exception (List Byte) :=
  if it.id = .bit then outputBlocks (S.blocks base) it.buffer
  else if it.id = .logical then do
    let bits ← drain it.natomic ((List.range (S.size base)).map (S.test base))
    fill (bits.map (fun v => if v then (1 : Byte) else 0)) it.buffer
  else .error (.assert "internal error")

def write (it : BitSetColumn) (firstrow : Int) (base : S.Bits) : M BitSetColumn := do
  let buffer ← ofExcept (store S it base)
  let data ← ofExcept (drain it.natomic buffer)
  Table.writeCol api t .byte it.colnum firstrow 1 data
  return { it with buffer }

end BitSetColumn

/-! ## `Column<std::string>` and `StringColumnVector` -/

def terminated (s : List Byte) : List Byte := s.takeWhile (fun b => b ≠ 0)

structure StringColumn extends ColumnBase where
  buffer : List Byte
  offset : Int

namespace StringColumn

def make (info : ColumnInfo) : EStateM Exception (List Byte) StringColumn := do
  let it := ColumnBase.ofInfo info
  if info.columnType.id ≠ .string then
    throw (.assert "a std::string destination can only be used with a FITS 'A' column type")
  modify (resizeTo · (toSize info.nbytes) 0)
  return { it with
    natomic := info.nbytes, offset := info.offset
    buffer := List.replicate (toSize info.nbytes) 0 }

def load (it : StringColumn) (data : List Byte) : Except Exception (StringColumn × List Byte) := do
  let buffer ← fill data it.buffer
  return ({ it with buffer }, terminated (← drain it.natomic buffer))

def read (it : StringColumn) (firstrow : Int) : M (StringColumn × List Byte) := do
  ofExcept (load it (← Table.readBytes api t firstrow it.offset it.natomic))

def write (it : StringColumn) (firstrow : Int) (base : List Byte) : M StringColumn := do
  let spaces := List.replicate (toSize it.natomic) (0x20 : Byte)
  let buffer ← ofExcept (fill (base.take (toSize it.natomic)) spaces)
  Table.writeBytes api t firstrow it.offset buffer
  return { it with buffer }

end StringColumn

structure StringColumnVector extends ColumnBase where
  buffer : List Byte
  offset : Int
  width : Nat

namespace StringColumnVector

def firstAxis : Extent → Except Exception Nat
  | [] => .error .overrun
  | axis :: _ => .ok (toSize axis)

def make (info : ColumnInfo) : EStateM Exception (List (List Byte)) StringColumnVector := do
  let it := ColumnBase.ofInfo info
  let width ← ofExcept (firstAxis info.extent)
  if info.columnType.id ≠ .string then
    throw (.assert "a vector<std::string> destination can only be used with a FITS 'A' column type")
  if width = 0 then
    throw .divideByZero
  modify (resizeTo · (toSize it.nelem / width) [])
  return { it with
    natomic := info.nbytes, offset := info.offset, width
    buffer := List.replicate (toSize info.nbytes) 0 }

def split (width : Nat) : Nat → List Byte → Except Exception (List (List Byte))
  | 0, _ => .ok []
  | n + 1, chars =>
    if chars.length < width then .error .overrun
    else (split width n (chars.drop width)).map (terminated (chars.take width) :: ·)

def load (it : StringColumnVector) (base : List (List Byte)) (data : List Byte) :
    Except Exception (StringColumnVector × List (List Byte)) := do
  let buffer ← fill data it.buffer
  return ({ it with buffer }, ← split it.width base.length buffer)

def read (it : StringColumnVector) (firstrow : Int) (base : List (List Byte)) :
    M (StringColumnVector × List (List Byte)) := do
  ofExcept (load it base (← Table.readBytes api t firstrow it.offset it.natomic))

/-- The loop of `write`: a string that is shorter than the width is terminated. -/
def join (width : Nat) : List (List Byte) → List Byte → Except Exception (List Byte)
  | [], chars => .ok chars
  | s :: base, chars => do
    let chars ← fill (if s.length < width then s ++ [0] else s.take width) chars
    (join width base (chars.drop width)).map (chars.take width ++ ·)

def write (it : StringColumnVector) (firstrow : Int) (base : List (List Byte)) :
    M StringColumnVector := do
  let spaces := List.replicate (toSize it.natomic) (0x20 : Byte)
  let buffer ← ofExcept (join it.width base spaces)
  Table.writeBytes api t firstrow it.offset buffer
  return { it with buffer }

end StringColumnVector

theorem fill_ok {α : Type} {values base : List α} (room : values.length ≤ base.length) :
    fill values base = .ok (values ++ base.drop values.length) := by
  unfold fill
  rw [if_neg (by omega)]

theorem fill_length {α : Type} {values base filled : List α} (run : fill values base = .ok filled) :
    filled.length = base.length := by
  unfold fill at run
  split at run
  · cases run
  · cases run
    rw [List.length_append, List.length_drop]
    omega

theorem drain_ok {α : Type} {n : Int} {base : List α} (room : n ≤ base.length) :
    drain n base = .ok (base.take n.toNat) := by
  unfold drain
  rw [if_neg (by omega)]

namespace BoolColumn

variable {it it' : BoolColumn} {base base' : List Bool} {data : List Byte}

theorem load_kept (run : load it base data = .ok (it', base')) :
    ∃ buffer, it' = { it with buffer } ∧ buffer.length = it.buffer.length ∧
      base'.length = base.length := by
  obtain ⟨buffer, fills, run⟩ := except_bind_ok.mp run
  obtain ⟨chars, _, run⟩ := except_bind_ok.mp run
  obtain ⟨filled, takes, run⟩ := except_bind_ok.mp run
  cases run
  exact ⟨buffer, rfl, fill_length fills, fill_length takes⟩

theorem load_returns (room : it.natomic ≤ base.length) (chars : it.natomic ≤ it.buffer.length)
    (whole : data.length = it.natomic.toNat) :
    ∃ it' base', load it base data = .ok (it', base') := by
  have fills := fill_ok (show data.length ≤ it.buffer.length by omega)
  have kept := fill_length fills
  refine ⟨_, _, except_bind_ok.mpr ⟨_, fills, except_bind_ok.mpr ⟨_, drain_ok ?_,
    except_bind_ok.mpr ⟨_, fill_ok ?_, rfl⟩⟩⟩⟩
  · omega
  · rw [List.length_map, List.length_take]
    omega

end BoolColumn

namespace BitSetColumn

variable {S : DynamicBitset} {it it' : BitSetColumn} {base base' : S.Bits} {data : List Byte}

theorem assign_size (lawful : S.Lawful) {idx : Nat} {buffer : List Byte}
    (run : assign S base idx buffer = .ok base') : S.size base' = S.size base := by
  induction buffer generalizing base idx with
  | nil =>
    cases run
    rfl
  | cons b buffer ih =>
    rw [assign] at run
    split at run
    · exact (ih run).trans (lawful.size_set _ _ _)
    · cases run

theorem assign_returns (lawful : S.Lawful) {idx : Nat} {buffer : List Byte}
    (room : idx + buffer.length ≤ S.size base) : ∃ base', assign S base idx buffer = .ok base' := by
  induction buffer generalizing base idx with
  | nil => exact ⟨base, rfl⟩
  | cons b buffer ih =>
    rw [List.length_cons] at room
    rw [assign, if_pos (by omega)]
    exact ih (by rw [lawful.size_set]; omega)

theorem load_kept (lawful : S.Lawful) (run : load S it base data = .ok (it', base')) :
    ∃ buffer, it' = { it with buffer } ∧ buffer.length = it.buffer.length ∧
      (it.id = .bit → S.size base' = toSize it.nelem) ∧
      (it.id ≠ .bit → S.size base' = S.size base) := by
  obtain ⟨buffer, fills, run⟩ := except_bind_ok.mp run
  have kept := fill_length fills
  split at run
  · rename_i bit
    cases run
    exact ⟨buffer, rfl, kept, fun _ => lawful.size_resize _ _, fun other => absurd bit other⟩
  · rename_i other
    split at run
    · obtain ⟨chars, _, run⟩ := except_bind_ok.mp run
      obtain ⟨flags, assigns, run⟩ := except_bind_ok.mp run
      cases run
      exact ⟨buffer, rfl, kept, fun bit => absurd bit other, fun _ => assign_size lawful assigns⟩
    · cases run

theorem load_bit (bit : it.id = .bit) (whole : data.length = it.buffer.length) (base : S.Bits) :
    ∃ it' base', load S it base data = .ok (it', base') := by
  unfold load
  rw [fill_ok whole.le]
  simp only [bit, if_true]
  exact ⟨_, _, rfl⟩

theorem load_logical (lawful : S.Lawful) (logical : it.id = .logical)
    (whole : data.length = it.buffer.length) (room : it.natomic ≤ S.size base)
    (chars : it.natomic ≤ it.buffer.length) : ∃ it' base', load S it base data = .ok (it', base') := by
  have fills := fill_ok whole.le
  have kept := fill_length fills
  have flags : 0 + ((data ++ it.buffer.drop data.length).take it.natomic.toNat).length ≤
      S.size base := by
    rw [List.length_take]
    omega
  obtain ⟨base', run⟩ := assign_returns lawful flags
  unfold load
  rw [fills]
  simp only [logical, if_true]
  exact ⟨_, base', except_bind_ok.mpr ⟨_, rfl, except_bind_ok.mpr ⟨_, drain_ok (by omega),
    except_bind_ok.mpr ⟨base', run, rfl⟩⟩⟩⟩

end BitSetColumn

namespace StringColumn

variable {it it' : StringColumn} {base' data : List Byte}

theorem load_kept (run : load it data = .ok (it', base')) :
    ∃ buffer, it' = { it with buffer } ∧ buffer.length = it.buffer.length := by
  obtain ⟨buffer, fills, run⟩ := except_bind_ok.mp run
  obtain ⟨chars, _, run⟩ := except_bind_ok.mp run
  cases run
  exact ⟨buffer, rfl, fill_length fills⟩

theorem load_returns (chars : it.natomic ≤ it.buffer.length)
    (whole : data.length = it.natomic.toNat) : ∃ it' base', load it data = .ok (it', base') := by
  have fills := fill_ok (show data.length ≤ it.buffer.length by omega)
  have kept := fill_length fills
  exact ⟨_, _, except_bind_ok.mpr ⟨_, fills, except_bind_ok.mpr ⟨_, drain_ok (by omega), rfl⟩⟩⟩

end StringColumn

namespace StringColumnVector

variable {it it' : StringColumnVector} {base base' : List (List Byte)} {data : List Byte}

theorem split_length {width n : Nat} {chars : List Byte} (run : split width n chars = .ok base) :
    base.length = n := by
  induction n generalizing chars base with
  | zero =>
    cases run
    rfl
  | succ n ih =>
    rw [split] at run
    split at run
    · cases run
    · obtain ⟨rest, run, same⟩ := except_map_ok.mp run
      rw [← same, List.length_cons, ih run]

theorem split_returns {width n : Nat} {chars : List Byte} (room : width * n ≤ chars.length) :
    ∃ base, split width n chars = .ok base := by
  induction n generalizing chars with
  | zero => exact ⟨[], rfl⟩
  | succ n ih =>
    rw [Nat.mul_succ] at room
    obtain ⟨base, run⟩ := @ih (chars.drop width) (by rw [List.length_drop]; omega)
    rw [split, if_neg (by omega), run]
    exact ⟨_, rfl⟩

theorem load_kept (run : load it base data = .ok (it', base')) :
    ∃ buffer, it' = { it with buffer } ∧ buffer.length = it.buffer.length ∧
      base'.length = base.length := by
  obtain ⟨buffer, fills, run⟩ := except_bind_ok.mp run
  obtain ⟨strings, splits, run⟩ := except_bind_ok.mp run
  cases run
  exact ⟨buffer, rfl, fill_length fills, split_length splits⟩

theorem load_returns (chars : it.natomic ≤ it.buffer.length)
    (room : it.width * base.length ≤ it.buffer.length) (whole : data.length = it.natomic.toNat) :
    ∃ it' base', load it base data = .ok (it', base') := by
  have fills := fill_ok (show data.length ≤ it.buffer.length by omega)
  have kept := fill_length fills
  obtain ⟨base', run⟩ := split_returns (room.trans_eq kept.symm)
  exact ⟨_, base', except_bind_ok.mpr ⟨_, fills, except_bind_ok.mpr ⟨base', run, rfl⟩⟩⟩

end StringColumnVector

end RowEntry
end MisFITS
