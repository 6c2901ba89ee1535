import MisFITS.RowEntry

/-! Row cursors, after `row.hpp` and `row.cc`. A cursor holds pointers to the
columns that were bound to variables through it, which its copies share. -/
namespace MisFITS
open Program HDU

/-- What a column can be bound to: an array or a vector, and the types with a
class of their own. -/
inductive Target where
  | native (T : StorageType) (vector : Bool)
  | bool (vector : Bool)
  | bitset
  | string
  | strings
  deriving DecidableEq, Repr

namespace Target
open RowEntry

abbrev Value (S : DynamicBitset) : Target → Type
  | .native T _ => List T.Native
  | .bool _ => List Bool
  | .bitset => S.Bits
  | .string => List Byte
  | .strings => List (List Byte)

abbrev Column : Target → Type
  | .native _ _ => ColumnBase
  | .bool _ => BoolColumn
  | .bitset => BitSetColumn
  | .string => StringColumn
  | .strings => StringColumnVector

variable (api : Cfitsio) (S : DynamicBitset) (t : Nat)

def make : (τ : Target) → ColumnInfo → EStateM Exception (τ.Value S) τ.Column
  | .native T vector, info => Column.make T vector info
  | .bool vector, info => BoolColumn.make vector info
  | .bitset, info => BitSetColumn.make S info
  | .string, info => StringColumn.make info
  | .strings, info => StringColumnVector.make info

def read : (τ : Target) → τ.Column → Int → τ.Value S → M (τ.Column × τ.Value S)
  | .native T _, it, row, base => do return (it, ← Column.read api t T it row base)
  | .bool _, it, row, base => BoolColumn.read api t it row base
  | .bitset, it, row, base => BitSetColumn.read api t S it row base
  | .string, it, row, _ => StringColumn.read api t it row
  | .strings, it, row, base => StringColumnVector.read api t it row base

def write : (τ : Target) → τ.Column → Int → τ.Value S → M τ.Column
  | .native T _, it, row, base => do
    Column.write api t T it row base
    return it
  | .bool _, it, row, base => BoolColumn.write api t it row base
  | .bitset, it, row, base => BitSetColumn.write api t S it row base
  | .string, it, row, base => StringColumn.write api t it row base
  | .strings, it, row, base => StringColumnVector.write api t it row base

def nothing : (τ : Target) → τ.Value listBitset
  | .native _ _ | .bool _ | .bitset | .string | .strings => []

abbrev storage : Target → StorageType
  | .native T _ => T
  | .bool _ => .logical
  | .bitset | .string | .strings => .byte

/-- What the variable puts into the column, and the elements that are handed over. -/
def store : (τ : Target) → τ.Column → τ.Value S →
    Except Exception (τ.Column × List τ.storage.Native)
  | .native _ _, it, base => (drain it.natomic base).map fun data => (it, data)
  | .bool _, it, base => do
    let bits ← drain it.natomic base
    let buffer ← fill (bits.map (fun v => if v then (1 : Byte) else 0)) it.buffer
    return ({ it with buffer }, ← drain it.natomic buffer)
  | .bitset, it, base => do
    let buffer ← BitSetColumn.store S it base
    return ({ it with buffer }, ← drain it.natomic buffer)
  | .string, it, base =>
    (fill (base.take (toSize it.natomic)) (List.replicate (toSize it.natomic) (0x20 : Byte))).map
      fun buffer => ({ it with buffer }, buffer)
  | .strings, it, base =>
    (StringColumnVector.join it.width base (List.replicate (toSize it.natomic) (0x20 : Byte))).map
      fun buffer => ({ it with buffer }, buffer)

end Target

inductive CellWrite where
  | col (T : StorageType) (column : Nat) (row : Int) (data : List T.Native)
  | bytes (row offset : Int) (data : List Byte)

namespace CellWrite

def call (api : Cfitsio) : CellWrite → Edit
  | .col T column row data => api.writeCol T column row 1 data
  | .bytes row offset data => api.writeTblbytes row offset data

end CellWrite

namespace Target

def cell : (τ : Target) → τ.Column → Int → List τ.storage.Native → CellWrite
  | .native T _, it, row, data => .col T it.colnum row data
  | .bool _, it, row, data => .col .logical it.colnum row data
  | .bitset, it, row, data => .col .byte it.colnum row data
  | .string, it, row, data => .bytes row it.offset data
  | .strings, it, row, data => .bytes row it.offset data

end Target

/-- A call that fails to write a cell: its status, and what it leaves. -/
structure WriteFault where
  status : Status
  leaves : CellWrite → HduData → HduData

/-- A call that fails to read a cell: its status, and what it leaves in the buffer of
the column and in the variable. -/
structure ReadFault (S : DynamicBitset) where
  status : Status
  leaves : (τ : Target) → τ.Column → τ.Value S → τ.Column × τ.Value S

structure Variable where
  target : Target
  name : Nat
  deriving DecidableEq, Repr

structure Entry where
  var : Variable
  column : var.target.Column

structure Row where
  table : Nat
  idx : Int
  autoAdvance : Bool
  entries : List Nat

/-- The objects of a program that reads and writes rows. The bound columns are
numbered in the order in which they were made. -/
structure Session (S : DynamicBitset) where
  world : World
  vars : (v : Variable) → v.target.Value S
  made : Nat
  entries : Nat → Entry
  rows : Nat → Row

abbrev RowM (S : DynamicBitset) := EStateM Exception (Session S)

namespace Session

variable {S : DynamicBitset}

def setRow (s : Session S) (r : Nat) (row : Row) : Session S :=
  { s with rows := Function.update s.rows r row }

def store (s : Session S) (e : Nat) (v : Variable) (column : v.target.Column)
    (value : v.target.Value S) : Session S :=
  { s with
    entries := Function.update s.entries e ⟨v, column⟩
    vars := Function.update s.vars v value }

def onWorld {α : Type} (m : M α) : RowM S α := fun s =>
  match m s.world with
  | .ok a w => .ok a { s with world := w }
  | .error e w => .error e { s with world := w }

end Session

namespace Row
open Session

variable (api : Cfitsio) {S : DynamicBitset} (r : Nat)

/-- A method that starts from the members of the cursor. -/
def own {α : Type} (method : Row → RowM S α) : RowM S α := fun s => method (s.rows r) s

def new (table : Nat) : RowM S Unit :=
  modify (·.setRow r { table, idx := 1, autoAdvance := true, entries := [] })

def copy (original : Nat) : RowM S Unit := own original fun row => modify (·.setRow r row)

def setIdx (idx : Int) : RowM S Unit := own r fun row => modify (·.setRow r { row with idx })

def advance (nrows : Int) : RowM S Unit :=
  own r fun row => modify (·.setRow r { row with idx := row.idx + nrows })

def setAutoAdvance (flag : Bool) : RowM S Unit :=
  own r fun row => modify (·.setRow r { row with autoAdvance := flag })

def advanceAuto : RowM S Unit := own r fun row => if row.autoAdvance then advance r 1 else pure ()

/-- `make_shared< RowEntry::Column<T> >`; the constructor may change the variable. -/
def makeShared (v : Variable) (info : ColumnInfo) : RowM S Nat := fun s =>
  match v.target.make S info (s.vars v) with
  | .ok column value => .ok s.made { s.store s.made v column value with made := s.made + 1 }
  | .error e value => .error e { s with vars := Function.update s.vars v value }

def add (columnName : String) (v : Variable) : RowM S Unit := own r fun row => do
  let info ← onWorld (Table.colinfoByName api row.table columnName)
  let entry ← makeShared v info
  modify (·.setRow r { row with entries := row.entries ++ [entry] })

def writeCall (fault : Option WriteFault) (c : CellWrite) : Edit :=
  match fault with
  | none => c.call api
  | some fault => fun h => .error fault.status (fault.leaves c h)

/-- `ColumnBase::write`: the buffer is filled before the call, and stays so when it fails. -/
def writeEntryBy (fault : Option WriteFault) (t : Nat) (row : Int) (e : Nat) (entry : Entry) :
    RowM S Unit := fun s =>
  (do
    let (column, data) ←
      onWorld (ofExcept (entry.var.target.store S entry.column (s.vars entry.var)))
    modify fun s : Session S => s.store e entry.var column (s.vars entry.var)
    onWorld (onFile (.table t)
      (editChdu · (writeCall api fault (entry.var.target.cell entry.column row data))))) s

def writeColumns (faults : Nat → Option WriteFault) (t : Nat) (row : Int) (es : List Nat) :
    RowM S Unit :=
  es.foldlM (fun _ e s => writeEntryBy api (faults e) t row e (s.entries e) s) ()

/-- `Row::write`, when the calls of these columns fail. -/
def writeBy (faults : Nat → Option WriteFault) : RowM S Unit := own r fun row => do
  onWorld (setAsChdu api (.table row.table))
  if row.entries = [] then
    throw (.assert "row object was not assigned any columns to write")
  writeColumns api faults row.table row.idx row.entries
  advanceAuto r

/-- `ColumnBase::read`, with what is left when the call fails. -/
def readEntryBy (fault : Option (ReadFault S)) (t : Nat) (row : Int) (e : Nat) (entry : Entry) :
    RowM S Unit := fun s =>
  match fault with
  | none =>
    (do
      let (column, value) ←
        onWorld (entry.var.target.read api S t entry.column row (s.vars entry.var))
      modify fun s : Session S => s.store e entry.var column value) s
  | some fault =>
    let (column, value) := fault.leaves entry.var.target entry.column (s.vars entry.var)
    .error (.cfitsio fault.status) (s.store e entry.var column value)

def readColumns (faults : Nat → Option (ReadFault S)) (t : Nat) (row : Int) (es : List Nat) :
    RowM S Unit :=
  es.foldlM (fun _ e s => readEntryBy api (faults e) t row e (s.entries e) s) ()

def readBy (faults : Nat → Option (ReadFault S)) : RowM S Bool := own r fun row => do
  onWorld (setAsChdu api (.table row.table))
  if row.entries = [] then
    throw (.assert "row object was not assigned any columns to read")
  if row.idx > (← onWorld (Table.numRows api row.table)) then
    return false
  readColumns api faults row.table row.idx row.entries
  advanceAuto r
  return true

def read : RowM S Bool := readBy api r fun _ => none

def readAt (row : Int) : RowM S Bool := do
  setIdx r row
  read api r

def write : RowM S Unit := writeBy api r fun _ => none

def writeAt (row : Int) : RowM S Unit := do
  setIdx r row
  write api r

def readEntry (t : Nat) (row : Int) (_ : Unit) (e : Nat) : RowM S Unit := fun s =>
  readEntryBy api none t row e (s.entries e) s

def writeEntry (t : Nat) (row : Int) (_ : Unit) (e : Nat) : RowM S Unit := fun s =>
  writeEntryBy api none t row e (s.entries e) s

theorem readEntry_def (t : Nat) (row : Int) (u : Unit) (e : Nat) (s : Session S) :
    readEntry api t row u e s = (do
      let (column, value) ← onWorld ((s.entries e).var.target.read api S t (s.entries e).column row
        (s.vars (s.entries e).var))
      modify fun s' : Session S => s'.store e (s.entries e).var column value) s := rfl

variable {r} {s s' : Session S}

def next (row : Row) : Row := if row.autoAdvance then { row with idx := row.idx + 1 } else row

theorem advanceAuto_eq : advanceAuto r s = .ok () (s.setRow r (next (s.rows r))) := by
  unfold advanceAuto own next
  dsimp only
  split
  · rfl
  · have still : s.setRow r (s.rows r) = s := by rw [setRow, Function.update_eq_self]
    rw [still]
    rfl

end Row

namespace Session

variable {S : DynamicBitset} {s s' : Session S}

theorem onWorld_ok {α : Type} {m : M α} {a : α} :
    onWorld m s = .ok a s' ↔ ∃ w, m s.world = .ok a w ∧ s' = { s with world := w } := by
  unfold onWorld
  cases m s.world <;> simp [eq_comm]

theorem onWorld_error {α : Type} {m : M α} {x : Exception} :
    onWorld m s = .error x s' ↔ ∃ w, m s.world = .error x w ∧ s' = { s with world := w } := by
  unfold onWorld
  cases m s.world <;> simp [eq_comm]

theorem onWorld_of_ok {α : Type} {m : M α} {a : α} {w : World} (run : m s.world = .ok a w) :
    onWorld m s = .ok a { s with world := w } := by
  unfold onWorld
  rw [run]

end Session
end MisFITS
