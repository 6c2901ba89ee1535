import MisFITS.ColumnType

/-! The boundary to CFITSIO. The library is not part of this repository: its
calls are a parameter, and what the code relies on is the structure
`Documented`. The data below is only what its documentation lets a caller
observe of a header-data unit. -/
namespace MisFITS
open ColumnType

abbrev Byte := BitVec 8

/-- `StorageType`, without the string type, which has calls of its own. -/
inductive StorageType where
  | byte | double | float | int | long | longLong | short | uint | ulong | ushort | logical
  deriving DecidableEq, Repr

/-- What one element of a storage type holds. Floating point numbers are kept as
their bit patterns; an array of `TLOGICAL` is an array of `char`. -/
abbrev StorageType.Native : StorageType → Type
  | .byte | .logical => Byte
  | .double => BitVec 64
  | .float => BitVec 32
  | .int | .long | .longLong | .short | .uint | .ulong | .ushort => Int

inductive HduType where
  | image | asciiTable | binaryTable
  deriving DecidableEq, Repr

/-- What the header says of one column: TTYPEn, TUNITn, the type, repeat count
and string width of TFORMn, and TDIMn. The unsigned types are stored as signed
ones with a TZERO offset, and reported as these. -/
structure ColHead where
  ttype : String
  tunit : Option String
  typecode : ID
  reps : Nat
  width : Nat
  tdim : Option (List Int)
  signed : typecode ≠ .ushort ∧ typecode ≠ .ulong := by decide
  deriving DecidableEq

structure Col extends ColHead where
  cells : Int → List Byte

structure Card where
  keyname : String
  value : String
  comment : String
  deriving DecidableEq, Repr

/-- A header-data unit. `nrows` is CFITSIO's own count of the rows, `naxis2` the
count in the header, which follows it when the file is flushed. -/
structure HduData where
  type : HduType
  cols : List Col
  nrows : Int
  naxis2 : Int
  keys : List Card

def HduData.column (h : HduData) (k : Nat) : Option Col :=
  if k = 0 then none else h.cols[k - 1]?

def HduData.names (h : HduData) : List String := h.cols.map (fun c => c.ttype)

def HduData.heads (h : HduData) : List ColHead := h.cols.map Col.toColHead

theorem HduData.column_iff {h : HduData} {k : Nat} {c : Col} :
    h.column k = some c ↔ 1 ≤ k ∧ h.cols[k - 1]? = some c := by
  unfold HduData.column
  split <;> simp <;> omega

theorem HduData.heads_drop {h : HduData} {k : Nat} {c : Col} (column : h.column k = some c) :
    h.heads.drop (k - 1) = c.toColHead :: h.heads.drop k := by
  obtain ⟨low, entry⟩ := HduData.column_iff.mp column
  obtain ⟨inside, value⟩ := List.getElem?_eq_some_iff.mp entry
  have more := List.drop_eq_getElem_cons (l := h.heads) (i := k - 1) (by simpa [heads] using inside)
  rw [Nat.sub_add_cancel low] at more
  rw [more, ← value]
  simp [heads]

theorem HduData.heads_set {h : HduData} {k : Nat} {c c' : Col} (column : h.column k = some c)
    (same : c'.toColHead = c.toColHead) :
    ({ h with cols := h.cols.set (k - 1) c' } : HduData).heads = h.heads := by
  obtain ⟨_, entry⟩ := HduData.column_iff.mp column
  have head : h.heads[k - 1]? = some c.toColHead := by
    rw [heads, List.getElem?_map, entry]
    rfl
  obtain ⟨inside, value⟩ := List.getElem?_eq_some_iff.mp head
  have set : ({ h with cols := h.cols.set (k - 1) c' } : HduData).heads =
      h.heads.set (k - 1) c'.toColHead := List.map_set
  rw [set, same, ← value, List.set_getElem_self]

def elemSize : ID → Nat
  | .bit | .byte | .logical | .string => 1
  | .short | .ushort => 2
  | .long | .ulong | .float => 4
  | .longLong | .double | .complex => 8
  | .doubleComplex => 16
  | .other _ => 0

namespace ColHead

/-- The axes `fits_read_tdimll` reports. -/
def axes (c : ColHead) : List Int := c.tdim.getD [(c.reps : Int)]

/-- The width `fits_get_coltypell` reports: of a string column the first axis of
TDIM, else the width in TFORM. -/
def reportedWidth (c : ColHead) : Int :=
  if c.typecode = .string then
    match c.tdim with
    | some (a :: _) => a
    | _ => c.width
  else elemSize c.typecode

def rowBytes (c : ColHead) : Nat :=
  match c.typecode with
  | .string => c.reps
  | .bit => (c.reps + 7) / 8
  | t => c.reps * elemSize t

def SameShape (a b : ColHead) : Prop :=
  a.typecode = b.typecode ∧ a.reps = b.reps ∧ a.reportedWidth = b.reportedWidth

end ColHead

def ColumnType.Spec.stored : Spec → ID
  | .ushort => .short
  | .ulong => .long
  | s => s.id

/-- A TFORM value `rT`, with the count left out when it is one. -/
def tformText (r : Nat) (code : Char) : String :=
  (if 1 < r then toString r else "") ++ code.toString

def ColHead.created (ttype : String) (r : Nat) (s : Spec) : ColHead :=
  { ttype := ttype, tunit := none, typecode := s.stored, reps := r, width := r, tdim := none
    signed := by cases s <;> decide }

def foldCase (s : String) : List Char := s.toList.map Char.toLower

abbrev Read (α : Type) := HduData → Except Status α

/-- A call that changes the current header-data unit; it may fail part way. -/
abbrev Edit := EStateM Status HduData Unit

structure KeyRead (α : Type) where
  status : Option Status
  value : α
  comment : String

/-- The calls of CFITSIO that the code makes, under their names without `fits_`.
Each acts on the current header-data unit of the file it is given. -/
structure Cfitsio where
  flenValue : Nat
  movabsHdu : Int → Int → EStateM Status Int Unit
  movrelHdu : Int → Int → EStateM Status Int Unit
  getNumCols : Read Nat
  getColnum : List String → String → Except Status Nat
  getBcolparms : Nat → Read (String × String)
  getColtype : Nat → Read (ID × Nat × Int)
  readTdim : Nat → Nat → Read (Nat × List Int)
  binaryTform : String → Except Status Nat
  insertCol : Nat → String → String → Edit
  insertCols : Nat → List (String × String) → Edit
  deleteCol : Nat → Edit
  modifyVectorLen : Nat → Int → Edit
  writeTdim : Nat → List Int → Edit
  getNumRows : Read Int
  insertRows : Int → Int → Edit
  copyCol : HduData → Nat → Nat → Edit
  readCol : (T : StorageType) → Nat → Int → Int → Int → Read (List T.Native)
  writeCol : (T : StorageType) → Nat → Int → Int → List T.Native → Edit
  readTblbytes : Int → Int → Int → Read (List Byte)
  writeTblbytes : Int → Int → List Byte → Edit
  getHdrpos : Read (Int × Int)
  readCard : String → HduData → Option Status
  getKeyStrlen : String → HduData → Option Status × Nat
  readStringKey : String → Nat → Nat → HduData → KeyRead String
  readKey : (T : StorageType) → String → T.Native → HduData → KeyRead T.Native
  updateKeyStr : String → String → String → Edit
  writeKeyLongwarn : Edit
  updateKeyLongstr : String → String → String → Edit
  updateKey : (T : StorageType) → String → T.Native → String → Edit
  deleteKey : String → Edit
  writeHistory : String → Edit
  writeComment : String → Edit
  /-- how `copyCol` turns a cell of one column into a cell of another -/
  convert : ColHead → ColHead → List Byte → List Byte
  blank : ColHead → List Byte

variable (api : Cfitsio)

def Col.insertRows (c : Col) (first n : Int) : Col :=
  { c with cells := fun r =>
      if r ≤ first then c.cells r
      else if r ≤ first + n then api.blank c.toColHead
      else c.cells (r - n) }

def Col.copyFrom (c src : Col) (n : Int) : Col :=
  { c with cells := fun r =>
      if 1 ≤ r ∧ r ≤ n then api.convert src.toColHead c.toColHead (src.cells r) else c.cells r }

/-- What the code relies on: the documented behaviour of the calls. -/
structure Documented : Prop where
  movabs : ∀ {N n c}, 1 ≤ n → n ≤ N → api.movabsHdu N n c = .ok () n
  movabs_to : ∀ {N n c c'}, api.movabsHdu N n c = .ok () c' → c' = n
  num_cols : ∀ h, api.getNumCols h = .ok h.cols.length
  colnum_range : ∀ {names t k}, api.getColnum names t = .ok k → 1 ≤ k ∧ k ≤ names.length
  colnum_case : ∀ names {t t'}, foldCase t = foldCase t' →
    api.getColnum names t = api.getColnum names t'
  bcolparms : ∀ {h k c}, h.column k = some c →
    api.getBcolparms k h = .ok (c.ttype, c.tunit.getD "")
  coltype : ∀ {h k c}, h.column k = some c →
    api.getColtype k h = .ok (c.typecode, c.reps, c.reportedWidth)
  read_tdim : ∀ {h k c} maxdim, h.column k = some c →
    api.readTdim k maxdim h = .ok (c.axes.length, c.axes.take maxdim)
  binary_tform : ∀ s : Spec, s ≠ .bit →
    api.binaryTform s.code.toString = .ok (elemSize s.id)
  insert_col : ∀ {h h' k ttype r} {s : Spec}, 1 ≤ r → 1 ≤ k → k ≤ h.cols.length + 1 →
    api.insertCol k ttype (tformText r s.code) h = .ok () h' →
    ∃ cells, h'.cols = h.cols.take (k - 1) ++ ⟨.created ttype r s, cells⟩ :: h.cols.drop (k - 1) ∧
      h'.type = h.type
  insert_cols : ∀ {h h' k} {made : List (String × Nat × Spec)}, (∀ m ∈ made, 1 ≤ m.2.1) →
    1 ≤ k → k ≤ h.cols.length + 1 →
    api.insertCols k (made.map fun m => (m.1, tformText m.2.1 m.2.2.code)) h = .ok () h' →
    ∃ new : List Col, new.map Col.toColHead = made.map (fun m => .created m.1 m.2.1 m.2.2) ∧
      h'.cols = h.cols.take (k - 1) ++ new ++ h.cols.drop (k - 1) ∧ h'.type = h.type
  delete_col : ∀ {h h' k}, api.deleteCol k h = .ok () h' →
    1 ≤ k ∧ k ≤ h.cols.length ∧ h'.cols = h.cols.eraseIdx (k - 1) ∧ h'.type = h.type
  write_tdim : ∀ {h h' k c axes}, h.column k = some c → api.writeTdim k axes h = .ok () h' →
    h'.cols = h.cols.set (k - 1) { c with tdim := some axes } ∧ h'.type = h.type
  num_rows : ∀ h, api.getNumRows h = .ok h.nrows
  insert_rows : ∀ {h h' first n}, 0 ≤ n → api.insertRows first n h = .ok () h' →
    h'.cols = h.cols.map (fun c => c.insertRows api first n) ∧ h'.nrows = h.nrows + n ∧
      h'.naxis2 = h'.nrows ∧ h'.type = h.type
  copy_col : ∀ {src h h' a b}, api.copyCol src a b h = .ok () h' →
    ∃ ca cb, src.column a = some ca ∧ h.column b = some cb ∧
      h' = { h with cols := h.cols.set (b - 1) (cb.copyFrom api ca (min src.naxis2 h.naxis2)) }
  write_col : ∀ {T k row first values h h'}, api.writeCol T k row first values h = .ok () h' →
    h'.heads = h.heads
  write_tblbytes : ∀ {row first bytes h h'}, api.writeTblbytes row first bytes h = .ok () h' →
    h'.heads = h.heads
  convert_same : ∀ {a b : ColHead} x, a.SameShape b → api.convert a b x = x
  read_bits : ∀ {h k c row} n, h.column k = some c → c.typecode = .bit →
    (c.cells row).length = n → 1 ≤ row → row ≤ h.nrows →
    api.readCol .byte k row 1 n h = .ok (c.cells row)
  write_bits : ∀ {h h' k c row} {bytes : List Byte}, h.column k = some c → c.typecode = .bit →
    bytes.length = c.rowBytes → 1 ≤ row →
    api.writeCol .byte k row 1 bytes h = .ok () h' →
    h'.nrows = max h.nrows row ∧ ∃ c', h'.column k = some c' ∧ c'.toColHead = c.toColHead ∧
      c'.cells row = bytes

end MisFITS
