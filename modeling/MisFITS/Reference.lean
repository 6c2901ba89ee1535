import MisFITS.World

/-! A small implementation of the calls, which shows that the documented
behaviour can be had, and on which single inputs can be run. -/
namespace MisFITS

def Col.withCells (c : Col) (cells : Int → List Byte) : Col := { c with cells }

def Col.withoutTdim (c : Col) : Col := { c with tdim := none }

namespace Reference
open ColumnType

def badColnum : Status := .other 302

def ofColumn {α : Type} (k : Nat) (r : Col → α) : Read α := fun h =>
  match h.column k with
  | some c => .ok (r c)
  | none => .error badColnum

def onColumn (k : Nat) (g : Col → Col) : Edit := fun h =>
  match h.column k with
  | some c => .ok () { h with cols := h.cols.set (k - 1) (g c) }
  | none => .error badColnum h

def numberFrom (k : Nat) (t : List Char) : List String → Except Status Nat
  | [] => .error (.other 219)
  | name :: names => if foldCase name = t then .ok k else numberFrom (k + 1) t names

def specs : List Spec :=
  [.bit, .byte, .logical, .string, .short, .long, .longLong, .float, .double, .ushort, .ulong]

def specOf (code : Char) : Option Spec := specs.find? (fun s => s.code = code)

/-- A TFORM value is a count, or nothing for a count of one, and a type code. -/
def readTform (tform : String) : Option (Nat × Spec) :=
  let digits := tform.toList.takeWhile Char.isDigit
  match tform.toList.dropWhile Char.isDigit with
  | [code] => (specOf code).map (fun s => (if digits = [] then 1 else Nat.ofDigitChars 10 digits 0, s))
  | _ => none

def blank (c : ColHead) : List Byte := List.replicate c.rowBytes 0

def newColumn (ttype : String) (r : Nat) (s : Spec) : Col :=
  ⟨ColHead.created ttype r s, fun _ => blank (ColHead.created ttype r s)⟩

def newColumns : List (String × String) → Option (List Col)
  | [] => some []
  | (ttype, tform) :: rest => do
    let (r, s) ← readTform tform
    return newColumn ttype r s :: (← newColumns rest)

def insertCols (k : Nat) (made : List (String × String)) : Edit := fun h =>
  match newColumns made with
  | some new =>
    if 1 ≤ k ∧ k ≤ h.cols.length + 1 then
      .ok () { h with cols := h.cols.take (k - 1) ++ new ++ h.cols.drop (k - 1) }
    else .error badColnum h
  | none => .error (.other 261) h

def deleteCol (k : Nat) : Edit := fun h =>
  if 1 ≤ k ∧ k ≤ h.cols.length then .ok () { h with cols := h.cols.eraseIdx (k - 1) }
  else .error badColnum h

def copyCol (src : HduData) (a b : Nat) : Edit := fun h =>
  match src.column a, h.column b with
  | some ca, some cb =>
    .ok () { h with
      cols := h.cols.set (b - 1) (cb.withCells (fun r =>
        if 1 ≤ r ∧ r ≤ min src.naxis2 h.naxis2 then ca.cells r else cb.cells r)) }
  | _, _ => .error badColnum h

def insertRows (first n : Int) : Edit := fun h =>
  if 0 ≤ first ∧ first ≤ h.nrows ∧ 0 ≤ n then
    .ok () { h with
      nrows := h.nrows + n
      naxis2 := h.nrows + n
      cols := h.cols.map (fun c => c.withCells (fun r =>
        if r ≤ first then c.cells r
        else if r ≤ first + n then blank c.toColHead
        else c.cells (r - n))) }
  else .error (.other 307) h

def readCol (T : StorageType) (k : Nat) (row first n : Int) : Read (List T.Native) := fun h =>
  match T with
  | .byte =>
    if 1 ≤ row ∧ row ≤ h.nrows ∧ 1 ≤ first then
      ofColumn k (fun c => ((c.cells row).drop (first - 1).toNat).take n.toNat) h
    else .error (.other 307)
  | _ => .error (.other 410)

def overwrite (c : Col) (row : Int) (first : Nat) (bytes : List Byte) : List Byte :=
  ((c.cells row).take first ++ bytes ++ (c.cells row).drop (first + bytes.length)).take c.rowBytes

def writeCol (T : StorageType) (k : Nat) (row first : Int) (values : List T.Native) : Edit := fun h =>
  match T, values with
  | .byte, bytes =>
    if 1 ≤ row ∧ 1 ≤ first then
      onColumn k (fun c => c.withCells (fun r =>
        if r = row then overwrite c row (first - 1).toNat bytes else c.cells r))
        { h with nrows := max h.nrows row }
    else .error (.other 307) h
  | _, _ => .error (.other 410) h

def findKey (keyname : String) (h : HduData) : Option Card :=
  h.keys.find? (fun card => card.keyname = keyname)

def setKey (keyname value comment : String) : Edit := fun h =>
  .ok () { h with
    keys := h.keys.filter (fun card => card.keyname ≠ keyname) ++ [⟨keyname, value, comment⟩] }

def addKey (keyname comment : String) : Edit := fun h =>
  .ok () { h with keys := h.keys ++ [⟨keyname, "", comment⟩] }

def deleteKey (keyname : String) : Edit := fun h =>
  if (findKey keyname h).isSome then
    .ok () { h with keys := h.keys.filter (fun card => card.keyname ≠ keyname) }
  else .error .keyNoExist h

def moveTo (num req : Int) : EStateM Status Int Unit := fun chdu =>
  if 1 ≤ req ∧ req ≤ num then .ok () req else .error (.other 301) chdu

def api : Cfitsio where
  flenValue := 71
  movabsHdu num req := moveTo num req
  movrelHdu num by' := fun chdu => moveTo num (chdu + by') chdu
  getNumCols h := .ok h.cols.length
  getColnum names t := numberFrom 1 (foldCase t) names
  getBcolparms k := ofColumn k (fun c => (c.ttype, c.tunit.getD ""))
  getColtype k := ofColumn k (fun c => (c.typecode, c.reps, c.reportedWidth))
  readTdim k maxdim := ofColumn k (fun c => (c.axes.length, c.axes.take maxdim))
  binaryTform tform :=
    match readTform tform with
    | some (_, s) => .ok (elemSize s.id)
    | none => .error (.other 261)
  insertCol k ttype tform := insertCols k [(ttype, tform)]
  insertCols := insertCols
  deleteCol := deleteCol
  modifyVectorLen k n := onColumn k (fun c => { c with reps := n.toNat })
  writeTdim k axes := onColumn k (fun c => { c with tdim := some axes })
  getNumRows h := .ok h.nrows
  insertRows := insertRows
  copyCol := copyCol
  readCol := readCol
  writeCol := writeCol
  readTblbytes row first n h :=
    .ok (((h.cols.flatMap (fun c => c.cells row)).drop (first - 1).toNat).take n.toNat)
  writeTblbytes _ _ _ h := .error (.other 410) h
  getHdrpos h := .ok (h.keys.length, 1)
  readCard keyname h := if (findKey keyname h).isSome then none else some .keyNoExist
  getKeyStrlen keyname h :=
    match findKey keyname h with
    | some card => (none, card.value.length)
    | none => (some .keyNoExist, 0)
  readStringKey keyname _ _ h :=
    match findKey keyname h with
    | some card => ⟨none, card.value, card.comment⟩
    | none => ⟨some .keyNoExist, "", ""⟩
  readKey _ keyname value h :=
    match findKey keyname h with
    | some card => ⟨some (.other 403), value, card.comment⟩
    | none => ⟨some .keyNoExist, value, ""⟩
  updateKeyStr := setKey
  writeKeyLongwarn := addKey "LONGSTRN" ""
  updateKeyLongstr := setKey
  updateKey _ keyname _ comment := setKey keyname "" comment
  deleteKey := deleteKey
  writeHistory := addKey "HISTORY"
  writeComment := addKey "COMMENT"
  convert _ _ bytes := bytes
  blank := blank

theorem specOf_code (s : Spec) : specOf s.code = some s := by cases s <;> decide

theorem code_not_digit (s : Spec) : s.code.isDigit = false := by cases s <;> decide

theorem readTform_tformText {r : Nat} (low : 1 ≤ r) (s : Spec) :
    readTform (tformText r s.code) = some (r, s) := by
  have text : (tformText r s.code).toList = (if 1 < r then Nat.toDigits 10 r else []) ++ [s.code] := by
    unfold tformText
    split <;> simp
  have digits : ∀ c ∈ (if 1 < r then Nat.toDigits 10 r else []), c.isDigit = true := by
    intro c member
    split at member
    · exact Nat.isDigit_of_mem_toDigits (by decide) (by decide) member
    · cases member
  unfold readTform
  rw [text, List.takeWhile_append_of_pos digits, List.dropWhile_append_of_pos digits]
  simp only [List.takeWhile_cons, List.dropWhile_cons, code_not_digit]
  by_cases many : 1 < r
  · simp [many, specOf_code, Nat.toDigits_ne_nil, Nat.ofDigitChars_ten_toDigits]
  · obtain rfl : r = 1 := by omega
    simp [specOf_code]

theorem newColumns_made {made : List (String × Nat × Spec)} (counts : ∀ m ∈ made, 1 ≤ m.2.1) :
    newColumns (made.map fun m => (m.1, tformText m.2.1 m.2.2.code)) =
      some (made.map (fun m => newColumn m.1 m.2.1 m.2.2)) := by
  induction made with
  | nil => rfl
  | cons m made ih =>
    rw [List.map_cons, newColumns, readTform_tformText (counts m List.mem_cons_self),
      ih (fun n member => counts n (List.mem_cons_of_mem m member))]
    rfl

theorem numberFrom_range {k n : Nat} {t : List Char} {names : List String}
    (found : numberFrom k t names = .ok n) : k ≤ n ∧ n < k + names.length := by
  induction names generalizing k with
  | nil => cases found
  | cons name names ih =>
    unfold numberFrom at found
    split at found
    · cases found
      simp
    · have later := ih found
      simp only [List.length_cons]
      omega

theorem ofColumn_some {α : Type} {k : Nat} {h : HduData} {c : Col} (column : h.column k = some c)
    (r : Col → α) : ofColumn k r h = .ok (r c) := by
  simp [ofColumn, column]

theorem onColumn_ok {k : Nat} {g : Col → Col} {h h' : HduData} {u : Unit}
    (run : onColumn k g h = .ok u h') :
    ∃ c, h.column k = some c ∧ h' = { h with cols := h.cols.set (k - 1) (g c) } := by
  unfold onColumn at run
  split at run
  · rename_i c column
    cases run
    exact ⟨c, column, rfl⟩
  · cases run

theorem insertCols_ok {k : Nat} {made : List (String × String)} {h h' : HduData} {u : Unit}
    (run : insertCols k made h = .ok u h') :
    ∃ new, newColumns made = some new ∧
      h' = { h with cols := h.cols.take (k - 1) ++ new ++ h.cols.drop (k - 1) } := by
  unfold insertCols at run
  split at run
  · rename_i new forms
    split at run
    · cases run
      exact ⟨new, forms, rfl⟩
    · cases run
  · cases run

theorem documented : Documented api where
  movabs low high := by simp [api, moveTo, low, high]
  movabs_to run := by
    simp only [api, moveTo] at run
    split at run <;> cases run
    rfl
  num_cols _ := rfl
  colnum_range found := by
    have range := numberFrom_range found
    omega
  colnum_case names {_ _} same := by simp only [api, same]
  bcolparms column := ofColumn_some column _
  coltype column := ofColumn_some column _
  read_tdim _ column := ofColumn_some column _
  binary_tform s other := by cases s <;> rfl
  insert_col low first last run := by
    obtain ⟨new, forms, rfl⟩ := insertCols_ok run
    rw [newColumns, readTform_tformText low] at forms
    cases forms
    exact ⟨_, List.append_assoc .., rfl⟩
  insert_cols counts _ _ run := by
    obtain ⟨new, forms, rfl⟩ := insertCols_ok run
    rw [newColumns_made counts] at forms
    cases forms
    exact ⟨_, by rw [List.map_map]; rfl, rfl, rfl⟩
  delete_col run := by
    simp only [api, deleteCol] at run
    split at run
    · rename_i range
      cases run
      exact ⟨range.1, range.2, rfl, rfl⟩
    · cases run
  write_tdim column run := by
    obtain ⟨c, found, rfl⟩ := onColumn_ok run
    rw [column] at found
    cases found
    exact ⟨rfl, rfl⟩
  num_rows _ := rfl
  insert_rows _ run := by
    simp only [api, insertRows] at run
    split at run
    · cases run
      exact ⟨rfl, rfl, rfl, rfl⟩
    · cases run
  copy_col run := by
    simp only [api, copyCol] at run
    split at run
    · rename_i ca cb source target
      cases run
      exact ⟨ca, cb, source, target, rfl⟩
    · cases run
  write_col run := by
    simp only [api, writeCol] at run
    split at run
    · split at run
      · obtain ⟨c, column, rfl⟩ := onColumn_ok run
        exact HduData.heads_set column rfl
      · cases run
    · cases run
  write_tblbytes run := by cases run
  convert_same _ _ := rfl
  read_bits n column _ whole low high := by
    simp only [api, readCol, low, high, and_self, Int.le_refl, if_true]
    rw [ofColumn_some column]
    simp [← whole]
  write_bits column _ whole low run := by
    simp only [api, writeCol, low, Int.le_refl, and_self, if_true] at run
    obtain ⟨c, found, rfl⟩ := onColumn_ok run
    have same := column.symm.trans found
    cases same
    obtain ⟨first, entry⟩ := HduData.column_iff.mp column
    obtain ⟨inside, _⟩ := List.getElem?_eq_some_iff.mp entry
    refine ⟨rfl, _, HduData.column_iff.mpr ⟨first, List.getElem?_set_self inside⟩, rfl, ?_⟩
    simp [Col.withCells, overwrite, ← whole]

def head (ttype : String) (s : Spec) (reps width : Nat) : ColHead :=
  { ColHead.created ttype reps s with width }

def column (ttype : String) (s : Spec) (reps width : Nat) : Col :=
  ⟨head ttype s reps width, fun _ => blank (head ttype s reps width)⟩

def table (cols : List Col) (nrows : Int) : HduData :=
  { type := .binaryTable, cols, nrows, naxis2 := nrows, keys := [] }

def primary : HduData := { type := .image, cols := [], nrows := 0, naxis2 := 0, keys := [] }

/-- Two files with the objects of their tables: tables 0 and 1 of the first file
are its second and third header-data units, and table 2 is the second one of the other. -/
def world (a b c : HduData) : World where
  files f :=
    { mode := .readWrite, numHdus := 3, chdu := 1
      units := fun n =>
        if f = 0 then (if n = 2 then a else if n = 3 then b else primary)
        else if n = 2 then c else primary }
  hdus i := { file := 0, hduNum := i, extname := "", extver := 1 }
  tables t :=
    { file := if t ≤ 1 then 0 else 1, hduNum := if t = 1 then 3 else 2
      extname := "", extver := 1, columns := [] }

def byteInfo : ColumnInfo :=
  { ttype := "A", tunit := "", columnType := .byte, offset := 1, nbytes := 1, extent := [1]
    colnum := 1 }

end Reference
end MisFITS
