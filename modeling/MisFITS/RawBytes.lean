import MisFITS.Slices
import MisFITS.Reference

/-! Raw table bytes: what `fits_read_tblbytes` and `fits_write_tblbytes` are
documented to do with the rows of a binary table. -/
namespace MisFITS
open ColumnType Program Slices

namespace HduData

variable {h : HduData} {r : Int}

def sizes (h : HduData) : List Nat := h.heads.map ColHead.rowBytes

def cellsOf (h : HduData) (r : Int) : List (List Byte) := h.cols.map (fun c => c.cells r)

def cell (h : HduData) (k : Nat) (r : Int) : Option (List Byte) :=
  (h.column k).map (fun c => c.cells r)

def bytes (h : HduData) (r : Int) : List Byte := (h.cellsOf r).flatten

def RowSized (h : HduData) (r : Int) : Prop := ∀ c ∈ h.cols, (c.cells r).length = c.rowBytes

/-- The cells of every row have the sizes of their columns. -/
def Sized (h : HduData) : Prop := ∀ r, 1 ≤ r → r ≤ h.nrows → h.RowSized r

instance : Decidable (h.RowSized r) :=
  inferInstanceAs (Decidable (∀ c ∈ h.cols, (c.cells r).length = c.rowBytes))

theorem lengths_cellsOf (sized : h.RowSized r) : (h.cellsOf r).map List.length = h.sizes := by
  unfold cellsOf sizes heads
  rw [List.map_map, List.map_map]
  exact List.map_congr_left sized

theorem sizes_column {k : Nat} {c : Col} (column : h.column k = some c) :
    h.sizes[k - 1]? = some c.rowBytes := by
  obtain ⟨_, entry⟩ := column_iff.mp column
  simp [sizes, heads, entry]

theorem cell_eq {k : Nat} {c : Col} (sized : h.RowSized r) (column : h.column k = some c) :
    slice (start h.sizes (k - 1)) c.rowBytes (h.bytes r) = c.cells r := by
  obtain ⟨_, entry⟩ := column_iff.mp column
  have cell : (h.cellsOf r)[k - 1]? = some (c.cells r) := by simp [cellsOf, entry]
  have part := slice_flatten cell
  rwa [lengths_cellsOf sized, sized c (List.mem_of_getElem? entry)] at part

end HduData

/-- The documented behaviour of the calls that work on raw bytes, in rows of the
width that the TFORMs add up to. -/
structure RawBytes (api : Cfitsio) : Prop where
  insert_col : ∀ {h h' k ttype tform}, api.insertCol k ttype tform h = .ok () h' → h.Sized → h'.Sized
  write_tdim : ∀ {h h' k axes}, api.writeTdim k axes h = .ok () h' → h.Sized → h'.Sized
  read : ∀ {h row} {first n : Nat}, h.Sized → 1 ≤ row → row ≤ h.nrows → first + n ≤ h.sizes.sum →
    api.readTblbytes row (1 + first) n h = .ok (slice first n (h.bytes row))
  write : ∀ {h h' row} {first : Nat} {data}, h.Sized → 1 ≤ row → data ≠ [] →
    first + data.length ≤ h.sizes.sum → api.writeTblbytes row (1 + first) data h = .ok () h' →
    h'.Sized ∧ h'.nrows = max h.nrows row ∧
      (∃ old, old.length = h.sizes.sum ∧ (row ≤ h.nrows → old = h.bytes row) ∧
        h'.bytes row = overlay first data old) ∧
      ∀ r, 1 ≤ r → r ≤ h.nrows → r ≠ row → h'.bytes r = h.bytes r
  read_back : ∀ {h h' row first data}, api.writeTblbytes row first data h = .ok () h' →
    api.readTblbytes row first data.length h' = .ok data
  grows : ∀ {h h' row first data}, data ≠ [] → api.writeTblbytes row first data h = .ok () h' →
    row ≤ h'.nrows
  write_col : ∀ {T k row first values h h'}, h.Sized →
    api.writeCol T k row first values h = .ok () h' →
    h'.Sized ∧ h.nrows ≤ h'.nrows ∧
      ∀ r, 1 ≤ r → r ≤ h.nrows → ∀ j, j ≠ k → h'.cell j r = h.cell j r

/-! ## The small implementation, with raw bytes -/

namespace Reference

/-- Columns whose row `row` is cut from these bytes; what is behind the last row is blank. -/
def putRow (nrows row : Int) : List Col → List Byte → List Col
  | [], _ => []
  | c :: cols, bytes =>
    c.withCells (fun r =>
        if r = row then bytes.take c.rowBytes
        else if r ≤ nrows then c.cells r
        else blank c.toColHead) ::
      putRow nrows row cols (bytes.drop c.rowBytes)

def oldRow (h : HduData) (row : Int) : List Byte :=
  if row ≤ h.nrows then h.bytes row else List.replicate h.sizes.sum 0

def writeTblbytes (row first : Int) (data : List Byte) : Edit := fun h =>
  if data = [] then .ok () h
  else if 1 ≤ row ∧ 1 ≤ first ∧ first - 1 + data.length ≤ h.sizes.sum ∧
      (oldRow h row).length = h.sizes.sum then
    .ok () { h with
      nrows := max h.nrows row
      cols := putRow h.nrows row h.cols (overlay (first - 1).toNat data (oldRow h row)) }
  else .error (.other 307) h

def writeRows (T : StorageType) (k : Nat) (row first : Int) (values : List T.Native) : Edit :=
  fun h =>
    if row ≤ h.nrows then writeCol T k row first values h else .error (.other 307) h

def rawApi : Cfitsio := { api with writeTblbytes := writeTblbytes, writeCol := writeRows }

theorem putRow_heads {nrows row : Int} {cols : List Col} {bytes : List Byte} :
    (putRow nrows row cols bytes).map Col.toColHead = cols.map Col.toColHead := by
  induction cols generalizing bytes with
  | nil => rfl
  | cons c cols ih => simp [putRow, ih, Col.withCells]

theorem putRow_sum {nrows row : Int} {cols : List Col} {bytes : List Byte}
    (whole : bytes.length = (cols.map (fun c => c.rowBytes)).sum) :
    ((putRow nrows row cols bytes).map (fun c => c.cells row)).flatten = bytes := by
  induction cols generalizing bytes with
  | nil => exact (List.eq_nil_of_length_eq_zero whole).symm
  | cons c cols ih =>
    rw [List.map_cons, List.sum_cons] at whole
    have fewer : (bytes.drop c.rowBytes).length = (cols.map (fun c => c.rowBytes)).sum := by
      rw [List.length_drop]
      omega
    have rest := ih fewer
    simp [putRow, Col.withCells, rest]

theorem putRow_sized {nrows row : Int} {cols : List Col} {bytes : List Byte}
    (whole : bytes.length = (cols.map (fun c => c.rowBytes)).sum)
    (sized : ∀ c ∈ cols, ∀ r, 1 ≤ r → r ≤ nrows → (c.cells r).length = c.rowBytes) :
    ∀ c ∈ putRow nrows row cols bytes, ∀ r, 1 ≤ r → (c.cells r).length = c.rowBytes := by
  induction cols generalizing bytes with
  | nil => simp [putRow]
  | cons c cols ih =>
    rw [List.map_cons, List.sum_cons] at whole
    intro d member r low
    rw [putRow, List.mem_cons] at member
    rcases member with rfl | later
    · simp only [Col.withCells]
      split
      · rw [List.length_take]
        omega
      · split
        · exact sized c List.mem_cons_self r low ‹_›
        · simp [blank]
    · exact ih (by rw [List.length_drop]; omega)
        (fun c member => sized c (List.mem_cons_of_mem _ member)) d later r low

theorem putRow_row {nrows row r : Int} {cols : List Col} {bytes : List Byte} (other : r ≠ row)
    (inside : r ≤ nrows) :
    (putRow nrows row cols bytes).map (fun c => c.cells r) = cols.map (fun c => c.cells r) := by
  induction cols generalizing bytes with
  | nil => rfl
  | cons c cols ih => simp [putRow, Col.withCells, ih, other, inside]

theorem writeTblbytes_ok {row first : Int} {data : List Byte} {h h' : HduData} {u : Unit}
    (nonempty : data ≠ []) (run : writeTblbytes row first data h = .ok u h') :
    1 ≤ row ∧ 1 ≤ first ∧ first - 1 + data.length ≤ h.sizes.sum ∧
      (oldRow h row).length = h.sizes.sum ∧
      h' = { h with
        nrows := max h.nrows row
        cols := putRow h.nrows row h.cols (overlay (first - 1).toNat data (oldRow h row)) } := by
  unfold writeTblbytes at run
  rw [if_neg nonempty] at run
  split at run
  · rename_i fits
    cases run
    exact ⟨fits.1, fits.2.1, fits.2.2.1, fits.2.2.2, rfl⟩
  · cases run

theorem sizes_sum (h : HduData) : h.sizes.sum = (h.cols.map (fun c => c.rowBytes)).sum := by
  rw [HduData.sizes, HduData.heads, List.map_map]
  rfl

theorem writeRows_ok {T : StorageType} {k : Nat} {row first : Int} {values : List T.Native}
    {h h' : HduData} {u : Unit} (run : writeRows T k row first values h = .ok u h') :
    row ≤ h.nrows ∧ api.writeCol T k row first values h = .ok u h' := by
  unfold writeRows at run
  split at run
  · exact ⟨‹_›, run⟩
  · cases run

theorem overwrite_length {c : Col} {row : Int} {bytes : List Byte} (first : Nat)
    (sized : (c.cells row).length = c.rowBytes) :
    (overwrite c row first bytes).length = c.rowBytes := by
  simp only [overwrite, List.length_take, List.length_append, List.length_drop]
  omega

theorem writeCol_ok {T : StorageType} {k : Nat} {row first : Int} {values : List T.Native}
    {h h' : HduData} {u : Unit} (run : writeCol T k row first values h = .ok u h') :
    1 ≤ row ∧ ∃ bytes c, h.column k = some c ∧ h' = { h with
      nrows := max h.nrows row
      cols := h.cols.set (k - 1) (c.withCells (fun r =>
        if r = row then overwrite c row (first - 1).toNat bytes else c.cells r)) } := by
  unfold writeCol at run
  split at run
  · split at run
    · rename_i range
      obtain ⟨c, column, rfl⟩ := onColumn_ok run
      exact ⟨range.1, _, c, column, rfl⟩
    · cases run
  · cases run

theorem documented_raw : Documented rawApi :=
  { documented with
    write_col := fun run => documented.write_col (writeRows_ok run).2
    write_bits := fun column bit whole low run =>
      documented.write_bits column bit whole low (writeRows_ok run).2
    write_tblbytes := by
      intro row first data h h' run
      by_cases empty : data = []
      · simp only [rawApi, writeTblbytes, empty, if_true] at run
        cases run
        rfl
      · obtain ⟨_, _, _, _, rfl⟩ := writeTblbytes_ok empty run
        exact putRow_heads }

theorem newColumns_blank {made : List (String × String)} {new : List Col}
    (forms : newColumns made = some new) : ∀ c ∈ new, ∀ r, (c.cells r).length = c.rowBytes := by
  induction made generalizing new with
  | nil =>
    cases forms
    simp
  | cons m made ih =>
    simp only [newColumns, Option.bind_eq_bind, Option.bind_eq_some_iff, Option.pure_def,
      Option.some.injEq] at forms
    obtain ⟨form, _, rest, made, rfl⟩ := forms
    intro c member r
    rcases List.mem_cons.mp member with rfl | later
    · simp [newColumn, blank]
    · exact ih made c later r

theorem read_slice {row : Int} {first n : Nat} {h : HduData} :
    rawApi.readTblbytes row (1 + first) n h = .ok (slice first n (h.bytes row)) := by
  have place : (1 + (first : Int)).toNat - 1 = first := by omega
  simp [rawApi, api, slice, HduData.bytes, HduData.cellsOf, List.flatMap_def, place]

theorem rawBytes : RawBytes rawApi where
  insert_col run sized := by
    obtain ⟨new, forms, rfl⟩ := insertCols_ok run
    intro r low high c member
    simp only [List.mem_append] at member
    rcases member with (before | here) | behind
    · exact sized r low high c (List.mem_of_mem_take before)
    · exact newColumns_blank forms c here r
    · exact sized r low high c (List.mem_of_mem_drop behind)
  write_tdim run sized := by
    obtain ⟨c, column, rfl⟩ := onColumn_ok run
    obtain ⟨_, entry⟩ := HduData.column_iff.mp column
    intro r low high d member
    rcases List.mem_or_eq_of_mem_set member with other | rfl
    · exact sized r low high d other
    · exact sized r low high c (List.mem_of_getElem? entry)
  read _ _ _ _ := read_slice
  write {h h' row first data} sized low some room run := by
    obtain ⟨_, _, _, whole, rfl⟩ := writeTblbytes_ok some run
    have place : (1 + (first : Int) - 1).toNat = first := by omega
    rw [place]
    have length := (overlay_length (room.trans_eq whole.symm)).trans whole
    rw [sizes_sum] at length
    refine ⟨fun r low _ c member => ?_, rfl, ⟨oldRow h row, whole, fun old => ?_, ?_⟩, ?_⟩
    · exact putRow_sized length (fun c member r low high => sized r low high c member) c member r low
    · rw [oldRow, if_pos old]
    · exact putRow_sum length
    · intro r _ high other
      simp only [HduData.bytes, HduData.cellsOf, putRow_row other high]
  grows {h h' row first data} some run := by
    obtain ⟨_, _, _, _, rfl⟩ := writeTblbytes_ok some run
    exact Int.le_max_right _ _
  write_col {T k row first values h h'} sized run := by
    obtain ⟨inside, run⟩ := writeRows_ok run
    obtain ⟨low, bytes, c, column, rfl⟩ := writeCol_ok run
    obtain ⟨one, entry⟩ := HduData.column_iff.mp column
    have member := List.mem_of_getElem? entry
    have rows : max h.nrows row = h.nrows := Int.max_eq_left inside
    refine ⟨fun r first last d here => ?_, Int.le_max_left _ _, fun r _ _ j other => ?_⟩
    · simp only [rows] at last
      rcases List.mem_or_eq_of_mem_set here with old | rfl
      · exact sized r first last d old
      · simp only [Col.withCells]
        split
        · exact overwrite_length _ (sized row low inside c member)
        · exact sized r first last c member
    · unfold HduData.cell HduData.column
      split
      · rfl
      · rw [List.getElem?_set_ne (by omega)]
  read_back {h h' row first data} run := by
    by_cases empty : data = []
    · simp [rawApi, api, empty]
    · obtain ⟨_, begin, room, whole, rfl⟩ := writeTblbytes_ok empty run
      obtain ⟨f, rfl⟩ : ∃ f : Nat, first = 1 + f := ⟨(first - 1).toNat, by omega⟩
      have place : (1 + (f : Int) - 1).toNat = f := by omega
      have fits : f + data.length ≤ (oldRow h row).length := by omega
      have length := (overlay_length fits).trans whole
      rw [sizes_sum] at length
      rw [read_slice, place]
      refine congrArg Except.ok ?_
      rw [HduData.bytes, HduData.cellsOf, putRow_sum length, slice_overlay fits]

end Reference

end MisFITS
