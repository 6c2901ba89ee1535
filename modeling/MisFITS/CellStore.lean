import MisFITS.CellCalls
import MisFITS.TextCells
import MisFITS.Facts

/-! The cells of a table as a store: a call that writes to a part of a row makes it
read back what was written, and changes no other part of any row. -/
namespace MisFITS
open ColumnType Program Slices HduData

/-- Whether a column can hold elements of this type as they are. -/
abbrev Holding := ColHead → (T : StorageType) → List T.Native → Prop

/-- The elements of a cell as the calls count them: of a column of bits its bytes. -/
def ColHead.elements (c : ColHead) : Nat := if c.typecode = .bit then (c.reps + 7) / 8 else c.reps

/-- The documented behaviour of the calls on the elements of a column, as long as they
stay within one cell. -/
structure TypedCells (api : Cfitsio) (holding : Holding) : Prop where
  back : ∀ {T k row data h h'} {head : ColHead}, h.heads[k - 1]? = some head →
    holding head T data → api.writeCol T k row 1 data h = .ok () h' →
    api.readCol T k row 1 data.length h' = .ok data
  nrows : ∀ {T k row data h h'} {head : ColHead}, h.heads[k - 1]? = some head →
    data.length ≤ head.elements → data ≠ [] → api.writeCol T k row 1 data h = .ok () h' →
    h'.nrows = max h.nrows row
  rows : ∀ {T k row data h h'} {head : ColHead}, h.heads[k - 1]? = some head →
    data.length ≤ head.elements → api.writeCol T k row 1 data h = .ok () h' →
    ∀ r, r ≠ row → 1 ≤ r → r ≤ h.nrows → h'.cell k r = h.cell k r
  reads : ∀ {T k row h h'} {n : Nat} {head : ColHead}, h.heads[k - 1]? = some head →
    n ≤ head.elements → h'.heads = h.heads → 1 ≤ row → row ≤ h.nrows → row ≤ h'.nrows →
    h'.cell k row = h.cell k row → api.readCol T k row 1 n h' = api.readCol T k row 1 n h

namespace HduData

variable {h h' : HduData} {r : Int}

theorem cellsOf_getElem? (i : Nat) : (h.cellsOf r)[i]? = h.cell (i + 1) r := by
  rw [cellsOf, List.getElem?_map]
  rfl

theorem bytes_congr (same : ∀ k, h'.cell k r = h.cell k r) : h'.bytes r = h.bytes r := by
  refine congrArg List.flatten (List.ext_getElem? (fun i => ?_))
  rw [cellsOf_getElem?, cellsOf_getElem?, same]

theorem bytes_length (sized : h.RowSized r) : (h.bytes r).length = h.sizes.sum := by
  rw [HduData.bytes, List.length_flatten, lengths_cellsOf sized]

theorem bytes_set {k : Nat} {cell : List Byte} (heads : h'.heads = h.heads) (low : 1 ≤ k)
    (sized : h.RowSized r) (sized' : h'.RowSized r)
    (others : ∀ j, j ≠ k → h'.cell j r = h.cell j r) (found : h'.cell k r = some cell) :
    h'.bytes r = overlay (start h.sizes (k - 1)) cell (h.bytes r) := by
  have size := cell_length sized' found
  rw [sizes_congr heads] at size
  have old := cell_slice sized low size
  have length := Option.some.inj (size.symm.trans (cell_length sized old))
  have entry := cellsOf_getElem? (h := h) (r := r) (k - 1)
  rw [Nat.sub_add_cancel low, old] at entry
  have inside := (List.getElem?_eq_some_iff.mp entry).1
  have cells : h'.cellsOf r = (h.cellsOf r).set (k - 1) cell := by
    refine List.ext_getElem? (fun j => ?_)
    rw [cellsOf_getElem?]
    by_cases self : k - 1 = j
    · rw [← self, List.getElem?_set_self inside, Nat.sub_add_cancel low, found]
    · rw [List.getElem?_set_ne self, cellsOf_getElem?]
      exact others (j + 1) (by omega)
  rw [HduData.bytes, cells, flatten_set entry length, lengths_cellsOf sized]
  rfl

end HduData

namespace CellWrite

def row : CellWrite → Int
  | .col _ _ row _ => row
  | .bytes row _ _ => row

def first (heads : List ColHead) : CellWrite → Nat
  | .col _ k _ _ => start (heads.map ColHead.rowBytes) (k - 1)
  | .bytes _ offset _ => (offset - 1).toNat

def size (heads : List ColHead) : CellWrite → Nat
  | .col _ k _ _ => (heads.map ColHead.rowBytes).getD (k - 1) 0
  | .bytes _ _ data => data.length

def Apart (heads : List ColHead) (c d : CellWrite) : Prop :=
  c.row ≠ d.row ∨ c.first heads + c.size heads ≤ d.first heads ∨
    d.first heads + d.size heads ≤ c.first heads

def Inside (heads : List ColHead) : CellWrite → Prop
  | .col _ k row data => 1 ≤ row ∧ data ≠ [] ∧ 1 ≤ k ∧
    ∃ head, heads[k - 1]? = some head ∧ data.length ≤ head.elements
  | .bytes row offset data => 1 ≤ row ∧ data ≠ [] ∧ 1 ≤ offset ∧
    (offset - 1).toNat + data.length ≤ (heads.map ColHead.rowBytes).sum

def Held (holding : Holding) (heads : List ColHead) : CellWrite → Prop
  | .col T k _ data => ∃ head, heads[k - 1]? = some head ∧ holding head T data
  | .bytes _ _ _ => True

def Reads (api : Cfitsio) (h : HduData) : CellWrite → Prop
  | .col T k row data => row ≤ h.nrows ∧ api.readCol T k row 1 data.length h = .ok data
  | .bytes row offset data => row ≤ h.nrows ∧ api.readTblbytes row offset data.length h = .ok data

variable {api : Cfitsio} {holding : Holding} {h h' : HduData} {c d : CellWrite}

structure Changed (c : CellWrite) (h h' : HduData) : Prop where
  heads : h'.heads = h.heads
  sized : h'.Sized
  nrows : h'.nrows = max h.nrows c.row
  rows : ∀ r, r ≠ c.row → 1 ≤ r → r ≤ h.nrows → h'.bytes r = h.bytes r
  parts : c.row ≤ h.nrows → ∀ i n,
    c.first h.heads + c.size h.heads ≤ i ∨ i + n ≤ c.first h.heads →
    slice i n (h'.bytes c.row) = slice i n (h.bytes c.row)

theorem slice_overlay_apart {α : Type} {xs ys : List α} {i j n : Nat} (room : i ≤ xs.length)
    (apart : i + ys.length ≤ j ∨ j + n ≤ i) : slice j n (overlay i ys xs) = slice j n xs := by
  rcases apart with behind | before
  · exact slice_overlay_behind behind room
  · exact slice_overlay_before before room

theorem changed_col (doc : MisFITS.Documented api) (raw : RawBytes api)
    (typed : TypedCells api holding) {T : StorageType} {k : Nat} {row : Int} {data : List T.Native}
    (sized : h.Sized) (inside : (col T k row data).Inside h.heads)
    (run : api.writeCol T k row 1 data h = .ok () h') : Changed (.col T k row data) h h' := by
  obtain ⟨low, nonempty, one, head, there, room⟩ := inside
  have heads := doc.write_col run
  have last := (List.getElem?_eq_some_iff.mp there).1
  have nrows := typed.nrows there room nonempty run
  obtain ⟨sized', more, others⟩ := raw.write_col sized run
  refine ⟨heads, sized', nrows, fun r other first last => ?_, fun old i n apart => ?_⟩
  · refine bytes_congr (fun j => ?_)
    by_cases self : j = k
    · rw [self]
      exact typed.rows there room run r other first last
    · exact others r first last j self
  · have old : row ≤ h.nrows := old
    have entry : h.sizes[k - 1]? = .some ((col T k row data).size h.heads) := by
      have within : k - 1 < h.sizes.length := by
        rw [HduData.sizes, List.length_map]
        exact last
      change _ = Option.some (h.sizes.getD (k - 1) 0)
      rw [List.getD_eq_getElem?_getD, List.getElem?_eq_getElem within]
      rfl
    obtain ⟨cell, found⟩ : ∃ cell, h'.cell k row = .some cell :=
      ⟨_, cell_slice (sized' row low (Int.le_trans old more)) one
        (by rw [sizes_congr heads]; exact entry)⟩
    have length := cell_length (sized' row low (Int.le_trans old more)) found
    rw [sizes_congr heads, entry] at length
    change slice i n (h'.bytes row) = slice i n (h.bytes row)
    rw [bytes_set heads one (sized row low old) (sized' row low (Int.le_trans old more))
      (others row low old) found]
    refine slice_overlay_apart ?_ ?_
    · rw [bytes_length (sized row low old)]
      exact (Nat.le_add_right _ _).trans (start_add_le_sum entry)
    · rw [← Option.some.inj length]
      exact apart

theorem changed_bytes (doc : MisFITS.Documented api) (raw : RawBytes api) {row offset : Int}
    {data : List Byte} (sized : h.Sized) (inside : (bytes row offset data).Inside h.heads)
    (run : api.writeTblbytes row offset data h = .ok () h') : Changed (.bytes row offset data) h h' := by
  obtain ⟨low, nonempty, one, room⟩ := inside
  have heads := doc.write_tblbytes run
  have place : offset = 1 + ((offset - 1).toNat : Int) := by omega
  rw [place] at run
  obtain ⟨sized', nrows, ⟨old, whole, before, bytes⟩, others⟩ := raw.write sized low nonempty room run
  refine ⟨heads, sized', nrows, fun r other first last => others r first last other, ?_⟩
  intro there i n apart
  change slice i n (h'.bytes row) = slice i n (h.bytes row)
  rw [bytes, ← before there]
  exact slice_overlay_apart (by rw [whole]; exact (Nat.le_add_right _ _).trans room) apart

theorem changed (doc : MisFITS.Documented api) (raw : RawBytes api) (typed : TypedCells api holding)
    (sized : h.Sized) (inside : c.Inside h.heads) (run : c.call api h = .ok () h') :
    Changed c h h' := by
  cases c with
  | col T k row data => exact changed_col doc raw typed sized inside run
  | bytes row offset data => exact changed_bytes doc raw sized inside run

/-- A part of a row that a call is apart from is as it was. -/
theorem Changed.slice (changed : Changed c h h') (apart : c.Apart h.heads d) (low : 1 ≤ d.row)
    (last : d.row ≤ h.nrows) :
    slice (d.first h.heads) (d.size h.heads) (h'.bytes d.row) =
      slice (d.first h.heads) (d.size h.heads) (h.bytes d.row) := by
  by_cases row : d.row = c.row
  · rw [row] at last ⊢
    exact changed.parts last _ _ (apart.resolve_left (fun other => other row.symm))
  · rw [changed.rows d.row row low last]

theorem Changed.reads (raw : RawBytes api) (typed : TypedCells api holding) (sized : h.Sized)
    (changed : Changed c h h') (apart : c.Apart h.heads d) (inside : d.Inside h.heads)
    (reads : d.Reads api h) : d.Reads api h' := by
  have more : h.nrows ≤ h'.nrows := changed.nrows ▸ Int.le_max_left _ _
  cases d with
  | bytes row offset data =>
    obtain ⟨low, _, one, room⟩ := inside
    obtain ⟨last, answer⟩ := reads
    have part := changed.slice apart low last
    have place : offset = 1 + ((offset - 1).toNat : Int) := by omega
    refine ⟨Int.le_trans last more, ?_⟩
    rw [place] at answer ⊢
    rw [raw.read sized low last room] at answer
    rw [raw.read changed.sized low (Int.le_trans last more)
      (by rw [sizes_congr changed.heads]; exact room)]
    exact (congrArg Except.ok part).trans answer
  | col T k row data =>
    obtain ⟨low, _, one, head, there, room⟩ := inside
    obtain ⟨last, answer⟩ := reads
    have part := changed.slice apart low last
    refine ⟨Int.le_trans last more, (typed.reads there room changed.heads low last
      (Int.le_trans last more) ?_).trans answer⟩
    refine cell_congr changed.heads (sized row low last)
      (changed.sized row low (Int.le_trans last more)) (fun n _ size => ?_)
    change Slices.slice _ (h.sizes.getD (k - 1) 0) _ = Slices.slice _ (h.sizes.getD (k - 1) 0) _ at part
    rw [List.getD_eq_getElem?_getD, size] at part
    exact part

theorem reads_back (raw : RawBytes api) (typed : TypedCells api holding)
    (inside : c.Inside h.heads) (held : c.Held holding h.heads) (run : c.call api h = .ok () h') :
    c.Reads api h' := by
  cases c with
  | col T k row data =>
    obtain ⟨head, entry, holds⟩ := held
    obtain ⟨_, nonempty, _, _, there, room⟩ := inside
    have nrows := typed.nrows there room nonempty run
    exact ⟨nrows ▸ Int.le_max_right _ _, typed.back entry holds run⟩
  | bytes row offset data => exact ⟨raw.grows inside.2.1 run, raw.read_back run⟩

end CellWrite

namespace Reference

def byteHolding : Holding := fun head T data => T = .byte ∧ data.length ≤ head.rowBytes

theorem writeRows_byte {T : StorageType} {k : Nat} {row : Int} {data : List T.Native}
    {h h' : HduData} (run : writeRows T k row 1 data h = .ok () h') :
    row ≤ h.nrows ∧ 1 ≤ row ∧ ∃ bytes c, h.column k = some c ∧ (T = .byte → HEq data bytes) ∧
      h' = { h with
        nrows := max h.nrows row
        cols := h.cols.set (k - 1) (c.withCells fun r =>
          if r = row then overwrite c row 0 bytes else c.cells r) } := by
  obtain ⟨inside, run⟩ := writeRows_ok run
  obtain ⟨low, _⟩ := writeCol_ok run
  cases T with
  | byte =>
    obtain ⟨c, column, same⟩ := writeCol_byte run
    exact ⟨inside, low, data, c, column, fun _ => .rfl, same⟩
  | _ => cases run

theorem cell_written {k j : Nat} {c : Col} {h : HduData} {nrows : Int} {cells : Int → List Byte}
    (column : h.column k = some c) (r : Int) :
    ({ h with nrows, cols := h.cols.set (k - 1) (c.withCells cells) } : HduData).cell j r =
      if j = k then some (cells r) else h.cell j r := by
  obtain ⟨one, entry⟩ := HduData.column_iff.mp column
  obtain ⟨inside, _⟩ := List.getElem?_eq_some_iff.mp entry
  unfold HduData.cell HduData.column
  by_cases zero : j = 0
  · rw [if_pos zero, if_pos zero, if_neg (by omega)]
  · rw [if_neg zero, if_neg zero]
    by_cases self : j = k
    · rw [self, List.getElem?_set_self inside, if_pos rfl]
      rfl
    · rw [List.getElem?_set_ne (by omega), if_neg self]

theorem readCol_byte {k : Nat} {row n : Int} {h : HduData} (low : 1 ≤ row) (high : row ≤ h.nrows) :
    readCol .byte k row 1 n h =
      (h.cell k row).elim (.error badColnum) (fun cell => .ok (cell.take n.toNat)) := by
  unfold readCol ofColumn HduData.cell
  simp only [low, high, and_self, Int.le_refl, if_true]
  cases h.column k <;> rfl

theorem typedCells_raw : TypedCells rawApi byteHolding where
  back {T k row data h h' head} entry holds run := by
    obtain ⟨rfl, room⟩ := holds
    obtain ⟨inside, low, bytes, c, column, same, rfl⟩ := writeRows_byte run
    cases same rfl
    cases (head_of_column column).symm.trans entry
    change readCol .byte k row 1 data.length _ = .ok data
    rw [readCol_byte low (Int.le_max_right _ _), cell_written column, if_pos rfl, if_pos rfl]
    refine congrArg Except.ok ?_
    unfold overwrite
    rw [List.take_zero, List.nil_append, Int.toNat_natCast, List.take_take,
      Nat.min_eq_left room, List.take_left]
  nrows _ _ some run := by
    obtain ⟨_, _, _, _, _, _, rfl⟩ := writeRows_byte run
    rfl
  rows _ _ run r other low high := by
    obtain ⟨_, _, bytes, c, column, _, rfl⟩ := writeRows_byte run
    rw [cell_written column, if_pos rfl, if_neg other, HduData.cell, column]
    rfl
  reads {T k row h h' n head} _ _ heads low high high' same := by
    cases T with
    | byte =>
      change readCol .byte k row 1 n h' = readCol .byte k row 1 n h
      rw [readCol_byte low high, readCol_byte low high', same]
    | _ => rfl

end Reference

end MisFITS
