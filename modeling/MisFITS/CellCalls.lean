import Mathlib.Data.Set.Lattice
import MisFITS.Buffers
import MisFITS.Overwrite
import MisFITS.Reference

/-! The calls of bound columns: the places of a table that they write to, and how much
they read. -/
namespace MisFITS
open Program HDU

/-- A byte of a cell, with the column counted from 0, or that there is a row. -/
inductive Spot where
  | byte (column : Nat) (row : Int) (j : Nat)
  | row (row : Int)

namespace HduData

def byteAt (h : HduData) (column : Nat) (row : Int) (j : Nat) : Option Byte :=
  (h.cols[column]?).bind (fun c => (c.cells row)[j]?)

def SameAt : Spot → HduData → HduData → Prop
  | .byte column row j, h, h' => h.byteAt column row j = h'.byteAt column row j
  | .row row, h, h' => row ≤ h.nrows ↔ row ≤ h'.nrows

def header (h : HduData) : HduType × List ColHead × Int × List Card :=
  (h.type, h.heads, h.naxis2, h.keys)

def spots : Overwrite.Places HduData Spot where
  same := SameAt
  refl i h := by cases i <;> simp [SameAt]
  symm {i _ _} same := by
    cases i with
    | byte => exact Eq.symm same
    | row => exact Iff.symm same
  trans {i _ _ _} same same' := by
    cases i with
    | byte => exact Eq.trans same same'
    | row => exact Iff.trans same same'

variable {h h' : HduData}

theorem heads_of_header (same : h.header = h'.header) : h.heads = h'.heads :=
  congrArg (fun header => header.2.1) same

theorem cols_ext (heads : h.heads = h'.heads)
    (same : ∀ column row j, h.byteAt column row j = h'.byteAt column row j) :
    h.cols = h'.cols := by
  refine List.ext_getElem? (fun k => ?_)
  have head : (h.cols[k]?).map Col.toColHead = (h'.cols[k]?).map Col.toColHead := by
    rw [← List.getElem?_map, ← List.getElem?_map]
    exact congrArg (·[k]?) heads
  have bytes := same k
  unfold byteAt at bytes
  cases found : h.cols[k]? with
  | none =>
    rw [found] at head
    exact (Option.map_eq_none_iff.mp head.symm).symm
  | some c =>
    rw [found] at head bytes
    obtain ⟨c', found', same⟩ := Option.map_eq_some_iff.mp head.symm
    rw [found'] at bytes ⊢
    have cells : c.cells = c'.cells := funext fun row => List.ext_getElem? (bytes row)
    obtain ⟨head, cells'⟩ := c
    obtain ⟨head', cells''⟩ := c'
    cases same
    cases cells
    rfl

/-- Header-data units with the same header that have the same at every place are the same. -/
theorem ext_spots (header : h.header = h'.header) (same : ∀ i, SameAt i h h') : h = h' := by
  have cols := cols_ext (heads_of_header header) (fun column row j => same (.byte column row j))
  have nrows : h.nrows = h'.nrows :=
    Int.le_antisymm ((same (.row h.nrows)).mp (Int.le_refl _))
      ((same (.row h'.nrows)).mpr (Int.le_refl _))
  obtain ⟨type, _, _, naxis2, keys⟩ := h
  obtain ⟨type', _, _, naxis2', keys'⟩ := h'
  simp only [HduData.header, Prod.mk.injEq] at header
  obtain ⟨rfl, _, rfl, rfl⟩ := header
  cases cols
  cases nrows
  rfl

end HduData

namespace CellWrite

def Confined (places : Set Spot) (edit : Edit) (h : HduData) : Prop :=
  (after (edit h)).header = h.header ∧ HduData.spots.Agree placesᶜ h (after (edit h))

/-- The documented behaviour of the calls, with the places that each writes to in a
table with these columns: a call that fails changes no other ones, and what is there
when it has returned does not depend on what was there before. -/
structure Documented (api : Cfitsio) (places : List ColHead → CellWrite → Set Spot) : Prop where
  confined : ∀ c h, Confined (places h.heads c) (call api c) h
  settles : ∀ {c h g h' g'}, g.header = h.header → call api c h = .ok () h' →
    call api c g = .ok () g' → HduData.spots.Agree (places h.heads c) h' g'

end CellWrite

namespace Target

variable {τ : Target} {it jt : τ.Column}

theorem Alike.cell (alike : τ.Alike it jt) (row : Int) (data : List τ.storage.Native) :
    τ.cell jt row data = τ.cell it row data := by
  obtain ⟨buffer, _, rfl⟩ := alike
  cases τ <;> rfl

end Target

/-- The documented behaviour of the calls that read: they store all that is asked for. -/
structure CellReads (api : Cfitsio) : Prop where
  col : ∀ {T k row n h data}, api.readCol T k row 1 n h = .ok data → data.length = n.toNat
  bytes : ∀ {row first n h data}, api.readTblbytes row first n h = .ok data →
    data.length = n.toNat

theorem CellReads.request (reads : CellReads api) {τ : Target} {it : τ.Column} {row : Int}
    {h : HduData} {data : List τ.storage.Native} (run : τ.request api it row h = .ok data) :
    data.length = τ.count it := by
  cases τ with
  | native | bool => exact reads.col run
  | bitset => exact (reads.col run).trans (Int.toNat_natCast _)
  | string | strings => exact reads.bytes run

namespace Reference

def padded {α : Type} (zero : α) (n : Int) (data : List α) : List α :=
  (data ++ List.replicate n.toNat zero).take n.toNat

def paddedApi : Cfitsio :=
  { api with
    readCol := fun T k row first n h => (readCol T k row first n h).map (padded T.zero n)
    readTblbytes := fun row first n h => (api.readTblbytes row first n h).map (padded 0 n) }

theorem padded_length {α : Type} (zero : α) (n : Int) (data : List α) :
    (padded zero n data).length = n.toNat := by
  simp [padded]

theorem paddedApi_reads : CellReads paddedApi where
  col run := by
    obtain ⟨data, _, same⟩ := except_map_ok.mp run
    rw [← same, padded_length]
  bytes run := by
    cases run
    exact padded_length _ _ _

theorem paddedApi_documented : Documented paddedApi :=
  { documented with
    read_bits := fun {h k c row} n column bit whole low high => by
      refine except_map_ok.mpr ⟨c.cells row, documented.read_bits n column bit whole low high, ?_⟩
      unfold padded
      rw [List.take_append_of_le_length (by omega), List.take_of_length_le (by omega)] }

/-- The bytes that are written, and the rows up to theirs. Bytes behind the end of a
cell are cut off with them. -/
def places (heads : List ColHead) : CellWrite → Set Spot
  | .col _ k row data => fun i =>
    (∃ j, i = .byte (k - 1) row j ∧
      (j < data.length ∨ ∃ head, heads[k - 1]? = some head ∧ head.rowBytes ≤ j)) ∨
    ∃ row' ≤ row, i = .row row'
  | .bytes .. => ∅

theorem overwrite_behind {c : Col} {row : Int} {bytes : List Byte} {j : Nat}
    (behind : bytes.length ≤ j) (inside : j < c.rowBytes) :
    (overwrite c row 0 bytes)[j]? = (c.cells row)[j]? := by
  unfold overwrite
  rw [List.take_zero, List.nil_append, List.getElem?_take_of_lt inside,
    List.getElem?_append_right behind, List.getElem?_drop]
  congr 1
  omega

theorem overwrite_settles {c c' : Col} {row : Int} {bytes : List Byte} {j : Nat}
    (same : c.rowBytes = c'.rowBytes) (place : j < bytes.length ∨ c.rowBytes ≤ j) :
    (overwrite c row 0 bytes)[j]? = (overwrite c' row 0 bytes)[j]? := by
  unfold overwrite
  rw [List.take_zero, List.nil_append, List.take_zero, List.nil_append, ← same]
  rcases Nat.lt_or_ge j c.rowBytes with low | high
  · have inside : j < bytes.length := place.resolve_right (by omega)
    rw [List.getElem?_take_of_lt low, List.getElem?_take_of_lt low,
      List.getElem?_append_left inside, List.getElem?_append_left inside]
  · rw [List.getElem?_take_eq_none high, List.getElem?_take_eq_none high]

theorem writeCol_byte {k : Nat} {row : Int} {bytes : List Byte} {h h' : HduData} {u : Unit}
    (run : writeCol .byte k row 1 bytes h = .ok u h') :
    ∃ c, h.column k = some c ∧ h' = { h with
      nrows := max h.nrows row
      cols := h.cols.set (k - 1) (c.withCells fun r =>
        if r = row then overwrite c row 0 bytes else c.cells r) } := by
  unfold writeCol at run
  dsimp only at run
  split at run
  · obtain ⟨c, column, rfl⟩ := onColumn_ok run
    exact ⟨c, column, rfl⟩
  · cases run

theorem writeCol_error {T : StorageType} {k : Nat} {row : Int} {data : List T.Native}
    {h h' : HduData} {status : Status} (run : writeCol T k row 1 data h = .error status h') :
    h' = h ∨ h' = { h with nrows := max h.nrows row } := by
  unfold writeCol at run
  split at run
  · split at run
    · unfold onColumn at run
      split at run
      · cases run
      · cases run
        exact Or.inr rfl
    · cases run
      exact Or.inl rfl
  · cases run
    exact Or.inl rfl

theorem byteAt_set {h : HduData} {k : Nat} {c : Col} {nrows : Int} {cells : Int → List Byte}
    (column : h.column k = some c) (l : Nat) (row : Int) (j : Nat) :
    ({ h with nrows, cols := h.cols.set (k - 1) (c.withCells cells) } : HduData).byteAt l row j =
      if l = k - 1 then (cells row)[j]? else h.byteAt l row j := by
  obtain ⟨_, entry⟩ := HduData.column_iff.mp column
  obtain ⟨inside, _⟩ := List.getElem?_eq_some_iff.mp entry
  unfold HduData.byteAt
  dsimp only
  split
  · rename_i here
    rw [here, List.getElem?_set_self inside]
    rfl
  · rename_i other
    rw [List.getElem?_set_ne (Ne.symm other)]

theorem byteAt_column {h : HduData} {k : Nat} {c : Col} (column : h.column k = some c) (row : Int)
    (j : Nat) : h.byteAt (k - 1) row j = (c.cells row)[j]? := by
  obtain ⟨_, entry⟩ := HduData.column_iff.mp column
  unfold HduData.byteAt
  rw [entry]
  rfl

theorem head_of_column {h : HduData} {k : Nat} {c : Col} (column : h.column k = some c) :
    h.heads[k - 1]? = some c.toColHead := by
  obtain ⟨_, entry⟩ := HduData.column_iff.mp column
  rw [HduData.heads, List.getElem?_map, entry]
  rfl

theorem row_behind {T : StorageType} {k : Nat} {row row' : Int} {data : List T.Native} {h : HduData}
    (outside : Spot.row row' ∉ places h.heads (.col T k row data)) :
    row' ≤ h.nrows ↔ row' ≤ max h.nrows row := by
  have behind : row < row' := Int.not_le.mp (fun low => outside (Or.inr ⟨row', low, rfl⟩))
  omega

theorem write_confined (c : CellWrite) (h : HduData) :
    CellWrite.Confined (places h.heads c) (c.call paddedApi) h := by
  cases c with
  | bytes row offset data => exact ⟨rfl, .refl h⟩
  | col T k row data =>
    change CellWrite.Confined _ (writeCol T k row 1 data) h
    unfold CellWrite.Confined
    cases run : writeCol T k row 1 data h with
    | error status h' =>
      rcases writeCol_error run with same | same
      · rw [same]
        exact ⟨rfl, .refl h⟩
      · rw [same]
        refine ⟨rfl, fun i outside => ?_⟩
        cases i with
        | byte l row' j => exact rfl
        | row row' => exact row_behind outside
    | ok u h' =>
      cases T with
      | byte =>
        obtain ⟨c, column, same⟩ := writeCol_byte run
        rw [same]
        refine ⟨?_, fun i outside => ?_⟩
        · have heads : HduData.heads { h with cols := h.cols.set (k - 1) (c.withCells fun r =>
              if r = row then overwrite c row 0 data else c.cells r) } = h.heads :=
            HduData.heads_set column rfl
          exact congrArg (fun heads => (h.type, heads, h.naxis2, h.keys)) heads
        cases i with
        | byte l row' j =>
          refine Eq.trans ?_ (byteAt_set column l row' j).symm
          split
          · rename_i here
            subst here
            rw [byteAt_column column]
            split
            · rename_i here
              subst here
              refine (overwrite_behind ?_ ?_).symm
              · exact Nat.le_of_not_lt (fun low => outside (Or.inl ⟨j, rfl, Or.inl low⟩))
              · exact Nat.lt_of_not_le (fun high =>
                  outside (Or.inl ⟨j, rfl, Or.inr ⟨_, head_of_column column, high⟩⟩))
            · rfl
          · rfl
        | row row' => exact row_behind outside
      | _ => cases run

theorem paddedApi_writes : CellWrite.Documented paddedApi places where
  confined := write_confined
  settles {c h g h' g'} header run run' := by
    intro i inside
    cases c with
    | bytes row offset data => exact inside.elim
    | col T k row data =>
      cases T with
      | byte =>
        have run : writeCol .byte k row 1 data h = .ok () h' := run
        have run' : writeCol .byte k row 1 data g = .ok () g' := run'
        obtain ⟨c, column, rfl⟩ := writeCol_byte run
        obtain ⟨c', column', rfl⟩ := writeCol_byte run'
        have heads := HduData.heads_of_header header
        have head : c'.toColHead = c.toColHead := by
          have same := head_of_column column'
          rw [heads, head_of_column column] at same
          exact (Option.some.inj same).symm
        rcases inside with ⟨j, rfl, place⟩ | ⟨row', low, rfl⟩
        · change HduData.byteAt _ _ _ _ = HduData.byteAt _ _ _ _
          rw [byteAt_set column, byteAt_set column', if_pos rfl, if_pos rfl, if_pos rfl, if_pos rfl]
          refine overwrite_settles (congrArg ColHead.rowBytes head.symm) ?_
          rcases place with written | ⟨head, found, behind⟩
          · exact Or.inl written
          · rw [head_of_column column] at found
            cases found
            exact Or.inr behind
        · change row' ≤ max h.nrows row ↔ row' ≤ max g.nrows row
          omega
      | _ => cases run

end Reference
end MisFITS
