import MisFITS.Edits
import MisFITS.RawBytes
import MisFITS.Strings
import MisFITS.Tiling

/-! Tables to which columns have only been added: what the header says of such a
column, and where its cells stand in a row. -/
namespace MisFITS
open ColumnType Program Run Slices

/-- Positive dimensions, of no more elements than an `int` counts. -/
structure Extent.Sizes (e : Extent) : Prop where
  dims : ∀ d ∈ e, 0 < d
  small : e.prod < 2 ^ 31

namespace Extent

variable {e : Extent}

theorem prod_pos (dims : ∀ d ∈ e, 0 < d) : 0 < e.prod := by
  induction e with
  | nil => decide
  | cons d e ih =>
    rw [List.prod_cons]
    exact Int.mul_pos (dims d List.mem_cons_self)
      (ih (fun d member => dims d (List.mem_cons_of_mem _ member)))

theorem Sizes.nelem (sizes : e.Sizes) : e.nelem = e.prod :=
  nelem_of_lt (Int.le_of_lt (prod_pos sizes.dims)) sizes.small

theorem Sizes.count (sizes : e.Sizes) : (ColumnInfo.count e : Int) = e.prod := by
  have positive := prod_pos sizes.dims
  unfold ColumnInfo.count
  rw [sizes.nelem]
  split <;> omega

theorem Sizes.flat (sizes : e.Sizes) : Sizes [e.prod, 1] where
  dims := by simp [prod_pos sizes.dims]
  small := by simpa using sizes.small

theorem Sizes.split {d : Int} {rest : Extent} (sizes : Sizes (d :: rest)) :
    ∃ w m : Nat, d = w ∧ rest.prod = m ∧ (d :: rest).prod = (w * m : Nat) ∧ 1 ≤ w ∧ 1 ≤ m ∧
      w * m < 2 ^ 31 := by
  have first := sizes.dims d List.mem_cons_self
  have others := prod_pos (fun d member => sizes.dims d (List.mem_cons_of_mem _ member))
  obtain ⟨w, rfl⟩ := Int.eq_ofNat_of_zero_le (Int.le_of_lt first)
  obtain ⟨m, count⟩ := Int.eq_ofNat_of_zero_le (Int.le_of_lt others)
  have small := sizes.small
  have product : (((w : Int) :: rest).prod) = (w * m : Nat) := by
    rw [List.prod_cons, count, Int.natCast_mul]
  rw [product] at small
  exact ⟨w, m, rfl, count, product, by omega, by omega, by omega⟩

end Extent

namespace ColumnInfo

variable {ci info : ColumnInfo} {k : Nat} {offset : Int}

theorem inserted_wellFormed (sizes : ci.extent.Sizes) : (inserted ci).WellFormed where
  supported := by
    cases type : ci.columnType <;> simp [inserted, ColHead.created, Spec.stored, type, specFromId,
      Spec.id]
  tdim axes some := by
    unfold inserted at some
    split at some <;> cases some
    exact sizes.count.symm
  small := by
    have count := sizes.count
    have small := sizes.small
    change ColumnInfo.count ci.extent < 2 ^ 31
    omega

theorem inserted_axes : (inserted ci).axes =
    if ci.extent.squeeze.naxes > 1 then ci.extent else [(count ci.extent : Int)] := by
  unfold inserted ColHead.axes
  dsimp only
  split <;> rfl

theorem naxes_le (ci : ColumnInfo) : ci.extent.squeeze.naxes ≤ ci.extent.length := List.length_filter_le _ _

theorem inserted_width (flat : ¬ci.extent.squeeze.naxes > 1) (string : ci.columnType = .string) :
    (inserted ci).reportedWidth = count ci.extent := by
  unfold inserted ColHead.reportedWidth ColHead.created
  simp [string, flat, Spec.stored, Spec.id]

theorem inserted_splits : (inserted ci).Splits := by
  intro string one
  have text : ci.columnType = .string := by
    revert string
    cases type : ci.columnType <;> simp [inserted, ColHead.created, Spec.stored, Spec.id, type]
  rw [inserted_axes] at one
  have fewer := naxes_le ci
  split at one
  · omega
  · rename_i flat
    rw [inserted_width flat text]
    have positive := count_pos ci.extent
    exact ⟨by omega, Int.dvd_refl _⟩

/-- What is read back of a string column: its extent, or one string of all its bytes. -/
theorem decode_inserted (sizes : ci.extent.Sizes) (string : ci.columnType = .string)
    (described : decode (inserted ci) k offset = .ok info) :
    info.columnType = .string ∧ info.colnum = k ∧ info.offset = offset ∧
      info.nbytes = ci.extent.prod ∧
      info.extent = if ci.extent.squeeze.naxes > 1 then ci.extent else [ci.extent.prod, 1] := by
  obtain ⟨_, _, id, extent, number, place, nbytes⟩ := decode_ok described
  have type : (inserted ci).typecode = .string := by
    change ci.columnType.stored = _
    rw [string]
    rfl
  have text : info.columnType = .string := Spec.id_inj.mp (id.trans type)
  have shape : info.extent =
      if ci.extent.squeeze.naxes > 1 then ci.extent else [ci.extent.prod, 1] := by
    have fewer := naxes_le ci
    unfold ColumnInfo.shape at extent
    rw [inserted_axes] at extent
    split
    · rename_i deep
      rw [if_pos deep, if_neg (by omega)] at extent
      exact (Except.ok.inj extent).symm
    · rename_i flat
      have positive := count_pos ci.extent
      rw [if_neg flat, if_pos ⟨type, rfl⟩, inserted_width flat string] at extent
      change (divide (count ci.extent : Int) (count ci.extent)).map _ = _ at extent
      rw [divide, if_neg (by omega), Int.tdiv_self (by omega), sizes.count] at extent
      exact (Except.ok.inj extent).symm
  refine ⟨text, number, place, ?_, shape⟩
  have count : info.extent.nelem = ci.extent.prod := by
    rw [shape]
    split
    · exact sizes.nelem
    · simpa using sizes.flat.nelem
  rw [nbytes, text, count]
  simp [cellBytes, Spec.id]

theorem shaped_of_inserted (sizes : ci.extent.Sizes) (string : ci.columnType = .string)
    (described : decode (inserted ci) k offset = .ok info) :
    ∃ w m, RowEntry.StringColumnVector.Shaped info w m ∧ info.extent.nelem = (w * m : Nat) := by
  obtain ⟨_, _, _, nbytes, extent⟩ := decode_inserted sizes string described
  have product : info.extent.prod = ci.extent.prod := by
    rw [extent]
    split <;> simp
  have sizes' : info.extent.Sizes := by
    rw [extent]
    split
    · exact sizes
    · exact sizes.flat
  have nonempty : info.extent ≠ [] := by
    intro empty
    rw [empty] at extent
    split at extent
    · rename_i deep
      rw [← extent] at deep
      cases deep
    · cases extent
  cases axes : info.extent with
  | nil => exact absurd axes nonempty
  | cons d rest =>
    rw [axes] at sizes' product
    obtain ⟨w, m, first, _, whole, wide, many, small⟩ := sizes'.split
    refine ⟨w, m, ⟨by rw [axes, ← first]; rfl, ?_, wide, many, by omega⟩, ?_⟩
    · rw [nbytes, ← product, whole]
    · rw [sizes'.nelem, whole]

theorem sum_rowBytes (heads : List ColHead) :
    ((heads.map (fun c => (c.rowBytes : Int))).sum) = ((heads.map ColHead.rowBytes).sum : Nat) := by
  induction heads with
  | nil => rfl
  | cons c heads ih => simp [ih]

end ColumnInfo

namespace Table
open ColumnInfo

variable {api : Cfitsio} {t : Nat} {w w' : World}

def ColumnEdit.Adds : Option ColumnEdit → Prop
  | some (.add ci) => ci.extent.Sizes
  | some (.addNew _ _ _ extent _) => extent.Sizes
  | some (.delete _) => False
  | none => True

/-- All columns of the table have been added, and its rows have the width of these. -/
structure Grown (w : World) (t : Nat) : Prop where
  synced : Synced w t
  made : ∀ c ∈ (w.unitOf (.table t)).heads, ∃ ci : ColumnInfo, ci.extent.Sizes ∧ c = inserted ci
  sized : (w.unitOf (.table t)).Sized

theorem Grown.of_empty (synced : Synced w t) (empty : (w.unitOf (.table t)).cols = []) :
    Grown w t where
  synced := synced
  made := by simp [HduData.heads, empty]
  sized := by
    intro r _ _ c member
    simp [empty] at member

theorem unitOf_refreshed (doc : Documented api) {h : HduData} {u : Unit}
    (refreshes : refresh api t (w.put (.table t) h) = .ok u w') : w'.unitOf (.table t) = h := by
  obtain ⟨_, _, _, _, rfl⟩ := refresh_ok doc refreshes
  simp

theorem grown_insert (doc : Documented api) (raw : RawBytes api) (grown : Grown w t)
    {ci : ColumnInfo} {h : HduData} {cells : Int → List Byte} {k : Nat} (sizes : ci.extent.Sizes)
    (refreshes : refresh api t (w.put (.table t) h) = .ok () w')
    (calls : Inserted api (w.unitOf (.table t)) h)
    (cols : h.cols = (w.unitOf (.table t)).cols.take k ++
      ⟨inserted ci, cells⟩ :: (w.unitOf (.table t)).cols.drop k) : Grown w' t := by
  have unit := unitOf_refreshed doc refreshes
  refine ⟨synced_of_refresh doc refreshes, ?_, ?_⟩
  · intro c member
    rw [unit, HduData.heads, cols, List.map_append, List.map_cons, List.map_take, List.map_drop,
      List.mem_append, List.mem_cons] at member
    rcases member with before | rfl | behind
    · exact grown.made c (List.mem_of_mem_take before)
    · exact ⟨ci, sizes, rfl⟩
    · exact grown.made c (List.mem_of_mem_drop behind)
  · rw [unit]
    obtain ⟨_, _, _, h₁, first, rfl | ⟨_, second⟩⟩ := calls
    · exact raw.insert_col first grown.sized
    · exact raw.write_tdim second (raw.insert_col first grown.sized)

theorem step_grown (doc : Documented api) (raw : RawBytes api) {e : Option ColumnEdit}
    (adds : ColumnEdit.Adds e) (step : EditStep api t e w w') (grown : Grown w t) : Grown w' t := by
  cases e with
  | none =>
    obtain ⟨cache, unit⟩ : w'.tables t = w.tables t ∧
      w'.unitOf (.table t) = w.unitOf (.table t) := step
    exact ⟨grown.synced.of_eq (by rw [unit]) (by rw [cache]), unit ▸ grown.made, unit ▸ grown.sized⟩
  | some e =>
    obtain ⟨range, run⟩ := step
    cases e with
    | add ci =>
      obtain ⟨h, cells, refreshes, calls, cols⟩ := add_run doc range run
      exact grown_insert doc raw grown adds refreshes calls cols
    | addNew ttype type tunit extent colnum =>
      obtain ⟨ci, h, cells, made, refreshes, calls, cols⟩ := addNew_run doc range run
      obtain ⟨_, _, _, same, _⟩ := make_ok made
      exact grown_insert doc raw grown (same ▸ adds) refreshes calls cols
    | delete colnum => exact adds.elim

theorem run_grown (doc : Documented api) (raw : RawBytes api) {trace : List (Option ColumnEdit × World)}
    (adds : ∀ p ∈ trace, ColumnEdit.Adds p.1) (run : Trace (EditStep api t) w trace)
    (grown : Grown w t) : Grown (last w trace) t := by
  have keeps : ∀ e w w', ColumnEdit.Adds e → EditStep api t e w w' → Grown w t → Grown w' t :=
    fun _ _ _ => step_grown doc raw
  exact Trace.invariant keeps adds grown run

theorem Grown.wellFormed (grown : Grown w t) :
    ∀ c ∈ (w.unitOf (.table t)).heads, c.WellFormed ∧ c.Splits := by
  intro c member
  obtain ⟨ci, sizes, rfl⟩ := grown.made c member
  exact ⟨inserted_wellFormed sizes, inserted_splits⟩

theorem Grown.place (grown : Grown w t) {k : Nat} {info : ColumnInfo}
    (entry : (w.tables t).columns[k]? = some info) : ∃ ci, ci.extent.Sizes ∧
      (w.unitOf (.table t)).heads[k]? = some (inserted ci) ∧
      decode (inserted ci) (1 + k) info.offset = .ok info ∧
      info.offset = (1 + start (w.unitOf (.table t)).sizes k : Nat) ∧
      info.nbytes = (inserted ci).rowBytes := by
  have well := grown.wellFormed
  obtain ⟨c, head, described⟩ := decodeAll_get grown.synced entry
  have member := List.mem_of_getElem? head
  obtain ⟨ci, sizes, rfl⟩ := grown.made c member
  have widths := decodeAll_nbytes (fun c member => (well c member).1)
    (fun c member => (well c member).2) grown.synced
  have before := congrArg (fun sizes : List Int => (sizes.take k).sum) widths
  rw [← List.map_take, ← List.map_take, sum_rowBytes] at before
  have offset := (decode_ok described).2.2.2.2.2.1
  refine ⟨ci, sizes, head, offset ▸ described, ?_, ?_⟩
  · rw [offset, before, start, HduData.sizes, List.map_take, Nat.cast_add]
    rfl
  · exact (decode_nbytes (well _ member).1 described).mpr (well _ member).2

end Table
end MisFITS
