import MisFITS.Bits
import MisFITS.Layout

/-! Counts: the elements and the bytes of a cell as its dimensions give them,
against what the code computes, in memory and from a header. -/
namespace MisFITS
open ColumnType Program

namespace Extent

variable {e : Extent}

theorem nelem_eq_prod_iff (dims : ∀ d ∈ e, 0 < d) : e.nelem = e.prod ↔ e.prod < 2 ^ 31 := by
  constructor
  · intro counted
    rw [nelem_eq] at counted
    have bounds := toInt_bounds e.prod
    omega
  · exact nelem_of_lt (Int.le_of_lt (prod_pos dims))

theorem prod_filter_one_lt {rest : List Int} (dims : ∀ d ∈ rest, 0 < d) :
    (rest.filter (fun d => 1 < d)).prod = rest.prod := by
  have same : rest.filter (fun d => 1 < d) = squeeze rest := by
    refine List.filter_congr (fun d member => ?_)
    have positive := dims d member
    rw [decide_eq_decide]
    omega
  rw [same, prod_squeeze]

/-- An extent that the program can get, with the product of the dimensions that it is
made from: by the constructor, from a file, or squeezed. -/
inductive OfProduct : Extent → Int → Prop where
  | made {e0 e1 e2 e3 e4 e5 e6 e7 e8 e9}
      (dims : ∀ d ∈ [e0, e1, e2, e3, e4, e5, e6, e7, e8, e9], 0 < d) :
      OfProduct (make e0 e1 e2 e3 e4 e5 e6 e7 e8 e9) [e0, e1, e2, e3, e4, e5, e6, e7, e8, e9].prod
  | read {axes : Extent} (dims : ∀ d ∈ axes, 0 < d) : OfProduct axes axes.prod
  | squeezed {e p} (of : OfProduct e p) : OfProduct e.squeeze p

theorem OfProduct.dims {p : Int} (of : OfProduct e p) : (∀ d ∈ e, 0 < d) ∧ e.prod = p := by
  induction of with
  | made dims =>
    have rest := fun d member => dims d (List.mem_cons_of_mem _ member)
    refine ⟨fun d member => ?_, ?_⟩
    · rcases List.mem_cons.mp member with rfl | later
      · exact dims d List.mem_cons_self
      · exact rest d (List.mem_filter.mp later).1
    · rw [make, List.prod_cons, prod_filter_one_lt rest, ← List.prod_cons]
  | read dims => exact ⟨dims, rfl⟩
  | @squeezed e _ _ ih =>
    exact ⟨fun d member => ih.1 d (List.mem_filter.mp member).1, (prod_squeeze e).trans ih.2⟩

end Extent

namespace ColumnType.Spec

variable {api : Cfitsio} {s : Spec} {p : Int}

def cell (s : Spec) (p : Int) : Int :=
  if s.id = .bit then (p + 7) / 8 else p * elemSize s.id

theorem elemSize_le (s : Spec) : elemSize s.id ≤ 8 := by cases s <;> decide

theorem elemSize_stored (s : Spec) : elemSize s.stored = elemSize s.id := by cases s <;> rfl

theorem cell_pos_le (positive : 0 < p) (small : p < 2 ^ 31) : 0 ≤ s.cell p ∧ s.cell p < 2 ^ 34 := by
  obtain ⟨n, rfl⟩ := Int.eq_ofNat_of_zero_le (Int.le_of_lt positive)
  unfold cell
  split
  · omega
  · have most := Nat.mul_le_mul_left n (elemSize_le s)
    rw [← Int.natCast_mul]
    omega

theorem width_eq (doc : Documented api) (positive : 0 < p) (small : p < 2 ^ 31) :
    s.width api (toSize p) = .ok (s.cell p).toNat := by
  obtain ⟨n, rfl⟩ := Int.eq_ofNat_of_zero_le (Int.le_of_lt positive)
  rw [toSize_natCast (by omega)]
  unfold Spec.width cell
  by_cases bit : s.id = .bit
  · rw [if_pos bit, if_pos bit]
    refine congrArg Except.ok ?_
    split <;> omega
  · have form : api.binaryTform s.code.toString = .ok (elemSize s.id) :=
      doc.binary_tform s (fun same => bit (congrArg Spec.id same))
    have most := Nat.mul_le_mul_right n (elemSize_le s)
    rw [if_neg bit, if_neg bit, form]
    change Except.ok (elemSize s.id * n % 2 ^ 64) = _
    rw [Nat.mod_eq_of_lt (by omega), ← Int.natCast_mul, Int.toNat_natCast, Nat.mul_comm]

end ColumnType.Spec

namespace ColumnInfo

variable {api : Cfitsio} {s : Spec} {p width : Int} {c : ColHead}

theorem cellBytes_eq (positive : 0 < p) (element : s.id ≠ .bit → s.id ≠ .string → width = elemSize s.id) :
    cellBytes s p width = s.cell p := by
  unfold cellBytes Spec.cell
  by_cases bit : s.id = .bit
  · have floor := Int.tdiv_eq_ediv_of_nonneg (b := 8) (Int.le_of_lt positive)
    rw [if_pos bit, if_pos bit]
    dsimp only
    split <;> omega
  · rw [if_neg bit, if_neg bit]
    by_cases text : s.id = .string
    · rw [if_pos text, text]
      rfl
    · rw [if_neg text, element bit text]

theorem reportedWidth_of_ne (other : c.typecode ≠ .string) : c.reportedWidth = elemSize c.typecode := by
  unfold ColHead.reportedWidth
  rw [if_neg other]

theorem decode_bytes {k : Nat} {offset : Int} {info : ColumnInfo} (positive : 0 < info.extent.nelem)
    (described : decode c k offset = .ok info) : info.nbytes = info.columnType.cell info.extent.nelem := by
  obtain ⟨_, _, id, _, _, _, nbytes⟩ := decode_ok described
  rw [nbytes]
  refine cellBytes_eq positive (fun _ other => ?_)
  rw [reportedWidth_of_ne (fun text => other (id.trans text)), id]

theorem make_eq (doc : Documented api) {ttype tunit : String} {type : ID} {extent : Extent} {colnum : Nat}
    (positive : 0 < extent.nelem) (spec : specFromId type = .ok s) :
    make api ttype type tunit extent colnum = .ok
      { ttype, tunit, columnType := s, offset := 0, extent, colnum
        nbytes := s.cell extent.nelem } := by
  have bounds := toInt_bounds extent.prod
  rw [← Extent.nelem_eq] at bounds
  obtain ⟨low, high⟩ := Spec.cell_pos_le (s := s) positive bounds.2
  have bytes : ofSize (s.cell extent.nelem).toNat = s.cell extent.nelem := by
    unfold ofSize
    rw [Int.toNat_of_nonneg low, Int.bmod_eq_of_le] <;> omega
  unfold make
  rw [spec]
  change (Spec.width api s (toSize extent.nelem) >>= _) = _
  rw [Spec.width_eq doc positive bounds.2]
  change Except.ok _ = _
  rw [bytes]

/-- What is counted of an extent with `p` elements: these, the repeat count in TFORM,
and the bytes of a cell, in memory and from a header. -/
structure Counted (api : Cfitsio) (e : Extent) (p : Int) : Prop where
  nelem : e.nelem = p
  tform : ∀ ci : ColumnInfo, ci.extent = e → ci.tform = tformText p.toNat ci.columnType.code
  made : ∀ ttype type tunit colnum ci, make api ttype type tunit e colnum = .ok ci →
    ci.nbytes = ci.columnType.cell p
  read : ∀ c k offset info, decode c k offset = .ok info → info.extent = e →
    info.nbytes = info.columnType.cell p

/-- Everything is counted exactly when an `int` holds the number. -/
theorem counted_iff (doc : Documented api) {e : Extent} {p : Int} (of : e.OfProduct p)
    (long : p < 2 ^ 63) : Counted api e p ↔ p < 2 ^ 31 := by
  obtain ⟨dims, rfl⟩ := of.dims
  have positive := Extent.prod_pos dims
  constructor
  · exact fun counted => (Extent.nelem_eq_prod_iff dims).mp counted.nelem
  · intro small
    have nelem := (Extent.nelem_eq_prod_iff dims).mpr small
    refine ⟨nelem, fun ci same => ?_, fun ttype type tunit colnum ci run => ?_,
      fun c k offset info described same => ?_⟩
    · have count : count ci.extent = e.prod.toNat := by
        rw [same, ColumnInfo.count, nelem]
        split <;> omega
      rw [tform_eq, count]
    · obtain ⟨spec, _⟩ := make_ok run
      have same := Except.ok.inj (run.symm.trans (make_eq doc (by omega) spec))
      exact (congrArg ColumnInfo.nbytes same).trans (congrArg ci.columnType.cell nelem)
    · rw [← nelem, ← same]
      exact decode_bytes (by rw [same]; omega) described

theorem counted_large : Counted Reference.api (.make 65536 32767 1 1 1 1 1 1 1 1) 2147418112 :=
  (counted_iff Reference.documented (.made (by decide)) (by decide)).mpr (by decide)

/-- The number of elements becomes a negative one, or zero, and TFORM has none. -/
theorem not_counted : Extent.OfProduct (.make 65536 32768 1 1 1 1 1 1 1 1) 2147483648 ∧
    Extent.nelem (.make 65536 32768 1 1 1 1 1 1 1 1) = -2147483648 ∧
    Extent.OfProduct (.make 65536 65536 1 1 1 1 1 1 1 1) 4294967296 ∧
    Extent.nelem (.make 65536 65536 1 1 1 1 1 1 1 1) = 0 ∧
    ∃ ci, make Reference.api "A" .byte "" (.make 65536 65536 1 1 1 1 1 1 1 1) 1 = .ok ci ∧
      ci.tform = "B" ∧ ci.nbytes = 0 :=
  ⟨.made (by decide), by decide, .made (by decide), by decide, _, rfl, by decide, rfl⟩

theorem cell_stored {s s' : Spec} (id : s'.id = s.stored) (p : Int) : s'.cell p = s.cell p := by
  have size : elemSize s'.id = elemSize s.id := by rw [id, Spec.elemSize_stored]
  have bits : s'.id = .bit ↔ s.id = .bit := by
    rw [id]
    cases s <;> decide
  unfold Spec.cell
  rw [size]
  by_cases bit : s.id = .bit
  · rw [if_pos bit, if_pos (bits.mpr bit)]
  · rw [if_neg bit, if_neg (fun other => bit (bits.mp other))]

theorem decode_of_inserted {ci : ColumnInfo} (sizes : ci.extent.Sizes) (k : Nat) (offset : Int) :
    ∃ info, decode (inserted ci) k offset = .ok info ∧ info.extent.nelem = ci.extent.nelem := by
  obtain ⟨e, shape, same⟩ := shape_inserted sizes.dims sizes.small
  obtain ⟨s, spec⟩ : ∃ s, specFromId (inserted ci).typecode = .ok s := by
    change ∃ s, specFromId ci.columnType.stored = .ok s
    cases ci.columnType <;> exact ⟨_, rfl⟩
  unfold decode
  rw [spec, shape]
  exact ⟨_, rfl, Extent.nelem_equal same⟩

theorem init_inserted (doc : Documented api) {ci : ColumnInfo} {w w' : World} {f : Nat} {u : Unit}
    (low : 1 ≤ ci.colnum) (high : ci.colnum ≤ (w.current f).cols.length + 1)
    (binary : (w.current f).type = .binaryTable) (run : insert api f ci w = .ok u w')
    (offset : Int) :
    init api f ci.colnum offset w' = ofExcept (decode (inserted ci) ci.colnum offset) w' := by
  obtain ⟨h, cells, state, _, type, cols⟩ := insert_cols doc low high run
  have current : w'.current f = h := by
    rw [state]
    simp [World.current]
  have length : ((w.current f).cols.take (ci.colnum - 1)).length = ci.colnum - 1 := by
    rw [List.length_take]
    omega
  have entry : h.cols[ci.colnum - 1]? = some ⟨inserted ci, cells⟩ := by
    rw [cols, List.getElem?_append_right length.le, length, Nat.sub_self]
    rfl
  exact init_eq doc (by rw [current, type]; exact binary)
    (by rw [current]; exact HduData.column_iff.mpr ⟨low, entry⟩)

/-- The counts of a column in memory are those that are read when it has been inserted. -/
theorem init_agrees (doc : Documented api) {type : ID} {extent : Extent} (ttype tunit : String)
    (colnum : Nat) (spec : specFromId type = .ok s) (sizes : extent.Sizes) :
    ∃ ci, make api ttype type tunit extent colnum = .ok ci ∧
      ∀ w w' f offset, 1 ≤ colnum → colnum ≤ (w.current f).cols.length + 1 →
        (w.current f).type = .binaryTable → insert api f ci w = .ok () w' →
        ∃ info, init api f colnum offset w' = .ok info w' ∧ info.nbytes = ci.nbytes ∧
          info.extent.nelem = ci.extent.nelem ∧
          (type = .bit →
            Spec.width api s (toSize extent.nelem) = .ok ((extent.nelem + 7) / 8).toNat ∧
            info.nbytes = (extent.nelem + 7) / 8 ∧
            (RowEntry.Column.init .byte info).natomic = (extent.nelem + 7) / 8) := by
  have positive : 0 < extent.nelem := by
    rw [sizes.nelem]
    exact Extent.prod_pos sizes.dims
  have id := id_of_specFromId spec
  refine ⟨_, make_eq doc positive spec, fun w w' f offset low high binary run => ?_⟩
  have reads := init_inserted doc low high binary run offset
  let ci : ColumnInfo :=
    { ttype, tunit, columnType := s, offset := 0, extent, colnum, nbytes := s.cell extent.nelem }
  obtain ⟨info, described, nelem⟩ : ∃ info, decode (inserted ci) colnum offset = .ok info ∧
      info.extent.nelem = extent.nelem := decode_of_inserted sizes colnum offset
  have stored : info.columnType.id = s.stored := (decode_ok described).2.2.1
  have bytes := decode_bytes (nelem ▸ positive) described
  rw [cell_stored stored, nelem] at bytes
  refine ⟨info, ?_, bytes, nelem, fun bit => ?_⟩
  · rw [reads]
    exact ofExcept_ok.mpr ⟨described, rfl⟩
  · have bits : s.id = .bit := id.trans bit
    have cell : s.cell extent.nelem = (extent.nelem + 7) / 8 := if_pos bits
    have kept : info.columnType.id = .bit := by
      rw [stored, Spec.id_inj.mp (bits.trans (show ID.bit = Spec.id .bit from rfl))]
      rfl
    obtain ⟨n, count⟩ := Int.eq_ofNat_of_zero_le (Int.le_of_lt positive)
    have width := Spec.width_eq (s := s) doc positive (sizes.nelem.trans_lt sizes.small)
    rw [cell] at width bytes
    refine ⟨width, bytes, ?_⟩
    rw [RowEntry.BitSetColumn.init_bytes kept (nelem.trans count), count]
    unfold RowEntry.BitSetColumn.bytesFor
    omega

theorem init_agrees_twice :
    (∃ ci, make Reference.api "A" .ushort "" [2, 3] 1 = .ok ci ∧
      ∃ w info, insert Reference.api 0 ci (Table.empty.onto (.table 0)) = .ok () w ∧
        init Reference.api 0 1 1 w = .ok info w ∧ info.nbytes = ci.nbytes ∧
        info.extent.nelem = ci.extent.nelem) ∧
    ∃ ci, make Reference.api "A" .bit "" [12] 1 = .ok ci ∧
      ∃ w info, insert Reference.api 0 ci (Table.empty.onto (.table 0)) = .ok () w ∧
        init Reference.api 0 1 1 w = .ok info w ∧ info.nbytes = 2 := by
  constructor
  · obtain ⟨ci, made, reads⟩ := init_agrees Reference.documented "A" "" 1
      (show specFromId .ushort = .ok .ushort from rfl) (⟨by decide, by decide⟩ : Extent.Sizes [2, 3])
    obtain ⟨w, run⟩ : ∃ w, insert Reference.api 0 ci (Table.empty.onto (.table 0)) = .ok () w := by
      cases made
      exact ⟨_, rfl⟩
    obtain ⟨info, described, nbytes, nelem, _⟩ :=
      reads _ w 0 1 (by decide) (by decide) rfl run
    exact ⟨ci, made, w, info, run, described, nbytes, nelem⟩
  · obtain ⟨ci, made, reads⟩ := init_agrees Reference.documented "A" "" 1
      (show specFromId .bit = .ok .bit from rfl) (⟨by decide, by decide⟩ : Extent.Sizes [12])
    obtain ⟨w, run⟩ : ∃ w, insert Reference.api 0 ci (Table.empty.onto (.table 0)) = .ok () w := by
      cases made
      exact ⟨_, rfl⟩
    obtain ⟨info, described, _, _, bits⟩ := reads _ w 0 1 (by decide) (by decide) rfl run
    exact ⟨ci, made, w, info, run, described, (bits rfl).2.1⟩

end ColumnInfo
end MisFITS
