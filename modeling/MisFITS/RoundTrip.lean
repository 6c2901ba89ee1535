import MisFITS.Table
import MisFITS.Reference

/-! What a header describes once a column has been added: the encoder of a
descriptor, `insert`, against the decoder, `init`. -/
namespace MisFITS
open ColumnType Program

namespace ColumnInfo

theorem stored_eq_id (s : Spec) : s.stored = s.id ↔ s.id ≠ .ushort ∧ s.id ≠ .ulong := by
  cases s <;> decide

theorem shape_created (ttype : String) (s : Spec) {r : Nat} (low : 1 ≤ r) :
    ∃ e, shape (.created ttype r s) = .ok e ∧ e.squeeze = Extent.squeeze [(r : Int)] := by
  have nonzero : (r : Int) ≠ 0 := by omega
  have axes : (ColHead.created ttype r s).axes = [(r : Int)] := rfl
  unfold shape
  by_cases text : (ColHead.created ttype r s).typecode = .string
  · have width : (ColHead.created ttype r s).reportedWidth = r := by
      unfold ColHead.reportedWidth
      rw [if_pos text]
      rfl
    have one : divide (ColHead.created ttype r s).reps (ColHead.created ttype r s).reportedWidth =
        .ok 1 := by
      rw [width]
      change divide (r : Int) r = _
      rw [divide, if_neg nonzero, Int.tdiv_self nonzero]
    rw [if_pos ⟨text, by rw [axes]; rfl⟩, one, width]
    refine ⟨_, rfl, ?_⟩
    unfold Extent.squeeze
    simp [List.filter_cons]
  · rw [if_neg (fun both => text both.1), axes]
    exact ⟨_, rfl, rfl⟩

/-- At most one axis is not one, and that one is a count that an `int` holds. -/
def Flat (e : Extent) : Prop := e.squeeze = [] ∨ ∃ n, e.squeeze = [n] ∧ 1 < n ∧ n < 2 ^ 31

theorem squeeze_one (x : Int) : Extent.squeeze [x] = if x = 1 then [] else [x] := by
  by_cases one : x = 1
  · simp [Extent.squeeze, one]
  · simp [Extent.squeeze, one]

theorem count_eq (e : Extent) : (count e : Int) = max 1 (toInt e.squeeze.prod) := by
  rw [← Extent.nelem_eq, Extent.nelem_squeeze]
  unfold count
  split <;> omega

theorem flat_iff {e : Extent} : Extent.squeeze [(count e : Int)] = e.squeeze ↔ Flat e := by
  rw [count_eq, squeeze_one]
  unfold Flat
  cases squeezed : e.squeeze with
  | nil => simp [toInt_of_lt]
  | cons n rest =>
    have other : n ≠ 1 := by
      have member : n ∈ e.squeeze := by rw [squeezed]; exact List.mem_cons_self
      simpa using (List.mem_filter.mp member).2
    cases rest with
    | cons m rest =>
      constructor
      · intro same
        have length := congrArg List.length same
        split at length <;> simp at length
      · rintro (empty | ⟨_, one, _⟩)
        · cases empty
        · cases one
    | nil =>
      have bounds := toInt_bounds n
      rw [List.prod_singleton]
      constructor
      · intro same
        split at same
        · cases same
        · have value : max 1 (toInt n) = n := by simpa using same
          exact Or.inr ⟨n, rfl, by omega, by omega⟩
      · rintro (empty | ⟨_, one, low, high⟩)
        · cases empty
        · cases one
          have value : max 1 n = n := by omega
          rw [toInt_of_lt (by omega) high, value, if_neg other]

theorem flat_of_dims {e : Extent} (dims : ∀ d ∈ e, 0 < d) (small : e.prod < 2 ^ 31)
    (few : e.squeeze.naxes ≤ 1) : Flat e := by
  unfold Flat
  rw [← Extent.prod_squeeze] at small
  have positive : ∀ d ∈ e.squeeze, 0 < d ∧ d ≠ 1 := by
    intro d member
    obtain ⟨inside, other⟩ := List.mem_filter.mp member
    exact ⟨dims d inside, by simpa using other⟩
  cases squeezed : e.squeeze with
  | nil => exact Or.inl rfl
  | cons d rest =>
    rw [squeezed] at few small positive
    obtain rfl : rest = [] := List.eq_nil_of_length_eq_zero (by simpa [Extent.naxes] using few)
    have d_pos := positive d List.mem_cons_self
    rw [List.prod_singleton] at small
    exact Or.inr ⟨d, rfl, by omega, small⟩

def inserted (ci : ColumnInfo) : ColHead :=
  { ColHead.created ci.ttype (count ci.extent) ci.columnType with
    tdim := if ci.extent.squeeze.naxes > 1 then some ci.extent else none }

/-- The decoder finds the extent that the encoder was given. -/
theorem shape_inserted {ci : ColumnInfo} (dims : ∀ d ∈ ci.extent, 0 < d)
    (small : ci.extent.prod < 2 ^ 31) :
    ∃ e, shape (inserted ci) = .ok e ∧ Extent.equal e ci.extent = true := by
  by_cases deep : ci.extent.squeeze.naxes > 1
  · have axes : (inserted ci).axes = ci.extent := by
      unfold inserted ColHead.axes
      rw [if_pos deep]
      rfl
    have many : ci.extent.length ≠ 1 := by
      have fewer : ci.extent.squeeze.length ≤ ci.extent.length := List.length_filter_le _ _
      unfold Extent.naxes at deep
      omega
    unfold shape
    rw [if_neg (fun both => many (by rw [← axes]; exact both.2)), axes]
    exact ⟨_, rfl, by simp⟩
  · have plain : inserted ci = .created ci.ttype (count ci.extent) ci.columnType := by
      unfold inserted
      rw [if_neg deep]
      rfl
    obtain ⟨e, described, squeezed⟩ := shape_created ci.ttype ci.columnType
      (count_pos ci.extent)
    rw [plain]
    refine ⟨e, described, ?_⟩
    rw [Extent.equal_iff, squeezed]
    exact flat_iff.mpr (flat_of_dims dims small (Nat.le_of_not_lt deep))

variable {api : Cfitsio} {w w' : World} {f : Nat}

theorem make_ok {ttype tunit : String} {type : ID} {extent : Extent} {colnum : Nat}
    {ci : ColumnInfo} (run : make api ttype type tunit extent colnum = .ok ci) :
    specFromId type = .ok ci.columnType ∧ ci.ttype = ttype ∧ ci.tunit = tunit ∧
      ci.extent = extent ∧ ci.colnum = colnum := by
  obtain ⟨s, spec, run⟩ := except_bind_ok.mp run
  obtain ⟨nbytes, _, run⟩ := except_bind_ok.mp run
  cases run
  exact ⟨spec, rfl, rfl, rfl, rfl⟩

def Inserted (api : Cfitsio) (h h' : HduData) : Prop :=
  ∃ k ttype tform h₁, api.insertCol k ttype tform h = .ok () h₁ ∧
    (h' = h₁ ∨ ∃ axes, api.writeTdim k axes h₁ = .ok () h')

theorem insert_cols (doc : Documented api) {ci : ColumnInfo} {u : Unit} (low : 1 ≤ ci.colnum)
    (high : ci.colnum ≤ (w.current f).cols.length + 1) (run : insert api f ci w = .ok u w') :
    ∃ h cells, w' = w.putUnit f (w.files f).chdu h ∧ Inserted api (w.current f) h ∧
      h.type = (w.current f).type ∧ h.cols = (w.current f).cols.take (ci.colnum - 1) ++
        ⟨inserted ci, cells⟩ :: (w.current f).cols.drop (ci.colnum - 1) := by
  obtain ⟨mode, _, asks, run⟩ := bind_ok.mp run
  cases asks
  obtain ⟨_, run⟩ := check_ok.mp run
  obtain ⟨_, w₁, edits, run⟩ := bind_ok.mp run
  obtain ⟨h, made, rfl⟩ := editChdu_ok.mp edits
  rw [tform_eq] at made
  obtain ⟨cells, cols, type⟩ := doc.insert_col (count_pos ci.extent) low high made
  have length : ((w.current f).cols.take (ci.colnum - 1)).length = ci.colnum - 1 := by
    rw [List.length_take]
    omega
  split at run
  · rename_i deep
    obtain ⟨h', written, rfl⟩ := editChdu_ok.mp run
    have current : (w.putUnit f (w.files f).chdu h).current f = h := by simp [World.current]
    rw [current] at written
    have entry : h.cols[ci.colnum - 1]? =
        some ⟨.created ci.ttype (count ci.extent) ci.columnType, cells⟩ := by
      rw [cols, List.getElem?_append_right length.le, length, Nat.sub_self]
      rfl
    obtain ⟨cols', type'⟩ := doc.write_tdim (HduData.column_iff.mpr ⟨low, entry⟩) written
    refine ⟨h', cells, by simp [World.putUnit, World.setFile],
      ⟨_, _, _, h, made, Or.inr ⟨_, written⟩⟩, type'.trans type, ?_⟩
    rw [cols', cols, List.set_append_right _ _ length.le, length, Nat.sub_self, List.set_cons_zero]
    unfold inserted
    rw [if_pos deep]
  · rename_i flat
    obtain ⟨_, rfl⟩ := pure_ok.mp run
    refine ⟨h, cells, rfl, ⟨_, _, _, h, made, Or.inl rfl⟩, type, cols.trans ?_⟩
    unfold inserted
    rw [if_neg flat]
    rfl

end ColumnInfo

namespace Table
open HDU

variable {api : Cfitsio} {t : Nat} {w w' : World}

def added (w : World) (t colnum : Nat) : Nat :=
  if colnum = 0 then (w.unitOf (.table t)).cols.length + 1 else colnum

theorem place_ok (doc : Documented api) {colnum k : Nat}
    (run : place api t colnum (w.onto (.table t)) = .ok k w') :
    k = added w t colnum ∧ w' = w.onto (.table t) := by
  unfold place at run
  unfold added
  split at run
  · rename_i zero
    obtain ⟨n, _, counts, run⟩ := bind_ok.mp run
    obtain ⟨rfl, rfl⟩ := numColumns_ok doc counts
    obtain ⟨rfl, rfl⟩ := pure_ok.mp run
    rw [if_pos zero, World.unitOf_onto, World.onto_onto]
    exact ⟨rfl, rfl⟩
  · rename_i nonzero
    obtain ⟨rfl, rfl⟩ := pure_ok.mp run
    rw [if_neg nonzero]
    exact ⟨rfl, rfl⟩

variable {colnum : Nat}

theorem added_le (range : colnum ≤ (w.unitOf (.table t)).cols.length + 1) :
    added w t colnum ≤ (w.unitOf (.table t)).cols.length + 1 := by
  unfold added
  split <;> omega

theorem added_pos : 1 ≤ added w t colnum := by
  unfold added
  split <;> omega

theorem insert_put (doc : Documented api) {ci : ColumnInfo} {u : Unit} (low : 1 ≤ ci.colnum)
    (high : ci.colnum ≤ (w.unitOf (.table t)).cols.length + 1)
    (run : onFile (.table t) (ColumnInfo.insert api · ci) (w.onto (.table t)) = .ok u w') :
    ∃ h cells, w' = w.put (.table t) h ∧
      ColumnInfo.Inserted api (w.unitOf (.table t)) h ∧ h.cols =
      (w.unitOf (.table t)).cols.take (ci.colnum - 1) ++
        ⟨ColumnInfo.inserted ci, cells⟩ :: (w.unitOf (.table t)).cols.drop (ci.colnum - 1) := by
  unfold onFile at run
  rw [World.base_onto] at run
  obtain ⟨h, cells, state, calls, _, cols⟩ := ColumnInfo.insert_cols doc low
    (by rw [World.current_onto]; exact high) run
  rw [World.current_onto] at calls cols
  refine ⟨h, cells, ?_, calls, cols⟩
  rw [state]
  simp [World.put, World.onto]

theorem add_run (doc : Documented api) {ci : ColumnInfo} {u : Unit}
    (range : ci.colnum ≤ (w.unitOf (.table t)).cols.length + 1)
    (run : add api t ci w = .ok u w') :
    ∃ h cells, refresh api t (w.put (.table t) h) = .ok () w' ∧
      ColumnInfo.Inserted api (w.unitOf (.table t)) h ∧ h.cols =
      (w.unitOf (.table t)).cols.take (added w t ci.colnum - 1) ++
        ⟨ColumnInfo.inserted ci, cells⟩ ::
          (w.unitOf (.table t)).cols.drop (added w t ci.colnum - 1) := by
  replace run := setAsChdu_bind_ok doc run
  obtain ⟨k, _, places, run⟩ := bind_ok.mp run
  obtain ⟨rfl, rfl⟩ := place_ok doc places
  obtain ⟨_, _, inserts, refreshes⟩ := bind_ok.mp run
  obtain ⟨h, cells, rfl, calls, cols⟩ := insert_put doc added_pos (added_le range) inserts
  exact ⟨h, cells, refreshes, calls, cols⟩

theorem addNew_run (doc : Documented api) {ttype tunit : String} {type : ID} {extent : Extent}
    {u : Unit} (range : colnum ≤ (w.unitOf (.table t)).cols.length + 1)
    (run : addNew api t ttype type tunit extent colnum w = .ok u w') :
    ∃ ci h cells, ColumnInfo.make api ttype type tunit extent (added w t colnum) = .ok ci ∧
      refresh api t (w.put (.table t) h) = .ok () w' ∧
      ColumnInfo.Inserted api (w.unitOf (.table t)) h ∧ h.cols =
        (w.unitOf (.table t)).cols.take (added w t colnum - 1) ++
          ⟨ColumnInfo.inserted ci, cells⟩ ::
            (w.unitOf (.table t)).cols.drop (added w t colnum - 1) := by
  replace run := setAsChdu_bind_ok doc run
  obtain ⟨k, _, places, run⟩ := bind_ok.mp run
  obtain ⟨rfl, rfl⟩ := place_ok doc places
  obtain ⟨ci, made, run⟩ := ofExcept_bind_ok.mp run
  obtain ⟨_, _, _, _, number⟩ := ColumnInfo.make_ok made
  obtain ⟨_, _, inserts, refreshes⟩ := bind_ok.mp run
  obtain ⟨h, cells, rfl, calls, cols⟩ := insert_put doc (by rw [number]; exact added_pos)
    (by rw [number]; exact added_le range) inserts
  rw [number] at cols
  exact ⟨ci, h, cells, made, refreshes, calls, cols⟩

theorem refreshed_entry (doc : Documented api) {h : HduData} {u : Unit}
    (refreshes : refresh api t (w.put (.table t) h) = .ok u w') {c : ColHead} {i : Nat}
    (head : h.heads[i]? = some c) : (w'.unitOf (.table t)).heads = h.heads ∧
      ∃ info k offset, (w'.tables t).columns[i]? = some info ∧
        ColumnInfo.decode c k offset = .ok info := by
  obtain ⟨infos, _, _, built, rfl⟩ := refresh_ok doc refreshes
  rw [World.unitOf_put] at built
  have inside : i < infos.length := by
    rw [ColumnInfo.decodeAll_length built]
    exact (List.getElem?_eq_some_iff.mp head).1
  obtain ⟨c', member, described⟩ :=
    ColumnInfo.decodeAll_get built (List.getElem?_eq_getElem inside)
  cases head.symm.trans member
  refine ⟨by simp, _, _, _, ?_, described⟩
  rw [World.columns_setColumns]
  exact List.getElem?_eq_getElem inside

theorem added_described (doc : Documented api) {ci : ColumnInfo} {h : HduData}
    {cells : Int → List Byte} {colnum : Nat} {u : Unit}
    (range : colnum ≤ (w.unitOf (.table t)).cols.length + 1)
    (refreshes : refresh api t (w.put (.table t) h) = .ok u w')
    (cols : h.cols = (w.unitOf (.table t)).cols.take (added w t colnum - 1) ++
      ⟨ColumnInfo.inserted ci, cells⟩ :: (w.unitOf (.table t)).cols.drop (added w t colnum - 1)) :
    (w'.unitOf (.table t)).heads[added w t colnum - 1]? = some (ColumnInfo.inserted ci) ∧
      ∃ info k offset, (w'.tables t).columns[added w t colnum - 1]? = some info ∧
        ColumnInfo.decode (ColumnInfo.inserted ci) k offset = .ok info := by
  have low : 1 ≤ added w t colnum := added_pos
  have high := added_le range
  have length : ((w.unitOf (.table t)).cols.take (added w t colnum - 1)).length =
      added w t colnum - 1 := by
    rw [List.length_take]
    omega
  have entry : h.heads[added w t colnum - 1]? = some (ColumnInfo.inserted ci) := by
    rw [HduData.heads, List.getElem?_map, cols, List.getElem?_append_right length.le, length,
      Nat.sub_self]
    rfl
  obtain ⟨heads, reads⟩ := refreshed_entry doc refreshes entry
  exact ⟨by rw [heads]; exact entry, reads⟩

def Describes (ci : ColumnInfo) (ttype : String) (type : ID) (tunit : String) (extent : Extent) :
    Prop :=
  ci.columnType.id = type ∧ Extent.equal ci.extent extent = true ∧ ci.ttype = ttype ∧
    ci.tunit = tunit

theorem addNew_reads (doc : Documented api) {ttype tunit : String} {type : ID} {extent : Extent}
    {colnum : Nat} {u : Unit} (range : colnum ≤ (w.unitOf (.table t)).cols.length + 1)
    (dims : ∀ d ∈ extent, 0 < d) (small : extent.prod < 2 ^ 31)
    (run : addNew api t ttype type tunit extent colnum w = .ok u w') :
    ∃ s ci, specFromId type = .ok s ∧ (w'.tables t).columns[added w t colnum - 1]? = some ci ∧
      Describes ci ttype s.stored "" extent := by
  obtain ⟨ci, h, cells, made, refreshes, _, cols⟩ := addNew_run doc range run
  obtain ⟨spec, asName, _, asExtent, _⟩ := ColumnInfo.make_ok made
  rw [← asExtent] at dims small ⊢
  rw [← asName]
  obtain ⟨_, info, _, _, entry, described⟩ := added_described doc range refreshes cols
  obtain ⟨name, unit', id, shape, _⟩ := ColumnInfo.decode_ok described
  obtain ⟨e, shape', same⟩ := ColumnInfo.shape_inserted dims small
  rw [shape', Except.ok.injEq] at shape
  exact ⟨ci.columnType, info, spec, entry, id, shape ▸ same, name, unit'⟩

/-- A column comes back as it was added exactly when it is of no unsigned type and
has no unit. -/
theorem addNew_round_trip_iff (doc : Documented api) {ttype tunit : String} {type : ID}
    {extent : Extent} {colnum : Nat} {u : Unit}
    (range : colnum ≤ (w.unitOf (.table t)).cols.length + 1)
    (dims : ∀ d ∈ extent, 0 < d) (small : extent.prod < 2 ^ 31)
    (run : addNew api t ttype type tunit extent colnum w = .ok u w') :
    (∃ ci, (w'.tables t).columns[added w t colnum - 1]? = some ci ∧
      Describes ci ttype type tunit extent) ↔ type ≠ .ushort ∧ type ≠ .ulong ∧ tunit = "" := by
  obtain ⟨s, back, spec, entry, id, shape, name, unit⟩ := addNew_reads doc range dims small run
  have type' := id_of_specFromId spec
  rw [entry]
  constructor
  · rintro ⟨ci, same, id', _, _, unit'⟩
    cases same
    have signed := (ColumnInfo.stored_eq_id s).mp (id.symm.trans (id'.trans type'.symm))
    rw [type'] at signed
    exact ⟨signed.1, signed.2, unit'.symm.trans unit⟩
  · rintro ⟨short, long, rfl⟩
    rw [← type'] at short long
    exact ⟨back, rfl, id.trans (((ColumnInfo.stored_eq_id s).mpr ⟨short, long⟩).trans type'), shape, name, unit⟩

def empty : World :=
  Reference.world (Reference.table [] 0) Reference.primary Reference.primary

theorem addNew_matrix : ∃ w, addNew Reference.api 0 "A" .float "" [2, 3] 0 empty = .ok () w ∧
    ∃ ci, (w.tables 0).columns[0]? = some ci ∧ Describes ci "A" .float "" [2, 3] := by
  obtain ⟨w, run⟩ : ∃ w, addNew Reference.api 0 "A" .float "" [2, 3] 0 empty = .ok () w := ⟨_, rfl⟩
  exact ⟨w, run, (addNew_round_trip_iff Reference.documented (by decide) (by decide) (by decide)
    run).mpr (by decide)⟩

/-- An unsigned type comes back signed, and a unit does not come back. -/
theorem addNew_loses :
    (∃ w, addNew Reference.api 0 "A" .ushort "" [1] 0 empty = .ok () w ∧
      ¬∃ ci, (w.tables 0).columns[0]? = some ci ∧ Describes ci "A" .ushort "" [1]) ∧
    ∃ w, addNew Reference.api 0 "A" .long "m" [1] 0 empty = .ok () w ∧
      ¬∃ ci, (w.tables 0).columns[0]? = some ci ∧ Describes ci "A" .long "m" [1] := by
  obtain ⟨w₁, run₁⟩ : ∃ w, addNew Reference.api 0 "A" .ushort "" [1] 0 empty = .ok () w :=
    ⟨_, rfl⟩
  obtain ⟨w₂, run₂⟩ : ∃ w, addNew Reference.api 0 "A" .long "m" [1] 0 empty = .ok () w :=
    ⟨_, rfl⟩
  refine ⟨⟨w₁, run₁, ?_⟩, w₂, run₂, ?_⟩
  · rintro ⟨ci, here, id, _⟩
    obtain ⟨s, back, spec, entry, stored, _⟩ :=
      addNew_reads Reference.documented (by decide) (by decide) (by decide) run₁
    cases spec
    cases here.symm.trans entry
    exact absurd (stored.symm.trans id) (by decide)
  · rintro ⟨ci, here, _, _, _, unit⟩
    obtain ⟨_, back, _, entry, _, _, _, absent⟩ :=
      addNew_reads Reference.documented (by decide) (by decide) (by decide) run₂
    cases here.symm.trans entry
    exact absurd (absent.symm.trans unit) (by decide)

end Table
end MisFITS
