import MisFITS.Counts
import MisFITS.ExtentText

/-! Columns that are resized, against columns that are added with the new extent.
`insert` writes TDIM by CFITSIO's own call, and `resize` as a keyword. -/
namespace MisFITS
open ColumnType Program HDU

def tdimKey (k : Nat) : String := "TDIM" ++ toString k

/-- The documented behaviour of the calls that a resize makes: the TDIM keyword of a
column is what the header says of its axes, in the text of a card. -/
structure TdimKeys (api : Cfitsio) : Prop where
  flen_value : api.flenValue = 71
  read_card : ∀ {h k c}, 1 ≤ k → h.heads[k - 1]? = some c →
    (api.readCard (tdimKey k) h = none ↔ c.tdim.isSome)
  modify_vector_len : ∀ {h h' k n c}, 1 ≤ k → h.heads[k - 1]? = some c → c.typecode ≠ .string →
    api.modifyVectorLen k n h = .ok () h' →
    h'.heads = h.heads.set (k - 1) { c with reps := n.toNat }
  write_tdim : ∀ {h h' k axes}, api.writeTdim k axes h = .ok () h' →
    ∃ text, Extent.toText axes = .ok text ∧ text.length ≤ 68
  delete_key : ∀ {h h' k c}, 1 ≤ k → h.heads[k - 1]? = some c →
    api.deleteKey (tdimKey k) h = .ok () h' → h'.heads = h.heads.set (k - 1) { c with tdim := none }
  write_key_longwarn : ∀ {h h'}, api.writeKeyLongwarn h = .ok () h' → h'.heads = h.heads
  update_key_str : ∀ {h h' k c value comment}, 1 ≤ k → h.heads[k - 1]? = some c →
    api.updateKeyStr (tdimKey k) value comment h = .ok () h' →
    ∃ axes, h'.heads = h.heads.set (k - 1) { c with tdim := some axes } ∧
      ∀ e, Extent.toText e = .ok value → value.length ≤ 68 → axes = e
  update_key_longstr : ∀ {h h' k c value comment}, 1 ≤ k → h.heads[k - 1]? = some c →
    api.updateKeyLongstr (tdimKey k) value comment h = .ok () h' →
    ∃ axes, h'.heads = h.heads.set (k - 1) { c with tdim := some axes }

/-! ## The small implementation, with TDIM keywords -/

namespace Reference

def tdimNumber (keyname : String) : Option Nat :=
  match keyname.toList with
  | 'T' :: 'D' :: 'I' :: 'M' :: digits => Extent.ofDigits digits
  | _ => none

theorem tdimNumber_tdimKey (k : Nat) : tdimNumber (tdimKey k) = some k := by
  unfold tdimNumber tdimKey
  rw [String.toList_append, Nat.toString_eq_repr, Nat.toList_repr]
  exact Extent.ofDigits_toDigits k

def tdimApi : Cfitsio :=
  { api with
    writeTdim := fun k axes h =>
      match Extent.toText axes with
      | .ok text => if text.length ≤ 68 then api.writeTdim k axes h else .error (.other 263) h
      | .error _ => .error (.other 263) h
    readCard := fun keyname h =>
      match (tdimNumber keyname).bind h.column with
      | some c => if c.tdim.isSome then none else some .keyNoExist
      | none => api.readCard keyname h
    deleteKey := fun keyname h =>
      match tdimNumber keyname with
      | some k => onColumn k Col.withoutTdim h
      | none => api.deleteKey keyname h
    updateKeyStr := fun keyname value comment h =>
      match tdimNumber keyname with
      | some k =>
        match Extent.ofText value with
        | some axes => api.writeTdim k axes h
        | none => .error (.other 263) h
      | none => api.updateKeyStr keyname value comment h
    updateKeyLongstr := fun keyname value comment h =>
      match tdimNumber keyname with
      | some _ => .error (.other 263) h
      | none => api.updateKeyLongstr keyname value comment h }

theorem column_of_head {h : HduData} {k : Nat} {c : ColHead} (low : 1 ≤ k)
    (head : h.heads[k - 1]? = some c) : ∃ col, h.column k = some col ∧ col.toColHead = c := by
  rw [HduData.heads, List.getElem?_map, Option.map_eq_some_iff] at head
  obtain ⟨col, entry, same⟩ := head
  exact ⟨col, HduData.column_iff.mpr ⟨low, entry⟩, same⟩

theorem onColumn_heads {h h' : HduData} {k : Nat} {c : ColHead} {g : Col → Col} {u : Unit}
    (low : 1 ≤ k) (head : h.heads[k - 1]? = some c) (run : onColumn k g h = .ok u h') :
    ∃ col, col.toColHead = c ∧ h'.heads = h.heads.set (k - 1) (g col).toColHead := by
  obtain ⟨col, column, rfl⟩ := onColumn_ok run
  obtain ⟨col', column', same⟩ := column_of_head low head
  cases column.symm.trans column'
  exact ⟨col, same, List.map_set⟩

theorem documented_tdim : Documented tdimApi :=
  { documented with
    write_tdim := by
      intro h h' k c axes column run
      simp only [tdimApi] at run
      split at run
      · split at run
        · exact documented.write_tdim column run
        · cases run
      · cases run }

theorem tdimKeys : TdimKeys tdimApi where
  flen_value := rfl
  read_card {h k c} low head := by
    obtain ⟨col, column, rfl⟩ := column_of_head low head
    simp [tdimApi, tdimNumber_tdimKey, column, Option.isSome_iff_ne_none]
  modify_vector_len low head _ run := by
    obtain ⟨col, rfl, heads⟩ := onColumn_heads low head run
    exact heads
  write_tdim {h h' k axes} run := by
    simp only [tdimApi] at run
    split at run
    · split at run
      · exact ⟨_, ‹_›, ‹_›⟩
      · cases run
    · cases run
  delete_key {h h' k c} low head run := by
    simp only [tdimApi, tdimNumber_tdimKey] at run
    obtain ⟨col, rfl, heads⟩ := onColumn_heads low head run
    exact heads
  write_key_longwarn run := by
    cases run
    rfl
  update_key_str {h h' k c value comment} low head run := by
    simp only [tdimApi, tdimNumber_tdimKey] at run
    split at run
    · rename_i axes text
      obtain ⟨col, rfl, heads⟩ := onColumn_heads low head run
      refine ⟨axes, heads, fun e written _ => ?_⟩
      exact Option.some.inj (text.symm.trans (Extent.ofText_of_run written))
    · cases run
  update_key_longstr {h h' k c value comment} low head run := by
    simp only [tdimApi, tdimNumber_tdimKey] at run
    cases run

end Reference

namespace Table

variable {api : Cfitsio} {t k : Nat} {w w' : World} {h h' : HduData} {c : ColHead} {e : Extent}

/-- What a resize makes of TDIM: nothing when there is one dimension, else the text of
the extent, as far as it fits into a card. -/
def Retdim (e : Extent) (tdim : Option (List Int)) : Prop :=
  if e.squeeze.naxes = 1 then tdim = none
  else ∃ axes text, tdim = some axes ∧ Extent.toText e = .ok text ∧ (text.length ≤ 68 → axes = e)

theorem setTdim_ok (doc : Documented api) (keys : TdimKeys api) (low : 1 ≤ k)
    (head : h.heads[k - 1]? = some c) {text comment : String} {u : Unit}
    (run : setKeywordString api (.table t) { keyname := tdimKey k, value := text, comment }
      (w.put (.table t) h) = .ok u w') :
    ∃ h' axes, w' = w.put (.table t) h' ∧
      h'.heads = h.heads.set (k - 1) { c with tdim := some axes } ∧
      ∀ e, Extent.toText e = .ok text → text.length ≤ 68 → axes = e := by
  replace run := setAsChdu_bind_ok doc run
  obtain ⟨h', edit, rfl⟩ := editFile_ok run
  rw [World.unitOf_put] at edit
  have state : (w.put (.table t) h).put (.table t) h' = w.put (.table t) h' := World.put_put
  rw [keys.flen_value] at edit
  split at edit
  · rename_i long
    obtain ⟨_, h₁, warns, edit⟩ := bind_ok.mp edit
    have same := keys.write_key_longwarn warns
    obtain ⟨axes, heads⟩ := keys.update_key_longstr low (same ▸ head) edit
    refine ⟨h', axes, state, same ▸ heads, fun e _ fits => ?_⟩
    change 71 < text.length at long
    omega
  · obtain ⟨axes, heads, fits⟩ := keys.update_key_str low head edit
    exact ⟨h', axes, state, heads, fits⟩

theorem hasKeyword_ok {o : Obj} {keyname : String} {b : Bool}
    (run : hasKeyword api o keyname w = .ok b w') :
    w' = w ∧ (b = false → api.readCard keyname (w.current (w.base o).file) ≠ none) := by
  obtain ⟨status, _, asks, run⟩ := bind_ok.mp run
  obtain ⟨answer, still⟩ := inspectChdu_ok.mp asks
  rw [still] at run
  rw [← answer]
  split at run
  · obtain ⟨rfl, rfl⟩ := pure_ok.mp run
    exact ⟨rfl, fun no => by cases no⟩
  · obtain ⟨rfl, rfl⟩ := pure_ok.mp run
    exact ⟨rfl, fun no => by cases no⟩
  · obtain ⟨rfl, rfl⟩ := pure_ok.mp run
    exact ⟨rfl, fun _ => by simp⟩
  · exact (throw_ok.mp run).elim

theorem current_put : (w.put (.table t) h).current ((w.put (.table t) h).base (.table t)).file = h := by
  have here : (w.put (.table t) h).Current (.table t) := by simp [World.Current, World.put, World.onto]
  rw [World.current_eq here, World.unitOf_put]

theorem deleteTdim_ok (doc : Documented api) (keys : TdimKeys api) (low : 1 ≤ k)
    (head : h.heads[k - 1]? = some c) {u : Unit}
    (run : deleteKeyword api (.table t) (tdimKey k) (w.put (.table t) h) = .ok u w') :
    ∃ h', w' = w.put (.table t) h' ∧ h'.heads = h.heads.set (k - 1) { c with tdim := none } := by
  replace run := setAsChdu_bind_ok doc run
  obtain ⟨h', edit, rfl⟩ := editFile_ok run
  rw [World.unitOf_put] at edit
  exact ⟨h', World.put_put, keys.delete_key low head edit⟩

theorem heads_kept (head : h.heads[k - 1]? = some c) : h.heads = h.heads.set (k - 1) c := by
  obtain ⟨inside, rfl⟩ := List.getElem?_eq_some_iff.mp head
  rw [List.set_getElem_self]

theorem rewriteTdim_ok (doc : Documented api) (keys : TdimKeys api) (low : 1 ≤ k)
    (head : h.heads[k - 1]? = some c) {u : Unit}
    (run : rewriteTdim api t k e (w.put (.table t) h) = .ok u w') :
    ∃ h' tdim, w' = w.put (.table t) h' ∧ h'.heads = h.heads.set (k - 1) { c with tdim } ∧
      Retdim e tdim := by
  unfold rewriteTdim Retdim at *
  by_cases one : e.squeeze.naxes = 1
  · simp only [one, if_true] at run ⊢
    obtain ⟨b, _, asks, run⟩ := bind_ok.mp run
    obtain ⟨rfl, missing⟩ := hasKeyword_ok asks
    rw [current_put] at missing
    cases b with
    | true =>
      obtain ⟨h', state, heads⟩ := deleteTdim_ok doc keys low head run
      exact ⟨h', none, state, heads, rfl⟩
    | false =>
      obtain ⟨_, rfl⟩ := pure_ok.mp run
      have absent : c.tdim = none := by
        have no := mt (keys.read_card low head).mpr (missing rfl)
        simpa using no
      refine ⟨h, none, rfl, ?_, rfl⟩
      rw [← absent]
      exact heads_kept head
  · simp only [one, if_false] at run ⊢
    obtain ⟨text, written, run⟩ := ofExcept_bind_ok.mp run
    obtain ⟨b, _, asks, run⟩ := bind_ok.mp run
    obtain ⟨rfl, _⟩ := hasKeyword_ok asks
    obtain ⟨comment, sets⟩ : ∃ comment, setKeywordString api (.table t)
        { keyname := tdimKey k, value := text, comment } (w.put (.table t) h) = .ok u w' := by
      cases b with
      | true =>
        obtain ⟨kw, v, gets, run⟩ := bind_ok.mp run
        have state := getKeywordString_ok doc gets
        rw [World.onto_put] at state
        rw [state] at run
        exact ⟨kw.comment, run⟩
      | false => exact ⟨"", run⟩
    obtain ⟨h', axes, state, heads, fits⟩ := setTdim_ok doc keys low head sets
    exact ⟨h', some axes, state, heads, axes, text, rfl, written, fits e written⟩

/-- A resize leaves a column of the same extent alone, and else gives it the new
count and another TDIM. -/
theorem resize_run (doc : Documented api) (keys : TdimKeys api) (low : 1 ≤ k)
    (head : (w.unitOf (.table t)).heads[k - 1]? = some c) (other : c.typecode ≠ .string) {u : Unit}
    (run : resize api t k e w = .ok u w') :
    ∃ info, (w.tables t).columns[k - 1]? = some info ∧
      (Extent.equal info.extent e = true ∧ w' = w.onto (.table t) ∨
        Extent.equal info.extent e = false ∧ ∃ h tdim,
          refresh api t (w.put (.table t) h) = .ok () w' ∧
          h.heads = (w.unitOf (.table t)).heads.set (k - 1) { c with reps := e.nelem.toNat, tdim } ∧
          Retdim e tdim) := by
  replace run := setAsChdu_bind_ok doc run
  obtain ⟨info, _, looks, run⟩ := bind_ok.mp run
  obtain ⟨_, entry, rfl⟩ := colinfo_ok.mp looks
  refine ⟨info, entry, ?_⟩
  cases same : Extent.equal info.extent e with
  | true =>
    rw [same, if_pos rfl] at run
    exact Or.inl ⟨rfl, (pure_ok.mp run).2.symm⟩
  | false =>
    rw [same, if_neg Bool.false_ne_true] at run
    obtain ⟨_, _, edits, run⟩ := bind_ok.mp run
    obtain ⟨h₁, edit, rfl⟩ := editFile_ok edits
    have heads₁ := keys.modify_vector_len low head other edit
    obtain ⟨inside, _⟩ := List.getElem?_eq_some_iff.mp head
    have head₁ : h₁.heads[k - 1]? = some { c with reps := e.nelem.toNat } := by
      rw [heads₁, List.getElem?_set_self inside]
    obtain ⟨_, _, rewrites, run⟩ := bind_ok.mp run
    obtain ⟨h, tdim, rfl, heads, retdim⟩ := rewriteTdim_ok doc keys low head₁ rewrites
    refine Or.inr ⟨rfl, h, tdim, run, ?_, retdim⟩
    rw [heads, heads₁, List.set_set]

def HasTdim (api : Cfitsio) (t k : Nat) (w : World) : Prop :=
  api.readCard (tdimKey k) (w.unitOf (.table t)) = none

/-- A column that came to an extent in two ways is the same one, and has a TDIM
keyword when the extent has more than one dimension greater than one. Extents are the same
by `Extent::operator==`, which squeezes them: the decoded axes may differ by unit ones. -/
structure Agree (api : Cfitsio) (t k : Nat) (e : Extent) (w w' : World) : Prop where
  infos : ∃ a b, (w.tables t).columns[k - 1]? = some a ∧ (w'.tables t).columns[k - 1]? = some b ∧
    Extent.equal a.extent b.extent = true ∧ a.nbytes = b.nbytes
  tdim : HasTdim api t k w ↔ HasTdim api t k w'
  deep : HasTdim api t k w ↔ 1 < e.squeeze.naxes

theorem extent_of_axes {i : Nat} {offset : Int} {info : ColumnInfo} (other : c.typecode ≠ .string)
    (described : ColumnInfo.decode c i offset = .ok info) : info.extent = c.axes := by
  obtain ⟨_, _, _, shape, _⟩ := ColumnInfo.decode_ok described
  unfold ColumnInfo.shape at shape
  rw [if_neg (fun both => other both.1)] at shape
  exact (Except.ok.inj shape).symm

theorem infos_agree {c' : ColHead} {i i' : Nat} {offset offset' : Int} {a b : ColumnInfo}
    (other : c.typecode ≠ .string) (type : c'.typecode = c.typecode)
    (axes : Extent.equal c.axes c'.axes = true) (positive : 0 < Extent.nelem c.axes)
    (first : ColumnInfo.decode c i offset = .ok a) (second : ColumnInfo.decode c' i' offset' = .ok b) :
    Extent.equal a.extent b.extent = true ∧ a.nbytes = b.nbytes := by
  have first' := extent_of_axes other first
  have second' := extent_of_axes (type ▸ other) second
  have count : Extent.nelem c'.axes = Extent.nelem c.axes := (Extent.nelem_equal axes).symm
  have types : b.columnType = a.columnType :=
    Spec.id_inj.mp ((ColumnInfo.decode_ok second).2.2.1.trans
      (type.trans (ColumnInfo.decode_ok first).2.2.1.symm))
  refine ⟨by rw [first', second']; exact axes, ?_⟩
  rw [ColumnInfo.decode_bytes (first' ▸ positive) first,
    ColumnInfo.decode_bytes (by rw [second', count]; exact positive) second, types, first', second',
    count]

theorem insert_tdim {f : Nat} {ci : ColumnInfo} {u : Unit} (keys : TdimKeys api)
    (deep : 1 < ci.extent.squeeze.naxes) (run : ColumnInfo.insert api f ci w = .ok u w') :
    ∃ text, Extent.toText ci.extent = .ok text ∧ text.length ≤ 68 := by
  obtain ⟨_, _, _, run⟩ := bind_ok.mp run
  obtain ⟨_, run⟩ := check_ok.mp run
  obtain ⟨_, _, _, run⟩ := bind_ok.mp run
  rw [if_pos deep] at run
  obtain ⟨_, written, _⟩ := editChdu_ok.mp run
  exact keys.write_tdim written

theorem addNew_tdim {ttype tunit : String} {type : ID} {colnum : Nat} {u : Unit}
    (keys : TdimKeys api) (deep : 1 < e.squeeze.naxes)
    (run : addNew api t ttype type tunit e colnum w = .ok u w') :
    ∃ text, Extent.toText e = .ok text ∧ text.length ≤ 68 := by
  obtain ⟨_, _, _, run⟩ := bind_ok.mp run
  obtain ⟨_, _, _, run⟩ := bind_ok.mp run
  obtain ⟨ci, _, makes, run⟩ := bind_ok.mp run
  obtain ⟨_, _, _, same, _⟩ := ColumnInfo.make_ok (ofExcept_ok.mp makes).1
  obtain ⟨_, _, inserts, _⟩ := bind_ok.mp run
  rw [← same] at deep ⊢
  exact insert_tdim keys deep inserts

theorem added_head (doc : Documented api) {ttype tunit : String} {type : ID} {colnum : Nat} {u : Unit}
    (range : colnum ≤ (w.unitOf (.table t)).cols.length + 1)
    (run : addNew api t ttype type tunit e colnum w = .ok u w') :
    ∃ ci info i offset, specFromId type = .ok ci.columnType ∧ ci.extent = e ∧
      (w'.unitOf (.table t)).heads[added w t colnum - 1]? = some (ColumnInfo.inserted ci) ∧
      (w'.tables t).columns[added w t colnum - 1]? = some info ∧
      ColumnInfo.decode (ColumnInfo.inserted ci) i offset = .ok info := by
  obtain ⟨ci, h, cells, made, refreshes, _, cols⟩ := addNew_run doc range run
  obtain ⟨spec, _, _, extent, _⟩ := ColumnInfo.make_ok made
  obtain ⟨head, info, i, offset, entry, described⟩ := added_described doc range refreshes cols
  exact ⟨ci, info, i, offset, spec, extent, head, entry, described⟩

theorem inserted_tdim (ci : ColumnInfo) :
    (ColumnInfo.inserted ci).tdim.isSome ↔ 1 < ci.extent.squeeze.naxes := by
  unfold ColumnInfo.inserted
  dsimp only
  split
  · rename_i deep
    exact iff_of_true rfl deep
  · rename_i flat
    exact iff_of_false (by simp) flat

theorem inserted_axes_equal {ci : ColumnInfo} (other : ci.columnType.stored ≠ .string)
    (sizes : ci.extent.Sizes) : Extent.equal (ColumnInfo.inserted ci).axes ci.extent = true := by
  obtain ⟨e, shape, same⟩ := ColumnInfo.shape_inserted sizes.dims sizes.small
  unfold ColumnInfo.shape at shape
  rw [if_neg (fun both => other both.1)] at shape
  rw [Except.ok.inj shape]
  exact same

theorem nelem_pos (sizes : e.Sizes) : 0 < e.nelem := by
  rw [sizes.nelem]
  exact Extent.prod_pos sizes.dims

/-- The axes of a resized column are those of an added one, but for a scalar. -/
theorem resized_axes {ci ci' : ColumnInfo} {tdim : Option (List Int)} (sizes : ci'.extent.Sizes)
    (positive : 1 ≤ ci'.extent.squeeze.naxes) (retdim : Retdim ci'.extent tdim)
    (card : 1 < ci'.extent.squeeze.naxes →
      ∃ text, Extent.toText ci'.extent = .ok text ∧ text.length ≤ 68) :
    { ColumnInfo.inserted ci with reps := ci'.extent.nelem.toNat, tdim }.axes =
      (ColumnInfo.inserted ci').axes ∧ (tdim.isSome ↔ 1 < ci'.extent.squeeze.naxes) := by
  have count : ColumnInfo.count ci'.extent = ci'.extent.nelem.toNat := by
    have whole := sizes.count
    have same := sizes.nelem
    omega
  unfold Retdim at retdim
  rw [ColumnInfo.inserted_axes]
  by_cases one : ci'.extent.squeeze.naxes = 1
  · rw [if_pos one] at retdim
    rw [if_neg (by omega), count, retdim]
    exact ⟨rfl, iff_of_false (by simp) (by omega)⟩
  · rw [if_neg one] at retdim
    obtain ⟨axes, text, rfl, written, fits⟩ := retdim
    obtain ⟨text', written', short⟩ := card (by omega)
    cases written.symm.trans written'
    rw [if_pos (by omega), fits short]
    exact ⟨rfl, iff_of_true rfl (by omega)⟩

/-- A column that is resized is the one that is added with the new extent exactly
when that has a dimension greater than one, or is the extent it had. -/
theorem resized_iff (doc : Documented api) (keys : TdimKeys api) {ttype tunit : String} {type : ID}
    {colnum : Nat} {e₁ e₂ : Extent} {w₁ w₂ w₃ : World} {u₁ u₂ u₃ : Unit}
    (range : colnum ≤ (w.unitOf (.table t)).cols.length + 1) (other : type ≠ .string)
    (sizes₁ : e₁.Sizes) (sizes₂ : e₂.Sizes)
    (first : addNew api t ttype type tunit e₁ colnum w = .ok u₁ w₁)
    (resized : resize api t (added w t colnum) e₂ w₁ = .ok u₂ w₂)
    (direct : addNew api t ttype type tunit e₂ colnum w = .ok u₃ w₃) :
    Agree api t (added w t colnum) e₂ w₂ w₃ ↔
      1 ≤ e₂.squeeze.naxes ∨ Extent.equal e₁ e₂ = true := by
  have low : 1 ≤ added w t colnum := added_pos
  obtain ⟨ci₁, info₁, _, _, spec₁, rfl, head₁, entry₁, described₁⟩ := added_head doc range first
  obtain ⟨ci₂, info₃, _, _, spec₂, rfl, head₃, entry₃, described₃⟩ := added_head doc range direct
  have types : ci₂.columnType = ci₁.columnType := Except.ok.inj (spec₂.symm.trans spec₁)
  have text : ci₁.columnType.stored ≠ .string := by
    intro stored
    apply other
    rw [← id_of_specFromId spec₁]
    revert stored
    cases ci₁.columnType <;> simp [Spec.stored, Spec.id]
  have text₂ : ci₂.columnType.stored ≠ .string := types ▸ text
  have type' : (ColumnInfo.inserted ci₂).typecode = ci₁.columnType.stored :=
    congrArg Spec.stored types
  have axes₁ := inserted_axes_equal text sizes₁
  have axes₂ := inserted_axes_equal text₂ sizes₂
  have tdim₃ : HasTdim api t (added w t colnum) w₃ ↔ 1 < ci₂.extent.squeeze.naxes :=
    (keys.read_card low head₃).trans (inserted_tdim ci₂)
  obtain ⟨info, entry, done⟩ := resize_run doc keys low head₁ text resized
  cases entry₁.symm.trans entry
  have extent : Extent.equal info₁.extent ci₂.extent = Extent.equal ci₁.extent ci₂.extent := by
    rw [extent_of_axes text described₁]
    unfold Extent.equal
    rw [Extent.equal_iff.mp axes₁]
  rw [extent] at done
  rcases done with ⟨same, rfl⟩ | ⟨differs, h, tdim, refreshes, heads, retdim⟩
  · have squeezed := Extent.equal_iff.mp same
    have tdim₂ : HasTdim api t (added w t colnum) (w₁.onto (.table t)) ↔
        1 < ci₂.extent.squeeze.naxes := by
      unfold HasTdim
      rw [World.unitOf_onto, ← squeezed]
      exact (keys.read_card low head₁).trans (inserted_tdim ci₁)
    have both : Extent.equal (ColumnInfo.inserted ci₁).axes (ColumnInfo.inserted ci₂).axes = true := by
      rw [Extent.equal_iff, Extent.equal_iff.mp axes₁, squeezed, Extent.equal_iff.mp axes₂]
    have positive : 0 < Extent.nelem (ColumnInfo.inserted ci₁).axes := by
      rw [Extent.nelem_equal axes₁]
      exact nelem_pos sizes₁
    exact iff_of_true
      ⟨⟨info₁, info₃, entry₁, entry₃, infos_agree text type' both positive described₁ described₃⟩,
        tdim₂.trans tdim₃.symm, tdim₂⟩ (Or.inr same)
  · obtain ⟨inside, _⟩ := List.getElem?_eq_some_iff.mp head₁
    have head : h.heads[added w t colnum - 1]? =
        some { ColumnInfo.inserted ci₁ with reps := ci₂.extent.nelem.toNat, tdim } := by
      rw [heads, List.getElem?_set_self inside]
    obtain ⟨heads₂, info₂, _, _, entry₂, described₂⟩ := refreshed_entry doc refreshes head
    rw [← heads₂] at head
    have tdim₂ : HasTdim api t (added w t colnum) w₂ ↔ tdim.isSome := keys.read_card low head
    by_cases nonempty : 1 ≤ ci₂.extent.squeeze.naxes
    · obtain ⟨axes, present⟩ := resized_axes sizes₂ nonempty retdim
        (fun deep => addNew_tdim keys deep direct)
      have positive : 0 < Extent.nelem (ColumnInfo.inserted ci₂).axes := by
        rw [Extent.nelem_equal axes₂]
        exact nelem_pos sizes₂
      have both := infos_agree text type' (by rw [axes]; simp) (by rw [axes]; exact positive)
        described₂ described₃
      exact iff_of_true ⟨⟨info₂, info₃, entry₂, entry₃, both⟩,
        tdim₂.trans (present.trans tdim₃.symm), tdim₂.trans present⟩ (Or.inl nonempty)
    · unfold Retdim at retdim
      rw [if_neg (by omega)] at retdim
      obtain ⟨axes, _, rfl, _⟩ := retdim
      refine iff_of_false (fun agree => ?_) (by simp [nonempty, differs])
      have deep := agree.deep.mp (tdim₂.mpr rfl)
      omega

theorem resized_matrix : ∃ w₁ w₂ w₃,
    addNew Reference.tdimApi 0 "A" .long "" [1] 0 empty = .ok () w₁ ∧
    resize Reference.tdimApi 0 1 [3, 2] w₁ = .ok () w₂ ∧
    addNew Reference.tdimApi 0 "A" .long "" [3, 2] 0 empty = .ok () w₃ ∧
    Agree Reference.tdimApi 0 1 [3, 2] w₂ w₃ := by
  obtain ⟨w₁, first⟩ : ∃ w₁, addNew Reference.tdimApi 0 "A" .long "" [1] 0 empty = .ok () w₁ :=
    ⟨_, rfl⟩
  obtain ⟨w₂, resized⟩ : ∃ w₂, resize Reference.tdimApi 0 1 [3, 2] w₁ = .ok () w₂ := by
    cases first
    exact ⟨_, ok_of_returned (by decide +kernel)⟩
  obtain ⟨w₃, direct⟩ : ∃ w₃, addNew Reference.tdimApi 0 "A" .long "" [3, 2] 0 empty = .ok () w₃ :=
    ⟨_, ok_of_returned (by decide +kernel)⟩
  exact ⟨w₁, w₂, w₃, first, resized, direct,
    (resized_iff Reference.documented_tdim Reference.tdimKeys (by decide) (by decide)
      ⟨by decide, by decide⟩ ⟨by decide, by decide⟩ first resized direct).mpr (by decide)⟩

/-- A vector that becomes a scalar keeps a TDIM keyword. -/
theorem not_resized_scalar : ∃ w₁ w₂ w₃,
    addNew Reference.tdimApi 0 "A" .long "" [4] 0 empty = .ok () w₁ ∧
    resize Reference.tdimApi 0 1 [1] w₁ = .ok () w₂ ∧
    addNew Reference.tdimApi 0 "A" .long "" [1] 0 empty = .ok () w₃ ∧
    HasTdim Reference.tdimApi 0 1 w₂ ∧ ¬ HasTdim Reference.tdimApi 0 1 w₃ := by
  refine ⟨after (addNew Reference.tdimApi 0 "A" .long "" [4] 0 empty), _, _,
    ok_of_returned (by decide +kernel), ok_of_returned (by decide +kernel),
    ok_of_returned (by decide +kernel), ?_, ?_⟩
  · unfold HasTdim
    decide +kernel
  · unfold HasTdim
    decide +kernel

end Table
end MisFITS
