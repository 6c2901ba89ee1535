import MisFITS.CopyStages
import MisFITS.TextRows

/-! Added string columns: the strings that a vector bound to one holds, and what a
cursor writes and reads back of them. -/
namespace MisFITS
open ColumnType Program HDU Session RowEntry

namespace Extent

variable {d : Int} {rest : Extent}

theorem prod_eq_one_iff (dims : ∀ d ∈ rest, 0 < d) : rest.prod = 1 ↔ rest.squeeze.naxes = 0 := by
  induction rest with
  | nil => simp [squeeze, naxes]
  | cons d rest ih =>
    have positive := dims d List.mem_cons_self
    have later := ih (fun d member => dims d (List.mem_cons_of_mem _ member))
    by_cases one : d = 1
    · simpa [squeeze, one] using later
    · constructor
      · intro product
        rw [List.prod_cons] at product
        exact absurd (Int.eq_one_of_mul_eq_one_right (Int.le_of_lt positive) product) one
      · intro empty
        simp [squeeze, naxes, one] at empty

/-- Without TDIM, strings of the first dimension are as many as the others make,
but for single characters in one dimension. -/
theorem one_string_iff (dims : ∀ d ∈ rest, 0 < d) (flat : ¬(squeeze (d :: rest)).naxes > 1) :
    rest.prod = 1 ↔ ¬(d = 1 ∧ (squeeze (d :: rest)).naxes = 1) := by
  rw [prod_eq_one_iff dims]
  by_cases one : d = 1
  · have same : squeeze (d :: rest) = squeeze rest := by simp [squeeze, one]
    rw [same] at flat ⊢
    simp only [one, true_and]
    omega
  · have more : (squeeze (d :: rest)).naxes = (squeeze rest).naxes + 1 := by
      simp [squeeze, naxes, one]
    simp only [one, false_and, not_false_eq_true, iff_true]
    omega

end Extent

namespace ColumnInfo

variable {ci info : ColumnInfo} {k w m : Nat} {offset : Int} {rest : Extent}

theorem added_shape (sizes : ci.extent.Sizes) (string : ci.columnType = .string)
    (axes : ci.extent = (w : Int) :: rest) (many : rest.prod = m)
    (described : decode (inserted ci) k offset = .ok info) :
    (¬(w = 1 ∧ ci.extent.squeeze.naxes = 1) ∧ Target.Textual info w m) ∨
      ((w = 1 ∧ ci.extent.squeeze.naxes = 1) ∧ m ≠ 1 ∧ ∃ n, Target.Textual info n 1) := by
  obtain ⟨w', m', shaped, count⟩ := shaped_of_inserted sizes string described
  obtain ⟨_, _, _, bytes, extent⟩ := decode_inserted sizes string described
  have first := shaped.first
  have whole := shaped.bytes
  have wide := shaped.wide
  have product : ci.extent.prod = (w * m : Nat) := by
    rw [axes, List.prod_cons, many, Int.natCast_mul]
  have equal : w' * m' = w * m := by omega
  have positive := sizes.dims w (by simp [axes])
  have dims : ∀ d ∈ rest, 0 < d := fun d member => sizes.dims d (by simp [axes, member])
  by_cases deep : ci.extent.squeeze.naxes > 1
  · left
    rw [extent, if_pos deep, axes] at first
    obtain rfl : w = w' := by simpa using first
    obtain rfl : m' = m := Nat.eq_of_mul_eq_mul_left wide equal
    exact ⟨fun single => absurd single.2 (by omega), shaped, count⟩
  · rw [extent, if_neg deep, product] at first
    obtain rfl : w * m = w' := by exact_mod_cast Option.some.inj first
    obtain rfl : m' = 1 :=
      Nat.eq_of_mul_eq_mul_left wide (equal.trans (Nat.mul_one (w * m)).symm)
    have one : rest.prod = 1 ↔ ¬(w = 1 ∧ ci.extent.squeeze.naxes = 1) := by
      rw [axes] at deep ⊢
      simpa using Extent.one_string_iff dims deep
    by_cases single : w = 1 ∧ ci.extent.squeeze.naxes = 1
    · exact Or.inr ⟨single, fun few => one.mp (by omega) single, w * m, shaped, count⟩
    · have few := one.mpr single
      obtain rfl : m = 1 := by omega
      rw [Nat.mul_one] at shaped count
      exact Or.inl ⟨single, shaped, count⟩

end ColumnInfo

/-- A binding of the column to a vector holds `count` strings, and what is written of
these, as wide as `width`, is read back. -/
structure StringsKept (api : Cfitsio) (t : Nat) (info : ColumnInfo) (width count : Nat) : Prop where
  binds : ∀ {S : DynamicBitset} {s : Session S} {r n name}, (s.rows r).table = t →
    s.world.Attached (.table t) → Table.Finds api s.world t name info →
    ∃ s' it, Row.add api r name ⟨.strings, n⟩ s = .ok () s' ∧
      s'.entries s.made = ⟨⟨.strings, n⟩, it⟩ ∧ StringColumnVector.Bound api t info it ∧
      (s'.vars ⟨.strings, n⟩ : List (List Byte)).length = count
  /-- a row of this binding alone, in any table -/
  returns : ∀ {S : DynamicBitset} {s s₁ : Session S} {vars : Vars S} {r e n it u},
    (s.rows r).table = t → (s.rows r).entries = [e] → s.entries e = ⟨⟨.strings, n⟩, it⟩ →
    StringColumnVector.Bound api t info it →
    ∀ strings : List (List Byte), s.vars ⟨.strings, n⟩ = strings → strings.length = count →
    (∀ x ∈ strings, x.length ≤ width ∧ 0 ∉ x) → Row.write api r s = .ok u s₁ →
    (vars ⟨.strings, n⟩ : List (List Byte)).length = count →
    ∃ s₂, Row.readAt api r (s.rows r).idx { s₁ with vars } = .ok true s₂ ∧
      s₂.vars ⟨.strings, n⟩ = strings
  /-- a row with other bindings, in a table of added columns -/
  among : ∀ {S : DynamicBitset} {s s₁ s₂ : Session S} {vars : Vars S} {w place r e n u b},
    Table.Grown w t → (s.rows r).table = t →
    (s.world.unitOf (.table t)).heads = (w.unitOf (.table t)).heads →
    (s.world.unitOf (.table t)).Sized → 1 ≤ (s.rows r).idx →
    Seated api t w place (s.rows r).entries s → e ∈ (s.rows r).entries →
    (s.entries e).Stands api t w s.vars (place e) info → (s.entries e).var = ⟨.strings, n⟩ →
    (∀ e' ∈ (s.rows r).entries, e' ≠ e → place e' ≠ place e ∧ (s.entries e').var ≠ ⟨.strings, n⟩) →
    ∀ strings : List (List Byte), s.vars ⟨.strings, n⟩ = strings →
    (∀ x ∈ strings, x.length ≤ width ∧ 0 ∉ x) → Row.write api r s = .ok u s₁ →
    Table.Refilled s vars → Row.readAt api r (s.rows r).idx { s₁ with vars } = .ok b s₂ →
    b = true ∧ s₂.vars ⟨.strings, n⟩ = strings

namespace Session

variable {api : Cfitsio} {S : DynamicBitset} {s s' : Session S} {e t : Nat} {row : Int} {u u' : Unit}
  {entry : Entry}

theorem writeEntry_bound (held : s.entries e = entry)
    (run : Row.writeEntry api t row u e s = .ok u' s') : ∃ column w',
    entry.var.target.write api S t entry.column row (s.vars entry.var) s.world = .ok column w' ∧
      s' = { s with world := w', entries := Function.update s.entries e ⟨entry.var, column⟩ } := by
  subst held
  exact writeEntry_ok run

theorem readEntry_bound (held : s.entries e = entry) {column : entry.var.target.Column}
    {value : entry.var.target.Value S}
    (reads : entry.var.target.read api S t entry.column row (s.vars entry.var) s.world =
      .ok (column, value) s.world) :
    Row.readEntry api t row u e s = .ok () (s.store e entry.var column value) := by
  subst held
  exact bind_ok.mpr ⟨(column, value), s, onWorld_of_ok reads, rfl⟩

end Session

namespace Target.Textual

variable {api : Cfitsio} {S : DynamicBitset} {t w m : Nat} {info : ColumnInfo} {s s₁ : Session S}
  {r e n : Nat} {name : String}

theorem make_ok (textual : Textual info w m) (string : info.columnType.id = .string)
    (base : List (List Byte)) :
    ∃ it, StringColumnVector.make info base = .ok it (resizeTo base m []) := by
  have first := textual.shaped.first
  have width := textual.width
  have strings := textual.strings
  have wide := textual.shaped.wide
  cases axes : info.extent with
  | nil => simp [axes] at first
  | cons d rest =>
    rw [axes, List.headD_cons] at width
    have axis : StringColumnVector.firstAxis info.extent = .ok w := by
      rw [axes, ← width]
      rfl
    refine ⟨{ ColumnBase.ofInfo info with
      natomic := info.nbytes, offset := info.offset, width := w
      buffer := List.replicate (toSize info.nbytes) 0 }, ?_⟩
    refine bind_ok.mpr ⟨w, base, ofExcept_ok.mpr ⟨axis, rfl⟩, ?_⟩
    refine check_ok.mpr ⟨not_not.mpr string, check_ok.mpr ⟨by omega, ?_⟩⟩
    exact bind_ok.mpr ⟨(), _, modify_ok.mpr rfl, by rw [← strings]; rfl⟩

theorem binds (doc : Documented api) (textual : Textual info w m)
    (string : info.columnType.id = .string) (table : (s.rows r).table = t)
    (attached : s.world.Attached (.table t)) (finds : Table.Finds api s.world t name info) :
    ∃ s' it, Row.add api r name ⟨.strings, n⟩ s = .ok () s' ∧
      s'.entries s.made = ⟨⟨.strings, n⟩, it⟩ ∧ StringColumnVector.Bound api t info it ∧
      (s'.vars ⟨.strings, n⟩ : List (List Byte)).length = m := by
  obtain ⟨k, number, low, entry⟩ := finds
  obtain ⟨it, made⟩ := textual.make_ok string (s.vars ⟨.strings, n⟩)
  rw [← table] at attached number entry
  refine ⟨_, it, add_of_ok doc attached number low entry made, entries_bindColumn_self, .made made, ?_⟩
  have value : ((Row.onto s r).bindColumn r ⟨.strings, n⟩ it
      (resizeTo (s.vars ⟨.strings, n⟩) m [])).vars ⟨.strings, n⟩ =
      resizeTo (s.vars ⟨.strings, n⟩) m [] := vars_bindColumn_self
  rw [value, resizeTo_length]

theorem write_read (raw : RawBytes api) (textual : Textual info w m) {it it' : StringColumnVector}
    (bound : StringColumnVector.Bound api t info it) {strings old : List (List Byte)}
    (count : strings.length = m) (count' : old.length = m)
    (plain : ∀ x ∈ strings, x.length ≤ w ∧ 0 ∉ x) {row : Int} {v v' : World}
    (here : v.Current (.table t)) (run : StringColumnVector.write api t it row strings v = .ok it' v') :
    v'.Current (.table t) ∧ row ≤ (v'.unitOf (.table t)).nrows ∧
      ∃ jt, StringColumnVector.read api t it' row old v' = .ok (jt, strings) v' := by
  have long := textual.shaped.long
  have positive := textual.positive
  have ready := textual.shaped.ready bound
  have bound' := bound.write run
  have whole : (strings.map (padded w)).flatten.length = w * m := by
    rw [StringColumnVector.slots_length, count]
  rw [ready.write_eq (by omega) count row v] at run
  obtain ⟨_, _, writes, same⟩ := bind_ok.mp run
  obtain ⟨_, rfl⟩ := pure_ok.mp same
  have back := StringColumn.readBytes_back raw writes
  obtain ⟨h, edit, rfl⟩ := Table.edit_here here writes
  have nonempty : (strings.map (padded w)).flatten ≠ [] := by
    intro empty
    rw [empty] at whole
    exact absurd whole (by simp only [List.length_nil]; omega)
  have bytes : info.nbytes = ((strings.map (padded w)).flatten.length : Nat) := by
    rw [textual.shaped.bytes, whole]
  rw [← bytes] at back
  have reads : StringColumnVector.Reads api t info _ _ := textual.shaped.returns count
  rw [StringColumnVector.map_terminated_take plain] at reads
  obtain ⟨jt, read⟩ := reads it' row old _ _ bound' (by rw [count, count']) back
  refine ⟨?_, ?_, jt, read⟩
  · simp [World.Current, World.put, World.onto]
  · rw [World.unitOf_put]
    exact raw.grows nonempty edit

theorem returns (doc : Documented api) (raw : RawBytes api) (textual : Textual info w m)
    {vars : Vars S} {it : StringColumnVector} {u : Unit} (table : (s.rows r).table = t)
    (entries : (s.rows r).entries = [e]) (entry : s.entries e = ⟨⟨.strings, n⟩, it⟩)
    (bound : StringColumnVector.Bound api t info it) (strings : List (List Byte))
    (value : s.vars ⟨.strings, n⟩ = strings) (count : strings.length = m)
    (plain : ∀ x ∈ strings, x.length ≤ w ∧ 0 ∉ x) (run : Row.write api r s = .ok u s₁)
    (count' : (vars ⟨.strings, n⟩ : List (List Byte)).length = m) :
    ∃ s₂, Row.readAt api r (s.rows r).idx { s₁ with vars } = .ok true s₂ ∧
      s₂.vars ⟨.strings, n⟩ = strings := by
  obtain ⟨s', loop, rfl⟩ := Row.write_ok doc run
  rw [entries] at loop
  obtain ⟨_, _, writes, done⟩ := bind_ok.mp loop
  obtain ⟨_, rfl⟩ := pure_ok.mp done
  obtain ⟨it', v', write, rfl⟩ := writeEntry_bound (s := Row.onto s r) entry writes
  have here : (s.world.onto (.table t)).Current (.table t) := World.current_of_onto
  change StringColumnVector.write api (s.rows r).table it (s.rows r).idx (s.vars ⟨.strings, n⟩)
    (s.world.onto (.table (s.rows r).table)) = _ at write
  rw [value, table] at write
  obtain ⟨current, last, jt, read⟩ :=
    textual.write_read raw bound count count' plain here write
  let s₃ : Session S := { s with
    world := v', vars := vars, entries := Function.update s.entries e ⟨⟨.strings, n⟩, it'⟩ }
  have again : Row.readAt api r (s.rows r).idx
      { (Session.setRow { s with
          world := v', entries := Function.update s.entries e ⟨⟨.strings, n⟩, it'⟩ } r
        (Row.next (s.rows r))) with vars } = Row.read api r s₃ := Table.readAt_next rfl
  have held : s₃.entries e = ⟨⟨.strings, n⟩, it'⟩ := Function.update_self ..
  have reads : Row.readEntry api t (s.rows r).idx () e s₃ =
      .ok () (s₃.store e ⟨.strings, n⟩ jt strings) :=
    readEntry_bound held read
  have row : s₃.rows r = s.rows r := rfl
  have opens := Row.read_of_current (s := s₃) (r := r) doc (by rw [row, table]; exact current)
    (by simp [row, entries]) (by rw [row, table]; exact last)
  rw [row, entries, table] at opens
  refine ⟨(s₃.store e ⟨.strings, n⟩ jt strings).setRow r
    (Row.next ((s₃.store e ⟨.strings, n⟩ jt strings).rows r)), ?_, ?_⟩
  · refine again.trans (opens.trans ?_)
    exact bind_ok.mpr ⟨(), _, bind_ok.mpr ⟨(), _, reads, rfl⟩,
      bind_ok.mpr ⟨(), _, Row.advanceAuto_eq, rfl⟩⟩
  · exact Function.update_self ..

theorem decodes_encode (textual : Textual info w m) {strings value : List (List Byte)}
    (held : Target.Held S info .strings strings) (plain : ∀ x ∈ strings, x.length ≤ w ∧ 0 ∉ x)
    (decodes : Target.Decodes S info (Target.encode S info .strings strings) .strings value) :
    value = strings := by
  simp only [Target.Decodes, Target.encode, textual.width, textual.strings] at decodes
  rw [StringColumnVector.slots_read (textual.held_strings held),
    StringColumnVector.map_terminated_take plain] at decodes
  exact decodes

theorem kept (doc : Documented api) (raw : RawBytes api) (textual : Textual info w m)
    (string : info.columnType.id = .string) : StringsKept api t info w m := by
  constructor
  case binds =>
    intro S s r n name table attached finds
    exact textual.binds doc string table attached finds
  case returns =>
    intro S s s₁ vars r e n it u table entries entry bound strings value count plain run count'
    exact textual.returns doc raw table entries entry bound strings value count plain run count'
  case among =>
    intro S s s₁ s₂ vars v place r e n u b grown table heads sized first placed member stands var
      alone strings value plain writes refilled reads
    obtain ⟨rfl, decodes⟩ := (grown.row_value doc raw table first heads sized placed writes refilled
      member stands).2 b s₂ reads
    have held := stands.held
    rw [var] at decodes held
    subst value
    exact ⟨rfl, textual.decodes_encode held plain (decodes alone)⟩

end Target.Textual

namespace Table
open ColumnInfo

variable {api : Cfitsio} {t k : Nat} {w w' v : World} {info : ColumnInfo}

def ColumnEdit.AddsStrings (extent : Extent) (colnum : Nat) : ColumnEdit → Prop
  | .add ci => ci.columnType = .string ∧ ci.extent = extent ∧ ci.colnum = colnum
  | .addNew _ type _ extent' colnum' => type = .string ∧ extent' = extent ∧ colnum' = colnum
  | .delete _ => False

theorem addsStrings_head (doc : Documented api) {e : ColumnEdit} {extent : Extent} {colnum : Nat}
    {u : Unit} (adds : e.AddsStrings extent colnum)
    (range : e.InRange (w.unitOf (.table t)).cols.length) (run : e.run api t w = .ok u w') :
    ∃ ci : ColumnInfo, ci.columnType = .string ∧ ci.extent = extent ∧
      (w'.unitOf (.table t)).heads[added w t colnum - 1]? = some (inserted ci) := by
  cases e with
  | add ci =>
    obtain ⟨string, same, rfl⟩ := adds
    obtain ⟨h, cells, refreshes, _, cols⟩ := add_run doc range run
    exact ⟨ci, string, same, (added_described doc range refreshes cols).1⟩
  | addNew ttype type tunit extent' colnum' =>
    obtain ⟨rfl, rfl, rfl⟩ := adds
    obtain ⟨ci, h, cells, made, refreshes, _, cols⟩ := addNew_run doc range run
    obtain ⟨spec, _, _, same, _⟩ := make_ok made
    exact ⟨ci, (Except.ok.inj spec).symm, same, (added_described doc range refreshes cols).1⟩
  | delete _ => exact adds.elim

/-- Wherever the column stands later on, its strings are kept exactly when they are
not single characters in one dimension. -/
theorem strings_kept_iff (doc : Documented api) (raw : RawBytes api) {e : ColumnEdit}
    {width count colnum : Nat} {rest : Extent} {name : String} {u : Unit}
    (adds : e.AddsStrings ((width : Int) :: rest) colnum)
    (sizes : Extent.Sizes ((width : Int) :: rest)) (many : rest.prod = count)
    (range : e.InRange (w.unitOf (.table t)).cols.length) (run : e.run api t w = .ok u w')
    (synced : Synced v t) (attached : v.Attached (.table t))
    (same : (v.unitOf (.table t)).heads[k - 1]? =
      (w'.unitOf (.table t)).heads[added w t colnum - 1]?)
    (finds : Finds api v t name info) (number : api.getColnum (v.unitOf (.table t)).names name = .ok k) :
    StringsKept api t info width count ↔
      ¬(width = 1 ∧ (Extent.squeeze ((width : Int) :: rest)).naxes = 1) := by
  obtain ⟨ci, text, axes, head⟩ := addsStrings_head doc adds range run
  obtain ⟨k', number', low, entry⟩ := finds
  cases number.symm.trans number'
  obtain ⟨c, found, described⟩ := decodeAll_get synced entry
  cases (found.symm.trans same).trans head
  have string : info.columnType.id = .string := by
    rw [(decode_inserted (axes ▸ sizes) text described).1]
    rfl
  have shape := added_shape (axes ▸ sizes) text axes many described
  rw [axes] at shape
  constructor
  · intro kept single
    obtain ⟨more, n, textual⟩ := (shape.resolve_left (fun usual => usual.1 single)).2
    have finds : Finds api (opened v t).world t name info := ⟨k, number, low, entry⟩
    obtain ⟨s', it, binds, _, _, length⟩ := kept.binds (n := 0) (r := 0) rfl attached finds
    obtain ⟨s'', jt, again, _, _, length'⟩ :=
      textual.binds (n := 0) (r := 0) (S := listBitset) doc string rfl attached finds
    cases binds.symm.trans again
    exact more (length.symm.trans length')
  · intro usual
    exact (shape.resolve_right (fun other => usual other.1)).2.kept doc raw string

def withStrings (extent : Extent) : World :=
  after (addNew Reference.rawApi 0 "S" .string "" extent 1 blankTable)

def pairBound : Session listBitset :=
  after (Row.add Reference.rawApi 0 "S" ⟨.strings, 0⟩ (opened (withStrings [4, 2]) 0))

def pairHeld : Session listBitset :=
  { pairBound with
    vars := Function.update pairBound.vars ⟨.strings, 0⟩
      [StringColumn.bytesOf "AB", StringColumn.bytesOf "CDEF"] }

def pairWritten : Session listBitset := after (Row.write Reference.rawApi 0 pairHeld)

theorem strings_kept_pairs : ∃ info, Finds Reference.rawApi (withStrings [4, 2]) 0 "S" info ∧
    StringsKept Reference.rawApi 0 info 4 2 ∧
    Row.write Reference.rawApi 0 pairHeld = .ok () pairWritten ∧
    ∃ s, Row.readAt Reference.rawApi 0 (pairHeld.rows 0).idx
        { pairWritten with vars := pairBound.vars } = .ok true s ∧
      s.vars ⟨.strings, 0⟩ = [StringColumn.bytesOf "AB", StringColumn.bytesOf "CDEF"] := by
  have run : EditStep Reference.rawApi 0 (some (.addNew "S" .string "" [4, 2] 1)) blankTable
      (withStrings [4, 2]) := ⟨by decide +kernel, ok_of_returned (by decide +kernel)⟩
  have synced : Synced (withStrings [4, 2]) 0 :=
    (editStep_list Reference.documented_raw run
      (synced_of_refresh Reference.documented_raw blank_built)).1
  have number : Reference.rawApi.getColnum
      ((withStrings [4, 2]).unitOf (.table 0)).names "S" = .ok 1 := by decide +kernel
  obtain ⟨info, entry⟩ := Option.isSome_iff_exists.mp
    (by decide +kernel : (((withStrings [4, 2]).tables 0).columns[1 - 1]?).isSome = true)
  have finds : Finds Reference.rawApi (withStrings [4, 2]) 0 "S" info :=
    ⟨1, number, Nat.le_refl 1, entry⟩
  have adds : ColumnEdit.AddsStrings [(4 : Nat), 2] 1 (.addNew "S" .string "" [4, 2] 1) :=
    ⟨rfl, rfl, rfl⟩
  have attached : (withStrings [4, 2]).Attached (.table 0) := ⟨by decide +kernel, by decide +kernel⟩
  have kept : StringsKept Reference.rawApi 0 info 4 2 :=
    (strings_kept_iff Reference.documented_raw Reference.rawBytes adds ⟨by decide, by decide⟩ rfl
      run.1 run.2 synced attached rfl finds number).mpr (by decide)
  have wrote : Row.write Reference.rawApi 0 pairHeld = .ok () pairWritten :=
    ok_of_returned (by decide +kernel)
  refine ⟨info, finds, kept, wrote, ?_⟩
  obtain ⟨bound, it, binds, holds, made, _⟩ := kept.binds (s := opened (withStrings [4, 2]) 0)
    (r := 0) (n := 0) rfl attached finds
  have entry : pairHeld.entries 0 = ⟨⟨.strings, 0⟩, it⟩ := by
    unfold pairHeld pairBound
    rw [binds]
    exact holds
  have table : (pairHeld.rows 0).table = 0 := by decide +kernel
  have entries : (pairHeld.rows 0).entries = [0] := by decide +kernel
  have strings : (pairHeld.vars ⟨.strings, 0⟩ : List (List Byte)) =
      [StringColumn.bytesOf "AB", StringColumn.bytesOf "CDEF"] := by decide +kernel
  have length : (pairBound.vars ⟨.strings, 0⟩ : List (List Byte)).length = 2 := by decide +kernel
  exact kept.returns table entries entry made _ strings rfl (by decide) wrote length

/-- Three strings of one character are one string of three. -/
theorem not_kept_characters : ∃ info, Finds Reference.rawApi (withStrings [1, 3]) 0 "S" info ∧
    ¬StringsKept Reference.rawApi 0 info 1 3 := by
  have number : Reference.rawApi.getColnum
      ((withStrings [1, 3]).unitOf (.table 0)).names "S" = .ok 1 := by decide +kernel
  obtain ⟨info, entry⟩ := Option.isSome_iff_exists.mp
    (by decide +kernel : (((withStrings [1, 3]).tables 0).columns[1 - 1]?).isSome = true)
  have finds : Finds Reference.rawApi (withStrings [1, 3]) 0 "S" info :=
    ⟨1, number, Nat.le_refl 1, entry⟩
  refine ⟨info, finds, fun kept => ?_⟩
  obtain ⟨s', it, binds, _, _, length⟩ := kept.binds (s := opened (withStrings [1, 3]) 0) (r := 0)
    (n := 0) rfl ⟨by decide +kernel, by decide +kernel⟩ finds
  have bound : Row.add Reference.rawApi 0 "S" ⟨.strings, 0⟩ (opened (withStrings [1, 3]) 0) =
      .ok () (after (Row.add Reference.rawApi 0 "S" ⟨.strings, 0⟩ (opened (withStrings [1, 3]) 0))) :=
    ok_of_returned (by decide +kernel)
  cases binds.symm.trans bound
  revert length
  decide +kernel

end Table
end MisFITS
