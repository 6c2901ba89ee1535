import MisFITS.CopiedTables
import MisFITS.Lockstep
import MisFITS.StaleRows

/-! Two cursors side by side, one on a table and one on its copy, with columns that are
bound alike: a loop of reads over one is a loop over the other. -/
namespace MisFITS
open ColumnType Program HDU Run Slices RowEntry
open Reference (head_of_column column_of_head)

structure Likeness (api : Cfitsio) (source target : HduData) (names : List String) (h : HduData) :
    Prop where
  sized : source.Sized
  typed : source.Typed
  mirrors : Table.Mirrors api source target names h
  common : ∀ name ∈ names, Common api source target name

namespace Target

variable {S : DynamicBitset} {τ : Target} {it it' jt jt' : τ.Column} {k : Nat} {offset : Int}

def reseat : (τ : Target) → τ.Column → Nat → Int → τ.Column
  | .native _ _, it, k, _ => { it with colnum := k }
  | .bool _, it, k, _ | .bitset, it, k, _ => { it with colnum := k }
  | .string, it, k, offset | .strings, it, k, offset => { it with colnum := k, offset }

def Brims : (τ : Target) → τ.Column → Prop
  | .native _ _, _ => True
  | .bool v, it => it.buffer.length = Target.count (.bool v) it
  | .bitset, it => it.buffer.length = Target.count .bitset it
  | .string, it => it.buffer.length = Target.count .string it
  | .strings, it => it.buffer.length = Target.count .strings it

/-- Column objects that differ in their cells and in what is in their buffers. -/
def Twin (τ : Target) (it jt : τ.Column) : Prop :=
  τ.Brims it ∧ ∃ buffer k offset, buffer.length = (τ.buffer it).length ∧
    jt = τ.reseat (τ.withBuffer it buffer) k offset

theorem Twin.count (twin : τ.Twin it jt) : τ.count jt = τ.count it := by
  obtain ⟨_, buffer, k, offset, length, rfl⟩ := twin
  cases τ with
  | bitset => exact length
  | native | bool | string | strings => rfl

theorem Twin.of_alike (twin : τ.Twin it jt) (alike : τ.Alike it it') (alike' : τ.Alike jt jt') :
    τ.Twin it' jt' := by
  obtain ⟨brims, buffer, k, offset, length, rfl⟩ := twin
  obtain ⟨buffer₁, length₁, rfl⟩ := alike
  obtain ⟨buffer₂, length₂, rfl⟩ := alike'
  cases τ with
  | native => exact ⟨trivial, [], k, 0, rfl, rfl⟩
  | bool => exact ⟨length₁.trans brims, buffer₂, k, 0, (length₂.trans length).trans length₁.symm, rfl⟩
  | bitset => exact ⟨rfl, buffer₂, k, 0, (length₂.trans length).trans length₁.symm, rfl⟩
  | string | strings =>
    exact ⟨length₁.trans brims, buffer₂, k, offset, (length₂.trans length).trans length₁.symm, rfl⟩

theorem Covers.of_alike {heads : List ColHead} (covers : Covers heads k τ it)
    (alike : τ.Alike it jt) : Covers heads k τ jt := by
  obtain ⟨low, c, head, asks⟩ := covers
  obtain ⟨buffer, length, rfl⟩ := alike
  refine ⟨low, c, head, ?_⟩
  cases τ with
  | bitset => exact ⟨asks.1, length.trans_le asks.2⟩
  | native | bool | string | strings => exact asks

theorem fill_whole {α : Type} {data buffer : List α} (whole : data.length = buffer.length) :
    fill data buffer = .ok data := by
  rw [fill_ok whole.le, whole, List.drop_length, List.append_nil]

theorem load_twin (twin : τ.Twin it jt) {base : τ.Value S} {data : List τ.storage.Native}
    (whole : data.length = τ.count it) : ∃ k offset, τ.load S jt base data =
      (τ.load S it base data).map (fun x => (τ.reseat x.1 k offset, x.2)) := by
  obtain ⟨brims, buffer, k, offset, length, rfl⟩ := twin
  refine ⟨k, offset, ?_⟩
  cases τ with
  | native => cases filled : fill data base <;> simp [load, filled, Except.map, reseat, withBuffer]
  | bool vector =>
    simp only [load, BoolColumn.load, reseat, withBuffer, bind, Except.bind]
    rw [fill_whole (whole.trans brims.symm), fill_whole ((whole.trans brims.symm).trans length.symm)]
    dsimp only
    cases drain it.natomic data with
    | error => rfl
    | ok chars =>
      dsimp only
      generalize fill (chars.map fun b => decide (b ≠ 0)) base = filled
      cases filled <;> rfl
  | bitset =>
    have first := fill_whole (whole.trans brims.symm)
    have second := fill_whole ((whole.trans brims.symm).trans length.symm)
    obtain ⟨⟨_, nelem, natomic, id⟩, bits, old⟩ := it
    simp only [load, BitSetColumn.load, reseat, withBuffer, bind, Except.bind]
    rw [first, second]
    dsimp only
    cases id with
    | logical =>
      cases drain natomic data with
      | error => rfl
      | ok chars =>
        change Except.bind (BitSetColumn.assign S base 0 chars) _ =
          Except.map _ (Except.bind (BitSetColumn.assign S base 0 chars) _)
        cases BitSetColumn.assign S base 0 chars <;> rfl
    | _ => rfl
  | string =>
    simp only [load, StringColumn.load, reseat, withBuffer, bind, Except.bind]
    rw [fill_whole (whole.trans brims.symm), fill_whole ((whole.trans brims.symm).trans length.symm)]
    dsimp only
    cases drain it.natomic data <;> rfl
  | strings =>
    simp only [load, StringColumnVector.load, reseat, withBuffer, bind, Except.bind]
    rw [fill_whole (whole.trans brims.symm), fill_whole ((whole.trans brims.symm).trans length.symm)]
    dsimp only
    cases StringColumnVector.split it.width base.length data <;> rfl

structure SameCells (info info' : ColumnInfo) : Prop where
  nelem : info'.extent.nelem = info.extent.nelem
  nbytes : info'.nbytes = info.nbytes
  id : info'.columnType.id = info.columnType.id
  axis : ∀ {n n'}, info.columnType.id = .string →
    StringColumnVector.firstAxis info.extent = .ok n →
      StringColumnVector.firstAxis info'.extent = .ok n' → n' = n

theorem axis_of_shape {c : ColHead} (text : c.typecode = .string) {e : Extent}
    (run : ColumnInfo.shape c = .ok e) {n : Nat} (axis : StringColumnVector.firstAxis e = .ok n) :
    n = toSize c.reportedWidth := by
  unfold ColumnInfo.shape at run
  split at run
  · obtain ⟨count, _, rfl⟩ := except_map_ok.mp run
    cases axis
    rfl
  · rename_i deep
    cases run
    unfold ColHead.axes at axis deep
    unfold ColHead.reportedWidth
    rw [if_pos text]
    cases dims : c.tdim with
    | none => exact absurd ⟨text, by rw [dims]; rfl⟩ deep
    | some l =>
      rw [dims, Option.getD_some] at axis
      cases l with
      | nil => cases axis
      | cons a l =>
        cases axis
        rfl

theorem sameCells_of_decode {x y : ColHead} (well : x.WellFormed ∧ x.Splits)
    (well' : y.WellFormed ∧ y.Splits) (shape : x.SameShape y) {j k : Nat} {o o' : Int}
    {info info' : ColumnInfo} (decoded : ColumnInfo.decode x j o = .ok info)
    (decoded' : ColumnInfo.decode y k o' = .ok info') : SameCells info info' := by
  obtain ⟨code, reps, width⟩ := shape
  have nelem := ColumnInfo.nelem_decode well.1 well.2 decoded
  have nelem' := ColumnInfo.nelem_decode well'.1 well'.2 decoded'
  obtain ⟨_, _, type, shaped, _, _, cells⟩ := ColumnInfo.decode_ok decoded
  obtain ⟨_, _, type', shaped', _, _, cells'⟩ := ColumnInfo.decode_ok decoded'
  have id : info'.columnType.id = info.columnType.id := by rw [type', type, code]
  have same : info'.extent.nelem = info.extent.nelem := by rw [nelem, nelem', reps]
  constructor
  · exact same
  · rw [cells, cells', ColumnType.Spec.id_inj.mp id, same, width]
  · exact id
  · intro n n' text first first'
    rw [type] at text
    rw [axis_of_shape text shaped first, axis_of_shape (code ▸ text) shaped' first', width]

theorem make_logical_eq {info : ColumnInfo} (logical : info.columnType.id = .logical)
    (base : S.Bits) : BitSetColumn.make S info base =
      .ok { colnum := info.colnum, nelem := info.extent.nelem, id := .logical
            natomic := info.extent.nelem
            maxBits := toSize (info.extent.nelem * DynamicBitset.bitsPerBlock)
            buffer := List.replicate (toSize info.extent.nelem) 0 }
        (S.resize base (toSize info.extent.nelem)) := by
  unfold BitSetColumn.make ColumnBase.ofInfo
  simp only [logical]
  rfl

theorem twin_of_make (lawful : S.Lawful) {info info' : ColumnInfo} (same : SameCells info info')
    {base base' value value' : τ.Value S} {n : Nat} (positive : 0 < τ.natomic it) (fits : τ.Fits it n)
    (run : τ.make S info base = .ok it value) (run' : τ.make S info' base' = .ok jt value') :
    τ.Twin it jt := by
  cases τ with
  | native T vector =>
    obtain rfl : it = RowEntry.Column.init T info := sized_make run
    obtain rfl : jt = RowEntry.Column.init T info' := sized_make run'
    refine ⟨trivial, [], info'.colnum, 0, rfl, ?_⟩
    unfold RowEntry.Column.init ColumnBase.ofInfo
    rw [same.nelem, same.id]
    by_cases bit : T = .byte ∧ info.columnType.id = .bit <;> simp [bit, reseat, withBuffer]
  | bool vector =>
    have made : ∀ {info : ColumnInfo} {it : BoolColumn} {base value : List Bool},
        BoolColumn.make vector info base = .ok it value →
          it = ⟨ColumnBase.ofInfo info, List.replicate (toSize info.extent.nelem) 0⟩ := by
      intro info it base value run
      cases vector <;> cases run <;> rfl
    cases made run
    cases made run'
    refine ⟨?_, List.replicate (toSize info'.extent.nelem) 0, info'.colnum, 0, ?_, ?_⟩
    · exact List.length_replicate.trans (toSize_natomic positive List.length_replicate fits.2)
    · change List.length _ = List.length (List.replicate _ _)
      rw [List.length_replicate, List.length_replicate, same.nelem]
    · simp only [reseat, withBuffer, ColumnBase.ofInfo, same.nelem, same.id]
  | bitset =>
    refine ⟨rfl, jt.buffer, info'.colnum, 0, ?_⟩
    by_cases bit : info.columnType.id = .bit
    · have bit' : info'.columnType.id = .bit := same.id.trans bit
      have blocks : (S.blocks (S.resize base' (toSize info'.extent.nelem))).length =
          (S.blocks (S.resize base (toSize info.extent.nelem))).length := by
        rw [lawful.blocks_length, lawful.blocks_length, lawful.size_resize, lawful.size_resize,
          same.nelem]
      replace run : BitSetColumn.make S info base = .ok it value := run
      replace run' : BitSetColumn.make S info' base' = .ok jt value' := run'
      rw [BitSetColumn.make_bit bit] at run
      rw [BitSetColumn.make_bit bit', blocks, same.nelem] at run'
      cases run
      cases run'
      exact ⟨rfl, rfl⟩
    · have logical : info.columnType.id = .logical := (BitSetColumn.make_logical bit run).1
      replace run : BitSetColumn.make S info base = .ok it value := run
      replace run' : BitSetColumn.make S info' base' = .ok jt value' := run'
      rw [make_logical_eq logical] at run
      rw [make_logical_eq (same.id.trans logical), same.nelem] at run'
      cases run
      cases run'
      exact ⟨rfl, rfl⟩
  | string =>
    obtain ⟨text, run⟩ := check_ok.mp run
    obtain ⟨_, _, _, run⟩ := bind_ok.mp run
    obtain ⟨text', run'⟩ := check_ok.mp run'
    obtain ⟨_, _, _, run'⟩ := bind_ok.mp run'
    cases run
    cases run'
    refine ⟨?_, List.replicate (toSize info'.nbytes) 0, info'.colnum, info'.offset, ?_, ?_⟩
    · exact List.length_replicate.trans (toSize_natomic positive List.length_replicate fits)
    · change List.length _ = List.length (List.replicate _ _)
      rw [List.length_replicate, List.length_replicate, same.nbytes]
    · simp only [reseat, withBuffer, ColumnBase.ofInfo, same.nelem, same.nbytes, same.id]
  | strings =>
    obtain ⟨n, found, run⟩ := ofExcept_bind_ok.mp run
    obtain ⟨text, run⟩ := check_ok.mp run
    obtain ⟨_, run⟩ := check_ok.mp run
    obtain ⟨_, _, _, run⟩ := bind_ok.mp run
    obtain ⟨n', found', run'⟩ := ofExcept_bind_ok.mp run'
    obtain ⟨_, run'⟩ := check_ok.mp run'
    obtain ⟨_, run'⟩ := check_ok.mp run'
    obtain ⟨_, _, _, run'⟩ := bind_ok.mp run'
    obtain rfl : n' = n := same.axis (not_not.mp text) found found'
    cases run
    cases run'
    refine ⟨?_, List.replicate (toSize info'.nbytes) 0, info'.colnum, info'.offset, ?_, ?_⟩
    · exact List.length_replicate.trans (toSize_natomic positive List.length_replicate fits.1)
    · change List.length _ = List.length (List.replicate _ _)
      rw [List.length_replicate, List.length_replicate, same.nbytes]
    · simp only [reseat, withBuffer, ColumnBase.ofInfo, same.nelem, same.nbytes, same.id]

variable {info info' : ColumnInfo}

theorem make_roomy {base base' : τ.Value S} (run : τ.make S info base = .ok it base') :
    ∃ base₁ base₂, τ.make S info base₁ = .ok it base₂ ∧
      (τ.pointer = true → τ.cellCount info ≤ τ.room S base₁) := by
  cases τ with
  | native T vector =>
    cases vector with
    | true => exact ⟨base, base', run, fun array => absurd array Bool.false_ne_true⟩
    | false =>
      cases run
      refine ⟨List.replicate (cellCount (.native T false) info).toNat T.zero, _, rfl, fun _ => ?_⟩
      simp only [room, List.length_replicate]
      omega
  | bool vector =>
    cases vector with
    | true => exact ⟨base, base', run, fun array => absurd array Bool.false_ne_true⟩
    | false =>
      cases run
      refine ⟨List.replicate (cellCount (.bool false) info).toNat false, _, rfl, fun _ => ?_⟩
      simp only [room, List.length_replicate]
      omega
  | bitset | string | strings => exact ⟨base, base', run, fun array => absurd array Bool.false_ne_true⟩

theorem make_string_eq (base : List Byte) : StringColumn.make info base =
    if info.columnType.id = .string then
      .ok { ColumnBase.ofInfo info with
            natomic := info.nbytes, offset := info.offset
            buffer := List.replicate (toSize info.nbytes) 0 }
        (resizeTo base (toSize info.nbytes) 0)
    else .error (.assert
      "a std::string destination can only be used with a FITS 'A' column type") base := by
  unfold StringColumn.make
  by_cases text : info.columnType.id = .string <;> simp only [text, ne_eq, not_true, not_false_eq_true,
    if_true, if_false] <;> rfl

theorem make_strings_eq {d : Int} {ds : List Int} (dims : info.extent = d :: ds)
    (base : List (List Byte)) : StringColumnVector.make info base =
      if info.columnType.id = .string then
        if toSize d = 0 then .error .divideByZero base
        else .ok { ColumnBase.ofInfo info with
                   natomic := info.nbytes, offset := info.offset, width := toSize d
                   buffer := List.replicate (toSize info.nbytes) 0 }
          (resizeTo base (toSize info.extent.nelem / toSize d) [])
      else .error (.assert
        "a vector<std::string> destination can only be used with a FITS 'A' column type") base := by
  have axis : (ofExcept (StringColumnVector.firstAxis info.extent) :
      EStateM Exception (List (List Byte)) Nat) base = .ok (toSize d) base := by
    rw [dims]
    rfl
  unfold StringColumnVector.make
  dsimp only
  rw [bind_of_ok axis]
  by_cases text : info.columnType.id = .string <;> by_cases zero : toSize d = 0 <;>
    simp only [text, zero, ne_eq, not_true, not_false_eq_true, if_true, if_false] <;> rfl

theorem make_bitset_error (bit : info.columnType.id ≠ .bit) (logical : info.columnType.id ≠ .logical)
    (base : S.Bits) : BitSetColumn.make S info base = .error (.assert
      "can't only use a misFITS::BitSet object with BIT and LOGICAL FITS columns")
        (S.resize base (toSize info.extent.nelem)) := by
  simp only [BitSetColumn.make, ColumnBase.ofInfo, bit, logical, if_false]
  rfl

theorem make_alike (same : SameCells info info') (axes : info.extent ≠ []) (axes' : info'.extent ≠ [])
    (base : τ.Value S) :
    (∃ it jt value, τ.make S info base = .ok it value ∧ τ.make S info' base = .ok jt value) ∨
      ∃ e value, τ.make S info base = .error e value ∧ τ.make S info' base = .error e value := by
  cases τ with
  | native T vector =>
    have natomic : (Column.init T info').natomic = (Column.init T info).natomic := by
      unfold Column.init ColumnBase.ofInfo
      simp only [same.nelem, same.id]
      split <;> rfl
    cases vector with
    | false => exact .inl ⟨_, _, _, rfl, rfl⟩
    | true =>
      refine .inl ⟨_, Column.init T info', _, rfl, ?_⟩
      rw [← natomic]
      rfl
  | bool vector =>
    cases vector with
    | false => exact .inl ⟨_, _, _, rfl, rfl⟩
    | true =>
      have made : ∀ info, make S (.bool true) info base = .ok
          ⟨ColumnBase.ofInfo info, List.replicate (toSize info.extent.nelem) 0⟩
          (resizeTo base (toSize info.extent.nelem) false) := fun _ => rfl
      have made' := made info'
      rw [same.nelem] at made'
      exact .inl ⟨_, _, _, made info, made'⟩
  | bitset =>
    by_cases bit : info.columnType.id = .bit
    · have made' := BitSetColumn.make_bit (same.id.trans bit) base
      rw [same.nelem] at made'
      exact .inl ⟨_, _, _, BitSetColumn.make_bit bit base, made'⟩
    by_cases logical : info.columnType.id = .logical
    · have made' := make_logical_eq (same.id.trans logical) base
      rw [same.nelem] at made'
      exact .inl ⟨_, _, _, make_logical_eq logical base, made'⟩
    have made' := make_bitset_error (same.id ▸ bit) (same.id ▸ logical) base
    rw [same.nelem] at made'
    exact .inr ⟨_, _, make_bitset_error bit logical base, made'⟩
  | string =>
    have made : make S .string info base = _ := make_string_eq base
    have made' : make S .string info' base = _ := make_string_eq base
    rw [same.id, same.nbytes] at made'
    split at made
    · rw [if_pos ‹_›] at made'
      exact .inl ⟨_, _, _, made, made'⟩
    · rw [if_neg ‹_›] at made'
      exact .inr ⟨_, _, made, made'⟩
  | strings =>
    obtain ⟨d, ds, dims⟩ := List.exists_cons_of_ne_nil axes
    obtain ⟨d', ds', dims'⟩ := List.exists_cons_of_ne_nil axes'
    have made := make_strings_eq dims base
    have made' := make_strings_eq dims' base
    rw [same.id, same.nbytes, same.nelem] at made'
    split at made
    · rename_i text
      have width : toSize d' = toSize d := same.axis text (by rw [dims]; rfl) (by rw [dims']; rfl)
      rw [if_pos text, width] at made'
      split at made
      · rw [if_pos ‹_›] at made'
        exact .inr ⟨_, _, made, made'⟩
      · rw [if_neg ‹_›] at made'
        exact .inl ⟨_, _, _, made, made'⟩
    · rw [if_neg ‹_›] at made'
      exact .inr ⟨_, _, made, made'⟩

variable {api : Cfitsio} {source target h : HduData} {names : List String} {name : String}
  {row : Int}

theorem request_length (raw : RawBytes api) (answers : CellAnswers api) (sized : h.Sized)
    (typed : h.Typed) (covers : Covers h.heads k τ it) (first : 1 ≤ row) (last : row ≤ h.nrows)
    {data : List τ.storage.Native} (run : τ.request api it row h = .ok data) :
    data.length = τ.count it := by
  obtain ⟨low, _, head, asks⟩ := covers
  obtain ⟨c, column, rfl⟩ := column_of_head low head
  cases τ with
  | native | bool =>
    obtain ⟨rfl, positive, room⟩ := asks
    rw [request, ← Int.toNat_of_nonneg positive] at run
    have room : it.natomic.toNat ≤ c.elements := by omega
    exact answers.read_whole sized column (typed column) room run
  | bitset =>
    obtain ⟨rfl, room⟩ := asks
    exact answers.read_whole sized column (typed column) room run
  | string | strings =>
    obtain ⟨offset, bytes⟩ := asks
    rw [request, offset, bytes] at run
    cases run.symm.trans (request_bytes raw sized low column first last)
    have whole := sized row first last c (List.mem_of_getElem? (HduData.column_iff.mp column).2)
    have count : it.natomic.toNat = c.rowBytes := by omega
    exact whole.trans count.symm

/-- Twins ask for the same in a row of a table and of its copy. -/
theorem request_mirrored (raw : RawBytes api) (answers : CellAnswers api)
    (likeness : Likeness api source target names h) (member : name ∈ names) (twin : τ.Twin it jt)
    (covers : Covers source.heads (MisFITS.number api source name) τ it)
    (covers' : Covers target.heads (MisFITS.number api target name) τ jt) (first : 1 ≤ row)
    (last : row ≤ source.nrows) : τ.request api jt row h = τ.request api it row source := by
  obtain ⟨sized, _, mirrors, common⟩ := likeness
  have cells := mirrors.holds name member row first last
  have count := twin.count
  obtain ⟨a, b, x, y, foundA, foundB, headA, headB, _, _, shape⟩ := common name member
  rw [number_of_ok foundA] at covers cells
  rw [number_of_ok foundB] at covers' cells
  rw [← HduData.head_congr mirrors.heads] at headB
  obtain ⟨c, column, rfl⟩ := Option.map_eq_some_iff.mp headA
  obtain ⟨d, column', rfl⟩ := Option.map_eq_some_iff.mp headB
  rw [HduData.row_of_column column, HduData.row_of_column column'] at cells
  obtain ⟨low, _, head, asks⟩ := covers
  obtain ⟨low', _, head', asks'⟩ := covers'
  rw [← mirrors.heads] at head' asks'
  cases (head_of_column column).symm.trans head
  cases (head_of_column column').symm.trans head'
  have last' : row ≤ h.nrows := mirrors.nrows ▸ last
  have reads : ∀ {T} {n : Nat}, n ≤ c.elements →
      api.readCol T b row 1 n h = api.readCol T a row 1 n source :=
    fun room => answers.read_col column column' shape cells room first last last'
  cases τ with
  | native | bool =>
    obtain ⟨number, positive, room⟩ := asks
    obtain ⟨number', positive', _⟩ := asks'
    have count : jt.natomic.toNat = it.natomic.toNat := count
    simp only [request, number, number']
    rw [← Int.toNat_of_nonneg positive', count, ← Int.toNat_of_nonneg positive]
    exact reads (by omega)
  | bitset =>
    obtain ⟨number, room⟩ := asks
    have count : jt.buffer.length = it.buffer.length := count
    simp only [request, number, asks'.1, count]
    exact reads room
  | string | strings =>
    obtain ⟨offset, bytes⟩ := asks
    obtain ⟨offset', bytes'⟩ := asks'
    simp only [request, offset, bytes, offset', bytes']
    refine (request_bytes raw mirrors.sized low' column' first last').trans ?_
    rw [cells]
    exact (request_bytes raw sized low column first last).symm

theorem reply_mirrored (raw : RawBytes api) (answers : CellAnswers api)
    (likeness : Likeness api source target names h) (member : name ∈ names) (twin : τ.Twin it jt)
    (covers : Covers source.heads (MisFITS.number api source name) τ it)
    (covers' : Covers target.heads (MisFITS.number api target name) τ jt) (first : 1 ≤ row)
    (last : row ≤ source.nrows) (base : τ.Value S) : ∃ k offset,
      reply S api jt row base h = (reply S api it row base source).map
        (fun x => (τ.reseat x.1 k offset, x.2)) := by
  have asks := request_mirrored raw answers likeness member twin covers covers' first last
  unfold reply
  rw [asks]
  cases run : τ.request api it row source with
  | error status => exact ⟨0, 0, rfl⟩
  | ok data =>
    have whole := request_length raw answers likeness.sized likeness.typed covers first last run
    exact load_twin twin whole

end Target

namespace Table

variable {api : Cfitsio} {w w' : World} {t t' : Nat} {name : String} {a b k : Nat}
  {info info' : ColumnInfo}

theorem Grown.extent_ne_nil (grown : Grown w t) (entry : (w.tables t).columns[k]? = some info) :
    info.extent ≠ [] := by
  obtain ⟨ci, _, _, described, _⟩ := grown.place entry
  obtain ⟨_, _, _, shaped, _⟩ := ColumnInfo.decode_ok described
  intro empty
  rw [empty] at shaped
  unfold ColumnInfo.shape at shaped
  split at shaped
  · obtain ⟨_, _, same⟩ := except_map_ok.mp shaped
    cases same
  · have axes : (ColumnInfo.inserted ci).axes = [] := Except.ok.inj shaped
    unfold ColumnInfo.inserted ColHead.axes at axes
    by_cases deep : ci.extent.squeeze.naxes > 1
    · rw [if_pos deep, Option.getD_some] at axes
      rw [axes] at deep
      exact absurd deep (by decide)
    · rw [if_neg deep] at axes
      cases axes

theorem sameCells_of_common (grown : Grown w t) (grown' : Grown w' t')
    (common : Common api (w.unitOf (.table t)) (w'.unitOf (.table t')) name)
    (found : api.getColnum (w.unitOf (.table t)).names name = .ok a)
    (found' : api.getColnum (w'.unitOf (.table t')).names name = .ok b)
    (entry : (w.tables t).columns[a - 1]? = some info)
    (entry' : (w'.tables t').columns[b - 1]? = some info') : Target.SameCells info info' := by
  obtain ⟨_, _, x, y, foundA, foundB, headA, headB, _, _, shape⟩ := common
  cases found.symm.trans foundA
  cases found'.symm.trans foundB
  obtain ⟨ci, _, head, described, _⟩ := grown.place entry
  obtain ⟨ci', _, head', described', _⟩ := grown'.place entry'
  obtain ⟨c, column, rfl⟩ := Option.map_eq_some_iff.mp headA
  obtain ⟨c', column', rfl⟩ := Option.map_eq_some_iff.mp headB
  have there := head_of_column column
  have there' := head_of_column column'
  rw [← Option.some.inj (there.symm.trans head)] at described
  rw [← Option.some.inj (there'.symm.trans head')] at described'
  exact Target.sameCells_of_decode (grown.wellFormed _ (List.mem_of_getElem? there))
    (grown'.wellFormed _ (List.mem_of_getElem? there')) shape described described'

end Table

namespace Session

variable {api : Cfitsio} {S : DynamicBitset} {source target h : HduData} {names : List String}
  {live : Nat → Nat → Prop} {s s' s₀ t t' t₀ : Session S} {e : Nat}

/-- Two bound columns that go by one name, in two tables, and have one variable. -/
def Paired (api : Cfitsio) (source target : HduData) (names : List String) (entry entry' : Entry) :
    Prop :=
  ∃ (v : Variable) (it jt : v.target.Column) (name : String), name ∈ names ∧ entry = ⟨v, it⟩ ∧
    entry' = ⟨v, jt⟩ ∧ v.target.Twin it jt ∧
      Target.Covers source.heads (number api source name) v.target it ∧
        Target.Covers target.heads (number api target name) v.target jt

theorem EntriesAlike.at (alike : EntriesAlike s s') {v : Variable} {it : v.target.Column}
    (here : s.entries e = ⟨v, it⟩) : ∃ it', v.target.Alike it it' ∧ s'.entries e = ⟨v, it'⟩ := by
  have there := alike e
  rw [here] at there
  exact there

theorem Paired.of_alike {f : Nat}
    (paired : Paired api source target names (s.entries e) (t.entries f))
    (alike : EntriesAlike s s') (alike' : EntriesAlike t t') :
    Paired api source target names (s'.entries e) (t'.entries f) := by
  obtain ⟨v, it, jt, name, member, here, there, twin, covers, covers'⟩ := paired
  obtain ⟨it', same, here'⟩ := alike.at here
  obtain ⟨jt', same', there'⟩ := alike'.at there
  exact ⟨v, it', jt', name, member, here', there', twin.of_alike same same', covers.of_alike same,
    covers'.of_alike same'⟩

theorem Paired.of_heads {source' target' : HduData} {entry entry' : Entry}
    (paired : Paired api source target names entry entry') (heads : source'.heads = source.heads)
    (heads' : target'.heads = target.heads) : Paired api source' target' names entry entry' := by
  unfold Paired number
  rw [heads, heads', HduData.names_congr heads, HduData.names_congr heads']
  exact paired

theorem paired_of_make (lawful : S.Lawful) {w w' : World} {t t' : Nat} {name : String} {a b : Nat}
    {info info' : ColumnInfo} (grown : Table.Grown w t) (grown' : Table.Grown w' t')
    (member : name ∈ names)
    (common : Common api (w.unitOf (.table t)) (w'.unitOf (.table t')) name)
    (found : api.getColnum (w.unitOf (.table t)).names name = .ok a)
    (found' : api.getColnum (w'.unitOf (.table t')).names name = .ok b) (low : 1 ≤ a) (low' : 1 ≤ b)
    (entry : (w.tables t).columns[a - 1]? = some info)
    (entry' : (w'.tables t').columns[b - 1]? = some info') {v : Variable}
    (bits : info.columnType.id = .bit → v.target.bytewise = true)
    {base base' value value' : v.target.Value S} {it jt : v.target.Column}
    (made : v.target.make S info base = .ok it value)
    (made' : v.target.make S info' base' = .ok jt value') :
    Paired api (w.unitOf (.table t)) (w'.unitOf (.table t')) names ⟨v, it⟩ ⟨v, jt⟩ := by
  have same := Table.sameCells_of_common grown grown' common found found' entry entry'
  have bits' : info'.columnType.id = .bit → v.target.bytewise = true :=
    fun bit => bits (same.id.symm.trans bit)
  obtain ⟨base₁, _, roomy, array⟩ := Target.make_roomy made
  obtain ⟨base₂, _, roomy', array'⟩ := Target.make_roomy made'
  obtain ⟨positive, _, _, fits⟩ := Target.make_binds lawful (grown.lies entry) bits array roomy
  have covers := Target.covers_of_make lawful grown entry bits array roomy
  have covers' := Target.covers_of_make lawful grown' entry' bits' array' roomy'
  rw [Nat.sub_add_cancel low, ← number_of_ok found] at covers
  rw [Nat.sub_add_cancel low', ← number_of_ok found'] at covers'
  exact ⟨v, it, jt, name, member, rfl, rfl, Target.twin_of_make lawful same positive fits made made',
    covers, covers'⟩

theorem EntriesAlike.of_load {v : Variable} {it it' : v.target.Column}
    (here : s.entries e = ⟨v, it⟩) {value : v.target.Value S} (alike : v.target.Alike it it') :
    EntriesAlike s (s.store e v it' value) := by
  intro e'
  by_cases same : e' = e
  · subst same
    rw [here]
    exact ⟨it', alike, Function.update_self ..⟩
  · exact ⟨_, .refl _, Function.update_of_ne same ..⟩

structure Along (api : Cfitsio) (source target : HduData) (names : List String)
    (live : Nat → Nat → Prop) (s₀ t₀ s t : Session S) : Prop where
  world : s.world = s₀.world
  world' : t.world = t₀.world
  rows : s.rows = s₀.rows
  rows' : t.rows = t₀.rows
  made : s.made = s₀.made
  made' : t.made = t₀.made
  vars : t.vars = s.vars
  paired : ∀ e f, live e f → Paired api source target names (s.entries e) (t.entries f)

theorem reply_alike (lawful : S.Lawful) {τ : Target} {it it' : τ.Column} {base value : τ.Value S}
    {row : Int} (run : Target.reply S api it row base h = .ok (it', value)) : τ.Alike it it' := by
  unfold Target.reply at run
  split at run
  · exact Target.alike_load lawful run
  · cases run

theorem readEntry_lockstep (lawful : S.Lawful) (raw : RawBytes api) (answers : CellAnswers api)
    (likeness : Likeness api source target names h) {src dest : Nat}
    (here : s₀.world.Current (.table src)) (there : t₀.world.Current (.table dest))
    (unit : s₀.world.unitOf (.table src) = source) (unit' : t₀.world.unitOf (.table dest) = h)
    {row : Int} (first : 1 ≤ row) (last : row ≤ source.nrows) {f : Nat} (seen : live e f) (u : Unit) :
    Lockstep (Along api source target names live s₀ t₀) (Row.readEntry api src row u e)
      (Row.readEntry api dest row u f) := by
  intro s t along
  obtain ⟨v, it, jt, name, member, entry, entry', twin, covers, covers'⟩ := along.paired e f seen
  rw [readEntry_here (along.world ▸ here) entry, readEntry_here (along.world' ▸ there) entry',
    along.world, along.world', unit, unit', along.vars]
  dsimp only
  obtain ⟨k, offset, same⟩ := Target.reply_mirrored raw answers likeness member twin covers covers'
    first last (s.vars v)
  cases run : Target.reply S api it row (s.vars v) source with
  | error thrown =>
    rw [run] at same
    rw [same]
    exact ⟨rfl, along⟩
  | ok taken =>
    obtain ⟨it', value⟩ := taken
    rw [run] at same
    have alike := reply_alike lawful run
    have alike' : v.target.Alike jt (v.target.reseat it' k offset) := reply_alike lawful same
    rw [same]
    refine ⟨rfl, { along with vars := ?_, paired := fun e f seen => ?_ }⟩
    · change Function.update t.vars v value = Function.update s.vars v value
      rw [along.vars]
    · exact (along.paired e f seen).of_alike (.of_load entry alike) (.of_load entry' alike')

end Session

namespace Row
open Session

variable {api : Cfitsio} {S : DynamicBitset} {source target h : HduData} {names : List String}
  {pairs : List (Nat × Nat)} {s s₁ s₂ t : Session S} {p q : Nat}

/-- A cursor at a row of a table, and another one at that row of its copy, with columns
that are bound alike. -/
structure SideBySide (api : Cfitsio) (source target h : HduData) (names : List String)
    (pairs : List (Nat × Nat)) (p q : Nat) (s t : Session S) : Prop where
  own : s.world.Attached (.table (s.rows p).table)
  own' : t.world.Attached (.table (t.rows q).table)
  unit : s.world.unitOf (.table (s.rows p).table) = source
  unit' : t.world.unitOf (.table (t.rows q).table) = h
  entries : (s.rows p).entries = pairs.map Prod.fst
  entries' : (t.rows q).entries = pairs.map Prod.snd
  auto : (t.rows q).autoAdvance = (s.rows p).autoAdvance
  idx : (t.rows q).idx = (s.rows p).idx
  first : 1 ≤ (s.rows p).idx
  vars : t.vars = s.vars
  paired : ∀ x ∈ pairs, Paired api source target names (s.entries x.1) (t.entries x.2)

theorem SideBySide.onto (side : SideBySide api source target h names pairs p q s t) :
    SideBySide api source target h names pairs p q (onto s p) (onto t q) :=
  { side with
    own := World.attached_onto.mpr side.own
    own' := World.attached_onto.mpr side.own'
    unit := World.unitOf_onto.trans side.unit
    unit' := World.unitOf_onto.trans side.unit' }

theorem SideBySide.along {s' t' : Session S}
    (side : SideBySide api source target h names pairs p q s t)
    (along : Along api source target names (fun e f => (e, f) ∈ pairs) s t s' t') :
    SideBySide api source target h names pairs p q s' t' := by
  obtain ⟨world, world', rows, rows', _, _, vars, paired⟩ := along
  constructor
  case vars => exact vars
  case paired => exact fun x => paired x.1 x.2
  all_goals simp only [world, world', rows, rows']
  exacts [side.own, side.own', side.unit, side.unit', side.entries, side.entries', side.auto,
    side.idx, side.first]

theorem SideBySide.setRow (side : SideBySide api source target h names pairs p q s t) {i : Int}
    (first : 1 ≤ i) : SideBySide api source target h names pairs p q
      (s.setRow p { s.rows p with idx := i }) (t.setRow q { t.rows q with idx := i }) := by
  have row : (s.setRow p { s.rows p with idx := i }).rows p = { s.rows p with idx := i } :=
    Function.update_self ..
  have row' : (t.setRow q { t.rows q with idx := i }).rows q = { t.rows q with idx := i } :=
    Function.update_self ..
  constructor
  case vars => exact side.vars
  case paired => exact side.paired
  all_goals simp only [row, row']
  exacts [side.own, side.own', side.unit, side.unit', side.entries, side.entries', side.auto, first]

theorem SideBySide.advanced (side : SideBySide api source target h names pairs p q s t) :
    SideBySide api source target h names pairs p q (s.setRow p (next (s.rows p)))
      (t.setRow q (next (t.rows q))) := by
  have still : ∀ (u : Session S) (r : Nat), u.setRow r (u.rows r) = u := by
    intro u r
    rw [Session.setRow, Function.update_eq_self]
  have first := side.first
  unfold next
  by_cases auto : (s.rows p).autoAdvance = true
  · rw [if_pos auto, if_pos (side.auto.trans auto), side.idx]
    exact side.setRow (by omega)
  · rw [if_neg auto, if_neg (side.auto ▸ auto), still, still]
    exact side

def Beyond (api : Cfitsio) (source target : HduData) (names : List String)
    (live : Nat → Nat → Prop) (p q : Nat) (s t s' t' : Session S) : Prop :=
  ∃ s₁ t₁, Along api source target names live (onto s p) (onto t q) s₁ t₁ ∧
    ((s' = s₁ ∧ t' = t₁) ∨
      (s' = s₁.setRow p (next (s.rows p)) ∧ t' = t₁.setRow q (next (t.rows q))))

theorem read_matches (doc : Documented api) (lawful : S.Lawful) (raw : RawBytes api)
    (answers : CellAnswers api) (likeness : Likeness api source target names h)
    {live : Nat → Nat → Prop} (nonempty : pairs ≠ [])
    (own : s.world.Attached (.table (s.rows p).table))
    (own' : t.world.Attached (.table (t.rows q).table))
    (unit : s.world.unitOf (.table (s.rows p).table) = source)
    (unit' : t.world.unitOf (.table (t.rows q).table) = h)
    (entries : (s.rows p).entries = pairs.map Prod.fst)
    (entries' : (t.rows q).entries = pairs.map Prod.snd) (idx : (t.rows q).idx = (s.rows p).idx)
    (first : 1 ≤ (s.rows p).idx) (vars : t.vars = s.vars)
    (paired : ∀ e f, live e f → Paired api source target names (s.entries e) (t.entries f))
    (bound : ∀ x ∈ pairs, live x.1 x.2) :
    Matches (Beyond api source target names live p q s t) (read api p s) (read api q t) := by
  have any : (s.rows p).entries ≠ [] := by
    rw [entries]
    simpa using nonempty
  have any' : (t.rows q).entries ≠ [] := by
    rw [entries']
    simpa using nonempty
  have start : Along api source target names live (onto s p) (onto t q) (onto s p) (onto t q) :=
    ⟨rfl, rfl, rfl, rfl, rfl, rfl, vars, paired⟩
  rw [read_eq doc any own, read_eq doc any' own', idx, unit, unit', likeness.mirrors.nrows]
  split
  · exact ⟨rfl, _, _, start, .inl ⟨rfl, rfl⟩⟩
  · rename_i inside
    rw [entries, entries']
    have loop := Lockstep.loop (fun x member u => readEntry_lockstep lawful raw answers likeness
      World.current_of_onto World.current_of_onto (World.unitOf_onto.trans unit)
      (World.unitOf_onto.trans unit') first (Int.not_lt.mp inside) (bound x member) u) () _ _ start
    refine loop.bind (fun s₁ t₁ along => ⟨s₁, t₁, along, .inl ⟨rfl, rfl⟩⟩) (fun _ s₁ t₁ along => ?_)
    rw [bind_of_ok advanceAuto_eq, bind_of_ok advanceAuto_eq]
    refine ⟨rfl, s₁, t₁, along, .inr ⟨?_, ?_⟩⟩
    · rw [along.rows]
      rfl
    · rw [along.rows']
      rfl

end Row

namespace Reference

def flushCalls : FlushCalls where
  flushFile h := .ok () (FlushMode.file.flushed h)
  flushBuffer _ h := .ok () (FlushMode.buffer.flushed h)

theorem elements_le_rowBytes {c : ColHead} (sized : 0 < elemSize c.typecode) :
    c.elements ≤ c.rowBytes := by
  unfold ColHead.elements ColHead.rowBytes
  cases code : c.typecode <;> rw [code] at sized <;> simp only [elemSize] at sized ⊢ <;>
    simp <;> omega

theorem cellAnswers_raw : CellAnswers rawApi where
  blank _ := List.length_replicate
  read_col {T j k row h h' c c' n} here there _ cells _ low high high' := by
    cases T with
    | byte =>
      change readCol .byte k row 1 n h' = readCol .byte j row 1 n h
      rw [readCol_byte low high, readCol_byte low high', HduData.cell, HduData.cell, here, there,
        Option.map_some, Option.map_some, cells]
    | _ => rfl
  read_whole {T k row h c data n} sized column known room run := by
    cases T with
    | byte =>
      change readCol .byte k row 1 n h = .ok data at run
      by_cases inside : 1 ≤ row ∧ row ≤ h.nrows
      · rw [readCol_byte inside.1 inside.2, HduData.cell, column] at run
        cases run
        have member := List.mem_of_getElem? (HduData.column_iff.mp column).2
        have whole := sized row inside.1 inside.2 c member
        have most := elements_le_rowBytes known
        rw [List.length_take, whole, Int.toNat_natCast]
        omega
      · rw [readCol, if_neg (fun fits => inside ⟨fits.1, fits.2.1⟩)] at run
        cases run
    | _ => cases run

end Reference

section Copied
open Table Session Row

def threeWritten : Session listBitset := after (Row.writeAll Reference.rawApi 0 threeRecords twinsBound)

def mirrored : World :=
  after ((Table.flush Reference.flushCalls .file 0 >>= fun _ =>
    Table.flush Reference.flushCalls .file 1 >>= fun _ =>
      copyColumns Reference.rawApi .destLast 0 1 ["A"]
        (ColumnCopy.overWrite ||| ColumnCopy.extendTable)) threeWritten.world)

end Copied
end MisFITS
