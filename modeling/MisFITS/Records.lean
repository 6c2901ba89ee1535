import MisFITS.Attempts
import MisFITS.CellStore
import MisFITS.Kept
import MisFITS.TextRows
import MisFITS.UnflushedRows

/-! Rows that are written and read through any cursors, in any order: what is read is
what was written last. -/
namespace MisFITS
open ColumnType Program HDU RowEntry Run

structure ColumnInfo.Lies (heads : List ColHead) (info : ColumnInfo) : Prop where
  low : 1 ≤ info.colnum
  head : ∃ head, heads[info.colnum - 1]? = some head ∧ head.typecode = info.columnType.id ∧
    info.extent.nelem ≤ head.reps
  count : 0 < info.extent.nelem
  cells : ∃ width, info.nbytes = ColumnInfo.cellBytes info.columnType info.extent.nelem width
  first : 1 ≤ info.offset
  inside : (info.offset - 1).toNat + info.nbytes.toNat ≤ (heads.map ColHead.rowBytes).sum

theorem ColumnInfo.Lies.text {heads : List ColHead} {info : ColumnInfo} (lies : info.Lies heads)
    (text : info.columnType.id = .string) : info.nbytes = info.extent.nelem := by
  obtain ⟨width, cells⟩ := lies.cells
  rw [cells, ColumnInfo.cellBytes, if_neg (by rw [text]; decide), if_pos text, Int.mul_one]

theorem ColumnInfo.nelem_decode {c : ColHead} {k : Nat} {offset : Int} {info : ColumnInfo}
    (well : c.WellFormed) (splits : c.Splits)
    (described : ColumnInfo.decode c k offset = .ok info) : info.extent.nelem = c.reps := by
  have shaped := (ColumnInfo.decode_ok described).2.2.2.1
  unfold ColumnInfo.shape at shaped
  split at shaped
  · rename_i one
    obtain ⟨nonzero, whole⟩ := splits one.1 one.2
    obtain ⟨count, divided, same⟩ := except_map_ok.mp shaped
    simp only [divide, if_neg nonzero, Except.ok.injEq] at divided
    rw [← same, ← divided, ColumnInfo.nelem_strings (ColumnInfo.width_nonneg well one.1 one.2) nonzero
      well.small, Int.mul_tdiv_cancel' whole]
  · rw [← Except.ok.inj shaped, ColHead.nelem_axes well]

theorem Table.Grown.lies {w : World} {t : Nat} (grown : Table.Grown w t) {k : Nat}
    {info : ColumnInfo} (entry : (w.tables t).columns[k]? = some info) :
    info.Lies (w.unitOf (.table t)).heads := by
  obtain ⟨ci, sizes, head, described, offset, nbytes⟩ := grown.place entry
  obtain ⟨well, splits⟩ := grown.wellFormed _ (List.mem_of_getElem? head)
  obtain ⟨_, _, type, _, number, _, cells⟩ := ColumnInfo.decode_ok described
  have nelem := ColumnInfo.nelem_decode well splits described
  have positive : 1 ≤ (ColumnInfo.inserted ci).reps := ColumnInfo.count_pos ci.extent
  have place : info.colnum - 1 = k := by omega
  have size : (w.unitOf (.table t)).sizes[k]? = .some (ColumnInfo.inserted ci).rowBytes := by
    rw [HduData.sizes, List.getElem?_map, head]
    rfl
  constructor
  · omega
  · exact ⟨_, by rw [place]; exact head, type.symm, nelem.le⟩
  · omega
  · exact ⟨_, cells⟩
  · omega
  · have inside := Slices.start_add_le_sum size
    change _ ≤ (w.unitOf (.table t)).sizes.sum
    omega

def ColumnInfo.Holds (info : ColumnInfo) (n : Int) : Prop :=
  n ≤ if info.columnType.id = .bit then (info.extent.nelem + 7) / 8 else info.extent.nelem

theorem ColumnInfo.Lies.elements {heads : List ColHead} {info : ColumnInfo} (lies : info.Lies heads)
    {n : Int} (holds : info.Holds n) :
    ∃ head, heads[info.colnum - 1]? = some head ∧ n.toNat ≤ head.elements := by
  obtain ⟨head, there, type, reps⟩ := lies.head
  have count := lies.count
  refine ⟨head, there, ?_⟩
  unfold ColumnInfo.Holds at holds
  unfold ColHead.elements
  rw [type]
  split at holds <;> rename_i bit
  · rw [if_pos bit]
    omega
  · rw [if_neg bit]
    omega

namespace Target

def bytewise : Target → Bool
  | .native T _ => T = .byte
  | .bool _ => false
  | .bitset | .string | .strings => true

def Lies (heads : List ColHead) : (τ : Target) → τ.Column → Prop
  | .native _ _, it => 1 ≤ it.colnum ∧
    ∃ head, heads[it.colnum - 1]? = some head ∧ it.natomic.toNat ≤ head.elements
  | .bool _, it => 1 ≤ it.colnum ∧
    ∃ head, heads[it.colnum - 1]? = some head ∧ it.natomic.toNat ≤ head.elements
  | .bitset, it => it.natomic = it.buffer.length ∧ 1 ≤ it.colnum ∧
    ∃ head, heads[it.colnum - 1]? = some head ∧ it.natomic.toNat ≤ head.elements
  | .string, it => 1 ≤ it.offset ∧
    (it.offset - 1).toNat + it.natomic.toNat ≤ (heads.map ColHead.rowBytes).sum
  | .strings, it => 1 ≤ it.offset ∧
    (it.offset - 1).toNat + it.natomic.toNat ≤ (heads.map ColHead.rowBytes).sum

variable {S : DynamicBitset} {τ : Target} {it it' jt : τ.Column} {base : τ.Value S}
  {heads : List ColHead} {row : Int} {data : List τ.storage.Native} {api : Cfitsio} {h : HduData}

theorem Alike.lies (alike : τ.Alike it jt) (lies : τ.Lies heads it) : τ.Lies heads jt := by
  obtain ⟨buffer, length, rfl⟩ := alike
  cases τ with
  | bitset => exact ⟨lies.1.trans (congrArg Nat.cast length.symm), lies.2⟩
  | native | bool | string | strings => exact lies

/-- What a bound column writes stays in its part of the row. -/
theorem inside_cell (lies : τ.Lies heads it) (low : 1 ≤ row) (positive : 0 < τ.natomic it)
    (whole : data.length = (τ.natomic it).toNat) : (τ.cell it row data).Inside heads := by
  have full : data ≠ [] := by
    rintro rfl
    rw [List.length_nil] at whole
    omega
  cases τ with
  | native | bool =>
    obtain ⟨one, head, there, room⟩ := lies
    exact ⟨low, full, one, head, there, whole ▸ room⟩
  | bitset =>
    obtain ⟨_, one, head, there, room⟩ := lies
    exact ⟨low, full, one, head, there, whole ▸ room⟩
  | string | strings =>
    refine ⟨low, full, lies.1, ?_⟩
    rw [whole]
    exact lies.2

theorem row_cell : (τ.cell it row data).row = row := by cases τ <;> rfl

theorem Lies.count (lies : τ.Lies heads it) : τ.count it = (τ.natomic it).toNat := by
  cases τ with
  | bitset =>
    have buffer : it.natomic = it.buffer.length := lies.1
    exact (Int.toNat_natCast _).symm.trans (congrArg Int.toNat buffer.symm)
  | native | bool | string | strings => rfl

theorem request_of_reads (lies : τ.Lies heads it) (positive : 0 < τ.natomic it)
    (whole : data.length = (τ.natomic it).toNat) (reads : (τ.cell it row data).Reads api h) :
    row ≤ h.nrows ∧ τ.request api it row h = .ok data ∧ data.length = τ.count it := by
  have count : (data.length : Int) = τ.natomic it := by omega
  cases τ with
  | native | bool | string | strings =>
    obtain ⟨last, answer⟩ := reads
    rw [count] at answer
    exact ⟨last, answer, whole⟩
  | bitset =>
    obtain ⟨last, answer⟩ := reads
    have buffer : data.length = it.buffer.length := Int.ofNat.inj (count.trans lies.1)
    rw [buffer] at answer
    exact ⟨last, answer, buffer⟩

theorem init_pos (T : StorageType) {info : ColumnInfo} (count : 0 < info.extent.nelem) :
    0 < (RowEntry.Column.init T info).natomic := by
  have floor := Int.tdiv_eq_ediv_of_nonneg (b := 8) (Int.le_of_lt count)
  unfold RowEntry.Column.init ColumnBase.ofInfo
  dsimp only
  split
  · dsimp only
    split <;> omega
  · exact count

theorem init_colnum (T : StorageType) (info : ColumnInfo) :
    (RowEntry.Column.init T info).colnum = info.colnum := by
  unfold RowEntry.Column.init
  dsimp only
  split <;> rfl

theorem init_holds {T : StorageType} {info : ColumnInfo} (count : 0 < info.extent.nelem)
    (bits : info.columnType.id = .bit → T = .byte) :
    info.Holds (RowEntry.Column.init T info).natomic := by
  have floor := Int.tdiv_eq_ediv_of_nonneg (b := 8) (Int.le_of_lt count)
  unfold RowEntry.Column.init ColumnBase.ofInfo ColumnInfo.Holds
  dsimp only
  split
  · rename_i bytes
    rw [if_pos bytes.2]
    dsimp only
    split <;> omega
  · rename_i plain
    rw [if_neg (fun bit => plain ⟨bits bit, bit⟩)]

theorem make_bitset_binds (lawful : S.Lawful) {info : ColumnInfo} {it : BitSetColumn}
    {base base' : S.Bits} (count : 0 < info.extent.nelem)
    (run : BitSetColumn.make S info base = .ok it base') :
    0 < it.natomic ∧ it.natomic = it.buffer.length ∧ it.colnum = info.colnum ∧
      info.Holds it.natomic ∧ (S.size base' : Int) = info.extent.nelem := by
  have bounds := toInt_bounds info.extent.prod
  rw [← Extent.nelem_eq] at bounds
  have kept : (S.size (S.resize base (toSize info.extent.nelem)) : Int) = info.extent.nelem := by
    rw [lawful.size_resize]
    unfold toSize
    omega
  by_cases bit : info.columnType.id = .bit
  · rw [BitSetColumn.make_bit bit] at run
    cases run
    have blocks := lawful.blocks_length (S.resize base (toSize info.extent.nelem))
    refine ⟨?_, ?_, rfl, ?_, kept⟩
    · change (0 : Int) < (S.blocks (S.resize base (toSize info.extent.nelem))).length
      omega
    · dsimp only
      rw [List.length_replicate, toSize_natCast (by omega)]
    · unfold ColumnInfo.Holds
      rw [if_pos bit]
      dsimp only
      omega
  · obtain ⟨_, same, buffer, rfl⟩ := BitSetColumn.make_logical bit run
    have natomic : it.natomic = info.extent.nelem := congrArg ColumnBase.natomic same
    have colnum : it.colnum = info.colnum := congrArg ColumnBase.colnum same
    refine ⟨natomic ▸ count, ?_, colnum, ?_, kept⟩
    · rw [natomic, buffer, List.length_replicate]
      unfold toSize
      omega
    · unfold ColumnInfo.Holds
      rw [if_neg bit, natomic]

theorem make_binds (lawful : S.Lawful) {info : ColumnInfo} {base' : τ.Value S}
    (lies : info.Lies heads) (bits : info.columnType.id = .bit → τ.bytewise = true)
    (array : τ.pointer = true → τ.cellCount info ≤ τ.room S base)
    (run : τ.make S info base = .ok it base') :
    0 < τ.natomic it ∧ τ.Lies heads it ∧ τ.Ready it (τ.room S base') ∧
      τ.Fits it (τ.room S base') := by
  obtain ⟨width, cells⟩ := lies.cells
  have count := lies.count
  have fits := make_fits lawful (Int.le_of_lt count) cells array run
  have ready : KeptLength info τ (τ.room S base') → τ.Ready it (τ.room S base') := fun kept =>
    ready_make lawful lies.text kept run
  cases τ with
  | native T vector =>
    obtain rfl : it = RowEntry.Column.init T info := sized_make run
    have number := init_colnum T info
    have holds := init_holds count (T := T) (fun bit => of_decide_eq_true (bits bit))
    refine ⟨init_pos T count, ⟨?_, ?_⟩, ready trivial, fits⟩ <;> rw [number]
    exacts [lies.low, lies.elements holds]
  | bool vector =>
    have number : it.colnum = info.colnum := by cases vector <;> cases run <;> rfl
    have sized := sized_make run
    have holds : info.Holds it.natomic := by
      unfold ColumnInfo.Holds
      rw [if_neg (fun bit => Bool.false_ne_true (bits bit)), sized.1]
    refine ⟨?_, ⟨?_, ?_⟩, ready trivial, fits⟩
    · exact count.trans_eq sized.1.symm
    all_goals rw [number]
    exacts [lies.low, lies.elements holds]
  | bitset =>
    obtain ⟨positive, buffer, number, holds, kept⟩ := make_bitset_binds lawful count run
    refine ⟨positive, ⟨buffer, ?_, ?_⟩, ready kept, fits⟩ <;> rw [number]
    exacts [lies.low, lies.elements holds]
  | string =>
    obtain ⟨text, run⟩ := check_ok.mp run
    obtain ⟨_, _, _, run⟩ := bind_ok.mp run
    cases run
    refine ⟨?_, ⟨lies.first, lies.inside⟩, ready trivial, fits⟩
    exact count.trans_eq (lies.text (not_not.mp text)).symm
  | strings =>
    obtain ⟨natomic, _, width, _, string⟩ := sized_make run
    obtain ⟨n, found, run⟩ := ofExcept_bind_ok.mp run
    obtain ⟨_, run⟩ := check_ok.mp run
    obtain ⟨_, run⟩ := check_ok.mp run
    obtain ⟨_, _, sets, run⟩ := bind_ok.mp run
    cases modify_ok.mp sets
    cases run
    refine ⟨?_, ⟨lies.first, lies.inside⟩, ready ⟨Int.le_of_lt count, ?_⟩, fits⟩
    · exact count.trans_eq (lies.text string).symm
    · have width : n = toSize (info.extent.headD 0) := width
      rw [room, resizeTo_length, width]
      rfl

end Target

namespace World

def unitAt (w : World) (p : Nat × Int) : HduData := (w.files p.1).units p.2

def placeOf (w : World) (o : Obj) : Nat × Int := ((w.base o).file, (w.base o).hduNum)

variable {w w' : World} {o : Obj} {h : HduData} {p : Nat × Int}

theorem unitAt_placeOf : w.unitAt (w.placeOf o) = w.unitOf o := rfl

theorem unitAt_put : (w.put o h).unitAt p = if p = w.placeOf o then h else w.unitAt p := by
  obtain ⟨f, n⟩ := p
  unfold unitAt put placeOf
  split
  · rename_i here
    cases here
    exact unit_putUnit
  · rename_i other
    refine (unit_putUnit_ne ?_).trans (congrFun units_setChdu n)
    rintro rfl rfl
    exact other rfl

theorem Moved.unitAt (moved : w.Moved w') : w'.unitAt p = w.unitAt p :=
  congrFun (moved.units p.1) p.2

theorem sameHeads_put (heads : h.heads = (w.unitOf o).heads) : w.SameHeads (w.put o h) where
  hdus := rfl
  tables := rfl
  heads f n := by
    change ((w.put o h).unitAt (f, n)).heads = _
    rw [unitAt_put]
    split
    · rename_i here
      rw [heads, ← unitAt_placeOf, ← here]
      rfl
    · rfl

end World

/-- The cells of all tables as a store of what calls have handed over. What a column
cannot hold is not expected back. -/
def cellFacts (api : Cfitsio) (holding : Holding) (w₀ : World) :
    Facts.Store World ((Nat × Int) × CellWrite) where
  holds f w := f.2.Inside (w₀.unitAt f.1).heads ∧
    (f.2.Held holding (w₀.unitAt f.1).heads → f.2.Reads api (w.unitAt f.1))
  apart f g := f.1 ≠ g.1 ∨ f.2.Apart (w₀.unitAt f.1).heads g.2

section CellFacts

variable {api : Cfitsio} {holding : Holding} {w₀ w : World} {o : Obj} {h : HduData} {c : CellWrite}

theorem writes_put (doc : Documented api) (raw : RawBytes api) (typed : TypedCells api holding)
    (heads : (w₀.unitAt (w.placeOf o)).heads = (w.unitOf o).heads) (sized : (w.unitOf o).Sized)
    (inside : c.Inside (w.unitOf o).heads) (run : c.call api (w.unitOf o) = .ok () h) :
    Facts.Writes (cellFacts api holding w₀) (w.placeOf o, c) w (w.put o h) := by
  constructor
  · refine ⟨heads ▸ inside, fun held => ?_⟩
    rw [World.unitAt_put, if_pos rfl]
    exact CellWrite.reads_back raw typed inside (heads ▸ held) run
  · rintro ⟨p, d⟩ apart ⟨within, reads⟩
    refine ⟨within, fun held => ?_⟩
    have answer : d.Reads api (w.unitAt p) := reads held
    change d.Reads api ((w.put o h).unitAt p)
    rw [World.unitAt_put]
    split
    · rename_i here
      subst here
      have parts : c.Apart (w.unitOf o).heads d := heads ▸ apart.resolve_left (fun ne => ne rfl)
      have changed := CellWrite.changed doc raw typed sized inside run
      exact changed.reads raw typed sized parts (heads ▸ within) answer
    · exact answer

theorem known_moved {K : Set ((Nat × Int) × CellWrite)} {w' : World} (moved : w.Moved w')
    (known : Facts.Known (cellFacts api holding w₀) K w) :
    Facts.Known (cellFacts api holding w₀) K w' := by
  intro f member
  obtain ⟨inside, reads⟩ := known f member
  refine ⟨inside, fun held => ?_⟩
  rw [moved.unitAt]
  exact reads held

end CellFacts

namespace World

variable {w w' : World} {o : Obj} {h : HduData}

theorem sized_put {p : Obj} (sized : h.Sized) (before : (w.unitOf p).Sized) :
    ((w.put o h).unitOf p).Sized := by
  rw [← unitAt_placeOf, placeOf, base_put, ← placeOf, unitAt_put]
  split
  · exact sized
  · exact before

end World

namespace Session

variable {api : Cfitsio} {S : DynamicBitset} {s s' : Session S}

structure Made (heads : List ColHead) (s : Session S) (e : Nat) : Prop where
  ready : s.Ready e
  fits : s.Fits e
  positive : 0 < (s.entries e).var.target.natomic (s.entries e).column
  lies : (s.entries e).var.target.Lies heads (s.entries e).column

/-- A table whose rows have their sizes and whose descriptors tell where the cells are. -/
structure Grounded (w : World) (t : Nat) : Prop where
  attached : w.Attached (.table t)
  sized : (w.unitOf (.table t)).Sized
  described : ∀ info ∈ (w.tables t).columns, info.Lies (w.unitOf (.table t)).heads

theorem Grounded.of_grown {w : World} {t : Nat} (own : w.Attached (.table t))
    (grown : Table.Grown w t) : Grounded w t where
  attached := own
  sized := grown.sized
  described info member := by
    obtain ⟨k, entry⟩ := List.mem_iff_getElem?.mp member
    exact grown.lies entry

/-- The cursors stand on tables, and have columns that were made for these. -/
structure Usable (s : Session S) : Prop where
  ground : ∀ r, Grounded s.world (s.rows r).table
  columns : ∀ r, ∀ e ∈ (s.rows r).entries,
    Made (s.world.unitOf (.table (s.rows r).table)).heads s e
  below : ∀ r, ∀ e ∈ (s.rows r).entries, e < s.made
  nodup : ∀ r, (s.rows r).entries.Nodup

structure Alike (s s' : Session S) : Prop where
  rooms : ∀ v : Variable, v.target.room S (s'.vars v) = v.target.room S (s.vars v)
  entries : EntriesAlike s s'
  made : s'.made = s.made

theorem Alike.refl (s : Session S) : Alike s s := ⟨fun _ => rfl, .refl s, rfl⟩

theorem Alike.onto {r : Nat} : Alike s (Row.onto s r) :=
  ⟨fun _ => rfl, fun _ => ⟨_, .refl _, rfl⟩, rfl⟩

theorem Alike.trans {s'' : Session S} (h : Alike s s') (h' : Alike s' s'') : Alike s s'' where
  rooms v := (h'.rooms v).trans (h.rooms v)
  entries e := by
    obtain ⟨column, alike, same⟩ := h.entries e
    have more := h'.entries e
    rw [same] at more
    obtain ⟨column', alike', same'⟩ := more
    exact ⟨column', alike.trans alike', same'⟩
  made := h'.made.trans h.made

theorem Alike.store {e : Nat} {column : (s.entries e).var.target.Column}
    {value : (s.entries e).var.target.Value S}
    (alike : (s.entries e).var.target.Alike (s.entries e).column column)
    (room : (s.entries e).var.target.room S value =
      (s.entries e).var.target.room S (s.vars (s.entries e).var)) :
    Alike s (s.store e (s.entries e).var column value) where
  rooms := room_store room
  entries := (EntriesAlike.refl s).store value alike
  made := rfl

theorem Alike.var (alike : Alike s s') (e : Nat) : (s'.entries e).var = (s.entries e).var := by
  obtain ⟨column, _, entry⟩ := alike.entries e
  rw [entry]

theorem Made.of_alike {heads : List ColHead} {e : Nat} (made : Made heads s e)
    (alike : Alike s s') : Made heads s' e := by
  obtain ⟨column, same, entry⟩ := alike.entries e
  have room := alike.rooms (s.entries e).var
  constructor
  · unfold Session.Ready
    rw [entry, room]
    exact same.ready made.ready
  · unfold Session.Fits
    rw [entry, room]
    exact same.fits made.fits
  · rw [entry, same.natomic]
    exact made.positive
  · rw [entry]
    exact same.lies made.lies

theorem Grounded.moved {w w' : World} {t : Nat} (moved : w.Moved w') (ground : Grounded w t) :
    Grounded w' t where
  attached := by
    unfold World.Attached
    rw [moved.base, moved.numHdus]
    exact ground.attached
  sized := by
    rw [moved.unitOf]
    exact ground.sized
  described := by
    rw [moved.tables, moved.unitOf]
    exact ground.described

theorem Grounded.put {w : World} {t : Nat} {o : Obj} {h : HduData} (ground : Grounded w t)
    (heads : h.heads = (w.unitOf o).heads) (sized : h.Sized) : Grounded (w.put o h) t where
  attached := World.attached_put.mpr ground.attached
  sized := World.sized_put sized ground.sized
  described := by
    rw [(World.sameHeads_put heads).unitOf]
    exact ground.described

theorem Usable.step (usable : Usable s) (alike : Alike s s') (same : s.world.SameHeads s'.world)
    (ground : ∀ t, Grounded s.world t → Grounded s'.world t)
    (rows : ∀ q, ∃ p,
      (s'.rows q).table = (s.rows p).table ∧ (s'.rows q).entries = (s.rows p).entries) :
    Usable s' := by
  constructor <;> intro q <;> obtain ⟨p, table, entries⟩ := rows q
  · rw [table]
    exact ground _ (usable.ground p)
  · intro e member
    rw [table, same.unitOf]
    exact (usable.columns p e (entries ▸ member)).of_alike alike
  · intro e member
    rw [alike.made]
    exact usable.below p e (entries ▸ member)
  · rw [entries]
    exact usable.nodup p

end Session

abbrev Record (S : DynamicBitset) := (v : Variable) → v.target.Value S

def Entry.handed {S : DynamicBitset} (place : Nat × Int) (row : Int) (entry : Entry)
    (record : Record S) : Option ((Nat × Int) × CellWrite) :=
  (entry.var.target.store S entry.column (record entry.var)).toOption.map fun stored =>
    (place, entry.var.target.cell entry.column row stored.2)

namespace Row
open Session

section Writing

variable {api : Cfitsio} {holding : Holding} {S : DynamicBitset} {w₀ : World} {s s₁ s₂ s' : Session S}
  {r e t : Nat} {row : Int} {done : List Nat} {u u' : Unit}

def handed (t : Nat) (row : Int) (s : Session S) (e : Nat) : Option ((Nat × Int) × CellWrite) :=
  (s.entries e).handed (s.world.placeOf (.table t)) row s.vars

theorem handed_of_store {column : (s.entries e).var.target.Column}
    {data : List (s.entries e).var.target.storage.Native}
    (stores : (s.entries e).var.target.store S (s.entries e).column (s.vars (s.entries e).var) =
      .ok (column, data)) :
    handed t row s e = some (s.world.placeOf (.table t),
      (s.entries e).var.target.cell (s.entries e).column row data) := by
  unfold handed Entry.handed
  rw [stores]
  rfl

/-- What a cursor hands over, in the order of its columns. -/
def handedOver (r : Nat) (s : Session S) : List ((Nat × Int) × CellWrite) :=
  (s.rows r).entries.filterMap (handed (s.rows r).table (s.rows r).idx s)

structure Recorded (api : Cfitsio) (holding : Holding) (w₀ : World) (t : Nat) (row : Int)
    (s : Session S) (done : List Nat) (s' : Session S) : Prop where
  alike : Alike s s'
  vars : s'.vars = s.vars
  rows : s'.rows = s.rows
  stores : ∀ e ∈ done, ∃ stored, (s.entries e).var.target.store S (s.entries e).column
    (s.vars (s.entries e).var) = .ok stored
  world : ∃ h, s'.world = s.world.put (.table t) h ∧ h.heads = (s.world.unitOf (.table t)).heads ∧
    h.Sized ∧ h.nrows ≤ max (s.world.unitOf (.table t)).nrows row
  known : ∀ K, Facts.Known (cellFacts api holding w₀) K s.world →
    Facts.Known (cellFacts api holding w₀)
      (Facts.writes (cellFacts api holding w₀) K (done.filterMap (handed t row s))) s'.world

theorem Recorded.start (here : s.world.Current (.table t))
    (sized : (s.world.unitOf (.table t)).Sized) : Recorded api holding w₀ t row s [] s where
  alike := .refl s
  vars := rfl
  rows := rfl
  stores _ member := nomatch member
  world := ⟨_, by rw [World.put_unitOf, World.onto_of_current here], rfl, sized, Int.le_max_left _ _⟩
  known _ known := known

theorem Recorded.step (doc : MisFITS.Documented api) (raw : RawBytes api)
    (typed : TypedCells api holding) (lawful : S.Lawful)
    (heads : (w₀.unitAt (s.world.placeOf (.table t))).heads = (s.world.unitOf (.table t)).heads)
    (first : 1 ≤ row) (made : Made (s.world.unitOf (.table t)).heads s e)
    (recorded : Recorded api holding w₀ t row s done s₁)
    (run : writeEntry api t row u e s₁ = .ok u' s₂) :
    Recorded api holding w₀ t row s (done ++ [e]) s₂ := by
  obtain ⟨h, world, same, sized, nrows⟩ := recorded.world
  obtain ⟨column, alike, entry⟩ := recorded.alike.entries e
  have written : writeEntryBy api none t row e (s₁.entries e) s₁ = .ok u' s₂ := run
  rw [entry, writeEntryBy_ok] at written
  obtain ⟨column', data, w', stores, edits, rfl⟩ := written
  rw [congrFun recorded.vars] at stores
  obtain ⟨_, stored⟩ := Target.store_alike lawful made.ready alike stores
  have here : s₁.world.Current (.table t) := by
    rw [world]
    exact World.current_of_put
  obtain ⟨h', call, rfl⟩ := Table.edit_here here edits
  have unit : s₁.world.unitOf (.table t) = h := by rw [world, World.unitOf_put]
  have place : s₁.world.placeOf (.table t) = s.world.placeOf (.table t) := by
    rw [world, World.placeOf, World.base_put]
    rfl
  have inside := Target.inside_cell made.lies first made.positive
    (Target.store_length made.positive made.ready made.fits stored)
  rw [alike.cell] at call
  rw [← same, ← unit] at inside heads
  rw [← place] at heads
  have changed := CellWrite.changed doc raw typed (unit.symm ▸ sized) inside call
  have fact : handed t row s e = some (s₁.world.placeOf (.table t),
      (s.entries e).var.target.cell (s.entries e).column row data) := by
    rw [handed_of_store stored, place]
  have kept := alike.trans (Target.alike_store (alike.ready made.ready) stores)
  have vars : Function.update s₁.vars (s.entries e).var (s₁.vars (s.entries e).var) = s.vars :=
    (Function.update_eq_self ..).trans recorded.vars
  have entries := recorded.alike.entries.store (s₁.vars (s.entries e).var) kept
  refine ⟨⟨fun v => ?_, entries, recorded.alike.made⟩, vars, recorded.rows, fun e' member => ?_,
    ⟨h', ?_, changed.heads.trans (unit ▸ same), changed.sized, ?_⟩, fun K known => ?_⟩
  · exact congrArg (v.target.room S) (congrFun vars v)
  · rcases List.mem_append.mp member with before | here
    · exact recorded.stores e' before
    · cases List.mem_singleton.mp here
      exact ⟨_, stored⟩
  · rw [world, World.put_put]
  · rw [changed.nrows, unit, Target.row_cell]
    exact Int.max_le.mpr ⟨nrows, Int.le_max_right _ _⟩
  · have more := (recorded.known K known).write
      (writes_put doc raw typed heads (unit.symm ▸ sized) inside call)
    rw [List.filterMap_append, List.filterMap_cons_some fact, List.filterMap_nil,
      Facts.writes_append]
    exact more

theorem rows_next (q : Nat) : ∃ p,
    (Function.update s.rows r (next (s.rows r)) q).table = (s.rows p).table ∧
      (Function.update s.rows r (next (s.rows r)) q).entries = (s.rows p).entries := by
  by_cases self : q = r
  · refine ⟨r, ?_⟩
    rw [self, Function.update_self]
    unfold next
    split <;> exact ⟨rfl, rfl⟩
  · refine ⟨q, ?_⟩
    rw [Function.update_of_ne self]
    exact ⟨rfl, rfl⟩

structure Wrote (api : Cfitsio) (holding : Holding) (w₀ : World) (r : Nat) (s s' : Session S) :
    Prop where
  usable : Usable s'
  alike : Alike s s'
  same : w₀.SameHeads s'.world
  heads : s.world.SameHeads s'.world
  vars : s'.vars = s.vars
  rows : s'.rows = Function.update s.rows r (next (s.rows r))
  stores : ∀ e ∈ (s.rows r).entries, ∃ stored, (s.entries e).var.target.store S
    (s.entries e).column (s.vars (s.entries e).var) = .ok stored
  nrows : (s'.world.unitOf (.table (s.rows r).table)).nrows ≤
    max (s.world.unitOf (.table (s.rows r).table)).nrows (s.rows r).idx
  others : ∀ p, p ≠ s.world.placeOf (.table (s.rows r).table) →
    s'.world.unitAt p = s.world.unitAt p
  known : ∀ K, Facts.Known (cellFacts api holding w₀) K s.world →
    Facts.Known (cellFacts api holding w₀)
      (Facts.writes (cellFacts api holding w₀) K (handedOver r s)) s'.world

/-- A row that has been written leaves what it handed over to be read. -/
theorem write_recorded (doc : MisFITS.Documented api) (raw : RawBytes api)
    (typed : TypedCells api holding) (lawful : S.Lawful) (same : w₀.SameHeads s.world)
    (usable : Usable s) (first : 1 ≤ (s.rows r).idx) (run : write api r s = .ok u s') :
    Wrote api holding w₀ r s s' := by
  obtain ⟨s₁, loop, rfl⟩ := write_ok doc run
  have ground := usable.ground r
  have start : Recorded api holding w₀ (s.rows r).table (s.rows r).idx (onto s r) [] (onto s r) :=
    .start World.current_of_onto (by rw [onto, World.unitOf_onto]; exact ground.sized)
  have place : (onto s r).world.placeOf (.table (s.rows r).table) =
      s.world.placeOf (.table (s.rows r).table) := by
    rw [onto, World.placeOf, World.base_onto]
    rfl
  have heads : (w₀.unitAt ((onto s r).world.placeOf (.table (s.rows r).table))).heads =
      ((onto s r).world.unitOf (.table (s.rows r).table)).heads := by
    rw [place, onto, World.unitOf_onto]
    exact (same.heads _ _).symm
  have recorded := loop_mem (I := fun done _ s' => Recorded api holding w₀ (s.rows r).table
    (s.rows r).idx (onto s r) done s') []
    (fun _ e _ _ _ _ member recorded run => recorded.step doc raw typed lawful heads first
      (by rw [onto, World.unitOf_onto]; exact (usable.columns r e member).of_alike .onto) run) start loop
  obtain ⟨h, world, kept, sized, nrows⟩ := recorded.world
  have moved : s.world.Moved (onto s r).world := World.moved_onto
  have heads' : s.world.SameHeads s₁.world := by
    rw [world]
    exact moved.sameHeads.trans (World.sameHeads_put kept)
  have handed : handed (s.rows r).table (s.rows r).idx (onto s r) =
      handed (s.rows r).table (s.rows r).idx s := by
    funext e
    unfold Row.handed
    rw [place]
    rfl
  have rows : s₁.rows = s.rows := recorded.rows
  have alike : Alike s (s₁.setRow r (next (s₁.rows r))) :=
    ⟨recorded.alike.rooms, recorded.alike.entries, recorded.alike.made⟩
  constructor
  · refine usable.step alike heads' (fun t ground => ?_) (fun q => ?_)
    · change Grounded s₁.world t
      rw [world]
      exact (ground.moved moved).put kept sized
    · change ∃ p, (Function.update s₁.rows r (next (s₁.rows r)) q).table = _ ∧
        (Function.update s₁.rows r (next (s₁.rows r)) q).entries = _
      rw [rows]
      exact rows_next q
  · exact alike
  · exact same.trans heads'
  · exact heads'
  · exact recorded.vars
  · change Function.update s₁.rows r (next (s₁.rows r)) = _
    rw [rows]
  · exact recorded.stores
  · change (s₁.world.unitOf _).nrows ≤ _
    rw [onto, World.unitOf_onto] at nrows
    rw [world, World.unitOf_put]
    exact nrows
  · intro p other
    change s₁.world.unitAt p = _
    rw [world, World.unitAt_put, if_neg (by rw [place]; exact other), moved.unitAt]
  · intro K known
    have more := recorded.known K (known_moved moved known)
    rw [handed] at more
    exact more

end Writing

end Row

namespace Session

variable {api : Cfitsio} {S : DynamicBitset} {s s' : Session S} {r : Nat}

structure Retained (s s' : Session S) : Prop where
  world : s.world.Moved s'.world
  alike : Alike s s'
  rows : ∀ q, ∃ p, (s'.rows q).table = (s.rows p).table ∧ (s'.rows q).entries = (s.rows p).entries

theorem Retained.refl (s : Session S) : Retained s s := ⟨.refl _, .refl s, fun q => ⟨q, rfl, rfl⟩⟩

theorem Retained.trans {s'' : Session S} (h : Retained s s') (h' : Retained s' s'') :
    Retained s s'' where
  world := h.world.trans h'.world
  alike := h.alike.trans h'.alike
  rows q := by
    obtain ⟨p, table, entries⟩ := h'.rows q
    obtain ⟨p', table', entries'⟩ := h.rows p
    exact ⟨p', table.trans table', entries.trans entries'⟩

theorem Fits.of_alike {e : Nat} (fits : s.Fits e) (alike : Alike s s') : s'.Fits e := by
  obtain ⟨column, same, entry⟩ := alike.entries e
  unfold Session.Fits
  rw [entry, alike.rooms]
  exact same.fits fits

theorem Usable.retained (usable : Usable s) (retained : Retained s s') : Usable s' :=
  usable.step retained.alike retained.world.sameHeads (fun _ ground => ground.moved retained.world)
    retained.rows

theorem retained_setRow {row : Row} {p : Nat} (table : row.table = (s.rows p).table)
    (bound : row.entries = (s.rows p).entries) : Retained s (s.setRow r row) where
  world := .refl _
  alike := ⟨fun _ => rfl, .refl s, rfl⟩
  rows q := by
    by_cases self : q = r
    · exact ⟨p, by simp [setRow, self, table], by simp [setRow, self, bound]⟩
    · exact ⟨q, by simp [setRow, self], by simp [setRow, self]⟩

def Quiet (es : List Nat) {α : Type} (m : RowM S α) : Prop :=
  Keeps (fun s s' => (∀ e ∈ es, s.Fits e) → Retained s s') m

section Quiet

variable {α β : Type} {es : List Nat}

theorem Quiet.bind {x : RowM S α} {g : α → RowM S β} (first : Quiet es x)
    (later : ∀ a, Quiet es (g a)) : Quiet es (x >>= g) := by
  refine Keeps.bind (fun s t u h h' fits => ?_) first later
  have retained := h fits
  exact retained.trans (h' (fun e member => (fits e member).of_alike retained.alike))

theorem quiet_pure (a : α) : Quiet es (pure a : RowM S α) := Keeps.pure (fun s _ => .refl s) a

theorem Quiet.check {p : Prop} [Decidable p] {e : Exception} {g : β → RowM S α} {m : RowM S α}
    (quiet : Quiet es m) : Quiet es (if p then throw e >>= g else m) :=
  Keeps.check (fun s _ => .refl s) quiet

theorem quiet_onWorld {m : M α} (looks : Keeps World.Moved m) :
    Quiet es (onWorld m : RowM S α) := by
  intro s _
  rw [after_onWorld]
  exact ⟨looks s.world, ⟨fun _ => rfl, .refl s, rfl⟩, fun q => ⟨q, rfl, rfl⟩⟩

theorem quiet_readEntry (lawful : S.Lawful) {t e : Nat} {row : Int} (member : e ∈ es) (u : Unit) :
    Quiet es (Row.readEntry (S := S) api t row u e) := by
  intro s fits
  rw [Row.readEntry_def]
  cases run : (s.entries e).var.target.read api S t (s.entries e).column row
      (s.vars (s.entries e).var) s.world with
  | ok taken w =>
    obtain ⟨column, value⟩ := taken
    obtain ⟨rfl, data, load⟩ := Target.read_ok run
    have reads : onWorld ((s.entries e).var.target.read api S t (s.entries e).column row
        (s.vars (s.entries e).var)) s = .ok (column, value) s := Session.onWorld_of_ok run
    rw [bind_of_ok reads]
    have room := (Target.load_kept api lawful (fits e member) load).1
    exact ⟨.refl _, .store (Target.alike_load lawful load) room, fun q => ⟨q, rfl, rfl⟩⟩
  | error thrown w =>
    obtain rfl := Target.read_still.error run
    have stops : onWorld ((s.entries e).var.target.read api S t (s.entries e).column row
        (s.vars (s.entries e).var)) s = .error thrown s := by
      unfold onWorld
      rw [run]
    rw [bind_of_error stops]
    exact .refl s

theorem quiet_readEntries (lawful : S.Lawful) {t : Nat} {row : Int} {xs : List Nat}
    (sub : ∀ e ∈ xs, e ∈ es) :
    Quiet es (xs.foldlM (Row.readEntry (S := S) api t row) ()) := by
  induction xs with
  | nil => exact quiet_pure ()
  | cons e xs ih =>
    exact Quiet.bind (quiet_readEntry lawful (sub e List.mem_cons_self) ())
      (fun _ => ih (fun e' member => sub e' (List.mem_cons_of_mem e member)))

theorem quiet_advanceAuto : Quiet es (Row.advanceAuto (S := S) r) := by
  intro s _
  rw [Row.advanceAuto_eq]
  unfold Row.next
  split <;> exact retained_setRow rfl rfl

end Quiet

theorem retained_read (lawful : S.Lawful) (fits : ∀ e ∈ (s.rows r).entries, s.Fits e) :
    Retained s (after (Row.read api r s)) := by
  have body : Quiet (s.rows r).entries (S := S) (do
      onWorld (setAsChdu api (.table (s.rows r).table))
      if (s.rows r).entries = [] then
        throw (.assert "row object was not assigned any columns to read")
      if (s.rows r).idx > (← onWorld (Table.numRows api (s.rows r).table)) then
        return false
      (s.rows r).entries.foldlM (Row.readEntry api (s.rows r).table (s.rows r).idx) ()
      Row.advanceAuto r
      return true) := by
    refine Quiet.bind (quiet_onWorld moved_setAsChdu) (fun _ => Quiet.check ?_)
    refine Quiet.bind (quiet_onWorld (moved_readOwn _)) (fun rows => ?_)
    split
    · exact quiet_pure false
    · exact Quiet.bind (quiet_readEntries lawful (fun _ member => member))
        (fun _ => Quiet.bind quiet_advanceAuto (fun _ => quiet_pure true))
  exact body s fits

theorem retained_perform (lawful : S.Lawful) (usable : Usable s) (e : Event) :
    Retained s (e.perform api s) := by
  cases e with
  | read r =>
    rw [Event.perform, Event.run, after_discard]
    exact retained_read lawful (fun e member => (usable.columns r e member).fits)
  | readAt r row =>
    have moved : Retained s (s.setRow r { s.rows r with idx := row }) := retained_setRow rfl rfl
    rw [Event.perform, Event.run, after_discard]
    exact moved.trans (retained_read lawful
      (fun e member => ((usable.retained moved).columns r e member).fits))
  | setIdx r idx => exact retained_setRow rfl rfl
  | advance r nrows => exact retained_setRow rfl rfl
  | setAutoAdvance r flag => exact retained_setRow rfl rfl
  | copy r original => exact retained_setRow rfl rfl
  | look m =>
    have here : Event.perform api s (.look m) = { s with world := after (m.1 s.world) } :=
      after_onWorld m.1 s
    rw [here]
    exact ⟨m.2 s.world, ⟨fun _ => rfl, .refl s, rfl⟩, fun q => ⟨q, rfl, rfl⟩⟩

end Session

end MisFITS
