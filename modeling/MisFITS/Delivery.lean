import MisFITS.Binding

/-! One call among several cursors: what a read delivers, and what any call
leaves for the others. -/
namespace MisFITS
open Program HDU RowEntry

namespace Session

variable {api : Cfitsio} {S : DynamicBitset} {s s' : Session S}

def Fits (s : Session S) (e : Nat) : Prop :=
  (s.entries e).var.target.Fits (s.entries e).column
    ((s.entries e).var.target.room S (s.vars (s.entries e).var))

def Readable (api : Cfitsio) (h : HduData) (row : Int) (entry : Entry) : Prop :=
  ∃ data, entry.var.target.request api entry.column row h = .ok data ∧
    data.length = entry.var.target.count entry.column

/-- The bound columns have taken their cells of one row, in order. -/
inductive Delivered (api : Cfitsio) (h : HduData) (row : Int) :
    List Nat → Session S → Session S → Prop where
  | nil {u : Session S} : Delivered api h row [] u u
  | cons {e : Nat} {es : List Nat} {s s' : Session S}
      {data : List (s.entries e).var.target.storage.Native}
      {column : (s.entries e).var.target.Column} {value : (s.entries e).var.target.Value S}
      (cell : (s.entries e).var.target.request api (s.entries e).column row h = .ok data)
      (load : (s.entries e).var.target.load S (s.entries e).column (s.vars (s.entries e).var) data =
        .ok (column, value))
      (rest : Delivered api h row es (s.store e (s.entries e).var column value) s') :
      Delivered api h row (e :: es) s s'

/-- The cursors can be read: their columns were made, fit, and are those of a
table of their file. -/
structure Sound (api : Cfitsio) (s : Session S) : Prop where
  fits : ∀ e < s.made, s.Fits e
  made : ∀ r, ∀ e ∈ (s.rows r).entries, e < s.made
  attached : ∀ r, (s.rows r).entries ≠ [] → s.world.Attached (.table (s.rows r).table)
  readable : ∀ r, ∀ e ∈ (s.rows r).entries, ∀ row, 1 ≤ row →
    row ≤ (s.world.unitOf (.table (s.rows r).table)).nrows →
    Readable api (s.world.unitOf (.table (s.rows r).table)) row (s.entries e)

structure Stored (api : Cfitsio) (s s' : Session S) : Prop where
  world : s'.world = s.world
  rows : s'.rows = s.rows
  made : s'.made = s.made
  fits : ∀ e, s.Fits e → s'.Fits e
  readable : ∀ e h row, Readable api h row (s.entries e) → Readable api h row (s'.entries e)

theorem Stored.refl (s : Session S) : Stored api s s :=
  ⟨rfl, rfl, rfl, fun _ h => h, fun _ _ _ h => h⟩

theorem Stored.trans {s'' : Session S} (h : Stored api s s') (h' : Stored api s' s'') :
    Stored api s s'' where
  world := h'.world.trans h.world
  rows := h'.rows.trans h.rows
  made := h'.made.trans h.made
  fits e fits := h'.fits e (h.fits e fits)
  readable e _ _ readable := h'.readable e _ _ (h.readable e _ _ readable)

section store

variable {e : Nat} {v : Variable} {column : v.target.Column} {value : v.target.Value S}

theorem entries_store_self : (s.store e v column value).entries e = ⟨v, column⟩ :=
  Function.update_self ..

theorem entries_store_ne {e' : Nat} (ne : e' ≠ e) :
    (s.store e v column value).entries e' = s.entries e' :=
  Function.update_of_ne ne ..

theorem vars_store_ne {u : Variable} (ne : u ≠ v) :
    (s.store e v column value).vars u = s.vars u :=
  Function.update_of_ne ne ..

theorem room_store (same : v.target.room S value = v.target.room S (s.vars v)) (u : Variable) :
    u.target.room S ((s.store e v column value).vars u) = u.target.room S (s.vars u) := by
  by_cases self : u = v
  · subst self
    have here : (s.store e u column value).vars u = value := Function.update_self ..
    rw [here, same]
  · rw [vars_store_ne self]

theorem fits_store (same : v.target.room S value = v.target.room S (s.vars v))
    (fits : v.target.Fits column (v.target.room S (s.vars v))) {e' : Nat} (held : s.Fits e') :
    (s.store e v column value).Fits e' := by
  unfold Fits
  by_cases self : e' = e
  · subst self
    rw [entries_store_self]
    exact (room_store same v).symm ▸ fits
  · rw [entries_store_ne self, room_store same]
    exact held

end store

theorem stored_of_load (lawful : S.Lawful) {e : Nat} (fits : s.Fits e)
    {data : List (s.entries e).var.target.storage.Native} {column : (s.entries e).var.target.Column}
    {value : (s.entries e).var.target.Value S}
    (run : (s.entries e).var.target.load S (s.entries e).column (s.vars (s.entries e).var) data =
      .ok (column, value)) :
    Stored api s (s.store e (s.entries e).var column value) := by
  obtain ⟨room, fits', count, request⟩ := Target.load_kept api lawful fits run
  refine ⟨rfl, rfl, rfl, fun _ => fits_store room fits', ?_⟩
  intro e' h row held
  by_cases self : e' = e
  · subst self
    obtain ⟨data, answer, length⟩ := held
    rw [entries_store_self]
    exact ⟨data, by rw [request]; exact answer, length.trans count.symm⟩
  · rw [entries_store_ne self]
    exact held

theorem readEntry_of_load {e t : Nat} {row : Int} {u : Unit}
    {data : List (s.entries e).var.target.storage.Native} {column : (s.entries e).var.target.Column}
    {value : (s.entries e).var.target.Value S} (here : s.world.Current (.table t))
    (cell : (s.entries e).var.target.request api (s.entries e).column row
      (s.world.unitOf (.table t)) = .ok data)
    (load : (s.entries e).var.target.load S (s.entries e).column (s.vars (s.entries e).var) data =
      .ok (column, value)) :
    Row.readEntry api t row u e s = .ok () (s.store e (s.entries e).var column value) := by
  have reads := Target.read_of_ok here cell load
  rw [Row.readEntry_def]
  refine bind_ok.mpr ⟨(column, value), s, ?_, rfl⟩
  unfold onWorld
  rw [reads]

/-- The loop over the bound columns delivers the row that the cursor stands at. -/
theorem readEntries (lawful : S.Lawful) {t : Nat} {row : Int} {es : List Nat}
    (here : s.world.Current (.table t)) (fits : ∀ e ∈ es, s.Fits e)
    (readable : ∀ e ∈ es, Readable api (s.world.unitOf (.table t)) row (s.entries e)) :
    ∃ s', es.foldlM (Row.readEntry api t row) () s = .ok () s' ∧
      Delivered api (s.world.unitOf (.table t)) row es s s' ∧ Stored api s s' := by
  induction es generalizing s with
  | nil => exact ⟨s, rfl, .nil, .refl s⟩
  | cons e es ih =>
    obtain ⟨data, cell, length⟩ := readable e List.mem_cons_self
    obtain ⟨column, value, load⟩ := Target.load_returns lawful (fits e List.mem_cons_self) length
    have stored : Stored api s (s.store e (s.entries e).var column value) :=
      stored_of_load lawful (fits e List.mem_cons_self) load
    obtain ⟨s', run, delivered, more⟩ := @ih (s.store e (s.entries e).var column value) here
      (fun e' member => stored.fits e' (fits e' (List.mem_cons_of_mem e member)))
      (fun e' member => stored.readable e' _ _ (readable e' (List.mem_cons_of_mem e member)))
    exact ⟨s', bind_ok.mpr ⟨(), _, readEntry_of_load here cell load, run⟩,
      .cons cell load delivered, stored.trans more⟩

theorem Delivered.vars_ne {h : HduData} {row : Int} {es : List Nat} {v : Variable}
    (delivered : Delivered api h row es s s') (unbound : ∀ e ∈ es, (s.entries e).var ≠ v) :
    s'.vars v = s.vars v := by
  induction delivered with
  | nil => rfl
  | @cons e es s s' data column value cell load rest ih =>
    have kept : (s.store e (s.entries e).var column value).vars v = s.vars v :=
      vars_store_ne (unbound e List.mem_cons_self).symm
    rw [← kept]
    refine ih (fun e' member => ?_)
    have other := unbound e' (List.mem_cons_of_mem e member)
    by_cases self : e' = e
    · subst self
      rw [entries_store_self]
      exact other
    · rw [entries_store_ne self]
      exact other

end Session
namespace Row
open Session

variable {api : Cfitsio} {S : DynamicBitset} {s s' : Session S} {r : Nat}

def onto (s : Session S) (r : Nat) : Session S :=
  { s with world := s.world.onto (.table (s.rows r).table) }

theorem setAsChdu_row (doc : Documented api)
    (attached : s.world.Attached (.table (s.rows r).table)) :
    onWorld (setAsChdu api (.table (s.rows r).table)) s = .ok () (onto s r) :=
  onWorld_of_ok (setAsChdu_of_attached doc attached)

theorem numRows_row (doc : Documented api)
    (attached : s.world.Attached (.table (s.rows r).table)) :
    onWorld (Table.numRows api (s.rows r).table) (onto s r) =
      .ok (s.world.unitOf (.table (s.rows r).table)).nrows (onto s r) := by
  have rows := Table.numRows_of_attached doc
    (World.attached_onto (o := .table (s.rows r).table).mpr attached)
  rw [World.onto_onto, World.unitOf_onto] at rows
  exact onWorld_of_ok rows

theorem readBy_eq {faults : Nat → Option (ReadFault S)} (doc : Documented api)
    (attached : s.world.Attached (.table (s.rows r).table)) :
    readBy api r faults s =
      (if (s.rows r).entries = [] then
        throw (.assert "row object was not assigned any columns to read")
      else if (s.rows r).idx > (s.world.unitOf (.table (s.rows r).table)).nrows then pure false
      else do
        readColumns api faults (s.rows r).table (s.rows r).idx (s.rows r).entries
        advanceAuto r
        return true : RowM S Bool) (onto s r) := by
  unfold readBy own
  dsimp only
  rw [bind_of_ok (setAsChdu_row doc attached)]
  by_cases bound : (s.rows r).entries = []
  · rw [if_pos bound, if_pos bound]
    rfl
  · rw [check_of_not bound, bind_of_ok (numRows_row doc attached), if_neg bound]

theorem read_eq (doc : Documented api) (bound : (s.rows r).entries ≠ [])
    (attached : s.world.Attached (.table (s.rows r).table)) :
    read api r s =
      (if (s.rows r).idx > (s.world.unitOf (.table (s.rows r).table)).nrows then pure false
      else do
        (s.rows r).entries.foldlM (readEntry api (s.rows r).table (s.rows r).idx) ()
        advanceAuto r
        return true : RowM S Bool) (onto s r) := by
  rw [read, readBy_eq doc attached, if_neg bound]
  rfl

theorem read_of_end (doc : Documented api) (bound : (s.rows r).entries ≠ [])
    (attached : s.world.Attached (.table (s.rows r).table))
    (past : (s.world.unitOf (.table (s.rows r).table)).nrows < (s.rows r).idx) :
    read api r s = .ok false (onto s r) := by
  rw [read_eq doc bound attached, if_pos past]
  rfl

theorem read_of_row (doc : Documented api) (lawful : S.Lawful) (sound : Sound api s)
    (bound : (s.rows r).entries ≠ []) (low : 1 ≤ (s.rows r).idx)
    (high : (s.rows r).idx ≤ (s.world.unitOf (.table (s.rows r).table)).nrows) :
    ∃ s', Delivered api (s.world.unitOf (.table (s.rows r).table)) (s.rows r).idx
        (s.rows r).entries (onto s r) s' ∧ Stored api (onto s r) s' ∧
      read api r s = .ok true (s'.setRow r (next (s.rows r))) := by
  have here : (onto s r).world.Current (.table (s.rows r).table) := World.current_of_onto
  have unit : (onto s r).world.unitOf (.table (s.rows r).table) =
      s.world.unitOf (.table (s.rows r).table) := World.unitOf_onto
  obtain ⟨s', run, delivered, stored⟩ := readEntries (s := onto s r) lawful here
    (fun e member => sound.fits e (sound.made r e member))
    (fun e member => by rw [unit]; exact sound.readable r e member _ low high)
  rw [unit] at delivered
  refine ⟨s', delivered, stored, ?_⟩
  rw [read_eq doc bound (sound.attached r bound), if_neg (by omega), bind_of_ok run]
  have row : s'.rows r = s.rows r := congrFun stored.rows r
  rw [bind_of_ok advanceAuto_eq, row]
  rfl

end Row

abbrev Look := { m : M Unit // Keeps World.Moved m }

inductive Event where
  | read (r : Nat)
  | readAt (r : Nat) (row : Int)
  | setIdx (r : Nat) (idx : Int)
  | advance (r : Nat) (nrows : Int)
  | setAutoAdvance (r : Nat) (flag : Bool)
  | copy (r original : Nat)
  | look (m : Look)

namespace Event
open Session

variable (api : Cfitsio) {S : DynamicBitset}

def run : Event → RowM S Unit
  | .read r => Row.read api r >>= fun _ => pure ()
  | .readAt r row => Row.readAt api r row >>= fun _ => pure ()
  | .setIdx r idx => Row.setIdx r idx
  | .advance r nrows => Row.advance r nrows
  | .setAutoAdvance r flag => Row.setAutoAdvance r flag
  | .copy r original => Row.copy r original
  | .look m => onWorld m.1

def perform (s : Session S) (e : Event) : Session S := after (e.run api s)

def target : Event → Option Nat
  | .read r | .readAt r _ | .setIdx r _ | .advance r _ | .setAutoAdvance r _ | .copy r _ => some r
  | .look _ => none

def reads (r : Nat) : Event → Bool
  | .read r' => r' = r
  | _ => false

theorem reads_iff {r : Nat} {e : Event} : e.reads r = true ↔ e = .read r := by
  cases e <;> simp [reads]

end Event

namespace Session

variable {api : Cfitsio} {S : DynamicBitset} {s s' : Session S} {r : Nat}

theorem after_onWorld {α : Type} (m : M α) (s : Session S) :
    after (onWorld m s) = { s with world := after (m s.world) } := by
  unfold onWorld
  cases m s.world <;> rfl

structure Kept (api : Cfitsio) (r : Nat) (s s' : Session S) : Prop where
  world : s.world.Moved s'.world
  made : s'.made = s.made
  fits : ∀ e, s.Fits e → s'.Fits e
  readable : ∀ e h row, Readable api h row (s.entries e) → Readable api h row (s'.entries e)
  table : ∀ q, (s'.rows q).table = (s.rows q).table
  bound : ∀ q, (s'.rows q).entries = (s.rows q).entries
  others : ∀ q, q ≠ r → s'.rows q = s.rows q

theorem Kept.trans {s'' : Session S} (h : Kept api r s s') (h' : Kept api r s' s'') :
    Kept api r s s'' where
  world := h.world.trans h'.world
  made := h'.made.trans h.made
  fits e fits := h'.fits e (h.fits e fits)
  readable e _ _ readable := h'.readable e _ _ (h.readable e _ _ readable)
  table q := (h'.table q).trans (h.table q)
  bound q := (h'.bound q).trans (h.bound q)
  others q ne := (h'.others q ne).trans (h.others q ne)

theorem kept_of_moved {w : World} (moved : s.world.Moved w) : Kept api r s { s with world := w } where
  world := moved
  made := rfl
  fits _ fits := fits
  readable _ _ _ readable := readable
  table _ := rfl
  bound _ := rfl
  others _ _ := rfl

theorem Stored.kept (stored : Stored api s s') : Kept api r s s' where
  world := stored.world ▸ .refl _
  made := stored.made
  fits := stored.fits
  readable := stored.readable
  table _ := by rw [stored.rows]
  bound _ := by rw [stored.rows]
  others _ _ := by rw [stored.rows]

theorem kept_setRow {row : Row} (table : row.table = (s.rows r).table)
    (bound : row.entries = (s.rows r).entries) : Kept api r s (s.setRow r row) where
  world := .refl _
  made := rfl
  fits _ fits := fits
  readable _ _ _ readable := readable
  table q := by
    by_cases self : q = r
    · simp [setRow, self, table]
    · simp [setRow, self]
  bound q := by
    by_cases self : q = r
    · simp [setRow, self, bound]
    · simp [setRow, self]
  others q ne := by simp [setRow, ne]

theorem Sound.of_kept (sound : Sound api s) (kept : Kept api r s s') : Sound api s' where
  fits e low := kept.fits e (sound.fits e (kept.made ▸ low))
  made q e member := by
    rw [kept.bound] at member
    rw [kept.made]
    exact sound.made q e member
  attached q some := by
    rw [kept.bound] at some
    unfold World.Attached
    rw [kept.table, kept.world.base, kept.world.numHdus]
    exact sound.attached q some
  readable q e member row low high := by
    rw [kept.bound] at member
    rw [kept.table, kept.world.unitOf] at high ⊢
    exact kept.readable e _ _ (sound.readable q e member row low high)

def bindColumn (s : Session S) (r : Nat) (v : Variable) (column : v.target.Column)
    (value : v.target.Value S) : Session S :=
  setRow { s.store s.made v column value with made := s.made + 1 } r
    { s.rows r with entries := (s.rows r).entries ++ [s.made] }

section bindColumn

variable {e q : Nat} {v : Variable} {column : v.target.Column} {value : v.target.Value S}

theorem entries_bindColumn_self :
    (s.bindColumn r v column value).entries s.made = ⟨v, column⟩ :=
  Function.update_self ..

theorem entries_bindColumn_lt (low : e < s.made) :
    (s.bindColumn r v column value).entries e = s.entries e :=
  Function.update_of_ne (Nat.ne_of_lt low) ..

theorem vars_bindColumn_self : (s.bindColumn r v column value).vars v = value :=
  Function.update_self ..

theorem vars_bindColumn_ne {u : Variable} (ne : u ≠ v) :
    (s.bindColumn r v column value).vars u = s.vars u :=
  Function.update_of_ne ne ..

theorem table_bindColumn : ((s.bindColumn r v column value).rows q).table = (s.rows q).table := by
  by_cases self : q = r
  · simp [bindColumn, setRow, self]
  · simp [bindColumn, setRow, self, store]

theorem mem_entries_bindColumn (member : e ∈ ((s.bindColumn r v column value).rows q).entries) :
    e ∈ (s.rows q).entries ∨ (e = s.made ∧ q = r) := by
  revert member
  by_cases self : q = r
  · simp [bindColumn, setRow, self]
  · simp [bindColumn, setRow, self, store]

theorem fits_bindColumn (fits : v.target.Fits column (v.target.room S value))
    (fresh : ∀ e < s.made, (s.entries e).var ≠ v) (before : ∀ e < s.made, s.Fits e)
    (low : e < s.made + 1) : (s.bindColumn r v column value).Fits e := by
  unfold Fits
  rcases Nat.lt_succ_iff_lt_or_eq.mp low with old | rfl
  · rw [entries_bindColumn_lt old, vars_bindColumn_ne (fresh e old)]
    exact before e old
  · rw [entries_bindColumn_self, vars_bindColumn_self]
    exact fits

end bindColumn

theorem add_ok (doc : Documented api) {columnName : String} {v : Variable} {u : Unit}
    (run : Row.add api r columnName v s = .ok u s') :
    ∃ k info column value,
      api.getColnum (s.world.unitOf (.table (s.rows r).table)).names columnName = .ok k ∧ 1 ≤ k ∧
      (s.world.tables (s.rows r).table).columns[k - 1]? = some info ∧
      v.target.make S info (s.vars v) = .ok column value ∧
      s' = (Row.onto s r).bindColumn r v column value := by
  obtain ⟨info, _, finds, run⟩ := bind_ok.mp run
  obtain ⟨w, found, rfl⟩ := onWorld_ok.mp finds
  obtain ⟨k, number, low, entry, rfl⟩ := Table.colinfoByName_ok doc found
  obtain ⟨e, _, makes, run⟩ := bind_ok.mp run
  unfold Row.makeShared at makes
  cases made : v.target.make S info (s.vars v) with
  | error _ _ =>
    rw [made] at makes
    cases makes
  | ok column value =>
    rw [made] at makes
    cases makes
    exact ⟨k, info, column, value, number, low, entry, made, modify_ok.mp run⟩

theorem colinfo_row (doc : Documented api) {columnName : String} {k : Nat} {info : ColumnInfo}
    (attached : s.world.Attached (.table (s.rows r).table))
    (number : api.getColnum (s.world.unitOf (.table (s.rows r).table)).names columnName = .ok k)
    (low : 1 ≤ k) (entry : (s.world.tables (s.rows r).table).columns[k - 1]? = some info) :
    onWorld (Table.colinfoByName api (s.rows r).table columnName) s = .ok info (Row.onto s r) :=
  onWorld_of_ok (bind_ok.mpr ⟨k, _, readOwn_of_attached doc attached number,
    Table.colinfo_ok.mpr ⟨low, entry, rfl⟩⟩)

theorem add_of_ok (doc : Documented api) {columnName : String} {v : Variable} {k : Nat}
    {info : ColumnInfo} {column : v.target.Column} {value : v.target.Value S}
    (attached : s.world.Attached (.table (s.rows r).table))
    (number : api.getColnum (s.world.unitOf (.table (s.rows r).table)).names columnName = .ok k)
    (low : 1 ≤ k) (entry : (s.world.tables (s.rows r).table).columns[k - 1]? = some info)
    (made : v.target.make S info (s.vars v) = .ok column value) :
    Row.add api r columnName v s = .ok () ((Row.onto s r).bindColumn r v column value) := by
  unfold Row.add Row.own
  dsimp only
  rw [bind_of_ok (colinfo_row doc attached number low entry)]
  refine bind_ok.mpr ⟨s.made,
    { (Row.onto s r).store s.made v column value with made := s.made + 1 }, ?_, rfl⟩
  have makes : v.target.make S info ((Row.onto s r).vars v) = .ok column value := made
  unfold Row.makeShared
  rw [makes]
  rfl

theorem sound_add (doc : Documented api) (lawful : S.Lawful) (sound : Sound api s)
    {columnName : String} {v : Variable} {u : Unit}
    (attached : s.world.Attached (.table (s.rows r).table))
    (cells : ∀ info ∈ (s.world.tables (s.rows r).table).columns, 0 ≤ info.extent.nelem ∧
      ∃ width, info.nbytes = ColumnInfo.cellBytes info.columnType info.extent.nelem width)
    (fresh : ∀ e < s.made, (s.entries e).var ≠ v)
    (array : v.target.pointer = true → ∀ info ∈ (s.world.tables (s.rows r).table).columns,
      v.target.cellCount info ≤ v.target.room S (s.vars v))
    (reads : ∀ row, 1 ≤ row → row ≤ (s.world.unitOf (.table (s.rows r).table)).nrows →
      Readable api (s.world.unitOf (.table (s.rows r).table)) row (s'.entries s.made))
    (run : Row.add api r columnName v s = .ok u s') : Sound api s' := by
  obtain ⟨k, info, column, value, _, _, entry, made, rfl⟩ := add_ok doc run
  have member := List.mem_of_getElem? entry
  obtain ⟨count, width, bytes⟩ := cells info member
  have fits := Target.make_fits lawful count bytes (fun held => array held info member) made
  have unit : ((Row.onto s r).bindColumn r v column value).world =
      s.world.onto (.table (s.rows r).table) := rfl
  refine ⟨fun e low => ?_, fun q e mem => ?_, fun q bound => ?_, fun q e mem row low high => ?_⟩
  · exact fits_bindColumn fits fresh sound.fits low
  · rcases mem_entries_bindColumn mem with before | ⟨rfl, _⟩
    · exact (sound.made q e before).trans (Nat.lt_succ_self _)
    · exact Nat.lt_succ_self _
  · rw [unit, table_bindColumn]
    obtain ⟨e, mem⟩ := List.exists_mem_of_ne_nil _ bound
    rcases mem_entries_bindColumn mem with before | ⟨_, rfl⟩
    · exact World.attached_onto.mpr (sound.attached q (List.ne_nil_of_mem before))
    · exact World.attached_onto.mpr attached
  · rw [unit, table_bindColumn, World.unitOf_onto] at high ⊢
    rcases mem_entries_bindColumn mem with before | ⟨rfl, rfl⟩
    · have made : e < (Row.onto s r).made := sound.made q e before
      rw [entries_bindColumn_lt made]
      exact sound.readable q e before row low high
    · exact reads row low high

def Calm (api : Cfitsio) (r : Nat) (es : List Nat) {α : Type} (m : RowM S α) : Prop :=
  Keeps (fun s s' => (∀ e < s.made, s.Fits e) → (∀ e ∈ es, e < s.made) → Kept api r s s') m

section Calm

variable {α β : Type} {es : List Nat}

theorem Calm.bind {x : RowM S α} {g : α → RowM S β} (first : Calm api r es x)
    (later : ∀ a, Calm api r es (g a)) : Calm api r es (x >>= g) := by
  refine Keeps.bind (fun s t u h h' fits made => ?_) first later
  have kept := h fits made
  exact kept.trans (h' (fun e low => kept.fits e (fits e (kept.made ▸ low)))
    (fun e member => kept.made ▸ made e member))

theorem calm_pure (a : α) : Calm api r es (pure a : RowM S α) :=
  Keeps.pure (fun s _ _ => (Stored.refl s).kept) a

theorem Calm.check {p : Prop} [Decidable p] {e : Exception} {g : β → RowM S α} {m : RowM S α}
    (calm : Calm api r es m) : Calm api r es (if p then throw e >>= g else m) := by
  split
  · intro s
    rw [bind_of_error (throw_error.mpr ⟨rfl, rfl⟩)]
    exact fun _ _ => (Stored.refl s).kept
  · exact calm

theorem calm_onWorld {m : M α} (looks : Keeps World.Moved m) :
    Calm api r es (onWorld m : RowM S α) := by
  intro s _ _
  rw [after_onWorld]
  exact kept_of_moved (looks s.world)

theorem calm_readEntry (lawful : S.Lawful) {t e : Nat} {row : Int} (member : e ∈ es) (u : Unit) :
    Calm api r es (Row.readEntry (S := S) api t row u e) := by
  intro s fits made
  rw [Row.readEntry_def]
  cases run : (s.entries e).var.target.read api S t (s.entries e).column row
      (s.vars (s.entries e).var) s.world with
  | ok taken w =>
    obtain ⟨column, value⟩ := taken
    obtain ⟨rfl, data, load⟩ := Target.read_ok run
    have reads : onWorld ((s.entries e).var.target.read api S t (s.entries e).column row
        (s.vars (s.entries e).var)) s = .ok (column, value) s := Session.onWorld_of_ok run
    rw [bind_of_ok reads]
    exact (stored_of_load lawful (fits e (made e member)) load).kept
  | error thrown w =>
    obtain rfl := Target.read_still.error run
    have stops : onWorld ((s.entries e).var.target.read api S t (s.entries e).column row
        (s.vars (s.entries e).var)) s = .error thrown s := by
      unfold onWorld
      rw [run]
    rw [bind_of_error stops]
    exact (Stored.refl s).kept

theorem calm_readEntries (lawful : S.Lawful) {t : Nat} {row : Int} {part : List Nat}
    (sub : ∀ e ∈ part, e ∈ es) :
    Calm api r es (part.foldlM (Row.readEntry (S := S) api t row) ()) := by
  induction part with
  | nil => exact calm_pure ()
  | cons e part ih =>
    exact Calm.bind (calm_readEntry lawful (sub e List.mem_cons_self) ())
      (fun _ => ih (fun e' member => sub e' (List.mem_cons_of_mem e member)))

theorem calm_advanceAuto : Calm api r es (Row.advanceAuto (S := S) r) := by
  intro s _ _
  rw [Row.advanceAuto_eq]
  unfold Row.next
  split <;> exact kept_setRow rfl rfl

end Calm

theorem kept_read (lawful : S.Lawful) (sound : Sound api s) (r : Nat) :
    Kept api r s (after (Row.read api r s)) := by
  have body : Calm api r (s.rows r).entries (S := S) (do
      onWorld (setAsChdu api (.table (s.rows r).table))
      if (s.rows r).entries = [] then
        throw (.assert "row object was not assigned any columns to read")
      if (s.rows r).idx > (← onWorld (Table.numRows api (s.rows r).table)) then
        return false
      (s.rows r).entries.foldlM (Row.readEntry api (s.rows r).table (s.rows r).idx) ()
      Row.advanceAuto r
      return true) := by
    refine Calm.bind (calm_onWorld moved_setAsChdu) (fun _ => Calm.check ?_)
    refine Calm.bind (calm_onWorld (moved_readOwn _)) (fun rows => ?_)
    split
    · exact calm_pure false
    · exact Calm.bind (calm_readEntries lawful (fun _ member => member))
        (fun _ => Calm.bind calm_advanceAuto (fun _ => calm_pure true))
  exact body s sound.fits (sound.made r)

theorem sound_copy (sound : Sound api s) (r original : Nat) :
    Sound api (s.setRow r (s.rows original)) := by
  have row : ∀ q, ∃ p, (s.setRow r (s.rows original)).rows q = s.rows p := by
    intro q
    by_cases self : q = r
    · exact ⟨original, by simp [setRow, self]⟩
    · exact ⟨q, by simp [setRow, self]⟩
  refine ⟨sound.fits, fun q => ?_, fun q => ?_, fun q => ?_⟩ <;> obtain ⟨p, same⟩ := row q <;> rw [same]
  · exact sound.made p
  · exact sound.attached p
  · exact sound.readable p

/-- What an event leaves: the cursors can be read, the tables are as they were,
and so is every cursor that the call is not about. -/
theorem perform_sound (lawful : S.Lawful) (sound : Sound api s) (e : Event) :
    Sound api (e.perform api s) ∧ s.world.Moved (e.perform api s).world ∧
      ∀ q, e.target ≠ some q → (e.perform api s).rows q = s.rows q := by
  have calm : ∀ r, e.target = some r → Kept api r s (e.perform api s) →
      Sound api (e.perform api s) ∧ s.world.Moved (e.perform api s).world ∧
        ∀ q, e.target ≠ some q → (e.perform api s).rows q = s.rows q := by
    intro r target kept
    refine ⟨sound.of_kept kept, kept.world, fun q ne => kept.others q ?_⟩
    rintro rfl
    exact ne target
  cases e with
  | read r =>
    apply calm r rfl
    rw [Event.perform, Event.run, after_discard]
    exact kept_read lawful sound r
  | readAt r row =>
    apply calm r rfl
    have moved : Kept api r s (s.setRow r { s.rows r with idx := row }) := kept_setRow rfl rfl
    rw [Event.perform, Event.run, after_discard]
    exact moved.trans (kept_read lawful (sound.of_kept moved) r)
  | setIdx r idx => exact calm r rfl (kept_setRow rfl rfl)
  | advance r nrows => exact calm r rfl (kept_setRow rfl rfl)
  | setAutoAdvance r flag => exact calm r rfl (kept_setRow rfl rfl)
  | copy r original =>
    refine ⟨sound_copy sound r original, .refl _, fun q ne => ?_⟩
    exact Function.update_of_ne (fun self => ne (congrArg some self.symm)) ..
  | look m =>
    have moved := m.2 s.world
    have here : Event.perform api s (.look m) = { s with world := after (m.1 s.world) } :=
      after_onWorld m.1 s
    rw [here]
    exact ⟨sound.of_kept (r := 0) (kept_of_moved moved), moved, fun _ _ => rfl⟩

end Session

end MisFITS
