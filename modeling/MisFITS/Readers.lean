import MisFITS.MirroredRows

/-! Programs that read a table through any number of cursors, opened, copied, bound and moved
in any order, where each call may depend on all that the ones before have brought. -/
namespace MisFITS
open ColumnType Program HDU Run Slices RowEntry

namespace Row
open Session

variable (api : Cfitsio) {S : DynamicBitset} (r : Nat)

def numRows : RowM S Int := own r fun row => onWorld (Table.numRows api row.table)

def numColumns : RowM S Nat := own r fun row => pure row.entries.length

end Row

inductive Query (S : DynamicBitset) where
  | numRows (r : Nat)
  | numColumns (r : Nat)
  | idx (r : Nat)
  | autoAdvance (r : Nat)
  | new (r : Nat)
  | copy (r original : Nat)
  | add (r : Nat) (columnName : String) (v : Variable)
  | assign (vars : Record S)
  | setIdx (r : Nat) (i : Int)
  | advance (r : Nat) (nrows : Int)
  | setAutoAdvance (r : Nat) (flag : Bool)
  | read (r : Nat)

inductive Reply where
  | done
  | number (n : Int)
  | flag (b : Bool)

/-- What a call brings: its reply, or what it threw, and the variables. -/
abbrev Seen (S : DynamicBitset) := Except Exception Reply × Record S

namespace Query
open Session

variable (api : Cfitsio) {S : DynamicBitset} (t : Nat)

def run : Query S → RowM S Reply
  | numRows r => return .number (← Row.numRows api r)
  | numColumns r => return .number (← Row.numColumns r)
  | idx r => return .number ((← get).rows r).idx
  | autoAdvance r => return .flag ((← get).rows r).autoAdvance
  | new r => do
    Row.new r t
    return .done
  | copy r original => do
    Row.copy r original
    return .done
  | add r columnName v => do
    Row.add api r columnName v
    return .done
  | assign vars => do
    modify fun s => { s with vars }
    return .done
  | setIdx r i => do
    Row.setIdx r i
    return .done
  | advance r nrows => do
    Row.advance r nrows
    return .done
  | setAutoAdvance r flag => do
    Row.setAutoAdvance r flag
    return .done
  | read r => return .flag (← Row.read api r)

def seen (query : Query S) : RowM S (Seen S) := do
  let answer ← attempt (query.run api t)
  return (answer, (← get).vars)

/-- The calls that stay with the columns of some names, and with rows that can be there. A
column of bits is bound to bytes, or to a type with a class of its own. -/
def Proper (source : HduData) (names : List String) : Query S → Prop
  | add _ columnName v => columnName ∈ names ∧ ∀ k c,
    api.getColnum source.names columnName = .ok k → source.head k = some c →
      c.typecode = .bit → v.target.bytewise = true
  | setIdx _ i => 1 ≤ i
  | advance _ nrows => 0 ≤ nrows
  | _ => True

theorem seen_returns (query : Query S) (s : Session S) :
    ∃ seen s', query.seen api t s = .ok seen s' := by
  unfold seen attempt
  cases run : query.run api t s with
  | ok answer s' => exact ⟨_, s', bind_ok.mpr ⟨.ok answer, s', by rw [run], rfl⟩⟩
  | error e s' => exact ⟨_, s', bind_ok.mpr ⟨.error e, s', by rw [run], rfl⟩⟩

end Query

namespace Session

variable {api : Cfitsio} {S : DynamicBitset} {source h : HduData} {names : List String}
  {src dest : Nat} {s t : Session S}

/-- Two sessions whose cursors stand on a table and on its likeness, and have all else in
common. -/
structure Mirrored (api : Cfitsio) (source h : HduData) (names : List String) (src dest : Nat)
    (s t : Session S) : Prop where
  own : s.world.Attached (.table src)
  own' : t.world.Attached (.table dest)
  unit : s.world.unitOf (.table src) = source
  unit' : t.world.unitOf (.table dest) = h
  grown : Table.Grown s.world src
  grown' : Table.Grown t.world dest
  made : t.made = s.made
  vars : t.vars = s.vars
  tables : ∀ r, (s.rows r).table = src
  rows : ∀ r, t.rows r = { s.rows r with table := dest }
  first : ∀ r, 1 ≤ (s.rows r).idx
  below : ∀ r, ∀ e ∈ (s.rows r).entries, e < s.made
  paired : ∀ r, ∀ e ∈ (s.rows r).entries, Paired api source h names (s.entries e) (t.entries e)

theorem Mirrored.cursor (mirrored : Mirrored api source h names src dest s t) (r : Nat) :
    (s.rows r).table = src ∧ (t.rows r).table = dest ∧
      s.world.Attached (.table (s.rows r).table) ∧ t.world.Attached (.table (t.rows r).table) := by
  have table : (s.rows r).table = src := mirrored.tables r
  have table' : (t.rows r).table = dest := by rw [mirrored.rows r]
  exact ⟨table, table', table ▸ mirrored.own, table' ▸ mirrored.own'⟩

theorem attached_moved {w w' : World} {o : Obj} (moved : w.Moved w') (own : w.Attached o) :
    w'.Attached o := (Table.SameSeats.of_moved moved).attached own

theorem grown_moved {w w' : World} {t : Nat} (grown : Table.Grown w t) (moved : w.Moved w') :
    Table.Grown w' t :=
  grown.sameHeads moved.sameHeads (by rw [moved.unitOf]; exact grown.sized)

theorem Mirrored.inWorld {w w' : World} (mirrored : Mirrored api source h names src dest s t)
    (moved : s.world.Moved w) (moved' : t.world.Moved w') :
    Mirrored api source h names src dest (s.inWorld w) (t.inWorld w') :=
  { mirrored with
    own := attached_moved moved mirrored.own
    own' := attached_moved moved' mirrored.own'
    unit := (moved.unitOf _).trans mirrored.unit
    unit' := (moved'.unitOf _).trans mirrored.unit'
    grown := grown_moved mirrored.grown moved
    grown' := grown_moved mirrored.grown' moved' }

theorem Mirrored.onto (mirrored : Mirrored api source h names src dest s t) (p q : Nat) :
    Mirrored api source h names src dest (Row.onto s p) (Row.onto t q) :=
  mirrored.inWorld World.moved_onto World.moved_onto

theorem Mirrored.setRow (mirrored : Mirrored api source h names src dest s t) (r : Nat) (row : Row)
    (table : row.table = src) (first : 1 ≤ row.idx)
    (known : ∀ e ∈ row.entries,
      e < s.made ∧ Paired api source h names (s.entries e) (t.entries e)) :
    Mirrored api source h names src dest (s.setRow r row)
      (t.setRow r { row with table := dest }) := by
  have rows : ∀ (u : Session S) (row : Row) (q : Nat),
      (u.setRow r row).rows q = if q = r then row else u.rows q := fun _ _ _ =>
    Function.update_apply ..
  refine { mirrored with tables := ?_, rows := ?_, first := ?_, below := ?_, paired := ?_ } <;>
    intro q
  · rw [rows]
    split
    · exact table
    · exact mirrored.tables q
  · rw [rows, rows]
    split
    · rfl
    · exact mirrored.rows q
  · rw [rows]
    split
    · exact first
    · exact mirrored.first q
  · intro e member
    rw [rows] at member
    split at member
    · exact (known e member).1
    · exact mirrored.below q e member
  · intro e member
    rw [rows] at member
    split at member
    · exact (known e member).2
    · exact mirrored.paired q e member

theorem Mirrored.known (mirrored : Mirrored api source h names src dest s t) (r : Nat) :
    ∀ e ∈ (s.rows r).entries,
      e < s.made ∧ Paired api source h names (s.entries e) (t.entries e) :=
  fun e member => ⟨mirrored.below r e member, mirrored.paired r e member⟩

theorem Mirrored.assign (mirrored : Mirrored api source h names src dest s t) (vars : Record S) :
    Mirrored api source h names src dest { s with vars } { t with vars } :=
  { mirrored with vars := rfl }

theorem Mirrored.store (mirrored : Mirrored api source h names src dest s t) {v : Variable}
    (it jt : v.target.Column) (value : v.target.Value S) :
    Mirrored api source h names src dest
      { s.store s.made v it value with made := s.made + 1 }
      { t.store s.made v jt value with made := s.made + 1 } :=
  { mirrored with
    made := rfl
    vars := by
      change Function.update t.vars v value = Function.update s.vars v value
      rw [mirrored.vars]
    below := fun r e member => Nat.lt_succ_of_lt (mirrored.below r e member)
    paired := fun r e member => by
      have old := Nat.ne_of_lt (mirrored.below r e member)
      unfold Session.store
      simpa only [Function.update_of_ne old] using mirrored.paired r e member }

theorem Mirrored.bindColumn (mirrored : Mirrored api source h names src dest s t) (r : Nat)
    {v : Variable} {it jt : v.target.Column} (value : v.target.Value S)
    (paired : Paired api source h names ⟨v, it⟩ ⟨v, jt⟩) :
    Mirrored api source h names src dest (s.bindColumn r v it value)
      (t.bindColumn r v jt value) := by
  have stored := mirrored.store it jt value
  unfold Session.bindColumn
  rw [mirrored.made, mirrored.rows r]
  refine stored.setRow r { s.rows r with entries := (s.rows r).entries ++ [s.made] }
    (mirrored.tables r) (mirrored.first r) (fun e member => ?_)
  rcases List.mem_append.mp member with before | last
  · exact stored.known r e before
  · obtain rfl := List.mem_singleton.mp last
    refine ⟨Nat.lt_succ_self _, ?_⟩
    unfold Session.store
    simpa only [Function.update_self] using paired

theorem Mirrored.along {s₁ t₁ : Session S} (mirrored : Mirrored api source h names src dest s t)
    (along : Along api source h names (fun e f => e = f ∧ ∃ r, e ∈ (s.rows r).entries) s t s₁ t₁) :
    Mirrored api source h names src dest s₁ t₁ := by
  obtain ⟨world, world', rows, rows', made, made', vars, paired⟩ := along
  constructor
  case vars => exact vars
  case paired =>
    intro r e member
    rw [rows] at member
    exact paired e e ⟨rfl, r, member⟩
  all_goals simp only [world, world', rows, rows', made, made']
  exacts [mirrored.own, mirrored.own', mirrored.unit, mirrored.unit', mirrored.grown,
    mirrored.grown', mirrored.made, mirrored.tables, mirrored.rows, mirrored.first, mirrored.below]

theorem Mirrored.steer (mirrored : Mirrored api source h names src dest s t) (r : Nat)
    (f : Row → Row) (table : ∀ row q, f { row with table := q } = { f row with table := q })
    (entries : (f (s.rows r)).entries = (s.rows r).entries) (first : 1 ≤ (f (s.rows r)).idx) :
    Mirrored api source h names src dest (s.setRow r (f (s.rows r)))
      (t.setRow r (f (t.rows r))) := by
  have own := congrArg Row.table (table (s.rows r) (s.rows r).table)
  rw [mirrored.rows r, table _ dest]
  refine mirrored.setRow r _ (Eq.trans own (mirrored.tables r)) first (fun e member => ?_)
  rw [entries] at member
  exact mirrored.known r e member

theorem Mirrored.advanced (mirrored : Mirrored api source h names src dest s t) (r : Nat) :
    Mirrored api source h names src dest (s.setRow r (Row.next (s.rows r)))
      (t.setRow r (Row.next (t.rows r))) := by
  have first := mirrored.first r
  apply mirrored.steer r Row.next
  · intro row q
    unfold Row.next
    split <;> rfl
  · unfold Row.next
    split <;> rfl
  · unfold Row.next
    split
    · exact Int.le_add_one first
    · exact first

def opened (s : Session S) (t : Nat) : Session S :=
  { s with rows := fun _ => { table := t, idx := 1, autoAdvance := true, entries := [] } }

theorem mirrored_opened {w : World} (own : s.world.Attached (.table src)) (own' : w.Attached (.table dest))
    (grown : Table.Grown s.world src) (grown' : Table.Grown w dest) :
    Mirrored api (s.world.unitOf (.table src)) (w.unitOf (.table dest)) names src dest
      (s.opened src) ((s.inWorld w).opened dest) :=
  { own, own', grown, grown'
    unit := rfl
    unit' := rfl
    made := rfl
    vars := rfl
    tables := fun _ => rfl
    rows := fun _ => rfl
    first := fun _ => Int.le_refl 1
    below := fun _ _ member => absurd member List.not_mem_nil
    paired := fun _ _ member => absurd member List.not_mem_nil }

end Session

theorem Table.Synced.described {w : World} {t k : Nat} {x : ColHead} (synced : Table.Synced w t)
    (head : (w.unitOf (.table t)).head k = some x) :
    ∃ info, (w.tables t).columns[k - 1]? = some info ∧ info.columnType.id = x.typecode := by
  obtain ⟨c, column, rfl⟩ := Option.map_eq_some_iff.mp head
  obtain ⟨_, place⟩ := HduData.column_iff.mp column
  have inside := (List.getElem?_eq_some_iff.mp place).1
  rw [← synced.length] at inside
  have entry := List.getElem?_eq_getElem inside
  obtain ⟨c', same, decoded⟩ := ColumnInfo.decodeAll_get synced entry
  cases (Reference.head_of_column column).symm.trans same
  exact ⟨_, entry, (ColumnInfo.decode_ok decoded).2.2.1⟩

namespace Row
open Session

variable {api : Cfitsio} {S : DynamicBitset} {source h : HduData} {names : List String}
  {src dest : Nat} {s t : Session S} {r : Nat}

theorem read_of_none (doc : Documented api) (empty : (s.rows r).entries = [])
    (own : s.world.Attached (.table (s.rows r).table)) : read api r s =
      .error (.assert "row object was not assigned any columns to read") (onto s r) := by
  rw [read, readBy_eq doc own, if_pos empty]
  rfl

theorem add_of_error (doc : Documented api) {columnName : String} {v : Variable} {k : Nat}
    {info : ColumnInfo} {e : Exception} {value : v.target.Value S}
    (own : s.world.Attached (.table (s.rows r).table))
    (number : api.getColnum (s.world.unitOf (.table (s.rows r).table)).names columnName = .ok k)
    (low : 1 ≤ k) (entry : (s.world.tables (s.rows r).table).columns[k - 1]? = some info)
    (thrown : v.target.make S info (s.vars v) = .error e value) :
    add api r columnName v s =
      .error e { onto s r with vars := Function.update s.vars v value } := by
  have makes : makeShared v info (onto s r) =
      .error e { onto s r with vars := Function.update s.vars v value } := by
    unfold makeShared
    rw [show v.target.make S info ((onto s r).vars v) = .error e value from thrown]
    rfl
  unfold add Row.own
  dsimp only
  rw [bind_of_ok (colinfo_row doc own number low entry), bind_of_error makes]

theorem add_mirrored (doc : Documented api) (lawful : S.Lawful) {name : String}
    (member : name ∈ names) (common : Common api source h name) {v : Variable}
    (bits : ∀ k c, api.getColnum source.names name = .ok k → source.head k = some c →
      c.typecode = .bit → v.target.bytewise = true) :
    Lockstep (Mirrored api source h names src dest (S := S)) (add api r name v)
      (add api r name v) := by
  intro s t mirrored
  obtain ⟨table, table', own, own'⟩ := mirrored.cursor r
  have same := common
  obtain ⟨a, b, x, y, found, found', head, head', _⟩ := common
  have bits' := bits a x found head
  rw [← mirrored.unit, ← table] at found head same
  rw [← mirrored.unit', ← table'] at found' head' same
  have grown : Table.Grown s.world (s.rows r).table := table ▸ mirrored.grown
  have grown' : Table.Grown t.world (t.rows r).table := table' ▸ mirrored.grown'
  obtain ⟨info, entry, code⟩ := grown.synced.described head
  obtain ⟨info', entry', _⟩ := grown'.synced.described head'
  have cells := Table.sameCells_of_common grown grown' same found found' entry entry'
  have low := (doc.colnum_range found).1
  have low' := (doc.colnum_range found').1
  rcases Target.make_alike cells (grown.extent_ne_nil entry) (grown'.extent_ne_nil entry')
    (s.vars v) with ⟨it, jt, value, made, made'⟩ | ⟨e, value, thrown, thrown'⟩
  · have twins := paired_of_make lawful grown grown' member same found found' low low' entry entry'
      (fun bit => bits' (code.symm.trans bit)) made made'
    rw [table, table', mirrored.unit, mirrored.unit'] at twins
    rw [← mirrored.vars] at made'
    rw [add_of_ok doc own found low entry made, add_of_ok doc own' found' low' entry' made']
    exact ⟨rfl, (mirrored.onto r r).bindColumn r value twins⟩
  · rw [← mirrored.vars] at thrown'
    rw [add_of_error doc own found low entry thrown,
      add_of_error doc own' found' low' entry' thrown', mirrored.vars]
    exact ⟨rfl, (mirrored.onto r r).assign _⟩

theorem read_mirrored (doc : Documented api) (lawful : S.Lawful) (raw : RawBytes api)
    (answers : CellAnswers api) (likeness : Likeness api source h names h) :
    Lockstep (Mirrored api source h names src dest (S := S)) (read api r) (read api r) := by
  intro s t mirrored
  obtain ⟨table, table', own, own'⟩ := mirrored.cursor r
  have entries : (t.rows r).entries = (s.rows r).entries := by rw [mirrored.rows r]
  by_cases empty : (s.rows r).entries = []
  · rw [read_of_none doc empty own, read_of_none doc (entries.trans empty) own']
    exact ⟨rfl, mirrored.onto r r⟩
  have start := mirrored.onto r r
  -- what is known of the columns of the other cursors stays known
  have paired : ∀ e f, (e = f ∧ ∃ q, e ∈ (s.rows q).entries) →
      Paired api source h names (s.entries e) (t.entries f) := by
    rintro e _ ⟨rfl, q, member⟩
    exact mirrored.paired q e member
  have left : (s.rows r).entries = ((s.rows r).entries.map fun e => (e, e)).map Prod.fst := by
    rw [List.map_map]
    exact (List.map_id _).symm
  have right : (t.rows r).entries = ((s.rows r).entries.map fun e => (e, e)).map Prod.snd := by
    rw [entries, List.map_map]
    exact (List.map_id _).symm
  refine Matches.mono (fun s' t' beyond => ?_) (read_matches doc lawful raw answers likeness
    (by simpa using empty) own own' (by rw [table, mirrored.unit]) (by rw [table', mirrored.unit'])
    left right (by rw [mirrored.rows r]) (mirrored.first r) mirrored.vars paired ?_)
  · obtain ⟨s₁, t₁, along, ⟨rfl, rfl⟩ | ⟨rfl, rfl⟩⟩ := beyond
    · exact start.along along
    · have row : s₁.rows r = s.rows r := congrFun along.rows r
      have row' : t₁.rows r = t.rows r := congrFun along.rows' r
      rw [← row, ← row']
      exact (start.along along).advanced r
  · intro x member
    obtain ⟨e, bound, rfl⟩ := List.mem_map.mp member
    exact ⟨rfl, r, bound⟩

end Row

namespace Query
open Session

variable {api : Cfitsio} {S : DynamicBitset} {source h : HduData} {names : List String}
  {src dest : Nat}

theorem run_lockstep (doc : Documented api) (lawful : S.Lawful) (raw : RawBytes api)
    (answers : CellAnswers api) (likeness : Likeness api source h names h) {query : Query S}
    (proper : query.Proper api source names) :
    Lockstep (Mirrored api source h names src dest) (query.run api src) (query.run api dest) := by
  cases query with
  | numRows r =>
    refine Lockstep.map (fun s t mirrored => ?_)
    have rows := onWorld_of_ok (Table.numRows_of_attached doc mirrored.own)
    have rows' := onWorld_of_ok (Table.numRows_of_attached doc mirrored.own')
    unfold Row.numRows Row.own
    rw [mirrored.rows r]
    dsimp only
    rw [mirrored.tables r, rows, rows', mirrored.unit, mirrored.unit', likeness.mirrors.nrows]
    exact ⟨rfl, mirrored.inWorld World.moved_onto World.moved_onto⟩
  | numColumns r | idx r | autoAdvance r =>
    intro s t mirrored
    refine ⟨?_, mirrored⟩
    rw [mirrored.rows r]
  | new r =>
    refine Lockstep.map (fun s t mirrored => ?_)
    refine ⟨rfl, mirrored.setRow r ⟨src, 1, true, []⟩ rfl (Int.le_refl 1) ?_⟩
    exact fun _ member => absurd member List.not_mem_nil
  | copy r original =>
    refine Lockstep.map (fun s t mirrored => ?_)
    have copied := mirrored.setRow r _ (mirrored.tables original) (mirrored.first original)
      (mirrored.known original)
    rw [← mirrored.rows original] at copied
    exact ⟨rfl, copied⟩
  | add r columnName v =>
    obtain ⟨member, bits⟩ := proper
    exact (Row.add_mirrored doc lawful member (likeness.common _ member) bits).map
  | assign vars =>
    refine Lockstep.map (fun s t mirrored => ?_)
    exact ⟨rfl, mirrored.assign vars⟩
  | setIdx r i =>
    refine Lockstep.map (fun s t mirrored => ?_)
    exact ⟨rfl, mirrored.steer r (fun row => { row with idx := i }) (fun _ _ => rfl) rfl proper⟩
  | advance r nrows =>
    refine Lockstep.map (fun s t mirrored => ?_)
    have later : 1 ≤ (s.rows r).idx + nrows :=
      Int.le_trans (mirrored.first r) (Int.le_add_of_nonneg_right proper)
    exact ⟨rfl, mirrored.steer r (fun row => { row with idx := row.idx + nrows }) (fun _ _ => rfl)
      rfl later⟩
  | setAutoAdvance r flag =>
    refine Lockstep.map (fun s t mirrored => ?_)
    exact ⟨rfl, mirrored.steer r (fun row => { row with autoAdvance := flag }) (fun _ _ => rfl) rfl
      (mirrored.first r)⟩
  | read r => exact (Row.read_mirrored doc lawful raw answers likeness).map

theorem seen_lockstep (doc : Documented api) (lawful : S.Lawful) (raw : RawBytes api)
    (answers : CellAnswers api) (likeness : Likeness api source h names h) {query : Query S}
    (proper : query.Proper api source names) :
    Lockstep (Mirrored api source h names src dest) (query.seen api src) (query.seen api dest) :=
  (run_lockstep doc lawful raw answers likeness proper).attempt.bind
    (fun answer _ _ mirrored => ⟨congrArg (Prod.mk answer) mirrored.vars.symm, mirrored⟩)

/-- All that is ever seen is the same on both sides, whatever is called next. -/
theorem converse_mirrored (doc : Documented api) (lawful : S.Lawful) (raw : RawBytes api)
    (answers : CellAnswers api) (likeness : Likeness api source h names h)
    {next : List (Seen S) → Query S} (proper : ∀ seen, (next seen).Proper api source names)
    {s t : Session S} (mirrored : Mirrored api source h names src dest s t) (calls : Nat) :
    ∃ seen s' t', converse (Query.seen api src) next calls [] s = .ok seen s' ∧
      converse (Query.seen api dest) next calls [] t = .ok seen t' := by
  have both := Lockstep.converse
    (fun seen => seen_lockstep doc lawful raw answers likeness (proper seen)) calls [] s t mirrored
  obtain ⟨seen, s', run⟩ := converse_ok (fun query => seen_returns api src query) calls [] s
  obtain ⟨seen', t', run'⟩ := converse_ok (fun query => seen_returns api dest query) calls [] t
  rw [run, run'] at both
  obtain ⟨rfl, _⟩ := both
  exact ⟨seen, s', t', run, run'⟩

end Query

end MisFITS
