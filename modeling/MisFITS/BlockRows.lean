import MisFITS.MemBlock

/-! Memory blocks that are bound to the columns of a row: what a call that returns
binds, and what a call that throws leaves. -/
namespace MisFITS
open Program HDU

namespace Row
open Session

variable (api : Cfitsio) {S : DynamicBitset} (r : Nat) (base : Address)

def variableAt (entry : EntryBase) : Variable := ⟨entry.type, (base + entry.offset).toNat⟩

/-- `Row::add( base, block )`, for the entries of the block. -/
def addBlock (block : List EntryBase) : RowM S Unit :=
  block.foldlM (fun _ entry => add api r entry.name (variableAt base entry)) ()

def BoundAs (s : Session S) (entry : EntryBase) (bound : Entry) : Prop :=
  ∃ k info column before after,
    api.getColnum (s.world.unitOf (.table (s.rows r).table)).names entry.name = .ok k ∧
    (s.world.tables (s.rows r).table).columns[k - 1]? = some info ∧
    entry.type.make S info before = .ok column after ∧ bound = ⟨variableAt base entry, column⟩

structure Gains (block : List EntryBase) (s s' : Session S) : Prop where
  moved : s.world.Moved s'.world
  row : s'.rows r =
    { s.rows r with entries := (s.rows r).entries ++ List.range' s.made block.length }
  others : ∀ q, q ≠ r → s'.rows q = s.rows q
  made : s'.made = s.made + block.length
  old : ∀ e < s.made, s'.entries e = s.entries e
  bound : ∀ i entry, block[i]? = some entry →
    BoundAs api r base s entry (s'.entries (s.made + i))

variable {api r base} {s s' s'' : Session S} {block : List EntryBase} {entry : EntryBase}

theorem gains_nil : Gains api r base [] s s where
  moved := .refl _
  row := by simp
  others _ _ := rfl
  made := rfl
  old _ _ := rfl
  bound i entry member := by simp at member

theorem gains_add (doc : Documented api) (gains : Gains api r base block s s') {u : Unit}
    (run : add api r entry.name (variableAt base entry) s' = .ok u s'') :
    Gains api r base (block ++ [entry]) s s'' := by
  obtain ⟨k, info, column, value, number, _, found, made, rfl⟩ := Session.add_ok doc run
  have table : (s'.rows r).table = (s.rows r).table := by rw [gains.row]
  rw [table, gains.moved.unitOf] at number
  rw [table, gains.moved.tables] at found
  refine ⟨gains.moved.trans World.moved_onto, ?_, fun q other => ?_, ?_, fun e old => ?_,
    fun i e member => ?_⟩
  · have row : ((onto s' r).bindColumn r (variableAt base entry) column value).rows r =
        { s'.rows r with entries := (s'.rows r).entries ++ [s'.made] } := Function.update_self ..
    rw [row, gains.row, gains.made, List.length_append, List.length_singleton,
      List.range'_concat, List.append_assoc, Nat.one_mul]
  · exact (Function.update_of_ne other ..).trans (gains.others q other)
  · change s'.made + 1 = _
    rw [gains.made, List.length_append, List.length_singleton, Nat.add_assoc]
  · have low : e < s'.made := by
      rw [gains.made]
      omega
    exact (entries_bindColumn_lt (s := onto s' r) low).trans (gains.old e old)
  · rcases Nat.lt_or_ge i block.length with inside | outside
    · rw [List.getElem?_append_left inside] at member
      have low : s.made + i < s'.made := by
        rw [gains.made]
        omega
      rw [entries_bindColumn_lt (s := onto s' r) low]
      exact gains.bound i e member
    · rw [List.getElem?_append_right outside, List.getElem?_singleton] at member
      obtain ⟨last, rfl⟩ : i - block.length = 0 ∧ entry = e := by simpa using member
      have place : s.made + i = (onto s' r).made := by
        change _ = s'.made
        rw [gains.made]
        omega
      rw [place, entries_bindColumn_self]
      exact ⟨k, info, column, _, value, number, found, made, rfl⟩

theorem addBlock_gains (doc : Documented api) {u : Unit}
    (run : addBlock api r base block s = .ok u s') : Gains api r base block s s' := by
  have gains := loop_ok (I := fun done _ t => Gains api r base done s t) []
    (fun done entry _ t _ t' held step => gains_add doc held step) gains_nil run
  simpa using gains

/-- A column that could not be bound leaves the cursors and what they have bound. -/
theorem add_error {columnName : String} {v : Variable} {e : Exception}
    (run : add api r columnName v s = .error e s') :
    s.world.Moved s'.world ∧ s'.rows = s.rows ∧ s'.made = s.made ∧ s'.entries = s.entries := by
  have looks : s.world.Moved
      (after (Table.colinfoByName api (s.rows r).table columnName s.world)) :=
    Table.moved_colinfoByName s.world
  rcases bind_error.mp run with failed | ⟨info, t, finds, run⟩
  · unfold onWorld at failed
    split at failed <;> rename_i found <;> cases failed
    rw [found] at looks
    exact ⟨looks, rfl, rfl, rfl⟩
  · obtain ⟨w, found, still⟩ := onWorld_ok.mp finds
    rw [found] at looks
    subst still
    rcases bind_error.mp run with failed | ⟨_, _, _, failed⟩
    · unfold makeShared at failed
      split at failed <;> cases failed
      exact ⟨looks, rfl, rfl, rfl⟩
    · cases failed

/-- A call that throws has bound the entries of the block before the one that it
throws at, and the cursor is as before only when that is the first. -/
theorem failed_add (doc : Documented api) {e : Exception}
    (run : addBlock api r base block s = .error e s') :
    ∃ done bad rest, block = done ++ bad :: rest ∧ Gains api r base done s s' ∧
      (∃ t, addBlock api r base done s = .ok () t ∧
        add api r bad.name (variableAt base bad) t = .error e s') ∧
      (s'.rows r = s.rows r ↔ done = []) := by
  obtain ⟨done, bad, rest, _, t, split, bound, thrown⟩ := loop_error
    (I := fun done u t => addBlock api r base done s = .ok u t) []
    (fun _ _ _ _ _ _ before step => loop_snoc before step) rfl run
  rw [List.nil_append] at bound
  have gains := addBlock_gains doc bound
  obtain ⟨moved, rows, made, entries⟩ := add_error thrown
  have left : Gains api r base done s s' :=
    { moved := gains.moved.trans moved
      row := by rw [rows, gains.row]
      others := by simpa only [rows] using gains.others
      made := by rw [made, gains.made]
      old := by simpa only [entries] using gains.old
      bound := by simpa only [entries] using gains.bound }
  refine ⟨done, bad, rest, split, left, ⟨t, bound, thrown⟩, fun same => ?_, fun first => ?_⟩
  · have count := congrArg (fun row : Row => row.entries.length) (left.row.symm.trans same)
    dsimp only at count
    rw [List.length_append, List.length_range'] at count
    exact List.eq_nil_of_length_eq_zero (by omega)
  · rw [left.row, first]
    simp

def unbound : Session listBitset where
  world := (Reference.world (Reference.table [Reference.newColumn "A" 1 .byte] 1)
    Reference.primary Reference.primary).setColumns 0 [Reference.byteInfo]
  vars v := v.target.nothing
  made := 0
  entries _ := ⟨⟨.native .byte false, 0⟩, { colnum := 1, nelem := 1, natomic := 1, id := .byte }⟩
  rows _ := { table := 0, idx := 1, autoAdvance := true, entries := [] }

def halfMissing : List EntryBase :=
  [⟨"A", 0, .native .byte false⟩, ⟨"B", 1, .native .byte false⟩]

theorem failed_add_second : ∃ e s' done bad rest, halfMissing = done ++ bad :: rest ∧
    Gains Reference.api 0 64 done unbound s' ∧
    (∃ t, addBlock Reference.api 0 64 done unbound = .ok () t ∧
      add Reference.api 0 bad.name (variableAt 64 bad) t = .error e s') ∧
    (s'.rows 0 = unbound.rows 0 ↔ done = []) := by
  obtain ⟨e, s', run⟩ : ∃ e s', addBlock Reference.api 0 64 halfMissing unbound = .error e s' :=
    ⟨_, _, rfl⟩
  exact ⟨e, s', failed_add Reference.documented run⟩

/-- The second entry names no column, and the first one stays bound. -/
theorem not_undone : ∃ e s', addBlock Reference.api 0 64 halfMissing unbound = .error e s' ∧
    (unbound.rows 0).entries = [] ∧ (s'.rows 0).entries = [0] := ⟨_, _, rfl, rfl, rfl⟩

end Row

namespace MemBlock

/-- Every block that has been built binds its leaves, one by one. To add a block
changes no other one, and nested blocks might as well be added at the sum of their offsets. -/
theorem tree_bound {api : Cfitsio} (doc : Documented api) (calls : List Call)
    (apart : ∀ c ∈ calls, c.Apart) :
    ∃ s, runAll calls noBlocks = .ok () s ∧
      (∀ (S : DynamicBitset) (r b : Nat) (base : Address) (t t' : Session S),
        Row.addBlock api r base (s.entries b) t = .ok () t' →
        Row.Gains api r base (leaves 0 (calls.foldl Call.onTrees noTrees b).2) t t') ∧
      (∀ d b offset, d ≠ b → ∃ s', add d offset b s = .ok () s' ∧
        Blocks.Adds d ((s.entries b).map (·.shift offset)) s s') ∧
      (∀ b c d inner outer, c ≠ b → d ≠ c → d ≠ b →
        ∃ s₁ s₂, runAll [.add c inner b, .add d outer c] s = .ok () s₁ ∧
          runAll [.add d outer c, .add d (outer + inner) b] s = .ok () s₂ ∧
          s₁.entries d = s₂.entries d) ∧
      (∀ b c d inner outer base, c ≠ b → d ≠ c → d ≠ b →
        ∃ s₁ s₂, runAll [.new c base, .add c inner b, .add d outer c] s = .ok () s₁ ∧
          add d (outer + inner) b s = .ok () s₂ ∧ s₁.entries d = s₂.entries d) := by
  obtain ⟨s, run, built⟩ := built_run built_noBlocks apart
  refine ⟨s, run, fun S r b base t t' binds => ?_, fun d b offset other => ?_,
    fun b c d inner outer inside beside other => ?_,
    fun b c d inner outer base inside beside other => ?_⟩
  · rw [← built.entries b]
    exact Row.addBlock_gains doc binds
  · obtain ⟨s', adds, _, kept⟩ := add_adds offset built.valid other
    exact ⟨s', adds, kept⟩
  · obtain ⟨s₁, twice, first⟩ := nest_twice inner outer built.valid inside beside
    obtain ⟨s₂, once, second⟩ := nest_beside inner outer built.valid beside other
    exact ⟨s₁, s₂, twice, once, first.trans second.symm⟩
  · obtain ⟨s₀, fresh, valid, blank, others⟩ := new_blank (c := c) built.valid base
    obtain ⟨s₁, twice, first⟩ := nest_twice inner outer valid inside beside
    obtain ⟨s₂, once, _, second⟩ := add_adds (outer + inner) built.valid other
    refine ⟨s₁, s₂, bind_ok.mpr ⟨(), s₀, fresh, twice⟩, once, ?_⟩
    rw [first, blank, List.map_nil, List.append_nil, others d beside, others b inside.symm,
      second.self]

def nested : List Call :=
  [.new 0 100, .addAddr 0 "A" (.native .byte false) 104, .addOffset 0 "A" (.native .byte true) 8,
    .new 1 0, .add 1 16 0, .add 1 32 0, .new 2 0, .addOffset 2 "A" (.native .short false) 0,
    .add 2 64 1]

def nestedLeaves : List EntryBase :=
  [⟨"A", 0, .native .short false⟩, ⟨"A", 84, .native .byte false⟩, ⟨"A", 88, .native .byte true⟩,
    ⟨"A", 100, .native .byte false⟩, ⟨"A", 104, .native .byte true⟩]

theorem tree_bound_nested : ∃ s t', runAll nested noBlocks = .ok () s ∧
    Row.addBlock Reference.api 0 4096 (s.entries 2) Row.unbound = .ok () t' ∧
    Row.Gains Reference.api 0 4096 nestedLeaves Row.unbound t' := by
  obtain ⟨s, run, binds, _⟩ := tree_bound Reference.documented nested (by decide)
  have same : s = after (runAll nested noBlocks) := by
    rw [run]
    rfl
  have returns : returned (Row.addBlock Reference.api 0 4096
      ((after (runAll nested noBlocks)).entries 2) Row.unbound) = true := by decide +kernel
  rw [← same] at returns
  exact ⟨s, _, run, ok_of_returned returns, binds listBitset 0 2 4096 _ _ (ok_of_returned returns)⟩

end MemBlock
end MisFITS
