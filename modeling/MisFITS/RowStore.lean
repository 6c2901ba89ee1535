import MisFITS.Lines

/-! Programs that bind, write and read rows through any cursors, in any order: what is
read is what was written last. -/
namespace MisFITS
open Program HDU RowEntry Run Session

def Row.Names (api : Cfitsio) {S : DynamicBitset} (s : Session S) (r : Nat) (columnName : String)
    (info : ColumnInfo) : Prop :=
  ∃ k, api.getColnum (s.world.unitOf (.table (s.rows r).table)).names columnName = .ok k ∧ 1 ≤ k ∧
    (s.world.tables (s.rows r).table).columns[k - 1]? = some info

/-- A binding to an array that has room, and to a variable that other columns use only
with the length that this one gives it. Bits are bound to bytes or to a set of bits. -/
structure Row.Bindable (api : Cfitsio) {S : DynamicBitset} (s : Session S) (r : Nat)
    (columnName : String) (v : Variable) : Prop where
  bits : ∀ info, Row.Names api s r columnName info → info.columnType.id = .bit →
    v.target.bytewise = true
  array : ∀ info, Row.Names api s r columnName info → v.target.pointer = true →
    v.target.cellCount info ≤ v.target.room S (s.vars v)
  shared : ∀ e < s.made, (s.entries e).var = v → ∀ info column value,
    Row.Names api s r columnName info → v.target.make S info (s.vars v) = .ok column value →
    v.target.room S value = v.target.room S (s.vars v)

inductive RowEvent (S : DynamicBitset) where
  | new (r table : Nat)
  | add (r : Nat) (columnName : String) (v : Variable)
  | assign (vars : Record S)
  | write (r : Nat)
  | call (e : Event)

/-- One call, of those that write one that returns, or an assignment to variables that
keeps their lengths. -/
def RowStep (api : Cfitsio) {S : DynamicBitset} : RowEvent S → Session S → Session S → Prop
  | .new r table, s, s' => Grounded s.world table ∧ Row.new r table s = .ok () s'
  | .add r columnName v, s, s' =>
    Row.Bindable api s r columnName v ∧ Row.add api r columnName v s = .ok () s'
  | .assign vars, s, s' =>
    (∀ v : Variable, v.target.room S (vars v) = v.target.room S (s.vars v)) ∧ s' = { s with vars }
  | .write r, s, s' => 1 ≤ (s.rows r).idx ∧ Row.write api r s = .ok () s'
  | .call e, s, s' => s' = e.perform api s

def RowEvent.hands {S : DynamicBitset} : RowEvent S → Session S → List ((Nat × Int) × CellWrite)
  | .write r, s => Row.handedOver r s
  | _, _ => []

namespace Session

variable {api : Cfitsio} {S : DynamicBitset} {s s' : Session S} {r e : Nat} {v : Variable}
  {column : v.target.Column} {value : v.target.Value S} {heads : List ColHead}

theorem Made.bindColumn_old (made : Made heads s e) (low : e < s.made)
    (shared : (s.entries e).var = v → v.target.room S value = v.target.room S (s.vars v)) :
    Made heads (s.bindColumn r v column value) e := by
  have room : (s.entries e).var.target.room S
      ((s.bindColumn r v column value).vars (s.entries e).var) =
        (s.entries e).var.target.room S (s.vars (s.entries e).var) := by
    by_cases self : (s.entries e).var = v
    · have same := shared self
      subst self
      rw [vars_bindColumn_self, same]
    · rw [vars_bindColumn_ne self]
  constructor
  · unfold Session.Ready
    rw [entries_bindColumn_lt low, room]
    exact made.ready
  · unfold Session.Fits
    rw [entries_bindColumn_lt low, room]
    exact made.fits
  · rw [entries_bindColumn_lt low]
    exact made.positive
  · rw [entries_bindColumn_lt low]
    exact made.lies

theorem Made.bindColumn_new (positive : 0 < v.target.natomic column) (lies : v.target.Lies heads column)
    (ready : v.target.Ready column (v.target.room S value))
    (fits : v.target.Fits column (v.target.room S value)) :
    Made heads (s.bindColumn r v column value) s.made := by
  constructor
  · unfold Session.Ready
    rw [entries_bindColumn_self, vars_bindColumn_self]
    exact ready
  · unfold Session.Fits
    rw [entries_bindColumn_self, vars_bindColumn_self]
    exact fits
  · rw [entries_bindColumn_self]
    exact positive
  · rw [entries_bindColumn_self]
    exact lies

theorem Usable.onto (usable : Usable s) : Usable (Row.onto s r) :=
  usable.step .onto World.moved_onto.sameHeads (fun _ ground => ground.moved World.moved_onto)
    (fun q => ⟨q, rfl, rfl⟩)

theorem Usable.bindColumn (usable : Usable s)
    (shared : ∀ e < s.made, (s.entries e).var = v →
      v.target.room S value = v.target.room S (s.vars v))
    (made : Made (s.world.unitOf (.table (s.rows r).table)).heads (s.bindColumn r v column value)
      s.made) : Usable (s.bindColumn r v column value) := by
  have world : (s.bindColumn r v column value).world = s.world := rfl
  refine ⟨fun q => ?_, fun q e member => ?_, fun q e member => ?_, fun q => ?_⟩
  · rw [table_bindColumn, world]
    exact usable.ground q
  · rw [table_bindColumn, world]
    rcases mem_entries_bindColumn member with before | ⟨rfl, rfl⟩
    · have low := usable.below q e before
      exact (usable.columns q e before).bindColumn_old low (shared e low)
    · exact made
  · rcases mem_entries_bindColumn member with before | ⟨rfl, _⟩
    · exact (usable.below q e before).trans (Nat.lt_succ_self _)
    · exact Nat.lt_succ_self _
  · by_cases self : q = r
    · subst self
      have entries : ((s.bindColumn q v column value).rows q).entries =
          (s.rows q).entries ++ [s.made] := by simp [Session.bindColumn, setRow]
      rw [entries]
      refine List.nodup_append.mpr ⟨usable.nodup q, by simp, fun a old b new => ?_⟩
      rw [List.mem_singleton.mp new]
      exact Nat.ne_of_lt (usable.below q a old)
    · have entries : ((s.bindColumn r v column value).rows q).entries = (s.rows q).entries := by
        simp [Session.bindColumn, setRow, self, store]
      rw [entries]
      exact usable.nodup q

theorem Usable.add (doc : Documented api) (lawful : S.Lawful) (usable : Usable s)
    {columnName : String} (bindable : Row.Bindable api s r columnName v) {u : Unit}
    (run : Row.add api r columnName v s = .ok u s') : s.world.Moved s'.world ∧ Usable s' := by
  obtain ⟨k, info, column, value, number, low, entry, made, rfl⟩ := add_ok doc run
  have names : Row.Names api s r columnName info := ⟨k, number, low, entry⟩
  have lies := (usable.ground r).described info (List.mem_of_getElem? entry)
  obtain ⟨positive, inside, ready, fits⟩ :=
    Target.make_binds lawful lies (bindable.bits info names) (bindable.array info names) made
  refine ⟨World.moved_onto, usable.onto.bindColumn (fun e old self => ?_) ?_⟩
  · exact bindable.shared e old self info column value names made
  · refine .bindColumn_new positive ?_ ready fits
    change v.target.Lies ((s.world.onto _).unitOf _).heads column
    rw [World.unitOf_onto]
    exact inside

theorem Usable.new (usable : Usable s) {t : Nat} (ground : Grounded s.world t) :
    Usable (s.setRow r { table := t, idx := 1, autoAdvance := true, entries := [] }) := by
  have self : (s.setRow r { table := t, idx := 1, autoAdvance := true, entries := [] }).rows r =
      { table := t, idx := 1, autoAdvance := true, entries := [] } := Function.update_self ..
  have other : ∀ q, q ≠ r →
      (s.setRow r { table := t, idx := 1, autoAdvance := true, entries := [] }).rows q = s.rows q :=
    fun q ne => Function.update_of_ne ne ..
  constructor <;> intro q <;> by_cases here : q = r
  · rw [here, self]
    exact ground
  · rw [other q here]
    exact usable.ground q
  · rw [here, self]
    exact fun e member => nomatch member
  · rw [other q here]
    exact fun e member => (usable.columns q e member).of_alike ⟨fun _ => rfl, .refl s, rfl⟩
  · rw [here, self]
    exact fun e member => nomatch member
  · rw [other q here]
    exact usable.below q
  · rw [here, self]
    exact List.nodup_nil
  · rw [other q here]
    exact usable.nodup q

end Session

section Runs

variable {api : Cfitsio} {holding : Holding} {S : DynamicBitset} {w₀ : World} {s s' : Session S}
  {r : Nat}

theorem RowStep.known (doc : Documented api) (raw : RawBytes api) (typed : TypedCells api holding)
    (lawful : S.Lawful) {a : RowEvent S} (step : RowStep api a s s') (same : w₀.SameHeads s.world)
    (usable : Usable s) :
    (Usable s' ∧ w₀.SameHeads s'.world) ∧ ∀ K, Facts.Known (cellFacts api holding w₀) K s.world →
      Facts.Known (cellFacts api holding w₀)
        (Facts.writes (cellFacts api holding w₀) K (a.hands s)) s'.world := by
  cases a with
  | new r table =>
    obtain ⟨ground, run⟩ := step
    cases run
    exact ⟨⟨usable.new ground, same⟩, fun _ known => known⟩
  | add r columnName v =>
    obtain ⟨bindable, run⟩ := step
    obtain ⟨moved, usable'⟩ := usable.add doc lawful bindable run
    exact ⟨⟨usable', same.trans moved.sameHeads⟩, fun _ known => known_moved moved known⟩
  | assign vars =>
    obtain ⟨rooms, rfl⟩ := step
    refine ⟨⟨?_, same⟩, fun _ known => known⟩
    exact usable.step ⟨rooms, .refl s, rfl⟩ (.refl _) (fun _ ground => ground) (fun q => ⟨q, rfl, rfl⟩)
  | write r =>
    obtain ⟨first, run⟩ := step
    have wrote := Row.write_recorded doc raw typed lawful same usable first run
    exact ⟨⟨wrote.usable, wrote.same⟩, wrote.known⟩
  | call e =>
    cases step
    have retained : Retained s (e.perform api s) := retained_perform lawful usable e
    exact ⟨⟨usable.retained retained, same.trans retained.world.sameHeads⟩,
      fun _ known => known_moved retained.world known⟩

end Runs

def Entry.Takes (api : Cfitsio) {S : DynamicBitset} (h : HduData) (row : Int) (entry : Entry)
    (vars vars' : Record S) : Prop :=
  ∃ data column, entry.var.target.request api entry.column row h = .ok data ∧
    entry.var.target.load S entry.column (vars entry.var) data = .ok (column, vars' entry.var)

namespace Session

variable {api : Cfitsio} {S : DynamicBitset} {s s' : Session S} {h : HduData} {row : Int}
  {es : List Nat} {e : Nat}

theorem Delivered.takes (delivered : Delivered api h row es s s') (nodup : es.Nodup)
    (member : e ∈ es)
    (alone : ∀ e' ∈ es, e' ≠ e → (s.entries e').var ≠ (s.entries e).var) :
    (s.entries e).Takes api h row s.vars s'.vars := by
  induction delivered with
  | nil => cases member
  | @cons e₀ es s s' data column value cell load rest ih =>
    obtain ⟨fresh, nodup⟩ := List.nodup_cons.mp nodup
    have entry : ∀ e' ∈ es, (s.store e₀ (s.entries e₀).var column value).entries e' = s.entries e' :=
      fun e' later => entries_store_ne (fun self => fresh (self ▸ later))
    rcases List.mem_cons.mp member with rfl | later
    · refine ⟨data, column, cell, ?_⟩
      have kept := rest.vars_ne (v := (s.entries e).var) (fun e' later => by
        rw [entry e' later]
        exact alone e' (List.mem_cons_of_mem e later) (fun self => fresh (self ▸ later)))
      have here : (s.store e (s.entries e).var column value).vars (s.entries e).var = value :=
        Function.update_self ..
      rw [kept, here]
      exact load
    · have other : e₀ ≠ e := fun self => fresh (self ▸ later)
      have apart := alone e₀ List.mem_cons_self other
      have taken := ih nodup later (fun e' there ne => by
        rw [entry e' there, entry e later]
        exact alone e' (List.mem_cons_of_mem e₀ there) ne)
      rw [entry e later] at taken
      unfold Entry.Takes at taken ⊢
      rwa [vars_store_ne apart.symm] at taken

end Session

namespace Row

variable {api : Cfitsio} {S : DynamicBitset} {s : Session S} {r : Nat}

structure Took (api : Cfitsio) (r : Nat) (s s' : Session S) : Prop where
  retained : Retained s s'
  rows : s'.rows = Function.update s.rows r (next (s.rows r))
  takes : ∀ e ∈ (s.rows r).entries,
    (∀ e' ∈ (s.rows r).entries, e' ≠ e → (s.entries e').var ≠ (s.entries e).var) →
    (s.entries e).Takes api (s.world.unitOf (.table (s.rows r).table)) (s.rows r).idx s.vars s'.vars

theorem read_took (doc : Documented api) (lawful : S.Lawful) (usable : Usable s)
    (bound : (s.rows r).entries ≠ [])
    (high : (s.rows r).idx ≤ (s.world.unitOf (.table (s.rows r).table)).nrows)
    (readable : ∀ e ∈ (s.rows r).entries, Readable api (s.world.unitOf (.table (s.rows r).table))
      (s.rows r).idx (s.entries e)) :
    ∃ s', read api r s = .ok true s' ∧ Took api r s s' := by
  have unit : (onto s r).world.unitOf (.table (s.rows r).table) =
      s.world.unitOf (.table (s.rows r).table) := World.unitOf_onto
  have fits : ∀ e ∈ (s.rows r).entries, s.Fits e := fun e member => (usable.columns r e member).fits
  obtain ⟨s', run, delivered, stored⟩ := readEntries (s := onto s r) lawful World.current_of_onto
    fits (fun e member => by rw [unit]; exact readable e member)
  rw [unit] at delivered
  have row : s'.rows r = s.rows r := congrFun stored.rows r
  have reads : read api r s = .ok true (s'.setRow r (next (s.rows r))) := by
    rw [read_eq doc bound (usable.ground r).attached, if_neg (by omega), bind_of_ok run,
      bind_of_ok advanceAuto_eq, row]
    rfl
  refine ⟨_, reads, ?_, ?_, fun e member alone => ?_⟩
  · have kept : Retained s (after (read api r s)) := retained_read lawful fits
    rw [reads] at kept
    exact kept
  · exact congrArg (Function.update · r (next (s.rows r))) stored.rows
  · exact delivered.takes (usable.nodup r) member alone

variable {holding : Holding} {w₀ : World} {K : Set ((Nat × Int) × CellWrite)}

/-- Each column that shares its variable with no other one has taken these elements. -/
def Loaded (s : Session S) (r : Nat) (data : (e : Nat) → List (s.entries e).var.target.storage.Native)
    (vars : Record S) : Prop :=
  ∀ e ∈ (s.rows r).entries,
    (∀ e' ∈ (s.rows r).entries, e' ≠ e → (s.entries e').var ≠ (s.entries e).var) →
    ∃ column, (s.entries e).var.target.load S (s.entries e).column (s.vars (s.entries e).var)
      (data e) = .ok (column, vars (s.entries e).var)

/-- A row of which all is known is read as it is known. -/
theorem read_known (doc : Documented api) (lawful : S.Lawful) (usable : Usable s)
    (same : w₀.SameHeads s.world) (known : Facts.Known (cellFacts api holding w₀) K s.world)
    (bound : (s.rows r).entries ≠ [])
    (data : (e : Nat) → List (s.entries e).var.target.storage.Native)
    (all : ∀ e ∈ (s.rows r).entries, asked s r e (data e) ∈ K ∧
      (asked s r e (data e)).2.Held holding (s.world.unitOf (.table (s.rows r).table)).heads ∧
      (data e).length = ((s.entries e).var.target.natomic (s.entries e).column).toNat) :
    ∃ s', read api r s = .ok true s' ∧ Took api r s s' ∧ Loaded s r data s'.vars := by
  have asks : ∀ e ∈ (s.rows r).entries,
      (s.rows r).idx ≤ (s.world.unitOf (.table (s.rows r).table)).nrows ∧
      (s.entries e).var.target.request api (s.entries e).column (s.rows r).idx
        (s.world.unitOf (.table (s.rows r).table)) = .ok (data e) ∧
      (data e).length = (s.entries e).var.target.count (s.entries e).column := by
    intro e member
    obtain ⟨inside, held, whole⟩ := all e member
    have made := usable.columns r e member
    have heads : (w₀.unitAt (asked s r e (data e)).1).heads =
        (s.world.unitOf (.table (s.rows r).table)).heads := heads_unitAt same _
    exact Target.request_of_reads made.lies made.positive whole
      ((known _ inside).2 (by rw [heads]; exact held))
  obtain ⟨e₀, member₀⟩ := List.exists_mem_of_ne_nil _ bound
  obtain ⟨s', run, took⟩ := read_took doc lawful usable bound (asks e₀ member₀).1
    (fun e member => ⟨data e, (asks e member).2⟩)
  refine ⟨s', run, took, fun e member alone => ?_⟩
  obtain ⟨_, column, answer, load⟩ := took.takes e member alone
  cases (asks e member).2.1.symm.trans answer
  exact ⟨column, load⟩

/-- After any run, a cursor reads what was written last to the cells of its row. -/
theorem read_latest (doc : Documented api) (raw : RawBytes api) (typed : TypedCells api holding)
    (lawful : S.Lawful) {s₀ : Session S} {trace : List (RowEvent S × Session S)}
    (usable : Usable s₀) (run : Trace (RowStep api) s₀ trace) (ends : last s₀ trace = s)
    (bound : (s.rows r).entries ≠ [])
    (data : (e : Nat) → List (s.entries e).var.target.storage.Native)
    (latest : ∀ e ∈ (s.rows r).entries,
      Facts.Latest (cellFacts api holding s₀.world) (Facts.log RowEvent.hands s₀ trace)
        (asked s r e (data e)) ∧
      (asked s r e (data e)).2.Held holding (s.world.unitOf (.table (s.rows r).table)).heads ∧
      (data e).length = ((s.entries e).var.target.natomic (s.entries e).column).toNat) :
    ∃ s', read api r s = .ok true s' ∧ Took api r s s' ∧ Loaded s r data s'.vars := by
  subst ends
  obtain ⟨⟨usable', same⟩, known⟩ := Facts.known_run (V := cellFacts api holding s₀.world)
    (I := fun s => Usable s ∧ s₀.world.SameHeads s.world) (K := ∅)
    (fun _ _ _ step inv => step.known doc raw typed lawful inv.2 inv.1) run ⟨usable, .refl _⟩
    (fun _ inside => inside.elim)
  -- what was handed over last in the run is known at its end
  refine read_known doc lawful usable' same known bound data (fun e member => ?_)
  obtain ⟨written, held⟩ := latest e member
  exact ⟨Facts.mem_writes.mpr (Or.inr written), held⟩

/-- What a cursor has handed over is the latest of what it asks for in that row, when all
that was handed over later is for other rows or other header-data units. -/
theorem latest_of_handed (lawful : S.Lawful) {s' : Session S} (usable : Usable s)
    (usable' : Usable s') (same : w₀.SameHeads s.world)
    (apart : PartsApart (s.world.unitOf (.table (s.rows r).table)).heads s r)
    (stores : s.Stores r s.vars) (binding : SameBinding r s s')
    (idx : (s'.rows r).idx = (s.rows r).idx)
    (text : ∀ e ∈ (s'.rows r).entries, (s'.entries e).var.target.text = true)
    {log before later : List ((Nat × Int) × CellWrite)}
    (handed : log = before ++ (handedOver r s ++ later))
    (elsewhere : ∀ f ∈ later, f.1 ≠ s.world.placeOf (.table (s.rows r).table) ∨
      f.2.row ≠ (s.rows r).idx) :
    ∀ e ∈ (s'.rows r).entries,
      Facts.Latest (cellFacts api holding w₀) log (asked s' r e (stored s' s.vars e)) ∧
      (asked s' r e (stored s' s.vars e)).2.Held holding
        (s'.world.unitOf (.table (s'.rows r).table)).heads ∧
      (stored s' s.vars e).length =
        ((s'.entries e).var.target.natomic (s'.entries e).column).toNat := by
  intro e member
  have rooms : ∀ v : Variable, v.target.room S (s.vars v) = v.target.room S (s.vars v) :=
    fun _ => rfl
  have stores' := (binding.stores lawful usable rooms).mpr stores
  have line : s'.line r (s'.rows r).idx s.vars = s.line r (s'.rows r).idx s.vars :=
    binding.line lawful usable rooms
  have asks := asked_mem_line member (stores' e member)
  rw [line, idx] at asks
  refine ⟨?_, ?_, ?_⟩
  · rw [handed]
    refine (Facts.latest_of_pairwise (line_pairwise usable rooms (heads_unitAt same _) apart)
      apart_symm asks).within before (fun f inside => ?_)
    obtain ⟨place, row⟩ := mem_line asks
    refine (elsewhere f inside).imp (fun other => ?_) (fun other => Or.inl ?_)
    · rwa [place]
    · rwa [row]
  · exact Target.held_cell (text e member)
  · exact stored_length usable' (fun v => (binding.alike.rooms v).symm) member (stores' e member)

theorem row_handed {f : (Nat × Int) × CellWrite} (member : f ∈ handedOver r s) :
    f.2.row = (s.rows r).idx := by
  have inside : f ∈ s.line r (s.rows r).idx s.vars := member
  exact (mem_line inside).2

end Row

section Both
open Table StringColumn

theorem grown_both : Grown withBoth 0 := by
  have doc := Reference.documented_raw
  have adds : ∀ p ∈ stringAdds, ColumnEdit.Adds p.1 := by
    intro p member
    simp only [stringAdds, List.mem_cons, List.not_mem_nil, or_false] at member
    rcases member with rfl | rfl <;> exact ⟨by decide, by decide⟩
  have empty : (blankTable.unitOf (.table 0)).cols.length = 0 := by decide +kernel
  have run : Trace (EditStep Reference.rawApi 0) blankTable stringAdds :=
    ⟨name_added, both_added, trivial⟩
  rw [← last_stringAdds]
  exact run_grown doc Reference.rawBytes adds run
    (.of_empty (synced_of_refresh doc blank_built) (List.eq_nil_of_length_eq_zero empty))

theorem grounded_both : Grounded withBoth 0 :=
  .of_grown ⟨by decide +kernel, by decide +kernel⟩ grown_both

theorem usable_opened {w : World} {t : Nat} (ground : Grounded w t) : Usable (opened w t) where
  ground _ := ground
  columns _ _ member := nomatch member
  below _ _ member := nomatch member
  nodup _ := List.nodup_nil

theorem both_bound :
    RowStep Reference.rawApi (.add 0 "A" ⟨.string, 0⟩) (opened withBoth 0) oneBound ∧
      RowStep Reference.rawApi (.add 0 "B" ⟨.strings, 0⟩) oneBound bothBound := by
  have others : ∀ e < oneBound.made, (oneBound.entries e).var ≠ ⟨.strings, 0⟩ := by decide +kernel
  constructor
  · exact ⟨⟨fun _ _ _ => rfl, fun _ _ array => (nomatch array), fun _ member => (nomatch member)⟩,
      ok_of_returned (by decide +kernel)⟩
  · exact ⟨⟨fun _ _ _ => rfl, fun _ _ array => (nomatch array),
      fun e low same => absurd same (others e low)⟩, ok_of_returned (by decide +kernel)⟩

theorem usable_both : Usable bothBound ∧ (opened withBoth 0).world.SameHeads bothBound.world := by
  have first := both_bound.1.known Reference.documented_raw Reference.rawBytes
    Reference.typedCells_raw listBitset_lawful (.refl (opened withBoth 0).world)
    (usable_opened grounded_both)
  exact (both_bound.2.known Reference.documented_raw Reference.rawBytes Reference.typedCells_raw
    listBitset_lawful first.1.2 first.1.1).1

theorem row_both : bothBound.rows 0 =
    { table := 0, idx := 1, autoAdvance := true, entries := [0, 1] } := by
  have table : (bothBound.rows 0).table = 0 := by decide +kernel
  have idx : (bothBound.rows 0).idx = 1 := by decide +kernel
  have auto : (bothBound.rows 0).autoAdvance = true := by decide +kernel
  have entries : (bothBound.rows 0).entries = [0, 1] := by decide +kernel
  generalize bothBound.rows 0 = row at *
  obtain ⟨_, _, _, _⟩ := row
  cases table
  cases idx
  cases auto
  cases entries
  rfl

theorem columns_both : bothBound.Unshared 0 ∧
    PartsApart (bothBound.world.unitOf (.table (bothBound.rows 0).table)).heads bothBound 0 ∧
      ∀ e ∈ (bothBound.rows 0).entries, (bothBound.entries e).var.target.text = true := by
  unfold Unshared PartsApart
  decide +kernel

theorem columns_assign {s : Session listBitset} (record : Record listBitset)
    (columns : s.Unshared 0 ∧ PartsApart (s.world.unitOf (.table (s.rows 0).table)).heads s 0 ∧
      ∀ e ∈ (s.rows 0).entries, (s.entries e).var.target.text = true) :
    (s.assign record).Unshared 0 ∧
      PartsApart ((s.assign record).world.unitOf (.table ((s.assign record).rows 0).table)).heads
        (s.assign record) 0 ∧
      ∀ e ∈ ((s.assign record).rows 0).entries,
        ((s.assign record).entries e).var.target.text = true := columns

theorem both_written : Row.write Reference.rawApi 0 bothBound = .ok () bothWritten :=
  ok_of_returned (by decide +kernel)

theorem wrote_both : Row.Wrote Reference.rawApi Reference.byteHolding (opened withBoth 0).world 0 bothBound
    bothWritten :=
  Row.write_recorded Reference.documented_raw Reference.rawBytes Reference.typedCells_raw
    listBitset_lawful usable_both.2 usable_both.1 (by rw [row_both]) both_written

def recordOf (a : List Byte) (b : List (List Byte)) : Record listBitset :=
  Function.update (Function.update bothBound.vars ⟨.string, 0⟩ a) ⟨.strings, 0⟩ b

theorem rooms_recordOf {a : List Byte} {b : List (List Byte)} (two : b.length = 2) (v : Variable) :
    v.target.room listBitset (recordOf a b v) =
      v.target.room listBitset (bothBound.vars v) := by
  have length : (bothBound.vars ⟨.strings, 0⟩ : List (List Byte)).length = 2 := by decide +kernel
  unfold recordOf
  by_cases strings : v = ⟨.strings, 0⟩
  · subst strings
    rw [Function.update_self]
    exact two.trans length.symm
  · rw [Function.update_of_ne strings]
    by_cases string : v = ⟨.string, 0⟩
    · have zero : ∀ value, Target.room listBitset .string value = 0 := fun _ => rfl
      subst string
      exact (zero _).trans (zero _).symm
    · rw [Function.update_of_ne string]

def firstRecord : Record listBitset := recordOf (bytesOf "abc") [bytesOf "xy", bytesOf "z"]

def secondRecord : Record listBitset := recordOf (bytesOf "defg") [[], bytesOf "uvw"]

/-! The first record is written to the first row, and the second one to the two behind it. -/

def firstHeld : Session listBitset := bothBound.assign firstRecord

def firstWritten : Session listBitset := after (Row.write Reference.rawApi 0 firstHeld)

def secondHeld : Session listBitset := firstWritten.assign secondRecord

def secondWritten : Session listBitset := after (Row.write Reference.rawApi 0 secondHeld)

def thirdWritten : Session listBitset := after (Row.write Reference.rawApi 0 secondWritten)

def bothBack : Session listBitset := Event.perform Reference.rawApi thirdWritten (.setIdx 0 1)

def bothTrace : List (RowEvent listBitset × Session listBitset) :=
  [(.add 0 "A" ⟨.string, 0⟩, oneBound), (.add 0 "B" ⟨.strings, 0⟩, bothBound),
    (.assign firstRecord, firstHeld), (.write 0, firstWritten),
    (.assign secondRecord, secondHeld), (.write 0, secondWritten), (.write 0, thirdWritten),
    (.call (.setIdx 0 1), bothBack)]

theorem log_both : Facts.log RowEvent.hands (opened withBoth 0) bothTrace =
    [] ++ (Row.handedOver 0 firstHeld ++
      (Row.handedOver 0 secondHeld ++ Row.handedOver 0 secondWritten)) := by
  simp only [bothTrace, Facts.log, events, List.flatMap_cons, List.flatMap_nil, RowEvent.hands,
    List.nil_append, List.append_nil]

theorem last_both : last (opened withBoth 0) bothTrace = bothBack := by
  simp only [bothTrace, last]

structure WroteRow (n : Int) (s s' : Session listBitset) : Prop where
  run : Row.write Reference.rawApi 0 s = .ok () s'
  wrote : Row.Wrote Reference.rawApi Reference.byteHolding (opened withBoth 0).world 0 s s'
  row : s'.rows 0 = { table := 0, idx := n + 1, autoAdvance := true, entries := [0, 1] }

theorem wrote_row {s : Session listBitset} {n : Int} (usable : Usable s)
    (same : (opened withBoth 0).world.SameHeads s.world)
    (row : s.rows 0 = { table := 0, idx := n, autoAdvance := true, entries := [0, 1] }) (low : 1 ≤ n)
    (returns : returned (Row.write Reference.rawApi 0 s) = true) :
    WroteRow n s (after (Row.write Reference.rawApi 0 s)) := by
  have run := ok_of_returned returns
  have wrote := Row.write_recorded Reference.documented_raw Reference.rawBytes
    Reference.typedCells_raw listBitset_lawful same usable (by rw [row]; exact low) run
  refine ⟨run, wrote, ?_⟩
  rw [wrote.rows, Function.update_self, row]
  rfl

theorem row_assign {s : Session listBitset} {record : Record listBitset} :
    (s.assign record).rows 0 = s.rows 0 := rfl

theorem world_assign {s : Session listBitset} {record : Record listBitset} :
    (s.assign record).world = s.world := rfl

theorem vars_assign {s : Session listBitset} {record : Record listBitset} :
    (s.assign record).vars = record := rfl

theorem alike_assign {s : Session listBitset} {record : Record listBitset}
    (rooms : ∀ v : Variable, v.target.room listBitset (record v) =
      v.target.room listBitset (s.vars v)) : Alike s (s.assign record) := ⟨rooms, .refl s, rfl⟩

theorem rooms_first (v : Variable) :
    v.target.room listBitset (firstRecord v) = v.target.room listBitset (bothBound.vars v) :=
  rooms_recordOf (a := bytesOf "abc") (b := [bytesOf "xy", bytesOf "z"]) rfl v

theorem row_first : firstHeld.rows 0 =
    { table := 0, idx := 1, autoAdvance := true, entries := [0, 1] } := by
  unfold firstHeld
  rw [row_assign, row_both]

theorem usable_first : Usable firstHeld ∧ (opened withBoth 0).world.SameHeads firstHeld.world := by
  unfold firstHeld
  rw [world_assign]
  exact ⟨usable_both.1.assign rooms_first, usable_both.2⟩

theorem wrote_first : WroteRow 1 firstHeld firstWritten :=
  wrote_row usable_first.1 usable_first.2 row_first (Int.le_refl 1) (by decide +kernel)

theorem rooms_second (v : Variable) :
    v.target.room listBitset (secondRecord v) = v.target.room listBitset (firstWritten.vars v) := by
  have vars : firstHeld.vars = firstRecord := vars_assign
  rw [wrote_first.wrote.vars, vars, rooms_first]
  exact rooms_recordOf (a := bytesOf "defg") (b := [[], bytesOf "uvw"]) rfl v

theorem row_second : secondHeld.rows 0 =
    { table := 0, idx := 2, autoAdvance := true, entries := [0, 1] } := by
  unfold secondHeld
  rw [row_assign, wrote_first.row]
  rfl

theorem wrote_second : WroteRow 2 secondHeld secondWritten := by
  have usable : Usable secondHeld := wrote_first.wrote.usable.assign rooms_second
  have world : secondHeld.world = firstWritten.world := world_assign
  exact wrote_row usable (by rw [world]; exact wrote_first.wrote.same) row_second (by decide)
    (by decide +kernel)

theorem wrote_third : WroteRow 3 secondWritten thirdWritten :=
  wrote_row wrote_second.wrote.usable wrote_second.wrote.same wrote_second.row (by decide)
    (by decide +kernel)

theorem run_both : Trace (RowStep Reference.rawApi) (opened withBoth 0) bothTrace :=
  ⟨both_bound.1, both_bound.2, ⟨rooms_recordOf rfl, rfl⟩, ⟨by rw [row_first], wrote_first.run⟩,
    ⟨rooms_second, rfl⟩, ⟨by rw [row_second]; decide, wrote_second.run⟩,
    ⟨by rw [wrote_second.row]; decide, wrote_third.run⟩, rfl, trivial⟩

theorem row_setIdx {s : Session listBitset} {idx : Int} :
    (Event.perform Reference.rawApi s (.setIdx 0 idx)).rows 0 = { s.rows 0 with idx := idx } := rfl

theorem binding_back : SameBinding 0 firstHeld bothBack ∧ bothBack.rows 0 = firstHeld.rows 0 := by
  have back : Retained thirdWritten bothBack :=
    retained_perform listBitset_lawful wrote_third.wrote.usable (.setIdx 0 1)
  have held : Alike firstWritten secondHeld := alike_assign rooms_second
  have world : secondHeld.world = firstWritten.world := world_assign
  have alike : Alike firstHeld bothBack := wrote_first.wrote.alike.trans (held.trans
    (wrote_second.wrote.alike.trans (wrote_third.wrote.alike.trans back.alike)))
  have second := wrote_second.wrote.heads
  rw [world] at second
  have heads : firstHeld.world.SameHeads bothBack.world := wrote_first.wrote.heads.trans
    (second.trans (wrote_third.wrote.heads.trans back.world.sameHeads))
  have rows : bothBack.rows 0 = firstHeld.rows 0 := by
    unfold bothBack
    rw [row_setIdx, wrote_third.row, row_first]
  exact ⟨⟨alike, heads, congrArg Row.table rows, congrArg Row.entries rows⟩, rows⟩

theorem elsewhere_later {f : (Nat × Int) × CellWrite}
    (member : f ∈ Row.handedOver 0 secondHeld ++ Row.handedOver 0 secondWritten) :
    f.2.row ≠ (firstHeld.rows 0).idx := by
  rw [row_first]
  rcases List.mem_append.mp member with member | member
  · rw [Row.row_handed member, row_second]
    decide
  · rw [Row.row_handed member, wrote_second.row]
    decide

theorem values_back :
    (after (Row.read Reference.rawApi 0 bothBack)).vars ⟨.string, 0⟩ = bytesOf "abc" ∧
    (after (Row.read Reference.rawApi 0 bothBack)).vars ⟨.strings, 0⟩ =
      [bytesOf "xy", bytesOf "z"] := by decide +kernel

theorem read_latest_both : ∃ s', Row.read Reference.rawApi 0 bothBack = .ok true s' ∧
    Row.Loaded bothBack 0 (Row.stored bothBack firstRecord) s'.vars ∧
    s'.vars ⟨.string, 0⟩ = bytesOf "abc" ∧ s'.vars ⟨.strings, 0⟩ = [bytesOf "xy", bytesOf "z"] := by
  obtain ⟨binding, rows⟩ := binding_back
  have columns := columns_assign firstRecord columns_both
  rw [show bothBound.assign firstRecord = firstHeld from rfl] at columns
  have usable' : Usable bothBack := wrote_third.wrote.usable.retained
    (retained_perform listBitset_lawful wrote_third.wrote.usable (.setIdx 0 1))
  have bound : (bothBack.rows 0).entries ≠ [] := by
    rw [rows]
    rw [row_first]
    exact List.cons_ne_nil _ _
  have text : ∀ e ∈ (bothBack.rows 0).entries,
      (bothBack.entries e).var.target.text = true := by
    intro e member
    rw [binding.entries] at member
    rw [binding.alike.var]
    exact columns.2.2 e member
  have vars : firstHeld.vars = firstRecord := vars_assign
  have stores : firstHeld.Stores 0 firstHeld.vars := wrote_first.wrote.stores
  obtain ⟨s', reads, _, taken⟩ := Row.read_latest Reference.documented_raw Reference.rawBytes
    Reference.typedCells_raw listBitset_lawful (usable_opened grounded_both) run_both last_both
    bound (Row.stored bothBack firstHeld.vars) (Row.latest_of_handed listBitset_lawful
      usable_first.1 usable' usable_first.2 columns.2.1 stores binding (congrArg Row.idx rows) text
      log_both (fun f member => Or.inr (elsewhere_later member)))
  rw [vars] at taken
  have last : s' = after (Row.read Reference.rawApi 0 bothBack) := by
    rw [reads]
    rfl
  exact ⟨s', reads, taken, last ▸ values_back⟩

end Both

end MisFITS
