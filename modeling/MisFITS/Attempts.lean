import MisFITS.CellCalls
import MisFITS.Delivery
import MisFITS.Run

/-! Rows that are read and written again after calls that failed. The CFITSIO call of
any bound column may fail in an attempt, which leaves behind the buffers as they have
been filled, the cells or variables of the columns before, and anything in that of the column. -/
namespace MisFITS
open Program HDU

/-- A call that fails writes to no more places than one that returns. -/
def WriteFault.Confined (places : List ColHead → CellWrite → Set Spot) (fault : WriteFault) : Prop :=
  ∀ c h, CellWrite.Confined (places h.heads c) (fun h => .error fault.status (fault.leaves c h)) h

def ReadFault.Confined {S : DynamicBitset} (fault : ReadFault S) : Prop :=
  ∀ (τ : Target) (it : τ.Column) (base : τ.Value S),
    τ.Alike it (fault.leaves τ it base).1 ∧
      τ.room S (fault.leaves τ it base).2 = τ.room S base ∧
      ∀ j, j ∉ τ.span it → Target.SameAt S τ j base (fault.leaves τ it base).2

namespace HDU

variable {w : World} {o : Obj}

theorem after_editFile (here : w.Current o) (e : Edit) :
    after (onFile o (editChdu · e) w) = w.put o (after (e (w.unitOf o))) := by
  have put : ∀ h, w.putUnit (w.base o).file (w.files (w.base o).file).chdu h = w.put o h := by
    intro h
    rw [World.put, World.onto_of_current here, here]
  change after (editChdu (w.base o).file e w) = _
  unfold editChdu
  rw [World.current_eq here]
  cases e (w.unitOf o) <;> exact put _

end HDU

namespace Target

variable {S : DynamicBitset} {τ : Target} {j : Nat} {a b c : τ.Value S}

theorem SameAt.refl (a : τ.Value S) : SameAt S τ j a a := by cases τ <;> rfl

theorem SameAt.symm (same : SameAt S τ j a b) : SameAt S τ j b a := by
  cases τ <;> exact Eq.symm same

theorem SameAt.trans (same : SameAt S τ j a b) (same' : SameAt S τ j b c) : SameAt S τ j a c := by
  cases τ <;> exact Eq.trans same same'

theorem read_outcome {api : Cfitsio} {t : Nat} {it : τ.Column} {row : Int} {w : World}
    (base : τ.Value S) (here : w.Current (.table t)) :
    (∃ x, τ.read api S t it row base w = .error x w) ∨
      ∃ data it' base', τ.request api it row (w.unitOf (.table t)) = .ok data ∧
        τ.load S it base data = .ok (it', base') ∧
        τ.read api S t it row base w = .ok (it', base') w := by
  cases run : τ.read api S t it row base w with
  | error x w' =>
    cases read_still.error run
    exact Or.inl ⟨x, rfl⟩
  | ok pair w' =>
    obtain ⟨it', base'⟩ := pair
    cases (read_ok run).1
    rw [read_eq] at run
    obtain ⟨data, w', served, loads⟩ := bind_ok.mp run
    obtain ⟨answer, _⟩ := readChdu_ok.mp served
    rw [World.current_eq here] at answer
    exact Or.inr ⟨data, it', base', answer, (ofExcept_ok.mp loads).1, rfl⟩

end Target

namespace Session

variable {S : DynamicBitset} {s₀ s t : Session S} {e : Nat}

def Ready (s : Session S) (e : Nat) : Prop :=
  (s.entries e).var.target.Ready (s.entries e).column
    ((s.entries e).var.target.room S (s.vars (s.entries e).var))

def EntriesAlike (s₀ s : Session S) : Prop :=
  ∀ e, ∃ column, (s₀.entries e).var.target.Alike (s₀.entries e).column column ∧
    s.entries e = ⟨(s₀.entries e).var, column⟩

theorem EntriesAlike.refl (s : Session S) : EntriesAlike s s := fun _ => ⟨_, .refl _, rfl⟩

theorem EntriesAlike.store (alike : EntriesAlike s₀ s)
    {column : (s₀.entries e).var.target.Column} (value : (s₀.entries e).var.target.Value S)
    (here : (s₀.entries e).var.target.Alike (s₀.entries e).column column) :
    EntriesAlike s₀ (s.store e (s₀.entries e).var column value) := by
  intro e'
  by_cases self : e' = e
  · subst self
    exact ⟨column, here, entries_store_self⟩
  · rw [entries_store_ne self]
    exact alike e'

end Session

namespace Row
open Session

section Writing

variable {api : Cfitsio} {S : DynamicBitset} {r e : Nat} {s₀ s s' : Session S}
  {places : List ColHead → CellWrite → Set Spot} {fault : Option WriteFault}

/-- The rows of a table in which a row is being written, and what stays as it was. -/
structure Writing (s₀ : Session S) (r : Nat) (s : Session S) : Prop where
  world : ∃ h, h.header = (s₀.world.unitOf (.table (s₀.rows r).table)).header ∧
    s.world = s₀.world.put (.table (s₀.rows r).table) h
  vars : s.vars = s₀.vars
  rows : s.rows = s₀.rows
  made : s.made = s₀.made
  entries : EntriesAlike s₀ s

def tableSpots (S : DynamicBitset) (t : Nat) : Overwrite.Places (Session S) Spot where
  same i s s' := HduData.SameAt i (s.world.unitOf (.table t)) (s'.world.unitOf (.table t))
  refl i _ := HduData.spots.refl i _
  symm same := HduData.spots.symm same
  trans same same' := HduData.spots.trans same same'

def writesTo (places : List ColHead → CellWrite → Set Spot) (s₀ : Session S) (r e : Nat) :
    Set Spot :=
  { i | ∃ column data, (s₀.entries e).var.target.store S (s₀.entries e).column
      (s₀.vars (s₀.entries e).var) = .ok (column, data) ∧
    i ∈ places (s₀.world.unitOf (.table (s₀.rows r).table)).heads
      ((s₀.entries e).var.target.cell (s₀.entries e).column (s₀.rows r).idx data) }

theorem writeEntryBy_after {t : Nat} {row : Int} (entry : Entry)
    {column : entry.var.target.Column} {data : List entry.var.target.storage.Native}
    (here : s.world.Current (.table t))
    (stores : entry.var.target.store S entry.column (s.vars entry.var) = .ok (column, data)) :
    after (writeEntryBy api fault t row e entry s) =
      { s.store e entry.var column (s.vars entry.var) with
        world := s.world.put (.table t) (after (writeCall api fault
          (entry.var.target.cell entry.column row data) (s.world.unitOf (.table t)))) } := by
  have run : writeEntryBy api fault t row e entry s =
      onWorld (onFile (.table t) (editChdu · (writeCall api fault
        (entry.var.target.cell entry.column row data))))
        (s.store e entry.var column (s.vars entry.var)) := by
    unfold writeEntryBy
    rw [stores]
    rfl
  rw [run, after_onWorld]
  exact congrArg (fun w => { s.store e entry.var column (s.vars entry.var) with world := w })
    (after_editFile here _)

theorem Writing.put (inv : Writing s₀ r s) {h : HduData}
    (header : h.header = (s₀.world.unitOf (.table (s₀.rows r).table)).header)
    {column : (s₀.entries e).var.target.Column}
    (alike : (s₀.entries e).var.target.Alike (s₀.entries e).column column) :
    Writing s₀ r { s.store e (s₀.entries e).var column (s.vars (s₀.entries e).var) with
      world := s₀.world.put (.table (s₀.rows r).table) h } where
  world := ⟨h, header, rfl⟩
  vars := (Function.update_eq_self ..).trans inv.vars
  rows := inv.rows
  made := inv.made
  entries := inv.entries.store (s.vars (s₀.entries e).var) alike

theorem writeEntryBy_confined (lawful : S.Lawful) (cells : CellWrite.Documented api places)
    (confined : ∀ f, fault = some f → WriteFault.Confined places f)
    (ready : s₀.Ready e) :
    Overwrite.Confined (tableSpots S (s₀.rows r).table) (Writing s₀ r) (writesTo places s₀ r e)
      (fun s => writeEntryBy api fault (s₀.rows r).table (s₀.rows r).idx e (s.entries e) s) := by
  refine Overwrite.confined_of (fun s inv => ?_)
  obtain ⟨h, header, world⟩ := inv.world
  obtain ⟨column, alike, entry⟩ := inv.entries e
  have unit : s.world.unitOf (.table (s₀.rows r).table) = h := by rw [world, World.unitOf_put]
  have here : s.world.Current (.table (s₀.rows r).table) := by
    rw [world]
    exact World.current_of_put
  rw [entry]
  cases stores : (s₀.entries e).var.target.store S column (s.vars (s₀.entries e).var) with
  | error x =>
    have still : writeEntryBy api fault (s₀.rows r).table (s₀.rows r).idx e
        ⟨(s₀.entries e).var, column⟩ s = .error x s := by
      unfold writeEntryBy
      rw [stores]
      rfl
    rw [still]
    exact ⟨inv, .refl s⟩
  | ok stored =>
    obtain ⟨column', data⟩ := stored
    rw [writeEntryBy_after ⟨(s₀.entries e).var, column⟩ here stores]
    have call : CellWrite.Confined
        (places h.heads ((s₀.entries e).var.target.cell column (s₀.rows r).idx data))
        (writeCall api fault ((s₀.entries e).var.target.cell column (s₀.rows r).idx data)) h := by
      cases fault with
      | none => exact cells.confined _ h
      | some f => exact confined f rfl _ h
    rw [unit, world, World.put_put]
    have kept : (s₀.entries e).var.target.Alike (s₀.entries e).column column' :=
      alike.trans (Target.alike_store (alike.ready ready) stores)
    refine ⟨inv.put (call.1.trans header) kept, fun i outside => ?_⟩
    change HduData.SameAt i (s.world.unitOf _) ((s₀.world.put _ _).unitOf _)
    rw [unit, World.unitOf_put]
    refine call.2 i (fun inside => outside ?_)
    rw [congrFun inv.vars] at stores
    obtain ⟨column₀, stored⟩ := Target.store_alike lawful ready alike stores
    rw [alike.cell, HduData.heads_of_header header] at inside
    exact ⟨column₀, data, stored, inside⟩

/-- What is written comes of the variable alone. -/
theorem writeEntryBy_wrote (lawful : S.Lawful)
    (ready : s₀.Ready e)
    (inv : Writing s₀ r s) {u : Unit}
    (run : writeEntryBy api none (s₀.rows r).table (s₀.rows r).idx e (s.entries e) s = .ok u s') :
    ∃ column data h h',
      (s₀.entries e).var.target.store S (s₀.entries e).column (s₀.vars (s₀.entries e).var) =
        .ok (column, data) ∧
      h.header = (s₀.world.unitOf (.table (s₀.rows r).table)).header ∧
      ((s₀.entries e).var.target.cell (s₀.entries e).column (s₀.rows r).idx data).call api h =
        .ok () h' ∧
      s'.world.unitOf (.table (s₀.rows r).table) = h' := by
  obtain ⟨h, header, world⟩ := inv.world
  obtain ⟨column, alike, entry⟩ := inv.entries e
  rw [entry, writeEntryBy_ok] at run
  obtain ⟨column', data, w, stores, edits, rfl⟩ := run
  rw [congrFun inv.vars] at stores
  obtain ⟨column₀, stored⟩ := Target.store_alike lawful ready alike stores
  have here : s.world.Current (.table (s₀.rows r).table) := by
    rw [world]
    exact World.current_of_put
  rw [← World.onto_of_current here] at edits
  obtain ⟨h', done, rfl⟩ := Table.editFile_ok edits
  rw [world, World.unitOf_put] at done
  refine ⟨column₀, data, h, h', stored, header, ?_, World.unitOf_put⟩
  rw [← alike.cell]
  exact done

theorem writeEntryBy_settles (lawful : S.Lawful) (cells : CellWrite.Documented api places)
    (ready : s₀.Ready e) :
    Overwrite.Settles (tableSpots S (s₀.rows r).table) (Writing s₀ r) (writesTo places s₀ r e)
      (fun s => writeEntryBy api none (s₀.rows r).table (s₀.rows r).idx e (s.entries e) s) := by
  intro s t s' t' hs ht runs runt i ⟨column, data, stored, inside⟩
  obtain ⟨_, _, h, h', stores, header, calls, unit⟩ := writeEntryBy_wrote lawful ready hs runs
  obtain ⟨_, _, g, g', stores', header', calls', unit'⟩ := writeEntryBy_wrote lawful ready ht runt
  cases stored.symm.trans stores
  cases stored.symm.trans stores'
  rw [← HduData.heads_of_header header] at inside
  change HduData.SameAt i (s'.world.unitOf _) (t'.world.unitOf _)
  rw [unit, unit']
  exact cells.settles (header'.trans header.symm) calls calls' i inside

theorem Writing.onto (inv : Writing s₀ r s) : onto s r = s := by
  obtain ⟨h, _, world⟩ := inv.world
  unfold Row.onto
  rw [congrFun inv.rows r, world, World.onto_put, ← world]

theorem Writing.attached (inv : Writing s₀ r s)
    (attached : s₀.world.Attached (.table (s₀.rows r).table)) :
    s.world.Attached (.table (s.rows r).table) := by
  obtain ⟨h, _, world⟩ := inv.world
  rw [congrFun inv.rows r, world]
  exact World.attached_put.mpr attached

theorem writing_onto (s₀ : Session S) (r : Nat) : Writing s₀ r (Row.onto s₀ r) where
  world := ⟨_, rfl, World.put_unitOf.symm⟩
  vars := rfl
  rows := rfl
  made := rfl
  entries := .refl s₀

variable {faults : Nat → Option WriteFault}

theorem writeBy_eq (doc : MisFITS.Documented api)
    (attached : s.world.Attached (.table (s.rows r).table)) :
    writeBy api r faults s =
      (if (s.rows r).entries = [] then
        throw (.assert "row object was not assigned any columns to write")
      else do
        writeColumns api faults (s.rows r).table (s.rows r).idx (s.rows r).entries
        advanceAuto r : RowM S Unit) (Row.onto s r) := by
  unfold writeBy own
  dsimp only
  rw [bind_of_ok (setAsChdu_row doc attached)]
  by_cases bound : (s.rows r).entries = []
  · rw [if_pos bound, if_pos bound]
    rfl
  · rw [check_of_not bound, if_neg bound]

def AllReady (S : DynamicBitset) (s : Session S) (r : Nat) : Prop :=
  ∀ e ∈ (s.rows r).entries, s.Ready e

theorem writeColumns_confined (lawful : S.Lawful) (cells : CellWrite.Documented api places)
    (confined : ∀ e f, faults e = some f → WriteFault.Confined places f) (ready : AllReady S s₀ r) :
    Overwrite.Confined (tableSpots S (s₀.rows r).table) (Writing s₀ r)
      (Overwrite.covered (writesTo places s₀ r) (s₀.rows r).entries)
      (writeColumns api faults (s₀.rows r).table (s₀.rows r).idx (s₀.rows r).entries) :=
  Overwrite.loop_confined fun e member _ =>
    writeEntryBy_confined lawful cells (confined e) (ready e member)

def FailedWrite (api : Cfitsio) (places : List ColHead → CellWrite → Set Spot) (r : Nat)
    (faults : Nat → Option WriteFault) (s s' : Session S) : Prop :=
  (∀ e f, faults e = some f → WriteFault.Confined places f) ∧
    ∃ x, writeBy api r faults s = .error x s'

theorem failedWrite_confined (doc : MisFITS.Documented api) (lawful : S.Lawful)
    (cells : CellWrite.Documented api places) (ready : AllReady S s₀ r)
    (attached : s₀.world.Attached (.table (s₀.rows r).table))
    (failed : FailedWrite api places r faults s s') (inv : Writing s₀ r (Row.onto s r)) :
    Writing s₀ r (Row.onto s' r) ∧
      (tableSpots S (s₀.rows r).table).Agree
        (Overwrite.covered (writesTo places s₀ r) (s₀.rows r).entries)ᶜ
        (Row.onto s r) (Row.onto s' r) := by
  obtain ⟨confined, x, run⟩ := failed
  have row : s.rows r = s₀.rows r := congrFun inv.rows r
  have here : s.world.Attached (.table (s.rows r).table) :=
    World.attached_onto.mp (inv.attached attached)
  rw [writeBy_eq doc here] at run
  by_cases bound : (s.rows r).entries = []
  · rw [if_pos bound] at run
    cases run
    rw [inv.onto]
    exact ⟨inv, .refl _⟩
  rw [if_neg bound, row] at run
  rcases bind_error.mp run with thrown | ⟨_, _, _, thrown⟩
  · obtain ⟨still, frame⟩ :=
      (writeColumns_confined lawful cells confined ready).error inv thrown
    rw [still.onto]
    exact ⟨still, frame⟩
  · rw [advanceAuto_eq] at thrown
    cases thrown

theorem write_bound {u : Unit} (run : write api r s = .ok u s') : (s.rows r).entries ≠ [] := by
  obtain ⟨_, _, _, checks⟩ := bind_ok.mp run
  exact (check_ok.mp checks).1

theorem failedWrites_confined (doc : MisFITS.Documented api) (lawful : S.Lawful)
    (cells : CellWrite.Documented api places) (ready : AllReady S s₀ r)
    (attached : s₀.world.Attached (.table (s₀.rows r).table))
    {trace : List ((Nat → Option WriteFault) × Session S)}
    (run : Run.Trace (FailedWrite api places r) s₀ trace) :
    Writing s₀ r (Row.onto (Run.last s₀ trace) r) ∧
      (tableSpots S (s₀.rows r).table).Agree
        (Overwrite.covered (writesTo places s₀ r) (s₀.rows r).entries)ᶜ
        (Row.onto s₀ r) (Row.onto (Run.last s₀ trace) r) :=
  Overwrite.attempts run (writing_onto s₀ r)
    (fun _ _ _ failed inv => failedWrite_confined doc lawful cells ready attached failed inv)

theorem write_again (doc : MisFITS.Documented api) (lawful : S.Lawful)
    (cells : CellWrite.Documented api places) (ready : AllReady S s₀ r)
    (attached : s₀.world.Attached (.table (s₀.rows r).table)) (inv : Writing s₀ r (Row.onto s r))
    (frame : (tableSpots S (s₀.rows r).table).Agree
      (Overwrite.covered (writesTo places s₀ r) (s₀.rows r).entries)ᶜ
      (Row.onto s₀ r) (Row.onto s r)) {s₁ s₂ : Session S}
    (once : write api r s₀ = .ok () s₁) (again : write api r s = .ok () s₂) :
    s₂.world = s₁.world ∧ s₂.vars = s₁.vars ∧ s₂.rows = s₁.rows := by
  have bound := write_bound once
  have row : s.rows r = s₀.rows r := congrFun inv.rows r
  have here := World.attached_onto.mp (inv.attached attached)
  rw [write, writeBy_eq doc attached, if_neg bound] at once
  rw [write, writeBy_eq doc here, row, if_neg bound] at again
  obtain ⟨_, u₁, first, advances⟩ := bind_ok.mp once
  obtain ⟨_, u₂, second, advances'⟩ := bind_ok.mp again
  rw [advanceAuto_eq] at advances advances'
  cases advances
  cases advances'
  have calm : ∀ e f, (fun _ : Nat => (none : Option WriteFault)) e = some f →
      WriteFault.Confined places f := by
    intro _ _ found
    cases found
  have loop := writeColumns_confined lawful cells calm ready
  have end₁ := (loop.ok (writing_onto s₀ r) first).1
  have end₂ := (loop.ok inv second).1
  have same := Overwrite.loop_again
    (fun e member _ => writeEntryBy_confined lawful cells (calm e) (ready e member))
    (fun e member _ => writeEntryBy_settles lawful cells (ready e member)) (writing_onto s₀ r) inv
    frame first second
  obtain ⟨h₁, header₁, world₁⟩ := end₁.world
  obtain ⟨h₂, header₂, world₂⟩ := end₂.world
  have unit : h₁ = h₂ := by
    refine HduData.ext_spots (header₁.trans header₂.symm) (fun i => ?_)
    have spot : HduData.SameAt i (u₁.world.unitOf _) (u₂.world.unitOf _) := same i
    rwa [world₁, world₂, World.unitOf_put, World.unitOf_put] at spot
  refine ⟨?_, end₂.vars.trans end₁.vars.symm, ?_⟩
  · exact world₂.trans ((congrArg _ unit.symm).trans world₁.symm)
  · change Function.update u₂.rows r _ = Function.update u₁.rows r _
    rw [end₁.rows, end₂.rows]

end Writing

section Reading

variable {api : Cfitsio} {S : DynamicBitset} {r e : Nat} {s₀ s s' : Session S}
  {fault : Option (ReadFault S)}

structure Reading (s₀ : Session S) (r : Nat) (s : Session S) : Prop where
  world : s.world = s₀.world.onto (.table (s₀.rows r).table)
  rooms : ∀ v : Variable, v.target.room S (s.vars v) = v.target.room S (s₀.vars v)
  rows : s.rows = s₀.rows
  made : s.made = s₀.made
  entries : EntriesAlike s₀ s

def varSpots (S : DynamicBitset) : Overwrite.Places (Session S) (Variable × Nat) where
  same i s s' := Target.SameAt S i.1.target i.2 (s.vars i.1) (s'.vars i.1)
  refl _ _ := .refl _
  symm same := same.symm
  trans same same' := same.trans same'

def readsInto (s₀ : Session S) (e : Nat) : Set (Variable × Nat) :=
  { i | i.1 = (s₀.entries e).var ∧ i.2 ∈ (s₀.entries e).var.target.span (s₀.entries e).column }

theorem Reading.store (inv : Reading s₀ r s) {column : (s₀.entries e).var.target.Column}
    {value : (s₀.entries e).var.target.Value S}
    (alike : (s₀.entries e).var.target.Alike (s₀.entries e).column column)
    (room : (s₀.entries e).var.target.room S value =
      (s₀.entries e).var.target.room S (s.vars (s₀.entries e).var)) :
    Reading s₀ r (s.store e (s₀.entries e).var column value) where
  world := inv.world
  rooms v := (room_store room v).trans (inv.rooms v)
  rows := inv.rows
  made := inv.made
  entries := inv.entries.store value alike

theorem agree_store {column : (s₀.entries e).var.target.Column}
    {value : (s₀.entries e).var.target.Value S}
    (same : ∀ j, j ∉ (s₀.entries e).var.target.span (s₀.entries e).column →
      Target.SameAt S (s₀.entries e).var.target j (s.vars (s₀.entries e).var) value) :
    (varSpots S).Agree (readsInto s₀ e)ᶜ s (s.store e (s₀.entries e).var column value) := by
  rintro ⟨v, j⟩ outside
  change Target.SameAt S v.target j (s.vars v) ((s.store e _ column value).vars v)
  by_cases self : v = (s₀.entries e).var
  · subst self
    have here : (s.store e (s₀.entries e).var column value).vars (s₀.entries e).var = value :=
      Function.update_self ..
    rw [here]
    exact same j (fun inside => outside ⟨rfl, inside⟩)
  · rw [vars_store_ne self]
    exact .refl _

theorem Reading.here (inv : Reading s₀ r s) : s.world.Current (.table (s₀.rows r).table) := by
  rw [inv.world]
  exact World.current_of_onto

theorem readEntryBy_none {t : Nat} (row : Int) (entry : Entry) (here : s.world.Current (.table t)) :
    (∃ x, readEntryBy api none t row e entry s = .error x s) ∨
      ∃ data column value,
        entry.var.target.request api entry.column row (s.world.unitOf (.table t)) = .ok data ∧
        entry.var.target.load S entry.column (s.vars entry.var) data = .ok (column, value) ∧
        readEntryBy api none t row e entry s = .ok () (s.store e entry.var column value) := by
  rcases Target.read_outcome (s.vars entry.var) here with
    ⟨x, run⟩ | ⟨data, column, value, request, load, run⟩
  · have thrown : onWorld (entry.var.target.read api S t entry.column row (s.vars entry.var)) s =
        .error x s := by
      unfold onWorld
      rw [run]
    exact Or.inl ⟨x, bind_of_error thrown _⟩
  · refine Or.inr ⟨data, column, value, request, load, ?_⟩
    exact bind_ok.mpr ⟨(column, value), s, onWorld_of_ok run, rfl⟩

theorem readEntryBy_confined (lawful : S.Lawful) (reads : CellReads api)
    (confined : ∀ f, fault = some f → ReadFault.Confined f)
    (ready : s₀.Ready e) :
    Overwrite.Confined (varSpots S) (Reading s₀ r) (readsInto s₀ e)
      (fun s => readEntryBy api fault (s₀.rows r).table (s₀.rows r).idx e (s.entries e) s) := by
  refine Overwrite.confined_of (fun s inv => ?_)
  obtain ⟨column, alike, entry⟩ := inv.entries e
  rw [entry]
  cases fault with
  | none =>
    rcases readEntryBy_none (s₀.rows r).idx ⟨(s₀.entries e).var, column⟩ inv.here with
      ⟨x, run⟩ | ⟨data, column', value, request, load, run⟩
    · rw [run]
      exact ⟨inv, .refl s⟩
    · rw [run]
      have ready' : (s₀.entries e).var.target.Ready column
          ((s₀.entries e).var.target.room S (s.vars (s₀.entries e).var)) := by
        rw [inv.rooms]
        exact alike.ready ready
      obtain ⟨room, frame⟩ := Target.load_frame lawful ready' (reads.request request) load
      rw [alike.span] at frame
      exact ⟨inv.store (alike.trans (Target.alike_load lawful load)) room, agree_store frame⟩
  | some f =>
    obtain ⟨kept, room, frame⟩ := confined f rfl _ column (s.vars (s₀.entries e).var)
    rw [alike.span] at frame
    exact ⟨inv.store (alike.trans kept) room, agree_store frame⟩

/-- What is read comes of the cell alone. -/
theorem readEntryBy_settles (lawful : S.Lawful) (assigns : S.Assigns) (reads : CellReads api)
    (ready : s₀.Ready e) :
    Overwrite.Settles (varSpots S) (Reading s₀ r) (readsInto s₀ e)
      (fun s => readEntryBy api none (s₀.rows r).table (s₀.rows r).idx e (s.entries e) s) := by
  intro s t s' t' hs ht runs runt
  obtain ⟨column, alike, entry⟩ := hs.entries e
  obtain ⟨column', alike', entry'⟩ := ht.entries e
  beta_reduce at runs runt
  rw [entry] at runs
  rw [entry'] at runt
  rcases readEntryBy_none (s₀.rows r).idx ⟨(s₀.entries e).var, column⟩ hs.here with
    ⟨_, thrown⟩ | ⟨data, kept, value, request, load, run⟩
  · cases thrown.symm.trans runs
  rcases readEntryBy_none (s₀.rows r).idx ⟨(s₀.entries e).var, column'⟩ ht.here with
    ⟨_, thrown⟩ | ⟨data', kept', value', request', load', run'⟩
  · cases thrown.symm.trans runt
  cases run.symm.trans runs
  cases run'.symm.trans runt
  rw [alike.request, hs.world] at request
  rw [alike'.request, ht.world, request] at request'
  cases request'
  rintro ⟨v, j⟩ ⟨here, inside⟩
  cases here
  have settled := Target.load_settles lawful assigns (alike.ready ready) (alike.symm.trans alike')
    (hs.rooms _) (ht.rooms _) ((reads.request request).trans alike.count.symm) load load' j
    (by rw [alike.span]; exact inside)
  have both : ∀ {u : Session S} {column : (s₀.entries e).var.target.Column}
      {value : (s₀.entries e).var.target.Value S},
      (u.store e (s₀.entries e).var column value).vars (s₀.entries e).var = value :=
    Function.update_self ..
  change Target.SameAt S _ j (Session.vars _ _) (Session.vars _ _)
  rw [both, both]
  exact settled

theorem Reading.onto (inv : Reading s₀ r s) : onto s r = s := by
  unfold Row.onto
  rw [congrFun inv.rows r, inv.world, World.onto_onto, ← inv.world]

theorem Reading.attached (inv : Reading s₀ r s)
    (attached : s₀.world.Attached (.table (s₀.rows r).table)) :
    s.world.Attached (.table (s.rows r).table) := by
  rw [congrFun inv.rows r, inv.world]
  exact World.attached_onto.mpr attached

theorem reading_onto (s₀ : Session S) (r : Nat) : Reading s₀ r (Row.onto s₀ r) where
  world := rfl
  rooms _ := rfl
  rows := rfl
  made := rfl
  entries := .refl s₀

variable {faults : Nat → Option (ReadFault S)}

theorem readColumns_confined (lawful : S.Lawful) (reads : CellReads api)
    (confined : ∀ e f, faults e = some f → ReadFault.Confined f) (ready : AllReady S s₀ r) :
    Overwrite.Confined (varSpots S) (Reading s₀ r)
      (Overwrite.covered (readsInto s₀) (s₀.rows r).entries)
      (readColumns api faults (s₀.rows r).table (s₀.rows r).idx (s₀.rows r).entries) :=
  Overwrite.loop_confined fun e member _ =>
    readEntryBy_confined lawful reads (confined e) (ready e member)

def FailedRead (api : Cfitsio) (r : Nat) (faults : Nat → Option (ReadFault S))
    (s s' : Session S) : Prop :=
  (∀ e f, faults e = some f → ReadFault.Confined f) ∧ ∃ x, readBy api r faults s = .error x s'

theorem Reading.unitOf (inv : Reading s₀ r (Row.onto s r)) (o : Obj) :
    s.world.unitOf o = s₀.world.unitOf o := by
  have same : s.world.onto (.table (s.rows r).table) =
      s₀.world.onto (.table (s₀.rows r).table) := inv.world
  rw [← World.unitOf_onto (w := s.world) (o := .table (s.rows r).table), same, World.unitOf_onto]

theorem failedRead_confined (doc : MisFITS.Documented api) (lawful : S.Lawful)
    (reads : CellReads api) (ready : AllReady S s₀ r)
    (attached : s₀.world.Attached (.table (s₀.rows r).table))
    (failed : FailedRead api r faults s s') (inv : Reading s₀ r (Row.onto s r)) :
    ((s₀.rows r).entries ≠ [] →
        (s₀.rows r).idx ≤ (s₀.world.unitOf (.table (s₀.rows r).table)).nrows) ∧
      Reading s₀ r (Row.onto s' r) ∧
      (varSpots S).Agree (Overwrite.covered (readsInto s₀) (s₀.rows r).entries)ᶜ
        (Row.onto s r) (Row.onto s' r) := by
  obtain ⟨confined, x, run⟩ := failed
  have row : s.rows r = s₀.rows r := congrFun inv.rows r
  have here : s.world.Attached (.table (s.rows r).table) :=
    World.attached_onto.mp (inv.attached attached)
  rw [readBy_eq doc here] at run
  by_cases bound : (s.rows r).entries = []
  · rw [if_pos bound] at run
    cases run
    rw [inv.onto]
    exact ⟨fun other => (other (row ▸ bound)).elim, inv, .refl _⟩
  rw [if_neg bound, row, inv.unitOf] at run
  split at run
  · cases run
  · rename_i low
    refine ⟨fun _ => by omega, ?_⟩
    rcases bind_error.mp run with thrown | ⟨_, u, _, run⟩
    · obtain ⟨still, frame⟩ := (readColumns_confined lawful reads confined ready).error inv thrown
      rw [still.onto]
      exact ⟨still, frame⟩
    · rw [bind_of_ok advanceAuto_eq] at run
      cases run

theorem read_bound {b : Bool} (run : read api r s = .ok b s') : (s.rows r).entries ≠ [] := by
  obtain ⟨_, _, _, checks⟩ := bind_ok.mp run
  exact (check_ok.mp checks).1

theorem failedReads_confined (doc : MisFITS.Documented api) (lawful : S.Lawful)
    (reads : CellReads api) (ready : AllReady S s₀ r)
    (attached : s₀.world.Attached (.table (s₀.rows r).table))
    {trace : List ((Nat → Option (ReadFault S)) × Session S)}
    (run : Run.Trace (FailedRead api r) s₀ trace) :
    Reading s₀ r (Row.onto (Run.last s₀ trace) r) ∧
      (varSpots S).Agree (Overwrite.covered (readsInto s₀) (s₀.rows r).entries)ᶜ
        (Row.onto s₀ r) (Row.onto (Run.last s₀ trace) r) :=
  Overwrite.attempts run (reading_onto s₀ r)
    (fun _ _ _ failed inv => (failedRead_confined doc lawful reads ready attached failed inv).2)

theorem read_again (doc : MisFITS.Documented api) (lawful : S.Lawful) (assigns : S.Assigns)
    (reads : CellReads api) (ready : AllReady S s₀ r)
    (attached : s₀.world.Attached (.table (s₀.rows r).table))
    (low : (s₀.rows r).idx ≤ (s₀.world.unitOf (.table (s₀.rows r).table)).nrows)
    (inv : Reading s₀ r (Row.onto s r))
    (frame : (varSpots S).Agree (Overwrite.covered (readsInto s₀) (s₀.rows r).entries)ᶜ
      (Row.onto s₀ r) (Row.onto s r)) {b b' : Bool} {s₁ s₂ : Session S}
    (once : read api r s₀ = .ok b s₁) (again : read api r s = .ok b' s₂) :
    b' = b ∧ s₂.world = s₁.world ∧ s₂.vars = s₁.vars ∧ s₂.rows = s₁.rows := by
  have bound := read_bound once
  have row : s.rows r = s₀.rows r := congrFun inv.rows r
  have here := World.attached_onto.mp (inv.attached attached)
  rw [read, readBy_eq doc attached, if_neg bound, if_neg (by omega)] at once
  rw [read, readBy_eq doc here, row, if_neg bound, inv.unitOf, if_neg (by omega)] at again
  obtain ⟨_, u₁, first, advances⟩ := bind_ok.mp once
  obtain ⟨_, u₂, second, advances'⟩ := bind_ok.mp again
  rw [bind_of_ok advanceAuto_eq] at advances advances'
  cases advances
  cases advances'
  have calm : ∀ e f, (fun _ : Nat => (none : Option (ReadFault S))) e = some f →
      ReadFault.Confined f := by
    intro _ _ found
    cases found
  have loop := readColumns_confined lawful reads calm ready
  have end₁ := (loop.ok (reading_onto s₀ r) first).1
  have end₂ := (loop.ok inv second).1
  have same := Overwrite.loop_again
    (fun e member _ => readEntryBy_confined lawful reads (calm e) (ready e member))
    (fun e member _ => readEntryBy_settles lawful assigns reads (ready e member))
    (reading_onto s₀ r) inv frame first second
  refine ⟨rfl, end₂.world.trans end₁.world.symm, ?_, ?_⟩
  · change u₂.vars = u₁.vars
    funext v
    exact Target.SameAt.ext ((end₂.rooms v).trans (end₁.rooms v).symm)
      (fun j => (same (v, j)).symm)
  · change Function.update u₂.rows r _ = Function.update u₁.rows r _
    rw [end₁.rows, end₂.rows]

end Reading

section Retries

variable {api : Cfitsio} {S : DynamicBitset} {r : Nat} {s₀ : Session S}
  {places : List ColHead → CellWrite → Set Spot}

/-- The columns of a cursor are bound to variables of the lengths that they were given,
with anything in their buffers. -/
def KeptLengths (api : Cfitsio) (s : Session S) (r : Nat) : Prop :=
  ∀ e ∈ (s.rows r).entries, ∃ info column c k offset,
    ColumnInfo.decode c k offset = .ok info ∧
    Target.Bound api (s.rows r).table S info (s.entries e).var.target column ∧
    (s.entries e).var.target.Alike column (s.entries e).column ∧
    Target.KeptLength info (s.entries e).var.target
      ((s.entries e).var.target.room S (s.vars (s.entries e).var))

theorem KeptLengths.ready (kept : KeptLengths api s₀ r) (lawful : S.Lawful) : AllReady S s₀ r := by
  intro e member
  obtain ⟨info, column, c, k, offset, described, bound, alike, length⟩ := kept e member
  exact alike.ready (bound.ready lawful (Target.bytes_of_text described) length)

/-- However often a row has failed to be written or read, the cursor still stands there,
and the call that succeeds leaves what it would have left at once. -/
theorem retried (doc : MisFITS.Documented api) (lawful : S.Lawful) (assigns : S.Assigns)
    (cells : CellWrite.Documented api places) (reads : CellReads api)
    (attached : s₀.world.Attached (.table (s₀.rows r).table)) (kept : KeptLengths api s₀ r) :
    (∀ trace, Run.Trace (FailedWrite api places r) s₀ trace →
      (Run.last s₀ trace).rows = s₀.rows ∧
      ∀ s₁ s₂, write api r s₀ = .ok () s₁ → write api r (Run.last s₀ trace) = .ok () s₂ →
        s₂.world = s₁.world ∧ s₂.vars = s₁.vars ∧ s₂.rows = s₁.rows) ∧
    (∀ trace, Run.Trace (FailedRead api r) s₀ trace →
      (Run.last s₀ trace).rows = s₀.rows ∧
      ∀ b b' s₁ s₂, read api r s₀ = .ok b s₁ → read api r (Run.last s₀ trace) = .ok b' s₂ →
        b' = b ∧ s₂.world = s₁.world ∧ s₂.vars = s₁.vars ∧ s₂.rows = s₁.rows) := by
  have ready := kept.ready lawful
  refine ⟨fun trace run => ?_, fun trace run => ?_⟩
  · obtain ⟨inv, frame⟩ := failedWrites_confined doc lawful cells ready attached run
    exact ⟨inv.rows, fun s₁ s₂ once again =>
      write_again doc lawful cells ready attached inv frame once again⟩
  · obtain ⟨inv, frame⟩ := failedReads_confined doc lawful reads ready attached run
    refine ⟨inv.rows, fun b b' s₁ s₂ once again => ?_⟩
    by_cases low : (s₀.rows r).idx ≤ (s₀.world.unitOf (.table (s₀.rows r).table)).nrows
    · exact read_again doc lawful assigns reads ready attached low inv frame once again
    · -- behind the last row nothing is read, so that no attempt has failed
      cases trace with
      | nil =>
        cases once.symm.trans again
        exact ⟨rfl, rfl, rfl, rfl⟩
      | cons attempt trace =>
        exact absurd ((failedRead_confined doc lawful reads ready attached run.1
          (reading_onto s₀ r)).1 (read_bound once)) low

end Retries

def pair : Session listBitset where
  world := Reference.world (Reference.table
    [Reference.newColumn "A" 1 .byte, Reference.newColumn "B" 1 .byte] 1) Reference.primary
    Reference.primary
  vars
    | ⟨.native .byte false, n⟩ => [if n = 0 then (7 : Byte) else (9 : Byte)]
    | v => v.target.nothing
  made := 2
  entries e := ⟨⟨.native .byte false, e⟩,
    RowEntry.Column.init .byte { Reference.byteInfo with colnum := e + 1 }⟩
  rows _ := { table := 0, idx := 1, autoAdvance := true, entries := [0, 1] }

def secondWrite (e : Nat) : Option WriteFault :=
  if e = 1 then some { status := .other 106, leaves := fun _ h => h } else none

def secondRead (e : Nat) : Option (ReadFault listBitset) :=
  if e = 1 then some { status := .other 107, leaves := fun _ it base => (it, base) } else none

theorem retried_pair :
    (∃ s' s₁ s₂, (∃ x, writeBy Reference.paddedApi 0 secondWrite pair = .error x s') ∧
      write Reference.paddedApi 0 pair = .ok () s₁ ∧ write Reference.paddedApi 0 s' = .ok () s₂ ∧
      s'.rows = pair.rows ∧ s₂.world = s₁.world ∧ s₂.vars = s₁.vars ∧ s₂.rows = s₁.rows) ∧
    (∃ s' s₁ s₂, (∃ x, readBy Reference.paddedApi 0 secondRead pair = .error x s') ∧
      read Reference.paddedApi 0 pair = .ok true s₁ ∧ read Reference.paddedApi 0 s' = .ok true s₂ ∧
      s'.rows = pair.rows ∧ s₂.world = s₁.world ∧ s₂.vars = s₁.vars ∧ s₂.rows = s₁.rows) := by
  have kept : KeptLengths Reference.paddedApi pair 0 := by
    intro e _
    have made : Target.make listBitset (.native .byte false) { Reference.byteInfo with colnum := e + 1 }
        [] = .ok (RowEntry.Column.init .byte { Reference.byteInfo with colnum := e + 1 }) [] := rfl
    exact ⟨_, _, (Reference.newColumn "A" 1 .byte).toColHead, e + 1, 1, rfl, .made made, .refl _,
      trivial⟩
  obtain ⟨writes, reads⟩ := retried Reference.paddedApi_documented listBitset_lawful
    DynamicBitset.listBitset_assigns Reference.paddedApi_writes Reference.paddedApi_reads
    ⟨by decide, by decide⟩ kept
  constructor
  · have failed := error_of_thrown (x := writeBy Reference.paddedApi 0 secondWrite) (s := pair)
      (by decide +kernel)
    have once := ok_of_returned (x := write Reference.paddedApi 0) (s := pair) (by decide +kernel)
    have again := ok_of_returned (x := write Reference.paddedApi 0)
      (s := after (writeBy Reference.paddedApi 0 secondWrite pair)) (by decide +kernel)
    have confined : ∀ e f, secondWrite e = some f → WriteFault.Confined Reference.places f := by
      intro e f fault
      unfold secondWrite at fault
      split at fault <;> cases fault
      exact fun c h => ⟨rfl, .refl h⟩
    obtain ⟨rows, same⟩ := writes [(secondWrite, _)] ⟨⟨confined, failed⟩, trivial⟩
    exact ⟨_, _, _, failed, once, again, rows, same _ _ once again⟩
  · have failed := error_of_thrown (x := readBy Reference.paddedApi 0 secondRead) (s := pair)
      (by decide +kernel)
    have once := ok_of_value (x := read Reference.paddedApi 0) (s := pair) (a := true)
      (by decide +kernel)
    have again := ok_of_value (x := read Reference.paddedApi 0)
      (s := after (readBy Reference.paddedApi 0 secondRead pair)) (a := true) (by decide +kernel)
    have confined : ∀ e f, secondRead e = some f → ReadFault.Confined f := by
      intro e f fault
      unfold secondRead at fault
      split at fault <;> cases fault
      exact fun τ it base => ⟨.refl it, rfl, fun j _ => .refl base⟩
    obtain ⟨rows, same⟩ := reads [(secondRead, _)] ⟨⟨confined, failed⟩, trivial⟩
    exact ⟨_, _, _, failed, once, again, rows, (same _ _ _ _ once again).2⟩

end Row
end MisFITS
