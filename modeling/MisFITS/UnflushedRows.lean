import MisFITS.Binding
import MisFITS.CopiedRows

/-! Rows that are written one by one, with no flush in between, and copied then. -/
namespace MisFITS
open Program HDU Run

namespace World

/-- The worlds differ in cursors and in cells and row counts at most. -/
structure SameHeads (w w' : World) : Prop where
  hdus : w'.hdus = w.hdus
  tables : w'.tables = w.tables
  heads : ∀ f n, ((w'.files f).units n).heads = ((w.files f).units n).heads

variable {w u v : World}

theorem SameHeads.refl (w : World) : w.SameHeads w := ⟨rfl, rfl, fun _ _ => rfl⟩

theorem SameHeads.trans (h : w.SameHeads u) (h' : u.SameHeads v) : w.SameHeads v where
  hdus := h'.hdus.trans h.hdus
  tables := h'.tables.trans h.tables
  heads f n := (h'.heads f n).trans (h.heads f n)

theorem Moved.sameHeads (moved : w.Moved u) : w.SameHeads u where
  hdus := moved.hdus
  tables := moved.tables
  heads f n := by rw [moved.units]

theorem SameHeads.unitOf (same : w.SameHeads u) (o : Obj) :
    (u.unitOf o).heads = (w.unitOf o).heads := by
  have base : u.base o = w.base o := by
    cases o with
    | hdu i => exact congrFun same.hdus i
    | table t => exact congrArg Table.toHDU (congrFun same.tables t)
  unfold World.unitOf
  rw [base]
  exact same.heads _ _

theorem SameHeads.synced {t : Nat} (same : w.SameHeads u) (synced : Table.Synced w t) :
    Table.Synced u t := synced.of_eq (same.unitOf _) (by rw [same.tables])

theorem SameHeads.apart {src dest : Nat} (same : w.SameHeads u) (apart : Table.Apart w src dest) :
    Table.Apart u src dest := by
  unfold Table.Apart base
  rw [same.tables]
  exact apart

end World

section Writes

variable {α : Type} {api : Cfitsio} {t : Nat}

theorem returns_editFile {o : Obj} {e : Edit} (keeps : ∀ h h', e h = .ok () h' → h'.heads = h.heads) :
    Returns World.SameHeads (onFile o (editChdu · e)) := by
  intro w u w' run
  unfold onFile at run
  obtain ⟨h, edited, rfl⟩ := editChdu_ok.mp run
  refine ⟨rfl, rfl, fun f n => ?_⟩
  by_cases here : f = (w.base o).file ∧ n = (w.files (w.base o).file).chdu
  · obtain ⟨rfl, rfl⟩ := here
    rw [World.unit_putUnit, keeps _ _ edited]
    rfl
  · rw [World.unit_putUnit_ne (fun file num => here ⟨file, num⟩)]

theorem returns_ofExcept (r : Except Exception α) : Returns World.SameHeads (ofExcept r : M α) :=
  (keeps_ofExcept World.SameHeads.refl r).returns

theorem returns_pure (a : α) : Returns World.SameHeads (pure a : M α) :=
  (Keeps.pure World.SameHeads.refl a).returns

theorem returns_bind {β : Type} {x : M α} {g : α → M β} (hx : Returns World.SameHeads x)
    (hg : ∀ a, Returns World.SameHeads (g a)) : Returns World.SameHeads (x >>= g) :=
  Returns.bind (R := World.SameHeads) (fun _ _ _ => World.SameHeads.trans) hx hg

theorem returns_writeCol (doc : Documented api) (T : StorageType) (colnum : Nat) (row first : Int)
    (data : List T.Native) :
    Returns World.SameHeads (Table.writeCol api t T colnum row first data) :=
  returns_editFile (fun _ _ => doc.write_col)

theorem returns_writeBytes (doc : Documented api) (row first : Int) (data : List Byte) :
    Returns World.SameHeads (Table.writeBytes api t row first data) :=
  returns_editFile (fun _ _ => doc.write_tblbytes)

theorem returns_write (doc : Documented api) {S : DynamicBitset} (τ : Target) (it : τ.Column)
    (row : Int) (base : τ.Value S) : Returns World.SameHeads (τ.write api S t it row base) := by
  cases τ with
  | native T vector =>
    exact returns_bind (returns_bind (returns_ofExcept _) fun _ => returns_writeCol doc _ _ _ _ _)
      fun _ => returns_pure _
  | bool vector =>
    exact returns_bind (returns_ofExcept _) fun _ => returns_bind (returns_ofExcept _) fun _ =>
      returns_bind (returns_ofExcept _) fun _ =>
        returns_bind (returns_writeCol doc _ _ _ _ _) fun _ => returns_pure _
  | bitset =>
    exact returns_bind (returns_ofExcept _) fun _ => returns_bind (returns_ofExcept _) fun _ =>
      returns_bind (returns_writeCol doc _ _ _ _ _) fun _ => returns_pure _
  | string =>
    exact returns_bind (returns_ofExcept _) fun _ =>
      returns_bind (returns_writeBytes doc _ _ _) fun _ => returns_pure _
  | strings =>
    exact returns_bind (returns_ofExcept _) fun _ =>
      returns_bind (returns_writeBytes doc _ _ _) fun _ => returns_pure _

end Writes

namespace Row
open Session

variable {api : Cfitsio} {S : DynamicBitset} {s s' : Session S}

theorem writeEntry_sameHeads (doc : Documented api) (t : Nat) (row : Int) (u : Unit) (e : Nat) :
    Returns (fun s s' : Session S => s.world.SameHeads s'.world) (writeEntry api t row u e) := by
  intro s v s' run
  obtain ⟨column, w', writes, rfl⟩ := writeEntry_ok run
  exact returns_write doc _ _ _ _ s.world column w' writes

/-- A row that is written leaves the columns of all headers, and all caches. -/
theorem write_sameHeads (doc : Documented api) {r : Nat} {u : Unit}
    (run : write api r s = .ok u s') : s.world.SameHeads s'.world := by
  obtain ⟨_, s₁, positions, run⟩ := bind_ok.mp run
  obtain ⟨w, positioned, rfl⟩ := onWorld_ok.mp positions
  obtain ⟨_, run⟩ := check_ok.mp run
  obtain ⟨_, s₂, loop, run⟩ := bind_ok.mp run
  rw [advanceAuto_eq] at run
  cases run
  have moved := (moved_setAsChdu.returns _ _ _ positioned).sameHeads
  exact moved.trans (Returns.loop (R := fun s s' : Session S => s.world.SameHeads s'.world)
    (fun s => World.SameHeads.refl s.world) (fun _ _ _ => World.SameHeads.trans)
    (writeEntry_sameHeads doc _ _) _ _ _ _ _ loop)

/-- A row is written through some cursor, or the program sets variables and moves cursors. -/
inductive WriteEvent where
  | write (r : Nat)
  | other

def WriteStep (api : Cfitsio) : WriteEvent → Session S → Session S → Prop
  | .write r, s, s' => Row.write api r s = .ok () s'
  | .other, s, s' => s.world.Moved s'.world

theorem writes_sameHeads (doc : Documented api) {trace : List (WriteEvent × Session S)}
    (writes : Trace (WriteStep api) s trace) : s.world.SameHeads (last s trace).world := by
  refine Trace.last (R := fun s s' : Session S => s.world.SameHeads s'.world)
    (fun s => World.SameHeads.refl s.world) (fun _ _ _ => World.SameHeads.trans) ?_ writes
  intro e s s' step
  cases e with
  | write r => exact write_sameHeads doc step
  | other => exact World.Moved.sameHeads step

/-- After any rows were written, a copy brings the rows of the source exactly when
those that the header counts do not cover are in the destination without it. -/
theorem copied_after_writes_iff (doc : Documented api) {src dest : Nat}
    (synced : Table.Synced s.world src) (apart : Table.Apart s.world src dest)
    {trace : List (WriteEvent × Session S)} (writes : Trace (WriteStep api) s trace)
    {w w' : World} (reached : (last s trace).world = w) {names : List String}
    (common : ∀ name ∈ names,
      Common api (w.unitOf (.table src)) (w.unitOf (.table dest)) name)
    {order : ArgOrder} {u : Unit}
    (run : Table.copyColumns api order src dest names
      (ColumnCopy.overWrite ||| ColumnCopy.extendTable) w = .ok u w') :
    ((w.unitOf (.table src)).nrows ≤ (w'.unitOf (.table dest)).nrows ∧
      Table.Holds api (w.unitOf (.table src)) (w.unitOf (.table dest)) names
        (w'.unitOf (.table dest))) ↔
    ((names = [] → (w.unitOf (.table src)).nrows ≤ (w.unitOf (.table dest)).nrows) ∧
      Table.Settled api (w.unitOf (.table src)) (w.unitOf (.table dest)) names) := by
  have same := writes_sameHeads doc writes
  rw [reached] at same
  exact Table.copied_iff doc (same.apart apart) (same.synced synced) common run

def twoBound : Session listBitset where
  world :=
    let cols := [Reference.newColumn "A" 1 .byte, Reference.newColumn "B" 1 .byte]
    let infos :=
      [Reference.byteInfo, { Reference.byteInfo with ttype := "B", offset := 2, colnum := 2 }]
    let w := Reference.world (Reference.table cols 2) Reference.primary (Reference.table cols 0)
    (w.setColumns 0 infos).setColumns 2 infos
  vars
    | ⟨.native .byte false, n⟩ => [if n = 0 then (7 : Byte) else (9 : Byte)]
    | v => v.target.nothing
  made := 2
  entries e :=
    ⟨⟨.native .byte false, e⟩, { colnum := e + 1, nelem := 1, natomic := 1, id := .byte }⟩
  rows _ := { table := 0, idx := 1, autoAdvance := true, entries := [0, 1] }

def onceWritten : Session listBitset := after (write Reference.api 0 twoBound)

def twiceWritten : Session listBitset := after (write Reference.api 0 onceWritten)

def twoCopied : World :=
  after (Table.copyColumns Reference.api .destLast 0 2 ["A", "B"]
    (ColumnCopy.overWrite ||| ColumnCopy.extendTable) twiceWritten.world)

theorem written_twice : write Reference.api 0 twoBound = .ok () onceWritten ∧
    write Reference.api 0 onceWritten = .ok () twiceWritten :=
  ⟨ok_of_returned (by decide +kernel), ok_of_returned (by decide +kernel)⟩

theorem twice_copied : Table.copyColumns Reference.api .destLast 0 2 ["A", "B"]
    (ColumnCopy.overWrite ||| ColumnCopy.extendTable) twiceWritten.world = .ok () twoCopied :=
  ok_of_returned (by decide +kernel)

theorem twice_covered : Table.coveredRows (twiceWritten.world.unitOf (.table 0))
    (twiceWritten.world.unitOf (.table 2)) = (twiceWritten.world.unitOf (.table 0)).nrows := by
  decide +kernel

theorem common_twice : ∀ name ∈ ["A", "B"], Common Reference.api (twoBound.world.unitOf (.table 0))
    (twoBound.world.unitOf (.table 2)) name := by
  intro name member
  simp only [List.mem_cons, List.not_mem_nil, or_false] at member
  rcases member with rfl | rfl
  · exact ⟨1, 1, _, _, rfl, rfl, rfl, rfl, rfl, rfl, rfl, rfl, rfl⟩
  · exact ⟨2, 2, _, _, rfl, rfl, rfl, rfl, rfl, rfl, rfl, rfl, rfl⟩

theorem copied_after_rewrite :
    (twiceWritten.world.unitOf (.table 0)).nrows ≤ (twoCopied.unitOf (.table 2)).nrows ∧
      Table.Holds Reference.api (twiceWritten.world.unitOf (.table 0))
        (twiceWritten.world.unitOf (.table 2)) ["A", "B"] (twoCopied.unitOf (.table 2)) := by
  have synced : Table.Synced twoBound.world 0 := rfl
  have apart : Table.Apart twoBound.world 0 2 := Nat.zero_ne_one
  have writes : Trace (WriteStep Reference.api) twoBound
      [(.write 0, onceWritten), (.write 0, twiceWritten)] :=
    ⟨written_twice.1, written_twice.2, trivial⟩
  have reached : last twoBound [(WriteEvent.write 0, onceWritten), (.write 0, twiceWritten)] =
      twiceWritten := by simp only [last]
  have same := writes_sameHeads Reference.documented writes
  rw [reached] at same
  have source := same.unitOf (.table 0)
  have target := same.unitOf (.table 2)
  have common : ∀ name ∈ ["A", "B"], Common Reference.api (twiceWritten.world.unitOf (.table 0))
      (twiceWritten.world.unitOf (.table 2)) name :=
    fun name member => (common_twice name member).of_heads source target
  have settled := copied_after_writes_iff Reference.documented synced apart writes
    (congrArg Session.world reached) common twice_copied
  refine settled.mpr ⟨fun empty => absurd empty (by decide), ?_⟩
  intro name _ r _ high beyond
  rw [twice_covered] at beyond
  omega

def bound : Session listBitset where
  world :=
    let w := Reference.world (Reference.table [Reference.newColumn "A" 1 .byte] 0)
      Reference.primary (Reference.table [Reference.newColumn "A" 1 .byte] 0)
    (w.setColumns 0 [Reference.byteInfo]).setColumns 2 [Reference.byteInfo]
  vars := Function.update (fun v => v.target.nothing) ⟨.native .byte false, 0⟩ [7]
  made := 1
  entries _ := ⟨⟨.native .byte false, 0⟩, { colnum := 1, nelem := 1, natomic := 1, id := .byte }⟩
  rows _ := { table := 0, idx := 1, autoAdvance := true, entries := [0] }

def written : Session listBitset := after (write Reference.api 0 bound)

def copied : World :=
  after (Table.copyColumns Reference.api .destLast 0 2 ["A"]
    (ColumnCopy.overWrite ||| ColumnCopy.extendTable) written.world)

/-- A row that was just written is made in the destination, but not copied. -/
theorem copied_loses_row : write Reference.api 0 bound = .ok () written ∧
    Table.copyColumns Reference.api .destLast 0 2 ["A"]
      (ColumnCopy.overWrite ||| ColumnCopy.extendTable) written.world = .ok () copied ∧
    (∀ name ∈ ["A"], Common Reference.api (written.world.unitOf (.table 0))
      (written.world.unitOf (.table 2)) name) ∧
    (written.world.unitOf (.table 0)).row 1 1 = [7] ∧
    ¬Table.Holds Reference.api (written.world.unitOf (.table 0))
      (written.world.unitOf (.table 2)) ["A"] (copied.unitOf (.table 2)) := by
  have common : ∀ name ∈ ["A"], Common Reference.api (written.world.unitOf (.table 0))
      (written.world.unitOf (.table 2)) name := by
    intro name member
    cases List.mem_singleton.mp member
    exact ⟨1, 1, _, _, rfl, rfl, rfl, rfl, rfl, rfl, rfl, rfl, rfl⟩
  refine ⟨rfl, rfl, common, rfl, fun holds => ?_⟩
  have cell : (copied.unitOf (.table 2)).row 1 1 = [0] := rfl
  have same := holds "A" (List.mem_singleton_self _) 1 (Int.le_refl 1) (Int.le_refl 1)
  exact absurd (cell.symm.trans same) (by decide)

end Row
end MisFITS
