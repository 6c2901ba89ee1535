import Mathlib.Data.Int.Order.Basic
import MisFITS.Reference
import MisFITS.Run
import MisFITS.Table

/-! The header-data units of a file as a list: whole units are copied to its end or
deleted, after `fits.cc` and `Table::copy`, and objects remember a number in it. -/
namespace MisFITS
open Program HDU Run

/-- The CFITSIO calls that change the list. A copy is told whether its two files are one. -/
structure HduCalls where
  copyHeader : Bool → HduData → EStateM Status File Unit
  copyHdu : Bool → HduData → Int → EStateM Status File Unit
  /-- the units before the current one, that one, and those behind it -/
  copyFile : Bool → File → Bool → Bool → Bool → EStateM Status File Unit
  deleteHdu : EStateM Status File HduType

namespace FileCopy

def previousHdus : Nat := 1
def currentHdu : Nat := 2
def followingHdus : Nat := 4
def currentHeader : Nat := 8

end FileCopy

inductive TableCopy where
  | hdu | header
  deriving DecidableEq, Repr

namespace File

variable (calls : HduCalls)

def editList {α : Type} (g : Nat) (call : EStateM Status File α) : M α := fun w =>
  match call (w.files g) with
  | .ok a F => .ok a (w.setFile g F)
  | .error status F => .error (.cfitsio status) (w.setFile g F)

def copyCall (same : Bool) (F : File) (what : Nat) (morekeys : Int) : EStateM Status File Unit :=
  if what = FileCopy.currentHeader then calls.copyHeader same (F.units F.chdu)
  else if what = FileCopy.currentHdu then calls.copyHdu same (F.units F.chdu) morekeys
  else calls.copyFile same F (what &&& FileCopy.previousHdus ≠ 0) (what &&& FileCopy.currentHdu ≠ 0)
    (what &&& FileCopy.followingHdus ≠ 0)

def copy (f g what : Nat) (morekeys : Int) : M Unit := do
  if (← getMode g) = .readOnly then
    throw (.cfitsio .readonlyFile)
  fun w => editList g (copyCall calls (f = g) (w.files f) what morekeys) w

def deleteHdu (f : Nat) : M HduType := editList f calls.deleteHdu

end File

namespace Table

variable (api : Cfitsio) (calls : HduCalls) (t : Nat)

/-- `copy`, which returns an object of the copy. -/
def copy (g : Nat) (what : TableCopy) (morekeys : Int) (made : Nat) : M Unit := do
  setAsChdu api (.table t)
  match what with
  | .header => onFile (.table t) (File.copy calls · g FileCopy.currentHeader 0)
  | .hdu => onFile (.table t) (File.copy calls · g FileCopy.currentHdu morekeys)
  Table.new api made g 0

end Table

def File.add (api : Cfitsio) (calls : HduCalls) (g t made : Nat) : M Unit :=
  Table.copy api calls t g .hdu 0 made

namespace File

variable {calls : HduCalls} {f g : Nat} {w w' : World}

structure Appended (F F' : File) : Prop where
  mode : F'.mode = F.mode
  numHdus : F'.numHdus = F.numHdus + 1
  chdu : F'.chdu = F'.numHdus
  units : ∀ n, n ≤ F.numHdus → F'.units n = F.units n

/-- What becomes of a unit's number when the current one is deleted. The units behind
move up, unless it is the primary one, in whose place there is an empty one then. -/
def removed (chdu n : Int) : Option Int :=
  if n = chdu then none
  else if 1 < chdu ∧ chdu < n then some (n - 1)
  else some n

theorem removed_le {chdu n m : Int} (carried : removed chdu n = some m) : m ≤ n := by
  unfold removed at carried
  split at carried
  · cases carried
  · split at carried <;> cases carried <;> omega

theorem removed_iff {chdu n : Int} :
    (∀ k, removed chdu n = some k → k = n) ↔ ¬(1 < chdu ∧ chdu < n) := by
  unfold removed
  by_cases front : 1 < chdu ∧ chdu < n
  · have ne : n ≠ chdu := by omega
    simp [ne, front]
  · split <;> simp [front]

structure Removed (F F' : File) : Prop where
  current : 1 ≤ F.chdu ∧ F.chdu ≤ F.numHdus
  mode : F'.mode = F.mode
  numHdus : F'.numHdus = if F.chdu = 1 then F.numHdus else F.numHdus - 1
  units : ∀ n m, removed F.chdu n = some m → F'.units m = F.units n

end File

/-- What CFITSIO documents of these calls. -/
structure HduCalls.Documented (calls : HduCalls) : Prop where
  copy_header : ∀ {same h F F'}, calls.copyHeader same h F = .ok () F' → F.Appended F'
  copy_hdu : ∀ {same h morekeys F F'}, calls.copyHdu same h morekeys F = .ok () F' → F.Appended F'
  delete_hdu : ∀ {type F F'}, calls.deleteHdu F = .ok type F' → F.Removed F'

namespace World

variable {w w' v : World} {o : Obj} {f g : Nat}

@[simp] theorem base_setFile {F : File} : (w.setFile f F).base o = w.base o := by cases o <;> rfl

@[simp] theorem files_setFile {F : File} : (w.setFile f F).files f = F := by simp [setFile]

theorem files_setFile_ne {F : File} (ne : g ≠ f) : (w.setFile f F).files g = w.files g := by
  simp [setFile, ne]

theorem base_setTable_ne {t : Nat} {T : Table} (other : o ≠ .table t) :
    (w.setTable t T).base o = w.base o := by
  cases o with
  | hdu i => rfl
  | table s =>
    have ne : s ≠ t := fun same => other (congrArg Obj.table same)
    simp [base, ne]

structure Longer (w w' : World) : Prop where
  numHdus : ∀ f, (w.files f).numHdus ≤ (w'.files f).numHdus
  units : ∀ f n, n ≤ (w.files f).numHdus → (w'.files f).units n = (w.files f).units n

theorem Longer.trans (first : w.Longer v) (later : v.Longer w') : w.Longer w' where
  numHdus f := Int.le_trans (first.numHdus f) (later.numHdus f)
  units f n high :=
    (later.units f n (Int.le_trans high (first.numHdus f))).trans (first.units f n high)

theorem Longer.of_files (same : w'.files = w.files) : w.Longer w' where
  numHdus f := by simp [same]
  units f n _ := by simp [same]

theorem longer_onto : w.Longer (w.onto o) where
  numHdus _ := by simp [onto]
  units _ _ _ := by simp [onto]

theorem longer_setFile {F : File} (appended : (w.files f).Appended F) : w.Longer (w.setFile f F) where
  numHdus g := by
    by_cases same : g = f
    · subst same
      rw [files_setFile, appended.numHdus]
      omega
    · simp [files_setFile_ne same]
  units g n high := by
    by_cases same : g = f
    · subst same
      rw [files_setFile, appended.units n high]
    · rw [files_setFile_ne same]

structure Rebuilt (w : World) (o : Obj) (w' : World) : Prop where
  longer : w.Longer w'
  others : ∀ p, p ≠ o → w'.base p = w.base p
  file : (w'.base o).file = (w.base o).file
  hduNum : (w'.base o).hduNum = (w.base o).hduNum
  here : w'.Current o

theorem Rebuilt.trans (first : w.Rebuilt o v) (later : v.Rebuilt o w') : w.Rebuilt o w' where
  longer := first.longer.trans later.longer
  others p other := (later.others p other).trans (first.others p other)
  file := later.file.trans first.file
  hduNum := later.hduNum.trans first.hduNum
  here := later.here

theorem rebuilt_rename {extname : String} {extver : Int} :
    w.Rebuilt o ((w.onto o).rename o extname extver) where
  longer := longer_onto.trans (Longer.of_files files_rename)
  others p other := by rw [base_rename, if_neg other, base_onto]
  file := by simp
  hduNum := by simp
  here := current_rename.mpr current_of_onto

structure Listed (w : World) (f : Nat) (n : Int) (h : HduData) : Prop where
  low : 1 ≤ n
  high : n ≤ (w.files f).numHdus
  unit : (w.files f).units n = h

variable {n m : Int} {h : HduData}

theorem Listed.longer (listed : w.Listed f n h) (longer : w.Longer w') : w'.Listed f n h where
  low := listed.low
  high := Int.le_trans listed.high (longer.numHdus f)
  unit := (longer.units f n listed.high).trans listed.unit

theorem Listed.elsewhere {F : File} (listed : w.Listed f n h) (other : g ≠ f) :
    (w.setFile g F).Listed f n h where
  low := listed.low
  high := by simpa [files_setFile_ne other.symm] using listed.high
  unit := by simpa [files_setFile_ne other.symm] using listed.unit

theorem Listed.removed {F : File} (listed : w.Listed f n h) (removed : (w.files f).Removed F)
    (carried : File.removed (w.files f).chdu n = some m) : (w.setFile f F).Listed f m h where
  low := by
    have := listed.low
    unfold File.removed at carried
    split at carried
    · cases carried
    · split at carried <;> cases carried <;> omega
  high := by
    have low := removed.current.1
    have high := listed.high
    rw [files_setFile, removed.numHdus]
    unfold File.removed at carried
    split at carried
    · cases carried
    · have := removed.current.2
      split at carried <;> cases carried <;> split <;> omega
  unit := by
    rw [files_setFile, removed.units n m carried]
    exact listed.unit

end World

namespace File

variable {calls : HduCalls} {f g : Nat} {w w' : World}

theorem editList_ok {α : Type} {call : EStateM Status File α} {a : α} :
    editList f call w = .ok a w' ↔ ∃ F, call (w.files f) = .ok a F ∧ w' = w.setFile f F := by
  unfold editList
  cases call (w.files f) <;> simp [eq_comm]

theorem copy_ok (doc : calls.Documented) {what : Nat} {morekeys : Int} {u : Unit}
    (one : what = FileCopy.currentHeader ∨ what = FileCopy.currentHdu)
    (run : copy calls f g what morekeys w = .ok u w') :
    ∃ F, (w.files g).Appended F ∧ w' = w.setFile g F := by
  obtain ⟨mode, _, asks, run⟩ := bind_ok.mp run
  cases asks
  obtain ⟨_, run⟩ := check_ok.mp run
  obtain ⟨F, copied, state⟩ := editList_ok.mp run
  refine ⟨F, ?_, state⟩
  unfold copyCall at copied
  rcases one with header | hdu
  · rw [if_pos header] at copied
    exact doc.copy_header copied
  · rw [if_neg (by rw [hdu]; decide), if_pos hdu] at copied
    exact doc.copy_hdu copied

theorem deleteHdu_ok (doc : calls.Documented) {type : HduType}
    (run : deleteHdu calls f w = .ok type w') :
    ∃ F, (w.files f).Removed F ∧ w' = w.setFile f F := by
  obtain ⟨F, deleted, state⟩ := editList_ok.mp run
  exact ⟨F, doc.delete_hdu deleted, state⟩

end File

namespace Table
open HDU

variable {api : Cfitsio} {calls : HduCalls} {t g made : Nat} {w w' : World} {u : Unit}

theorem rebuilt_refresh (doc : Documented api) (run : refresh api t w = .ok u w') :
    w.Rebuilt (.table t) w' := by
  obtain ⟨infos, extname, extver, _, rfl⟩ := refresh_ok doc run
  have named : w.Rebuilt (.table t) ((w.onto (.table t)).rename (.table t) extname extver) :=
    World.rebuilt_rename
  exact ⟨named.longer.trans (World.Longer.of_files World.files_setColumns),
    fun p other => by rw [World.base_setColumns, named.others p other],
    by rw [World.base_setColumns, named.file], by rw [World.base_setColumns, named.hduNum],
    World.current_setColumns.mpr named.here⟩

theorem new_ok (doc : Documented api) (run : Table.new api made g 0 w = .ok u w') :
    w.Longer w' ∧ (∀ p, p ≠ .table made → w'.base p = w.base p) ∧
      (w'.base (.table made)).file = g ∧
      (w'.base (.table made)).hduNum = (w.files g).chdu ∧ w'.Current (.table made) := by
  obtain ⟨_, _, asks, run⟩ := bind_ok.mp run
  cases asks
  obtain ⟨_, _, puts, run⟩ := bind_ok.mp run
  cases modify_ok.mp puts
  obtain ⟨_, _, named, run⟩ := bind_ok.mp run
  obtain ⟨extname, extver, rfl⟩ := HDU.refresh_ok doc named
  have rebuilt := World.rebuilt_rename.trans (rebuilt_refresh doc run)
  refine ⟨(World.Longer.of_files World.files_setTable).trans rebuilt.longer, fun p other => ?_,
    ?_, ?_, rebuilt.here⟩
  · rw [rebuilt.others p other]
    exact World.base_setTable_ne other
  · rw [rebuilt.file]
    simp [World.base]
  · rw [rebuilt.hduNum]
    simp [World.base]

theorem copy_ok (doc : Documented api) (documented : calls.Documented) {what : TableCopy}
    {morekeys : Int} (run : copy api calls t g what morekeys made w = .ok u w') :
    w.Longer w' ∧ (∀ p, p ≠ .table made → w'.base p = w.base p) ∧
      (w'.base (.table made)).file = g ∧
      (w'.base (.table made)).hduNum = (w.files g).numHdus + 1 ∧
      (w.files g).numHdus + 1 ≤ (w'.files g).numHdus ∧ w'.Current (.table made) := by
  replace run := setAsChdu_bind_ok doc run
  obtain ⟨F, appended, run⟩ : ∃ F, ((w.onto (.table t)).files g).Appended F ∧
      Table.new api made g 0 ((w.onto (.table t)).setFile g F) = .ok u w' := by
    cases what with
    | hdu =>
      obtain ⟨_, _, copies, run⟩ := bind_ok.mp run
      obtain ⟨F, appended, rfl⟩ := File.copy_ok documented (Or.inr rfl) copies
      exact ⟨F, appended, run⟩
    | header =>
      obtain ⟨_, _, copies, run⟩ := bind_ok.mp run
      obtain ⟨F, appended, rfl⟩ := File.copy_ok documented (Or.inl rfl) copies
      exact ⟨F, appended, run⟩
  obtain ⟨longer, others, file, hduNum, here⟩ := new_ok doc run
  have count : F.numHdus = (w.files g).numHdus + 1 := by
    rw [appended.numHdus]
    simp [World.onto]
  refine ⟨(World.longer_onto.trans (World.longer_setFile appended)).trans longer,
    fun p other => ?_, file, ?_, ?_, here⟩
  · rw [others p other, World.base_setFile, World.base_onto]
  · rw [hduNum, World.files_setFile, appended.chdu, count]
  · have more := longer.numHdus g
    rwa [World.files_setFile, count] at more

end Table

inductive HduEvent where
  | add (f t made : Nat)
  | copy (t f : Nat) (what : TableCopy) (morekeys : Int) (made : Nat)
  | deleteHdu (f : Nat)
  deriving DecidableEq, Repr

section HduEvent

variable (api : Cfitsio) (calls : HduCalls)

def HduEvent.run : HduEvent → M Unit
  | add f t made => File.add api calls f t made
  | copy t f what morekeys made => Table.copy api calls t f what morekeys made
  | deleteHdu f => do
    let _ ← File.deleteHdu calls f

def HduEvent.makes : HduEvent → Option Obj
  | add _ _ made => some (.table made)
  | copy _ _ _ _ made => some (.table made)
  | deleteHdu _ => none

/-- One of these calls, or anything that leaves the units of all files and the
object itself as they are: moves, reads, and the making of other objects. -/
def HduStep (o : Obj) : Option HduEvent → World → World → Prop
  | some e, w, w' => HduEvent.run api calls e w = .ok () w' ∧ e.makes ≠ some o
  | none, w, w' => w.Longer w' ∧ w'.base o = w.base o

def carried (f : Nat) : Option HduEvent → World → Int → Option Int
  | some (.deleteHdu g), w, n => if g = f then File.removed (w.files f).chdu n else some n
  | _, _, n => some n

/-- The call deletes a unit, not the primary one, in front of number `n` of the file. -/
def InFront (f : Nat) (n : Int) (q : World × Option HduEvent) : Prop :=
  q.2 = some (.deleteHdu f) ∧ 1 < (q.1.files f).chdu ∧ (q.1.files f).chdu < n

instance {f : Nat} {n : Int} {q : World × Option HduEvent} : Decidable (InFront f n q) :=
  inferInstanceAs (Decidable (_ ∧ _ ∧ _))

/-- The methods of the object work on number `n` of its file. -/
def Operates (w : World) (o : Obj) (n : Int) : Prop :=
  ∃ w', HDU.setAsChdu api o w = .ok () w' ∧ (w'.files (w'.base o).file).chdu = n

end HduEvent

section Runs

variable {api : Cfitsio} {calls : HduCalls} {o : Obj} {w w' : World} {f : Nat} {n m : Int}
  {h : HduData}

theorem longer_of_makes (doc : Documented api) (documented : calls.Documented) {e : HduEvent}
    {p : Obj} (makes : e.makes = some p) (step : HduStep api calls o (some e) w w') :
    w.Longer w' ∧ w'.base o = w.base o := by
  obtain ⟨run, other⟩ := step
  have ne : o ≠ p := fun same => other (makes.trans (congrArg some same.symm))
  cases e with
  | add f t made =>
    cases makes
    rw [HduEvent.run, File.add] at run
    obtain ⟨longer, others, _⟩ := Table.copy_ok doc documented run
    exact ⟨longer, others o ne⟩
  | copy t f what morekeys made =>
    cases makes
    obtain ⟨longer, others, _⟩ := Table.copy_ok doc documented run
    exact ⟨longer, others o ne⟩
  | deleteHdu f => cases makes

/-- A step takes the unit that had a number to the number that is carried on. -/
theorem listed_step (doc : Documented api) (documented : calls.Documented)
    {e : Option HduEvent} (step : HduStep api calls o e w w') (listed : w.Listed f n h)
    (moves : carried f e w n = some m) : w'.Listed f m h ∧ w'.base o = w.base o := by
  cases e with
  | none =>
    cases moves
    exact ⟨listed.longer step.1, step.2⟩
  | some e =>
    cases e with
    | add g t made =>
      cases moves
      obtain ⟨longer, same⟩ := longer_of_makes doc documented rfl step
      exact ⟨listed.longer longer, same⟩
    | copy t g what morekeys made =>
      cases moves
      obtain ⟨longer, same⟩ := longer_of_makes doc documented rfl step
      exact ⟨listed.longer longer, same⟩
    | deleteHdu g =>
      obtain ⟨type, _, deletes, done⟩ := bind_ok.mp step.1
      obtain ⟨_, rfl⟩ := pure_ok.mp done
      obtain ⟨F, removed, rfl⟩ := File.deleteHdu_ok documented deletes
      refine ⟨?_, World.base_setFile⟩
      by_cases same : g = f
      · subst same
        rw [carried, if_pos rfl] at moves
        exact listed.removed removed moves
      · rw [carried, if_neg same] at moves
        cases moves
        exact listed.elsewhere same

theorem carried_le {e : Option HduEvent} (moves : carried f e w n = some m) : m ≤ n := by
  unfold carried at moves
  split at moves
  · split at moves
    · exact File.removed_le moves
    · cases moves
      exact Int.le_refl _
  · cases moves
    exact Int.le_refl _

theorem carried_iff {q : World × Option HduEvent} :
    (∀ k, carried f q.2 q.1 n = some k → k = n) ↔ ¬InFront f n q := by
  obtain ⟨w, e⟩ := q
  unfold carried InFront
  dsimp only
  split
  · rename_i g
    by_cases same : g = f
    · simp only [same, if_true, true_and]
      exact File.removed_iff
    · simp [same]
  · rename_i other
    simp only [Option.some.injEq, forall_eq', true_iff, not_and]
    exact fun deletes => absurd deletes (other f)

/-- Its methods work on no other number than the object remembers. -/
theorem operates_eq (doc : Documented api) (runs : Operates api w o n) : n = (w.base o).hduNum := by
  obtain ⟨w', run, rfl⟩ := runs
  cases setAsChdu_ok doc run
  exact World.current_of_onto

theorem operates_of_attached (doc : Documented api) (own : w.Attached o) :
    Operates api w o (w.base o).hduNum :=
  ⟨_, setAsChdu_of_attached doc own, World.current_of_onto⟩

/-- An object knows no more than a number. After any run in which its unit is not
deleted, that unit is there as it was, and the methods of the object work on it
exactly when no unit but the primary one has been deleted in front of it. -/
theorem operates_iff (doc : Documented api) (documented : calls.Documented)
    {trace : List (Option HduEvent × World)} (own : w.Attached o)
    (run : Trace (HduStep api calls o) w trace)
    (alive : follow (carried (w.base o).file) w (w.base o).hduNum trace = some m) :
    ((last w trace).files (w.base o).file).units m = w.unitOf o ∧
      (Operates api (last w trace) o m ↔
        ∀ q ∈ events w trace, ¬InFront (w.base o).file (w.base o).hduNum q) := by
  have keeps : ∀ e s s' n k, HduStep api calls o e s s' →
      s.Listed (w.base o).file n (w.unitOf o) ∧ s.base o = w.base o →
      carried (w.base o).file e s n = some k →
      s'.Listed (w.base o).file k (w.unitOf o) ∧ s'.base o = w.base o := by
    intro e s s' n k step held moves
    obtain ⟨listed, same⟩ := listed_step doc documented step held.1 moves
    exact ⟨listed, same.trans held.2⟩
  obtain ⟨listed, same⟩ := run.follow keeps ⟨⟨own.1, own.2, rfl⟩, rfl⟩ alive
  refine ⟨listed.unit, ?_⟩
  have still : m = (w.base o).hduNum ↔
      ∀ q ∈ events w trace, ¬InFront (w.base o).file (w.base o).hduNum q := by
    rw [follow_iff (fun _ _ _ _ moves => carried_le moves) alive]
    exact forall₂_congr (fun _ _ => carried_iff)
  rw [← still]
  constructor
  · intro runs
    rw [operates_eq doc runs, same]
  · intro unmoved
    rw [unmoved, ← same]
    refine operates_of_attached doc ⟨?_, ?_⟩
    · rw [same]
      exact own.1
    · rw [same, ← unmoved]
      exact listed.high

end Runs

namespace Reference

def append (F : File) (h : HduData) : File :=
  { F with
    numHdus := F.numHdus + 1
    chdu := F.numHdus + 1
    units := Function.update F.units (F.numHdus + 1) h }

def chosen (F : File) (previous current following : Bool) : List Int :=
  ((List.range F.numHdus.toNat).map (fun k => (k : Int) + 1)).filter
    (fun n => if n < F.chdu then previous else if n = F.chdu then current else following)

def remove (F : File) : File :=
  if F.chdu = 1 then { F with units := Function.update F.units 1 primary }
  else
    { F with
      numHdus := F.numHdus - 1
      chdu := min F.chdu (F.numHdus - 1)
      units := fun n => if n < F.chdu then F.units n else F.units (n + 1) }

def sameFile : Status := .other 101

def hduCalls : HduCalls where
  copyHeader same h F :=
    if same then .error sameFile F
    else .ok () (append F
      { h with cols := h.cols.map (fun c => c.withCells (fun _ => blank c.toColHead)) })
  copyHdu same h _ F := if same then .error sameFile F else .ok () (append F h)
  copyFile same src previous current following F :=
    if same then .error sameFile F
    else .ok () ((chosen src previous current following).foldl (fun F n => append F (src.units n)) F)
  deleteHdu F :=
    if 1 ≤ F.chdu ∧ F.chdu ≤ F.numHdus then
      .ok ((remove F).units (remove F).chdu).type (remove F)
    else .error (.other 301) F

theorem appended_append (F : File) (h : HduData) : F.Appended (append F h) where
  mode := rfl
  numHdus := rfl
  chdu := rfl
  units n high := Function.update_of_ne (by omega) _ _

theorem removed_remove {F : File} (current : 1 ≤ F.chdu ∧ F.chdu ≤ F.numHdus) :
    F.Removed (remove F) where
  current := current
  mode := by
    unfold remove
    split <;> rfl
  numHdus := by
    unfold remove
    split <;> rfl
  units n m carried := by
    unfold File.removed at carried
    unfold remove
    split at carried
    · cases carried
    · rename_i other
      split at carried
      · rename_i front
        cases carried
        rw [if_neg (by omega)]
        simp only [show ¬n - 1 < F.chdu by omega, if_false, Int.sub_add_cancel]
      · rename_i front
        cases carried
        split
        · rename_i first
          exact Function.update_of_ne (by omega) _ _
        · simp only [show n < F.chdu by omega, if_true]

theorem hduCalls_documented : hduCalls.Documented where
  copy_header run := by
    unfold hduCalls at run
    dsimp only at run
    split at run
    · cases run
    · cases run
      exact appended_append _ _
  copy_hdu run := by
    unfold hduCalls at run
    dsimp only at run
    split at run
    · cases run
    · cases run
      exact appended_append _ _
  delete_hdu run := by
    unfold hduCalls at run
    dsimp only at run
    split at run
    · rename_i current
      cases run
      exact removed_remove current
    · cases run

end Reference

/-! Two tables of a file, whose current unit is one of them, and a table to add. -/

def oneColumn (ttype : String) : HduData :=
  Reference.table [Reference.column ttype .byte 1 1] 0

def twoTables (chdu : Int) : World :=
  (Reference.world (oneColumn "A") (oneColumn "B") (oneColumn "C")).setChdu 0 chdu

def occur (e : HduEvent) (w : World) : Option HduEvent × World :=
  (some e, after (e.run Reference.api Reference.hduCalls w))

def replaced (chdu : Int) : List (Option HduEvent × World) :=
  let gone := occur (.deleteHdu 0) (twoTables chdu)
  [gone, occur (.add 0 2 7) gone.2]

theorem step_of_returned {o : Obj} {e : HduEvent} {w : World}
    (runs : returned (e.run Reference.api Reference.hduCalls w) = true)
    (other : e.makes ≠ some o) :
    HduStep Reference.api Reference.hduCalls o (some e) w (occur e w).2 :=
  ⟨ok_of_returned runs, other⟩

theorem replaced_behind :
    Operates Reference.api (last (twoTables 3) (replaced 3)) (.table 0) 2 := by
  have run : Trace (HduStep Reference.api Reference.hduCalls (.table 0)) (twoTables 3)
      (replaced 3) :=
    ⟨step_of_returned (by decide +kernel) (by decide), step_of_returned (by decide +kernel)
      (by decide), trivial⟩
  have own : (twoTables 3).Attached (.table 0) := ⟨by decide +kernel, by decide +kernel⟩
  have alive : follow (carried ((twoTables 3).base (.table 0)).file) (twoTables 3)
      ((twoTables 3).base (.table 0)).hduNum (replaced 3) = some 2 := by decide +kernel
  refine (operates_iff Reference.documented Reference.hduCalls_documented own run alive).2.mpr ?_
  decide +kernel

/-- A unit in front is deleted, so the table of the object has number two, while the
object works on number three, which is the table that was added. -/
theorem replaced_in_front :
    (twoTables 2).Attached (.table 1) ∧
    Trace (HduStep Reference.api Reference.hduCalls (.table 1)) (twoTables 2) (replaced 2) ∧
    follow (carried 0) (twoTables 2) ((twoTables 2).base (.table 1)).hduNum (replaced 2) = some 2 ∧
    ¬Operates Reference.api (last (twoTables 2) (replaced 2)) (.table 1) 2 ∧
    Operates Reference.api (last (twoTables 2) (replaced 2)) (.table 1) 3 ∧
    ((twoTables 2).unitOf (.table 1)).names = ["B"] ∧
    ((last (twoTables 2) (replaced 2)).unitOf (.table 1)).names = ["C"] := by
  have hduNum : ((last (twoTables 2) (replaced 2)).base (.table 1)).hduNum = 3 := by decide +kernel
  have own : (last (twoTables 2) (replaced 2)).Attached (.table 1) :=
    ⟨by decide +kernel, by decide +kernel⟩
  refine ⟨⟨by decide +kernel, by decide +kernel⟩, ⟨step_of_returned (by decide +kernel) (by decide),
    step_of_returned (by decide +kernel) (by decide), trivial⟩, by decide +kernel,
    fun runs => ?_, ?_, by decide +kernel, by decide +kernel⟩
  · have same := operates_eq Reference.documented runs
    rw [hduNum] at same
    exact absurd same (by decide)
  · have runs := operates_of_attached Reference.documented own
    rwa [hduNum] at runs

end MisFITS
