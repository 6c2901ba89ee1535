import MisFITS.Slot
import MisFITS.Reference

/-! Many objects of a file take turns with moves of its cursor. The operations
on one header-data unit cannot tell from their replies, or from what they leave
behind, what the turns in between were. -/
namespace MisFITS
open Program Footprint

inductive HduOp where
  | getHdrpos
  | hasKeyword (keyname : String)
  | getKeywordString (keyname defaultValue : String)
  | getKeyword (T : StorageType) (keyname : String) (defaultValue : T.Native)
  | setKeywordString (kw : Keyword String)
  | setKeyword (T : StorageType) (kw : Keyword T.Native)
  | deleteKeyword (keyname : String)
  | addHistory (history : String)
  | addComment (comment : String)
  | refresh

/-- The operations that a table adds, or has in another form. -/
inductive TableOp where
  | refresh
  | hasColumn (templt : String)
  | colinfo (colname : String)
  | numColumns
  | numRows
  | add (ci : ColumnInfo)
  | addNew (ttype : String) (type : ColumnType.ID) (tunit : String) (extent : Extent)
      (colnum : Nat)
  | resize (colnum : Nat) (extent : Extent)
  | resizeByName (name : String) (extent : Extent)
  | deleteColumn (colnum : Nat)
  | deleteColumnByName (name : String)

inductive Answer where
  | done
  | flag (b : Bool)
  | count (n : Nat)
  | rows (n : Int)
  | position (p : Int × Int)
  | info (ci : ColumnInfo)
  | text (kw : Keyword String)
  | value (T : StorageType) (kw : Keyword T.Native)

def HduOp.run (api : Cfitsio) (o : Obj) : HduOp → M Answer
  | .getHdrpos => return .position (← HDU.getHdrpos api o)
  | .hasKeyword keyname => return .flag (← HDU.hasKeyword api o keyname)
  | .getKeywordString keyname value => return .text (← HDU.getKeywordString api o keyname value)
  | .getKeyword T keyname value => return .value T (← HDU.getKeyword api o T keyname value)
  | .setKeywordString kw => do HDU.setKeywordString api o kw; return .done
  | .setKeyword T kw => do HDU.setKeyword api o T kw; return .done
  | .deleteKeyword keyname => do HDU.deleteKeyword api o keyname; return .done
  | .addHistory history => do HDU.addHistory api o history; return .done
  | .addComment comment => do HDU.addComment api o comment; return .done
  | .refresh => do HDU.refresh api o; return .done

def TableOp.run (api : Cfitsio) (t : Nat) : TableOp → M Answer
  | .refresh => do Table.refresh api t; return .done
  | .hasColumn templt => return .flag (← Table.hasColumn api t templt)
  | .colinfo colname => return .info (← Table.colinfoByName api t colname)
  | .numColumns => return .count (← Table.numColumns api t)
  | .numRows => return .rows (← Table.numRows api t)
  | .add ci => do Table.add api t ci; return .done
  | .addNew ttype type tunit extent colnum => do
    Table.addNew api t ttype type tunit extent colnum
    return .done
  | .resize colnum extent => do Table.resize api t colnum extent; return .done
  | .resizeByName name extent => do Table.resizeByName api t name extent; return .done
  | .deleteColumn colnum => do Table.deleteColumn api t colnum; return .done
  | .deleteColumnByName name => do Table.deleteColumnByName api t name; return .done

inductive Turn where
  | hdu (o : Obj) (op : HduOp)
  | table (t : Nat) (op : TableOp)
  | moveTo (f : Nat) (req : Int)
  | moveBy (f : Nat) (nmove : Int)

namespace Turn

def run (api : Cfitsio) : Turn → M Answer
  | .hdu o op => op.run api o
  | .table t op => op.run api t
  | .moveTo f req => do File.moveTo api f req; return .done
  | .moveBy f nmove => do File.moveBy api f nmove; return .done

def obj : Turn → Option Obj
  | .hdu o _ => some o
  | .table t _ => some (.table t)
  | .moveTo _ _ => none
  | .moveBy _ _ => none

def isHasKeyword : Turn → Bool
  | .hdu _ (.hasKeyword _) => true
  | _ => false

end Turn

section Turns

variable {api : Cfitsio} {f : Nat} {n : Int} {mine : Obj → Prop} {o : Obj} {t : Nat}

theorem HduOp.local_run (doc : Documented api) (own : mine o) (op : HduOp)
    (other : (Turn.hdu o op).isHasKeyword = false) :
    Local (slot f n mine) Anywhere (Here f n) (op.run api o) := by
  cases op with
  | getHdrpos => exact (local_readOwn doc own _).map _
  | hasKeyword keyname => cases other
  | getKeywordString keyname value => exact (local_getKeywordString doc own _ _).map _
  | getKeyword T keyname value => exact (local_getKeyword doc own _ _ _).map _
  | setKeywordString kw => exact (local_editOwn doc own _).map _
  | setKeyword T kw => exact (local_editOwn doc own _).map _
  | deleteKeyword keyname => exact (local_editOwn doc own _).map _
  | addHistory history => exact (local_editOwn doc own _).map _
  | addComment comment => exact (local_editOwn doc own _).map _
  | refresh => exact (local_hdu_refresh doc own).map _

theorem TableOp.local_run (doc : Documented api) (own : mine (.table t)) (op : TableOp) :
    Local (slot f n mine) Anywhere (Here f n) (op.run api t) := by
  cases op with
  | refresh => exact (local_refresh doc own).map _
  | hasColumn templt => exact (local_readOwn doc own _).map _
  | colinfo colname => exact (local_colinfoByName doc own _).map _
  | numColumns => exact (local_readOwn doc own _).map _
  | numRows => exact (local_readOwn doc own _).map _
  | add ci => exact (local_add doc own _).map _
  | addNew ttype type tunit extent colnum => exact (local_addNew doc own _ _ _ _ _).map _
  | resize colnum extent => exact (local_resize doc own _ _).map _
  | resizeByName name extent =>
    refine Local.map _ ((local_colinfoByName doc own name).bind (fun ci => ?_))
    exact local_here (local_resize doc own _ _)
  | deleteColumn colnum => exact (local_deleteColumn doc own _).map _
  | deleteColumnByName name => exact (local_deleteColumnByName doc own _).map _

def Placed (place : Obj → Nat × Int) (w : World) : Prop :=
  ∀ o, (w.base o).file = (place o).1 ∧ (w.base o).hduNum = (place o).2

def Turn.on (place : Obj → Nat × Int) (f : Nat) (n : Int) (e : Turn) : Bool :=
  match e.obj with
  | some o => place o = (f, n)
  | none => false

/-- An object that is asked for `has_keyword` has its header-data unit current. -/
def Turn.Asked (e : Turn) (w : World) : Prop :=
  ∀ o, e.obj = some o → e.isHasKeyword = true → w.Current o

def Turn.Ready (place : Obj → Nat × Int) (e : Turn) (w : World) : Prop :=
  Placed place w ∧ (∀ o, e.obj = some o → w.Attached o) ∧ e.Asked w

variable {place : Obj → Nat × Int} {w : World}

def On (place : Obj → Nat × Int) (f : Nat) (n : Int) (o : Obj) : Prop := place o = (f, n)

theorem Turn.local_run (doc : Documented api) {e : Turn} (working : e.obj = some o)
    (own : On place f n o) :
    Local (slot f n (On place f n)) (e.Ready place) (fun _ => True) (e.run api) := by
  cases e with
  | hdu p op =>
    obtain rfl : p = o := Option.some.inj working
    cases ask : (Turn.hdu p op).isHasKeyword with
    | false =>
      exact Local.weaken (Local.mono (op.local_run doc own ask) (fun _ _ _ => trivial))
        (fun _ _ => trivial)
    | true =>
      cases op with
      | hasKeyword keyname =>
        refine Local.weaken (Local.mono ((local_hasKeyword own keyname).map Answer.flag)
          (fun w inv ready => ?_)) (fun _ _ => trivial)
        have current := ready.2.2 p rfl ask
        rwa [World.Current, (inv.2.2 p own).1, (inv.2.2 p own).2] at current
      | _ => cases ask
  | table t op =>
    obtain rfl : Obj.table t = o := Option.some.inj working
    exact Local.weaken (Local.mono (op.local_run doc own) (fun _ _ _ => trivial))
      (fun _ _ => trivial)
  | moveTo g req => cases working
  | moveBy g nmove => cases working

theorem Turn.move_moved {e : Turn} (move : e.obj = none) (w : World) :
    w.Moved (after (e.run api w)) := by
  have moves : ∀ g step, w.Moved (after (moveChdu g step w)) := by
    intro g step
    unfold moveChdu
    split <;> exact World.moved_setChdu
  have whole : ∀ m : M Unit, w.Moved (after (m w)) →
      w.Moved (after ((do m; return Answer.done) w)) := by
    intro m h
    cases run : m w with
    | ok u w' => rw [bind_of_ok run]; rw [run] at h; exact h
    | error x w' => rw [bind_of_error run]; rw [run] at h; exact h
  cases e with
  | hdu o op => cases move
  | table t op => cases move
  | moveTo g req =>
    apply whole _
    rw [File.moveTo_eq]
    split
    · exact World.Moved.refl w
    · exact moves g _
  | moveBy g nmove => exact whole _ (moves g _)

theorem Turn.frame (doc : Documented api) {e : Turn} (working : e.obj = some o)
    (ready : e.Ready place w) :
    (slot (place o).1 (place o).2 (On place (place o).1 (place o).2)).outside w
      (after (e.run api w)) := by
  refine (Turn.local_run doc working (show On place _ _ o from rfl)).frame w ⟨?_, ?_, ?_⟩ ready
  · rw [← (ready.1 o).2]
    exact (ready.2.1 o working).1
  · rw [← (ready.1 o).1, ← (ready.1 o).2]
    exact (ready.2.1 o working).2
  · intro p own
    have same : place p = place o := own
    rw [← same]
    exact ready.1 p

theorem slot_apart {g : Nat} {m : Int} {w' : World} (apart : (g, m) ≠ (f, n))
    (outside : (slot g m (On place g m)).outside w w') (inv : (slot f n (On place f n)).inv w) :
    (slot f n (On place f n)).inv w' ∧ (slot f n (On place f n)).agree w w' := by
  obtain ⟨units, _, sizes, objects, places⟩ := outside
  obtain ⟨low, high, placed⟩ := inv
  refine ⟨⟨low, (sizes f).1 ▸ high, fun p own => ?_⟩, ?_, (sizes f).2, fun p own => ?_⟩
  · rw [← (places p).1, ← (places p).2]
    exact placed p own
  · exact units f n (fun same other => apart (by rw [same, other]))
  · exact objects p (fun theirs => apart (Eq.symm theirs |>.trans own))

theorem slot_moved {w' : World} (moved : w.Moved w') (inv : (slot f n mine).inv w) :
    (slot f n mine).inv w' ∧ (slot f n mine).agree w w' := by
  obtain ⟨low, high, placed⟩ := inv
  refine ⟨⟨low, by rw [moved.numHdus]; exact high, fun o own => by rw [moved.base]; exact placed o own⟩,
    by rw [moved.units], (moved.mode f).symm, fun o _ => ?_⟩
  cases o with
  | hdu i => exact (congrFun moved.hdus i).symm
  | table t => exact (congrFun moved.tables t).symm

theorem confined (doc : Documented api) (place : Obj → Nat × Int) (f : Nat) (n : Int) :
    Confined (slot f n (On place f n)) (Turn.run api) (Turn.Ready place) (Turn.on place f n) := by
  constructor
  · intro e mine
    unfold Turn.on at mine
    split at mine
    · rename_i o working
      exact Turn.local_run doc working (show place o = (f, n) from of_decide_eq_true mine)
    · cases mine
  · intro e w other inv ready
    unfold Turn.on at other
    split at other
    · rename_i o working
      exact slot_apart (of_decide_eq_false other) (Turn.frame doc working ready) inv
    · rename_i move
      exact slot_moved (Turn.move_moved move w) inv

theorem Turn.stays (doc : Documented api) {e : Turn} (ready : e.Ready place w) :
    Placed place (after (e.run api w)) ∧
      ∀ o, w.Attached o → (after (e.run api w)).Attached o := by
  have keeps : (∀ o, ((after (e.run api w)).base o).file = (w.base o).file ∧
      ((after (e.run api w)).base o).hduNum = (w.base o).hduNum) ∧
      ∀ g, ((after (e.run api w)).files g).numHdus = (w.files g).numHdus := by
    cases working : e.obj with
    | some o =>
      obtain ⟨_, _, sizes, _, places⟩ := Turn.frame doc working ready
      exact ⟨fun o => ⟨(places o).1.symm, (places o).2.symm⟩, fun g => (sizes g).1.symm⟩
    | none =>
      have moved : w.Moved (after (e.run api w)) := Turn.move_moved working w
      exact ⟨fun o => by rw [moved.base]; exact ⟨rfl, rfl⟩, moved.numHdus⟩
  refine ⟨fun o => ?_, fun o attached => ?_⟩
  · rw [(keeps.1 o).1, (keeps.1 o).2]
    exact ready.1 o
  · unfold World.Attached
    rw [(keeps.1 o).1, (keeps.1 o).2, keeps.2]
    exact attached

theorem admissible (doc : Documented api) {turns : List Turn} (placed : Placed place w)
    (attached : ∀ e ∈ turns, ∀ o, e.obj = some o → w.Attached o)
    (asked : Admissible (Turn.run api) Turn.Asked turns w) :
    Admissible (Turn.run api) (Turn.Ready place) turns w := by
  induction turns generalizing w with
  | nil => trivial
  | cons e turns ih =>
    have ready : e.Ready place w := ⟨placed, attached e List.mem_cons_self, asked.1⟩
    obtain ⟨placed', attached'⟩ := Turn.stays doc ready
    refine ⟨ready, ih placed' (fun d member o working => ?_) asked.2⟩
    exact attached' o (attached d (List.mem_cons_of_mem e member) o working)

/-- A schedule of operations on header-data units that exist, of which one is
looked at, and in which `has_keyword` is asked at the right time. -/
structure Schedule (api : Cfitsio) (place : Obj → Nat × Int) (f : Nat) (n : Int)
    (turns : List Turn) (w : World) : Prop where
  placed : Placed place w
  attached : ∀ e ∈ turns, ∀ o, e.obj = some o → w.Attached o
  exist : 1 ≤ n ∧ n ≤ (w.files f).numHdus
  asked : Admissible (Turn.run api) Turn.Asked turns w

/-- Two schedules with the same operations on a header-data unit, begun in
worlds that have the same header-data unit and objects there, bring these
operations the same replies and leave the same there. The cursors of the files,
all other header-data units and objects, and the other turns may differ. -/
theorem interleaving_isolated (doc : Documented api) {v : World} {xs ys : List Turn}
    (schedW : Schedule api place f n xs w) (schedV : Schedule api place f n ys v)
    (same : xs.filter (Turn.on place f n) = ys.filter (Turn.on place f n))
    (agree : (slot f n (On place f n)).agree w v) :
    (play (Turn.run api) xs w).filter (fun p => p.1.on place f n) =
        (play (Turn.run api) ys v).filter (fun p => p.1.on place f n) ∧
      (slot f n (On place f n)).agree (settle (Turn.run api) xs w) (settle (Turn.run api) ys v) := by
  have inside : ∀ {turns u}, Schedule api place f n turns u → (slot f n (On place f n)).inv u := by
    intro turns u sched
    refine ⟨sched.exist.1, sched.exist.2, fun o own => ?_⟩
    have site := sched.placed o
    rw [show place o = (f, n) from own] at site
    exact site
  exact (confined doc place f n).play_agree same (inside schedW) (inside schedV) agree
    (admissible doc schedW.placed schedW.attached schedW.asked)
    (admissible doc schedV.placed schedV.attached schedV.asked)

end Turns

def keyed : World :=
  Reference.world { Reference.table [] 0 with keys := [⟨"FOO", "1", ""⟩] } (Reference.table [] 0)
    Reference.primary

def keyedPlace (o : Obj) : Nat × Int := ((keyed.base o).file, (keyed.base o).hduNum)

def ask : Turn := .hdu (.hdu 2) (.hasKeyword "FOO")

def renew : Turn := .hdu (.hdu 2) .refresh

theorem keyed_schedule {turns : List Turn} {w : World} (placed : Placed keyedPlace w)
    (attached : w.Attached (.hdu 2)) (exist : (w.files 0).numHdus = 3)
    (known : ∀ e ∈ turns, e = .moveTo 0 3 ∨ e = ask ∨ e = renew)
    (asked : Admissible (Turn.run Reference.api) Turn.Asked turns w) :
    Schedule Reference.api keyedPlace 0 2 turns w := by
  refine ⟨placed, fun e member o working => ?_, by omega, asked⟩
  rcases known e member with rfl | rfl | rfl
  · cases working
  · cases working
    exact attached
  · cases working
    exact attached

theorem interleaving_isolated_keyed :
    (play (Turn.run Reference.api) [.moveTo 0 3, renew, ask] keyed).filter
        (fun p => p.1.on keyedPlace 0 2) =
      (play (Turn.run Reference.api) [renew, ask] (keyed.setChdu 0 3)).filter
        (fun p => p.1.on keyedPlace 0 2) := by
  have schedule : Schedule Reference.api keyedPlace 0 2 [.moveTo 0 3, renew, ask] keyed :=
    keyed_schedule (fun _ => ⟨rfl, rfl⟩) ⟨by decide, by decide⟩ rfl (by simp)
      ⟨(fun _ idle _ => nomatch idle), (fun _ _ other => nomatch other),
        (fun o is _ => by cases is; rfl), trivial⟩
  have schedule' : Schedule Reference.api keyedPlace 0 2 [renew, ask] (keyed.setChdu 0 3) :=
    keyed_schedule (fun o => by simp [keyedPlace]) ⟨by decide, by decide⟩ rfl (by simp)
      ⟨(fun _ _ other => nomatch other), (fun o is _ => by cases is; rfl), trivial⟩
  have agree : (slot 0 2 (On keyedPlace 0 2)).agree keyed (keyed.setChdu 0 3) :=
    ⟨rfl, rfl, fun o _ => by cases o <;> rfl⟩
  exact (interleaving_isolated Reference.documented schedule schedule' rfl agree).1

/-- `has_keyword` answers for the header-data unit that is current. -/
theorem has_keyword_elsewhere :
    (play (Turn.run Reference.api) [.moveTo 0 2, ask] keyed).map
        Prod.snd = [.ok .done, .ok (.flag true)] ∧
      (play (Turn.run Reference.api) [.moveTo 0 3, ask] keyed).map
        Prod.snd = [.ok .done, .ok (.flag false)] := ⟨rfl, rfl⟩

end MisFITS
