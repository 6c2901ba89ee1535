import MisFITS.Footprint
import MisFITS.Table

/-! All objects of a file share its cursor. A slot is one header-data unit with
the objects attached to it; every method but `has_keyword` is confined to the
slot of its object wherever the cursor stands. -/
namespace MisFITS
open Program Footprint

namespace World

def SameObject (w v : World) : Obj → Prop
  | .hdu i => w.hdus i = v.hdus i
  | .table t => w.tables t = v.tables t

theorem SameObject.base {w v : World} {o : Obj} (same : w.SameObject v o) : w.base o = v.base o := by
  cases o with
  | hdu i => exact same
  | table t => exact congrArg Table.toHDU same

end World

section Slot

/-- One header-data unit of a file, with the objects that are attached to it. -/
def slot (f : Nat) (n : Int) (mine : Obj → Prop) : Region World where
  inv w := 1 ≤ n ∧ n ≤ (w.files f).numHdus ∧
    ∀ o, mine o → (w.base o).file = f ∧ (w.base o).hduNum = n
  agree w v := (w.files f).units n = (v.files f).units n ∧ (w.files f).mode = (v.files f).mode ∧
    ∀ o, mine o → w.SameObject v o
  outside w v := (∀ g m, (g = f → m ≠ n) → (w.files g).units m = (v.files g).units m) ∧
    (∀ g, g ≠ f → (w.files g).chdu = (v.files g).chdu) ∧
    (∀ g, (w.files g).numHdus = (v.files g).numHdus ∧ (w.files g).mode = (v.files g).mode) ∧
    (∀ o, ¬mine o → w.SameObject v o) ∧
    ∀ o, (w.base o).file = (v.base o).file ∧ (w.base o).hduNum = (v.base o).hduNum
  agree_equiv := by
    refine ⟨?_, ?_, ?_⟩
    · intro w
      exact ⟨rfl, rfl, fun o _ => by cases o <;> rfl⟩
    · rintro w v ⟨unit, mode, objects⟩
      refine ⟨unit.symm, mode.symm, fun o own => ?_⟩
      have same := objects o own
      cases o <;> exact Eq.symm same
    · rintro u v w ⟨unit, mode, objects⟩ ⟨unit', mode', objects'⟩
      refine ⟨unit.trans unit', mode.trans mode', fun o own => ?_⟩
      have same := objects o own
      have same' := objects' o own
      cases o <;> exact Eq.trans same same'
  outside_refl w := ⟨fun _ _ _ => rfl, fun _ _ => rfl, fun _ => ⟨rfl, rfl⟩,
    fun o _ => by cases o <;> rfl, fun _ => ⟨rfl, rfl⟩⟩
  outside_trans u v w := by
    rintro ⟨units, chdu, sizes, objects, places⟩ ⟨units', chdu', sizes', objects', places'⟩
    refine ⟨fun g m other => (units g m other).trans (units' g m other),
      fun g other => (chdu g other).trans (chdu' g other),
      fun g => ⟨(sizes g).1.trans (sizes' g).1, (sizes g).2.trans (sizes' g).2⟩,
      fun o other => ?_,
      fun o => ⟨(places o).1.trans (places' o).1, (places o).2.trans (places' o).2⟩⟩
    have same := objects o other
    have same' := objects' o other
    cases o <;> exact Eq.trans same same'

def Anywhere (_ : World) : Prop := True

def Here (f : Nat) (n : Int) (w : World) : Prop := (w.files f).chdu = n

variable {api : Cfitsio} {f : Nat} {n : Int} {mine : Obj → Prop} {o : Obj} {t : Nat} {α β : Type}

theorem local_setAsChdu (doc : Documented api) (own : mine o) :
    Local (slot f n mine) Anywhere (Here f n) (HDU.setAsChdu api o) := by
  have run : ∀ w, (slot f n mine).inv w → HDU.setAsChdu api o w = .ok () (w.setChdu f n) := by
    rintro w ⟨low, high, attached⟩
    obtain ⟨file, hduNum⟩ := attached o own
    unfold HDU.setAsChdu
    rw [file, hduNum]
    exact File.moveTo_of_exists doc low high
  constructor
  · intro w inv _
    rw [run w inv]
    obtain ⟨low, high, attached⟩ := inv
    refine ⟨low, ?_, fun o own => ?_⟩
    · simpa [after] using high
    · simpa [after] using attached o own
  · intro w inv _
    rw [run w inv]
    exact ⟨by simp [after], fun g other => by simp [after, other], by simp [after],
      fun o _ => by cases o <;> rfl, by simp [after]⟩
  · intro w u w' inv _ out
    rw [run w inv] at out
    cases out
    simp [Here]
  · intro w v inv _ inv' _ ⟨unit, mode, objects⟩
    rw [run w inv, run v inv']
    refine ⟨rfl, ?_, ?_, fun o own => ?_⟩
    · simpa using unit
    · simpa using mode
    · have same := objects o own
      cases o <;> exact same

theorem local_onFile {pre post : World → Prop} {call : Nat → M α} (own : mine o)
    (h : Local (slot f n mine) pre post (call f)) :
    Local (slot f n mine) pre post (HDU.onFile o call) := by
  refine Local.congr (fun w inv _ => ?_) h
  unfold HDU.onFile
  rw [(inv.2.2 o own).1]

theorem current_here {w : World} (here : Here f n w) : w.current f = (w.files f).units n := by
  unfold World.current
  rw [here]

theorem local_readChdu {r : Read α} :
    Local (slot f n mine) (Here f n) (Here f n) (readChdu f r) := by
  apply Local.reads (r := fun w => (r ((w.files f).units n)).mapError .cfitsio)
  · intro w _ here
    unfold readChdu
    rw [current_here here]
    cases r ((w.files f).units n) <;> rfl
  · rintro w v _ _ _ _ ⟨unit, _⟩
    rw [unit]

theorem local_inspectChdu {r : HduData → α} :
    Local (slot f n mine) (Here f n) (Here f n) (inspectChdu f r) := by
  apply Local.reads (r := fun w => .ok (r ((w.files f).units n)))
  · intro w _ here
    unfold inspectChdu
    rw [current_here here]
  · rintro w v _ _ _ _ ⟨unit, _⟩
    rw [unit]

theorem local_getMode : Local (slot f n mine) (Here f n) (Here f n) (File.getMode f) := by
  refine Local.reads (r := fun w => .ok (w.files f).mode) (fun _ _ _ => rfl) ?_
  rintro w v _ _ _ _ ⟨_, mode, _⟩
  rw [mode]

theorem local_ofExcept {pre : World → Prop} (r : Except Exception α) :
    Local (slot f n mine) pre pre (ofExcept r) := by
  cases r with
  | ok a => exact Local.pure a
  | error e => exact Local.throw e

theorem local_colinfo {pre : World → Prop} (own : mine (.table t)) (colnum : Nat) :
    Local (slot f n mine) pre pre (Table.colinfo t colnum) := by
  apply Local.reads (r := fun w => atNumber (w.tables t).columns colnum)
  · intro w _ _
    unfold Table.colinfo
    cases atNumber (w.tables t).columns colnum <;> rfl
  · rintro w v _ _ _ _ ⟨_, _, objects⟩
    have same : w.tables t = v.tables t := objects _ own
    rw [same]

theorem local_editChdu {e : Edit} :
    Local (slot f n mine) (Here f n) (Here f n) (editChdu f e) := by
  have returns : ∀ {w u h}, Here f n w → e ((w.files f).units n) = .ok u h →
      editChdu f e w = .ok () (w.putUnit f n h) := by
    intro w u h here out
    have stands : (w.files f).chdu = n := here
    simp only [editChdu, current_here here, out, stands]
  have throws : ∀ {w status h}, Here f n w → e ((w.files f).units n) = .error status h →
      editChdu f e w = .error (.cfitsio status) (w.putUnit f n h) := by
    intro w status h here out
    have stands : (w.files f).chdu = n := here
    simp only [editChdu, current_here here, out, stands]
  have ends : ∀ w, Here f n w → ∃ h, after (editChdu f e w) = w.putUnit f n h := by
    intro w here
    cases out : e ((w.files f).units n) with
    | ok u h => exact ⟨h, by rw [returns here out]; rfl⟩
    | error status h => exact ⟨h, by rw [throws here out]; rfl⟩
  constructor
  · rintro w ⟨low, high, attached⟩ here
    obtain ⟨h, stop⟩ := ends w here
    rw [stop]
    exact ⟨low, by simpa using high, fun o own => by simpa using attached o own⟩
  · intro w _ here
    obtain ⟨h, stop⟩ := ends w here
    rw [stop]
    refine ⟨fun g m other => ?_, fun g _ => by simp, fun g => by simp,
      fun o _ => by cases o <;> rfl, fun o => by simp⟩
    exact (World.unit_putUnit_ne other).symm
  · intro w u w' _ here out
    obtain ⟨h, stop⟩ := ends w here
    rw [out] at stop
    rw [show w' = _ from stop]
    simpa [Here] using here
  · rintro w v _ here _ here' ⟨unit, mode, objects⟩
    have inner : ∀ h, (slot f n mine).agree (w.putUnit f n h) (v.putUnit f n h) := by
      intro h
      refine ⟨by simp, by simpa using mode, fun o own => ?_⟩
      have same := objects o own
      cases o <;> exact same
    cases out : e ((v.files f).units n) with
    | ok u h =>
      rw [returns here (unit ▸ out), returns here' out]
      exact ⟨rfl, inner h⟩
    | error status h =>
      rw [throws here (unit ▸ out), throws here' out]
      exact ⟨rfl, inner h⟩

theorem local_modify {g : World → World} (own : mine o)
    (files : ∀ w, (g w).files = w.files)
    (others : ∀ (w : World) p, p ≠ o → w.SameObject (g w) p)
    (attached : ∀ w, ((g w).base o).file = (w.base o).file ∧
      ((g w).base o).hduNum = (w.base o).hduNum)
    (alike : ∀ w v : World, w.SameObject v o → (g w).SameObject (g v) o) :
    Local (slot f n mine) (Here f n) (Here f n) (modify g : M Unit) := by
  have places : ∀ w p, (w.base p).file = ((g w).base p).file ∧
      (w.base p).hduNum = ((g w).base p).hduNum := by
    intro w p
    by_cases same : p = o
    · rw [same]
      exact ⟨(attached w).1.symm, (attached w).2.symm⟩
    · rw [(others w p same).base]
      exact ⟨rfl, rfl⟩
  constructor
  · rintro w ⟨low, high, placed⟩ _
    change (slot f n mine).inv (g w)
    refine ⟨low, by rw [files]; exact high, fun p own => ?_⟩
    rw [← (places w p).1, ← (places w p).2]
    exact placed p own
  · intro w _ _
    change (slot f n mine).outside w (g w)
    exact ⟨fun _ _ _ => by rw [files], fun _ _ => by rw [files], fun _ => by rw [files]; exact ⟨rfl, rfl⟩,
      fun p other => others w p (fun same => other (same ▸ own)), places w⟩
  · intro w u w' _ here out
    cases modify_ok.mp out
    rw [Here, files]
    exact here
  · rintro w v _ _ _ _ ⟨unit, mode, objects⟩
    change () = () ∧ (slot f n mine).agree (g w) (g v)
    refine ⟨rfl, by rw [files, files]; exact unit, by rw [files, files]; exact mode, fun p ownP => ?_⟩
    by_cases same : p = o
    · rw [same]
      exact alike w v (objects o own)
    · have left := others w p same
      have right := others v p same
      have middle := objects p ownP
      cases p with
      | hdu i => exact left.symm.trans (middle.trans right)
      | table s => exact left.symm.trans (middle.trans right)

theorem local_here {post : World → Prop} {m : M α} (h : Local (slot f n mine) Anywhere post m) :
    Local (slot f n mine) (Here f n) post m := h.mono (fun _ _ _ => trivial)

theorem local_readOwn (doc : Documented api) (own : mine o) (r : Read α) :
    Local (slot f n mine) Anywhere (Here f n) (HDU.readOwn api o r) :=
  (local_setAsChdu doc own).bind (fun _ => local_onFile own local_readChdu)

theorem local_inspectOwn (doc : Documented api) (own : mine o) (r : HduData → α) :
    Local (slot f n mine) Anywhere (Here f n) (HDU.inspectOwn api o r) :=
  (local_setAsChdu doc own).bind (fun _ => local_onFile own local_inspectChdu)

theorem local_editOwn (doc : Documented api) (own : mine o) (e : Edit) :
    Local (slot f n mine) Anywhere (Here f n) (HDU.editOwn api o e) :=
  (local_setAsChdu doc own).bind (fun _ => local_onFile own local_editChdu)

/-- The exception: `has_keyword` has to be called here. -/
theorem local_hasKeyword (own : mine o) (keyname : String) :
    Local (slot f n mine) (Here f n) (Here f n) (HDU.hasKeyword api o keyname) := by
  refine (local_onFile own local_inspectChdu).bind (fun status => ?_)
  split
  · exact Local.pure true
  · exact Local.pure true
  · exact Local.pure false
  · exact Local.throw _

theorem local_getKeywordString (doc : Documented api) (own : mine o) (keyname value : String) :
    Local (slot f n mine) Anywhere (Here f n) (HDU.getKeywordString api o keyname value) :=
  (local_inspectOwn doc own _).bind (fun r => local_ofExcept r)

theorem local_getKeyword (doc : Documented api) (own : mine o) (T : StorageType)
    (keyname : String) (value : T.Native) :
    Local (slot f n mine) Anywhere (Here f n) (HDU.getKeyword api o T keyname value) :=
  (local_inspectOwn doc own _).bind (fun _ => local_ofExcept _)

theorem local_rename (own : mine o) (g : HDU → HDU) (file : ∀ H, (g H).file = H.file)
    (hduNum : ∀ H, (g H).hduNum = H.hduNum) :
    Local (slot f n mine) (Here f n) (Here f n)
      (modify fun w : World => w.setBase o (g (w.base o)) : M Unit) := by
  refine local_modify own (fun w => World.files_setBase) ?_ (fun w => ?_) ?_
  · intro w p other
    cases o <;> cases p <;> simp_all [World.SameObject, World.setBase, World.setTable]
  · rw [World.base_setBase]
    exact ⟨file _, hduNum _⟩
  · intro w v same
    have base := same.base
    cases o with
    | hdu i =>
      change Function.update _ _ _ i = Function.update _ _ _ i
      rw [Function.update_self, Function.update_self, base]
    | table t =>
      change (w.setTable t _).tables t = (v.setTable t _).tables t
      have table : w.tables t = v.tables t := same
      rw [World.table_setTable, World.table_setTable, base, table]

theorem local_setExtname (own : mine o) (extname : String) :
    Local (slot f n mine) (Here f n) (Here f n) (HDU.setExtname o extname) :=
  local_rename own (fun H => { H with extname }) (fun _ => rfl) (fun _ => rfl)

theorem local_setExtver (own : mine o) (extver : Int) :
    Local (slot f n mine) (Here f n) (Here f n) (HDU.setExtver o extver) :=
  local_rename own (fun H => { H with extver }) (fun _ => rfl) (fun _ => rfl)

theorem local_hdu_refresh (doc : Documented api) (own : mine o) :
    Local (slot f n mine) Anywhere (Here f n) (HDU.refresh api o) := by
  refine (local_setAsChdu doc own).bind (fun _ => ?_)
  refine (local_here (local_getKeywordString doc own _ _)).bind (fun kw => ?_)
  refine (local_setExtname own _).bind (fun _ => ?_)
  refine (local_here (local_getKeyword doc own _ _ _)).bind (fun kw => ?_)
  exact local_setExtver own _

theorem local_setColumns (own : mine (.table t)) (g : List ColumnInfo → List ColumnInfo) :
    Local (slot f n mine) (Here f n) (Here f n)
      (modify fun w : World => w.setColumns t (g (w.tables t).columns) : M Unit) := by
  refine local_modify own (fun _ => rfl) ?_ (fun w => by simp) ?_
  · intro w p other
    cases p with
    | hdu i => rfl
    | table s =>
      have apart : s ≠ t := fun same => other (same ▸ rfl)
      exact (World.table_setTable_ne apart).symm
  · intro w v same
    have table : w.tables t = v.tables t := same
    change (w.setTable t _).tables t = (v.setTable t _).tables t
    rw [World.table_setTable, World.table_setTable, table]

theorem local_colinfoByName (doc : Documented api) (own : mine (.table t)) (colname : String) :
    Local (slot f n mine) Anywhere (Here f n) (Table.colinfoByName api t colname) :=
  (local_readOwn doc own _).bind (fun colnum => local_colinfo own colnum)

theorem local_init (k : Nat) (offset : Int) :
    Local (slot f n mine) (Here f n) (Here f n) (ColumnInfo.init api f k offset) := by
  refine local_inspectChdu.bind (fun type => Local.check ?_)
  refine local_readChdu.bind (fun names => ?_)
  refine local_readChdu.bind (fun format => ?_)
  refine (local_ofExcept _).bind (fun columnType => ?_)
  refine local_readChdu.bind (fun tdim => Local.ite ?_ ?_)
  · exact (local_ofExcept _).bind (fun count => Local.pure _)
  · exact local_readChdu.bind (fun axes => Local.pure _)

theorem local_pushColumns (own : mine (.table t)) (todo colnum : Nat) (offset : Int) :
    Local (slot f n mine) (Here f n) (Here f n)
      (Table.pushColumns api t todo colnum offset) := by
  induction todo generalizing colnum offset with
  | zero => exact Local.pure ()
  | succ todo ih =>
    refine (local_onFile own (local_init colnum offset)).bind (fun ci => ?_)
    exact (local_setColumns own (fun columns => columns ++ [ci])).bind (fun _ => ih _ _)

theorem local_refresh (doc : Documented api) (own : mine (.table t)) :
    Local (slot f n mine) Anywhere (Here f n) (Table.refresh api t) := by
  refine (local_setAsChdu doc own).bind (fun _ => ?_)
  refine (local_onFile own local_inspectChdu).bind (fun type => Local.check ?_)
  refine (local_here (local_hdu_refresh doc own)).bind (fun _ => ?_)
  refine (local_here (local_readOwn doc own _)).bind (fun ncols => ?_)
  exact (local_setColumns own (fun _ => [])).bind (fun _ => local_pushColumns own _ _ _)

theorem local_place (doc : Documented api) (own : mine (.table t)) (colnum : Nat) :
    Local (slot f n mine) (Here f n) (Here f n) (Table.place api t colnum) :=
  Local.ite ((local_here (local_readOwn doc own _)).map _) (Local.pure colnum)

theorem local_insert (ci : ColumnInfo) :
    Local (slot f n mine) (Here f n) (Here f n) (ColumnInfo.insert api f ci) := by
  refine local_getMode.bind (fun mode => Local.check ?_)
  exact local_editChdu.bind (fun _ => Local.ite local_editChdu (Local.pure ()))

theorem local_add (doc : Documented api) (own : mine (.table t)) (ci : ColumnInfo) :
    Local (slot f n mine) Anywhere (Here f n) (Table.add api t ci) := by
  refine (local_setAsChdu doc own).bind (fun _ => ?_)
  refine (local_place doc own _).bind (fun colnum => ?_)
  refine (local_onFile own (local_insert _)).bind (fun _ => ?_)
  exact local_here (local_refresh doc own)

theorem local_addNew (doc : Documented api) (own : mine (.table t)) (ttype : String)
    (type : ColumnType.ID) (tunit : String) (extent : Extent) (colnum : Nat) :
    Local (slot f n mine) Anywhere (Here f n)
      (Table.addNew api t ttype type tunit extent colnum) := by
  refine (local_setAsChdu doc own).bind (fun _ => ?_)
  refine (local_place doc own _).bind (fun colnum => ?_)
  refine (local_ofExcept _).bind (fun ci => ?_)
  refine (local_onFile own (local_insert _)).bind (fun _ => ?_)
  exact local_here (local_refresh doc own)

theorem local_rewriteTdim (doc : Documented api) (own : mine (.table t)) (colnum : Nat)
    (extent : Extent) :
    Local (slot f n mine) (Here f n) (Here f n) (Table.rewriteTdim api t colnum extent) := by
  apply Local.ite
  · refine (local_hasKeyword own _).bind (fun found => Local.ite ?_ (Local.pure ()))
    exact local_here (local_editOwn doc own _)
  · refine (local_ofExcept _).bind (fun text => ?_)
    refine (local_hasKeyword own _).bind (fun found => Local.ite ?_ ?_)
    · refine (local_here (local_getKeywordString doc own _ _)).bind (fun kw => ?_)
      exact local_here (local_editOwn doc own _)
    · exact local_here (local_editOwn doc own _)

theorem local_resize (doc : Documented api) (own : mine (.table t)) (colnum : Nat)
    (extent : Extent) :
    Local (slot f n mine) Anywhere (Here f n) (Table.resize api t colnum extent) := by
  refine (local_setAsChdu doc own).bind (fun _ => ?_)
  refine (local_colinfo own _).bind (fun info => Local.ite (Local.pure ()) ?_)
  refine (local_onFile own local_editChdu).bind (fun _ => ?_)
  refine (local_rewriteTdim doc own _ _).bind (fun _ => ?_)
  exact local_here (local_refresh doc own)

theorem local_deleteColumn (doc : Documented api) (own : mine (.table t)) (colnum : Nat) :
    Local (slot f n mine) Anywhere (Here f n) (Table.deleteColumn api t colnum) := by
  refine (local_setAsChdu doc own).bind (fun _ => ?_)
  refine (local_onFile own local_editChdu).bind (fun _ => ?_)
  exact local_here (local_refresh doc own)

theorem local_deleteColumnByName (doc : Documented api) (own : mine (.table t)) (name : String) :
    Local (slot f n mine) Anywhere (Here f n) (Table.deleteColumnByName api t name) := by
  refine (local_setAsChdu doc own).bind (fun _ => ?_)
  refine (local_here (local_colinfoByName doc own _)).bind (fun ci => ?_)
  exact local_onFile own local_editChdu

end Slot

end MisFITS
