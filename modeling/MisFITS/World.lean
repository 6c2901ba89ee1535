import Mathlib.Logic.Function.Basic
import MisFITS.Program
import MisFITS.Extent
import MisFITS.Cfitsio

/-! The objects of a program that uses misFITS, and how its methods reach
CFITSIO. `File`, `HDU` and `Table` objects live in a world, since several of
them share one `fitsfile` and its current header-data unit. -/
namespace MisFITS
open ColumnType Program

inductive OpenMode where
  | readOnly | readWrite
  deriving DecidableEq, Repr

/-- A `misFITS::File` and the `fitsfile` it owns, with its header-data units by
number and the number of the current one. -/
structure File where
  mode : OpenMode
  numHdus : Int
  chdu : Int
  units : Int → HduData

structure HDU where
  file : Nat
  hduNum : Int
  extname : String
  extver : Int

structure ColumnInfo where
  ttype : String
  tunit : String
  columnType : Spec
  offset : Int
  nbytes : Int
  extent : Extent
  colnum : Nat
  deriving DecidableEq, Repr

structure Table extends HDU where
  columns : List ColumnInfo

structure World where
  files : Nat → File
  hdus : Nat → HDU
  tables : Nat → Table

/-- A pointer to an `HDU`, which may be the base of a `Table`. -/
inductive Obj where
  | hdu (i : Nat)
  | table (t : Nat)
  deriving DecidableEq, Repr

abbrev M := EStateM Exception World

namespace World

def base (w : World) : Obj → HDU
  | .hdu i => w.hdus i
  | .table t => (w.tables t).toHDU

def setFile (w : World) (f : Nat) (F : File) : World :=
  { w with files := Function.update w.files f F }

def setTable (w : World) (t : Nat) (T : Table) : World :=
  { w with tables := Function.update w.tables t T }

def setBase (w : World) (o : Obj) (H : HDU) : World :=
  match o with
  | .hdu i => { w with hdus := Function.update w.hdus i H }
  | .table t => w.setTable t { w.tables t with toHDU := H }

def setChdu (w : World) (f : Nat) (n : Int) : World :=
  w.setFile f { w.files f with chdu := n }

def putUnit (w : World) (f : Nat) (n : Int) (h : HduData) : World :=
  w.setFile f { w.files f with units := Function.update (w.files f).units n h }

def current (w : World) (f : Nat) : HduData := (w.files f).units (w.files f).chdu

def unitOf (w : World) (o : Obj) : HduData :=
  (w.files (w.base o).file).units (w.base o).hduNum

def Attached (w : World) (o : Obj) : Prop :=
  1 ≤ (w.base o).hduNum ∧ (w.base o).hduNum ≤ (w.files (w.base o).file).numHdus

variable {w : World} {f g t s : Nat} {n m : Int}

@[simp] theorem tables_setChdu : (w.setChdu f n).tables = w.tables := rfl
@[simp] theorem hdus_setChdu : (w.setChdu f n).hdus = w.hdus := rfl
@[simp] theorem tables_putUnit {h} : (w.putUnit f n h).tables = w.tables := rfl
@[simp] theorem hdus_putUnit {h} : (w.putUnit f n h).hdus = w.hdus := rfl
@[simp] theorem files_setTable {T} : (w.setTable t T).files = w.files := rfl
@[simp] theorem hdus_setTable {T} : (w.setTable t T).hdus = w.hdus := rfl

@[simp] theorem files_setBase {o H} : (w.setBase o H).files = w.files := by cases o <;> rfl

@[simp] theorem base_setBase {o H} : (w.setBase o H).base o = H := by
  cases o <;> simp [setBase, base, setTable]

@[simp] theorem setBase_setBase {o H H'} : (w.setBase o H).setBase o H' = w.setBase o H' := by
  cases o <;> simp [setBase, setTable]

@[simp] theorem table_setTable {T} : (w.setTable t T).tables t = T := by simp [setTable]

@[simp] theorem table_setTable_ne {T} (ne : s ≠ t) : (w.setTable t T).tables s = w.tables s := by
  simp [setTable, ne]

@[simp] theorem base_setChdu {o} : (w.setChdu f n).base o = w.base o := by cases o <;> rfl
@[simp] theorem base_putUnit {o h} : (w.putUnit f n h).base o = w.base o := by cases o <;> rfl

@[simp] theorem units_setChdu : ((w.setChdu f n).files g).units = (w.files g).units := by
  by_cases h : g = f <;> simp [setChdu, setFile, Function.update, h]

@[simp] theorem numHdus_setChdu : ((w.setChdu f n).files g).numHdus = (w.files g).numHdus := by
  by_cases h : g = f <;> simp [setChdu, setFile, Function.update, h]

@[simp] theorem mode_setChdu : ((w.setChdu f n).files g).mode = (w.files g).mode := by
  by_cases h : g = f <;> simp [setChdu, setFile, Function.update, h]

@[simp] theorem chdu_setChdu : ((w.setChdu f n).files f).chdu = n := by simp [setChdu, setFile]

@[simp] theorem chdu_setChdu_ne (ne : g ≠ f) : ((w.setChdu f n).files g).chdu = (w.files g).chdu := by
  simp [setChdu, setFile, ne]

@[simp] theorem files_setChdu_ne (ne : g ≠ f) : (w.setChdu f n).files g = w.files g := by
  simp [setChdu, setFile, ne]

@[simp] theorem files_putUnit_ne {h} (ne : g ≠ f) : (w.putUnit f n h).files g = w.files g := by
  simp [putUnit, setFile, ne]

@[simp] theorem chdu_putUnit {h} : ((w.putUnit f n h).files g).chdu = (w.files g).chdu := by
  by_cases e : g = f <;> simp [putUnit, setFile, Function.update, e]

@[simp] theorem numHdus_putUnit {h} : ((w.putUnit f n h).files g).numHdus = (w.files g).numHdus := by
  by_cases e : g = f <;> simp [putUnit, setFile, Function.update, e]

@[simp] theorem mode_putUnit {h} : ((w.putUnit f n h).files g).mode = (w.files g).mode := by
  by_cases e : g = f <;> simp [putUnit, setFile, Function.update, e]

@[simp] theorem unit_putUnit {h} : ((w.putUnit f n h).files f).units n = h := by
  simp [putUnit, setFile]

theorem unit_putUnit_ne {h} (ne : g = f → m ≠ n) :
    ((w.putUnit f n h).files g).units m = (w.files g).units m := by
  by_cases e : g = f
  · subst e
    simp [putUnit, setFile, ne rfl]
  · simp [putUnit, setFile, e]

@[simp] theorem current_setChdu : (w.setChdu f n).current f = (w.files f).units n := by
  simp [current]

/-- The two worlds differ in the cursors of the files at most. -/
structure Moved (w w' : World) : Prop where
  hdus : w'.hdus = w.hdus
  tables : w'.tables = w.tables
  units : ∀ f, (w'.files f).units = (w.files f).units
  numHdus : ∀ f, (w'.files f).numHdus = (w.files f).numHdus
  mode : ∀ f, (w'.files f).mode = (w.files f).mode

theorem Moved.refl (w : World) : w.Moved w := ⟨rfl, rfl, fun _ => rfl, fun _ => rfl, fun _ => rfl⟩

theorem Moved.trans {u v : World} (h : w.Moved u) (h' : u.Moved v) : w.Moved v where
  hdus := h'.hdus.trans h.hdus
  tables := h'.tables.trans h.tables
  units f := (h'.units f).trans (h.units f)
  numHdus f := (h'.numHdus f).trans (h.numHdus f)
  mode f := (h'.mode f).trans (h.mode f)

theorem moved_setChdu : w.Moved (w.setChdu f n) where
  hdus := rfl
  tables := rfl
  units _ := units_setChdu
  numHdus _ := numHdus_setChdu
  mode _ := mode_setChdu

theorem Moved.base {w' : World} (h : w.Moved w') (o : Obj) : w'.base o = w.base o := by
  cases o with
  | hdu i => exact congrFun h.hdus i
  | table t => exact congrArg Table.toHDU (congrFun h.tables t)

theorem Moved.unitOf {w' : World} (h : w.Moved w') (o : Obj) : w'.unitOf o = w.unitOf o := by
  unfold World.unitOf
  rw [h.base, h.units]

theorem setFile_self : w.setFile f (w.files f) = w := by simp [setFile]

theorem putUnit_self : w.putUnit f n ((w.files f).units n) = w := by simp [putUnit, setFile]

theorem setChdu_self (here : (w.files f).chdu = n) : w.setChdu f n = w := by
  subst here
  exact setFile_self

@[simp] theorem setChdu_setChdu : (w.setChdu f n).setChdu f m = w.setChdu f m := by
  simp [setChdu, setFile]

end World

def readChdu {α : Type} (f : Nat) (r : Read α) : M α := fun w =>
  match r (w.current f) with
  | .ok a => .ok a w
  | .error status => .error (.cfitsio status) w

def inspectChdu {α : Type} (f : Nat) (r : HduData → α) : M α := fun w => .ok (r (w.current f)) w

def editChdu (f : Nat) (e : Edit) : M Unit := fun w =>
  match e (w.current f) with
  | .ok _ h => .ok () (w.putUnit f (w.files f).chdu h)
  | .error status h => .error (.cfitsio status) (w.putUnit f (w.files f).chdu h)

def moveChdu (f : Nat) (move : Int → EStateM Status Int Unit) : M Unit := fun w =>
  match move (w.files f).numHdus (w.files f).chdu with
  | .ok _ n => .ok () (w.setChdu f n)
  | .error status n => .error (.cfitsio status) (w.setChdu f n)

def ofExcept {σ α : Type} : Except Exception α → EStateM Exception σ α
  | .ok a => pure a
  | .error e => throw e

/-- `vector::at( k - 1 )`; the index is unsigned, so that of zero is out of range too. -/
def atNumber {α : Type} (xs : List α) (k : Nat) : Except Exception α :=
  if k = 0 then .error .outOfRange
  else match xs[k - 1]? with
    | some a => .ok a
    | none => .error .outOfRange

section Calls

variable {α : Type} {f : Nat} {w w' : World}

theorem readChdu_ok {r : Read α} {a : α} :
    readChdu f r w = .ok a w' ↔ r (w.current f) = .ok a ∧ w' = w := by
  unfold readChdu
  cases r (w.current f) <;> simp [eq_comm]

theorem readChdu_error {r : Read α} {e : Exception} :
    readChdu f r w = .error e w' ↔
      ∃ status, r (w.current f) = .error status ∧ e = .cfitsio status ∧ w' = w := by
  unfold readChdu
  cases r (w.current f) <;> simp [eq_comm]

theorem readChdu_of_ok {r : Read α} {a : α} (h : r (w.current f) = .ok a) :
    readChdu f r w = .ok a w := readChdu_ok.mpr ⟨h, rfl⟩

theorem inspectChdu_ok {r : HduData → α} {a : α} :
    inspectChdu f r w = .ok a w' ↔ a = r (w.current f) ∧ w' = w := by
  unfold inspectChdu
  simp [eq_comm]

theorem editChdu_ok {e : Edit} {u : Unit} :
    editChdu f e w = .ok u w' ↔
      ∃ h, e (w.current f) = .ok () h ∧ w' = w.putUnit f (w.files f).chdu h := by
  unfold editChdu
  cases e (w.current f) <;> simp [eq_comm]

theorem editChdu_error {e : Edit} {thrown : Exception} (run : editChdu f e w = .error thrown w') :
    ∃ status, thrown = .cfitsio status := by
  unfold editChdu at run
  split at run
  · cases run
  · cases run
    exact ⟨_, rfl⟩

theorem ofExcept_ok {σ : Type} {s s' : σ} {r : Except Exception α} {a : α} :
    ofExcept r s = .ok a s' ↔ r = .ok a ∧ s' = s := by
  cases r <;> simp [ofExcept, eq_comm]

theorem ofExcept_bind_ok {σ α β : Type} {x : Except Exception α} {g : α → EStateM Exception σ β}
    {s t : σ} {b : β} : (ofExcept x >>= g) s = .ok b t ↔ ∃ a, x = .ok a ∧ g a s = .ok b t := by
  rw [bind_ok]
  constructor
  · rintro ⟨a, _, returns, run⟩
    obtain ⟨found, rfl⟩ := ofExcept_ok.mp returns
    exact ⟨a, found, run⟩
  · rintro ⟨a, found, run⟩
    exact ⟨a, s, ofExcept_ok.mpr ⟨found, rfl⟩, run⟩

theorem ofExcept_error {σ : Type} {s s' : σ} {r : Except Exception α} {e : Exception} :
    ofExcept r s = .error e s' ↔ r = .error e ∧ s' = s := by
  cases r <;> simp [ofExcept, eq_comm]

theorem ofExcept_bind {σ β : Type} (x : Except Exception α) (g : α → Except Exception β) :
    (ofExcept (x >>= g) : EStateM Exception σ β) = ofExcept x >>= fun a => ofExcept (g a) := by
  cases x <;> rfl

theorem ofExcept_map {σ β : Type} (x : Except Exception α) (g : α → β) :
    (ofExcept (x.map g) : EStateM Exception σ β) = ofExcept x >>= fun a => pure (g a) := by
  cases x <;> rfl

theorem ofExcept_pure {σ : Type} (a : α) :
    (ofExcept (pure a) : EStateM Exception σ α) = pure a := rfl

theorem atNumber_ok {xs : List α} {k : Nat} {a : α} :
    atNumber xs k = .ok a ↔ 1 ≤ k ∧ xs[k - 1]? = some a := by
  unfold atNumber
  by_cases zero : k = 0
  · simp [zero]
  · have one : 1 ≤ k := Nat.one_le_iff_ne_zero.mpr zero
    simp only [zero, if_false, one, true_and]
    cases xs[k - 1]? <;> simp

theorem keeps_readChdu {R : World → World → Prop} (refl : ∀ w, R w w) (r : Read α) :
    Keeps R (readChdu f r) := by
  intro w
  unfold readChdu
  cases r (w.current f) <;> exact refl w

theorem keeps_ofExcept {R : World → World → Prop} (refl : ∀ w, R w w) (r : Except Exception α) :
    Keeps R (ofExcept r) := by
  cases r with
  | ok a => exact Keeps.pure refl a
  | error e => exact Keeps.throw refl e

theorem moved_moveChdu (f : Nat) (move : Int → EStateM Status Int Unit) :
    Keeps World.Moved (moveChdu f move) := by
  intro w
  unfold moveChdu
  cases move (w.files f).numHdus (w.files f).chdu <;> exact World.moved_setChdu

end Calls

namespace File

variable (api : Cfitsio)

def getHduNum (f : Nat) : M Int := fun w => .ok (w.files f).chdu w

def getHduType (f : Nat) : M HduType := inspectChdu f (fun h => h.type)

def getMode (f : Nat) : M OpenMode := fun w => .ok (w.files f).mode w

def moveTo (f : Nat) (req : Int) : M Unit := do
  if (← getHduNum f) = req then
    return
  moveChdu f (fun num => api.movabsHdu num req)

def moveBy (f : Nat) (nmove : Int) : M Unit :=
  moveChdu f (fun num => api.movrelHdu num nmove)

variable {api} {f : Nat} {n : Int} {w w' : World}

theorem moveTo_eq (w : World) : moveTo api f n w =
    if (w.files f).chdu = n then .ok () w
    else moveChdu f (fun num => api.movabsHdu num n) w := by
  unfold moveTo
  rw [bind_of_ok (show getHduNum f w = .ok (w.files f).chdu w from rfl)]
  split <;> rfl

theorem moved_moveTo (f : Nat) (n : Int) : Keeps World.Moved (moveTo api f n) := by
  intro w
  rw [moveTo_eq]
  split
  · exact World.Moved.refl w
  · exact moved_moveChdu f _ w

theorem moveTo_ok (doc : Documented api) {u : Unit} (run : moveTo api f n w = .ok u w') :
    w' = w.setChdu f n := by
  rw [moveTo_eq] at run
  split at run
  · rename_i here
    cases run
    exact (World.setChdu_self here).symm
  · unfold moveChdu at run
    split at run
    · rename_i m moved
      cases run
      rw [doc.movabs_to moved]
    · cases run

theorem moveTo_of_exists (doc : Documented api) (low : 1 ≤ n) (high : n ≤ (w.files f).numHdus) :
    moveTo api f n w = .ok () (w.setChdu f n) := by
  rw [moveTo_eq]
  split
  · rename_i here
    rw [World.setChdu_self here]
  · simp only [moveChdu, doc.movabs low high]

end File

end MisFITS
