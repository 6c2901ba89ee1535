import MisFITS.World

/-! Header-data units, after `hdu.cc`. The methods work on the object they are
called on, which may be the base of a table, and start by making its header-data
unit the current one of the file. -/
namespace MisFITS
open Program

structure Keyword (T : Type) where
  keyname : String
  value : T
  comment : String := ""
  defined : Bool := true
  deriving DecidableEq, Repr

namespace World

def onto (w : World) (o : Obj) : World := w.setChdu (w.base o).file (w.base o).hduNum

def put (w : World) (o : Obj) (h : HduData) : World :=
  (w.onto o).putUnit (w.base o).file (w.base o).hduNum h

variable {w : World} {o p : Obj} {h h' : HduData}

@[simp] theorem base_onto : (w.onto o).base p = w.base p := base_setChdu
@[simp] theorem tables_onto : (w.onto o).tables = w.tables := rfl
@[simp] theorem base_put : (w.put o h).base p = w.base p := by simp [put]
@[simp] theorem tables_put : (w.put o h).tables = w.tables := rfl

@[simp] theorem unitOf_onto : (w.onto o).unitOf p = w.unitOf p := by
  simp [unitOf, onto]

@[simp] theorem unitOf_put : (w.put o h).unitOf o = h := by
  simp [unitOf, put]

@[simp] theorem current_onto : (w.onto o).current (w.base o).file = w.unitOf o := current_setChdu

@[simp] theorem onto_onto : (w.onto o).onto o = w.onto o := by
  simp [onto]

@[simp] theorem put_onto : (w.onto o).put o h = w.put o h := by
  unfold put
  rw [onto_onto, base_onto]

@[simp] theorem onto_put : (w.put o h).onto o = w.put o h := by
  have here : ((w.put o h).files (w.base o).file).chdu = (w.base o).hduNum := by simp [put, onto]
  unfold onto
  rw [base_put]
  exact setChdu_self here

@[simp] theorem put_put : (w.put o h).put o h' = w.put o h' := by
  simp [put, onto, putUnit, setFile, setChdu, base]

@[simp] theorem attached_onto : (w.onto o).Attached p ↔ w.Attached p := by
  simp [Attached, onto]

def Current (w : World) (o : Obj) : Prop := (w.files (w.base o).file).chdu = (w.base o).hduNum

theorem current_eq (here : w.Current o) : w.current (w.base o).file = w.unitOf o := by
  unfold current unitOf
  rw [here]

theorem onto_of_current (here : w.Current o) : w.onto o = w := setChdu_self here

@[simp] theorem current_of_onto : (w.onto o).Current o := by
  simp [Current, onto]

theorem current_of_put : (w.put o h).Current o := by
  rw [← onto_put]
  exact current_of_onto

theorem put_unitOf : w.put o (w.unitOf o) = w.onto o := by
  have unit : w.unitOf o = ((w.onto o).files (w.base o).file).units (w.base o).hduNum := by
    rw [← unitOf_onto (o := o), unitOf, base_onto]
  rw [put, unit, putUnit_self]

theorem attached_put : (w.put o h).Attached p ↔ w.Attached p := by
  unfold Attached put
  rw [base_putUnit, numHdus_putUnit]
  exact attached_onto

theorem moved_onto : w.Moved (w.onto o) := moved_setChdu

def rename (w : World) (o : Obj) (extname : String) (extver : Int) : World :=
  w.setBase o { w.base o with extname, extver }

section rename

variable {extname : String} {extver : Int}

@[simp] theorem files_rename : (w.rename o extname extver).files = w.files := files_setBase

theorem base_rename : (w.rename o extname extver).base p =
    if p = o then { w.base o with extname, extver } else w.base p := by
  cases o <;> cases p <;> simp only [rename, setBase, setTable, base, Function.update] <;> split <;>
    simp_all

@[simp] theorem file_rename : ((w.rename o extname extver).base p).file = (w.base p).file := by
  rw [base_rename]
  split
  · rename_i same
    rw [same]
  · rfl

@[simp] theorem hduNum_rename :
    ((w.rename o extname extver).base p).hduNum = (w.base p).hduNum := by
  rw [base_rename]
  split
  · rename_i same
    rw [same]
  · rfl

@[simp] theorem columns_rename {t : Nat} :
    ((w.rename o extname extver).tables t).columns = (w.tables t).columns := by
  cases o with
  | hdu i => rfl
  | table s =>
    by_cases same : t = s
    · simp [rename, setBase, setTable, same]
    · simp [rename, setBase, setTable, same]

@[simp] theorem unitOf_rename : (w.rename o extname extver).unitOf p = w.unitOf p := by
  simp [unitOf]

@[simp] theorem attached_rename : (w.rename o extname extver).Attached p ↔ w.Attached p := by
  simp [Attached]

theorem current_rename : (w.rename o extname extver).Current p ↔ w.Current p := by
  simp [Current]

end rename

theorem unitOf_put_ne (ne : (w.base p).file = (w.base o).file → (w.base p).hduNum ≠ (w.base o).hduNum) :
    (w.put o h).unitOf p = w.unitOf p := by
  unfold unitOf put
  rw [base_putUnit, base_onto, unit_putUnit_ne ne]
  simp [onto]

end World

namespace HDU

variable (api : Cfitsio) (this : Obj)

def setAsChdu : M Unit := fun w => File.moveTo api (w.base this).file (w.base this).hduNum w

def onFile {α : Type} (call : Nat → M α) : M α := fun w => call (w.base this).file w

def readOwn {α : Type} (r : Read α) : M α := do
  setAsChdu api this
  onFile this (readChdu · r)

def inspectOwn {α : Type} (r : HduData → α) : M α := do
  setAsChdu api this
  onFile this (inspectChdu · r)

def editOwn (e : Edit) : M Unit := do
  setAsChdu api this
  onFile this (editChdu · e)

def getHdrpos : M (Int × Int) := readOwn api this api.getHdrpos

/-- The one method that does not start with `set_as_chdu`. -/
def hasKeyword (keyname : String) : M Bool := do
  match ← onFile this (inspectChdu · (api.readCard keyname)) with
  | none => return true
  | some .valueUndefined => return true
  | some .keyNoExist => return false
  | some status => throw (.cfitsio status)

def makeKeyword {T : Type} (keyname : String) (value defaultValue : T) (comment : String)
    (status : Option Status) : Keyword T :=
  let defined := status.isNone
  { keyname, comment, defined, value := if defined then value else defaultValue }

/-- The statuses that `RETURN_KEYWORD` does not throw. -/
def tolerated (status : Option Status) : Bool :=
  status = none || status = some .valueUndefined || status = some .keyNoExist

def returnKeyword {T : Type} (keyname : String) (read : KeyRead T) (defaultValue : T) :
    Except Exception (Keyword T) :=
  match read.status with
  | none => .ok (makeKeyword keyname read.value defaultValue read.comment none)
  | some status =>
    if tolerated (some status) then
      .ok (makeKeyword keyname read.value defaultValue read.comment (some status))
    else .error (.cfitsio status)

/-- `value.assign` from a zeroed buffer that was read into. -/
def assign (value : String) (length : Nat) : String :=
  String.ofList ((value.toList ++ List.replicate length '\x00').take length)

def keywordString (keyname defaultValue : String) (h : HduData) :
    Except Exception (Keyword String) :=
  match api.getKeyStrlen keyname h with
  | (some status, _) => returnKeyword keyname ⟨some status, "", ""⟩ defaultValue
  | (none, length) =>
    let read := api.readStringKey keyname 1 length h
    returnKeyword keyname { read with value := assign read.value length } defaultValue

def getKeywordString (keyname defaultValue : String) : M (Keyword String) := do
  ofExcept (← inspectOwn api this (keywordString api keyname defaultValue))

def getKeyword (T : StorageType) (keyname : String) (defaultValue : T.Native) :
    M (Keyword T.Native) := do
  let read ← inspectOwn api this (api.readKey T keyname defaultValue)
  ofExcept (returnKeyword keyname read defaultValue)

def setKeywordString (kw : Keyword String) : M Unit :=
  editOwn api this
    (if kw.value.length > api.flenValue then do
      api.writeKeyLongwarn
      api.updateKeyLongstr kw.keyname kw.value kw.comment
    else api.updateKeyStr kw.keyname kw.value kw.comment)

def setKeyword (T : StorageType) (kw : Keyword T.Native) : M Unit :=
  editOwn api this (api.updateKey T kw.keyname kw.value kw.comment)

def deleteKeyword (keyname : String) : M Unit := editOwn api this (api.deleteKey keyname)

def addHistory (history : String) : M Unit := editOwn api this (api.writeHistory history)

def addComment (comment : String) : M Unit := editOwn api this (api.writeComment comment)

def setExtname (extname : String) : M Unit :=
  modify fun w => w.setBase this { w.base this with extname }

def setExtver (extver : Int) : M Unit :=
  modify fun w => w.setBase this { w.base this with extver }

def refresh : M Unit := do
  setAsChdu api this
  setExtname this (← getKeywordString api this "EXTNAME" "").value
  setExtver this (← getKeyword api this .int "EXTVER" (1 : Int)).value

variable {api this} {α β : Type} {w w' : World}

theorem setAsChdu_ok (doc : Documented api) {u : Unit} (run : setAsChdu api this w = .ok u w') :
    w' = w.onto this := File.moveTo_ok doc run

/-- A method that has returned has gone on from where its object's unit is the current one. -/
theorem setAsChdu_bind_ok (doc : Documented api) {g : Unit → M β} {b : β}
    (run : (setAsChdu api this >>= g) w = .ok b w') : g () (w.onto this) = .ok b w' := by
  obtain ⟨_, _, positioned, run⟩ := bind_ok.mp run
  cases setAsChdu_ok doc positioned
  exact run

theorem setAsChdu_of_attached (doc : Documented api) (own : w.Attached this) :
    setAsChdu api this w = .ok () (w.onto this) := File.moveTo_of_exists doc own.1 own.2

theorem setAsChdu_of_current (here : w.Current this) : setAsChdu api this w = .ok () w :=
  (File.moveTo_eq w).trans (if_pos here)

theorem readOwn_ok (doc : Documented api) {r : Read α} {a : α}
    (run : readOwn api this r w = .ok a w') : r (w.unitOf this) = .ok a ∧ w' = w.onto this := by
  have reads := setAsChdu_bind_ok doc run
  unfold onFile at reads
  rw [readChdu_ok, World.base_onto, World.current_onto] at reads
  exact reads

theorem readOwn_of_attached (doc : Documented api) (own : w.Attached this) {r : Read α} {a : α}
    (reads : r (w.unitOf this) = .ok a) : readOwn api this r w = .ok a (w.onto this) := by
  unfold readOwn
  rw [bind_of_ok (setAsChdu_of_attached doc own)]
  unfold onFile
  rw [World.base_onto]
  exact readChdu_of_ok (by rw [World.current_onto]; exact reads)

theorem readOwn_of_current (here : w.Current this) {r : Read α} {a : α}
    (reads : r (w.unitOf this) = .ok a) : readOwn api this r w = .ok a w := by
  unfold readOwn
  rw [bind_of_ok (setAsChdu_of_current here)]
  exact readChdu_of_ok (by rw [World.current_eq here]; exact reads)

theorem moved_setAsChdu : Keeps World.Moved (setAsChdu api this) :=
  fun w => File.moved_moveTo (w.base this).file (w.base this).hduNum w

theorem moved_readOwn (r : Read α) : Keeps World.Moved (readOwn api this r) :=
  Keeps.bind (fun _ _ _ first later => first.trans later) moved_setAsChdu
    (fun _ w => keeps_readChdu World.Moved.refl r w)

theorem inspectOwn_ok (doc : Documented api) {r : HduData → α} {a : α}
    (run : inspectOwn api this r w = .ok a w') : a = r (w.unitOf this) ∧ w' = w.onto this := by
  have reads := setAsChdu_bind_ok doc run
  unfold onFile at reads
  rw [inspectChdu_ok, World.base_onto, World.current_onto] at reads
  exact reads

theorem inspectOwn_of_attached (doc : Documented api) (own : w.Attached this) (r : HduData → α) :
    inspectOwn api this r w = .ok (r (w.unitOf this)) (w.onto this) := by
  unfold inspectOwn
  rw [bind_of_ok (setAsChdu_of_attached doc own)]
  unfold onFile
  rw [World.base_onto]
  exact inspectChdu_ok.mpr ⟨by rw [World.current_onto], rfl⟩

theorem getKeywordString_ok (doc : Documented api) {keyname defaultValue : String}
    {kw : Keyword String} (run : getKeywordString api this keyname defaultValue w = .ok kw w') :
    w' = w.onto this := by
  obtain ⟨_, _, reads, run⟩ := bind_ok.mp run
  cases (inspectOwn_ok doc reads).2
  exact (ofExcept_ok.mp run).2

theorem getKeyword_ok (doc : Documented api) {T : StorageType} {keyname : String}
    {defaultValue : T.Native} {kw : Keyword T.Native}
    (run : getKeyword api this T keyname defaultValue w = .ok kw w') : w' = w.onto this := by
  obtain ⟨_, _, reads, run⟩ := bind_ok.mp run
  cases (inspectOwn_ok doc reads).2
  exact (ofExcept_ok.mp run).2

theorem refresh_ok (doc : Documented api) {u : Unit} (run : refresh api this w = .ok u w') :
    ∃ extname extver, w' = (w.onto this).rename this extname extver := by
  replace run := setAsChdu_bind_ok doc run
  obtain ⟨kw, _, reads, run⟩ := bind_ok.mp run
  cases getKeywordString_ok doc reads
  obtain ⟨_, _, sets, run⟩ := bind_ok.mp run
  cases modify_ok.mp sets
  obtain ⟨kv, _, reads, run⟩ := bind_ok.mp run
  cases getKeyword_ok doc reads
  cases modify_ok.mp run
  refine ⟨kw.value, kv.value, ?_⟩
  have here : ((w.onto this).setBase this
      { (w.onto this).base this with extname := kw.value }).Current this := by
    simp [World.Current, World.onto]
  rw [World.onto_onto, World.onto_of_current here, World.base_setBase, World.setBase_setBase]
  rfl

end HDU
end MisFITS
