import MisFITS.Hdu
import MisFITS.ColumnInfo

/-! Tables, after `table.cc`: the queries, `refresh`, and the operations that
change the columns of one table. -/
namespace MisFITS
open ColumnType Program

namespace World

def setColumns (w : World) (t : Nat) (columns : List ColumnInfo) : World :=
  w.setTable t { w.tables t with columns }

variable {w : World} {t s : Nat} {o : Obj} {columns more : List ColumnInfo}

@[simp] theorem files_setColumns : (w.setColumns t columns).files = w.files := rfl

@[simp] theorem columns_setColumns : ((w.setColumns t columns).tables t).columns = columns := by
  simp [setColumns]

@[simp] theorem setColumns_setColumns :
    (w.setColumns t columns).setColumns t more = w.setColumns t more := by
  simp [setColumns, setTable]

@[simp] theorem base_setColumns : (w.setColumns t columns).base o = w.base o := by
  cases o with
  | hdu i => rfl
  | table s =>
    by_cases same : s = t
    · simp [base, setColumns, same]
    · simp [base, setColumns, same]

@[simp] theorem unitOf_setColumns : (w.setColumns t columns).unitOf o = w.unitOf o := by
  simp [unitOf]

theorem current_setColumns : (w.setColumns t columns).Current o ↔ w.Current o := by
  simp [Current]

theorem setColumns_self : w.setColumns t (w.tables t).columns = w := by
  simp [setColumns, setTable]

end World

namespace Table
open HDU

variable (api : Cfitsio) (t : Nat)

def numColumns : M Nat := readOwn api (.table t) api.getNumCols

def numRows : M Int := readOwn api (.table t) api.getNumRows

def hasColumn (templt : String) : M Bool :=
  readOwn api (.table t) (fun h => .ok (api.getColnum h.names templt).isOk)

/-- `colinfo( colnum )` looks at the cache alone. -/
def colinfo (colnum : Nat) : M ColumnInfo := fun w =>
  ofExcept (atNumber (w.tables t).columns colnum) w

/-- `colinfo( colname )` asks the header for the number. -/
def colinfoByName (colname : String) : M ColumnInfo := do
  let colnum ← readOwn api (.table t) (fun h => api.getColnum h.names colname)
  colinfo t colnum

def pushColumns : Nat → Nat → Int → M Unit
  | 0, _, _ => return
  | todo + 1, colnum, offset => do
    let ci ← onFile (.table t) (ColumnInfo.init api · colnum offset)
    modify fun w => w.setColumns t ((w.tables t).columns ++ [ci])
    pushColumns todo (colnum + 1) (offset + ci.nbytes)

def refresh : M Unit := do
  setAsChdu api (.table t)
  let type ← onFile (.table t) File.getHduType
  if type ≠ .binaryTable ∧ type ≠ .asciiTable then
    throw (.assert "Expected CHDU to be a table, but it's not")
  HDU.refresh api (.table t)
  let ncols ← numColumns api t
  modify fun w => w.setColumns t []
  pushColumns api t ncols 1 1

/-- The number that a new column gets: zero stands for the end of the table. -/
def place (colnum : Nat) : M Nat := do
  if colnum = 0 then
    return (← numColumns api t) + 1
  return colnum

def add (ci : ColumnInfo) : M Unit := do
  setAsChdu api (.table t)
  let colnum ← place api t ci.colnum
  onFile (.table t) (ColumnInfo.insert api · { ci with colnum })
  refresh api t

def addNew (ttype : String) (type : ID) (tunit : String) (extent : Extent) (colnum : Nat) :
    M Unit := do
  setAsChdu api (.table t)
  let colnum ← place api t colnum
  let ci ← ofExcept (ColumnInfo.make api ttype type tunit extent colnum)
  onFile (.table t) (ColumnInfo.insert api · ci)
  refresh api t

/-- CFITSIO fixes up everything but TDIM when a column is resized. -/
def rewriteTdim (colnum : Nat) (extent : Extent) : M Unit := do
  let tdimKey := "TDIM" ++ toString colnum
  if extent.squeeze.naxes = 1 then
    if ← hasKeyword api (.table t) tdimKey then
      deleteKeyword api (.table t) tdimKey
  else do
    let text ← ofExcept extent.toText
    let comment ←
      if ← hasKeyword api (.table t) tdimKey then do
        pure (← getKeywordString api (.table t) tdimKey "").comment
      else pure ""
    setKeywordString api (.table t) { keyname := tdimKey, value := text, comment }

def resize (colnum : Nat) (extent : Extent) : M Unit := do
  setAsChdu api (.table t)
  let info ← colinfo t colnum
  if Extent.equal info.extent extent then
    return
  onFile (.table t) (editChdu · (api.modifyVectorLen colnum extent.nelem))
  rewriteTdim api t colnum extent
  refresh api t

def resizeByName (name : String) (extent : Extent) : M Unit := do
  resize api t (← colinfoByName api t name).colnum extent

def deleteColumn (colnum : Nat) : M Unit := do
  setAsChdu api (.table t)
  onFile (.table t) (editChdu · (api.deleteCol colnum))
  refresh api t

/-- `delete_column( name )`, which does not call `refresh`. -/
def deleteColumnByName (name : String) : M Unit := do
  setAsChdu api (.table t)
  let ci ← colinfoByName api t name
  onFile (.table t) (editChdu · (api.deleteCol ci.colnum))

/-- The constructor on a header-data unit of a file; zero is its current one. -/
def new (file : Nat) (hduNum : Int) : M Unit := do
  let hduNum ← if hduNum = 0 then File.getHduNum file else pure hduNum
  modify fun w => w.setTable t { file, hduNum, extname := "", extver := 0, columns := [] }
  HDU.refresh api (.table t)
  refresh api t

variable {api t} {w w' : World}

theorem numColumns_ok (doc : Documented api) {n : Nat} (run : numColumns api t w = .ok n w') :
    n = (w.unitOf (.table t)).cols.length ∧ w' = w.onto (.table t) := by
  obtain ⟨count, state⟩ := readOwn_ok doc run
  rw [doc.num_cols] at count
  cases count
  exact ⟨rfl, state⟩

theorem numRows_ok (doc : Documented api) {n : Int} (run : numRows api t w = .ok n w') :
    n = (w.unitOf (.table t)).nrows ∧ w' = w.onto (.table t) := by
  obtain ⟨count, state⟩ := readOwn_ok doc run
  rw [doc.num_rows] at count
  cases count
  exact ⟨rfl, state⟩

theorem numRows_of_attached (doc : Documented api) (own : w.Attached (.table t)) :
    numRows api t w = .ok (w.unitOf (.table t)).nrows (w.onto (.table t)) :=
  readOwn_of_attached doc own (doc.num_rows _)

theorem hasColumn_ok (doc : Documented api) {templt : String} {b : Bool}
    (run : hasColumn api t templt w = .ok b w') :
    b = (api.getColnum (w.unitOf (.table t)).names templt).isOk ∧ w' = w.onto (.table t) := by
  obtain ⟨found, state⟩ := readOwn_ok doc run
  cases found
  exact ⟨rfl, state⟩

theorem colinfo_ok {colnum : Nat} {ci : ColumnInfo} :
    colinfo t colnum w = .ok ci w' ↔
      1 ≤ colnum ∧ (w.tables t).columns[colnum - 1]? = some ci ∧ w' = w := by
  unfold colinfo
  rw [ofExcept_ok, atNumber_ok, and_assoc]

theorem colinfoByName_ok (doc : Documented api) {colname : String} {ci : ColumnInfo}
    (run : colinfoByName api t colname w = .ok ci w') :
    ∃ k, api.getColnum (w.unitOf (.table t)).names colname = .ok k ∧ 1 ≤ k ∧
      (w.tables t).columns[k - 1]? = some ci ∧ w' = w.onto (.table t) := by
  obtain ⟨k, _, reads, run⟩ := bind_ok.mp run
  obtain ⟨found, rfl⟩ := readOwn_ok doc reads
  obtain ⟨low, entry, rfl⟩ := colinfo_ok.mp run
  exact ⟨k, found, low, entry, rfl⟩

theorem moved_colinfoByName {colname : String} : Keeps World.Moved (colinfoByName api t colname) :=
  Keeps.bind (fun _ _ _ first later => first.trans later) (moved_readOwn _)
    (fun _ w => keeps_ofExcept World.Moved.refl _ w)

theorem init_onFile (doc : Documented api) {colnum : Nat} (offset : Int) {c : Col}
    (here : w.Current (.table t)) (binary : (w.unitOf (.table t)).type = .binaryTable)
    (column : (w.unitOf (.table t)).column colnum = some c) :
    onFile (.table t) (ColumnInfo.init api · colnum offset) w =
      ofExcept (ColumnInfo.decode c.toColHead colnum offset) w := by
  unfold onFile
  rw [← World.current_eq here] at binary column
  exact ColumnInfo.init_eq doc binary column

/-- The loop appends to the cache what the header says of the columns to go, and
stops with the exception of the first one that cannot be described. -/
theorem pushColumns_eq (doc : Documented api) {todo colnum : Nat} (offset : Int)
    (here : w.Current (.table t)) (low : 1 ≤ colnum)
    (rest : colnum - 1 + todo = (w.unitOf (.table t)).cols.length)
    (binary : (w.unitOf (.table t)).type = .binaryTable) :
    match ColumnInfo.decodeAll ((w.unitOf (.table t)).heads.drop (colnum - 1)) colnum offset with
    | .ok infos => pushColumns api t todo colnum offset w =
        .ok () (w.setColumns t ((w.tables t).columns ++ infos))
    | .error e => ∃ infos, pushColumns api t todo colnum offset w =
        .error e (w.setColumns t ((w.tables t).columns ++ infos)) := by
  induction todo generalizing colnum offset w with
  | zero =>
    have absent : (w.unitOf (.table t)).heads.drop (colnum - 1) = [] :=
      List.drop_eq_nil_of_le (by simp only [HduData.heads, List.length_map]; omega)
    rw [absent]
    simp only [ColumnInfo.decodeAll, List.append_nil, World.setColumns_self]
    rfl
  | succ todo ih =>
    have inside : colnum - 1 < (w.unitOf (.table t)).cols.length := by omega
    obtain ⟨c, entry⟩ : ∃ c, (w.unitOf (.table t)).cols[colnum - 1]? = some c :=
      ⟨_, List.getElem?_eq_getElem inside⟩
    have column : (w.unitOf (.table t)).column colnum = some c :=
      HduData.column_iff.mpr ⟨low, entry⟩
    have first := init_onFile doc offset here binary column
    rw [HduData.heads_drop column, ColumnInfo.decodeAll]
    cases described : ColumnInfo.decode c.toColHead colnum offset with
    | error e =>
      rw [described] at first
      refine ⟨[], ?_⟩
      rw [List.append_nil, World.setColumns_self]
      exact bind_of_error first _
    | ok ci =>
      rw [described] at first
      have step : pushColumns api t (todo + 1) colnum offset w =
          pushColumns api t todo (colnum + 1) (offset + ci.nbytes)
            (w.setColumns t ((w.tables t).columns ++ [ci])) := by
        rw [pushColumns, bind_of_ok first]
        rfl
      have tail := @ih (w.setColumns t ((w.tables t).columns ++ [ci])) (colnum + 1)
        (offset + ci.nbytes) (World.current_setColumns.mpr here) (by omega)
        (by rw [World.unitOf_setColumns]; omega) (by rw [World.unitOf_setColumns]; exact binary)
      rw [Nat.add_sub_cancel, World.unitOf_setColumns] at tail
      rw [step]
      dsimp only
      cases rest : ColumnInfo.decodeAll ((w.unitOf (.table t)).heads.drop colnum) (colnum + 1)
          (offset + ci.nbytes) with
      | error e =>
        rw [rest] at tail
        obtain ⟨infos, run⟩ := tail
        exact ⟨ci :: infos, by simpa [Except.map] using run⟩
      | ok infos =>
        rw [rest] at tail
        simpa [Except.map] using tail

theorem pushColumns_other {todo colnum : Nat} {offset : Int} {u : Unit}
    (here : w.Current (.table t)) (other : (w.unitOf (.table t)).type ≠ .binaryTable)
    (run : pushColumns api t todo colnum offset w = .ok u w') : todo = 0 := by
  cases todo with
  | zero => rfl
  | succ todo =>
    obtain ⟨_, _, first, _⟩ := bind_ok.mp run
    obtain ⟨type, _, asks, first⟩ := bind_ok.mp first
    obtain ⟨rfl, rfl⟩ := inspectChdu_ok.mp asks
    rw [World.current_eq here] at first
    exact absurd other (check_ok.mp first).1

theorem pushColumns_ok (doc : Documented api) {n : Nat} {u : Unit} (here : w.Current (.table t))
    (all : n = (w.unitOf (.table t)).cols.length)
    (run : pushColumns api t n 1 1 w = .ok u w') :
    ∃ infos, ColumnInfo.decodeAll (w.unitOf (.table t)).heads 1 1 = .ok infos ∧
      w' = w.setColumns t ((w.tables t).columns ++ infos) := by
  subst all
  by_cases binary : (w.unitOf (.table t)).type = .binaryTable
  · have whole := pushColumns_eq doc 1 here (Nat.le_refl 1) (Nat.zero_add _) binary
    rw [Nat.sub_self, List.drop_zero] at whole
    cases built : ColumnInfo.decodeAll (w.unitOf (.table t)).heads 1 1 with
    | error e =>
      rw [built] at whole
      obtain ⟨infos, stopped⟩ := whole
      rw [stopped] at run
      cases run
    | ok infos =>
      rw [built] at whole
      rw [whole] at run
      cases run
      exact ⟨infos, rfl, rfl⟩
  · have empty := List.eq_nil_of_length_eq_zero (pushColumns_other here binary run)
    rw [empty] at run
    obtain ⟨_, rfl⟩ := pure_ok.mp run
    refine ⟨[], by rw [HduData.heads, empty]; rfl, ?_⟩
    rw [List.append_nil, World.setColumns_self]

/-- When `refresh` returns, the cache holds what the header describes, and no
header-data unit has changed. -/
theorem refresh_ok (doc : Documented api) {u : Unit} (run : refresh api t w = .ok u w') :
    ∃ infos extname extver,
      ColumnInfo.decodeAll (w.unitOf (.table t)).heads 1 1 = .ok infos ∧
      w' = ((w.onto (.table t)).rename (.table t) extname extver).setColumns t infos := by
  replace run := setAsChdu_bind_ok doc run
  obtain ⟨type, _, asks, run⟩ := bind_ok.mp run
  obtain ⟨rfl, rfl⟩ := inspectChdu_ok.mp asks
  obtain ⟨table, run⟩ := check_ok.mp run
  obtain ⟨_, _, named, run⟩ := bind_ok.mp run
  obtain ⟨extname, extver, rfl⟩ := HDU.refresh_ok doc named
  rw [World.onto_onto] at run
  have here : ((w.onto (.table t)).rename (.table t) extname extver).Current (.table t) :=
    World.current_rename.mpr World.current_of_onto
  obtain ⟨ncols, _, counts, run⟩ := bind_ok.mp run
  obtain ⟨rfl, rfl⟩ := numColumns_ok doc counts
  rw [World.onto_of_current here] at run
  obtain ⟨_, _, clears, run⟩ := bind_ok.mp run
  cases modify_ok.mp clears
  obtain ⟨infos, built, rfl⟩ := pushColumns_ok doc (World.current_setColumns.mpr here)
    (by rw [World.unitOf_setColumns]) run
  rw [World.unitOf_setColumns, World.unitOf_rename, World.unitOf_onto] at built
  refine ⟨infos, extname, extver, built, ?_⟩
  rw [World.columns_setColumns, List.nil_append, World.setColumns_setColumns]

theorem refresh_eq (doc : Documented api) {v : World} {u : Unit} (own : w.Attached (.table t))
    (binary : (w.unitOf (.table t)).type = .binaryTable)
    (named : HDU.refresh api (.table t) (w.onto (.table t)) = .ok u v) :
    refresh api t w =
      pushColumns api t (w.unitOf (.table t)).cols.length 1 1 (v.setColumns t []) := by
  have type : onFile (.table t) File.getHduType (w.onto (.table t)) =
      .ok .binaryTable (w.onto (.table t)) := by
    rw [← binary]
    exact inspectChdu_ok.mpr ⟨by rw [World.base_onto, World.current_onto], rfl⟩
  have counts : numColumns api t v = .ok (w.unitOf (.table t)).cols.length v := by
    obtain ⟨extname, extver, rfl⟩ := HDU.refresh_ok doc named
    rw [World.onto_onto]
    have attached : ((w.onto (.table t)).rename (.table t) extname extver).Attached (.table t) :=
      World.attached_rename.mpr (World.attached_onto.mpr own)
    have reads := readOwn_of_attached doc attached (doc.num_cols _)
    rw [World.onto_of_current (World.current_rename.mpr World.current_of_onto),
      World.unitOf_rename, World.unitOf_onto] at reads
    exact reads
  unfold refresh
  rw [bind_of_ok (setAsChdu_of_attached doc own), bind_of_ok type]
  change (HDU.refresh api (.table t) >>= _) (w.onto (.table t)) = _
  rw [bind_of_ok named, bind_of_ok counts]
  rfl

/-- `refresh` builds what the header describes, or stops where that cannot be described. -/
theorem refresh_run (doc : Documented api) {v : World} {u : Unit} (own : w.Attached (.table t))
    (binary : (w.unitOf (.table t)).type = .binaryTable)
    (named : HDU.refresh api (.table t) (w.onto (.table t)) = .ok u v) :
    match ColumnInfo.decodeAll (w.unitOf (.table t)).heads 1 1 with
    | .ok infos => refresh api t w = .ok () (v.setColumns t infos)
    | .error e => ∃ infos, refresh api t w = .error e (v.setColumns t infos) := by
  obtain ⟨extname, extver, state⟩ := HDU.refresh_ok doc named
  rw [World.onto_onto] at state
  have unit : (v.setColumns t []).unitOf (.table t) = w.unitOf (.table t) := by
    rw [World.unitOf_setColumns, state, World.unitOf_rename, World.unitOf_onto]
  have here : (v.setColumns t []).Current (.table t) := by
    rw [World.current_setColumns, state]
    exact World.current_rename.mpr World.current_of_onto
  have loop := pushColumns_eq doc 1 here (Nat.le_refl 1) (Nat.zero_add _) (by rw [unit, binary])
  rw [Nat.sub_self, List.drop_zero, unit] at loop
  rw [refresh_eq doc own binary named]
  cases built : ColumnInfo.decodeAll (w.unitOf (.table t)).heads 1 1 with
  | ok infos =>
    rw [built] at loop
    simpa using loop
  | error e =>
    rw [built] at loop
    simpa using loop

theorem editFile_ok {o : Obj} {e : Edit} {u : Unit}
    (run : onFile o (editChdu · e) (w.onto o) = .ok u w') :
    ∃ h, e (w.unitOf o) = .ok () h ∧ w' = w.put o h := by
  unfold onFile at run
  rw [editChdu_ok, World.base_onto, World.current_onto] at run
  obtain ⟨h, done, rfl⟩ := run
  exact ⟨h, done, by simp [World.put, World.onto]⟩

theorem deleteColumnByName_ok (doc : Documented api) {name : String} {u : Unit}
    (run : deleteColumnByName api t name w = .ok u w') :
    ∃ k ci h, api.getColnum (w.unitOf (.table t)).names name = .ok k ∧ 1 ≤ k ∧
      (w.tables t).columns[k - 1]? = some ci ∧
      api.deleteCol ci.colnum (w.unitOf (.table t)) = .ok () h ∧ w' = w.put (.table t) h := by
  replace run := setAsChdu_bind_ok doc run
  obtain ⟨ci, _, finds, run⟩ := bind_ok.mp run
  obtain ⟨k, found, low, entry, rfl⟩ := colinfoByName_ok doc finds
  rw [World.onto_onto] at run
  rw [World.unitOf_onto] at found
  obtain ⟨h, deleted, rfl⟩ := editFile_ok run
  exact ⟨k, ci, h, found, low, entry, deleted, rfl⟩

def Refreshed (api : Cfitsio) (t : Nat) (w' : World) : Prop :=
  ∃ w, refresh api t w = .ok () w'

theorem add_ok {ci : ColumnInfo} {u : Unit} (run : add api t ci w = .ok u w') :
    Refreshed api t w' := by
  obtain ⟨_, _, _, run⟩ := bind_ok.mp run
  obtain ⟨_, _, _, run⟩ := bind_ok.mp run
  obtain ⟨_, w₁, _, run⟩ := bind_ok.mp run
  exact ⟨w₁, run⟩

theorem addNew_ok {ttype tunit : String} {type : ID} {extent : Extent} {colnum : Nat} {u : Unit}
    (run : addNew api t ttype type tunit extent colnum w = .ok u w') : Refreshed api t w' := by
  obtain ⟨_, _, _, run⟩ := bind_ok.mp run
  obtain ⟨_, _, _, run⟩ := bind_ok.mp run
  obtain ⟨_, _, _, run⟩ := bind_ok.mp run
  obtain ⟨_, w₁, _, run⟩ := bind_ok.mp run
  exact ⟨w₁, run⟩

theorem resize_ok (doc : Documented api) {colnum : Nat} {extent : Extent} {u : Unit}
    (run : resize api t colnum extent w = .ok u w') :
    w' = w.onto (.table t) ∨ Refreshed api t w' := by
  replace run := setAsChdu_bind_ok doc run
  obtain ⟨info, _, looks, run⟩ := bind_ok.mp run
  obtain ⟨_, _, rfl⟩ := colinfo_ok.mp looks
  split at run
  · exact Or.inl (pure_ok.mp run).2.symm
  · obtain ⟨_, _, _, run⟩ := bind_ok.mp run
    obtain ⟨_, w₁, _, run⟩ := bind_ok.mp run
    exact Or.inr ⟨w₁, run⟩

theorem resizeByName_ok (doc : Documented api) {name : String} {extent : Extent} {u : Unit}
    (run : resizeByName api t name extent w = .ok u w') :
    w' = w.onto (.table t) ∨ Refreshed api t w' := by
  obtain ⟨ci, _, finds, run⟩ := bind_ok.mp run
  obtain ⟨_, _, _, _, rfl⟩ := colinfoByName_ok doc finds
  have done := resize_ok doc run
  rwa [World.onto_onto] at done

theorem deleteColumn_ok {colnum : Nat} {u : Unit} (run : deleteColumn api t colnum w = .ok u w') :
    Refreshed api t w' := by
  obtain ⟨_, _, _, run⟩ := bind_ok.mp run
  obtain ⟨_, w₁, _, run⟩ := bind_ok.mp run
  exact ⟨w₁, run⟩

end Table
end MisFITS
