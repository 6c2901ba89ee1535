import Mathlib.Data.List.Forall2
import MisFITS.Cache

/-! The stages of `copy_columns` between two files. Each file has a cursor of its
own there, so that the source stays current and as it is. -/
namespace MisFITS
open Program

namespace World

variable {w : World} {o p : Obj}

theorem current_onto_ne (ne : (w.base p).file ≠ (w.base o).file) :
    (w.onto o).Current p ↔ w.Current p := by
  unfold Current onto
  rw [base_setChdu, files_setChdu_ne ne]

theorem current_put_ne {h : HduData} (ne : (w.base p).file ≠ (w.base o).file) :
    (w.put o h).Current p ↔ w.Current p := by
  unfold Current put
  rw [base_putUnit, base_onto, chdu_putUnit]
  unfold onto
  rw [files_setChdu_ne ne]

theorem putUnit_of_current {h : HduData} (here : w.Current o) :
    w.putUnit (w.base o).file (w.files (w.base o).file).chdu h = w.put o h := by
  unfold put
  rw [onto_of_current here, here]

theorem setChdu_comm {f g : Nat} {n m : Int} (ne : f ≠ g) :
    (w.setChdu g m).setChdu f n = (w.setChdu f n).setChdu g m := by
  simp [setChdu, setFile, ne, Ne.symm ne, Function.update_comm ne]

@[simp] theorem onto_onto_onto : ((w.onto p).onto o).onto p = (w.onto o).onto p := by
  simp only [onto, base_setChdu]
  by_cases same : (w.base o).file = (w.base p).file
  · simp only [same, setChdu_setChdu]
  · rw [setChdu_comm same, setChdu_setChdu, ← setChdu_comm same]

end World

namespace Table
open HDU

variable {api : Cfitsio} {src dest : Nat} {w w₀ w' : World} {h h' : HduData}

def Distinct (w : World) (src dest : Nat) : Prop :=
  (w.base (.table src)).file = (w.base (.table dest)).file →
    (w.base (.table src)).hduNum ≠ (w.base (.table dest)).hduNum

def Apart (w : World) (src dest : Nat) : Prop :=
  (w.base (.table src)).file ≠ (w.base (.table dest)).file

theorem Apart.distinct (apart : Apart w src dest) : Distinct w src dest :=
  fun same => absurd same apart

/-- A stage that has left the source alone, with the header-data unit of the destination. -/
structure Stage (src dest : Nat) (w₀ w : World) (h : HduData) : Prop where
  file : ∀ o, (w.base o).file = (w₀.base o).file
  hduNum : ∀ o, (w.base o).hduNum = (w₀.base o).hduNum
  cache : (w.tables src).columns = (w₀.tables src).columns
  sourceUnit : w.unitOf (.table src) = w₀.unitOf (.table src)
  destUnit : w.unitOf (.table dest) = h

namespace Stage

theorem start : Stage src dest w w (w.unitOf (.table dest)) :=
  ⟨fun _ => rfl, fun _ => rfl, rfl, rfl, rfl⟩

theorem apart (stage : Stage src dest w₀ w h) (apart : Apart w₀ src dest) : Apart w src dest := by
  unfold Apart
  rw [stage.file, stage.file]
  exact apart

theorem distinct (stage : Stage src dest w₀ w h) (distinct : Distinct w₀ src dest) :
    Distinct w src dest := by
  unfold Distinct
  rw [stage.file, stage.file, stage.hduNum, stage.hduNum]
  exact distinct

theorem onto (stage : Stage src dest w₀ w h) (o : Obj) : Stage src dest w₀ (w.onto o) h where
  file p := by rw [World.base_onto]; exact stage.file p
  hduNum p := by rw [World.base_onto]; exact stage.hduNum p
  cache := stage.cache
  sourceUnit := World.unitOf_onto.trans stage.sourceUnit
  destUnit := World.unitOf_onto.trans stage.destUnit

theorem put (stage : Stage src dest w₀ w h) (distinct : Distinct w₀ src dest) (h' : HduData) :
    Stage src dest w₀ (w.put (.table dest) h') h' where
  file p := by rw [World.base_put]; exact stage.file p
  hduNum p := by rw [World.base_put]; exact stage.hduNum p
  cache := stage.cache
  sourceUnit := (World.unitOf_put_ne (stage.distinct distinct)).trans stage.sourceUnit
  destUnit := World.unitOf_put

theorem refresh (doc : Documented api) (stage : Stage src dest w₀ w h)
    (distinct : Distinct w₀ src dest) {u : Unit} (run : Table.refresh api dest w = .ok u w') :
    Stage src dest w₀ w' h := by
  have ne : src ≠ dest := by
    rintro rfl
    exact distinct rfl rfl
  obtain ⟨infos, extname, extver, _, rfl⟩ := refresh_ok doc run
  exact
    { file := fun p => by
        rw [World.base_setColumns, World.file_rename, World.base_onto]
        exact stage.file p
      hduNum := fun p => by
        rw [World.base_setColumns, World.hduNum_rename, World.base_onto]
        exact stage.hduNum p
      cache := by
        rw [World.setColumns, World.table_setTable_ne ne, World.columns_rename]
        exact stage.cache
      sourceUnit := by
        rw [World.unitOf_setColumns, World.unitOf_rename]
        exact (stage.onto (.table dest)).sourceUnit
      destUnit := by
        rw [World.unitOf_setColumns, World.unitOf_rename]
        exact (stage.onto (.table dest)).destUnit }

end Stage

/-- What the source table says of a name: the header has the number, the cache the descriptor. -/
def Finds (api : Cfitsio) (w : World) (t : Nat) (name : String) (ci : ColumnInfo) : Prop :=
  ∃ k, api.getColnum (w.unitOf (.table t)).names name = .ok k ∧ 1 ≤ k ∧
    (w.tables t).columns[k - 1]? = some ci

def Has (api : Cfitsio) (h : HduData) (name : String) : Bool := (api.getColnum h.names name).isOk

theorem Finds.unique {t : Nat} {name : String} {ci ci' : ColumnInfo} (first : Finds api w t name ci)
    (second : Finds api w t name ci') : ci = ci' := by
  obtain ⟨k, number, _, entry⟩ := first
  obtain ⟨k', number', _, entry'⟩ := second
  cases number.symm.trans number'
  exact Option.some.inj (entry.symm.trans entry')

theorem Stage.finds (stage : Stage src dest w₀ w h) {name : String} {ci : ColumnInfo} :
    Finds api w src name ci ↔ Finds api w₀ src name ci := by
  unfold Finds
  rw [stage.sourceUnit, stage.cache]

theorem examine_ok (doc : Documented api) {how : Nat} {plan plan' : CopyPlan} {name : String}
    (run : examine api src dest how plan name w = .ok plan' w') :
    ∃ ci, Finds api w src name ci ∧
      ((Has api (w.unitOf (.table dest)) name = false ∧ plan' = plan.creates ci ∧
          w' = (w.onto (.table src)).onto (.table dest)) ∨
        (Has api (w.unitOf (.table dest)) name = true ∧
          how &&& ColumnCopy.flagMask = ColumnCopy.replace ∧ plan' = plan.creates ci ∧
          ∃ k old h, api.getColnum (w.unitOf (.table dest)).names name = .ok k ∧
            (w.tables dest).columns[k - 1]? = some old ∧
            api.deleteCol old.colnum (w.unitOf (.table dest)) = .ok () h ∧
            w' = (w.onto (.table src)).put (.table dest) h) ∨
        (Has api (w.unitOf (.table dest)) name = true ∧
          how &&& ColumnCopy.flagMask = ColumnCopy.overWrite ∧ plan' = plan.overwrites ci ∧
          w' = (w.onto (.table src)).onto (.table dest))) := by
  obtain ⟨inSrc, _, asks, run⟩ := bind_ok.mp run
  obtain ⟨_, rfl⟩ := hasColumn_ok doc asks
  obtain ⟨_, run⟩ := check_ok.mp run
  obtain ⟨ci, _, looks, run⟩ := bind_ok.mp run
  obtain ⟨k, number, low, entry, rfl⟩ := colinfoByName_ok doc looks
  rw [World.unitOf_onto] at number
  obtain ⟨inDest, _, asks, run⟩ := bind_ok.mp run
  obtain ⟨there, rfl⟩ := hasColumn_ok doc asks
  simp only [World.onto_onto, World.unitOf_onto] at there run
  have has : inDest = Has api (w.unitOf (.table dest)) name := there
  refine ⟨ci, ⟨k, number, low, entry⟩, ?_⟩
  split at run
  · rename_i absent
    obtain ⟨rfl, rfl⟩ := pure_ok.mp run
    exact Or.inl ⟨by simpa [has] using absent, rfl, rfl⟩
  · rename_i present
    rw [has, Bool.not_eq_true, Bool.not_eq_false'] at present
    split at run
    · exact (throw_ok.mp run).elim
    · split at run
      · rename_i mode
        obtain ⟨_, w₁, deletes, run⟩ := bind_ok.mp run
        obtain ⟨rfl, rfl⟩ := pure_ok.mp run
        obtain ⟨k, old, h, found, _, entry, deleted, rfl⟩ := deleteColumnByName_ok doc deletes
        simp only [World.unitOf_onto] at found deleted
        exact Or.inr (Or.inl ⟨present, mode, rfl, k, old, h, found, entry, deleted, World.put_onto⟩)
      · split at run
        · rename_i mode
          obtain ⟨rfl, rfl⟩ := pure_ok.mp run
          exact Or.inr (Or.inr ⟨present, mode, rfl, rfl⟩)
        · exact (throw_ok.mp run).elim

def created (api : Cfitsio) (how : Nat) (h : HduData) (names : List String) : List String :=
  if how &&& ColumnCopy.flagMask = ColumnCopy.replace then names
  else names.filter (fun name => !Has api h name)

structure Examined (api : Cfitsio) (src dest how : Nat) (w₀ : World) (done : List String)
    (plan : CopyPlan) (w : World) : Prop where
  stage : ∃ h, Stage src dest w₀ w h
  finds : List.Forall₂ (Finds api w₀ src) done plan.srcCi
  made : ∃ infos, List.Forall₂ (Finds api w₀ src)
      (created api how (w₀.unitOf (.table dest)) done) infos ∧
    plan.made = infos.map (fun ci => (ci.ttype, ci.tform))
  kept : how &&& ColumnCopy.flagMask ≠ ColumnCopy.replace →
    w.unitOf (.table dest) = w₀.unitOf (.table dest)

theorem created_append (how : Nat) (h : HduData) (done : List String) (name : String) :
    created api how h (done ++ [name]) =
      created api how h done ++ created api how h [name] := by
  unfold created
  split
  · rfl
  · rw [List.filter_append]

theorem examine_examined (doc : Documented api) (distinct : Distinct w₀ src dest) {how : Nat}
    {done : List String} {name : String} {plan plan' : CopyPlan}
    (held : Examined api src dest how w₀ done plan w)
    (run : examine api src dest how plan name w = .ok plan' w') :
    Examined api src dest how w₀ (done ++ [name]) plan' w' := by
  obtain ⟨h, stage⟩ := held.stage
  obtain ⟨infos, found, made⟩ := held.made
  obtain ⟨ci, finds, cases⟩ := examine_ok doc run
  have here := stage.finds.mp finds
  have all : List.Forall₂ (Finds api w₀ src) (done ++ [name]) (plan.srcCi ++ [ci]) :=
    List.rel_append held.finds (.cons here .nil)
  have more : created api how (w₀.unitOf (.table dest)) [name] = [name] →
      ∃ infos, List.Forall₂ (Finds api w₀ src)
        (created api how (w₀.unitOf (.table dest)) (done ++ [name])) infos ∧
        (plan.creates ci).made = infos.map (fun ci => (ci.ttype, ci.tform)) := by
    intro new
    refine ⟨infos ++ [ci], ?_, by simp [CopyPlan.creates, made]⟩
    rw [created_append, new]
    exact List.rel_append found (.cons here .nil)
  rcases cases with ⟨absent, rfl, rfl⟩ | ⟨_, mode, rfl, _, _, h', _, _, _, rfl⟩ | ⟨present, mode, rfl, rfl⟩
  · refine ⟨⟨h, (stage.onto _).onto _⟩, all, more ?_, fun mode => ?_⟩
    · unfold created
      split
      · rfl
      · rename_i mode
        rw [held.kept mode] at absent
        simp [absent]
    · simp only [World.unitOf_onto]
      exact held.kept mode
  · refine ⟨⟨h', (stage.onto _).put distinct h'⟩, all, more ?_, fun other => absurd mode other⟩
    unfold created
    rw [if_pos mode]
  · have other : how &&& ColumnCopy.flagMask ≠ ColumnCopy.replace := by
      rw [mode]
      decide
    refine ⟨⟨h, (stage.onto _).onto _⟩, all, ⟨infos, ?_, made⟩, fun _ => ?_⟩
    · rw [held.kept other] at present
      have nothing : created api how (w₀.unitOf (.table dest)) [name] = [] := by
        simp [created, other, present]
      rw [created_append, nothing, List.append_nil]
      exact found
    · simp only [World.unitOf_onto]
      exact held.kept other

theorem examine_all (doc : Documented api) (distinct : Distinct w₀ src dest) {how : Nat}
    {names : List String} {plan : CopyPlan}
    (run : names.foldlM (examine api src dest how) ⟨[], []⟩
      ((w₀.onto (.table src)).onto (.table dest)) = .ok plan w) :
    Examined api src dest how w₀ names plan w := by
  have stage : Stage src dest w₀ w₀ (w₀.unitOf (.table dest)) := Stage.start
  have start : Examined api src dest how w₀ [] ⟨[], []⟩ ((w₀.onto (.table src)).onto (.table dest)) := by
    refine ⟨⟨_, (stage.onto _).onto _⟩, .nil, ⟨[], ?_, rfl⟩, fun _ => ?_⟩
    · unfold created
      split <;> exact .nil
    · simp only [World.unitOf_onto]
  exact loop_ok (I := Examined api src dest how w₀) []
    (fun _ _ _ _ _ _ held pass => examine_examined doc distinct held pass) start run

theorem createColumns_ok (doc : Documented api) {made : List (String × String)} {u : Unit}
    (run : createColumns api dest made w = .ok u w') :
    (made = [] ∧ w' = w) ∨ made ≠ [] ∧ ∃ h, api.insertCols ((w.unitOf (.table dest)).cols.length + 1) made
        (w.unitOf (.table dest)) = .ok () h ∧ w' = w.put (.table dest) h := by
  unfold createColumns at run
  split at run
  · rename_i nonempty
    obtain ⟨n, _, counts, run⟩ := bind_ok.mp run
    obtain ⟨rfl, rfl⟩ := numColumns_ok doc counts
    exact Or.inr ⟨nonempty, editFile_ok run⟩
  · rename_i empty
    exact Or.inl ⟨not_not.mp empty, (pure_ok.mp run).2.symm⟩

def forms (infos : List ColumnInfo) : List (String × Nat × ColumnType.Spec) :=
  infos.map (fun ci => (ci.ttype, ColumnInfo.count ci.extent, ci.columnType))

theorem forms_text (infos : List ColumnInfo) : (infos.map fun ci => (ci.ttype, ci.tform)) =
    (forms infos).map (fun m => (m.1, tformText m.2.1 m.2.2.code)) := by
  rw [forms, List.map_map]
  exact List.map_congr_left (fun ci _ => by rw [ColumnInfo.tform_eq]; rfl)

theorem forms_counts (infos : List ColumnInfo) : ∀ m ∈ forms infos, 1 ≤ m.2.1 := by
  intro m member
  obtain ⟨ci, _, rfl⟩ := List.mem_map.mp member
  exact ColumnInfo.count_pos ci.extent

theorem createColumns_made (doc : Documented api) (distinct : Distinct w₀ src dest)
    (stage : Stage src dest w₀ w h) {infos : List ColumnInfo} {u : Unit}
    (run : createColumns api dest (infos.map fun ci => (ci.ttype, ci.tform)) w = .ok u w') :
    ∃ h', Stage src dest w₀ w' h' ∧ (infos = [] → h' = h) ∧
      h'.heads = h.heads ++ infos.map (fun ci =>
        ColHead.created ci.ttype (ColumnInfo.count ci.extent) ci.columnType) := by
  rcases createColumns_ok doc run with ⟨empty, rfl⟩ | ⟨made, h', inserted, rfl⟩
  · obtain rfl : infos = [] := List.map_eq_nil_iff.mp empty
    exact ⟨h, stage, fun _ => rfl, (List.append_nil _).symm⟩
  · rw [stage.destUnit, forms_text] at inserted
    obtain ⟨new, heads, cols, _⟩ :=
      doc.insert_cols (forms_counts infos) (Nat.le_add_left 1 _) (Nat.le_refl _) inserted
    refine ⟨h', stage.put distinct h', fun empty => absurd (congrArg _ empty) made, ?_⟩
    rw [Nat.add_sub_cancel, List.take_length, List.drop_length, List.append_nil] at cols
    rw [HduData.heads, cols, List.map_append, heads, forms, List.map_map]
    rfl

theorem insert_rows_heads (doc : Documented api) {h' : HduData} {first n : Int} (low : 0 ≤ n)
    (run : api.insertRows first n h = .ok () h') : h'.heads = h.heads := by
  unfold HduData.heads
  rw [(doc.insert_rows low run).1, List.map_map]
  rfl

def Wanting (how : Nat) (source dest : HduData) : Prop :=
  source.nrows > dest.nrows ∧ (how &&& ColumnCopy.extendTable ≠ 0 ∨
    how &&& ColumnCopy.extendTableIfEmpty ≠ 0 ∧ dest.nrows = 0)

theorem wantsRows_ok (doc : Documented api) {how : Nat} {b : Bool}
    (run : wantsRows api src dest how w = .ok b w') :
    (b = true ↔ Wanting how (w.unitOf (.table src)) (w.unitOf (.table dest))) ∧
      w' = (w.onto (.table src)).onto (.table dest) := by
  obtain ⟨s, _, counts, run⟩ := bind_ok.mp run
  obtain ⟨rfl, rfl⟩ := numRows_ok doc counts
  obtain ⟨d, _, counts, run⟩ := bind_ok.mp run
  obtain ⟨rfl, rfl⟩ := numRows_ok doc counts
  rw [World.unitOf_onto] at run
  unfold Wanting
  split at run
  · rename_i fewer
    split at run
    · rename_i always
      obtain ⟨rfl, rfl⟩ := pure_ok.mp run
      exact ⟨iff_of_true rfl ⟨fewer, Or.inl always⟩, rfl⟩
    · rename_i never
      split at run
      · rename_i ifEmpty
        obtain ⟨d, _, counts, run⟩ := bind_ok.mp run
        obtain ⟨rfl, rfl⟩ := numRows_ok doc counts
        obtain ⟨rfl, rfl⟩ := pure_ok.mp run
        simp only [World.unitOf_onto, World.onto_onto]
        simp [fewer, never, ifEmpty]
      · rename_i neither
        obtain ⟨rfl, rfl⟩ := pure_ok.mp run
        exact ⟨by simp [never, neither], rfl⟩
  · rename_i enough
    obtain ⟨rfl, rfl⟩ := pure_ok.mp run
    exact ⟨by simp [enough], rfl⟩

/-- Where the evaluation of the arguments of `fits_insert_rows` leaves the cursors. -/
def counted (order : ArgOrder) (src dest : Nat) (w : World) : World :=
  match order with
  | .destLast => (w.onto (.table src)).onto (.table dest)
  | .sourceLast => (w.onto (.table dest)).onto (.table src)

theorem missingRows_ok (doc : Documented api) {order : ArgOrder} {n : Int}
    (run : missingRows api order src dest ((w.onto (.table src)).onto (.table dest)) = .ok n w') :
    n = (w.unitOf (.table src)).nrows - (w.unitOf (.table dest)).nrows ∧
      w' = counted order src dest w := by
  cases order with
  | destLast =>
    obtain ⟨s, _, counts, run⟩ := bind_ok.mp run
    obtain ⟨rfl, rfl⟩ := numRows_ok doc counts
    obtain ⟨d, _, counts, run⟩ := bind_ok.mp run
    obtain ⟨rfl, rfl⟩ := numRows_ok doc counts
    obtain ⟨rfl, rfl⟩ := pure_ok.mp run
    simp [counted]
  | sourceLast =>
    obtain ⟨d, _, counts, run⟩ := bind_ok.mp run
    obtain ⟨rfl, rfl⟩ := numRows_ok doc counts
    obtain ⟨s, _, counts, run⟩ := bind_ok.mp run
    obtain ⟨rfl, rfl⟩ := numRows_ok doc counts
    obtain ⟨rfl, rfl⟩ := pure_ok.mp run
    simp [counted]

@[simp] theorem base_counted {order : ArgOrder} {o : Obj} :
    (counted order src dest w).base o = w.base o := by
  cases order <;> simp [counted]

/-- The rows are inserted in whatever the destination's file stands at by then. -/
theorem extendRows_ok (doc : Documented api) {order : ArgOrder} {how : Nat} {u : Unit}
    (run : extendRows api order src dest how w = .ok u w') :
    (¬Wanting how (w.unitOf (.table src)) (w.unitOf (.table dest)) ∧
        w' = (w.onto (.table src)).onto (.table dest)) ∨
      Wanting how (w.unitOf (.table src)) (w.unitOf (.table dest)) ∧
        ∃ h v, v = counted order src dest w ∧
          api.insertRows (w.unitOf (.table dest)).nrows
            ((w.unitOf (.table src)).nrows - (w.unitOf (.table dest)).nrows)
            (v.current (v.base (.table dest)).file) = .ok () h ∧
          w' = v.putUnit (v.base (.table dest)).file (v.files (v.base (.table dest)).file).chdu h := by
  obtain ⟨b, _, wants, run⟩ := bind_ok.mp run
  obtain ⟨wanting, rfl⟩ := wantsRows_ok doc wants
  split at run
  · rename_i yes
    right
    obtain ⟨first, _, counts, run⟩ := bind_ok.mp run
    obtain ⟨rfl, rfl⟩ := numRows_ok doc counts
    rw [World.onto_onto] at run
    obtain ⟨n, _, counts, run⟩ := bind_ok.mp run
    obtain ⟨rfl, rfl⟩ := missingRows_ok doc counts
    unfold onFile at run
    rw [editChdu_ok, World.unitOf_onto, World.unitOf_onto] at run
    obtain ⟨h, inserted, state⟩ := run
    exact ⟨wanting.mp yes, h, _, rfl, inserted, state⟩
  · rename_i no
    exact Or.inl ⟨fun yes => no (wanting.mpr yes), (pure_ok.mp run).2.symm⟩

theorem current_both (apart : Apart w src dest) :
    ((w.onto (.table src)).onto (.table dest)).Current (.table src) :=
  (World.current_onto_ne (by rw [World.base_onto, World.base_onto]; exact apart)).mpr
    World.current_of_onto

theorem extendRows_apart (doc : Documented api) (apart : Apart w₀ src dest)
    (stage : Stage src dest w₀ w h) {order : ArgOrder} {how : Nat} {u : Unit}
    (run : extendRows api order src dest how w = .ok u w') :
    ∃ h', Stage src dest w₀ w' h' ∧ w'.Current (.table src) ∧
      (¬Wanting how (w₀.unitOf (.table src)) h ∧ h' = h ∨
        Wanting how (w₀.unitOf (.table src)) h ∧
          api.insertRows h.nrows ((w₀.unitOf (.table src)).nrows - h.nrows) h = .ok () h') := by
  have ran := extendRows_ok doc run
  rw [stage.sourceUnit, stage.destUnit] at ran
  rcases ran with ⟨enough, rfl⟩ | ⟨wanting, h', v, rfl, inserted, rfl⟩
  · exact ⟨h, (stage.onto _).onto _, current_both (stage.apart apart), Or.inl ⟨enough, rfl⟩⟩
  · have stage' : Stage src dest w₀ (counted order src dest w) h := by
      cases order <;> exact (stage.onto _).onto _
    have both : (counted order src dest w).Current (.table src) ∧
        (counted order src dest w).Current (.table dest) := by
      cases order with
      | destLast => exact ⟨current_both (stage.apart apart), World.current_of_onto⟩
      | sourceLast => exact ⟨World.current_of_onto, current_both (stage.apart apart).symm⟩
    rw [World.current_eq both.2, stage'.destUnit] at inserted
    rw [World.putUnit_of_current both.2]
    exact ⟨h', stage'.put apart.distinct h', (World.current_put_ne (stage'.apart apart)).mpr both.1,
      Or.inr ⟨wanting, inserted⟩⟩

structure Copying (src dest : Nat) (w₀ w : World) (h : HduData) : Prop
    extends Stage src dest w₀ w h where
  current : w.Current (.table src)
  synced : Synced w dest

theorem refresh_copying (doc : Documented api) (apart : Apart w₀ src dest)
    (stage : Stage src dest w₀ w h) (current : w.Current (.table src)) {u : Unit}
    (run : refresh api dest w = .ok u w') : Copying src dest w₀ w' h where
  toStage := stage.refresh doc apart.distinct run
  current := by
    obtain ⟨infos, extname, extver, _, rfl⟩ := refresh_ok doc run
    rw [World.current_setColumns, World.current_rename, World.current_onto_ne (stage.apart apart)]
    exact current
  synced := synced_of_refresh doc run

theorem colnum_of_synced {t k : Nat} {ci : ColumnInfo} (synced : Synced w t) (low : 1 ≤ k)
    (entry : (w.tables t).columns[k - 1]? = some ci) : ci.colnum = k := by
  obtain ⟨c, _, described⟩ := ColumnInfo.decodeAll_get synced entry
  rw [(ColumnInfo.decode_ok described).2.2.2.2.1]
  omega

theorem copyOne_copying (doc : Documented api) (apart : Apart w₀ src dest)
    (copying : Copying src dest w₀ w h) {ci : ColumnInfo} {u v : Unit}
    (run : copyOne api src dest u ci w = .ok v w') :
    ∃ k h', api.getColnum h.names ci.ttype = .ok k ∧
      api.copyCol (w₀.unitOf (.table src)) ci.colnum k h = .ok () h' ∧
      Copying src dest w₀ w' h' := by
  obtain ⟨k, target, number, entry, h', copied, rfl⟩ := copyOne_ok doc run
  have synced := copyOne_synced doc run copying.synced
  have here : (w.onto (.table dest)).Current (.table src) :=
    (World.current_onto_ne (copying.apart apart)).mpr copying.current
  have source := World.current_eq here
  rw [World.base_onto, World.unitOf_onto, copying.sourceUnit] at source
  have colnum := colnum_of_synced copying.synced (doc.colnum_range number).1 entry
  rw [source, colnum, copying.destUnit] at copied
  rw [copying.destUnit] at number
  exact ⟨k, h', number, copied, copying.toStage.put apart.distinct h',
    (World.current_put_ne (copying.apart apart)).mpr copying.current, synced⟩

structure Prepared (api : Cfitsio) (src dest how : Nat) (w₀ : World) (names : List String)
    (infos : List ColumnInfo) (h : HduData) : Prop where
  finds : List.Forall₂ (Finds api w₀ src) names infos
  made : ∃ (old : HduData) (news : List ColumnInfo), List.Forall₂ (Finds api w₀ src)
      (created api how (w₀.unitOf (.table dest)) names) news ∧
    h.heads = old.heads ++ news.map (fun ci =>
      ColHead.created ci.ttype (ColumnInfo.count ci.extent) ci.columnType) ∧
    (how &&& ColumnCopy.flagMask ≠ ColumnCopy.replace → old = w₀.unitOf (.table dest)) ∧
    (news = [] → h = old)

theorem Prepared.unchanged {how : Nat} {names : List String} {infos : List ColumnInfo}
    (prepared : Prepared api src dest how w₀ names infos h)
    (mode : how &&& ColumnCopy.flagMask ≠ ColumnCopy.replace)
    (present : ∀ name ∈ names, Has api (w₀.unitOf (.table dest)) name = true) :
    h = w₀.unitOf (.table dest) := by
  obtain ⟨old, news, found, _, kept, still⟩ := prepared.made
  have nothing : created api how (w₀.unitOf (.table dest)) names = [] := by
    unfold created
    rw [if_neg mode, List.filter_eq_nil_iff]
    intro name member
    simp [present name member]
  rw [nothing] at found
  cases found
  rw [still rfl, kept mode]

theorem copyColumns_prepared (doc : Documented api) (distinct : Distinct w₀ src dest)
    {order : ArgOrder} {names : List String} {how : Nat} {u : Unit}
    (run : copyColumns api order src dest names how w₀ = .ok u w') :
    (names = [] ∧ w' = w₀) ∨ ∃ infos h w₁ w₂ w₃, Prepared api src dest how w₀ names infos h ∧
      Stage src dest w₀ w₁ h ∧ extendRows api order src dest how w₁ = .ok () w₂ ∧
      refresh api dest w₂ = .ok () w₃ ∧ infos.foldlM (copyOne api src dest) () w₃ = .ok () w' := by
  rcases copyColumns_ok doc run with nothing | ⟨plan, w₁, w₂, w₃, w₄, examines, creates, rest⟩
  · exact Or.inl nothing
  have examined := examine_all doc distinct examines
  obtain ⟨old, stage⟩ := examined.stage
  obtain ⟨news, found, made⟩ := examined.made
  rw [made] at creates
  obtain ⟨h, stage', nothing, heads⟩ := createColumns_made doc distinct stage creates
  have kept : how &&& ColumnCopy.flagMask ≠ ColumnCopy.replace →
      old = w₀.unitOf (.table dest) := by
    rw [← stage.destUnit]
    exact examined.kept
  exact Or.inr ⟨plan.srcCi, h, w₂, w₃, w₄, ⟨examined.finds, old, news, found, heads, kept, nothing⟩,
    stage', rest⟩

theorem copyColumns_apart (doc : Documented api) (apart : Apart w₀ src dest) {order : ArgOrder}
    {names : List String} {how : Nat} {u : Unit}
    (run : copyColumns api order src dest names how w₀ = .ok u w') :
    (names = [] ∧ w' = w₀) ∨ ∃ infos h₁ h w, Prepared api src dest how w₀ names infos h₁ ∧
      (¬Wanting how (w₀.unitOf (.table src)) h₁ ∧ h = h₁ ∨
        Wanting how (w₀.unitOf (.table src)) h₁ ∧
          api.insertRows h₁.nrows ((w₀.unitOf (.table src)).nrows - h₁.nrows) h₁ = .ok () h) ∧
      Copying src dest w₀ w h ∧ infos.foldlM (copyOne api src dest) () w = .ok () w' := by
  rcases copyColumns_prepared doc apart.distinct run with
    none | ⟨infos, h₁, w₁, w₂, w₃, prepared, stage, extends_, refreshes, copies⟩
  · exact Or.inl none
  obtain ⟨h, stage', current, rows⟩ := extendRows_apart doc apart stage extends_
  exact Or.inr ⟨infos, h₁, h, w₃, prepared, rows,
    refresh_copying doc apart stage' current refreshes, copies⟩

end Table
end MisFITS
