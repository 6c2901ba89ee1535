import Mathlib.Data.List.InsertIdx
import MisFITS.Keyed
import MisFITS.CopiedCells

/-! The names of the destination after `copy_columns`, and the columns between
which it copies. Columns go by their names in either letter case. -/
namespace MisFITS
open Program Keyed

/-- How CFITSIO finds a column by a template that it takes for a name. A template
with wildcards in it, or that is a number, may stand for other columns too. -/
structure Lookup (api : Cfitsio) (literal : String → Prop) : Prop where
  finds : ∀ {names t k}, Unique foldCase names → literal t →
    (api.getColnum names t = .ok k ↔
      1 ≤ k ∧ ∃ n, names[k - 1]? = some n ∧ foldCase n = foldCase t)

/-- To delete and to insert columns changes no number of rows. -/
structure KeepsRows (api : Cfitsio) : Prop where
  delete_col : ∀ {h h' k}, api.deleteCol k h = .ok () h' → h'.nrows = h.nrows
  insert_cols : ∀ {h h' k made}, api.insertCols k made h = .ok () h' → h'.nrows = h.nrows

section Lookup

variable {api : Cfitsio} {literal : String → Prop} {names : List String} {t : String} {k : Nat}

theorem Lookup.place (lookup : Lookup api literal) (unique : Unique foldCase names)
    (plain : literal t) (found : api.getColnum names t = .ok k) :
    k = place foldCase names (foldCase t) := by
  obtain ⟨low, n, entry, same⟩ := (lookup.finds unique plain).mp found
  rw [← same, unique.place entry]
  omega

theorem Lookup.member (lookup : Lookup api literal) (unique : Unique foldCase names)
    (plain : literal t) (found : api.getColnum names t = .ok k) :
    foldCase t ∈ names.map foldCase := by
  obtain ⟨_, n, entry, same⟩ := (lookup.finds unique plain).mp found
  exact List.mem_map.mpr ⟨n, List.mem_of_getElem? entry, same⟩

theorem Lookup.absent_iff (lookup : Lookup api literal) (unique : Unique foldCase names)
    (plain : literal t) : (api.getColnum names t).isOk = false ↔
      foldCase t ∉ names.map foldCase := by
  constructor
  · intro absent member
    obtain ⟨n, there, same⟩ := List.mem_map.mp member
    obtain ⟨i, entry⟩ := List.mem_iff_getElem?.mp there
    have found : api.getColnum names t = .ok (i + 1) :=
      (lookup.finds unique plain).mpr ⟨Nat.le_add_left 1 i, n, entry, same⟩
    rw [found] at absent
    cases absent
  · intro absent
    cases found : api.getColnum names t with
    | error e => rfl
    | ok k =>
      obtain ⟨_, n, entry, same⟩ := (lookup.finds unique plain).mp found
      exact absurd (List.mem_map.mpr ⟨n, List.mem_of_getElem? entry, same⟩) absent

end Lookup

namespace Table
open HDU

section calls

variable (api : Cfitsio) (order : ArgOrder) (src dest : Nat)

/-- `copyOne`, which notes the numbers that `fits_copy_col` is called with. -/
def noteOne (calls : List (Nat × Nat)) (ci : ColumnInfo) : M (List (Nat × Nat)) := do
  let target ← colinfoByName api dest ci.ttype
  copyCol api src dest ci.colnum target.colnum
  return calls ++ [(ci.colnum, target.colnum)]

def noteColumns (names : List String) (how : Nat) : M (List (Nat × Nat)) := do
  if names = [] then
    return []
  setAsChdu api (.table src)
  setAsChdu api (.table dest)
  let plan ← names.foldlM (examine api src dest how) ⟨[], []⟩
  createColumns api dest plan.made
  extendRows api order src dest how
  refresh api dest
  plan.srcCi.foldlM (noteOne api src dest) []

def copyCalls (names : List String) (how : Nat) (w : World) : List (Nat × Nat) :=
  (value (noteColumns api order src dest names how w)).getD []

variable {api order src dest}

theorem noting_eq (infos : List ColumnInfo) (calls : List (Nat × Nat)) :
    (infos.foldlM (noteOne api src dest) calls >>= fun _ => pure ()) =
      infos.foldlM (copyOne api src dest) () := by
  induction infos generalizing calls with
  | nil => rfl
  | cons ci infos ih =>
    simp only [List.foldlM_cons, bind_assoc, ih]
    simp only [noteOne, copyOne, bind_assoc, pure_bind]

theorem noteColumns_eq (names : List String) (how : Nat) :
    (noteColumns api order src dest names how >>= fun _ => pure ()) =
      copyColumns api order src dest names how := by
  unfold noteColumns copyColumns
  split
  · rfl
  · simp only [bind_assoc, noting_eq]

theorem noted_of_copy {names : List String} {how : Nat} {w w' : World} {u : Unit}
    (run : copyColumns api order src dest names how w = .ok u w') :
    noteColumns api order src dest names how w =
      .ok (copyCalls api order src dest names how w) w' := by
  rw [← noteColumns_eq] at run
  obtain ⟨calls, _, notes, done⟩ := bind_ok.mp run
  obtain ⟨_, rfl⟩ := pure_ok.mp done
  rw [copyCalls, notes]
  rfl

end calls

def Numbered (w : World) (t : Nat) : Prop :=
  ∀ i ci, (w.tables t).columns[i]? = some ci → ci.colnum = i + 1

theorem Synced.numbered {w : World} {t : Nat} (synced : Synced w t) : Numbered w t := by
  intro i ci entry
  exact (colnum_of_synced synced (Nat.le_add_left 1 i) (by rwa [Nat.add_sub_cancel])).trans rfl

theorem Numbered.of_cache {w w' : World} {t : Nat} (numbered : Numbered w t)
    (same : (w'.tables t).columns = (w.tables t).columns) : Numbered w' t := by
  intro i ci entry
  rw [same] at entry
  exact numbered i ci entry

theorem step_numbered {api : Cfitsio} (doc : Documented api) {w w' : World} {t : Nat} {e : Event}
    (step : Step api t e w w') (numbered : Numbered w t) : Numbered w' t := by
  have fresh : Refreshed api t w' → Numbered w' t :=
    fun ⟨_, run⟩ => (synced_of_refresh doc run).numbered
  have copied : ∀ {order src names how} {v : World}, Numbered v t →
      copyColumns api order src t names how v = .ok () w' → Numbered w' t := by
    intro order src names how v before run
    rcases copyColumns_ok doc run with ⟨_, rfl⟩ | ⟨plan, _, _, _, w₄, _, _, _, refreshed, copied⟩
    · exact before
    · refine Synced.numbered (loop_keeps (P := fun w => Synced w t) ?_
        (synced_of_refresh doc refreshed) copied)
      exact fun _ _ _ _ _ held pass => copyOne_synced doc pass held
  cases e with
  | other => exact numbered.of_cache (by rw [step.1])
  | own m =>
    cases m with
    | add ci => exact fresh (add_ok step)
    | addNew ttype type tunit extent colnum => exact fresh (addNew_ok step)
    | resize colnum extent =>
      rcases resize_ok doc step with rfl | refreshed
      · exact numbered.of_cache rfl
      · exact fresh refreshed
    | resizeByName name extent =>
      rcases resizeByName_ok doc step with rfl | refreshed
      · exact numbered.of_cache rfl
      · exact fresh refreshed
    | deleteColumn colnum => exact fresh (deleteColumn_ok step)
    | deleteColumnByName name =>
      obtain ⟨_, _, _, _, _, _, _, rfl⟩ := deleteColumnByName_ok doc step
      exact numbered.of_cache rfl
    | copyInto order src names how => exact copied numbered step
    | copyAllInto order src how =>
      obtain ⟨names, run⟩ := copyAllColumns_ok doc step
      have before : Numbered (w.onto (.table src)) t := numbered.of_cache rfl
      exact copied before run

theorem numbered_of_run {api : Cfitsio} (doc : Documented api) {w₀ w : World} {t : Nat} {u : Unit}
    {trace : List (Event × World)} (built : refresh api t w₀ = .ok u w)
    (run : Run.Trace (Step api t) w trace) : Numbered (Run.last w trace) t := by
  have keeps : ∀ e w w', True → Step api t e w w' → Numbered w t → Numbered w' t :=
    fun _ _ _ _ step => step_numbered doc step
  exact Run.Trace.invariant keeps (fun _ _ => trivial) (synced_of_refresh doc built).numbered run

def kept (how : Nat) (names old : List String) : List String :=
  if how &&& ColumnCopy.flagMask = ColumnCopy.replace then
    without foldCase (names.map foldCase) old
  else old

def asked (how : Nat) (names old : List String) : List String :=
  if how &&& ColumnCopy.flagMask = ColumnCopy.replace then names
  else without foldCase (old.map foldCase) names

section Examine

variable {api : Cfitsio} {literal : String → Prop} {src dest how : Nat} {w w₀ w' : World}
  {names done : List String} {name : String}

theorem created_eq (lookup : Lookup api literal) (unique : Unique foldCase
      (w.unitOf (.table dest)).names) (plain : ∀ name ∈ names, literal name) :
    created api how (w.unitOf (.table dest)) names =
      asked how names (w.unitOf (.table dest)).names := by
  unfold created asked
  split
  · rfl
  · refine List.filter_congr (fun name member => ?_)
    have absent := lookup.absent_iff unique (plain name member)
    unfold Has
    cases found : (api.getColnum (w.unitOf (.table dest)).names name).isOk with
    | false => simpa [found] using absent
    | true => simpa [found] using absent

structure Cleared (src dest how : Nat) (w₀ : World) (done : List String) (w : World) : Prop where
  stage : ∃ h, Stage src dest w₀ w h
  cache : (w.tables dest).columns = (w₀.tables dest).columns
  names : (w.unitOf (.table dest)).names = kept how done (w₀.unitOf (.table dest)).names
  nrows : (w.unitOf (.table dest)).nrows = (w₀.unitOf (.table dest)).nrows

theorem Unique.kept {old : List String} (unique : Unique foldCase old) :
    Unique foldCase (kept how names old) := by
  unfold Table.kept
  split
  · exact unique.without
  · exact unique

theorem kept_append (mode : how &&& ColumnCopy.flagMask = ColumnCopy.replace) (old : List String) :
    kept how (done ++ [name]) old = without foldCase [foldCase name] (kept how done old) := by
  unfold kept
  rw [if_pos mode, if_pos mode, List.map_append, without_append]
  rfl

theorem kept_absent {old : List String}
    (absent : foldCase name ∉ (kept how done old).map foldCase) :
    kept how (done ++ [name]) old = kept how done old := by
  by_cases mode : how &&& ColumnCopy.flagMask = ColumnCopy.replace
  · rw [kept_append mode]
    refine without_of_absent (fun n member same => absent ?_)
    rw [← List.mem_singleton.mp same]
    exact List.mem_map_of_mem member
  · unfold kept
    rw [if_neg mode, if_neg mode]

theorem examine_cleared (doc : Documented api) (lookup : Lookup api literal) (rows : KeepsRows api)
    (distinct : Distinct w₀ src dest) (numbered : Numbered w₀ dest)
    (unique : Unique foldCase (w₀.unitOf (.table dest)).names) (plain : literal name)
    {plan plan' : CopyPlan} (held : Cleared src dest how w₀ done w)
    (run : examine api src dest how plan name w = .ok plan' w') :
    Cleared src dest how w₀ (done ++ [name]) w' := by
  obtain ⟨h, stage⟩ := held.stage
  have unique' : Unique foldCase (w.unitOf (.table dest)).names := by
    rw [held.names]
    exact Unique.kept unique
  obtain ⟨ci, _, cases⟩ := examine_ok doc run
  rcases cases with ⟨absent, _, rfl⟩ | ⟨_, mode, _, k, old, h', found, entry, deleted, rfl⟩ |
    ⟨_, mode, _, rfl⟩
  · have gone := (lookup.absent_iff unique' plain).mp absent
    rw [held.names] at gone
    refine ⟨⟨h, (stage.onto _).onto _⟩, held.cache, ?_, ?_⟩
    · rw [kept_absent gone, World.unitOf_onto, World.unitOf_onto, held.names]
    · rw [World.unitOf_onto, World.unitOf_onto, held.nrows]
  · obtain ⟨low, n, there, same⟩ := (lookup.finds unique' plain).mp found
    rw [held.cache] at entry
    have colnum : old.colnum = k := (numbered _ _ entry).trans (by omega)
    rw [colnum] at deleted
    obtain ⟨_, _, cols, _⟩ := doc.delete_col deleted
    refine ⟨⟨h', (stage.onto _).put distinct h'⟩, held.cache, ?_, ?_⟩
    · rw [kept_append mode, ← held.names, ← same, ← unique'.eraseIdx there, World.unitOf_put,
        HduData.names, cols, ← List.eraseIdx_map]
      rfl
    · rw [World.unitOf_put, rows.delete_col deleted, held.nrows]
  · have other : how &&& ColumnCopy.flagMask ≠ ColumnCopy.replace := by
      rw [mode]
      decide
    refine ⟨⟨h, (stage.onto _).onto _⟩, held.cache, ?_, ?_⟩
    · rw [World.unitOf_onto, World.unitOf_onto, held.names]
      unfold kept
      rw [if_neg other, if_neg other]
    · rw [World.unitOf_onto, World.unitOf_onto, held.nrows]

end Examine

section Stages

variable {api : Cfitsio} {literal : String → Prop} {order : ArgOrder} {src dest how : Nat}
  {w w₀ w' : World} {h : HduData} {names : List String} {infos : List ColumnInfo}
  {calls noted : List (Nat × Nat)}

theorem clear_all (doc : Documented api) (lookup : Lookup api literal) (rows : KeepsRows api)
    (distinct : Distinct w₀ src dest) (numbered : Numbered w₀ dest)
    (unique : Unique foldCase (w₀.unitOf (.table dest)).names)
    (plain : ∀ name ∈ names, literal name) {plan : CopyPlan}
    (run : names.foldlM (examine api src dest how) ⟨[], []⟩
      ((w₀.onto (.table src)).onto (.table dest)) = .ok plan w) :
    Cleared src dest how w₀ names w := by
  have start : Cleared src dest how w₀ [] ((w₀.onto (.table src)).onto (.table dest)) := by
    refine ⟨⟨_, (Stage.start.onto _).onto _⟩, rfl, ?_, ?_⟩
    · unfold kept
      simp
    · simp
  exact loop_mem (I := fun done _ w => Cleared src dest how w₀ done w) []
    (fun _ name _ _ _ _ member held pass =>
      examine_cleared doc lookup rows distinct numbered unique (plain name member) held pass)
    start run

theorem createColumns_rows (doc : Documented api) (rows : KeepsRows api)
    {made : List (String × String)} {u : Unit}
    (run : createColumns api dest made w = .ok u w') :
    (w'.unitOf (.table dest)).nrows = (w.unitOf (.table dest)).nrows := by
  rcases createColumns_ok doc run with ⟨_, rfl⟩ | ⟨_, h, inserted, rfl⟩
  · rfl
  · rw [World.unitOf_put, rows.insert_cols inserted]

theorem noteOne_ok (doc : Documented api) (synced : Synced w dest) {ci : ColumnInfo}
    (run : noteOne api src dest calls ci w = .ok noted w') :
    copyOne api src dest () ci w = .ok () w' ∧
      ∃ k, api.getColnum (w.unitOf (.table dest)).names ci.ttype = .ok k ∧
        noted = calls ++ [(ci.colnum, k)] := by
  obtain ⟨target, v, found, run⟩ := bind_ok.mp run
  obtain ⟨_, _, copies, run⟩ := bind_ok.mp run
  obtain ⟨rfl, rfl⟩ := pure_ok.mp run
  refine ⟨bind_ok.mpr ⟨target, v, found, copies⟩, ?_⟩
  obtain ⟨k, number, low, entry, _⟩ := colinfoByName_ok doc found
  exact ⟨k, number, by rw [colnum_of_synced synced low entry]⟩

theorem noting_calls (doc : Documented api) (apart : Apart w₀ src dest)
    (start : Copying src dest w₀ w h)
    (run : infos.foldlM (noteOne api src dest) [] w = .ok calls w') :
    ∃ h', Copying src dest w₀ w' h' ∧ h'.heads = h.heads ∧ h'.nrows = h.nrows ∧
      calls = infos.map (fun ci => (ci.colnum, number api h' ci.ttype)) ∧
      ∀ ci ∈ infos, ∃ k, api.getColnum h'.names ci.ttype = .ok k := by
  have all := loop_ok (I := fun done calls w₁ => ∃ h', Copying src dest w₀ w₁ h' ∧
      h'.heads = h.heads ∧ h'.nrows = h.nrows ∧
      calls = done.map (fun ci => (ci.colnum, number api h ci.ttype)) ∧
      ∀ ci ∈ done, ∃ k, api.getColnum h.names ci.ttype = .ok k) [] ?_
    ⟨h, start, rfl, rfl, rfl, by simp⟩ run
  · obtain ⟨h', copying, heads, nrows, noted, found⟩ := all
    refine ⟨h', copying, heads, nrows, ?_, ?_⟩
    · unfold number at noted ⊢
      rw [HduData.names_congr heads]
      exact noted
    · rw [HduData.names_congr heads]
      exact found
  rintro done ci calls w₁ _ w₂ ⟨h₁, copying, heads, nrows, rfl, found⟩ pass
  obtain ⟨copies, k, here, rfl⟩ := noteOne_ok doc copying.synced pass
  obtain ⟨_, h₂, _, copied, copying'⟩ := copyOne_copying doc apart copying copies
  rw [copying.destUnit, HduData.names_congr heads] at here
  obtain ⟨rows, _, same, _⟩ := copyCol_row doc copied
  refine ⟨h₂, copying', same.trans heads, rows.trans nrows, ?_, ?_⟩
  · rw [List.map_append, ← number_of_ok here]
    rfl
  · intro other member
    rcases List.mem_append.mp member with before | last
    · exact found other before
    · obtain rfl := List.mem_singleton.mp last
      exact ⟨k, here⟩

def rowsAfter (how : Nat) (names : List String) (source dest : Int) : Int :=
  if names ≠ [] ∧ (how &&& ColumnCopy.extendTable ≠ 0 ∨
      how &&& ColumnCopy.extendTableIfEmpty ≠ 0 ∧ dest = 0) then max dest source
  else dest

structure Ends (api : Cfitsio) (src dest how : Nat) (w₀ : World) (names : List String)
    (calls : List (Nat × Nat)) (infos news : List ColumnInfo) (h : HduData) : Prop where
  finds : List.Forall₂ (Finds api w₀ src) names infos
  made : List.Forall₂ (Finds api w₀ src) (asked how names (w₀.unitOf (.table dest)).names) news
  columns : h.names = kept how names (w₀.unitOf (.table dest)).names ++ news.map (fun ci => ci.ttype)
  calls : calls = infos.map (fun ci => (ci.colnum, number api h ci.ttype))
  found : ∀ ci ∈ infos, ∃ k, api.getColnum h.names ci.ttype = .ok k
  nrows : h.nrows = rowsAfter how names (w₀.unitOf (.table src)).nrows (w₀.unitOf (.table dest)).nrows

theorem rows_added (doc : Documented api) (nonempty : names ≠ []) {source h' : HduData}
    (rows : ¬Wanting how source h ∧ h' = h ∨ Wanting how source h ∧
      api.insertRows h.nrows (source.nrows - h.nrows) h = .ok () h') :
    h'.heads = h.heads ∧ h'.nrows = rowsAfter how names source.nrows h.nrows := by
  unfold rowsAfter Wanting at *
  rcases rows with ⟨enough, rfl⟩ | ⟨⟨fewer, flags⟩, inserted⟩
  · refine ⟨rfl, ?_⟩
    split
    · rename_i asks
      have most : ¬source.nrows > h'.nrows := fun fewer => enough ⟨fewer, asks.2⟩
      omega
    · rfl
  · have low : 0 ≤ source.nrows - h.nrows := by omega
    refine ⟨insert_rows_heads doc low inserted, ?_⟩
    rw [if_pos ⟨nonempty, flags⟩, (doc.insert_rows low inserted).2.1]
    omega

theorem noteColumns_ends (doc : Documented api) (lookup : Lookup api literal)
    (rows : KeepsRows api) (apart : Apart w₀ src dest) (numbered : Numbered w₀ dest)
    (unique : Unique foldCase (w₀.unitOf (.table dest)).names)
    (plain : ∀ name ∈ names, literal name)
    (run : noteColumns api order src dest names how w₀ = .ok calls w') :
    ∃ infos news h, w'.unitOf (.table dest) = h ∧
      Ends api src dest how w₀ names calls infos news h := by
  unfold noteColumns at run
  split at run
  · rename_i nothing
    obtain ⟨rfl, rfl⟩ := pure_ok.mp run
    subst nothing
    refine ⟨[], [], _, rfl, .nil, ?_, ?_, rfl, by simp, ?_⟩
    · unfold asked
      split <;> exact .nil
    · unfold kept
      simp
    · unfold rowsAfter
      simp
  · rename_i nonempty
    replace run := setAsChdu_bind_ok doc run
    replace run := setAsChdu_bind_ok doc run
    obtain ⟨plan, w₁, examines, run⟩ := bind_ok.mp run
    obtain ⟨_, w₂, creates, run⟩ := bind_ok.mp run
    obtain ⟨_, w₃, extends_, run⟩ := bind_ok.mp run
    obtain ⟨_, w₄, refreshes, notes⟩ := bind_ok.mp run
    have examined := examine_all doc apart.distinct examines
    have cleared := clear_all doc lookup rows apart.distinct numbered unique plain examines
    obtain ⟨news, made, form⟩ := examined.made
    rw [created_eq lookup unique plain] at made
    have rowsMade := createColumns_rows doc rows creates
    obtain ⟨h₁, stage₁⟩ := cleared.stage
    rw [form] at creates
    obtain ⟨h₂, stage₂, _, heads₂⟩ := createColumns_made doc apart.distinct stage₁ creates
    obtain ⟨h₃, stage₃, current, wanted⟩ := extendRows_apart doc apart stage₂ extends_
    obtain ⟨heads₃, nrows₃⟩ := rows_added doc nonempty wanted
    obtain ⟨h₄, copying, heads₄, nrows₄, noted, found⟩ :=
      noting_calls doc apart (refresh_copying doc apart stage₃ current refreshes) notes
    refine ⟨plan.srcCi, news, h₄, copying.destUnit, examined.finds, made, ?_, noted, found, ?_⟩
    · rw [HduData.names_heads, heads₄, heads₃, heads₂, List.map_append, List.map_map,
        ← HduData.names_heads, ← cleared.names, stage₁.destUnit]
      rfl
    · rw [nrows₄, nrows₃, ← stage₂.destUnit, rowsMade, cleared.nrows]

theorem found_map_iff {B : Type} (found : List.Forall₂ (Finds api w src) names infos)
    {f : String → B} {g : ColumnInfo → B} :
    infos.map g = names.map f ↔ ∀ name ∈ names, ∀ ci, Finds api w src name ci → g ci = f name := by
  induction found with
  | nil => simp
  | cons finds _ ih =>
    rename_i name ci names infos _
    rw [List.map_cons, List.map_cons, List.cons.injEq, ih, List.forall_mem_cons]
    refine and_congr_left (fun _ => ?_)
    constructor
    · intro same other finds'
      rw [← finds.unique finds']
      exact same
    · intro same
      exact same ci finds

theorem mem_of_finds (found : List.Forall₂ (Finds api w src) names infos) {name : String}
    (member : name ∈ names) {ci : ColumnInfo} (finds : Finds api w src name ci) : ci ∈ infos := by
  induction found with
  | nil => cases member
  | cons finds' _ ih =>
    rcases List.mem_cons.mp member with rfl | later
    · rw [finds.unique finds']
      exact List.mem_cons_self
    · exact List.mem_cons_of_mem _ (ih later)

/-- The destination has the columns, the calls were made and the rows are there
that the copy is for. -/
structure Copied (how : Nat) (names : List String) (source dest dest' : HduData)
    (calls : List (Nat × Nat)) : Prop where
  columns : dest'.names = kept how names dest.names ++ asked how names dest.names
  /-- one call for each name, between the columns of that name -/
  calls : calls = names.map (fun name =>
    (Keyed.place foldCase source.names (foldCase name),
      Keyed.place foldCase dest'.names (foldCase name)))
  nrows : dest'.nrows = rowsAfter how names source.nrows dest.nrows

/-- What the source's cache has for a name is the descriptor of the column of that
name. For a column that is only written over, letter case does not matter. -/
def Fresh (api : Cfitsio) (w : World) (src how : Nat) (names old : List String) : Prop :=
  ∀ name ∈ names, ∀ ci, Finds api w src name ci →
    foldCase ci.ttype = foldCase name ∧ (name ∈ asked how names old → ci.ttype = name)

theorem mem_kept_or_asked {old : List String} {name : String} (member : name ∈ names) :
    foldCase name ∈ (kept how names old ++ asked how names old).map foldCase := by
  unfold kept asked
  rw [List.map_append, List.mem_append]
  split
  · exact Or.inr (List.mem_map_of_mem member)
  · by_cases there : foldCase name ∈ old.map foldCase
    · exact Or.inl there
    · exact Or.inr (List.mem_map_of_mem (mem_without.mpr ⟨member, there⟩))

theorem asked_subset {old : List String} {name : String} (member : name ∈ asked how names old) :
    name ∈ names := by
  unfold asked at member
  split at member
  · exact member
  · exact (mem_without.mp member).1

theorem Unique.asked {old : List String} (distinct : Unique foldCase names) :
    Unique foldCase (asked how names old) := by
  unfold Table.asked
  split
  · exact distinct
  · exact distinct.without

theorem unique_kept_asked {old : List String} (unique : Unique foldCase old)
    (distinct : Unique foldCase (asked how names old)) :
    Unique foldCase (kept how names old ++ asked how names old) := by
  rw [unique_append]
  refine ⟨Unique.kept unique, distinct, ?_⟩
  unfold kept asked
  split
  · intro y second x first same
    exact (mem_without.mp first).2 (same ▸ List.mem_map_of_mem second)
  · intro y second x first same
    exact (mem_without.mp second).2 (same ▸ List.mem_map_of_mem first)

/-- The first place with the key of an entry is the first one with another key
only where the keys are the same. -/
theorem place_iff {xs : List String} (unique : Unique foldCase xs) {a b : String}
    (first : foldCase a ∈ xs.map foldCase) (second : foldCase b ∈ xs.map foldCase) :
    Keyed.place foldCase xs (foldCase a) = Keyed.place foldCase xs (foldCase b) ↔
      foldCase a = foldCase b := by
  refine ⟨fun same => ?_, fun same => by rw [same]⟩
  obtain ⟨x, there, key⟩ := List.mem_map.mp first
  obtain ⟨y, there', key'⟩ := List.mem_map.mp second
  obtain ⟨i, entry⟩ := List.mem_iff_getElem?.mp there
  obtain ⟨j, entry'⟩ := List.mem_iff_getElem?.mp there'
  rw [← key, ← key', unique.place entry, unique.place entry', Nat.add_right_cancel_iff] at same
  subst same
  cases entry.symm.trans entry'
  exact key.symm.trans key'

/-- The names of the columns tell them apart, and are taken for names. -/
structure Plain (literal : String → Prop) (w : World) (t : Nat) : Prop where
  unique : Unique foldCase (w.unitOf (.table t)).names
  header : ∀ name ∈ (w.unitOf (.table t)).names, literal name
  cache : ∀ ci ∈ (w.tables t).columns, literal ci.ttype
  numbered : Numbered w t

/-- A copy between two files that returns has made the columns, calls and rows that
it is for exactly when the source's cache knows the columns by their names. -/
theorem columns_copied_iff (doc : Documented api) (lookup : Lookup api literal)
    (rows : KeepsRows api) (apart : Apart w src dest) (source : Plain literal w src)
    (target : Plain literal w dest) (distinct : names.Nodup)
    (own : ∀ name ∈ names, name ∈ (w.unitOf (.table src)).names)
    {u : Unit} (run : copyColumns api order src dest names how w = .ok u w') :
    Copied how names (w.unitOf (.table src)) (w.unitOf (.table dest)) (w'.unitOf (.table dest))
        (copyCalls api order src dest names how w) ↔
      Fresh api w src how names (w.unitOf (.table dest)).names := by
  obtain ⟨infos, news, h, rfl, ends⟩ := noteColumns_ends doc lookup rows apart target.numbered
    target.unique (fun name member => source.header name (own name member)) (noted_of_copy run)
  have named : Unique foldCase names :=
    distinct.map_on (fun a first b second same =>
      List.inj_on_of_nodup_map source.unique (own a first) (own b second) same)
  have colnum : ∀ name ∈ names, ∀ ci, Finds api w src name ci →
      ci.colnum = Keyed.place foldCase (w.unitOf (.table src)).names (foldCase name) := by
    rintro name member ci ⟨k, found, low, entry⟩
    rw [← lookup.place source.unique (source.header name (own name member)) found,
      source.numbered _ _ entry]
    omega
  have plain : ∀ name ci, Finds api w src name ci → literal ci.ttype := by
    rintro name ci ⟨k, _, _, entry⟩
    exact source.cache ci (List.mem_of_getElem? entry)
  -- where each call goes, once the columns are those that were asked for
  have goes : (w'.unitOf (.table dest)).names = kept how names (w.unitOf (.table dest)).names ++
      asked how names (w.unitOf (.table dest)).names →
      ∀ name ∈ names, ∀ ci, Finds api w src name ci →
        (number api (w'.unitOf (.table dest)) ci.ttype =
            Keyed.place foldCase (w'.unitOf (.table dest)).names (foldCase name) ↔
          foldCase ci.ttype = foldCase name) := by
    intro columns name member ci finds
    have unique : Unique foldCase (w'.unitOf (.table dest)).names := by
      rw [columns]
      exact unique_kept_asked target.unique (Unique.asked named)
    obtain ⟨k, found⟩ := ends.found ci (mem_of_finds ends.finds member finds)
    rw [number_of_ok found, lookup.place unique (plain name ci finds) found]
    refine place_iff unique (lookup.member unique (plain name ci finds) found) ?_
    rw [columns]
    exact mem_kept_or_asked member
  constructor
  · rintro ⟨columns, calls, _⟩ name member ci finds
    have made : news.map (fun ci => ci.ttype) =
        (asked how names (w.unitOf (.table dest)).names).map id := by
      rw [List.map_id]
      exact List.append_cancel_left (ends.columns.symm.trans columns)
    have pair := (found_map_iff ends.finds).mp (ends.calls.symm.trans calls) name member ci finds
    have into := (goes columns name member ci finds).mp (Prod.mk.inj pair).2
    exact ⟨into, fun new => (found_map_iff ends.made).mp made name new ci finds⟩
  · intro fresh
    have made : news.map (fun ci => ci.ttype) =
        (asked how names (w.unitOf (.table dest)).names).map id :=
      (found_map_iff ends.made).mpr
        (fun name new ci finds => (fresh name (asked_subset new) ci finds).2 new)
    rw [List.map_id] at made
    have columns := ends.columns
    rw [made] at columns
    refine ⟨columns, ?_, ends.nrows⟩
    rw [ends.calls]
    refine (found_map_iff ends.finds).mpr (fun name member ci finds => ?_)
    exact Prod.ext (colnum name member ci finds)
      ((goes columns name member ci finds).mpr (fresh name member ci finds).1)

end Stages

end Table

namespace Reference

theorem numberFrom_iff {names : List String} {t : List Char} {k n : Nat}
    (unique : Unique foldCase names) : numberFrom k t names = .ok n ↔
      k ≤ n ∧ ∃ name, names[n - k]? = some name ∧ foldCase name = t := by
  induction names generalizing k with
  | nil => simp [numberFrom]
  | cons name names ih =>
    obtain ⟨apart, later⟩ :=
      List.nodup_cons.mp (show (foldCase name :: names.map foldCase).Nodup from unique)
    rw [numberFrom]
    split
    · rename_i same
      constructor
      · intro found
        cases found
        exact ⟨Nat.le_refl _, name, by simp, same⟩
      · rintro ⟨low, other, entry, same'⟩
        cases place : n - k with
        | zero => rw [show n = k by omega]
        | succ i =>
          rw [place, List.getElem?_cons_succ] at entry
          refine absurd (List.mem_map.mpr ⟨other, List.mem_of_getElem? entry, ?_⟩) apart
          rw [same', same]
    · rename_i differs
      rw [ih later]
      constructor
      · rintro ⟨low, other, entry, same⟩
        refine ⟨by omega, other, ?_, same⟩
        rwa [show n - k = n - (k + 1) + 1 by omega, List.getElem?_cons_succ]
      · rintro ⟨low, other, entry, same⟩
        cases place : n - k with
        | zero =>
          rw [place, List.getElem?_cons_zero, Option.some.injEq] at entry
          exact absurd (entry ▸ same) differs
        | succ i =>
          rw [place, List.getElem?_cons_succ] at entry
          refine ⟨by omega, other, ?_, same⟩
          rwa [show n - (k + 1) = i by omega]

theorem lookup : Lookup api (fun _ => True) := ⟨fun unique _ => numberFrom_iff unique⟩

theorem keepsRows : KeepsRows api where
  delete_col run := by
    simp only [api, deleteCol] at run
    split at run
    · cases run
      rfl
    · cases run
  insert_cols run := by
    obtain ⟨_, _, rfl⟩ := insertCols_ok run
    rfl

end Reference

namespace Table

theorem numbered_of_colnums {w : World} {t : Nat} (all : (w.tables t).columns.map (fun ci => ci.colnum) =
    List.range' 1 (w.tables t).columns.length) : Numbered w t := by
  intro i ci entry
  have place : ((w.tables t).columns.map (fun ci => ci.colnum))[i]? = some ci.colnum := by
    rw [List.getElem?_map, entry]
    rfl
  obtain ⟨inside, _⟩ := List.getElem?_eq_some_iff.mp entry
  rw [all, List.getElem?_range' inside, Option.some.injEq] at place
  omega

theorem plain_of_colnums {w : World} {t : Nat} (unique : Unique foldCase (w.unitOf (.table t)).names)
    (all : (w.tables t).columns.map (fun ci => ci.colnum) =
      List.range' 1 (w.tables t).columns.length) : Plain (fun _ => True) w t :=
  ⟨unique, fun _ _ => trivial, fun _ _ => trivial, numbered_of_colnums all⟩

theorem ttype_of_found {api : Cfitsio} {w : World} {t k : Nat} {name : String} {ci : ColumnInfo}
    (number : api.getColnum (w.unitOf (.table t)).names name = .ok k)
    (entry : ((w.tables t).columns[k - 1]?).map (fun ci => ci.ttype) = some name)
    (finds : Finds api w t name ci) : ci.ttype = name := by
  obtain ⟨k', number', _, entry'⟩ := finds
  cases number.symm.trans number'
  rw [entry'] at entry
  exact Option.some.inj entry

def twoFiles (a b c d : String) : World :=
  let byte := fun ttype => Reference.column ttype .byte 1 1
  after (refresh Reference.api 2 (after (refresh Reference.api 0
    (Reference.world (Reference.table [byte a, byte b] 2) Reference.primary
      (Reference.table [byte c, byte d] 0)))))

def replacedAndMade : World :=
  after (copyColumns Reference.api .destLast 0 2 ["B", "A"]
    (ColumnCopy.replace ||| ColumnCopy.extendTable) (twoFiles "A" "B" "C" "a"))

theorem replaced_and_made :
    Copied (ColumnCopy.replace ||| ColumnCopy.extendTable) ["B", "A"]
      ((twoFiles "A" "B" "C" "a").unitOf (.table 0)) ((twoFiles "A" "B" "C" "a").unitOf (.table 2))
      (replacedAndMade.unitOf (.table 2))
      (copyCalls Reference.api .destLast 0 2 ["B", "A"]
        (ColumnCopy.replace ||| ColumnCopy.extendTable) (twoFiles "A" "B" "C" "a")) := by
  have source : Plain (fun _ => True) (twoFiles "A" "B" "C" "a") 0 :=
    plain_of_colnums (by decide +kernel) (by decide +kernel)
  have target : Plain (fun _ => True) (twoFiles "A" "B" "C" "a") 2 :=
    plain_of_colnums (by decide +kernel) (by decide +kernel)
  have apart : Apart (twoFiles "A" "B" "C" "a") 0 2 := by
    unfold Apart
    decide +kernel
  have run : copyColumns Reference.api .destLast 0 2 ["B", "A"]
      (ColumnCopy.replace ||| ColumnCopy.extendTable) (twoFiles "A" "B" "C" "a") =
        .ok () replacedAndMade := ok_of_returned (by decide +kernel)
  refine (columns_copied_iff Reference.documented Reference.lookup Reference.keepsRows apart source
    target (by decide) (by decide +kernel) run).mpr (fun name member ci finds => ?_)
  have same : ci.ttype = name := by
    rcases List.mem_pair.mp member with rfl | rfl
    · exact ttype_of_found (k := 2) (by decide +kernel) (by decide +kernel) finds
    · exact ttype_of_found (k := 1) (by decide +kernel) (by decide +kernel) finds
  exact ⟨by rw [same], fun _ => same⟩

def staleSource : World := after (deleteColumnByName Reference.api 0 "A" (twoFiles "A" "B" "C" "D"))

def staleCopied : World :=
  after (copyColumns Reference.api .destLast 0 2 ["B"] ColumnCopy.noDuplicates staleSource)

/-- The column that is left is copied under the name of the lost one. -/
theorem stale_not_copied :
    Apart staleSource 0 2 ∧ Plain (fun _ => True) staleSource 0 ∧
    Plain (fun _ => True) staleSource 2 ∧ "B" ∈ (staleSource.unitOf (.table 0)).names ∧
    copyColumns Reference.api .destLast 0 2 ["B"] ColumnCopy.noDuplicates staleSource =
      .ok () staleCopied ∧
    (staleCopied.unitOf (.table 2)).names = ["C", "D", "A"] ∧
    ¬Copied ColumnCopy.noDuplicates ["B"] (staleSource.unitOf (.table 0))
      (staleSource.unitOf (.table 2)) (staleCopied.unitOf (.table 2))
      (copyCalls Reference.api .destLast 0 2 ["B"] ColumnCopy.noDuplicates staleSource) := by
  have names : (staleCopied.unitOf (.table 2)).names = ["C", "D", "A"] := by decide +kernel
  refine ⟨?_, plain_of_colnums (by decide +kernel) (by decide +kernel),
    plain_of_colnums (by decide +kernel) (by decide +kernel), by decide +kernel,
    ok_of_returned (by decide +kernel), names, fun copied => ?_⟩
  · unfold Apart
    decide +kernel
  · have columns := copied.columns
    rw [names] at columns
    exact absurd columns (by decide +kernel)

end Table
end MisFITS
