import MisFITS.Composed
import MisFITS.CopiedColumns

/-! The names of the destination's columns after `copy_columns`, whether it returns
or throws: what the loop over the names leaves of them, and what it creates. -/
namespace MisFITS
open Program Keyed

/-- What the calls below `copy_columns` do to the names of the columns: columns are
inserted as they are given, a deletion that fails takes none away, and the calls about
rows and cells change none. -/
structure EditsColumns (api : Cfitsio) : Prop where
  delete_col : ∀ {h h' : HduData} {k : Nat} {status : Status},
    api.deleteCol k h = .error status h' → h'.names = h.names
  insert_cols : ∀ {h : HduData} {k : Nat} {made : List (String × Nat × ColumnType.Spec)},
    (∀ m ∈ made, 1 ≤ m.2.1) → 1 ≤ k → k ≤ h.cols.length + 1 →
    ∃ h', api.insertCols k (made.map fun m => (m.1, tformText m.2.1 m.2.2.code)) h = .ok () h'
  insert_rows : ∀ first n h, (after (api.insertRows first n h)).names = h.names
  copy_col : ∀ source a b h, (after (api.copyCol source a b h)).names = h.names

/-- Where `fits_delete_col` deletes every column that there is. -/
def Deletes (api : Cfitsio) : Prop := ∀ (h : HduData) (k : Nat), 1 ≤ k → k ≤ h.cols.length →
  ∃ h', api.deleteCol k h = .ok () h'

namespace Table
open HDU

section Requests

variable (api : Cfitsio) (how : Nat) (w : World) (src dest : Nat)

/-- The names in the header of the source while the destination has these. The two
may be tables over one header-data unit. -/
def sourceNames (left : List String) : List String :=
  if (w.base (.table src)).file = (w.base (.table dest)).file ∧
      (w.base (.table src)).hduNum = (w.base (.table dest)).hduNum then left
  else (w.unitOf (.table src)).names

def Stands (left : List String) (name : String) (ci : ColumnInfo) : Prop :=
  ∃ k, api.getColnum (sourceNames w src dest left) name = .ok k ∧
    (w.tables src).columns[k - 1]? = some ci

/-- A name that ends the loop over the names: the source lacks it or has no descriptor
for it, or the destination has it, and the mode allows no other one, or is none, or
is to replace it and the destination has no descriptor for it. -/
def Stops (left : List String) (name : String) : Prop :=
  (∀ ci, ¬Stands api w src dest left name ci) ∨
    ∃ k, api.getColnum left name = .ok k ∧
      how &&& ColumnCopy.flagMask ≠ ColumnCopy.overWrite ∧
      (how &&& ColumnCopy.flagMask = ColumnCopy.replace →
        (w.tables dest).columns.length < k)

/-- One of the names ends the loop, with the destination's columns that the names
before it have left. -/
def Stopped (names : List String) : Prop :=
  ∃ before name behind, names = before ++ name :: behind ∧
    Stops api how w src dest (kept how before (w.unitOf (.table dest)).names) name

/-- The source's descriptor for each name that is to be created bears that name, in
either letter case. -/
def Borne (names : List String) : Prop :=
  ∀ before name behind, names = before ++ name :: behind →
    name ∈ asked how [name] (w.unitOf (.table dest)).names →
    ∀ ci, Stands api w src dest (kept how before (w.unitOf (.table dest)).names) name ci →
      foldCase ci.ttype = foldCase name

variable {api how w src dest} {names done : List String} {name : String}

theorem Stopped.append (stopped : Stopped api how w src dest done) (names : List String) :
    Stopped api how w src dest (done ++ names) := by
  obtain ⟨before, name, behind, rfl, stops⟩ := stopped
  exact ⟨before, name, behind ++ names, by simp, stops⟩

theorem stopped_concat : Stopped api how w src dest (done ++ [name]) ↔
    Stopped api how w src dest done ∨
      Stops api how w src dest (kept how done (w.unitOf (.table dest)).names) name := by
  constructor
  · rintro ⟨before, n, behind, split, stops⟩
    rcases List.eq_nil_or_concat behind with rfl | ⟨behind, m, rfl⟩
    · obtain ⟨rfl, rfl⟩ := List.append_singleton_inj.mp split
      exact Or.inr stops
    · rw [List.concat_eq_append, ← List.cons_append, ← List.append_assoc] at split
      obtain ⟨rfl, _⟩ := List.append_singleton_inj.mp split
      exact Or.inl ⟨before, n, behind, rfl, stops⟩
  · rintro (stopped | stops)
    · exact stopped.append [name]
    · exact ⟨done, name, [], rfl, stops⟩

theorem Borne.init (borne : Borne api how w src dest (done ++ [name])) :
    Borne api how w src dest done := by
  intro before n behind split new ci stands
  exact borne before n (behind ++ [name]) (by simp [split]) new ci stands

theorem asked_append (names more old : List String) :
    asked how (names ++ more) old = asked how names old ++ asked how more old := by
  unfold asked without
  split
  · rfl
  · exact List.filter_append names more

theorem asked_absent {old : List String} (absent : foldCase name ∉ (kept how done old).map foldCase) :
    asked how [name] old = [name] := by
  unfold asked kept at *
  split
  · rfl
  · rename_i mode
    rw [if_neg mode] at absent
    rw [without_cons, if_neg absent]
    rfl

theorem asked_present (mode : ¬how &&& ColumnCopy.flagMask = ColumnCopy.replace) {old : List String}
    (present : foldCase name ∈ old.map foldCase) : asked how [name] old = [] := by
  unfold asked
  rw [if_neg mode, without_cons, if_pos present]
  rfl

end Requests

section Runs

variable {api : Cfitsio} {order : ArgOrder} {how : Nat} {w w₀ w' : World} {src dest t : Nat}
  {name : String} {names done : List String} {ci : ColumnInfo} {plan : CopyPlan} {k : Nat}

theorem hasColumn_of_attached (doc : Documented api) (own : w.Attached (.table t)) (templt : String) :
    hasColumn api t templt w = .ok (Has api (w.unitOf (.table t)) templt) (w.onto (.table t)) :=
  readOwn_of_attached doc own rfl

theorem colinfoByName_of_attached (doc : Documented api) (own : w.Attached (.table t))
    (found : api.getColnum (w.unitOf (.table t)).names name = .ok k) :
    colinfoByName api t name w =
      ofExcept (atNumber (w.tables t).columns k) (w.onto (.table t)) := by
  unfold colinfoByName
  rw [bind_of_ok (readOwn_of_attached doc own found)]
  rfl

theorem examine_missing (doc : Documented api) (own : w.Attached (.table src))
    (missing : ∀ k ci, api.getColnum (w.unitOf (.table src)).names name = .ok k →
      (w.tables src).columns[k - 1]? ≠ some ci) :
    ∃ e, examine api src dest how plan name w = .error e (w.onto (.table src)) := by
  unfold examine
  rw [bind_of_ok (hasColumn_of_attached doc own name)]
  unfold Has
  cases found : api.getColnum (w.unitOf (.table src)).names name with
  | error status => exact ⟨_, rfl⟩
  | ok k =>
    have looks := colinfoByName_of_attached doc (World.attached_onto.mpr own)
      (w := w.onto (.table src)) (by rw [World.unitOf_onto]; exact found)
    have absent : atNumber (w.tables src).columns k = .error .outOfRange := by
      have low := (doc.colnum_range found).1
      unfold atNumber
      rw [if_neg (by omega)]
      cases entry : (w.tables src).columns[k - 1]? with
      | none => rfl
      | some ci => exact absurd entry (missing k ci found)
    rw [World.tables_onto, absent, World.onto_onto] at looks
    exact ⟨_, bind_of_error looks _⟩

theorem colinfoByName_found (doc : Documented api) (own : w.Attached (.table t))
    (found : api.getColnum (w.unitOf (.table t)).names name = .ok k)
    (entry : (w.tables t).columns[k - 1]? = some ci) :
    colinfoByName api t name w = .ok ci (w.onto (.table t)) := by
  rw [colinfoByName_of_attached doc own found]
  exact ofExcept_ok.mpr ⟨atNumber_ok.mpr ⟨(doc.colnum_range found).1, entry⟩, rfl⟩

theorem examine_found (doc : Documented api) (ownSrc : w.Attached (.table src))
    (ownDest : w.Attached (.table dest))
    (found : api.getColnum (w.unitOf (.table src)).names name = .ok k)
    (entry : (w.tables src).columns[k - 1]? = some ci) :
    examine api src dest how plan name w =
      (if Has api (w.unitOf (.table dest)) name = false then pure (plan.creates ci)
      else if how &&& ColumnCopy.flagMask = ColumnCopy.noDuplicates then
        throw (.assert ("destination table already has a column named '" ++ name ++ "'"))
      else if how &&& ColumnCopy.flagMask = ColumnCopy.replace then do
        deleteColumnByName api dest name
        return plan.creates ci
      else if how &&& ColumnCopy.flagMask = ColumnCopy.overWrite then
        return plan.overwrites ci
      else throw (.assert "uknown misFITS::ColumnCopy flag") : M CopyPlan)
        ((w.onto (.table src)).onto (.table dest)) := by
  have has : Has api (w.unitOf (.table src)) name = true := by
    rw [Has, found]
    rfl
  have looks : colinfoByName api src name (w.onto (.table src)) = .ok ci (w.onto (.table src)) := by
    have looks := colinfoByName_found doc (World.attached_onto.mpr ownSrc)
      (w := w.onto (.table src)) (by rw [World.unitOf_onto]; exact found) entry
    rwa [World.onto_onto] at looks
  have asks := hasColumn_of_attached doc (w := w.onto (.table src))
    (World.attached_onto.mpr ownDest) name
  rw [World.unitOf_onto] at asks
  unfold examine
  rw [bind_of_ok (hasColumn_of_attached doc ownSrc name), has, check_of_not (by decide)]
  change (colinfoByName api src name >>= _) (w.onto (.table src)) = _
  rw [bind_of_ok looks, bind_of_ok asks]
  cases Has api (w.unitOf (.table dest)) name <;> rfl

structure Left (w₀ : World) (src dest : Nat) (left : List String) (w : World) : Prop where
  tables : w.tables = w₀.tables
  ownSrc : w.Attached (.table src)
  ownDest : w.Attached (.table dest)
  names : (w.unitOf (.table dest)).names = left
  source : (w.unitOf (.table src)).names = sourceNames w₀ src dest left

variable {left : List String}

theorem Left.start (ownSrc : w.Attached (.table src)) (ownDest : w.Attached (.table dest)) :
    Left w src dest (w.unitOf (.table dest)).names w := by
  refine ⟨rfl, ownSrc, ownDest, rfl, ?_⟩
  unfold sourceNames
  split
  · rename_i same
    unfold World.unitOf
    rw [same.1, same.2]
  · rfl

theorem Left.base (held : Left w₀ src dest left w) : w.base (.table t) = w₀.base (.table t) :=
  congrArg (fun tables => (tables t).toHDU) held.tables

theorem Left.onto (held : Left w₀ src dest left w) (o : Obj) :
    Left w₀ src dest left (w.onto o) where
  tables := held.tables
  ownSrc := World.attached_onto.mpr held.ownSrc
  ownDest := World.attached_onto.mpr held.ownDest
  names := by simpa using held.names
  source := by simpa using held.source

theorem Left.put (held : Left w₀ src dest left w) (h : HduData) :
    Left w₀ src dest h.names (w.put (.table dest) h) where
  tables := held.tables
  ownSrc := World.attached_put.mpr held.ownSrc
  ownDest := World.attached_put.mpr held.ownDest
  names := by rw [World.unitOf_put]
  source := by
    have before := held.source
    unfold sourceNames at before ⊢
    rw [← held.base (t := src), ← held.base (t := dest)] at before ⊢
    split
    · rename_i same
      have here : (w.put (.table dest) h).unitOf (.table src) =
          (w.put (.table dest) h).unitOf (.table dest) := by
        unfold World.unitOf
        rw [World.base_put, World.base_put, same.1, same.2]
      rw [here, World.unitOf_put]
    · rename_i other
      rw [if_neg other] at before
      rw [World.unitOf_put_ne (fun file hduNum => other ⟨file, hduNum⟩), before]

theorem Left.stands_iff (held : Left w₀ src dest left w) : Stands api w₀ src dest left name ci ↔
    ∃ k, api.getColnum (w.unitOf (.table src)).names name = .ok k ∧
      (w.tables src).columns[k - 1]? = some ci := by
  unfold Stands
  rw [held.source, held.tables]

theorem deleteColumnByName_found (doc : Documented api) (own : w.Attached (.table t))
    (found : api.getColnum (w.unitOf (.table t)).names name = .ok k)
    (entry : (w.tables t).columns[k - 1]? = some ci) (colnum : ci.colnum = k) :
    (∃ h, api.deleteCol k (w.unitOf (.table t)) = .ok () h ∧
      deleteColumnByName api t name w = .ok () (w.put (.table t) h)) ∨
    ∃ status h, api.deleteCol k (w.unitOf (.table t)) = .error status h ∧
      deleteColumnByName api t name w = .error (.cfitsio status) (w.put (.table t) h) := by
  have looks := colinfoByName_found doc (World.attached_onto.mpr own)
    (w := w.onto (.table t)) (by rw [World.unitOf_onto]; exact found) entry
  rw [World.onto_onto] at looks
  unfold deleteColumnByName
  rw [bind_of_ok (setAsChdu_of_attached doc own), bind_of_ok looks, colnum]
  have put : ∀ h, (w.onto (.table t)).putUnit ((w.onto (.table t)).base (.table t)).file
      ((w.onto (.table t)).files ((w.onto (.table t)).base (.table t)).file).chdu h =
        w.put (.table t) h := by
    intro h
    simp [World.put, World.onto]
  have calls : onFile (.table t) (editChdu · (api.deleteCol k)) (w.onto (.table t)) =
      editChdu ((w.onto (.table t)).base (.table t)).file (api.deleteCol k) (w.onto (.table t)) := rfl
  rw [calls]
  cases edit : api.deleteCol k (w.unitOf (.table t)) with
  | ok _ h =>
    refine Or.inl ⟨h, rfl, editChdu_ok.mpr ⟨h, ?_, (put h).symm⟩⟩
    rw [World.base_onto, World.current_onto]
    exact edit
  | error status h =>
    refine Or.inr ⟨status, h, rfl, ?_⟩
    rw [editChdu, World.base_onto, World.current_onto, edit, ← put h, World.base_onto]

theorem deleteColumnByName_missing (doc : Documented api) (own : w.Attached (.table t))
    (found : api.getColnum (w.unitOf (.table t)).names name = .ok k)
    (few : (w.tables t).columns.length < k) :
    deleteColumnByName api t name w = .error .outOfRange (w.onto (.table t)) := by
  have looks := colinfoByName_of_attached doc (World.attached_onto.mpr own)
    (w := w.onto (.table t)) (by rw [World.unitOf_onto]; exact found)
  have absent : atNumber (w.tables t).columns k = .error .outOfRange := by
    unfold atNumber
    rw [if_neg (by omega), List.getElem?_eq_none (by omega)]
  rw [World.tables_onto, absent, World.onto_onto] at looks
  unfold deleteColumnByName
  rw [bind_of_ok (setAsChdu_of_attached doc own)]
  exact bind_of_error looks _

theorem Left.deletes (doc : Documented api) (edits : EditsColumns api)
    (numbered : Numbered w₀ dest) (held : Left w₀ src dest left w)
    (found : api.getColnum left name = .ok k) (cached : k ≤ (w₀.tables dest).columns.length) :
    (∃ w', deleteColumnByName api dest name w = .ok () w' ∧
      Left w₀ src dest (left.eraseIdx (k - 1)) w') ∨
    ¬Deletes api ∧ ∃ e w', deleteColumnByName api dest name w = .error e w' ∧
      Left w₀ src dest left w' := by
  have range := doc.colnum_range found
  have there : k - 1 < (w₀.tables dest).columns.length := by omega
  have entry : (w.tables dest).columns[k - 1]? = some (w₀.tables dest).columns[k - 1] := by
    rw [held.tables]
    exact List.getElem?_eq_getElem there
  have colnum := numbered _ _ (List.getElem?_eq_getElem there)
  rcases deleteColumnByName_found doc held.ownDest (by rw [held.names]; exact found) entry
    (by omega) with ⟨h, deleted, runs⟩ | ⟨status, h, failed, runs⟩
  · obtain ⟨_, _, cols, _⟩ := doc.delete_col deleted
    have names : h.names = left.eraseIdx (k - 1) := by
      rw [HduData.names, cols, ← List.eraseIdx_map, ← held.names]
      rfl
    exact Or.inl ⟨_, runs, names ▸ held.put h⟩
  · have names : h.names = left := (edits.delete_col failed).trans held.names
    refine Or.inr ⟨fun deletes => ?_, _, _, runs, names ▸ held.put h⟩
    have inside : k ≤ (w.unitOf (.table dest)).cols.length := by
      have count := congrArg List.length held.names
      rw [HduData.names, List.length_map] at count
      rw [count]
      exact range.2
    obtain ⟨_, deleted⟩ := deletes _ k range.1 inside
    rw [failed] at deleted
    cases deleted

variable (api how w₀ src dest) in
def Planned (done : List String) (plan : CopyPlan) : Prop :=
  ∃ infos : List ColumnInfo, plan.made = infos.map (fun ci => (ci.ttype, ci.tform)) ∧
    (Borne api how w₀ src dest done → infos.map (fun ci => foldCase ci.ttype) =
      (asked how done (w₀.unitOf (.table dest)).names).map foldCase)

theorem Planned.creates (planned : Planned api how w₀ src dest done plan)
    (new : asked how [name] (w₀.unitOf (.table dest)).names = [name])
    (stands : Stands api w₀ src dest (kept how done (w₀.unitOf (.table dest)).names) name ci) :
    Planned api how w₀ src dest (done ++ [name]) (plan.creates ci) := by
  obtain ⟨infos, made, names⟩ := planned
  refine ⟨infos ++ [ci], by simp [CopyPlan.creates, made], fun borne => ?_⟩
  have same := borne done name [] rfl (by rw [new]; exact List.mem_singleton_self name) ci stands
  rw [asked_append, new, List.map_append, List.map_append, names borne.init]
  simp [same]

theorem Planned.overwrites (planned : Planned api how w₀ src dest done plan)
    (old : asked how [name] (w₀.unitOf (.table dest)).names = []) :
    Planned api how w₀ src dest (done ++ [name]) (plan.overwrites ci) := by
  obtain ⟨infos, made, names⟩ := planned
  refine ⟨infos, made, fun borne => ?_⟩
  rw [asked_append, old, List.append_nil]
  exact names borne.init

variable (api how w₀ src dest) in
structure Surveyed (done : List String) (plan : CopyPlan) (w : World) : Prop where
  left : Left w₀ src dest (kept how done (w₀.unitOf (.table dest)).names) w
  planned : Planned api how w₀ src dest done plan
  passed : ¬Stopped api how w₀ src dest done

/-- A name that stops the loop throws, and no column is deleted for it. -/
theorem examine_stops (doc : Documented api) (plan : CopyPlan) (held : Left w₀ src dest left w)
    (stops : Stops api how w₀ src dest left name) :
    ∃ e w', examine api src dest how plan name w = .error e w' ∧ Left w₀ src dest left w' := by
  by_cases known : ∃ ci, Stands api w₀ src dest left name ci
  · obtain ⟨ci, stands⟩ := known
    obtain ⟨k, number, entry⟩ := held.stands_iff.mp stands
    rcases stops with missing | ⟨j, found, mode, few⟩
    · exact absurd stands (missing ci)
    have both := (held.onto (.table src)).onto (.table dest)
    rw [examine_found doc held.ownSrc held.ownDest number entry, Has, held.names, found,
      if_neg (by simp [Except.isOk, Except.toBool])]
    split
    · exact ⟨_, _, rfl, both⟩
    · split
      · rename_i replace
        have few' : (((w.onto (.table src)).onto (.table dest)).tables dest).columns.length < j := by
          rw [both.tables]
          exact few replace
        have thrown := deleteColumnByName_missing doc both.ownDest
          (by rw [both.names]; exact found) few'
        exact ⟨_, _, bind_of_error thrown _, both.onto (.table dest)⟩
      · exact ⟨_, _, rfl, both⟩
  · have missing : ∀ k ci, api.getColnum (w.unitOf (.table src)).names name = .ok k →
        (w.tables src).columns[k - 1]? ≠ some ci :=
      fun k ci number entry => known ⟨ci, held.stands_iff.mpr ⟨k, number, entry⟩⟩
    obtain ⟨e, runs⟩ := examine_missing doc held.ownSrc missing
    exact ⟨e, _, runs, held.onto (.table src)⟩

/-- A name that does not stop it is taken, unless its deletion fails. -/
theorem examine_takes {literal : String → Prop} (doc : Documented api)
    (lookup : Lookup api literal) (edits : EditsColumns api) (numbered : Numbered w₀ dest)
    (unique : Unique foldCase (w₀.unitOf (.table dest)).names) (plain : literal name)
    (held : Surveyed api how w₀ src dest done plan w)
    (allowed : ¬Stops api how w₀ src dest (kept how done (w₀.unitOf (.table dest)).names) name) :
    (∃ plan' w', examine api src dest how plan name w = .ok plan' w' ∧
      Surveyed api how w₀ src dest (done ++ [name]) plan' w') ∨
    ¬Deletes api ∧ ∃ e w', examine api src dest how plan name w = .error e w' ∧
      Left w₀ src dest (kept how done (w₀.unitOf (.table dest)).names) w' := by
  have rest : Unique foldCase (kept how done (w₀.unitOf (.table dest)).names) := Unique.kept unique
  have passed : ¬Stopped api how w₀ src dest (done ++ [name]) :=
    fun stopped => (stopped_concat.mp stopped).elim held.passed allowed
  obtain ⟨ci, stands⟩ := not_forall_not.mp (fun missing => allowed (Or.inl missing))
  obtain ⟨k, number, entry⟩ := held.left.stands_iff.mp stands
  have both := (held.left.onto (.table src)).onto (.table dest)
  rw [examine_found doc held.left.ownSrc held.left.ownDest number entry, Has, held.left.names]
  cases found : api.getColnum (kept how done (w₀.unitOf (.table dest)).names) name with
  | error status =>
    have absent := (lookup.absent_iff rest plain).mp (by rw [found]; rfl)
    have same := kept_absent absent
    refine Or.inl ⟨_, _, rfl, same.symm ▸ both, held.planned.creates ?_ stands, passed⟩
    exact asked_absent absent
  | ok j =>
    obtain ⟨_, n, there, same⟩ := (lookup.finds rest plain).mp found
    rw [if_neg (by simp [Except.isOk, Except.toBool])]
    by_cases replace : how &&& ColumnCopy.flagMask = ColumnCopy.replace
    · have cached : j ≤ (w₀.tables dest).columns.length := by
        by_contra few
        refine allowed (Or.inr ⟨j, found, by rw [replace]; decide, fun _ => by omega⟩)
      have erased : (kept how done (w₀.unitOf (.table dest)).names).eraseIdx (j - 1) =
          kept how (done ++ [name]) (w₀.unitOf (.table dest)).names := by
        rw [kept_append replace, ← same, rest.eraseIdx there]
      rw [if_neg (by rw [replace]; decide), if_pos replace]
      rcases both.deletes doc edits numbered found cached with ⟨w', runs, left⟩ |
        ⟨fails, e, w', runs, left⟩
      · refine Or.inl ⟨_, w', bind_ok.mpr ⟨(), _, runs, rfl⟩, erased ▸ left,
          held.planned.creates ?_ stands, passed⟩
        unfold asked
        rw [if_pos replace]
      · exact Or.inr ⟨fails, e, w', bind_of_error runs _, left⟩
    · have mode : how &&& ColumnCopy.flagMask = ColumnCopy.overWrite := by
        by_contra other
        exact allowed (Or.inr ⟨j, found, other, fun is => absurd is replace⟩)
      have stays : ∀ names : List String, kept how names (w₀.unitOf (.table dest)).names =
          (w₀.unitOf (.table dest)).names := fun _ => if_neg replace
      rw [if_neg (by rw [mode]; decide), if_neg replace, if_pos mode]
      rw [stays] at there both
      refine Or.inl ⟨_, _, rfl, (stays (done ++ [name])).symm ▸ both, held.planned.overwrites ?_,
        passed⟩
      exact asked_present replace (List.mem_map.mpr ⟨n, List.mem_of_getElem? there, same⟩)

/-- The loop throws, and leaves the names that there were, or takes all names. -/
theorem examine_loop {literal : String → Prop} (doc : Documented api)
    (lookup : Lookup api literal) (edits : EditsColumns api) (numbered : Numbered w₀ dest)
    (unique : Unique foldCase (w₀.unitOf (.table dest)).names)
    (plain : ∀ name ∈ names, literal name) (held : Surveyed api how w₀ src dest done plan w) :
    (∃ e w', names.foldlM (examine api src dest how) plan w = .error e w' ∧
      Unique foldCase (w'.unitOf (.table dest)).names ∧
      (Deletes api → Stopped api how w₀ src dest (done ++ names))) ∨
    ∃ plan' w', names.foldlM (examine api src dest how) plan w = .ok plan' w' ∧
      Surveyed api how w₀ src dest (done ++ names) plan' w' := by
  induction names generalizing done plan w with
  | nil => exact Or.inr ⟨plan, w, rfl, by rwa [List.append_nil]⟩
  | cons name names ih =>
    have differ : ∀ {w' : World}, Left w₀ src dest
        (kept how done (w₀.unitOf (.table dest)).names) w' →
        Unique foldCase (w'.unitOf (.table dest)).names := by
      intro w' left
      rw [left.names]
      exact Unique.kept unique
    rw [List.foldlM_cons]
    by_cases stops : Stops api how w₀ src dest (kept how done (w₀.unitOf (.table dest)).names) name
    · obtain ⟨e, w', thrown, left⟩ := examine_stops doc plan held.left stops
      exact Or.inl ⟨e, w', bind_of_error thrown _, differ left,
        fun _ => ⟨done, name, names, rfl, stops⟩⟩
    · rcases examine_takes doc lookup edits numbered unique (plain name List.mem_cons_self) held
        stops with ⟨plan', w', runs, taken⟩ | ⟨fails, e, w', thrown, left⟩
      · rw [bind_of_ok runs, List.append_cons]
        exact ih (fun n member => plain n (List.mem_cons_of_mem _ member)) taken
      · exact Or.inl ⟨e, w', bind_of_error thrown _, differ left, fun deletes => absurd deletes fails⟩

end Runs

def SameNames (t : Nat) (w w' : World) : Prop :=
  (w'.unitOf (.table t)).names = (w.unitOf (.table t)).names

section SameNames

variable {α : Type} {api : Cfitsio} {order : ArgOrder} {how : Nat} {src dest f t : Nat}

theorem SameNames.refl (w : World) : SameNames t w w := rfl

theorem SameNames.trans (w v w' : World) (first : SameNames t w v) (later : SameNames t v w') :
    SameNames t w w' := Eq.trans later first

theorem SameNames.of_unit {w w' : World} (same : w'.unitOf (.table t) = w.unitOf (.table t)) :
    SameNames t w w' := congrArg HduData.names same

theorem Keeps.sameNames {m : M α} (moves : Keeps World.Moved m) : Keeps (SameNames t) m :=
  fun w => SameNames.of_unit ((moves w).unitOf (.table t))

theorem editChdu_sameNames {e : Edit} (same : ∀ h, (after (e h)).names = h.names) :
    Keeps (SameNames t) (editChdu f e) := by
  intro w
  have put : ∀ h : HduData, h.names = (w.current f).names →
      SameNames t w (w.putUnit f (w.files f).chdu h) := by
    intro h names
    unfold SameNames World.unitOf
    rw [World.base_putUnit]
    by_cases here : (w.base (.table t)).file = f ∧ (w.base (.table t)).hduNum = (w.files f).chdu
    · rw [here.1, here.2, World.unit_putUnit, names]
      rfl
    · rw [World.unit_putUnit_ne (fun file hduNum => here ⟨file, hduNum⟩)]
  have names := same (w.current f)
  unfold editChdu
  cases run : e (w.current f) with
  | ok a h =>
    rw [run] at names
    exact put h names
  | error status h =>
    rw [run] at names
    exact put h names

theorem keeps_sameNames : Composed api (Keeps (SameNames t)) where
  pure := Keeps.pure SameNames.refl
  bind := Keeps.bind SameNames.trans
  ite := Keeps.ite
  check _ := Keeps.check SameNames.refl
  look call keeps w := keeps w w
  setAsChdu _ := Keeps.sameNames moved_setAsChdu
  read _ r := keeps_readChdu SameNames.refl r
  inspect _ _ w := SameNames.refl w
  ofExcept _ := keeps_ofExcept SameNames.refl _
  judge _ := by
    refine Keeps.bind SameNames.trans ?_ (fun _ => keeps_ofExcept SameNames.refl _)
    exact Keeps.bind SameNames.trans (Keeps.sameNames moved_setAsChdu) (fun _ w => SameNames.refl w)
  setExtname o extname w := by
    have same : (w.rename o extname (w.base o).extver).unitOf (.table t) = w.unitOf (.table t) :=
      World.unitOf_rename
    exact SameNames.of_unit same
  setExtver o extver w := by
    have same : (w.rename o (w.base o).extname extver).unitOf (.table t) = w.unitOf (.table t) :=
      World.unitOf_rename
    exact SameNames.of_unit same
  setColumns u g w := by
    have same : (w.setColumns u (g w)).unitOf (.table t) = w.unitOf (.table t) :=
      World.unitOf_setColumns
    exact SameNames.of_unit same

theorem copied_sameNames (edits : EditsColumns api) (infos : List ColumnInfo) :
    Keeps (SameNames t) (do
      extendRows api order src dest how
      refresh api dest
      infos.foldlM (copyOne api src dest) ()) := by
  refine Keeps.bind SameNames.trans (keeps_sameNames.extendRows fun _ first n =>
    editChdu_sameNames (edits.insert_rows first n)) (fun _ => ?_)
  refine Keeps.bind SameNames.trans keeps_sameNames.refresh (fun _ => ?_)
  refine Keeps.loop SameNames.refl SameNames.trans (fun u ci => ?_) infos ()
  exact keeps_sameNames.copyOne u ci (fun _ h a b => editChdu_sameNames (edits.copy_col h a b))

end SameNames

section Outcome

variable {api : Cfitsio} {order : ArgOrder} {how : Nat} {w w₀ : World} {src dest t : Nat}
  {names done : List String} {plan : CopyPlan}

theorem insert_names (doc : Documented api) (edits : EditsColumns api) (h : HduData)
    (infos : List ColumnInfo) :
    ∃ h', api.insertCols (h.cols.length + 1) (infos.map fun ci => (ci.ttype, ci.tform)) h =
        .ok () h' ∧ h'.names = h.names ++ infos.map (fun ci => ci.ttype) := by
  rw [forms_text]
  obtain ⟨h', inserted⟩ :=
    edits.insert_cols (forms_counts infos) (Nat.le_add_left 1 _) (Nat.le_refl (h.cols.length + 1))
  obtain ⟨new, heads, cols, _⟩ :=
    doc.insert_cols (forms_counts infos) (Nat.le_add_left 1 _) (Nat.le_refl _) inserted
  refine ⟨h', inserted, ?_⟩
  rw [Nat.add_sub_cancel, List.take_length, List.drop_length, List.append_nil] at cols
  have made : new.map (fun c => c.ttype) = infos.map (fun ci => ci.ttype) := by
    have ttypes := congrArg (List.map (fun c => c.ttype)) heads
    rw [List.map_map, List.map_map, forms, List.map_map] at ttypes
    exact ttypes
  rw [HduData.names, cols, List.map_append, made]
  rfl

theorem createColumns_names (doc : Documented api) (edits : EditsColumns api)
    (own : w.Attached (.table dest)) {infos : List ColumnInfo}
    (made : plan.made = infos.map (fun ci => (ci.ttype, ci.tform))) :
    ∃ w', createColumns api dest plan.made w = .ok () w' ∧ (w'.unitOf (.table dest)).names =
      (w.unitOf (.table dest)).names ++ infos.map (fun ci => ci.ttype) := by
  unfold createColumns
  split
  · obtain ⟨h, inserted, columns⟩ := insert_names doc edits (w.unitOf (.table dest)) infos
    have counts : numColumns api dest w =
        .ok (w.unitOf (.table dest)).cols.length (w.onto (.table dest)) :=
      readOwn_of_attached doc own (doc.num_cols _)
    refine ⟨w.put (.table dest) h, ?_, ?_⟩
    · rw [bind_of_ok counts, made]
      exact editChdu_ok.mpr ⟨h, by rw [World.base_onto, World.current_onto]; exact inserted,
        by simp [World.put, World.onto]⟩
    · rw [World.unitOf_put, columns]
  · rename_i creates
    rw [not_not.mp creates, eq_comm, List.map_eq_nil_iff] at made
    subst made
    exact ⟨w, rfl, (List.append_nil _).symm⟩

theorem copied_names (doc : Documented api) (edits : EditsColumns api)
    (own : w.Attached (.table dest)) {infos : List ColumnInfo}
    (made : plan.made = infos.map (fun ci => (ci.ttype, ci.tform))) :
    ((after ((do
      createColumns api dest plan.made
      extendRows api order src dest how
      refresh api dest
      plan.srcCi.foldlM (copyOne api src dest) () : M Unit) w)).unitOf (.table dest)).names =
        (w.unitOf (.table dest)).names ++ infos.map (fun ci => ci.ttype) := by
  obtain ⟨w', created, names⟩ := createColumns_names doc edits own made
  rw [bind_of_ok created, ← names]
  exact copied_sameNames edits plan.srcCi w'

theorem copyColumns_loop (doc : Documented api) (ownSrc : w.Attached (.table src))
    (ownDest : w.Attached (.table dest)) (asks : names ≠ []) :
    copyColumns api order src dest names how w =
      (do
        let plan ← names.foldlM (examine api src dest how) ⟨[], []⟩
        createColumns api dest plan.made
        extendRows api order src dest how
        refresh api dest
        plan.srcCi.foldlM (copyOne api src dest) () : M Unit)
      ((w.onto (.table src)).onto (.table dest)) := by
  unfold copyColumns
  rw [if_neg asks, bind_of_ok (setAsChdu_of_attached doc ownSrc)]
  exact bind_of_ok (setAsChdu_of_attached doc (World.attached_onto.mpr ownDest)) _

/-- After a copy that returns or throws the names differ, or are those that were
there and those that were asked for, none of which stops the loop. -/
theorem copyColumns_names {literal : String → Prop} (order : ArgOrder) (doc : Documented api)
    (lookup : Lookup api literal) (edits : EditsColumns api)
    (ownSrc : w.Attached (.table src)) (ownDest : w.Attached (.table dest))
    (numbered : Numbered w dest) (unique : Unique foldCase (w.unitOf (.table dest)).names)
    (plain : ∀ name ∈ names, literal name) (asks : names ≠ []) {final : List String} (ends : final =
      ((after (copyColumns api order src dest names how w)).unitOf (.table dest)).names) :
    Unique foldCase final ∧ (Deletes api → Stopped api how w src dest names) ∨
      ¬Stopped api how w src dest names ∧ (Borne api how w src dest names → final.map foldCase =
        (kept how names (w.unitOf (.table dest)).names ++
          asked how names (w.unitOf (.table dest)).names).map foldCase) := by
  have nothing : kept how [] (w.unitOf (.table dest)).names = (w.unitOf (.table dest)).names := by
    unfold kept
    simp
  have start : Surveyed api how w src dest [] ⟨[], []⟩ ((w.onto (.table src)).onto (.table dest)) := by
    refine ⟨nothing.symm ▸ ((Left.start ownSrc ownDest).onto _).onto _, ⟨[], rfl, fun _ => ?_⟩, ?_⟩
    · unfold asked
      simp [without]
    · rintro ⟨before, name, behind, split, _⟩
      cases before <;> cases split
  rw [copyColumns_loop doc ownSrc ownDest asks] at ends
  rcases examine_loop doc lookup edits numbered unique plain start with
    ⟨e, w', thrown, differ, stopped⟩ | ⟨plan, w', runs, left, ⟨infos, made, named⟩, passed⟩
  · rw [bind_of_error thrown] at ends
    exact Or.inl ⟨ends ▸ differ, stopped⟩
  · rw [bind_of_ok runs, copied_names doc edits left.ownDest made, left.names] at ends
    refine Or.inr ⟨passed, fun borne => ?_⟩
    rw [ends, List.map_append, List.map_append, ← List.nil_append names, ← named borne,
      List.map_map]
    rfl

theorem borne_of_finds (doc : Documented api) (distinct : Distinct w src dest)
    (bears : ∀ name ∈ names, ∀ ci, Finds api w src name ci → foldCase ci.ttype = foldCase name) :
    Borne api how w src dest names := by
  rintro before name behind split _ ci ⟨k, number, entry⟩
  rw [sourceNames, if_neg (fun same => distinct same.1 same.2)] at number
  exact bears name (by simp [split]) ci ⟨k, number, (doc.colnum_range number).1, entry⟩

/-- The names of the destination's columns still differ, whether the copy returns or
throws, if a name stops the loop or the descriptors bear the requested names and no name
that is to be created is asked for twice, in whatever letter case; and only if, where
they bear these names and every column can be deleted. -/
theorem unique_names_asked {literal : String → Prop} (doc : Documented api)
    (lookup : Lookup api literal) (edits : EditsColumns api)
    (ownSrc : w.Attached (.table src)) (ownDest : w.Attached (.table dest))
    (numbered : Numbered w dest) (unique : Unique foldCase (w.unitOf (.table dest)).names)
    (plain : ∀ name ∈ names, literal name) :
    (Stopped api how w src dest names ∨ Borne api how w src dest names ∧
        Unique foldCase (asked how names (w.unitOf (.table dest)).names) →
      Unique foldCase
        ((after (copyColumns api order src dest names how w)).unitOf (.table dest)).names) ∧
    (Borne api how w src dest names → Deletes api →
      Unique foldCase
        ((after (copyColumns api order src dest names how w)).unitOf (.table dest)).names →
      Stopped api how w src dest names ∨
        Unique foldCase (asked how names (w.unitOf (.table dest)).names)) := by
  by_cases asks : names = []
  · subst asks
    refine ⟨fun _ => unique, fun _ _ _ => Or.inr ?_⟩
    unfold asked
    split <;> exact List.nodup_nil
  rcases copyColumns_names order doc lookup edits ownSrc ownDest numbered unique plain
    asks rfl with ⟨differ, stopped⟩ | ⟨passed, named⟩
  · exact ⟨fun _ => differ, fun _ deletes _ => Or.inl (stopped deletes)⟩
  · constructor
    · rintro (stopped | ⟨borne, apart⟩)
      · exact absurd stopped passed
      · unfold Keyed.Unique
        rw [named borne]
        exact unique_kept_asked unique apart
    · intro borne _ differ
      unfold Keyed.Unique at differ
      rw [named borne] at differ
      exact Or.inr (unique_append.mp differ).2.1

end Outcome

end Table

theorem Reference.editsColumns : EditsColumns Reference.api where
  delete_col {h h' k status} failed := by
    simp only [api, deleteCol] at failed
    split at failed
    · cases failed
    · cases failed
      rfl
  insert_cols {h k made} counts low high := by
    simp only [api, insertCols, newColumns_made counts, low, high, and_self, if_true]
    exact ⟨_, rfl⟩
  insert_rows first n h := by
    simp only [api, insertRows]
    split
    · simp [after, HduData.names, Col.withCells]
    · rfl
  copy_col source a b h := by
    simp only [api, copyCol]
    split
    · rename_i ca cb _ column
      exact HduData.names_congr (HduData.heads_set column rfl)
    · rfl

namespace Table

theorem unique_after_replace : ∃ w', w' = after (copyColumns Reference.api .destLast 0 2
      ["B", "A"] ColumnCopy.replace (twoFiles "A" "B" "C" "a")) ∧
    (w'.unitOf (.table 2)).names = ["C", "B", "A"] ∧
    Unique foldCase (w'.unitOf (.table 2)).names := by
  have numbered : Numbered (twoFiles "A" "B" "C" "a") 2 := numbered_of_colnums (by decide +kernel)
  have ownSrc : (twoFiles "A" "B" "C" "a").Attached (.table 0) :=
    ⟨by decide +kernel, by decide +kernel⟩
  have ownDest : (twoFiles "A" "B" "C" "a").Attached (.table 2) :=
    ⟨by decide +kernel, by decide +kernel⟩
  have apart : Apart (twoFiles "A" "B" "C" "a") 0 2 := by
    unfold Apart
    decide +kernel
  have borne : Borne Reference.api ColumnCopy.replace (twoFiles "A" "B" "C" "a") 0 2 ["B", "A"] := by
    refine borne_of_finds Reference.documented apart.distinct (fun name member ci finds => ?_)
    rcases List.mem_pair.mp member with rfl | rfl
    · rw [ttype_of_found (k := 2) (by decide +kernel) (by decide +kernel) finds]
    · rw [ttype_of_found (k := 1) (by decide +kernel) (by decide +kernel) finds]
  refine ⟨_, rfl, by decide +kernel, ?_⟩
  exact (unique_names_asked Reference.documented Reference.lookup Reference.editsColumns ownSrc
    ownDest numbered (by decide +kernel) (fun _ _ => trivial)).1 (Or.inr ⟨borne, by decide +kernel⟩)

def twice : World :=
  after (copyColumns Reference.api .destLast 0 2 ["A", "a"] ColumnCopy.noDuplicates
    (twoFiles "A" "B" "C" "D"))

/-- A column that is asked for in two spellings is made twice. -/
theorem not_unique_twice :
    Unique foldCase ((twoFiles "A" "B" "C" "D").unitOf (.table 2)).names ∧
    (twice.unitOf (.table 2)).names = ["C", "D", "A", "A"] ∧
    ¬Unique foldCase (twice.unitOf (.table 2)).names := by
  have names : (twice.unitOf (.table 2)).names = ["C", "D", "A", "A"] := by decide +kernel
  refine ⟨by decide +kernel, names, ?_⟩
  rw [names]
  decide

end Table
end MisFITS
