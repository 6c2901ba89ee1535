import MisFITS.Composed
import MisFITS.CopyStages

/-! What a copy that is rejected has done to the destination. The names are
examined and, under `Replace`, deleted in one loop, before all of them are known to be there. -/
namespace MisFITS
open Program

section Below

variable {api : Cfitsio}

theorem raises_editChdu {f : Nat} (e : Edit) : Raises Exception.Below (editChdu f e) := by
  intro w e w' run
  unfold editChdu at run
  split at run
  · cases run
  · cases run
    exact fun _ same => nomatch same

theorem raises_setAsChdu {o : Obj} : Raises Exception.Below (HDU.setAsChdu api o) := by
  intro w e w' run
  unfold HDU.setAsChdu at run
  rw [File.moveTo_eq] at run
  split at run
  · cases run
  · unfold moveChdu at run
    split at run
    · cases run
    · cases run
      exact fun _ same => nomatch same

theorem inspectOwn_value {α : Type} {o : Obj} {r : HduData → α} {a : α} {w w' : World}
    (run : HDU.inspectOwn api o r w = .ok a w') : ∃ h, a = r h := by
  obtain ⟨_, _, _, reads⟩ := bind_ok.mp run
  exact ⟨_, (inspectChdu_ok.mp reads).1⟩

theorem raises_below : Composed api (Raises Exception.Below) where
  pure := Raises.pure
  bind := Raises.bind
  ite := Raises.ite
  check := Raises.check
  look call below w := below w w
  setAsChdu _ := raises_setAsChdu
  read f r w e w' run := by
    obtain ⟨_, _, rfl, _⟩ := readChdu_error.mp run
    exact fun _ same => nomatch same
  inspect _ _ _ _ _ run := nomatch run
  ofExcept below _ e _ run := below e (ofExcept_error.mp run).1
  judge below w e w' run := by
    rcases bind_error.mp run with early | ⟨b, _, reads, late⟩
    · rcases bind_error.mp early with here | ⟨_, _, _, inspects⟩
      · exact raises_setAsChdu w e w' here
      · cases inspects
    · obtain ⟨h, rfl⟩ := inspectOwn_value reads
      exact below h e (ofExcept_error.mp late).1
  setExtname _ _ _ _ _ run := nomatch run
  setExtver _ _ _ _ _ run := nomatch run
  setColumns _ _ _ _ _ run := nomatch run

end Below

namespace Table
open HDU

variable {api : Cfitsio} {order : ArgOrder} {src dest t how : Nat}

/-- A name that is missing in the source, one that is taken in the destination,
or a flag that is none. -/
def Rejects (names : List String) (e : Exception) : Prop :=
  (∃ name ∈ names, e = .assert ("request to copy a non-existent column: " ++ name)) ∨
  (∃ name ∈ names, e = .assert ("destination table already has a column named '" ++ name ++ "'")) ∨
  e = .assert "uknown misFITS::ColumnCopy flag"

theorem first_of_below {what : String} (below : Exception.Below (.assert what)) :
    what.toList.head? ≠ some 'r' ∧ what.toList.head? ≠ some 'd' := by
  have text := below what rfl
  simp only [List.mem_cons, List.not_mem_nil, or_false] at text
  rcases text with rfl | rfl | rfl <;> decide

theorem Rejects.not_below {names : List String} {e : Exception} (rejects : Rejects names e) :
    ¬e.Below := by
  intro below
  rcases rejects with ⟨name, _, rfl⟩ | ⟨name, _, rfl⟩ | rfl
  · exact (first_of_below below).1 (by simp)
  · exact (first_of_below below).2 (by simp)
  · exact absurd (below _ rfl) (by decide)

theorem examine_error (doc : Documented api) {w w' : World} {plan : CopyPlan} {name : String}
    {e : Exception} (above : ¬e.Below)
    (run : examine api src dest how plan name w = .error e w') :
    w.Moved w' ∧ (Has api (w.unitOf (.table src)) name = false ∨
      Has api (w.unitOf (.table src)) name = true ∧
        how &&& ColumnCopy.flagMask ≠ ColumnCopy.replace) := by
  rcases bind_error.mp run with early | ⟨inSrc, _, asks, run⟩
  · exact absurd (raises_below.readOwn _ w e w' early) above
  obtain ⟨there, rfl⟩ := hasColumn_ok doc asks
  have has : inSrc = Has api (w.unitOf (.table src)) name := there
  split at run
  · rename_i absent
    rcases bind_error.mp run with thrown | ⟨_, _, thrown, _⟩
    · cases (throw_error.mp thrown).2
      exact ⟨World.moved_onto, Or.inl (by simpa [has] using absent)⟩
    · exact (throw_ok.mp thrown).elim
  · rename_i present
    rw [has, Bool.not_eq_true, Bool.not_eq_false'] at present
    rcases bind_error.mp run with early | ⟨ci, _, looks, run⟩
    · exact absurd (raises_below.colinfoByName _ _ e w' early) above
    obtain ⟨_, _, _, _, rfl⟩ := colinfoByName_ok doc looks
    rcases bind_error.mp run with early | ⟨inDest, _, asks, run⟩
    · exact absurd (raises_below.readOwn _ _ e w' early) above
    obtain ⟨_, rfl⟩ := hasColumn_ok doc asks
    have moved : w.Moved (((w.onto (.table src)).onto (.table src)).onto (.table dest)) :=
      (World.moved_onto.trans World.moved_onto).trans World.moved_onto
    split at run
    · exact (pure_error.mp run).elim
    · split at run
      · rename_i mode
        cases (throw_error.mp run).2
        exact ⟨moved, Or.inr ⟨present, by rw [mode]; decide⟩⟩
      · split at run
        · rcases bind_error.mp run with early | ⟨_, _, _, late⟩
          · exact absurd (raises_below.deleteColumnByName _ (fun _ _ => raises_editChdu _) _ e w' early) above
          · exact (pure_error.mp late).elim
        · rename_i mode
          split at run
          · exact (pure_error.mp run).elim
          · cases (throw_error.mp run).2
            exact ⟨moved, Or.inr ⟨present, mode⟩⟩

variable {w w₀ w' : World}

def Replaces (api : Cfitsio) (how : Nat) (h : HduData) (names : List String) : Prop :=
  how &&& ColumnCopy.flagMask = ColumnCopy.replace ∧ ∃ name ∈ names, Has api h name = true

structure Passed (api : Cfitsio) (src dest how : Nat) (w₀ : World) (done : List String)
    (w : World) : Prop where
  stage : ∃ h, Stage src dest w₀ w h
  present : ∀ name ∈ done, Has api (w₀.unitOf (.table src)) name = true
  kept : ¬Replaces api how (w₀.unitOf (.table dest)) done →
    w.unitOf (.table dest) = w₀.unitOf (.table dest)
  lost : Replaces api how (w₀.unitOf (.table dest)) done →
    (w.unitOf (.table dest)).cols.length < (w₀.unitOf (.table dest)).cols.length

theorem replaces_append {h : HduData} {done : List String} {name : String} :
    Replaces api how h (done ++ [name]) ↔ Replaces api how h done ∨
      how &&& ColumnCopy.flagMask = ColumnCopy.replace ∧ Has api h name = true := by
  simp only [Replaces, List.mem_append, List.mem_singleton, or_and_right, exists_or,
    exists_eq_left, and_or_left]

theorem examine_passed (doc : Documented api) (apart : Apart w₀ src dest) {done : List String}
    {name : String} {plan plan' : CopyPlan} (held : Passed api src dest how w₀ done w)
    (run : examine api src dest how plan name w = .ok plan' w') :
    Passed api src dest how w₀ (done ++ [name]) w' := by
  obtain ⟨h, stage⟩ := held.stage
  obtain ⟨ci, finds, cases⟩ := examine_ok doc run
  have present : ∀ n ∈ done ++ [name], Has api (w₀.unitOf (.table src)) n = true := by
    intro n member
    rcases List.mem_append.mp member with before | here
    · exact held.present n before
    · cases List.mem_singleton.mp here
      obtain ⟨k, number, _⟩ := stage.finds.mp finds
      simp [Has, number, Except.isOk, Except.toBool]
  rcases cases with ⟨absent, _, rfl⟩ | ⟨here, mode, _, _, _, h', _, _, deleted, rfl⟩ | ⟨_, mode, _, rfl⟩
  · have same : Replaces api how (w₀.unitOf (.table dest)) (done ++ [name]) ↔
        Replaces api how (w₀.unitOf (.table dest)) done := by
      rw [replaces_append]
      refine ⟨fun either => ?_, Or.inl⟩
      by_contra unmet
      rw [held.kept unmet] at absent
      rcases either with before | ⟨_, found⟩
      · exact unmet before
      · rw [absent] at found
        cases found
    refine ⟨⟨h, (stage.onto _).onto _⟩, present, ?_, ?_⟩
    · simp only [same, World.unitOf_onto]
      exact held.kept
    · simp only [same, World.unitOf_onto]
      exact held.lost
  · obtain ⟨low, high, fewer, _⟩ := doc.delete_col deleted
    have most : (w.unitOf (.table dest)).cols.length ≤ (w₀.unitOf (.table dest)).cols.length := by
      by_cases before : Replaces api how (w₀.unitOf (.table dest)) done
      · exact Nat.le_of_lt (held.lost before)
      · rw [held.kept before]
    have all : Replaces api how (w₀.unitOf (.table dest)) (done ++ [name]) := by
      rw [replaces_append]
      by_cases before : Replaces api how (w₀.unitOf (.table dest)) done
      · exact Or.inl before
      · rw [held.kept before] at here
        exact Or.inr ⟨mode, here⟩
    refine ⟨⟨h', (stage.onto _).put apart.distinct h'⟩, present, fun unmet => absurd all unmet, fun _ => ?_⟩
    rw [World.unitOf_put, fewer, List.length_eraseIdx]
    split <;> omega
  · have other : ∀ names, ¬Replaces api how (w₀.unitOf (.table dest)) names := by
      rintro names ⟨mode', _⟩
      exact absurd (mode.symm.trans mode') (by decide)
    refine ⟨⟨h, (stage.onto _).onto _⟩, present, fun _ => ?_, fun bad => absurd bad (other _)⟩
    simp only [World.unitOf_onto]
    exact held.kept (other done)

theorem copyColumns_rejected (doc : Documented api) {names : List String} {e : Exception}
    (above : ¬e.Below) (run : copyColumns api order src dest names how w = .error e w') :
    names.foldlM (examine api src dest how) ⟨[], []⟩ ((w.onto (.table src)).onto (.table dest)) =
      .error e w' := by
  unfold copyColumns at run
  split at run
  · exact (pure_error.mp run).elim
  rcases bind_error.mp run with early | ⟨_, _, positioned, run⟩
  · exact absurd (raises_setAsChdu _ e w' early) above
  cases setAsChdu_ok doc positioned
  rcases bind_error.mp run with early | ⟨_, _, positioned, run⟩
  · exact absurd (raises_setAsChdu _ e w' early) above
  cases setAsChdu_ok doc positioned
  rcases bind_error.mp run with here | ⟨plan, w₁, _, late⟩
  · exact here
  · have later : Raises Exception.Below (do
        createColumns api dest plan.made
        extendRows api order src dest how
        refresh api dest
        plan.srcCi.foldlM (copyOne api src dest) ()) := by
      refine Raises.bind (raises_below.createColumns _ (fun _ _ => raises_editChdu _)) (fun _ => ?_)
      refine Raises.bind (raises_below.extendRows (fun _ _ _ => raises_editChdu _)) (fun _ => ?_)
      refine Raises.bind raises_below.refresh (fun _ => Raises.loop (fun u ci => ?_) _ _)
      exact raises_below.copyOne u ci (fun _ _ _ _ => raises_editChdu _)
    exact absurd (later w₁ e w' late) above

/-- Of a rejected copy the destination is as it was, unless `Replace` has deleted
a column of it for a name before the one that the source lacks. -/
theorem rejected_unchanged_iff (doc : Documented api) (apart : Apart w src dest)
    {names : List String} {e : Exception} (rejects : Rejects names e)
    (run : copyColumns api order src dest names how w = .error e w') :
    ((w'.unitOf (.table dest)).cols = (w.unitOf (.table dest)).cols ∧
        (w'.unitOf (.table dest)).nrows = (w.unitOf (.table dest)).nrows) ↔
      ¬Replaces api how (w.unitOf (.table dest))
        (names.takeWhile (Has api (w.unitOf (.table src)))) := by
  have above := rejects.not_below
  have loop := copyColumns_rejected doc above run
  have stage : Stage src dest w w (w.unitOf (.table dest)) := Stage.start
  have start : Passed api src dest how w [] ((w.onto (.table src)).onto (.table dest)) := by
    refine ⟨⟨_, (stage.onto _).onto _⟩, by simp, fun _ => ?_, ?_⟩
    · simp only [World.unitOf_onto]
    · rintro ⟨_, _, member, _⟩
      cases member
  obtain ⟨before, name, later, plan, w₁, rfl, held, thrown⟩ :=
    loop_error (I := fun done _ w₁ => Passed api src dest how w done w₁) []
      (fun _ _ _ _ _ _ held pass => examine_passed doc apart held pass) start loop
  rw [List.nil_append] at held
  obtain ⟨moved, reason⟩ := examine_error doc above thrown
  obtain ⟨h, stage₁⟩ := held.stage
  rw [moved.unitOf]
  rw [stage₁.sourceUnit] at reason
  have read : Replaces api how (w.unitOf (.table dest))
        ((before ++ name :: later).takeWhile (Has api (w.unitOf (.table src)))) ↔
      Replaces api how (w.unitOf (.table dest)) before := by
    rw [List.takeWhile_append_of_pos held.present]
    rcases reason with absent | ⟨_, mode⟩
    · rw [List.takeWhile_cons, absent, if_neg (by decide), List.append_nil]
    · exact ⟨fun all => absurd all.1 mode, fun all => absurd all.1 mode⟩
  rw [read]
  constructor
  · rintro ⟨cols, _⟩ lost
    have fewer := held.lost lost
    rw [cols] at fewer
    exact absurd fewer (Nat.lt_irrefl _)
  · intro kept
    rw [held.kept kept]
    exact ⟨rfl, rfl⟩

def overlapping : World :=
  after (refresh Reference.api 2 (after (refresh Reference.api 0
    (Reference.world
      (Reference.table [Reference.column "A" .long 1 4, Reference.column "B" .byte 1 1] 2)
      Reference.primary
      (Reference.table [Reference.column "C" .byte 1 1, Reference.column "A" .long 1 4] 2)))))

theorem rejected_unchanged_collision : ∃ w', copyColumns Reference.api .destLast 0 2 ["B", "A"]
      ColumnCopy.noDuplicates overlapping =
        .error (.assert "destination table already has a column named 'A'") w' ∧
    (w'.unitOf (.table 2)).cols = (overlapping.unitOf (.table 2)).cols ∧
    (w'.unitOf (.table 2)).nrows = (overlapping.unitOf (.table 2)).nrows := by
  obtain ⟨w', run⟩ : ∃ w', copyColumns Reference.api .destLast 0 2 ["B", "A"]
      ColumnCopy.noDuplicates overlapping =
        .error (.assert "destination table already has a column named 'A'") w' := ⟨_, rfl⟩
  have apart : Apart overlapping 0 2 := Nat.zero_ne_one
  have rejects : Rejects ["B", "A"] (.assert "destination table already has a column named 'A'") :=
    Or.inr (Or.inl ⟨"A", by decide, rfl⟩)
  refine ⟨w', run, (rejected_unchanged_iff Reference.documented apart rejects run).mpr ?_⟩
  exact fun replaces => absurd replaces.1 (by decide)

def sameName : World :=
  after (refresh Reference.api 2 (after (refresh Reference.api 0
    (Reference.world (Reference.table [Reference.column "A" .long 1 4] 0) Reference.primary
      (Reference.table [Reference.column "A" .long 1 4] 0)))))

def halfReplaced : World :=
  after (copyColumns Reference.api .destLast 0 2 ["A", "Z"] ColumnCopy.replace sameName)

/-- The column of the first name is gone when the second one turns out to be missing. -/
theorem rejected_changed : copyColumns Reference.api .destLast 0 2 ["A", "Z"]
      ColumnCopy.replace sameName =
        .error (.assert "request to copy a non-existent column: Z") halfReplaced ∧
    ¬((halfReplaced.unitOf (.table 2)).cols = (sameName.unitOf (.table 2)).cols ∧
      (halfReplaced.unitOf (.table 2)).nrows = (sameName.unitOf (.table 2)).nrows) :=
  ⟨rfl, fun same => absurd (congrArg List.length same.1) (by decide)⟩

end Table
end MisFITS
