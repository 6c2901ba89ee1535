import MisFITS.CopiedRows

/-! A copy between two tables of one file. The file has one cursor, which is at the
destination when `fits_copy_col` is called for both sides. -/
namespace MisFITS
open Program

namespace Table
open HDU

variable {api : Cfitsio} {order : ArgOrder} {src dest : Nat} {w w₀ w' : World}
  {target h : HduData} {names : List String} {infos : List ColumnInfo}

structure Shared (w : World) (src dest : Nat) : Prop where
  file : (w.base (.table src)).file = (w.base (.table dest)).file
  distinct : Distinct w src dest

theorem Shared.of_stage (shared : Shared w₀ src dest) (stage : Stage src dest w₀ w h) :
    Shared w src dest where
  file := by rw [stage.file, stage.file, shared.file]
  distinct := stage.distinct shared.distinct

/-- The rows are inserted in the table whose rows were counted last. -/
theorem extendRows_shared (doc : Documented api) (shared : Shared w₀ src dest)
    (stage : Stage src dest w₀ w h) {how : Nat} {u : Unit}
    (run : extendRows api order src dest how w = .ok u w') :
    (∃ h', Stage src dest w₀ w' h' ∧
        (¬Wanting how (w₀.unitOf (.table src)) h ∧ h' = h ∨
          order = .destLast ∧ Wanting how (w₀.unitOf (.table src)) h ∧
            api.insertRows h.nrows ((w₀.unitOf (.table src)).nrows - h.nrows) h = .ok () h')) ∨
      order = .sourceLast ∧ Wanting how (w₀.unitOf (.table src)) h ∧ Shared w' src dest ∧
        ∃ h', api.insertRows h.nrows ((w₀.unitOf (.table src)).nrows - h.nrows)
          (w₀.unitOf (.table src)) = .ok () h' ∧ w'.unitOf (.table src) = h' := by
  have ran := extendRows_ok doc run
  rw [stage.sourceUnit, stage.destUnit] at ran
  rcases ran with ⟨enough, rfl⟩ | ⟨wanting, h', v, rfl, inserted, rfl⟩
  · exact Or.inl ⟨h, (stage.onto _).onto _, Or.inl ⟨enough, rfl⟩⟩
  · have stage' : Stage src dest w₀ (counted order src dest w) h := by
      cases order <;> exact (stage.onto _).onto _
    cases order with
    | destLast =>
      have here : (counted .destLast src dest w).Current (.table dest) := World.current_of_onto
      rw [World.current_eq here, stage'.destUnit] at inserted
      rw [World.putUnit_of_current here]
      exact Or.inl ⟨h', stage'.put shared.distinct h', Or.inr ⟨rfl, wanting, inserted⟩⟩
    | sourceLast =>
      have here : (counted .sourceLast src dest w).Current (.table src) := World.current_of_onto
      have file := (shared.of_stage stage').file
      rw [← file, World.current_eq here, stage'.sourceUnit] at inserted
      rw [← file, World.putUnit_of_current here]
      have shared' := shared.of_stage stage'
      refine Or.inr ⟨rfl, wanting, ⟨?_, ?_⟩, h', inserted, World.unitOf_put⟩
      · rw [World.base_put, World.base_put]
        exact shared'.file
      · unfold Distinct
        rw [World.base_put, World.base_put]
        exact shared'.distinct

theorem sharing_rows (doc : Documented api) (shared : Shared w src dest) (synced : Synced w dest)
    (heads : (w.unitOf (.table dest)).heads = target.heads)
    (run : infos.foldlM (copyOne api src dest) () w = .ok () w') :
    ∃ h', Stage src dest w w' h' ∧
      Filled (w.unitOf (.table dest)) (w.unitOf (.table dest)).naxis2
        (fun _ s a b => convertAt api target target a b (s a))
        (infos.map (fun ci => (ci.colnum, number api target ci.ttype))) h' := by
  have all := loop_ok (I := fun done _ w₁ => ∃ h₁, Stage src dest w w₁ h₁ ∧ Synced w₁ dest ∧
      Filled (w.unitOf (.table dest)) (w.unitOf (.table dest)).naxis2
        (fun _ s a b => convertAt api target target a b (s a))
        (done.map (fun ci => (ci.colnum, number api target ci.ttype))) h₁)
    [] ?_ ⟨_, Stage.start, synced, Filled.start⟩ run
  · obtain ⟨h', stage, _, filled⟩ := all
    exact ⟨h', stage, filled⟩
  rintro done ci _ w₁ _ w₂ ⟨h₁, stage, synced₁, filled⟩ pass
  have synced₂ := copyOne_synced doc pass synced₁
  obtain ⟨k, into, found, entry, h₂, copied, rfl⟩ := copyOne_ok doc pass
  have same : h₁.heads = target.heads := filled.heads.trans heads
  rw [(shared.of_stage stage).file, World.current_onto, stage.destUnit,
    colnum_of_synced synced₁ (doc.colnum_range found).1 entry] at copied
  rw [stage.destUnit, HduData.names_congr same] at found
  obtain rfl := number_of_ok found
  refine ⟨h₂, stage.put shared.distinct h₂, synced₂, ?_⟩
  rw [List.map_append]
  refine filled.step doc copied (by rw [filled.naxis2, Int.min_self]) (fun r _ _ => ?_)
  rw [convertAt_congr same, convertAt, HduData.head_congr same]
  rfl

def foundInfo (api : Cfitsio) (w : World) (t : Nat) (name : String) : Option ColumnInfo :=
  match api.getColnum (w.unitOf (.table t)).names name with
  | .ok k => (w.tables t).columns[k - 1]?
  | .error _ => none

/-- The numbers between which the loop copies: the source's descriptor has the
first one, the destination's header the second one. -/
def copyMoves (api : Cfitsio) (w : World) (src dest : Nat) (names : List String) :
    List (Nat × Nat) :=
  names.filterMap (fun name => (foundInfo api w src name).map
    (fun ci => (ci.colnum, number api (w.unitOf (.table dest)) ci.ttype)))

theorem copyMoves_eq (found : List.Forall₂ (Finds api w src) names infos) :
    copyMoves api w src dest names =
      infos.map (fun ci => (ci.colnum, number api (w.unitOf (.table dest)) ci.ttype)) := by
  induction found with
  | nil => rfl
  | cons finds _ ih =>
    rename_i name ci names infos _
    obtain ⟨k, number, _, entry⟩ := finds
    have info : foundInfo api w src name = some ci := by
      unfold foundInfo
      rw [number]
      exact entry
    unfold copyMoves at ih ⊢
    rw [List.filterMap_cons, info, ih]
    rfl

def tracedCell (api : Cfitsio) (w : World) (src dest : Nat) (names : List String) (r : Int)
    (k : Nat) : List Byte :=
  let origin := Moves.origin (convertAt api (w.unitOf (.table dest)) (w.unitOf (.table dest)))
    (copyMoves api w src dest names) k
  origin.2 (rowFound api (w.unitOf (.table dest)) r origin.1)

/-- Every cell of the named columns is traced back to one of the destination that
held, or would be converted to, what the source holds. -/
def Traced (api : Cfitsio) (w : World) (src dest : Nat) (names : List String) : Prop :=
  ∀ name ∈ names, ∀ r, 1 ≤ r → r ≤ (w.unitOf (.table src)).nrows →
    tracedCell api w src dest names r (number api (w.unitOf (.table dest)) name) =
      (w.unitOf (.table src)).row r (number api (w.unitOf (.table src)) name)

theorem holds_iff_traced (found : List.Forall₂ (Finds api w src) names infos)
    (flushed : (w.unitOf (.table dest)).naxis2 = (w.unitOf (.table dest)).nrows)
    (extended : Extended api (w.unitOf (.table src)) (w.unitOf (.table dest)) h) {h' : HduData}
    (filled : Filled h h.naxis2
      (fun _ s a b => convertAt api (w.unitOf (.table dest)) (w.unitOf (.table dest)) a b (s a))
      (infos.map (fun ci => (ci.colnum, number api (w.unitOf (.table dest)) ci.ttype))) h') :
    Holds api (w.unitOf (.table src)) (w.unitOf (.table dest)) names h' ↔
      Traced api w src dest names := by
  have all : (w.unitOf (.table src)).nrows ≤ h.naxis2 := by
    rw [extended.naxis2]
    split <;> omega
  have cell : ∀ r, 1 ≤ r → r ≤ (w.unitOf (.table src)).nrows → ∀ k,
      h'.row r k = tracedCell api w src dest names r k := by
    intro r low high k
    rw [filled.row, if_pos ⟨low, by omega⟩, extended.row r high, Moves.run_origin, tracedCell,
      copyMoves_eq found]
  constructor
  · intro holds name member r low high
    rw [← cell r low high]
    exact holds name member r low high
  · intro traced name member r low high
    rw [cell r low high]
    exact traced name member r low high

/-- Between tables of one file the source's values reach the destination, and the
source stays as it is, exactly when no row is inserted in the source and the
destination had the values already, where the moves take them from. -/
theorem shared_iff (doc : Documented api) (shared : Shared w src dest)
    (flushed : (w.unitOf (.table dest)).naxis2 = (w.unitOf (.table dest)).nrows)
    (common : ∀ name ∈ names,
      Common api (w.unitOf (.table src)) (w.unitOf (.table dest)) name) {u : Unit}
    (run : copyColumns api order src dest names
      (ColumnCopy.overWrite ||| ColumnCopy.extendTable) w = .ok u w') :
    (w'.unitOf (.table src) = w.unitOf (.table src) ∧
      Holds api (w.unitOf (.table src)) (w.unitOf (.table dest)) names (w'.unitOf (.table dest))) ↔
    (names = [] ∨
      (order = .destLast ∨ (w.unitOf (.table src)).nrows ≤ (w.unitOf (.table dest)).nrows) ∧
        Traced api w src dest names) := by
  by_cases unnamed : names = []
  · subst unnamed
    obtain ⟨_, rfl⟩ := pure_ok.mp run
    simp [Holds]
  rcases copyColumns_prepared doc shared.distinct run with
    stopped | ⟨infos, h, w₁, w₂, w₃, prepared, stage, extends_, refreshes, copies⟩
  · exact absurd stopped.1 unnamed
  have unchanged := prepared.unchanged (by decide) (fun name member => (common name member).has)
  subst unchanged
  have always : (ColumnCopy.overWrite ||| ColumnCopy.extendTable) &&& ColumnCopy.extendTable ≠ 0 := by
    decide
  rcases extendRows_shared doc shared stage extends_ with
    ⟨h, stage₂, rows⟩ | ⟨rfl, wanting, shared₂, h, inserted, changed⟩
  · have stage₃ := stage₂.refresh doc shared.distinct refreshes
    have extended : Extended api (w.unitOf (.table src)) (w.unitOf (.table dest)) h :=
      extended_of_rows doc always (rows.imp_right And.right)
    have heads : (w₃.unitOf (.table dest)).heads = (w.unitOf (.table dest)).heads := by
      rw [stage₃.destUnit]
      exact extended.heads
    obtain ⟨h', stage₄, filled⟩ := sharing_rows doc (shared.of_stage stage₃)
      (synced_of_refresh doc refreshes) heads copies
    rw [stage₃.destUnit] at filled
    have source : w'.unitOf (.table src) = w.unitOf (.table src) :=
      stage₄.sourceUnit.trans stage₃.sourceUnit
    have right : order = .destLast ∨
        (w.unitOf (.table src)).nrows ≤ (w.unitOf (.table dest)).nrows := by
      rcases rows with ⟨enough, _⟩ | ⟨last, _⟩
      · exact Or.inr (Int.not_lt.mp (fun fewer => enough ⟨fewer, Or.inl always⟩))
      · exact Or.inl last
    rw [stage₄.destUnit, holds_iff_traced prepared.finds flushed extended filled]
    simp only [source, unnamed, right, true_and, false_or]
  -- the source was counted last, and has got the rows
  · have stage₃ := Stage.start.refresh doc shared₂.distinct refreshes
    obtain ⟨h', stage₄, _⟩ := sharing_rows doc (shared₂.of_stage stage₃)
      (synced_of_refresh doc refreshes) rfl copies
    have low : 0 ≤ (w.unitOf (.table src)).nrows - (w.unitOf (.table dest)).nrows := by
      have := wanting.1
      omega
    have more := (doc.insert_rows low inserted).2.1
    have fewer := wanting.1
    constructor
    · rintro ⟨kept, _⟩
      have rows : h.nrows = (w.unitOf (.table src)).nrows := by
        rw [← changed, ← stage₃.sourceUnit, ← stage₄.sourceUnit, kept]
      omega
    · rintro (empty | ⟨last | enough, _⟩)
      · exact absurd empty unnamed
      · cases last
      · omega

def doubles : World :=
  let a : Col := ⟨Reference.head "A" .byte 1 1, fun r => [BitVec.ofInt 8 (r + 6)]⟩
  let b : Col := ⟨Reference.head "B" .byte 1 1, fun r => [BitVec.ofInt 8 (r + 8)]⟩
  let w := Reference.world (Reference.table [a, b] 2) (Reference.table [a, b] 2) Reference.primary
  let infos := [Reference.byteInfo, { Reference.byteInfo with ttype := "B", offset := 2, colnum := 2 }]
  (w.setColumns 0 infos).setColumns 1 infos

def copiedDoubles : World :=
  after (copyColumns Reference.api .destLast 0 1 ["B", "A"]
    (ColumnCopy.overWrite ||| ColumnCopy.extendTable) doubles)

theorem shared_same :
    copiedDoubles.unitOf (.table 0) = doubles.unitOf (.table 0) ∧
      Holds Reference.api (doubles.unitOf (.table 0)) (doubles.unitOf (.table 1)) ["B", "A"]
        (copiedDoubles.unitOf (.table 1)) := by
  have shared : Shared doubles 0 1 := ⟨rfl, fun _ => by decide⟩
  have common : ∀ name ∈ ["B", "A"],
      Common Reference.api (doubles.unitOf (.table 0)) (doubles.unitOf (.table 1)) name := by
    intro name member
    simp only [List.mem_cons, List.not_mem_nil, or_false] at member
    rcases member with rfl | rfl
    · exact ⟨2, 2, _, _, rfl, rfl, rfl, rfl, rfl, rfl, rfl, rfl, rfl⟩
    · exact ⟨1, 1, _, _, rfl, rfl, rfl, rfl, rfl, rfl, rfl, rfl, rfl⟩
  have run : copyColumns Reference.api .destLast 0 1 ["B", "A"]
      (ColumnCopy.overWrite ||| ColumnCopy.extendTable) doubles = .ok () copiedDoubles :=
    ok_of_returned (by decide +kernel)
  refine (shared_iff Reference.documented shared rfl common run).mpr (Or.inr ⟨Or.inl rfl, ?_⟩)
  intro name member r low high
  have last : r ≤ 2 := high
  simp only [List.mem_cons, List.not_mem_nil, or_false] at member
  obtain rfl | rfl : r = 1 ∨ r = 2 := by omega
  all_goals rcases member with rfl | rfl <;> decide +kernel

def sevens : World :=
  let column : Col := ⟨Reference.head "A" .byte 1 1, fun _ => [7]⟩
  let w := Reference.world (Reference.table [column] 1) (Reference.table [column] 0)
    Reference.primary
  (w.setColumns 0 [Reference.byteInfo]).setColumns 1 [Reference.byteInfo]

def copiedSevens (order : ArgOrder) : World :=
  after (copyColumns Reference.api order 0 1 ["A"]
    (ColumnCopy.overWrite ||| ColumnCopy.extendTable) sevens)

theorem sevens_common : ∀ name ∈ ["A"],
    Common Reference.api (sevens.unitOf (.table 0)) (sevens.unitOf (.table 1)) name := by
  intro name member
  cases List.mem_singleton.mp member
  exact ⟨1, 1, _, _, rfl, rfl, rfl, rfl, rfl, rfl, rfl, rfl, rfl⟩

/-- The row that is added to the destination stays blank; if the source is counted
last, the source gets it. -/
theorem shared_differs :
    (∀ name ∈ ["A"],
      Common Reference.api (sevens.unitOf (.table 0)) (sevens.unitOf (.table 1)) name) ∧
    (copyColumns Reference.api .destLast 0 1 ["A"]
        (ColumnCopy.overWrite ||| ColumnCopy.extendTable) sevens =
          .ok () (copiedSevens .destLast) ∧
      ¬Holds Reference.api (sevens.unitOf (.table 0)) (sevens.unitOf (.table 1)) ["A"]
        ((copiedSevens .destLast).unitOf (.table 1))) ∧
    copyColumns Reference.api .sourceLast 0 1 ["A"]
        (ColumnCopy.overWrite ||| ColumnCopy.extendTable) sevens =
          .ok () (copiedSevens .sourceLast) ∧
      (copiedSevens .sourceLast).unitOf (.table 0) ≠ sevens.unitOf (.table 0) := by
  refine ⟨sevens_common, ⟨ok_of_returned (by decide +kernel), fun holds => ?_⟩,
    ok_of_returned (by decide +kernel), fun same => ?_⟩
  · have cell : ((copiedSevens .destLast).unitOf (.table 1)).row 1 1 = [0] := by decide +kernel
    have held := holds "A" (List.mem_singleton_self _) 1 (Int.le_refl 1) (Int.le_refl 1)
    exact absurd (cell.symm.trans held) (by decide)
  · have rows : ((copiedSevens .sourceLast).unitOf (.table 0)).nrows = 2 := by decide +kernel
    rw [same] at rows
    exact absurd rows (by decide)

end Table
end MisFITS
