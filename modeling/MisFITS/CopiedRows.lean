import MisFITS.CopiedCells

/-! The rows that reach a table of another file. Rows are added by CFITSIO's own
count, and copied as far as both header counts go. -/
namespace MisFITS
open Program

namespace Table
open HDU

variable {api : Cfitsio} {order : ArgOrder} {src dest : Nat} {w w₀ w' : World}
  {source target h : HduData} {names : List String} {infos : List ColumnInfo}

theorem copying_rows (doc : Documented api) (apart : Apart w₀ src dest) (synced : Synced w₀ src)
    (found : List.Forall₂ (Finds api w₀ src) names infos)
    (common : ∀ name ∈ names, Common api (w₀.unitOf (.table src)) target name)
    (heads : h.heads = target.heads) (start : Copying src dest w₀ w h)
    (run : infos.foldlM (copyOne api src dest) () w = .ok () w') :
    ∃ h', Copying src dest w₀ w' h' ∧
      Filled h (min (w₀.unitOf (.table src)).naxis2 h.naxis2)
        (fun r _ a _ => (w₀.unitOf (.table src)).row r a)
        (pairs api (w₀.unitOf (.table src)) target names) h' := by
  have moves := finds_pairs doc synced found common
  rw [← moves]
  refine loop_mem (I := fun done _ w₁ => ∃ h₁, Copying src dest w₀ w₁ h₁ ∧
      Filled h (min (w₀.unitOf (.table src)).naxis2 h.naxis2)
        (fun r _ a _ => (w₀.unitOf (.table src)).row r a)
        (done.map (fun ci => (ci.colnum, number api target ci.ttype))) h₁)
    [] ?_ ⟨h, start, Filled.start⟩ run
  rintro done ci _ w₁ _ w₂ member ⟨h₁, copying, filled⟩ pass
  obtain ⟨k, h₂, found, copied, copying'⟩ := copyOne_copying doc apart copying pass
  have same : h₁.heads = target.heads := filled.heads.trans heads
  rw [HduData.names_congr same] at found
  obtain rfl := number_of_ok found
  have pair : (ci.colnum, number api target ci.ttype) ∈
      pairs api (w₀.unitOf (.table src)) target names := by
    rw [← moves]
    exact List.mem_map_of_mem member
  obtain ⟨name, named, places⟩ := List.mem_map.mp pair
  refine ⟨h₂, copying', ?_⟩
  rw [List.map_append]
  refine filled.step doc copied (by rw [filled.naxis2]) (fun r _ _ => ?_)
  obtain ⟨fromNumber, toNumber⟩ := Prod.mk.inj places
  rw [convertAt_congr same, ← fromNumber, ← toNumber]
  exact (common name named).convertAt doc _

/-- The rows that both header counts cover, once rows have been added. -/
def coveredRows (source dest : HduData) : Int :=
  min source.naxis2 (if source.nrows > dest.nrows then source.nrows else dest.naxis2)

def rowFound (api : Cfitsio) (dest : HduData) (r : Int) (k : Nat) : List Byte :=
  if r ≤ dest.nrows then dest.row r k
  else match dest.head k with
    | some x => api.blank x
    | none => []

theorem insert_rows_row (doc : Documented api) {n : Int} (low : 0 ≤ n)
    (run : api.insertRows target.nrows n target = .ok () h) {r : Int} (inside : r ≤ target.nrows + n) :
    h.row r = rowFound api target r := by
  have cols := (doc.insert_rows low run).1
  funext k
  have column : h.column k = (target.column k).map (fun c => c.insertRows api target.nrows n) := by
    unfold HduData.column
    rw [cols]
    split
    · rfl
    · exact List.getElem?_map
  unfold rowFound HduData.head HduData.row
  rw [column]
  cases target.column k with
  | none => simp
  | some c =>
    by_cases old : r ≤ target.nrows
    · simp [Col.insertRows, old]
    · simp [Col.insertRows, old, inside]

structure Extended (api : Cfitsio) (source target h : HduData) : Prop where
  heads : h.heads = target.heads
  nrows : source.nrows ≤ h.nrows
  naxis2 : h.naxis2 = if source.nrows > target.nrows then source.nrows else target.naxis2
  row : ∀ r, r ≤ source.nrows → h.row r = rowFound api target r

theorem extended_of_rows (doc : Documented api) {how : Nat}
    (always : how &&& ColumnCopy.extendTable ≠ 0)
    (rows : ¬Wanting how source target ∧ h = target ∨ Wanting how source target ∧
      api.insertRows target.nrows (source.nrows - target.nrows) target = .ok () h) :
    Extended api source target h := by
  rcases rows with ⟨enough, rfl⟩ | ⟨⟨fewer, _⟩, inserted⟩
  · have most : ¬source.nrows > h.nrows := fun fewer => enough ⟨fewer, Or.inl always⟩
    refine ⟨rfl, by omega, by rw [if_neg most], fun r inside => ?_⟩
    funext k
    rw [rowFound, if_pos (by omega)]
  · have low : 0 ≤ source.nrows - target.nrows := by omega
    obtain ⟨_, nrows, naxis2, _⟩ := doc.insert_rows low inserted
    refine ⟨?_, by omega, by rw [if_pos fewer]; omega, fun r inside => ?_⟩
    · exact insert_rows_heads doc low inserted
    · exact insert_rows_row doc low inserted (by omega)

/-- The columns of the names hold in one table, in the rows that the other one
has, what that one holds. -/
def Holds (api : Cfitsio) (source target : HduData) (names : List String) (h : HduData) : Prop :=
  ∀ name ∈ names, ∀ r, 1 ≤ r → r ≤ source.nrows →
    h.row r (number api target name) = source.row r (number api source name)

/-- The row was copied, or holds the value that the copy would have brought. -/
def Settled (api : Cfitsio) (source target : HduData) (names : List String) : Prop :=
  ∀ name ∈ names, ∀ r, 1 ≤ r → r ≤ source.nrows → coveredRows source target < r →
    rowFound api target r (number api target name) = source.row r (number api source name)

theorem holds_iff_settled (doc : Documented api) (extended : Extended api source target h)
    (common : ∀ name ∈ names, Common api source target name) {h' : HduData}
    (filled : Filled h (min source.naxis2 h.naxis2) (fun r _ a _ => source.row r a)
      (pairs api source target names) h') :
    Holds api source target names h' ↔ Settled api source target names := by
  have covered : min source.naxis2 h.naxis2 = coveredRows source target := by
    rw [extended.naxis2, coveredRows]
  have cell : ∀ name ∈ names, ∀ r, 1 ≤ r → r ≤ source.nrows →
      h'.row r (number api target name) =
        if r ≤ coveredRows source target then source.row r (number api source name)
        else rowFound api target r (number api target name) := by
    intro name member r low high
    rw [filled.row, covered]
    by_cases inside : r ≤ coveredRows source target
    · rw [if_pos ⟨low, inside⟩, if_pos inside]
      refine Moves.run_filled ?_ ⟨_, List.mem_map_of_mem member, rfl⟩
      intro m moved here _
      obtain ⟨other, named, rfl⟩ := List.mem_map.mp moved
      rw [(common other named).consistent doc (common name member) here]
    · rw [if_neg (fun both => inside both.2), if_neg inside, extended.row r high]
  constructor
  · intro holds name member r low high beyond
    have held := holds name member r low high
    rwa [cell name member r low high, if_neg (by omega)] at held
  · intro settled name member r low high
    rw [cell name member r low high]
    split
    · rfl
    · exact settled name member r low high (by omega)

theorem copied_iff (doc : Documented api) (apart : Apart w src dest) (synced : Synced w src)
    (common : ∀ name ∈ names,
      Common api (w.unitOf (.table src)) (w.unitOf (.table dest)) name) {u : Unit}
    (run : copyColumns api order src dest names
      (ColumnCopy.overWrite ||| ColumnCopy.extendTable) w = .ok u w') :
    ((w.unitOf (.table src)).nrows ≤ (w'.unitOf (.table dest)).nrows ∧
      Holds api (w.unitOf (.table src)) (w.unitOf (.table dest)) names (w'.unitOf (.table dest))) ↔
    ((names = [] → (w.unitOf (.table src)).nrows ≤ (w.unitOf (.table dest)).nrows) ∧
      Settled api (w.unitOf (.table src)) (w.unitOf (.table dest)) names) := by
  by_cases unnamed : names = []
  · subst unnamed
    obtain ⟨_, rfl⟩ := pure_ok.mp run
    simp [Holds, Settled]
  rcases copyColumns_apart doc apart run with
    stopped | ⟨infos, h₁, h, w₁, prepared, rows, start, copies⟩
  · exact absurd stopped.1 unnamed
  have unchanged := prepared.unchanged (by decide) (fun name member => (common name member).has)
  subst unchanged
  have extended := extended_of_rows doc (by decide) rows
  obtain ⟨h', copying, filled⟩ :=
    copying_rows doc apart synced prepared.finds common extended.heads start copies
  rw [copying.destUnit, holds_iff_settled doc extended common filled]
  have enough : (w.unitOf (.table src)).nrows ≤ h'.nrows := by
    rw [filled.nrows]
    exact extended.nrows
  exact and_congr (iff_of_true enough (fun empty => absurd empty unnamed)) Iff.rfl

end Table
end MisFITS
