import MisFITS.CopyStages
import MisFITS.RoundTrip

/-! The columns that `copy_columns` makes, against those of the source. They are
made in a batch from TTYPE and TFORM, without the TDIM that `insert` writes. -/
namespace MisFITS
open ColumnType Program

namespace ColumnInfo

/-- TTYPE and TFORM alone say as much as the descriptor. -/
def Plain (ci : ColumnInfo) : Prop :=
  ci.columnType.id ≠ .ushort ∧ ci.columnType.id ≠ .ulong ∧ Flat ci.extent

theorem equal_created {ci info : ColumnInfo} {k : Nat} {offset : Int}
    (described : decode (.created ci.ttype (count ci.extent) ci.columnType) k offset = .ok info) :
    equal ci info = true ↔ Plain ci := by
  obtain ⟨_, _, id, shape, _⟩ := decode_ok described
  obtain ⟨e, made, squeezed⟩ := shape_created ci.ttype ci.columnType
    (count_pos ci.extent)
  rw [made, Except.ok.injEq] at shape
  change info.columnType.id = ci.columnType.stored at id
  unfold equal Plain
  rw [Bool.and_eq_true, decide_eq_true_eq, Extent.equal_iff, ← shape, squeezed, flat_iff, id,
    stored_eq_id, and_assoc]

end ColumnInfo

namespace Table
open HDU

variable {api : Cfitsio} {order : ArgOrder} {src dest how : Nat} {w w₀ w' : World}
  {h : HduData} {names : List String}

theorem copying_heads (doc : Documented api) (apart : Apart w₀ src dest) {infos : List ColumnInfo}
    (start : Copying src dest w₀ w h)
    (run : infos.foldlM (copyOne api src dest) () w = .ok () w') :
    ∃ h', Copying src dest w₀ w' h' ∧ h'.heads = h.heads := by
  refine loop_keeps (P := fun w' => ∃ h', Copying src dest w₀ w' h' ∧ h'.heads = h.heads)
    ?_ ⟨h, start, rfl⟩ run
  rintro _ ci w₁ _ w₂ ⟨h₁, copying, same⟩ pass
  obtain ⟨_, h₂, _, copied, copying'⟩ := copyOne_copying doc apart copying pass
  exact ⟨h₂, copying', (copy_col_heads doc copied).trans same⟩

/-- The columns of the destination after a copy: what is left of the old ones,
and behind them the made ones, in the order of their names. -/
theorem copyColumns_heads (doc : Documented api) (apart : Apart w₀ src dest) {u : Unit}
    (nonempty : names ≠ []) (run : copyColumns api order src dest names how w₀ = .ok u w') :
    ∃ (h h₁ : HduData) (news : List ColumnInfo), Copying src dest w₀ w' h ∧
      List.Forall₂ (Finds api w₀ src) (created api how (w₀.unitOf (.table dest)) names) news ∧
      h.heads = h₁.heads ++ news.map (fun ci =>
        ColHead.created ci.ttype (ColumnInfo.count ci.extent) ci.columnType) := by
  rcases copyColumns_apart doc apart run with empty | ⟨infos, h₁, h, w, prepared, rows, start, copies⟩
  · exact absurd empty.1 nonempty
  obtain ⟨h', copying, same⟩ := copying_heads doc apart start copies
  obtain ⟨old, news, found, heads, _⟩ := prepared.made
  refine ⟨h', old, news, copying, found, ?_⟩
  rw [same, ← heads]
  rcases rows with ⟨_, rfl⟩ | ⟨wanting, inserted⟩
  · rfl
  · exact insert_rows_heads doc (by have := wanting.1; omega) inserted

theorem forall₂_entry {A B : Type} {R : A → B → Prop} {xs : List A} {ys : List B}
    (related : List.Forall₂ R xs ys) {i : Nat} {x : A} (entry : xs[i]? = some x) :
    ∃ y, ys[i]? = some y ∧ R x y := by
  obtain ⟨inside, rfl⟩ := List.getElem?_eq_some_iff.mp entry
  have inside' : i < ys.length := related.length_eq ▸ inside
  exact ⟨ys[i], List.getElem?_eq_getElem inside', related.get inside inside'⟩

def lastEntry (columns : List ColumnInfo) (n i : Nat) : Option ColumnInfo :=
  columns[columns.length - n + i]?

theorem lastEntry_made {heads : List ColHead} {g : ColumnInfo → ColHead}
    {news columns : List ColumnInfo}
    (built : ColumnInfo.decodeAll (heads ++ news.map g) 1 1 = .ok columns) {i : Nat}
    {ci : ColumnInfo} (entry : news[i]? = some ci) :
    ∃ info k offset, lastEntry columns news.length i = some info ∧
      ColumnInfo.decode (g ci) k offset = .ok info := by
  have length := ColumnInfo.decodeAll_length built
  rw [List.length_append, List.length_map] at length
  have place : columns.length - news.length + i = heads.length + i := by omega
  obtain ⟨inside, _⟩ := List.getElem?_eq_some_iff.mp entry
  have there : columns[heads.length + i]? = some columns[heads.length + i] :=
    List.getElem?_eq_getElem (by omega)
  obtain ⟨c, head, described⟩ := ColumnInfo.decodeAll_get built there
  rw [List.getElem?_append_right (Nat.le_add_right _ _), Nat.add_sub_cancel_left,
    List.getElem?_map, entry] at head
  cases head
  refine ⟨_, _, _, ?_, described⟩
  rw [lastEntry, place]
  exact there

/-- Each column made for a name has a descriptor equal to that of the source. -/
def Recreated (api : Cfitsio) (src dest : Nat) (w w' : World) (made : List String) : Prop :=
  ∀ i name, made[i]? = some name → ∃ ci info, Finds api w src name ci ∧
    lastEntry (w'.tables dest).columns made.length i = some info ∧ ColumnInfo.equal ci info = true

/-- The columns that a copy makes are equal to those of the source exactly when
all of these are plain. -/
theorem recreated_iff (doc : Documented api) (apart : Apart w src dest) {u : Unit}
    (run : copyColumns api order src dest names how w = .ok u w') :
    Recreated api src dest w w' (created api how (w.unitOf (.table dest)) names) ↔
      ∀ name ∈ created api how (w.unitOf (.table dest)) names, ∀ ci,
        Finds api w src name ci → ci.Plain := by
  by_cases empty : names = []
  · have nothing : created api how (w.unitOf (.table dest)) names = [] := by
      unfold created
      rw [empty]
      split <;> rfl
    rw [nothing]
    simp [Recreated]
  obtain ⟨h, h₁, news, copying, found, heads⟩ := copyColumns_heads doc apart empty run
  have built := copying.synced
  unfold Synced at built
  rw [copying.destUnit, heads] at built
  have length := found.length_eq
  constructor
  · intro equal name member ci finds
    obtain ⟨i, _, entry⟩ := List.getElem_of_mem member
    have entry : (created api how (w.unitOf (.table dest)) names)[i]? = some name :=
      List.getElem?_eq_some_iff.mpr ⟨_, entry⟩
    obtain ⟨ci', here, finds'⟩ := forall₂_entry found entry
    cases finds.unique finds'
    obtain ⟨info, k, offset, last, described⟩ := lastEntry_made built here
    obtain ⟨ci', info', finds', last', same⟩ := equal i name entry
    cases finds.unique finds'
    rw [length] at last'
    cases last.symm.trans last'
    exact (ColumnInfo.equal_created described).mp same
  · intro plain i name entry
    obtain ⟨ci, here, finds⟩ := forall₂_entry found entry
    obtain ⟨info, k, offset, last, described⟩ := lastEntry_made built here
    refine ⟨ci, info, finds, by rw [length]; exact last, ?_⟩
    exact (ColumnInfo.equal_created described).mpr
      (plain name (List.mem_of_getElem? entry) ci finds)

def oneColumn (c : Col) : World :=
  after (refresh Reference.api 0
    (Reference.world (Reference.table [c] 0) Reference.primary (Reference.table [] 0)))

def vector : World := oneColumn (Reference.column "V" .long 3 4)

theorem recreated_vector : ∃ w',
    copyColumns Reference.api .destLast 0 2 ["V"] ColumnCopy.noDuplicates vector = .ok () w' ∧
    Recreated Reference.api 0 2 vector w'
      (created Reference.api ColumnCopy.noDuplicates (vector.unitOf (.table 2)) ["V"]) := by
  obtain ⟨w', run⟩ : ∃ w', copyColumns Reference.api .destLast 0 2 ["V"]
      ColumnCopy.noDuplicates vector = .ok () w' := ⟨_, rfl⟩
  obtain ⟨ci, finds, plain⟩ : ∃ ci, Finds Reference.api vector 0 "V" ci ∧ ci.Plain :=
    ⟨_, ⟨1, rfl, Nat.le_refl 1, rfl⟩, by decide, by decide, Or.inr ⟨3, rfl, by decide, by decide⟩⟩
  have apart : Apart vector 0 2 := Nat.zero_ne_one
  refine ⟨w', run, (recreated_iff Reference.documented apart run).mpr ?_⟩
  intro name member ci' finds'
  cases List.mem_singleton.mp (show name ∈ ["V"] from member)
  exact finds.unique finds' ▸ plain

def matrix : World :=
  oneColumn ⟨{ Reference.head "M" .float 6 4 with tdim := some [2, 3] }, fun _ => []⟩

def matrixCopied : World :=
  after (copyColumns Reference.api .destLast 0 2 ["M"] ColumnCopy.noDuplicates matrix)

/-- A matrix is made again as a vector. -/
theorem not_recreated_matrix :
    copyColumns Reference.api .destLast 0 2 ["M"] ColumnCopy.noDuplicates matrix =
      .ok () matrixCopied ∧
    ¬Recreated Reference.api 0 2 matrix matrixCopied
      (created Reference.api ColumnCopy.noDuplicates (matrix.unitOf (.table 2)) ["M"]) := by
  refine ⟨rfl, fun recreated => ?_⟩
  obtain ⟨ci, finds, differ⟩ : ∃ ci, Finds Reference.api matrix 0 "M" ci ∧
      ∀ info, lastEntry (matrixCopied.tables 2).columns 1 0 = some info →
        ColumnInfo.equal ci info = false :=
    ⟨_, ⟨1, rfl, Nat.le_refl 1, rfl⟩, fun info last => by cases last; rfl⟩
  obtain ⟨ci', info, finds', last, same⟩ := recreated 0 "M" rfl
  cases finds.unique finds'
  exact absurd (same.symm.trans (differ info last)) (by decide)

end Table
end MisFITS
