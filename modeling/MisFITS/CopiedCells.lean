import MisFITS.Moves
import MisFITS.CopyStages

/-! What `fits_copy_col` does to the rows of a table, and the columns that a list
of names stands for in two tables. -/
namespace MisFITS
open Program

namespace HduData

def row (h : HduData) (r : Int) (k : Nat) : List Byte :=
  match h.column k with
  | some c => c.cells r
  | none => []

def head (h : HduData) (k : Nat) : Option ColHead := (h.column k).map Col.toColHead

variable {h h' : HduData} {k b : Nat} {c : Col}

theorem head_eq : h.head k = if k = 0 then none else h.heads[k - 1]? := by
  unfold head column heads
  split
  · rfl
  · rw [List.getElem?_map]

theorem head_congr (same : h'.heads = h.heads) : h'.head k = h.head k := by
  rw [head_eq, head_eq, same]

theorem names_heads (h : HduData) : h.names = h.heads.map (fun c => c.ttype) := by
  rw [names, heads, List.map_map]
  rfl

theorem names_congr (same : h'.heads = h.heads) : h'.names = h.names := by
  rw [names_heads, names_heads, same]

theorem row_of_column (column : h.column k = some c) (r : Int) : h.row r k = c.cells r := by
  rw [row, column]

theorem row_set (here : h.column b = some c) (c' : Col) (r : Int) :
    ({ h with cols := h.cols.set (b - 1) c' } : HduData).row r =
      Function.update (h.row r) b (c'.cells r) := by
  obtain ⟨low, entry⟩ := column_iff.mp here
  obtain ⟨inside, _⟩ := List.getElem?_eq_some_iff.mp entry
  funext k
  by_cases same : k = b
  · subst same
    rw [Function.update_self]
    exact row_of_column (column_iff.mpr ⟨low, List.getElem?_set_self inside⟩) r
  · rw [Function.update_of_ne same]
    unfold row column
    by_cases zero : k = 0
    · simp only [zero, if_true]
    · have other : b - 1 ≠ k - 1 := by omega
      simp only [zero, if_false, List.getElem?_set_ne other]

end HduData

/-- What `fits_copy_col` makes of a cell of one column for another. -/
def convertAt (api : Cfitsio) (source dest : HduData) (a b : Nat) (cell : List Byte) : List Byte :=
  match source.head a, dest.head b with
  | some x, some y => api.convert x y cell
  | _, _ => cell

variable {api : Cfitsio} {source dest h h' : HduData} {a b : Nat}

theorem convertAt_congr (same : h.heads = dest.heads) (cell : List Byte) :
    convertAt api source h a b cell = convertAt api source dest a b cell := by
  rw [convertAt, HduData.head_congr same, convertAt]


theorem copyCol_row (doc : Documented api) (copied : api.copyCol source a b h = .ok () h') :
    h'.nrows = h.nrows ∧ h'.naxis2 = h.naxis2 ∧ h'.heads = h.heads ∧
      ∀ r, h'.row r = if 1 ≤ r ∧ r ≤ min source.naxis2 h.naxis2 then
        Function.update (h.row r) b (convertAt api source h a b (source.row r a)) else h.row r := by
  have heads := Table.copy_col_heads doc copied
  obtain ⟨ca, cb, from_, to_, rfl⟩ := doc.copy_col copied
  refine ⟨rfl, rfl, heads, fun r => ?_⟩
  have converted : convertAt api source h a b (source.row r a) =
      api.convert ca.toColHead cb.toColHead (ca.cells r) := by
    rw [HduData.row_of_column from_, convertAt, HduData.head, HduData.head, from_, to_]
    rfl
  have cell : (cb.copyFrom api ca (min source.naxis2 h.naxis2)).cells r =
      if 1 ≤ r ∧ r ≤ min source.naxis2 h.naxis2 then
        convertAt api source h a b (source.row r a) else h.row r b := by
    rw [converted, HduData.row_of_column to_]
    rfl
  rw [HduData.row_set to_, cell]
  split
  · rfl
  · exact Function.update_eq_self b _

/-- The number under which a table has a name, or zero. -/
def number (api : Cfitsio) (h : HduData) (name : String) : Nat :=
  (api.getColnum h.names name).toOption.getD 0

theorem number_of_ok {name : String} {k : Nat} (found : api.getColnum h.names name = .ok k) :
    number api h name = k := by
  rw [number, found]
  rfl

/-- The name is that of a column in both tables, of one type and one shape. -/
def Common (api : Cfitsio) (source dest : HduData) (name : String) : Prop :=
  ∃ a b x y, api.getColnum source.names name = .ok a ∧ api.getColnum dest.names name = .ok b ∧
    source.head a = some x ∧ dest.head b = some y ∧ foldCase x.ttype = foldCase name ∧
    foldCase y.ttype = foldCase name ∧ x.SameShape y

def pairs (api : Cfitsio) (source dest : HduData) (names : List String) : List (Nat × Nat) :=
  names.map (fun name => (number api source name, number api dest name))

theorem Common.consistent (doc : Documented api) {n m : String} (first : Common api source dest n)
    (second : Common api source dest m) (same : number api dest n = number api dest m) :
    number api source n = number api source m := by
  obtain ⟨_, b, _, y, _, foundN, _, headN, _, nameN, _⟩ := first
  obtain ⟨_, b', _, y', _, foundM, _, headM, _, nameM, _⟩ := second
  rw [number_of_ok foundN, number_of_ok foundM] at same
  subst same
  cases headN.symm.trans headM
  unfold number
  rw [doc.colnum_case source.names (nameN.symm.trans nameM)]

theorem Common.has {name : String} (common : Common api source dest name) :
    Table.Has api dest name = true := by
  obtain ⟨_, b, _, _, _, found, _⟩ := common
  rw [Table.Has, found]
  rfl

theorem Common.of_heads {source' dest' : HduData} {name : String}
    (common : Common api source dest name) (heads : source'.heads = source.heads)
    (heads' : dest'.heads = dest.heads) : Common api source' dest' name := by
  obtain ⟨a, b, x, y, found, found', head, head', rest⟩ := common
  refine ⟨a, b, x, y, ?_, ?_, ?_, ?_, rest⟩
  · rw [HduData.names_congr heads, found]
  · rw [HduData.names_congr heads', found']
  · rw [HduData.head_congr heads, head]
  · rw [HduData.head_congr heads', head']

theorem Common.convertAt (doc : Documented api) {name : String} (common : Common api source dest name)
    (cell : List Byte) :
    convertAt api source dest (number api source name) (number api dest name) cell = cell := by
  obtain ⟨a, b, x, y, foundA, foundB, headA, headB, _, _, shape⟩ := common
  rw [number_of_ok foundA, number_of_ok foundB, MisFITS.convertAt, headA, headB]
  exact doc.convert_same cell shape

structure Filled (old : HduData) (rows : Int)
    (make : Int → (Nat → List Byte) → Nat → Nat → List Byte) (moves : List (Nat × Nat))
    (h : HduData) : Prop where
  heads : h.heads = old.heads
  nrows : h.nrows = old.nrows
  naxis2 : h.naxis2 = old.naxis2
  row : ∀ r, h.row r =
    if 1 ≤ r ∧ r ≤ rows then Moves.run (make r) moves (old.row r) else old.row r

section Filled

variable {old : HduData} {rows : Int} {make : Int → (Nat → List Byte) → Nat → Nat → List Byte}
  {moves : List (Nat × Nat)}

theorem Filled.start : Filled old rows make [] old :=
  ⟨rfl, rfl, rfl, fun _ => by rw [Moves.run_nil, ite_self]⟩

theorem Filled.step (doc : Documented api) (filled : Filled old rows make moves h)
    (copied : api.copyCol source a b h = .ok () h') (range : min source.naxis2 h.naxis2 = rows)
    (made : ∀ r, 1 ≤ r → r ≤ rows →
      convertAt api source h a b (source.row r a) = make r (h.row r) a b) :
    Filled old rows make (moves ++ [(a, b)]) h' := by
  obtain ⟨nrows, naxis2, heads, row⟩ := copyCol_row doc copied
  refine ⟨heads.trans filled.heads, nrows.trans filled.nrows, naxis2.trans filled.naxis2, fun r => ?_⟩
  rw [row, range]
  by_cases inside : 1 ≤ r ∧ r ≤ rows
  · rw [if_pos inside, if_pos inside, Moves.run_append, made r inside.1 inside.2, filled.row,
      if_pos inside]
  · rw [if_neg inside, if_neg inside, filled.row, if_neg inside]

end Filled

namespace Table

variable {src : Nat} {target : HduData} {w : World} {names : List String} {infos : List ColumnInfo}

theorem Finds.described (synced : Synced w src) {name : String} {ci : ColumnInfo}
    (finds : Finds api w src name ci)
    (common : Common api (w.unitOf (.table src)) target name) :
    ci.colnum = number api (w.unitOf (.table src)) name ∧
      foldCase ci.ttype = foldCase name := by
  obtain ⟨k, found, low, entry⟩ := finds
  obtain ⟨a, _, x, _, found', _, head, _, same, _⟩ := common
  obtain ⟨c, there, described⟩ := ColumnInfo.decodeAll_get synced entry
  obtain ⟨ttype, _, _, _, colnum, _⟩ := ColumnInfo.decode_ok described
  cases found.symm.trans found'
  rw [HduData.head_eq, if_neg (by omega), there] at head
  cases head
  rw [number_of_ok found, colnum, ttype]
  exact ⟨by omega, same⟩

theorem finds_pairs (doc : Documented api) (synced : Synced w src)
    (found : List.Forall₂ (Finds api w src) names infos)
    (common : ∀ name ∈ names, Common api (w.unitOf (.table src)) target name) :
    infos.map (fun ci => (ci.colnum, number api target ci.ttype)) =
      pairs api (w.unitOf (.table src)) target names := by
  induction found with
  | nil => rfl
  | cons finds _ ih =>
    rename_i name ci names infos _
    obtain ⟨colnum, same⟩ := finds.described synced (common name List.mem_cons_self)
    have number_same : number api target ci.ttype = number api target name := by
      unfold number
      rw [doc.colnum_case _ same]
    rw [List.map_cons, ih (fun n member => common n (List.mem_cons_of_mem name member)), colnum,
      number_same]
    rfl

end Table

end MisFITS
