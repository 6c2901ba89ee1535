import MisFITS.Table

/-! `Table::copy_columns`: the names are examined one by one, the columns that
the destination lacks are created at once, rows are added where they are asked
for, and CFITSIO copies column by column. -/
namespace MisFITS
open Program

namespace ColumnCopy

/-! The flags of `ColumnCopy::Flag`; the last one masks the mode out of them. -/

def noDuplicates : Nat := 0x01
def replace : Nat := 0x02
def overWrite : Nat := 0x03
def extendTable : Nat := 0x10
def extendTableIfEmpty : Nat := 0x20
def flagMask : Nat := 0x0f

end ColumnCopy

/-- The arguments of a call are evaluated in no specified order. Of those of
`fits_insert_rows` the one evaluated last decides where the cursor stands. -/
inductive ArgOrder where
  | destLast | sourceLast
  deriving DecidableEq, Repr

/-- What the loop over the names collects: `src_ci`, and `dest_ttype` with `dest_tform`. -/
structure CopyPlan where
  srcCi : List ColumnInfo
  made : List (String × String)

def CopyPlan.overwrites (plan : CopyPlan) (ci : ColumnInfo) : CopyPlan :=
  { plan with srcCi := plan.srcCi ++ [ci] }

def CopyPlan.creates (plan : CopyPlan) (ci : ColumnInfo) : CopyPlan :=
  { srcCi := plan.srcCi ++ [ci], made := plan.made ++ [(ci.ttype, ci.tform)] }

namespace Table
open HDU

variable (api : Cfitsio) (order : ArgOrder) (src dest : Nat)

def examine (how : Nat) (plan : CopyPlan) (name : String) : M CopyPlan := do
  let inSrc ← hasColumn api src name
  if !inSrc then
    throw (.assert ("request to copy a non-existent column: " ++ name))
  let ci ← colinfoByName api src name
  let inDest ← hasColumn api dest name
  if !inDest then
    return plan.creates ci
  else if how &&& ColumnCopy.flagMask = ColumnCopy.noDuplicates then
    throw (.assert ("destination table already has a column named '" ++ name ++ "'"))
  else if how &&& ColumnCopy.flagMask = ColumnCopy.replace then do
    deleteColumnByName api dest name
    return plan.creates ci
  else if how &&& ColumnCopy.flagMask = ColumnCopy.overWrite then
    return plan.overwrites ci
  else
    -- spelt so in the source
    throw (.assert "uknown misFITS::ColumnCopy flag")

def createColumns (made : List (String × String)) : M Unit := do
  if made ≠ [] then do
    let ncols ← numColumns api dest
    onFile (.table dest) (editChdu · (api.insertCols (ncols + 1) made))

def wantsRows (how : Nat) : M Bool := do
  if (← numRows api src) > (← numRows api dest) then
    if how &&& ColumnCopy.extendTable ≠ 0 then
      return true
    else if how &&& ColumnCopy.extendTableIfEmpty ≠ 0 then
      return (← numRows api dest) = 0
    else return false
  else return false

/-- `num_rows() - dest.num_rows()` -/
def missingRows : M Int :=
  match order with
  | .destLast => do
    let rows ← numRows api src
    return rows - (← numRows api dest)
  | .sourceLast => do
    let rows ← numRows api dest
    return (← numRows api src) - rows

def extendRows (how : Nat) : M Unit := do
  if ← wantsRows api src dest how then do
    let first ← numRows api dest
    let count ← missingRows api order src dest
    onFile (.table dest) (editChdu · (api.insertRows first count))

def copyCol (a b : Nat) : M Unit := fun w =>
  editChdu (w.base (.table dest)).file
    (api.copyCol (w.current (w.base (.table src)).file) a b) w

def copyOne (_ : Unit) (ci : ColumnInfo) : M Unit := do
  let target ← colinfoByName api dest ci.ttype
  copyCol api src dest ci.colnum target.colnum

def copyColumns (names : List String) (how : Nat) : M Unit := do
  if names = [] then
    return
  setAsChdu api (.table src)
  setAsChdu api (.table dest)
  let plan ← names.foldlM (examine api src dest how) ⟨[], []⟩
  createColumns api dest plan.made
  extendRows api order src dest how
  refresh api dest
  plan.srcCi.foldlM (copyOne api src dest) ()

def copyColumn (name : String) (how : Nat) : M Unit :=
  copyColumns api order src dest [name] how

def nextName (names : List String) (idx : Nat) : M (List String) := do
  let ci ← colinfo src (idx + 1)
  return names ++ [ci.ttype]

def copyAllColumns (how : Nat) : M Unit := do
  let ncols ← numColumns api src
  let names ← (List.range ncols).foldlM (nextName src) []
  copyColumns api order src dest names how

variable {api order src dest} {w w' : World}

theorem copy_col_heads (doc : Documented api) {source h h' : HduData} {a b : Nat}
    (copied : api.copyCol source a b h = .ok () h') : h'.heads = h.heads := by
  obtain ⟨_, _, _, column, rfl⟩ := doc.copy_col copied
  exact HduData.heads_set column rfl

/-- A pass of the copying loop copies to the column that the header of the
destination finds, from whatever the source's file stands at by then. -/
theorem copyOne_ok (doc : Documented api) {ci : ColumnInfo} {u v : Unit}
    (run : copyOne api src dest u ci w = .ok v w') :
    ∃ k target, api.getColnum (w.unitOf (.table dest)).names ci.ttype = .ok k ∧
      (w.tables dest).columns[k - 1]? = some target ∧
      ∃ h, api.copyCol ((w.onto (.table dest)).current (w.base (.table src)).file) ci.colnum
          target.colnum (w.unitOf (.table dest)) = .ok () h ∧
        w' = w.put (.table dest) h := by
  obtain ⟨target, _, found, run⟩ := bind_ok.mp run
  obtain ⟨k, number, _, entry, rfl⟩ := colinfoByName_ok doc found
  refine ⟨k, target, number, entry, ?_⟩
  unfold copyCol at run
  obtain ⟨h, copied, rfl⟩ := editChdu_ok.mp run
  rw [World.base_onto, World.base_onto, World.current_onto] at copied
  refine ⟨h, copied, ?_⟩
  simp [World.put, World.onto]

theorem copyColumns_ok (doc : Documented api) {names : List String} {how : Nat} {u : Unit}
    (run : copyColumns api order src dest names how w = .ok u w') :
    (names = [] ∧ w' = w) ∨ ∃ (plan : CopyPlan) (w₁ w₂ w₃ w₄ : World),
      names.foldlM (examine api src dest how) ⟨[], []⟩ ((w.onto (.table src)).onto (.table dest)) =
        .ok plan w₁ ∧
      createColumns api dest plan.made w₁ = .ok () w₂ ∧
      extendRows api order src dest how w₂ = .ok () w₃ ∧
      refresh api dest w₃ = .ok () w₄ ∧
      plan.srcCi.foldlM (copyOne api src dest) () w₄ = .ok () w' := by
  unfold copyColumns at run
  split at run
  · rename_i empty
    exact Or.inl ⟨empty, (pure_ok.mp run).2.symm⟩
  · right
    replace run := setAsChdu_bind_ok doc run
    replace run := setAsChdu_bind_ok doc run
    obtain ⟨plan, w₁, examined, run⟩ := bind_ok.mp run
    obtain ⟨_, w₂, created, run⟩ := bind_ok.mp run
    obtain ⟨_, w₃, extended, run⟩ := bind_ok.mp run
    obtain ⟨_, w₄, refreshed, copied⟩ := bind_ok.mp run
    exact ⟨plan, w₁, w₂, w₃, w₄, examined, created, extended, refreshed, copied⟩

theorem copyAllColumns_ok (doc : Documented api) {how : Nat} {u : Unit}
    (run : copyAllColumns api order src dest how w = .ok u w') :
    ∃ names, copyColumns api order src dest names how (w.onto (.table src)) = .ok u w' := by
  obtain ⟨n, _, counts, run⟩ := bind_ok.mp run
  obtain ⟨_, rfl⟩ := numColumns_ok doc counts
  obtain ⟨names, w₁, listed, run⟩ := bind_ok.mp run
  have still : w₁ = w.onto (.table src) := by
    refine loop_keeps (P := fun w₁ => w₁ = w.onto (.table src)) ?_ rfl listed
    intro _ _ _ _ _ held pass
    obtain ⟨_, _, looks, rest⟩ := bind_ok.mp pass
    rw [← (pure_ok.mp rest).2, (colinfo_ok.mp looks).2.2, held]
  exact ⟨names, still ▸ run⟩

end Table
end MisFITS
