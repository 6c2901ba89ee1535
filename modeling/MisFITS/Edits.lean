import MisFITS.Cache
import MisFITS.RoundTrip

/-! The cached descriptors of a table to which columns are added and from which
they are deleted, against a plain list that is edited in the same places. -/
namespace MisFITS
open ColumnType Program Run

namespace ColumnInfo

def moveUp (width : Int) (ci : ColumnInfo) : ColumnInfo :=
  { ci with colnum := ci.colnum + 1, offset := ci.offset + width }

def moveDown (width : Int) (ci : ColumnInfo) : ColumnInfo :=
  { ci with colnum := ci.colnum - 1, offset := ci.offset - width }

def insertAt (k : Nat) (new : ColumnInfo) (infos : List ColumnInfo) : List ColumnInfo :=
  infos.take (k - 1) ++ new :: (infos.drop (k - 1)).map (moveUp new.nbytes)

def deleteAt (k : Nat) (infos : List ColumnInfo) : List ColumnInfo :=
  match infos[k - 1]? with
  | some old => infos.take (k - 1) ++ (infos.drop k).map (moveDown old.nbytes)
  | none => infos

theorem moveDown_moveUp (width : Int) (ci : ColumnInfo) : moveDown width (moveUp width ci) = ci := by
  simp [moveDown, moveUp]

section Decode

variable {c : ColHead} {heads more : List ColHead} {k : Nat} {offset width : Int}
  {ci : ColumnInfo} {infos : List ColumnInfo}

theorem decode_moved (described : decode c k offset = .ok ci) :
    decode c (k + 1) (offset + width) = .ok (moveUp width ci) := by
  unfold decode at described ⊢
  split at described
  · cases described
  · obtain ⟨extent, shaped, rfl⟩ := except_map_ok.mp described
    exact except_map_ok.mpr ⟨extent, shaped, rfl⟩

theorem decodeAll_moved (width : Int) (built : decodeAll heads k offset = .ok infos) :
    decodeAll heads (k + 1) (offset + width) = .ok (infos.map (moveUp width)) := by
  induction heads generalizing k offset infos with
  | nil =>
    cases built
    rfl
  | cons c heads ih =>
    obtain ⟨ci, rest, rfl, first, tail⟩ := decodeAll_cons.mp built
    refine decodeAll_cons.mpr ⟨moveUp width ci, rest.map (moveUp width), rfl, decode_moved first, ?_⟩
    have later := ih tail
    rwa [Int.add_right_comm] at later

theorem decodeAll_append : decodeAll (heads ++ more) k offset = .ok infos ↔
    ∃ front behind, infos = front ++ behind ∧ decodeAll heads k offset = .ok front ∧
      decodeAll more (k + heads.length) (offset + (front.map (fun ci => ci.nbytes)).sum) =
        .ok behind := by
  induction heads generalizing k offset infos with
  | nil => simp [decodeAll]
  | cons c heads ih =>
    rw [List.cons_append, decodeAll_cons]
    constructor
    · rintro ⟨ci, rest, rfl, first, tail⟩
      obtain ⟨front, behind, rfl, built, last⟩ := ih.mp tail
      refine ⟨ci :: front, behind, rfl, decodeAll_cons.mpr ⟨ci, front, rfl, first, built⟩, ?_⟩
      simpa [Nat.add_assoc, Nat.add_comm 1, Int.add_assoc] using last
    · rintro ⟨front, behind, rfl, built, last⟩
      obtain ⟨ci, rest, rfl, first, tail⟩ := decodeAll_cons.mp built
      refine ⟨ci, rest ++ behind, rfl, first, ih.mpr ⟨rest, behind, rfl, tail, ?_⟩⟩
      simpa [Nat.add_assoc, Nat.add_comm 1, Int.add_assoc] using last

theorem decodeAll_insert {infos' : List ColumnInfo} (low : 1 ≤ k) (high : k ≤ heads.length + 1)
    (before : decodeAll heads 1 1 = .ok infos)
    (behind : decodeAll (heads.take (k - 1) ++ c :: heads.drop (k - 1)) 1 1 = .ok infos') :
    ∃ new, decode c k (1 + ((infos.take (k - 1)).map (fun ci => ci.nbytes)).sum) = .ok new ∧
      infos' = insertAt k new infos := by
  have length : (heads.take (k - 1)).length = k - 1 := by
    rw [List.length_take]
    omega
  rw [← List.take_append_drop (k - 1) heads] at before
  obtain ⟨front, rest, rfl, built, tail⟩ := decodeAll_append.mp before
  obtain ⟨front', rest', rfl, built', tail'⟩ := decodeAll_append.mp behind
  cases built.symm.trans built'
  obtain ⟨new, moved, rfl, first, later⟩ := decodeAll_cons.mp tail'
  have count : front.length = k - 1 := (decodeAll_length built).trans length
  have number : 1 + (heads.take (k - 1)).length = k := by omega
  rw [number] at first tail later
  have shifted := decodeAll_moved new.nbytes tail
  cases later.symm.trans shifted
  refine ⟨new, ?_, ?_⟩
  · rwa [List.take_left' count]
  · rw [insertAt, List.take_left' count, List.drop_left' count]

theorem decodeAll_delete {infos' : List ColumnInfo} (low : 1 ≤ k) (high : k ≤ heads.length)
    (before : decodeAll heads 1 1 = .ok infos)
    (behind : decodeAll (heads.eraseIdx (k - 1)) 1 1 = .ok infos') : infos' = deleteAt k infos := by
  have inside : k - 1 < heads.length := by omega
  have length : (heads.take (k - 1)).length = k - 1 := by
    rw [List.length_take]
    omega
  have next : k - 1 + 1 = k := by omega
  rw [← List.take_append_drop (k - 1) heads, List.drop_eq_getElem_cons inside, next] at before
  rw [List.eraseIdx_eq_take_drop_succ, next] at behind
  obtain ⟨front, rest, rfl, built, tail⟩ := decodeAll_append.mp before
  obtain ⟨front', rest', rfl, built', tail'⟩ := decodeAll_append.mp behind
  cases built.symm.trans built'
  obtain ⟨old, later, rfl, _, shifted⟩ := decodeAll_cons.mp tail
  have count : front.length = k - 1 := (decodeAll_length built).trans length
  have moved := decodeAll_moved old.nbytes tail'
  cases shifted.symm.trans moved
  have entry : (front ++ old :: rest'.map (moveUp old.nbytes))[k - 1]? = some old := by
    rw [List.getElem?_append_right count.le, count, Nat.sub_self]
    rfl
  have drop : (front ++ old :: rest'.map (moveUp old.nbytes)).drop k =
      rest'.map (moveUp old.nbytes) := by
    rw [← next, ← List.drop_drop, List.drop_left' count]
    rfl
  rw [deleteAt, entry]
  dsimp only
  rw [List.take_left' count, drop, List.map_map]
  simp [Function.comp_def, moveDown_moveUp]

end Decode

end ColumnInfo

namespace Table
open HDU ColumnInfo

/-- A column that is added, by either overload, or deleted by its number. -/
inductive ColumnEdit where
  | add (ci : ColumnInfo)
  | addNew (ttype : String) (type : ID) (tunit : String) (extent : Extent) (colnum : Nat)
  | delete (colnum : Nat)

namespace ColumnEdit

def run (api : Cfitsio) (t : Nat) : ColumnEdit → M Unit
  | .add ci => Table.add api t ci
  | .addNew ttype type tunit extent colnum => Table.addNew api t ttype type tunit extent colnum
  | .delete colnum => Table.deleteColumn api t colnum

def InRange (n : Nat) : ColumnEdit → Prop
  | .add ci => ci.colnum ≤ n + 1
  | .addNew _ _ _ _ colnum => colnum ≤ n + 1
  | .delete colnum => 1 ≤ colnum ∧ colnum ≤ n

instance (n : Nat) : (e : ColumnEdit) → Decidable (e.InRange n)
  | .add ci => inferInstanceAs (Decidable (ci.colnum ≤ n + 1))
  | .addNew _ _ _ _ colnum => inferInstanceAs (Decidable (colnum ≤ n + 1))
  | .delete colnum => inferInstanceAs (Decidable (1 ≤ colnum ∧ colnum ≤ n))

/-- The place of a new column; zero stands for the end of the list. -/
def position (infos : List ColumnInfo) (colnum : Nat) : Nat :=
  if colnum = 0 then infos.length + 1 else colnum

def insert (k : Nat) (c : ColHead) (infos : List ColumnInfo) : List ColumnInfo :=
  match decode c k (1 + ((infos.take (k - 1)).map (fun ci => ci.nbytes)).sum) with
  | .ok new => insertAt k new infos
  | .error _ => infos

def onList (api : Cfitsio) : ColumnEdit → List ColumnInfo → List ColumnInfo
  | .add ci, infos => insert (position infos ci.colnum) (inserted ci) infos
  | .addNew ttype type tunit extent colnum, infos =>
    match make api ttype type tunit extent (position infos colnum) with
    | .ok ci => insert (position infos colnum) (inserted ci) infos
    | .error _ => infos
  | .delete colnum, infos => deleteAt colnum infos

end ColumnEdit

variable {api : Cfitsio} {t : Nat} {w w' : World}

/-- An edit with a number that makes sense returns, or other code runs. -/
def EditStep (api : Cfitsio) (t : Nat) : Option ColumnEdit → World → World → Prop
  | some e, w, w' => e.InRange (w.unitOf (.table t)).cols.length ∧ e.run api t w = .ok () w'
  | none, w, w' => Step api t .other w w'

def editList (api : Cfitsio) : Option ColumnEdit → List ColumnInfo → List ColumnInfo
  | some e => e.onList api
  | none => id

theorem position_eq (synced : Synced w t) (colnum : Nat) :
    ColumnEdit.position (w.tables t).columns colnum = added w t colnum := by
  rw [ColumnEdit.position, added, synced.length]

theorem insert_list (doc : Documented api) {colnum : Nat} {c : ColHead} {cells : Int → List Byte}
    {h : HduData} (synced : Synced w t)
    (range : colnum ≤ (w.unitOf (.table t)).cols.length + 1)
    (refreshes : refresh api t (w.put (.table t) h) = .ok () w')
    (cols : h.cols = (w.unitOf (.table t)).cols.take (added w t colnum - 1) ++
      ⟨c, cells⟩ :: (w.unitOf (.table t)).cols.drop (added w t colnum - 1)) :
    Synced w' t ∧ (w'.tables t).columns = ColumnEdit.insert (added w t colnum) c (w.tables t).columns := by
  refine ⟨synced_of_refresh doc refreshes, ?_⟩
  obtain ⟨infos', _, _, built, rfl⟩ := refresh_ok doc refreshes
  rw [World.unitOf_put, HduData.heads, cols, List.map_append, List.map_cons, List.map_take,
    List.map_drop] at built
  have high : added w t colnum ≤ (w.unitOf (.table t)).heads.length + 1 := by
    rw [HduData.heads, List.length_map]
    exact added_le range
  obtain ⟨new, described, rfl⟩ := decodeAll_insert added_pos high synced built
  rw [World.columns_setColumns, ColumnEdit.insert, described]

/-- One edit of the table is that edit of its descriptors. -/
theorem editStep_list (doc : Documented api) {e : Option ColumnEdit} (step : EditStep api t e w w')
    (synced : Synced w t) :
    Synced w' t ∧ (w'.tables t).columns = editList api e (w.tables t).columns := by
  cases e with
  | none =>
    obtain ⟨cache, unit⟩ : w'.tables t = w.tables t ∧
      w'.unitOf (.table t) = w.unitOf (.table t) := step
    exact ⟨synced.of_eq (by rw [unit]) (by rw [cache]), congrArg Table.columns cache⟩
  | some e =>
    obtain ⟨range, run⟩ := step
    cases e with
    | add ci =>
      obtain ⟨h, cells, refreshes, _, cols⟩ := add_run doc range run
      rw [editList, ColumnEdit.onList, position_eq synced]
      exact insert_list doc synced range refreshes cols
    | addNew ttype type tunit extent colnum =>
      obtain ⟨ci, h, cells, made, refreshes, _, cols⟩ := addNew_run doc range run
      rw [editList, ColumnEdit.onList, position_eq synced, made]
      exact insert_list doc synced range refreshes cols
    | delete colnum =>
      replace run := setAsChdu_bind_ok doc run
      obtain ⟨_, _, edits, refreshes⟩ := bind_ok.mp run
      obtain ⟨h, deleted, rfl⟩ := editFile_ok edits
      refine ⟨synced_of_refresh doc refreshes, ?_⟩
      obtain ⟨infos', _, _, built, rfl⟩ := refresh_ok doc refreshes
      obtain ⟨low, high, cols, _⟩ := doc.delete_col deleted
      have heads : h.heads = (w.unitOf (.table t)).heads.eraseIdx (colnum - 1) := by
        rw [HduData.heads, HduData.heads, cols, List.eraseIdx_map]
      rw [World.unitOf_put, heads] at built
      rw [World.columns_setColumns]
      exact decodeAll_delete low (by rw [HduData.heads, List.length_map]; exact high) synced built

/-- From a table that has just been built, any adding and deleting of columns
leaves in the cache the list that the same edits make of the one it held. -/
theorem cache_edited (doc : Documented api) {w₀ : World} {trace : List (Option ColumnEdit × World)}
    (built : refresh api t w₀ = .ok () w) (run : Trace (EditStep api t) w trace) :
    ((last w trace).tables t).columns =
      (trace.map Prod.fst).foldl (fun infos e => editList api e infos) (w.tables t).columns :=
  (Trace.fold (fun w : World => (w.tables t).columns) (editList api)
    (fun _ _ _ step synced => editStep_list doc step synced) (synced_of_refresh doc built) run).2

def builtPair : World := after (refresh Reference.api 0 pair)

def addedPair : World := after (addNew Reference.api 0 "S" .string "" [12] 1 builtPair)

def deletedPair : World := after (deleteColumn Reference.api 0 2 addedPair)

def pairEdits : List (Option ColumnEdit × World) :=
  [(some (.addNew "S" .string "" [12] 1), addedPair), (some (.delete 2), deletedPair)]

theorem cache_edited_pair : ((last builtPair pairEdits).tables 0).columns =
    (pairEdits.map Prod.fst).foldl (fun infos e => editList Reference.api e infos)
      (builtPair.tables 0).columns := by
  have built : refresh Reference.api 0 pair = .ok () builtPair :=
    ok_of_returned (by decide +kernel)
  have adds : addNew Reference.api 0 "S" .string "" [12] 1 builtPair = .ok () addedPair :=
    ok_of_returned (by decide +kernel)
  have deletes : deleteColumn Reference.api 0 2 addedPair = .ok () deletedPair :=
    ok_of_returned (by decide +kernel)
  have run : Trace (EditStep Reference.api 0) builtPair pairEdits :=
    ⟨⟨by decide +kernel, adds⟩, ⟨by decide +kernel, deletes⟩, trivial⟩
  exact cache_edited Reference.documented built run

end Table
end MisFITS
