import MisFITS.Composed
import MisFITS.CopiedRecords
import MisFITS.Flush

/-! Tables that have got their cells from the columns of another one: all of its rows, behind
a flush of both. -/
namespace MisFITS
open ColumnType Program HDU Run Slices

/-- The documented behaviour of the calls when cells are in two tables: an answer depends
on the cells and the shape of the column alone, and has all elements that were asked for. -/
structure CellAnswers (api : Cfitsio) : Prop where
  blank : ∀ c, (api.blank c).length = c.rowBytes
  read_col : ∀ {T j k row h h' c c'} {n : Nat}, h.column j = some c → h'.column k = some c' →
    c.SameShape c'.toColHead → c'.cells row = c.cells row → n ≤ c.elements → 1 ≤ row →
    row ≤ h.nrows → row ≤ h'.nrows → api.readCol T k row 1 n h' = api.readCol T j row 1 n h
  read_whole : ∀ {T k row h c data} {n : Nat}, h.Sized → h.column k = some c →
    0 < elemSize c.typecode → n ≤ c.elements → api.readCol T k row 1 n h = .ok data →
    data.length = n

theorem ColumnType.Spec.elemSize_pos {s : Spec} : 0 < elemSize s.id := by cases s <;> decide

def HduData.Typed (h : HduData) : Prop :=
  ∀ {k c}, h.column k = some c → 0 < elemSize c.typecode

theorem ColHead.SameShape.rowBytes {a b : ColHead} (same : a.SameShape b) :
    b.rowBytes = a.rowBytes := by
  obtain ⟨code, reps, _⟩ := same
  unfold ColHead.rowBytes
  rw [code, reps]

namespace Table

variable {api : Cfitsio} {order : ArgOrder} {src dest : Nat} {w w' : World} {names : List String}
  {source target h : HduData}

theorem typed_of_synced {t : Nat} (synced : Synced w t) : (w.unitOf (.table t)).Typed := by
  intro k c column
  obtain ⟨_, entry⟩ := HduData.column_iff.mp column
  have head : (w.unitOf (.table t)).heads[k - 1]? = some c.toColHead := by simp [HduData.heads, entry]
  have inside := (List.getElem?_eq_some_iff.mp head).1
  rw [← ColumnInfo.decodeAll_length synced] at inside
  obtain ⟨c', same, decoded⟩ :=
    ColumnInfo.decodeAll_get synced (List.getElem?_eq_getElem inside)
  cases head.symm.trans same
  rw [← (ColumnInfo.decode_ok decoded).2.2.1]
  exact Spec.elemSize_pos

/-- As many rows as the source has, in which the columns of the names hold what its own do. -/
structure Mirrors (api : Cfitsio) (source target : HduData) (names : List String) (h : HduData) :
    Prop where
  heads : h.heads = target.heads
  nrows : h.nrows = source.nrows
  sized : h.Sized
  holds : Holds api source target names h

structure SameSeats (w w' : World) : Prop where
  file : ∀ o, (w'.base o).file = (w.base o).file
  hduNum : ∀ o, (w'.base o).hduNum = (w.base o).hduNum
  numHdus : ∀ f, (w'.files f).numHdus = (w.files f).numHdus

namespace SameSeats

variable {α : Type} {how : Nat}

theorem refl (w : World) : SameSeats w w := ⟨fun _ => rfl, fun _ => rfl, fun _ => rfl⟩

theorem trans (w v w' : World) (first : SameSeats w v) (later : SameSeats v w') :
    SameSeats w w' where
  file o := (later.file o).trans (first.file o)
  hduNum o := (later.hduNum o).trans (first.hduNum o)
  numHdus f := (later.numHdus f).trans (first.numHdus f)

theorem attached (same : SameSeats w w') {o : Obj} (own : w.Attached o) : w'.Attached o := by
  unfold World.Attached
  rw [same.hduNum, same.file, same.numHdus]
  exact own

theorem of_moved (moved : w.Moved w') : SameSeats w w' where
  file o := by rw [moved.base]
  hduNum o := by rw [moved.base]
  numHdus := moved.numHdus

theorem put (f : Nat) (n : Int) (h : HduData) : SameSeats w (w.putUnit f n h) where
  file o := by rw [World.base_putUnit]
  hduNum o := by rw [World.base_putUnit]
  numHdus g := by rw [World.numHdus_putUnit]

theorem rename {o : Obj} {extname : String} {extver : Int} :
    SameSeats w (w.rename o extname extver) where
  file _ := World.file_rename
  hduNum _ := World.hduNum_rename
  numHdus _ := by rw [World.files_rename]

theorem setColumns {t : Nat} {infos : List ColumnInfo} : SameSeats w (w.setColumns t infos) where
  file _ := by rw [World.base_setColumns]
  hduNum _ := by rw [World.base_setColumns]
  numHdus _ := rfl

theorem keeps_editChdu (f : Nat) (e : Edit) : Keeps SameSeats (editChdu f e) := by
  intro w
  unfold editChdu
  cases e (w.current f) <;> exact put f _ _

theorem composed : Composed api (Keeps SameSeats) where
  pure := Keeps.pure refl
  bind := Keeps.bind trans
  ite := Keeps.ite
  check _ := Keeps.check refl
  look call keeps w := keeps w w
  setAsChdu _ w := of_moved (moved_setAsChdu w)
  read _ r := keeps_readChdu refl r
  inspect _ _ w := refl w
  ofExcept _ := keeps_ofExcept refl _
  judge _ := by
    refine Keeps.bind trans ?_ (fun _ => keeps_ofExcept refl _)
    exact Keeps.bind trans (fun w => of_moved (moved_setAsChdu w)) (fun _ w => refl w)
  setExtname _ _ _ := rename
  setExtver _ _ _ := rename
  setColumns _ _ _ := setColumns

theorem examined (plan : CopyPlan) (name : String) :
    Keeps SameSeats (examine api src dest how plan name) := by
  have asks : ∀ t, Keeps SameSeats (hasColumn api t name) := fun _ => composed.readOwn _
  refine Keeps.bind trans (asks src) (fun there => Keeps.check refl ?_)
  refine Keeps.bind trans (composed.colinfoByName name) (fun _ => ?_)
  refine Keeps.bind trans (asks dest) (fun here => ?_)
  refine Keeps.ite (Keeps.pure refl _) (Keeps.ite (Keeps.throw refl _) (Keeps.ite ?_ ?_))
  · refine Keeps.bind trans ?_ (fun _ => Keeps.pure refl _)
    exact composed.deleteColumnByName name (fun _ _ => keeps_editChdu _ _)
  · exact Keeps.ite (Keeps.pure refl _) (Keeps.throw refl _)

theorem copied : Keeps SameSeats (copyColumns api order src dest names how) := by
  unfold copyColumns
  refine Keeps.ite (Keeps.pure refl ()) ?_
  refine Keeps.bind trans (composed.setAsChdu _) (fun _ => ?_)
  refine Keeps.bind trans (composed.setAsChdu _) (fun _ => ?_)
  refine Keeps.bind trans (Keeps.loop refl trans (fun _ _ => examined _ _) names _) (fun _ => ?_)
  refine Keeps.bind trans (composed.createColumns _ (fun _ _ => keeps_editChdu _ _)) (fun _ => ?_)
  refine Keeps.bind trans (composed.extendRows (fun _ _ _ => keeps_editChdu _ _)) (fun _ => ?_)
  refine Keeps.bind trans composed.refresh (fun _ => ?_)
  exact Keeps.loop refl trans
    (fun _ _ => composed.copyOne _ _ (fun _ _ _ _ => keeps_editChdu _ _)) _ _

end SameSeats

end Table

theorem Table.Grown.sameHeads {w w' : World} {t : Nat} (grown : Table.Grown w t)
    (same : w.SameHeads w') (sized : (w'.unitOf (.table t)).Sized) : Table.Grown w' t where
  synced := same.synced grown.synced
  made := by
    rw [same.unitOf]
    exact grown.made
  sized := sized

end MisFITS
