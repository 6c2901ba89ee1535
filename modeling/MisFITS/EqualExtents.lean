import MisFITS.Table

/-! Equal extents of columns. What a column is made with and what is written of it comes
out of the shape of its extent, and `resize` leaves a column of an equal extent alone. -/
namespace MisFITS
open ColumnType Program HDU

namespace ColumnInfo

def withExtent (ci : ColumnInfo) (e : Extent) : ColumnInfo := { ci with extent := e }

def insertColumn (api : Cfitsio) (f : Nat) (ci : ColumnInfo) : M Unit := do
  if (← File.getMode f) = .readOnly then
    throw (.cfitsio .readonlyFile)
  editChdu f (api.insertCol ci.colnum ci.ttype ci.tform)

def WritesTdim (ci : ColumnInfo) : Prop := ∀ api f, insert api f ci = do
  insertColumn api f ci
  editChdu f (api.writeTdim ci.colnum ci.extent)

def OmitsTdim (ci : ColumnInfo) : Prop := ∀ api f, insert api f ci = insertColumn api f ci

/-- Two extents that a column can have without a difference to its descriptor or to
what is written of it but the text of TDIM, and between which a resize does nothing. -/
structure Interchangeable (a b : Extent) : Prop where
  nelem : a.nelem = b.nelem
  tform : ∀ ci : ColumnInfo, (ci.withExtent a).tform = (ci.withExtent b).tform
  nbytes : ∀ api ttype type tunit colnum,
    (make api ttype type tunit a colnum).map (fun ci => ci.nbytes) =
      (make api ttype type tunit b colnum).map (fun ci => ci.nbytes)
  cellBytes : ∀ s width, cellBytes s a.nelem width = cellBytes s b.nelem width
  column : ∀ api f (ci : ColumnInfo), insertColumn api f (ci.withExtent a) = insertColumn api f (ci.withExtent b)
  tdim : ∀ ci : ColumnInfo, WritesTdim (ci.withExtent a) ∧ WritesTdim (ci.withExtent b) ∨
    OmitsTdim (ci.withExtent a) ∧ OmitsTdim (ci.withExtent b)
  resize : ∀ api t k w info, 1 ≤ k → (w.tables t).columns[k - 1]? = some info → info.extent = a →
    Table.resize api t k b w = setAsChdu api (.table t) w

variable {a b : Extent} {ci : ColumnInfo}

theorem insert_eq (api : Cfitsio) (f : Nat) (ci : ColumnInfo) :
    insert api f ci = insertColumn api f ci >>= fun _ =>
      if 1 < ci.extent.squeeze.naxes then editChdu f (api.writeTdim ci.colnum ci.extent)
      else pure () := by
  unfold insert insertColumn
  simp only [bind_assoc]
  congr 1
  funext mode
  by_cases readOnly : mode = .readOnly
  · simp [readOnly]
  · simp [readOnly]

theorem writesTdim (deep : 1 < ci.extent.squeeze.naxes) : WritesTdim ci := by
  intro api f
  rw [insert_eq]
  simp only [deep, if_true]

theorem omitsTdim (flat : ¬1 < ci.extent.squeeze.naxes) : OmitsTdim ci := by
  intro api f
  rw [insert_eq]
  simp only [flat, if_false]
  exact bind_pure _

theorem resize_equal {api : Cfitsio} {t k : Nat} {w : World} {info : ColumnInfo} (low : 1 ≤ k)
    (entry : (w.tables t).columns[k - 1]? = some info) (same : Extent.equal info.extent b = true) :
    Table.resize api t k b w = setAsChdu api (.table t) w := by
  have moved : World.Moved w (after (setAsChdu api (.table t) w)) :=
    File.moved_moveTo (w.base (.table t)).file (w.base (.table t)).hduNum w
  unfold Table.resize
  cases goes : setAsChdu api (.table t) w with
  | error e w' => exact bind_of_error goes _
  | ok u w' =>
    rw [goes] at moved
    have looks : Table.colinfo t k w' = .ok info w' :=
      Table.colinfo_ok.mpr ⟨low, (congrFun moved.tables t) ▸ entry, rfl⟩
    rw [bind_of_ok goes, bind_of_ok looks, same]
    rfl

theorem tform_factors (ci : ColumnInfo) :
    (fun e => (ci.withExtent e).tform).FactorsThrough Extent.shape :=
  Extent.nelem_factors.comp_left (fun nelem =>
    (if 1 < nelem then toString nelem else "") ++ ci.columnType.code.toString)

theorem nbytes_factors (api : Cfitsio) (ttype : String) (type : ID) (tunit : String) (colnum : Nat) :
    (fun e => (make api ttype type tunit e colnum).map (fun ci => ci.nbytes)).FactorsThrough
      Extent.shape := by
  intro a b same
  unfold make
  dsimp only
  rw [Extent.nelem_factors same]
  cases specFromId type with
  | error e => rfl
  | ok s =>
    change Except.map _ (s.width api (toSize b.nelem) >>= _) =
      Except.map _ (s.width api (toSize b.nelem) >>= _)
    cases s.width api (toSize b.nelem) with
    | error e => rfl
    | ok n => rfl

theorem interchangeable (same : Extent.equal a b = true) : Interchangeable a b where
  nelem := Extent.nelem_equal same
  tform ci := tform_factors ci (Extent.equal_iff_shape.mp same)
  nbytes api ttype type tunit colnum :=
    nbytes_factors api ttype type tunit colnum (Extent.equal_iff_shape.mp same)
  cellBytes s width := by rw [Extent.nelem_equal same]
  column api f ci := by
    unfold insertColumn
    rw [show (ci.withExtent a).tform = (ci.withExtent b).tform from
      tform_factors ci (Extent.equal_iff_shape.mp same)]
    rfl
  tdim ci := by
    by_cases deep : 1 < b.squeeze.naxes
    · exact Or.inl ⟨writesTdim ((Extent.equal_iff.mp same).symm ▸ deep), writesTdim deep⟩
    · exact Or.inr ⟨omitsTdim ((Extent.equal_iff.mp same).symm ▸ deep), omitsTdim deep⟩
  resize api t k w info low entry extent := resize_equal low entry (extent ▸ same)

/-- Equality of extents is an equivalence in which an extent stands for its dimensions
other than one, and equal extents can stand for each other. -/
theorem equal_congruent :
    Equivalence (fun a b => Extent.equal a b = true) ∧
    (∀ a : Extent, Extent.equal a a.squeeze = true ∧ a.squeeze.squeeze = a.squeeze) ∧
    ∀ a b, Extent.equal a b = true → Interchangeable a b :=
  ⟨Extent.equal_equivalence, fun a => ⟨Extent.equal_squeeze a, Extent.squeeze_squeeze a⟩,
    fun _ _ same => interchangeable same⟩

theorem equal_congruent_units :
    Extent.equal [1, 3, 1, 2] [3, 2, 1] = true ∧ Interchangeable [1, 3, 1, 2] [3, 2, 1] :=
  ⟨by decide, equal_congruent.2.2 [1, 3, 1, 2] [3, 2, 1] (by decide)⟩

end ColumnInfo
end MisFITS
