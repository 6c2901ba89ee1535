import MisFITS.Segments
import MisFITS.Reference
import MisFITS.Table

/-! The byte ranges of the cached descriptors against the row of the file, in
which strings are read and written by their offset. -/
namespace MisFITS
open ColumnType Program Segments

namespace ColHead

/-- A fixed-length column of a supported type: TDIM has as many elements as the
repeat count says, and sizes are those of an `int`. -/
structure WellFormed (c : ColHead) : Prop where
  supported : ∃ s, specFromId c.typecode = .ok s
  tdim : ∀ axes, c.tdim = some axes → axes.prod = c.reps
  small : c.reps < 2 ^ 31

/-- Whole strings fill a cell that has no more than one axis. -/
def Splits (c : ColHead) : Prop :=
  c.typecode = .string → c.axes.length = 1 → c.reportedWidth ≠ 0 ∧ c.reportedWidth ∣ c.reps

instance (c : ColHead) : Decidable c.Splits :=
  inferInstanceAs (Decidable (c.typecode = .string → c.axes.length = 1 →
    c.reportedWidth ≠ 0 ∧ c.reportedWidth ∣ c.reps))

variable {c : ColHead}

theorem prod_axes (well : c.WellFormed) : c.axes.prod = c.reps := by
  unfold axes
  cases tdim : c.tdim with
  | none => simp
  | some axes => exact well.tdim axes tdim

theorem nelem_axes (well : c.WellFormed) : Extent.nelem c.axes = c.reps := by
  have small := well.small
  rw [Extent.nelem_of_lt (by rw [prod_axes well]; omega) (by rw [prod_axes well]; omega),
    prod_axes well]

end ColHead

namespace ColumnInfo

theorem cellBytes_bit (n : Nat) (width : Int) : cellBytes .bit n width = ((n + 7) / 8 : Nat) := by
  have quotient : (n : Int).tdiv 8 = ((n / 8 : Nat) : Int) := by
    rw [Int.tdiv_eq_ediv_of_nonneg (by omega)]
    omega
  simp only [cellBytes, Spec.id, if_true, quotient]
  split <;> omega

theorem cellBytes_other {s : Spec} (other : s ≠ .bit) (n : Nat) (width : Int)
    (size : s ≠ .string → width = elemSize s.id) : cellBytes s n width = n * elemSize s.id := by
  have id : s.id ≠ .bit := fun same => other (Spec.id_inj.mp same)
  unfold cellBytes
  rw [if_neg id]
  by_cases string : s = .string
  · rw [string]
    simp [Spec.id, elemSize]
  · have id' : s.id ≠ .string := fun same => string (Spec.id_inj.mp same)
    rw [if_neg id', size string]

theorem rowBytes_other {c : ColHead} {s : Spec} (id : s.id = c.typecode) (other : s ≠ .bit) :
    c.rowBytes = c.reps * elemSize s.id := by
  unfold ColHead.rowBytes
  rw [← id]
  cases s with
  | bit => exact absurd rfl other
  | string => exact (Nat.mul_one _).symm
  | _ => rfl

theorem cellBytes_axes {c : ColHead} {s : Spec} (well : c.WellFormed)
    (id : s.id = c.typecode) : cellBytes s (Extent.nelem c.axes) c.reportedWidth = c.rowBytes := by
  rw [ColHead.nelem_axes well]
  by_cases bit : s = .bit
  · subst bit
    rw [cellBytes_bit]
    unfold ColHead.rowBytes
    rw [← id]
    rfl
  · rw [cellBytes_other bit, rowBytes_other id bit]
    · simp
    · intro string
      unfold ColHead.reportedWidth
      rw [if_neg, id]
      intro same
      exact string (Spec.id_inj.mp (id.trans same))

theorem width_nonneg {c : ColHead} (well : c.WellFormed) (string : c.typecode = .string)
    (one : c.axes.length = 1) : 0 ≤ c.reportedWidth := by
  unfold ColHead.reportedWidth
  rw [if_pos string]
  cases tdim : c.tdim with
  | none => simp
  | some axes =>
    rw [ColHead.axes, tdim, Option.getD_some] at one
    obtain ⟨a, rfl⟩ := List.length_eq_one_iff.mp one
    have whole : a = c.reps := by simpa using well.tdim [a] tdim
    simp [whole]

theorem nelem_strings {reps : Nat} {width : Int} (low : 0 ≤ width) (nonzero : width ≠ 0)
    (small : reps < 2 ^ 31) :
    Extent.nelem [width, (reps : Int).tdiv width] = width * (reps : Int).tdiv width := by
  have upper : width * (reps : Int).tdiv width ≤ reps := by
    rw [Int.tdiv_eq_ediv_of_nonneg (by omega)]
    exact Int.mul_ediv_self_le nonzero
  have lower : 0 ≤ width * (reps : Int).tdiv width :=
    Int.mul_nonneg low (Int.tdiv_nonneg (by omega) low)
  have product : [width, (reps : Int).tdiv width].prod = width * (reps : Int).tdiv width := by
    simp
  rw [Extent.nelem_of_lt (by rw [product]; exact lower) (by rw [product]; omega), product]

/-- A descriptor has the true width just when the cell is filled by whole strings. -/
theorem decode_nbytes {c : ColHead} {k : Nat} {offset : Int} {ci : ColumnInfo}
    (well : c.WellFormed) (described : decode c k offset = .ok ci) :
    ci.nbytes = c.rowBytes ↔ c.Splits := by
  obtain ⟨_, _, id, extent, _, _, nbytes⟩ := decode_ok described
  rw [nbytes]
  unfold shape at extent
  split at extent
  · rename_i one
    have string : ci.columnType = .string := Spec.id_inj.mp (id.trans one.1)
    unfold divide at extent
    split at extent
    · cases extent
    · rename_i nonzero
      have strings := Except.ok.inj extent
      rw [← strings, nelem_strings (width_nonneg well one.1 one.2) nonzero well.small, string]
      have bytes : c.rowBytes = c.reps := by simp [ColHead.rowBytes, one.1]
      simp only [cellBytes, Spec.id, bytes]
      constructor
      · intro whole _ _
        exact ⟨nonzero, _, by simpa using whole.symm⟩
      · intro splits
        simpa using Int.mul_tdiv_cancel' (splits one.1 one.2).2
  · rename_i other
    rw [← Except.ok.inj extent]
    constructor
    · intro _ string one
      exact absurd ⟨string, one⟩ other
    · intro _
      exact cellBytes_axes well id

theorem decode_error {c : ColHead} {k : Nat} {offset : Int} {e : Exception}
    (well : c.WellFormed) (failed : decode c k offset = .error e) :
    e = .divideByZero ∧ ¬c.Splits := by
  obtain ⟨s, spec⟩ := well.supported
  unfold decode shape divide at failed
  rw [spec] at failed
  dsimp only at failed
  split at failed
  · rename_i one
    split at failed
    · rename_i zero
      cases failed
      exact ⟨rfl, fun splits => (splits one.1 one.2).1 zero⟩
    · cases failed
  · cases failed

theorem decodeAll_nbytes {heads : List ColHead} {k : Nat} {offset : Int} {infos : List ColumnInfo}
    (well : ∀ c ∈ heads, c.WellFormed) (splits : ∀ c ∈ heads, c.Splits)
    (built : decodeAll heads k offset = .ok infos) :
    infos.map (fun ci => ci.nbytes) = heads.map (fun c => (c.rowBytes : Int)) := by
  induction heads generalizing k offset infos with
  | nil => cases built; rfl
  | cons c heads ih =>
    obtain ⟨ci, rest, rfl, first, tail⟩ := decodeAll_cons.mp built
    have width := (decode_nbytes (well c List.mem_cons_self) first).mpr
      (splits c List.mem_cons_self)
    have widths := ih (fun d member => well d (List.mem_cons_of_mem c member))
      (fun d member => splits d (List.mem_cons_of_mem c member)) tail
    rw [List.map_cons, List.map_cons, width, widths]

end ColumnInfo

def HduData.naxis1 (h : HduData) : Int := (h.heads.map (fun c => (c.rowBytes : Int))).sum

namespace Table

variable {api : Cfitsio} {t : Nat} {w : World}

/-- Building the cache divides by no zero, and the byte ranges it holds fill the row. -/
structure Laid (api : Cfitsio) (t : Nat) (w : World) : Prop where
  divides : ∀ w', refresh api t w ≠ .error .divideByZero w'
  tiles : ∀ w', refresh api t w = .ok () w' →
    Tiles ColumnInfo.offset ColumnInfo.nbytes 1 (1 + (w.unitOf (.table t)).naxis1)
      (w'.tables t).columns
  widths : ∀ w', refresh api t w = .ok () w' → ∀ (i : Nat) ci c,
    (w'.tables t).columns[i]? = some ci → (w.unitOf (.table t)).heads[i]? = some c →
      ci.nbytes = c.rowBytes

theorem laid_of_splits (doc : Documented api) {u : Unit} {v : World} (own : w.Attached (.table t))
    (binary : (w.unitOf (.table t)).type = .binaryTable)
    (named : HDU.refresh api (.table t) (w.onto (.table t)) = .ok u v)
    (well : ∀ c ∈ (w.unitOf (.table t)).heads, c.WellFormed)
    (splits : ∀ c ∈ (w.unitOf (.table t)).heads, c.Splits) : Laid api t w := by
  have runs := refresh_run doc own binary named
  refine ⟨fun w' failed => ?_, fun w' run => ?_, fun w' run i ci c entry column => ?_⟩
  · cases built : ColumnInfo.decodeAll (w.unitOf (.table t)).heads 1 1 with
    | ok infos =>
      rw [built] at runs
      rw [runs] at failed
      cases failed
    | error e =>
      obtain ⟨c, member, k, offset, described⟩ := ColumnInfo.decodeAll_error built
      exact (ColumnInfo.decode_error (well c member) described).2 (splits c member)
  · obtain ⟨infos, _, _, built, rfl⟩ := refresh_ok doc run
    rw [World.columns_setColumns, tiles_iff]
    refine ⟨fun i ci entry => ?_, ?_⟩
    · obtain ⟨c, _, described⟩ := ColumnInfo.decodeAll_get built entry
      exact (ColumnInfo.decode_ok described).2.2.2.2.2.1
    · exact congrArg (fun sizes => 1 + List.sum sizes)
        (ColumnInfo.decodeAll_nbytes well splits built)
  · obtain ⟨infos, _, _, built, rfl⟩ := refresh_ok doc run
    rw [World.columns_setColumns] at entry
    obtain ⟨d, member, described⟩ := ColumnInfo.decodeAll_get built entry
    obtain rfl : d = c := Option.some.inj (member.symm.trans column)
    have here := List.mem_of_getElem? column
    exact (ColumnInfo.decode_nbytes (well d here) described).mpr (splits d here)

theorem splits_of_laid (doc : Documented api) {u : Unit} {v : World} (own : w.Attached (.table t))
    (binary : (w.unitOf (.table t)).type = .binaryTable)
    (named : HDU.refresh api (.table t) (w.onto (.table t)) = .ok u v)
    (well : ∀ c ∈ (w.unitOf (.table t)).heads, c.WellFormed) (laid : Laid api t w) :
    ∀ c ∈ (w.unitOf (.table t)).heads, c.Splits := by
  have runs := refresh_run doc own binary named
  intro c here
  cases built : ColumnInfo.decodeAll (w.unitOf (.table t)).heads 1 1 with
  | error e =>
    rw [built] at runs
    obtain ⟨infos, failed⟩ := runs
    obtain ⟨d, member, k, offset, described⟩ := ColumnInfo.decodeAll_error built
    rw [(ColumnInfo.decode_error (well d member) described).1] at failed
    exact absurd failed (laid.divides _)
  | ok infos =>
    rw [built] at runs
    obtain ⟨i, inside, value⟩ := List.mem_iff_getElem.mp here
    have column : (w.unitOf (.table t)).heads[i]? = some c :=
      List.getElem?_eq_some_iff.mpr ⟨inside, value⟩
    have inside' : i < infos.length := by rwa [ColumnInfo.decodeAll_length built]
    have entry := List.getElem?_eq_getElem inside'
    obtain ⟨d, member, described⟩ := ColumnInfo.decodeAll_get built entry
    obtain rfl : d = c := Option.some.inj (member.symm.trans column)
    exact (ColumnInfo.decode_nbytes (well d here) described).mp
      (laid.widths _ runs i _ d (by rw [World.columns_setColumns]; exact entry) column)

/-- The cache of a binary table is laid out as its rows exactly when the strings
of every cell with one axis have a width other than zero that divides the cell. -/
theorem laid_iff_splits (doc : Documented api) {u : Unit} {v : World}
    (own : w.Attached (.table t)) (binary : (w.unitOf (.table t)).type = .binaryTable)
    (named : HDU.refresh api (.table t) (w.onto (.table t)) = .ok u v)
    (well : ∀ c ∈ (w.unitOf (.table t)).heads, c.WellFormed) :
    Laid api t w ↔ ∀ c ∈ (w.unitOf (.table t)).heads, c.Splits :=
  ⟨splits_of_laid doc own binary named well, laid_of_splits doc own binary named well⟩

def mixed : World :=
  Reference.world
    (Reference.table
      [Reference.column "S" .string 12 3, Reference.column "X" .bit 9 9,
        Reference.column "D" .double 1 1] 0)
    Reference.primary Reference.primary

theorem head_wellFormed (ttype : String) (s : Spec) {reps : Nat} (width : Nat)
    (small : reps < 2 ^ 31) : (Reference.head ttype s reps width).WellFormed where
  supported := by cases s <;> exact ⟨_, rfl⟩
  tdim _ some := nomatch some
  small := small

theorem laid_mixed : Laid Reference.api 0 mixed := by
  obtain ⟨v, named⟩ : ∃ v, HDU.refresh Reference.api (.table 0) (mixed.onto (.table 0)) =
      .ok () v := ⟨_, rfl⟩
  have heads : (mixed.unitOf (.table 0)).heads =
      [Reference.head "S" .string 12 3, Reference.head "X" .bit 9 9,
        Reference.head "D" .double 1 1] := rfl
  have well : ∀ c ∈ (mixed.unitOf (.table 0)).heads, c.WellFormed := by
    rw [heads]
    simp [head_wellFormed]
  exact (laid_iff_splits Reference.documented ⟨by decide, by decide⟩ rfl named well).mpr (by decide)

def uneven : World :=
  Reference.world
    (Reference.table [Reference.column "S" .string 10 3, Reference.column "J" .long 1 1] 0)
    Reference.primary Reference.primary

def hollow : World :=
  Reference.world (Reference.table [Reference.column "S" .string 0 0] 0) Reference.primary
    Reference.primary

/-- A byte of the first string is lost, and strings of no width are divided by. -/
theorem not_laid : (¬Laid Reference.api 0 uneven ∧ ∃ w, refresh Reference.api 0 uneven = .ok () w ∧
      (w.tables 0).columns.map (fun ci => (ci.offset, ci.nbytes)) = [(1, 9), (10, 4)] ∧
      (uneven.unitOf (.table 0)).naxis1 = 14) ∧
    ¬Laid Reference.api 0 hollow := by
  refine ⟨⟨fun laid => ?_, _, rfl, by decide, by decide⟩, fun laid => laid.divides _ rfl⟩
  obtain ⟨v, named⟩ : ∃ v, HDU.refresh Reference.api (.table 0) (uneven.onto (.table 0)) =
      .ok () v := ⟨_, rfl⟩
  have heads : (uneven.unitOf (.table 0)).heads =
      [Reference.head "S" .string 10 3, Reference.head "J" .long 1 1] := rfl
  have well : ∀ c ∈ (uneven.unitOf (.table 0)).heads, c.WellFormed := by
    rw [heads]
    simp [head_wellFormed]
  have splits := splits_of_laid Reference.documented ⟨by decide, by decide⟩ rfl named well laid
  exact absurd splits (by decide)

end Table
end MisFITS
