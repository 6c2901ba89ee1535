import MisFITS.Run
import MisFITS.CopyColumns
import MisFITS.Reference

/-! The cached descriptors of a table against its header. A cache is `Synced`
when it is what the header describes; every operation that changes the columns
and refreshes ends in such a state. -/
namespace MisFITS
open Program Run

namespace Table
open HDU

variable {api : Cfitsio} {t : Nat} {w w' : World}

/-- The cache is what `refresh` builds from the header. -/
def Synced (w : World) (t : Nat) : Prop :=
  ColumnInfo.decodeAll (w.unitOf (.table t)).heads 1 1 = .ok (w.tables t).columns

theorem synced_of_refresh (doc : Documented api) {u : Unit} (run : refresh api t w = .ok u w') :
    Synced w' t := by
  obtain ⟨infos, extname, extver, built, rfl⟩ := refresh_ok doc run
  simpa [Synced] using built

/-- Synced is about the cache and the columns of the header alone. -/
theorem Synced.of_eq (synced : Synced w t)
    (heads : (w'.unitOf (.table t)).heads = (w.unitOf (.table t)).heads)
    (cache : (w'.tables t).columns = (w.tables t).columns) : Synced w' t := by
  unfold Synced
  rw [heads, cache]
  exact synced

theorem Synced.length (synced : Synced w t) :
    (w.tables t).columns.length = (w.unitOf (.table t)).cols.length := by
  rw [ColumnInfo.decodeAll_length synced, HduData.heads, List.length_map]

theorem copyOne_synced (doc : Documented api) {src : Nat} {ci : ColumnInfo} {u : Unit}
    (run : copyOne api src t u ci w = .ok () w') (synced : Synced w t) : Synced w' t := by
  obtain ⟨_, _, _, _, h, copied, rfl⟩ := copyOne_ok doc run
  exact synced.of_eq (by rw [World.unitOf_put, copy_col_heads doc copied]) rfl

theorem copyColumns_synced (doc : Documented api) {order : ArgOrder} {src : Nat}
    {names : List String} {how : Nat} {u : Unit}
    (run : copyColumns api order src t names how w = .ok u w') (synced : Synced w t) :
    Synced w' t := by
  rcases copyColumns_ok doc run with ⟨_, rfl⟩ | ⟨plan, _, _, _, w₄, _, _, _, refreshed, copied⟩
  · exact synced
  · exact loop_keeps (P := fun w => Synced w t)
      (fun _ _ _ _ _ held pass => copyOne_synced doc pass held)
      (synced_of_refresh doc refreshed) copied

theorem Synced.onto (synced : Synced w t) (o : Obj) : Synced (w.onto o) t :=
  synced.of_eq (by rw [World.unitOf_onto]) rfl

theorem deleteColumnByName_length (doc : Documented api) {name : String} {u : Unit}
    (run : deleteColumnByName api t name w = .ok u w') (synced : Synced w t) :
    (w'.tables t).columns.length = (w'.unitOf (.table t)).cols.length + 1 := by
  obtain ⟨k, ci, h, _, _, _, deleted, rfl⟩ := deleteColumnByName_ok doc run
  obtain ⟨low, high, fewer, _⟩ := doc.delete_col deleted
  rw [World.unitOf_put, World.tables_put, synced.length, fewer, List.length_eraseIdx]
  split <;> omega

inductive Mutator where
  | add (ci : ColumnInfo)
  | addNew (ttype : String) (type : ColumnType.ID) (tunit : String) (extent : Extent)
      (colnum : Nat)
  | resize (colnum : Nat) (extent : Extent)
  | resizeByName (name : String) (extent : Extent)
  | deleteColumn (colnum : Nat)
  | deleteColumnByName (name : String)
  | copyInto (order : ArgOrder) (src : Nat) (names : List String) (how : Nat)
  | copyAllInto (order : ArgOrder) (src : Nat) (how : Nat)

def Mutator.run (api : Cfitsio) (t : Nat) : Mutator → M Unit
  | .add ci => Table.add api t ci
  | .addNew ttype type tunit extent colnum => Table.addNew api t ttype type tunit extent colnum
  | .resize colnum extent => Table.resize api t colnum extent
  | .resizeByName name extent => Table.resizeByName api t name extent
  | .deleteColumn colnum => Table.deleteColumn api t colnum
  | .deleteColumnByName name => Table.deleteColumnByName api t name
  | .copyInto order src names how => Table.copyColumns api order src t names how
  | .copyAllInto order src how => Table.copyAllColumns api order src t how

/-- What happens to a table: one of its operations returns, or other code runs. -/
inductive Event where
  | own (m : Mutator)
  | other

/-- Other code moves cursors and changes other objects and header-data units. -/
def Step (api : Cfitsio) (t : Nat) : Event → World → World → Prop
  | .own m, w, w' => m.run api t w = .ok () w'
  | .other, w, w' => w'.tables t = w.tables t ∧ w'.unitOf (.table t) = w.unitOf (.table t)

def Event.deletesByName : Event → Bool
  | .own (.deleteColumnByName _) => true
  | _ => false

theorem step_synced (doc : Documented api) {e : Event} (good : e.deletesByName = false)
    (step : Step api t e w w') (synced : Synced w t) : Synced w' t := by
  have fresh : Refreshed api t w' → Synced w' t := fun ⟨_, run⟩ => synced_of_refresh doc run
  cases e with
  | other => exact synced.of_eq (by rw [step.2]) (by rw [step.1])
  | own m =>
    cases m with
    | add ci => exact fresh (add_ok step)
    | addNew ttype type tunit extent colnum => exact fresh (addNew_ok step)
    | resize colnum extent =>
      rcases resize_ok doc step with rfl | refreshed
      · exact synced.onto _
      · exact fresh refreshed
    | resizeByName name extent =>
      rcases resizeByName_ok doc step with rfl | refreshed
      · exact synced.onto _
      · exact fresh refreshed
    | deleteColumn colnum => exact fresh (deleteColumn_ok step)
    | deleteColumnByName name => cases good
    | copyInto order src names how => exact copyColumns_synced doc step synced
    | copyAllInto order src how =>
      obtain ⟨names, run⟩ := copyAllColumns_ok doc step
      exact copyColumns_synced doc run (synced.onto _)

structure Faithful (api : Cfitsio) (t : Nat) (w : World) : Prop where
  /-- A `refresh` that returns changes nothing. -/
  rebuilt : ∀ w', refresh api t w = .ok () w' → (w'.tables t).columns = (w.tables t).columns
  /-- There are as many entries as columns, which is what `num_columns()` returns. -/
  length : (w.tables t).columns.length = (w.unitOf (.table t)).cols.length
  count : ∀ n w', numColumns api t w = .ok n w' → n = (w.tables t).columns.length
  /-- Entry `k - 1` describes column `k`. -/
  describes : ∀ k ci, 1 ≤ k → (w.tables t).columns[k - 1]? = some ci →
    ∃ c, (w.unitOf (.table t)).column k = some c ∧ ci.ttype = c.ttype ∧
      ci.tunit = c.tunit.getD "" ∧ ci.columnType.id = c.typecode ∧
      ColumnInfo.shape c.toColHead = .ok ci.extent ∧ ci.colnum = k ∧
      ci.nbytes = ColumnInfo.cellBytes ci.columnType ci.extent.nelem c.reportedWidth
  /-- Its offset is behind the columns before it. -/
  offset : ∀ k ci, 1 ≤ k → (w.tables t).columns[k - 1]? = some ci →
    ci.offset = 1 + (((w.tables t).columns.take (k - 1)).map (fun ci => ci.nbytes)).sum
  /-- `colinfo( k )` succeeds for the columns that are there. -/
  colinfo : ∀ k, (∃ ci, Table.colinfo t k w = .ok ci w) ↔
    1 ≤ k ∧ k ≤ (w.unitOf (.table t)).cols.length

theorem faithful_of_synced (doc : Documented api) (synced : Synced w t) : Faithful api t w where
  rebuilt w' run := by
    obtain ⟨infos, _, _, built, rfl⟩ := refresh_ok doc run
    rw [synced] at built
    cases built
    simp
  length := synced.length
  count n w' counts := by
    rw [synced.length, (numColumns_ok doc counts).1]
  describes k ci low entry := by
    obtain ⟨c, member, described⟩ := ColumnInfo.decodeAll_get synced entry
    obtain ⟨col, inside, rfl⟩ : ∃ col, (w.unitOf (.table t)).cols[k - 1]? = some col ∧
        col.toColHead = c := by
      simpa [HduData.heads] using member
    obtain ⟨ttype, tunit, type, extent, colnum, _, nbytes⟩ := ColumnInfo.decode_ok described
    exact ⟨col, HduData.column_iff.mpr ⟨low, inside⟩, ttype, tunit, type, extent,
      colnum.trans (by omega), nbytes⟩
  offset k ci low entry := by
    obtain ⟨c, member, described⟩ := ColumnInfo.decodeAll_get synced entry
    exact (ColumnInfo.decode_ok described).2.2.2.2.2.1
  colinfo k := by
    simp only [colinfo_ok, and_true]
    constructor
    · rintro ⟨ci, low, entry⟩
      have inside := (List.getElem?_eq_some_iff.mp entry).1
      rw [synced.length] at inside
      omega
    · rintro ⟨low, high⟩
      have inside : k - 1 < (w.tables t).columns.length := by
        rw [synced.length]
        omega
      exact ⟨_, low, List.getElem?_eq_getElem inside⟩

/-- From a table that has just been built, the cache stays faithful through
every run in which no column is deleted by name, and through no other. -/
theorem cache_faithful_iff (doc : Documented api) {w₀ : World} {trace : List (Event × World)}
    (built : refresh api t w₀ = .ok () w) (run : Trace (Step api t) w trace) :
    (∀ p ∈ trace, Faithful api t p.2) ↔ ∀ p ∈ trace, p.1.deletesByName = false := by
  have keeps : ∀ e w w', e.deletesByName = false → Step api t e w w' → Synced w t → Synced w' t :=
    fun _ _ _ => step_synced doc
  have breaks : ∀ e w w', ¬e.deletesByName = false → Step api t e w w' → Synced w t →
      ¬Faithful api t w' := by
    intro e w w' bad step synced faithful
    cases e with
    | other => exact bad rfl
    | own m =>
      cases m with
      | deleteColumnByName name =>
        have more := deleteColumnByName_length doc step synced
        have same := faithful.length
        omega
      | _ => exact bad rfl
  exact Trace.holds_iff keeps (fun _ => faithful_of_synced doc) breaks
    (synced_of_refresh doc built) run

def pair : World :=
  Reference.world
    (Reference.table [Reference.newColumn "A" 1 .long, Reference.newColumn "B" 1 .double] 0)
    Reference.primary Reference.primary

theorem cache_faithful_deleting : ∃ w w', refresh Reference.api 0 pair = .ok () w ∧
    deleteColumn Reference.api 0 1 w = .ok () w' ∧
    ∀ p ∈ [(Event.own (.deleteColumn 1), w')], Faithful Reference.api 0 p.2 := by
  obtain ⟨w, w', built, deleted⟩ : ∃ w w', refresh Reference.api 0 pair = .ok () w ∧
      deleteColumn Reference.api 0 1 w = .ok () w' := ⟨_, _, rfl, rfl⟩
  refine ⟨w, w', built, deleted, ?_⟩
  have run : Trace (Step Reference.api 0) w [(.own (.deleteColumn 1), w')] := ⟨deleted, trivial⟩
  exact (cache_faithful_iff Reference.documented built run).mpr (by simp [Event.deletesByName])

/-- `delete_column( name )` leaves the entry of the deleted column in the cache. -/
theorem cache_stale_deleting_by_name : ∃ w w', refresh Reference.api 0 pair = .ok () w ∧
    deleteColumnByName Reference.api 0 "A" w = .ok () w' ∧ ¬Faithful Reference.api 0 w' :=
  ⟨_, _, rfl, rfl, fun faithful => absurd faithful.length (by decide)⟩

end Table
end MisFITS
