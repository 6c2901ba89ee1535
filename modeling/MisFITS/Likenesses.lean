import MisFITS.Readers

/-! Tables that no reader can tell apart: a copy from its source, and a table from what it was
before other columns were added or deleted. -/
namespace MisFITS
open ColumnType Program HDU Run Slices RowEntry

theorem Likeness.settled {api : Cfitsio} {source target h : HduData} {names : List String}
    (likeness : Likeness api source target names h) : Likeness api source h names h := by
  obtain ⟨sized, typed, ⟨heads, nrows, sized', holds⟩, common⟩ := likeness
  refine ⟨sized, typed, ⟨rfl, nrows, sized', fun name member r low high => ?_⟩,
    fun name member => (common name member).of_heads rfl heads⟩
  rw [number, HduData.names_congr heads]
  exact holds name member r low high

namespace Session

variable {api : Cfitsio} {S : DynamicBitset} {names : List String} {src dest : Nat} {s : Session S}
  {w : World}

end Session

section Copied
open Table Session

def rereading (seen : List (Seen listBitset)) : Query listBitset :=
  match seen.getLast? with
  | none => .add 0 "A" ⟨.string, 0⟩
  | some (.ok (.flag false), _) => .setIdx 0 1
  | _ => .read 0

theorem proper_rereading (h : HduData) (seen : List (Seen listBitset)) :
    (rereading seen).Proper Reference.rawApi h ["A"] := by
  unfold rereading
  split
  · exact ⟨List.mem_singleton_self "A", fun _ _ _ _ _ => rfl⟩
  · exact Int.le_refl 1
  · exact trivial

end Copied

namespace Table
open ColumnInfo

variable {api : Cfitsio} {t : Nat} {w w' : World} {names : List String}
  {trace : List (Option ColumnEdit × World)}

def ColumnEdit.Sized : Option ColumnEdit → Prop
  | some (.delete _) => True
  | e => ColumnEdit.Adds e

theorem editStep_grown (doc : Documented api) (raw : RawBytes api) (moved : MovedColumns api)
    {e : Option ColumnEdit} (sizes : ColumnEdit.Sized e) (step : EditStep api t e w w')
    (grown : Grown w t) :
    Grown w' t ∧ (w'.unitOf (.table t)).nrows = (w.unitOf (.table t)).nrows := by
  cases e with
  | none =>
    have calm : w'.tables t = w.tables t ∧ w'.unitOf (.table t) = w.unitOf (.table t) := step
    exact ⟨step_grown doc raw (e := none) trivial step grown, by rw [calm.2]⟩
  | some e =>
    obtain ⟨edit, known, _, cols, nrows, sized⟩ := editStep_columns doc raw moved step grown.sized
    refine ⟨?_, nrows⟩
    cases e with
    | add ci => exact step_grown doc raw (e := some (.add ci)) sizes step grown
    | addNew ttype type tunit extent colnum =>
      exact step_grown doc raw (e := some (.addNew ttype type tunit extent colnum)) sizes step grown
    | delete colnum =>
      refine ⟨(editStep_list doc step grown.synced).1, fun c member => ?_, sized⟩
      cases edit with
      | insert => cases known
      | erase n =>
        rw [HduData.heads, cols] at member
        obtain ⟨col, left, rfl⟩ := List.mem_map.mp member
        exact grown.made _ (List.mem_map_of_mem (List.mem_of_mem_eraseIdx left))

/-- Through a run of edits the columns are those that were added, and no row is lost. -/
theorem run_edited (doc : Documented api) (raw : RawBytes api) (moved : MovedColumns api)
    (sizes : ∀ p ∈ trace, ColumnEdit.Sized p.1) (run : Trace (EditStep api t) w trace)
    (grown : Grown w t) : Grown (last w trace) t ∧
      ((last w trace).unitOf (.table t)).nrows = (w.unitOf (.table t)).nrows := by
  have keeps : ∀ e v v', ColumnEdit.Sized e → EditStep api t e v v' →
      Grown v t ∧ (v.unitOf (.table t)).nrows = (w.unitOf (.table t)).nrows →
      Grown v' t ∧ (v'.unitOf (.table t)).nrows = (w.unitOf (.table t)).nrows := by
    intro e v v' sizes step kept
    obtain ⟨grown, nrows⟩ := editStep_grown doc raw moved sizes step kept.1
    exact ⟨grown, nrows.trans kept.2⟩
  exact Trace.invariant keeps sizes ⟨grown, rfl⟩ run

/-- The column that goes by the name is not deleted, and goes by it still. -/
def Followed (api : Cfitsio) (t : Nat) (w : World) (trace : List (Option ColumnEdit × World))
    (name : String) : Prop :=
  ∃ k c place, api.getColnum (w.unitOf (.table t)).names name = .ok k ∧
    (w.unitOf (.table t)).head k = some c ∧ foldCase c.ttype = foldCase name ∧
    follow (ColumnEdit.carry api t) w (k, 0) trace = some place ∧
    api.getColnum ((last w trace).unitOf (.table t)).names name = .ok place.1

theorem likeness_of_edits (doc : Documented api) (raw : RawBytes api) (moved : MovedColumns api)
    (sizes : ∀ p ∈ trace, ColumnEdit.Sized p.1) (run : Trace (EditStep api t) w trace)
    (grown : Grown w t) (followed : ∀ name ∈ names, Followed api t w trace name) :
    Likeness api (w.unitOf (.table t)) ((last w trace).unitOf (.table t)) names
      ((last w trace).unitOf (.table t)) := by
  obtain ⟨grown', nrows⟩ := run_edited doc raw moved sizes run grown
  refine ⟨grown.sized, typed_of_synced grown.synced, ⟨rfl, nrows, grown'.sized, ?_⟩, ?_⟩
  · intro name member r _ _
    obtain ⟨k, c, place, found, _, _, alive, found'⟩ := followed name member
    have carried := Carried.run doc raw moved run (doc.colnum_range found).1 grown.sized alive
    rw [number_of_ok found, number_of_ok found', HduData.row, HduData.row, carried.column]
  · intro name member
    obtain ⟨k, c, place, found, head, known, alive, found'⟩ := followed name member
    have carried := Carried.run doc raw moved run (doc.colnum_range found).1 grown.sized alive
    refine ⟨k, place.1, c, c, found, found', head, ?_, known, known, rfl, rfl, rfl⟩
    rw [HduData.head, carried.column]
    exact head

end Table

namespace Session

variable {api : Cfitsio} {S : DynamicBitset} {names : List String} {t : Nat} {s : Session S}
  {trace : List (Option Table.ColumnEdit × World)}

/-- A program that binds its columns when others have been added or deleted sees what it
would have seen before. -/
theorem seen_after_edits (doc : Documented api) (lawful : S.Lawful) (raw : RawBytes api)
    (answers : CellAnswers api) (moved : MovedColumns api)
    (grown : Table.Grown s.world t) (own : s.world.Attached (.table t))
    (sizes : ∀ p ∈ trace, Table.ColumnEdit.Sized p.1)
    (run : Trace (Table.EditStep api t) s.world trace)
    (own' : (last s.world trace).Attached (.table t))
    (followed : ∀ name ∈ names, Table.Followed api t s.world trace name)
    {next : List (Seen S) → Query S}
    (proper : ∀ seen, (next seen).Proper api (s.world.unitOf (.table t)) names) (calls : Nat) :
    ∃ seen s' t', converse (Query.seen api t) next calls [] (s.opened t) = .ok seen s' ∧
      converse (Query.seen api t) next calls [] ((s.inWorld (last s.world trace)).opened t) =
        .ok seen t' :=
  Query.converse_mirrored doc lawful raw answers
    (Table.likeness_of_edits doc raw moved sizes run grown followed) proper
    (mirrored_opened own own' grown (Table.run_edited doc raw moved sizes run grown).1) calls

end Session

section Refilled
open Table Session

theorem grown_bothWritten : Grown bothWritten.world 0 := by
  have same := wrote_both.same
  rw [world_opened] at same
  exact grown_both.sameHeads same sized_bothWritten

theorem seen_after_refills : ∃ seen s' t',
    converse (Query.seen Reference.rawApi 0) rereading 7 [] (bothWritten.opened 0) = .ok seen s' ∧
      converse (Query.seen Reference.rawApi 0) rereading 7 []
        ((bothWritten.inWorld refilled).opened 0) = .ok seen t' := by
  have number : Reference.rawApi.getColnum (bothWritten.world.unitOf (.table 0)).names "A" = .ok 2 ∧
      Reference.rawApi.getColnum (refilled.unitOf (.table 0)).names "A" = .ok 3 := by decide +kernel
  have text : ((bothWritten.world.unitOf (.table 0)).head 2).map (fun x => x.ttype) = some "A" := by
    decide +kernel
  have alive : follow (ColumnEdit.carry Reference.rawApi 0) bothWritten.world (2, 0) refills =
      some (3, 0) := by decide +kernel
  have own : bothWritten.world.Attached (.table 0) ∧ refilled.Attached (.table 0) :=
    ⟨⟨by decide +kernel, by decide +kernel⟩, ⟨by decide +kernel, by decide +kernel⟩⟩
  have sizes : ∀ p ∈ refills, ColumnEdit.Sized p.1 := by
    intro p member
    simp only [refills, List.mem_cons, List.not_mem_nil, or_false] at member
    rcases member with rfl | rfl | rfl
    · exact trivial
    · exact ⟨by decide, by decide⟩
    · exact ⟨by decide, by decide⟩
  have run := refills_run
  have grown := grown_bothWritten
  rw [← last_refills] at own number ⊢
  generalize bothWritten = s at *
  generalize refills = trace at *
  obtain ⟨x, head, ttype⟩ := Option.map_eq_some_iff.mp text
  have followed : ∀ name ∈ ["A"], Followed Reference.rawApi 0 s.world trace name := by
    intro name member
    rw [List.mem_singleton.mp member]
    exact ⟨2, x, (3, 0), number.1, head, by rw [ttype], alive, number.2⟩
  exact seen_after_edits Reference.documented_raw listBitset_lawful Reference.rawBytes
    Reference.cellAnswers_raw Reference.movedColumns_raw grown own.1 sizes run own.2 followed
    (proper_rereading _) 7

end Refilled
end MisFITS
