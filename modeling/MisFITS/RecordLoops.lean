import Mathlib.Data.List.Forall2
import MisFITS.RowStore

/-! Records that are written to row after row, and read from these rows again: the loops
that a program runs over a cursor. -/
namespace MisFITS
open Program HDU RowEntry Run Session Slices

namespace Row

variable (api : Cfitsio) {S : DynamicBitset} (r : Nat)

/-- `for( ... ) { ...; row.write(); }`, over records of what the variables are set to. -/
def writeAll : List (Record S) → RowM S Unit
  | [] => pure ()
  | record :: records => do
    modify (·.assign record)
    write api r
    writeAll records

/-- `while( row.read() ) ...`, with what the variables are after each call, for at most
so many calls. -/
def readAll : Nat → RowM S (Option (List (Record S)))
  | 0 => pure none
  | calls + 1 => do
    if ← read api r then
      let s ← get
      return (← readAll calls).map (s.vars :: ·)
    else
      return some []

end Row

namespace Row

section Writing

variable {api : Cfitsio} {holding : Holding} {S : DynamicBitset} {w₀ : World} {s s' : Session S}
  {r : Nat} {record : Record S} {records : List (Record S)} {heads : List ColHead} {u : Unit}

theorem next_auto {row : Row} (auto : row.autoAdvance = true) :
    next row = { row with idx := row.idx + 1 } := by
  unfold next
  rw [if_pos auto]

structure WroteAll (api : Cfitsio) (holding : Holding) (w₀ : World) (r : Nat)
    (records : List (Record S)) (s s' : Session S) : Prop where
  usable : Usable s'
  same : w₀.SameHeads s'.world
  binding : SameBinding r s s'
  row : s'.rows r = { s.rows r with idx := (s.rows r).idx + records.length }
  stores : ∀ record ∈ records, s.Stores r record
  nrows : (s'.world.unitOf (.table (s.rows r).table)).nrows ≤
    max (s.world.unitOf (.table (s.rows r).table)).nrows ((s.rows r).idx + records.length - 1)
  known : ∀ K, Facts.Known (cellFacts api holding w₀) K s.world → ∀ f,
    (f ∈ K ∧ f.2.row < (s.rows r).idx) ∨
      (∃ (k : Nat) (record : Record S), records[k]? = some record ∧
        f ∈ s.line r ((s.rows r).idx + k) record) →
    (cellFacts api holding w₀).holds f s'.world

theorem WroteAll.nil (usable : Usable s) (same : w₀.SameHeads s.world) :
    WroteAll api holding w₀ r [] s s where
  usable := usable
  same := same
  binding := ⟨.refl s, .refl _, rfl, rfl⟩
  row := by simp
  stores _ inside := nomatch inside
  nrows := Int.le_max_left _ _
  known K known f here := by
    rcases here with ⟨member, _⟩ | ⟨k, record, entry, _⟩
    · exact known f member
    · cases entry

section Wrote

variable {s₁ : Session S} (wrote : Wrote api holding w₀ r (s.assign record) s₁)
include wrote

theorem Wrote.row (auto : (s.rows r).autoAdvance = true) :
    s₁.rows r = { s.rows r with idx := (s.rows r).idx + 1 } := by
  rw [wrote.rows, Function.update_self]
  exact next_auto auto

theorem Wrote.binding (rooms : ∀ v : Variable, v.target.room S (record v) =
    v.target.room S (s.vars v)) : SameBinding r s s₁ := by
  have row : s₁.rows r = next (s.rows r) := by
    rw [wrote.rows, Function.update_self]
    rfl
  refine ⟨⟨fun v => (wrote.alike.rooms v).trans (rooms v), wrote.alike.entries, wrote.alike.made⟩,
    wrote.heads, ?_, ?_⟩ <;> rw [row, next] <;> split <;> rfl

end Wrote

theorem WroteAll.cons (lawful : S.Lawful) {s₁ : Session S} (usable : Usable s)
    (rooms : ∀ record' ∈ record :: records, ∀ v : Variable,
      v.target.room S (record' v) = v.target.room S (s.vars v))
    (there : (w₀.unitAt (s.world.placeOf (.table (s.rows r).table))).heads = heads)
    (apart : PartsApart heads s r) (auto : (s.rows r).autoAdvance = true)
    (wrote : Wrote api holding w₀ r (s.assign record) s₁)
    (rest : WroteAll api holding w₀ r records s₁ s') :
    WroteAll api holding w₀ r (record :: records) s s' := by
  have rooms₀ := rooms record List.mem_cons_self
  have later : ∀ record' ∈ records, ∀ v : Variable,
      v.target.room S (record' v) = v.target.room S (s.vars v) :=
    fun record' member => rooms record' (List.mem_cons_of_mem record member)
  have row₁ := wrote.row auto
  have table₁ : (s₁.rows r).table = (s.rows r).table := by rw [row₁]
  have idx₁ : (s₁.rows r).idx = (s.rows r).idx + 1 := by rw [row₁]
  have binding := wrote.binding rooms₀
  refine ⟨rest.usable, rest.same, binding.trans rest.binding, ?_, ?_, ?_, ?_⟩
  · rw [rest.row, row₁, List.length_cons]
    have number : (s.rows r).idx + 1 + (records.length : Int) =
        (s.rows r).idx + ((records.length + 1 : Nat) : Int) := by omega
    simp only [number]
  · intro record' member
    rcases List.mem_cons.mp member with rfl | member
    · exact wrote.stores
    · exact (binding.stores lawful usable (later record' member)).mp (rest.stores record' member)
  · have first : (s₁.world.unitOf (.table (s.rows r).table)).nrows ≤
        max (s.world.unitOf (.table (s.rows r).table)).nrows (s.rows r).idx := wrote.nrows
    have more := rest.nrows
    rw [table₁, idx₁] at more
    rw [List.length_cons]
    omega
  · intro K known f here
    refine rest.known _ (wrote.known K known) f ?_
    have one : handedOver r (s.assign record) = s.line r (s.rows r).idx record := rfl
    rw [one, idx₁]
    have own : f ∈ s.line r (s.rows r).idx record →
        f ∈ Facts.writes (cellFacts api holding w₀) K (s.line r (s.rows r).idx record) :=
      fun member => Facts.mem_writes.mpr (Or.inr (Facts.latest_of_pairwise
        (line_pairwise usable rooms₀ there apart) apart_symm member))
    rcases here with ⟨member, before⟩ | ⟨k, record', entry, member⟩
    · refine Or.inl ⟨Facts.mem_writes.mpr (Or.inl ⟨member, fun c handed => ?_⟩), by omega⟩
      refine Or.inr (Or.inl ?_)
      rw [(mem_line handed).2]
      omega
    · cases k with
      | zero =>
        cases entry
        rw [Int.natCast_zero, Int.add_zero] at member
        exact Or.inl ⟨own member, by rw [(mem_line member).2]; omega⟩
      | succ k =>
        have entry : records[k]? = some record' := entry
        refine Or.inr ⟨k, record', entry, ?_⟩
        have inside := List.mem_of_getElem? entry
        rw [binding.line lawful usable (later record' inside)]
        have number : (s.rows r).idx + 1 + (k : Int) = (s.rows r).idx + ((k + 1 : Nat) : Int) := by
          omega
        rw [number]
        exact member

theorem writeAll_cons {record : Record S} (run : writeAll api r (record :: records) s = .ok u s') :
    ∃ s₁, write api r (s.assign record) = .ok () s₁ ∧ writeAll api r records s₁ = .ok u s' := by
  obtain ⟨_, _, sets, run⟩ := bind_ok.mp run
  cases modify_ok.mp sets
  obtain ⟨_, s₁, writes, run⟩ := bind_ok.mp run
  exact ⟨s₁, writes, run⟩

/-- The loop that writes records leaves all of them to be read, each in its row. -/
theorem writeAll_known (doc : Documented api) (raw : RawBytes api) (typed : TypedCells api holding)
    (lawful : S.Lawful) (same : w₀.SameHeads s.world) (usable : Usable s)
    (rooms : ∀ record ∈ records, ∀ v : Variable,
      v.target.room S (record v) = v.target.room S (s.vars v))
    (apart : PartsApart (w₀.unitAt (s.world.placeOf (.table (s.rows r).table))).heads s r)
    (auto : (s.rows r).autoAdvance = true) (first : 1 ≤ (s.rows r).idx)
    (run : writeAll api r records s = .ok u s') : WroteAll api holding w₀ r records s s' := by
  induction records generalizing s with
  | nil =>
    cases run
    exact .nil usable same
  | cons record records ih =>
    obtain ⟨s₁, writes, run⟩ := writeAll_cons run
    have rooms₀ := rooms record List.mem_cons_self
    have wrote := write_recorded doc raw typed lawful (s := s.assign record) same
      (usable.assign rooms₀) first writes
    have row₁ := wrote.row auto
    have binding := wrote.binding rooms₀
    have there : s₁.world.placeOf (.table (s₁.rows r).table) =
        s.world.placeOf (.table (s.rows r).table) := by
      rw [binding.table]
      exact placeOf_sameHeads binding.heads _
    refine .cons lawful usable rooms rfl apart auto wrote (ih wrote.same wrote.usable ?_ ?_ ?_ ?_ run)
    · intro record' member v
      rw [wrote.vars]
      exact (rooms record' (List.mem_cons_of_mem record member) v).trans (rooms₀ v).symm
    · rw [there]
      exact binding.partsApart apart
    · rw [row₁]
      exact auto
    · rw [row₁]
      change 1 ≤ (s.rows r).idx + 1
      omega

theorem writeAll_frame (doc : Documented api) (raw : RawBytes api) (typed : TypedCells api holding)
    (lawful : S.Lawful) (same : w₀.SameHeads s.world) (usable : Usable s)
    (rooms : ∀ record ∈ records, ∀ v : Variable,
      v.target.room S (record v) = v.target.room S (s.vars v))
    (auto : (s.rows r).autoAdvance = true) (first : 1 ≤ (s.rows r).idx)
    (run : writeAll api r records s = .ok u s') : (∀ q, q ≠ r → s'.rows q = s.rows q) ∧
      ∀ p, p ≠ s.world.placeOf (.table (s.rows r).table) →
        s'.world.unitAt p = s.world.unitAt p := by
  induction records generalizing s with
  | nil =>
    cases run
    exact ⟨fun _ _ => rfl, fun _ _ => rfl⟩
  | cons record records ih =>
    obtain ⟨s₁, writes, run⟩ := writeAll_cons run
    have rooms₀ := rooms record List.mem_cons_self
    have wrote := write_recorded doc raw typed lawful (s := s.assign record) same
      (usable.assign rooms₀) first writes
    have row₁ := wrote.row auto
    have place : s₁.world.placeOf (.table (s₁.rows r).table) =
        s.world.placeOf (.table (s.rows r).table) := by
      rw [row₁]
      exact placeOf_sameHeads wrote.heads _
    have rooms₁ : ∀ record' ∈ records, ∀ v : Variable,
        v.target.room S (record' v) = v.target.room S (s₁.vars v) := by
      intro record' member v
      rw [wrote.vars]
      exact (rooms record' (List.mem_cons_of_mem record member) v).trans (rooms₀ v).symm
    obtain ⟨rows, units⟩ := ih wrote.same wrote.usable rooms₁ (by rw [row₁]; exact auto)
      (by rw [row₁]; dsimp only; omega) run
    rw [place] at units
    refine ⟨fun q ne => ?_, fun p other => ?_⟩
    · rw [rows q ne, wrote.rows, Function.update_of_ne ne]
      rfl
    · exact (units p other).trans (wrote.others p other)

end Writing

section Reading

variable {api : Cfitsio} {holding : Holding} {S : DynamicBitset} {w₀ : World} {s s' : Session S}
  {r : Nat} {record : Record S} {records : List (Record S)}

structure Recalls (api : Cfitsio) (holding : Holding) (w₀ : World) (s : Session S) (r : Nat)
    (row : Int) (record : Record S) : Prop where
  rooms : ∀ v : Variable, v.target.room S (record v) = v.target.room S (s.vars v)
  stores : s.Stores r record
  known : ∀ f ∈ s.line r row record, (cellFacts api holding w₀).holds f s.world
  held : ∀ f ∈ s.line r row record,
    f.2.Held holding (s.world.unitOf (.table (s.rows r).table)).heads

theorem Took.binding (took : Took api r s s') : SameBinding r s s' := by
  have row : s'.rows r = next (s.rows r) := by rw [took.rows, Function.update_self]
  refine ⟨took.retained.alike, took.retained.world.sameHeads, ?_, ?_⟩ <;>
    rw [row, next] <;> split <;> rfl

theorem Recalls.of_took (lawful : S.Lawful) (usable : Usable s) {row : Int}
    (recalls : Recalls api holding w₀ s r row record) (took : Took api r s s') :
    Recalls api holding w₀ s' r row record := by
  have binding := took.binding
  have line : s'.line r row record = s.line r row record :=
    binding.line lawful usable recalls.rooms
  have known := known_moved (K := {f | f ∈ s.line r row record}) took.retained.world recalls.known
  constructor
  · intro v
    rw [recalls.rooms, took.retained.alike.rooms]
  · exact (binding.stores lawful usable recalls.rooms).mpr recalls.stores
  · rw [line]
    exact known
  · rw [line, binding.table, binding.heads.unitOf]
    exact recalls.held

theorem read_record (doc : Documented api) (lawful : S.Lawful) (assigns : S.Assigns)
    (usable : Usable s) (same : w₀.SameHeads s.world) (bound : (s.rows r).entries ≠ [])
    (unshared : s.Unshared r) (recalls : Recalls api holding w₀ s r (s.rows r).idx record) :
    ∃ s', read api r s = .ok true s' ∧ Took api r s s' ∧ s.Echoes r record s'.vars := by
  have inside := fun e member => asked_mem_line member (recalls.stores e member)
  have length := fun e member =>
    stored_length usable recalls.rooms member (recalls.stores e member)
  obtain ⟨s', run, took, loads⟩ := read_known doc lawful usable same
    (K := {f | f ∈ s.line r (s.rows r).idx record}) recalls.known bound (stored s record)
    (fun e member => ⟨inside e member, recalls.held _ (inside e member), length e member⟩)
  refine ⟨s', run, took, fun e member => ?_⟩
  obtain ⟨_, load⟩ := loads e member (unshared e member)
  obtain ⟨_, store⟩ := store_stored (recalls.stores e member)
  have made := usable.columns r e member
  refine Target.load_carries lawful assigns made.positive ?_ ?_ ?_ store (.refl _)
    (recalls.rooms _).symm load
  · rw [recalls.rooms]
    exact made.ready
  · rw [recalls.rooms]
    exact made.fits
  · rw [made.lies.count]
    exact length e member

/-- The loop that reads gives the records that are known, and ends behind them. -/
theorem readAll_known (doc : Documented api) (lawful : S.Lawful) (assigns : S.Assigns)
    (usable : Usable s) (same : w₀.SameHeads s.world) (bound : (s.rows r).entries ≠ [])
    (unshared : s.Unshared r) (auto : (s.rows r).autoAdvance = true)
    (ends : (s.world.unitOf (.table (s.rows r).table)).nrows < (s.rows r).idx + records.length)
    (recalls : ∀ (k : Nat) (record : Record S), records[k]? = some record →
      Recalls api holding w₀ s r ((s.rows r).idx + k) record)
    {calls : Nat} (enough : records.length < calls) :
    ∃ out s', readAll api r calls s = .ok (some out) s' ∧ List.Forall₂ (s.Echoes r) records out := by
  induction records generalizing s calls with
  | nil =>
    obtain ⟨calls, rfl⟩ := Nat.exists_eq_add_one.mpr enough
    rw [List.length_nil, Int.natCast_zero, Int.add_zero] at ends
    have stops := read_of_end doc bound (usable.ground r).attached ends
    exact ⟨[], _, bind_ok.mpr ⟨false, _, stops, rfl⟩, .nil⟩
  | cons record records ih =>
    obtain ⟨calls, rfl⟩ := Nat.exists_eq_add_one.mpr (Nat.zero_lt_of_lt enough)
    have first := recalls 0 record rfl
    rw [Int.natCast_zero, Int.add_zero] at first
    obtain ⟨s₁, run, took, echoes⟩ := read_record doc lawful assigns usable same bound unshared first
    have binding := took.binding
    have row : s₁.rows r = { s.rows r with idx := (s.rows r).idx + 1 } := by
      rw [took.rows, Function.update_self]
      exact next_auto auto
    have idx : (s₁.rows r).idx = (s.rows r).idx + 1 := by rw [row]
    rw [List.length_cons] at enough ends
    have ends₁ : (s₁.world.unitOf (.table (s₁.rows r).table)).nrows <
        (s₁.rows r).idx + records.length := by
      rw [binding.table, took.retained.world.unitOf, idx]
      omega
    have recalls₁ : ∀ (k : Nat) (record : Record S), records[k]? = some record →
        Recalls api holding w₀ s₁ r ((s₁.rows r).idx + k) record := by
      intro k record' entry
      have later := (recalls (k + 1) record' entry).of_took lawful usable took
      have number : (s.rows r).idx + 1 + (k : Int) = (s.rows r).idx + ((k + 1 : Nat) : Int) := by
        omega
      rw [idx, number]
      exact later
    obtain ⟨out, s', rest, more⟩ := ih (s := s₁) (usable.retained took.retained)
      (same.trans took.retained.world.sameHeads) (by rw [binding.entries]; exact bound)
      (binding.unshared unshared) (by rw [row]; exact auto) ends₁ recalls₁
      (show records.length < calls by omega)
    refine ⟨s₁.vars :: out, s', bind_ok.mpr ⟨true, s₁, run, ?_⟩,
      .cons echoes (more.imp (fun _ _ => binding.echoes.mp))⟩
    exact bind_ok.mpr ⟨s₁, s₁, rfl, bind_ok.mpr ⟨some out, s', rest, rfl⟩⟩

end Reading

variable {api : Cfitsio} {holding : Holding} {S : DynamicBitset} {w₀ : World} {s s' : Session S}
  {r : Nat} {records : List (Record S)} {u : Unit}

theorem WroteAll.rewound (lawful : S.Lawful) (usable : Usable s)
    (rooms : ∀ record ∈ records, ∀ v : Variable,
      v.target.room S (record v) = v.target.room S (s.vars v))
    (held : ∀ record ∈ records, ∀ row, ∀ f ∈ s.line r row record,
      f.2.Held holding (s.world.unitOf (.table (s.rows r).table)).heads)
    (wrote : WroteAll api holding w₀ r records s s') {s₁ : Session S} (retained : Retained s' s₁)
    (row : s₁.rows r = s.rows r) : SameBinding r s s₁ ∧
      ∀ (k : Nat) (record : Record S), records[k]? = some record →
        Recalls api holding w₀ s₁ r ((s₁.rows r).idx + k) record := by
  have binding : SameBinding r s s₁ := wrote.binding.trans
    ⟨retained.alike, retained.world.sameHeads, by rw [row, wrote.row], by rw [row, wrote.row]⟩
  refine ⟨binding, fun k record entry => ?_⟩
  have known := wrote.known ∅ (fun _ inside => inside.elim)
  have member := List.mem_of_getElem? entry
  have line : s₁.line r ((s.rows r).idx + k) record = s.line r ((s.rows r).idx + k) record :=
    binding.line lawful usable (rooms record member)
  rw [row]
  constructor
  · intro v
    rw [rooms record member, binding.alike.rooms]
  · exact (binding.stores lawful usable (rooms record member)).mpr (wrote.stores record member)
  · rw [line]
    exact known_moved (K := {f | f ∈ s.line r ((s.rows r).idx + k) record}) retained.world
      (fun f handed => known f (Or.inr ⟨k, record, entry, handed⟩))
  · rw [line, binding.table, binding.heads.unitOf]
    exact held record member _

theorem setIdx_back (s : Session S) (r : Nat) (i : Int) : ∃ s₁, setIdx r i s = .ok () s₁ ∧
    Retained s s₁ ∧ s₁.rows r = { s.rows r with idx := i } ∧
      (∀ q, q ≠ r → s₁.rows q = s.rows q) ∧ s₁.vars = s.vars ∧ s₁.world = s.world :=
  ⟨s.setRow r { s.rows r with idx := i }, rfl, retained_setRow rfl rfl,
    Function.update_self .., fun _ ne => Function.update_of_ne ne .., rfl, rfl⟩

theorem WroteAll.read_back (doc : Documented api) (lawful : S.Lawful) (assigns : S.Assigns)
    (usable : Usable s) (bound : (s.rows r).entries ≠ []) (unshared : s.Unshared r)
    (auto : (s.rows r).autoAdvance = true)
    (behind : (s.world.unitOf (.table (s.rows r).table)).nrows <
      (s.rows r).idx + records.length)
    (rooms : ∀ record ∈ records, ∀ v : Variable,
      v.target.room S (record v) = v.target.room S (s.vars v))
    (held : ∀ record ∈ records, ∀ row, ∀ f ∈ s.line r row record,
      f.2.Held holding (s.world.unitOf (.table (s.rows r).table)).heads)
    (wrote : WroteAll api holding w₀ r records s s') {calls : Nat} (enough : records.length < calls) :
    ∃ out s'', (setIdx r (s.rows r).idx >>= fun _ => readAll api r calls) s' =
        .ok (some out) s'' ∧ List.Forall₂ (s.Echoes r) records out := by
  obtain ⟨s₁, moves, retained, back, _⟩ := setIdx_back s' r (s.rows r).idx
  have row : s₁.rows r = s.rows r := by rw [back, wrote.row]
  obtain ⟨binding, recalls⟩ := wrote.rewound lawful usable rooms held retained row
  obtain ⟨out, s'', run, echoes⟩ := readAll_known doc lawful assigns
    (wrote.usable.retained retained) (wrote.same.trans retained.world.sameHeads)
    (by rw [row]; exact bound) (binding.unshared unshared) (by rw [row]; exact auto) (by
      have most := wrote.nrows
      rw [row, retained.world.unitOf]
      omega) recalls enough
  exact ⟨out, s'', bind_ok.mpr ⟨(), s₁, moves, run⟩, echoes.imp (fun _ _ => binding.echoes.mp)⟩

/-- Records that a loop has written, to the last rows of a table, are read by a loop from
there on, one after another, as the columns keep them; then it ends. -/
theorem records_read (doc : Documented api) (raw : RawBytes api) (typed : TypedCells api holding)
    (lawful : S.Lawful) (assigns : S.Assigns) (usable : Usable s) (bound : (s.rows r).entries ≠ [])
    (unshared : s.Unshared r)
    (apart : PartsApart (s.world.unitOf (.table (s.rows r).table)).heads s r)
    (auto : (s.rows r).autoAdvance = true) (first : 1 ≤ (s.rows r).idx)
    (behind : (s.world.unitOf (.table (s.rows r).table)).nrows <
      (s.rows r).idx + records.length)
    (rooms : ∀ record ∈ records, ∀ v : Variable,
      v.target.room S (record v) = v.target.room S (s.vars v))
    (held : ∀ record ∈ records, ∀ row, ∀ f ∈ s.line r row record,
      f.2.Held holding (s.world.unitOf (.table (s.rows r).table)).heads)
    (writes : writeAll api r records s = .ok u s') {calls : Nat} (enough : records.length < calls) :
    ∃ out s'', (setIdx r (s.rows r).idx >>= fun _ => readAll api r calls) s' =
        .ok (some out) s'' ∧ List.Forall₂ (s.Echoes r) records out :=
  (writeAll_known doc raw typed lawful (.refl s.world) usable rooms apart auto first writes).read_back
    doc lawful assigns usable bound unshared auto behind rooms held enough

end Row

section Both
open Table StringColumn

def twoRecords : List (Record listBitset) := [firstRecord, secondRecord]

def twoWritten : Session listBitset := after (Row.writeAll Reference.rawApi 0 twoRecords bothBound)

theorem records_read_both : ∃ out s',
    (Row.setIdx 0 (bothBound.rows 0).idx >>= fun _ => Row.readAll Reference.rawApi 0 3) twoWritten =
      .ok (some out) s' ∧ List.Forall₂ (bothBound.Echoes 0) twoRecords out := by
  have bound : (bothBound.rows 0).entries ≠ [] := by
    rw [row_both]
    exact List.cons_ne_nil _ _
  have behind : (bothBound.world.unitOf (.table (bothBound.rows 0).table)).nrows <
      (bothBound.rows 0).idx + (twoRecords.length : Int) := by decide +kernel
  have rooms : ∀ record ∈ twoRecords, ∀ v : Variable,
      v.target.room listBitset (record v) = v.target.room listBitset (bothBound.vars v) := by
    intro record member
    simp only [twoRecords, List.mem_cons, List.not_mem_nil, or_false] at member
    rcases member with rfl | rfl
    exacts [rooms_first, rooms_recordOf rfl]
  have writes : Row.writeAll Reference.rawApi 0 twoRecords bothBound = .ok () twoWritten :=
    ok_of_returned (by decide +kernel)
  exact Row.records_read Reference.documented_raw Reference.rawBytes Reference.typedCells_raw
    listBitset_lawful DynamicBitset.listBitset_assigns usable_both.1 bound columns_both.1
    columns_both.2.1 (by rw [row_both]) (by rw [row_both]) behind rooms
    (fun _ _ _ _ => held_line columns_both.2.2) writes
    (by decide)

end Both

end MisFITS
