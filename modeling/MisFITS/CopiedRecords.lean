import MisFITS.RecordLoops

/-! Records that a loop takes from one table to another, through variables that columns
of both are bound to. -/
namespace MisFITS
open Program HDU RowEntry Run Session Slices

namespace Row

variable (api : Cfitsio) {S : DynamicBitset} (p q : Nat)

/-- `while( in.read() ) out.write();`, for at most so many calls of `read`. -/
def copyAll : Nat → RowM S (Option Unit)
  | 0 => pure none
  | calls + 1 => do
    if ← read api p then
      write api q
      copyAll calls
    else
      return some ()

variable {api} {p q} {holding : Holding} {w₀ : World} {s s₁ s' : Session S} {records : List (Record S)}

theorem copyAll_ok {calls : Nat} {done : Option Unit}
    (run : copyAll api p q (calls + 1) s = .ok done s') :
    ∃ more s₁, read api p s = .ok more s₁ ∧
      if more = true then
        ∃ s₂, write api q s₁ = .ok () s₂ ∧ copyAll api p q calls s₂ = .ok done s'
      else done = some () ∧ s' = s₁ := by
  obtain ⟨more, s₁, reads, run⟩ := bind_ok.mp run
  refine ⟨more, s₁, reads, ?_⟩
  cases more with
  | true =>
    obtain ⟨_, s₂, writes, run⟩ := bind_ok.mp run
    exact ⟨s₂, writes, run⟩
  | false =>
    cases run
    exact ⟨rfl, rfl⟩

theorem WroteAll.behind (lawful : S.Lawful) (usable : Usable s) (retained : Retained s s₁)
    (row : s₁.rows q = s.rows q)
    (rooms : ∀ record ∈ records, ∀ v : Variable,
      v.target.room S (record v) = v.target.room S (s.vars v))
    (wrote : WroteAll api holding w₀ q records s₁ s') : WroteAll api holding w₀ q records s s' := by
  have binding : SameBinding q s s₁ :=
    ⟨retained.alike, retained.world.sameHeads, by rw [row], by rw [row]⟩
  constructor
  · exact wrote.usable
  · exact wrote.same
  · exact binding.trans wrote.binding
  · rw [wrote.row, row]
  · intro record member
    exact (binding.stores lawful usable (rooms record member)).mp (wrote.stores record member)
  · have most := wrote.nrows
    rw [row, retained.world.unitOf] at most
    exact most
  · intro K known f here
    apply wrote.known K (known_moved retained.world known) f
    rw [row]
    apply here.imp_right
    rintro ⟨k, record, entry, member⟩
    refine ⟨k, record, entry, ?_⟩
    rw [binding.line lawful usable (rooms record (List.mem_of_getElem? entry))]
    exact member

section Wrote

variable (other : p ≠ q) (wrote : Wrote api holding w₀ q s s₁)
include other wrote

theorem Wrote.row_ne : s₁.rows p = s.rows p := by
  rw [wrote.rows, Function.update_of_ne other]

theorem Wrote.binding_ne : SameBinding p s s₁ := by
  have row := wrote.row_ne other
  exact ⟨wrote.alike, wrote.heads, by rw [row], by rw [row]⟩

theorem Recalls.of_wrote (lawful : S.Lawful) (usable : Usable s) {row : Int} {record : Record S}
    (tables : s.world.placeOf (.table (s.rows p).table) ≠ s.world.placeOf (.table (s.rows q).table))
    (recalls : Recalls api holding w₀ s p row record) : Recalls api holding w₀ s₁ p row record := by
  have binding := wrote.binding_ne other
  have line : s₁.line p row record = s.line p row record :=
    binding.line lawful usable recalls.rooms
  constructor
  · intro v
    rw [recalls.rooms, wrote.vars]
  · exact (binding.stores lawful usable recalls.rooms).mpr recalls.stores
  · intro f member
    rw [line] at member
    have known := wrote.known {f | f ∈ s.line p row record} recalls.known
    refine known f (Facts.mem_writes.mpr (Or.inl ⟨member, fun c handed => Or.inl ?_⟩))
    have there : c ∈ s.line q (s.rows q).idx s.vars := handed
    rw [(mem_line there).1, (mem_line member).1]
    exact tables.symm
  · rw [line, binding.table, binding.heads.unitOf]
    exact recalls.held

end Wrote

/-- The loop is over behind the last row, and what is known to be in the rows of one
table is then written to rows of the other one, as its variables have echoed it. -/
theorem copyAll_known (doc : Documented api) (raw : RawBytes api) (typed : TypedCells api holding)
    (lawful : S.Lawful) (assigns : S.Assigns) (usable : Usable s) (same : w₀.SameHeads s.world)
    (other : p ≠ q)
    (tables : s.world.placeOf (.table (s.rows p).table) ≠ s.world.placeOf (.table (s.rows q).table))
    (bound : (s.rows p).entries ≠ []) (unshared : s.Unshared p)
    (auto : (s.rows p).autoAdvance = true)
    (ends : (s.world.unitOf (.table (s.rows p).table)).nrows < (s.rows p).idx + records.length)
    (recalls : ∀ (k : Nat) (record : Record S), records[k]? = some record →
      Recalls api holding w₀ s p ((s.rows p).idx + k) record)
    (apart : PartsApart (w₀.unitAt (s.world.placeOf (.table (s.rows q).table))).heads s q)
    (auto' : (s.rows q).autoAdvance = true) (first : 1 ≤ (s.rows q).idx) {calls : Nat}
    (enough : records.length < calls) {done : Option Unit}
    (run : copyAll api p q calls s = .ok done s') :
    done = some () ∧ ∃ mids, List.Forall₂ (s.Echoes p) records mids ∧
      (∀ mid ∈ mids, ∀ v : Variable, v.target.room S (mid v) = v.target.room S (s.vars v)) ∧
      WroteAll api holding w₀ q mids s s' := by
  induction records generalizing s calls with
  | nil =>
    -- the cursor is behind the last row, so this call ends the loop
    rw [List.length_nil, Int.natCast_zero, Int.add_zero] at ends
    obtain ⟨calls, rfl⟩ := Nat.exists_eq_succ_of_ne_zero (Nat.ne_zero_of_lt enough)
    obtain ⟨more, s₁, reads, rest⟩ := copyAll_ok run
    cases reads.symm.trans (read_of_end doc bound (usable.ground p).attached ends)
    obtain ⟨rfl, rfl⟩ : done = some () ∧ s' = onto s p := rest
    have retained : Retained s (onto s p) := ⟨World.moved_onto, .onto, fun r => ⟨r, rfl, rfl⟩⟩
    have nothing : ∀ mid ∈ ([] : List (Record S)), ∀ v : Variable,
        v.target.room S (mid v) = v.target.room S (s.vars v) := fun _ member => nomatch member
    exact ⟨rfl, [], .nil, nothing, (WroteAll.nil usable.onto
      (same.trans World.moved_onto.sameHeads)).behind lawful usable retained rfl nothing⟩
  | cons record records ih =>
    have now := recalls 0 record rfl
    rw [Int.natCast_zero, Int.add_zero] at now
    obtain ⟨s₁, reads, took, echoes⟩ :=
      read_record doc lawful assigns usable same bound unshared now
    obtain ⟨calls, rfl⟩ := Nat.exists_eq_succ_of_ne_zero (Nat.ne_zero_of_lt enough)
    obtain ⟨more, _, reads', rest⟩ := copyAll_ok run
    cases reads'.symm.trans reads
    obtain ⟨s₂, writes, rest⟩ : ∃ s₂, write api q s₁ = .ok () s₂ ∧
      copyAll api p q calls s₂ = .ok done s' := rest
    have usable₁ := usable.retained took.retained
    have same₁ := same.trans took.retained.world.sameHeads
    have row₁ : s₁.rows q = s.rows q := by rw [took.rows, Function.update_of_ne other.symm]
    have wrote := write_recorded doc raw typed lawful same₁ usable₁ (by rw [row₁]; exact first) writes
    have binding : SameBinding p s s₂ := took.binding.trans (wrote.binding_ne other)
    have binding₁ : SameBinding q s s₁ :=
      ⟨took.retained.alike, took.retained.world.sameHeads, by rw [row₁], by rw [row₁]⟩
    have apart₁ := binding₁.partsApart apart
    have next : SameBinding q s₁ s₂ := wrote.binding fun _ => rfl
    have apart₂ := next.partsApart apart₁
    have rooms₂ : ∀ v : Variable, v.target.room S (s₂.vars v) = v.target.room S (s.vars v) := by
      intro v
      rw [wrote.vars, took.retained.alike.rooms]
    have row₂ : s₂.rows p = { s.rows p with idx := (s.rows p).idx + 1 } := by
      rw [wrote.row_ne other, took.rows, Function.update_self]
      exact next_auto auto
    have row₂' : s₂.rows q = { s.rows q with idx := (s.rows q).idx + 1 } := by
      rw [wrote.rows, Function.update_self, row₁]
      exact next_auto auto'
    have place₁ : ∀ t, s₁.world.placeOf (.table t) = s.world.placeOf (.table t) :=
      placeOf_sameHeads took.retained.world.sameHeads
    have place₂ : ∀ t, s₂.world.placeOf (.table t) = s.world.placeOf (.table t) := fun t =>
      (placeOf_sameHeads wrote.heads t).trans (place₁ t)
    have tables₁ : s₁.world.placeOf (.table (s₁.rows p).table) ≠
        s₁.world.placeOf (.table (s₁.rows q).table) := by
      rw [place₁, place₁, took.binding.table, row₁]
      exact tables
    have unit₂ : s₂.world.unitOf (.table (s₂.rows p).table) =
        s.world.unitOf (.table (s.rows p).table) := by
      rw [← World.unitAt_placeOf, ← World.unitAt_placeOf, place₂, binding.table, wrote.others,
        took.retained.world.unitAt]
      rw [place₁, row₁]
      exact tables
    -- the rows that are still to be read are of another unit than the one that was written
    have recalls₂ : ∀ (k : Nat) (record : Record S), records[k]? = some record →
        Recalls api holding w₀ s₂ p ((s₂.rows p).idx + k) record := by
      intro k record' entry
      have later := (recalls (k + 1) record' entry).of_took lawful usable took
      have number : (s.rows p).idx + 1 + (k : Int) = (s.rows p).idx + ((k + 1 : Nat) : Int) := by
        omega
      rw [row₂, number]
      exact later.of_wrote other wrote lawful usable₁ tables₁
    rw [List.length_cons] at ends
    obtain ⟨ended, mids, echoed, rooms, more⟩ := ih (s := s₂) wrote.usable wrote.same
      (by rw [place₂, place₂, binding.table, row₂']; exact tables)
      (by rw [binding.entries]; exact bound) (binding.unshared unshared) (by rw [row₂]; exact auto)
      (by rw [unit₂, row₂]; dsimp only; omega) recalls₂
      (by rw [place₂, row₂']; exact apart₂) (by rw [row₂']; exact auto')
      (by rw [row₂']; dsimp only; omega) (Nat.lt_of_succ_lt_succ enough) rest
    have all : ∀ mid ∈ s₁.vars :: mids, ∀ v : Variable,
        v.target.room S (mid v) = v.target.room S (s.vars v) := by
      rintro mid (_ | ⟨_, member⟩) v
      · exact took.retained.alike.rooms v
      · rw [rooms mid member, rooms₂]
    refine ⟨ended, s₁.vars :: mids, .cons echoes (echoed.imp fun _ _ => binding.echoes.mp), all, ?_⟩
    refine (WroteAll.cons lawful usable₁ (fun mid member v => ?_) rfl ?_ ?_ wrote more).behind
      lawful usable took.retained row₁ all
    · rw [all mid member, took.retained.alike.rooms]
    · rw [place₁, row₁]
      exact apart₁
    · rw [row₁]
      exact auto'

theorem related_of_mem {α β : Type} {R : α → β → Prop} {xs : List α} {ys : List β}
    (related : List.Forall₂ R xs ys) {y : β} (member : y ∈ ys) : ∃ x ∈ xs, R x y := by
  induction related with
  | nil => cases member
  | cons head _ ih =>
    rcases List.mem_cons.mp member with rfl | later
    · exact ⟨_, List.mem_cons_self, head⟩
    · obtain ⟨x, inside, echo⟩ := ih later
      exact ⟨x, List.mem_cons_of_mem _ inside, echo⟩

theorem related_trans {α β γ : Type} {R : α → β → Prop} {R' : β → γ → Prop} {xs : List α} {ys : List β}
    {zs : List γ} (first : List.Forall₂ R xs ys) (second : List.Forall₂ R' ys zs) :
    List.Forall₂ (fun x z => ∃ y, R x y ∧ R' y z) xs zs := by
  induction first generalizing zs with
  | nil =>
    cases second
    exact .nil
  | cons head _ ih =>
    cases second with
    | cons head' tail' => exact .cons ⟨_, head, head'⟩ (ih tail')

structure Walks (s : Session S) (r : Nat) : Prop where
  bound : (s.rows r).entries ≠ []
  unshared : s.Unshared r
  apart : PartsApart (s.world.unitOf (.table (s.rows r).table)).heads s r
  auto : (s.rows r).autoAdvance = true
  first : 1 ≤ (s.rows r).idx

/-- The records that a loop writes to a table, and another one takes to a second table, are
read from there: each as the columns there keep what the first ones have kept of it. The
second loop, where it throws nothing, is over behind the last of them, as the third is. -/
theorem records_copied (doc : Documented api) (raw : RawBytes api) (typed : TypedCells api holding)
    (lawful : S.Lawful) (assigns : S.Assigns) (usable : Usable s) (other : p ≠ q)
    (tables : s.world.placeOf (.table (s.rows p).table) ≠ s.world.placeOf (.table (s.rows q).table))
    (input : Walks s p) (output : Walks s q)
    (behind : (s.world.unitOf (.table (s.rows p).table)).nrows < (s.rows p).idx + records.length)
    (behind' : (s.world.unitOf (.table (s.rows q).table)).nrows < (s.rows q).idx + records.length)
    (rooms : ∀ record ∈ records, ∀ v : Variable,
      v.target.room S (record v) = v.target.room S (s.vars v))
    (held : ∀ record ∈ records, ∀ row, ∀ f ∈ s.line p row record,
      f.2.Held holding (s.world.unitOf (.table (s.rows p).table)).heads)
    (held' : ∀ record ∈ records, ∀ mid, s.Echoes p record mid → ∀ row, ∀ f ∈ s.line q row mid,
      f.2.Held holding (s.world.unitOf (.table (s.rows q).table)).heads) {calls : Nat}
    (enough : records.length < calls) {done : Option Unit}
    (run : (writeAll api p records >>= fun _ => setIdx p (s.rows p).idx >>= fun _ =>
      copyAll api p q calls) s = .ok done s') {calls' : Nat} (enough' : records.length < calls') :
    done = some () ∧ ∃ out s'', (setIdx q (s.rows q).idx >>= fun _ => readAll api q calls') s' =
        .ok (some out) s'' ∧ List.Forall₂ (fun record x =>
          ∃ mid, s.Echoes p record mid ∧ s.Echoes q mid x) records out := by
  obtain ⟨_, t, writes, run⟩ := bind_ok.mp run
  obtain ⟨_, t₁, moves, copies⟩ := bind_ok.mp run
  have wrote := writeAll_known doc raw typed lawful (.refl s.world) usable rooms input.apart
    input.auto input.first writes
  obtain ⟨rows, units⟩ := writeAll_frame doc raw typed lawful (.refl s.world) usable rooms
    input.auto input.first writes
  obtain ⟨_, moves', retained, back, others, vars, world⟩ :=
    setIdx_back t p (s.rows p).idx
  cases moves.symm.trans moves'
  have row : t₁.rows p = s.rows p := by rw [back, wrote.row]
  have row' : t₁.rows q = s.rows q := by rw [others q other.symm, rows q other.symm]
  obtain ⟨binding, recalls⟩ := wrote.rewound lawful usable rooms held retained row
  have binding' : SameBinding q s t₁ :=
    ⟨binding.alike, binding.heads, by rw [row'], by rw [row']⟩
  have place := placeOf_sameHeads binding.heads
  have unit' : t₁.world.unitOf (.table (t₁.rows q).table) =
      s.world.unitOf (.table (s.rows q).table) := by
    rw [← World.unitAt_placeOf, ← World.unitAt_placeOf, place, row', world]
    exact units _ tables.symm
  have most := wrote.nrows
  obtain ⟨ended, mids, echoes, roomy, copied⟩ := copyAll_known doc raw typed lawful assigns
    (wrote.usable.retained retained) (wrote.same.trans retained.world.sameHeads) other
    (by rw [place, place, row, row']; exact tables) (by rw [row]; exact input.bound)
    (binding.unshared input.unshared) (by rw [row]; exact input.auto)
    (by rw [row, retained.world.unitOf]; omega) recalls
    (by rw [place, row']; exact binding'.partsApart output.apart) (by rw [row']; exact output.auto)
    (by rw [row']; exact output.first) enough copies
  have count : mids.length = records.length := echoes.length_eq.symm
  have held₁ : ∀ mid ∈ mids, ∀ row, ∀ f ∈ t₁.line q row mid,
      f.2.Held holding (t₁.world.unitOf (.table (t₁.rows q).table)).heads := by
    intro mid member row f handed
    obtain ⟨record, first, echo⟩ := related_of_mem echoes member
    have line : t₁.line q row mid = s.line q row mid := binding'.line lawful usable (fun v => by
      rw [roomy mid member, binding.alike.rooms])
    rw [unit']
    exact held' record first mid (binding.echoes.mp echo) row f (line ▸ handed)
  obtain ⟨out, s'', reads, more⟩ := copied.read_back doc lawful assigns
    (wrote.usable.retained retained) (by rw [row']; exact output.bound)
    (binding'.unshared output.unshared) (by rw [row']; exact output.auto)
    (by rw [unit', row', count]; exact behind') roomy held₁ (show mids.length < calls' by omega)
  rw [row'] at reads
  refine ⟨ended, out, s'', reads, related_trans (echoes.imp fun _ _ => binding.echoes.mp)
    (more.imp fun _ _ => binding'.echoes.mp)⟩

end Row

section Twins
open Table StringColumn

def twins (w : World) : World where
  files _ := w.files (w.tables 0).file
  hdus := w.hdus
  tables t := { w.tables 0 with file := t }

def paired (w : World) : Session listBitset :=
  { opened (twins w) 0 with
    rows := fun r => { table := r, idx := 1, autoAdvance := true, entries := [] } }

theorem grounded_twins {w : World} (own : w.Attached (.table 0)) (grown : Grown w 0) (t : Nat) :
    Grounded (twins w) t :=
  .of_grown own ⟨grown.synced, grown.made, grown.sized⟩

theorem usable_paired : Usable (paired withBoth) where
  ground := grounded_twins ⟨by decide +kernel, by decide +kernel⟩ grown_both
  columns _ _ member := nomatch member
  below _ _ member := nomatch member
  nodup _ := List.nodup_nil

def inBound : Session listBitset :=
  after (Row.add Reference.rawApi 0 "A" ⟨.string, 0⟩ (paired withBoth))

def twinsBound : Session listBitset := after (Row.add Reference.rawApi 1 "A" ⟨.string, 0⟩ inBound)

theorem in_bound : RowStep Reference.rawApi (.add 0 "A" ⟨.string, 0⟩) (paired withBoth) inBound :=
  ⟨⟨fun _ _ _ => rfl, fun _ _ array => (nomatch array), fun _ member => (nomatch member)⟩,
    ok_of_returned (by decide +kernel)⟩

theorem room_string (text text' : List Byte) :
    Target.room listBitset .string text = Target.room listBitset .string text' := rfl

theorem out_bound : RowStep Reference.rawApi (.add 1 "A" ⟨.string, 0⟩) inBound twinsBound :=
  ⟨⟨fun _ _ _ => rfl, fun _ _ array => (nomatch array), fun _ _ _ _ _ _ _ _ => room_string _ _⟩,
    ok_of_returned (by decide +kernel)⟩

theorem usable_twins : Usable twinsBound := by
  have first := in_bound.known Reference.documented_raw Reference.rawBytes Reference.typedCells_raw
    listBitset_lawful (.refl (paired withBoth).world) usable_paired
  exact (out_bound.known Reference.documented_raw Reference.rawBytes Reference.typedCells_raw
    listBitset_lawful first.1.2 first.1.1).1.1

theorem walks_twins : Row.Walks twinsBound 0 ∧ Row.Walks twinsBound 1 := by
  constructor <;> constructor
  all_goals first | decide +kernel | (unfold Unshared; decide +kernel) |
    (unfold PartsApart; decide +kernel)

def threeRecords : List (Record listBitset) :=
  [bytesOf "ab", bytesOf "", bytesOf "wxyz"].map fun text =>
    Function.update twinsBound.vars ⟨.string, 0⟩ text

theorem rooms_threeRecords : ∀ record ∈ threeRecords, ∀ v : Variable,
    v.target.room listBitset (record v) = v.target.room listBitset (twinsBound.vars v) := by
  intro record member v
  obtain ⟨text, _, rfl⟩ := List.mem_map.mp member
  by_cases string : v = ⟨.string, 0⟩
  · subst string
    exact room_string _ _
  · rw [Function.update_of_ne string]

def threeCopied : Session listBitset :=
  after ((Row.writeAll Reference.rawApi 0 threeRecords >>= fun _ =>
    Row.setIdx 0 (twinsBound.rows 0).idx >>= fun _ => Row.copyAll Reference.rawApi 0 1 4) twinsBound)

theorem records_copied_twins : (Row.writeAll Reference.rawApi 0 threeRecords >>= fun _ =>
      Row.setIdx 0 (twinsBound.rows 0).idx >>= fun _ => Row.copyAll Reference.rawApi 0 1 4)
        twinsBound = .ok (some ()) threeCopied ∧
    ∃ out s', (Row.setIdx 1 (twinsBound.rows 1).idx >>= fun _ => Row.readAll Reference.rawApi 1 4)
      threeCopied = .ok (some out) s' ∧ List.Forall₂ (fun record x =>
        ∃ mid, twinsBound.Echoes 0 record mid ∧ twinsBound.Echoes 1 mid x) threeRecords out := by
  have text : ∀ r, r = 0 ∨ r = 1 → ∀ e ∈ (twinsBound.rows r).entries,
      (twinsBound.entries e).var.target.text = true := by
    rintro r (rfl | rfl) <;> decide +kernel
  have behind : (twinsBound.world.unitOf (.table (twinsBound.rows 0).table)).nrows <
        (twinsBound.rows 0).idx + (threeRecords.length : Int) ∧
      (twinsBound.world.unitOf (.table (twinsBound.rows 1).table)).nrows <
        (twinsBound.rows 1).idx + (threeRecords.length : Int) := by decide +kernel
  have run : (Row.writeAll Reference.rawApi 0 threeRecords >>= fun _ =>
      Row.setIdx 0 (twinsBound.rows 0).idx >>= fun _ => Row.copyAll Reference.rawApi 0 1 4)
        twinsBound = .ok (some ()) threeCopied := ok_of_value (by decide +kernel)
  exact ⟨run, (Row.records_copied Reference.documented_raw Reference.rawBytes Reference.typedCells_raw
    listBitset_lawful DynamicBitset.listBitset_assigns usable_twins (by decide) (by decide +kernel)
    walks_twins.1 walks_twins.2 behind.1 behind.2 rooms_threeRecords
    (fun _ _ _ _ => held_line (text 0 (.inl rfl))) (fun _ _ _ _ _ _ => held_line (text 1 (.inr rfl)))
    (by decide) run (by decide)).2⟩

end Twins

end MisFITS
