import MisFITS.Delivery

/-! Programs that read with several cursors, in any order of their calls. -/
namespace MisFITS
open Program HDU RowEntry

namespace Row
open Session

variable {api : Cfitsio} {S : DynamicBitset}

def rowsOf (s : Session S) (r : Nat) : Int := (s.world.unitOf (.table (s.rows r).table)).nrows

def run (api : Cfitsio) (s : Session S) (schedule : List Event) : Session S :=
  schedule.foldl (Event.perform api) s

theorem run_sound (lawful : S.Lawful) {s : Session S} (sound : Sound api s)
    (schedule : List Event) :
    Sound api (run api s schedule) ∧ s.world.Moved (run api s schedule).world := by
  induction schedule generalizing s with
  | nil => exact ⟨sound, .refl _⟩
  | cons e schedule ih =>
    obtain ⟨next, moved, _⟩ := perform_sound lawful sound e
    obtain ⟨last, more⟩ := ih next
    exact ⟨last, moved.trans more⟩

theorem rows_others (lawful : S.Lawful) {s : Session S} (sound : Sound api s) {r : Nat}
    {schedule : List Event} (others : ∀ e ∈ schedule, e.target ≠ some r) :
    (run api s schedule).rows r = s.rows r := by
  induction schedule generalizing s with
  | nil => rfl
  | cons e schedule ih =>
    obtain ⟨next, _, same⟩ := perform_sound lawful sound e
    rw [← same r (others e List.mem_cons_self)]
    exact ih next (fun e' member => others e' (List.mem_cons_of_mem e member))

def count (r : Nat) (schedule : List Event) : Nat := schedule.countP (Event.reads r)

theorem read_next (doc : Documented api) (lawful : S.Lawful) {s : Session S} {r : Nat} {fresh : Row}
    {j : Nat} (sound : Sound api s) (bound : fresh.entries ≠ [])
    (auto : fresh.autoAdvance = true)
    (here : s.rows r = { fresh with idx := (min j (rowsOf s r).toNat : Nat) + 1 }) :
    ∃ s', read api r s = .ok (decide (j < (rowsOf s r).toNat)) s' ∧
      s'.rows r = { fresh with idx := (min (j + 1) (rowsOf s r).toNat : Nat) + 1 } := by
  have nonempty : (s.rows r).entries ≠ [] := by rw [here]; exact bound
  have idx : (s.rows r).idx = (min j (rowsOf s r).toNat : Nat) + 1 := by rw [here]
  by_cases more : j < (rowsOf s r).toNat
  · obtain ⟨s', _, _, run⟩ := read_of_row doc lawful sound nonempty (by omega)
      (show _ ≤ rowsOf s r by omega)
    refine ⟨_, by rw [run, decide_eq_true more], ?_⟩
    have row : (s'.setRow r (next (s.rows r))).rows r = next (s.rows r) := Function.update_self ..
    rw [row, here]
    unfold next
    rw [if_pos auto]
    congr 1
    dsimp only
    omega
  · refine ⟨_, by rw [read_of_end doc nonempty (sound.attached r nonempty) (show rowsOf s r < _ by omega),
      decide_eq_false more], ?_⟩
    have row : (onto s r).rows r = s.rows r := rfl
    rw [row, here]
    congr 1
    omega

theorem rows_run (doc : Documented api) (lawful : S.Lawful) {s : Session S} {r : Nat} {fresh : Row}
    {j : Nat} (sound : Sound api s) (bound : fresh.entries ≠ [])
    (auto : fresh.autoAdvance = true)
    (here : s.rows r = { fresh with idx := (min j (rowsOf s r).toNat : Nat) + 1 })
    {schedule : List Event} (only : ∀ e ∈ schedule, e.reads r = true ∨ e.target ≠ some r) :
    (run api s schedule).rows r =
      { fresh with idx := (min (j + count r schedule) (rowsOf s r).toNat : Nat) + 1 } := by
  induction schedule generalizing s j with
  | nil => exact here
  | cons e schedule ih =>
    obtain ⟨sound', moved, others⟩ := perform_sound lawful sound e
    have later : ∀ e ∈ schedule, e.reads r = true ∨ e.target ≠ some r :=
      fun e' member => only e' (List.mem_cons_of_mem e member)
    rcases only e List.mem_cons_self with reads | other
    · obtain rfl := Event.reads_iff.mp reads
      obtain ⟨s', run, row⟩ := read_next doc lawful sound bound auto here
      have state : Event.perform api s (.read r) = s' := by
        rw [Event.perform, Event.run, after_discard, run]
        rfl
      rw [state] at sound' moved
      have rows : rowsOf s' r = rowsOf s r := by
        unfold rowsOf
        rw [row, here, moved.unitOf]
      have one : count r (.read r :: schedule) = count r schedule + 1 :=
        List.countP_cons_of_pos reads
      have rest := ih sound' (by rw [rows]; exact row) later
      rw [rows, Nat.add_right_comm, Nat.add_assoc] at rest
      rw [one, ← rest, ← state]
      rfl
    · have same := others r other
      have rows : rowsOf (e.perform api s) r = rowsOf s r := by
        unfold rowsOf
        rw [same, moved.unitOf]
      have nothing : count r (e :: schedule) = count r schedule :=
        List.countP_cons_of_neg (fun reads => other (by rw [Event.reads_iff.mp reads]; rfl))
      rw [nothing, ← rows]
      exact ih sound' (by rw [same, rows]; exact here) later

/-- Whatever else is read, copied or moved: a cursor with bound columns reads the
row it stands at, of its own table, or ends behind the last one; only calls on it
change it; and a fresh one reads every row once, in order, and then ends. -/
theorem read_any_schedule (doc : Documented api) (lawful : S.Lawful) {s₀ : Session S}
    (sound : Sound api s₀) (schedule : List Event) (r : Nat)
    (bound : ((run api s₀ schedule).rows r).entries ≠ []) :
    let s := run api s₀ schedule
    let h := s₀.world.unitOf (.table (s.rows r).table)
    (1 ≤ (s.rows r).idx → (s.rows r).idx ≤ h.nrows →
      ∃ s', Delivered api h (s.rows r).idx (s.rows r).entries (onto s r) s' ∧
        (∀ v, (∀ e ∈ (s.rows r).entries, (s.entries e).var ≠ v) → s'.vars v = s.vars v) ∧
        read api r s = .ok true (s'.setRow r (next (s.rows r)))) ∧
    (h.nrows < (s.rows r).idx → read api r s = .ok false (onto s r)) ∧
    (∀ later : List Event, (∀ e ∈ later, e.target ≠ some r) →
      (run api s later).rows r = s.rows r) ∧
    ((s₀.rows r).idx = 1 → (s₀.rows r).autoAdvance = true → (s₀.rows r).entries ≠ [] →
      (∀ e ∈ schedule, e.reads r = true ∨ e.target ≠ some r) →
      s.rows r = { s₀.rows r with idx := (min (count r schedule) h.nrows.toNat : Nat) + 1 } ∧
      ∃ s', read api r s = .ok (decide (count r schedule < h.nrows.toNat)) s') := by
  intro s h
  obtain ⟨sound', moved⟩ := run_sound lawful sound schedule
  have unit : s.world.unitOf (.table (s.rows r).table) = h := moved.unitOf _
  refine ⟨fun low high => ?_, fun past => ?_, fun _ others => rows_others lawful sound' others, ?_⟩
  · rw [← unit] at high
    obtain ⟨s', delivered, _, ok⟩ := read_of_row doc lawful sound' bound low high
    rw [unit] at delivered
    exact ⟨s', delivered, fun v unbound => delivered.vars_ne unbound, ok⟩
  · rw [← unit] at past
    exact read_of_end doc bound (sound'.attached r bound) past
  · intro first auto nonempty only
    have start : s₀.rows r =
        { s₀.rows r with idx := (min 0 (rowsOf s₀ r).toNat : Nat) + 1 } := by
      rw [Nat.zero_min, Nat.cast_zero, Int.zero_add, ← first]
    have row := rows_run doc lawful sound nonempty auto start only
    rw [Nat.zero_add] at row
    have same : rowsOf s₀ r = h.nrows := by
      change _ = (s₀.world.unitOf (.table ((run api s₀ schedule).rows r).table)).nrows
      rw [row]
      rfl
    have rows : rowsOf s r = h.nrows := congrArg HduData.nrows unit
    rw [same] at row
    refine ⟨row, ?_⟩
    obtain ⟨s', ok, _⟩ := read_next doc lawful sound' nonempty auto (by rw [rows]; exact row)
    rw [rows] at ok
    exact ⟨s', ok⟩

def twoRows : Session listBitset where
  world :=
    let w := Reference.world (Reference.table [Reference.newColumn "A" 1 .byte] 2)
      Reference.primary Reference.primary
    w.setColumns 0 [Reference.byteInfo]
  vars v := v.target.nothing
  made := 0
  entries _ := ⟨⟨.string, 0⟩, ⟨⟨0, 0, 0, .string⟩, [], 0⟩⟩
  rows _ := { table := 0, idx := 1, autoAdvance := true, entries := [] }

def bytes : Variable := ⟨.native .byte true, 0⟩

/-- A cursor without columns is not read. -/
theorem read_unbound : twoRows.rows 0 = { table := 0, idx := 1, autoAdvance := true, entries := [] } ∧
    rowsOf twoRows 0 = 2 ∧
    ∃ s', read Reference.api 0 twoRows =
      .error (.assert "row object was not assigned any columns to read") s' :=
  ⟨rfl, rfl, _, rfl⟩

theorem twoRows_sound : Sound Reference.api twoRows where
  fits _ low := absurd low (Nat.not_lt_zero _)
  made _ _ member := nomatch member
  attached _ some := absurd rfl some
  readable _ _ member := nomatch member

theorem exists_bound : ∃ s : Session listBitset, Sound Reference.api s ∧
    s.rows 0 = { table := 0, idx := 1, autoAdvance := true, entries := [0] } ∧
    rowsOf s 0 = 2 := by
  obtain ⟨s, run, entry, row, rows⟩ : ∃ s, Row.add Reference.api 0 "A" bytes twoRows = .ok () s ∧
      s.entries 0 = ⟨bytes, { colnum := 1, nelem := 1, natomic := 1, id := .byte }⟩ ∧
      s.rows 0 = { table := 0, idx := 1, autoAdvance := true, entries := [0] } ∧ rowsOf s 0 = 2 :=
    ⟨_, rfl, rfl, rfl, rfl⟩
  refine ⟨s, sound_add (r := 0) Reference.documented listBitset_lawful twoRows_sound ?_ ?_
    (fun _ low => absurd low (Nat.not_lt_zero _)) (fun array => absurd array (by decide)) ?_ run,
    row, rows⟩
  · exact ⟨(by decide : (1 : Int) ≤ 2), (by decide : (2 : Int) ≤ 3)⟩
  · intro info member
    cases List.mem_singleton.mp member
    exact ⟨by decide, 1, rfl⟩
  · intro i low high
    have cell : Reference.api.readCol .byte 1 i 1 1
        (twoRows.world.unitOf (.table (twoRows.rows 0).table)) = .ok [0] :=
      if_pos ⟨low, high, Int.le_refl 1⟩
    change Readable _ _ i (s.entries 0)
    rw [entry]
    exact ⟨_, cell, rfl⟩

def otherCalls : List Event :=
  [.copy 1 0, .read 1, .read 1, .read 1,
    .look ⟨File.moveTo Reference.api 0 1, File.moved_moveTo 0 1⟩]

theorem read_after_copy : ∃ s s' : Session listBitset,
    s.rows 0 = { table := 0, idx := 1, autoAdvance := true, entries := [0] } ∧
    read Reference.api 0 (run Reference.api s otherCalls) = .ok true s' := by
  obtain ⟨s, sound, row, rows⟩ := exists_bound
  have others : ∀ e ∈ otherCalls, e.target ≠ some 0 := by simp [otherCalls, Event.target]
  have last := rows_others listBitset_lawful sound others
  obtain ⟨_, s', ok⟩ := (read_any_schedule Reference.documented listBitset_lawful sound otherCalls 0
    (by rw [last, row]; decide)).2.2.2 (by rw [row]) (by rw [row]) (by rw [row]; decide)
    (fun e member => Or.inr (others e member))
  have two : (s.world.unitOf (.table ((run Reference.api s otherCalls).rows 0).table)).nrows = 2 := by
    rw [last]
    exact rows
  rw [two] at ok
  exact ⟨s, s', row, ok⟩

end Row
end MisFITS
