import Mathlib.Order.Defs.PartialOrder

/-! Runs of a system, as the events that happened and the state after each one,
and what holds in every state of a run. -/
namespace Run

variable {A S : Type} {step : A → S → S → Prop}

/-- Each event of the run takes the state before it to the state after it. -/
def Trace (step : A → S → S → Prop) : S → List (A × S) → Prop
  | _, [] => True
  | s, (a, t) :: rest => step a s t ∧ Trace step t rest

theorem Trace.cons {s t : S} {a : A} {rest : List (A × S)} :
    Trace step s ((a, t) :: rest) ↔ step a s t ∧ Trace step t rest := Iff.rfl

def last : S → List (A × S) → S
  | s, [] => s
  | _, (_, t) :: rest => last t rest

theorem Trace.last {R : S → S → Prop} (refl : ∀ s, R s s) (trans : ∀ s t u, R s t → R t u → R s u)
    (keeps : ∀ a s t, step a s t → R s t) {s : S} {trace : List (A × S)}
    (run : Trace step s trace) : R s (last s trace) := by
  induction trace generalizing s with
  | nil => exact refl s
  | cons p rest ih =>
    obtain ⟨a, t⟩ := p
    obtain ⟨first, later⟩ := run
    exact trans s t _ (keeps a s t first) (ih later)

/-- What good events keep holds at the end of a run of good events. -/
theorem Trace.invariant {Inv : S → Prop} {Good : A → Prop}
    (keeps : ∀ a s t, Good a → step a s t → Inv s → Inv t) {s : S} {trace : List (A × S)}
    (good : ∀ p ∈ trace, Good p.1) (start : Inv s) (run : Trace step s trace) :
    Inv (Run.last s trace) := by
  induction trace generalizing s with
  | nil => exact start
  | cons p rest ih =>
    obtain ⟨a, t⟩ := p
    obtain ⟨first, later⟩ := run
    have here := keeps a s t (good _ List.mem_cons_self) first start
    exact ih (fun q member => good q (List.mem_cons_of_mem _ member)) here later

/-- Where each step changes what is seen of a state as an edit does, a run changes
it as the edits do one after another. -/
theorem Trace.fold {V : Type} (view : S → V) (edit : A → V → V) {Inv : S → Prop}
    (follows : ∀ a s t, step a s t → Inv s → Inv t ∧ view t = edit a (view s)) {s : S}
    {trace : List (A × S)} (start : Inv s) (run : Trace step s trace) :
    Inv (Run.last s trace) ∧
      view (Run.last s trace) = (trace.map Prod.fst).foldl (fun v a => edit a v) (view s) := by
  induction trace generalizing s with
  | nil => exact ⟨start, rfl⟩
  | cons p rest ih =>
    obtain ⟨a, t⟩ := p
    obtain ⟨first, later⟩ := run
    obtain ⟨held, same⟩ := follows a s t first start
    have more := ih held later
    rw [same] at more
    exact more

/-- Where good events keep an invariant that implies the property, and the others
break the property, it holds all along a run exactly when all events are good. -/
theorem Trace.holds_iff {Inv Holds : S → Prop} {Good : A → Prop}
    (keeps : ∀ a s t, Good a → step a s t → Inv s → Inv t)
    (implies : ∀ s, Inv s → Holds s)
    (breaks : ∀ a s t, ¬Good a → step a s t → Inv s → ¬Holds t)
    {s : S} {trace : List (A × S)} (start : Inv s) (run : Trace step s trace) :
    (∀ p ∈ trace, Holds p.2) ↔ ∀ p ∈ trace, Good p.1 := by
  induction trace generalizing s with
  | nil => simp
  | cons p rest ih =>
    obtain ⟨a, t⟩ := p
    obtain ⟨first, later⟩ := run
    simp only [List.mem_cons, forall_eq_or_imp]
    constructor
    · rintro ⟨held, more⟩
      have good : Good a :=
        Classical.byContradiction (fun bad => breaks a s t bad first start held)
      exact ⟨good, (ih (keeps a s t good first start) later).mp more⟩
    · rintro ⟨good, more⟩
      have inv := keeps a s t good first start
      exact ⟨implies t inv, (ih inv later).mpr more⟩

/-! What a run does to numbers that its events may lower or take away. -/
section Follow

variable {N : Type} {carry : A → S → N → Option N}

def events : S → List (A × S) → List (S × A)
  | _, [] => []
  | s, (a, t) :: rest => (s, a) :: events t rest

/-- What has become of a number at the end of the run, if it is still there. -/
def follow (carry : A → S → N → Option N) : S → N → List (A × S) → Option N
  | _, n, [] => some n
  | s, n, (a, t) :: rest => (carry a s n).bind (fun m => follow carry t m rest)

theorem follow_cons {s t : S} {a : A} {n m : N} {rest : List (A × S)} :
    follow carry s n ((a, t) :: rest) = some m ↔
      ∃ k, carry a s n = some k ∧ follow carry t k rest = some m :=
  Option.bind_eq_some_iff

/-- What good steps keep of a number and the state, a run keeps. -/
theorem Trace.follow {Holds : S → N → Prop}
    (keeps : ∀ a s t n m, step a s t → Holds s n → carry a s n = some m → Holds t m) {s : S}
    {n m : N} {trace : List (A × S)} (run : Trace step s trace) (start : Holds s n)
    (alive : Run.follow carry s n trace = some m) : Holds (Run.last s trace) m := by
  induction trace generalizing s n with
  | nil =>
    cases alive
    exact start
  | cons p rest ih =>
    obtain ⟨a, t⟩ := p
    obtain ⟨first, later⟩ := run
    obtain ⟨k, carried, alive⟩ := follow_cons.mp alive
    exact ih later (keeps a s t n k first start carried) alive

variable [PartialOrder N]

theorem follow_le (lower : ∀ a s n m, carry a s n = some m → m ≤ n) {s : S} {n m : N}
    {trace : List (A × S)} (alive : follow carry s n trace = some m) : m ≤ n := by
  induction trace generalizing s n with
  | nil =>
    cases alive
    exact le_refl _
  | cons p rest ih =>
    obtain ⟨a, t⟩ := p
    obtain ⟨k, carried, alive⟩ := follow_cons.mp alive
    exact le_trans (ih alive) (lower a s n k carried)

theorem follow_iff (lower : ∀ a s n m, carry a s n = some m → m ≤ n) {s : S} {n m : N}
    {trace : List (A × S)} (alive : follow carry s n trace = some m) :
    m = n ↔ ∀ q ∈ events s trace, ∀ k, carry q.2 q.1 n = some k → k = n := by
  induction trace generalizing s with
  | nil =>
    cases alive
    simp [events]
  | cons p rest ih =>
    obtain ⟨a, t⟩ := p
    obtain ⟨k, carried, behind⟩ := follow_cons.mp alive
    simp only [events, List.mem_cons, forall_eq_or_imp]
    constructor
    · intro still
      have same : k = n := le_antisymm (lower a s n k carried) (still ▸ follow_le lower behind)
      rw [same] at carried behind
      refine ⟨fun j found => ?_, (ih behind).mp still⟩
      exact Option.some.inj (found.symm.trans carried)
    · rintro ⟨here, later⟩
      rw [here k carried] at behind
      exact (ih behind).mpr later

end Follow

end Run
