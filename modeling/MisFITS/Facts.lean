import Mathlib.Data.Set.Basic
import MisFITS.Run

/-! What is known of a store from the writes to it. A write makes a fact true, and
leaves those that are apart from it as they were. -/
namespace Facts
open Run

structure Store (σ φ : Type) where
  holds : φ → σ → Prop
  apart : φ → φ → Prop

variable {σ φ A : Type} {V : Store σ φ} {K : Set φ} {c d : φ} {cs : List φ} {s t : σ}

def Known (V : Store σ φ) (K : Set φ) (s : σ) : Prop := ∀ d ∈ K, V.holds d s

def write (V : Store σ φ) (K : Set φ) (c : φ) : Set φ := {d | d = c ∨ d ∈ K ∧ V.apart c d}

def writes (V : Store σ φ) (K : Set φ) (cs : List φ) : Set φ := cs.foldl (write V) K

structure Writes (V : Store σ φ) (c : φ) (s t : σ) : Prop where
  here : V.holds c t
  others : ∀ d, V.apart c d → V.holds d s → V.holds d t

/-- No write behind it reaches the fact. -/
def Latest (V : Store σ φ) (cs : List φ) (d : φ) : Prop :=
  ∃ before later, cs = before ++ d :: later ∧ ∀ c ∈ later, V.apart c d

theorem Known.write (known : Known V K s) (step : Writes V c s t) : Known V (write V K c) t := by
  rintro d (rfl | ⟨member, apart⟩)
  · exact step.here
  · exact step.others d apart (known d member)

theorem writes_append (V : Store σ φ) (K : Set φ) (cs cs' : List φ) :
    writes V K (cs ++ cs') = writes V (writes V K cs) cs' := List.foldl_append

/-- After some writes, what is known is what was before and is apart from all of them,
and the latest of them. -/
theorem mem_writes : d ∈ writes V K cs ↔ (d ∈ K ∧ ∀ c ∈ cs, V.apart c d) ∨ Latest V cs d := by
  induction cs generalizing K with
  | nil => simp [writes, Latest]
  | cons c cs ih =>
    change d ∈ writes V (Facts.write V K c) cs ↔ _
    rw [ih]
    constructor
    · rintro (⟨rfl | ⟨member, apart⟩, later⟩ | ⟨before, later, rfl, apart⟩)
      · exact Or.inr ⟨[], cs, rfl, later⟩
      · exact Or.inl ⟨member, List.forall_mem_cons.mpr ⟨apart, later⟩⟩
      · exact Or.inr ⟨c :: before, later, rfl, apart⟩
    · rintro (⟨member, apart⟩ | ⟨before, later, same, apart⟩)
      · obtain ⟨first, rest⟩ := List.forall_mem_cons.mp apart
        exact Or.inl ⟨Or.inr ⟨member, first⟩, rest⟩
      · cases before with
        | nil =>
          cases same
          exact Or.inl ⟨Or.inl rfl, apart⟩
        | cons x before =>
          cases same
          exact Or.inr ⟨before, later, rfl, apart⟩

/-- What comes before, and what comes behind and does not reach the fact, make no difference. -/
theorem Latest.within (latest : Latest V cs d) (before : List φ) {later : List φ}
    (apart : ∀ c ∈ later, V.apart c d) : Latest V (before ++ (cs ++ later)) d := by
  obtain ⟨first, rest, rfl, behind⟩ := latest
  refine ⟨before ++ first, rest ++ later, by simp, fun c member => ?_⟩
  exact (List.mem_append.mp member).elim (behind c) (apart c)

theorem latest_of_pairwise (apart : cs.Pairwise V.apart) (symm : ∀ c d, V.apart c d → V.apart d c)
    (member : d ∈ cs) : Latest V cs d := by
  obtain ⟨before, later, rfl⟩ := List.append_of_mem member
  have others := (List.pairwise_append.mp apart).2.1
  exact ⟨before, later, rfl, fun c behind => symm d c (List.rel_of_pairwise_cons others behind)⟩

section Runs

variable {ρ : Type} {view : ρ → σ} {step : A → ρ → ρ → Prop} {made : A → ρ → List φ}

def log (made : A → ρ → List φ) (s : ρ) (trace : List (A × ρ)) : List φ :=
  (events s trace).flatMap (fun p => made p.2 p.1)

theorem log_cons {s t : ρ} (a : A) (rest : List (A × ρ)) :
    log made s ((a, t) :: rest) = made a s ++ log made t rest := rfl

/-- When each step keeps the account, a run does: it knows what it wrote last. -/
theorem known_run {I : ρ → Prop}
    (keeps : ∀ a s t, step a s t → I s →
      I t ∧ ∀ K, Known V K (view s) → Known V (writes V K (made a s)) (view t))
    {s : ρ} {trace : List (A × ρ)} (run : Trace step s trace) (start : I s)
    (known : Known V K (view s)) :
    I (last s trace) ∧ Known V (writes V K (log made s trace)) (view (last s trace)) := by
  induction trace generalizing s K with
  | nil => exact ⟨start, known⟩
  | cons p rest ih =>
    obtain ⟨a, t⟩ := p
    obtain ⟨first, later⟩ := run
    obtain ⟨inv, more⟩ := keeps a s t first start
    rw [log_cons, writes_append]
    exact ih later inv (more K known)

end Runs

end Facts
