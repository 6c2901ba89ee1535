import Mathlib.Data.List.Basic
import MisFITS.Program

/-! Copying between iterators. An algorithm chooses in every round the form in which it
advances an iterator; what a form does is up to the iterator. -/
namespace Iterators
open Program

variable {ε F ι ο σ τ α β : Type}

/-- An iterator to read from. A step gives the iterator after it, and the one that the
round reads through. -/
structure Input (ε F ι σ α : Type) where
  deref : ι → σ → Except ε α
  step : F → ι → ι × ι

structure Output (ε F ο τ α : Type) where
  assign : ο → α → τ → Except ε τ
  step : F → ο → ο × ο

def Output.writeAll (output : Output ε F ο τ α) (forms : Nat → F) :
    Nat → ο → List α → τ → Except ε τ
  | _, _, [], target => .ok target
  | i, result, a :: as, target => do
    let target ← output.assign (output.step (forms i) result).2 a target
    writeAll output forms (i + 1) (output.step (forms i) result).1 as target

section Copy

variable (input : Input ε F ι σ α) (output : Output ε F ο τ α) (source : σ) (last : ι)
  (forms forms' : Nat → F)

inductive Reads : Nat → ι → List α → Prop
  | done {i : Nat} : Reads i last []
  | round {i : Nat} {it : ι} {a : α} {as : List α} (more : it ≠ last)
      (read : input.deref (input.step (forms i) it).2 source = .ok a)
      (rest : Reads (i + 1) (input.step (forms i) it).1 as) : Reads i it (a :: as)

/-- The loop until `first == last`, for so many rounds at most: what it has made of the
target when it has ended. -/
def copy [DecidableEq ι] : Nat → Nat → ι → ο → τ → Except ε (Option τ)
  | 0, _, _, _, _ => .ok none
  | fuel + 1, i, first, result, target =>
    if first = last then .ok (some target)
    else do
      let a ← input.deref (input.step (forms i) first).2 source
      let target ← output.assign (output.step (forms' i) result).2 a target
      copy fuel (i + 1) (input.step (forms i) first).1 (output.step (forms' i) result).1 target

end Copy

section Rules

variable {input : Input ε F ι σ α} {output : Output ε F ο τ α} {source : σ} {last first it : ι}
  {forms forms' : Nat → F} {i : Nat} {result : ο} {target target' : τ} {a : α} {as bs : List α}

theorem writeAll_cons : output.writeAll forms i result (a :: as) target = .ok target' ↔
    ∃ middle, output.assign (output.step (forms i) result).2 a target = .ok middle ∧
      output.writeAll forms (i + 1) (output.step (forms i) result).1 as middle = .ok target' :=
  except_bind_ok

theorem Reads.unique (h : Reads input source last forms i it as)
    (h' : Reads input source last forms i it bs) : as = bs := by
  induction h generalizing bs with
  | done =>
    cases h' with
    | done => rfl
    | round more => exact absurd rfl more
  | round more read rest ih =>
    cases h' with
    | done => exact absurd rfl more
    | round more' read' rest' =>
      cases read.symm.trans read'
      rw [ih rest']

variable [DecidableEq ι]

theorem copy_ok {fuel : Nat} (run : copy input output source last forms forms' fuel i first result
    target = .ok (some target')) : ∃ as, Reads input source last forms i first as ∧
      output.writeAll forms' i result as target = .ok target' := by
  induction fuel generalizing i first result target with
  | zero => cases run
  | succ fuel ih =>
    unfold copy at run
    split at run
    · rename_i ends
      subst ends
      cases run
      exact ⟨[], .done, rfl⟩
    · rename_i more
      obtain ⟨a, read, run⟩ := except_bind_ok.mp run
      obtain ⟨middle, writes, run⟩ := except_bind_ok.mp run
      obtain ⟨as, rest, writes'⟩ := ih run
      exact ⟨a :: as, .round more read rest, writeAll_cons.mpr ⟨middle, writes, writes'⟩⟩

theorem copy_of_reads (reads : Reads input source last forms i first as)
    (writes : output.writeAll forms' i result as target = .ok target') :
    copy input output source last forms forms' (as.length + 1) i first result target =
      .ok (some target') := by
  induction reads generalizing result target with
  | done =>
    cases writes
    exact if_pos rfl
  | round more read rest ih =>
    obtain ⟨middle, first, writes⟩ := writeAll_cons.mp writes
    unfold copy
    rw [if_neg more, read]
    exact except_bind_ok.mpr ⟨_, rfl, except_bind_ok.mpr ⟨_, first, ih writes⟩⟩

theorem copy_iff : (∃ fuel, copy input output source last forms forms' fuel i first result target =
    .ok (some target')) ↔ ∃ as, Reads input source last forms i first as ∧
      output.writeAll forms' i result as target = .ok target' :=
  ⟨fun ⟨_, run⟩ => copy_ok run, fun ⟨as, reads, writes⟩ => ⟨as.length + 1, copy_of_reads reads writes⟩⟩

end Rules

def travel (stride : F → Nat) (forms : Nat → F) : Nat → Nat → Nat
  | _, 0 => 0
  | i, n + 1 => stride (forms i) + travel stride forms (i + 1) n

section Travel

variable {stride : F → Nat} {forms : Nat → F} {i n : Nat}

theorem travel_le (slow : ∀ form, stride form ≤ 1) (forms : Nat → F) (i n : Nat) :
    travel stride forms i n ≤ n := by
  induction n generalizing i with
  | zero => exact Nat.le_refl 0
  | succ n ih =>
    have here := slow (forms i)
    have rest := ih (i + 1)
    rw [travel]
    omega

theorem strides_succ : (∀ j < n + 1, stride (forms (i + j)) = 1) ↔
    stride (forms i) = 1 ∧ ∀ j < n, stride (forms (i + 1 + j)) = 1 := by
  constructor
  · intro all
    refine ⟨all 0 (Nat.succ_pos n), fun j low => ?_⟩
    rw [Nat.add_assoc, Nat.add_comm 1]
    exact all (j + 1) (Nat.succ_lt_succ low)
  · rintro ⟨one, rest⟩ j low
    cases j with
    | zero => exact one
    | succ j =>
      rw [Nat.add_comm j, ← Nat.add_assoc]
      exact rest j (Nat.lt_of_succ_lt_succ low)

theorem travel_all (slow : ∀ form, stride form ≤ 1) (far : n ≤ travel stride forms i n) :
    ∀ j < n, stride (forms (i + j)) = 1 := by
  induction n generalizing i with
  | zero => exact fun j low => absurd low (Nat.not_lt_zero j)
  | succ n ih =>
    rw [travel] at far
    have here := slow (forms i)
    have rest := travel_le slow forms (i + 1) n
    exact strides_succ.mpr ⟨by omega, ih (by omega)⟩

end Travel

def load (e : ε) (xs : List α) (p : Int) : Except ε α :=
  match p.toNat?.bind (fun k => xs[k]?) with
  | some a => .ok a
  | none => .error e

def store (e : ε) (p : Int) (a : α) (xs : List α) : Except ε (List α) :=
  match p.toNat? with
  | some k => if k < xs.length then .ok (xs.set k a) else .error e
  | none => .error e

structure Input.Over (input : Input ε F ι (List α) β) (pos : ι → Int) (stride : F → Nat)
    (f : α → β) (e : ε) : Prop where
  next : ∀ form it, pos (input.step form it).1 = pos it + stride form
  deref : ∀ form it xs, input.deref (input.step form it).2 xs = (load e xs (pos it)).map f
  inj : ∀ {it it'}, pos it = pos it' → it = it'

structure Output.Over (output : Output ε F ο (List β) α) (pos : ο → Int) (stride : F → Nat)
    (f : α → β) (e : ε) : Prop where
  next : ∀ form it, pos (output.step form it).1 = pos it + stride form
  assign : ∀ form it a xs, output.assign (output.step form it).2 a xs = store e (pos it) (f a) xs

section Vectors

variable {input : Input ε F ι (List α) β} {output : Output ε F ο (List β) α} {pos : ι → Int}
  {pos' : ο → Int} {stride : F → Nat} {f : α → β} {e : ε} {forms : Nat → F} {i n k : Nat}
  {it last : ι} {result : ο} {xs as before behind : List α} {ys ys' front old rear : List β}

theorem load_append (a : α) : load e (before ++ a :: behind) before.length = .ok a := by
  unfold load
  rw [Int.mem_toNat?.mpr rfl]
  simp

theorem store_append (a b : α) :
    store e before.length b (before ++ a :: behind) = .ok (before ++ b :: behind) := by
  unfold store
  rw [Int.mem_toNat?.mpr rfl]
  simp

theorem store_ok {p : Int} {b : β} (run : store e p b ys = .ok ys') :
    ∃ k : Nat, p = k ∧ k < ys.length ∧ ys' = ys.set k b := by
  unfold store at run
  cases p with
  | ofNat k =>
    simp only [Int.toNat?] at run
    split at run
    · rename_i inside
      cases run
      exact ⟨k, rfl, inside, rfl⟩
    · cases run
  | negSucc k => cases run

theorem Reads.over (law : input.Over pos stride f e)
    (all : ∀ j < as.length, stride (forms (i + j)) = 1) (starts : pos it = before.length)
    (ends : pos last = before.length + as.length) :
    Reads input (before ++ as ++ behind) last forms i it (as.map f) := by
  induction as generalizing i it before with
  | nil =>
    have here : it = last := law.inj (by rw [starts, ends]; simp)
    rw [here]
    exact .done
  | cons a as ih =>
    have more : it ≠ last := by
      rintro rfl
      rw [starts, List.length_cons] at ends
      omega
    obtain ⟨one, later⟩ := strides_succ.mp all
    have next : pos (input.step (forms i) it).1 = (before ++ [a]).length := by
      rw [law.next, starts, one]
      simp
    refine .round more ?_ ?_
    · rw [law.deref, starts, List.append_assoc, List.cons_append, load_append]
      rfl
    · rw [List.append_cons before a as]
      refine ih later next ?_
      rw [ends]
      simp
      omega

theorem Reads.travels (law : input.Over pos stride f e)
    (reads : Reads input xs last forms i it ys) :
    pos it + travel stride forms i ys.length = pos last := by
  induction reads with
  | done => simp [travel]
  | round more read rest ih =>
    rw [law.next] at ih
    rw [List.length_cons, travel, ← ih]
    push_cast
    omega

theorem Reads.strides (law : input.Over pos stride f e) (slow : ∀ form, stride form ≤ 1)
    (ends : pos last = pos it + n) (few : ys.length ≤ n)
    (reads : Reads input xs last forms i it ys) :
    ys.length = n ∧ ∀ j < n, stride (forms (i + j)) = 1 := by
  have travels := reads.travels law
  have most := travel_le slow forms i ys.length
  obtain rfl : ys.length = n := by omega
  exact ⟨rfl, travel_all slow (by omega)⟩

theorem writeAll_over (law : output.Over pos' stride f e) (length : old.length = as.length)
    (all : ∀ j, j + 1 < as.length → stride (forms (i + j)) = 1) (starts : pos' result = front.length) :
    output.writeAll forms i result as (front ++ old ++ rear) = .ok (front ++ as.map f ++ rear) := by
  induction as generalizing i result front old with
  | nil =>
    rw [List.length_eq_zero_iff.mp length]
    rfl
  | cons a as ih =>
    cases old with
    | nil => cases length
    | cons b old =>
      refine writeAll_cons.mpr ⟨front ++ f a :: (old ++ rear), ?_, ?_⟩
      · rw [law.assign, starts, List.append_assoc, List.cons_append, store_append]
      · cases as with
        | nil =>
          rw [List.length_eq_zero_iff.mp (Nat.succ.inj length)]
          simp [Output.writeAll]
        | cons a' as =>
          obtain ⟨one, later⟩ := strides_succ.mp (fun j low => all j (Nat.succ_lt_succ low))
          have next : pos' (output.step (forms i) result).1 = (front ++ [f a]).length := by
            rw [law.next, starts, one]
            simp
          have rest := ih (Nat.succ.inj length)
            (fun j low => later j (Nat.lt_of_succ_lt_succ low)) next
          simpa using rest

theorem writeAll_length (law : output.Over pos' stride f e)
    (run : output.writeAll forms i result as ys = .ok ys') : ys'.length = ys.length := by
  induction as generalizing i result ys with
  | nil =>
    cases run
    rfl
  | cons a as ih =>
    obtain ⟨middle, first, rest⟩ := writeAll_cons.mp run
    rw [law.assign] at first
    obtain ⟨k, _, _, rfl⟩ := store_ok first
    rw [ih rest, List.length_set]

theorem writeAll_frame (law : output.Over pos' stride f e) {a : α}
    (run : output.writeAll forms i result (as ++ [a]) ys = .ok ys')
    (far : pos' result + travel stride forms i as.length < k) : ys'[k]? = ys[k]? := by
  induction as generalizing i result ys with
  | nil =>
    obtain ⟨middle, first, rest⟩ := writeAll_cons.mp run
    cases rest
    rw [law.assign] at first
    obtain ⟨j, place, _, rfl⟩ := store_ok first
    rw [place] at far
    exact List.getElem?_set_ne (by simp [travel] at far; omega)
  | cons b as ih =>
    obtain ⟨middle, first, rest⟩ := writeAll_cons.mp run
    rw [law.assign] at first
    obtain ⟨j, place, _, rfl⟩ := store_ok first
    rw [List.length_cons, travel] at far
    push_cast at far
    rw [ih rest (by rw [law.next]; omega)]
    exact List.getElem?_set_ne (by omega)

theorem writeAll_room (law : output.Over pos' stride f e) (all : ∀ form, stride form = 1)
    (run : output.writeAll forms i result as ys = .ok ys') (nonempty : as ≠ []) :
    pos' result + as.length ≤ ys.length := by
  induction as generalizing i result ys with
  | nil => exact absurd rfl nonempty
  | cons a as ih =>
    obtain ⟨middle, first, rest⟩ := writeAll_cons.mp run
    rw [law.assign] at first
    obtain ⟨k, place, inside, rfl⟩ := store_ok first
    cases as with
    | nil =>
      rw [place]
      simp
      omega
    | cons b as =>
      have room := ih rest (by simp)
      rw [law.next, all, List.length_set] at room
      rw [List.length_cons]
      push_cast at room ⊢
      omega

theorem strides_of_writeAll (law : output.Over pos' stride f e) (slow : ∀ form, stride form ≤ 1)
    (starts : pos' result = 0) (run : output.writeAll forms i result as ys = .ok ys')
    (changed : ys'[as.length - 1]? ≠ ys[as.length - 1]?) :
    ∀ j, j + 1 < as.length → stride (forms (i + j)) = 1 := by
  rcases List.eq_nil_or_concat as with rfl | ⟨as, a, rfl⟩
  · exact fun j low => absurd low (Nat.not_lt_zero _)
  · rw [List.concat_eq_append] at run changed ⊢
    rw [List.length_append, List.length_singleton, Nat.add_sub_cancel] at changed
    rw [List.length_append, List.length_singleton]
    have far : as.length ≤ travel stride forms i as.length := by
      by_contra short
      exact changed (writeAll_frame law run (by rw [starts]; omega))
    exact fun j low => travel_all slow far j (Nat.lt_of_succ_lt_succ low)

end Vectors

end Iterators
