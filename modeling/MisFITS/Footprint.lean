import MisFITS.Program

/-! Programs confined to one region of a shared state. A region says which
states it exists in, when two states look the same from inside it, and when two
states look the same from outside. A confined program leaves the outside alone
and cannot tell two states apart that agree inside. -/
namespace Footprint
open Program

structure Region (σ : Type) where
  /-- The region exists in the state. -/
  inv : σ → Prop
  /-- The two states look the same from inside. -/
  agree : σ → σ → Prop
  /-- The two states look the same from outside. -/
  outside : σ → σ → Prop
  agree_equiv : Equivalence agree
  outside_refl : ∀ s, outside s s
  outside_trans : ∀ s t u, outside s t → outside t u → outside s u

variable {ε σ α β E : Type} {R : Region σ}

def SameOutcome (R : Region σ) : EStateM.Result ε σ α → EStateM.Result ε σ α → Prop
  | .ok a s, .ok b t => a = b ∧ R.agree s t
  | .error e s, .error e' t => e = e' ∧ R.agree s t
  | _, _ => False

/-- The program is confined to the region when started where `pre` holds, and
when it returns `post` holds. -/
structure Local (R : Region σ) (pre post : σ → Prop) (m : EStateM ε σ α) : Prop where
  inside : ∀ s, R.inv s → pre s → R.inv (after (m s))
  frame : ∀ s, R.inv s → pre s → R.outside s (after (m s))
  lands : ∀ s a t, R.inv s → pre s → m s = .ok a t → post t
  agrees : ∀ s t, R.inv s → pre s → R.inv t → pre t → R.agree s t → SameOutcome R (m s) (m t)

variable {pre mid post pre' : σ → Prop}

theorem Local.pure (a : α) : Local R pre pre (pure a : EStateM ε σ α) where
  inside _ hs _ := hs
  frame s _ _ := R.outside_refl s
  lands _ _ _ _ hp run := (pure_ok.mp run).2 ▸ hp
  agrees _ _ _ _ _ _ h := ⟨rfl, h⟩

theorem Local.throw (e : ε) : Local R pre post (throw e : EStateM ε σ α) where
  inside _ hs _ := hs
  frame s _ _ := R.outside_refl s
  lands _ _ _ _ _ run := (throw_ok.mp run).elim
  agrees _ _ _ _ _ _ h := ⟨rfl, h⟩

theorem Local.congr {m m' : EStateM ε σ α} (same : ∀ s, R.inv s → pre s → m s = m' s)
    (h : Local R pre post m') : Local R pre post m where
  inside s hs hp := same s hs hp ▸ h.inside s hs hp
  frame s hs hp := same s hs hp ▸ h.frame s hs hp
  lands s a t hs hp run := h.lands s a t hs hp (same s hs hp ▸ run)
  agrees s t hs hp ht hq inner := by
    rw [same s hs hp, same t ht hq]
    exact h.agrees s t hs hp ht hq inner

theorem Local.reads {m : EStateM ε σ α} {r : σ → Except ε α}
    (run : ∀ s, R.inv s → pre s →
      m s = match r s with | .ok a => .ok a s | .error e => .error e s)
    (same : ∀ s t, R.inv s → pre s → R.inv t → pre t → R.agree s t → r s = r t) :
    Local R pre pre m := by
  have stays : ∀ s, R.inv s → pre s → after (m s) = s := by
    intro s hs hp
    rw [run s hs hp]
    cases r s <;> rfl
  constructor
  · intro s hs hp
    rwa [stays s hs hp]
  · intro s hs hp
    rw [stays s hs hp]
    exact R.outside_refl s
  · intro s a t hs hp out
    have still := stays s hs hp
    rw [out] at still
    exact (show t = s from still) ▸ hp
  · intro s t hs hp ht hq inner
    rw [run s hs hp, run t ht hq, same s t hs hp ht hq inner]
    cases r t with
    | ok a => exact ⟨rfl, inner⟩
    | error e => exact ⟨rfl, inner⟩

theorem Local.ite {p : Prop} [Decidable p] {x y : EStateM ε σ α}
    (hx : Local R pre post x) (hy : Local R pre post y) :
    Local R pre post (if p then x else y) := by
  split
  · exact hx
  · exact hy

theorem Local.mono {m : EStateM ε σ α} (h : Local R pre post m)
    (weaker : ∀ s, R.inv s → pre' s → pre s) : Local R pre' post m where
  inside s hs hp := h.inside s hs (weaker s hs hp)
  frame s hs hp := h.frame s hs (weaker s hs hp)
  lands s a t hs hp := h.lands s a t hs (weaker s hs hp)
  agrees s t hs hp ht hq := h.agrees s t hs (weaker s hs hp) ht (weaker t ht hq)

theorem Local.bind {x : EStateM ε σ α} {g : α → EStateM ε σ β}
    (hx : Local R pre mid x) (hg : ∀ a, Local R mid post (g a)) :
    Local R pre post (x >>= g) where
  inside s hs hp := by
    have first := hx.inside s hs hp
    cases run : x s with
    | ok a u =>
      rw [run] at first
      rw [bind_of_ok run]
      exact (hg a).inside u first (hx.lands s a u hs hp run)
    | error e u =>
      rw [run] at first
      rw [bind_of_error run]
      exact first
  frame s hs hp := by
    have first := hx.inside s hs hp
    have left := hx.frame s hs hp
    cases run : x s with
    | ok a u =>
      rw [run] at first left
      rw [bind_of_ok run]
      exact R.outside_trans s u _ left ((hg a).frame u first (hx.lands s a u hs hp run))
    | error e u =>
      rw [run] at left
      rw [bind_of_error run]
      exact left
  lands s b t hs hp run := by
    obtain ⟨a, u, hrun, hrest⟩ := bind_ok.mp run
    have first := hx.inside s hs hp
    rw [hrun] at first
    exact (hg a).lands u b t first (hx.lands s a u hs hp hrun) hrest
  agrees s t hs hp ht hq h := by
    have first := hx.agrees s t hs hp ht hq h
    have hu := hx.inside s hs hp
    have hv := hx.inside t ht hq
    cases runs : x s with
    | ok a u =>
      cases runt : x t with
      | ok b v =>
        rw [runs, runt] at first
        rw [runs] at hu
        rw [runt] at hv
        obtain ⟨same, inner⟩ := first
        subst same
        rw [bind_of_ok runs, bind_of_ok runt]
        exact (hg a).agrees u v hu (hx.lands s a u hs hp runs) hv
          (hx.lands t a v ht hq runt) inner
      | error e v => rw [runs, runt] at first; exact first.elim
    | error e u =>
      cases runt : x t with
      | ok b v => rw [runs, runt] at first; exact first.elim
      | error e' v =>
        rw [runs, runt] at first
        rw [bind_of_error runs, bind_of_error runt]
        exact first

theorem Local.weaken {m : EStateM ε σ α} {post' : σ → Prop} (h : Local R pre post m)
    (weaker : ∀ s, post s → post' s) : Local R pre post' m where
  inside := h.inside
  frame := h.frame
  lands s a t hs hp run := weaker t (h.lands s a t hs hp run)
  agrees := h.agrees

theorem Local.map {m : EStateM ε σ α} (g : α → β) (h : Local R pre post m) :
    Local R pre post (do return g (← m)) := h.bind (fun a => Local.pure (g a))

theorem Local.check {p : Prop} [Decidable p] {e : ε} {g : α → EStateM ε σ β}
    {m : EStateM ε σ β} (h : Local R pre post m) :
    Local R pre post (if p then MonadExcept.throw e >>= g else m) := by
  refine Local.ite (Local.congr (fun s _ _ => ?_) (Local.throw e)) h
  exact bind_of_error (throw_error.mpr ⟨rfl, rfl⟩) g

/-! ## Schedules

Programs of many regions take turns. Those of one region cannot tell from their
replies what the others did in between. -/

def reply : EStateM.Result ε σ α → Except ε α
  | .ok a _ => .ok a
  | .error e _ => .error e

theorem SameOutcome.reply {x y : EStateM.Result ε σ α} (same : SameOutcome R x y) :
    reply x = reply y ∧ R.agree (after x) (after y) := by
  cases x with
  | ok a s =>
    cases y with
    | ok b t => exact ⟨by rw [same.1]; rfl, same.2⟩
    | error e t => exact same.elim
  | error e s =>
    cases y with
    | ok b t => exact same.elim
    | error e' t => exact ⟨by rw [same.1]; rfl, same.2⟩

def play (prog : E → EStateM ε σ α) : List E → σ → List (E × Except ε α)
  | [], _ => []
  | e :: rest, s => (e, reply (prog e s)) :: play prog rest (after (prog e s))

def settle (prog : E → EStateM ε σ α) : List E → σ → σ
  | [], s => s
  | e :: rest, s => settle prog rest (after (prog e s))

def Admissible (prog : E → EStateM ε σ α) (right : E → σ → Prop) : List E → σ → Prop
  | [], _ => True
  | e :: rest, s => right e s ∧ Admissible prog right rest (after (prog e s))

/-- The events of a region are confined to it, and the others leave it as it is,
whenever they are met in a state that is right for them. -/
structure Confined (R : Region σ) (prog : E → EStateM ε σ α) (right : E → σ → Prop)
    (mine : E → Bool) : Prop where
  own : ∀ e, mine e = true → Local R (right e) (fun _ => True) (prog e)
  others : ∀ e s, mine e = false → R.inv s → right e s →
    R.inv (after (prog e s)) ∧ R.agree s (after (prog e s))

section Schedule

variable {prog : E → EStateM ε σ α} {right : E → σ → Prop} {mine : E → Bool}

theorem Confined.skip (h : Confined R prog right mine) {before rest : List E} {s : σ}
    (others : ∀ e ∈ before, ¬mine e = true) (inv : R.inv s)
    (admissible : Admissible prog right (before ++ rest) s) :
    ∃ u, R.inv u ∧ R.agree s u ∧ Admissible prog right rest u ∧
      settle prog (before ++ rest) s = settle prog rest u ∧
      (play prog (before ++ rest) s).filter (fun p => mine p.1) =
        (play prog rest u).filter (fun p => mine p.1) := by
  induction before generalizing s with
  | nil => exact ⟨s, inv, R.agree_equiv.refl s, admissible, rfl, rfl⟩
  | cons e before ih =>
    obtain ⟨met, later⟩ := admissible
    have other : mine e = false := Bool.eq_false_iff.mpr (others e List.mem_cons_self)
    obtain ⟨inv', agree⟩ := h.others e s other inv met
    obtain ⟨u, invU, agreeU, goes, ends, replies⟩ :=
      ih (fun d member => others d (List.mem_cons_of_mem e member)) inv' later
    refine ⟨u, invU, R.agree_equiv.trans agree agreeU, goes, ends, ?_⟩
    rw [List.cons_append, play, List.filter_cons_of_neg (by simp [other])]
    exact replies

/-- Two schedules with the same events of a region, begun in states that look
the same from inside it, bring these events the same replies and end in states
that look the same from inside. -/
theorem Confined.play_agree (h : Confined R prog right mine) {xs ys : List E} {s t : σ}
    (same : xs.filter mine = ys.filter mine) (invS : R.inv s) (invT : R.inv t)
    (agree : R.agree s t) (goesS : Admissible prog right xs s)
    (goesT : Admissible prog right ys t) :
    (play prog xs s).filter (fun p => mine p.1) = (play prog ys t).filter (fun p => mine p.1) ∧
      R.agree (settle prog xs s) (settle prog ys t) := by
  induction hs : xs.filter mine generalizing xs ys s t with
  | nil =>
    have noneX := List.filter_eq_nil_iff.mp hs
    have noneY := List.filter_eq_nil_iff.mp (same ▸ hs)
    rw [← List.append_nil xs] at goesS
    rw [← List.append_nil ys] at goesT
    obtain ⟨u, _, agreeU, _, endS, replyS⟩ := h.skip noneX invS goesS
    obtain ⟨v, _, agreeV, _, endT, replyT⟩ := h.skip noneY invT goesT
    rw [List.append_nil] at endS replyS endT replyT
    refine ⟨replyS.trans replyT.symm, ?_⟩
    rw [endS, endT]
    exact R.agree_equiv.trans (R.agree_equiv.trans (R.agree_equiv.symm agreeU) agree) agreeV
  | cons e rest ih =>
    obtain ⟨before, xs', rfl, others, own, filtered⟩ := List.filter_eq_cons_iff.mp hs
    obtain ⟨before', ys', rfl, others', _, filtered'⟩ := List.filter_eq_cons_iff.mp (same ▸ hs)
    obtain ⟨u, invU, agreeU, goesU, endS, replyS⟩ := h.skip others invS goesS
    obtain ⟨v, invV, agreeV, goesV, endT, replyT⟩ := h.skip others' invT goesT
    have inner : R.agree u v :=
      R.agree_equiv.trans (R.agree_equiv.trans (R.agree_equiv.symm agreeU) agree) agreeV
    have confined := h.own e own
    obtain ⟨replies, inner'⟩ := (confined.agrees u v invU goesU.1 invV goesV.1 inner).reply
    obtain ⟨later, ends⟩ := ih (filtered.trans filtered'.symm) (confined.inside u invU goesU.1)
      (confined.inside v invV goesV.1) inner' goesU.2 goesV.2 filtered
    refine ⟨?_, by rw [endS, endT]; exact ends⟩
    rw [replyS, replyT]
    simp only [play, List.filter_cons, own, if_true, replies, later]

end Schedule

end Footprint
