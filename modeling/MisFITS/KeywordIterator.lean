import MisFITS.Hdu
import MisFITS.Reference

/-! Iterators over the keywords of a header, after `keyword.hpp` and `keyword.cc`,
and the listing of a header. -/
namespace MisFITS
open Program HDU

structure KeynRead extends KeyRead String where
  keyname : String

/-- `fits_read_keyn`, and the cards of a header with the text of their value
fields, in order and without END. -/
structure HeaderCards where
  readKeyn : Int → HduData → KeynRead
  cards : HduData → List Card

/-- The documented behaviour of the calls that go through a header. The card after
the last one is END, and can be read too. -/
structure HeaderCards.Documented (calls : HeaderCards) (api : Cfitsio) : Prop where
  hdrpos : ∀ h, ∃ keynum, api.getHdrpos h = .ok ((calls.cards h).length, keynum)
  card : ∀ {h} {k : Nat} {c}, (calls.cards h)[k]? = some c →
    calls.readKeyn (k + 1) h = ⟨⟨none, c.value, c.comment⟩, c.keyname⟩
  last : ∀ h, (calls.readKeyn ((calls.cards h).length + 1) h).status = none

structure KeywordIterator where
  hdup : Obj
  keynum : Int
  nkeys : Int
  deriving DecidableEq

/-- `++it` and `it++` -/
inductive Increment where
  | pre | post
  deriving DecidableEq

variable (api : Cfitsio) (calls : HeaderCards)

def HDU.readKeyn (this : Obj) (keynum : Int) (defaultValue : String) : M (Keyword String) := do
  let read ← inspectOwn api this (calls.readKeyn keynum)
  ofExcept (returnKeyword read.keyname read.toKeyRead defaultValue)

namespace KeywordIterator

def new (hdup : Obj) (keynum : Int) : M KeywordIterator := do
  let (nkeys, _) ← getHdrpos api hdup
  return { hdup, keynum, nkeys }

def current (it : KeywordIterator) : M (Keyword String) :=
  HDU.readKeyn api calls it.hdup it.keynum ""

def finish (it : KeywordIterator) : M KeywordIterator := new api it.hdup (it.nkeys + 1)

def same (it other : KeywordIterator) : Bool :=
  other.hdup = it.hdup && other.keynum = it.keynum

def preIncrement (it : KeywordIterator) : M (KeywordIterator × Keyword String) := do
  let it := { it with keynum := it.keynum + 1 }
  return (it, ← it.current api calls)

def postIncrement (it : KeywordIterator) (inc : Int) : M (KeywordIterator × Keyword String) := do
  let it := { it with keynum := it.keynum + inc }
  return (it, ← it.current api calls)

/-- The language calls the post-increment operator with 0. -/
def increment (it : KeywordIterator) : Increment → M (KeywordIterator × Keyword String)
  | .pre => it.preIncrement api calls
  | .post => it.postIncrement api calls 0

def beside {ω α : Type} (m : M α) : EStateM Exception (World × ω) α := fun s =>
  match m s.1 with
  | .ok a w => .ok a (w, s.2)
  | .error e w => .error e (w, s.2)

section Walk

variable {ω : Type} (visit : ω → Keyword String → ω) (forms : Nat → Increment)

def walk (last : KeywordIterator) : Nat → Nat → KeywordIterator →
    EStateM Exception (World × ω) Bool
  | 0, _, _ => return false
  | fuel + 1, i, it =>
    if it.same last then return true
    else do
      let kw ← beside (it.current api calls)
      modify fun s => (s.1, visit s.2 kw)
      let (it, _) ← beside (it.increment api calls (forms i))
      walk last fuel (i + 1) it

def walkFrom (hdup : Obj) (keynum : Int) (fuel : Nat) : EStateM Exception (World × ω) Bool := do
  let start ← beside (new api hdup keynum)
  let last ← beside (start.finish api)
  walk api calls visit forms last fuel 0 start

end Walk

def output (os : String) (kw : Keyword String) : String :=
  os ++ kw.keyname ++ " = " ++ kw.value ++ "\n"

/-- `HDU::dump_keywords`; `for_each` advances with `++it`. -/
def dumpKeywords (hdu : Obj) (keynum : Int) (fuel : Nat) : EStateM Exception (World × String) Bool :=
  walkFrom api calls output (fun _ => .pre) hdu keynum fuel

def keywordOf (card : Card) : Keyword String :=
  { keyname := card.keyname, value := card.value, comment := card.comment, defined := true }

def lineOf (kw : Keyword String) : String := kw.keyname ++ " = " ++ kw.value ++ "\n"

def keywordsFrom (h : HduData) (k : Int) : List (Keyword String) :=
  ((calls.cards h).drop (k - 1).toNat).map keywordOf

def Visits (w : World) (hdu : Obj) (forms : Nat → Increment) (k : Int) : Prop :=
  ∃ fuel w', walkFrom api calls (fun vs kw => vs ++ [kw]) forms hdu k fuel (w, []) =
    .ok true (w', keywordsFrom calls (w.unitOf hdu) k)

def Dumps (w : World) (hdu : Obj) (k : Int) (os : String) : Prop :=
  ∃ fuel w', dumpKeywords api calls hdu k fuel (w, os) =
    .ok true (w', os ++ String.join ((keywordsFrom calls (w.unitOf hdu) k).map lineOf))

def moves (forms : Nat → Increment) (i n : Nat) : Nat :=
  (List.range' i n).countP (fun j => forms j = .pre)

section Rules

variable {api calls} {ω α : Type} {visit : ω → Keyword String → ω} {forms : Nat → Increment}
  {it it' last : KeywordIterator} {w w' : World} {a a' : ω} {i fuel : Nat} {kw : Keyword String}

theorem beside_ok {m : M α} {x : α} {s s' : World × ω} :
    beside m s = .ok x s' ↔ ∃ w, m s.1 = .ok x w ∧ s' = (w, s.2) := by
  unfold beside
  cases m s.1 <;> simp [eq_comm]

theorem beside_of_ok {m : M α} {x : α} (run : m w = .ok x w') :
    beside m (w, a) = .ok x (w', a) := beside_ok.mpr ⟨w', run, rfl⟩

theorem moves_succ {n : Nat} :
    moves forms i (n + 1) = (if forms i = .pre then 1 else 0) + moves forms (i + 1) n := by
  unfold moves
  rw [List.range'_succ, List.countP_cons, Nat.add_comm]
  simp

theorem moves_eq_iff {n : Nat} : moves forms 0 n = n ↔ ∀ i < n, forms i = .pre := by
  have all := List.countP_eq_length (p := fun j => forms j = .pre) (l := List.range' 0 n)
  rw [List.length_range'] at all
  unfold moves
  rw [all]
  simp

theorem increment_ok {form : Increment} (run : it.increment api calls form w = .ok (it', kw) w') :
    it' = { it with keynum := it.keynum + if form = .pre then 1 else 0 } := by
  cases form <;> obtain ⟨_, _, _, run⟩ := bind_ok.mp run <;> cases pure_ok.mp run <;> simp_all

theorem current_of_status (doc : Documented api) (own : w.Attached it.hdup)
    (stored : (calls.readKeyn it.keynum (w.unitOf it.hdup)).status = none) :
    ∃ kw, it.current api calls w = .ok kw (w.onto it.hdup) := by
  unfold current HDU.readKeyn
  rw [bind_of_ok (inspectOwn_of_attached doc own _)]
  unfold returnKeyword
  rw [stored]
  exact ⟨_, rfl⟩

theorem current_card (doc : Documented api) (keyn : calls.Documented api)
    (own : w.Attached it.hdup) {card : Card} {k : Nat} (place : it.keynum = k + 1)
    (found : (calls.cards (w.unitOf it.hdup))[k]? = some card) :
    it.current api calls w = .ok (keywordOf card) (w.onto it.hdup) := by
  unfold current HDU.readKeyn
  rw [bind_of_ok (inspectOwn_of_attached doc own _), place, keyn.card found]
  rfl

theorem increment_pre (doc : Documented api) (keyn : calls.Documented api)
    (own : w.Attached it.hdup) {k : Nat} (place : it.keynum = k)
    (inside : k ≤ (calls.cards (w.unitOf it.hdup)).length) :
    ∃ kw, it.increment api calls .pre w =
      .ok ({ it with keynum := it.keynum + 1 }, kw) (w.onto it.hdup) := by
  have reads : ∃ kw, current api calls { it with keynum := it.keynum + 1 } w =
      .ok kw (w.onto it.hdup) := by
    refine current_of_status doc own ?_
    rw [place]
    rcases Nat.lt_or_eq_of_le inside with more | rfl
    · exact congrArg (fun read : KeynRead => read.status)
        (keyn.card (List.getElem?_eq_getElem more))
    · exact keyn.last _
  obtain ⟨kw, reads⟩ := reads
  exact ⟨kw, bind_ok.mpr ⟨kw, _, reads, rfl⟩⟩

/-- A walk that has ended has moved on from its start to the end. -/
theorem walk_stops (run : walk api calls visit forms last fuel i it (w, a) = .ok true (w', a')) :
    ∃ vs : List (Keyword String), a' = vs.foldl visit a ∧ it.keynum + moves forms i vs.length = last.keynum := by
  induction fuel generalizing i it w a with
  | zero => cases run
  | succ fuel ih =>
    unfold walk at run
    split at run
    · rename_i same
      obtain ⟨_, rfl⟩ := Prod.mk.inj (pure_ok.mp run).2
      simp only [KeywordIterator.same, Bool.and_eq_true, decide_eq_true_eq] at same
      exact ⟨[], rfl, by simp [moves, same.2]⟩
    · obtain ⟨kw, s, reads, run⟩ := bind_ok.mp run
      obtain ⟨w₁, _, rfl⟩ := beside_ok.mp reads
      obtain ⟨_, s, visits, run⟩ := bind_ok.mp run
      cases modify_ok.mp visits
      obtain ⟨⟨it', kw'⟩, s, advances, run⟩ := bind_ok.mp run
      obtain ⟨w₂, step, rfl⟩ := beside_ok.mp advances
      obtain ⟨vs, all, ends⟩ := ih run
      refine ⟨kw :: vs, all, ?_⟩
      rw [increment_ok step] at ends
      rw [List.length_cons, moves_succ, ← ends]
      push_cast
      omega

/-- A walk that only moves on visits the cards from its start on. -/
theorem walk_goes (doc : Documented api) (keyn : calls.Documented api) {d k : Nat}
    (own : w.Attached it.hdup) (place : it.keynum = k + 1)
    (total : k + d = (calls.cards (w.unitOf it.hdup)).length)
    (ends : last.hdup = it.hdup ∧ last.keynum = it.keynum + d) (pre : ∀ j < d, forms (i + j) = .pre) :
    ∃ w', walk api calls visit forms last (d + 1) i it (w, a) =
      .ok true (w', (((calls.cards (w.unitOf it.hdup)).drop k).map keywordOf).foldl visit a) := by
  induction d generalizing k i it w a with
  | zero =>
    have same : it.same last = true := by
      simp [KeywordIterator.same, ends.1, ends.2]
    refine ⟨w, ?_⟩
    unfold walk
    rw [if_pos same, List.drop_of_length_le (by omega)]
    rfl
  | succ d ih =>
    have more : k < (calls.cards (w.unitOf it.hdup)).length := by omega
    have other : ¬it.same last = true := by
      simp only [KeywordIterator.same, Bool.and_eq_true, decide_eq_true_eq, not_and]
      omega
    have reads := current_card doc keyn own place (List.getElem?_eq_getElem more)
    have still : (w.onto it.hdup).Attached it.hdup := World.attached_onto.mpr own
    obtain ⟨kw, advances⟩ := increment_pre (k := k + 1) doc keyn still (by rw [place]; simp)
      (by rw [World.unitOf_onto]; omega)
    obtain ⟨w', rest⟩ := @ih { it with keynum := it.keynum + 1 }
      ((w.onto it.hdup).onto it.hdup) (visit a (keywordOf (calls.cards (w.unitOf it.hdup))[k])) (i + 1)
      (k + 1)
      (World.attached_onto.mpr still) (by rw [place]; simp)
      (by simp only [World.unitOf_onto]; omega)
      ⟨ends.1, by rw [ends.2]; push_cast; omega⟩
      (fun j low => by rw [Nat.add_assoc, Nat.add_comm 1]; exact pre (j + 1) (by omega))
    refine ⟨w', ?_⟩
    unfold walk
    rw [if_neg other, bind_of_ok (beside_of_ok reads)]
    have first := pre 0 (Nat.succ_pos d)
    rw [Nat.add_zero] at first
    refine bind_ok.mpr ⟨(), _, rfl, ?_⟩
    rw [first, bind_of_ok (beside_of_ok advances), List.drop_eq_getElem_cons more, List.map_cons,
      List.foldl_cons]
    simp only [World.unitOf_onto] at rest
    exact rest

theorem foldl_collect (vs all : List (Keyword String)) :
    vs.foldl (fun vs kw => vs ++ [kw]) all = all ++ vs := by
  induction vs generalizing all with
  | nil => exact (List.append_nil all).symm
  | cons kw vs ih => rw [List.foldl_cons, ih, List.append_assoc, List.singleton_append]

theorem foldl_output (vs : List (Keyword String)) (os : String) :
    vs.foldl output os = os ++ String.join (vs.map lineOf) := by
  induction vs generalizing os with
  | nil => simp
  | cons kw vs ih =>
    rw [List.foldl_cons, ih, List.map_cons, String.join_cons]
    simp only [output, lineOf, String.append_assoc]

section From

variable {hdu : Obj} {k : Int}

theorem new_of_attached (doc : Documented api) (keyn : calls.Documented api)
    (own : w.Attached hdu) :
    new api hdu k w = .ok ⟨hdu, k, (calls.cards (w.unitOf hdu)).length⟩ (w.onto hdu) := by
  obtain ⟨keynum, position⟩ := keyn.hdrpos (w.unitOf hdu)
  exact bind_of_ok (readOwn_of_attached doc own position) _

theorem walkFrom_eq (doc : Documented api) (keyn : calls.Documented api) (own : w.Attached hdu) :
    walkFrom api calls visit forms hdu k fuel (w, a) =
      walk api calls visit forms
        ⟨hdu, (calls.cards (w.unitOf hdu)).length + 1, (calls.cards (w.unitOf hdu)).length⟩ fuel 0
        ⟨hdu, k, (calls.cards (w.unitOf hdu)).length⟩ (w.onto hdu, a) := by
  unfold walkFrom
  rw [bind_of_ok (beside_of_ok (new_of_attached doc keyn own))]
  have last := new_of_attached (w := w.onto hdu) (k := (calls.cards (w.unitOf hdu)).length + 1)
    doc keyn (World.attached_onto.mpr own)
  rw [World.unitOf_onto, World.onto_onto] at last
  exact bind_of_ok (beside_of_ok last) _

theorem walkFrom_stops (doc : Documented api) (keyn : calls.Documented api)
    (own : w.Attached hdu)
    (run : walkFrom api calls visit forms hdu k fuel (w, a) = .ok true (w', a')) :
    ∃ vs : List (Keyword String), a' = vs.foldl visit a ∧
      k + moves forms 0 vs.length = (calls.cards (w.unitOf hdu)).length + 1 := by
  rw [walkFrom_eq doc keyn own] at run
  exact walk_stops run

theorem walkFrom_goes (doc : Documented api) (keyn : calls.Documented api)
    (own : w.Attached hdu) (low : 1 ≤ k) (inside : k ≤ (calls.cards (w.unitOf hdu)).length + 1)
    (pre : ∀ i : Nat, k + i ≤ (calls.cards (w.unitOf hdu)).length → forms i = .pre) :
    ∃ fuel w', walkFrom api calls visit forms hdu k fuel (w, a) =
      .ok true (w', (keywordsFrom calls (w.unitOf hdu) k).foldl visit a) := by
  have goes : ∃ w', walk api calls visit forms
      ⟨hdu, (calls.cards (w.unitOf hdu)).length + 1, (calls.cards (w.unitOf hdu)).length⟩
      ((calls.cards (w.unitOf hdu)).length - (k - 1).toNat + 1) 0
      ⟨hdu, k, (calls.cards (w.unitOf hdu)).length⟩ (w.onto hdu, a) = .ok true
        (w', (((calls.cards ((w.onto hdu).unitOf hdu)).drop (k - 1).toNat).map keywordOf).foldl visit a) :=
    walk_goes doc keyn (World.attached_onto.mpr own) (by dsimp only; omega)
    (by rw [World.unitOf_onto]; dsimp only; omega)
    ⟨rfl, by dsimp only; omega⟩
    (fun j low => by rw [Nat.zero_add]; exact pre j (by omega))
  obtain ⟨w', goes⟩ := goes
  rw [World.unitOf_onto] at goes
  exact ⟨_, w', (walkFrom_eq doc keyn own).trans goes⟩

/-- The keywords from the start on are visited exactly when the start is not behind END
and every step to it is an `++it`; they are listed whenever the start is not behind END. -/
theorem walked_iff (doc : Documented api) (keyn : calls.Documented api) (own : w.Attached hdu)
    (low : 1 ≤ k) :
    (∀ forms, Visits api calls w hdu forms k ↔
      k ≤ (calls.cards (w.unitOf hdu)).length + 1 ∧
        ∀ i : Nat, k + i ≤ (calls.cards (w.unitOf hdu)).length → forms i = .pre) ∧
    (∀ os, Dumps api calls w hdu k os ↔ k ≤ (calls.cards (w.unitOf hdu)).length + 1) := by
  refine ⟨fun forms => ⟨fun visits => ?_, fun moves => ?_⟩,
    fun os => ⟨fun dumps => ?_, fun inside => ?_⟩⟩
  · obtain ⟨fuel, w', run⟩ := visits
    obtain ⟨vs, all, ends⟩ := walkFrom_stops doc keyn own run
    rw [foldl_collect, List.nil_append] at all
    have length : vs.length = (calls.cards (w.unitOf hdu)).length - (k - 1).toNat := by
      rw [← all, keywordsFrom, List.length_map, List.length_drop]
    have pre : ∀ i < vs.length, forms i = .pre := moves_eq_iff.mp (by omega)
    exact ⟨by omega, fun i before => pre i (by omega)⟩
  · obtain ⟨fuel, w', run⟩ : ∃ fuel w', walkFrom api calls (fun vs kw => vs ++ [kw]) forms hdu k fuel
        (w, []) = .ok true (w', (keywordsFrom calls (w.unitOf hdu) k).foldl (fun vs kw => vs ++ [kw]) []) :=
      walkFrom_goes doc keyn own low moves.1 moves.2
    rw [foldl_collect, List.nil_append] at run
    exact ⟨fuel, w', run⟩
  · obtain ⟨fuel, w', run⟩ := dumps
    obtain ⟨vs, _, ends⟩ := walkFrom_stops doc keyn own run
    omega
  · obtain ⟨fuel, w', run⟩ : ∃ fuel w', walkFrom api calls output (fun _ => .pre) hdu k fuel (w, os) =
        .ok true (w', (keywordsFrom calls (w.unitOf hdu) k).foldl output os) :=
      walkFrom_goes doc keyn own low inside (fun _ _ => rfl)
    rw [foldl_output] at run
    exact ⟨fuel, w', run⟩

def listed : HeaderCards where
  cards h := h.keys
  readKeyn k h :=
    if k ≤ 0 then ⟨⟨none, "", ""⟩, ""⟩
    else match h.keys[(k - 1).toNat]? with
      | some card => ⟨⟨none, card.value, card.comment⟩, card.keyname⟩
      | none =>
        if k = h.keys.length + 1 then ⟨⟨none, "", ""⟩, "END"⟩
        else ⟨⟨some (.other 203), "", ""⟩, ""⟩

theorem listed_documented : listed.Documented Reference.api where
  hdrpos h := ⟨1, rfl⟩
  card {h k c} found := by
    have high : ¬(k : Int) + 1 ≤ 0 := by omega
    have found : h.keys[k]? = some c := found
    simp [listed, high, found]
  last h := by
    have high : ¬(h.keys.length : Int) + 1 ≤ 0 := by omega
    simp [listed, high]

def twoKeys : World :=
  Reference.world { Reference.table [] 0 with keys := [⟨"A", "1", ""⟩, ⟨"B", "'b'", ""⟩] }
    Reference.primary Reference.primary

theorem walked_iff_two :
    (∀ forms, Visits Reference.api listed twoKeys (.table 0) forms 1 ↔
      (1 : Int) ≤ 2 + 1 ∧ ∀ i : Nat, (1 : Int) + i ≤ 2 → forms i = .pre) ∧
    (∀ os, Dumps Reference.api listed twoKeys (.table 0) 1 os ↔ (1 : Int) ≤ 2 + 1) := by
  have own : twoKeys.Attached (.table 0) := ⟨by decide, by decide⟩
  exact walked_iff Reference.documented listed_documented own (by decide)

/-- The `it++` never ends, and a start behind END throws what the header says. -/
theorem not_visited :
    (∀ fuel w' vs, walkFrom Reference.api listed (fun vs kw => vs ++ [kw]) (fun _ => .post)
      (.table 0) 1 fuel (twoKeys, []) ≠ .ok true (w', vs)) ∧
    (∃ w', walkFrom Reference.api listed (fun vs kw => vs ++ [kw]) (fun _ => .post)
      (.table 0) 1 2 (twoKeys, []) =
        .ok false (w', [keywordOf ⟨"A", "1", ""⟩, keywordOf ⟨"A", "1", ""⟩])) ∧
    (∀ fuel, ∃ s, dumpKeywords Reference.api listed (.table 0) 4 (fuel + 1) (twoKeys, "") =
      .error (.cfitsio (.other 203)) s) := by
  refine ⟨fun fuel w' vs run => ?_, ⟨_, rfl⟩, fun fuel => ⟨_, rfl⟩⟩
  have own : twoKeys.Attached (.table 0) := ⟨by decide, by decide⟩
  obtain ⟨seen, _, ends⟩ := walkFrom_stops Reference.documented listed_documented own run
  have still : moves (fun _ => .post) 0 seen.length = 0 := by
    unfold moves
    rw [List.countP_eq_zero]
    simp
  rw [still] at ends
  exact absurd ends (by decide)

end From

end Rules

end KeywordIterator
end MisFITS
