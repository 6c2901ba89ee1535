import MisFITS.Containers

/-! Buffers of bound columns. A call fills the buffer before it uses it, so that
nothing comes of what an earlier one, which may have failed, has left there. -/
namespace MisFITS
open Program HDU RowEntry

namespace DynamicBitset

/-- What Boost documents of `operator[]` on the left of an assignment. -/
def Assigns (S : DynamicBitset) : Prop :=
  ∀ b i v j, i < S.size b → S.test (S.set b i v) j = if j = i then v else S.test b j

theorem listBitset_assigns : listBitset.Assigns := by
  intro (b : List Bool) i v j (inside : i < b.length)
  change (List.set b i v).getD j false = if j = i then v else List.getD b j false
  rw [List.getD_eq_getElem?_getD, List.getElem?_set, List.getD_eq_getElem?_getD]
  by_cases same : i = j
  · subst same
    simp [inside]
  · simp [same, Ne.symm same]

end DynamicBitset

namespace RowEntry

section Fill

variable {α : Type} {n : Int} {values base filled data : List α}

theorem drain_length (run : drain n base = .ok data) : data.length = n.toNat := by
  obtain ⟨room, rfl⟩ := drain_iff.mp run
  rw [List.length_take]
  omega

theorem drain_fill (fills : fill values base = .ok filled) (count : values.length = n.toNat) :
    drain n filled = .ok values := by
  obtain ⟨room, rfl⟩ := fill_iff.mp fills
  rw [drain_iff, ← count, List.take_left, List.length_append]
  exact ⟨by omega, rfl⟩

theorem fill_whole (fills : fill values base = .ok filled) (whole : values.length = base.length) :
    filled = values := by
  obtain ⟨_, rfl⟩ := fill_iff.mp fills
  rw [whole, List.drop_length, List.append_nil]

theorem fill_behind {j : Nat} (fills : fill values base = .ok filled)
    (behind : values.length ≤ j) : base[j]? = filled[j]? := by
  obtain ⟨_, rfl⟩ := fill_iff.mp fills
  rw [List.getElem?_append_right behind, List.getElem?_drop, Nat.add_sub_cancel' behind]

theorem fill_getElem? {j : Nat} (fills : fill values base = .ok filled)
    (inside : j < values.length) : filled[j]? = values[j]? := by
  obtain ⟨_, rfl⟩ := fill_iff.mp fills
  exact List.getElem?_append_left inside

end Fill

namespace BitSetColumn

variable {S : DynamicBitset} {it it' jt' : BitSetColumn} {a b a' b' : S.Bits} {data buffer : List Byte}

theorem assign_settles (lawful : S.Lawful) (assigns : S.Assigns) {idx : Nat}
    (size : S.size a = idx + buffer.length) (size' : S.size b = idx + buffer.length)
    (before : ∀ i < idx, S.test a i = S.test b i)
    (run : assign S a idx buffer = .ok a') (run' : assign S b idx buffer = .ok b') : a' = b' := by
  induction buffer generalizing a b idx with
  | nil =>
    cases run
    cases run'
    refine lawful.ext _ _ (size.trans size'.symm) (fun i => ?_)
    rcases Nat.lt_or_ge i idx with low | high
    · exact before i low
    · rw [lawful.test_outside _ i (size.trans_le high), lawful.test_outside _ i (size'.trans_le high)]
  | cons flag buffer ih =>
    rw [List.length_cons] at size size'
    have inside : idx < S.size a := by omega
    have inside' : idx < S.size b := by omega
    rw [assign, if_pos inside] at run
    rw [assign, if_pos inside'] at run'
    refine ih ?_ ?_ (fun i low => ?_) run run'
    · rw [lawful.size_set]
      omega
    · rw [lawful.size_set]
      omega
    · rw [assigns a idx _ i inside, assigns b idx _ i inside']
      split
      · rfl
      · exact before i (by omega)

theorem fromBlocks_settles (lawful : S.Lawful) (a b : S.Bits) {blocks : List Byte} {n m : Nat}
    (whole : n = 8 * blocks.length) :
    S.resize (S.fromBlocks blocks (S.resize a n)) m =
      S.resize (S.fromBlocks blocks (S.resize b n)) m := by
  refine lawful.ext _ _ ?_ (fun i => ?_)
  · rw [lawful.size_resize, lawful.size_resize]
  · rw [lawful.test_resize, lawful.test_resize]
    congr 1
    have size : ∀ c, S.size (S.resize c n) = n := fun c => lawful.size_resize c n
    rcases Nat.lt_or_ge i n with low | high
    · rw [test_fromBlocks lawful ((size a).trans whole) ((size a).symm ▸ low),
        test_fromBlocks lawful ((size b).trans whole) ((size b).symm ▸ low)]
    · rw [lawful.test_outside, lawful.test_outside] <;>
        rw [lawful.size_fromBlocks, size] <;> exact high

theorem load_settles (lawful : S.Lawful) (assigns : S.Assigns)
    (length : buffer.length = it.buffer.length)
    (bits : it.id = .bit → it.maxBits = 8 * it.buffer.length)
    (flags : it.id = .logical → it.natomic = S.size a) (size : S.size a = S.size b)
    (whole : data.length = it.buffer.length) (run : load S it a data = .ok (it', a'))
    (run' : load S { it with buffer } b data = .ok (jt', b')) : a' = b' := by
  obtain ⟨filled, fills, run⟩ := except_bind_ok.mp run
  obtain ⟨filled', fills', run'⟩ := except_bind_ok.mp run'
  cases fill_whole fills whole
  cases fill_whole fills' (whole.trans length.symm)
  by_cases bit : it.id = .bit
  · simp only [bit, if_true] at run run'
    cases run
    cases run'
    refine fromBlocks_settles lawful a b ?_
    rw [bits bit, inputBlocks, List.length_map, whole]
  · simp only [bit, if_false] at run run'
    split at run <;> rename_i logical
    · rw [if_pos logical] at run'
      obtain ⟨chars, drains, run⟩ := except_bind_ok.mp run
      obtain ⟨chars', drains', run'⟩ := except_bind_ok.mp run'
      cases drains.symm.trans drains'
      obtain ⟨_, sets, run⟩ := except_bind_ok.mp run
      obtain ⟨_, sets', run'⟩ := except_bind_ok.mp run'
      cases run
      cases run'
      have count := drain_length drains
      have flags := flags logical
      exact assign_settles lawful assigns (by omega) (by omega) (fun i low => absurd low (Nat.not_lt_zero i))
        sets sets'
    · cases run

end BitSetColumn

theorem StringColumnVector.split_append {width n : Nat} {chars rest : List Byte}
    (room : width * n ≤ chars.length) : split width n (chars ++ rest) = split width n chars := by
  induction n generalizing chars with
  | zero => rfl
  | succ n ih =>
    rw [Nat.mul_succ] at room
    rw [split, split, if_neg (by rw [List.length_append]; omega), if_neg (by omega),
      List.drop_append_of_le_length (by omega), List.take_append_of_le_length (by omega),
      ih (by rw [List.length_drop]; omega)]

end RowEntry

namespace Target

def Ready : (τ : Target) → τ.Column → Nat → Prop
  | .bitset, it, n =>
    (it.id = .bit → toSize it.nelem = n ∧ it.buffer.length = (n + 7) / 8 ∧
      it.maxBits = 8 * it.buffer.length) ∧ (it.id = .logical → it.natomic = n)
  | .string, it, _ => it.buffer.length = toSize it.natomic
  | .strings, it, n => it.buffer.length = toSize it.natomic ∧ it.width * n ≤ it.natomic.toNat
  | _, _, _ => True

def span : (τ : Target) → τ.Column → Set Nat
  | .native T v, it => { j | j < Target.count (.native T v) it }
  | .bool v, it => { j | j < Target.count (.bool v) it }
  | .bitset, _ | .string, _ | .strings, _ => Set.univ

def SameAt (S : DynamicBitset) : (τ : Target) → Nat → τ.Value S → τ.Value S → Prop
  | .native _ _, j, a, b => a[j]? = b[j]?
  | .bool _, j, a, b => a[j]? = b[j]?
  | .bitset, _, a, b => a = b
  | .string, _, a, b => a = b
  | .strings, _, a, b => a = b

variable {S : DynamicBitset} {τ : Target} {it it' jt jt' : τ.Column} {base base' : τ.Value S}
  {n : Nat}

theorem Alike.span (alike : τ.Alike it jt) : τ.span jt = τ.span it := by
  obtain ⟨buffer, _, rfl⟩ := alike
  cases τ <;> rfl

theorem Alike.ready (alike : τ.Alike it jt) (ready : τ.Ready it n) : τ.Ready jt n := by
  obtain ⟨buffer, length, rfl⟩ := alike
  cases τ with
  | bitset =>
    refine ⟨fun bit => ?_, ready.2⟩
    obtain ⟨size, bytes, bits⟩ := ready.1 bit
    exact ⟨size, length.trans bytes, bits.trans (congrArg (8 * ·) length.symm)⟩
  | string => exact length.trans ready
  | strings => exact ⟨length.trans ready.1, ready.2⟩
  | native | bool => exact ready

theorem SameAt.ext (room : τ.room S base = τ.room S base')
    (same : ∀ j, SameAt S τ j base base') : base = base' := by
  cases τ with
  | native | bool => exact List.ext_getElem? same
  | bitset | string | strings => exact same 0

theorem alike_store (ready : τ.Ready it n) {data : List τ.storage.Native}
    (run : τ.store S it base = .ok (it', data)) : τ.Alike it it' := by
  cases τ with
  | native T vector =>
    obtain ⟨taken, drains, pair⟩ := except_map_ok.mp run
    cases pair
    exact .refl it
  | bool vector =>
    obtain ⟨bits, drains, run⟩ := except_bind_ok.mp run
    obtain ⟨filled, fills, run⟩ := except_bind_ok.mp run
    obtain ⟨taken, takes, run⟩ := except_bind_ok.mp run
    cases run
    exact ⟨filled, fill_length fills, rfl⟩
  | bitset =>
    obtain ⟨filled, stores, run⟩ := except_bind_ok.mp run
    obtain ⟨taken, takes, run⟩ := except_bind_ok.mp run
    cases run
    refine ⟨filled, ?_, rfl⟩
    unfold BitSetColumn.store at stores
    split at stores
    · exact BitSetColumn.outputBlocks_length stores
    · split at stores
      · obtain ⟨_, _, fills⟩ := except_bind_ok.mp stores
        exact fill_length fills
      · cases stores
  | string =>
    obtain ⟨_, fills, pair⟩ := except_map_ok.mp run
    cases pair
    exact ⟨data, ((fill_length fills).trans List.length_replicate).trans ready.symm, rfl⟩
  | strings =>
    obtain ⟨_, joins, pair⟩ := except_map_ok.mp run
    cases pair
    have kept := (StringColumnVector.join_length joins).trans List.length_replicate
    exact ⟨data, kept.trans ready.1.symm, rfl⟩

theorem drain_bits {k : Int} {buffer bits filled data : List Byte}
    (fills : fill bits buffer = .ok filled) (count : bits.length = k.toNat)
    (takes : drain k filled = .ok data) {other : List Byte} (length : buffer.length = other.length) :
    ∃ filled, fill bits other = .ok filled ∧ drain k filled = .ok data := by
  cases (drain_fill fills count).symm.trans takes
  obtain ⟨filled, refills⟩ := exists_fill ((fill_iff.mp fills).1.trans_eq length)
  exact ⟨filled, refills, drain_fill refills count⟩

/-- What is handed over does not depend on what was in the buffer. -/
theorem store_alike (lawful : S.Lawful) (ready : τ.Ready it (τ.room S base)) (alike : τ.Alike it jt)
    {data : List τ.storage.Native} (run : τ.store S jt base = .ok (jt', data)) :
    ∃ it', τ.store S it base = .ok (it', data) := by
  obtain ⟨buffer, length, rfl⟩ := alike
  cases τ with
  | native | string | strings =>
    obtain ⟨taken, drains, pair⟩ := except_map_ok.mp run
    cases pair
    exact ⟨_, except_map_ok.mpr ⟨_, drains, rfl⟩⟩
  | bool vector =>
    obtain ⟨bits, drains, run⟩ := except_bind_ok.mp run
    obtain ⟨filled, fills, run⟩ := except_bind_ok.mp run
    obtain ⟨taken, takes, run⟩ := except_bind_ok.mp run
    cases run
    have count := (List.length_map (fun v => if v then (1 : Byte) else 0)).trans (drain_length drains)
    obtain ⟨other, refills, retakes⟩ := drain_bits fills count takes length
    exact ⟨_, except_bind_ok.mpr ⟨bits, drains, except_bind_ok.mpr ⟨other, refills,
      except_bind_ok.mpr ⟨data, retakes, rfl⟩⟩⟩⟩
  | bitset =>
    obtain ⟨filled, stores, run⟩ := except_bind_ok.mp run
    obtain ⟨taken, takes, run⟩ := except_bind_ok.mp run
    cases run
    have again : ∃ other, BitSetColumn.store S it base = .ok other ∧
        drain it.natomic other = .ok data := by
      unfold BitSetColumn.store at stores ⊢
      split at stores <;> rename_i bit
      · have bit : it.id = .bit := bit
        have blocks : (S.blocks base).length = it.buffer.length :=
          (lawful.blocks_length base).trans (ready.1 bit).2.1.symm
        cases (outputBlocks_eq (blocks.trans length.symm)).symm.trans stores
        rw [if_pos bit]
        exact ⟨_, outputBlocks_eq blocks, takes⟩
      · have other : it.id ≠ .bit := bit
        split at stores <;> rename_i logical
        · have logical : it.id = .logical := logical
          obtain ⟨bits, drains, fills⟩ := except_bind_ok.mp stores
          have count :=
            (List.length_map (fun v => if v then (1 : Byte) else 0)).trans (drain_length drains)
          obtain ⟨filled, refills, retakes⟩ := drain_bits fills count takes length
          rw [if_neg other, if_pos logical]
          exact ⟨filled, except_bind_ok.mpr ⟨bits, drains, refills⟩, retakes⟩
        · cases stores
    obtain ⟨other, stored, drained⟩ := again
    exact ⟨_, except_bind_ok.mpr ⟨other, stored, except_bind_ok.mpr ⟨data, drained, rfl⟩⟩⟩

theorem load_frame (lawful : S.Lawful) (ready : τ.Ready it (τ.room S base))
    {data : List τ.storage.Native} (whole : data.length = τ.count it)
    (run : τ.load S it base data = .ok (it', base')) :
    τ.room S base' = τ.room S base ∧ ∀ j, j ∉ τ.span it → SameAt S τ j base base' := by
  refine ⟨?_, fun j outside => ?_⟩
  · by_cases set : τ = .bitset
    · subst set
      obtain ⟨_, _, _, bits, flags⟩ := BitSetColumn.load_kept lawful run
      by_cases bit : it.id = .bit
      · exact (bits bit).trans (ready.1 bit).1
      · exact flags bit
    · exact load_room set run
  · cases τ with
    | native T vector =>
      obtain ⟨_, fills, pair⟩ := except_map_ok.mp run
      cases pair
      exact fill_behind fills (whole.trans_le (Nat.le_of_not_lt outside))
    | bool vector =>
      obtain ⟨filled, fills, run⟩ := except_bind_ok.mp run
      obtain ⟨chars, drains, run⟩ := except_bind_ok.mp run
      obtain ⟨flags, takes, run⟩ := except_bind_ok.mp run
      cases run
      cases (drain_fill fills whole).symm.trans drains
      refine fill_behind takes ?_
      rw [List.length_map]
      exact whole.trans_le (Nat.le_of_not_lt outside)
    | bitset | string | strings => exact (outside trivial).elim

/-- What a whole cell makes of the variable does not depend on what was there, nor on
what was in the buffer. -/
theorem load_settles (lawful : S.Lawful) (assigns : S.Assigns) (ready : τ.Ready it n)
    (alike : τ.Alike it jt) {b b' : τ.Value S} (room : τ.room S base = n)
    (room' : τ.room S base' = n) {data : List τ.storage.Native}
    (whole : data.length = τ.count it) (run : τ.load S it base data = .ok (it', b))
    (run' : τ.load S jt base' data = .ok (jt', b')) : ∀ j ∈ τ.span it, SameAt S τ j b b' := by
  obtain ⟨buffer, length, rfl⟩ := alike
  cases τ with
  | native T vector =>
    obtain ⟨_, fills, pair⟩ := except_map_ok.mp run
    obtain ⟨_, fills', pair'⟩ := except_map_ok.mp run'
    cases pair
    cases pair'
    intro j member
    have inside : j < data.length := whole.symm ▸ member
    exact (fill_getElem? fills inside).trans (fill_getElem? fills' inside).symm
  | bool vector =>
    obtain ⟨filled, fills, run⟩ := except_bind_ok.mp run
    obtain ⟨chars, drains, run⟩ := except_bind_ok.mp run
    obtain ⟨_, takes, run⟩ := except_bind_ok.mp run
    obtain ⟨filled', fills', run'⟩ := except_bind_ok.mp run'
    obtain ⟨chars', drains', run'⟩ := except_bind_ok.mp run'
    obtain ⟨_, takes', run'⟩ := except_bind_ok.mp run'
    cases run
    cases run'
    cases (drain_fill fills whole).symm.trans drains
    cases (drain_fill fills' whole).symm.trans drains'
    intro j member
    have inside : j < (data.map (fun b => decide (b ≠ 0))).length := by
      rw [List.length_map]
      exact whole.symm ▸ member
    exact (fill_getElem? takes inside).trans (fill_getElem? takes' inside).symm
  | bitset =>
    have same : b = b' := BitSetColumn.load_settles lawful assigns length
      (fun bit => (ready.1 bit).2.2) (fun logical => (ready.2 logical).trans (congrArg _ room.symm))
      (room.trans room'.symm) whole run run'
    exact fun _ _ => same
  | string =>
    obtain ⟨filled, fills, run⟩ := except_bind_ok.mp run
    obtain ⟨chars, drains, run⟩ := except_bind_ok.mp run
    obtain ⟨filled', fills', run'⟩ := except_bind_ok.mp run'
    obtain ⟨chars', drains', run'⟩ := except_bind_ok.mp run'
    cases run
    cases run'
    cases (drain_fill fills whole).symm.trans drains
    cases (drain_fill fills' whole).symm.trans drains'
    exact fun _ _ => rfl
  | strings =>
    obtain ⟨filled, fills, run⟩ := except_bind_ok.mp run
    obtain ⟨strings, splits, run⟩ := except_bind_ok.mp run
    obtain ⟨filled', fills', run'⟩ := except_bind_ok.mp run'
    obtain ⟨strings', splits', run'⟩ := except_bind_ok.mp run'
    cases run
    cases run'
    have chars : it.width * n ≤ data.length := ready.2.trans_eq whole.symm
    have count : List.length base = n := room
    have count' : List.length base' = n := room'
    obtain ⟨_, rfl⟩ := fill_iff.mp fills
    obtain ⟨_, rfl⟩ := fill_iff.mp fills'
    rw [count, StringColumnVector.split_append chars] at splits
    rw [count'] at splits'
    cases splits.symm.trans ((StringColumnVector.split_append chars).symm.trans splits')
    exact fun _ _ => rfl

def KeptLength (info : ColumnInfo) : Target → Nat → Prop
  | .bitset, n => (n : Int) = info.extent.nelem
  | .strings, n => 0 ≤ info.extent.nelem ∧ (n : Int) = Target.elements .strings info
  | _, _ => True

variable {info : ColumnInfo}

theorem ready_make (lawful : S.Lawful)
    (text : info.columnType.id = .string → info.nbytes = info.extent.nelem)
    (kept : KeptLength info τ n) (run : τ.make S info base = .ok it base') : τ.Ready it n := by
  cases τ with
  | native | bool => trivial
  | bitset =>
    have count : info.extent.nelem = n := Eq.symm kept
    have small : n < 2 ^ 31 := by
      have bounds := toInt_bounds info.extent.prod
      rw [← Extent.nelem_eq, count] at bounds
      omega
    by_cases bit : info.columnType.id = .bit
    · have ready := BitSetColumn.make_ready lawful rfl bit count small run
      refine ⟨fun _ => ⟨?_, ready.buffer, ready.maxBits.trans (congrArg _ ready.buffer.symm)⟩,
        fun logical => ?_⟩
      · rw [ready.nelem]
        exact toSize_natCast (by omega)
      · rw [ready.id] at logical
        cases logical
    · obtain ⟨_, same, _, _⟩ := BitSetColumn.make_logical bit run
      have id : it.id = info.columnType.id := congrArg ColumnBase.id same
      have natomic : it.natomic = info.extent.nelem := congrArg ColumnBase.natomic same
      exact ⟨fun other => absurd (id.symm.trans other) bit, fun _ => natomic.trans count⟩
  | string =>
    obtain ⟨_, run⟩ := check_ok.mp run
    obtain ⟨_, _, sets, run⟩ := bind_ok.mp run
    cases run
    exact List.length_replicate
  | strings =>
    obtain ⟨natomic, buffer, width, _, string⟩ := sized_make run
    obtain ⟨count, length⟩ := kept
    have slots : n = toSize info.extent.nelem / it.width := by
      rw [width]
      exact Int.ofNat.inj length
    refine ⟨buffer.trans (congrArg toSize natomic.symm), ?_⟩
    have whole := Nat.mul_div_le (toSize info.extent.nelem) it.width
    have small := nelem_lt info
    rw [slots, natomic, text string]
    unfold toSize at whole ⊢
    omega

theorem Bound.ready {api : Cfitsio} {t : Nat} (bound : Bound api t S info τ it) (lawful : S.Lawful)
    (text : info.columnType.id = .string → info.nbytes = info.extent.nelem)
    (kept : KeptLength info τ n) : τ.Ready it n := by
  induction bound with
  | made run => exact ready_make lawful text kept run
  | read _ run ready =>
    obtain ⟨_, _, loads⟩ := read_ok run
    exact (alike_load lawful loads).ready ready
  | write _ run ready =>
    obtain ⟨_, stores, _⟩ := write_ok run
    exact (alike_store ready stores).ready ready

end Target

end MisFITS
