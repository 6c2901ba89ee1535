import MisFITS.Buffers

/-! What a cell keeps of a value: what a bound column hands over, and what becomes of
that in the variable it came from. -/
namespace MisFITS
open Program HDU RowEntry

namespace RowEntry

variable {α : Type} {n : Int} {base data : List α}

theorem fill_drain (run : drain n base = .ok data) : fill data base = .ok base := by
  obtain ⟨room, rfl⟩ := drain_iff.mp run
  refine fill_iff.mpr ⟨List.length_take_le' _ _, ?_⟩
  rw [List.length_take, Nat.min_eq_left (by omega), List.take_append_drop]

namespace BitSetColumn

variable {S : DynamicBitset} {it it' : BitSetColumn} {base : S.Bits} {data : List Byte}

theorem assign_own (lawful : S.Lawful) (assigns : S.Assigns) {idx : Nat} {flags : List Byte}
    (size : idx + flags.length ≤ S.size base)
    (same : ∀ j flag, flags[j]? = some flag → decide (flag ≠ 0) = S.test base (idx + j)) :
    assign S base idx flags = .ok base := by
  induction flags generalizing idx with
  | nil => rfl
  | cons flag flags ih =>
    rw [List.length_cons] at size
    have first : decide (flag ≠ 0) = S.test base idx := same 0 flag rfl
    have still : S.set base idx (decide (flag ≠ 0)) = base := by
      refine lawful.ext _ _ (lawful.size_set ..) (fun i => ?_)
      rw [assigns base idx _ i (by omega), first]
      split
      · rename_i here
        rw [here]
      · rfl
    rw [assign, if_pos (by omega), still]
    refine ih (by omega) (fun j flag entry => ?_)
    rw [same (j + 1) flag entry, Nat.add_assoc, Nat.add_comm 1 j]

theorem load_blocks (lawful : S.Lawful) (bits : it.maxBits = 8 * (S.blocks base).length)
    (size : toSize it.nelem = S.size base) :
    S.resize (S.fromBlocks (inputBlocks ((S.blocks base).map reverseBits))
      (S.resize base it.maxBits)) (toSize it.nelem) = base := by
  rw [inputBlocks, map_reversed, size]
  have whole : S.size (S.resize base it.maxBits) = 8 * (S.blocks base).length := by
    rw [lawful.size_resize, bits]
  refine lawful.ext _ _ (lawful.size_resize _ _) (fun i => ?_)
  rw [lawful.test_resize]
  by_cases inside : i < S.size base
  · have blocks := lawful.blocks_length base
    rw [decide_eq_true inside, Bool.true_and, test_fromBlocks lawful whole (by omega),
      blocks_getD lawful]
  · rw [decide_eq_false inside, Bool.false_and, lawful.test_outside base i (Nat.le_of_not_lt inside)]

theorem load_stored (lawful : S.Lawful) (assigns : S.Assigns)
    (bits : it.id = .bit → toSize it.nelem = S.size base ∧
      it.buffer.length = (S.size base + 7) / 8 ∧ it.maxBits = 8 * it.buffer.length)
    (flags : it.id = .logical → it.natomic = S.size base) (whole : data.length = it.buffer.length)
    {filled : List Byte} (stores : store S it base = .ok filled)
    (drains : drain it.natomic filled = .ok data) :
    load S it base data = .ok ({ it with buffer := data }, base) := by
  have fills : fill data it.buffer = .ok data := by
    refine fill_iff.mpr ⟨whole.le, ?_⟩
    rw [whole, List.drop_length, List.append_nil]
  unfold store at stores
  refine except_bind_ok.mpr ⟨data, fills, ?_⟩
  by_cases bit : it.id = .bit
  · obtain ⟨size, blocks, most⟩ := bits bit
    have fits : (S.blocks base).length = it.buffer.length :=
      (lawful.blocks_length base).trans blocks.symm
    rw [if_pos bit, outputBlocks_eq fits] at stores
    cases stores
    obtain ⟨_, taken⟩ := drain_iff.mp drains
    have all : data = (S.blocks base).map reverseBits := by
      rw [taken]
      rw [taken, List.length_take, List.length_map] at whole
      exact List.take_of_length_le (by rw [List.length_map]; omega)
    have same := load_blocks lawful (most.trans (congrArg _ fits.symm)) size
    rw [← all] at same
    simp only [bit, if_true]
    exact congrArg (fun b => (.ok ({ it with buffer := data }, b) : Except Exception _)) same
  · rw [if_neg bit] at stores
    by_cases logical : it.id = .logical
    · rw [if_pos logical] at stores
      obtain ⟨taken, takes, fills'⟩ := except_bind_ok.mp stores
      have number := flags logical
      have count := (List.length_map (fun v => if v then (1 : Byte) else 0)).trans (drain_length takes)
      cases (drain_fill fills' count).symm.trans drains
      obtain ⟨_, all⟩ := drain_iff.mp takes
      have own : assign S base 0 (taken.map (fun v => if v then (1 : Byte) else 0)) = .ok base := by
        refine assign_own lawful assigns (by omega) (fun j flag entry => ?_)
        rw [List.getElem?_map, Option.map_eq_some_iff] at entry
        obtain ⟨v, found, rfl⟩ := entry
        rw [all] at found
        obtain ⟨_, test⟩ := List.getElem?_eq_some_iff.mp found
        rw [List.getElem_take, List.getElem_map, List.getElem_range] at test
        rw [Nat.zero_add, test]
        cases v <;> decide
      simp only [logical, if_true]
      have drained : drain it.natomic (taken.map (fun v => if v then (1 : Byte) else 0)) =
          .ok (taken.map (fun v => if v then (1 : Byte) else 0)) := by
        rw [drain_iff, ← count, List.take_length]
        exact ⟨by omega, rfl⟩
      exact except_bind_ok.mpr ⟨_, drained, except_bind_ok.mpr ⟨base, own, rfl⟩⟩
    · rw [if_neg logical] at stores
      cases stores

end BitSetColumn

end RowEntry

namespace Target

def natomic : (τ : Target) → τ.Column → Int
  | .native _ _, it => it.natomic
  | .bool _, it => it.natomic
  | .bitset, it => it.natomic
  | .string, it => it.natomic
  | .strings, it => it.natomic

variable {S : DynamicBitset} {τ : Target} {it it' jt jt' : τ.Column}
  {base other value : τ.Value S} {data : List τ.storage.Native}

theorem Alike.natomic (alike : τ.Alike it jt) : τ.natomic jt = τ.natomic it := by
  obtain ⟨buffer, _, rfl⟩ := alike
  cases τ <;> rfl

theorem toSize_natomic {n : Int} {k : Nat} (positive : 0 < n) (size : k = toSize n) (room : n ≤ k) :
    toSize n = n.toNat := by
  unfold toSize at size ⊢
  omega

theorem store_length (positive : 0 < τ.natomic it) (ready : τ.Ready it (τ.room S base))
    (fits : τ.Fits it (τ.room S base)) (run : τ.store S it base = .ok (it', data)) :
    data.length = (τ.natomic it).toNat := by
  cases τ with
  | native T vector =>
    obtain ⟨taken, drains, pair⟩ := except_map_ok.mp run
    cases pair
    exact RowEntry.drain_length drains
  | bool vector =>
    obtain ⟨bits, _, run⟩ := except_bind_ok.mp run
    obtain ⟨filled, _, run⟩ := except_bind_ok.mp run
    obtain ⟨taken, takes, run⟩ := except_bind_ok.mp run
    cases run
    exact RowEntry.drain_length takes
  | bitset =>
    obtain ⟨filled, _, run⟩ := except_bind_ok.mp run
    obtain ⟨taken, takes, run⟩ := except_bind_ok.mp run
    cases run
    exact RowEntry.drain_length takes
  | string =>
    obtain ⟨_, fills, pair⟩ := except_map_ok.mp run
    cases pair
    have length := (RowEntry.fill_length fills).trans List.length_replicate
    exact length.trans (toSize_natomic positive ready fits)
  | strings =>
    obtain ⟨_, joins, pair⟩ := except_map_ok.mp run
    cases pair
    have length := (RowEntry.StringColumnVector.join_length joins).trans List.length_replicate
    exact length.trans (toSize_natomic positive ready.1 fits.1)

/-- Strings lose what is behind the width and their first NUL, and a single one is
filled up with blanks. -/
def kept (S : DynamicBitset) : (τ : Target) → τ.Column → τ.Value S → τ.Value S
  | .native _ _, _, base => base
  | .bool _, _, base => base
  | .bitset, _, base => base
  | .string, it, base => terminated (StringColumn.blankFilled it.natomic.toNat base)
  | .strings, it, base => base.map (fun s => terminated (s.take it.width))

theorem load_stored (lawful : S.Lawful) (assigns : S.Assigns) (positive : 0 < τ.natomic it)
    (ready : τ.Ready it (τ.room S base)) (fits : τ.Fits it (τ.room S base))
    (whole : data.length = τ.count it) (run : τ.store S it base = .ok (it', data)) :
    ∃ jt, τ.load S it base data = .ok (jt, τ.kept S it base) := by
  cases τ with
  | native T vector =>
    obtain ⟨taken, drains, pair⟩ := except_map_ok.mp run
    cases pair
    exact ⟨it, except_map_ok.mpr ⟨base, fill_drain drains, rfl⟩⟩
  | bool vector =>
    obtain ⟨bits, drains, run⟩ := except_bind_ok.mp run
    obtain ⟨filled, fills, run⟩ := except_bind_ok.mp run
    obtain ⟨taken, takes, run⟩ := except_bind_ok.mp run
    cases run
    have count := (List.length_map (fun v => if v then (1 : Byte) else 0)).trans (drain_length drains)
    cases (drain_fill fills count).symm.trans takes
    have flags : (bits.map (fun v => if v then (1 : Byte) else 0)).map (fun b => decide (b ≠ 0)) =
        bits := by
      rw [List.map_map]
      exact (List.map_congr_left (fun v _ => by cases v <;> decide)).trans (List.map_id bits)
    have back := fill_drain drains
    rw [← flags] at back
    exact ⟨_, except_bind_ok.mpr ⟨filled, fills, except_bind_ok.mpr ⟨_, drain_fill fills count,
      except_bind_ok.mpr ⟨base, back, rfl⟩⟩⟩⟩
  | bitset =>
    obtain ⟨filled, stores, run⟩ := except_bind_ok.mp run
    obtain ⟨taken, drains, run⟩ := except_bind_ok.mp run
    cases run
    exact ⟨_, BitSetColumn.load_stored lawful assigns ready.1 ready.2 whole stores drains⟩
  | string =>
    obtain ⟨_, fills, pair⟩ := except_map_ok.mp run
    cases pair
    have size : toSize it.natomic = it.natomic.toNat := toSize_natomic positive ready fits
    rw [size, StringColumn.fill_blanks] at fills
    cases fills
    have room : (StringColumn.blankFilled it.natomic.toNat base).length ≤ it.buffer.length := by
      rw [whole]
      exact Int.toNat_le.mpr fits
    obtain ⟨filled, refills⟩ := exists_fill room
    exact ⟨_, except_bind_ok.mpr ⟨filled, refills, except_bind_ok.mpr ⟨_, drain_fill refills whole, rfl⟩⟩⟩
  | strings =>
    obtain ⟨_, joins, pair⟩ := except_map_ok.mp run
    cases pair
    have size : toSize it.natomic = it.natomic.toNat := toSize_natomic positive ready.1 fits.1
    have room : it.width * List.length base ≤ it.natomic.toNat := ready.2
    rw [size, StringColumnVector.join_eq room] at joins
    cases joins
    have fits : ((base.map (padded it.width)).flatten ++ List.replicate
        (it.natomic.toNat - it.width * List.length base) (0x20 : Byte)).length ≤
          it.buffer.length := by
      rw [whole]
      exact Int.toNat_le.mpr fits.1
    obtain ⟨filled, refills⟩ := exists_fill fits
    obtain ⟨_, rfl⟩ := fill_iff.mp refills
    have slots : (base.map (padded it.width)).flatten.length = it.width * List.length base :=
      StringColumnVector.slots_length
    have splits : StringColumnVector.split it.width (List.length base)
        (base.map (padded it.width)).flatten = .ok (kept S .strings it base) :=
      (StringColumnVector.split_eq slots.ge).trans
        (congrArg Except.ok (StringColumnVector.slots_read rfl))
    refine ⟨_, except_bind_ok.mpr ⟨_, refills, except_bind_ok.mpr ⟨_, ?_, rfl⟩⟩⟩
    rw [List.append_assoc, StringColumnVector.split_append slots.ge]
    exact splits

theorem load_carries (lawful : S.Lawful) (assigns : S.Assigns) (positive : 0 < τ.natomic it)
    (ready : τ.Ready it (τ.room S base)) (fits : τ.Fits it (τ.room S base))
    (whole : data.length = τ.count it) (stores : τ.store S it base = .ok (it', data))
    (alike : τ.Alike it jt) (room : τ.room S other = τ.room S base)
    (loads : τ.load S jt other data = .ok (jt', value)) :
    ∀ j ∈ τ.span it, SameAt S τ j (τ.kept S it base) value := by
  obtain ⟨_, own⟩ := load_stored lawful assigns positive ready fits whole stores
  exact load_settles lawful assigns ready alike rfl room whole own loads

end Target

end MisFITS
