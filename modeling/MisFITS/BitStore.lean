import Mathlib.Data.List.GetD
import MisFITS.Bits

/-! What a bit set of any size leaves in a cell: a bound column has a buffer of
the size of its cells, and a write puts the blocks of the set into it. -/
namespace MisFITS.RowEntry.BitSetColumn
open ColumnType Program HDU

section Blocks

variable {blocks buffer : List Byte} {i : Nat}

theorem outputBlocks_append (fits : blocks.length ≤ buffer.length) :
    outputBlocks blocks buffer = .ok (blocks.map reverseBits ++ buffer.drop blocks.length) := by
  induction blocks generalizing buffer with
  | nil => rfl
  | cons block blocks ih =>
    cases buffer with
    | nil => cases fits
    | cons old buffer =>
      rw [outputBlocks, ih (Nat.le_of_succ_le_succ fits)]
      rfl

theorem outputBlocks_fits {buffer' : List Byte} (run : outputBlocks blocks buffer = .ok buffer') :
    blocks.length ≤ buffer.length := by
  induction blocks generalizing buffer buffer' with
  | nil => simp
  | cons block blocks ih =>
    cases buffer with
    | nil => cases run
    | cons old buffer =>
      obtain ⟨rest, run, _⟩ := except_map_ok.mp run
      simpa using ih run

theorem bitOf_append_left {a b : List Byte} (inside : i < 8 * a.length) :
    bitOf (a ++ b) i = bitOf a i := by
  unfold bitOf
  rw [List.getD_append _ _ _ _ (by omega)]

theorem bitOf_append_right {a b : List Byte} (behind : 8 * a.length ≤ i) :
    bitOf (a ++ b) i = (b.getD (i / 8 - a.length) 0).getLsbD (7 - i % 8) := by
  unfold bitOf
  rw [List.getD_append_right _ _ _ _ (by omega)]

theorem bytesFor_toInt_ne {n : Nat} (wrapped : 2 ^ 31 ≤ n) (long : n < 2 ^ 63) :
    bytesFor (toSize (toInt n)) ≠ bytesFor n := by
  have modulo : (toInt n) % 2 ^ 32 = (n : Int) % 2 ^ 32 := Int.bmod_emod
  obtain ⟨least, most⟩ := toInt_bounds n
  unfold toSize bytesFor
  generalize toInt n = r at modulo least most
  omega

theorem byte_eq_zero {b : Byte} (clear : ∀ j, j < 8 → b.getLsbD (7 - j) = false) : b = 0 := by
  apply BitVec.eq_of_getLsbD_eq
  intro j low
  have bit := clear (7 - j) (by omega)
  rw [Nat.sub_sub_self (by omega)] at bit
  simpa using bit

end Blocks

variable {S : DynamicBitset} {n : Nat} {it : BitSetColumn} {base : S.Bits} {info : ColumnInfo}

def passed (S : DynamicBitset) (it : BitSetColumn) (base : S.Bits) :
    Except Exception (BitSetColumn × List Byte) := do
  let buffer ← store S it base
  return ({ it with buffer }, ← drain it.natomic buffer)

theorem write_of_passed {api : Cfitsio} {t : Nat} {row : Int} {w : World} {it' : BitSetColumn}
    {bytes : List Byte} (found : passed S it base = .ok (it', bytes)) :
    write api t S it row base w =
      (Table.writeCol api t .byte it.colnum row 1 bytes >>= fun _ => pure it') w := by
  obtain ⟨buffer, stores, found⟩ := except_bind_ok.mp found
  obtain ⟨_, drains, found⟩ := except_bind_ok.mp found
  cases found
  unfold write
  rw [bind_of_ok (ofExcept_ok.mpr ⟨stores, rfl⟩), bind_of_ok (ofExcept_ok.mpr ⟨drains, rfl⟩)]

theorem passed_of_write {api : Cfitsio} {t : Nat} {row : Int} {w w' : World} {it' : BitSetColumn}
    (run : write api t S it row base w = .ok it' w') :
    ∃ bytes, passed S it base = .ok (it', bytes) ∧
      Table.writeCol api t .byte it.colnum row 1 bytes w = .ok () w' := by
  obtain ⟨buffer, _, stores, run⟩ := bind_ok.mp run
  obtain ⟨bytes, _, drains, run⟩ := bind_ok.mp run
  obtain ⟨_, _, writes, run⟩ := bind_ok.mp run
  obtain ⟨rfl, rfl⟩ := pure_ok.mp run
  obtain ⟨stored, rfl⟩ := ofExcept_ok.mp stores
  obtain ⟨drained, rfl⟩ := ofExcept_ok.mp drains
  exact ⟨bytes, except_bind_ok.mpr ⟨buffer, stored, except_bind_ok.mpr ⟨bytes, drained, rfl⟩⟩, writes⟩

/-- A write stays in the buffer and passes on a cell of `n` bits: those of the
set, with zeros behind them. -/
def Stores (S : DynamicBitset) (n : Nat) (it : BitSetColumn) (base : S.Bits) : Prop :=
  ∃ bytes, bytes.length = bytesFor n ∧
    (∀ i, bitOf bytes i = (decide (i < n) && S.test base i)) ∧
    ∀ api t row w, ∃ it', write api t S it row base w =
      (Table.writeCol api t .byte it.colnum row 1 bytes >>= fun _ => pure it') w

def recording : Cfitsio :=
  { Reference.api with
    writeCol := fun T _ _ _ values h =>
      match T, values with
      | .byte, bytes => .ok () { h with cols := [⟨Reference.head "" .bit 0 0, fun _ => bytes⟩] }
      | _, _ => .error Reference.badColnum h }

theorem stores_iff_passed : Stores S n it base ↔ ∃ it' bytes, passed S it base = .ok (it', bytes) ∧
    bytes.length = bytesFor n ∧ ∀ i, bitOf bytes i = (decide (i < n) && S.test base i) := by
  constructor
  · rintro ⟨bytes, length, bits, writes⟩
    let w := uniform ⟨Reference.head "" .bit 0 0, fun _ => []⟩ 1
    obtain ⟨it', run⟩ := writes recording 0 1 w
    have records : ∀ bytes : List Byte,
        Table.writeCol recording 0 .byte it.colnum 1 1 bytes w = .ok () (w.putUnit 0 1
          { w.current 0 with cols := [⟨Reference.head "" .bit 0 0, fun _ => bytes⟩] }) :=
      fun _ => rfl
    rw [bind_of_ok (records bytes)] at run
    obtain ⟨bytes', found, wrote⟩ := passed_of_write run
    rw [records bytes'] at wrote
    have cells : [bytes] = [bytes'] := congrArg
      (fun r => ((Program.after r).current 0).cols.map (fun c => c.cells 1)) wrote.symm
    obtain rfl : bytes = bytes' := List.singleton_inj.mp cells
    exact ⟨it', bytes, found, length, bits⟩
  · rintro ⟨it', bytes, found, length, bits⟩
    exact ⟨bytes, length, bits, fun api t row w => ⟨it', write_of_passed found⟩⟩

structure Buffered (m : Nat) (it : BitSetColumn) : Prop where
  id : it.id = .bit
  natomic : it.natomic = bytesFor m
  buffer : it.buffer.length = bytesFor m

theorem Bound.buffered {api : Cfitsio} {t : Nat} (bound : Bound api t S info it)
    (lawful : S.Lawful) (bit : info.columnType.id = .bit) :
    Buffered (toSize info.extent.nelem) it := by
  have size : toSize info.extent.nelem < 2 ^ 64 := by
    unfold toSize
    omega
  induction bound with
  | made run =>
    rw [make_bit bit, lawful.blocks_length, lawful.size_resize] at run
    cases run
    exact
      { id := rfl, natomic := rfl
        buffer := by rw [List.length_replicate, toSize_natCast (by omega), bytesFor] }
  | read _ run buffered =>
    obtain ⟨_, _, _, run⟩ := bind_ok.mp run
    obtain ⟨buffer, rfl, kept, _⟩ := load_kept lawful (ofExcept_ok.mp run).1
    exact { buffered with buffer := kept.trans buffered.buffer }
  | write _ run buffered =>
    obtain ⟨_, found, _⟩ := passed_of_write run
    obtain ⟨buffer, stores, found⟩ := except_bind_ok.mp found
    obtain ⟨_, _, found⟩ := except_bind_ok.mp found
    cases found
    unfold store at stores
    simp only [buffered.id, if_true] at stores
    exact { buffered with buffer := (outputBlocks_length stores).trans buffered.buffer }

theorem Buffered.passed_iff {m : Nat} (buffered : Buffered m it) (lawful : S.Lawful)
    {it' : BitSetColumn} {bytes : List Byte} : passed S it base = .ok (it', bytes) ↔
      bytesFor (S.size base) ≤ bytesFor m ∧ it' = { it with buffer := bytes } ∧
      bytes = (S.blocks base).map reverseBits ++ it.buffer.drop (S.blocks base).length := by
  have blocks : (S.blocks base).length = bytesFor (S.size base) := lawful.blocks_length base
  have drained : ∀ buffer : List Byte, buffer.length = it.buffer.length →
      drain it.natomic buffer = .ok buffer := by
    intro buffer same
    have length := same.trans buffered.buffer
    rw [buffered.natomic, drain_ok (by omega), Int.toNat_natCast,
      List.take_of_length_le length.le]
  have stored : store S it base = outputBlocks (S.blocks base) it.buffer := by
    unfold store
    rw [if_pos buffered.id]
  constructor
  · intro found
    obtain ⟨buffer, stores, found⟩ := except_bind_ok.mp found
    rw [stored] at stores
    obtain ⟨_, drains, found⟩ := except_bind_ok.mp found
    rw [drained buffer (outputBlocks_length stores)] at drains
    cases drains
    cases found
    have fits := outputBlocks_fits stores
    rw [outputBlocks_append fits] at stores
    rw [blocks, buffered.buffer] at fits
    exact ⟨fits, rfl, (Except.ok.inj stores).symm⟩
  · rintro ⟨fits, rfl, rfl⟩
    have room : (S.blocks base).length ≤ it.buffer.length := by
      rw [blocks, buffered.buffer]
      exact fits
    have stores := outputBlocks_append room
    have length := outputBlocks_length stores
    rw [← stored] at stores
    exact except_bind_ok.mpr ⟨_, stores, except_bind_ok.mpr ⟨_, drained _ length, rfl⟩⟩

theorem bits_iff (lawful : S.Lawful) {buffer : List Byte} :
    (∀ i, bitOf ((S.blocks base).map reverseBits ++ buffer.drop (S.blocks base).length) i =
        (decide (i < n) && S.test base i)) ↔
      (∀ i, n ≤ i → S.test base i = false) ∧
        ∀ k, bytesFor (S.size base) ≤ k → buffer.getD k 0 = 0 := by
  have blocks : (S.blocks base).length = bytesFor (S.size base) := lawful.blocks_length base
  have length : ((S.blocks base).map reverseBits).length = bytesFor (S.size base) := by
    rw [List.length_map, blocks]
  have inside : ∀ i, i < 8 * bytesFor (S.size base) →
      bitOf ((S.blocks base).map reverseBits ++ buffer.drop (S.blocks base).length) i =
        S.test base i := by
    intro i low
    rw [bitOf_append_left (by rw [length]; exact low), bitOf_reversed, blocks_getD lawful]
  have behind : ∀ i, 8 * bytesFor (S.size base) ≤ i →
      bitOf ((S.blocks base).map reverseBits ++ buffer.drop (S.blocks base).length) i =
        (buffer.getD (i / 8) 0).getLsbD (7 - i % 8) ∧ S.test base i = false := by
    intro i high
    refine ⟨?_, lawful.test_outside base i (by unfold bytesFor at high; omega)⟩
    rw [bitOf_append_right (by rw [length]; exact high), length, blocks,
      List.getD_eq_getElem?_getD, List.getD_eq_getElem?_getD, List.getElem?_drop]
    congr 3
    omega
  constructor
  · intro same
    constructor
    · intro i outside
      by_cases low : i < 8 * bytesFor (S.size base)
      · have bit := same i
        rw [inside i low] at bit
        rw [bit, decide_eq_false (Nat.not_lt.mpr outside), Bool.false_and]
      · exact (behind i (Nat.le_of_not_lt low)).2
    · intro k high
      apply byte_eq_zero
      intro j low
      have far : 8 * bytesFor (S.size base) ≤ 8 * k + j := by omega
      have bit := same (8 * k + j)
      rw [(behind _ far).1, (behind _ far).2, Bool.and_false] at bit
      have place : (8 * k + j) / 8 = k ∧ (8 * k + j) % 8 = j := by omega
      rwa [place.1, place.2] at bit
  · rintro ⟨outside, clear⟩ i
    by_cases low : i < 8 * bytesFor (S.size base)
    · rw [inside i low]
      by_cases within : i < n
      · simp [within]
      · simp [outside i (Nat.le_of_not_lt within)]
    · have far := Nat.le_of_not_lt low
      rw [(behind i far).1, (behind i far).2, clear (i / 8) (by omega)]
      simp

/-- A column of `n` bits stores a set exactly when this
needs no more blocks than the buffer has, its bits from `n` on are clear, and so
are the bytes that the buffer has behind its blocks. -/
theorem stores_iff {api : Cfitsio} {t : Nat} (lawful : S.Lawful) (bound : Bound api t S info it)
    (bit : info.columnType.id = .bit) (bits : info.extent.prod = n) (positive : 1 ≤ n)
    (long : n < 2 ^ 63) : Stores S n it base ↔
      n < 2 ^ 31 ∧ bytesFor (S.size base) ≤ bytesFor n ∧ (∀ i, n ≤ i → S.test base i = false) ∧
        ∀ k, bytesFor (S.size base) ≤ k → it.buffer.getD k 0 = 0 := by
  have buffered := bound.buffered lawful bit
  have count : info.extent.nelem = toInt n := by rw [Extent.nelem_eq, bits]
  have same : bytesFor (toSize info.extent.nelem) = bytesFor n ↔ n < 2 ^ 31 := by
    rw [count]
    constructor
    · intro same
      by_contra wrapped
      exact bytesFor_toInt_ne (Nat.le_of_not_lt wrapped) long same
    · intro small
      rw [toInt_of_lt (by omega) (by omega), toSize_natCast (by omega)]
  have length : bytesFor (S.size base) ≤ bytesFor (toSize info.extent.nelem) →
      ((S.blocks base).map reverseBits ++ it.buffer.drop (S.blocks base).length).length =
        bytesFor (toSize info.extent.nelem) := by
    intro fits
    have blocks : (S.blocks base).length = bytesFor (S.size base) := lawful.blocks_length base
    rw [List.length_append, List.length_map, List.length_drop, buffered.buffer, blocks]
    omega
  rw [stores_iff_passed]
  constructor
  · rintro ⟨it', bytes, found, whole, equal⟩
    obtain ⟨fits, _, rfl⟩ := (buffered.passed_iff lawful).mp found
    rw [length fits] at whole
    obtain ⟨clear, rest⟩ := (bits_iff lawful).mp equal
    exact ⟨same.mp whole, whole ▸ fits, clear, rest⟩
  · rintro ⟨small, fits, clear, rest⟩
    rw [← same.mpr small] at fits
    exact ⟨_, _, (buffered.passed_iff lawful).mpr ⟨fits, rfl, rfl⟩,
      (length fits).trans (same.mpr small), (bits_iff lawful).mpr ⟨clear, rest⟩⟩

def flags : ColumnInfo :=
  { ttype := "flags", tunit := "", columnType := .bit, offset := 1, nbytes := 5, extent := [37]
    colnum := 1 }

def flagsColumn (buffer : List Byte) : BitSetColumn :=
  { colnum := 1, nelem := 37, natomic := 5, id := .bit, maxBits := 40, buffer }

def bitsOf (n : Nat) (v : Bool) : listBitset.Bits := List.replicate n v

theorem make_flags : make listBitset flags (bitsOf 0 false) =
    .ok (flagsColumn (List.replicate 5 0)) (bitsOf 37 false) := rfl

theorem write_flags : ∃ w', write Reference.api 0 listBitset (flagsColumn (List.replicate 5 0)) 1
    (bitsOf 37 true) (uniform (Reference.column "flags" .bit 37 1) 1) =
      .ok (flagsColumn [0xFF, 0xFF, 0xFF, 0xFF, 0xF8]) w' := ⟨_, rfl⟩

theorem stores_same : Stores listBitset 37 (flagsColumn (List.replicate 5 0)) (bitsOf 37 true) := by
  have bound : Bound Reference.api 0 listBitset flags (flagsColumn (List.replicate 5 0)) :=
    .made make_flags
  apply (stores_iff listBitset_lawful bound rfl (by decide) (by decide) (by decide)).mpr
  refine ⟨by decide, by decide, listBitset_lawful.test_outside (bitsOf 37 true), ?_⟩
  intro k _
  simp only [flagsColumn, List.getD_eq_getElem?_getD, List.getElem?_replicate]
  split <;> rfl

/-- A set that is resized to 72 bits overruns the buffer, and one that is resized
to eight leaves in the cell what an earlier one had there. -/
theorem not_stores :
    (∀ api t row w, write api t listBitset (flagsColumn (List.replicate 5 0)) row
      (bitsOf 72 false) w = .error .overrun w) ∧
    ¬Stores listBitset 37 (flagsColumn (List.replicate 5 0)) (bitsOf 72 false) ∧
    Bound Reference.api 0 listBitset flags (flagsColumn [0xFF, 0xFF, 0xFF, 0xFF, 0xF8]) ∧
    ¬Stores listBitset 37 (flagsColumn [0xFF, 0xFF, 0xFF, 0xFF, 0xF8]) (bitsOf 8 false) := by
  refine ⟨fun _ _ _ _ => rfl, fun stores => ?_, ?_, fun stores => ?_⟩
  · obtain ⟨_, _, found, _⟩ := stores_iff_passed.mp stores
    cases found
  · obtain ⟨w', run⟩ := write_flags
    exact .write (.made make_flags) run
  · obtain ⟨_, _, found, _, bits⟩ := stores_iff_passed.mp stores
    cases found
    exact absurd (bits 8) (by decide)

end MisFITS.RowEntry.BitSetColumn
