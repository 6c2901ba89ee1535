import MisFITS.Cfitsio

/-! Bit sets, after `bitset.hpp` and `bitset.cc`. `boost::dynamic_bitset<byte_t>`
is a parameter: its blocks are bytes in which bit `j` has the weight `2 ^ j`. -/
namespace MisFITS

/-- What the code uses of `boost::dynamic_bitset`. -/
structure DynamicBitset where
  Bits : Type
  size : Bits → Nat
  test : Bits → Nat → Bool
  set : Bits → Nat → Bool → Bits
  resize : Bits → Nat → Bits
  /-- the blocks that `to_block_range` copies -/
  blocks : Bits → List Byte
  /-- the set into whose blocks `from_block_range` has copied -/
  fromBlocks : List Byte → Bits → Bits

namespace DynamicBitset

def bitsPerBlock : Nat := 8

/-- What Boost documents. -/
structure Lawful (S : DynamicBitset) : Prop where
  size_resize : ∀ b n, S.size (S.resize b n) = n
  size_set : ∀ b i v, S.size (S.set b i v) = S.size b
  test_resize : ∀ b n i, S.test (S.resize b n) i = (decide (i < n) && S.test b i)
  test_outside : ∀ b i, S.size b ≤ i → S.test b i = false
  blocks_length : ∀ b, (S.blocks b).length = (S.size b + 7) / 8
  blocks_test : ∀ b k block j, (S.blocks b)[k]? = some block → j < 8 →
    block.getLsbD j = S.test b (8 * k + j)
  size_fromBlocks : ∀ blocks b, S.size (S.fromBlocks blocks b) = S.size b
  test_fromBlocks : ∀ blocks b k block j, S.size b = 8 * blocks.length →
    blocks[k]? = some block → j < 8 → S.test (S.fromBlocks blocks b) (8 * k + j) = block.getLsbD j
  ext : ∀ a b, S.size a = S.size b → (∀ i, S.test a i = S.test b i) → a = b

end DynamicBitset

def reverseBits (b : Byte) : Byte :=
  let b := (b &&& 0xF0) >>> 4 ||| (b &&& 0x0F) <<< 4
  let b := (b &&& 0xCC) >>> 2 ||| (b &&& 0x33) <<< 2
  (b &&& 0xAA) >>> 1 ||| (b &&& 0x55) <<< 1

/-- `std::copy` of blocks through a `BitSet_output_iterator` into a buffer. -/
def outputBlocks : List Byte → List Byte → Except Exception (List Byte)
  | [], buffer => .ok buffer
  | _ :: _, [] => .error .overrun
  | block :: blocks, _ :: buffer => (outputBlocks blocks buffer).map (reverseBits block :: ·)

/-- The blocks that a `BitSet_input_iterator` reads from a buffer. -/
def inputBlocks (buffer : List Byte) : List Byte := buffer.map reverseBits

/-- Bit `i` of a cell: the first bit of a byte is the one of weight `2 ^ 7`. -/
def bitOf (cell : List Byte) (i : Nat) : Bool := (cell.getD (i / 8) 0).getLsbD (7 - i % 8)

theorem getLsbD_reverseBits (b : Byte) {j : Nat} (h : j < 8) :
    (reverseBits b).getLsbD j = b.getLsbD (7 - j) := by
  have all : ∀ b : Byte, ∀ j : Fin 8, (reverseBits b).getLsbD j = b.getLsbD (7 - j) := by
    decide +kernel
  exact all b ⟨j, h⟩

theorem reverseBits_reverseBits (b : Byte) : reverseBits (reverseBits b) = b := by
  refine BitVec.eq_of_getLsbD_eq (fun j low => ?_)
  rw [getLsbD_reverseBits _ low, getLsbD_reverseBits _ (by omega), show 7 - (7 - j) = j by omega]

theorem map_reversed (bytes : List Byte) : (bytes.map reverseBits).map reverseBits = bytes := by
  rw [List.map_map]
  exact List.map_id'' reverseBits_reverseBits bytes

theorem outputBlocks_eq {blocks buffer : List Byte} (fits : blocks.length = buffer.length) :
    outputBlocks blocks buffer = .ok (blocks.map reverseBits) := by
  induction blocks generalizing buffer with
  | nil => rw [List.length_eq_zero_iff.mp fits.symm]; rfl
  | cons block blocks ih =>
    cases buffer with
    | nil => cases fits
    | cons old buffer =>
      rw [outputBlocks, ih (Nat.succ.inj fits)]
      rfl

theorem getD_reversed (bytes : List Byte) (k : Nat) :
    (bytes.map reverseBits).getD k 0 = reverseBits (bytes.getD k 0) := by
  rw [List.getD_eq_getElem?_getD, List.getD_eq_getElem?_getD, List.getElem?_map]
  cases bytes[k]? with
  | none => decide
  | some byte => rfl

theorem bitOf_reversed (blocks : List Byte) (i : Nat) :
    bitOf (blocks.map reverseBits) i = (blocks.getD (i / 8) 0).getLsbD (i % 8) := by
  have low : i % 8 < 8 := Nat.mod_lt i (by decide)
  rw [bitOf, getD_reversed, getLsbD_reverseBits _ (by omega)]
  congr 1
  omega

theorem getLsbD_inputBlocks (cell : List Byte) (i : Nat) :
    ((inputBlocks cell).getD (i / 8) 0).getLsbD (i % 8) = bitOf cell i := by
  rw [inputBlocks, getD_reversed, getLsbD_reverseBits _ (Nat.mod_lt i (by decide)), bitOf]

section Lawful

variable {S : DynamicBitset}

theorem blocks_getD (lawful : S.Lawful) (b : S.Bits) (i : Nat) :
    ((S.blocks b).getD (i / 8) 0).getLsbD (i % 8) = S.test b i := by
  have low : i % 8 < 8 := Nat.mod_lt i (by decide)
  rw [List.getD_eq_getElem?_getD]
  cases entry : (S.blocks b)[i / 8]? with
  | none =>
    have outside := List.getElem?_eq_none_iff.mp entry
    rw [lawful.blocks_length] at outside
    rw [lawful.test_outside b i (by omega)]
    simp
  | some block =>
    have bit := lawful.blocks_test b (i / 8) block (i % 8) entry low
    rw [Nat.div_add_mod] at bit
    simpa using bit

theorem test_fromBlocks (lawful : S.Lawful) {blocks : List Byte} {b : S.Bits}
    (whole : S.size b = 8 * blocks.length) {i : Nat} (inside : i < S.size b) :
    S.test (S.fromBlocks blocks b) i = (blocks.getD (i / 8) 0).getLsbD (i % 8) := by
  have low : i % 8 < 8 := Nat.mod_lt i (by decide)
  have entry := List.getElem?_eq_getElem (show i / 8 < blocks.length by omega)
  have bit := lawful.test_fromBlocks blocks b (i / 8) _ (i % 8) whole entry low
  rw [Nat.div_add_mod] at bit
  rw [bit, List.getD_eq_getElem?_getD, entry]
  rfl

end Lawful

def blockAt (bs : List Bool) (k : Nat) : Byte :=
  (BitVec.ofBoolListLE ((List.range 8).map (fun j => bs.getD (8 * k + j) false))).setWidth 8

def listBitset : DynamicBitset where
  Bits := List Bool
  size bs := bs.length
  test bs i := bs.getD i false
  set bs i v := bs.set i v
  resize bs n := (List.range n).map (fun i => bs.getD i false)
  blocks bs := (List.range ((bs.length + 7) / 8)).map (blockAt bs)
  fromBlocks blocks bs :=
    (List.range bs.length).map (fun i => (blocks.getD (i / 8) 0).getLsbD (i % 8))

theorem getD_map_range (n : Nat) (f : Nat → Bool) (i : Nat) :
    ((List.range n).map f).getD i false = (decide (i < n) && f i) := by
  rw [List.getD_eq_getElem?_getD, List.getElem?_map]
  by_cases inside : i < n <;> simp [inside]

theorem getLsbD_blockAt (bs : List Bool) (k : Nat) {j : Nat} (low : j < 8) :
    (blockAt bs k).getLsbD j = bs.getD (8 * k + j) false := by
  unfold blockAt
  rw [BitVec.getLsbD_setWidth, BitVec.getLsbD_ofBoolListLE, getD_map_range]
  simp [low]

theorem blocks_blockAt {bs : List Bool} {n k : Nat} {block : Byte}
    (entry : ((List.range n).map (blockAt bs))[k]? = some block) : block = blockAt bs k := by
  have inside : k < n := by simpa using (List.getElem?_eq_some_iff.mp entry).1
  rw [List.getElem?_map, List.getElem?_range inside] at entry
  cases entry
  rfl

theorem listBitset_lawful : listBitset.Lawful where
  size_resize b n := by simp [listBitset]
  size_set b i v := List.length_set
  test_resize b n i := getD_map_range n _ i
  test_outside := show ∀ (b : List Bool) i, b.length ≤ i → b.getD i false = false from
    fun b i outside => by simp [outside]
  blocks_length b := by simp [listBitset]
  blocks_test b k block j entry low := by
    rw [blocks_blockAt entry]
    exact getLsbD_blockAt b k low
  size_fromBlocks blocks b := by simp [listBitset]
  test_fromBlocks blocks b k block j whole entry low := by
    have inside := (List.getElem?_eq_some_iff.mp entry).1
    have bit := getD_map_range (listBitset.size b)
      (fun i => (blocks.getD (i / 8) 0).getLsbD (i % 8)) (8 * k + j)
    have quotient : (8 * k + j) / 8 = k := by omega
    have remainder : (8 * k + j) % 8 = j := by omega
    have bound : 8 * k + j < listBitset.size b := by omega
    have value : blocks.getD k 0 = block := by simp [entry]
    rw [quotient, remainder, value, decide_eq_true bound, Bool.true_and] at bit
    exact bit
  ext := show ∀ a b : List Bool, a.length = b.length →
      (∀ i, a.getD i false = b.getD i false) → a = b from
    fun a b size test => List.ext_getElem size (fun i inA inB => by
      have same := test i
      simpa [inA, inB] using same)

end MisFITS
