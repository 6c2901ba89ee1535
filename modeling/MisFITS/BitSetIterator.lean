import MisFITS.BitSet
import MisFITS.Iterators
import MisFITS.KeywordIterator

/-! The iterators over blocks of bits, after `bitset.hpp`, in algorithms that advance
them in either form. -/
namespace MisFITS
open Iterators

structure BitSetOutputIterator where
  iter : Int

namespace BitSetOutputIterator

/-- `operator =` -/
def assign (it : BitSetOutputIterator) (value : Byte) (buffer : List Byte) :
    Except Exception (List Byte) :=
  store .overrun it.iter (reverseBits value) buffer

def preIncrement (it : BitSetOutputIterator) : BitSetOutputIterator := { iter := it.iter + 1 }

def postIncrement (it : BitSetOutputIterator) (inc : Int) : BitSetOutputIterator :=
  { iter := it.iter + inc }

/-- A round is `*it = b; ++it` or `*it++ = b`. Both operators return the iterator itself,
and the language calls the second one with 0. -/
def round : Increment → BitSetOutputIterator → BitSetOutputIterator × BitSetOutputIterator
  | .pre, it => (it.preIncrement, it)
  | .post, it => (it.postIncrement 0, it.postIncrement 0)

def output : Output Exception Increment BitSetOutputIterator (List Byte) Byte where
  assign := assign
  step := round

end BitSetOutputIterator

structure BitSetInputIterator where
  iter : Int
  deriving DecidableEq

namespace BitSetInputIterator

def deref (it : BitSetInputIterator) (buffer : List Byte) : Except Exception Byte :=
  (load .overrun buffer it.iter).map reverseBits

def preIncrement (it : BitSetInputIterator) : BitSetInputIterator := { iter := it.iter + 1 }

def postIncrement (it : BitSetInputIterator) (inc : Int) : BitSetInputIterator :=
  { iter := it.iter + inc }

def round : Increment → BitSetInputIterator → BitSetInputIterator × BitSetInputIterator
  | .pre, it => (it.preIncrement, it)
  | .post, it => (it.postIncrement 0, it.postIncrement 0)

def input : Input Exception Increment BitSetInputIterator (List Byte) Byte where
  deref := deref
  step := round

end BitSetInputIterator

/-- `vector<byte_t>::iterator`: `it++` returns the iterator that was. -/
def vectorInput : Input Exception Increment Int (List Byte) Byte where
  deref p bytes := load .overrun bytes p
  step _ p := (p + 1, p)

def vectorOutput : Output Exception Increment Int (List Byte) Byte where
  assign p b := store .overrun p b
  step _ p := (p + 1, p)

namespace BitSetIterator

def copyOut (own forms : Nat → Increment) (fuel : Nat) (bytes : List Byte) (place : Nat)
    (buffer : List Byte) : Except Exception (Option (List Byte)) :=
  copy vectorInput BitSetOutputIterator.output bytes bytes.length own forms fuel 0 0 ⟨place⟩ buffer

def copyIn (forms own : Nat → Increment) (fuel : Nat) (buffer : List Byte) (start n : Nat)
    (place : Nat) (target : List Byte) : Except Exception (Option (List Byte)) :=
  copy BitSetInputIterator.input vectorOutput buffer ⟨start + n⟩ forms own fuel 0 ⟨start⟩ place target

def copyThrough (forms' forms : Nat → Increment) (fuel : Nat) (buffer : List Byte) (start n : Nat)
    (place : Nat) (target : List Byte) : Except Exception (Option (List Byte)) :=
  copy BitSetInputIterator.input BitSetOutputIterator.output buffer ⟨start + n⟩ forms' forms fuel 0
    ⟨start⟩ ⟨place⟩ target

/-- Bytes that are copied through an output iterator are stored with their bits reversed,
one behind the other, and nothing else of the buffer changes. -/
def PutsReversed (bytes : List Byte) (forms : Nat → Increment) : Prop :=
  ∀ own front old rear, old.length = bytes.length → ∃ fuel,
    copyOut own forms fuel bytes front.length (front ++ old ++ rear) =
      .ok (some (front ++ bytes.map reverseBits ++ rear))

/-- What is copied from an input iterator is the bytes in order, with their bits reversed. -/
def GetsReversed (bytes : List Byte) (forms : Nat → Increment) : Prop :=
  ∀ own before behind front old rear, old.length = bytes.length → ∃ fuel,
    copyIn forms own fuel (before ++ bytes ++ behind) before.length bytes.length front.length
      (front ++ old ++ rear) = .ok (some (front ++ bytes.map reverseBits ++ rear))

def Restores (bytes : List Byte) (forms forms' : Nat → Increment) : Prop :=
  ∀ own own' before room behind front old rear, room.length = bytes.length →
    old.length = bytes.length → ∃ fuel fuel' buffer,
      copyOut own forms fuel bytes before.length (before ++ room ++ behind) = .ok (some buffer) ∧
      copyIn forms' own' fuel' buffer before.length bytes.length front.length (front ++ old ++ rear) =
        .ok (some (front ++ bytes ++ rear))

def PassesThrough (bytes : List Byte) (forms forms' : Nat → Increment) : Prop :=
  ∀ before behind front old rear, old.length = bytes.length → ∃ fuel,
    copyThrough forms' forms fuel (before ++ bytes ++ behind) before.length bytes.length front.length
      (front ++ old ++ rear) = .ok (some (front ++ bytes ++ rear))

def stride : Increment → Nat
  | .pre => 1
  | .post => 0

theorem stride_le (form : Increment) : stride form ≤ 1 := by cases form <;> decide

theorem stride_eq_one {form : Increment} : stride form = 1 ↔ form = .pre := by
  cases form <;> decide

theorem strides_iff {P : Nat → Prop} {forms : Nat → Increment} :
    (∀ j, P j → stride (forms (0 + j)) = 1) ↔ ∀ j, P j → forms j = .pre := by
  simp only [Nat.zero_add, stride_eq_one]

theorem output_over : BitSetOutputIterator.output.Over (fun it => it.iter) stride reverseBits
    Exception.overrun where
  next form it := by
    cases form with
    | pre => rfl
    | post => rfl
  assign form it b buffer := by
    cases form with
    | pre => rfl
    | post =>
      change store _ (it.iter + 0) _ buffer = _
      rw [Int.add_zero]

theorem input_over : BitSetInputIterator.input.Over (fun it => it.iter) stride reverseBits
    Exception.overrun where
  next form it := by
    cases form with
    | pre => rfl
    | post => rfl
  deref form it buffer := by
    cases form with
    | pre => rfl
    | post =>
      change (load _ buffer (it.iter + 0)).map reverseBits = _
      rw [Int.add_zero]
  inj same := congrArg BitSetInputIterator.mk same

theorem vectorInput_over : vectorInput.Over id (fun _ => 1) id Exception.overrun where
  next _ _ := rfl
  deref _ p bytes := by
    change load _ bytes p = (load _ bytes p).map id
    rw [Except.map_id]
    rfl
  inj same := same

theorem vectorOutput_over : vectorOutput.Over id (fun _ => 1) id Exception.overrun where
  next _ _ := rfl
  assign _ _ _ _ := rfl

section Copies

variable {bytes buffer target before behind front old rear : List Byte}
  {forms forms' own : Nat → Increment} {place start n : Nat}

theorem vector_reads (own : Nat → Increment) (bytes : List Byte) :
    Reads vectorInput bytes (bytes.length : Int) own 0 0 bytes := by
  have reads : Reads vectorInput ([] ++ bytes ++ []) (bytes.length : Int) own 0 0 (bytes.map id) :=
    Reads.over vectorInput_over (fun _ _ => rfl) rfl (by simp)
  simpa using reads

theorem vector_writes (own : Nat → Increment) (bytes front rear : List Byte)
    (length : old.length = bytes.length) :
    vectorOutput.writeAll own 0 (front.length : Int) bytes (front ++ old ++ rear) =
      .ok (front ++ bytes ++ rear) := by
  have writes : vectorOutput.writeAll own 0 (front.length : Int) bytes (front ++ old ++ rear) =
      .ok (front ++ bytes.map id ++ rear) :=
    writeAll_over vectorOutput_over length (fun _ _ => rfl) rfl
  rwa [List.map_id] at writes

theorem input_reads (bytes before behind : List Byte) (pre : ∀ i < bytes.length, forms i = .pre) :
    Reads BitSetInputIterator.input (before ++ bytes ++ behind) ⟨before.length + bytes.length⟩ forms 0
      ⟨before.length⟩ (bytes.map reverseBits) :=
  Reads.over input_over (strides_iff.mpr pre) rfl rfl

theorem output_writes (bytes front rear : List Byte)
    (pre : ∀ i, i + 1 < bytes.length → forms i = .pre) (length : old.length = bytes.length) :
    BitSetOutputIterator.output.writeAll forms 0 ⟨front.length⟩ bytes (front ++ old ++ rear) =
      .ok (front ++ bytes.map reverseBits ++ rear) :=
  writeAll_over output_over length (strides_iff.mpr pre) rfl

theorem copyOut_iff : (∃ fuel, copyOut own forms fuel bytes place old = .ok (some buffer)) ↔
    BitSetOutputIterator.output.writeAll forms 0 ⟨place⟩ bytes old = .ok buffer := by
  refine copy_iff.trans ⟨?_, fun writes => ⟨bytes, vector_reads own bytes, writes⟩⟩
  rintro ⟨as, reads, writes⟩
  rwa [reads.unique (vector_reads own bytes)] at writes

/-- What a copy from an input iterator on that ends in a target of just its size has read. -/
theorem copyIn_ends {fuel : Nat} (length : old.length = n)
    (run : copyIn forms own fuel buffer start n 0 old = .ok (some target)) :
    (∀ i < n, forms i = .pre) ∧ target.length = n ∧
      Reads BitSetInputIterator.input buffer ⟨start + n⟩ forms 0 ⟨start⟩ target := by
  obtain ⟨as, reads, writes⟩ := copy_ok run
  have few : as.length ≤ n := by
    by_cases nonempty : as = []
    · simp [nonempty]
    · have room := writeAll_room vectorOutput_over (fun _ => rfl) writes nonempty
      change ((0 : Nat) : Int) + as.length ≤ old.length at room
      omega
  obtain ⟨whole, strides⟩ := reads.strides input_over stride_le rfl few
  have written := vector_writes own as [] [] (length.trans whole.symm)
  rw [List.nil_append, List.nil_append, List.append_nil, List.append_nil] at written
  cases written.symm.trans writes
  exact ⟨strides_iff.mp strides, whole, reads⟩

def unlike (bytes : List Byte) : List Byte := bytes.map (fun b => ~~~reverseBits b)

theorem unlike_length : (unlike bytes).length = bytes.length := List.length_map _

theorem pre_of_writes (writes : BitSetOutputIterator.output.writeAll forms 0 ⟨0⟩ bytes
    (unlike bytes) = .ok (bytes.map reverseBits)) : ∀ i, i + 1 < bytes.length → forms i = .pre := by
  by_cases empty : bytes = []
  · intro i low
    simp [empty] at low
  · have changed : (bytes.map reverseBits)[bytes.length - 1]? ≠ (unlike bytes)[bytes.length - 1]? := by
      have inside : bytes.length - 1 < bytes.length := by
        have positive := List.length_pos_iff.mpr empty
        omega
      rw [unlike, List.getElem?_map, List.getElem?_map, List.getElem?_eq_getElem inside]
      intro same
      have bit := congrArg (fun b => b.getLsbD 0) (Option.some.inj same)
      simp at bit
    exact strides_iff.mp (strides_of_writeAll output_over stride_le rfl writes changed)

theorem putsReversed_iff : PutsReversed bytes forms ↔ ∀ i, i + 1 < bytes.length → forms i = .pre := by
  constructor
  · intro puts
    have run := puts (fun _ => .pre) [] (unlike bytes) [] unlike_length
    simp only [List.nil_append, List.append_nil] at run
    exact pre_of_writes (copyOut_iff.mp run)
  · intro pre own front old rear length
    exact copyOut_iff.mpr (output_writes bytes front rear pre length)

theorem getsReversed_iff : GetsReversed bytes forms ↔ ∀ i < bytes.length, forms i = .pre := by
  constructor
  · intro gets
    obtain ⟨fuel, run⟩ := gets (fun _ => .pre) [] [] [] bytes [] rfl
    exact (copyIn_ends rfl (by simpa using run)).1
  · intro pre own before behind front old rear length
    exact ⟨_, copy_of_reads (input_reads bytes before behind pre)
      (vector_writes own _ front rear (by rw [length, List.length_map]))⟩

theorem restores_of_pre (pre : ∀ i, i + 1 < bytes.length → forms i = .pre)
    (pre' : ∀ i < bytes.length, forms' i = .pre) : Restores bytes forms forms' := by
  intro own own' before room behind front old rear length length'
  obtain ⟨fuel, out⟩ : ∃ fuel, copyOut own forms fuel bytes before.length
      (before ++ room ++ behind) = .ok (some (before ++ bytes.map reverseBits ++ behind)) :=
    copyOut_iff.mpr (output_writes bytes before behind pre length)
  have reversed : (bytes.map reverseBits).length = bytes.length := List.length_map _
  have reads := input_reads (bytes.map reverseBits) before behind
    (fun i low => pre' i (by rwa [reversed] at low))
  rw [map_reversed, reversed] at reads
  exact ⟨fuel, _, _, out, copy_of_reads reads (vector_writes own' bytes front rear length')⟩

theorem pre_of_restores (restores : Restores bytes forms forms') :
    (∀ i, i + 1 < bytes.length → forms i = .pre) ∧ ∀ i < bytes.length, forms' i = .pre := by
  obtain ⟨fuel, fuel', buffer, out, back⟩ := restores (fun _ => .pre) (fun _ => .pre) []
    (unlike bytes) [] [] bytes [] unlike_length rfl
  simp only [List.nil_append, List.append_nil] at out back
  have writes := copyOut_iff.mp ⟨fuel, out⟩
  obtain ⟨pre', _, reads⟩ := copyIn_ends rfl back
  have length : buffer.length = bytes.length :=
    (writeAll_length output_over writes).trans unlike_length
  have all := input_reads buffer [] [] (fun i low => pre' i (length ▸ low))
  rw [length, List.nil_append, List.append_nil] at all
  have same : bytes = buffer.map reverseBits := reads.unique all
  have stored : buffer = bytes.map reverseBits := by rw [same, map_reversed]
  rw [stored] at writes
  exact ⟨pre_of_writes writes, pre'⟩

theorem passesThrough_of_pre (pre : ∀ i, i + 1 < bytes.length → forms i = .pre)
    (pre' : ∀ i < bytes.length, forms' i = .pre) : PassesThrough bytes forms forms' := by
  intro before behind front old rear length
  have reversed : (bytes.map reverseBits).length = bytes.length := List.length_map _
  have writes := output_writes (bytes.map reverseBits) front rear
    (fun i low => pre i (by rwa [reversed] at low)) (length.trans reversed.symm)
  rw [map_reversed] at writes
  exact ⟨_, copy_of_reads (input_reads bytes before behind pre') writes⟩

/-- Bytes are stored in order exactly when every step of the output iterator but the last
is an `++it`, and read in order exactly when every step of the input iterator is one. -/
theorem advanced_iff (bytes : List Byte) (forms forms' : Nat → Increment) :
    (PutsReversed bytes forms ↔ ∀ i, i + 1 < bytes.length → forms i = .pre) ∧
    (GetsReversed bytes forms' ↔ ∀ i < bytes.length, forms' i = .pre) ∧
    (Restores bytes forms forms' ∧ PassesThrough bytes forms forms' ↔
      (∀ i, i + 1 < bytes.length → forms i = .pre) ∧ ∀ i < bytes.length, forms' i = .pre) :=
  ⟨putsReversed_iff, getsReversed_iff, fun both => pre_of_restores both.1,
    fun pre => ⟨restores_of_pre pre.1 pre.2, passesThrough_of_pre pre.1 pre.2⟩⟩

/-- By `*it++ = b`, a second byte is stored over the first one; by `b = *it++`, a copy reads
the first byte until the target is full. -/
theorem not_advanced :
    copyOut (fun _ => .pre) (fun _ => .post) 3 [0x01, 0x03] 0 [0, 0] = .ok (some [0xC0, 0]) ∧
    ¬ PutsReversed [0x01, 0x03] (fun _ => .post) ∧
    copyIn (fun _ => .post) (fun _ => .pre) 3 [0x01, 0x03] 0 2 0 [0, 0] = .error .overrun ∧
    (∀ fuel target, copyIn (fun _ => .post) (fun _ => .pre) fuel [0x01, 0x03] 0 2 0 [0, 0] ≠
      .ok (some target)) ∧
    ¬ GetsReversed [0x01, 0x03] (fun _ => .post) ∧
    ¬ Restores [0x01, 0x03] (fun _ => .post) (fun _ => .post) := by
  refine ⟨by decide +kernel, ?_, by decide +kernel, fun fuel target run => ?_, ?_, ?_⟩
  · intro puts
    cases putsReversed_iff.mp puts 0 (by decide)
  · cases (copyIn_ends (n := 2) rfl run).1 0 (by decide)
  · intro gets
    cases getsReversed_iff.mp gets 0 (by decide)
  · intro restores
    cases (pre_of_restores restores).2 0 (by decide)

theorem writeAll_outputBlocks (blocks : List Byte) (i : Nat) (front buffer : List Byte) :
    BitSetOutputIterator.output.writeAll (fun _ => .pre) i ⟨front.length⟩ blocks (front ++ buffer) =
      (outputBlocks blocks buffer).map (fun rest => front ++ rest) := by
  induction blocks generalizing i front buffer with
  | nil => rfl
  | cons block blocks ih =>
    cases buffer with
    | nil =>
      have full : store Exception.overrun (front.length : Int) (reverseBits block) (front ++ []) =
          .error .overrun := by
        unfold store
        rw [Int.mem_toNat?.mpr rfl]
        simp
      rw [Output.writeAll, output_over.assign, full]
      rfl
    | cons old buffer =>
      have rest := ih (i + 1) (front ++ [reverseBits block]) buffer
      rw [List.append_assoc, List.singleton_append, List.length_append, List.length_singleton] at rest
      rw [Output.writeAll, output_over.assign, store_append]
      refine rest.trans ?_
      rw [outputBlocks]
      cases outputBlocks blocks buffer with
      | error e => rfl
      | ok written => simp [Except.map]

theorem copyOut_outputBlocks (blocks buffer buffer' : List Byte) :
    (∃ fuel, copyOut (fun _ => .pre) (fun _ => .pre) fuel blocks 0 buffer = .ok (some buffer')) ↔
      outputBlocks blocks buffer = .ok buffer' := by
  have writes := writeAll_outputBlocks blocks 0 [] buffer
  rw [copyOut_iff]
  change Output.writeAll _ _ _ _ _ _ = _ ↔ _
  rw [List.nil_append] at writes
  refine (iff_of_eq (congrArg (· = Except.ok buffer') writes)).trans ?_
  cases outputBlocks blocks buffer with
  | error e => simp [Except.map]
  | ok written => simp [Except.map]

theorem copyIn_inputBlocks {buffer blocks : List Byte} (size : blocks.length = buffer.length) :
    ∃ fuel, copyIn (fun _ => .pre) (fun _ => .pre) fuel buffer 0 buffer.length 0 blocks =
      .ok (some (inputBlocks buffer)) := by
  have gets : GetsReversed buffer (fun _ => .pre) := getsReversed_iff.mpr (fun _ _ => rfl)
  have run := gets (fun _ => .pre) [] [] [] blocks [] size
  simpa [inputBlocks] using run

end Copies

end BitSetIterator
end MisFITS
