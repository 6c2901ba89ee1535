import MisFITS.Delivery

/-! Memory blocks, after `memblock.hpp` and `memblock.cc`. A block holds shared
pointers to its entries, and a copy of it points to the same ones. -/
namespace MisFITS
open Program HDU

/-- `void*` and `ptrdiff_t` -/
abbrev Address := BitVec 64

structure EntryBase where
  name : String
  offset : Address
  type : Target
  deriving DecidableEq

def EntryBase.shift (e : EntryBase) (offset : Address) : EntryBase :=
  { e with offset := e.offset + offset }

theorem EntryBase.shift_shift (e : EntryBase) (inner outer : Address) :
    (e.shift inner).shift outer = e.shift (outer + inner) := by
  unfold shift
  rw [BitVec.add_assoc, BitVec.add_comm inner]

structure MemBlock where
  base : Address
  entries : List Nat

/-- The blocks of a program, and what they point to: the entries are numbered in the
order in which they were made. -/
structure Blocks where
  made : Nat
  entry : Nat → EntryBase
  block : Nat → MemBlock

def Blocks.setBlock (s : Blocks) (b : Nat) (block : MemBlock) : Blocks :=
  { s with block := Function.update s.block b block }

def Blocks.setEntry (s : Blocks) (p : Nat) (e : EntryBase) : Blocks :=
  { s with entry := Function.update s.entry p e }

abbrev BlockM := EStateM Exception Blocks

namespace MemBlock

variable (b : Nat)

/-- The constructors; only a `MemBlockAddr` has a base. -/
def new (base : Address) : BlockM Unit := modify (·.setBlock b { base, entries := [] })

def copy (original : Nat) : BlockM Unit :=
  modify fun s => s.setBlock b (s.block original)

def makeShared (e : EntryBase) : BlockM Nat := fun s =>
  .ok s.made { s.setEntry s.made e with made := s.made + 1 }

def pushBack (p : Nat) : BlockM Unit :=
  modify fun s => s.setBlock b { s.block b with entries := (s.block b).entries ++ [p] }

def addOffset (name : String) (type : Target) (offset : Address) : BlockM Unit := do
  pushBack b (← makeShared { name, offset, type })

def addAddr (name : String) (type : Target) (addr : Address) : BlockM Unit := fun s =>
  addOffset b name type (addr - (s.block b).base) s

def clone (p : Nat) : BlockM Nat := fun s => makeShared (s.entry p) s

/-- The loop body of `MemBlock::add`. -/
def addEntry (offset : Address) (_ : Unit) (p : Nat) : BlockM Unit := do
  let newEntry ← clone p
  modify fun s => s.setEntry newEntry ((s.entry newEntry).shift offset)
  pushBack b newEntry

/-- `MemBlock::add`. A block that is added to itself is appended to while its
iterators are in use. -/
def add (offset : Address) (block : Nat) : BlockM Unit := fun s =>
  if b = block ∧ (s.block block).entries ≠ [] then .error .overrun s
  else (s.block block).entries.foldlM (addEntry b offset) () s

end MemBlock

namespace Blocks

variable {s : Blocks} {b b' p : Nat} {e : EntryBase} {es : List EntryBase}

def entries (s : Blocks) (b : Nat) : List EntryBase := (s.block b).entries.map s.entry

def Valid (s : Blocks) : Prop := ∀ b, ∀ p ∈ (s.block b).entries, p < s.made

def push (s : Blocks) (b : Nat) (e : EntryBase) : Blocks where
  made := s.made + 1
  entry := Function.update s.entry s.made e
  block := Function.update s.block b { s.block b with entries := (s.block b).entries ++ [s.made] }

def append (s : Blocks) (b : Nat) (es : List EntryBase) : Blocks := es.foldl (·.push b) s

theorem entry_push (old : p < s.made) : (s.push b e).entry p = s.entry p :=
  Function.update_of_ne (Nat.ne_of_lt old) ..

theorem entry_append (old : p < s.made) : (s.append b es).entry p = s.entry p := by
  induction es generalizing s with
  | nil => rfl
  | cons e es ih => exact (ih (Nat.lt_succ_of_lt old)).trans (entry_push old)

theorem valid_push (valid : s.Valid) : (s.push b e).Valid := by
  intro b' p member
  by_cases self : b' = b
  · subst self
    simp only [push, Function.update_self, List.mem_append, List.mem_singleton] at member
    rcases member with old | rfl
    · exact Nat.lt_succ_of_lt (valid b' p old)
    · exact Nat.lt_succ_self _
  · simp only [push, Function.update_of_ne self] at member
    exact Nat.lt_succ_of_lt (valid b' p member)

theorem entries_push_self (valid : s.Valid) : (s.push b e).entries b = s.entries b ++ [e] := by
  have old : (s.block b).entries.map (s.push b e).entry = s.entries b :=
    List.map_congr_left (fun p member => entry_push (valid b p member))
  have new : (s.push b e).entry s.made = e := Function.update_self ..
  have block : ((s.push b e).block b).entries = (s.block b).entries ++ [s.made] := by simp [push]
  rw [entries, block, List.map_append, old, List.map_singleton, new]

theorem entries_push_ne (valid : s.Valid) (other : b' ≠ b) :
    (s.push b e).entries b' = s.entries b' := by
  have block : (s.push b e).block b' = s.block b' := Function.update_of_ne other ..
  rw [entries, block]
  exact List.map_congr_left (fun p member => entry_push (valid b' p member))

theorem valid_append (valid : s.Valid) : (s.append b es).Valid := by
  induction es generalizing s with
  | nil => exact valid
  | cons e es ih => exact ih (valid_push valid)

theorem entries_append_self (valid : s.Valid) : (s.append b es).entries b = s.entries b ++ es := by
  induction es generalizing s with
  | nil => exact (List.append_nil _).symm
  | cons e es ih =>
    have rest := ih (valid_push (b := b) (e := e) valid)
    rw [entries_push_self valid, List.append_assoc] at rest
    exact rest

theorem entries_append_ne (valid : s.Valid) (other : b' ≠ b) :
    (s.append b es).entries b' = s.entries b' := by
  induction es generalizing s with
  | nil => rfl
  | cons e es ih => exact (ih (valid_push valid)).trans (entries_push_ne valid other)

structure Adds (b : Nat) (es : List EntryBase) (s s' : Blocks) : Prop where
  old : ∀ p < s.made, s'.entry p = s.entry p
  others : ∀ b', b' ≠ b → s'.entries b' = s.entries b'
  self : s'.entries b = s.entries b ++ es

theorem append_adds (valid : s.Valid) : Adds b es s (s.append b es) where
  old _ low := entry_append low
  others _ other := entries_append_ne valid other
  self := entries_append_self valid

end Blocks

namespace MemBlock

variable {s s' : Blocks} {b block : Nat} {offset : Address}

theorem addOffset_eq {name : String} {type : Target} :
    addOffset b name type offset s = .ok () (s.push b { name, offset, type }) := rfl

theorem addEntry_eq {p : Nat} {u : Unit} :
    addEntry b offset u p s = .ok () (s.push b ((s.entry p).shift offset)) := by
  change EStateM.Result.ok () _ = _
  simp [Blocks.push, Blocks.setEntry, Blocks.setBlock]

theorem addEntries_eq {ps : List Nat} (old : ∀ p ∈ ps, p < s.made) :
    ps.foldlM (addEntry b offset) () s =
      .ok () (s.append b (ps.map (fun p => (s.entry p).shift offset))) := by
  induction ps generalizing s with
  | nil => rfl
  | cons p ps ih =>
    have first := old p List.mem_cons_self
    have rest : ∀ q ∈ ps, q < s.made := fun q member => old q (List.mem_cons_of_mem p member)
    have same : ps.map (fun q => ((s.push b ((s.entry p).shift offset)).entry q).shift offset) =
        ps.map (fun q => (s.entry q).shift offset) :=
      List.map_congr_left (fun q member => by rw [Blocks.entry_push (rest q member)])
    rw [List.foldlM_cons, bind_of_ok addEntry_eq, ih (fun q member => Nat.lt_succ_of_lt (rest q member)),
      same]
    rfl

theorem add_eq (valid : s.Valid) (apart : b ≠ block ∨ s.entries block = []) :
    add b offset block s = .ok () (s.append b ((s.entries block).map (·.shift offset))) := by
  unfold add
  rw [if_neg, addEntries_eq (valid block), Blocks.entries, List.map_map]
  · rfl
  · rintro ⟨same, nonempty⟩
    rcases apart with other | empty
    · exact other same
    · exact nonempty (by simpa [Blocks.entries] using empty)

theorem add_adds (offset : Address) (valid : s.Valid) (apart : b ≠ block) :
    ∃ s', add b offset block s = .ok () s' ∧ s'.Valid ∧
      Blocks.Adds b ((s.entries block).map (·.shift offset)) s s' :=
  ⟨_, add_eq valid (Or.inl apart), Blocks.valid_append valid, Blocks.append_adds valid⟩

/-- How a block has been built, the last addition outermost. -/
inductive Tree where
  | nil
  | leaf (before : Tree) (name : String) (type : Target) (offset : Address)
  | nest (before : Tree) (offset : Address) (block : Tree)

/-- The leaves in the order of their addition, depth first, each at the sum of the
offsets on the path to it. -/
def leaves (start : Address) : Tree → List EntryBase
  | .nil => []
  | .leaf before name type offset =>
    leaves start before ++ [{ name, offset := start + offset, type }]
  | .nest before offset block => leaves start before ++ leaves (start + offset) block

theorem add_swap (a b c : Address) : a + b + c = a + c + b := by
  rw [BitVec.add_assoc, BitVec.add_comm b, ← BitVec.add_assoc]

theorem zero_offset (a : Address) : 0 + a = a := BitVec.zero_add a

theorem leaves_shift (tree : Tree) (start : Address) :
    (leaves start tree).map (·.shift offset) = leaves (start + offset) tree := by
  induction tree generalizing start with
  | nil => rfl
  | leaf before name type o ih =>
    rw [leaves, List.map_append, ih, List.map_singleton, EntryBase.shift, add_swap]
    rfl
  | nest before o block ih inner =>
    rw [leaves, List.map_append, ih, inner, add_swap]
    rfl

inductive Call where
  | new (b : Nat) (base : Address)
  | copy (b original : Nat)
  | addOffset (b : Nat) (name : String) (type : Target) (offset : Address)
  | addAddr (b : Nat) (name : String) (type : Target) (addr : Address)
  | add (b : Nat) (offset : Address) (block : Nat)

namespace Call

def run : Call → BlockM Unit
  | .new b base => MemBlock.new b base
  | .copy b original => MemBlock.copy b original
  | .addOffset b name type offset => MemBlock.addOffset b name type offset
  | .addAddr b name type addr => MemBlock.addAddr b name type addr
  | .add b offset block => MemBlock.add b offset block

def Apart : Call → Prop
  | .add b _ block => b ≠ block
  | _ => True

instance : DecidablePred Apart
  | .add b _ block => inferInstanceAs (Decidable (b ≠ block))
  | .new .. | .copy .. | .addOffset .. | .addAddr .. => isTrue trivial

def onTrees (trees : Nat → Address × Tree) : Call → Nat → Address × Tree
  | .new b base => Function.update trees b (base, .nil)
  | .copy b original => Function.update trees b (trees original)
  | .addOffset b name type offset =>
    Function.update trees b ((trees b).1, .leaf (trees b).2 name type offset)
  | .addAddr b name type addr =>
    Function.update trees b ((trees b).1, .leaf (trees b).2 name type (addr - (trees b).1))
  | .add b offset block =>
    Function.update trees b ((trees b).1, .nest (trees b).2 offset (trees block).2)

end Call

def runAll (calls : List Call) : BlockM Unit := calls.foldlM (fun _ c => c.run) ()

def noBlocks : Blocks where
  made := 0
  entry _ := ⟨"", 0, .string⟩
  block _ := ⟨0, []⟩

def noTrees (_ : Nat) : Address × Tree := (0, .nil)

/-- The entries of every block are the leaves of its tree. -/
structure Built (trees : Nat → Address × Tree) (s : Blocks) : Prop where
  valid : s.Valid
  base : ∀ b, (s.block b).base = (trees b).1
  entries : ∀ b, s.entries b = leaves 0 (trees b).2

section Built

variable {trees : Nat → Address × Tree}

theorem built_setBlock (built : Built trees s) {new : MemBlock} {tree : Address × Tree}
    (valid : ∀ p ∈ new.entries, p < s.made) (base : new.base = tree.1)
    (entries : new.entries.map s.entry = leaves 0 tree.2) :
    Built (Function.update trees b tree) (s.setBlock b new) := by
  have self : (s.setBlock b new).block b = new := Function.update_self ..
  have other : ∀ b', b' ≠ b → (s.setBlock b new).block b' = s.block b' :=
    fun b' ne => Function.update_of_ne ne ..
  refine ⟨fun b' => ?_, fun b' => ?_, fun b' => ?_⟩ <;> by_cases same : b' = b
  · subst same
    rw [self]
    exact valid
  · rw [other b' same]
    exact built.valid b'
  · subst same
    rw [self, Function.update_self]
    exact base
  · rw [other b' same, Function.update_of_ne same]
    exact built.base b'
  · subst same
    rw [Blocks.entries, self, Function.update_self]
    exact entries
  · rw [Blocks.entries, other b' same, Function.update_of_ne same]
    exact built.entries b'

theorem base_append {es : List EntryBase} {b' : Nat} :
    ((s.append b es).block b').base = (s.block b').base := by
  induction es generalizing s with
  | nil => rfl
  | cons e es ih =>
    refine (ih (s := s.push b e)).trans ?_
    by_cases self : b' = b
    · subst self
      simp [Blocks.push]
    · simp [Blocks.push, self]

theorem built_append (es : List EntryBase) (built : Built trees s) {tree : Tree}
    (entries : leaves 0 (trees b).2 ++ es = leaves 0 tree) :
    Built (Function.update trees b ((trees b).1, tree)) (s.append b es) := by
  refine ⟨Blocks.valid_append built.valid, fun b' => ?_, fun b' => ?_⟩ <;> by_cases same : b' = b
  · subst same
    rw [base_append, built.base, Function.update_self]
  · rw [base_append, built.base, Function.update_of_ne same]
  · subst same
    rw [Blocks.entries_append_self built.valid, built.entries, Function.update_self]
    exact entries
  · rw [Blocks.entries_append_ne built.valid same, built.entries, Function.update_of_ne same]

theorem built_call (built : Built trees s) {c : Call} (apart : c.Apart) :
    ∃ s', c.run s = .ok () s' ∧ Built (c.onTrees trees) s' := by
  cases c with
  | new b base => exact ⟨_, rfl, built_setBlock built (by simp) rfl rfl⟩
  | copy b original =>
    exact ⟨_, rfl, built_setBlock built (built.valid original) (built.base original)
      (built.entries original)⟩
  | addOffset b name type offset =>
    refine ⟨_, addOffset_eq, built_append [_] built ?_⟩
    rw [leaves, zero_offset]
  | addAddr b name type addr =>
    have place : addAddr b name type addr s = addOffset b name type (addr - (trees b).1) s := by
      rw [← built.base]
      rfl
    refine ⟨_, place.trans addOffset_eq, built_append [_] built ?_⟩
    rw [leaves, zero_offset]
  | add b offset block =>
    refine ⟨_, add_eq built.valid (Or.inl apart), built_append _ built ?_⟩
    rw [built.entries, leaves_shift, leaves]

/-- Whatever blocks have been built, of other blocks, they hold the leaves of their trees. -/
theorem built_run (built : Built trees s) {calls : List Call} (apart : ∀ c ∈ calls, c.Apart) :
    ∃ s', runAll calls s = .ok () s' ∧ Built (calls.foldl Call.onTrees trees) s' := by
  induction calls generalizing s trees with
  | nil => exact ⟨s, rfl, built⟩
  | cons c calls ih =>
    obtain ⟨s₁, first, held⟩ := built_call built (apart c List.mem_cons_self)
    obtain ⟨s', rest, done⟩ := ih held (fun c' member => apart c' (List.mem_cons_of_mem c member))
    exact ⟨s', bind_ok.mpr ⟨(), s₁, first, rest⟩, done⟩

theorem built_noBlocks : Built noTrees noBlocks where
  valid b p member := by simp [noBlocks] at member
  base _ := rfl
  entries _ := rfl

end Built

section Twice

variable {c d : Nat} (inner outer : Address)

theorem nest_twice (valid : s.Valid) (inside : c ≠ b) (beside : d ≠ c) :
    ∃ s', runAll [.add c inner b, .add d outer c] s = .ok () s' ∧
      s'.entries d = s.entries d ++ (s.entries c).map (·.shift outer) ++
        (s.entries b).map (·.shift (outer + inner)) := by
  obtain ⟨s₁, first, valid₁, adds₁⟩ := add_adds inner valid inside
  obtain ⟨s', second, _, adds⟩ := add_adds outer valid₁ beside
  refine ⟨s', bind_ok.mpr ⟨(), s₁, first, bind_ok.mpr ⟨(), s', second, rfl⟩⟩, ?_⟩
  have shifts : ((s.entries b).map (·.shift inner)).map (·.shift outer) =
      (s.entries b).map (·.shift (outer + inner)) := by
    rw [List.map_map]
    exact List.map_congr_left (fun e _ => e.shift_shift inner outer)
  rw [adds.self, adds₁.others d beside, adds₁.self, List.map_append, shifts, List.append_assoc]

theorem nest_beside (valid : s.Valid) (beside : d ≠ c) (apart : d ≠ b) :
    ∃ s', runAll [.add d outer c, .add d (outer + inner) b] s = .ok () s' ∧
      s'.entries d = s.entries d ++ (s.entries c).map (·.shift outer) ++
        (s.entries b).map (·.shift (outer + inner)) := by
  obtain ⟨s₁, first, valid₁, adds₁⟩ := add_adds outer valid beside
  obtain ⟨s', second, _, adds⟩ := add_adds (outer + inner) valid₁ apart
  refine ⟨s', bind_ok.mpr ⟨(), s₁, first, bind_ok.mpr ⟨(), s', second, rfl⟩⟩, ?_⟩
  rw [adds.self, adds₁.self, adds₁.others b apart.symm]

theorem new_blank (valid : s.Valid) (base : Address) :
    ∃ s', new c base s = .ok () s' ∧ s'.Valid ∧ s'.entries c = [] ∧
      ∀ b, b ≠ c → s'.entries b = s.entries b := by
  refine ⟨_, rfl, fun b p member => ?_, ?_, fun b other => ?_⟩
  · by_cases same : b = c
    · subst same
      simp [Blocks.setBlock] at member
    · simp only [Blocks.setBlock, Function.update_of_ne same] at member
      exact valid b p member
  · simp [Blocks.entries, Blocks.setBlock]
  · simp only [Blocks.entries, Blocks.setBlock, Function.update_of_ne other]

end Twice

end MemBlock
end MisFITS
