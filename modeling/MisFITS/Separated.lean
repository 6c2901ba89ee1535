import Mathlib.Data.List.Basic

/-! Lists of items between separators: each item is written without the
separator, and read from what stands between two of them. -/
namespace Separated

variable {α β : Type} (sep : β)

def encode (write : α → List β) (items : List α) : List β := [sep].intercalate (items.map write)

def decode [DecidableEq β] (read : List β → Option α) (text : List β) : Option (List α) :=
  (text.splitOn sep).mapM read

variable {sep} {write : α → List β} {read : List β → Option α} {items more : List α} {item : α}

@[simp] theorem encode_singleton : encode sep write [item] = write item := by simp [encode]

theorem encode_cons (nonempty : items ≠ []) :
    encode sep write (item :: items) = write item ++ sep :: encode sep write items := by
  unfold encode
  rw [List.map_cons, List.intercalate_cons_of_ne_nil (by simpa using nonempty)]
  simp

theorem mapM_written (inverse : ∀ item ∈ items, read (write item) = some item) :
    (items.map write).mapM read = some items := by
  induction items with
  | nil => rfl
  | cons item items ih =>
    rw [List.map_cons, List.mapM_cons, inverse item List.mem_cons_self,
      ih (fun item member => inverse item (List.mem_cons_of_mem _ member))]
    rfl

/-- What is written is read back, unless there was nothing to write. -/
theorem decode_encode [DecidableEq β] (apart : ∀ item ∈ items, sep ∉ write item)
    (inverse : ∀ item ∈ items, read (write item) = some item) (nonempty : items ≠ []) :
    decode sep read (encode sep write items) = some items := by
  unfold decode encode
  have parts : ∀ part ∈ items.map write, sep ∉ part := by
    intro part member
    obtain ⟨item, inside, rfl⟩ := List.mem_map.mp member
    exact apart item inside
  rw [List.splitOn_intercalate sep parts (by simpa using nonempty), mapM_written inverse]

end Separated
