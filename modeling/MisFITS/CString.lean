import Mathlib.Data.List.TakeWhile

/-! Strings in a buffer, each with a NUL behind its last character. A call that
would leave the buffer has no result. -/
namespace CString

variable {α : Type}

def put (buffer : List α) (i : Nat) (c : α) : Option (List α) :=
  if i < buffer.length then some (buffer.set i c) else none

variable {pre text more post buffer : List α} {nul c c' : α} {size : Nat}

theorem put_ok (pre post : List α) : put (pre ++ c' :: post) pre.length c = some (pre ++ c :: post) := by
  unfold put
  rw [if_pos (by simp), List.set_append_right _ _ (Nat.le_refl _), Nat.sub_self, List.set_cons_zero]

def strcpy (nul : α) (buffer : List α) (i : Nat) : List α → Option (List α)
  | [] => put buffer i nul
  | c :: text => do strcpy nul (← put buffer i c) (i + 1) text

theorem strcpy_ok (nul : α) (pre : List α) (room : text.length < post.length) :
    strcpy nul (pre ++ post) pre.length text =
      some (pre ++ text ++ nul :: post.drop (text.length + 1)) := by
  induction text generalizing pre post with
  | nil =>
    obtain ⟨c, post, rfl⟩ := List.exists_cons_of_length_pos room
    rw [strcpy, put_ok]
    simp
  | cons c text ih =>
    obtain ⟨c', post, rfl⟩ := List.exists_cons_of_length_pos (Nat.zero_lt_of_lt room)
    have rest := @ih post (pre ++ [c]) (by simpa using room)
    rw [List.length_append, List.append_assoc, List.singleton_append] at rest
    rw [strcpy, put_ok]
    simpa using rest

structure Holds (nul : α) (buffer text : List α) (size : Nat) : Prop where
  plain : nul ∉ text
  ends : ∃ post, buffer = text ++ nul :: post
  size : buffer.length = size

theorem Holds.inside (holds : Holds nul buffer text size) :
    text.length < size ∧ buffer[text.length]? = some nul := by
  obtain ⟨post, rfl⟩ := holds.ends
  rw [← holds.size]
  simp

theorem Holds.put (holds : Holds nul buffer text size) (plain : c ≠ nul)
    (room : text.length + 1 < size) :
    ∃ buffer' buffer'', put buffer text.length c = some buffer' ∧
      put buffer' (text.length + 1) nul = some buffer'' ∧ Holds nul buffer'' (text ++ [c]) size := by
  obtain ⟨post, rfl⟩ := holds.ends
  have size := holds.size
  rw [List.length_append, List.length_cons] at size
  obtain ⟨c', post, rfl⟩ := List.exists_cons_of_length_pos (l := post) (by omega)
  have next : put (text ++ [c] ++ c' :: post) (text ++ [c]).length nul =
      some (text ++ [c] ++ nul :: post) :=
    put_ok (text ++ [c]) post
  rw [List.append_assoc, List.singleton_append, List.length_append, List.length_singleton] at next
  refine ⟨_, _, put_ok text _, next, ⟨?_, ⟨post, ?_⟩, ?_⟩⟩
  · simpa using ⟨holds.plain, plain.symm⟩
  · rw [List.append_assoc, List.singleton_append]
  · simp only [List.length_append, List.length_cons, List.length_nil] at size ⊢
    omega

theorem ne_nul_of_plain (plain : nul ∉ text) (member : c ∈ text) : c ≠ nul :=
  fun same => plain (same ▸ member)

variable [DecidableEq α]

def strlen (nul : α) (buffer : List α) (i : Nat) : Option Nat := (buffer.drop i).findIdx? (· = nul)

def content (nul : α) (buffer : List α) : List α := buffer.takeWhile (· ≠ nul)

theorem strlen_ok (pre : List α) (plain : nul ∉ text) :
    strlen nul (pre ++ text ++ nul :: post) pre.length = some text.length := by
  have absent : text.findIdx? (· = nul) = none :=
    List.findIdx?_eq_none_iff.mpr
      (fun c member => decide_eq_false (ne_nul_of_plain plain member))
  unfold strlen
  rw [List.append_assoc, List.drop_left, List.findIdx?_append, absent, List.findIdx?_cons]
  simp

theorem Holds.content_eq (holds : Holds nul buffer text size) : content nul buffer = text := by
  obtain ⟨post, rfl⟩ := holds.ends
  unfold content
  rw [List.takeWhile_append_of_pos, List.takeWhile_cons_of_neg (by simp), List.append_nil]
  exact fun c member => decide_eq_true (ne_nul_of_plain holds.plain member)

theorem Holds.strlen_end (holds : Holds nul buffer text size) : strlen nul buffer text.length = some 0 := by
  obtain ⟨post, rfl⟩ := holds.ends
  have ok : strlen nul (text ++ [] ++ nul :: post) text.length = some 0 := strlen_ok text (by simp)
  rwa [List.append_nil] at ok

theorem holds_strcpy (plain : nul ∉ text) (room : text.length < buffer.length) :
    ∃ buffer', strcpy nul buffer 0 text = some buffer' ∧ Holds nul buffer' text buffer.length ∧
      strlen nul buffer' 0 = some text.length := by
  have copied := strcpy_ok nul [] room
  refine ⟨_, copied, ⟨plain, ⟨_, rfl⟩, ?_⟩, strlen_ok [] plain⟩
  simp
  omega

theorem Holds.strcpy (holds : Holds nul buffer text size) (plain : nul ∉ more)
    (room : text.length + more.length < size) :
    ∃ buffer', strcpy nul buffer text.length more = some buffer' ∧
      Holds nul buffer' (text ++ more) size ∧ strlen nul buffer' text.length = some more.length := by
  obtain ⟨post, rfl⟩ := holds.ends
  have size := holds.size
  rw [List.length_append] at size
  have copied := strcpy_ok nul text (show more.length < (nul :: post).length by omega)
  refine ⟨_, copied, ⟨?_, ⟨_, rfl⟩, ?_⟩, strlen_ok text plain⟩
  · simpa using ⟨holds.plain, plain⟩
  · simp only [List.length_append, List.length_cons, List.length_drop] at size ⊢
    omega

end CString
