import MisFITS.CString
import MisFITS.Cfitsio
import MisFITS.Program

/-! The text of `Exception::CFITSIO`, after `exception.cc`: that of the status and the
messages on the error stack, put together in an array of the exception. -/
namespace MisFITS
open Program CString

/-- The calls that tell what has failed, with the messages of a stack, the oldest first. -/
structure ErrorCalls (σ : Type) where
  getErrstatus : Status → List Byte
  readErrmsg : σ → Int × List Byte × σ
  messages : σ → List (List Byte)

structure ErrorCalls.Documented {σ : Type} (calls : ErrorCalls σ) : Prop where
  errstatus : ∀ status, (calls.getErrstatus status).length ≤ 30 ∧ 0 ∉ calls.getErrstatus status
  few : ∀ stack, (calls.messages stack).length ≤ 25
  message : ∀ stack, ∀ m ∈ calls.messages stack, 1 ≤ m.length ∧ m.length ≤ 80 ∧ 0 ∉ m
  oldest : ∀ {stack m ms}, calls.messages stack = m :: ms →
    ∃ more stack', calls.readErrmsg stack = (more, m, stack') ∧ more ≠ 0 ∧
      calls.messages stack' = ms
  empty : ∀ {stack}, calls.messages stack = [] →
    ∃ stack', calls.readErrmsg stack = (0, [], stack') ∧ calls.messages stack' = []

structure ErrorText (σ : Type) where
  error : List Byte
  stack : σ

namespace ErrorText

variable {σ : Type}

def size : Nat := 26 * 82

abbrev TextM (σ : Type) := EStateM Exception (ErrorText σ)

def store (call : List Byte → Option (List Byte)) : TextM σ Unit := fun s =>
  match call s.error with
  | some error => .ok () { s with error }
  | none => .error .overrun s

def lengthAt (ptr : Nat) : TextM σ Nat := fun s =>
  match strlen 0 s.error ptr with
  | some n => .ok n s
  | none => .error .overrun s

/-- `*ptr = '\n'; *(++ptr) = '\0';` -/
def newline (ptr : Nat) : TextM σ Nat := do
  store (put · ptr 10)
  store (put · (ptr + 1) 0)
  return ptr + 1

variable (calls : ErrorCalls σ)

def readErrmsg (ptr : Nat) : TextM σ Int := fun s =>
  let (more, text, stack) := calls.readErrmsg s.stack
  (do
    store (strcpy 0 · ptr text)
    return more) { s with stack }

/-- The body of the loop: where it leaves the pointer, and whether there is more. -/
def readMessage (ptr : Nat) : TextM σ (Nat × Bool) := do
  let more ← readErrmsg calls ptr
  let ptr := ptr + (← lengthAt ptr)
  return (← newline ptr, more ≠ 0)

def readMessages : Nat → Nat → TextM σ Bool
  | 0, _ => return false
  | fuel + 1, ptr => do
    let (ptr, more) ← readMessage calls ptr
    if more then readMessages fuel ptr else return true

def new (status : Status) (fuel : Nat) : TextM σ Bool := do
  store (strcpy 0 · 0 (calls.getErrstatus status))
  let ptr ← lengthAt 0
  let ptr := ptr + (← lengthAt ptr)
  let ptr ← newline ptr
  readMessages calls fuel ptr

def what (s : ErrorText σ) : List Byte := content 0 s.error

def lines (ms : List (List Byte)) : List Byte := ms.flatMap (· ++ [10])

variable {calls} {s s' : ErrorText σ} {text m : List Byte} {ms : List (List Byte)} {n : Nat}

theorem store_of_some {call : List Byte → Option (List Byte)} {error : List Byte}
    (stored : call s.error = some error) : store call s = .ok () { s with error } := by
  unfold store
  rw [stored]

theorem lengthAt_of_some {ptr : Nat} (length : strlen 0 s.error ptr = some n) :
    lengthAt ptr s = .ok n s := by
  unfold lengthAt
  rw [length]

theorem newline_ok (holds : Holds 0 s.error text n) (room : text.length + 1 < n) :
    ∃ error, newline text.length s = .ok (text.length + 1) { s with error } ∧
      Holds 0 error (text ++ [10]) n := by
  obtain ⟨first, error, line, zero, ends⟩ := holds.put (c := 10) (by decide) room
  refine ⟨error, bind_ok.mpr ⟨(), _, store_of_some line, bind_ok.mpr ⟨(), _, ?_, rfl⟩⟩, ends⟩
  exact store_of_some (s := { s with error := first }) zero

/-- One round appends the message that was read, on a line of its own. -/
theorem readMessage_ok (holds : Holds 0 s.error text n) {more : Int} {stack : σ}
    (reads : calls.readErrmsg s.stack = (more, m, stack)) (plain : 0 ∉ m)
    (room : text.length + m.length + 1 < n) :
    ∃ error, readMessage calls text.length s =
        .ok ((text ++ m ++ [10]).length, decide (more ≠ 0)) { error, stack } ∧
      Holds 0 error (text ++ m ++ [10]) n := by
  obtain ⟨copied, copies, held, length⟩ := holds.strcpy plain (by omega)
  obtain ⟨error, line, ends⟩ := newline_ok (s := { error := copied, stack }) held
    (by rw [List.length_append]; exact room)
  have read : readErrmsg calls text.length s = .ok more { error := copied, stack } := by
    unfold readErrmsg
    rw [reads]
    exact bind_ok.mpr ⟨(), _, store_of_some (s := { s with stack }) copies, rfl⟩
  refine ⟨error, bind_ok.mpr ⟨more, _, read, bind_ok.mpr ⟨m.length, _,
    lengthAt_of_some length, ?_⟩⟩, ends⟩
  rw [List.length_append] at line
  rw [@List.length_append _ (text ++ m) [10], List.length_append]
  exact bind_ok.mpr ⟨_, _, line, rfl⟩

theorem lines_cons : lines (m :: ms) = m ++ [10] ++ lines ms := rfl

/-- The loop goes on while there are messages, and appends one empty line. -/
theorem readMessages_ok (doc : calls.Documented) (left : calls.messages s.stack = ms)
    (holds : Holds 0 s.error text n) (room : text.length + (lines ms).length + 1 < n) {fuel : Nat}
    (enough : ms.length < fuel) :
    ∃ s', readMessages calls fuel text.length s = .ok true s' ∧
      Holds 0 s'.error (text ++ lines ms ++ [10]) n ∧ calls.messages s'.stack = [] := by
  induction ms generalizing s text fuel with
  | nil =>
    obtain ⟨stack, reads, nothing⟩ := doc.empty left
    obtain ⟨error, pass, held⟩ := readMessage_ok holds reads (by simp) room
    cases fuel with
    | zero => cases enough
    | succ fuel => exact ⟨⟨error, stack⟩, bind_ok.mpr ⟨_, _, pass, rfl⟩, held, nothing⟩
  | cons m ms ih =>
    obtain ⟨more, stack, reads, again, rest⟩ := doc.oldest left
    have plain := (doc.message s.stack m (left ▸ List.mem_cons_self)).2.2
    rw [lines_cons, List.length_append, List.length_append, List.length_singleton] at room
    obtain ⟨error, pass, held⟩ := readMessage_ok holds reads plain (by omega)
    cases fuel with
    | zero => cases enough
    | succ fuel =>
      obtain ⟨s', loop, ends, nothing⟩ := ih (s := ⟨error, stack⟩) rest held
        (by simp only [List.length_append, List.length_singleton]; omega)
        (Nat.lt_of_succ_lt_succ enough)
      refine ⟨s', bind_ok.mpr ⟨_, _, pass, ?_⟩, ?_, nothing⟩
      · rw [decide_eq_true again]
        exact loop
      · rw [lines_cons]
        simpa only [List.append_assoc] using ends

theorem lines_length (short : ∀ m ∈ ms, m.length ≤ 80) : (lines ms).length ≤ 81 * ms.length := by
  induction ms with
  | nil => exact Nat.le_refl _
  | cons m ms ih =>
    have first := short m List.mem_cons_self
    have rest := ih (fun m' member => short m' (List.mem_cons_of_mem m member))
    rw [lines_cons, List.length_append, List.length_append, List.length_singleton, List.length_cons]
    omega

/-- The array holds the text of the status and all the messages of the stack, each on a
line of its own, and an empty line. -/
theorem what_eq (doc : calls.Documented) (status : Status) {error : List Byte}
    (all : error.length = size) (stack : σ) {fuel : Nat}
    (enough : (calls.messages stack).length < fuel) :
    ∃ s', new calls status fuel { error, stack } = .ok true s' ∧ s'.error.length = size ∧
      s'.error[(what s').length]? = some 0 ∧
      what s' = calls.getErrstatus status ++ [10] ++ lines (calls.messages stack) ++ [10] ∧
      calls.messages s'.stack = [] := by
  obtain ⟨short, plain⟩ := doc.errstatus status
  have bound := lines_length (fun m member => (doc.message stack m member).2.1)
  have few := doc.few stack
  have space : size = 2132 := rfl
  obtain ⟨copied, copies, held, length⟩ := holds_strcpy plain (by rw [all]; omega)
  rw [all] at held
  obtain ⟨first, line, ended⟩ := newline_ok (s := { error := copied, stack }) held (by omega)
  obtain ⟨s', loop, ends, nothing⟩ := readMessages_ok (s := { error := first, stack }) doc rfl ended
    (by rw [List.length_append, List.length_singleton]; dsimp only; omega) enough
  refine ⟨s', ?_, ends.size, ?_, ends.content_eq, nothing⟩
  · refine bind_ok.mpr ⟨(), _, store_of_some (s := { error, stack }) copies, ?_⟩
    refine bind_ok.mpr ⟨_, _, lengthAt_of_some length, ?_⟩
    refine bind_ok.mpr ⟨_, _, lengthAt_of_some held.strlen_end, ?_⟩
    refine bind_ok.mpr ⟨_, _, line, ?_⟩
    rw [List.length_append] at loop
    exact loop
  · unfold what
    rw [ends.content_eq]
    exact ends.inside.2

def Stack : Type :=
  { ms : List (List Byte) //
    ms.length ≤ 25 ∧ ∀ m ∈ ms, 1 ≤ m.length ∧ m.length ≤ 80 ∧ (0 : Byte) ∉ m }

def stackCalls : ErrorCalls Stack where
  getErrstatus _ := [0x65, 0x72, 0x72]
  readErrmsg
    | ⟨[], few⟩ => (0, [], ⟨[], few⟩)
    | ⟨m :: ms, few, each⟩ =>
      ((m.headD 0).toInt, m, ⟨ms, Nat.le_of_succ_le few,
        fun m' member => each m' (List.mem_cons_of_mem m member)⟩)
  messages stack := stack.val

theorem stackCalls_documented : stackCalls.Documented where
  errstatus _ := ⟨(by decide : 3 ≤ 30), (by decide : (0 : Byte) ∉ [0x65, 0x72, 0x72])⟩
  few stack := stack.property.1
  message stack := stack.property.2
  oldest := by
    rintro ⟨ms, few, each⟩ m rest rfl
    refine ⟨_, _, rfl, fun zero => ?_, rfl⟩
    obtain ⟨nonempty, _, plain⟩ := each m List.mem_cons_self
    obtain ⟨c, m, rfl⟩ := List.exists_cons_of_length_pos nonempty
    exact plain (List.mem_cons.mpr (Or.inl (BitVec.eq_of_toInt_eq zero.symm)))
  empty := by
    rintro ⟨ms, few⟩ rfl
    exact ⟨_, rfl, rfl⟩

def twoMessages : Stack := ⟨[[0x61], [0x62, 0x63]], by decide⟩

theorem what_eq_two : ∃ s', new stackCalls (.other 104) 3
      { error := List.replicate size 0x7f, stack := twoMessages } = .ok true s' ∧
    s'.error.length = size ∧ s'.error[(what s').length]? = some 0 ∧
    what s' = [0x65, 0x72, 0x72, 10, 0x61, 10, 0x62, 0x63, 10, 10] ∧
    stackCalls.messages s'.stack = [] :=
  what_eq stackCalls_documented (.other 104) List.length_replicate twoMessages (by decide)

end ErrorText
end MisFITS
