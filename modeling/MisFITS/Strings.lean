import MisFITS.RawBytes
import MisFITS.RowEntry

/-! String columns: the slots of a cell, what bindings write into them, and what
they read back. -/
namespace MisFITS.RowEntry
open ColumnType Program HDU Slices

section Terminated

variable {s t : List Byte} {w : Nat}

theorem terminated_cons {b : Byte} (other : b ≠ 0) : terminated (b :: s) = b :: terminated s :=
  List.takeWhile_cons_of_pos (decide_eq_true other)

theorem terminated_zero : terminated (0 :: s) = [] := by
  simp [terminated]

theorem terminated_append (plain : 0 ∉ s) : terminated (s ++ t) = s ++ terminated t := by
  induction s with
  | nil => rfl
  | cons b s ih =>
    rw [List.mem_cons, not_or] at plain
    rw [List.cons_append, terminated_cons (Ne.symm plain.1), ih plain.2, List.cons_append]

theorem terminated_of_not_mem (plain : 0 ∉ s) : terminated s = s := by
  simpa [terminated] using terminated_append (t := []) plain

theorem terminated_append_of_mem (ends : 0 ∈ s) : terminated (s ++ t) = terminated s := by
  induction s with
  | nil => cases ends
  | cons b s ih =>
    by_cases zero : b = 0
    · rw [zero, List.cons_append, terminated_zero, terminated_zero]
    · have later : 0 ∈ s := (List.mem_cons.mp ends).resolve_left (fun same => zero same.symm)
      rw [List.cons_append, terminated_cons zero, terminated_cons zero, ih later]

theorem terminated_front : terminated s <+: s := List.takeWhile_prefix _

theorem not_mem_terminated : 0 ∉ terminated s := by
  induction s with
  | nil => simp [terminated]
  | cons b s ih =>
    by_cases zero : b = 0
    · rw [zero, terminated_zero]
      exact List.not_mem_nil
    · rw [terminated_cons zero, List.mem_cons, not_or]
      exact ⟨Ne.symm zero, ih⟩

theorem terminated_longest {p : List Byte} (before : p <+: s) (plain : 0 ∉ p) :
    p.length ≤ (terminated s).length := by
  obtain ⟨rest, rfl⟩ := before
  rw [terminated_append plain, List.length_append]
  omega

theorem terminated_length_le : (terminated s).length ≤ s.length := terminated_front.length_le

/-- A string as it stands in a slot of `w` bytes: terminated if there is room for it. -/
def padded (w : Nat) (s : List Byte) : List Byte :=
  if s.length < w then s ++ 0 :: List.replicate (w - s.length - 1) 0x20 else s.take w

theorem padded_length : (padded w s).length = w := by
  unfold padded
  split
  · simp only [List.length_append, List.length_cons, List.length_replicate]
    omega
  · rw [List.length_take]
    omega

theorem terminated_padded : terminated (padded w s) = terminated (s.take w) := by
  unfold padded
  split
  · rename_i short
    rw [List.take_of_length_le (by omega), List.append_cons, terminated_append_of_mem (by simp)]
    by_cases ends : 0 ∈ s
    · exact terminated_append_of_mem ends
    · rw [terminated_append ends, terminated_of_not_mem ends, terminated_zero, List.append_nil]
  · rfl

theorem terminated_take (plain : 0 ∉ s) (short : s.length ≤ w) : terminated (s.take w) = s := by
  rw [List.take_of_length_le short, terminated_of_not_mem plain]

/-- What comes out of a slot stays as it is when it goes through a slot again. -/
theorem terminated_again : terminated ((terminated (s.take w)).take w) = terminated (s.take w) := by
  have short := (terminated_length_le (s := s.take w)).trans (List.length_take_le w s)
  exact terminated_take not_mem_terminated short

end Terminated

namespace StringColumnVector

section Loops

variable {w m n : Nat} {strings : List (List Byte)} {cell : List Byte}

theorem split_eq (room : w * m ≤ cell.length) :
    split w m cell = .ok ((List.range m).map (fun i => terminated (slice (i * w) w cell))) := by
  induction m generalizing cell with
  | zero => rfl
  | succ m ih =>
    rw [Nat.mul_succ] at room
    rw [split, if_neg (by omega), ih (by rw [List.length_drop]; omega), List.range_succ_eq_map]
    simp [Except.map, slice, Nat.succ_mul, Nat.add_comm]

theorem fill_padded (s : List Byte) (room : w ≤ n) :
    fill (if s.length < w then s ++ [0] else s.take w) (List.replicate n 0x20) =
      .ok (padded w s ++ List.replicate (n - w) 0x20) := by
  unfold padded
  split
  · rename_i short
    have fits : (s ++ [(0 : Byte)]).length ≤ (List.replicate n (0x20 : Byte)).length := by
      rw [List.length_append, List.length_replicate, List.length_singleton]
      omega
    have blanks : n - (s ++ [(0 : Byte)]).length = w - s.length - 1 + (n - w) := by
      rw [List.length_append, List.length_singleton]
      omega
    rw [fill_ok fits, List.drop_replicate, blanks]
    simp only [List.append_assoc, List.cons_append, List.nil_append,
      List.replicate_append_replicate]
  · have whole : (s.take w).length = w := by
      rw [List.length_take]
      omega
    rw [fill_ok (by rw [whole, List.length_replicate]; exact room), List.drop_replicate, whole]

theorem join_eq (room : w * strings.length ≤ n) :
    join w strings (List.replicate n 0x20) =
      .ok ((strings.map (padded w)).flatten ++ List.replicate (n - w * strings.length) 0x20) := by
  induction strings generalizing n with
  | nil => simp [join]
  | cons s strings ih =>
    rw [List.length_cons, Nat.mul_succ] at room
    have rest := ih (n := n - w) (by omega)
    have behind : n - w - w * strings.length = n - w * (strings.length + 1) := by
      rw [Nat.mul_succ]
      omega
    rw [join, fill_padded s (by omega)]
    change (join w strings ((padded w s ++ List.replicate (n - w) 0x20).drop w)).map _ = _
    rw [List.take_left' padded_length, List.drop_left' padded_length, rest]
    simp only [Except.map, List.map_cons, List.flatten_cons, List.append_assoc, List.length_cons,
      behind]

theorem join_length {chars filled : List Byte} (run : join w strings chars = .ok filled) :
    filled.length = chars.length := by
  induction strings generalizing chars filled with
  | nil =>
    cases run
    rfl
  | cons s strings ih =>
    obtain ⟨room, fills, run⟩ := except_bind_ok.mp run
    obtain ⟨rest, joins, same⟩ := except_map_ok.mp run
    have kept := ih joins
    have first := fill_length fills
    rw [← same, List.length_append, kept, List.length_take, List.length_drop]
    omega

end Loops

inductive Bound (api : Cfitsio) (t : Nat) (info : ColumnInfo) : StringColumnVector → Prop where
  | made {it base base'} (run : make info base = .ok it base') : Bound api t info it
  | read {it it' firstrow base base' w w'} (bound : Bound api t info it)
      (run : StringColumnVector.read api t it firstrow base w = .ok (it', base') w') :
      Bound api t info it'
  | write {it it' firstrow base w w'} (bound : Bound api t info it)
      (run : StringColumnVector.write api t it firstrow base w = .ok it' w') : Bound api t info it'

structure Ready (info : ColumnInfo) (w n : Nat) (it : StringColumnVector) : Prop where
  offset : it.offset = info.offset
  width : it.width = w
  natomic : it.natomic = n
  buffer : it.buffer.length = n

section Ready

variable {api : Cfitsio} {t w m n : Nat} {info : ColumnInfo} {it it' : StringColumnVector}

theorem make_ok {base base' : List (List Byte)} (first : info.extent[0]? = some (w : Int))
    (run : make info base = .ok it base') : info.columnType.id = .string ∧ toSize w ≠ 0 ∧
      base' = resizeTo base (toSize info.extent.nelem / toSize w) [] ∧
      it = { ColumnBase.ofInfo info with
        natomic := info.nbytes, offset := info.offset, width := toSize w
        buffer := List.replicate (toSize info.nbytes) 0 } := by
  obtain ⟨width, found, run⟩ := ofExcept_bind_ok.mp run
  obtain ⟨string, run⟩ := check_ok.mp run
  obtain ⟨nonzero, run⟩ := check_ok.mp run
  obtain ⟨_, _, resizes, run⟩ := bind_ok.mp run
  cases modify_ok.mp resizes
  obtain ⟨rfl, rfl⟩ := pure_ok.mp run
  cases extent : info.extent with
  | nil => simp [extent] at first
  | cons axis rest =>
    rw [extent] at first found
    cases first
    cases found
    exact ⟨not_not.mp string, nonzero, by rw [← extent]; rfl, rfl⟩

theorem Bound.ready (bound : Bound api t info it) (first : info.extent[0]? = some (w : Int))
    (bytes : info.nbytes = n) (narrow : w < 2 ^ 64) (long : n < 2 ^ 64) : Ready info w n it := by
  induction bound with
  | made run =>
    obtain ⟨_, _, _, rfl⟩ := make_ok first run
    exact
      { offset := rfl, width := toSize_natCast narrow, natomic := bytes
        buffer := by rw [List.length_replicate, bytes, toSize_natCast long] }
  | read _ run ready =>
    obtain ⟨_, _, _, loads⟩ := bind_ok.mp run
    obtain ⟨buffer, rfl, kept, _⟩ := load_kept (ofExcept_ok.mp loads).1
    exact { ready with buffer := kept.trans ready.buffer }
  | @write _ _ _ base _ _ _ run ready =>
    obtain ⟨buffer, _, joins, run⟩ := bind_ok.mp run
    obtain ⟨_, _, _, run⟩ := bind_ok.mp run
    obtain ⟨rfl, _⟩ := pure_ok.mp run
    have kept := join_length (ofExcept_ok.mp joins).1
    rw [List.length_replicate, ready.natomic, toSize_natCast long] at kept
    exact { ready with buffer := kept }

theorem Ready.write_eq (ready : Ready info w (w * m) it) (long : w * m < 2 ^ 64)
    {strings : List (List Byte)} (count : strings.length = m) (row : Int) (world : World) :
    StringColumnVector.write api t it row strings world =
      (Table.writeBytes api t row info.offset (strings.map (padded w)).flatten >>= fun _ =>
        pure { it with buffer := (strings.map (padded w)).flatten }) world := by
  have room : w * strings.length ≤ w * m := by rw [count]
  have whole := join_eq room
  rw [count, Nat.sub_self, List.replicate_zero, List.append_nil] at whole
  unfold StringColumnVector.write
  rw [ready.natomic, toSize_natCast long, ready.width, ready.offset,
    bind_of_ok (ofExcept_ok.mpr ⟨whole, rfl⟩)]

theorem Ready.load_eq (ready : Ready info w (w * m) it) {cell : List Byte}
    (whole : cell.length = w * m) {old : List (List Byte)} (count : old.length = m) :
    load it old cell = .ok ({ it with buffer := cell },
      (List.range m).map (fun i => terminated (slice (i * w) w cell))) := by
  have room := whole.trans ready.buffer.symm
  have filled : fill cell it.buffer = .ok cell := by
    rw [fill_ok room.le, List.drop_of_length_le room.ge, List.append_nil]
  unfold load
  rw [filled, ready.width, count]
  exact except_bind_ok.mpr ⟨cell, rfl, except_bind_ok.mpr ⟨_, split_eq whole.ge, rfl⟩⟩

end Ready

/-- Every binding of the column hands these bytes to the file for these strings. -/
def Writes (api : Cfitsio) (t : Nat) (info : ColumnInfo) (strings : List (List Byte))
    (cell : List Byte) : Prop :=
  ∀ it row w, Bound api t info it → ∃ it', StringColumnVector.write api t it row strings w =
    (Table.writeBytes api t row info.offset cell >>= fun _ => pure it') w

def Reads (api : Cfitsio) (t : Nat) (info : ColumnInfo) (cell : List Byte)
    (strings : List (List Byte)) : Prop :=
  ∀ it row old w w', Bound api t info it → old.length = strings.length →
    Table.readBytes api t row info.offset info.nbytes w = .ok cell w' →
    ∃ it', StringColumnVector.read api t it row old w = .ok (it', strings) w'

structure Encodes (api : Cfitsio) (t : Nat) (info : ColumnInfo) (w m : Nat) : Prop where
  /-- every byte of the cell is written, and the bytes of a slot are those of its string -/
  write : ∀ strings, strings.length = m → ∃ cell, Writes api t info strings cell ∧
    (cell.length : Int) = info.nbytes ∧
    ∀ i s, strings[i]? = some s → slice (i * w) w cell = padded w s
  /-- each slot is read as its longest prefix without a NUL -/
  read : ∀ cell, (cell.length : Int) = info.nbytes → ∃ strings, strings.length = m ∧
    Reads api t info cell strings ∧ ∀ i s, strings[i]? = some s →
      s <+: slice (i * w) w cell ∧ 0 ∉ s ∧
        ∀ p, p <+: slice (i * w) w cell → 0 ∉ p → p.length ≤ s.length
  /-- strings come back cut, and then stay as they are -/
  round_trip : ∀ strings, strings.length = m → ∃ cell cell',
    Writes api t info strings cell ∧
    Reads api t info cell (strings.map (fun s => terminated (s.take w))) ∧
    Writes api t info (strings.map (fun s => terminated (s.take w))) cell' ∧
    Reads api t info cell' (strings.map (fun s => terminated (s.take w)))
  /-- strings that fit come back as they are -/
  exact_round_trip : ∀ strings, strings.length = m → (∀ s ∈ strings, s.length ≤ w ∧ 0 ∉ s) →
    ∃ cell, Writes api t info strings cell ∧ Reads api t info cell strings

section Encodes

variable {api : Cfitsio} {t w m : Nat} {info : ColumnInfo} {strings : List (List Byte)}

theorem slots_length : ((strings.map (padded w)).flatten).length = w * strings.length := by
  induction strings with
  | nil => rfl
  | cons s strings ih =>
    rw [List.map_cons, List.flatten_cons, List.length_append, ih, padded_length, List.length_cons,
      Nat.mul_succ, Nat.add_comm]

theorem slot_eq {i : Nat} {s : List Byte} (entry : strings[i]? = some s) :
    slice (i * w) w (strings.map (padded w)).flatten = padded w s := by
  have inside := (List.getElem?_eq_some_iff.mp entry).1
  have member : (strings.map (padded w))[i]? = some (padded w s) := by simp [entry]
  have sizes : (strings.map (padded w)).map List.length = List.replicate strings.length w := by
    rw [List.map_map, ← List.map_const']
    exact List.map_congr_left (fun s _ => padded_length)
  have slot := slice_flatten member
  rwa [sizes, start_replicate inside.le, padded_length] at slot

theorem slots_read (count : strings.length = m) :
    (List.range m).map (fun i => terminated (slice (i * w) w (strings.map (padded w)).flatten)) =
      strings.map (fun s => terminated (s.take w)) := by
  subst count
  refine List.ext_getElem (by simp) (fun i inside _ => ?_)
  have lt : i < strings.length := by simpa using inside
  have slot := slot_eq (w := w) (List.getElem?_eq_getElem lt)
  simp [slot, terminated_padded]

structure Shaped (info : ColumnInfo) (w m : Nat) : Prop where
  first : info.extent[0]? = some (w : Int)
  bytes : info.nbytes = (w * m : Nat)
  wide : 1 ≤ w
  many : 1 ≤ m
  long : w * m < 2 ^ 63

theorem Shaped.ready (shaped : Shaped info w m) {it : StringColumnVector}
    (bound : Bound api t info it) : Ready info w (w * m) it := by
  have narrow : w ≤ w * m := Nat.le_mul_of_pos_right w shaped.many
  have long := shaped.long
  exact bound.ready shaped.first shaped.bytes (by omega) (by omega)

theorem Shaped.writes (shaped : Shaped info w m) (count : strings.length = m) :
    Writes api t info strings (strings.map (padded w)).flatten := by
  intro it row world bound
  have long := shaped.long
  exact ⟨_, (shaped.ready bound).write_eq (by omega) count row world⟩

theorem Shaped.reads (shaped : Shaped info w m) {cell : List Byte} (whole : cell.length = w * m) :
    Reads api t info cell ((List.range m).map (fun i => terminated (slice (i * w) w cell))) := by
  intro it row old world world' bound count request
  have ready := shaped.ready bound
  rw [List.length_map, List.length_range] at count
  rw [shaped.bytes, ← ready.natomic, ← ready.offset] at request
  exact ⟨_, bind_ok.mpr ⟨cell, world', request, ofExcept_ok.mpr ⟨ready.load_eq whole count, rfl⟩⟩⟩

theorem Shaped.returns (shaped : Shaped info w m) (count : strings.length = m) :
    Reads api t info (strings.map (padded w)).flatten
      (strings.map (fun s => terminated (s.take w))) := by
  rw [← slots_read count]
  exact shaped.reads (by rw [slots_length, count])

theorem map_terminated_take (plain : ∀ s ∈ strings, s.length ≤ w ∧ 0 ∉ s) :
    strings.map (fun s => terminated (s.take w)) = strings := by
  rw [List.map_congr_left (fun s member => terminated_take (plain s member).2 (plain s member).1),
    List.map_id']

/-- Strings of a column with a width of `w` are encoded and decoded slot by slot. -/
theorem encodes (first : info.extent[0]? = some (w : Int)) (bytes : info.nbytes = (w * m : Nat))
    (wide : 1 ≤ w) (many : 1 ≤ m) (long : w * m < 2 ^ 63) : Encodes api t info w m := by
  have shaped : Shaped info w m := ⟨first, bytes, wide, many, long⟩
  constructor
  case write =>
    intro strings count
    refine ⟨_, shaped.writes count, ?_, fun i s entry => slot_eq entry⟩
    rw [slots_length, count, bytes]
  case read =>
    intro cell whole
    refine ⟨_, by simp, shaped.reads (by omega), ?_⟩
    intro i s entry
    obtain ⟨inside, rfl⟩ := List.getElem?_eq_some_iff.mp entry
    simp only [List.getElem_map, List.getElem_range]
    exact ⟨terminated_front, not_mem_terminated, fun p => terminated_longest⟩
  case round_trip =>
    intro strings count
    let cut := strings.map (fun s => terminated (s.take w))
    have count' : cut.length = m := (List.length_map _).trans count
    have still : cut.map (fun s => terminated (s.take w)) = cut := by
      simp [cut, Function.comp_def, terminated_again]
    have again : Reads api t info (cut.map (padded w)).flatten _ := shaped.returns count'
    rw [still] at again
    exact ⟨_, _, shaped.writes count, shaped.returns count, shaped.writes count', again⟩
  case exact_round_trip =>
    intro strings count plain
    have back : Reads api t info _ _ := shaped.returns count
    rw [map_terminated_take plain] at back
    exact ⟨_, shaped.writes count, back⟩

def pairs : ColumnInfo :=
  { ttype := "S", tunit := "", columnType := .string, offset := 1, nbytes := 6, extent := [3, 2]
    colnum := 1 }

def sixBytes : World :=
  (Reference.world (Reference.table [Reference.column "S" .string 6 6] 1) Reference.primary
    Reference.primary).onto (.table 0)

theorem encodes_pairs : Encodes Reference.rawApi 0 pairs 3 2 ∧
    ∃ it base it' it₂ w', make pairs [] = .ok it base ∧ Bound Reference.rawApi 0 pairs it ∧
      StringColumnVector.write Reference.rawApi 0 it 1 [[65, 66, 67], [68]] sixBytes = .ok it' w' ∧
      StringColumnVector.read Reference.rawApi 0 it' 1 base w' =
        .ok (it₂, [[65, 66, 67], [68]]) w' := by
  have made : make pairs [] = .ok _ _ := rfl
  exact ⟨encodes rfl rfl (by decide) (by decide) (by decide),
    _, _, _, _, _, made, .made made, rfl, rfl⟩

end Encodes

end StringColumnVector

namespace StringColumn

inductive Bound (api : Cfitsio) (t : Nat) (info : ColumnInfo) : StringColumn → Prop where
  | made {it base base'} (run : make info base = .ok it base') : Bound api t info it
  | read {it it' firstrow base w w'} (bound : Bound api t info it)
      (run : StringColumn.read api t it firstrow w = .ok (it', base) w') : Bound api t info it'
  | write {it it' firstrow base w w'} (bound : Bound api t info it)
      (run : StringColumn.write api t it firstrow base w = .ok it' w') : Bound api t info it'

structure Ready (info : ColumnInfo) (n : Nat) (it : StringColumn) : Prop where
  offset : it.offset = info.offset
  natomic : it.natomic = n
  buffer : it.buffer.length = n

variable {api : Cfitsio} {t n : Nat} {info : ColumnInfo} {it it' it₁ : StringColumn}
  {base : List Byte} {row : Int} {w w' : World}

/-- A string as it stands in a cell of `n` bytes: with blanks behind it. -/
def blankFilled (n : Nat) (s : List Byte) : List Byte :=
  s.take n ++ List.replicate (n - s.length) 0x20

theorem blankFilled_length : (blankFilled n base).length = n := by
  simp only [blankFilled, List.length_append, List.length_take, List.length_replicate]
  omega

theorem fill_blanks (n : Nat) (s : List Byte) :
    fill (s.take n) (List.replicate n 0x20) = .ok (blankFilled n s) := by
  have room : (s.take n).length ≤ (List.replicate n (0x20 : Byte)).length := by
    rw [List.length_take, List.length_replicate]
    omega
  have blanks : n - min n s.length = n - s.length := by omega
  rw [fill_ok room, List.drop_replicate, List.length_take, blanks, blankFilled]

theorem Bound.ready (bound : Bound api t info it) (bytes : info.nbytes = n)
    (long : n < 2 ^ 64) : Ready info n it := by
  induction bound with
  | made run =>
    obtain ⟨_, run⟩ := check_ok.mp run
    obtain ⟨_, _, _, run⟩ := bind_ok.mp run
    obtain ⟨rfl, _⟩ := pure_ok.mp run
    exact
      { offset := rfl, natomic := bytes
        buffer := by rw [List.length_replicate, bytes, toSize_natCast long] }
  | read _ run ready =>
    obtain ⟨_, _, _, loads⟩ := bind_ok.mp run
    obtain ⟨buffer, rfl, kept⟩ := load_kept (ofExcept_ok.mp loads).1
    exact { ready with buffer := kept.trans ready.buffer }
  | write _ run ready =>
    obtain ⟨buffer, _, fills, run⟩ := bind_ok.mp run
    obtain ⟨_, _, _, run⟩ := bind_ok.mp run
    obtain ⟨rfl, _⟩ := pure_ok.mp run
    have kept := fill_length (ofExcept_ok.mp fills).1
    rw [List.length_replicate, ready.natomic, toSize_natCast long] at kept
    exact { ready with buffer := kept }

theorem Ready.write_eq (ready : Ready info n it) (long : n < 2 ^ 64) (row : Int)
    (base : List Byte) (w : World) : write api t it row base w =
      (Table.writeBytes api t row info.offset (blankFilled n base) >>= fun _ =>
        pure { it with buffer := blankFilled n base }) w := by
  unfold write
  rw [ready.natomic, toSize_natCast long, ready.offset,
    bind_of_ok (ofExcept_ok.mpr ⟨fill_blanks n base, rfl⟩)]

theorem Ready.load_eq (ready : Ready info n it) {cell : List Byte} (whole : cell.length = n) :
    load it cell = .ok ({ it with buffer := cell }, terminated cell) := by
  have room := whole.trans ready.buffer.symm
  have filled : fill cell it.buffer = .ok cell := by
    rw [fill_ok room.le, List.drop_of_length_le room.ge, List.append_nil]
  have drained : drain it.natomic cell = .ok cell := by
    rw [ready.natomic, drain_ok (by omega), Int.toNat_natCast, List.take_of_length_le whole.le]
  unfold load
  rw [filled]
  exact except_bind_ok.mpr ⟨cell, rfl, except_bind_ok.mpr ⟨cell, drained, rfl⟩⟩

theorem readBytes_back (raw : RawBytes api) {offset : Int} {data : List Byte} {u : Unit}
    (wrote : Table.writeBytes api t row offset data w = .ok u w') :
    Table.readBytes api t row offset data.length w' = .ok data w' := by
  unfold Table.writeBytes onFile at wrote
  obtain ⟨h, edit, rfl⟩ := editChdu_ok.mp wrote
  unfold Table.readBytes onFile
  apply readChdu_of_ok
  rw [World.base_putUnit]
  simpa [World.current] using raw.read_back edit

theorem terminated_blankFilled : terminated (blankFilled n base) =
    terminated (base.take n) ↔ n ≤ base.length ∨ 0 ∈ base := by
  by_cases long : n ≤ base.length
  · simp [blankFilled, long]
  · have whole : base.take n = base := List.take_of_length_le (by omega)
    unfold blankFilled
    rw [whole]
    by_cases ends : 0 ∈ base
    · exact iff_of_true (terminated_append_of_mem ends) (Or.inr ends)
    · have blank : 0 ∉ List.replicate (n - base.length) (0x20 : Byte) := by
        rw [List.mem_replicate]
        rintro ⟨_, same⟩
        exact absurd same (by decide)
      rw [terminated_append ends, terminated_of_not_mem blank, terminated_of_not_mem ends]
      refine iff_of_false (fun same => ?_) (not_or.mpr ⟨long, ends⟩)
      have lengths := congrArg List.length same
      rw [List.length_append, List.length_replicate] at lengths
      omega

/-- A string that is written comes back cut to the width and to its first NUL
exactly when it fills the cell or has a NUL of its own. -/
theorem round_trip_iff (raw : RawBytes api) (bytes : info.nbytes = n) (long : n < 2 ^ 63)
    (bound : Bound api t info it) (bound₁ : Bound api t info it₁)
    (wrote : write api t it row base w = .ok it' w') :
    ∃ it₂ value, read api t it₁ row w' = .ok (it₂, value) w' ∧
      (value = terminated (base.take n) ↔ n ≤ base.length ∨ 0 ∈ base) := by
  rw [(bound.ready bytes (by omega)).write_eq (by omega)] at wrote
  obtain ⟨_, _, writes, wrote⟩ := bind_ok.mp wrote
  obtain ⟨_, rfl⟩ := pure_ok.mp wrote
  have ready := bound₁.ready bytes (by omega)
  have back := readBytes_back raw writes
  rw [blankFilled_length, ← ready.natomic, ← ready.offset] at back
  refine ⟨{ it₁ with buffer := blankFilled n base }, terminated (blankFilled n base), ?_,
    terminated_blankFilled⟩
  exact bind_ok.mpr ⟨_, _, back, ofExcept_ok.mpr ⟨ready.load_eq blankFilled_length, rfl⟩⟩

def four : ColumnInfo :=
  { ttype := "S", tunit := "", columnType := .string, offset := 1, nbytes := 4, extent := [4, 1]
    colnum := 1 }

def fourBytes : World :=
  (Reference.world (Reference.table [Reference.column "S" .string 4 4] 1) Reference.primary
    Reference.primary).onto (.table 0)

def bytesOf (s : String) : List Byte := s.toList.map (fun c => BitVec.ofNat 8 c.toNat)

theorem round_trip_full : ∃ it it' it₂ value w', Bound Reference.rawApi 0 four it ∧
    write Reference.rawApi 0 it 1 (bytesOf "ABCD") fourBytes = .ok it' w' ∧
    read Reference.rawApi 0 it 1 w' = .ok (it₂, value) w' ∧
    (value = terminated ((bytesOf "ABCD").take 4) ↔
      4 ≤ (bytesOf "ABCD").length ∨ 0 ∈ bytesOf "ABCD") := by
  obtain ⟨it, base, made⟩ : ∃ it base, make four [] = .ok it base := ⟨_, _, rfl⟩
  obtain ⟨it', w', wrote⟩ : ∃ it' w', write Reference.rawApi 0 it 1 (bytesOf "ABCD") fourBytes =
      .ok it' w' := by
    cases made
    exact ⟨_, _, rfl⟩
  obtain ⟨it₂, value, reads, same⟩ := round_trip_iff (n := 4) Reference.rawBytes rfl (by decide)
    (.made made) (.made made) wrote
  exact ⟨it, it', it₂, value, w', .made made, wrote, reads, same⟩

/-- A string of two characters comes back with two blanks, which a binding of the
same column to strings does not add. -/
theorem not_round_trip : ∃ it base it' it₂ w', make four [] = .ok it base ∧
    write Reference.rawApi 0 it 1 (bytesOf "AB") fourBytes = .ok it' w' ∧
    read Reference.rawApi 0 it' 1 w' = .ok (it₂, bytesOf "AB  ") w' ∧
    bytesOf "AB  " ≠ terminated ((bytesOf "AB").take 4) ∧
    ∃ jt strings jt' jt₂ v', StringColumnVector.make four [] = .ok jt strings ∧
      StringColumnVector.write Reference.rawApi 0 jt 1 [bytesOf "AB"] fourBytes = .ok jt' v' ∧
      StringColumnVector.read Reference.rawApi 0 jt' 1 strings v' = .ok (jt₂, [bytesOf "AB"]) v' :=
  ⟨_, _, _, _, _, rfl, rfl, rfl, by decide, _, _, _, _, _, rfl, rfl, rfl⟩

end StringColumn
end MisFITS.RowEntry
