import MisFITS.RowEntry
import MisFITS.Reference

/-! Bit columns: what a binding to a bit set stores in a cell and what it reads
from one, against a binding of the same column to bytes. -/
namespace MisFITS.RowEntry.BitSetColumn
open ColumnType Program HDU

/-- A column object of one descriptor, after any calls of its methods. -/
inductive Bound (api : Cfitsio) (t : Nat) (S : DynamicBitset) (info : ColumnInfo) :
    BitSetColumn → Prop where
  | made {it base base'} (run : make S info base = .ok it base') : Bound api t S info it
  | read {it it' firstrow base base' w w'} (bound : Bound api t S info it)
      (run : BitSetColumn.read api t S it firstrow base w = .ok (it', base') w') :
      Bound api t S info it'
  | write {it it' firstrow base w w'} (bound : Bound api t S info it)
      (run : BitSetColumn.write api t S it firstrow base w = .ok it' w') : Bound api t S info it'

def bytesFor (n : Nat) : Nat := (n + 7) / 8

structure Ready (k n : Nat) (it : BitSetColumn) : Prop where
  colnum : it.colnum = k
  nelem : it.nelem = n
  natomic : it.natomic = bytesFor n
  id : it.id = .bit
  maxBits : it.maxBits = 8 * bytesFor n
  buffer : it.buffer.length = bytesFor n

section Ready

variable {api : Cfitsio} {S : DynamicBitset} {t k n : Nat} {it it' : BitSetColumn}
  {info : ColumnInfo} {w w' : World} {row : Int} {base base' : S.Bits}

theorem make_bit (bit : info.columnType.id = .bit) (base : S.Bits) :
    make S info base =
      .ok { colnum := info.colnum, nelem := info.extent.nelem, id := .bit
            natomic := (S.blocks (S.resize base (toSize info.extent.nelem))).length
            maxBits := toSize ((S.blocks (S.resize base (toSize info.extent.nelem))).length *
              DynamicBitset.bitsPerBlock)
            buffer := List.replicate
              (toSize (S.blocks (S.resize base (toSize info.extent.nelem))).length) 0 }
        (S.resize base (toSize info.extent.nelem)) := by
  unfold make ColumnBase.ofInfo
  simp only [bit, if_true]
  rfl

/-- A column that is not one of bits is one of logicals, or its constructor throws. -/
theorem make_logical (other : info.columnType.id ≠ .bit) (run : make S info base = .ok it base') :
    info.columnType.id = .logical ∧ it.toColumnBase = ColumnBase.ofInfo info ∧
      it.buffer = List.replicate (toSize info.extent.nelem) 0 ∧
      base' = S.resize base (toSize info.extent.nelem) := by
  obtain ⟨_, _, sets, run⟩ := bind_ok.mp run
  cases modify_ok.mp sets
  obtain ⟨_, _, gets, run⟩ := bind_ok.mp run
  cases gets
  rw [if_neg (show (ColumnBase.ofInfo info).id ≠ .bit from other)] at run
  split at run
  · rename_i logical
    cases run
    exact ⟨logical, rfl, rfl, rfl⟩
  · obtain ⟨_, _, thrown, _⟩ := bind_ok.mp run
    exact (throw_ok.mp thrown).elim

theorem make_ready (lawful : S.Lawful) (number : info.colnum = k)
    (bit : info.columnType.id = .bit) (count : info.extent.nelem = n) (small : n < 2 ^ 31)
    (run : make S info base = .ok it base') : Ready k n it := by
  rw [make_bit bit, count, toSize_natCast (by omega), lawful.blocks_length,
    lawful.size_resize] at run
  cases run
  have bits : toSize (((n + 7) / 8 : Nat) * DynamicBitset.bitsPerBlock) = 8 * bytesFor n := by
    unfold toSize DynamicBitset.bitsPerBlock bytesFor
    omega
  have bytes : toSize ((n + 7) / 8 : Nat) = bytesFor n := toSize_natCast (by omega)
  exact
    { colnum := number, nelem := rfl, natomic := rfl, id := rfl, maxBits := bits
      buffer := by rw [List.length_replicate, bytes] }

theorem outputBlocks_length {blocks buffer buffer' : List Byte}
    (run : outputBlocks blocks buffer = .ok buffer') : buffer'.length = buffer.length := by
  induction blocks generalizing buffer buffer' with
  | nil =>
    cases run
    rfl
  | cons block blocks ih =>
    cases buffer with
    | nil => cases run
    | cons old buffer =>
      unfold outputBlocks at run
      cases rest : outputBlocks blocks buffer with
      | error e =>
        rw [rest] at run
        cases run
      | ok tail =>
        rw [rest] at run
        cases run
        simp [ih rest]

theorem Ready.of_buffer (ready : Ready k n it) {buffer : List Byte}
    (same : buffer.length = it.buffer.length) : Ready k n { it with buffer } :=
  { ready with buffer := same.trans ready.buffer }

theorem Ready.store (ready : Ready k n it) {buffer : List Byte}
    (run : BitSetColumn.store S it base = .ok buffer) : buffer.length = it.buffer.length := by
  unfold BitSetColumn.store at run
  simp only [ready.id, if_true] at run
  exact outputBlocks_length run

theorem Bound.ready (bound : Bound api t S info it) (lawful : S.Lawful) (number : info.colnum = k)
    (bit : info.columnType.id = .bit) (count : info.extent.nelem = n) (small : n < 2 ^ 31) :
    Ready k n it := by
  induction bound with
  | made run => exact make_ready lawful number bit count small run
  | read _ run ready =>
    obtain ⟨data, _, _, run⟩ := bind_ok.mp run
    obtain ⟨buffer, rfl, kept, _⟩ := load_kept lawful (ofExcept_ok.mp run).1
    exact ready.of_buffer kept
  | write _ run ready =>
    obtain ⟨buffer, _, stores, run⟩ := bind_ok.mp run
    obtain ⟨data, _, _, run⟩ := bind_ok.mp run
    obtain ⟨_, _, _, run⟩ := bind_ok.mp run
    obtain ⟨rfl, _⟩ := pure_ok.mp run
    exact ready.of_buffer (ready.store (ofExcept_ok.mp stores).1)

/-- Bit `i` of the set is the bit of a cell, and there are no other ones. -/
def Holds (S : DynamicBitset) (n : Nat) (cell : List Byte) (base : S.Bits) : Prop :=
  S.size base = n ∧ ∀ i, i < n → S.test base i = bitOf cell i

theorem Holds.eq (lawful : S.Lawful) {cell : List Byte} (first : Holds S n cell base)
    (second : Holds S n cell base') : base = base' := by
  refine lawful.ext base base' (first.1.trans second.1.symm) (fun i => ?_)
  by_cases inside : i < n
  · rw [first.2 i inside, second.2 i inside]
  · have below : n ≤ i := Nat.le_of_not_lt inside
    rw [lawful.test_outside base i (first.1.trans_le below),
      lawful.test_outside base' i (second.1.trans_le below)]

theorem Ready.load_ok (ready : Ready k n it) (lawful : S.Lawful) (small : n < 2 ^ 31)
    {cell : List Byte} (whole : cell.length = bytesFor n) (old : S.Bits) :
    ∃ it' base, BitSetColumn.load S it old cell = .ok (it', base) ∧ Holds S n cell base := by
  have filled : fill cell it.buffer = .ok cell := by
    rw [fill_ok (by rw [ready.buffer, whole]), List.drop_of_length_le (by rw [ready.buffer, whole]),
      List.append_nil]
  have blocks : S.size (S.resize old it.maxBits) = 8 * (inputBlocks cell).length := by
    rw [lawful.size_resize, ready.maxBits, inputBlocks, List.length_map, whole]
  have size : toSize it.nelem = n := by
    rw [ready.nelem]
    exact toSize_natCast (by omega)
  unfold BitSetColumn.load
  rw [filled]
  simp only [ready.id, if_true]
  refine ⟨_, _, rfl, by rw [lawful.size_resize, size], fun i inside => ?_⟩
  have bound : i < S.size (S.resize old it.maxBits) := by
    rw [lawful.size_resize, ready.maxBits]
    unfold bytesFor
    omega
  rw [lawful.test_resize, size, decide_eq_true inside, Bool.true_and,
    test_fromBlocks lawful blocks bound, getLsbD_inputBlocks]

theorem Ready.store_ok (ready : Ready k n it) (lawful : S.Lawful) (size : S.size base = n) :
    ∃ cell, BitSetColumn.store S it base = .ok cell ∧ cell.length = bytesFor n ∧
      ∀ i, bitOf cell i = S.test base i := by
  have blocks : (S.blocks base).length = bytesFor n := by
    rw [lawful.blocks_length, size, bytesFor]
  unfold BitSetColumn.store
  simp only [ready.id, if_true]
  refine ⟨_, outputBlocks_eq (blocks.trans ready.buffer.symm), ?_, fun i => ?_⟩
  · rw [List.length_map, blocks]
  · rw [bitOf_reversed, blocks_getD lawful]

theorem readCol_cell (doc : Documented api) {c : Col} {m : Nat} (here : w.Current (.table t))
    (column : (w.unitOf (.table t)).column k = some c) (bit : c.typecode = .bit)
    (whole : (c.cells row).length = m) (low : 1 ≤ row)
    (high : row ≤ (w.unitOf (.table t)).nrows) :
    Table.readCol api t .byte k row 1 m w = .ok (c.cells row) w := by
  unfold Table.readCol onFile
  apply readChdu_of_ok
  rw [World.current_eq here]
  exact doc.read_bits m column bit (congrArg Nat.cast whole) low high

theorem Ready.read_ok (ready : Ready k n it) (doc : Documented api) (lawful : S.Lawful)
    (small : n < 2 ^ 31) {c : Col} (here : w.Current (.table t))
    (column : (w.unitOf (.table t)).column k = some c) (bit : c.typecode = .bit)
    (whole : (c.cells row).length = bytesFor n) (low : 1 ≤ row)
    (high : row ≤ (w.unitOf (.table t)).nrows) (old : S.Bits) :
    ∃ it' base, BitSetColumn.read api t S it row old w = .ok (it', base) w ∧
      Holds S n (c.cells row) base := by
  obtain ⟨it', base, loads, holds⟩ := ready.load_ok lawful small whole old
  refine ⟨it', base, ?_, holds⟩
  unfold BitSetColumn.read
  rw [ready.colnum, ready.buffer, bind_of_ok (readCol_cell doc here column bit whole low high)]
  exact ofExcept_ok.mpr ⟨loads, rfl⟩

theorem Ready.write_eq (ready : Ready k n it) (lawful : S.Lawful) (size : S.size base = n) :
    ∃ bytes, bytes.length = bytesFor n ∧ (∀ i, bitOf bytes i = S.test base i) ∧
      BitSetColumn.write api t S it row base w =
        (Table.writeCol api t .byte k row 1 bytes >>= fun _ => pure { it with buffer := bytes }) w := by
  obtain ⟨bytes, stores, length, bits⟩ := ready.store_ok lawful size
  have drained : drain it.natomic bytes = .ok bytes := by
    rw [ready.natomic, ← length, drain_ok (Int.le_refl _), Int.toNat_natCast, List.take_length]
  refine ⟨bytes, length, bits, ?_⟩
  unfold BitSetColumn.write
  rw [bind_of_ok (ofExcept_ok.mpr ⟨stores, rfl⟩), bind_of_ok (ofExcept_ok.mpr ⟨drained, rfl⟩),
    ready.colnum]

theorem writeCol_cell (doc : Documented api) {c : Col} {bytes : List Byte} {w' : World}
    (here : w.Current (.table t)) (column : (w.unitOf (.table t)).column k = some c)
    (bit : c.typecode = .bit) (size : bytes.length = c.rowBytes) (low : 1 ≤ row)
    (run : Table.writeCol api t .byte k row 1 bytes w = .ok () w') :
    w'.Current (.table t) ∧ row ≤ (w'.unitOf (.table t)).nrows ∧
      ∃ cells, (w'.unitOf (.table t)).column k = some ⟨c.toColHead, cells⟩ ∧ cells row = bytes := by
  obtain ⟨h, edit, rfl⟩ := editChdu_ok.mp run
  rw [World.current_eq here] at edit
  obtain ⟨rows, ⟨head, cells⟩, found, same, stored⟩ := doc.write_bits column bit size low edit
  have put : w.putUnit (w.base (.table t)).file (w.files (w.base (.table t)).file).chdu h =
      w.put (.table t) h := by
    rw [World.put, World.onto_of_current here, here]
  rw [put]
  refine ⟨?_, ?_, cells, ?_, stored⟩
  · rw [World.put, World.onto_of_current here]
    simpa [World.Current] using here
  · rw [World.unitOf_put, rows]
    exact Int.le_max_right _ _
  · rw [World.unitOf_put, found]
    exact congrArg (fun head => some (Col.mk head cells)) same

end Ready

structure Faithful (api : Cfitsio) (S : DynamicBitset) (t : Nat) (info : ColumnInfo) (c : ColHead)
    (k n : Nat) : Prop where
  /-- a set of `n` bits goes to `fits_write_col` as the bits of one cell, with zeros behind them,
  and is read back where that call returns -/
  write : ∀ {it w cells row base}, Bound api t S info it → w.Current (.table t) →
    (w.unitOf (.table t)).column k = some ⟨c, cells⟩ → 1 ≤ row → S.size base = n →
    ∃ it' bytes, bytes.length = bytesFor n ∧
      (∀ i, bitOf bytes i = (decide (i < n) && S.test base i)) ∧
      BitSetColumn.write api t S it row base w =
        (Table.writeCol api t .byte k row 1 bytes >>= fun _ => pure it') w ∧
      ∀ w', Table.writeCol api t .byte k row 1 bytes w = .ok () w' →
        ∃ cells', (w'.unitOf (.table t)).column k = some ⟨c, cells'⟩ ∧ cells' row = bytes ∧
          ∀ it₁ old, Bound api t S info it₁ →
            ∃ it₂, BitSetColumn.read api t S it₁ row old w' = .ok (it₂, base) w'
  /-- a cell is read as a set of `n` bits, whatever the set was before -/
  read : ∀ {it w cells row} old, Bound api t S info it → w.Current (.table t) →
    (w.unitOf (.table t)).column k = some ⟨c, cells⟩ → (cells row).length = bytesFor n →
    1 ≤ row → row ≤ (w.unitOf (.table t)).nrows →
    ∃ it' base, BitSetColumn.read api t S it row old w = .ok (it', base) w ∧
      Holds S n (cells row) base
  /-- bytes are read as they are in the cell -/
  bytes : ∀ {w cells row} (old : List Byte), w.Current (.table t) →
    (w.unitOf (.table t)).column k = some ⟨c, cells⟩ → (cells row).length = bytesFor n →
    1 ≤ row → row ≤ (w.unitOf (.table t)).nrows → bytesFor n ≤ old.length →
    Column.read api t .byte (Column.init .byte info) row old w =
      .ok (cells row ++ old.drop (bytesFor n)) w

variable {api : Cfitsio} {S : DynamicBitset} {t k n : Nat} {info : ColumnInfo} {c : ColHead}

theorem init_bytes (bit : info.columnType.id = .bit) (count : info.extent.nelem = n) :
    (Column.init .byte info).natomic = bytesFor n := by
  unfold Column.init ColumnBase.ofInfo
  simp only [bit, count, and_self, if_true]
  have floor : (n : Int).tdiv 8 = (n / 8 : Nat) := (Int.ofNat_tdiv n 8).symm
  rw [floor, bytesFor]
  split <;> omega

theorem faithful_of_lt (doc : Documented api) (lawful : S.Lawful) (bit : c.typecode = .bit)
    (reps : c.reps = n) (number : info.colnum = k) (id : info.columnType.id = .bit)
    (count : info.extent.nelem = n) (small : n < 2 ^ 31) : Faithful api S t info c k n where
  write {it w cells row base} bound here column low size := by
    obtain ⟨bytes, length, bits, runs⟩ :=
      (bound.ready lawful number id count small).write_eq lawful size
    have zeros : ∀ i, bitOf bytes i = (decide (i < n) && S.test base i) := by
      intro i
      rw [bits]
      by_cases inside : i < n
      · simp [inside]
      · rw [lawful.test_outside base i (by omega)]
        simp
    refine ⟨_, bytes, length, zeros, runs, fun w' wrote => ?_⟩
    have whole : bytes.length = c.rowBytes := by
      rw [length, ColHead.rowBytes, bit, reps, bytesFor]
    obtain ⟨here', high, cells', column', stored⟩ :=
      writeCol_cell doc here column bit whole low wrote
    refine ⟨cells', column', stored, fun it₁ old bound₁ => ?_⟩
    obtain ⟨it₂, read, runs, holds⟩ := (bound₁.ready lawful number id count small).read_ok doc
      lawful small here' column' bit ((congrArg _ stored).trans length) low high old
    have same : Holds S n (cells' row) base := ⟨size, fun i _ => by rw [stored, bits]⟩
    exact ⟨it₂, by rw [same.eq lawful holds]; exact runs⟩
  read {it w cells row} old bound here column length low high :=
    (bound.ready lawful number id count small).read_ok doc lawful small here column bit length
      low high old
  bytes {w cells row} old here column length low high room := by
    have colnum : (Column.init .byte info).colnum = k := by
      rw [← number]
      unfold Column.init
      dsimp only
      split <;> rfl
    have filled : fill (cells row) old = .ok (cells row ++ old.drop (bytesFor n)) := by
      rw [fill_ok (length.trans_le room), length]
    unfold Column.read
    rw [colnum, init_bytes id count, bind_of_ok (readCol_cell doc here column bit length low high)]
    exact ofExcept_ok.mpr ⟨filled, rfl⟩

theorem toSize_toInt_ne (wrapped : 2 ^ 31 ≤ n) (long : n < 2 ^ 63) : toSize (toInt n) ≠ n := by
  obtain ⟨least, most⟩ := toInt_bounds n
  unfold toSize
  generalize toInt n = r at least most
  omega

def uniform (c : Col) (k : Nat) : World where
  files _ :=
    { mode := .readWrite, numHdus := 1, chdu := 1
      units := fun _ =>
        { type := .binaryTable, cols := List.replicate k c, nrows := 1, naxis2 := 1, keys := [] } }
  hdus _ := { file := 0, hduNum := 1, extname := "", extver := 1 }
  tables _ := { file := 0, hduNum := 1, extname := "", extver := 1, columns := [] }

/-- Where the descriptor has another count, a set that is read has another size. -/
theorem not_faithful (lawful : S.Lawful) (old : S.Bits) (low : 1 ≤ k)
    (id : info.columnType.id = .bit) (other : toSize info.extent.nelem ≠ n) :
    ¬ Faithful api S t info c k n := by
  intro faithful
  -- a row of zeros is enough: it is the size of the set that differs
  let cell := List.replicate (bytesFor n) (0 : Byte)
  let col : Col := ⟨c, fun _ => cell⟩
  have column : ((uniform col k).unitOf (.table t)).column k = some col :=
    HduData.column_iff.mpr ⟨low, List.getElem?_replicate_of_lt (by omega)⟩
  obtain ⟨it', base, run, size, _⟩ := faithful.read old (.made (make_bit id old))
    (show (uniform col k).Current (.table t) from rfl) column List.length_replicate (Int.le_refl 1)
    (Int.le_refl 1)
  obtain ⟨data, _, _, run⟩ := bind_ok.mp run
  obtain ⟨_, _, _, resized, _⟩ := load_kept lawful (ofExcept_ok.mp run).1
  exact other ((resized rfl).symm.trans size)

/-- The bits of a column are kept exactly when their number fits an `int`. -/
theorem faithful_iff (doc : Documented api) (lawful : S.Lawful) (old : S.Bits) {offset : Int}
    (low : 1 ≤ k) (bit : c.typecode = .bit) (reps : c.reps = n) (shape : c.axes.prod = n)
    (long : n < 2 ^ 63) (described : ColumnInfo.decode c k offset = .ok info) :
    Faithful api S t info c k n ↔ n < 2 ^ 31 := by
  obtain ⟨_, _, id, extent, number, _⟩ := ColumnInfo.decode_ok described
  rw [bit] at id
  have count : info.extent.nelem = toInt n := by
    unfold ColumnInfo.shape at extent
    rw [if_neg (by simp [bit])] at extent
    rw [← Except.ok.inj extent, Extent.nelem_eq, shape]
  constructor
  · intro faithful
    by_contra wrapped
    refine not_faithful lawful old low id ?_ faithful
    rw [count]
    exact toSize_toInt_ne (Nat.le_of_not_lt wrapped) long
  · intro small
    refine faithful_of_lt doc lawful bit reps number id ?_ small
    rw [count, toInt_of_lt (by omega) (by omega)]

theorem faithful_twelve : ∃ info it w',
    ColumnInfo.decode (Reference.head "flags" .bit 12 1) 1 1 = .ok info ∧
    Faithful Reference.api listBitset 0 info (Reference.head "flags" .bit 12 1) 1 12 ∧
    make listBitset info [] = .ok it (List.replicate 12 false) ∧
    write Reference.api 0 listBitset it 1
        [true, false, true, true, false, false, true, false, true, true, true, false]
        (uniform ⟨Reference.head "flags" .bit 12 1, fun _ => [255, 255]⟩ 1) =
      .ok { it with buffer := [178, 224] } w' ∧
    ((w'.unitOf (.table 0)).column 1).map (fun c => c.cells 1) = some [178, 224] :=
  ⟨_, _, _, rfl, (faithful_iff Reference.documented listBitset_lawful [] (by decide) rfl rfl rfl
    (by decide) rfl).mpr (by decide), rfl, rfl, rfl⟩

/-- A column of `2 ^ 32 + 5` bits is taken for one of five. -/
theorem not_faithful_wrapped : ∃ info,
    ColumnInfo.decode (Reference.head "flags" .bit 4294967301 1) 1 1 = .ok info ∧
    info.extent.nelem = 5 ∧ ¬ Faithful Reference.api listBitset 0 info
      (Reference.head "flags" .bit 4294967301 1) 1 4294967301 :=
  ⟨_, rfl, by decide, not_faithful listBitset_lawful [] (by decide) rfl (by decide)⟩

end MisFITS.RowEntry.BitSetColumn
