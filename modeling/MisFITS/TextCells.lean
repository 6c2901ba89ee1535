import MisFITS.Binding
import MisFITS.Layout

/-! Strings in a row: a text binding writes the bytes of one cell and reads no others. -/
namespace MisFITS
open ColumnType Program Slices HDU

namespace HduData

variable {api : Cfitsio} {h h' : HduData} {j k : Nat} {row r : Int}

structure Touches (k : Nat) (h h' : HduData) : Prop where
  heads : h'.heads = h.heads
  sized : h'.Sized
  nrows : h.nrows ≤ h'.nrows
  others : ∀ r, 1 ≤ r → r ≤ h.nrows → ∀ j, j ≠ k → h'.cell j r = h.cell j r

theorem sizes_congr (heads : h'.heads = h.heads) : h'.sizes = h.sizes := by
  rw [sizes, sizes, heads]

theorem cell_slice (sized : h.RowSized r) (low : 1 ≤ k) {n : Nat}
    (size : h.sizes[k - 1]? = some n) :
    h.cell k r = some (slice (start h.sizes (k - 1)) n (h.bytes r)) := by
  have inside := (List.getElem?_eq_some_iff.mp size).1
  rw [sizes, List.length_map, heads, List.length_map] at inside
  have column : h.column k = some h.cols[k - 1] :=
    column_iff.mpr ⟨low, List.getElem?_eq_getElem inside⟩
  have width := (sizes_column column).symm.trans size
  cases width
  rw [cell, column, Option.map_some, cell_eq sized column]

theorem cell_none (outside : k = 0 ∨ h.sizes[k - 1]? = none) : h.cell k r = none := by
  unfold cell column
  rcases outside with rfl | absent
  · rfl
  · split
    · rfl
    · have missing : h.cols[k - 1]? = none := by
        simpa [sizes, heads] using absent
      rw [missing]
      rfl

theorem cell_length {cell : List Byte} (sized : h.RowSized r) (found : h.cell k r = some cell) :
    h.sizes[k - 1]? = some cell.length := by
  obtain ⟨c, column, rfl⟩ := Option.map_eq_some_iff.mp found
  rw [sizes_column column, sized c (List.mem_of_getElem? (column_iff.mp column).2)]

theorem cell_congr (heads : h'.heads = h.heads) (sized : h.RowSized r) (sized' : h'.RowSized r)
    (same : ∀ n, 1 ≤ k → h.sizes[k - 1]? = some n →
      slice (start h.sizes (k - 1)) n (h'.bytes r) =
        slice (start h.sizes (k - 1)) n (h.bytes r)) : h'.cell k r = h.cell k r := by
  have sizes := sizes_congr heads
  by_cases zero : k = 0
  · rw [cell_none (Or.inl zero), cell_none (Or.inl zero)]
  · have low : 1 ≤ k := Nat.one_le_iff_ne_zero.mpr zero
    cases size : h.sizes[k - 1]? with
    | none => rw [cell_none (Or.inr size), cell_none (Or.inr (sizes ▸ size))]
    | some n =>
      rw [cell_slice sized low size, cell_slice sized' low (sizes ▸ size), sizes,
        same n low size]

/-- Raw bytes written in the place of a column are its cell, and no other one changes. -/
theorem touches_of_write (doc : Documented api) (raw : RawBytes api) {data : List Byte}
    (sized : h.Sized) (low : 1 ≤ k) (size : h.sizes[k - 1]? = some data.length)
    (full : data ≠ []) (first : 1 ≤ row)
    (run : api.writeTblbytes row (1 + start h.sizes (k - 1) : Nat) data h = .ok () h') :
    Touches k h h' ∧ row ≤ h'.nrows ∧ h'.cell k row = some data := by
  have room := start_add_le_sum size
  have heads := doc.write_tblbytes run
  have sizes := sizes_congr heads
  rw [Nat.cast_add, Nat.cast_one] at run
  obtain ⟨sized', rows, ⟨old, whole, before, bytes⟩, others⟩ := raw.write sized first full room run
  have reached : row ≤ h'.nrows := rows ▸ Int.le_max_right _ _
  have more : h.nrows ≤ h'.nrows := rows ▸ Int.le_max_left _ _
  have fits : start h.sizes (k - 1) + data.length ≤ old.length := room.trans_eq whole.symm
  refine ⟨⟨heads, sized', more, ?_⟩, reached, ?_⟩
  · intro r low' high j other
    refine cell_congr heads (sized r low' high) (sized' r low' (Int.le_trans high more)) (fun n positive width => ?_)
    by_cases here : r = row
    · subst here
      rw [bytes, ← before high]
      rcases Nat.lt_or_gt_of_ne (show j - 1 ≠ k - 1 by omega) with front | behind
      · exact slice_overlay_before (start_add_le width front) (by omega)
      · exact slice_overlay_behind (start_add_le size behind) (by omega)
    · rw [others r low' high here]
  · rw [cell_slice (sized' row first reached) low (sizes ▸ size), sizes, bytes, slice_overlay fits]

theorem read_cell (raw : RawBytes api) {n : Nat} {cell : List Byte} (sized : h.Sized)
    (low : 1 ≤ k) (size : h.sizes[k - 1]? = some n) (first : 1 ≤ row) (last : row ≤ h.nrows)
    (found : h.cell k row = some cell) :
    api.readTblbytes row (1 + start h.sizes (k - 1) : Nat) n h = .ok cell := by
  rw [cell_slice (sized row first last) low size] at found
  cases found
  exact raw.read sized first last (start_add_le_sum size)

end HduData

namespace Target
open RowEntry

def TextBound (api : Cfitsio) (t : Nat) (info : ColumnInfo) : (τ : Target) → τ.Column → Prop
  | .string, it => StringColumn.Bound api t info it
  | .strings, it => StringColumnVector.Bound api t info it
  | .native _ _, _ | .bool _, _ | .bitset, _ => False

def number : (τ : Target) → τ.Column → Option Nat
  | .native _ _, it => it.colnum
  | .bool _, it => it.colnum
  | .bitset, it => it.colnum
  | .string, _ | .strings, _ => none

variable (S : DynamicBitset)

/-- A vector of strings has as many as its constructor has made room for. -/
def Held (info : ColumnInfo) : (τ : Target) → τ.Value S → Prop
  | .strings, base => base.length = toSize info.extent.nelem / toSize (info.extent.headD 0)
  | .string, _ | .native _ _, _ | .bool _, _ | .bitset, _ => True

def encode (info : ColumnInfo) : (τ : Target) → τ.Value S → List Byte
  | .string, base => StringColumn.blankFilled (toSize info.nbytes) base
  | .strings, base => (base.map (padded (toSize (info.extent.headD 0)))).flatten
  | .native _ _, _ | .bool _, _ | .bitset, _ => []

def Decodes (info : ColumnInfo) (cell : List Byte) : (τ : Target) → τ.Value S → Prop
  | .string, value => value = terminated cell
  | .strings, value =>
    let width := toSize (info.extent.headD 0)
    value = (List.range (toSize info.extent.nelem / width)).map
      (fun i => terminated (slice (i * width) width cell))
  | .native _ _, _ | .bool _, _ | .bitset, _ => False

variable {S} {api : Cfitsio} {t : Nat} {info : ColumnInfo} {τ : Target} {it it' : τ.Column}
  {base value : τ.Value S} {row : Int} {v v' : World} {w m : Nat}

structure Textual (info : ColumnInfo) (w m : Nat) : Prop where
  shaped : StringColumnVector.Shaped info w m
  count : info.extent.nelem = (w * m : Nat)

namespace Textual

variable (textual : Textual info w m)

include textual

theorem width : toSize (info.extent.headD 0) = w := by
  have first := textual.shaped.first
  have narrow : w ≤ w * m := Nat.le_mul_of_pos_right w textual.shaped.many
  have long := textual.shaped.long
  cases axes : info.extent with
  | nil => simp [axes] at first
  | cons d rest =>
    rw [axes] at first
    obtain rfl : d = w := Option.some.inj first
    exact toSize_natCast (by omega)

theorem strings : toSize info.extent.nelem / w = m := by
  have wide := textual.shaped.wide
  have long := textual.shaped.long
  rw [textual.count, toSize_natCast (by omega), Nat.mul_div_cancel_left m (by omega)]

theorem size : toSize info.nbytes = w * m := by
  have long := textual.shaped.long
  rw [textual.shaped.bytes, toSize_natCast (by omega)]

theorem positive : 1 ≤ w * m := Nat.mul_le_mul textual.shaped.wide textual.shaped.many

theorem held_strings {base : List (List Byte)} (held : Held S info .strings base) :
    base.length = m := by
  unfold Held at held
  rwa [textual.width, textual.strings] at held

theorem write_eq (bound : τ.TextBound api t info it) (held : τ.Held S info base) :
    (τ.encode S info base).length = w * m ∧ ∃ it', ∀ row v, τ.write api S t it row base v =
      (Table.writeBytes api t row info.offset (τ.encode S info base) >>= fun _ => pure it') v := by
  have long := textual.shaped.long
  cases τ with
  | native _ _ | bool _ | bitset => exact bound.elim
  | string =>
    have ready := StringColumn.Bound.ready bound textual.shaped.bytes (by omega)
    unfold encode
    rw [textual.size]
    exact ⟨StringColumn.blankFilled_length, _, fun row v => ready.write_eq (by omega) row base v⟩
  | strings =>
    have count := textual.held_strings held
    have ready := textual.shaped.ready bound
    unfold encode
    rw [textual.width]
    refine ⟨?_, _, fun row v => ready.write_eq (by omega) count row v⟩
    rw [StringColumnVector.slots_length, count]

theorem read_eq (bound : τ.TextBound api t info it) (held : τ.Held S info base)
    {cell : List Byte} (whole : cell.length = w * m) :
    ∃ it' value, τ.Decodes S info cell value ∧ τ.Held S info value ∧
      ∀ row v v', Table.readBytes api t row info.offset info.nbytes v = .ok cell v' →
        τ.read api S t it row base v = .ok (it', value) v' := by
  have long := textual.shaped.long
  cases τ with
  | native _ _ | bool _ | bitset => exact bound.elim
  | string =>
    have ready := StringColumn.Bound.ready bound textual.shaped.bytes (by omega)
    let it' : StringColumn := { (it : StringColumn) with buffer := cell }
    refine ⟨it', terminated cell, rfl, trivial, fun row v v' request => ?_⟩
    rw [textual.shaped.bytes, ← ready.natomic, ← ready.offset] at request
    exact bind_ok.mpr ⟨cell, v', request, ofExcept_ok.mpr ⟨ready.load_eq whole, rfl⟩⟩
  | strings =>
    have count := textual.held_strings held
    have ready := textual.shaped.ready bound
    let it' : StringColumnVector := { (it : StringColumnVector) with buffer := cell }
    refine ⟨it', (List.range m).map (fun i => terminated (slice (i * w) w cell)), ?_, ?_,
      fun row v v' request => ?_⟩
    · simp only [Decodes, textual.width, textual.strings]
    · simp only [Held, textual.width, textual.strings, List.length_map, List.length_range]
    · rw [textual.shaped.bytes, ← ready.natomic, ← ready.offset] at request
      exact bind_ok.mpr ⟨cell, v', request, ofExcept_ok.mpr ⟨ready.load_eq whole count, rfl⟩⟩

end Textual

theorem TextBound.write (bound : τ.TextBound api t info it)
    (run : τ.write api S t it row base v = .ok it' v') : τ.TextBound api t info it' := by
  cases τ with
  | native _ _ | bool _ | bitset => exact bound.elim
  | string => exact StringColumn.Bound.write bound run
  | strings => exact StringColumnVector.Bound.write bound run

theorem TextBound.read (bound : τ.TextBound api t info it)
    (run : τ.read api S t it row base v = .ok (it', value) v') : τ.TextBound api t info it' := by
  cases τ with
  | native _ _ | bool _ | bitset => exact bound.elim
  | string => exact StringColumn.Bound.read bound run
  | strings => exact StringColumnVector.Bound.read bound run

theorem TextBound.id (bound : τ.TextBound api t info it) : info.columnType.id = .string := by
  cases τ with
  | native _ _ | bool _ | bitset => exact bound.elim
  | string =>
    unfold TextBound at bound
    induction bound with
    | made run => exact not_not.mp (check_ok.mp run).1
    | read _ _ string => exact string
    | write _ _ string => exact string
  | strings =>
    unfold TextBound at bound
    induction bound with
    | made run =>
      obtain ⟨_, axis, run⟩ := ofExcept_bind_ok.mp run
      exact not_not.mp (check_ok.mp run).1
    | read _ _ string => exact string
    | write _ _ string => exact string

theorem write_number {k : Nat} (other : τ.number it = some k)
    (run : τ.write api S t it row base v = .ok it' v') : τ.number it' = some k ∧
      ∃ T data, Table.writeCol api t T k row 1 data v = .ok () v' := by
  cases τ with
  | string | strings => cases other
  | native T vector =>
    obtain ⟨_, _, writes, same⟩ := bind_ok.mp run
    obtain ⟨rfl, rfl⟩ := pure_ok.mp same
    obtain ⟨data, _, drains, writes⟩ := bind_ok.mp writes
    rw [(ofExcept_ok.mp drains).2] at writes
    cases other
    exact ⟨rfl, T, data, writes⟩
  | bool vector =>
    obtain ⟨_, drains, run⟩ := ofExcept_bind_ok.mp run
    obtain ⟨_, fills, run⟩ := ofExcept_bind_ok.mp run
    obtain ⟨data, drains', run⟩ := ofExcept_bind_ok.mp run
    obtain ⟨_, _, writes, same⟩ := bind_ok.mp run
    obtain ⟨rfl, rfl⟩ := pure_ok.mp same
    cases other
    exact ⟨rfl, .logical, data, writes⟩
  | bitset =>
    obtain ⟨_, stores, run⟩ := ofExcept_bind_ok.mp run
    obtain ⟨data, drains, run⟩ := ofExcept_bind_ok.mp run
    obtain ⟨_, _, writes, same⟩ := bind_ok.mp run
    obtain ⟨rfl, rfl⟩ := pure_ok.mp same
    cases other
    exact ⟨rfl, .byte, data, writes⟩

end Target

namespace Table
open HduData ColumnInfo

variable {S : DynamicBitset} {api : Cfitsio} {t k : Nat} {w v v' : World} {info : ColumnInfo}
  {τ : Target} {it it' : τ.Column} {base : τ.Value S} {row : Int}

structure Over (w v : World) (t : Nat) : Prop where
  here : v.Current (.table t)
  heads : (v.unitOf (.table t)).heads = (w.unitOf (.table t)).heads
  sized : (v.unitOf (.table t)).Sized

theorem Over.put {h : HduData} (still : Over w v t) (touches : Touches k (v.unitOf (.table t)) h) :
    Over w (v.put (.table t) h) t where
  here := by simp [World.Current, World.put, World.onto]
  heads := by rw [World.unitOf_put, touches.heads, still.heads]
  sized := by
    rw [World.unitOf_put]
    exact touches.sized

theorem edit_here {o : Obj} {e : Edit} {u : Unit} (here : v.Current o)
    (run : onFile o (editChdu · e) v = .ok u v') :
    ∃ h, e (v.unitOf o) = .ok () h ∧ v' = v.put o h := by
  rw [← World.onto_of_current here] at run
  exact editFile_ok run

theorem Grown.textual (grown : Grown w t) (string : info.columnType.id = .string)
    (entry : (w.tables t).columns[k]? = some info) : ∃ n m, Target.Textual info n m ∧
      (w.unitOf (.table t)).sizes[k]? = some (n * m) ∧
      info.offset = (1 + start (w.unitOf (.table t)).sizes k : Nat) := by
  obtain ⟨ci, sizes, head, described, offset, nbytes⟩ := grown.place entry
  have text : ci.columnType = .string := by
    have stored : info.columnType.id = ci.columnType.stored := (decode_ok described).2.2.1
    rw [string] at stored
    cases type : ci.columnType <;> simp [type, Spec.stored, Spec.id] at stored ⊢
  obtain ⟨n, m, shaped, count⟩ := shaped_of_inserted sizes text described
  have bytes := shaped.bytes
  have width : (inserted ci).rowBytes = n * m := by omega
  exact ⟨n, m, ⟨shaped, count⟩, by rw [HduData.sizes, List.getElem?_map, head, ← width]; rfl, offset⟩

theorem Grown.text_write (doc : Documented api) (raw : RawBytes api) (grown : Grown w t)
    (still : Over w v t) (low : 1 ≤ k) (entry : (w.tables t).columns[k - 1]? = some info)
    (bound : τ.TextBound api t info it) (held : τ.Held S info base) (first : 1 ≤ row)
    (run : τ.write api S t it row base v = .ok it' v') :
    ∃ h, v' = v.put (.table t) h ∧ Touches k (v.unitOf (.table t)) h ∧ row ≤ h.nrows ∧
      h.cell k row = some (τ.encode S info base) ∧ τ.TextBound api t info it' := by
  obtain ⟨n, m, textual, size, offset⟩ := grown.textual bound.id entry
  obtain ⟨length, jt, writes⟩ := textual.write_eq bound held
  have again := bound.write run
  rw [writes row v] at run
  obtain ⟨_, _, writes, same⟩ := bind_ok.mp run
  obtain ⟨rfl, rfl⟩ := pure_ok.mp same
  obtain ⟨h, edit, rfl⟩ := edit_here still.here writes
  have full : τ.encode S info base ≠ [] := by
    intro nothing
    have positive := textual.positive
    rw [nothing] at length
    exact absurd length (by simp only [List.length_nil]; omega)
  have sizes := sizes_congr still.heads
  rw [offset, ← sizes] at edit
  obtain ⟨touches, reached, cell⟩ := touches_of_write doc raw still.sized low
    (by rw [sizes, size, length]) full first edit
  exact ⟨h, rfl, touches, reached, cell, again⟩

theorem other_write (doc : Documented api) (raw : RawBytes api) (still : Over w v t)
    (other : τ.number it = some k) (run : τ.write api S t it row base v = .ok it' v') :
    ∃ h, v' = v.put (.table t) h ∧ Touches k (v.unitOf (.table t)) h ∧ τ.number it' = some k := by
  obtain ⟨same, T, data, run⟩ := Target.write_number other run
  obtain ⟨h, edit, rfl⟩ := edit_here still.here run
  obtain ⟨sized, nrows, others⟩ := raw.write_col still.sized edit
  exact ⟨h, rfl, ⟨doc.write_col edit, sized, nrows, others⟩, same⟩

theorem Grown.text_cell (grown : Grown w t) (still : Over w v t) (low : 1 ≤ k)
    (entry : (w.tables t).columns[k - 1]? = some info) (bound : τ.TextBound api t info it)
    (first : 1 ≤ row) (last : row ≤ (v.unitOf (.table t)).nrows) :
    ∃ cell, (v.unitOf (.table t)).cell k row = some cell ∧
      (w.unitOf (.table t)).sizes[k - 1]? = some cell.length := by
  obtain ⟨n, m, _, size, _⟩ := grown.textual bound.id entry
  have sizes := sizes_congr still.heads
  rw [← sizes] at size ⊢
  have sized := still.sized row first last
  have found := cell_slice sized low size
  exact ⟨_, found, cell_length sized found⟩

theorem Grown.text_read (raw : RawBytes api) (grown : Grown w t) (low : 1 ≤ k)
    (entry : (w.tables t).columns[k - 1]? = some info) (bound : τ.TextBound api t info it)
    (held : τ.Held S info base) {cell : List Byte}
    (whole : (w.unitOf (.table t)).sizes[k - 1]? = some cell.length) :
    ∃ it' value, τ.Decodes S info cell value ∧ τ.Held S info value ∧ ∀ v, Over w v t →
      ∀ row, 1 ≤ row → row ≤ (v.unitOf (.table t)).nrows →
      (v.unitOf (.table t)).cell k row = some cell →
      τ.read api S t it row base v = .ok (it', value) v := by
  obtain ⟨n, m, textual, size, offset⟩ := grown.textual bound.id entry
  have length : cell.length = n * m := Option.some.inj (whole.symm.trans size)
  obtain ⟨it', value, decodes, held', reads⟩ := textual.read_eq bound held length
  refine ⟨it', value, decodes, held', fun v still row first last found => reads row v v ?_⟩
  have sizes := sizes_congr still.heads
  rw [offset, textual.shaped.bytes, ← length, ← sizes]
  apply readChdu_of_ok
  rw [World.current_eq still.here]
  exact read_cell raw still.sized low (by rw [sizes, whole]) first last found

end Table
end MisFITS
