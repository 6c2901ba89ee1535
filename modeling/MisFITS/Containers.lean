import MisFITS.Binding
import MisFITS.Strings

/-! Containers. A vector is resized when it is bound to a column, and has any
length when a row is read or written later on: what the methods then touch. -/
namespace MisFITS
open ColumnType Program HDU RowEntry

namespace RowEntry

section Bounds

variable {α : Type}

theorem fill_iff {values base filled : List α} : fill values base = .ok filled ↔
    values.length ≤ base.length ∧ filled = values ++ base.drop values.length := by
  unfold fill
  split
  · simp only [reduceCtorEq, false_iff]
    omega
  · rw [Except.ok.injEq, and_iff_right (by omega), eq_comm]

theorem exists_fill {values base : List α} (room : values.length ≤ base.length) :
    ∃ filled, fill values base = .ok filled := ⟨_, fill_ok room⟩

theorem drain_iff {n : Int} {base data : List α} :
    drain n base = .ok data ↔ n ≤ base.length ∧ data = base.take n.toNat := by
  unfold drain
  split
  · simp only [reduceCtorEq, false_iff]
    omega
  · rw [Except.ok.injEq, and_iff_right (by omega), eq_comm]

end Bounds

namespace StringColumnVector

variable {w n : Nat} {strings : List (List Byte)} {chars : List Byte}

theorem split_iff : (∃ strings, split w n chars = .ok strings) ↔ w * n ≤ chars.length := by
  induction n generalizing chars with
  | zero => simp [split]
  | succ n ih =>
    have rest := @ih (chars.drop w)
    rw [List.length_drop] at rest
    rw [split, Nat.mul_succ]
    split
    · simp only [reduceCtorEq, exists_false, false_iff]
      omega
    · constructor
      · rintro ⟨_, run⟩
        obtain ⟨strings, run, _⟩ := except_map_ok.mp run
        have := rest.mp ⟨strings, run⟩
        omega
      · intro room
        obtain ⟨strings, run⟩ := rest.mpr (by omega)
        exact ⟨_, except_map_ok.mpr ⟨strings, run, rfl⟩⟩

theorem slot_length (s : List Byte) :
    (if s.length < w then s ++ [0] else s.take w).length = min (s.length + 1) w := by
  split
  · rw [List.length_append, List.length_singleton]
    omega
  · rw [List.length_take]
    omega

def Slotted (w n : Nat) (strings : List (List Byte)) : Prop :=
  w * strings.length ≤ n ∨ ∃ s, strings.drop (n / w) = [s] ∧ s.length < n % w

theorem slotted_cons {s : List Byte} (wide : 0 < w) (room : w ≤ n) :
    Slotted w n (s :: strings) ↔ Slotted w (n - w) strings := by
  have slots : n / w = (n - w) / w + 1 := by
    rw [← Nat.add_div_right (n - w) wide, Nat.sub_add_cancel room]
  have rest : n % w = (n - w) % w := Nat.mod_eq_sub_mod room
  unfold Slotted
  rw [slots, rest, List.drop_succ_cons, List.length_cons, Nat.mul_succ]
  refine or_congr_left ⟨fun h => ?_, fun h => ?_⟩ <;> omega

theorem slotted_cons_last {s : List Byte} (short : n < w) :
    Slotted w n (s :: strings) ↔ strings = [] ∧ s.length < n := by
  unfold Slotted
  rw [Nat.div_eq_of_lt short, Nat.mod_eq_of_lt short, List.length_cons, Nat.mul_succ]
  constructor
  · rintro (room | ⟨last, same, inside⟩)
    · omega
    · cases same
      exact ⟨rfl, inside⟩
  · rintro ⟨rfl, inside⟩
    exact Or.inr ⟨s, rfl, inside⟩

theorem join_iff (wide : 0 < w) :
    (∃ filled, join w strings chars = .ok filled) ↔ Slotted w chars.length strings := by
  induction strings generalizing chars with
  | nil => simp [join, Slotted]
  | cons s strings ih =>
    have step : (∃ filled, join w (s :: strings) chars = .ok filled) ↔
        min (s.length + 1) w ≤ chars.length ∧ Slotted w (chars.length - w) strings := by
      rw [← slot_length s]
      constructor
      · rintro ⟨_, run⟩
        obtain ⟨room, fills, run⟩ := except_bind_ok.mp run
        obtain ⟨rest, joins, _⟩ := except_map_ok.mp run
        have slotted := ih.mp ⟨rest, joins⟩
        rw [List.length_drop, fill_length fills] at slotted
        exact ⟨(fill_iff.mp fills).1, slotted⟩
      · rintro ⟨room, slotted⟩
        have fills := fill_ok room
        rw [← fill_length fills, ← List.length_drop] at slotted
        obtain ⟨rest, joins⟩ := ih.mpr slotted
        exact ⟨_, except_bind_ok.mpr ⟨_, fills, except_map_ok.mpr ⟨rest, joins, rfl⟩⟩⟩
    rw [step]
    by_cases room : w ≤ chars.length
    · rw [slotted_cons wide room, and_iff_right (by omega)]
    · rw [slotted_cons_last (by omega), Nat.sub_eq_zero_of_le (by omega)]
      have absent : Slotted w 0 strings ↔ strings = [] := by
        cases strings with
        | nil => simp [Slotted]
        | cons s strings => simp [slotted_cons_last wide]
      rw [absent]
      constructor
      · rintro ⟨fits, same⟩
        exact ⟨same, by omega⟩
      · rintro ⟨same, inside⟩
        exact ⟨by omega, same⟩

end StringColumnVector

end RowEntry

def Overruns {α : Type} (x : Except Exception α) : Prop := ∀ e, x = .error e → e = .overrun

section Overruns

variable {α β : Type}

theorem Overruns.bind {x : Except Exception α} {g : α → Except Exception β} (first : Overruns x)
    (rest : ∀ a, Overruns (g a)) : Overruns (x >>= g) := by
  cases x with
  | ok a => exact rest a
  | error e => exact fun e' run => by cases run; exact first e rfl

theorem Overruns.map {x : Except Exception α} (g : α → β) (h : Overruns x) : Overruns (x.map g) := by
  cases x with
  | ok a => exact fun e run => by cases run
  | error e => exact fun e' run => by cases run; exact h e rfl

theorem Overruns.pure (a : α) : Overruns (Pure.pure a) := fun e run => by cases run

theorem Overruns.within {x : Except Exception α} (h : Overruns x) :
    x ≠ .error .overrun ↔ ∃ a, x = .ok a := by
  cases x with
  | ok a => simp
  | error e => simp [h e rfl]

theorem overruns_fill (values base : List α) : Overruns (fill values base) := by
  unfold fill Overruns
  split <;> simp [eq_comm]

theorem overruns_drain (n : Int) (base : List α) : Overruns (drain n base) := by
  unfold drain Overruns
  split <;> simp [eq_comm]

theorem overruns_split (w n : Nat) (chars : List Byte) :
    Overruns (StringColumnVector.split w n chars) := by
  induction n generalizing chars with
  | zero => exact .pure []
  | succ n ih =>
    rw [StringColumnVector.split]
    split
    · exact fun e run => by cases run; rfl
    · exact (ih _).map _

theorem overruns_join (w : Nat) (strings : List (List Byte)) (chars : List Byte) :
    Overruns (StringColumnVector.join w strings chars) := by
  induction strings generalizing chars with
  | nil => exact .pure chars
  | cons s strings ih => exact .bind (overruns_fill _ _) (fun _ => (ih _).map _)

end Overruns

namespace Target

inductive Bound (api : Cfitsio) (t : Nat) (S : DynamicBitset) (info : ColumnInfo) (τ : Target) :
    τ.Column → Prop where
  | made {it base base'} (run : τ.make S info base = .ok it base') : Bound api t S info τ it
  | read {it it' row base base' w w'} (bound : Bound api t S info τ it)
      (run : τ.read api S t it row base w = .ok (it', base') w') : Bound api t S info τ it'
  | write {it it' row base w w'} (bound : Bound api t S info τ it)
      (run : τ.write api S t it row base w = .ok it' w') : Bound api t S info τ it'

def container : Target → Bool
  | .native _ vector | .bool vector => vector
  | .strings => true
  | .bitset | .string => false

def elements : Target → ColumnInfo → Int
  | .strings, info => (toSize info.extent.nelem / toSize (info.extent.headD 0) : Nat)
  | τ, info => τ.cellCount info

def Sized (info : ColumnInfo) : (τ : Target) → τ.Column → Prop
  | .native T _, it => it = Column.init T info
  | .bool _, it =>
    it.natomic = info.extent.nelem ∧ it.buffer.length = toSize info.extent.nelem
  | .strings, it =>
    it.natomic = info.nbytes ∧ it.buffer.length = toSize info.nbytes ∧
      it.width = toSize (info.extent.headD 0) ∧ 0 < it.width ∧ info.columnType.id = .string
  | .bitset, _ | .string, _ => True

variable {api : Cfitsio} {S : DynamicBitset} {t : Nat} {τ : Target} {info : ColumnInfo}
  {it it' : τ.Column} {base base' : τ.Value S}

theorem sized_make (run : τ.make S info base = .ok it base') : τ.Sized info it := by
  cases τ with
  | native T vector => cases vector <;> cases run <;> rfl
  | bool vector => cases vector <;> cases run <;> exact ⟨rfl, List.length_replicate⟩
  | bitset | string => trivial
  | strings =>
    obtain ⟨n, found, run⟩ := ofExcept_bind_ok.mp run
    obtain ⟨text, run⟩ := check_ok.mp run
    obtain ⟨nonzero, run⟩ := check_ok.mp run
    obtain ⟨_, _, sets, run⟩ := bind_ok.mp run
    cases run
    have width : n = toSize (info.extent.headD 0) := by
      cases extent : info.extent with
      | nil =>
        rw [extent] at found
        cases found
      | cons axis rest =>
        rw [extent] at found
        cases found
        rfl
    exact ⟨rfl, List.length_replicate, width, Nat.pos_of_ne_zero nonzero, not_not.mp text⟩

theorem sized_load {data : List τ.storage.Native} (sized : τ.Sized info it)
    (run : τ.load S it base data = .ok (it', base')) : τ.Sized info it' := by
  cases τ with
  | native T vector =>
    obtain ⟨_, _, pair⟩ := except_map_ok.mp run
    cases pair
    exact sized
  | bool vector =>
    obtain ⟨buffer, rfl, kept, _⟩ := BoolColumn.load_kept run
    exact ⟨sized.1, kept.trans sized.2⟩
  | bitset | string => trivial
  | strings =>
    obtain ⟨buffer, rfl, kept, _⟩ := StringColumnVector.load_kept run
    exact ⟨sized.1, kept.trans sized.2.1, sized.2.2⟩

theorem sized_store {data : List τ.storage.Native} (sized : τ.Sized info it)
    (run : τ.store S it base = .ok (it', data)) : τ.Sized info it' := by
  cases τ with
  | native T vector =>
    obtain ⟨_, _, pair⟩ := except_map_ok.mp run
    cases pair
    exact sized
  | bool vector =>
    obtain ⟨_, _, run⟩ := except_bind_ok.mp run
    obtain ⟨buffer, fills, run⟩ := except_bind_ok.mp run
    obtain ⟨_, _, run⟩ := except_bind_ok.mp run
    cases run
    exact ⟨sized.1, (fill_length fills).trans sized.2⟩
  | bitset | string => trivial
  | strings =>
    obtain ⟨buffer, joins, pair⟩ := except_map_ok.mp run
    cases pair
    have kept := StringColumnVector.join_length joins
    rw [List.length_replicate, sized.1] at kept
    exact ⟨sized.1, kept, sized.2.2⟩

theorem write_ok {row : Int} {w w' : World} (run : τ.write api S t it row base w = .ok it' w') :
    ∃ data, τ.store S it base = .ok (it', data) ∧
      onFile (.table t) (editChdu · (τ.submit api it row data)) w = .ok () w' := by
  rw [write_eq] at run
  obtain ⟨stored, stores, run⟩ := ofExcept_bind_ok.mp run
  obtain ⟨_, _, calls, run⟩ := bind_ok.mp run
  obtain ⟨rfl, rfl⟩ := pure_ok.mp run
  exact ⟨stored.2, stores, calls⟩

theorem Bound.sized (bound : Bound api t S info τ it) : τ.Sized info it := by
  induction bound with
  | made run => exact sized_make run
  | read _ run sized =>
    obtain ⟨_, _, loads⟩ := read_ok run
    exact sized_load sized loads
  | write _ run sized =>
    obtain ⟨_, stores, _⟩ := write_ok run
    exact sized_store sized stores

def Takes (S : DynamicBitset) : (τ : Target) → ColumnInfo → τ.Value S → Prop
  | .strings, info, base => base.length ≤ elements .strings info
  | τ, info, base => τ.elements info ≤ τ.room S base

def Gives (S : DynamicBitset) : (τ : Target) → ColumnInfo → τ.Value S → Prop
  | .strings, info, base =>
    StringColumnVector.Slotted (toSize (info.extent.headD 0)) (toSize info.nbytes) base
  | τ, info, base => τ.elements info ≤ τ.room S base

theorem load_iff (vector : τ.container = true) (sized : τ.Sized info it)
    (text : info.columnType.id = .string → info.nbytes = info.extent.nelem)
    {data : List τ.storage.Native} (whole : data.length = τ.count it) :
    (∃ loaded, τ.load S it base data = .ok loaded) ↔ τ.Takes S info base := by
  have small := nelem_lt info
  cases τ with
  | native T vector =>
    cases show it = Column.init T info from sized
    change _ ↔ (Column.init T info).natomic ≤ base.length
    have count : data.length = (Column.init T info).natomic.toNat := whole
    constructor
    · rintro ⟨_, run⟩
      obtain ⟨_, fills, _⟩ := except_map_ok.mp run
      have := (fill_iff.mp fills).1
      omega
    · intro room
      exact ⟨_, except_map_ok.mpr ⟨_, fill_ok (by omega), rfl⟩⟩
  | bool vector =>
    obtain ⟨natomic, buffer⟩ := sized
    have large := le_toSize small
    change _ ↔ info.extent.nelem ≤ base.length
    constructor
    · rintro ⟨_, run⟩
      obtain ⟨filled, fills, run⟩ := except_bind_ok.mp run
      obtain ⟨chars, drains, run⟩ := except_bind_ok.mp run
      obtain ⟨_, takes, _⟩ := except_bind_ok.mp run
      have kept := fill_length fills
      have room := (fill_iff.mp takes).1
      rw [List.length_map, (drain_iff.mp drains).2, List.length_take] at room
      omega
    · intro room
      obtain ⟨_, _, run⟩ : ∃ it' base', BoolColumn.load it base data = .ok (it', base') :=
        BoolColumn.load_returns (by omega) (by omega) whole
      exact ⟨_, run⟩
  | bitset | string => cases vector
  | strings =>
    obtain ⟨natomic, buffer, width, wide, string⟩ := sized
    have count : data.length = it.natomic.toNat := whole
    have bytes := text string
    have large := le_toSize small
    have fills := fill_ok (show data.length ≤ it.buffer.length by rw [buffer, bytes]; omega)
    have kept := fill_length fills
    have slots : (base.length : Int) ≤ elements .strings info ↔ it.width * base.length ≤ it.buffer.length := by
      change (base.length : Int) ≤ ((_ / _ : Nat) : Int) ↔ _
      rw [Int.ofNat_le, ← width, Nat.le_div_iff_mul_le wide, buffer, bytes, Nat.mul_comm]
    change _ ↔ (base.length : Int) ≤ elements .strings info
    rw [slots, ← kept, ← StringColumnVector.split_iff]
    constructor
    · rintro ⟨_, run⟩
      obtain ⟨filled, again, run⟩ := except_bind_ok.mp run
      cases fills.symm.trans again
      obtain ⟨strings, splits, _⟩ := except_bind_ok.mp run
      exact ⟨strings, splits⟩
    · rintro ⟨strings, splits⟩
      exact ⟨_, except_bind_ok.mpr ⟨_, fills, except_bind_ok.mpr ⟨strings, splits, rfl⟩⟩⟩

theorem store_iff (vector : τ.container = true) (sized : τ.Sized info it) :
    (∃ stored, τ.store S it base = .ok stored) ↔ τ.Gives S info base := by
  have small := nelem_lt info
  cases τ with
  | native T vector =>
    cases show it = Column.init T info from sized
    change _ ↔ (Column.init T info).natomic ≤ base.length
    constructor
    · rintro ⟨_, run⟩
      obtain ⟨_, drains, _⟩ := except_map_ok.mp run
      exact (drain_iff.mp drains).1
    · intro room
      exact ⟨_, except_map_ok.mpr ⟨_, drain_ok room, rfl⟩⟩
  | bool vector =>
    obtain ⟨natomic, buffer⟩ := sized
    have large := le_toSize small
    change _ ↔ info.extent.nelem ≤ base.length
    constructor
    · rintro ⟨_, run⟩
      obtain ⟨_, drains, _⟩ := except_bind_ok.mp run
      exact natomic ▸ (drain_iff.mp drains).1
    · intro room
      have bits : ((base.take it.natomic.toNat).map
          (fun v => if v then (1 : Byte) else 0)).length ≤ it.buffer.length := by
        rw [List.length_map, List.length_take]
        omega
      obtain ⟨filled, fills⟩ := exists_fill bits
      have kept := fill_length fills
      exact ⟨_, except_bind_ok.mpr ⟨_, drain_ok (by omega), except_bind_ok.mpr ⟨filled, fills,
        except_bind_ok.mpr ⟨_, drain_ok (by omega), rfl⟩⟩⟩⟩
  | bitset | string => cases vector
  | strings =>
    obtain ⟨natomic, _, width, wide, _⟩ := sized
    change _ ↔ StringColumnVector.Slotted (toSize (info.extent.headD 0)) (toSize info.nbytes) base
    have joins : (∃ filled, StringColumnVector.join it.width base
        (List.replicate (toSize it.natomic) 0x20) = .ok filled) ↔ StringColumnVector.Slotted it.width
          (List.replicate (toSize it.natomic) (0x20 : Byte)).length base :=
      StringColumnVector.join_iff wide
    rw [List.length_replicate, natomic, width] at joins
    rw [← joins, ← natomic, ← width]
    constructor
    · rintro ⟨_, run⟩
      obtain ⟨filled, run, _⟩ := except_map_ok.mp run
      exact ⟨filled, run⟩
    · rintro ⟨filled, run⟩
      exact ⟨_, except_map_ok.mpr ⟨filled, run, rfl⟩⟩

theorem overruns_load (vector : τ.container = true) (data : List τ.storage.Native) :
    Overruns (τ.load S it base data) := by
  cases τ with
  | native T vector => exact (overruns_fill _ _).map _
  | bool vector =>
    exact .bind (overruns_fill _ _) (fun _ => .bind (overruns_drain _ _) (fun _ =>
      .bind (overruns_fill _ _) (fun _ => .pure _)))
  | bitset | string => cases vector
  | strings => exact .bind (overruns_fill _ _) (fun _ => .bind (overruns_split _ _ _) (fun _ => .pure _))

theorem overruns_store (vector : τ.container = true) : Overruns (τ.store S it base) := by
  cases τ with
  | native T vector => exact (overruns_drain _ _).map _
  | bool vector =>
    exact .bind (overruns_drain _ _) (fun _ => .bind (overruns_fill _ _) (fun _ =>
      .bind (overruns_drain _ _) (fun _ => .pure _)))
  | bitset | string => cases vector
  | strings => exact (overruns_join _ _ _).map _

theorem read_overrun {row : Int} {w w' : World} :
    τ.read api S t it row base w = .error .overrun w' ↔
      w' = w ∧ ∃ data, τ.request api it row (w.current (w.base (.table t)).file) = .ok data ∧
        τ.load S it base data = .error .overrun := by
  rw [read_eq, bind_error]
  unfold onFile
  constructor
  · rintro (failed | ⟨data, _, answer, failed⟩)
    · obtain ⟨_, _, other, _⟩ := readChdu_error.mp failed
      cases other
    · obtain ⟨answer, still⟩ := readChdu_ok.mp answer
      obtain ⟨failed, same⟩ := ofExcept_error.mp failed
      exact ⟨same.trans still, data, answer, failed⟩
  · rintro ⟨rfl, data, answer, failed⟩
    exact Or.inr ⟨data, _, readChdu_of_ok answer, ofExcept_error.mpr ⟨failed, rfl⟩⟩

theorem write_overrun {row : Int} {w : World} :
    (∃ w', τ.write api S t it row base w = .error .overrun w') ↔
      τ.store S it base = .error .overrun := by
  rw [write_eq]
  constructor
  · rintro ⟨w', failed⟩
    rcases bind_error.mp failed with failed | ⟨stored, _, _, failed⟩
    · exact (ofExcept_error.mp failed).1
    · rcases bind_error.mp failed with failed | ⟨_, _, _, failed⟩
      · obtain ⟨_, other⟩ := editChdu_error failed
        cases other
      · exact (pure_error.mp failed).elim
  · intro failed
    exact ⟨w, bind_of_error (ofExcept_error.mpr ⟨failed, rfl⟩) _⟩

/-- A read of the variable stays within it and within the buffer, whatever a
CFITSIO that delivers as many elements as it is asked for delivers, and leaves it
with so many elements. -/
def ReadsWithin (t : Nat) (S : DynamicBitset) (τ : Target) (it : τ.Column) (base : τ.Value S)
    (n : Int) : Prop :=
  ∀ api row w, (∀ h data, τ.request api it row h = .ok data → data.length = τ.count it) →
    (∀ w', τ.read api S t it row base w ≠ .error .overrun w') ∧
    ∀ it' base' w', τ.read api S t it row base w = .ok (it', base') w' → τ.room S base' = n

def WritesWithin (t : Nat) (S : DynamicBitset) (τ : Target) (it : τ.Column) (base : τ.Value S) :
    Prop :=
  ∀ api row w w', τ.write api S t it row base w ≠ .error .overrun w'

def zeros : Cfitsio :=
  { Reference.api with
    readCol := fun T _ _ _ n _ => .ok (List.replicate n.toNat T.zero)
    readTblbytes := fun _ _ n _ => .ok (List.replicate n.toNat 0) }

theorem zeros_request (it : τ.Column) (vector : τ.container = true) (row : Int) (h : HduData) :
    ∃ data, τ.request zeros it row h = .ok data ∧ data.length = τ.count it := by
  cases τ with
  | native | bool | strings => exact ⟨_, rfl, List.length_replicate⟩
  | bitset | string => cases vector

theorem takes_of_room (vector : τ.container = true) (whole : τ.room S base = τ.elements info) :
    τ.Takes S info base := by
  cases τ with
  | native | bool => exact Int.le_of_eq whole.symm
  | bitset | string => cases vector
  | strings => exact Int.le_of_eq whole

theorem bytes_of_text {c : ColHead} {k : Nat} {offset : Int}
    (described : ColumnInfo.decode c k offset = .ok info) (text : info.columnType.id = .string) :
    info.nbytes = info.extent.nelem := by
  obtain ⟨_, _, _, _, _, _, cells⟩ := ColumnInfo.decode_ok described
  rw [cells, ColumnInfo.cellBytes, if_neg (by rw [text]; decide), if_pos text, Int.mul_one]

theorem readsWithin_iff (vector : τ.container = true) (sized : τ.Sized info it)
    (text : info.columnType.id = .string → info.nbytes = info.extent.nelem) (base : τ.Value S) :
    ReadsWithin t S τ it base (τ.elements info) ↔ τ.room S base = τ.elements info := by
  constructor
  · intro within
    obtain ⟨safe, exact⟩ := within zeros 1 StringColumn.fourBytes (fun h data answer => by
      obtain ⟨_, served, length⟩ := zeros_request it vector 1 h
      cases served.symm.trans answer
      exact length)
    obtain ⟨data, served, length⟩ := zeros_request it vector 1
      (StringColumn.fourBytes.current (StringColumn.fourBytes.base (.table t)).file)
    have loads : τ.load S it base data ≠ .error .overrun := fun failed =>
      safe _ (read_overrun.mpr ⟨rfl, data, served, failed⟩)
    obtain ⟨⟨it', base'⟩, load⟩ := (overruns_load vector data).within.mp loads
    rw [← load_room (by rintro rfl; cases vector) load]
    refine exact it' base' StringColumn.fourBytes ?_
    rw [read_eq]
    exact bind_ok.mpr ⟨data, _, readChdu_of_ok served, ofExcept_ok.mpr ⟨load, rfl⟩⟩
  · intro whole api row w served
    refine ⟨fun w' failed => ?_, fun it' base' w' run => ?_⟩
    · obtain ⟨_, data, answer, failed⟩ := read_overrun.mp failed
      obtain ⟨loaded, load⟩ := (load_iff vector sized text (served _ data answer)).mpr
        (takes_of_room vector whole)
      cases failed.symm.trans load
    · obtain ⟨_, data, load⟩ := read_ok run
      rw [load_room (by rintro rfl; cases vector) load]
      exact whole

theorem writesWithin_iff (vector : τ.container = true) (sized : τ.Sized info it) (base : τ.Value S) :
    WritesWithin t S τ it base ↔ τ.Gives S info base := by
  rw [← store_iff vector sized, ← (overruns_store vector).within]
  constructor
  · intro within failed
    obtain ⟨w', run⟩ := write_overrun.mpr failed
    exact within zeros 1 StringColumn.fourBytes w' run
  · intro stores api row w w' run
    exact stores (write_overrun.mp ⟨w', run⟩)

/-- A bound vector is read within bounds exactly when it has as many elements as the
column has, and written when it has as many at least, or for strings at most. -/
theorem within_iff {c : ColHead} {k : Nat} {offset : Int} (vector : τ.container = true)
    (described : ColumnInfo.decode c k offset = .ok info) (bound : Bound api t S info τ it)
    (base : τ.Value S) :
    (ReadsWithin t S τ it base (τ.elements info) ↔ τ.room S base = τ.elements info) ∧
      (WritesWithin t S τ it base ↔ τ.Gives S info base) :=
  ⟨readsWithin_iff vector bound.sized (bytes_of_text described) base,
    writesWithin_iff vector bound.sized base⟩

def three : ColumnInfo :=
  { ttype := "B", tunit := "", columnType := .byte, offset := 1, nbytes := 3, extent := [3]
    colnum := 1 }

def threeBytes : World :=
  (Reference.world (Reference.table [Reference.column "B" .byte 3 1] 1) Reference.primary
    Reference.primary).onto (.table 0)

theorem within_three : ∃ it, Bound Reference.api 0 listBitset three (.native .byte true) it ∧
    (ReadsWithin 0 listBitset (.native .byte true) it [1, 2, 3] (elements (.native .byte true) three) ↔
      (3 : Nat) = elements (.native .byte true) three) ∧
    (WritesWithin 0 listBitset (.native .byte true) it [1, 2, 3] ↔
      elements (.native .byte true) three ≤ (3 : Nat)) := by
  obtain ⟨it, base, made⟩ : ∃ it base, make listBitset (.native .byte true) three [] =
      .ok it base := ⟨_, _, rfl⟩
  have described : ColumnInfo.decode (Reference.head "B" .byte 3 1) 1 1 = .ok three := rfl
  have bound : Bound Reference.api 0 listBitset three (.native .byte true) it := .made made
  exact ⟨it, bound, within_iff rfl described bound ([1, 2, 3] : List Byte)⟩

/-- A vector that has become shorter is read and written behind its end, and one that
has become longer keeps its length; with more strings than there are slots, the
buffer is read and written behind its end. -/
theorem not_within : ∃ it base jt strings,
    make listBitset (.native .byte true) three [] = .ok it base ∧
    read Reference.api listBitset 0 (.native .byte true) it 1 [1, 2] threeBytes =
      .error .overrun threeBytes ∧
    write Reference.api listBitset 0 (.native .byte true) it 1 [1, 2] threeBytes =
      .error .overrun threeBytes ∧
    read Reference.api listBitset 0 (.native .byte true) it 1 [1, 2, 3, 4] threeBytes =
      .ok (it, [0, 0, 0, 4]) threeBytes ∧
    make listBitset .strings StringColumnVector.pairs [] = .ok jt strings ∧
    read zeros listBitset 0 .strings jt 1 [[], [], []] threeBytes = .error .overrun threeBytes ∧
    write zeros listBitset 0 .strings jt 1 [[], [], []] threeBytes = .error .overrun threeBytes :=
  ⟨_, _, _, _, rfl, rfl, rfl, rfl, rfl, rfl, rfl⟩

end Target
end MisFITS
