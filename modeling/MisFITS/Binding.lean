import MisFITS.Bits
import MisFITS.Row

/-! Bindings: the cell that a bound column asks for, what becomes of it, and the
room that it needs. A call leaves the column as it was but for its buffer. -/
namespace MisFITS
open Program HDU RowEntry

namespace Target

def count : (τ : Target) → τ.Column → Nat
  | .native _ _, it => it.natomic.toNat
  | .bool _, it => it.natomic.toNat
  | .bitset, it => it.buffer.length
  | .string, it => it.natomic.toNat
  | .strings, it => it.natomic.toNat

def request (api : Cfitsio) : (τ : Target) → τ.Column → Int → Read (List τ.storage.Native)
  | .native T _, it, row => api.readCol T it.colnum row 1 it.natomic
  | .bool _, it, row => api.readCol .logical it.colnum row 1 it.natomic
  | .bitset, it, row => api.readCol .byte it.colnum row 1 it.buffer.length
  | .string, it, row => api.readTblbytes row it.offset it.natomic
  | .strings, it, row => api.readTblbytes row it.offset it.natomic

variable (S : DynamicBitset)

def load : (τ : Target) → τ.Column → τ.Value S → List τ.storage.Native →
    Except Exception (τ.Column × τ.Value S)
  | .native _ _, it, base, data => (fill data base).map fun base => (it, base)
  | .bool _, it, base, data => BoolColumn.load it base data
  | .bitset, it, base, data => BitSetColumn.load S it base data
  | .string, it, _, data => StringColumn.load it data
  | .strings, it, base, data => StringColumnVector.load it base data

def submit (api : Cfitsio) : (τ : Target) → τ.Column → Int → List τ.storage.Native → Edit
  | .native T _, it, row, data => api.writeCol T it.colnum row 1 data
  | .bool _, it, row, data => api.writeCol .logical it.colnum row 1 data
  | .bitset, it, row, data => api.writeCol .byte it.colnum row 1 data
  | .string, it, row, data => api.writeTblbytes row it.offset data
  | .strings, it, row, data => api.writeTblbytes row it.offset data

def room : (τ : Target) → τ.Value S → Nat
  | .native _ _, base => base.length
  | .bool _, base => base.length
  | .bitset, base => S.size base
  | .string, _ => 0
  | .strings, base => base.length

def Fits : (τ : Target) → τ.Column → Nat → Prop
  | .native _ _, it, n => it.natomic ≤ n
  | .bool _, it, n => it.natomic ≤ n ∧ it.natomic ≤ it.buffer.length
  | .bitset, it, n => (it.id = .bit ∧ toSize it.nelem = n) ∨
      (it.id = .logical ∧ it.natomic ≤ n ∧ it.natomic ≤ it.buffer.length)
  | .string, it, _ => it.natomic ≤ it.buffer.length
  | .strings, it, n => it.natomic ≤ it.buffer.length ∧ it.width * n ≤ it.buffer.length

def buffer : (τ : Target) → τ.Column → List Byte
  | .native _ _, _ => []
  | .bool _, it | .bitset, it | .string, it | .strings, it => it.buffer

def withBuffer : (τ : Target) → τ.Column → List Byte → τ.Column
  | .native _ _, it, _ => it
  | .bool _, it, buffer | .bitset, it, buffer | .string, it, buffer | .strings, it, buffer =>
    { it with buffer }

/-- The same column object, with anything in its buffer. -/
def Alike (τ : Target) (it it' : τ.Column) : Prop :=
  ∃ buffer, buffer.length = (τ.buffer it).length ∧ it' = τ.withBuffer it buffer

variable {api : Cfitsio} {S} {t : Nat} {τ : Target} {it jt : τ.Column} {base : τ.Value S}
  {w : World} {row : Int}

theorem call_cell (api : Cfitsio) (row : Int) (data : List τ.storage.Native) :
    (τ.cell it row data).call api = τ.submit api it row data := by
  cases τ <;> rfl

/-- A method `read` is its request and what is done with the answer. -/
theorem read_eq : τ.read api S t it row base =
    (onFile (.table t) (readChdu · (τ.request api it row)) >>=
      fun data => ofExcept (τ.load S it base data)) := by
  cases τ with
  | native T vector =>
    change ((_ >>= fun data => ofExcept (fill data base)) >>= fun base => pure (it, base)) = _
    rw [bind_assoc]
    refine congrArg _ (funext fun data => ?_)
    change _ = ofExcept ((fill data base).map fun base => (it, base))
    cases fill data base <;> rfl
  | bool _ | bitset | string | strings => rfl

/-- A method `write` is what it makes of the variable and the call with it. -/
theorem write_eq : τ.write api S t it row base =
    (ofExcept (τ.store S it base) >>= fun stored =>
      onFile (.table t) (editChdu · (τ.submit api it row stored.2)) >>= fun _ =>
        pure stored.1) := by
  cases τ with
  | native T vector =>
    change ((ofExcept (drain it.natomic base) >>= _) >>= _) = _
    simp only [store, ofExcept_map, bind_assoc, pure_bind]
    rfl
  | bool vector =>
    simp only [store, ofExcept_bind, ofExcept_pure, bind_assoc, pure_bind]
    rfl
  | bitset =>
    simp only [store, ofExcept_bind, ofExcept_pure, bind_assoc, pure_bind]
    rfl
  | string | strings =>
    simp only [store, ofExcept_map, bind_assoc, pure_bind]
    rfl

theorem read_of_ok {data : List τ.storage.Native} {it' : τ.Column} {base' : τ.Value S}
    (here : w.Current (.table t))
    (request : τ.request api it row (w.unitOf (.table t)) = .ok data)
    (load : τ.load S it base data = .ok (it', base')) :
    τ.read api S t it row base w = .ok (it', base') w := by
  rw [← World.current_eq here] at request
  rw [read_eq]
  exact bind_ok.mpr ⟨data, w, readChdu_of_ok request, ofExcept_ok.mpr ⟨load, rfl⟩⟩

theorem read_still : Keeps Eq (τ.read api S t it row base) := by
  have refl : ∀ w : World, w = w := fun _ => rfl
  rw [read_eq]
  exact Keeps.bind (fun _ _ _ first later => first.trans later)
    (fun w => keeps_readChdu refl _ w) (fun _ => keeps_ofExcept refl _)

theorem read_ok {it' : τ.Column} {base' : τ.Value S} {w' : World}
    (run : τ.read api S t it row base w = .ok (it', base') w') :
    w' = w ∧ ∃ data, τ.load S it base data = .ok (it', base') := by
  refine ⟨(read_still.ok run).symm, ?_⟩
  rw [read_eq] at run
  obtain ⟨data, _, _, run⟩ := bind_ok.mp run
  exact ⟨data, (ofExcept_ok.mp run).1⟩

theorem Alike.refl (it : τ.Column) : τ.Alike it it := by
  refine ⟨τ.buffer it, rfl, ?_⟩
  cases τ <;> rfl

theorem Alike.trans {kt : τ.Column} (h : τ.Alike it jt) (h' : τ.Alike jt kt) : τ.Alike it kt := by
  obtain ⟨buffer, length, rfl⟩ := h
  obtain ⟨buffer', length', rfl⟩ := h'
  refine ⟨buffer', ?_, ?_⟩
  · rw [length']
    cases τ <;> first | rfl | exact length
  · cases τ <;> rfl

theorem Alike.symm (h : τ.Alike it jt) : τ.Alike jt it := by
  obtain ⟨buffer, length, rfl⟩ := h
  refine ⟨τ.buffer it, ?_, ?_⟩
  · cases τ <;> first | rfl | exact length.symm
  · cases τ <;> rfl

theorem Alike.request (alike : τ.Alike it jt) (api : Cfitsio) (row : Int) :
    τ.request api jt row = τ.request api it row := by
  obtain ⟨buffer, length, rfl⟩ := alike
  cases τ with
  | bitset => exact congrArg (fun n : Nat => api.readCol .byte it.colnum row 1 n) length
  | native | bool | string | strings => rfl

theorem Alike.count (alike : τ.Alike it jt) : τ.count jt = τ.count it := by
  obtain ⟨buffer, length, rfl⟩ := alike
  cases τ with
  | bitset => exact length
  | native | bool | string | strings => rfl

theorem Alike.fits {n : Nat} (alike : τ.Alike it jt) (fits : τ.Fits it n) : τ.Fits jt n := by
  obtain ⟨buffer, length, rfl⟩ := alike
  cases τ with
  | native => exact fits
  | bool => exact ⟨fits.1, fits.2.trans_eq (congrArg Nat.cast length.symm)⟩
  | bitset =>
    rcases fits with ⟨bit, size⟩ | ⟨logical, room, chars⟩
    · exact Or.inl ⟨bit, size⟩
    · exact Or.inr ⟨logical, room, chars.trans_eq (congrArg Nat.cast length.symm)⟩
  | string =>
    have chars : it.natomic ≤ it.buffer.length := fits
    exact chars.trans_eq (congrArg Nat.cast length.symm)
  | strings =>
    exact ⟨fits.1.trans_eq (congrArg Nat.cast length.symm), fits.2.trans_eq length.symm⟩

theorem alike_load (lawful : S.Lawful) {data : List τ.storage.Native} {it' : τ.Column}
    {base' : τ.Value S} (run : τ.load S it base data = .ok (it', base')) : τ.Alike it it' := by
  cases τ with
  | native T vector =>
    obtain ⟨_, _, pair⟩ := except_map_ok.mp run
    cases pair
    exact .refl it
  | bool vector =>
    obtain ⟨buffer, rfl, kept, _⟩ := BoolColumn.load_kept run
    exact ⟨buffer, kept, rfl⟩
  | bitset =>
    obtain ⟨buffer, rfl, kept, _⟩ := BitSetColumn.load_kept lawful run
    exact ⟨buffer, kept, rfl⟩
  | string =>
    obtain ⟨buffer, rfl, kept⟩ := StringColumn.load_kept run
    exact ⟨buffer, kept, rfl⟩
  | strings =>
    obtain ⟨buffer, rfl, kept, _⟩ := StringColumnVector.load_kept run
    exact ⟨buffer, kept, rfl⟩

theorem load_room (other : τ ≠ .bitset) {data : List τ.storage.Native} {it' : τ.Column}
    {base' : τ.Value S} (run : τ.load S it base data = .ok (it', base')) :
    τ.room S base' = τ.room S base := by
  cases τ with
  | native T vector =>
    obtain ⟨_, fills, pair⟩ := except_map_ok.mp run
    cases pair
    exact fill_length fills
  | bool vector =>
    obtain ⟨_, _, _, length⟩ := BoolColumn.load_kept run
    exact length
  | bitset => exact (other rfl).elim
  | string => rfl
  | strings =>
    obtain ⟨_, _, _, length⟩ := StringColumnVector.load_kept run
    exact length

theorem load_kept (api : Cfitsio) (lawful : S.Lawful) {data : List τ.storage.Native} {it' : τ.Column}
    {base' : τ.Value S} (fits : τ.Fits it (τ.room S base))
    (run : τ.load S it base data = .ok (it', base')) :
    τ.room S base' = τ.room S base ∧ τ.Fits it' (τ.room S base) ∧ τ.count it' = τ.count it ∧
      ∀ row, τ.request api it' row = τ.request api it row := by
  have alike := alike_load lawful run
  refine ⟨?_, alike.fits fits, alike.count, alike.request api⟩
  by_cases set : τ = .bitset
  · subst set
    obtain ⟨_, _, _, bits, flags⟩ := BitSetColumn.load_kept lawful run
    rcases fits with ⟨bit, size⟩ | ⟨logical, _, _⟩
    · exact (bits bit).trans size
    · exact flags (by rw [logical]; decide)
  · exact load_room set run

theorem load_returns (lawful : S.Lawful) (fits : τ.Fits it (τ.room S base))
    {data : List τ.storage.Native} (whole : data.length = τ.count it) :
    ∃ it' base', τ.load S it base data = .ok (it', base') := by
  cases τ with
  | native T vector =>
    have room : data.length ≤ base.length := by
      rw [whole]
      exact Int.toNat_le.mpr fits
    exact ⟨it, _, except_map_ok.mpr ⟨_, fill_ok room, rfl⟩⟩
  | bool vector => exact BoolColumn.load_returns fits.1 fits.2 whole
  | bitset =>
    rcases fits with ⟨bit, _⟩ | ⟨logical, room, chars⟩
    · exact BitSetColumn.load_bit bit whole base
    · exact BitSetColumn.load_logical lawful logical whole room chars
  | string => exact StringColumn.load_returns fits whole
  | strings => exact StringColumnVector.load_returns fits.1 fits.2 whole

/-! What the constructors make room for. -/
section Make

variable {info : ColumnInfo} {width : Int} {base' : τ.Value S}

theorem resizeTo_length {α : Type} (base : List α) (n : Nat) (value : α) :
    (resizeTo base n value).length = n := by
  simp [resizeTo]

def pointer : Target → Bool
  | .native _ vector | .bool vector => !vector
  | _ => false

def cellCount : Target → ColumnInfo → Int
  | .native T _, info => (Column.init T info).natomic
  | _, info => info.extent.nelem

theorem le_toSize {x : Int} (small : x < 2 ^ 64) : x ≤ toSize x := by
  unfold toSize
  omega

theorem le_replicate {α : Type} {x : Int} (small : x < 2 ^ 64) (value : α) :
    x ≤ (List.replicate (toSize x) value).length := by
  rw [List.length_replicate]
  exact le_toSize small

theorem le_resizeTo {α : Type} {x : Int} (small : x < 2 ^ 64) (base : List α) (value : α) :
    x ≤ (resizeTo base (toSize x) value).length := by
  rw [resizeTo_length]
  exact le_toSize small

theorem init_le (T : StorageType) (count : 0 ≤ info.extent.nelem) :
    (Column.init T info).natomic ≤ info.extent.nelem := by
  have floor := Int.tdiv_eq_ediv_of_nonneg (b := 8) count
  unfold Column.init ColumnBase.ofInfo
  dsimp only
  split
  · dsimp only
    split <;> omega
  · exact Int.le_refl _

theorem nelem_lt (info : ColumnInfo) : info.extent.nelem < 2 ^ 64 := by
  rw [Extent.nelem_eq]
  have := toInt_bounds info.extent.prod
  omega

theorem make_bitset_fits (lawful : S.Lawful) {it : BitSetColumn} {base base' : S.Bits}
    (run : BitSetColumn.make S info base = .ok it base') :
    Target.Fits .bitset it (S.size base') := by
  by_cases bit : info.columnType.id = .bit
  · cases (BitSetColumn.make_bit bit base).symm.trans run
    exact Or.inl ⟨rfl, (lawful.size_resize _ _).symm⟩
  · obtain ⟨logical, same, buffer, rfl⟩ := BitSetColumn.make_logical bit run
    have natomic : it.natomic = info.extent.nelem := congrArg ColumnBase.natomic same
    have room : info.extent.nelem ≤ S.size (S.resize base (toSize info.extent.nelem)) := by
      rw [lawful.size_resize]
      exact le_toSize (nelem_lt info)
    refine Or.inr ⟨(congrArg ColumnBase.id same).trans logical, natomic ▸ room, ?_⟩
    rw [natomic, buffer]
    exact le_replicate (nelem_lt info) _

theorem make_fits (lawful : S.Lawful) (count : 0 ≤ info.extent.nelem)
    (cells : info.nbytes = ColumnInfo.cellBytes info.columnType info.extent.nelem width)
    (array : τ.pointer = true → τ.cellCount info ≤ τ.room S base)
    (run : τ.make S info base = .ok it base') : τ.Fits it (τ.room S base') := by
  have small := nelem_lt info
  have bytes : info.columnType.id = .string → info.nbytes = info.extent.nelem := by
    intro text
    rw [cells, ColumnInfo.cellBytes, if_neg (by rw [text]; decide), if_pos text, Int.mul_one]
  cases τ with
  | native T vector =>
    have least := init_le T count
    cases vector with
    | false =>
      cases run
      exact array rfl
    | true =>
      cases run
      exact le_resizeTo (by omega) base _
  | bool vector =>
    cases vector with
    | false =>
      cases run
      exact ⟨array rfl, le_replicate small _⟩
    | true =>
      cases run
      exact ⟨le_resizeTo small base _, le_replicate small _⟩
  | bitset => exact make_bitset_fits lawful run
  | string =>
    obtain ⟨text, run⟩ := check_ok.mp run
    obtain ⟨_, _, sets, run⟩ := bind_ok.mp run
    cases run
    have fewer : info.nbytes < 2 ^ 64 := (bytes (not_not.mp text)).trans_lt small
    exact le_replicate fewer _
  | strings =>
    obtain ⟨n, axis, run⟩ := ofExcept_bind_ok.mp run
    obtain ⟨text, run⟩ := check_ok.mp run
    obtain ⟨_, run⟩ := check_ok.mp run
    obtain ⟨_, _, sets, run⟩ := bind_ok.mp run
    cases modify_ok.mp sets
    cases run
    have fewer : info.nbytes < 2 ^ 64 := (bytes (not_not.mp text)).trans_lt small
    refine ⟨le_replicate fewer _, ?_⟩
    change n * (resizeTo _ _ _).length ≤ (List.replicate _ _).length
    rw [resizeTo_length, List.length_replicate, bytes (not_not.mp text)]
    exact Nat.mul_div_le _ _

end Make

end Target

namespace Session

variable {api : Cfitsio} {S : DynamicBitset} {s s' : Session S} {e t : Nat} {row : Int} {u u' : Unit}

theorem writeEntryBy_ok {fault : Option WriteFault} {entry : Entry} :
    Row.writeEntryBy api fault t row e entry s = .ok u s' ↔
      ∃ column data w,
        entry.var.target.store S entry.column (s.vars entry.var) = .ok (column, data) ∧
        onFile (.table t)
          (editChdu · (Row.writeCall api fault (entry.var.target.cell entry.column row data)))
          s.world = .ok () w ∧
        s' = { s.store e entry.var column (s.vars entry.var) with world := w } := by
  constructor
  · intro run
    obtain ⟨⟨column, data⟩, _, stores, run⟩ := bind_ok.mp run
    obtain ⟨_, stores, same⟩ := onWorld_ok.mp stores
    obtain ⟨stores, still⟩ := ofExcept_ok.mp stores
    rw [still] at same
    rw [same] at run
    obtain ⟨_, _, sets, run⟩ := bind_ok.mp run
    cases modify_ok.mp sets
    obtain ⟨w, edits, same⟩ := onWorld_ok.mp run
    exact ⟨column, data, w, stores, edits, same⟩
  · rintro ⟨column, data, w, stores, edits, rfl⟩
    have first : onWorld (ofExcept (entry.var.target.store S entry.column (s.vars entry.var))) s =
        .ok (column, data) s := onWorld_of_ok (ofExcept_ok.mpr ⟨stores, rfl⟩)
    exact bind_ok.mpr ⟨_, s, first, bind_ok.mpr ⟨(), _, rfl, onWorld_of_ok edits⟩⟩

theorem writeEntry_ok (run : Row.writeEntry api t row u e s = .ok u' s') :
    ∃ column w', (s.entries e).var.target.write api S t (s.entries e).column row
        (s.vars (s.entries e).var) s.world = .ok column w' ∧
      s' = { s with
        world := w', entries := Function.update s.entries e ⟨(s.entries e).var, column⟩ } := by
  obtain ⟨column, data, w', stores, edits, rfl⟩ := writeEntryBy_ok.mp run
  have submits : onFile (.table t) (editChdu · ((s.entries e).var.target.submit api
      (s.entries e).column row data)) s.world = .ok () w' := by
    rw [← Target.call_cell]
    exact edits
  refine ⟨column, w', ?_, by simp [store]⟩
  rw [Target.write_eq]
  exact bind_ok.mpr ⟨(column, data), _, ofExcept_ok.mpr ⟨stores, rfl⟩,
    bind_ok.mpr ⟨(), w', submits, rfl⟩⟩

/-- A pass that throws does so as its class does, with the same files. -/
theorem writeEntry_error {x : Exception} (run : Row.writeEntry api t row u e s = .error x s') :
    (s.entries e).var.target.write api S t (s.entries e).column row (s.vars (s.entries e).var)
      s.world = .error x s'.world := by
  rw [Target.write_eq]
  rcases bind_error.mp run with stops | ⟨⟨column, data⟩, _, stores, run⟩
  · obtain ⟨w, thrown, rfl⟩ := onWorld_error.mp stops
    exact bind_of_error thrown _
  · obtain ⟨_, stored, rfl⟩ := onWorld_ok.mp stores
    obtain ⟨value, rfl⟩ := ofExcept_ok.mp stored
    obtain ⟨_, _, sets, run⟩ := (bind_error.mp run).resolve_left nofun
    cases modify_ok.mp sets
    obtain ⟨w, edits, rfl⟩ := onWorld_error.mp run
    have submits : onFile (.table t) (editChdu · ((s.entries e).var.target.submit api
        (s.entries e).column row data)) s.world = .error x w := by
      rw [← Target.call_cell]
      exact edits
    exact bind_error.mpr (Or.inr ⟨(column, data), _, ofExcept_ok.mpr ⟨value, rfl⟩,
      bind_error.mpr (Or.inl submits)⟩)

end Session

end MisFITS
