import MisFITS.Insertions
import MisFITS.ResizedColumns
import MisFITS.RowStore

/-! Rows whose columns were bound before columns were added to their table, or deleted from
it. A bound column keeps a number or a place in the row, and is not told of any edit. -/
namespace MisFITS
open ColumnType Program HDU Run Slices Insertions
open Reference (head_of_column column_of_head)

/-- The documented behaviour of the calls when columns move: rows are neither added nor
lost, and what a column answers depends on its cells alone. -/
structure MovedColumns (api : Cfitsio) : Prop where
  insert_col : ∀ {h h' k ttype tform}, api.insertCol k ttype tform h = .ok () h' → h'.nrows = h.nrows
  write_tdim : ∀ {h h' k axes}, api.writeTdim k axes h = .ok () h' → h'.nrows = h.nrows
  delete_col : ∀ {h h' k}, api.deleteCol k h = .ok () h' → h'.nrows = h.nrows
  read_col : ∀ {T j k row h h' c} {n : Nat}, h.column j = some c → h'.column k = some c →
    n ≤ c.elements → 1 ≤ row → row ≤ h.nrows → row ≤ h'.nrows →
    api.readCol T k row 1 n h' = api.readCol T j row 1 n h

namespace Table
open ColumnInfo

namespace ColumnEdit

def inHeader (api : Cfitsio) (t : Nat) (w : World) : ColumnEdit → Option (Splice ColHead)
  | .add ci => some (.insert (added w t ci.colnum - 1) (inserted ci))
  | .addNew ttype type tunit extent colnum =>
    (make api ttype type tunit extent (added w t colnum)).toOption.map
      fun ci => .insert (added w t colnum - 1) (inserted ci)
  | .delete colnum => some (.erase (colnum - 1))

/-- What becomes of the number of a column, and by how many bytes its cells have moved. -/
def carry (api : Cfitsio) (t : Nat) : Option ColumnEdit → World → Nat × Int → Option (Nat × Int)
  | none, _, place => some place
  | some e, w, place => do
    let edit ← e.inHeader api t w
    let n ← edit.carry (place.1 - 1)
    return (n + 1, place.2 +
      edit.growth (fun c => (c.rowBytes : Int)) (w.unitOf (.table t)).heads (place.1 - 1))

end ColumnEdit

variable {api : Cfitsio} {t : Nat} {w w' : World}

theorem inserted_nrows (moved : MovedColumns api) {h h' : HduData} (calls : Inserted api h h') :
    h'.nrows = h.nrows := by
  obtain ⟨_, _, _, h₁, first, rfl | ⟨_, second⟩⟩ := calls
  · exact moved.insert_col first
  · rw [moved.write_tdim second, moved.insert_col first]

theorem inserted_sized (raw : RawBytes api) {h h' : HduData} (calls : Inserted api h h')
    (sized : h.Sized) : h'.Sized := by
  obtain ⟨_, _, _, h₁, first, rfl | ⟨_, second⟩⟩ := calls
  · exact raw.insert_col first sized
  · exact raw.write_tdim second (raw.insert_col first sized)

/-- The other columns keep their headers and cells through an edit. -/
theorem editStep_columns (doc : Documented api) (raw : RawBytes api) (moved : MovedColumns api)
    {e : ColumnEdit} (step : EditStep api t (some e) w w') (sized : (w.unitOf (.table t)).Sized) :
    ∃ edit : Splice Col, e.inHeader api t w = some (edit.map Col.toColHead) ∧
      edit.Inside (w.unitOf (.table t)).cols.length ∧
      (w'.unitOf (.table t)).cols = edit.on (w.unitOf (.table t)).cols ∧
      (w'.unitOf (.table t)).nrows = (w.unitOf (.table t)).nrows ∧
      (w'.unitOf (.table t)).Sized := by
  obtain ⟨range, run⟩ := step
  cases e with
  | add ci =>
    obtain ⟨h, cells, refreshes, calls, cols⟩ := add_run doc range run
    rw [unitOf_refreshed doc refreshes]
    have high := added_le (t := t) range
    exact ⟨.insert (added w t ci.colnum - 1) ⟨inserted ci, cells⟩, rfl, by
      change added w t ci.colnum - 1 ≤ _
      omega, cols, inserted_nrows moved calls, inserted_sized raw calls sized⟩
  | addNew ttype type tunit extent colnum =>
    obtain ⟨ci, h, cells, made, refreshes, calls, cols⟩ := addNew_run doc range run
    rw [unitOf_refreshed doc refreshes]
    have high := added_le (t := t) range
    refine ⟨.insert (added w t colnum - 1) ⟨inserted ci, cells⟩, ?_, ?_, cols,
      inserted_nrows moved calls, inserted_sized raw calls sized⟩
    · simp [ColumnEdit.inHeader, made, Splice.map, Except.toOption]
    · change added w t colnum - 1 ≤ _
      omega
  | delete colnum =>
    replace run := setAsChdu_bind_ok doc run
    obtain ⟨_, _, edits, refreshes⟩ := bind_ok.mp run
    obtain ⟨h, deleted, rfl⟩ := editFile_ok edits
    rw [unitOf_refreshed doc refreshes]
    obtain ⟨low, high, cols, _⟩ := doc.delete_col deleted
    have nrows := moved.delete_col deleted
    refine ⟨.erase (colnum - 1), rfl, ?_, cols, nrows, fun r first last c member => ?_⟩
    · change colnum - 1 < _
      omega
    · rw [cols] at member
      exact sized r first (nrows ▸ last) c (List.mem_of_mem_eraseIdx member)

theorem front_heads (h : HduData) (n : Nat) :
    front (fun c : ColHead => (c.rowBytes : Int)) h.heads n = start h.sizes n := by
  rw [front, sum_rowBytes, start, HduData.sizes, List.map_take]

theorem column_of_pos {h : HduData} {k : Nat} (low : 1 ≤ k) : h.column k = h.cols[k - 1]? := by
  rw [HduData.column, if_neg (by omega)]

/-- Column `k` of a table has come to this place, with all its cells. -/
structure Carried (h₀ : HduData) (k : Nat) (h : HduData) (place : Nat × Int) : Prop where
  low : 1 ≤ place.1
  column : h.column place.1 = h₀.column k
  front : (start h.sizes (place.1 - 1) : Int) = start h₀.sizes (k - 1) + place.2
  nrows : h.nrows = h₀.nrows
  sized : h.Sized

theorem Carried.start {h : HduData} {k : Nat} (low : 1 ≤ k) (sized : h.Sized) :
    Carried h k h (k, 0) where
  low := low
  column := rfl
  front := by simp
  nrows := rfl
  sized := sized

theorem Carried.step (doc : Documented api) (raw : RawBytes api) (moved : MovedColumns api)
    {h₀ : HduData} {k : Nat} {e : Option ColumnEdit} {place place' : Nat × Int}
    (step : EditStep api t e w w') (carried : Carried h₀ k (w.unitOf (.table t)) place)
    (alive : ColumnEdit.carry api t e w place = some place') :
    Carried h₀ k (w'.unitOf (.table t)) place' := by
  cases e with
  | none =>
    obtain ⟨_, unit⟩ : w'.tables t = w.tables t ∧
      w'.unitOf (.table t) = w.unitOf (.table t) := step
    cases alive
    rw [unit]
    exact carried
  | some e =>
    obtain ⟨edit, known, inside, cols, nrows, sized⟩ :=
      editStep_columns doc raw moved step carried.sized
    simp only [ColumnEdit.carry, known, Option.bind_eq_bind, Option.bind_some, carry_map,
      Option.bind_eq_some_iff, Option.pure_def, Option.some.injEq] at alive
    obtain ⟨n, there, rfl⟩ := alive
    have heads : (w'.unitOf (.table t)).heads =
        (edit.map Col.toColHead).on (w.unitOf (.table t)).heads := by
      rw [HduData.heads, cols, map_on]
      rfl
    constructor
    · exact Nat.succ_pos n
    · rw [← carried.column, column_of_pos (Nat.succ_pos n), column_of_pos carried.low, cols]
      exact getElem?_carry inside there
    · have inside' : (edit.map Col.toColHead).Inside (w.unitOf (.table t)).heads.length := by
        rw [HduData.heads, List.length_map]
        cases edit <;> exact inside
      have grown := front_carry (fun c : ColHead => (c.rowBytes : Int)) inside'
        ((congrFun (carry_map _ edit) _).trans there)
      rw [← heads, front_heads, front_heads, carried.front] at grown
      simpa [add_assoc] using grown
    · exact nrows.trans carried.nrows
    · exact sized

theorem Carried.run (doc : Documented api) (raw : RawBytes api) (moved : MovedColumns api)
    {k : Nat} {place : Nat × Int} {trace : List (Option ColumnEdit × World)}
    (run : Trace (EditStep api t) w trace) (low : 1 ≤ k) (sized : (w.unitOf (.table t)).Sized)
    (alive : follow (ColumnEdit.carry api t) w (k, 0) trace = some place) :
    Carried (w.unitOf (.table t)) k ((last w trace).unitOf (.table t)) place := by
  have keeps : ∀ e v v' p p', EditStep api t e v v' →
      Carried (w.unitOf (.table t)) k (v.unitOf (.table t)) p →
      ColumnEdit.carry api t e v p = some p' →
      Carried (w.unitOf (.table t)) k (v'.unitOf (.table t)) p' :=
    fun _ _ _ _ _ step carried => carried.step doc raw moved step
  exact Trace.follow keeps run (.start low sized) alive

end Table

namespace Target

variable {S : DynamicBitset} {τ : Target} {it jt : τ.Column} {k : Nat} {h h₀ : HduData}
  {api : Cfitsio} {row : Int} {place : Nat × Int}

/-- The bound column asks for the cells of column `k`: by its number, or, for text, by
the place of the cells in the row. -/
def Covers (heads : List ColHead) (k : Nat) (τ : Target) (it : τ.Column) : Prop :=
  1 ≤ k ∧ ∃ c, heads[k - 1]? = some c ∧
    match τ, it with
    | .native _ _, it => it.colnum = k ∧ 0 ≤ it.natomic ∧ it.natomic ≤ c.elements
    | .bool _, it => it.colnum = k ∧ 0 ≤ it.natomic ∧ it.natomic ≤ c.elements
    | .bitset, it => it.colnum = k ∧ it.buffer.length ≤ c.elements
    | .string, it => it.offset = 1 + (start (heads.map ColHead.rowBytes) (k - 1) : Int) ∧
      it.natomic = c.rowBytes
    | .strings, it => it.offset = 1 + (start (heads.map ColHead.rowBytes) (k - 1) : Int) ∧
      it.natomic = c.rowBytes

def Still (τ : Target) (k : Nat) (place : Nat × Int) : Prop :=
  if τ.text = true then place.2 = 0 else place.1 = k

instance (τ : Target) (k : Nat) (place : Nat × Int) : Decidable (τ.Still k place) :=
  inferInstanceAs (Decidable (if τ.text = true then place.2 = 0 else place.1 = k))

/-- A bound column covers its column in another place just when that did not move as far
as the binding goes. -/
theorem covers_carried_iff (covers : Covers h₀.heads k τ it)
    (carried : Table.Carried h₀ k h place) : Covers h.heads place.1 τ it ↔ τ.Still k place := by
  obtain ⟨low, c, head, asks⟩ := covers
  obtain ⟨col, column, same⟩ := column_of_head low head
  have there : h.heads[place.1 - 1]? = some c := same ▸ head_of_column (carried.column.trans column)
  have front : (start (h.heads.map ColHead.rowBytes) (place.1 - 1) : Int) =
    start (h₀.heads.map ColHead.rowBytes) (k - 1) + place.2 := carried.front
  unfold Covers Still
  simp only [there, carried.low, true_and, Option.some.injEq, exists_eq_left']
  cases τ with
  | native | bool | bitset =>
    obtain ⟨number, room⟩ := asks
    simp [Target.text, number, room, eq_comm]
  | string | strings =>
    obtain ⟨offset, bytes⟩ := asks
    simp only [offset, bytes, Target.text, if_true, and_true, front]
    omega

theorem request_bytes (raw : RawBytes api) {c : Col} (sized : h.Sized) (low : 1 ≤ k)
    (column : h.column k = some c) (first : 1 ≤ row) (last : row ≤ h.nrows) :
    api.readTblbytes row (1 + (start h.sizes (k - 1) : Int)) (c.rowBytes : Int) h =
      .ok (c.cells row) := by
  have size := HduData.sizes_column column
  have cell := HduData.cell_slice (sized row first last) low size
  rw [raw.read sized first last (start_add_le_sum size)]
  rw [HduData.cell, column] at cell
  exact congrArg Except.ok (Option.some.inj cell).symm

theorem request_carried (raw : RawBytes api) (moved : MovedColumns api) (sized : h₀.Sized)
    (covers : Covers h₀.heads k τ it) (carried : Table.Carried h₀ k h place)
    (covers' : Covers h.heads place.1 τ jt) (count : τ.count jt = τ.count it) (first : 1 ≤ row)
    (last : row ≤ h₀.nrows) : τ.request api jt row h = τ.request api it row h₀ := by
  obtain ⟨low, _, head, asks⟩ := covers
  obtain ⟨_, _, head', asks'⟩ := covers'
  obtain ⟨c, column, rfl⟩ := column_of_head low head
  have column' : h.column place.1 = some c := carried.column.trans column
  cases (head_of_column column').symm.trans head'
  have last' : row ≤ h.nrows := carried.nrows ▸ last
  have reads : ∀ {T} {n : Nat}, n ≤ c.elements →
      api.readCol T place.1 row 1 n h = api.readCol T k row 1 n h₀ :=
    fun room => moved.read_col column column' room first last last'
  cases τ with
  | native | bool =>
    obtain ⟨number, positive, room⟩ := asks
    obtain ⟨number', positive', _⟩ := asks'
    have count : jt.natomic.toNat = it.natomic.toNat := count
    simp only [request, number, number']
    rw [← Int.toNat_of_nonneg positive', count, ← Int.toNat_of_nonneg positive]
    exact reads (by omega)
  | bitset =>
    obtain ⟨number, room⟩ := asks
    have count : jt.buffer.length = it.buffer.length := count
    simp only [request, number, asks'.1, count]
    exact reads room
  | string | strings =>
    obtain ⟨offset, bytes⟩ := asks
    obtain ⟨offset', bytes'⟩ := asks'
    simp only [request, offset, bytes, offset', bytes']
    exact (request_bytes raw carried.sized carried.low column' first last').trans
      (request_bytes raw sized low column first last).symm

/-- What becomes of a bound column whose cells come to another place: they are there, a
column that is bound there asks for them, and this one does if it need not know. -/
structure Moves (api : Cfitsio) (h₀ h : HduData) (k : Nat) (place : Nat × Int) (τ : Target)
    (it : τ.Column) : Prop where
  column : h.column place.1 = h₀.column k
  covers : Covers h.heads place.1 τ it ↔ τ.Still k place
  again : ∀ jt, Covers h.heads place.1 τ jt → τ.count jt = τ.count it → ∀ row, 1 ≤ row →
    row ≤ h₀.nrows → τ.request api jt row h = τ.request api it row h₀

theorem moves_of_run (doc : Documented api) (raw : RawBytes api) (moved : MovedColumns api)
    {t : Nat} {w : World} {trace : List (Option Table.ColumnEdit × World)}
    (sized : (w.unitOf (.table t)).Sized) (run : Trace (Table.EditStep api t) w trace)
    (covers : Covers (w.unitOf (.table t)).heads k τ it)
    (alive : follow (Table.ColumnEdit.carry api t) w (k, 0) trace = some place) :
    Moves api (w.unitOf (.table t)) ((last w trace).unitOf (.table t)) k place τ it ∧
      ((last w trace).unitOf (.table t)).nrows = (w.unitOf (.table t)).nrows := by
  have carried := Table.Carried.run doc raw moved run covers.1 sized alive
  refine ⟨⟨carried.column, covers_carried_iff covers carried, fun jt there count row low high => ?_⟩,
    carried.nrows⟩
  exact request_carried raw moved sized covers carried there count low high

theorem covers_of_make {it : τ.Column} (lawful : S.Lawful) {t : Nat} {w : World} (grown : Table.Grown w t)
    {info : ColumnInfo} {base base' : τ.Value S} (entry : (w.tables t).columns[k]? = some info)
    (bits : info.columnType.id = .bit → τ.bytewise = true)
    (array : τ.pointer = true → τ.cellCount info ≤ τ.room S base)
    (run : τ.make S info base = .ok it base') :
    Covers (w.unitOf (.table t)).heads (k + 1) τ it := by
  obtain ⟨positive, lies, _⟩ := make_binds lawful (grown.lies entry) bits array run
  obtain ⟨ci, _, head, described, offset, nbytes⟩ := grown.place entry
  have number : info.colnum = k + 1 := by
    have := (ColumnInfo.decode_ok described).2.2.2.2.1
    omega
  have room : ∀ {n : Int} {j : Nat}, some j = some info.colnum →
      (∃ x, (w.unitOf (.table t)).heads[j - 1]? = some x ∧ n.toNat ≤ x.elements) →
      j = k + 1 ∧ n.toNat ≤ (ColumnInfo.inserted ci).elements := by
    rintro n j same' ⟨x, found, fits⟩
    obtain rfl : j = k + 1 := (Option.some.inj same').trans number
    cases found.symm.trans head
    exact ⟨rfl, fits⟩
  refine ⟨Nat.succ_pos k, _, head, ?_⟩
  cases τ with
  | native | bool =>
    obtain ⟨place, fits⟩ := room (make_number rfl run) lies.2
    exact ⟨place, Int.le_of_lt positive, by omega⟩
  | bitset =>
    obtain ⟨place, fits⟩ := room (make_number rfl run) lies.2.2
    have buffer : it.natomic = it.buffer.length := lies.1
    exact ⟨place, by omega⟩
  | string =>
    obtain ⟨_, run⟩ := check_ok.mp run
    obtain ⟨_, _, _, run⟩ := bind_ok.mp run
    cases run
    exact ⟨by simp [offset, HduData.sizes], by simp [nbytes]⟩
  | strings =>
    obtain ⟨_, _, run⟩ := ofExcept_bind_ok.mp run
    obtain ⟨_, run⟩ := check_ok.mp run
    obtain ⟨_, run⟩ := check_ok.mp run
    obtain ⟨_, _, _, run⟩ := bind_ok.mp run
    cases run
    exact ⟨by simp [offset, HduData.sizes], by simp [nbytes]⟩

variable (S) in
def reply (api : Cfitsio) (it : τ.Column) (row : Int) (base : τ.Value S) (h : HduData) :
    Except Exception (τ.Column × τ.Value S) :=
  match τ.request api it row h with
  | .ok data => τ.load S it base data
  | .error status => .error (.cfitsio status)

theorem read_here {t : Nat} {w : World} {base : τ.Value S} (here : w.Current (.table t)) :
    τ.read api S t it row base w = ofExcept (reply S api it row base (w.unitOf (.table t))) w := by
  rw [read_eq, ← World.current_eq here]
  unfold reply onFile
  cases answer : τ.request api it row (w.current (w.base (.table t)).file) with
  | ok data => exact bind_of_ok (readChdu_of_ok answer) _
  | error status => exact bind_of_error (readChdu_error.mpr ⟨status, answer, rfl, rfl⟩) _

end Target

namespace Session

variable {api : Cfitsio} {S : DynamicBitset} {α : Type} {s : Session S} {w : World}

def inWorld (s : Session S) (w : World) : Session S := { s with world := w }

@[simp] theorem rows_inWorld : (s.inWorld w).rows = s.rows := rfl

@[simp] theorem entries_inWorld : (s.inWorld w).entries = s.entries := rfl

@[simp] theorem world_inWorld : (s.inWorld w).world = w := rfl

def outcomeIn (w : World) :
    EStateM.Result Exception (Session S) α → EStateM.Result Exception (Session S) α
  | .ok a s => .ok a (s.inWorld w)
  | .error e s => .error e (s.inWorld w)

def take (s : Session S) (e : Nat) (v : Variable) :
    Except Exception (v.target.Column × v.target.Value S) →
      EStateM.Result Exception (Session S) Unit
  | .ok (column, value) => .ok () (s.store e v column value)
  | .error thrown => .error thrown s

theorem take_inWorld {e : Nat} {v : Variable}
    (taken : Except Exception (v.target.Column × v.target.Value S)) :
    (s.inWorld w).take e v taken = outcomeIn w (s.take e v taken) := by
  cases taken <;> rfl

theorem readEntry_here {t e : Nat} {row : Int} {u : Unit} (here : s.world.Current (.table t))
    {entry : Entry} (bound : s.entries e = entry) :
    Row.readEntry api t row u e s =
      s.take e entry.var (Target.reply S api entry.column row (s.vars entry.var)
        (s.world.unitOf (.table t))) := by
  subst bound
  rw [Row.readEntry_def]
  cases reply : Target.reply S api (s.entries e).column row (s.vars (s.entries e).var)
      (s.world.unitOf (.table t)) with
  | ok taken =>
    have reads : onWorld ((s.entries e).var.target.read api S t (s.entries e).column row
        (s.vars (s.entries e).var)) s = .ok taken s := by
      unfold onWorld
      rw [Target.read_here here, reply]
      rfl
    exact bind_of_ok reads _
  | error thrown =>
    have stops : onWorld ((s.entries e).var.target.read api S t (s.entries e).column row
        (s.vars (s.entries e).var)) s = .error thrown s := by
      unfold onWorld
      rw [Target.read_here here, reply]
      rfl
    exact bind_of_error stops _

def SameAnswer (api : Cfitsio) (row : Int) (h h' : HduData) (entry : Entry) : Prop :=
  entry.var.target.request api entry.column row h' = entry.var.target.request api entry.column row h

theorem readEntry_inWorld {t e : Nat} {row : Int} (here : s.world.Current (.table t))
    (there : w.Current (.table t))
    (same : SameAnswer api row (s.world.unitOf (.table t)) (w.unitOf (.table t)) (s.entries e)) :
    Row.readEntry api t row () e (s.inWorld w) = outcomeIn w (Row.readEntry api t row () e s) := by
  have second : Row.readEntry api t row () e (s.inWorld w) = (s.inWorld w).take e
      (s.entries e).var (Target.reply S api (s.entries e).column row (s.vars (s.entries e).var)
        (w.unitOf (.table t))) := readEntry_here there rfl
  have equal : Target.reply S api (s.entries e).column row (s.vars (s.entries e).var)
      (w.unitOf (.table t)) = Target.reply S api (s.entries e).column row
        (s.vars (s.entries e).var) (s.world.unitOf (.table t)) := by
    unfold Target.reply
    rw [same]
  rw [readEntry_here here rfl, ← take_inWorld, ← equal]
  exact second

theorem readEntry_alike (lawful : S.Lawful) {t e : Nat} {row : Int} {s' : Session S}
    (here : s.world.Current (.table t)) (run : Row.readEntry api t row () e s = .ok () s') :
    s'.world = s.world ∧ EntriesAlike s s' := by
  rw [readEntry_here here rfl] at run
  unfold Target.reply at run
  split at run
  · rename_i data _
    cases load : (s.entries e).var.target.load S (s.entries e).column (s.vars (s.entries e).var)
        data with
    | ok taken =>
      rw [load] at run
      cases run
      exact ⟨rfl, (EntriesAlike.refl s).store _ (Target.alike_load lawful load)⟩
    | error thrown =>
      rw [load] at run
      cases run
  · cases run

theorem readEntries_inWorld (lawful : S.Lawful) {t : Nat} {row : Int} {es : List Nat}
    (here : s.world.Current (.table t)) (there : w.Current (.table t))
    (same : ∀ e ∈ es,
      SameAnswer api row (s.world.unitOf (.table t)) (w.unitOf (.table t)) (s.entries e)) :
    es.foldlM (Row.readEntry api t row) () (s.inWorld w) =
      outcomeIn w (es.foldlM (Row.readEntry api t row) () s) := by
  induction es generalizing s with
  | nil => rfl
  | cons e es ih =>
    have first := readEntry_inWorld here there (same e List.mem_cons_self)
    rw [List.foldlM_cons]
    cases run : Row.readEntry api t row () e s with
    | error thrown s' =>
      rw [run] at first
      rw [bind_of_error first, bind_of_error run]
      rfl
    | ok u s' =>
      rw [run] at first
      rw [bind_of_ok first, bind_of_ok run]
      obtain ⟨world, entries⟩ := readEntry_alike lawful here run
      apply ih
      · rw [world]
        exact here
      · intro e' member
        obtain ⟨column, alike, entry⟩ := entries e'
        rw [world, entry, SameAnswer, alike.request]
        exact same e' (List.mem_cons_of_mem e member)

end Session

namespace Row
open Session

variable {api : Cfitsio} {S : DynamicBitset} {s : Session S} {w w' : World} {r : Nat}

/-- A row is read in another world as it is here when its columns are answered the same. -/
theorem read_inWorld (doc : Documented api) (lawful : S.Lawful) (bound : (s.rows r).entries ≠ [])
    (own : s.world.Attached (.table (s.rows r).table)) (own' : w.Attached (.table (s.rows r).table))
    (nrows : (w.unitOf (.table (s.rows r).table)).nrows =
      (s.world.unitOf (.table (s.rows r).table)).nrows)
    (same : (s.rows r).idx ≤ (s.world.unitOf (.table (s.rows r).table)).nrows →
      ∀ e ∈ (s.rows r).entries, SameAnswer api (s.rows r).idx
        (s.world.unitOf (.table (s.rows r).table)) (w.unitOf (.table (s.rows r).table))
        (s.entries e)) :
    read api r (s.inWorld w) = outcomeIn (w.onto (.table (s.rows r).table)) (read api r s) := by
  have there := read_eq (s := s.inWorld w) (r := r) doc bound own'
  have place : onto (s.inWorld w) r = (onto s r).inWorld (w.onto (.table (s.rows r).table)) := rfl
  rw [place, rows_inWorld, world_inWorld, nrows] at there
  rw [there, read_eq doc bound own]
  split
  · rfl
  · rename_i low
    have unit : (onto s r).world.unitOf (.table (s.rows r).table) =
        s.world.unitOf (.table (s.rows r).table) := World.unitOf_onto
    have loop : (s.rows r).entries.foldlM (readEntry api (s.rows r).table (s.rows r).idx) ()
        ((onto s r).inWorld (w.onto (.table (s.rows r).table))) =
          outcomeIn (w.onto (.table (s.rows r).table))
            ((s.rows r).entries.foldlM (readEntry api (s.rows r).table (s.rows r).idx) () (onto s r)) :=
      readEntries_inWorld lawful World.current_of_onto World.current_of_onto (fun e member => by
        rw [unit, World.unitOf_onto]
        exact same (by omega) e member)
    cases run : (s.rows r).entries.foldlM (readEntry api (s.rows r).table (s.rows r).idx) ()
        (onto s r) with
    | error thrown s' =>
      rw [run] at loop
      rw [bind_of_error loop, bind_of_error run]
      rfl
    | ok u s' =>
      rw [run] at loop
      rw [bind_of_ok loop, bind_of_ok run, bind_of_ok advanceAuto_eq, bind_of_ok advanceAuto_eq]
      rfl

/-- After any run of edits, each column that is left has its cells in its new place. A
column that was bound before goes on asking for them just when nothing that it goes by has
moved; if that is so of all columns, the row is read as it was. -/
theorem read_after_edits (doc : Documented api) (raw : RawBytes api) (moved : MovedColumns api)
    (lawful : S.Lawful) {t : Nat} (table : (s.rows r).table = t) (own : s.world.Attached (.table t))
    (sized : (s.world.unitOf (.table t)).Sized) {trace : List (Option Table.ColumnEdit × World)}
    (run : Trace (Table.EditStep api t) s.world trace) (ends : last s.world trace = w)
    (own' : w.Attached (.table t)) (bound : (s.rows r).entries ≠ []) (first : 1 ≤ (s.rows r).idx)
    {number : Nat → Nat} {place : Nat → Nat × Int}
    (covers : ∀ e ∈ (s.rows r).entries, (s.entries e).var.target.Covers
      (s.world.unitOf (.table t)).heads (number e) (s.entries e).column)
    (alive : ∀ e ∈ (s.rows r).entries,
      follow (Table.ColumnEdit.carry api t) s.world (number e, 0) trace = some (place e)) :
    (∀ e ∈ (s.rows r).entries, Target.Moves api (s.world.unitOf (.table t))
      (w.unitOf (.table t)) (number e) (place e) (s.entries e).var.target (s.entries e).column) ∧
    ((∀ e ∈ (s.rows r).entries, (s.entries e).var.target.Still (number e) (place e)) →
      read api r (s.inWorld w) = outcomeIn (w.onto (.table t)) (read api r s)) := by
  subst ends table
  have moves : ∀ e ∈ (s.rows r).entries, Target.Moves api _ _ (number e) (place e)
      (s.entries e).var.target (s.entries e).column ∧ _ := fun e member =>
    Target.moves_of_run doc raw moved sized run (covers e member) (alive e member)
  refine ⟨fun e member => (moves e member).1, fun still => ?_⟩
  obtain ⟨e₀, member₀⟩ := List.exists_mem_of_ne_nil _ bound
  refine read_inWorld doc lawful bound own own' (moves e₀ member₀).2 (fun high e member => ?_)
  obtain ⟨_, there, again⟩ := (moves e member).1
  exact again _ (there.mpr (still e member)) rfl _ first high

theorem covers_of_add (doc : Documented api) (lawful : S.Lawful) (s : Session S) {row : Row}
    (cursor : s.rows r = row) (grown : Table.Grown s.world row.table) {name : String} {k : Nat}
    (number : api.getColnum (s.world.unitOf (.table row.table)).names name = .ok k) {v : Variable}
    (bits : ∀ info : ColumnInfo, info.columnType.id = .bit → v.target.bytewise = true)
    (array : ∀ info, v.target.pointer = true → v.target.cellCount info ≤ v.target.room S (s.vars v))
    {u : Unit} {s' : Session S} (run : add api r name v s = .ok u s') :
    ∃ it, s'.entries s.made = ⟨v, it⟩ ∧
      v.target.Covers (s.world.unitOf (.table row.table)).heads k it := by
  subst cursor
  obtain ⟨_, info, it, value, named, low, entry, made, rfl⟩ := add_ok doc run
  cases named.symm.trans number
  have covers := Target.covers_of_make lawful grown entry (bits info) (array info) made
  rw [Nat.sub_add_cancel low] at covers
  exact ⟨it, entries_bindColumn_self, covers⟩

end Row

theorem Reference.movedColumns_raw : MovedColumns Reference.rawApi where
  insert_col run := by
    obtain ⟨_, _, rfl⟩ := insertCols_ok run
    rfl
  write_tdim run := by
    obtain ⟨_, _, rfl⟩ := onColumn_ok run
    rfl
  delete_col {h h' k} run := by
    change deleteCol k h = _ at run
    unfold deleteCol at run
    split at run <;> cases run
    rfl
  read_col {T j k row h h' c n} here there _ low high high' := by
    cases T with
    | byte =>
      change readCol .byte k row 1 n h' = readCol .byte j row 1 n h
      rw [readCol_byte low high, readCol_byte low high', HduData.cell, HduData.cell, here, there]
    | _ => rfl

section Refilled
open Table Session Row

def cleared : World := after (deleteColumn Reference.rawApi 0 1 bothWritten.world)

def halfWay : World := after (addNew Reference.rawApi 0 "C" .string "" [3] 1 cleared)

def refilled : World := after (addNew Reference.rawApi 0 "D" .byte "" [1] 1 halfWay)

def refills : List (Option ColumnEdit × World) :=
  [(some (.delete 1), cleared), (some (.addNew "C" .string "" [3] 1), halfWay),
    (some (.addNew "D" .byte "" [1] 1), refilled)]

theorem refills_run : Trace (EditStep Reference.rawApi 0) bothWritten.world refills :=
  ⟨⟨by decide +kernel, ok_of_returned (by decide +kernel)⟩,
    ⟨by decide +kernel, ok_of_returned (by decide +kernel)⟩,
    ⟨by decide +kernel, ok_of_returned (by decide +kernel)⟩, trivial⟩

theorem last_refills : last bothWritten.world refills = refilled := by
  simp [last, refills]

theorem sized_bothWritten : (bothWritten.world.unitOf (.table 0)).Sized := by
  have table : (bothWritten.rows 0).table = 0 := by decide +kernel
  exact table ▸ (wrote_both.usable.ground 0).sized

theorem covers_one : ∃ it, oneBound.entries 0 = ⟨⟨.string, 0⟩, it⟩ ∧
    Target.Covers (bothWritten.world.unitOf (.table 0)).heads 2 .string it := by
  have number : Reference.rawApi.getColnum ((opened withBoth 0).world.unitOf (.table 0)).names "A" =
      .ok 2 := by decide +kernel
  have heads : (bothWritten.world.unitOf (.table 0)).heads =
      ((opened withBoth 0).world.unitOf (.table 0)).heads := by decide +kernel
  have grown : Grown (opened withBoth 0).world 0 := by
    rw [world_opened]
    exact grown_both
  have binds : Row.add Reference.rawApi 0 "A" ⟨.string, 0⟩ (opened withBoth 0) = .ok () oneBound :=
    both_bound.1.2
  have zero : (opened withBoth 0).made = 0 := rfl
  have cursor : (opened withBoth 0).rows 0 =
      { table := 0, idx := 1, autoAdvance := true, entries := [] } := rfl
  have covered := covers_of_add (v := ⟨.string, 0⟩) Reference.documented_raw listBitset_lawful
    (opened withBoth 0) cursor grown number (fun _ _ => rfl)
    (fun _ array => nomatch array) binds
  rw [heads, ← zero]
  exact covered

theorem read_after_refills :
    Row.read Reference.rawApi 0 ((oneBound.inWorld bothWritten.world).inWorld refilled) =
      outcomeIn (refilled.onto (.table 0))
        (Row.read Reference.rawApi 0 (oneBound.inWorld bothWritten.world)) := by
  have row : (oneBound.rows 0).entries = [0] ∧ (oneBound.rows 0).table = 0 ∧
      (oneBound.rows 0).idx = 1 := by decide +kernel
  have carried : follow (ColumnEdit.carry Reference.rawApi 0) bothWritten.world (2, 0) refills =
      some (3, 0) := by decide +kernel
  have own : bothWritten.world.Attached (.table 0) ∧ refilled.Attached (.table 0) :=
    ⟨⟨by decide +kernel, by decide +kernel⟩, ⟨by decide +kernel, by decide +kernel⟩⟩
  obtain ⟨it, entry, covers⟩ := covers_one
  generalize session : oneBound.inWorld bothWritten.world = s
  have rows : s.rows = oneBound.rows := by rw [← session, rows_inWorld]
  have entries : s.entries = oneBound.entries := by rw [← session, entries_inWorld]
  have world : s.world = bothWritten.world := by rw [← session, world_inWorld]
  rw [← rows] at row
  rw [← entries] at entry
  have run := refills_run
  have ends := last_refills
  have sized := sized_bothWritten
  rw [← world] at carried own covers run ends sized
  have bound : (s.rows 0).entries ≠ [] := row.1 ▸ List.cons_ne_nil _ _
  have only : ∀ e ∈ (s.rows 0).entries, s.entries e = ⟨⟨.string, 0⟩, it⟩ := by simp [row.1, entry]
  have asks : ∀ e ∈ (s.rows 0).entries, (s.entries e).var.target.Covers
      (s.world.unitOf (.table 0)).heads 2 (s.entries e).column := by
    intro e member
    rw [only e member]
    exact covers
  have still : ∀ e ∈ (s.rows 0).entries, (s.entries e).var.target.Still 2 (3, 0) := by
    intro e member
    rw [only e member]
    exact (by decide : Target.Still .string 2 (3, 0))
  exact (Row.read_after_edits Reference.documented_raw Reference.rawBytes
    Reference.movedColumns_raw listBitset_lawful row.2.1 own.1 sized run ends own.2 bound
    (Int.le_of_eq row.2.2.symm) asks (fun _ _ => carried)).2 still

end Refilled

end MisFITS
