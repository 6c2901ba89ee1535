import MisFITS.World

/-! The descriptor of a column, after `columninfo.cc` and `Spec::width`. A
descriptor is either read from a header or made from its attributes. -/
namespace MisFITS
open ColumnType Program

variable (api : Cfitsio)

/-- Conversion of a `LONGLONG` to `size_t`, and back. -/
def toSize (x : Int) : Nat := (x % 2 ^ 64).toNat
def ofSize (n : Nat) : Int := (n : Int).bmod (2 ^ 64)

theorem toSize_natCast {n : Nat} (small : n < 2 ^ 64) : toSize n = n := by
  unfold toSize
  omega

def divide (a b : Int) : Except Exception Int :=
  if b = 0 then .error .divideByZero else .ok (a.tdiv b)

def ColumnType.Spec.width (s : Spec) (reps : Nat) : Except Exception Nat :=
  if s.id = .bit then
    let width := reps / 8
    .ok (if width * 8 < reps then width + 1 else width)
  else
    match api.binaryTform s.code.toString with
    | .ok width => .ok (width * reps % 2 ^ 64)
    | .error status => .error (.cfitsio status)

namespace ColumnInfo

/-- The bytes of a cell, as `init` computes them. The width that is reported for
bits is one byte, and for strings it is that of one string. -/
def cellBytes (s : Spec) (nelem width : Int) : Int :=
  if s.id = .bit then
    let nbytes := nelem.tdiv 8
    if nbytes * 8 < nelem then nbytes + 1 else nbytes
  else nelem * (if s.id = .string then 1 else width)

def init (f : Nat) (colnum : Nat) (offset : Int) : M ColumnInfo := do
  if (← File.getHduType f) ≠ .binaryTable then
    throw (.assert "only Binary Tables are supported")
  let (ttype, tunit) ← readChdu f (api.getBcolparms colnum)
  let (typecode, reps, width) ← readChdu f (api.getColtype colnum)
  let columnType ← ofExcept (specFromId typecode)
  let (naxis, _) ← readChdu f (api.readTdim colnum 0)
  let extent ←
    if columnType.id = .string ∧ naxis = 1 then do
      let count ← ofExcept (divide reps width)
      pure [width, count]
    else do
      let (_, axes) ← readChdu f (api.readTdim colnum naxis)
      pure axes
  return { ttype, tunit, columnType, offset, extent, colnum
           nbytes := cellBytes columnType (Extent.nelem extent) width }

/-- The constructor from attributes. It leaves the offset unset. -/
def make (ttype : String) (type : ID) (tunit : String) (extent : Extent) (colnum : Nat) :
    Except Exception ColumnInfo := do
  let columnType ← specFromId type
  let nbytes ← columnType.width api (toSize extent.nelem)
  return { ttype, tunit, columnType, offset := 0, extent, colnum, nbytes := ofSize nbytes }

def equal (a b : ColumnInfo) : Bool :=
  b.columnType.id = a.columnType.id && Extent.equal b.extent a.extent

def tform (ci : ColumnInfo) : String :=
  (if 1 < ci.extent.nelem then toString ci.extent.nelem else "") ++ ci.columnType.code.toString

def insert (f : Nat) (ci : ColumnInfo) : M Unit := do
  if (← File.getMode f) = .readOnly then
    throw (.cfitsio .readonlyFile)
  editChdu f (api.insertCol ci.colnum ci.ttype ci.tform)
  if ci.extent.squeeze.naxes > 1 then
    editChdu f (api.writeTdim ci.colnum ci.extent)

def count (e : Extent) : Nat := if 1 < e.nelem then e.nelem.toNat else 1

theorem count_pos (e : Extent) : 1 ≤ count e := by
  unfold count
  split <;> omega

theorem tform_eq (ci : ColumnInfo) : ci.tform = tformText (count ci.extent) ci.columnType.code := by
  unfold tform tformText count
  by_cases many : 1 < ci.extent.nelem
  · have value : ci.extent.nelem = ((ci.extent.nelem.toNat : Nat) : Int) := by omega
    have big : 1 < ci.extent.nelem.toNat := by omega
    simp only [many, if_true, big]
    rw [value]
    rfl
  · simp [many]

/-- The extent of a column: what TDIM says, or for a string column of one axis
the width and the number of strings. -/
def shape (c : ColHead) : Except Exception Extent :=
  if c.typecode = .string ∧ c.axes.length = 1 then
    (divide c.reps c.reportedWidth).map (fun count => [c.reportedWidth, count])
  else .ok c.axes

def decode (c : ColHead) (colnum : Nat) (offset : Int) : Except Exception ColumnInfo :=
  match specFromId c.typecode with
  | .error e => .error e
  | .ok columnType =>
    (shape c).map (fun extent =>
      { ttype := c.ttype, tunit := c.tunit.getD "", columnType, offset, extent, colnum
        nbytes := cellBytes columnType extent.nelem c.reportedWidth })

def decodeAll : List ColHead → Nat → Int → Except Exception (List ColumnInfo)
  | [], _, _ => .ok []
  | c :: heads, colnum, offset =>
    match decode c colnum offset with
    | .error e => .error e
    | .ok ci => (decodeAll heads (colnum + 1) (offset + ci.nbytes)).map (fun rest => ci :: rest)

variable {api}

theorem init_eq (doc : Documented api) {w : World} {f k : Nat} {offset : Int} {c : Col}
    (binary : (w.current f).type = .binaryTable) (column : (w.current f).column k = some c) :
    init api f k offset w = ofExcept (decode c.toColHead k offset) w := by
  have type : File.getHduType f w = .ok .binaryTable w := by
    rw [← binary]
    rfl
  unfold init
  rw [bind_of_ok type]
  simp only [ne_eq, not_true_eq_false, if_false]
  change (readChdu f (api.getBcolparms k) >>= _) w = _
  rw [bind_of_ok (readChdu_of_ok (doc.bcolparms column)),
    bind_of_ok (readChdu_of_ok (doc.coltype column))]
  unfold decode
  cases spec : specFromId c.typecode with
  | error e => exact bind_of_error (ofExcept_error.mpr ⟨rfl, rfl⟩) _
  | ok s =>
    have id := id_of_specFromId spec
    rw [bind_of_ok (ofExcept_ok.mpr ⟨rfl, rfl⟩),
      bind_of_ok (readChdu_of_ok (doc.read_tdim 0 column))]
    simp only [shape, ← id]
    by_cases one : s.id = .string ∧ c.axes.length = 1
    · simp only [one, and_self, if_true]
      cases quotient : divide c.reps c.reportedWidth with
      | error e => exact bind_of_error (ofExcept_error.mpr ⟨rfl, rfl⟩) _
      | ok n => rfl
    · simp only [one, if_false]
      change (readChdu f (api.readTdim k c.axes.length) >>= _) w = _
      rw [bind_of_ok (readChdu_of_ok (doc.read_tdim c.axes.length column)), List.take_length]
      rfl

theorem decode_ok {c : ColHead} {k : Nat} {offset : Int} {ci : ColumnInfo}
    (h : decode c k offset = .ok ci) :
    ci.ttype = c.ttype ∧ ci.tunit = c.tunit.getD "" ∧ ci.columnType.id = c.typecode ∧
      shape c = .ok ci.extent ∧ ci.colnum = k ∧ ci.offset = offset ∧
      ci.nbytes = cellBytes ci.columnType ci.extent.nelem c.reportedWidth := by
  unfold decode at h
  split at h
  · cases h
  · rename_i s spec
    cases extent : shape c with
    | error e => rw [extent] at h; cases h
    | ok e =>
      rw [extent] at h
      cases h
      exact ⟨rfl, rfl, id_of_specFromId spec, rfl, rfl, rfl, rfl⟩

theorem decodeAll_cons {c : ColHead} {heads : List ColHead} {k : Nat} {offset : Int}
    {infos : List ColumnInfo} :
    decodeAll (c :: heads) k offset = .ok infos ↔ ∃ ci rest, infos = ci :: rest ∧
      decode c k offset = .ok ci ∧ decodeAll heads (k + 1) (offset + ci.nbytes) = .ok rest := by
  rw [decodeAll]
  cases decode c k offset with
  | error e => simp
  | ok ci =>
    dsimp only
    constructor
    · intro built
      cases tail : decodeAll heads (k + 1) (offset + ci.nbytes) with
      | error e => rw [tail] at built; cases built
      | ok rest =>
        rw [tail] at built
        cases built
        exact ⟨ci, rest, rfl, rfl, tail⟩
    · rintro ⟨_, rest, rfl, same, tail⟩
      cases same
      rw [tail]
      rfl

theorem decodeAll_error {heads : List ColHead} {k : Nat} {offset : Int} {e : Exception}
    (failed : decodeAll heads k offset = .error e) :
    ∃ c ∈ heads, ∃ k' offset', decode c k' offset' = .error e := by
  induction heads generalizing k offset with
  | nil => cases failed
  | cons c heads ih =>
    rw [decodeAll] at failed
    cases first : decode c k offset with
    | error e' =>
      rw [first] at failed
      cases failed
      exact ⟨c, List.mem_cons_self, k, offset, first⟩
    | ok ci =>
      rw [first] at failed
      cases rest : decodeAll heads (k + 1) (offset + ci.nbytes) with
      | ok infos => simp only [rest] at failed; cases failed
      | error e' =>
        simp only [rest] at failed
        cases failed
        obtain ⟨d, member, k', offset', described⟩ := ih rest
        exact ⟨d, List.mem_cons_of_mem c member, k', offset', described⟩

theorem decodeAll_length {heads : List ColHead} {k : Nat} {offset : Int} {infos : List ColumnInfo}
    (built : decodeAll heads k offset = .ok infos) : infos.length = heads.length := by
  induction heads generalizing k offset infos with
  | nil => cases built; rfl
  | cons c heads ih =>
    obtain ⟨ci, rest, rfl, _, tail⟩ := decodeAll_cons.mp built
    rw [List.length_cons, List.length_cons, ih tail]

/-- Entry `i` describes the column of that place, and starts where the ones
before it have taken their bytes. -/
theorem decodeAll_get {heads : List ColHead} {k i : Nat} {offset : Int} {infos : List ColumnInfo}
    {ci : ColumnInfo} (built : decodeAll heads k offset = .ok infos) (entry : infos[i]? = some ci) :
    ∃ c, heads[i]? = some c ∧
      decode c (k + i) (offset + ((infos.take i).map (fun ci => ci.nbytes)).sum) = .ok ci := by
  induction heads generalizing k offset infos i with
  | nil => cases built; simp at entry
  | cons c heads ih =>
    obtain ⟨first, rest, rfl, head, tail⟩ := decodeAll_cons.mp built
    cases i with
    | zero =>
      obtain rfl : first = ci := by simpa using entry
      exact ⟨c, rfl, by simpa using head⟩
    | succ i =>
      obtain ⟨d, member, described⟩ := ih tail (by simpa using entry)
      refine ⟨d, by simpa using member, ?_⟩
      rw [Nat.add_right_comm, Int.add_assoc] at described
      simpa [Nat.add_assoc] using described

end ColumnInfo
end MisFITS
