import MisFITS.Records

/-! What the records of a program make of the rows of a table: each bound column has a
part of the row, and hands over a cell for it. -/
namespace MisFITS
open Program HDU RowEntry Session Slices

def Session.assign {S : DynamicBitset} (s : Session S) (vars : Record S) : Session S :=
  { s with vars }

namespace Target

variable {S : DynamicBitset} {τ : Target} {it jt : τ.Column} {heads : List ColHead} {row : Int}
  {data : List τ.storage.Native}

def part (heads : List ColHead) : (τ : Target) → τ.Column → Nat × Nat
  | .native _ _, it | .bool _, it | .bitset, it =>
    (start (heads.map ColHead.rowBytes) (it.colnum - 1),
      (heads.map ColHead.rowBytes).getD (it.colnum - 1) 0)
  | .string, it | .strings, it => ((it.offset - 1).toNat, it.natomic.toNat)

theorem Alike.part (alike : τ.Alike it jt) : τ.part heads jt = τ.part heads it := by
  obtain ⟨buffer, _, rfl⟩ := alike
  cases τ <;> rfl

theorem part_cell (whole : data.length = (τ.natomic it).toNat) :
    τ.part heads it = ((τ.cell it row data).first heads, (τ.cell it row data).size heads) := by
  cases τ with
  | native | bool | bitset => rfl
  | string | strings => exact Prod.ext rfl whole.symm

theorem held_cell {holding : Holding} (text : τ.text = true) :
    (τ.cell it row data).Held holding heads := by
  cases τ with
  | string | strings => trivial
  | native | bool | bitset => cases text

theorem Alike.kept (alike : τ.Alike it jt) (base : τ.Value S) :
    τ.kept S jt base = τ.kept S it base := by
  obtain ⟨buffer, _, rfl⟩ := alike
  cases τ <;> rfl

end Target

def Entry.part (heads : List ColHead) (entry : Entry) : Nat × Nat :=
  entry.var.target.part heads entry.column

namespace Session

variable {api : Cfitsio} {holding : Holding} {S : DynamicBitset} {w₀ : World} {s s' : Session S}
  {r e t : Nat} {row : Int} {record : Record S}

def PartsApart (heads : List ColHead) (s : Session S) (r : Nat) : Prop :=
  (s.rows r).entries.Pairwise fun e e' =>
    ((s.entries e).part heads).1 + ((s.entries e).part heads).2 ≤ ((s.entries e').part heads).1 ∨
    ((s.entries e').part heads).1 + ((s.entries e').part heads).2 ≤ ((s.entries e).part heads).1

def Unshared (s : Session S) (r : Nat) : Prop :=
  ∀ e ∈ (s.rows r).entries, ∀ e' ∈ (s.rows r).entries, e' ≠ e →
    (s.entries e').var ≠ (s.entries e).var

def line (s : Session S) (r : Nat) (row : Int) (record : Record S) :
    List ((Nat × Int) × CellWrite) :=
  (s.rows r).entries.filterMap (Row.handed (s.rows r).table row (s.assign record))

def Stores (s : Session S) (r : Nat) (record : Record S) : Prop :=
  ∀ e ∈ (s.rows r).entries, ∃ stored, (s.entries e).var.target.store S (s.entries e).column
    (record (s.entries e).var) = .ok stored

/-- A record that has been read is what the columns keep of another one. -/
def Echoes (s : Session S) (r : Nat) (record record' : Record S) : Prop :=
  ∀ e ∈ (s.rows r).entries, ∀ j ∈ (s.entries e).var.target.span (s.entries e).column,
    Target.SameAt S (s.entries e).var.target j
      ((s.entries e).var.target.kept S (s.entries e).column (record (s.entries e).var))
      (record' (s.entries e).var)

structure SameBinding (r : Nat) (s s' : Session S) : Prop where
  alike : Alike s s'
  heads : s.world.SameHeads s'.world
  table : (s'.rows r).table = (s.rows r).table
  entries : (s'.rows r).entries = (s.rows r).entries

theorem Usable.assign (usable : Usable s)
    (rooms : ∀ v : Variable, v.target.room S (record v) = v.target.room S (s.vars v)) :
    Usable (s.assign record) :=
  usable.step ⟨rooms, .refl s, rfl⟩ (.refl _) (fun _ ground => ground) (fun q => ⟨q, rfl, rfl⟩)

theorem SameBinding.partsApart {heads : List ColHead} (same : SameBinding r s s')
    (apart : PartsApart heads s r) : PartsApart heads s' r := by
  have part : ∀ e, (s'.entries e).part heads = (s.entries e).part heads := by
    intro e
    obtain ⟨column, alike, entry⟩ := same.alike.entries e
    rw [entry]
    exact alike.part
  unfold PartsApart
  simp only [part, same.entries]
  exact apart

theorem SameBinding.unshared (same : SameBinding r s s') (unshared : s.Unshared r) :
    s'.Unshared r := by
  unfold Unshared
  simp only [same.entries, same.alike.var]
  exact unshared

theorem placeOf_sameHeads {w w' : World} (same : w.SameHeads w') (t : Nat) :
    w'.placeOf (.table t) = w.placeOf (.table t) := by
  have base : w'.base (.table t) = w.base (.table t) :=
    congrArg Table.toHDU (congrFun same.tables t)
  unfold World.placeOf
  rw [base]

theorem heads_unitAt {w w' : World} (same : w.SameHeads w') (o : Obj) :
    (w.unitAt (w'.placeOf o)).heads = (w'.unitOf o).heads := (same.heads _ _).symm

theorem handed_alike (lawful : S.Lawful) (alike : Alike s s') (same : s.world.SameHeads s'.world)
    (ready : s.Ready e) (rooms : ∀ v : Variable, v.target.room S (record v) =
      v.target.room S (s.vars v)) :
    Row.handed t row (s'.assign record) e = Row.handed t row (s.assign record) e := by
  obtain ⟨column, kept, entry⟩ := alike.entries e
  have ready : (s.entries e).var.target.Ready (s.entries e).column
      ((s.entries e).var.target.room S (record (s.entries e).var)) := by
    rw [rooms]
    exact ready
  have place := placeOf_sameHeads same t
  change (s'.entries e).handed (s'.world.placeOf _) row record =
    (s.entries e).handed (s.world.placeOf _) row record
  rw [entry, place]
  unfold Entry.handed
  cases stores : (s.entries e).var.target.store S column (record (s.entries e).var) with
  | ok stored =>
    obtain ⟨_, stored'⟩ := Target.store_alike lawful ready kept stores
    rw [stored']
    exact congrArg (fun c => some (s.world.placeOf (.table t), c)) (kept.cell row stored.2)
  | error x =>
    cases stores' : (s.entries e).var.target.store S (s.entries e).column
        (record (s.entries e).var) with
    | error => rfl
    | ok stored =>
      obtain ⟨_, again⟩ := Target.store_alike lawful (kept.ready ready) kept.symm stores'
      cases stores.symm.trans again

theorem SameBinding.line (lawful : S.Lawful) (same : SameBinding r s s') (usable : Usable s)
    (rooms : ∀ v : Variable, v.target.room S (record v) = v.target.room S (s.vars v)) :
    s'.line r row record = s.line r row record := by
  unfold Session.line
  rw [same.entries, same.table]
  exact List.filterMap_congr (fun e member =>
    handed_alike lawful same.alike same.heads (usable.columns r e member).ready rooms)

theorem SameBinding.stores (lawful : S.Lawful) (same : SameBinding r s s') (usable : Usable s)
    (rooms : ∀ v : Variable, v.target.room S (record v) = v.target.room S (s.vars v)) :
    s'.Stores r record ↔ s.Stores r record := by
  unfold Stores
  rw [same.entries]
  refine forall_congr' fun e => forall_congr' fun member => ?_
  have ready : (s.entries e).var.target.Ready (s.entries e).column
      ((s.entries e).var.target.room S (record (s.entries e).var)) := by
    rw [rooms]
    exact (usable.columns r e member).ready
  obtain ⟨column, kept, entry⟩ := same.alike.entries e
  rw [entry]
  constructor
  · rintro ⟨stored, run⟩
    obtain ⟨_, again⟩ := Target.store_alike lawful ready kept run
    exact ⟨_, again⟩
  · rintro ⟨stored, run⟩
    obtain ⟨_, again⟩ := Target.store_alike lawful (kept.ready ready) kept.symm run
    exact ⟨_, again⟩

theorem SameBinding.echoes (same : SameBinding r s s') {record' : Record S} :
    s'.Echoes r record record' ↔ s.Echoes r record record' := by
  unfold Echoes
  rw [same.entries]
  refine forall_congr' fun e => forall_congr' fun _ => ?_
  obtain ⟨column, alike, entry⟩ := same.alike.entries e
  rw [entry, alike.span]
  simp only [alike.kept]

theorem handed_some {f : (Nat × Int) × CellWrite}
    (handed : Row.handed t row (s.assign record) e = some f) :
    ∃ stored, (s.entries e).var.target.store S (s.entries e).column (record (s.entries e).var) =
        .ok stored ∧
      f = (s.world.placeOf (.table t), (s.entries e).var.target.cell (s.entries e).column row stored.2) := by
  change Option.map _ (Except.toOption ((s.entries e).var.target.store S (s.entries e).column
    (record (s.entries e).var))) = some f at handed
  cases run : (s.entries e).var.target.store S (s.entries e).column (record (s.entries e).var) with
  | error x =>
    rw [run] at handed
    cases handed
  | ok stored =>
    rw [run] at handed
    exact ⟨stored, rfl, (Option.some.inj handed).symm⟩

theorem mem_line {f : (Nat × Int) × CellWrite} (member : f ∈ s.line r row record) :
    f.1 = s.world.placeOf (.table (s.rows r).table) ∧ f.2.row = row := by
  obtain ⟨e, _, handed⟩ := List.mem_filterMap.mp member
  obtain ⟨stored, _, rfl⟩ := handed_some handed
  exact ⟨rfl, Target.row_cell⟩

theorem held_line {heads : List ColHead}
    (text : ∀ e ∈ (s.rows r).entries, (s.entries e).var.target.text = true)
    {f : (Nat × Int) × CellWrite} (member : f ∈ s.line r row record) : f.2.Held holding heads := by
  obtain ⟨e, inside, handed⟩ := List.mem_filterMap.mp member
  obtain ⟨stored, _, rfl⟩ := handed_some handed
  exact Target.held_cell (text e inside)

theorem apart_symm (c d : (Nat × Int) × CellWrite) (apart : (cellFacts api holding w₀).apart c d) :
    (cellFacts api holding w₀).apart d c := by
  rcases apart with other | rows | parts
  · exact Or.inl other.symm
  · exact Or.inr (Or.inl rows.symm)
  · by_cases same : c.1 = d.1
    · refine Or.inr (Or.inr ?_)
      rw [← same]
      exact parts.symm
    · exact Or.inl (Ne.symm same)

/-- What a record hands over of its columns is for different parts of the row. -/
theorem line_pairwise {heads : List ColHead} (usable : Usable s)
    (rooms : ∀ v : Variable, v.target.room S (record v) = v.target.room S (s.vars v))
    (there : (w₀.unitAt (s.world.placeOf (.table (s.rows r).table))).heads = heads)
    (apart : PartsApart heads s r) :
    (s.line r row record).Pairwise (cellFacts api holding w₀).apart := by
  have whole : ∀ e ∈ (s.rows r).entries, ∀ stored,
      (s.entries e).var.target.store S (s.entries e).column (record (s.entries e).var) = .ok stored →
      (s.entries e).part heads =
        (((s.entries e).var.target.cell (s.entries e).column row stored.2).first heads,
          ((s.entries e).var.target.cell (s.entries e).column row stored.2).size heads) := by
    intro e member stored run
    have made := usable.columns r e member
    refine Target.part_cell (Target.store_length made.positive ?_ ?_ run) <;> rw [rooms]
    exacts [made.ready, made.fits]
  refine List.Pairwise.filterMap _ (fun e e' parts f handed f' handed' => ?_)
    (List.Pairwise.and_mem.mp apart)
  obtain ⟨member, member', parts⟩ := parts
  obtain ⟨stored, run, rfl⟩ := handed_some handed
  obtain ⟨stored', run', rfl⟩ := handed_some handed'
  refine Or.inr (Or.inr ?_)
  rw [whole e member stored run, whole e' member' stored' run'] at parts
  rw [there]
  exact parts

theorem SameBinding.trans {s'' : Session S} (h : SameBinding r s s') (h' : SameBinding r s' s'') :
    SameBinding r s s'' where
  alike := h.alike.trans h'.alike
  heads := h.heads.trans h'.heads
  table := h'.table.trans h.table
  entries := h'.entries.trans h.entries

end Session

namespace Row

variable {S : DynamicBitset} {s : Session S} {r e : Nat} {record : Record S}

def asked (s : Session S) (r e : Nat) (data : List (s.entries e).var.target.storage.Native) :
    (Nat × Int) × CellWrite :=
  (s.world.placeOf (.table (s.rows r).table),
    (s.entries e).var.target.cell (s.entries e).column (s.rows r).idx data)

def stored (s : Session S) (record : Record S) (e : Nat) :
    List (s.entries e).var.target.storage.Native :=
  (((s.entries e).var.target.store S (s.entries e).column (record (s.entries e).var)).toOption.map
    Prod.snd).getD []

theorem stored_of_ok {e : Nat} {column : (s.entries e).var.target.Column}
    {data : List (s.entries e).var.target.storage.Native}
    (stores : (s.entries e).var.target.store S (s.entries e).column (record (s.entries e).var) =
      .ok (column, data)) : stored s record e = data := by
  unfold stored
  rw [stores]
  rfl

theorem store_stored (stores : ∃ stored, (s.entries e).var.target.store S (s.entries e).column
      (record (s.entries e).var) = .ok stored) :
    ∃ column, (s.entries e).var.target.store S (s.entries e).column (record (s.entries e).var) =
      .ok (column, stored s record e) := by
  obtain ⟨⟨column, data⟩, run⟩ := stores
  exact ⟨column, by rw [stored_of_ok run]; exact run⟩

theorem stored_length (usable : Usable s)
    (rooms : ∀ v : Variable, v.target.room S (record v) = v.target.room S (s.vars v))
    (member : e ∈ (s.rows r).entries) (stores : ∃ stored, (s.entries e).var.target.store S
      (s.entries e).column (record (s.entries e).var) = .ok stored) :
    (stored s record e).length = ((s.entries e).var.target.natomic (s.entries e).column).toNat := by
  obtain ⟨column, run⟩ := store_stored stores
  have made := usable.columns r e member
  refine Target.store_length made.positive ?_ ?_ run <;> rw [rooms]
  exacts [made.ready, made.fits]

theorem asked_mem_line (member : e ∈ (s.rows r).entries)
    (stores : ∃ stored, (s.entries e).var.target.store S (s.entries e).column
      (record (s.entries e).var) = .ok stored) :
    asked s r e (stored s record e) ∈ s.line r (s.rows r).idx record := by
  obtain ⟨column, run⟩ := store_stored stores
  exact List.mem_filterMap.mpr ⟨e, member, handed_of_store (s := s.assign record) run⟩

end Row

end MisFITS
