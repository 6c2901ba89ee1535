import MisFITS.Delivery
import MisFITS.TextCells

/-! Rows with bound strings: what a cursor writes with each binding, and what it
reads back. -/
namespace MisFITS
open ColumnType Program Run HDU HduData

namespace Target

variable {S : DynamicBitset} {info info' : ColumnInfo} {τ : Target} {base value other : τ.Value S}
  {cell : List Byte}

def text : Target → Bool
  | .string | .strings => true
  | .native _ _ | .bool _ | .bitset => false

theorem TextBound.text {api : Cfitsio} {t : Nat} {it : τ.Column}
    (bound : τ.TextBound api t info it) : τ.text = true := by
  cases τ with
  | native _ _ | bool _ | bitset => exact bound.elim
  | string | strings => rfl

theorem Decodes.unique (first : τ.Decodes S info cell value) (second : τ.Decodes S info cell other) :
    value = other := by
  cases τ with
  | native _ _ | bool _ | bitset => exact first.elim
  | string | strings => exact Eq.trans first (Eq.symm second)

theorem held_of_plain (plain : τ.text = false) : τ.Held S info value := by
  cases τ with
  | native _ _ | bool _ | bitset => trivial
  | string | strings => cases plain

theorem Held.transfer (first : τ.Held S info base) (second : τ.Held S info' base)
    (held : τ.Held S info value) : τ.Held S info' value := by
  cases τ with
  | native _ _ | bool _ | bitset | string => trivial
  | strings => exact Eq.trans held (Eq.trans (Eq.symm first) second)

theorem make_text (api : Cfitsio) (t : Nat) {it : τ.Column} (text : τ.text = true)
    (run : τ.make S info base = .ok it value) :
    τ.TextBound api t info it ∧ τ.Held S info value := by
  cases τ with
  | native _ _ | bool _ | bitset => cases text
  | string => exact ⟨.made run, trivial⟩
  | strings =>
    refine ⟨.made run, ?_⟩
    obtain ⟨n, found, run⟩ := ofExcept_bind_ok.mp run
    obtain ⟨_, run⟩ := check_ok.mp run
    obtain ⟨_, run⟩ := check_ok.mp run
    obtain ⟨_, _, sets, run⟩ := bind_ok.mp run
    cases modify_ok.mp sets
    cases run
    unfold Held
    dsimp only
    rw [resizeTo_length]
    cases axes : info.extent with
    | nil =>
      rw [axes] at found
      cases found
    | cons d rest =>
      rw [axes] at found
      cases found
      simp [ColumnBase.ofInfo, axes]

theorem make_number {it : τ.Column} (plain : τ.text = false)
    (run : τ.make S info base = .ok it value) : τ.number it = some info.colnum := by
  have init : ∀ T, (RowEntry.Column.init T info).colnum = info.colnum := by
    intro T
    unfold RowEntry.Column.init
    dsimp only
    split <;> rfl
  cases τ with
  | string | strings => cases plain
  | native T vector => cases vector <;> cases run <;> exact congrArg some (init T)
  | bool vector => cases vector <;> cases run <;> rfl
  | bitset =>
    obtain ⟨_, _, sets, run⟩ := bind_ok.mp run
    obtain ⟨_, _, gets, run⟩ := bind_ok.mp run
    split at run
    · cases run
      rfl
    · split at run
      · cases run
        rfl
      · obtain ⟨_, _, thrown, _⟩ := bind_ok.mp run
        exact (throw_ok.mp thrown).elim

end Target

abbrev Vars (S : DynamicBitset) := (v : Variable) → v.target.Value S

namespace Variable

variable {S : DynamicBitset} (info : ColumnInfo) (vars : Vars S) (v : Variable)

def Held : Prop := v.target.Held S info (vars v)

def encode : List Byte := v.target.encode S info (vars v)

def Decodes (cell : List Byte) : Prop := v.target.Decodes S info cell (vars v)

end Variable

namespace Entry

variable {S : DynamicBitset} {api : Cfitsio} {t k : Nat} {w : World} {vars vars' : Vars S}
  {entry : Entry}

structure Stands (api : Cfitsio) (t : Nat) (w : World) (vars : Vars S) (k : Nat) (entry : Entry)
    (info : ColumnInfo) : Prop where
  low : 1 ≤ k
  found : (w.tables t).columns[k - 1]? = some info
  bound : entry.var.target.TextBound api t info entry.column
  held : entry.var.Held info vars

inductive On (api : Cfitsio) (t : Nat) (w : World) (vars : Vars S) (k : Nat) (entry : Entry) : Prop
  | text {info : ColumnInfo} (stands : entry.Stands api t w vars k info) : On api t w vars k entry
  | plain (plain : entry.var.target.text = false)
      (number : entry.var.target.number entry.column = some k) : On api t w vars k entry

theorem Stands.text {info : ColumnInfo} (stands : entry.Stands api t w vars k info) :
    entry.var.target.text = true := stands.bound.text

theorem On.stands (on : entry.On api t w vars k) (text : entry.var.target.text = true) :
    ∃ info, entry.Stands api t w vars k info := by
  cases on with
  | text stands => exact ⟨_, stands⟩
  | plain plain => exact absurd (text.symm.trans plain) (by decide)

end Entry

namespace Session

variable {api : Cfitsio} {S : DynamicBitset} {s s' : Session S} {e t : Nat} {row : Int} {u : Unit}

theorem readEntry_ok {u' : Unit} (run : Row.readEntry api t row u e s = .ok u' s') :
    ∃ column value, (s.entries e).var.target.read api S t (s.entries e).column row
        (s.vars (s.entries e).var) s.world = .ok (column, value) s.world ∧
      s' = s.store e (s.entries e).var column value := by
  obtain ⟨⟨column, value⟩, _, runs, stores⟩ := bind_ok.mp run
  obtain ⟨w', reads, rfl⟩ := onWorld_ok.mp runs
  cases modify_ok.mp stores
  obtain ⟨rfl, _⟩ := Target.read_ok reads
  exact ⟨column, value, reads, rfl⟩

def Seated (api : Cfitsio) (t : Nat) (w : World) (place : Nat → Nat) (es : List Nat)
    (s : Session S) : Prop :=
  ∀ e ∈ es, (s.entries e).On api t w s.vars (place e)

theorem seated_add (doc : Documented api) {w : World} {place : Nat → Nat} {r : Nat} {name : String}
    {v : Variable} (table : (s.rows r).table = t) (synced : Table.Synced w t)
    (columns : (s.world.tables t).columns = (w.tables t).columns)
    (made : ∀ e ∈ (s.rows r).entries, e < s.made)
    (fresh : ∀ e ∈ (s.rows r).entries, (s.entries e).var ≠ v)
    (placed : Seated api t w place (s.rows r).entries s)
    (run : Row.add api r name v s = .ok u s') :
    ∃ k, api.getColnum (s.world.unitOf (.table t)).names name = .ok k ∧
      Seated api t w (Function.update place s.made k) (s'.rows r).entries s' := by
  obtain ⟨k, info, column, value, number, low, entry, makes, rfl⟩ := add_ok doc run
  rw [table] at number entry
  rw [columns] at entry
  refine ⟨k, number, fun e member => ?_⟩
  have self : e = s.made ∨ e ∈ (s.rows r).entries := by
    rcases mem_entries_bindColumn member with before | ⟨same, _⟩
    · exact Or.inr before
    · exact Or.inl same
  rcases self with rfl | before
  · have here : ((Row.onto s r).bindColumn r v column value).entries s.made = ⟨v, column⟩ :=
      entries_bindColumn_self
    rw [here, Function.update_self]
    cases text : v.target.text with
    | true =>
      obtain ⟨bound, held⟩ := Target.make_text api t text makes
      have same : ((Row.onto s r).bindColumn r v column value).vars v = value :=
        vars_bindColumn_self
      refine .text ⟨low, entry, bound, ?_⟩
      unfold Variable.Held
      rw [same]
      exact held
    | false =>
      obtain ⟨c, _, described⟩ := ColumnInfo.decodeAll_get synced entry
      obtain ⟨_, _, _, _, colnum, _⟩ := ColumnInfo.decode_ok described
      have last : info.colnum = k := by omega
      exact .plain text (by rw [Target.make_number text makes, last])
  · have low' := made e before
    have old := placed e before
    have here : ((Row.onto s r).bindColumn r v column value).entries e = s.entries e :=
      entries_bindColumn_lt low'
    rw [here, Function.update_of_ne (Nat.ne_of_lt low')]
    cases old with
    | text stands =>
      refine .text ⟨stands.low, stands.found, stands.bound, ?_⟩
      unfold Variable.Held
      rw [vars_bindColumn_ne (fresh e before)]
      exact stands.held
    | plain plain number => exact .plain plain number

section Loops

variable {w : World} {place : Nat → Nat} {es done : List Nat} {k : Nat} {u' : Unit}
  {s₁ s₂ : Session S}

theorem write_on (doc : Documented api) (raw : RawBytes api) (grown : Table.Grown w t)
    (still : Table.Over w s.world t) (first : 1 ≤ row) (on : (s.entries e).On api t w s.vars k)
    (run : Row.writeEntry api t row u e s = .ok u' s') : ∃ h column,
      s' = { s with
        world := s.world.put (.table t) h
        entries := Function.update s.entries e ⟨(s.entries e).var, column⟩ } ∧
      Touches k (s.world.unitOf (.table t)) h ∧
      Entry.On api t w s.vars k ⟨(s.entries e).var, column⟩ ∧
      ∀ info, (s.entries e).Stands api t w s.vars k info →
        row ≤ h.nrows ∧ h.cell k row = some ((s.entries e).var.encode info s.vars) := by
  obtain ⟨column, w', writes, rfl⟩ := writeEntry_ok run
  cases on with
  | text stands =>
    obtain ⟨low, found, bound, held⟩ := stands
    obtain ⟨h, rfl, touches, reached, cell, again⟩ :=
      grown.text_write doc raw still low found bound held first writes
    refine ⟨h, column, rfl, touches, .text ⟨low, found, again, held⟩, ?_⟩
    intro info' stands
    cases found.symm.trans stands.found
    exact ⟨reached, cell⟩
  | plain plain number =>
    obtain ⟨h, rfl, touches, again⟩ := Table.other_write doc raw still number writes
    refine ⟨h, column, rfl, touches, .plain plain again, ?_⟩
    intro info stands
    exact absurd (stands.text.symm.trans plain) (by decide)

structure Written (api : Cfitsio) (t : Nat) (w : World) (place : Nat → Nat) (es : List Nat)
    (row : Int) (s : Session S) (done : List Nat) (s' : Session S) : Prop where
  still : Table.Over w s'.world t
  vars : s'.vars = s.vars
  rows : s'.rows = s.rows
  var : ∀ e, (s'.entries e).var = (s.entries e).var
  placed : Seated api t w place es s'
  cells : ∀ e ∈ done, ∀ info, (s.entries e).Stands api t w s.vars (place e) info →
    row ≤ (s'.world.unitOf (.table t)).nrows ∧ ((∀ e' ∈ es, e' ≠ e → place e' ≠ place e) →
      (s'.world.unitOf (.table t)).cell (place e) row =
        some ((s.entries e).var.encode info s.vars))

theorem Written.start (still : Table.Over w s.world t) (placed : Seated api t w place es s) :
    Written api t w place es row s [] s where
  still := still
  vars := rfl
  rows := rfl
  var _ := rfl
  placed := placed
  cells _ member := by cases member

theorem Written.step (doc : Documented api) (raw : RawBytes api) (grown : Table.Grown w t)
    (first : 1 ≤ row) (written : Written api t w place es row s done s₁) (member : e ∈ es)
    (run : Row.writeEntry api t row u e s₁ = .ok u' s₂) :
    Written api t w place es row s (done ++ [e]) s₂ := by
  obtain ⟨h, column, rfl, touches, on, cell⟩ :=
    write_on doc raw grown written.still first (written.placed e member) run
  have var : ∀ e', ((Function.update s₁.entries e ⟨(s₁.entries e).var, column⟩) e').var =
      (s.entries e').var := by
    intro e'
    by_cases self : e' = e
    · rw [self, Function.update_self, written.var]
    · rw [Function.update_of_ne self, written.var]
  refine ⟨written.still.put touches, written.vars, written.rows, var, ?_, ?_⟩
  · intro e' member'
    by_cases self : e' = e
    · subst self
      simpa only [Function.update_self] using on
    · simpa only [Function.update_of_ne self] using written.placed e' member'
  · intro e' done' info stands
    simp only [World.unitOf_put]
    by_cases self : e' = e
    · subst self
      have text := stands.text
      rw [← written.var] at text
      obtain ⟨info', now⟩ := (written.placed e' member).stands text
      cases now.found.symm.trans stands.found
      obtain ⟨reached, here⟩ := cell info now
      refine ⟨reached, fun _ => ?_⟩
      rw [here, written.var, written.vars]
    · have before : e' ∈ done := by simpa [self] using done'
      obtain ⟨reached, here⟩ := written.cells e' before info stands
      refine ⟨Int.le_trans reached touches.nrows, fun alone => ?_⟩
      rw [touches.others row first reached (place e') (alone e member (Ne.symm self)).symm]
      exact here alone

theorem held_store {v v' : Variable} {info : ColumnInfo} {column : v.target.Column}
    {value : v.target.Value S}
    (keeps : ∀ info, v.Held info s.vars → v.target.Held S info value)
    (held : v'.Held info s.vars) : v'.Held info (s.store e v column value).vars := by
  by_cases self : v' = v
  · subst self
    unfold Variable.Held store
    simp only [Function.update_self]
    exact keeps info held
  · unfold Variable.Held at held ⊢
    rwa [vars_store_ne self]

theorem read_on (raw : RawBytes api) (grown : Table.Grown w t) (still : Table.Over w s.world t)
    (first : 1 ≤ row) (last : row ≤ (s.world.unitOf (.table t)).nrows)
    (texts : (s.entries e).var.target.text = true → ∃ info, (s.entries e).Stands api t w s.vars k info)
    (run : Row.readEntry api t row u e s = .ok u' s') : ∃ column value,
      s' = s.store e (s.entries e).var column value ∧
      (∀ info, (s.entries e).var.Held info s.vars → (s.entries e).var.target.Held S info value) ∧
      ∀ info, (s.entries e).Stands api t w s.vars k info →
        (s.entries e).var.target.TextBound api t info column ∧
        ∀ cell, (s.world.unitOf (.table t)).cell k row = some cell →
          (s.entries e).var.target.Decodes S info cell value := by
  obtain ⟨column, value, reads, rfl⟩ := readEntry_ok run
  refine ⟨column, value, rfl, ?_⟩
  cases text : (s.entries e).var.target.text with
  | false =>
    refine ⟨fun info _ => ?_, fun info stands => ?_⟩
    · exact Target.held_of_plain text
    · exact absurd (stands.text.symm.trans text) (by decide)
  | true =>
    obtain ⟨info, stands⟩ := texts text
    obtain ⟨cell, found, whole⟩ :=
      grown.text_cell still stands.low stands.found stands.bound first last
    obtain ⟨it', value', decodes, held, runs⟩ :=
      grown.text_read raw stands.low stands.found stands.bound stands.held whole
    cases (runs s.world still row first last found).symm.trans reads
    refine ⟨fun info' held' => stands.held.transfer held' held, fun info' stands' => ?_⟩
    cases stands.found.symm.trans stands'.found
    refine ⟨stands.bound.read reads, fun cell here => ?_⟩
    cases found.symm.trans here
    exact decodes

structure Taken (api : Cfitsio) (t : Nat) (w : World) (place : Nat → Nat) (es : List Nat)
    (row : Int) (s : Session S) (done : List Nat) (s' : Session S) : Prop where
  world : s'.world = s.world
  rows : s'.rows = s.rows
  var : ∀ e, (s'.entries e).var = (s.entries e).var
  stands : ∀ e ∈ es, ∀ info, (s.entries e).Stands api t w s.vars (place e) info →
    (s'.entries e).Stands api t w s'.vars (place e) info
  values : ∀ e ∈ done, ∀ info cell, (s.entries e).Stands api t w s.vars (place e) info →
    (s.world.unitOf (.table t)).cell (place e) row = some cell →
    (∀ e' ∈ es, e' ≠ e → (s.entries e').var ≠ (s.entries e).var) →
    (s.entries e).var.Decodes info s'.vars cell

theorem Taken.start : Taken api t w place es row s [] s where
  world := rfl
  rows := rfl
  var _ := rfl
  stands _ _ _ stands := stands
  values _ member := by cases member

theorem Taken.step (raw : RawBytes api) (grown : Table.Grown w t) (still : Table.Over w s.world t)
    (first : 1 ≤ row) (last : row ≤ (s.world.unitOf (.table t)).nrows)
    (placed : Seated api t w place es s) (taken : Taken api t w place es row s done s₁)
    (member : e ∈ es) (run : Row.readEntry api t row u e s₁ = .ok u' s₂) :
    Taken api t w place es row s (done ++ [e]) s₂ := by
  have texts : (s₁.entries e).var.target.text = true → ∃ info,
      (s₁.entries e).Stands api t w s₁.vars (place e) info := by
    intro text
    rw [taken.var] at text
    obtain ⟨info, stands⟩ := (placed e member).stands text
    exact ⟨info, taken.stands e member info stands⟩
  obtain ⟨column, value, rfl, keeps, reads⟩ :=
    read_on raw grown (taken.world ▸ still) first (taken.world ▸ last) texts run
  have var : ∀ e', ((s₁.store e (s₁.entries e).var column value).entries e').var =
      (s.entries e').var := by
    intro e'
    by_cases self : e' = e
    · rw [self, entries_store_self, taken.var]
    · rw [entries_store_ne self, taken.var]
  refine ⟨taken.world, taken.rows, var, ?_, ?_⟩
  · intro e' member' info stands
    have now := taken.stands e' member' info stands
    have held : (s₁.entries e').var.Held info (s₁.store e (s₁.entries e).var column value).vars :=
      held_store keeps now.held
    by_cases self : e' = e
    · subst self
      have bound := (reads info now).1
      exact ⟨now.low, now.found, by rw [entries_store_self]; exact bound,
        by rw [entries_store_self]; exact held⟩
    · exact ⟨now.low, now.found, by rw [entries_store_ne self]; exact now.bound,
        by rw [entries_store_ne self]; exact held⟩
  · intro e' done' info cell stands found alone
    by_cases self : e' = e
    · subst self
      have now := taken.stands e' member info stands
      have decodes := (reads info now).2 cell (by rw [taken.world]; exact found)
      rw [← taken.var]
      unfold Variable.Decodes store
      simpa only [Function.update_self] using decodes
    · have before : e' ∈ done := by simpa [self] using done'
      have value := taken.values e' before info cell stands found alone
      have apart : (s.entries e').var ≠ (s₁.entries e).var := by
        rw [taken.var]
        exact (alone e member (Ne.symm self)).symm
      unfold Variable.Decodes at value ⊢
      rwa [vars_store_ne apart]

theorem texts_return (raw : RawBytes api) (grown : Table.Grown w t) (still : Table.Over w s.world t)
    (first : 1 ≤ row) (last : row ≤ (s.world.unitOf (.table t)).nrows)
    (placed : Seated api t w place es s) (texts : ∀ e ∈ es, (s.entries e).var.target.text = true)
    {xs : List Nat} (sub : ∀ e ∈ xs, e ∈ es) (taken : Taken api t w place es row s done s₁) :
    ∃ s₂, xs.foldlM (Row.readEntry api t row) () s₁ = .ok () s₂ := by
  induction xs generalizing done s₁ with
  | nil => exact ⟨s₁, rfl⟩
  | cons e xs ih =>
    have member := sub e List.mem_cons_self
    obtain ⟨info, stands⟩ := (placed e member).stands (texts e member)
    have now := taken.stands e member info stands
    obtain ⟨cell, found, whole⟩ := grown.text_cell still now.low now.found now.bound first last
    obtain ⟨column, value, _, _, runs⟩ :=
      grown.text_read raw now.low now.found now.bound now.held whole
    have reads := runs s.world still row first last found
    rw [← taken.world] at reads
    have run : Row.readEntry api t row () e s₁ =
        .ok () (s₁.store e (s₁.entries e).var column value) :=
      bind_ok.mpr ⟨(column, value), s₁, onWorld_of_ok reads, rfl⟩
    obtain ⟨s₂, rest⟩ := ih (fun e' later => sub e' (List.mem_cons_of_mem e later))
      (taken.step raw grown still first last placed member run)
    exact ⟨s₂, bind_ok.mpr ⟨(), _, run, rest⟩⟩

end Loops

end Session

namespace Row
open Session

variable {api : Cfitsio} {S : DynamicBitset} {s s' : Session S} {r : Nat} {u : Unit}

theorem write_ok (doc : Documented api) (run : Row.write api r s = .ok u s') :
    ∃ s₁, (s.rows r).entries.foldlM (writeEntry api (s.rows r).table (s.rows r).idx) () (onto s r) =
      .ok () s₁ ∧ s' = s₁.setRow r (next (s₁.rows r)) := by
  obtain ⟨_, _, positioned, run⟩ := bind_ok.mp run
  obtain ⟨w', moves, rfl⟩ := onWorld_ok.mp positioned
  cases setAsChdu_ok doc moves
  obtain ⟨_, rest⟩ := check_ok.mp run
  obtain ⟨_, s₁, loop, advances⟩ := bind_ok.mp rest
  cases advanceAuto_eq.symm.trans advances
  exact ⟨s₁, loop, rfl⟩

theorem read_of_current (doc : Documented api) (here : s.world.Current (.table (s.rows r).table))
    (bound : (s.rows r).entries ≠ [])
    (inside : (s.rows r).idx ≤ (s.world.unitOf (.table (s.rows r).table)).nrows) :
    read api r s = ((s.rows r).entries.foldlM (readEntry api (s.rows r).table (s.rows r).idx) () >>=
      fun _ => advanceAuto r >>= fun _ => pure true : RowM S Bool) s := by
  have positioned : onWorld (setAsChdu api (.table (s.rows r).table)) s = .ok () s :=
    onWorld_of_ok (setAsChdu_of_current here)
  have counts : onWorld (Table.numRows api (s.rows r).table) s =
      .ok (s.world.unitOf (.table (s.rows r).table)).nrows s :=
    onWorld_of_ok (readOwn_of_current here (doc.num_rows _))
  unfold read readBy own
  dsimp only
  rw [bind_of_ok positioned, check_of_not bound, bind_of_ok counts, if_neg (by omega)]
  rfl

end Row

namespace Table
open Session

variable {api : Cfitsio} {S : DynamicBitset} {t : Nat} {w : World}

theorem Over.onto {v : World} (heads : (v.unitOf (.table t)).heads = (w.unitOf (.table t)).heads)
    (sized : (v.unitOf (.table t)).Sized) : Over w (v.onto (.table t)) t where
  here := World.current_of_onto
  heads := by rw [World.unitOf_onto, heads]
  sized := by
    rw [World.unitOf_onto]
    exact sized

def only (s : Session S) (r e : Nat) : Session S :=
  s.setRow r { s.rows r with entries := [e] }

theorem rows_only (s : Session S) (r e : Nat) :
    (only s r e).rows r = { s.rows r with entries := [e] } := Function.update_self ..

/-- Between a call that writes a row and one that reads it the variables may change,
but no vector of strings its length. -/
def Refilled (s : Session S) (vars : Vars S) : Prop :=
  ∀ (v : Variable) info, v.Held info s.vars → v.Held info vars

/-- Each string of a row of table `t` is by itself, whatever else the row has. -/
structure TextApart (api : Cfitsio) (S : DynamicBitset) (w : World) (t : Nat) : Prop where
  /-- writing one changes no byte of the cells of other columns -/
  write : ∀ {τ : Target} {it it' : τ.Column} {base : τ.Value S} {info k row v v'}, Over w v t →
    1 ≤ k → (w.tables t).columns[k - 1]? = some info → τ.TextBound api t info it →
    τ.Held S info base → 1 ≤ row → τ.write api S t it row base v = .ok it' v' →
    ∀ j, j ≠ k → ∀ r, 1 ≤ r → r ≤ (v.unitOf (.table t)).nrows →
      (v'.unitOf (.table t)).cell j r = (v.unitOf (.table t)).cell j r
  /-- reading one uses no byte of them -/
  read : ∀ {τ : Target} {it : τ.Column} {base : τ.Value S} {info k row v v'}, Over w v t →
    Over w v' t → 1 ≤ k → (w.tables t).columns[k - 1]? = some info → τ.TextBound api t info it →
    τ.Held S info base → 1 ≤ row → row ≤ (v.unitOf (.table t)).nrows →
    row ≤ (v'.unitOf (.table t)).nrows →
    (v'.unitOf (.table t)).cell k row = (v.unitOf (.table t)).cell k row →
    ∃ read, τ.read api S t it row base v = .ok read v ∧ τ.read api S t it row base v' = .ok read v'
  /-- a row that is written is read back, and a string of it that shares neither its
  column nor its variable has the value that it has when it is the only one -/
  rows : ∀ {s s₁ : Session S} {r place vars u}, (s.rows r).table = t →
    (s.world.unitOf (.table t)).heads = (w.unitOf (.table t)).heads →
    (s.world.unitOf (.table t)).Sized → 1 ≤ (s.rows r).idx →
    Seated api t w place (s.rows r).entries s → Row.write api r s = .ok u s₁ → Refilled s vars →
    ((s.rows r).entries ≠ [] → (∀ e ∈ (s.rows r).entries, (s.entries e).var.target.text = true) →
      ∃ s₂, Row.readAt api r (s.rows r).idx { s₁ with vars } = .ok true s₂) ∧
    ∀ b s₂, Row.readAt api r (s.rows r).idx { s₁ with vars } = .ok b s₂ →
    ∀ e ∈ (s.rows r).entries, (s.entries e).var.target.text = true → b = true ∧
    ((∀ e' ∈ (s.rows r).entries, e' ≠ e → place e' ≠ place e ∧
      (s.entries e').var ≠ (s.entries e).var) →
    ∀ u u₁ c u₂, Row.write api r (only s r e) = .ok u u₁ →
      Row.readAt api r (s.rows r).idx { u₁ with vars } = .ok c u₂ →
      s₂.vars (s.entries e).var = u₂.vars (s.entries e).var)

section Rows

variable {place : Nat → Nat} {s s₁ s₂ : Session S} {r : Nat} {vars : Vars S} {u : Unit}

theorem Grown.row_written (doc : Documented api) (raw : RawBytes api) (grown : Grown w t)
    (table : (s.rows r).table = t) (first : 1 ≤ (s.rows r).idx)
    (heads : (s.world.unitOf (.table t)).heads = (w.unitOf (.table t)).heads)
    (sized : (s.world.unitOf (.table t)).Sized) (placed : Seated api t w place (s.rows r).entries s)
    (run : Row.write api r s = .ok u s₁) : ∃ s', s₁ = s'.setRow r (Row.next (s.rows r)) ∧
      Written api t w place (s.rows r).entries (s.rows r).idx s (s.rows r).entries s' := by
  obtain ⟨s', loop, rfl⟩ := Row.write_ok doc run
  have start : Written api t w place (s.rows r).entries (s.rows r).idx (Row.onto s r) []
      (Row.onto s r) := by
    refine Written.start ?_ placed
    unfold Row.onto
    rw [table]
    exact Over.onto heads sized
  rw [table] at loop
  have done := loop_mem (I := fun done _ s' => Written api t w place (s.rows r).entries
    (s.rows r).idx (Row.onto s r) done s') []
    (fun _ _ _ _ _ _ member written run => written.step doc raw grown first member run) start loop
  have row : s'.rows r = s.rows r := congrFun done.rows r
  exact ⟨s', by rw [row], { done with }⟩

theorem Grown.row_read (doc : Documented api) (raw : RawBytes api) (grown : Grown w t)
    (table : (s.rows r).table = t) (first : 1 ≤ (s.rows r).idx) {s' : Session S}
    (written : Written api t w place (s.rows r).entries (s.rows r).idx s (s.rows r).entries s')
    (refilled : Refilled s vars) {e : Nat} (member : e ∈ (s.rows r).entries) {info : ColumnInfo}
    (stands : (s.entries e).Stands api t w s.vars (place e) info) :
    ((∀ e ∈ (s.rows r).entries, (s.entries e).var.target.text = true) →
      ∃ s₂, Row.read api r { s' with vars } = .ok true s₂) ∧
    ∀ b s₂, Row.read api r { s' with vars } = .ok b s₂ → b = true ∧
      ((∀ e' ∈ (s.rows r).entries, e' ≠ e → place e' ≠ place e ∧
        (s.entries e').var ≠ (s.entries e).var) →
      (s.entries e).var.Decodes info s₂.vars ((s.entries e).var.encode info s.vars)) := by
  have placed : Seated api t w place (s.rows r).entries { s' with vars } := by
    intro e' member'
    have before := written.placed e' member'
    cases before with
    | text stands' =>
      have held := stands'.held
      rw [written.vars] at held
      exact .text ⟨stands'.low, stands'.found, stands'.bound, refilled _ _ held⟩
    | plain plain number => exact .plain plain number
  have standing : (s'.entries e).Stands api t w vars (place e) info := by
    have text := stands.text
    rw [← written.var] at text
    obtain ⟨info', now⟩ := (placed e member).stands text
    cases now.found.symm.trans stands.found
    exact now
  obtain ⟨last, cell⟩ := written.cells e member info stands
  have row : s'.rows r = s.rows r := congrFun written.rows r
  have here := written.still.here
  have nonempty : (s.rows r).entries ≠ [] := List.ne_nil_of_mem member
  have eq := Row.read_of_current (s := { s' with vars }) (r := r) doc (by rw [row, table]; exact here)
    (by rw [row]; exact nonempty) (by rw [row, table]; exact last)
  rw [eq]
  dsimp only
  rw [row, table]
  constructor
  · intro texts
    have texts' : ∀ e ∈ (s.rows r).entries, (s'.entries e).var.target.text = true := by
      intro e' member'
      rw [written.var]
      exact texts e' member'
    obtain ⟨s₂, loop⟩ := texts_return (s := { s' with vars }) raw grown written.still first
      last placed texts'
      (fun _ member => member) Taken.start
    exact ⟨_, bind_ok.mpr ⟨(), s₂, loop, bind_ok.mpr ⟨(), _, Row.advanceAuto_eq, rfl⟩⟩⟩
  · intro b s₂ run
    obtain ⟨_, s₃, loop, rest⟩ := bind_ok.mp run
    obtain ⟨_, _, advances, same⟩ := bind_ok.mp rest
    cases Row.advanceAuto_eq.symm.trans advances
    cases same
    refine ⟨rfl, fun alone => ?_⟩
    have taken := loop_mem
      (I := fun done _ s₃ => Taken api t w place (s.rows r).entries (s.rows r).idx
        { s' with vars } done s₃) []
      (fun _ _ _ _ _ _ member taken run =>
        taken.step raw grown written.still first last placed member run) Taken.start loop
    have decodes := taken.values e member info _ standing
      (cell (fun e' member' other => (alone e' member' other).1)) (fun e' member' other => by
        simp only [written.var]
        exact (alone e' member' other).2)
    simp only [written.var] at decodes
    exact decodes

theorem readAt_next {s' : Session S} (rows : s'.rows = s.rows) :
    Row.readAt api r (s.rows r).idx { s'.setRow r (Row.next (s.rows r)) with vars } =
      Row.read api r { s' with vars } := by
  have back : Function.update (Function.update s'.rows r (Row.next (s.rows r))) r
      { Row.next (s.rows r) with idx := (s.rows r).idx } = s'.rows := by
    have row : { Row.next (s.rows r) with idx := (s.rows r).idx } = s'.rows r := by
      rw [rows, Row.next]
      split <;> rfl
    rw [Function.update_idem, row, Function.update_eq_self]
  change Row.read api r { s' with
    vars, rows := Function.update (Function.update s'.rows r (Row.next (s.rows r))) r
      { (Function.update s'.rows r (Row.next (s.rows r)) r) with idx := (s.rows r).idx } } = _
  rw [Function.update_self, back]

theorem Grown.row_value (doc : Documented api) (raw : RawBytes api) (grown : Grown w t)
    (table : (s.rows r).table = t) (first : 1 ≤ (s.rows r).idx)
    (heads : (s.world.unitOf (.table t)).heads = (w.unitOf (.table t)).heads)
    (sized : (s.world.unitOf (.table t)).Sized) (placed : Seated api t w place (s.rows r).entries s)
    (writes : Row.write api r s = .ok u s₁) (refilled : Refilled s vars) {e : Nat}
    (member : e ∈ (s.rows r).entries) {info : ColumnInfo}
    (stands : (s.entries e).Stands api t w s.vars (place e) info) :
    ((∀ e ∈ (s.rows r).entries, (s.entries e).var.target.text = true) →
      ∃ s₂, Row.readAt api r (s.rows r).idx { s₁ with vars } = .ok true s₂) ∧
    ∀ b s₂, Row.readAt api r (s.rows r).idx { s₁ with vars } = .ok b s₂ → b = true ∧
      ((∀ e' ∈ (s.rows r).entries, e' ≠ e → place e' ≠ place e ∧
        (s.entries e').var ≠ (s.entries e).var) →
      (s.entries e).var.Decodes info s₂.vars ((s.entries e).var.encode info s.vars)) := by
  obtain ⟨s', rfl, written⟩ :=
    grown.row_written doc raw table first heads sized placed writes
  rw [readAt_next written.rows]
  exact grown.row_read doc raw table first written refilled member stands

/-- In a table that has been built by adding columns to an empty one, strings are
written and read without regard to the rest of their row. -/
theorem text_apart (doc : Documented api) (raw : RawBytes api) {w₀ : World}
    {trace : List (Option ColumnEdit × World)} (built : refresh api t w₀ = .ok u w)
    (empty : (w.unitOf (.table t)).cols = []) (adds : ∀ p ∈ trace, ColumnEdit.Adds p.1)
    (run : Trace (EditStep api t) w trace) : TextApart api S (last w trace) t := by
  have grown := run_grown doc raw adds run (Grown.of_empty (synced_of_refresh doc built) empty)
  constructor
  case write =>
    intro τ it it' base info k row v v' still low entry bound held first writes j other r low' high
    obtain ⟨h, rfl, touches, _⟩ := grown.text_write doc raw still low entry bound held first writes
    rw [World.unitOf_put]
    exact touches.others r low' high j other
  case read =>
    intro τ it base info k row v v' still still' low entry bound held first last last' same
    obtain ⟨cell, found, whole⟩ := grown.text_cell still low entry bound first last
    obtain ⟨it', value, _, _, reads⟩ := grown.text_read raw low entry bound held whole
    exact ⟨(it', value), reads v still row first last found,
      reads v' still' row first last' (same.trans found)⟩
  case rows =>
    intro s s₁ r place vars u table heads sized first placed writes refilled
    constructor
    · intro nonempty texts
      obtain ⟨e, member⟩ := List.exists_mem_of_ne_nil _ nonempty
      obtain ⟨info, stands⟩ := (placed e member).stands (texts e member)
      have value := grown.row_value doc raw table first heads sized placed writes refilled member stands
      exact value.1 texts
    · intro b s₂ reads e member text
      obtain ⟨info, stands⟩ := (placed e member).stands text
      have value := grown.row_value doc raw table first heads sized placed writes refilled member stands
      obtain ⟨rfl, decodes⟩ := value.2 b s₂ reads
      refine ⟨rfl, fun alone u u₁ c u₂ writes' reads' => ?_⟩
      have single : Seated api t (last w trace) place ((only s r e).rows r).entries (only s r e) := by
        rw [rows_only]
        intro e' here
        obtain rfl := List.mem_singleton.mp here
        exact placed e' member
      have alone' : e ∈ ((only s r e).rows r).entries := by simp [rows_only]
      have value' := grown.row_value (s := only s r e) doc raw (by rw [rows_only]; exact table)
        (by rw [rows_only]; exact first) heads sized single writes' refilled alone' stands
      rw [rows_only] at value'
      obtain ⟨_, decodes'⟩ := value'.2 c u₂ reads'
      refine (decodes alone).unique (decodes' (fun e' here other => ?_))
      exact absurd (List.mem_singleton.mp here) other

end Rows

def blankTable : World :=
  after (refresh Reference.rawApi 0
    (Reference.world (Reference.table [] 0) Reference.primary Reference.primary))

def withName : World := after (addNew Reference.rawApi 0 "A" .string "" [3] 1 blankTable)

def withBoth : World := after (addNew Reference.rawApi 0 "B" .string "" [2, 2] 1 withName)

def stringAdds : List (Option ColumnEdit × World) :=
  [(some (.addNew "A" .string "" [3] 1), withName),
    (some (.addNew "B" .string "" [2, 2] 1), withBoth)]

def opened (v : World) (t : Nat) : Session listBitset where
  world := v
  vars u := u.target.nothing
  made := 0
  entries _ := ⟨⟨.string, 0⟩, ⟨⟨0, 0, 0, .string⟩, [], 0⟩⟩
  rows _ := { table := t, idx := 1, autoAdvance := true, entries := [] }

@[simp] theorem world_opened {v : World} {t : Nat} : (opened v t).world = v := rfl

@[simp] theorem row_opened {v : World} {t r : Nat} : (opened v t).rows r =
    { table := t, idx := 1, autoAdvance := true, entries := [] } := rfl

def oneBound : Session listBitset :=
  after (Row.add Reference.rawApi 0 "A" ⟨.string, 0⟩ (opened withBoth 0))

def bothBound : Session listBitset :=
  after (Row.add Reference.rawApi 0 "B" ⟨.strings, 0⟩ oneBound)

def bothWritten : Session listBitset := after (Row.write Reference.rawApi 0 bothBound)

theorem blank_built : refresh Reference.rawApi 0
    (Reference.world (Reference.table [] 0) Reference.primary Reference.primary) =
    .ok () blankTable := ok_of_returned (by decide +kernel)

theorem name_added : EditStep Reference.rawApi 0 (some (.addNew "A" .string "" [3] 1)) blankTable
    withName := ⟨by decide +kernel, ok_of_returned (by decide +kernel)⟩

theorem both_added : EditStep Reference.rawApi 0 (some (.addNew "B" .string "" [2, 2] 1)) withName
    withBoth := ⟨by decide +kernel, ok_of_returned (by decide +kernel)⟩

theorem last_stringAdds : last blankTable stringAdds = withBoth := by
  simp only [stringAdds, last]

theorem seated_both : ∃ place,
    Seated Reference.rawApi 0 withBoth place (bothBound.rows 0).entries bothBound := by
  have doc := Reference.documented_raw
  have first := (editStep_list doc name_added (synced_of_refresh doc blank_built)).1
  have synced := (editStep_list doc both_added first).1
  have one : Row.add Reference.rawApi 0 "A" ⟨.string, 0⟩ (opened withBoth 0) = .ok () oneBound :=
    ok_of_returned (by decide +kernel)
  have two : Row.add Reference.rawApi 0 "B" ⟨.strings, 0⟩ oneBound = .ok () bothBound :=
    ok_of_returned (by decide +kernel)
  have table₀ : ((opened withBoth 0).rows 0).table = 0 := by rw [row_opened]
  have columns₀ : ((opened withBoth 0).world.tables 0).columns = (withBoth.tables 0).columns := by
    rw [world_opened]
  have made₀ : ∀ e ∈ ((opened withBoth 0).rows 0).entries, e < (opened withBoth 0).made := by simp
  have fresh₀ : ∀ e ∈ ((opened withBoth 0).rows 0).entries,
      ((opened withBoth 0).entries e).var ≠ ⟨.string, 0⟩ := by simp
  have start : Seated Reference.rawApi 0 withBoth id ((opened withBoth 0).rows 0).entries
      (opened withBoth 0) := by simp [Seated]
  have next := seated_add doc table₀ synced columns₀ made₀ fresh₀ start one
  obtain ⟨k, _, placed⟩ := next
  have table : (oneBound.rows 0).table = 0 := by decide +kernel
  have columns : (oneBound.world.tables 0).columns = (withBoth.tables 0).columns := by decide +kernel
  have made : ∀ e ∈ (oneBound.rows 0).entries, e < oneBound.made := by decide +kernel
  have fresh : ∀ e ∈ (oneBound.rows 0).entries, (oneBound.entries e).var ≠ ⟨.strings, 0⟩ := by
    decide +kernel
  have last := seated_add doc table synced columns made fresh placed two
  obtain ⟨_, _, placed'⟩ := last
  exact ⟨_, placed'⟩

theorem text_apart_both : TextApart Reference.rawApi listBitset withBoth 0 ∧
    ∃ s₂, Row.readAt Reference.rawApi 0 (bothBound.rows 0).idx
      { bothWritten with vars := bothBound.vars } = .ok true s₂ := by
  have adds : ∀ p ∈ stringAdds, ColumnEdit.Adds p.1 := by
    intro p member
    simp only [stringAdds, List.mem_cons, List.not_mem_nil, or_false] at member
    rcases member with rfl | rfl <;> exact ⟨by decide, by decide⟩
  have run : Trace (EditStep Reference.rawApi 0) blankTable stringAdds :=
    ⟨name_added, both_added, trivial⟩
  have empty : (blankTable.unitOf (.table 0)).cols.length = 0 := by decide +kernel
  have apart : TextApart Reference.rawApi listBitset (last blankTable stringAdds) 0 :=
    text_apart Reference.documented_raw Reference.rawBytes blank_built
      (List.eq_nil_of_length_eq_zero empty) adds run
  rw [last_stringAdds] at apart
  obtain ⟨place, placed⟩ := seated_both
  have table : (bothBound.rows 0).table = 0 := by decide +kernel
  have heads : (bothBound.world.unitOf (.table 0)).heads = (withBoth.unitOf (.table 0)).heads := by
    decide +kernel
  have nrows : (bothBound.world.unitOf (.table 0)).nrows = 0 := by decide +kernel
  have sized : (bothBound.world.unitOf (.table 0)).Sized := by
    intro r low high
    omega
  have writes : Row.write Reference.rawApi 0 bothBound = .ok () bothWritten :=
    ok_of_returned (by decide +kernel)
  have rows := apart.rows table heads sized (by decide +kernel) placed writes
    (fun _ _ held => held)
  exact ⟨apart, rows.1 (by decide +kernel) (by decide +kernel)⟩

end Table
end MisFITS
