import MisFITS.Facts
import MisFITS.Isolation
import MisFITS.Keywords
import MisFITS.Records

/-! The keywords of all header-data units as a map from names to cards. Each of the
methods of any objects is a step of that map and of the cursors of the files. -/
namespace MisFITS
open Program HDU Run

/-- How names are compared, what a header has by a name, what the calls put there, and
what can be read of it. -/
structure CardModel (κ : Type) where
  key : String → List Char
  look : HduData → List Char → Option κ
  /-- no name is repeated but those of commentary -/
  single : HduData → Prop
  text : String → String → κ
  longText : String → String → κ
  typed : (T : StorageType) → T.Native → String → κ
  warning : κ
  chars : κ → Except Status (List Char)
  value : (T : StorageType) → κ → Except Status T.Native
  comment : κ → String

namespace CardModel

variable {κ : Type} (m : CardModel κ)

def longstrn : List Char := m.key "LONGSTRN"

/-- The names of which a header has many cards. -/
def commentary : List (List Char) := [m.key "HISTORY", m.key "COMMENT", m.key "CONTINUE"]

structure Changed (h h' : HduData) (look : List Char → Option κ) : Prop where
  single : m.single h → m.single h'
  look : ∀ name ∉ m.commentary, m.look h' name = look name

end CardModel

/-- The documented behaviour of the calls on keywords. -/
structure KeywordCalls (api : Cfitsio) {κ : Type} (m : CardModel κ) : Prop where
  longstrn_plain : m.longstrn ∉ m.commentary
  chars_there : ∀ c, m.chars c ≠ .error .keyNoExist
  value_there : ∀ T c, m.value T c ≠ .error .keyNoExist
  strlen_missing : ∀ {h name}, m.look h (m.key name) = none →
    api.getKeyStrlen name h = (some .keyNoExist, 0)
  strlen_error : ∀ {h name c status}, m.look h (m.key name) = some c →
    m.chars c = .error status → (api.getKeyStrlen name h).1 = some status
  strlen : ∀ {h name c chars}, m.look h (m.key name) = some c → m.chars c = .ok chars →
    api.getKeyStrlen name h = (none, chars.length)
  string_key : ∀ {h name c chars}, m.look h (m.key name) = some c → m.chars c = .ok chars →
    api.readStringKey name 1 chars.length h = ⟨none, String.ofList chars, m.comment c⟩
  read_missing : ∀ {T h name} (d : T.Native), m.look h (m.key name) = none →
    (api.readKey T name d h).status = some .keyNoExist ∧ (api.readKey T name d h).comment = ""
  read_error : ∀ {T h name c status} (d : T.Native), m.look h (m.key name) = some c →
    m.value T c = .error status →
    (api.readKey T name d h).status = some status ∧ (api.readKey T name d h).comment = m.comment c
  read_key : ∀ {T h name c v} (d : T.Native), m.look h (m.key name) = some c →
    m.value T c = .ok v → api.readKey T name d h = ⟨none, v, m.comment c⟩
  read_card : ∀ h name, api.readCard name h =
    if (m.look h (m.key name)).isSome then none else some .keyNoExist
  update_key_str : ∀ {name value comment h h'}, api.updateKeyStr name value comment h = .ok () h' →
    m.Changed h h' (Function.update (m.look h) (m.key name) (some (m.text value comment)))
  update_key_longstr : ∀ {name value comment h h'},
    api.updateKeyLongstr name value comment h = .ok () h' →
    m.Changed h h' (Function.update (m.look h) (m.key name) (some (m.longText value comment)))
  key_longwarn : ∀ {h h'}, api.writeKeyLongwarn h = .ok () h' → m.Changed h h'
    (Function.update (m.look h) m.longstrn (some ((m.look h m.longstrn).getD m.warning)))
  update_key : ∀ {T name value comment h h'}, api.updateKey T name value comment h = .ok () h' →
    m.Changed h h' (Function.update (m.look h) (m.key name) (some (m.typed T value comment)))
  delete_key : ∀ {name h h'}, m.single h → api.deleteKey name h = .ok () h' →
    (m.look h (m.key name)).isSome ∧
      m.Changed h h' (Function.update (m.look h) (m.key name) none)
  delete_missing : ∀ {name h h'}, api.deleteKey name h = .error .keyNoExist h' →
    m.look h (m.key name) = none ∧ h' = h
  write_history : ∀ {text h h'}, api.writeHistory text h = .ok () h' → m.Changed h h' (m.look h)
  write_comment : ∀ {text h h'}, api.writeComment text h = .ok () h' → m.Changed h h' (m.look h)

namespace CardModel

variable {κ : Type} (m : CardModel κ)

def cardsOf (h : HduData) (name : List Char) : Option κ :=
  if name ∈ m.commentary then none else m.look h name

def asText (card : Option κ) (keyname defaultValue : String) : Except Exception (Keyword String) :=
  match card with
  | none => .ok { keyname, value := defaultValue, defined := false }
  | some c =>
    match m.chars c with
    | .ok chars => .ok { keyname, value := String.ofList chars, comment := m.comment c }
    | .error .valueUndefined => .ok { keyname, value := defaultValue, defined := false }
    | .error status => .error (.cfitsio status)

def asValue (T : StorageType) (card : Option κ) (keyname : String) (defaultValue : T.Native) :
    Except Exception (Keyword T.Native) :=
  match card with
  | none => .ok { keyname, value := defaultValue, defined := false }
  | some c =>
    match m.value T c with
    | .ok v => .ok { keyname, value := v, comment := m.comment c }
    | .error .valueUndefined =>
      .ok { keyname, value := defaultValue, comment := m.comment c, defined := false }
    | .error status => .error (.cfitsio status)

end CardModel

/-- The cards of each header-data unit by name, but for commentary, and the number of the
current unit of each file. -/
structure KeywordStore (κ : Type) where
  cards : Nat × Int → List Char → Option κ
  chdu : Nat → Int

namespace KeywordStore

variable {κ : Type}

def goTo (K : KeywordStore κ) (p : Nat × Int) : KeywordStore κ :=
  { K with chdu := Function.update K.chdu p.1 p.2 }

def put (K : KeywordStore κ) (p : Nat × Int) (name : List Char) (card : Option κ) :
    KeywordStore κ :=
  { K with cards := Function.update K.cards p (Function.update (K.cards p) name card) }

@[simp] theorem goTo_put {K : KeywordStore κ} {p : Nat × Int} {name : List Char} {card : Option κ} :
    ((K.goTo p).put p name card).goTo p = (K.goTo p).put p name card := by
  simp [goTo, put]

inductive Step (api : Cfitsio) (m : CardModel κ) (p : Nat × Int) :
    HduOp → Except Exception Answer → KeywordStore κ → KeywordStore κ → Prop
  | getHdrpos {K reply} : Step api m p .getHdrpos reply K (K.goTo p)
  | hasKeyword {K name} : Step api m p (.hasKeyword name)
      (.ok (.flag (K.cards (p.1, K.chdu p.1) (m.key name)).isSome)) K K
  | getString {K name d} : Step api m p (.getKeywordString name d)
      ((m.asText (K.cards p (m.key name)) name d).map .text) K (K.goTo p)
  | get {K T name d} : Step api m p (.getKeyword T name d)
      ((m.asValue T (K.cards p (m.key name)) name d).map (.value T)) K (K.goTo p)
  | setShort {K kw} (short : kw.value.length ≤ api.flenValue) :
      Step api m p (.setKeywordString kw) (.ok .done) K
        ((K.goTo p).put p (m.key kw.keyname) (some (m.text kw.value kw.comment)))
  | setLong {K kw} (long : api.flenValue < kw.value.length) :
      Step api m p (.setKeywordString kw) (.ok .done) K
        (((K.goTo p).put p m.longstrn (some ((K.cards p m.longstrn).getD m.warning))).put p
          (m.key kw.keyname) (some (m.longText kw.value kw.comment)))
  | set {K T kw} : Step api m p (.setKeyword T kw) (.ok .done) K
      ((K.goTo p).put p (m.key kw.keyname) (some (m.typed T kw.value kw.comment)))
  | delete {K name} (there : (K.cards p (m.key name)).isSome) :
      Step api m p (.deleteKeyword name) (.ok .done) K ((K.goTo p).put p (m.key name) none)
  | deleteMissing {K name} (missing : K.cards p (m.key name) = none) :
      Step api m p (.deleteKeyword name) (.error (.cfitsio .keyNoExist)) K (K.goTo p)
  | addHistory {K text} : Step api m p (.addHistory text) (.ok .done) K (K.goTo p)
  | addComment {K text} : Step api m p (.addComment text) (.ok .done) K (K.goTo p)
  | refresh {K} : Step api m p .refresh (.ok .done) K (K.goTo p)

end KeywordStore

def HduOp.keyname : HduOp → Option String
  | .hasKeyword name | .getKeywordString name _ | .getKeyword _ name _ | .deleteKeyword name =>
    some name
  | .setKeywordString kw => some kw.keyname
  | .setKeyword _ kw => some kw.keyname
  | .getHdrpos | .addHistory _ | .addComment _ | .refresh => none

def HduOp.Plain {κ : Type} (m : CardModel κ) (op : HduOp) : Prop :=
  ∀ name, op.keyname = some name → m.key name ∉ m.commentary

/-- How a method of an object ends that sets something, or anything else. -/
def HduOp.Ends : HduOp → Except Exception Answer → Prop
  | .setKeywordString _, reply | .setKeyword _ _, reply | .addHistory _, reply
  | .addComment _, reply | .refresh, reply => reply = .ok .done
  | .deleteKeyword _, reply => reply = .ok .done ∨ reply = .error (.cfitsio .keyNoExist)
  | .getHdrpos, _ | .hasKeyword _, _ | .getKeywordString _ _, _ | .getKeyword _ _ _, _ => True

inductive KeyEvent where
  | call (o : Obj) (op : HduOp) (reply : Except Exception Answer)
  | moves

def resultOf {ε σ α : Type} (reply : Except ε α) (s : σ) : EStateM.Result ε σ α :=
  match reply with
  | .ok a => .ok a s
  | .error e => .error e s

/-- A method of an object that is attached to a unit returns, or throws for want of a
keyword or of a value of the type that is asked for. It is not about commentary. -/
def KeyStep (api : Cfitsio) {κ : Type} (m : CardModel κ) : KeyEvent → World → World → Prop
  | .call o op reply, w, w' =>
    w.Attached o ∧ op.Plain m ∧ op.run api o w = resultOf reply w' ∧ op.Ends reply
  | .moves, w, w' => w.Moved w'

def KeywordStore.Follows (api : Cfitsio) {κ : Type} (m : CardModel κ) (place : Obj → Nat × Int) :
    KeyEvent → KeywordStore κ → KeywordStore κ → Prop
  | .call o op reply, K, K' => Step api m (place o) op reply K K'
  | .moves, K, K' => K'.cards = K.cards

def World.keywords {κ : Type} (w : World) (m : CardModel κ) : KeywordStore κ where
  cards p := m.cardsOf (w.unitAt p)
  chdu f := (w.files f).chdu

section Methods

variable {api : Cfitsio} {κ : Type} {m : CardModel κ} {w w' : World} {o : Obj} {h h' : HduData}

theorem cardsOf_plain {name : List Char} (plain : name ∉ m.commentary) :
    m.cardsOf h name = m.look h name := if_neg plain

theorem CardModel.Changed.cardsOf {look : List Char → Option κ} (changed : m.Changed h h' look) :
    m.cardsOf h' = fun name => if name ∈ m.commentary then none else look name := by
  funext name
  by_cases plain : name ∈ m.commentary
  · rw [CardModel.cardsOf, if_pos plain, if_pos plain]
  · rw [CardModel.cardsOf, if_neg plain, if_neg plain, changed.look name plain]

theorem CardModel.Changed.cardsOf_update {name : List Char} {card : Option κ}
    (plain : name ∉ m.commentary) (changed : m.Changed h h' (Function.update (m.look h) name card)) :
    m.cardsOf h' = Function.update (m.cardsOf h) name card := by
  rw [changed.cardsOf]
  funext other
  by_cases self : other = name
  · simp [self, plain]
  · simp [self, CardModel.cardsOf]

theorem keywords_onto : (w.onto o).keywords m = (w.keywords m).goTo (w.placeOf o) := by
  have cards : (fun p => m.cardsOf ((w.onto o).unitAt p)) = fun p => m.cardsOf (w.unitAt p) :=
    funext fun p => congrArg m.cardsOf World.moved_onto.unitAt
  have chdu : (fun f => ((w.onto o).files f).chdu) =
      Function.update (fun f => (w.files f).chdu) (w.base o).file (w.base o).hduNum := by
    funext f
    by_cases here : f = (w.base o).file
    · rw [here, Function.update_self]
      exact World.chdu_setChdu
    · rw [Function.update_of_ne here]
      exact World.chdu_setChdu_ne here
  exact congrArg₂ KeywordStore.mk cards chdu

theorem keywords_put : (w.put o h).keywords m =
    { (w.keywords m).goTo (w.placeOf o) with
      cards := Function.update (w.keywords m).cards (w.placeOf o) (m.cardsOf h) } := by
  have chdu : ∀ f, ((w.put o h).files f).chdu = ((w.onto o).files f).chdu := fun f => World.chdu_putUnit
  rw [← keywords_onto]
  refine congrArg₂ KeywordStore.mk (funext fun q => ?_) (funext chdu)
  change m.cardsOf ((w.put o h).unitAt q) = Function.update (w.keywords m).cards _ _ q
  rw [World.unitAt_put]
  by_cases here : q = w.placeOf o
  · rw [if_pos here, here, Function.update_self]
  · rw [if_neg here, Function.update_of_ne here]
    rfl

theorem keywords_update {name : List Char} {card : Option κ} (plain : name ∉ m.commentary)
    (changed : m.Changed (w.unitOf o) h (Function.update (m.look (w.unitOf o)) name card)) :
    (w.put o h).keywords m = ((w.keywords m).goTo (w.placeOf o)).put (w.placeOf o) name card := by
  rw [keywords_put, changed.cardsOf_update plain]
  rfl

theorem keywords_same (changed : m.Changed (w.unitOf o) h (m.look (w.unitOf o))) :
    (w.put o h).keywords m = (w.keywords m).goTo (w.placeOf o) := by
  rw [keywords_put, changed.cardsOf]
  exact congrArg (KeywordStore.mk · _) (Function.update_eq_self (w.placeOf o) (w.keywords m).cards)

theorem editOwn_ok (doc : Documented api) {e : Edit} {u : Unit} (run : editOwn api o e w = .ok u w') :
    ∃ h, e (w.unitOf o) = .ok () h ∧ w' = w.put o h :=
  Table.editFile_ok (setAsChdu_bind_ok doc run)

theorem editOwn_error (doc : Documented api) (own : w.Attached o) {e : Edit} {thrown : Exception}
    (run : editOwn api o e w = .error thrown w') :
    ∃ status h, e (w.unitOf o) = .error status h ∧ thrown = .cfitsio status ∧ w' = w.put o h := by
  unfold editOwn at run
  rw [bind_of_ok (setAsChdu_of_attached doc own)] at run
  unfold onFile at run
  rw [World.base_onto] at run
  unfold editChdu at run
  simp only [World.current_onto] at run
  cases edited : e (w.unitOf o) with
  | ok u h =>
    simp only [edited] at run
    cases run
  | error status h =>
    simp only [edited] at run
    cases run
    refine ⟨status, h, rfl, rfl, ?_⟩
    rw [World.put, World.onto, World.chdu_setChdu]

theorem readOwn_eq {α : Type} (doc : Documented api) (own : w.Attached o) (r : Read α) :
    readOwn api o r w = ofExcept ((r (w.unitOf o)).mapError .cfitsio) (w.onto o) := by
  unfold readOwn
  rw [bind_of_ok (setAsChdu_of_attached doc own)]
  unfold onFile
  rw [World.base_onto]
  unfold readChdu
  simp only [World.current_onto]
  cases r (w.unitOf o) <;> rfl

theorem keywordString_eq (calls : KeywordCalls api m) (name d : String) (h : HduData) :
    keywordString api name d h = m.asText (m.look h (m.key name)) name d := by
  unfold keywordString CardModel.asText
  cases found : m.look h (m.key name) with
  | none =>
    rw [calls.strlen_missing found]
    rfl
  | some c =>
    cases read : m.chars c with
    | ok chars =>
      simp only [read, calls.strlen found read, calls.string_key found read, assign_ofList]
      rfl
    | error status =>
      have failed := calls.strlen_error found read
      obtain ⟨first, length⟩ : ∃ n, api.getKeyStrlen name h = (some status, n) :=
        ⟨_, Prod.ext failed rfl⟩
      have there := calls.chars_there c
      cases status with
      | keyNoExist => exact absurd read there
      | _ => simp only [length, read]; rfl

theorem returnKeyword_eq (calls : KeywordCalls api m) (T : StorageType) (name : String)
    (d : T.Native) (h : HduData) :
    returnKeyword name (api.readKey T name d h) d = m.asValue T (m.look h (m.key name)) name d := by
  unfold CardModel.asValue
  cases found : m.look h (m.key name) with
  | none =>
    obtain ⟨status, comment⟩ := calls.read_missing d found
    unfold returnKeyword
    rw [status, comment]
    rfl
  | some c =>
    cases read : m.value T c with
    | ok v =>
      simp only [read, calls.read_key d found read]
      rfl
    | error status =>
      obtain ⟨failed, comment⟩ := calls.read_error d found read
      have there := calls.value_there T c
      unfold returnKeyword
      cases status with
      | keyNoExist => exact absurd read there
      | _ => simp only [failed, comment, read]; rfl

theorem getKeywordString_eq (doc : Documented api) (calls : KeywordCalls api m)
    (own : w.Attached o) (name d : String) : getKeywordString api o name d w =
      ofExcept (m.asText (m.look (w.unitOf o) (m.key name)) name d) (w.onto o) := by
  unfold getKeywordString
  rw [bind_of_ok (inspectOwn_of_attached doc own _), keywordString_eq calls]

theorem getKeyword_eq (doc : Documented api) (calls : KeywordCalls api m) (own : w.Attached o)
    (T : StorageType) (name : String) (d : T.Native) : getKeyword api o T name d w =
      ofExcept (m.asValue T (m.look (w.unitOf o) (m.key name)) name d) (w.onto o) := by
  unfold getKeyword
  rw [bind_of_ok (inspectOwn_of_attached doc own _), returnKeyword_eq calls]

theorem hasKeyword_eq (calls : KeywordCalls api m) (name : String) : hasKeyword api o name w =
    .ok (m.look (w.current (w.base o).file) (m.key name)).isSome w := by
  unfold hasKeyword
  have card : onFile o (inspectChdu · (api.readCard name)) w =
      .ok (api.readCard name (w.current (w.base o).file)) w := rfl
  rw [bind_of_ok card, calls.read_card]
  cases m.look (w.current (w.base o).file) (m.key name) <;> rfl

theorem resultOf_inj {ε σ α : Type} {r r' : Except ε α} {s s' : σ}
    (same : resultOf r s = resultOf r' s') : r = r' ∧ s = s' := by
  cases r <;> cases r' <;> cases same <;> exact ⟨rfl, rfl⟩

theorem result_map {α β : Type} {x : M α} {r : Except Exception α} (g : α → β)
    (run : x w = ofExcept r w') : (x >>= fun a => pure (g a)) w = resultOf (r.map g) w' := by
  cases r with
  | ok a => exact bind_of_ok run _
  | error e => exact bind_of_error run _

theorem done_ok {x : M Unit} (run : (x >>= fun _ => pure Answer.done) w = resultOf (.ok .done) w') :
    x w = .ok () w' := by
  obtain ⟨_, v, first, last⟩ := bind_ok.mp run
  obtain ⟨_, rfl⟩ := pure_ok.mp last
  exact first

theorem done_error {x : M Unit} {e : Exception}
    (run : (x >>= fun _ => pure Answer.done) w = resultOf (.error e) w') : x w = .error e w' := by
  rcases bind_error.mp run with thrown | ⟨_, _, _, thrown⟩
  · exact thrown
  · cases thrown

structure Steady (m : CardModel κ) (w w' : World) : Prop where
  place : ∀ p, w'.placeOf p = w.placeOf p
  single : (∀ q, m.single (w.unitAt q)) → ∀ q, m.single (w'.unitAt q)

theorem Steady.trans {v : World} (first : Steady m w v) (later : Steady m v w') : Steady m w w' where
  place p := (later.place p).trans (first.place p)
  single before := later.single (first.single before)

theorem steady_moved (moved : w.Moved w') : Steady m w w' where
  place p := by rw [World.placeOf, World.placeOf, moved.base]
  single before q := moved.unitAt ▸ before q

theorem steady_put (keeps : m.single (w.unitOf o) → m.single h) : Steady m w (w.put o h) where
  place p := by rw [World.placeOf, World.placeOf, World.base_put]
  single before q := by
    rw [World.unitAt_put]
    split
    · exact keeps (before (w.placeOf o))
    · exact before q

theorem setKeywordString_follows (doc : Documented api) (calls : KeywordCalls api m)
    {kw : Keyword String} (plain : m.key kw.keyname ∉ m.commentary)
    (run : setKeywordString api o kw w = .ok () w') : Steady m w w' ∧
      KeywordStore.Step api m (w.placeOf o) (.setKeywordString kw) (.ok .done) (w.keywords m)
        (w'.keywords m) := by
  obtain ⟨h, edited, rfl⟩ := editOwn_ok doc run
  split at edited
  · rename_i long
    obtain ⟨_, h₁, warns, edited⟩ := bind_ok.mp edited
    have warned := calls.key_longwarn warns
    have changed := calls.update_key_longstr edited
    have first := keywords_update (o := o) calls.longstrn_plain warned
    rw [← World.unitOf_put (w := w) (o := o) (h := h₁)] at changed
    have second := keywords_update (o := o) plain changed
    have place : (w.put o h₁).placeOf o = w.placeOf o := (steady_put warned.single).place o
    rw [World.put_put, first, place, KeywordStore.goTo_put] at second
    rw [World.unitOf_put] at changed
    rw [second, ← cardsOf_plain calls.longstrn_plain]
    exact ⟨steady_put (changed.single ∘ warned.single), .setLong (K := w.keywords m) long⟩
  · rename_i short
    have changed := calls.update_key_str edited
    exact ⟨steady_put changed.single,
      keywords_update plain changed ▸ .setShort (Nat.le_of_not_lt short)⟩

/-- A method of an object is a step of the map. -/
theorem call_follows (doc : Documented api) (calls : KeywordCalls api m) {op : HduOp}
    {reply : Except Exception Answer} (single : ∀ q, m.single (w.unitAt q))
    (step : KeyStep api m (.call o op reply) w w') :
    Steady m w w' ∧
      KeywordStore.Step api m (w.placeOf o) op reply (w.keywords m) (w'.keywords m) := by
  obtain ⟨own, plain, run, ends⟩ := step
  have steady : Steady m w (w.onto o) := steady_moved World.moved_onto
  cases op with
  | getHdrpos =>
    have reads : getHdrpos api o w = _ := readOwn_eq doc own _
    obtain ⟨rfl, rfl⟩ := resultOf_inj (run.symm.trans (result_map _ reads))
    exact ⟨steady, keywords_onto ▸ .getHdrpos⟩
  | hasKeyword name =>
    have same := (bind_of_ok (hasKeyword_eq calls name) _).symm.trans run
    obtain ⟨rfl, rfl⟩ := resultOf_inj (r := .ok _) same
    rw [← cardsOf_plain (plain name rfl)]
    exact ⟨steady_moved (.refl w), KeywordStore.Step.hasKeyword (K := w.keywords m)⟩
  | getKeywordString name d =>
    have reads := result_map Answer.text (getKeywordString_eq doc calls own name d)
    obtain ⟨rfl, rfl⟩ := resultOf_inj (run.symm.trans reads)
    rw [← cardsOf_plain (plain name rfl)]
    exact ⟨steady, keywords_onto ▸ KeywordStore.Step.getString (K := w.keywords m)⟩
  | getKeyword T name d =>
    have reads := result_map (Answer.value T) (getKeyword_eq doc calls own T name d)
    obtain ⟨rfl, rfl⟩ := resultOf_inj (run.symm.trans reads)
    rw [← cardsOf_plain (plain name rfl)]
    exact ⟨steady, keywords_onto ▸ KeywordStore.Step.get (K := w.keywords m)⟩
  | setKeywordString kw =>
    cases ends
    exact setKeywordString_follows doc calls (plain _ rfl) (done_ok run)
  | setKeyword T kw =>
    cases ends
    obtain ⟨h, edited, rfl⟩ := editOwn_ok doc (done_ok run)
    have changed := calls.update_key edited
    exact ⟨steady_put changed.single, keywords_update (plain _ rfl) changed ▸ .set⟩
  | deleteKeyword name =>
    have here : m.look (w.unitOf o) (m.key name) = (w.keywords m).cards (w.placeOf o) (m.key name) :=
      (cardsOf_plain (plain name rfl)).symm
    rcases ends with rfl | rfl
    · obtain ⟨h, edited, rfl⟩ := editOwn_ok doc (done_ok run)
      obtain ⟨there, changed⟩ := calls.delete_key (single (w.placeOf o)) edited
      exact ⟨steady_put changed.single,
        keywords_update (plain name rfl) changed ▸ .delete (here ▸ there)⟩
    · obtain ⟨status, h, edited, thrown, rfl⟩ := editOwn_error doc own (done_error run)
      cases thrown
      obtain ⟨missing, rfl⟩ := calls.delete_missing edited
      rw [World.put_unitOf]
      exact ⟨steady, keywords_onto ▸ .deleteMissing (here ▸ missing)⟩
  | addHistory text =>
    cases ends
    obtain ⟨h, edited, rfl⟩ := editOwn_ok doc (done_ok run)
    have changed := calls.write_history edited
    exact ⟨steady_put changed.single, keywords_same changed ▸ .addHistory⟩
  | addComment text =>
    cases ends
    obtain ⟨h, edited, rfl⟩ := editOwn_ok doc (done_ok run)
    have changed := calls.write_comment edited
    exact ⟨steady_put changed.single, keywords_same changed ▸ .addComment⟩
  | refresh =>
    cases ends
    obtain ⟨extname, extver, rfl⟩ := HDU.refresh_ok doc (done_ok run)
    have units : ∀ p, ((w.onto o).rename o extname extver).unitAt p = (w.onto o).unitAt p := by
      simp [World.unitAt]
    refine ⟨steady.trans ⟨fun p => ?_, fun before q => ?_⟩, ?_⟩
    · simp [World.placeOf]
    · rw [units]
      exact before q
    · have same : ((w.onto o).rename o extname extver).keywords m = (w.onto o).keywords m := by
        simp [World.keywords, units]
      rw [same, keywords_onto]
      exact .refresh

end Methods

namespace KeywordStore

variable {κ : Type}

def facts (κ : Type) : Facts.Store (KeywordStore κ) ((Nat × Int) × List Char × Option κ) where
  holds f K := K.cards f.1 f.2.1 = f.2.2
  apart f g := f.1 ≠ g.1 ∨ f.2.1 ≠ g.2.1

theorem writes_card {K : KeywordStore κ} {p : Nat × Int} {name : List Char} {card : Option κ} :
    Facts.Writes (facts κ) (p, name, card) K (K.put p name card) where
  here := by simp [facts, put]
  others f apart holds := by
    refine Eq.trans ?_ holds
    change Function.update K.cards p (Function.update (K.cards p) name card) f.1 f.2.1 = _
    by_cases unit : f.1 = p
    · have other : f.2.1 ≠ name := fun same => apart.elim (fun ne => ne unit.symm) (fun ne => ne same.symm)
      rw [unit, Function.update_self, Function.update_of_ne other]
    · rw [Function.update_of_ne unit]

end KeywordStore

/-- The cards that a method puts in the place of others, or none where it takes one out. -/
def HduOp.puts (api : Cfitsio) {κ : Type} (m : CardModel κ) (p : Nat × Int) (K : KeywordStore κ) :
    HduOp → List ((Nat × Int) × List Char × Option κ)
  | .setKeywordString kw =>
    if api.flenValue < kw.value.length then
      [(p, m.longstrn, some ((K.cards p m.longstrn).getD m.warning)),
        (p, m.key kw.keyname, some (m.longText kw.value kw.comment))]
    else [(p, m.key kw.keyname, some (m.text kw.value kw.comment))]
  | .setKeyword T kw => [(p, m.key kw.keyname, some (m.typed T kw.value kw.comment))]
  | .deleteKeyword name => [(p, m.key name, none)]
  | .getHdrpos | .hasKeyword _ | .getKeywordString _ _ | .getKeyword _ _ _ | .addHistory _
  | .addComment _ | .refresh => []

def KeyEvent.puts (api : Cfitsio) {κ : Type} (m : CardModel κ) :
    KeyEvent → World → List ((Nat × Int) × List Char × Option κ)
  | .call o op _, w => op.puts api m (w.placeOf o) (w.keywords m)
  | .moves, _ => []

section Runs

variable {api : Cfitsio} {κ : Type} {m : CardModel κ} {w w' : World} {o : Obj}

theorem KeywordStore.Step.known {p : Nat × Int} {op : HduOp} {reply : Except Exception Answer}
    {K K' : KeywordStore κ} (step : Step api m p op reply K K')
    {S : Set ((Nat × Int) × List Char × Option κ)} (known : Facts.Known (facts κ) S K) :
    Facts.Known (facts κ) (Facts.writes (facts κ) S (op.puts api m p K)) K' := by
  have there : Facts.Known (facts κ) S (K.goTo p) := known
  cases step with
  | getHdrpos | getString | get | refresh => exact there
  | hasKeyword => exact known
  | setShort short =>
    rw [HduOp.puts, if_neg (Nat.not_lt.mpr short)]
    exact there.write writes_card
  | setLong long =>
    rw [HduOp.puts, if_pos long]
    exact (there.write writes_card).write writes_card
  | set => exact there.write writes_card
  | delete => exact there.write writes_card
  | deleteMissing missing =>
    rintro f (rfl | ⟨member, _⟩)
    · exact missing
    · exact there f member
  | addHistory | addComment => exact there

theorem KeyStep.follows (doc : Documented api) (calls : KeywordCalls api m) {e : KeyEvent}
    (single : ∀ q, m.single (w.unitAt q)) (step : KeyStep api m e w w') :
    Steady m w w' ∧ KeywordStore.Follows api m w.placeOf e (w.keywords m) (w'.keywords m) := by
  cases e with
  | call o op reply => exact call_follows doc calls single step
  | moves =>
    have moved : w.Moved w' := step
    exact ⟨steady_moved moved, funext fun p => congrArg m.cardsOf moved.unitAt⟩

end Runs

/-! ## The small implementation, with names in any case -/

namespace Reference
open Quotes

end Reference

section Turns

end Turns
end MisFITS
