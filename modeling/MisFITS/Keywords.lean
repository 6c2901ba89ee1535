import Mathlib.Data.List.DropRight
import MisFITS.Quotes
import MisFITS.Reference
import MisFITS.Table

/-! String keywords: a value that is set and read again. A `Char` of a keyword's
value stands for one `char`. -/
namespace MisFITS
open Program Quotes

def ReadsText (api : Cfitsio) (h : HduData) (keyname : String) (text : List Char) : Prop :=
  ∃ comment, api.getKeyStrlen keyname h = (none, text.length) ∧
    api.readStringKey keyname 1 text.length h = ⟨none, String.ofList text, comment⟩

/-- A value with its quotes undone, in which blanks at the end do not count. -/
def unquoted (stored : List Char) : List Char :=
  (undouble '\'' stored).rdropWhile (fun c => c = ' ')

/-- The documented behaviour of string keywords: a card has room for 68 characters. -/
structure StringKeys (api : Cfitsio) : Prop where
  flen_value : api.flenValue = 71
  update_key_str : ∀ {keyname value comment h h'}, '\x00' ∉ value.toList →
    api.updateKeyStr keyname value comment h = .ok () h' →
    ReadsText api h' keyname (unquoted ((double '\'' value.toList).take 68))
  update_key_longstr : ∀ {keyname value comment h h'}, '\x00' ∉ value.toList →
    api.updateKeyLongstr keyname value comment h = .ok () h' →
    ReadsText api h' keyname (unquoted (double '\'' value.toList))

section Unquoted

variable {value : List Char} {n : Nat}

theorem unquoted_double (ends : value.getLast? ≠ some ' ') :
    unquoted (double '\'' value) = value := by
  unfold unquoted
  rw [undouble_double, List.rdropWhile_eq_self_iff]
  intro nonempty blank
  apply ends
  rw [List.getLast?_eq_some_getLast nonempty]
  simpa using blank

theorem unquoted_take (ends : value.getLast? ≠ some ' ') :
    unquoted ((double '\'' value).take n) = value ↔ value.length + value.count '\'' ≤ n := by
  rw [← double_length]
  constructor
  · intro same
    by_contra cut
    have shorter := undouble_take_length (Nat.lt_of_not_le cut)
    have trimmed : (unquoted ((double '\'' value).take n)).length ≤ _ :=
      (List.rdropWhile_prefix _ _).length_le
    rw [same] at trimmed
    omega
  · intro fits
    rw [List.take_of_length_le fits, unquoted_double ends]

end Unquoted

namespace HDU

variable {api : Cfitsio} {this : Obj} {w w' : World} {kw : Keyword String}

theorem setKeywordString_ok (doc : Documented api) (keys : StringKeys api) {u : Unit}
    (plain : '\x00' ∉ kw.value.toList) (run : setKeywordString api this kw w = .ok u w') :
    ∃ h, w' = w.put this h ∧ ReadsText api h kw.keyname (unquoted
      (if kw.value.length > 71 then double '\'' kw.value.toList
      else (double '\'' kw.value.toList).take 68)) := by
  replace run := setAsChdu_bind_ok doc run
  obtain ⟨h, edit, rfl⟩ := Table.editFile_ok run
  refine ⟨h, rfl, ?_⟩
  rw [keys.flen_value] at edit
  split at edit
  · rename_i long
    obtain ⟨_, _, _, edit⟩ := bind_ok.mp edit
    rw [if_pos long]
    exact keys.update_key_longstr plain edit
  · rename_i short
    rw [if_neg short]
    exact keys.update_key_str plain edit

theorem assign_ofList (text : List Char) : assign (String.ofList text) text.length =
    String.ofList text := by
  simp [assign]

theorem getKeywordString_of_reads {h : HduData} {keyname : String} {text : List Char}
    (defaultValue : String) (reads : ReadsText api h keyname text) :
    ∃ comment, getKeywordString api this keyname defaultValue (w.put this h) =
      .ok { keyname, value := String.ofList text, comment } (w.put this h) := by
  obtain ⟨comment, strlen, value⟩ := reads
  refine ⟨comment, ?_⟩
  have here : (w.put this h).Current this := by simp [World.Current, World.put, World.onto]
  have answer : keywordString api keyname defaultValue h =
      .ok { keyname, value := String.ofList text, comment } := by
    unfold keywordString
    rw [strlen]
    simp only [value, assign_ofList]
    rfl
  have inspects : inspectOwn api this (keywordString api keyname defaultValue) (w.put this h) =
      .ok (.ok { keyname, value := String.ofList text, comment }) (w.put this h) := by
    refine bind_ok.mpr ⟨(), _, setAsChdu_of_current here, inspectChdu_ok.mpr ⟨?_, rfl⟩⟩
    rw [World.current_eq here, World.unitOf_put, answer]
  exact bind_ok.mpr ⟨_, _, inspects, ofExcept_ok.mpr ⟨rfl, rfl⟩⟩

/-- A string without NUL and without blanks at its end comes back when it is set
with `fits_update_key_longstr`, or fits a card with its quotes doubled, and at no
other length. -/
theorem setKeywordString_round_trip_iff (doc : Documented api) (keys : StringKeys api) {u : Unit}
    {defaultValue : String} (plain : '\x00' ∉ kw.value.toList)
    (ends : kw.value.toList.getLast? ≠ some ' ') (set : setKeywordString api this kw w = .ok u w') :
    ∃ kw', getKeywordString api this kw.keyname defaultValue w' = .ok kw' w' ∧
      (kw'.value = kw.value ↔
        kw.value.length > 71 ∨ kw.value.length + kw.value.toList.count '\'' ≤ 68) := by
  obtain ⟨h, rfl, reads⟩ := setKeywordString_ok doc keys plain set
  obtain ⟨comment, gets⟩ := getKeywordString_of_reads defaultValue reads
  refine ⟨_, gets, ?_⟩
  have text : ∀ chars : List Char, String.ofList chars = kw.value ↔ chars = kw.value.toList :=
    fun chars => ⟨fun same => by rw [← same, String.toList_ofList],
      fun same => by rw [same, String.ofList_toList]⟩
  rw [text]
  by_cases long : kw.value.length > 71
  · simp only [long, if_true, true_or, iff_true]
    exact unquoted_double ends
  · simp only [long, if_false, false_or]
    rw [unquoted_take ends, String.length_toList]

end HDU

/-! ## The small implementation, with string keywords -/

namespace Reference

def keyApi : Cfitsio :=
  { api with
    updateKeyStr := fun keyname value =>
      setKey keyname (String.ofList ((double '\'' value.toList).take 68))
    updateKeyLongstr := fun keyname value =>
      setKey keyname (String.ofList (double '\'' value.toList))
    getKeyStrlen := fun keyname h =>
      match findKey keyname h with
      | some card => (none, (unquoted card.value.toList).length)
      | none => (some .keyNoExist, 0)
    readStringKey := fun keyname first length h =>
      match findKey keyname h with
      | some card =>
        ⟨none, String.ofList (((unquoted card.value.toList).drop (first - 1)).take length),
          card.comment⟩
      | none => ⟨some .keyNoExist, "", ""⟩ }

theorem documented_key : Documented keyApi := { documented with }

theorem findKey_setKey {keyname value comment : String} {h h' : HduData} {u : Unit}
    (run : setKey keyname value comment h = .ok u h') :
    findKey keyname h' = some ⟨keyname, value, comment⟩ := by
  cases run
  have others : (h.keys.filter (fun card => card.keyname ≠ keyname)).find?
      (fun card => card.keyname = keyname) = none :=
    List.find?_eq_none.mpr (fun card member => by simpa using (List.mem_filter.mp member).2)
  unfold findKey
  rw [List.find?_append, others]
  simp

theorem readsText_setKey {keyname comment : String} {stored : List Char} {h h' : HduData}
    {u : Unit} (run : setKey keyname (String.ofList stored) comment h = .ok u h') :
    ReadsText keyApi h' keyname (unquoted stored) := by
  have found := findKey_setKey run
  refine ⟨comment, ?_, ?_⟩
  · simp only [keyApi, found, String.toList_ofList]
  · simp only [keyApi, found, String.toList_ofList, Nat.sub_self, List.drop_zero, List.take_length]

theorem stringKeys : StringKeys keyApi where
  flen_value := rfl
  update_key_str _ run := readsText_setKey run
  update_key_longstr _ run := readsText_setKey run

end Reference

namespace HDU

def named (value : String) : Keyword String := { keyname := "OBJECT", value }

def header : World := Reference.world (Reference.table [] 0) Reference.primary Reference.primary

theorem setKeywordString_short : ∃ w' kw',
    setKeywordString Reference.keyApi (.table 0) (named "it's") header = .ok () w' ∧
    getKeywordString Reference.keyApi (.table 0) "OBJECT" "" w' = .ok kw' w' ∧
    (kw'.value = "it's" ↔ "it's".length > 71 ∨ "it's".length + "it's".toList.count '\'' ≤ 68) := by
  obtain ⟨w', set⟩ : ∃ w', setKeywordString Reference.keyApi (.table 0) (named "it's") header =
      .ok () w' := ⟨_, ok_of_returned (by decide +kernel)⟩
  have plain : '\x00' ∉ (named "it's").value.toList := by decide
  have ends : (named "it's").value.toList.getLast? ≠ some ' ' := by decide
  obtain ⟨kw', gets, same⟩ :
      ∃ kw', getKeywordString Reference.keyApi (.table 0) "OBJECT" "" w' = .ok kw' w' ∧
        (kw'.value = "it's" ↔
          "it's".length > 71 ∨ "it's".length + "it's".toList.count '\'' ≤ 68) :=
    setKeywordString_round_trip_iff Reference.documented_key Reference.stringKeys plain ends set
  exact ⟨w', kw', set, gets, same⟩

/-- Seventy characters are not long enough for `fits_update_key_longstr`, and too
many for a card. -/
theorem setKeywordString_cut :
    ∃ w' kw', setKeywordString Reference.keyApi (.table 0)
        (named (String.ofList (List.replicate 70 'a'))) header = .ok () w' ∧
      getKeywordString Reference.keyApi (.table 0) "OBJECT" "" w' = .ok kw' w' ∧
      kw'.value = String.ofList (List.replicate 68 'a') ∧
      kw'.value ≠ String.ofList (List.replicate 70 'a') := by
  obtain ⟨w', set⟩ : ∃ w', setKeywordString Reference.keyApi (.table 0)
      (named (String.ofList (List.replicate 70 'a'))) header = .ok () w' :=
    ⟨_, ok_of_returned (by decide +kernel)⟩
  obtain ⟨h, rfl, reads⟩ := setKeywordString_ok Reference.documented_key Reference.stringKeys
    (by decide) set
  have text : unquoted
      (if (named (String.ofList (List.replicate 70 'a'))).value.length > 71 then
        double '\'' (named (String.ofList (List.replicate 70 'a'))).value.toList
      else (double '\'' (named (String.ofList (List.replicate 70 'a'))).value.toList).take 68) =
      List.replicate 68 'a' := by
    decide
  rw [text] at reads
  obtain ⟨comment, gets⟩ := getKeywordString_of_reads "" reads
  have other : String.ofList (List.replicate 68 'a') ≠ String.ofList (List.replicate 70 'a') := by
    decide
  exact ⟨_, _, set, gets, rfl, other⟩

end HDU
end MisFITS
