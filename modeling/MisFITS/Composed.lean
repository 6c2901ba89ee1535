import MisFITS.CopyColumns

/-! What the methods of a table are put together from. A property of programs that
the basic calls have, and that sequences and choices keep, holds of the methods. -/
namespace MisFITS
open Program

/-- Not one of the assertions by which the loop over the names rejects a request:
what the calls below `copy_columns` throw. -/
def Exception.Below (e : Exception) : Prop :=
  ∀ what, e = .assert what → what ∈ ["Expected CHDU to be a table, but it's not",
    "only Binary Tables are supported", "unknown type id"]

structure Composed (api : Cfitsio) (P : ∀ {α : Type}, M α → Prop) : Prop where
  pure : ∀ {α : Type} (a : α), P (pure a : M α)
  bind : ∀ {α β : Type} {x : M α} {g : α → M β}, P x → (∀ a, P (g a)) → P (x >>= g)
  ite : ∀ {α : Type} {p : Prop} [Decidable p] {x y : M α}, P x → P y → P (if p then x else y)
  check : ∀ {α β : Type} {p : Prop} [Decidable p] {e : Exception} {g : α → M β} {m : M β},
    e.Below → P m → P (if p then throw e >>= g else m)
  /-- which call it is may depend on the world -/
  look : ∀ {α : Type} (call : World → M α), (∀ w, P (call w)) → P (fun w => call w w)
  setAsChdu : ∀ o, P (HDU.setAsChdu api o)
  read : ∀ {α : Type} f (r : Read α), P (readChdu f r)
  inspect : ∀ {α : Type} f (r : HduData → α), P (inspectChdu f r)
  ofExcept : ∀ {α : Type} {r : Except Exception α}, (∀ e, r = .error e → e.Below) →
    P (ofExcept r : M α)
  /-- and what is thrown on what was inspected -/
  judge : ∀ {α β : Type} {o : Obj} {r : HduData → β} {g : β → Except Exception α},
    (∀ h e, g (r h) = .error e → e.Below) →
    P (do
      let b ← HDU.inspectOwn api o r
      MisFITS.ofExcept (g b))
  setExtname : ∀ o extname, P (HDU.setExtname o extname)
  setExtver : ∀ o extver, P (HDU.setExtver o extver)
  setColumns : ∀ t (g : World → List ColumnInfo),
    P (modify (fun w => w.setColumns t (g w)) : M Unit)

section Below

variable {api : Cfitsio}

theorem returnKeyword_below {T : Type} {keyname : String} {read : KeyRead T} {value : T}
    {e : Exception} (failed : HDU.returnKeyword keyname read value = .error e) : e.Below := by
  unfold HDU.returnKeyword at failed
  split at failed
  · cases failed
  · split at failed
    · cases failed
    · cases failed
      exact fun _ same => nomatch same

theorem keywordString_below {keyname value : String} {h : HduData} {e : Exception}
    (failed : HDU.keywordString api keyname value h = .error e) : e.Below := by
  unfold HDU.keywordString at failed
  split at failed <;> exact returnKeyword_below failed

theorem specFromId_below {i : ColumnType.ID} {e : Exception}
    (failed : ColumnType.specFromId i = .error e) : e.Below := by
  intro what same
  unfold ColumnType.specFromId at failed
  split at failed <;> cases failed
  all_goals
    cases same
    decide

theorem divide_below {a b : Int} {e : Exception} (failed : divide a b = .error e) : e.Below := by
  intro what same
  unfold divide at failed
  split at failed <;> cases failed
  cases same

theorem atNumber_below {α : Type} {xs : List α} {k : Nat} {e : Exception}
    (failed : atNumber xs k = .error e) : e.Below := by
  intro what same
  unfold atNumber at failed
  split at failed
  · cases failed
    cases same
  · split at failed <;> cases failed
    cases same

end Below

namespace Composed
open HDU Table

variable {api : Cfitsio} {P : ∀ {α : Type}, M α → Prop} (made : Composed api P) {o : Obj}
  {order : ArgOrder} {src dest t f how : Nat}

include made

theorem onFile {α : Type} {call : Nat → M α} (calls : ∀ f, P (call f)) : P (onFile o call) :=
  made.look (fun w => call (w.base o).file) (fun w => calls (w.base o).file)

theorem readOwn {α : Type} (r : Read α) : P (readOwn api o r) :=
  made.bind (made.setAsChdu o) (fun _ => made.onFile (fun f => made.read f r))

theorem refreshName : P (HDU.refresh api o) := by
  refine made.bind (made.setAsChdu o) (fun _ => ?_)
  refine made.bind (made.judge (fun _ _ => keywordString_below)) (fun _ => ?_)
  refine made.bind (made.setExtname o _) (fun _ => ?_)
  refine made.bind (made.judge (fun _ _ => returnKeyword_below)) (fun _ => ?_)
  exact made.setExtver o _

theorem init (colnum : Nat) (offset : Int) : P (ColumnInfo.init api f colnum offset) := by
  have binary : Exception.Below (.assert "only Binary Tables are supported") := by
    intro what same
    cases same
    decide
  unfold ColumnInfo.init
  refine made.bind (made.inspect f _) (fun type => made.check binary ?_)
  refine made.bind (made.read f _) (fun names => ?_)
  refine made.bind (made.read f _) (fun form => ?_)
  refine made.bind (made.ofExcept (fun _ => specFromId_below)) (fun columnType => ?_)
  refine made.bind (made.read f _) (fun ⟨naxis, _⟩ => made.ite ?_ ?_)
  · refine made.bind (made.ofExcept (fun _ => divide_below)) (fun _ => ?_)
    exact made.bind (made.pure _) (fun _ => made.pure _)
  · refine made.bind (made.read f _) (fun _ => ?_)
    exact made.bind (made.pure _) (fun _ => made.pure _)

theorem pushColumns (todo colnum : Nat) (offset : Int) :
    P (pushColumns api t todo colnum offset) := by
  induction todo generalizing colnum offset with
  | zero => exact made.pure ()
  | succ todo ih =>
    refine made.bind (made.onFile (fun f => made.init _ _)) (fun _ => ?_)
    exact made.bind (made.setColumns t _) (fun _ => ih _ _)

theorem refresh : P (Table.refresh api t) := by
  have table : Exception.Below (.assert "Expected CHDU to be a table, but it's not") := by
    intro what same
    cases same
    decide
  refine made.bind (made.setAsChdu _) (fun _ => ?_)
  refine made.bind (made.onFile (fun f => made.inspect f _)) (fun _ => made.check table ?_)
  refine made.bind made.refreshName (fun _ => made.bind (made.readOwn _) (fun _ => ?_))
  exact made.bind (made.setColumns t _) (fun _ => made.pushColumns _ _ _)

theorem colinfoByName (name : String) : P (colinfoByName api t name) := by
  refine made.bind (made.readOwn _) (fun colnum => ?_)
  refine made.look (fun w => MisFITS.ofExcept (atNumber (w.tables t).columns colnum)) (fun w => ?_)
  exact made.ofExcept (fun _ => atNumber_below)

/-! The methods that edit, where the call that edits has the property too. -/

theorem deleteColumnByName (name : String)
    (deleteCol : ∀ f k, P (editChdu f (api.deleteCol k))) : P (deleteColumnByName api t name) := by
  refine made.bind (made.setAsChdu _) (fun _ => made.bind (made.colinfoByName name) (fun ci => ?_))
  exact made.onFile (fun f => deleteCol f ci.colnum)

theorem createColumns (columns : List (String × String))
    (insertCols : ∀ f k, P (editChdu f (api.insertCols k columns))) :
    P (createColumns api dest columns) := by
  refine made.ite (made.bind (made.readOwn _) (fun ncols => ?_)) (made.pure ())
  exact made.onFile (fun f => insertCols f (ncols + 1))

theorem copyOne (u : Unit) (ci : ColumnInfo)
    (copyCol : ∀ f h a b, P (editChdu f (api.copyCol h a b))) : P (copyOne api src dest u ci) := by
  refine made.bind (made.colinfoByName _) (fun target => ?_)
  exact made.look (fun w => editChdu (w.base (.table dest)).file
    (api.copyCol (w.current (w.base (.table src)).file) ci.colnum target.colnum))
    (fun w => copyCol _ _ _ _)

theorem extendRows (insertRows : ∀ f first n, P (editChdu f (api.insertRows first n))) :
    P (extendRows api order src dest how) := by
  have rows : ∀ t, P (numRows api t) := fun _ => made.readOwn _
  have wants : P (wantsRows api src dest how) := by
    refine made.bind (rows _) (fun _ => made.bind (rows _) (fun _ => ?_))
    refine made.ite (made.ite (made.pure _) (made.ite ?_ (made.pure _))) (made.pure _)
    exact made.bind (rows _) (fun _ => made.pure _)
  have missing : P (missingRows api order src dest) := by
    cases order <;> exact made.bind (rows _) (fun _ => made.bind (rows _) (fun _ => made.pure _))
  refine made.bind wants (fun _ => made.ite ?_ (made.pure ()))
  refine made.bind (rows _) (fun first => made.bind missing (fun count => ?_))
  exact made.onFile (fun f => insertRows f first count)

end Composed
end MisFITS
