import Mathlib.Data.List.Nodup

/-! Lists whose entries go by a key, such as columns that go by a name in either
case: the entry that has a key, and what is left when keys are taken out. -/
namespace Keyed

variable {A K : Type} (key : A → K)

def Unique (xs : List A) : Prop := (xs.map key).Nodup

theorem unique_append {key : A → K} {xs ys : List A} : Unique key (xs ++ ys) ↔
    Unique key xs ∧ Unique key ys ∧ ∀ y ∈ ys, ∀ x ∈ xs, key x ≠ key y := by
  unfold Unique
  rw [List.map_append, List.nodup_append]
  refine and_congr_right (fun _ => and_congr_right (fun _ => ?_))
  simp only [List.mem_map, forall_exists_index, and_imp, forall_apply_eq_imp_iff₂]
  exact ⟨fun apart y second x first => apart x first y second,
    fun apart x first y second => apart y second x first⟩

theorem Unique.sublist {key : A → K} {xs ys : List A} (unique : Unique key xs) (sub : ys.Sublist xs) :
    Unique key ys := List.Nodup.sublist (sub.map key) unique

variable [DecidableEq K]

instance {xs : List A} : Decidable (Unique key xs) := inferInstanceAs (Decidable (List.Nodup _))

def without (keys : List K) (xs : List A) : List A := xs.filter (fun x => key x ∉ keys)

def place (xs : List A) (k : K) : Nat := xs.findIdx (fun x => key x = k) + 1

variable {key} {keys more : List K} {xs ys : List A} {x : A} {i : Nat}

@[simp] theorem without_nil : without key [] xs = xs := by simp [without]

@[simp] theorem mem_without : x ∈ without key keys xs ↔ x ∈ xs ∧ key x ∉ keys := by
  simp [without]

theorem without_cons : without key keys (x :: xs) =
    if key x ∈ keys then without key keys xs else x :: without key keys xs := by
  by_cases member : key x ∈ keys <;> simp [without, member]

theorem without_append : without key (keys ++ more) xs = without key more (without key keys xs) := by
  unfold without
  rw [List.filter_filter]
  refine List.filter_congr (fun x _ => ?_)
  simp [Bool.and_comm]

theorem without_of_absent (absent : ∀ x ∈ xs, key x ∉ keys) : without key keys xs = xs := by
  rw [without, List.filter_eq_self]
  intro x member
  simp [absent x member]

theorem Unique.without (unique : Unique key xs) : Unique key (without key keys xs) :=
  unique.sublist List.filter_sublist

theorem Unique.eraseIdx (unique : Unique key xs) (entry : xs[i]? = some x) :
    xs.eraseIdx i = Keyed.without key [key x] xs := by
  induction xs generalizing i with
  | nil => cases entry
  | cons y ys ih =>
    obtain ⟨apart, later⟩ := List.nodup_cons.mp (show (key y :: ys.map key).Nodup from unique)
    cases i with
    | zero =>
      obtain rfl : y = x := by simpa using entry
      have absent : ∀ z ∈ ys, key z ∉ [key y] := by
        intro z member same
        exact apart (List.mem_map.mpr ⟨z, member, List.mem_singleton.mp same⟩)
      rw [without_cons, if_pos (List.mem_singleton_self _), without_of_absent absent]
      rfl
    | succ i =>
      have entry : ys[i]? = some x := by simpa using entry
      have other : key y ∉ [key x] := fun same =>
        apart (List.mem_singleton.mp same ▸ List.mem_map_of_mem (List.mem_of_getElem? entry))
      rw [without_cons, if_neg other, List.eraseIdx_cons_succ, ih later entry]

theorem Unique.place (unique : Unique key xs) (entry : xs[i]? = some x) :
    Keyed.place key xs (key x) = i + 1 := by
  induction xs generalizing i with
  | nil => cases entry
  | cons y ys ih =>
    obtain ⟨apart, later⟩ := List.nodup_cons.mp (show (key y :: ys.map key).Nodup from unique)
    cases i with
    | zero =>
      obtain rfl : y = x := by simpa using entry
      simp [Keyed.place, List.findIdx_cons]
    | succ i =>
      have entry : ys[i]? = some x := by simpa using entry
      have other : key y ≠ key x := fun same =>
        apart (same ▸ List.mem_map_of_mem (List.mem_of_getElem? entry))
      have rest := ih later entry
      unfold Keyed.place at rest ⊢
      simp [List.findIdx_cons, other, rest]

end Keyed
