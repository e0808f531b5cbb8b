import Mathlib.Data.List.Basic

/-! A map kept as the list of its entries in insertion order. Assigning to a key
that is present replaces its value in place, and a new key goes to the end. -/

namespace MxSdk.OrderedMap

variable {κ α : Type*} [DecidableEq κ]

def find (key : κ) : List (κ × α) → Option α
  | [] => none
  | (k, v) :: m => if k = key then some v else find key m

def assign (key : κ) (value : α) : List (κ × α) → List (κ × α)
  | [] => [(key, value)]
  | (k, v) :: m => if k = key then (k, value) :: m else (k, v) :: assign key value m

@[simp] theorem find_assign_self (key : κ) (value : α) (m : List (κ × α)) :
    find key (assign key value m) = some value := by
  induction m with
  | nil => simp [assign, find]
  | cons e m ih =>
    rw [assign]
    split
    · simp [find, *]
    · simp [find, *]

theorem find_assign_of_ne {key other : κ} (h : key ≠ other) (value : α) (m : List (κ × α)) :
    find other (assign key value m) = find other m := by
  induction m with
  | nil => simp [assign, find, h]
  | cons e m ih =>
    rw [assign]
    split
    · rename_i hk
      simp only [find, hk, if_neg h]
    · simp only [find, ih]

theorem find_append (key : κ) (m n : List (κ × α)) :
    find key (m ++ n) = (find key m).or (find key n) := by
  induction m with
  | nil => simp [find]
  | cons e m ih =>
    rw [List.cons_append, find, find]
    split
    · rfl
    · exact ih

theorem mem_of_find {key : κ} {value : α} {m : List (κ × α)} (h : find key m = some value) :
    (key, value) ∈ m := by
  induction m with
  | nil => cases h
  | cons e m ih =>
    rw [find] at h
    split at h
    · rename_i hk
      rw [← hk, ← Option.some.inj h]
      exact List.mem_cons_self
    · exact List.mem_cons_of_mem _ (ih h)

theorem assign_of_not_mem {key : κ} {m : List (κ × α)} (h : key ∉ m.map Prod.fst) (value : α) :
    assign key value m = m ++ [(key, value)] := by
  induction m with
  | nil => rfl
  | cons e m ih =>
    simp only [List.map_cons, List.mem_cons, not_or] at h
    rw [assign, if_neg (Ne.symm h.1), ih h.2, List.cons_append]

theorem mem_assign {key : κ} {value : α} {m : List (κ × α)} {e : κ × α}
    (h : e ∈ assign key value m) : e = (key, value) ∨ e ∈ m := by
  induction m with
  | nil => exact .inl (List.mem_singleton.mp h)
  | cons f m ih =>
    rw [assign] at h
    split at h
    · rename_i hk
      rcases List.mem_cons.mp h with rfl | h
      · exact .inl (by rw [hk])
      · exact .inr (List.mem_cons_of_mem _ h)
    · rcases List.mem_cons.mp h with rfl | h
      · exact .inr List.mem_cons_self
      · exact (ih h).imp id (List.mem_cons_of_mem _)

def assignOption (key : κ) : Option α → List (κ × α) → List (κ × α)
  | some value, m => assign key value m
  | none, m => m

section Family
variable {ι : Type*} (key : ι → κ) (value : ι → Option α)

def members (is : List ι) : List (κ × α) := is.filterMap fun i => (value i).map (Prod.mk (key i))

def assignAll (is : List ι) (m : List (κ × α)) : List (κ × α) :=
  is.foldl (fun m i => assignOption (key i) (value i) m) m

variable {key value}

omit [DecidableEq κ] in
theorem mem_keys_members {is : List ι} {k : κ} (h : k ∈ (members key value is).map Prod.fst) :
    ∃ i ∈ is, key i = k := by
  obtain ⟨e, he, rfl⟩ := List.mem_map.mp h
  obtain ⟨i, hi, he⟩ := List.mem_filterMap.mp he
  obtain ⟨v, -, rfl⟩ := Option.map_eq_some_iff.mp he
  exact ⟨i, hi, rfl⟩

omit [DecidableEq κ] in
theorem members_cons (i : ι) (is : List ι) :
    members key value (i :: is) =
      ((value i).map (Prod.mk (key i))).toList ++ members key value is := by
  rw [members, List.filterMap_cons]
  cases value i <;> rfl

omit [DecidableEq κ] in
theorem nodup_members (hkey : Function.Injective key) {is : List ι} (h : is.Nodup) :
    ((members key value is).map Prod.fst).Nodup := by
  induction is with
  | nil => exact List.nodup_nil
  | cons i is ih =>
    obtain ⟨hi, his⟩ := List.nodup_cons.mp h
    rw [members_cons]
    cases value i with
    | none => exact ih his
    | some v =>
      refine List.nodup_cons.mpr ⟨fun hmem => ?_, ih his⟩
      obtain ⟨j, hj, hji⟩ := mem_keys_members hmem
      exact hi (hkey hji ▸ hj)

theorem find_members [DecidableEq ι] (hkey : Function.Injective key) (is : List ι) (i : ι) :
    find (key i) (members key value is) = if i ∈ is then value i else none := by
  induction is with
  | nil => rfl
  | cons j is ih =>
    rw [members_cons, find_append, ih]
    by_cases hij : j = i
    · subst hij
      cases value j <;> simp [find]
    · have hne : key j ≠ key i := fun h => hij (hkey h)
      cases value j <;> simp [find, hne, Ne.symm hij]

theorem assignAll_eq (hkey : Function.Injective key) {is : List ι} (h : is.Nodup)
    {m : List (κ × α)} (hm : ∀ i ∈ is, key i ∉ m.map Prod.fst) :
    assignAll key value is m = m ++ members key value is := by
  induction is generalizing m with
  | nil => exact (List.append_nil m).symm
  | cons i is ih =>
    obtain ⟨hi, his⟩ := List.nodup_cons.mp h
    have hrest : ∀ j ∈ is, key j ∉ m.map Prod.fst := fun j hj => hm j (List.mem_cons_of_mem i hj)
    rw [assignAll, List.foldl_cons, members_cons]
    cases value i with
    | none => exact ih his hrest
    | some v =>
      rw [assignOption, assign_of_not_mem (hm i List.mem_cons_self)]
      refine (ih his fun j hj hmem => ?_).trans (List.append_assoc _ _ _)
      rw [List.map_append, List.mem_append] at hmem
      rcases hmem with hmem | hmem
      · exact hrest j hj hmem
      · exact hi (hkey (List.mem_singleton.mp hmem) ▸ hj)

theorem assignAll_nil (hkey : Function.Injective key) {is : List ι} (h : is.Nodup) :
    assignAll key value is [] = members key value is :=
  assignAll_eq hkey h fun _ _ => List.not_mem_nil

end Family

end MxSdk.OrderedMap
