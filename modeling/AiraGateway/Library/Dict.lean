import Mathlib.Data.List.Basic

/-!
# Dictionaries that keep their order

A dictionary as the list of its entries, in the order their keys were first set. Setting a key
that is there replaces its value in its place; a new key goes to the end.

* The entry at the end (`dictSet_of_fresh`, `dictSet_last`, `dictGet_last`): a key that is not
  among the others is appended, found and replaced there.
* Reading after writing (`dictGet_dictSet`): the value that was set, and every other key as before.
* Reading after a correction: a key taken out unless its value passes (`dictGet_dictKeepIf`), and
  every value replaced by what its key makes of it (`dictGet_dictMap`).
* No key twice: setting one keeps it so (`nodup_keys_dictSet`), and what is there is what is found
  (`dictGet_eq_some_iff`).
-/

namespace AiraGateway

universe u v

variable {κ : Type u} {β : Type v} [DecidableEq κ]

def dictGet (dict : List (κ × β)) (key : κ) : Option β :=
  (dict.find? (·.1 = key)).map (·.2)

def dictSet (dict : List (κ × β)) (key : κ) (value : β) : List (κ × β) :=
  if dict.any (·.1 = key) then
    dict.map fun entry => if entry.1 = key then (key, value) else entry
  else dict ++ [(key, value)]

/-- The entries of other keys. -/
def dictErase (dict : List (κ × β)) (key : κ) : List (κ × β) := dict.filter (·.1 ≠ key)

/-- Take a key out unless its value passes. -/
def dictKeepIf (dict : List (κ × β)) (key : κ) (ok : β → Bool) : List (κ × β) :=
  if (dictGet dict key).all ok then dict else dictErase dict key

/-- Replace every value by what its key makes of it. -/
def dictMap (dict : List (κ × β)) (f : κ → β → β) : List (κ × β) :=
  dict.map fun entry => (entry.1, f entry.1 entry.2)

/-- What is set is a key that no entry has. -/
def Fresh (dict : List (κ × β)) (key : κ) : Prop := ∀ entry ∈ dict, entry.1 ≠ key

variable {dict : List (κ × β)} {key : κ} {value value' : β}

theorem dictSet_of_fresh (h : Fresh dict key) :
    dictSet dict key value = dict ++ [(key, value)] := by
  have hany : ¬dict.any (·.1 = key) = true := by
    simp only [List.any_eq_true, decide_eq_true_eq, not_exists, not_and]
    exact h
  rw [dictSet, if_neg hany]

private theorem find?_of_fresh (h : Fresh dict key) : dict.find? (·.1 = key) = none := by
  rw [List.find?_eq_none]
  exact fun entry hentry => by simpa using h entry hentry

theorem dictGet_of_fresh (h : Fresh dict key) : dictGet dict key = none := by
  rw [dictGet, find?_of_fresh h, Option.map_none]

theorem dictGet_last (h : Fresh dict key) : dictGet (dict ++ [(key, value)]) key = some value := by
  rw [dictGet, List.find?_append, find?_of_fresh h]
  simp

theorem dictSet_last (h : Fresh dict key) :
    dictSet (dict ++ [(key, value)]) key value' = dict ++ [(key, value')] := by
  have hothers : dict.map (fun entry => if entry.1 = key then (key, value') else entry) = dict := by
    conv_rhs => rw [← List.map_id dict]
    exact List.map_congr_left fun entry hentry => if_neg (h entry hentry)
  simp [dictSet, hothers]

private theorem dictGet_cons (entry : κ × β) (dict : List (κ × β)) (k : κ) :
    dictGet (entry :: dict) k = if entry.1 = k then some entry.2 else dictGet dict k := by
  rw [dictGet, List.find?_cons, dictGet]
  split_ifs with h
  · simp [h]
  · simp [h]

/-- Replacing the value of a key in its place. -/
private theorem dictGet_map_replace (dict : List (κ × β)) (key k : κ) (value : β)
    (h : ¬Fresh dict key) :
    dictGet (dict.map fun entry => if entry.1 = key then (key, value) else entry) k =
      if k = key then some value else dictGet dict k := by
  induction dict with
  | nil => exact absurd (by simp [Fresh]) h
  | cons entry dict ih =>
    rw [List.map_cons, dictGet_cons, dictGet_cons]
    by_cases hentry : entry.1 = key
    · by_cases hk : k = key
      · simp [hentry, hk]
      · -- the entries after this one may or may not hold the key
        have hrest : dictGet (dict.map fun e => if e.1 = key then (key, value) else e) k =
            dictGet dict k := by
          by_cases hfresh : Fresh dict key
          · rw [List.map_congr_left fun e he => if_neg (hfresh e he), List.map_id']
          · rw [ih hfresh, if_neg hk]
        simp [hentry, Ne.symm hk, hrest, hk]
    · have hfresh : ¬Fresh dict key := fun hdict => h fun e he => by
        rcases List.mem_cons.mp he with rfl | he
        · exact hentry
        · exact hdict e he
      rw [if_neg hentry, ih hfresh]
      by_cases hk : k = key
      · simp [hk, hentry]
      · simp [hk]

/-- **Reading after writing**: the value that was set, and every other key as before. -/
theorem dictGet_dictSet (dict : List (κ × β)) (key k : κ) (value : β) :
    dictGet (dictSet dict key value) k = if k = key then some value else dictGet dict k := by
  by_cases hfresh : Fresh dict key
  · rw [dictSet_of_fresh hfresh]
    split_ifs with hk
    · rw [hk, dictGet_last hfresh]
    · rw [dictGet, List.find?_append, dictGet]
      simp [Ne.symm hk]
  · have hany : dict.any (·.1 = key) = true := by
      simp only [Fresh, not_forall, not_not] at hfresh
      obtain ⟨entry, hentry, hkey⟩ := hfresh
      exact List.any_eq_true.mpr ⟨entry, hentry, decide_eq_true hkey⟩
    rw [dictSet, if_pos hany, dictGet_map_replace dict key k value hfresh]

/-! ### Reading after a correction -/

theorem dictGet_mem (h : dictGet dict key = some value) : (key, value) ∈ dict := by
  rw [dictGet, Option.map_eq_some_iff] at h
  obtain ⟨entry, hfound, rfl⟩ := h
  have hkey : entry.1 = key := by simpa using List.find?_some hfound
  rw [← hkey]
  exact List.mem_of_find?_eq_some hfound

theorem dictGet_dictErase (dict : List (κ × β)) (key k : κ) :
    dictGet (dictErase dict key) k = if k = key then none else dictGet dict k := by
  rw [dictGet, dictErase, List.find?_filter]
  split_ifs with hk
  · rw [List.find?_eq_none.mpr fun entry _ => by simp [hk], Option.map_none]
  · rw [dictGet]
    congr 2
    funext entry
    by_cases hentry : entry.1 = k
    · simp [hentry, hk]
    · simp [hentry]

theorem dictGet_dictKeepIf (dict : List (κ × β)) (key k : κ) (ok : β → Bool) :
    dictGet (dictKeepIf dict key ok) k =
      if k = key then (dictGet dict k).filter ok else dictGet dict k := by
  rw [dictKeepIf]
  by_cases hk : k = key
  · rw [if_pos hk, hk]
    cases hget : dictGet dict key with
    | none => simp [hget]
    | some v =>
      by_cases hok : ok v = true
      · simp [hget, hok, Option.filter]
      · simp [dictGet_dictErase, hok, Option.filter]
  · split_ifs
    · rfl
    · rw [dictGet_dictErase, if_neg hk]

theorem dictGet_dictMap (dict : List (κ × β)) (f : κ → β → β) (k : κ) :
    dictGet (dictMap dict f) k = (dictGet dict k).map (f k) := by
  induction dict with
  | nil => rfl
  | cons entry dict ih =>
    rw [dictMap, List.map_cons, dictGet_cons, dictGet_cons]
    split_ifs with hentry
    · rw [hentry, Option.map_some]
    · exact ih

theorem dictGet_map_value {γ : Type v} (dict : List (κ × β)) (f : β → γ) (k : κ) :
    dictGet (dict.map fun entry => (entry.1, f entry.2)) k = (dictGet dict k).map f := by
  induction dict with
  | nil => rfl
  | cons entry dict ih =>
    rw [List.map_cons, dictGet_cons, dictGet_cons]
    split_ifs
    · rw [Option.map_some]
    · exact ih

omit [DecidableEq κ] in
/-- A correction that every entry passes changes nothing. -/
theorem dictMap_eq_self {f : κ → β → β} (h : ∀ entry ∈ dict, f entry.1 entry.2 = entry.2) :
    dictMap dict f = dict := by
  rw [dictMap]
  conv_rhs => rw [← List.map_id dict]
  exact List.map_congr_left fun entry hentry => by rw [h entry hentry, id]

/-- Taking entries out leaves a key whose first entry stays as it was. -/
theorem dictGet_filter {p : κ × β → Bool} (h : ∀ v, dictGet dict key = some v → p (key, v)) :
    dictGet (dict.filter p) key = dictGet dict key := by
  induction dict with
  | nil => rfl
  | cons entry dict ih =>
    rw [dictGet_cons] at h ⊢
    by_cases hentry : entry.1 = key
    · have hp : p entry = true := by
        rw [if_pos hentry] at h
        simpa [← hentry] using h entry.2 rfl
      rw [List.filter_cons_of_pos hp, dictGet_cons, if_pos hentry, if_pos hentry]
    · rw [if_neg hentry] at h ⊢
      by_cases hp : p entry = true
      · rw [List.filter_cons_of_pos hp, dictGet_cons, if_neg hentry]
        exact ih h
      · rw [List.filter_cons_of_neg hp]
        exact ih h

/-! ### No key twice -/

/-- A key that no two entries share is found with its value. -/
theorem dictGet_eq_some_iff (hnodup : (dict.map (·.1)).Nodup) :
    dictGet dict key = some value ↔ (key, value) ∈ dict := by
  refine ⟨dictGet_mem, fun hmem => ?_⟩
  induction dict with
  | nil => exact absurd hmem List.not_mem_nil
  | cons entry dict ih =>
    obtain ⟨hfresh, hrest⟩ := List.nodup_cons.mp hnodup
    rw [dictGet_cons]
    rcases List.mem_cons.mp hmem with rfl | hmem
    · exact if_pos rfl
    · have hkey : entry.1 ≠ key := fun hkey =>
        hfresh (List.mem_map.mpr ⟨_, hmem, hkey.symm⟩)
      rw [if_neg hkey, ih hrest hmem]

theorem nodup_keys_dictSet (hnodup : (dict.map (·.1)).Nodup) :
    ((dictSet dict key value).map (·.1)).Nodup := by
  by_cases hfresh : Fresh dict key
  · rw [dictSet_of_fresh hfresh, List.map_append, List.nodup_append]
    refine ⟨hnodup, List.pairwise_singleton _ key, fun k hk other hother => ?_⟩
    obtain ⟨entry, hentry, rfl⟩ := List.mem_map.mp hk
    rw [List.mem_singleton.mp hother]
    exact hfresh entry hentry
  · have hany : dict.any (·.1 = key) = true := by
      simp only [Fresh, not_forall, not_not] at hfresh
      obtain ⟨entry, hentry, hkey⟩ := hfresh
      exact List.any_eq_true.mpr ⟨entry, hentry, decide_eq_true hkey⟩
    have hkeys : (dictSet dict key value).map (·.1) = dict.map (·.1) := by
      rw [dictSet, if_pos hany, List.map_map]
      refine List.map_congr_left fun entry _ => ?_
      rw [Function.comp_apply]
      split_ifs with hentry
      · exact hentry.symm
      · rfl
    rwa [hkeys]

end AiraGateway
