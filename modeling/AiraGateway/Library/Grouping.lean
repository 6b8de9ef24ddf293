import AiraGateway.Library.Dict
import Mathlib.Algebra.BigOperators.Group.List.Basic
import Mathlib.Data.List.Induction
import Mathlib.Data.List.Nodup

/-!
# Grouping values by a key

The groups of distinct keys hold the values of those keys between them, once each, and what is added
up over the groups is what is added up over the values. A dictionary that is updated value by value
has, of a key, what the values of that key make of it; one that is set value by value has the last.
-/

namespace AiraGateway.Grouping

universe u v w

variable {α : Type u} {κ : Type v} [DecidableEq κ]

theorem nodup_eraseDups (keys : List κ) : keys.eraseDups.Nodup := by
  induction hlength : keys.length using Nat.strongRecOn generalizing keys with
  | _ n ih =>
    cases keys with
    | nil => exact List.nodup_nil
    | cons key keys =>
      have hless : (keys.filter fun k => !k == key).length < n := by
        have hfilter := List.length_filter_le (fun k => !k == key) keys
        rw [List.length_cons] at hlength
        omega
      rw [List.eraseDups_cons, List.nodup_cons, List.mem_eraseDups, List.mem_filter]
      refine ⟨fun hmem => ?_, ih _ hless _ rfl⟩
      obtain ⟨-, hne⟩ := hmem
      simp at hne

/-- **The groups of distinct keys** hold the values of those keys, once each. -/
theorem flatMap_filter_perm (f : α → κ) (values : List α) {keys : List κ} (hnodup : keys.Nodup) :
    (keys.flatMap fun key => values.filter (f · = key)).Perm (values.filter (f · ∈ keys)) := by
  induction keys with
  | nil => simp
  | cons key keys ih =>
    obtain ⟨hnew, hrest⟩ := List.nodup_cons.mp hnodup
    -- the values of the first key, and then those of the others
    have hfirst : values.filter (f · = key)
        = (values.filter (f · ∈ key :: keys)).filter (f · = key) := by
      rw [List.filter_filter]
      refine List.filter_congr fun a _ => ?_
      by_cases heq : f a = key
      · simp [heq]
      · simp [heq]
    have hothers : values.filter (f · ∈ keys)
        = (values.filter (f · ∈ key :: keys)).filter fun a => !decide (f a = key) := by
      rw [List.filter_filter]
      refine List.filter_congr fun a _ => ?_
      by_cases heq : f a = key
      · simp [heq, hnew]
      · simp [heq]
    rw [List.flatMap_cons]
    refine (List.Perm.append_left _ (ih hrest)).trans ?_
    rw [hfirst, hothers]
    exact List.filter_append_perm _ _

section Sums

variable {M : Type w} [AddCommMonoid M]

omit [DecidableEq κ] in
theorem sum_flatMap (g : α → M) (part : κ → List α) (keys : List κ) :
    ((keys.flatMap part).map g).sum = (keys.map fun key => ((part key).map g).sum).sum := by
  induction keys with
  | nil => rfl
  | cons key keys ih =>
    rw [List.flatMap_cons, List.map_append, List.sum_append, ih, List.map_cons, List.sum_cons]

/-- **What is added up over the groups** of the keys in question is what is added up over the values
of such keys. -/
theorem sum_groups (f : α → κ) (g : α → M) {values : List α} {keys : List κ}
    (hnodup : keys.Nodup) (hall : ∀ a ∈ values, f a ∈ keys) (q : κ → Bool) :
    ((keys.filter q).map fun key => ((values.filter (f · = key)).map g).sum).sum
      = ((values.filter fun a => q (f a)).map g).sum := by
  rw [← sum_flatMap]
  have hperm := flatMap_filter_perm f values (hnodup.filter q)
  have hsame : values.filter (f · ∈ keys.filter q) = values.filter fun a => q (f a) := by
    refine List.filter_congr fun a ha => ?_
    simp only [List.mem_filter, hall a ha, true_and, Bool.decide_eq_true]
  rw [← hsame]
  exact (hperm.map g).sum_eq

end Sums

section Folding

variable {β : Type w} (place : α → κ) (update : Option β → α → β)

/-- A dictionary updated value by value, each at its place. -/
def fold (dict : List (κ × β)) (values : List α) : List (κ × β) :=
  values.foldl (fun dict a => dictSet dict (place a) (update (dictGet dict (place a)) a)) dict

/-- **What a fold has of a key** is what the values of that key make of what was there. -/
theorem dictGet_fold (dict : List (κ × β)) (values : List α) (key : κ) :
    dictGet (fold place update dict values) key
      = (values.filter (place · = key)).foldl (fun entry a => some (update entry a))
          (dictGet dict key) := by
  induction values generalizing dict with
  | nil => rfl
  | cons a values ih =>
    rw [fold, List.foldl_cons]
    refine (ih _).trans ?_
    rw [dictGet_dictSet]
    by_cases hkey : place a = key
    · rw [if_pos hkey.symm, List.filter_cons_of_pos (by simp [hkey]), List.foldl_cons, hkey]
    · rw [if_neg (Ne.symm hkey), List.filter_cons_of_neg (by simp [hkey])]

theorem nodup_keys_fold {dict : List (κ × β)} (hnodup : (dict.map (·.1)).Nodup)
    (values : List α) : ((fold place update dict values).map (·.1)).Nodup := by
  induction values generalizing dict with
  | nil => exact hnodup
  | cons a values ih => exact ih (nodup_keys_dictSet hnodup)

end Folding

section Last

variable {M : Type w} [AddCommMonoid M]

/-- A dictionary of values by their keys: of each key the last. -/
abbrev lastOf (place : α → κ) (values : List α) : List (κ × α) :=
  fold place (fun _ a => a) [] values

theorem dictGet_lastOf (place : α → κ) (values : List α) (key : κ) :
    dictGet (lastOf place values) key = (values.filter (place · = key)).getLast? := by
  have hlast : ∀ (entry : Option α) (list : List α),
      list.foldl (fun _ a => some a) entry = list.getLast?.or entry := by
    intro entry list
    induction list using List.reverseRecOn with
    | nil => rfl
    | append_singleton list a _ => simp
  rw [dictGet_fold, hlast]
  simp [dictGet]

/-- **What the last values add up to** and what those before them do is what all values do. -/
theorem sum_lastOf (place : α → κ) (g : α → M) (values : List α) :
    ((lastOf place values).map fun entry => g entry.2).sum +
        ((lastOf place values).map fun entry =>
          ((values.filter (place · = entry.1)).dropLast.map g).sum).sum =
      (values.map g).sum := by
  have hnodup : ((lastOf place values).map (·.1)).Nodup := 
    nodup_keys_fold place (fun _ a => a) (by simp) values
  have hall : ∀ a ∈ values, place a ∈ (lastOf place values).map (·.1) := by
    intro a ha
    have hmem : a ∈ values.filter (place · = place a) := by
      rw [List.mem_filter]
      exact ⟨ha, decide_eq_true rfl⟩
    have hlast := List.getLast?_eq_some_getLast (List.ne_nil_of_mem hmem)
    rw [← dictGet_lastOf] at hlast
    exact List.mem_map.mpr ⟨_, dictGet_mem hlast, rfl⟩
  have hgroups := sum_groups place g hnodup hall fun _ => true
  simp only [List.filter_true, List.map_map] at hgroups
  rw [← hgroups, ← List.sum_map_add]
  refine congrArg List.sum (List.map_congr_left fun entry hentry => ?_)
  have hlast := (dictGet_eq_some_iff hnodup).mpr hentry
  rw [dictGet_lastOf] at hlast
  have hsplit := List.dropLast_append_getLast? _ hlast
  rw [Function.comp_apply, ← hsplit]
  simp [add_comm]

/-- Where only one key has several values that add up to something, those before the last of it are
all that is left out. -/
theorem sum_lastOf_of_single (place : α → κ) (g : α → M) (values : List α) (key : κ)
    (hothers : ∀ other ≠ key, ((values.filter (place · = other)).dropLast.map g).sum = 0) :
    ((lastOf place values).map fun entry => g entry.2).sum +
        ((values.filter (place · = key)).dropLast.map g).sum = (values.map g).sum := by
  rw [← sum_lastOf place g values]
  refine congrArg _ ?_
  have hkeys := List.sum_map_eq_nsmul_single key
    (fun other => ((values.filter (place · = other)).dropLast.map g).sum)
    (l := (lastOf place values).map (·.1)) fun other hother _ => hothers other hother
  rw [List.map_map] at hkeys
  refine Eq.symm (hkeys.trans ?_)
  by_cases hmem : key ∈ (lastOf place values).map (·.1)
  · have hnodup : ((lastOf place values).map (·.1)).Nodup :=
      nodup_keys_fold place (fun _ a => a) (by simp) values
    rw [List.count_eq_one_of_mem hnodup hmem, one_nsmul]
  · -- the key has no value
    have hfilter : values.filter (place · = key) = [] := by
      rw [← List.getLast?_eq_none_iff, ← dictGet_lastOf]
      exact dictGet_of_fresh fun entry hentry hkey =>
        hmem (List.mem_map.mpr ⟨entry, hentry, hkey⟩)
    rw [List.count_eq_zero_of_not_mem hmem, zero_nsmul, hfilter]
    rfl

end Last

end AiraGateway.Grouping
