import Mathlib.Data.List.Basic

/-!
# The first that answers

Candidates are tried in order until one answers; each of those before it was passed over for a
reason. `firstAnswer` gives the candidates passed over with their reasons, and the answer with
its position, if there is one. What a candidate does may depend on its position, so a candidate
named twice may do two things.

* `firstAnswer_of_some`, `firstAnswer_of_none`: the candidates passed over are exactly the ones
  before the answer, or all of them.
* `firstAnswer_eq_some`: it is the first that answers.
* `firstAnswer_map`: what is made of the answers does not change who is passed over.
-/

namespace AiraGateway

universe u v w x

variable {α : Type u} {ρ : Type v} {τ : Type w} {τ' : Type x}

def firstAnswer (fate : ℕ → α → Except ρ τ) : ℕ → List α → List (α × ρ) × Option (ℕ × α × τ)
  | _, [] => ([], none)
  | i, a :: rest =>
    match fate i a with
    | .ok value => ([], some (i, a, value))
    | .error why =>
      let tried := firstAnswer fate (i + 1) rest
      ((a, why) :: tried.1, tried.2)

variable {fate : ℕ → α → Except ρ τ} {i : ℕ} {a : α} {candidates : List α}

theorem firstAnswer_cons_ok {value : τ} (h : fate i a = .ok value) :
    firstAnswer fate i (a :: candidates) = ([], some (i, a, value)) := by
  rw [firstAnswer, h]

theorem firstAnswer_cons_error {why : ρ} (h : fate i a = .error why) :
    firstAnswer fate i (a :: candidates) =
      ((a, why) :: (firstAnswer fate (i + 1) candidates).1,
        (firstAnswer fate (i + 1) candidates).2) := by
  rw [firstAnswer, h]

/-- **Who is passed over before an answer**: exactly the candidates before the one that
answered. -/
theorem firstAnswer_of_some {k : ℕ} {value : τ}
    (h : (firstAnswer fate i candidates).2 = some (k, a, value)) :
    ∃ n, k = i + n ∧ candidates[n]? = some a ∧ fate k a = .ok value ∧
      (firstAnswer fate i candidates).1.map (·.1) = candidates.take n ∧
      ∀ j < n, ∃ b why, candidates[j]? = some b ∧ fate (i + j) b = .error why := by
  induction candidates generalizing i with
  | nil => cases h
  | cons b rest ih =>
    cases hfate : fate i b with
    | ok value' =>
      rw [firstAnswer_cons_ok hfate] at h ⊢
      obtain ⟨rfl, rfl, rfl⟩ : i = k ∧ b = a ∧ value' = value := by simpa using h
      exact ⟨0, rfl, rfl, hfate, rfl, fun j hj => absurd hj (Nat.not_lt_zero j)⟩
    | error why =>
      rw [firstAnswer_cons_error hfate] at h ⊢
      obtain ⟨n, hk, hget, hok, hpassed, hbefore⟩ := ih h
      refine ⟨n + 1, by omega, by simpa using hget, hok, by simpa using hpassed, ?_⟩
      intro j hj
      cases j with
      | zero => exact ⟨b, why, rfl, hfate⟩
      | succ j =>
        obtain ⟨c, why', hc, herror⟩ := hbefore j (by omega)
        refine ⟨c, why', by simpa using hc, ?_⟩
        rw [← herror]
        congr 1
        omega

/-- **The answer is the first**: a candidate that answers after others that do not. -/
theorem firstAnswer_eq_some {n : ℕ} {value : τ} (hget : candidates[n]? = some a)
    (hok : fate (i + n) a = .ok value)
    (hbefore : ∀ j < n, ∃ b why, candidates[j]? = some b ∧ fate (i + j) b = .error why) :
    (firstAnswer fate i candidates).2 = some (i + n, a, value) := by
  induction candidates generalizing i n with
  | nil => cases hget
  | cons b rest ih =>
    cases n with
    | zero =>
      obtain rfl : b = a := Option.some.inj hget
      have hfate : fate i b = .ok value := hok
      rw [firstAnswer_cons_ok hfate]
      rfl
    | succ n =>
      obtain ⟨b', why, hb, herror⟩ := hbefore 0 (Nat.succ_pos n)
      obtain rfl : b = b' := Option.some.inj hb
      have hfate : fate i b = .error why := herror
      rw [firstAnswer_cons_error hfate]
      have hshift : ∀ j, i + 1 + j = i + (j + 1) := fun j => by omega
      rw [← hshift n]
      refine ih (by simpa using hget) (by rw [hshift]; exact hok) fun j hj => ?_
      obtain ⟨c, why', hc, herror'⟩ := hbefore (j + 1) (by omega)
      exact ⟨c, why', by simpa using hc, by rw [hshift]; exact herror'⟩

/-- **Who is passed over when none answers**: every candidate. -/
theorem firstAnswer_of_none (h : (firstAnswer fate i candidates).2 = none) :
    (firstAnswer fate i candidates).1.map (·.1) = candidates := by
  induction candidates generalizing i with
  | nil => rfl
  | cons b rest ih =>
    cases hfate : fate i b with
    | ok value =>
      rw [firstAnswer_cons_ok hfate] at h
      cases h
    | error why =>
      rw [firstAnswer_cons_error hfate] at h ⊢
      rw [List.map_cons, ih h]

/-- What a candidate was passed over for is what it did. -/
theorem mem_firstAnswer {why : ρ} (h : (a, why) ∈ (firstAnswer fate i candidates).1) :
    ∃ j, candidates[j]? = some a ∧ fate (i + j) a = .error why := by
  induction candidates generalizing i with
  | nil => cases h
  | cons b rest ih =>
    cases hfate : fate i b with
    | ok value =>
      rw [firstAnswer_cons_ok hfate] at h
      cases h
    | error why' =>
      rw [firstAnswer_cons_error hfate] at h
      rcases List.mem_cons.mp h with heq | hrest
      · obtain ⟨rfl, rfl⟩ := Prod.ext_iff.mp heq
        exact ⟨0, rfl, hfate⟩
      · obtain ⟨j, hj, herror⟩ := ih hrest
        refine ⟨j + 1, by simpa using hj, ?_⟩
        rw [← herror]
        congr 1
        omega

/-- Where none answers, every candidate is there with its reason. -/
theorem mem_firstAnswer_of_none (h : (firstAnswer fate i candidates).2 = none) {j : ℕ}
    (hj : candidates[j]? = some a) {why : ρ} (hwhy : fate (i + j) a = .error why) :
    (a, why) ∈ (firstAnswer fate i candidates).1 := by
  induction candidates generalizing i j with
  | nil => cases hj
  | cons b rest ih =>
    cases hfate : fate i b with
    | ok value =>
      rw [firstAnswer_cons_ok hfate] at h
      cases h
    | error why' =>
      rw [firstAnswer_cons_error hfate] at h ⊢
      cases j with
      | zero =>
        obtain rfl : b = a := Option.some.inj hj
        obtain rfl : why' = why := Except.error.inj (hfate.symm.trans hwhy)
        exact List.mem_cons_self
      | succ j =>
        refine List.mem_cons_of_mem _ (ih h (by simpa using hj) ?_)
        rw [← hwhy]
        congr 1
        omega

/-- **Changing what is answered** changes nothing else. -/
theorem firstAnswer_map (fate : ℕ → α → Except ρ τ) (f : τ → τ') (i : ℕ) (candidates : List α) :
    firstAnswer (fun k a => (fate k a).map f) i candidates =
      ((firstAnswer fate i candidates).1,
        (firstAnswer fate i candidates).2.map fun found => (found.1, found.2.1, f found.2.2)) := by
  induction candidates generalizing i with
  | nil => rfl
  | cons b rest ih =>
    cases hfate : fate i b with
    | ok value =>
      have hcons : firstAnswer (fun k a => (fate k a).map f) i (b :: rest) =
          ([], some (i, b, f value)) := firstAnswer_cons_ok (by rw [hfate]; rfl)
      rw [hcons, firstAnswer_cons_ok hfate]
      rfl
    | error why =>
      have hcons : firstAnswer (fun k a => (fate k a).map f) i (b :: rest) =
          ((b, why) :: (firstAnswer (fun k a => (fate k a).map f) (i + 1) rest).1,
            (firstAnswer (fun k a => (fate k a).map f) (i + 1) rest).2) :=
        firstAnswer_cons_error (by rw [hfate]; rfl)
      rw [hcons, firstAnswer_cons_error hfate, ih]

end AiraGateway
