import Mathlib.Data.Finset.Card
import Mathlib.Data.List.Sort

/-!
# Pages by key

A log is read in pages, newest first: a page holds the rows of the greatest keys, and is continued
from the key of its last row where there are more. Between two pages rows come and go.

* `walk_thorough`: the rows of a walk descend in key, so that none is there twice; what is in the
  log at every page is on one of them, where the walk came to its end; and it does after as many
  pages as the keys fill.
-/

namespace AiraGateway.Keyset

universe u v

variable {α : Type u} {κ : Type v} [LinearOrder κ] (key : α → κ)

/-- A page, and the key it is continued from. -/
structure Page (α : Type u) (κ : Type v) where
  rows : List α
  next : Option κ

/-- Whether a row is left to show: behind the key that a page is continued from. -/
def Behind (before : Option κ) (row : α) : Prop := ∀ k ∈ before, key row < k

instance (before : Option κ) (row : α) : Decidable (Behind key before row) :=
  inferInstanceAs (Decidable (∀ k ∈ before, key row < k))

/-- What is left to show, newest first. -/
def left (before : Option κ) (log : List α) : List α :=
  (log.filter fun row => Behind key before row).insertionSort fun a b => key b ≤ key a

/-- One row more than a page holds tells whether there is another. -/
def page (limit : ℕ) (before : Option κ) (log : List α) : Page α κ :=
  let found := (left key before log).take (limit + 1)
  { rows := found.take limit
    next := if limit < found.length then (found.take limit).getLast?.map key else none }

/-- The pages of a walk, each of the log as it is when the page is asked for. -/
def walk (limit : ℕ) (before : Option κ) : List (List α) → List (Page α κ)
  | [] => []
  | log :: rest =>
    let shown := page key limit before log
    shown :: shown.next.elim [] fun k => walk limit (some k) rest

/-- A walk came to its end: nothing was left on its last page. -/
def Ended (pages : List (Page α κ)) : Prop := ∃ shown ∈ pages.getLast?, shown.next = none

/-- The rows of the pages. -/
def rows (pages : List (Page α κ)) : List α := pages.flatMap (·.rows)

/-! ### One page -/

section Page

variable {key} {limit : ℕ} {before : Option κ} {log : List α}

theorem mem_left {row : α} : row ∈ left key before log ↔ row ∈ log ∧ Behind key before row := by
  rw [left, List.mem_insertionSort, List.mem_filter, decide_eq_true_iff]

theorem left_descending (hkeys : (log.map key).Nodup) :
    (left key before log).Pairwise fun a b => key b < key a := by
  have hsorted : (left key before log).Pairwise fun a b => key b ≤ key a :=
    List.pairwise_insertionSort (fun a b => key b ≤ key a) _
  have hdistinct : (left key before log).Pairwise fun a b => key a ≠ key b := by
    have hperm := (List.perm_insertionSort (fun a b => key b ≤ key a)
      (log.filter fun row => Behind key before row)).map key
    have hnodup := (List.filter_sublist (p := fun row => Behind key before row) (l := log)).map key
    exact List.pairwise_map.mp (hperm.nodup_iff.mpr (hkeys.sublist hnodup))
  exact hsorted.imp₂ (fun _ _ hle hne => lt_of_le_of_ne hle hne.symm) hdistinct

theorem page_rows : (page key limit before log).rows = (left key before log).take limit := by
  simp only [page, List.take_take]
  rw [min_eq_left (Nat.le_succ limit)]

theorem page_next : (page key limit before log).next =
    if limit < (left key before log).length then
      ((left key before log).take limit).getLast?.map key else none := by
  have htake : ((left key before log).take (limit + 1)).take limit =
      (left key before log).take limit := by
    rw [List.take_take, min_eq_left (Nat.le_succ limit)]
  simp only [page, htake, List.length_take]
  split_ifs with h h' h'
  · rfl
  · omega
  · omega
  · rfl

theorem mem_log_of_mem_page {row : α} (h : row ∈ (page key limit before log).rows) :
    row ∈ log ∧ Behind key before row := by
  rw [page_rows] at h
  exact mem_left.mp (List.mem_of_mem_take h)

theorem page_descending (hkeys : (log.map key).Nodup) :
    (page key limit before log).rows.Pairwise fun a b => key b < key a := by
  rw [page_rows]
  exact (left_descending hkeys).sublist (List.take_sublist ..)

/-- What a page is continued from is the least key on it. -/
theorem page_next_spec {k : κ} (hkeys : (log.map key).Nodup)
    (h : k ∈ (page key limit before log).next) :
    limit < (left key before log).length ∧ (∃ row ∈ (page key limit before log).rows, key row = k) ∧
      ∀ row ∈ (page key limit before log).rows, k ≤ key row := by
  rw [page_next] at h
  split_ifs at h with hmore
  · obtain ⟨last, hlast, rfl⟩ := Option.mem_map.mp h
    have hrows := List.dropLast_append_getLast? last hlast
    rw [← page_rows] at hrows
    refine ⟨hmore, ⟨last, ?_, rfl⟩, fun row hrow => ?_⟩
    · rw [← hrows]
      exact List.mem_append_right _ (List.mem_singleton_self _)
    · have hdescending : (page key limit before log).rows.Pairwise fun a b => key b < key a :=
        page_descending hkeys
      rw [← hrows] at hdescending hrow
      obtain hinit | hlast := List.mem_append.mp hrow
      · exact ((List.pairwise_append.mp hdescending).2.2 row hinit last
          (List.mem_singleton_self _)).le
      · rw [List.mem_singleton.mp hlast]
  · cases h

/-- What is left to show is on the page, or behind the key it is continued from. -/
theorem mem_page_or_behind (hlimit : 0 < limit) (hkeys : (log.map key).Nodup) {row : α}
    (hrow : row ∈ log) (hbehind : Behind key before row) :
    row ∈ (page key limit before log).rows ∨
      ∃ k ∈ (page key limit before log).next, key row < k := by
  have hleft : row ∈ left key before log := mem_left.mpr ⟨hrow, hbehind⟩
  rw [← List.take_append_drop limit (left key before log), List.mem_append, ← page_rows] at hleft
  refine hleft.imp_right fun hdropped => ?_
  have hmore : limit < (left key before log).length := by
    by_contra hfew
    rw [List.drop_eq_nil_of_le (not_lt.mp hfew)] at hdropped
    cases hdropped
  have hsome : (left key before log).take limit ≠ [] := by
    rw [ne_eq, List.take_eq_nil_iff, not_or]
    exact ⟨hlimit.ne', List.length_pos_iff.mp (by omega)⟩
  have hdescending : (left key before log).Pairwise fun a b => key b < key a :=
    left_descending hkeys
  rw [← List.take_append_drop limit (left key before log)] at hdescending
  refine ⟨key (((left key before log).take limit).getLast hsome), ?_,
    (List.pairwise_append.mp hdescending).2.2 _ (List.getLast_mem hsome) row hdropped⟩
  rw [page_next, if_pos hmore, List.getLast?_eq_some_getLast hsome]
  rfl

/-- A page that is continued is full. -/
theorem length_page_of_next {k : κ} (hkeys : (log.map key).Nodup)
    (h : k ∈ (page key limit before log).next) :
    (page key limit before log).rows.length = limit := by
  rw [page_rows, List.length_take, min_eq_left (page_next_spec hkeys h).1.le]

end Page

/-! ### A walk -/

omit [LinearOrder κ] in
theorem Ended.cons {shown : Page α κ} {pages : List (Page α κ)} (h : Ended pages) :
    Ended (shown :: pages) := by
  obtain ⟨last, hlast, hnone⟩ := h
  refine ⟨last, ?_, hnone⟩
  rw [List.getLast?_cons, Option.mem_def.mp hlast]
  rfl

omit [LinearOrder κ] in
theorem Ended.of_cons {shown : Page α κ} {pages : List (Page α κ)} {k : κ}
    (h : Ended (shown :: pages)) (hk : k ∈ shown.next) : Ended pages := by
  obtain ⟨last, hlast, hnone⟩ := h
  cases pages with
  | nil =>
    cases hlast
    change shown.next = none at hnone
    rw [Option.mem_def.mp hk] at hnone
    cases hnone
  | cons other others => exact ⟨last, hlast, hnone⟩

section Walk

variable {key} {limit : ℕ} {before : Option κ} {logs : List (List α)}

/-- Every row of a walk is of the log of its page, and behind where the walk began. -/
theorem mem_log_of_mem_walk (hkeys : ∀ log ∈ logs, (log.map key).Nodup) {row : α}
    (h : row ∈ rows (walk key limit before logs)) :
    (∃ log ∈ logs, row ∈ log) ∧ Behind key before row := by
  induction logs generalizing before with
  | nil => cases h
  | cons log rest ih =>
    rw [List.forall_mem_cons] at hkeys
    rw [walk, rows, List.flatMap_cons, List.mem_append] at h
    obtain hhere | hlater := h
    · obtain ⟨hlog, hbehind⟩ := mem_log_of_mem_page hhere
      exact ⟨⟨log, List.mem_cons_self, hlog⟩, hbehind⟩
    · cases hnext : (page key limit before log).next with
      | none =>
        rw [hnext] at hlater
        cases hlater
      | some k =>
        rw [hnext] at hlater
        obtain ⟨⟨other, hother, hin⟩, hbehind⟩ := ih hkeys.2 hlater
        obtain ⟨-, ⟨last, hlast, rfl⟩, -⟩ := page_next_spec hkeys.1 hnext
        refine ⟨⟨other, List.mem_cons_of_mem _ hother, hin⟩, fun k hk => ?_⟩
        exact (hbehind _ rfl).trans ((mem_log_of_mem_page hlast).2 k hk)

/-- **The rows of a walk descend in key.** -/
theorem walk_descending (hkeys : ∀ log ∈ logs, (log.map key).Nodup) :
    (rows (walk key limit before logs)).Pairwise fun a b => key b < key a := by
  induction logs generalizing before with
  | nil => exact .nil
  | cons log rest ih =>
    rw [List.forall_mem_cons] at hkeys
    rw [walk, rows, List.flatMap_cons, List.pairwise_append]
    cases hnext : (page key limit before log).next with
    | none =>
      exact ⟨page_descending hkeys.1, .nil, fun _ _ _ hlater => absurd hlater List.not_mem_nil⟩
    | some k =>
      refine ⟨page_descending hkeys.1, ih hkeys.2, fun row hrow later hlater => ?_⟩
      have hbehind := (mem_log_of_mem_walk hkeys.2 hlater).2 k rfl
      exact hbehind.trans_le ((page_next_spec hkeys.1 hnext).2.2 row hrow)

/-- **Nothing is skipped**: a key that the log has at every page is on one of them. -/
theorem mem_walk_of_ended (hlimit : 0 < limit) (hkeys : ∀ log ∈ logs, (log.map key).Nodup)
    (hended : Ended (walk key limit before logs)) {k : κ}
    (hk : ∀ log ∈ logs, k ∈ log.map key) (hbehind : ∀ start ∈ before, k < start) :
    k ∈ (rows (walk key limit before logs)).map key := by
  induction logs generalizing before with
  | nil =>
    obtain ⟨shown, hshown, -⟩ := hended
    cases hshown
  | cons log rest ih =>
    rw [List.forall_mem_cons] at hkeys hk
    obtain ⟨row, hrow, rfl⟩ := List.mem_map.mp hk.1
    rw [walk, rows, List.flatMap_cons, List.map_append, List.mem_append]
    obtain hhere | ⟨k, hnext, hlt⟩ := mem_page_or_behind hlimit hkeys.1 hrow hbehind
    · exact .inl (List.mem_map_of_mem hhere)
    · refine .inr ?_
      rw [walk, Option.mem_def.mp hnext] at hended
      rw [Option.mem_def.mp hnext]
      refine ih hkeys.2 (hended.of_cons hnext) hk.2 fun start hstart => ?_
      cases hstart
      exact hlt

/-- A walk that did not end has every page full. -/
theorem length_walk_of_not_ended (hkeys : ∀ log ∈ logs, (log.map key).Nodup)
    (hended : ¬Ended (walk key limit before logs)) :
    (rows (walk key limit before logs)).length = logs.length * limit := by
  induction logs generalizing before with
  | nil => exact (Nat.zero_mul limit).symm
  | cons log rest ih =>
    rw [List.forall_mem_cons] at hkeys
    rw [walk] at hended
    rw [walk, rows, List.flatMap_cons, List.length_append, List.length_cons, Nat.succ_mul,
      Nat.add_comm]
    cases hnext : (page key limit before log).next with
    | none =>
      rw [hnext] at hended
      exact absurd ⟨_, rfl, hnext⟩ hended
    | some k =>
      rw [hnext] at hended
      rw [length_page_of_next hkeys.1 hnext]
      exact congrArg (· + limit) (ih hkeys.2 fun hrest => hended hrest.cons)

/-- Something is left behind a walk that did not end. -/
theorem exists_behind_of_not_ended (hlogs : logs ≠ [])
    (hkeys : ∀ log ∈ logs, (log.map key).Nodup) (hended : ¬Ended (walk key limit before logs)) :
    ∃ log ∈ logs, ∃ row ∈ log, Behind key before row ∧
      ∀ shown ∈ rows (walk key limit before logs), key row < key shown := by
  induction logs generalizing before with
  | nil => exact absurd rfl hlogs
  | cons log rest ih =>
    rw [List.forall_mem_cons] at hkeys
    rw [walk] at hended
    simp only [walk, rows, List.flatMap_cons, List.mem_append]
    cases hnext : (page key limit before log).next with
    | none =>
      rw [hnext] at hended
      exact absurd ⟨_, rfl, hnext⟩ hended
    | some k =>
      obtain ⟨hmore, ⟨last, hlast, hk⟩, hleast⟩ := page_next_spec hkeys.1 hnext
      by_cases hrest : rest = []
      · subst hrest
        have hdescending : (left key before log).Pairwise fun a b => key b < key a :=
          left_descending hkeys.1
        rw [← List.take_append_drop limit (left key before log)] at hdescending
        obtain ⟨row, hdropped⟩ := List.exists_mem_of_ne_nil _ (List.ne_nil_of_length_pos (l :=
          (left key before log).drop limit) (by rw [List.length_drop]; omega))
        obtain ⟨hrow, hbehind⟩ := mem_left.mp (List.mem_of_mem_drop hdropped)
        refine ⟨log, List.mem_cons_self, row, hrow, hbehind, ?_⟩
        rintro shown (hshown | hshown)
        · rw [page_rows] at hshown
          exact (List.pairwise_append.mp hdescending).2.2 shown hshown row hdropped
        · cases hshown
      · rw [hnext] at hended
        obtain ⟨other, hother, row, hrow, hbehind, hless⟩ :=
          ih hrest hkeys.2 fun hlater => hended hlater.cons
        have hlt : key row < k := hbehind k rfl
        refine ⟨other, List.mem_cons_of_mem _ hother, row, hrow, fun start hstart => ?_, ?_⟩
        · rw [← hk] at hlt
          exact hlt.trans ((mem_log_of_mem_page hlast).2 start hstart)
        · rintro shown (hshown | hshown)
          · exact hlt.trans_le (hleast shown hshown)
          · exact hless shown hshown

/-- **A walk ends** once its pages have room for every key there ever was. -/
theorem walk_ends {keys : Finset κ} (hlogs : logs ≠ []) (hkeys : ∀ log ∈ logs, (log.map key).Nodup)
    (hall : ∀ log ∈ logs, ∀ row ∈ log, key row ∈ keys)
    (hcard : keys.card ≤ logs.length * limit) : Ended (walk key limit before logs) := by
  by_contra hended
  obtain ⟨log, hlog, row, hrow, -, hless⟩ := exists_behind_of_not_ended hlogs hkeys hended
  have hdistinct : (key row :: (rows (walk key limit before logs)).map key).Nodup := by
    rw [List.nodup_cons]
    refine ⟨fun hmem => ?_, ?_⟩
    · obtain ⟨shown, hshown, heq⟩ := List.mem_map.mp hmem
      exact (hless shown hshown).ne' heq
    · exact List.pairwise_map.mpr ((walk_descending hkeys).imp fun hlt => hlt.ne')
  have hsub : (key row :: (rows (walk key limit before logs)).map key).toFinset ⊆ keys := by
    intro k hk
    rw [List.mem_toFinset, List.mem_cons, List.mem_map] at hk
    obtain rfl | ⟨shown, hshown, rfl⟩ := hk
    · exact hall log hlog row hrow
    · obtain ⟨⟨other, hother, hin⟩, -⟩ := mem_log_of_mem_walk hkeys hshown
      exact hall other hother shown hin
  have hle := Finset.card_le_card hsub
  rw [List.toFinset_card_of_nodup hdistinct, List.length_cons, List.length_map,
    length_walk_of_not_ended hkeys hended] at hle
  omega

variable (key limit logs) in
/-- What reading a log by pages comes to. -/
structure Thorough (pages : List (Page α κ)) : Prop where
  descending : (rows pages).Pairwise fun a b => key b < key a
  sound : ∀ row ∈ rows pages, ∃ log ∈ logs, row ∈ log
  complete : Ended pages → ∀ k, (∀ log ∈ logs, k ∈ log.map key) → k ∈ (rows pages).map key
  ends : ∀ keys : Finset κ, logs ≠ [] → (∀ log ∈ logs, ∀ row ∈ log, key row ∈ keys) →
    keys.card ≤ logs.length * limit → Ended pages

/-- **A walk is thorough**, whatever becomes of the log meanwhile. -/
theorem walk_thorough (hlimit : 0 < limit) (hkeys : ∀ log ∈ logs, (log.map key).Nodup) :
    Thorough key limit logs (walk key limit none logs) where
  descending := walk_descending hkeys
  sound := fun _ hrow => (mem_log_of_mem_walk hkeys hrow).1
  complete := fun hended _ hk => mem_walk_of_ended hlimit hkeys hended hk (by simp)
  ends := fun _ hlogs hall hcard => walk_ends hlogs hkeys hall hcard

end Walk

end AiraGateway.Keyset
