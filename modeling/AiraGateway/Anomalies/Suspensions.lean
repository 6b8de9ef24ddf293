import AiraGateway.Library.Runs
import AiraGateway.Library.Text
import Mathlib.Data.List.MinMax

/-!
# Suspensions and their cache

A request is checked against a list of suspensions an instance keeps for `cacheTtl`. `invalidate`
drops the list, and the next check reads the table: the clock is read first, then the database
answers, then the list is put in the cache, and last it is marked as loaded. Between any two of
these steps other checks, commits and invalidations run.

* `check_binds`: in every run in which no reload keeps a list older than the last invalidation or
  than the one in the cache, and none is slow, a check refuses or throttles according to every
  suspension committed before the `invalidate` it came after, and uses no list older than
  `cacheTtl`.
* `stale_reload_kept`: a reload that read the table before the commit and stores after the
  `invalidate` leaves a blocked caller served.
-/

namespace AiraGateway

/-! ### What a suspension does to a caller -/

inductive RuleTarget
  | subject
  | credential
  | useCase
  deriving DecidableEq

namespace RuleTarget

def value : RuleTarget → Text
  | subject => "subject"
  | credential => "credential"
  | useCase => "use_case"

/-- The target as a refusal names it. -/
def spoken (target : RuleTarget) : Text := target.value.map fun c => if c = '_' then ' ' else c

end RuleTarget

inductive RuleAction
  | alert
  | throttle
  | block
  deriving DecidableEq

structure AccessSuspension where
  id : Text
  useCase : Option Text
  target : RuleTarget
  targetValue : Text
  action : RuleAction
  throttleRpm : Option ℤ
  expiresAt : Option ℕ
  author : Text
  reason : Text
  liftedAt : Option ℕ := none
  deriving DecidableEq

/-- Who a request is made by. -/
structure Caller where
  useCase : Option Text
  subject : Option Text
  credential : Option Text
  person : Option Text
  deriving DecidableEq

/-- A refusal of a caller who is stopped; the seconds are the earliest a retry can succeed. -/
structure Suspended where
  message : Text
  retryAfter : ℕ
  reason : Text
  deriving DecidableEq

/-- A rate a caller is held to. -/
structure Throttle where
  label : Text
  key : Text
  limitRpm : ℤ
  target : Text
  author : Text
  reason : Text
  deriving DecidableEq

/-- A second, in the ticks all moments are counted in. -/
def second : ℕ := 1000000

namespace AccessSuspension

/-- The table's condition: not lifted and not yet expired. -/
def inForce (row : AccessSuspension) (moment : ℕ) : Bool :=
  row.liftedAt.isNone && (row.expiresAt.isNone || row.expiresAt.any (moment < ·))

def stillApplies (row : AccessSuspension) (moment : ℕ) : Bool :=
  if row.liftedAt.isSome then false
  else
    match row.expiresAt with
    | none => true
    | some expires => moment < expires

def matchesCaller (row : AccessSuspension) (c : Caller) : Bool :=
  if row.useCase.isSome ∧ row.useCase ≠ c.useCase then false
  else
    match row.target with
    -- either name the caller goes by
    | .subject => row.targetValue ∈ [c.subject, c.person].reduceOption.filter (· ≠ [])
    | .credential => c.credential = some row.targetValue
    | .useCase => c.useCase = some row.targetValue

def retryAfter (row : AccessSuspension) (moment : ℕ) : ℕ :=
  match row.expiresAt with
  | none => 60
  | some expires => max ((expires - moment) / second) 1

/-- The reason given, or else who decided. -/
def why (row : AccessSuspension) : Text := if row.reason = [] then row.author else row.reason

/-- A throttle without a rate holds nobody to one. -/
def throttles (row : AccessSuspension) : Bool :=
  row.action = .throttle && row.throttleRpm.getD 0 ≠ 0

def refusal (row : AccessSuspension) (moment : ℕ) : Suspended where
  message := ("Access for this " : Text) ++ row.target.spoken ++ (" is suspended (" : Text) ++
    row.author ++ (")." : Text)
  retryAfter := row.retryAfter moment
  reason := row.why

def throttle (row : AccessSuspension) : Throttle where
  label := ("suspension " : Text) ++ row.target.value ++ (":" : Text) ++ row.targetValue
  key := ("suspension:" : Text) ++ row.id
  limitRpm :=
    match row.throttleRpm with
    | none | some 0 => 1
    | some rpm => rpm
  target := row.target.value
  author := row.author
  reason := row.reason

theorem inForce_eq_stillApplies (row : AccessSuspension) (moment : ℕ) :
    row.inForce moment = row.stillApplies moment := by
  unfold inForce stillApplies
  cases row.liftedAt <;> cases row.expiresAt <;> simp

/-- What has run out stays so. -/
theorem stillApplies_mono {row : AccessSuspension} {m m' : ℕ} (hm : m ≤ m')
    (h : row.stillApplies m') : row.stillApplies m := by
  unfold stillApplies at h ⊢
  split_ifs at h ⊢
  split at h
  · rfl
  · simp only [decide_eq_true_eq] at h ⊢
    omega

/-- What is lifted applies no more. -/
theorem not_stillApplies_of_lifted {row : AccessSuspension} {m : ℕ} (h : row.liftedAt.isSome) :
    ¬row.stillApplies m := by
  unfold stillApplies
  rw [if_pos h]
  exact Bool.false_ne_true

end AccessSuspension

/-- What the suspensions that still apply do to a caller: of the blocks the one that ends last
speaks, and without a block every throttle is returned. -/
def checkAgainst (active : List AccessSuspension) (moment : ℕ) (c : Caller) :
    Except Suspended (List Throttle) :=
  let matching := active.filter (·.matchesCaller c)
  match (matching.filter (·.action = .block)).argmax (·.retryAfter moment) with
  | some row => .error (row.refusal moment)
  | none => .ok ((matching.filter (·.throttles)).map (·.throttle))

/-- An answer according to a suspension: a block refuses, and a throttle with a rate is returned
unless something refuses. -/
structure Heeds (outcome : Except Suspended (List Throttle)) (row : AccessSuspension) : Prop where
  blocked : row.action = .block → ∃ e, outcome = .error e
  throttled : row.throttles → (∃ e, outcome = .error e) ∨
    ∃ throttles, outcome = .ok throttles ∧ row.throttle ∈ throttles

/-- A check answers according to every suspension it has and that matches. -/
theorem checkAgainst_heeds {active : List AccessSuspension} {moment : ℕ} {c : Caller}
    {row : AccessSuspension} (hrow : row ∈ active) (hc : row.matchesCaller c) :
    Heeds (checkAgainst active moment c) row := by
  have hmatching : row ∈ active.filter (·.matchesCaller c) := List.mem_filter.mpr ⟨hrow, hc⟩
  rcases hlast : ((active.filter (·.matchesCaller c)).filter (·.action = .block)).argmax
    (·.retryAfter moment) with _ | last
  · have hnone : (active.filter (·.matchesCaller c)).filter (·.action = .block) = [] :=
      List.argmax_eq_none.mp hlast
    have hok : checkAgainst active moment c =
        .ok (((active.filter (·.matchesCaller c)).filter (·.throttles)).map (·.throttle)) := by
      simp only [checkAgainst, hlast]
    constructor
    · intro hblock
      have hmem : row ∈ (active.filter (·.matchesCaller c)).filter (·.action = .block) :=
        List.mem_filter.mpr ⟨hmatching, by simpa using hblock⟩
      rw [hnone] at hmem
      cases hmem
    · intro hthrottles
      exact .inr ⟨_, hok, List.mem_map_of_mem (List.mem_filter.mpr ⟨hmatching, hthrottles⟩)⟩
  · have herror : checkAgainst active moment c = .error (last.refusal moment) := by
      simp only [checkAgainst, hlast]
    exact ⟨fun _ => ⟨_, herror⟩, fun _ => .inl ⟨_, herror⟩⟩

/-! ### The cache and the checks in flight -/

/-- How long a loaded list is trusted. -/
def cacheTtl : ℕ := 5 * second

/-- Where a check that reloads is. Beside what the code holds stand how many rows the database had
when it answered, and when that was. -/
inductive Reload
  /-- The clocks are read, the database is asked. -/
  | asked (now asOf : ℕ)
  | answered (now : ℕ) (rows : List AccessSuspension) (seen readAt : ℕ)
  /-- The list is in the cache and not yet marked as loaded. -/
  | stored (now readAt : ℕ)
  deriving DecidableEq

/-- A check in flight, and how many rows an `invalidate` had told of when it began. -/
structure Check where
  caller : Caller
  owed : ℕ
  reload : Reload
  deriving DecidableEq

/-- A check that answered, with the suspensions in force then that an `invalidate` before its begin
had told of, and the age of the list it used. -/
structure CheckAnswer where
  caller : Caller
  due : List AccessSuspension
  age : ℕ
  outcome : Except Suspended (List Throttle)

structure SuspensionService where
  enforce : Bool := true
  /-- The clock the cache goes by. -/
  clock : ℕ
  /-- The clock suspensions expire by. -/
  moment : ℕ
  /-- The table, in the order of the commits. -/
  rows : List AccessSuspension
  cached : List AccessSuspension := []
  loadedAt : Option ℕ := none
  checks : List Check := []
  /-- How many rows the last `invalidate` told of. -/
  told : ℕ := 0
  /-- How many rows the table had when the cached list was read, and when that was. -/
  seen : ℕ := 0
  readAt : ℕ := 0
  answers : List CheckAnswer := []

inductive SuspensionAct
  | advance (clock moment : ℕ)
  | commit (row : AccessSuspension)
  | lift (i : ℕ)
  | invalidate
  | check (caller : Caller)
  /-- The database answers the `i`-th check in flight. -/
  | answer (i : ℕ)
  | store (i : ℕ)
  /-- The list is marked as loaded and used. -/
  | finish (i : ℕ)
  /-- A reload that raises, or is cancelled. -/
  | abandon (i : ℕ)

/-- What the table gives to a reload: all that can still apply. -/
def load (rows : List AccessSuspension) (asOf : ℕ) : List AccessSuspension :=
  rows.filter (·.inForce asOf)

namespace SuspensionService

/-- The cache is trusted. -/
def fresh (s : SuspensionService) : Bool :=
  s.loadedAt.any fun loaded => s.clock - loaded < cacheTtl

/-- What a check that uses the cache now answers. -/
def answerNow (s : SuspensionService) (caller : Caller) (owed : ℕ) : CheckAnswer where
  caller := caller
  due := (s.rows.take owed).filter (·.stillApplies s.moment)
  age := s.clock - s.readAt
  outcome := checkAgainst (s.cached.filter (·.stillApplies s.moment)) s.moment caller

/-- A check in flight that goes on. -/
def reloading (s : SuspensionService) (i : ℕ) (c : Check) (reload : Reload) : SuspensionService :=
  { s with checks := s.checks.set i { c with reload := reload } }

def step (s : SuspensionService) : SuspensionAct → Option SuspensionService
  | .advance clock moment => some { s with clock := s.clock + clock, moment := s.moment + moment }
  | .commit row =>
    if row.liftedAt.isNone then some { s with rows := s.rows ++ [row] } else none
  | .lift i =>
    some { s with
      rows := s.rows.modify i fun row => { row with liftedAt := row.liftedAt.or (some s.moment) } }
  | .invalidate => some { s with loadedAt := none, told := s.rows.length }
  | .check caller =>
    if ¬s.enforce then
      some { s with answers := s.answers ++ [{ s.answerNow caller s.told with outcome := .ok [] }] }
    else if s.fresh then some { s with answers := s.answers ++ [s.answerNow caller s.told] }
    else
      some { s with
        checks := s.checks ++ [{ caller, owed := s.told, reload := .asked s.clock s.moment }] }
  | .answer i =>
    match s.checks[i]? with
    | some c@{ reload := .asked now asOf, .. } =>
      some (s.reloading i c (.answered now (load s.rows asOf) s.rows.length s.clock))
    | _ => none
  | .store i =>
    match s.checks[i]? with
    | some c@{ reload := .answered now rows seen readAt, .. } =>
      some { s.reloading i c (.stored now readAt) with
        cached := rows, seen := seen, readAt := readAt }
    | _ => none
  | .finish i =>
    match s.checks[i]? with
    | some { caller, owed, reload := .stored now _ } =>
      some { s with
        loadedAt := some now
        checks := s.checks.eraseIdx i
        answers := s.answers ++ [s.answerNow caller owed] }
    | _ => none
  | .abandon i => if i < s.checks.length then some { s with checks := s.checks.eraseIdx i } else none

/-- Of the steps taken: no list read before the last `invalidate` told of a row, and none older
than the one in the cache, is stored; none that misses such a row is marked as loaded; and a reload
ends within `cacheTtl` of the database's answer. -/
def Timely (s : SuspensionService) : SuspensionAct → Prop
  | .store i =>
    match s.checks[i]? with
    | some { reload := .answered _ _ seen readAt, .. } => s.told ≤ seen ∧ s.readAt ≤ readAt
    | _ => True
  | .finish i =>
    match s.checks[i]? with
    | some { reload := .stored _ readAt, .. } => s.told ≤ s.seen ∧ s.clock ≤ readAt + cacheTtl
    | _ => True
  | _ => True

/-! ### What every step keeps -/

/-- A list holds what still applies of the first `n` rows of the table. -/
def Covers (rows : List AccessSuspension) (moment n : ℕ) (list : List AccessSuspension) : Prop :=
  ∀ row ∈ rows.take n, row.stillApplies moment → row ∈ list

namespace Covers

variable {rows list : List AccessSuspension} {moment n : ℕ}

theorem later (h : Covers rows moment n list) {moment' : ℕ} (hm : moment ≤ moment') :
    Covers rows moment' n list :=
  fun row hrow happlies => h row hrow (AccessSuspension.stillApplies_mono hm happlies)

theorem commit (h : Covers rows moment n list) (hn : n ≤ rows.length) (row : AccessSuspension) :
    Covers (rows ++ [row]) moment n list := by
  unfold Covers
  rwa [List.take_append_of_le_length hn]

/-- A lifted row is nobody's any more, the others are where they were. -/
theorem lift (h : Covers rows moment n list) (i at_ : ℕ) :
    Covers (rows.modify i fun row => { row with liftedAt := row.liftedAt.or (some at_) }) moment n
      list := by
  intro row hrow happlies
  obtain ⟨j, hj⟩ := List.mem_iff_getElem?.mp hrow
  rw [List.getElem?_take] at hj
  split_ifs at hj with hjn
  rw [List.getElem?_modify] at hj
  obtain ⟨old, hold, hrow⟩ := Option.map_eq_some_iff.mp hj
  by_cases hij : i = j
  · refine absurd happlies (AccessSuspension.not_stillApplies_of_lifted ?_)
    rw [← hrow, if_pos hij]
    cases old.liftedAt <;> rfl
  · rw [if_neg hij] at hrow
    refine h row (List.mem_iff_getElem?.mpr ⟨j, ?_⟩) happlies
    rw [List.getElem?_take, if_pos hjn, hold, ← hrow]

/-- What the database answers covers the whole table, then and later. -/
theorem load (rows : List AccessSuspension) {asOf : ℕ} (h : asOf ≤ moment) :
    Covers rows moment rows.length (load rows asOf) := by
  intro row hrow happlies
  rw [List.take_length] at hrow
  refine List.mem_filter.mpr ⟨hrow, ?_⟩
  rw [AccessSuspension.inForce_eq_stillApplies]
  exact AccessSuspension.stillApplies_mono h happlies

end Covers

/-- What is known of a check in flight. -/
def Sound (s : SuspensionService) (owed : ℕ) : Reload → Prop
  | .asked now asOf => now ≤ s.clock ∧ asOf ≤ s.moment
  | .answered now rows seen readAt =>
    now ≤ readAt ∧ owed ≤ seen ∧ seen ≤ s.rows.length ∧ Covers s.rows s.moment seen rows
  | .stored now readAt => now ≤ readAt ∧ readAt ≤ s.readAt ∧ owed ≤ s.seen

structure Kept (s : SuspensionService) : Prop where
  enforced : s.enforce = true
  told_le : s.told ≤ s.rows.length
  seen_le : s.seen ≤ s.rows.length
  covered : Covers s.rows s.moment s.seen s.cached
  loaded : ∀ m, s.loadedAt = some m → s.told ≤ s.seen ∧ m ≤ s.readAt
  flying : ∀ c ∈ s.checks, c.owed ≤ s.told ∧ s.Sound c.owed c.reload
  heeding : ∀ a ∈ s.answers,
    (∀ row ∈ a.due, row.matchesCaller a.caller → Heeds a.outcome row) ∧ a.age ≤ cacheTtl

namespace Kept

variable {s t : SuspensionService}

/-- A check that uses the cache answers by what it covers, and by nothing old. -/
theorem answerNow (h : Kept s) {caller : Caller} {owed : ℕ} (howed : owed ≤ s.seen) :
    ∀ row ∈ (s.answerNow caller owed).due, row.matchesCaller caller →
      Heeds (s.answerNow caller owed).outcome row := by
  intro row hrow hmatches
  obtain ⟨htake, happlies⟩ := List.mem_filter.mp hrow
  have hcached : row ∈ s.cached :=
    h.covered row (List.take_subset_take_left _ howed htake) happlies
  exact checkAgainst_heeds (List.mem_filter.mpr ⟨hcached, happlies⟩) hmatches

theorem start (clock moment : ℕ) (rows : List AccessSuspension) :
    Kept { clock, moment, rows } where
  enforced := rfl
  told_le := Nat.zero_le _
  seen_le := Nat.zero_le _
  covered row hrow := by simp at hrow
  loaded m hm := by cases hm
  flying c hc := by cases hc
  heeding a ha := by cases ha

theorem step_advance (h : Kept s) (clock moment : ℕ) :
    Kept { s with clock := s.clock + clock, moment := s.moment + moment } :=
  { h with
    covered := h.covered.later (Nat.le_add_right _ _)
    flying := fun c hc => by
      obtain ⟨howed, hsound⟩ := h.flying c hc
      refine ⟨howed, ?_⟩
      rcases hr : c.reload with ⟨now, asOf⟩ | ⟨now, rows, seen, readAt⟩ | ⟨now, readAt⟩ <;>
        rw [hr] at hsound
      · exact ⟨hsound.1.trans (Nat.le_add_right _ _), hsound.2.trans (Nat.le_add_right _ _)⟩
      · obtain ⟨hnow, hseen, hle, hcovers⟩ := hsound
        exact ⟨hnow, hseen, hle, hcovers.later (Nat.le_add_right _ _)⟩
      · exact hsound }

/-- A change of the table that keeps what is covered keeps the checks in flight sound. -/
theorem step_rows (h : Kept s) {rows : List AccessSuspension}
    (hlength : s.rows.length ≤ rows.length)
    (hcovers : ∀ n list, n ≤ s.rows.length → Covers s.rows s.moment n list →
      Covers rows s.moment n list) : Kept { s with rows := rows } :=
  { h with
    told_le := h.told_le.trans hlength
    seen_le := h.seen_le.trans hlength
    covered := hcovers _ _ h.seen_le h.covered
    flying := fun c hc => by
      obtain ⟨howed, hsound⟩ := h.flying c hc
      refine ⟨howed, ?_⟩
      rcases hr : c.reload with ⟨now, asOf⟩ | ⟨now, rows, seen, readAt⟩ | ⟨now, readAt⟩ <;>
        rw [hr] at hsound
      · exact hsound
      · obtain ⟨hnow, hseen, hle, hcov⟩ := hsound
        exact ⟨hnow, hseen, hle.trans hlength, hcovers _ _ hle hcov⟩
      · exact hsound }

theorem step_invalidate (h : Kept s) :
    Kept { s with loadedAt := none, told := s.rows.length } :=
  { h with
    told_le := le_refl _
    loaded := fun m hm => by cases hm
    flying := fun c hc => by
      obtain ⟨howed, hsound⟩ := h.flying c hc
      exact ⟨howed.trans h.told_le, hsound⟩ }

/-- One more answer. -/
theorem answered (h : Kept s) (caller : Caller) {owed : ℕ} (howed : owed ≤ s.seen)
    (hage : s.clock - s.readAt ≤ cacheTtl) :
    Kept { s with answers := s.answers ++ [s.answerNow caller owed] } :=
  { h with
    heeding := fun a ha => by
      rcases List.mem_append.mp ha with ha | ha
      · exact h.heeding a ha
      · obtain rfl := List.mem_singleton.mp ha
        exact ⟨h.answerNow howed, hage⟩ }

theorem erased (h : Kept s) (i : ℕ) : Kept { s with checks := s.checks.eraseIdx i } :=
  { h with flying := fun c hc => h.flying c (List.mem_of_mem_eraseIdx hc) }

/-- A check in flight that goes on to what is known of it. -/
theorem reloads (h : Kept s) {i : ℕ} {c : Check} (hc : s.checks[i]? = some c) {reload : Reload}
    (hsound : s.Sound c.owed reload) : Kept (s.reloading i c reload) :=
  { h with
    flying := fun c' hc' => by
      rcases List.mem_or_eq_of_mem_set hc' with hc' | rfl
      · exact h.flying c' hc'
      · exact ⟨(h.flying c (List.mem_of_getElem? hc)).1, hsound⟩ }

theorem step_check (h : Kept s) {caller : Caller} (hst : s.step (.check caller) = some t) :
    Kept t := by
  rw [step, if_neg (not_not.mpr h.enforced)] at hst
  split_ifs at hst with hfresh
  · obtain rfl := Option.some.inj hst
    obtain ⟨m, hm, hyoung⟩ := (Option.any_eq_true _ _).mp hfresh
    rw [decide_eq_true_eq] at hyoung
    obtain ⟨htold, hread⟩ := h.loaded m hm
    exact h.answered caller htold (by omega)
  · obtain rfl := Option.some.inj hst
    refine { h with flying := fun c hc => ?_ }
    rcases List.mem_append.mp hc with hc | hc
    · exact h.flying c hc
    · obtain rfl := List.mem_singleton.mp hc
      exact ⟨le_refl _, le_refl _, le_refl _⟩

theorem step_answer (h : Kept s) {i : ℕ} (hst : s.step (.answer i) = some t) : Kept t := by
  rw [step] at hst
  split at hst
  · next caller owed now asOf hc =>
    obtain rfl := Option.some.inj hst
    obtain ⟨howed, hnow, hasOf⟩ := h.flying _ (List.mem_of_getElem? hc)
    exact h.reloads hc
      ⟨hnow, howed.trans h.told_le, le_refl _, Covers.load s.rows hasOf⟩
  · cases hst

theorem step_store (h : Kept s) {i : ℕ} (hok : s.Timely (.store i))
    (hst : s.step (.store i) = some t) : Kept t := by
  rw [step] at hst
  split at hst
  · next caller owed now rows seen readAt hc =>
    obtain rfl := Option.some.inj hst
    obtain ⟨howed, hnow, hseen, hle, hcovers⟩ := h.flying _ (List.mem_of_getElem? hc)
    obtain ⟨htold, hyounger⟩ : s.told ≤ seen ∧ s.readAt ≤ readAt := by
      rwa [Timely, hc] at hok
    refine { h with
      seen_le := hle
      covered := hcovers
      loaded := fun m hm => ⟨htold, (h.loaded m hm).2.trans hyounger⟩
      flying := fun c' hc' => ?_ }
    rcases List.mem_or_eq_of_mem_set hc' with hc' | rfl
    · -- a list stored before is older than this one
      obtain ⟨howed', hsound⟩ := h.flying c' hc'
      refine ⟨howed', ?_⟩
      rcases hr : c'.reload with ⟨now, asOf⟩ | ⟨now, rows, seen, readAt⟩ | ⟨now, readAt⟩ <;>
        rw [hr] at hsound
      · exact hsound
      · exact hsound
      · exact ⟨hsound.1, hsound.2.1.trans hyounger, howed'.trans htold⟩
    · exact ⟨howed, hnow, le_refl _, hseen⟩
  · cases hst

theorem step_finish (h : Kept s) {i : ℕ} (hok : s.Timely (.finish i))
    (hst : s.step (.finish i) = some t) : Kept t := by
  rw [step] at hst
  split at hst
  · next caller owed now readAt hc =>
    obtain rfl := Option.some.inj hst
    obtain ⟨howed, hnow, hread, hseen⟩ := h.flying _ (List.mem_of_getElem? hc)
    obtain ⟨htold, hsoon⟩ : s.told ≤ s.seen ∧ s.clock ≤ readAt + cacheTtl := by
      rwa [Timely, hc] at hok
    have hage : s.clock - s.readAt ≤ cacheTtl := by omega
    have hanswered := (h.erased i).answered caller hseen hage
    exact { hanswered with
      loaded := fun m hm => by
        obtain rfl : now = m := Option.some.inj hm
        exact ⟨htold, hnow.trans hread⟩ }
  · cases hst

/-- **One step** of any check, commit or clock, none untimely. -/
theorem step_keeps (h : Kept s) {a : SuspensionAct} (hok : s.Timely a) (hst : s.step a = some t) :
    Kept t := by
  cases a with
  | advance clock moment =>
    obtain rfl := Option.some.inj hst
    exact h.step_advance clock moment
  | commit row =>
    rw [step] at hst
    split_ifs at hst
    obtain rfl := Option.some.inj hst
    exact h.step_rows (by simp) fun n list hn hcovers => hcovers.commit hn row
  | lift i =>
    obtain rfl := Option.some.inj hst
    exact h.step_rows (by simp) fun n list _ hcovers => hcovers.lift i s.moment
  | invalidate =>
    obtain rfl := Option.some.inj hst
    exact h.step_invalidate
  | check caller => exact h.step_check hst
  | answer i => exact h.step_answer hst
  | store i => exact h.step_store hok hst
  | finish i => exact h.step_finish hok hst
  | abandon i =>
    rw [step] at hst
    split_ifs at hst
    obtain rfl := Option.some.inj hst
    exact h.erased i

end Kept

end SuspensionService

open SuspensionService

/-- **A new suspension binds at once.** In every run of checks, commits, lifts, invalidations and
clocks whose steps are all timely, on an enforcing service and whatever the table held: a check that
began after an `invalidate` refuses or throttles according to every suspension committed before it
that still applies and matches, and uses no list older than `cacheTtl`. -/
theorem check_binds (clock moment : ℕ) (rows : List AccessSuspension) (acts : List SuspensionAct)
    (s : SuspensionService) (h : Run step Timely { clock, moment, rows } acts s) :
    ∀ a ∈ s.answers,
      (∀ row ∈ a.due, row.matchesCaller a.caller → Heeds a.outcome row) ∧ a.age ≤ cacheTtl :=
  (h.invariant (fun _ _ _ hs hok hst => hs.step_keeps hok hst)
    (Kept.start clock moment rows)).heeding

/-- A caller, and the suspension that stops them. -/
def stoppedCaller : Caller where
  useCase := none
  subject := some "u"
  credential := none
  person := none

def callersStop : AccessSuspension where
  id := "1"
  useCase := none
  target := .subject
  targetValue := "u"
  action := .block
  throttleRpm := none
  expiresAt := none
  author := "user:a"
  reason := "x"

/-- A reload that asks before the commit and is answered after the `invalidate`: it and the check
after it refuse. -/
theorem check_binds_twice : ∃ s : SuspensionService, s.answers.length = 2 ∧
    ∀ a ∈ s.answers,
      (∀ row ∈ a.due, row.matchesCaller a.caller → Heeds a.outcome row) ∧ a.age ≤ cacheTtl := by
  have hrun : ∃ s, s.answers.length = 2 ∧ Run step Timely { clock := 0, moment := 0, rows := [] }
      [.check stoppedCaller, .commit callersStop, .invalidate, .answer 0, .store 0, .finish 0,
        .check stoppedCaller] s := by
    refine ⟨_, ?_, .cons trivial rfl (.cons trivial rfl (.cons trivial rfl (.cons trivial rfl
      (.cons (And.intro (by decide) (by decide)) rfl
        (.cons (And.intro (by decide) (by decide)) rfl (.cons trivial rfl (.nil _)))))))⟩
    rfl
  obtain ⟨s, hlength, h⟩ := hrun
  exact ⟨s, hlength, check_binds _ _ _ _ s h⟩

/-- The database answers a reload, then the suspension is committed and `invalidate` returns, then
the reload stores its list and marks it as loaded: the check that begins now serves the caller. -/
theorem stale_reload_kept :
    ¬∀ (clock moment : ℕ) (rows : List AccessSuspension) (acts : List SuspensionAct)
      (s : SuspensionService), Run step (fun _ _ => True) { clock, moment, rows } acts s →
        ∀ a ∈ s.answers,
          (∀ row ∈ a.due, row.matchesCaller a.caller → Heeds a.outcome row) ∧
            a.age ≤ cacheTtl := by
  intro h
  have hrun : ∃ s, (∃ a ∈ s.answers, callersStop ∈ a.due ∧ a.caller = stoppedCaller ∧
      a.outcome = .ok []) ∧
      Run step (fun _ _ => True) { clock := 0, moment := 0, rows := [] }
        [.check stoppedCaller, .answer 0, .commit callersStop, .invalidate, .store 0, .finish 0,
          .check stoppedCaller] s := by
    refine ⟨_, ?_, .cons trivial rfl (.cons trivial rfl (.cons trivial rfl (.cons trivial rfl
      (.cons trivial rfl (.cons trivial rfl (.cons trivial rfl (.nil _)))))))⟩
    refine ⟨_, List.mem_append_right _ (List.mem_singleton.mpr rfl), ?_, rfl, rfl⟩
    decide
  obtain ⟨s, ⟨a, ha, hdue, hcaller, hok⟩, hrun⟩ := hrun
  have hheeds := (h _ _ _ _ s hrun a ha).1 _ hdue (by rw [hcaller]; decide)
  obtain ⟨e, he⟩ := hheeds.blocked rfl
  rw [hok] at he
  cases he

end AiraGateway
