import AiraGateway.Budgets.Counter
import AiraGateway.Budgets.Scopes
import AiraGateway.Library.Runs

/-!
# The mail about a budget's counter

A round of the notifier owes a notice for every threshold a counter has newly reached, and a mail
for the highest of them (`owe`); then it tries every notice owed, each against the budgets and the
usage of that moment (`sendBudgetMail`). Between the two passes, and between two notices, usage
grows and budgets change.

* `told_once`: in every run no threshold has two notices; and in every run in which no mail is newly
  owed beside one still owed, and the share is still there when its mail is sent, no round sends two
  mails, and after every round in which delivery works a mail went out for every threshold that
  round found reached.
* `told_twice_or_never`: a mail that failed goes out in one round with the next one; a threshold
  superseded by a higher one, which is superseded itself when the budget is raised, is never told.
-/

namespace AiraGateway

/-! ### The share of a counter -/

/-- The caps of a budget under its dimensions' names. -/
def BudgetRead.limits (row : BudgetRead) : Limits :=
  { tokens := row.limitTokens, requests := row.limitRequests, costNanos := row.limitCostNanos }

/-- One use case's counter in one period: whose it is, when the period ends, and the thresholds the
use case mails at, which are distinct percentages. -/
structure MailCounter where
  useCase : Text
  /-- The person of a per-person counter. -/
  person : Option Text
  period : Text
  ends : ℕ
  thresholds : List ℤ
  distinct : thresholds.Nodup
  percent : ∀ t ∈ thresholds, 1 ≤ t ∧ t ≤ 100

/-- What a mail says of a counter: of the budget that binds it, the largest share and the figures. -/
structure BudgetState where
  scope : Text
  period : Text
  share : ℤ
  figures : List (Dimension × ℤ × ℤ)
  deriving DecidableEq

def mailDimensions : List Dimension := [.cost, .requests, .tokens]

/-- The used amount and the limit of every dimension a budget caps. -/
def budgetFigures (row : StoredBudget) (usage : Usage) : List (Dimension × ℤ × ℤ) :=
  mailDimensions.filterMap fun d =>
    match row.limits.get d with
    | some limit => if 0 < limit then some (d, usage.amounts.get d, limit) else none
    | none => none

def figuresShare (figures : List (Dimension × ℤ × ℤ)) : Option ℤ :=
  (figures.map fun (_, used, limit) => used * 100 / limit).max?

namespace MailCounter

variable (c : MailCounter)

/-- The enabled budgets that bind the counter. -/
def boundRows (budgets : List StoredBudget) : List StoredBudget :=
  (binding c.person slotOf (budgets.filter (·.useCase = c.useCase))).filter fun row =>
    row.period = c.period && row.enabled &&
      if c.person.isSome then isPerPerson row.scope else row.scope = useCaseScope

/-- The budget nearer its limit speaks, the earlier of two as near. -/
def nearer (usage : Usage) (best : Option BudgetState) (row : StoredBudget) : Option BudgetState :=
  let figures := budgetFigures row usage
  match figuresShare figures with
  | none => best
  | some share =>
    if best.all (·.share < share) then
      some { scope := row.scope, period := c.period, share, figures }
    else best

/-- Usage against the enabled budget that binds it, or nothing where none does. -/
def state (budgets : List StoredBudget) (usage : Usage) : Option BudgetState :=
  (c.boundRows budgets).foldl (c.nearer usage) none

end MailCounter

/-! ### Notices -/

inductive MailOutcome
  | owed
  | sent
  | superseded
  | noRecipient
  | failed
  | expired
  deriving DecidableEq

structure MailNotice where
  createdAt : ℕ
  threshold : ℤ
  expiresAt : ℕ
  outcome : MailOutcome
  recipients : ℕ := 0
  attempts : ℕ := 0
  lastError : Text := []
  sentAt : Option ℕ := none
  deriving DecidableEq

def maxAttempts : ℕ := 5

def maxReason : ℕ := 255

/-- Which newly reached threshold is mailed: the highest, if it is above all noted before. -/
def mailedThreshold (fresh recorded : List ℤ) : Option ℤ :=
  fresh.max?.filter (recorded.max?.getD 0 < ·)

/-- A notice for every newly reached threshold, and a mail for the highest only. -/
def owe (crossed recorded : List ℤ) (expiresAt moment : ℕ) : List MailNotice :=
  let fresh := crossed.filter (· ∉ recorded)
  fresh.map fun threshold =>
    { createdAt := moment
      threshold
      expiresAt
      outcome :=
        if some threshold = mailedThreshold fresh recorded then .owed else .superseded }

/-- What the directory and the relay answer when a mail is tried. -/
inductive MailDelivery
  | directoryDown (why : Text)
  | found (recipients : ℕ) (refused : Option Text)

/-- The directory answers with nobody. -/
def MailDelivery.findsNobody : MailDelivery → Bool
  | directoryDown _ => false
  | found recipients _ => recipients = 0

/-- The delivery fails, which is tried again. -/
def MailDelivery.fails : MailDelivery → Bool
  | directoryDown _ => true
  | found _ refused => refused.isSome

namespace MailNotice

def retryLater (n : MailNotice) (why : Text) : MailNotice :=
  { n with
    attempts := n.attempts + 1
    lastError := why.take maxReason
    outcome := if maxAttempts ≤ n.attempts + 1 then .failed else n.outcome }

def deliver (n : MailNotice) (recipients : ℕ) (refused : Option Text) (moment : ℕ) : MailNotice :=
  if recipients = 0 then { n with outcome := .noRecipient }
  else
    match refused with
    | some why => n.retryLater why
    | none => { n with outcome := .sent, recipients, sentAt := some moment }

/-- A notice is tried against the state of the moment. -/
def sendBudgetMail (c : MailCounter) (n : MailNotice) (state : Option BudgetState)
    (d : MailDelivery) (moment : ℕ) : MailNotice :=
  match state with
  | none => { n with outcome := .superseded }
  | some state =>
    -- no longer true or no longer asked for, so not said
    if state.share < n.threshold ∨ n.threshold ∉ c.thresholds then
      { n with outcome := .superseded }
    else
      match d with
      | .directoryDown why =>
        n.retryLater (("the directory could not be asked: " : Text) ++ why)
      | .found recipients refused => n.deliver recipients refused moment

/-- What a round makes of an owed notice. -/
def settle (c : MailCounter) (n : MailNotice) (state : Option BudgetState) (d : MailDelivery)
    (moment : ℕ) : MailNotice :=
  if n.expiresAt ≤ moment then { n with outcome := .expired }
  else n.sendBudgetMail c state d moment

end MailNotice

/-! ### Rounds -/

/-- Where the notifier is: a round that owed holds the notices it has still to try. -/
inductive MailRound
  | idle
  | sending (moment : ℕ) (todo : List ℕ)
  deriving DecidableEq

structure MailWorld where
  usage : Usage
  budgets : List StoredBudget
  notices : List MailNotice := []
  round : MailRound := .idle
  /-- The share the round read when it owed. -/
  read : Option ℤ := none
  /-- How many mails the round sent, and whether none of its deliveries failed. -/
  mailed : ℕ := 0
  works : Bool := true
  deriving DecidableEq

inductive MailAct
  | use (tokens requests costNanos : ℕ)
  | rebudget (budgets : List StoredBudget)
  | owe (moment : ℕ)
  | send (d : MailDelivery)
  | finish

namespace MailWorld

def state (c : MailCounter) (s : MailWorld) : Option BudgetState := c.state s.budgets s.usage

def share (c : MailCounter) (s : MailWorld) : Option ℤ := (s.state c).map BudgetState.share

/-- The thresholds a share has reached. -/
def crossed (c : MailCounter) (share : Option ℤ) : List ℤ :=
  c.thresholds.filter fun t => share.any (t ≤ ·)

/-- Where the notices still owed stand. -/
def owed (notices : List MailNotice) : List ℕ :=
  (List.range notices.length).filter fun i => notices[i]?.any (·.outcome = .owed)

def step (c : MailCounter) (s : MailWorld) : MailAct → Option MailWorld
  | .use tokens requests costNanos =>
    some { s with usage := accumulate (some s.usage) tokens requests (some costNanos) }
  | .rebudget budgets => some { s with budgets := budgets }
  | .owe moment =>
    match s.round with
    | .sending _ _ => none
    | .idle =>
      -- in another period it is another counter that is read
      let share := if moment < c.ends then s.share c else none
      let notices := s.notices ++
        AiraGateway.owe (crossed c share) (s.notices.map MailNotice.threshold) c.ends moment
      some { s with
        notices := notices
        round := .sending moment (owed notices)
        read := share
        mailed := 0
        works := true }
  | .send d =>
    match s.round with
    | .sending moment (i :: todo) =>
      match s.notices[i]? with
      | none => none
      | some n =>
        let settled := n.settle c (s.state c) d moment
        some { s with
          notices := s.notices.set i settled
          round := .sending moment todo
          mailed := s.mailed + if settled.outcome = .sent then 1 else 0
          works := s.works && settled.attempts = n.attempts }
    | _ => none
  | .finish =>
    match s.round with
    | .sending _ [] => some { s with round := .idle }
    | _ => none

/-- The notice that is tried next. -/
def trying (s : MailWorld) : Option MailNotice :=
  match s.round with
  | .sending _ (i :: _) => s.notices[i]?
  | _ => none

/-- The runs the counter is followed in: the rounds owe within its period, a directory that answers
finds somebody, and no mail is given up. -/
def Followed (c : MailCounter) (s : MailWorld) : MailAct → Prop
  | .owe moment => moment < c.ends
  | .send d => d.findsNobody = false ∧ ∀ n ∈ s.trying, d.fails → n.attempts + 1 < maxAttempts
  | .use .. | .rebudget _ | .finish => True

/-- Of the steps taken: while a mail is still owed, no threshold above all noted is reached when a
round owes; and what is tried is still reached. -/
def Steady (c : MailCounter) (s : MailWorld) : MailAct → Prop
  | .owe moment => s.Followed c (.owe moment) ∧
    ((∃ n ∈ s.notices, n.outcome = .owed) →
      ∀ t ∈ crossed c (s.share c), ∃ n ∈ s.notices, t ≤ n.threshold)
  | .send d => s.Followed c (.send d) ∧ ∀ n ∈ s.trying, (s.share c).any (n.threshold ≤ ·)
  | .use .. | .rebudget _ | .finish => True

instance (c : MailCounter) (s : MailWorld) (a : MailAct) : Decidable (s.Followed c a) :=
  match a with
  | .owe _ => inferInstanceAs (Decidable (_ < _))
  | .send _ => inferInstanceAs (Decidable (_ ∧ _))
  | .use .. | .rebudget _ | .finish => inferInstanceAs (Decidable True)

instance (c : MailCounter) (s : MailWorld) (a : MailAct) : Decidable (s.Steady c a) :=
  match a with
  | .owe _ => inferInstanceAs (Decidable (_ ∧ (_ → _)))
  | .send _ => inferInstanceAs (Decidable (_ ∧ _))
  | .use .. | .rebudget _ | .finish => inferInstanceAs (Decidable True)

theorem mem_owed {notices : List MailNotice} {i : ℕ} :
    i ∈ owed notices ↔ ∃ n, notices[i]? = some n ∧ n.outcome = .owed := by
  rw [owed, List.mem_filter, List.mem_range, Option.any_eq_true]
  constructor
  · rintro ⟨-, n, hn, howed⟩
    exact ⟨n, hn, by simpa using howed⟩
  · rintro ⟨n, hn, howed⟩
    exact ⟨(List.getElem?_eq_some_iff.mp hn).1, n, hn, by simpa using howed⟩

theorem owed_nodup (notices : List MailNotice) : (owed notices).Nodup :=
  List.nodup_range.filter _

end MailWorld

/-! ### What owing adds -/

section Owing

variable {crossed recorded fresh : List ℤ} {t u : ℤ}

/-- What is mailed is the highest of the fresh ones, and above all noted. -/
theorem mailedThreshold_spec (h : mailedThreshold fresh recorded = some t) :
    t ∈ fresh ∧ (∀ u ∈ fresh, u ≤ t) ∧ ∀ r ∈ recorded, r < t := by
  obtain ⟨hmax, habove⟩ := Option.filter_eq_some_iff.mp h
  obtain ⟨hmem, hle⟩ := List.max?_eq_some_iff.mp hmax
  refine ⟨hmem, hle, fun r hr => ?_⟩
  obtain ⟨m, hm⟩ : ∃ m, recorded.max? = some m :=
    Option.isSome_iff_exists.mp (List.isSome_max?_of_mem hr)
  have hrm : r ≤ m := (List.max?_eq_some_iff.mp hm).2 r hr
  rw [hm, Option.getD_some, decide_eq_true_eq] at habove
  omega

/-- Where no fresh threshold is mailed, one as high was noted before. -/
theorem exists_recorded_of_not_mailed (h : mailedThreshold fresh recorded = none)
    (hpos : ∀ u ∈ fresh, 1 ≤ u) (hu : u ∈ fresh) : ∃ r ∈ recorded, u ≤ r := by
  obtain ⟨m, hm⟩ : ∃ m, fresh.max? = some m :=
    Option.isSome_iff_exists.mp (List.isSome_max?_of_mem hu)
  obtain ⟨hmem, hle⟩ := List.max?_eq_some_iff.mp hm
  have hlow : ¬recorded.max?.getD 0 < m := by
    intro hlt
    rw [mailedThreshold, hm, Option.filter_some, if_pos (by simpa using hlt)] at h
    cases h
  have hone := hpos m hmem
  cases hr : recorded.max? with
  | none =>
    rw [hr, Option.getD_none] at hlow
    omega
  | some r =>
    rw [hr, Option.getD_some] at hlow
    have hum := hle u hu
    exact ⟨r, (List.max?_eq_some_iff.mp hr).1, by omega⟩

theorem mem_owe {expiresAt moment : ℕ} {n : MailNotice}
    (h : n ∈ owe crossed recorded expiresAt moment) :
    n.threshold ∈ crossed ∧ n.threshold ∉ recorded ∧ n.expiresAt = expiresAt ∧
      n.outcome = if some n.threshold =
        mailedThreshold (crossed.filter (· ∉ recorded)) recorded then .owed else .superseded := by
  obtain ⟨t, ht, rfl⟩ := List.mem_map.mp h
  obtain ⟨hcrossed, hfresh⟩ := List.mem_filter.mp ht
  exact ⟨hcrossed, by simpa using hfresh, rfl, rfl⟩

variable {expiresAt moment : ℕ} {n : MailNotice}

/-- A notice owed is the one that is mailed. -/
theorem mailed_of_owed (h : n ∈ owe crossed recorded expiresAt moment) (howed : n.outcome = .owed) :
    mailedThreshold (crossed.filter (· ∉ recorded)) recorded = some n.threshold := by
  have hcase := (mem_owe h).2.2.2
  rw [howed] at hcase
  by_contra hne
  rw [if_neg fun heq => hne heq.symm] at hcase
  cases hcase

/-- What is newly noted is told with a mail owed beside it, or was told with one noted before. -/
theorem exists_owed_or_recorded (h : n ∈ owe crossed recorded expiresAt moment)
    (hpos : ∀ u ∈ crossed, 1 ≤ u) :
    (∃ m ∈ owe crossed recorded expiresAt moment, n.threshold ≤ m.threshold ∧ m.outcome = .owed) ∨
      ∃ r ∈ recorded, n.threshold ≤ r := by
  obtain ⟨hcrossed, hnew, -, -⟩ := mem_owe h
  have hfresh : n.threshold ∈ crossed.filter (· ∉ recorded) :=
    List.mem_filter.mpr ⟨hcrossed, by simpa using hnew⟩
  rcases hm : mailedThreshold (crossed.filter (· ∉ recorded)) recorded with _ | t
  · exact .inr (exists_recorded_of_not_mailed hm
      (fun u hu => hpos u (List.mem_filter.mp hu).1) hfresh)
  · obtain ⟨ht, hle, -⟩ := mailedThreshold_spec hm
    refine .inl ⟨_, List.mem_map_of_mem ht, hle _ hfresh, ?_⟩
    rw [hm]
    exact if_pos rfl

theorem map_threshold_owe (crossed recorded : List ℤ) (expiresAt moment : ℕ) :
    (owe crossed recorded expiresAt moment).map MailNotice.threshold =
      crossed.filter (· ∉ recorded) := by
  rw [owe, List.map_map]
  exact List.map_id _

end Owing

namespace MailNotice

variable (c : MailCounter) (n : MailNotice) (state : Option BudgetState) (d : MailDelivery) (moment : ℕ)

/-- What a try leaves of a notice: of which threshold it is, and until when it is news. -/
structure Kept (n m : MailNotice) : Prop where
  threshold : m.threshold = n.threshold
  expiresAt : m.expiresAt = n.expiresAt

theorem deliver_kept (recipients : ℕ) (refused : Option Text) :
    n.Kept (n.deliver recipients refused moment) := by
  unfold deliver
  split_ifs
  · exact ⟨rfl, rfl⟩
  · cases refused <;> exact ⟨rfl, rfl⟩

theorem sendBudgetMail_kept : n.Kept (n.sendBudgetMail c state d moment) := by
  cases state with
  | none => exact ⟨rfl, rfl⟩
  | some state =>
    simp only [sendBudgetMail]
    split_ifs
    · exact ⟨rfl, rfl⟩
    · cases d with
      | directoryDown why => exact ⟨rfl, rfl⟩
      | found recipients refused => exact n.deliver_kept moment recipients refused

theorem settle_kept : n.Kept (n.settle c state d moment) := by
  unfold settle
  split_ifs
  · exact ⟨rfl, rfl⟩
  · exact n.sendBudgetMail_kept c state d moment

variable {c n state d moment}

/-- A mail that is current, still reached, not given up and finds somebody is sent, or stays owed
with one more attempt. -/
theorem settle_cases (hcurrent : moment < n.expiresAt) (howed : n.outcome = .owed)
    (hnamed : n.threshold ∈ c.thresholds)
    (hreached : (state.map BudgetState.share).any (n.threshold ≤ ·))
    (hfound : d.findsNobody = false)
    (hattempts : d.fails → n.attempts + 1 < maxAttempts) :
    ((n.settle c state d moment).outcome = .sent ∧
      (n.settle c state d moment).attempts = n.attempts) ∨
    ((n.settle c state d moment).outcome = .owed ∧
      (n.settle c state d moment).attempts = n.attempts + 1) := by
  obtain ⟨share, hshare, hle⟩ := (Option.any_eq_true _ _).mp hreached
  obtain ⟨state, rfl, rfl⟩ := Option.map_eq_some_iff.mp hshare
  have hsaid : ¬(state.share < n.threshold ∨ n.threshold ∉ c.thresholds) := by
    rw [not_or, not_lt, not_not]
    exact ⟨by simpa using hle, hnamed⟩
  rw [settle, if_neg (not_le.mpr hcurrent)]
  simp only [sendBudgetMail, if_neg hsaid]
  have hlater : ∀ why, n.attempts + 1 < maxAttempts → (n.retryLater why).outcome = .owed := by
    intro why hlt
    rw [retryLater, if_neg (not_le.mpr hlt)]
    exact howed
  cases d with
  | directoryDown why => exact .inr ⟨hlater _ (hattempts rfl), rfl⟩
  | found recipients refused =>
    have hsome : recipients ≠ 0 := of_decide_eq_false hfound
    simp only [deliver, if_neg hsome]
    cases refused with
    | none => exact .inl ⟨rfl, rfl⟩
    | some why => exact .inr ⟨hlater _ (hattempts rfl), rfl⟩

end MailNotice

namespace MailWorld

/-! ### What every step keeps -/

/-- Every notice is of a threshold of the use case, and of each there is one. -/
structure Noted (c : MailCounter) (s : MailWorld) : Prop where
  once : (s.notices.map MailNotice.threshold).Nodup
  named : ∀ n ∈ s.notices, n.threshold ∈ c.thresholds

/-- In steady runs at most one mail is owed, and what is noted is told or owed. -/
structure Telling (c : MailCounter) (s : MailWorld) : Prop where
  one : ∀ n ∈ s.notices, ∀ m ∈ s.notices, n.outcome = .owed → m.outcome = .owed →
    n.threshold = m.threshold
  current : ∀ n ∈ s.notices, n.expiresAt = c.ends
  told : ∀ n ∈ s.notices, ∃ m ∈ s.notices, n.threshold ≤ m.threshold ∧
    (m.outcome = .sent ∨ m.outcome = .owed)
  few : s.mailed ≤ 1
  round : ∀ moment todo, s.round = .sending moment todo →
    moment < c.ends ∧ s.mailed + todo.length ≤ 1 ∧ (∀ i ∈ todo, i ∈ owed s.notices) ∧
      (s.works → ∀ i ∈ owed s.notices, i ∈ todo) ∧
      ∀ t ∈ crossed c s.read, t ∈ s.notices.map MailNotice.threshold

section Steps

variable {c : MailCounter} {s t : MailWorld} {a : MailAct}

theorem Noted.start (usage : Usage) (budgets : List StoredBudget) :
    Noted c { usage, budgets } where
  once := List.nodup_nil
  named n hn := by cases hn

theorem Telling.start (usage : Usage) (budgets : List StoredBudget) :
    Telling c { usage, budgets } where
  one n hn := by cases hn
  current n hn := by cases hn
  told n hn := by cases hn
  few := Nat.zero_le _
  round moment todo h := by cases h

theorem crossed_nodup (share : Option ℤ) : (crossed c share).Nodup := c.distinct.filter _

theorem map_threshold_set {notices : List MailNotice} {i : ℕ} {n m : MailNotice}
    (hn : notices[i]? = some n) (hm : m.threshold = n.threshold) :
    (notices.set i m).map MailNotice.threshold = notices.map MailNotice.threshold := by
  rw [List.map_set, hm]
  obtain ⟨hi, rfl⟩ := List.getElem?_eq_some_iff.mp hn
  rw [← List.getElem_map MailNotice.threshold (h := by simpa using hi), List.set_getElem_self]

/-- What is owed after an owed notice was tried was owed before. -/
theorem exists_owed_of_mem_set {notices : List MailNotice} {n m settled : MailNotice}
    (hn : n ∈ notices) (howed : n.outcome = .owed) (hsettled : settled.threshold = n.threshold)
    (i : ℕ) (hm : m ∈ notices.set i settled) (hmowed : m.outcome = .owed) :
    ∃ k ∈ notices, k.outcome = .owed ∧ k.threshold = m.threshold := by
  rcases List.mem_or_eq_of_mem_set hm with hm | rfl
  · exact ⟨m, hm, hmowed, rfl⟩
  · exact ⟨n, hn, howed, hsettled.symm⟩

/-- What is told or owed stays so when the notice tried does. -/
theorem exists_told_set {notices : List MailNotice} {n m settled : MailNotice} {i : ℕ}
    (hn : notices[i]? = some n) (hsettled : settled.threshold = n.threshold)
    (hout : settled.outcome = .sent ∨ settled.outcome = .owed) (hm : m ∈ notices)
    (htold : m.outcome = .sent ∨ m.outcome = .owed) :
    ∃ k ∈ notices.set i settled, k.threshold = m.threshold ∧
      (k.outcome = .sent ∨ k.outcome = .owed) := by
  obtain ⟨j, hj⟩ := List.mem_iff_getElem?.mp hm
  by_cases hij : i = j
  · obtain rfl : n = m := Option.some.inj (hn.symm.trans (hij ▸ hj))
    exact ⟨settled, List.mem_set (List.getElem?_eq_some_iff.mp hn).1 _, hsettled, hout⟩
  · refine ⟨m, List.mem_iff_getElem?.mpr ⟨j, ?_⟩, rfl, htold⟩
    rw [List.getElem?_set_ne hij, hj]

/-- **A threshold is noted once**, whatever happens. -/
theorem Noted.step_keeps (h : Noted c s) (hst : step c s a = some t) : Noted c t := by
  cases a with
  | use tokens requests costNanos =>
    obtain rfl := Option.some.inj hst
    exact ⟨h.once, h.named⟩
  | rebudget budgets =>
    obtain rfl := Option.some.inj hst
    exact ⟨h.once, h.named⟩
  | owe moment =>
    rw [step] at hst
    split at hst
    · cases hst
    · obtain rfl := Option.some.inj hst
      constructor
      · rw [List.map_append, map_threshold_owe]
        refine h.once.append ((crossed_nodup _).filter _) ?_
        intro t ht hfresh
        simpa [ht] using (List.mem_filter.mp hfresh).2
      · intro n hn
        rcases List.mem_append.mp hn with hn | hn
        · exact h.named n hn
        · exact (List.mem_filter.mp (mem_owe hn).1).1
  | send d =>
    rw [step] at hst
    split at hst
    · next moment i todo _ =>
      split at hst
      · cases hst
      · next n hn =>
        obtain rfl := Option.some.inj hst
        have hthreshold := (n.settle_kept c (s.state c) d moment).threshold
        constructor
        · rw [map_threshold_set hn hthreshold]
          exact h.once
        · intro m hm
          rcases List.mem_or_eq_of_mem_set hm with hm | rfl
          · exact h.named m hm
          · rw [hthreshold]
            exact h.named n (List.mem_of_getElem? hn)
    · cases hst
  | finish =>
    rw [step] at hst
    split at hst
    · obtain rfl := Option.some.inj hst
      exact ⟨h.once, h.named⟩
    · cases hst

/-- At most one place is owed where all owed have one threshold. -/
theorem length_owed_le {notices : List MailNotice}
    (honce : (notices.map MailNotice.threshold).Nodup)
    (hone : ∀ n ∈ notices, ∀ m ∈ notices, n.outcome = .owed → m.outcome = .owed →
      n.threshold = m.threshold) : (owed notices).length ≤ 1 := by
  have hsame : ∀ i ∈ owed notices, ∀ j ∈ owed notices, i = j := by
    intro i hi j hj
    obtain ⟨n, hn, hnowed⟩ := mem_owed.mp hi
    obtain ⟨m, hm, hmowed⟩ := mem_owed.mp hj
    have hthreshold := hone n (List.mem_of_getElem? hn) m (List.mem_of_getElem? hm) hnowed hmowed
    refine (List.getElem?_inj ?_ honce).mp ?_
    · simpa using (List.getElem?_eq_some_iff.mp hn).1
    · rw [List.getElem?_map, List.getElem?_map, hn, hm, Option.map_some, Option.map_some,
        hthreshold]
  match hl : owed notices with
  | [] => exact Nat.zero_le _
  | [i] => exact le_refl _
  | i :: j :: rest =>
    have hnodup := owed_nodup notices
    rw [hl] at hnodup hsame
    have hij : i = j := hsame i (by simp) j (by simp)
    simp [hij] at hnodup

/-- A steady owing: what is new is owed alone, and what is noted stays told. -/
theorem Telling.step_owe (h : Telling c s) {moment : ℕ}
    (hok : s.Steady c (.owe moment)) (hst : step c s (.owe moment) = some t) (ht : Noted c t) :
    Telling c t := by
  rw [step] at hst
  split at hst
  · cases hst
  · obtain rfl := Option.some.inj hst
    obtain ⟨hcurrent, hsteady⟩ := hok
    replace hcurrent : moment < c.ends := hcurrent
    simp only [if_pos hcurrent] at ht ⊢
    obtain ⟨new, hnew⟩ : ∃ new, new =
      owe (crossed c (s.share c)) (s.notices.map MailNotice.threshold) c.ends moment := ⟨_, rfl⟩
    rw [← hnew] at ht ⊢
    -- a mail newly owed is above all noted, so no other is owed
    have hapart : ∀ n ∈ s.notices, ∀ m ∈ new, n.outcome = .owed → m.outcome ≠ .owed := by
      intro n hn m hm hnowed hmowed
      rw [hnew] at hm
      obtain ⟨k, hk, hle⟩ := hsteady ⟨n, hn, hnowed⟩ m.threshold (mem_owe hm).1
      have habove := (mailedThreshold_spec (mailed_of_owed hm hmowed)).2.2
      exact absurd (habove k.threshold (List.mem_map_of_mem hk)) (not_lt.mpr hle)
    have hone : ∀ n ∈ s.notices ++ new, ∀ m ∈ s.notices ++ new, n.outcome = .owed →
        m.outcome = .owed → n.threshold = m.threshold := by
      intro n hn m hm hnowed hmowed
      rcases List.mem_append.mp hn with hn | hn <;> rcases List.mem_append.mp hm with hm | hm
      · exact h.one n hn m hm hnowed hmowed
      · exact absurd hmowed (hapart n hn m hm hnowed)
      · exact absurd hnowed (hapart m hm n hn hmowed)
      · rw [hnew] at hn hm
        exact Option.some.inj
          ((mailed_of_owed hn hnowed).symm.trans (mailed_of_owed hm hmowed))
    have hlength := length_owed_le ht.once hone
    refine {
      one := hone
      current := fun n hn => ?_
      told := fun n hn => ?_
      few := Nat.zero_le _
      round := fun moment' todo hround => ?_ }
    · rcases List.mem_append.mp hn with hn | hn
      · exact h.current n hn
      · rw [hnew] at hn
        exact (mem_owe hn).2.2.1
    · rcases List.mem_append.mp hn with hn | hn
      · obtain ⟨m, hm, htold⟩ := h.told n hn
        exact ⟨m, List.mem_append_left _ hm, htold⟩
      · rw [hnew] at hn
        have hpos : ∀ u ∈ crossed c (s.share c), 1 ≤ u := fun u hu =>
          (c.percent u (List.mem_filter.mp hu).1).1
        rcases exists_owed_or_recorded hn hpos with ⟨m, hm, hle, howed⟩ | ⟨r, hr, hle⟩
        · rw [← hnew] at hm
          exact ⟨m, List.mem_append_right _ hm, hle, .inr howed⟩
        · obtain ⟨k, hk, rfl⟩ := List.mem_map.mp hr
          obtain ⟨m, hm, hkm, htold⟩ := h.told k hk
          exact ⟨m, List.mem_append_left _ hm, hle.trans hkm, htold⟩
    · obtain ⟨rfl, rfl⟩ : moment = moment' ∧ owed (s.notices ++ new) = todo := by
        simpa using hround
      refine ⟨hcurrent, by simpa using hlength, fun _ hi => hi, fun _ _ hi => hi, ?_⟩
      intro u hu
      rw [List.map_append, hnew, map_threshold_owe]
      by_cases hrecorded : u ∈ s.notices.map MailNotice.threshold
      · exact List.mem_append_left _ hrecorded
      · exact List.mem_append_right _ (List.mem_filter.mpr ⟨hu, by simpa using hrecorded⟩)

/-- A steady send: the mail goes out, or stays owed. -/
theorem Telling.step_send (h : Telling c s) (hnoted : Noted c s) {d : MailDelivery}
    (hok : s.Steady c (.send d)) (hst : step c s (.send d) = some t) : Telling c t := by
  rw [step] at hst
  split at hst
  · next moment i todo hround =>
    split at hst
    · cases hst
    · next n hn =>
      obtain rfl := Option.some.inj hst
      obtain ⟨⟨hfound, hattempts⟩, hreached⟩ := hok
      obtain ⟨hcurrent, hfew, hin, hworks, hcrossed⟩ := h.round moment (i :: todo) hround
      obtain ⟨n', hn', howed⟩ := mem_owed.mp (hin i (List.mem_cons_self ..))
      obtain rfl : n = n' := Option.some.inj (hn.symm.trans hn')
      have hmem : n ∈ s.notices := List.mem_of_getElem? hn
      have htrying : s.trying = some n := by rw [trying, hround]; exact hn
      have hcases := MailNotice.settle_cases (by rw [h.current n hmem]; exact hcurrent) howed
        (hnoted.named n hmem) (hreached n htrying) hfound (hattempts n htrying)
      obtain ⟨hnone, rfl⟩ : s.mailed = 0 ∧ todo = [] := by
        rw [List.length_cons] at hfew
        exact ⟨by omega, List.eq_nil_of_length_eq_zero (by omega)⟩
      have hkept := n.settle_kept c (s.state c) d moment
      obtain ⟨settled, hsettled⟩ : ∃ m, m = n.settle c (s.state c) d moment := ⟨_, rfl⟩
      rw [← hsettled] at hcases hkept ⊢
      have hout : settled.outcome = .sent ∨ settled.outcome = .owed :=
        hcases.imp And.left And.left
      refine {
        one := fun m hm k hk hmowed hkowed => ?_
        current := fun m hm => ?_
        told := fun m hm => ?_
        few := ?_
        round := fun moment' todo hround' => ?_ }
      · obtain ⟨m', hm', hmowed', hmt⟩ :=
          exists_owed_of_mem_set hmem howed hkept.threshold i hm hmowed
        obtain ⟨k', hk', hkowed', hkt⟩ :=
          exists_owed_of_mem_set hmem howed hkept.threshold i hk hkowed
        rw [← hmt, ← hkt]
        exact h.one m' hm' k' hk' hmowed' hkowed'
      · rcases List.mem_or_eq_of_mem_set hm with hm | rfl
        · exact h.current m hm
        · rw [hkept.expiresAt]
          exact h.current n hmem
      · obtain ⟨k, hk, hle, htold⟩ : ∃ k ∈ s.notices, m.threshold ≤ k.threshold ∧
            (k.outcome = .sent ∨ k.outcome = .owed) := by
          rcases List.mem_or_eq_of_mem_set hm with hm | rfl
          · exact h.told m hm
          · rw [hkept.threshold]
            exact h.told n hmem
        obtain ⟨k', hk', hthreshold, htold'⟩ := exists_told_set hn hkept.threshold hout hk htold
        exact ⟨k', hk', hthreshold ▸ hle, htold'⟩
      · dsimp only
        split_ifs <;> omega
      · obtain ⟨rfl, rfl⟩ : moment = moment' ∧ [] = todo := by
          simpa using hround'
        have hmailed : s.mailed + (if settled.outcome = .sent then 1 else 0) ≤ 1 := by
          split_ifs <;> omega
        refine ⟨hcurrent, hmailed, fun j hj => absurd hj List.not_mem_nil, fun hwork j hj => ?_, ?_⟩
        · obtain ⟨hworked, hattempt⟩ := Bool.and_eq_true_iff.mp hwork
          obtain ⟨m, hm, hmowed⟩ := mem_owed.mp hj
          by_cases hij : i = j
          · -- the delivery did not fail, so what was tried is sent
            subst hij
            rw [List.getElem?_set_self (List.getElem?_eq_some_iff.mp hn).1] at hm
            obtain rfl := Option.some.inj hm
            rcases hcases with ⟨hsent, -⟩ | ⟨-, hagain⟩
            · rw [hsent] at hmowed
              cases hmowed
            · rw [decide_eq_true_eq] at hattempt
              omega
          · rw [List.getElem?_set_ne hij] at hm
            have := hworks hworked j (mem_owed.mpr ⟨m, hm, hmowed⟩)
            rw [List.mem_singleton] at this
            exact absurd this.symm hij
        · rw [map_threshold_set hn hkept.threshold]
          exact hcrossed
  · cases hst

theorem Telling.step_keeps (h : Telling c s) (hnoted : Noted c s) (hok : s.Steady c a)
    (hst : step c s a = some t) : Telling c t := by
  cases a with
  | use tokens requests costNanos =>
    obtain rfl := Option.some.inj hst
    exact { h with }
  | rebudget budgets =>
    obtain rfl := Option.some.inj hst
    exact { h with }
  | owe moment => exact h.step_owe hok hst (hnoted.step_keeps hst)
  | send d => exact h.step_send hnoted hok hst
  | finish =>
    rw [step] at hst
    split at hst
    · obtain rfl := Option.some.inj hst
      exact { h with round := fun moment todo hround => by cases hround }
    · cases hst

end Steps

end MailWorld

open MailWorld

/-- **A crossing is told once.** In every run over a counter, whatever its usage and budgets do: no
threshold has two notices. And in every steady run: no round sends two mails about the counter, and
at the end of every round in which no delivery failed a mail of at least `t` has been sent for every
threshold `t` that the share has reached and the round read it had. -/
theorem told_once (c : MailCounter) (usage : Usage) (budgets : List StoredBudget)
    (acts : List MailAct) (s : MailWorld)
    (h : Run (step c) (fun _ _ => True) { usage, budgets } acts s) :
    (s.notices.map MailNotice.threshold).Nodup ∧
      (Run (step c) (Steady c) { usage, budgets } acts s →
        s.mailed ≤ 1 ∧
          ∀ moment, s.round = .sending moment [] → s.works →
            ∀ t ∈ crossed c s.read, t ∈ crossed c (s.share c) →
              ∃ n ∈ s.notices, n.outcome = .sent ∧ t ≤ n.threshold) := by
  have hnoted : Noted c s :=
    h.invariant (fun _ _ _ hs _ hst => hs.step_keeps hst) (Noted.start usage budgets)
  refine ⟨hnoted.once, fun hrun => ?_⟩
  have hboth : Noted c s ∧ Telling c s :=
    hrun.invariant (P := fun s => Noted c s ∧ Telling c s)
      (fun _ _ _ hs hok hst => ⟨hs.1.step_keeps hst, hs.2.step_keeps hs.1 hok hst⟩)
      ⟨Noted.start usage budgets, Telling.start usage budgets⟩
  refine ⟨hboth.2.few, fun moment hround hworks t ht _ => ?_⟩
  obtain ⟨-, -, -, hnone, hnoticed⟩ := hboth.2.round moment [] hround
  obtain ⟨n, hn, rfl⟩ := List.mem_map.mp (hnoticed t ht)
  obtain ⟨m, hm, hle, hsent | howed⟩ := hboth.2.told n hn
  · exact ⟨m, hm, hsent, hle⟩
  · obtain ⟨i, hi⟩ := List.mem_iff_getElem?.mp hm
    exact absurd (hnone hworks i (mem_owed.mpr ⟨m, hi, howed⟩)) List.not_mem_nil

/-- A use case's shared counter with three thresholds. -/
def sharedCounter : MailCounter where
  useCase := "uc"
  person := none
  period := "month"
  ends := 100
  thresholds := [80, 90, 100]
  distinct := by decide
  percent := by decide

def sharedBudget (limit : ℤ) : StoredBudget where
  useCase := "uc"
  scope := useCaseScope
  subject := []
  period := "month"
  limitCostNanos := none
  limitTokens := none
  limitRequests := some limit
  enabled := true
  id := 1

example : (sharedCounter.state [sharedBudget 200] ⟨0, 170, 0, 0⟩).map BudgetState.share = some 85 := by
  decide

/-- A share of 85 is told, then one of 100. -/
theorem told_once_twice : ∃ s : MailWorld, s.mailed ≤ 1 ∧
    s.notices.map (fun n => (n.threshold, n.outcome)) =
      [(80, .sent), (90, .superseded), (100, .sent)] ∧
    (s.notices.map MailNotice.threshold).Nodup := by
  have hrun : ∃ s, s.notices.map (fun n => (n.threshold, n.outcome)) =
      [(80, .sent), (90, .superseded), (100, .sent)] ∧
      Run (step sharedCounter) (Steady sharedCounter)
        { usage := ⟨0, 85, 0, 0⟩, budgets := [sharedBudget 100] }
        [.owe 1, .send (.found 1 none), .finish, .use 0 15 0, .owe 2, .send (.found 1 none)] s := by
    refine ⟨_, ?_, .cons (by decide) rfl (.cons (by decide) rfl (.cons (by decide) rfl
      (.cons (by decide) rfl (.cons (by decide) rfl (.cons (by decide) rfl (.nil _))))))⟩
    decide
  obtain ⟨s, hnotices, hrun⟩ := hrun
  obtain ⟨honce, hsteady⟩ := told_once _ _ _ _ s (hrun.mono fun _ _ _ => trivial)
  exact ⟨s, (hsteady hrun).1, hnotices, honce⟩

/-- A mail of 80 that fails and a mail of 90 go out in one round; and of a share of 100, whose
budget is raised between the two passes to leave 85, nothing is ever told. -/
theorem told_twice_or_never :
    (¬∀ (c : MailCounter) (usage : Usage) (budgets : List StoredBudget) (acts : List MailAct)
      (s : MailWorld), Run (step c) (Followed c) { usage, budgets } acts s → s.mailed ≤ 1) ∧
    ¬∀ (c : MailCounter) (usage : Usage) (budgets : List StoredBudget) (acts : List MailAct)
      (s : MailWorld), Run (step c) (Followed c) { usage, budgets } acts s →
        ∀ moment, s.round = .sending moment [] → s.works →
          ∀ t ∈ crossed c s.read, t ∈ crossed c (s.share c) →
            ∃ n ∈ s.notices, n.outcome = .sent ∧ t ≤ n.threshold := by
  constructor
  · intro h
    have hrun : ∃ s, s.mailed = 2 ∧ Run (step sharedCounter) (Followed sharedCounter)
        { usage := ⟨0, 80, 0, 0⟩, budgets := [sharedBudget 100] }
        [.owe 1, .send (.found 1 (some "down")), .finish, .use 0 10 0, .owe 2,
          .send (.found 1 none), .send (.found 1 none)] s := by
      refine ⟨_, ?_, .cons (by decide) rfl (.cons (by decide) rfl (.cons (by decide) rfl
        (.cons (by decide) rfl (.cons (by decide) rfl (.cons (by decide) rfl
        (.cons (by decide) rfl (.nil _)))))))⟩
      decide
    obtain ⟨s, htwo, hrun⟩ := hrun
    have := h _ _ _ _ s hrun
    omega
  · intro h
    have hrun : ∃ s, (s.round = .sending 1 [] ∧ s.works ∧ 80 ∈ crossed sharedCounter s.read ∧
        80 ∈ crossed sharedCounter (s.share sharedCounter) ∧
        ∀ n ∈ s.notices, n.outcome ≠ .sent) ∧
        Run (step sharedCounter) (Followed sharedCounter)
          { usage := ⟨0, 170, 0, 0⟩, budgets := [sharedBudget 170] }
          [.owe 1, .rebudget [sharedBudget 200], .send (.found 1 none)] s := by
      refine ⟨_, ?_, .cons (by decide) rfl (.cons (by decide) rfl (.cons (by decide) rfl
        (.nil _)))⟩
      decide
    obtain ⟨s, ⟨hround, hworks, hread, hnow, hnone⟩, hrun⟩ := hrun
    obtain ⟨n, hn, hsent, -⟩ := h _ _ _ _ s hrun 1 hround hworks 80 hread hnow
    exact hnone n hn hsent

end AiraGateway
