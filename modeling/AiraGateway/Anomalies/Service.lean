import AiraGateway.Anomalies.Evaluator

/-!
# What a round writes

A round goes through the rules that could have been affected, each in a savepoint of its own: what
a rule finds and has not found within its window is recorded, and where the rule's action is
carried out a suspension is written with it. A database error takes one rule's rows with it.

* `Spaced.evaluate`: two findings of a rule about one target are at least its window apart.
* `Told.evaluate`: every suspension has its event.
* `evaluate_of_failed`: a rule that fails leaves the round as it would have been without it.
-/

namespace AiraGateway.Anomalies

/-- What an event records where a rule's action could not be carried out. -/
def notEnforced : CodePoints := "detected_not_enforced"

/-- What an event records where a rule's action wrote a suspension. -/
def enforced : List CodePoints := ["blocked", "throttled"]

/-- The largest measurement a row holds. -/
def observedCeiling : ℤ := 2147483647

def RuleAction.value : RuleAction → CodePoints
  | .alert => "alert"
  | .throttle => "throttle"
  | .block => "block"

/-- One finding. -/
structure AnomalyEvent where
  createdAt : ℤ
  ruleId : ℤ
  ruleName : CodePoints
  kind : CodePoints
  useCase : Option CodePoints
  target : CodePoints
  targetValue : CodePoints
  observed : ℤ
  threshold : ℤ
  sample : ℤ
  windowMinutes : ℤ
  actionTaken : CodePoints
  detail : CodePoints
  deriving DecidableEq

/-- The decision a fired rule writes. -/
structure RuleSuspension where
  useCase : Option CodePoints
  target : CodePoints
  targetValue : CodePoints
  action : CodePoints
  throttleRpm : Option ℤ
  expiresAt : ℤ
  author : CodePoints
  reason : CodePoints
  deriving DecidableEq

/-- How a decision a rule wrote names its author. -/
def ruleAuthor : CodePoints := "rule:"

/-- Always with an expiry: a rule cannot lift its own. -/
def suspensionFromRule (ruleName : CodePoints) (useCase : Option CodePoints)
    (target targetValue action : CodePoints) (minutes : ℤ) (throttleRpm : Option ℤ)
    (detail : CodePoints) (now : ℤ) : RuleSuspension where
  useCase := useCase
  target := target
  targetValue := targetValue
  action := action
  throttleRpm := throttleRpm
  expiresAt := now + max minutes 1 * minute
  author := ruleAuthor ++ ruleName
  reason := detail.take 500

/-- What a transaction has added. -/
structure Written where
  events : List AnomalyEvent := []
  suspensions : List RuleSuspension := []
  deriving DecidableEq

section Rules

-- whether there are suspensions, and whether they stop anything here
variable (suspensions : Option Bool) (rounded : ℤ → ℤ → ℤ) (stored : List AnomalyEvent) (now : ℤ)

/-- Carry out a rule's action: what was done, and the suspension that does it. -/
def enforce (rule : AnomalyRuleRead) (finding : Finding) (action : RuleAction) :
    CodePoints × Option RuleSuspension :=
  if action = .alert then (RuleAction.value .alert, none)
  else match suspensions, rule.actionMinutes.filter (· ≠ 0) with
    | some true, some minutes =>
      (if action = .block then "blocked" else "throttled",
        some (suspensionFromRule rule.name rule.useCase rule.target finding.targetValue
          (RuleAction.value action) minutes rule.throttleRpm finding.detail now))
    | _, _ => (notEnforced, none)

/-- Whether a finding has been recorded within the rule's own window. -/
def firedRecently (events : List AnomalyEvent) (rule : AnomalyRuleRead)
    (targetValue : CodePoints) : Bool :=
  let cutoff := now - rule.windowMinutes * minute
  events.any fun event =>
    event.ruleId = rule.id && event.targetValue = targetValue && decide (cutoff < event.createdAt)

/-- The event of a finding, with what was done about it. -/
def findingEvent (rule : AnomalyRuleRead) (finding : Finding) (taken : CodePoints) :
    AnomalyEvent where
  createdAt := now
  ruleId := rule.id
  ruleName := rule.name
  kind := rule.kind
  useCase :=
    match rule.useCase with
    | some slug => some slug
    | none =>
      if rule.target = points RuleTarget.useCase.value then some finding.targetValue else none
  target := rule.target
  targetValue := finding.targetValue
  observed := min finding.observed observedCeiling
  threshold := rule.threshold
  sample := finding.sample
  windowMinutes := rule.windowMinutes
  actionTaken := taken
  detail := finding.detail.take 500

/-- Write a finding, unless the same one was written within the rule's own window. -/
def record (rule : AnomalyRuleRead) (finding : Finding) (written : Written) : Written :=
  if firedRecently now (stored ++ written.events) rule finding.targetValue then written
  else
    let (taken, suspension) := match ruleAction? rule.action with
      -- an action this build does not have
      | none => (notEnforced, none)
      | some action => enforce suspensions now rule finding action
    { suspensions := written.suspensions ++ suspension.toList
      events := written.events ++ [findingEvent now rule finding taken] }

/-- A rule's findings, recorded one after the other. Each asks the table first, which flushes what
was added before, and the last of it is flushed at the end; any of these may fail. -/
def recordAll (rule : AnomalyRuleRead) (errors : ℕ → Bool) :
    List Finding → ℕ → Written → Option Written
  | [], n, written => if errors n then none else some written
  | finding :: findings, n, written =>
    if errors n then none
    else recordAll rule errors findings (n + 1)
      (record suspensions stored now rule finding written)

/-- One rule in its savepoint, over the rows its queries see. -/
def savepoint (rule : AnomalyRuleRead) (seen : List RequestLog) (errors : ℕ → Bool)
    (written : Written) : Option Written :=
  -- the first to fail may be the measuring
  if errors 0 then none
  else recordAll suspensions stored now rule errors (evaluateRule rounded seen rule now) 1 written

/-- Every rule, in its own savepoint: one that fails leaves what was written before. -/
def evaluate (seen : AnomalyRuleRead → List RequestLog) (errors : AnomalyRuleRead → ℕ → Bool)
    (rules : List AnomalyRuleRead) (written : Written) : Written :=
  rules.foldl (fun written rule =>
    (savepoint suspensions rounded stored now rule (seen rule) (errors rule) written).getD written)
    written

/-- The enabled rules that could have been affected: global ones, and those of a use case that saw
traffic. -/
def applicable (rules : List AnomalyRuleRead) (touched : List (Option CodePoints)) :
    List AnomalyRuleRead :=
  if touched = [] then []
  else rules.filter fun rule => rule.enabled && (rule.useCase.isNone || rule.useCase ∈ touched)

/-- Whether the cache of suspensions is dropped once a round has been stored. -/
def dropsCache (written : Written) : Bool :=
  suspensions.isSome && written.events.any fun event => event.actionTaken ∈ enforced

end Rules

/-! ### One finding -/

section Findings

variable {suspensions : Option Bool} {rounded : ℤ → ℤ → ℤ} {stored : List AnomalyEvent} {now : ℤ}
  {rule : AnomalyRuleRead} {finding : Finding} {written : Written}

/-- Two findings of a rule about one target are at least its window apart. -/
def Apart (window : ℤ → ℤ) (earlier later : AnomalyEvent) : Prop :=
  earlier.ruleId = later.ruleId → earlier.targetValue = later.targetValue →
    earlier.createdAt + window later.ruleId * minute ≤ later.createdAt

/-- Events in the order they were written. -/
def Spaced (window : ℤ → ℤ) (events : List AnomalyEvent) : Prop := events.Pairwise (Apart window)

/-- A suspension and the event that says it was written. -/
structure Answers (suspension : RuleSuspension) (event : AnomalyEvent) : Prop where
  target : suspension.target = event.target
  targetValue : suspension.targetValue = event.targetValue
  author : suspension.author = ruleAuthor ++ event.ruleName
  action : suspension.action = RuleAction.value .block ∧ event.actionTaken = "blocked" ∨
    suspension.action = RuleAction.value .throttle ∧ event.actionTaken = "throttled"

/-- Every suspension has exactly one event that says it was written, and every such event its
suspension. -/
def Told (written : Written) : Prop :=
  List.Forall₂ Answers written.suspensions
    (written.events.filter fun event => event.actionTaken ∈ enforced)

/-- What carrying out an action says is what was done. -/
theorem enforce_cases (suspensions : Option Bool) (now : ℤ) (rule : AnomalyRuleRead)
    (finding : Finding) (action : RuleAction) :
    (∃ taken, enforce suspensions now rule finding action = (taken, none) ∧ taken ∉ enforced) ∨
      ∃ taken suspension,
        enforce suspensions now rule finding action = (taken, some suspension) ∧ taken ∈ enforced ∧
          Answers suspension (findingEvent now rule finding taken) := by
  unfold enforce
  by_cases halert : action = .alert
  · exact .inl ⟨_, if_pos halert, by decide⟩
  rw [if_neg halert]
  split
  · refine .inr ⟨_, _, rfl, ?_⟩
    by_cases hblock : action = .block
    · rw [if_pos hblock]
      exact ⟨by decide, rfl, rfl, rfl, .inl ⟨congrArg RuleAction.value hblock, rfl⟩⟩
    · rw [if_neg hblock]
      have hthrottle : action = .throttle := by
        revert halert hblock
        cases action <;> decide
      exact ⟨by decide, rfl, rfl, rfl, .inr ⟨congrArg RuleAction.value hthrottle, rfl⟩⟩
  · exact .inl ⟨_, rfl, by decide⟩

/-- **What recording a finding writes**: nothing, where it was recorded within the rule's window; an
event, and with it a suspension exactly where the event says one was written. -/
theorem record_cases (suspensions : Option Bool) (stored : List AnomalyEvent) (now : ℤ)
    (rule : AnomalyRuleRead) (finding : Finding) (written : Written) :
    record suspensions stored now rule finding written = written ∨
      ∃ (event : AnomalyEvent) (suspension : Option RuleSuspension),
        record suspensions stored now rule finding written =
          ⟨written.events ++ [event], written.suspensions ++ suspension.toList⟩ ∧
        event.ruleId = rule.id ∧ event.createdAt = now ∧
        (∀ earlier ∈ stored ++ written.events, earlier.ruleId = rule.id →
          earlier.targetValue = event.targetValue →
            earlier.createdAt + rule.windowMinutes * minute ≤ now) ∧
        (suspension = none ∧ event.actionTaken ∉ enforced ∨
          ∃ s, suspension = some s ∧ event.actionTaken ∈ enforced ∧ Answers s event) := by
  unfold record
  by_cases hfired : firedRecently now (stored ++ written.events) rule finding.targetValue = true
  · exact .inl (if_pos hfired)
  rw [if_neg hfired]
  right
  have hcooled : ∀ earlier ∈ stored ++ written.events, earlier.ruleId = rule.id →
      earlier.targetValue = finding.targetValue →
        earlier.createdAt + rule.windowMinutes * minute ≤ now := by
    intro earlier hmem hid hvalue
    by_contra hlate
    refine hfired (List.any_eq_true.mpr ⟨earlier, hmem, ?_⟩)
    have hafter : now - rule.windowMinutes * minute < earlier.createdAt := by omega
    simp only [hid, hvalue, hafter, decide_true, Bool.and_self]
  -- what is done about it comes with the event that says so
  match ruleAction? rule.action with
  | none =>
    exact ⟨findingEvent now rule finding notEnforced, none, rfl, rfl, rfl, hcooled,
      .inl ⟨rfl, (by decide : notEnforced ∉ enforced)⟩⟩
  | some action =>
    obtain ⟨taken, henforce, hnot⟩ | ⟨taken, s, henforce, htaken, hanswers⟩ :=
      enforce_cases suspensions now rule finding action
    · refine ⟨findingEvent now rule finding taken, none, ?_, rfl, rfl, hcooled, .inl ⟨rfl, hnot⟩⟩
      simp only [henforce]
    · refine ⟨findingEvent now rule finding taken, some s, ?_, rfl, rfl, hcooled,
        .inr ⟨s, rfl, htaken, hanswers⟩⟩
      simp only [henforce]

/-- Recording keeps the findings stored and written apart, and never reads an earlier moment than
the rule's last event about the target allows. -/
theorem Spaced.record {window : ℤ → ℤ} (hwindow : window rule.id = rule.windowMinutes)
    (h : Spaced window (stored ++ written.events)) :
    Spaced window
      (stored ++ (Anomalies.record suspensions stored now rule finding written).events) := by
  obtain heq | ⟨event, suspension, heq, hid, htime, hcooled, -⟩ :=
    record_cases suspensions stored now rule finding written
  · rw [heq]
    exact h
  · rw [heq, ← List.append_assoc]
    refine List.pairwise_append.mpr ⟨h, List.pairwise_singleton _ _, ?_⟩
    intro earlier hmem later hlater hrule hvalue
    obtain rfl := List.mem_singleton.mp hlater
    have hapart := hcooled earlier hmem (hrule.trans hid) hvalue
    rw [hid, hwindow, htime]
    exact hapart

theorem Told.record (h : Told written) :
    Told (Anomalies.record suspensions stored now rule finding written) := by
  obtain heq | ⟨event, suspension, heq, -, -, -, hsays⟩ :=
    record_cases suspensions stored now rule finding written
  · rw [heq]
    exact h
  · unfold Told at h ⊢
    rw [heq]
    simp only [List.filter_append]
    refine List.rel_append h ?_
    obtain ⟨rfl, hnot⟩ | ⟨s, rfl, htaken, hanswers⟩ := hsays
    · have hfilter : [event].filter (fun event => event.actionTaken ∈ enforced) = [] := by
        simp [hnot]
      rw [hfilter]
      exact .nil
    · have hfilter : [event].filter (fun event => event.actionTaken ∈ enforced) = [event] := by
        simp [htaken]
      rw [hfilter]
      exact .cons hanswers .nil

/-- Whatever recording adds is of the rule. -/
theorem mem_record {event : AnomalyEvent}
    (h : event ∈ (record suspensions stored now rule finding written).events) :
    event ∈ written.events ∨ event.ruleId = rule.id ∧ event.createdAt = now := by
  obtain heq | ⟨added, suspension, heq, hid, htime, -⟩ :=
    record_cases suspensions stored now rule finding written
  · rw [heq] at h
    exact .inl h
  · rw [heq] at h
    obtain hold | hnew := List.mem_append.mp h
    · exact .inl hold
    · obtain rfl := List.mem_singleton.mp hnew
      exact .inr ⟨hid, htime⟩

end Findings

/-! ### One rule -/

section Rounds

variable {suspensions : Option Bool} {rounded : ℤ → ℤ → ℤ} {stored : List AnomalyEvent} {now : ℤ}
  {rule : AnomalyRuleRead} {written : Written}

/-- What recording a finding keeps, recording all of them keeps. -/
theorem recordAll_induction {P : Written → Prop} {errors : ℕ → Bool}
    (hrecord : ∀ finding written, P written →
      P (record suspensions stored now rule finding written)) :
    ∀ {findings : List Finding} {n : ℕ} {written after : Written}, P written →
      recordAll suspensions stored now rule errors findings n written = some after → P after := by
  intro findings
  induction findings with
  | nil =>
    intro n written after h hafter
    rw [recordAll] at hafter
    split_ifs at hafter
    obtain rfl := Option.some.inj hafter
    exact h
  | cons finding findings ih =>
    intro n written after h hafter
    rw [recordAll] at hafter
    split_ifs at hafter
    exact ih (hrecord finding written h) hafter

/-- Whether any of a rule's statements fails. -/
def statementFails (errors : ℕ → Bool) (findings : List Finding) : Bool :=
  (List.range (findings.length + 2)).any errors

/-- Recording stops at the first statement that fails, whatever was written before. -/
theorem recordAll_eq_none_iff {errors : ℕ → Bool} :
    ∀ {findings : List Finding} {n : ℕ} {written : Written},
      recordAll suspensions stored now rule errors findings n written = none ↔
        ∃ k ≤ findings.length, errors (n + k) = true := by
  intro findings
  induction findings with
  | nil =>
    intro n written
    simp only [recordAll, List.length_nil, Nat.le_zero]
    constructor
    · intro h
      split_ifs at h with herror
      exact ⟨0, rfl, herror⟩
    · rintro ⟨k, rfl, herror⟩
      exact if_pos herror
  | cons finding findings ih =>
    intro n written
    rw [recordAll]
    by_cases herror : errors n = true
    · rw [if_pos herror]
      exact ⟨fun _ => ⟨0, Nat.zero_le _, herror⟩, fun _ => rfl⟩
    · rw [if_neg herror, ih, List.length_cons]
      constructor
      · rintro ⟨k, hk, hfails⟩
        exact ⟨k + 1, by omega, by rwa [Nat.add_right_comm, Nat.add_assoc] at hfails⟩
      · rintro ⟨k, hk, hfails⟩
        obtain ⟨k, rfl⟩ : ∃ j, k = j + 1 := by
          refine ⟨k - 1, ?_⟩
          have : k ≠ 0 := by
            rintro rfl
            exact herror hfails
          omega
        exact ⟨k, by omega, by rwa [Nat.add_assoc, Nat.add_comm 1 k]⟩

/-- A savepoint is rolled back exactly where one of the rule's statements fails. -/
theorem savepoint_eq_none_iff {seen : List RequestLog} {errors : ℕ → Bool} :
    savepoint suspensions rounded stored now rule seen errors written = none ↔
      statementFails errors (evaluateRule rounded seen rule now) = true := by
  unfold savepoint statementFails
  rw [List.any_eq_true]
  by_cases hfirst : errors 0 = true
  · rw [if_pos hfirst]
    exact ⟨fun _ => ⟨0, List.mem_range.mpr (by omega), hfirst⟩, fun _ => rfl⟩
  rw [if_neg hfirst, recordAll_eq_none_iff]
  constructor
  · rintro ⟨k, hk, herror⟩
    exact ⟨1 + k, List.mem_range.mpr (by omega), herror⟩
  · rintro ⟨k, hk, herror⟩
    have hlt := List.mem_range.mp hk
    have hne : k ≠ 0 := by
      rintro rfl
      exact hfirst herror
    exact ⟨k - 1, by omega, by rwa [Nat.add_sub_cancel' (by omega)]⟩

/-! ### A round -/

variable {seen : AnomalyRuleRead → List RequestLog} {errors : AnomalyRuleRead → ℕ → Bool}
  {rules : List AnomalyRuleRead}

/-- What recording keeps, a round keeps. -/
theorem evaluate_induction {P : Written → Prop}
    (hrecord : ∀ rule ∈ rules, ∀ finding written, P written →
      P (record suspensions stored now rule finding written)) (h : P written) :
    P (evaluate suspensions rounded stored now seen errors rules written) := by
  unfold evaluate
  induction rules generalizing written with
  | nil => exact h
  | cons rule rules ih =>
    rw [List.foldl_cons]
    refine ih (fun rule hrule => hrecord rule (List.mem_cons_of_mem _ hrule)) ?_
    cases hsaved : savepoint suspensions rounded stored now rule (seen rule) (errors rule)
        written with
    | none => exact h
    | some after =>
      unfold savepoint at hsaved
      split_ifs at hsaved
      exact recordAll_induction (hrecord rule (List.mem_cons_self ..)) h hsaved

/-- **Cooldown**: a round keeps the findings stored and written apart. -/
theorem Spaced.evaluate {window : ℤ → ℤ}
    (hwindow : ∀ rule ∈ rules, window rule.id = rule.windowMinutes)
    (h : Spaced window (stored ++ written.events)) :
    Spaced window (stored ++
      (Anomalies.evaluate suspensions rounded stored now seen errors rules written).events) :=
  evaluate_induction (P := fun written => Spaced window (stored ++ written.events))
    (fun rule hrule _ _ h => h.record (hwindow rule hrule)) h

/-- **One suspension, one event that says so**. -/
theorem Told.evaluate (h : Told written) :
    Told (Anomalies.evaluate suspensions rounded stored now seen errors rules written) :=
  evaluate_induction (fun _ _ _ _ h => h.record) h

/-- Whatever a round writes is of one of its rules. -/
theorem mem_evaluate {event : AnomalyEvent}
    (h : event ∈ (evaluate suspensions rounded stored now seen errors rules {}).events) :
    ∃ rule ∈ rules, event.ruleId = rule.id ∧ event.createdAt = now := by
  refine evaluate_induction
    (P := fun written => ∀ event ∈ written.events, ∃ rule ∈ rules,
      event.ruleId = rule.id ∧ event.createdAt = now) ?_ ?_ event h
  · intro rule hrule finding written hwritten event hevent
    obtain hold | hnew := mem_record hevent
    · exact hwritten event hold
    · exact ⟨rule, hrule, hnew⟩
  · intro event hevent
    exact absurd hevent (List.not_mem_nil)

/-- **A rule that fails**: what the round writes is what it would have written without it. -/
theorem evaluate_of_failed
    (hfails : statementFails (errors rule) (evaluateRule rounded (seen rule) rule now) = true) :
    evaluate suspensions rounded stored now seen errors rules written =
      evaluate suspensions rounded stored now seen errors (rules.filter (· ≠ rule)) written := by
  unfold evaluate
  induction rules generalizing written with
  | nil => rfl
  | cons first rules ih =>
    rw [List.foldl_cons]
    by_cases hrule : first = rule
    · subst hrule
      rw [List.filter_cons_of_neg (by simp), savepoint_eq_none_iff.mpr hfails]
      exact ih
    · rw [List.filter_cons_of_pos (by simpa using hrule), List.foldl_cons]
      exact ih

/-- No row of a rule that fails is written. -/
theorem ne_of_mem_evaluate_of_failed (hnodup : (rules.map AnomalyRuleRead.id).Nodup)
    (hrule : rule ∈ rules)
    (hfails : statementFails (errors rule) (evaluateRule rounded (seen rule) rule now) = true)
    {event : AnomalyEvent}
    (h : event ∈ (evaluate suspensions rounded stored now seen errors rules {}).events) :
    event.ruleId ≠ rule.id := by
  rw [evaluate_of_failed hfails] at h
  obtain ⟨other, hother, hid, -⟩ := mem_evaluate h
  obtain ⟨hmem, hne⟩ := List.mem_filter.mp hother
  intro hsame
  have heq : other = rule := List.inj_on_of_nodup_map hnodup hmem hrule (hid.symm.trans hsame)
  exact (of_decide_eq_true hne) heq

end Rounds

end AiraGateway.Anomalies
