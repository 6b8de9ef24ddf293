import AiraGateway.Consumer.Apply
import AiraGateway.Library.Delivery

/-!
# What the read-model converges to

The events of one use case arrive on seven topics with no order between them, each delivered at
least once and any suffix of it again. Retirement therefore races every event that writes
something the use case grants.

* **One event** (`Retired.applyEvent`): once a use case is retired, only its purge ends that. A
  late grant is refused by the tombstone, and a configuration that arrives again does not lift it.
* **A key's row** (`apiKeys_applyEvent`, `apiKeys_applyEvent_new`): what any event can do to it.
  No event activates a row that exists.
* **A run** (`retired_converges`): whenever the use case's own topic has been delivered to its
  end and ends in the retirement, nothing the use case granted is left, whatever the other
  topics have delivered and however often anything was delivered again; and a deactivated key is
  never active again.
-/

namespace AiraGateway

/-- Nothing a use case granted is left, no key of it is active, and its row is a tombstone. -/
structure Retired (slug : Text) (s : ReadModel) : Prop where
  members : s.members.Lacks fun key _ => key.1 = slug
  groups : s.groups.Lacks fun key _ => key.1 = slug
  apiKeys : s.apiKeys.Lacks fun _ row => row.useCase = some slug ∧ row.isActive = true
  pipelines : s.pipelines.Lacks fun key _ => key = slug
  budgets : s.budgets.Lacks fun _ row => row.useCase = slug
  rateLimits : s.rateLimits.Lacks fun _ row => row.useCase = slug
  anomalyRules : s.anomalyRules.Lacks fun _ row => row.useCase = some slug
  tombstone : ∃ row, s.useCases slug = some row ∧ row.deletedAt.isSome = true

/-- A key's row is there and deactivated. -/
def Deactivated (pfx : Text) (s : ReadModel) : Prop :=
  ∃ row, s.apiKeys pfx = some row ∧ row.isActive = false

variable {slug pfx : Text} {s : ReadModel} {now : Moment} {e : Event}

/-! ### What one event does to a key -/

/-- Whether an event's handler writes the table of keys. -/
def Event.writesKeys : Event → Bool
  | .usecaseDeleted _ | .apiKeyCreated _ | .apiKeyRevoked _ => true
  | _ => false

/-- Every other handler leaves the keys alone, refused or not. -/
theorem applyEvent_apiKeys (h : e.writesKeys = false) :
    (applyEvent now s e).apiKeys = s.apiKeys := by
  cases e with
  | usecaseDeleted payload => exact absurd h (by simp [Event.writesKeys])
  | apiKeyCreated payload => exact absurd h (by simp [Event.writesKeys])
  | apiKeyRevoked pfx => exact absurd h (by simp [Event.writesKeys])
  | membershipUpserted payload => rw [applyEvent, upsertMember]; split <;> rfl
  | useCaseGroupGranted payload => rw [applyEvent, upsertGroupGrant]; split <;> rfl
  | pipelineUpserted payload => rw [applyEvent, upsertPipeline]; split <;> rfl
  | budgetUpserted payload => rw [applyEvent, upsertBudget]; split <;> rfl
  | ratelimitUpserted payload => rw [applyEvent, upsertRateLimit]; split <;> rfl
  | anomalyRuleUpserted payload =>
    rw [applyEvent, upsertAnomalyRule]
    split
    · rfl
    · split <;> rfl
  | _ => rfl

theorem retireUsecase_apiKeys {payload : UseCasePayload} :
    (applyEvent now s (.usecaseDeleted payload)).apiKeys =
      s.apiKeys.updateWhere (fun _ row => row.useCase = some payload.slug)
        fun row => { row with isActive := false } := rfl

theorem revokeApiKey_apiKeys :
    (applyEvent now s (.apiKeyRevoked pfx)).apiKeys =
      s.apiKeys.updateWhere (fun key _ => key = pfx) fun row =>
        { row with isActive := false, revokedAt := some (row.revokedAt.getD now) } := rfl

/-- **No event activates a key that exists**, takes its row away, or gives it to a use case other
than the one the event creates the key for. -/
theorem apiKeys_applyEvent {row : ApiKey} (h : s.apiKeys pfx = some row) :
    ∃ row', (applyEvent now s e).apiKeys pfx = some row' ∧
      (row'.isActive = true → row.isActive = true ∧ e ≠ .apiKeyRevoked pfx) ∧
      (row'.useCase = row.useCase ∨
        ∃ payload, e = .apiKeyCreated payload ∧ payload.pfx = pfx ∧
          row'.useCase = payload.useCase) := by
  cases hw : e.writesKeys with
  | false =>
    refine ⟨row, by rw [applyEvent_apiKeys hw, h], fun hactive => ⟨hactive, ?_⟩, .inl rfl⟩
    rintro rfl
    exact absurd hw (by simp [Event.writesKeys])
  | true =>
    cases e with
    | usecaseDeleted payload =>
      rw [retireUsecase_apiKeys]
      refine ⟨_, Table.updateWhere_eq_some.mpr ⟨row, h, rfl⟩, fun hactive => ?_, .inl ?_⟩
      · by_cases hrow : row.useCase = some payload.slug
        · simp [hrow] at hactive
        · simpa [hrow] using hactive
      · split <;> rfl
    | apiKeyCreated payload =>
      by_cases hpfx : pfx = payload.pfx
      · subst hpfx
        refine ⟨_, Table.upsert_self, ?_, .inr ⟨payload, rfl, rfl, ?_⟩⟩
        · simp [h]
        · simp [h]
      · exact ⟨row, (Table.upsert_of_ne hpfx).trans h, fun hactive => ⟨hactive, by simp⟩, .inl rfl⟩
    | apiKeyRevoked other =>
      rw [revokeApiKey_apiKeys]
      refine ⟨_, Table.updateWhere_eq_some.mpr ⟨row, h, rfl⟩, fun hactive => ?_, .inl ?_⟩
      · by_cases hpfx : pfx = other
        · simp [hpfx] at hactive
        · simpa [hpfx, Ne.symm hpfx] using hactive
      · split <;> rfl
    | _ => exact absurd hw (by simp [Event.writesKeys])

/-- A key's row that was not there is one the event creates: for the use case the event names,
and active only where that use case is not retired. -/
theorem apiKeys_applyEvent_new {row : ApiKey} (h : s.apiKeys pfx = none)
    (hnew : (applyEvent now s e).apiKeys pfx = some row) :
    ∃ payload, e = .apiKeyCreated payload ∧ payload.pfx = pfx ∧ row.useCase = payload.useCase ∧
      row.isActive = !isRetired s payload.useCase := by
  cases hw : e.writesKeys with
  | false =>
    rw [applyEvent_apiKeys hw, h] at hnew
    exact absurd hnew (by simp)
  | true =>
    cases e with
    | usecaseDeleted payload =>
      rw [retireUsecase_apiKeys] at hnew
      obtain ⟨old, hold, -⟩ := Table.updateWhere_eq_some.mp hnew
      exact absurd (h.symm.trans hold) (by simp)
    | apiKeyCreated payload =>
      rcases Table.upsert_eq_some.mp hnew with ⟨rfl, hrow⟩ | ⟨-, hold⟩
      · rw [h, Option.elim_none] at hrow
        subst hrow
        exact ⟨payload, rfl, rfl, rfl, rfl⟩
      · exact absurd (h.symm.trans hold) (by simp)
    | apiKeyRevoked other =>
      rw [revokeApiKey_apiKeys] at hnew
      obtain ⟨old, hold, -⟩ := Table.updateWhere_eq_some.mp hnew
      exact absurd (h.symm.trans hold) (by simp)
    | _ => exact absurd hw (by simp [Event.writesKeys])

/-- Revocation and deactivation are terminal. -/
theorem Deactivated.applyEvent (h : Deactivated pfx s) : Deactivated pfx (applyEvent now s e) := by
  obtain ⟨row, hrow, hinactive⟩ := h
  obtain ⟨row', hrow', hactive, -⟩ := apiKeys_applyEvent hrow
  refine ⟨row', hrow', Bool.eq_false_iff.mpr fun h => ?_⟩
  rw [(hactive h).1] at hinactive
  exact absurd hinactive (by decide)

/-- A revocation deactivates the key it names, if there is one. -/
theorem deactivated_revoke {row : ApiKey} (h : s.apiKeys pfx = some row) :
    Deactivated pfx (applyEvent now s (.apiKeyRevoked pfx)) := by
  obtain ⟨row', hrow', hactive, -⟩ := apiKeys_applyEvent h
  exact ⟨row', hrow', Bool.eq_false_iff.mpr fun h => (hactive h).2 rfl⟩

/-! ### What one event does to a retired use case -/

theorem Retired.isRetired (h : Retired slug s) (hslug : slug ≠ []) :
    isRetired s (some slug) = true := by
  obtain ⟨row, hrow, hdeleted⟩ := h.tombstone
  cases slug with
  | nil => exact absurd rfl hslug
  | cons c rest => simpa [AiraGateway.isRetired, hrow] using hdeleted

/-- A use case whose events are not refused is another one. -/
private theorem Retired.ne_of_not (h : Retired slug s) (hslug : slug ≠ []) {other : Text}
    (hother : ¬AiraGateway.isRetired s (some other) = true) : other ≠ slug := by
  rintro rfl
  exact hother (h.isRetired hslug)

/-- **Retirement ends everything** the use case granted, whatever was there. -/
theorem retired_retireUsecase {payload : UseCasePayload} :
    Retired payload.slug (applyEvent now s (.usecaseDeleted payload)) where
  members := Table.lacks_deleteWhere fun key row h => by simpa using h
  groups := Table.lacks_deleteWhere fun key row h => by simpa using h
  apiKeys := by
    intro key row hrow ⟨huse, hactive⟩
    rw [retireUsecase_apiKeys] at hrow
    obtain ⟨old, -, rfl⟩ := Table.updateWhere_eq_some.mp hrow
    by_cases hold : old.useCase = some payload.slug
    · simp [hold] at hactive
    · simp [hold] at huse
  pipelines := Table.lacks_deleteWhere fun key row h => by simpa using h
  budgets := Table.lacks_deleteWhere fun key row h => by simpa using h
  rateLimits := Table.lacks_deleteWhere fun key row h => by simpa using h
  anomalyRules := Table.lacks_deleteWhere fun key row h => by simpa using h
  tombstone := by
    refine ⟨_, Table.upsert_self, ?_⟩
    cases s.useCases payload.slug <;> rfl

/-- No event makes a key of a retired use case active, provided the key a creation names was not
another use case's. -/
private theorem Retired.lacks_apiKeys (h : Retired slug s) (hslug : slug ≠ [])
    (hkey : ∀ payload row, e = .apiKeyCreated payload → s.apiKeys payload.pfx = some row →
      payload.useCase = some slug → row.useCase = some slug) :
    (applyEvent now s e).apiKeys.Lacks fun _ row =>
      row.useCase = some slug ∧ row.isActive = true := by
  intro pfx row hrow ⟨huse, hactive⟩
  cases hold : s.apiKeys pfx with
  | none =>
    -- a key of a retired use case is written deactivated
    obtain ⟨payload, -, -, huse', hactive'⟩ := apiKeys_applyEvent_new hold hrow
    rw [huse] at huse'
    rw [hactive, ← huse', h.isRetired hslug] at hactive'
    exact absurd hactive' (by decide)
  | some old =>
    obtain ⟨row', hrow', hkeep, hsame⟩ := apiKeys_applyEvent hold
    obtain rfl : row' = row := Option.some.inj (hrow'.symm.trans hrow)
    refine h.apiKeys pfx old hold ⟨?_, (hkeep hactive).1⟩
    rcases hsame with hsame | ⟨payload, rfl, rfl, hnamed⟩
    · rw [← hsame, huse]
    · exact hkey payload old rfl hold (hnamed.symm.trans huse)

/-- **Only a purge ends retirement.** Late grants are refused, deletions and other use cases'
events do not concern it, and the configuration delivered again leaves the tombstone. -/
theorem Retired.applyEvent (h : Retired slug s) (hslug : slug ≠ []) (he : e ≠ .usecasePurged slug)
    (hkey : ∀ payload row, e = .apiKeyCreated payload → s.apiKeys payload.pfx = some row →
      payload.useCase = some slug → row.useCase = some slug) :
    Retired slug (applyEvent now s e) := by
  have hkeys : (AiraGateway.applyEvent now s e).apiKeys.Lacks fun _ row =>
      row.useCase = some slug ∧ row.isActive = true := h.lacks_apiKeys hslug hkey
  cases e with
  | usecaseUpserted payload =>
    -- overwriting the configuration keeps `deletedAt`
    refine { h with tombstone := ?_ }
    obtain ⟨row, hrow, hdeleted⟩ := h.tombstone
    by_cases hp : slug = payload.slug
    · subst hp
      exact ⟨_, Table.upsert_self, by simpa [hrow] using hdeleted⟩
    · exact ⟨row, (Table.upsert_of_ne hp).trans hrow, hdeleted⟩
  | usecaseDeleted payload =>
    by_cases hp : slug = payload.slug
    · subst hp
      exact retired_retireUsecase
    · obtain ⟨row, hrow, hdeleted⟩ := h.tombstone
      exact
        { members := h.members.deleteWhere
          groups := h.groups.deleteWhere
          apiKeys := hkeys
          pipelines := h.pipelines.deleteWhere
          budgets := h.budgets.deleteWhere
          rateLimits := h.rateLimits.deleteWhere
          anomalyRules := h.anomalyRules.deleteWhere
          tombstone := ⟨row, (Table.upsert_of_ne hp).trans hrow, hdeleted⟩ }
  | usecasePurged other =>
    obtain ⟨row, hrow, hdeleted⟩ := h.tombstone
    have hother : ¬slug = other := by
      rintro rfl
      exact he rfl
    have hkept : (purgeUsecase s other).useCases slug = some row := by
      rw [purgeUsecase, Table.deleteWhere_eq_some]
      exact ⟨hrow, by simpa using hother⟩
    exact { h with tombstone := ⟨row, hkept, hdeleted⟩ }
  | membershipUpserted payload =>
    -- a grant of this use case is refused by the tombstone; one that is not is another's
    rw [AiraGateway.applyEvent, upsertMember]
    split_ifs with hret
    · exact h
    · exact { h with members := h.members.upsert (h.ne_of_not hslug hret) }
  | useCaseGroupGranted payload =>
    rw [AiraGateway.applyEvent, upsertGroupGrant]
    split_ifs with hret
    · exact h
    · exact { h with groups := h.groups.upsert (h.ne_of_not hslug hret) }
  | pipelineUpserted payload =>
    rw [AiraGateway.applyEvent, upsertPipeline]
    split_ifs with hret
    · exact h
    · exact { h with pipelines := h.pipelines.upsert (h.ne_of_not hslug hret) }
  | budgetUpserted payload =>
    rw [AiraGateway.applyEvent, upsertBudget]
    split_ifs with hret
    · exact h
    · refine { h with budgets := h.budgets.upsert ?_ }
      cases s.budgets payload.id <;> exact h.ne_of_not hslug hret
  | ratelimitUpserted payload =>
    rw [AiraGateway.applyEvent, upsertRateLimit]
    split_ifs with hret
    · exact h
    · refine { h with rateLimits := h.rateLimits.upsert ?_ }
      cases s.rateLimits payload.id <;> exact h.ne_of_not hslug hret
  | anomalyRuleUpserted payload =>
    rw [AiraGateway.applyEvent, upsertAnomalyRule]
    cases huse : payload.useCase with
    | none => exact h
    | some useCase =>
      simp only
      split_ifs with hret
      · exact h
      · refine { h with anomalyRules := h.anomalyRules.upsert ?_ }
        -- a global rule is not refused, and is not the use case's
        have hother : useCase ≠ some slug := by
          rintro rfl
          exact hret (h.isRetired hslug)
        cases s.anomalyRules payload.id <;> exact hother
  | apiKeyCreated payload => exact { h with apiKeys := hkeys }
  | apiKeyRevoked pfx => exact { h with apiKeys := hkeys }
  | membershipRemoved _ username => exact { h with members := h.members.deleteWhere }
  | useCaseGroupRevoked _ group => exact { h with groups := h.groups.deleteWhere }
  | pipelineDeleted useCase => exact { h with pipelines := h.pipelines.deleteWhere }
  | budgetDeleted id => exact { h with budgets := h.budgets.deleteWhere }
  | ratelimitDeleted id => exact { h with rateLimits := h.rateLimits.deleteWhere }
  | anomalyRuleDeleted id => exact { h with anomalyRules := h.anomalyRules.deleteWhere }

/-! ### The topics of one use case -/

/-- The topics the events about use cases and their grants are published on. -/
inductive Topic
  | usecases
  | memberships
  | apiKeys
  | pipelines
  | budgets
  | ratelimits
  | anomalyRules
  deriving DecidableEq, Repr

/-- Where an event is published. Group grants share the memberships' topic. -/
def Event.topic : Event → Topic
  | .usecaseUpserted _ | .usecaseDeleted _ | .usecasePurged _ => .usecases
  | .membershipUpserted _ | .membershipRemoved _ _ => .memberships
  | .useCaseGroupGranted _ | .useCaseGroupRevoked _ _ => .memberships
  | .apiKeyCreated _ | .apiKeyRevoked _ => .apiKeys
  | .pipelineUpserted _ | .pipelineDeleted _ => .pipelines
  | .budgetUpserted _ | .budgetDeleted _ => .budgets
  | .ratelimitUpserted _ | .ratelimitDeleted _ => .ratelimits
  | .anomalyRuleUpserted _ | .anomalyRuleDeleted _ => .anomalyRules

/-- Whether an event is one of a use case's: it names that use case wherever it names one. A rule
may name none, by which it is skipped. -/
def Event.concerns (slug : Text) : Event → Prop
  | .usecaseUpserted payload | .usecaseDeleted payload => payload.slug = slug
  | .usecasePurged named => named = slug
  | .membershipUpserted payload => payload.slug = slug
  | .membershipRemoved named _ => named = slug
  | .useCaseGroupGranted payload => payload.slug = slug
  | .useCaseGroupRevoked named _ => named = slug
  | .apiKeyCreated payload => payload.useCase = some slug
  | .pipelineUpserted payload => payload.useCase = slug
  | .pipelineDeleted useCase => useCase = slug
  | .budgetUpserted payload => payload.useCase = slug
  | .ratelimitUpserted payload => payload.useCase = slug
  | .anomalyRuleUpserted payload => payload.useCase = none ∨ payload.useCase = some (some slug)
  | .apiKeyRevoked _ | .budgetDeleted _ | .ratelimitDeleted _ | .anomalyRuleDeleted _ => True

/-- The logs of one use case, each holding its own topic's events. -/
structure OfUseCase (slug : Text) (logs : Topic → List Event) : Prop where
  topic : ∀ t, ∀ e ∈ logs t, e.topic = t
  concerns : ∀ t, ∀ e ∈ logs t, e.concerns slug

/-- A key that the logs create, where it is already there, is the use case's: a prefix is issued
once. A read-model with no keys is so. -/
def KeysOf (slug : Text) (logs : Topic → List Event) (s : ReadModel) : Prop :=
  ∀ t payload row, .apiKeyCreated payload ∈ logs t → s.apiKeys payload.pfx = some row →
    row.useCase = some slug

/-! ### Runs -/

section Delivered

variable {logs : Topic → List Event} {d d' : Delivery Topic ReadModel}
  {ok : Delivery Topic ReadModel → Delivery.Act Topic Moment → Prop}
  {acts acts' : List (Delivery.Act Topic Moment)}

/-- Every event of a use case keeps its keys its own. -/
theorem KeysOf.applyEvent (hlogs : OfUseCase slug logs) {t : Topic} (he : e ∈ logs t)
    (h : KeysOf slug logs s) : KeysOf slug logs (applyEvent now s e) := by
  intro t' payload row hmem hrow
  cases hold : s.apiKeys payload.pfx with
  | none =>
    obtain ⟨created, rfl, -, huse, -⟩ := apiKeys_applyEvent_new hold hrow
    exact huse.trans (hlogs.concerns t _ he)
  | some old =>
    obtain ⟨row', hrow', -, hsame⟩ := apiKeys_applyEvent (e := e) hold
    obtain rfl : row' = row := Option.some.inj (hrow'.symm.trans hrow)
    rcases hsame with hsame | ⟨created, rfl, -, huse⟩
    · exact hsame.trans (h t' payload old hmem hold)
    · exact huse.trans (hlogs.concerns t _ he)

/-- Once a use case's topic is delivered to an end that retires it, it is retired. -/
theorem retired_of_delivered {payload : UseCasePayload} (hslug : slug ≠ [])
    (hlogs : OfUseCase slug logs)
    (hlast : (logs .usecases).getLast? = some (.usecaseDeleted payload))
    (hkeys : KeysOf slug logs s)
    (run : Run (Delivery.step applyEvent logs) ok (.start s) acts d)
    (hend : d.cursor .usecases = (logs .usecases).length) : Retired slug d.model := by
  refine Delivery.holds_at_end (P := KeysOf slug logs) ?_ hlast ?_ ?_ run hkeys hend
  · intro t e he now s h
    exact h.applyEvent hlogs he
  · -- no invariant but the keys' is needed: the retirement sweeps whatever it meets
    intro now s _
    obtain rfl : payload.slug = slug := hlogs.concerns _ _ (List.mem_of_getLast? hlast)
    exact retired_retireUsecase
  · intro t ht e he now s howned hretired
    refine hretired.applyEvent hslug ?_ ?_
    · -- the purge is on the use case's own topic
      rintro rfl
      exact ht (hlogs.topic t _ he).symm
    · rintro payload row rfl hrow -
      exact howned t payload row he hrow

/-- A deactivated key stays so over every run. -/
theorem Deactivated.run (run : Run (Delivery.step AiraGateway.applyEvent logs) ok d acts d')
    (h : Deactivated pfx d.model) : Deactivated pfx d'.model :=
  Delivery.model_invariant (fun _ _ _ _ _ h => h.applyEvent) run h

/-- What the delivered part of the keys' log says of the table: created keys are there, and those
revoked after that are deactivated. -/
private structure KeysDelivered (log : List Event) (c : ℕ) (s : ReadModel) : Prop where
  created : ∀ (i : ℕ) (key : ApiKeyPayload), i < c → log[i]? = some (.apiKeyCreated key) →
    ∃ row, s.apiKeys key.pfx = some row
  revoked : ∀ (i j : ℕ) (key : ApiKeyPayload), i < j → j < c →
    log[i]? = some (.apiKeyCreated key) → log[j]? = some (.apiKeyRevoked key.pfx) →
    Deactivated key.pfx s

private theorem KeysDelivered.keep {log : List Event} {c : ℕ} (h : KeysDelivered log c s) :
    KeysDelivered log c (applyEvent now s e) where
  created i key hi hkey := by
    obtain ⟨row, hrow⟩ := h.created i key hi hkey
    obtain ⟨row', hrow', -⟩ := apiKeys_applyEvent (e := e) hrow
    exact ⟨row', hrow'⟩
  revoked i j key hij hj hkey hrev := (h.revoked i j key hij hj hkey hrev).applyEvent

private theorem KeysDelivered.next {log : List Event} {c : ℕ} (h : KeysDelivered log c s)
    (he : log[c]? = some e) : KeysDelivered log (c + 1) (applyEvent now s e) where
  created i key hi hkey := by
    rcases Nat.lt_succ_iff_lt_or_eq.mp hi with hi | rfl
    · exact h.keep.created i key hi hkey
    · obtain rfl : e = .apiKeyCreated key := Option.some.inj (he.symm.trans hkey)
      exact ⟨_, Table.upsert_self⟩
  revoked i j key hij hj hkey hrev := by
    rcases Nat.lt_succ_iff_lt_or_eq.mp hj with hj | rfl
    · exact h.keep.revoked i j key hij hj hkey hrev
    · obtain rfl : e = .apiKeyRevoked key.pfx := Option.some.inj (he.symm.trans hrev)
      obtain ⟨row, hrow⟩ := h.created i key hij hkey
      exact deactivated_revoke hrow

/-- Once the revocation of a key the log creates is delivered, the key is deactivated. -/
theorem deactivated_of_delivered {i j : ℕ} {key : ApiKeyPayload} (hij : i < j)
    (hcreated : (logs .apiKeys)[i]? = some (.apiKeyCreated key))
    (hrevoked : (logs .apiKeys)[j]? = some (.apiKeyRevoked key.pfx))
    (run : Run (Delivery.step applyEvent logs) ok (.start s) acts d)
    (hj : j < d.cursor .apiKeys) : Deactivated key.pfx d.model := by
  have h : KeysDelivered (logs .apiKeys) (d.cursor .apiKeys) d.model := by
    refine Delivery.cursor_invariant (P := fun _ => True) (Φ := KeysDelivered (logs .apiKeys))
      (fun _ _ _ _ _ _ => trivial) ?_ ?_ ?_ run trivial ?_
    · intro c e now s _ he h
      exact h.next he
    · intro t _ e _ c now s _ h
      exact h.keep
    · intro c n s hn h
      exact ⟨fun i key hi => h.created i key (by omega),
        fun i j key hij hj => h.revoked i j key hij (by omega)⟩
    · exact ⟨fun i key hi => absurd hi (Nat.not_lt_zero i),
        fun i j key _ hj => absurd hj (Nat.not_lt_zero j)⟩
  exact h.revoked i j key hij hj hcreated hrevoked

/-- **The read-model converges.** In every run over the logs of one use case, from any read-model
in which its keys are its own, with any interleaving of the topics and any suffix delivered again:

* whenever the use case's topic is delivered to its end and its last event is the retirement,
  nothing the use case granted is left, no key of it is active and its row is a tombstone;
* a key whose row is deactivated is deactivated at every later step;
* so is a key the log creates and later revokes, once its revocation has been delivered. -/
theorem retired_converges {payload : UseCasePayload} (hslug : slug ≠ [])
    (hlogs : OfUseCase slug logs)
    (hlast : (logs .usecases).getLast? = some (.usecaseDeleted payload))
    (hkeys : KeysOf slug logs s)
    (run : Run (Delivery.step applyEvent logs) ok (.start s) acts d)
    (later : Run (Delivery.step applyEvent logs) ok d acts' d') :
    (d.cursor .usecases = (logs .usecases).length → Retired slug d.model) ∧
      (∀ pfx, Deactivated pfx d.model → Deactivated pfx d'.model) ∧
      ∀ (i j : ℕ) (key : ApiKeyPayload), i < j → j < d.cursor .apiKeys →
        (logs .apiKeys)[i]? = some (.apiKeyCreated key) →
        (logs .apiKeys)[j]? = some (.apiKeyRevoked key.pfx) → Deactivated key.pfx d'.model := by
  refine ⟨retired_of_delivered hslug hlogs hlast hkeys run, fun pfx h => h.run later, ?_⟩
  intro i j key hij hj hcreated hrevoked
  exact (deactivated_of_delivered hij hcreated hrevoked run hj).run later

end Delivered

/-- A use case that is configured and retired, with a member, a key, a budget and a global rule's
topic racing its retirement. -/
private def racingLogs : Topic → List Event
  | .usecases => [.usecaseUpserted { slug := "a" }, .usecaseDeleted { slug := "a" }]
  | .memberships => [.membershipUpserted { slug := "a", username := "ada" }]
  | .apiKeys => [.apiKeyCreated { pfx := "k", keyHash := "h", useCase := some "a" },
      .apiKeyRevoked "k"]
  | .budgets => [.budgetUpserted
      { id := 1, useCase := "a", scope := "use_case", period := "monthly" }]
  | _ => []

/-- The key, then the retirement, then the grants, then both of the first again. -/
private def racingActs : List (Delivery.Act Topic Moment) :=
  [.deliver .usecases 0, .deliver .apiKeys 1, .deliver .budgets 2, .deliver .usecases 3,
    .deliver .memberships 4, .deliver .apiKeys 5, .rewind .usecases 0, .deliver .usecases 6,
    .rewind .budgets 0, .deliver .budgets 7, .deliver .usecases 8]

private theorem racingLogs_ofUseCase : OfUseCase "a" racingLogs := by
  constructor <;> rintro (_ | _ | _ | _ | _ | _ | _) e he <;>
    simp only [racingLogs, List.mem_cons, List.not_mem_nil, or_false] at he <;>
    (try rcases he with rfl | rfl) <;> first | rfl | trivial

private theorem racingActs_run :
    ∃ d, Run (Delivery.step applyEvent racingLogs) (fun _ _ => True) (.start {}) racingActs d ∧
      d.cursor .usecases = 2 ∧ d.cursor .apiKeys = 2 :=
  ⟨_, run_of_checkedRun rfl, rfl, rfl⟩

theorem retired_converges_racing :
    ∃ d, Run (Delivery.step applyEvent racingLogs) (fun _ _ => True) (.start {}) racingActs d ∧
      Retired "a" d.model ∧ Deactivated "k" d.model := by
  obtain ⟨d, run, husecases, hapiKeys⟩ := racingActs_run
  have hlast : (racingLogs .usecases).getLast? = some (.usecaseDeleted { slug := "a" }) := rfl
  have hkeys : KeysOf "a" racingLogs {} := fun _ _ _ _ h => absurd h (by simp [Table.empty])
  have h := retired_converges (by decide) racingLogs_ofUseCase hlast hkeys run (.nil d)
  refine ⟨d, run, h.1 husecases, ?_⟩
  exact h.2.2 0 1 { pfx := "k", keyHash := "h", useCase := some "a" } (by decide)
    (by rw [hapiKeys]; decide) rfl rfl

end AiraGateway
