import AiraGateway.Budgets.Guard
import AiraGateway.Budgets.Scopes
import AiraGateway.Pipeline.Redaction
import AiraGateway.Serving.Accounting

/-!
# Booking what a pipeline's steps spent

However a pipeline ends, `recordPipelineCalls` audits and bills the model calls its steps made: for
one after the other a price, the provenance, a row, and `bookSideCall`, which reads the budgets that
bind, books them in one transaction and adds to their counters. One boundary around the whole loop
swallows an exception, and a cancellation passes through it.

What each await meets is an argument (`CallFates`), and what the stores are told of each call is
kept as a list of effects (`SideEffect`), an access that raised among them.

* `bookedOnce_iff`: every call is booked once, apart from what its own failed accesses were for,
  exactly when the loop is stopped nowhere but in the last call, with nothing owed any more.
-/

namespace AiraGateway

/-! ### What a booking meets and does -/

/-- What a write meets: it can raise, and be cancelled, with the write behind it. -/
inductive WriteFate
  | done
  | raises (written : Bool)
  | cancelled (written : Bool)
  deriving DecidableEq

/-- Who an audit row says served a call. -/
structure Provenance where
  provider : Text
  publisher : Text
  region : Text
  deriving DecidableEq

/-- What the awaits of one call's booking meet, the table of budgets as its read finds it, and the
day it falls on. -/
structure CallFates where
  price : Except ReadFailure (Option Price) := .ok none
  provenance : Except ReadFailure (Option Provenance) := .ok none
  row : WriteFate := .done
  budgets : Option ReadFailure := none
  stored : List StoredBudget := []
  moment : Date := ⟨2026, 1, 1⟩
  booking : WriteFate := .done
  adjust : ℤ → UndoFate := fun _ => .answered

/-- A row for a step's call. The prompt is never on it. -/
structure SideRow extends RequestRow where
  operation : Text
  requestedModel : Text
  provenance : Option Provenance
  api : Text
  deriving DecidableEq

/-- An access to a store or the catalogue that can raise. -/
inductive SideAccess
  | price
  | provenance
  | row
  | budgets
  | booking
  deriving DecidableEq

/-- What the stores are told of a call: a row the log writer took, a figure booked in Postgres and
committed, an `_ADJUST` of a budget's counter. And an access that raised. -/
inductive SideEffect
  | recorded (row : SideRow)
  | booked (budget : StoredBudget) (key : Option Text × Text) (bill : Bill)
  | added (budget : StoredBudget) (key : Option Text × Text) (amounts : Amounts)
  | failed (access : SideAccess)
  deriving DecidableEq

/-- The request whose pipeline ran, and the installation: whether each row is written before its
response, and whether the shared counters are on. -/
structure SideContext where
  useCase : Option Text
  person : Option Text
  api : Text
  synchronous : Bool := false
  ledger : Bool := true

/-- What a part of the booking did, and what raised out of it. -/
structure Attempt where
  log : List SideEffect := []
  raised : Option ReadFailure := none

/-- One part after another, unless it raised. -/
def Attempt.andThen (first next : Attempt) : Attempt :=
  match first.raised with
  | some _ => first
  | none => ⟨first.log ++ next.log, next.raised⟩

/-- A read. -/
def fetching (access : SideAccess) : Option ReadFailure → Attempt
  | none => {}
  | some .database => ⟨[.failed access], some .database⟩
  | some .cancelled => ⟨[], some .cancelled⟩

/-- A write of `effects`, all of them or none. -/
def writing (access : SideAccess) (effects : List SideEffect) : WriteFate → Attempt
  | .done => ⟨effects, none⟩
  | .raises written => ⟨(if written then effects else []) ++ [.failed access], some .database⟩
  | .cancelled written => ⟨if written then effects else [], some .cancelled⟩

/-! ### The loop -/

section Loop

variable (ctx : SideContext)

namespace CallFates

/-- What an access answered, if it did. -/
def failure {α : Type} : Except ReadFailure α → Option ReadFailure
  | .error failure => some failure
  | .ok _ => none

/-- The cost of a call, where its model has a price. -/
def costNanos (fates : CallFates) (usage : CanonicalUsage) : Option ℤ :=
  (fates.price.toOption.getD none).map fun price =>
    (price.ratesFor usage.promptTokens).costNanos usage

/-- The budgets that bind the caller. -/
def binding (fates : CallFates) : List StoredBudget :=
  applicable fates.stored ctx.useCase ctx.person

def key (fates : CallFates) (budget : StoredBudget) : Option Text × Text :=
  counterKey ctx.person fates.moment budget

end CallFates

/-- What a step's call is booked as: one request. -/
def sideBill (fates : CallFates) (call : ModelCall) : Bill :=
  ⟨call.usage.totalTokens, 1, fates.costNanos call.usage⟩

def sideRow (fates : CallFates) (call : ModelCall) : SideRow where
  operation := ("pipeline:" : Text) ++ call.step
  model := call.model
  status := 200
  usage := some call.usage
  costNanos := fates.costNanos call.usage
  outcome := .served
  usageBasis := none
  error := none
  requestedModel := call.model
  provenance := fates.provenance.toOption.getD none
  api := ctx.api

/-- Hand a row to the writer. A row that cannot be written is not the caller's error, unless every
row is written before its response. -/
def recordRequest (fates : CallFates) (row : SideRow) : Attempt :=
  let submitted := writing .row [.recorded row] fates.row
  if submitted.raised = some .database ∧ !ctx.synchronous then { submitted with raised := none }
  else submitted

/-- `record`: every budget in one transaction. -/
def record (fates : CallFates) (bill : Bill) (budgets : List StoredBudget) : Attempt :=
  if budgets = [] then {}
  else writing .booking (budgets.map fun budget => .booked budget (fates.key ctx budget) bill)
    fates.booking

/-- Add to each budget's shared counter. A counter that does not answer is passed over. -/
def addToEach (fates : CallFates) (amounts : Amounts) : List StoredBudget → Attempt
  | [] => {}
  | budget :: rest =>
    let added := [SideEffect.added budget (fates.key ctx budget) amounts]
    match fates.adjust budget.id with
    | .answered => Attempt.andThen ⟨added, none⟩ (addToEach fates amounts rest)
    | .unavailable => addToEach fates amounts rest
    | .cancelled ran => ⟨if ran then added else [], some .cancelled⟩

def addToCounters (fates : CallFates) (amounts : Amounts) (budgets : List StoredBudget) :
    Attempt :=
  if ctx.ledger then addToEach ctx fates amounts budgets else {}

/-- Book tokens the gateway spent on the caller's behalf, in both stores. -/
def bookSideCall (fates : CallFates) (bill : Bill) : Attempt :=
  if orText ctx.useCase [] = [] ∨ bill.tokens ≤ 0 then {}
  else (fetching .budgets fates.budgets).andThen <|
    (record ctx fates bill (fates.binding ctx)).andThen <|
      addToCounters ctx fates bill.amounts (fates.binding ctx)

/-- One round of the loop. -/
def recordCall (fates : CallFates) (call : ModelCall) : Attempt :=
  (fetching .price (CallFates.failure fates.price)).andThen <|
    (fetching .provenance (CallFates.failure fates.provenance)).andThen <|
      (recordRequest ctx fates (sideRow ctx fates call)).andThen <|
        bookSideCall ctx fates (sideBill fates call)

/-- The rounds from the `i`-th on: what each did, under its number, and what raised. -/
def recordEach (fates : ℕ → CallFates) : ℕ → List ModelCall →
    List (ℕ × SideEffect) × Option ReadFailure
  | _, [] => ([], none)
  | i, call :: rest =>
    let round := recordCall ctx (fates i) call
    let log := round.log.map (i, ·)
    match round.raised with
    | some failure => (log, some failure)
    | none =>
      let (later, raised) := recordEach fates (i + 1) rest
      (log ++ later, raised)

/-- Audit and bill the model calls the pipeline made: what the stores are told, and whether a
cancellation leaves. An exception is logged and goes no further. -/
def recordPipelineCalls (fates : ℕ → CallFates) (calls : List ModelCall) :
    List (ℕ × SideEffect) × Bool :=
  let (log, raised) := recordEach ctx fates 0 calls
  (log, raised = some .cancelled)

/-- The `finally` of a pipeline's run: whatever ended it, the calls are recorded, and a
cancellation of that replaces what was on its way out. -/
def leavePipeline (fates : ℕ → CallFates) (calls : List ModelCall) (ending : Ending) :
    List (ℕ × SideEffect) × Ending :=
  let (log, cancelled) := recordPipelineCalls ctx fates calls
  (log, if cancelled then .cancelled else ending)

end Loop

/-! ### What is owed for a call -/

section Owed

namespace SideEffect

def row? : SideEffect → Option SideRow
  | recorded row => some row
  | booked _ _ _ | added _ _ _ | failed _ => none

def booking? : SideEffect → Option (StoredBudget × (Option Text × Text) × Bill)
  | booked budget key bill => some (budget, key, bill)
  | recorded _ | added _ _ _ | failed _ => none

def addition? : SideEffect → Option (StoredBudget × (Option Text × Text) × Amounts)
  | added budget key amounts => some (budget, key, amounts)
  | recorded _ | booked _ _ _ | failed _ => none

end SideEffect

variable (ctx : SideContext)

/-- The budgets whose counter is owed a call: all that bind, Redis answering. -/
def CallFates.reachable (fates : CallFates) : List StoredBudget :=
  if ctx.ledger then
    (fates.binding ctx).filter fun budget => fates.adjust budget.id ≠ .unavailable
  else []

/-- A call is accounted for: one row, one booking against every budget that binds, one addition to
each of their counters. What is missing is what a failed access was for. -/
structure CallAccounted (fates : CallFates) (call : ModelCall) (log : List SideEffect) : Prop where
  row : log.filterMap SideEffect.row? = [sideRow ctx fates call]
    ∨ log.filterMap SideEffect.row? = [] ∧ .failed .row ∈ log
  booked : log.filterMap SideEffect.booking?
      = (fates.binding ctx).map (fun budget => (budget, fates.key ctx budget, sideBill fates call))
    ∨ log.filterMap SideEffect.booking? = [] ∧ (.failed .budgets ∈ log ∨ .failed .booking ∈ log)
  added : log.filterMap SideEffect.addition?
      = (fates.reachable ctx).map
          (fun budget => (budget, fates.key ctx budget, (sideBill fates call).amounts))
    ∨ log.filterMap SideEffect.addition? = [] ∧ .failed .budgets ∈ log

/-- What the stores were told of the `i`-th call. -/
def toldOf (i : ℕ) (log : List (ℕ × SideEffect)) : List SideEffect :=
  (log.filter fun effect => effect.1 = i).map Prod.snd

/-- Every model call is booked once. -/
def BookedOnce (fates : ℕ → CallFates) (calls : List ModelCall) (log : List (ℕ × SideEffect)) :
    Prop :=
  ∀ i call, calls[i]? = some call → CallAccounted ctx (fates i) call (toldOf i log)

/-! ### Where the loop may stop -/

namespace CallFates

/-- The row is handed over, or its failure passed over. -/
def RowPasses (fates : CallFates) : Prop :=
  match fates.row with
  | .done => True
  | .raises _ => ctx.synchronous = false
  | .cancelled _ => False

/-- The adds all return: Redis answers or does not, and nothing is cancelled. -/
def AddsPass (fates : CallFates) (budgets : List StoredBudget) : Prop :=
  ∀ budget ∈ budgets, (fates.adjust budget.id).isCancelled = false

/-- Nothing stops the loop in this call. -/
structure Passes (fates : CallFates) : Prop where
  price : failure fates.price = none
  provenance : failure fates.provenance = none
  row : fates.RowPasses ctx
  budgets : fates.budgets = none
  booking : fates.binding ctx ≠ [] → fates.booking = .done
  adds : ctx.ledger = true → fates.AddsPass (fates.binding ctx)

/-- A cancelled add has run, and no counter behind it answers. -/
def AddsDone (fates : CallFates) : List StoredBudget → Prop
  | [] => True
  | budget :: rest =>
    match fates.adjust budget.id with
    | .answered | .unavailable => AddsDone fates rest
    | .cancelled ran => ran = true ∧ ∀ later ∈ rest, fates.adjust later.id = .unavailable

/-- Where the row stops the loop it is written or failed itself, and no budget binds. -/
def RowDone (fates : CallFates) : Prop :=
  fates.row ≠ .cancelled false ∧ fates.binding ctx = []

/-- The booking and the adds get done, or nothing is owed where they stop. -/
def StoresDone (fates : CallFates) : Prop :=
  match fates.budgets with
  | some .database => True
  | some .cancelled => fates.binding ctx = []
  | none =>
    fates.binding ctx = [] ∨
      match fates.booking with
      | .done => ctx.ledger = true → fates.AddsDone (fates.binding ctx)
      | .raises _ | .cancelled true => fates.reachable ctx = []
      | .cancelled false => False

/-- If the loop is stopped in this call, nothing is owed for it any more. -/
structure Done (fates : CallFates) : Prop where
  price : failure fates.price = none
  provenance : failure fates.provenance = none
  rest : fates.RowPasses ctx ∧ fates.StoresDone ctx ∨ ¬ fates.RowPasses ctx ∧ fates.RowDone ctx

end CallFates

/-- The loop is stopped in the last call if at all, and there with nothing owed any more. -/
def StopsOwingNothing (fates : ℕ → CallFates) (calls : List ModelCall) : Prop :=
  ∀ i < calls.length,
    if i + 1 < calls.length then (fates i).Passes ctx else (fates i).Done ctx

/-! ### One call -/

theorem CallFates.RowPasses.row_ne {ctx : SideContext} {fates : CallFates}
    (h : fates.RowPasses ctx) : fates.row ≠ .cancelled false := by
  intro hrow
  simp [CallFates.RowPasses, hrow] at h

theorem CallFates.AddsPass.addsDone {fates : CallFates} {budgets : List StoredBudget}
    (h : fates.AddsPass budgets) : fates.AddsDone budgets := by
  induction budgets with
  | nil => trivial
  | cons budget rest ih =>
    have hrest := ih fun later hlater => h later (List.mem_cons_of_mem _ hlater)
    have hnow := h budget List.mem_cons_self
    cases hfate : fates.adjust budget.id with
    | answered => simpa [CallFates.AddsDone, hfate] using hrest
    | unavailable => simpa [CallFates.AddsDone, hfate] using hrest
    | cancelled ran => simp [hfate, UndoFate.isCancelled] at hnow

namespace Attempt

variable {first next : Attempt}

theorem andThen_of_raised {failure : ReadFailure} (h : first.raised = some failure) :
    first.andThen next = first := by
  simp [andThen, h]

theorem andThen_of_passed (h : first.raised = none) :
    first.andThen next = ⟨first.log ++ next.log, next.raised⟩ := by
  simp [andThen, h]

theorem andThen_raised_iff :
    (first.andThen next).raised = none ↔ first.raised = none ∧ next.raised = none := by
  cases h : first.raised with
  | none => simp [andThen_of_passed h]
  | some failure => simp [andThen_of_raised h, h]

end Attempt

@[simp]
theorem fetching_raised (access : SideAccess) (fate : Option ReadFailure) :
    (fetching access fate).raised = fate := by
  rcases fate with _ | _ | _ <;> rfl

variable {ctx} {fates : CallFates} {call : ModelCall}

theorem recordRequest_raised_iff (row : SideRow) :
    (recordRequest ctx fates row).raised = none ↔ fates.RowPasses ctx := by
  cases hrow : fates.row <;> cases hsync : ctx.synchronous <;>
    simp [recordRequest, writing, CallFates.RowPasses, hrow, hsync]

theorem record_raised_iff (bill : Bill) (budgets : List StoredBudget) :
    (record ctx fates bill budgets).raised = none ↔ budgets ≠ [] → fates.booking = .done := by
  by_cases hnil : budgets = []
  · simp [record, hnil]
  · cases hfate : fates.booking <;> simp [record, writing, hnil, hfate]

theorem addToEach_raised_iff (amounts : Amounts) (budgets : List StoredBudget) :
    (addToEach ctx fates amounts budgets).raised = none ↔ fates.AddsPass budgets := by
  induction budgets with
  | nil => simp [addToEach, CallFates.AddsPass]
  | cons budget rest ih =>
    cases hfate : fates.adjust budget.id <;>
      simp_all [addToEach, CallFates.AddsPass, Attempt.andThen, UndoFate.isCancelled]

theorem addToCounters_raised_iff (amounts : Amounts) (budgets : List StoredBudget) :
    (addToCounters ctx fates amounts budgets).raised = none
      ↔ ctx.ledger = true → fates.AddsPass budgets := by
  by_cases hledger : ctx.ledger = true
  · simp [addToCounters, hledger, addToEach_raised_iff]
  · simp [addToCounters, hledger]

/-- A request that names a use case, and a call that used something. -/
theorem bookSideCall_eq (fates : CallFates) (hcase : orText ctx.useCase [] ≠ []) {bill : Bill}
    (htokens : 0 < bill.tokens) :
    bookSideCall ctx fates bill = (fetching .budgets fates.budgets).andThen
      ((record ctx fates bill (fates.binding ctx)).andThen
        (addToCounters ctx fates bill.amounts (fates.binding ctx))) := by
  have hbooks : ¬ (orText ctx.useCase [] = [] ∨ bill.tokens ≤ 0) := by
    simp only [hcase, false_or]
    omega
  rw [bookSideCall, if_neg hbooks]

theorem recordCall_raised_iff (fates : CallFates) (hcase : orText ctx.useCase [] ≠ [])
    (htokens : 0 < call.usage.totalTokens) :
    (recordCall ctx fates call).raised = none ↔ fates.Passes ctx := by
  have hbill : 0 < (sideBill fates call).tokens := htokens
  have hbook := bookSideCall_eq fates hcase hbill
  rw [recordCall, hbook]
  simp only [Attempt.andThen_raised_iff, fetching_raised, recordRequest_raised_iff,
    record_raised_iff, addToCounters_raised_iff]
  constructor
  · rintro ⟨hprice, hprovenance, hrow, hbudgets, hbooking, hadds⟩
    exact ⟨hprice, hprovenance, hrow, hbudgets, hbooking, hadds⟩
  · intro h
    exact ⟨h.price, h.provenance, h.row, h.budgets, h.booking, h.adds⟩

/-- Nothing told is a call not accounted for. -/
theorem not_callAccounted_nil : ¬ CallAccounted ctx fates call [] := by
  intro h
  rcases h.row with hrow | ⟨-, hfailed⟩
  · simp at hrow
  · simp at hfailed

/-- What the two stores are owed for a call, of what they were told. -/
structure StoresAccounted (ctx : SideContext) (fates : CallFates) (bill : Bill)
    (log : List SideEffect) : Prop where
  booked : log.filterMap SideEffect.booking?
      = (fates.binding ctx).map (fun budget => (budget, fates.key ctx budget, bill))
    ∨ log.filterMap SideEffect.booking? = [] ∧ (.failed .budgets ∈ log ∨ .failed .booking ∈ log)
  added : log.filterMap SideEffect.addition?
      = (fates.reachable ctx).map (fun budget => (budget, fates.key ctx budget, bill.amounts))
    ∨ log.filterMap SideEffect.addition? = [] ∧ .failed .budgets ∈ log

/-- Adding does nothing else. -/
theorem mem_addToEach_log {amounts : Amounts} {budgets : List StoredBudget} {effect : SideEffect}
    (h : effect ∈ (addToEach ctx fates amounts budgets).log) :
    ∃ budget, effect = .added budget (fates.key ctx budget) amounts := by
  induction budgets with
  | nil => simp [addToEach] at h
  | cons budget rest ih =>
    rw [addToEach] at h
    split at h
    · have hlog : effect = .added budget (fates.key ctx budget) amounts
          ∨ effect ∈ (addToEach ctx fates amounts rest).log := by
        simpa [Attempt.andThen] using h
      exact hlog.elim (fun heq => ⟨budget, heq⟩) ih
    · exact ih h
    · rename_i ran _
      cases ran
      · simp at h
      · exact ⟨budget, by simpa using h⟩

/-- Every counter that answers is added to exactly when no cancellation comes in between. -/
theorem addToEach_additions_iff (amounts : Amounts) (budgets : List StoredBudget) :
    (addToEach ctx fates amounts budgets).log.filterMap SideEffect.addition?
        = (budgets.filter fun budget => fates.adjust budget.id ≠ .unavailable).map
            (fun budget => (budget, fates.key ctx budget, amounts))
      ↔ fates.AddsDone budgets := by
  induction budgets with
  | nil => simp [addToEach, CallFates.AddsDone]
  | cons budget rest ih =>
    cases hfate : fates.adjust budget.id with
    | answered =>
      simpa [addToEach, CallFates.AddsDone, hfate, Attempt.andThen, SideEffect.addition?] using ih
    | unavailable => simpa [addToEach, CallFates.AddsDone, hfate] using ih
    | cancelled ran =>
      cases ran
      · simp [addToEach, CallFates.AddsDone, hfate]
      · have hnone : (rest.filter fun budget => fates.adjust budget.id ≠ .unavailable) = []
            ↔ ∀ later ∈ rest, fates.adjust later.id = .unavailable := by
          simp [List.filter_eq_nil_iff]
        simp only [addToEach, CallFates.AddsDone, hfate, if_true, ne_eq]
        rw [← hnone]
        simp [SideEffect.addition?, hfate]

theorem reachable_of_binding_nil (h : fates.binding ctx = []) : fates.reachable ctx = [] := by
  simp [CallFates.reachable, h]

/-- With nothing told, no budget may bind. -/
theorem storesAccounted_nil_iff (bill : Bill) :
    StoresAccounted ctx fates bill [] ↔ fates.binding ctx = [] := by
  constructor
  · intro h
    rcases h.booked with hbooked | ⟨-, hfailed⟩
    · exact List.map_eq_nil_iff.mp hbooked.symm
    · simp at hfailed
  · intro h
    exact ⟨.inl (by simp [h]), .inl (by simp [reachable_of_binding_nil h])⟩

theorem filterMap_booking_map (ctx : SideContext) (fates : CallFates) (bill : Bill)
    (budgets : List StoredBudget) :
    (budgets.map fun budget => SideEffect.booked budget (fates.key ctx budget) bill).filterMap
        SideEffect.booking?
      = budgets.map fun budget => (budget, fates.key ctx budget, bill) := by
  simp [List.filterMap_map, Function.comp_def, SideEffect.booking?]

theorem filterMap_addition_map (ctx : SideContext) (fates : CallFates) (bill : Bill)
    (budgets : List StoredBudget) :
    (budgets.map fun budget => SideEffect.booked budget (fates.key ctx budget) bill).filterMap
        SideEffect.addition? = [] := by
  simp [List.filterMap_map, Function.comp_def, SideEffect.addition?]

/-- Where the transaction is not behind it, the adds are what is owed. -/
theorem storesAccounted_booked_iff {bill : Bill} {log : List SideEffect}
    (hbooked : log.filterMap SideEffect.booking?
        = (fates.binding ctx).map (fun budget => (budget, fates.key ctx budget, bill))
      ∨ log.filterMap SideEffect.booking? = [] ∧ .failed .booking ∈ log)
    (hread : .failed .budgets ∉ log) :
    StoresAccounted ctx fates bill log
      ↔ log.filterMap SideEffect.addition?
        = (fates.reachable ctx).map
            (fun budget => (budget, fates.key ctx budget, bill.amounts)) := by
  constructor
  · intro h
    exact h.added.resolve_right fun hfailed => hread hfailed.2
  · intro h
    refine ⟨?_, .inl h⟩
    exact hbooked.imp id fun hfailed => ⟨hfailed.1, .inr hfailed.2⟩

theorem addToCounters_additions_iff (bill : Bill) :
    (addToCounters ctx fates bill.amounts (fates.binding ctx)).log.filterMap SideEffect.addition?
        = (fates.reachable ctx).map (fun budget => (budget, fates.key ctx budget, bill.amounts))
      ↔ ctx.ledger = true → fates.AddsDone (fates.binding ctx) := by
  by_cases hledger : ctx.ledger = true
  · simpa [addToCounters, CallFates.reachable, hledger] using
      addToEach_additions_iff bill.amounts (fates.binding ctx)
  · simp [addToCounters, CallFates.reachable, hledger]

theorem mem_addToCounters_log {amounts : Amounts} {budgets : List StoredBudget}
    {effect : SideEffect} (h : effect ∈ (addToCounters ctx fates amounts budgets).log) :
    ∃ budget, effect = .added budget (fates.key ctx budget) amounts := by
  rw [addToCounters] at h
  split at h
  · exact mem_addToEach_log h
  · simp at h

/-- The adds say nothing of Postgres. -/
theorem addToCounters_bookings (amounts : Amounts) (budgets : List StoredBudget) :
    (addToCounters ctx fates amounts budgets).log.filterMap SideEffect.booking? = [] := by
  rw [List.filterMap_eq_nil_iff]
  intro effect heffect
  obtain ⟨budget, rfl⟩ := mem_addToCounters_log heffect
  rfl

theorem failed_notMem_addToCounters (ctx : SideContext) (fates : CallFates)
    (access : SideAccess) (amounts : Amounts) (budgets : List StoredBudget) :
    .failed access ∉ (addToCounters ctx fates amounts budgets).log := by
  intro hfailed
  obtain ⟨budget, heq⟩ := mem_addToCounters_log hfailed
  exact absurd heq (by simp)

/-- The transaction and the adds behind it, where a budget binds. -/
theorem storesAccounted_record_iff (bill : Bill) (hbinds : fates.binding ctx ≠ []) :
    StoresAccounted ctx fates bill ((record ctx fates bill (fates.binding ctx)).andThen
        (addToCounters ctx fates bill.amounts (fates.binding ctx))).log
      ↔ match fates.booking with
        | .done => ctx.ledger = true → fates.AddsDone (fates.binding ctx)
        | .raises _ | .cancelled true => fates.reachable ctx = []
        | .cancelled false => False := by
  have hbookings := filterMap_booking_map ctx fates bill (fates.binding ctx)
  have hadditions := filterMap_addition_map ctx fates bill (fates.binding ctx)
  rw [record, if_neg hbinds]
  cases hfate : fates.booking with
  | done =>
    rw [Attempt.andThen_of_passed rfl]
    have hread : SideEffect.failed .budgets ∉ _ :=
      failed_notMem_addToCounters ctx fates .budgets bill.amounts (fates.binding ctx)
    rw [storesAccounted_booked_iff (.inl ?_) ?_, ← addToCounters_additions_iff bill]
    · simp [writing, hadditions]
    · simp [writing, hbookings, addToCounters_bookings]
    · simpa [writing] using hread
  | raises written =>
    rw [Attempt.andThen_of_raised rfl]
    have hfailed : [SideEffect.failed .booking].filterMap SideEffect.addition? = [] := rfl
    rw [storesAccounted_booked_iff ?_ ?_]
    · cases written
      · simp [writing, hfailed]
      · simp [writing, hadditions, hfailed]
    · cases written
      · exact .inr (by simp [writing, SideEffect.booking?])
      · exact .inl (by simp [writing, hbookings, SideEffect.booking?])
    · cases written <;> simp [writing]
  | cancelled written =>
    rw [Attempt.andThen_of_raised rfl]
    cases written with
    | false => simpa [writing, storesAccounted_nil_iff] using hbinds
    | true =>
      rw [storesAccounted_booked_iff (.inl ?_) ?_]
      · simp [writing, hadditions]
      · simp [writing, hbookings]
      · simp [writing]

/-- **What the two stores are owed gets done** exactly where the booking is not stopped, or is
stopped with nothing owed any more. -/
theorem storesAccounted_iff (hcase : orText ctx.useCase [] ≠ []) {bill : Bill}
    (htokens : 0 < bill.tokens) :
    StoresAccounted ctx fates bill (bookSideCall ctx fates bill).log ↔ fates.StoresDone ctx := by
  rw [bookSideCall_eq fates hcase htokens, CallFates.StoresDone]
  cases hread : fates.budgets with
  | some failure =>
    rw [Attempt.andThen_of_raised (fetching_raised _ _)]
    cases failure with
    | cancelled => exact storesAccounted_nil_iff bill
    | database =>
      refine iff_of_true ⟨.inr ⟨?_, .inl ?_⟩, .inr ⟨?_, ?_⟩⟩ trivial <;>
        simp [fetching, SideEffect.booking?, SideEffect.addition?]
  | none =>
    rw [Attempt.andThen_of_passed rfl]
    by_cases hbinds : fates.binding ctx = []
    · have hnothing : ((record ctx fates bill (fates.binding ctx)).andThen
          (addToCounters ctx fates bill.amounts (fates.binding ctx))).log = [] := by
        simp [hbinds, record, addToCounters, addToEach, Attempt.andThen]
      rw [hnothing]
      simp [fetching, storesAccounted_nil_iff, hbinds]
    · simpa [fetching, hbinds] using storesAccounted_record_iff bill hbinds

/-! ### The row beside them -/

/-- Nothing but a row, or its failure. -/
def OnlyRow (log : List SideEffect) : Prop :=
  ∀ effect ∈ log, effect = .failed .row ∨ ∃ row, effect = .recorded row

theorem recordRequest_onlyRow (row : SideRow) : OnlyRow (recordRequest ctx fates row).log := by
  intro effect heffect
  have hlog : (recordRequest ctx fates row).log = (writing .row [.recorded row] fates.row).log := by
    rw [recordRequest]
    split <;> rfl
  rw [hlog] at heffect
  cases hfate : fates.row with
  | done => exact .inr ⟨row, by simpa [hfate, writing] using heffect⟩
  | raises written =>
    cases written
    · exact .inl (by simpa [hfate, writing] using heffect)
    · have h : effect = .recorded row ∨ effect = .failed .row := by
        simpa [hfate, writing] using heffect
      exact h.symm.imp id fun heq => ⟨row, heq⟩
  | cancelled written =>
    cases written
    · simp [hfate, writing] at heffect
    · exact .inr ⟨row, by simpa [hfate, writing] using heffect⟩

/-- The row is handed over, or its access failed, unless a cancellation comes before it. -/
theorem recordRequest_row_iff (row : SideRow) :
    ((recordRequest ctx fates row).log.filterMap SideEffect.row? = [row]
      ∨ (recordRequest ctx fates row).log.filterMap SideEffect.row? = []
        ∧ .failed .row ∈ (recordRequest ctx fates row).log)
      ↔ fates.row ≠ .cancelled false := by
  have hlog : (recordRequest ctx fates row).log = (writing .row [.recorded row] fates.row).log := by
    rw [recordRequest]
    split <;> rfl
  rw [hlog]
  cases hfate : fates.row with
  | done => simp [writing, SideEffect.row?]
  | raises written => cases written <;> simp [writing, SideEffect.row?]
  | cancelled written => cases written <;> simp [writing, SideEffect.row?]

theorem Attempt.mem_andThen {first next : Attempt} {effect : SideEffect}
    (h : effect ∈ (first.andThen next).log) : effect ∈ first.log ∨ effect ∈ next.log := by
  cases hraised : first.raised with
  | none =>
    rw [andThen_of_passed hraised] at h
    exact List.mem_append.mp h
  | some failure =>
    rw [andThen_of_raised hraised] at h
    exact .inl h

theorem mem_fetching {access : SideAccess} {fate : Option ReadFailure} {effect : SideEffect}
    (h : effect ∈ (fetching access fate).log) : effect = .failed access := by
  rcases fate with _ | _ | _
  · simp [fetching] at h
  · simp [fetching] at h
  · simpa [fetching] using h

theorem mem_record {bill : Bill} {budgets : List StoredBudget} {effect : SideEffect}
    (h : effect ∈ (record ctx fates bill budgets).log) :
    effect = .failed .booking
      ∨ ∃ budget, effect = .booked budget (fates.key ctx budget) bill := by
  rw [record] at h
  split at h
  · simp at h
  · have hbooked : ∀ e ∈ budgets.map (fun budget => SideEffect.booked budget
        (fates.key ctx budget) bill), ∃ budget, e = .booked budget (fates.key ctx budget) bill := by
      intro e he
      obtain ⟨budget, -, rfl⟩ := List.mem_map.mp he
      exact ⟨budget, rfl⟩
    cases hfate : fates.booking with
    | done => exact .inr (hbooked _ (by simpa [hfate, writing] using h))
    | raises written =>
      rw [hfate, writing, List.mem_append, List.mem_singleton] at h
      cases written
      · exact .inl (h.resolve_left (by simp))
      · exact h.symm.imp id (hbooked _)
    | cancelled written =>
      cases written
      · simp [hfate, writing] at h
      · exact .inr (hbooked _ (by simpa [hfate, writing] using h))

/-- The stores are told nothing of rows. -/
theorem row_of_mem_bookSideCall {bill : Bill} {effect : SideEffect}
    (h : effect ∈ (bookSideCall ctx fates bill).log) :
    effect.row? = none ∧ effect ≠ .failed .row := by
  rw [bookSideCall] at h
  split at h
  · simp at h
  · rcases Attempt.mem_andThen h with hread | hrest
    · rw [mem_fetching hread]
      exact ⟨rfl, by simp⟩
    · rcases Attempt.mem_andThen hrest with hrecord | hadds
      · rcases mem_record hrecord with rfl | ⟨budget, rfl⟩
        · exact ⟨rfl, by simp⟩
        · exact ⟨rfl, by simp⟩
      · obtain ⟨budget, rfl⟩ := mem_addToCounters_log hadds
        exact ⟨rfl, by simp⟩

/-- A row first, and the stores behind it: each answers for its own part. -/
theorem callAccounted_append_iff {rows log : List SideEffect} (hrows : OnlyRow rows)
    (hlog : ∀ effect ∈ log, effect.row? = none ∧ effect ≠ .failed .row) :
    CallAccounted ctx fates call (rows ++ log)
      ↔ (rows.filterMap SideEffect.row? = [sideRow ctx fates call]
          ∨ rows.filterMap SideEffect.row? = [] ∧ .failed .row ∈ rows)
        ∧ StoresAccounted ctx fates (sideBill fates call) log := by
  have hbookings : rows.filterMap SideEffect.booking? = [] := by
    rw [List.filterMap_eq_nil_iff]
    intro effect heffect
    obtain rfl | ⟨row, rfl⟩ := hrows effect heffect <;> rfl
  have hadditions : rows.filterMap SideEffect.addition? = [] := by
    rw [List.filterMap_eq_nil_iff]
    intro effect heffect
    obtain rfl | ⟨row, rfl⟩ := hrows effect heffect <;> rfl
  have hnorow : log.filterMap SideEffect.row? = [] := by
    rw [List.filterMap_eq_nil_iff]
    exact fun effect heffect => (hlog effect heffect).1
  have hrow : SideEffect.failed .row ∉ log := fun h => (hlog _ h).2 rfl
  have hbudgets : SideEffect.failed .budgets ∉ rows := by
    intro h
    obtain heq | ⟨row, heq⟩ := hrows _ h <;> simp at heq
  have hbooking : SideEffect.failed .booking ∉ rows := by
    intro h
    obtain heq | ⟨row, heq⟩ := hrows _ h <;> simp at heq
  constructor
  · intro h
    refine ⟨?_, ?_, ?_⟩
    · simpa [List.filterMap_append, hnorow, hrow] using h.row
    · simpa [List.filterMap_append, hbookings, hbudgets, hbooking] using h.booked
    · simpa [List.filterMap_append, hadditions, hbudgets] using h.added
  · rintro ⟨h, hstores⟩
    refine ⟨?_, ?_, ?_⟩
    · simpa [List.filterMap_append, hnorow, hrow] using h
    · simpa [List.filterMap_append, hbookings, hbudgets, hbooking] using hstores.booked
    · simpa [List.filterMap_append, hadditions, hbudgets] using hstores.added

/-- A call without a row, and without a failed one, is not accounted for. -/
theorem not_callAccounted_of_fetching {access : SideAccess} {failure : ReadFailure}
    (haccess : access ≠ .row) :
    ¬ CallAccounted ctx fates call (fetching access (some failure)).log := by
  intro h
  rcases h.row with hrow | ⟨-, hfailed⟩
  · have hnone : (fetching access (some failure)).log.filterMap SideEffect.row? = [] := by
      rw [List.filterMap_eq_nil_iff]
      intro effect heffect
      rw [mem_fetching heffect]
      rfl
    rw [hnone] at hrow
    simp at hrow
  · have heq := mem_fetching hfailed
    exact haccess (by simpa using heq.symm)

/-- **One call is accounted for** exactly where nothing is owed any more when it ends. -/
theorem callAccounted_iff (fates : CallFates) (hcase : orText ctx.useCase [] ≠ [])
    (htokens : 0 < call.usage.totalTokens) :
    CallAccounted ctx fates call (recordCall ctx fates call).log ↔ fates.Done ctx := by
  have hbill : 0 < (sideBill fates call).tokens := htokens
  rw [recordCall]
  cases hprice : CallFates.failure fates.price with
  | some failure =>
    rw [Attempt.andThen_of_raised (fetching_raised _ _)]
    refine iff_of_false (not_callAccounted_of_fetching (by simp)) fun h => ?_
    simpa [hprice] using h.price
  | none =>
    rw [Attempt.andThen_of_passed (fetching_raised _ _)]
    cases hprovenance : CallFates.failure fates.provenance with
    | some failure =>
      rw [Attempt.andThen_of_raised (fetching_raised _ _)]
      refine iff_of_false (not_callAccounted_of_fetching (by simp)) fun h => ?_
      simpa [hprovenance] using h.provenance
    | none =>
      rw [Attempt.andThen_of_passed (fetching_raised _ _)]
      have hdone : fates.Done ctx ↔ fates.RowPasses ctx ∧ fates.StoresDone ctx
          ∨ ¬ fates.RowPasses ctx ∧ fates.RowDone ctx :=
        ⟨fun h => h.rest, fun h => ⟨hprice, hprovenance, h⟩⟩
      have honly : OnlyRow (recordRequest ctx fates (sideRow ctx fates call)).log :=
        recordRequest_onlyRow _
      rw [hdone]
      simp only [fetching, List.nil_append]
      cases hraised : (recordRequest ctx fates (sideRow ctx fates call)).raised with
      | none =>
        have hpasses := (recordRequest_raised_iff _).mp hraised
        rw [Attempt.andThen_of_passed hraised,
          callAccounted_append_iff honly fun effect => row_of_mem_bookSideCall,
          recordRequest_row_iff, storesAccounted_iff hcase hbill]
        simp [hpasses, hpasses.row_ne]
      | some failure =>
        have hpasses : ¬ fates.RowPasses ctx := by
          rw [← recordRequest_raised_iff (sideRow ctx fates call), hraised]
          simp
        rw [Attempt.andThen_of_raised hraised,
          ← List.append_nil (recordRequest ctx fates (sideRow ctx fates call)).log,
          callAccounted_append_iff honly (by simp), recordRequest_row_iff,
          storesAccounted_nil_iff]
        simp [hpasses, CallFates.RowDone]

/-! ### The whole loop -/

theorem toldOf_append (i : ℕ) (log later : List (ℕ × SideEffect)) :
    toldOf i (log ++ later) = toldOf i log ++ toldOf i later := by
  simp [toldOf]

theorem toldOf_round (i : ℕ) (log : List SideEffect) : toldOf i (log.map (i, ·)) = log := by
  simp [toldOf, List.filter_map, Function.comp_def]

theorem toldOf_other {i j : ℕ} (h : i ≠ j) (log : List SideEffect) :
    toldOf i (log.map (j, ·)) = [] := by
  simp [toldOf, List.filter_map, Function.comp_def, h.symm]

variable {rounds : ℕ → CallFates}

/-- The rounds from the `i`-th on tell nothing of an earlier call. -/
theorem toldOf_recordEach_of_lt {i j : ℕ} (h : j < i) (calls : List ModelCall) :
    toldOf j (recordEach ctx rounds i calls).1 = [] := by
  induction calls generalizing i with
  | nil => simp [recordEach, toldOf]
  | cons call rest ih =>
    have hlog := toldOf_other (Nat.ne_of_lt h) (recordCall ctx (rounds i) call).log
    rw [recordEach]
    split
    · exact hlog
    · rw [toldOf_append, hlog, ih (Nat.lt_succ_of_lt h), List.append_nil]

theorem recordEach_of_raised {i : ℕ} {call : ModelCall} {rest : List ModelCall}
    {failure : ReadFailure} (h : (recordCall ctx (rounds i) call).raised = some failure) :
    (recordEach ctx rounds i (call :: rest)).1
      = (recordCall ctx (rounds i) call).log.map (i, ·) := by
  simp [recordEach, h]

theorem recordEach_of_passed {i : ℕ} {call : ModelCall} {rest : List ModelCall}
    (h : (recordCall ctx (rounds i) call).raised = none) :
    (recordEach ctx rounds i (call :: rest)).1
      = (recordCall ctx (rounds i) call).log.map (i, ·)
        ++ (recordEach ctx rounds (i + 1) rest).1 := by
  simp [recordEach, h]

/-- What the loop tells of the call it starts with. -/
theorem toldOf_recordEach_head (i : ℕ) (call : ModelCall) (rest : List ModelCall) :
    toldOf i (recordEach ctx rounds i (call :: rest)).1 = (recordCall ctx (rounds i) call).log := by
  cases hraised : (recordCall ctx (rounds i) call).raised with
  | some failure => rw [recordEach_of_raised hraised, toldOf_round]
  | none =>
    rw [recordEach_of_passed hraised, toldOf_append, toldOf_round,
      toldOf_recordEach_of_lt (Nat.lt_succ_self i), List.append_nil]

/-- Nothing is told of a call behind one that stopped the loop. -/
theorem toldOf_recordEach_of_raised {i j : ℕ} {call : ModelCall} {rest : List ModelCall}
    {failure : ReadFailure} (h : (recordCall ctx (rounds i) call).raised = some failure)
    (hij : i < j) : toldOf j (recordEach ctx rounds i (call :: rest)).1 = [] := by
  rw [recordEach_of_raised h, toldOf_other (Nat.ne_of_gt hij)]

theorem toldOf_recordEach_of_passed {i j : ℕ} {call : ModelCall} {rest : List ModelCall}
    (h : (recordCall ctx (rounds i) call).raised = none) (hij : i < j) :
    toldOf j (recordEach ctx rounds i (call :: rest)).1
      = toldOf j (recordEach ctx rounds (i + 1) rest).1 := by
  rw [recordEach_of_passed h, toldOf_append, toldOf_other (Nat.ne_of_gt hij), List.nil_append]

/-- A call that stops nothing owes nothing. -/
theorem CallFates.Passes.done (h : fates.Passes ctx) : fates.Done ctx := by
  refine ⟨h.price, h.provenance, .inl ⟨h.row, ?_⟩⟩
  rw [CallFates.StoresDone, h.budgets]
  by_cases hbinds : fates.binding ctx = []
  · exact .inl hbinds
  · refine .inr ?_
    rw [h.booking hbinds]
    exact fun hledger => (h.adds hledger).addsDone

/-- The rounds from the `i`-th on book each of their calls once exactly when all but the last
pass, and the last owes nothing where it ends. -/
theorem accounted_from_iff (rounds : ℕ → CallFates) (hcase : orText ctx.useCase [] ≠ [])
    (calls : List ModelCall)
    (htokens : ∀ call ∈ calls, 0 < call.usage.totalTokens) (i : ℕ) :
    (∀ k call, calls[k]? = some call → CallAccounted ctx (rounds (i + k)) call
        (toldOf (i + k) (recordEach ctx rounds i calls).1))
      ↔ ∀ k < calls.length, if k + 1 < calls.length then (rounds (i + k)).Passes ctx
          else (rounds (i + k)).Done ctx := by
  induction calls generalizing i with
  | nil => simp
  | cons call rest ih =>
    have hcall := htokens call List.mem_cons_self
    have hhead := callAccounted_iff (rounds i) hcase hcall
    have hpasses := recordCall_raised_iff (rounds i) hcase hcall
    have hleft : (∀ k other, (call :: rest)[k]? = some other →
          CallAccounted ctx (rounds (i + k)) other
            (toldOf (i + k) (recordEach ctx rounds i (call :: rest)).1))
        ↔ (rounds i).Done ctx ∧ ∀ k other, rest[k]? = some other →
          CallAccounted ctx (rounds (i + (k + 1))) other
            (toldOf (i + (k + 1)) (recordEach ctx rounds i (call :: rest)).1) := by
      rw [← hhead, ← toldOf_recordEach_head i call rest]
      constructor
      · intro h
        exact ⟨h 0 call rfl, fun k other hother => h (k + 1) other hother⟩
      · rintro ⟨hzero, hsucc⟩ k other hother
        cases k with
        | zero =>
          obtain rfl : call = other := by simpa using hother
          exact hzero
        | succ k => exact hsucc k other hother
    have hright : (∀ k < (call :: rest).length,
          if k + 1 < (call :: rest).length then (rounds (i + k)).Passes ctx
            else (rounds (i + k)).Done ctx)
        ↔ (if rest = [] then (rounds i).Done ctx else (rounds i).Passes ctx) ∧
          ∀ k < rest.length, if k + 1 < rest.length then (rounds (i + (k + 1))).Passes ctx
            else (rounds (i + (k + 1))).Done ctx := by
      constructor
      · intro h
        refine ⟨?_, fun k hk => ?_⟩
        · have hzero := h 0 (by simp)
          cases rest with
          | nil => simpa using hzero
          | cons next rest => simpa using hzero
        · simpa using h (k + 1) (by simpa using hk)
      · rintro ⟨hzero, hsucc⟩ k hk
        cases k with
        | zero =>
          cases rest with
          | nil => simpa using hzero
          | cons next rest => simpa using hzero
        | succ k => simpa using hsucc k (by simpa using hk)
    rw [hleft, hright]
    cases hraised : (recordCall ctx (rounds i) call).raised with
    | none =>
      have hpass := hpasses.mp hraised
      have hlater := ih (fun other hother => htokens other (List.mem_cons_of_mem _ hother)) (i + 1)
      have htold : ∀ k, toldOf (i + (k + 1)) (recordEach ctx rounds i (call :: rest)).1
          = toldOf (i + (k + 1)) (recordEach ctx rounds (i + 1) rest).1 :=
        fun k => toldOf_recordEach_of_passed hraised (by omega)
      simp only [Nat.add_right_comm i 1, Nat.add_assoc i _ 1] at hlater
      simp only [htold, hlater]
      simp [hpass, hpass.done]
    | some failure =>
      have hstops : ¬ (rounds i).Passes ctx := by
        rw [← hpasses, hraised]
        simp
      cases rest with
      | nil => simp
      | cons next rest =>
        refine iff_of_false (fun h => ?_) fun h => ?_
        · have hnext := h.2 0 next rfl
          rw [toldOf_recordEach_of_raised hraised (by omega)] at hnext
          exact not_callAccounted_nil hnext
        · exact hstops (by simpa using h.1)

/-- **Every model call of a pipeline is booked once**, whatever ended the run, exactly when the loop
is stopped nowhere but in the last call, with nothing owed any more. -/
theorem bookedOnce_iff (ctx : SideContext) (rounds : ℕ → CallFates) (calls : List ModelCall)
    (ending : Ending) (hcase : orText ctx.useCase [] ≠ [])
    (htokens : ∀ call ∈ calls, 0 < call.usage.totalTokens) :
    BookedOnce ctx rounds calls (leavePipeline ctx rounds calls ending).1
      ↔ StopsOwingNothing ctx rounds calls := by
  have h := accounted_from_iff rounds hcase calls htokens 0
  simp only [Nat.zero_add] at h
  exact h

/-- Two steps' calls on a use case with one monthly pot. -/
def twoCalls : List ModelCall :=
  [{ step := "pii_filter", model := "small", usage := ⟨40, 10, 0, 0, 0, 0⟩ },
   { step := "guardrail", model := "large", usage := ⟨90, 20, 0, 0, 0, 0⟩ }]

def supportRequest : SideContext :=
  { useCase := some "support", person := some "ana", api := "openai" }

def monthlyPot : StoredBudget :=
  { useCase := "support", scope := useCaseScope, subject := [], period := "month"
    limitCostNanos := none, limitTokens := some 1000, limitRequests := none, enabled := true
    id := 1 }

/-- Every access answers. -/
def undisturbed : CallFates := { stored := [monthlyPot] }

theorem bookedOnce_undisturbed :
    BookedOnce supportRequest (fun _ => undisturbed) twoCalls
      (leavePipeline supportRequest (fun _ => undisturbed) twoCalls .returned).1 := by
  refine (bookedOnce_iff supportRequest (fun _ => undisturbed) twoCalls .returned (by decide)
    (by decide)).mpr fun i _ => ?_
  have hpasses : undisturbed.Passes supportRequest :=
    ⟨rfl, rfl, trivial, rfl, fun _ => rfl, fun _ _ _ => rfl⟩
  split
  · exact hpasses
  · exact hpasses.done

/-- **One price that cannot be read loses a call that has nothing to do with it**: neither the row
nor the booking of the second call is there. A cancellation in the first call does the same. -/
theorem not_bookedOnce :
    (¬ BookedOnce supportRequest
        (fun i => if i = 0 then { undisturbed with price := .error .database } else undisturbed)
        twoCalls
        (leavePipeline supportRequest
          (fun i => if i = 0 then { undisturbed with price := .error .database } else undisturbed)
          twoCalls .returned).1)
      ∧ ¬ BookedOnce supportRequest
        (fun i => if i = 0 then { undisturbed with provenance := .error .cancelled }
          else undisturbed)
        twoCalls
        (leavePipeline supportRequest
          (fun i => if i = 0 then { undisturbed with provenance := .error .cancelled }
            else undisturbed)
          twoCalls .cancelled).1 :=
  ⟨fun h => not_callAccounted_nil (h 1 twoCalls[1] rfl),
    fun h => not_callAccounted_nil (h 1 twoCalls[1] rfl)⟩

end Owed

end AiraGateway
