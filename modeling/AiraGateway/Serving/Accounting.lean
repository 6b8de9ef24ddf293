import AiraGateway.Budgets.Guard
import AiraGateway.Budgets.Counter
import AiraGateway.Serving.Pricing

/-!
# Accounting for a request, however it ends

`accounting` is entered with a reservation and left once. In between the block reports what the
request produced and ends: it returns, its caller leaves, it refuses, or it breaks. One exit then
settles what was produced or releases the reservation, and writes the request's row; the row of a
refusal is left to the surface (`recordRefusal`). The exit runs to its end, and a cancellation that
reaches the wait for it is delivered after it, in place of what was on its way out. What each await
of the exit meets is an argument here (`ExitFates`); Redis answers every `_ADJUST`.

What the stores are told is kept as a list of effects (`ExitEffect`). `replay` carries it out on
the counters; there the moves of a reservation are the service's own (`move_answered`).

* `accounted_once_iff`: exactly when each counter the request reserved in gets one adjust under
  its ident, by the right amounts, and the request gets one row.
* `failed_booking_keeps_reservation`: a booking that raises leaves the reservation open, as it
  counts as resolved by then.
-/

namespace AiraGateway

/-! ### What a request reports -/

/-- Why a request ended the way it did: a closed vocabulary. -/
inductive Outcome
  | served
  | rateLimited
  | budgetExceeded
  | blockedByPipeline
  | modelNotFound
  | invalidRequest
  | upstreamError
  | internalError
  | noCapableModel
  | requestTooLarge
  | clientGone
  | suspended
  | diagnostic
  deriving DecidableEq, Repr

/-- How a usage was established, where it is not the vendor's final report. -/
inductive UsageBasis
  | counted
  | partialReport
  deriving DecidableEq, Repr

/-- A stream the caller left before its vendor reported usage: the answer as received. -/
structure Unreported where
  answer : Text
  calls : List ToolCallPart := []
  deriving DecidableEq

/-- The status recorded when the caller left before anything was produced. -/
def clientClosedRequest : ℕ := 499

/-- What a request produced, reported into the sequence that accounts for it. -/
structure Accounting where
  usage : Option CanonicalUsage := none
  model : Text
  status : ℕ := clientClosedRequest
  outcome : Option Outcome := none
  error : Option Text := none
  produced : Bool := false
  requests : ℤ := 1
  costNanos : Option ℤ := none
  unreported : Option Unreported := none
  usageBasis : Option UsageBasis := none
  deriving DecidableEq

namespace Accounting

def served (state : Accounting) (model : Text) (usage : Option CanonicalUsage) : Accounting :=
  { state with
    model := model
    usage := usage
    status := 200
    outcome := some .served
    produced := true }

/-- Vectors, weighed as the many requests they are. -/
def embedded (state : Accounting) (model : Text) (units : ℤ) (tokens : Option ℤ) : Accounting :=
  { state.served model (tokens.map fun t => { promptTokens := t, completionTokens := 0 }) with
    requests := units }

/-- A ranking, booked in the provider's unit. -/
def ranked (state : Accounting) (model : Text) (units : ℤ) : Accounting :=
  { state.served model (some { promptTokens := units, completionTokens := 0 }) with
    requests := units }

/-- The upstream answered and billed this, whatever becomes of the answer now. -/
def spent (state : Accounting) (model : Text) (usage : Option CanonicalUsage) : Accounting :=
  { state with model := model, usage := usage, produced := true }

/-- The caller left mid-stream after the upstream had reported usage. -/
def abandoned (state : Accounting) (model : Text) (usage : Option CanonicalUsage)
    (complete : Bool) : Accounting :=
  { state.served model usage with
    status := clientClosedRequest
    outcome := some .clientGone
    usageBasis := if complete then state.usageBasis else some .partialReport }

/-- The caller left before the upstream reported anything it used. -/
def leftUnreported (state : Accounting) (model : Text) (unreported : Option Unreported) :
    Accounting :=
  { state with
    model := model
    status := clientClosedRequest
    outcome := some .clientGone
    unreported := unreported }

def failed (state : Accounting) (status : ℕ) (outcome : Outcome) (error : Option Text := none) :
    Accounting :=
  { state with status := status, outcome := some outcome, error := error }

end Accounting

/-- One report of the block. -/
inductive Report
  | served (model : Text) (usage : Option CanonicalUsage)
  | embedded (model : Text) (units : ℤ) (tokens : Option ℤ)
  | ranked (model : Text) (units : ℤ)
  | spent (model : Text) (usage : Option CanonicalUsage)
  | abandoned (model : Text) (usage : Option CanonicalUsage) (complete : Bool)
  | leftUnreported (model : Text) (unreported : Option Unreported)
  | failed (status : ℕ) (outcome : Outcome) (error : Option Text)
  deriving DecidableEq

def Accounting.report (state : Accounting) : Report → Accounting
  | .served model usage => state.served model usage
  | .embedded model units tokens => state.embedded model units tokens
  | .ranked model units => state.ranked model units
  | .spent model usage => state.spent model usage
  | .abandoned model usage complete => state.abandoned model usage complete
  | .leftUnreported model unreported => state.leftUnreported model unreported
  | .failed status outcome error => state.failed status outcome error

/-- A refusal on its way to the surface, as its boundary renders it. -/
structure RefusalError where
  status : ℕ
  outcome : Outcome
  message : Text
  deriving DecidableEq

/-- How the block ends, and what leaves `accounting`. -/
inductive Ending
  | returned
  /-- A cancellation, or the close of a generator nobody reads any more. -/
  | cancelled
  | refused (exc : RefusalError)
  | broke
  deriving DecidableEq

/-- Whether the surface writes the row. -/
def Ending.isRefusal : Ending → Bool
  | .refused _ => true
  | .returned | .cancelled | .broke => false

/-- What the surface enters `accounting` with: the model it prepared, the one the trail says it
served in the end, and whether the installation counts what a cancelled stream used. -/
structure Admitted where
  model : Text
  servedModel : Text := []
  countCancelledStreams : Bool := true
  deriving DecidableEq

/-! ### What the exit does -/

/-- A request-log row, as far as the accounting decides it. -/
structure RequestRow where
  model : Text
  status : ℕ
  usage : Option CanonicalUsage
  costNanos : Option ℤ
  outcome : Outcome
  usageBasis : Option UsageBasis
  error : Option Text
  deriving DecidableEq

/-- What the stores are told of one request: a figure booked in Postgres and committed, an
`_ADJUST` of a counter, a row handed over to the log writer. -/
inductive ExitEffect (κ ι : Type)
  | booked (key : κ) (bill : Bill)
  | adjusted (key : κ) (amounts : Amounts) (reservation : Option ι)
  | recorded (row : RequestRow)
  deriving DecidableEq

/-- What the vendor's counting endpoint answers for the request and for the answer: nothing where
the call fails or the time for both is up. -/
structure VendorCount where
  canCount : Bool := true
  prompt : Option ℤ := none
  answer : Option ℤ := none
  deriving DecidableEq

/-- What the price lookup meets. -/
inductive PriceFate
  | answered (price : Option Price)
  | raises
  deriving DecidableEq

/-- What the database booking meets. It can raise with the commit behind it. -/
inductive BookingFate
  | commits
  | raises (committed : Bool)
  deriving DecidableEq

/-- What the awaits of one exit meet. -/
structure ExitFates where
  count : VendorCount := {}
  price : PriceFate := .answered none
  booking : BookingFate := .commits
  /-- A cancellation reaches the wait for the exit. -/
  cancelledInExit : Bool := false
  /-- A cancellation reaches the wait for the release by `hold`. -/
  cancelledInRelease : Bool := false
  deriving DecidableEq

/-- The shortest prompt a vendor caches on its own. -/
def implicitCacheMinTokens : ℤ := 2048

/-- A counted usage as it is priced: a prompt long enough to have been cached is taken as cached. -/
def floorPriced (usage : CanonicalUsage) : CanonicalUsage :=
  if usage.promptTokens < implicitCacheMinTokens then usage
  else { usage with cachedInputTokens := usage.promptTokens }

/-- The request and the received answer as the vendor counts them, if it does. -/
def countUnreported (count : VendorCount) (unreported : Unreported) : Option CanonicalUsage :=
  if count.canCount then do
    let prompt ← count.prompt
    let answer ← if unreported.answer.isEmpty && unreported.calls.isEmpty then some 0
      else count.answer
    some { promptTokens := prompt, completionTokens := answer }
  else none

/-- What a request costs, where it has a usage and a price; `none` where the lookup raises. -/
def lookUpCost (fate : PriceFate) (usage : Option CanonicalUsage) : Option (Option ℤ) :=
  match usage, fate with
  | none, _ => some none
  | some _, .raises => none
  | some usage, .answered price =>
    some (price.map fun p => (p.ratesFor usage.promptTokens).costNanos usage)

namespace Accounting

/-- Establish what a stream the caller left had used, from the vendor's own count. -/
def countWhatWasLeft (count : VendorCount) (request : Admitted) (state : Accounting) :
    Accounting :=
  match state.unreported with
  | none => state
  | some unreported =>
    if state.produced || !request.countCancelledStreams then state
    else match countUnreported count unreported with
      | none => state
      | some usage =>
        { state with usage := some usage, produced := true, usageBasis := some .counted }

/-- What the usage is priced as. -/
def priced (state : Accounting) : Option CanonicalUsage :=
  if state.usageBasis = some .counted then state.usage.map floorPriced else state.usage

/-- What is booked, at a cost. -/
def bill (state : Accounting) (cost : Option ℤ) : Bill :=
  ⟨(state.usage.map (·.totalTokens)).getD 0, state.requests, cost⟩

end Accounting

namespace Reservation

variable {κ ι : Type}

/-- The counters it was made on: a budget whose period key is not noted was never reserved
against. -/
def reservedKeys (res : Reservation κ ι) : List κ :=
  (res.budgets.filter (·.id ∈ res.periodKeys)).map (·.key)

/-- Move every counter the reservation was made on. -/
def moves (res : Reservation κ ι) (amounts : Amounts) : List (ExitEffect κ ι) :=
  res.reservedKeys.map fun key => .adjusted key amounts (some res.ident)

/-- Give the reservation back. -/
def release (res : Reservation κ ι) : List (ExitEffect κ ι) × Reservation κ ι :=
  (if res.atomic then res.moves res.reserved.negated else [], { res with resolved := true })

/-- `record`: the bill against every budget that binds, in one transaction. -/
def booked (res : Reservation κ ι) (bill : Bill) : List (ExitEffect κ ι) :=
  (res.budgets ++ res.lifted).map fun budget => .booked budget.key bill

/-- A lifted budget reserved nothing, so its counter takes the whole figure. -/
def added (res : Reservation κ ι) (bill : Bill) : List (ExitEffect κ ι) :=
  res.lifted.map fun budget => .adjusted budget.key bill.amounts none

/-- Book the real figure, and move the counters by the difference. The reservation counts as
resolved whatever becomes of the booking. -/
def settle (fate : BookingFate) (bill : Bill) (res : Reservation κ ι) :
    List (ExitEffect κ ι) × Reservation κ ι :=
  (if res.budgets.isEmpty && res.lifted.isEmpty then []
    else match fate with
      -- raised out of `record`: nothing behind it runs
      | .raises committed => if committed then res.booked bill else []
      | .commits =>
        res.booked bill ++ res.added bill
          ++ if res.atomic then res.moves (bill.amounts - res.reserved) else [],
    { res with resolved := true })

/-- Give back what nothing has resolved. -/
def releaseReservation (res : Reservation κ ι) : List (ExitEffect κ ι) × Reservation κ ι :=
  if res.resolved then ([], res) else res.release

end Reservation

/-! ### The sequence -/

section Sequence

variable {κ ι : Type} (fates : ExitFates) (request : Admitted)

/-- The first half of the exit: settle what was produced, or release. What raises here is logged
and ends this half, the reservation as it stands by then. Last the cost for the row. -/
def settleOrRelease (res : Reservation κ ι) (state : Accounting) :
    List (ExitEffect κ ι) × Reservation κ ι × Accounting × Option ℤ :=
  let state := state.countWhatWasLeft fates.count request
  if !state.produced then
    let (log, res) := res.release
    (log, res, state, none)
  else match lookUpCost fates.price state.priced with
    | none => ([], res, state, none)
    | some cost =>
      let (log, res) := res.settle fates.booking (state.bill cost)
      (log, res, { state with costNanos := cost }, cost)

/-- The exit: settle or release, then write the row, unless the surface does. -/
def settleAndRecord (record : Bool) (res : Reservation κ ι) (state : Accounting) :
    List (ExitEffect κ ι) × Reservation κ ι × Accounting :=
  let model := if state.model.isEmpty then request.model else state.model
  let (log, res, state, cost) := settleOrRelease fates request res state
  if record then
    (log ++ [.recorded {
      model := if request.servedModel.isEmpty then model else request.servedModel
      status := state.status
      usage := state.usage
      costNanos := cost
      outcome := state.outcome.getD .clientGone
      usageBasis := state.usageBasis
      error := state.error }], res, state)
  else (log, res, state)

/-- What the block has reported when it ends. A failure of the gateway itself is reported here. -/
def blockState (reports : List Report) (ending : Ending) : Accounting :=
  let state := reports.foldl Accounting.report { model := request.model }
  if ending = .broke then state.failed 500 .internalError else state

/-- Hold the reservation around the block, and account for the request however it ends. Last what
leaves: a cancellation that was held back replaces what was on its way out. -/
def accounting (res : Reservation κ ι) (reports : List Report) (ending : Ending) :
    List (ExitEffect κ ι) × Reservation κ ι × Accounting × Ending :=
  let (log, res, state) := settleAndRecord fates request (!ending.isRefusal) res
    (blockState request reports ending)
  let ending := if fates.cancelledInExit then .cancelled else ending
  -- `hold` finds it open only where nothing in the exit came to resolve it
  if res.resolved then (log, res, state, ending)
  else
    let (released, res) := res.release
    (log ++ released, res, state, if fates.cancelledInRelease then .cancelled else ending)

/-- The row of a refusal. What was spent before it belongs on it. -/
def refusalRow (state : Accounting) (exc : RefusalError) : RequestRow :=
  let spent := if state.produced then some state else none
  { model := request.servedModel
    status := exc.status
    usage := spent.bind (·.usage)
    costNanos := spent.bind (·.costNanos)
    outcome := exc.outcome
    usageBasis := spent.bind (·.usageBasis)
    error := some exc.message }

/-- What the surface does with a refusal: give back what is still open, and write the row. -/
def recordRefusal (res : Reservation κ ι) (state : Accounting) (exc : RefusalError) :
    List (ExitEffect κ ι) × Reservation κ ι :=
  let (log, res) := res.releaseReservation
  (log ++ [.recorded (refusalRow request state exc)], res)

/-- A request from the block on: `accounting`, and the surface's boundary behind it where what
leaves is a refusal. -/
def accountFor (res : Reservation κ ι) (reports : List Report) (ending : Ending) :
    List (ExitEffect κ ι) :=
  match accounting fates request res reports ending with
  | (log, res, state, .refused exc) => log ++ (recordRefusal request res state exc).1
  | (log, _, _, .returned) | (log, _, _, .cancelled) | (log, _, _, .broke) => log

end Sequence

/-! ### What the stores have seen -/

section Seen

variable {κ ι : Type}

namespace ExitEffect

def row? : ExitEffect κ ι → Option RequestRow
  | recorded row => some row
  | booked _ _ | adjusted _ _ _ => none

def bill? : ExitEffect κ ι → Option Bill
  | booked _ bill => some bill
  | adjusted _ _ _ | recorded _ => none

/-- The adjust under an ident. -/
def adjust? [DecidableEq ι] (ident : ι) : ExitEffect κ ι → Option (κ × Amounts)
  | adjusted key amounts (some r) => if r = ident then some (key, amounts) else none
  | adjusted _ _ none | booked _ _ | recorded _ => none

/-- Carry an effect out on the counters. -/
def replay [DecidableEq κ] [DecidableEq ι] (s : Store κ ι) : ExitEffect κ ι → Store κ ι
  | adjusted key amounts r => Function.update s key ((s key).adjust amounts r)
  | booked _ _ | recorded _ => s

end ExitEffect

def rowsOf (log : List (ExitEffect κ ι)) : List RequestRow := log.filterMap (·.row?)

/-- The bill that was booked and committed, if one was. -/
def committedBill (log : List (ExitEffect κ ι)) : Option Bill := log.findSome? (·.bill?)

@[simp]
theorem rowsOf_append (log log' : List (ExitEffect κ ι)) :
    rowsOf (log ++ log') = rowsOf log ++ rowsOf log' := List.filterMap_append

@[simp]
theorem rowsOf_nil : rowsOf ([] : List (ExitEffect κ ι)) = [] := rfl

@[simp]
theorem rowsOf_recorded (rows : List RequestRow) :
    rowsOf (rows.map .recorded : List (ExitEffect κ ι)) = rows := by
  simp [rowsOf, ExitEffect.row?, List.filterMap_map]

@[simp]
theorem rowsOf_moves (res : Reservation κ ι) (amounts : Amounts) :
    rowsOf (res.moves amounts) = [] := by
  simp [rowsOf, Reservation.moves, ExitEffect.row?]

@[simp]
theorem committedBill_append (log log' : List (ExitEffect κ ι)) :
    committedBill (log ++ log') = (committedBill log).or (committedBill log') :=
  List.findSome?_append

@[simp]
theorem committedBill_nil : committedBill ([] : List (ExitEffect κ ι)) = none := rfl

@[simp]
theorem committedBill_recorded (rows : List RequestRow) :
    committedBill (rows.map .recorded : List (ExitEffect κ ι)) = none := by
  simp [committedBill, ExitEffect.bill?]

@[simp]
theorem committedBill_moves (res : Reservation κ ι) (amounts : Amounts) :
    committedBill (res.moves amounts) = none := by
  simp [committedBill, Reservation.moves, ExitEffect.bill?]

variable [DecidableEq ι]

/-- The adjusts under an ident, in order. -/
def adjustsUnder (ident : ι) (log : List (ExitEffect κ ι)) : List (κ × Amounts) :=
  log.filterMap (·.adjust? ident)

@[simp]
theorem adjustsUnder_append (ident : ι) (log log' : List (ExitEffect κ ι)) :
    adjustsUnder ident (log ++ log') = adjustsUnder ident log ++ adjustsUnder ident log' :=
  List.filterMap_append

@[simp]
theorem adjustsUnder_nil (ident : ι) : adjustsUnder ident ([] : List (ExitEffect κ ι)) = [] := rfl

@[simp]
theorem adjustsUnder_recorded (ident : ι) (rows : List RequestRow) :
    adjustsUnder ident (rows.map .recorded : List (ExitEffect κ ι)) = [] := by
  simp [adjustsUnder, ExitEffect.adjust?]

@[simp]
theorem adjustsUnder_moves (res : Reservation κ ι) (amounts : Amounts) :
    adjustsUnder res.ident (res.moves amounts) = res.reservedKeys.map fun key => (key, amounts) := by
  have hsome : ∀ key : κ, ExitEffect.adjust? res.ident (.adjusted key amounts (some res.ident))
      = some (key, amounts) := fun key => if_pos rfl
  rw [adjustsUnder, Reservation.moves, List.filterMap_map]
  simp only [Function.comp_def, hsome, List.filterMap_eq_map']

/-- What each counter is owed: the difference where a bill was booked, else the reservation back. -/
def Reservation.correction (res : Reservation κ ι) : Option Bill → Amounts
  | some bill => bill.amounts - res.reserved
  | none => res.reserved.negated

/-- Every counter the reservation was made on has received one adjust under its ident, by what it
is owed. -/
def Reservation.CorrectedOnce (res : Reservation κ ι) (log : List (ExitEffect κ ι)) : Prop :=
  adjustsUnder res.ident log
    = res.reservedKeys.map fun key => (key, res.correction (committedBill log))

variable [DecidableEq κ]

/-- **Accounted for once**: every counter the reservation was made on has received one adjust
under its ident, by what it is owed, and none names the reservation any more; one row has been
handed over. -/
structure AccountedOnce (res : Reservation κ ι) (log : List (ExitEffect κ ι)) : Prop where
  corrected : res.CorrectedOnce log
  closed : ∀ (s : Store κ ι), ∀ key ∈ res.reservedKeys,
    (log.foldl ExitEffect.replay s key).openSet.lookup res.ident = none
  row : ∃ row, rowsOf log = [row]

/-! ### Carrying the effects out -/

/-- With every `_ADJUST` answered, `_move` is the moves carried out. -/
theorem move_answered (s : Store κ ι) (res : Reservation κ ι) (amounts : Amounts) :
    move (fun _ => .answered) res amounts res.budgets s
      = ((res.moves amounts).foldl ExitEffect.replay s, none) := by
  have hmoves : ∀ (budgets : List (Budget κ)) (s : Store κ ι),
      move (fun _ => .answered) res amounts budgets s
        = ((((budgets.filter (·.id ∈ res.periodKeys)).map (·.key)).map fun key =>
          (.adjusted key amounts (some res.ident) : ExitEffect κ ι)).foldl ExitEffect.replay s,
          none) := by
    intro budgets
    induction budgets with
    | nil => exact fun s => rfl
    | cons budget rest ih =>
      intro s
      by_cases hnoted : budget.id ∈ res.periodKeys
      · rw [List.filter_cons_of_pos (by simpa using hnoted), move, if_pos hnoted]
        exact ih _
      · rw [List.filter_cons_of_neg (by simpa using hnoted), move, if_neg hnoted]
        exact ih s
  exact hmoves res.budgets s

/-- The release here is the service's with every `_ADJUST` answered. -/
theorem release_answered (s : Store κ ι) (res : Reservation κ ι) :
    release (fun _ => .answered) s res
      = (res.release.1.foldl ExitEffect.replay s, res.release.2, none) := by
  have hmove := move_answered s { res with resolved := true } res.reserved.negated
  by_cases hatomic : res.atomic = true
  · rw [release, Reservation.release, if_pos hatomic, if_pos hatomic, hmove]
    rfl
  · rw [release, Reservation.release, if_neg hatomic, if_neg hatomic]
    rfl

omit [DecidableEq κ] in
/-- An `_ADJUST` opens nothing. -/
theorem lookup_adjust {k : CounterKeys ι} {ident : ι} (h : k.openSet.lookup ident = none)
    (amounts : Amounts) (r : Option ι) : (k.adjust amounts r).openSet.lookup ident = none := by
  rcases r with _ | r
  · exact h
  · rw [CounterKeys.adjust_openSet]
    rcases eq_or_ne ident r with rfl | hne
    · exact AList.lookup_erase _ _
    · rwa [AList.lookup_erase_ne hne]

/-- A reservation that has been adjusted on a counter is not open there. -/
theorem lookup_replay {ident : ι} {key : κ} (log : List (ExitEffect κ ι)) (s : Store κ ι)
    (h : (s key).openSet.lookup ident = none ∨ key ∈ (adjustsUnder ident log).map Prod.fst) :
    (log.foldl ExitEffect.replay s key).openSet.lookup ident = none := by
  induction log generalizing s with
  | nil => simpa using h
  | cons effect log ih =>
    refine ih _ ?_
    cases effect with
    | booked _ _ => exact h
    | recorded _ => exact h
    | adjusted key' amounts r =>
      by_cases hhere : key = key' ∧ r = some ident
      · obtain ⟨rfl, rfl⟩ := hhere
        left
        rw [ExitEffect.replay, Function.update_self, CounterKeys.adjust_openSet]
        exact AList.lookup_erase _ _
      · rcases h with hnone | hmem
        · left
          rcases eq_or_ne key key' with rfl | hne
          · rw [ExitEffect.replay, Function.update_self]
            exact lookup_adjust hnone amounts r
          · rwa [ExitEffect.replay, Function.update_of_ne hne]
        · right
          -- this adjust is elsewhere or under another ident, so the one meant comes later
          rcases r with _ | r
          · exact hmem
          · by_cases hr : r = ident
            · obtain rfl := hr
              have hcons : adjustsUnder r (.adjusted key' amounts (some r) :: log)
                  = (key', amounts) :: adjustsUnder r log :=
                List.filterMap_cons_some (if_pos rfl)
              rw [hcons, List.map_cons, List.mem_cons] at hmem
              exact hmem.resolve_left fun hkey => hhere ⟨hkey, rfl⟩
            · have hcons : adjustsUnder ident (.adjusted key' amounts (some r) :: log)
                  = adjustsUnder ident log := List.filterMap_cons_none (if_neg hr)
              rwa [hcons] at hmem

/-- The adjusts close every counter, so what is left to show are they and the row. -/
theorem accountedOnce_iff_corrected {res : Reservation κ ι} {log : List (ExitEffect κ ι)} :
    AccountedOnce res log ↔ res.CorrectedOnce log ∧ (rowsOf log).length = 1 := by
  constructor
  · intro h
    exact ⟨h.corrected, List.length_eq_one_iff.mpr h.row⟩
  · rintro ⟨hcorrected, hrow⟩
    refine ⟨hcorrected, fun s key hkey => lookup_replay log s (.inr ?_),
      List.length_eq_one_iff.mp hrow⟩
    rw [hcorrected, List.map_map]
    simpa using hkey

/-- Rows between the effects on the budgets change nothing of these. -/
theorem accountedOnce_with_rows_iff {res : Reservation κ ι} {log log' : List (ExitEffect κ ι)}
    (hlog : rowsOf log = []) (hlog' : rowsOf log' = []) (rows rows' : List RequestRow) :
    AccountedOnce res (log ++ rows.map .recorded ++ log' ++ rows'.map .recorded)
      ↔ res.CorrectedOnce (log ++ log') ∧ (rows ++ rows').length = 1 := by
  rw [accountedOnce_iff_corrected, Reservation.CorrectedOnce, Reservation.CorrectedOnce]
  simp [hlog, hlog']

end Seen

/-! ### What each part of the exit does -/

section Parts

variable {κ ι : Type}

namespace Reservation

@[simp]
theorem release_resolved (res : Reservation κ ι) : res.release.2.resolved = true := rfl

theorem release_of_atomic {res : Reservation κ ι} (hatomic : res.atomic = true) :
    res.release.1 = res.moves res.reserved.negated := if_pos hatomic

@[simp]
theorem rowsOf_release (res : Reservation κ ι) : rowsOf res.release.1 = [] := by
  unfold release
  split_ifs <;> simp

theorem correctedOnce_release [DecidableEq ι] {res : Reservation κ ι}
    (hatomic : res.atomic = true) : res.CorrectedOnce res.release.1 := by
  rw [release_of_atomic hatomic, CorrectedOnce, adjustsUnder_moves, committedBill_moves]
  rfl

@[simp]
theorem settle_resolved (fate : BookingFate) (bill : Bill) (res : Reservation κ ι) :
    (res.settle fate bill).2.resolved = true := rfl

@[simp]
theorem rowsOf_booked (res : Reservation κ ι) (bill : Bill) : rowsOf (res.booked bill) = [] := by
  simp [rowsOf, booked, ExitEffect.row?]

@[simp]
theorem rowsOf_added (res : Reservation κ ι) (bill : Bill) : rowsOf (res.added bill) = [] := by
  simp [rowsOf, added, ExitEffect.row?]

@[simp]
theorem rowsOf_settle (fate : BookingFate) (bill : Bill) (res : Reservation κ ι) :
    rowsOf (res.settle fate bill).1 = [] := by
  unfold settle
  rcases fate with _ | ⟨_ | _⟩ <;> split_ifs <;> simp

variable [DecidableEq ι]

@[simp]
theorem adjustsUnder_booked (ident : ι) (res : Reservation κ ι) (bill : Bill) :
    adjustsUnder ident (res.booked bill) = [] := by
  simp [adjustsUnder, booked, ExitEffect.adjust?]

/-- What a lifted budget's counter takes is under no ident. -/
@[simp]
theorem adjustsUnder_added (ident : ι) (res : Reservation κ ι) (bill : Bill) :
    adjustsUnder ident (res.added bill) = [] := by
  simp [adjustsUnder, added, ExitEffect.adjust?]

omit [DecidableEq ι] in
theorem committedBill_booked {res : Reservation κ ι} (h : res.budgets ++ res.lifted ≠ [])
    (bill : Bill) : committedBill (res.booked bill) = some bill := by
  obtain ⟨budget, rest, hbudgets⟩ := List.exists_cons_of_ne_nil h
  rw [booked, hbudgets]
  rfl

/-- **A booking that raises leaves every counter as it is**, and the reservation resolved. -/
theorem adjustsUnder_settle_raises (committed : Bool) (bill : Bill) (res : Reservation κ ι) :
    adjustsUnder res.ident (res.settle (.raises committed) bill).1 = [] := by
  unfold settle
  rcases committed with _ | _ <;> split_ifs <;> simp_all

theorem correctedOnce_settle {res : Reservation κ ι} (hatomic : res.atomic = true)
    (bill : Bill) : res.CorrectedOnce (res.settle .commits bill).1 := by
  by_cases hbudgets : res.budgets ++ res.lifted = []
  · have hnone : res.budgets = [] ∧ res.lifted = [] := List.append_eq_nil_iff.mp hbudgets
    have hlog : (res.settle .commits bill).1 = [] := by simp [settle, hnone.1, hnone.2]
    have hkeys : res.reservedKeys = [] := by simp [reservedKeys, hnone.1]
    rw [CorrectedOnce, hlog, hkeys]
    rfl
  · have hlog : (res.settle .commits bill).1
        = res.booked bill ++ res.added bill ++ res.moves (bill.amounts - res.reserved) := by
      have hany : ¬(res.budgets.isEmpty && res.lifted.isEmpty) = true := by
        simpa [List.append_eq_nil_iff] using hbudgets
      simp only [settle, if_neg hany, if_pos hatomic]
    rw [CorrectedOnce, hlog]
    simp [committedBill_booked hbudgets, correction]

/-- A settle corrects every counter, unless there is one and the booking raises. -/
theorem correctedOnce_settle_iff {res : Reservation κ ι} (hatomic : res.atomic = true)
    {fate : BookingFate} {bill : Bill} : res.CorrectedOnce (res.settle fate bill).1
      ↔ (res.reservedKeys ≠ [] → fate = .commits) := by
  cases fate with
  | commits => simp [correctedOnce_settle hatomic bill]
  | raises committed =>
    rw [CorrectedOnce, adjustsUnder_settle_raises, eq_comm, List.map_eq_nil_iff]
    simp

end Reservation

end Parts

/-! ### Where the exit goes -/

section Exits

variable {κ ι : Type} (fates : ExitFates) (request : Admitted)

/-- Something chargeable was produced: the block reported it, or the vendor has counted it. -/
def Accounting.Chargeable (state : Accounting) : Prop :=
  state.produced = true ∨ request.countCancelledStreams = true ∧
    ∃ unreported ∈ state.unreported, (countUnreported fates.count unreported).isSome = true

/-- The price of something chargeable is looked up, and the lookup raises. -/
def Accounting.LookUpRaises (state : Accounting) : Prop :=
  state.Chargeable fates request ∧ (state.produced = true → state.usage.isSome = true) ∧
    fates.price = .raises

/-- The count finds something to charge for, or leaves the state as it was. -/
theorem Accounting.countWhatWasLeft_cases (state : Accounting) :
    (state.produced = true ∨ ¬ state.Chargeable fates request) ∧
        state.countWhatWasLeft fates.count request = state ∨
      state.produced = false ∧ state.Chargeable fates request ∧ ∃ usage,
        state.countWhatWasLeft fates.count request
          = { state with usage := some usage, produced := true, usageBasis := some .counted } := by
  unfold countWhatWasLeft Chargeable
  rcases hproduced : state.produced with _ | _
  · rcases hunreported : state.unreported with _ | unreported
    · simp
    · rcases hsetting : request.countCancelledStreams with _ | _
      · simp
      · rcases hcount : countUnreported fates.count unreported with _ | usage
        · simp [hcount]
        · simp [hcount]
  · rcases hunreported : state.unreported with _ | unreported <;> simp

@[simp]
theorem Accounting.isSome_priced (state : Accounting) :
    state.priced.isSome = state.usage.isSome := by
  unfold priced
  split_ifs
  · exact Option.isSome_map
  · rfl

theorem lookUpCost_eq_none_iff {fate : PriceFate} {usage : Option CanonicalUsage} :
    lookUpCost fate usage = none ↔ usage.isSome = true ∧ fate = .raises := by
  rcases usage with _ | usage <;> rcases fate with price | _ <;> simp [lookUpCost]

/-- The three ways through the first half of the exit: nothing to charge for, a price that cannot
be looked up, and a bill. -/
theorem settleOrRelease_cases (res : Reservation κ ι) (state : Accounting) :
    ¬ state.Chargeable fates request ∧ (∃ left, settleOrRelease fates request res state
        = (res.release.1, res.release.2, left, none)) ∨
      state.LookUpRaises fates request ∧ (∃ left, settleOrRelease fates request res state
        = ([], res, left, none)) ∨
      (state.Chargeable fates request ∧ ¬ state.LookUpRaises fates request) ∧
        ∃ bill left cost, settleOrRelease fates request res state
          = ((res.settle fates.booking bill).1, (res.settle fates.booking bill).2, left, cost) := by
  -- `left` is what is known once the count is over
  have hpriced : ∀ left : Accounting, left.produced = true →
      state.countWhatWasLeft fates.count request = left → state.Chargeable fates request →
      (left.usage.isSome = true ↔ (state.produced = true → state.usage.isSome = true)) →
      state.LookUpRaises fates request ∧ (∃ left, settleOrRelease fates request res state
        = ([], res, left, none)) ∨
      (state.Chargeable fates request ∧ ¬ state.LookUpRaises fates request) ∧
        ∃ bill left cost, settleOrRelease fates request res state
          = ((res.settle fates.booking bill).1, (res.settle fates.booking bill).2, left, cost) := by
    intro left hproduced hleft hcharge husage
    unfold settleOrRelease
    simp only [hleft, hproduced]
    rcases hcost : lookUpCost fates.price left.priced with _ | cost
    · rw [lookUpCost_eq_none_iff, Accounting.isSome_priced, husage] at hcost
      exact .inl ⟨⟨hcharge, hcost⟩, left, rfl⟩
    · refine .inr ⟨⟨hcharge, fun hraises => ?_⟩, left.bill cost, _, cost, rfl⟩
      have hnone : lookUpCost fates.price left.priced = none := by
        rw [lookUpCost_eq_none_iff, Accounting.isSome_priced, husage]
        exact hraises.2
      rw [hnone] at hcost
      cases hcost
  rcases state.countWhatWasLeft_cases fates request with
    ⟨hproduced | hnothing, hleft⟩ | ⟨hproduced, hcharge, usage, hleft⟩
  · exact .inr (hpriced state hproduced hleft (.inl hproduced) (by simp [hproduced]))
  · have hproduced : state.produced = false :=
      Bool.eq_false_iff.mpr fun h => hnothing (.inl h)
    refine .inl ⟨hnothing, state, ?_⟩
    unfold settleOrRelease
    simp only [hleft, hproduced]
    rfl
  · exact .inr (hpriced _ rfl hleft hcharge (by simp [hproduced]))

variable {fates request}

/-- Whether a cancellation is delivered behind the exit or, where that left the reservation open,
behind the release by `hold`. -/
def ExitFates.CancelsBehind (fates : ExitFates) (resolved : Bool) : Prop :=
  fates.cancelledInExit = true ∨ resolved = false ∧ fates.cancelledInRelease = true

instance (resolved : Bool) : Decidable (fates.CancelsBehind resolved) :=
  inferInstanceAs (Decidable (_ ∨ _))

@[simp]
theorem releaseReservation_resolved (res : Reservation κ ι) :
    res.releaseReservation.2.resolved = true := by
  unfold Reservation.releaseReservation
  split_ifs with hres
  · exact hres
  · rfl

theorem releaseReservation_of_resolved {res : Reservation κ ι} (hres : res.resolved = true) :
    res.releaseReservation = ([], res) := if_pos hres

theorem releaseReservation_of_open {res : Reservation κ ι} (hres : res.resolved = false) :
    res.releaseReservation = res.release := if_neg (by simp [hres])

/-- What `accounting` does after the first half of its exit: the row unless the surface writes it,
`hold`'s release, and what leaves. -/
theorem accounting_eq {res : Reservation κ ι} {reports : List Report} {ending : Ending}
    {log : List (ExitEffect κ ι)} {res' : Reservation κ ι} {state : Accounting} {cost : Option ℤ}
    (h : settleOrRelease fates request res (blockState request reports ending)
      = (log, res', state, cost)) :
    ∃ rows : List RequestRow, (rows.length = if ending.isRefusal then 0 else 1) ∧
      accounting fates request res reports ending
        = (log ++ rows.map .recorded ++ res'.releaseReservation.1, res'.releaseReservation.2, state,
          if fates.CancelsBehind res'.resolved then .cancelled else ending) := by
  have hrecord : ∃ rows : List RequestRow, (rows.length = if ending.isRefusal then 0 else 1) ∧
      settleAndRecord fates request (!ending.isRefusal) res (blockState request reports ending)
        = (log ++ rows.map .recorded, res', state) := by
    unfold settleAndRecord
    simp only [h]
    rcases ending.isRefusal with _ | _
    · exact ⟨[_], rfl, rfl⟩
    · exact ⟨[], rfl, by simp⟩
  obtain ⟨rows, hlength, hrecord⟩ := hrecord
  refine ⟨rows, hlength, ?_⟩
  unfold accounting
  simp only [hrecord]
  rcases hres : res'.resolved with _ | _
  · rw [releaseReservation_of_open hres]
    by_cases hexit : fates.cancelledInExit = true <;>
      by_cases hhold : fates.cancelledInRelease = true <;>
        simp [ExitFates.CancelsBehind, hexit, hhold]
  · rw [releaseReservation_of_resolved hres]
    by_cases hexit : fates.cancelledInExit = true <;>
      simp [ExitFates.CancelsBehind, hexit]

/-- The effects of a request: those of the first half of the exit and of `hold`, and rows. It is
one row exactly where the surface gets to see a refusal. -/
theorem accountFor_eq {res : Reservation κ ι} {reports : List Report} {ending : Ending}
    {log : List (ExitEffect κ ι)} {res' : Reservation κ ι} {state : Accounting} {cost : Option ℤ}
    (h : settleOrRelease fates request res (blockState request reports ending)
      = (log, res', state, cost)) :
    ∃ rows rows' : List RequestRow,
      accountFor fates request res reports ending
        = log ++ rows.map .recorded ++ res'.releaseReservation.1 ++ rows'.map .recorded ∧
      ((rows ++ rows').length = 1 ↔
        (ending.isRefusal = true → ¬ fates.CancelsBehind res'.resolved)) := by
  obtain ⟨rows, hlength, haccounting⟩ := accounting_eq h
  unfold accountFor
  rw [haccounting]
  by_cases hcancels : fates.CancelsBehind res'.resolved
  · refine ⟨rows, [], by simp [hcancels], ?_⟩
    rcases hrefusal : ending.isRefusal with _ | _ <;> simp_all
  · simp only [if_neg hcancels]
    rcases ending with _ | _ | exc | _
    · exact ⟨rows, [], by simp, by simp_all [Ending.isRefusal]⟩
    · exact ⟨rows, [], by simp, by simp_all [Ending.isRefusal]⟩
    · -- the reservation is resolved by then, so the boundary only writes its row
      have hnone := releaseReservation_of_resolved (releaseReservation_resolved res')
      refine ⟨rows, [refusalRow request state exc], ?_, by simp_all [Ending.isRefusal]⟩
      simp [recordRefusal, hnone]
    · exact ⟨rows, [], by simp, by simp_all [Ending.isRefusal]⟩

/-- Nothing the block produced is lost in the booking: it is not the booking of a request with
something reserved and something to charge for that raises. -/
def BookingStands (fates : ExitFates) (request : Admitted) (res : Reservation κ ι)
    (state : Accounting) : Prop :=
  res.reservedKeys ≠ [] → state.Chargeable fates request → ¬ state.LookUpRaises fates request →
    fates.booking = .commits

/-- A refusal reaches the surface: no cancellation is delivered behind the exit, nor behind the
release that a lookup which raises leaves to `hold`. -/
def RefusalArrives (fates : ExitFates) (request : Admitted) (state : Accounting)
    (ending : Ending) : Prop :=
  ending.isRefusal = true → fates.cancelledInExit = false ∧
    (state.LookUpRaises fates request → fates.cancelledInRelease = false)

/-- **Exactly when a request is accounted for once**, whatever its block reports and however it
ends: where the booking does not raise on a reservation it would have to correct, and no
cancellation takes the place of a refusal. -/
theorem accounted_once_iff [DecidableEq κ] [DecidableEq ι] {res : Reservation κ ι}
    (hatomic : res.atomic = true) (hopen : res.resolved = false) (reports : List Report)
    (ending : Ending) :
    AccountedOnce res (accountFor fates request res reports ending)
      ↔ BookingStands fates request res (blockState request reports ending) ∧
        RefusalArrives fates request (blockState request reports ending) ending := by
  set state := blockState request reports ending with hstate
  rcases settleOrRelease_cases fates request res state with
    ⟨hnothing, left, h⟩ | ⟨hraises, left, h⟩ | ⟨⟨hcharge, hlookup⟩, bill, left, cost, h⟩
  · -- nothing to charge for: released in the exit
    obtain ⟨rows, rows', hlog, hrow⟩ := accountFor_eq h
    have hres : res.release.2.releaseReservation.1 = [] := by
      rw [releaseReservation_of_resolved (Reservation.release_resolved res)]
    rw [hlog, accountedOnce_with_rows_iff (by simp) (by simp [hres]), hres, List.append_nil, hrow]
    have hcorrected := Reservation.correctedOnce_release (κ := κ) hatomic
    simp [hcorrected, BookingStands, RefusalArrives, ExitFates.CancelsBehind, hnothing,
      Accounting.LookUpRaises]
  · -- the lookup raised: `hold` finds the reservation open
    obtain ⟨rows, rows', hlog, hrow⟩ := accountFor_eq h
    rw [hlog, accountedOnce_with_rows_iff (by simp)
      (by simp [releaseReservation_of_open hopen]), releaseReservation_of_open hopen,
      List.nil_append, hrow]
    have hcorrected := Reservation.correctedOnce_release hatomic
    simp [hcorrected, BookingStands, RefusalArrives, ExitFates.CancelsBehind, hraises, hopen]
  · -- settled: the adjusts are there where the booking has not raised
    obtain ⟨rows, rows', hlog, hrow⟩ := accountFor_eq h
    have hres : (res.settle fates.booking bill).2.releaseReservation.1 = [] := by
      rw [releaseReservation_of_resolved (Reservation.settle_resolved _ _ res)]
    rw [hlog, accountedOnce_with_rows_iff (by simp) (by simp [hres]), hres, List.append_nil, hrow,
      Reservation.correctedOnce_settle_iff hatomic]
    simp [BookingStands, RefusalArrives, ExitFates.CancelsBehind, hcharge, hlookup]

end Exits

/-! ### A booking that raises -/

/-- A request with room set aside in two counters. -/
def heldInTwo : Reservation Bool Unit where
  budgets := [{ id := 1, key := false, limits := {} }, { id := 2, key := true, limits := {} }]
  reserved := ⟨100, 1, 0⟩
  periodKeys := [2, 1]
  atomic := true
  ident := ()

/-- The conditions can be met: an answer that was billed is refused then, and its price cannot be
looked up. -/
theorem accounted_once_iff_spent :
    AccountedOnce heldInTwo
      (accountFor { price := .raises, booking := .raises true } { model := "m" } heldInTwo
        [.spent "m" (some { promptTokens := 30, completionTokens := 5 })]
        (.refused ⟨502, .upstreamError, "unfinished"⟩)) :=
  (accounted_once_iff rfl rfl _ _).mpr
    ⟨fun _ _ hlookup => absurd ⟨.inl rfl, fun _ => rfl, rfl⟩ hlookup, fun _ => ⟨rfl, fun _ => rfl⟩⟩

/-- **A booking that raises keeps the reservation**: the answer is served and recorded, the
database does not take the booking, and neither counter is told, so each keeps the room that was
set aside in it. -/
theorem failed_booking_keeps_reservation :
    ¬ AccountedOnce heldInTwo
      (accountFor { booking := .raises false } { model := "m" } heldInTwo
        [.served "m" (some { promptTokens := 30, completionTokens := 5 })] .returned) := by
  intro h
  have hcorrected : adjustsUnder () _ = _ := h.corrected
  revert hcorrected
  decide

/-- A refusal whose exit is cancelled leaves no row. -/
example :
    rowsOf (accountFor { cancelledInExit := true } { model := "m" } heldInTwo []
      (.refused ⟨502, .upstreamError, "unfinished"⟩)) = [] := by
  decide

end AiraGateway
