import AiraGateway.Budgets.Ledger
import Mathlib.Data.List.TakeWhile

/-!
# Reserving against every budget, and undoing it

`BudgetService.guard` reserves one request against every budget that binds it, one counter after
the other. It can be stopped at any of its awaits: a budget refuses, a read of Postgres fails,
Redis does not answer, a cancellation is delivered. What an await meets is an argument here
(`Fates`), so a statement over all fates is one over every way the guard can end.

A script call that gets no answer may have run all the same. The undo knows what to give back
from `period_keys`, which names a budget only once its script has answered, and it is shielded
from a cancellation on one of its three paths only.

* `guard_holds_nothing_iff`: exactly when a guard that ends without a reservation holds nothing.
* `guard_keeps_cancelled_undo`: a cancellation in the undo of a refused request leaves the
  reservations on the other budgets in their counters.
-/

namespace AiraGateway

/-! ### What an await can meet -/

/-- What leaves a function instead of its result. -/
inductive Raised
  | exceeded (budget : ℕ) (breached : Dimension)
  | cancelled
  | countersUnavailable
  | database
  deriving DecidableEq, Repr

/-- What a read of Postgres meets instead of its row. -/
inductive ReadFailure
  | cancelled
  | database
  deriving DecidableEq, Repr

/-- How a script call ends without an answer. -/
inductive CallFailure
  | cancelled
  | countersUnavailable
  deriving DecidableEq, Repr

/-- What a `_RESERVE` call meets. Without an answer the script may have run or not. -/
inductive CallFate
  | answered
  | unanswered (failure : CallFailure) (ran : Bool)
  deriving DecidableEq, Repr

/-- What an `_ADJUST` call meets: Redis answers each one that is issued, a call the runner does
not issue ends at once, and a cancellation is delivered before or after the script ran. -/
inductive UndoFate
  | answered
  | unavailable
  | cancelled (ran : Bool)
  deriving DecidableEq, Repr

def ReadFailure.raised : ReadFailure → Raised
  | .cancelled => .cancelled
  | .database => .database

def CallFailure.raised : CallFailure → Raised
  | .cancelled => .cancelled
  | .countersUnavailable => .countersUnavailable

/-- A cancellation is held back until the work is done (`uninterrupted`). -/
def UndoFate.uninterrupted : UndoFate → UndoFate
  | .cancelled _ => .answered
  | fate => fate

@[simp] theorem UndoFate.uninterrupted_answered : answered.uninterrupted = answered := rfl

@[simp] theorem UndoFate.uninterrupted_unavailable : unavailable.uninterrupted = unavailable := rfl

@[simp]
theorem UndoFate.uninterrupted_cancelled (ran : Bool) : (cancelled ran).uninterrupted = answered :=
  rfl

/-- What each await of one guard meets, the per-budget ones by the budget's id. -/
structure Fates where
  applicable : Option ReadFailure := none
  seed : ℕ → Option ReadFailure := fun _ => none
  reserve : ℕ → CallFate := fun _ => .answered
  undo : ℕ → UndoFate := fun _ => .answered
  check : ℕ → Option ReadFailure := fun _ => none
  leaving : Bool := false

/-! ### The service -/

/-- A budget as one request meets it: `key` is its scope key with the key of the period the
request falls in. -/
structure Budget (κ : Type) where
  id : ℕ
  key : κ
  limits : Limits
  enabled : Bool := true

/-- What a request has set aside. `periodKeys` names the budgets whose period key is noted. -/
structure Reservation (κ ι : Type) where
  budgets : List (Budget κ) := []
  lifted : List (Budget κ) := []
  reserved : Amounts := {}
  periodKeys : List ℕ := []
  atomic : Bool := false
  resolved : Bool := false
  ident : ι

/-- What Redis holds, counter by counter. -/
abbrev Store (κ ι : Type) [DecidableEq ι] := κ → CounterKeys ι

section Service

variable {κ ι : Type} [DecidableEq κ] [DecidableEq ι]

/-- Close and correct one reservation on one counter. -/
def Store.adjust (s : Store κ ι) (key : κ) (amounts : Amounts) (r : ι) : Store κ ι :=
  Function.update s key ((s key).adjust amounts (some r))

/-- Move every counter the reservation was made on. A budget whose period key is not noted was
never reserved against, and a counter that cannot be reached is passed over. -/
def move (fate : ℕ → UndoFate) (res : Reservation κ ι) (amounts : Amounts) :
    List (Budget κ) → Store κ ι → Store κ ι × Option Raised
  | [], s => (s, none)
  | budget :: rest, s =>
    if budget.id ∈ res.periodKeys then
      let moved := s.adjust budget.key amounts res.ident
      match fate budget.id with
      | .answered => move fate res amounts rest moved
      | .unavailable => move fate res amounts rest s
      | .cancelled ran => (if ran then moved else s, some .cancelled)
    else move fate res amounts rest s

/-- Give a reservation back. -/
def release (fate : ℕ → UndoFate) (s : Store κ ι) (res : Reservation κ ι) :
    Store κ ι × Reservation κ ι × Option Raised :=
  let res := { res with resolved := true }
  if res.atomic then
    let (s, raised) := move fate res res.reserved.negated res.budgets s
    (s, res, raised)
  else (s, res, none)

/-- Release to the end, whatever is cancelled meanwhile. -/
def releaseQuietly (fate : ℕ → UndoFate) (s : Store κ ι) (res : Reservation κ ι) :
    Store κ ι × Reservation κ ι :=
  let (s, res, _) := release (fun budget => (fate budget).uninterrupted) s res
  (s, res)

variable (fates : Fates) (usage : κ → Amounts) (now : ℤ)

/-- Reserve against one budget after the other; the reservation is filled in as it goes, so the
caller still has it when this raises part-way through. -/
def reserveEach : List (Budget κ) → Store κ ι → Reservation κ ι →
    Store κ ι × Reservation κ ι × Option Raised
  | [], s, res => (s, { res with resolved := false }, none)
  | budget :: rest, s, res =>
    match fates.seed budget.id with
    | some failure => (s, res, some failure.raised)
    | none =>
      let (breached, keys) := (s budget.key).reserve budget.limits res.reserved
        (usage budget.key) (some res.ident) now
      let scripted := Function.update s budget.key keys
      match fates.reserve budget.id, breached with
      -- without an answer the period key is not noted, so no release knows of this counter
      | .unanswered failure ran, _ => (if ran then scripted else s, res, some failure.raised)
      | .answered, some d =>
        -- not shielded: a cancellation here leaves with the reservation marked resolved
        match release fates.undo scripted res with
        | (s, res, some raised) => (s, res, some raised)
        | (s, res, none) => (s, res, some (.exceeded budget.id d))
      | .answered, none =>
        reserveEach rest scripted { res with periodKeys := budget.id :: res.periodKeys }

/-- Which limit the Postgres figure has met, in the order the service asks. -/
def exhausted (limits : Limits) (usage : Amounts) : Option Dimension :=
  if limits.costNanos.any (· ≤ usage.costNanos) then some .cost
  else if limits.requests.any (· ≤ usage.requests) then some .requests
  else if limits.tokens.any (· ≤ usage.tokens) then some .tokens
  else none

/-- Read each usage and refuse where a limit is already met. -/
def checkOnly : List (Budget κ) → Option Raised
  | [] => none
  | budget :: rest =>
    match fates.check budget.id, exhausted budget.limits (usage budget.key) with
    | some failure, _ => some failure.raised
    | none, some d => some (.exceeded budget.id d)
    | none, none => checkOnly rest

/-- Leaving the session: a cancellation delivered there replaces what was on its way out. -/
def leave (s : Store κ ι) (result : Except Raised (Reservation κ ι)) :
    Store κ ι × Except Raised (Reservation κ ι) :=
  (s, if fates.leaving then .error .cancelled else result)

/-- The path without a reachable counter store. -/
def fallback (budgets : List (Budget κ)) (unreserved : Reservation κ ι) (s : Store κ ι) :
    Store κ ι × Except Raised (Reservation κ ι) :=
  match checkOnly fates usage budgets with
  | some raised => leave fates s (.error raised)
  | none => leave fates s (.ok unreserved)

/-- What the guard does with the end of `_reserve`. Counters that cannot be reached are handed
back and enforced without; any other failure is handed back unless that was already begun. -/
def afterReserve (unreserved : Reservation κ ι) :
    Store κ ι × Reservation κ ι × Option Raised → Store κ ι × Except Raised (Reservation κ ι)
  | (s, res, none) => leave fates s (.ok res)
  | (s, res, some .countersUnavailable) =>
    match release fates.undo s res with
    | (s, _, some raised) => leave fates s (.error raised)
    | (s, _, none) => fallback fates usage res.budgets unreserved s
  | (s, res, some raised) =>
    if res.resolved then leave fates s (.error raised)
    else leave fates (releaseQuietly fates.undo s res).1 (.error raised)

/-- Reserve against the budgets that bind a request, or say why not. `ledger` is whether there is
a shared counter store, `bound` what `applicable` answers. -/
def guard (enforce ledger : Bool) (bound : List (Budget κ)) (estimated : Option Amounts)
    (ident : ι) (s : Store κ ι) : Store κ ι × Except Raised (Reservation κ ι) :=
  match fates.applicable with
  | some failure => leave fates s (.error failure.raised)
  | none =>
    let budgets := bound.filter (·.enabled)
    let lifted := bound.filter (!·.enabled)
    let unreserved : Reservation κ ι :=
      { budgets := budgets, lifted := lifted, periodKeys := bound.map (·.id), ident := ident }
    if bound.isEmpty then leave fates s (.ok { ident := ident })
    else if !enforce then leave fates s (.ok unreserved)
    else if ledger then
      let part : Reservation κ ι :=
        { budgets := budgets, lifted := lifted, reserved := estimated.getD { requests := 1 },
          periodKeys := lifted.map (·.id), atomic := true, ident := ident }
      afterReserve fates usage unreserved (reserveEach fates usage now budgets s part)
    else fallback fates usage budgets unreserved s

/-! ### What a reservation spread over counters has taken -/

/-- Against the store `s` at first, the reservation `ident` stands in the store `s'` on exactly
the counters `held`: each of these is higher by its amounts, and names it. -/
structure Holds (ident : ι) (amounts : Amounts) (s s' : Store κ ι) (held : List κ) : Prop where
  standing : ∀ k d, ((s' k).standing (usage k) now).get d
    = ((s k).standing (usage k) now).get d + if k ∈ held then amounts.get d else 0
  lookup : ∀ k, ((s' k).openSet.lookup ident).isSome = true ↔ k ∈ held
  counter : ∀ k ∈ held, ∃ c, (s' k).counter = some c

/-- Every counter stands where it stood, and none names the reservation. -/
def HoldsNothing (ident : ι) (s s' : Store κ ι) : Prop :=
  ∀ k, (∀ d, ((s' k).standing (usage k) now).get d = ((s k).standing (usage k) now).get d) ∧
    (s' k).openSet.lookup ident = none

variable {fates usage now} {ident : ι} {amounts : Amounts} {s s' : Store κ ι} {held : List κ}

namespace Holds

theorem refl (hident : ∀ k, (s k).openSet.lookup ident = none) :
    Holds usage now ident amounts s s [] where
  standing := by simp
  lookup := by simp [hident]
  counter := by simp

/-- Only which counters are held matters, not their order. -/
theorem congr (h : Holds usage now ident amounts s s' held) (held' : List κ)
    (hmem : ∀ k, k ∈ held ↔ k ∈ held') : Holds usage now ident amounts s s' held' where
  standing := by simpa only [hmem] using h.standing
  lookup := by simpa only [hmem] using h.lookup
  counter := by simpa only [hmem] using h.counter

/-- Holding on no counter is holding nothing. -/
theorem holdsNothing_iff (h : Holds usage now ident amounts s s' held) :
    HoldsNothing usage now ident s s' ↔ held = [] := by
  constructor
  · intro hnone
    refine List.eq_nil_iff_forall_not_mem.mpr fun k hk => ?_
    have hsome := (h.lookup k).mpr hk
    rw [(hnone k).2] at hsome
    cases hsome
  · rintro rfl k
    refine ⟨fun d => by simpa using h.standing k d, ?_⟩
    rw [← Option.not_isSome_iff_eq_none, h.lookup k]
    exact List.not_mem_nil

/-- A counter that is not held stands where it stood. -/
theorem standing_eq (h : Holds usage now ident amounts s s' held) {k : κ} (hk : k ∉ held) :
    (s' k).standing (usage k) now = (s k).standing (usage k) now :=
  Amounts.ext_get fun d => by simpa [hk] using h.standing k d

/-- An admitted reservation is held on one counter more. -/
theorem reserve_admitted (h : Holds usage now ident amounts s s' held) {key : κ}
    (hkey : key ∉ held) {limits : Limits}
    (hb : limits.breached ((s key).standing (usage key) now) = none) :
    Holds usage now ident amounts s (Function.update s' key
      ((s' key).reserve limits amounts (usage key) (some ident) now).2) (key :: held) := by
  have hb' : limits.breached ((s' key).standing (usage key) now) = none := by
    rwa [h.standing_eq hkey]
  refine ⟨fun k d => ?_, fun k => ?_, fun k hk => ?_⟩ <;> rcases eq_or_ne k key with rfl | hne
  · rw [Function.update_self, CounterKeys.standing_reserve_of_admitted hb', h.standing_eq hkey]
    simp
  · rw [Function.update_of_ne hne, h.standing k d]
    simp [hne]
  · rw [Function.update_self, CounterKeys.reserve_of_admitted hb']
    simp
  · rw [Function.update_of_ne hne, h.lookup k]
    simp [hne]
  · rw [Function.update_self, CounterKeys.reserve_of_admitted hb']
    exact ⟨_, rfl⟩
  · rw [Function.update_of_ne hne]
    exact h.counter k (List.mem_of_ne_of_mem hne hk)

/-- A refused reservation is held nowhere more. -/
theorem reserve_refused (h : Holds usage now ident amounts s s' held) {key : κ}
    (hkey : key ∉ held) {limits : Limits} {d : Dimension}
    (hb : limits.breached ((s key).standing (usage key) now) = some d) :
    Holds usage now ident amounts s (Function.update s' key
      ((s' key).reserve limits amounts (usage key) (some ident) now).2) held := by
  have hb' : limits.breached ((s' key).standing (usage key) now) = some d := by
    rwa [h.standing_eq hkey]
  refine ⟨fun k e => ?_, fun k => ?_, fun k hk => ?_⟩ <;> rcases eq_or_ne k key with rfl | hne
  · rw [Function.update_self, CounterKeys.standing_reserve_of_breached hb', h.standing_eq hkey]
    simp [hkey]
  · rw [Function.update_of_ne hne, h.standing k e]
  · have hbefore := h.lookup k
    rw [Function.update_self, CounterKeys.reserve_of_breached hb', ← hbefore]
    refine ⟨fun hsome => ?_, fun hsome => absurd (hbefore.mp hsome) hkey⟩
    obtain ⟨e, he⟩ := Option.isSome_iff_exists.mp hsome
    rw [CounterKeys.lookup_of_lookup_built he, Option.isSome_some]
  · rw [Function.update_of_ne hne, h.lookup k]
  · exact absurd hk hkey
  · rw [Function.update_of_ne hne]
    exact h.counter k hk

/-- Giving one counter its amounts back leaves the others held: a figure that was not negative
before the reservation is not clamped. -/
theorem adjust {key : κ} (h : Holds usage now ident amounts s s' (key :: held))
    (hkey : key ∉ held) (hnonneg : ∀ d, 0 ≤ ((s key).standing (usage key) now).get d) :
    Holds usage now ident amounts s (s'.adjust key amounts.negated ident) held := by
  obtain ⟨c, hc⟩ := h.counter key List.mem_cons_self
  obtain ⟨c', hc', hget⟩ := CounterKeys.adjust_of_counter hc amounts.negated (some ident)
  refine ⟨fun k d => ?_, fun k => ?_, fun k hk => ?_⟩ <;> rcases eq_or_ne k key with rfl | hne
  · have hstand := h.standing k d
    have hpos := hnonneg d
    rw [CounterKeys.standing_of_counter hc] at hstand
    rw [Store.adjust, Function.update_self, CounterKeys.standing_of_counter hc', hget,
      Amounts.get_negated, hstand]
    simp only [List.mem_cons_self, if_true, hkey, if_false]
    omega
  · rw [Store.adjust, Function.update_of_ne hne, h.standing k d]
    simp [hne]
  · rw [Store.adjust, Function.update_self, CounterKeys.adjust_openSet, AList.lookup_erase]
    simp [hkey]
  · rw [Store.adjust, Function.update_of_ne hne, h.lookup k]
    simp [hne]
  · exact absurd hk hkey
  · rw [Store.adjust, Function.update_of_ne hne]
    exact h.counter k (List.mem_cons_of_mem _ hk)

end Holds

/-! ### The undo -/

def UndoFate.isCancelled : UndoFate → Bool
  | .cancelled _ => true
  | _ => false

/-- The budgets an undo of `before` leaves reserved. -/
def leftHeld (fate : ℕ → UndoFate) : List (Budget κ) → List (Budget κ)
  | [] => []
  | budget :: rest =>
    match fate budget.id with
    | .answered => leftHeld fate rest
    | .unavailable => budget :: leftHeld fate rest
    | .cancelled ran => if ran then rest else budget :: rest

/-- Every adjust of the undo reaches Redis: no call is withheld, and a cancellation lands in the
last one at the earliest, once it has been sent. -/
def Undoes (fate : ℕ → UndoFate) (before : List (Budget κ)) : Prop :=
  (∀ budget ∈ before.dropLast, fate budget.id = .answered) ∧
    ∀ budget ∈ before.getLast?, fate budget.id = .answered ∨ fate budget.id = .cancelled true

omit [DecidableEq κ] in
/-- An undo that reaches every budget is one that leaves none. -/
theorem leftHeld_eq_nil_iff {fate : ℕ → UndoFate} {before : List (Budget κ)} :
    leftHeld fate before = [] ↔ Undoes fate before := by
  induction before with
  | nil => simp [leftHeld, Undoes]
  | cons budget rest ih =>
    cases rest with
    | nil =>
      cases hf : fate budget.id with
      | answered => simp [leftHeld, Undoes, hf]
      | unavailable => simp [leftHeld, Undoes, hf]
      | cancelled ran => cases ran <;> simp [leftHeld, Undoes, hf]
    | cons next rest =>
      have hcons : Undoes fate (budget :: next :: rest)
          ↔ fate budget.id = .answered ∧ Undoes fate (next :: rest) := by
        simp only [Undoes, List.dropLast_cons_cons, List.forall_mem_cons,
          List.getLast?_cons_cons, and_assoc]
      rw [hcons, ← ih, leftHeld]
      cases hf : fate budget.id with
      | answered => simp
      | unavailable => simp
      | cancelled ran => cases ran <;> simp

theorem move_of_unnoted {fate : ℕ → UndoFate} {res : Reservation κ ι} {amounts : Amounts}
    {rest : List (Budget κ)} (hrest : ∀ budget ∈ rest, budget.id ∉ res.periodKeys)
    (s : Store κ ι) : move fate res amounts rest s = (s, none) := by
  induction rest with
  | nil => rfl
  | cons budget rest ih =>
    rw [List.forall_mem_cons] at hrest
    rw [move, if_neg hrest.1, ih hrest.2]

/-- The undo gives back what it reaches and leaves the rest held; it is cut short exactly where
a cancellation gets through. -/
theorem move_spec (fate : ℕ → UndoFate) (res : Reservation κ ι) {before rest : List (Budget κ)}
    {kept : List κ} (hres : res.ident = ident)
    (hnoted : ∀ budget ∈ before, budget.id ∈ res.periodKeys)
    (hrest : ∀ budget ∈ rest, budget.id ∉ res.periodKeys)
    (hkeys : (kept ++ before.map (·.key)).Nodup)
    (hnonneg : ∀ k d, 0 ≤ ((s k).standing (usage k) now).get d)
    (h : Holds usage now ident amounts s s' (kept ++ before.map (·.key))) :
    Holds usage now ident amounts s (move fate res amounts.negated (before ++ rest) s').1
      (kept ++ (leftHeld fate before).map (·.key)) ∧
    (move fate res amounts.negated (before ++ rest) s').2
      = if before.any fun budget => (fate budget.id).isCancelled then some .cancelled
        else none := by
  induction before generalizing s' kept with
  | nil =>
    rw [List.nil_append, move_of_unnoted hrest]
    exact ⟨h, rfl⟩
  | cons budget before ih =>
    rw [List.forall_mem_cons] at hnoted
    have hswap : ∀ k, k ∈ kept ++ (budget :: before).map (·.key)
        ↔ k ∈ budget.key :: (kept ++ before.map (·.key)) := by
      intro k
      simp only [List.map_cons, List.mem_append, List.mem_cons]
      tauto
    have hperm : (budget.key :: (kept ++ before.map (·.key))).Nodup :=
      (List.perm_middle.nodup_iff).mp hkeys
    obtain ⟨hfresh, hrestkeys⟩ := List.nodup_cons.mp hperm
    have hmoved := (h.congr _ hswap).adjust hfresh (hnonneg budget.key)
    rw [List.cons_append, move, if_pos hnoted.1, hres]
    cases hf : fate budget.id with
    | answered =>
      simp only [leftHeld, hf, List.any_cons, UndoFate.isCancelled, Bool.false_or]
      exact ih hnoted.2 hrestkeys hmoved
    | unavailable =>
      have hassoc : kept ++ (budget :: before).map (·.key)
          = (kept ++ [budget.key]) ++ before.map (·.key) := by simp
      rw [hassoc] at hkeys h
      have hrec := ih hnoted.2 hkeys h
      simp only [leftHeld, hf, List.any_cons, UndoFate.isCancelled, Bool.false_or]
      refine ⟨hrec.1.congr _ fun k => ?_, hrec.2⟩
      simp
    | cancelled ran =>
      cases ran with
      | true =>
        simp only [leftHeld, hf, List.any_cons, UndoFate.isCancelled, Bool.true_or, if_true]
        exact ⟨hmoved, trivial⟩
      | false =>
        simp only [leftHeld, hf, List.any_cons, UndoFate.isCancelled, Bool.true_or, if_true]
        exact ⟨h, trivial⟩

/-! ### How far the guard gets -/

section Ends

variable (fates usage now)

/-- The budget's limits let the request in, by the figure its counter stood at. -/
def admits (s : Store κ ι) (budget : Budget κ) : Bool :=
  (budget.limits.breached ((s budget.key).standing (usage budget.key) now)).isNone

/-- The guard gets past this budget: its seed is read and its script answers and admits. -/
def passes (s : Store κ ι) (budget : Budget κ) : Bool :=
  (fates.seed budget.id).isNone && fates.reserve budget.id = .answered && admits usage now s budget

/-- The fallback admits the request: nothing interrupts it and no Postgres figure refuses. -/
def fallsBack (before budgets : List (Budget κ)) : Prop :=
  (∀ budget ∈ before, (fates.undo budget.id).isCancelled = false) ∧
    (∀ budget ∈ budgets,
      fates.check budget.id = none ∧ exhausted budget.limits (usage budget.key) = none) ∧
    fates.leaving = false

/-- When a guard that does not get past `budget` holds nothing.

* Its seed cannot be read: every earlier budget is given back.
* It refuses: every earlier budget is given back, with no cancellation among them.
* A cancellation reaches its script: the script did not run or refused, and every earlier budget
  is given back.
* Its script goes unanswered: the fallback admits the request after all, or the script did not
  run or refused, and every earlier budget is given back, with no cancellation among them. -/
def handsBackAt (s : Store κ ι) (budgets before : List (Budget κ)) (budget : Budget κ) : Prop :=
  match fates.seed budget.id, fates.reserve budget.id with
  | some _, _ => Undoes (fun b => (fates.undo b).uninterrupted) before
  | none, .answered => Undoes fates.undo before
  | none, .unanswered .cancelled ran =>
    (ran = true → admits usage now s budget = false) ∧
      Undoes (fun b => (fates.undo b).uninterrupted) before
  | none, .unanswered .countersUnavailable ran =>
    fallsBack fates usage before budgets ∨
      ((ran = true → admits usage now s budget = false) ∧ Undoes fates.undo before)

/-- When a guard that ends without a reservation holds nothing: by the first budget it does not
get past, and where it gets past every one, unless it is cancelled with what it reserved. -/
def handsBack (s : Store κ ι) (budgets : List (Budget κ)) : Prop :=
  match budgets.dropWhile (passes fates usage now s) with
  | [] => budgets ≠ [] → fates.leaving = false
  | budget :: _ =>
    handsBackAt fates usage now s budgets (budgets.takeWhile (passes fates usage now s)) budget

/-- What holds at an end without a reservation. -/
def holdsNothingAtEnd (ident : ι) (s : Store κ ι)
    (ended : Store κ ι × Except Raised (Reservation κ ι)) : Prop :=
  ∀ raised, ended.2 = .error raised → HoldsNothing usage now ident s ended.1

end Ends

omit [DecidableEq κ] in
theorem holdsNothingAtEnd_error (raised : Raised) :
    holdsNothingAtEnd usage now ident s (leave fates s' (.error raised))
      ↔ HoldsNothing usage now ident s s' := by
  have herror : ∃ e, (leave fates s' (.error raised)).2 = .error e := by
    unfold leave
    cases fates.leaving
    · exact ⟨raised, rfl⟩
    · exact ⟨.cancelled, rfl⟩
  obtain ⟨e, he⟩ := herror
  exact ⟨fun h => h e he, fun h _ _ => h⟩

omit [DecidableEq κ] in
theorem holdsNothingAtEnd_ok (res : Reservation κ ι) :
    holdsNothingAtEnd usage now ident s (leave fates s' (.ok res))
      ↔ (fates.leaving = true → HoldsNothing usage now ident s s') := by
  unfold holdsNothingAtEnd leave
  cases hl : fates.leaving <;> simp

/-- Getting past a stretch of budgets reserves on each of them and notes it. -/
theorem reserveEach_passed {before : List (Budget κ)} (rest : List (Budget κ)) (held : List κ)
    {res : Reservation κ ι} (hpass : ∀ budget ∈ before, passes fates usage now s budget = true)
    (hkeys : (held ++ before.map (·.key)).Nodup)
    (h : Holds usage now res.ident res.reserved s s' held) :
    ∃ s'', reserveEach fates usage now (before ++ rest) s' res
        = reserveEach fates usage now rest s''
          { res with periodKeys := (before.map (·.id)).reverse ++ res.periodKeys } ∧
      Holds usage now res.ident res.reserved s s'' (held ++ before.map (·.key)) := by
  induction before generalizing s' held res with
  | nil =>
    refine ⟨s', rfl, ?_⟩
    simpa using h
  | cons budget before ih =>
    rw [List.forall_mem_cons] at hpass
    obtain ⟨hbudget, hbefore⟩ := hpass
    simp only [passes, admits, Bool.and_eq_true, Option.isNone_iff_eq_none,
      decide_eq_true_eq] at hbudget
    obtain ⟨⟨hseed, hfate⟩, hadmit⟩ := hbudget
    obtain ⟨hfresh, hrest⟩ := List.nodup_cons.mp (List.perm_middle.nodup_iff.mp hkeys)
    have hnew : budget.key ∉ held := fun hk => hfresh (List.mem_append_left _ hk)
    have hanswer : ((s' budget.key).reserve budget.limits res.reserved (usage budget.key)
        (some res.ident) now).1 = none := by
      rw [CounterKeys.reserve_of_admitted (by rwa [h.standing_eq hnew])]
    have hstep := (h.reserve_admitted hnew hadmit).congr (held ++ [budget.key])
      fun k => by
        simp only [List.mem_cons, List.mem_append, List.not_mem_nil, or_false]
        tauto
    obtain ⟨s'', heq, hholds⟩ := @ih _ (held ++ [budget.key])
      { res with periodKeys := budget.id :: res.periodKeys } hbefore (by simpa using hkeys) hstep
    refine ⟨s'', ?_, by simpa using hholds⟩
    rw [List.cons_append, reserveEach]
    simp only [hseed, hfate, hanswer]
    rw [heq]
    simp

/-- A reservation part-way through: made on `before`, noted there and nowhere in `rest`. -/
structure PartWay (before rest : List (Budget κ)) (res : Reservation κ ι) : Prop where
  atomic : res.atomic = true
  budgets : res.budgets = before ++ rest
  noted : ∀ budget ∈ before, budget.id ∈ res.periodKeys
  unnoted : ∀ budget ∈ rest, budget.id ∉ res.periodKeys

section PartWay

variable {before rest : List (Budget κ)} {res : Reservation κ ι}

/-- Releasing a reservation part-way through gives back what the undo reaches. -/
theorem PartWay.release (hres : PartWay before rest res) (fate : ℕ → UndoFate) (kept : List κ)
    (hkeys : (kept ++ before.map (·.key)).Nodup)
    (hnonneg : ∀ k d, 0 ≤ ((s k).standing (usage k) now).get d)
    (h : Holds usage now res.ident res.reserved s s' (kept ++ before.map (·.key))) :
    ∃ s'', AiraGateway.release fate s' res = (s'', { res with resolved := true },
        if before.any fun budget => (fate budget.id).isCancelled then some .cancelled
        else none) ∧
      Holds usage now res.ident res.reserved s s''
        (kept ++ (leftHeld fate before).map (·.key)) := by
  obtain ⟨hmoved, hraised⟩ := move_spec fate { res with resolved := true } rfl
    hres.noted hres.unnoted hkeys hnonneg h
  rw [← hres.budgets] at hmoved hraised
  refine ⟨_, ?_, hmoved⟩
  rw [AiraGateway.release, if_pos hres.atomic]
  rw [← hraised]

/-- Holding what an undo left, and what no undo knows of, is holding nothing exactly when the
undo left nothing and there is nothing unknown. -/
theorem holdsNothing_left_iff {fate : ℕ → UndoFate} {kept : List κ}
    (h : Holds usage now ident amounts s s' (kept ++ (leftHeld fate before).map (·.key))) :
    HoldsNothing usage now ident s s' ↔ kept = [] ∧ Undoes fate before := by
  rw [h.holdsNothing_iff, List.append_eq_nil_iff, List.map_eq_nil_iff, leftHeld_eq_nil_iff]

/-- A script that got no answer is held, by nothing that could give it back, exactly when it ran
and admitted. -/
theorem holds_unanswered {budget : Budget κ} (ran : Bool)
    (hkey : budget.key ∉ held) (hheld : held.Nodup)
    (h : Holds usage now ident amounts s s' held) :
    ∃ kept : List κ, (kept = [] ↔ (ran = true → admits usage now s budget = false)) ∧
      (kept ++ held).Nodup ∧
      Holds usage now ident amounts s (if ran then Function.update s' budget.key
        ((s' budget.key).reserve budget.limits amounts (usage budget.key) (some ident) now).2
        else s') (kept ++ held) := by
  cases ran with
  | false => exact ⟨[], by simp, hheld, h⟩
  | true =>
    cases hb : budget.limits.breached ((s budget.key).standing (usage budget.key) now) with
    | none =>
      exact ⟨[budget.key], by simp [admits, hb], List.nodup_cons.mpr ⟨hkey, hheld⟩,
        h.reserve_admitted hkey hb⟩
    | some d => exact ⟨[], by simp [admits, hb], hheld, h.reserve_refused hkey hb⟩

omit [DecidableEq κ] in
theorem checkOnly_eq_none_iff {budgets : List (Budget κ)} :
    checkOnly fates usage budgets = none ↔ ∀ budget ∈ budgets,
      fates.check budget.id = none ∧ exhausted budget.limits (usage budget.key) = none := by
  induction budgets with
  | nil => simp [checkOnly]
  | cons budget rest ih =>
    rw [checkOnly, List.forall_mem_cons]
    cases fates.check budget.id <;> cases exhausted budget.limits (usage budget.key) <;> simp [ih]

omit [DecidableEq κ] in
/-- The fallback holds what the undo before it left, unless it admits the request. -/
theorem holdsNothingAtEnd_fallback {budgets : List (Budget κ)} {unreserved : Reservation κ ι} :
    holdsNothingAtEnd usage now ident s (fallback fates usage budgets unreserved s')
      ↔ ((∀ budget ∈ budgets, fates.check budget.id = none ∧
          exhausted budget.limits (usage budget.key) = none) ∧ fates.leaving = false) ∨
        HoldsNothing usage now ident s s' := by
  rw [← checkOnly_eq_none_iff, fallback]
  cases checkOnly fates usage budgets with
  | some raised =>
    rw [holdsNothingAtEnd_error]
    simp
  | none =>
    rw [holdsNothingAtEnd_ok]
    cases fates.leaving <;> simp

/-- An end reached through the shielded release holds what that release could not reach. -/
theorem PartWay.holdsNothingAtEnd_releaseQuietly (hres : PartWay before rest res)
    (kept : List κ) (hkeys : (kept ++ before.map (·.key)).Nodup)
    (hnonneg : ∀ k d, 0 ≤ ((s k).standing (usage k) now).get d)
    (h : Holds usage now res.ident res.reserved s s' (kept ++ before.map (·.key)))
    (raised : Raised) :
    holdsNothingAtEnd usage now res.ident s (leave (ι := ι) fates
        (releaseQuietly fates.undo s' res).1 (.error raised))
      ↔ kept = [] ∧ Undoes (fun budget => (fates.undo budget).uninterrupted) before := by
  obtain ⟨s'', hrelease, hleft⟩ := hres.release
    (fun budget => (fates.undo budget).uninterrupted) kept hkeys hnonneg h
  rw [holdsNothingAtEnd_error, releaseQuietly, hrelease, holdsNothing_left_iff hleft]

/-- Counters that cannot be reached: the fallback admits the request after all, or the guard ends
with what its unshielded release could not reach. -/
theorem PartWay.holdsNothingAtEnd_unavailable (hres : PartWay before rest res)
    {unreserved : Reservation κ ι} (kept : List κ)
    (hkeys : (kept ++ before.map (·.key)).Nodup)
    (hnonneg : ∀ k d, 0 ≤ ((s k).standing (usage k) now).get d)
    (h : Holds usage now res.ident res.reserved s s' (kept ++ before.map (·.key))) :
    holdsNothingAtEnd usage now res.ident s
        (afterReserve fates usage unreserved (s', res, some .countersUnavailable))
      ↔ fallsBack fates usage before res.budgets ∨ (kept = [] ∧ Undoes fates.undo before) := by
  obtain ⟨s'', hrelease, hleft⟩ := hres.release fates.undo kept hkeys hnonneg h
  rw [← holdsNothing_left_iff hleft, fallsBack]
  simp only [afterReserve, hrelease]
  cases hc : before.any fun budget => (fates.undo budget.id).isCancelled with
  | true =>
    -- the release raises, so there is no fallback
    obtain ⟨b, hb, hcancel⟩ := List.any_eq_true.mp hc
    simp only [if_true]
    rw [holdsNothingAtEnd_error]
    refine ⟨.inr, ?_⟩
    rintro (⟨hnone, -⟩ | hn)
    · rw [hnone b hb] at hcancel
      cases hcancel
    · exact hn
  | false =>
    have hnone : ∀ b ∈ before, (fates.undo b.id).isCancelled = false := by
      simpa using List.any_eq_false.mp hc
    change holdsNothingAtEnd usage now res.ident s
      (fallback fates usage res.budgets unreserved s'') ↔ _
    rw [holdsNothingAtEnd_fallback, and_iff_right hnone]

/-- A budget that refuses: the guard ends with what the unshielded release could not reach. -/
theorem PartWay.holdsNothingAtEnd_refused {budget : Budget κ} {unreserved : Reservation κ ι}
    (hres : PartWay before (budget :: rest) res) (hseed : fates.seed budget.id = none)
    (hfate : fates.reserve budget.id = .answered) {d : Dimension}
    (hb : budget.limits.breached ((s budget.key).standing (usage budget.key) now) = some d)
    (hnew : budget.key ∉ before.map (·.key)) (hkeys : (before.map (·.key)).Nodup)
    (hnonneg : ∀ k d, 0 ≤ ((s k).standing (usage k) now).get d)
    (h : Holds usage now res.ident res.reserved s s' (before.map (·.key))) :
    holdsNothingAtEnd usage now res.ident s (afterReserve fates usage unreserved
        (reserveEach fates usage now (budget :: rest) s' res))
      ↔ Undoes fates.undo before := by
  have hanswer : ((s' budget.key).reserve budget.limits res.reserved (usage budget.key)
      (some res.ident) now).1 = some d := by
    rw [CounterKeys.reserve_of_breached (by rwa [h.standing_eq hnew])]
  obtain ⟨s'', hrelease, hleft⟩ := hres.release fates.undo [] hkeys hnonneg
    (h.reserve_refused hnew hb)
  -- the release marks the reservation resolved, so nothing is handed back a second time
  have hend : ∀ raised, holdsNothingAtEnd usage now res.ident s (leave (ι := ι) fates
      s'' (.error raised)) ↔ Undoes fates.undo before := by
    intro raised
    rw [holdsNothingAtEnd_error, holdsNothing_left_iff hleft]
    exact and_iff_right rfl
  rw [reserveEach]
  simp only [hseed, hfate, hanswer, hrelease]
  split_ifs <;> simpa [afterReserve] using hend _

/-- **One budget it does not get past** decides whether the guard ends holding nothing. -/
theorem holdsNothingAtEnd_stopped {budget : Budget κ} {unreserved : Reservation κ ι}
    (hres : PartWay before (budget :: rest) res) (hopen : res.resolved = false)
    (hstop : ¬ passes fates usage now s budget = true)
    (hkeys : (res.budgets.map (·.key)).Nodup)
    (hnonneg : ∀ k d, 0 ≤ ((s k).standing (usage k) now).get d)
    (h : Holds usage now res.ident res.reserved s s' (before.map (·.key))) :
    holdsNothingAtEnd usage now res.ident s (afterReserve fates usage unreserved
        (reserveEach fates usage now (budget :: rest) s' res))
      ↔ handsBackAt fates usage now s res.budgets before budget := by
  rw [hres.budgets, List.map_append, List.map_cons] at hkeys
  have hbefore : (before.map (·.key)).Nodup := (List.nodup_append.mp hkeys).1
  have hnew : budget.key ∉ before.map (·.key) := fun hk =>
    (List.nodup_cons.mp (List.perm_middle.nodup_iff.mp hkeys)).1 (List.mem_append_left _ hk)
  cases hseed : fates.seed budget.id with
  | some failure =>
    have hend : holdsNothingAtEnd usage now res.ident s (leave (ι := ι) fates
        (releaseQuietly fates.undo s' res).1 (.error failure.raised))
        ↔ Undoes (fun budget => (fates.undo budget).uninterrupted) before := by
      rw [hres.holdsNothingAtEnd_releaseQuietly [] hbefore hnonneg h]
      exact and_iff_right rfl
    rw [reserveEach, hseed, handsBackAt, hseed]
    cases failure <;> simpa [afterReserve, hopen, ReadFailure.raised] using hend
  | none =>
    cases hfate : fates.reserve budget.id with
    | answered =>
      have hrefused : ∃ d, budget.limits.breached
          ((s budget.key).standing (usage budget.key) now) = some d := by
        rw [← Option.ne_none_iff_exists']
        simpa [passes, admits, hseed, hfate] using hstop
      obtain ⟨d, hb⟩ := hrefused
      rw [hres.holdsNothingAtEnd_refused hseed hfate hb hnew hbefore hnonneg h, handsBackAt, hseed,
        hfate]
    | unanswered failure ran =>
      obtain ⟨kept, hkept, hnodup, hscripted⟩ := holds_unanswered ran hnew hbefore h
      rw [handsBackAt, hseed, hfate, reserveEach]
      cases failure with
      | cancelled =>
        simp only [hseed, hfate, CallFailure.raised, afterReserve, hopen, Bool.false_eq_true,
          if_false]
        rw [hres.holdsNothingAtEnd_releaseQuietly kept hnodup hnonneg hscripted, hkept]
      | countersUnavailable =>
        simp only [hseed, hfate, CallFailure.raised]
        rw [← hkept]
        exact hres.holdsNothingAtEnd_unavailable kept hnodup hnonneg hscripted

end PartWay

/-- From a reservation made nowhere, the first budget the loop does not get past decides. -/
theorem holdsNothingAtEnd_afterReserve (res : Reservation κ ι) {unreserved : Reservation κ ι}
    (hatomic : res.atomic = true) (hopen : res.resolved = false)
    (hids : (res.budgets.map (·.id)).Nodup)
    (hnoted : ∀ budget ∈ res.budgets, budget.id ∉ res.periodKeys)
    (hkeys : (res.budgets.map (·.key)).Nodup)
    (hnonneg : ∀ k d, 0 ≤ ((s k).standing (usage k) now).get d)
    (h : Holds usage now res.ident res.reserved s s []) :
    holdsNothingAtEnd usage now res.ident s (afterReserve fates usage unreserved
        (reserveEach fates usage now res.budgets s res))
      ↔ handsBack fates usage now s res.budgets := by
  have hsplit := List.takeWhile_append_dropWhile
    (p := passes fates usage now s) (l := res.budgets)
  have hpass : ∀ budget ∈ res.budgets.takeWhile (passes fates usage now s),
      passes fates usage now s budget = true := fun budget hb => List.mem_takeWhile_imp hb
  have hstop : ∀ budget ∈ (res.budgets.dropWhile (passes fates usage now s)).head?,
      ¬ passes fates usage now s budget = true := by
    intro budget hb
    have hhead := List.head?_dropWhile_not (passes fates usage now s) res.budgets
    rw [Option.mem_def.mp hb] at hhead
    simpa using hhead
  rw [handsBack]
  generalize res.budgets.takeWhile (passes fates usage now s) = before at *
  generalize res.budgets.dropWhile (passes fates usage now s) = after at *
  have hbefore : (before.map (·.key)).Nodup := by
    rw [← hsplit, List.map_append] at hkeys
    exact (List.nodup_append.mp hkeys).1
  obtain ⟨s'', hreserved, hholds⟩ := reserveEach_passed after [] hpass hbefore h
  rw [hsplit] at hreserved
  rw [hreserved]
  cases after with
  | nil =>
    rw [List.append_nil] at hsplit
    rw [reserveEach, afterReserve, holdsNothingAtEnd_ok, hholds.holdsNothing_iff, ← hsplit]
    cases fates.leaving <;> simp
  | cons budget rest =>
    rw [← hsplit, List.map_append] at hids
    refine holdsNothingAtEnd_stopped ⟨hatomic, hsplit.symm, fun b hb => ?_, fun b hb hmem => ?_⟩
      hopen (hstop budget rfl) hkeys hnonneg hholds
    · exact List.mem_append_left _ (List.mem_reverse.mpr (List.mem_map_of_mem hb))
    · rcases List.mem_append.mp hmem with hin | hin
      · exact (List.nodup_append.mp hids).2.2 b.id (List.mem_reverse.mp hin) b.id
          (List.mem_map_of_mem hb) rfl
      · exact hnoted b (hsplit ▸ List.mem_append_right _ hb) hin

omit [DecidableEq κ] in
/-- An enforced budget's id is not among those of the lifted ones. -/
theorem enabled_id_not_lifted {bound : List (Budget κ)} (hids : (bound.map (·.id)).Nodup)
    {budget : Budget κ} (hmem : budget ∈ bound.filter (·.enabled)) :
    budget.id ∉ (bound.filter (!·.enabled)).map (·.id) := by
  intro hlifted
  obtain ⟨other, hother, hid⟩ := List.mem_map.mp hlifted
  rw [List.mem_filter] at hmem hother
  obtain rfl := List.inj_on_of_nodup_map hids hother.1 hmem.1 hid
  simp [hmem.2] at hother

/-- **Exactly when a guard that ends without a reservation holds nothing**: every counter stands
where it would without this request, and none names its reservation, if and only if the guard
never reserves or hands back what it reserved (`handsBack`). -/
theorem guard_holds_nothing_iff {enforce ledger : Bool} {bound : List (Budget κ)}
    {estimated : Option Amounts} (hids : (bound.map (·.id)).Nodup)
    (hkeys : (bound.map (·.key)).Nodup)
    (hident : ∀ k, (s k).openSet.lookup ident = none) (hs : ∀ k, (s k).NonNeg)
    (husage : ∀ k d, 0 ≤ (usage k).get d) :
    holdsNothingAtEnd usage now ident s
        (guard fates usage now enforce ledger bound estimated ident s)
      ↔ (enforce = true → ledger = true → fates.applicable = none →
        handsBack fates usage now s (bound.filter (·.enabled))) := by
  have hstart : Holds usage now ident (estimated.getD { requests := 1 }) s s [] :=
    .refl hident
  have hnothing : HoldsNothing usage now ident s s := hstart.holdsNothing_iff.mpr rfl
  have hnonneg : ∀ k d, 0 ≤ ((s k).standing (usage k) now).get d := fun k d =>
    (hs k).standing (husage k) now d
  unfold guard
  cases happ : fates.applicable with
  | some failure =>
    rw [holdsNothingAtEnd_error]
    simp [hnothing]
  | none =>
    cases hempty : bound.isEmpty with
    | true =>
      obtain rfl := List.isEmpty_iff.mp hempty
      simp only [if_true]
      rw [holdsNothingAtEnd_ok]
      simp [hnothing, handsBack]
    | false =>
      cases enforce with
      | false =>
        simp only [Bool.false_eq_true, Bool.not_false, if_false, if_true]
        rw [holdsNothingAtEnd_ok]
        simp [hnothing]
      | true =>
        cases ledger with
        | false =>
          simp only [Bool.not_true, Bool.false_eq_true, if_false]
          rw [holdsNothingAtEnd_fallback]
          simp [hnothing]
        | true =>
          simp only [Bool.not_true, Bool.false_eq_true, if_false, if_true, true_implies]
          exact holdsNothingAtEnd_afterReserve
            { budgets := bound.filter (·.enabled), lifted := bound.filter (!·.enabled),
              reserved := estimated.getD { requests := 1 },
              periodKeys := (bound.filter (!·.enabled)).map (·.id), atomic := true,
              ident := ident } rfl rfl
            (hids.sublist (List.filter_sublist.map _))
            (fun budget hb => enabled_id_not_lifted hids hb)
            (hkeys.sublist (List.filter_sublist.map _)) hnonneg hstart

end Service

/-! ### A cancellation in the undo -/

/-- The first of two budgets caps nothing, the second allows no request at all. -/
def refusedSecond : List (Budget (Fin 2)) :=
  [{ id := 1, key := 0, limits := {} }, { id := 2, key := 1, limits := { requests := some 0 } }]

/-- The conditions can be met: an undo that nothing cancels hands the first budget back. -/
theorem guard_holds_nothing_iff_refused :
    holdsNothingAtEnd (fun _ => 0) 0 () (fun _ => {})
        (guard {} (fun _ => 0) 0 true true refusedSecond (some ⟨10, 1, 10⟩) () fun _ => {})
      ↔ (true = true → true = true → ({} : Fates).applicable = none →
        handsBack {} (fun _ => 0) 0 (fun _ => ({} : CounterKeys Unit))
          (refusedSecond.filter (·.enabled))) :=
  guard_holds_nothing_iff (by decide) (by decide) (fun _ => rfl)
    (fun _ => ⟨by simp, by simp⟩) (by simp)

/-- **A cancelled undo keeps what it did not reach**: the second budget refuses, a cancellation
reaches the wait for the first one's `_ADJUST` before it is sent, and the guard ends with the
first counter still higher by the amounts and the reservation still open there. -/
theorem guard_keeps_cancelled_undo :
    ¬ holdsNothingAtEnd (fun _ => 0) 0 () (fun _ => {})
      (guard { undo := fun _ => .cancelled false } (fun _ => 0) 0 true true refusedSecond
        (some ⟨10, 1, 10⟩) () fun _ => {}) := by
  intro h
  have hkept := (h .cancelled rfl 0).1 .cost
  revert hkept
  decide +kernel

end AiraGateway
