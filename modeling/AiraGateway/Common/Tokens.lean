import AiraGateway.Library.Runs
import AiraGateway.Library.Text
import Mathlib.Algebra.Order.Field.Rat
import Mathlib.Tactic.Linarith

/-!
# One token for every caller

A `TokenSource` holds one access token and refreshes it ahead of its expiry. Callers that find the
token due queue at a lock; the one that has it looks again, and fetches. Between two awaits a
caller is alone, so a step here is what one caller does from one await to the next. The clock moves
between steps, and never back.

* `token_source_runs`: in every run there is one fetch at a time, no caller repeats a fetch it has
  waited out, and after a failed fetch nobody fetches for half a minute from its beginning. What is
  handed out is valid where a fetch that fails does so before the held token has expired; the half
  minute counts from the failure where nobody comes to the lock in the time the failed fetch took.
* `expired_token_handed_out`: a fetch that fails late hands out a token that has expired.
-/

namespace AiraGateway

/-! ### The source -/

/-- The fraction of a token's lifetime after which it is refreshed. -/
def refreshAt : ℚ := 4 / 5

/-- How long to wait before a failed refresh is tried again while the token still works. -/
def retryAfterSeconds : ℚ := 30

/-- A token and its deadline, if it has one. -/
structure AccessToken where
  value : Text
  expiresAt : Option ℚ
  deriving DecidableEq

namespace AccessToken

def refreshDue (t : AccessToken) (now issuedAt : ℚ) : Bool :=
  t.expiresAt.any fun deadline =>
    let lifetime := deadline - issuedAt
    lifetime ≤ 0 || issuedAt + lifetime * refreshAt ≤ now

def usable (t : AccessToken) (now : ℚ) : Bool := t.expiresAt.all fun deadline => now < deadline

/-- Usable, and not yet to be refreshed. -/
def fresh (t : AccessToken) (now issuedAt : ℚ) : Bool := t.usable now && !t.refreshDue now issuedAt

end AccessToken

/-- What a source knows. Of a fetch that failed it keeps why. -/
structure TokenSource where
  token : Option AccessToken := none
  issuedAt : ℚ := 0
  retryNotBefore : ℚ := 0
  fetches : ℕ := 0
  failure : Option Text := none
  deriving DecidableEq

/-- What a caller that has the lock goes on to do. -/
inductive RefreshStep
  | returns (token : AccessToken)
  | raises (why : Text)
  | acquires
  deriving DecidableEq

namespace TokenSource

/-- The held token, if it is fresh. -/
def heldFresh (s : TokenSource) (now : ℚ) : Option AccessToken :=
  s.token.filter (·.fresh now s.issuedAt)

/-- A fetch that failed while the caller waited is its answer as well. -/
def fetchUnlessShared (s : TokenSource) (waitedFrom : ℕ) : RefreshStep :=
  match s.failure with
  | some why => if s.fetches = waitedFrom then .acquires else .raises why
  | none => .acquires

/-- The second look, with the lock: `waitedFrom` is how many fetches had finished when the caller
came to it. -/
def refresh (s : TokenSource) (now : ℚ) (waitedFrom : ℕ) : RefreshStep :=
  match s.heldFresh now, s.token.filter (·.usable now) with
  | some token, _ => .returns token
  | none, some current =>
    -- a failed refresh backs off, but only while the held token still works
    if now < s.retryNotBefore then .returns current else s.fetchUnlessShared waitedFrom
  | none, none => s.fetchUnlessShared waitedFrom

/-- What a fetch that began at `now` leaves behind. -/
def obtained (s : TokenSource) (now : ℚ) (fresh : AccessToken) : TokenSource :=
  { s with
    token := some fresh, issuedAt := now, retryNotBefore := 0, fetches := s.fetches + 1
    failure := none }

/-- What a fetch that began at `now` leaves behind when it fails. -/
def failed (s : TokenSource) (now : ℚ) (why : Text) : TokenSource :=
  { s with
    fetches := s.fetches + 1, failure := some why, retryNotBefore := now + retryAfterSeconds }

end TokenSource

/-! ### Callers -/

/-- Where a caller is. One that fetches has read the clock and the held token before. -/
inductive CallPhase
  | idle
  | waiting (waitedFrom : ℕ)
  | fetching (now : ℚ) (current : Option AccessToken)
  deriving DecidableEq

/-- What is told of a run. A token that is returned is the caller's own where the caller has
fetched it. -/
inductive TokenEvent (ρ : Type)
  | joins (c : ρ)
  | starts (c : ρ) (time : ℚ)
  | obtains (c : ρ) (token : AccessToken) (issuedAt : ℚ)
  | fails (c : ρ) (begun time : ℚ) (current : Option AccessToken)
  | returns (c : ρ) (time : ℚ) (token : AccessToken) (own : Bool)
  | raises (c : ρ) (why : Text)
  deriving DecidableEq

/-- A source and its callers. The log has the newest event first. -/
structure TokenWorld (ρ : Type) where
  source : TokenSource := {}
  clock : ℚ
  locked : Bool := false
  waiters : List ρ := []
  phase : ρ → CallPhase := fun _ => .idle
  log : List (TokenEvent ρ) := []

inductive TokenAct (ρ : Type)
  | tick (time : ℚ)
  | call (c : ρ)
  /-- The lock is free and the first caller that waits for it goes on. -/
  | wake (c : ρ)
  | obtain (c : ρ) (token : AccessToken)
  | fail (c : ρ) (why : Text)
  deriving DecidableEq

namespace TokenWorld

variable {ρ : Type} [DecidableEq ρ]

def setPhase (w : TokenWorld ρ) (c : ρ) (p : CallPhase) : TokenWorld ρ :=
  { w with phase := Function.update w.phase c p }

def tell (w : TokenWorld ρ) (e : TokenEvent ρ) : TokenWorld ρ := { w with log := e :: w.log }

@[simp] theorem setPhase_source (w : TokenWorld ρ) (c : ρ) (p : CallPhase) :
    (w.setPhase c p).source = w.source := rfl

@[simp] theorem setPhase_clock (w : TokenWorld ρ) (c : ρ) (p : CallPhase) :
    (w.setPhase c p).clock = w.clock := rfl

@[simp] theorem setPhase_log (w : TokenWorld ρ) (c : ρ) (p : CallPhase) :
    (w.setPhase c p).log = w.log := rfl

@[simp] theorem setPhase_locked (w : TokenWorld ρ) (c : ρ) (p : CallPhase) :
    (w.setPhase c p).locked = w.locked := rfl

@[simp] theorem setPhase_waiters (w : TokenWorld ρ) (c : ρ) (p : CallPhase) :
    (w.setPhase c p).waiters = w.waiters := rfl

@[simp] theorem setPhase_phase_self (w : TokenWorld ρ) (c : ρ) (p : CallPhase) :
    (w.setPhase c p).phase c = p := Function.update_self _ _ _

theorem setPhase_phase_ne (w : TokenWorld ρ) {c d : ρ} (h : d ≠ c) (p : CallPhase) :
    (w.setPhase c p).phase d = w.phase d := Function.update_of_ne h _ _

omit [DecidableEq ρ] in
@[simp] theorem tell_source (w : TokenWorld ρ) (e : TokenEvent ρ) :
    (w.tell e).source = w.source := rfl

omit [DecidableEq ρ] in
@[simp] theorem tell_waiters (w : TokenWorld ρ) (e : TokenEvent ρ) :
    (w.tell e).waiters = w.waiters := rfl

omit [DecidableEq ρ] in
@[simp] theorem tell_phase (w : TokenWorld ρ) (e : TokenEvent ρ) : (w.tell e).phase = w.phase := rfl

omit [DecidableEq ρ] in
@[simp] theorem tell_log (w : TokenWorld ρ) (e : TokenEvent ρ) : (w.tell e).log = e :: w.log := rfl

/-- With the lock, to the next await: the end of the call, or that of the fetch. -/
def enter (w : TokenWorld ρ) (c : ρ) (waitedFrom : ℕ) : TokenWorld ρ :=
  match w.source.refresh w.clock waitedFrom with
  | .returns token => (w.setPhase c .idle).tell (.returns c w.clock token false)
  | .raises why => (w.setPhase c .idle).tell (.raises c why)
  | .acquires =>
    { (w.setPhase c (.fetching w.clock w.source.token)).tell (.starts c w.clock) with
      locked := true }

/-- `token`: a first look without the lock, and then the queue. -/
def call (w : TokenWorld ρ) (c : ρ) : TokenWorld ρ :=
  match w.source.heldFresh w.clock with
  | some token => w.tell (.returns c w.clock token false)
  | none =>
    let w := w.tell (.joins c)
    if w.locked = false ∧ w.waiters = [] then w.enter c w.source.fetches
    else { w.setPhase c (.waiting w.source.fetches) with waiters := w.waiters ++ [c] }

/-- A fetch is over, and the lock is free again. -/
def finish (w : TokenWorld ρ) (c : ρ) (source : TokenSource) (e : TokenEvent ρ) : TokenWorld ρ :=
  { (w.setPhase c .idle).tell e with source := source, locked := false }

/-- One step of a caller or of the clock. -/
def step (w : TokenWorld ρ) : TokenAct ρ → Option (TokenWorld ρ)
  | .tick time => if w.clock ≤ time then some { w with clock := time } else none
  | .call c => if w.phase c = .idle then some (w.call c) else none
  | .wake c =>
    match w.waiters, w.phase c with
    | head :: rest, .waiting waitedFrom =>
      if w.locked = false ∧ head = c then some ({ w with waiters := rest }.enter c waitedFrom)
      else none
    | _, _ => none
  | .obtain c token =>
    match w.phase c with
    | .fetching now _ => some ((w.finish c (w.source.obtained now token)
        (.obtains c token now)).tell (.returns c w.clock token true))
    | _ => none
  | .fail c why =>
    match w.phase c with
    | .fetching now current =>
      let w' := w.finish c (w.source.failed now why) (.fails c now w.clock current)
      -- the clock was read before the fetch
      match current.filter (·.usable now) with
      | some token => some (w'.tell (.returns c w.clock token false))
      | none => some (w'.tell (.raises c why))
    | _ => none

/-- A call is answered at once, goes on with the lock, or queues. -/
theorem call_cases (w : TokenWorld ρ) (c : ρ) :
    (∃ token, w.source.heldFresh w.clock = some token ∧
        w.call c = w.tell (.returns c w.clock token false)) ∨
      (w.locked = false ∧ w.waiters = [] ∧
        w.call c = (w.tell (.joins c)).enter c w.source.fetches) ∨
      w.call c = { (w.tell (.joins c)).setPhase c (.waiting w.source.fetches) with
        waiters := w.waiters ++ [c] } := by
  unfold call
  rcases hheld : w.source.heldFresh w.clock with _ | token
  · by_cases hfree : (w.tell (.joins c)).locked = false ∧ (w.tell (.joins c)).waiters = []
    · simp only [if_pos hfree]
      exact .inr (.inl ⟨hfree.1, hfree.2, rfl⟩)
    · simp only [if_neg hfree]
      exact .inr (.inr rfl)
  · exact .inl ⟨token, rfl, rfl⟩

end TokenWorld

/-! ### Tokens over time -/

namespace AccessToken

variable {t : AccessToken} {now later issuedAt : ℚ}

/-- An expired token stays expired. -/
theorem usable_of_le (hle : now ≤ later) (h : t.usable later = true) : t.usable now = true := by
  rw [usable, Option.all_eq_true] at h ⊢
  intro deadline hd
  have hlater : later < deadline := by simpa using h deadline hd
  simpa using hle.trans_lt hlater

/-- A token that is due stays due. -/
theorem refreshDue_of_le (hle : now ≤ later) (h : t.refreshDue now issuedAt = true) :
    t.refreshDue later issuedAt = true := by
  rw [refreshDue, Option.any_eq_true] at h ⊢
  obtain ⟨deadline, hd, hdue⟩ := h
  refine ⟨deadline, hd, ?_⟩
  simp only [Bool.or_eq_true, decide_eq_true_eq] at hdue ⊢
  exact hdue.imp_right fun hnow => hnow.trans hle

theorem fresh_of_le (hle : now ≤ later) (h : t.fresh later issuedAt = true) :
    t.fresh now issuedAt = true := by
  simp only [fresh, Bool.and_eq_true, Bool.not_eq_true', Bool.eq_false_iff] at h ⊢
  exact ⟨usable_of_le hle h.1, fun hdue => h.2 (refreshDue_of_le hle hdue)⟩

end AccessToken

namespace TokenSource

variable {s : TokenSource} {now : ℚ} {waitedFrom : ℕ} {token : AccessToken}

theorem heldFresh_eq_some : s.heldFresh now = some token ↔
    s.token = some token ∧ token.fresh now s.issuedAt = true := Option.filter_eq_some_iff

/-- A held token that is not fresh is not found so. -/
theorem fresh_eq_false (h : s.heldFresh now = none) (ht : s.token = some token) :
    token.fresh now s.issuedAt = false := by
  by_contra hfresh
  have hsome := heldFresh_eq_some.mpr ⟨ht, by simpa using hfresh⟩
  rw [h] at hsome
  cases hsome

/-- What is returned of what is held is usable. -/
theorem usable_of_heldFresh (h : s.heldFresh now = some token) : token.usable now = true := by
  have hfresh := (heldFresh_eq_some.mp h).2
  rw [AccessToken.fresh, Bool.and_eq_true] at hfresh
  exact hfresh.1

theorem fetchUnlessShared_ne_returns : s.fetchUnlessShared waitedFrom ≠ .returns token := by
  unfold fetchUnlessShared
  split
  · split_ifs <;> simp
  · simp

theorem usable_of_refresh_returns (h : s.refresh now waitedFrom = .returns token) :
    token.usable now = true := by
  unfold refresh at h
  rcases hheld : s.heldFresh now with _ | held
  · rcases hcurrent : s.token.filter (·.usable now) with _ | current
    · rw [hheld, hcurrent] at h
      exact absurd h fetchUnlessShared_ne_returns
    · rw [hheld, hcurrent] at h
      simp only at h
      split_ifs at h with hretry
      · obtain rfl := RefreshStep.returns.inj h
        exact (Option.filter_eq_some_iff.mp hcurrent).2
      · exact absurd h fetchUnlessShared_ne_returns
  · rw [hheld] at h
    obtain rfl := RefreshStep.returns.inj h
    exact usable_of_heldFresh hheld

/-- A fetch starts where the held token is not fresh, has no back-off to wait for, and no fetch
that failed meanwhile has answered. -/
theorem refresh_acquires (h : s.refresh now waitedFrom = .acquires) :
    s.heldFresh now = none ∧
      (∀ token, s.token = some token → token.usable now = true → s.retryNotBefore ≤ now) ∧
      (s.failure.isSome = true → s.fetches = waitedFrom) := by
  have hshared : s.fetchUnlessShared waitedFrom = .acquires →
      s.failure.isSome = true → s.fetches = waitedFrom := by
    unfold fetchUnlessShared
    rcases s.failure with _ | why
    · intro _ hsome
      cases hsome
    · intro hacquires _
      by_contra hne
      simp [hne] at hacquires
  unfold refresh at h
  rcases hheld : s.heldFresh now with _ | held
  · rcases hcurrent : s.token.filter (·.usable now) with _ | current
    · rw [hheld, hcurrent] at h
      refine ⟨rfl, fun token ht husable => ?_, hshared h⟩
      rw [Option.filter_eq_none_iff] at hcurrent
      exact absurd husable (hcurrent token ht)
    · rw [hheld, hcurrent] at h
      simp only at h
      split_ifs at h with hretry
      exact ⟨rfl, fun _ _ _ => not_lt.mp hretry, hshared h⟩
  · rw [hheld] at h
    cases h

end TokenSource

/-! ### What a log says -/

/-- How a fetch ended. -/
inductive Finish
  | obtained (token : AccessToken) (issuedAt : ℚ)
  | failed
  deriving DecidableEq

section Log

variable {ρ : Type} [DecidableEq ρ]

omit [DecidableEq ρ] in
def TokenEvent.finish? : TokenEvent ρ → Option Finish
  | obtains _ token issuedAt => some (.obtained token issuedAt)
  | fails _ _ _ _ => some .failed
  | joins _ | starts _ _ | returns _ _ _ _ | raises _ _ => none

/-- The fetches that have finished since a caller last came to the lock. -/
def finishedSince (c : ρ) (log : List (TokenEvent ρ)) : List Finish :=
  (log.takeWhile (· ≠ .joins c)).filterMap (·.finish?)

/-- A fetch that leaves its callers something to do: it has succeeded with a token that is not
fresh any more. -/
def Finish.Spent (time : ℚ) : Finish → Prop
  | obtained token issuedAt => token.fresh time issuedAt = false
  | failed => False

omit [DecidableEq ρ] in
/-- What holds at every start of a fetch: of the caller, the time and the log before. -/
def AtStarts (P : ρ → ℚ → List (TokenEvent ρ) → Prop) (log : List (TokenEvent ρ)) : Prop :=
  ∀ c time before, .starts c time :: before <:+ log → P c time before

/-- No caller starts a fetch after it has waited out one that failed, or that obtained a token
which is still fresh. -/
def SharesFetches (log : List (TokenEvent ρ)) : Prop :=
  AtStarts (fun c time before => ∀ e ∈ finishedSince c before, e.Spent time) log

omit [DecidableEq ρ] in
/-- After a fetch that failed with a token held, nobody starts one until the wait is over or the
token has expired. The wait begins `since` the fetch began or failed. -/
def BacksOff (since : ℚ → ℚ → ℚ) (log : List (TokenEvent ρ)) : Prop :=
  AtStarts (fun _ time before =>
    ∀ c begun failed token, .fails c begun failed (some token) ∈ before →
      since begun failed + retryAfterSeconds ≤ time ∨ token.usable time = false) log

omit [DecidableEq ρ] in
/-- A token that the call has not fetched itself is usable when it is returned. -/
def HandsOutUsable (log : List (TokenEvent ρ)) : Prop :=
  ∀ c time token, .returns c time token false ∈ log → token.usable time = true

end Log

/-- Whether a caller fetches. -/
def CallPhase.isFetching : CallPhase → Bool
  | fetching _ _ => true
  | idle | waiting _ => false

namespace TokenWorld

variable {ρ : Type}

/-- At most one fetch is in flight. -/
def SingleFlight (w : TokenWorld ρ) : Prop :=
  ∀ c d, (w.phase c).isFetching = true → (w.phase d).isFetching = true → c = d

/-- A fetch that fails does so while the token that was usable when it began still is. -/
def FailsInTime (w : TokenWorld ρ) : TokenAct ρ → Prop
  | .fail c _ => ∀ now token, w.phase c = .fetching now (some token) → token.usable now = true →
      token.usable w.clock = true
  | .tick _ | .call _ | .wake _ | .obtain _ _ => True

/-- Where half a minute has passed since a failed fetch began, it has passed `since` what is meant:
of the fetches that failed with the token that is still held. -/
def WaitEnds (since : ℚ → ℚ → ℚ) (w : TokenWorld ρ) : Prop :=
  ∀ c begun failed token, .fails c begun failed (some token) ∈ w.log →
    w.source.token = some token → token.usable w.clock = true →
    begun + retryAfterSeconds ≤ w.clock → since begun failed + retryAfterSeconds ≤ w.clock

/-- Nobody comes to the free lock before, but callers who have waited out a fetch. -/
def StartsInTime (since : ℚ → ℚ → ℚ) (w : TokenWorld ρ) : TokenAct ρ → Prop
  | .call _ => w.locked = false → w.waiters = [] → w.WaitEnds since
  | .wake c => w.phase c = .waiting w.source.fetches → w.WaitEnds since
  | .tick _ | .obtain _ _ | .fail _ _ => True

end TokenWorld

/-! ### Reading a log -/

section Reading

variable {ρ : Type} [DecidableEq ρ] {c d : ρ} {e : TokenEvent ρ} {log : List (TokenEvent ρ)}

omit [DecidableEq ρ] in
/-- Only the start of a fetch has to be looked at. -/
theorem AtStarts.cons {P : ρ → ℚ → List (TokenEvent ρ) → Prop} (h : AtStarts P log)
    (he : ∀ c time, e = .starts c time → P c time log) : AtStarts P (e :: log) := by
  intro c time before hsuffix
  rcases List.suffix_cons_iff.mp hsuffix with heq | hsuffix
  · obtain ⟨rfl, rfl⟩ := List.cons.inj heq
    exact he c time rfl
  · exact h c time before hsuffix

@[simp]
theorem finishedSince_joins : finishedSince c (.joins c :: log) = [] := by
  simp [finishedSince]

theorem finishedSince_cons (h : e ≠ .joins c) :
    finishedSince c (e :: log) = e.finish?.toList ++ finishedSince c log := by
  rw [finishedSince, List.takeWhile_cons_of_pos (by simpa using h), List.filterMap_cons]
  rcases e.finish? with _ | finish <;> rfl

/-- What tells nothing of a fetch that is over changes nothing. -/
theorem finishedSince_cons_of_none (h : e ≠ .joins c) (hf : e.finish? = none) :
    finishedSince c (e :: log) = finishedSince c log := by
  rw [finishedSince_cons h, hf]
  rfl

end Reading

/-! ### What every step keeps -/

/-- What the callers in the queue know of a fetch that has finished: with one more in flight, that
it is spent; else that the source still says how it ended. -/
def Finish.Known (source : TokenSource) (clock : ℚ) (locked : Bool) (e : Finish) : Prop :=
  if locked = true then e.Spent clock
  else match e with
    | obtained token issuedAt =>
      token.fresh clock issuedAt = true → source.token = some token ∧ source.issuedAt = issuedAt
    | failed => source.failure.isSome = true

namespace TokenWorld

variable {ρ : Type} [DecidableEq ρ]

/-- What every step keeps of the lock and its queue. -/
structure Keeps (w : TokenWorld ρ) : Prop where
  single : w.SingleFlight
  free : w.locked = false → ∀ c, (w.phase c).isFetching = false
  held : ∀ c now current, w.phase c = .fetching now current →
    current = w.source.token ∧ now ≤ w.clock
  nodup : w.waiters.Nodup
  queued : ∀ c ∈ w.waiters, ∃ waitedFrom, w.phase c = .waiting waitedFrom ∧
    waitedFrom + (finishedSince c w.log).length = w.source.fetches
  order : w.waiters.Pairwise fun c d => finishedSince d w.log ⊆ finishedSince c w.log
  known : ∀ c ∈ w.waiters, ∀ e ∈ finishedSince c w.log, e.Known w.source w.clock w.locked
  shared : SharesFetches w.log

variable {w : TokenWorld ρ} {c : ρ}

theorem keeps_start (clock : ℚ) : ({ clock := clock } : TokenWorld ρ).Keeps where
  single c d h _ := absurd h (by simp [CallPhase.isFetching])
  free _ _ := rfl
  held c now current h := CallPhase.noConfusion h
  nodup := .nil
  queued c hc := absurd hc List.not_mem_nil
  order := .nil
  known c hc := absurd hc List.not_mem_nil
  shared c time before h := absurd h (by simp)

theorem Keeps.tick (h : w.Keeps) {time : ℚ} (htime : w.clock ≤ time) :
    ({ w with clock := time } : TokenWorld ρ).Keeps where
  single := h.single
  free := h.free
  held c now current hc := ⟨(h.held c now current hc).1, (h.held c now current hc).2.trans htime⟩
  nodup := h.nodup
  queued := h.queued
  order := h.order
  known c hc e he := by
    have hknown := h.known c hc e he
    unfold Finish.Known at hknown ⊢
    split_ifs at hknown ⊢ with hlock
    · cases e with
      | obtained token issuedAt =>
        have hold : token.fresh w.clock issuedAt = false := hknown
        rw [Bool.eq_false_iff] at hold
        exact Bool.eq_false_iff.mpr fun hfresh => hold (AccessToken.fresh_of_le htime hfresh)
      | failed => exact hknown
    · cases e with
      | obtained token issuedAt =>
        exact fun hfresh => hknown (AccessToken.fresh_of_le htime hfresh)
      | failed => exact hknown
  shared := h.shared

/-- What tells neither of a start nor of an end is told without more. -/
theorem Keeps.tell (h : w.Keeps) {e : TokenEvent ρ} (hf : e.finish? = none)
    (hj : ∀ c ∈ w.waiters, e ≠ .joins c) (hs : ∀ c time, e ≠ .starts c time) :
    (w.tell e).Keeps where
  single := h.single
  free := h.free
  held := h.held
  nodup := h.nodup
  queued c hc := by
    obtain ⟨waitedFrom, hphase, hcount⟩ := h.queued c hc
    refine ⟨waitedFrom, hphase, ?_⟩
    rw [tell_log, finishedSince_cons_of_none (hj c hc) hf]
    exact hcount
  order := by
    refine h.order.imp_of_mem fun {c d} hc hd hsub => ?_
    rw [tell_log, finishedSince_cons_of_none (hj c hc) hf,
      finishedSince_cons_of_none (hj d hd) hf]
    exact hsub
  known c hc e' he := by
    rw [tell_log, finishedSince_cons_of_none (hj c hc) hf] at he
    exact h.known c hc e' he
  shared := h.shared.cons fun c time he => absurd he (hs c time)

/-- The phase of a caller that is not in the queue is its own matter while it does not fetch. -/
theorem Keeps.setPhase (h : w.Keeps) (hc : c ∉ w.waiters) {p : CallPhase}
    (hp : p.isFetching = false) : (w.setPhase c p).Keeps where
  single d d' hd hd' := by
    have hne : ∀ d, ((w.setPhase c p).phase d).isFetching = true → d ≠ c := by
      rintro d hd rfl
      rw [setPhase_phase_self, hp] at hd
      cases hd
    have hdc := hne d hd
    have hdc' := hne d' hd'
    rw [setPhase_phase_ne w hdc] at hd
    rw [setPhase_phase_ne w hdc'] at hd'
    exact h.single d d' hd hd'
  free hlock d := by
    rcases eq_or_ne d c with rfl | hne
    · rw [setPhase_phase_self]
      exact hp
    · rw [setPhase_phase_ne w hne]
      exact h.free hlock d
  held d now current hd := by
    rcases eq_or_ne d c with rfl | hne
    · rw [setPhase_phase_self] at hd
      rw [hd] at hp
      cases hp
    · rw [setPhase_phase_ne w hne] at hd
      exact h.held d now current hd
  nodup := h.nodup
  queued d hd := by
    rw [setPhase_phase_ne w (ne_of_mem_of_not_mem hd hc)]
    exact h.queued d hd
  order := h.order
  known := h.known
  shared := h.shared

/-- With the lock free, a caller that is not in the queue goes on. It may fetch, as no fetch it has
waited out answers it; then none answers those behind it. -/
theorem Keeps.enter (h : w.Keeps) (hlock : w.locked = false) (hc : c ∉ w.waiters)
    {waitedFrom : ℕ} (hcount : waitedFrom + (finishedSince c w.log).length = w.source.fetches)
    (hknown : ∀ e ∈ finishedSince c w.log, e.Known w.source w.clock w.locked)
    (hfirst : ∀ d ∈ w.waiters, finishedSince d w.log ⊆ finishedSince c w.log) :
    (w.enter c waitedFrom).Keeps := by
  unfold TokenWorld.enter
  rcases hstep : w.source.refresh w.clock waitedFrom with token | why | _
  · exact (h.setPhase hc rfl).tell rfl (by simp) (by simp)
  · exact (h.setPhase hc rfl).tell rfl (by simp) (by simp)
  · obtain ⟨hheld, -, hfailure⟩ := TokenSource.refresh_acquires hstep
    have hspent : ∀ e ∈ finishedSince c w.log, e.Spent w.clock := by
      intro e he
      have hlen : 0 < (finishedSince c w.log).length := List.length_pos_of_mem he
      have hke := hknown e he
      rw [hlock] at hke
      cases e with
      | obtained token issuedAt =>
        by_contra hfresh
        obtain ⟨htoken, hissued⟩ := hke (by simpa [Finish.Spent] using hfresh)
        have hnot := TokenSource.fresh_eq_false hheld htoken
        rw [hissued] at hnot
        exact hfresh hnot
      | failed =>
        have heq := hfailure hke
        omega
    have hkeep : ∀ d : ρ, finishedSince d (.starts c w.clock :: w.log) = finishedSince d w.log :=
      fun d => finishedSince_cons_of_none (by simp) rfl
    exact {
      single := by
        have hself : ∀ d, (Function.update w.phase c (.fetching w.clock w.source.token)
            d).isFetching = true → d = c := by
          intro d hd
          by_contra hne
          rw [Function.update_of_ne hne, h.free hlock d] at hd
          cases hd
        exact fun d d' hd hd' => (hself d hd).trans (hself d' hd').symm
      free := fun hfalse => Bool.noConfusion hfalse
      held := by
        intro d now current hd
        rcases eq_or_ne d c with rfl | hne
        · obtain ⟨rfl, rfl⟩ : w.clock = now ∧ w.source.token = current := by
            simpa [TokenWorld.tell] using hd
          exact ⟨rfl, le_refl _⟩
        · exact h.held d now current (by simpa [TokenWorld.tell, setPhase_phase_ne, hne] using hd)
      nodup := h.nodup
      queued := by
        intro d hd
        obtain ⟨n, hphase, hn⟩ := h.queued d hd
        refine ⟨n, ?_, by simpa [hkeep] using hn⟩
        simpa [TokenWorld.tell, setPhase_phase_ne, ne_of_mem_of_not_mem hd hc] using hphase
      order := by simpa [hkeep] using h.order
      known := by
        intro d hd e he
        simp only [tell_log, setPhase_log, hkeep] at he
        exact hspent e (hfirst d hd he)
      shared := h.shared.cons fun d time he => by
        obtain ⟨rfl, rfl⟩ : c = d ∧ w.clock = time := by simpa using he
        exact hspent }

/-- A caller that queues behind the others has waited nothing out yet. -/
theorem Keeps.enqueue (h : w.Keeps) (hc : c ∉ w.waiters)
    (hphase : w.phase c = .waiting w.source.fetches) (hnone : finishedSince c w.log = []) :
    ({ w with waiters := w.waiters ++ [c] } : TokenWorld ρ).Keeps where
  single := h.single
  free := h.free
  held := h.held
  nodup := List.nodup_append.mpr ⟨h.nodup, List.pairwise_singleton _ c, fun d hd d' hd' heq =>
    hc (by rwa [← List.mem_singleton.mp hd', ← heq])⟩
  queued d hd := by
    rcases List.mem_append.mp hd with hd | hd
    · exact h.queued d hd
    · obtain rfl := List.mem_singleton.mp hd
      exact ⟨_, hphase, by simp [hnone]⟩
  order := List.pairwise_append.mpr ⟨h.order, List.pairwise_singleton _ c, fun d _ d' hd' => by
    obtain rfl := List.mem_singleton.mp hd'
    rw [hnone]
    exact List.nil_subset _⟩
  known d hd e he := by
    rcases List.mem_append.mp hd with hd | hd
    · exact h.known d hd e he
    · obtain rfl := List.mem_singleton.mp hd
      rw [hnone] at he
      exact absurd he List.not_mem_nil
  shared := h.shared

theorem Keeps.not_waiting (h : w.Keeps) (hc : ∀ waitedFrom, w.phase c ≠ .waiting waitedFrom) :
    c ∉ w.waiters := by
  intro hmem
  obtain ⟨n, hphase, -⟩ := h.queued c hmem
  exact hc n hphase

theorem Keeps.call (h : w.Keeps) (hc : w.phase c = .idle) : (w.call c).Keeps := by
  have hout : c ∉ w.waiters := h.not_waiting (by simp [hc])
  have hjoined : (w.tell (.joins c)).Keeps :=
    h.tell rfl (fun d hd he => hout ((TokenEvent.joins.inj he) ▸ hd)) (by simp)
  rcases w.call_cases c with ⟨token, -, hcall⟩ | ⟨hlock, hnone, hcall⟩ | hcall
  · rw [hcall]
    exact h.tell rfl (by simp) (by simp)
  · rw [hcall]
    refine hjoined.enter hlock hout (by simp) (by simp) fun d hd => ?_
    rw [tell_waiters, hnone] at hd
    exact absurd hd List.not_mem_nil
  · rw [hcall]
    exact (hjoined.setPhase hout rfl).enqueue hout (by simp) (by simp)

/-- The first caller in the queue has waited out all that the others have. -/
theorem Keeps.wake (h : w.Keeps) {rest : List ρ} {waitedFrom : ℕ} (hw : w.waiters = c :: rest)
    (hlock : w.locked = false) (hphase : w.phase c = .waiting waitedFrom) :
    (({ w with waiters := rest } : TokenWorld ρ).enter c waitedFrom).Keeps := by
  have hmem : c ∈ w.waiters := hw ▸ List.mem_cons_self
  have hrest : ∀ d ∈ rest, d ∈ w.waiters := fun d hd => hw ▸ List.mem_cons_of_mem c hd
  have hnodup := h.nodup
  have horder := h.order
  rw [hw] at hnodup horder
  obtain ⟨hout, hnodup⟩ := List.nodup_cons.mp hnodup
  obtain ⟨hfirst, horder⟩ := List.pairwise_cons.mp horder
  have hkeep : ({ w with waiters := rest } : TokenWorld ρ).Keeps :=
    { h with
      nodup := hnodup
      queued := fun d hd => h.queued d (hrest d hd)
      order := horder
      known := fun d hd => h.known d (hrest d hd) }
  obtain ⟨n, hn, hcount⟩ := h.queued c hmem
  obtain rfl : waitedFrom = n := CallPhase.waiting.inj (hphase.symm.trans hn)
  exact hkeep.enter hlock hout hcount (h.known c hmem) hfirst

/-- A spent fetch asks nothing of the source. -/
theorem known_of_spent {e : Finish} {source : TokenSource} {clock : ℚ} (h : e.Spent clock) :
    e.Known source clock false := by
  cases e with
  | obtained token issuedAt =>
    intro hfresh
    rw [Finish.Spent, hfresh] at h
    cases h
  | failed => exact h.elim

theorem Keeps.locked_of_fetching (h : w.Keeps) (hc : (w.phase c).isFetching = true) :
    w.locked = true := by
  by_contra hlock
  have hfree := h.free (Bool.eq_false_iff.mpr hlock) c
  rw [hc] at hfree
  cases hfree

/-- The one fetch in flight is over, and the source says how it ended. -/
theorem Keeps.finish (h : w.Keeps) (hc : (w.phase c).isFetching = true) {source : TokenSource}
    {e : TokenEvent ρ} {finish : Finish} (hfetches : source.fetches = w.source.fetches + 1)
    (hf : e.finish? = some finish) (hknown : finish.Known source w.clock false) :
    (w.finish c source e).Keeps := by
  have hlock : w.locked = true := h.locked_of_fetching hc
  have hout : c ∉ w.waiters := h.not_waiting fun n hn => by rw [hn] at hc; cases hc
  have hnone : ∀ d, ((w.setPhase c .idle).phase d).isFetching = false := by
    intro d
    rcases eq_or_ne d c with rfl | hne
    · rw [setPhase_phase_self]
      rfl
    · rw [setPhase_phase_ne w hne]
      exact Bool.eq_false_iff.mpr fun hd => hne (h.single d c hd hc)
  have hcons : ∀ d, finishedSince d (e :: w.log) = finish :: finishedSince d w.log := by
    intro d
    rw [finishedSince_cons (fun he => by rw [he] at hf; cases hf), hf]
    rfl
  exact {
    single := fun d d' hd _ => absurd ((hnone d).symm.trans hd) (by decide)
    free := fun _ => hnone
    held := fun d now current hd => by
      have hd' := hnone d
      rw [show (w.setPhase c .idle).phase d = .fetching now current from hd] at hd'
      cases hd'
    nodup := h.nodup
    queued := by
      intro d hd
      obtain ⟨n, hphase, hn⟩ := h.queued d hd
      refine ⟨n, (setPhase_phase_ne w (ne_of_mem_of_not_mem hd hout) _).trans hphase, ?_⟩
      change n + (finishedSince d (e :: w.log)).length = source.fetches
      rw [hcons d, List.length_cons, hfetches]
      omega
    order := by
      change w.waiters.Pairwise fun d d' =>
        finishedSince d' (e :: w.log) ⊆ finishedSince d (e :: w.log)
      refine h.order.imp fun {d d'} hsub => ?_
      rw [hcons d, hcons d']
      exact List.cons_subset_cons finish hsub
    known := by
      intro d hd e' he'
      change e' ∈ finishedSince d (e :: w.log) at he'
      rw [hcons d] at he'
      rcases List.mem_cons.mp he' with rfl | he'
      · exact hknown
      · have hspent := h.known d hd e' he'
        rw [hlock] at hspent
        exact known_of_spent hspent
    shared := h.shared.cons fun d time he => by rw [he] at hf; cases hf }

/-- Everything a step can do. -/
inductive Moves (w : TokenWorld ρ) : TokenAct ρ → TokenWorld ρ → Prop
  | tick {time : ℚ} (htime : w.clock ≤ time) : Moves w (.tick time) { w with clock := time }
  | call {c : ρ} (hc : w.phase c = .idle) : Moves w (.call c) (w.call c)
  | wake {c : ρ} {rest : List ρ} {waitedFrom : ℕ} (hw : w.waiters = c :: rest)
      (hlock : w.locked = false) (hc : w.phase c = .waiting waitedFrom) :
      Moves w (.wake c) ({ w with waiters := rest }.enter c waitedFrom)
  | obtain {c : ρ} {now : ℚ} {current : Option AccessToken} (hc : w.phase c = .fetching now current)
      (token : AccessToken) : Moves w (.obtain c token)
        ((w.finish c (w.source.obtained now token) (.obtains c token now)).tell
          (.returns c w.clock token true))
  | failReturns {c : ρ} {now : ℚ} {token : AccessToken}
      (hc : w.phase c = .fetching now (some token)) (husable : token.usable now = true)
      (why : Text) : Moves w (.fail c why)
        ((w.finish c (w.source.failed now why) (.fails c now w.clock (some token))).tell
          (.returns c w.clock token false))
  | failRaises {c : ρ} {now : ℚ} {current : Option AccessToken}
      (hc : w.phase c = .fetching now current)
      (hspent : ∀ token ∈ current, ¬ token.usable now = true) (why : Text) : Moves w (.fail c why)
        ((w.finish c (w.source.failed now why) (.fails c now w.clock current)).tell (.raises c why))

theorem moves_of_step {a : TokenAct ρ} {w' : TokenWorld ρ} (h : w.step a = some w') :
    w.Moves a w' := by
  cases a with
  | tick time =>
    simp only [step] at h
    split_ifs at h with htime
    obtain rfl := Option.some.inj h
    exact .tick htime
  | call c =>
    simp only [step] at h
    split_ifs at h with hc
    obtain rfl := Option.some.inj h
    exact .call hc
  | wake c =>
    rw [step] at h
    split at h
    next head rest waitedFrom hw hc =>
      split_ifs at h with hfree
      obtain ⟨hlock, rfl⟩ := hfree
      obtain rfl := Option.some.inj h
      exact .wake hw hlock hc
    next => cases h
  | obtain c token =>
    rw [step] at h
    split at h
    next now current hc =>
      obtain rfl := Option.some.inj h
      exact .obtain hc token
    next => cases h
  | fail c why =>
    rw [step] at h
    split at h
    next now current hc =>
      simp only at h
      split at h
      next token hcurrent =>
        obtain ⟨rfl, husable⟩ := Option.filter_eq_some_iff.mp hcurrent
        obtain rfl := Option.some.inj h
        exact .failReturns hc husable why
      next hcurrent =>
        obtain rfl := Option.some.inj h
        exact .failRaises hc (Option.filter_eq_none_iff.mp hcurrent) why
    next => cases h

/-- Every step keeps it. -/
theorem Keeps.moves (h : w.Keeps) {a : TokenAct ρ} {w' : TokenWorld ρ} (hm : w.Moves a w') :
    w'.Keeps := by
  cases hm with
  | tick htime => exact h.tick htime
  | call hc => exact h.call hc
  | wake hw hlock hc => exact h.wake hw hlock hc
  | @obtain c now _ hc token =>
    have hobtained :
        (Finish.obtained token now).Known (w.source.obtained now token) w.clock false :=
      fun _ => ⟨rfl, rfl⟩
    exact (h.finish (by rw [hc]; rfl) rfl rfl hobtained).tell rfl (by simp) (by simp)
  | @failReturns c now _ hc _ why =>
    have hfailed : Finish.failed.Known (w.source.failed now why) w.clock false := rfl
    exact (h.finish (by rw [hc]; rfl) rfl rfl hfailed).tell rfl (by simp) (by simp)
  | @failRaises c now _ hc _ why =>
    have hfailed : Finish.failed.Known (w.source.failed now why) w.clock false := rfl
    exact (h.finish (by rw [hc]; rfl) rfl rfl hfailed).tell rfl (by simp) (by simp)

/-! ### The back-off -/

/-- What every step keeps of a back-off: it is over, or its token has expired, or the source still
says how long it lasts. -/
structure Backs (since : ℚ → ℚ → ℚ) (w : TokenWorld ρ) : Prop where
  backs : BacksOff since w.log
  waits : ∀ c begun failed token, .fails c begun failed (some token) ∈ w.log →
    (since begun failed + retryAfterSeconds ≤ w.clock ∨ token.usable w.clock = false) ∨
      w.locked = false ∧ w.source.token = some token ∧ w.source.failure.isSome = true ∧
        begun + retryAfterSeconds ≤ w.source.retryNotBefore

variable {since : ℚ → ℚ → ℚ}

omit [DecidableEq ρ] in
theorem backs_start (clock : ℚ) : Backs since ({ clock := clock } : TokenWorld ρ) where
  backs c time before h := absurd h (by simp)
  waits c begun failed token h := absurd h List.not_mem_nil

omit [DecidableEq ρ] in
theorem Backs.tick (h : Backs since w) {time : ℚ} (htime : w.clock ≤ time) :
    Backs since { w with clock := time } where
  backs := h.backs
  waits c begun failed token hmem := by
    rcases h.waits c begun failed token hmem with (hover | hexpired) | hopen
    · exact .inl (.inl (hover.trans htime))
    · refine .inl (.inr (Bool.eq_false_iff.mpr fun husable => ?_))
      rw [AccessToken.usable_of_le htime husable] at hexpired
      cases hexpired
    · exact .inr hopen

omit [DecidableEq ρ] in
theorem Backs.tell (h : Backs since w) {e : TokenEvent ρ} (hs : ∀ c time, e ≠ .starts c time)
    (hf : ∀ c begun failed current, e ≠ .fails c begun failed current) :
    Backs since (w.tell e) where
  backs := h.backs.cons fun c time he => absurd he (hs c time)
  waits c begun failed token hmem := by
    rcases List.mem_cons.mp hmem with heq | hmem
    · exact absurd heq.symm (hf _ _ _ _)
    · exact h.waits c begun failed token hmem

omit [DecidableEq ρ] in
/-- Phases and the queue have no part in it. -/
theorem Backs.congr (h : Backs since w) {w' : TokenWorld ρ} (hlog : w'.log = w.log)
    (hclock : w'.clock = w.clock) (hlock : w'.locked = w.locked) (hsource : w'.source = w.source) :
    Backs since w' where
  backs := hlog ▸ h.backs
  waits := by
    rw [hlog, hclock, hlock, hsource]
    exact h.waits

theorem Backs.enter (h : Backs since w) {waitedFrom : ℕ}
    (hend : w.source.fetches = waitedFrom → w.WaitEnds since) :
    Backs since (w.enter c waitedFrom) := by
  unfold TokenWorld.enter
  have hidle : Backs since (w.setPhase c .idle) := h.congr rfl rfl rfl rfl
  rcases hstep : w.source.refresh w.clock waitedFrom with token | why | _
  · exact hidle.tell (by simp) (by simp)
  · exact hidle.tell (by simp) (by simp)
  · obtain ⟨-, hretry, hfailure⟩ := TokenSource.refresh_acquires hstep
    have hover : ∀ c' begun failed token, .fails c' begun failed (some token) ∈ w.log →
        since begun failed + retryAfterSeconds ≤ w.clock ∨ token.usable w.clock = false := by
      intro c' begun failed token hmem
      rcases h.waits c' begun failed token hmem with hover | ⟨-, htoken, hsome, hlasts⟩
      · exact hover
      · by_cases husable : token.usable w.clock = true
        · have hbegun := hlasts.trans (hretry token htoken husable)
          exact .inl (hend (hfailure hsome) c' begun failed token hmem htoken husable hbegun)
        · exact .inr (by simpa using husable)
    refine ⟨h.backs.cons fun d time he => ?_, fun c' begun failed token hmem => .inl ?_⟩
    · obtain ⟨rfl, rfl⟩ : c = d ∧ w.clock = time := by simpa using he
      exact hover
    · exact hover c' begun failed token (by simpa using hmem)

omit [DecidableEq ρ] in
/-- While a fetch is in flight, every earlier back-off is over. -/
theorem Backs.over (h : Backs since w) (hlock : w.locked = true) {c : ρ} {begun failed : ℚ}
    {token : AccessToken} (hmem : .fails c begun failed (some token) ∈ w.log) :
    since begun failed + retryAfterSeconds ≤ w.clock ∨ token.usable w.clock = false := by
  rcases h.waits c begun failed token hmem with hover | ⟨hfree, -⟩
  · exact hover
  · rw [hlock] at hfree
    cases hfree

theorem Backs.obtained (h : Backs since w) (hlock : w.locked = true) (now : ℚ)
    (token : AccessToken) :
    Backs since (w.finish c (w.source.obtained now token) (.obtains c token now)) where
  backs := h.backs.cons fun d time he => by cases he
  waits d begun failed token' hmem := by
    rcases List.mem_cons.mp hmem with heq | hmem
    · cases heq
    · exact .inl (h.over hlock hmem)

theorem Backs.failed (h : Backs since w) (hlock : w.locked = true) {current : Option AccessToken}
    (hcurrent : current = w.source.token) (now : ℚ) (why : Text) :
    Backs since (w.finish c (w.source.failed now why) (.fails c now w.clock current)) where
  backs := h.backs.cons fun d time he => by cases he
  waits d begun failed token hmem := by
    rcases List.mem_cons.mp hmem with heq | hmem
    · obtain ⟨-, rfl, -, htoken⟩ := TokenEvent.fails.inj heq
      exact .inr ⟨rfl, hcurrent.symm.trans htoken.symm, rfl, le_refl _⟩
    · exact .inl (h.over hlock hmem)

theorem Backs.moves (h : Backs since w) (hk : w.Keeps) {a : TokenAct ρ} {w' : TokenWorld ρ}
    (hok : w.StartsInTime since a) (hm : w.Moves a w') : Backs since w' := by
  cases hm with
  | tick htime => exact h.tick htime
  | @call c hc =>
    have hjoined : Backs since (w.tell (.joins c)) := h.tell (by simp) (by simp)
    rcases w.call_cases c with ⟨token, -, hcall⟩ | ⟨hlock, hnone, hcall⟩ | hcall
    · rw [hcall]
      exact h.tell (by simp) (by simp)
    · rw [hcall]
      refine hjoined.enter fun _ c' begun failed token hmem => ?_
      exact hok hlock hnone c' begun failed token (by simpa using hmem)
    · rw [hcall]
      exact hjoined.congr rfl rfl rfl rfl
  | @wake c rest waitedFrom hw hlock hc =>
    have hqueue : Backs since { w with waiters := rest } := h.congr rfl rfl rfl rfl
    refine hqueue.enter fun heq => hok ?_
    rw [hc]
    exact congrArg CallPhase.waiting heq.symm
  | @obtain c now _ hc token =>
    have hlock := hk.locked_of_fetching (c := c) (by rw [hc]; rfl)
    exact (h.obtained hlock now token).tell (by simp) (by simp)
  | @failReturns c now _ hc _ why =>
    have hlock := hk.locked_of_fetching (c := c) (by rw [hc]; rfl)
    exact (h.failed hlock (hk.held c _ _ hc).1 now why).tell (by simp) (by simp)
  | @failRaises c now _ hc _ why =>
    have hlock := hk.locked_of_fetching (c := c) (by rw [hc]; rfl)
    exact (h.failed hlock (hk.held c _ _ hc).1 now why).tell (by simp) (by simp)

/-! ### Runs -/

theorem log_suffix_enter (w : TokenWorld ρ) (c : ρ) (waitedFrom : ℕ) :
    w.log <:+ (w.enter c waitedFrom).log := by
  unfold enter
  rcases w.source.refresh w.clock waitedFrom with token | why | _ <;> exact List.suffix_cons _ _

/-- What has been told stays told. -/
theorem log_suffix {a : TokenAct ρ} {w' : TokenWorld ρ} (hm : w.Moves a w') :
    w.log <:+ w'.log := by
  cases hm with
  | tick _ => exact List.suffix_refl _
  | @call c _ =>
    have hjoined : w.log <:+ (w.tell (.joins c)).log := List.suffix_cons _ _
    rcases w.call_cases c with ⟨token, -, hcall⟩ | ⟨-, -, hcall⟩ | hcall
    · rw [hcall]
      exact List.suffix_cons _ _
    · rw [hcall]
      exact hjoined.trans (log_suffix_enter _ _ _)
    · rw [hcall]
      exact hjoined
  | @wake c rest _ _ _ _ => exact log_suffix_enter { w with waiters := rest } c _
  | obtain _ _ => exact (List.suffix_cons _ _).trans (List.suffix_cons _ _)
  | failReturns _ _ _ => exact (List.suffix_cons _ _).trans (List.suffix_cons _ _)
  | failRaises _ _ _ => exact (List.suffix_cons _ _).trans (List.suffix_cons _ _)

theorem handsOutUsable_enter (h : HandsOutUsable w.log) (waitedFrom : ℕ) :
    HandsOutUsable (w.enter c waitedFrom).log := by
  unfold enter
  rcases hstep : w.source.refresh w.clock waitedFrom with token | why | _
  · intro d time token' hmem
    rcases List.mem_cons.mp hmem with heq | hmem
    · obtain ⟨-, rfl, rfl, -⟩ := TokenEvent.returns.inj heq
      exact TokenSource.usable_of_refresh_returns hstep
    · exact h d time token' hmem
  · exact fun d time token hmem => h d time token (by simpa using hmem)
  · exact fun d time token hmem => h d time token (by simpa using hmem)

/-- A step hands out what is usable exactly where it is no fetch that fails too late. -/
theorem handsOutUsable_moves_iff {a : TokenAct ρ} {w' : TokenWorld ρ} (h : HandsOutUsable w.log)
    (hm : w.Moves a w') : HandsOutUsable w'.log ↔ w.FailsInTime a := by
  cases hm with
  | tick _ => exact iff_of_true h trivial
  | @call c _ =>
    refine iff_of_true ?_ trivial
    have hjoined : HandsOutUsable (w.tell (.joins c)).log :=
      fun d time token hmem => h d time token (by simpa using hmem)
    rcases w.call_cases c with ⟨token, hheld, hcall⟩ | ⟨-, -, hcall⟩ | hcall
    · rw [hcall]
      intro d time token' hmem
      rcases List.mem_cons.mp hmem with heq | hmem
      · obtain ⟨-, rfl, rfl, -⟩ := TokenEvent.returns.inj heq
        exact TokenSource.usable_of_heldFresh hheld
      · exact h d time token' hmem
    · rw [hcall]
      exact handsOutUsable_enter hjoined _
    · rw [hcall]
      exact hjoined
  | @wake c rest _ _ _ _ =>
    have hqueue : HandsOutUsable ({ w with waiters := rest } : TokenWorld ρ).log := h
    exact iff_of_true (handsOutUsable_enter hqueue _) trivial
  | obtain _ _ =>
    refine iff_of_true (fun d time token' hmem => h d time token' ?_) trivial
    simpa [finish] using hmem
  | @failReturns c now token hc husable why =>
    constructor
    · intro hafter now' token' hphase _
      obtain ⟨-, htoken⟩ := CallPhase.fetching.inj (hc.symm.trans hphase)
      obtain rfl := Option.some.inj htoken
      exact hafter c w.clock token List.mem_cons_self
    · intro hin d time token' hmem
      rcases List.mem_cons.mp hmem with heq | hmem
      · obtain ⟨-, rfl, rfl, -⟩ := TokenEvent.returns.inj heq
        exact hin now token' hc husable
      · exact h d time token' (by simpa [finish] using hmem)
  | @failRaises c now current hc hspent why =>
    refine iff_of_true (fun d time token' hmem => h d time token' ?_) ?_
    · simpa [finish] using hmem
    · intro now' token' hphase husable
      obtain ⟨rfl, rfl⟩ := CallPhase.fetching.inj (hc.symm.trans hphase)
      exact absurd husable (hspent token' rfl)

/-- A run hands out what is usable exactly where each of its steps does. -/
theorem handsOutUsable_run_iff {acts : List (TokenAct ρ)} {w' : TokenWorld ρ}
    (hrun : Run step (fun _ _ => True) w acts w') (h : HandsOutUsable w.log) :
    HandsOutUsable w'.log ↔ Run step FailsInTime w acts w' := by
  induction hrun with
  | nil s => exact iff_of_true h (.nil s)
  | @cons s t u a acts _ hst rest ih =>
    have hiff := handsOutUsable_moves_iff h (moves_of_step hst)
    have hgrows : t.log <:+ u.log :=
      rest.invariant (P := fun v => t.log <:+ v.log)
        (fun _ _ _ hv _ hstep => hv.trans (log_suffix (moves_of_step hstep))) (List.suffix_refl _)
    constructor
    · intro hend
      have hnext : HandsOutUsable t.log := fun d time token hmem =>
        hend d time token (hgrows.mem hmem)
      exact .cons (hiff.mp hnext) hst ((ih hnext).mp hend)
    · intro hin
      cases hin with
      | @cons _ t' _ _ _ hok hst' rest' =>
        obtain rfl : t' = t := Option.some.inj (hst'.symm.trans hst)
        exact (ih (hiff.mpr hok)).mpr rest'

/-- **One token for every caller**: in every run, whatever the order of the callers' steps, the
outcomes of the fetches and the time they take, one fetch at a time is in flight, no caller repeats
a fetch that it has waited out, and after a failed one nobody fetches for half a minute from its
beginning while the token works. The tokens handed out are usable exactly where every fetch that
fails does so before the held token has expired; the half minute counts from the failure where
nobody comes to the lock before it is over. -/
theorem token_source_runs {clock : ℚ} {acts : List (TokenAct ρ)}
    (hrun : Run step (fun _ _ => True) { clock := clock } acts w) :
    w.SingleFlight ∧ SharesFetches w.log ∧ BacksOff (fun begun _ => begun) w.log ∧
      (HandsOutUsable w.log ↔ Run step FailsInTime { clock := clock } acts w) ∧
      (Run step (StartsInTime fun _ failed => failed) { clock := clock } acts w →
        BacksOff (fun _ failed => failed) w.log) := by
  have hkeeps : ∀ (ok : TokenWorld ρ → TokenAct ρ → Prop) (since : ℚ → ℚ → ℚ),
      (∀ v a, ok v a → v.StartsInTime since a) → Run step ok { clock := clock } acts w →
      w.Keeps ∧ Backs since w := by
    intro ok since hok hrun
    exact hrun.invariant (P := fun v => v.Keeps ∧ Backs since v)
      (fun v a v' hv hva hst =>
        ⟨hv.1.moves (moves_of_step hst), hv.2.moves hv.1 (hok v a hva) (moves_of_step hst)⟩)
      ⟨keeps_start clock, backs_start clock⟩
  have hends : ∀ (v : TokenWorld ρ), v.WaitEnds fun begun _ => begun :=
    fun _ _ _ _ _ _ _ _ hbegun => hbegun
  have hstarts : ∀ (v : TokenWorld ρ) a, True → v.StartsInTime (fun begun _ => begun) a := by
    intro v a _
    cases a with
    | call c => exact fun _ _ => hends v
    | wake c => exact fun _ => hends v
    | tick _ => trivial
    | obtain _ _ => trivial
    | fail _ _ => trivial
  obtain ⟨hkeep, hbegun⟩ := hkeeps _ _ hstarts hrun
  have hnone : HandsOutUsable ({ clock := clock } : TokenWorld ρ).log :=
    fun _ _ _ hmem => absurd hmem List.not_mem_nil
  exact ⟨hkeep.single, hkeep.shared, hbegun.backs, handsOutUsable_run_iff hrun hnone,
    fun hin => (hkeeps _ _ (fun _ _ h => h) hin).2.backs⟩

end TokenWorld

/-! ### A fetch that fails late -/

/-- Two callers share a fetch; later one finds the token due, its fetch fails while the token
works, and the next caller is held back. -/
def sharedFetch : List (TokenAct Bool) :=
  [.call false, .call true, .obtain false ⟨"a", some 100⟩, .wake true, .tick 90, .call true,
    .tick 95, .fail true "away", .call false]

/-- There are runs with every kind of step. -/
theorem token_source_runs_shared : ∃ w : TokenWorld Bool,
    w.log.length = 12 ∧ w.SingleFlight ∧ SharesFetches w.log ∧
      BacksOff (fun begun _ => begun) w.log := by
  have hlog : (checkedRun TokenWorld.step (fun _ _ => True) { clock := 0 } sharedFetch).map
      (·.log.length) = some 12 := by
    decide +kernel
  obtain ⟨w, hrun, hlength⟩ := Option.map_eq_some_iff.mp hlog
  have hall := TokenWorld.token_source_runs (run_of_checkedRun hrun)
  exact ⟨w, hlength, hall.1, hall.2.1, hall.2.2.1⟩

/-- The token is due, its fetch hangs until the token has expired, and fails then. -/
def lateFailure : List (TokenAct Unit) :=
  [.call (), .obtain () ⟨"a", some 100⟩, .tick 90, .call (), .tick 120, .fail () "timeout"]

/-- **An expired token is handed out**: a fetch that fails late is answered with the token that
worked when it began. -/
theorem expired_token_handed_out : ∃ w : TokenWorld Unit,
    Run TokenWorld.step (fun _ _ => True) { clock := 0 } lateFailure w ∧
      ¬ HandsOutUsable w.log := by
  have hlog : (checkedRun TokenWorld.step (fun _ _ => True) { clock := 0 } lateFailure).map
      (·.log.head?) = some (some (.returns () 120 ⟨"a", some 100⟩ false)) := by
    decide +kernel
  obtain ⟨w, hrun, hhead⟩ := Option.map_eq_some_iff.mp hlog
  refine ⟨w, run_of_checkedRun hrun, fun h => ?_⟩
  have hexpired := h () 120 ⟨"a", some 100⟩ (List.mem_of_mem_head? hhead)
  revert hexpired
  decide +kernel

end AiraGateway
