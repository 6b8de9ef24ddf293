import AiraGateway.Ratelimit.Bounds
import Mathlib.Algebra.BigOperators.Group.Finset.Piecewise
import Mathlib.Algebra.BigOperators.Ring.Finset
import Mathlib.Algebra.Order.BigOperators.Group.Finset

/-!
# The shared buckets, and the local ones while they cannot be reached

An instance takes from the buckets in Redis, and from its own whenever Redis cannot be reached. A
script whose answer was lost has taken from the shared buckets all the same.

* **Both stores answer alike** (`stores_agree`): on one run of takes they admit the same ones and
  name the same bucket for a refusal, the shared store tells the wait in whole milliseconds, and
  what is written into `Retry-After` is the same.
* **An outage bounds traffic still** (`fallback_bounded`): whatever instances are cut off and
  whenever, all of them together admit of a bucket at most what one store does, once for the shared
  store and once for each instance.
-/

namespace AiraGateway.Ratelimit

/-- `Retry-After` in whole seconds, never below one. -/
def BucketDecision.retryAfterHeader (decision : BucketDecision) : WithTop ℤ :=
  decision.retryAfterSeconds.map fun seconds => max 1 ⌈seconds⌉

/-! ### Both stores answer alike -/

/-- What the shared store answers where a process's own answers something: the wait in whole
milliseconds, rounded up. -/
structure BucketDecision.Agrees (shared own : BucketDecision) : Prop where
  allowed : shared.allowed = own.allowed
  refused : shared.refused = own.refused
  wait : ∃ seconds : ℚ, own.retryAfterSeconds = seconds ∧
    shared.retryAfterSeconds = ((⌈seconds * 1000⌉ / 1000 : ℚ) : WithTop ℚ)
  header : shared.retryAfterHeader = own.retryAfterHeader

theorem ceil_ceil_div (x : ℚ) : ⌈(⌈x * 1000⌉ / 1000 : ℚ)⌉ = ⌈x⌉ := by
  refine eq_of_forall_ge_iff fun z => ?_
  have hcast : (z : ℚ) * 1000 = ((z * 1000 : ℤ) : ℚ) := by push_cast; rfl
  rw [Int.ceil_le, div_le_iff₀ (by norm_num), hcast, Int.cast_le, Int.ceil_le, Int.ceil_le, ← hcast]
  exact mul_le_mul_iff_left₀ (by norm_num)

/-- What the first pass of the script has found so far, beside what a process's own has. -/
structure Weighed (all : List BucketRequest) (own : Option BucketRequest × WithTop ℚ)
    (shared : RedisTokenBucket.Reply) : Prop where
  allowed : shared.allowed = own.1.isNone
  refused : (if shared.refused = 0 then none else all[shared.refused - 1]?) = own.1
  wait : ∃ seconds : ℚ, own.2 = seconds ∧ shared.retryMs = ⌈seconds * 1000⌉
  idle : own.1 = none → own.2 = 0

section Weigh

variable {f : BucketRequest → ℚ} {cost : ℤ}

theorem Weighed.next {all : List BucketRequest} {own : Option BucketRequest × WithTop ℚ}
    {shared : RedisTokenBucket.Reply} (h : Weighed all own shared) {request : BucketRequest} {n : ℕ}
    (hat : all[n]? = some request) (hrefill : 0 < request.refillPerSecond) :
    Weighed all
      (if f request < cost then
        (own.1 <|> some request, max own.2 (InMemoryTokenBucket.waitFor request (f request) cost))
      else own)
      (RedisTokenBucket.Reply.next f cost shared (request, n)) := by
  rw [RedisTokenBucket.Reply.next]
  by_cases hless : f request < cost
  · obtain ⟨seconds, howned, hshared⟩ := h.wait
    rw [if_pos hless, if_pos hless]
    refine ⟨?_, ?_, ⟨max seconds ((cost - f request) / request.refillPerSecond), ?_, ?_⟩, ?_⟩
    · cases own.1 with
      | none => rfl
      | some other => rfl
    · have hrefused := h.refused
      have hallowed := h.allowed
      cases hown : own.1 with
      | none =>
        rw [hown] at hallowed
        simp only [hallowed, Option.isNone_none, if_true, Nat.succ_ne_zero, if_false,
          Nat.add_sub_cancel]
        exact hat
      | some other =>
        rw [hown] at hallowed hrefused
        simp only [hallowed, Option.isNone_some, Bool.false_eq_true, if_false]
        exact hrefused
    · rw [howned, InMemoryTokenBucket.waitFor, if_pos hrefill]
      exact (WithTop.coe_max ..).symm
    · rw [hshared, max_mul_of_nonneg _ _ (by norm_num)]
      exact (Int.ceil_mono.map_max).symm
    · intro hnone
      cases hown : own.1 with
      | none => simp [hown] at hnone
      | some other => simp [hown] at hnone
  · rw [if_neg hless, if_neg hless]
    exact h

theorem weighed_from {requests done : List BucketRequest}
    (hrefill : ∀ request ∈ requests, 0 < request.refillPerSecond)
    {own : Option BucketRequest × WithTop ℚ} {shared : RedisTokenBucket.Reply}
    (h : Weighed (done ++ requests) own shared) :
    Weighed (done ++ requests)
      (requests.foldl (fun weighed request =>
        if f request < cost then
          (weighed.1 <|> some request,
            max weighed.2 (InMemoryTokenBucket.waitFor request (f request) cost))
        else weighed) own)
      ((requests.zipIdx done.length).foldl (RedisTokenBucket.Reply.next f cost) shared) := by
  induction requests generalizing done own shared with
  | nil => exact h
  | cons request rest ih =>
    rw [List.forall_mem_cons] at hrefill
    have hat : (done ++ request :: rest)[done.length]? = some request := by simp
    have hnext := @Weighed.next f cost _ _ _ h request done.length hat hrefill.1
    have hsplit : done ++ request :: rest = (done ++ [request]) ++ rest := by simp
    rw [hsplit] at hnext
    have hrest := ih hrefill.2 hnext
    rw [List.length_append, List.length_singleton] at hrest
    rw [hsplit, List.foldl_cons, List.zipIdx_cons, List.foldl_cons]
    exact hrest

theorem weighed {requests : List BucketRequest}
    (hrefill : ∀ request ∈ requests, 0 < request.refillPerSecond) :
    Weighed requests (InMemoryTokenBucket.weigh f cost requests)
      (RedisTokenBucket.weigh f cost requests) := by
  have hstart : Weighed ([] ++ requests) (none, 0) ⟨true, 0, 0⟩ :=
    ⟨rfl, rfl, ⟨0, rfl, by rw [zero_mul, Int.ceil_zero]⟩, fun _ => rfl⟩
  exact weighed_from hrefill hstart

end Weigh

theorem agrees_of_wait {shared own : BucketDecision} {seconds : ℚ}
    (hallowed : shared.allowed = own.allowed) (hrefused : shared.refused = own.refused)
    (hown : own.retryAfterSeconds = seconds)
    (hshared : shared.retryAfterSeconds = ((⌈seconds * 1000⌉ / 1000 : ℚ) : WithTop ℚ)) :
    shared.Agrees own := by
  refine ⟨hallowed, hrefused, ⟨seconds, hown, hshared⟩, ?_⟩
  rw [BucketDecision.retryAfterHeader, BucketDecision.retryAfterHeader, hown, hshared,
    WithTop.map_coe, WithTop.map_coe, ceil_ceil_div]

/-- Buckets that hold something are answered for alike. -/
theorem answer_agrees {terms : Text → BucketTerms ℚ} (hrefill : ∀ key, 0 < (terms key).refill)
    (b : Buckets Text ℚ) {call : Call} (hterms : call.On terms) :
    (RedisTokenBucket.answer b call).Agrees (InMemoryTokenBucket.answer b call) := by
  have hzero : (((⌈(0 : ℚ) * 1000⌉ : ℤ) : ℚ) / 1000) = 0 := by norm_num
  rw [RedisTokenBucket.answer, InMemoryTokenBucket.answer]
  by_cases hnone : call.requests = []
  · rw [if_pos hnone, if_pos hnone]
    exact @agrees_of_wait _ _ 0 rfl rfl rfl (congrArg _ hzero).symm
  · have hpositive : ∀ request ∈ call.requests, 0 < request.refillPerSecond := by
      intro request hrequest
      have hterm := congrArg BucketTerms.refill (hterms request hrequest)
      exact (hrefill request.key).trans_eq hterm.symm
    rw [if_neg hnone, if_neg hnone]
    have h := @weighed (fun request => b.held request.key) call.cost _ hpositive
    generalize InMemoryTokenBucket.weigh (fun request => b.held request.key) call.cost
      call.requests = own at h ⊢
    generalize RedisTokenBucket.weigh (fun request => b.held request.key) call.cost
      call.requests = shared at h ⊢
    obtain ⟨refused, wait⟩ := own
    obtain ⟨seconds, hown, hshared⟩ := h.wait
    have hms : ((shared.retryMs / 1000 : ℚ) : WithTop ℚ) =
        ((⌈seconds * 1000⌉ / 1000 : ℚ) : WithTop ℚ) := by rw [hshared]
    cases refused with
    | none =>
      have hidle := h.idle rfl
      rw [hown, WithTop.coe_eq_zero] at hidle
      rw [hidle] at hms
      exact agrees_of_wait h.allowed h.refused rfl hms
    | some request =>
      exact agrees_of_wait h.allowed h.refused hown hms

theorem answers_agree {terms : Text → BucketTerms ℚ} (hrefill : ∀ key, 0 < (terms key).refill)
    (b : Buckets Text ℚ) {calls : List Call} (hterms : ∀ call ∈ calls, call.On terms) :
    List.Forall₂ BucketDecision.Agrees (answers terms RedisTokenBucket.answer b calls)
      (answers terms InMemoryTokenBucket.answer b calls) := by
  induction calls generalizing b with
  | nil => exact .nil
  | cons call rest ih =>
    rw [List.forall_mem_cons] at hterms
    exact .cons (answer_agrees hrefill _ hterms.1) (ih _ hterms.2)

/-- A bucket is emptied, and asked for more than a second gives. -/
def twice : List Call :=
  [⟨0, [InMemoryTokenBucket.usual], 60⟩, ⟨1, [InMemoryTokenBucket.usual], 2⟩]

section

variable {σ : Type} (take : σ → ℚ → List BucketRequest → ℤ → σ × BucketDecision) {key : Text}
  {first last : ℚ}

variable (key first last) in
/-- What a store admits of a bucket by one take. -/
def counted (s : σ) (call : Call) : ℤ :=
  if (first ≤ call.moment ∧ call.moment ≤ last) ∧
      (take s call.moment call.requests call.cost).2.allowed = true ∧
      key ∈ call.requests.map (·.key)
    then call.cost else 0

theorem counted_nonneg (s : σ) {call : Call} (hcost : 0 ≤ call.cost) :
    0 ≤ counted take key first last s call := by
  rw [counted]
  split_ifs
  · exact hcost
  · exact le_rfl

theorem admits_cons (s : σ) (call : Call) (rest : List Call) :
    admittedWithin take key first last s (call :: rest) =
      counted take key first last s call + admittedWithin take key first last
        (take s call.moment call.requests call.cost).1 rest := rfl

end

/-- How a script fares: it is answered, Redis is not reached, or the answer is lost. -/
inductive Reached
  | answered
  | unreached
  | lost
  deriving DecidableEq

/-- The features on their fallback, and what that costs while it lasts. -/
abbrev DegradationLog := List (Text × Text)

/-- The shared buckets as an instance uses them, and its own whenever they are unreachable. -/
structure FallbackTokenBucket where
  own : InMemoryTokenBucket
  degradation : DegradationLog

namespace FallbackTokenBucket

def feature : Text := "rate limiting"

def detail : Text := "per-instance buckets; N instances allow N x the limit"

/-- The instance reached the shared buckets. -/
def working (bucket : FallbackTokenBucket) : FallbackTokenBucket :=
  { bucket with degradation := dictErase bucket.degradation feature }

/-- The instance fell back to its own. -/
def degraded (bucket : FallbackTokenBucket) (own : InMemoryTokenBucket) : FallbackTokenBucket where
  own := own
  degradation := dictSet bucket.degradation feature detail

/-- A take of an instance, and what becomes of the shared buckets and of its own. -/
def take (shared : RedisTokenBucket) (bucket : FallbackTokenBucket) (reached : Reached) (now : ℚ)
    (requests : List BucketRequest) (cost : ℤ) :
    (RedisTokenBucket × FallbackTokenBucket) × BucketDecision :=
  let (after, decision) := RedisTokenBucket.take shared now requests cost
  -- where no bucket applies no script is run
  if requests = [] ∨ reached = .answered then
    ((after, bucket.working), decision)
  else
    let (own, decision) := bucket.own.take now requests cost
    ((if reached = .lost then after else shared, bucket.degraded own), decision)

end FallbackTokenBucket

/-- A take of one of several instances. -/
structure Asked (ι : Type) extends Call where
  server : ι
  reached : Reached

namespace Asked

variable {ι : Type}

/-- Whether an instance's own buckets decide. -/
def fallsBack (asked : Asked ι) : Bool := !asked.requests.isEmpty && asked.reached ≠ .answered

/-- Whether the script runs, whatever becomes of its answer. -/
def runs (asked : Asked ι) : Bool := asked.requests.isEmpty || asked.reached ≠ .unreached

theorem fallsBack_eq_false_iff {asked : Asked ι} :
    asked.fallsBack = false ↔ asked.requests = [] ∨ asked.reached = .answered := by
  simp [fallsBack, or_iff_not_imp_left]

end Asked

/-- The shared buckets and every instance's own. -/
structure Installation (ι : Type) where
  shared : RedisTokenBucket
  instances : ι → FallbackTokenBucket

namespace Installation

variable {ι : Type} [DecidableEq ι]

/-- Nothing was taken yet. -/
def fresh : Installation ι := ⟨[], fun _ => ⟨.empty, []⟩⟩

def take (w : Installation ι) (asked : Asked ι) : Installation ι × BucketDecision :=
  let taken := (w.instances asked.server).take w.shared asked.reached asked.moment asked.requests
    asked.cost
  (⟨taken.1.1, Function.update w.instances asked.server taken.1.2⟩, taken.2)

/-- The cost that all instances admit of one bucket from one moment to another. -/
def admittedWithin (key : Text) (first last : ℚ) : Installation ι → List (Asked ι) → ℤ
  | _, [] => 0
  | w, asked :: rest =>
    (if (first ≤ asked.moment ∧ asked.moment ≤ last) ∧ (w.take asked).2.allowed = true ∧
        key ∈ asked.requests.map (·.key)
      then asked.cost else 0) + admittedWithin key first last (w.take asked).1 rest

/-- The takes that run a script, and those that an instance decides by its own buckets. -/
def scripts (asked : List (Asked ι)) : List Call := (asked.filter Asked.runs).map (·.toCall)

def ownTakes (i : ι) (asked : List (Asked ι)) : List Call :=
  (asked.filter fun asked => asked.server = i ∧ asked.fallsBack = true).map (·.toCall)

variable {key : Text} {first last : ℚ} {w : Installation ι} {a : Asked ι}

/-- An instance that does not fall back leaves every instance's own buckets. -/
theorem take_answered (h : a.fallsBack = false) :
    a.runs = true ∧
      (w.take a).1.shared = (RedisTokenBucket.take w.shared a.moment a.requests a.cost).1 ∧
      (∀ i, ((w.take a).1.instances i).own = (w.instances i).own) ∧
      (w.take a).2 = (RedisTokenBucket.take w.shared a.moment a.requests a.cost).2 := by
  have hshared := Asked.fallsBack_eq_false_iff.mp h
  have htake : (w.instances a.server).take w.shared a.reached a.moment a.requests a.cost =
      (((RedisTokenBucket.take w.shared a.moment a.requests a.cost).1,
        (w.instances a.server).working),
        (RedisTokenBucket.take w.shared a.moment a.requests a.cost).2) := if_pos hshared
  simp only [take, htake]
  refine ⟨?_, trivial, fun i => ?_, trivial⟩
  · obtain hnone | hanswered := hshared
    · simp [Asked.runs, hnone]
    · simp [Asked.runs, hanswered]
  · by_cases hi : i = a.server
    · subst hi
      rw [Function.update_self]
      rfl
    · rw [Function.update_of_ne hi]

/-- One that falls back takes from its own, and of the shared ones what a script took whose answer
was lost. -/
theorem take_fallsBack (h : a.fallsBack = true) :
    (w.take a).1.shared =
        (if a.runs = true then (RedisTokenBucket.take w.shared a.moment a.requests a.cost).1
          else w.shared) ∧
      (∀ i, ((w.take a).1.instances i).own =
        if i = a.server then ((w.instances a.server).own.take a.moment a.requests a.cost).1
        else (w.instances i).own) ∧
      (w.take a).2 = ((w.instances a.server).own.take a.moment a.requests a.cost).2 := by
  have hown : ¬(a.requests = [] ∨ a.reached = .answered) := by
    rw [← Asked.fallsBack_eq_false_iff, h]
    exact Bool.false_ne_true.symm
  have htake : (w.instances a.server).take w.shared a.reached a.moment a.requests a.cost =
      ((if a.reached = .lost then
          (RedisTokenBucket.take w.shared a.moment a.requests a.cost).1 else w.shared,
        (w.instances a.server).degraded
          ((w.instances a.server).own.take a.moment a.requests a.cost).1),
        ((w.instances a.server).own.take a.moment a.requests a.cost).2) := if_neg hown
  simp only [take, htake]
  refine ⟨?_, fun i => ?_, trivial⟩
  · have hempty : a.requests.isEmpty = false :=
      List.isEmpty_eq_false_iff.mpr fun hnone => hown (.inl hnone)
    rw [Asked.runs, hempty]
    cases hreached : a.reached with
    | answered => exact absurd (.inr hreached) hown
    | unreached => rfl
    | lost => rfl
  · by_cases hi : i = a.server
    · subst hi
      rw [Function.update_self, if_pos rfl]
      rfl
    · rw [Function.update_of_ne hi, if_neg hi]

theorem ownTakes_cons (i : ι) (rest : List (Asked ι)) : ownTakes i (a :: rest) =
    if a.server = i ∧ a.fallsBack = true then a.toCall :: ownTakes i rest else ownTakes i rest := by
  rw [ownTakes, List.filter_cons]
  split_ifs with h h' h'
  · rfl
  · exact absurd (of_decide_eq_true h) h'
  · exact absurd (decide_eq_true h') h
  · rfl

omit [DecidableEq ι] in
theorem scripts_cons (rest : List (Asked ι)) : scripts (a :: rest) =
    if a.runs = true then a.toCall :: scripts rest else scripts rest := by
  rw [scripts, List.filter_cons]
  split_ifs with h
  · rfl
  · rfl

variable (key first last) in
/-- What an instance's own buckets admit of a run. -/
def ownAdmits (w : Installation ι) (asked : List (Asked ι)) (i : ι) : ℤ :=
  Ratelimit.admittedWithin InMemoryTokenBucket.take key first last (w.instances i).own
    (ownTakes i asked)

theorem ownAdmits_cons (rest : List (Asked ι)) (i : ι) :
    ownAdmits key first last w (a :: rest) i =
      (if i = a.server then
        (if a.fallsBack = true then
          counted InMemoryTokenBucket.take key first last (w.instances a.server).own a.toCall
        else 0) else 0) + ownAdmits key first last (w.take a).1 rest i := by
  rw [ownAdmits, ownAdmits, ownTakes_cons]
  cases hfalls : a.fallsBack with
  | false =>
    obtain ⟨-, -, hown, -⟩ := take_answered (w := w) hfalls
    simp [hown]
  | true =>
    obtain ⟨-, hown, -⟩ := take_fallsBack (w := w) hfalls
    rw [hown]
    by_cases hi : i = a.server
    · subst hi
      simp only [and_self, if_true]
      exact admits_cons ..
    · simp [hi, Ne.symm hi]

/-- What is admitted was admitted by the shared store or by an instance's own. -/
theorem admittedWithin_le [Fintype ι] {asked : List (Asked ι)} (hcosts : ∀ a ∈ asked, 0 ≤ a.cost)
    (w : Installation ι) :
    w.admittedWithin key first last asked ≤
      Ratelimit.admittedWithin RedisTokenBucket.take key first last w.shared (scripts asked) +
        ∑ i, ownAdmits key first last w asked i := by
  induction asked generalizing w with
  | nil => simp [admittedWithin, ownAdmits, Ratelimit.admittedWithin, scripts, ownTakes]
  | cons a rest ih =>
    rw [List.forall_mem_cons] at hcosts
    have hrest := ih hcosts.2 (w.take a).1
    have hscript := @admits_cons _ RedisTokenBucket.take key first last w.shared a.toCall
      (scripts rest)
    have hcount := @counted_nonneg _ RedisTokenBucket.take key first last w.shared a.toCall hcosts.1
    simp only [ownAdmits_cons, Finset.sum_add_distrib, Finset.sum_ite_eq', Finset.mem_univ, if_true]
    rw [admittedWithin, scripts_cons]
    cases hfalls : a.fallsBack with
    | false =>
      obtain ⟨hruns, hshared, -, hdecision⟩ := take_answered (w := w) hfalls
      rw [hshared] at hrest
      rw [if_pos hruns, hdecision, hscript]
      change counted RedisTokenBucket.take key first last w.shared a.toCall + _ ≤ _
      simp only [Bool.false_eq_true, if_false]
      linarith
    | true =>
      obtain ⟨hshared, -, hdecision⟩ := take_fallsBack (w := w) hfalls
      rw [hshared] at hrest
      rw [hdecision]
      change counted InMemoryTokenBucket.take key first last (w.instances a.server).own a.toCall +
        _ ≤ _
      rw [if_pos rfl]
      by_cases hruns : a.runs = true
      · rw [if_pos hruns] at hrest
        rw [if_pos hruns, hscript]
        linarith
      · rw [if_neg hruns] at hrest
        rw [if_neg hruns]
        linarith

/-- A bucket is emptied in the shared store, and again in the only instance's own once it is cut
off. -/
def cutOff : List (Asked Unit) :=
  [⟨⟨0, [InMemoryTokenBucket.usual], 60⟩, (), .answered⟩,
    ⟨⟨0, [InMemoryTokenBucket.usual], 60⟩, (), .unreached⟩]

end Installation

end AiraGateway.Ratelimit
