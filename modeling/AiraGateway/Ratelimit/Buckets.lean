import AiraGateway.Library.Dict
import AiraGateway.Library.Text
import AiraGateway.Library.TokenBucket
import Mathlib.Algebra.Order.Floor.Ring
import Mathlib.Algebra.Order.Monoid.WithTop
import Mathlib.Data.Rat.Floor

/-!
# Rate limiting by token buckets

A request is weighed against every bucket that applies to it, all or nothing. `RedisTokenBucket`
keeps the buckets in Redis, where one script refills, tests and takes; `InMemoryTokenBucket` keeps
them in the process, as a dictionary in the order of use, and forgets those that are full again.

Numbers are exact. A stored bucket is what it held when it was last written, and `level` is what it
holds at a later moment.
-/

namespace AiraGateway.Ratelimit

/-- The lowest rate a bucket is built with. -/
def minimumRpm : ℤ := 1

/-- How many takes are served between two sweeps for buckets that have filled up again. -/
def sweepEvery : ℕ := 1024

/-- The most buckets one process keeps, even between sweeps. -/
def maxTrackedBuckets : ℕ := 100000

/-- One bucket a request must pass, and the terms it is judged on. -/
structure BucketRequest where
  key : Text
  capacity : ℤ
  refillPerSecond : ℚ
  label : Text := []
  deriving DecidableEq

def BucketRequest.terms (request : BucketRequest) : BucketTerms ℚ :=
  ⟨request.capacity, request.refillPerSecond⟩

/-- An allowance of so many requests a minute, as the bucket that enforces it. -/
def perMinute (key : Text) (limitRpm : ℤ) (label : Text) (burst : Option ℤ) : BucketRequest :=
  let rate := max minimumRpm limitRpm
  { key := key
    capacity :=
      match burst with
      | none => rate
      | some burst => if 0 < burst then burst else rate
    refillPerSecond := rate / 60
    label := label }

/-- Whether the request may proceed, how long until it could, and which bucket refused. -/
structure BucketDecision where
  allowed : Bool
  retryAfterSeconds : WithTop ℚ := 0
  refused : Option BucketRequest := none
  deriving DecidableEq

def allowedDecision : BucketDecision where
  allowed := true

/-! ### The buckets of a process -/

/-- What a bucket held when it was last written, when that was, and when it is full again. -/
structure Stored where
  tokens : ℚ
  ts : ℚ
  fullAt : ℚ
  deriving DecidableEq

/-- The buckets, least recently written first, and how many takes were served. -/
structure InMemoryTokenBucket where
  state : List (Text × Stored)
  takes : ℕ
  deriving DecidableEq

namespace InMemoryTokenBucket

/-- What a bucket holds now; one that is not there is full. -/
def available (state : List (Text × Stored)) (now : ℚ) (request : BucketRequest) : ℚ :=
  let stored := (dictGet state request.key).getD ⟨request.capacity, now, now⟩
  min request.capacity (stored.tokens + max 0 (now - stored.ts) * request.refillPerSecond)

/-- How long a refusing bucket takes to hold the cost. -/
def waitFor (request : BucketRequest) (tokens : ℚ) (cost : ℤ) : WithTop ℚ :=
  if 0 < request.refillPerSecond then ((cost - tokens) / request.refillPerSecond : ℚ) else ⊤

/-- The first bucket that refuses and the longest wait of those that do. -/
def weigh (available : BucketRequest → ℚ) (cost : ℤ) (requests : List BucketRequest) :
    Option BucketRequest × WithTop ℚ :=
  requests.foldl (fun weighed request =>
    if available request < cost then
      (weighed.1 <|> some request, max weighed.2 (waitFor request (available request) cost))
    else weighed) (none, 0)

/-- A bucket with what is left in it, written last. -/
def write (now : ℚ) (state : List (Text × Stored)) (request : BucketRequest) (left : ℚ) :
    List (Text × Stored) :=
  let fullAt := now + max 0 (request.capacity - left) / max request.refillPerSecond (1 / 10 ^ 9)
  dictErase state request.key ++ [(request.key, ⟨left, now, fullAt⟩)]

/-- Drop the buckets that are full again, every so many takes, and the least recently used beyond
the most that are kept, on every one. -/
def forget (now : ℚ) (buckets : InMemoryTokenBucket) : InMemoryTokenBucket :=
  let takes := buckets.takes + 1
  let state :=
    if takes % sweepEvery = 0 then buckets.state.filter fun entry => ¬ entry.2.fullAt ≤ now
    else buckets.state
  { state := state.drop (state.length - maxTrackedBuckets), takes := takes }

/-- A take, and what becomes of the buckets after it. -/
def takeThen (forget : ℚ → InMemoryTokenBucket → InMemoryTokenBucket)
    (buckets : InMemoryTokenBucket) (now : ℚ) (requests : List BucketRequest) (cost : ℤ) :
    InMemoryTokenBucket × BucketDecision :=
  if requests = [] then (buckets, allowedDecision)
  else
    let (refused, wait) := weigh (available buckets.state now) cost requests
    let state := requests.foldl (fun state request =>
      let tokens := available buckets.state now request
      write now state request (if refused = none then tokens - cost else tokens)) buckets.state
    (forget now { buckets with state := state },
      if refused = none then allowedDecision else ⟨false, wait, refused⟩)

/-- Take so many tokens from every bucket, or from none of them. -/
def take : InMemoryTokenBucket → ℚ → List BucketRequest → ℤ →
    InMemoryTokenBucket × BucketDecision :=
  takeThen forget

/-- The same store if it never forgot anything. -/
def takeKeeping : InMemoryTokenBucket → ℚ → List BucketRequest → ℤ →
    InMemoryTokenBucket × BucketDecision :=
  takeThen fun _ buckets => { buckets with takes := buckets.takes + 1 }

/-- The buckets of a process that has just started. -/
def empty : InMemoryTokenBucket := ⟨[], 0⟩

end InMemoryTokenBucket

/-! ### The shared buckets -/

/-- A bucket in Redis, and when Redis drops it. -/
structure RedisBucket where
  tokens : ℚ
  ts : ℚ
  expires : ℚ
  deriving DecidableEq

/-- The buckets in Redis. -/
abbrev RedisTokenBucket := List (Text × RedisBucket)

namespace RedisTokenBucket

/-- What a bucket holds now; one that is not there, or has expired, is full. -/
def available (state : RedisTokenBucket) (now : ℚ) (request : BucketRequest) : ℚ :=
  let stored := ((dictGet state request.key).filter fun stored => now < stored.expires).getD
    ⟨request.capacity, now, now⟩
  let elapsed := if now - stored.ts < 0 then 0 else now - stored.ts
  min request.capacity (stored.tokens + elapsed * request.refillPerSecond)

/-- What the script answers: whether, how many milliseconds to wait, and the refusing bucket by its
place, counted from one. -/
structure Reply where
  allowed : Bool
  retryMs : ℤ
  refused : ℕ

/-- What the first pass makes of one bucket, at its place. -/
def Reply.next (available : BucketRequest → ℚ) (cost : ℤ) (reply : Reply)
    (entry : BucketRequest × ℕ) : Reply :=
  if available entry.1 < cost then
    { allowed := false
      retryMs := max reply.retryMs
        ⌈(cost - available entry.1) / entry.1.refillPerSecond * 1000⌉
      refused := if reply.allowed then entry.2 + 1 else reply.refused }
  else reply

/-- The first pass: reads and decides. -/
def weigh (available : BucketRequest → ℚ) (cost : ℤ) (requests : List BucketRequest) : Reply :=
  requests.zipIdx.foldl (Reply.next available cost) ⟨true, 0, 0⟩

/-- The second pass writes one bucket, and when it expires. -/
def write (now : ℚ) (state : RedisTokenBucket) (request : BucketRequest) (left : ℚ) :
    RedisTokenBucket :=
  dictSet state request.key
    ⟨left, now, now + max 60 (⌈request.capacity / request.refillPerSecond⌉ + 1 : ℤ)⟩

/-- Refill, test and take, over every bucket, in one indivisible step. -/
def takeTokens (state : RedisTokenBucket) (now : ℚ) (requests : List BucketRequest) (cost : ℤ) :
    RedisTokenBucket × Reply :=
  let reply := weigh (available state now) cost requests
  (requests.foldl (fun written request =>
      let tokens := available state now request
      write now written request (if reply.allowed then tokens - cost else tokens)) state,
    reply)

/-- Take so many tokens from each bucket, or report how long until they are there. -/
def take (state : RedisTokenBucket) (now : ℚ) (requests : List BucketRequest) (cost : ℤ) :
    RedisTokenBucket × BucketDecision :=
  if requests = [] then (state, allowedDecision)
  else
    let (state, reply) := takeTokens state now requests cost
    (state,
      { allowed := reply.allowed
        retryAfterSeconds := ((reply.retryMs / 1000 : ℚ) : WithTop ℚ)
        refused := if reply.refused = 0 then none else requests[reply.refused - 1]? })

end RedisTokenBucket

/-! ### Runs -/

/-- One take of a run: when, of which buckets, and how much. -/
structure Call where
  moment : ℚ
  requests : List BucketRequest
  cost : ℤ
  deriving DecidableEq

/-- What a store answers to a run of takes. -/
def decisions {σ : Type} (take : σ → ℚ → List BucketRequest → ℤ → σ × BucketDecision) :
    σ → List Call → List BucketDecision
  | _, [] => []
  | s, call :: rest =>
    (take s call.moment call.requests call.cost).2 ::
      decisions take (take s call.moment call.requests call.cost).1 rest

/-- What a store is after a run of takes. -/
def storeAfter {σ : Type} (take : σ → ℚ → List BucketRequest → ℤ → σ × BucketDecision) :
    σ → List Call → σ
  | s, [] => s
  | s, call :: rest =>
    storeAfter take (take s call.moment call.requests call.cost).1 rest

end AiraGateway.Ratelimit
