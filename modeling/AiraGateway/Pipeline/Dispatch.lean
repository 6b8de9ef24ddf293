import AiraGateway.Core.Canonical
import AiraGateway.Library.FirstAnswer
import AiraGateway.Upstreams.Dialect

/-!
# The chain of candidates

A request is tried on the model it names and then on the fallback models, in order. A candidate
that fails a condition is skipped with its reason, one that was called and failed is reported with
the upstream's, and the first that answers wins. There are three forms of the chain: for a
finished answer, for vectors or a ranking, and for a stream, whose first chunk is the test. What
the call of a candidate meets is an argument here, by the candidate's position, so a statement
over all of them is one over every outcome of every candidate.
-/

namespace AiraGateway

/-! ### What a call can meet -/

/-- A failure talking to an upstream. The status is the upstream's, where it answered with one;
the gateway's is for where this gateway stopped. -/
structure UpstreamError where
  message : Text
  statusCode : Option ℕ := none
  gatewayStatus : Option ℕ := none
  deriving DecidableEq

/-- A candidate that cannot be addressed. -/
inductive Unaddressable
  | ambiguousModel (message : Text)
  | regionNotAllowed (message : Text)
  deriving DecidableEq

/-- What a candidate's call fails with. -/
inductive Failure
  | upstream (e : UpstreamError)
  | unaddressable (e : Unaddressable)
  | dialect (e : DialectUnsupported)
  deriving DecidableEq

def Unaddressable.str : Unaddressable → Text
  | .ambiguousModel message => message
  | .regionNotAllowed message => message

/-- The upstream's own reason, with the status where it answered with one. -/
def UpstreamError.why (e : UpstreamError) : Text :=
  match e.statusCode with
  | none => e.message
  | some status => e.message ++ ((" (HTTP " : Text) ++ (Nat.toDigits 10 status ++ [')']))

/-! ### The candidates -/

/-- Which adapter serves a model: the configured names, and the names adapters own. -/
structure ProviderRegistry (P : Type) where
  byModel : Text → Option P
  byProvider : Text × Text → Option P

/-- The adapter owning exactly a provider and a publisher. -/
def ProviderRegistry.exact {P : Type} (r : ProviderRegistry P) (provider publisher : Text) :
    Option P :=
  if publisher = [] then none else r.byProvider (provider, publisher)

def ProviderRegistry.providerFor {P : Type} (r : ProviderRegistry P)
    (model provider publisher : Text) : Option P :=
  match r.byModel model with
  | some direct => some direct
  | none =>
    if provider = [] then none
    else (r.exact provider publisher).or (r.byProvider (provider, []))

/-- How the catalogue says to reach a candidate. -/
structure Routing where
  provider : Text := []
  publisher : Text := []
  addressing : Json := .obj []

/-- A request that names a model and is addressed to another by writing the name, and the
addressing where there is one, into a copy. -/
class Addressed (R : Type) where
  model : R → Text
  address : R → Text → Option Json → R

instance : Addressed CanonicalRequest where
  model r := r.model
  address r model addressing :=
    { r with model := model, addressing := addressing.getD r.addressing }

/-- What a candidate has to meet, each where the caller gave one: a condition that may refuse,
the catalogue's routing, and the request as the candidate is sent it. -/
structure Conditions (R : Type) where
  permits : Option (Text → Option Text) := none
  routingOf : Option (Text → Routing) := none
  fit : Option (R → Except Text R) := none

structure Skipped where
  model : Text
  reason : Text
  deriving DecidableEq

structure Attempted where
  model : Text
  reason : Text
  deriving DecidableEq

/-- Who a chain moved past. -/
structure PassedOver where
  skipped : List Skipped
  failed : List Attempted
  deriving DecidableEq

section Chain

variable {P R T : Type} [Addressed R]
variable (registry : ProviderRegistry P) (request : R) (conditions : Conditions R)

open Addressed

/-- The model asked for, and the fallbacks that are not it. -/
def candidateNames (request : R) (fallbackModels : List Text) : List Text :=
  model request :: fallbackModels.filter (· ≠ model request)

/-- One candidate: why it is skipped, or the adapter with the request addressed and fitted. -/
def candidate (name : Text) : Except Text (P × R) :=
  let routing := conditions.routingOf.elim {} (· name)
  match registry.providerFor name routing.provider routing.publisher with
  | none => .error "no provider serves this model"
  | some provider =>
    match conditions.permits.bind (· name) with
    | some refusal => .error refusal
    | none =>
      let addressed := address request name (conditions.routingOf.map fun _ => routing.addressing)
      match conditions.fit with
      | none => .ok (provider, addressed)
      | some fit =>
        match fit addressed with
        | .error reason => .error reason
        | .ok fitted => .ok (provider, fitted)

/-! ### What a chain raises -/

inductive ChainError
  | upstream (e : UpstreamError)
  | noCapableModel (skipped : List Skipped)
  | dialect (e : DialectUnsupported)
  | unaddressable (e : Unaddressable)
  deriving DecidableEq

/-- An error with who was passed over on the way to raising it. -/
structure Exhausted where
  error : ChainError
  passedOver : PassedOver
  deriving DecidableEq

private def listed (opening : Text) (entries : List Text) : Text :=
  opening ++ (List.intercalate ("; " : Text) entries ++ (")." : Text))

/-- The message of an outage names every candidate and why it did not answer. -/
def outageMessage (skipped : List Skipped) (failed : List Attempted) : Text :=
  listed "No model answered this request ("
    (failed.map (fun entry => entry.model ++ ((": " : Text) ++ entry.reason)) ++
      skipped.map (fun entry => entry.model ++ ((": skipped, " : Text) ++ entry.reason)))

def ChainError.exhausted (error : ChainError) (skipped : List Skipped) (failed : List Attempted) :
    Exhausted where
  error := match error with
    | .upstream e => if failed = [] then error
      else .upstream { e with message := outageMessage skipped failed }
    | _ => error
  passedOver := { skipped, failed }

/-- What a caller reads of an error. -/
def ChainError.message : ChainError → Text
  | .upstream e => e.message
  | .noCapableModel skipped =>
    listed "No model could serve this request ("
      (skipped.map fun entry => entry.model ++ ((": " : Text) ++ entry.reason))
  | .dialect e => e.message
  | .unaddressable e => e.str

/-- Why a chain with no answer and no outage had nothing to offer. -/
def nothingCouldServe (skipped : List Skipped) (unsayable : List DialectUnsupported) :
    ChainError :=
  match unsayable.getLast? with
  | none => .noCapableModel skipped
  | some e =>
    if unsayable.length = skipped.length then .dialect e else .noCapableModel skipped

/-! ### The lists a chain keeps -/

/-- What a chain has noted so far; `called` are the models it called. -/
structure Walk where
  skipped : List Skipped := []
  failed : List Attempted := []
  lastError : Option UpstreamError := none
  unsayable : List DialectUnsupported := []
  unaddressable : List Unaddressable := []
  called : List Text := []

def Walk.skip (w : Walk) (name reason : Text) : Walk :=
  { w with skipped := w.skipped ++ [{ model := name, reason }] }

def Walk.attempted (w : Walk) (name : Text) (e : UpstreamError) : Walk :=
  { w with lastError := some e, failed := w.failed ++ [{ model := name, reason := e.why }] }

def Walk.call (w : Walk) (name : Text) : Walk := { w with called := w.called ++ [name] }

/-- What a run of a chain leaves: the models called, the streams of the candidates passed over,
and the result. -/
structure Ran (S α : Type) where
  called : List Text
  passedStreams : List (Text × S) := []
  result : Except Exhausted α

/-! ### The chain for a finished answer -/

structure Dispatched (T : Type) where
  response : T
  candidateIndex : ℕ
  skipped : List Skipped
  failed : List Attempted

/-- What is raised when no candidate answered. -/
def dispatchExhausted (w : Walk) : Exhausted :=
  match w.lastError with
  | some e => ChainError.exhausted (.upstream e) w.skipped w.failed
  | none => (nothingCouldServe w.skipped w.unsayable).exhausted w.skipped w.failed

def dispatchLoop (generate : ℕ → P → R → Except Failure T) :
    ℕ → List Text → Walk → Ran Empty (Dispatched T)
  | _, [], w => { called := w.called, result := .error (dispatchExhausted w) }
  | index, name :: rest, w =>
    match candidate registry request conditions name with
    | .error reason => dispatchLoop generate (index + 1) rest (w.skip name reason)
    | .ok (provider, addressed) =>
      let w := w.call name
      match generate index provider addressed with
      | .error (.upstream e) => dispatchLoop generate (index + 1) rest (w.attempted name e)
      | .error (.unaddressable e) => dispatchLoop generate (index + 1) rest (w.skip name e.str)
      | .error (.dialect e) =>
        dispatchLoop generate (index + 1) rest
          ({ w with unsayable := w.unsayable ++ [e] }.skip name e.message)
      | .ok response =>
        { called := w.called
          result := .ok { response, candidateIndex := index, skipped := w.skipped
                          failed := w.failed } }

def dispatchWithFallback (fallbackModels : List Text)
    (generate : ℕ → P → R → Except Failure T) : Ran Empty (Dispatched T) :=
  dispatchLoop registry request conditions generate 0 (candidateNames request fallbackModels) {}

/-! ### The chain for vectors or a ranking -/

structure Answered (T : Type) where
  value : T
  model : Text
  candidateIndex : ℕ
  skipped : List Skipped
  failed : List Attempted

/-- As for a finished answer, but where every candidate was skipped because nowhere it may be
sent, its own addressing fault is the answer. -/
def answerExhausted (w : Walk) : Exhausted :=
  match w.lastError with
  | some e => ChainError.exhausted (.upstream e) w.skipped w.failed
  | none =>
    match w.unaddressable.getLast? with
    | some e =>
      if w.unaddressable.length = w.skipped.length then
        ChainError.exhausted (.unaddressable e) w.skipped w.failed
      else (nothingCouldServe w.skipped w.unsayable).exhausted w.skipped w.failed
    | none => (nothingCouldServe w.skipped w.unsayable).exhausted w.skipped w.failed

def answerLoop (call : ℕ → P → R → Except Failure T) :
    ℕ → List Text → Walk → Ran Empty (Answered T)
  | _, [], w => { called := w.called, result := .error (answerExhausted w) }
  | index, name :: rest, w =>
    match candidate registry request conditions name with
    | .error reason => answerLoop call (index + 1) rest (w.skip name reason)
    | .ok (provider, addressed) =>
      let w := w.call name
      match call index provider addressed with
      | .error (.upstream e) => answerLoop call (index + 1) rest (w.attempted name e)
      | .error (.unaddressable e) =>
        answerLoop call (index + 1) rest
          ({ w with unaddressable := w.unaddressable ++ [e] }.skip name e.str)
      | .error (.dialect e) =>
        answerLoop call (index + 1) rest
          ({ w with unsayable := w.unsayable ++ [e] }.skip name e.message)
      | .ok value =>
        { called := w.called
          result := .ok { value, model := name, candidateIndex := index, skipped := w.skipped
                          failed := w.failed } }

def answerWithFallback (fallbackModels : List Text)
    (call : ℕ → P → R → Except Failure T) : Ran Empty (Answered T) :=
  answerLoop registry request conditions call 0 (candidateNames request fallbackModels) {}

end Chain

/-! ### Streams -/

/-- What an adapter's stream brings: its chunks, and what it breaks off with, if it does. -/
structure Feed where
  chunks : List CanonicalChunk
  failure : Option Failure := none

/-- A stream that is open, has run to its end, or was closed. -/
structure Source where
  feed : Feed
  ended : Bool := false
  closed : Bool := false

/-- What asking for the next chunk gives. -/
inductive Pulled
  | chunk (c : CanonicalChunk)
  | raised (e : Failure)
  | stop

def Source.next (s : Source) : Pulled × Source :=
  if s.ended || s.closed then (.stop, s)
  else
    match s.feed.chunks with
    | c :: rest => (.chunk c, { s with feed := { s.feed with chunks := rest } })
    | [] =>
      match s.feed.failure with
      | some e => (.raised e, { s with feed := { s.feed with failure := none } })
      | none => (.stop, { s with ended := true })

def Source.close (s : Source) : Source := { s with closed := true }

/-- Nothing holds the stream's connection any more. -/
def Source.released (s : Source) : Bool := s.ended || s.closed

/-- The iterator a caller reads: the chunk pulled early and everything after it. It holds the
stream it wraps, and is closed with it once it was entered. -/
inductive Rejoined
  | nothing (source : Source)
  | unstarted (first : CanonicalChunk) (source : Source)
  | started (source : Source)
  | finished (source : Source)

def Rejoined.source : Rejoined → Source
  | .nothing source | .unstarted _ source | .started source | .finished source => source

def Rejoined.next : Rejoined → Pulled × Rejoined
  | .nothing source => (.stop, .nothing source)
  | .unstarted first source => (.chunk first, .started source)
  | .started source =>
    match source.next with
    | (.chunk c, source) => (.chunk c, .started source)
    | (pulled, source) => (pulled, .finished source.close)
  | .finished source => (.stop, .finished source)

/-- Closing a generator raises where it stands; one that was never entered stands before its
`finally`. -/
def Rejoined.close : Rejoined → Rejoined
  | .nothing source => .nothing source
  | .unstarted _ source => .finished source
  | .started source => .finished source.close
  | .finished source => .finished source

/-- What a caller does with the iterator: ask for a chunk, and be cancelled while one is asked
for. -/
inductive Taking
  | next
  | cancelled
  deriving DecidableEq

def Rejoined.take (r : Rejoined) : Taking → Rejoined
  | .next => r.next.2
  | .cancelled =>
    match r with
    | .started source => .finished source.close
    -- the other three answer without waiting
    | r => r.next.2

structure Streaming (P R : Type) where
  model : Text
  candidateIndex : ℕ
  chunks : Rejoined
  skipped : List Skipped
  failed : List Attempted
  provider : Option P := none
  sent : Option R := none
  region : Text := []

section Stream

variable {P R : Type} [Addressed R]
variable (registry : ProviderRegistry P) (request : R) (conditions : Conditions R)

def streamLoop (streamGenerate : ℕ → P → R → Feed) :
    ℕ → List Text → Walk → List (Text × Source) → Ran Source (Streaming P R)
  | _, [], w, passed =>
    { called := w.called, passedStreams := passed, result := .error (dispatchExhausted w) }
  | index, name :: rest, w, passed =>
    match candidate registry request conditions name with
    | .error reason => streamLoop streamGenerate (index + 1) rest (w.skip name reason) passed
    | .ok (provider, addressed) =>
      let w := w.call name
      match Source.next { feed := streamGenerate index provider addressed } with
      | (.stop, chunks) =>
        { called := w.called
          passedStreams := passed
          result := .ok { model := name, candidateIndex := index, chunks := .nothing chunks
                          skipped := w.skipped, failed := w.failed, provider, sent := addressed } }
      | (.raised (.upstream e), chunks) =>
        streamLoop streamGenerate (index + 1) rest (w.attempted name e)
          (passed ++ [(name, chunks.close)])
      | (.raised (.unaddressable e), chunks) =>
        streamLoop streamGenerate (index + 1) rest (w.skip name e.str)
          (passed ++ [(name, chunks.close)])
      | (.raised (.dialect e), chunks) =>
        streamLoop streamGenerate (index + 1) rest
          ({ w with unsayable := w.unsayable ++ [e] }.skip name e.message)
          (passed ++ [(name, chunks.close)])
      | (.chunk first, chunks) =>
        { called := w.called
          passedStreams := passed
          result := .ok { model := name, candidateIndex := index
                          chunks := .unstarted first chunks
                          skipped := w.skipped, failed := w.failed, provider, sent := addressed
                          region := orText first.servedRegion [] } }

def streamWithFallback (fallbackModels : List Text) (streamGenerate : ℕ → P → R → Feed) :
    Ran Source (Streaming P R) :=
  streamLoop registry request conditions streamGenerate 0
    (candidateNames request fallbackModels) {} []

end Stream

end AiraGateway
