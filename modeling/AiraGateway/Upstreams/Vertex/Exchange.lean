import AiraGateway.Library.Traced
import AiraGateway.Upstreams.Vertex.Transport

/-!
# One exchange with the platform

A call is a program that takes what its exchange meets from the environment — no credential, no
connection, an answer, an interruption — and says what it sent, what came back, and which streamed
responses it opened and closed. An answer is judged by its status before anything is read from it,
and a refused stream is closed before the refusal is raised.

* **One exchange sends one body** (`post_meets`, `enterStream_meets`): what a run of either says is
  nothing, or the sending, or the sending and what came back; a stream stays open exactly where
  its response is handed on.
-/

namespace AiraGateway.Vertex

open Traced

/-! ### What an exchange meets -/

/-- How a connection failed, with the name of the exception. -/
inductive HttpFault
  | readTimeout
  | writeTimeout
  | poolTimeout
  | connect (kind : Text)
  | brokeOff (kind : Text)
  | other (kind : Text)
  deriving DecidableEq

/-- A failed connection: what was waited, and the cause it states. -/
structure HttpError where
  fault : HttpFault
  waited : Text := "its time limit"
  said : Text := []
  deriving DecidableEq

/-- A line of a streamed body, or what ended the reading of it. -/
inductive StreamLine
  | line (text : Text)
  | broken (e : HttpError)
  | interrupted (what : Text)
  deriving DecidableEq

/-- An answer: its status, the reason its body states, the cause its headers and body state, its
body where it is JSON, and its lines where it is read as a stream. -/
structure Response where
  status : ℕ
  reason : Text := []
  said : Text := []
  json : Option Json := none
  lines : List StreamLine := []
  deriving DecidableEq

/-- What one exchange meets. An interruption, such as a cancellation, comes before or after the
body was sent. -/
inductive Outcome
  | noCredential (said : Text)
  | interrupted (afterSending : Bool) (what : Text)
  | unreachable (e : HttpError)
  | answered (response : Response)

/-- What a call does, as the outside sees it. -/
inductive Event (β : Type)
  | tried (region : Text)
  | sent (address : Text) (body : β)
  | answered (response : Response)
  | opened (response : Response)
  | closed
  | chunk (chunk : CanonicalChunk)

/-- A call of the adapters, with bodies `β`. -/
abbrev Program (β α : Type) := Traced Outcome (Event β) Raised α

/-! ### What an exchange raises -/

/-- How the transport names itself in an error. -/
def platformName : Text := "Google Vertex AI"

def badAnswer : ℕ := 502

def credentialsUnavailable (said : Text) : Raised :=
  .upstream {
    message := ("Vertex credentials are unavailable, so the request could not be sent. " : Text) ++
      ("The gateway's log has the cause for its operator." : Text) ++ said
    statusCode := some 503 }

/-- Who stopped, and the gateway's own status where it was the gateway. -/
def unreachable (e : HttpError) : Raised :=
  let name := platformName
  match e.fault with
  | .readTimeout => .upstream {
      message := ("AIRA stopped waiting: " : Text) ++ name ++ (" sent nothing for " : Text) ++
        e.waited ++ (", the longest this gateway waits for it." : Text) ++ e.said
      gatewayStatus := some 504 }
  | .writeTimeout => .upstream {
      message := ("AIRA could not finish sending the request to " : Text) ++ name ++
        (" within " : Text) ++ e.waited ++ '.' :: e.said
      gatewayStatus := some 504 }
  | .poolTimeout => .upstream {
      message := ("AIRA had no free connection to " : Text) ++ name ++ (" within " : Text) ++
        e.waited ++ (": too many requests to it were in flight at once." : Text) ++ e.said
      gatewayStatus := some 503 }
  | .connect kind => .upstream {
      message := ("AIRA could not reach " : Text) ++ name ++ (" (" : Text) ++ kind ++
        (")." : Text) ++ e.said }
  | .brokeOff kind => .upstream {
      message := name ++ (" broke off the connection (" : Text) ++ kind ++ (")." : Text) ++ e.said }
  | .other kind => .upstream {
      message := name ++ (" error: " : Text) ++ kind ++ '.' :: e.said }

/-- The statuses whose stated reason is carried. -/
def reasonCarried : List ℕ := [400, 413]

def notServed : Text :=
  (" The model is not available at the address the catalogue gives — retired, not offered in "
    : Text) ++
    ("that region, or not enabled for this account — and asking again will not change that."
      : Text)

/-- A model call's answer that is not a success. -/
def refused (response : Response) : Raised :=
  let detail := if response.status ∈ reasonCarried then response.reason else []
  let gone := if response.status = 404 then notServed else []
  .upstream {
    message := platformName ++ (" returned " : Text) ++ Nat.toDigits 10 response.status ++
      '.' :: detail ++ response.said ++ gone
    statusCode := some response.status }

def jsonObject (response : Response) : Except Raised (List (Text × Json)) :=
  match response.json with
  | none => .error (.upstream {
      message := platformName ++ (" answered with a body that is not JSON." : Text)
      statusCode := some badAnswer })
  | some (.obj members) => .ok members
  | some _ => .error (.upstream {
      message := platformName ++ (" answered with JSON that is not an object." : Text)
      statusCode := some badAnswer })

/-! ### The exchanges -/

variable {β : Type}

/-- Resolve the credential and send the body: the answer, as `event` says it. -/
def exchange (address : Text) (body : β) (event : Response → Event β) : Program β Response := do
  match ← ask with
  | .noCredential said => raise (credentialsUnavailable said)
  | .interrupted false what => raise (.crashed what)
  | .interrupted true what => do
    say (.sent address body)
    raise (.crashed what)
  | .unreachable e => do
    say (.sent address body)
    raise (unreachable e)
  | .answered response => do
    say (.sent address body)
    say (event response)
    return response

def post (address : Text) (body : β) : Program β (List (Text × Json)) := do
  let response ← exchange address body .answered
  if response.status ≠ 200 then raise (refused response) else ofExcept (jsonObject response)

/-- Enter a streamed call: its response, judged by its status and closed where that is none to
read on. -/
def enterStream (address : Text) (body : β) : Program β Response := do
  let response ← exchange address body .opened
  if response.status ≠ 200 then do
    say .closed
    raise (refused response)
  else return response

/-- What a line of an event stream carries, where it carries a payload. -/
def ssePayload (loads : Text → Option Json) (line : Text) :
    Option (Except Raised (List (Text × Json))) :=
  if ¬("data:" : Text) <+: line then none
  else
    let payload := strip (line.drop ("data:" : Text).length)
    if payload = [] ∨ payload = "[DONE]" then none
    else
      match loads payload with
      | none => some (.error (.upstream {
          message := platformName ++ (" sent a stream event that is not JSON." : Text)
          statusCode := some badAnswer }))
      | some (.obj members) => some (.ok members)
      | some _ => none

/-- The payloads of a streamed body in order, each an object or what reading it raises. A reader
stops at the first that raises. -/
def ssePayloads (loads : Text → Option Json) (response : Response) :
    List (Except Raised (List (Text × Json))) :=
  response.lines.filterMap fun
    | .line text => ssePayload loads text
    | .broken e => some (.error (unreachable e))
    | .interrupted what => some (.error (.crashed what))

/-! ### What is read off a trace -/

/-- The bodies sent, each with its address. -/
def sends (events : List (Event β)) : List (Text × β) :=
  events.filterMap fun
    | .sent address body => some (address, body)
    | _ => none

/-- The responses that came back. -/
def responses (events : List (Event β)) : List Response :=
  events.filterMap fun
    | .answered response => some response
    | .opened response => some response
    | _ => none

/-- The chunks that reached the caller. -/
def delivered (events : List (Event β)) : List CanonicalChunk :=
  events.filterMap fun
    | .chunk chunk => some chunk
    | _ => none

/-- What happens within one region's attempt: neither the next region nor a chunk. -/
def Event.Inside : Event β → Prop
  | .tried _ => False
  | .chunk _ => False
  | _ => True

/-- Whether a streamed response is open after the events, where none is open twice and none is
closed that is not open. -/
def openAfter : Bool → List (Event β) → Option Bool
  | isOpen, [] => some isOpen
  | true, .opened _ :: _ => none
  | false, .opened _ :: events => openAfter true events
  | true, .closed :: events => openAfter false events
  | false, .closed :: _ => none
  | isOpen, .tried _ :: events => openAfter isOpen events
  | isOpen, .sent _ _ :: events => openAfter isOpen events
  | isOpen, .answered _ :: events => openAfter isOpen events
  | isOpen, .chunk _ :: events => openAfter isOpen events

section Reading

variable {events more : List (Event β)}

theorem sends_append : sends (events ++ more) = sends events ++ sends more :=
  List.filterMap_append

theorem responses_append : responses (events ++ more) = responses events ++ responses more :=
  List.filterMap_append

theorem delivered_append : delivered (events ++ more) = delivered events ++ delivered more :=
  List.filterMap_append

theorem openAfter_append (isOpen : Bool) :
    openAfter isOpen (events ++ more) = (openAfter isOpen events).bind (openAfter · more) := by
  fun_induction openAfter isOpen events with
  | case1 => rfl
  | case2 => rfl
  | case5 => rfl
  | case3 _ _ ih => exact ih
  | case4 _ ih => exact ih
  | case6 _ _ _ ih => exact ih
  | case7 _ _ _ _ ih => exact ih
  | case8 _ _ _ ih => exact ih
  | case9 _ _ _ ih => exact ih

end Reading

/-! ### One exchange sends one body -/

/-- What is raised before a body was sent: no credential, or an interruption. -/
def Raised.Unsent (e : Raised) : Prop :=
  (∃ said, e = credentialsUnavailable said) ∨ ∃ what, e = .crashed what

/-- What a run of `exchange` says: where it hands on a response, that it was sent and came back. -/
theorem exchange_meets (address : Text) (body : β) (event : Response → Event β) :
    (exchange address body event).Meets fun events result =>
      (events = [] ∧ ∃ e, result = .error e ∧ e.Unsent) ∨
      (events = [.sent address body] ∧ ∃ e, result = .error e) ∨
      ∃ response, events = [.sent address body, event response] ∧ result = .ok response := by
  refine meets_ask_bind fun outcome => ?_
  rcases outcome with said | ⟨afterSending, what⟩ | e | response
  · exact meets_raise (.inl ⟨rfl, _, rfl, .inl ⟨said, rfl⟩⟩)
  · rcases afterSending with _ | _
    · exact meets_raise (.inl ⟨rfl, _, rfl, .inr ⟨what, rfl⟩⟩)
    · exact meets_say_bind (meets_raise (.inr (.inl ⟨rfl, _, rfl⟩)))
  · exact meets_say_bind (meets_raise (.inr (.inl ⟨rfl, _, rfl⟩)))
  · exact meets_say_bind (meets_say_bind (meets_pure (.inr (.inr ⟨response, rfl, rfl⟩))))

/-- What a run of `post` says; the object it hands on is the response's. -/
theorem post_meets (address : Text) (body : β) :
    (post address body).Meets fun events result =>
      (events = [] ∧ ∃ e, result = .error e ∧ e.Unsent) ∨
      (events = [.sent address body] ∧ ∃ e, result = .error e) ∨
      ∃ response, events = [.sent address body, .answered response] ∧
        ∀ data, result = .ok data → response.status = 200 ∧ jsonObject response = .ok data := by
  refine .bind ((exchange_meets address body .answered).mono fun events result h => ?_)
  refine ⟨?_, fun response hresult => ?_⟩
  · rintro e rfl
    rcases h with ⟨hevents, _, he, hunsent⟩ | ⟨hevents, -⟩ | ⟨_, _, h⟩
    · exact .inl ⟨hevents, e, rfl, Except.error.inj he ▸ hunsent⟩
    · exact .inr (.inl ⟨hevents, e, rfl⟩)
    · exact nomatch h
  · subst hresult
    rcases h with ⟨-, e, h, -⟩ | ⟨-, e, h⟩ | ⟨_, rfl, h⟩
    · exact nomatch h
    · exact nomatch h
    obtain rfl := Except.ok.inj h
    split_ifs with hstatus
    · exact meets_raise (.inr (.inr ⟨response, rfl, fun _ h => (nomatch h)⟩))
    · exact meets_ofExcept (.inr (.inr ⟨response, rfl, fun data h => ⟨not_not.mp hstatus, h⟩⟩))

/-- A streamed response that is handed on is open; a refused one was closed. -/
theorem enterStream_meets (address : Text) (body : β) :
    (enterStream address body).Meets fun events result =>
      (events = [] ∧ ∃ e, result = .error e ∧ e.Unsent) ∨
      ((events = [.sent address body] ∨
          ∃ response, events = [.sent address body, .opened response, .closed]) ∧
        ∃ e, result = .error e) ∨
      ∃ response, events = [.sent address body, .opened response] ∧ response.status = 200 ∧
        result = .ok response := by
  refine .bind ((exchange_meets address body .opened).mono fun events result h => ?_)
  refine ⟨?_, fun response hresult => ?_⟩
  · rintro e rfl
    rcases h with h | ⟨hevents, -⟩ | ⟨_, _, h⟩
    · exact .inl h
    · exact .inr (.inl ⟨.inl hevents, e, rfl⟩)
    · exact nomatch h
  · subst hresult
    rcases h with ⟨-, e, h, -⟩ | ⟨-, e, h⟩ | ⟨_, rfl, h⟩
    · exact nomatch h
    · exact nomatch h
    obtain rfl := Except.ok.inj h
    split_ifs with hstatus
    · exact meets_say_bind (meets_raise (.inr (.inl ⟨.inr ⟨response, rfl⟩, _, rfl⟩)))
    · exact meets_pure (.inr (.inr ⟨response, rfl, not_not.mp hstatus, rfl⟩))

end AiraGateway.Vertex
