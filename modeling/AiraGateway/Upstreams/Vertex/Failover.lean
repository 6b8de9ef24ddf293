import AiraGateway.Upstreams.Vertex.Calls

/-!
# A region that is down

A call walks the regions of its model and moves on where the failure is about the place. What such a
failure is, is decided by the status the exchange puts on it: a region that refuses the connection
has none, and a stream that reports its failure as an event has been opened before.

* **The walk, place by place** (`walk_moves`, `walk_stops`): each attempt starts where the one
  before it ended, and the first that does not fail for the place ends the walk.
* **A region that is down is passed over exactly where it says so with a status** before its stream
  is opened (`failsOver_iff`).
-/

namespace AiraGateway.Vertex

open Traced

variable {β V : Type}

/-! ### What a failure is about -/

/-- The connection was refused or did not come about in time. -/
def CouldNotReach (exc : Raised) : Prop :=
  ∃ (e : HttpError) (kind : Text), e.fault = .connect kind ∧ exc = unreachable e

/-- A failure for a reason about the place: it is not permitted there, it has one of the statuses
that say so, or the place could not be reached. -/
def PlaceReason (exc : Raised) : Prop := exc.aboutThePlace = true ∨ CouldNotReach exc

/-- The statuses of a failure that is about the request. -/
def requestStatuses : List ℕ := [400, 401, 403, 422]

theorem not_aboutThePlace_of_couldNotReach {exc : Raised} (h : CouldNotReach exc) :
    exc.aboutThePlace = false := by
  obtain ⟨e, kind, hfault, rfl⟩ := h
  rw [unreachable, hfault]
  rfl

theorem not_aboutThePlace_of_request {e : UpstreamError} {status : ℕ}
    (hstatus : e.statusCode = some status) (h : status ∈ requestStatuses) :
    (Raised.upstream e).aboutThePlace = false := by
  have hall : ∀ status ∈ requestStatuses, decide (status ∈ regionFailoverStatuses) = false := by
    decide
  rw [Raised.upstream, Raised.aboutThePlace, hstatus, Option.any_some]
  exact hall status h

/-- What reading a stream raises before it has given a chunk. -/
def beforeChunk (read : ChunkReader) :
    List (Except Raised (List (Text × Json))) → List (List (Text × Json)) → Option Raised
  | [], _ => none
  | .error e :: _, _ => some e
  | .ok payload :: payloads, seen =>
    match read seen payload with
    | .error e => some e
    | .ok none => beforeChunk read payloads (seen ++ [payload])
    | .ok (some _) => none

/-- How a region's exchange failed: the attempt at it raised, or the stream it opened did before its
first chunk. -/
def failureOf (loads : Text → Option Json) : Except Raised (Answer V) → Option Raised
  | .error e => some e
  | .ok (.streamed opened) => beforeChunk opened.read (ssePayloads loads opened.response) []
  | .ok _ => none

/-! ### The walk, place by place -/

section Walk

variable {T : Type} (attempt : Text → Text → Program β T) (outcomes : ℕ → Outcome)

/-- What each place's attempt leaves, where each starts with what the one before it left. -/
def attemptsAt : ℕ → List (Text × Text) → List (TracedRun (Event β) Raised T)
  | _, [] => []
  | n, (region, publisher) :: places =>
    attempt region publisher outcomes n ::
      attemptsAt (attempt region publisher outcomes n).used places

/-- What the walk does with a failure at one place. -/
def movingOn (places : List (Text × Text)) (exc : Raised) : Program β T :=
  if exc.aboutThePlace then acrossRegions attempt (some exc) places else raise exc

variable {attempt outcomes} (last : Option Raised) {n : ℕ} {region publisher : Text}
  (places : List (Text × Text)) {exc : Raised}

theorem acrossRegions_cons : acrossRegions attempt last ((region, publisher) :: places) outcomes n =
    ⟨.tried region ::
        ((attempt region publisher).catching (movingOn attempt places) outcomes n).events,
      ((attempt region publisher).catching (movingOn attempt places) outcomes n).used,
      ((attempt region publisher).catching (movingOn attempt places) outcomes n).result⟩ := rfl

theorem catching_of_error {handler : Raised → Program β T} {p : Program β T}
    (h : (p outcomes n).result = .error exc) : p.catching handler outcomes n =
      after (p outcomes n).events (p outcomes n).used (handler exc) outcomes := by
  rw [Traced.catching]
  simp only [h]

/-- A failure about the place moves on to the next one. -/
theorem walk_moves (hfailed : (attempt region publisher outcomes n).result = .error exc)
    (hplace : exc.aboutThePlace = true) :
    (acrossRegions attempt last ((region, publisher) :: places) outcomes n).result =
        (acrossRegions attempt (some exc) places outcomes
          (attempt region publisher outcomes n).used).result ∧
      (acrossRegions attempt last ((region, publisher) :: places) outcomes n).events =
        .tried region :: ((attempt region publisher outcomes n).events ++
          (acrossRegions attempt (some exc) places outcomes
            (attempt region publisher outcomes n).used).events) := by
  rw [acrossRegions_cons last places, catching_of_error hfailed, movingOn, if_pos hplace]
  exact ⟨rfl, rfl⟩

/-- An answer ends the walk. -/
theorem walk_answers {a : T} (hanswer : (attempt region publisher outcomes n).result = .ok a) :
    (acrossRegions attempt last ((region, publisher) :: places) outcomes n).result = .ok a := by
  rw [acrossRegions_cons last places, Traced.catching]
  simp only [hanswer]

/-- Any other failure ends the walk, and nothing is tried after it. -/
theorem walk_stops (hfailed : (attempt region publisher outcomes n).result = .error exc)
    (hplace : exc.aboutThePlace = false) :
    (acrossRegions attempt last ((region, publisher) :: places) outcomes n).result = .error exc ∧
      (acrossRegions attempt last ((region, publisher) :: places) outcomes n).events =
        .tried region :: (attempt region publisher outcomes n).events := by
  have hnot : ¬exc.aboutThePlace = true := by rw [hplace]; exact Bool.false_ne_true
  rw [acrossRegions_cons last places, catching_of_error hfailed, movingOn, if_neg hnot]
  exact ⟨rfl, congrArg _ (List.append_nil _)⟩

/-- What the attempts at places say, with the regions' names. -/
def traces : List (Text × Text) → List (TracedRun (Event β) Raised T) → List (Event β)
  | place :: places, ran :: rans => .tried place.1 :: (ran.events ++ traces places rans)
  | _, _ => []

/-- The walk comes as far as a failure that is not about the place, and ends there. -/
theorem walk_ends {j : ℕ} {ran : TracedRun (Event β) Raised T}
    (hran : (attemptsAt attempt outcomes n places)[j]? = some ran)
    (hfailed : ran.result = .error exc) (hplace : exc.aboutThePlace = false)
    (hmoved : ∀ i < j, ∀ ran, (attemptsAt attempt outcomes n places)[i]? = some ran →
      ∃ exc, ran.result = .error exc ∧ exc.aboutThePlace = true) :
    (acrossRegions attempt last places outcomes n).result = .error exc ∧
      (acrossRegions attempt last places outcomes n).events =
        traces (places.take (j + 1)) (attemptsAt attempt outcomes n places) := by
  induction places generalizing n last j with
  | nil => exact absurd hran (Option.some_ne_none _).symm
  | cons place places ih =>
    obtain ⟨region, publisher⟩ := place
    cases j with
    | zero =>
      obtain rfl := Option.some.inj hran
      obtain ⟨hresult, hevents⟩ := walk_stops last places hfailed hplace
      refine ⟨hresult, ?_⟩
      rw [hevents, attemptsAt, List.take_succ_cons, traces, List.take_zero, traces,
        List.append_nil]
      simp
    | succ j =>
      obtain ⟨first, hfirst, habout⟩ := hmoved 0 (Nat.succ_pos j) _ rfl
      obtain ⟨hresult, hevents⟩ := walk_moves last places hfirst habout
      obtain ⟨hrest, hsaid⟩ := ih (some first) hran fun i hi => hmoved (i + 1) (by omega)
      refine ⟨hresult.trans hrest, ?_⟩
      rw [hevents, hsaid, attemptsAt, List.take_succ_cons, traces]

end Walk

/-! ### A region that is down is passed over -/

section FailsOver

variable (loads : Text → Option Json) (attempt : Text → Text → Program β (Answer V))
  (outcomes : ℕ → Outcome) (n : ℕ) (places : List (Text × Text))

/-- A place answers, and every place before it failed for a reason about the place. -/
structure AnswersAfter (j : ℕ) (answer : Answer V) : Prop where
  answers : ∃ ran, (attemptsAt attempt outcomes n places)[j]? = some ran ∧ ran.result = .ok answer
  serves : failureOf loads (.ok answer) = none
  before : ∀ i < j, ∀ ran, (attemptsAt attempt outcomes n places)[i]? = some ran →
    ∃ exc, failureOf loads ran.result = some exc ∧ PlaceReason exc

/-- A region that is down does not stop a request another one would serve, and a failure that is
about the request ends the walk. -/
structure FailsOver : Prop where
  passedOver : ∀ j answer, AnswersAfter loads attempt outcomes n places j answer →
    (acrossRegions attempt none places outcomes n).result = .ok answer
  endsAtOnce : ∀ j ran e status, (attemptsAt attempt outcomes n places)[j]? = some ran →
    ran.result = .error (.upstream e) → e.statusCode = some status → status ∈ requestStatuses →
      (∀ i < j, ∀ ran, (attemptsAt attempt outcomes n places)[i]? = some ran →
        ∃ exc, ran.result = .error exc ∧ exc.aboutThePlace = true) →
      (acrossRegions attempt none places outcomes n).result = .error (.upstream e) ∧
        (acrossRegions attempt none places outcomes n).events =
          traces (places.take (j + 1)) (attemptsAt attempt outcomes n places)

/-- Where a place answers, no place before it was out of reach or opened a stream that reports a
failure before its first chunk. -/
def SaidWithStatus : Prop :=
  ∀ j answer, AnswersAfter loads attempt outcomes n places j answer →
    ∀ i < j, ∀ ran, (attemptsAt attempt outcomes n places)[i]? = some ran →
      (∀ opened, ran.result ≠ .ok (.streamed opened)) ∧
        ∀ exc, ran.result = .error exc → ¬CouldNotReach exc

variable {loads attempt outcomes n places}

theorem passedOver_iff (last : Option Raised) {j : ℕ} {answer : Answer V}
    (h : AnswersAfter loads attempt outcomes n places j answer) :
    (acrossRegions attempt last places outcomes n).result = .ok answer ↔
      ∀ i < j, ∀ ran, (attemptsAt attempt outcomes n places)[i]? = some ran →
        (∀ opened, ran.result ≠ .ok (.streamed opened)) ∧
          ∀ exc, ran.result = .error exc → ¬CouldNotReach exc := by
  induction places generalizing n last j with
  | nil =>
    obtain ⟨ran, hran, -⟩ := h.answers
    exact absurd hran (Option.some_ne_none _).symm
  | cons place places ih =>
    obtain ⟨region, publisher⟩ := place
    cases j with
    | zero =>
      obtain ⟨ran, hran, hanswer⟩ := h.answers
      obtain rfl := Option.some.inj hran
      exact iff_of_true (walk_answers last places hanswer) fun i hi => absurd hi (Nat.not_lt_zero i)
    | succ j =>
      have hnext : AnswersAfter loads attempt outcomes
          (attempt region publisher outcomes n).used places j answer :=
        ⟨h.answers, h.serves, fun i hi => h.before (i + 1) (Nat.succ_lt_succ hi)⟩
      obtain ⟨exc, hfailure, hreason⟩ := h.before 0 (Nat.succ_pos j) _ rfl
      cases hresult : (attempt region publisher outcomes n).result with
      | ok first =>
        -- the stream that was opened is handed on, though it fails before its first chunk
        rw [hresult] at hfailure
        have hother : first ≠ answer := by
          rintro rfl
          exact absurd (h.serves.symm.trans hfailure) (Option.some_ne_none _).symm
        have hopened : ∃ opened, first = .streamed opened := by
          cases first with
          | streamed opened => exact ⟨opened, rfl⟩
          | generated | embedded | ranked =>
            exact absurd hfailure (Option.some_ne_none _).symm
        obtain ⟨opened, rfl⟩ := hopened
        refine iff_of_false ?_ fun hall => (hall 0 (Nat.succ_pos j) _ rfl).1 opened hresult
        rw [walk_answers last places hresult]
        exact fun hsame => hother (Except.ok.inj hsame)
      | error failed =>
        rw [hresult] at hfailure
        obtain rfl := Option.some.inj hfailure
        obtain hplace | hreach := hreason
        · rw [(walk_moves last places hresult hplace).1, ih (some failed) hnext]
          constructor
          · intro hrest i hi ran hran
            cases i with
            | zero =>
              obtain rfl := Option.some.inj hran
              refine ⟨fun opened hok => ?_, fun exc hexc hreach => ?_⟩
              · exact absurd (hresult.symm.trans hok) (by simp)
              · have hsame := Except.error.inj (hresult.symm.trans hexc)
                rw [hsame, not_aboutThePlace_of_couldNotReach hreach] at hplace
                exact Bool.noConfusion hplace
            | succ i => exact hrest i (Nat.lt_of_succ_lt_succ hi) ran hran
          · exact fun hall i hi => hall (i + 1) (Nat.succ_lt_succ hi)
        · refine iff_of_false ?_ fun hall => (hall 0 (Nat.succ_pos j) _ rfl).2 _ hresult hreach
          rw [(walk_stops last places hresult (not_aboutThePlace_of_couldNotReach hreach)).1]
          simp

theorem walk_failsOver_iff :
    FailsOver loads attempt outcomes n places ↔ SaidWithStatus loads attempt outcomes n places := by
  constructor
  · intro h j answer hanswers
    exact (passedOver_iff none hanswers).mp (h.passedOver j answer hanswers)
  · intro h
    refine ⟨fun j answer hanswers => (passedOver_iff none hanswers).mpr (h j answer hanswers), ?_⟩
    intro j ran e status hran hfailed hstatus hrequest hmoved
    exact walk_ends none places hran hfailed (not_aboutThePlace_of_request hstatus hrequest) hmoved

end FailsOver

namespace Call

variable [DecidableEq β] (d : VertexAdapters β V) (call : Call)

/-- **A region that is down does not stop a call another one would serve exactly where no place
before the one that answers was out of reach or reported its failure in a stream it had opened**. -/
theorem failsOver_iff (outcomes : ℕ → Outcome) (n : ℕ) :
    (∀ attempt places, call.attempt d = .ok attempt →
      d.targetsFor call.publisher call.model call.addressing = .ok places →
        FailsOver d.loads attempt outcomes n places) ↔
    ∀ attempt places, call.attempt d = .ok attempt →
      d.targetsFor call.publisher call.model call.addressing = .ok places →
        SaidWithStatus d.loads attempt outcomes n places :=
  forall₄_congr fun _ _ _ _ => walk_failsOver_iff

end Call

/-! ### A region that refuses the connection -/

def noUsage : CanonicalUsage := { promptTokens := 0, completionTokens := 0 }

/-- Adapters that make nothing of a request and an empty answer of any object. -/
def plainMappings : Mappings Unit Unit where
  setField _ _ _ := ()
  canonicalToGeminiRequest _ := .ok ()
  geminiResponseToCanonical _ model := .ok { model := model, text := [], usage := noUsage }
  geminiStreamAssembler _ _ := .ok none
  embedContentBody _ _ := ()
  embedContentValues _ := .ok ()
  embedContentTokens _ := .ok none
  predictBody _ _ := ()
  predictValues _ := .ok ()
  predictTokens _ := .ok none
  rankBody _ _ := ()
  ranked _ _ := .ok []
  anthropicBody _ _ := .ok ((), [])
  canonicalToAnthropic _ _ _ _ := .ok ()
  messageFeed _ _ := .ok ()
  message _ := .ok []
  anthropicToCanonical _ r _ := .ok { model := r.model, text := [], usage := noUsage }
  anthropicStreamAssembler _ _ _ _ := .ok none
  canonicalToOpenai _ _ := .ok ()
  openaiToCanonical _ r := .ok { model := r.model, text := [], usage := noUsage }
  openaiStreamAssembler _ _ _ := .ok none

/-- A deployment with two regions. -/
def twoRegions : VertexAdapters Unit Unit :=
  { plainMappings with
    transport := { project := "p", allowed := ["a", "b"], printed := fun _ => [] }
    models := fun _ => []
    defaultMaxTokens := 1
    thinkingSwitch := fun _ => []
    loads := fun _ => none
    lower := id }

/-- A request for a model that is reached in both. -/
def inBoth : CanonicalRequest where
  model := "m"
  addressing := .obj [("regions", .arr [.str "a", .str "b"])]
  messages := []

/-- The first exchange is refused the connection, and every later one is answered. -/
def firstRefused (n : ℕ) : Outcome :=
  if n = 0 then .unreachable { fault := .connect "ConnectError" }
  else .answered { status := 200, json := some (.obj []) }

/-- A region that refuses the connection stops a request the next one would serve. -/
theorem refused_connection_stops :
    ¬∀ attempt places, (Call.geminiGenerate inBoth).attempt twoRegions = .ok attempt →
      twoRegions.targetsFor "google" inBoth.model inBoth.addressing = .ok places →
        FailsOver twoRegions.loads attempt firstRefused 0 places := by
  intro h
  have hfails := h (twoRegions.geminiGenerateAttempt inBoth ()) [("a", "google"), ("b", "google")]
    rfl rfl
  have hanswers := hfails.passedOver 1
    (.generated { model := "m", text := [], usage := noUsage, servedRegion := "b" })
    ⟨⟨_, rfl, rfl⟩, rfl, fun i hi ran hran => by
      obtain rfl : i = 0 := by omega
      obtain rfl := Option.some.inj hran
      exact ⟨_, rfl, .inr ⟨_, _, rfl, rfl⟩⟩⟩
  have hrefused : (twoRegions.geminiGenerateAttempt inBoth () "a" "google" firstRefused 0).result =
      .error (unreachable { fault := .connect "ConnectError" }) := rfl
  rw [(walk_stops none [("b", "google")] hrefused rfl).1] at hanswers
  exact absurd hanswers (by simp)

end AiraGateway.Vertex
