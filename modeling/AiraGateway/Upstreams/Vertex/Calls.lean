import AiraGateway.Upstreams.Vertex.Attempts

/-!
# The calls

Three dialects make eight kinds of call, and refuse a ninth. Each has its own attempt at one
region, and all of them walk the regions alike.

* **One attempt** (`Call.attempt_meets`): whatever its exchanges meet, it sends its own bodies, to
  the host of its region only and only where the region is permitted to the model; a response it
  opened is closed, unless it is handed on; and what it answers is read from the responses that
  came back to it.
-/

namespace AiraGateway.Vertex

open Traced

variable {β V : Type}

/-! ### The calls -/

/-- The calls of the three dialects, and an embedding asked of one that has none. -/
inductive Call
  | geminiGenerate (r : CanonicalRequest)
  | geminiStream (r : CanonicalRequest)
  | embed (r : CanonicalEmbeddingRequest)
  | rerank (r : CanonicalRerankRequest)
  | anthropicGenerate (r : CanonicalRequest)
  | anthropicStream (r : CanonicalRequest)
  | openModelGenerate (publisher : Text) (r : CanonicalRequest)
  | openModelStream (publisher : Text) (r : CanonicalRequest)
  | noEmbedding (publisher : Text) (r : CanonicalEmbeddingRequest)

namespace Call

/-- The publisher the adapter serves. -/
def publisher : Call → Text
  | geminiGenerate _ | geminiStream _ | embed _ | rerank _ => "google"
  | anthropicGenerate _ | anthropicStream _ => "anthropic"
  | openModelGenerate publisher _ | openModelStream publisher _ | noEmbedding publisher _ =>
    publisher

/-- The catalogue's name of the model that is asked. -/
def model : Call → Text
  | geminiGenerate r | geminiStream r | anthropicGenerate r | anthropicStream r
  | openModelGenerate _ r | openModelStream _ r => r.model
  | embed r | noEmbedding _ r => r.model
  | rerank r => r.model

def addressing : Call → Json
  | geminiGenerate r | geminiStream r | anthropicGenerate r | anthropicStream r
  | openModelGenerate _ r | openModelStream _ r => r.addressing
  | embed r | noEmbedding _ r => r.addressing
  | rerank r => r.addressing

/-- The host the call addresses in a region. -/
def hostIn : Call → Text → Text
  | rerank _ => rankingHostFor
  | _ => hostFor

variable (d : VertexAdapters β V)

/-- How the call is made at one region, its body made before. -/
def attempt [DecidableEq β] : Call → Except Raised (Text → Text → Program β (Answer V))
  | geminiGenerate r => do return d.geminiGenerateAttempt r (← d.canonicalToGeminiRequest r)
  | geminiStream r => do return d.geminiStreamAttempt r (← d.canonicalToGeminiRequest r)
  | embed r => .ok (d.embedAttempt r)
  | rerank r => .ok (d.rerankAttempt r (d.rankBody r (wireName r.model r.addressing)))
  | anthropicGenerate r => do return d.anthropicGenerateAttempt r (← d.firstBody r)
  | anthropicStream r => do return d.anthropicStreamAttempt r (← d.firstBody r)
  | openModelGenerate publisher r => do
    return d.openModelGenerateAttempt r (← d.openModelBody publisher r false)
  | openModelStream publisher r => do
    return d.openModelStreamAttempt r (← d.openModelBody publisher r true)
  | noEmbedding _ r => .error (.upstream {
      message := ("Model '" : Text) ++ r.model ++ ("' has no embedding endpoint." : Text)
      statusCode := some 400 })

/-- What the caller gets of an answer: a stream is read after the walk that opened it. -/
def handOn (further : ℕ) : Answer V → Program β (Answer V)
  | .streamed opened => do
    readStream d.loads opened further
    return .streamed opened
  | answer => return answer

/-- A whole call, whose caller reads one chunk of a stream and at most `further` more. -/
def run [DecidableEq β] (further : ℕ) (call : Call) : Program β (Answer V) := do
  let attempt ← ofExcept (call.attempt d)
  let places ← ofExcept (d.targetsFor call.publisher call.model call.addressing)
  let answer ← acrossRegions attempt none places
  handOn d further answer

/-! ### What one attempt does -/

/-- A call that may be sent again carrying less. -/
def resends : Call → Bool
  | anthropicGenerate _ | anthropicStream _ => true
  | _ => false

/-- The bodies of one attempt, where nothing is sent again. -/
def bodies (publisher : Text) : Call → List β
  | geminiGenerate r | geminiStream r => (d.canonicalToGeminiRequest r).toOption.toList
  | embed r => d.embedBodies r
  | rerank r => [d.rankBody r (wireName r.model r.addressing)]
  | anthropicGenerate r | anthropicStream r => (d.firstBody r).toOption.toList.map Prod.fst
  | openModelGenerate served r =>
    (d.openModelBody served r false).toOption.toList.map (d.named · publisher r.model)
  | openModelStream served r =>
    (d.openModelBody served r true).toOption.toList.map (d.named · publisher r.model)
  | noEmbedding _ _ => []

/-- What one attempt may send: each of its bodies once and in order; where thinking may be sent
again carrying less, three bodies at most, each another one than the body just sent. -/
def Sends (call : Call) (publisher : Text) (sent : List β) : Prop :=
  if call.resends = true then sent.length ≤ 3 ∧ sent.IsChain (· ≠ ·)
  else sent <+: call.bodies d publisher

/-- An answer made of the object of one response. -/
def ReadPosted (make : List (Text × Json) → Except Raised (Answer V))
    (came : List Response) (answer : Answer V) : Prop :=
  ∃ response data, came = [response] ∧ response.status = 200 ∧
    jsonObject response = .ok data ∧ make data = .ok answer

/-- An answer made of the last response that came back. -/
def ReadLast (make : Response → Except Raised (Answer V)) (came : List Response)
    (answer : Answer V) : Prop :=
  ∃ response, came.getLast? = some response ∧ response.status = 200 ∧
    make response = .ok answer

/-- How an answer given in `region` is read from the responses of the attempt there. -/
def ReadFrom (region : Text) : Call → List Response → Answer V → Prop
  | geminiGenerate r => ReadPosted fun data => do
    let answer ← d.geminiResponseToCanonical data r.model
    return .generated { answer with servedRegion := region }
  | geminiStream _ => ReadLast fun response =>
    .ok (.streamed ⟨response, d.geminiStreamAssembler, region⟩)
  | embed r => fun came answer =>
    (∀ response ∈ came, response.status = 200) ∧ ∃ datas values counts,
      came.mapM jsonObject = .ok datas ∧ datas.mapM (d.embedValues r) = .ok values ∧
        datas.mapM (d.embedTokens r) = .ok counts ∧
          answer = .embedded ⟨values, region, VertexAdapters.inputTokens counts⟩
  | rerank r => ReadPosted fun data => do
    let records ← d.ranked data r
    return .ranked ⟨records, region⟩
  | anthropicGenerate r => ReadLast fun response => do
    let first ← d.firstBody r
    let payloads ← d.readMessage (ssePayloads d.loads response) []
    let answer ← d.answerIn r first.2 payloads
    return .generated { answer with servedRegion := region }
  | anthropicStream r => ReadLast fun response => do
    let first ← d.firstBody r
    return .streamed ⟨response, d.anthropicStreamAssembler r first.2, region⟩
  | openModelGenerate _ r => ReadPosted fun data => do
    let answer ← d.openaiToCanonical data r
    return .generated { answer with servedRegion := region }
  | openModelStream _ r => ReadLast fun response =>
    .ok (.streamed ⟨response, d.openaiStreamAssembler r.includeReasoning, region⟩)
  | noEmbedding _ _ => fun _ _ => False

/-- A result that leaves its response open. -/
def leavesOpen : Except Raised (Answer V) → Bool
  | .ok (.streamed _) => true
  | _ => false

/-- What one attempt at a place does, however its exchanges end. -/
structure Attempted (call : Call) (place : Text × Text) (events : List (Event β))
    (result : Except Raised (Answer V)) : Prop where
  confined : Confined d.transport call.hostIn call.model place.1 events (leavesOpen result)
  sends : call.Sends d place.2 ((sends events).map Prod.snd)
  read : ∀ answer, result = .ok answer → call.ReadFrom d place.1 (responses events) answer

section Attempts

variable {d} {call : Call} {place : Text × Text} {γ : Type}

theorem sends_nil (call : Call) (publisher : Text) : call.Sends d publisher [] := by
  rw [Sends]
  split_ifs
  · exact ⟨Nat.zero_le _, .nil⟩
  · exact List.nil_prefix

/-- An attempt that raises before it sends. -/
private theorem attempted_of_raise {e : Raised} : Attempted d call place [] (.error e) where
  confined := .nil
  sends := sends_nil call place.2
  read := fun _ h => nomatch h

/-- One body posted, and the answer made of its object. -/
private theorem posted_attempted {url : Except Raised Text} {body : β}
    {f : List (Text × Json) → Except Raised γ} {g : γ → Answer V}
    (hurl : ∀ address, url = .ok address →
      Allowed d.transport call.hostIn call.model place.1 address)
    (hsends : ∀ sent, sent <+: [body] → call.Sends d place.2 sent)
    (hread : ∀ came answer, ReadPosted (fun data => do let x ← f data; return g x) came answer →
      call.ReadFrom d place.1 came answer)
    (hclosed : ∀ x, leavesOpen (.ok (g x)) = false) :
    Meets (do
      let address ← ofExcept url
      let data ← post address body
      let x ← ofExcept (f data)
      return g x) (Attempted d call place) := by
  refine meets_ofExcept_bind (fun e _ => attempted_of_raise) fun address haddress => ?_
  refine .bind ((post_confined (hurl address haddress) body).mono
    fun events result ⟨hconfined, hsent, hposted⟩ => ?_)
  have hraise : ∀ e : Raised, Attempted d call place events (.error e) := fun e =>
    ⟨hconfined, hsends _ hsent, fun _ h => nomatch h⟩
  refine ⟨fun e _ => hraise e, fun data hdata => ?_⟩
  obtain ⟨response, rfl, hstatus, hobject⟩ := hposted data hdata
  refine meets_ofExcept_bind (fun e _ => hraise e) fun x hx => meets_pure ?_
  refine ⟨(hclosed x).symm ▸ hconfined, hsends _ hsent, ?_⟩
  rintro _ ⟨⟩
  exact hread _ _ ⟨response, data, rfl, hstatus, hobject, bind_eq_ok_iff.mpr ⟨x, hx, rfl⟩⟩

/-- A stream entered, and handed on to be read after the walk. -/
private theorem streamed_attempted {url : Except Raised Text} {body : β} {read : ChunkReader}
    (final : Text → Text) (hurl : ∀ address, url = .ok address →
      Allowed d.transport call.hostIn call.model place.1 (final address))
    (hsends : ∀ sent, sent <+: [body] → call.Sends d place.2 sent)
    (hread : ∀ came answer,
      ReadLast (fun response => .ok (.streamed ⟨response, read, place.1⟩)) came answer →
        call.ReadFrom d place.1 came answer) :
    Meets (do
      let address ← ofExcept url
      let opened ← openStream (final address) body read place.1
      return .streamed opened) (Attempted d call place) := by
  refine meets_ofExcept_bind (fun e _ => attempted_of_raise) fun address haddress => ?_
  refine .bind ((openStream_confined (hurl address haddress) body read place.1).mono
    fun events result ⟨hconfined, hone, hopened⟩ => ?_)
  have hsent : call.Sends d place.2 ((Vertex.sends events).map Prod.snd) := by
    refine hsends _ ?_
    rcases hone with ⟨rfl, -⟩ | hone
    · exact List.nil_prefix
    · exact hone ▸ List.prefix_rfl
  refine ⟨?_, fun opened hresult => ?_⟩
  · rintro e rfl
    exact ⟨hconfined, hsent, fun _ h => nomatch h⟩
  · subst hresult
    obtain ⟨response, hresponse, hstatus, rfl⟩ := hopened opened rfl
    refine meets_pure ?_
    rw [List.append_nil]
    refine ⟨hconfined, hsent, ?_⟩
    rintro _ ⟨⟩
    exact hread _ _ ⟨response, by rw [hresponse, List.getLast?_singleton], hstatus, rfl⟩

private theorem sends_of_bodies (hresends : call.resends = false) {sent bodies : List β}
    (hbodies : call.bodies d place.2 = bodies) (h : sent <+: bodies) :
    call.Sends d place.2 sent := by
  rw [Sends, if_neg (Bool.eq_false_iff.mp hresends), hbodies]
  exact h

theorem embedAttempt_meets (r : CanonicalEmbeddingRequest) :
    (d.embedAttempt r place.1 place.2).Meets (Attempted d (embed r) place) := by
  refine meets_ofExcept_bind (fun e _ => attempted_of_raise) fun address haddress => ?_
  split_ifs
  · exact meets_raise attempted_of_raise
  refine .bind ((postEach_confined (url_permitted haddress) (d.embedBodies r)).mono
    fun events result ⟨hconfined, hprefix, hposted⟩ => ?_)
  have hsent : (embed r).Sends d place.2 ((Vertex.sends events).map Prod.snd) :=
    sends_of_bodies rfl rfl hprefix
  have hraise : ∀ e : Raised, Attempted d (embed r) place events (.error e) := fun e =>
    ⟨hconfined, hsent, fun _ h => nomatch h⟩
  refine ⟨fun e _ => hraise e, fun datas hdatas => ?_⟩
  obtain ⟨hstatus, hobjects⟩ := hposted datas hdatas
  refine meets_ofExcept_bind (fun e _ => ?_) fun values hvalues => ?_
  · rw [List.append_nil]
    exact hraise e
  refine meets_ofExcept_bind (fun e _ => ?_) fun counts hcounts => meets_pure ?_
  · rw [List.append_nil]
    exact hraise e
  rw [List.append_nil]
  refine ⟨hconfined, hsent, ?_⟩
  rintro _ ⟨⟩
  exact ⟨hstatus, datas, values, counts, hobjects, hvalues, hcounts, rfl⟩

/-- One sending of a body whose answer is read whole: its response is closed. -/
theorem readWhole_meets {t : VertexTransport} {host : Text → Text} {model region address : Text}
    (h : Allowed t host model region address) (r : CanonicalRequest) (madeOn : Text) (sent : β) :
    (d.readWhole r madeOn address region sent).Meets
      (SendsOne t host model region leavesOpen (fun response answer => (do
        let payloads ← d.readMessage (ssePayloads d.loads response) []
        let answer ← d.answerIn r madeOn payloads
        return Answer.generated { answer with servedRegion := region }) = .ok answer) sent) := by
  refine .bind ((enterStream_meets address sent).mono fun events result henter => ?_)
  refine ⟨?_, fun response hresult => ?_⟩
  · rintro e rfl
    rcases henter with ⟨rfl, _, he, hunsent⟩ | ⟨rfl | ⟨response, rfl⟩, -⟩ | ⟨_, _, _, h⟩
    · exact ⟨.nil, .inl ⟨rfl, e, rfl, Except.error.inj he ▸ hunsent⟩, fun _ h => nomatch h⟩
    · exact ⟨confined_of_sent h (fun _ h => nomatch h) rfl rfl, .inr rfl, fun _ h => nomatch h⟩
    · refine ⟨confined_of_sent h ?_ rfl rfl, .inr rfl, fun _ h => nomatch h⟩
      exact List.forall_mem_cons.mpr ⟨trivial, List.forall_mem_singleton.mpr trivial⟩
    · exact nomatch h
  subst hresult
  rcases henter with ⟨-, _, he, -⟩ | ⟨-, _, he⟩ | ⟨_, rfl, hstatus, hresponse⟩
  · exact nomatch he
  · exact nomatch he
  obtain rfl := Except.ok.inj hresponse
  have hconfined : Confined t host model region
      [.sent address sent, .opened response, .closed] false :=
    confined_of_sent h
      (List.forall_mem_cons.mpr ⟨trivial, List.forall_mem_singleton.mpr trivial⟩) rfl rfl
  refine .bind (.afterwards (meets_ofExcept ⟨fun e _ => ?_, fun payloads hpayloads => ?_⟩))
  · exact ⟨hconfined, .inr rfl, fun _ h => nomatch h⟩
  refine meets_ofExcept_bind (fun e _ => ?_) fun answer hanswer => meets_pure ?_
  · exact ⟨hconfined, .inr rfl, fun _ h => nomatch h⟩
  · refine ⟨hconfined, .inr rfl, ?_⟩
    rintro _ ⟨⟩
    refine ⟨response, rfl, hstatus, bind_eq_ok_iff.mpr ⟨payloads, hpayloads, ?_⟩⟩
    exact bind_eq_ok_iff.mpr ⟨answer, hanswer, rfl⟩

variable [DecidableEq β]

theorem anthropicGenerateAttempt_meets {r : CanonicalRequest} {first : β × Text}
    (hfirst : d.firstBody r = .ok first) :
    (d.anthropicGenerateAttempt r first place.1 place.2).Meets
      (Attempted d (anthropicGenerate r) place) := by
  refine meets_ofExcept_bind (fun e _ => attempted_of_raise) fun address haddress => ?_
  refine (sendCarrying_meets (fun _ => rfl)
    (readWhole_meets (url_permitted haddress) r first.2) r first.1).mono
    fun events result h => ⟨h.confined, h.sent, fun answer hanswer => ?_⟩
  obtain ⟨response, hresponse, hstatus, hread⟩ := h.answered answer hanswer
  exact ⟨response, hresponse, hstatus, bind_eq_ok_iff.mpr ⟨first, hfirst, hread⟩⟩

theorem anthropicStreamAttempt_meets {r : CanonicalRequest} {first : β × Text}
    (hfirst : d.firstBody r = .ok first) :
    (d.anthropicStreamAttempt r first place.1 place.2).Meets
      (Attempted d (anthropicStream r) place) := by
  refine meets_ofExcept_bind (fun e _ => attempted_of_raise) fun address haddress => ?_
  let read := d.anthropicStreamAssembler r first.2
  have hsend : ∀ sent : β, (openStream address sent read place.1).Meets
      (SendsOne d.transport hostFor r.model place.1 Except.toBool
        (fun response opened => opened = ⟨response, read, place.1⟩) sent) := fun sent =>
    (openStream_confined (url_permitted haddress) sent read place.1).mono
      fun events result ⟨hconfined, hone, hopened⟩ => ⟨hconfined, hone, hopened⟩
  refine .bind ((sendCarrying_meets (fun _ => rfl) hsend r first.1).mono fun events result h => ?_)
  refine ⟨?_, fun opened hopened => ?_⟩
  · rintro e rfl
    exact ⟨h.confined, h.sent, fun _ h => nomatch h⟩
  · subst hopened
    obtain ⟨response, hresponse, hstatus, rfl⟩ := h.answered opened rfl
    refine meets_pure ?_
    rw [List.append_nil]
    refine ⟨h.confined, h.sent, ?_⟩
    rintro _ ⟨⟩
    exact ⟨response, hresponse, hstatus, bind_eq_ok_iff.mpr ⟨first, hfirst, rfl⟩⟩

/-- **One attempt**, of whichever call. -/
theorem attempt_meets {attempt : Text → Text → Program β (Answer V)}
    (hattempt : call.attempt d = .ok attempt) (place : Text × Text) :
    (attempt place.1 place.2).Meets (Attempted d call place) := by
  rcases call with r | r | r | r | r | r | ⟨served, r⟩ | ⟨served, r⟩ | ⟨served, r⟩
  · obtain ⟨body, hbody, h⟩ := bind_eq_ok_iff.mp hattempt
    obtain rfl := Except.ok.inj h
    refine posted_attempted (fun _ => url_permitted) (fun sent => sends_of_bodies rfl ?_)
      (fun _ _ h => h) fun _ => rfl
    rw [bodies, hbody]
    rfl
  · obtain ⟨body, hbody, h⟩ := bind_eq_ok_iff.mp hattempt
    obtain rfl := Except.ok.inj h
    refine streamed_attempted (· ++ ("?alt=sse" : Text)) (fun address haddress => ?_)
      (fun sent => sends_of_bodies rfl ?_) fun _ _ h => h
    · obtain ⟨hpermits, hhost⟩ := url_permitted haddress
      exact ⟨hpermits, hhost.trans (List.prefix_append _ _)⟩
    · rw [bodies, hbody]
      rfl
  · obtain rfl := Except.ok.inj hattempt
    exact embedAttempt_meets r
  · obtain rfl := Except.ok.inj hattempt
    exact posted_attempted (fun _ => rankingUrl_permitted) (fun sent => sends_of_bodies rfl rfl)
      (fun _ _ h => h) fun _ => rfl
  · obtain ⟨first, hfirst, h⟩ := bind_eq_ok_iff.mp hattempt
    obtain rfl := Except.ok.inj h
    exact anthropicGenerateAttempt_meets hfirst
  · obtain ⟨first, hfirst, h⟩ := bind_eq_ok_iff.mp hattempt
    obtain rfl := Except.ok.inj h
    exact anthropicStreamAttempt_meets hfirst
  · obtain ⟨body, hbody, h⟩ := bind_eq_ok_iff.mp hattempt
    obtain rfl := Except.ok.inj h
    refine posted_attempted (fun _ => openModelsUrl_permitted)
      (fun sent => sends_of_bodies rfl ?_) (fun _ _ h => h) fun _ => rfl
    rw [bodies, hbody]
    rfl
  · obtain ⟨body, hbody, h⟩ := bind_eq_ok_iff.mp hattempt
    obtain rfl := Except.ok.inj h
    refine streamed_attempted (fun address => address) (fun _ => openModelsUrl_permitted)
      (fun sent => sends_of_bodies rfl ?_) fun _ _ h => h
    rw [bodies, hbody]
    rfl
  · exact nomatch hattempt

end Attempts

end Call

end AiraGateway.Vertex
