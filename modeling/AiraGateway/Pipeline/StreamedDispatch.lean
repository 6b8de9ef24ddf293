import AiraGateway.Pipeline.ChainWalk

/-!
# A streamed chain beside a buffered one

The streamed chain asks a candidate's stream for its first chunk where the buffered one awaits an
answer. Over adapters that show one outcome to both, the two end the same way. What the caller
reads is the chunk pulled early and everything after it (`Rejoined`), and closing that closes the
stream it wraps, once it was entered: a generator that is closed before anything was asked of it
never reaches its `finally`.

* `streamed_chain_agrees_iff`: the two chains end the same way, the chunks are the answering
  stream's, and every stream that was opened is released, exactly where the caller asked for a
  chunk before they stopped or no stream that has one is reached.
-/

namespace AiraGateway

/-! ### The iterator a caller reads -/

/-- What asking for the next chunk gives, time after time. -/
def Source.pulls : ℕ → Source → List Pulled
  | 0, _ => []
  | n + 1, source => source.next.1 :: Source.pulls n source.next.2

def Rejoined.pulls : ℕ → Rejoined → List Pulled
  | 0, _ => []
  | n + 1, r => r.next.1 :: Rejoined.pulls n r.next.2

/-- Nothing more comes of the stream. -/
def Source.Spent (source : Source) : Prop :=
  source.released = true ∨ source.feed.chunks = [] ∧ source.feed.failure = none

theorem Source.Spent.next {source : Source} (h : source.Spent) :
    source.next.1 = .stop ∧ source.next.2.Spent := by
  rw [Source.next]
  split_ifs with hreleased
  · exact ⟨rfl, h⟩
  · obtain ⟨hchunks, hfailure⟩ := h.resolve_left hreleased
    rw [hchunks, hfailure]
    exact ⟨rfl, .inl rfl⟩

theorem Source.Spent.pulls {source : Source} (h : source.Spent) (n : ℕ) :
    source.pulls n = List.replicate n .stop := by
  induction n generalizing source with
  | zero => rfl
  | succ n ih => rw [Source.pulls, h.next.1, ih h.next.2, List.replicate_succ]

theorem Rejoined.pulls_finished (source : Source) (n : ℕ) :
    (Rejoined.finished source).pulls n = List.replicate n .stop := by
  induction n with
  | zero => rfl
  | succ n ih =>
    rw [List.replicate_succ, ← ih]
    rfl

/-- A stream that did not give a chunk gives nothing more. -/
theorem Source.spent_of_next (source : Source) (h : ∀ c, source.next.1 ≠ .chunk c) :
    source.next.2.Spent := by
  rw [Source.next] at h ⊢
  split_ifs at h ⊢ with hreleased
  · exact .inl hreleased
  · split
    · next c rest hchunks =>
      rw [hchunks] at h
      exact absurd rfl (h c)
    · next hchunks =>
      split
      · exact .inr ⟨hchunks, rfl⟩
      · exact .inl rfl

/-- **Once entered, the iterator gives what the stream gives.** -/
theorem Rejoined.pulls_started (source : Source) (n : ℕ) :
    (Rejoined.started source).pulls n = source.pulls n := by
  induction n generalizing source with
  | zero => rfl
  | succ n ih =>
    rw [Rejoined.pulls, Source.pulls, Rejoined.next]
    have hspent := source.spent_of_next
    split
    · next c left hnext => rw [hnext, ih]
    · next pulled left hnot hnext =>
      rw [hnext] at hspent ⊢
      rw [Rejoined.pulls_finished, Source.Spent.pulls (hspent fun c hc => hnot c (by rw [← hc]))]

/-- **The chunks are the answering stream's**, in order, and so is how it ends. -/
theorem Feed.pulls_rejoined (feed : Feed) (hopens : feed.opens = .ok ()) (n : ℕ) :
    feed.rejoined.pulls n = Source.pulls n { feed } := by
  obtain ⟨chunks, failure⟩ := feed
  cases chunks with
  | nil =>
    cases failure with
    | some e => cases hopens
    | none =>
      have hspent : Source.Spent { feed := { chunks := [] } } := .inr ⟨rfl, rfl⟩
      rw [hspent.pulls]
      induction n with
      | zero => rfl
      | succ n ih =>
        rw [List.replicate_succ, ← ih]
        rfl
  | cons first rest =>
    cases n with
    | zero => rfl
    | succ n =>
      rw [Rejoined.pulls, Source.pulls]
      exact congrArg₂ List.cons rfl (Rejoined.pulls_started _ n)

/-! ### What a caller who stops leaves open -/

/-- The iterator was entered, and left its stream closed if it is through. -/
inductive Rejoined.Entered : Rejoined → Prop
  | started (source : Source) : Entered (.started source)
  | finished {source : Source} (h : source.closed = true) : Entered (.finished source)

theorem Rejoined.Entered.take {r : Rejoined} (h : r.Entered) (taking : Taking) :
    (r.take taking).Entered := by
  cases h with
  | started source =>
    cases taking with
    | next =>
      rw [Rejoined.take, Rejoined.next]
      split
      · exact .started _
      · exact .finished rfl
    | cancelled => exact .finished rfl
  | finished hclosed =>
    cases taking with
    | next => exact .finished hclosed
    | cancelled => exact .finished hclosed

theorem Rejoined.Entered.foldl {r : Rejoined} (h : r.Entered) (acts : List Taking) :
    (acts.foldl Rejoined.take r).Entered := by
  induction acts generalizing r with
  | nil => exact h
  | cons taking acts ih => exact ih (h.take taking)

theorem Rejoined.Entered.released_close {r : Rejoined} (h : r.Entered) :
    r.close.source.released = true := by
  cases h with
  | started source => exact Bool.or_true _
  | finished hclosed =>
    rw [Rejoined.close, Rejoined.source, Source.released, hclosed]
    exact Bool.or_true _

theorem Rejoined.foldl_nothing (source : Source) (acts : List Taking) :
    acts.foldl Rejoined.take (.nothing source) = .nothing source := by
  induction acts with
  | nil => rfl
  | cons taking acts ih =>
    cases taking with
    | next => exact ih
    | cancelled => exact ih

/-- **Stopping releases the stream** exactly where a chunk was asked for, or there was none. -/
theorem Feed.released_iff (feed : Feed) (acts : List Taking) :
    (acts.foldl Rejoined.take feed.rejoined).close.source.released = true ↔
      acts ≠ [] ∨ feed.chunks = [] := by
  obtain ⟨chunks, failure⟩ := feed
  cases chunks with
  | nil =>
    refine iff_of_true ?_ (.inr rfl)
    rw [Feed.rejoined, Rejoined.foldl_nothing]
    rfl
  | cons first rest =>
    cases acts with
    | nil => exact iff_of_false Bool.false_ne_true (by simp)
    | cons taking acts =>
      refine iff_of_true ?_ (.inl (List.cons_ne_nil _ _))
      refine Rejoined.Entered.released_close (Rejoined.Entered.foldl ?_ acts)
      cases taking with
      | next => exact .started _
      | cancelled => exact .started _

/-! ### The two chains -/

section Chains

variable {P R T : Type} [Addressed R]
variable (registry : ProviderRegistry P) (request : R) (conditions : Conditions R)

/-- Two chains that end the same way: the same candidate with the same reports, or the same
error with the same report, and so its class, message and status. -/
def SameEnd (names : List Text) :
    Except Exhausted (Dispatched T) → Except Exhausted (Streaming P R) → Prop
  | .ok d, .ok s =>
    d.candidateIndex = s.candidateIndex ∧ names[s.candidateIndex]? = some s.model ∧
      d.skipped = s.skipped ∧ d.failed = s.failed
  | .error e, .error e' => e = e'
  | _, _ => False

/-- Adapters that show one outcome to both chains: what a stream opens with is what the call for
a finished answer meets. -/
def ShowsAlike (generate : ℕ → P → R → Except Failure T) (streamGenerate : ℕ → P → R → Feed) :
    Prop :=
  ∀ k provider addressed, (streamGenerate k provider addressed).opens =
    (generate k provider addressed).map fun _ => ()

/-- What the streamed chain owes: it ends as the buffered one does; each candidate it called and
passed over left its stream released; and what it hands over gives the answering stream's chunks,
and leaves that stream released when the caller, having asked for some, stops. -/
structure StreamsAlike (names : List Text) (streamGenerate : ℕ → P → R → Feed)
    (acts : List Taking) (dispatched : Except Exhausted (Dispatched T))
    (streamed : Ran Source (Streaming P R)) : Prop where
  sameEnd : SameEnd names dispatched streamed.result
  passed : streamed.passedStreams.map (·.1) ++
      (streamed.result.toOption.map (·.model)).toList = streamed.called
  passed_released : ∀ p ∈ streamed.passedStreams, p.2.released = true
  answered : ∀ s, streamed.result = .ok s → ∃ provider addressed,
    s.provider = some provider ∧ s.sent = some addressed ∧
    (∀ n, s.chunks.pulls n =
      Source.pulls n { feed := streamGenerate s.candidateIndex provider addressed }) ∧
    (acts.foldl Rejoined.take s.chunks).close.source.released = true

/-- A candidate whose stream has a chunk is reached: each one before it is passed over. -/
def ReachesChunk (names : List Text) (streamGenerate : ℕ → P → R → Feed) : Prop :=
  ∃ k name provider addressed, names[k]? = some name ∧
    candidate registry request conditions name = .ok (provider, addressed) ∧
    (streamGenerate k provider addressed).chunks ≠ [] ∧
    ∀ j < k, ∃ before, names[j]? = some before ∧
      ∀ provider addressed, candidate registry request conditions before =
        .ok (provider, addressed) →
        ∃ e, (streamGenerate j provider addressed).opens = .error e

variable {generate : ℕ → P → R → Except Failure T} {streamGenerate : ℕ → P → R → Feed}

/-- The two chains make one thing of each candidate. -/
theorem ShowsAlike.callFate_eq (h : ShowsAlike generate streamGenerate) (k : ℕ) (name : Text) :
    (callFate registry request conditions generate k name).map (fun _ => ()) =
      (callFate registry request conditions (opening streamGenerate) k name).map
        fun _ => () := by
  cases hcandidate : candidate registry request conditions name with
  | error reason => rw [callFate_of_condition hcandidate, callFate_of_condition hcandidate]; rfl
  | ok called =>
    obtain ⟨provider, addressed⟩ := called
    rw [callFate_of_call _ k hcandidate, callFate_of_call _ k hcandidate, opening,
      h k provider addressed]
    cases generate k provider addressed with
    | error e => rfl
    | ok value => rfl

/-- **One walk**: the same candidates are passed over for the same reasons, and the same one
answers. -/
theorem ShowsAlike.firstAnswer_eq (h : ShowsAlike generate streamGenerate) (names : List Text) :
    (firstAnswer (callFate registry request conditions generate) 0 names).1 =
      (firstAnswer (callFate registry request conditions
        (opening streamGenerate)) 0 names).1 ∧
    (firstAnswer (callFate registry request conditions generate) 0 names).2.map
        (fun found => (found.1, found.2.1)) =
      (firstAnswer (callFate registry request conditions
        (opening streamGenerate)) 0 names).2.map fun found => (found.1, found.2.1) := by
  have hfate : (fun k name => (callFate registry request conditions generate k
        name).map fun _ => ()) =
      fun k name => (callFate registry request conditions
        (opening streamGenerate) k name).map fun _ => () := by
    funext k name
    exact h.callFate_eq registry request conditions k name
  have hmap := congrArg (fun fate => firstAnswer fate 0 names) hfate
  simp only [firstAnswer_map] at hmap
  obtain ⟨hpassed, hanswer⟩ := Prod.ext_iff.mp hmap
  refine ⟨hpassed, ?_⟩
  have hdrop := congrArg (Option.map fun found : ℕ × Text × Unit => (found.1, found.2.1)) hanswer
  simpa only [Option.map_map, Function.comp_def] using hdrop

variable {registry request conditions}

/-- A candidate whose stream opens is one that answers. -/
theorem callFate_opening_eq_ok {k : ℕ} {name : Text} {provider : P} {addressed : R}
    {feed : Feed} :
    callFate registry request conditions (opening streamGenerate) k name =
        .ok (provider, addressed, feed) ↔
      candidate registry request conditions name = .ok (provider, addressed) ∧
        streamGenerate k provider addressed = feed ∧ feed.opens = .ok () := by
  cases hcandidate : candidate registry request conditions name with
  | error reason => simp [callFate_of_condition hcandidate]
  | ok called =>
    obtain ⟨provider', addressed'⟩ := called
    rw [callFate_of_call _ k hcandidate, opening]
    constructor
    · intro h
      cases hopens : (streamGenerate k provider' addressed').opens with
      | error e =>
        rw [hopens] at h
        cases h
      | ok opened =>
        rw [hopens] at h
        cases h
        exact ⟨rfl, rfl, hopens⟩
    · rintro ⟨heq, rfl, hopens⟩
      cases heq
      rw [hopens]
      rfl

/-- A candidate is passed over exactly when no call of it opens a stream. -/
theorem callFate_opening_eq_error {k : ℕ} {name : Text} :
    (∃ why, callFate registry request conditions (opening streamGenerate) k name = .error why) ↔
      ∀ provider addressed, candidate registry request conditions name =
        .ok (provider, addressed) →
        ∃ e, (streamGenerate k provider addressed).opens = .error e := by
  cases hfate : callFate registry request conditions (opening streamGenerate) k name with
  | ok value =>
    obtain ⟨provider, addressed, feed⟩ := value
    obtain ⟨hcandidate, rfl, hopens⟩ := callFate_opening_eq_ok.mp hfate
    refine iff_of_false (fun ⟨why, hwhy⟩ => by cases hwhy) fun hall => ?_
    obtain ⟨e, he⟩ := hall provider addressed hcandidate
    cases hopens.symm.trans he
  | error why =>
    refine iff_of_true ⟨why, rfl⟩ fun provider addressed hcandidate => ?_
    cases hopens : (streamGenerate k provider addressed).opens with
    | error e => exact ⟨e, rfl⟩
    | ok opened =>
      cases hfate.symm.trans (callFate_opening_eq_ok.mpr ⟨hcandidate, rfl, hopens⟩)

/-- **A chunk is reached** exactly when the candidate that answers has one. -/
theorem reachesChunk_iff {names : List Text} :
    ReachesChunk registry request conditions names streamGenerate ↔
      ∃ k name provider addressed feed,
        (firstAnswer (callFate registry request conditions (opening streamGenerate)) 0 names).2 =
          some (k, name, provider, addressed, feed) ∧ feed.chunks ≠ [] := by
  constructor
  · rintro ⟨k, name, provider, addressed, hname, hcandidate, hchunks, hbefore⟩
    have hopens : (streamGenerate k provider addressed).opens = .ok () := by
      rw [Feed.opens]
      split
      · next hnil _ => exact absurd hnil hchunks
      · rfl
    refine ⟨k, name, provider, addressed, _, ?_, hchunks⟩
    have hfirst := firstAnswer_eq_some (i := 0) hname (by
      rw [Nat.zero_add]
      exact callFate_opening_eq_ok.mpr ⟨hcandidate, rfl, hopens⟩) fun j hj => by
        obtain ⟨before, hbeforeName, hpassed⟩ := hbefore j hj
        obtain ⟨why, hwhy⟩ := callFate_opening_eq_error.mpr hpassed
        exact ⟨before, why, hbeforeName, by rw [Nat.zero_add]; exact hwhy⟩
    rwa [Nat.zero_add] at hfirst
  · rintro ⟨k, name, provider, addressed, feed, hanswer, hchunks⟩
    obtain ⟨n, hk, hname, hok, -, hbefore⟩ := firstAnswer_of_some hanswer
    obtain rfl : k = n := by omega
    obtain ⟨hcandidate, rfl, -⟩ := callFate_opening_eq_ok.mp hok
    refine ⟨k, name, provider, addressed, hname, hcandidate, hchunks, fun j hj => ?_⟩
    obtain ⟨before, why, hbeforeName, hwhy⟩ := hbefore j hj
    rw [Nat.zero_add] at hwhy
    exact ⟨before, hbeforeName, callFate_opening_eq_error.mp ⟨why, hwhy⟩⟩

/-- **The two chains end the same way.** -/
theorem ShowsAlike.sameEnd (h : ShowsAlike generate streamGenerate) (fallbackModels : List Text) :
    SameEnd (candidateNames request fallbackModels)
      (dispatchWithFallback registry request conditions fallbackModels generate).result
      (streamWithFallback registry request conditions fallbackModels streamGenerate).result := by
  obtain ⟨hpassed, hanswer⟩ := h.firstAnswer_eq registry request conditions
    (candidateNames request fallbackModels)
  obtain ⟨streams, hstream, -, -⟩ :=
    streamLoop_eq registry request conditions streamGenerate 0
      (candidateNames request fallbackModels) {} []
  rw [dispatchWithFallback, streamWithFallback, dispatchLoop_eq, hstream, hpassed]
  cases hstreamed : (firstAnswer (callFate registry request conditions
      (opening streamGenerate)) 0 (candidateNames request fallbackModels)).2 with
  | none =>
    rw [hstreamed, Option.map_none, Option.map_eq_none_iff] at hanswer
    rw [hanswer]
    exact rfl
  | some found =>
    obtain ⟨k, name, provider, addressed, feed⟩ := found
    rw [hstreamed, Option.map_some] at hanswer
    obtain ⟨⟨k', name', response⟩, hdispatched, heq⟩ := Option.map_eq_some_iff.mp hanswer
    obtain ⟨rfl, rfl⟩ := Prod.ext_iff.mp heq
    obtain ⟨n, hk, hname, -⟩ := firstAnswer_of_some hstreamed
    rw [Nat.zero_add] at hk
    rw [hdispatched]
    exact ⟨rfl, hk ▸ hname, rfl, rfl⟩

/-- What the streamed chain hands over is the answering candidate's stream. -/
theorem streamWithFallback_eq_ok {fallbackModels : List Text} {s : Streaming P R}
    (h : (streamWithFallback registry request conditions fallbackModels streamGenerate).result =
      .ok s) :
    ∃ provider addressed feed,
      (firstAnswer (callFate registry request conditions (opening streamGenerate)) 0
        (candidateNames request fallbackModels)).2 =
          some (s.candidateIndex, s.model, provider, addressed, feed) ∧
      streamGenerate s.candidateIndex provider addressed = feed ∧ feed.opens = .ok () ∧
      s.provider = some provider ∧ s.sent = some addressed ∧ s.chunks = feed.rejoined := by
  obtain ⟨streams, hstream, -, -⟩ :=
    streamLoop_eq registry request conditions streamGenerate 0
      (candidateNames request fallbackModels) {} []
  rw [streamWithFallback, hstream] at h
  cases hanswer : (firstAnswer (callFate registry request conditions
      (opening streamGenerate)) 0 (candidateNames request fallbackModels)).2 with
  | none =>
    rw [hanswer] at h
    cases h
  | some found =>
    obtain ⟨k, name, provider, addressed, feed⟩ := found
    rw [hanswer] at h
    cases h
    obtain ⟨n, hk, -, hok, -⟩ := firstAnswer_of_some hanswer
    obtain ⟨-, hfeed, hopens⟩ := callFate_opening_eq_ok.mp hok
    exact ⟨provider, addressed, feed, rfl, hfeed, hopens, rfl, rfl, rfl⟩

variable (registry request conditions streamGenerate) in
/-- The candidates called and passed over are those whose streams are closed. -/
theorem streamWithFallback_passed (fallbackModels : List Text) :
    let streamed := streamWithFallback registry request conditions fallbackModels streamGenerate
    streamed.passedStreams.map (·.1) ++ (streamed.result.toOption.map (·.model)).toList =
      streamed.called ∧
    ∀ p ∈ streamed.passedStreams, p.2.released = true := by
  obtain ⟨streams, hstream, hclosed, hcalled⟩ :=
    streamLoop_eq registry request conditions streamGenerate 0
      (candidateNames request fallbackModels) {} []
  have hreleased : ∀ p ∈ streams, p.2.released = true := fun p hp => by
    rw [Source.released, hclosed p hp, Bool.or_true]
  have hnoted := passOverAll_called false {} (firstAnswer (callFate registry request conditions
    (opening streamGenerate)) 0 (candidateNames request fallbackModels)).1
  intro streamed
  have hstreamed : streamed = _ := hstream
  rw [hstreamed]
  cases (firstAnswer (callFate registry request conditions
      (opening streamGenerate)) 0 (candidateNames request fallbackModels)).2 with
  | none =>
    refine ⟨?_, hreleased⟩
    rw [Walk.streamed, List.nil_append, hcalled, hnoted]
    exact List.append_nil _
  | some found =>
    obtain ⟨k, name, provider, addressed, feed⟩ := found
    refine ⟨?_, hreleased⟩
    rw [Walk.streamed, List.nil_append, hcalled, Walk.call, hnoted]
    rfl

/-- **Where the streamed chain keeps its word.** Over adapters that show one outcome to both
chains, it ends as the buffered one does, its chunks are the answering stream's, and every stream
it opened is released when the caller stops, exactly where the caller had asked for a chunk or no
stream that has one is reached. -/
theorem streamed_chain_agrees_iff (registry : ProviderRegistry P) (request : R)
    (conditions : Conditions R) (fallbackModels : List Text)
    (generate : ℕ → P → R → Except Failure T) (streamGenerate : ℕ → P → R → Feed)
    (hshows : ShowsAlike generate streamGenerate) (acts : List Taking) :
    StreamsAlike (candidateNames request fallbackModels) streamGenerate acts
      (dispatchWithFallback registry request conditions fallbackModels generate).result
      (streamWithFallback registry request conditions fallbackModels streamGenerate) ↔
      acts ≠ [] ∨ ¬ReachesChunk registry request conditions
        (candidateNames request fallbackModels) streamGenerate := by
  rw [reachesChunk_iff]
  constructor
  · intro h
    by_contra hcon
    obtain ⟨hacts, hreaches⟩ := not_or.mp hcon
    obtain ⟨k, name, provider, addressed, feed, hanswer, hchunks⟩ := not_not.mp hreaches
    obtain ⟨streams, hstream, -, -⟩ :=
      streamLoop_eq registry request conditions streamGenerate 0
      (candidateNames request fallbackModels) {} []
    rw [hanswer] at hstream
    obtain ⟨-, -, -, -, -, hreleased⟩ := h.answered _ (by rw [streamWithFallback, hstream]; rfl)
    exact (feed.released_iff acts).mp hreleased |>.elim hacts hchunks
  · intro hcondition
    obtain ⟨hpassed, hreleased⟩ :=
      streamWithFallback_passed registry request conditions streamGenerate fallbackModels
    refine ⟨hshows.sameEnd fallbackModels, hpassed, hreleased, fun s hs => ?_⟩
    obtain ⟨provider, addressed, feed, hanswer, hfeed, hopens, hprovider, hsent, hchunks⟩ :=
      streamWithFallback_eq_ok hs
    refine ⟨provider, addressed, hprovider, hsent, fun n => ?_, ?_⟩
    · rw [hchunks, hfeed]
      exact feed.pulls_rejoined hopens n
    · rw [hchunks, feed.released_iff]
      refine hcondition.imp_right fun hnone => ?_
      by_contra hsome
      exact hnone ⟨_, _, provider, addressed, feed, hanswer, hsome⟩

end Chains

/-! ### A caller who leaves before the first chunk -/

private def oneAdapter : ProviderRegistry Unit where
  byModel _ := some ()
  byProvider _ := none

private def asked : CanonicalRequest := { model := "primary", messages := [] }

private def outage : UpstreamError := { message := "unavailable", statusCode := some 503 }

private def generateOrFail (_ : ℕ) (_ : Unit) (request : CanonicalRequest) :
    Except Failure Unit :=
  if request.model = "primary" then .error (.upstream outage) else .ok ()

private def streamOrFail (_ : ℕ) (_ : Unit) (request : CanonicalRequest) : Feed :=
  if request.model = "primary" then { chunks := [], failure := some (.upstream outage) }
  else { chunks := [{ textDelta := "hello" }] }

private theorem showsAlike_orFail : ShowsAlike generateOrFail streamOrFail := by
  intro k provider addressed
  rw [generateOrFail, streamOrFail]
  split_ifs
  · rfl
  · rfl

/-- The primary is down, the fallback answers both chains, and a caller who read on leaves no
stream open. -/
theorem streamed_chain_agrees_on_fallback :
    StreamsAlike ["primary", "backup"] streamOrFail [.next]
      (dispatchWithFallback oneAdapter asked {} ["backup"] generateOrFail).result
      (streamWithFallback oneAdapter asked {} ["backup"] streamOrFail) :=
  (streamed_chain_agrees_iff oneAdapter asked {} ["backup"] generateOrFail streamOrFail
    showsAlike_orFail [.next]).mpr (.inl (List.cons_ne_nil _ _))

/-- **A caller who stops before the first chunk** leaves the answering stream open: closing the
iterator that was never entered does not reach the stream it wraps. -/
theorem streamed_chain_leaves_open :
    ShowsAlike generateOrFail streamOrFail ∧
    ¬StreamsAlike ["primary", "backup"] streamOrFail []
      (dispatchWithFallback oneAdapter asked {} ["backup"] generateOrFail).result
      (streamWithFallback oneAdapter asked {} ["backup"] streamOrFail) := by
  refine ⟨showsAlike_orFail, fun h => ?_⟩
  obtain ⟨provider, addressed, -, -, -, hreleased⟩ := h.answered _ rfl
  cases hreleased

end AiraGateway
