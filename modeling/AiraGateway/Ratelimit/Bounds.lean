import AiraGateway.Ratelimit.Forgetting

/-!
# What the buckets promise

`BoundsTraffic` is what a store of buckets is for: a refused take changes no later decision, an
allowed one debits every bucket it asked for, what is admitted of a bucket in a stretch of time is
bounded by its terms, and whoever waits as long as it was told is admitted. Both stores keep it
(`stores_boundTraffic`), the process's store for as many keys as it tracks, and where no bucket
refills by less than a billionth of a token a second (`boundsTraffic_fails`).
-/

namespace AiraGateway.Ratelimit

section

variable {σ : Type} (take : σ → ℚ → List BucketRequest → ℤ → σ × BucketDecision)

/-- The cost a run is admitted of one bucket from one moment to another. -/
def admittedWithin (key : Text) (first last : ℚ) : σ → List Call → ℤ
  | _, [] => 0
  | s, call :: rest =>
    (if (first ≤ call.moment ∧ call.moment ≤ last) ∧
        (take s call.moment call.requests call.cost).2.allowed = true ∧
        key ∈ call.requests.map (·.key)
      then call.cost else 0) +
      admittedWithin key first last (take s call.moment call.requests call.cost).1 rest

/-- What a store of buckets promises of its runs. -/
structure BoundsTraffic (available : σ → ℚ → BucketRequest → ℚ) (s : σ)
    (terms : Text → BucketTerms ℚ) (ok : Call → Prop) : Prop where
  /-- A refused take changes no later decision. -/
  refused : ∀ before call after, Run ok (before ++ call :: after) →
    (decisionAfter take s before call).allowed = false →
      decisions take (storeAfter take s (before ++ [call])) after =
        decisions take (storeAfter take s before) after
  /-- An allowed one debits every bucket it asked for, and no other. -/
  debited : ∀ before call, Run ok (before ++ [call]) →
    (decisionAfter take s before call).allowed = true →
      ∀ request : BucketRequest, request.terms = terms request.key →
        available (storeAfter take s (before ++ [call])) call.moment request =
          if request.key ∈ call.requests.map (·.key) then
            min (terms request.key).capacity
              (available (storeAfter take s before) call.moment request - call.cost)
          else available (storeAfter take s before) call.moment request
  /-- What is admitted is bounded by what a bucket holds and takes in. -/
  bounded : ∀ calls, Run ok calls → ∀ key first last, first ≤ last →
    (admittedWithin take key first last s calls : ℚ) ≤
      max 0 (terms key).capacity + (last - first) * (terms key).refill
  /-- Whoever waits as long as it was told is admitted. -/
  waits : ∀ before call u, Run ok (before ++ [call, ⟨u, call.requests, call.cost⟩]) →
    (decisionAfter take s before call).retryAfterSeconds ≤ ((u - call.moment : ℚ) : WithTop ℚ) →
      (∀ request ∈ call.requests, (call.cost : ℚ) ≤ (terms request.key).capacity) →
        (decisionAfter take s before call).allowed = false →
          (decisionAfter take s (before ++ [call]) ⟨u, call.requests, call.cost⟩).allowed = true

end

/-! ### From the buckets to the stores -/

/-- What an answer tells of the buckets: whether they held the cost, and how long each that did not
takes to. -/
structure Tells (terms : Text → BucketTerms ℚ)
    (answer : Buckets Text ℚ → Call → BucketDecision) : Prop where
  allowed_iff : ∀ (b : Buckets Text ℚ) (call : Call), (answer b call).allowed = true ↔
    b.refusal (call.requests.map (·.key)) call.cost = none
  wait_le : ∀ (b : Buckets Text ℚ) (call : Call), call.On terms → ∀ request ∈ call.requests,
    b.held request.key < (call.cost : ℚ) →
      ((((call.cost : ℚ) - b.held request.key) / (terms request.key).refill : ℚ) : WithTop ℚ) ≤
        (answer b call).retryAfterSeconds

section

variable {terms : Text → BucketTerms ℚ} {answer : Buckets Text ℚ → Call → BucketDecision}

/-- Answers do not hang on how often the buckets were looked at. -/
private theorem answers_advance (hrefill : ∀ key, 0 ≤ (terms key).refill) {b : Buckets Text ℚ}
    {now : ℚ} {calls : List Call} (hlater : ∀ call ∈ calls, now ≤ call.moment) :
    answers terms answer (b.advance terms now) calls = answers terms answer b calls := by
  cases calls with
  | nil => rfl
  | cons call rest =>
    have hsame := Buckets.advance_advance hrefill b (hlater call (List.mem_cons_self ..))
    have htake : (b.advance terms now).take terms call.asTake = b.take terms call.asTake :=
      Buckets.take_advance hrefill b (hlater call (List.mem_cons_self ..))
    rw [answers, answers, hsame, htake]

variable {σ : Type} {take : σ → ℚ → List BucketRequest → ℤ → σ × BucketDecision}
  {ok : Call → Prop} {R : σ → Buckets Text ℚ → Prop} {available : σ → ℚ → BucketRequest → ℚ}

private theorem admittedWithin_eq (h : Refines take terms ok answer R)
    (htells : Tells terms answer) (key : Text) (first last : ℚ) {s : σ} {b : Buckets Text ℚ}
    {calls : List Call} (hs : R s b) (hok : ∀ call ∈ calls, ok call)
    (hordered : Ordered b.now calls) :
    (admittedWithin take key first last s calls : ℚ) =
      Buckets.admitted terms key first last b (calls.map Call.asTake) := by
  induction calls generalizing s b with
  | nil => exact Int.cast_zero
  | cons call rest ih =>
    rw [List.forall_mem_cons] at hok
    obtain ⟨hnow, hrest⟩ := hordered.tail
    obtain ⟨hnext, hanswer⟩ := h.step hs hok.1 hnow
    have hrest' : Ordered (b.take terms call.asTake).now rest := by
      rw [Buckets.now_take]
      exact hrest
    have hadmitted := htells.allowed_iff (b.advance terms call.moment) call
    rw [admittedWithin, List.map_cons, Buckets.admitted, Int.cast_add, ih hnext hok.2 hrest',
      hanswer]
    congr 1
    by_cases hcounts : (first ≤ call.moment ∧ call.moment ≤ last) ∧
        (answer (b.advance terms call.moment) call).allowed = true ∧
          key ∈ call.requests.map (·.key)
    · have htaken := hcounts
      rw [hadmitted] at htaken
      rw [if_pos hcounts]
      exact (if_pos htaken).symm
    · have hnot := hcounts
      rw [hadmitted] at hnot
      rw [if_neg hcounts]
      exact Int.cast_zero.trans (if_neg hnot).symm

/-- A store that stands for buckets, and answers what they hold, promises what buckets promise. -/
theorem Refines.boundsTraffic (h : Refines take terms ok answer R) (htells : Tells terms answer)
    (hrefill : ∀ key, 0 < (terms key).refill) (hok : ∀ call, ok call → call.On terms)
    (hreads : ∀ {s b} {request : BucketRequest} {t}, R s b → request.terms = terms request.key →
      b.now ≤ t → available s t request = (b.advance terms t).held request.key)
    {s : σ} (hempty : ∀ now, R s (fullAt terms now)) : BoundsTraffic take available s terms ok := by
  have hnonneg : ∀ key, 0 ≤ (terms key).refill := fun key => (hrefill key).le
  -- the buckets a run leads to, and what a take does to them
  have hreach : ∀ before call rest, Run ok (before ++ call :: rest) →
      ∃ b, R (storeAfter take s before) b ∧ Ordered b.now (call :: rest) ∧
        R (storeAfter take s (before ++ [call])) (b.take terms call.asTake) ∧
        decisionAfter take s before call = answer (b.advance terms call.moment) call := by
    intro before call rest hrun
    obtain ⟨now, hordered⟩ := hrun.ordered
    obtain ⟨b, hb, hlater⟩ := h.reaches (hempty now)
      (fun call hcall => hrun.2 call (List.mem_append_left _ hcall)) hordered
    obtain ⟨hnext, hanswer⟩ := h.step hb
      (hrun.2 call (List.mem_append_right _ (List.mem_cons_self ..))) hlater.tail.1
    rw [storeAfter_append]
    exact ⟨b, hb, hlater, hnext, hanswer⟩
  refine ⟨?_, ?_, ?_, ?_⟩
  · intro before call after hrun hrefused
    obtain ⟨b, hb, hlater, hnext, hanswer⟩ := hreach before call after hrun
    obtain ⟨hnow, hafter⟩ := hlater.tail
    have hnot : ¬ (answer (b.advance terms call.moment) call).allowed = true := by
      rw [← hanswer, hrefused]
      exact Bool.false_ne_true
    have htake : b.take terms call.asTake = b.advance terms call.moment :=
      Buckets.take_of_refused (mt (htells.allowed_iff _ call).mpr hnot)
    have hok' : ∀ call ∈ after, ok call := fun d hd =>
      hrun.2 d (List.mem_append_right _ (List.mem_cons_of_mem _ hd))
    rw [htake] at hnext
    rw [h.decisions_eq hnext hok' hafter, answers_advance hnonneg hafter.1,
      h.decisions_eq hb hok' ⟨fun d hd => hnow.trans (hafter.1 d hd), hafter.2⟩]
  · intro before call hrun hallowed request hterms
    obtain ⟨b, hb, hlater, hnext, hanswer⟩ := hreach before call [] hrun
    have hnow := hlater.tail.1
    rw [hanswer] at hallowed
    have hadmitted := (htells.allowed_iff _ call).mp hallowed
    have hafter := hreads (t := call.moment) hnext hterms (Buckets.now_take b call.asTake).le
    have hheld := Buckets.held_advance_take (b := b) (t := call.asTake) hadmitted request.key
    rw [hreads hb hterms hnow, hafter]
    refine hheld.trans ?_
    by_cases hin : request.key ∈ call.requests.map (·.key)
    · exact (if_pos hin).trans (if_pos hin).symm
    · exact (if_neg hin).trans (if_neg hin).symm
  · intro calls hrun key first last hle
    obtain ⟨now, hordered⟩ := hrun.ordered
    have hadmitted := admittedWithin_eq h htells key first last (hempty now) hrun.2 hordered
    have hsorted : (calls.map Call.asTake).Pairwise fun t u => t.moment ≤ u.moment :=
      List.pairwise_map.mpr hrun.1
    rw [hadmitted]
    exact Buckets.admitted_le hnonneg key (fullAt terms now) hsorted hle
  · intro before call u hrun hwait hcapacity hrefused
    obtain ⟨b, hb, hlater, hnext, hanswer⟩ := hreach before call _ hrun
    obtain ⟨-, hsecond⟩ := hlater.tail
    have hu : call.moment ≤ u := hsecond.1 _ (List.mem_singleton_self _)
    have hterms : call.On terms :=
      hok call (hrun.2 call (List.mem_append_right _ (List.mem_cons_self ..)))
    have hnot : ¬ (answer (b.advance terms call.moment) call).allowed = true := by
      rw [← hanswer, hrefused]
      exact Bool.false_ne_true
    have htake : b.take terms call.asTake = b.advance terms call.moment :=
      Buckets.take_of_refused (mt (htells.allowed_iff _ call).mpr hnot)
    rw [hanswer] at hwait
    -- what each refusing bucket lacks is there by then
    have hholds : (b.advance terms u).refusal call.asTake.keys call.asTake.cost = none := by
      refine Buckets.refusal_eq_none_of_wait hrefill (t := call.asTake) hu ?_ ?_
      · intro key hkey hless
        obtain ⟨request, hrequest, rfl⟩ := List.mem_map.mp hkey
        have hneed := htells.wait_le _ call hterms request hrequest hless
        exact WithTop.coe_le_coe.mp (hneed.trans hwait)
      · intro key hkey
        obtain ⟨request, hrequest, rfl⟩ := List.mem_map.mp hkey
        exact hcapacity request hrequest
    have hretried : ok ⟨u, call.requests, call.cost⟩ :=
      hrun.2 _ (List.mem_append_right _ (List.mem_cons_of_mem _ (List.mem_singleton_self _)))
    have hretry := h.step hnext hretried
      ((Buckets.now_take b call.asTake).trans_le hu)
    have hsame := Buckets.advance_advance hnonneg b hu
    rw [decisionAfter, hretry.2, htake, htells.allowed_iff, hsame]
    exact hholds

end

/-! ### The buckets of a process -/

namespace InMemoryTokenBucket

variable {terms : Text → BucketTerms ℚ}

private theorem le_weigh_snd (f : BucketRequest → ℚ) (cost : ℤ) {requests : List BucketRequest}
    {request : BucketRequest} (hrequest : request ∈ requests) (hless : f request < cost) :
    waitFor request (f request) cost ≤ (weigh f cost requests).2 := by
  have hgrows : ∀ (rest : List BucketRequest) (weighed : Option BucketRequest × WithTop ℚ),
      weighed.2 ≤ (rest.foldl (fun weighed request =>
        if f request < cost then
          (weighed.1 <|> some request, max weighed.2 (waitFor request (f request) cost))
        else weighed) weighed).2 := by
    intro rest
    induction rest with
    | nil => exact fun weighed => le_rfl
    | cons other rest ih =>
      intro weighed
      rw [List.foldl_cons]
      split_ifs
      · exact (le_max_left ..).trans (ih _)
      · exact ih weighed
  obtain ⟨before, after, rfl⟩ := List.append_of_mem hrequest
  rw [weigh, List.foldl_append, List.foldl_cons, if_pos hless]
  exact (le_max_right ..).trans (hgrows after _)

theorem tells (hrefill : ∀ key, 0 < (terms key).refill) : Tells terms answer where
  allowed_iff := by
    intro b call
    have hnone := weigh_fst_eq_none_iff (fun request => b.held request.key) call.cost
      call.requests
    rw [Buckets.refusal_eq_none_iff, List.forall_mem_map, ← hnone, answer]
    by_cases hempty : call.requests = []
    · simp [hempty, weigh, allowedDecision]
    · rw [if_neg hempty]
      obtain ⟨refused, wait⟩ := weigh (fun request => b.held request.key) call.cost call.requests
      by_cases hrefused : refused = none
      · simp [hrefused, allowedDecision]
      · simp [hrefused]
  wait_le := by
    intro b call hterms request hrequest hless
    have hwait := le_weigh_snd (fun request => b.held request.key) call.cost hrequest hless
    have hrate : request.refillPerSecond = (terms request.key).refill :=
      congrArg BucketTerms.refill (hterms request hrequest)
    have hrefused : (weigh (fun request => b.held request.key) call.cost call.requests).1 ≠ none :=
      fun h => absurd hless (not_lt.mpr ((weigh_fst_eq_none_iff _ _ _).mp h request hrequest))
    rw [waitFor, hrate, if_pos (hrefill request.key)] at hwait
    rw [answer, if_neg (List.ne_nil_of_mem hrequest)]
    generalize weigh (fun request => b.held request.key) call.cost call.requests = weighed
      at hwait hrefused ⊢
    obtain ⟨refused, wait⟩ := weighed
    simp only at hrefused ⊢
    rw [if_neg hrefused]
    exact hwait

/-- **The buckets of a process bound its traffic**, where no more keys are used than are tracked
and no bucket refills more slowly than a sweep allows for. -/
theorem boundsTraffic {keys : Finset Text} (hkeys : keys.card ≤ maxTrackedBuckets)
    (hrefill : ∀ key, 1 / 10 ^ 9 ≤ (terms key).refill) :
    BoundsTraffic take (fun buckets => available buckets.state) empty terms
      (fun call => call.On terms ∧ ∀ request ∈ call.requests, request.key ∈ keys) := by
  have hpos : ∀ key, 0 < (terms key).refill := fun key =>
    lt_of_lt_of_le (by norm_num) (hrefill key)
  exact (refines hkeys hrefill).boundsTraffic (tells hpos) hpos (fun call hcall => hcall.1)
    (fun h hterms ht => available_eq_held h.reflects hterms ht)
    fun now => keeps_empty keys now fun key => (hpos key).le

end InMemoryTokenBucket

/-! ### The shared buckets -/

namespace RedisTokenBucket

variable {terms : Text → BucketTerms ℚ}

private theorem le_weigh_retryMs (f : BucketRequest → ℚ) (cost : ℤ) {requests : List BucketRequest}
    {request : BucketRequest} (hrequest : request ∈ requests) (hless : f request < cost) :
    ⌈(cost - f request) / request.refillPerSecond * 1000⌉ ≤ (weigh f cost requests).retryMs := by
  have hgrows : ∀ (rest : List (BucketRequest × ℕ)) (reply : Reply),
      reply.retryMs ≤ (rest.foldl (Reply.next f cost) reply).retryMs := by
    intro rest
    induction rest with
    | nil => exact fun reply => le_rfl
    | cons entry rest ih =>
      intro reply
      rw [List.foldl_cons]
      refine le_trans ?_ (ih _)
      rw [Reply.next]
      by_cases hrefuses : f entry.1 < cost
      · rw [if_pos hrefuses]
        exact le_max_left ..
      · rw [if_neg hrefuses]
  obtain ⟨i, hi, hat⟩ := List.getElem_of_mem hrequest
  have hentry : (request, i) ∈ requests.zipIdx := by
    rw [List.mem_zipIdx_iff_getElem?, List.getElem?_eq_getElem hi, hat]
  obtain ⟨before, after, hsplit⟩ := List.append_of_mem hentry
  rw [weigh, hsplit, List.foldl_append, List.foldl_cons]
  refine le_trans ?_ (hgrows after _)
  rw [Reply.next, if_pos hless]
  exact le_max_right ..

theorem tells : Tells terms answer where
  allowed_iff := by
    intro b call
    rw [Buckets.refusal_eq_none_iff, List.forall_mem_map, answer]
    by_cases hempty : call.requests = []
    · simp [hempty, allowedDecision]
    · rw [if_neg hempty]
      simp only [weigh_allowed, decide_eq_true_eq]
  wait_le := by
    intro b call hterms request hrequest hless
    have hwait := le_weigh_retryMs (fun request => b.held request.key) call.cost hrequest hless
    have hrate : request.refillPerSecond = (terms request.key).refill :=
      congrArg BucketTerms.refill (hterms request hrequest)
    have hexact := (Int.ceil_le.mp hwait)
    rw [answer, if_neg (List.ne_nil_of_mem hrequest)]
    refine WithTop.coe_le_coe.mpr ?_
    rw [hrate] at hexact
    linarith

/-- **The shared buckets bound traffic.** -/
theorem boundsTraffic (hrefill : ∀ key, 0 < (terms key).refill) :
    BoundsTraffic take available [] terms (Call.On terms) :=
  (refines hrefill).boundsTraffic tells hrefill (fun _ hcall => hcall)
    (fun h hterms ht => available_eq_held h hterms ht)
    fun now => keeps_empty now fun key => (hrefill key).le

end RedisTokenBucket

/-- **Both stores bound traffic, all or nothing**: the shared one whatever is asked of it, and the
one of a process as far as it keeps its buckets. -/
theorem stores_boundTraffic {terms : Text → BucketTerms ℚ}
    (hrefill : ∀ key, 0 < (terms key).refill) :
    BoundsTraffic RedisTokenBucket.take RedisTokenBucket.available [] terms (Call.On terms) ∧
      ∀ keys : Finset Text, keys.card ≤ maxTrackedBuckets →
        (∀ key, 1 / 10 ^ 9 ≤ (terms key).refill) →
          BoundsTraffic InMemoryTokenBucket.take
            (fun buckets => InMemoryTokenBucket.available buckets.state)
            InMemoryTokenBucket.empty terms
            (fun call => call.On terms ∧ ∀ request ∈ call.requests, request.key ∈ keys) :=
  ⟨RedisTokenBucket.boundsTraffic hrefill, fun _ hkeys hsweep =>
    InMemoryTokenBucket.boundsTraffic hkeys hsweep⟩

theorem stores_boundTraffic_minutely :
    (∀ key : Text, 0 < ((fun _ => ⟨60, 1⟩ : Text → BucketTerms ℚ) key).refill) ∧
      BoundsTraffic RedisTokenBucket.take RedisTokenBucket.available [] (fun _ => ⟨60, 1⟩)
        (Call.On fun _ => ⟨60, 1⟩) :=
  ⟨fun _ => one_pos, (stores_boundTraffic fun _ => one_pos).1⟩

/-! ### Where the process's store does not -/

section

variable {σ : Type} (take : σ → ℚ → List BucketRequest → ℤ → σ × BucketDecision)

private theorem admittedWithin_append (key : Text) (first last : ℚ) (s : σ)
    (before rest : List Call) :
    admittedWithin take key first last s (before ++ rest) =
      admittedWithin take key first last s before +
        admittedWithin take key first last (storeAfter take s before) rest := by
  induction before generalizing s with
  | nil => exact (zero_add _).symm
  | cons call before ih =>
    rw [List.cons_append, admittedWithin, admittedWithin, ih, storeAfter, add_assoc]

private theorem admittedWithin_nonneg (key : Text) (first last : ℚ) (s : σ) {calls : List Call}
    (h : ∀ call ∈ calls, 0 ≤ call.cost) : 0 ≤ admittedWithin take key first last s calls := by
  induction calls generalizing s with
  | nil => exact le_rfl
  | cons call rest ih =>
    rw [List.forall_mem_cons] at h
    rw [admittedWithin]
    refine add_nonneg ?_ (ih _ h.2)
    split_ifs
    · exact h.1
    · exact le_rfl

/-- A run that begins and ends with a token of the same bucket was admitted two of it. -/
private theorem two_le_admittedWithin {request : BucketRequest} (first last : ℚ) {s : σ}
    {middle : List Call} (hle : first ≤ last) (hcosts : ∀ call ∈ middle, 0 ≤ call.cost)
    (hfirst : (take s first [request] 1).2.allowed = true)
    (hlast : (decisionAfter take s (⟨first, [request], 1⟩ :: middle)
      ⟨last, [request], 1⟩).allowed = true) :
    2 ≤ admittedWithin take request.key first last s
      (⟨first, [request], 1⟩ :: middle ++ [⟨last, [request], 1⟩]) := by
  have hkey : request.key ∈ [request].map (·.key) := List.mem_singleton_self _
  have hmiddle := admittedWithin_nonneg take request.key first last (take s first [request] 1).1
    hcosts
  rw [decisionAfter] at hlast
  rw [admittedWithin_append, admittedWithin, admittedWithin, if_pos ⟨⟨le_rfl, hle⟩, hfirst, hkey⟩,
    if_pos ⟨⟨hle, le_rfl⟩, hlast, hkey⟩, admittedWithin]
  change 2 ≤ 1 + admittedWithin take request.key first last (take s first [request] 1).1 middle +
    (1 + 0)
  omega

end

namespace InMemoryTokenBucket

/-- One of as many buckets as there are words of one letter. -/
def crowdKey (i : ℕ) : Text := List.replicate i 'a'

def crowdRequest (i : ℕ) : BucketRequest := ⟨crowdKey i, 1, 1, []⟩

/-- So many keys, each used once and all at the same moment. -/
def crowdRun (n : ℕ) : List Call := (List.range n).map fun i => ⟨0, [crowdRequest i], 1⟩

private def crowded (n : ℕ) : List (Text × Stored) :=
  (List.range n).map fun i => (crowdKey i, ⟨0, 0, 1⟩)

private theorem crowdKey_inj {i j : ℕ} (h : crowdKey i = crowdKey j) : i = j := by
  have hlength := congrArg List.length h
  rwa [crowdKey, crowdKey, List.length_replicate, List.length_replicate] at hlength

/-- A bucket that is not there is full. -/
private theorem available_of_fresh {state : List (Text × Stored)} {i : ℕ}
    (h : Fresh state (crowdKey i)) : available state 0 (crowdRequest i) = 1 := by
  have hnone : dictGet state (crowdRequest i).key = none := dictGet_of_fresh h
  rw [available, hnone]
  simp [crowdRequest]

private theorem take_of_fresh {state : List (Text × Stored)} {i : ℕ}
    (h : Fresh state (crowdKey i)) (n : ℕ) :
    take ⟨state, n⟩ 0 [crowdRequest i] 1 =
      (forget 0 ⟨state ++ [(crowdKey i, ⟨0, 0, 1⟩)], n⟩, allowedDecision) := by
  have hfull := available_of_fresh h
  have hweigh : weigh (available state 0) 1 [crowdRequest i] = (none, 0) := by
    simp [weigh, hfull]
  have herase : dictErase state (crowdKey i) = state :=
    List.filter_eq_self.mpr fun entry hentry => decide_eq_true (h entry hentry)
  have hwritten : write 0 state (crowdRequest i) (1 - (1 : ℤ)) =
      state ++ [(crowdKey i, ⟨0, 0, 1⟩)] := by
    rw [write]
    change dictErase state (crowdKey i) ++ _ = _
    rw [herase]
    norm_num [crowdRequest]
  rw [take, takeThen, if_neg (List.cons_ne_nil _ _), hweigh]
  simp only [if_true, List.foldl_cons, List.foldl_nil, hfull]
  rw [hwritten]

private theorem crowded_succ (n : ℕ) :
    crowded (n + 1) = crowded n ++ [(crowdKey n, ⟨0, 0, 1⟩)] := by
  rw [crowded, List.range_succ, List.map_append]
  rfl

private theorem fresh_crowded (n : ℕ) : Fresh (crowded n) (crowdKey n) := by
  intro entry hentry hkey
  obtain ⟨i, hi, rfl⟩ := List.mem_map.mp hentry
  have hless := List.mem_range.mp hi
  have hsame := crowdKey_inj hkey
  omega

/-- No sweep helps: every bucket of the crowd is empty. -/
private theorem forget_crowded (n m : ℕ) :
    forget 0 ⟨crowded n, m⟩ = ⟨(crowded n).drop (n - maxTrackedBuckets), m + 1⟩ := by
  have hlength : (crowded n).length = n := by
    rw [crowded, List.length_map, List.length_range]
  have hempty : (crowded n).filter (fun entry => ¬ entry.2.fullAt ≤ 0) = crowded n := by
    refine List.filter_eq_self.mpr fun entry hentry => ?_
    obtain ⟨i, -, rfl⟩ := List.mem_map.mp hentry
    norm_num
  simp only [forget, hempty, ite_self, hlength]

private theorem storeAfter_crowdRun {n : ℕ} (h : n ≤ maxTrackedBuckets) :
    storeAfter take empty (crowdRun n) = ⟨crowded n, n⟩ := by
  induction n with
  | zero => rfl
  | succ n ih =>
    have hsplit : crowdRun (n + 1) = crowdRun n ++ [⟨0, [crowdRequest n], 1⟩] := by
      rw [crowdRun, List.range_succ, List.map_append]
      rfl
    have hnone : n + 1 - maxTrackedBuckets = 0 := by omega
    rw [hsplit, storeAfter_append, ih (by omega), storeAfter, storeAfter,
      take_of_fresh (fresh_crowded n), ← crowded_succ, forget_crowded, hnone, List.drop_zero]

/-- The first of the crowd is forgotten when one more comes than are tracked. -/
private theorem decisionAfter_crowdRun :
    (decisionAfter take empty (crowdRun (maxTrackedBuckets + 1))
      ⟨0, [crowdRequest 0], 1⟩).allowed = true := by
  have hsplit : crowdRun (maxTrackedBuckets + 1) =
      crowdRun maxTrackedBuckets ++ [⟨0, [crowdRequest maxTrackedBuckets], 1⟩] := by
    rw [crowdRun, List.range_succ, List.map_append]
    rfl
  have hforgotten : Fresh ((crowded (maxTrackedBuckets + 1)).drop 1) (crowdKey 0) := by
    intro entry hentry hkey
    rw [crowded, List.range_succ_eq_map, List.map_cons, List.drop_one, List.tail_cons,
      List.map_map] at hentry
    obtain ⟨i, -, rfl⟩ := List.mem_map.mp hentry
    have hsame := crowdKey_inj hkey
    omega
  have hone : maxTrackedBuckets + 1 - maxTrackedBuckets = 1 := by omega
  rw [decisionAfter, hsplit, storeAfter_append, storeAfter_crowdRun le_rfl, storeAfter, storeAfter,
    take_of_fresh (fresh_crowded _), ← crowded_succ, forget_crowded, hone, take_of_fresh hforgotten]
  rfl

/-- **The process's store admits too much** of a bucket that refills too slowly, and of a bucket
that was forgotten because more are in use than it tracks. -/
theorem boundsTraffic_fails :
    (¬ BoundsTraffic take (fun buckets => available buckets.state) empty drowsyTerms
      fun call => call.On drowsyTerms ∧
        ∀ request ∈ call.requests, request.key ∈ ({['a'], ['b']} : Finset Text)) ∧
    ¬ BoundsTraffic take (fun buckets => available buckets.state) empty (fun _ => ⟨1, 1⟩)
      (Call.On fun _ => ⟨1, 1⟩) := by
  constructor
  · intro h
    set middle : List Call :=
      (⟨0, [usual], 0⟩ :: List.replicate 1021 ⟨0, [usual], 0⟩) ++ [⟨10 ^ 9, [usual], 0⟩]
      with hmiddle
    have hcosts : ∀ call ∈ middle, 0 ≤ call.cost := by
      intro call hcall
      have hfree : call.cost = 0 := by
        rw [hmiddle, List.mem_append, List.mem_cons, List.mem_replicate,
          List.mem_singleton] at hcall
        obtain (rfl | ⟨-, rfl⟩) | rfl := hcall
        · rfl
        · rfl
        · rfl
      exact hfree.ge
    have hrun : drowsyRun = ⟨0, [drowsy], 1⟩ :: middle ++ [⟨10 ^ 9, [drowsy], 1⟩] := by
      rw [drowsyRun, beforeSweep, hmiddle, List.append_cons, List.cons_append]
    have hfirst : (take empty 0 [drowsy] 1).2.allowed = true := by decide +kernel
    have htwo := two_le_admittedWithin take 0 (10 ^ 9) (by norm_num) hcosts hfirst
      drowsyRun_allowed.1
    have hbound := h.bounded drowsyRun drowsyRun_run ['a'] 0 (10 ^ 9) (by norm_num)
    rw [← hrun] at htwo
    have hcast : (2 : ℚ) ≤ (admittedWithin take drowsy.key 0 (10 ^ 9) empty drowsyRun : ℤ) := by
      exact_mod_cast htwo
    have hterms : drowsyTerms ['a'] = ⟨1, 1 / 10 ^ 10⟩ := by
      norm_num [drowsyTerms, drowsy, BucketRequest.terms]
    rw [hterms] at hbound
    have hlimit := hcast.trans hbound
    norm_num at hlimit
  · intro h
    set middle : List Call :=
      (List.range maxTrackedBuckets).map fun i => ⟨0, [crowdRequest (i + 1)], 1⟩ with hmiddle
    have hsplit : crowdRun (maxTrackedBuckets + 1) = ⟨0, [crowdRequest 0], 1⟩ :: middle := by
      rw [crowdRun, List.range_succ_eq_map, List.map_cons, List.map_map]
      rfl
    have hcosts : ∀ call ∈ middle, 0 ≤ call.cost := by
      simp [hmiddle]
    have hfirst : (take empty 0 [crowdRequest 0] 1).2.allowed = true := by decide +kernel
    have hlast := decisionAfter_crowdRun
    rw [hsplit] at hlast
    have htwo := two_le_admittedWithin take 0 0 le_rfl hcosts hfirst hlast
    have hrun : Run (Call.On fun _ => ⟨1, 1⟩)
        (⟨0, [crowdRequest 0], 1⟩ :: middle ++ [⟨0, [crowdRequest 0], 1⟩]) := by
      have hall : ∀ call ∈ (⟨0, [crowdRequest 0], 1⟩ :: middle ++ [⟨0, [crowdRequest 0], 1⟩] :
          List Call), call.moment = 0 ∧ call.On fun _ => ⟨1, 1⟩ := by
        intro call hcall
        have hone : ∃ i, call = ⟨0, [crowdRequest i], 1⟩ := by
          rw [hmiddle, List.mem_append, List.mem_cons, List.mem_map, List.mem_singleton] at hcall
          obtain (rfl | ⟨i, -, rfl⟩) | rfl := hcall
          · exact ⟨0, rfl⟩
          · exact ⟨i + 1, rfl⟩
          · exact ⟨0, rfl⟩
        obtain ⟨i, rfl⟩ := hone
        refine ⟨rfl, fun request hrequest => ?_⟩
        rw [List.mem_singleton.mp hrequest]
        simp [crowdRequest, BucketRequest.terms]
      refine ⟨List.pairwise_of_forall_mem_list fun c hc d hd => ?_, fun call hcall =>
        (hall call hcall).2⟩
      rw [(hall c hc).1, (hall d hd).1]
    have hbound := h.bounded _ hrun (crowdKey 0) 0 0 le_rfl
    have hcast : (2 : ℚ) ≤ (admittedWithin take (crowdRequest 0).key 0 0 empty
        (⟨0, [crowdRequest 0], 1⟩ :: middle ++ [⟨0, [crowdRequest 0], 1⟩]) : ℤ) := by
      exact_mod_cast htwo
    have hlimit := hcast.trans hbound
    norm_num at hlimit

end InMemoryTokenBucket

end AiraGateway.Ratelimit
