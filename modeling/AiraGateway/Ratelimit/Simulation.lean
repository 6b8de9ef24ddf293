import AiraGateway.Ratelimit.Buckets

/-!
# Both stores keep the same buckets

What a store answers hangs only on what its buckets hold and will hold (`Buckets`), whatever it
remembers, forgets or lets expire. `Refines` says so of one take; from it a run of takes is answered
as the buckets themselves would answer it (`Refines.decisions_eq`).

* The buckets of a process (`InMemoryTokenBucket.refines`), where each key keeps its terms, no
  more keys are used than are tracked and no bucket refills more slowly than a sweep allows for.
* The same buckets where nothing is forgotten (`InMemoryTokenBucket.refines_keeping`).
* The shared buckets (`RedisTokenBucket.refines`): an entry that has expired would be full.
-/

namespace AiraGateway.Ratelimit

/-- A call as a take of buckets. -/
def Call.asTake (call : Call) : Take Text ℚ := ⟨call.moment, call.requests.map (·.key), call.cost⟩

/-- Every bucket of a call is judged on its key's terms. -/
def Call.On (terms : Text → BucketTerms ℚ) (call : Call) : Prop :=
  ∀ request ∈ call.requests, request.terms = terms request.key

/-- The buckets when nothing was taken yet: all full. -/
def fullAt (terms : Text → BucketTerms ℚ) (now : ℚ) : Buckets Text ℚ :=
  ⟨now, fun key => (terms key).capacity⟩

/-- A store answers each take as the buckets it stands for do, and stands for what becomes of
them. -/
structure Refines {σ : Type} (take : σ → ℚ → List BucketRequest → ℤ → σ × BucketDecision)
    (terms : Text → BucketTerms ℚ) (ok : Call → Prop)
    (answer : Buckets Text ℚ → Call → BucketDecision) (R : σ → Buckets Text ℚ → Prop) : Prop where
  step : ∀ {s b call}, R s b → ok call → b.now ≤ call.moment →
    R (take s call.moment call.requests call.cost).1 (b.take terms call.asTake) ∧
      (take s call.moment call.requests call.cost).2 = answer (b.advance terms call.moment) call

/-- Takes one after the other, from some moment on. -/
def Ordered (now : ℚ) (calls : List Call) : Prop :=
  (∀ call ∈ calls, now ≤ call.moment) ∧ calls.Pairwise fun c d => c.moment ≤ d.moment

theorem Ordered.tail {now : ℚ} {call : Call} {calls : List Call} (h : Ordered now (call :: calls)) :
    now ≤ call.moment ∧ Ordered call.moment calls := by
  obtain ⟨hnow, hsorted⟩ := h
  rw [List.pairwise_cons] at hsorted
  exact ⟨hnow call (List.mem_cons_self ..), hsorted.1, hsorted.2⟩

/-- What buckets answer to a run of takes. -/
def answers (terms : Text → BucketTerms ℚ) (answer : Buckets Text ℚ → Call → BucketDecision) :
    Buckets Text ℚ → List Call → List BucketDecision
  | _, [] => []
  | b, call :: rest =>
    answer (b.advance terms call.moment) call ::
      answers terms answer (b.take terms call.asTake) rest

namespace Refines

variable {σ : Type} {take : σ → ℚ → List BucketRequest → ℤ → σ × BucketDecision}
  {terms : Text → BucketTerms ℚ} {ok : Call → Prop}
  {answer : Buckets Text ℚ → Call → BucketDecision} {R : σ → Buckets Text ℚ → Prop}

/-- **A run is answered as the buckets answer it.** -/
theorem decisions_eq (h : Refines take terms ok answer R) {s : σ} {b : Buckets Text ℚ}
    {calls : List Call} (hs : R s b) (hok : ∀ call ∈ calls, ok call)
    (hordered : Ordered b.now calls) : decisions take s calls = answers terms answer b calls := by
  induction calls generalizing s b with
  | nil => rfl
  | cons call rest ih =>
    rw [List.forall_mem_cons] at hok
    obtain ⟨hnow, hrest⟩ := hordered.tail
    obtain ⟨hnext, hanswer⟩ := h.step hs hok.1 hnow
    have hrest' : Ordered (b.take terms call.asTake).now rest := by
      rw [Buckets.now_take]
      exact hrest
    rw [decisions, answers, hanswer, ih hnext hok.2 hrest']

/-- Part of a run leaves a store that stands for buckets, and the rest of the run comes later. -/
theorem reaches (h : Refines take terms ok answer R) {s : σ} {b : Buckets Text ℚ}
    {before rest : List Call} (hs : R s b) (hok : ∀ call ∈ before, ok call)
    (hordered : Ordered b.now (before ++ rest)) :
    ∃ b', R (storeAfter take s before) b' ∧ Ordered b'.now rest := by
  induction before generalizing s b with
  | nil => exact ⟨b, hs, hordered⟩
  | cons call before ih =>
    rw [List.forall_mem_cons] at hok
    obtain ⟨hnow, hrest⟩ := Ordered.tail hordered
    have hrest' : Ordered (b.take terms call.asTake).now (before ++ rest) := by
      rw [Buckets.now_take]
      exact hrest
    exact ih (h.step hs hok.1 hnow).1 hok.2 hrest'

end Refines

/-- What a take leaves in a bucket it asked for. -/
private def leftIn (b : Buckets Text ℚ) (call : Call) (key : Text) : ℚ :=
  if b.refusal (call.requests.map (·.key)) call.cost = none then b.held key - call.cost
  else b.held key

private theorem take_eq {terms : Text → BucketTerms ℚ} {b : Buckets Text ℚ} {call : Call} :
    b.take terms call.asTake = ⟨call.moment, fun key =>
      if key ∈ call.requests.map (·.key) then leftIn (b.advance terms call.moment) call key
      else (b.advance terms call.moment).held key⟩ := by
  have hnow : (b.take terms call.asTake).now = call.moment :=
    Buckets.now_take b call.asTake
  refine Buckets.ext hnow ?_
  ext key
  by_cases hrefused :
      (b.advance terms call.moment).refusal (call.requests.map (·.key)) call.cost = none
  · have htake : b.take terms call.asTake = _ := Buckets.take_of_admitted hrefused
    rw [htake]
    simp only [leftIn, hrefused, if_true]
    by_cases hin : key ∈ call.requests.map (·.key)
    · exact (if_pos hin).trans (if_pos hin).symm
    · exact (if_neg hin).trans (if_neg hin).symm
  · have htake : b.take terms call.asTake = _ := Buckets.take_of_refused hrefused
    simp only [htake, leftIn, hrefused, if_false, ite_self]
    rfl

/-! ### The buckets of a process -/

namespace InMemoryTokenBucket

section

variable (terms : Text → BucketTerms ℚ)

/-- What a bucket holds at a moment. -/
def level (state : List (Text × Stored)) (key : Text) (t : ℚ) : ℚ :=
  match dictGet state key with
  | none => (terms key).capacity
  | some stored => (terms key).after stored.tokens (max 0 (t - stored.ts))

/-- Stored buckets that hold, at every later moment, what the buckets hold. -/
def Reflects (state : List (Text × Stored)) (b : Buckets Text ℚ) : Prop :=
  ∀ key t, b.now ≤ t → level terms state key t = (terms key).after (b.held key) (t - b.now)

/-- What the buckets of a process answer. -/
def answer (b : Buckets Text ℚ) (call : Call) : BucketDecision :=
  if call.requests = [] then allowedDecision
  else
    let (refused, wait) := weigh (fun request => b.held request.key) call.cost call.requests
    if refused = none then allowedDecision else ⟨false, wait, refused⟩

end

variable {terms : Text → BucketTerms ℚ}

private theorem available_eq {state : List (Text × Stored)} {request : BucketRequest}
    (h : request.terms = terms request.key) (now : ℚ) :
    available state now request = level terms state request.key now := by
  rw [available, level, ← h]
  cases dictGet state request.key with
  | none =>
    change min (request.capacity : ℚ) (request.capacity + max 0 (now - now) * _) = _
    rw [sub_self, max_self, zero_mul, add_zero, min_self]
    rfl
  | some stored => rfl

private theorem dictGet_write (now : ℚ) (state : List (Text × Stored)) (request : BucketRequest)
    (left : ℚ) (key : Text) :
    (dictGet (write now state request left) key).map (fun stored => (stored.tokens, stored.ts)) =
      if request.key = key then some (left, now)
      else (dictGet state key).map fun stored => (stored.tokens, stored.ts) := by
  rw [write]
  split_ifs with hsame
  · have hfresh : Fresh (dictErase state request.key) request.key := by
      intro entry hentry
      simpa using (List.mem_filter.mp hentry).2
    rw [← hsame, dictGet_last hfresh]
    rfl
  · have herased := dictGet_dictErase state request.key key
    rw [if_neg (Ne.symm hsame)] at herased
    rw [dictGet, List.find?_append, ← herased, dictGet]
    simp [hsame]

/-- The buckets of a call, written one after the other: each holds what is left in it. -/
private theorem dictGet_writes (now : ℚ) (left : Text → ℚ) (requests : List BucketRequest)
    (state : List (Text × Stored)) (key : Text) :
    (dictGet (requests.foldl (fun state request => write now state request (left request.key))
        state) key).map (fun stored => (stored.tokens, stored.ts)) =
      if key ∈ requests.map (·.key) then some (left key, now)
      else (dictGet state key).map fun stored => (stored.tokens, stored.ts) := by
  induction requests generalizing state with
  | nil => simp
  | cons request rest ih =>
    rw [List.foldl_cons, ih, dictGet_write]
    simp only [List.map_cons, List.mem_cons]
    by_cases hrest : key ∈ rest.map (·.key)
    · simp [hrest]
    · by_cases hsame : request.key = key
      · simp [hsame]
      · simp [hrest, hsame, Ne.symm hsame]

/-- The stored buckets are known by their keys, and each says when it is full again. -/
structure Stamped (terms : Text → BucketTerms ℚ) (keys : Finset Text) (now : ℚ)
    (state : List (Text × Stored)) : Prop where
  distinct : (state.map (·.1)).Nodup
  tracked : ∀ entry ∈ state, entry.1 ∈ keys
  stamped : ∀ entry ∈ state, entry.2.ts ≤ now ∧ entry.2.fullAt = entry.2.ts +
    max 0 ((terms entry.1).capacity - entry.2.tokens) / max (terms entry.1).refill (1 / 10 ^ 9)

theorem Stamped.mono {keys : Finset Text} {t u : ℚ} {state : List (Text × Stored)}
    (h : Stamped terms keys t state) (htu : t ≤ u) : Stamped terms keys u state :=
  ⟨h.distinct, h.tracked, fun entry hentry =>
    ⟨(h.stamped entry hentry).1.trans htu, (h.stamped entry hentry).2⟩⟩

private theorem Stamped.write {keys : Finset Text} {now : ℚ} {state : List (Text × Stored)}
    {request : BucketRequest} {left : ℚ} (h : Stamped terms keys now state)
    (hterms : request.terms = terms request.key) (hkey : request.key ∈ keys) :
    Stamped terms keys now (write now state request left) := by
  have hothers : ∀ entry ∈ dictErase state request.key, entry ∈ state ∧ entry.1 ≠ request.key := by
    intro entry hentry
    simpa [dictErase] using hentry
  refine ⟨?_, fun entry hentry => ?_, fun entry hentry => ?_⟩
  · have herased : ((dictErase state request.key).map (·.1)).Nodup :=
      h.distinct.sublist (List.filter_sublist.map _)
    rw [InMemoryTokenBucket.write, List.map_append, List.nodup_append]
    refine ⟨herased, List.pairwise_singleton _ _, fun key hin other hother => ?_⟩
    obtain ⟨entry, hentry, rfl⟩ := List.mem_map.mp hin
    rw [List.mem_singleton.mp hother]
    exact (hothers entry hentry).2
  · rcases List.mem_append.mp hentry with hin | hlast
    · exact h.tracked entry (hothers entry hin).1
    · rw [List.mem_singleton.mp hlast]
      exact hkey
  · rcases List.mem_append.mp hentry with hin | hlast
    · exact h.stamped entry (hothers entry hin).1
    · rw [List.mem_singleton.mp hlast, ← hterms]
      exact ⟨le_rfl, rfl⟩

/-- The store stands for the buckets. -/
structure Keeps (terms : Text → BucketTerms ℚ) (keys : Finset Text)
    (buckets : InMemoryTokenBucket) (b : Buckets Text ℚ) : Prop where
  reflects : Reflects terms buckets.state b
  stamped : Stamped terms keys b.now buckets.state

theorem keeps_empty (keys : Finset Text) (now : ℚ) (hrefill : ∀ key, 0 ≤ (terms key).refill) :
    Keeps terms keys empty (fullAt terms now) := by
  refine ⟨fun key t ht => ?_, List.nodup_nil, by simp [empty], by simp [empty]⟩
  have hgain : 0 ≤ (t - now) * (terms key).refill := mul_nonneg (sub_nonneg.mpr ht) (hrefill key)
  exact (BucketTerms.after_eq_capacity ((sub_self _).trans_le hgain)).symm

/-! ### Forgetting -/

/-- A bucket whose moment has come is full from then on. -/
private theorem after_eq_capacity_of_fullAt {keys : Finset Text} {now t : ℚ}
    {state : List (Text × Stored)} (h : Stamped terms keys now state)
    {entry : Text × Stored} (hentry : entry ∈ state)
    (hrefill : 1 / 10 ^ 9 ≤ (terms entry.1).refill) (hfull : entry.2.fullAt ≤ now) (ht : now ≤ t) :
    (terms entry.1).after entry.2.tokens (max 0 (t - entry.2.ts)) = (terms entry.1).capacity := by
  obtain ⟨hts, hstamp⟩ := h.stamped entry hentry
  have hpos : 0 < (terms entry.1).refill := lt_of_lt_of_le (by norm_num) hrefill
  rw [max_eq_left hrefill] at hstamp
  have hlack : max 0 ((terms entry.1).capacity - entry.2.tokens) / (terms entry.1).refill ≤
      t - entry.2.ts := by linarith
  have hgain := (div_le_iff₀ hpos).mp hlack
  have helapsed : t - entry.2.ts ≤ max 0 (t - entry.2.ts) := le_max_right ..
  have hmore := mul_le_mul_of_nonneg_right helapsed hpos.le
  exact BucketTerms.after_eq_capacity ((le_max_right ..).trans (hgain.trans hmore))

/-- **A sweep changes what no bucket holds.** -/
private theorem level_sweep {keys : Finset Text} {now : ℚ} {state : List (Text × Stored)}
    (h : Stamped terms keys now state) (hrefill : ∀ key, 1 / 10 ^ 9 ≤ (terms key).refill)
    (key : Text) {t : ℚ} (ht : now ≤ t) :
    level terms (state.filter fun entry => ¬ entry.2.fullAt ≤ now) key t =
      level terms state key t := by
  have hstays : (∀ stored, dictGet state key = some stored → ¬ stored.fullAt ≤ now) →
      dictGet (state.filter fun entry => ¬ entry.2.fullAt ≤ now) key = dictGet state key := by
    intro hnot
    exact dictGet_filter fun stored hstored => decide_eq_true (hnot stored hstored)
  cases hget : dictGet state key with
  | none =>
    have hsame := hstays fun stored hstored => absurd (hget.symm.trans hstored).symm
      (Option.some_ne_none _)
    rw [level, level, hsame]
  | some stored =>
    have hmem : (key, stored) ∈ state := dictGet_mem hget
    by_cases hfull : stored.fullAt ≤ now
    · -- the key is gone, and its bucket is full
      have hgone : dictGet (state.filter fun entry => ¬ entry.2.fullAt ≤ now) key = none := by
        by_contra hthere
        obtain ⟨other, hother⟩ := Option.ne_none_iff_exists'.mp hthere
        have hin := List.mem_filter.mp (dictGet_mem hother)
        have hsame := (dictGet_eq_some_iff h.distinct).mpr hin.1
        rw [hget, Option.some_inj] at hsame
        subst hsame
        exact of_decide_eq_true hin.2 hfull
      have hlevel := after_eq_capacity_of_fullAt h hmem (hrefill key) hfull ht
      rw [level, level, hgone, hget]
      exact hlevel.symm
    · have hsame := hstays fun other hother => by
        rw [hget, Option.some_inj] at hother
        rwa [← hother]
      rw [level, level, hsame]

/-- **Forgetting keeps what the store stands for**, where no more keys are used than are tracked
and no bucket refills more slowly than a sweep allows for. -/
theorem Keeps.forget {keys : Finset Text} (hkeys : keys.card ≤ maxTrackedBuckets)
    (hrefill : ∀ key, 1 / 10 ^ 9 ≤ (terms key).refill) {buckets : InMemoryTokenBucket}
    {b : Buckets Text ℚ} (h : Keeps terms keys buckets b) :
    Keeps terms keys (forget b.now buckets) b := by
  have hfew : ∀ state : List (Text × Stored), (state.map (·.1)).Nodup →
      (∀ entry ∈ state, entry.1 ∈ keys) →
        state.drop (state.length - maxTrackedBuckets) = state := by
    intro state hdistinct htracked
    have hsubset : (state.map (·.1)).toFinset ⊆ keys := by
      intro key hin
      obtain ⟨entry, hentry, rfl⟩ := List.mem_map.mp (List.mem_toFinset.mp hin)
      exact htracked entry hentry
    have hlength := Finset.card_le_card hsubset
    rw [List.toFinset_card_of_nodup hdistinct, List.length_map] at hlength
    have hnone : state.length - maxTrackedBuckets = 0 := by omega
    rw [hnone, List.drop_zero]
  rw [InMemoryTokenBucket.forget]
  by_cases hsweep : (buckets.takes + 1) % sweepEvery = 0
  · have hswept : Stamped terms keys b.now
        (buckets.state.filter fun entry => ¬ entry.2.fullAt ≤ b.now) :=
      ⟨h.stamped.distinct.sublist (List.filter_sublist.map _),
        fun entry hentry => h.stamped.tracked entry (List.mem_filter.mp hentry).1,
        fun entry hentry => h.stamped.stamped entry (List.mem_filter.mp hentry).1⟩
    simp only [if_pos hsweep, hfew _ hswept.distinct hswept.tracked]
    refine ⟨fun key t ht => ?_, hswept⟩
    rw [level_sweep h.stamped hrefill key ht]
    exact h.reflects key t ht
  · simp only [if_neg hsweep, hfew _ h.stamped.distinct h.stamped.tracked]
    exact ⟨h.reflects, h.stamped⟩

/-! ### A take -/

theorem Reflects.advance {state : List (Text × Stored)} {b : Buckets Text ℚ}
    (hrefill : ∀ key, 0 ≤ (terms key).refill) (h : Reflects terms state b) {now : ℚ}
    (hnow : b.now ≤ now) : Reflects terms state (b.advance terms now) := by
  intro key t ht
  change now ≤ t at ht
  exact (h key t (hnow.trans ht)).trans (Buckets.after_held_advance hrefill b key ht).symm

/-- What a bucket of the call holds at its moment. -/
theorem available_eq_held {state : List (Text × Stored)} {b : Buckets Text ℚ}
    (h : Reflects terms state b) {request : BucketRequest}
    (hterms : request.terms = terms request.key) {now : ℚ} (hnow : b.now ≤ now) :
    available state now request = (b.advance terms now).held request.key := by
  rw [available_eq hterms]
  exact h request.key now hnow

private theorem weigh_congr {f g : BucketRequest → ℚ} (cost : ℤ)
    {requests : List BucketRequest} (h : ∀ request ∈ requests, f request = g request) :
    weigh f cost requests = weigh g cost requests := by
  rw [weigh, weigh]
  refine List.foldl_ext _ _ _ fun weighed request hrequest => ?_
  rw [h request hrequest]

/-- A call is refused where a bucket refuses it. -/
theorem weigh_fst_eq_none_iff (f : BucketRequest → ℚ) (cost : ℤ)
    (requests : List BucketRequest) :
    (weigh f cost requests).1 = none ↔ ∀ request ∈ requests, (cost : ℚ) ≤ f request := by
  have hfrom : ∀ weighed : Option BucketRequest × WithTop ℚ,
      (requests.foldl (fun weighed request =>
        if f request < cost then
          (weighed.1 <|> some request, max weighed.2 (waitFor request (f request) cost))
        else weighed) weighed).1 = none ↔
        weighed.1 = none ∧ ∀ request ∈ requests, (cost : ℚ) ≤ f request := by
    induction requests with
    | nil => simp
    | cons request rest ih =>
      intro weighed
      rw [List.foldl_cons, ih, List.forall_mem_cons]
      by_cases hless : f request < cost
      · rw [if_pos hless]
        have hnot : ¬ (cost : ℚ) ≤ f request := not_le.mpr hless
        constructor
        · intro hnone
          cases hw : weighed.1 with
          | none => simp [hw] at hnone
          | some other => simp [hw] at hnone
        · intro hall
          exact absurd hall.2.1 hnot
      · rw [if_neg hless]
        exact ⟨fun h => ⟨h.1, not_lt.mp hless, h.2⟩, fun h => ⟨h.1, h.2.2⟩⟩
  rw [weigh, hfrom]
  simp

private theorem Stamped.writes {keys : Finset Text} {now : ℚ} {requests : List BucketRequest}
    {state : List (Text × Stored)} (h : Stamped terms keys now state) (left : Text → ℚ)
    (hterms : ∀ request ∈ requests, request.terms = terms request.key)
    (hkeys : ∀ request ∈ requests, request.key ∈ keys) :
    Stamped terms keys now (requests.foldl (fun state request =>
      InMemoryTokenBucket.write now state request (left request.key)) state) := by
  induction requests generalizing state with
  | nil => exact h
  | cons request rest ih =>
    rw [List.forall_mem_cons] at hterms hkeys
    exact ih (h.write hterms.1 hkeys.1) hterms.2 hkeys.2

/-- Buckets written at their moment hold what was left in them from then on. -/
private theorem Reflects.writes {state : List (Text × Stored)} {b : Buckets Text ℚ}
    (h : Reflects terms state b) (left : Text → ℚ) (requests : List BucketRequest) :
    Reflects terms (requests.foldl (fun state request =>
        InMemoryTokenBucket.write b.now state request (left request.key)) state)
      ⟨b.now, fun key => if key ∈ requests.map (·.key) then left key else b.held key⟩ := by
  intro key t ht
  change b.now ≤ t at ht
  have hwritten := dictGet_writes b.now left requests state key
  set state' := requests.foldl (fun state request =>
    InMemoryTokenBucket.write b.now state request (left request.key)) state
  have hlevel : ∀ state : List (Text × Stored), level terms state key t =
      (((dictGet state key).map fun stored => (stored.tokens, stored.ts)).map fun stored =>
        (terms key).after stored.1 (max 0 (t - stored.2))).getD (terms key).capacity := by
    intro state
    rw [level]
    cases dictGet state key <;> rfl
  have helapsed : max 0 (t - b.now) = t - b.now := max_eq_right (sub_nonneg.mpr ht)
  rw [hlevel, hwritten]
  by_cases hin : key ∈ requests.map (·.key)
  · simp only [if_pos hin, Option.map_some, Option.getD_some, helapsed]
  · simp only [if_neg hin]
    rw [← hlevel]
    exact h key t ht

/-- **One take of the process's buckets**, whatever it forgets that keeps what it stands for. -/
theorem takeThen_refines {keys : Finset Text} (hrefill : ∀ key, 0 ≤ (terms key).refill)
    {forget : ℚ → InMemoryTokenBucket → InMemoryTokenBucket}
    (hforget : ∀ {buckets b}, Keeps terms keys buckets b →
      Keeps terms keys (forget b.now buckets) b) :
    Refines (takeThen forget) terms
      (fun call => call.On terms ∧ ∀ request ∈ call.requests, request.key ∈ keys)
      answer (Keeps terms keys) where
  step := by
    intro buckets b call h hcall hnow
    obtain ⟨hterms, hkeys⟩ := hcall
    have hadvanced := h.reflects.advance hrefill hnow
    have hstamped := h.stamped.mono hnow
    by_cases hnone : call.requests = []
    · have htake : b.take terms call.asTake = b.advance terms call.moment := by
        simp [Buckets.take, Call.asTake, hnone, Buckets.refusal, Buckets.debit]
      rw [takeThen, if_pos hnone, htake, answer, if_pos hnone]
      exact ⟨⟨hadvanced, hstamped⟩, rfl⟩
    · have havailable : ∀ request ∈ call.requests, available buckets.state call.moment request =
          (b.advance terms call.moment).held request.key :=
        fun request hrequest => available_eq_held h.reflects (hterms request hrequest) hnow
      have hweigh := weigh_congr call.cost havailable
      have hrefusal : (weigh (fun request => (b.advance terms call.moment).held request.key)
          call.cost call.requests).1 = none ↔
          (b.advance terms call.moment).refusal (call.requests.map (·.key)) call.cost = none := by
        rw [weigh_fst_eq_none_iff, Buckets.refusal_eq_none_iff, List.forall_mem_map]
      -- what is left in each bucket is what the buckets hold after the take
      have hleft : call.requests.foldl (fun state request =>
          write call.moment state request
            (if (weigh (fun request => (b.advance terms call.moment).held request.key) call.cost
                call.requests).1 = none
              then available buckets.state call.moment request - call.cost
              else available buckets.state call.moment request)) buckets.state =
          call.requests.foldl (fun state request => write call.moment state request
            (leftIn (b.advance terms call.moment) call request.key)) buckets.state := by
        refine List.foldl_ext _ _ _ fun state request hrequest => ?_
        simp only [havailable request hrequest, hrefusal, leftIn]
      have hwrites := hadvanced.writes (leftIn (b.advance terms call.moment) call) call.requests
      have hwritten := hstamped.writes (leftIn (b.advance terms call.moment) call)
        hterms hkeys
      rw [takeThen, if_neg hnone, answer, if_neg hnone, hweigh, take_eq]
      generalize weigh (fun request => (b.advance terms call.moment).held request.key)
        call.cost call.requests = weighed at hleft ⊢
      obtain ⟨refused, wait⟩ := weighed
      simp only at hleft ⊢
      rw [hleft]
      have hkeeps : Keeps terms keys { buckets with state := _ } _ := ⟨hwrites, hwritten⟩
      exact ⟨hforget hkeeps, trivial⟩

/-- The process's buckets are buckets, where no more keys are used than are tracked and no bucket
refills more slowly than a sweep allows for. -/
theorem refines {keys : Finset Text} (hkeys : keys.card ≤ maxTrackedBuckets)
    (hrefill : ∀ key, 1 / 10 ^ 9 ≤ (terms key).refill) :
    Refines take terms (fun call => call.On terms ∧ ∀ request ∈ call.requests, request.key ∈ keys)
      answer (Keeps terms keys) := by
  have hnonneg : ∀ key, 0 ≤ (terms key).refill := fun key =>
    le_trans (by norm_num) (hrefill key)
  exact takeThen_refines hnonneg fun h => h.forget hkeys hrefill

/-- Where nothing is forgotten they are, at whatever rate they refill. -/
theorem refines_keeping (keys : Finset Text) (hrefill : ∀ key, 0 ≤ (terms key).refill) :
    Refines takeKeeping terms
      (fun call => call.On terms ∧ ∀ request ∈ call.requests, request.key ∈ keys)
      answer (Keeps terms keys) :=
  takeThen_refines hrefill fun h => ⟨h.reflects, h.stamped⟩

end InMemoryTokenBucket

/-! ### The shared buckets -/

namespace RedisTokenBucket

/-- What a bucket holds at a moment: Redis has dropped one that has expired. -/
def level (terms : Text → BucketTerms ℚ) (state : RedisTokenBucket) (key : Text) (t : ℚ) : ℚ :=
  match (dictGet state key).filter fun stored => t < stored.expires with
  | none => (terms key).capacity
  | some stored => (terms key).after stored.tokens (max 0 (t - stored.ts))

/-- The store stands for the buckets, none of which was ever debited beyond what it held. -/
structure Keeps (terms : Text → BucketTerms ℚ) (state : RedisTokenBucket) (b : Buckets Text ℚ) :
    Prop where
  reflects : ∀ key t, b.now ≤ t →
    level terms state key t = (terms key).after (b.held key) (t - b.now)
  solvent : ∀ key, min 0 (terms key).capacity ≤ b.held key

/-- What the shared buckets answer. -/
def answer (b : Buckets Text ℚ) (call : Call) : BucketDecision :=
  if call.requests = [] then allowedDecision
  else
    let reply := weigh (fun request => b.held request.key) call.cost call.requests
    { allowed := reply.allowed
      retryAfterSeconds := ((reply.retryMs / 1000 : ℚ) : WithTop ℚ)
      refused := if reply.refused = 0 then none else call.requests[reply.refused - 1]? }

variable {terms : Text → BucketTerms ℚ}

theorem keeps_empty (now : ℚ) (hrefill : ∀ key, 0 ≤ (terms key).refill) :
    Keeps terms [] (fullAt terms now) := by
  refine ⟨fun key t ht => ?_, fun key => min_le_right ..⟩
  have hgain : 0 ≤ (t - now) * (terms key).refill := mul_nonneg (sub_nonneg.mpr ht) (hrefill key)
  exact (BucketTerms.after_eq_capacity ((sub_self _).trans_le hgain)).symm

theorem Keeps.advance {state : RedisTokenBucket} {b : Buckets Text ℚ}
    (hrefill : ∀ key, 0 ≤ (terms key).refill) (h : Keeps terms state b) {now : ℚ}
    (hnow : b.now ≤ now) : Keeps terms state (b.advance terms now) := by
  refine ⟨fun key t ht => ?_, fun key => ?_⟩
  · change now ≤ t at ht
    have hlater := Buckets.after_held_advance hrefill b key ht
    exact (h.reflects key t (hnow.trans ht)).trans hlater.symm
  · have hgain : 0 ≤ (now - b.now) * (terms key).refill :=
      mul_nonneg (sub_nonneg.mpr hnow) (hrefill key)
    have hsolvent := h.solvent key
    exact le_min (min_le_right ..) (hsolvent.trans (by linarith))

private theorem available_eq {state : RedisTokenBucket} {request : BucketRequest}
    (h : request.terms = terms request.key) (now : ℚ) :
    available state now request = level terms state request.key now := by
  have helapsed : ∀ ts : ℚ, (if now - ts < 0 then 0 else now - ts) = max 0 (now - ts) := by
    intro ts
    split_ifs with hless
    · exact (max_eq_left hless.le).symm
    · exact (max_eq_right (not_lt.mp hless)).symm
  rw [available, level, ← h]
  simp only [helapsed]
  cases (dictGet state request.key).filter fun stored => now < stored.expires with
  | none =>
    change min (request.capacity : ℚ) (request.capacity + max 0 (now - now) * _) = _
    rw [sub_self, max_self, zero_mul, add_zero, min_self]
    rfl
  | some stored => rfl

/-- When a bucket that is written now expires. -/
private def expiry (terms : BucketTerms ℚ) (now : ℚ) : ℚ :=
  now + max 60 (⌈terms.capacity / terms.refill⌉ + 1 : ℤ)

/-- A solvent bucket is full by the time Redis drops it. -/
private theorem after_eq_capacity_of_expired {bucket : BucketTerms ℚ} (hrefill : 0 < bucket.refill)
    {now t left : ℚ} (hleft : min 0 bucket.capacity ≤ left) (hexpired : expiry bucket now ≤ t) :
    bucket.after left (t - now) = bucket.capacity := by
  refine BucketTerms.after_eq_capacity ?_
  have hceil : bucket.capacity / bucket.refill ≤ ⌈bucket.capacity / bucket.refill⌉ := Int.le_ceil _
  have hmax := le_max_right (60 : ℚ) ((⌈bucket.capacity / bucket.refill⌉ + 1 : ℤ) : ℚ)
  have hminute := le_max_left (60 : ℚ) ((⌈bucket.capacity / bucket.refill⌉ + 1 : ℤ) : ℚ)
  rw [expiry] at hexpired
  push_cast at hexpired hmax hminute
  have htime : bucket.capacity / bucket.refill ≤ t - now := by linarith
  have hgain := (div_le_iff₀ hrefill).mp htime
  have hpositive : 0 ≤ (t - now) * bucket.refill := mul_nonneg (by linarith) hrefill.le
  rcases le_total 0 bucket.capacity with hcapacity | hcapacity
  · rw [min_eq_left hcapacity] at hleft
    linarith
  · rw [min_eq_right hcapacity] at hleft
    linarith

/-- What a bucket of a call holds at its moment. -/
theorem available_eq_held {state : RedisTokenBucket} {b : Buckets Text ℚ} (h : Keeps terms state b)
    {request : BucketRequest} (hterms : request.terms = terms request.key) {now : ℚ}
    (hnow : b.now ≤ now) :
    available state now request = (b.advance terms now).held request.key := by
  rw [available_eq hterms]
  exact h.reflects request.key now hnow

/-! ### A shared take -/

private theorem weigh_congr {f g : BucketRequest → ℚ} (cost : ℤ) {requests : List BucketRequest}
    (h : ∀ request ∈ requests, f request = g request) :
    weigh f cost requests = weigh g cost requests := by
  rw [weigh, weigh]
  refine List.foldl_ext _ _ _ fun reply entry hentry => ?_
  have hrequest : entry.1 ∈ requests := (List.mem_zipIdx' hentry).2 ▸ List.getElem_mem _
  rw [Reply.next, Reply.next, h entry.1 hrequest]

/-- What the first pass has found, wherever it stands. -/
private theorem weigh_from (f : BucketRequest → ℚ) (cost : ℤ) (requests : List BucketRequest)
    (n : ℕ) (reply : Reply) :
    ((requests.zipIdx n).foldl (Reply.next f cost) reply).allowed =
        (reply.allowed && decide (∀ request ∈ requests, (cost : ℚ) ≤ f request)) := by
  induction requests generalizing n reply with
  | nil => simp
  | cons request rest ih =>
    rw [List.zipIdx_cons, List.foldl_cons, ih]
    by_cases hless : f request < cost
    · have hnot : ¬ (cost : ℚ) ≤ f request := not_le.mpr hless
      simp [Reply.next, hless, hnot]
    · have hle : (cost : ℚ) ≤ f request := not_lt.mp hless
      simp [Reply.next, hless, hle]

theorem weigh_allowed (f : BucketRequest → ℚ) (cost : ℤ) (requests : List BucketRequest) :
    (weigh f cost requests).allowed = decide (∀ request ∈ requests, (cost : ℚ) ≤ f request) := by
  have hfrom := weigh_from f cost requests 0 ⟨true, 0, 0⟩
  rw [Bool.true_and] at hfrom
  exact hfrom

private theorem dictGet_writes (now : ℚ) (left : Text → ℚ) {requests : List BucketRequest}
    (hterms : ∀ request ∈ requests, request.terms = terms request.key) (state : RedisTokenBucket)
    (key : Text) :
    dictGet (requests.foldl (fun state request => write now state request (left request.key))
        state) key =
      if key ∈ requests.map (·.key) then some ⟨left key, now, expiry (terms key) now⟩
      else dictGet state key := by
  induction requests generalizing state with
  | nil => simp
  | cons request rest ih =>
    rw [List.forall_mem_cons] at hterms
    have hexpiry : now + max 60 (⌈request.capacity / request.refillPerSecond⌉ + 1 : ℤ) =
        expiry (terms request.key) now := by
      rw [← hterms.1]
      rfl
    rw [List.foldl_cons, ih hterms.2, write, dictGet_dictSet, hexpiry]
    simp only [List.map_cons, List.mem_cons]
    by_cases hrest : key ∈ rest.map (·.key)
    · simp [hrest]
    · by_cases hsame : key = request.key
      · simp [hsame]
      · simp [hrest, hsame]

/-- Buckets written at their moment hold what was left in them from then on. -/
private theorem level_writes {state : RedisTokenBucket} {b : Buckets Text ℚ}
    (hrefill : ∀ key, 0 < (terms key).refill) (h : Keeps terms state b) (left : Text → ℚ)
    {requests : List BucketRequest}
    (hleft : ∀ key ∈ requests.map (·.key), min 0 (terms key).capacity ≤ left key)
    (hterms : ∀ request ∈ requests, request.terms = terms request.key) :
    Keeps terms (requests.foldl (fun state request => write b.now state request (left request.key))
        state)
      ⟨b.now, fun key => if key ∈ requests.map (·.key) then left key else b.held key⟩ := by
  refine ⟨fun key t ht => ?_, fun key => ?_⟩
  · change b.now ≤ t at ht
    have hwritten := dictGet_writes b.now left hterms state key
    by_cases hin : key ∈ requests.map (·.key)
    · rw [if_pos hin] at hwritten
      rw [level, hwritten]
      simp only [if_pos hin]
      by_cases halive : t < expiry (terms key) b.now
      · have helapsed : max 0 (t - b.now) = t - b.now := max_eq_right (sub_nonneg.mpr ht)
        simp only [Option.filter_some, decide_eq_true halive, if_true, helapsed]
      · have hfull := after_eq_capacity_of_expired (hrefill key) (hleft key hin) (not_lt.mp halive)
        simp only [Option.filter_some, decide_eq_false halive, Bool.false_eq_true, if_false]
        exact hfull.symm
    · rw [if_neg hin] at hwritten
      have hsame := h.reflects key t ht
      rw [level] at hsame ⊢
      rw [hwritten]
      simp only [if_neg hin]
      exact hsame
  · by_cases hin : key ∈ requests.map (·.key)
    · simp only [if_pos hin]
      exact hleft key hin
    · simp only [if_neg hin]
      exact h.solvent key

/-- **One shared take**: an entry that has expired would be full. -/
theorem refines (hrefill : ∀ key, 0 < (terms key).refill) :
    Refines take terms (Call.On terms) answer (Keeps terms) where
  step := by
    intro state₀ b call h hterms hnow
    have hadvanced := h.advance (fun key => (hrefill key).le) hnow
    by_cases hnone : call.requests = []
    · have htake : b.take terms call.asTake = b.advance terms call.moment := by
        simp [Buckets.take, Call.asTake, hnone, Buckets.refusal, Buckets.debit]
      rw [take, if_pos hnone, htake, answer, if_pos hnone]
      exact ⟨hadvanced, rfl⟩
    · have havailable : ∀ request ∈ call.requests, available state₀ call.moment request =
          (b.advance terms call.moment).held request.key :=
        fun request hrequest => available_eq_held h (hterms request hrequest) hnow
      have hweigh := weigh_congr call.cost havailable
      have hallowed : (weigh (fun request => (b.advance terms call.moment).held request.key)
          call.cost call.requests).allowed =
          decide ((b.advance terms call.moment).refusal (call.requests.map (·.key)) call.cost =
            none) := by
        rw [weigh_allowed]
        simp only [Buckets.refusal_eq_none_iff, List.forall_mem_map]
      have hsolvent : ∀ key ∈ call.requests.map (·.key), min 0 (terms key).capacity ≤
          leftIn (b.advance terms call.moment) call key := by
        intro key hkey
        rw [leftIn]
        split_ifs with hrefused
        · have hcost := Buckets.refusal_eq_none_iff.mp hrefused key hkey
          exact (min_le_left ..).trans (sub_nonneg.mpr hcost)
        · exact hadvanced.solvent key
      have hleft : call.requests.foldl (fun state request =>
          write call.moment state request
            (if (weigh (fun request => (b.advance terms call.moment).held request.key) call.cost
                call.requests).allowed = true
              then available state₀ call.moment request - call.cost
              else available state₀ call.moment request)) state₀ =
          call.requests.foldl (fun state request => write call.moment state request
            (leftIn (b.advance terms call.moment) call request.key)) state₀ := by
        refine List.foldl_ext _ _ _ fun state request hrequest => ?_
        simp only [havailable request hrequest, hallowed, decide_eq_true_eq, leftIn]
      have hwrites := level_writes hrefill hadvanced (leftIn (b.advance terms call.moment) call)
        hsolvent hterms
      rw [take, if_neg hnone, answer, if_neg hnone, take_eq, takeTokens, hweigh]
      simp only
      rw [hleft]
      exact ⟨hwrites, trivial⟩

end RedisTokenBucket

end AiraGateway.Ratelimit