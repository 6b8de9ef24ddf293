import AiraGateway.Ratelimit.Simulation
import Mathlib.Tactic.NormNum

/-!
# What the process's store forgets

Every so many takes the buckets of a process that are full again are dropped. That changes no
decision (`InMemoryTokenBucket.decisions_take_eq`) where no bucket refills by less than a billionth
of a token a second; `perMinute` builds none that does (`perMinute_refill`). A bucket that does is
dropped before it is full, and is full at once (`InMemoryTokenBucket.drowsyRun_allowed`).
-/

namespace AiraGateway.Ratelimit

/-- A bucket that is built from a rate refills by a sixtieth of a token a second, or faster. -/
theorem perMinute_refill (key label : Text) (limitRpm : ℤ) (burst : Option ℤ) :
    1 / 60 ≤ (perMinute key limitRpm label burst).terms.refill ∧
      1 ≤ (perMinute key limitRpm label burst).terms.capacity := by
  have hrate : (1 : ℤ) ≤ max minimumRpm limitRpm := le_max_left ..
  have hcast : (1 : ℚ) ≤ (max minimumRpm limitRpm : ℤ) := by exact_mod_cast hrate
  constructor
  · change (1 : ℚ) / 60 ≤ (max minimumRpm limitRpm : ℤ) / 60
    linarith
  · cases burst with
    | none => exact hcast
    | some burst =>
      change (1 : ℚ) ≤ ((if 0 < burst then burst else max minimumRpm limitRpm : ℤ) : ℚ)
      split_ifs with hburst
      · exact_mod_cast hburst
      · exact hcast

/-! ### Runs -/

/-- Takes on a clock that never goes back. -/
def Run (ok : Call → Prop) (calls : List Call) : Prop :=
  (calls.Pairwise fun c d => c.moment ≤ d.moment) ∧ ∀ call ∈ calls, ok call

/-- A run has a moment when it starts. -/
theorem Run.ordered {ok : Call → Prop} {calls : List Call} (h : Run ok calls) :
    ∃ now, Ordered now calls := by
  cases calls with
  | nil => exact ⟨0, by simp [Ordered]⟩
  | cons call rest =>
    refine ⟨call.moment, ?_, h.1⟩
    rw [List.forall_mem_cons]
    exact ⟨le_rfl, (List.pairwise_cons.mp h.1).1⟩

section

variable {σ : Type} (take : σ → ℚ → List BucketRequest → ℤ → σ × BucketDecision)

/-- What a call is answered after others. -/
def decisionAfter (s : σ) (before : List Call) (call : Call) : BucketDecision :=
  (take (storeAfter take s before) call.moment call.requests call.cost).2

theorem storeAfter_append (s : σ) (before rest : List Call) :
    storeAfter take s (before ++ rest) = storeAfter take (storeAfter take s before) rest := by
  induction before generalizing s with
  | nil => rfl
  | cons call before ih => exact ih _

private theorem decisions_concat (s : σ) (before : List Call) (call : Call) :
    decisions take s (before ++ [call]) =
      decisions take s before ++ [decisionAfter take s before call] := by
  induction before generalizing s with
  | nil => rfl
  | cons first before ih => exact congrArg (_ :: ·) (ih _)

/-- What two stores answer to the last take of a run they answer alike. -/
theorem decisionAfter_eq_of_decisions_eq {τ : Type}
    {take' : τ → ℚ → List BucketRequest → ℤ → τ × BucketDecision} {s : σ} {s' : τ}
    {before : List Call} {call : Call}
    (h : decisions take s (before ++ [call]) = decisions take' s' (before ++ [call])) :
    decisionAfter take s before call = decisionAfter take' s' before call := by
  rw [decisions_concat, decisions_concat] at h
  exact List.singleton_inj.mp (List.append_inj_right' h rfl)

end

namespace InMemoryTokenBucket

variable {terms : Text → BucketTerms ℚ}

/-- **What is forgotten changes no decision.** -/
theorem decisions_take_eq (hrefill : ∀ key, 1 / 10 ^ 9 ≤ (terms key).refill) {calls : List Call}
    (hclock : calls.Pairwise fun c d => c.moment ≤ d.moment)
    (hterms : ∀ call ∈ calls, call.On terms)
    (hkeys : ((calls.flatMap (·.requests)).map (·.key)).toFinset.card < maxTrackedBuckets) :
    decisions take empty calls = decisions takeKeeping empty calls := by
  set keys := ((calls.flatMap (·.requests)).map (·.key)).toFinset
  have hnonneg : ∀ key, 0 ≤ (terms key).refill := fun key => le_trans (by norm_num) (hrefill key)
  have hok : ∀ call ∈ calls, call.On terms ∧ ∀ request ∈ call.requests, request.key ∈ keys := by
    intro call hcall
    refine ⟨hterms call hcall, fun request hrequest => ?_⟩
    exact List.mem_toFinset.mpr (List.mem_map_of_mem (List.mem_flatMap.mpr ⟨call, hcall, hrequest⟩))
  obtain ⟨now, hordered⟩ := Run.ordered ⟨hclock, hok⟩
  have hstart : Keeps terms keys empty (fullAt terms now) := keeps_empty keys now hnonneg
  rw [(refines hkeys.le hrefill).decisions_eq hstart hok hordered,
    (refines_keeping keys hnonneg).decisions_eq hstart hok hordered]

theorem decisions_take_eq_usual :
    decisions take empty [⟨0, [⟨['b'], 60, 1, []⟩], 60⟩, ⟨1, [⟨['b'], 60, 1, []⟩], 2⟩] =
      decisions takeKeeping empty
        [⟨0, [⟨['b'], 60, 1, []⟩], 60⟩, ⟨1, [⟨['b'], 60, 1, []⟩], 2⟩] := by
  have hrefill : ∀ key, 1 / 10 ^ 9 ≤ ((fun _ => ⟨60, 1⟩ : Text → BucketTerms ℚ) key).refill := by
    intro key
    norm_num
  refine decisions_take_eq hrefill ?_ ?_ ?_
  · simp
  · simp [Call.On, BucketRequest.terms]
  · decide

/-! ### A bucket that refills too slowly -/

/-- A bucket that refills by a ten-billionth of a token a second. -/
def drowsy : BucketRequest := ⟨['a'], 1, 1 / 10 ^ 10, []⟩

def usual : BucketRequest := ⟨['b'], 60, 1, []⟩

/-- The drowsy bucket is emptied, and takes of another go on until the next one sweeps. -/
def beforeSweep : List Call :=
  ⟨0, [drowsy], 1⟩ :: ⟨0, [usual], 0⟩ :: List.replicate 1021 ⟨0, [usual], 0⟩

/-- The drowsy bucket is asked for again after a billion seconds, when it holds a tenth of a
token. -/
def drowsyRun : List Call := beforeSweep ++ [⟨10 ^ 9, [usual], 0⟩, ⟨10 ^ 9, [drowsy], 1⟩]

/-- The two buckets as they are until the sweep. -/
private def waiting : List (Text × Stored) :=
  [(['a'], ⟨0, 0, 10 ^ 9⟩), (['b'], ⟨60, 0, 0⟩)]

/-- Nothing but the count changes while no sweep is due, and nothing at all is forgotten. -/
private theorem takeThen_waiting
    {forget : ℚ → InMemoryTokenBucket → InMemoryTokenBucket} (n : ℕ)
    (hkept : forget 0 ⟨waiting, n⟩ = ⟨waiting, n + 1⟩) :
    (takeThen forget ⟨waiting, n⟩ 0 [usual] 0).1 = ⟨waiting, n + 1⟩ := by
  have hweigh : weigh (available waiting 0) 0 [usual] = (none, 0) := by decide +kernel
  have hwritten : [usual].foldl (fun state request =>
      write 0 state request (available waiting 0 request - (0 : ℤ))) waiting = waiting := by
    decide +kernel
  rw [takeThen, if_neg (List.cons_ne_nil _ _), hweigh]
  simp only [if_true]
  rw [hwritten, hkept]

private theorem storeAfter_beforeSweep (forget : ℚ → InMemoryTokenBucket → InMemoryTokenBucket)
    (hkept : ∀ state : List (Text × Stored), state.length ≤ 2 → ∀ n < 1023,
      forget 0 ⟨state, n⟩ = ⟨state, n + 1⟩) :
    storeAfter (takeThen forget) empty beforeSweep = ⟨waiting, 1023⟩ := by
  have hfirst : (takeThen forget empty 0 [drowsy] 1).1 = ⟨waiting.take 1, 1⟩ := by
    have hweigh : weigh (available [] 0) 1 [drowsy] = (none, 0) := by decide +kernel
    have hwritten : [drowsy].foldl (fun state request =>
        write 0 state request (available [] 0 request - (1 : ℤ))) [] = waiting.take 1 := by
      decide +kernel
    rw [takeThen, if_neg (List.cons_ne_nil _ _), empty, hweigh]
    simp only [if_true]
    rw [hwritten]
    exact hkept _ (by decide) 0 (by omega)
  have hsecond : (takeThen forget ⟨waiting.take 1, 1⟩ 0 [usual] 0).1 = ⟨waiting, 2⟩ := by
    have hweigh : weigh (available (waiting.take 1) 0) 0 [usual] = (none, 0) := by decide +kernel
    have hwritten : [usual].foldl (fun state request =>
        write 0 state request (available (waiting.take 1) 0 request - (0 : ℤ)))
          (waiting.take 1) = waiting := by
      decide +kernel
    rw [takeThen, if_neg (List.cons_ne_nil _ _), hweigh]
    simp only [if_true]
    rw [hwritten]
    exact hkept _ (by decide) 1 (by omega)
  have hrest : ∀ k n, n + k ≤ 1023 → storeAfter (takeThen forget) ⟨waiting, n⟩
      (List.replicate k ⟨0, [usual], 0⟩) = ⟨waiting, n + k⟩ := by
    intro k
    induction k with
    | zero => exact fun n _ => rfl
    | succ k ih =>
      intro n hn
      have hnext := takeThen_waiting n (hkept waiting (by decide) n (by omega))
      rw [List.replicate_succ, storeAfter, hnext, ih (n + 1) (by omega)]
      congr 1
      omega
  rw [beforeSweep, storeAfter, hfirst, storeAfter, hsecond]
  exact hrest 1021 2 (by omega)

/-- What the two stores answer in the end: the sweep gave the drowsy bucket its token back. -/
theorem drowsyRun_allowed :
    (decisionAfter take empty (beforeSweep ++ [⟨10 ^ 9, [usual], 0⟩])
        ⟨10 ^ 9, [drowsy], 1⟩).allowed = true ∧
      (decisionAfter takeKeeping empty (beforeSweep ++ [⟨10 ^ 9, [usual], 0⟩])
        ⟨10 ^ 9, [drowsy], 1⟩).allowed = false := by
  have hkept : ∀ state : List (Text × Stored), state.length ≤ 2 → ∀ n < 1023,
      forget 0 ⟨state, n⟩ = ⟨state, n + 1⟩ := by
    intro state hfew n hn
    have hnot : ¬ (n + 1) % sweepEvery = 0 := by
      rw [sweepEvery]
      omega
    have hroom : state.length - maxTrackedBuckets = 0 := by
      rw [maxTrackedBuckets]
      omega
    simp only [forget, if_neg hnot, hroom, List.drop_zero]
  have hswept := storeAfter_beforeSweep forget hkept
  have hkeeping := storeAfter_beforeSweep
    (fun _ buckets => { buckets with takes := buckets.takes + 1 }) fun _ _ _ _ => rfl
  constructor
  · rw [decisionAfter, storeAfter_append, take, hswept]
    decide +kernel
  · rw [decisionAfter, storeAfter_append, takeKeeping, hkeeping]
    decide +kernel

/-- The terms of the two buckets. -/
def drowsyTerms (key : Text) : BucketTerms ℚ := if key = ['a'] then drowsy.terms else usual.terms

theorem drowsyRun_run : Run (fun call => call.On drowsyTerms ∧
    ∀ request ∈ call.requests, request.key ∈ ({['a'], ['b']} : Finset Text)) drowsyRun := by
  have hbefore : ∀ call ∈ beforeSweep, call.moment = 0 ∧
      (call.requests = [drowsy] ∨ call.requests = [usual]) := by
    intro call hcall
    rw [beforeSweep, List.mem_cons, List.mem_cons, List.mem_replicate] at hcall
    obtain rfl | rfl | ⟨-, rfl⟩ := hcall
    · exact ⟨rfl, Or.inl rfl⟩
    · exact ⟨rfl, Or.inr rfl⟩
    · exact ⟨rfl, Or.inr rfl⟩
  have hafter : ∀ call ∈ ([⟨10 ^ 9, [usual], 0⟩, ⟨10 ^ 9, [drowsy], 1⟩] : List Call),
      call.moment = 10 ^ 9 ∧ (call.requests = [drowsy] ∨ call.requests = [usual]) := by
    simp
  constructor
  · rw [drowsyRun, List.pairwise_append]
    refine ⟨?_, by simp, fun c hc d hd => ?_⟩
    · exact List.pairwise_of_forall_mem_list fun c hc d hd => by
        rw [(hbefore c hc).1, (hbefore d hd).1]
    · rw [(hbefore c hc).1, (hafter d hd).1]
      norm_num
  · intro call hcall
    have hrequests : call.requests = [drowsy] ∨ call.requests = [usual] := by
      rcases List.mem_append.mp hcall with hin | hin
      · exact (hbefore call hin).2
      · exact (hafter call hin).2
    rw [Call.On]
    rcases hrequests with hone | hone
    · rw [hone]
      simp [drowsy, drowsyTerms]
    · rw [hone]
      simp [usual, drowsyTerms]

/-- **Sweeping changes a decision** where a bucket refills too slowly, however slowly time goes. -/
theorem decisions_take_ne_drowsy :
    ¬ ∀ (terms : Text → BucketTerms ℚ) (calls : List Call), (∀ key, 0 < (terms key).refill) →
      (calls.Pairwise fun c d => c.moment ≤ d.moment) → (∀ call ∈ calls, call.On terms) →
        ((calls.flatMap (·.requests)).map (·.key)).toFinset.card < maxTrackedBuckets →
          decisions take empty calls = decisions takeKeeping empty calls := by
  intro hclaim
  have hrefill : ∀ key, 0 < (drowsyTerms key).refill := by
    intro key
    rw [drowsyTerms]
    split_ifs
    · change (0 : ℚ) < 1 / 10 ^ 10
      norm_num
    · exact one_pos
  have hkeys : ((drowsyRun.flatMap (·.requests)).map (·.key)).toFinset ⊆ {['a'], ['b']} := by
    intro key hkey
    obtain ⟨request, hrequest, rfl⟩ := List.mem_map.mp (List.mem_toFinset.mp hkey)
    obtain ⟨call, hcall, hin⟩ := List.mem_flatMap.mp hrequest
    exact (drowsyRun_run.2 call hcall).2 request hin
  have hfew : ((drowsyRun.flatMap (·.requests)).map (·.key)).toFinset.card < maxTrackedBuckets :=
    (Finset.card_le_card hkeys).trans_lt (by decide)
  have hsame := hclaim drowsyTerms drowsyRun hrefill drowsyRun_run.1
    (fun call hcall => (drowsyRun_run.2 call hcall).1) hfew
  have hsplit : drowsyRun = (beforeSweep ++ [⟨10 ^ 9, [usual], 0⟩]) ++ [⟨10 ^ 9, [drowsy], 1⟩] := by
    rw [drowsyRun, List.append_assoc]
    rfl
  rw [hsplit] at hsame
  have hlast := decisionAfter_eq_of_decisions_eq take hsame
  obtain ⟨htrue, hfalse⟩ := drowsyRun_allowed
  rw [hlast, hfalse] at htrue
  exact Bool.false_ne_true htrue

end InMemoryTokenBucket

end AiraGateway.Ratelimit
