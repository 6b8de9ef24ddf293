import AiraGateway.Anomalies.Suspensions

/-!
# The wait a refused caller is told

A refusal is decided on exact instants (`stillApplies`) and names its wait in whole seconds
(`retryAfter`). The clock is read once to decide, once for each matching block to find the one that
ends last, and once more for its figure.

* `letInAfterRetry_iff`: a check refuses by the blocks in force that match. A caller who waits what
  the refusal names is let in exactly when the last block ends within a second of the decision, or
  a whole number of seconds after it with the clock standing still.
* `refused_after_retry`: a block whose last second is cut off refuses once more.
-/

namespace AiraGateway

/-- The block that ends last, each asked at a reading of its own. -/
def lastToEnd (blocks : List AccessSuspension) (readings : ℕ → ℕ) : Option AccessSuspension :=
  (blocks.zipIdx.argmax fun block => block.1.retryAfter (readings block.2)).map (·.1)

/-- A check at a moment over a table read no later than that, with the readings of the clock that
follow. -/
def checkAt (enforce : Bool) (table : List AccessSuspension) (loaded moment : ℕ)
    (readings : ℕ → ℕ) (c : Caller) : Except Suspended (List Throttle) :=
  if !enforce then .ok []
  else
    let active := (load table loaded).filter (·.stillApplies moment)
    let matching := active.filter (·.matchesCaller c)
    let blocks := matching.filter (·.action = .block)
    match lastToEnd blocks readings with
    | some row => .error (row.refusal (readings blocks.length))
    | none => .ok ((matching.filter (·.throttles)).map (·.throttle))

/-- A row that stops a caller at a moment. -/
structure BlocksCaller (row : AccessSuspension) (moment : ℕ) (c : Caller) : Prop where
  inForce : row.inForce moment = true
  block : row.action = .block
  caller : row.matchesCaller c = true

/-- Every block that stops a caller has ended by a moment. -/
def EndedBy (table : List AccessSuspension) (moment : ℕ) (c : Caller) (later : ℕ) : Prop :=
  ∀ row ∈ table, BlocksCaller row moment c →
    ∀ expires, row.expiresAt = some expires → expires ≤ later

/-- The last block ends within a second, or a whole number of them later by a clock that stands
still. -/
def EndsOnTheSecond (table : List AccessSuspension) (moment last : ℕ) (c : Caller) : Prop :=
  EndedBy table moment c (moment + second) ∨
    last = moment ∧ ∃ k, EndedBy table moment c (moment + k * second) ∧
      ∃ row ∈ table, BlocksCaller row moment c ∧ row.expiresAt = some (moment + k * second)

section

variable {table : List AccessSuspension} {loaded moment : ℕ} {readings : ℕ → ℕ} {c : Caller}

/-- The blocks a check finds. -/
def blocksAt (table : List AccessSuspension) (loaded moment : ℕ) (c : Caller) :
    List AccessSuspension :=
  (((load table loaded).filter (·.stillApplies moment)).filter (·.matchesCaller c)).filter
    (·.action = .block)

theorem mem_blocksAt_iff (hloaded : loaded ≤ moment) {row : AccessSuspension} :
    row ∈ blocksAt table loaded moment c ↔ row ∈ table ∧ BlocksCaller row moment c := by
  simp only [blocksAt, load, List.mem_filter, decide_eq_true_eq,
    AccessSuspension.inForce_eq_stillApplies]
  constructor
  · rintro ⟨⟨⟨⟨hrow, -⟩, happlies⟩, hcaller⟩, hblock⟩
    exact ⟨hrow, by rwa [AccessSuspension.inForce_eq_stillApplies], hblock, hcaller⟩
  · rintro ⟨hrow, hforce, hblock, hcaller⟩
    rw [AccessSuspension.inForce_eq_stillApplies] at hforce
    exact ⟨⟨⟨⟨hrow, AccessSuspension.stillApplies_mono hloaded hforce⟩, hforce⟩, hcaller⟩, hblock⟩

theorem lastToEnd_eq_none {blocks : List AccessSuspension} :
    lastToEnd blocks readings = none ↔ blocks = [] := by
  rw [lastToEnd, Option.map_eq_none_iff, List.argmax_eq_none, List.zipIdx_eq_nil_iff]

/-- The block that speaks is one of them, and where no reading differs none names a longer wait. -/
theorem lastToEnd_eq_some {blocks : List AccessSuspension} {row : AccessSuspension} {m : ℕ}
    (h : lastToEnd blocks readings = some row) :
    row ∈ blocks ∧ ((∀ i < blocks.length, readings i = m) →
      ∀ other ∈ blocks, other.retryAfter m ≤ row.retryAfter m) := by
  rw [lastToEnd, Option.map_eq_some_iff] at h
  obtain ⟨⟨row', i⟩, hmax, rfl⟩ := h
  have hmem := List.argmax_mem hmax
  obtain ⟨hi, hrow⟩ := List.mem_zipIdx' hmem
  refine ⟨hrow ▸ List.getElem_mem hi, fun hstill other hother => ?_⟩
  obtain ⟨j, hj, rfl⟩ := List.getElem_of_mem hother
  have hle := List.le_of_mem_argmax (List.mk_mem_zipIdx_iff_getElem?.mpr
    (List.getElem?_eq_getElem hj)) hmax
  simpa only [hstill i hi, hstill j hj] using hle

/-- **What a check refuses**, and with which row's wait. -/
theorem checkAt_eq_error_iff {e : Suspended} :
    checkAt true table loaded moment readings c = .error e ↔
      ∃ row, lastToEnd (blocksAt table loaded moment c) readings = some row ∧
        e = row.refusal (readings (blocksAt table loaded moment c).length) := by
  have hcheck : checkAt true table loaded moment readings c =
      match lastToEnd (blocksAt table loaded moment c) readings with
      | some row => .error (row.refusal (readings (blocksAt table loaded moment c).length))
      | none => .ok _ := rfl
  rw [hcheck]
  cases lastToEnd (blocksAt table loaded moment c) readings with
  | none => simp
  | some row => simp [eq_comm]

/-- **A check refuses exactly** when a block in force matches the caller. -/
theorem checkAt_refuses_iff (hloaded : loaded ≤ moment) :
    (∃ e, checkAt true table loaded moment readings c = .error e) ↔
      ∃ row ∈ table, BlocksCaller row moment c := by
  simp only [checkAt_eq_error_iff]
  constructor
  · rintro ⟨-, row, hlast, -⟩
    have hmem := (lastToEnd_eq_some (m := moment) hlast).1
    exact ⟨row, ((mem_blocksAt_iff hloaded).mp hmem).1, ((mem_blocksAt_iff hloaded).mp hmem).2⟩
  · rintro ⟨row, hrow, hstops⟩
    have hne : blocksAt table loaded moment c ≠ [] :=
      List.ne_nil_of_mem ((mem_blocksAt_iff hloaded).mpr ⟨hrow, hstops⟩)
    obtain ⟨last, hlast⟩ := Option.ne_none_iff_exists'.mp (mt lastToEnd_eq_none.mp hne)
    exact ⟨_, last, hlast, rfl⟩

/-- What stops a caller later stopped them before. -/
theorem BlocksCaller.mono {row : AccessSuspension} {later : ℕ} (hle : moment ≤ later)
    (h : BlocksCaller row later c) : BlocksCaller row moment c := by
  refine ⟨?_, h.block, h.caller⟩
  have happlies := h.inForce
  rw [AccessSuspension.inForce_eq_stillApplies] at happlies ⊢
  exact AccessSuspension.stillApplies_mono hle happlies

/-- A block with an end stops a caller exactly until then. -/
theorem BlocksCaller.iff_lt {row : AccessSuspension} {expires later : ℕ}
    (h : BlocksCaller row moment c) (hexpires : row.expiresAt = some expires) : BlocksCaller row later c ↔ later < expires := by
  have hlifted : row.liftedAt.isNone = true := by
    have hforce := h.inForce
    rw [AccessSuspension.inForce, Bool.and_eq_true] at hforce
    exact hforce.1
  have hforce : row.inForce later = decide (later < expires) := by
    rw [AccessSuspension.inForce, hlifted, hexpires]
    simp
  constructor
  · intro hstops
    exact of_decide_eq_true (hforce ▸ hstops.inForce)
  · intro hlt
    exact ⟨hforce.trans (decide_eq_true hlt), h.block, h.caller⟩

/-- The rows let a caller in from a moment on exactly where every block has ended by then. -/
theorem letIn_iff_endedBy {later : ℕ} (hle : moment ≤ later)
    (hends : ∀ row ∈ table, BlocksCaller row moment c → row.expiresAt.isSome = true) :
    (∀ moment' ≥ later, ∀ loaded' ≤ moment', ∀ readings',
        ¬ ∃ e, checkAt true table loaded' moment' readings' c = .error e) ↔
      EndedBy table moment c later := by
  constructor
  · intro hin row hrow hstops expires hexpires
    have hopen := hin later le_rfl later le_rfl fun _ => 0
    rw [checkAt_refuses_iff le_rfl] at hopen
    by_contra hlater
    exact hopen ⟨row, hrow, (hstops.iff_lt hexpires).mpr (by omega)⟩
  · intro hended moment' hmoment loaded' hloaded readings'
    rw [checkAt_refuses_iff hloaded]
    rintro ⟨row, hrow, hstops⟩
    have hbefore := hstops.mono (hle.trans hmoment)
    obtain ⟨expires, hexpires⟩ := Option.isSome_iff_exists.mp (hends row hrow hbefore)
    have hlt := (hbefore.iff_lt hexpires).mp hstops
    have hle' := hended row hrow hbefore expires hexpires
    omega

/-- The wait of the block that speaks covers every block exactly where the last one ends with a
second of the decision. -/
theorem endedBy_wait_iff (hloaded : loaded ≤ moment) (hclock : ∀ i, moment ≤ readings i)
    (hmono : Monotone readings)
    (hends : ∀ row ∈ table, BlocksCaller row moment c → row.expiresAt.isSome = true)
    {row : AccessSuspension}
    (hlast : lastToEnd (blocksAt table loaded moment c) readings = some row) :
    EndedBy table moment c
        (moment + row.retryAfter (readings (blocksAt table loaded moment c).length) * second) ↔
      EndsOnTheSecond table moment (readings (blocksAt table loaded moment c).length) c := by
  obtain ⟨hmem, hlongest⟩ := lastToEnd_eq_some (m := moment) hlast
  obtain ⟨hrow, hstops⟩ := (mem_blocksAt_iff hloaded).mp hmem
  obtain ⟨expires, hexpires⟩ := Option.isSome_iff_exists.mp (hends row hrow hstops)
  have hlt : moment < expires := (hstops.iff_lt hexpires).mp hstops
  generalize hlen : (blocksAt table loaded moment c).length = n at hlongest ⊢
  have hnow := hclock n
  have hwait : row.retryAfter (readings n) = max ((expires - readings n) / second) 1 := by
    rw [AccessSuspension.retryAfter, hexpires]
  have hsecond : second = 1000000 := rfl
  constructor
  · intro hended
    have hself := hended row hrow hstops expires hexpires
    rw [hwait, hsecond] at hself hended
    by_cases hone : (expires - readings n) / 1000000 ≤ 1
    · rw [max_eq_right hone, Nat.one_mul] at hended
      exact .inl (hsecond ▸ hended)
    · -- the figure of the block that speaks reaches its end only if nothing of it is cut off
      rw [max_eq_left (by omega)] at hself hended
      have hstill : readings n = moment := by omega
      refine .inr ⟨hstill, (expires - moment) / 1000000, ?_, row, hrow, hstops, ?_⟩
      · rwa [hstill] at hended
      · rw [hexpires, hsecond]
        congr 1
        omega
  · rintro (hended | ⟨hstill, k, hended, other, hother, hstops', hexpires'⟩)
    · intro row' hrow' hstops'' expires'' hexpires''
      have hbound := hended row' hrow' hstops'' expires'' hexpires''
      have hone : 1 ≤ row.retryAfter (readings n) := by
        rw [hwait]
        exact le_max_right _ _
      have := Nat.mul_le_mul_right second hone
      omega
    · have hsame : ∀ i < n, readings i = moment := fun i hi => by
        have := hmono hi.le
        have := hclock i
        omega
      have hle := hlongest hsame other ((mem_blocksAt_iff hloaded).mpr ⟨hother, hstops'⟩)
      have hfigure : k ≤ other.retryAfter moment := by
        rw [AccessSuspension.retryAfter, hexpires']
        simp only [Nat.add_sub_cancel_left]
        rw [Nat.mul_div_cancel _ (by decide)]
        exact le_max_left _ _
      rw [hstill]
      intro row' hrow' hstops'' expires'' hexpires''
      have hbound := hended row' hrow' hstops'' expires'' hexpires''
      have := Nat.mul_le_mul_right second (hfigure.trans hle)
      omega

/-- **A caller who waits what a refusal names** is let in exactly when the last block ends with a
second of the decision. -/
theorem letInAfterRetry_iff (hloaded : loaded ≤ moment) (hclock : ∀ i, moment ≤ readings i)
    (hmono : Monotone readings) :
    ((∃ e, checkAt true table loaded moment readings c = .error e) ↔
        ∃ row ∈ table, row.inForce moment = true ∧ row.action = .block ∧
          row.matchesCaller c = true) ∧
      ∀ e, checkAt true table loaded moment readings c = .error e →
        (∀ row ∈ table, BlocksCaller row moment c → row.expiresAt.isSome = true) →
          ((∀ moment' ≥ moment + e.retryAfter * second, ∀ loaded' ≤ moment', ∀ readings',
              ¬ ∃ e', checkAt true table loaded' moment' readings' c = .error e') ↔
            EndsOnTheSecond table moment
              (readings (blocksAt table loaded moment c).length) c) := by
  refine ⟨?_, fun e he hends => ?_⟩
  · rw [checkAt_refuses_iff hloaded]
    constructor
    · rintro ⟨row, hrow, h⟩
      exact ⟨row, hrow, h.inForce, h.block, h.caller⟩
    · rintro ⟨row, hrow, hforce, hblock, hcaller⟩
      exact ⟨row, hrow, hforce, hblock, hcaller⟩
  · obtain ⟨row, hlast, rfl⟩ := checkAt_eq_error_iff.mp he
    rw [letIn_iff_endedBy (Nat.le_add_right _ _) hends]
    exact endedBy_wait_iff hloaded hclock hmono hends hlast

end

/-- A block of one person that ends at a moment. -/
def blockUntil (expires : ℕ) : AccessSuspension where
  id := "1"
  useCase := none
  target := .subject
  targetValue := "ada"
  action := .block
  throttleRpm := none
  expiresAt := some expires
  author := "rule"
  reason := []

def ada : Caller := ⟨some "reports", some "ada", none, none⟩

theorem expiresAt_of_blocksCaller {row : AccessSuspension} {expires : ℕ}
    (hrow : row ∈ [blockUntil expires]) (_ : BlocksCaller row 0 ada) : row.expiresAt = some expires := by
  obtain rfl := List.mem_singleton.mp hrow
  rfl

theorem letInAfterRetry_whole :
    checkAt true [blockUntil 5000000] 0 0 (fun _ => 0) ada
        = .error ((blockUntil 5000000).refusal 0) ∧
      ∀ moment' ≥ 0 + ((blockUntil 5000000).refusal 0).retryAfter * second,
        ∀ loaded' ≤ moment', ∀ readings',
          ¬ ∃ e', checkAt true [blockUntil 5000000] loaded' moment' readings' ada = .error e' := by
  have hrefused : checkAt true [blockUntil 5000000] 0 0 (fun _ => 0) ada
      = .error ((blockUntil 5000000).refusal 0) := by rfl
  refine ⟨hrefused, ?_⟩
  have hstops : BlocksCaller (blockUntil 5000000) 0 ada := ⟨by decide, by decide, by decide⟩
  refine ((letInAfterRetry_iff le_rfl (fun _ => le_rfl) monotone_const).2 _ hrefused ?_).mpr ?_
  · intro row hrow h
    rw [expiresAt_of_blocksCaller hrow h]
    rfl
  · refine .inr ⟨rfl, 5, ?_, _, List.mem_singleton_self _, hstops, by decide⟩
    intro row hrow h expires hexpires
    rw [expiresAt_of_blocksCaller hrow h] at hexpires
    obtain rfl := Option.some.inj hexpires
    decide

/-- Of 5.7 seconds the caller is told 5, and is refused again then. -/
theorem refused_after_retry :
    checkAt true [blockUntil 5700000] 0 0 (fun _ => 0) ada
        = .error ((blockUntil 5700000).refusal 0) ∧
      ((blockUntil 5700000).refusal 0).retryAfter = 5 ∧
      checkAt true [blockUntil 5700000] 0 (0 + 5 * second) (fun _ => 0 + 5 * second) ada
        = .error ((blockUntil 5700000).refusal (0 + 5 * second)) :=
  ⟨by rfl, by decide, by rfl⟩

end AiraGateway
