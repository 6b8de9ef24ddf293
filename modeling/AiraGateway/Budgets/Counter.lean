import AiraGateway.Budgets.Ledger
import AiraGateway.Library.Runs

/-!
# One counter under concurrent requests

One enforced budget in one period: its row of `budget_usage`, its two Redis keys, and any number
of requests, each of which goes through the same steps — read the seed, run `_RESERVE`, then
either book in Postgres and correct the counter, or release. Every step is atomic and any two
requests interleave freely; the counter may expire between any two steps.

What carries the results is one figure per request, what it still **owes** the counter
(`Phase.owed`): its reservation, less what it has booked and not yet corrected.

* `counter_covers_usage`: the counter is at least the Postgres figure plus what is owed, in
  every run that never rebuilds it from a seed which lacks a corrected booking (`SeedCovers`).
* `counter_under_counts`: without that condition it is not. A seed read before another request
  booked and corrected, used after the counter expired, builds a counter without that booking.
-/

namespace AiraGateway

/-! ### The Postgres row -/

/-- What has been consumed in one (scope, period) so far. -/
structure Usage where
  tokens : ℤ
  requests : ℤ
  costNanos : ℤ
  unpricedRequests : ℤ
  deriving DecidableEq, Repr

/-- A row that is not there has consumed nothing. -/
def readUsage (row : Option Usage) : Usage := row.getD ⟨0, 0, 0, 0⟩

/-- One statement that inserts the counter or adds to it. A cost of `none` is a model without a
price: it is counted as unpriced. -/
def accumulate (row : Option Usage) (tokens requests : ℤ) (costNanos : Option ℤ) : Usage :=
  let unpriced := if costNanos.isNone then requests else 0
  match row with
  | none => ⟨tokens, requests, costNanos.getD 0, unpriced⟩
  | some u =>
    ⟨u.tokens + tokens, u.requests + requests, u.costNanos + costNanos.getD 0,
      u.unpricedRequests + unpriced⟩

def Usage.amounts (u : Usage) : Amounts := ⟨u.tokens, u.requests, u.costNanos⟩

/-- What a request turned out to have used. -/
structure Bill where
  tokens : ℤ
  requests : ℤ
  costNanos : Option ℤ
  deriving DecidableEq, Repr

def Bill.amounts (b : Bill) : Amounts := ⟨b.tokens, b.requests, b.costNanos.getD 0⟩

/-- Booking adds the bill to the figure, whether the row was there or not. -/
theorem accumulate_amounts (row : Option Usage) (b : Bill) (d : Dimension) :
    (accumulate row b.tokens b.requests b.costNanos).amounts.get d
      = (readUsage row).amounts.get d + b.amounts.get d := by
  cases row <;> cases d <;>
    simp [accumulate, readUsage, Usage.amounts, Bill.amounts, Amounts.get]

/-! ### Requests and their steps -/

/-- Where one request stands with this budget. -/
inductive Phase
  | idle
  | seeded (seed : Amounts)
  | refused (breached : Dimension)
  | held (reserved : Amounts)
  | booked (reserved : Amounts) (bill : Bill)
  | settled (reserved : Amounts) (bill : Bill)
  | released (reserved : Amounts)
  deriving DecidableEq, Repr

/-- The row, the two keys, and every request. -/
structure World (ρ : Type) [DecidableEq ρ] where
  row : Option Usage
  keys : CounterKeys ρ
  phase : ρ → Phase

/-- An atomic step: of one request, or the counter's expiry. -/
inductive Act (ρ : Type)
  | readUsage (r : ρ)
  | reserve (r : ρ) (limits : Limits) (amounts : Amounts) (now : ℤ)
  | accumulate (r : ρ) (bill : Bill)
  | settle (r : ρ)
  | release (r : ρ)
  | expire

variable {ρ : Type} [DecidableEq ρ]

namespace World

def setPhase (w : World ρ) (r : ρ) (p : Phase) : World ρ :=
  { w with phase := Function.update w.phase r p }

def setKeys (w : World ρ) (keys : CounterKeys ρ) : World ρ := { w with keys := keys }

def setRow (w : World ρ) (row : Usage) : World ρ := { w with row := some row }

/-- The figure Postgres holds. -/
def usage (w : World ρ) : Amounts := (readUsage w.row).amounts

@[simp]
theorem setPhase_phase (w : World ρ) (r : ρ) (p : Phase) :
    (w.setPhase r p).phase = Function.update w.phase r p := rfl

@[simp]
theorem setPhase_keys (w : World ρ) (r : ρ) (p : Phase) : (w.setPhase r p).keys = w.keys := rfl

@[simp]
theorem setPhase_usage (w : World ρ) (r : ρ) (p : Phase) : (w.setPhase r p).usage = w.usage :=
  rfl

@[simp]
theorem setKeys_phase (w : World ρ) (keys : CounterKeys ρ) : (w.setKeys keys).phase = w.phase :=
  rfl

@[simp]
theorem setKeys_keys (w : World ρ) (keys : CounterKeys ρ) : (w.setKeys keys).keys = keys := rfl

@[simp]
theorem setKeys_usage (w : World ρ) (keys : CounterKeys ρ) : (w.setKeys keys).usage = w.usage :=
  rfl

@[simp]
theorem setRow_phase (w : World ρ) (row : Usage) : (w.setRow row).phase = w.phase := rfl

@[simp]
theorem setRow_keys (w : World ρ) (row : Usage) : (w.setRow row).keys = w.keys := rfl

@[simp]
theorem setRow_usage (w : World ρ) (row : Usage) : (w.setRow row).usage = row.amounts := rfl

/-- One atomic step, where the request it belongs to is ready for it. -/
def step (w : World ρ) : Act ρ → Option (World ρ)
  | .readUsage r =>
    match w.phase r with
    | .idle => some (w.setPhase r (.seeded w.usage))
    | _ => none
  | .reserve r limits amounts now =>
    match w.phase r with
    | .seeded seed =>
      match w.keys.reserve limits amounts seed (some r) now with
      | (none, keys) => some ((w.setKeys keys).setPhase r (.held amounts))
      | (some d, keys) => some ((w.setKeys keys).setPhase r (.refused d))
    | _ => none
  | .accumulate r bill =>
    match w.phase r with
    | .held reserved =>
      let row := AiraGateway.accumulate w.row bill.tokens bill.requests bill.costNanos
      some ((w.setRow row).setPhase r (.booked reserved bill))
    | _ => none
  | .settle r =>
    match w.phase r with
    | .booked reserved bill =>
      let keys := w.keys.adjust (bill.amounts - reserved) (some r)
      some ((w.setKeys keys).setPhase r (.settled reserved bill))
    | _ => none
  | .release r =>
    match w.phase r with
    | .held reserved =>
      let keys := w.keys.adjust reserved.negated (some r)
      some ((w.setKeys keys).setPhase r (.released reserved))
    | _ => none
  | .expire => some (w.setKeys { w.keys with counter := none })

/-- Before any request: a Postgres figure, nothing open, and a counter or none. -/
def start (row : Option Usage) (counter : Option CounterHash) : World ρ where
  row := row
  keys := { counter := counter }
  phase := fun _ => .idle

end World

/-! ### What a request has reserved, booked and owes -/

namespace Phase

/-- The Postgres figure the request has read and not yet handed to the script. -/
def seed : Phase → Option Amounts
  | .seeded seed => some seed
  | _ => none

/-- What the request has reserved and neither settled nor released. -/
def outstanding : Phase → Option Amounts
  | .held reserved => some reserved
  | .booked reserved _ => some reserved
  | _ => none

/-- The reservation still open, in one dimension. -/
def reservedIn (d : Dimension) (p : Phase) : ℤ := p.outstanding.elim 0 (·.get d)

/-- What the request has booked in Postgres and not yet corrected in the counter. -/
def uncorrected (d : Dimension) : Phase → ℤ
  | .booked _ bill => bill.amounts.get d
  | _ => 0

/-- What the request still owes the counter. -/
def owed (d : Dimension) (p : Phase) : ℤ := p.reservedIn d - p.uncorrected d

variable {d : Dimension}

@[simp] theorem owed_idle : idle.owed d = 0 := rfl

@[simp] theorem owed_seeded (seed : Amounts) : (seeded seed).owed d = 0 := rfl

@[simp] theorem owed_refused (e : Dimension) : (refused e).owed d = 0 := rfl

@[simp]
theorem owed_held (reserved : Amounts) : (held reserved).owed d = reserved.get d :=
  sub_zero _

@[simp]
theorem owed_booked (reserved : Amounts) (bill : Bill) :
    (booked reserved bill).owed d = reserved.get d - bill.amounts.get d := rfl

@[simp]
theorem owed_settled (reserved : Amounts) (bill : Bill) : (settled reserved bill).owed d = 0 :=
  rfl

@[simp] theorem owed_released (reserved : Amounts) : (released reserved).owed d = 0 := rfl

end Phase

/-- One step, by the rule that allows it: which phase the request leaves and what changes. -/
inductive World.Moves (w : World ρ) : Act ρ → World ρ → Prop
  | readUsage {r : ρ} (hp : w.phase r = .idle) :
      Moves w (.readUsage r) (w.setPhase r (.seeded w.usage))
  | refused {r : ρ} {limits : Limits} {amounts seed : Amounts} {now : ℤ} {d : Dimension}
      (hp : w.phase r = .seeded seed)
      (hb : limits.breached (w.keys.standing seed now) = some d) :
      Moves w (.reserve r limits amounts now)
        ((w.setKeys { w.keys with
          counter := some (w.keys.built seed now).1.expiring
          openSet := (w.keys.built seed now).2 }).setPhase r (.refused d))
  | admitted {r : ρ} {limits : Limits} {amounts seed : Amounts} {now : ℤ}
      (hp : w.phase r = .seeded seed)
      (hb : limits.breached (w.keys.standing seed now) = none) :
      Moves w (.reserve r limits amounts now)
        ((w.setKeys { w.keys with
          counter := some ((w.keys.built seed now).1.expiring.incrBy amounts)
          openSet := (w.keys.built seed now).2.insert r
            ⟨now + reservationLifetimeSeconds, amounts⟩
          openTtl := some reservationLifetimeSeconds }).setPhase r (.held amounts))
  | accumulate {r : ρ} {bill : Bill} {reserved : Amounts} (hp : w.phase r = .held reserved) :
      Moves w (.accumulate r bill)
        ((w.setRow (accumulate w.row bill.tokens bill.requests bill.costNanos)).setPhase r
          (.booked reserved bill))
  | settle {r : ρ} {reserved : Amounts} {bill : Bill} (hp : w.phase r = .booked reserved bill) :
      Moves w (.settle r)
        ((w.setKeys (w.keys.adjust (bill.amounts - reserved) (some r))).setPhase r
          (.settled reserved bill))
  | release {r : ρ} {reserved : Amounts} (hp : w.phase r = .held reserved) :
      Moves w (.release r)
        ((w.setKeys (w.keys.adjust reserved.negated (some r))).setPhase r
          (.released reserved))
  | expire : Moves w .expire (w.setKeys { w.keys with counter := none })

/-- Every step the system takes is one of these. -/
theorem World.moves_of_step {w w' : World ρ} {a : Act ρ} (h : w.step a = some w') :
    w.Moves a w' := by
  cases a with
  | readUsage r =>
    simp only [step] at h
    split at h
    · cases h
      exact .readUsage ‹_›
    · cases h
  | reserve r limits amounts now =>
    simp only [step] at h
    split at h
    · next seed hseed =>
      cases hb : limits.breached (w.keys.standing seed now) with
      | none =>
        rw [CounterKeys.reserve_of_admitted hb] at h
        cases h
        exact .admitted hseed hb
      | some d =>
        rw [CounterKeys.reserve_of_breached hb] at h
        cases h
        exact .refused hseed hb
    · cases h
  | accumulate r bill =>
    simp only [step] at h
    split at h
    · cases h
      exact .accumulate ‹_›
    · cases h
  | settle r =>
    simp only [step] at h
    split at h
    · cases h
      exact .settle ‹_›
    · cases h
  | release r =>
    simp only [step] at h
    split at h
    · cases h
      exact .release ‹_›
    · cases h
  | expire =>
    cases h
    exact .expire

/-- The amounts of a step are not negative. -/
def Act.NonNeg : Act ρ → Prop
  | .reserve _ _ amounts _ => ∀ d, 0 ≤ amounts.get d
  | .accumulate _ bill => ∀ d, 0 ≤ bill.amounts.get d
  | _ => True

/-! ### The open set names the reservations in flight -/

/-- A reservation script meets no open entry past its deadline. -/
def World.InTime (w : World ρ) : Act ρ → Prop
  | .reserve _ _ _ now => ∀ e ∈ w.keys.openSet.entries, e.2.live now = true
  | _ => True

/-- The open set holds exactly the reservations neither settled nor released. -/
def World.Tracks (w : World ρ) : Prop :=
  ∀ r, (w.keys.openSet.lookup r).map (·.amounts) = (w.phase r).outstanding

theorem World.tracks_start (row : Option Usage) (counter : Option CounterHash) :
    (start row counter : World ρ).Tracks := by
  intro r
  simp [start, Phase.outstanding]

/-- Moving one request to a phase keeps the open set true where it agrees with the new phase
there, and with the old ones everywhere else. -/
theorem World.tracks_setPhase {w : World ρ} {r : ρ} {p : Phase}
    (hr : (w.keys.openSet.lookup r).map (·.amounts) = p.outstanding)
    (hne : ∀ s, s ≠ r → (w.keys.openSet.lookup s).map (·.amounts) = (w.phase s).outstanding) :
    (w.setPhase r p).Tracks := by
  intro s
  rcases eq_or_ne s r with rfl | hs
  · simpa using hr
  · simpa [hs] using hne s hs

theorem World.tracks_step {w w' : World ρ} {a : Act ρ} (ht : w.Tracks) (hin : w.InTime a)
    (h : w.Moves a w') : w'.Tracks := by
  cases h with
  | @readUsage r hp =>
    refine tracks_setPhase ?_ fun s _ => ht s
    rw [ht r, hp]
    rfl
  | @refused r limits amounts seed now d hp hb =>
    rw [CounterKeys.built_openSet hin]
    refine tracks_setPhase ?_ fun s _ => ht s
    rw [setKeys_keys, ht r, hp]
    rfl
  | @admitted r limits amounts seed now hp hb =>
    rw [CounterKeys.built_openSet hin]
    refine tracks_setPhase ?_ fun s hs => ?_
    · simp [Phase.outstanding]
    · simpa [AList.lookup_insert_ne hs] using ht s
  | @accumulate r bill reserved hp =>
    refine tracks_setPhase ?_ fun s _ => ht s
    rw [setRow_keys, ht r, hp]
    rfl
  | @settle r reserved bill hp =>
    refine tracks_setPhase ?_ fun s hs => ?_
    · simp [Phase.outstanding]
    · simpa [AList.lookup_erase_ne hs] using ht s
  | @release r reserved hp =>
    refine tracks_setPhase ?_ fun s hs => ?_
    · simp [Phase.outstanding]
    · simpa [AList.lookup_erase_ne hs] using ht s
  | expire => exact ht

/-! ### The counter covers what Postgres holds and what is owed -/

section Covers

variable [Fintype ρ]

/-- What all requests together still owe the counter. -/
def owedBy (phase : ρ → Phase) (d : Dimension) : ℤ := ∑ r, (phase r).owed d

/-- What all requests together have booked in Postgres and not yet corrected. -/
def uncorrectedBy (phase : ρ → Phase) (d : Dimension) : ℤ := ∑ r, (phase r).uncorrected d

/-- What all requests together have reserved and neither settled nor released. -/
def reservedBy (phase : ρ → Phase) (d : Dimension) : ℤ := ∑ r, (phase r).reservedIn d

omit [DecidableEq ρ] in
theorem owedBy_eq (phase : ρ → Phase) (d : Dimension) :
    owedBy phase d = reservedBy phase d - uncorrectedBy phase d := by
  simp only [owedBy, reservedBy, uncorrectedBy, Phase.owed, Finset.sum_sub_distrib]

/-- Moving one request changes what is owed by what that request owes. -/
theorem owedBy_update (phase : ρ → Phase) (r : ρ) (p : Phase) (d : Dimension) :
    owedBy (Function.update phase r p) d = owedBy phase d - (phase r).owed d + p.owed d :=
  sum_comp_update phase r p (Phase.owed d)

/-- The entries of the open set add up to the reservations in flight. -/
theorem World.sum_openSet {w : World ρ} (ht : w.Tracks) (d : Dimension) :
    (w.keys.openSet.entries.map fun e => e.2.amounts.get d).sum = reservedBy w.phase d := by
  rw [sum_entries_eq_sum_lookup w.keys.openSet fun e => e.amounts.get d]
  refine Finset.sum_congr rfl fun r _ => ?_
  rw [Phase.reservedIn, ← ht r]
  cases w.keys.openSet.lookup r <;> rfl

/-- A script that rebuilds the counter carries a seed that lacks no more than what is booked
and not yet corrected: no booking whose correction has already run is missing from it. -/
def World.SeedCovers (w : World ρ) : Act ρ → Prop
  | .reserve r _ _ _ => w.keys.counter = none → ∀ seed ∈ (w.phase r).seed,
      ∀ d, w.usage.get d ≤ seed.get d + uncorrectedBy w.phase d
  | _ => True

/-- The counter, where there is one, covers the Postgres figure and what is owed. -/
def World.Covers (w : World ρ) : Prop :=
  ∀ h, w.keys.counter = some h → ∀ d, w.usage.get d + owedBy w.phase d ≤ h.amounts.get d

/-- The figure a reservation is checked against covers what the counter has to. -/
theorem World.standing_covers {w : World ρ} {r : ρ} {limits : Limits} {amounts seed : Amounts}
    {now : ℤ} (ht : w.Tracks) (hc : w.Covers) (hin : w.InTime (.reserve r limits amounts now))
    (hs : w.SeedCovers (.reserve r limits amounts now)) (hp : w.phase r = .seeded seed)
    (d : Dimension) : w.usage.get d + owedBy w.phase d ≤ (w.keys.standing seed now).get d := by
  cases hk : w.keys.counter with
  | some h =>
    rw [CounterKeys.standing_of_counter hk]
    exact hc h hk d
  | none =>
    -- the open set brings back what is reserved, so the seed has to cover only the rest
    have hseed := hs hk seed (by rw [hp]; rfl) d
    rw [CounterKeys.standing_of_missing hk hin, sum_openSet ht, owedBy_eq]
    omega

/-- Moving one request keeps the cover where the counter moves by at least what the Postgres
figure and the debt of that request do together. -/
theorem World.covers_setPhase {w : World ρ} {r : ρ} {p : Phase}
    (h : ∀ c, w.keys.counter = some c → ∀ d,
      w.usage.get d + (owedBy w.phase d - (w.phase r).owed d + p.owed d) ≤ c.amounts.get d) :
    (w.setPhase r p).Covers := by
  intro c hk d
  rw [setPhase_usage, setPhase_phase, owedBy_update]
  exact h c hk d

theorem World.covers_step {w w' : World ρ} {a : Act ρ} (ht : w.Tracks) (hc : w.Covers)
    (hin : w.InTime a) (hs : w.SeedCovers a) (h : w.Moves a w') : w'.Covers := by
  cases h with
  | @readUsage r hp =>
    refine covers_setPhase fun c hk d => ?_
    have hcov := hc c hk d
    rw [hp]
    simpa using hcov
  | @refused r limits amounts seed now d hp hb =>
    refine covers_setPhase fun c hk e => ?_
    obtain rfl := Option.some.inj hk
    have hcov := standing_covers ht hc hin hs hp e
    rw [setKeys_phase, hp]
    simpa [CounterKeys.standing] using hcov
  | @admitted r limits amounts seed now hp hb =>
    refine covers_setPhase fun c hk e => ?_
    obtain rfl := Option.some.inj hk
    have hcov := standing_covers ht hc hin hs hp e
    rw [setKeys_phase, hp]
    simp only [setKeys_usage, CounterHash.amounts_incrBy, CounterHash.amounts_expiring,
      Amounts.get_add, Phase.owed_seeded, Phase.owed_held]
    have : (w.keys.standing seed now).get e = (w.keys.built seed now).1.amounts.get e := rfl
    omega
  | @accumulate r bill reserved hp =>
    -- Postgres gains the bill and the debt loses it
    refine covers_setPhase fun c hk e => ?_
    have hcov := hc c hk e
    have husage := accumulate_amounts w.row bill e
    rw [setRow_phase, hp, setRow_usage, husage, Phase.owed_held, Phase.owed_booked]
    change (readUsage w.row).amounts.get e + owedBy w.phase e ≤ _ at hcov
    omega
  | @settle r reserved bill hp =>
    -- the counter moves by the debt, or by more where the clamp fires
    refine covers_setPhase fun c hk e => ?_
    obtain ⟨c₀, hk₀, hget⟩ := CounterKeys.counter_of_adjust hk
    have hcov := hc c₀ hk₀ e
    rw [setKeys_phase, hp, setKeys_usage, hget]
    simp only [Amounts.get_sub, Phase.owed_booked, Phase.owed_settled]
    omega
  | @release r reserved hp =>
    refine covers_setPhase fun c hk e => ?_
    obtain ⟨c₀, hk₀, hget⟩ := CounterKeys.counter_of_adjust hk
    have hcov := hc c₀ hk₀ e
    rw [setKeys_phase, hp, setKeys_usage, hget]
    simp only [Amounts.get_negated, Phase.owed_held, Phase.owed_released]
    omega
  | expire =>
    intro c hk
    cases hk

instance (w : World ρ) : (a : Act ρ) → Decidable (w.SeedCovers a)
  | .reserve r _ _ _ => inferInstanceAs
      (Decidable (w.keys.counter = none → ∀ seed ∈ (w.phase r).seed,
        ∀ d, w.usage.get d ≤ seed.get d + uncorrectedBy w.phase d))
  | .readUsage _ | .accumulate _ _ | .settle _ | .release _ | .expire =>
    inferInstanceAs (Decidable True)

/-- **The counter covers what is spent and what is set aside.** Any number of requests, any
order of their steps, expiry between any two of them: while no script meets an entry past its
deadline and none rebuilds the counter from a seed that lacks a corrected booking, the counter —
whenever it is there — is at least the Postgres figure plus every open reservation, less what is
booked and not yet corrected. -/
theorem counter_covers_usage {row : Option Usage} {counter : Option CounterHash}
    (hstart : ∀ c, counter = some c → ∀ d, (readUsage row).amounts.get d ≤ c.amounts.get d)
    {acts : List (Act ρ)} {w : World ρ}
    (hrun : Run World.step (fun w a => w.InTime a ∧ w.SeedCovers a) (World.start row counter)
      acts w)
    {c : CounterHash} (hc : w.keys.counter = some c) (d : Dimension) :
    w.usage.get d + reservedBy w.phase d ≤ c.amounts.get d + uncorrectedBy w.phase d := by
  have hinit : (World.start row counter : World ρ).Covers := by
    intro c hk d
    have hnone : owedBy (World.start row counter : World ρ).phase d = 0 :=
      Finset.sum_eq_zero fun _ _ => rfl
    rw [hnone, add_zero]
    exact hstart c hk d
  -- the open set has to stay true for a rebuild to find every reservation
  have hkeep := hrun.invariant (P := fun w => w.Tracks ∧ w.Covers)
    (fun s a t hs hok hst =>
      have hm := World.moves_of_step hst
      ⟨World.tracks_step hs.1 hok.1 hm, World.covers_step hs.1 hs.2 hok.1 hok.2 hm⟩)
    ⟨World.tracks_start row counter, hinit⟩
  have hcov := hkeep.2 c hc d
  rw [owedBy_eq] at hcov
  omega

end Covers

/-! ### A seed read too early -/

instance (w : World ρ) : (a : Act ρ) → Decidable (w.InTime a)
  | .reserve _ _ _ now => inferInstanceAs
      (Decidable (∀ e ∈ w.keys.openSet.entries, e.2.live now = true))
  | .readUsage _ | .accumulate _ _ | .settle _ | .release _ | .expire =>
    inferInstanceAs (Decidable True)

instance : (a : Act ρ) → Decidable a.NonNeg
  | .reserve _ _ amounts _ => inferInstanceAs (Decidable (∀ d, 0 ≤ amounts.get d))
  | .accumulate _ bill => inferInstanceAs (Decidable (∀ d, 0 ≤ bill.amounts.get d))
  | .readUsage _ | .settle _ | .release _ | .expire => inferInstanceAs (Decidable True)

/-- The second request reads its seed before the first one books, and uses it after the counter
that held the booking has expired. -/
def staleSeedRun : List (Act Bool) :=
  [.readUsage false, .readUsage true, .reserve false {} ⟨10, 1, 10⟩ 0,
    .accumulate false ⟨10, 1, some 10⟩, .settle false, .expire, .reserve true {} ⟨5, 1, 5⟩ 0]

/-- The conditions of `counter_covers_usage` can be met with every kind of step, the counter
rebuilt under an open reservation included. -/
theorem counter_covers_usage_rebuilt :
    ∃ w : World Bool, ∃ c, w.keys.counter = some c ∧
      w.usage.get .cost + reservedBy w.phase .cost
        ≤ c.amounts.get .cost + uncorrectedBy w.phase .cost := by
  have hsome : (checkedRun World.step (fun w a => w.InTime a ∧ w.SeedCovers a)
      (World.start none none : World Bool)
      [.readUsage false, .reserve false {} ⟨10, 1, 10⟩ 0, .expire, .readUsage true,
        .reserve true {} ⟨5, 1, 5⟩ 0, .accumulate false ⟨8, 1, some 8⟩, .settle false,
        .release true]).isSome := by
    decide +kernel
  exact ⟨_, _, rfl, counter_covers_usage (by simp) (run_of_checkedRun (Option.some_get hsome).symm)
    rfl .cost⟩

/-- **A rebuilt counter can lack a booking**: every amount is non-negative, no entry is past its
deadline, and the counter is five below the ten that Postgres holds and the five still open. -/
theorem counter_under_counts :
    ∃ w : World Bool, ∃ c,
      Run World.step (fun w a => w.InTime a ∧ a.NonNeg) (World.start none none) staleSeedRun w ∧
      w.keys.counter = some c ∧
      ¬ w.usage.get .cost + reservedBy w.phase .cost ≤ c.amounts.get .cost := by
  have hsome : (checkedRun World.step (fun w a => w.InTime a ∧ a.NonNeg)
      (World.start none none) staleSeedRun).isSome := by
    decide +kernel
  refine ⟨_, _, run_of_checkedRun (Option.some_get hsome).symm, rfl, ?_⟩
  decide +kernel +revert

end AiraGateway
