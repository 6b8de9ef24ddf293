import AiraGateway.Budgets.Counter

/-!
# Reserving before dispatch bounds the overshoot

The same requests on one counter, in a stretch in which it does not expire. Each request bills at
most what it reserved, so the clamp at zero in `_ADJUST` never fires and the counter is exactly
its first figure plus what every request holds or has used (`World.Accounts`). A limit `L` is
then overshot by less than the largest single reservation, and the script admits below `L` only.

The comparison is made in doubles. A limit of at most `2 ^ 53` is compared exactly; above, a
figure still below the limit can be refused (`limit_refuses_below`).
-/

namespace AiraGateway

/-! ### What a request holds of the limit -/

namespace Phase

/-- What the request takes of the limit: its reservation while open, its bill once settled. -/
def used (d : Dimension) : Phase → ℤ
  | .held reserved => reserved.get d
  | .booked reserved _ => reserved.get d
  | .settled _ bill => bill.amounts.get d
  | _ => 0

/-- The amounts of the request in one dimension: none negative, the bill within the
reservation. -/
def Fits (d : Dimension) : Phase → Prop
  | .held reserved => 0 ≤ reserved.get d
  | .booked reserved bill => 0 ≤ bill.amounts.get d ∧ bill.amounts.get d ≤ reserved.get d
  | .settled _ bill => 0 ≤ bill.amounts.get d
  | _ => True

theorem used_nonneg {d : Dimension} {p : Phase} (h : p.Fits d) : 0 ≤ p.used d := by
  cases p with
  | held reserved => exact h
  | booked reserved bill => exact h.1.trans h.2
  | settled reserved bill => exact h
  | idle | seeded | refused | released => exact le_refl 0

end Phase

variable {ρ : Type} [DecidableEq ρ] {d : Dimension} {base limit most : ℤ}

/-- The steps of the stretch: every reservation is checked against the limit and at most `most`,
no bill passes its reservation, and the counter does not expire. -/
def World.Within (d : Dimension) (limit most : ℤ) (w : World ρ) : Act ρ → Prop
  | .reserve _ limits amounts _ =>
    limits.get d = some limit ∧ 0 ≤ amounts.get d ∧ amounts.get d ≤ most
  | .accumulate r bill =>
    0 ≤ bill.amounts.get d ∧
      ∀ reserved ∈ (w.phase r).outstanding, bill.amounts.get d ≤ reserved.get d
  | .expire => False
  | _ => True

section Bounded

variable [Fintype ρ]

/-- What all requests together take of the limit. -/
def usedBy (phase : ρ → Phase) (d : Dimension) : ℤ := ∑ r, (phase r).used d

theorem usedBy_update (phase : ρ → Phase) (r : ρ) (p : Phase) (d : Dimension) :
    usedBy (Function.update phase r p) d = usedBy phase d - (phase r).used d + p.used d :=
  sum_comp_update phase r p (Phase.used d)

omit [DecidableEq ρ] in
theorem usedBy_nonneg {phase : ρ → Phase} (h : ∀ r, (phase r).Fits d) : 0 ≤ usedBy phase d :=
  Finset.sum_nonneg fun r _ => Phase.used_nonneg (h r)

/-- The counter is its first figure plus what every request takes of the limit. -/
structure World.Accounts (d : Dimension) (base : ℤ) (w : World ρ) : Prop where
  counter : ∃ c, w.keys.counter = some c ∧ c.amounts.get d = base + usedBy w.phase d
  fits : ∀ r, (w.phase r).Fits d

theorem World.accounts_start {c : CounterHash} (row : Option Usage) (d : Dimension) :
    (start row (some c) : World ρ).Accounts d (c.amounts.get d) where
  counter := by
    have hnone : usedBy (start row (some c) : World ρ).phase d = 0 :=
      Finset.sum_eq_zero fun _ _ => rfl
    exact ⟨c, rfl, by rw [hnone, add_zero]⟩
  fits := fun _ => trivial

/-- Moving one request keeps the account where the counter moves by the same amount. -/
theorem World.accounts_setPhase {w : World ρ} {r : ρ} {p : Phase} {c : CounterHash}
    (hk : w.keys.counter = some c) (hfits : ∀ s, (w.phase s).Fits d) (hp : p.Fits d)
    (hc : c.amounts.get d = base + (usedBy w.phase d - (w.phase r).used d + p.used d)) :
    (w.setPhase r p).Accounts d base where
  counter := ⟨c, hk, by rw [setPhase_phase, usedBy_update, hc]⟩
  fits := by
    intro s
    rcases eq_or_ne s r with rfl | hs
    · simpa using hp
    · simpa [hs] using hfits s

/-- What all take of the limit once one request has moved to a phase that fits. -/
theorem usedBy_moved_nonneg {phase : ρ → Phase} {r : ρ} {p : Phase}
    (hfits : ∀ s, (phase s).Fits d) (hp : p.Fits d) :
    0 ≤ usedBy phase d - (phase r).used d + p.used d := by
  rw [← usedBy_update]
  refine usedBy_nonneg fun s => ?_
  rcases eq_or_ne s r with rfl | hs
  · simpa using hp
  · simpa [hs] using hfits s

/-- The figure a reservation is checked against is the account. -/
theorem World.Accounts.standing {w : World ρ} (ha : w.Accounts d base) (seed : Amounts)
    (now : ℤ) : (w.keys.standing seed now).get d = base + usedBy w.phase d := by
  obtain ⟨c, hk, hc⟩ := ha.counter
  rw [CounterKeys.standing_of_counter hk, hc]

/-- A reservation that is not refused met a figure below the limit. -/
theorem World.Accounts.below_of_admitted {w : World ρ} (ha : w.Accounts d base)
    (hbase : 0 ≤ base) {limits : Limits} (hl : limits.get d = some limit) (seed : Amounts)
    (now : ℤ) (h : limits.reached (w.keys.standing seed now) d = false) :
    base + usedBy w.phase d < limit := by
  by_contra hge
  have hused := usedBy_nonneg ha.fits
  have hreached : limits.reached (w.keys.standing seed now) d = true := by
    apply Limits.reached_of_le hl <;> rw [ha.standing] <;> omega
  rw [h] at hreached
  cases hreached

theorem World.accounts_step {w w' : World ρ} {a : Act ρ} (hbase : 0 ≤ base)
    (ha : w.Accounts d base) (hok : w.Within d limit most a) (h : w.Moves a w') :
    w'.Accounts d base := by
  obtain ⟨c, hk, hc⟩ := ha.counter
  cases h with
  | @readUsage r hp =>
    refine accounts_setPhase hk ha.fits trivial ?_
    rw [hc, hp]
    simp [Phase.used]
  | @refused r limits amounts seed now e hp hb =>
    refine accounts_setPhase (w := w.setKeys _) rfl ha.fits trivial ?_
    rw [CounterKeys.built_of_counter hk, setKeys_phase, hp]
    simpa [Phase.used] using hc
  | @admitted r limits amounts seed now hp hb =>
    refine accounts_setPhase (w := w.setKeys _) rfl ha.fits hok.2.1 ?_
    rw [CounterKeys.built_of_counter hk, setKeys_phase, hp]
    simp only [CounterHash.amounts_incrBy, CounterHash.amounts_expiring, Amounts.get_add, hc,
      Phase.used]
    omega
  | @accumulate r bill reserved hp =>
    have hle : bill.amounts.get d ≤ reserved.get d := hok.2 reserved (by rw [hp]; rfl)
    refine accounts_setPhase (w := w.setRow _) hk ha.fits ⟨hok.1, hle⟩ ?_
    rw [setRow_phase, hc, hp]
    simp only [Phase.used]
    omega
  | @settle r reserved bill hp =>
    have hfit : (Phase.settled reserved bill).Fits d := by
      have hbooked := ha.fits r
      rw [hp] at hbooked
      exact hbooked.1
    -- the clamp does not fire: what stays is a sum of non-negative amounts
    have hnonneg := usedBy_moved_nonneg (r := r) ha.fits hfit
    obtain ⟨c', hk', hget⟩ := CounterKeys.adjust_of_counter hk (bill.amounts - reserved) (some r)
    refine accounts_setPhase (w := w.setKeys _) hk' ha.fits hfit ?_
    rw [hget, setKeys_phase]
    rw [hp] at hnonneg ⊢
    simp only [Amounts.get_sub, hc, Phase.used] at *
    omega
  | @release r reserved hp =>
    have hnonneg := usedBy_moved_nonneg (r := r) (p := .released reserved) ha.fits trivial
    obtain ⟨c', hk', hget⟩ := CounterKeys.adjust_of_counter hk reserved.negated (some r)
    refine accounts_setPhase (w := w.setKeys _) hk' ha.fits trivial ?_
    rw [hget, setKeys_phase]
    rw [hp] at hnonneg ⊢
    simp only [Amounts.get_negated, hc, Phase.used] at *
    omega
  | expire => exact hok.elim

/-- What all requests take of the limit only grows by an admitted reservation. -/
theorem World.usedBy_step {w w' : World ρ} {a : Act ρ} (hbase : 0 ≤ base)
    (ha : w.Accounts d base) (hok : w.Within d limit most a) (h : w.Moves a w') :
    usedBy w'.phase d ≤ usedBy w.phase d ∨ base + usedBy w'.phase d < limit + most := by
  cases h with
  | @readUsage r hp =>
    left
    rw [setPhase_phase, usedBy_update, hp]
    simp [Phase.used]
  | @refused r limits amounts seed now e hp hb =>
    left
    rw [setPhase_phase, usedBy_update, setKeys_phase, hp]
    simp [Phase.used]
  | @admitted r limits amounts seed now hp hb =>
    -- the one step that raises the total met a figure below the limit
    right
    have hbelow := ha.below_of_admitted hbase hok.1 seed now (Limits.breached_eq_none_iff.mp hb d)
    have hmost := hok.2.2
    rw [setPhase_phase, usedBy_update, setKeys_phase, hp]
    simp only [Phase.used]
    omega
  | @accumulate r bill reserved hp =>
    left
    rw [setPhase_phase, usedBy_update, setRow_phase, hp]
    simp [Phase.used]
  | @settle r reserved bill hp =>
    left
    have hfits := ha.fits r
    rw [hp] at hfits
    have hle : bill.amounts.get d ≤ reserved.get d := hfits.2
    rw [setPhase_phase, usedBy_update, setKeys_phase, hp]
    simp only [Phase.used]
    omega
  | @release r reserved hp =>
    left
    have hfits := ha.fits r
    rw [hp] at hfits
    have hnonneg : 0 ≤ reserved.get d := hfits
    rw [setPhase_phase, usedBy_update, setKeys_phase, hp]
    simp only [Phase.used]
    omega
  | expire => exact hok.elim

/-- **A limit is overshot by less than one request.** In every run on one counter that does not
expire, what the settled requests used and the open ones reserved stays below the limit plus the
largest reservation. A reservation meets the limit unless the counter's first figure and that
total are below it, and up to `2 ^ 53` it meets the limit in no other case. -/
theorem usage_below_limit_plus_most {row : Option Usage} {c : CounterHash}
    (hbase : 0 ≤ c.amounts.get d) (hlimit : 0 < limit) (hmost : 0 ≤ most) {acts : List (Act ρ)}
    {w : World ρ}
    (hrun : Run World.step (World.Within d limit most) (World.start row (some c)) acts w) :
    usedBy w.phase d < limit + most ∧
    (c.amounts.get d < limit → c.amounts.get d + usedBy w.phase d < limit + most) ∧
    ∀ (limits : Limits) (seed : Amounts) (now : ℤ), limits.get d = some limit →
      (limits.reached (w.keys.standing seed now) d = false →
        c.amounts.get d + usedBy w.phase d < limit) ∧
      (limit ≤ 2 ^ 53 → (limits.reached (w.keys.standing seed now) d = false ↔
        c.amounts.get d + usedBy w.phase d < limit)) := by
  -- the bound on the total rests on the account: only with it is the counter that total
  have hkeep := hrun.invariant
    (P := fun w => w.Accounts d (c.amounts.get d) ∧ (usedBy w.phase d ≤ 0 ∨
      c.amounts.get d + usedBy w.phase d < limit + most))
    (fun s a t hs hok hst => by
      have hm := World.moves_of_step hst
      refine ⟨World.accounts_step hbase hs.1 hok hm, ?_⟩
      have hgrow := World.usedBy_step hbase hs.1 hok hm
      omega)
    ⟨World.accounts_start row d, .inl (Finset.sum_eq_zero fun _ _ => rfl).le⟩
  obtain ⟨hacc, hbound⟩ := hkeep
  refine ⟨by omega, fun hb => by omega, fun limits seed now hl => ?_⟩
  have hadmits := hacc.below_of_admitted hbase hl seed now
  refine ⟨hadmits, fun hsmall => ⟨hadmits, fun hlt => ?_⟩⟩
  have hused := usedBy_nonneg hacc.fits
  have hiff := Limits.reached_iff hl hsmall (w.keys.standing seed now)
    (by rw [hacc.standing]; omega)
  rw [hacc.standing] at hiff
  rw [← Bool.not_eq_true, hiff]
  omega

end Bounded

instance (w : World ρ) : (a : Act ρ) → Decidable (w.Within d limit most a)
  | .reserve _ limits amounts _ => inferInstanceAs
      (Decidable (limits.get d = some limit ∧ 0 ≤ amounts.get d ∧ amounts.get d ≤ most))
  | .accumulate r bill => inferInstanceAs
      (Decidable (0 ≤ bill.amounts.get d ∧
        ∀ reserved ∈ (w.phase r).outstanding, bill.amounts.get d ≤ reserved.get d))
  | .expire => inferInstanceAs (Decidable False)
  | .readUsage _ | .settle _ | .release _ => inferInstanceAs (Decidable True)

/-- The conditions can be met by a run with every kind of step. -/
theorem usage_below_limit_plus_most_released :
    ∃ w : World (Fin 3), usedBy w.phase .cost < 12 + 10 ∧
      ((0 : ℤ) < 12 → 0 + usedBy w.phase .cost < 12 + 10) ∧
      ∀ (limits : Limits) (seed : Amounts) (now : ℤ), limits.get .cost = some 12 →
        (limits.reached (w.keys.standing seed now) .cost = false →
          0 + usedBy w.phase .cost < 12) ∧
        ((12 : ℤ) ≤ 2 ^ 53 → (limits.reached (w.keys.standing seed now) .cost = false ↔
          0 + usedBy w.phase .cost < 12)) := by
  have hsome : (checkedRun World.step (World.Within .cost 12 10)
      (World.start none (some { amounts := {} }) : World (Fin 3))
      [.readUsage 0, .reserve 0 { costNanos := some 12 } ⟨10, 1, 10⟩ 0, .readUsage 1,
        .reserve 1 { costNanos := some 12 } ⟨10, 1, 10⟩ 0, .readUsage 2,
        .reserve 2 { costNanos := some 12 } ⟨10, 1, 10⟩ 0, .accumulate 0 ⟨8, 1, some 8⟩, .settle 0,
        .release 1]).isSome := by
    decide +kernel
  exact ⟨_, usage_below_limit_plus_most (c := { amounts := {} }) (by decide) (by decide)
    (by decide) (run_of_checkedRun (Option.some_get hsome).symm)⟩

/-- **Above `2 ^ 53` a figure below the limit can be refused**: one request holds all of the
limit but one nano-unit, both read as the same double, and the next request is refused. -/
theorem limit_refuses_below :
    ∃ w : World (Fin 2),
      Run World.step (World.Within .cost 9007199254741000 9007199254740999)
        (World.start none (some { amounts := {} }))
        [.readUsage 0,
          .reserve 0 { costNanos := some 9007199254741000 } ⟨1, 1, 9007199254740999⟩ 0,
          .readUsage 1] w ∧
      usedBy w.phase .cost < 9007199254741000 ∧
      (w.keys.reserve { costNanos := some 9007199254741000 } ⟨1, 1, 1⟩ 0 (some 1) 0).1
        = some .cost := by
  have hsome : (checkedRun World.step (World.Within .cost 9007199254741000 9007199254740999)
      (World.start none (some { amounts := {} }) : World (Fin 2))
      [.readUsage 0,
        .reserve 0 { costNanos := some 9007199254741000 } ⟨1, 1, 9007199254740999⟩ 0,
        .readUsage 1]).isSome := by
    decide +kernel
  refine ⟨_, run_of_checkedRun (Option.some_get hsome).symm, ?_, ?_⟩
  · decide +kernel +revert
  · decide +kernel +revert

end AiraGateway
