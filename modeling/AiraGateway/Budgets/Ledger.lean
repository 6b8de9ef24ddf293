import AiraGateway.Library.Binary64
import AiraGateway.Library.KeyedSum
import Mathlib.Data.Fintype.Defs

/-!
# The atomic half of budget enforcement

One budget in one period keeps two Redis keys: the **counter**, a hash of three integer fields,
and the **open set** beside it, one entry per reservation in flight. Two scripts work on them,
each one indivisible:

* `CounterKeys.reserve` (`_RESERVE`) builds a missing counter from the Postgres figure and the
  reservations still open, checks the limits, and books the amounts;
* `CounterKeys.adjust` (`_ADJUST`) closes a reservation and moves the counter, where there is
  one, by a correction.

Redis stores and increments 64-bit integers exactly; the scripts **compare** through Lua's
number, a double (`luaNumber`). That reading never turns an order around, so a counter that has
reached its limit is always seen to have reached it, and up to `2 ^ 53` it is exact
(`Limits.reached_iff`).

An open entry is written `deadline:tokens:requests:cost` and read back by a pattern that the
written form always matches; it is kept here as the record it spells.
-/

namespace AiraGateway

/-- What a budget can cap, under the ledger's names. -/
inductive Dimension
  | tokens
  | requests
  | cost
  deriving DecidableEq, Repr

instance : Fintype Dimension where
  elems := {.tokens, .requests, .cost}
  complete := by
    intro d
    cases d <;> simp

/-- Tokens, request count and cost moved in one operation. -/
@[ext]
structure Amounts where
  tokens : ℤ := 0
  requests : ℤ := 0
  costNanos : ℤ := 0
  deriving DecidableEq, Repr

namespace Amounts

/-- The amount moved in one dimension. -/
def get (a : Amounts) : Dimension → ℤ
  | .tokens => a.tokens
  | .requests => a.requests
  | .cost => a.costNanos

def negated (a : Amounts) : Amounts := ⟨-a.tokens, -a.requests, -a.costNanos⟩

instance : Zero Amounts := ⟨{}⟩

instance : Add Amounts :=
  ⟨fun a b => ⟨a.tokens + b.tokens, a.requests + b.requests, a.costNanos + b.costNanos⟩⟩

instance : Sub Amounts :=
  ⟨fun a b => ⟨a.tokens - b.tokens, a.requests - b.requests, a.costNanos - b.costNanos⟩⟩

@[simp]
theorem get_zero (d : Dimension) : (0 : Amounts).get d = 0 := by cases d <;> rfl

@[simp]
theorem get_add (a b : Amounts) (d : Dimension) : (a + b).get d = a.get d + b.get d := by
  cases d <;> rfl

@[simp]
theorem get_sub (a b : Amounts) (d : Dimension) : (a - b).get d = a.get d - b.get d := by
  cases d <;> rfl

@[simp]
theorem get_negated (a : Amounts) (d : Dimension) : a.negated.get d = -a.get d := by
  cases d <;> rfl

theorem ext_get {a b : Amounts} (h : ∀ d, a.get d = b.get d) : a = b :=
  Amounts.ext (h .tokens) (h .requests) (h .cost)

end Amounts

/-- The caps to test against; `none` means no cap on that dimension. -/
structure Limits where
  tokens : Option ℤ := none
  requests : Option ℤ := none
  costNanos : Option ℤ := none
  deriving DecidableEq, Repr

def Limits.get (l : Limits) : Dimension → Option ℤ
  | .tokens => l.tokens
  | .requests => l.requests
  | .cost => l.costNanos

/-- How long a counter is trusted before it is rebuilt from Postgres. -/
def counterTtlSeconds : ℕ := 300

/-- How long a reservation in flight is carried into a rebuilt counter. -/
def reservationLifetimeSeconds : ℕ := 3600

/-- The limit argument that means "no cap on this dimension". -/
def noLimit : ℤ := -1

/-- A limit as the script's argument: `noLimit` for none, never below zero for one. -/
def cap : Option ℤ → ℤ
  | none => noLimit
  | some limit => max 0 limit

/-- `tonumber` on the text of an integer: Lua 5.1 has no number but the double. -/
abbrev luaNumber (z : ℤ) : ℤ := binary64OfInt z

/-! ### The two keys of one counter -/

/-- The counter: three integer fields and the expiry set when it was built. -/
structure CounterHash where
  amounts : Amounts
  ttl : Option ℕ := none
  deriving DecidableEq, Repr

/-- One reservation in flight: until when a rebuild carries it, and what it set aside. -/
structure OpenEntry where
  deadline : ℤ
  amounts : Amounts
  deriving DecidableEq, Repr

/-- What Redis holds for one `(scope_key, period_key)`, over the names `ι` of reservations. -/
structure CounterKeys (ι : Type) [DecidableEq ι] where
  counter : Option CounterHash := none
  openSet : AList fun _ : ι => OpenEntry := ∅
  openTtl : Option ℕ := none

/-- `HINCRBY` on the three fields. -/
def CounterHash.incrBy (h : CounterHash) (a : Amounts) : CounterHash :=
  { h with amounts := h.amounts + a }

/-- The expiry is set where the counter has none and never extended. -/
def CounterHash.expiring (h : CounterHash) : CounterHash :=
  { h with ttl := some (h.ttl.getD counterTtlSeconds) }

/-- A field below zero is set to zero. -/
def clampField (z : ℤ) : ℤ := if luaNumber z < 0 then 0 else z

/-- No field stays negative: a negative counter would grant free headroom. -/
def CounterHash.clamped (h : CounterHash) : CounterHash :=
  { h with
    amounts := ⟨clampField h.amounts.tokens, clampField h.amounts.requests,
      clampField h.amounts.costNanos⟩ }

/-- An entry a rebuild adds back: its deadline reads as a number and has not passed. -/
def OpenEntry.live (now : ℤ) (e : OpenEntry) : Bool :=
  -- `^(%d+):` matches no deadline with a sign
  decide (0 ≤ e.deadline) && decide (luaNumber now < luaNumber e.deadline)

/-- The limit on one dimension has been reached: checked before the reservation is added. -/
def Limits.reached (l : Limits) (current : Amounts) (d : Dimension) : Bool :=
  decide (0 ≤ luaNumber (cap (l.get d))) &&
    decide (luaNumber (cap (l.get d)) ≤ luaNumber (current.get d))

/-- Which limit refuses, in the order the script asks. -/
def Limits.breached (l : Limits) (current : Amounts) : Option Dimension :=
  if l.reached current .cost then some .cost
  else if l.reached current .requests then some .requests
  else if l.reached current .tokens then some .tokens
  else none

namespace CounterKeys

variable {ι : Type} [DecidableEq ι]

/-- The rebuild loop over `HGETALL`: a live entry is added to the counter, any other one is
deleted. -/
def addOpen (now : ℤ) (entries : List (Sigma fun _ : ι => OpenEntry)) (h : CounterHash)
    (o : AList fun _ : ι => OpenEntry) : CounterHash × AList fun _ : ι => OpenEntry :=
  entries.foldl
    (fun acc e => if e.2.live now then (acc.1.incrBy e.2.amounts, acc.2)
      else (acc.1, acc.2.erase e.1))
    (h, o)

/-- The counter a reservation is checked against, and the open set beside it: the one that is
there, or one built from `seed` and what is still open. -/
def built (k : CounterKeys ι) (seed : Amounts) (now : ℤ) :
    CounterHash × AList fun _ : ι => OpenEntry :=
  match k.counter with
  | some h => (h, k.openSet)
  | none => addOpen now k.openSet.entries { amounts := seed } k.openSet

/-- The figure the limits are checked against. -/
def standing (k : CounterKeys ι) (seed : Amounts) (now : ℤ) : Amounts :=
  (k.built seed now).1.amounts

/-- `_RESERVE`: reserve `amounts`, or name the limit that refuses them. `reservation` is `none`
for the empty name, which is reserved and carried by nothing. -/
def reserve (k : CounterKeys ι) (limits : Limits) (amounts seed : Amounts)
    (reservation : Option ι) (now : ℤ) : Option Dimension × CounterKeys ι :=
  let (hash, openSet) := k.built seed now
  -- before the limit checks: a counter built for a refused reservation must still expire
  let hash := hash.expiring
  match limits.breached hash.amounts with
  | some d => (some d, { k with counter := some hash, openSet := openSet })
  | none =>
    let k := { k with counter := some (hash.incrBy amounts), openSet := openSet }
    match reservation with
    | none => (none, k)
    | some r =>
      let entry : OpenEntry := ⟨now + reservationLifetimeSeconds, amounts⟩
      (none, { k with
        openSet := k.openSet.insert r entry
        openTtl := some reservationLifetimeSeconds })

/-- `_ADJUST`: close the reservation, and move the counter where there is one. -/
def adjust (k : CounterKeys ι) (amounts : Amounts) (reservation : Option ι) : CounterKeys ι :=
  -- whether or not the counter is there: a rebuild that added it back would count it twice
  let k := match reservation with
    | none => k
    | some r => { k with openSet := k.openSet.erase r }
  { k with counter := k.counter.map fun h => ((h.incrBy amounts).clamped).expiring }

end CounterKeys

/-! ### What the comparisons say -/

@[simp]
theorem clampField_eq_max (z : ℤ) : clampField z = max 0 z := by
  have hneg : luaNumber z < 0 ↔ z < 0 := binary64OfInt_neg_iff
  unfold clampField
  simp only [hneg]
  split_ifs <;> omega

@[simp]
theorem CounterHash.get_clamped (h : CounterHash) (d : Dimension) :
    h.clamped.amounts.get d = max 0 (h.amounts.get d) := by
  cases d <;> simp [clamped, Amounts.get]

@[simp]
theorem CounterHash.amounts_incrBy (h : CounterHash) (a : Amounts) :
    (h.incrBy a).amounts = h.amounts + a := rfl

@[simp]
theorem CounterHash.amounts_expiring (h : CounterHash) : h.expiring.amounts = h.amounts := rfl

/-- **A limit that is met is always seen to be met**, at every magnitude. -/
theorem Limits.reached_of_le {l : Limits} {d : Dimension} {limit : ℤ} (h : l.get d = some limit)
    {current : Amounts} (hcur : 0 ≤ current.get d) (hle : limit ≤ current.get d) :
    l.reached current d = true := by
  have hcap : (0 : ℤ) ≤ binary64OfInt (max 0 limit) :=
    not_lt.mp (binary64OfInt_neg_iff.not.mpr (by omega))
  have hmono : binary64OfInt (max 0 limit) ≤ binary64OfInt (current.get d) :=
    binary64OfInt_mono (max_le hcur hle)
  simp [reached, h, cap, hcap, hmono]

/-- Up to `2 ^ 53` a limit refuses exactly the figures that have reached it. -/
theorem Limits.reached_iff {l : Limits} {d : Dimension} {limit : ℤ} (h : l.get d = some limit)
    (hlim : limit ≤ 2 ^ 53) (current : Amounts) (hcur : 0 ≤ current.get d) :
    l.reached current d = true ↔ limit ≤ current.get d := by
  have hcap : (0 : ℤ) ≤ binary64OfInt (max 0 limit) :=
    not_lt.mp (binary64OfInt_neg_iff.not.mpr (by omega))
  have hiff := binary64OfInt_le_iff (b := max 0 limit) (x := current.get d)
    (le_max_left _ _) (max_le (by norm_num) hlim) hcur
  simp only [reached, h, cap, hcap, luaNumber, decide_true, Bool.true_and, decide_eq_true_eq,
    hiff]
  omega

theorem Limits.breached_eq_none_iff {l : Limits} {current : Amounts} :
    l.breached current = none ↔ ∀ d, l.reached current d = false := by
  constructor
  · intro h d
    unfold breached at h
    split_ifs at h with hc hr ht
    cases d
    · simpa using ht
    · simpa using hr
    · simpa using hc
  · intro h
    simp [breached, h]

/-! ### What each script does -/

namespace CounterKeys

variable {ι : Type} [DecidableEq ι]

theorem addOpen_cons_of_live {now : ℤ} {e : Sigma fun _ : ι => OpenEntry}
    (hlive : e.2.live now = true) (rest : List (Sigma fun _ : ι => OpenEntry)) (h : CounterHash)
    (o : AList fun _ : ι => OpenEntry) :
    addOpen now (e :: rest) h o = addOpen now rest (h.incrBy e.2.amounts) o := by
  simp [addOpen, hlive]

theorem addOpen_cons_of_dead {now : ℤ} {e : Sigma fun _ : ι => OpenEntry}
    (hdead : ¬ e.2.live now = true) (rest : List (Sigma fun _ : ι => OpenEntry))
    (h : CounterHash) (o : AList fun _ : ι => OpenEntry) :
    addOpen now (e :: rest) h o = addOpen now rest h (o.erase e.1) := by
  simp [addOpen, hdead]

theorem addOpen_of_live {now : ℤ} {entries : List (Sigma fun _ : ι => OpenEntry)}
    (hlive : ∀ e ∈ entries, e.2.live now = true) (h : CounterHash)
    (o : AList fun _ : ι => OpenEntry) :
    (addOpen now entries h o).2 = o ∧ ∀ d, (addOpen now entries h o).1.amounts.get d
      = h.amounts.get d + (entries.map fun e => e.2.amounts.get d).sum := by
  induction entries generalizing h with
  | nil => simp [addOpen]
  | cons e rest ih =>
    obtain ⟨hopen, hget⟩ := ih (fun e' he' => hlive e' (by simp [he'])) (h.incrBy e.2.amounts)
    rw [addOpen_cons_of_live (hlive e (by simp))]
    refine ⟨hopen, fun d => ?_⟩
    rw [hget d, CounterHash.amounts_incrBy, Amounts.get_add, List.map_cons, List.sum_cons]
    exact add_assoc _ _ _

/-- A counter that is there is taken as it is. -/
theorem built_of_counter {k : CounterKeys ι} {h : CounterHash} (hk : k.counter = some h)
    (seed : Amounts) (now : ℤ) : k.built seed now = (h, k.openSet) := by
  rw [built, hk]

/-- Without a deadline passed, a rebuild keeps the open set as it is. -/
theorem built_openSet {k : CounterKeys ι} {now : ℤ}
    (hlive : ∀ e ∈ k.openSet.entries, e.2.live now = true) (seed : Amounts) :
    (k.built seed now).2 = k.openSet := by
  cases hk : k.counter with
  | some h => rw [built_of_counter hk]
  | none =>
    rw [built, hk]
    exact (addOpen_of_live hlive _ _).1

/-- Without a deadline passed, a missing counter is rebuilt as its seed and every reservation
still open. -/
theorem standing_of_missing {k : CounterKeys ι} {now : ℤ} (hk : k.counter = none)
    (hlive : ∀ e ∈ k.openSet.entries, e.2.live now = true) (seed : Amounts) (d : Dimension) :
    (k.standing seed now).get d
      = seed.get d + (k.openSet.entries.map fun e => e.2.amounts.get d).sum := by
  rw [standing, built, hk]
  exact (addOpen_of_live hlive _ _).2 d

/-- A counter that is there is what the limits are checked against. -/
theorem standing_of_counter {k : CounterKeys ι} {h : CounterHash} (hk : k.counter = some h)
    (seed : Amounts) (now : ℤ) : k.standing seed now = h.amounts := by
  rw [standing, built_of_counter hk]

/-- A refused reservation leaves the counter at the figure it was checked against. -/
theorem reserve_of_breached {k : CounterKeys ι} {limits : Limits} {seed : Amounts} {now : ℤ}
    {d : Dimension} (h : limits.breached (k.standing seed now) = some d) (amounts : Amounts)
    (r : Option ι) :
    k.reserve limits amounts seed r now
      = (some d, { k with
          counter := some (k.built seed now).1.expiring
          openSet := (k.built seed now).2 }) := by
  have hb : limits.breached (k.built seed now).1.expiring.amounts = some d := h
  simp only [reserve, hb]

/-- An admitted reservation is added to the figure it was checked against and named in the
open set. -/
theorem reserve_of_admitted {k : CounterKeys ι} {limits : Limits} {seed : Amounts} {now : ℤ}
    (h : limits.breached (k.standing seed now) = none) (amounts : Amounts) (r : ι) :
    k.reserve limits amounts seed (some r) now
      = (none, { k with
          counter := some ((k.built seed now).1.expiring.incrBy amounts)
          openSet := (k.built seed now).2.insert r
            ⟨now + reservationLifetimeSeconds, amounts⟩
          openTtl := some reservationLifetimeSeconds }) := by
  have hb : limits.breached (k.built seed now).1.expiring.amounts = none := h
  simp only [reserve, hb]

/-- An admitted reservation raises the figure by its amounts. -/
theorem standing_reserve_of_admitted {k : CounterKeys ι} {limits : Limits} {seed : Amounts}
    {now : ℤ} (h : limits.breached (k.standing seed now) = none) (amounts : Amounts) (r : ι)
    (d : Dimension) :
    ((k.reserve limits amounts seed (some r) now).2.standing seed now).get d
      = (k.standing seed now).get d + amounts.get d := by
  rw [reserve_of_admitted h, standing_of_counter rfl, CounterHash.amounts_incrBy,
    CounterHash.amounts_expiring, Amounts.get_add, standing]

/-- A refused reservation leaves the figure as it was. -/
theorem standing_reserve_of_breached {k : CounterKeys ι} {limits : Limits} {seed : Amounts}
    {now : ℤ} {d : Dimension} (h : limits.breached (k.standing seed now) = some d)
    (amounts : Amounts) (r : Option ι) :
    (k.reserve limits amounts seed r now).2.standing seed now = k.standing seed now := by
  rw [reserve_of_breached h, standing_of_counter rfl, CounterHash.amounts_expiring, standing]

/-- The rebuild loop takes entries out of the open set and puts none in. -/
theorem lookup_addOpen {now : ℤ} {r : ι} {entries : List (Sigma fun _ : ι => OpenEntry)}
    {h : CounterHash} {o : AList fun _ : ι => OpenEntry} {e : OpenEntry}
    (hr : (addOpen now entries h o).2.lookup r = some e) : o.lookup r = some e := by
  induction entries generalizing h o with
  | nil => exact hr
  | cons e' rest ih =>
    by_cases hlive : e'.2.live now = true
    · rw [addOpen_cons_of_live hlive] at hr
      exact ih hr
    · -- the entry the loop deletes is one no later step puts back
      rw [addOpen_cons_of_dead hlive] at hr
      have herased := ih hr
      rcases eq_or_ne r e'.1 with rfl | hne
      · rw [AList.lookup_erase] at herased
        cases herased
      · rwa [AList.lookup_erase_ne hne] at herased

theorem lookup_of_lookup_built {k : CounterKeys ι} {seed : Amounts} {now : ℤ} {r : ι}
    {e : OpenEntry} (hr : (k.built seed now).2.lookup r = some e) :
    k.openSet.lookup r = some e := by
  cases hk : k.counter with
  | some c => rwa [built_of_counter hk] at hr
  | none =>
    rw [built, hk] at hr
    exact lookup_addOpen hr

@[simp]
theorem adjust_openSet (k : CounterKeys ι) (amounts : Amounts) (r : ι) :
    (k.adjust amounts (some r)).openSet = k.openSet.erase r := rfl

theorem adjust_counter (k : CounterKeys ι) (amounts : Amounts) (r : Option ι) :
    (k.adjust amounts r).counter
      = k.counter.map fun h => ((h.incrBy amounts).clamped).expiring := by
  cases r <;> rfl

/-- A correction reaches the counter where there is one, and never leaves it below zero. -/
theorem adjust_of_counter {k : CounterKeys ι} {h : CounterHash} (hk : k.counter = some h)
    (amounts : Amounts) (r : Option ι) : ∃ h', (k.adjust amounts r).counter = some h' ∧
      ∀ d, h'.amounts.get d = max 0 (h.amounts.get d + amounts.get d) :=
  ⟨((h.incrBy amounts).clamped).expiring, by rw [adjust_counter, hk, Option.map_some],
    fun d => by simp⟩

/-- A counter after a correction was there before it. -/
theorem counter_of_adjust {k : CounterKeys ι} {amounts : Amounts} {r : Option ι}
    {h' : CounterHash} (hk : (k.adjust amounts r).counter = some h') :
    ∃ h, k.counter = some h ∧
      ∀ d, h'.amounts.get d = max 0 (h.amounts.get d + amounts.get d) := by
  cases hc : k.counter with
  | none =>
    rw [adjust_counter, hc] at hk
    cases hk
  | some h =>
    obtain ⟨h'', hk', hget⟩ := adjust_of_counter hc amounts r
    obtain rfl := Option.some.inj (hk.symm.trans hk')
    exact ⟨h, rfl, hget⟩

/-! ### No figure is negative -/

/-- No figure of the two keys is negative. -/
structure NonNeg (k : CounterKeys ι) : Prop where
  counter : ∀ h, k.counter = some h → ∀ d, 0 ≤ h.amounts.get d
  openSet : ∀ r e, k.openSet.lookup r = some e → ∀ d, 0 ≤ e.amounts.get d

theorem addOpen_nonneg {now : ℤ} {entries : List (Sigma fun _ : ι => OpenEntry)}
    (hall : ∀ e ∈ entries, ∀ d, 0 ≤ e.2.amounts.get d) {h : CounterHash}
    (o : AList fun _ : ι => OpenEntry) (d : Dimension) (hh : 0 ≤ h.amounts.get d) :
    0 ≤ (addOpen now entries h o).1.amounts.get d := by
  induction entries generalizing h o with
  | nil => exact hh
  | cons e rest ih =>
    have hrest : ∀ e' ∈ rest, ∀ d, 0 ≤ e'.2.amounts.get d := fun e' he' =>
      hall e' (List.mem_cons_of_mem _ he')
    by_cases hlive : e.2.live now = true
    · rw [addOpen_cons_of_live hlive]
      refine ih hrest _ ?_
      have he := hall e List.mem_cons_self d
      rw [CounterHash.amounts_incrBy, Amounts.get_add]
      omega
    · rw [addOpen_cons_of_dead hlive]
      exact ih hrest _ hh

namespace NonNeg

variable {k : CounterKeys ι} {seed amounts : Amounts}

/-- From figures that are not negative a rebuild makes one that is not. -/
theorem standing (hk : k.NonNeg) (hseed : ∀ d, 0 ≤ seed.get d) (now : ℤ) (d : Dimension) :
    0 ≤ (k.standing seed now).get d := by
  cases hc : k.counter with
  | some h =>
    rw [standing_of_counter hc]
    exact hk.counter h hc d
  | none =>
    rw [CounterKeys.standing, built, hc]
    exact addOpen_nonneg (fun e he => hk.openSet e.1 e.2 (AList.mem_lookup_iff.mpr he)) _ _
      (hseed d)

/-- `_RESERVE` with a seed and amounts that are not negative leaves no negative figure. -/
theorem reserve (hk : k.NonNeg) (hseed : ∀ d, 0 ≤ seed.get d)
    (hamounts : ∀ d, 0 ≤ amounts.get d) (limits : Limits) (r : ι) (now : ℤ) :
    (k.reserve limits amounts seed (some r) now).2.NonNeg := by
  cases hb : limits.breached (k.standing seed now) with
  | some e =>
    rw [reserve_of_breached hb]
    refine ⟨fun h hh d => ?_, fun s entry hs => hk.openSet s entry (lookup_of_lookup_built hs)⟩
    obtain rfl := Option.some.inj hh
    exact hk.standing hseed now d
  | none =>
    rw [reserve_of_admitted hb]
    refine ⟨fun h hh d => ?_, fun s entry hs => ?_⟩
    · obtain rfl := Option.some.inj hh
      rw [CounterHash.amounts_incrBy, Amounts.get_add]
      exact add_nonneg (hk.standing hseed now d) (hamounts d)
    · rcases eq_or_ne s r with rfl | hne
      · rw [AList.lookup_insert] at hs
        obtain rfl := Option.some.inj hs
        exact hamounts
      · rw [AList.lookup_insert_ne hne] at hs
        exact hk.openSet s entry (lookup_of_lookup_built hs)

/-- `_ADJUST` leaves no negative figure, whatever it moves the counter by. -/
theorem adjust (hk : k.NonNeg) (amounts : Amounts) (r : ι) :
    (k.adjust amounts (some r)).NonNeg := by
  refine ⟨fun h hh d => ?_, fun s entry hs => ?_⟩
  · obtain ⟨_, _, hget⟩ := counter_of_adjust hh
    rw [hget d]
    exact le_max_left _ _
  · change (k.openSet.erase r).lookup s = some entry at hs
    rcases eq_or_ne s r with rfl | hne
    · rw [AList.lookup_erase] at hs
      cases hs
    · exact hk.openSet s entry (by rwa [AList.lookup_erase_ne hne] at hs)

end NonNeg

end CounterKeys

end AiraGateway
