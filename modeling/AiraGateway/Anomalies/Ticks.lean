import AiraGateway.Anomalies.Service
import AiraGateway.Library.Runs
import Mathlib.Logic.Function.Basic

/-!
# Ticks of a fleet

Every instance wakes on a timer of its own and asks for one lock. Who gets it looks which use cases
saw traffic since its watermark, evaluates the rules over the whole table, and commits; the lock
goes with the transaction. Who does not get it moves its watermark and stops. A tick that fails
leaves the watermark where it was.

* `evaluated_once`: in every run, with clocks that differ by any amounts, the findings stored are a
  window apart, a rule that fails stores nothing and changes nothing for the others, every
  suspension has its event, and the cache of suspensions is dropped after the commit.
-/

namespace AiraGateway.Anomalies

/-- The rules as the read-model holds them. -/
structure RuleTable where
  rules : List AnomalyRuleRead
  ids_nodup : (rules.map AnomalyRuleRead.id).Nodup

/-- What the rules of one tick are evaluated over, and which of their statements fail. -/
structure Round where
  suspensions : Option Bool
  stored : List AnomalyEvent
  now : ℤ
  rules : List AnomalyRuleRead
  ids_nodup : (rules.map AnomalyRuleRead.id).Nodup
  seen : AnomalyRuleRead → List RequestLog
  errors : AnomalyRuleRead → ℕ → Bool

namespace Round

variable (rounded : ℤ → ℤ → ℤ) (round : Round)

def written : Written :=
  evaluate round.suspensions rounded round.stored round.now round.seen round.errors round.rules {}

/-- A statement of this rule fails. -/
def Fails (rule : AnomalyRuleRead) : Prop :=
  statementFails (round.errors rule) (evaluateRule rounded (round.seen rule) rule round.now) = true

/-- The round without one of its rules. -/
def without (rule : AnomalyRuleRead) : Round :=
  { round with
    rules := round.rules.filter (· ≠ rule)
    ids_nodup := round.ids_nodup.sublist (List.filter_sublist.map _) }

end Round

/-- Where an instance's tick is. -/
inductive TickPhase
  | idle
  | begun (moment : ℤ)
  | claimed (moment : ℤ)
  | measured (moment : ℤ) (touched : List (Option CodePoints))
  | evaluated (touched : List (Option CodePoints)) (round : Round)
  | committed (round : Round)

namespace TickPhase

/-- When the tick began. -/
def moment? : TickPhase → Option ℤ
  | idle => none
  | begun moment => some moment
  | claimed moment => some moment
  | measured moment _ => some moment
  | evaluated _ round => some round.now
  | committed round => some round.now

/-- Whether the tick's transaction holds the lock. -/
def holds : TickPhase → Bool
  | claimed _ => true
  | measured _ _ => true
  | evaluated _ _ => true
  | _ => false

end TickPhase

/-- What is told of a run. -/
inductive TickEvent (ι : Type)
  | starts (i : ι) (time : ℤ)
  | claims (i : ι) (moment : ℤ)
  | loses (i : ι) (moment : ℤ)
  | succeeds (i : ι) (touched : List (Option CodePoints)) (round : Round)
  /-- A tick that had the lock fails. -/
  | fails (i : ι) (moment : ℤ)
  /-- The cache of suspensions is dropped. -/
  | drops (i : ι) (round : Round)

/-- The tables, the lock and the instances. The log has the newest event first. -/
structure TickWorld (ι : Type) where
  rows : List RequestLog := []
  rules : RuleTable
  stored : Written := {}
  clock : ℤ
  holder : Option ι := none
  since : ι → Option ℤ := fun _ => none
  phase : ι → TickPhase := fun _ => .idle
  log : List (TickEvent ι) := []

inductive TickAct (ι : Type)
  | elapse (time : ℤ)
  | request (row : RequestLog)
  | publish (rules : RuleTable)
  | start (i : ι)
  /-- The tick reads its clock. -/
  | wake (i : ι) (moment : ℤ)
  | claim (i : ι)
  | lose (i : ι)
  | measure (i : ι)
  | evaluate (i : ι) (seen : AnomalyRuleRead → List RequestLog) (errors : AnomalyRuleRead → ℕ → Bool)
  | commit (i : ι)
  | conclude (i : ι)
  | fail (i : ι)

/-- Which scopes saw traffic since a moment. -/
def touchedSince (rows : List RequestLog) (since : ℤ) : List (Option CodePoints) :=
  ((rows.filter fun row => decide (since ≤ row.createdAt)).map (·.useCase)).eraseDups

/-- One transaction's rows after another's. -/
def Written.append (a b : Written) : Written :=
  ⟨a.events ++ b.events, a.suspensions ++ b.suspensions⟩

namespace TickWorld

variable {ι : Type}

def tell (w : TickWorld ι) (e : TickEvent ι) : TickWorld ι := { w with log := e :: w.log }

/-- Where an instance looks from: its watermark, or one interval back on its first tick. -/
def windowStart (interval : ℤ) (w : TickWorld ι) (i : ι) (moment : ℤ) : ℤ :=
  (w.since i).getD (moment - interval)

variable [DecidableEq ι]

def setPhase (w : TickWorld ι) (i : ι) (p : TickPhase) : TickWorld ι :=
  { w with phase := Function.update w.phase i p }

def setSince (w : TickWorld ι) (i : ι) (since : Option ℤ) : TickWorld ι :=
  { w with since := Function.update w.since i since }

/-- The transaction ends without a commit. -/
def rollback (w : TickWorld ι) (i : ι) (moment : ℤ) : TickWorld ι :=
  { (w.setPhase i .idle).tell (.fails i moment) with holder := none }

/-- The round of a tick that has measured which use cases saw traffic. -/
def round (w : TickWorld ι) (suspensions : Option Bool) (moment : ℤ)
    (touched : List (Option CodePoints)) (seen : AnomalyRuleRead → List RequestLog)
    (errors : AnomalyRuleRead → ℕ → Bool) : Round where
  suspensions := suspensions
  stored := w.stored.events
  now := moment
  rules := applicable w.rules.rules touched
  ids_nodup := by
    unfold applicable
    split_ifs
    · exact List.nodup_nil
    · exact w.rules.ids_nodup.sublist (List.filter_sublist.map _)
  seen := seen
  errors := errors

-- the interval between ticks, and which instances enforce
variable (interval : ℤ) (suspensions : ι → Option Bool) (rounded : ℤ → ℤ → ℤ)

/-- One step of an instance, of its clients, of Management or of the clock. -/
def step (w : TickWorld ι) : TickAct ι → Option (TickWorld ι)
  | .elapse time => if w.clock ≤ time then some { w with clock := time } else none
  | .request row => some { w with rows := row :: w.rows }
  | .publish rules => some { w with rules := rules }
  | .start i =>
    match w.phase i with
    | .idle => some ((w.setSince i none).tell (.starts i w.clock))
    | _ => none
  | .wake i moment =>
    match w.phase i with
    | .idle => some (w.setPhase i (.begun moment))
    | _ => none
  | .claim i =>
    match w.phase i, w.holder with
    | .begun moment, none =>
      some { (w.setPhase i (.claimed moment)).tell (.claims i moment) with holder := some i }
    | _, _ => none
  | .lose i =>
    match w.phase i, w.holder with
    -- another instance is evaluating, over the fleet's traffic: advance and stop
    | .begun moment, some _ =>
      some (((w.setSince i (some moment)).setPhase i .idle).tell (.loses i moment))
    | _, _ => none
  | .measure i =>
    match w.phase i with
    | .claimed moment =>
      some (w.setPhase i
        (.measured moment (touchedSince w.rows (w.windowStart interval i moment))))
    | _ => none
  | .evaluate i seen errors =>
    match w.phase i with
    | .measured moment touched =>
      some (w.setPhase i
        (.evaluated touched (w.round (suspensions i) moment touched seen errors)))
    | _ => none
  | .commit i =>
    match w.phase i with
    | .evaluated touched round =>
      some { (w.setPhase i (.committed round)).tell (.succeeds i touched round) with
        holder := none, stored := w.stored.append (round.written rounded) }
    | _ => none
  | .conclude i =>
    match w.phase i with
    | .committed round =>
      let w := (w.setSince i (some round.now)).setPhase i .idle
      some (if dropsCache round.suspensions (round.written rounded) then w.tell (.drops i round)
        else w)
    | _ => none
  | .fail i =>
    match w.phase i with
    | .idle => none
    | .begun _ => some (w.setPhase i .idle)
    | .claimed moment => some (w.rollback i moment)
    | .measured moment _ => some (w.rollback i moment)
    | .evaluated _ round => some (w.rollback i round.now)
    -- what was committed stays
    | .committed _ => some (w.setPhase i .idle)

/-- Nothing is stored yet and no instance has started. -/
def created (rules : RuleTable) (clock : ℤ) : TickWorld ι := { rules := rules, clock := clock }

/-! ### What a step can do -/

/-- The steps, each with what it needs. -/
inductive Moves (w : TickWorld ι) : TickAct ι → TickWorld ι → Prop
  | elapse {time : ℤ} (hclock : w.clock ≤ time) : Moves w (.elapse time) { w with clock := time }
  | request (row : RequestLog) : Moves w (.request row) { w with rows := row :: w.rows }
  | publish (rules : RuleTable) : Moves w (.publish rules) { w with rules := rules }
  | start {i : ι} (hphase : w.phase i = .idle) :
      Moves w (.start i) ((w.setSince i none).tell (.starts i w.clock))
  | wake {i : ι} {moment : ℤ} (hphase : w.phase i = .idle) :
      Moves w (.wake i moment) (w.setPhase i (.begun moment))
  | claim {i : ι} {moment : ℤ} (hphase : w.phase i = .begun moment) (hfree : w.holder = none) :
      Moves w (.claim i)
        { (w.setPhase i (.claimed moment)).tell (.claims i moment) with holder := some i }
  | lose {i j : ι} {moment : ℤ} (hphase : w.phase i = .begun moment) (htaken : w.holder = some j) :
      Moves w (.lose i) (((w.setSince i (some moment)).setPhase i .idle).tell (.loses i moment))
  | measure {i : ι} {moment : ℤ} (hphase : w.phase i = .claimed moment) :
      Moves w (.measure i) (w.setPhase i
        (.measured moment (touchedSince w.rows (w.windowStart interval i moment))))
  | evaluate {i : ι} {moment : ℤ} {touched : List (Option CodePoints)}
      (seen : AnomalyRuleRead → List RequestLog) (errors : AnomalyRuleRead → ℕ → Bool)
      (hphase : w.phase i = .measured moment touched) :
      Moves w (.evaluate i seen errors) (w.setPhase i
        (.evaluated touched (w.round (suspensions i) moment touched seen errors)))
  | commit {i : ι} {touched : List (Option CodePoints)} {round : Round}
      (hphase : w.phase i = .evaluated touched round) :
      Moves w (.commit i) { (w.setPhase i (.committed round)).tell (.succeeds i touched round) with
        holder := none, stored := w.stored.append (round.written rounded) }
  | conclude {i : ι} {round : Round} (hphase : w.phase i = .committed round) :
      Moves w (.conclude i) ((w.setSince i (some round.now)).setPhase i .idle)
  | concludeAndDrop {i : ι} {round : Round} (hphase : w.phase i = .committed round) :
      Moves w (.conclude i)
        (((w.setSince i (some round.now)).setPhase i .idle).tell (.drops i round))
  | rollback {i : ι} {moment : ℤ} (hmoment : (w.phase i).moment? = some moment)
      (hholds : (w.phase i).holds = true) : Moves w (.fail i) (w.rollback i moment)
  | giveUp {i : ι} (hholds : (w.phase i).holds = false) : Moves w (.fail i) (w.setPhase i .idle)

variable {interval suspensions rounded}

theorem moves_of_step {w w' : TickWorld ι} {a : TickAct ι}
    (h : step interval suspensions rounded w a = some w') :
    Moves interval suspensions rounded w a w' := by
  cases a with
  | elapse time =>
    simp only [step] at h
    split_ifs at h with hclock
    obtain rfl := Option.some.inj h
    exact .elapse hclock
  | request row =>
    obtain rfl := Option.some.inj h
    exact .request row
  | publish rules =>
    obtain rfl := Option.some.inj h
    exact .publish rules
  | start i =>
    simp only [step] at h
    split at h
    · obtain rfl := Option.some.inj h
      exact .start ‹_›
    · simp at h
  | wake i moment =>
    simp only [step] at h
    split at h
    · obtain rfl := Option.some.inj h
      exact .wake ‹_›
    · simp at h
  | claim i =>
    simp only [step] at h
    split at h
    · obtain rfl := Option.some.inj h
      exact .claim ‹_› ‹_›
    · simp at h
  | lose i =>
    simp only [step] at h
    split at h
    · obtain rfl := Option.some.inj h
      exact .lose ‹_› ‹_›
    · simp at h
  | measure i =>
    simp only [step] at h
    split at h
    · obtain rfl := Option.some.inj h
      exact .measure ‹_›
    · simp at h
  | evaluate i seen errors =>
    simp only [step] at h
    split at h
    · obtain rfl := Option.some.inj h
      exact .evaluate seen errors ‹_›
    · simp at h
  | commit i =>
    simp only [step] at h
    split at h
    · obtain rfl := Option.some.inj h
      exact .commit ‹_›
    · simp at h
  | conclude i =>
    simp only [step] at h
    split at h
    · obtain rfl := Option.some.inj h
      split_ifs
      · exact .concludeAndDrop ‹_›
      · exact .conclude ‹_›
    · simp at h
  | fail i =>
    simp only [step] at h
    split at h
    · simp at h
    · obtain rfl := Option.some.inj h
      exact .giveUp (by simp [*, TickPhase.holds])
    · obtain rfl := Option.some.inj h
      exact .rollback (by simp [*, TickPhase.moment?]) (by simp [*, TickPhase.holds])
    · obtain rfl := Option.some.inj h
      exact .rollback (by simp [*, TickPhase.moment?]) (by simp [*, TickPhase.holds])
    · obtain rfl := Option.some.inj h
      exact .rollback (by simp [*, TickPhase.moment?]) (by simp [*, TickPhase.holds])
    · obtain rfl := Option.some.inj h
      exact .giveUp (by simp [*, TickPhase.holds])

/-! ### The lock -/

section Projections

variable (w : TickWorld ι) (i : ι)

@[simp] theorem phase_setPhase_self (p : TickPhase) : (w.setPhase i p).phase i = p :=
  Function.update_self ..

@[simp] theorem phase_setPhase_of_ne {j : ι} (h : j ≠ i) (p : TickPhase) :
    (w.setPhase i p).phase j = w.phase j :=
  Function.update_of_ne h ..

@[simp] theorem phase_setSince (since : Option ℤ) : (w.setSince i since).phase = w.phase := rfl

omit [DecidableEq ι] in
@[simp] theorem phase_tell (e : TickEvent ι) : (w.tell e).phase = w.phase := rfl

@[simp] theorem log_setPhase (p : TickPhase) : (w.setPhase i p).log = w.log := rfl

omit [DecidableEq ι] in
@[simp] theorem log_tell (e : TickEvent ι) : (w.tell e).log = e :: w.log := rfl

end Projections

/-- The lock is held by the tick whose transaction it belongs to. -/
def Locked (w : TickWorld ι) : Prop := ∀ i, (w.phase i).holds = true ↔ w.holder = some i

/-- A phase changes and the lock stays where it is. -/
theorem Locked.setPhase {w : TickWorld ι} (h : w.Locked) {i : ι} {p : TickPhase}
    (hholds : p.holds = (w.phase i).holds) : (w.setPhase i p).Locked := by
  intro j
  by_cases hj : j = i
  · subst hj
    rw [phase_setPhase_self, hholds]
    exact h j
  · rw [phase_setPhase_of_ne w i hj]
    exact h j

/-- A tick that held the lock leaves it. -/
theorem Locked.release {w : TickWorld ι} (h : w.Locked) {i : ι} {p : TickPhase}
    (hheld : (w.phase i).holds = true) (hholds : p.holds = false) :
    Locked { w.setPhase i p with holder := none } := by
  intro j
  have hholder := (h i).mp hheld
  by_cases hj : j = i
  · subst hj
    simp [hholds]
  · have hphase : (w.setPhase i p).phase j = w.phase j := phase_setPhase_of_ne w i hj p
    have hnot : (w.phase j).holds ≠ true := by
      intro hother
      have := (h j).mp hother
      rw [hholder] at this
      exact hj (Option.some.inj this).symm
    simp [hphase, hnot]

theorem Locked.step {w w' : TickWorld ι} {a : TickAct ι} (h : w.Locked)
    (hmoves : Moves interval suspensions rounded w a w') : w'.Locked := by
  cases hmoves with
  | elapse | request | publish | start => exact h
  | wake hphase => exact h.setPhase (by rw [hphase]; rfl)
  | @claim i moment hphase hfree =>
    intro j
    by_cases hj : j = i
    · subst hj
      simp [TickPhase.holds]
    · have hnot : (w.phase j).holds ≠ true := by
        intro hother
        have := (h j).mp hother
        rw [hfree] at this
        exact absurd this (by simp)
      have hne : i ≠ j := fun heq => hj heq.symm
      simp [phase_setPhase_of_ne w i hj, hnot, hne]
  | lose hphase => exact h.setPhase (w := w.setSince _ _) (by rw [phase_setSince, hphase]; rfl)
  | measure hphase => exact h.setPhase (by rw [hphase]; rfl)
  | evaluate seen errors hphase => exact h.setPhase (by rw [hphase]; rfl)
  | commit hphase => exact h.release (by rw [hphase]; rfl) rfl
  | conclude hphase => exact h.setPhase (w := w.setSince _ _) (by rw [phase_setSince, hphase]; rfl)
  | concludeAndDrop hphase => exact h.setPhase (w := w.setSince _ _) (by rw [phase_setSince, hphase]; rfl)
  | rollback hmoment hholds => exact h.release hholds rfl
  | giveUp hholds => exact h.setPhase (by rw [hholds]; rfl)

omit [DecidableEq ι] in
theorem locked_created (rules : RuleTable) (clock : ℤ) :
    (created rules clock : TickWorld ι).Locked := by
  intro i
  simp [created, TickPhase.holds]

/-! ### One finding, one event, one action -/

/-- Every rule keeps the window it has. -/
def KeepsWindows (window : ℤ → ℤ) (rules : List AnomalyRuleRead) : Prop :=
  ∀ rule ∈ rules, window rule.id = rule.windowMinutes

theorem KeepsWindows.applicable {window : ℤ → ℤ} {rules : List AnomalyRuleRead}
    (h : KeepsWindows window rules) (touched : List (Option CodePoints)) :
    KeepsWindows window (applicable rules touched) := by
  intro rule hrule
  unfold Anomalies.applicable at hrule
  split_ifs at hrule
  · exact absurd hrule List.not_mem_nil
  · exact h rule (List.mem_filter.mp hrule).1

/-- The rows of the ticks that succeeded. -/
def storedBy (rounded : ℤ → ℤ → ℤ) : List (TickEvent ι) → Written
  | [] => {}
  | .succeeds _ _ round :: earlier => (storedBy rounded earlier).append (round.written rounded)
  | _ :: earlier => storedBy rounded earlier

/-- What the stored rows keep from one tick to the next. -/
structure FindsOnce (rounded : ℤ → ℤ → ℤ) (window : ℤ → ℤ) (w : TickWorld ι) : Prop where
  locked : w.Locked
  rules : KeepsWindows window w.rules.rules
  spaced : Spaced window w.stored.events
  told : Told w.stored
  stored : w.stored = storedBy rounded w.log
  evaluated : ∀ i touched round, w.phase i = .evaluated touched round →
    round.stored = w.stored.events ∧ KeepsWindows window round.rules
  committed : ∀ i round, w.phase i = .committed round → ∃ touched, .succeeds i touched round ∈ w.log
  dropped : ∀ i round earlier, (.drops i round :: earlier) <:+ w.log →
    ∃ touched, .succeeds i touched round ∈ earlier

namespace FindsOnce

variable {window : ℤ → ℤ} {w w' : TickWorld ι}

omit [DecidableEq ι] in
theorem created {rules : RuleTable} (h : KeepsWindows window rules.rules) (clock : ℤ) :
    FindsOnce rounded window (TickWorld.created rules clock : TickWorld ι) where
  locked := locked_created rules clock
  rules := h
  spaced := .nil
  told := .nil
  stored := rfl
  evaluated := by
    intro i touched round hphase
    simp [TickWorld.created] at hphase
  committed := by
    intro i round hphase
    simp [TickWorld.created] at hphase
  dropped := by
    intro i round earlier hsuffix
    have hnil : TickEvent.drops i round :: earlier = [] := List.suffix_nil.mp hsuffix
    exact absurd hnil (List.cons_ne_nil _ _)

/-- A tick moves on to a phase in which there is nothing to store. -/
theorem setPhase (h : FindsOnce rounded window w) {i : ι} {p : TickPhase} {holder : Option ι}
    (hlocked : Locked { w.setPhase i p with holder := holder })
    (hevaluated : ∀ touched round, p ≠ .evaluated touched round)
    (hcommitted : ∀ round, p ≠ .committed round) :
    FindsOnce rounded window { w.setPhase i p with holder := holder } where
  locked := hlocked
  rules := h.rules
  spaced := h.spaced
  told := h.told
  stored := h.stored
  evaluated := by
    intro j touched round hphase
    by_cases hj : j = i
    · subst hj
      exact absurd ((phase_setPhase_self w j p).symm.trans hphase) (hevaluated touched round)
    · exact h.evaluated j touched round ((phase_setPhase_of_ne w i hj p).symm.trans hphase)
  committed := by
    intro j round hphase
    by_cases hj : j = i
    · subst hj
      exact absurd ((phase_setPhase_self w j p).symm.trans hphase) (hcommitted round)
    · exact h.committed j round ((phase_setPhase_of_ne w i hj p).symm.trans hphase)
  dropped := h.dropped

omit [DecidableEq ι] in
/-- Something is told that stores nothing and drops nothing. -/
theorem tell (h : FindsOnce rounded window w) {e : TickEvent ι}
    (hstored : storedBy rounded (e :: w.log) = storedBy rounded w.log)
    (he : ∀ i round, e = .drops i round → ∃ touched, .succeeds i touched round ∈ w.log) :
    FindsOnce rounded window (w.tell e) where
  locked := h.locked
  rules := h.rules
  spaced := h.spaced
  told := h.told
  stored := h.stored.trans hstored.symm
  evaluated := h.evaluated
  committed := by
    intro i round hphase
    obtain ⟨touched, hmem⟩ := h.committed i round hphase
    exact ⟨touched, List.mem_cons_of_mem _ hmem⟩
  dropped := by
    intro i round earlier hsuffix
    obtain heq | hsuffix := List.suffix_cons_iff.mp hsuffix
    · obtain ⟨rfl, rfl⟩ := List.cons.inj heq
      exact he i round rfl
    · exact h.dropped i round earlier hsuffix

omit [DecidableEq ι] in
theorem setSince [DecidableEq ι] (h : FindsOnce rounded window w) (i : ι) (since : Option ℤ) :
    FindsOnce rounded window (w.setSince i since) :=
  ⟨h.locked, h.rules, h.spaced, h.told, h.stored, h.evaluated, h.committed, h.dropped⟩

/-- The rules are evaluated over what is stored. -/
theorem evaluate (h : FindsOnce rounded window w) {i : ι} {moment : ℤ}
    {touched : List (Option CodePoints)} {seen : AnomalyRuleRead → List RequestLog}
    {errors : AnomalyRuleRead → ℕ → Bool} {enforcing : Option Bool}
    (hlocked : (w.setPhase i
      (.evaluated touched (w.round enforcing moment touched seen errors))).Locked) :
    FindsOnce rounded window
      (w.setPhase i (.evaluated touched (w.round enforcing moment touched seen errors))) where
  locked := hlocked
  rules := h.rules
  spaced := h.spaced
  told := h.told
  stored := h.stored
  evaluated := by
    intro j touched' round hphase
    by_cases hj : j = i
    · subst hj
      rw [phase_setPhase_self] at hphase
      obtain ⟨rfl, rfl⟩ := TickPhase.evaluated.inj hphase
      exact ⟨rfl, h.rules.applicable touched⟩
    · exact h.evaluated j touched' round ((phase_setPhase_of_ne w i hj _).symm.trans hphase)
  committed := by
    intro j round hphase
    by_cases hj : j = i
    · subst hj
      rw [phase_setPhase_self] at hphase
      exact TickPhase.noConfusion hphase
    · exact h.committed j round ((phase_setPhase_of_ne w i hj _).symm.trans hphase)
  dropped := h.dropped

/-- What the one tick with the lock found is stored. -/
theorem commit (h : FindsOnce rounded window w) {i : ι} {touched : List (Option CodePoints)}
    {round : Round} (hphase : w.phase i = .evaluated touched round)
    (hlocked : Locked { w.setPhase i (.committed round) with holder := none }) :
    FindsOnce rounded window { (w.setPhase i (.committed round)).tell (.succeeds i touched round) with
      holder := none, stored := w.stored.append (round.written rounded) } where
  locked := hlocked
  rules := h.rules
  spaced := by
    obtain ⟨hstored, hwindows⟩ := h.evaluated i touched round hphase
    have hspaced : Spaced window (round.stored ++ ({} : Written).events) := by
      rw [hstored, List.append_nil]
      exact h.spaced
    have hafter : Spaced window (round.stored ++ (round.written rounded).events) :=
      hspaced.evaluate hwindows
    change Spaced window (w.stored.events ++ (round.written rounded).events)
    rw [← hstored]
    exact hafter
  told := by
    have hnothing : Told {} := .nil
    have hwritten : Told (round.written rounded) := hnothing.evaluate
    unfold Told at hwritten ⊢
    change List.Forall₂ Answers (w.stored.suspensions ++ _) ((w.stored.events ++ _).filter _)
    rw [List.filter_append]
    exact List.rel_append h.told hwritten
  stored := congrArg (·.append (round.written rounded)) h.stored
  evaluated := by
    intro j touched' other hother
    by_cases hj : j = i
    · subst hj
      exact TickPhase.noConfusion ((phase_setPhase_self w j _).symm.trans hother)
    · -- a second tick with something to store would hold the lock as well
      have hevaluated := (phase_setPhase_of_ne w i hj _).symm.trans hother
      have hi := (h.locked i).mp (by rw [hphase]; rfl)
      have hj' := (h.locked j).mp (by rw [hevaluated]; rfl)
      exact absurd (Option.some.inj (hj'.symm.trans hi)) hj
  committed := by
    intro j other hother
    by_cases hj : j = i
    · subst hj
      obtain rfl := TickPhase.committed.inj ((phase_setPhase_self w j _).symm.trans hother)
      exact ⟨touched, List.mem_cons_self ..⟩
    · obtain ⟨touched', hmem⟩ :=
        h.committed j other ((phase_setPhase_of_ne w i hj _).symm.trans hother)
      exact ⟨touched', List.mem_cons_of_mem _ hmem⟩
  dropped := by
    intro j other earlier hsuffix
    obtain heq | hsuffix := List.suffix_cons_iff.mp hsuffix
    · exact absurd (List.cons.inj heq).1 (by simp)
    · exact h.dropped j other earlier hsuffix

theorem step (h : FindsOnce rounded window w) {a : TickAct ι}
    (hwindows : ∀ rules, a = .publish rules → KeepsWindows window rules.rules)
    (hmoves : Moves interval suspensions rounded w a w') : FindsOnce rounded window w' := by
  have hlocked := h.locked.step hmoves
  cases hmoves with
  | elapse | request =>
    exact ⟨hlocked, h.rules, h.spaced, h.told, h.stored, h.evaluated, h.committed, h.dropped⟩
  | publish rules =>
    exact ⟨hlocked, hwindows rules rfl, h.spaced, h.told, h.stored, h.evaluated, h.committed,
      h.dropped⟩
  | start => exact (h.setSince _ _).tell rfl (by simp)
  | wake => exact h.setPhase hlocked (by simp) (by simp)
  | claim =>
    exact (h.setPhase hlocked (by simp) (by simp)).tell rfl (by simp)
  | lose => exact ((h.setSince _ _).setPhase hlocked (by simp) (by simp)).tell rfl (by simp)
  | measure => exact h.setPhase hlocked (by simp) (by simp)
  | evaluate => exact h.evaluate hlocked
  | commit hphase => exact h.commit hphase hlocked
  | conclude => exact (h.setSince _ _).setPhase hlocked (by simp) (by simp)
  | @concludeAndDrop i round hphase =>
    refine ((h.setSince _ _).setPhase hlocked (by simp) (by simp)).tell rfl ?_
    intro j other hdrops
    obtain ⟨rfl, rfl⟩ := TickEvent.drops.inj hdrops
    exact h.committed i round hphase
  | rollback => exact (h.setPhase hlocked (by simp) (by simp)).tell rfl (by simp)
  | giveUp => exact h.setPhase hlocked (by simp) (by simp)

end FindsOnce

/-- Management publishes rules whose windows do not change. -/
def WindowsStand (window : ℤ → ℤ) (_ : TickWorld ι) : TickAct ι → Prop
  | .publish rules => KeepsWindows window rules.rules
  | _ => True

/-- **One finding, one event, one action**: whatever the clocks, the order of the instances' steps
and the statements that fail, the stored findings of a rule about a target are a window apart, what
is stored is what the ticks that succeeded wrote, a rule that failed wrote nothing and left the
others what they would have written without it, every suspension has the one event that says so,
and the cache of suspensions is dropped after they are committed. -/
theorem evaluated_once {window : ℤ → ℤ} {rules : RuleTable} {clock : ℤ} {acts : List (TickAct ι)}
    {w : TickWorld ι} (hrules : KeepsWindows window rules.rules)
    (hrun : Run (step interval suspensions rounded) (WindowsStand window) (created rules clock)
      acts w) :
    Spaced window w.stored.events ∧
      w.stored = storedBy rounded w.log ∧
      (∀ i touched round, .succeeds i touched round ∈ w.log →
        ∀ rule ∈ round.rules, round.Fails rounded rule →
          (∀ event ∈ (round.written rounded).events, event.ruleId ≠ rule.id) ∧
            round.written rounded = (round.without rule).written rounded) ∧
      Told w.stored ∧
      ∀ i round earlier, (.drops i round :: earlier) <:+ w.log →
        ∃ touched, .succeeds i touched round ∈ earlier := by
  have hinv : FindsOnce rounded window w := by
    refine hrun.invariant (P := FindsOnce rounded window) ?_ (.created hrules clock)
    intro w a w' h hok hstep
    refine h.step ?_ (moves_of_step hstep)
    rintro rules rfl
    exact hok
  refine ⟨hinv.spaced, hinv.stored, ?_, hinv.told, hinv.dropped⟩
  intro i touched round _ rule hrule hfails
  exact ⟨fun event => ne_of_mem_evaluate_of_failed round.ids_nodup hrule hfails,
    evaluate_of_failed hfails⟩

end TickWorld

section Example

open TickWorld

/-- Blocks whoever has half of an hour's requests fail upstream. -/
private def errorRule : AnomalyRuleRead :=
  { id := 1, name := "errors", kind := "error_rate", windowMinutes := 60, threshold := 50,
    action := "block", actionMinutes := some 30 }

/-- Refusals, to whoever looks. -/
private def refusalRule : AnomalyRuleRead :=
  { id := 2, name := "refusals", kind := "refusal_rate", windowMinutes := 60, threshold := 50 }

private def twoRules : RuleTable := ⟨[refusalRule, errorRule], by decide⟩

private def failedRequest : RequestLog :=
  { id := "1", createdAt := 0, subject := some "anna", outcome := some "upstream_error" }

/-- A tick of one instance while the other loses; the first rule's rows cannot be written. -/
private def oneTick : List (TickAct Bool) :=
  [.request failedRequest, .wake false second, .claim false, .wake true (2 * second), .lose true,
    .measure false,
    .evaluate false (fun _ => [failedRequest]) (fun rule n => rule.id = 2 && n = 2),
    .commit false, .conclude false]

private def sixty (_ : ℤ) : ℤ := 60

private instance (rules : List AnomalyRuleRead) : Decidable (KeepsWindows sixty rules) :=
  inferInstanceAs (Decidable (∀ rule ∈ rules, sixty rule.id = rule.windowMinutes))

private instance (w : TickWorld Bool) : (a : TickAct Bool) → Decidable (WindowsStand sixty w a)
  | .publish rules => inferInstanceAs (Decidable (KeepsWindows sixty rules.rules))
  | .elapse _ | .request _ | .start _ | .wake .. | .claim _ | .lose _ | .measure _ | .evaluate ..
  | .commit _ | .conclude _ | .fail _ => .isTrue trivial

/-- Half the fleet loses, one rule fails, the other blocks. -/
theorem one_rule_fails_and_one_blocks : ∃ w : TickWorld Bool,
    (w.stored.events.map (·.ruleId) = [1] ∧ w.stored.suspensions.length = 1) ∧ Told w.stored := by
  have hran : (checkedRun (step minute (fun _ => some true) (fun a b => a / b)) (WindowsStand sixty)
      (created twoRules 0) oneTick).any (fun w =>
        decide (w.stored.events.map (·.ruleId) = [1]) &&
          decide (w.stored.suspensions.length = 1)) = true := by
    decide +kernel
  obtain ⟨w, hrun, hstored⟩ := (Option.any_eq_true _ _).mp hran
  simp only [Bool.and_eq_true, decide_eq_true_eq] at hstored
  have hkeeps : KeepsWindows sixty twoRules.rules := by decide
  exact ⟨w, hstored, (evaluated_once hkeeps (run_of_checkedRun hrun)).2.2.2.1⟩

end Example

end AiraGateway.Anomalies
