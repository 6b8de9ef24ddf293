import AiraGateway.Access.BothPlanes
import AiraGateway.Library.Runs
import Mathlib.Algebra.Order.Field.Rat
import Mathlib.Tactic.Linarith

/-!
# Grants and roles, read for every caller

The gateway reads its grants and its stored roles into a cache that it trusts for a few seconds.
Callers that find it stale queue at a lock; the one that has it looks again, and reads. A read that
fails drops what was there, and its answer stands for a while before the tables are read again.
Between two awaits a caller is alone, so a step here is what one caller does from one await to the
next. The clock moves between steps, and never back.

* `resolver_runs`: in every run one read at a time is in flight, every answer is backed by the
  newest read, and a failed one is not an answer to who comes a second after it. No caller repeats
  a failed read it has waited out exactly where each that did comes to the lock within a second of
  the read's beginning.
* `waited_out_and_repeated`: a read that fails late is repeated by those that waited for it.
-/

namespace AiraGateway.Access

/-! ### The cache -/

/-- How long a loaded answer is trusted. -/
def cacheTtlSeconds : ℚ := 5

/-- How long a failed read's answer stands before the tables are read again. -/
def retryAfterFailureSeconds : ℚ := 1

/-- What sets one resolver apart: what it makes of the rows, its answer while nothing can be read,
and whether it still calls itself loaded then. -/
structure Resolver (ι α : Type) where
  settles : ι → α
  dropped : α
  keepsReady : Bool

/-- What a resolver holds. -/
structure Cache (α : Type) where
  answer : α
  loadedAt : ℚ := 0
  ready : Bool := false
  retryAt : ℚ := 0

namespace Cache

variable {α : Type}

def settled (s : Cache α) (now : ℚ) : Bool :=
  let fresh := s.ready && decide (now - s.loadedAt < cacheTtlSeconds)
  fresh || decide (now < s.retryAt)

end Cache

namespace Resolver

variable {ι α : Type} (r : Resolver ι α)

/-- What a read that began at `now` leaves behind. -/
def loaded (s : Cache α) (now : ℚ) (rows : ι) : Cache α :=
  { s with answer := r.settles rows, loadedAt := now, ready := true }

/-- What a read that began at `now` leaves behind when it fails: dropped, not served stale. -/
def failed (s : Cache α) (now : ℚ) : Cache α :=
  { s with
    answer := r.dropped, ready := r.keepsReady && s.ready
    retryAt := now + retryAfterFailureSeconds }

end Resolver

/-- Which use cases a caller reaches: the grants to groups and the grants to people. -/
def groupGrantResolver :
    Resolver (List GroupGrant × List Membership) (List GroupGrant × List Membership) where
  settles rows := rows
  dropped := ([], [])
  keepsReady := true

/-- Which roles exist, and what each may do. -/
def roleResolver (mapping : RoleGroups) (strictData : Bool) :
    Resolver (List StoredRole) (List RoleDefinition) where
  settles rows := resolverDefinitions { roles := rows } mapping strictData
  -- what holds while nothing stored can be read: IT Steuerung confers nothing
  dropped := builtinRoles mapping (some ∅) strictData
  keepsReady := false

/-! ### Callers -/

/-- Where a call is, since when, and when its read began. -/
inductive CallPhase
  | idle
  | waiting (since : ℚ)
  | reading (since begun : ℚ)
  deriving DecidableEq

/-- What is told of a run. -/
inductive ReadEvent (ρ ι α : Type)
  | begins (c : ρ) (time : ℚ)
  | starts (c : ρ) (time : ℚ)
  | loads (c : ρ) (begun : ℚ) (rows : ι)
  | fails (c : ρ) (begun ended : ℚ)
  | returns (c : ρ) (since : ℚ) (answer : α)
  deriving DecidableEq

/-- A resolver's cache and its callers. The log has the newest event first. -/
structure ReadWorld (ρ ι α : Type) where
  cache : Cache α
  clock : ℚ
  locked : Bool := false
  waiters : List ρ := []
  phase : ρ → CallPhase := fun _ => .idle
  log : List (ReadEvent ρ ι α) := []

inductive ReadAct (ρ ι : Type)
  | tick (time : ℚ)
  | call (c : ρ)
  /-- The lock is free and the first caller that waits for it goes on. -/
  | wake (c : ρ)
  | load (c : ρ) (rows : ι)
  | fail (c : ρ)
  /-- The caller goes away while it waits or reads. -/
  | cancel (c : ρ)

namespace ReadWorld

variable {ρ ι α : Type}

/-- Nothing is read yet; the clock starts anywhere. -/
def start (r : Resolver ι α) (clock : ℚ≥0) : ReadWorld ρ ι α :=
  { cache := { answer := r.dropped }, clock := clock }

def tell (w : ReadWorld ρ ι α) (e : ReadEvent ρ ι α) : ReadWorld ρ ι α :=
  { w with log := e :: w.log }

variable [DecidableEq ρ]

def setPhase (w : ReadWorld ρ ι α) (c : ρ) (p : CallPhase) : ReadWorld ρ ι α :=
  { w with phase := Function.update w.phase c p }

/-- The end of a call. -/
def answer (w : ReadWorld ρ ι α) (c : ρ) (since : ℚ) : ReadWorld ρ ι α :=
  (w.setPhase c .idle).tell (.returns c since w.cache.answer)

/-- With the lock, to the next await: the end of the call, or that of its read. -/
def enter (w : ReadWorld ρ ι α) (c : ρ) (since : ℚ) : ReadWorld ρ ι α :=
  if w.cache.settled w.clock then w.answer c since
  else { (w.setPhase c (.reading since w.clock)).tell (.starts c w.clock) with locked := true }

/-- Behind the others. -/
def queue (w : ReadWorld ρ ι α) (c : ρ) : ReadWorld ρ ι α :=
  { w.setPhase c (.waiting w.clock) with waiters := w.waiters ++ [c] }

/-- A call begins: a first look without the lock, and then the queue. -/
def call (w : ReadWorld ρ ι α) (c : ρ) : ReadWorld ρ ι α :=
  let w := w.tell (.begins c w.clock)
  if w.cache.settled w.clock then w.answer c w.clock
  else if w.locked = false ∧ w.waiters = [] then w.enter c w.clock
  else w.queue c

/-- A read is over, and the lock is free again. -/
def finished (w : ReadWorld ρ ι α) (c : ρ) (since : ℚ) (cache : Cache α) (e : ReadEvent ρ ι α) :
    ReadWorld ρ ι α :=
  { w.tell e with cache := cache, locked := false }.answer c since

/-- One step of a caller or of the clock. -/
def step (r : Resolver ι α) (w : ReadWorld ρ ι α) : ReadAct ρ ι → Option (ReadWorld ρ ι α)
  | .tick time => if w.clock ≤ time then some { w with clock := time } else none
  | .call c => if w.phase c = .idle then some (w.call c) else none
  | .wake c =>
    match w.waiters, w.phase c with
    | head :: rest, .waiting since =>
      if w.locked = false ∧ head = c then some ({ w with waiters := rest }.enter c since) else none
    | _, _ => none
  | .load c rows =>
    match w.phase c with
    | .reading since begun =>
      some (w.finished c since (r.loaded w.cache begun rows) (.loads c begun rows))
    | _ => none
  | .fail c =>
    match w.phase c with
    | .reading since begun =>
      some (w.finished c since (r.failed w.cache begun) (.fails c begun w.clock))
    | _ => none
  | .cancel c =>
    match w.phase c with
    | .idle => none
    | .waiting _ => some { w.setPhase c .idle with waiters := w.waiters.filter (· ≠ c) }
    | .reading _ _ => some { w.setPhase c .idle with locked := false }

end ReadWorld

/-! ### What a run is to keep -/

section Statements

variable {ρ ι α : Type}

/-- A read that is over. -/
inductive Finish (ι : Type)
  | loads (begun : ℚ) (rows : ι)
  | fails (begun ended : ℚ)

def ReadEvent.finish? : ReadEvent ρ ι α → Option (Finish ι)
  | .loads _ begun rows => some (.loads begun rows)
  | .fails _ begun ended => some (.fails begun ended)
  | _ => none

/-- The newest read that is over. -/
def newest (log : List (ReadEvent ρ ι α)) : Option (Finish ι) := log.findSome? ReadEvent.finish?

/-- Whether a read's answer stands at a time. -/
def Finish.Stands (time : ℚ) : Finish ι → Prop
  | .loads begun _ => time < begun + cacheTtlSeconds
  | .fails begun _ => time < begun + retryAfterFailureSeconds

instance (time : ℚ) (finish : Finish ι) : Decidable (finish.Stands time) :=
  match finish with
  | .loads _ _ => inferInstanceAs (Decidable (_ < _))
  | .fails _ _ => inferInstanceAs (Decidable (_ < _))

/-- An answer to a call is what the newest read left: the rows of one that began less than the
cache's time before the call, or nothing where it failed, less than the back-off before it. -/
def Backed (r : Resolver ι α) (since : ℚ) (answer : α) (log : List (ReadEvent ρ ι α)) : Prop :=
  (∃ begun rows, newest log = some (.loads begun rows) ∧ answer = r.settles rows ∧
      since - cacheTtlSeconds < begun) ∨
    ∃ begun ended, newest log = some (.fails begun ended) ∧ answer = r.dropped ∧
      since < ended + retryAfterFailureSeconds

def AnswersBacked (r : Resolver ι α) (log : List (ReadEvent ρ ι α)) : Prop :=
  ∀ c since answer older, (.returns c since answer :: older) <:+ log → Backed r since answer older

variable [DecidableEq ρ]

/-- Whether a call of the caller's begins here. -/
def ReadEvent.isBegin (c : ρ) : ReadEvent ρ ι α → Bool
  | .begins d _ => d = c
  | _ => false

def ReadEvent.isFailure : ReadEvent ρ ι α → Bool
  | .fails _ _ _ => true
  | _ => false

/-- Whether a read has failed since the caller's call began. -/
def failedSince (c : ρ) (log : List (ReadEvent ρ ι α)) : Bool :=
  (log.takeWhile (!·.isBegin c)).any (·.isFailure)

/-- No caller starts a read after one has failed that it waited for. -/
def SharesFailures (log : List (ReadEvent ρ ι α)) : Prop :=
  ∀ c time older, (.starts c time :: older) <:+ log → failedSince c older = false

namespace ReadWorld

/-- At most one read is in flight. -/
def SingleFlight (w : ReadWorld ρ ι α) : Prop :=
  ∀ c d since begun since' begun', w.phase c = .reading since begun →
    w.phase d = .reading since' begun' → c = d

/-- Whoever waited while a read failed comes to the lock while the newest read's answer stands:
within a second of the beginning of one that failed, or within the cache's time of a later one. -/
def ComesInTime (w : ReadWorld ρ ι α) : ReadAct ρ ι → Prop
  | .wake c => failedSince c w.log = true → ∃ f ∈ newest w.log, f.Stands w.clock
  | _ => True

instance (w : ReadWorld ρ ι α) (a : ReadAct ρ ι) : Decidable (w.ComesInTime a) :=
  match a with
  | .tick _ | .call _ | .load _ _ | .fail _ | .cancel _ => inferInstanceAs (Decidable True)
  | .wake _ => inferInstanceAs (Decidable (_ → _))

/-- A call that begins once a failed read's answer has had its time is not answered with it: it
reads, or queues where another is about to. -/
def ReadsAgain (w : ReadWorld ρ ι α) : Prop :=
  ∀ c begun ended, newest w.log = some (.fails begun ended) →
    ended + retryAfterFailureSeconds ≤ w.clock →
      (w.call c).phase c = if w.locked = false ∧ w.waiters = [] then .reading w.clock w.clock
        else .waiting w.clock

/-- **A grant is trusted for seconds and dropped when it cannot be read.** -/
structure Trusted (r : Resolver ι α) (w : ReadWorld ρ ι α) : Prop where
  single : w.SingleFlight
  backed : AnswersBacked r w.log
  shared : SharesFailures w.log
  again : w.ReadsAgain

end ReadWorld

end Statements

/-! ### What the cache knows -/

section Told

variable {ρ ι α : Type} {r : Resolver ι α} {s : Cache α} {clock begun : ℚ}

/-- What a cache holds is what the newest read left there. -/
def Told (r : Resolver ι α) (s : Cache α) (clock : ℚ) : Option (Finish ι) → Prop
  | none => s.answer = r.dropped ∧ s.ready = false ∧ s.retryAt = 0
  | some (.loads begun rows) =>
    s.answer = r.settles rows ∧ s.ready = true ∧ s.loadedAt = begun ∧ s.retryAt ≤ begun
  | some (.fails begun ended) =>
    s.answer = r.dropped ∧ s.retryAt = begun + retryAfterFailureSeconds ∧
      begun ≤ ended ∧ (s.ready = true → s.loadedAt + cacheTtlSeconds ≤ begun) ∧ begun ≤ clock

theorem settled_eq_false_iff : s.settled clock = false ↔
    (s.ready = true → s.loadedAt + cacheTtlSeconds ≤ clock) ∧ s.retryAt ≤ clock := by
  simp only [Cache.settled, Bool.or_eq_false_iff, Bool.and_eq_false_imp, decide_eq_false_iff_not,
    not_lt, le_sub_iff_add_le']

/-- **When a cache is settled**: while the newest read's answer stands. -/
theorem settled_iff {f : Option (Finish ι)} (h : Told r s clock f) (hclock : 0 ≤ clock) :
    s.settled clock = true ↔ ∃ finish, f = some finish ∧ finish.Stands clock := by
  rw [← not_iff_not, Bool.not_eq_true, settled_eq_false_iff]
  match f with
  | none =>
    obtain ⟨-, hready, hretry⟩ := h
    simp [hready, hretry, hclock]
  | some (.loads begun rows) =>
    obtain ⟨-, hready, hloaded, hretry⟩ := h
    simp only [hready, hloaded, forall_const, Option.some.injEq, exists_eq_left', Finish.Stands,
      not_lt]
    refine ⟨And.left, fun hspent => ⟨hspent, ?_⟩⟩
    have httl : (0 : ℚ) ≤ cacheTtlSeconds := by norm_num [cacheTtlSeconds]
    linarith
  | some (.fails begun ended) =>
    obtain ⟨-, hretry, -, hready, hbegun⟩ := h
    simp only [hretry, Option.some.injEq, exists_eq_left', Finish.Stands, not_lt]
    exact ⟨And.right, fun hspent => ⟨fun h => (hready h).trans hbegun, hspent⟩⟩

theorem Told.loaded (hspent : s.settled begun = false) (rows : ι) :
    Told r (r.loaded s begun rows) clock (some (.loads begun rows)) :=
  ⟨rfl, rfl, rfl, (settled_eq_false_iff.mp hspent).2⟩

theorem Told.failed (hspent : s.settled begun = false) (hbegun : begun ≤ clock) :
    Told r (r.failed s begun) clock (some (.fails begun clock)) := by
  refine ⟨rfl, rfl, hbegun, fun hready => ?_, hbegun⟩
  have hkept : s.ready = true := by
    simp only [Resolver.failed, Bool.and_eq_true] at hready
    exact hready.2
  exact (settled_eq_false_iff.mp hspent).1 hkept

theorem Told.tick {f : Option (Finish ι)} (h : Told r s clock f) {time : ℚ}
    (htime : clock ≤ time) : Told r s time f := by
  match f with
  | none => exact h
  | some (.loads _ _) => exact h
  | some (.fails _ _) => exact ⟨h.1, h.2.1, h.2.2.1, h.2.2.2.1, h.2.2.2.2.trans htime⟩

/-- An answer that is given while the newest read's stands is backed by it. -/
theorem backed_of_settled {log : List (ReadEvent ρ ι α)} (h : Told r s clock (newest log))
    (hclock : 0 ≤ clock) (hsettled : s.settled clock = true) {since : ℚ} (hsince : since ≤ clock) :
    Backed r since s.answer log := by
  obtain ⟨finish, hnewest, hstands⟩ := (settled_iff h hclock).mp hsettled
  rw [hnewest] at h
  match finish, h, hstands with
  | .loads begun rows, h, hstands =>
    have hin : clock < begun + cacheTtlSeconds := hstands
    exact .inl ⟨begun, rows, hnewest, h.1, by linarith⟩
  | .fails begun ended, h, hstands =>
    have hin : clock < begun + retryAfterFailureSeconds := hstands
    have hended : begun ≤ ended := h.2.2.1
    exact .inr ⟨begun, ended, hnewest, h.1, by linarith⟩

end Told

namespace ReadWorld

variable {ρ ι α : Type} [DecidableEq ρ] {r : Resolver ι α} {w : ReadWorld ρ ι α} {c : ρ}

/-! ### What a step keeps -/

/-- What holds of a resolver and its callers at every moment. -/
structure Keeps (r : Resolver ι α) (w : ReadWorld ρ ι α) : Prop where
  nonneg : 0 ≤ w.clock
  told : Told r w.cache w.clock (newest w.log)
  waits : ∀ c since, w.phase c = .waiting since → since ≤ w.clock
  reads : ∀ c since begun, w.phase c = .reading since begun →
    w.locked = true ∧ since ≤ begun ∧ begun ≤ w.clock ∧ w.cache.settled begun = false
  single : w.SingleFlight
  backed : AnswersBacked r w.log

omit [DecidableEq ρ] in
theorem keeps_start (clock : ℚ≥0) : Keeps r (start r clock : ReadWorld ρ ι α) where
  nonneg := clock.2
  told := ⟨rfl, rfl, rfl⟩
  waits := fun _ _ h => nomatch h
  reads := fun _ _ _ h => nomatch h
  single := fun _ _ _ _ _ _ h => nomatch h
  backed := fun _ _ _ _ h => absurd (List.suffix_nil.mp h) (List.cons_ne_nil _ _)

omit [DecidableEq ρ] in
theorem newest_cons_of_none {e : ReadEvent ρ ι α} (he : e.finish? = none)
    (log : List (ReadEvent ρ ι α)) : newest (e :: log) = newest log := by
  rw [newest, List.findSome?_cons, he]
  rfl

omit [DecidableEq ρ] in
/-- What is told without an answer leaves the answers as they were. -/
theorem answersBacked_cons (h : AnswersBacked r w.log) {e : ReadEvent ρ ι α}
    (he : ∀ c since answer, e ≠ .returns c since answer) : AnswersBacked r (e :: w.log) := by
  intro c since answer older hsuffix
  rcases List.suffix_cons_iff.mp hsuffix with heq | holder
  · exact absurd (List.cons.inj heq).1.symm (he c since answer)
  · exact h c since answer older holder

omit [DecidableEq ρ] in
theorem answersBacked_returns {log : List (ReadEvent ρ ι α)} (h : AnswersBacked r log) {since : ℚ}
    {answer : α} (hbacked : Backed r since answer log) :
    AnswersBacked r (.returns c since answer :: log) := by
  intro d since' answer' older hsuffix
  rcases List.suffix_cons_iff.mp hsuffix with heq | holder
  · obtain ⟨hevent, rfl⟩ := List.cons.inj heq
    obtain ⟨-, rfl, rfl⟩ := ReadEvent.returns.inj hevent
    exact hbacked
  · exact h d since' answer' older holder

@[simp]
theorem phase_setPhase_self (w : ReadWorld ρ ι α) (c : ρ) (p : CallPhase) :
    (w.setPhase c p).phase c = p := Function.update_self _ _ _

theorem phase_setPhase_of_ne (w : ReadWorld ρ ι α) {c d : ρ} (hd : d ≠ c) (p : CallPhase) :
    (w.setPhase c p).phase d = w.phase d := Function.update_of_ne hd _ _

omit [DecidableEq ρ] in
theorem Keeps.tick (h : Keeps r w) {time : ℚ} (htime : w.clock ≤ time) :
    Keeps r { w with clock := time } where
  nonneg := h.nonneg.trans htime
  told := h.told.tick htime
  waits := fun d since hd => (h.waits d since hd).trans htime
  reads := fun d since begun hd =>
    have hreads := h.reads d since begun hd
    ⟨hreads.1, hreads.2.1, hreads.2.2.1.trans htime, hreads.2.2.2⟩
  single := h.single
  backed := h.backed

omit [DecidableEq ρ] in
theorem Keeps.begins (h : Keeps r w) (c : ρ) : Keeps r (w.tell (.begins c w.clock)) where
  nonneg := h.nonneg
  told := by
    rw [tell, newest_cons_of_none rfl]
    exact h.told
  waits := h.waits
  reads := h.reads
  single := h.single
  backed := answersBacked_cons h.backed nofun

/-- A caller that goes on without reading, from wherever it was. -/
theorem Keeps.setPhase (h : Keeps r w) {p : CallPhase} (hw : ∀ since, p = .waiting since →
    since ≤ w.clock) (hp : ∀ since begun, p ≠ .reading since begun) :
    Keeps r (w.setPhase c p) where
  nonneg := h.nonneg
  told := h.told
  waits := by
    intro d since hd
    rcases eq_or_ne d c with rfl | hne
    · exact hw since (by rwa [phase_setPhase_self] at hd)
    · exact h.waits d since (by rwa [phase_setPhase_of_ne w hne] at hd)
  reads := by
    intro d since begun hd
    rcases eq_or_ne d c with rfl | hne
    · exact absurd (by rwa [phase_setPhase_self] at hd) (hp since begun)
    · exact h.reads d since begun (by rwa [phase_setPhase_of_ne w hne] at hd)
  single := by
    intro d e since begun since' begun' hd he
    rcases eq_or_ne d c with rfl | hdc
    · exact absurd (by rwa [phase_setPhase_self] at hd) (hp since begun)
    · rcases eq_or_ne e c with rfl | hec
      · exact absurd (by rwa [phase_setPhase_self] at he) (hp since' begun')
      · exact h.single d e since begun since' begun' (by rwa [phase_setPhase_of_ne w hdc] at hd)
          (by rwa [phase_setPhase_of_ne w hec] at he)
  backed := h.backed

theorem Keeps.answer (h : Keeps r w) {since : ℚ} (hbacked : Backed r since w.cache.answer w.log) :
    Keeps r (w.answer c since) :=
  have hidle : Keeps r (w.setPhase c .idle) := h.setPhase (fun _ => nofun) nofun
  { nonneg := h.nonneg
    told := by
      rw [ReadWorld.answer, tell, newest_cons_of_none rfl]
      exact h.told
    waits := hidle.waits
    reads := hidle.reads
    single := hidle.single
    backed := answersBacked_returns h.backed hbacked }

omit [DecidableEq ρ] in
/-- Who reads has the lock. -/
theorem Keeps.not_reading (h : Keeps r w) (hlock : w.locked = false) (d : ρ) (since begun : ℚ) :
    w.phase d ≠ .reading since begun := by
  intro hd
  have hlocked := (h.reads d since begun hd).1
  rw [hlock] at hlocked
  exact Bool.noConfusion hlocked

theorem Keeps.enter (h : Keeps r w) (hlock : w.locked = false) {since : ℚ}
    (hsince : since ≤ w.clock) : Keeps r (w.enter c since) := by
  rw [ReadWorld.enter]
  split_ifs with hsettled
  · exact h.answer (backed_of_settled h.told h.nonneg hsettled hsince)
  · rw [Bool.not_eq_true] at hsettled
    have hnone : ∀ d since' begun, d ≠ c →
        (w.setPhase c (.reading since w.clock)).phase d ≠ .reading since' begun := by
      intro d since' begun hne hd
      rw [phase_setPhase_of_ne w hne] at hd
      exact h.not_reading hlock d since' begun hd
    refine ⟨h.nonneg, ?_, ?_, ?_, ?_, ?_⟩
    · change Told r w.cache w.clock (newest (.starts c w.clock :: w.log))
      rw [newest_cons_of_none rfl]
      exact h.told
    · intro d since' hd
      rcases eq_or_ne d c with rfl | hne
      · exact absurd ((phase_setPhase_self w d _).symm.trans hd) nofun
      · exact h.waits d since' ((phase_setPhase_of_ne w hne _).symm.trans hd)
    · intro d since' begun hd
      rcases eq_or_ne d c with rfl | hne
      · obtain ⟨rfl, rfl⟩ := CallPhase.reading.inj ((phase_setPhase_self w d _).symm.trans hd)
        exact ⟨rfl, hsince, le_rfl, hsettled⟩
      · exact absurd hd (hnone d since' begun hne)
    · intro d e since' begun since'' begun' hd he
      have hdc : d = c := by
        by_contra hne
        exact hnone d since' begun hne hd
      have hec : e = c := by
        by_contra hne
        exact hnone e since'' begun' hne he
      rw [hdc, hec]
    · exact answersBacked_cons h.backed nofun

theorem Keeps.call (h : Keeps r w) (c : ρ) : Keeps r (w.call c) := by
  have hbegins := h.begins c
  unfold ReadWorld.call
  dsimp only
  split_ifs with hsettled hfree
  · exact hbegins.answer (backed_of_settled hbegins.told h.nonneg hsettled le_rfl)
  · exact hbegins.enter hfree.1 le_rfl
  · have hqueued := hbegins.setPhase (c := c) (p := .waiting w.clock)
      (fun since hp => (CallPhase.waiting.inj hp).ge) nofun
    exact ⟨hqueued.nonneg, hqueued.told, hqueued.waits, hqueued.reads, hqueued.single,
      hqueued.backed⟩

/-- A read is over: the cache holds what it left, and nobody reads any more. -/
theorem Keeps.finished (h : Keeps r w) {since begun : ℚ} (hc : w.phase c = .reading since begun)
    {cache : Cache α} {e : ReadEvent ρ ι α} {finish : Finish ι} (he : e.finish? = some finish)
    (htold : Told r cache w.clock (some finish))
    (hbacked : Backed r since cache.answer (e :: w.log)) :
    Keeps r (w.finished c since cache e) := by
  have hnewest : newest (e :: w.log) = some finish := by
    rw [newest, List.findSome?_cons, he]
  have hreturns : ∀ d since answer, e ≠ .returns d since answer := by
    rintro d since answer rfl
    exact absurd he nofun
  have hnone : ∀ d since' begun', (w.setPhase c .idle).phase d ≠ .reading since' begun' := by
    intro d since' begun' hd
    rcases eq_or_ne d c with rfl | hne
    · exact absurd ((phase_setPhase_self w d _).symm.trans hd) nofun
    · have hd' := (phase_setPhase_of_ne w hne _).symm.trans hd
      exact hne (h.single d c since' begun' since begun hd' hc)
  refine ⟨h.nonneg, ?_, ?_, fun d since' begun' hd => absurd hd (hnone d since' begun'),
    fun d e' since' begun' _ _ hd => absurd hd (hnone d since' begun'), ?_⟩
  · change Told r cache w.clock (newest (.returns c since cache.answer :: e :: w.log))
    rw [newest_cons_of_none rfl, hnewest]
    exact htold
  · intro d since' hd
    rcases eq_or_ne d c with rfl | hne
    · exact absurd ((phase_setPhase_self w d _).symm.trans hd) nofun
    · exact h.waits d since' ((phase_setPhase_of_ne w hne _).symm.trans hd)
  · exact answersBacked_returns (answersBacked_cons h.backed hreturns) hbacked

theorem Keeps.load (h : Keeps r w) {since begun : ℚ} (hc : w.phase c = .reading since begun)
    (rows : ι) : Keeps r (w.finished c since (r.loaded w.cache begun rows) (.loads c begun rows)) := by
  obtain ⟨-, hsince, -, hspent⟩ := h.reads c since begun hc
  have httl : (0 : ℚ) < cacheTtlSeconds := by norm_num [cacheTtlSeconds]
  exact h.finished hc rfl (Told.loaded hspent rows) (.inl ⟨begun, rows, rfl, rfl, by linarith⟩)

theorem Keeps.fail (h : Keeps r w) {since begun : ℚ} (hc : w.phase c = .reading since begun) :
    Keeps r (w.finished c since (r.failed w.cache begun) (.fails c begun w.clock)) := by
  obtain ⟨-, hsince, hbegun, hspent⟩ := h.reads c since begun hc
  have hretry : (0 : ℚ) < retryAfterFailureSeconds := by norm_num [retryAfterFailureSeconds]
  exact h.finished hc rfl (Told.failed hspent hbegun)
    (.inr ⟨begun, w.clock, rfl, rfl, by linarith⟩)

/-- What a step is, by where the caller was. -/
inductive Moves (r : Resolver ι α) (w : ReadWorld ρ ι α) : ReadAct ρ ι → ReadWorld ρ ι α → Prop
  | tick {time : ℚ} (htime : w.clock ≤ time) : Moves r w (.tick time) { w with clock := time }
  | call {c : ρ} (hc : w.phase c = .idle) : Moves r w (.call c) (w.call c)
  | wake {c : ρ} {rest : List ρ} {since : ℚ} (hw : w.waiters = c :: rest)
      (hc : w.phase c = .waiting since) (hlock : w.locked = false) :
      Moves r w (.wake c) ({ w with waiters := rest }.enter c since)
  | load {c : ρ} {since begun : ℚ} (hc : w.phase c = .reading since begun) (rows : ι) :
      Moves r w (.load c rows) (w.finished c since (r.loaded w.cache begun rows) (.loads c begun rows))
  | fail {c : ρ} {since begun : ℚ} (hc : w.phase c = .reading since begun) :
      Moves r w (.fail c) (w.finished c since (r.failed w.cache begun) (.fails c begun w.clock))
  | leave {c : ρ} {since : ℚ} (hc : w.phase c = .waiting since) :
      Moves r w (.cancel c) { w.setPhase c .idle with waiters := w.waiters.filter (· ≠ c) }
  | abandon {c : ρ} {since begun : ℚ} (hc : w.phase c = .reading since begun) :
      Moves r w (.cancel c) { w.setPhase c .idle with locked := false }

theorem moves_of_step {a : ReadAct ρ ι} {w' : ReadWorld ρ ι α} (h : step r w a = some w') :
    Moves r w a w' := by
  cases a with
  | tick time =>
    rw [step] at h
    split_ifs at h with htime
    exact Option.some.inj h ▸ .tick htime
  | call c =>
    rw [step] at h
    split_ifs at h with hc
    exact Option.some.inj h ▸ .call hc
  | wake c =>
    rw [step] at h
    split at h
    · rename_i head rest since hw hc
      split_ifs at h with hfree
      obtain ⟨hlock, rfl⟩ := hfree
      exact Option.some.inj h ▸ .wake hw hc hlock
    · exact absurd h nofun
  | load c rows =>
    rw [step] at h
    split at h
    · rename_i hc
      exact Option.some.inj h ▸ .load hc rows
    · exact absurd h nofun
  | fail c =>
    rw [step] at h
    split at h
    · rename_i hc
      exact Option.some.inj h ▸ .fail hc
    · exact absurd h nofun
  | cancel c =>
    rw [step] at h
    split at h
    · exact absurd h nofun
    · rename_i hc
      exact Option.some.inj h ▸ .leave hc
    · rename_i hc
      exact Option.some.inj h ▸ .abandon hc

theorem Keeps.moves (h : Keeps r w) {a : ReadAct ρ ι} {w' : ReadWorld ρ ι α}
    (hm : Moves r w a w') : Keeps r w' := by
  cases hm with
  | tick htime => exact h.tick htime
  | call _ => exact h.call _
  | @wake c rest since _ hc hlock =>
    have hqueue : Keeps r ({ w with waiters := rest } : ReadWorld ρ ι α) :=
      ⟨h.nonneg, h.told, h.waits, h.reads, h.single, h.backed⟩
    exact hqueue.enter hlock (h.waits c since hc)
  | load hc rows => exact h.load hc rows
  | fail hc => exact h.fail hc
  | @leave c _ _ =>
    have hidle : Keeps r (w.setPhase c .idle) := h.setPhase (fun _ => nofun) nofun
    exact ⟨hidle.nonneg, hidle.told, hidle.waits, hidle.reads, hidle.single, hidle.backed⟩
  | @abandon c since begun hc =>
    have hidle : Keeps r (w.setPhase c .idle) := h.setPhase (fun _ => nofun) nofun
    refine ⟨hidle.nonneg, hidle.told, hidle.waits, fun d since' begun' hd => ?_, hidle.single,
      hidle.backed⟩
    -- the one that read is idle, and no other did
    rcases eq_or_ne d c with rfl | hne
    · exact absurd ((phase_setPhase_self w d _).symm.trans hd) nofun
    · have hd' := (phase_setPhase_of_ne w hne _).symm.trans hd
      exact absurd (h.single d c since' begun' since begun hd' hc) hne

/-! ### Who repeats a failed read -/

omit [DecidableEq ρ] in
/-- What is told without a start leaves the starts as they were. -/
theorem sharesFailures_cons_iff [DecidableEq ρ] {log : List (ReadEvent ρ ι α)}
    {e : ReadEvent ρ ι α} (he : ∀ c time, e ≠ .starts c time) :
    SharesFailures (e :: log) ↔ SharesFailures log := by
  constructor
  · exact fun h c time older holder => h c time older (holder.trans (List.suffix_cons e log))
  · intro h c time older hsuffix
    rcases List.suffix_cons_iff.mp hsuffix with heq | holder
    · exact absurd (List.cons.inj heq).1.symm (he c time)
    · exact h c time older holder

theorem sharesFailures_starts_iff {log : List (ReadEvent ρ ι α)} (h : SharesFailures log)
    {time : ℚ} : SharesFailures (.starts c time :: log) ↔ failedSince c log = false := by
  constructor
  · exact fun hstarts => hstarts c time log List.suffix_rfl
  · intro hnone d time' older hsuffix
    rcases List.suffix_cons_iff.mp hsuffix with heq | holder
    · obtain ⟨hevent, rfl⟩ := List.cons.inj heq
      obtain ⟨rfl, -⟩ := ReadEvent.starts.inj hevent
      exact hnone
    · exact h d time' older holder

/-- With the lock a caller starts a read exactly where the cache is not settled. -/
theorem sharesFailures_enter_iff (h : SharesFailures w.log) {since : ℚ} :
    SharesFailures (w.enter c since).log ↔
      (failedSince c w.log = true → w.cache.settled w.clock = true) := by
  rw [ReadWorld.enter]
  split_ifs with hsettled
  · refine iff_of_true ?_ fun _ => hsettled
    exact (sharesFailures_cons_iff nofun).mpr h
  · change SharesFailures (.starts c w.clock :: w.log) ↔ _
    rw [sharesFailures_starts_iff h]
    simp [hsettled]

theorem sharesFailures_finished (h : SharesFailures w.log) {since : ℚ} {cache : Cache α}
    {e : ReadEvent ρ ι α} (he : ∀ c time, e ≠ .starts c time) :
    SharesFailures (w.finished c since cache e).log :=
  (sharesFailures_cons_iff nofun).mpr ((sharesFailures_cons_iff he).mpr h)

/-- **A step repeats no failed read exactly where it is nobody's that comes too late.** -/
theorem sharesFailures_moves_iff (hk : Keeps r w) (h : SharesFailures w.log) {a : ReadAct ρ ι}
    {w' : ReadWorld ρ ι α} (hm : Moves r w a w') : SharesFailures w'.log ↔ w.ComesInTime a := by
  cases hm with
  | tick _ => exact iff_of_true h trivial
  | @call c _ =>
    refine iff_of_true ?_ trivial
    have hbegins : SharesFailures (w.tell (.begins c w.clock)).log :=
      (sharesFailures_cons_iff nofun).mpr h
    have hnone : failedSince c (w.tell (.begins c w.clock)).log = false := by
      simp [failedSince, tell, ReadEvent.isBegin]
    unfold ReadWorld.call
    dsimp only
    split_ifs
    · exact (sharesFailures_cons_iff nofun).mpr hbegins
    · exact (sharesFailures_enter_iff hbegins).mpr fun hfailed => by simp [hnone] at hfailed
    · exact hbegins
  | @wake c rest since _ _ _ =>
    have hqueue : SharesFailures ({ w with waiters := rest } : ReadWorld ρ ι α).log := h
    exact (sharesFailures_enter_iff hqueue).trans
      (imp_congr Iff.rfl (settled_iff hk.told hk.nonneg))
  | load _ _ => exact iff_of_true (sharesFailures_finished h nofun) trivial
  | fail _ => exact iff_of_true (sharesFailures_finished h nofun) trivial
  | leave _ => exact iff_of_true h trivial
  | abandon _ => exact iff_of_true h trivial

/-- A run tells of what it has told before. -/
theorem log_suffix {a : ReadAct ρ ι} {w' : ReadWorld ρ ι α} (hm : Moves r w a w') :
    w.log <:+ w'.log := by
  have henter : ∀ (v : ReadWorld ρ ι α) (c : ρ) (since : ℚ), v.log <:+ (v.enter c since).log := by
    intro v c since
    rw [ReadWorld.enter]
    split_ifs <;> exact List.suffix_cons _ _
  cases hm with
  | tick _ => exact List.suffix_rfl
  | @call c _ =>
    have hbegins : w.log <:+ (w.tell (.begins c w.clock)).log := List.suffix_cons _ _
    unfold ReadWorld.call
    dsimp only
    split_ifs
    · exact hbegins.trans (List.suffix_cons _ _)
    · exact hbegins.trans (henter _ _ _)
    · exact hbegins
  | @wake c rest since _ _ _ => exact henter { w with waiters := rest } c since
  | load _ _ => exact (List.suffix_cons _ _).trans (List.suffix_cons _ _)
  | fail _ => exact (List.suffix_cons _ _).trans (List.suffix_cons _ _)
  | leave _ => exact List.suffix_rfl
  | abandon _ => exact List.suffix_rfl

/-- A run repeats no failed read exactly where none of its steps does. -/
theorem sharesFailures_run_iff {acts : List (ReadAct ρ ι)} {w' : ReadWorld ρ ι α}
    (hrun : Run (step r) (fun _ _ => True) w acts w') (hk : Keeps r w)
    (h : SharesFailures w.log) :
    SharesFailures w'.log ↔ Run (step r) ComesInTime w acts w' := by
  induction hrun with
  | nil v => exact iff_of_true h (.nil v)
  | @cons v t u a acts _ hst rest ih =>
    have hmoves := moves_of_step hst
    have hiff := sharesFailures_moves_iff hk h hmoves
    have hgrows : t.log <:+ u.log :=
      rest.invariant (P := fun v => t.log <:+ v.log)
        (fun _ _ _ hv _ hstep => hv.trans (log_suffix (moves_of_step hstep))) List.suffix_rfl
    constructor
    · intro hend
      have hnext : SharesFailures t.log := fun c time older holder =>
        hend c time older (holder.trans hgrows)
      exact .cons (hiff.mp hnext) hst ((ih (hk.moves hmoves) hnext).mp hend)
    · intro hin
      cases hin with
      | @cons _ t' _ _ _ hok hst' rest' =>
        obtain rfl : t' = t := Option.some.inj (hst'.symm.trans hst)
        exact (ih (hk.moves hmoves) (hiff.mpr hok)).mpr rest'

theorem Keeps.readsAgain (h : Keeps r w) : w.ReadsAgain := by
  intro c begun ended hnewest htime
  have htold := h.told
  rw [hnewest] at htold
  have hended : begun ≤ ended := htold.2.2.1
  have hspent : (w.tell (.begins c w.clock)).cache.settled (w.tell (.begins c w.clock)).clock =
      false := by
    rw [← Bool.not_eq_true]
    intro hsettled
    obtain ⟨finish, hfinish, hstands⟩ := (settled_iff htold h.nonneg).mp hsettled
    obtain rfl := Option.some.inj hfinish
    have hin : w.clock < begun + retryAfterFailureSeconds := hstands
    linarith
  unfold ReadWorld.call
  dsimp only
  rw [hspent, if_neg Bool.false_ne_true]
  by_cases hfree : w.locked = false ∧ w.waiters = []
  · have hfree' : (w.tell (.begins c w.clock)).locked = false ∧
        (w.tell (.begins c w.clock)).waiters = [] := hfree
    rw [if_pos hfree', if_pos hfree, ReadWorld.enter, hspent, if_neg Bool.false_ne_true]
    exact phase_setPhase_self _ c _
  · have hfree' : ¬((w.tell (.begins c w.clock)).locked = false ∧
        (w.tell (.begins c w.clock)).waiters = []) := hfree
    rw [if_neg hfree', if_neg hfree]
    exact phase_setPhase_self _ c _

/-- Whatever the order of the callers' steps, the outcomes of the reads and the time they take: a
run is as it is to be exactly where whoever waited for a read that failed comes to the lock in
time. The rest holds of every run. -/
theorem resolver_runs {clock : ℚ≥0} {acts : List (ReadAct ρ ι)}
    (hrun : Run (step r) (fun _ _ => True) (start r clock) acts w) :
    w.SingleFlight ∧ AnswersBacked r w.log ∧ w.ReadsAgain ∧
      (SharesFailures w.log ↔ Run (step r) ComesInTime (start r clock) acts w) := by
  have hkeeps : Keeps r w :=
    hrun.invariant (fun v a v' hv _ hst => hv.moves (moves_of_step hst)) (keeps_start clock)
  have hnone : SharesFailures (start r clock : ReadWorld ρ ι α).log :=
    fun _ _ _ h => absurd (List.suffix_nil.mp h) (List.cons_ne_nil _ _)
  exact ⟨hkeeps.single, hkeeps.backed, hkeeps.readsAgain,
    sharesFailures_run_iff hrun (keeps_start clock) hnone⟩

/-- **Grants and roles are trusted for seconds, dropped when they cannot be read, and read once for
everybody who waits** in exactly the runs in which whoever waited for a read that failed comes to
the lock in time. -/
theorem grants_and_roles_trusted_iff (mapping : RoleGroups) (strictData : Bool) :
    (∀ (clock : ℚ≥0) (acts : List (ReadAct ρ (List GroupGrant × List Membership)))
      (w : ReadWorld ρ _ _),
      Run (step groupGrantResolver) (fun _ _ => True) (start groupGrantResolver clock) acts w →
        (Trusted groupGrantResolver w ↔
          Run (step groupGrantResolver) ComesInTime (start groupGrantResolver clock) acts w)) ∧
    ∀ (clock : ℚ≥0) (acts : List (ReadAct ρ (List StoredRole))) (w : ReadWorld ρ _ _),
      Run (step (roleResolver mapping strictData)) (fun _ _ => True)
        (start (roleResolver mapping strictData) clock) acts w →
        (Trusted (roleResolver mapping strictData) w ↔
          Run (step (roleResolver mapping strictData)) ComesInTime
            (start (roleResolver mapping strictData) clock) acts w) := by
  have hall : ∀ {ι α : Type} (r : Resolver ι α) (clock : ℚ≥0) (acts : List (ReadAct ρ ι))
      (w : ReadWorld ρ ι α), Run (step r) (fun _ _ => True) (start r clock) acts w →
        (Trusted r w ↔ Run (step r) ComesInTime (start r clock) acts w) := by
    intro ι α r clock acts w hrun
    obtain ⟨hsingle, hbacked, hagain, hshared⟩ := resolver_runs hrun
    exact ⟨fun h => hshared.mp h.shared, fun h => ⟨hsingle, hbacked, hshared.mpr h, hagain⟩⟩
  exact ⟨hall groupGrantResolver, hall (roleResolver mapping strictData)⟩

end ReadWorld

/-! ### A read that fails late -/

open ReadWorld

/-- A caller waits for another's read, which fails after some seconds. -/
def failsAfter (seconds : ℚ) : List (ReadAct Bool (List GroupGrant × List Membership)) :=
  [.call false, .call true, .tick seconds, .fail false, .wake true]

/-- Half a second is in time. -/
theorem half_a_second_in_time : ∃ w : ReadWorld Bool _ _, w.log.length = 6 ∧
    Trusted groupGrantResolver w := by
  have hrun : (checkedRun (step groupGrantResolver) ComesInTime
      (start groupGrantResolver 0) (failsAfter (1 / 2))).map (·.log.length) = some 6 := by
    decide +kernel
  obtain ⟨w, hrun, hlength⟩ := Option.map_eq_some_iff.mp hrun
  have hin := run_of_checkedRun hrun
  exact ⟨w, hlength, ((grants_and_roles_trusted_iff [] true).1 0 _ w
    (hin.mono fun _ _ _ => trivial)).mpr hin⟩

/-- **A failed read is repeated**: the one that waited while a read hung for half a minute and
failed reads again. -/
theorem waited_out_and_repeated : ∃ w : ReadWorld Bool _ _,
    Run (step groupGrantResolver) (fun _ _ => True) (start groupGrantResolver 0) (failsAfter 30) w ∧
      ¬ Trusted groupGrantResolver w := by
  have hlog : (checkedRun (step groupGrantResolver) (fun _ _ => True)
      (start groupGrantResolver 0) (failsAfter 30)).any
        (fun w => w.log.head? = some (.starts true 30) && failedSince true w.log.tail) = true := by
    decide +kernel
  obtain ⟨w, hrun, hlast⟩ := (Option.any_eq_true _ _).mp hlog
  simp only [Bool.and_eq_true, decide_eq_true_eq] at hlast
  refine ⟨w, run_of_checkedRun hrun, fun h => ?_⟩
  have hstarts : w.log = .starts true 30 :: w.log.tail :=
    List.eq_cons_of_mem_head? (Option.mem_def.mpr hlast.1)
  have hnone := h.shared true 30 w.log.tail (hstarts ▸ List.suffix_rfl)
  rw [hlast.2] at hnone
  exact Bool.noConfusion hnone

end AiraGateway.Access
