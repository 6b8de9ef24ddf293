import AiraGateway.Library.Runs
import Mathlib.Data.Int.Order.Basic
import Mathlib.Data.List.Perm.Basic

/-!
# The audit writer

A `RequestLogWriter` puts rows into a bounded queue and writes them from a worker. A row that finds
no worker, a writer that is stopping or a full queue is written by its submitter; what is queued
when the worker is gone is written by `stop`. An entry is known by the number of its submission: the
writer looks into none to decide what becomes of it.

* `stop_accounts`: in every run in which the worker is not cancelled between taking a row and its
  commit, every entry submitted was written once or its failure reported once when `stop` and all
  submits are over, and none was written or reported twice.
* `row_in_flight_lost`: a worker cancelled there takes its row with it.
-/

namespace AiraGateway

/-! ### One write -/

/-- A write in flight: of which entry, and whether its row is committed. -/
structure Write where
  entry : ℕ
  committed : Bool := false
  deriving DecidableEq

/-- What became of the entries: the rows written, and the failures logged or raised, of writes that
had not committed their row and of ones that had. -/
structure Ledger where
  written : List ℕ := []
  failed : List ℕ := []
  failedLate : List ℕ := []
  deriving DecidableEq

namespace Ledger

def reported (l : Ledger) : List ℕ := l.failed ++ l.failedLate

end Ledger

inductive WriteAct
  | commit
  | done
  /-- The write raises: at the commit or before, or when the session is closed. -/
  | fail
  deriving DecidableEq

/-- A step of a write, and what is in flight after it. -/
def Write.act (w : Write) (l : Ledger) : WriteAct → Option (Option Write × Ledger)
  | .commit =>
    if w.committed then none
    else some (some { w with committed := true }, { l with written := l.written ++ [w.entry] })
  | .done => if w.committed then some (none, l) else none
  | .fail =>
    if w.committed then some (none, { l with failedLate := l.failedLate ++ [w.entry] })
    else some (none, { l with failed := l.failed ++ [w.entry] })

/-- What a step of a write can do. -/
theorem Write.act_cases {w : Write} {l l' : Ledger} {a : WriteAct} {w' : Option Write}
    (h : w.act l a = some (w', l')) :
    (w = { entry := w.entry } ∧ w' = some { entry := w.entry, committed := true } ∧
      l' = { l with written := l.written ++ [w.entry] }) ∨
    (w = { entry := w.entry, committed := true } ∧ w' = none ∧
      (l' = l ∨ l' = { l with failedLate := l.failedLate ++ [w.entry] })) ∨
    (w = { entry := w.entry } ∧ w' = none ∧
      l' = { l with failed := l.failed ++ [w.entry] }) := by
  rcases w with ⟨entry, _ | _⟩ <;> cases a <;> simp_all [Write.act, eq_comm]

/-! ### The writer -/

/-- The worker's task: a cancelled one is still the writer's worker. -/
inductive LogWorker
  | none
  | waiting
  | writing (w : Write)
  | dead
  deriving DecidableEq

def LogWorker.write? : LogWorker → Option Write
  | writing w => some w
  | _ => Option.none

/-- How far `stop` is. -/
inductive Stopping
  | notCalled
  /-- It waits for the queue to be joined, or the worker to end. -/
  | racing
  /-- It writes what is still queued. -/
  | remaining (w : Option Write)
  | closing
  | returned
  deriving DecidableEq

def Stopping.write? : Stopping → Option Write
  | remaining w => w
  | _ => none

structure RequestLogWriter where
  submitted : ℕ := 0
  queue : List ℕ := []
  /-- The entries queued and not marked done. -/
  unfinished : ℕ := 0
  worker : LogWorker := .none
  stop : Stopping := .notCalled
  /-- What submitters are writing themselves. -/
  inline : List Write := []
  ledger : Ledger := {}
  deriving DecidableEq

/-- Whose write it is. -/
inductive WriterTask
  | worker
  | shutdown
  | submitter (i : ℕ)
  deriving DecidableEq

inductive WriterAct
  | submit
  /-- The worker takes the first entry. -/
  | take
  | write (task : WriterTask) (act : WriteAct)
  /-- The worker is cancelled from outside. -/
  | cancel
  | stop
  /-- The queue is joined. -/
  | drained
  /-- The worker ended first. -/
  | workerGone
  /-- `stop` takes the first entry left, or finds none. -/
  | next
  | close
  deriving DecidableEq

namespace RequestLogWriter

def capacity (maxQueue : ℤ) : ℤ := max 1 maxQueue

/-- A writer after `start`: without a queue it has no worker. -/
def started (maxQueue : ℤ) : RequestLogWriter :=
  if maxQueue ≤ 0 then {} else { worker := .waiting }

def taskDone (s : RequestLogWriter) : RequestLogWriter := { s with unfinished := s.unfinished - 1 }

/-- The write a task has in flight. -/
def writeOf (s : RequestLogWriter) : WriterTask → Option Write
  | .worker => s.worker.write?
  | .shutdown => s.stop.write?
  | .submitter i => s.inline[i]?

/-- A task whose write went on or is over: whoever took an entry from the queue marks it done. -/
def goOn (s : RequestLogWriter) : WriterTask → Option Write → RequestLogWriter
  | .worker, some w => { s with worker := .writing w }
  | .worker, none => { s.taskDone with worker := .waiting }
  | .shutdown, some w => { s with stop := .remaining (some w) }
  | .shutdown, none => { s.taskDone with stop := .remaining none }
  | .submitter i, some w => { s with inline := s.inline.set i w }
  | .submitter i, none => { s with inline := s.inline.eraseIdx i }

def step (maxQueue : ℤ) (s : RequestLogWriter) : WriterAct → Option RequestLogWriter
  | .submit =>
    let entry := s.submitted
    if s.worker = .none ∨ s.stop ≠ .notCalled ∨ capacity maxQueue ≤ s.queue.length then
      some { s with submitted := entry + 1, inline := s.inline ++ [{ entry }] }
    else
      some { s with
        submitted := entry + 1
        queue := s.queue ++ [entry]
        unfinished := s.unfinished + 1 }
  | .take =>
    if s.worker = .waiting then
      match s.queue with
      | [] => none
      | entry :: queue => some { s with queue := queue, worker := .writing { entry } }
    else none
  | .write task act =>
    match s.writeOf task with
    | none => none
    | some w => (w.act s.ledger act).map fun (w, ledger) => { s with ledger }.goOn task w
  | .cancel =>
    match s.worker with
    | .waiting => some { s with worker := .dead }
    -- the row's write goes no further, and it is marked done
    | .writing _ => some { s.taskDone with worker := .dead }
    | .none | .dead => none
  | .stop =>
    if s.stop ≠ .notCalled then none
    else if s.worker = .none then some { s with stop := .returned }
    else some { s with stop := .racing }
  | .drained =>
    if s.stop = .racing ∧ s.unfinished = 0 then some { s with stop := .closing } else none
  | .workerGone =>
    if s.stop = .racing ∧ s.worker = .dead then some { s with stop := .remaining none } else none
  | .next =>
    if s.stop = .remaining none then
      match s.queue with
      | [] => some { s with stop := .closing }
      | entry :: queue => some { s with queue := queue, stop := .remaining (some { entry }) }
    else none
  | .close =>
    if s.stop = .closing then some { s with worker := .none, stop := .returned } else none

/-- Of the steps taken: the worker is not cancelled with a row it has not committed. -/
def NotMidWrite (s : RequestLogWriter) (a : WriterAct) : Prop :=
  a = .cancel → ∀ w ∈ s.worker.write?, w.committed

instance (s : RequestLogWriter) (a : WriterAct) : Decidable (NotMidWrite s a) :=
  inferInstanceAs (Decidable (_ → _))

/-! ### What every step keeps -/

def writes (s : RequestLogWriter) : List Write :=
  s.worker.write?.toList ++ s.stop.write?.toList ++ s.inline

/-- Every entry is in one place: queued, in flight and not committed, written, or failed. A write
that committed its row adds at most one report. -/
structure Accounts (s : RequestLogWriter) : Prop where
  entries : ∀ e, s.queue.count e + s.writes.count { entry := e } + s.ledger.written.count e +
    s.ledger.failed.count e = if e < s.submitted then 1 else 0
  late : ∀ e, s.writes.count { entry := e, committed := true } + s.ledger.failedLate.count e ≤
    s.ledger.written.count e

/-- Where the worker and the queue are while `stop` goes on. -/
structure Winds (s : RequestLogWriter) : Prop where
  unfinished : s.unfinished =
    s.queue.length + s.worker.write?.toList.length + s.stop.write?.toList.length
  workerless : s.worker = .none → s.queue = []
  remaining : ∀ w, s.stop = .remaining w → s.worker = .dead
  atEnd : s.stop = .closing ∨ s.stop = .returned → s.queue = [] ∧ s.worker.write? = Option.none

section Tasks

variable {s : RequestLogWriter} {task : WriterTask} {w : Write}

/-- A task's write is among those in flight, and goes on alone. -/
theorem writes_goOn (h : s.writeOf task = some w) :
    ∃ others, s.writes.Perm (w :: others) ∧
      ∀ w', (s.goOn task w').writes.Perm (w'.toList ++ others) := by
  match task with
  | .worker =>
    refine ⟨s.stop.write?.toList ++ s.inline, ?_, ?_⟩
    · have hw : s.worker.write? = some w := h
      simp [writes, hw]
    · rintro (_ | w') <;> simp [writes, goOn, taskDone, LogWorker.write?]
  | .shutdown =>
    have hw : s.stop.write? = some w := h
    refine ⟨s.worker.write?.toList ++ s.inline, ?_, ?_⟩
    · simp [writes, hw, List.perm_middle]
    · rintro (_ | w')
      · simp [writes, goOn, taskDone, Stopping.write?]
      · simp [writes, goOn, Stopping.write?, List.perm_middle]
  | .submitter i =>
    obtain ⟨hi, hw⟩ := List.getElem?_eq_some_iff.mp (show s.inline[i]? = some w from h)
    have hperm : s.inline.Perm (w :: s.inline.eraseIdx i) := by
      simpa [hw] using (List.getElem_cons_eraseIdx_perm hi).symm
    refine ⟨s.worker.write?.toList ++ s.stop.write?.toList ++ s.inline.eraseIdx i, ?_, ?_⟩
    · exact (hperm.append_left _).trans List.perm_middle
    · rintro (_ | w')
      · exact List.Perm.refl _
      · exact ((List.set_perm_cons_eraseIdx hi w').append_left _).trans List.perm_middle

theorem goOn_queue (w' : Option Write) : (s.goOn task w').queue = s.queue := by
  rcases task with _ | _ | i <;> cases w' <;> rfl

theorem goOn_submitted (w' : Option Write) : (s.goOn task w').submitted = s.submitted := by
  rcases task with _ | _ | i <;> cases w' <;> rfl

theorem goOn_ledger (w' : Option Write) : (s.goOn task w').ledger = s.ledger := by
  rcases task with _ | _ | i <;> cases w' <;> rfl

/-- A step of a write moves its entry on: to the rows when it commits, to the failures when it
fails before. -/
theorem Accounts.step_write (h : Accounts s) (hw : s.writeOf task = some w) {act : WriteAct}
    {w' : Option Write} {ledger : Ledger} (hact : w.act s.ledger act = some (w', ledger)) :
    Accounts ({ s with ledger := ledger }.goOn task w') := by
  obtain ⟨others, hbefore, hafter⟩ := writes_goOn (s := { s with ledger := ledger }) hw
  have hb : ∀ x, s.writes.count x = (w :: others).count x := hbefore.count_eq
  have ha := fun x => (hafter w').count_eq x
  have hentries := h.entries
  have hlate := h.late
  -- four ways on; in each both counts of an entry are read off the write and the ledger
  obtain ⟨hwas, rfl, rfl⟩ | ⟨hwas, rfl, rfl | rfl⟩ | ⟨hwas, rfl, rfl⟩ := Write.act_cases hact <;>
    rw [hwas] at hb <;> simp only [hb] at hentries hlate <;> constructor <;> intro e <;>
    specialize hentries e <;> specialize hlate e <;>
    simp only [goOn_queue, goOn_ledger, goOn_submitted, ha, List.count_append, List.count_cons,
      List.count_nil, Option.toList, List.nil_append, List.cons_append, beq_iff_eq,
      Write.mk.injEq, and_true, reduceCtorEq, Bool.true_eq_false, and_false, if_false]
        at hentries hlate ⊢ <;> omega

end Tasks

variable {maxQueue : ℤ} {s t : RequestLogWriter} {a : WriterAct}

theorem Accounts.started (maxQueue : ℤ) : Accounts (started maxQueue) := by
  unfold RequestLogWriter.started
  split <;> exact ⟨fun e => by simp [writes, LogWorker.write?, Stopping.write?],
    fun e => by simp [writes, LogWorker.write?, Stopping.write?]⟩

theorem Winds.started (maxQueue : ℤ) : Winds (started maxQueue) := by
  unfold RequestLogWriter.started
  split <;> exact {
    unfinished := rfl
    workerless := fun _ => rfl
    remaining := fun w hw => by cases hw
    atEnd := fun h => by simp at h }

theorem Accounts.aside (h : Accounts s) {worker : LogWorker} {stop : Stopping}
    (hworker : worker.write? = s.worker.write?) (hstop : stop.write? = s.stop.write?) :
    Accounts { s with worker := worker, stop := stop } := by
  have hwrites : { s with worker := worker, stop := stop }.writes = s.writes := by
    simp only [writes, hworker, hstop]
  exact ⟨fun e => by rw [hwrites]; exact h.entries e, fun e => by rw [hwrites]; exact h.late e⟩

/-- Every entry stays in one place as long as no cancellation takes one from the worker. -/
theorem Accounts.step_keeps (h : Accounts s) (hwinds : Winds s) (hok : NotMidWrite s a)
    (hst : step maxQueue s a = some t) : Accounts t := by
  cases a with
  | submit =>
    rw [step] at hst
    split_ifs at hst <;> obtain rfl := Option.some.inj hst
    -- the number of the submission is new, and goes to one place
    · refine ⟨fun e => ?_, fun e => ?_⟩
      · have he := h.entries e
        simp only [writes, List.count_append, List.count_singleton, beq_iff_eq, Write.mk.injEq,
          and_true] at he ⊢
        split_ifs at he ⊢ <;> omega
      · simpa [writes, List.count_append, List.count_singleton] using h.late e
    · refine ⟨fun e => ?_, h.late⟩
      have he := h.entries e
      simp only [writes, List.count_append, List.count_singleton, beq_iff_eq] at he ⊢
      split_ifs at he ⊢ <;> omega
  | take =>
    rw [step] at hst
    split_ifs at hst with hwaiting
    split at hst
    · cases hst
    · next entry queue hqueue =>
      obtain rfl := Option.some.inj hst
      refine ⟨fun e => ?_, fun e => ?_⟩
      · have he := h.entries e
        simp [writes, hqueue, hwaiting, LogWorker.write?, List.count_cons] at he ⊢
        omega
      · simpa [writes, hwaiting, LogWorker.write?] using h.late e
  | write task act =>
    rw [step] at hst
    split at hst
    · cases hst
    · next w hw =>
      obtain ⟨⟨w', ledger⟩, hact, rfl⟩ := Option.map_eq_some_iff.mp hst
      exact h.step_write hw hact
  | cancel =>
    rw [step] at hst
    split at hst
    · next hwaiting =>
      obtain rfl := Option.some.inj hst
      exact h.aside (by rw [hwaiting]; rfl) rfl
    · next w hwriting =>
      obtain rfl := Option.some.inj hst
      -- the row is committed, so the write that ends here owes nothing
      have hcommitted : w.committed := hok rfl w (by rw [hwriting]; rfl)
      obtain ⟨entry, rfl⟩ : ∃ entry, w = { entry, committed := true } :=
        ⟨w.entry, by rw [← hcommitted]⟩
      refine ⟨fun e => ?_, fun e => ?_⟩
      · simpa [writes, hwriting, LogWorker.write?, taskDone, List.count_cons] using h.entries e
      · have he := h.late e
        simp [writes, hwriting, LogWorker.write?, taskDone, List.count_cons] at he ⊢
        omega
    · cases hst
    · cases hst
  | stop =>
    rw [step] at hst
    split_ifs at hst with hcalled hnone <;> obtain rfl := Option.some.inj hst <;>
      exact h.aside rfl (by rw [not_not.mp hcalled]; rfl)
  | drained =>
    rw [step] at hst
    split_ifs at hst with hracing
    obtain rfl := Option.some.inj hst
    exact h.aside rfl (by rw [hracing.1]; rfl)
  | workerGone =>
    rw [step] at hst
    split_ifs at hst with hracing
    obtain rfl := Option.some.inj hst
    exact h.aside rfl (by rw [hracing.1]; rfl)
  | next =>
    rw [step] at hst
    split_ifs at hst with hnext
    split at hst <;> obtain rfl := Option.some.inj hst
    · exact h.aside rfl (by rw [hnext]; rfl)
    · next entry queue hqueue =>
      refine ⟨fun e => ?_, fun e => ?_⟩
      · have he := h.entries e
        simp [writes, hqueue, hnext, Stopping.write?, List.count_cons] at he ⊢
        omega
      · simpa [writes, hnext, Stopping.write?] using h.late e
  | close =>
    rw [step] at hst
    split_ifs at hst with hclosing
    obtain rfl := Option.some.inj hst
    have hidle : s.worker.write? = Option.none := (hwinds.atEnd (.inl hclosing)).2
    exact h.aside (by rw [hidle]; rfl) (by rw [hclosing]; rfl)

/-- A write that goes on or ends leaves its task where it was, or done with one entry. -/
theorem Winds.step_goOn (h : Winds s) {task : WriterTask} {w : Write}
    (hw : s.writeOf task = some w) (w' : Option Write) (ledger : Ledger) :
    Winds ({ s with ledger := ledger }.goOn task w') := by
  have hun := h.unfinished
  match task with
  | .worker =>
    have hwriting : s.worker.write? = some w := hw
    have hbusy : ∀ v, s.stop ≠ .remaining v := fun v hv => by
      simp [h.remaining v hv, LogWorker.write?] at hwriting
    have hgoing : ¬(s.stop = .closing ∨ s.stop = .returned) := fun hover => by
      simp [(h.atEnd hover).2] at hwriting
    rw [hwriting] at hun
    cases w' with
    | none =>
      exact {
        unfinished := by simp [goOn, taskDone, LogWorker.write?] at hun ⊢; omega
        workerless := fun hnone => by cases hnone
        remaining := fun v hv => absurd hv (hbusy v)
        atEnd := fun hover => absurd hover hgoing }
    | some w' =>
      exact {
        unfinished := hun
        workerless := fun hnone => by cases hnone
        remaining := fun v hv => absurd hv (hbusy v)
        atEnd := fun hover => absurd hover hgoing }
  | .shutdown =>
    obtain ⟨v, hstop⟩ : ∃ v, s.stop = .remaining v := by
      have hwriting : s.stop.write? = some w := hw
      cases hs : s.stop <;> simp [hs, Stopping.write?] at hwriting ⊢
    have hv : v = some w := by
      have hwriting : s.stop.write? = some w := hw
      rwa [hstop] at hwriting
    have hdead := h.remaining v hstop
    rw [hstop, hv] at hun
    cases w' with
    | none =>
      exact {
        unfinished := by simp [goOn, taskDone, Stopping.write?] at hun ⊢; omega
        workerless := h.workerless
        remaining := fun _ _ => hdead
        atEnd := fun hover => by simp [goOn] at hover }
    | some w' =>
      exact {
        unfinished := hun
        workerless := h.workerless
        remaining := fun _ _ => hdead
        atEnd := fun hover => by simp [goOn] at hover }
  | .submitter i => cases w' <;> exact { h with }

theorem Winds.step_keeps (h : Winds s) (hst : step maxQueue s a = some t) : Winds t := by
  cases a with
  | submit =>
    rw [step] at hst
    split_ifs at hst with hinline <;> obtain rfl := Option.some.inj hst
    · exact { h with }
    · obtain ⟨hworker, hstop, -⟩ : s.worker ≠ .none ∧ s.stop = .notCalled ∧
          ¬capacity maxQueue ≤ s.queue.length := by simpa [not_or] using hinline
      refine {
        unfinished := ?_
        workerless := fun hw => absurd hw hworker
        remaining := h.remaining
        atEnd := fun hover => by simp [hstop] at hover }
      have := h.unfinished
      simp only [List.length_append, List.length_singleton]
      omega
  | take =>
    rw [step] at hst
    split_ifs at hst with hwaiting
    split at hst
    · cases hst
    · next entry queue hqueue =>
      obtain rfl := Option.some.inj hst
      refine {
        unfinished := ?_
        workerless := fun hw => by cases hw
        remaining := fun w hw => by
          have := h.remaining w hw
          simp [hwaiting] at this
        atEnd := fun hover => by
          have := (h.atEnd hover).1
          simp [hqueue] at this }
      have := h.unfinished
      simp [hqueue, hwaiting, LogWorker.write?] at this ⊢
      omega
  | write task act =>
    rw [step] at hst
    split at hst
    · cases hst
    · next w hw =>
      obtain ⟨⟨w', ledger⟩, -, rfl⟩ := Option.map_eq_some_iff.mp hst
      exact h.step_goOn hw w' ledger
  | cancel =>
    rw [step] at hst
    split at hst
    · next hwaiting =>
      obtain rfl := Option.some.inj hst
      exact { h with
        unfinished := by simpa [hwaiting, LogWorker.write?] using h.unfinished
        workerless := fun hw => by cases hw
        remaining := fun _ _ => rfl
        atEnd := fun hover => ⟨(h.atEnd hover).1, rfl⟩ }
    · next w hwriting =>
      obtain rfl := Option.some.inj hst
      refine { h with
        unfinished := ?_
        workerless := fun hw => by cases hw
        remaining := fun _ _ => rfl
        atEnd := fun hover => ⟨(h.atEnd hover).1, rfl⟩ }
      have := h.unfinished
      simp [hwriting, LogWorker.write?, taskDone] at this ⊢
      omega
    · cases hst
    · cases hst
  | stop =>
    rw [step] at hst
    split_ifs at hst with hcalled hnone <;> obtain rfl := Option.some.inj hst <;>
      have hun := h.unfinished <;> rw [not_not.mp hcalled] at hun
    · exact { h with
        unfinished := hun
        remaining := fun w hw => by cases hw
        atEnd := fun _ => ⟨h.workerless hnone, by rw [hnone]; rfl⟩ }
    · exact { h with
        unfinished := hun
        remaining := fun w hw => by cases hw
        atEnd := fun hover => by simp at hover }
  | drained =>
    rw [step] at hst
    split_ifs at hst with hracing
    obtain rfl := Option.some.inj hst
    have hun := h.unfinished
    rw [hracing.1, hracing.2] at hun
    have hqueue : s.queue = [] := List.eq_nil_of_length_eq_zero (by omega)
    have hidle : s.worker.write? = Option.none := by
      rw [← Option.toList_eq_nil_iff]
      exact List.eq_nil_of_length_eq_zero (by omega)
    exact { h with
      unfinished := by rw [hracing.2]; exact hun
      remaining := fun w hw => by cases hw
      atEnd := fun _ => ⟨hqueue, hidle⟩ }
  | workerGone =>
    rw [step] at hst
    split_ifs at hst with hracing
    obtain rfl := Option.some.inj hst
    have hun := h.unfinished
    rw [hracing.1] at hun
    exact { h with
      unfinished := hun
      remaining := fun _ _ => hracing.2
      atEnd := fun hover => by simp at hover }
  | next =>
    rw [step] at hst
    split_ifs at hst with hnext
    have hun := h.unfinished
    have hdead := h.remaining _ hnext
    rw [hnext] at hun
    split at hst <;> obtain rfl := Option.some.inj hst
    · next hqueue =>
      exact { h with
        unfinished := hun
        remaining := fun w hw => by cases hw
        atEnd := fun _ => ⟨hqueue, by rw [hdead]; rfl⟩ }
    · next entry queue hqueue =>
      refine {
        unfinished := ?_
        workerless := fun hw => by simp [hdead] at hw
        remaining := fun _ _ => hdead
        atEnd := fun hover => by simp at hover }
      simp [hqueue, Stopping.write?] at hun ⊢
      omega
  | close =>
    rw [step] at hst
    split_ifs at hst with hclosing
    obtain rfl := Option.some.inj hst
    obtain ⟨hqueue, hidle⟩ := h.atEnd (.inl hclosing)
    have hun := h.unfinished
    rw [hclosing, hidle] at hun
    exact {
      unfinished := hun
      workerless := fun _ => hqueue
      remaining := fun w hw => by cases hw
      atEnd := fun _ => ⟨hqueue, rfl⟩ }

end RequestLogWriter

open RequestLogWriter

/-- **No row is lost or doubled.** In every run of a started writer, whatever its queue holds, in
which the worker is never cancelled with a row it took and has not committed: no entry is written or
reported twice, and once `stop` and all submits are over every entry submitted was written once or
its failure reported once. -/
theorem stop_accounts (maxQueue : ℤ) (acts : List WriterAct) (s : RequestLogWriter)
    (h : Run (step maxQueue) NotMidWrite (started maxQueue) acts s) :
    (∀ e, s.ledger.written.count e ≤ 1 ∧ s.ledger.reported.count e ≤ 1) ∧
      (s.stop = .returned → s.inline = [] → ∀ e < s.submitted,
        s.ledger.written.count e = 1 ∨ s.ledger.reported.count e = 1) := by
  obtain ⟨haccounts, hwinds⟩ : Accounts s ∧ Winds s :=
    h.invariant (P := fun s => Accounts s ∧ Winds s)
      (fun _ _ _ hs hok hst => ⟨hs.1.step_keeps hs.2 hok hst, hs.2.step_keeps hst⟩)
      ⟨Accounts.started maxQueue, Winds.started maxQueue⟩
  have hreported : ∀ e, s.ledger.reported.count e =
      s.ledger.failed.count e + s.ledger.failedLate.count e := fun e => List.count_append
  refine ⟨fun e => ?_, fun hstop hinline e he => ?_⟩
  · have hone := haccounts.entries e
    have hlate := haccounts.late e
    rw [hreported]
    split_ifs at hone <;> omega
  · obtain ⟨hqueue, hidle⟩ := hwinds.atEnd (.inr hstop)
    have hwrites : s.writes = [] := by
      rw [writes, hidle, hstop, hinline]
      rfl
    have hone := haccounts.entries e
    have hlate := haccounts.late e
    rw [hqueue, hwrites, if_pos he] at hone
    rw [hwrites] at hlate
    simp only [List.count_nil] at hone hlate
    rw [hreported]
    omega

/-- Three rows on a queue of one: the worker writes the first and dies at rest, the second is queued
to it, the third finds the queue full and its write fails; `stop` writes the second. -/
theorem stop_accounts_three : ∃ s : RequestLogWriter,
    (s.submitted, s.ledger.written, s.ledger.reported) = (3, [0, 1], [2]) ∧
      ∀ e < 3, s.ledger.written.count e = 1 ∨ s.ledger.reported.count e = 1 := by
  have hrun : Run (step 1) NotMidWrite (started 1)
      [.submit, .take, .write .worker .commit, .write .worker .done, .cancel, .submit, .submit,
        .write (.submitter 0) .fail, .stop, .workerGone, .next, .write .shutdown .commit,
        .write .shutdown .done, .next, .close]
      { submitted := 3, stop := .returned, ledger := { written := [0, 1], failed := [2] } } :=
    run_of_checkedRun (by decide)
  exact ⟨_, rfl, (stop_accounts _ _ _ hrun).2 rfl rfl⟩

/-- A worker cancelled with a row it has not committed marks it done: the row is not written, and no
failure is reported. -/
theorem row_in_flight_lost :
    ¬∀ (maxQueue : ℤ) (acts : List WriterAct) (s : RequestLogWriter),
      Run (step maxQueue) (fun _ _ => True) (started maxQueue) acts s → s.stop = .returned →
        s.inline = [] → ∀ e < s.submitted,
          s.ledger.written.count e = 1 ∨ s.ledger.reported.count e = 1 := by
  intro h
  have hrun : Run (step 1) (fun _ _ => True) (started 1)
      [.submit, .take, .cancel, .stop, .workerGone, .next, .close]
      { submitted := 1, stop := .returned } :=
    run_of_checkedRun (by decide)
  have := h _ _ _ hrun rfl rfl 0 (by decide)
  revert this
  decide

end AiraGateway
