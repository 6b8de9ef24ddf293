import AiraGateway.Library.Schedules
import Mathlib.Data.List.Basic

/-!
# A stream that keeps its connection

The items of a stream are read by a task of their own and handed over through a queue of one.
Whoever is sent them waits for the queue under a timeout, and is sent a tick instead where it
passes.

* **What is handed over** (`Sound`): what has left the queue, what is in it and what the reader
  holds are, in this order, what the stream said; no turn of anybody loses or repeats an entry.
* What is sent without its ticks is the stream's items in order (`items_sent`), and where it has
  ended it is all of them and then how the stream ended, once (`ended_sent`).
* Every item arrives, and the end does, under every schedule that lets the reader and the consumer
  go on (`eventually_taken`).
* **Keepalives are transparent exactly where the stream does not end by raising what the reader does
  not catch** (`transparent_iff`): then the end is never handed over.
-/

namespace AiraGateway.Serving

namespace Keepalive

/-! ### Reader, queue and consumer -/

/-- What an iterator does when it is asked for its next item. -/
inductive Answer (ι ε : Type)
  | item (i : ι)
  | returned
  | raised (e : ε)

/-- What is handed over through the queue: an item, or how the iterator ended. -/
inductive Entry (ι ε : Type)
  | item (i : ι)
  | finished (failure : Option ε)

/-- What a consumer sees. -/
inductive Event (ι ε : Type)
  | tick
  | item (i : ι)
  | ended (failure : Option ε)

/-- The task that reads. -/
inductive Reader (ι ε : Type)
  | unborn
  | reading
  | putting (entry : Entry ι ε)
  | gone

/-- The side that yields: not started, holding at a yield, waiting for the queue, about to go on
because something has been put, ended or closed. -/
inductive Phase
  | unstarted
  | idle
  | waiting
  | woken
  | ended
  | closed
  deriving DecidableEq

structure State (ι ε : Type) where
  reads : ℕ := 0
  reader : Reader ι ε := .unborn
  queue : Option (Entry ι ε) := none
  phase : Phase := .unstarted
  out : List (Event ι ε) := []

/-- Whose turn it is: the reader's, the consumer's, the timeout's, or that of whoever closes. -/
inductive Turn
  | reader
  | consumer
  | timeout
  | close
  deriving DecidableEq

variable {ι ε τ : Type}

/-- What a consumer sees of an entry. -/
def Entry.event : Entry ι ε → Event ι ε
  | .item i => .item i
  | .finished failure => .ended failure

/-- What the reader makes of an answer: an entry to hand over, unless it does not catch what was
raised. -/
def entryOf (caught : ε → Bool) : Answer ι ε → Option (Entry ι ε)
  | .item i => some (.item i)
  | .returned => some (.finished none)
  | .raised e => if caught e then some (.finished (some e)) else none

/-- Where an entry leaves the side that yields. -/
def Entry.phase : Entry ι ε → Phase
  | .item _ => .idle
  | .finished _ => .ended

/-- Where handing an entry over leaves the reader. -/
def Entry.reader : Entry ι ε → Reader ι ε
  | .item _ => .reading
  | .finished _ => .gone

/-- An entry is taken from the queue: an item is yielded, and what was raised is raised. -/
def State.take (s : State ι ε) (entry : Entry ι ε) : State ι ε :=
  { s with queue := none, out := s.out ++ [entry.event], phase := entry.phase }

/-- An entry is put into the queue, and a consumer that waits for one is woken. -/
def State.put (s : State ι ε) (entry : Entry ι ε) : State ι ε :=
  { s with
    queue := some entry
    reader := entry.reader
    phase := if s.phase = .waiting then .woken else s.phase }

section Step

variable (items : ℕ → Answer ι ε) (caught : ε → Bool) (interval : Option τ)

/-- The reading task goes on: it reads, or puts what it read where there is room. -/
def stepReader (s : State ι ε) : Option (State ι ε) :=
  match s.reader with
  | .reading => some
    { s with
      reads := s.reads + 1
      reader := ((entryOf caught (items s.reads)).map .putting).getD .gone }
  | .putting entry =>
    match s.queue with
    | some _ => none
    | none => some (s.put entry)
  | .unborn | .gone => none

/-- The consumer asks for the next item, or goes on when something has been put. -/
def stepConsumer (s : State ι ε) : Option (State ι ε) :=
  match s.phase with
  | .unstarted => some { s with reader := .reading, phase := .waiting }
  | .idle | .woken =>
    match s.queue with
    | some entry => some (s.take entry)
    | none => some { s with phase := .waiting }
  | .waiting | .ended | .closed => none

/-- The interval passes: the wait is cancelled, what is queued stays, and a tick is yielded. -/
def stepTimeout (s : State ι ε) : Option (State ι ε) :=
  if interval.isSome ∧ (s.phase = .waiting ∨ s.phase = .woken) then
    some { s with phase := .idle, out := s.out ++ [.tick] }
  else none

/-- The iterator is closed, or whoever waits for it is cancelled: the reader is cancelled too. -/
def stepClose (s : State ι ε) : Option (State ι ε) :=
  match s.phase with
  | .unstarted | .idle | .waiting | .woken => some { s with reader := .gone, phase := .closed }
  | .ended | .closed => none

def step (s : State ι ε) : Turn → Option (State ι ε)
  | .reader => stepReader items caught s
  | .consumer => stepConsumer s
  | .timeout => stepTimeout interval s
  | .close => stepClose s

/-- `with_pings` under a schedule. -/
def withPings (schedule : ℕ → Turn) (t : ℕ) : State ι ε :=
  stateAt (step items caught interval) {} schedule t

/-! ### What a turn does -/

/-- Everything a turn can do. -/
inductive Moves (s : State ι ε) : Turn → State ι ε → Prop
  | read {entry : Entry ι ε} (hreader : s.reader = .reading)
      (hentry : entryOf caught (items s.reads) = some entry) :
      Moves s .reader { s with reads := s.reads + 1, reader := .putting entry }
  | lost (hreader : s.reader = .reading) (hentry : entryOf caught (items s.reads) = none) :
      Moves s .reader { s with reads := s.reads + 1, reader := .gone }
  | put {entry : Entry ι ε} (hreader : s.reader = .putting entry) (hqueue : s.queue = none) :
      Moves s .reader (s.put entry)
  | start (hphase : s.phase = .unstarted) :
      Moves s .consumer { s with reader := .reading, phase := .waiting }
  | take {entry : Entry ι ε} (hphase : s.phase = .idle ∨ s.phase = .woken)
      (hqueue : s.queue = some entry) : Moves s .consumer (s.take entry)
  | wait (hphase : s.phase = .idle ∨ s.phase = .woken) (hqueue : s.queue = none) :
      Moves s .consumer { s with phase := .waiting }
  | tick (hinterval : interval.isSome) (hphase : s.phase = .waiting ∨ s.phase = .woken) :
      Moves s .timeout { s with phase := .idle, out := s.out ++ [.tick] }
  | close (hphase : s.phase ≠ .ended) (hopen : s.phase ≠ .closed) :
      Moves s .close { s with reader := .gone, phase := .closed }

theorem moves_of_step {s next : State ι ε} {turn : Turn}
    (h : step items caught interval s turn = some next) :
    Moves items caught interval s turn next := by
  cases turn with
  | reader =>
    rw [step, stepReader] at h
    split at h
    · next hreader =>
      obtain rfl := Option.some.inj h
      cases hentry : entryOf caught (items s.reads) with
      | none =>
        rw [Option.map_none, Option.getD_none]
        exact .lost hreader hentry
      | some entry =>
        rw [Option.map_some, Option.getD_some]
        exact .read hreader hentry
    · next entry hreader =>
      split at h
      · exact absurd h (Option.some_ne_none _).symm
      · next hqueue =>
        obtain rfl := Option.some.inj h
        exact .put hreader hqueue
    · exact absurd h (Option.some_ne_none _).symm
    · exact absurd h (Option.some_ne_none _).symm
  | consumer =>
    have hgoes : ∀ hphase : s.phase = .idle ∨ s.phase = .woken,
        (match s.queue with
          | some entry => some (s.take entry)
          | none => some { s with phase := .waiting }) = some next →
          Moves items caught interval s .consumer next := by
      intro hphase h
      split at h
      · next entry hqueue =>
        obtain rfl := Option.some.inj h
        exact .take hphase hqueue
      · next hqueue =>
        obtain rfl := Option.some.inj h
        exact .wait hphase hqueue
    rw [step, stepConsumer] at h
    cases hphase : s.phase with
    | unstarted =>
      rw [hphase] at h
      obtain rfl := Option.some.inj h
      exact .start hphase
    | idle =>
      rw [hphase] at h
      exact hgoes (.inl hphase) h
    | woken =>
      rw [hphase] at h
      exact hgoes (.inr hphase) h
    | waiting | ended | closed =>
      rw [hphase] at h
      exact absurd h (Option.some_ne_none _).symm
  | timeout =>
    rw [step, stepTimeout] at h
    split_ifs at h with hticks
    obtain rfl := Option.some.inj h
    exact .tick hticks.1 hticks.2
  | close =>
    rw [step, stepClose] at h
    cases hphase : s.phase with
    | ended | closed =>
      rw [hphase] at h
      exact absurd h (Option.some_ne_none _).symm
    | unstarted | idle | waiting | woken =>
      rw [hphase] at h
      obtain rfl := Option.some.inj h
      exact .close (by simp [hphase]) (by simp [hphase])

end Step

/-! ### What is handed over -/

/-- What was taken from the queue for an event. -/
def Event.entry : Event ι ε → Option (Entry ι ε)
  | .tick => none
  | .item i => some (.item i)
  | .ended failure => some (.finished failure)

/-- The item of an event. -/
def Event.item? : Event ι ε → Option ι
  | .item i => some i
  | .tick | .ended _ => none

/-- What has been taken from the queue. -/
def State.taken (s : State ι ε) : List (Entry ι ε) := s.out.filterMap Event.entry

/-- What the reader holds in its hands. -/
def Reader.held : Reader ι ε → List (Entry ι ε)
  | .putting entry => [entry]
  | .unborn | .reading | .gone => []

/-- What is sent without the ticks and the end. -/
def itemsOf (out : List (Event ι ε)) : List ι := out.filterMap Event.item?

/-- What was read, in the order of reading. -/
def said (items : ℕ → Answer ι ε) (caught : ε → Bool) (n : ℕ) : List (Entry ι ε) :=
  (List.range n).filterMap fun k => entryOf caught (items k)

@[simp] theorem Event.entry_event (entry : Entry ι ε) : entry.event.entry = some entry := by
  cases entry <;> rfl

theorem said_succ (items : ℕ → Answer ι ε) (caught : ε → Bool) (n : ℕ) :
    said items caught (n + 1) = said items caught n ++ (entryOf caught (items n)).toList := by
  rw [said, said, List.range_succ, List.filterMap_append]
  cases hentry : entryOf caught (items n) <;> simp [hentry]

section Sound

variable (items : ℕ → Answer ι ε) (caught : ε → Bool)

/-- What holds in every state. -/
structure Sound (s : State ι ε) : Prop where
  /-- Nothing that was read is lost or repeated, until the iterator is closed. -/
  handed : s.taken ++ s.queue.toList ++ s.reader.held <+: said items caught s.reads
  all : s.phase ≠ .closed → said items caught s.reads = s.taken ++ s.queue.toList ++ s.reader.held
  /-- Only the last answer may be another one than an item. -/
  before : ∀ k, k + 1 < s.reads → ∃ i, items k = .item i
  reading : s.reader = .reading → ∀ k < s.reads, ∃ i, items k = .item i
  putting : ∀ entry, s.reader = .putting entry →
    ∃ k, s.reads = k + 1 ∧ entryOf caught (items k) = some entry
  gone : s.reader = .gone → s.phase ≠ .closed →
    ∃ k, s.reads = k + 1 ∧ ∀ i, items k ≠ .item i
  unstarted : s.phase = .unstarted → s.reads = 0 ∧ s.reader = .unborn ∧ s.queue = none ∧ s.out = []
  born : s.reader = .unborn → s.phase = .unstarted
  closed : s.phase = .closed → s.reader = .gone
  waiting : s.phase = .waiting → s.queue = none
  queued : ∀ failure, s.queue = some (.finished failure) → s.reader = .gone
  open_ : s.phase ≠ .ended → ∀ failure, Event.ended failure ∉ s.out
  ended : s.phase = .ended → s.reader = .gone ∧ s.queue = none ∧
    ∃ before failure, s.out = before ++ [.ended failure] ∧
      ∀ failure', Event.ended failure' ∉ before
  ahead : s.reads ≤ s.taken.length + s.queue.toList.length +
    (match s.reader with
      | .putting _ | .gone => 1
      | .reading | .unborn => 0)

theorem sound_start : Sound items caught ({} : State ι ε) where
  handed := List.nil_prefix
  all _ := rfl
  before k h := absurd h (Nat.not_lt_zero _)
  reading h := by simp at h
  putting entry h := by simp at h
  gone h := by simp at h
  unstarted _ := ⟨rfl, rfl, rfl, rfl⟩
  born _ := rfl
  closed h := by simp at h
  waiting h := by simp at h
  queued failure h := by simp at h
  open_ _ failure h := absurd h List.not_mem_nil
  ended h := by simp at h
  ahead := Nat.zero_le _

variable {items caught} {s next : State ι ε} {turn : Turn}

theorem entryOf_item {answer : Answer ι ε} {i : ι} :
    entryOf caught answer = some (.item i) ↔ answer = .item i := by
  cases answer with
  | item j => simp [entryOf]
  | returned => simp [entryOf]
  | raised e =>
    rw [entryOf]
    split_ifs <;> simp

theorem not_item_of_entryOf (caught : ε → Bool) {answer : Answer ι ε}
    (h : ∀ i, entryOf caught answer ≠ some (.item i)) (i : ι) : answer ≠ .item i :=
  fun hanswer => h i (entryOf_item.mpr hanswer)

/-- Where the reader has not gone the iterator is open. -/
theorem Sound.all_of_reader (h : Sound items caught s) (hreader : s.reader ≠ .gone) :
    said items caught s.reads = s.taken ++ s.queue.toList ++ s.reader.held :=
  h.all fun hclosed => hreader (h.closed hclosed)

theorem Sound.started_of_reader (h : Sound items caught s) (hreader : s.reader ≠ .unborn) :
    s.phase ≠ .unstarted := fun hphase => hreader (h.unstarted hphase).2.1

theorem Sound.not_ended_of_reader (h : Sound items caught s) (hreader : s.reader ≠ .gone) :
    s.phase ≠ .ended := fun hphase => hreader (h.ended hphase).1

theorem Sound.read {entry : Entry ι ε} (h : Sound items caught s) (hreader : s.reader = .reading)
    (hentry : entryOf caught (items s.reads) = some entry) :
    Sound items caught { s with reads := s.reads + 1, reader := .putting entry } := by
  have hall : said items caught (s.reads + 1) = s.taken ++ s.queue.toList ++ [entry] := by
    rw [said_succ, hentry, h.all_of_reader (by simp [hreader]), hreader, Reader.held,
      List.append_nil, Option.toList_some]
  refine ⟨hall ▸ List.prefix_refl _, fun _ => hall, fun k hk => ?_, fun hnot => by simp at hnot,
    fun e he => ?_, fun hnot => by simp at hnot,
    fun hphase => absurd hphase (h.started_of_reader (by simp [hreader])),
    fun hnot => by simp at hnot, fun hclosed => by simp [h.closed hclosed] at hreader, h.waiting,
    fun failure hqueue => by simp [h.queued failure hqueue] at hreader, h.open_,
    fun hphase => absurd hphase (h.not_ended_of_reader (by simp [hreader])), ?_⟩
  · exact h.reading hreader k (Nat.lt_of_succ_lt_succ hk)
  · exact ⟨s.reads, rfl, (Reader.putting.inj he) ▸ hentry⟩
  · have hahead := h.ahead
    rw [hreader] at hahead
    exact Nat.succ_le_succ hahead

theorem Sound.lost (h : Sound items caught s) (hreader : s.reader = .reading)
    (hentry : entryOf caught (items s.reads) = none) :
    Sound items caught { s with reads := s.reads + 1, reader := .gone } := by
  have hall : said items caught (s.reads + 1) = s.taken ++ s.queue.toList ++ [] := by
    rw [said_succ, hentry, h.all_of_reader (by simp [hreader]), hreader, Reader.held,
      Option.toList_none, List.append_nil]
  refine ⟨hall ▸ List.prefix_refl _, fun _ => hall, fun k hk => ?_, fun hnot => by simp at hnot,
    fun e he => by simp at he, fun _ _ => ?_,
    fun hphase => absurd hphase (h.started_of_reader (by simp [hreader])),
    fun hnot => by simp at hnot, fun _ => rfl, h.waiting, fun _ _ => rfl, h.open_,
    fun hphase => absurd hphase (h.not_ended_of_reader (by simp [hreader])), ?_⟩
  · exact h.reading hreader k (Nat.lt_of_succ_lt_succ hk)
  · exact ⟨s.reads, rfl, not_item_of_entryOf caught fun i => by simp [hentry]⟩
  · have hahead := h.ahead
    rw [hreader] at hahead
    exact Nat.succ_le_succ hahead

theorem Sound.put {entry : Entry ι ε} (h : Sound items caught s)
    (hreader : s.reader = .putting entry) (hqueue : s.queue = none) :
    Sound items caught (s.put entry) := by
  obtain ⟨k, hk, hentry⟩ := h.putting entry hreader
  have hheld : entry.reader.held = [] := by cases entry <;> rfl
  have hall : said items caught s.reads = s.taken ++ [entry] ++ entry.reader.held := by
    rw [h.all_of_reader (by simp [hreader]), hreader, hqueue, hheld]
    simp [Reader.held]
  have hphase : ∀ phase, (s.put entry).phase = phase → phase ≠ .woken → s.phase = phase := by
    intro phase hput hwoken
    simp only [State.put] at hput
    split_ifs at hput with hwaiting
    · exact absurd hput.symm hwoken
    · exact hput
  have hstarted := h.started_of_reader (by simp [hreader])
  have hnotEnded := h.not_ended_of_reader (by simp [hreader])
  refine ⟨hall ▸ List.prefix_refl _, fun _ => hall, h.before, fun hreading j hj => ?_,
    fun e he => ?_, fun hgone _ => ⟨k, hk, ?_⟩,
    fun hunstarted => absurd (hphase _ hunstarted (by simp)) hstarted, fun hunborn => ?_,
    fun hclosed => ?_, fun hwaiting => ?_, fun failure hfinished => ?_,
    fun _ failure => h.open_ hnotEnded failure,
    fun hended => absurd (hphase _ hended (by simp)) hnotEnded, ?_⟩
  · have hj' : j < s.reads := hj
    obtain hlast | hbefore := Nat.lt_or_ge (j + 1) s.reads
    · exact h.before j hlast
    · obtain rfl : j = k := by omega
      cases entry with
      | item i => exact ⟨i, entryOf_item.mp hentry⟩
      | finished failure => simp [State.put, Entry.reader] at hreading
  · cases entry <;> simp [State.put, Entry.reader] at he
  · cases entry with
    | item i => simp [State.put, Entry.reader] at hgone
    | finished failure => exact not_item_of_entryOf caught fun i => by simp [hentry]
  · cases entry <;> simp [State.put, Entry.reader] at hunborn
  · have hgone := h.closed (hphase _ hclosed (by simp))
    simp [hreader] at hgone
  · have hnot := hphase _ hwaiting (by simp)
    simp [State.put, hnot] at hwaiting
  · obtain rfl := Option.some.inj hfinished
    rfl
  · have hahead := h.ahead
    rw [hreader, hqueue] at hahead
    have hzero : s.reads ≤ s.taken.length + 1 := hahead
    exact le_trans hzero (Nat.le_add_right _ _)

theorem Sound.start (h : Sound items caught s) (hphase : s.phase = .unstarted) :
    Sound items caught { s with reader := .reading, phase := .waiting } := by
  obtain ⟨hreads, hreader, hqueue, hout⟩ := h.unstarted hphase
  have hall : said items caught s.reads = s.taken ++ s.queue.toList ++ [] := by
    rw [h.all_of_reader (by simp [hreader]), hreader]
    rfl
  refine ⟨hall ▸ List.prefix_refl _, fun _ => hall, h.before, fun _ k hk => ?_,
    fun e he => by simp at he, fun hgone => by simp at hgone, fun hnot => by simp at hnot,
    fun hnot => by simp at hnot, fun hnot => by simp at hnot, fun _ => hqueue,
    fun failure hfinished => ?_, fun _ failure hended => ?_, fun hnot => by simp at hnot, ?_⟩
  · have hk' : k < s.reads := hk
    omega
  · exact absurd (hqueue.symm.trans hfinished) (Option.some_ne_none _).symm
  · have hended' : Event.ended failure ∈ s.out := hended
    rw [hout] at hended'
    exact absurd hended' List.not_mem_nil
  · have hahead := h.ahead
    rw [hreader] at hahead
    exact hahead

theorem taken_take (s : State ι ε) (entry : Entry ι ε) :
    (s.take entry).taken = s.taken ++ [entry] := by
  rw [State.taken, State.take, List.filterMap_append, State.taken]
  simp

theorem Sound.take {entry : Entry ι ε} (h : Sound items caught s)
    (hphase : s.phase = .idle ∨ s.phase = .woken) (hqueue : s.queue = some entry) :
    Sound items caught (s.take entry) := by
  have hopen : s.phase ≠ .closed ∧ s.phase ≠ .ended ∧ s.phase ≠ .unstarted := by
    obtain hidle | hwoken := hphase
    · simp [hidle]
    · simp [hwoken]
  have hall : said items caught s.reads =
      (s.take entry).taken ++ (s.take entry).queue.toList ++ s.reader.held := by
    rw [h.all hopen.1, taken_take, hqueue]
    simp [State.take]
  refine ⟨hall ▸ List.prefix_refl _, fun _ => hall, h.before, h.reading, h.putting,
    fun hgone _ => h.gone hgone hopen.1, fun hphase => ?_,
    fun hunborn => absurd (h.born hunborn) hopen.2.2, fun hclosed => ?_, fun _ => rfl,
    fun failure hfinished => ?_, fun hphase failure hmem => ?_, fun hended => ?_, ?_⟩
  · cases entry <;> simp [State.take, Entry.phase] at hphase
  · cases entry <;> simp [State.take, Entry.phase] at hclosed
  · exact absurd hfinished (Option.some_ne_none _).symm
  · obtain hold | hnew := List.mem_append.mp hmem
    · exact h.open_ hopen.2.1 failure hold
    · cases entry with
      | item i => simp [Entry.event] at hnew
      | finished _ => exact hphase rfl
  · cases entry with
    | item i => simp [State.take, Entry.phase] at hended
    | finished failure =>
      exact ⟨h.queued failure hqueue, rfl, s.out, failure, rfl, h.open_ hopen.2.1⟩
  · have hahead := h.ahead
    rw [hqueue] at hahead
    rw [taken_take, List.length_append]
    exact hahead

theorem Sound.wait (h : Sound items caught s) (hphase : s.phase = .idle ∨ s.phase = .woken)
    (hqueue : s.queue = none) : Sound items caught { s with phase := .waiting } := by
  have hopen : s.phase ≠ .closed ∧ s.phase ≠ .ended ∧ s.phase ≠ .unstarted := by
    obtain hidle | hwoken := hphase
    · simp [hidle]
    · simp [hwoken]
  exact ⟨h.handed, fun _ => h.all hopen.1, h.before, h.reading, h.putting,
    fun hgone _ => h.gone hgone hopen.1, fun hnot => by simp at hnot,
    fun hunborn => absurd (h.born hunborn) hopen.2.2, fun hnot => by simp at hnot, fun _ => hqueue,
    h.queued, fun _ => h.open_ hopen.2.1, fun hnot => by simp at hnot, h.ahead⟩

theorem taken_tick (s : State ι ε) :
    ({ s with phase := .idle, out := s.out ++ [.tick] } : State ι ε).taken = s.taken := by
  rw [State.taken, List.filterMap_append]
  simp [Event.entry, State.taken]

theorem Sound.tick (h : Sound items caught s) (hphase : s.phase = .waiting ∨ s.phase = .woken) :
    Sound items caught { s with phase := .idle, out := s.out ++ [.tick] } := by
  have hopen : s.phase ≠ .closed ∧ s.phase ≠ .ended ∧ s.phase ≠ .unstarted := by
    obtain hwaiting | hwoken := hphase
    · simp [hwaiting]
    · simp [hwoken]
  have htaken := taken_tick s
  refine ⟨?_, fun _ => ?_, h.before, h.reading, h.putting, fun hgone _ => h.gone hgone hopen.1,
    fun hnot => by simp at hnot, fun hunborn => absurd (h.born hunborn) hopen.2.2,
    fun hnot => by simp at hnot, fun hnot => by simp at hnot, h.queued, fun _ failure hmem => ?_,
    fun hnot => by simp at hnot, ?_⟩
  · rw [htaken]
    exact h.handed
  · rw [htaken]
    exact h.all hopen.1
  · obtain hold | hnew := List.mem_append.mp hmem
    · exact h.open_ hopen.2.1 failure hold
    · simp at hnew
  · rw [htaken]
    exact h.ahead

theorem Sound.close (h : Sound items caught s) (hended : s.phase ≠ .ended) :
    Sound items caught { s with reader := .gone, phase := .closed } := by
  refine ⟨?_, fun hnot => absurd rfl hnot, h.before, fun hnot => by simp at hnot,
    fun e he => by simp at he, fun _ hnot => absurd rfl hnot, fun hnot => by simp at hnot,
    fun hnot => by simp at hnot, fun _ => rfl, fun hnot => by simp at hnot, fun _ _ => rfl,
    fun _ => h.open_ hended, fun hnot => by simp at hnot, ?_⟩
  · refine List.IsPrefix.trans ?_ h.handed
    exact (List.prefix_append_right_inj _).mpr List.nil_prefix
  · have hahead := h.ahead
    have hone : (match s.reader with
      | .putting _ | .gone => 1
      | .reading | .unborn => 0) ≤ 1 := by
      split <;> omega
    exact le_trans hahead (Nat.add_le_add_left hone _)

/-- **Every turn keeps it so**. -/
theorem Sound.step {interval : Option τ} (h : Sound items caught s)
    (hstep : step items caught interval s turn = some next) : Sound items caught next := by
  cases moves_of_step items caught interval hstep with
  | read hreader hentry => exact h.read hreader hentry
  | lost hreader hentry => exact h.lost hreader hentry
  | put hreader hqueue => exact h.put hreader hqueue
  | start hphase => exact h.start hphase
  | take hphase hqueue => exact h.take hphase hqueue
  | wait hphase hqueue => exact h.wait hphase hqueue
  | tick _ hphase => exact h.tick hphase
  | close hended _ => exact h.close hended

theorem sound_withPings (items : ℕ → Answer ι ε) (caught : ε → Bool) (interval : Option τ)
    (schedule : ℕ → Turn) (t : ℕ) :
    Sound items caught (withPings items caught interval schedule t) :=
  stateAt_invariant (fun _ _ _ h hstep => h.step hstep) (sound_start items caught) t

/-! ### In order, and once -/

theorem length_said {n : ℕ} (h : ∀ k < n, (entryOf caught (items k)).isSome) :
    (said items caught n).length = n := by
  induction n with
  | zero => rfl
  | succ n ih =>
    obtain ⟨entry, hentry⟩ := Option.isSome_iff_exists.mp (h n (Nat.lt_succ_self n))
    rw [said_succ, List.length_append, ih fun k hk => h k (Nat.lt_succ_of_lt hk), hentry]
    rfl

/-- What was read at some place is what the iterator answered there. -/
theorem entryOf_of_said {n k : ℕ} {entry : Entry ι ε}
    (hbefore : ∀ j, j + 1 < n → ∃ i, items j = .item i)
    (h : (said items caught n)[k]? = some entry) : entryOf caught (items k) = some entry := by
  induction n with
  | zero => exact absurd h (Option.some_ne_none _).symm
  | succ n ih =>
    have hitems : ∀ j < n, (entryOf caught (items j)).isSome := by
      intro j hj
      obtain ⟨i, hi⟩ := hbefore j (Nat.succ_lt_succ hj)
      rw [hi]
      rfl
    have hlength := length_said hitems
    rw [said_succ] at h
    obtain hk | hk := Nat.lt_or_ge k n
    · rw [List.getElem?_append_left (by omega)] at h
      exact ih (fun j hj => hbefore j (Nat.lt_succ_of_lt hj)) h
    · rw [List.getElem?_append_right (by omega), hlength] at h
      have hentry := List.mem_of_getElem? h
      rw [Option.mem_toList] at hentry
      rw [hentry, Option.toList_some] at h
      have hlt := (List.getElem?_eq_some_iff.mp h).1
      rw [List.length_singleton] at hlt
      obtain rfl : k = n := by omega
      exact hentry

/-- What has been taken is what the iterator answered, in the order of its answers. -/
theorem Sound.entryOf_of_taken (h : Sound items caught s) {k : ℕ} {entry : Entry ι ε}
    (htaken : s.taken[k]? = some entry) : entryOf caught (items k) = some entry := by
  refine entryOf_of_said h.before ?_
  obtain ⟨rest, hrest⟩ := h.handed
  rw [← hrest, List.append_assoc, List.append_assoc, List.getElem?_append_left]
  · exact htaken
  · exact (List.getElem?_eq_some_iff.mp htaken).1

theorem taken_eq_map {out : List (Event ι ε)} (h : ∀ failure, Event.ended failure ∉ out) :
    out.filterMap Event.entry = (itemsOf out).map .item := by
  induction out with
  | nil => rfl
  | cons event out ih =>
    have hrest := ih fun failure hmem => h failure (List.mem_cons_of_mem _ hmem)
    cases event with
    | tick => exact hrest
    | item i => simpa [itemsOf, Event.entry, Event.item?] using hrest
    | ended failure => exact absurd (List.mem_cons_self ..) (h failure)

/-- What has been sent, split at the end. -/
theorem Sound.taken_eq (h : Sound items caught s) :
    (s.taken = (itemsOf s.out).map .item ∧ ∀ failure, Event.ended failure ∉ s.out) ∨
      ∃ before failure, s.out = before ++ [.ended failure] ∧
        (∀ failure', Event.ended failure' ∉ before) ∧
          s.taken = (itemsOf before).map .item ++ [.finished failure] ∧
            itemsOf s.out = itemsOf before := by
  by_cases hended : s.phase = .ended
  · obtain ⟨-, -, before, failure, hout, hnone⟩ := h.ended hended
    refine .inr ⟨before, failure, hout, hnone, ?_, ?_⟩
    · rw [State.taken, hout, List.filterMap_append, taken_eq_map hnone]
      rfl
    · rw [hout, itemsOf, List.filterMap_append]
      exact List.append_nil _
  · exact .inl ⟨taken_eq_map (h.open_ hended), h.open_ hended⟩

theorem Sound.items_sent (h : Sound items caught s) {k : ℕ} {i : ι}
    (hsent : (itemsOf s.out)[k]? = some i) : items k = .item i := by
  refine entryOf_item.mp (h.entryOf_of_taken (k := k) ?_)
  obtain ⟨htaken, -⟩ | ⟨before, failure, -, -, htaken, hitems⟩ := h.taken_eq
  · rw [htaken, List.getElem?_map, hsent, Option.map_some]
  · rw [hitems] at hsent
    have hlt := (List.getElem?_eq_some_iff.mp hsent).1
    rw [htaken, List.getElem?_append_left (by rw [List.length_map]; exact hlt), List.getElem?_map,
      hsent, Option.map_some]

/-- How an iterator ends. -/
def Answer.ofFailure : Option ε → Answer ι ε
  | none => .returned
  | some e => .raised e

theorem entryOf_finished {answer : Answer ι ε} {failure : Option ε}
    (h : entryOf caught answer = some (.finished failure)) : answer = .ofFailure failure := by
  cases answer with
  | item i => simp [entryOf] at h
  | returned =>
    simp only [entryOf, Option.some.injEq, Entry.finished.injEq] at h
    rw [← h]
    rfl
  | raised e =>
    rw [entryOf] at h
    split_ifs at h
    simp only [Option.some.injEq, Entry.finished.injEq] at h
    rw [← h]
    rfl

/-- The end that is sent is what came of the answer behind every item. -/
theorem Sound.entryOf_ended (h : Sound items caught s) {failure : Option ε}
    (hended : .ended failure ∈ s.out) :
    ∃ before, s.out = before ++ [.ended failure] ∧ (∀ failure', Event.ended failure' ∉ before) ∧
      itemsOf s.out = itemsOf before ∧
        entryOf caught (items (itemsOf before).length) = some (.finished failure) := by
  obtain ⟨-, hnone⟩ | ⟨before, failure', hout, hnone, htaken, hitems⟩ := h.taken_eq
  · exact absurd hended (hnone failure)
  · have hsame : failure = failure' := by
      rw [hout] at hended
      obtain hold | hnew := List.mem_append.mp hended
      · exact absurd hold (hnone failure)
      · exact Event.ended.inj (List.mem_singleton.mp hnew)
    rw [← hsame] at hout htaken
    refine ⟨before, hout, hnone, hitems, h.entryOf_of_taken ?_⟩
    rw [htaken, List.getElem?_append_right (by simp), List.length_map, Nat.sub_self]
    rfl

/-- **The end is sent once and last**, behind every item there is. -/
theorem Sound.ended_sent (h : Sound items caught s) {failure : Option ε}
    (hended : .ended failure ∈ s.out) :
    ∃ before, s.out = before ++ [.ended failure] ∧ (∀ failure', Event.ended failure' ∉ before) ∧
      items (itemsOf before).length = .ofFailure failure := by
  obtain ⟨before, hout, hnone, -, hentry⟩ := h.entryOf_ended hended
  exact ⟨before, hout, hnone, entryOf_finished hentry⟩

/-- What was raised and is sent is what the reader catches. -/
theorem Sound.caught_of_ended (h : Sound items caught s) {n : ℕ} {e : ε}
    (hended : .ended (some e) ∈ s.out) (hitems : ∀ k < n, ∃ i, items k = .item i)
    (hraised : items n = .raised e) : caught e = true := by
  obtain ⟨before, -, -, hsent, hentry⟩ := h.entryOf_ended hended
  obtain hless | rfl | hmore := Nat.lt_trichotomy (itemsOf before).length n
  · obtain ⟨i, hi⟩ := hitems _ hless
    simp [hi, entryOf] at hentry
  · by_contra hnot
    simp [hraised, entryOf, hnot] at hentry
  · have hitem : items n = .item ((itemsOf before)[n]) :=
      h.items_sent (by rw [hsent, List.getElem?_eq_getElem hmore])
    rw [hraised] at hitem
    simp at hitem

/-! ### Everything arrives -/

/-- How far the next entry is from being taken. -/
def stage : Option (Entry ι ε) → Reader ι ε → ℕ
  | some _, _ => 1
  | none, .putting _ => 2
  | none, .reading => 3
  | none, .unborn => 4
  | none, .gone => 0

/-- How far a number of entries is from having been taken. -/
def rank (n : ℕ) (s : State ι ε) : ℕ := 5 * (n - s.taken.length) + stage s.queue s.reader

/-- Who brings the next entry nearer. -/
def helpful (s : State ι ε) : Turn :=
  if s.phase = .unstarted ∨ s.queue.isSome then .consumer else .reader

theorem stage_le (queue : Option (Entry ι ε)) (reader : Reader ι ε) : stage queue reader ≤ 4 := by
  cases queue <;> cases reader <;> simp [stage]

theorem rank_take {n : ℕ} {entry : Entry ι ε} (hqueue : s.queue = some entry) :
    n ≤ (s.take entry).taken.length ∨ rank n (s.take entry) < rank n s := by
  have hstage := stage_le (none : Option (Entry ι ε)) s.reader
  have hlength : (s.take entry).taken.length = s.taken.length + 1 := by
    rw [taken_take, List.length_append, List.length_singleton]
  have htake : rank n (s.take entry) = 5 * (n - (s.taken.length + 1)) + stage none s.reader := by
    rw [rank, hlength]
    rfl
  have hrank : rank n s = 5 * (n - s.taken.length) + 1 := by
    rw [rank, hqueue]
    rfl
  rw [hlength, htake, hrank]
  omega

/-- **Nobody's turn takes a number of entries farther away**, or another party out of its turn. -/
theorem Sound.not_farther {interval : Option τ} {n : ℕ} (h : Sound items caught s)
    (hturn : turn ≠ .close) (hstep : Keepalive.step items caught interval s turn = some next) :
    n ≤ next.taken.length ∨ rank n next < rank n s ∨
      rank n next = rank n s ∧ helpful next = helpful s := by
  -- a turn of the reader's that reads
  have hreads : ∀ reader : Reader ι ε, s.reader = .reading → stage none reader < 3 →
      rank n { s with reads := s.reads + 1, reader := reader } < rank n s ∨
        rank n { s with reads := s.reads + 1, reader := reader } = rank n s ∧
          helpful { s with reads := s.reads + 1, reader := reader } = helpful s := by
    intro reader hreader hnearer
    cases hqueue : s.queue with
    | none =>
      refine .inl ?_
      rw [rank, rank, hqueue, hreader]
      exact Nat.add_lt_add_left hnearer _
    | some entry =>
      refine .inr ⟨?_, ?_⟩
      · rw [rank, rank, hqueue]
        rfl
      · rw [helpful, helpful, hqueue]
  -- a turn that changes nothing but the phase and what is ticked
  have hkeeps : ∀ phase out, s.phase ≠ .unstarted → phase ≠ .unstarted →
      ({ s with phase := phase, out := out } : State ι ε).taken = s.taken →
        rank n { s with phase := phase, out := out } = rank n s ∧
          helpful { s with phase := phase, out := out } = helpful s := by
    intro phase out hbefore hafter htaken
    refine ⟨by rw [rank, rank, htaken], ?_⟩
    rw [helpful, helpful]
    simp [hbefore, hafter]
  cases moves_of_step items caught interval hstep with
  | read hreader hentry => exact .inr (hreads _ hreader (by simp [stage]))
  | lost hreader hentry => exact .inr (hreads _ hreader (by simp [stage]))
  | @put entry hreader hqueue =>
    refine .inr (.inl ?_)
    rw [rank, rank, hqueue, hreader]
    exact Nat.add_lt_add_left (by simp [stage, State.put]) _
  | start hphase =>
    obtain ⟨-, hreader, hqueue, -⟩ := h.unstarted hphase
    refine .inr (.inl ?_)
    rw [rank, rank, hqueue, hreader]
    exact Nat.add_lt_add_left (by simp [stage]) _
  | take hphase hqueue => exact (rank_take hqueue).imp_right .inl
  | wait hphase hqueue =>
    have hstarted : s.phase ≠ .unstarted := by
      obtain hidle | hwoken := hphase
      · simp [hidle]
      · simp [hwoken]
    exact .inr (.inr (hkeeps _ s.out hstarted (by simp) rfl))
  | tick _ hphase =>
    have hstarted : s.phase ≠ .unstarted := by
      obtain hwaiting | hwoken := hphase
      · simp [hwaiting]
      · simp [hwoken]
    exact .inr (.inr (hkeeps _ _ hstarted (by simp) (taken_tick s)))
  | close hended _ => exact absurd rfl hturn

/-- **Somebody's turn brings a number of entries nearer**, if the iterator has them. -/
theorem Sound.helps {interval : Option τ} {n : ℕ} (h : Sound items caught s)
    (hopen : s.phase ≠ .closed) (hsaid : ∀ k < n, (entryOf caught (items k)).isSome)
    (hitems : ∀ k, k + 1 < n → ∃ i, items k = .item i) (hgoal : ¬n ≤ s.taken.length) :
    ∃ next, Keepalive.step items caught interval s (helpful s) = some next ∧
      (n ≤ next.taken.length ∨ rank n next < rank n s) := by
  by_cases hphase : s.phase = .unstarted
  · obtain ⟨-, hreader, hqueue, -⟩ := h.unstarted hphase
    refine ⟨_, by rw [helpful, if_pos (.inl hphase), Keepalive.step, stepConsumer, hphase], .inr ?_⟩
    rw [rank, rank, hqueue, hreader]
    exact Nat.add_lt_add_left (by simp [stage]) _
  cases hqueue : s.queue with
  | some entry =>
    have hready : s.phase = .idle ∨ s.phase = .woken := by
      cases hcase : s.phase with
      | idle => exact .inl rfl
      | woken => exact .inr rfl
      | unstarted => exact absurd hcase hphase
      | waiting => exact absurd (hqueue.symm.trans (h.waiting hcase)) (Option.some_ne_none _)
      | ended => exact absurd (hqueue.symm.trans (h.ended hcase).2.1) (Option.some_ne_none _)
      | closed => exact absurd hcase hopen
    refine ⟨s.take entry, ?_, rank_take hqueue⟩
    rw [helpful, if_pos (.inr (by rw [hqueue]; rfl)), Keepalive.step, stepConsumer]
    obtain hidle | hwoken := hready
    · simp [hidle, hqueue]
    · simp [hwoken, hqueue]
  | none =>
    have hhelpful : helpful s = .reader := by
      rw [helpful, if_neg (by simp [hphase, hqueue])]
    rw [hhelpful, Keepalive.step, stepReader]
    cases hreader : s.reader with
    | unborn => exact absurd (h.born hreader) hphase
    | reading =>
      refine ⟨_, rfl, .inr ?_⟩
      rw [rank, rank, hqueue, hreader]
      refine Nat.add_lt_add_left ?_ _
      cases entryOf caught (items s.reads) <;> simp [stage]
    | putting entry =>
      rw [hqueue]
      refine ⟨_, rfl, .inr ?_⟩
      rw [rank, rank, hqueue, hreader]
      exact Nat.add_lt_add_left (by simp [stage, State.put]) _
    | gone =>
      -- the iterator has ended, so all of its entries have been taken
      refine absurd ?_ hgoal
      obtain ⟨k, hreads, hend⟩ := h.gone hreader hopen
      have hlast : n ≤ k + 1 := by
        by_contra hless
        obtain ⟨i, hi⟩ := hitems k (by omega)
        exact hend i hi
      have hall := h.all hopen
      rw [hqueue, hreader, Option.toList_none, Reader.held, List.append_nil,
        List.append_nil] at hall
      have hlength : n ≤ (said items caught s.reads).length := by
        obtain ⟨more, hmore⟩ := Nat.exists_eq_add_of_le (hreads ▸ hlast : n ≤ s.reads)
        rw [hmore, said, List.range_add, List.filterMap_append, List.length_append]
        have hfirst := length_said hsaid
        rw [said] at hfirst
        omega
      rwa [hall] at hlength

end Sound

/-! ### Transparent -/

/-- The reader and the consumer go on, and nobody closes. -/
structure Goes (schedule : ℕ → Turn) : Prop where
  reader : Often schedule .reader
  consumer : Often schedule .consumer
  open_ : ∀ t, schedule t ≠ .close

section Transparent

variable (items : ℕ → Answer ι ε) (caught : ε → Bool) (interval : Option τ)

/-- **Entries arrive**: where the iterator has a number of them, that many are taken. -/
theorem eventually_taken {schedule : ℕ → Turn} (hgoes : Goes schedule) {n : ℕ}
    (hsaid : ∀ k < n, (entryOf caught (items k)).isSome)
    (hitems : ∀ k, k + 1 < n → ∃ i, items k = .item i) :
    ∃ t, n ≤ (withPings items caught interval schedule t).taken.length := by
  have hopen : ∀ t, (withPings items caught interval schedule t).phase ≠ .closed := by
    intro t
    induction t with
    | zero => simp [withPings, stateAt]
    | succ t ih =>
      obtain hstep | hsame := stateAt_succ (step items caught interval) {} schedule t
      · intro hclosed
        have hmoves := moves_of_step items caught interval hstep
        have hturn := hgoes.open_ t
        generalize schedule t = turn at hmoves hturn
        generalize hnext : stateAt (step items caught interval) {} schedule (t + 1) = next
          at hmoves
        have hphase : next.phase = .closed := hnext ▸ hclosed
        cases hmoves with
        | read | lost => exact ih hphase
        | put =>
          simp only [State.put] at hphase
          split_ifs at hphase
          exact ih hphase
        | start | wait | tick => exact Phase.noConfusion hphase
        | @take entry => cases entry <;> exact Phase.noConfusion hphase
        | close => exact hturn rfl
      · rw [withPings, hsame]
        exact ih
  obtain ⟨t, -, hreached⟩ := eventually_of_rank
    (I := fun s : State ι ε => Sound items caught s ∧ s.phase ≠ .closed)
    (G := fun s => n ≤ s.taken.length) (A := (· ≠ Turn.close)) (rank n) helpful
    (fun t => ⟨sound_withPings items caught interval schedule t, hopen t⟩) hgoes.open_
    (fun s => by
      rw [helpful]
      split_ifs
      · exact hgoes.consumer
      · exact hgoes.reader)
    (fun s h hgoal => h.1.helps h.2 hsaid hitems hgoal)
    (fun s turn next h _ hturn hstep => h.1.not_farther hturn hstep) 0
  exact ⟨t, hreached⟩

/-- Keepalives are transparent: what is sent without them is the iterator's items and its end. -/
structure Transparent : Prop where
  /-- The items in order, none twice and none left out. -/
  inOrder : ∀ schedule t k i,
    (itemsOf (withPings items caught interval schedule t).out)[k]? = some i → items k = .item i
  /-- The end once and last, behind all items, and what was raised and nothing else. -/
  once : ∀ schedule t failure, .ended failure ∈ (withPings items caught interval schedule t).out →
    ∃ before, (withPings items caught interval schedule t).out = before ++ [.ended failure] ∧
      (∀ failure', Event.ended failure' ∉ before) ∧
        items (itemsOf before).length = .ofFailure failure
  /-- No item is lost. -/
  arrives : ∀ schedule, Goes schedule → ∀ n, (∀ k < n, ∃ i, items k = .item i) →
    ∃ t, n ≤ (itemsOf (withPings items caught interval schedule t).out).length
  /-- Once the iterator has ended, so does what is sent. -/
  ends : ∀ schedule, Goes schedule → ∀ n failure, (∀ k < n, ∃ i, items k = .item i) →
    items n = .ofFailure failure →
      ∃ t, .ended failure ∈ (withPings items caught interval schedule t).out
  noTick : interval = none → ∀ schedule t,
    Event.tick ∉ (withPings items caught interval schedule t).out
  ahead : ∀ schedule t, (withPings items caught interval schedule t).reads ≤
    (withPings items caught interval schedule t).taken.length + 2
  /-- Once closed, the reader is gone and nothing is read or sent any more. -/
  closes : ∀ schedule t t', t ≤ t' →
    (withPings items caught interval schedule t).phase = .closed →
      (withPings items caught interval schedule t').reader = .gone ∧
        (withPings items caught interval schedule t').reads =
          (withPings items caught interval schedule t).reads ∧
        (withPings items caught interval schedule t').out =
          (withPings items caught interval schedule t).out

theorem noTick_withPings (hinterval : interval = none) (schedule : ℕ → Turn) (t : ℕ) :
    Event.tick ∉ (withPings items caught interval schedule t).out := by
  refine stateAt_invariant (P := fun s : State ι ε => Event.tick ∉ s.out) ?_ List.not_mem_nil t
  intro s turn next hnone hstep
  cases moves_of_step items caught interval hstep with
  | read | lost | put | start | wait | close => exact hnone
  | @take entry =>
    intro hmem
    obtain hold | hnew := List.mem_append.mp hmem
    · exact hnone hold
    · cases entry <;> simp [Entry.event] at hnew
  | tick hsome => simp [hinterval] at hsome

theorem ahead_withPings (schedule : ℕ → Turn) (t : ℕ) :
    (withPings items caught interval schedule t).reads ≤
      (withPings items caught interval schedule t).taken.length + 2 := by
  have hahead := (sound_withPings items caught interval schedule t).ahead
  have hqueue : (withPings items caught interval schedule t).queue.toList.length ≤ 1 := by
    cases (withPings items caught interval schedule t).queue <;> simp
  split at hahead <;> omega

theorem closes_withPings (schedule : ℕ → Turn) {t t' : ℕ} (hle : t ≤ t')
    (hclosed : (withPings items caught interval schedule t).phase = .closed) :
    (withPings items caught interval schedule t').reader = .gone ∧
      (withPings items caught interval schedule t').reads =
        (withPings items caught interval schedule t).reads ∧
      (withPings items caught interval schedule t').out =
        (withPings items caught interval schedule t).out := by
  have hgone := (sound_withPings items caught interval schedule t).closed hclosed
  -- after closing, nobody has anything to do
  have hstays : ∀ (s : State ι ε) turn next, s.phase = .closed ∧ s.reader = .gone →
      step items caught interval s turn ≠ some next := by
    rintro s turn next ⟨hphase, hreader⟩ hstep
    cases moves_of_step items caught interval hstep with
    | read h | lost h | put h => simp [hreader] at h
    | start h | take h | wait h | tick _ h => simp [hphase] at h
    | close _ h => exact h hphase
  have hsame := stateAt_invariant_from (P := fun s : State ι ε =>
      (s.phase = .closed ∧ s.reader = .gone) ∧
        s.reads = (withPings items caught interval schedule t).reads ∧
          s.out = (withPings items caught interval schedule t).out)
    (fun s turn next h hstep => absurd hstep (hstays s turn next h.1)) hle
    ⟨⟨hclosed, hgone⟩, rfl, rfl⟩
  exact ⟨hsame.1.2, hsame.2⟩

/-- Reader and consumer in turns. -/
def alternating (t : ℕ) : Turn := if t % 2 = 0 then .reader else .consumer

theorem goes_alternating : Goes alternating where
  reader t := ⟨2 * t, by omega, by rw [alternating, if_pos (by omega)]⟩
  consumer t := ⟨2 * t + 1, by omega, by rw [alternating, if_neg (by omega)]⟩
  open_ t := by
    rw [alternating]
    split_ifs <;> simp

theorem arrives_withPings {schedule : ℕ → Turn} (hgoes : Goes schedule) {n : ℕ}
    (hitems : ∀ k < n, ∃ i, items k = .item i) :
    ∃ t, n ≤ (itemsOf (withPings items caught interval schedule t).out).length := by
  obtain ⟨t, ht⟩ := eventually_taken items caught interval hgoes (n := n)
    (fun k hk => by
      obtain ⟨i, hi⟩ := hitems k hk
      rw [hi]
      rfl)
    (fun k hk => hitems k (by omega))
  have hsound := sound_withPings items caught interval schedule t
  refine ⟨t, ?_⟩
  obtain ⟨htaken, -⟩ | ⟨before, failure, hout, -, htaken, hsent⟩ := hsound.taken_eq
  · rw [htaken, List.length_map] at ht
    exact ht
  · rw [htaken, List.length_append, List.length_map, List.length_singleton] at ht
    rw [hsent]
    -- the end comes behind every item
    by_contra hless
    obtain ⟨i, hi⟩ := hitems (itemsOf before).length (by omega)
    have hlast : (withPings items caught interval schedule t).taken[(itemsOf before).length]? =
        some (.finished failure) := by
      rw [htaken, List.getElem?_append_right (by simp), List.length_map, Nat.sub_self]
      rfl
    have hend := entryOf_finished (hsound.entryOf_of_taken hlast)
    rw [hi] at hend
    cases failure <;> simp [Answer.ofFailure] at hend

theorem ends_withPings {schedule : ℕ → Turn} (hgoes : Goes schedule) {n : ℕ} {failure : Option ε}
    (hitems : ∀ k < n, ∃ i, items k = .item i)
    (hend : entryOf caught (items n) = some (.finished failure)) :
    ∃ t, .ended failure ∈ (withPings items caught interval schedule t).out := by
  obtain ⟨t, ht⟩ := eventually_taken items caught interval hgoes (n := n + 1)
    (fun k hk => by
      obtain hk | rfl := Nat.lt_succ_iff_lt_or_eq.mp hk
      · obtain ⟨i, hi⟩ := hitems k hk
        rw [hi]
        rfl
      · rw [hend]
        rfl)
    (fun k hk => hitems k (by omega))
  refine ⟨t, ?_⟩
  have hlast := List.getElem?_eq_getElem (show n < _ from ht)
  have hentry := (sound_withPings items caught interval schedule t).entryOf_of_taken hlast
  rw [hend, Option.some.injEq] at hentry
  obtain ⟨event, hmem, hevent⟩ := List.mem_filterMap.mp (List.mem_of_getElem? hlast)
  rw [← hentry] at hevent
  cases event with
  | tick => exact absurd hevent (Option.some_ne_none _).symm
  | item i => simp [Event.entry] at hevent
  | ended failure' => rwa [Entry.finished.inj (Option.some.inj hevent)] at hmem

/-- **Keepalives are transparent exactly where the iterator does not end by raising what the reader
does not catch**. -/
theorem transparent_iff : Transparent items caught interval ↔
    ∀ n e, (∀ k < n, ∃ i, items k = .item i) → items n = .raised e → caught e = true := by
  constructor
  · intro h n e hitems hraised
    obtain ⟨t, ht⟩ := h.ends alternating goes_alternating n (some e) hitems hraised
    exact (sound_withPings items caught interval alternating t).caught_of_ended ht hitems hraised
  · intro h
    refine ⟨fun schedule t k i hsent => (sound_withPings ..).items_sent hsent,
      fun schedule t failure hended => (sound_withPings ..).ended_sent hended,
      fun schedule hgoes n hitems => arrives_withPings items caught interval hgoes hitems,
      fun schedule hgoes n failure hitems hend =>
        ends_withPings items caught interval hgoes hitems ?_,
      fun hnone schedule t => noTick_withPings items caught interval hnone schedule t,
      ahead_withPings items caught interval,
      fun schedule t t' hle hclosed => closes_withPings items caught interval schedule hle hclosed⟩
    cases failure with
    | none => rw [hend, Answer.ofFailure, entryOf]
    | some e => rw [hend, Answer.ofFailure, entryOf, if_pos (h n e hitems hend)]

end Transparent

/-- An iterator in which a cancellation is raised at once. -/
def cancelled (_ : ℕ) : Answer Unit Unit := .raised ()

/-- A cancellation raised in the iterator never reaches whoever waits for the items. -/
theorem cancellation_never_arrives : ¬Transparent cancelled (fun _ => false) (some ()) := by
  intro h
  have hnone : ∀ k < 0, ∃ i, cancelled k = .item i := fun k hk => absurd hk (Nat.not_lt_zero k)
  obtain ⟨t, ht⟩ := h.ends alternating goes_alternating 0 (some ()) hnone rfl
  have hsound := sound_withPings cancelled (fun _ => false) (some ()) alternating t
  exact Bool.noConfusion (hsound.caught_of_ended ht hnone rfl)

end Keepalive

end AiraGateway.Serving
