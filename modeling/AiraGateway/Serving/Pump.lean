import AiraGateway.Library.Runs
import Mathlib.Data.List.Infix

/-!
# The upstream's half of a stream

A `Pump` reads the upstream in one task of its own and hands the chunks over through a queue of one
place. The caller takes them with `__anext__`; when the caller has left, `drain` reads what is left
so that the accounting sees it. The two tasks take their steps in any order: a step here is what one
of them does between two awaits.

* `pump_hands_over`: whatever the order, what is handed over and drained is what the upstream sent,
  in its order; every chunk read was observed; the reader is at most two chunks ahead; a failure is
  raised once, behind all chunks. And `drain` answers whether the end was reached, in every run in
  which no time limit strikes between the drain's read taking the end and the drain looking at it.
* `drain_cut_at_end`: a time limit that does makes `drain` answer no at the end.
-/

namespace AiraGateway

/-- An upstream's last word. -/
inductive LastWord
  | ended
  | failed
  deriving DecidableEq

/-- What goes through the queue. -/
inductive PumpItem (α : Type)
  | chunk (c : α)
  | last (word : LastWord)
  deriving DecidableEq

namespace PumpItem

variable {α : Type}

def chunk? : PumpItem α → Option α
  | chunk c => some c
  | last _ => none

def last? : PumpItem α → Option LastWord
  | chunk _ => none
  | last word => some word

@[simp] theorem chunk?_chunk (c : α) : (chunk c).chunk? = some c := rfl

@[simp] theorem chunk?_last (word : LastWord) : (last word : PumpItem α).chunk? = none := rfl

@[simp] theorem last?_chunk (c : α) : (chunk c).last? = none := rfl

@[simp] theorem last?_last (word : LastWord) : (last word : PumpItem α).last? = some word := rfl

end PumpItem

/-- How far the reader may run ahead of the caller. -/
def pumpDepth : ℕ := 1

/-- Where the reader's task is: one that is over neither reads nor puts. -/
inductive ReaderPhase
  | notStarted
  | running
  | over
  deriving DecidableEq

/-- Where the read on is. Its read of the next item is a task beside it: `item` is what that task
has taken and the drain has not looked at yet. With what it returned stands the upstream's last
word, where it was handed over by then. -/
inductive Drain (α : Type)
  | notBegun
  | reading (item : Option (PumpItem α))
  | returned (value : Bool) (outcome : Option LastWord)
  deriving DecidableEq

structure Pump (α : Type) where
  /-- What the upstream has still to send. -/
  rest : List α
  phase : ReaderPhase := .notStarted
  /-- What the reader has read and not put yet. -/
  hand : Option (PumpItem α) := none
  queue : List (PumpItem α) := []
  observed : List α := []
  handed : List α := []
  drained : List α := []
  /-- For every failure raised to the caller, how many chunks the caller had by then. -/
  failures : List ℕ := []
  outcome : Option LastWord := none
  /-- The calls of `__anext__` that wait for an item. -/
  pending : ℕ := 0
  drain : Drain α := .notBegun
  /-- A drain's read that a time limit left waiting. -/
  orphan : Bool := false
  closed : Bool := false
  deriving DecidableEq

inductive PumpAct
  /-- The reader reads the next chunk and shows it to the accounting, or reads the last word. -/
  | read
  | put
  | anext
  /-- A call that waits takes the first item. -/
  | take
  | cancel
  | drain
  /-- The drain's read takes the first item. -/
  | drainTakes
  /-- The drain looks at what its read took. -/
  | drainLooks
  | stop
  | timeLimit
  | aclose
  deriving DecidableEq

namespace Pump

variable {α : Type}

/-- The reader is started by the first read of an item. -/
def start (s : Pump α) : Pump α :=
  if s.phase = .notStarted then { s with phase := .running } else s

@[simp] theorem start_drain (s : Pump α) : s.start.drain = s.drain := by
  unfold start
  split <;> rfl

@[simp] theorem start_pending (s : Pump α) : s.start.pending = s.pending := by
  unfold start
  split <;> rfl

@[simp] theorem start_outcome (s : Pump α) : s.start.outcome = s.outcome := by
  unfold start
  split <;> rfl

/-- An item taken from the queue; a last word is noted. -/
def receive (s : Pump α) : Option (PumpItem α × Pump α) :=
  match s.queue with
  | [] => none
  | item :: queue => some (item, { s with queue := queue, outcome := item.last?.or s.outcome })

theorem receive_drain {s u : Pump α} {item : PumpItem α} (hr : s.receive = some (item, u)) :
    u.drain = s.drain := by
  unfold receive at hr
  split at hr
  · cases hr
  · obtain ⟨-, rfl⟩ := Prod.mk.inj (Option.some.inj hr)
    rfl

/-- One step of the upstream's reader, of the caller or of the time. -/
def step [DecidableEq α] (last : LastWord) (s : Pump α) : PumpAct → Option (Pump α)
  | .read =>
    if s.phase = .running ∧ s.hand = none then
      match s.rest with
      | c :: rest =>
        some { s with rest := rest, observed := s.observed ++ [c], hand := some (.chunk c) }
      | [] => some { s with hand := some (.last last) }
    else none
  | .put =>
    match s.hand with
    | some item =>
      if s.phase = .running ∧ s.queue.length < pumpDepth then
        some { s with
          queue := s.queue ++ [item]
          hand := none
          -- the last word is the last thing the reader puts
          phase := if item.last?.isSome then .over else .running }
      else none
    | none => none
  | .anext =>
    if s.closed ∨ s.drain ≠ .notBegun then none
    else if s.outcome.isSome then some s
    else some { s.start with pending := s.pending + 1 }
  | .take =>
    if s.pending = 0 then none
    else s.receive.map fun (item, s) =>
      match item with
      | .chunk c => { s with pending := s.pending - 1, handed := s.handed ++ [c] }
      | .last .ended => { s with pending := s.pending - 1 }
      | .last .failed =>
        { s with pending := s.pending - 1, failures := s.failures ++ [s.handed.length] }
  | .cancel => if s.pending = 0 then none else some { s with pending := s.pending - 1 }
  | .drain =>
    if s.closed ∨ s.drain ≠ .notBegun ∨ s.pending ≠ 0 then none
    else
      match s.outcome with
      | some word => some { s with drain := .returned (word = .ended) (some word) }
      | none => some { s.start with drain := .reading none }
  | .drainTakes =>
    if s.drain = .reading none then
      s.receive.map fun (item, s) =>
        { s with drain := .reading (some item), drained := s.drained ++ item.chunk?.toList }
    else if s.orphan then
      s.receive.map fun (item, s) =>
        { s with orphan := false, drained := s.drained ++ item.chunk?.toList }
    else none
  | .drainLooks =>
    match s.drain with
    | .reading (some (.chunk _)) => some { s with drain := .reading none }
    | .reading (some (.last word)) =>
      some { s with drain := .returned (word = .ended) s.outcome }
    | _ => none
  -- a stopped drain looks at an item it has; it gives up a read that has none
  | .stop =>
    if s.drain = .reading none then some { s with drain := .returned false s.outcome } else none
  -- a time limit is raised in the drain, which looks at nothing and leaves its read where it is
  | .timeLimit =>
    match s.drain with
    | .reading item => some { s with drain := .returned false s.outcome, orphan := item.isNone }
    | _ => none
  | .aclose =>
    match s.drain with
    | .reading _ => none
    | _ => if s.closed then none else some { s with closed := true, phase := .over }

/-! ### What every step keeps -/

/-- Where the upstream's chunks are: what was read and what was not make up what it sent, and what
was read is handed over, drained, queued or in the reader's hand, in that order. Its last word comes
behind all chunks and is taken last. -/
structure Flows (chunks : List α) (last : LastWord) (s : Pump α) : Prop where
  read : s.observed ++ s.rest = chunks
  onward : s.handed ++ s.drained ++ s.queue.filterMap PumpItem.chunk? ++
    s.hand.toList.filterMap PumpItem.chunk? = s.observed
  room : s.queue.length ≤ pumpDepth
  inHand : ∀ w, s.hand = some (.last w) → w = last ∧ s.rest = []
  queued : ∀ w, .last w ∈ s.queue → w = last ∧ s.rest = [] ∧ s.hand = none ∧ s.phase = .over
  noted : ∀ w, s.outcome = some w →
    w = last ∧ s.rest = [] ∧ s.hand = none ∧ s.phase = .over ∧ s.queue = []
  raised : s.failures = [] ∨
    s.outcome = some .failed ∧ s.failures = [chunks.length] ∧ s.handed = chunks
  undrained : s.drain = .notBegun → s.drained = []
  alone : s.drain ≠ .notBegun → s.pending = 0
  orphaned : s.orphan → ∃ value outcome, s.drain = .returned value outcome
  reading : ∀ item, s.drain = .reading item → s.outcome = item.bind PumpItem.last?

namespace Flows

variable {chunks : List α} {last : LastWord} {s t : Pump α}

theorem start (chunks : List α) (last : LastWord) : Flows chunks last { rest := chunks } where
  read := rfl
  onward := rfl
  room := Nat.zero_le _
  inHand _ h := by cases h
  queued _ h := by cases h
  noted _ h := by cases h
  raised := .inl rfl
  undrained _ := rfl
  alone h := absurd rfl h
  orphaned h := by cases h
  reading _ h := by cases h

/-- Starting the reader moves nothing. -/
theorem started (h : Flows chunks last s) (hs : s.outcome = none) : Flows chunks last s.start := by
  unfold Pump.start
  split
  · next hp =>
    refine { h with queued := fun w hw => ?_, noted := fun w hw => ?_ }
    · have := (h.queued w hw).2.2.2
      simp [hp] at this
    · simp [hs] at hw
  · exact h

/-- The one place of the queue gives all it has, and no last word was noted before. -/
theorem received (h : Flows chunks last s) {item : PumpItem α} {u : Pump α}
    (hr : s.receive = some (item, u)) :
    s.queue = [item] ∧ s.outcome = none ∧ u = { s with queue := [], outcome := item.last? } := by
  unfold receive at hr
  split at hr
  · cases hr
  · next first queue hq =>
    obtain ⟨rfl, rfl⟩ := Prod.mk.inj (Option.some.inj hr)
    have hroom := h.room
    rw [hq, pumpDepth, List.length_cons] at hroom
    obtain rfl : queue = [] := List.eq_nil_of_length_eq_zero (by omega)
    have hnone : s.outcome = none := by
      rw [Option.eq_none_iff_forall_ne_some]
      intro w hw
      have := (h.noted w hw).2.2.2.2
      simp [hq] at this
    exact ⟨hq, hnone, by simp [hnone]⟩

/-- While the reader runs no last word was put. -/
theorem running (h : Flows chunks last s) (hrun : s.phase = .running) :
    (∀ w, .last w ∉ s.queue) ∧ ∀ w, s.outcome ≠ some w := by
  constructor
  · intro w hw
    have := (h.queued w hw).2.2.2
    simp [hrun] at this
  · intro w hw
    have := (h.noted w hw).2.2.2.1
    simp [hrun] at this

/-- What a read of the drain takes is drained, whether the drain waits for it or left it behind. -/
theorem drained (h : Flows chunks last s) {item : PumpItem α} {drain : Drain α} {orphan : Bool}
    (hqueue : s.queue = [item]) (hnone : s.outcome = none) (hs : s.drain ≠ .notBegun)
    (hd : drain ≠ .notBegun)
    (horphan : orphan → ∃ value outcome, drain = .returned value outcome)
    (hreading : ∀ took, drain = .reading took → item.last? = took.bind PumpItem.last?) :
    Flows chunks last { s with
      queue := []
      outcome := item.last?
      drained := s.drained ++ item.chunk?.toList
      drain := drain
      orphan := orphan } := by
  refine { h with
    onward := ?_
    room := Nat.zero_le _
    queued := fun w hw => by cases hw
    noted := fun w hw => ?_
    raised := .inl (h.raised.resolve_right fun hr => by simp [hnone] at hr)
    undrained := fun hn => absurd hn hd
    alone := fun _ => h.alone hs
    orphaned := horphan
    reading := hreading }
  · rw [← h.onward, hqueue]
    cases item <;> simp
  · obtain rfl : item = .last w := by
      cases item <;> simp_all
    obtain ⟨hw, hrest, hhand, hover⟩ := h.queued w (by simp [hqueue])
    exact ⟨hw, hrest, hhand, hover, rfl⟩

/-- A step that moves nothing of the upstream's keeps the flow, if the drain it leaves knows what
it is to know. -/
theorem aside (h : Flows chunks last s) {pending : ℕ} {drain : Drain α} {orphan closed : Bool}
    (hundrained : drain = .notBegun → s.drain = .notBegun)
    (halone : drain ≠ .notBegun → pending = 0)
    (horphan : orphan → ∃ value outcome, drain = .returned value outcome)
    (hreading : ∀ took, drain = .reading took → s.outcome = took.bind PumpItem.last?) :
    Flows chunks last { s with
      pending := pending
      drain := drain
      orphan := orphan
      closed := closed } :=
  { h with
    undrained := fun hn => h.undrained (hundrained hn)
    alone := halone
    orphaned := horphan
    reading := hreading }

theorem returned (h : Flows chunks last s) (hpending : s.pending = 0) (value : Bool)
    (outcome : Option LastWord) (orphan : Bool) :
    Flows chunks last { s with drain := .returned value outcome, orphan := orphan } :=
  h.aside (fun hn => by cases hn) (fun _ => hpending) (fun _ => ⟨_, _, rfl⟩)
    (fun _ htook => by cases htook)

theorem taken_begins (h : Flows chunks last s) : s.handed ++ s.drained <+: s.observed := by
  rw [← h.onward, List.append_assoc (s.handed ++ s.drained)]
  exact List.prefix_append _ _

theorem observed_begins (h : Flows chunks last s) : s.observed <+: chunks :=
  ⟨s.rest, h.read⟩

theorem ahead (h : Flows chunks last s) :
    s.observed.length ≤ (s.handed ++ s.drained).length + (pumpDepth + 1) := by
  have hqueue := List.length_filterMap_le PumpItem.chunk? s.queue
  have hhand := List.length_filterMap_le PumpItem.chunk? s.hand.toList
  have hroom := h.room
  have hone : s.hand.toList.length ≤ 1 := Option.length_toList_le
  rw [← h.onward, List.length_append, List.length_append]
  omega

variable [DecidableEq α]

theorem step_read (h : Flows chunks last s) (hst : step last s .read = some t) :
    Flows chunks last t := by
  rw [step] at hst
  split_ifs at hst with hp
  obtain ⟨hrun, hhand⟩ := hp
  obtain ⟨hqueue, hout⟩ := h.running hrun
  split at hst
  · next c rest hrest =>
    obtain rfl := Option.some.inj hst
    refine { h with
      read := ?_
      onward := ?_
      inHand := fun w hw => by simp at hw
      queued := fun w hw => absurd hw (hqueue w)
      noted := fun w hw => absurd hw (hout w) }
    · rw [← h.read, hrest, List.append_assoc, List.singleton_append]
    · simp [← h.onward, hhand]
  · next hrest =>
    obtain rfl := Option.some.inj hst
    refine { h with
      onward := ?_
      inHand := fun w hw => ?_
      queued := fun w hw => absurd hw (hqueue w)
      noted := fun w hw => absurd hw (hout w) }
    · simp [← h.onward, hhand]
    · obtain rfl : last = w := by simpa using hw
      exact ⟨rfl, hrest⟩

theorem step_put (h : Flows chunks last s) (hst : step last s .put = some t) :
    Flows chunks last t := by
  rw [step] at hst
  split at hst
  · next item hitem =>
    by_cases hp : s.phase = .running ∧ s.queue.length < pumpDepth
    · rw [if_pos hp] at hst
      obtain rfl := Option.some.inj hst
      obtain ⟨hrun, hroom⟩ := hp
      have hempty : s.queue = [] := List.eq_nil_of_length_eq_zero (by
        rw [pumpDepth] at hroom
        omega)
      refine { h with
        onward := by simp [← h.onward, hempty, hitem]
        room := by simp [hempty, pumpDepth]
        inHand := fun w hw => by simp at hw
        queued := fun w hw => ?_
        noted := fun w hw => absurd hw ((h.running hrun).2 w) }
      -- the last word put is the one the reader held
      obtain rfl : .last w = item := by simpa [hempty] using hw
      obtain ⟨hw, hrest⟩ := h.inHand w hitem
      exact ⟨hw, hrest, rfl, rfl⟩
    · rw [if_neg hp] at hst
      cases hst
  · cases hst

/-- A chunk taken from the queue goes to the caller; a failure is raised where all chunks are. -/
theorem step_take (h : Flows chunks last s) (hst : step last s .take = some t) :
    Flows chunks last t := by
  rw [step] at hst
  split_ifs at hst with hpending
  obtain ⟨⟨item, u⟩, hr, ht⟩ := Option.map_eq_some_iff.mp hst
  obtain ⟨hqueue, hnone, rfl⟩ := h.received hr
  have hdrain : s.drain = .notBegun := by
    by_contra hd
    exact hpending (h.alone hd)
  have hdrained : s.drained = [] := h.undrained hdrain
  have hraised : s.failures = [] := h.raised.resolve_right fun hr => by simp [hnone] at hr
  obtain rfl : t = { s with
      queue := []
      outcome := item.last?
      pending := s.pending - 1
      handed := s.handed ++ item.chunk?.toList
      failures := if item = .last .failed then [s.handed.length] else [] } := by
    subst ht
    rcases item with c | (_ | _) <;> simp [hraised]
  refine { h with
    onward := ?_
    room := Nat.zero_le _
    queued := fun w hw => by cases hw
    noted := fun w hw => ?_
    raised := ?_
    alone := fun hd => absurd hdrain hd
    reading := fun item hd => by simp [hdrain] at hd }
  · rw [← h.onward, hqueue, hdrained]
    cases item <;> simp
  · obtain rfl : item = .last w := by
      cases item <;> simp_all
    obtain ⟨hw, hrest, hhand, hover⟩ := h.queued w (by simp [hqueue])
    exact ⟨hw, hrest, hhand, hover, rfl⟩
  · by_cases hitem : item = .last .failed
    · subst hitem
      obtain ⟨-, hrest, hhand, -⟩ := h.queued .failed (by simp [hqueue])
      have hall : s.handed = chunks := by
        rw [← h.read, ← h.onward, hqueue, hdrained, hhand, hrest]
        simp
      exact .inr ⟨rfl, by simp [hall], by simpa using hall⟩
    · exact .inl (if_neg hitem)

theorem step_drainTakes (h : Flows chunks last s) (hst : step last s .drainTakes = some t) :
    Flows chunks last t := by
  rw [step] at hst
  split_ifs at hst with hd ho
  · obtain ⟨⟨item, u⟩, hr, rfl⟩ := Option.map_eq_some_iff.mp hst
    obtain ⟨hqueue, hnone, rfl⟩ := h.received hr
    have horphan : s.orphan → False := fun ho => by
      obtain ⟨value, outcome, hreturned⟩ := h.orphaned ho
      simp [hd] at hreturned
    exact h.drained hqueue hnone (by simp [hd]) (by simp) (fun ho => absurd ho horphan)
      (fun took htook => by
        obtain rfl : some item = took := by simpa using htook
        rfl)
  · obtain ⟨⟨item, u⟩, hr, rfl⟩ := Option.map_eq_some_iff.mp hst
    obtain ⟨hqueue, hnone, rfl⟩ := h.received hr
    obtain ⟨value, outcome, hreturned⟩ := h.orphaned ho
    exact h.drained hqueue hnone (by simp [hreturned]) (by simp [hreturned]) (by simp)
      (fun took htook => by simp [hreturned] at htook)

theorem step_keeps (h : Flows chunks last s) {a : PumpAct} (hst : step last s a = some t) :
    Flows chunks last t := by
  cases a with
  | read => exact h.step_read hst
  | put => exact h.step_put hst
  | take => exact h.step_take hst
  | drainTakes => exact h.step_drainTakes hst
  | anext =>
    rw [step] at hst
    split_ifs at hst with hc ho
    · obtain rfl := Option.some.inj hst
      exact h
    · obtain rfl := Option.some.inj hst
      have hstart := h.started (Option.not_isSome_iff_eq_none.mp ho)
      exact hstart.aside id (fun hd => absurd (by simpa using hd) (not_or.mp hc).2)
        hstart.orphaned hstart.reading
  | cancel =>
    rw [step] at hst
    split_ifs at hst with hpending
    obtain rfl := Option.some.inj hst
    exact h.aside id (fun hd => by rw [h.alone hd]) h.orphaned h.reading
  | drain =>
    rw [step] at hst
    split_ifs at hst with hc
    obtain ⟨-, hd, hpending⟩ : ¬s.closed ∧ s.drain = .notBegun ∧ s.pending = 0 := by
      simpa using hc
    split at hst
    · obtain rfl := Option.some.inj hst
      exact h.returned hpending _ _ _
    · next ho =>
      obtain rfl := Option.some.inj hst
      have hstart := h.started ho
      refine hstart.aside (fun hn => by cases hn) (fun _ => by simpa using hpending) ?_ ?_
      · intro horphan
        obtain ⟨value, outcome, hreturned⟩ := hstart.orphaned horphan
        simp [hd] at hreturned
      · intro took htook
        obtain rfl : none = took := by simpa using htook
        simpa using ho
  | drainLooks =>
    rw [step] at hst
    split at hst
    · next c hd =>
      obtain rfl := Option.some.inj hst
      refine h.aside (fun hn => by cases hn) (fun _ => h.alone (by simp [hd])) ?_ ?_
      · intro horphan
        obtain ⟨value, outcome, hreturned⟩ := h.orphaned horphan
        simp [hd] at hreturned
      · intro took htook
        obtain rfl : none = took := by simpa using htook
        simpa using h.reading _ hd
    · next word hd =>
      obtain rfl := Option.some.inj hst
      exact h.returned (h.alone (by simp [hd])) _ _ _
    · cases hst
  | stop =>
    rw [step] at hst
    split_ifs at hst with hd
    obtain rfl := Option.some.inj hst
    exact h.returned (h.alone (by simp [hd])) _ _ _
  | timeLimit =>
    rw [step] at hst
    split at hst
    · next item hd =>
      obtain rfl := Option.some.inj hst
      exact h.returned (h.alone (by simp [hd])) _ _ _
    · cases hst
  | aclose =>
    rw [step] at hst
    split at hst
    · cases hst
    · split_ifs at hst
      obtain rfl := Option.some.inj hst
      -- a closed reader keeps what it holds and puts nothing more
      exact { h with
        queued := fun w hw => by
          obtain ⟨hword, hrest, hhand, -⟩ := h.queued w hw
          exact ⟨hword, hrest, hhand, rfl⟩
        noted := fun w hw => by
          obtain ⟨hword, hrest, hhand, -, hqueue⟩ := h.noted w hw
          exact ⟨hword, hrest, hhand, rfl, hqueue⟩ }

end Flows

/-- Of the steps taken: no time limit strikes a drain whose read has taken the upstream's end. -/
def NotCutAtEnd (s : Pump α) (a : PumpAct) : Prop :=
  a = .timeLimit → s.drain ≠ .reading (some (.last .ended))

instance [DecidableEq α] (s : Pump α) (a : PumpAct) : Decidable (NotCutAtEnd s a) :=
  inferInstanceAs (Decidable (_ → _))

/-- What a drain returned says whether the end was handed over by then. -/
def Answers (s : Pump α) : Prop :=
  ∀ value outcome, s.drain = .returned value outcome → (value = true ↔ outcome = some .ended)

section Answers

variable [DecidableEq α] {chunks : List α} {last : LastWord} {s t : Pump α} {a : PumpAct}

/-- What a step does to the drain: nothing, it goes on reading, or it returns — at a last word noted
before, at one its read took, or because it is stopped or out of time. -/
theorem step_drain (hst : step last s a = some t) :
    t.drain = s.drain ∨ (∃ item, t.drain = .reading item) ∨
      (∃ word, s.outcome = some word ∧ t.drain = .returned (word = .ended) s.outcome) ∨
      (∃ word, s.drain = .reading (some (.last word)) ∧
        t.drain = .returned (word = .ended) s.outcome) ∨
      (s.drain = .reading none ∧ t.drain = .returned false s.outcome) ∨
      a = .timeLimit ∧ ∃ item, s.drain = .reading item ∧ t.drain = .returned false s.outcome := by
  cases a <;> rw [step] at hst
  case read =>
    split_ifs at hst
    split at hst <;> (obtain rfl := Option.some.inj hst; exact .inl rfl)
  case put =>
    split at hst
    · split_ifs at hst <;> (obtain rfl := Option.some.inj hst; exact .inl rfl)
    · cases hst
  case anext =>
    split_ifs at hst <;> (obtain rfl := Option.some.inj hst; simp)
  case take =>
    split_ifs at hst
    obtain ⟨⟨item, u⟩, hr, rfl⟩ := Option.map_eq_some_iff.mp hst
    have hd := receive_drain hr
    rcases item with c | (_ | _) <;> exact .inl hd
  case cancel =>
    split_ifs at hst
    obtain rfl := Option.some.inj hst
    exact .inl rfl
  case drain =>
    split_ifs at hst
    split at hst
    · next word hword =>
      obtain rfl := Option.some.inj hst
      exact .inr (.inr (.inl ⟨word, hword, by rw [hword]⟩))
    · obtain rfl := Option.some.inj hst
      exact .inr (.inl ⟨none, rfl⟩)
  case drainTakes =>
    split_ifs at hst
    · obtain ⟨⟨item, u⟩, -, rfl⟩ := Option.map_eq_some_iff.mp hst
      exact .inr (.inl ⟨some item, rfl⟩)
    · obtain ⟨⟨item, u⟩, hr, rfl⟩ := Option.map_eq_some_iff.mp hst
      have hd := receive_drain hr
      exact .inl hd
  case drainLooks =>
    split at hst
    · obtain rfl := Option.some.inj hst
      exact .inr (.inl ⟨none, rfl⟩)
    · next word hd =>
      obtain rfl := Option.some.inj hst
      exact .inr (.inr (.inr (.inl ⟨word, hd, rfl⟩)))
    · cases hst
  case stop =>
    split_ifs at hst with hd
    obtain rfl := Option.some.inj hst
    exact .inr (.inr (.inr (.inr (.inl ⟨hd, rfl⟩))))
  case timeLimit =>
    split at hst
    · next item hd =>
      obtain rfl := Option.some.inj hst
      exact .inr (.inr (.inr (.inr (.inr ⟨rfl, item, hd, rfl⟩))))
    · cases hst
  case aclose =>
    split at hst
    · cases hst
    · split_ifs at hst
      obtain rfl := Option.some.inj hst
      exact .inl rfl

/-- A step that returns from the drain answers rightly, if no limit cuts it at the end; no other
step changes an answer. -/
theorem step_answers (h : Flows chunks last s) (hs : s.Answers) (hok : NotCutAtEnd s a)
    (hst : step last s a = some t) : t.Answers := by
  intro value outcome hret
  obtain hd | ⟨item, hd⟩ | ⟨word, ho, hd⟩ | ⟨word, hr, hd⟩ | ⟨hr, hd⟩ | ⟨ha, item, hr, hd⟩ :=
    step_drain hst
  · exact hs value outcome (hd ▸ hret)
  · simp [hd] at hret
  · obtain ⟨rfl, rfl⟩ : decide (word = .ended) = value ∧ s.outcome = outcome := by
      simpa [hd] using hret
    simp [ho]
  · obtain ⟨rfl, rfl⟩ : decide (word = .ended) = value ∧ s.outcome = outcome := by
      simpa [hd] using hret
    simp [h.reading _ hr]
  · obtain ⟨rfl, rfl⟩ : false = value ∧ s.outcome = outcome := by
      simpa [hd] using hret
    simp [h.reading _ hr]
  · obtain ⟨rfl, rfl⟩ : false = value ∧ s.outcome = outcome := by
      simpa [hd] using hret
    -- what the read took is not the end
    have hend : item ≠ some (.last .ended) := fun hi => hok ha (hi ▸ hr)
    rw [h.reading _ hr]
    rcases item with _ | (c | (_ | _)) <;> simp_all

end Answers

end Pump

section Handover

open Pump

variable {α : Type} [DecidableEq α]

/-- **The pump hands over what the upstream sent.** In every run from the start on, for an upstream
that sends `chunks` and then its last word: what is handed over and then drained is a beginning of
the chunks; every chunk read was observed, once and in order, and nothing is handed over that was
not; the reader is at most `pumpDepth + 1` chunks ahead; no failure is raised, or the upstream's,
once, to a caller that has all chunks. And in a run without a time limit between the drain's read
taking the end and the drain looking at it, `drain` answers whether the end was handed over. -/
theorem pump_hands_over (chunks : List α) (last : LastWord) (acts : List PumpAct) (s : Pump α)
    (h : Run (step last) (fun _ _ => True) { rest := chunks } acts s) :
    s.handed ++ s.drained <+: chunks ∧
      s.observed ++ s.rest = chunks ∧
      s.handed ++ s.drained <+: s.observed ∧
      s.observed.length ≤ (s.handed ++ s.drained).length + (pumpDepth + 1) ∧
      (s.failures = [] ∨ last = .failed ∧ s.failures = [chunks.length] ∧ s.handed = chunks) ∧
      (Run (step last) NotCutAtEnd { rest := chunks } acts s →
        ∀ value outcome, s.drain = .returned value outcome →
          (value = true ↔ outcome = some .ended)) := by
  have hflows : Flows chunks last s :=
    h.invariant (fun _ _ _ hs _ hst => Flows.step_keeps hs hst) (Flows.start chunks last)
  refine ⟨hflows.taken_begins.trans hflows.observed_begins, hflows.read,
    hflows.taken_begins, hflows.ahead, ?_, fun hrun => ?_⟩
  · refine hflows.raised.imp_right fun ⟨ho, hfailures, hall⟩ => ?_
    exact ⟨(hflows.noted _ ho).1.symm, hfailures, hall⟩
  · have hboth : Flows chunks last s ∧ s.Answers :=
      hrun.invariant (P := fun s => Flows chunks last s ∧ s.Answers)
        (fun _ _ _ hs hok hst => ⟨hs.1.step_keeps hst, step_answers hs.1 hs.2 hok hst⟩)
        ⟨Flows.start chunks last, fun _ _ hd => by cases hd⟩
    exact hboth.2

/-- A caller who leaves with the first of two chunks, in a read of the second: the second is drained,
and the end is reached. -/
theorem pump_hands_over_left : ∃ s : Pump ℕ,
    (s.handed, s.drained, s.drain) = ([7], [8], .returned true (some .ended)) ∧
      s.handed ++ s.drained <+: [7, 8] ∧ (true = true ↔ some LastWord.ended = some .ended) := by
  have hrun : Run (step .ended) NotCutAtEnd { rest := [7, 8] }
      [.anext, .read, .put, .take, .anext, .cancel, .drain, .read, .put, .drainTakes, .drainLooks,
        .read, .put, .drainTakes, .drainLooks]
      { rest := [], phase := .over, observed := [7, 8], handed := [7], drained := [8],
        outcome := some .ended, drain := .returned true (some .ended) } :=
    run_of_checkedRun (by decide)
  obtain ⟨htaken, -, -, -, -, hdrain⟩ :=
    pump_hands_over [7, 8] .ended _ _ (hrun.mono fun _ _ _ => trivial)
  exact ⟨_, rfl, htaken, hdrain hrun true (some .ended) rfl⟩

/-- The drain's read takes the end, the time limit strikes before the drain looks: `drain` answers
that the end was not reached. -/
theorem drain_cut_at_end :
    ¬∀ (chunks : List ℕ) (last : LastWord) (acts : List PumpAct) (s : Pump ℕ),
      Run (step last) (fun _ _ => True) { rest := chunks } acts s →
        ∀ value outcome, s.drain = .returned value outcome →
          (value = true ↔ outcome = some .ended) := by
  intro h
  have hrun : Run (step .ended) (fun _ _ => True) { rest := ([] : List ℕ) }
      [.drain, .read, .put, .drainTakes, .timeLimit]
      { rest := [], phase := .over, outcome := some .ended,
        drain := .returned false (some .ended) } :=
    run_of_checkedRun (by decide)
  simpa using h _ _ _ _ hrun false (some .ended) rfl

end Handover

end AiraGateway
