import AiraGateway.Library.Runs
import AiraGateway.Library.Text
import Mathlib.Data.List.Nodup
import Mathlib.Data.List.Sort
import Mathlib.Algebra.Order.Group.Int

/-!
# The outbox and its relay

Management writes its events into an outbox; the relay sends them to their topics, oldest first, a
batch at a time, and marks afterwards what it has sent. An event the broker never accepts is parked
instead. One run holds the relay's lock at a time. A run can be cut off at any point, and then
marks nothing more of what it did; a send can fail with the record taken or not. What is marked or
parked long enough is deleted.

The steps of a run are steps here, so that anything can happen between two of them. What the
broker refuses for good is a property of the event (`refuses`), as its size is.

* `relay_delivers`: in every history of runs, every event is pending, sent or parked, what is
  marked is sent and what is parked is not, a run sends nothing after a send of it has failed, and
  when nothing is pending the last record of every key is its last event that is not parked. From
  every state, undisturbed runs come to that.
-/

namespace AiraGateway

/-! ### The outbox -/

/-- The largest event value that is sent. -/
def maxEventBytes : ℕ := 1000000

/-- How long a delivered or parked event stays, in days. -/
def keptAfterDays : ℤ := 30

/-- How many events one run publishes. -/
def relayBatch : ℕ := 500

/-- An event as it was written. -/
structure OutboxEvent (π : Type) where
  id : ℕ
  createdAt : ℤ
  topic : Text
  key : Text
  eventType : Text
  payload : π
  deriving DecidableEq

/-- An event in the outbox, with what has become of it: when it was published, or parked. -/
structure OutboxRow (π : Type) extends OutboxEvent π where
  publishedAt : Option ℤ := none
  parkedAt : Option ℤ := none
  deriving DecidableEq

variable {π : Type}

namespace OutboxEvent

/-- The outbox's order is its meaning: by time, and by `id` within one time. -/
def upTo (a b : OutboxEvent π) : Prop :=
  a.createdAt < b.createdAt ∨ a.createdAt = b.createdAt ∧ a.id ≤ b.id

def before (a b : OutboxEvent π) : Prop :=
  a.createdAt < b.createdAt ∨ a.createdAt = b.createdAt ∧ a.id < b.id

/-- About the same thing: one key of one topic. -/
def about (topic key : Text) (e : OutboxEvent π) : Prop := e.topic = topic ∧ e.key = key

instance (a b : OutboxEvent π) : Decidable (a.before b) := inferInstanceAs (Decidable (_ ∨ _))

instance : DecidableRel (upTo (π := π)) := fun _ _ => inferInstanceAs (Decidable (_ ∨ _))

instance (topic key : Text) : DecidablePred (about (π := π) topic key) := fun _ =>
  inferInstanceAs (Decidable (_ ∧ _))

instance : Std.Total (upTo (π := π)) := ⟨fun a b => by unfold upTo; omega⟩

instance : IsTrans (OutboxEvent π) upTo := ⟨fun a b c hab hbc => by unfold upTo at *; omega⟩

theorem before_trans {a b c : OutboxEvent π} (hab : a.before b) (hbc : b.before c) :
    a.before c := by
  unfold before at *
  omega

theorem not_before_self (a : OutboxEvent π) : ¬ a.before a := by
  unfold before
  omega

/-- Two events in order are one, or the first comes before the second. -/
theorem before_of_upTo {a b : OutboxEvent π} (h : a.upTo b) (hid : a.id ≠ b.id) : a.before b := by
  unfold upTo at h
  unfold before
  omega

end OutboxEvent

/-- Neither published nor set aside. -/
def OutboxRow.pending (row : OutboxRow π) : Bool := row.publishedAt.isNone && row.parkedAt.isNone

/-- Still to be sent. -/
def Pending (outbox : List (OutboxRow π)) (e : OutboxEvent π) : Prop :=
  ∃ row ∈ outbox, row.toOutboxEvent = e ∧ row.pending = true

/-- The events still to be sent, oldest first. -/
def pendingEvents (outbox : List (OutboxRow π)) : List (OutboxEvent π) :=
  ((outbox.filter (·.pending)).map (·.toOutboxEvent)).insertionSort OutboxEvent.upTo

/-- How long ago an event has to be dealt with to be deleted. -/
def cutoff (now : ℤ) : ℤ := now - keptAfterDays * 86400

/-- Delete what was delivered long enough ago, and then what was parked. -/
def sweepPublished (now : ℤ) (outbox : List (OutboxRow π)) : List (OutboxRow π) :=
  outbox.filter fun row => !row.publishedAt.any (· < cutoff now)

def sweepParked (now : ℤ) (outbox : List (OutboxRow π)) : List (OutboxRow π) :=
  outbox.filter fun row => !row.parkedAt.any (· < cutoff now)

/-- Mark what was sent. -/
def markPublished (moment : ℤ) (published : List (OutboxEvent π)) (outbox : List (OutboxRow π)) :
    List (OutboxRow π) :=
  outbox.map fun row =>
    if row.id ∈ published.map (·.id) then { row with publishedAt := some moment } else row

/-- Set one event aside. -/
def markParked (moment : ℤ) (e : OutboxEvent π) (outbox : List (OutboxRow π)) :
    List (OutboxRow π) :=
  outbox.map fun row => if row.id = e.id then { row with parkedAt := some moment } else row

/-! ### Runs of the relay -/

/-- What a run has sent and set aside so far. -/
structure RelayRun (π : Type) where
  published : List (OutboxEvent π) := []
  parked : List (OutboxEvent π) := []

/-- Where the relay is in a run: half-way through the sweep, sending its batch, stopped at a send
that failed, or marking what it has set aside. -/
inductive RelayPhase (π : Type)
  | idle
  | sweeping (now : ℤ)
  | sending (rest : List (OutboxEvent π)) (run : RelayRun π)
  | stopped (run : RelayRun π)
  | parking (moment : ℤ) (rest : List (OutboxEvent π))

/-- What is told of the outbox and its relay. -/
inductive RelayEvent (π : Type)
  | added (e : OutboxEvent π)
  | began
  | sent (e : OutboxEvent π)
  | failed (e : OutboxEvent π) (taken : Bool)
  | parked (e : OutboxEvent π)
  deriving DecidableEq

/-- The outbox, the relay, and what has happened, the newest first. -/
structure RelayWorld (π : Type) where
  outbox : List (OutboxRow π) := []
  phase : RelayPhase π := .idle
  log : List (RelayEvent π) := []

/-- How a send ends. One that fails may have been taken by the broker. -/
inductive SendOutcome
  | accepted
  | refused
  | failed (taken : Bool)
  deriving DecidableEq

inductive RelayAct (π : Type)
  | add (e : OutboxEvent π)
  | start (now : ℤ)
  | load
  | send (outcome : SendOutcome)
  | mark (moment : ℤ)
  | park
  | crash

/-- Nothing is added, and nothing breaks off a run. -/
def RelayAct.undisturbed : RelayAct π → Bool
  | start _ | load | send .accepted | send .refused | mark _ | park => true
  | add _ | send (.failed _) | crash => false

section Relay

variable (encodedSize : π → ℕ) (refuses : OutboxEvent π → Bool)

/-- An event that can never be sent. -/
def unsendable (e : OutboxEvent π) : Bool := maxEventBytes < encodedSize e.payload || refuses e

namespace RelayWorld

/-- Send one event of the batch, or set it aside. The broker takes no record it refuses. -/
def send (w : RelayWorld π) (e : OutboxEvent π) (rest : List (OutboxEvent π)) (run : RelayRun π)
    (outcome : SendOutcome) : Option (RelayWorld π) :=
  if maxEventBytes < encodedSize e.payload then
    some { w with phase := .sending rest { run with parked := run.parked ++ [e] } }
  else match outcome with
    | .accepted =>
      if refuses e then none
      else some { w with
        phase := .sending rest { run with published := run.published ++ [e] }
        log := .sent e :: w.log }
    | .refused =>
      if refuses e then some { w with
        phase := .sending rest { run with parked := run.parked ++ [e] } }
      else none
    | .failed taken =>
      if taken ∧ refuses e then none
      else some { w with phase := .stopped run, log := .failed e taken :: w.log }

/-- Mark what a run has sent; what it has set aside comes after. -/
def mark (w : RelayWorld π) (moment : ℤ) (run : RelayRun π) : RelayWorld π :=
  { w with
    outbox := markPublished moment run.published w.outbox
    phase := .parking moment run.parked }

/-- One step of a run, or something between two of them. -/
def step (w : RelayWorld π) : RelayAct π → Option (RelayWorld π)
  | .add e => some { w with outbox := w.outbox ++ [{ e with }], log := .added e :: w.log }
  | .start now =>
    match w.phase with
    | .idle => some { w with outbox := sweepPublished now w.outbox, phase := .sweeping now }
    | _ => none
  | .load =>
    match w.phase with
    | .sweeping now =>
      let outbox := sweepParked now w.outbox
      match (pendingEvents outbox).take relayBatch with
      | [] => some { w with outbox := outbox, phase := .idle }
      | batch => some { outbox := outbox, phase := .sending batch {}, log := .began :: w.log }
    | _ => none
  | .send outcome =>
    match w.phase with
    | .sending (e :: rest) run => w.send encodedSize refuses e rest run outcome
    | _ => none
  | .mark moment =>
    match w.phase with
    | .sending [] run | .stopped run => some (w.mark moment run)
    | _ => none
  | .park =>
    match w.phase with
    | .parking moment (e :: rest) => some {
        outbox := markParked moment e w.outbox
        phase := .parking moment rest
        log := .parked e :: w.log }
    | .parking _ [] => some { w with phase := .idle }
    | _ => none
  | .crash =>
    match w.phase with
    | .idle => none
    | _ => some { w with phase := .idle }

end RelayWorld

end Relay

/-! ### What has been told -/

namespace RelayEvent

def added? : RelayEvent π → Option (OutboxEvent π)
  | added e => some e
  | began | sent _ | failed _ _ | parked _ => none

/-- The record the broker has taken. -/
def record? : RelayEvent π → Option (OutboxEvent π)
  | sent e | failed e true => some e
  | added _ | began | failed _ false | parked _ => none

def parked? : RelayEvent π → Option (OutboxEvent π)
  | parked e => some e
  | added _ | began | sent _ | failed _ _ => none

def isFailed : RelayEvent π → Bool
  | failed _ _ => true
  | added _ | began | sent _ | parked _ => false

def isSend : RelayEvent π → Bool
  | sent _ | failed _ _ => true
  | added _ | began | parked _ => false

def isBegan : RelayEvent π → Bool
  | began => true
  | added _ | sent _ | failed _ _ | parked _ => false

end RelayEvent

/-- The events that have become visible, the records on the topics and the events set aside, each
with the newest first. -/
def addedIn (log : List (RelayEvent π)) : List (OutboxEvent π) := log.filterMap (·.added?)

def recordsIn (log : List (RelayEvent π)) : List (OutboxEvent π) := log.filterMap (·.record?)

def parkedIn (log : List (RelayEvent π)) : List (OutboxEvent π) := log.filterMap (·.parked?)

/-- What the last run has done so far. -/
def lastRun (log : List (RelayEvent π)) : List (RelayEvent π) := log.takeWhile (!·.isBegan)

/-- No send of a run comes after one of it that failed. -/
def StopsAtFailure (log : List (RelayEvent π)) : Prop :=
  ∀ e before, e.isSend = true → e :: before <:+ log → ∀ d ∈ lastRun before, d.isFailed = false

namespace RelayWorld

/-- An event has an `id` of its own, and those about one thing become visible in order. -/
def InOrder (w : RelayWorld π) : RelayAct π → Prop
  | .add e => ∀ d ∈ addedIn w.log, d.id ≠ e.id ∧ (d.about e.topic e.key → d.before e)
  | .start _ | .load | .send _ | .mark _ | .park | .crash => True

instance : DecidableRel (InOrder (π := π)) := fun w a =>
  match a with
  | .add e => inferInstanceAs (Decidable (∀ d ∈ addedIn w.log, _ ∧ (_ → _)))
  | .start _ | .load | .send _ | .mark _ | .park | .crash => inferInstanceAs (Decidable True)

/-- The relay delivers in order and ends on the last. -/
structure Delivers [DecidableEq π] (w : RelayWorld π) : Prop where
  accounted : ∀ e ∈ addedIn w.log,
    Pending w.outbox e ∨ e ∈ recordsIn w.log ∨ e ∈ parkedIn w.log
  marked : ∀ row ∈ w.outbox, row.publishedAt.isSome = true →
    row.toOutboxEvent ∈ recordsIn w.log
  unsent : ∀ e ∈ parkedIn w.log, e ∉ recordsIn w.log
  stops : StopsAtFailure w.log
  ends : (∀ row ∈ w.outbox, row.pending = false) → ∀ topic key,
    (recordsIn w.log).find? (·.about topic key)
      = (addedIn w.log).find? fun e => e.about topic key ∧ e ∉ parkedIn w.log

end RelayWorld

/-! ### What is pending -/

section Outbox

variable {outbox : List (OutboxRow π)} {e x : OutboxEvent π}

theorem mem_pendingEvents : e ∈ pendingEvents outbox ↔ Pending outbox e := by
  rw [pendingEvents, List.mem_insertionSort]
  constructor
  · intro h
    obtain ⟨row, hrow, rfl⟩ := List.mem_map.mp h
    obtain ⟨hmem, hpending⟩ := List.mem_filter.mp hrow
    exact ⟨row, hmem, rfl, hpending⟩
  · rintro ⟨row, hmem, rfl, hpending⟩
    exact List.mem_map.mpr ⟨row, List.mem_filter.mpr ⟨hmem, hpending⟩, rfl⟩

/-- With an `id` for every row, what is pending is sent in order. -/
theorem pairwise_pendingEvents (hnodup : (outbox.map (·.id)).Nodup) :
    (pendingEvents outbox).Pairwise OutboxEvent.before := by
  have hids : (((outbox.filter (·.pending)).map (·.toOutboxEvent)).map (·.id)).Nodup := by
    rw [List.map_map]
    exact hnodup.sublist (List.filter_sublist.map _)
  have hperm := List.perm_insertionSort OutboxEvent.upTo
    ((outbox.filter (·.pending)).map (·.toOutboxEvent))
  have hne : (pendingEvents outbox).Pairwise fun a b => a.id ≠ b.id :=
    List.pairwise_map.mp ((hperm.map OutboxEvent.id).nodup_iff.mpr hids)
  have hsorted : (pendingEvents outbox).Pairwise OutboxEvent.upTo :=
    List.pairwise_insertionSort _ _
  refine (hsorted.and hne).imp ?_
  rintro a b ⟨hle, hid⟩
  exact OutboxEvent.before_of_upTo hle hid

theorem pending_add :
    Pending (outbox ++ [({ e with } : OutboxRow π)]) x ↔ Pending outbox x ∨ e = x := by
  simp [Pending, or_and_right, exists_or, OutboxRow.pending]

/-- What is published or parked is not pending. -/
theorem pending_filter {keep : OutboxRow π → Bool}
    (hkeep : ∀ row, row.pending = true → keep row = true) :
    Pending (outbox.filter keep) x ↔ Pending outbox x := by
  constructor
  · rintro ⟨row, hmem, heq, hpending⟩
    exact ⟨row, List.mem_of_mem_filter hmem, heq, hpending⟩
  · rintro ⟨row, hmem, heq, hpending⟩
    exact ⟨row, List.mem_filter.mpr ⟨hmem, hkeep row hpending⟩, heq, hpending⟩

theorem pending_sweepPublished {now : ℤ} :
    Pending (sweepPublished now outbox) x ↔ Pending outbox x := by
  refine pending_filter fun row hpending => ?_
  have hnone : row.publishedAt = none := by simp_all [OutboxRow.pending]
  simp [hnone]

theorem pending_sweepParked {now : ℤ} : Pending (sweepParked now outbox) x ↔ Pending outbox x := by
  refine pending_filter fun row hpending => ?_
  have hnone : row.parkedAt = none := by simp_all [OutboxRow.pending]
  simp [hnone]

/-- What is marked is not pending any more. -/
theorem pending_map (marked : OutboxEvent π → Prop) {mark : OutboxRow π → OutboxRow π}
    (hsame : ∀ row, (mark row).toOutboxEvent = row.toOutboxEvent)
    (hmark : ∀ row ∈ outbox, (mark row).pending = true ↔
      row.pending = true ∧ ¬ marked row.toOutboxEvent) :
    Pending (outbox.map mark) x ↔ Pending outbox x ∧ ¬ marked x := by
  constructor
  · rintro ⟨row', hmem, rfl, hpending⟩
    obtain ⟨row, hrow, rfl⟩ := List.mem_map.mp hmem
    obtain ⟨hwas, hnot⟩ := (hmark row hrow).mp hpending
    rw [hsame]
    exact ⟨⟨row, hrow, rfl, hwas⟩, hnot⟩
  · rintro ⟨⟨row, hrow, rfl, hpending⟩, hnot⟩
    exact ⟨mark row, List.mem_map_of_mem hrow, hsame row, (hmark row hrow).mpr ⟨hpending, hnot⟩⟩

theorem pending_markPublished {moment : ℤ} {published : List (OutboxEvent π)}
    (hids : ∀ row ∈ outbox, ∀ e ∈ published, row.id = e.id → row.toOutboxEvent = e) :
    Pending (markPublished moment published outbox) x ↔ Pending outbox x ∧ x ∉ published := by
  refine pending_map (· ∈ published) (fun row => by split_ifs <;> rfl) fun row hrow => ?_
  have hiff : row.id ∈ published.map (·.id) ↔ row.toOutboxEvent ∈ published := by
    refine ⟨fun hid => ?_, List.mem_map_of_mem⟩
    obtain ⟨e, he, hid⟩ := List.mem_map.mp hid
    rwa [hids row hrow e he hid.symm]
  rw [← hiff]
  split_ifs with hid
  · simp [OutboxRow.pending, hid]
  · simp [hid]

theorem pending_markParked {moment : ℤ}
    (hids : ∀ row ∈ outbox, row.id = e.id → row.toOutboxEvent = e) :
    Pending (markParked moment e outbox) x ↔ Pending outbox x ∧ x ≠ e := by
  refine pending_map (· = e) (fun row => by split_ifs <;> rfl) fun row hrow => ?_
  split_ifs with hid
  · simp [OutboxRow.pending, hids row hrow hid]
  · have hne : row.toOutboxEvent ≠ e := fun heq => hid (by rw [heq])
    simp [hne]

end Outbox

/-! ### What every step keeps -/

/-- The last record of an event's key is the event, or one that comes after it. -/
def Topped (log : List (RelayEvent π)) (d : OutboxEvent π) : Prop :=
  ∃ r, (recordsIn log).find? (·.about d.topic d.key) = some r ∧ (r = d ∨ d.before r)

/-- What every step keeps of the outbox and the log. No pending event comes before one of its key
that is dealt with, unless it can never be sent. -/
structure Kept (bad : OutboxEvent π → Bool) (outbox : List (OutboxRow π))
    (log : List (RelayEvent π)) : Prop where
  known : ∀ row ∈ outbox, row.toOutboxEvent ∈ addedIn log
  nodup : (outbox.map (·.id)).Nodup
  inOrder : (addedIn log).Pairwise fun e d =>
    d.id ≠ e.id ∧ (d.about e.topic e.key → d.before e)
  sent : ∀ e ∈ recordsIn log, e ∈ addedIn log ∧ bad e = false
  aside : ∀ e ∈ parkedIn log, e ∈ addedIn log ∧ bad e = true
  accounted : ∀ e ∈ addedIn log, Pending outbox e ∨ e ∈ recordsIn log ∨ e ∈ parkedIn log
  marked : ∀ row ∈ outbox, row.publishedAt.isSome = true → row.toOutboxEvent ∈ recordsIn log
  stops : StopsAtFailure log
  tops : ∀ d ∈ addedIn log, bad d = false → ¬ Pending outbox d → Topped log d
  settled : ∀ d ∈ addedIn log, bad d = false → ¬ Pending outbox d →
    ∀ e, Pending outbox e → bad e = false → d.about e.topic e.key → d.before e

/-- What every step of a run keeps of its batch: nothing that could be sent is left out of it but
what comes after. -/
structure Batch (bad : OutboxEvent π → Bool) (outbox : List (OutboxRow π))
    (log : List (RelayEvent π)) (rest : List (OutboxEvent π)) (run : RelayRun π) : Prop where
  inOrder : (run.published ++ rest).Pairwise OutboxEvent.before
  pending : ∀ e ∈ run.published ++ rest, Pending outbox e
  covers : ∀ e, Pending outbox e → bad e = false → e ∈ run.published ++ rest ∨
    ∀ d ∈ run.published ++ rest, d.about e.topic e.key → d.before e
  sent : ∀ e ∈ run.published, e ∈ recordsIn log ∧ Topped log e
  aside : ∀ e ∈ run.parked, e ∈ addedIn log ∧ bad e = true

section Keeps

variable {bad : OutboxEvent π → Bool} {outbox outbox' : List (OutboxRow π)}
  {log : List (RelayEvent π)} {e d r : OutboxEvent π} {ev : RelayEvent π}
  {rest : List (OutboxEvent π)} {run : RelayRun π}

theorem Kept.added_of_pending (h : Kept bad outbox log) (he : Pending outbox e) :
    e ∈ addedIn log := by
  obtain ⟨row, hrow, rfl, -⟩ := he
  exact h.known row hrow

/-- Nothing that was sent is set aside. -/
theorem Kept.unsent (h : Kept bad outbox log) : ∀ e ∈ recordsIn log, e ∉ parkedIn log := by
  intro e hsent haside
  have hgood := (h.sent e hsent).2
  rw [(h.aside e haside).2] at hgood
  cases hgood

/-- One `id`, one event. -/
theorem Kept.eq_of_id (h : Kept bad outbox log) (hd : d ∈ addedIn log) (he : e ∈ addedIn log)
    (hid : d.id = e.id) : d = e := by
  by_contra hne
  have hids : ((addedIn log).map (·.id)).Nodup :=
    List.pairwise_map.mpr (h.inOrder.imp fun hpair => hpair.1.symm)
  exact hne (List.inj_on_of_nodup_map hids hd he hid)

theorem StopsAtFailure.cons (h : StopsAtFailure log)
    (hev : ev.isSend = true → ∀ d ∈ lastRun log, d.isFailed = false) :
    StopsAtFailure (ev :: log) := by
  intro e before he hsuffix
  rcases List.suffix_cons_iff.mp hsuffix with heq | hsuffix
  · obtain ⟨rfl, rfl⟩ := List.cons.inj heq
    exact hev he
  · exact h e before he hsuffix

theorem Topped.cons (h : Topped log d) (hev : ev.record? = none) : Topped (ev :: log) d := by
  obtain ⟨r, hfind, hr⟩ := h
  refine ⟨r, ?_, hr⟩
  rwa [recordsIn, List.filterMap_cons_none hev]

/-- A record that comes after an event of its key is now the last. -/
theorem Topped.record (hev : ev.record? = some r) (h : r.about d.topic d.key ∨ Topped log d)
    (hr : r.about d.topic d.key → r = d ∨ d.before r) : Topped (ev :: log) d := by
  have hcons : recordsIn (ev :: log) = r :: recordsIn log := List.filterMap_cons_some hev
  rw [Topped, hcons]
  by_cases habout : r.about d.topic d.key
  · exact ⟨r, List.find?_cons_of_pos (by simpa using habout), hr habout⟩
  · rw [List.find?_cons_of_neg (by simpa using habout)]
    exact h.resolve_left habout

/-- What is told changes nothing, or is a record of a pending event or an event set aside. -/
theorem Kept.tell (h : Kept bad outbox log) (hadded : ev.added? = none)
    (hrecord : ∀ r, ev.record? = some r → Pending outbox r ∧ bad r = false)
    (hparked : ∀ e, ev.parked? = some e → e ∈ addedIn log ∧ bad e = true)
    (hsend : ev.isSend = true → ∀ d ∈ lastRun log, d.isFailed = false) :
    Kept bad outbox (ev :: log) := by
  have hA : addedIn (ev :: log) = addedIn log := List.filterMap_cons_none hadded
  have hR : ∀ e ∈ recordsIn (ev :: log), ev.record? = some e ∨ e ∈ recordsIn log := by
    intro e he
    rcases hrec : ev.record? with _ | r
    · rw [recordsIn, List.filterMap_cons_none hrec] at he
      exact .inr he
    · rw [recordsIn, List.filterMap_cons_some hrec, List.mem_cons] at he
      exact he.imp_left fun heq => by rw [heq]
  have hP : ∀ e ∈ parkedIn (ev :: log), ev.parked? = some e ∨ e ∈ parkedIn log := by
    intro e he
    rcases hpark : ev.parked? with _ | r
    · rw [parkedIn, List.filterMap_cons_none hpark] at he
      exact .inr he
    · rw [parkedIn, List.filterMap_cons_some hpark, List.mem_cons] at he
      exact he.imp_left fun heq => by rw [heq]
  have hRsub : ∀ e ∈ recordsIn log, e ∈ recordsIn (ev :: log) := fun e he =>
    ((List.suffix_cons ev log).sublist.filterMap _).subset he
  have hPsub : ∀ e ∈ parkedIn log, e ∈ parkedIn (ev :: log) := fun e he =>
    ((List.suffix_cons ev log).sublist.filterMap _).subset he
  exact {
    known := by rw [hA]; exact h.known
    nodup := h.nodup
    inOrder := by rw [hA]; exact h.inOrder
    sent := fun e he => by
      rw [hA]
      rcases hR e he with hrec | he
      · exact ⟨h.added_of_pending (hrecord e hrec).1, (hrecord e hrec).2⟩
      · exact h.sent e he
    aside := fun e he => by
      rw [hA]
      rcases hP e he with hpark | he
      · exact hparked e hpark
      · exact h.aside e he
    accounted := fun e he => by
      rw [hA] at he
      exact (h.accounted e he).imp_right (Or.imp (hRsub e) (hPsub e))
    marked := fun row hrow hsome => hRsub _ (h.marked row hrow hsome)
    stops := h.stops.cons hsend
    tops := fun d hd hgood hdone => by
      rw [hA] at hd
      have htop := h.tops d hd hgood hdone
      rcases hrec : ev.record? with _ | r
      · exact htop.cons hrec
      · refine .record hrec (.inr htop) fun habout => .inr ?_
        obtain ⟨hpending, hr⟩ := hrecord r hrec
        exact h.settled d hd hgood hdone r hpending hr ⟨habout.1.symm, habout.2.symm⟩
    settled := by rw [hA]; exact h.settled }

/-- Deleting and marking: what is not pending any more has been set aside, or is sent, on the last
record of its key or before it, with nothing of its key left that comes before. -/
theorem Kept.change (h : Kept bad outbox log)
    (hsub : ∀ row ∈ outbox', row.toOutboxEvent ∈ addedIn log)
    (hnodup : (outbox'.map (·.id)).Nodup)
    (hmarked : ∀ row ∈ outbox', row.publishedAt.isSome = true →
      row.toOutboxEvent ∈ recordsIn log)
    (hpending : ∀ e, Pending outbox' e → Pending outbox e)
    (hdone : ∀ d, Pending outbox d → ¬ Pending outbox' d →
      d ∈ parkedIn log ∨ d ∈ recordsIn log ∧ Topped log d ∧
        ∀ e, Pending outbox' e → bad e = false → d.about e.topic e.key → d.before e) :
    Kept bad outbox' log where
  known := hsub
  nodup := hnodup
  inOrder := h.inOrder
  sent := h.sent
  aside := h.aside
  accounted e he := by
    rcases h.accounted e he with hwas | hdealt
    · by_cases hnow : Pending outbox' e
      · exact .inl hnow
      · rcases hdone e hwas hnow with hparked | ⟨hsent, -⟩
        · exact .inr (.inr hparked)
        · exact .inr (.inl hsent)
    · exact .inr hdealt
  marked := hmarked
  stops := h.stops
  tops d hd hgood hnow := by
    by_cases hwas : Pending outbox d
    · rcases hdone d hwas hnow with hparked | ⟨-, htop, -⟩
      · have hbad := (h.aside d hparked).2
        rw [hgood] at hbad
        cases hbad
      · exact htop
    · exact h.tops d hd hgood hwas
  settled d hd hgood hnow e he hegood habout := by
    by_cases hwas : Pending outbox d
    · rcases hdone d hwas hnow with hparked | ⟨-, -, hbefore⟩
      · have hbad := (h.aside d hparked).2
        rw [hgood] at hbad
        cases hbad
      · exact hbefore e he hegood habout
    · exact h.settled d hd hgood hwas e (hpending e he) hegood habout

/-- Deleting what is dealt with changes nothing. -/
theorem Kept.sweep (h : Kept bad outbox log) {keep : OutboxRow π → Bool}
    (hkeep : ∀ e, Pending (outbox.filter keep) e ↔ Pending outbox e) :
    Kept bad (outbox.filter keep) log := by
  have hmem : ∀ row ∈ outbox.filter keep, row ∈ outbox := fun row => List.mem_of_mem_filter
  refine h.change (fun row hrow => h.known row (hmem row hrow))
    (h.nodup.sublist (List.filter_sublist.map _)) (fun row hrow => h.marked row (hmem row hrow))
    (fun e => (hkeep e).mp) fun d hwas hnow => ?_
  exact absurd ((hkeep d).mpr hwas) hnow

theorem Kept.sweepPublished (h : Kept bad outbox log) (now : ℤ) :
    Kept bad (sweepPublished now outbox) log := h.sweep fun _ => pending_sweepPublished

theorem Kept.sweepParked (h : Kept bad outbox log) (now : ℤ) :
    Kept bad (sweepParked now outbox) log := h.sweep fun _ => pending_sweepParked

/-- A new event is the last of its key. -/
theorem Kept.add (h : Kept bad outbox log)
    (hnew : ∀ d ∈ addedIn log, d.id ≠ e.id ∧ (d.about e.topic e.key → d.before e)) :
    Kept bad (outbox ++ [({ e with } : OutboxRow π)]) (.added e :: log) where
  known row hrow := by
    rcases List.mem_append.mp hrow with hrow | hrow
    · exact List.mem_cons_of_mem e (h.known row hrow)
    · obtain rfl := List.mem_singleton.mp hrow
      exact List.mem_cons_self
  nodup := by
    rw [List.map_append, List.nodup_append]
    refine ⟨h.nodup, List.nodup_singleton _, ?_⟩
    intro i hi j hj
    obtain ⟨row, hrow, rfl⟩ := List.mem_map.mp hi
    obtain rfl : j = e.id := List.mem_singleton.mp hj
    exact (hnew _ (h.known row hrow)).1
  inOrder := List.pairwise_cons.mpr ⟨hnew, h.inOrder⟩
  sent d hd := ⟨List.mem_cons_of_mem e (h.sent d hd).1, (h.sent d hd).2⟩
  aside d hd := ⟨List.mem_cons_of_mem e (h.aside d hd).1, (h.aside d hd).2⟩
  accounted d hd := by
    rcases List.mem_cons.mp hd with rfl | hd
    · exact .inl (pending_add.mpr (.inr rfl))
    · exact (h.accounted d hd).imp_left fun hpending => pending_add.mpr (.inl hpending)
  marked row hrow hsome := by
    rcases List.mem_append.mp hrow with hrow | hrow
    · exact h.marked row hrow hsome
    · obtain rfl := List.mem_singleton.mp hrow
      cases hsome
  stops := h.stops.cons fun hsend => Bool.noConfusion hsend
  tops d hd hgood hnow := by
    rw [pending_add, not_or] at hnow
    have hd : d ∈ addedIn log := (List.mem_cons.mp hd).resolve_left fun heq => hnow.2 heq.symm
    exact (h.tops d hd hgood hnow.1).cons rfl
  settled d hd hgood hnow x hx hxgood habout := by
    rw [pending_add, not_or] at hnow
    have hd : d ∈ addedIn log := (List.mem_cons.mp hd).resolve_left fun heq => hnow.2 heq.symm
    rcases pending_add.mp hx with hx | rfl
    · exact h.settled d hd hgood hnow.1 x hx hxgood habout
    · exact (hnew d hd).2 habout

theorem Kept.tellBegan (h : Kept bad outbox log) : Kept bad outbox (.began :: log) :=
  h.tell rfl (fun r hr => by cases hr) (fun e he => by cases he) fun hsend => by cases hsend

/-! ### A run's batch -/

/-- A batch is the oldest that is pending. -/
theorem Kept.batch (h : Kept bad outbox log) :
    Batch bad outbox log ((pendingEvents outbox).take relayBatch) {} where
  inOrder := (pairwise_pendingEvents h.nodup).sublist (List.take_sublist _ _)
  pending e he := mem_pendingEvents.mp (List.mem_of_mem_take he)
  covers e he _ := by
    have hsplit := List.take_append_drop relayBatch (pendingEvents outbox)
    have hmem := mem_pendingEvents.mpr he
    have hpair := pairwise_pendingEvents h.nodup
    rw [← hsplit] at hmem hpair
    rcases List.mem_append.mp hmem with hmem | hmem
    · exact .inl hmem
    · exact .inr fun d hd _ => (List.pairwise_append.mp hpair).2.2 d hd e hmem
  sent e he := absurd he List.not_mem_nil
  aside e he := absurd he List.not_mem_nil

/-- What else is told of a run changes nothing for its batch. -/
theorem Batch.tell (b : Batch bad outbox log rest run) (hrecord : ev.record? = none)
    (hadded : ev.added? = none) : Batch bad outbox (ev :: log) rest run where
  inOrder := b.inOrder
  pending := b.pending
  covers := b.covers
  sent e he := by
    rw [recordsIn, List.filterMap_cons_none hrecord]
    exact ⟨(b.sent e he).1, (b.sent e he).2.cons hrecord⟩
  aside := by
    rw [addedIn, List.filterMap_cons_none hadded]
    exact b.aside

/-- An event that is added comes after all of its key. -/
theorem Batch.add (b : Batch bad outbox log rest run) (h : Kept bad outbox log)
    (hnew : ∀ d ∈ addedIn log, d.id ≠ e.id ∧ (d.about e.topic e.key → d.before e)) :
    Batch bad (outbox ++ [({ e with } : OutboxRow π)]) (.added e :: log) rest run where
  inOrder := b.inOrder
  pending d hd := pending_add.mpr (.inl (b.pending d hd))
  covers x hx hgood := by
    rcases pending_add.mp hx with hx | rfl
    · exact b.covers x hx hgood
    · exact .inr fun d hd habout => (hnew d (h.added_of_pending (b.pending d hd))).2 habout
  sent d hd := ⟨(b.sent d hd).1, (b.sent d hd).2.cons rfl⟩
  aside d hd := ⟨List.mem_cons_of_mem e (b.aside d hd).1, (b.aside d hd).2⟩

/-- An event that can never be sent is set aside. -/
theorem Batch.skip (b : Batch bad outbox log (e :: rest) run) (h : Kept bad outbox log)
    (hbad : bad e = true) :
    Batch bad outbox log rest { run with parked := run.parked ++ [e] } := by
  have hsub : (run.published ++ rest).Sublist (run.published ++ e :: rest) :=
    (List.sublist_cons_self e rest).append_left run.published
  exact {
    inOrder := b.inOrder.sublist hsub
    pending := fun d hd => b.pending d (hsub.subset hd)
    covers := by
      intro x hx hgood
      rcases b.covers x hx hgood with hmem | hafter
      · left
        rcases List.mem_append.mp hmem with hmem | hmem
        · exact List.mem_append_left _ hmem
        · rcases List.mem_cons.mp hmem with rfl | hmem
          · rw [hgood] at hbad
            cases hbad
          · exact List.mem_append_right _ hmem
      · exact .inr fun d hd => hafter d (hsub.subset hd)
    sent := b.sent
    aside := by
      intro d hd
      rcases List.mem_append.mp hd with hd | hd
      · exact b.aside d hd
      · obtain rfl := List.mem_singleton.mp hd
        exact ⟨h.added_of_pending (b.pending d (by simp)), hbad⟩ }

/-- A batch that is broken off leaves what comes after. -/
theorem Batch.stop (b : Batch bad outbox log rest run) : Batch bad outbox log [] run := by
  have hsub : (run.published ++ []).Sublist (run.published ++ rest) :=
    (List.nil_sublist rest).append_left run.published
  exact {
    inOrder := b.inOrder.sublist hsub
    pending := fun d hd => b.pending d (hsub.subset hd)
    covers := by
      intro x hx hgood
      rcases b.covers x hx hgood with hmem | hafter
      · rcases List.mem_append.mp hmem with hmem | hmem
        · exact .inl (List.mem_append_left _ hmem)
        · right
          intro d hd _
          rw [List.append_nil] at hd
          exact (List.pairwise_append.mp b.inOrder).2.2 d hd x hmem
      · exact .inr fun d hd => hafter d (hsub.subset hd)
    sent := b.sent
    aside := b.aside }

/-- A record of the next event of a batch comes after those of the events before it. -/
theorem Batch.topped (b : Batch bad outbox log (r :: rest) run) (hev : ev.record? = some r)
    (hd : d ∈ run.published) : d ∈ recordsIn (ev :: log) ∧ Topped (ev :: log) d := by
  have hcons : recordsIn (ev :: log) = r :: recordsIn log := List.filterMap_cons_some hev
  refine ⟨hcons ▸ List.mem_cons_of_mem r (b.sent d hd).1, ?_⟩
  refine .record hev (.inr (b.sent d hd).2) fun _ => .inr ?_
  exact (List.pairwise_append.mp b.inOrder).2.2 d hd r List.mem_cons_self

/-- The next event is sent. -/
theorem Batch.send (b : Batch bad outbox log (e :: rest) run) :
    Batch bad outbox (.sent e :: log) rest { run with published := run.published ++ [e] } := by
  have hsame : run.published ++ [e] ++ rest = run.published ++ e :: rest := by simp
  exact {
    inOrder := by rw [hsame]; exact b.inOrder
    pending := by rw [hsame]; exact b.pending
    covers := by rw [hsame]; exact b.covers
    sent := by
      intro d hd
      rcases List.mem_append.mp hd with hd | hd
      · exact b.topped rfl hd
      · obtain rfl := List.mem_singleton.mp hd
        refine ⟨List.mem_cons_self, .record rfl (.inl ⟨rfl, rfl⟩) fun _ => .inl rfl⟩
    aside := b.aside }

/-- The next event is not sent, and the broker may have taken it. -/
theorem Batch.fail (b : Batch bad outbox log (e :: rest) run) (taken : Bool) :
    Batch bad outbox (.failed e taken :: log) [] run := by
  cases taken with
  | false => exact b.stop.tell rfl rfl
  | true => exact { b.stop with sent := fun d hd => b.topped rfl hd }

theorem Kept.tellSent (h : Kept bad outbox log) (b : Batch bad outbox log (e :: rest) run)
    (hgood : bad e = false) (hgoes : ∀ d ∈ lastRun log, d.isFailed = false) :
    Kept bad outbox (.sent e :: log) := by
  refine h.tell rfl (fun r hr => ?_) (fun d hd => by cases hd) fun _ => hgoes
  obtain rfl : e = r := Option.some.inj hr
  exact ⟨b.pending e (by simp), hgood⟩

theorem Kept.tellFailed (h : Kept bad outbox log) (b : Batch bad outbox log (e :: rest) run)
    {taken : Bool} (hgood : taken = true → bad e = false)
    (hgoes : ∀ d ∈ lastRun log, d.isFailed = false) :
    Kept bad outbox (.failed e taken :: log) := by
  refine h.tell rfl (fun r hr => ?_) (fun d hd => by cases hd) fun _ => hgoes
  cases taken with
  | false => cases hr
  | true =>
    obtain rfl : e = r := Option.some.inj hr
    exact ⟨b.pending e (by simp), hgood rfl⟩

/-- Marking what a run has sent. -/
theorem Kept.markPublished (h : Kept bad outbox log) (b : Batch bad outbox log [] run)
    (moment : ℤ) : Kept bad (markPublished moment run.published outbox) log := by
  have hids : ∀ row ∈ outbox, ∀ e ∈ run.published, row.id = e.id → row.toOutboxEvent = e := by
    intro row hrow e he hid
    exact h.eq_of_id (h.known row hrow) (h.sent e (b.sent e he).1).1 hid
  have hpending : ∀ e, Pending (AiraGateway.markPublished moment run.published outbox) e ↔
      Pending outbox e ∧ e ∉ run.published := fun e => pending_markPublished hids
  refine h.change ?_ ?_ ?_ (fun e he => ((hpending e).mp he).1) ?_
  · intro row' hrow'
    obtain ⟨row, hrow, rfl⟩ := List.mem_map.mp hrow'
    split_ifs
    · exact h.known row hrow
    · exact h.known row hrow
  · have hsame : ((AiraGateway.markPublished moment run.published outbox).map (·.id))
        = outbox.map (·.id) := by
      rw [AiraGateway.markPublished, List.map_map]
      refine List.map_congr_left fun row _ => ?_
      rw [Function.comp_apply]
      split_ifs <;> rfl
    rw [hsame]
    exact h.nodup
  · intro row' hrow' hsome
    obtain ⟨row, hrow, rfl⟩ := List.mem_map.mp hrow'
    split_ifs at hsome ⊢ with hid
    · obtain ⟨e, he, hid⟩ := List.mem_map.mp hid
      rw [hids row hrow e he hid.symm]
      exact (b.sent e he).1
    · exact h.marked row hrow hsome
  · intro d hwas hnow
    rw [hpending] at hnow
    have hd : d ∈ run.published := by
      by_contra hout
      exact hnow ⟨hwas, hout⟩
    refine .inr ⟨(b.sent d hd).1, (b.sent d hd).2, fun e he hgood habout => ?_⟩
    obtain ⟨he, hout⟩ := (hpending e).mp he
    rcases b.covers e he hgood with hmem | hafter
    · rw [List.append_nil] at hmem
      exact absurd hmem hout
    · exact hafter d (List.mem_append_left _ hd) habout

/-- Setting one event aside. -/
theorem Kept.markParked (h : Kept bad outbox log) (he : e ∈ addedIn log) (hbad : bad e = true)
    (moment : ℤ) : Kept bad (markParked moment e outbox) (.parked e :: log) := by
  have htold : Kept bad outbox (.parked e :: log) := by
    refine h.tell rfl (fun r hr => by cases hr) (fun d hd => ?_) fun hsend => by cases hsend
    obtain rfl : e = d := Option.some.inj hd
    exact ⟨he, hbad⟩
  have hids : ∀ row ∈ outbox, row.id = e.id → row.toOutboxEvent = e := fun row hrow =>
    h.eq_of_id (h.known row hrow) he
  have hpending : ∀ x, Pending (AiraGateway.markParked moment e outbox) x ↔
      Pending outbox x ∧ x ≠ e := fun x => pending_markParked hids
  have hrows : ∀ row' ∈ AiraGateway.markParked moment e outbox, ∃ row ∈ outbox,
      row.toOutboxEvent = row'.toOutboxEvent ∧ row.publishedAt = row'.publishedAt := by
    intro row' hrow'
    obtain ⟨row, hrow, rfl⟩ := List.mem_map.mp hrow'
    refine ⟨row, hrow, ?_⟩
    split_ifs <;> exact ⟨rfl, rfl⟩
  refine htold.change ?_ ?_ ?_ (fun x hx => ((hpending x).mp hx).1) ?_
  · intro row' hrow'
    obtain ⟨row, hrow, heq, -⟩ := hrows row' hrow'
    exact heq ▸ htold.known row hrow
  · have hsame : ((AiraGateway.markParked moment e outbox).map (·.id))
        = outbox.map (·.id) := by
      rw [AiraGateway.markParked, List.map_map]
      refine List.map_congr_left fun row _ => ?_
      rw [Function.comp_apply]
      split_ifs <;> rfl
    rw [hsame]
    exact h.nodup
  · intro row' hrow' hsome
    obtain ⟨row, hrow, heq, hpub⟩ := hrows row' hrow'
    rw [← heq]
    exact htold.marked row hrow (hpub ▸ hsome)
  · intro d hwas hnow
    rw [hpending] at hnow
    obtain rfl : d = e := by
      by_contra hne
      exact hnow ⟨hwas, hne⟩
    exact .inl List.mem_cons_self

end Keeps

/-- What every step keeps of the run it is in. -/
def PhaseKept (bad : OutboxEvent π → Bool) (outbox : List (OutboxRow π))
    (log : List (RelayEvent π)) : RelayPhase π → Prop
  | .idle | .sweeping _ => True
  | .sending rest run =>
    Batch bad outbox log rest run ∧ ∀ d ∈ lastRun log, d.isFailed = false
  | .stopped run => Batch bad outbox log [] run
  | .parking _ rest => ∀ e ∈ rest, e ∈ addedIn log ∧ bad e = true

/-- Adding an event changes nothing of the run that is going on. -/
theorem PhaseKept.add {bad : OutboxEvent π → Bool} {outbox : List (OutboxRow π)}
    {log : List (RelayEvent π)} {e : OutboxEvent π} {phase : RelayPhase π}
    (p : PhaseKept bad outbox log phase) (h : Kept bad outbox log)
    (hnew : ∀ d ∈ addedIn log, d.id ≠ e.id ∧ (d.about e.topic e.key → d.before e)) :
    PhaseKept bad (outbox ++ [({ e with } : OutboxRow π)]) (.added e :: log) phase := by
  cases phase with
  | idle => trivial
  | sweeping now => trivial
  | sending rest run => exact ⟨p.1.add h hnew, List.forall_mem_cons.mpr ⟨rfl, p.2⟩⟩
  | stopped run => exact Batch.add p h hnew
  | parking moment rest => exact fun d hd => ⟨List.mem_cons_of_mem e (p d hd).1, (p d hd).2⟩

namespace RelayWorld

section Step

variable {encodedSize : π → ℕ} {refuses : OutboxEvent π → Bool} {w w' : RelayWorld π}

variable (encodedSize refuses) in
/-- Everything a step can do. -/
inductive Moves (w : RelayWorld π) : RelayAct π → RelayWorld π → Prop
  | add (e : OutboxEvent π) : Moves w (.add e)
      { w with outbox := w.outbox ++ [{ e with }], log := .added e :: w.log }
  | start {now : ℤ} (hphase : w.phase = .idle) : Moves w (.start now)
      { w with outbox := sweepPublished now w.outbox, phase := .sweeping now }
  | loadNone {now : ℤ} (hphase : w.phase = .sweeping now) : Moves w .load
      { w with outbox := sweepParked now w.outbox, phase := .idle }
  | loadBatch {now : ℤ} (hphase : w.phase = .sweeping now) : Moves w .load
      { outbox := sweepParked now w.outbox
        phase := .sending ((pendingEvents (sweepParked now w.outbox)).take relayBatch) {}
        log := .began :: w.log }
  | sent {e : OutboxEvent π} {rest : List (OutboxEvent π)} {run : RelayRun π}
      (hphase : w.phase = .sending (e :: rest) run)
      (hgood : unsendable encodedSize refuses e = false) (outcome : SendOutcome) :
      Moves w (.send outcome)
        { w with
          phase := .sending rest { run with published := run.published ++ [e] }
          log := .sent e :: w.log }
  | setAside {e : OutboxEvent π} {rest : List (OutboxEvent π)} {run : RelayRun π}
      (hphase : w.phase = .sending (e :: rest) run)
      (hbad : unsendable encodedSize refuses e = true) (outcome : SendOutcome) :
      Moves w (.send outcome)
        { w with phase := .sending rest { run with parked := run.parked ++ [e] } }
  | failed {e : OutboxEvent π} {rest : List (OutboxEvent π)} {run : RelayRun π}
      (hphase : w.phase = .sending (e :: rest) run) {taken : Bool}
      (hgood : taken = true → unsendable encodedSize refuses e = false) :
      Moves w (.send (.failed taken))
        { w with phase := .stopped run, log := .failed e taken :: w.log }
  | mark {run : RelayRun π} (hphase : w.phase = .sending [] run ∨ w.phase = .stopped run)
      (moment : ℤ) : Moves w (.mark moment) (w.mark moment run)
  | park {moment : ℤ} {e : OutboxEvent π} {rest : List (OutboxEvent π)}
      (hphase : w.phase = .parking moment (e :: rest)) : Moves w .park
        { outbox := markParked moment e w.outbox
          phase := .parking moment rest
          log := .parked e :: w.log }
  | ends (a : RelayAct π) : Moves w a { w with phase := .idle }

theorem moves_of_send {e : OutboxEvent π} {rest : List (OutboxEvent π)} {run : RelayRun π}
    {outcome : SendOutcome} (hphase : w.phase = .sending (e :: rest) run)
    (h : w.send encodedSize refuses e rest run outcome = some w') :
    w.Moves encodedSize refuses (.send outcome) w' := by
  by_cases hsize : maxEventBytes < encodedSize e.payload
  · rw [send.eq_def, if_pos hsize] at h
    obtain rfl := Option.some.inj h
    exact .setAside hphase (by simp [unsendable, hsize]) outcome
  · rw [send.eq_def, if_neg hsize] at h
    cases outcome with
    | accepted =>
      by_cases hrefused : refuses e = true
      · simp [hrefused] at h
      · simp only [if_neg hrefused, Option.some.injEq] at h
        subst h
        exact .sent hphase (by simp [unsendable, hsize, hrefused]) _
    | refused =>
      by_cases hrefused : refuses e = true
      · simp only [if_pos hrefused, Option.some.injEq] at h
        subst h
        exact .setAside hphase (by simp [unsendable, hrefused]) _
      · simp [hrefused] at h
    | failed taken =>
      by_cases htaken : taken = true ∧ refuses e = true
      · simp [htaken] at h
      · simp only [if_neg htaken, Option.some.injEq] at h
        subst h
        refine .failed hphase fun htrue => ?_
        have hgood : refuses e ≠ true := fun hrefused => htaken ⟨htrue, hrefused⟩
        simp [unsendable, hsize, hgood]

theorem moves_of_step {a : RelayAct π} (h : w.step encodedSize refuses a = some w') :
    w.Moves encodedSize refuses a w' := by
  cases a with
  | add e =>
    obtain rfl := Option.some.inj h
    exact .add e
  | start now =>
    rw [step] at h
    split at h
    · next hphase =>
      obtain rfl := Option.some.inj h
      exact .start hphase
    · cases h
  | load =>
    rw [step] at h
    split at h
    · next now hphase =>
      simp only at h
      split at h
      · obtain rfl := Option.some.inj h
        exact .loadNone hphase
      · obtain rfl := Option.some.inj h
        exact .loadBatch hphase
    · cases h
  | send outcome =>
    rw [step] at h
    split at h
    · next hphase => exact moves_of_send hphase h
    · cases h
  | mark moment =>
    rw [step] at h
    split at h
    · next hphase =>
      obtain rfl := Option.some.inj h
      exact .mark (.inl hphase) moment
    · next hphase =>
      obtain rfl := Option.some.inj h
      exact .mark (.inr hphase) moment
    · cases h
  | park =>
    rw [step] at h
    split at h
    · next hphase =>
      obtain rfl := Option.some.inj h
      exact .park hphase
    · obtain rfl := Option.some.inj h
      exact .ends _
    · cases h
  | crash =>
    rw [step] at h
    split at h
    · cases h
    · obtain rfl := Option.some.inj h
      exact .ends _

variable (encodedSize refuses) in
/-- What every step keeps. -/
structure Keeps (w : RelayWorld π) : Prop where
  kept : Kept (unsendable encodedSize refuses) w.outbox w.log
  phase : PhaseKept (unsendable encodedSize refuses) w.outbox w.log w.phase

theorem keeps_start : Keeps encodedSize refuses ({} : RelayWorld π) where
  kept :=
    { known := fun row hrow => absurd hrow List.not_mem_nil
      nodup := .nil
      inOrder := .nil
      sent := fun e he => absurd he List.not_mem_nil
      aside := fun e he => absurd he List.not_mem_nil
      accounted := fun e he => absurd he List.not_mem_nil
      marked := fun row hrow => absurd hrow List.not_mem_nil
      stops := fun e before _ hsuffix => absurd (List.suffix_nil.mp hsuffix) (by simp)
      tops := fun d hd => absurd hd List.not_mem_nil
      settled := fun d hd => absurd hd List.not_mem_nil }
  phase := trivial

/-- What one step keeps. -/
theorem Keeps.step {a : RelayAct π} (h : w.Keeps encodedSize refuses) (hok : w.InOrder a)
    (hstep : w.step encodedSize refuses a = some w') : w'.Keeps encodedSize refuses := by
  obtain ⟨hkept, hrun⟩ := h
  cases moves_of_step hstep with
  | add e => exact ⟨hkept.add hok, hrun.add hkept hok⟩
  | start hphase => exact ⟨hkept.sweepPublished _, trivial⟩
  | loadNone hphase => exact ⟨hkept.sweepParked _, trivial⟩
  | @loadBatch now hphase =>
    have htold := (hkept.sweepParked now).tellBegan
    exact ⟨htold, htold.batch, fun d hd => absurd hd List.not_mem_nil⟩
  | sent hphase hgood outcome =>
    rw [hphase] at hrun
    obtain ⟨hbatch, hgoes⟩ := hrun
    exact ⟨hkept.tellSent hbatch hgood hgoes, hbatch.send, List.forall_mem_cons.mpr ⟨rfl, hgoes⟩⟩
  | setAside hphase hbad outcome =>
    rw [hphase] at hrun
    exact ⟨hkept, hrun.1.skip hkept hbad, hrun.2⟩
  | failed hphase hgood =>
    rw [hphase] at hrun
    obtain ⟨hbatch, hgoes⟩ := hrun
    exact ⟨hkept.tellFailed hbatch hgood hgoes, hbatch.fail _⟩
  | @mark run hphase moment =>
    have hbatch : Batch (unsendable encodedSize refuses) w.outbox w.log [] run := by
      rcases hphase with hphase | hphase
      · rw [hphase] at hrun
        exact hrun.1
      · rw [hphase] at hrun
        exact hrun
    exact ⟨hkept.markPublished hbatch moment, hbatch.aside⟩
  | park hphase =>
    rw [hphase] at hrun
    obtain ⟨hhead, hrest⟩ := List.forall_mem_cons.mp hrun
    exact ⟨hkept.markParked hhead.1 hhead.2 _, hrest⟩
  | ends => exact ⟨hkept, trivial⟩

/-- With nothing pending, the last record of a key is its last event that is not set aside. -/
theorem Keeps.ends [DecidableEq π] (h : w.Keeps encodedSize refuses)
    (hdone : ∀ row ∈ w.outbox, row.pending = false) (topic key : Text) :
    (recordsIn w.log).find? (·.about topic key)
      = (addedIn w.log).find? fun e => e.about topic key ∧ e ∉ parkedIn w.log := by
  have hsettled : ∀ e, ¬ Pending w.outbox e := by
    rintro e ⟨row, hrow, -, hpending⟩
    rw [hdone row hrow] at hpending
    cases hpending
  have hunparked : ∀ e ∈ recordsIn w.log, e ∉ parkedIn w.log := h.kept.unsent
  generalize hfound :
    ((addedIn w.log).find? fun e => e.about topic key ∧ e ∉ parkedIn w.log) = last
  rcases last with _ | d
  · rw [List.find?_eq_none] at hfound ⊢
    intro e he habout
    refine hfound e (h.kept.sent e he).1 ?_
    simpa using ⟨of_decide_eq_true habout, hunparked e he⟩
  · obtain ⟨hd, newer, older, hsplit, hnewer⟩ := List.find?_eq_some_iff_append.mp hfound
    obtain ⟨⟨rfl, rfl⟩, hkept⟩ : d.about topic key ∧ d ∉ parkedIn w.log := by simpa using hd
    have hmem : d ∈ addedIn w.log := by simp [hsplit]
    have hsent : d ∈ recordsIn w.log :=
      ((h.kept.accounted d hmem).resolve_left (hsettled d)).resolve_right hkept
    obtain ⟨r, hfind, hr⟩ := h.kept.tops d hmem (h.kept.sent d hsent).2 (hsettled d)
    rw [hfind]
    have hrmem : r ∈ recordsIn w.log := List.mem_of_find?_eq_some hfind
    have habout : r.about d.topic d.key := by simpa using List.find?_some hfind
    rcases hr with rfl | hbefore
    · rfl
    · -- an event that was added later would be the last
      exfalso
      have hradded := (h.kept.sent r hrmem).1
      have hpair := h.kept.inOrder
      rw [hsplit] at hradded hpair
      rcases List.mem_append.mp hradded with hnew | hold
      · have hnot := hnewer r hnew
        simp [habout, hunparked r hrmem] at hnot
      · rcases List.mem_cons.mp hold with rfl | hold
        · exact r.not_before_self hbefore
        · have hpairs := (List.pairwise_cons.mp (List.pairwise_append.mp hpair).2.1).1 r hold
          exact d.not_before_self (OutboxEvent.before_trans hbefore (hpairs.2 habout))

/-! ### Catching up -/

variable (encodedSize refuses) in
/-- Undisturbed steps lead from one state to the other. -/
def Leads (w w' : RelayWorld π) : Prop :=
  ∃ acts, Run (step encodedSize refuses) (fun _ a => a.undisturbed = true) w acts w'

theorem Leads.refl (w : RelayWorld π) : w.Leads encodedSize refuses w := ⟨[], .nil w⟩

theorem Leads.step {a : RelayAct π} {u : RelayWorld π} (ha : a.undisturbed = true)
    (hstep : w.step encodedSize refuses a = some u) (h : u.Leads encodedSize refuses w') :
    w.Leads encodedSize refuses w' := by
  obtain ⟨acts, hrun⟩ := h
  exact ⟨a :: acts, .cons ha hstep hrun⟩

theorem Leads.trans {u : RelayWorld π} (h : w.Leads encodedSize refuses u)
    (h' : u.Leads encodedSize refuses w') : w.Leads encodedSize refuses w' := by
  obtain ⟨acts, hrun⟩ := h
  obtain ⟨more, hrun'⟩ := h'
  exact ⟨acts ++ more, hrun.append hrun'⟩

theorem Keeps.quiet {a : RelayAct π} (h : w.Keeps encodedSize refuses)
    (ha : a.undisturbed = true) (hstep : w.step encodedSize refuses a = some w') :
    w'.Keeps encodedSize refuses := by
  refine h.step ?_ hstep
  cases a with
  | add e => cases ha
  | start | load | send | mark | park | crash => trivial

theorem Leads.keeps (h : w.Leads encodedSize refuses w') (hw : w.Keeps encodedSize refuses) :
    w'.Keeps encodedSize refuses := by
  obtain ⟨acts, hrun⟩ := h
  exact hrun.invariant (fun _ _ _ hs ha hstep => hs.quiet ha hstep) hw

/-- Everything set aside is marked so. -/
theorem leads_of_parking {moment : ℤ} {rest : List (OutboxEvent π)}
    (hw : w.Keeps encodedSize refuses) (hphase : w.phase = .parking moment rest) :
    ∃ w', w.Leads encodedSize refuses w' ∧ w'.phase = .idle ∧
      ∀ e, Pending w'.outbox e → Pending w.outbox e ∧ e ∉ rest := by
  induction rest generalizing w with
  | nil =>
    have hstep : w.step encodedSize refuses .park = some { w with phase := .idle } := by
      rw [RelayWorld.step, hphase]
    exact ⟨_, .step rfl hstep (.refl _), rfl, fun e he => ⟨he, List.not_mem_nil⟩⟩
  | cons d rest ih =>
    let next : RelayWorld π :=
      { outbox := markParked moment d w.outbox
        phase := .parking moment rest
        log := .parked d :: w.log }
    have hstep : w.step encodedSize refuses .park = some next := by
      rw [RelayWorld.step, hphase]
    have hphased := hw.phase
    rw [hphase] at hphased
    have hids : ∀ row ∈ w.outbox, row.id = d.id → row.toOutboxEvent = d := fun row hrow =>
      hw.kept.eq_of_id (hw.kept.known row hrow) (hphased d List.mem_cons_self).1
    obtain ⟨w', hleads, hidle, hless⟩ := ih (w := next) (hw.quiet rfl hstep) rfl
    refine ⟨w', hleads.step rfl hstep, hidle, fun e he => ?_⟩
    obtain ⟨hpending, hrest⟩ := hless e he
    obtain ⟨hpending, hne⟩ := (pending_markParked hids).mp hpending
    exact ⟨hpending, by simp [hne, hrest]⟩

/-- A run marks what it has sent, and sets aside the rest. -/
theorem leads_of_mark {run : RelayRun π} (hw : w.Keeps encodedSize refuses)
    (hphase : w.phase = .sending [] run ∨ w.phase = .stopped run) :
    ∃ w', w.Leads encodedSize refuses w' ∧ w'.phase = .idle ∧
      ∀ e, Pending w'.outbox e → Pending w.outbox e ∧ e ∉ run.published ∧ e ∉ run.parked := by
  have hstep : w.step encodedSize refuses (.mark 0) = some (w.mark 0 run) := by
    rcases hphase with hphase | hphase <;> rw [RelayWorld.step, hphase]
  have hbatch : Batch (unsendable encodedSize refuses) w.outbox w.log [] run := by
    have hphased := hw.phase
    rcases hphase with hphase | hphase
    · rw [hphase] at hphased
      exact hphased.1
    · rw [hphase] at hphased
      exact hphased
  have hids : ∀ row ∈ w.outbox, ∀ e ∈ run.published, row.id = e.id → row.toOutboxEvent = e :=
    fun row hrow e he =>
      hw.kept.eq_of_id (hw.kept.known row hrow) (hw.kept.sent e (hbatch.sent e he).1).1
  obtain ⟨w', hleads, hidle, hless⟩ := leads_of_parking (hw.quiet rfl hstep) rfl
  refine ⟨w', hleads.step rfl hstep, hidle, fun e he => ?_⟩
  obtain ⟨hpending, hparked⟩ := hless e he
  obtain ⟨hpending, hpublished⟩ := (pending_markPublished hids).mp hpending
  exact ⟨hpending, hpublished, hparked⟩

variable (encodedSize refuses) in
/-- One send ends as the broker has it, and deals with its event. -/
theorem exists_send {d : OutboxEvent π} {rest : List (OutboxEvent π)} {run : RelayRun π}
    (hphase : w.phase = .sending (d :: rest) run) :
    ∃ (a : RelayAct π) (u : RelayWorld π) (run' : RelayRun π), a.undisturbed = true ∧
      w.step encodedSize refuses a = some u ∧ u.phase = .sending rest run' ∧
      u.outbox = w.outbox ∧ ∀ e, e ∉ run'.published → e ∉ run'.parked →
        e ∉ run.published ∧ e ∉ run.parked ∧ e ≠ d := by
  by_cases hbad : unsendable encodedSize refuses d = true
  · refine ⟨.send .refused, { w with
      phase := .sending rest { run with parked := run.parked ++ [d] } }, _, rfl, ?_, rfl, rfl, ?_⟩
    · rw [RelayWorld.step, hphase]
      rw [unsendable, Bool.or_eq_true, decide_eq_true_eq] at hbad
      by_cases hsize : maxEventBytes < encodedSize d.payload
      · simp [send, hsize]
      · simp [send, hsize, hbad.resolve_left hsize]
    · intro e hpublished hparked
      rw [List.mem_append, List.mem_singleton, not_or] at hparked
      exact ⟨hpublished, hparked⟩
  · refine ⟨.send .accepted, { w with
      phase := .sending rest { run with published := run.published ++ [d] }
      log := .sent d :: w.log }, _, rfl, ?_, rfl, rfl, ?_⟩
    · rw [RelayWorld.step, hphase]
      rw [unsendable, Bool.or_eq_true, decide_eq_true_eq, not_or] at hbad
      simp [send, hbad.1, hbad.2]
    · intro e hpublished hparked
      rw [List.mem_append, List.mem_singleton, not_or] at hpublished
      exact ⟨hpublished.1, hparked, hpublished.2⟩

/-- A run deals with its whole batch. -/
theorem leads_of_sending {rest : List (OutboxEvent π)} {run : RelayRun π}
    (hw : w.Keeps encodedSize refuses) (hphase : w.phase = .sending rest run) :
    ∃ w', w.Leads encodedSize refuses w' ∧ w'.phase = .idle ∧
      ∀ e, Pending w'.outbox e →
        Pending w.outbox e ∧ e ∉ run.published ∧ e ∉ run.parked ∧ e ∉ rest := by
  induction rest generalizing w run with
  | nil =>
    obtain ⟨w', hleads, hidle, hless⟩ := leads_of_mark hw (.inl hphase)
    refine ⟨w', hleads, hidle, fun e he => ?_⟩
    obtain ⟨hpending, hpublished, hparked⟩ := hless e he
    exact ⟨hpending, hpublished, hparked, List.not_mem_nil⟩
  | cons d rest ih =>
    obtain ⟨outcome, u, run', hquiet, hstep, huphase, hubox, hdealt⟩ :=
      exists_send encodedSize refuses hphase
    obtain ⟨w', hleads, hidle, hless⟩ := ih (hw.quiet hquiet hstep) huphase
    refine ⟨w', hleads.step hquiet hstep, hidle, fun e he => ?_⟩
    obtain ⟨hpending, hpublished, hparked, hrest⟩ := hless e he
    obtain ⟨hpublished, hparked, hne⟩ := hdealt e hpublished hparked
    rw [hubox] at hpending
    exact ⟨hpending, hpublished, hparked, by simp [hne, hrest]⟩

/-- A run that has looked at the outbox deals with the oldest that is pending. -/
theorem leads_of_sweeping {now : ℤ} (hw : w.Keeps encodedSize refuses)
    (hphase : w.phase = .sweeping now) :
    ∃ w', w.Leads encodedSize refuses w' ∧ w'.phase = .idle ∧ ∀ e, Pending w'.outbox e →
      Pending w.outbox e ∧ e ∉ (pendingEvents (sweepParked now w.outbox)).take relayBatch := by
  rcases hbatch : (pendingEvents (sweepParked now w.outbox)).take relayBatch with _ | ⟨d, rest⟩
  · have hstep : w.step encodedSize refuses .load
        = some { w with outbox := sweepParked now w.outbox, phase := .idle } := by
      rw [RelayWorld.step, hphase]
      simp [hbatch]
    refine ⟨_, .step rfl hstep (.refl _), rfl, fun e he => ?_⟩
    exact ⟨pending_sweepParked.mp he, List.not_mem_nil⟩
  · have hstep : w.step encodedSize refuses .load = some {
        outbox := sweepParked now w.outbox
        phase := .sending (d :: rest) {}
        log := .began :: w.log } := by
      rw [RelayWorld.step, hphase]
      simp [hbatch]
    obtain ⟨w', hleads, hidle, hless⟩ := leads_of_sending (hw.quiet rfl hstep) rfl
    refine ⟨w', hleads.step rfl hstep, hidle, fun e he => ?_⟩
    obtain ⟨hpending, -, -, hrest⟩ := hless e he
    exact ⟨pending_sweepParked.mp hpending, hrest⟩

/-- Every run can come to its end. -/
theorem leads_to_idle (hw : w.Keeps encodedSize refuses) :
    ∃ w', w.Leads encodedSize refuses w' ∧ w'.phase = .idle ∧
      ∀ e, Pending w'.outbox e → Pending w.outbox e := by
  rcases hphase : w.phase with _ | now | ⟨rest, run⟩ | run | ⟨moment, rest⟩
  · exact ⟨w, .refl w, hphase, fun e he => he⟩
  · obtain ⟨w', hleads, hidle, hless⟩ := leads_of_sweeping hw hphase
    exact ⟨w', hleads, hidle, fun e he => (hless e he).1⟩
  · obtain ⟨w', hleads, hidle, hless⟩ := leads_of_sending hw hphase
    exact ⟨w', hleads, hidle, fun e he => (hless e he).1⟩
  · obtain ⟨w', hleads, hidle, hless⟩ := leads_of_mark hw (.inr hphase)
    exact ⟨w', hleads, hidle, fun e he => (hless e he).1⟩
  · obtain ⟨w', hleads, hidle, hless⟩ := leads_of_parking hw hphase
    exact ⟨w', hleads, hidle, fun e he => (hless e he).1⟩

/-- A run over what is pending leaves less of it. -/
theorem leads_to_less (hw : w.Keeps encodedSize refuses) (hphase : w.phase = .idle)
    {d : OutboxEvent π} {rest : List (OutboxEvent π)} (hd : pendingEvents w.outbox = d :: rest) :
    ∃ w', w.Leads encodedSize refuses w' ∧ w'.phase = .idle ∧
      (pendingEvents w'.outbox).length < (pendingEvents w.outbox).length := by
  let swept : RelayWorld π := { w with outbox := sweepPublished 0 w.outbox, phase := .sweeping 0 }
  have hstep : w.step encodedSize refuses (.start 0) = some swept := by
    rw [RelayWorld.step, hphase]
  have hswept : swept.Keeps encodedSize refuses := hw.quiet rfl hstep
  obtain ⟨w', hleads, hidle, hless⟩ := leads_of_sweeping hswept rfl
  have hkeeps := hleads.keeps hswept
  refine ⟨w', hleads.step rfl hstep, hidle, ?_⟩
  have hnodup : ∀ u : RelayWorld π, u.Keeps encodedSize refuses →
      (pendingEvents u.outbox).Nodup := by
    intro u hu
    refine (pairwise_pendingEvents hu.kept.nodup).imp ?_
    rintro a _ hbefore rfl
    exact a.not_before_self hbefore
  have hsub : ∀ e ∈ pendingEvents w'.outbox, e ∈ pendingEvents w.outbox ∧
      e ∉ (pendingEvents (sweepParked 0 swept.outbox)).take relayBatch := by
    intro e he
    obtain ⟨hwas, hout⟩ := hless e (mem_pendingEvents.mp he)
    exact ⟨mem_pendingEvents.mpr (pending_sweepPublished.mp hwas), hout⟩
  -- the first of the batch is dealt with
  have hfirst : ∃ e ∈ (pendingEvents (sweepParked 0 swept.outbox)).take relayBatch,
      e ∈ pendingEvents w.outbox := by
    have hsame : ∀ e, e ∈ pendingEvents (sweepParked 0 swept.outbox) ↔
        e ∈ pendingEvents w.outbox := by
      intro e
      rw [mem_pendingEvents, mem_pendingEvents, pending_sweepParked]
      exact pending_sweepPublished
    have hmem : d ∈ pendingEvents (sweepParked 0 swept.outbox) := by simp [hsame, hd]
    rcases hlist : pendingEvents (sweepParked 0 swept.outbox) with _ | ⟨e, more⟩
    · rw [hlist] at hmem
      exact absurd hmem List.not_mem_nil
    · exact ⟨e, List.mem_cons_self, (hsame e).mp (hlist ▸ List.mem_cons_self)⟩
  obtain ⟨e, hbatch, hwas⟩ := hfirst
  have hcons : (e :: pendingEvents w'.outbox).Nodup :=
    List.nodup_cons.mpr ⟨fun he => (hsub e he).2 hbatch, hnodup w' hkeeps⟩
  have hmem : e :: pendingEvents w'.outbox ⊆ pendingEvents w.outbox := by
    intro x hx
    rcases List.mem_cons.mp hx with rfl | hx
    · exact hwas
    · exact (hsub x hx).1
  have hle := (List.subperm_of_subset hcons hmem).length_le
  rwa [List.length_cons] at hle

/-- **Undisturbed runs catch up.** -/
theorem catches_up (hw : w.Keeps encodedSize refuses) :
    ∃ w', w.Leads encodedSize refuses w' ∧ ∀ e, ¬ Pending w'.outbox e := by
  obtain ⟨u, hleads, hidle, -⟩ := leads_to_idle hw
  have hu := hleads.keeps hw
  suffices hdone : ∃ w', u.Leads encodedSize refuses w' ∧ ∀ e, ¬ Pending w'.outbox e by
    obtain ⟨w', hmore, hnone⟩ := hdone
    exact ⟨w', hleads.trans hmore, hnone⟩
  clear hleads
  induction hn : (pendingEvents u.outbox).length using Nat.strong_induction_on generalizing u with
  | _ n ih =>
    rcases hpending : pendingEvents u.outbox with _ | ⟨d, rest⟩
    · refine ⟨u, .refl u, fun e he => ?_⟩
      rw [← mem_pendingEvents, hpending] at he
      exact absurd he List.not_mem_nil
    · obtain ⟨v, hless, hvidle, hlt⟩ := leads_to_less hu hidle hpending
      obtain ⟨w', hmore, hnone⟩ := ih _ (hn ▸ hlt) v hvidle (hless.keeps hu) rfl
      exact ⟨w', hless.trans hmore, hnone⟩

end Step

end RelayWorld

section Relay

variable {encodedSize : π → ℕ} {refuses : OutboxEvent π → Bool}

/-- **The relay delivers every event in order and ends on the last**, and it comes to the last:
undisturbed steps lead from every state to one in which nothing is pending. -/
theorem relay_delivers [DecidableEq π] {acts : List (RelayAct π)} {w : RelayWorld π}
    (h : Run (RelayWorld.step encodedSize refuses) RelayWorld.InOrder {} acts w) :
    w.Delivers ∧ ∃ more w',
      Run (RelayWorld.step encodedSize refuses) (fun _ a => a.undisturbed = true) w more w' ∧
        ∀ e, ¬ Pending w'.outbox e := by
  have hkeeps : w.Keeps encodedSize refuses :=
    h.invariant (fun _ _ _ hs hok hstep => hs.step hok hstep) RelayWorld.keeps_start
  obtain ⟨w', ⟨more, hrun⟩, hnone⟩ := RelayWorld.catches_up hkeeps
  refine ⟨?_, more, w', hrun, hnone⟩
  exact {
    accounted := hkeeps.kept.accounted
    marked := hkeeps.kept.marked
    unsent := fun e hparked hsent => hkeeps.kept.unsent e hsent hparked
    stops := hkeeps.kept.stops
    ends := hkeeps.ends }

end Relay

/-! ### A history -/

/-- Changes of one thing. The payload is its size, and the third is too large. -/
def changes (i : ℕ) : OutboxEvent ℕ :=
  { id := i, createdAt := 10 * i, topic := "aira.usecases", key := "k", eventType := "changed"
    payload := if i = 2 then 2000000 else 500 }

/-- A run is cut off after its first send, the next one fails at its second send though the broker
takes the record, and the third goes through. -/
def interruptedRuns : List (RelayAct ℕ) :=
  [.add (changes 0), .add (changes 1), .start 20, .load, .send .accepted, .crash,
    .start 30, .load, .send .accepted, .send (.failed true), .mark 31, .park,
    .add (changes 2), .start 40, .load, .send .accepted, .send .accepted, .mark 41, .park, .park,
    .start 3000000, .load]

/-- There are runs with every kind of step: the records of the key are repeated, and end on the
last that fits. -/
theorem relay_delivers_interrupted : ∃ w : RelayWorld ℕ,
    recordsIn w.log = [changes 1, changes 1, changes 0, changes 0] ∧ w.Delivers := by
  have hlog : (checkedRun (RelayWorld.step id fun _ => false) RelayWorld.InOrder {}
      interruptedRuns).map (recordsIn ·.log)
        = some [changes 1, changes 1, changes 0, changes 0] := by
    decide +kernel
  obtain ⟨w, hrun, hrecords⟩ := Option.map_eq_some_iff.mp hlog
  exact ⟨w, hrecords, (relay_delivers (run_of_checkedRun hrun)).1⟩

end AiraGateway
