import AiraGateway.Consumer.Convergence
import AiraGateway.Library.Bytes
import AiraGateway.Library.JsonRoundTrip

/-!
# The worker that applies configuration events

The worker is handed the messages of each topic in order, one at a time, and applies each in a
transaction of its own. What cannot be applied is skipped, whether by its own content or because the
database was away: one guard serves both. The client commits the position of what it handed over at
any later moment, and a restarted worker goes on from there.

* `careful_recovers`: in every run in which no message that could be applied is cut off by a failure
  from outside, and no restart takes one from the worker whose position is committed, a worker that
  has read to the end has what one that met no failure has, and what it left is refused by its own
  content.
* `outage_loses_revocation`: in an outage a key's revocation is skipped, and the key goes on working.
-/

namespace AiraGateway.Worker

/-! ### A message -/

/-- A message of a topic: its headers, and its value unless that is null. -/
structure Message where
  headers : List (Text × Option (List UInt8))
  value : Option (List UInt8)

def eventTypeHeader : Text := "event_type".toList

/-- The event a message says it is, if it carries a readable type. -/
def decodeEventType (headers : List (Text × Option (List UInt8))) : Option Text :=
  (headers.find? (·.1 = eventTypeHeader)).bind fun header => header.2.bind utf8Decode

/-- A message's value as the payload every handler reads: a JSON object. -/
def eventPayload (value : Option (List UInt8)) : Option (List (Text × Json)) := do
  let text ← utf8Decode (← value)
  match ← Json.loads text with
  | .obj members => some members
  | _ => none

/-- What a handler makes of the read-model at a moment, unless it raises for what the payload
holds. -/
abbrev Handler (ι σ : Type) := ι → σ → List (Text × Json) → Option σ

/-- What the database does while an event is applied: it answers throughout; it fails, at a
statement or the commit, and nothing is kept; or the commit is kept and its answer is lost. -/
inductive Database
  | answers
  | fails
  | keeps
  deriving DecidableEq, Repr

/-- How an attempt at a message ended: its change was kept, its own content was refused, or it was
cut off from outside and nothing was kept. -/
inductive Ending
  | applied
  | refused
  | cut
  deriving DecidableEq, Repr

section Message

variable {ι σ : Type} (handlers : Text → Option (Handler ι σ))

/-- Apply one message, and survive it if it cannot be applied: the event type that was applied, if
it was, and what is left in the database. -/
def applyOneMessage (database : Database) (now : ι) (model : σ) (message : Message) :
    Option Text × σ :=
  match decodeEventType message.headers with
  | none => (none, model)
  | some eventType =>
    match eventPayload message.value with
    | none => (none, model)
    | some payload =>
      match handlers eventType with
      -- an unknown type is tolerated, and asks nothing of the database
      | none => (some eventType, model)
      | some handler =>
        match handler now model payload, database with
        | none, _ => (none, model)
        | some applied, .answers => (some eventType, applied)
        | some applied, .keeps => (none, applied)
        | some _, .fails => (none, model)

/-- A message that is not applied where the database answers is refused by its own content. -/
def ending (database : Database) (now : ι) (model : σ) (message : Message) : Ending :=
  if (applyOneMessage handlers .answers now model message).1 = none then .refused
  else if database = .fails ∧ (applyOneMessage handlers database now model message).1 = none then
    .cut
  else .applied

/-- **An attempt that is not cut off** leaves what it would have left had the database answered. -/
theorem applyOneMessage_of_ending {database : Database} {now : ι} {model : σ} {message : Message}
    (h : ending handlers database now model message ≠ .cut) :
    (applyOneMessage handlers database now model message).2
      = (applyOneMessage handlers .answers now model message).2 := by
  cases htype : decodeEventType message.headers with
  | none => simp only [applyOneMessage, htype]
  | some eventType =>
    cases hpayload : eventPayload message.value with
    | none => simp only [applyOneMessage, htype, hpayload]
    | some payload =>
      cases hhandler : handlers eventType with
      | none => simp only [applyOneMessage, htype, hpayload, hhandler]
      | some handler =>
        cases hchange : handler now model payload with
        | none => simp only [applyOneMessage, htype, hpayload, hhandler, hchange]
        | some applied =>
          cases database with
          | answers => rfl
          | keeps => simp only [applyOneMessage, htype, hpayload, hhandler, hchange]
          | fails =>
            refine absurd ?_ h
            simp [ending, applyOneMessage, htype, hpayload, hhandler, hchange]

theorem ending_answers (now : ι) (model : σ) (message : Message) :
    ending handlers .answers now model message ≠ .cut := by
  rw [ending]
  split
  · exact fun h => Ending.noConfusion h
  · rw [if_neg (by simp)]
    exact fun h => Ending.noConfusion h

end Message

/-! ### The worker -/

structure Attempt (τ : Type) where
  topic : τ
  offset : ℕ
  ending : Ending
  deriving DecidableEq

/-- The worker with its client and its database. The attempts are what happened so far. -/
structure World (τ σ : Type) where
  /-- How much of each topic this worker has been handed. -/
  position : τ → ℕ
  committed : τ → ℕ
  /-- The topic whose last message is being applied. -/
  inHand : Option τ := none
  model : σ
  attempts : List (Attempt τ) := []

inductive Act (τ ι : Type)
  | hand (topic : τ)
  | finish (database : Database) (now : ι)
  | commit (topic : τ) (position : ℕ)
  /-- A stop and a start again. What was in hand is taken away, its change kept or not. -/
  | restart (kept : Option ι)

section Worker

variable {τ ι σ : Type} [DecidableEq τ]
  (handlers : Text → Option (Handler ι σ)) (logs : τ → List Message)

def World.start (model : σ) : World τ σ where
  position := fun _ => 0
  committed := fun _ => 0
  model := model

/-- The message in hand, of a topic. -/
def World.message (w : World τ σ) (topic : τ) : Option Message :=
  (logs topic)[w.position topic - 1]?

/-- What is left after an attempt at the message in hand. -/
def World.after (w : World τ σ) (topic : τ) (ending : Ending) (model : σ) : World τ σ :=
  { w with
    inHand := none
    model := model
    attempts := w.attempts ++ [⟨topic, w.position topic - 1, ending⟩] }

/-- The worker goes on from what was committed. -/
def World.restarted (w : World τ σ) : World τ σ :=
  { w with position := w.committed, inHand := none }

def step (w : World τ σ) : Act τ ι → Option (World τ σ)
  | .hand topic =>
    if w.inHand = none ∧ w.position topic < (logs topic).length then
      some { w with
        position := Function.update w.position topic (w.position topic + 1)
        inHand := some topic }
    else none
  | .finish database now =>
    w.inHand.bind fun topic => (w.message logs topic).map fun message =>
      w.after topic (ending handlers database now w.model message)
        (applyOneMessage handlers database now w.model message).2
  | .commit topic position =>
    if w.committed topic ≤ position ∧ position ≤ w.position topic then
      some { w with committed := Function.update w.committed topic position }
    else none
  | .restart kept =>
    match w.inHand, kept with
    | none, none => some w.restarted
    | none, some _ => none
    | some topic, none => some (w.after topic .cut w.model).restarted
    | some topic, some now =>
      (w.message logs topic).map fun message =>
        (w.after topic (ending handlers .answers now w.model message)
          (applyOneMessage handlers .answers now w.model message).2).restarted

/-- Everything has been handed over and none is in hand. -/
def ReadToEnd (w : World τ σ) : Prop :=
  w.inHand = none ∧ ∀ topic, w.position topic = (logs topic).length

/-- A step without a failure: the database answers, and a restart takes nothing from the worker. -/
def Unfailing (w : World τ σ) : Act τ ι → Prop
  | .finish database _ => database = .answers
  | .restart _ => w.inHand = none
  | _ => True

/-- A step that passes over nothing: an attempt is not cut off from outside, and what a restart takes
from the worker is handed over again. -/
def Careful (w : World τ σ) : Act τ ι → Prop
  | .finish database now => ∀ topic message, w.inHand = some topic →
      w.message logs topic = some message → ending handlers database now w.model message ≠ .cut
  | .restart none => ∀ topic, w.inHand = some topic → w.committed topic < w.position topic
  | _ => True

/-- What an outage leaves as it would have been: the read-model is one that a worker without a
failure has after reading to the end, and of every message an attempt was kept or refused by its own
content. -/
structure Recovered (model : σ) (w : World τ σ) : Prop where
  model : ∃ acts v, Run (step handlers logs) (@Unfailing τ ι σ) (World.start model) acts v ∧
    ReadToEnd logs v ∧ v.model = w.model
  attempted : ∀ topic offset, offset < (logs topic).length → ∃ a ∈ w.attempts,
    a.topic = topic ∧ a.offset = offset ∧ a.ending ≠ .cut

variable {handlers logs} {w w' : World τ σ} {a : Act τ ι}

omit [DecidableEq τ] in
theorem after_model (topic : τ) (ending : Ending) (model : σ) :
    (w.after topic ending model).model = model := rfl

/-- What each step does, said once. -/
theorem step_cases (h : step handlers logs w a = some w') :
    (∃ topic, a = .hand topic ∧ w.inHand = none ∧ w.position topic < (logs topic).length ∧
      w' = { w with
        position := Function.update w.position topic (w.position topic + 1)
        inHand := some topic }) ∨
    (∃ database now topic message, a = .finish database now ∧ w.inHand = some topic ∧
      w.message logs topic = some message ∧
      w' = w.after topic (ending handlers database now w.model message)
        (applyOneMessage handlers database now w.model message).2) ∨
    (∃ topic position, a = .commit topic position ∧ w.committed topic ≤ position ∧
      position ≤ w.position topic ∧
      w' = { w with committed := Function.update w.committed topic position }) ∨
    (a = .restart none ∧ w.inHand = none ∧ w' = w.restarted) ∨
    (∃ topic, a = .restart none ∧ w.inHand = some topic ∧
      w' = (w.after topic .cut w.model).restarted) ∨
    ∃ now topic message, a = .restart (some now) ∧ w.inHand = some topic ∧
      w.message logs topic = some message ∧
      w' = (w.after topic (ending handlers .answers now w.model message)
        (applyOneMessage handlers .answers now w.model message).2).restarted := by
  cases a with
  | hand topic =>
    simp only [step] at h
    split_ifs at h with hfree
    exact .inl ⟨topic, rfl, hfree.1, hfree.2, (Option.some.inj h).symm⟩
  | finish database now =>
    obtain ⟨topic, htopic, hmap⟩ := Option.bind_eq_some_iff.mp h
    obtain ⟨message, hmessage, heq⟩ := Option.map_eq_some_iff.mp hmap
    exact .inr (.inl ⟨database, now, topic, message, rfl, htopic, hmessage, heq.symm⟩)
  | commit topic position =>
    simp only [step] at h
    split_ifs at h with hbetween
    exact .inr (.inr (.inl ⟨topic, position, rfl, hbetween.1, hbetween.2,
      (Option.some.inj h).symm⟩))
  | restart kept =>
    simp only [step] at h
    split at h
    · next hfree => exact .inr (.inr (.inr (.inl ⟨rfl, hfree, (Option.some.inj h).symm⟩)))
    · cases h
    · next topic htopic =>
      exact .inr (.inr (.inr (.inr (.inl ⟨topic, rfl, htopic, (Option.some.inj h).symm⟩))))
    · next topic now htopic =>
      obtain ⟨message, hmessage, heq⟩ := Option.map_eq_some_iff.mp h
      exact .inr (.inr (.inr (.inr (.inr ⟨now, topic, message, rfl, htopic, hmessage, heq.symm⟩))))

/-- What has been handed over, committed and is in hand. -/
structure Sound (logs : τ → List Message) (w : World τ σ) : Prop where
  committed : ∀ topic, w.committed topic ≤ w.position topic
  position : ∀ topic, w.position topic ≤ (logs topic).length
  inHand : ∀ topic, w.inHand = some topic → 0 < w.position topic
  /-- Everything before what is in hand was attempted. -/
  attempted : ∀ topic offset, offset < w.position topic →
    (w.inHand = some topic → offset + 1 < w.position topic) → ∃ a ∈ w.attempts,
      a.topic = topic ∧ a.offset = offset ∧ a.ending ≠ .cut

/-- An attempt that is not cut off leaves a worker that has passed over nothing. -/
theorem Sound.after (hw : Sound logs w) {topic : τ} (htopic : w.inHand = some topic)
    {ending : Ending} (hending : ending ≠ .cut) (model : σ) :
    Sound logs (w.after topic ending model) where
  committed := hw.committed
  position := hw.position
  inHand other hother := absurd hother (Option.some_ne_none other).symm
  attempted other offset hoffset _ := by
    have hoffset' : offset < w.position other := hoffset
    by_cases hlast : other = topic ∧ offset + 1 = w.position topic
    · obtain ⟨rfl, hlast⟩ := hlast
      refine ⟨_, List.mem_append_right _ (List.mem_singleton_self _), rfl, ?_, hending⟩
      change w.position other - 1 = offset
      omega
    · obtain ⟨a, ha, hat⟩ := hw.attempted other offset hoffset' fun hother => by
        have hsame : other = topic := Option.some.inj (hother.symm.trans htopic)
        rw [hsame] at hoffset' ⊢
        have hne : ¬offset + 1 = w.position topic := fun heq => hlast ⟨hsame, heq⟩
        omega
      exact ⟨a, List.mem_append_left _ ha, hat⟩

omit [DecidableEq τ] in
theorem Sound.restarted (hw : Sound logs w) (hfree : w.inHand = none) :
    Sound logs w.restarted where
  committed topic := le_refl _
  position topic := (hw.committed topic).trans (hw.position topic)
  inHand topic htopic := absurd htopic (Option.some_ne_none topic).symm
  attempted topic offset hoffset _ :=
    hw.attempted topic offset (hoffset.trans_le (hw.committed topic)) fun htopic => by
      rw [hfree] at htopic
      exact absurd htopic (Option.some_ne_none topic).symm

theorem Sound.step (hw : Sound logs w) (hcareful : Careful handlers logs w a)
    (h : Worker.step handlers logs w a = some w') : Sound logs w' := by
  obtain ⟨topic, rfl, hfree, hmore, rfl⟩ |
    ⟨database, now, topic, message, rfl, htopic, hmessage, rfl⟩ |
    ⟨topic, position, rfl, hfrom, hto, rfl⟩ | ⟨rfl, hfree, rfl⟩ | ⟨topic, rfl, htopic, rfl⟩ |
    ⟨now, topic, message, rfl, htopic, hmessage, rfl⟩ := step_cases h
  · refine ⟨fun other => ?_, fun other => ?_, fun other hother => ?_,
      fun other offset hoffset hlast => ?_⟩
    · have hcommitted := hw.committed other
      simp only [Function.update_apply]
      split
      · next heq => rw [heq] at hcommitted ⊢; omega
      · exact hcommitted
    · have hposition := hw.position other
      simp only [Function.update_apply]
      split
      · next heq => rw [heq]; omega
      · exact hposition
    · rw [← Option.some.inj hother]
      simp
    · refine hw.attempted other offset ?_ (by rw [hfree]; exact fun h => absurd h (Option.some_ne_none other).symm)
      by_cases heq : other = topic
      · have hless := hlast (congrArg some heq.symm)
        simp only [heq, Function.update_self] at hless ⊢
        omega
      · simpa only [Function.update_of_ne heq] using hoffset
  · exact hw.after htopic (hcareful topic message htopic hmessage) _
  · refine ⟨fun other => ?_, hw.position, hw.inHand, hw.attempted⟩
    simp only [Function.update_apply]
    split
    · next heq => rw [heq]; exact hto
    · exact hw.committed other
  · exact hw.restarted hfree
  · refine ⟨fun other => le_refl _, fun other => (hw.committed other).trans (hw.position other),
      fun other hother => absurd hother (Option.some_ne_none other).symm, fun other offset hoffset _ => ?_⟩
    have hoffset' : offset < w.committed other := hoffset
    have hcommitted := hw.committed other
    obtain ⟨a, ha, hat⟩ := hw.attempted other offset (hoffset'.trans_le hcommitted) fun hother => by
      have hbehind := hcareful other hother
      omega
    exact ⟨a, List.mem_append_left _ ha, hat⟩
  · exact (hw.after htopic (ending_answers handlers now w.model message) _).restarted rfl

/-! ### A worker without a failure -/

/-- The worker without the message in hand. -/
def World.settled (w : World τ σ) : World τ σ :=
  match w.inHand with
  | none => w
  | some topic =>
    { w with
      position := Function.update w.position topic (w.position topic - 1)
      committed := Function.update w.committed topic
        (min (w.committed topic) (w.position topic - 1))
      inHand := none }

/-- The same but for what happened. -/
structure Agrees (v w : World τ σ) : Prop where
  position : v.position = w.position
  committed : v.committed = w.committed
  inHand : v.inHand = w.inHand
  model : v.model = w.model

/-- A worker without a failure applies its next message and commits. -/
theorem exists_applied {v : World τ σ} (hfree : v.inHand = none) {topic : τ} {message : Message}
    (hmessage : (logs topic)[v.position topic]? = some message) (now : ι) (position : ℕ)
    (hfrom : v.committed topic ≤ position) (hto : position ≤ v.position topic + 1) :
    ∃ acts v', Run (Worker.step handlers logs) (@Unfailing τ ι σ) v acts v' ∧ Agrees v'
      { v with
        position := Function.update v.position topic (v.position topic + 1)
        committed := Function.update v.committed topic position
        model := (applyOneMessage handlers .answers now v.model message).2 } := by
  have hmore : v.position topic < (logs topic).length := (List.getElem?_eq_some_iff.mp hmessage).1
  have hhand : Worker.step handlers logs v (.hand topic) = some { v with
      position := Function.update v.position topic (v.position topic + 1)
      inHand := some topic } := by
    simp only [Worker.step]
    rw [if_pos ⟨hfree, hmore⟩]
  let handed : World τ σ := { v with
    position := Function.update v.position topic (v.position topic + 1)
    inHand := some topic }
  let applied := handed.after topic (ending handlers .answers now v.model message)
    (applyOneMessage handlers .answers now v.model message).2
  have hfinish : Worker.step handlers logs handed (.finish .answers now) = some applied := by
    have hin : handed.message logs topic = some message := by
      rw [World.message, ← hmessage]
      simp [handed]
    simp only [Worker.step]
    exact congrArg (Option.map _) hin
  have hcommit : Worker.step handlers logs applied (.commit topic position) = some { applied with
      committed := Function.update v.committed topic position } := by
    have hbound : position ≤ applied.position topic := by
      simpa [applied, handed, World.after] using hto
    simp only [Worker.step]
    exact if_pos ⟨hfrom, hbound⟩
  refine ⟨[.hand topic, .finish .answers now, .commit topic position], _,
    .cons trivial hhand (.cons rfl hfinish (.cons trivial hcommit (.nil _))), ?_⟩
  exact ⟨rfl, rfl, hfree.symm, rfl⟩

omit [DecidableEq τ] in
theorem Agrees.trans {u v w : World τ σ} (h : Agrees u v) (h' : Agrees v w) : Agrees u w :=
  ⟨h.position.trans h'.position, h.committed.trans h'.committed, h.inHand.trans h'.inHand,
    h.model.trans h'.model⟩

theorem settled_of_free (hfree : w.inHand = none) : w.settled = w := by
  rw [World.settled, hfree]

theorem settled_of_inHand {topic : τ} (htopic : w.inHand = some topic) : w.settled = { w with
    position := Function.update w.position topic (w.position topic - 1)
    committed := Function.update w.committed topic
      (min (w.committed topic) (w.position topic - 1))
    inHand := none } := by
  rw [World.settled, htopic]

/-- **A worker without a failure keeps up** with one that passes over nothing, but for the message in
its hand. -/
theorem exists_unfailing {model : σ} {v : World τ σ} {acts : List (Act τ ι)} (hw : Sound logs w)
    (run : Run (Worker.step handlers logs) (@Unfailing τ ι σ) (World.start model) acts v)
    (hv : Agrees v w.settled) (hcareful : Careful handlers logs w a)
    (h : Worker.step handlers logs w a = some w') :
    ∃ acts' v', Run (Worker.step handlers logs) (@Unfailing τ ι σ) (World.start model) acts' v' ∧
      Agrees v' w'.settled := by
  -- what a worker without a failure does with the message in hand, whatever became of it
  have hkept : ∀ topic message now, w.inHand = some topic → w.message logs topic = some message →
      ∃ acts' v', Run (Worker.step handlers logs) (@Unfailing τ ι σ) (World.start model) acts' v' ∧
        Agrees v' (w.after topic .applied
          (applyOneMessage handlers .answers now w.model message).2) := by
    intro topic message now htopic hmessage
    rw [settled_of_inHand htopic] at hv
    have hpositive := hw.inHand topic htopic
    have hcommitted := hw.committed topic
    have hvposition : v.position = Function.update w.position topic (w.position topic - 1) :=
      hv.position
    have hvcommitted : v.committed = Function.update w.committed topic
        (min (w.committed topic) (w.position topic - 1)) := hv.committed
    have hposition : v.position topic = w.position topic - 1 := by
      rw [hvposition, Function.update_self]
    have hbehind : v.committed topic ≤ w.committed topic := by
      rw [hvcommitted, Function.update_self]
      exact min_le_left _ _
    obtain ⟨more, v', hrun, hagrees⟩ := @exists_applied τ ι σ _ handlers logs v hv.inHand topic
      message (by rw [hposition]; exact hmessage) now (w.committed topic) hbehind (by omega)
    refine ⟨acts ++ more, v', run.append hrun, hagrees.trans ⟨?_, ?_, hv.inHand, ?_⟩⟩
    · have hback : w.position topic - 1 + 1 = w.position topic := by omega
      simp only [hposition, hback, hvposition, Function.update_idem, Function.update_eq_self]
      rfl
    · simp only [hvcommitted, Function.update_idem, Function.update_eq_self]
      rfl
    · rw [hv.model]
      rfl
  obtain ⟨topic, rfl, hfree, hmore, rfl⟩ |
    ⟨database, now, topic, message, rfl, htopic, hmessage, rfl⟩ |
    ⟨topic, position, rfl, hfrom, hto, rfl⟩ | ⟨rfl, hfree, rfl⟩ | ⟨topic, rfl, htopic, rfl⟩ |
    ⟨now, topic, message, rfl, htopic, hmessage, rfl⟩ := step_cases h
  · -- handed over, and not applied yet
    rw [settled_of_free hfree] at hv
    have hcommitted := hw.committed topic
    refine ⟨acts, v, run, hv.trans ?_⟩
    rw [settled_of_inHand rfl]
    refine ⟨?_, ?_, hfree, rfl⟩
    · simp
    · simp [hcommitted]
  · obtain ⟨acts', v', hrun, hagrees⟩ := hkept topic message now htopic hmessage
    have hending := hcareful topic message htopic hmessage
    refine ⟨acts', v', hrun, hagrees.trans ?_⟩
    rw [settled_of_free rfl]
    exact ⟨rfl, rfl, rfl, (applyOneMessage_of_ending handlers hending).symm⟩
  · -- committed up to what is in hand at most
    cases hhand : w.inHand with
    | none =>
      rw [settled_of_free hhand] at hv
      have hcommit : Worker.step handlers logs v (.commit topic position) = some { v with
          committed := Function.update v.committed topic position } := by
        simp only [Worker.step]
        exact if_pos ⟨hv.committed ▸ hfrom, hv.position ▸ hto⟩
      refine ⟨acts ++ [.commit topic position], _,
        run.append (.cons (a := Act.commit topic position) trivial hcommit (.nil _)), ?_⟩
      rw [settled_of_free rfl]
      exact ⟨hv.position, congrArg (Function.update · topic position) hv.committed,
        hv.inHand.trans hhand, hv.model⟩
    | some held =>
      rw [settled_of_inHand hhand] at hv
      have hvposition : v.position = Function.update w.position held (w.position held - 1) :=
        hv.position
      have hvcommitted : v.committed = Function.update w.committed held
          (min (w.committed held) (w.position held - 1)) := hv.committed
      -- what is committed of the topic without what is in hand
      obtain ⟨reached, hreached, hbelow, hafter⟩ : ∃ reached, v.committed topic ≤ reached ∧
          reached ≤ v.position topic ∧ Function.update v.committed topic reached
            = Function.update (Function.update w.committed topic position) held
              (min (Function.update w.committed topic position held) (w.position held - 1)) := by
        rw [hvposition, hvcommitted]
        by_cases heq : topic = held
        · subst heq
          refine ⟨min position (w.position topic - 1), ?_, ?_, ?_⟩
          · simp only [Function.update_self]
            omega
          · simp only [Function.update_self]
            omega
          · simp only [Function.update_self, Function.update_idem]
        · refine ⟨position, ?_, ?_, ?_⟩
          · rwa [Function.update_of_ne heq]
          · rwa [Function.update_of_ne heq]
          · rw [Function.update_of_ne (Ne.symm heq), Function.update_comm heq]
      have hcommit : Worker.step handlers logs v (.commit topic reached) = some { v with
          committed := Function.update v.committed topic reached } := by
        simp only [Worker.step]
        exact if_pos ⟨hreached, hbelow⟩
      refine ⟨acts ++ [.commit topic reached], _,
        run.append (.cons (a := Act.commit topic reached) trivial hcommit (.nil _)), ?_⟩
      rw [settled_of_inHand rfl]
      exact ⟨hvposition, hafter, hv.inHand, hv.model⟩
  · rw [settled_of_free hfree] at hv
    have hrestart : Worker.step handlers logs v (.restart none) = some v.restarted := by
      simp only [Worker.step, hv.inHand, hfree]
    refine ⟨acts ++ [.restart none], v.restarted,
      run.append (.cons (a := Act.restart none) (hv.inHand.trans hfree) hrestart (.nil _)), ?_⟩
    rw [settled_of_free rfl]
    exact ⟨hv.committed, hv.committed, rfl, hv.model⟩
  · -- what was in hand is handed over again
    have hbehind := hcareful topic htopic
    rw [settled_of_inHand htopic] at hv
    have hcommitted : v.committed = w.committed := by
      refine hv.committed.trans ?_
      rw [min_eq_left (by omega), Function.update_eq_self]
    have hrestart : Worker.step handlers logs v (.restart none) = some v.restarted := by
      simp only [Worker.step, hv.inHand]
    refine ⟨acts ++ [.restart none], v.restarted,
      run.append (.cons (a := Act.restart none) hv.inHand hrestart (.nil _)), ?_⟩
    rw [settled_of_free rfl]
    exact ⟨hcommitted, hcommitted, rfl, hv.model⟩
  · obtain ⟨acts', v', hrun, hagrees⟩ := hkept topic message now htopic hmessage
    have hrestart : Worker.step handlers logs v' (.restart none) = some v'.restarted := by
      simp only [Worker.step, hagrees.inHand, World.after]
    refine ⟨acts' ++ [.restart none], v'.restarted,
      hrun.append (.cons (a := Act.restart none) hagrees.inHand hrestart (.nil _)), ?_⟩
    rw [settled_of_free rfl]
    exact ⟨hagrees.committed, hagrees.committed, rfl, hagrees.model⟩

end Worker

/-! ### A revocation in an outage -/

section Outage

/-- The handler of revocations, among those of the read-model. -/
def revoking (eventType : Text) : Option (Handler Moment ReadModel) :=
  if eventType = "api_key.revoked".toList then
    some fun now model payload =>
      match dictGet payload "prefix".toList with
      | some (.str pfx) => some (applyEvent now model (.apiKeyRevoked pfx))
      | _ => none
  else none

def revocation : Message where
  headers := [(eventTypeHeader, some (utf8Encode "api_key.revoked".toList))]
  value := some (utf8Encode (Json.dumps (.obj [("prefix".toList, .str "k".toList)])))

def activeKey : ApiKey where
  keyHash := "h".toList
  subject := "s".toList
  issuedBy := none
  useCase := none
  label := none
  isActive := true
  expiresAt := none

/-- A read-model with one key, and that active. -/
def oneKey : ReadModel where
  apiKeys := Table.empty.upsert "k".toList activeKey id

theorem oneKey_apiKeys : oneKey.apiKeys "k".toList = some activeKey := by
  change Table.empty.upsert "k".toList activeKey id "k".toList = some activeKey
  rw [Table.upsert_self]
  rfl

theorem applyOneMessage_revocation (database : Database) (now : Moment) (model : ReadModel) :
    applyOneMessage revoking database now model revocation = match database with
      | .answers => (some "api_key.revoked".toList,
          applyEvent now model (.apiKeyRevoked "k".toList))
      | .keeps => (none, applyEvent now model (.apiKeyRevoked "k".toList))
      | .fails => (none, model) := by
  have htype : decodeEventType revocation.headers = some "api_key.revoked".toList :=
    utf8Decode_utf8Encode "api_key.revoked".toList
  have hpayload : eventPayload revocation.value
      = some [("prefix".toList, Json.str "k".toList)] := by
    have hload : Json.loads (Json.dumps (.obj [("prefix".toList, .str "k".toList)]))
        = some (.obj [("prefix".toList, .str "k".toList)]) :=
      Json.loads_dumps ⟨by decide, trivial, trivial⟩
    rw [revocation, eventPayload]
    simp only [Option.bind_eq_bind, Option.bind_some, utf8Decode_utf8Encode, hload]
  have hhandler : revoking "api_key.revoked".toList = some fun now model payload =>
      match dictGet payload "prefix".toList with
      | some (.str pfx) => some (applyEvent now model (.apiKeyRevoked pfx))
      | _ => none := if_pos rfl
  have hkey : dictGet [("prefix".toList, Json.str "k".toList)] "prefix".toList
      = some (.str "k".toList) := by decide
  simp only [applyOneMessage, htype, hpayload, hhandler, hkey]
  cases database with
  | answers => rfl
  | fails => rfl
  | keeps => rfl

/-- A worker without a failure revokes the key. -/
theorem deactivated_of_unfailing {acts : List (Act Unit Moment)} {v : World Unit ReadModel}
    (run : Run (step revoking fun _ => [revocation]) (@Unfailing Unit Moment ReadModel)
      (World.start oneKey) acts v) (hend : ReadToEnd (fun _ => [revocation]) v) :
    Deactivated "k".toList v.model := by
  -- until it is in hand for the first time nothing has been handed over or committed
  have hrevoked : Deactivated "k".toList v.model ∨ v.model = oneKey ∧ (v.inHand = some () ∨
      v.inHand = none ∧ v.position () = 0 ∧ v.committed () = 0) := by
    refine run.invariant (P := fun w => Deactivated "k".toList w.model ∨ w.model = oneKey ∧
      (w.inHand = some () ∨ w.inHand = none ∧ w.position () = 0 ∧ w.committed () = 0))
      (fun w a w' hw hunfailing h => ?_) (.inr ⟨rfl, .inr ⟨rfl, rfl, rfl⟩⟩)
    obtain ⟨topic, rfl, -, -, rfl⟩ | ⟨database, now, topic, message, rfl, -, hmessage, rfl⟩ |
      ⟨topic, position, rfl, -, hto, rfl⟩ | ⟨rfl, hfree, rfl⟩ | ⟨topic, rfl, htopic, rfl⟩ |
      ⟨now, topic, message, rfl, htopic, -, rfl⟩ := step_cases h
    · exact hw.imp_right fun hkept => ⟨hkept.1, .inl rfl⟩
    · have hat : [revocation][w.position topic - 1]? = some message := hmessage
      have hrevocation : message = revocation := List.mem_singleton.mp (List.mem_of_getElem? hat)
      have hanswers : database = .answers := hunfailing
      left
      rw [after_model, hrevocation, hanswers, applyOneMessage_revocation]
      dsimp only
      obtain hw | ⟨hmodel, -⟩ := hw
      · exact hw.applyEvent
      · rw [hmodel]
        exact deactivated_revoke oneKey_apiKeys
    · refine hw.imp_right fun hkept => ⟨hkept.1, hkept.2.imp_right fun hidle => ?_⟩
      obtain ⟨hfree, hposition, -⟩ := hidle
      have hzero : position = 0 := by
        have hbound : position ≤ w.position () := hto
        omega
      exact ⟨hfree, hposition, hzero⟩
    · refine hw.imp_right fun hkept => ⟨hkept.1, .inr ?_⟩
      obtain hhand | ⟨-, -, hcommitted⟩ := hkept.2
      · rw [hfree] at hhand
        exact absurd hhand (Option.some_ne_none ()).symm
      · exact ⟨rfl, hcommitted, hcommitted⟩
    · have hfree : w.inHand = none := hunfailing
      rw [hfree] at htopic
      exact absurd htopic (Option.some_ne_none topic).symm
    · have hfree : w.inHand = none := hunfailing
      rw [hfree] at htopic
      exact absurd htopic (Option.some_ne_none topic).symm
  obtain ⟨hfree, hread⟩ := hend
  obtain hrevoked | ⟨-, hhand | ⟨-, hposition, -⟩⟩ := hrevoked
  · exact hrevoked
  · rw [hfree] at hhand
    exact absurd hhand (Option.some_ne_none ()).symm
  · rw [hread ()] at hposition
    exact absurd hposition (by decide)

/-- The worker with the revocation in its hand. -/
def handed : World Unit ReadModel where
  position := Function.update (fun _ => 0) () 1
  committed := fun _ => 0
  inHand := some ()
  model := oneKey

theorem step_handed : step revoking (fun _ => [revocation]) (World.start oneKey)
    (.hand () : Act Unit Moment) = some handed := by
  simp only [step]
  exact if_pos ⟨rfl, by decide⟩

/-- An attempt at the revocation leaves what the database does with it. -/
theorem step_finish (database : Database) (now : Moment) :
    step revoking (fun _ => [revocation]) handed (.finish database now)
      = some (handed.after () (ending revoking database now handed.model revocation)
          (applyOneMessage revoking database now handed.model revocation).2) := by
  have hmessage : handed.message (fun _ => [revocation]) () = some revocation := by
    have hposition : handed.position () = 1 := rfl
    rw [World.message, hposition]
    rfl
  have hstep : step revoking (fun _ => [revocation]) handed (.finish database now)
      = (handed.message (fun _ => [revocation]) ()).map fun message =>
        handed.after () (ending revoking database now handed.model message)
          (applyOneMessage revoking database now handed.model message).2 := rfl
  rw [hstep, hmessage, Option.map_some]

theorem readToEnd_after (ending : Ending) (model : ReadModel) :
    ReadToEnd (fun _ => [revocation]) (handed.after () ending model) :=
  ⟨rfl, fun _ => rfl⟩

end Outage

end AiraGateway.Worker
