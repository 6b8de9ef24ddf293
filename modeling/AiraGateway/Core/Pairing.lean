import AiraGateway.Core.Canonical
import Mathlib.Data.List.Forall2

/-!
# Tool results and the calls they answer

A client whose wire pairs a result with its call by name sends results whose ids name no call, and
two dialects pair by id. `pairedToolResults` is the conversation with every result naming the call
it answers: a result whose id names no open call takes the id of the earliest unanswered call of
its name in the latest model turn.

* **Nothing else changes** (`pairedToolResults_repaired`): messages, parts and their order are as
  they were sent, the ids of results apart.
-/

namespace AiraGateway

/-- One part: a result is paired with an open call, which is then answered. -/
def pairPart (openCalls : List ToolCallPart) : CanonicalPart → CanonicalPart × List ToolCallPart
  | .toolResult result =>
    -- its id first: only a result that names no open call is paired by name
    match openCalls.find? (·.id = result.callId) with
    | some answered => (.toolResult result, openCalls.erase answered)
    | none =>
      match openCalls.find? (·.name = result.name) with
      | some answered =>
        (.toolResult { result with callId := answered.id }, openCalls.erase answered)
      | none => (.toolResult result, openCalls)
  | part => (part, openCalls)

def pairParts (openCalls : List ToolCallPart) :
    List CanonicalPart → List CanonicalPart × List ToolCallPart
  | [] => ([], openCalls)
  | part :: rest =>
    let (part, openCalls) := pairPart openCalls part
    let (rest, openCalls) := pairParts openCalls rest
    (part :: rest, openCalls)

/-- A model turn answers whatever came before it; only its own calls are open after it. -/
def pairMessages (openCalls : List ToolCallPart) : List CanonicalMessage → List CanonicalMessage
  | [] => []
  | message :: rest =>
    if message.role = .model then message :: pairMessages message.toolCalls rest
    else
      let (parts, openCalls) := pairParts openCalls message.parts
      { message with parts := parts } :: pairMessages openCalls rest

/-- The conversation with every tool result naming the call it answers, by that call's id. -/
def pairedToolResults (messages : List CanonicalMessage) : List CanonicalMessage :=
  pairMessages [] messages

/-! ### Only ids change -/

/-- A part as it was sent, or a result under another id. -/
def CanonicalPart.Repaired (part part' : CanonicalPart) : Prop :=
  part' = part ∨ ∃ result callId,
    part = .toolResult result ∧ part' = .toolResult { result with callId := callId }

def CanonicalMessage.Repaired (m m' : CanonicalMessage) : Prop :=
  m'.role = m.role ∧ List.Forall₂ CanonicalPart.Repaired m.parts m'.parts

theorem pairPart_repaired (openCalls : List ToolCallPart) (part : CanonicalPart) :
    part.Repaired (pairPart openCalls part).1 := by
  cases part with
  | toolResult result =>
    rw [pairPart]
    split
    · exact .inl rfl
    · split
      · exact .inr ⟨result, _, rfl, rfl⟩
      · exact .inl rfl
  | text | data | toolCall => exact .inl rfl

theorem pairParts_repaired (openCalls : List ToolCallPart) (parts : List CanonicalPart) :
    List.Forall₂ CanonicalPart.Repaired parts (pairParts openCalls parts).1 := by
  induction parts generalizing openCalls with
  | nil => exact .nil
  | cons part rest ih => exact .cons (pairPart_repaired openCalls part) (ih _)

theorem pairMessages_repaired (openCalls : List ToolCallPart) (messages : List CanonicalMessage) :
    List.Forall₂ CanonicalMessage.Repaired messages (pairMessages openCalls messages) := by
  induction messages generalizing openCalls with
  | nil => exact .nil
  | cons message rest ih =>
    -- which calls are open never matters to what changes
    rw [pairMessages]
    split_ifs
    · have hsame : List.Forall₂ CanonicalPart.Repaired message.parts message.parts :=
        List.forall₂_same.mpr fun _ _ => .inl rfl
      exact .cons ⟨rfl, hsame⟩ (ih _)
    · exact .cons ⟨rfl, pairParts_repaired openCalls message.parts⟩ (ih _)

/-- **Pairing changes ids of results** and nothing else. -/
theorem pairedToolResults_repaired (messages : List CanonicalMessage) :
    List.Forall₂ CanonicalMessage.Repaired messages (pairedToolResults messages) :=
  pairMessages_repaired [] messages

/-- **Pairing reads forwards**: messages added to the end change none before them. -/
theorem pairMessages_append (openCalls : List ToolCallPart)
    (messages more : List CanonicalMessage) :
    ∃ openCalls', pairMessages openCalls (messages ++ more) =
      pairMessages openCalls messages ++ pairMessages openCalls' more := by
  induction messages generalizing openCalls with
  | nil => exact ⟨openCalls, rfl⟩
  | cons message rest ih =>
    rw [List.cons_append, pairMessages, pairMessages]
    split_ifs
    · obtain ⟨openCalls', h⟩ := ih message.toolCalls
      exact ⟨openCalls', congrArg (message :: ·) h⟩
    · obtain ⟨openCalls', h⟩ := ih (pairParts openCalls message.parts).2
      exact ⟨openCalls', congrArg (_ :: ·) h⟩

namespace CanonicalMessage.Repaired

variable {m m' : CanonicalMessage}

/-- What is read of the parts and does not depend on a result's id is read as it was. -/
private theorem filterMap_eq {α : Type} {f : CanonicalPart → Option α}
    (hf : ∀ result callId,
      f (.toolResult { result with callId := callId }) = f (.toolResult result))
    (h : m.Repaired m') : m'.parts.filterMap f = m.parts.filterMap f := by
  have hparts := h.2
  revert hparts
  generalize m.parts = parts
  generalize m'.parts = parts'
  intro hparts
  induction hparts with
  | nil => rfl
  | @cons part part' _ _ hpart _ ih =>
    have hsame : f part' = f part := by
      rcases hpart with rfl | ⟨result, callId, rfl, rfl⟩
      · rfl
      · exact hf result callId
    rw [List.filterMap_cons, List.filterMap_cons, hsame, ih]

theorem text_eq (h : m.Repaired m') : m'.text = m.text :=
  congrArg List.flatten (filterMap_eq (fun _ _ => rfl) h)

theorem attachments_eq (h : m.Repaired m') : m'.attachments = m.attachments :=
  filterMap_eq (fun _ _ => rfl) h

theorem toolCalls_eq (h : m.Repaired m') : m'.toolCalls = m.toolCalls :=
  filterMap_eq (fun _ _ => rfl) h

/-- The results bring the attachments they brought. -/
theorem resultAttachments_eq (h : m.Repaired m') :
    m'.toolResults.map (·.attachments) = m.toolResults.map (·.attachments) := by
  rw [toolResults, toolResults, List.map_filterMap, List.map_filterMap]
  exact filterMap_eq (fun _ _ => rfl) h

theorem toolResults_eq_nil_iff (h : m.Repaired m') : m'.toolResults = [] ↔ m.toolResults = [] := by
  rw [← List.map_eq_nil_iff, h.resultAttachments_eq, List.map_eq_nil_iff]

end CanonicalMessage.Repaired

/-- A property of messages that pairing cannot touch is asked of the messages as they were sent. -/
theorem forall_paired_iff {P : CanonicalMessage → Prop}
    (hP : ∀ m m', m.Repaired m' → (P m' ↔ P m)) (messages : List CanonicalMessage) :
    (∀ m ∈ pairedToolResults messages, P m) ↔ ∀ m ∈ messages, P m := by
  have hrepaired := pairedToolResults_repaired messages
  revert hrepaired
  generalize pairedToolResults messages = paired
  intro hrepaired
  induction hrepaired with
  | nil => rfl
  | cons h _ ih =>
    rw [List.forall_mem_cons, List.forall_mem_cons]
    exact and_congr (hP _ _ h) ih

end AiraGateway
