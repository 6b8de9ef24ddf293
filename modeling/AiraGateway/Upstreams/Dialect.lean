import AiraGateway.Core.Pairing
import AiraGateway.Library.Bytes
import AiraGateway.Library.Conveyance

/-!
# What every dialect is handed, and what it may answer

A dialect maps a canonical request onto its vendor's body. What it cannot express faithfully it
refuses (`DialectUnsupported`) rather than drops, so that the dispatch chain can skip the candidate
by name. `CanonicalMessage.holding` is what a message holds and a body has to: its calls, its
results, and its texts and attachments in their order.

* **Nothing silent** (`NothingSilent`): a mapper refuses, or its body tells what it was handed.
-/

namespace AiraGateway

/-- The request asks for something this wire format cannot express faithfully. -/
structure DialectUnsupported where
  message : Text
  deriving DecidableEq

/-- A mapper that answers no request with a body that does not tell it. -/
def NothingSilent {β : Type} (tells : β → Prop) : Except DialectUnsupported β → Prop
  | .error _ => True
  | .ok body => tells body

/-- A mapper that answers where it does not refuse, and whose answers tell under a condition, is
silent about nothing exactly where it refuses or the condition holds. -/
theorem nothingSilent_iff {β : Type} {tells : β → Prop} {refuses holds : Prop}
    {mapped : Except DialectUnsupported β} (hok : (∃ body, mapped = .ok body) ↔ ¬ refuses)
    (htells : ∀ body, mapped = .ok body → (tells body ↔ holds)) :
    NothingSilent tells mapped ↔ refuses ∨ holds := by
  cases mapped with
  | error e =>
    have hrefuses : refuses := by
      by_contra h
      obtain ⟨_, hbody⟩ := hok.mpr h
      exact nomatch hbody
    exact iff_of_true trivial (.inl hrefuses)
  | ok body =>
    have hno : ¬ refuses := hok.mp ⟨body, rfl⟩
    rw [NothingSilent, htells body rfl, or_iff_right hno]

/-! ### The reasoning settings that are the gateway's own words -/

def thinkingDisabled : Text := "disabled"
def thinkingAuto : Text := "auto"
def thinkingLimited : Text := "limited"

/-! ### The two channels of a conversation -/

/-- What two of the dialects lift out of the conversation. -/
def systemMessages (messages : List CanonicalMessage) : List CanonicalMessage :=
  messages.filter (·.role = .system)

def otherMessages (messages : List CanonicalMessage) : List CanonicalMessage :=
  messages.filter (·.role ≠ .system)

/-! ### What a message holds -/

/-- A part as something said, where it is. -/
def CanonicalPart.said? : CanonicalPart → Option (Item DataPart)
  | text t => some (.text t)
  | data part => some (.piece part)
  | _ => none

namespace CanonicalMessage

/-- What a message holds: its calls, its results, and its texts and attachments in order. -/
def holding (m : CanonicalMessage) : Holding ToolCallPart ToolResultPart DataPart where
  calls := m.toolCalls
  results := m.toolResults
  said := m.parts.filterMap CanonicalPart.said?

theorem pieces_said (m : CanonicalMessage) :
    m.holding.said.filterMap Item.piece? = m.attachments := by
  rw [holding, List.filterMap_filterMap, attachments]
  refine congrArg (List.filterMap · m.parts) ?_
  funext part
  cases part <;> rfl

theorem ink_said (m : CanonicalMessage) : m.holding.said.flatMap Item.ink = ink m.text := by
  obtain ⟨role, parts⟩ := m
  simp only [holding, text]
  induction parts with
  | nil => rfl
  | cons part parts ih =>
    cases part with
    | text t =>
      rw [List.filterMap_cons, List.filterMap_cons, CanonicalPart.said?, CanonicalPart.text?]
      simp only [List.flatMap_cons, List.flatten_cons, ink_append, ih, Item.ink]
    | data part => exact ih
    | toolCall part => exact ih
    | toolResult part => exact ih

theorem pieceCount_holding (m : CanonicalMessage) :
    m.holding.pieceCount = m.attachments.length := congrArg List.length m.pieces_said

theorem inkCount_holding (m : CanonicalMessage) : m.holding.inkCount = (ink m.text).length :=
  congrArg List.length m.ink_said

/-- Without attachments a message says its texts. -/
theorem said_of_no_attachments {m : CanonicalMessage} (h : m.attachments = []) :
    m.holding.said = (m.parts.filterMap CanonicalPart.text?).map .text := by
  rw [attachments, List.filterMap_eq_nil_iff] at h
  rw [holding, List.map_filterMap]
  refine List.filterMap_congr fun part hpart => ?_
  cases part with
  | data part => exact absurd (h _ hpart) (by simp [CanonicalPart.data?])
  | text | toolCall | toolResult => rfl

end CanonicalMessage

end AiraGateway
