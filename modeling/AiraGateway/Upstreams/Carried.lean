import AiraGateway.Library.Bytes
import AiraGateway.Library.JsonRoundTrip

/-!
# State carried through the caller

A dialect that needs more than the caller's history to continue a turn seals that state into the
signature of the turn's first call, which clients hand back unread. An envelope is a JSON document
of the dialect's name and its state, behind a mark, in Base64 with padding.

* **Only the dialect that sealed it opens it** (`opened_sealed`): the state comes back exactly under
  the name it was sealed under and nothing comes back under any other.
-/

namespace AiraGateway

/-- What marks a signature as sealed here rather than as a model's own. -/
def magic : List UInt8 := utf8Encode "aira:carried:1\n"

/-- The document an envelope holds. -/
def envelope (dialect : Text) (state : Json) : Json :=
  .obj [("dialect", .str dialect), ("state", state)]

/-- A state as a signature only its dialect will open. -/
def sealed (dialect : Text) (state : Json) : Text :=
  b64encode (magic ++ utf8Encode (envelope dialect state).dumps)

/-- The bytes of a signature that carries the mark. -/
def rawSignature (signature : Option Text) : Option (List UInt8) :=
  match signature with
  | none | some [] => none
  | some t => (b64decode t).filter fun bytes => magic.isPrefixOf bytes

/-- The state a dialect sealed into a signature, or nothing for anything else. -/
def opened (signature : Option Text) (dialect : Text) : Option Json := do
  let raw ← rawSignature signature
  let text ← utf8Decode (raw.drop magic.length)
  let document ← Json.loads text
  if document.get "dialect" = some (.str dialect) then document.get "state" else none

/-- Whether a signature is one of these envelopes. -/
def isSealed (signature : Option Text) : Bool := (rawSignature signature).isSome

theorem rawSignature_sealed (dialect : Text) (state : Json) :
    rawSignature (some (sealed dialect state)) =
      some (magic ++ utf8Encode (envelope dialect state).dumps) := by
  have hdecode := b64decode_b64encode (magic ++ utf8Encode (envelope dialect state).dumps)
  have hmark : magic.isPrefixOf (magic ++ utf8Encode (envelope dialect state).dumps) = true :=
    List.isPrefixOf_iff_prefix.mpr (List.prefix_append _ _)
  unfold sealed
  -- an empty signature would be read as none: the mark keeps an envelope from being one
  cases htext : b64encode (magic ++ utf8Encode (envelope dialect state).dumps) with
  | nil =>
    rw [htext] at hdecode
    exact absurd (Option.some.inj hdecode).symm
      (List.append_ne_nil_of_left_ne_nil (by decide) _)
  | cons c t =>
    rw [htext] at hdecode
    simp [rawSignature, hdecode, hmark]

theorem envelope_valid {state : Json} (h : state.Valid) (dialect : Text) :
    (envelope dialect state).Valid := by
  have hnames : [("dialect" : Text), "state"].Nodup := by decide
  exact ⟨hnames, trivial, h, trivial⟩

/-- **A sealed state is opened by its own dialect**, as it was, and by no other. -/
theorem opened_sealed {state : Json} (h : state.Valid) (dialect other : Text) :
    opened (some (sealed dialect state)) other = if dialect = other then some state else none := by
  have hloads := Json.loads_dumps (envelope_valid h dialect)
  have hdialect : (envelope dialect state).get "dialect" = some (.str dialect) := rfl
  have hstate : (envelope dialect state).get "state" = some state := rfl
  simp only [opened, rawSignature_sealed, List.drop_left, utf8Decode_utf8Encode, hloads, hdialect,
    hstate, Option.bind_eq_bind, Option.bind_some, Option.some.injEq, Json.str.injEq]

end AiraGateway
