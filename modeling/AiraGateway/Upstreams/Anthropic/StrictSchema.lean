import AiraGateway.Library.Except
import AiraGateway.Library.JsonText
import AiraGateway.Upstreams.SchemaRewriting
import Mathlib.Order.Filter.AtTopBot.Basic

/-!
# Strict schemas on the Anthropic dialect

Structured output here takes a schema whose objects are closed and say what they require, with no
format outside its list; `tighten` rewrites the translation of a caller's schema into one. It walks
every object, property maps and literals as well, and the maps a second time.

* `tighten_of_rewriteAll`: with enough fuel the walk is the rewriting, and the second pass changes
  nothing.
* `schemaForAnthropic_narrows`: a tight schema accepts no more than its translation, and one that a
  tool is sent strict with exactly what the declaration does with its objects closed.
* `argument_refused`: an argument that a declaration accepts and the strict tool refuses.
-/

namespace AiraGateway.Anthropic

open JsonSchema Filter

/-! ### The rewriting -/

/-- Formats that state nothing a schema could check. -/
def descriptiveFormats : List Text := ["int32", "int64", "float", "double", "enum"]

/-- The members without a descriptive format. A list or an object cannot be looked up in a set. -/
def withoutFormat (members : List (Text × Json)) : Option (List (Text × Json)) :=
  match dictGet members "format" with
  | some (.arr _) | some (.obj _) => none
  | some (.str name) =>
    some (if name ∈ descriptiveFormats then dictErase members "format" else members)
  | _ => some members

/-- An object closed: no other name allowed, and every property required if it says nothing. -/
def closeObject (members : List (Text × Json)) : Option (List (Text × Json)) :=
  if isObjectType (dictGet members "type") then
    (entries (dictGet members "properties")).map fun names =>
      let closed := dictSet members "additionalProperties" (.bool false)
      if (dictGet closed "required").isSome then closed
      else dictSet closed "required" (.arr names)
  else some members

def closeTight (members : List (Text × Json)) : Option (List (Text × Json)) :=
  (withoutFormat members).bind closeObject

inductive TightenError
  | typeError
  | outOfFuel
  deriving DecidableEq

section Walk

variable (walk : Json → Except TightenError Json)

def tightenMembers (members : List (Text × Json)) : Except TightenError (List (Text × Json)) :=
  members.mapM fun entry => (walk entry.2).map fun value => (entry.1, value)

/-- The map of properties, walked once more. -/
def tightenProperties : Text × Json → Except TightenError (Text × Json)
  | (key, .obj declared) =>
    if key = "properties" then
      (tightenMembers walk declared).map fun declared => (key, .obj declared)
    else .ok (key, .obj declared)
  | entry => .ok entry

end Walk

/-- Every object of a value, closed from the inside out, and its properties walked again. -/
def tighten : ℕ → Json → Except TightenError Json
  | 0, _ => .error .outOfFuel
  | fuel + 1, .arr items => do
    let out ← items.mapM (tighten fuel)
    return .arr out
  | fuel + 1, .obj members => do
    let out ← tightenMembers (tighten fuel) members
    match closeTight out with
    | none => .error .typeError
    | some closed => do
      let out ← closed.mapM (tightenProperties (tighten fuel))
      return .obj out
  | _ + 1, node => .ok node

/-- A schema as this provider requires it. -/
def schemaForAnthropic (fuel : ℕ) (schema : ResponseSchema) : Except TightenError Json :=
  tighten fuel (toJsonSchema schema)

/-! ### What this dialect cannot say -/

def supportedMinItems : List ℤ := [0, 1]

def supportedStringFormats : List Text :=
  ["date-time", "time", "date", "duration", "email", "hostname", "uri", "ipv4", "ipv6", "uuid"]

/-- The constraints a node uses that the dialect lacks. -/
def unsupported (k : SchemaKeywords) : List Text :=
  (([("max_items", k.maxItems.isSome), ("max_length", k.maxLength.isSome),
      ("max_properties", k.maxProperties.isSome), ("maximum", k.maximum.isSome),
      ("min_length", k.minLength.isSome), ("min_properties", k.minProperties.isSome),
      ("minimum", k.minimum.isSome), ("pattern", k.pattern.isSome)] :
    List (Text × Bool)).filterMap fun (name, used) => if used then some name else none) ++
  ((k.minItems.filter (· ∉ supportedMinItems)).map fun n =>
    ("min_items of " : Text) ++ intText n ++ (" (only 0 and 1)" : Text)).toList ++
  ((k.format.filter fun name => name ≠ [] ∧ name ∉ descriptiveFormats ∧
      name ∉ supportedStringFormats).map fun name =>
    ("the format '" : Text) ++ name ++ ("'" : Text)).toList

def unsupportedRefusal (used : List Text) : Option Text :=
  if used = [] then none
  else some (("this dialect's structured output does not support " : Text) ++
    List.intercalate (", " : Text) used ++
    (", and a schema sent without them would be satisfied by an answer the caller's " : Text) ++
    ("constraint excludes" : Text))

mutual

/-- Why this dialect cannot express a schema: the first schema in it that says why, then itself. -/
def schemaRefusal : ResponseSchema → Option Text
  | ⟨keywords, properties, items, anyOf⟩ =>
    (((refusalOfProperties properties).or (refusalOfItems items)).or (refusalOfVariants anyOf)).or
      (unsupportedRefusal (unsupported keywords))

def refusalOfProperties : List (Text × ResponseSchema) → Option Text
  | [] => none
  | (_, schema) :: rest => (schemaRefusal schema).or (refusalOfProperties rest)

def refusalOfItems : Option ResponseSchema → Option Text
  | none => none
  | some schema => schemaRefusal schema

def refusalOfVariants : List ResponseSchema → Option Text
  | [] => none
  | schema :: rest => (schemaRefusal schema).or (refusalOfVariants rest)

end

/-! ### Tools -/

/-- An object type that leaves its requirements open, or admits other names. -/
def leftOpen (k : SchemaKeywords) : Bool :=
  k.type = some .object && (k.required.isNone || k.additionalProperties = some true)

mutual

/-- Every object says what it requires and none says that it admits others. -/
def qualified : ResponseSchema → Bool
  | ⟨keywords, properties, items, anyOf⟩ =>
    !leftOpen keywords && (qualifiedProperties properties && qualifiedItems items &&
      qualifiedVariants anyOf)

def qualifiedProperties : List (Text × ResponseSchema) → Bool
  | [] => true
  | (_, schema) :: rest => qualified schema && qualifiedProperties rest

def qualifiedItems : Option ResponseSchema → Bool
  | none => true
  | some schema => qualified schema

def qualifiedVariants : List ResponseSchema → Bool
  | [] => true
  | schema :: rest => qualified schema && qualifiedVariants rest

end

/-- A tool that declares no parameters. -/
def noParameters : Json := .obj [("type", .str "object"), ("properties", .obj [])]

/-- A tool's schema, and whether it is sent strict. -/
def toolInputSchema (fuel : ℕ) : Option ResponseSchema → Except TightenError (Json × Bool)
  | none => (tighten fuel noParameters).map fun schema => (schema, true)
  | some parameters =>
    if schemaRefusal parameters = none ∧ qualified parameters = true then
      (schemaForAnthropic fuel parameters).map fun schema => (schema, true)
    else .ok (toJsonSchema parameters, false)

/-! ### Closing an object -/

theorem withoutFormat_eq_some_iff {members out : List (Text × Json)} :
    withoutFormat members = some out ↔
      (∀ value, dictGet members "format" = some value →
        (∀ items, value ≠ .arr items) ∧ ∀ held, value ≠ .obj held) ∧
      ((∃ name ∈ descriptiveFormats, dictGet members "format" = some (.str name) ∧
          dictErase members "format" = out) ∨
        (∀ name ∈ descriptiveFormats, dictGet members "format" ≠ some (.str name)) ∧
          members = out) := by
  rw [withoutFormat]
  cases hformat : dictGet members "format" with
  | none => simp
  | some value =>
    cases value with
    | arr items => simp
    | obj held => simp
    | str name =>
      by_cases hname : name ∈ descriptiveFormats
      · simp [hname]
      · have hother : ∀ other ∈ descriptiveFormats, name ≠ other := by
          rintro other hmem rfl
          exact hname hmem
        simp only [hname, if_false, Option.some.injEq, Json.str.injEq]
        constructor
        · intro heq
          refine ⟨by simp, .inr ⟨fun other hmem hsame => hother other hmem ?_, heq⟩⟩
          exact Json.str.inj (Option.some.inj hsame)
        · rintro ⟨-, ⟨other, hmem, hsame, -⟩ | ⟨-, heq⟩⟩
          · exact absurd hsame (hother other hmem)
          · exact heq
    | null | bool _ | int _ | float _ => simp

theorem closeObject_eq_some_iff {members closed : List (Text × Json)} :
    closeObject members = some closed ↔
      (isObjectType (dictGet members "type") = false ∧ members = closed) ∨
      ∃ names, isObjectType (dictGet members "type") = true ∧
        entries (dictGet members "properties") = some names ∧
        ((dictGet members "required").isSome = true ∧
            dictSet members "additionalProperties" (.bool false) = closed ∨
          dictGet members "required" = none ∧
            dictSet (dictSet members "additionalProperties" (.bool false)) "required" (.arr names)
              = closed) := by
  have hrequired : dictGet (dictSet members "additionalProperties" (.bool false)) "required"
      = dictGet members "required" := by
    rw [dictGet_dictSet, if_neg (by decide +kernel)]
  rw [closeObject]
  cases isObjectType (dictGet members "type") with
  | false => simp
  | true =>
    simp only [if_true, Option.map_eq_some_iff, hrequired, Bool.true_eq_false, false_and,
      false_or, true_and]
    refine exists_congr fun names => and_congr_right fun _ => ?_
    cases hvalue : dictGet members "required" with
    | none => simp
    | some value => simp

/-- Closing leaves all but the three keywords it is about. -/
theorem dictGet_of_closeTight {members closed : List (Text × Json)}
    (h : closeTight members = some closed) {key : Text} (hformat : key ≠ "format")
    (hadditional : key ≠ "additionalProperties") (hrequired : key ≠ "required") :
    dictGet closed key = dictGet members key := by
  obtain ⟨out, hout, hclose⟩ := Option.bind_eq_some_iff.mp h
  have hkept : dictGet out key = dictGet members key := by
    obtain ⟨-, ⟨name, -, -, rfl⟩ | ⟨-, rfl⟩⟩ := withoutFormat_eq_some_iff.mp hout
    · rw [dictGet_dictErase, if_neg hformat]
    · rfl
  rw [← hkept]
  obtain ⟨-, rfl⟩ | ⟨names, -, -, ⟨-, rfl⟩ | ⟨-, rfl⟩⟩ := closeObject_eq_some_iff.mp hclose
  · rfl
  · rw [dictGet_dictSet, if_neg hadditional]
  · rw [dictGet_dictSet, if_neg hrequired, dictGet_dictSet, if_neg hadditional]

theorem format_of_closeTight {members closed : List (Text × Json)}
    (h : closeTight members = some closed) :
    dictGet closed "format" = (dictGet members "format").filter fun value =>
      ∀ name ∈ descriptiveFormats, value ≠ .str name := by
  obtain ⟨out, hout, hclose⟩ := Option.bind_eq_some_iff.mp h
  have hkept : dictGet closed "format" = dictGet out "format" := by
    obtain ⟨-, rfl⟩ | ⟨names, -, -, ⟨-, rfl⟩ | ⟨-, rfl⟩⟩ := closeObject_eq_some_iff.mp hclose
    · rfl
    · rw [dictGet_dictSet, if_neg (by decide +kernel)]
    · rw [dictGet_dictSet, if_neg (by decide +kernel), dictGet_dictSet,
        if_neg (by decide +kernel)]
  rw [hkept]
  obtain ⟨-, ⟨name, hname, hstr, rfl⟩ | ⟨hother, rfl⟩⟩ := withoutFormat_eq_some_iff.mp hout
  · rw [dictGet_dictErase, if_pos rfl, hstr, Option.filter_some, if_neg]
    simpa using hname
  · cases hvalue : dictGet members "format" with
    | none => rfl
    | some value =>
      rw [Option.filter_some, if_pos]
      refine decide_eq_true fun name hname => ?_
      rintro rfl
      exact hother name hname hvalue

def tightClosing : Closing where
  close := closeTight
  onProperties := by
    intro declared closed hobjects hclose
    have hvalues : ∀ key value, dictGet declared key = some value →
        ∃ members, value = Json.obj members := fun key value h => hobjects _ (dictGet_mem h)
    obtain ⟨out, hout, hclosed⟩ := Option.bind_eq_some_iff.mp hclose
    obtain ⟨hplain, hformat⟩ := withoutFormat_eq_some_iff.mp hout
    obtain rfl : declared = out := by
      obtain ⟨name, -, hstr, -⟩ | ⟨-, heq⟩ := hformat
      · obtain ⟨members, hmembers⟩ := hvalues _ _ hstr
        cases hmembers
      · exact heq
    obtain ⟨-, heq⟩ | ⟨names, hobject, -⟩ := closeObject_eq_some_iff.mp hclosed
    · exact heq.symm
    · -- a property named `type` is a schema and no type
      exfalso
      cases htype : dictGet declared "type" with
      | none => rw [htype] at hobject; cases hobject
      | some value =>
        obtain ⟨members, rfl⟩ := hvalues _ _ htype
        rw [htype, isObjectType_obj] at hobject
        cases hobject
  onKeywords := by
    intro keywords closed hclose key hformat hadditional hrequired
    exact dictGet_of_closeTight hclose hformat hadditional hrequired

/-! ### What closing leaves -/

/-- An object that closing leaves as it is. -/
def leftTight (members : List (Text × Json)) : Bool :=
  (match dictGet members "format" with
    | some (.arr _) | some (.obj _) => false
    | some (.str name) => name ∉ descriptiveFormats
    | _ => true) &&
  (!isObjectType (dictGet members "type") ||
    holdsAs members "additionalProperties" (.bool false) &&
      (dictGet members "required").isSome && (entries (dictGet members "properties")).isSome)

theorem leftTight_iff {members : List (Text × Json)} : leftTight members = true ↔
    withoutFormat members = some members ∧ (isObjectType (dictGet members "type") = true →
      holdsAs members "additionalProperties" (.bool false) = true ∧
        (dictGet members "required").isSome = true ∧
        (entries (dictGet members "properties")).isSome = true) := by
  have herase : dictGet members "format" ≠ none → dictErase members "format" ≠ members := by
    intro hsome hsame
    have hget := dictGet_dictErase members "format" "format"
    rw [hsame, if_pos rfl] at hget
    exact hsome hget
  rw [leftTight, withoutFormat, Bool.and_eq_true]
  refine and_congr ?_ ?_
  · cases hformat : dictGet members "format" with
    | none => simp
    | some value =>
      rw [hformat] at herase
      cases value with
      | arr items => simp
      | obj held => simp
      | str name =>
        by_cases hname : name ∈ descriptiveFormats
        · simpa [hname] using herase (by simp)
        · simp [hname]
      | null | bool _ | int _ | float _ => simp
  · cases isObjectType (dictGet members "type") <;> simp [and_assoc]

theorem closeTight_of_leftTight {members : List (Text × Json)} (h : leftTight members = true) :
    closeTight members = some members := by
  obtain ⟨hformat, hobject⟩ := leftTight_iff.mp h
  rw [closeTight, hformat, Option.bind_some, closeObject_eq_some_iff]
  cases htype : isObjectType (dictGet members "type") with
  | false => exact .inl ⟨rfl, rfl⟩
  | true =>
    obtain ⟨hadditional, hrequired, hentries⟩ := hobject htype
    obtain ⟨names, hnames⟩ := Option.isSome_iff_exists.mp hentries
    exact .inr ⟨names, rfl, hnames, .inl ⟨hrequired, dictSet_eq_self hadditional⟩⟩

theorem leftTight_of_closeTight {members closed : List (Text × Json)}
    (h : closeTight members = some closed) : leftTight closed = true := by
  have hkept : ∀ key : Text, key ≠ "format" → key ≠ "additionalProperties" → key ≠ "required" →
      dictGet closed key = dictGet members key := fun key => dictGet_of_closeTight h
  have hformat := format_of_closeTight h
  rw [leftTight_iff, hkept "type" (by decide +kernel) (by decide +kernel) (by decide +kernel),
    hkept "properties" (by decide +kernel) (by decide +kernel) (by decide +kernel)]
  obtain ⟨out, hout, hclose⟩ := Option.bind_eq_some_iff.mp h
  obtain ⟨hplain, hdropped⟩ := withoutFormat_eq_some_iff.mp hout
  refine ⟨withoutFormat_eq_some_iff.mpr ⟨fun value hvalue => ?_, .inr ⟨fun name hname hstr => ?_,
    rfl⟩⟩, fun hobject => ?_⟩
  · rw [hformat] at hvalue
    exact hplain value (Option.filter_eq_some_iff.mp hvalue).1
  · rw [hformat] at hstr
    obtain ⟨-, hother⟩ := Option.filter_eq_some_iff.mp hstr
    exact of_decide_eq_true hother name hname rfl
  · have hout' : ∀ key : Text, key ≠ "format" → dictGet out key = dictGet members key := by
      intro key hkey
      obtain ⟨name, -, -, rfl⟩ | ⟨-, rfl⟩ := hdropped
      · rw [dictGet_dictErase, if_neg hkey]
      · rfl
    rw [← hout' "type" (by decide +kernel)] at hobject
    rw [← hout' "properties" (by decide +kernel)]
    obtain ⟨hother, -⟩ | ⟨names, -, hnames, ⟨hsome, rfl⟩ | ⟨-, rfl⟩⟩ :=
      closeObject_eq_some_iff.mp hclose
    · rw [hobject] at hother
      cases hother
    · refine ⟨holdsAs_dictSet, ?_, by rw [hnames]; rfl⟩
      rwa [dictGet_dictSet, if_neg (by decide +kernel)]
    · refine ⟨holdsAs_dictSet_of_ne (by decide +kernel) holdsAs_dictSet, ?_,
        by rw [hnames]; rfl⟩
      rw [dictGet_dictSet, if_pos rfl]
      rfl

/-! ### The walk and its second pass -/

theorem closeTight_left {walked closed : List (Text × Json)}
    (hwalked : eachObjectMembers leftTight walked = true) (h : closeTight walked = some closed) :
    eachObjectMembers leftTight closed = true ∧ leftTight closed = true := by
  refine ⟨eachObjectMembers_iff.mpr fun entry hentry => ?_, leftTight_of_closeTight h⟩
  rw [eachObjectMembers_iff] at hwalked
  obtain ⟨out, hout, hclose⟩ := Option.bind_eq_some_iff.mp h
  have hkept : ∀ entry ∈ out, eachObject leftTight entry.2 = true := by
    obtain ⟨-, ⟨name, -, -, rfl⟩ | ⟨-, rfl⟩⟩ := withoutFormat_eq_some_iff.mp hout
    · exact fun entry hentry => hwalked entry (List.mem_of_mem_filter hentry)
    · exact hwalked
  obtain ⟨-, rfl⟩ | ⟨names, -, hnames, ⟨-, rfl⟩ | ⟨-, rfl⟩⟩ := closeObject_eq_some_iff.mp hclose
  · exact hkept entry hentry
  · obtain rfl | ⟨hmem, -⟩ := mem_dictSet hentry
    · rfl
    · exact hkept entry hmem
  · obtain rfl | ⟨hmem, -⟩ := mem_dictSet hentry
    · -- the required names are those of the properties
      exact eachObject_entries (fun value hvalue => hkept _ (dictGet_mem hvalue)) hnames
    · obtain rfl | ⟨hmem, -⟩ := mem_dictSet hmem
      · rfl
      · exact hkept entry hmem

section Fuel

variable {walk : Json → Except TightenError Json}

theorem tightenMembers_eq_ok_iff {members out : List (Text × Json)} :
    tightenMembers walk members = .ok out ↔
      List.Forall₂ (fun entry entry' => entry'.1 = entry.1 ∧ walk entry.2 = .ok entry'.2)
        members out := by
  have hentry : ∀ entry entry' : Text × Json,
      (walk entry.2).map (fun value => (entry.1, value)) = .ok entry' ↔
        entry'.1 = entry.1 ∧ walk entry.2 = .ok entry'.2 := by
    rintro ⟨name, value⟩ ⟨name', value'⟩
    cases hvalue : walk value with
    | error e => simp [Except.map]
    | ok found => simp [Except.map, eq_comm]
  rw [tightenMembers, mapM_eq_ok_iff]
  simp only [hentry]

/-- Walking an object whose properties are left a second time leaves it. -/
theorem tightenProperties_left {entry : Text × Json}
    (h : ∀ declared, entry.2 = .obj declared → tightenMembers walk declared = .ok declared) :
    tightenProperties walk entry = .ok entry := by
  obtain ⟨key, value⟩ := entry
  cases value with
  | obj declared =>
    rw [tightenProperties, h declared rfl]
    split
    · rfl
    · rfl
  | null | bool _ | int _ | float _ | str _ | arr _ => rfl

/-- A walk that can be done with enough fuel, done with one more. -/
theorem eventually_succ {P : ℕ → Prop} (h : ∀ᶠ fuel in atTop, P (fuel + 1)) :
    ∀ᶠ fuel in atTop, P fuel := by
  obtain ⟨enough, henough⟩ := eventually_atTop.mp h
  refine eventually_atTop.mpr ⟨enough + 1, fun fuel hfuel => ?_⟩
  have hpred := henough (fuel - 1) (by omega)
  rwa [Nat.sub_add_cancel (by omega)] at hpred

theorem tighten_obj {fuel : ℕ} {members walked closed out : List (Text × Json)}
    (hwalked : tightenMembers (tighten fuel) members = .ok walked)
    (hclose : closeTight walked = some closed)
    (hagain : closed.mapM (tightenProperties (tighten fuel)) = .ok out) :
    tighten (fuel + 1) (.obj members) = .ok (.obj out) := by
  rw [tighten]
  refine bind_eq_ok_iff.mpr ⟨walked, hwalked, ?_⟩
  rw [hclose]
  exact bind_eq_ok_iff.mpr ⟨out, hagain, rfl⟩

mutual

/-- With enough fuel, a value that closing leaves is left by the walk. -/
theorem tighten_left : ∀ json : Json, eachObject leftTight json = true →
    ∀ᶠ fuel in atTop, tighten fuel json = .ok json ∧
      ∀ declared, json = .obj declared → tightenMembers (tighten fuel) declared = .ok declared
  | .arr items, h => by
    have hitems := tightenItems_left items h
    refine (eventually_succ (hitems.mono fun fuel hfuel => ?_)).mono
      fun fuel hfuel => ⟨hfuel, fun declared hobj => nomatch hobj⟩
    rw [tighten, hfuel]
    rfl
  | .obj members, h => by
    rw [eachObject, Bool.and_eq_true] at h
    have hmembers := tightenMembers_left members h.1
    refine (eventually_succ (hmembers.mono fun fuel hfuel => ?_)).and
      (hmembers.mono fun fuel hfuel declared hobj => ?_)
    · exact tighten_obj hfuel.1 (closeTight_of_leftTight h.2) hfuel.2
    · obtain rfl := Json.obj.inj hobj
      exact hfuel.1
  | .null, _ | .bool _, _ | .int _, _ | .float _, _ | .str _, _ => by
    refine (eventually_succ (Eventually.of_forall fun fuel => rfl)).mono
      fun fuel hfuel => ⟨hfuel, fun declared hobj => nomatch hobj⟩

theorem tightenItems_left : ∀ items : List Json, eachObjectItems leftTight items = true →
    ∀ᶠ fuel in atTop, items.mapM (tighten fuel) = .ok items
  | [], _ => Eventually.of_forall fun _ => rfl
  | item :: rest, h => by
    rw [eachObjectItems, Bool.and_eq_true] at h
    filter_upwards [tighten_left item h.1, tightenItems_left rest h.2] with fuel hitem hrest
    exact mapM_eq_ok_iff.mpr (.cons hitem.1 (mapM_eq_ok_iff.mp hrest))

theorem tightenMembers_left : ∀ members : List (Text × Json),
    eachObjectMembers leftTight members = true →
    ∀ᶠ fuel in atTop, tightenMembers (tighten fuel) members = .ok members ∧
      members.mapM (tightenProperties (tighten fuel)) = .ok members
  | [], _ => Eventually.of_forall fun _ => ⟨rfl, rfl⟩
  | (name, value) :: rest, h => by
    rw [eachObjectMembers, Bool.and_eq_true] at h
    filter_upwards [tighten_left value h.1, tightenMembers_left rest h.2] with fuel hvalue hrest
    refine ⟨tightenMembers_eq_ok_iff.mpr
      (.cons ⟨rfl, hvalue.1⟩ (tightenMembers_eq_ok_iff.mp hrest.1)), ?_⟩
    exact mapM_eq_ok_iff.mpr
      (.cons (tightenProperties_left hvalue.2) (mapM_eq_ok_iff.mp hrest.2))

end

mutual

/-- **With enough fuel, the walk is the rewriting**: the second pass changes nothing. -/
theorem tighten_of_rewriteAll : ∀ {json made : Json}, rewriteAll closeTight json = some made →
    ∀ᶠ fuel in atTop, tighten fuel json = .ok made
  | .arr items, made, h => by
    obtain ⟨made', hmade', rfl⟩ := rewriteAll_arr h
    refine eventually_succ ((tightenItems_of_rewriteItems hmade').mono fun fuel hfuel => ?_)
    rw [tighten, hfuel]
    rfl
  | .obj members, made, h => by
    obtain ⟨walked, closed, hwalked, hclose, rfl⟩ := rewriteAll_obj h
    have hleft := closeTight_left
      (eachObject_of_rewriteMembers (fun _ _ => closeTight_left) hwalked) hclose
    have hagain := tightenMembers_left closed hleft.1
    refine eventually_succ ?_
    filter_upwards [tightenMembers_of_rewriteMembers hwalked, hagain] with fuel hfirst hsecond
    exact tighten_obj hfirst hclose hsecond.2
  | .null, _, h | .bool _, _, h | .int _, _, h | .float _, _, h | .str _, _, h => by
    obtain rfl := Option.some.inj h
    exact eventually_succ (Eventually.of_forall fun fuel => rfl)

theorem tightenItems_of_rewriteItems : ∀ {items made : List Json},
    rewriteItems closeTight items = some made →
    ∀ᶠ fuel in atTop, items.mapM (tighten fuel) = .ok made
  | [], made, h => by
    obtain rfl := Option.some.inj h
    exact Eventually.of_forall fun _ => rfl
  | item :: rest, made, h => by
    obtain ⟨item', rest', hitem, hrest, rfl⟩ :=
      List.forall₂_cons_left_iff.mp (rewriteItems_iff.mp h)
    filter_upwards [tighten_of_rewriteAll hitem,
      tightenItems_of_rewriteItems (rewriteItems_iff.mpr hrest)] with fuel hitem' hrest'
    exact mapM_eq_ok_iff.mpr (.cons hitem' (mapM_eq_ok_iff.mp hrest'))

theorem tightenMembers_of_rewriteMembers : ∀ {members made : List (Text × Json)},
    rewriteMembers closeTight members = some made →
    ∀ᶠ fuel in atTop, tightenMembers (tighten fuel) members = .ok made
  | [], made, h => by
    obtain rfl := Option.some.inj h
    exact Eventually.of_forall fun _ => rfl
  | (name, value) :: rest, made, h => by
    obtain ⟨entry', rest', ⟨hname, hvalue⟩, hrest, rfl⟩ :=
      List.forall₂_cons_left_iff.mp (rewriteMembers_iff.mp h)
    filter_upwards [tighten_of_rewriteAll hvalue,
      tightenMembers_of_rewriteMembers (rewriteMembers_iff.mpr hrest)] with fuel hvalue' hrest'
    exact tightenMembers_eq_ok_iff.mpr
      (.cons ⟨hname, hvalue'⟩ (tightenMembers_eq_ok_iff.mp hrest'))

end

theorem tightenProperties_of_left {fuel : ℕ}
    (hwalk : ∀ {json made : Json}, tighten fuel json = .ok made →
      rewriteAll closeTight json = some made)
    {entry out : Text × Json} (hleft : eachObject leftTight entry.2 = true)
    (h : tightenProperties (tighten fuel) entry = .ok out) : out = entry := by
  obtain ⟨key, value⟩ := entry
  cases value with
  | obj declared =>
    rw [tightenProperties] at h
    split at h
    · obtain ⟨declared', hdeclared', hout⟩ : ∃ declared',
          tightenMembers (tighten fuel) declared = .ok declared' ∧ (key, Json.obj declared') = out
          := by
        cases hwalked : tightenMembers (tighten fuel) declared with
        | error e => rw [hwalked] at h; cases h
        | ok declared' =>
          rw [hwalked] at h
          exact ⟨declared', rfl, Except.ok.inj h⟩
      have hrewritten : rewriteMembers closeTight declared = some declared' :=
        rewriteMembers_iff.mpr ((tightenMembers_eq_ok_iff.mp hdeclared').imp
          fun _ _ hentry => ⟨hentry.1, hwalk hentry.2⟩)
      rw [eachObject, Bool.and_eq_true] at hleft
      have hsame := rewriteMembers_of_eachObject (fun members => closeTight_of_leftTight)
        declared hleft.1
      obtain rfl := Option.some.inj (hsame.symm.trans hrewritten)
      exact hout.symm
    · exact (Except.ok.inj h).symm
  | null | bool _ | int _ | float _ | str _ | arr _ => exact (Except.ok.inj h).symm

/-- **A walk that answers** answers with the rewriting. -/
theorem rewriteAll_of_tighten {fuel : ℕ} {json made : Json} (h : tighten fuel json = .ok made) :
    rewriteAll closeTight json = some made := by
  induction fuel generalizing json made with
  | zero => cases h
  | succ fuel ih =>
    cases json with
    | arr items =>
      rw [tighten] at h
      obtain ⟨out, hout, h⟩ := bind_eq_ok_iff.mp h
      obtain rfl := Except.ok.inj h
      have hitems := rewriteItems_iff.mpr ((mapM_eq_ok_iff.mp hout).imp fun _ _ hitem => ih hitem)
      rw [rewriteAll, hitems, Option.map_some]
    | obj members =>
      rw [tighten] at h
      obtain ⟨walked, hwalked, h⟩ := bind_eq_ok_iff.mp h
      have hmembers : rewriteMembers closeTight members = some walked :=
        rewriteMembers_iff.mpr ((tightenMembers_eq_ok_iff.mp hwalked).imp
          fun _ _ hentry => ⟨hentry.1, ih hentry.2⟩)
      split at h
      · cases h
      · next closed hclose =>
        obtain ⟨out, hout, h⟩ := bind_eq_ok_iff.mp h
        obtain rfl := Except.ok.inj h
        have hleft := closeTight_left
          (eachObject_of_rewriteMembers (fun _ _ => closeTight_left) hmembers) hclose
        rw [eachObjectMembers_iff] at hleft
        have hsame : out = closed := eq_of_mapM_eq_ok (fun entry hentry out hout =>
          tightenProperties_of_left ih (hleft.1 entry hentry) hout) hout
        rw [rewriteAll, hmembers, Option.bind_some, hclose, Option.map_some, hsame]
    | null | bool _ | int _ | float _ | str _ =>
      rw [← Except.ok.inj h]
      rfl

end Fuel

/-! ### What a tight schema says -/

/-- The keywords that closing states. -/
theorem stated_of_closeTight {members closed : List (Text × Json)}
    (h : closeTight members = some closed) :
    (isObjectType (dictGet members "type") = false →
      dictGet closed "additionalProperties" = dictGet members "additionalProperties" ∧
        dictGet closed "required" = dictGet members "required") ∧
    (isObjectType (dictGet members "type") = true →
      ∃ names, entries (dictGet members "properties") = some names ∧
        dictGet closed "additionalProperties" = some (.bool false) ∧
        dictGet closed "required" = some ((dictGet members "required").getD (.arr names))) := by
  obtain ⟨out, hout, hclose⟩ := Option.bind_eq_some_iff.mp h
  have hkept : ∀ key : Text, key ≠ "format" → dictGet out key = dictGet members key := by
    intro key hkey
    obtain ⟨-, ⟨name, -, -, rfl⟩ | ⟨-, rfl⟩⟩ := withoutFormat_eq_some_iff.mp hout
    · rw [dictGet_dictErase, if_neg hkey]
    · rfl
  rw [← hkept "type" (by decide +kernel), ← hkept "additionalProperties" (by decide +kernel),
    ← hkept "required" (by decide +kernel), ← hkept "properties" (by decide +kernel)]
  obtain ⟨hother, rfl⟩ | ⟨names, hobject, hnames, hrequired⟩ := closeObject_eq_some_iff.mp hclose
  · exact ⟨fun _ => ⟨rfl, rfl⟩,
      fun hobject => absurd (hother.symm.trans hobject) Bool.false_ne_true⟩
  · refine ⟨fun hother => absurd (hother.symm.trans hobject) Bool.false_ne_true,
      fun _ => ⟨names, hnames, ?_⟩⟩
    obtain ⟨hsome, rfl⟩ | ⟨hnone, rfl⟩ := hrequired
    · obtain ⟨value, hvalue⟩ := Option.isSome_iff_exists.mp hsome
      rw [dictGet_dictSet, if_pos rfl, dictGet_dictSet, if_neg (by decide +kernel), hvalue]
      exact ⟨rfl, rfl⟩
    · rw [dictGet_dictSet, if_neg (by decide +kernel), dictGet_dictSet, if_pos rfl,
        dictGet_dictSet, if_pos rfl, hnone]
      exact ⟨rfl, rfl⟩

/-- A closed object that says what it requires. -/
structure Closed (t : ResponseSchema) (members : List (Text × Json)) : Prop where
  additional : dictGet members "additionalProperties" = some (.bool false)
  required : dictGet members "required"
    = some (texts (t.required.getD (t.properties.map (·.1))))

section Node

variable {s : ResponseSchema} {closed : List (Text × Json)}
  (h : tightClosing.rewritten s = some (.obj closed))

include h

/-- What a tight node says of formats, required names and other names. -/
theorem words_of_tight :
    dictGet closed "format"
      = ((s.format.filter (· ≠ [])).filter (· ∉ descriptiveFormats)).map .str ∧
    (s.type = some .object → Closed s closed) ∧
    (s.type ≠ some .object → dictGet closed "required" = s.required.map texts ∧
      dictGet closed "additionalProperties" = s.additionalProperties.map .bool) := by
  obtain ⟨walked, closed', hmade, hclose, hwalked⟩ := Closing.exists_of_rewritten h
  obtain rfl := Json.obj.inj hmade
  obtain ⟨hother, hobject⟩ := stated_of_closeTight hclose
  have htype : dictGet walked "type" = s.typeWord := by
    rw [(hwalked "type").1, keyword_type]
    exact @Closing.rewriteAll_typeWord tightClosing s.toSchemaKeywords
  have hrequired : dictGet walked "required" = s.required.map texts := by
    rw [(hwalked "required").1, keyword_required]
    exact @Closing.bind_map_rewriteAll tightClosing _ _ rewriteAll_texts _
  have hadditional : dictGet walked "additionalProperties" = s.additionalProperties.map .bool := by
    rw [(hwalked "additionalProperties").1, keyword_additionalProperties]
    exact @Closing.bind_map_rewriteAll tightClosing _ _ (fun b => rfl) _
  rw [htype, hrequired, hadditional] at hother
  rw [htype, hrequired] at hobject
  refine ⟨?_, fun htyped => ?_, fun htyped => ?_⟩
  · have hformat : dictGet walked "format" = (s.format.filter (· ≠ [])).map .str := by
      rw [(hwalked "format").1, keyword_format]
      exact @Closing.bind_map_rewriteAll tightClosing _ _ (fun text => rfl) _
    have hplain : (fun value => decide (∀ name ∈ descriptiveFormats, value ≠ Json.str name)) ∘
        Json.str = fun name => decide (name ∉ descriptiveFormats) := by
      funext name
      refine decide_eq_decide.mpr ⟨fun h hmem => h name hmem rfl, fun h other hother hsame => ?_⟩
      exact h (Json.str.inj hsame ▸ hother)
    rw [format_of_closeTight hclose, hformat, Option.filter_map, hplain]
  · obtain ⟨names, hnames, hclosed, hkept⟩ := hobject (isObjectType_typeWord.mpr htyped)
    rw [entries_properties (@Closing.walked_properties_obj tightClosing _ _
      (hwalked "properties").1)] at hnames
    obtain rfl := Option.some.inj hnames
    have hdeclared : declaredNames walked = s.properties.map (·.1) := by
      rw [← Closing.declaredNames_rewritten h, declaredNames, declaredNames,
        dictGet_of_closeTight hclose (by decide +kernel) (by decide +kernel) (by decide +kernel)]
    refine ⟨hclosed, ?_⟩
    rw [hkept, hdeclared]
    cases s.required <;> rfl
  · have hword : isObjectType s.typeWord = false := by
      rw [Bool.eq_false_iff]
      exact fun hobject => htyped (isObjectType_typeWord.mp hobject)
    exact ⟨(hother hword).2, (hother hword).1⟩

/-- A reading in which descriptive formats state nothing. -/
def Descriptive (R : Reading) : Prop := ∀ name ∈ descriptiveFormats, ∀ doc, R.format name doc

/-- A format asks of a tight node what it asked. -/
theorem format_of_tight {R : Reading} (hR : Descriptive R) {doc : Json} :
    (∀ name, dictGet closed "format" = some (.str name) → R.format name doc) ↔
      ∀ name, (s.format.filter (· ≠ [])).map Json.str = some (.str name) → R.format name doc := by
  rw [(words_of_tight h).1]
  constructor
  · intro hformat name hname
    by_cases hdescriptive : name ∈ descriptiveFormats
    · exact hR name hdescriptive doc
    · refine hformat name ?_
      obtain ⟨found, hfound, hstr⟩ := Option.map_eq_some_iff.mp hname
      obtain rfl := Json.str.inj hstr
      rw [hfound, Option.filter_some, if_pos (by simpa using hdescriptive), Option.map_some]
  · intro hformat name hname
    obtain ⟨found, hfound, hstr⟩ := Option.map_eq_some_iff.mp hname
    exact hformat name (by rw [(Option.filter_eq_some_iff.mp hfound).1, Option.map_some, hstr])

/-- A tight node asks no less. -/
theorem stated_of_tight {R : Reading} (hR : Descriptive R) {doc : Json}
    (hstated : R.Stated closed doc) : R.Stated (present s.fields) doc := by
  have hdeclared : declaredNames closed = declaredNames (present s.fields) := by
    rw [Closing.declaredNames_rewritten h, declaredNames_present]
  obtain ⟨-, hobject, hother⟩ := words_of_tight h
  refine ⟨?_, fun names hnames => ?_, fun hclosed => ?_⟩
  · rw [keyword_format]
    exact (format_of_tight h hR).mp hstated.format
  · rw [keyword_required] at hnames
    refine hstated.required names ?_
    by_cases htype : s.type = some .object
    · obtain ⟨required, hrequired, harr⟩ := Option.map_eq_some_iff.mp hnames
      rw [(hobject htype).required, hrequired, Option.getD_some, harr]
    · rw [(hother htype).1, hnames]
  · rw [keyword_additionalProperties] at hclosed
    rw [← hdeclared]
    refine hstated.closed ?_
    by_cases htype : s.type = some .object
    · exact (hobject htype).additional
    · rw [(hother htype).2, hclosed]

end Node

/-! ### Tools that are sent strict -/

/-- An object type that says nothing of other names, closed. -/
def closeOff (k : SchemaKeywords) : SchemaKeywords :=
  if k.type = some .object ∧ k.additionalProperties = none then
    { k with additionalProperties := some false }
  else k

theorem closeOff_eq (k : SchemaKeywords) :
    closeOff k = { k with additionalProperties := (closeOff k).additionalProperties } := by
  rw [closeOff]
  split
  · rfl
  · rfl

/-- Closing off changes no plain keyword. -/
theorem keyword_closeOff (s : ResponseSchema) {key : Text} (hkey : key ∈ plainKeys) :
    dictGet (present (s.mapKeywords closeOff).fields) key = dictGet (present s.fields) key := by
  have hkeywords := (s.keywords_mapKeywords closeOff).trans (closeOff_eq _)
  simp only [plainKeys, List.mem_cons, List.not_mem_nil, or_false] at hkey
  obtain rfl | rfl | rfl | rfl | rfl | rfl | rfl | rfl | rfl | rfl | rfl := hkey
  · rw [keyword_type, keyword_type, hkeywords]
    rfl
  · rw [keyword_pattern, keyword_pattern, hkeywords]
  · rw [keyword_enum, keyword_enum, hkeywords]
  · rw [keyword_minimum, keyword_minimum, hkeywords]
  · rw [keyword_maximum, keyword_maximum, hkeywords]
  · rw [keyword_minLength, keyword_minLength, hkeywords]
  · rw [keyword_minItems, keyword_minItems, hkeywords]
  · rw [keyword_minProperties, keyword_minProperties, hkeywords]
  · rw [keyword_maxLength, keyword_maxLength, hkeywords]
  · rw [keyword_maxItems, keyword_maxItems, hkeywords]
  · rw [keyword_maxProperties, keyword_maxProperties, hkeywords]

theorem qualifiedProperties_iff {properties : List (Text × ResponseSchema)} :
    qualifiedProperties properties = true ↔ ∀ entry ∈ properties, qualified entry.2 = true := by
  induction properties with
  | nil => simp [qualifiedProperties]
  | cons entry rest ih =>
    obtain ⟨name, schema⟩ := entry
    rw [qualifiedProperties, Bool.and_eq_true, ih, List.forall_mem_cons]

theorem qualifiedVariants_iff {schemas : List ResponseSchema} :
    qualifiedVariants schemas = true ↔ ∀ schema ∈ schemas, qualified schema = true := by
  induction schemas with
  | nil => simp [qualifiedVariants]
  | cons schema rest ih => rw [qualifiedVariants, Bool.and_eq_true, ih, List.forall_mem_cons]

theorem qualified_iff {s : ResponseSchema} : qualified s = true ↔
    leftOpen s.toSchemaKeywords = false ∧ (∀ entry ∈ s.properties, qualified entry.2 = true) ∧
      (∀ inner, s.items = some inner → qualified inner = true) ∧
      ∀ variant ∈ s.anyOf, qualified variant = true := by
  obtain ⟨keywords, properties, items, anyOf⟩ := s
  have hitems : qualifiedItems items = true ↔
      ∀ inner, items = some inner → qualified inner = true := by
    cases items <;> simp [qualifiedItems]
  rw [qualified, Bool.and_eq_true, Bool.not_eq_true', Bool.and_eq_true, Bool.and_eq_true,
    qualifiedProperties_iff, qualifiedVariants_iff, hitems, and_assoc]

/-- Every schema that stands in a qualified one is. -/
theorem qualified_standing {s t : ResponseSchema} {path : List Step} (h : qualified s = true)
    (ht : s.standing path = some t) : qualified t = true := by
  induction path generalizing s with
  | nil =>
    obtain rfl := Option.some.inj ht
    exact h
  | cons step path ih =>
    rw [ResponseSchema.standing] at ht
    obtain ⟨inner, hinner, ht⟩ := Option.bind_eq_some_iff.mp ht
    refine ih ?_ ht
    obtain ⟨-, hproperties, hitems, hvariants⟩ := qualified_iff.mp h
    cases step with
    | property i =>
      obtain ⟨entry, hentry, rfl⟩ := Option.map_eq_some_iff.mp hinner
      exact hproperties entry (List.mem_of_getElem? hentry)
    | items => exact hitems inner hinner
    | variant i => exact hvariants inner (List.mem_of_getElem? hinner)

/-- A node that leaves nothing open asks, once tight, what it asks closed off. -/
theorem own_tight_iff {t : ResponseSchema} {closed : List (Text × Json)}
    (h : tightClosing.rewritten t = some (.obj closed)) {R : Reading} (hR : Descriptive R)
    (hopen : leftOpen t.toSchemaKeywords = false) {doc : Json} :
    R.Own closed doc ↔ R.Own (present (t.mapKeywords closeOff).fields) doc := by
  have hkeywords := t.keywords_mapKeywords closeOff
  have hplain : ∀ key ∈ plainKeys,
      dictGet closed key = dictGet (present (t.mapKeywords closeOff).fields) key := by
    intro key hkey
    rw [keyword_closeOff t hkey]
    exact Closing.keyword_kept h hkey
  have hdeclared : declaredNames closed
      = declaredNames (present (t.mapKeywords closeOff).fields) := by
    rw [Closing.declaredNames_rewritten h, declaredNames_present, t.properties_mapKeywords,
      List.map_map]
    rfl
  have hformat : (∀ name, dictGet closed "format" = some (.str name) → R.format name doc) ↔
      ∀ name, dictGet (present (t.mapKeywords closeOff).fields) "format" = some (.str name) →
        R.format name doc := by
    rw [keyword_format, hkeywords, closeOff_eq]
    exact format_of_tight h hR
  obtain ⟨-, hobject, hother⟩ := words_of_tight h
  have hrequired : dictGet closed "required"
      = dictGet (present (t.mapKeywords closeOff).fields) "required" := by
    rw [keyword_required, hkeywords, closeOff_eq]
    by_cases htype : t.type = some .object
    · rw [(hobject htype).required]
      cases hnames : t.required with
      | none => simp [leftOpen, htype, hnames] at hopen
      | some names => rfl
    · exact (hother htype).1
  have hadditional : dictGet closed "additionalProperties"
      = dictGet (present (t.mapKeywords closeOff).fields) "additionalProperties" := by
    rw [keyword_additionalProperties, hkeywords, closeOff]
    by_cases htype : t.type = some .object
    · rw [(hobject htype).additional]
      cases hvalue : t.additionalProperties with
      | none => simp [htype]
      | some value =>
        cases value with
        | true => simp [leftOpen, htype, hvalue] at hopen
        | false => simp [hvalue]
    · rw [(hother htype).2, if_neg fun hboth => htype hboth.1]
  constructor
  · intro hown
    refine hown.of_same hplain ⟨hformat.mp hown.format, ?_, ?_⟩
    · rw [← hrequired]
      exact hown.required
    · rw [← hadditional, ← hdeclared]
      exact hown.closed
  · intro hown
    refine hown.of_same (fun key hkey => (hplain key hkey).symm) ⟨hformat.mpr hown.format, ?_, ?_⟩
    · rw [hrequired]
      exact hown.required
    · rw [hadditional, hdeclared]
      exact hown.closed

/-! ### Soundness -/

/-- A default the rewriting leaves as it is: no object in it has a descriptive format or one that
cannot be looked up, and each of an object type is closed and says what it requires. -/
def leftByTighten : Json → Bool := eachObject leftTight

/-- Every default is left as it is. -/
def DefaultsLeft (s : ResponseSchema) : Prop :=
  ∀ path t, s.standing path = some t → ∀ value, t.default = some value →
    leftByTighten value = true

/-- No property is named `format`. -/
def FormatFree (s : ResponseSchema) : Prop :=
  ∀ path t, s.standing path = some t → ∀ entry ∈ t.properties, entry.1 ≠ "format"

/-- A tight schema that only narrows: at every place it keeps the node's words, if its default is
left, and closes an object type, and it accepts no more than the translation. -/
structure Narrows (s : ResponseSchema) (made : Json) : Prop where
  words : ∀ path t, s.standing path = some t → ∃ members,
    schemaAt path made = some (.obj members) ∧
      ((∀ value, t.default = some value → leftByTighten value = true) →
        Closing.KeepsWords t members) ∧
      (t.type = some .object → Closed t members)
  narrower : ∀ R, Descriptive R → ∀ doc, Accepts R made doc → Accepts R (toJsonSchema s) doc

theorem rewriteAll_left {value : Json} (h : leftByTighten value = true) :
    rewriteAll closeTight value = some value :=
  rewriteAll_of_eachObject (fun _ => closeTight_of_leftTight) value h

theorem narrows_of_rewritten {s : ResponseSchema} {made : Json}
    (h : tightClosing.rewritten s = some made) : Narrows s made where
  words := by
    intro path t ht
    obtain ⟨made', hmade', hat⟩ := Closing.schemaAt_rewritten h ht
    obtain ⟨-, closed, rfl, -, -⟩ := Closing.exists_of_rewritten hmade'
    refine ⟨closed, hat, fun hleft => ?_, (words_of_tight hmade').2.1⟩
    exact (Closing.keepsWords_iff hmade').mpr fun value hvalue => rewriteAll_left (hleft value hvalue)
  narrower := by
    intro R hR doc haccepts
    refine Closing.narrower_of_rewritten h (fun path t closed ht hclosed doc hown => ?_) haccepts
    exact hown.of_same (fun key hkey => Closing.keyword_kept hclosed hkey)
      (stated_of_tight hclosed hR hown.stated)

theorem closable_of_formatFree {t : ResponseSchema} (hformat : ∀ entry ∈ t.properties,
    entry.1 ≠ "format") (hdefault : ∀ value, t.default = some value → leftByTighten value = true) :
    Closing.Closable tightClosing t where
  default := fun value hvalue => ⟨value, rewriteAll_left (hdefault value hvalue)⟩
  map := by
    intro declared hobjects hnames
    have hnone : dictGet declared "format" = none := by
      rw [Option.eq_none_iff_forall_ne_some]
      intro value hvalue
      have hmem := List.mem_map_of_mem (f := Prod.fst) (dictGet_mem hvalue)
      rw [hnames] at hmem
      obtain ⟨entry, hentry, hname⟩ := List.mem_map.mp hmem
      exact hformat entry hentry hname
    have htype : isObjectType (dictGet declared "type") = false := by
      cases htype : dictGet declared "type" with
      | none => rfl
      | some value =>
        obtain ⟨members, hmembers⟩ := hobjects _ (dictGet_mem htype)
        obtain rfl : value = .obj members := hmembers
        exact isObjectType_obj members
    refine ⟨declared, closeTight_of_leftTight (leftTight_iff.mpr ⟨?_, fun hobject => ?_⟩)⟩
    · rw [withoutFormat, hnone]
    · rw [htype] at hobject
      cases hobject
  node := by
    intro walked hwalked
    have hformat : dictGet walked "format" = (t.format.filter (· ≠ [])).map .str := by
      rw [hwalked "format", keyword_format]
      exact @Closing.bind_map_rewriteAll tightClosing _ _ (fun text => rfl) _
    obtain ⟨out, hout⟩ : ∃ out, withoutFormat walked = some out := by
      rw [withoutFormat, hformat]
      cases t.format.filter (· ≠ []) with
      | none => exact ⟨_, rfl⟩
      | some name => exact ⟨_, rfl⟩
    have hproperties : dictGet out "properties" = dictGet walked "properties" := by
      obtain ⟨-, ⟨name, -, -, rfl⟩ | ⟨-, rfl⟩⟩ := withoutFormat_eq_some_iff.mp hout
      · rw [dictGet_dictErase, if_neg (by decide +kernel)]
      · rfl
    have hentries := entries_properties
      (@Closing.walked_properties_obj tightClosing _ _ (hwalked "properties"))
    have hclose : tightClosing.close walked = closeObject out := by
      change (withoutFormat walked).bind closeObject = _
      rw [hout, Option.bind_some]
    rw [hclose, closeObject, hproperties, hentries]
    split
    · exact ⟨_, rfl⟩
    · exact ⟨_, rfl⟩

/-- **A tight schema only narrows**, and where no property is named `format` and every default is
left as it is, there is one. A tool's schema that is sent strict accepts exactly what its
declaration does with the objects that say nothing of other names closed. -/
theorem schemaForAnthropic_narrows (s : ResponseSchema) :
    (FormatFree s → DefaultsLeft s →
      ∃ made enough, ∀ fuel ≥ enough, schemaForAnthropic fuel s = .ok made) ∧
    (∀ fuel made, schemaForAnthropic fuel s = .ok made → Narrows s made) ∧
    ∀ fuel made, toolInputSchema fuel (some s) = .ok (made, true) →
      ∀ R, Descriptive R → ∀ doc,
        Accepts R made doc ↔ Accepts R (toJsonSchema (s.mapKeywords closeOff)) doc := by
  refine ⟨fun hformat hdefaults => ?_, fun fuel made h => ?_, fun fuel made h R hR doc => ?_⟩
  · obtain ⟨made, hmade⟩ := @Closing.exists_rewritten tightClosing s
      fun path t ht => closable_of_formatFree (hformat path t ht) (hdefaults path t ht)
    obtain ⟨enough, henough⟩ := eventually_atTop.mp (tighten_of_rewriteAll hmade)
    exact ⟨made, enough, henough⟩
  · exact narrows_of_rewritten (rewriteAll_of_tighten h)
  · rw [toolInputSchema] at h
    split at h
    · next hstrict =>
      have hmade : schemaForAnthropic fuel s = .ok made := by
        cases hanswer : schemaForAnthropic fuel s with
        | error e => rw [hanswer] at h; cases h
        | ok found =>
          rw [hanswer] at h
          cases h
          rfl
      have hrewritten : tightClosing.rewritten s = some made := rewriteAll_of_tighten hmade
      have hopen : ∀ path t, s.standing path = some t → leftOpen t.toSchemaKeywords = false :=
        fun path t ht => (qualified_iff.mp (qualified_standing hstrict.2 ht)).1
      exact ⟨Closing.narrower_of_mapped hrewritten fun path t closed ht hclosed doc hown =>
          (own_tight_iff hclosed hR (hopen path t ht)).mp hown,
        Closing.wider_of_mapped hrewritten fun path t closed ht hclosed doc hown =>
          (own_tight_iff hclosed hR (hopen path t ht)).mpr hown⟩
    · have hother := congrArg Prod.snd (Except.ok.inj h)
      cases hother

/-- An object that requires nothing, and says nothing of other names. -/
def anyArguments : ResponseSchema where
  type := some .object
  required := some []

/-- What is sent for `anyArguments`. -/
def anyArgumentsTight : List (Text × Json) :=
  [("type", .str "object"), ("required", .arr []), ("additionalProperties", .bool false)]

theorem standing_anyArguments {path : List Step} {t : ResponseSchema}
    (h : anyArguments.standing path = some t) : t = anyArguments := by
  cases path with
  | nil => exact (Option.some.inj h).symm
  | cons step path =>
    have hnone : anyArguments.into step = none := by cases step <;> rfl
    rw [ResponseSchema.standing, hnone] at h
    cases h

theorem toolInputSchema_anyArguments :
    toolInputSchema 4 (some anyArguments) = .ok (.obj anyArgumentsTight, true) := by
  decide +kernel

theorem schemaForAnthropic_narrows_anyArguments :
    (∃ made enough, ∀ fuel ≥ enough, schemaForAnthropic fuel anyArguments = .ok made) ∧
    Narrows anyArguments (.obj anyArgumentsTight) ∧
    ∀ doc, Accepts openReading (.obj anyArgumentsTight) doc ↔
      Accepts openReading (toJsonSchema (anyArguments.mapKeywords closeOff)) doc := by
  obtain ⟨htotal, hnarrows, hstrict⟩ := schemaForAnthropic_narrows anyArguments
  refine ⟨htotal (fun path t ht entry hentry => ?_) (fun path t ht value hvalue => ?_),
    hnarrows 4 _ (by decide +kernel), hstrict 4 _ toolInputSchema_anyArguments openReading
      fun name hname doc => trivial⟩
  · obtain rfl := standing_anyArguments ht
    cases hentry
  · obtain rfl := standing_anyArguments ht
    cases hvalue

/-- An object with a property named `format`. -/
def formatNamed : ResponseSchema where
  type := some .object
  required := some []
  additionalProperties := some false
  properties := [("format", { type := some .string })]

/-- An object with a default that states a format. -/
def formatDefault : ResponseSchema where
  type := some .object
  default := some (.obj [("format", .str "enum")])

/-- **A strict tool refuses an argument its declaration accepts**, as it says nothing of other
names. A property named `format` cannot be looked up, and a default loses a format. -/
theorem argument_refused :
    (schemaRefusal anyArguments = none ∧
      toolInputSchema 4 (some anyArguments) = .ok (.obj anyArgumentsTight, true) ∧
      Accepts openReading (toJsonSchema anyArguments) (.obj [("b", .int 1)]) ∧
      ¬Accepts openReading (.obj anyArgumentsTight) (.obj [("b", .int 1)])) ∧
    (schemaRefusal formatNamed = none ∧
      schemaForAnthropic 4 formatNamed = .error .typeError) ∧
    schemaRefusal formatDefault = none ∧
      ((schemaForAnthropic 4 formatDefault).toOption.bind (·.get "default")) = some (.obj []) := by
  refine ⟨⟨rfl, toolInputSchema_anyArguments, ?_, fun haccepts => ?_⟩, ⟨rfl, by decide +kernel⟩,
    rfl, by decide +kernel⟩
  · refine accepts_toJsonSchema.mpr ⟨⟨?_, ?_, ?_, ?_, ?_, ?_, ?_, ?_, ?_, ?_⟩, ?_, ?_, ?_⟩
    · intro type htype
      obtain rfl := Option.some.inj htype
      exact .inl List.mem_cons_self
    · intro name hname
      cases hname
    · intro pattern hpattern
      cases hpattern
    · intro values hvalues
      cases hvalues
    · intro bound hbound
      cases hbound
    · intro bound hbound
      cases hbound
    · intro sized n hn
      cases sized <;> cases hn
    · intro sized n hn
      cases sized <;> cases hn
    · intro names hnames name hname
      obtain rfl := Option.some.inj hnames
      cases hname
    · intro hclosed
      cases hclosed
    · intro name inner hinner
      cases hinner
    · intro inner hinner
      cases hinner
    · exact .inl rfl
  · have hclosed := (accepts_obj.mp haccepts).1.closed (by decide +kernel) _ rfl _ List.mem_cons_self
    exact absurd hclosed (by decide +kernel)

end AiraGateway.Anthropic
