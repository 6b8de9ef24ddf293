import AiraGateway.Core.Schema
import AiraGateway.Pipeline.NamedModels

/-!
# Rewriting every object of a schema

A dialect that takes a narrower JSON Schema rewrites the translation of a caller's: every object in
it, from the inside out (`rewriteAll`). Property maps and literals are objects as well, and are
rewritten like a schema.

* `schemaAt_rewritten`: at every place of a schema stands what the rewriting makes of the node
  there.
* `narrower_of_rewritten`: where it makes every node's own keywords no weaker, the rewriting of a
  schema accepts no more than its translation.
* `rewriteAll_eq_self_iff`: a value is left as it is where each object in it is.
-/

namespace AiraGateway

open JsonSchema

/-! ### The walk -/

section Walk

variable (close : List (Text × Json) → Option (List (Text × Json)))

mutual

/-- Every object of a value, closed from the inside out; nothing where closing one fails. -/
def rewriteAll : Json → Option Json
  | .arr items => (rewriteItems items).map .arr
  | .obj members => ((rewriteMembers members).bind close).map .obj
  | .null => some .null
  | .bool b => some (.bool b)
  | .int n => some (.int n)
  | .float text => some (.float text)
  | .str text => some (.str text)

def rewriteItems : List Json → Option (List Json)
  | [] => some []
  | item :: rest => do
    let item ← rewriteAll item
    let rest ← rewriteItems rest
    some (item :: rest)

def rewriteMembers : List (Text × Json) → Option (List (Text × Json))
  | [] => some []
  | (name, value) :: rest => do
    let value ← rewriteAll value
    let rest ← rewriteMembers rest
    some ((name, value) :: rest)

end

variable {close}

theorem rewriteItems_iff {items made : List Json} :
    rewriteItems close items = some made ↔
      List.Forall₂ (fun item item' => rewriteAll close item = some item') items made := by
  induction items generalizing made with
  | nil =>
    rw [rewriteItems, List.forall₂_nil_left_iff, Option.some.injEq]
    exact eq_comm
  | cons item rest ih =>
    rw [rewriteItems, List.forall₂_cons_left_iff]
    simp only [Option.bind_eq_bind, Option.bind_eq_some_iff, Option.some.injEq, ih]
    constructor
    · rintro ⟨item', hitem, rest', hrest, rfl⟩
      exact ⟨item', rest', hitem, hrest, rfl⟩
    · rintro ⟨item', rest', hitem, hrest, rfl⟩
      exact ⟨item', hitem, rest', hrest, rfl⟩

/-- A list is walked item by item. -/
theorem getElem?_rewriteItems {items made : List Json} (h : rewriteItems close items = some made)
    (i : ℕ) : made[i]? = (items[i]?).bind (rewriteAll close) ∧
      ∀ item, items[i]? = some item → ∃ item', rewriteAll close item = some item' := by
  have hpairs := rewriteItems_iff.mp h
  clear h
  induction hpairs generalizing i with
  | nil => exact ⟨rfl, fun item hitem => by cases hitem⟩
  | cons hitem _ ih =>
    cases i with
    | zero =>
      refine ⟨hitem.symm, fun item hget => ?_⟩
      obtain rfl := Option.some.inj hget
      exact ⟨_, hitem⟩
    | succ i => exact ih i

theorem rewriteMembers_iff {members made : List (Text × Json)} :
    rewriteMembers close members = some made ↔
      List.Forall₂ (fun entry entry' => entry'.1 = entry.1 ∧
        rewriteAll close entry.2 = some entry'.2) members made := by
  induction members generalizing made with
  | nil =>
    rw [rewriteMembers, List.forall₂_nil_left_iff, Option.some.injEq]
    exact eq_comm
  | cons entry rest ih =>
    rw [rewriteMembers, List.forall₂_cons_left_iff]
    simp only [Option.bind_eq_bind, Option.bind_eq_some_iff, Option.some.injEq, ih]
    constructor
    · rintro ⟨value, hvalue, rest', hrest, rfl⟩
      exact ⟨(entry.1, value), rest', ⟨rfl, hvalue⟩, hrest, rfl⟩
    · rintro ⟨⟨name, value⟩, rest', ⟨hname, hvalue⟩, hrest, rfl⟩
      obtain rfl : name = entry.1 := hname
      exact ⟨value, hvalue, rest', hrest, rfl⟩

/-- An object is walked member by member. -/
theorem getElem?_rewriteMembers {members made : List (Text × Json)}
    (h : rewriteMembers close members = some made) {i : ℕ} {entry : Text × Json}
    (hget : members[i]? = some entry) :
    ∃ value, rewriteAll close entry.2 = some value ∧ made[i]? = some (entry.1, value) := by
  have hpairs := rewriteMembers_iff.mp h
  clear h
  induction hpairs generalizing i with
  | nil => cases hget
  | cons hentry _ ih =>
    cases i with
    | zero =>
      obtain rfl := Option.some.inj hget
      exact ⟨_, hentry.2, by rw [List.getElem?_cons_zero, ← hentry.1]⟩
    | succ i => exact ih hget

theorem keys_rewriteMembers {members made : List (Text × Json)}
    (h : rewriteMembers close members = some made) : made.map (·.1) = members.map (·.1) := by
  have hpairs := rewriteMembers_iff.mp h
  clear h
  induction hpairs with
  | nil => rfl
  | cons hentry _ ih => rw [List.map_cons, List.map_cons, hentry.1, ih]

/-- What a name holds after the walk is what the walk makes of what it held. -/
theorem dictGet_rewriteMembers {members made : List (Text × Json)}
    (h : rewriteMembers close members = some made) (key : Text) :
    dictGet made key = (dictGet members key).bind (rewriteAll close) := by
  have hpairs := rewriteMembers_iff.mp h
  clear h
  induction hpairs with
  | nil => rfl
  | cons hentry _ ih =>
    rw [dictGet, dictGet] at ih ⊢
    rw [List.find?_cons, List.find?_cons, hentry.1]
    split
    · rw [Option.map_some, Option.map_some, Option.bind_some, hentry.2]
    · exact ih

/-- What was walked came of something. -/
theorem mem_rewriteMembers {members made : List (Text × Json)}
    (h : rewriteMembers close members = some made) {entry' : Text × Json} (hmem : entry' ∈ made) :
    ∃ entry ∈ members, entry'.1 = entry.1 ∧ rewriteAll close entry.2 = some entry'.2 := by
  have hpairs := rewriteMembers_iff.mp h
  clear h
  induction hpairs with
  | nil => cases hmem
  | cons hentry _ ih =>
    obtain rfl | hrest := List.mem_cons.mp hmem
    · exact ⟨_, List.mem_cons_self, hentry⟩
    · obtain ⟨entry, hentry, hmade⟩ := ih hrest
      exact ⟨entry, List.mem_cons_of_mem _ hentry, hmade⟩

/-- What was there could be walked. -/
theorem isSome_of_rewriteMembers {members made : List (Text × Json)}
    (h : rewriteMembers close members = some made) {entry : Text × Json} (hmem : entry ∈ members) :
    ∃ value, rewriteAll close entry.2 = some value := by
  obtain ⟨i, hi⟩ := List.mem_iff_getElem?.mp hmem
  obtain ⟨value, hvalue, -⟩ := getElem?_rewriteMembers h hi
  exact ⟨value, hvalue⟩

theorem rewriteAll_arr {items : List Json} {made : Json}
    (h : rewriteAll close (.arr items) = some made) :
    ∃ made', rewriteItems close items = some made' ∧ made = .arr made' := by
  rw [rewriteAll] at h
  obtain ⟨made', hmade', rfl⟩ := Option.map_eq_some_iff.mp h
  exact ⟨made', hmade', rfl⟩

theorem rewriteAll_obj {members : List (Text × Json)} {made : Json}
    (h : rewriteAll close (.obj members) = some made) :
    ∃ walked closed, rewriteMembers close members = some walked ∧ close walked = some closed ∧
      made = .obj closed := by
  rw [rewriteAll] at h
  obtain ⟨closed, hclosed, rfl⟩ := Option.map_eq_some_iff.mp h
  obtain ⟨walked, hwalked, hclose⟩ := Option.bind_eq_some_iff.mp hclosed
  exact ⟨walked, closed, hwalked, hclose, rfl⟩

theorem rewriteAll_texts (names : List Text) :
    rewriteAll close (texts names) = some (texts names) := by
  rw [texts, rewriteAll, Option.map_eq_some_iff]
  refine ⟨_, rewriteItems_iff.mpr ?_, rfl⟩
  rw [List.forall₂_same]
  intro item hitem
  obtain ⟨name, -, rfl⟩ := List.mem_map.mp hitem
  rfl

/-- A walk that can do every value can be done. -/
theorem exists_rewriteMembers {members : List (Text × Json)}
    (h : ∀ entry ∈ members, ∃ value, rewriteAll close entry.2 = some value) :
    ∃ made, rewriteMembers close members = some made := by
  induction members with
  | nil => exact ⟨[], rfl⟩
  | cons entry rest ih =>
    obtain ⟨value, hvalue⟩ := h entry List.mem_cons_self
    obtain ⟨made, hmade⟩ := ih fun e he => h e (List.mem_cons_of_mem _ he)
    exact ⟨(entry.1, value) :: made, rewriteMembers_iff.mpr
      (.cons ⟨rfl, hvalue⟩ (rewriteMembers_iff.mp hmade))⟩

theorem exists_rewriteItems {items : List Json}
    (h : ∀ item ∈ items, ∃ value, rewriteAll close item = some value) :
    ∃ made, rewriteItems close items = some made := by
  induction items with
  | nil => exact ⟨[], rfl⟩
  | cons item rest ih =>
    obtain ⟨value, hvalue⟩ := h item List.mem_cons_self
    obtain ⟨made, hmade⟩ := ih fun e he => h e (List.mem_cons_of_mem _ he)
    exact ⟨value :: made, rewriteItems_iff.mpr (.cons hvalue (rewriteItems_iff.mp hmade))⟩

end Walk

/-! ### Values that are left as they are -/

section Holding

variable {members : List (Text × Json)} {key key' : Text} {value value' : Json}

/-- The key is there, with the value. -/
def holdsAs (members : List (Text × Json)) (key : Text) (value : Json) : Bool :=
  members.any (·.1 = key) && members.all fun entry => entry.1 ≠ key || entry.2 = value

theorem holdsAs_iff : holdsAs members key value = true ↔
    key ∈ members.map (·.1) ∧ ∀ entry ∈ members, entry.1 = key → entry.2 = value := by
  simp only [holdsAs, Bool.and_eq_true, List.any_eq_true, decide_eq_true_eq, List.all_eq_true,
    Bool.or_eq_true, List.mem_map, ne_eq]
  exact and_congr Iff.rfl (forall₂_congr fun entry _ => Decidable.imp_iff_not_or.symm)

theorem dictSet_eq_self (h : holdsAs members key value = true) :
    dictSet members key value = members := by
  obtain ⟨hkey, hvalue⟩ := holdsAs_iff.mp h
  have hany : members.any (·.1 = key) = true := by
    obtain ⟨entry, hentry, hname⟩ := List.mem_map.mp hkey
    exact List.any_eq_true.mpr ⟨entry, hentry, decide_eq_true hname⟩
  rw [dictSet, if_pos hany]
  refine (List.map_congr_left fun entry hentry => ?_).trans (List.map_id members)
  split
  · next hname => exact Prod.ext hname.symm (hvalue entry hentry hname).symm
  · rfl

theorem mem_dictSet {entry : Text × Json} (h : entry ∈ dictSet members key value) :
    entry = (key, value) ∨ entry ∈ members ∧ entry.1 ≠ key := by
  rw [dictSet] at h
  split at h
  · obtain ⟨source, hsource, rfl⟩ := List.mem_map.mp h
    split
    · exact .inl rfl
    · next hname => exact .inr ⟨hsource, hname⟩
  · next hnone =>
    obtain hmem | hlast := List.mem_append.mp h
    · refine .inr ⟨hmem, fun hname => hnone ?_⟩
      exact List.any_eq_true.mpr ⟨entry, hmem, decide_eq_true hname⟩
    · exact .inl (List.mem_singleton.mp hlast)

theorem key_mem_dictSet : key ∈ (dictSet members key value).map (·.1) := by
  have hget : dictGet (dictSet members key value) key = some value := by
    rw [dictGet_dictSet, if_pos rfl]
  exact List.mem_map.mpr ⟨_, dictGet_mem hget, rfl⟩

/-- What is set is held. -/
theorem holdsAs_dictSet : holdsAs (dictSet members key value) key value = true := by
  refine holdsAs_iff.mpr ⟨key_mem_dictSet, fun entry hentry hname => ?_⟩
  obtain rfl | ⟨-, hother⟩ := mem_dictSet hentry
  · rfl
  · exact absurd hname hother

/-- What is held stays so when another key is set. -/
theorem holdsAs_dictSet_of_ne (hne : key ≠ key') (h : holdsAs members key value = true) :
    holdsAs (dictSet members key' value') key value = true := by
  obtain ⟨hkey, hvalue⟩ := holdsAs_iff.mp h
  obtain ⟨entry, hentry, rfl⟩ := List.mem_map.mp hkey
  refine holdsAs_iff.mpr ⟨?_, fun other hother hname => ?_⟩
  · have hstays : entry ∈ dictSet members key' value' := by
      rw [dictSet]
      split
      · exact List.mem_map.mpr ⟨entry, hentry, if_neg hne⟩
      · exact List.mem_append_left _ hentry
    exact List.mem_map_of_mem hstays
  · obtain rfl | ⟨hmem, -⟩ := mem_dictSet hother
    · exact absurd hname.symm hne
    · exact hvalue other hmem hname

variable {close : List (Text × Json) → Option (List (Text × Json))}

/-- What is held and left as it is was held before the walk. -/
theorem holdsAs_of_rewriteMembers {walked : List (Text × Json)}
    (h : rewriteMembers close members = some walked)
    (hleft : rewriteAll close value = some value) (hholds : holdsAs members key value = true) :
    holdsAs walked key value = true := by
  obtain ⟨hkey, hvalue⟩ := holdsAs_iff.mp hholds
  refine holdsAs_iff.mpr ⟨by rwa [keys_rewriteMembers h], fun entry' hentry' hname => ?_⟩
  obtain ⟨entry, hentry, hsame, hmade⟩ := mem_rewriteMembers h hentry'
  rw [hvalue entry hentry (hsame.symm.trans hname), hleft] at hmade
  exact (Option.some.inj hmade).symm

/-- What a loop over a value that is left as it is goes through is left as well. -/
theorem rewriteAll_entries {names : List Json} (hleft : rewriteAll close value = some value)
    (h : entries (some value) = some names) :
    rewriteAll close (.arr names) = some (.arr names) := by
  rw [entries, Option.filter_some] at h
  split at h
  · next hfalse =>
    obtain rfl := Option.some.inj h
    rfl
  · next found hfound =>
    obtain rfl : value = found := by
      split at hfound
      · exact Option.some.inj hfound
      · cases hfound
    cases value with
    | arr items =>
      obtain rfl := Option.some.inj h
      exact hleft
    | str text =>
      obtain rfl := Option.some.inj h
      have hstrs : text.map (fun c => Json.str [c]) = (text.map fun c => [c]).map .str := by
        rw [List.map_map]
        rfl
      rw [hstrs]
      exact rewriteAll_texts _
    | obj held =>
      obtain rfl := Option.some.inj h
      have hstrs : held.map (fun entry => Json.str entry.1) = (held.map (·.1)).map .str := by
        rw [List.map_map]
        rfl
      rw [hstrs]
      exact rewriteAll_texts _
    | null | bool _ | int _ | float _ => cases h

end Holding

section Left

variable (ok : List (Text × Json) → Bool)

mutual

/-- Every object in a value passes. -/
def eachObject : Json → Bool
  | .arr items => eachObjectItems items
  | .obj members => eachObjectMembers members && ok members
  | .null | .bool _ | .int _ | .float _ | .str _ => true

def eachObjectItems : List Json → Bool
  | [] => true
  | item :: rest => eachObject item && eachObjectItems rest

def eachObjectMembers : List (Text × Json) → Bool
  | [] => true
  | (_, value) :: rest => eachObject value && eachObjectMembers rest

end

variable {ok} {close : List (Text × Json) → Option (List (Text × Json))}

mutual

/-- **A value is left as it is** where every object in it passes. -/
theorem rewriteAll_eq_self_iff
    (hok : ∀ members, close members = some members ↔ ok members = true)
    (hback : ∀ members walked, rewriteMembers close members = some walked →
      close walked = some members → walked = members) :
    ∀ json : Json, rewriteAll close json = some json ↔ eachObject ok json = true
  | .arr items => by
    rw [rewriteAll, eachObject, ← rewriteItems_eq_self_iff hok hback items,
      Option.map_eq_some_iff]
    simp
  | .obj members => by
    rw [eachObject, Bool.and_eq_true, ← rewriteMembers_eq_self_iff hok hback members, ← hok]
    constructor
    · intro h
      obtain ⟨walked, closed, hwalked, hclose, hmade⟩ := rewriteAll_obj h
      obtain rfl := Json.obj.inj hmade
      obtain rfl := hback members walked hwalked hclose
      exact ⟨hwalked, hclose⟩
    · rintro ⟨hwalked, hclose⟩
      rw [rewriteAll, hwalked, Option.bind_some, hclose, Option.map_some]
  | .null => by simp [rewriteAll, eachObject]
  | .bool _ => by simp [rewriteAll, eachObject]
  | .int _ => by simp [rewriteAll, eachObject]
  | .float _ => by simp [rewriteAll, eachObject]
  | .str _ => by simp [rewriteAll, eachObject]

theorem rewriteItems_eq_self_iff
    (hok : ∀ members, close members = some members ↔ ok members = true)
    (hback : ∀ members walked, rewriteMembers close members = some walked →
      close walked = some members → walked = members) :
    ∀ items : List Json, rewriteItems close items = some items ↔ eachObjectItems ok items = true
  | [] => by simp [rewriteItems, eachObjectItems]
  | item :: rest => by
    rw [eachObjectItems, Bool.and_eq_true, ← rewriteAll_eq_self_iff hok hback item,
      ← rewriteItems_eq_self_iff hok hback rest, rewriteItems_iff, rewriteItems_iff,
      List.forall₂_cons]

theorem rewriteMembers_eq_self_iff
    (hok : ∀ members, close members = some members ↔ ok members = true)
    (hback : ∀ members walked, rewriteMembers close members = some walked →
      close walked = some members → walked = members) :
    ∀ members : List (Text × Json),
      rewriteMembers close members = some members ↔ eachObjectMembers ok members = true
  | [] => by simp [rewriteMembers, eachObjectMembers]
  | (name, value) :: rest => by
    rw [eachObjectMembers, Bool.and_eq_true, ← rewriteAll_eq_self_iff hok hback value,
      ← rewriteMembers_eq_self_iff hok hback rest, rewriteMembers_iff, rewriteMembers_iff,
      List.forall₂_cons, eq_self_iff_true, true_and]

end

mutual

/-- What is closed to what passes, object by object, passes. -/
theorem eachObject_of_rewriteAll
    (hclose : ∀ walked closed, eachObjectMembers ok walked = true → close walked = some closed →
      eachObjectMembers ok closed = true ∧ ok closed = true) :
    ∀ {json made : Json}, rewriteAll close json = some made → eachObject ok made = true
  | .arr items, made, h => by
    obtain ⟨made', hmade', rfl⟩ := rewriteAll_arr h
    exact eachObject_of_rewriteItems hclose hmade'
  | .obj members, made, h => by
    obtain ⟨walked, closed, hwalked, hclosed, rfl⟩ := rewriteAll_obj h
    rw [eachObject, Bool.and_eq_true]
    exact hclose walked closed (eachObject_of_rewriteMembers hclose hwalked) hclosed
  | .null, _, h | .bool _, _, h | .int _, _, h | .float _, _, h | .str _, _, h => by
    obtain rfl := Option.some.inj h
    rfl

theorem eachObject_of_rewriteItems
    (hclose : ∀ walked closed, eachObjectMembers ok walked = true → close walked = some closed →
      eachObjectMembers ok closed = true ∧ ok closed = true) :
    ∀ {items made : List Json}, rewriteItems close items = some made →
      eachObjectItems ok made = true
  | [], made, h => by
    obtain rfl := Option.some.inj h
    rfl
  | item :: rest, made, h => by
    obtain ⟨item', rest', hitem, hrest, rfl⟩ :=
      List.forall₂_cons_left_iff.mp (rewriteItems_iff.mp h)
    rw [eachObjectItems, Bool.and_eq_true]
    exact ⟨eachObject_of_rewriteAll hclose hitem,
      eachObject_of_rewriteItems hclose (rewriteItems_iff.mpr hrest)⟩

theorem eachObject_of_rewriteMembers
    (hclose : ∀ walked closed, eachObjectMembers ok walked = true → close walked = some closed →
      eachObjectMembers ok closed = true ∧ ok closed = true) :
    ∀ {members made : List (Text × Json)}, rewriteMembers close members = some made →
      eachObjectMembers ok made = true
  | [], made, h => by
    obtain rfl := Option.some.inj h
    rfl
  | (name, value) :: rest, made, h => by
    obtain ⟨⟨name', value'⟩, rest', ⟨-, hvalue⟩, hrest, rfl⟩ :=
      List.forall₂_cons_left_iff.mp (rewriteMembers_iff.mp h)
    rw [eachObjectMembers, Bool.and_eq_true]
    exact ⟨eachObject_of_rewriteAll hclose hvalue,
      eachObject_of_rewriteMembers hclose (rewriteMembers_iff.mpr hrest)⟩

end

theorem eachObjectMembers_iff {members : List (Text × Json)} :
    eachObjectMembers ok members = true ↔ ∀ entry ∈ members, eachObject ok entry.2 = true := by
  induction members with
  | nil => simp [eachObjectMembers]
  | cons entry rest ih =>
    obtain ⟨name, value⟩ := entry
    rw [eachObjectMembers, Bool.and_eq_true, ih, List.forall_mem_cons]

theorem eachObjectItems_iff {items : List Json} :
    eachObjectItems ok items = true ↔ ∀ item ∈ items, eachObject ok item = true := by
  induction items with
  | nil => simp [eachObjectItems]
  | cons item rest ih => rw [eachObjectItems, Bool.and_eq_true, ih, List.forall_mem_cons]

/-- Where every object in a value passes, so it does in what a loop over it goes through. -/
theorem eachObject_entries {v : Option Json} {names : List Json}
    (hv : ∀ value, v = some value → eachObject ok value = true) (h : entries v = some names) :
    eachObject ok (.arr names) = true := by
  have hstrs : ∀ texts : List Text, eachObject ok (.arr (texts.map .str)) = true := by
    intro texts
    refine eachObjectItems_iff.mpr fun item hitem => ?_
    obtain ⟨text, -, rfl⟩ := List.mem_map.mp hitem
    rfl
  rw [entries] at h
  split at h
  · obtain rfl := Option.some.inj h
    rfl
  · next value hvalue =>
    have hpasses := hv value (Option.filter_eq_some_iff.mp hvalue).1
    cases value with
    | arr items =>
      obtain rfl := Option.some.inj h
      exact hpasses
    | str text =>
      obtain rfl := Option.some.inj h
      simpa [Function.comp_def] using hstrs (text.map fun c => [c])
    | obj held =>
      obtain rfl := Option.some.inj h
      simpa [Function.comp_def] using hstrs (held.map (·.1))
    | null | bool _ | int _ | float _ => cases h

mutual

/-- A value in which every object passes and is left as it is, is left as it is. -/
theorem rewriteAll_of_eachObject
    (hok : ∀ members, ok members = true → close members = some members) :
    ∀ json : Json, eachObject ok json = true → rewriteAll close json = some json
  | .arr items, h => by
    rw [rewriteAll, rewriteItems_of_eachObject hok items h, Option.map_some]
  | .obj members, h => by
    rw [eachObject, Bool.and_eq_true] at h
    rw [rewriteAll, rewriteMembers_of_eachObject hok members h.1, Option.bind_some,
      hok members h.2, Option.map_some]
  | .null, _ | .bool _, _ | .int _, _ | .float _, _ | .str _, _ => rfl

theorem rewriteItems_of_eachObject
    (hok : ∀ members, ok members = true → close members = some members) :
    ∀ items : List Json, eachObjectItems ok items = true → rewriteItems close items = some items
  | [], _ => rfl
  | item :: rest, h => by
    rw [eachObjectItems, Bool.and_eq_true] at h
    have hitem := rewriteAll_of_eachObject hok item h.1
    have hrest := rewriteItems_of_eachObject hok rest h.2
    exact rewriteItems_iff.mpr (.cons hitem (rewriteItems_iff.mp hrest))

theorem rewriteMembers_of_eachObject
    (hok : ∀ members, ok members = true → close members = some members) :
    ∀ members : List (Text × Json), eachObjectMembers ok members = true →
      rewriteMembers close members = some members
  | [], _ => rfl
  | (name, value) :: rest, h => by
    rw [eachObjectMembers, Bool.and_eq_true] at h
    have hvalue := rewriteAll_of_eachObject hok value h.1
    have hrest := rewriteMembers_of_eachObject hok rest h.2
    exact rewriteMembers_iff.mpr (.cons ⟨rfl, hvalue⟩ (rewriteMembers_iff.mp hrest))

end

end Left

/-! ### Other keywords -/

mutual

/-- The same schemas, each with its keywords changed. -/
def ResponseSchema.mapKeywords (f : SchemaKeywords → SchemaKeywords) :
    ResponseSchema → ResponseSchema
  | ⟨keywords, properties, items, anyOf⟩ =>
    ⟨f keywords, mapProperties f properties, mapItems f items, mapVariants f anyOf⟩

def mapProperties (f : SchemaKeywords → SchemaKeywords) :
    List (Text × ResponseSchema) → List (Text × ResponseSchema)
  | [] => []
  | (name, schema) :: rest => (name, schema.mapKeywords f) :: mapProperties f rest

def mapItems (f : SchemaKeywords → SchemaKeywords) : Option ResponseSchema → Option ResponseSchema
  | none => none
  | some schema => some (schema.mapKeywords f)

def mapVariants (f : SchemaKeywords → SchemaKeywords) : List ResponseSchema → List ResponseSchema
  | [] => []
  | schema :: rest => schema.mapKeywords f :: mapVariants f rest

end

namespace ResponseSchema

variable (s : ResponseSchema) (f : SchemaKeywords → SchemaKeywords)

theorem ext_parts {s t : ResponseSchema} (hkeywords : s.toSchemaKeywords = t.toSchemaKeywords)
    (hproperties : s.properties = t.properties) (hitems : s.items = t.items)
    (hanyOf : s.anyOf = t.anyOf) : s = t := by
  obtain ⟨keywords, properties, items, anyOf⟩ := s
  obtain ⟨keywords', properties', items', anyOf'⟩ := t
  rw [ResponseSchema.mk.injEq]
  exact ⟨hkeywords, hproperties, hitems, hanyOf⟩

theorem keywords_mapKeywords : (s.mapKeywords f).toSchemaKeywords = f s.toSchemaKeywords := by
  obtain ⟨keywords, properties, items, anyOf⟩ := s
  rfl

theorem properties_mapKeywords :
    (s.mapKeywords f).properties = s.properties.map fun entry => (entry.1, entry.2.mapKeywords f)
    := by
  obtain ⟨keywords, properties, items, anyOf⟩ := s
  have hmap : mapProperties f properties
      = properties.map fun entry => (entry.1, entry.2.mapKeywords f) := by
    induction properties with
    | nil => rfl
    | cons entry rest ih => rw [mapProperties, ih, List.map_cons]
  exact hmap

theorem items_mapKeywords : (s.mapKeywords f).items = s.items.map fun inner => inner.mapKeywords f
    := by
  obtain ⟨keywords, properties, items, anyOf⟩ := s
  cases items <;> rfl

theorem anyOf_mapKeywords :
    (s.mapKeywords f).anyOf = s.anyOf.map fun variant => variant.mapKeywords f := by
  obtain ⟨keywords, properties, items, anyOf⟩ := s
  have hmap : mapVariants f anyOf = anyOf.map fun variant => variant.mapKeywords f := by
    induction anyOf with
    | nil => rfl
    | cons variant rest ih => rw [mapVariants, ih, List.map_cons]
  exact hmap

theorem mapKeywords_id : s.mapKeywords id = s := by
  induction s using ResponseSchema.induct with
  | node s hproperties hitems hvariants =>
    have hprops : (s.mapKeywords id).properties = s.properties := by
      rw [properties_mapKeywords]
      refine (List.map_congr_left fun entry hentry => ?_).trans (List.map_id _)
      exact Prod.ext rfl (hproperties entry hentry)
    have hinner : (s.mapKeywords id).items = s.items := by
      rw [items_mapKeywords]
      cases hitem : s.items with
      | none => rfl
      | some inner => rw [Option.map_some, hitems inner hitem]
    have hany : (s.mapKeywords id).anyOf = s.anyOf := by
      rw [anyOf_mapKeywords]
      exact (List.map_congr_left hvariants).trans (List.map_id _)
    exact ext_parts (keywords_mapKeywords s id) hprops hinner hany

end ResponseSchema

/-! ### The rewriting of a translation -/

/-- How a dialect closes an object: a map of properties is left as it is if it can be closed, and a
schema's other keywords are. -/
structure Closing where
  close : List (Text × Json) → Option (List (Text × Json))
  onProperties : ∀ {declared closed}, (∀ entry ∈ declared, ∃ members, entry.2 = Json.obj members) →
    close declared = some closed → closed = declared
  onKeywords : ∀ {keywords closed}, close keywords = some closed → ∀ key : Text, key ≠ "format" →
    key ≠ "additionalProperties" → key ≠ "required" → dictGet closed key = dictGet keywords key

namespace Closing

variable (c : Closing)

/-- What the dialect makes of a schema. -/
def rewritten (s : ResponseSchema) : Option Json := rewriteAll c.close (toJsonSchema s)

variable {c} {s : ResponseSchema}

/-- A rewritten schema is its translation, walked and closed. -/
theorem exists_of_rewritten {made : Json} (h : c.rewritten s = some made) :
    ∃ walked closed, made = .obj closed ∧ c.close walked = some closed ∧
      ∀ key, dictGet walked key = (dictGet (present s.fields) key).bind (rewriteAll c.close) ∧
        ∀ value, dictGet (present s.fields) key = some value →
          ∃ value', rewriteAll c.close value = some value' := by
  rw [rewritten, toJsonSchema_eq] at h
  obtain ⟨walked, closed, hwalked, hclose, rfl⟩ := rewriteAll_obj h
  exact ⟨walked, closed, rfl, hclose, fun key => ⟨dictGet_rewriteMembers hwalked key,
    fun value hvalue => isSome_of_rewriteMembers hwalked (dictGet_mem hvalue)⟩⟩

/-- A map of properties, walked: every value is an object, under the name it had. -/
theorem walked_properties {properties : List (Text × ResponseSchema)}
    {walked : List (Text × Json)} (h : rewriteMembers c.close
      (properties.map fun entry => (entry.1, toJsonSchema entry.2)) = some walked) :
    (∀ entry ∈ walked, ∃ members, entry.2 = Json.obj members) ∧
      walked.map (·.1) = properties.map (·.1) := by
  refine ⟨fun entry hentry => ?_, ?_⟩
  · obtain ⟨source, hsource, -, hmade⟩ := mem_rewriteMembers h hentry
    obtain ⟨⟨name, inner⟩, -, rfl⟩ := List.mem_map.mp hsource
    obtain ⟨-, members, hmembers, -⟩ := @exists_of_rewritten c inner entry.2 hmade
    exact ⟨members, hmembers⟩
  · rw [keys_rewriteMembers h, List.map_map]
    rfl

/-- The map of a rewritten schema's properties has their rewritings. -/
structure Mapped (c : Closing) (properties : List (Text × ResponseSchema))
    (declared : List (Text × Json)) : Prop where
  names : declared.map (·.1) = properties.map (·.1)
  get : ∀ name, dictGet declared name = (dictGet properties name).bind c.rewritten
  place : ∀ (i : ℕ) entry, properties[i]? = some entry →
    ∃ made, c.rewritten entry.2 = some made ∧ declared[i]? = some (entry.1, made)

theorem properties_rewritten {properties : List (Text × ResponseSchema)} {made : Json}
    (h : rewriteAll c.close
      (.obj (properties.map fun entry => (entry.1, toJsonSchema entry.2))) = some made) :
    ∃ declared, made = .obj declared ∧ Mapped c properties declared := by
  obtain ⟨walked, closed, hwalked, hclose, rfl⟩ := rewriteAll_obj h
  obtain ⟨hobjects, hnames⟩ := walked_properties hwalked
  obtain rfl := c.onProperties hobjects hclose
  refine ⟨closed, rfl, hnames, fun name => ?_, fun i entry hentry => ?_⟩
  · rw [dictGet_rewriteMembers hwalked, dictGet_map_values, Option.bind_map]
    rfl
  · exact getElem?_rewriteMembers hwalked (by rw [List.getElem?_map, hentry, Option.map_some])

/-- The keywords of a rewritten schema that closing leaves alone. -/
theorem keyword_rewritten {closed : List (Text × Json)} (h : c.rewritten s = some (.obj closed))
    {key : Text} (hformat : key ≠ "format") (hadditional : key ≠ "additionalProperties")
    (hrequired : key ≠ "required") :
    dictGet closed key = (dictGet (present s.fields) key).bind (rewriteAll c.close) := by
  obtain ⟨walked, closed', hmade, hclose, hwalked⟩ := exists_of_rewritten h
  obtain rfl := Json.obj.inj hmade
  rw [c.onKeywords hclose key hformat hadditional hrequired, (hwalked key).1]

/-- The property map of a rewritten schema: the rewritings of its properties. -/
theorem declared_rewritten {closed : List (Text × Json)} (h : c.rewritten s = some (.obj closed))
    (hne : s.properties ≠ []) :
    ∃ declared, dictGet closed "properties" = some (.obj declared) ∧
      Mapped c s.properties declared := by
  have hkey := @keyword_rewritten c s closed h "properties" (by decide +kernel)
    (by decide +kernel) (by decide +kernel)
  have hmap : dictGet (present s.fields) "properties"
      = some (.obj (s.properties.map fun entry => (entry.1, toJsonSchema entry.2))) := by
    rw [keyword_properties, unlessEmpty_eq_some_iff]
    exact ⟨by simpa using hne, rfl⟩
  obtain ⟨_, _, _, _, hwalked⟩ := exists_of_rewritten h
  obtain ⟨made, hmade⟩ := (hwalked "properties").2 _ hmap
  obtain ⟨declared, rfl, hdeclared⟩ := properties_rewritten hmade
  rw [hmap, Option.bind_some, hmade] at hkey
  exact ⟨declared, hkey, hdeclared⟩

/-- The variants of a rewritten schema: the rewritings of its variants. -/
theorem variants_rewritten {closed : List (Text × Json)} (h : c.rewritten s = some (.obj closed))
    (hne : s.anyOf ≠ []) :
    ∃ variants, dictGet closed "anyOf" = some (.arr variants) ∧
      ∀ i : ℕ, variants[i]? = (s.anyOf[i]?).bind c.rewritten ∧
        ∀ inner, s.anyOf[i]? = some inner → ∃ made, c.rewritten inner = some made := by
  have hkey := @keyword_rewritten c s closed h "anyOf" (by decide +kernel)
    (by decide +kernel) (by decide +kernel)
  have hmap : dictGet (present s.fields) "anyOf" = some (.arr (s.anyOf.map toJsonSchema)) := by
    rw [keyword_anyOf, unlessEmpty_eq_some_iff]
    exact ⟨by simpa using hne, rfl⟩
  obtain ⟨_, _, _, _, hwalked⟩ := exists_of_rewritten h
  obtain ⟨made, hmade⟩ := (hwalked "anyOf").2 _ hmap
  obtain ⟨variants, hvariants, rfl⟩ := rewriteAll_arr hmade
  rw [hmap, Option.bind_some, hmade] at hkey
  refine ⟨variants, hkey, fun i => ?_⟩
  obtain ⟨hget, hsome⟩ := getElem?_rewriteItems hvariants i
  rw [List.getElem?_map, Option.bind_map] at hget
  refine ⟨hget, fun inner hinner => hsome _ ?_⟩
  rw [List.getElem?_map, hinner, Option.map_some]

/-- The items of a rewritten schema. -/
theorem items_rewritten {closed : List (Text × Json)} (h : c.rewritten s = some (.obj closed)) :
    dictGet closed "items" = s.items.bind c.rewritten ∧
      ∀ inner, s.items = some inner → ∃ made, c.rewritten inner = some made := by
  have hkey := @keyword_rewritten c s closed h "items" (by decide +kernel)
    (by decide +kernel) (by decide +kernel)
  rw [keyword_items, Option.bind_map] at hkey
  obtain ⟨_, _, _, _, hwalked⟩ := exists_of_rewritten h
  exact ⟨hkey, fun inner hinner => (hwalked "items").2 _ (by rw [keyword_items, hinner]; rfl)⟩

/-- A keyword that can be walked, if it is there. -/
def Walks (c : Closing) (value : Option Json) : Prop :=
  ∀ json, value = some json → ∃ made, rewriteAll c.close json = some made

theorem Walks.map {α : Type} {f : α → Json} (h : ∀ a, ∃ made, rewriteAll c.close (f a) = some made)
    (value : Option α) : Walks c (value.map f) := by
  intro json hjson
  obtain ⟨a, -, rfl⟩ := Option.map_eq_some_iff.mp hjson
  exact h a

theorem walks_typeWord (k : SchemaKeywords) : Walks c k.typeWord := by
  refine Walks.map (fun type => ?_) _
  split
  · exact ⟨_, rewriteAll_texts _⟩
  · exact ⟨_, rfl⟩

/-- The keywords of a node that hold no schemas, its default apart, can be walked. -/
theorem walks_fields {k : SchemaKeywords} (hdefault : Walks c k.default) :
    ∀ field ∈ k.fields, Walks c field.2 := by
  have htext : ∀ value : Option Text, Walks c (value.map .str) :=
    Walks.map fun text => ⟨_, rfl⟩
  have hfloat : ∀ value : Option Text, Walks c (value.map .float) :=
    Walks.map fun text => ⟨_, rfl⟩
  have hint : ∀ value : Option ℤ, Walks c (value.map .int) := Walks.map fun n => ⟨_, rfl⟩
  have hbool : ∀ value : Option Bool, Walks c (value.map .bool) := Walks.map fun b => ⟨_, rfl⟩
  have htexts : ∀ value : Option (List Text), Walks c (value.map texts) :=
    Walks.map fun names => ⟨_, rewriteAll_texts names⟩
  simp only [SchemaKeywords.fields, List.forall_mem_cons]
  exact ⟨walks_typeWord k, htext _, htext _, htext _, htext _, hdefault, hfloat _, hfloat _,
    htexts _, htexts _, hint _, hint _, hint _, hint _, hint _, hint _, hbool _,
    fun _ hnone => absurd hnone List.not_mem_nil⟩

/-- A node that can be rewritten when what stands in it can: its default can be walked, and its map
of properties and itself be closed. -/
structure Closable (c : Closing) (t : ResponseSchema) : Prop where
  default : Walks c t.default
  map : ∀ declared : List (Text × Json), (∀ entry ∈ declared, ∃ members, entry.2 = .obj members) →
    declared.map (·.1) = t.properties.map (·.1) → ∃ closed, c.close declared = some closed
  node : ∀ walked : List (Text × Json), (∀ key, dictGet walked key
    = (dictGet (present t.fields) key).bind (rewriteAll c.close)) →
    ∃ closed, c.close walked = some closed

theorem exists_rewritten (h : ∀ path t, s.standing path = some t → Closable c t) :
    ∃ made, c.rewritten s = some made := by
  induction s using ResponseSchema.induct with
  | node s hproperties hitems hvariants =>
    have hself := h [] s rfl
    have hinner : Walks c
        (unlessEmpty (s.properties.map fun entry => (entry.1, toJsonSchema entry.2)) .obj) := by
      intro json hjson
      obtain ⟨-, rfl⟩ := unlessEmpty_eq_some_iff.mp hjson
      have hwalks : ∀ entry ∈ s.properties.map fun entry => (entry.1, toJsonSchema entry.2),
          ∃ value, rewriteAll c.close entry.2 = some value := by
        intro entry hentry
        obtain ⟨source, hsource, rfl⟩ := List.mem_map.mp hentry
        obtain ⟨i, hi⟩ := List.mem_iff_getElem?.mp hsource
        exact hproperties source hsource (@ResponseSchema.standing_into _ s source.2 h (.property i)
          (by rw [ResponseSchema.into, hi, Option.map_some]))
      obtain ⟨walked, hwalked⟩ := exists_rewriteMembers hwalks
      obtain ⟨hobjects, hnames⟩ := walked_properties hwalked
      obtain ⟨closed, hclosed⟩ := hself.map walked hobjects hnames
      exact ⟨.obj closed, by
        rw [rewriteAll, hwalked, Option.bind_some, hclosed, Option.map_some]⟩
    have hitem : Walks c (s.items.map toJsonSchema) := by
      intro json hjson
      obtain ⟨inner, hinner, rfl⟩ := Option.map_eq_some_iff.mp hjson
      exact hitems inner hinner (@ResponseSchema.standing_into _ s inner h .items hinner)
    have hvariant : Walks c (unlessEmpty (s.anyOf.map toJsonSchema) .arr) := by
      intro json hjson
      obtain ⟨-, rfl⟩ := unlessEmpty_eq_some_iff.mp hjson
      have hwalks : ∀ item ∈ s.anyOf.map toJsonSchema,
          ∃ value, rewriteAll c.close item = some value := by
        intro item hitem
        obtain ⟨variant, hvariant, rfl⟩ := List.mem_map.mp hitem
        obtain ⟨i, hi⟩ := List.mem_iff_getElem?.mp hvariant
        exact hvariants variant hvariant
          (@ResponseSchema.standing_into _ s variant h (.variant i) hi)
      obtain ⟨made, hmade⟩ := exists_rewriteItems hwalks
      exact ⟨.arr made, by rw [rewriteAll, hmade, Option.map_some]⟩
    have hfields : ∀ field ∈ s.fields, Walks c field.2 := by
      rw [ResponseSchema.fields, List.forall_mem_append]
      refine ⟨walks_fields hself.default, ?_⟩
      simp only [AiraGateway.inner, List.forall_mem_cons]
      exact ⟨hinner, hitem, hvariant, fun _ hnone => absurd hnone List.not_mem_nil⟩
    have hvalues : ∀ entry ∈ present s.fields,
        ∃ value, rewriteAll c.close entry.2 = some value := by
      intro entry hentry
      obtain ⟨field, hfield, hmade⟩ := List.mem_filterMap.mp hentry
      obtain ⟨value, hvalue, rfl⟩ := Option.map_eq_some_iff.mp hmade
      exact hfields field hfield value hvalue
    obtain ⟨walked, hwalked⟩ := exists_rewriteMembers hvalues
    obtain ⟨closed, hclosed⟩ := hself.node walked (dictGet_rewriteMembers hwalked)
    refine ⟨.obj closed, ?_⟩
    rw [rewritten, toJsonSchema_eq, rewriteAll, hwalked, Option.bind_some, hclosed,
      Option.map_some]

/-- **What stands in a rewritten schema**: the rewritings of what stands in the schema. -/
theorem into_rewritten {made : Json} (h : c.rewritten s = some made) {step : Step}
    {inner : ResponseSchema} (hinner : s.into step = some inner) :
    ∃ made', c.rewritten inner = some made' ∧ into step made = some made' := by
  obtain ⟨-, closed, rfl, -, -⟩ := exists_of_rewritten h
  cases step with
  | property i =>
    obtain ⟨entry, hentry, rfl⟩ := Option.map_eq_some_iff.mp hinner
    have hne : s.properties ≠ [] := fun hnone => by
      rw [hnone] at hentry
      cases hentry
    obtain ⟨declared, hdeclared, hmapped⟩ := declared_rewritten h hne
    obtain ⟨made', hmade', hget⟩ := hmapped.place i entry hentry
    refine ⟨made', hmade', ?_⟩
    rw [into, Json.get, hdeclared]
    simp only [hget, Option.map_some]
  | items =>
    have hstands : s.items = some inner := hinner
    obtain ⟨hget, hsome⟩ := items_rewritten h
    obtain ⟨made', hmade'⟩ := hsome inner hstands
    refine ⟨made', hmade', ?_⟩
    rw [into, Json.get, hget, hstands, Option.bind_some, hmade']
  | variant i =>
    have hstands : s.anyOf[i]? = some inner := hinner
    have hne : s.anyOf ≠ [] := fun hnone => by
      rw [hnone] at hstands
      cases hstands
    obtain ⟨variants, hvariants, hget⟩ := variants_rewritten h hne
    obtain ⟨made', hmade'⟩ := (hget i).2 inner hstands
    refine ⟨made', hmade', ?_⟩
    rw [into, Json.get, hvariants]
    simp only [(hget i).1, hstands, Option.bind_some, hmade']

/-- **At every place of a rewritten schema** stands what is made of the node there. -/
theorem schemaAt_rewritten {path : List Step} {t : ResponseSchema} {made : Json}
    (h : c.rewritten s = some made) (ht : s.standing path = some t) :
    ∃ made', c.rewritten t = some made' ∧ schemaAt path made = some made' := by
  induction path generalizing s made with
  | nil =>
    obtain rfl := Option.some.inj ht
    exact ⟨made, h, rfl⟩
  | cons step path ih =>
    rw [ResponseSchema.standing] at ht
    obtain ⟨inner, hinner, ht⟩ := Option.bind_eq_some_iff.mp ht
    obtain ⟨made', hmade', hinto⟩ := into_rewritten h hinner
    obtain ⟨final, hfinal, hat⟩ := ih hmade' ht
    refine ⟨final, hfinal, ?_⟩
    rw [schemaAt, hinto, Option.bind_some, hat]

/-- **A rewritten schema is narrower** than another in which the same schemas stand with other
keywords, where every node's own keywords are. -/
theorem narrower_of_mapped {R : Reading} {f : SchemaKeywords → SchemaKeywords} {made : Json}
    (h : c.rewritten s = some made)
    (hown : ∀ path t closed, s.standing path = some t → c.rewritten t = some (.obj closed) →
      ∀ doc, R.Own closed doc → R.Own (present (t.mapKeywords f).fields) doc) {doc : Json}
    (haccepts : Accepts R made doc) : Accepts R (toJsonSchema (s.mapKeywords f)) doc := by
  induction s using ResponseSchema.induct generalizing made doc with
  | node s hproperties hitems' hvariants =>
    obtain ⟨-, closed, rfl, -, -⟩ := exists_of_rewritten h
    have hinner : ∀ step inner, s.into step = some inner →
        ∀ path t closed, inner.standing path = some t → c.rewritten t = some (.obj closed) →
          ∀ doc, R.Own closed doc → R.Own (present (t.mapKeywords f).fields) doc := by
      intro step inner hinto path t closed' ht
      exact hown (step :: path) t closed' (by
        rw [ResponseSchema.standing, hinto, Option.bind_some, ht])
    rw [toJsonSchema_eq]
    refine haccepts.of_narrower (hown [] s closed rfl h doc) ?_ ?_ ?_
    · intro declared hdeclared
      rw [keyword_properties, unlessEmpty_eq_some_iff, s.properties_mapKeywords f,
        List.map_map] at hdeclared
      obtain ⟨hne, hmap⟩ := hdeclared
      obtain rfl := Json.obj.inj hmap
      obtain ⟨declared', hdeclared', hmapped⟩ :=
        declared_rewritten h (fun hnone => hne (by rw [hnone]; rfl))
      refine ⟨declared', hdeclared', fun name schema hschema => ?_⟩
      have hget := dictGet_map_values (fun inner => toJsonSchema (inner.mapKeywords f))
        s.properties name
      obtain ⟨inner, hstands, rfl⟩ := Option.map_eq_some_iff.mp (hget.symm.trans hschema)
      have hmem := dictGet_mem hstands
      obtain ⟨i, hi⟩ := List.mem_iff_getElem?.mp hmem
      obtain ⟨made', hmade', -⟩ := hmapped.place i _ hi
      refine ⟨made', by rw [hmapped.get, hstands, Option.bind_some, hmade'], fun value => ?_⟩
      exact hproperties _ hmem hmade' (hinner (.property i) inner (by
        rw [ResponseSchema.into, hi, Option.map_some]))
    · intro items hitems
      rw [keyword_items, s.items_mapKeywords f, Option.map_map] at hitems
      obtain ⟨inner, hstands, rfl⟩ := Option.map_eq_some_iff.mp hitems
      obtain ⟨hget, hsome⟩ := items_rewritten h
      obtain ⟨made', hmade'⟩ := hsome inner hstands
      refine ⟨made', by rw [hget, hstands, Option.bind_some, hmade'], fun value => ?_⟩
      exact hitems' inner hstands hmade' (hinner .items inner hstands)
    · intro variants hvariants'
      rw [keyword_anyOf, unlessEmpty_eq_some_iff, s.anyOf_mapKeywords f,
        List.map_map] at hvariants'
      obtain ⟨hne, harr⟩ := hvariants'
      obtain rfl := Json.arr.inj harr
      obtain ⟨made, hmade, hget⟩ := variants_rewritten h (fun hnone => hne (by rw [hnone]; rfl))
      refine ⟨made, hmade, fun variant' hvariant' => ?_⟩
      obtain ⟨i, hi⟩ := List.mem_iff_getElem?.mp hvariant'
      rw [(hget i).1] at hi
      obtain ⟨inner, hstands, hmade'⟩ := Option.bind_eq_some_iff.mp hi
      have hmem := List.mem_of_getElem? hstands
      refine ⟨_, List.mem_map_of_mem hmem, fun value => ?_⟩
      exact hvariants inner hmem hmade' (hinner (.variant i) inner hstands)

/-- **A rewritten schema is narrower** than its translation where every node's own keywords are. -/
theorem narrower_of_rewritten {R : Reading} {made : Json} (h : c.rewritten s = some made)
    (hown : ∀ path t closed, s.standing path = some t → c.rewritten t = some (.obj closed) →
      ∀ doc, R.Own closed doc → R.Own (present t.fields) doc) {doc : Json}
    (haccepts : Accepts R made doc) : Accepts R (toJsonSchema s) doc := by
  have hmapped := @narrower_of_mapped c s R id made h (fun path t closed ht hclosed doc hdoc => by
    rw [t.mapKeywords_id]
    exact hown path t closed ht hclosed doc hdoc) doc haccepts
  rwa [s.mapKeywords_id] at hmapped

/-- **A rewritten schema is wider** than another in which the same schemas stand, where every node's
own keywords are. -/
theorem wider_of_mapped {R : Reading} {f : SchemaKeywords → SchemaKeywords} {made : Json}
    (h : c.rewritten s = some made)
    (hown : ∀ path t closed, s.standing path = some t → c.rewritten t = some (.obj closed) →
      ∀ doc, R.Own (present (t.mapKeywords f).fields) doc → R.Own closed doc) {doc : Json}
    (haccepts : Accepts R (toJsonSchema (s.mapKeywords f)) doc) : Accepts R made doc := by
  induction s using ResponseSchema.induct generalizing made doc with
  | node s hproperties hitems' hvariants =>
    obtain ⟨-, closed, rfl, -, -⟩ := exists_of_rewritten h
    have hinner : ∀ step inner, s.into step = some inner →
        ∀ path t closed, inner.standing path = some t → c.rewritten t = some (.obj closed) →
          ∀ doc, R.Own (present (t.mapKeywords f).fields) doc → R.Own closed doc := by
      intro step inner hinto path t closed' ht
      exact hown (step :: path) t closed' (by
        rw [ResponseSchema.standing, hinto, Option.bind_some, ht])
    rw [toJsonSchema_eq] at haccepts
    refine haccepts.of_narrower (hown [] s closed rfl h doc) ?_ ?_ ?_
    · intro declared hdeclared
      have hne : s.properties ≠ [] := by
        intro hnone
        rw [@keyword_rewritten c s closed h "properties" (by decide +kernel) (by decide +kernel)
          (by decide +kernel), keyword_properties, hnone] at hdeclared
        cases hdeclared
      obtain ⟨declared', hdeclared', hmapped⟩ := declared_rewritten h hne
      obtain rfl := Json.obj.inj (Option.some.inj (hdeclared'.symm.trans hdeclared))
      refine ⟨_, by
        rw [keyword_properties, unlessEmpty_eq_some_iff, s.properties_mapKeywords f,
          List.map_map]
        exact ⟨by simpa using hne, rfl⟩, fun name schema hschema => ?_⟩
      rw [hmapped.get] at hschema
      obtain ⟨inner, hstands, hmade'⟩ := Option.bind_eq_some_iff.mp hschema
      have hmem := dictGet_mem hstands
      obtain ⟨i, hi⟩ := List.mem_iff_getElem?.mp hmem
      have hget := dictGet_map_values (fun inner => toJsonSchema (inner.mapKeywords f))
        s.properties name
      refine ⟨_, hget.trans (by rw [hstands, Option.map_some]), fun value => ?_⟩
      exact hproperties _ hmem hmade' (hinner (.property i) inner (by
        rw [ResponseSchema.into, hi, Option.map_some]))
    · intro items hitems
      rw [(items_rewritten h).1] at hitems
      obtain ⟨inner, hstands, hmade'⟩ := Option.bind_eq_some_iff.mp hitems
      refine ⟨_, by
        rw [keyword_items, s.items_mapKeywords f, hstands, Option.map_some, Option.map_some],
        fun value => ?_⟩
      exact hitems' inner hstands hmade' (hinner .items inner hstands)
    · intro variants hvariants'
      have hne : s.anyOf ≠ [] := by
        intro hnone
        rw [@keyword_rewritten c s closed h "anyOf" (by decide +kernel) (by decide +kernel)
          (by decide +kernel), keyword_anyOf, hnone] at hvariants'
        cases hvariants'
      obtain ⟨made, hmade, hget⟩ := variants_rewritten h hne
      obtain rfl := Json.arr.inj (Option.some.inj (hmade.symm.trans hvariants'))
      refine ⟨_, by
        rw [keyword_anyOf, unlessEmpty_eq_some_iff, s.anyOf_mapKeywords f, List.map_map]
        exact ⟨by simpa using hne, rfl⟩, fun variant' hvariant' => ?_⟩
      obtain ⟨inner, hmem, rfl⟩ := List.mem_map.mp hvariant'
      obtain ⟨i, hi⟩ := List.mem_iff_getElem?.mp hmem
      obtain ⟨hat, hsome⟩ := hget i
      obtain ⟨made', hmade'⟩ := hsome inner hi
      rw [hi, Option.bind_some, hmade'] at hat
      refine ⟨made', List.mem_of_getElem? hat, fun value => ?_⟩
      exact hvariants inner hmem hmade' (hinner (.variant i) inner hi)

/-! ### What a node keeps -/

/-- Keywords with a node's type, its properties' names and its literals. -/
structure KeepsWords (t : ResponseSchema) (members : List (Text × Json)) : Prop where
  type : dictGet members "type" = t.typeWord
  names : declaredNames members = t.properties.map (·.1)
  enum : dictGet members "enum" = t.enum.map texts
  default : dictGet members "default" = t.default

theorem rewriteAll_typeWord {k : SchemaKeywords} :
    k.typeWord.bind (rewriteAll c.close) = k.typeWord := by
  rw [SchemaKeywords.typeWord, Option.bind_map]
  cases k.type with
  | none => rfl
  | some type =>
    simp only [Option.bind_some, Option.map_some, Function.comp]
    split
    · exact rewriteAll_texts _
    · rfl

theorem declaredNames_rewritten {closed : List (Text × Json)}
    (h : c.rewritten s = some (.obj closed)) :
    declaredNames closed = s.properties.map (·.1) := by
  rw [declaredNames]
  by_cases hne : s.properties = []
  · have hkey := @keyword_rewritten c s closed h "properties" (by decide +kernel)
      (by decide +kernel) (by decide +kernel)
    rw [keyword_properties, hne] at hkey
    rw [hkey, hne]
    rfl
  · obtain ⟨declared, hdeclared, hmapped⟩ := declared_rewritten h hne
    rw [hdeclared]
    exact hmapped.names

/-- **A rewritten node keeps its words**, its default where the walk leaves that as it is. -/
theorem keepsWords_iff {closed : List (Text × Json)} (h : c.rewritten s = some (.obj closed)) :
    KeepsWords s closed ↔
      ∀ value, s.default = some value → rewriteAll c.close value = some value := by
  have hdefault := @keyword_rewritten c s closed h "default" (by decide +kernel)
    (by decide +kernel) (by decide +kernel)
  rw [keyword_default] at hdefault
  constructor
  · intro hkeeps value hvalue
    have hkept := hkeeps.default
    rw [hdefault, hvalue] at hkept
    exact hkept
  · intro hleft
    refine ⟨?_, declaredNames_rewritten h, ?_, ?_⟩
    · rw [@keyword_rewritten c s closed h "type" (by decide +kernel) (by decide +kernel)
        (by decide +kernel), keyword_type, rewriteAll_typeWord]
    · rw [@keyword_rewritten c s closed h "enum" (by decide +kernel) (by decide +kernel)
        (by decide +kernel), keyword_enum, Option.bind_map]
      cases s.enum with
      | none => rfl
      | some values => exact rewriteAll_texts values
    · rw [hdefault]
      cases hvalue : s.default with
      | none => rfl
      | some value => exact hleft value hvalue

/-! ### What a rewritten node asks -/

theorem bind_map_rewriteAll {α : Type} {f : α → Json}
    (hf : ∀ a, rewriteAll c.close (f a) = some (f a)) (value : Option α) :
    (value.map f).bind (rewriteAll c.close) = value.map f := by
  cases value with
  | none => rfl
  | some a => exact hf a

/-- The keywords a rewritten node has as its translation has them. -/
theorem keyword_kept {closed : List (Text × Json)} (h : c.rewritten s = some (.obj closed))
    {key : Text} (hkey : key ∈ plainKeys) :
    dictGet closed key = dictGet (present s.fields) key := by
  have htouched : ∀ key ∈ plainKeys, key ≠ ("format" : Text) ∧
      key ≠ ("additionalProperties" : Text) ∧ key ≠ ("required" : Text) := by decide +kernel
  obtain ⟨hformat, hadditional, hrequired⟩ := htouched key hkey
  rw [keyword_rewritten h hformat hadditional hrequired]
  simp only [plainKeys, List.mem_cons, List.not_mem_nil, or_false] at hkey
  have htext : ∀ text, rewriteAll c.close (.str text) = some (.str text) := fun _ => rfl
  have hfloat : ∀ text, rewriteAll c.close (.float text) = some (.float text) := fun _ => rfl
  have hint : ∀ n, rewriteAll c.close (.int n) = some (.int n) := fun _ => rfl
  obtain rfl | rfl | rfl | rfl | rfl | rfl | rfl | rfl | rfl | rfl | rfl := hkey
  · rw [keyword_type, rewriteAll_typeWord]
  · rw [keyword_pattern, bind_map_rewriteAll htext]
  · rw [keyword_enum, bind_map_rewriteAll rewriteAll_texts]
  · rw [keyword_minimum, bind_map_rewriteAll hfloat]
  · rw [keyword_maximum, bind_map_rewriteAll hfloat]
  · rw [keyword_minLength, bind_map_rewriteAll hint]
  · rw [keyword_minItems, bind_map_rewriteAll hint]
  · rw [keyword_minProperties, bind_map_rewriteAll hint]
  · rw [keyword_maxLength, bind_map_rewriteAll hint]
  · rw [keyword_maxItems, bind_map_rewriteAll hint]
  · rw [keyword_maxProperties, bind_map_rewriteAll hint]

/-- The map of properties of a walked node, if it has one. -/
theorem walked_properties_obj {members : List (Text × Json)} {t : ResponseSchema}
    (h : dictGet members "properties"
      = (dictGet (present t.fields) "properties").bind (rewriteAll c.close)) :
    dictGet members "properties" = none ∨
      ∃ declared, dictGet members "properties" = some (.obj declared) := by
  rw [h, keyword_properties]
  by_cases hnone : t.properties = []
  · rw [hnone]
    exact .inl rfl
  · have hmap : unlessEmpty (t.properties.map fun entry => (entry.1, toJsonSchema entry.2)) .obj
        = some (.obj (t.properties.map fun entry => (entry.1, toJsonSchema entry.2))) := by
      rw [unlessEmpty_eq_some_iff]
      exact ⟨by simpa using hnone, rfl⟩
    rw [hmap, Option.bind_some]
    cases hmade : rewriteAll c.close
      (.obj (t.properties.map fun entry => (entry.1, toJsonSchema entry.2))) with
    | none => exact .inl rfl
    | some made =>
      obtain ⟨-, closed, -, -, rfl⟩ := rewriteAll_obj hmade
      exact .inr ⟨closed, rfl⟩

end Closing

/-- An object type, a union with null as well. -/
def isObjectType : Option Json → Bool
  | some (.str name) => name = "object"
  | some (.arr names) => .str "object" ∈ names
  | _ => false

theorem isObjectType_obj (members : List (Text × Json)) :
    isObjectType (some (.obj members)) = false := rfl

/-- Closing goes through the names a schema declares. -/
theorem entries_properties {members : List (Text × Json)}
    (h : dictGet members "properties" = none ∨
      ∃ declared, dictGet members "properties" = some (.obj declared)) :
    entries (dictGet members "properties") = some ((declaredNames members).map .str) := by
  rw [declaredNames]
  obtain hnone | ⟨declared, hdeclared⟩ := h
  · rw [hnone]
    rfl
  · rw [hdeclared]
    cases declared with
    | nil => rfl
    | cons entry rest => simp [entries, Option.filter_some, Json.truthy, Json.elements?]

theorem isObjectType_typeWord {k : SchemaKeywords} :
    isObjectType k.typeWord = true ↔ k.type = some .object := by
  rw [SchemaKeywords.typeWord]
  cases htype : k.type with
  | none => simp [isObjectType]
  | some type =>
    have hlower : type.lower = "object" ↔ type = .object := by cases type <;> decide +kernel
    have hnull : ("object" : Text) ≠ "null" := by decide +kernel
    simp only [Option.map_some, Option.some.injEq, ← hlower]
    split
    · simp only [isObjectType, texts, List.map_cons, List.map_nil, decide_eq_true_eq,
        List.mem_cons, List.not_mem_nil, or_false, Json.str.injEq]
      exact ⟨fun h => (h.resolve_right hnull).symm, fun h => .inl h.symm⟩
    · simp only [isObjectType, decide_eq_true_eq]

end AiraGateway
