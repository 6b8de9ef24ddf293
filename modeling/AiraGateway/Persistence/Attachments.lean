import AiraGateway.Persistence.Storable

/-!
# What of inline binary survives in a payload

The walk that takes inline binary out of a payload stops at an object that is inline binary itself
and copies its other entries as they are; of an object with both spellings of a wrapper it describes
the first. What it does with a value is decided by the first object on the value's path that it
replaces an entry of (`fate`).

* A value it visits is found walked over, one beside the bytes of a datum is found as it was, and
  one that stands in a datum it takes is described (`valueAt_strip`).
* Walking again measures the descriptions of the first walk (`strip_strip_iff`).
* **Nothing survives exactly where every string under a datum's bytes is taken, or stands in a
  description already, and every description describes itself** (`nothingSurvives_iff`).
-/

namespace AiraGateway.Persistence

open Payload (Step)

section Attachments

variable (measure : Option Payload → ℤ × CodePoints) (duration : CodePoints → ℤ → Option Payload)
  (spoken : Payload → CodePoints)

/-! ### What the walk does with a value -/

/-- What becomes of a value: it is walked over, copied, or taken with the datum it stands in. -/
inductive Fate
  | visited
  | copied
  | taken
  deriving DecidableEq

/-- What becomes of what stands under a value at a step. -/
def turn : Payload → Step → Fate
  | .obj members, .key name =>
    if inlineDatum members then if name = dataKey then .taken else .copied
    else if (wrapper members).map (·.1) = some name then .taken
    else .visited
  | _, _ => .visited

/-- What becomes of what stands at the end of a path: the first object on it that is not just
walked over decides. -/
def fate (value : Payload) : List Step → Fate
  | [] => .visited
  | step :: path =>
    match turn value step with
    | .visited => ((value.child step).map fun below => fate below path).getD .visited
    | decided => decided

/-- What is stored in place of the entry of an object that holds inline binary. -/
def description (members : List (CodePoints × Payload)) (name : CodePoints) : Option Payload :=
  if inlineDatum members ∧ name = dataKey then some (summary measure (dictGet members dataKey))
  else if name ∈ inlineKeys then
    match dictGet members name with
    | some (.obj inline_) => some (described measure duration spoken inline_)
    | _ => none
  else none

theorem stripItems_eq_map (items : List Payload) :
    stripItems measure duration spoken items =
      items.map (stripAttachments measure duration spoken) := by
  induction items with
  | nil => rfl
  | cons item items ih => rw [stripItems, ih, List.map_cons]

theorem stripMembers_eq_map (members : List (CodePoints × Payload)) :
    stripMembers measure duration spoken members =
      members.map fun entry => (entry.1, stripAttachments measure duration spoken entry.2) := by
  induction members with
  | nil => rfl
  | cons entry members ih => rw [stripMembers, ih, List.map_cons]

theorem dictGet_stripMembers (members : List (CodePoints × Payload)) (name : CodePoints) :
    dictGet (stripMembers measure duration spoken members) name =
      (dictGet members name).map (stripAttachments measure duration spoken) := by
  rw [stripMembers_eq_map, dictGet_map_value]

/-- The value of a key that is set at the end, every other entry of it taken out. -/
theorem dictGet_replaced (members : List (CodePoints × Payload)) (key name : CodePoints)
    (value : Payload) :
    dictGet (members.filter (fun entry => entry.1 ≠ key) ++ [(key, value)]) name =
      if name = key then some value else dictGet members name := by
  have hfresh : Fresh (members.filter fun entry => entry.1 ≠ key) key := by
    intro entry hentry
    simpa using (List.mem_filter.mp hentry).2
  rw [← dictSet_of_fresh hfresh, dictGet_dictSet]
  split_ifs with h
  · rfl
  · exact dictGet_filter fun value _ => by simpa using h

theorem mem_inlineKeys_of_wrapper {members inline_ : List (CodePoints × Payload)}
    {key : CodePoints} (h : wrapper members = some (key, inline_)) :
    key ∈ inlineKeys ∧ dictGet members key = some (.obj inline_) := by
  obtain ⟨name, hname, hfound⟩ := List.exists_of_findSome?_eq_some h
  cases hget : dictGet members name with
  | none => simp [hget] at hfound
  | some value =>
    cases value with
    | obj inside =>
      simp only [hget, Option.some.injEq, Prod.mk.injEq] at hfound
      obtain ⟨rfl, rfl⟩ := hfound
      exact ⟨hname, hget⟩
    | null | bool | int | float | nonFinite | str | arr => simp [hget] at hfound

/-- **What is found at a step after the walk.** -/
theorem child_strip {value below : Payload} {step : Step} (h : value.child step = some below) :
    match turn value step with
    | .visited => (stripAttachments measure duration spoken value).child step =
        some (stripAttachments measure duration spoken below)
    | .copied => (stripAttachments measure duration spoken value).child step = some below
    | .taken => ∃ members name, value = .obj members ∧ step = .key name ∧
        (description measure duration spoken members name).isSome ∧
        (stripAttachments measure duration spoken value).child step =
          description measure duration spoken members name := by
  obtain hleaf | ⟨items, rfl⟩ | ⟨members, rfl⟩ := value.leaf_or_container
  · rw [hleaf.child] at h
    exact absurd h (Option.some_ne_none _).symm
  · cases step with
    | key name => exact absurd h (Option.some_ne_none _).symm
    | index i =>
      have hitem : items[i]? = some below := h
      have hchild : (Payload.arr (items.map (stripAttachments measure duration spoken))).child
          (.index i) = (items[i]?).map (stripAttachments measure duration spoken) := by
        rw [Payload.child, List.getElem?_map]
      rw [turn, stripAttachments, stripItems_eq_map, hchild, hitem, Option.map_some]
      · simp
  · cases step with
    | index i => exact absurd h (Option.some_ne_none _).symm
    | key name =>
      have hget : dictGet members name = some below := h
      cases hdatum : inlineDatum members with
      | true =>
        have hstrip : stripAttachments measure duration spoken (.obj members) =
            .obj (members.filter (fun entry => entry.1 ≠ dataKey) ++
              [(dataKey, summary measure (dictGet members dataKey))]) := by
          rw [stripAttachments, if_pos hdatum]
        rw [turn, if_pos hdatum, hstrip]
        by_cases hname : name = dataKey
        · have hdescribed : description measure duration spoken members name =
              some (summary measure (dictGet members dataKey)) := if_pos ⟨hdatum, hname⟩
          rw [if_pos hname]
          refine ⟨members, name, rfl, rfl, by rw [hdescribed]; rfl, ?_⟩
          rw [hdescribed, Payload.child, dictGet_replaced, if_pos hname]
        · rw [if_neg hname]
          show dictGet _ name = some below
          rw [dictGet_replaced, if_neg hname, hget]
      | false =>
        have hnot : ¬inlineDatum members = true := by rw [hdatum]; exact Bool.false_ne_true
        rw [turn, if_neg hnot]
        cases hwrapper : wrapper members with
        | none =>
          have hstrip : stripAttachments measure duration spoken (.obj members) =
              .obj (stripMembers measure duration spoken members) := by
            rw [stripAttachments, if_neg hnot, hwrapper]
          rw [if_neg (by simp), hstrip]
          show dictGet _ name = _
          rw [dictGet_stripMembers, hget, Option.map_some]
        | some wrapped =>
          obtain ⟨key, inline_⟩ := wrapped
          obtain ⟨hkey, hinline⟩ := mem_inlineKeys_of_wrapper hwrapper
          have hstrip : stripAttachments measure duration spoken (.obj members) =
              .obj ((stripMembers measure duration spoken members).filter
                (fun entry => entry.1 ≠ key) ++
                  [(key, described measure duration spoken inline_)]) := by
            rw [stripAttachments, if_neg hnot, hwrapper]
          rw [hstrip]
          by_cases hname : name = key
          · have hdescribed : description measure duration spoken members name =
                some (described measure duration spoken inline_) := by
              rw [description, if_neg fun h => hnot h.1, if_pos (hname ▸ hkey), hname, hinline]
            rw [if_pos (by rw [hname, Option.map_some])]
            refine ⟨members, name, rfl, rfl, by rw [hdescribed]; rfl, ?_⟩
            rw [hdescribed, Payload.child, dictGet_replaced, if_pos hname]
          · rw [if_neg (by simp [Ne.symm hname])]
            show dictGet _ name = _
            rw [dictGet_replaced, if_neg hname, dictGet_stripMembers, hget, Option.map_some]

/-- Where the description of what stands there is found at a place. -/
def DescribedIn (value out : Payload) (place : List Step) : Prop :=
  ∃ above members name text, place = above ++ [.key name] ∧
    value.valueAt above = some (.obj members) ∧
      description measure duration spoken members name = some text ∧
        out.valueAt place = some text

theorem valueAt_cons {value below : Payload} {step : Step} (h : value.child step = some below)
    (path : List Step) : value.valueAt (step :: path) = below.valueAt path := by
  rw [Payload.valueAt, h, Option.bind_some]

theorem fate_cons {value below : Payload} {step : Step} (h : value.child step = some below)
    (path : List Step) : fate value (step :: path) =
      if turn value step = .visited then fate below path else turn value step := by
  rw [fate, h]
  cases turn value step <;> rfl

theorem DescribedIn.cons {value below out out' : Payload} {step : Step} {place : List Step}
    (hchild : value.child step = some below) (hout : out.child step = some out')
    (h : DescribedIn measure duration spoken below out' place) :
    DescribedIn measure duration spoken value out (step :: place) := by
  obtain ⟨above, members, name, text, rfl, hat, hdescribed, hfound⟩ := h
  exact ⟨step :: above, members, name, text, rfl, (valueAt_cons hchild above).trans hat,
    hdescribed, (valueAt_cons hout _).trans hfound⟩

/-- **What is found at a path after the walk**: a value it visits walked over, one beside the bytes
of a datum as it was, and above one that stands in a datum the description of the datum. -/
theorem valueAt_strip {value below : Payload} {path : List Step}
    (h : value.valueAt path = some below) :
    match fate value path with
    | .visited => (stripAttachments measure duration spoken value).valueAt path =
        some (stripAttachments measure duration spoken below)
    | .copied => (stripAttachments measure duration spoken value).valueAt path = some below
    | .taken => ∃ place, place <+: path ∧ DescribedIn measure duration spoken value
        (stripAttachments measure duration spoken value) place := by
  induction path generalizing value with
  | nil =>
    obtain rfl := Option.some.inj h
    rfl
  | cons step path ih =>
    obtain ⟨next, hchild, hnext⟩ := Option.bind_eq_some_iff.mp h
    have hstep := child_strip measure duration spoken hchild
    have hrest := ih hnext
    rw [fate_cons hchild]
    cases hturn : turn value step with
    | visited =>
      rw [hturn] at hstep
      rw [if_pos rfl]
      cases hfate : fate next path with
      | visited =>
        rw [hfate] at hrest
        exact (valueAt_cons hstep path).trans hrest
      | copied =>
        rw [hfate] at hrest
        exact (valueAt_cons hstep path).trans hrest
      | taken =>
        rw [hfate] at hrest
        obtain ⟨place, hprefix, hdescribed⟩ := hrest
        exact ⟨step :: place, List.cons_prefix_cons.mpr ⟨rfl, hprefix⟩,
          hdescribed.cons measure duration spoken hchild hstep⟩
    | copied =>
      rw [hturn] at hstep
      rw [if_neg (by simp)]
      exact (valueAt_cons hstep path).trans hnext
    | taken =>
      rw [hturn] at hstep
      rw [if_neg (by simp)]
      obtain ⟨members, name, rfl, rfl, hsome, hfound⟩ := hstep
      obtain ⟨text, htext⟩ := Option.isSome_iff_exists.mp hsome
      refine ⟨[.key name], List.cons_prefix_cons.mpr ⟨rfl, List.nil_prefix⟩,
        [], members, name, text, rfl, rfl, htext, ?_⟩
      rw [Payload.valueAt, hfound, htext, Option.bind_some, Payload.valueAt]

/-! ### Descriptions -/

/-- An object of values that are no containers, under none of the keys the walk looks for. -/
def Flat (members : List (CodePoints × Payload)) : Prop :=
  ∀ entry ∈ members, entry.2.IsLeaf ∧ entry.1 ≠ dataKey ∧ entry.1 ∉ inlineKeys ∧
    entry.1 ∉ mimeKeys

/-- A description is flat. -/
theorem flat_description {members : List (CodePoints × Payload)} {name : CodePoints}
    {text : Payload} (h : description measure duration spoken members name = some text)
    (hduration : ∀ mediaType size seconds, duration mediaType size = some seconds →
      seconds.IsLeaf) : ∃ facts, text = .obj facts ∧ Flat facts := by
  have hkeys : ∀ key ∈ ([("kind" : CodePoints), "media_type", "bytes", "sha256", "seconds"]),
      key ≠ dataKey ∧ key ∉ inlineKeys ∧ key ∉ mimeKeys := by decide +kernel
  have hint : ∀ n, (Payload.int n).IsLeaf := fun n => ⟨fun _ => by simp, fun _ => by simp⟩
  have hstr : ∀ text, (Payload.str text).IsLeaf := fun text =>
    ⟨fun _ => by simp, fun _ => by simp⟩
  rw [description] at h
  split_ifs at h with hdatum hkey
  · obtain rfl := Option.some.inj h
    refine ⟨_, rfl, fun entry hentry => ?_⟩
    simp only [List.mem_cons, List.not_mem_nil, or_false] at hentry
    obtain rfl | rfl | rfl := hentry
    · exact ⟨hstr _, hkeys _ (by simp)⟩
    · exact ⟨hint _, hkeys _ (by simp)⟩
    · exact ⟨hstr _, hkeys _ (by simp)⟩
  · split at h
    · obtain rfl := Option.some.inj h
      refine ⟨_, rfl, fun entry hentry => ?_⟩
      obtain hfact | hseconds := List.mem_append.mp hentry
      · simp only [List.mem_cons, List.not_mem_nil, or_false] at hfact
        obtain rfl | rfl | rfl | rfl := hfact
        · exact ⟨hstr _, hkeys _ (by simp)⟩
        · exact ⟨hstr _, hkeys _ (by simp)⟩
        · exact ⟨hint _, hkeys _ (by simp)⟩
        · exact ⟨hstr _, hkeys _ (by simp)⟩
      · obtain ⟨seconds, hsome, rfl⟩ := Option.map_eq_some_iff.mp (Option.mem_toList.mp hseconds)
        exact ⟨hduration _ _ _ hsome, hkeys _ (by simp)⟩
    · exact absurd h (Option.some_ne_none _).symm

theorem Flat.fresh {members : List (CodePoints × Payload)} (h : Flat members) {key : CodePoints}
    (hkey : key = dataKey ∨ key ∈ inlineKeys ∨ key ∈ mimeKeys) : Fresh members key := by
  intro entry hentry heq
  obtain ⟨-, hdata, hinline, hmime⟩ := h entry hentry
  rw [heq] at hdata hinline hmime
  obtain h | h | h := hkey
  · exact hdata h
  · exact hinline h
  · exact hmime h

theorem strip_leaf {value : Payload} (h : value.IsLeaf) :
    stripAttachments measure duration spoken value = value := by
  rw [stripAttachments]
  · exact h.1
  · exact h.2

/-- The walk leaves a container a container. -/
theorem leaf_of_strip {value : Payload}
    (h : (stripAttachments measure duration spoken value).IsLeaf) :
    stripAttachments measure duration spoken value = value := by
  obtain hleaf | ⟨items, rfl⟩ | ⟨members, rfl⟩ := value.leaf_or_container
  · exact strip_leaf measure duration spoken hleaf
  · rw [stripAttachments] at h
    exact absurd rfl (h.1 _)
  · rw [stripAttachments] at h
    split_ifs at h
    · exact absurd rfl (h.2 _)
    · split at h
      · exact absurd rfl (h.2 _)
      · exact absurd rfl (h.2 _)

theorem wrapper_eq_none_iff {members : List (CodePoints × Payload)} :
    wrapper members = none ↔
      ∀ key ∈ inlineKeys, ∀ inline_, dictGet members key ≠ some (.obj inline_) := by
  rw [wrapper, List.findSome?_eq_none_iff]
  refine forall₂_congr fun key _ => ?_
  split
  · next inline_ hget => simp [hget]
  · next hnot =>
    exact iff_of_true rfl fun inline_ hget => hnot inline_ hget

/-- What is described already is left as it is. -/
theorem strip_flat {members : List (CodePoints × Payload)} (h : Flat members) :
    stripAttachments measure duration spoken (.obj members) = .obj members := by
  have hdatum : ¬inlineDatum members = true := by
    rw [inlineDatum, dictGet_of_fresh (h.fresh (.inl rfl))]
    simp
  have hwrapper : wrapper members = none := wrapper_eq_none_iff.mpr fun key hkey inline_ => by
    rw [dictGet_of_fresh (h.fresh (.inr (.inl hkey)))]
    exact (Option.some_ne_none _).symm
  have hsame : stripMembers measure duration spoken members = members := by
    rw [stripMembers_eq_map]
    conv_rhs => rw [← List.map_id members]
    refine List.map_congr_left fun entry hentry => ?_
    rw [strip_leaf measure duration spoken (h entry hentry).1, id]
  rw [stripAttachments, if_neg hdatum, hwrapper, hsame]

/-- Only what is described already looks like a description after the walk. -/
theorem eq_of_strip_flat {value : Payload} {facts : List (CodePoints × Payload)}
    (hstrip : stripAttachments measure duration spoken value = .obj facts) (h : Flat facts) :
    value = .obj facts := by
  obtain hleaf | ⟨items, rfl⟩ | ⟨members, rfl⟩ := value.leaf_or_container
  · rw [strip_leaf measure duration spoken hleaf] at hstrip
    exact hstrip
  · rw [stripAttachments] at hstrip
    exact Payload.noConfusion hstrip
  · rw [stripAttachments] at hstrip
    split_ifs at hstrip with hdatum
    · obtain rfl := Payload.obj.inj hstrip
      exact absurd rfl (h (dataKey, _) (List.mem_append_right _ (List.mem_singleton.mpr rfl))).2.1
    · split at hstrip
      · next key inline_ hwrapper =>
        obtain rfl := Payload.obj.inj hstrip
        have hkey := (h (key, _) (List.mem_append_right _ (List.mem_singleton.mpr rfl))).2.2.1
        exact absurd (mem_inlineKeys_of_wrapper hwrapper).1 hkey
      · obtain rfl := Payload.obj.inj hstrip
        refine congrArg Payload.obj ?_
        rw [stripMembers_eq_map] at h ⊢
        conv_lhs => rw [← List.map_id members]
        refine List.map_congr_left fun entry hentry => ?_
        have hleaf := (h _ (List.mem_map_of_mem hentry)).1
        rw [leaf_of_strip measure duration spoken hleaf, id]

/-! ### What survives -/

/-- Whether a path goes through the bytes of inline binary: through `data` of an object that has a
media type beside it, or that stands under one of the wrapper's keys. -/
def UnderData (value : Payload) (path : List Step) : Prop :=
  ∃ above rest members, path = above ++ .key dataKey :: rest ∧
    value.valueAt above = some (.obj members) ∧
      (inlineDatum members = true ∨ ∃ upper, ∃ key ∈ inlineKeys, above = upper ++ [.key key])

/-- Whether a path ends in inline binary or goes through it. -/
def InsideDatum (value : Payload) (path : List Step) : Prop :=
  ∃ above rest members name, path = above ++ .key name :: rest ∧
    value.valueAt above = some (.obj members) ∧
      (description measure duration spoken members name).isSome

theorem valueAt_append (value : Payload) (path rest : List Step) :
    value.valueAt (path ++ rest) = (value.valueAt path).bind (·.valueAt rest) := by
  induction path generalizing value with
  | nil => rfl
  | cons step path ih =>
    rw [List.cons_append, Payload.valueAt, Payload.valueAt, Option.bind_assoc]
    exact congrArg _ (funext fun below => ih below)

/-- What is decided on the way stays decided. -/
theorem fate_append {value below : Payload} {path : List Step}
    (h : value.valueAt path = some below) (rest : List Step) :
    fate value (path ++ rest) =
      if fate value path = .visited then fate below rest else fate value path := by
  induction path generalizing value with
  | nil =>
    obtain rfl := Option.some.inj h
    rfl
  | cons step path ih =>
    obtain ⟨next, hchild, hnext⟩ := Option.bind_eq_some_iff.mp h
    rw [List.cons_append, fate_cons hchild, fate_cons hchild, ih hnext]
    cases turn value step <;> simp

variable (hduration : ∀ mediaType size seconds, duration mediaType size = some seconds →
  seconds.IsLeaf)

include hduration in
/-- A string is replaced by a description exactly where the walk takes it or it is one already. -/
theorem described_iff {value : Payload} {path : List Step} {text : CodePoints}
    (hat : value.valueAt path = some (.str text)) :
    (∃ place, place <+: path ∧ DescribedIn measure duration spoken value
        (stripAttachments measure duration spoken value) place) ↔
      fate value path = .taken ∨
        ∃ place, place <+: path ∧ DescribedIn measure duration spoken value value place := by
  -- what stands at a place on the path, and what the walk makes of it
  have hplace : ∀ place, place <+: path → ∃ below, value.valueAt place = some below := by
    rintro place ⟨rest, rfl⟩
    rw [valueAt_append, Option.bind_eq_some_iff] at hat
    obtain ⟨below, hbelow, -⟩ := hat
    exact ⟨below, hbelow⟩
  constructor
  · rintro ⟨place, hprefix, above, members, name, described, rfl, habove, hdescribed, hfound⟩
    obtain ⟨below, hbelow⟩ := hplace _ hprefix
    have hstrip := valueAt_strip measure duration spoken hbelow
    cases hfate : fate value (above ++ [.key name]) with
    | taken =>
      obtain ⟨rest, rfl⟩ := hprefix
      refine .inl ?_
      rw [fate_append hbelow, hfate, if_neg (by simp)]
    | copied =>
      rw [hfate] at hstrip
      refine .inr ⟨_, hprefix, above, members, name, described, rfl, habove, hdescribed, ?_⟩
      rw [hbelow, ← hfound, hstrip]
    | visited =>
      rw [hfate] at hstrip
      obtain ⟨facts, rfl, hflat⟩ := flat_description measure duration spoken hdescribed hduration
      have hwalked := Option.some.inj (hstrip.symm.trans hfound)
      have hsame := eq_of_strip_flat measure duration spoken hwalked hflat
      refine .inr ⟨_, hprefix, above, members, name, _, rfl, habove, hdescribed, ?_⟩
      rw [hbelow, hsame]
  · rintro (htaken | ⟨place, hprefix, hdescribedIn⟩)
    · have hstrip := valueAt_strip measure duration spoken hat
      rwa [htaken] at hstrip
    · obtain ⟨above, members, name, described, rfl, habove, hdescribed, hfound⟩ := hdescribedIn
      have hstrip := valueAt_strip measure duration spoken hfound
      cases hfate : fate value (above ++ [.key name]) with
      | taken =>
        rw [hfate] at hstrip
        obtain ⟨place, hplace', hdescribedIn⟩ := hstrip
        exact ⟨place, hplace'.trans hprefix, hdescribedIn⟩
      | copied =>
        rw [hfate] at hstrip
        exact ⟨_, hprefix, above, members, name, described, rfl, habove, hdescribed, hstrip⟩
      | visited =>
        rw [hfate] at hstrip
        obtain ⟨facts, rfl, hflat⟩ := flat_description measure duration spoken hdescribed hduration
        rw [strip_flat measure duration spoken hflat] at hstrip
        exact ⟨_, hprefix, above, members, name, _, rfl, habove, hdescribed, hstrip⟩

/-- One value in place of another: the same where it holds nothing, and else a container with as
many items or with the same keys. -/
structure SameShape (value found : Payload) : Prop where
  same : value.IsLeaf → found = value
  items : ∀ items, value = .arr items → ∃ items', found = .arr items' ∧ items'.length = items.length
  keys : ∀ members, value = .obj members → ∃ members', found = .obj members' ∧
    ∀ key, (dictGet members' key).isSome = (dictGet members key).isSome

theorem sameShape_refl (value : Payload) : SameShape value value :=
  ⟨fun _ => rfl, fun items h => ⟨items, h, rfl⟩, fun members h => ⟨members, h, fun _ => rfl⟩⟩

/-- The walk keeps the shape of what it walks over. -/
theorem sameShape_strip (value : Payload) :
    SameShape value (stripAttachments measure duration spoken value) := by
  refine ⟨fun hleaf => strip_leaf measure duration spoken hleaf, fun items hvalue => ?_,
    fun members hvalue => ?_⟩
  · rw [hvalue, stripAttachments, stripItems_eq_map]
    exact ⟨_, rfl, List.length_map _⟩
  · rw [hvalue, stripAttachments]
    split_ifs with hdatum
    · refine ⟨_, rfl, fun key => ?_⟩
      rw [dictGet_replaced]
      split_ifs with hkey
      · rw [inlineDatum, Bool.and_eq_true] at hdatum
        rw [hkey, hdatum.2, Option.isSome_some]
      · rfl
    · split
      · next name inline_ hwrapper =>
        refine ⟨_, rfl, fun key => ?_⟩
        rw [dictGet_replaced]
        split_ifs with hkey
        · rw [hkey, (mem_inlineKeys_of_wrapper hwrapper).2, Option.isSome_some, Option.isSome_some]
        · rw [dictGet_stripMembers, Option.isSome_map]
      · refine ⟨_, rfl, fun key => ?_⟩
        rw [dictGet_stripMembers, Option.isSome_map]

/-- **What stands in no datum is unchanged at its path**. -/
theorem unchanged_strip {value below : Payload} {path : List Step}
    (hat : value.valueAt path = some below)
    (hout : ¬InsideDatum measure duration spoken value path) :
    ∃ found, (stripAttachments measure duration spoken value).valueAt path = some found ∧
      SameShape below found := by
  have hstrip := valueAt_strip measure duration spoken hat
  cases hfate : fate value path with
  | visited =>
    rw [hfate] at hstrip
    exact ⟨_, hstrip, sameShape_strip measure duration spoken below⟩
  | copied =>
    rw [hfate] at hstrip
    exact ⟨_, hstrip, sameShape_refl below⟩
  | taken =>
    rw [hfate] at hstrip
    obtain ⟨place, ⟨rest, rfl⟩, hplace⟩ := hstrip
    obtain ⟨above, members, name, described, rfl, habove, hdescribed, -⟩ := hplace
    refine absurd ⟨above, rest, members, name, ?_, habove, by rw [hdescribed]; rfl⟩ hout
    rw [List.append_assoc, List.singleton_append]

/-! ### Walking again -/

/-- What a second walk makes of the objects the first one replaces an entry of: it measures a
description of bytes as what cannot be decoded, and describes a description as an empty object. -/
def Settles (members : List (CodePoints × Payload)) : Prop :=
  (inlineDatum members = true → measure (dictGet members dataKey) = (0, [])) ∧
    ∀ key inline_, inlineDatum members = false → wrapper members = some (key, inline_) →
      described measure duration spoken inline_ = described measure duration spoken []

/-- Every object the walk comes to is described as its description is. -/
def Settled (value : Payload) : Prop :=
  ∀ path members, value.valueAt path = some (.obj members) → fate value path = .visited →
    Settles measure duration spoken members

theorem settled_leaf {value : Payload} (h : value.IsLeaf) :
    Settled measure duration spoken value := by
  intro path members hat _
  cases path with
  | nil => exact absurd (Option.some.inj hat) (h.2 members)
  | cons step path =>
    rw [Payload.valueAt, h.child] at hat
    exact absurd hat (Option.some_ne_none _).symm

/-- A value is settled where it is an object that settles, or none, and what the walk comes to from
it is settled. -/
theorem settled_iff {value : Payload} : Settled measure duration spoken value ↔
    (∀ members, value = .obj members → Settles measure duration spoken members) ∧
      ∀ step below, value.child step = some below → turn value step = .visited →
        Settled measure duration spoken below := by
  constructor
  · refine fun h => ⟨fun members hvalue => h [] members (by rw [hvalue, Payload.valueAt]) rfl, ?_⟩
    intro step below hchild hturn path members hat hfate
    refine h (step :: path) members ((valueAt_cons hchild path).trans hat) ?_
    rw [fate_cons hchild, if_pos hturn, hfate]
  · rintro ⟨hroot, h⟩ path members hat hfate
    cases path with
    | nil => exact hroot members (Option.some.inj hat)
    | cons step path =>
      obtain ⟨below, hchild, hbelow⟩ := Option.bind_eq_some_iff.mp hat
      rw [fate_cons hchild] at hfate
      split_ifs at hfate with hturn
      · exact h step below hchild hturn path members hbelow hfate
      · exact absurd hfate hturn

theorem settled_arr_iff {items : List Payload} : Settled measure duration spoken (.arr items) ↔
    ∀ item ∈ items, Settled measure duration spoken item := by
  rw [settled_iff]
  constructor
  · rintro ⟨-, h⟩ item hitem
    obtain ⟨i, hi⟩ := List.mem_iff_getElem?.mp hitem
    exact h (.index i) item hi rfl
  · intro h
    refine ⟨fun members hvalue => Payload.noConfusion hvalue, fun step below hchild _ => ?_⟩
    cases step with
    | key name => exact absurd hchild (Option.some_ne_none _).symm
    | index i => exact h below (List.mem_of_getElem? hchild)

theorem settled_obj_iff {members : List (CodePoints × Payload)}
    (hnodup : (members.map (·.1)).Nodup) : Settled measure duration spoken (.obj members) ↔
      Settles measure duration spoken members ∧ ∀ entry ∈ members,
        turn (.obj members) (.key entry.1) = .visited →
          Settled measure duration spoken entry.2 := by
  rw [settled_iff]
  constructor
  · rintro ⟨hroot, h⟩
    refine ⟨hroot members rfl, fun entry hentry hturn => h (.key entry.1) entry.2 ?_ hturn⟩
    exact (dictGet_eq_some_iff hnodup).mpr hentry
  · rintro ⟨hroot, h⟩
    refine ⟨fun members' hvalue => ?_, fun step below hchild hturn => ?_⟩
    · obtain rfl := Payload.obj.inj hvalue
      exact hroot
    · cases step with
      | index i => exact absurd hchild (Option.some_ne_none _).symm
      | key name => exact h (name, below) (dictGet_mem hchild) hturn

variable (hbraces : ∀ members, measure (some (.obj members)) = (0, []))

include hbraces in
theorem summary_summary (raw : Option Payload) :
    summary measure (some (summary measure raw)) = summary measure raw ↔
      measure raw = (0, []) := by
  have hagain : measure (some (summary measure raw)) = (0, []) := hbraces _
  have hsummary : ∀ raw, summary measure raw = .obj [("kind", .str "data"),
      ("bytes", .int (measure raw).1), ("sha256", .str (measure raw).2)] := fun _ => rfl
  rw [hsummary (some _), hagain, hsummary raw]
  constructor
  · intro h
    have hbytes : (0 : ℤ) = (measure raw).1 ∧ ([] : CodePoints) = (measure raw).2 := by
      simpa using h
    exact Prod.ext hbytes.1.symm hbytes.2.symm
  · intro h
    rw [h]

/-- A description is described as an empty object is. -/
theorem described_facts {facts : List (CodePoints × Payload)} (h : Flat facts) :
    described measure duration spoken facts = described measure duration spoken [] := by
  have hmime : mimeKeys.filterMap (dictGet facts) = mimeKeys.filterMap (dictGet []) := by
    refine List.filterMap_congr fun key hkey => ?_
    rw [dictGet_of_fresh (h.fresh (.inr (.inr hkey)))]
    rfl
  have hdata : dictGet facts dataKey = dictGet [] dataKey := by
    rw [dictGet_of_fresh (h.fresh (.inl rfl))]
    rfl
  rw [described, described, hmime, hdata]

omit measure duration spoken in
theorem filter_replaced (members : List (CodePoints × Payload)) (key : CodePoints)
    (value : Payload) :
    (members.filter (fun entry => entry.1 ≠ key) ++ [(key, value)]).filter
      (fun entry => entry.1 ≠ key) = members.filter (fun entry => entry.1 ≠ key) := by
  simp [List.filter_append, List.filter_filter]

theorem inlineDatum_congr {members members' : List (CodePoints × Payload)}
    (h : ∀ key, (dictGet members' key).isSome = (dictGet members key).isSome) :
    inlineDatum members' = inlineDatum members := by
  simp only [inlineDatum, h]

theorem strip_datum {members : List (CodePoints × Payload)} (hdatum : inlineDatum members = true) :
    stripAttachments measure duration spoken (.obj members) =
      .obj (members.filter (fun entry => entry.1 ≠ dataKey) ++
        [(dataKey, summary measure (dictGet members dataKey))]) := by
  rw [stripAttachments, if_pos hdatum]

theorem strip_plain {members : List (CodePoints × Payload)} (hdatum : inlineDatum members = false)
    (hwrapper : wrapper members = none) : stripAttachments measure duration spoken (.obj members) =
      .obj (stripMembers measure duration spoken members) := by
  rw [stripAttachments, if_neg (by rw [hdatum]; exact Bool.false_ne_true), hwrapper]

theorem strip_wrapper {members inline_ : List (CodePoints × Payload)} {key : CodePoints}
    (hdatum : inlineDatum members = false) (hwrapper : wrapper members = some (key, inline_)) :
    stripAttachments measure duration spoken (.obj members) =
      .obj ((stripMembers measure duration spoken members).filter (fun entry => entry.1 ≠ key) ++
        [(key, described measure duration spoken inline_)]) := by
  rw [stripAttachments, if_neg (by rw [hdatum]; exact Bool.false_ne_true), hwrapper]

include hbraces in
theorem strip_strip_datum {members : List (CodePoints × Payload)}
    (hdatum : inlineDatum members = true) :
    stripAttachments measure duration spoken
        (stripAttachments measure duration spoken (.obj members)) =
      stripAttachments measure duration spoken (.obj members) ↔
        measure (dictGet members dataKey) = (0, []) := by
  have hshape := (sameShape_strip measure duration spoken (.obj members)).keys members rfl
  obtain ⟨members', hmembers', hkeys⟩ := hshape
  have hdatum' : inlineDatum members' = true := (inlineDatum_congr hkeys).trans hdatum
  rw [strip_datum measure duration spoken hdatum] at hmembers' ⊢
  obtain rfl := Payload.obj.inj hmembers'
  rw [strip_datum measure duration spoken hdatum', filter_replaced, dictGet_replaced, if_pos rfl,
    Payload.obj.injEq, List.append_cancel_left_eq, List.cons.injEq, Prod.mk.injEq,
    summary_summary measure hbraces]
  simp

/-- What the walk makes of the members of an object is walked over again entry by entry. -/
theorem stripMembers_stripMembers (members : List (CodePoints × Payload))
    (p : CodePoints → Bool) :
    stripMembers measure duration spoken
        ((stripMembers measure duration spoken members).filter fun entry => p entry.1) =
      (stripMembers measure duration spoken members).filter (fun entry => p entry.1) ↔
        ∀ entry ∈ members, p entry.1 = true →
          stripAttachments measure duration spoken
            (stripAttachments measure duration spoken entry.2) =
              stripAttachments measure duration spoken entry.2 := by
  rw [stripMembers_eq_map, stripMembers_eq_map, List.filter_map, List.map_map,
    List.map_inj_left]
  simp only [List.mem_filter, Function.comp_apply, Prod.mk.injEq, true_and, and_imp]

/-- Whether an object stands somewhere. -/
def holdsObject : Option Payload → Bool
  | some (.obj _) => true
  | _ => false

omit measure duration spoken in
theorem wrapper_key (members : List (CodePoints × Payload)) :
    (wrapper members).map (·.1) =
      inlineKeys.find? fun key => holdsObject (dictGet members key) := by
  rw [wrapper]
  generalize inlineKeys = keys
  induction keys with
  | nil => rfl
  | cons key keys ih =>
    rw [List.findSome?_cons, List.find?_cons, ← ih]
    cases hget : dictGet members key with
    | none => rfl
    | some value => cases value <;> rfl

omit measure duration spoken in
theorem wrapper_congr (members members' : List (CodePoints × Payload))
    (h : ∀ key, holdsObject (dictGet members' key) = holdsObject (dictGet members key)) :
    (wrapper members').map (·.1) = (wrapper members).map (·.1) := by
  rw [wrapper_key, wrapper_key, funext h]

theorem holdsObject_strip (value : Option Payload) :
    holdsObject (value.map (stripAttachments measure duration spoken)) = holdsObject value := by
  cases value with
  | none => rfl
  | some value =>
    obtain hleaf | ⟨items, rfl⟩ | ⟨members, rfl⟩ := value.leaf_or_container
    · rw [Option.map_some, strip_leaf measure duration spoken hleaf]
    · rw [Option.map_some, stripAttachments]
      rfl
    · obtain ⟨members', hstrip, -⟩ :=
        (sameShape_strip measure duration spoken (.obj members)).keys members rfl
      rw [Option.map_some, hstrip]
      rfl

theorem strip_strip_plain {members : List (CodePoints × Payload)}
    (hdatum : inlineDatum members = false) (hwrapper : wrapper members = none) :
    stripAttachments measure duration spoken
        (stripAttachments measure duration spoken (.obj members)) =
      stripAttachments measure duration spoken (.obj members) ↔
        ∀ entry ∈ members, stripAttachments measure duration spoken
          (stripAttachments measure duration spoken entry.2) =
            stripAttachments measure duration spoken entry.2 := by
  have hdatum' : inlineDatum (stripMembers measure duration spoken members) = false := by
    rw [← hdatum]
    exact inlineDatum_congr fun key => by rw [dictGet_stripMembers, Option.isSome_map]
  have hwrapper' : wrapper (stripMembers measure duration spoken members) = none := by
    have hkey := wrapper_congr members (stripMembers measure duration spoken members) fun key => by
      rw [dictGet_stripMembers, holdsObject_strip]
    rw [hwrapper, Option.map_none, Option.map_eq_none_iff] at hkey
    exact hkey
  have hmembers := stripMembers_stripMembers measure duration spoken members
    fun _ => true
  rw [strip_plain measure duration spoken hdatum hwrapper,
    strip_plain measure duration spoken hdatum' hwrapper', Payload.obj.injEq]
  simpa using hmembers

include hduration in
theorem strip_strip_wrapper {members inline_ : List (CodePoints × Payload)} {key : CodePoints}
    (hdatum : inlineDatum members = false) (hwrapper : wrapper members = some (key, inline_)) :
    stripAttachments measure duration spoken
        (stripAttachments measure duration spoken (.obj members)) =
      stripAttachments measure duration spoken (.obj members) ↔
        described measure duration spoken inline_ = described measure duration spoken [] ∧
          ∀ entry ∈ members, entry.1 ≠ key → stripAttachments measure duration spoken
            (stripAttachments measure duration spoken entry.2) =
              stripAttachments measure duration spoken entry.2 := by
  obtain ⟨hkey, hinline⟩ := mem_inlineKeys_of_wrapper hwrapper
  have hdescription : description measure duration spoken members key =
      some (described measure duration spoken inline_) := by
    rw [description, if_neg (by simp [hdatum]), if_pos hkey, hinline]
  obtain ⟨facts, hfacts, hflat⟩ :=
    flat_description measure duration spoken hdescription hduration
  -- the object after the first walk
  have hget : ∀ name, dictGet ((stripMembers measure duration spoken members).filter
      (fun entry => entry.1 ≠ key) ++ [(key, .obj facts)]) name =
        if name = key then some (.obj facts)
        else (dictGet members name).map (stripAttachments measure duration spoken) := by
    intro name
    rw [dictGet_replaced, dictGet_stripMembers]
  have hdatum' : inlineDatum ((stripMembers measure duration spoken members).filter
      (fun entry => entry.1 ≠ key) ++ [(key, .obj facts)]) = false := by
    rw [← hdatum]
    refine inlineDatum_congr fun name => ?_
    rw [hget]
    split_ifs with hname
    · rw [hname, hinline, Option.isSome_some, Option.isSome_some]
    · rw [Option.isSome_map]
  have hwrapper' : wrapper ((stripMembers measure duration spoken members).filter
      (fun entry => entry.1 ≠ key) ++ [(key, .obj facts)]) = some (key, facts) := by
    have hfirst := wrapper_congr members ((stripMembers measure duration spoken members).filter
      (fun entry => entry.1 ≠ key) ++ [(key, .obj facts)]) fun name => by
        rw [hget]
        split_ifs with hname
        · rw [hname, hinline]
          rfl
        · rw [holdsObject_strip]
    rw [hwrapper, Option.map_some, Option.map_eq_some_iff] at hfirst
    obtain ⟨⟨name, inside⟩, hfound, rfl⟩ := hfirst
    have hinside := (mem_inlineKeys_of_wrapper hfound).2
    rw [hget, if_pos rfl, Option.some.injEq, Payload.obj.injEq] at hinside
    rw [hfound, hinside]
  have hmembers := stripMembers_stripMembers measure duration spoken members
    fun name => decide (name ≠ key)
  rw [strip_wrapper measure duration spoken hdatum hwrapper, hfacts,
    strip_wrapper measure duration spoken hdatum' hwrapper', Payload.obj.injEq,
    described_facts measure duration spoken hflat]
  have hrest : (stripMembers measure duration spoken
      ((stripMembers measure duration spoken members).filter (fun entry => entry.1 ≠ key) ++
        [(key, .obj facts)])).filter (fun entry => entry.1 ≠ key) =
      stripMembers measure duration spoken
        ((stripMembers measure duration spoken members).filter fun entry => entry.1 ≠ key) := by
    rw [stripMembers_eq_map _ _ _ (_ ++ _), List.map_append, List.filter_append,
      ← stripMembers_eq_map]
    have hnone : ([(key, Payload.obj facts)].map fun entry =>
        (entry.1, stripAttachments measure duration spoken entry.2)).filter
          (fun entry => entry.1 ≠ key) = [] := by simp
    rw [hnone, List.append_nil, List.filter_eq_self]
    intro entry hentry
    rw [stripMembers_eq_map] at hentry
    obtain ⟨old, hold, rfl⟩ := List.mem_map.mp hentry
    exact (List.mem_filter.mp hold).2
  rw [hrest]
  constructor
  · intro h
    obtain ⟨hleft, hright⟩ := List.append_inj' h rfl
    refine ⟨(Prod.mk.inj (List.cons.inj hright).1).2.symm, fun entry hentry hne => ?_⟩
    exact hmembers.mp hleft entry hentry (decide_eq_true hne)
  · rintro ⟨hsame, hentries⟩
    rw [hsame, hmembers.mpr fun entry hentry hne =>
      hentries entry hentry (of_decide_eq_true hne)]

include hduration hbraces in
/-- A second walk over an object changes nothing where the object settles and a second walk over
what the first one comes to changes nothing. -/
theorem strip_strip_obj {members : List (CodePoints × Payload)} :
    stripAttachments measure duration spoken
        (stripAttachments measure duration spoken (.obj members)) =
      stripAttachments measure duration spoken (.obj members) ↔
        Settles measure duration spoken members ∧ ∀ entry ∈ members,
          turn (.obj members) (.key entry.1) = .visited →
            stripAttachments measure duration spoken
              (stripAttachments measure duration spoken entry.2) =
                stripAttachments measure duration spoken entry.2 := by
  cases hdatum : inlineDatum members with
  | true =>
    have hturn : ∀ name, turn (.obj members) (.key name) ≠ .visited := by
      intro name
      rw [turn, if_pos hdatum]
      split_ifs <;> simp
    rw [strip_strip_datum measure duration spoken hbraces hdatum]
    refine ⟨fun h => ⟨⟨fun _ => h, fun _ _ hnot => ?_⟩, fun entry _ hvisited => ?_⟩,
      fun h => h.1.1 hdatum⟩
    · exact Bool.noConfusion (hdatum.symm.trans hnot)
    · exact absurd hvisited (hturn entry.1)
  | false =>
    have hnot : ¬inlineDatum members = true := by rw [hdatum]; exact Bool.false_ne_true
    cases hwrapper : wrapper members with
    | none =>
      have hturn : ∀ name, turn (.obj members) (.key name) = .visited := by
        intro name
        rw [turn, if_neg hnot, hwrapper, if_neg (by simp)]
      have hsettles : Settles measure duration spoken members :=
        ⟨fun h => absurd h hnot, fun key inline_ _ hsome =>
          absurd (hwrapper.symm.trans hsome) (Option.some_ne_none _).symm⟩
      rw [strip_strip_plain measure duration spoken hdatum hwrapper]
      exact ⟨fun h => ⟨hsettles, fun entry hentry _ => h entry hentry⟩,
        fun h entry hentry => h.2 entry hentry (hturn entry.1)⟩
    | some wrapped =>
      obtain ⟨key, inline_⟩ := wrapped
      have hturn : ∀ name, turn (.obj members) (.key name) = .visited ↔ name ≠ key := by
        intro name
        rw [turn, if_neg hnot, hwrapper, Option.map_some]
        split_ifs with hname
        · exact iff_of_false (by simp) fun hne => hne (Option.some.inj hname).symm
        · exact iff_of_true rfl fun h => hname (congrArg some h.symm)
      have hsettles : Settles measure duration spoken members ↔
          described measure duration spoken inline_ = described measure duration spoken [] := by
        refine ⟨fun h => h.2 key inline_ hdatum hwrapper, fun h => ⟨fun h => absurd h hnot, ?_⟩⟩
        intro key' inline' _ hsome
        rw [hwrapper] at hsome
        obtain ⟨rfl, rfl⟩ := Prod.mk.inj (Option.some.inj hsome)
        exact h
      rw [strip_strip_wrapper measure duration spoken hduration hdatum hwrapper, hsettles]
      simp only [hturn]

include hduration hbraces in
/-- **A second walk changes nothing exactly where every object the first one comes to is described
as its description is**. -/
theorem strip_strip_iff (limit : ℕ) {value : Payload} (hdepth : value.depth ≤ limit)
    (hheld : value.Held) :
    stripAttachments measure duration spoken (stripAttachments measure duration spoken value) =
      stripAttachments measure duration spoken value ↔
        Settled measure duration spoken value := by
  induction limit generalizing value with
  | zero =>
    have hpos : 0 < value.depth := by cases value <;> simp [Payload.depth]
    omega
  | succ limit ih =>
    obtain hleaf | ⟨items, rfl⟩ | ⟨members, rfl⟩ := value.leaf_or_container
    · have hstrip := strip_leaf measure duration spoken hleaf
      exact iff_of_true (by rw [hstrip, hstrip]) (settled_leaf measure duration spoken hleaf)
    · have hitems := Payload.depthItems_le_iff.mp (Nat.le_of_succ_le_succ hdepth)
      rw [settled_arr_iff, stripAttachments, stripItems_eq_map, stripAttachments,
        stripItems_eq_map, Payload.arr.injEq, List.map_map, List.map_inj_left]
      exact forall₂_congr fun item hitem => ih (hitems item hitem) (hheld.item hitem)
    · have hmembers := Payload.depthMembers_le_iff.mp (Nat.le_of_succ_le_succ hdepth)
      rw [strip_strip_obj measure duration spoken hduration hbraces,
        settled_obj_iff measure duration spoken hheld.nodup]
      refine and_congr_right fun _ => forall₂_congr fun entry hentry => ?_
      rw [ih (hmembers entry hentry) (hheld.entry hentry)]

/-- No inline binary survives, what is none is unchanged, and a second walk changes nothing. -/
structure NothingSurvives (value : Payload) : Prop where
  gone : ∀ path text, value.valueAt path = some (.str text) → UnderData value path →
    ∃ place, place <+: path ∧ DescribedIn measure duration spoken value
      (stripAttachments measure duration spoken value) place
  unchanged : ∀ path below, value.valueAt path = some below →
    ¬InsideDatum measure duration spoken value path →
      ∃ found, (stripAttachments measure duration spoken value).valueAt path = some found ∧
        SameShape below found
  idempotent : stripAttachments measure duration spoken
      (stripAttachments measure duration spoken value) =
    stripAttachments measure duration spoken value

include hduration hbraces in
/-- **No inline binary survives exactly where every string under a datum's bytes is taken with the
first datum on its path or is described already, and every description describes itself**. -/
theorem nothingSurvives_iff (value : HeldPayload) :
    NothingSurvives measure duration spoken value.1 ↔
      (∀ path text, value.1.valueAt path = some (.str text) → UnderData value.1 path →
        fate value.1 path = .taken ∨
          ∃ place, place <+: path ∧ DescribedIn measure duration spoken value.1 value.1 place) ∧
        Settled measure duration spoken value.1 := by
  constructor
  · intro h
    refine ⟨fun path text hat hunder => ?_, ?_⟩
    · exact (described_iff measure duration spoken hduration hat).mp (h.gone path text hat hunder)
    · exact (strip_strip_iff measure duration spoken hduration hbraces _ (le_refl _) value.2).mp
        h.idempotent
  · rintro ⟨htaken, hsettled⟩
    refine ⟨fun path text hat hunder => ?_, fun path below hat hout =>
      unchanged_strip measure duration spoken hat hout, ?_⟩
    · exact (described_iff measure duration spoken hduration hat).mpr (htaken path text hat hunder)
    · exact (strip_strip_iff measure duration spoken hduration hbraces _ (le_refl _) value.2).mpr
        hsettled

end Attachments

/-! ### A datum beside the bytes of another one -/

/-- An image of no bytes anybody can decode. -/
def image (text : String) : List (CodePoints × Payload) :=
  [("mime_type", .str "image/png"), ("data", .str text)]

/-- An image with a smaller one beside its bytes. -/
def withPreview : List (CodePoints × Payload) :=
  image "!" ++ [(("preview" : CodePoints), .obj (image "!!"))]

/-- What is measured of a text that is not base64. -/
def undecodable : Option Payload → ℤ × CodePoints := fun _ => (0, [])

theorem held_image (text : String) : (Payload.obj (image text)).Held := by
  have hstr : ∀ text : CodePoints, (Payload.str text).Held := fun text =>
    Payload.IsLeaf.held ⟨fun _ => by simp, fun _ => by simp⟩ fun _ => by simp
  have hkeys : ([("mime_type" : CodePoints), "data"] : List CodePoints).Nodup := by decide +kernel
  refine held_obj hkeys fun entry hentry => ?_
  obtain rfl | hentry := List.mem_cons.mp hentry
  · exact hstr _
  · obtain rfl := List.mem_singleton.mp hentry
    exact hstr _

theorem held_withPreview : (Payload.obj withPreview).Held := by
  have hkeys : ([("mime_type" : CodePoints), "data", "preview"] : List CodePoints).Nodup := by
    decide +kernel
  refine held_obj hkeys fun entry hentry => ?_
  obtain himage | hpreview := List.mem_append.mp hentry
  · exact (held_image "!").entry himage
  · obtain rfl := List.mem_singleton.mp hpreview
    exact held_image "!!"

/-- The bytes of an image that stands beside those of another one are stored. -/
theorem preview_survives : ¬NothingSurvives undecodable (fun _ _ => none) (fun _ => [])
    (⟨.obj withPreview, held_withPreview⟩ : HeldPayload).1 := by
  intro h
  have hat : (Payload.obj withPreview).valueAt [.key "preview", .key "data"] =
      some (.str "!!") := rfl
  have hunder : UnderData (.obj withPreview) [.key "preview", .key "data"] :=
    ⟨[.key "preview"], [], image "!!", rfl, rfl, .inl (by decide +kernel)⟩
  have hduration : ∀ (mediaType : CodePoints) (size : ℤ) (seconds : Payload),
      (none : Option Payload) = some seconds → seconds.IsLeaf :=
    fun _ _ _ hnone => absurd hnone (Option.some_ne_none _).symm
  obtain htaken | ⟨place, hprefix, hdescribed⟩ :=
    (described_iff undecodable (fun _ _ => none) (fun _ => []) hduration hat).mp
      (h.gone _ _ hat hunder)
  · have hcopied : fate (.obj withPreview) [.key "preview", .key "data"] = .copied := by
      decide +kernel
    rw [hcopied] at htaken
    exact Fate.noConfusion htaken
  · -- neither the small image nor its text is a description
    obtain ⟨above, members, name, text, rfl, -, htext, hfound⟩ := hdescribed
    obtain ⟨facts, rfl, hflat⟩ :=
      flat_description undecodable (fun _ _ => none) (fun _ => []) htext hduration
    have hvalues : ∀ place, place ≠ [] → place <+: [Step.key "preview", Step.key "data"] →
        (Payload.obj withPreview).valueAt place = some (.obj (image "!!")) ∨
          (Payload.obj withPreview).valueAt place = some (.str "!!") := by
      intro place hne hplace
      obtain ⟨rest, hrest⟩ := hplace
      cases place with
      | nil => exact absurd rfl hne
      | cons step place =>
        obtain ⟨hstep, htail⟩ := List.cons.inj hrest
        subst hstep
        cases place with
        | nil => exact .inl rfl
        | cons step place =>
          obtain ⟨hstep, hlast⟩ := List.cons.inj htail
          subst hstep
          obtain ⟨rfl, -⟩ := List.append_eq_nil_iff.mp hlast
          exact .inr rfl
    obtain hvalue | hvalue := hvalues _ (by simp) hprefix
    · obtain rfl := Payload.obj.inj (Option.some.inj (hvalue.symm.trans hfound))
      exact (hflat (dataKey, .str "!!") (by simp [image, dataKey])).2.1 rfl
    · exact Payload.noConfusion (Option.some.inj (hvalue.symm.trans hfound))

/-- Where nothing can be decoded and a datum is alone, nothing survives. -/
theorem image_gone : NothingSurvives undecodable (fun _ _ => none) (fun _ => [])
    (⟨.obj (image "!"), held_image "!"⟩ : HeldPayload).1 := by
  have hduration : ∀ (mediaType : CodePoints) (size : ℤ) (seconds : Payload),
      (none : Option Payload) = some seconds → seconds.IsLeaf :=
    fun _ _ _ hnone => absurd hnone (Option.some_ne_none _).symm
  have hdatum : inlineDatum (image "!") = true := by decide +kernel
  refine (nothingSurvives_iff undecodable (fun _ _ => none) (fun _ => []) hduration
    (fun _ => rfl) ⟨.obj (image "!"), held_image "!"⟩).mpr ⟨?_, ?_⟩
  · rintro path text - ⟨above, rest, members, rfl, habove, -⟩
    refine .inl ?_
    cases above with
    | nil =>
      have hturn : turn (.obj (image "!")) (.key dataKey) = .taken := by decide +kernel
      have hchild : (Payload.obj (image "!")).child (.key dataKey) = some (.str "!") := rfl
      rw [List.nil_append, fate_cons hchild, hturn, if_neg (by simp)]
    | cons step above =>
      -- there is no object below the only one
      obtain ⟨next, hchild, hnext⟩ := Option.bind_eq_some_iff.mp habove
      have hleaf : next.IsLeaf := by
        cases step with
        | index i => exact absurd hchild (Option.some_ne_none _).symm
        | key name =>
          have hmem : (name, next) ∈ image "!" := dictGet_mem hchild
          simp only [image, List.mem_cons, List.not_mem_nil, or_false, Prod.mk.injEq] at hmem
          obtain ⟨-, rfl⟩ | ⟨-, rfl⟩ := hmem <;> exact ⟨fun _ => by simp, fun _ => by simp⟩
      cases above with
      | nil => exact absurd (Option.some.inj hnext) (hleaf.2 members)
      | cons step above =>
        rw [Payload.valueAt, hleaf.child] at hnext
        exact absurd hnext (Option.some_ne_none _).symm
  · refine (settled_obj_iff undecodable (fun _ _ => none) (fun _ => []) (held_image "!").nodup).mpr
      ⟨⟨fun _ => rfl, fun _ _ hnot => Bool.noConfusion (hdatum.symm.trans hnot)⟩, ?_⟩
    intro entry _ hvisited
    rw [turn, if_pos hdatum] at hvisited
    split_ifs at hvisited

end AiraGateway.Persistence
