import AiraGateway.Persistence.Sanitize
import Mathlib.Data.List.Induction
import Mathlib.Data.List.Nodup

/-!
# What a payload keeps when it is made storable

A payload is wrapped if it is no object, cut where it is nested too deep, and then rid of the
numbers and texts its column does not take. What is cut or not taken is named in its place, so that
nothing of an audit row is lost silently.

* What comes out fits the column: `Payload.finite`, `Payload.encodable` and at most
  `maxStoredDepth` containers in each other, and doing it again changes nothing
  (`kept_kept`).
* A payload that fits is stored as it is (`kept_eq_self`).
* A value is found where it was, and an object keeps its entries, **exactly where the names of an
  object's keys are apart** (`keeps_iff_apart`): two keys that cannot be encoded have one name, and
  the entry of the second takes the place of the first.
-/

namespace AiraGateway.Persistence

/-! ### Places in a payload -/

namespace Payload

/-- One step down: to the value of a key, or to an item. -/
inductive Step
  | key (name : CodePoints)
  | index (i : ℕ)

/-- What stands under a payload at a step. -/
def child : Payload → Step → Option Payload
  | .obj members, .key name => dictGet members name
  | .arr items, .index i => items[i]?
  | _, _ => none

/-- What stands at the end of a path. -/
def valueAt (value : Payload) : List Step → Option Payload
  | [] => some value
  | step :: path => (value.child step).bind (·.valueAt path)

/-- The path that the storable form of a payload has in place of another one. -/
def Step.named : Step → Step
  | .key name => .key (storableText name)
  | .index i => .index i

/-- What stands in for a number that is not finite, as the interpreter writes it. -/
def nonFiniteTexts : List CodePoints := ["inf", "-inf", "nan"]

/-- A payload the interpreter can hold: every object has a key once, and a number that is not finite
is one of three. -/
structure Held (value : Payload) : Prop where
  keys : ∀ path members, value.valueAt path = some (.obj members) → (members.map (·.1)).Nodup
  numbers : ∀ path text, value.valueAt path = some (.nonFinite text) → text ∈ nonFiniteTexts

mutual

/-- Whether every text and every key can be encoded. -/
def encodable : Payload → Bool
  | str text => text.encodable
  | arr items => encodableItems items
  | obj members => encodableMembers members
  | _ => true

def encodableItems : List Payload → Bool
  | [] => true
  | item :: items => item.encodable && encodableItems items

def encodableMembers : List (CodePoints × Payload) → Bool
  | [] => true
  | (name, value) :: members =>
    (name.encodable && value.encodable) && encodableMembers members

end

mutual

/-- How many containers are nested in each other. -/
def nesting : Payload → ℕ
  | arr items => nestingItems items + 1
  | obj members => nestingMembers members + 1
  | _ => 0

def nestingItems : List Payload → ℕ
  | [] => 0
  | item :: items => max item.nesting (nestingItems items)

def nestingMembers : List (CodePoints × Payload) → ℕ
  | [] => 0
  | (_, value) :: members => max value.nesting (nestingMembers members)

end

theorem encodableItems_eq_true_iff {items : List Payload} :
    encodableItems items = true ↔ ∀ item ∈ items, item.encodable = true := by
  induction items with
  | nil => simp [encodableItems]
  | cons item items ih => simp [encodableItems, ih]

theorem encodableMembers_eq_true_iff {members : List (CodePoints × Payload)} :
    encodableMembers members = true ↔
      ∀ entry ∈ members, entry.1.encodable = true ∧ entry.2.encodable = true := by
  induction members with
  | nil => simp [encodableMembers]
  | cons entry members ih => simp [encodableMembers, ih]

theorem nestingItems_le_iff {items : List Payload} {n : ℕ} :
    nestingItems items ≤ n ↔ ∀ item ∈ items, item.nesting ≤ n := by
  induction items with
  | nil => simp [nestingItems]
  | cons item items ih => simp [nestingItems, Nat.max_le, ih]

theorem nestingMembers_le_iff {members : List (CodePoints × Payload)} {n : ℕ} :
    nestingMembers members ≤ n ↔ ∀ entry ∈ members, entry.2.nesting ≤ n := by
  induction members with
  | nil => simp [nestingMembers]
  | cons entry members ih => simp [nestingMembers, Nat.max_le, ih]

theorem depthItems_le_iff {items : List Payload} {n : ℕ} :
    depthItems items ≤ n ↔ ∀ item ∈ items, item.depth ≤ n := by
  induction items with
  | nil => simp [depthItems]
  | cons item items ih => simp [depthItems, Nat.max_le, ih]

theorem depthMembers_le_iff {members : List (CodePoints × Payload)} {n : ℕ} :
    depthMembers members ≤ n ↔ ∀ entry ∈ members, entry.2.depth ≤ n := by
  induction members with
  | nil => simp [depthMembers]
  | cons entry members ih => simp [depthMembers, Nat.max_le, ih]

theorem Held.child {value below : Payload} {step : Step} (h : value.Held)
    (hchild : value.child step = some below) : below.Held := by
  have hpath : ∀ path, value.valueAt (step :: path) = below.valueAt path := by
    intro path
    rw [valueAt, hchild, Option.bind_some]
  exact ⟨fun path members hat => h.keys (step :: path) members ((hpath path).trans hat),
    fun path text hat => h.numbers (step :: path) text ((hpath path).trans hat)⟩

theorem Held.item {items : List Payload} (h : (Payload.arr items).Held) {item : Payload}
    (hitem : item ∈ items) : item.Held := by
  obtain ⟨i, hi⟩ := List.mem_iff_getElem?.mp hitem
  exact @Held.child (.arr items) item (.index i) h hi

theorem Held.nodup {members : List (CodePoints × Payload)} (h : (Payload.obj members).Held) :
    (members.map (·.1)).Nodup := h.keys [] members rfl

theorem Held.entry {members : List (CodePoints × Payload)} (h : (Payload.obj members).Held)
    {entry : CodePoints × Payload} (hentry : entry ∈ members) : entry.2.Held :=
  @Held.child (.obj members) entry.2 (.key entry.1) h ((dictGet_eq_some_iff h.nodup).mpr hentry)

end Payload

/-! ### A dictionary comprehension -/

section Comprehend

variable {members : List (CodePoints × Payload)} {name : CodePoints}

theorem comprehend_concat (members : List (CodePoints × Payload)) (name : CodePoints)
    (value : Payload) :
    comprehend (members ++ [(name, value)]) = dictSet (comprehend members) name value := by
  rw [comprehend, List.foldl_append]
  rfl

theorem mem_dictSet {dict : List (CodePoints × Payload)} {value : Payload}
    {entry : CodePoints × Payload} (h : entry ∈ dictSet dict name value) :
    entry ∈ dict ∨ entry = (name, value) := by
  rw [dictSet] at h
  split_ifs at h
  · obtain ⟨old, hold, rfl⟩ := List.mem_map.mp h
    split_ifs
    · exact .inr rfl
    · exact .inl hold
  · obtain hold | hnew := List.mem_append.mp h
    · exact .inl hold
    · exact .inr (List.mem_singleton.mp hnew)

/-- No entry is made up. -/
theorem mem_of_mem_comprehend {entry : CodePoints × Payload} (h : entry ∈ comprehend members) :
    entry ∈ members := by
  induction members using List.reverseRecOn with
  | nil => exact h
  | append_singleton members last ih =>
    rw [comprehend_concat members last.1 last.2] at h
    obtain hold | rfl := mem_dictSet h
    · exact List.mem_append_left _ (ih hold)
    · exact List.mem_append_right _ (List.mem_singleton.mpr rfl)

theorem nodup_keys_comprehend (members : List (CodePoints × Payload)) :
    ((comprehend members).map (·.1)).Nodup := by
  induction members using List.reverseRecOn with
  | nil => exact List.nodup_nil
  | append_singleton members last ih =>
    rw [comprehend_concat members last.1 last.2]
    exact nodup_keys_dictSet ih

theorem length_dictSet_le (dict : List (CodePoints × Payload)) (name : CodePoints)
    (value : Payload) : (dictSet dict name value).length ≤ dict.length + 1 := by
  rw [dictSet]
  split_ifs
  · simp
  · simp

theorem length_comprehend_le (members : List (CodePoints × Payload)) :
    (comprehend members).length ≤ members.length := by
  induction members using List.reverseRecOn with
  | nil => exact le_refl 0
  | append_singleton members last ih =>
    have hset := length_dictSet_le (comprehend members) last.1 last.2
    rw [comprehend_concat members last.1 last.2, List.length_append, List.length_singleton]
    omega

/-- Where no key comes twice, every entry stays in its place. -/
theorem comprehend_of_nodup (h : (members.map (·.1)).Nodup) : comprehend members = members := by
  induction members using List.reverseRecOn with
  | nil => rfl
  | append_singleton members last ih =>
    rw [List.map_append, List.nodup_append] at h
    obtain ⟨hmembers, -, hapart⟩ := h
    have hfresh : Fresh members last.1 := fun entry hentry =>
      hapart entry.1 (List.mem_map_of_mem hentry) last.1 (by simp)
    rw [comprehend_concat members last.1 last.2, ih hmembers, dictSet_of_fresh hfresh]

/-- **An entry is lost where a key comes twice**. -/
theorem nodup_of_length_comprehend (h : (comprehend members).length = members.length) :
    (members.map (·.1)).Nodup := by
  induction members using List.reverseRecOn with
  | nil => exact List.nodup_nil
  | append_singleton members last ih =>
    rw [comprehend_concat members last.1 last.2, List.length_append, List.length_singleton] at h
    have hset := length_dictSet_le (comprehend members) last.1 last.2
    have hle := length_comprehend_le members
    have hmembers : (members.map (·.1)).Nodup := ih (by omega)
    rw [comprehend_of_nodup hmembers] at h
    have hfresh : Fresh members last.1 := by
      intro entry hentry hkey
      have hany : members.any (·.1 = last.1) = true :=
        List.any_eq_true.mpr ⟨entry, hentry, decide_eq_true hkey⟩
      rw [dictSet, if_pos hany, List.length_map] at h
      omega
    rw [List.map_append, List.nodup_append]
    refine ⟨hmembers, List.nodup_singleton _, fun key hkey other hother => ?_⟩
    obtain ⟨entry, hentry, rfl⟩ := List.mem_map.mp hkey
    rw [List.mem_singleton.mp hother]
    exact hfresh entry hentry

end Comprehend

/-! ### Cut and named -/

/-- What is kept of a payload that may nest to some limit. -/
def kept (limit : ℕ) (value : Payload) : Payload := storable (withinDepth limit value)

/-- A payload as its column holds it. -/
def stored (value : Payload) : Payload := kept maxStoredDepth (asObject value)

theorem rewriteItems_eq_map (leaf : Payload → Payload) (key : CodePoints → CodePoints)
    (items : List Payload) : rewriteItems leaf key items = items.map (rewrite leaf key) := by
  induction items with
  | nil => rfl
  | cons item items ih => rw [rewriteItems, ih, List.map_cons]

theorem rewriteMembers_eq_map (leaf : Payload → Payload) (key : CodePoints → CodePoints)
    (members : List (CodePoints × Payload)) : rewriteMembers leaf key members =
      members.map fun entry => (key entry.1, rewrite leaf key entry.2) := by
  induction members with
  | nil => rfl
  | cons entry members ih => rw [rewriteMembers, ih, List.map_cons]

/-- The entries of an object, kept and named. -/
def keptMembers (limit : ℕ) (members : List (CodePoints × Payload)) :
    List (CodePoints × Payload) :=
  members.map fun entry => (storableText entry.1, kept limit entry.2)

theorem kept_zero (value : Payload) : kept 0 value = .str tooDeep := by
  have hencodable : tooDeep.encodable = true := by decide +kernel
  rw [kept, withinDepth, storable, rewrite, storableLeaf, storableText, if_pos hencodable] <;> simp

theorem kept_obj (limit : ℕ) (members : List (CodePoints × Payload)) :
    kept (limit + 1) (.obj members) = .obj (comprehend (keptMembers limit members)) := by
  rw [kept, withinDepth, storable, rewrite, rewriteMembers_eq_map, List.map_map]
  rfl

theorem kept_arr (limit : ℕ) (items : List Payload) :
    kept (limit + 1) (.arr items) = .arr (items.map (kept limit)) := by
  rw [kept, withinDepth, storable, rewrite, rewriteItems_eq_map, List.map_map]
  rfl

/-- Nothing is below a value that is no container. -/
def Payload.IsLeaf (value : Payload) : Prop :=
  (∀ items, value ≠ .arr items) ∧ ∀ members, value ≠ .obj members

theorem Payload.leaf_or_container (value : Payload) :
    value.IsLeaf ∨ (∃ items, value = .arr items) ∨ ∃ members, value = .obj members := by
  cases value with
  | arr items => exact .inr (.inl ⟨items, rfl⟩)
  | obj members => exact .inr (.inr ⟨members, rfl⟩)
  | null | bool | int | float | nonFinite | str =>
    exact .inl ⟨fun _ => by simp, fun _ => by simp⟩

theorem rewrite_leaf {leaf : Payload → Payload} {key : CodePoints → CodePoints} {value : Payload}
    (h : value.IsLeaf) : rewrite leaf key value = leaf value := by
  rw [rewrite]
  · exact h.1
  · exact h.2

theorem withinDepth_leaf (limit : ℕ) {value : Payload} (h : value.IsLeaf) :
    withinDepth (limit + 1) value = value := by
  rw [withinDepth]
  · exact h.2
  · exact h.1

theorem kept_leaf (limit : ℕ) {value : Payload} (h : value.IsLeaf) :
    kept (limit + 1) value = storableLeaf value := by
  rw [kept, withinDepth_leaf limit h, storable, rewrite_leaf h]

theorem Payload.IsLeaf.storableLeaf {value : Payload} (h : value.IsLeaf) :
    (storableLeaf value).IsLeaf := by
  rw [Persistence.storableLeaf.eq_def]
  split
  · exact ⟨fun _ => by simp, fun _ => by simp⟩
  · exact ⟨fun _ => by simp, fun _ => by simp⟩
  · exact h

theorem Payload.IsLeaf.child {value : Payload} (h : value.IsLeaf) (step : Payload.Step) :
    value.child step = none := by
  rw [Payload.child]
  · exact fun members name hvalue => absurd hvalue (h.2 members)
  · exact fun items i hvalue => absurd hvalue (h.1 items)

/-! ### What comes out fits the column -/

theorem encodable_storableText (text : CodePoints) : (storableText text).encodable = true := by
  rw [storableText]
  split_ifs with h
  · exact h
  · decide +kernel

theorem storableText_of_encodable {text : CodePoints} (h : text.encodable = true) :
    storableText text = text := if_pos h

theorem storableText_storableText (text : CodePoints) :
    storableText (storableText text) = storableText text :=
  storableText_of_encodable (encodable_storableText text)

theorem mem_comprehend_keptMembers {limit : ℕ} {members : List (CodePoints × Payload)}
    {entry : CodePoints × Payload} (h : entry ∈ comprehend (keptMembers limit members)) :
    ∃ old ∈ members, (storableText old.1, kept limit old.2) = entry :=
  List.mem_map.mp (mem_of_mem_comprehend h)

theorem encodable_storableLeaf {value : Payload} (h : value.Held) (hleaf : value.IsLeaf) :
    (storableLeaf value).encodable = true := by
  cases value with
  | arr items => exact absurd rfl (hleaf.1 items)
  | obj members => exact absurd rfl (hleaf.2 members)
  | nonFinite text =>
    have hthree : ∀ text ∈ Payload.nonFiniteTexts,
        (storableLeaf (.nonFinite text)).encodable = true := by decide +kernel
    exact hthree text (h.numbers [] text rfl)
  | str text => exact encodable_storableText text
  | null | bool | int | float => rfl

theorem encodable_kept (limit : ℕ) {value : Payload} (h : value.Held) :
    (kept limit value).encodable = true := by
  induction limit generalizing value with
  | zero => rw [kept_zero]; decide +kernel
  | succ limit ih =>
    obtain hleaf | ⟨items, rfl⟩ | ⟨members, rfl⟩ := value.leaf_or_container
    · rw [kept_leaf limit hleaf]
      exact encodable_storableLeaf h hleaf
    · rw [kept_arr, Payload.encodable, Payload.encodableItems_eq_true_iff]
      intro item hitem
      obtain ⟨old, hold, rfl⟩ := List.mem_map.mp hitem
      exact ih (h.item hold)
    · rw [kept_obj, Payload.encodable, Payload.encodableMembers_eq_true_iff]
      intro entry hentry
      obtain ⟨old, hold, rfl⟩ := mem_comprehend_keptMembers hentry
      exact ⟨encodable_storableText old.1, ih (h.entry hold)⟩

theorem nesting_storableLeaf {value : Payload} (h : value.IsLeaf) :
    (storableLeaf value).nesting = 0 := by
  cases value with
  | arr items => exact absurd rfl (h.1 items)
  | obj members => exact absurd rfl (h.2 members)
  | null | bool | int | float | nonFinite | str => rfl

theorem nesting_kept_le (limit : ℕ) (value : Payload) : (kept limit value).nesting ≤ limit := by
  induction limit generalizing value with
  | zero => rw [kept_zero]; exact le_refl 0
  | succ limit ih =>
    obtain hleaf | ⟨items, rfl⟩ | ⟨members, rfl⟩ := value.leaf_or_container
    · rw [kept_leaf limit hleaf, nesting_storableLeaf hleaf]
      exact Nat.zero_le _
    · rw [kept_arr, Payload.nesting]
      refine Nat.succ_le_succ (Payload.nestingItems_le_iff.mpr fun item hitem => ?_)
      obtain ⟨old, -, rfl⟩ := List.mem_map.mp hitem
      exact ih old
    · rw [kept_obj, Payload.nesting]
      refine Nat.succ_le_succ (Payload.nestingMembers_le_iff.mpr fun entry hentry => ?_)
      obtain ⟨old, -, rfl⟩ := mem_comprehend_keptMembers hentry
      exact ih old.2

theorem asObject_obj (value : Payload) : ∃ members, asObject value = .obj members := by
  rw [asObject.eq_def]
  split
  · exact ⟨_, rfl⟩
  · exact ⟨_, rfl⟩

theorem stored_obj (value : Payload) : ∃ members, stored value = .obj members := by
  obtain ⟨members, hobj⟩ := asObject_obj value
  exact ⟨_, by rw [stored, hobj, maxStoredDepth, kept_obj]⟩

theorem storableLeaf_eq_self {value : Payload} (h : value.IsLeaf) (hfinite : value.finite = true)
    (hencodable : value.encodable = true) : storableLeaf value = value := by
  cases value with
  | arr items => exact absurd rfl (h.1 items)
  | obj members => exact absurd rfl (h.2 members)
  | nonFinite text => exact Bool.noConfusion hfinite
  | str text => rw [storableLeaf, storableText_of_encodable hencodable]
  | null | bool | int | float => rfl

/-- An object none of whose entries changes when it is kept is kept as it is. -/
theorem kept_obj_eq_self {limit : ℕ} {members : List (CodePoints × Payload)}
    (hnodup : (members.map (·.1)).Nodup)
    (h : ∀ entry ∈ members, storableText entry.1 = entry.1 ∧ kept limit entry.2 = entry.2) :
    kept (limit + 1) (.obj members) = .obj members := by
  have hsame : keptMembers limit members = members := by
    rw [keptMembers]
    conv_rhs => rw [← List.map_id members]
    refine List.map_congr_left fun entry hentry => ?_
    rw [(h entry hentry).1, (h entry hentry).2, id]
  rw [kept_obj, hsame, comprehend_of_nodup hnodup]

theorem kept_arr_eq_self {limit : ℕ} {items : List Payload}
    (h : ∀ item ∈ items, kept limit item = item) : kept (limit + 1) (.arr items) = .arr items := by
  have hsame : items.map (kept limit) = items := by
    conv_rhs => rw [← List.map_id items]
    exact List.map_congr_left fun item hitem => h item hitem
  rw [kept_arr, hsame]

/-- **Doing it again changes nothing**. -/
theorem kept_kept (limit : ℕ) {value : Payload} (h : value.Held) :
    kept limit (kept limit value) = kept limit value := by
  induction limit generalizing value with
  | zero => rw [kept_zero, kept_zero]
  | succ limit ih =>
    obtain hleaf | ⟨items, rfl⟩ | ⟨members, rfl⟩ := value.leaf_or_container
    · rw [kept_leaf limit hleaf, kept_leaf limit hleaf.storableLeaf]
      refine storableLeaf_eq_self hleaf.storableLeaf ?_ (encodable_storableLeaf h hleaf)
      rw [← kept_leaf limit hleaf]
      exact finite_storable _
    · rw [kept_arr]
      refine kept_arr_eq_self fun item hitem => ?_
      obtain ⟨old, hold, rfl⟩ := List.mem_map.mp hitem
      exact ih (h.item hold)
    · rw [kept_obj]
      refine kept_obj_eq_self (nodup_keys_comprehend _) fun entry hentry => ?_
      obtain ⟨old, hold, rfl⟩ := mem_comprehend_keptMembers hentry
      exact ⟨storableText_storableText old.1, ih (h.entry hold)⟩

/-- **What fits is stored as it is**. -/
theorem kept_eq_self (limit : ℕ) {value : Payload} (h : value.Held)
    (hfinite : value.finite = true) (hencodable : value.encodable = true)
    (hdepth : value.depth ≤ limit) : kept limit value = value := by
  induction limit generalizing value with
  | zero =>
    have hpos : 0 < value.depth := by cases value <;> simp [Payload.depth]
    omega
  | succ limit ih =>
    obtain hleaf | ⟨items, rfl⟩ | ⟨members, rfl⟩ := value.leaf_or_container
    · rw [kept_leaf limit hleaf]
      exact storableLeaf_eq_self hleaf hfinite hencodable
    · rw [Payload.finite, Payload.finiteItems_eq_true_iff] at hfinite
      rw [Payload.encodable, Payload.encodableItems_eq_true_iff] at hencodable
      have hitems := Payload.depthItems_le_iff.mp (Nat.le_of_succ_le_succ hdepth)
      exact kept_arr_eq_self fun item hitem =>
        ih (h.item hitem) (hfinite item hitem) (hencodable item hitem) (hitems item hitem)
    · rw [Payload.finite, Payload.finiteMembers_eq_true_iff] at hfinite
      rw [Payload.encodable, Payload.encodableMembers_eq_true_iff] at hencodable
      have hmembers := Payload.depthMembers_le_iff.mp (Nat.le_of_succ_le_succ hdepth)
      refine kept_obj_eq_self h.nodup fun entry hentry =>
        ⟨storableText_of_encodable (hencodable entry hentry).1, ?_⟩
      exact ih (h.entry hentry) (hfinite entry hentry) (hencodable entry hentry).2
        (hmembers entry hentry)

/-! ### What is found where it was -/

/-- What stands for a value in the storable form of its payload: the value itself where it is finite
and can be encoded, its name where not, and for a container one with as many entries. -/
structure StandsFor (value standIn : Payload) : Prop where
  same : value.IsLeaf → value.finite = true → value.encodable = true → standIn = value
  number : ∀ text, value = .nonFinite text →
    standIn = .str (points "<unrepresentable: ".toList ++ text ++ points ">".toList)
  text : ∀ text : CodePoints, value = .str text → text.encodable = false →
    standIn = .str "<unrepresentable: unpaired surrogate>"
  items : ∀ items, value = .arr items →
    ∃ standIns, standIn = .arr standIns ∧ standIns.length = items.length
  entries : ∀ members, value = .obj members →
    ∃ standIns, standIn = .obj standIns ∧ standIns.length = members.length

/-- Every value above a limit is found where it was. -/
def Keeps (limit : ℕ) (value : Payload) : Prop :=
  ∀ path below, path.length < limit → value.valueAt path = some below →
    ∃ standIn, (kept limit value).valueAt (path.map Payload.Step.named) = some standIn ∧
      StandsFor below standIn

/-- The names of an object's keys are apart: at most one of them cannot be encoded, and none is the
text that stands in for it. -/
def NamesApart (members : List (CodePoints × Payload)) : Prop :=
  (members.map fun entry => storableText entry.1).Nodup

/-- The names of the keys are apart in every object above a limit. -/
def Apart (limit : ℕ) (value : Payload) : Prop :=
  ∀ path members, path.length < limit → value.valueAt path = some (.obj members) →
    NamesApart members

theorem keys_keptMembers (limit : ℕ) (members : List (CodePoints × Payload)) :
    (keptMembers limit members).map (·.1) = members.map fun entry => storableText entry.1 := by
  rw [keptMembers, List.map_map]
  rfl

/-- A container keeps its entries exactly where their names are apart. -/
theorem standsFor_kept_iff (limit : ℕ) (value : Payload) :
    StandsFor value (kept (limit + 1) value) ↔
      ∀ members, value = .obj members → NamesApart members := by
  constructor
  · intro h members hvalue
    obtain ⟨standIns, hkept, hlength⟩ := h.entries members hvalue
    rw [hvalue, kept_obj, Payload.obj.injEq] at hkept
    rw [NamesApart, ← keys_keptMembers limit]
    refine nodup_of_length_comprehend ?_
    rw [hkept, hlength, keptMembers, List.length_map]
  · intro h
    refine ⟨fun hleaf hfinite hencodable => ?_, fun text hvalue => ?_, fun text hvalue hnot => ?_,
      fun items hvalue => ?_, fun members hvalue => ?_⟩
    · rw [kept_leaf limit hleaf]
      exact storableLeaf_eq_self hleaf hfinite hencodable
    · rw [hvalue, kept_leaf limit ⟨fun _ => by simp, fun _ => by simp⟩, storableLeaf]
    · rw [hvalue, kept_leaf limit ⟨fun _ => by simp, fun _ => by simp⟩, storableLeaf, storableText,
        if_neg (by rw [hnot]; exact Bool.false_ne_true)]
    · exact ⟨items.map (kept limit), by rw [hvalue, kept_arr], by rw [List.length_map]⟩
    · have hapart := h members hvalue
      rw [NamesApart, ← keys_keptMembers limit] at hapart
      refine ⟨keptMembers limit members, ?_, by rw [keptMembers, List.length_map]⟩
      rw [hvalue, kept_obj, comprehend_of_nodup hapart]

/-- Under a key the storable form has what stood there, kept. -/
theorem child_kept {limit : ℕ} {value below : Payload} {step : Payload.Step}
    (hapart : ∀ members, value = .obj members → NamesApart members)
    (hchild : value.child step = some below) :
    (kept (limit + 1) value).child step.named = some (kept limit below) := by
  obtain hleaf | ⟨items, rfl⟩ | ⟨members, rfl⟩ := value.leaf_or_container
  · rw [hleaf.child] at hchild
    exact absurd hchild (Option.some_ne_none _).symm
  · cases step with
    | key name => exact absurd hchild (Option.some_ne_none _).symm
    | index i =>
      have hitem : items[i]? = some below := hchild
      rw [kept_arr, Payload.Step.named, Payload.child, List.getElem?_map, hitem, Option.map_some]
  · cases step with
    | index i => exact absurd hchild (Option.some_ne_none _).symm
    | key name =>
      have hnames := hapart members rfl
      have hmem : (name, below) ∈ members := dictGet_mem hchild
      rw [NamesApart, ← keys_keptMembers limit] at hnames
      rw [kept_obj, comprehend_of_nodup hnames, Payload.Step.named, Payload.child,
        dictGet_eq_some_iff hnames, keptMembers]
      exact List.mem_map.mpr ⟨(name, below), hmem, rfl⟩

/-- **A value is found where it was exactly where the names of the keys above it are apart**. -/
theorem keeps_iff_apart (limit : ℕ) (value : Payload) : Keeps limit value ↔ Apart limit value := by
  induction limit generalizing value with
  | zero =>
    have hnone : ∀ path : List Payload.Step, ¬path.length < 0 := fun path => Nat.not_lt_zero _
    exact iff_of_true (fun path _ hlength => absurd hlength (hnone path))
      (fun path _ hlength => absurd hlength (hnone path))
  | succ limit ih =>
    have hvalueAt : ∀ {step : Payload.Step} {below : Payload} (path : List Payload.Step),
        value.child step = some below → value.valueAt (step :: path) = below.valueAt path := by
      intro step below path hchild
      rw [Payload.valueAt, hchild, Option.bind_some]
    constructor
    · intro h
      have hroot : ∀ members, value = .obj members → NamesApart members := by
        obtain ⟨standIn, hat, hstands⟩ := h [] value (Nat.succ_pos limit) rfl
        rw [List.map_nil, Payload.valueAt, Option.some.injEq] at hat
        exact (standsFor_kept_iff limit value).mp (hat ▸ hstands)
      intro path members hlength hat
      cases path with
      | nil => exact hroot members (Option.some.inj hat)
      | cons step path =>
        obtain ⟨below, hchild, hbelow⟩ := Option.bind_eq_some_iff.mp hat
        refine (ih below).mp ?_ path members (Nat.lt_of_succ_lt_succ hlength) hbelow
        intro rest last hrest hlast
        obtain ⟨standIn, hkept, hstands⟩ := h (step :: rest) last (Nat.succ_lt_succ hrest)
          ((hvalueAt rest hchild).trans hlast)
        rw [List.map_cons, Payload.valueAt, child_kept hroot hchild, Option.bind_some] at hkept
        exact ⟨standIn, hkept, hstands⟩
    · intro h
      have hroot : ∀ members, value = .obj members → NamesApart members := fun members hvalue =>
        h [] members (Nat.succ_pos limit) (by rw [Payload.valueAt, hvalue])
      intro path below hlength hat
      cases path with
      | nil =>
        obtain rfl := Option.some.inj hat
        exact ⟨_, rfl, (standsFor_kept_iff limit value).mpr hroot⟩
      | cons step path =>
        obtain ⟨next, hchild, hnext⟩ := Option.bind_eq_some_iff.mp hat
        have hapart : Apart limit next := fun rest members hrest hmembers =>
          h (step :: rest) members (Nat.succ_lt_succ hrest)
            ((hvalueAt rest hchild).trans hmembers)
        obtain ⟨standIn, hkept, hstands⟩ := (ih next).mpr hapart path below
          (Nat.lt_of_succ_lt_succ hlength) hnext
        refine ⟨standIn, ?_, hstands⟩
        rw [List.map_cons, Payload.valueAt, child_kept hroot hchild, Option.bind_some, hkept]

/-! ### What making a payload storable promises -/

/-- A payload the interpreter holds. -/
def HeldPayload : Type := {value : Payload // value.Held}

/-- Nothing is lost that could be kept. -/
structure LosesNothing (value : Payload) : Prop where
  finite : (stored value).finite = true
  encodable : (stored value).encodable = true
  depth : (stored value).nesting ≤ maxStoredDepth
  keeps : ∀ path below, path.length < maxStoredDepth →
    (asObject value).valueAt path = some below →
      ∃ standIn, (stored value).valueAt (path.map Payload.Step.named) = some standIn ∧
        StandsFor below standIn
  fits : (∃ members, value = .obj members) → value.finite = true → value.encodable = true →
    value.depth ≤ maxStoredDepth → stored value = value
  again : stored (stored value) = stored value

theorem Payload.IsLeaf.held {value : Payload} (h : value.IsLeaf)
    (hnumber : ∀ text, value = .nonFinite text → text ∈ Payload.nonFiniteTexts) : value.Held := by
  have hself : ∀ path below, value.valueAt path = some below → value = below := by
    intro path below hat
    cases path with
    | nil => exact Option.some.inj hat
    | cons step rest =>
      rw [Payload.valueAt, h.child] at hat
      exact absurd hat (Option.some_ne_none _).symm
  exact ⟨fun path members hat => absurd (hself path _ hat) (h.2 members),
    fun path text hat => hnumber text (hself path _ hat)⟩

/-- An object is held whose keys are apart and whose values are. -/
theorem held_obj {members : List (CodePoints × Payload)} (hnodup : (members.map (·.1)).Nodup)
    (h : ∀ entry ∈ members, entry.2.Held) : (Payload.obj members).Held := by
  have hbelow : ∀ path below, (Payload.obj members).valueAt path = some below →
      .obj members = below ∨
        ∃ (value : Payload) (rest : _), value.Held ∧ value.valueAt rest = some below := by
    intro path below hat
    cases path with
    | nil => exact .inl (Option.some.inj hat)
    | cons step rest =>
      obtain ⟨next, hchild, hnext⟩ := Option.bind_eq_some_iff.mp hat
      cases step with
      | index i => exact absurd hchild (Option.some_ne_none _).symm
      | key name => exact .inr ⟨next, rest, h (name, next) (dictGet_mem hchild), hnext⟩
  refine ⟨fun path members' hat => ?_, fun path text hat => ?_⟩
  · obtain hroot | ⟨value, rest, hvalue, hrest⟩ := hbelow path _ hat
    · obtain rfl := Payload.obj.inj hroot
      exact hnodup
    · exact hvalue.keys rest members' hrest
  · obtain hroot | ⟨value, rest, hvalue, hrest⟩ := hbelow path _ hat
    · exact Payload.noConfusion hroot
    · exact hvalue.numbers rest text hrest

theorem Payload.Held.asObject {value : Payload} (h : value.Held) : (asObject value).Held := by
  rw [Persistence.asObject.eq_def]
  split
  · exact h
  · refine held_obj (List.nodup_singleton _) fun entry hentry => ?_
    obtain rfl := List.mem_singleton.mp hentry
    exact h

/-- At most one key cannot be encoded, and beside it none is the text that stands in for it. -/
def OneUnencodable (members : List (CodePoints × Payload)) : Prop :=
  ∀ key ∈ members.map (·.1), key.encodable = false → ∀ other ∈ members.map (·.1),
    other.encodable = false ∨ other = points "<unrepresentable: unpaired surrogate>".toList →
      other = key

theorem storableText_eq_iff {text other : CodePoints} :
    storableText text = storableText other ↔ text = other ∨
      (text.encodable = false ∧
        (other.encodable = false ∨ other = points "<unrepresentable: unpaired surrogate>".toList)) ∨
      (other.encodable = false ∧ text = points "<unrepresentable: unpaired surrogate>".toList) := by
  have hstandIn : (points "<unrepresentable: unpaired surrogate>".toList).encodable = true := by
    decide +kernel
  rw [storableText, storableText]
  cases htext : text.encodable with
  | true =>
    cases hother : other.encodable with
    | true => simp
    | false =>
      have hne : text ≠ other := fun h => Bool.noConfusion (htext.symm.trans (h ▸ hother))
      simp [hne]
  | false =>
    cases hother : other.encodable with
    | true =>
      have hne : text ≠ other := fun h => Bool.noConfusion (htext.symm.trans (h ▸ hother))
      simp [hne, eq_comm]
    | false => simp

theorem namesApart_iff {members : List (CodePoints × Payload)}
    (hnodup : (members.map (·.1)).Nodup) : NamesApart members ↔ OneUnencodable members := by
  have hmap : (members.map fun entry => storableText entry.1) =
      (members.map (·.1)).map storableText := by
    rw [List.map_map]
    rfl
  rw [NamesApart, hmap, List.nodup_map_iff_inj_on hnodup]
  constructor
  · intro h key hkey hnot other hother hstands
    exact (h key hkey other hother (storableText_eq_iff.mpr (.inr (.inl ⟨hnot, hstands⟩)))).symm
  · intro h key hkey other hother hsame
    obtain heq | ⟨hnot, hstands⟩ | ⟨hnot, hstands⟩ := storableText_eq_iff.mp hsame
    · exact heq
    · exact (h key hkey hnot other hother hstands).symm
    · exact h other hother hnot key hkey (.inr hstands)

/-- **Making a payload storable loses nothing it could keep exactly where no object above the bound
has, beside a key that cannot be encoded, another one or the text that stands in for it**. -/
theorem losesNothing_iff (value : HeldPayload) :
    LosesNothing value.1 ↔
      ∀ path members, path.length < maxStoredDepth →
        (asObject value.1).valueAt path = some (.obj members) → OneUnencodable members := by
  obtain ⟨value, h⟩ := value
  have hheld := h.asObject
  have hone : Apart maxStoredDepth (asObject value) ↔
      ∀ path members, path.length < maxStoredDepth →
        (asObject value).valueAt path = some (.obj members) → OneUnencodable members :=
    forall_congr' fun path => forall_congr' fun members => forall_congr' fun _ =>
      forall_congr' fun hat => namesApart_iff (hheld.keys path members hat)
  rw [← hone]
  refine ⟨fun hlost => (keeps_iff_apart _ _).mp hlost.keeps, fun hapart => ?_⟩
  refine ⟨finite_storable _, encodable_kept _ hheld, nesting_kept_le _ _,
    (keeps_iff_apart _ _).mpr hapart, fun hobj hfinite hencodable hdepth => ?_, ?_⟩
  · obtain ⟨members, rfl⟩ := hobj
    exact kept_eq_self _ h hfinite hencodable hdepth
  · obtain ⟨members, hobj⟩ := stored_obj value
    have hagain := kept_kept maxStoredDepth hheld
    rw [← stored, hobj] at hagain
    rw [hobj, stored, asObject, hagain]

/-- An object with two keys that cannot be encoded. -/
def twoSurrogates : List (CodePoints × Payload) := [([0xD800], .int 1), ([0xD801], .int 2)]

theorem held_twoSurrogates : (Payload.obj twoSurrogates).Held := by
  refine held_obj (by decide +kernel) fun entry hentry => ?_
  have hleaf : ∀ n : ℤ, (Payload.int n).Held := fun n =>
    Payload.IsLeaf.held ⟨fun _ => by simp, fun _ => by simp⟩ fun _ => by simp
  obtain rfl | hentry := List.mem_cons.mp hentry
  · exact hleaf 1
  · obtain rfl := List.mem_singleton.mp hentry
    exact hleaf 2

/-- The second of two keys that cannot be encoded takes the place of the first. -/
theorem second_surrogate_overwrites :
    ¬LosesNothing (⟨.obj twoSurrogates, held_twoSurrogates⟩ : HeldPayload).1 := by
  intro h
  have hapart := (keeps_iff_apart _ _).mp h.keeps [] twoSurrogates (by decide) rfl
  have hsame : ¬NamesApart twoSurrogates := by
    rw [NamesApart]
    decide +kernel
  exact hsame hapart

end AiraGateway.Persistence
