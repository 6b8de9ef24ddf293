import AiraGateway.Library.Text
import Mathlib.Algebra.Order.BigOperators.Group.List
import Mathlib.Algebra.Order.Group.Nat
import Mathlib.Algebra.Ring.Nat
import Mathlib.Data.List.Forall2

/-!
# Conveying content from one form into another

A translation that regroups its input — joins texts, lifts one kind of content out, splits one
unit into several — has conveyed it when everything stands in the output exactly once and in
order. What a unit *holds* is three sequences: calls, results, and what it says, texts and other
pieces in their order. `Told` compares what is held before and after; `Placed` cuts the output into
one stretch for each unit of the input, in order.

* **Texts may be regrouped but not cut** (`Spells`, `Conveys`): texts that follow each other may be
  written as one with blanks between, and a blank one may be left out or added.
* **What is counted is kept** (`Conveys.ink_eq`, `Conveys.pieces`): the output holds the input's
  characters other than whitespace and its pieces, in order, so nothing can be there twice.
* **Stretches add up** (`Placed.told`): an output that is cut so holds all of the input.
-/

namespace AiraGateway

universe u v

/-! ### Texts in a text -/

/-- The characters of a text that are not whitespace. -/
def ink (t : Text) : Text := t.filter fun c => !isSpace c

@[simp]
theorem ink_append (s t : Text) : ink (s ++ t) = ink s ++ ink t := List.filter_append ..

theorem ink_eq_nil_iff {t : Text} : ink t = [] ↔ blank t = true := by
  simp [ink, blank, List.filter_eq_nil_iff]

/-- **A text spells texts** when they stand in it whole and in order with only blanks between;
a blank one may be left out. -/
inductive Spells : List Text → Text → Prop
  | nil : Spells [] []
  | text {ts : List Text} {u : Text} (t : Text) (h : Spells ts u) : Spells (t :: ts) (t ++ u)
  | filler {ts : List Text} {u w : Text} (hw : blank w = true) (h : Spells ts u) :
      Spells ts (w ++ u)
  | skipped {ts : List Text} {t u : Text} (ht : blank t = true) (h : Spells ts u) :
      Spells (t :: ts) u

namespace Spells

variable {ts ts' : List Text} {u u' : Text}

theorem append (h : Spells ts u) (h' : Spells ts' u') : Spells (ts ++ ts') (u ++ u') := by
  induction h with
  | nil => exact h'
  | text t _ ih =>
    rw [List.cons_append, List.append_assoc]
    exact .text t ih
  | filler hw _ ih =>
    rw [List.append_assoc]
    exact .filler hw ih
  | skipped ht _ ih => exact .skipped ht ih

/-- The texts one after another spell them. -/
theorem of_flatten (ts : List Text) : Spells ts ts.flatten := by
  induction ts with
  | nil => exact .nil
  | cons t ts ih => exact .text t ih

theorem of_blank (h : blank u = true) : Spells [] u := by
  have hfiller := Spells.filler h .nil
  rwa [List.append_nil] at hfiller

theorem of_blanks (h : ∀ t ∈ ts, blank t = true) : Spells ts [] := by
  induction ts with
  | nil => exact .nil
  | cons t ts ih =>
    rw [List.forall_mem_cons] at h
    exact .skipped h.1 (ih h.2)

/-- Texts joined by a blank, the empty ones left out, spell what each of them does. -/
theorem of_intercalate {sep : Text} (hsep : blank sep = true) (tss : List (List Text)) :
    Spells tss.flatten (List.intercalate sep ((tss.map List.flatten).filter (· ≠ []))) := by
  induction tss with
  | nil => exact .nil
  | cons ts tss ih =>
    rw [List.flatten_cons, List.map_cons]
    by_cases hempty : ts.flatten = []
    · rw [List.filter_cons_of_neg (by simpa using hempty)]
      refine (Spells.of_blanks fun t ht => ?_).append ih
      rw [List.flatten_eq_nil_iff.mp hempty t ht]
      rfl
    · rw [List.filter_cons_of_pos (by simpa using hempty)]
      cases hrest : (tss.map List.flatten).filter (· ≠ []) with
      | nil =>
        rw [hrest] at ih
        rw [List.intercalate_singleton, ← List.append_nil ts.flatten]
        exact (Spells.of_flatten ts).append ih
      | cons next rest =>
        rw [hrest] at ih
        rw [List.intercalate_cons_cons, List.append_assoc]
        exact (Spells.of_flatten ts).append (.filler hsep ih)

theorem ink_eq (h : Spells ts u) : ink u = ts.flatMap ink := by
  induction h with
  | nil => rfl
  | text t _ ih => rw [ink_append, ih, List.flatMap_cons]
  | filler hw _ ih => rw [ink_append, ink_eq_nil_iff.mpr hw, ih, List.nil_append]
  | skipped ht _ ih => rw [ih, List.flatMap_cons, ink_eq_nil_iff.mpr ht, List.nil_append]

/-- A blank text spells blank texts alone. -/
theorem blanks_of_blank (h : Spells ts u) (hu : blank u = true) : ∀ t ∈ ts, blank t = true := by
  intro t ht
  have hink := h.ink_eq
  rw [ink_eq_nil_iff.mpr hu, eq_comm, List.flatMap_eq_nil_iff] at hink
  exact ink_eq_nil_iff.mp (hink t ht)

end Spells

/-! ### What is said -/

/-- Something said: a text, or a piece of another kind. -/
inductive Item (δ : Type u)
  | text (t : Text)
  | piece (d : δ)

namespace Item

variable {δ : Type u}

def ink : Item δ → Text
  | text t => AiraGateway.ink t
  | piece _ => []

def piece? : Item δ → Option δ
  | text _ => none
  | piece d => some d

end Item

variable {δ : Type u} {δ' : Type v} {shows : δ → δ' → Prop}

/-- **One sequence of texts and pieces conveys another**: the pieces one by one, the texts
regrouped. -/
inductive Conveys (shows : δ → δ' → Prop) : List (Item δ) → List (Item δ') → Prop
  | nil : Conveys shows [] []
  | text {ts : List Text} {u : Text} {xs : List (Item δ)} {ys : List (Item δ')}
      (ht : Spells ts u) (h : Conveys shows xs ys) :
      Conveys shows (ts.map .text ++ xs) (.text u :: ys)
  | blank {t : Text} {xs : List (Item δ)} {ys : List (Item δ')} (ht : blank t = true)
      (h : Conveys shows xs ys) : Conveys shows (.text t :: xs) ys
  | piece {d : δ} {d' : δ'} {xs : List (Item δ)} {ys : List (Item δ')} (hd : shows d d')
      (h : Conveys shows xs ys) : Conveys shows (.piece d :: xs) (.piece d' :: ys)

namespace Conveys

variable {xs xs' : List (Item δ)} {ys ys' : List (Item δ')}

theorem append (h : Conveys shows xs ys) (h' : Conveys shows xs' ys') :
    Conveys shows (xs ++ xs') (ys ++ ys') := by
  induction h with
  | nil => exact h'
  | text ht _ ih =>
    rw [List.append_assoc]
    exact .text ht ih
  | blank ht _ ih => exact .blank ht ih
  | piece hd _ ih => exact .piece hd ih

/-- Texts alone are conveyed by a text that spells them. -/
theorem of_spells {ts : List Text} {u : Text} (h : Spells ts u) :
    Conveys shows (ts.map .text) [.text u] := by
  have htext : Conveys shows (ts.map .text ++ []) [.text u] := .text h .nil
  rwa [List.append_nil] at htext

theorem of_text (t : Text) (h : Conveys shows xs ys) :
    Conveys shows (.text t :: xs) (.text t :: ys) := by
  have hspells := Spells.of_flatten [t]
  rw [List.flatten_singleton] at hspells
  exact .text hspells h

theorem of_blanks {ts : List Text} (h : ∀ t ∈ ts, AiraGateway.blank t = true) :
    Conveys shows (ts.map .text) [] := by
  induction ts with
  | nil => exact .nil
  | cons t ts ih =>
    rw [List.forall_mem_cons] at h
    exact .blank h.1 (ih h.2)

theorem ink_eq (h : Conveys shows xs ys) : ys.flatMap Item.ink = xs.flatMap Item.ink := by
  induction h with
  | nil => rfl
  | text ht _ ih =>
    rw [List.flatMap_cons, List.flatMap_append, List.flatMap_map, ih, Item.ink, ht.ink_eq]
    rfl
  | blank ht _ ih => rw [List.flatMap_cons, ih, Item.ink, ink_eq_nil_iff.mpr ht, List.nil_append]
  | piece _ _ ih => exact ih

theorem pieces (h : Conveys shows xs ys) :
    List.Forall₂ shows (xs.filterMap Item.piece?) (ys.filterMap Item.piece?) := by
  induction h with
  | nil => exact .nil
  | @text ts u xs ys ht _ ih =>
    have hnone : (ts.map (Item.text (δ := δ))).filterMap Item.piece? = [] := by
      rw [List.filterMap_map, List.filterMap_eq_nil_iff]
      intro t _
      rfl
    rw [List.filterMap_append, hnone]
    exact ih
  | blank _ _ ih => exact ih
  | piece hd _ ih => exact .cons hd ih

end Conveys

/-! ### What is held -/

/-- What a unit of content holds. -/
structure Holding (κ ρ δ : Type u) where
  calls : List κ := []
  results : List ρ := []
  said : List (Item δ) := []

namespace Holding

variable {κ ρ δ : Type u}

/-- What several units hold together. -/
def join (hs : List (Holding κ ρ δ)) : Holding κ ρ δ where
  calls := hs.flatMap calls
  results := hs.flatMap results
  said := hs.flatMap said

section Map

variable {μ : Type*} (holds : μ → Holding κ ρ δ) (ms : List μ)

theorem calls_join_map : (join (ms.map holds)).calls = ms.flatMap fun m => (holds m).calls :=
  List.flatMap_map ..

theorem results_join_map :
    (join (ms.map holds)).results = ms.flatMap fun m => (holds m).results :=
  List.flatMap_map ..

theorem said_join_map : (join (ms.map holds)).said = ms.flatMap fun m => (holds m).said :=
  List.flatMap_map ..

end Map

theorem join_singleton (h : Holding κ ρ δ) : join [h] = h := by
  simp [join]

/-- What two units hold together. -/
def append (h h' : Holding κ ρ δ) : Holding κ ρ δ where
  calls := h.calls ++ h'.calls
  results := h.results ++ h'.results
  said := h.said ++ h'.said

theorem join_append (hs hs' : List (Holding κ ρ δ)) :
    join (hs ++ hs') = (join hs).append (join hs') := by
  simp [join, append]

theorem join_flatten (hss : List (List (Holding κ ρ δ))) :
    join hss.flatten = join (hss.map join) := by
  induction hss with
  | nil => rfl
  | cons hs hss ih =>
    rw [List.flatten_cons, join_append, ih, List.map_cons, ← List.singleton_append, join_append,
      join_singleton]

/-- How many pieces are said. -/
def pieceCount (h : Holding κ ρ δ) : ℕ := (h.said.filterMap Item.piece?).length

/-- How many characters other than whitespace are said. -/
def inkCount (h : Holding κ ρ δ) : ℕ := (h.said.flatMap Item.ink).length

theorem pieceCount_join (hs : List (Holding κ ρ δ)) :
    (join hs).pieceCount = (hs.map pieceCount).sum := by
  induction hs with
  | nil => rfl
  | cons h hs ih =>
    have hcons : (join (h :: hs)).pieceCount = h.pieceCount + (join hs).pieceCount := by
      simp [join, pieceCount]
    rw [hcons, ih, List.map_cons, List.sum_cons]

theorem inkCount_join (hs : List (Holding κ ρ δ)) :
    (join hs).inkCount = (hs.map inkCount).sum := by
  induction hs with
  | nil => rfl
  | cons h hs ih =>
    have hcons : (join (h :: hs)).inkCount = h.inkCount + (join hs).inkCount := by
      simp [join, inkCount]
    rw [hcons, ih, List.map_cons, List.sum_cons]

end Holding

/-! ### Told once -/

section Told

variable {κ ρ δ : Type u} {κ' ρ' δ' : Type v}

/-- When something in the output is something of the input. -/
structure Showing (κ ρ δ : Type u) (κ' ρ' δ' : Type v) where
  call : κ → κ' → Prop
  result : ρ → ρ' → Prop
  piece : δ → δ' → Prop

/-- **Everything held is told once**, and nothing else is: calls and results one by one in their
order, and what is said. -/
structure Told (S : Showing κ ρ δ κ' ρ' δ') (h : Holding κ ρ δ) (h' : Holding κ' ρ' δ') : Prop where
  calls : List.Forall₂ S.call h.calls h'.calls
  results : List.Forall₂ S.result h.results h'.results
  said : Conveys S.piece h.said h'.said

variable {S : Showing κ ρ δ κ' ρ' δ'}

theorem Told.join {hs : List (Holding κ ρ δ)} {hs' : List (Holding κ' ρ' δ')}
    (h : List.Forall₂ (Told S) hs hs') : Told S (.join hs) (.join hs') := by
  induction h with
  | nil => exact ⟨.nil, .nil, .nil⟩
  | cons h _ ih =>
    exact ⟨List.rel_append h.calls ih.calls, List.rel_append h.results ih.results,
      h.said.append ih.said⟩

theorem Told.pieceCount_eq {h : Holding κ ρ δ} {h' : Holding κ' ρ' δ'} (ht : Told S h h') :
    h'.pieceCount = h.pieceCount := ht.said.pieces.length_eq.symm

theorem Told.inkCount_eq {h : Holding κ ρ δ} {h' : Holding κ' ρ' δ'} (ht : Told S h h') :
    h'.inkCount = h.inkCount := congrArg List.length ht.said.ink_eq

variable {μ ω : Type*} {holds : μ → Holding κ ρ δ} {holds' : ω → Holding κ' ρ' δ'}

/-- **The output is placed**: it is one stretch after another, each telling what one unit of the
input holds, in the input's order. -/
def Placed (S : Showing κ ρ δ κ' ρ' δ') (holds : μ → Holding κ ρ δ)
    (holds' : ω → Holding κ' ρ' δ') (ms : List μ) (ws : List ω) : Prop :=
  ∃ stretches : List (List ω), ws = stretches.flatten ∧
    List.Forall₂ (fun m g => Told S (holds m) (.join (g.map holds'))) ms stretches

theorem placed_flatMap {f : μ → List ω} {ms : List μ}
    (h : ∀ m ∈ ms, Told S (holds m) (.join ((f m).map holds'))) :
    Placed S holds holds' ms (ms.flatMap f) := by
  refine ⟨ms.map f, List.flatMap_def .., ?_⟩
  rw [List.forall₂_map_right_iff, List.forall₂_same]
  exact h

theorem Placed.told {ms : List μ} {stretches : List (List ω)}
    (h : Placed S holds holds' ms stretches.flatten) :
    Told S (.join (ms.map holds)) (.join (stretches.map fun g => .join (g.map holds'))) := by
  have hjoin : ∀ stretches : List (List ω), Holding.join (stretches.flatten.map holds') =
      .join (stretches.map fun g => .join (g.map holds')) := by
    intro stretches
    rw [List.map_flatten, Holding.join_flatten, List.map_map]
    rfl
  -- however the output is cut, it holds the same
  obtain ⟨cut, hcut, htold⟩ := h
  rw [← hjoin, hcut, hjoin]
  refine Told.join ?_
  rw [List.forall₂_map_left_iff, List.forall₂_map_right_iff]
  exact htold

/-- Where an output is cut, one that looks the same is cut too. -/
private theorem exists_cut {α : Type*} {f : ω → α} (stretches : List (List ω)) {ws : List ω}
    (h : ws.map f = stretches.flatten.map f) :
    ∃ cut : List (List ω), ws = cut.flatten ∧
      List.Forall₂ (fun g g' => g'.map f = g.map f) stretches cut := by
  induction stretches generalizing ws with
  | nil =>
    refine ⟨[], ?_, .nil⟩
    simpa using h
  | cons g stretches ih =>
    rw [List.flatten_cons, List.map_append, List.map_eq_append_iff] at h
    obtain ⟨g', ws, rfl, hg, hws⟩ := h
    obtain ⟨cut, rfl, hcut⟩ := ih hws
    exact ⟨g' :: cut, rfl, .cons hg hcut⟩

/-- **What is held is all that is looked at**: an output that holds the same is placed the same. -/
theorem Placed.of_map_eq {ms : List μ} {ws ws' : List ω}
    (h : Placed S holds holds' ms ws) (hws : ws'.map holds' = ws.map holds') :
    Placed S holds holds' ms ws' := by
  obtain ⟨stretches, rfl, htold⟩ := h
  obtain ⟨cut, rfl, hcut⟩ := exists_cut stretches hws
  refine ⟨cut, rfl, ?_⟩
  clear hws
  induction htold generalizing cut with
  | nil =>
    rw [List.forall₂_nil_left_iff] at hcut
    subst hcut
    exact .nil
  | cons htold _ ih =>
    obtain ⟨g', rest, hg, hrest, rfl⟩ := List.forall₂_cons_left_iff.mp hcut
    rw [← hg] at htold
    exact .cons htold (ih rest hrest)

/-- The stretches say as many pieces as the input. -/
theorem Placed.pieceCount_eq {ms : List μ} {stretches : List (List ω)}
    (h : Placed S holds holds' ms stretches.flatten) :
    (stretches.map fun g => (Holding.join (g.map holds')).pieceCount).sum =
      (ms.map fun m => (holds m).pieceCount).sum := by
  have hcount := h.told.pieceCount_eq
  rwa [Holding.pieceCount_join, Holding.pieceCount_join, List.map_map, List.map_map] at hcount

/-- The stretches say as much as the input. -/
theorem Placed.inkCount_eq {ms : List μ} {stretches : List (List ω)}
    (h : Placed S holds holds' ms stretches.flatten) :
    (stretches.map fun g => (Holding.join (g.map holds')).inkCount).sum =
      (ms.map fun m => (holds m).inkCount).sum := by
  have hcount := h.told.inkCount_eq
  rwa [Holding.inkCount_join, Holding.inkCount_join, List.map_map, List.map_map] at hcount

end Told

/-! ### From the whole back to the parts -/

/-- Two lists of numbers with one sum, the one nowhere above the other, agree everywhere. -/
theorem eq_of_sum_eq {α : Type*} {l : List α} {f g : α → ℕ} (hle : ∀ a ∈ l, f a ≤ g a)
    (hsum : (l.map f).sum = (l.map g).sum) : ∀ a ∈ l, f a = g a := by
  induction l with
  | nil => simp
  | cons a l ih =>
    rw [List.forall_mem_cons] at hle ⊢
    have hrest : (l.map f).sum ≤ (l.map g).sum := List.sum_le_sum hle.2
    simp only [List.map_cons, List.sum_cons] at hsum
    exact ⟨by omega, ih hle.2 (by omega)⟩

end AiraGateway
