import AiraGateway.Library.CodePoints
import Mathlib.Data.List.TakeWhile

/-!
# Matching by backtracking

What a backtracking engine tries at a place of a text, and in which order. `ends` lists where a
match may end; the first of them is the match. A repeat takes as much as it can and gives it back
one character at a time, unless it is possessive.

* Where something that follows is reached (`Reaches`) is told construct by construct
  (`reaches_one`, `reaches_many`, `reaches_possessive`, `reaches_seq`, ...), so that whether a
  pattern matches at a place is read off it.
* A match takes what comes next (`rest_of_ends`), and `find` is its length (`find_eq_zero_iff`).
-/

namespace AiraGateway

/-- A pattern. A class of characters is the test for it. -/
inductive Regex
  | empty
  | one (set : ℕ → Bool)
  /-- As many as there are, up to a bound, and fewer if what follows needs them. -/
  | many (set : ℕ → Bool) (low : ℕ) (high : Option ℕ)
  /-- As many as there are, and none given back. -/
  | possessive (set : ℕ → Bool) (low : ℕ)
  | optional (r : Regex)
  | seq (r s : Regex)
  | either (r s : Regex)
  /-- What stands before is of these classes, one after the other. -/
  | behind (sets : List (ℕ → Bool))
  | notBehind (set : ℕ → Bool)

namespace Regex

/-- A place in a text: what stands before it, the nearest first, and what comes next. -/
structure Place where
  before : List ℕ
  rest : List ℕ

/-- The place some characters on. -/
def Place.advance (p : Place) (n : ℕ) : Place :=
  ⟨(p.rest.take n).reverse ++ p.before, p.rest.drop n⟩

/-- How many characters of a class come next. -/
def Place.run (p : Place) (set : ℕ → Bool) : ℕ := (p.rest.takeWhile set).length

/-- The most of them that a repeat takes. -/
def Place.most (p : Place) (set : ℕ → Bool) : Option ℕ → ℕ
  | none => p.run set
  | some high => min high (p.run set)

/-- Whether characters are of some classes, one after the other. -/
def ofClasses : List (ℕ → Bool) → List ℕ → Bool
  | [], _ => true
  | _ :: _, [] => false
  | set :: sets, c :: cs => set c && ofClasses sets cs

/-- Where a match may end that starts at a place, in the order in which they are tried. -/
def ends : Regex → Place → List Place
  | empty, p => [p]
  | one set, p =>
    match p.rest with
    | [] => []
    | c :: rest => if set c then [⟨c :: p.before, rest⟩] else []
  | many set low high, p =>
    (List.range' low (p.most set high + 1 - low)).reverse.map p.advance
  | possessive set low, p => if low ≤ p.run set then [p.advance (p.run set)] else []
  | optional r, p => ends r p ++ [p]
  | seq r s, p => (ends r p).flatMap (ends s)
  | either r s, p => ends r p ++ ends s p
  | behind sets, p => if ofClasses sets.reverse p.before then [p] else []
  | notBehind set, p => if p.before.head?.any set then [] else [p]

/-- How many characters a match takes at a place, and none where there is no match. -/
def find (r : Regex) (before rest : List ℕ) : ℕ :=
  ((r.ends ⟨before, rest⟩).head?).elim 0 fun e => rest.length - e.rest.length

/-- Patterns one after the other. -/
def concat (rs : List Regex) : Regex := rs.foldr seq empty

/-- The characters of a text, one after the other. -/
def text (cs : List ℕ) : Regex := concat (cs.map fun c => one (· = c))

variable {K : Place → Prop} {before rest : List ℕ} {p : Place} {set : ℕ → Bool} {r s : Regex}

theorem ends_empty : ends empty p = [p] := rfl

theorem ends_one_nil : ends (one set) ⟨before, []⟩ = [] := rfl

theorem ends_one_cons (c : ℕ) : ends (one set) ⟨before, c :: rest⟩ =
    if set c then [⟨c :: before, rest⟩] else [] := rfl

theorem ends_many (low : ℕ) (high : Option ℕ) : ends (many set low high) p =
    (List.range' low (p.most set high + 1 - low)).reverse.map p.advance := rfl

theorem ends_possessive (low : ℕ) : ends (possessive set low) p =
    if low ≤ p.run set then [p.advance (p.run set)] else [] := rfl

theorem ends_optional : ends (optional r) p = ends r p ++ [p] := rfl

theorem ends_seq : ends (seq r s) p = (ends r p).flatMap (ends s) := rfl

theorem ends_either : ends (either r s) p = ends r p ++ ends s p := rfl

theorem ends_behind (sets : List (ℕ → Bool)) : ends (behind sets) p =
    if ofClasses sets.reverse p.before then [p] else [] := rfl

theorem ends_notBehind : ends (notBehind set) p =
    if p.before.head?.any set then [] else [p] := rfl

/-! ### What is reached -/

/-- Somewhere a match may end, and there something holds. -/
def Reaches (r : Regex) (K : Place → Prop) (p : Place) : Prop := ∃ e ∈ r.ends p, K e

theorem reaches_empty : Reaches empty K p ↔ K p := by
  simp only [Reaches, ends_empty, List.mem_singleton, exists_eq_left]

theorem reaches_one :
    Reaches (one set) K ⟨before, rest⟩ ↔
      ∃ c rest', rest = c :: rest' ∧ set c = true ∧ K ⟨c :: before, rest'⟩ := by
  rw [Reaches]
  cases rest with
  | nil => simp [ends_one_nil]
  | cons c rest =>
    by_cases hc : set c = true
    · simp [ends_one_cons, hc]
    · simp [ends_one_cons, hc]

theorem reaches_seq : Reaches (seq r s) K p ↔ Reaches r (Reaches s K) p := by
  simp only [Reaches, ends_seq, List.mem_flatMap]
  constructor
  · rintro ⟨e, ⟨mid, hmid, he⟩, hK⟩
    exact ⟨mid, hmid, e, he, hK⟩
  · rintro ⟨mid, hmid, e, he, hK⟩
    exact ⟨e, ⟨mid, hmid, he⟩, hK⟩

theorem reaches_concat_nil : Reaches (concat []) K p ↔ K p := reaches_empty

theorem reaches_concat_cons {rs : List Regex} :
    Reaches (concat (r :: rs)) K p ↔ Reaches r (Reaches (concat rs) K) p := reaches_seq

theorem reaches_either : Reaches (either r s) K p ↔ Reaches r K p ∨ Reaches s K p := by
  simp only [Reaches, ends_either, List.mem_append, or_and_right, exists_or]

theorem reaches_optional : Reaches (optional r) K p ↔ Reaches r K p ∨ K p := by
  simp only [Reaches, ends_optional, List.mem_append, or_and_right, exists_or, List.mem_singleton,
    exists_eq_left]

theorem reaches_behind {sets : List (ℕ → Bool)} :
    Reaches (behind sets) K p ↔ ofClasses sets.reverse p.before = true ∧ K p := by
  rw [Reaches, ends_behind]
  split_ifs with h
  · simp [h]
  · simp [h]

theorem reaches_notBehind :
    Reaches (notBehind set) K p ↔ p.before.head?.any set = false ∧ K p := by
  rw [Reaches, ends_notBehind]
  split_ifs with h
  · simp [h]
  · simp [h]

theorem advance_eq {w : List ℕ} :
    Place.advance ⟨before, w ++ rest⟩ w.length = ⟨w.reverse ++ before, rest⟩ := by
  rw [Place.advance, List.take_left, List.drop_left]

/-- A run is the longest piece of a class that comes next. -/
theorem le_run_iff {n : ℕ} :
    n ≤ Place.run ⟨before, rest⟩ set ↔
      ∃ w rest', rest = w ++ rest' ∧ (∀ c ∈ w, set c = true) ∧ w.length = n := by
  rw [Place.run]
  constructor
  · intro h
    refine ⟨(rest.takeWhile set).take n, (rest.takeWhile set).drop n ++ rest.dropWhile set, ?_,
      fun c hc => List.mem_takeWhile_imp (List.mem_of_mem_take hc), ?_⟩
    · rw [← List.append_assoc, List.take_append_drop, List.takeWhile_append_dropWhile]
    · rw [List.length_take]
      exact min_eq_left h
  · rintro ⟨w, rest', rfl, hw, rfl⟩
    rw [List.takeWhile_append_of_pos hw, List.length_append]
    exact Nat.le_add_right _ _

theorem reaches_many {low : ℕ} {high : Option ℕ} :
    Reaches (many set low high) K ⟨before, rest⟩ ↔
      ∃ w rest', rest = w ++ rest' ∧ (∀ c ∈ w, set c = true) ∧
        (low ≤ w.length ∧ ∀ bound ∈ high, w.length ≤ bound) ∧ K ⟨w.reverse ++ before, rest'⟩ := by
  have hmost : ∀ n, n ≤ Place.most ⟨before, rest⟩ set high ↔
      (∀ bound ∈ high, n ≤ bound) ∧ n ≤ Place.run ⟨before, rest⟩ set := by
    intro n
    cases high with
    | none => simp [Place.most]
    | some high =>
      rw [Place.most, Nat.le_min]
      simp
  rw [Reaches, ends_many]
  simp only [List.mem_map, List.mem_reverse, List.mem_range'_1]
  constructor
  · rintro ⟨_, ⟨n, ⟨hlow, hn⟩, rfl⟩, hK⟩
    obtain ⟨hbound, hrun⟩ := (hmost n).mp (by omega)
    obtain ⟨w, rest', rfl, hw, rfl⟩ := le_run_iff.mp hrun
    rw [advance_eq] at hK
    exact ⟨w, rest', rfl, hw, ⟨hlow, hbound⟩, hK⟩
  · rintro ⟨w, rest', rfl, hw, ⟨hlow, hbound⟩, hK⟩
    have hn := (hmost w.length).mpr ⟨hbound, le_run_iff.mpr ⟨w, rest', rfl, hw, rfl⟩⟩
    exact ⟨_, ⟨w.length, ⟨hlow, by omega⟩, rfl⟩, advance_eq ▸ hK⟩

theorem head?_dropWhile (set : ℕ → Bool) (cs : List ℕ) :
    (cs.dropWhile set).head?.any set = false := by
  induction cs with
  | nil => rfl
  | cons c cs ih =>
    rw [List.dropWhile_cons]
    split_ifs with hc
    · exact ih
    · simpa using hc

/-- A piece of a class is the start of a longest one. -/
theorem exists_longest {w : List ℕ} (hw : ∀ c ∈ w, set c = true)
    (rest : List ℕ) : ∃ w' rest', w ++ rest = w' ++ rest' ∧ (∀ c ∈ w', set c = true) ∧
      w.length ≤ w'.length ∧ rest'.head?.any set = false := by
  refine ⟨w ++ rest.takeWhile set, rest.dropWhile set, ?_, fun c hc => ?_, ?_,
    head?_dropWhile set rest⟩
  · rw [List.append_assoc, List.takeWhile_append_dropWhile]
  · obtain hc | hc := List.mem_append.mp hc
    · exact hw c hc
    · exact List.mem_takeWhile_imp hc
  · rw [List.length_append]
    exact Nat.le_add_right _ _

theorem reaches_possessive {low : ℕ} :
    Reaches (possessive set low) K ⟨before, rest⟩ ↔
      ∃ w rest', rest = w ++ rest' ∧ (∀ c ∈ w, set c = true) ∧
        (low ≤ w.length ∧ rest'.head?.any set = false) ∧ K ⟨w.reverse ++ before, rest'⟩ := by
  rw [Reaches, ends_possessive]
  constructor
  · intro h
    split_ifs at h with hlow
    · obtain ⟨e, he, hK⟩ := h
      obtain rfl := List.mem_singleton.mp he
      refine ⟨rest.takeWhile set, rest.dropWhile set, List.takeWhile_append_dropWhile.symm,
        fun c hc => List.mem_takeWhile_imp hc, ⟨hlow, head?_dropWhile set rest⟩, ?_⟩
      have hadvance := @advance_eq before (rest.dropWhile set) (rest.takeWhile set)
      rw [List.takeWhile_append_dropWhile] at hadvance
      exact hadvance ▸ hK
    · obtain ⟨e, he, -⟩ := h
      exact absurd he List.not_mem_nil
  · rintro ⟨w, rest', rfl, hw, ⟨hlow, hhead⟩, hK⟩
    have hrun : Place.run ⟨before, w ++ rest'⟩ set = w.length := by
      have hnone : rest'.takeWhile set = [] := by
        cases rest' with
        | nil => rfl
        | cons c rest' =>
          have hc : set c = false := by simpa using hhead
          rw [List.takeWhile_cons, hc]
          rfl
      rw [Place.run, List.takeWhile_append_of_pos hw, hnone, List.append_nil]
    rw [hrun, if_pos hlow]
    exact ⟨_, List.mem_singleton_self _, advance_eq ▸ hK⟩

theorem reaches_text {cs : List ℕ} :
    Reaches (text cs) K ⟨before, rest⟩ ↔
      ∃ rest', rest = cs ++ rest' ∧ K ⟨cs.reverse ++ before, rest'⟩ := by
  rw [text]
  induction cs generalizing before rest with
  | nil => simp [reaches_concat_nil]
  | cons c cs ih =>
    rw [List.map_cons, reaches_concat_cons, reaches_one]
    constructor
    · rintro ⟨d, rest', rfl, hd, h⟩
      obtain ⟨rest'', rfl, hK⟩ := ih.mp h
      obtain rfl : d = c := by simpa using hd
      exact ⟨rest'', rfl, by simpa using hK⟩
    · rintro ⟨rest', rfl, hK⟩
      refine ⟨c, cs ++ rest', rfl, by simp, ih.mpr ⟨rest', rfl, by simpa using hK⟩⟩

/-! ### Matches -/

/-- A match takes what comes next. -/
theorem rest_of_ends {e : Place} (h : e ∈ r.ends p) :
    ∃ w, p.rest = w ++ e.rest ∧ e.before = w.reverse ++ p.before := by
  induction r generalizing p e with
  | empty =>
    obtain rfl := List.mem_singleton.mp h
    exact ⟨[], rfl, rfl⟩
  | one set =>
    obtain ⟨before, rest⟩ := p
    obtain ⟨c, rest', rfl, -, rfl⟩ := (@reaches_one (fun q => q = e) _ _ set).mp ⟨e, h, rfl⟩
    exact ⟨[c], rfl, rfl⟩
  | many set low high =>
    obtain ⟨before, rest⟩ := p
    obtain ⟨w, rest', rfl, -, -, rfl⟩ :=
      (@reaches_many (fun q => q = e) _ _ set low high).mp ⟨e, h, rfl⟩
    exact ⟨w, rfl, rfl⟩
  | possessive set low =>
    obtain ⟨before, rest⟩ := p
    obtain ⟨w, rest', rfl, -, -, rfl⟩ :=
      (@reaches_possessive (fun q => q = e) _ _ set low).mp ⟨e, h, rfl⟩
    exact ⟨w, rfl, rfl⟩
  | optional r ih =>
    obtain h | h := List.mem_append.mp h
    · exact ih h
    · obtain rfl := List.mem_singleton.mp h
      exact ⟨[], rfl, rfl⟩
  | seq r s ihr ihs =>
    obtain ⟨mid, hmid, he⟩ := List.mem_flatMap.mp h
    obtain ⟨w, hw, hbefore⟩ := ihr hmid
    obtain ⟨w', hw', hbefore'⟩ := ihs he
    refine ⟨w ++ w', by rw [hw, hw', List.append_assoc], ?_⟩
    rw [hbefore', hbefore, List.reverse_append, List.append_assoc]
  | either r s ihr ihs =>
    obtain h | h := List.mem_append.mp h
    · exact ihr h
    · exact ihs h
  | behind sets =>
    obtain ⟨-, rfl⟩ := (@reaches_behind (fun q => q = e) p sets).mp ⟨e, h, rfl⟩
    exact ⟨[], rfl, rfl⟩
  | notBehind set =>
    obtain ⟨-, rfl⟩ := (@reaches_notBehind (fun q => q = e) p set).mp ⟨e, h, rfl⟩
    exact ⟨[], rfl, rfl⟩

/-- No match of a pattern is empty. -/
def Advances (r : Regex) : Prop := ∀ p, ∀ e ∈ r.ends p, e.rest.length < p.rest.length

theorem length_le_of_ends {e : Place} (h : e ∈ r.ends p) :
    e.rest.length ≤ p.rest.length := by
  obtain ⟨w, hw, -⟩ := rest_of_ends h
  rw [hw, List.length_append]
  exact Nat.le_add_left _ _

theorem advances_one (set : ℕ → Bool) : Advances (one set) := by
  rintro ⟨before, rest⟩ e h
  obtain ⟨c, rest', rfl, -, rfl⟩ := (@reaches_one (fun q => q = e) _ _ set).mp ⟨e, h, rfl⟩
  exact Nat.lt_succ_self _

theorem Advances.seq_left (h : Advances r) (s : Regex) : Advances (seq r s) := by
  intro p e he
  obtain ⟨mid, hmid, he⟩ := List.mem_flatMap.mp he
  exact (length_le_of_ends he).trans_lt (h p mid hmid)

theorem Advances.seq_right (h : Advances s) (r : Regex) : Advances (seq r s) := by
  intro p e he
  obtain ⟨mid, hmid, he⟩ := List.mem_flatMap.mp he
  exact (h mid e he).trans_le (length_le_of_ends hmid)

theorem find_eq_zero_iff (h : Advances r) :
    r.find before rest = 0 ↔ ¬Reaches r (fun _ => True) ⟨before, rest⟩ := by
  have hreaches : Reaches r (fun _ => True) ⟨before, rest⟩ ↔ r.ends ⟨before, rest⟩ ≠ [] := by
    constructor
    · rintro ⟨e, he, -⟩ hnone
      rw [hnone] at he
      exact absurd he List.not_mem_nil
    · intro hsome
      obtain ⟨e, he⟩ := List.exists_mem_of_ne_nil _ hsome
      exact ⟨e, he, trivial⟩
  rw [hreaches, not_not, find]
  cases hends : r.ends ⟨before, rest⟩ with
  | nil => simp
  | cons e es =>
    have hlt := h ⟨before, rest⟩ e (hends ▸ List.mem_cons_self)
    simp only [List.head?_cons, Option.elim_some, reduceCtorEq, iff_false]
    exact Nat.sub_ne_zero_of_lt hlt

/-- What holds at every end of a pattern holds where a match ends. -/
theorem of_find {P : Place → Prop} (hP : ∀ e ∈ r.ends ⟨before, rest⟩, P e)
    (h : r.find before rest ≠ 0) : P (Place.advance ⟨before, rest⟩ (r.find before rest)) := by
  rw [find] at h ⊢
  cases hends : r.ends ⟨before, rest⟩ with
  | nil =>
    rw [hends] at h
    exact absurd rfl h
  | cons e es =>
    have he : e ∈ r.ends ⟨before, rest⟩ := hends ▸ List.mem_cons_self
    obtain ⟨w, hw, hbefore⟩ := rest_of_ends he
    have hplace : Place.advance ⟨before, rest⟩ (rest.length - e.rest.length) = e := by
      change rest = w ++ e.rest at hw
      have hlength : rest.length - e.rest.length = w.length := by
        rw [hw, List.length_append, Nat.add_sub_cancel]
      rw [hlength, hw, advance_eq]
      change e.before = w.reverse ++ before at hbefore
      rw [← hbefore]
    change P (Place.advance _ (rest.length - e.rest.length))
    rw [hplace]
    exact hP e he

end Regex

end AiraGateway
