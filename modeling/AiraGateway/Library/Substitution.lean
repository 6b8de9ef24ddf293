import Mathlib.Data.List.Induction
import Mathlib.Data.List.Nodup

/-!
# Substituting what is found

A text is scanned once from its start. Where something is found, as many characters as it takes are
replaced, and the scan goes on behind them; every other character is kept.

* Told apart by labels, the characters that are kept are all that were not taken, in order
  (`labels_trace`), and so it is with several substitutions one after the other
  (`labels_traceAll`).
* What each of several finds alone is removed by all of them, **exactly where whatever a step
  breaks out of what a later one found is taken by some later step** (`removed_iff`).
* A place in what comes out is in what was put, or stands where the scan passed
  (`passed_of_sub_eq`), and between what was put there stand the gaps of the text
  (`subFrom_eq_intercalate`).
-/

namespace AiraGateway.Substitution

variable {α ι : Type}

/-- What is done with a character. -/
inductive Mark
  | kept
  | opens
  | within
  deriving DecidableEq

section Substitution

-- how many characters are taken at a place, of which what stands before it is given with the
-- nearest first; and what is put in their place
variable (find : List α → List α → ℕ) (put : List α)

/-- What is done with each character of a text, the first few of which are being taken. -/
def marks : ℕ → List α → List α → List (α × Mark)
  | _, _, [] => []
  | skip + 1, before, a :: rest => (a, .within) :: marks skip (a :: before) rest
  | 0, before, a :: rest =>
    match find before (a :: rest) with
    | 0 => (a, .kept) :: marks 0 (a :: before) rest
    | more + 1 => (a, .opens) :: marks more (a :: before) rest

/-- What stands for a character. -/
def render : α × Mark → List α
  | (a, .kept) => [a]
  | (_, .opens) => put
  | (_, .within) => []

/-- What is made of the rest of a text. -/
def subFrom (before rest : List α) : List α := (marks find 0 before rest).flatMap (render put)

/-- A text with everything that is found replaced. -/
def sub (text : List α) : List α := subFrom find put [] text

/-- The characters that are taken. -/
def taken (text : List α) : List α :=
  ((marks find 0 [] text).filter fun entry => entry.2 ≠ .kept).map (·.1)

/-- The pieces that are kept: before what is taken first, and behind each that is taken. -/
def gapsOf : List (α × Mark) → List (List α)
  | [] => [[]]
  | (a, .kept) :: rest => (gapsOf rest).modifyHead (a :: ·)
  | (_, .opens) :: rest => [] :: gapsOf rest
  | (_, .within) :: rest => gapsOf rest

def gapsFrom (before rest : List α) : List (List α) := gapsOf (marks find 0 before rest)

/-- The pieces directly behind what is taken, each up to what is taken next. -/
def behind (text : List α) : List (List α) := (gapsFrom find [] text).tail

/-- Nothing is found at any place of a text. -/
def Free (text : List α) : Prop := ∀ before rest, text = before ++ rest →
  find before.reverse rest = 0

variable {find put} {before rest : List α} {a : α}

theorem map_fst_marks (skip : ℕ) : (marks find skip before rest).map (·.1) = rest := by
  induction rest generalizing skip before with
  | nil => rw [marks, List.map_nil]
  | cons a rest ih =>
    cases skip with
    | succ skip => rw [marks, List.map_cons, ih]
    | zero =>
      rw [marks]
      cases find before (a :: rest) with
      | zero => simp only [List.map_cons, ih]
      | succ more => simp only [List.map_cons, ih]

theorem marks_skip (skip : ℕ) :
    marks find skip before rest = (rest.take skip).map (·, .within) ++
      marks find 0 ((rest.take skip).reverse ++ before) (rest.drop skip) := by
  induction rest generalizing skip before with
  | nil => simp [marks]
  | cons a rest ih =>
    cases skip with
    | zero => rfl
    | succ skip => simp [marks, ih]

theorem marks_kept (h : find before (a :: rest) = 0) :
    marks find 0 before (a :: rest) = (a, .kept) :: marks find 0 (a :: before) rest := by
  rw [marks, h]

theorem marks_taken (h : find before (a :: rest) ≠ 0) :
    marks find 0 before (a :: rest) =
      (a, .opens) :: ((rest.take (find before (a :: rest) - 1)).map (·, .within) ++
        marks find 0 (((a :: rest).take (find before (a :: rest))).reverse ++ before)
          ((a :: rest).drop (find before (a :: rest)))) := by
  obtain ⟨more, hmore⟩ := Nat.exists_eq_succ_of_ne_zero h
  rw [marks, hmore]
  simp only [marks_skip more, Nat.succ_sub_one, List.take_succ_cons, List.drop_succ_cons,
    List.reverse_cons, List.append_assoc, List.singleton_append]

/-! ### What comes out -/

theorem subFrom_nil : subFrom find put before [] = [] := by
  rw [subFrom, marks, List.flatMap_nil]

theorem subFrom_kept (h : find before (a :: rest) = 0) :
    subFrom find put before (a :: rest) = a :: subFrom find put (a :: before) rest := by
  rw [subFrom, marks_kept h, List.flatMap_cons]
  rfl

theorem flatMap_within (taken : List α) :
    (taken.map (·, Mark.within)).flatMap (render put) = [] := by
  induction taken with
  | nil => rfl
  | cons a taken ih => exact ih

theorem subFrom_taken (h : find before (a :: rest) ≠ 0) :
    subFrom find put before (a :: rest) =
      put ++ subFrom find put
        (((a :: rest).take (find before (a :: rest))).reverse ++ before)
        ((a :: rest).drop (find before (a :: rest))) := by
  rw [subFrom, marks_taken h, List.flatMap_cons, List.flatMap_append, flatMap_within]
  rfl

theorem gapsFrom_nil : gapsFrom find before [] = [[]] := by
  rw [gapsFrom, marks, gapsOf]

theorem gapsFrom_kept (h : find before (a :: rest) = 0) :
    gapsFrom find before (a :: rest) = (gapsFrom find (a :: before) rest).modifyHead (a :: ·) := by
  rw [gapsFrom, marks_kept h, gapsOf]
  rfl

theorem gapsOf_within (taken : List α) (ms : List (α × Mark)) :
    gapsOf (taken.map (·, .within) ++ ms) = gapsOf ms := by
  induction taken with
  | nil => rfl
  | cons a taken ih => rwa [List.map_cons, List.cons_append, gapsOf]

theorem gapsFrom_taken (h : find before (a :: rest) ≠ 0) :
    gapsFrom find before (a :: rest) =
      [] :: gapsFrom find (((a :: rest).take (find before (a :: rest))).reverse ++ before)
        ((a :: rest).drop (find before (a :: rest))) := by
  rw [gapsFrom, marks_taken h, gapsOf, gapsOf_within]
  rfl

theorem gapsFrom_ne_nil : gapsFrom find before rest ≠ [] := by
  rw [gapsFrom]
  induction marks find 0 before rest with
  | nil => exact List.cons_ne_nil _ _
  | cons entry ms ih =>
    obtain ⟨a, mark⟩ := entry
    cases mark with
    | kept =>
      obtain ⟨g, gs, hgs⟩ := List.exists_cons_of_ne_nil ih
      rw [gapsOf, hgs]
      exact List.cons_ne_nil _ _
    | opens => exact List.cons_ne_nil _ _
    | within => exact ih

/-- What is left of a text once something was taken at a place is shorter. -/
theorem length_drop_lt {n : ℕ} (h : n ≠ 0) : ((a :: rest).drop n).length < (a :: rest).length := by
  rw [List.length_drop, List.length_cons]
  omega

/-- What comes out are the gaps with what is put between them. -/
theorem subFrom_eq_intercalate :
    subFrom find put before rest = put.intercalate (gapsFrom find before rest) := by
  induction hn : rest.length using Nat.strongRecOn generalizing before rest with
  | ind n ih =>
    cases rest with
    | nil => rw [subFrom_nil, gapsFrom_nil, List.intercalate_singleton]
    | cons a rest =>
      by_cases h : find before (a :: rest) = 0
      · rw [subFrom_kept h, gapsFrom_kept h, ih rest.length (by simp [← hn]) rfl]
        obtain ⟨g, gs, hgs⟩ := List.exists_cons_of_ne_nil
          (@gapsFrom_ne_nil _ find (a :: before) rest)
        rw [hgs, List.modifyHead_cons]
        cases gs with
        | nil => rw [List.intercalate_singleton, List.intercalate_singleton]
        | cons g' gs =>
          rw [List.intercalate_cons_cons, List.intercalate_cons_cons]
          rfl
      · rw [subFrom_taken h, gapsFrom_taken h, ih _ (hn ▸ length_drop_lt h) rfl]
        obtain ⟨g, gs, hgs⟩ := List.exists_cons_of_ne_nil
          (@gapsFrom_ne_nil _ find (((a :: rest).take (find before (a :: rest))).reverse ++ before)
            ((a :: rest).drop (find before (a :: rest))))
        rw [hgs, List.intercalate_cons_cons, List.nil_append]

/-! ### Where the scan passes -/

variable (find put) in
/-- The scan of a text comes to a place, with what was made of the text so far. -/
inductive Passed (text : List α) : List α → List α → List α → Prop
  | start : Passed text [] text []
  | kept {before rest out : List α} {a : α} (h : Passed text before (a :: rest) out)
    (hfind : find before (a :: rest) = 0) : Passed text (a :: before) rest (a :: out)
  | taken {before rest out : List α} {a : α} (h : Passed text before (a :: rest) out)
    (hfind : find before (a :: rest) ≠ 0) :
    Passed text (((a :: rest).take (find before (a :: rest))).reverse ++ before)
      ((a :: rest).drop (find before (a :: rest))) (put.reverse ++ out)

variable {text out x y : List α}

theorem Passed.text_eq (h : Passed find put text before rest out) :
    text = before.reverse ++ rest := by
  induction h with
  | start => rfl
  | kept h hfind ih => rw [ih, List.reverse_cons, List.append_assoc, List.singleton_append]
  | taken h hfind ih =>
    rw [ih, List.reverse_append, List.reverse_reverse, List.append_assoc, List.take_append_drop]

theorem passed_of_subFrom_eq (hpassed : Passed find put text before rest out)
    (h : subFrom find put before rest = x ++ y) :
    (∃ before' rest', Passed find put text before' rest' (x.reverse ++ out) ∧
        y = subFrom find put before' rest') ∨
      ∃ i z, i < put.length ∧ 0 < i ∧ y = put.drop i ++ z := by
  induction hn : rest.length using Nat.strongRecOn generalizing before rest out x with
  | ind n ih =>
    cases x with
    | nil => exact .inl ⟨before, rest, hpassed, h.symm⟩
    | cons c x =>
      cases rest with
      | nil =>
        rw [subFrom_nil] at h
        exact absurd h (List.cons_ne_nil c (x ++ y)).symm
      | cons a rest =>
        by_cases hfind : find before (a :: rest) = 0
        · rw [subFrom_kept hfind, List.cons_append] at h
          obtain ⟨rfl, htail⟩ := List.cons.inj h
          have hnext := ih rest.length (by simp [← hn]) (hpassed.kept hfind) htail rfl
          rwa [List.reverse_cons, List.append_assoc, List.singleton_append]
        · rw [subFrom_taken hfind] at h
          obtain ⟨x', hx, hy⟩ | ⟨z, hput, hy⟩ := List.append_eq_append_iff.mp h
          · have hnext := ih _ (hn ▸ length_drop_lt hfind) (hpassed.taken hfind) hy rfl
            rwa [hx, List.reverse_append, List.append_assoc]
          · cases z with
            | nil =>
              rw [List.append_nil] at hput
              refine .inl ⟨_, _, ?_, hy⟩
              rw [← hput]
              exact hpassed.taken hfind
            | cons d z =>
              have hlength : (c :: x).length < put.length := by
                rw [hput, List.length_append]
                exact Nat.lt_add_of_pos_right (Nat.succ_pos _)
              have hdrop : put.drop (c :: x).length = d :: z := by rw [hput, List.drop_left]
              exact .inr ⟨(c :: x).length, _, hlength, Nat.succ_pos _, hdrop.symm ▸ hy⟩

/-- A place in what comes out stands inside what was put, or where the scan passed. -/
theorem passed_of_sub_eq (h : sub find put text = x ++ y) :
    (∃ before rest, Passed find put text before rest x.reverse ∧
        y = subFrom find put before rest) ∨
      ∃ i z, i < put.length ∧ 0 < i ∧ y = put.drop i ++ z := by
  have hpassed := passed_of_subFrom_eq .start h
  rwa [List.append_nil] at hpassed

/-- A gap, and what stands behind it: the end, or a place where something is found. -/
theorem exists_gap (before rest : List α) :
    ∃ g rest' tail, rest = g ++ rest' ∧ subFrom find put before rest = g ++ tail ∧
      ((gapsFrom find before rest).head? = some g ∧ (g ≠ [] → find before rest = 0)) ∧
        (rest' = [] ∧ tail = [] ∨
          find (g.reverse ++ before) rest' ≠ 0 ∧ rest' ≠ [] ∧ ∃ z, tail = put ++ z) := by
  induction rest generalizing before with
  | nil =>
    refine ⟨[], [], [], rfl, subFrom_nil, ⟨by rw [gapsFrom_nil]; rfl, ?_⟩, .inl ⟨rfl, rfl⟩⟩
    exact fun h => absurd rfl h
  | cons a rest ih =>
    by_cases hfind : find before (a :: rest) = 0
    · obtain ⟨g, rest', tail, hrest, hsub, ⟨hhead, -⟩, htail⟩ := ih (a :: before)
      refine ⟨a :: g, rest', tail, by rw [hrest]; rfl, by rw [subFrom_kept hfind, hsub]; rfl,
        ⟨?_, fun _ => hfind⟩, ?_⟩
      · rw [gapsFrom_kept hfind, List.head?_modifyHead, hhead]
        rfl
      · rwa [List.reverse_cons, List.append_assoc, List.singleton_append]
    · refine ⟨[], a :: rest, _, rfl, subFrom_taken hfind, ⟨by rw [gapsFrom_taken hfind]; rfl, ?_⟩,
        .inr ⟨hfind, List.cons_ne_nil _ _, _, rfl⟩⟩
      exact fun h => absurd rfl h

theorem Passed.behind_subset (h : Passed find put text before rest out) :
    (gapsFrom find before rest).tail ⊆ behind find text := by
  induction h with
  | start => exact fun _ h => h
  | kept h hfind ih =>
    rw [gapsFrom_kept hfind, List.tail_modifyHead] at ih
    exact ih
  | taken h hfind ih =>
    rw [gapsFrom_taken hfind, List.tail_cons] at ih
    exact fun _ hg => ih (List.mem_of_mem_tail hg)

/-- What stands behind something that is taken. -/
theorem Passed.mem_behind (h : Passed find put text before (a :: rest) out)
    (hfind : find before (a :: rest) ≠ 0) {g : List α}
    (hg : (gapsFrom find (((a :: rest).take (find before (a :: rest))).reverse ++ before)
      ((a :: rest).drop (find before (a :: rest)))).head? = some g) : g ∈ behind find text := by
  refine h.behind_subset ?_
  rw [gapsFrom_taken hfind, List.tail_cons]
  exact List.mem_of_mem_head? hg

theorem exists_intercalate (g : List α) (gs : List (List α)) :
    ∃ y, put.intercalate (g :: gs) = g ++ y := by
  cases gs with
  | nil => exact ⟨[], by rw [List.intercalate_singleton, List.append_nil]⟩
  | cons g' gs => exact ⟨_, by rw [List.intercalate_cons_cons, List.append_assoc]⟩

theorem exists_intercalate_of_mem {g : List α} {gs : List (List α)} (h : g ∈ gs)
    (first : List α) : ∃ x y, put.intercalate (first :: gs) = x ++ (put ++ (g ++ y)) := by
  induction gs generalizing first with
  | nil => exact absurd h List.not_mem_nil
  | cons g' gs ih =>
    rw [List.intercalate_cons_cons]
    obtain rfl | h := List.mem_cons.mp h
    · obtain ⟨y, hy⟩ := @exists_intercalate _ put g gs
      exact ⟨first, y, by rw [hy, List.append_assoc]⟩
    · obtain ⟨x, y, hxy⟩ := ih h g'
      exact ⟨first ++ (put ++ x), y, by rw [hxy]; simp⟩

/-- What stands behind something that is taken stands behind what is put. -/
theorem exists_of_mem_behind {g : List α} (h : g ∈ behind find text) :
    ∃ x y, sub find put text = x ++ (put ++ (g ++ y)) := by
  obtain ⟨first, gs, hgs⟩ := List.exists_cons_of_ne_nil (@gapsFrom_ne_nil _ find [] text)
  rw [behind, hgs, List.tail_cons] at h
  rw [sub, subFrom_eq_intercalate, hgs]
  exact exists_intercalate_of_mem h first

/-! ### Nothing found -/

theorem subFrom_eq_self (h : ∀ x y, rest = x ++ y → find (x.reverse ++ before) y = 0) :
    subFrom find put before rest = rest := by
  induction rest generalizing before with
  | nil => exact subFrom_nil
  | cons a rest ih =>
    have hhere : find before (a :: rest) = 0 := h [] (a :: rest) rfl
    rw [subFrom_kept hhere, ih]
    intro x y hxy
    have hfind := h (a :: x) y (by rw [hxy]; rfl)
    rwa [List.reverse_cons, List.append_assoc, List.singleton_append] at hfind

theorem sub_eq_self (h : Free find text) : sub find put text = text :=
  subFrom_eq_self fun x y hxy => by
    rw [List.append_nil]
    exact h x y hxy

/-- Nothing is found in what comes out of a substitution, if nothing is in what is put, and what
is found from inside a gap on was found there in the text. -/
theorem free_sub {other : List α → List α → ℕ} (hnil : ∀ before, other before [] = 0)
    (hput : ∀ i < put.length, ∀ before z, other before (put.drop i ++ z) = 0)
    (hpos : put ≠ [])
    (hend : ∀ before rest out, Passed find put text before rest out → find before rest = 0 →
      (gapsFrom find before rest).head? = some rest → other out rest ≠ 0 → other before rest ≠ 0)
    (hgap : ∀ before g rest out, Passed find put text before (g ++ rest) out →
      find before (g ++ rest) = 0 → (gapsFrom find before (g ++ rest)).head? = some g →
        find (g.reverse ++ before) rest ≠ 0 → rest ≠ [] →
          ∀ z, other out (g ++ (put ++ z)) ≠ 0 → other before (g ++ rest) ≠ 0)
    (hfree : ∀ before rest, text = before.reverse ++ rest → find before rest = 0 →
      other before rest = 0) : Free other (sub find put text) := by
  intro x y hxy
  by_contra hfound
  obtain ⟨before, rest, hpassed, rfl⟩ | ⟨i, z, hi, -, rfl⟩ := passed_of_sub_eq hxy
  · obtain ⟨g, rest', tail, rfl, hsub, ⟨hhead, hkept⟩, htail⟩ :=
      @exists_gap _ find put before rest
    rw [hsub] at hfound
    cases g with
    | nil =>
      obtain ⟨-, rfl⟩ | ⟨-, -, z, rfl⟩ := htail
      · exact hfound (hnil _)
      · exact hfound (hput 0 (List.length_pos_iff.mpr hpos) _ z)
    | cons c g =>
      have hfind := hkept (List.cons_ne_nil c g)
      have hnone := hfree before _ hpassed.text_eq hfind
      obtain ⟨rfl, rfl⟩ | ⟨hplace, hsome, z, rfl⟩ := htail
      · rw [List.append_nil] at hpassed hfind hnone hfound hhead
        exact hend before _ _ hpassed hfind hhead hfound hnone
      · exact hgap before _ _ _ hpassed hfind hhead hplace hsome z hfound hnone
  · exact hfound (hput i hi _ z)

theorem mem_of_mem_sub (h : a ∈ sub find put text) : a ∈ text ∨ a ∈ put := by
  obtain ⟨⟨c, mark⟩, hc, ha⟩ := List.mem_flatMap.mp h
  cases mark with
  | kept =>
    obtain rfl := List.mem_singleton.mp ha
    rw [← @map_fst_marks _ find [] text 0]
    exact .inl (List.mem_map.mpr ⟨_, hc, rfl⟩)
  | opens => exact .inr ha
  | within => exact absurd ha List.not_mem_nil

/-! ### Counting a character -/

variable [DecidableEq α]

/-- A substitution leaves no more of a character than there are. -/
theorem count_subFrom_le {c : α} (hput : c ∉ put) :
    (subFrom find put before rest).count c ≤ rest.count c := by
  induction hn : rest.length using Nat.strongRecOn generalizing before rest with
  | ind n ih =>
    cases rest with
    | nil => exact Nat.le_of_eq (congrArg (List.count c) subFrom_nil)
    | cons a rest =>
      by_cases hfind : find before (a :: rest) = 0
      · rw [subFrom_kept hfind, List.count_cons, List.count_cons]
        exact Nat.add_le_add_right (ih rest.length (by simp [← hn]) rfl) _
      · rw [subFrom_taken hfind, List.count_append, List.count_eq_zero_of_not_mem hput,
          Nat.zero_add]
        exact Nat.le_trans (ih _ (hn ▸ length_drop_lt hfind) rfl)
          ((List.drop_sublist _ _).count_le _)

/-- A substitution that takes a character wherever it takes something leaves fewer of them, where
something is found. -/
theorem count_subFrom_lt {c : α} (hput : c ∉ put)
    (htakes : ∀ before rest, find before rest ≠ 0 → c ∈ rest.take (find before rest))
    {x y : List α} (hfound : find (x.reverse ++ before) y ≠ 0) :
    (subFrom find put before (x ++ y)).count c < (x ++ y).count c := by
  have htaken : ∀ {before rest : List α}, find before rest ≠ 0 →
      (subFrom find put before rest).count c < rest.count c := by
    intro before rest hfind
    have hmem := htakes before rest hfind
    cases rest with
    | nil =>
      rw [List.take_nil] at hmem
      exact absurd hmem List.not_mem_nil
    | cons a rest =>
      have hle := @count_subFrom_le _ find put
        (((a :: rest).take (find before (a :: rest))).reverse ++ before)
        ((a :: rest).drop (find before (a :: rest))) _ c hput
      have hpos := List.count_pos_iff.mpr hmem
      have hsplit := congrArg (List.count c)
        (List.take_append_drop (find before (a :: rest)) (a :: rest))
      rw [List.count_append] at hsplit
      rw [subFrom_taken hfind, List.count_append, List.count_eq_zero_of_not_mem hput]
      omega
  induction x generalizing before with
  | nil => exact htaken hfound
  | cons a x ih =>
    by_cases hfind : find before (a :: (x ++ y)) = 0
    · rw [List.cons_append, subFrom_kept hfind, List.count_cons, List.count_cons]
      rw [List.reverse_cons, List.append_assoc, List.singleton_append] at hfound
      exact Nat.add_lt_add_right (ih hfound) _
    · exact htaken hfind

end Substitution

/-! ### Labels -/

section Labels

variable (find : List α → List α → ℕ) (put : List α)

/-- What is found in a text whose characters have labels. -/
def labelled (before rest : List (α × Option ι)) : ℕ := find (before.map (·.1)) (rest.map (·.1))

/-- What is put has no label. -/
def unlabelled : List (α × Option ι) := put.map (·, none)

/-- A text with everything that is found replaced, and the labels of what is kept. -/
def trace (text : List (α × Option ι)) : List (α × Option ι) :=
  sub (labelled find) (unlabelled put) text

def labels (text : List (α × Option ι)) : List ι := text.filterMap (·.2)

/-- The labels of what is taken. -/
def takenLabels (text : List (α × Option ι)) : List ι := labels (taken (labelled find) text)

variable {find put} {text : List (α × Option ι)}

theorem map_marks_labelled (skip : ℕ) (before rest : List (α × Option ι)) :
    (marks (labelled find) skip before rest).map (Prod.map Prod.fst id) =
      marks find skip (before.map (·.1)) (rest.map (·.1)) := by
  induction rest generalizing skip before with
  | nil => simp [marks]
  | cons a rest ih =>
    cases skip with
    | succ skip => simp [marks, ih]
    | zero =>
      have hsame : labelled find before (a :: rest) =
          find (before.map (·.1)) (a.1 :: rest.map (·.1)) := rfl
      rw [marks, hsame, List.map_cons, marks]
      cases find (before.map (·.1)) (a.1 :: rest.map (·.1)) with
      | zero => simp [ih]
      | succ more => simp [ih]

theorem map_fst_trace : (trace find put text).map (·.1) = sub find put (text.map (·.1)) := by
  have hmarks : (marks (labelled find) 0 [] text).map (Prod.map Prod.fst id) =
      marks find 0 [] (text.map (·.1)) := map_marks_labelled 0 [] text
  rw [trace, sub, subFrom, sub, subFrom, ← hmarks, List.map_flatMap, List.flatMap_map]
  refine List.flatMap_congr fun entry _ => ?_
  obtain ⟨a, mark⟩ := entry
  cases mark with
  | kept => rfl
  | opens => exact (List.map_map ..).trans (List.map_id put)
  | within => rfl

/-- Each label with whether it is kept. -/
def fates (ms : List ((α × Option ι) × Mark)) : List (ι × Bool) :=
  ms.filterMap fun entry => entry.1.2.map (·, entry.2 = .kept)

theorem map_fst_fates (ms : List ((α × Option ι) × Mark)) :
    (fates ms).map (·.1) = labels (ms.map (·.1)) := by
  induction ms with
  | nil => rfl
  | cons entry ms ih =>
    obtain ⟨⟨a, label⟩, mark⟩ := entry
    cases label with
    | none => exact ih
    | some i => exact congrArg (i :: ·) ih

theorem filter_fates_render (ms : List ((α × Option ι) × Mark)) :
    ((fates ms).filter (·.2)).map (·.1) = labels (ms.flatMap (render (unlabelled put))) := by
  have hput : labels (unlabelled put : List (α × Option ι)) = [] := by
    rw [labels, unlabelled, List.filterMap_map]
    exact List.filterMap_eq_nil_iff.mpr fun _ _ => rfl
  induction ms with
  | nil => rfl
  | cons entry ms ih =>
    obtain ⟨⟨a, label⟩, mark⟩ := entry
    rw [List.flatMap_cons, labels, List.filterMap_append]
    change _ = labels _ ++ labels _
    rw [← ih]
    cases mark with
    | kept => cases label <;> rfl
    | opens =>
      rw [render, hput]
      cases label <;> rfl
    | within => cases label <;> rfl

theorem filter_fates_taken (ms : List ((α × Option ι) × Mark)) :
    ((fates ms).filter fun fate => !fate.2).map (·.1) =
      labels ((ms.filter fun entry => entry.2 ≠ .kept).map (·.1)) := by
  induction ms with
  | nil => rfl
  | cons entry ms ih =>
    obtain ⟨⟨a, label⟩, mark⟩ := entry
    cases mark <;> cases label <;> simp_all [fates, labels]

variable [DecidableEq ι]

/-- Where each label occurs once, those of one kind are the others left out. -/
theorem filter_eq_of_nodup (fates : List (ι × Bool)) (h : (fates.map (·.1)).Nodup) :
    (fates.filter (·.2)).map (·.1) =
      (fates.map (·.1)).filter (· ∉ (fates.filter fun fate => !fate.2).map (·.1)) := by
  rw [List.filter_map]
  refine congrArg (List.map _) (List.filter_congr fun fate hfate => ?_)
  obtain ⟨i, keeps⟩ := fate
  cases keeps with
  | false =>
    have hmem : i ∈ (fates.filter fun fate => !fate.2).map (·.1) :=
      List.mem_map.mpr ⟨(i, false), List.mem_filter.mpr ⟨hfate, rfl⟩, rfl⟩
    simp only [Function.comp, hmem, not_true, decide_false]
  | true =>
    have hmem : i ∉ (fates.filter fun fate => !fate.2).map (·.1) := by
      rintro hmem
      obtain ⟨⟨j, keeps⟩, hj, rfl⟩ := List.mem_map.mp hmem
      obtain ⟨hj, hkeeps⟩ := List.mem_filter.mp hj
      have hsame := List.inj_on_of_nodup_map h hfate hj rfl
      obtain ⟨-, rfl⟩ := Prod.mk.inj hsame
      exact absurd hkeeps Bool.false_ne_true
    simp only [Function.comp, hmem, not_false_iff, decide_true]

/-- The labels that are kept are all that were not taken, in order. -/
theorem labels_trace (h : (labels text).Nodup) :
    labels (trace find put text) = (labels text).filter (· ∉ takenLabels find text) := by
  have htext : labels text = (fates (marks (labelled find) 0 [] text)).map (·.1) := by
    rw [map_fst_fates, map_fst_marks]
  rw [trace, sub, subFrom, ← filter_fates_render, takenLabels, taken, ← filter_fates_taken, htext]
  exact filter_eq_of_nodup _ (htext ▸ h)

end Labels

/-! ### One substitution after the other -/

section Steps

variable (put : List α)

/-- A text with everything replaced that several find, one after the other. -/
def subAll (finds : List (List α → List α → ℕ)) (text : List α) : List α :=
  finds.foldl (fun text find => sub find put text) text

def traceAll (finds : List (List α → List α → ℕ)) (text : List (α × Option ι)) :
    List (α × Option ι) :=
  finds.foldl (fun text find => trace find put text) text

/-- The labels of what is taken at any step. -/
def takenBy : List (List α → List α → ℕ) → List (α × Option ι) → List ι
  | [], _ => []
  | find :: finds, text => takenLabels find text ++ takenBy finds (trace find put text)

/-- Whatever a step breaks out of what a later one found, and had found in the text, is taken by
some later step. -/
def NoneLost (finds : List (List α → List α → ℕ)) (text : List (α × Option ι)) : Prop :=
  ∀ done step left, finds = done ++ step :: left → ∀ find ∈ left, ∀ i ∈ takenLabels find text,
    i ∈ takenLabels find (traceAll put done text) →
      i ∉ takenLabels step (traceAll put done text) →
        i ∉ takenLabels find (traceAll put (done ++ [step]) text) →
          i ∈ takenBy put left (traceAll put (done ++ [step]) text)

variable {put} {finds : List (List α → List α → ℕ)} {text : List (α × Option ι)}

theorem map_fst_traceAll :
    (traceAll put finds text).map (·.1) = subAll put finds (text.map (·.1)) := by
  induction finds generalizing text with
  | nil => rfl
  | cons find finds ih => exact ih.trans (congrArg (subAll put finds) map_fst_trace)

theorem traceAll_append (finds' : List (List α → List α → ℕ)) :
    traceAll put (finds ++ finds') text = traceAll put finds' (traceAll put finds text) :=
  List.foldl_append

theorem takenBy_append (finds' : List (List α → List α → ℕ)) :
    takenBy put (finds ++ finds') text =
      takenBy put finds text ++ takenBy put finds' (traceAll put finds text) := by
  induction finds generalizing text with
  | nil => rfl
  | cons find finds ih => exact (congrArg _ ih).trans (List.append_assoc ..).symm

theorem subAll_eq_self {text : List α} (h : ∀ find ∈ finds, Free find text) :
    subAll put finds text = text := by
  induction finds with
  | nil => rfl
  | cons find finds ih =>
    obtain ⟨hfirst, hrest⟩ := List.forall_mem_cons.mp h
    exact (congrArg (subAll put finds) (sub_eq_self hfirst)).trans (ih hrest)

/-- What has a label stands in the text. -/
theorem mem_of_mem_traceAll {c : α} {i : ι} (h : (c, some i) ∈ traceAll put finds text) :
    (c, some i) ∈ text := by
  induction finds generalizing text with
  | nil => exact h
  | cons find finds ih =>
    obtain hmem | hmem := mem_of_mem_sub (ih h)
    · exact hmem
    · obtain ⟨d, -, hd⟩ := List.mem_map.mp hmem
      exact absurd (Prod.mk.inj hd).2 (Option.some_ne_none i).symm

theorem mem_labels_of_taken {find : List α → List α → ℕ} {i : ι}
    (h : i ∈ takenLabels find text) : i ∈ labels text := by
  have hsublist : (taken (labelled find) text).Sublist text := by
    have hmarks : (taken (labelled find) text).Sublist
        ((marks (labelled find) 0 [] text).map (·.1)) := List.filter_sublist.map Prod.fst
    rwa [map_fst_marks] at hmarks
  exact (hsublist.filterMap _).subset h

variable [DecidableEq ι]

theorem nodup_trace {find : List α → List α → ℕ} (h : (labels text).Nodup) :
    (labels (trace find put text)).Nodup := by
  rw [labels_trace h]
  exact h.filter _

/-- The labels that are kept by all are those that no step takes, in order. -/
theorem labels_traceAll (h : (labels text).Nodup) :
    labels (traceAll put finds text) = (labels text).filter (· ∉ takenBy put finds text) := by
  induction finds generalizing text with
  | nil =>
    refine (List.filter_eq_self.mpr fun i _ => ?_).symm
    exact decide_eq_true List.not_mem_nil
  | cons find finds ih =>
    refine (ih (nodup_trace h)).trans ?_
    rw [labels_trace h, List.filter_filter]
    refine List.filter_congr fun i _ => ?_
    rw [takenBy, ← Bool.decide_and]
    refine decide_eq_decide.mpr ?_
    rw [List.mem_append, not_or]
    exact and_comm

theorem nodup_traceAll (h : (labels text).Nodup) : (labels (traceAll put finds text)).Nodup := by
  rw [labels_traceAll h]
  exact h.filter _

theorem mem_labels_traceAll (h : (labels text).Nodup) {i : ι} :
    i ∈ labels (traceAll put finds text) ↔ i ∈ labels text ∧ i ∉ takenBy put finds text := by
  rw [labels_traceAll h, List.mem_filter, decide_eq_true_eq]

/-- What each of several finds alone is removed by all of them, exactly where none of it is lost. -/
theorem removed_iff (h : (labels text).Nodup) :
    (∀ find ∈ finds, ∀ i ∈ takenLabels find text, i ∉ labels (traceAll put finds text)) ↔
      NoneLost put finds text := by
  constructor
  · intro hremoved done step left hfinds find hfind i hi hfound hstep hlost
    have hnone := hremoved find (hfinds ▸ List.mem_append_right _ (.tail _ hfind)) i hi
    have hdone : (labels (traceAll put done text)).Nodup := nodup_traceAll h
    have hkept : i ∈ labels (traceAll put (done ++ [step]) text) := by
      rw [traceAll_append]
      refine (mem_labels_traceAll hdone).mpr ⟨mem_labels_of_taken hfound, ?_⟩
      rwa [takenBy, takenBy, List.append_nil]
    have hsplit : done ++ step :: left = (done ++ [step]) ++ left := by simp
    rw [hfinds, hsplit, traceAll_append, mem_labels_traceAll (nodup_traceAll h)] at hnone
    exact not_not.mp fun hnot => hnone ⟨hkept, hnot⟩
  · intro hlost find hfind i hi hkept
    obtain ⟨done, left, hfinds⟩ := List.append_of_mem hfind
    have hnone := ((mem_labels_traceAll h).mp hkept).2
    -- by the steps done so far: what was found is found still
    have hfound : ∀ before after, done = before ++ after →
        i ∈ takenLabels find (traceAll put before text) := by
      intro before
      induction before using List.reverseRecOn with
      | nil => exact fun _ _ => hi
      | append_singleton before step ih =>
        intro after hdone
        by_contra hnot
        have hstep : finds = before ++ step :: (after ++ find :: left) := by simp [hfinds, hdone]
        have hstays : i ∉ takenLabels step (traceAll put before text) := by
          rw [hstep, takenBy_append] at hnone
          exact fun hi => hnone (List.mem_append_right _ (List.mem_append_left _ hi))
        have htaken := hlost before step _ hstep find (by simp) i hi
          (ih (step :: after) (by simp [hdone])) hstays hnot
        have hsplit : finds = (before ++ [step]) ++ (after ++ find :: left) := by simp [hstep]
        rw [hsplit, takenBy_append] at hnone
        exact hnone (List.mem_append_right _ htaken)
    have htaken := hfound done [] (List.append_nil _).symm
    rw [hfinds, takenBy_append] at hnone
    exact hnone (List.mem_append_right _ (List.mem_append_left _ htaken))

end Steps

end AiraGateway.Substitution
