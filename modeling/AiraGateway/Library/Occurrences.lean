import AiraGateway.Library.Text
import Mathlib.Data.List.Infix

/-!
# Occurrences of one text in another

`find` and `rfind` give the place of the first and of the last occurrence. What is used of them is
that an occurrence splits the text in three (`find_eq_some_iff`, `rfind_eq_some_iff`), and that
there is none where they find none.

Stripping a text takes no occurrence from it whose ends are not whitespace (`infix_strip_iff`), and
a text between two others keeps its place (`strip_append_solid`).
-/

namespace AiraGateway

variable {t sub : Text} {i : ℕ}

/-! ### Finding -/

theorem isPrefixOf_drop_iff :
    i ≤ t.length ∧ sub.isPrefixOf (t.drop i) = true
      ↔ ∃ front back, t = front ++ sub ++ back ∧ front.length = i := by
  rw [List.isPrefixOf_iff_prefix]
  constructor
  · rintro ⟨hi, back, hback⟩
    refine ⟨t.take i, back, ?_, by simp [hi]⟩
    rw [List.append_assoc, hback, List.take_append_drop]
  · rintro ⟨front, back, rfl, rfl⟩
    refine ⟨by simp, back, ?_⟩
    rw [List.append_assoc, List.drop_left]

theorem find_eq_some_iff :
    find t sub = some i ↔
      (∃ front back, t = front ++ sub ++ back ∧ front.length = i) ∧
        ∀ front back, t = front ++ sub ++ back → i ≤ front.length := by
  rw [find, List.find?_range_eq_some, ← isPrefixOf_drop_iff, List.mem_range]
  constructor
  · rintro ⟨hstart, hmem, hfirst⟩
    refine ⟨⟨by omega, hstart⟩, fun front back ht => ?_⟩
    by_contra hlater
    have hmiss := hfirst front.length (by omega)
    rw [(isPrefixOf_drop_iff.mpr ⟨front, back, ht, rfl⟩).2] at hmiss
    exact absurd hmiss (by decide)
  · rintro ⟨⟨hi, hstart⟩, hfirst⟩
    refine ⟨hstart, by omega, fun j hj => ?_⟩
    rw [Bool.not_eq_true']
    by_contra hearlier
    obtain ⟨front, back, ht, hfront⟩ :=
      isPrefixOf_drop_iff.mp ⟨by omega, eq_true_of_ne_false hearlier⟩
    have hle := hfirst front back ht
    omega

theorem find_eq_none_iff : find t sub = none ↔ ¬ sub <:+: t := by
  rw [find, List.find?_range_eq_none]
  constructor
  · rintro hmiss ⟨front, back, ht⟩
    obtain ⟨hi, hstart⟩ := isPrefixOf_drop_iff.mpr ⟨front, back, ht.symm, rfl⟩
    have hnot := hmiss front.length (by omega)
    rw [hstart] at hnot
    exact absurd hnot (by decide)
  · intro hmiss i hi
    rw [Bool.not_eq_true']
    by_contra hfound
    obtain ⟨front, back, ht, -⟩ :=
      isPrefixOf_drop_iff.mp ⟨by omega, eq_true_of_ne_false hfound⟩
    exact hmiss ⟨front, back, ht.symm⟩

theorem find?_range_reverse_eq_some {n : ℕ} {p : ℕ → Bool} :
    (List.range n).reverse.find? p = some i ↔
      p i = true ∧ i < n ∧ ∀ j, i < j → j < n → p j = false := by
  induction n with
  | zero => simp
  | succ n ih =>
    rw [List.range_succ, List.reverse_append, List.reverse_singleton, List.singleton_append,
      List.find?_cons]
    cases hn : p n with
    | true =>
      constructor
      · intro h
        obtain rfl : n = i := Option.some.inj h
        exact ⟨hn, by omega, fun j hj hlt => by omega⟩
      · rintro ⟨-, hi, hlast⟩
        have heq : n = i := by
          by_contra hne
          have hfalse := hlast n (by omega) (by omega)
          rw [hn] at hfalse
          exact absurd hfalse (by decide)
        rw [heq]
    | false =>
      rw [ih]
      constructor
      · rintro ⟨hp, hi, hlast⟩
        refine ⟨hp, by omega, fun j hj hlt => ?_⟩
        obtain rfl | hne := eq_or_ne j n
        · exact hn
        · exact hlast j hj (by omega)
      · rintro ⟨hp, hi, hlast⟩
        have hne : i ≠ n := by
          rintro rfl
          rw [hn] at hp
          exact absurd hp (by decide)
        exact ⟨hp, by omega, fun j hj hlt => hlast j hj (by omega)⟩

theorem rfind_eq_some_iff :
    rfind t sub = some i ↔
      (∃ front back, t = front ++ sub ++ back ∧ front.length = i) ∧
        ∀ front back, t = front ++ sub ++ back → front.length ≤ i := by
  rw [rfind, find?_range_reverse_eq_some, ← isPrefixOf_drop_iff]
  constructor
  · rintro ⟨hstart, hlt, hlast⟩
    refine ⟨⟨by omega, hstart⟩, fun front back ht => ?_⟩
    by_contra hlater
    obtain ⟨hle, hfound⟩ := isPrefixOf_drop_iff.mpr ⟨front, back, ht, rfl⟩
    have hmiss := hlast front.length (by omega) (by omega)
    rw [hfound] at hmiss
    exact absurd hmiss (by decide)
  · rintro ⟨⟨hi, hstart⟩, hlast⟩
    refine ⟨hstart, by omega, fun j hj hlt => ?_⟩
    by_contra hlater
    obtain ⟨front, back, ht, hfront⟩ :=
      isPrefixOf_drop_iff.mp ⟨by omega, eq_true_of_ne_false hlater⟩
    have hle := hlast front back ht
    omega

theorem rfind_eq_none_iff : rfind t sub = none ↔ ¬ sub <:+: t := by
  rw [← find_eq_none_iff, find, rfind, List.find?_eq_none, List.find?_eq_none]
  simp only [List.mem_reverse]

/-! ### Stripping -/

/-- What starts with no blank ends the blanks in front of it. -/
theorem lstrip_append_cons {front rest : Text} {c : Char} (hc : isSpace c = false) :
    lstrip (front ++ c :: rest) = lstrip front ++ c :: rest := by
  rw [lstrip, List.dropWhile_append, List.dropWhile_cons_of_neg (by simp [hc])]
  split
  · next hempty =>
    have hnil : lstrip front = [] := List.isEmpty_iff.mp hempty
    rw [hnil, List.nil_append]
  · rfl

theorem rstrip_concat_append {front back : Text} {c : Char} (hc : isSpace c = false) :
    rstrip (front ++ [c] ++ back) = front ++ [c] ++ rstrip back := by
  have hreverse : (front ++ [c] ++ back).reverse = back.reverse ++ c :: front.reverse := by simp
  rw [rstrip, hreverse, ← lstrip, lstrip_append_cons hc, List.reverse_append, rstrip, ← lstrip]
  simp

theorem lstrip_blank_append {s : Text} (hs : blank s = true) : lstrip (s ++ t) = lstrip t := by
  rw [lstrip, List.dropWhile_append_of_pos fun c hc => List.all_eq_true.mp hs c hc]
  rfl

theorem rstrip_append_blank {s : Text} (hs : blank s = true) : rstrip (t ++ s) = rstrip t := by
  have hreverse : blank s.reverse = true := by simpa [blank] using hs
  rw [rstrip, List.reverse_append, ← lstrip, lstrip_blank_append hreverse]
  rfl

/-- A text that is not blank has a first character that is not. -/
theorem exists_first_solid (ht : blank t = false) :
    ∃ front c rest, t = front ++ c :: rest ∧ isSpace c = false := by
  induction t with
  | nil => exact absurd ht (by decide)
  | cons c rest ih =>
    cases hc : isSpace c with
    | false => exact ⟨[], c, rest, rfl, hc⟩
    | true =>
      have hrest : blank rest = false := by
        simpa [blank, hc] using ht
      obtain ⟨front, d, back, heq, hd⟩ := ih hrest
      exact ⟨c :: front, d, back, by rw [heq, List.cons_append], hd⟩

/-- **Blanks around a text** are stripped with its own. -/
theorem strip_blank_append {s s' : Text} (hs : blank s = true) (hs' : blank s' = true) :
    strip (s ++ (t ++ s')) = strip t := by
  rw [strip, lstrip_blank_append hs]
  cases ht : blank t with
  | true =>
    rw [lstrip_blank_append ht, lstrip_eq_nil_iff.mpr hs', strip_eq_nil_iff.mpr ht]
    rfl
  | false =>
    obtain ⟨front, c, rest, rfl, hc⟩ := exists_first_solid ht
    rw [List.append_assoc, List.cons_append, lstrip_append_cons hc, strip, lstrip_append_cons hc,
      ← List.cons_append, ← List.append_assoc, rstrip_append_blank hs']

theorem strip_strip : strip (strip t) = strip t := by
  obtain ⟨s, s', hs, hs', ht⟩ := strip_spec t
  have h := strip_blank_append (t := strip t) hs hs'
  rwa [← ht, eq_comm] at h

theorem strip_rstrip : strip (rstrip t) = strip t := by
  obtain ⟨s, hs, ht⟩ := rstrip_spec t
  have h := strip_blank_append (t := rstrip t) (s := []) rfl hs
  rwa [List.nil_append, ← ht, eq_comm] at h

/-! ### Occurrences in a stripped text -/

/-- A text whose first and last characters are no blanks. -/
structure Solid (m : Text) : Prop where
  first : ∃ c rest, m = c :: rest ∧ isSpace c = false
  last : ∃ front c, m = front ++ [c] ∧ isSpace c = false

/-- Nothing of a solid text lies in the blanks around another. -/
theorem Solid.infix_of_blank_append {m s s' : Text} (hm : Solid m) (hs : blank s = true)
    (hs' : blank s' = true) (h : m <:+: s ++ (t ++ s')) : m <:+: t := by
  obtain ⟨front, back, hsplit⟩ := h
  have hinside : ∃ y, front = s ++ y := by
    rw [List.append_assoc] at hsplit
    obtain ⟨x, hs'', hx⟩ | ⟨y, hfront, -⟩ := List.append_eq_append_iff.mp hsplit
    · obtain ⟨c, rest, rfl, hc⟩ := hm.first
      cases x with
      | nil => exact ⟨[], by simpa using hs''.symm⟩
      | cons d x =>
        rw [List.cons_append, List.cons_append] at hx
        obtain ⟨rfl, -⟩ := List.cons.inj hx
        have hblank := List.all_eq_true.mp hs c (by rw [hs'']; simp)
        rw [hc] at hblank
        exact absurd hblank (by decide)
    · exact ⟨y, hfront⟩
  obtain ⟨y, rfl⟩ := hinside
  have hrest : y ++ m ++ back = t ++ s' := by
    rw [List.append_assoc, List.append_assoc] at hsplit
    rw [List.append_assoc]
    exact List.append_cancel_left hsplit
  obtain ⟨x, ht, -⟩ | ⟨x, hx, hs''⟩ := List.append_eq_append_iff.mp hrest
  · exact ⟨y, x, ht.symm⟩
  · obtain ⟨begin, c, rfl, hc⟩ := hm.last
    obtain rfl | ⟨x, d, rfl⟩ := List.eq_nil_or_concat x
    · exact ⟨y, [], by simpa using hx⟩
    · rw [List.concat_eq_append, ← List.append_assoc, ← List.append_assoc] at hx
      obtain rfl : c = d := by simpa using List.append_inj_right' hx rfl
      have hblank := List.all_eq_true.mp hs' c (by rw [hs'']; simp)
      rw [hc] at hblank
      exact absurd hblank (by decide)

/-- **Stripping keeps the occurrences** of a solid text. -/
theorem Solid.infix_strip_iff {m : Text} (hm : Solid m) : m <:+: strip t ↔ m <:+: t := by
  obtain ⟨s, s', hs, hs', ht⟩ := strip_spec t
  constructor
  · intro h
    rw [ht]
    exact h.trans ⟨s, s', by simp⟩
  · intro h
    rw [ht] at h
    exact hm.infix_of_blank_append hs hs' h

/-- Around a solid text, only the outer ends are stripped. -/
theorem Solid.strip_append {m front back : Text} (hm : Solid m) :
    strip (front ++ m ++ back) = lstrip front ++ m ++ rstrip back := by
  have hleft : lstrip (front ++ m ++ back) = lstrip front ++ m ++ back := by
    obtain ⟨c, rest, rfl, hc⟩ := hm.first
    rw [List.append_assoc, List.cons_append, lstrip_append_cons hc, List.append_assoc,
      List.cons_append]
  obtain ⟨begin, c, rfl, hc⟩ := hm.last
  rw [strip, hleft, ← List.append_assoc, rstrip_concat_append hc]

end AiraGateway
