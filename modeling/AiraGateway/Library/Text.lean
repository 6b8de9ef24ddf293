import Mathlib.Data.Char
import Mathlib.Data.List.Lex
import Mathlib.Data.List.TakeWhile

/-!
# Text as a sequence of characters

Text is the list of its characters, so concatenation is `++` and a length counts code points.
`strip` takes the whitespace off both ends; what counts as whitespace is what Unicode gives the
bidirectional types WS, B and S or the category Zs (`isSpace`).

What is used of stripping is that it never looks inside: a text is blank exactly when nothing is
left of it (`strip_eq_nil_iff`), and a text that is not keeps its place between two blanks
(`strip_spec`). What is used of a separator is that it can be read back where the text before it
does not hold it (`separator_inj`).
-/

namespace AiraGateway

/-- A text: its characters in order. -/
abbrev Text := List Char

instance : LawfulBEq Text := inferInstance

instance : Coe String Text := ⟨String.toList⟩

/-- The characters that are whitespace. -/
def isSpace (c : Char) : Bool :=
  let n := c.toNat
  (0x09 ≤ n && n ≤ 0x0D) || (0x1C ≤ n && n ≤ 0x20) || n = 0x85 || n = 0xA0 || n = 0x1680 ||
    (0x2000 ≤ n && n ≤ 0x200A) || n = 0x2028 || n = 0x2029 || n = 0x202F || n = 0x205F ||
    n = 0x3000

/-- Only whitespace, or nothing. -/
def blank (t : Text) : Bool := t.all isSpace

def lstrip (t : Text) : Text := t.dropWhile isSpace

def rstrip (t : Text) : Text := (t.reverse.dropWhile isSpace).reverse

/-- The text without the whitespace at its ends. -/
def strip (t : Text) : Text := rstrip (lstrip t)

/-- A text or a default for it: an empty one is absent. -/
def orText (value : Option Text) (default : Text) : Text :=
  match value with
  | none | some [] => default
  | some t => t

/-- Where a text first occurs in another, if it does. -/
def find (t sub : Text) : Option ℕ :=
  (List.range (t.length + 1)).find? fun i => sub.isPrefixOf (t.drop i)

/-- Where a text last occurs in another, if it does. -/
def rfind (t sub : Text) : Option ℕ :=
  (List.range (t.length + 1)).reverse.find? fun i => sub.isPrefixOf (t.drop i)

@[simp]
theorem blank_nil : blank [] = true := rfl

@[simp]
theorem blank_append (s t : Text) : blank (s ++ t) = (blank s && blank t) := List.all_append

/-- A blank text followed by the stripped one is the text. -/
theorem lstrip_spec (t : Text) : ∃ s, blank s = true ∧ t = s ++ lstrip t :=
  ⟨t.takeWhile isSpace, List.all_takeWhile, List.takeWhile_append_dropWhile.symm⟩

theorem rstrip_spec (t : Text) : ∃ s, blank s = true ∧ t = rstrip t ++ s := by
  obtain ⟨s, hs, ht⟩ := lstrip_spec t.reverse
  refine ⟨s.reverse, by simpa [blank] using hs, ?_⟩
  rw [rstrip, ← List.reverse_append]
  exact List.reverse_eq_iff.mp ht

/-- **Stripping takes blanks off the ends** and nothing else. -/
theorem strip_spec (t : Text) :
    ∃ s s', blank s = true ∧ blank s' = true ∧ t = s ++ (strip t ++ s') := by
  obtain ⟨s, hs, ht⟩ := lstrip_spec t
  obtain ⟨s', hs', ht'⟩ := rstrip_spec (lstrip t)
  refine ⟨s, s', hs, hs', ?_⟩
  rw [strip, ← ht']
  exact ht

theorem lstrip_eq_nil_iff {t : Text} : lstrip t = [] ↔ blank t = true := by
  rw [lstrip, List.dropWhile_eq_nil_iff, blank, List.all_eq_true]

/-- Nothing is left of a text exactly when it is blank. -/
theorem strip_eq_nil_iff {t : Text} : strip t = [] ↔ blank t = true := by
  constructor
  · intro h
    obtain ⟨s, s', hs, hs', ht⟩ := strip_spec t
    rw [ht, h]
    simp [hs, hs']
  · intro h
    rw [strip, lstrip_eq_nil_iff.mpr h]
    rfl

/-- **A separator parts two texts in one way** where neither left side holds it. -/
theorem separator_inj {s s' t t' : Text} {sep : Char} (hs : sep ∉ s) (hs' : sep ∉ s')
    (h : s ++ sep :: t = s' ++ sep :: t') : s = s' ∧ t = t' := by
  induction s generalizing s' with
  | nil =>
    cases s' with
    | nil => exact ⟨rfl, (List.cons.inj h).2⟩
    | cons c s' => exact absurd ((List.cons.inj h).1 ▸ List.mem_cons_self) hs'
  | cons c s ih =>
    cases s' with
    | nil => exact absurd ((List.cons.inj h).1 ▸ List.mem_cons_self) hs
    | cons c' s' =>
      obtain ⟨rfl, hrest⟩ := List.cons.inj h
      obtain ⟨rfl, rfl⟩ := ih (List.not_mem_of_not_mem_cons hs)
        (List.not_mem_of_not_mem_cons hs') hrest
      exact ⟨rfl, rfl⟩

end AiraGateway
