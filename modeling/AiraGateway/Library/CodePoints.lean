import AiraGateway.Library.Text

/-!
# Texts as their code points

A text that may hold what no encoding can: a list of code points, lone surrogates among them.
-/

namespace AiraGateway

abbrev CodePoints := List ℕ

instance : LawfulBEq CodePoints := inferInstance

/-- A text as its code points. -/
def points (text : Text) : CodePoints := text.map Char.toNat

instance : Coe String CodePoints := ⟨fun s => points s⟩

namespace CodePoints

/-- Whether a code point is half of a pair, which no encoding has alone. -/
def isSurrogate (c : ℕ) : Bool := 0xD800 ≤ c && c ≤ 0xDFFF

/-- Whether a text can be encoded. -/
def encodable (t : CodePoints) : Bool := t.all fun c => !isSurrogate c

/-- A text without a character at its ends. -/
def stripOf (c : ℕ) (t : CodePoints) : CodePoints :=
  ((t.dropWhile (· = c)).reverse.dropWhile (· = c)).reverse

/-- What comes behind the last occurrence of a character. -/
def lastSegment (c : ℕ) (t : CodePoints) : CodePoints := (t.reverse.takeWhile (· ≠ c)).reverse

end CodePoints

end AiraGateway
