import Mathlib.Data.Nat.Notation
import Mathlib.Order.Basic

/-!
# JSON documents in UTF-8

The grammar of JSON as trees that keep every byte: a byte string is a document exactly where it is
the bytes of one (`Document.bytes`). The measures of a document follow its tree.

* `holds_le`: what its commas and opening brackets count is at least how many values a document
  holds, and that many exactly where no array or object in it is empty.
-/

namespace AiraGateway.JsonSyntax

/-! ### Tokens -/

/-- Insignificant whitespace. -/
inductive Blank
  | space
  | tab
  | newline
  | carriageReturn

def Blank.byte : Blank → UInt8
  | space => ' '.toUInt8
  | tab => '\t'.toUInt8
  | newline => '\n'.toUInt8
  | carriageReturn => '\r'.toUInt8

def blanks (between : List Blank) : List UInt8 := between.map Blank.byte

/-- A character that stands for itself in a string. -/
structure PlainChar where
  char : Char
  visible : ' ' ≤ char
  notQuote : char ≠ '"'
  notBackslash : char ≠ '\\'

/-- The letter after a backslash, the one for a code unit apart. -/
inductive EscapeLetter
  | quote
  | backslash
  | slash
  | b
  | f
  | n
  | r
  | t

def EscapeLetter.byte : EscapeLetter → UInt8
  | quote => '"'.toUInt8
  | backslash => '\\'.toUInt8
  | slash => '/'.toUInt8
  | b => 'b'.toUInt8
  | f => 'f'.toUInt8
  | n => 'n'.toUInt8
  | r => 'r'.toUInt8
  | t => 't'.toUInt8

structure HexDigit where
  byte : UInt8
  hex : ('0'.toUInt8 ≤ byte ∧ byte ≤ '9'.toUInt8) ∨ ('a'.toUInt8 ≤ byte ∧ byte ≤ 'f'.toUInt8) ∨
    ('A'.toUInt8 ≤ byte ∧ byte ≤ 'F'.toUInt8)

inductive StringPart
  | plain (c : PlainChar)
  | escaped (letter : EscapeLetter)
  | unit (a b c d : HexDigit)

def StringPart.bytes : StringPart → List UInt8
  | plain c => String.utf8EncodeChar c.char
  | escaped letter => ['\\'.toUInt8, letter.byte]
  | unit a b c d => ['\\'.toUInt8, 'u'.toUInt8, a.byte, b.byte, c.byte, d.byte]

/-- A string, with its quotes. -/
def quotedBytes (parts : List StringPart) : List UInt8 :=
  '"'.toUInt8 :: (parts.flatMap StringPart.bytes ++ ['"'.toUInt8])

def digitByte (d : Fin 10) : UInt8 := .ofNat (48 + d)

structure Digits where
  first : Fin 10
  rest : List (Fin 10)

def Digits.bytes (d : Digits) : List UInt8 := (d.first :: d.rest).map digitByte

/-- The part of a number before its fraction: zero, or digits of which the first is none. -/
inductive Whole
  | zero
  | digits (first : Fin 9) (rest : List (Fin 10))

def Whole.bytes : Whole → List UInt8
  | zero => ['0'.toUInt8]
  | digits first rest => .ofNat (49 + first) :: rest.map digitByte

structure Exponent where
  upper : Bool
  sign : Option Bool
  digits : Digits

def Exponent.bytes (e : Exponent) : List UInt8 :=
  (if e.upper then 'E'.toUInt8 else 'e'.toUInt8) ::
    ((e.sign.map fun negative => if negative then '-'.toUInt8 else '+'.toUInt8).toList ++
      e.digits.bytes)

structure Number where
  negative : Bool
  whole : Whole
  fraction : Option Digits
  exponent : Option Exponent

def Number.bytes (n : Number) : List UInt8 :=
  (if n.negative then ['-'.toUInt8] else []) ++ n.whole.bytes ++
    (n.fraction.elim [] fun digits => '.'.toUInt8 :: digits.bytes) ++
    (n.exponent.elim [] Exponent.bytes)

inductive Literal
  | null
  | bool (b : Bool)

def Literal.bytes : Literal → List UInt8
  | null => "null".toList.map Char.toUInt8
  | bool true => "true".toList.map Char.toUInt8
  | bool false => "false".toList.map Char.toUInt8

/-! ### Values -/

mutual

inductive Value
  | literal (word : Literal)
  | number (n : Number)
  | string (parts : List StringPart)
  | emptyArray (inside : List Blank)
  | array (items : Items)
  | emptyObject (inside : List Blank)
  | object (members : Members)

/-- The items of an array, at least one. -/
inductive Items
  | last (before : List Blank) (value : Value) (after : List Blank)
  | more (before : List Blank) (value : Value) (after : List Blank) (rest : Items)

/-- The members of an object, at least one. -/
inductive Members
  | last (before : List Blank) (name : List StringPart) (named before' : List Blank)
      (value : Value) (after : List Blank)
  | more (before : List Blank) (name : List StringPart) (named before' : List Blank)
      (value : Value) (after : List Blank) (rest : Members)

end

mutual

def Value.bytes : Value → List UInt8
  | .literal word => word.bytes
  | .number n => n.bytes
  | .string parts => quotedBytes parts
  | .emptyArray inside => '['.toUInt8 :: (blanks inside ++ [']'.toUInt8])
  | .array items => '['.toUInt8 :: (items.bytes ++ [']'.toUInt8])
  | .emptyObject inside => '{'.toUInt8 :: (blanks inside ++ ['}'.toUInt8])
  | .object members => '{'.toUInt8 :: (members.bytes ++ ['}'.toUInt8])

def Items.bytes : Items → List UInt8
  | .last before value after => blanks before ++ (value.bytes ++ blanks after)
  | .more before value after rest =>
    blanks before ++ (value.bytes ++ (blanks after ++ ','.toUInt8 :: rest.bytes))

def Members.bytes : Members → List UInt8
  | .last before name named before' value after =>
    blanks before ++ (quotedBytes name ++ (blanks named ++ ':'.toUInt8 :: (blanks before' ++
      (value.bytes ++ blanks after))))
  | .more before name named before' value after rest =>
    blanks before ++ (quotedBytes name ++ (blanks named ++ ':'.toUInt8 :: (blanks before' ++
      (value.bytes ++ (blanks after ++ ','.toUInt8 :: rest.bytes)))))

end

/-- A document: one value between blanks. -/
structure Document where
  before : List Blank
  value : Value
  after : List Blank

def Document.bytes (d : Document) : List UInt8 :=
  blanks d.before ++ (d.value.bytes ++ blanks d.after)

/-! ### Measures -/

mutual

/-- How many arrays and objects stand in one another. -/
def Value.nesting : Value → ℕ
  | .literal _ | .number _ | .string _ => 0
  | .emptyArray _ | .emptyObject _ => 1
  | .array items => 1 + items.nesting
  | .object members => 1 + members.nesting

def Items.nesting : Items → ℕ
  | .last _ value _ => value.nesting
  | .more _ value _ rest => max value.nesting rest.nesting

def Members.nesting : Members → ℕ
  | .last _ _ _ _ value _ => value.nesting
  | .more _ _ _ _ value _ rest => max value.nesting rest.nesting

end

mutual

/-- How many values there are, the value itself with those in it. -/
def Value.holds : Value → ℕ
  | .literal _ | .number _ | .string _ | .emptyArray _ | .emptyObject _ => 1
  | .array items => 1 + items.holds
  | .object members => 1 + members.holds

def Items.holds : Items → ℕ
  | .last _ value _ => value.holds
  | .more _ value _ rest => value.holds + rest.holds

def Members.holds : Members → ℕ
  | .last _ _ _ _ value _ => value.holds
  | .more _ _ _ _ value _ rest => value.holds + rest.holds

end

mutual

/-- The brackets and commas outside strings. -/
def Value.marks : Value → List UInt8
  | .literal _ | .number _ | .string _ => []
  | .emptyArray _ => ['['.toUInt8, ']'.toUInt8]
  | .array items => '['.toUInt8 :: (items.marks ++ [']'.toUInt8])
  | .emptyObject _ => ['{'.toUInt8, '}'.toUInt8]
  | .object members => '{'.toUInt8 :: (members.marks ++ ['}'.toUInt8])

def Items.marks : Items → List UInt8
  | .last _ value _ => value.marks
  | .more _ value _ rest => value.marks ++ ','.toUInt8 :: rest.marks

def Members.marks : Members → List UInt8
  | .last _ _ _ _ value _ => value.marks
  | .more _ _ _ _ value _ rest => value.marks ++ ','.toUInt8 :: rest.marks

end

mutual

/-- No array and no object is empty. -/
def Value.noneEmpty : Value → Bool
  | .literal _ | .number _ | .string _ => true
  | .emptyArray _ | .emptyObject _ => false
  | .array items => items.noneEmpty
  | .object members => members.noneEmpty

def Items.noneEmpty : Items → Bool
  | .last _ value _ => value.noneEmpty
  | .more _ value _ rest => value.noneEmpty && rest.noneEmpty

def Members.noneEmpty : Members → Bool
  | .last _ _ _ _ value _ => value.noneEmpty
  | .more _ _ _ _ value _ rest => value.noneEmpty && rest.noneEmpty

end

def openings (marks : List UInt8) : ℕ := marks.count '{'.toUInt8 + marks.count '['.toUInt8

def commas (marks : List UInt8) : ℕ := marks.count ','.toUInt8

theorem openings_append (a b : List UInt8) : openings (a ++ b) = openings a + openings b := by
  rw [openings, openings, openings, List.count_append, List.count_append]
  omega

theorem commas_append (a b : List UInt8) : commas (a ++ b) = commas a + commas b :=
  List.count_append

section Marks

variable (rest : List UInt8)

theorem counts_comma :
    openings (','.toUInt8 :: rest) = openings rest ∧ commas (','.toUInt8 :: rest) = commas rest + 1
    := by
  refine ⟨?_, List.count_cons_self⟩
  rw [openings, List.count_cons_of_ne (by decide), List.count_cons_of_ne (by decide), openings]

theorem counts_open {opening : UInt8} (h : opening ∈ ['{'.toUInt8, '['.toUInt8]) :
    openings (opening :: rest) = openings rest + 1 ∧ commas (opening :: rest) = commas rest := by
  simp only [List.mem_cons, List.not_mem_nil, or_false] at h
  obtain rfl | rfl := h
  · refine ⟨?_, List.count_cons_of_ne (by decide)⟩
    rw [openings, List.count_cons_self, List.count_cons_of_ne (by decide), openings]
    omega
  · refine ⟨?_, List.count_cons_of_ne (by decide)⟩
    rw [openings, List.count_cons_self, List.count_cons_of_ne (by decide), openings]
    omega

theorem counts_close {closing : UInt8} (h : closing ∈ ['}'.toUInt8, ']'.toUInt8]) :
    openings (rest ++ [closing]) = openings rest ∧ commas (rest ++ [closing]) = commas rest := by
  have hnone : openings [closing] = 0 ∧ commas [closing] = 0 := by
    simp only [List.mem_cons, List.not_mem_nil, or_false] at h
    obtain rfl | rfl := h <;> decide
  rw [openings_append, commas_append, hnone.1, hnone.2]
  exact ⟨rfl, rfl⟩

/-- One for the value, one for each comma and one for each opening bracket. -/
def counted (marks : List UInt8) : ℕ := 1 + commas marks + openings marks

theorem counted_bracketed {opening closing : UInt8} (hopen : opening ∈ ['{'.toUInt8, '['.toUInt8])
    (hclose : closing ∈ ['}'.toUInt8, ']'.toUInt8]) :
    counted (opening :: (rest ++ [closing])) = 1 + counted rest := by
  obtain ⟨hopenings, hcommas⟩ := counts_open (rest ++ [closing]) hopen
  obtain ⟨hopenings', hcommas'⟩ := counts_close rest hclose
  rw [counted, counted, hopenings, hcommas, hopenings', hcommas']
  omega

theorem counted_separated (marks : List UInt8) :
    counted (marks ++ ','.toUInt8 :: rest) = counted marks + counted rest := by
  obtain ⟨hopenings, hcommas⟩ := counts_comma rest
  rw [counted, counted, counted, openings_append, commas_append, hopenings, hcommas]
  omega

end Marks

mutual

/-- **What the marks count** is at least how many values there are, and exactly that many where no
array and no object is empty. -/
theorem Value.holds_le : ∀ v : Value, v.holds ≤ counted v.marks ∧
    (v.holds = counted v.marks ↔ v.noneEmpty = true)
  | .literal _ | .number _ | .string _ => ⟨Nat.le_refl 1, ⟨fun _ => rfl, fun _ => rfl⟩⟩
  | .emptyArray _ => by
    have htwo : counted ['['.toUInt8, ']'.toUInt8] = 2 := by decide
    rw [Value.holds, Value.marks, htwo]
    exact ⟨Nat.le_succ 1, ⟨fun h => (nomatch h), fun h => (nomatch h)⟩⟩
  | .emptyObject _ => by
    have htwo : counted ['{'.toUInt8, '}'.toUInt8] = 2 := by decide
    rw [Value.holds, Value.marks, htwo]
    exact ⟨Nat.le_succ 1, ⟨fun h => (nomatch h), fun h => (nomatch h)⟩⟩
  | .array items => by
    obtain ⟨hle, hiff⟩ := items.holds_le
    have hcounted := counted_bracketed items.marks (List.mem_cons_of_mem _ List.mem_cons_self)
      (List.mem_cons_of_mem _ List.mem_cons_self)
    rw [Value.holds, Value.marks, Value.noneEmpty, hcounted, ← hiff]
    omega
  | .object members => by
    obtain ⟨hle, hiff⟩ := members.holds_le
    have hcounted := counted_bracketed members.marks List.mem_cons_self List.mem_cons_self
    rw [Value.holds, Value.marks, Value.noneEmpty, hcounted, ← hiff]
    omega

theorem Items.holds_le : ∀ items : Items, items.holds ≤ counted items.marks ∧
    (items.holds = counted items.marks ↔ items.noneEmpty = true)
  | .last _ value _ => value.holds_le
  | .more _ value _ rest => by
    obtain ⟨hle, hiff⟩ := value.holds_le
    obtain ⟨hrest, hiff'⟩ := rest.holds_le
    rw [Items.holds, Items.marks, Items.noneEmpty, counted_separated, Bool.and_eq_true, ← hiff,
      ← hiff']
    omega

theorem Members.holds_le : ∀ members : Members, members.holds ≤ counted members.marks ∧
    (members.holds = counted members.marks ↔ members.noneEmpty = true)
  | .last _ _ _ _ value _ => value.holds_le
  | .more _ _ _ _ value _ rest => by
    obtain ⟨hle, hiff⟩ := value.holds_le
    obtain ⟨hrest, hiff'⟩ := rest.holds_le
    rw [Members.holds, Members.marks, Members.noneEmpty, counted_separated, Bool.and_eq_true,
      ← hiff, ← hiff']
    omega

end

/-! ### The bytes of a token -/

/-- A byte that has no part in a document's structure. -/
def inert (b : UInt8) : Bool :=
  b ∉ ['"'.toUInt8, '\\'.toUInt8, ','.toUInt8, '{'.toUInt8, '['.toUInt8, '}'.toUInt8,
    ']'.toUInt8]

theorem inert_digitByte (d : Fin 10) : inert (digitByte d) = true := by
  revert d
  decide

theorem inert_map_digitByte {digits : List (Fin 10)} :
    ∀ b ∈ digits.map digitByte, inert b = true := by
  intro b hb
  obtain ⟨d, -, rfl⟩ := List.mem_map.mp hb
  exact inert_digitByte d

theorem Whole.inert_bytes (w : Whole) : ∀ b ∈ w.bytes, inert b = true := by
  cases w with
  | zero => decide +kernel
  | digits first rest =>
    have hfirst : ∀ first : Fin 9, inert (.ofNat (49 + first)) = true := by decide
    rw [Whole.bytes, List.forall_mem_cons]
    exact ⟨hfirst first, inert_map_digitByte⟩

theorem Exponent.inert_bytes (e : Exponent) : ∀ b ∈ e.bytes, inert b = true := by
  obtain ⟨upper, sign, digits⟩ := e
  rw [Exponent.bytes, List.forall_mem_cons, List.forall_mem_append]
  refine ⟨by cases upper <;> rfl, ?_, inert_map_digitByte⟩
  intro b hb
  cases sign with
  | none => cases hb
  | some negative =>
    obtain rfl := List.mem_singleton.mp hb
    cases negative <;> rfl

theorem Number.inert_bytes (n : Number) : ∀ b ∈ n.bytes, inert b = true := by
  obtain ⟨negative, whole, fraction, exponent⟩ := n
  rw [Number.bytes, List.forall_mem_append, List.forall_mem_append, List.forall_mem_append]
  refine ⟨⟨⟨?_, whole.inert_bytes⟩, ?_⟩, ?_⟩
  · intro b hb
    cases negative with
    | false => cases hb
    | true =>
      obtain rfl := List.mem_singleton.mp hb
      rfl
  · cases fraction with
    | none => exact fun b hb => nomatch hb
    | some digits => exact List.forall_mem_cons.mpr ⟨rfl, inert_map_digitByte⟩
  · cases exponent with
    | none => exact fun b hb => nomatch hb
    | some e => exact e.inert_bytes

theorem Literal.inert_bytes (word : Literal) : ∀ b ∈ word.bytes, inert b = true := by
  cases word with
  | null => decide +kernel
  | bool b => cases b <;> decide +kernel

theorem inert_blanks {between : List Blank} : ∀ b ∈ blanks between, inert b = true := by
  intro b hb
  obtain ⟨blank, -, rfl⟩ := List.mem_map.mp hb
  cases blank <;> decide

theorem HexDigit.inert_byte (d : HexDigit) : inert d.byte = true := by
  obtain ⟨b, hex⟩ := d
  have hbounds : (48 ≤ b.toNat ∧ b.toNat ≤ 57) ∨ (97 ≤ b.toNat ∧ b.toNat ≤ 102) ∨
      (65 ≤ b.toNat ∧ b.toNat ≤ 70) := hex
  rw [inert, decide_eq_true_eq]
  intro hb
  simp only [List.mem_cons, List.not_mem_nil, or_false] at hb
  obtain rfl | rfl | rfl | rfl | rfl | rfl | rfl := hb
  all_goals revert hbounds; decide

/-- A byte of a character's encoding that is in ASCII is the character. -/
theorem toNat_of_mem_utf8EncodeChar {c : Char} {b : UInt8} (h : b ∈ String.utf8EncodeChar c)
    (hb : b.toNat < 128) : b.toNat = c.toNat := by
  have hcode : c.val.toNat = c.toNat := rfl
  rw [String.utf8EncodeChar] at h
  simp only [hcode] at h
  split at h
  · obtain rfl := List.mem_singleton.mp h
    rw [UInt8.toNat_ofNat']
    omega
  · -- every byte of a longer encoding has its high bit set
    exfalso
    split at h
    · simp only [List.mem_cons, List.not_mem_nil, or_false] at h
      obtain rfl | rfl := h
      all_goals rw [UInt8.toNat_ofNat'] at hb; omega
    · split at h
      · simp only [List.mem_cons, List.not_mem_nil, or_false] at h
        obtain rfl | rfl | rfl := h
        all_goals rw [UInt8.toNat_ofNat'] at hb; omega
      · simp only [List.mem_cons, List.not_mem_nil, or_false] at h
        obtain rfl | rfl | rfl | rfl := h
        all_goals rw [UInt8.toNat_ofNat'] at hb; omega

/-- No byte of a plain character is a quote or a backslash. -/
theorem PlainChar.of_mem {c : PlainChar} {b : UInt8} (h : b ∈ String.utf8EncodeChar c.char) :
    b ≠ '"'.toUInt8 ∧ b ≠ '\\'.toUInt8 := by
  refine ⟨?_, ?_⟩
  · rintro rfl
    have hcode := toNat_of_mem_utf8EncodeChar h (by decide)
    exact c.notQuote (Char.toNat_inj.mp (hcode.symm.trans rfl))
  · rintro rfl
    have hcode := toNat_of_mem_utf8EncodeChar h (by decide)
    exact c.notBackslash (Char.toNat_inj.mp (hcode.symm.trans rfl))

end AiraGateway.JsonSyntax
