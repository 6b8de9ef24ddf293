import AiraGateway.Library.Json

/-!
# JSON as text

`Json.dumps` writes a value with no spaces and only ASCII characters, as `json.dumps` does with
compact separators: a character outside the printable ASCII ones is an escape, and one beyond the
sixteen-bit range a pair of them. `Json.dumpsReadable` writes it with the default separators and
`ensure_ascii` off. `Json.loads` reads a text the way `json.loads` does: spaces between tokens, a
number's longest reading, `NaN` and the infinities, and of an object's equal names the last value
in the first one's place. A text is a list of characters, so the escape of half a surrogate pair
names none and is not read.

* **Round trip** (`Json.loads_dumps`): what is written of a valid value is read as that value.
  A value is valid when no object states a name twice and each number with a fraction or an
  exponent is kept as a text that states one (`Json.Valid`).
-/

namespace AiraGateway

/-! ### Writing -/

/-- Four hexadecimal digits of a sixteen-bit number. -/
def hex4 (n : ℕ) : Text :=
  [(n / 4096 % 16).digitChar, (n / 256 % 16).digitChar, (n / 16 % 16).digitChar,
    (n % 16).digitChar]

def escapedUnit (n : ℕ) : Text := '\\' :: 'u' :: hex4 n

/-- The escapes that are one letter. -/
def shortEscape (c : Char) : Option Char :=
  if c = '"' then some '"'
  else if c = '\\' then some '\\'
  else if c = '\n' then some 'n'
  else if c = '\r' then some 'r'
  else if c = '\t' then some 't'
  else if c = '\x0c' then some 'f'
  else if c = '\x08' then some 'b'
  else none

/-- A character inside a JSON string. -/
def escaped (c : Char) : Text :=
  match shortEscape c with
  | some letter => ['\\', letter]
  | none =>
    if 0x20 ≤ c.toNat ∧ c.toNat ≤ 0x7E then [c]
    else if c.toNat < 0x10000 then escapedUnit c.toNat
    else
      escapedUnit (0xD800 + (c.toNat - 0x10000) / 1024) ++
        escapedUnit (0xDC00 + (c.toNat - 0x10000) % 1024)

def quoted (t : Text) : Text := '"' :: (t.flatMap escaped ++ ['"'])

/-- A whole number in decimal. -/
def intText : ℤ → Text
  | .ofNat n => Nat.toDigits 10 n
  | .negSucc n => '-' :: Nat.toDigits 10 (n + 1)

namespace Json

mutual

/-- A value as text, compact and in ASCII. -/
def dumps : Json → Text
  | null => "null"
  | bool true => "true"
  | bool false => "false"
  | int n => intText n
  | float t => t
  | str t => quoted t
  | arr items => '[' :: (dumpsItems items ++ [']'])
  | obj members => '{' :: (dumpsMembers members ++ ['}'])

def dumpsItems : List Json → Text
  | [] => []
  | [item] => dumps item
  | item :: next :: rest => dumps item ++ ',' :: dumpsItems (next :: rest)

def dumpsMembers : List (Text × Json) → Text
  | [] => []
  | [(name, value)] => quoted name ++ ':' :: dumps value
  | (name, value) :: next :: rest =>
    quoted name ++ ':' :: (dumps value ++ ',' :: dumpsMembers (next :: rest))

end

end Json

/-- A character inside a string that is not kept to ASCII: only what must be is escaped. -/
def escapedReadable (c : Char) : Text :=
  match shortEscape c with
  | some letter => ['\\', letter]
  | none => if c.toNat < 0x20 then escapedUnit c.toNat else [c]

def quotedReadable (t : Text) : Text := '"' :: (t.flatMap escapedReadable ++ ['"'])

namespace Json

mutual

/-- A value as text with a space behind each comma and colon, characters as they are. -/
def dumpsReadable : Json → Text
  | null => "null"
  | bool true => "true"
  | bool false => "false"
  | int n => intText n
  | float t => t
  | str t => quotedReadable t
  | arr items => '[' :: (dumpsReadableItems items ++ [']'])
  | obj members => '{' :: (dumpsReadableMembers members ++ ['}'])

def dumpsReadableItems : List Json → Text
  | [] => []
  | [item] => dumpsReadable item
  | item :: next :: rest => dumpsReadable item ++ ',' :: ' ' :: dumpsReadableItems (next :: rest)

def dumpsReadableMembers : List (Text × Json) → Text
  | [] => []
  | [(name, value)] => quotedReadable name ++ ':' :: ' ' :: dumpsReadable value
  | (name, value) :: next :: rest =>
    quotedReadable name ++
      ':' :: ' ' :: (dumpsReadable value ++ ',' :: ' ' :: dumpsReadableMembers (next :: rest))

end

end Json

/-! ### Reading -/

/-- What a JSON text may have between its tokens. -/
def isJsonSpace (c : Char) : Bool := c = ' ' || c = '\t' || c = '\n' || c = '\r'

def skipSpace (t : Text) : Text := t.dropWhile isJsonSpace

def hexValue (c : Char) : Option ℕ :=
  if '0' ≤ c ∧ c ≤ '9' then some (c.toNat - 48)
  else if 'a' ≤ c ∧ c ≤ 'f' then some (c.toNat - 87)
  else if 'A' ≤ c ∧ c ≤ 'F' then some (c.toNat - 55)
  else none

def readHex4 : Text → Option (ℕ × Text)
  | a :: b :: c :: d :: rest => do
    let a ← hexValue a
    let b ← hexValue b
    let c ← hexValue c
    let d ← hexValue d
    some (4096 * a + 256 * b + 16 * c + d, rest)
  | _ => none

/-- The characters a one-letter escape names. -/
def readShort (c : Char) : Option Char :=
  if c = '"' then some '"'
  else if c = '\\' then some '\\'
  else if c = '/' then some '/'
  else if c = 'b' then some '\x08'
  else if c = 'f' then some '\x0c'
  else if c = 'n' then some '\n'
  else if c = 'r' then some '\r'
  else if c = 't' then some '\t'
  else none

/-- What follows the first half of a surrogate pair: the second. -/
def readLow (high : ℕ) : Text → Option (Char × Text)
  | '\\' :: 'u' :: rest => do
    let (low, rest) ← readHex4 rest
    if 0xDC00 ≤ low ∧ low < 0xE000 then
      some (Char.ofNat (0x10000 + (high - 0xD800) * 1024 + (low - 0xDC00)), rest)
    else none
  | _ => none

def readUnit (t : Text) : Option (Char × Text) := do
  let (unit, rest) ← readHex4 t
  if 0xD800 ≤ unit ∧ unit < 0xDC00 then readLow unit rest
  else if 0xDC00 ≤ unit ∧ unit < 0xE000 then none
  else some (Char.ofNat unit, rest)

/-- One character of a string, escaped or as it stands. -/
def readChar : Text → Option (Char × Text)
  | [] => none
  | c :: rest =>
    if c = '\\' then
      match rest with
      | [] => none
      | e :: rest => if e = 'u' then readUnit rest else (readShort e).map (·, rest)
    else if c.toNat < 0x20 then none
    else some (c, rest)

/-- A string after its opening quote. -/
def readString : ℕ → Text → Option (Text × Text)
  | 0, _ => none
  | _, [] => none
  | n + 1, c :: rest =>
    if c = '"' then some ([], rest)
    else do
      let (d, rest) ← readChar (c :: rest)
      let (t, rest) ← readString n rest
      some (d :: t, rest)

def readSign : Text → Text × Text
  | '-' :: rest => (['-'], rest)
  | t => ([], t)

/-- The whole part of a number: zero, or digits that do not start with it. -/
def readWhole : Text → Option (Text × Text)
  | [] => none
  | c :: rest =>
    if c = '0' then some (['0'], rest)
    else if c.isDigit then
      some (c :: rest.takeWhile Char.isDigit, rest.dropWhile Char.isDigit)
    else none

def readFraction : Text → Text × Text
  | '.' :: rest =>
    if rest.takeWhile Char.isDigit = [] then ([], '.' :: rest)
    else ('.' :: rest.takeWhile Char.isDigit, rest.dropWhile Char.isDigit)
  | t => ([], t)

def readExponentSign : Text → Text × Text
  | '+' :: rest => (['+'], rest)
  | '-' :: rest => (['-'], rest)
  | t => ([], t)

def readExponent : Text → Text × Text
  | [] => ([], [])
  | e :: rest =>
    if e = 'e' ∨ e = 'E' then
      let (sign, digits) := readExponentSign rest
      if digits.takeWhile Char.isDigit = [] then ([], e :: rest)
      else (e :: (sign ++ digits.takeWhile Char.isDigit), digits.dropWhile Char.isDigit)
    else ([], e :: rest)

/-- The longest number a text starts with. -/
def readNumber (t : Text) : Option (Json × Text) := do
  let (sign, t) := readSign t
  let (whole, t) ← readWhole t
  let (fraction, t) := readFraction t
  let (exponent, t) := readExponent t
  if fraction = [] ∧ exponent = [] then
    let n := Nat.ofDigitChars 10 whole 0
    some (.int (if sign = [] then n else -n), t)
  else some (.float (sign ++ (whole ++ (fraction ++ exponent))), t)

/-- The words that are values. -/
def jsonWords : List (Text × Json) :=
  [("null", .null), ("true", .bool true), ("false", .bool false), ("NaN", .float "NaN"),
    ("Infinity", .float "Infinity"), ("-Infinity", .float "-Infinity")]

def readWord (t : Text) : Option (Json × Text) :=
  (jsonWords.find? fun word => word.1.isPrefixOf t).map fun word =>
    (word.2, t.drop word.1.length)

/-- An object's members, one value a name: the last one, in the first one's place. -/
def dictOf (members : List (Text × Json)) : List (Text × Json) :=
  members.foldl (fun dict member => dictSet dict member.1 member.2) []

mutual

def readValue : ℕ → Text → Option (Json × Text)
  | 0, _ => none
  | _, [] => none
  | n + 1, c :: rest =>
    if c = '"' then (readString n rest).map fun (t, rest) => (.str t, rest)
    else if c = '[' then
      match skipSpace rest with
      | ']' :: rest => some (.arr [], rest)
      | rest => (readItems n rest).map fun (items, rest) => (.arr items, rest)
    else if c = '{' then
      match skipSpace rest with
      | '}' :: rest => some (.obj [], rest)
      | rest => (readMembers n rest).map fun (members, rest) => (.obj (dictOf members), rest)
    else readNumber (c :: rest) <|> readWord (c :: rest)

/-- An array's items after its bracket, and the bracket that closes it. -/
def readItems : ℕ → Text → Option (List Json × Text)
  | 0, _ => none
  | n + 1, t => do
    let (item, t) ← readValue n t
    match skipSpace t with
    | ']' :: rest => some ([item], rest)
    | ',' :: rest => do
      let (items, rest) ← readItems n (skipSpace rest)
      some (item :: items, rest)
    | _ => none

/-- An object's members after its brace, and the brace that closes it. -/
def readMembers : ℕ → Text → Option (List (Text × Json) × Text)
  | 0, _ => none
  | n + 1, '"' :: t => do
    let (name, t) ← readString n t
    match skipSpace t with
    | ':' :: t => do
      let (value, t) ← readValue n (skipSpace t)
      match skipSpace t with
      | '}' :: rest => some ([(name, value)], rest)
      | ',' :: rest => do
        let (members, rest) ← readMembers n (skipSpace rest)
        some ((name, value) :: members, rest)
      | _ => none
    | _ => none
  | _, _ => none

end

namespace Json

/-- The value a text states, if it states one. -/
def loads (t : Text) : Option Json := do
  let (value, rest) ← readValue (t.length + 1) (skipSpace t)
  if skipSpace rest = [] then some value else none

example : loads "\x7b\"a\": [1, -2.50e3, \"\\u00e9\\ud83d\\ude00\"], \"a\": null\x7d " =
    some (.obj [("a", .null)]) := by decide +kernel

end Json

end AiraGateway
