import AiraGateway.Library.JsonText

/-!
# What is written of a JSON value is read back

The proof follows the writer: a hexadecimal unit, a character, a string; the parts of a number;
then values, items and members together. A value is read back in front of any text that does not
go on with a number (`Stops`), so the reader's fuel is bounded by what is written and the members
around a value do not matter. It is one proof for every `Style` of writing: how a character is
escaped and what stands behind a comma and a colon (`loads_dumpsAs`).
-/

namespace AiraGateway

/-! ### Strings -/

private theorem hexValue_digitChar : ∀ d < 16, hexValue d.digitChar = some d := by decide

theorem readHex4_hex4 {n : ℕ} (h : n < 0x10000) (rest : Text) :
    readHex4 (hex4 n ++ rest) = some (n, rest) := by
  have hmod : ∀ m, hexValue (m % 16).digitChar = some (m % 16) :=
    fun m => hexValue_digitChar _ (Nat.mod_lt m (by decide))
  have hsum : 4096 * (n / 4096 % 16) + 256 * (n / 256 % 16) + 16 * (n / 16 % 16) + n % 16 = n := by
    omega
  simp [hex4, readHex4, hmod, hsum]

/-- A one-letter escape is read as its character. -/
private theorem shortEscape_spec {c letter : Char} (h : shortEscape c = some letter) :
    letter ≠ 'u' ∧ readShort letter = some c := by
  unfold shortEscape at h
  split_ifs at h <;> cases h <;> subst_vars <;> decide

private theorem ne_of_shortEscape_eq_none {c : Char} (h : shortEscape c = none) :
    c ≠ '"' ∧ c ≠ '\\' := by
  constructor <;> rintro rfl <;> exact absurd h (by decide)

private theorem readUnit_plain {n : ℕ} (h : n < 0xD800 ∨ 0xDFFF < n ∧ n < 0x10000) (rest : Text) :
    readUnit (hex4 n ++ rest) = some (Char.ofNat n, rest) := by
  have hread := readHex4_hex4 (show n < 0x10000 by omega) rest
  have hhigh : ¬(0xD800 ≤ n ∧ n < 0xDC00) := by omega
  have hlow : ¬(0xDC00 ≤ n ∧ n < 0xE000) := by omega
  simp only [readUnit, hread, Option.bind_eq_bind, Option.bind_some, if_neg hhigh, if_neg hlow]

private theorem readUnit_pair {n : ℕ} (h : n < 0x100000) (rest : Text) :
    readUnit (hex4 (0xD800 + n / 1024) ++ (escapedUnit (0xDC00 + n % 1024) ++ rest)) =
      some (Char.ofNat (0x10000 + n), rest) := by
  have hread := readHex4_hex4 (show 0xD800 + n / 1024 < 0x10000 by omega)
    (escapedUnit (0xDC00 + n % 1024) ++ rest)
  have hread' := readHex4_hex4 (show 0xDC00 + n % 1024 < 0x10000 by omega) rest
  have hhigh : 0xD800 ≤ 0xD800 + n / 1024 ∧ 0xD800 + n / 1024 < 0xDC00 := by omega
  have hlow : 0xDC00 ≤ 0xDC00 + n % 1024 ∧ 0xDC00 + n % 1024 < 0xE000 := by omega
  have hchar : 0x10000 + (0xD800 + n / 1024 - 0xD800) * 1024 + (0xDC00 + n % 1024 - 0xDC00)
      = 0x10000 + n := by omega
  simp only [readUnit, hread, Option.bind_eq_bind, Option.bind_some, if_pos hhigh]
  simp only [escapedUnit, List.cons_append, readLow, hread', Option.bind_eq_bind,
    Option.bind_some, if_pos hlow, hchar]

/-- **An escaped character is read as that character.** -/
theorem readChar_escaped (c : Char) (rest : Text) :
    readChar (escaped c ++ rest) = some (c, rest) := by
  have hvalid : c.toNat < 0xD800 ∨ 0xDFFF < c.toNat ∧ c.toNat < 0x110000 := c.valid
  unfold escaped
  cases hshort : shortEscape c with
  | some letter =>
    obtain ⟨hu, hread⟩ := shortEscape_spec hshort
    simp [readChar, hu, hread]
  | none =>
    obtain ⟨-, hslash⟩ := ne_of_shortEscape_eq_none hshort
    simp only
    split_ifs with hplain hunit
    · simp [readChar, hslash, show ¬c.toNat < 0x20 by omega]
    · have hread := readUnit_plain
        (show c.toNat < 0xD800 ∨ 0xDFFF < c.toNat ∧ c.toNat < 0x10000 by omega) rest
      rw [Char.ofNat_toNat] at hread
      simpa [readChar, escapedUnit] using hread
    · have hread := readUnit_pair (show c.toNat - 0x10000 < 0x100000 by omega) rest
      rw [show 0x10000 + (c.toNat - 0x10000) = c.toNat by omega, Char.ofNat_toNat] at hread
      simpa [readChar, escapedUnit] using hread

/-- A character that is escaped only where it must be is read as that character. -/
theorem readChar_escapedReadable (c : Char) (rest : Text) :
    readChar (escapedReadable c ++ rest) = some (c, rest) := by
  rw [escapedReadable]
  cases hshort : shortEscape c with
  | some letter =>
    obtain ⟨hu, hread⟩ := shortEscape_spec hshort
    simp [readChar, hu, hread]
  | none =>
    obtain ⟨-, hslash⟩ := ne_of_shortEscape_eq_none hshort
    simp only
    split_ifs with hcontrol
    · have hread := readUnit_plain (show c.toNat < 0xD800 ∨ 0xDFFF < c.toNat ∧ c.toNat < 0x10000 by
        omega) rest
      rw [Char.ofNat_toNat] at hread
      simpa [readChar, escapedUnit] using hread
    · simp [readChar, hslash, hcontrol]

/-- A way to write the characters of a string: each is read back, and none ends the string. -/
structure Escaping (escape : Char → Text) : Prop where
  read : ∀ c rest, readChar (escape c ++ rest) = some (c, rest)
  head : ∀ c, ∃ d rest, escape c = d :: rest ∧ d ≠ '"'

theorem escaping_escaped : Escaping escaped := by
  refine ⟨readChar_escaped, fun c => ?_⟩
  unfold escaped
  cases hshort : shortEscape c with
  | some letter => exact ⟨'\\', [letter], rfl, by decide⟩
  | none =>
    simp only
    split_ifs
    · exact ⟨c, [], rfl, (ne_of_shortEscape_eq_none hshort).1⟩
    · exact ⟨'\\', _, rfl, by decide⟩
    · exact ⟨'\\', _, rfl, by decide⟩

theorem escaping_escapedReadable : Escaping escapedReadable := by
  refine ⟨readChar_escapedReadable, fun c => ?_⟩
  rw [escapedReadable]
  cases hshort : shortEscape c with
  | some letter => exact ⟨'\\', [letter], rfl, by decide⟩
  | none =>
    simp only
    split_ifs
    · exact ⟨'\\', _, rfl, by decide⟩
    · exact ⟨c, [], rfl, (ne_of_shortEscape_eq_none hshort).1⟩

section Strings

variable {escape : Char → Text}

/-- **A written string is read as that string**, with one unit of fuel a character. -/
theorem Escaping.readString (h : Escaping escape) {t : Text} {n : ℕ} (hn : t.length < n)
    (rest : Text) :
    AiraGateway.readString n (t.flatMap escape ++ '"' :: rest) = some (t, rest) := by
  induction t generalizing n with
  | nil =>
    cases n with
    | zero => exact absurd hn (Nat.not_lt_zero _)
    | succ n => simp [AiraGateway.readString]
  | cons c t ih =>
    cases n with
    | zero => exact absurd hn (Nat.not_lt_zero _)
    | succ n =>
      obtain ⟨d, tail, hd, hne⟩ := h.head c
      have hread := h.read c (t.flatMap escape ++ '"' :: rest)
      rw [hd, List.cons_append] at hread
      have hrest := ih (show t.length < n by simpa using hn)
      rw [List.flatMap_cons, List.append_assoc, hd, List.cons_append, AiraGateway.readString,
        if_neg hne]
      simp only [hread, Option.bind_eq_bind, Option.bind_some, hrest]

theorem Escaping.length_le (h : Escaping escape) (t : Text) :
    t.length ≤ (t.flatMap escape).length := by
  induction t with
  | nil => exact Nat.le_refl _
  | cons c t ih =>
    obtain ⟨d, tail, hd, -⟩ := h.head c
    simp only [List.flatMap_cons, hd, List.length_cons, List.length_append]
    omega

/-- A quoted text is read as that text. -/
private theorem Escaping.readString_quoted (h : Escaping escape) {t rest : Text} {n : ℕ}
    (hn : ('"' :: (t.flatMap escape ++ ['"'])).length ≤ n + 1) :
    AiraGateway.readString n (t.flatMap escape ++ '"' :: rest) = some (t, rest) := by
  refine h.readString ?_ rest
  have hlen := h.length_le t
  simp only [List.length_cons, List.length_append, List.length_nil] at hn
  omega

end Strings

/-! ### Numbers -/

/-- What may follow a value: the end of the text, or of the array or object it stands in. -/
def Stops (rest : Text) : Prop :=
  rest = [] ∨ ∃ c tail, rest = c :: tail ∧ (c = ',' ∨ c = ']' ∨ c = '}')

/-- A text that does not go on with a digit. -/
private def NoDigit (rest : Text) : Prop := ∀ c ∈ rest.head?, c.isDigit = false

private def Digits (ds : Text) : Prop := ds ≠ [] ∧ ∀ c ∈ ds, c.isDigit = true

private def IsSign (sign : Text) : Prop := sign = [] ∨ sign = ['-']

private def IsWhole (whole : Text) : Prop :=
  whole = ['0'] ∨ ∃ c ds, whole = c :: ds ∧ c ≠ '0' ∧ Digits whole

private def IsFraction (fraction : Text) : Prop :=
  fraction = [] ∨ ∃ ds, fraction = '.' :: ds ∧ Digits ds

private def IsExponent (exponent : Text) : Prop :=
  exponent = [] ∨ ∃ e sign ds, exponent = e :: (sign ++ ds) ∧ (e = 'e' ∨ e = 'E') ∧
    (sign = [] ∨ sign = ['+'] ∨ sign = ['-']) ∧ Digits ds

/-- A text that states a number with a fraction or an exponent. -/
def FloatText (t : Text) : Prop :=
  ∃ sign whole fraction exponent, t = sign ++ (whole ++ (fraction ++ exponent)) ∧ IsSign sign ∧
    IsWhole whole ∧ IsFraction fraction ∧ IsExponent exponent ∧ ¬(fraction = [] ∧ exponent = [])

private theorem takeWhile_digits {ds rest : Text} (h : ∀ c ∈ ds, c.isDigit = true)
    (hrest : NoDigit rest) :
    (ds ++ rest).takeWhile Char.isDigit = ds ∧ (ds ++ rest).dropWhile Char.isDigit = rest := by
  rw [List.takeWhile_append_of_pos h, List.dropWhile_append_of_pos h]
  cases rest with
  | nil => simp
  | cons c tail => simp [hrest c rfl]

private theorem noDigit_nil : NoDigit [] := by simp [NoDigit]

private theorem noDigit_cons {c : Char} {rest : Text} (h : c.isDigit = false) :
    NoDigit (c :: rest) := by
  simpa [NoDigit] using h

theorem Stops.noDigit {rest : Text} (h : Stops rest) : NoDigit rest := by
  rcases h with rfl | ⟨c, tail, rfl, rfl | rfl | rfl⟩
  · exact noDigit_nil
  all_goals exact noDigit_cons (by decide)

private theorem Digits.head {c : Char} {ds : Text} (h : Digits (c :: ds)) : c.isDigit = true :=
  h.2 c List.mem_cons_self

private theorem ne_of_isDigit {c d : Char} (h : c.isDigit = true) (hd : d.isDigit = false) :
    c ≠ d := by
  rintro rfl
  rw [h] at hd
  exact absurd hd (by decide)

private theorem readSign_append {sign t : Text} (hsign : IsSign sign) (ht : t.head? ≠ some '-') :
    readSign (sign ++ t) = (sign, t) := by
  rcases hsign with rfl | rfl
  · cases t with
    | nil => rfl
    | cons c t =>
      have hc : c ≠ '-' := by simpa using ht
      simp [readSign, hc]
  · rfl

private theorem readWhole_append {whole t : Text} (hwhole : IsWhole whole) (ht : NoDigit t) :
    readWhole (whole ++ t) = some (whole, t) := by
  rcases hwhole with rfl | ⟨c, ds, rfl, hc, hdigits⟩
  · rfl
  · obtain ⟨htake, hdrop⟩ :=
      takeWhile_digits (fun d hd => hdigits.2 d (List.mem_cons_of_mem c hd)) ht
    simp only [List.cons_append, readWhole, if_neg hc, if_pos hdigits.head, htake, hdrop]

private theorem readFraction_append {fraction t : Text} (hfraction : IsFraction fraction)
    (hdot : t.head? ≠ some '.') (ht : NoDigit t) :
    readFraction (fraction ++ t) = (fraction, t) := by
  rcases hfraction with rfl | ⟨ds, rfl, hne, hdigits⟩
  · cases t with
    | nil => rfl
    | cons c t =>
      have hc : c ≠ '.' := by simpa using hdot
      simp [readFraction, hc]
  · obtain ⟨htake, hdrop⟩ := takeWhile_digits hdigits ht
    simp only [List.cons_append, readFraction, htake, if_neg hne, hdrop]

private theorem readExponentSign_append {sign ds t : Text}
    (hsign : sign = [] ∨ sign = ['+'] ∨ sign = ['-']) (hdigits : Digits ds) :
    readExponentSign (sign ++ (ds ++ t)) = (sign, ds ++ t) := by
  rcases hsign with rfl | rfl | rfl
  · cases ds with
    | nil => exact absurd rfl hdigits.1
    | cons c ds =>
      have hplus : c ≠ '+' := ne_of_isDigit hdigits.head (by decide)
      have hminus : c ≠ '-' := ne_of_isDigit hdigits.head (by decide)
      simp [readExponentSign, hplus, hminus]
  · rfl
  · rfl

private theorem readExponent_append {exponent t : Text} (hexponent : IsExponent exponent)
    (he : t.head? ≠ some 'e' ∧ t.head? ≠ some 'E') (ht : NoDigit t) :
    readExponent (exponent ++ t) = (exponent, t) := by
  rcases hexponent with rfl | ⟨e, sign, ds, rfl, hmark, hsign, hdigits⟩
  · cases t with
    | nil => rfl
    | cons c t =>
      have hc : ¬(c = 'e' ∨ c = 'E') := by simpa using he
      simp only [List.nil_append, readExponent, if_neg hc]
  · have hread := readExponentSign_append (t := t) hsign hdigits
    obtain ⟨htake, hdrop⟩ := takeWhile_digits hdigits.2 ht
    simp only [List.cons_append, List.append_assoc, readExponent, if_pos hmark, hread, htake,
      if_neg hdigits.1, hdrop]

private theorem IsExponent.noDigit {exponent rest : Text} (h : IsExponent exponent)
    (hrest : NoDigit rest) : NoDigit (exponent ++ rest) := by
  rcases h with rfl | ⟨e, sign, ds, rfl, rfl | rfl, -⟩
  · exact hrest
  all_goals exact noDigit_cons (by decide)

private theorem IsFraction.noDigit {fraction rest : Text} (h : IsFraction fraction)
    (hrest : NoDigit rest) : NoDigit (fraction ++ rest) := by
  rcases h with rfl | ⟨ds, rfl, -⟩
  · exact hrest
  · exact noDigit_cons (by decide)

private theorem IsWhole.head {whole : Text} (h : IsWhole whole) (rest : Text) :
    ∃ c, (whole ++ rest).head? = some c ∧ c.isDigit = true := by
  rcases h with rfl | ⟨c, ds, rfl, -, hdigits⟩
  · exact ⟨'0', rfl, by decide⟩
  · exact ⟨c, rfl, hdigits.head⟩

private theorem Stops.head_ne {rest : Text} (h : Stops rest) :
    rest.head? ≠ some '.' ∧ rest.head? ≠ some 'e' ∧ rest.head? ≠ some 'E' := by
  rcases h with rfl | ⟨c, tail, rfl, rfl | rfl | rfl⟩ <;> simp

/-- **The parts of a number are read as that number**, in front of anything that stops one. -/
private theorem readNumber_parts {sign whole fraction exponent rest : Text} (hsign : IsSign sign)
    (hwhole : IsWhole whole) (hfraction : IsFraction fraction) (hexponent : IsExponent exponent)
    (hrest : Stops rest) :
    readNumber (sign ++ (whole ++ (fraction ++ (exponent ++ rest)))) =
      if fraction = [] ∧ exponent = [] then
        some (.int (if sign = [] then Nat.ofDigitChars 10 whole 0
          else -Nat.ofDigitChars 10 whole 0), rest)
      else some (.float (sign ++ (whole ++ (fraction ++ exponent))), rest) := by
  obtain ⟨c, hc, hdigit⟩ := hwhole.head (fraction ++ (exponent ++ rest))
  have hminus : (whole ++ (fraction ++ (exponent ++ rest))).head? ≠ some '-' := by
    rw [hc]
    exact fun h => ne_of_isDigit hdigit (by decide) (Option.some.inj h)
  have hdot : (exponent ++ rest).head? ≠ some '.' := by
    rcases hexponent with rfl | ⟨e, s, ds, rfl, rfl | rfl, -⟩
    · exact hrest.head_ne.1
    all_goals simp
  have hexp := hexponent.noDigit hrest.noDigit
  simp only [readNumber, readSign_append hsign hminus,
    readWhole_append hwhole (hfraction.noDigit hexp), Option.bind_eq_bind, Option.bind_some,
    readFraction_append hfraction hdot hexp, readExponent_append hexponent hrest.head_ne.2
      hrest.noDigit]

private theorem isWhole_toDigits (n : ℕ) : IsWhole (Nat.toDigits 10 n) := by
  have hdigits : Digits (Nat.toDigits 10 n) :=
    ⟨Nat.toDigits_ne_nil, fun c hc => Nat.isDigit_of_mem_toDigits (by decide) (by decide) hc⟩
  rcases Nat.eq_zero_or_pos n with rfl | hpos
  · exact .inl (Nat.toDigits_zero 10)
  · right
    -- the first digit, by strong induction on the number
    have hhead : ∀ m, 0 < m → ∃ c ds, Nat.toDigits 10 m = c :: ds ∧ c ≠ '0' := by
      intro m
      induction m using Nat.strongRecOn with
      | ind m ih =>
        intro hm
        rcases Nat.lt_or_ge m 10 with hlt | hge
        · refine ⟨m.digitChar, [], Nat.toDigits_of_lt_base hlt, ?_⟩
          rw [Ne, Nat.digitChar_eq_zero]
          omega
        · obtain ⟨c, ds, hds, hc⟩ := ih (m / 10) (by omega) (by omega)
          exact ⟨c, ds ++ [(m % 10).digitChar],
            by rw [Nat.toDigits_of_base_le (by decide) hge, hds, List.cons_append], hc⟩
    obtain ⟨c, ds, hds, hc⟩ := hhead n hpos
    exact ⟨c, ds, hds, hc, hdigits⟩

theorem readNumber_intText (n : ℤ) {rest : Text} (hrest : Stops rest) :
    readNumber (intText n ++ rest) = some (.int n, rest) := by
  cases n with
  | ofNat n =>
    have h := readNumber_parts (.inl rfl) (isWhole_toDigits n) (.inl rfl) (.inl rfl) hrest
    simpa [intText, Nat.ofDigitChars_ten_toDigits] using h
  | negSucc n =>
    have h := readNumber_parts (.inr rfl) (isWhole_toDigits (n + 1)) (.inl rfl) (.inl rfl) hrest
    simpa [intText, Nat.ofDigitChars_ten_toDigits, Int.negSucc_eq] using h

theorem readNumber_float {t rest : Text} (ht : FloatText t) (hrest : Stops rest) :
    readNumber (t ++ rest) = some (.float t, rest) := by
  obtain ⟨sign, whole, fraction, exponent, rfl, hsign, hwhole, hfraction, hexponent, hne⟩ := ht
  have h := readNumber_parts hsign hwhole hfraction hexponent hrest
  rw [if_neg hne] at h
  simpa using h

/-- A number starts with a sign or a digit. -/
private theorem readNumber_head {t rest : Text} {v : Json}
    (h : readNumber t = some (v, rest)) :
    ∃ c tail, t = c :: tail ∧ (c = '-' ∨ c.isDigit = true) := by
  cases t with
  | nil => exact absurd h (by simp [readNumber, readSign, readWhole])
  | cons c tail =>
    refine ⟨c, tail, rfl, ?_⟩
    by_contra hne
    obtain ⟨hminus, hdigit⟩ := not_or.mp hne
    have hsign : readSign (c :: tail) = ([], c :: tail) := by simp [readSign, hminus]
    have hzero : c ≠ '0' := by
      rintro rfl
      exact hdigit (by decide)
    simp [readNumber, hsign, readWhole, hzero, hdigit] at h

/-! ### Values -/

namespace Json

mutual

/-- No object states a name twice and every number with a fraction or an exponent is a text that
states one, at every depth. -/
def Valid : Json → Prop
  | float t => FloatText t
  | arr items => ValidItems items
  | obj members => (members.map (·.1)).Nodup ∧ ValidMembers members
  | _ => True

def ValidItems : List Json → Prop
  | [] => True
  | item :: rest => item.Valid ∧ ValidItems rest

def ValidMembers : List (Text × Json) → Prop
  | [] => True
  | (_, value) :: rest => value.Valid ∧ ValidMembers rest

end

/-- Where reading a number succeeds, reading a value is reading the number. -/
private theorem readValue_number {t rest : Text} {v : Json} {n : ℕ}
    (h : readNumber t = some (v, rest)) : readValue (n + 1) t = some (v, rest) := by
  obtain ⟨c, tail, rfl, hc⟩ := readNumber_head h
  have hne : c ≠ '"' ∧ c ≠ '[' ∧ c ≠ '{' := by
    rcases hc with rfl | hdigit
    · decide
    · exact ⟨ne_of_isDigit hdigit (by decide), ne_of_isDigit hdigit (by decide),
        ne_of_isDigit hdigit (by decide)⟩
  rw [readValue, if_neg hne.1, if_neg hne.2.1, if_neg hne.2.2, h]
  rfl

/-! ### Styles -/

/-- How a value is written: what becomes of a character, and the spaces behind commas and colons. -/
structure Style where
  escape : Char → Text
  gap : Text
  escaping : Escaping escape
  gap_space : ∀ c ∈ gap, isJsonSpace c = true

/-- No spaces, only ASCII. -/
def compact : Style := ⟨escaped, [], escaping_escaped, by simp⟩

/-- A space behind each comma and colon, characters as they are. -/
def readable : Style :=
  ⟨escapedReadable, [' '], escaping_escapedReadable, by simp [isJsonSpace]⟩

def Style.quote (style : Style) (t : Text) : Text := '"' :: (t.flatMap style.escape ++ ['"'])

mutual

/-- A value as text in a style. -/
def dumpsAs (style : Style) : Json → Text
  | null => "null"
  | bool true => "true"
  | bool false => "false"
  | int n => intText n
  | float t => t
  | str t => style.quote t
  | arr items => '[' :: (dumpsItemsAs style items ++ [']'])
  | obj members => '{' :: (dumpsMembersAs style members ++ ['}'])

def dumpsItemsAs (style : Style) : List Json → Text
  | [] => []
  | [item] => dumpsAs style item
  | item :: next :: rest =>
    dumpsAs style item ++ ',' :: (style.gap ++ dumpsItemsAs style (next :: rest))

def dumpsMembersAs (style : Style) : List (Text × Json) → Text
  | [] => []
  | [(name, value)] => style.quote name ++ ':' :: (style.gap ++ dumpsAs style value)
  | (name, value) :: next :: rest =>
    style.quote name ++ ':' :: (style.gap ++
      (dumpsAs style value ++ ',' :: (style.gap ++ dumpsMembersAs style (next :: rest))))

end

mutual

theorem dumpsAs_compact : (v : Json) → dumpsAs compact v = dumps v
  | .null | .int _ | .float _ | .str _ => rfl
  | .bool true | .bool false => rfl
  | .arr items => by rw [dumpsAs, dumps, dumpsItemsAs_compact]
  | .obj members => by rw [dumpsAs, dumps, dumpsMembersAs_compact]

theorem dumpsItemsAs_compact : (items : List Json) → dumpsItemsAs compact items = dumpsItems items
  | [] => rfl
  | [item] => dumpsAs_compact item
  | item :: next :: rest => by
    rw [dumpsItemsAs, dumpsItems, dumpsAs_compact, dumpsItemsAs_compact]
    rfl

theorem dumpsMembersAs_compact :
    (members : List (Text × Json)) → dumpsMembersAs compact members = dumpsMembers members
  | [] => rfl
  | [(name, value)] => by
    rw [dumpsMembersAs, dumpsMembers, dumpsAs_compact]
    rfl
  | (name, value) :: next :: rest => by
    rw [dumpsMembersAs, dumpsMembers, dumpsAs_compact, dumpsMembersAs_compact]
    rfl

end

mutual

theorem dumpsAs_readable : (v : Json) → dumpsAs readable v = dumpsReadable v
  | .null | .int _ | .float _ | .str _ => rfl
  | .bool true | .bool false => rfl
  | .arr items => by rw [dumpsAs, dumpsReadable, dumpsItemsAs_readable]
  | .obj members => by rw [dumpsAs, dumpsReadable, dumpsMembersAs_readable]

theorem dumpsItemsAs_readable :
    (items : List Json) → dumpsItemsAs readable items = dumpsReadableItems items
  | [] => rfl
  | [item] => dumpsAs_readable item
  | item :: next :: rest => by
    rw [dumpsItemsAs, dumpsReadableItems, dumpsAs_readable, dumpsItemsAs_readable]
    rfl

theorem dumpsMembersAs_readable :
    (members : List (Text × Json)) → dumpsMembersAs readable members = dumpsReadableMembers members
  | [] => rfl
  | [(name, value)] => by
    rw [dumpsMembersAs, dumpsReadableMembers, dumpsAs_readable]
    rfl
  | (name, value) :: next :: rest => by
    rw [dumpsMembersAs, dumpsReadableMembers, dumpsAs_readable, dumpsMembersAs_readable]
    rfl

end

variable (style : Style)

/-- What is written of a value starts with a character that ends nothing and is no space. -/
private theorem dumps_head {v : Json} (hv : v.Valid) :
    ∃ c tail, dumpsAs style v = c :: tail ∧ isJsonSpace c = false ∧ c ≠ ']' := by
  have hnumber : ∀ t v', readNumber t = some (v', []) →
      ∃ c tail, t = c :: tail ∧ isJsonSpace c = false ∧ c ≠ ']' := by
    intro t v' h
    obtain ⟨c, tail, rfl, hc⟩ := readNumber_head h
    refine ⟨c, tail, rfl, ?_⟩
    rcases hc with rfl | hdigit
    · decide
    · refine ⟨?_, ne_of_isDigit hdigit (by decide)⟩
      simp only [isJsonSpace, Bool.or_eq_false_iff, decide_eq_false_iff_not]
      exact ⟨⟨⟨ne_of_isDigit hdigit (by decide), ne_of_isDigit hdigit (by decide)⟩,
        ne_of_isDigit hdigit (by decide)⟩, ne_of_isDigit hdigit (by decide)⟩
  cases v with
  | null => exact ⟨'n', _, rfl, by decide⟩
  | bool b => cases b <;> exact ⟨_, _, rfl, by decide⟩
  | int n =>
    have h : readNumber (intText n ++ []) = some (.int n, []) := readNumber_intText n (.inl rfl)
    rw [List.append_nil] at h
    exact hnumber _ _ h
  | float t =>
    have h : readNumber (t ++ []) = some (.float t, []) := readNumber_float hv (.inl rfl)
    rw [List.append_nil] at h
    exact hnumber _ _ h
  | str t => exact ⟨'"', _, rfl, by decide⟩
  | arr items => exact ⟨'[', _, rfl, by decide⟩
  | obj members => exact ⟨'{', _, rfl, by decide⟩

private theorem skipSpace_of_head {t tail : Text} {c : Char} (ht : t = c :: tail)
    (hc : isJsonSpace c = false) (rest : Text) : skipSpace (t ++ rest) = t ++ rest := by
  rw [ht, List.cons_append, skipSpace, List.dropWhile_cons_of_neg (by simp [hc])]

private theorem skipSpace_dumps {v : Json} (hv : v.Valid) (rest : Text) :
    skipSpace (dumpsAs style v ++ rest) = dumpsAs style v ++ rest := by
  obtain ⟨c, tail, ht, hc, -⟩ := dumps_head style hv
  exact skipSpace_of_head ht hc rest

private theorem skipSpace_cons {c : Char} {rest : Text} (hc : isJsonSpace c = false) :
    skipSpace (c :: rest) = c :: rest := by
  rw [skipSpace, List.dropWhile_cons_of_neg (by simp [hc])]

/-- An object whose names differ is the dictionary of its members. -/
theorem dictOf_of_nodup {members : List (Text × Json)} (h : (members.map (·.1)).Nodup) :
    dictOf members = members := by
  have happend : ∀ (rest dict : List (Text × Json)), ((dict ++ rest).map (·.1)).Nodup →
      rest.foldl (fun dict member => dictSet dict member.1 member.2) dict = dict ++ rest := by
    intro rest
    induction rest with
    | nil => simp
    | cons member rest ih =>
      intro dict hdict
      have hfresh : Fresh dict member.1 := by
        intro other hother heq
        rw [List.map_append, List.map_cons, List.nodup_append] at hdict
        exact hdict.2.2 other.1 (List.mem_map_of_mem hother) member.1 List.mem_cons_self heq
      rw [List.foldl_cons, dictSet_of_fresh hfresh, ih _ (by simpa using hdict)]
      simp
  exact happend members [] h

/-- Reading a value takes fuel: its text is not empty. -/
private theorem exists_fuel {v : Json} (hv : v.Valid) {n : ℕ}
    (hn : (dumpsAs style v).length ≤ n) : ∃ m, n = m + 1 := by
  obtain ⟨c, tail, ht, -⟩ := dumps_head style hv
  rw [ht, List.length_cons] at hn
  exact ⟨n - 1, by omega⟩

private theorem dumpsItems_head {items : List Json} (hne : items ≠ []) (hv : ValidItems items) :
    ∃ c tail, dumpsItemsAs style items = c :: tail ∧ isJsonSpace c = false ∧ c ≠ ']' := by
  match items, hne, hv with
  | [item], _, hv => exact dumps_head style hv.1
  | item :: next :: rest, _, hv =>
    obtain ⟨c, tail, ht, hc⟩ := dumps_head style hv.1
    exact ⟨c, _, by rw [dumpsItemsAs, ht, List.cons_append], hc⟩

private theorem dumpsMembers_head {members : List (Text × Json)} (hne : members ≠ []) :
    ∃ tail, dumpsMembersAs style members = '"' :: tail := by
  match members, hne with
  | [(name, value)], _ => exact ⟨_, rfl⟩
  | (name, value) :: next :: rest, _ => exact ⟨_, rfl⟩

/-- The gaps of a style are skipped. -/
private theorem skipSpace_gap (t : Text) : skipSpace (style.gap ++ t) = skipSpace t := by
  have hgap : ∀ gap : Text, (∀ c ∈ gap, isJsonSpace c = true) →
      skipSpace (gap ++ t) = skipSpace t := by
    intro gap
    induction gap with
    | nil => exact fun _ => rfl
    | cons c gap ih =>
      intro h
      rw [List.forall_mem_cons] at h
      rw [List.cons_append, skipSpace, List.dropWhile_cons_of_pos h.1]
      exact ih h.2
  exact hgap style.gap style.gap_space

private theorem readValue_arr {items : List Json} {n : ℕ} {rest : Text} (hv : ValidItems items)
    (hread : items ≠ [] →
      readItems n (dumpsItemsAs style items ++ ']' :: rest) = some (items, rest)) :
    readValue (n + 1) (dumpsAs style (.arr items) ++ rest) = some (.arr items, rest) := by
  have htext : dumpsAs style (.arr items) ++ rest =
      '[' :: (dumpsItemsAs style items ++ ']' :: rest) := by
    simp [dumpsAs]
  rw [htext, readValue, if_neg (by decide), if_pos rfl]
  by_cases hne : items = []
  · subst hne
    rfl
  · obtain ⟨c, tail, ht, hc, hend⟩ := dumpsItems_head style hne hv
    have h := hread hne
    rw [skipSpace_of_head ht hc]
    split
    · rename_i heq
      rw [ht, List.cons_append, List.cons.injEq] at heq
      exact absurd heq.1 hend
    · simp only [h, Option.map_some]

private theorem readValue_obj {members : List (Text × Json)} {n : ℕ} {rest : Text}
    (hnodup : (members.map (·.1)).Nodup)
    (hread : members ≠ [] →
      readMembers n (dumpsMembersAs style members ++ '}' :: rest) = some (members, rest)) :
    readValue (n + 1) (dumpsAs style (.obj members) ++ rest) = some (.obj members, rest) := by
  have htext : dumpsAs style (.obj members) ++ rest =
      '{' :: (dumpsMembersAs style members ++ '}' :: rest) := by
    simp [dumpsAs]
  rw [htext, readValue, if_neg (by decide), if_neg (by decide), if_pos rfl]
  by_cases hne : members = []
  · subst hne
    rfl
  · obtain ⟨tail, ht⟩ := dumpsMembers_head style hne
    have h := hread hne
    rw [skipSpace_of_head ht (by decide)]
    split
    · rename_i heq
      rw [ht, List.cons_append, List.cons.injEq] at heq
      exact absurd heq.1 (by decide)
    · simp only [h, Option.map_some, dictOf_of_nodup hnodup]

private theorem quote_append (name t : Text) :
    style.quote name ++ t = '"' :: (name.flatMap style.escape ++ '"' :: t) := by
  simp [Style.quote]

section Members

variable {name : Text} {value : Json} {n : ℕ} (hname : (style.quote name).length ≤ n + 1)
  (hv : value.Valid)

include hname hv

/-- A name, its colon and its value are read where the object ends behind them. -/
private theorem readMembers_last {rest : Text}
    (hvalue : readValue n (dumpsAs style value ++ '}' :: rest) = some (value, '}' :: rest)) :
    readMembers (n + 1)
        (style.quote name ++ ':' :: (style.gap ++ (dumpsAs style value ++ '}' :: rest))) =
      some ([(name, value)], rest) := by
  have hcolon : ∀ t, skipSpace (':' :: t) = ':' :: t := fun _ => skipSpace_cons (by decide)
  have hend : skipSpace ('}' :: rest) = '}' :: rest := skipSpace_cons (by decide)
  rw [quote_append, readMembers, style.escaping.readString_quoted hname]
  simp only [Option.bind_eq_bind, Option.bind_some, hcolon, skipSpace_gap, skipSpace_dumps style hv,
    hvalue, hend]

/-- And where another member follows, it is read in front of that. -/
private theorem readMembers_next {t rest : Text} {members : List (Text × Json)}
    (hvalue : readValue n (dumpsAs style value ++ ',' :: t) = some (value, ',' :: t))
    (hmembers : readMembers n (skipSpace t) = some (members, rest)) :
    readMembers (n + 1)
        (style.quote name ++ ':' :: (style.gap ++ (dumpsAs style value ++ ',' :: t))) =
      some ((name, value) :: members, rest) := by
  have hcolon : ∀ t, skipSpace (':' :: t) = ':' :: t := fun _ => skipSpace_cons (by decide)
  have hcomma : skipSpace (',' :: t) = ',' :: t := skipSpace_cons (by decide)
  rw [quote_append, readMembers, style.escaping.readString_quoted hname]
  simp only [Option.bind_eq_bind, Option.bind_some, hcolon, skipSpace_gap, skipSpace_dumps style hv,
    hvalue, hcomma, hmembers]

end Members

mutual

/-- **A written value is read back**, in front of whatever stops it. -/
theorem readValue_dumpsAs : (v : Json) → v.Valid → ∀ (rest : Text) {n : ℕ},
    (dumpsAs style v).length ≤ n → Stops rest →
      readValue n (dumpsAs style v ++ rest) = some (v, rest)
  | .null, hv, rest, n, hn, _ => by
    obtain ⟨m, rfl⟩ := exists_fuel style hv hn
    rfl
  | .bool b, hv, rest, n, hn, _ => by
    obtain ⟨m, rfl⟩ := exists_fuel style hv hn
    cases b <;> rfl
  | .int k, hv, rest, n, hn, hrest => by
    obtain ⟨m, rfl⟩ := exists_fuel style hv hn
    exact readValue_number (readNumber_intText k hrest)
  | .float t, hv, rest, n, hn, hrest => by
    obtain ⟨m, rfl⟩ := exists_fuel style hv hn
    exact readValue_number (readNumber_float hv hrest)
  | .str t, hv, rest, n, hn, _ => by
    obtain ⟨m, rfl⟩ := exists_fuel style hv hn
    have hread : readString m (t.flatMap style.escape ++ '"' :: rest) = some (t, rest) :=
      style.escaping.readString_quoted hn
    simp [dumpsAs, Style.quote, readValue, hread]
  | .arr items, hv, rest, n, hn, _ => by
    obtain ⟨m, rfl⟩ := exists_fuel style hv hn
    simp only [dumpsAs, List.length_cons, List.length_append, List.length_nil] at hn
    exact readValue_arr style hv fun hne => readItems_dumpsAs items hne hv rest (by omega)
  | .obj members, hv, rest, n, hn, _ => by
    obtain ⟨m, rfl⟩ := exists_fuel style hv hn
    simp only [dumpsAs, List.length_cons, List.length_append, List.length_nil] at hn
    exact readValue_obj style hv.1 fun hne => readMembers_dumpsAs members hne hv.2 rest (by omega)

/-- The items of an array, up to the bracket that closes it. -/
theorem readItems_dumpsAs : (items : List Json) → items ≠ [] → ValidItems items →
    ∀ (rest : Text) {n : ℕ}, (dumpsItemsAs style items).length + 1 ≤ n →
      readItems n (dumpsItemsAs style items ++ ']' :: rest) = some (items, rest)
  | [], h, _, _, _, _ => absurd rfl h
  | [item], _, hv, rest, n, hn => by
    obtain ⟨m, rfl⟩ : ∃ m, n = m + 1 := ⟨n - 1, by omega⟩
    simp only [dumpsItemsAs] at hn ⊢
    have hread := readValue_dumpsAs item hv.1 (']' :: rest) (n := m) (by omega)
      (.inr ⟨']', rest, rfl, by decide⟩)
    simp [readItems, hread, skipSpace_cons (show isJsonSpace ']' = false by decide)]
  | item :: next :: items, _, hv, rest, n, hn => by
    obtain ⟨m, rfl⟩ : ∃ m, n = m + 1 := ⟨n - 1, by omega⟩
    simp only [dumpsItemsAs, List.length_append, List.length_cons] at hn
    have hread := readValue_dumpsAs item hv.1
      (',' :: (style.gap ++ (dumpsItemsAs style (next :: items) ++ ']' :: rest))) (n := m)
      (by omega) (.inr ⟨',', _, rfl, by decide⟩)
    have hrest := readItems_dumpsAs (next :: items) (by simp) hv.2 rest (n := m)
      (by obtain ⟨k, hk⟩ := exists_fuel style hv.1 (Nat.le_refl _); omega)
    obtain ⟨c, tail, ht, hc, -⟩ := dumpsItems_head style (by simp) hv.2
    have hskip := skipSpace_of_head ht hc (']' :: rest)
    simp [dumpsItemsAs, readItems, hread, skipSpace_cons (show isJsonSpace ',' = false by decide),
      skipSpace_gap, hskip, hrest]

/-- The members of an object, up to the brace that closes it. -/
theorem readMembers_dumpsAs : (members : List (Text × Json)) → members ≠ [] →
    ValidMembers members → ∀ (rest : Text) {n : ℕ}, (dumpsMembersAs style members).length + 1 ≤ n →
      readMembers n (dumpsMembersAs style members ++ '}' :: rest) = some (members, rest)
  | [], h, _, _, _, _ => absurd rfl h
  | [(name, value)], _, hv, rest, n, hn => by
    obtain ⟨m, rfl⟩ : ∃ m, n = m + 1 := ⟨n - 1, by omega⟩
    simp only [dumpsMembersAs, List.length_append, List.length_cons] at hn
    have hread := readValue_dumpsAs value hv.1 ('}' :: rest) (n := m) (by omega)
      (.inr ⟨'}', rest, rfl, by decide⟩)
    have hlast := readMembers_last style (show (style.quote name).length ≤ m + 1 by omega) hv.1
      hread
    simpa [dumpsMembersAs] using hlast
  | (name, value) :: next :: members, _, hv, rest, n, hn => by
    obtain ⟨m, rfl⟩ : ∃ m, n = m + 1 := ⟨n - 1, by omega⟩
    simp only [dumpsMembersAs, List.length_append, List.length_cons] at hn
    have hread := readValue_dumpsAs value hv.1
      (',' :: (style.gap ++ (dumpsMembersAs style (next :: members) ++ '}' :: rest))) (n := m)
      (by omega) (.inr ⟨',', _, rfl, by decide⟩)
    have hrest := readMembers_dumpsAs (next :: members) (by simp) hv.2 rest (n := m)
      (by omega)
    obtain ⟨tail, ht⟩ := dumpsMembers_head style (List.cons_ne_nil next members)
    have hskip := skipSpace_of_head ht (by decide) ('}' :: rest)
    rw [← hskip, ← skipSpace_gap style] at hrest
    have hnext := readMembers_next style (show (style.quote name).length ≤ m + 1 by omega) hv.1
      hread hrest
    simpa [dumpsMembersAs] using hnext

end

theorem loads_dumpsAs {v : Json} (hv : v.Valid) : loads (dumpsAs style v) = some v := by
  have hread := readValue_dumpsAs style v hv [] (Nat.le_succ (dumpsAs style v).length) (.inl rfl)
  have hskip := skipSpace_dumps style hv []
  rw [List.append_nil] at hread hskip
  rw [loads, hskip, hread]
  rfl

/-- **Round trip**: what is written of a valid value is read as that value. -/
theorem loads_dumps {v : Json} (hv : v.Valid) : loads (dumps v) = some v := by
  rw [← dumpsAs_compact]
  exact loads_dumpsAs compact hv

/-- **Round trip** with the default separators. -/
theorem loads_dumpsReadable {v : Json} (hv : v.Valid) : loads (dumpsReadable v) = some v := by
  rw [← dumpsAs_readable]
  exact loads_dumpsAs readable hv

end Json

end AiraGateway
