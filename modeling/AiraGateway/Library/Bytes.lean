import AiraGateway.Library.Text

/-!
# Text as bytes, and bytes as text

UTF-8 in both directions, and Base64 with padding. Reading Base64 is strict about the alphabet and
the padding, as `base64.b64decode` is with `validate`, and says nothing about the bits a last
group leaves over.

* **Round trips**: `utf8Decode_utf8Encode`, `utf8Encode_of_utf8Decode` and `b64decode_b64encode`.
-/

namespace AiraGateway

/-! ### UTF-8 -/

def utf8Encode (t : Text) : List UInt8 := t.flatMap String.utf8EncodeChar

def utf8Decode (bytes : List UInt8) : Option Text :=
  bytes.toByteArray.utf8Decode?.map Array.toList

theorem utf8Decode_utf8Encode (t : Text) : utf8Decode (utf8Encode t) = some t := by
  have h : (utf8Encode t).toByteArray.utf8Decode? = some t.toArray := List.utf8Decode?_utf8Encode
  rw [utf8Decode, h, Option.map_some]

/-- What is read of bytes is written as those bytes. -/
theorem utf8Encode_of_utf8Decode {bytes : List UInt8} {t : Text}
    (h : utf8Decode bytes = some t) : utf8Encode t = bytes := by
  obtain ⟨chars, hchars, rfl⟩ := Option.map_eq_some_iff.mp h
  have hsome : bytes.toByteArray.utf8Decode?.isSome = true := by simp [hchars]
  have hget : bytes.toByteArray.utf8Decode?.get hsome = chars := by simp [hchars]
  have hencode : (bytes.toByteArray.utf8Decode?.get hsome).toList.utf8Encode = bytes.toByteArray :=
    ByteArray.utf8Encode_get_utf8Decode?
  rw [hget] at hencode
  have hdata := congrArg (·.data.toList) hencode
  rwa [List.utf8Encode, List.toList_data_toByteArray, List.toList_data_toByteArray] at hdata

/-! ### Base64 -/

/-- The character of a six-bit number. -/
def sixBits (n : ℕ) : Char :=
  if n < 26 then Char.ofNat (n + 65)
  else if n < 52 then Char.ofNat (n + 71)
  else if n < 62 then Char.ofNat (n - 4)
  else if n = 62 then '+'
  else '/'

def readSixBits (c : Char) : Option ℕ :=
  if 'A' ≤ c ∧ c ≤ 'Z' then some (c.toNat - 65)
  else if 'a' ≤ c ∧ c ≤ 'z' then some (c.toNat - 71)
  else if '0' ≤ c ∧ c ≤ '9' then some (c.toNat + 4)
  else if c = '+' then some 62
  else if c = '/' then some 63
  else none

/-- Three bytes are four characters; a shorter last group is padded. -/
def b64encode : List UInt8 → Text
  | [] => []
  | [a] => [sixBits (a.toNat / 4), sixBits (a.toNat % 4 * 16), '=', '=']
  | [a, b] =>
    [sixBits (a.toNat / 4), sixBits (a.toNat % 4 * 16 + b.toNat / 16),
      sixBits (b.toNat % 16 * 4), '=']
  | a :: b :: c :: rest =>
    sixBits (a.toNat / 4) :: sixBits (a.toNat % 4 * 16 + b.toNat / 16) ::
      sixBits (b.toNat % 16 * 4 + c.toNat / 64) :: sixBits (c.toNat % 64) :: b64encode rest

def b64decode : Text → Option (List UInt8)
  | [] => some []
  | [a, b, '=', '='] => do
    let a ← readSixBits a
    let b ← readSixBits b
    some [UInt8.ofNat (a * 4 + b / 16)]
  | [a, b, c, '='] => do
    let a ← readSixBits a
    let b ← readSixBits b
    let c ← readSixBits c
    some [UInt8.ofNat (a * 4 + b / 16), UInt8.ofNat (b % 16 * 16 + c / 4)]
  | a :: b :: c :: d :: rest => do
    let a ← readSixBits a
    let b ← readSixBits b
    let c ← readSixBits c
    let d ← readSixBits d
    let bytes ← b64decode rest
    some (UInt8.ofNat (a * 4 + b / 16) :: UInt8.ofNat (b % 16 * 16 + c / 4) ::
      UInt8.ofNat (c % 4 * 64 + d) :: bytes)
  | _ => none

private theorem readSixBits_sixBits : ∀ n < 64, readSixBits (sixBits n) = some n := by decide

private theorem sixBits_ne_pad : ∀ n < 64, sixBits n ≠ '=' := by decide

private theorem byte_eq {a : UInt8} {n : ℕ} (h : n = a.toNat) : UInt8.ofNat n = a := by
  rw [h, UInt8.ofNat_toNat]

/-- **Base64 round trip.** -/
theorem b64decode_b64encode (bytes : List UInt8) : b64decode (b64encode bytes) = some bytes := by
  induction bytes using b64encode.induct with
  | case1 => rfl
  | case2 a =>
    have ha := a.toNat_lt
    have h₁ := readSixBits_sixBits (a.toNat / 4) (by omega)
    have h₂ := readSixBits_sixBits (a.toNat % 4 * 16) (by omega)
    have hbyte : UInt8.ofNat (a.toNat / 4 * 4 + a.toNat % 4 * 16 / 16) = a := byte_eq (by omega)
    simp only [b64encode, b64decode, h₁, h₂, Option.bind_eq_bind, Option.bind_some, hbyte]
  | case3 a b =>
    have ha := a.toNat_lt
    have hb := b.toNat_lt
    have h₁ := readSixBits_sixBits (a.toNat / 4) (by omega)
    have h₂ := readSixBits_sixBits (a.toNat % 4 * 16 + b.toNat / 16) (by omega)
    have h₃ := readSixBits_sixBits (b.toNat % 16 * 4) (by omega)
    have hpad := sixBits_ne_pad (b.toNat % 16 * 4) (by omega)
    have hfirst : UInt8.ofNat (a.toNat / 4 * 4 + (a.toNat % 4 * 16 + b.toNat / 16) / 16) = a :=
      byte_eq (by omega)
    have hsecond : UInt8.ofNat ((a.toNat % 4 * 16 + b.toNat / 16) % 16 * 16 +
        b.toNat % 16 * 4 / 4) = b := byte_eq (by omega)
    rw [b64encode, b64decode]
    · simp only [h₁, h₂, h₃, Option.bind_eq_bind, Option.bind_some, hfirst, hsecond]
    · exact hpad
  | case4 a b c rest ih =>
    have ha := a.toNat_lt
    have hb := b.toNat_lt
    have hc := c.toNat_lt
    have h₁ := readSixBits_sixBits (a.toNat / 4) (by omega)
    have h₂ := readSixBits_sixBits (a.toNat % 4 * 16 + b.toNat / 16) (by omega)
    have h₃ := readSixBits_sixBits (b.toNat % 16 * 4 + c.toNat / 64) (by omega)
    have h₄ := readSixBits_sixBits (c.toNat % 64) (by omega)
    have hpad := sixBits_ne_pad (c.toNat % 64) (by omega)
    have hfirst : UInt8.ofNat (a.toNat / 4 * 4 + (a.toNat % 4 * 16 + b.toNat / 16) / 16) = a :=
      byte_eq (by omega)
    have hsecond : UInt8.ofNat ((a.toNat % 4 * 16 + b.toNat / 16) % 16 * 16 +
        (b.toNat % 16 * 4 + c.toNat / 64) / 4) = b := byte_eq (by omega)
    have hthird : UInt8.ofNat ((b.toNat % 16 * 4 + c.toNat / 64) % 4 * 64 + c.toNat % 64) = c :=
      byte_eq (by omega)
    rw [b64encode, b64decode]
    · simp only [h₁, h₂, h₃, h₄, ih, Option.bind_eq_bind, Option.bind_some, hfirst, hsecond,
        hthird]
    · exact fun _ h _ => hpad h
    · exact fun h _ => hpad h

end AiraGateway
