import AiraGateway.Library.JsonText

/-!
# Where the strings of a JSON text are

A scan of the characters of a text, told by whether it stands in a string (`scan`). Outside the
strings of a JSON text only ASCII characters stand, and a backslash is followed by one of a few.

* **What is read is scanned** (`scan_of_loads`): a text that states a value is scanned to its end,
  and ends outside a string.
* A character that is not ASCII stands in a string (`scan_before`), so what comes before it states
  no value, whatever is stripped off its ends (`scan_strip_ne`).
-/

namespace AiraGateway

/-- Where a scan stands. -/
inductive ScanAt
  | outside
  | inside
  | escape
  deriving DecidableEq

/-- A character that may stand outside a string. -/
def plainChar (c : Char) : Bool := (0x20 ≤ c.toNat && c.toNat < 0x7F) || isJsonSpace c

/-- A scan takes a character, where that may stand there. -/
def ScanAt.next : ScanAt → Char → Option ScanAt
  | outside, c => if c = '"' then some inside else if plainChar c then some outside else none
  | inside, c =>
    if c = '"' then some outside
    else if c = '\\' then some escape
    else if c.toNat < 0x20 then none
    else some inside
  | escape, c => if c = 'u' ∨ (readShort c).isSome then some inside else none

def scan (s : ScanAt) (t : Text) : Option ScanAt := t.foldlM ScanAt.next s

theorem scan_append (s : ScanAt) (t t' : Text) :
    scan s (t ++ t') = (scan s t).bind fun at_ => scan at_ t' := List.foldlM_append

theorem scan_cons (s : ScanAt) (c : Char) (t : Text) :
    scan s (c :: t) = (s.next c).bind fun at_ => scan at_ t := List.foldlM_cons

/-- What is read of a text, from one place of the scan to another, and what is left of it. -/
def Consumes (s s' : ScanAt) (t rest : Text) : Prop :=
  ∃ read, t = read ++ rest ∧ scan s read = some s'

namespace Consumes

theorem refl (s : ScanAt) (t : Text) : Consumes s s t t := ⟨[], rfl, rfl⟩

theorem trans {s s' s'' : ScanAt} {t t' t'' : Text} (h : Consumes s s' t t')
    (h' : Consumes s' s'' t' t'') : Consumes s s'' t t'' := by
  obtain ⟨read, rfl, hread⟩ := h
  obtain ⟨read', rfl, hread'⟩ := h'
  refine ⟨read ++ read', (List.append_assoc ..).symm, ?_⟩
  rw [scan_append, hread]
  exact hread'

theorem cons {s s' s'' : ScanAt} {c : Char} {t rest : Text} (hc : s.next c = some s')
    (h : Consumes s' s'' t rest) : Consumes s s'' (c :: t) rest := by
  obtain ⟨read, rfl, hread⟩ := h
  refine ⟨c :: read, rfl, ?_⟩
  rw [scan_cons, hc]
  exact hread

end Consumes

/-! ### Tokens -/

theorem next_of_plain {c : Char} (hc : plainChar c = true) (hquote : c ≠ '"') :
    ScanAt.outside.next c = some .outside := by
  rw [ScanAt.next, if_neg hquote, if_pos hc]

/-- Plain characters are read outside a string. -/
theorem scan_plain {read : Text} (h : ∀ c ∈ read, plainChar c = true ∧ c ≠ '"') :
    scan .outside read = some .outside := by
  induction read with
  | nil => rfl
  | cons c read ih =>
    rw [List.forall_mem_cons] at h
    rw [scan_cons, next_of_plain h.1.1 h.1.2]
    exact ih h.2

theorem plain_of_isJsonSpace {c : Char} (hc : isJsonSpace c = true) :
    plainChar c = true ∧ c ≠ '"' := by
  refine ⟨by rw [plainChar, hc, Bool.or_true], ?_⟩
  rintro rfl
  exact absurd hc (by decide)

theorem plain_of_isDigit {c : Char} (hc : c.isDigit = true) : plainChar c = true ∧ c ≠ '"' := by
  have hbounds : 48 ≤ c.toNat ∧ c.toNat ≤ 57 := Char.isDigit_iff_toNat.mp hc
  refine ⟨?_, ?_⟩
  · have hlow : (0x20 ≤ c.toNat && c.toNat < 0x7F) = true := by
      simp only [Bool.and_eq_true, decide_eq_true_eq]
      omega
    rw [plainChar, hlow, Bool.true_or]
  · rintro rfl
    exact absurd hc (by decide)

theorem consumes_plain {read rest : Text} (h : ∀ c ∈ read, plainChar c = true ∧ c ≠ '"') :
    Consumes .outside .outside (read ++ rest) rest := ⟨read, rfl, scan_plain h⟩

theorem consumes_skipSpace (t : Text) : Consumes .outside .outside t (skipSpace t) := by
  refine ⟨t.takeWhile isJsonSpace, List.takeWhile_append_dropWhile.symm, scan_plain fun c hc => ?_⟩
  exact plain_of_isJsonSpace (List.mem_takeWhile_imp hc)

theorem hexValue_inside {c : Char} {n : ℕ} (h : hexValue c = some n) :
    ScanAt.inside.next c = some .inside := by
  have hbounds : 48 ≤ c.toNat ∧ c.toNat ≤ 57 ∨ 65 ≤ c.toNat ∧ c.toNat ≤ 70 ∨
      97 ≤ c.toNat ∧ c.toNat ≤ 102 := by
    rw [hexValue] at h
    split_ifs at h with hdigit hlower hupper
    · exact .inl hdigit
    · exact .inr (.inr hlower)
    · exact .inr (.inl hupper)
  have hquote : c ≠ '"' := by
    rintro rfl
    exact absurd hbounds (by decide)
  have hslash : c ≠ '\\' := by
    rintro rfl
    exact absurd hbounds (by decide)
  rw [ScanAt.next, if_neg hquote, if_neg hslash, if_neg (by omega)]

theorem consumes_readHex4 {t rest : Text} {n : ℕ} (h : readHex4 t = some (n, rest)) :
    Consumes .inside .inside t rest := by
  rw [readHex4.eq_def] at h
  split at h
  · next a b c d rest' =>
    obtain ⟨a', ha, h⟩ := Option.bind_eq_some_iff.mp h
    obtain ⟨b', hb, h⟩ := Option.bind_eq_some_iff.mp h
    obtain ⟨c', hc, h⟩ := Option.bind_eq_some_iff.mp h
    obtain ⟨d', hd, h⟩ := Option.bind_eq_some_iff.mp h
    obtain ⟨-, rfl⟩ := Prod.ext_iff.mp (Option.some.inj h)
    exact .cons (hexValue_inside ha) (.cons (hexValue_inside hb)
      (.cons (hexValue_inside hc) (.cons (hexValue_inside hd) (.refl _ _))))
  · exact absurd h.symm (Option.some_ne_none _)

/-- A backslash and the letter of an escape. -/
theorem Consumes.escaped {e : Char} {t rest : Text} (he : ScanAt.escape.next e = some .inside)
    (h : Consumes .inside .inside t rest) : Consumes .inside .inside ('\\' :: e :: t) rest :=
  .cons rfl (.cons he h)

theorem consumes_readLow {high : ℕ} {t rest : Text} {c : Char}
    (h : readLow high t = some (c, rest)) : Consumes .inside .inside t rest := by
  rw [readLow.eq_def] at h
  split at h
  · obtain ⟨⟨low, rest'⟩, hlow, h⟩ := Option.bind_eq_some_iff.mp h
    simp only at h
    split_ifs at h
    obtain ⟨-, rfl⟩ := Prod.ext_iff.mp (Option.some.inj h)
    exact .escaped rfl (consumes_readHex4 hlow)
  · exact absurd h.symm (Option.some_ne_none _)

theorem consumes_readUnit {t rest : Text} {c : Char} (h : readUnit t = some (c, rest)) :
    Consumes .inside .inside t rest := by
  obtain ⟨⟨unit, rest'⟩, hunit, h⟩ := Option.bind_eq_some_iff.mp h
  have hfirst := consumes_readHex4 hunit
  simp only at h
  split_ifs at h
  · exact hfirst.trans (consumes_readLow h)
  · obtain ⟨-, rfl⟩ := Prod.ext_iff.mp (Option.some.inj h)
    exact hfirst

theorem consumes_readChar {t rest : Text} {c : Char} (hquote : ∀ tail, t ≠ '"' :: tail)
    (h : readChar t = some (c, rest)) : Consumes .inside .inside t rest := by
  cases t with
  | nil => exact absurd h.symm (Option.some_ne_none _)
  | cons d tail =>
    have hd : d ≠ '"' := by
      rintro rfl
      exact hquote tail rfl
    rw [readChar.eq_def] at h
    simp only at h
    split_ifs at h with hslash hcontrol
    · subst hslash
      cases tail with
      | nil => exact absurd h.symm (Option.some_ne_none _)
      | cons e tail =>
        simp only at h
        split_ifs at h with hu
        · exact .escaped (by rw [ScanAt.next, if_pos (.inl hu)]) (consumes_readUnit h)
        · obtain ⟨short, hshort, h⟩ := Option.map_eq_some_iff.mp h
          obtain ⟨-, rfl⟩ := Prod.ext_iff.mp h
          have hletter : (readShort e).isSome := by rw [hshort]; rfl
          exact .escaped (by rw [ScanAt.next, if_pos (.inr hletter)]) (.refl _ _)
    · obtain ⟨-, rfl⟩ := Prod.ext_iff.mp (Option.some.inj h)
      refine .cons ?_ (.refl _ _)
      rw [ScanAt.next, if_neg hd, if_neg hslash, if_neg hcontrol]

/-- A string is read from its opening quote to behind its closing one. -/
theorem consumes_readString {n : ℕ} {t rest read : Text} (h : readString n t = some (read, rest)) :
    Consumes .inside .outside t rest := by
  induction n generalizing t read with
  | zero => exact absurd h.symm (Option.some_ne_none _)
  | succ n ih =>
    cases t with
    | nil => exact absurd h.symm (Option.some_ne_none _)
    | cons c tail =>
      rw [readString] at h
      split_ifs at h with hquote
      · obtain ⟨-, rfl⟩ := Prod.ext_iff.mp (Option.some.inj h)
        subst hquote
        exact .cons rfl (.refl _ _)
      · obtain ⟨⟨d, tail'⟩, hchar, h⟩ := Option.bind_eq_some_iff.mp h
        obtain ⟨⟨read', rest'⟩, hread, h⟩ := Option.bind_eq_some_iff.mp h
        obtain ⟨-, rfl⟩ := Prod.ext_iff.mp (Option.some.inj h)
        refine (consumes_readChar (fun _ heq => hquote (List.cons.inj heq).1) hchar).trans ?_
        exact ih hread

/-! ### Numbers and words -/

theorem consumes_digits (t : Text) : Consumes .outside .outside t (t.dropWhile Char.isDigit) := by
  refine ⟨t.takeWhile Char.isDigit, List.takeWhile_append_dropWhile.symm,
    scan_plain fun c hc => ?_⟩
  exact plain_of_isDigit (List.mem_takeWhile_imp hc)

theorem consumes_readSign (t : Text) : Consumes .outside .outside t (readSign t).2 := by
  rw [readSign.eq_def]
  split
  · exact .cons rfl (.refl _ _)
  · exact .refl _ _

theorem consumes_readWhole {t whole rest : Text} (h : readWhole t = some (whole, rest)) :
    Consumes .outside .outside t rest := by
  cases t with
  | nil => exact absurd h.symm (Option.some_ne_none _)
  | cons c tail =>
    rw [readWhole] at h
    split_ifs at h with hzero hdigit
    · obtain ⟨-, rfl⟩ := Prod.ext_iff.mp (Option.some.inj h)
      subst hzero
      exact .cons rfl (.refl _ _)
    · obtain ⟨-, rfl⟩ := Prod.ext_iff.mp (Option.some.inj h)
      obtain ⟨hplain, hquote⟩ := plain_of_isDigit hdigit
      exact .cons (next_of_plain hplain hquote) (consumes_digits tail)

theorem consumes_readFraction (t : Text) : Consumes .outside .outside t (readFraction t).2 := by
  rw [readFraction.eq_def]
  split
  · split_ifs
    · exact .refl _ _
    · exact .cons rfl (consumes_digits _)
  · exact .refl _ _

theorem consumes_readExponentSign (t : Text) :
    Consumes .outside .outside t (readExponentSign t).2 := by
  rw [readExponentSign.eq_def]
  split
  · exact .cons rfl (.refl _ _)
  · exact .cons rfl (.refl _ _)
  · exact .refl _ _

theorem consumes_readExponent (t : Text) : Consumes .outside .outside t (readExponent t).2 := by
  cases t with
  | nil => exact .refl _ _
  | cons e tail =>
    rw [readExponent]
    split_ifs with he
    · simp only
      split_ifs
      · exact .refl _ _
      · have hmark : ScanAt.outside.next e = some .outside := by
          obtain rfl | rfl := he
          · rfl
          · rfl
        exact .cons hmark ((consumes_readExponentSign tail).trans (consumes_digits _))
    · exact .refl _ _

theorem consumes_readNumber {t rest : Text} {v : Json} (h : readNumber t = some (v, rest)) :
    Consumes .outside .outside t rest := by
  obtain ⟨⟨whole, t'⟩, hwhole, h⟩ := Option.bind_eq_some_iff.mp h
  have hread := (((consumes_readSign t).trans (consumes_readWhole hwhole)).trans
    (consumes_readFraction t')).trans (consumes_readExponent _)
  have hrest : (readExponent (readFraction t').2).2 = rest := by
    simp only at h
    split_ifs at h <;> exact (Prod.mk.inj (Option.some.inj h)).2
  rw [← hrest]
  exact hread

theorem consumes_readWord {t rest : Text} {v : Json} (h : readWord t = some (v, rest)) :
    Consumes .outside .outside t rest := by
  obtain ⟨word, hword, h⟩ := Option.map_eq_some_iff.mp h
  have hstarts : word.1.isPrefixOf t = true := by simpa using List.find?_some hword
  obtain ⟨back, rfl⟩ := List.isPrefixOf_iff_prefix.mp hstarts
  have hall : (jsonWords.all fun word => word.1.all fun c => plainChar c && c != '"') = true := by
    decide +kernel
  have hplain : ∀ word ∈ jsonWords, ∀ c ∈ word.1, plainChar c = true ∧ c ≠ '"' := by
    simpa only [List.all_eq_true, Bool.and_eq_true, bne_iff_ne] using hall
  rw [← (Prod.mk.inj h).2, List.drop_left]
  exact consumes_plain (hplain word (List.mem_of_find?_eq_some hword))

/-! ### Values -/

mutual

theorem consumes_readValue {n : ℕ} {t rest : Text} {v : Json} (h : readValue n t = some (v, rest)) :
    Consumes .outside .outside t rest := by
  cases n with
  | zero => exact absurd h.symm (Option.some_ne_none _)
  | succ n =>
    cases t with
    | nil => exact absurd h.symm (Option.some_ne_none _)
    | cons c tail =>
      rw [readValue] at h
      split_ifs at h with hquote hbracket hbrace
      · subst hquote
        obtain ⟨⟨read, rest'⟩, hread, h⟩ := Option.map_eq_some_iff.mp h
        rw [← (Prod.mk.inj h).2]
        exact .cons rfl (consumes_readString hread)
      · subst hbracket
        split at h
        · next rest' hspace =>
          rw [← (Prod.mk.inj (Option.some.inj h)).2]
          refine .cons rfl ((consumes_skipSpace tail).trans ?_)
          rw [hspace]
          exact .cons rfl (.refl _ _)
        · obtain ⟨⟨items, rest'⟩, hitems, h⟩ := Option.map_eq_some_iff.mp h
          rw [← (Prod.mk.inj h).2]
          exact .cons rfl ((consumes_skipSpace tail).trans (consumes_readItems hitems))
      · subst hbrace
        split at h
        · next rest' hspace =>
          rw [← (Prod.mk.inj (Option.some.inj h)).2]
          refine .cons rfl ((consumes_skipSpace tail).trans ?_)
          rw [hspace]
          exact .cons rfl (.refl _ _)
        · obtain ⟨⟨members, rest'⟩, hmembers, h⟩ := Option.map_eq_some_iff.mp h
          rw [← (Prod.mk.inj h).2]
          exact .cons rfl ((consumes_skipSpace tail).trans (consumes_readMembers hmembers))
      · cases hnumber : readNumber (c :: tail) with
        | some read =>
          rw [hnumber] at h
          rw [Option.some.inj h] at hnumber
          exact consumes_readNumber hnumber
        | none =>
          rw [hnumber] at h
          exact consumes_readWord h

theorem consumes_readItems {n : ℕ} {t rest : Text} {items : List Json}
    (h : readItems n t = some (items, rest)) : Consumes .outside .outside t rest := by
  cases n with
  | zero => exact absurd h.symm (Option.some_ne_none _)
  | succ n =>
    obtain ⟨⟨item, t'⟩, hitem, h⟩ := Option.bind_eq_some_iff.mp h
    have hread := (consumes_readValue hitem).trans (consumes_skipSpace t')
    simp only at h
    split at h
    · next rest' hspace =>
      rw [← (Prod.mk.inj (Option.some.inj h)).2]
      rw [hspace] at hread
      exact hread.trans (.cons rfl (.refl _ _))
    · next rest' hspace =>
      obtain ⟨⟨others, rest''⟩, hothers, h⟩ := Option.bind_eq_some_iff.mp h
      rw [← (Prod.mk.inj (Option.some.inj h)).2]
      rw [hspace] at hread
      exact hread.trans (.cons rfl ((consumes_skipSpace rest').trans (consumes_readItems hothers)))
    · exact absurd h.symm (Option.some_ne_none _)

theorem consumes_readMembers {n : ℕ} {t rest : Text} {members : List (Text × Json)}
    (h : readMembers n t = some (members, rest)) : Consumes .outside .outside t rest := by
  cases n with
  | zero => exact absurd h.symm (Option.some_ne_none _)
  | succ n =>
    cases t with
    | nil => exact absurd h.symm (Option.some_ne_none _)
    | cons c t =>
      by_cases hc : c = '"'
      · subst hc
        obtain ⟨⟨name, t₁⟩, hname, h⟩ := Option.bind_eq_some_iff.mp h
        have hread := (consumes_readString hname).trans (consumes_skipSpace t₁)
        simp only at h
        split at h
        · next t₂ hcolon =>
          rw [hcolon] at hread
          obtain ⟨⟨value, t₃⟩, hvalue, h⟩ := Option.bind_eq_some_iff.mp h
          have hread := hread.trans (.cons rfl ((consumes_skipSpace t₂).trans
            ((consumes_readValue hvalue).trans (consumes_skipSpace t₃))))
          simp only at h
          split at h
          · next rest' hspace =>
            rw [← (Prod.mk.inj (Option.some.inj h)).2]
            rw [hspace] at hread
            exact .cons rfl (hread.trans (.cons rfl (.refl _ _)))
          · next rest' hspace =>
            obtain ⟨⟨others, rest''⟩, hothers, h⟩ := Option.bind_eq_some_iff.mp h
            rw [← (Prod.mk.inj (Option.some.inj h)).2]
            rw [hspace] at hread
            exact .cons rfl (hread.trans (.cons rfl ((consumes_skipSpace rest').trans
              (consumes_readMembers hothers))))
          · exact absurd h.symm (Option.some_ne_none _)
        · exact absurd h.symm (Option.some_ne_none _)
      · rw [readMembers.eq_3] at h
        · exact absurd h.symm (Option.some_ne_none _)
        · exact fun hzero => absurd hzero (Nat.succ_ne_zero n)
        · exact fun _ _ _ heq => hc (List.cons.inj heq).1

end

/-- **What is read is scanned**: a text that states a value ends outside a string. -/
theorem scan_of_loads {t : Text} {v : Json} (h : Json.loads t = some v) :
    scan .outside t = some .outside := by
  obtain ⟨⟨value, rest⟩, hvalue, h⟩ := Option.bind_eq_some_iff.mp h
  simp only at h
  split_ifs at h with hrest
  have hread := ((consumes_skipSpace t).trans (consumes_readValue hvalue)).trans
    (consumes_skipSpace rest)
  rw [hrest] at hread
  obtain ⟨read, rfl, hscan⟩ := hread
  rwa [List.append_nil]

/-! ### Characters that stand in strings only -/

/-- What follows a backslash is a letter, a quote or a slash. -/
theorem plain_of_escape {c : Char} (h : c = 'u' ∨ (readShort c).isSome) : plainChar c = true := by
  obtain rfl | h := h
  · decide
  · rw [readShort] at h
    split_ifs at h with h₁ h₂ h₃ h₄ h₅ h₆ h₇ h₈
    · exact h₁ ▸ rfl
    · exact h₂ ▸ rfl
    · exact h₃ ▸ rfl
    · exact h₄ ▸ rfl
    · exact h₅ ▸ rfl
    · exact h₆ ▸ rfl
    · exact h₇ ▸ rfl
    · exact h₈ ▸ rfl
    · exact absurd h Bool.false_ne_true

/-- A character that may stand nowhere but in a string has a string around it. -/
theorem scan_before {front back : Text} {c : Char} {s' : ScanAt} (hc : plainChar c = false)
    (h : scan .outside (front ++ c :: back) = some s') : scan .outside front = some .inside := by
  rw [scan_append] at h
  obtain ⟨s, hs, h⟩ := Option.bind_eq_some_iff.mp h
  rw [scan_cons] at h
  obtain ⟨s'', hnext, -⟩ := Option.bind_eq_some_iff.mp h
  cases s with
  | inside => exact hs
  | outside =>
    rw [ScanAt.next] at hnext
    split_ifs at hnext with hquote hplain
    · rw [hquote] at hc
      exact absurd hc (by decide)
    · rw [hc] at hplain
      exact absurd hplain Bool.false_ne_true
  | escape =>
    rw [ScanAt.next] at hnext
    split_ifs at hnext with hletter
    rw [plain_of_escape hletter] at hc
    exact absurd hc.symm Bool.false_ne_true

/-- A control character is a blank between tokens. -/
theorem isJsonSpace_of_control {front back : Text} {c : Char} {s' : ScanAt}
    (hc : c.toNat < 0x20) (h : scan .outside (front ++ c :: back) = some s') :
    isJsonSpace c = true := by
  have hplain : plainChar c = true → isJsonSpace c = true := by
    intro hplain
    rw [plainChar, Bool.or_eq_true, Bool.and_eq_true, decide_eq_true_eq] at hplain
    exact hplain.resolve_left fun hvisible => absurd hvisible.1 (by omega)
  by_contra hspace
  have hother : plainChar c = false := (Bool.not_eq_true _).mp fun hc => hspace (hplain hc)
  have hinside := scan_before hother h
  rw [scan_append, hinside] at h
  obtain ⟨s, hnext, -⟩ := Option.bind_eq_some_iff.mp ((scan_cons _ _ _).symm.trans h)
  rw [ScanAt.next] at hnext
  split_ifs at hnext with hquote hslash
  · rw [hquote] at hc
    exact absurd hc (by decide)
  · rw [hslash] at hc
    exact absurd hc (by decide)

/-- Blanks outside a string leave the scan there, or are none that may stand there. -/
theorem scan_blank {t : Text} {s : ScanAt} (ht : blank t = true)
    (h : scan .outside t = some s) : s = .outside := by
  induction t with
  | nil => exact (Option.some.inj h).symm
  | cons c t ih =>
    rw [blank, List.all_cons, Bool.and_eq_true] at ht
    rw [scan_cons] at h
    obtain ⟨s', hnext, h⟩ := Option.bind_eq_some_iff.mp h
    have hquote : c ≠ '"' := by
      rintro rfl
      exact absurd ht.1 (by decide)
    rw [ScanAt.next, if_neg hquote] at hnext
    split_ifs at hnext
    obtain rfl := Option.some.inj hnext
    exact ih ht.2 h

/-- What ends in a string still does once its ends are stripped. -/
theorem scan_strip_ne {t : Text} (h : scan .outside t = some .inside) :
    scan .outside (strip t) ≠ some .outside := by
  intro hstrip
  obtain ⟨s, s', hs, hs', ht⟩ := strip_spec t
  rw [ht, scan_append] at h
  obtain ⟨first, hfirst, h⟩ := Option.bind_eq_some_iff.mp h
  obtain rfl := scan_blank hs hfirst
  rw [scan_append, hstrip] at h
  exact absurd (scan_blank hs' h) (by decide)

end AiraGateway
