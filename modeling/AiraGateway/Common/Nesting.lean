import AiraGateway.Library.JsonSyntax
import Mathlib.Algebra.BigOperators.Group.List.Basic
import Mathlib.Algebra.Order.Ring.Int
import Mathlib.Data.List.Flatten

/-!
# How deeply a body nests and how many values it holds

Both are bounded before anything parses a body, in one scan of its bytes: escapes are removed, then
every byte but quotes, brackets and commas, and what is left is read a window at a time, carrying
whether the next window starts inside a string (`exceeded`).

* `fullScan_eq`: for any bytes and any window, the scan answers from the brackets and commas outside
  strings.
* `exceeded_document`: for a JSON document these are its own, so the bounds are exact.
-/

namespace AiraGateway.Nesting

open JsonSyntax

/-! ### The scan -/

inductive Exceeded
  | depth
  | values
  deriving DecidableEq

/-- `bytes.replace` of a pair of bytes by nothing: from the left, none overlapping. -/
def removePairs (first second : UInt8) : List UInt8 → List UInt8
  | a :: b :: rest =>
    if a = first ∧ b = second then removePairs first second rest
    else a :: removePairs first second (b :: rest)
  | rest => rest

/-- `bytes.split`. -/
def splitAt (separator : UInt8) : List UInt8 → List (List UInt8)
  | [] => [[]]
  | b :: rest =>
    if b = separator then [] :: splitAt separator rest
    else
      match splitAt separator rest with
      | [] => [[b]]
      | segment :: more => (b :: segment) :: more

/-- Every other segment, from the first or from the second: `segments[skip::2]`. -/
def everyOther (skip : Bool) : List (List UInt8) → List (List UInt8)
  | [] => []
  | segment :: rest =>
    if skip then everyOther false rest else segment :: everyOther true rest

/-- The running sums of steps. -/
def accumulate (total : ℤ) : List ℤ → List ℤ
  | [] => []
  | step :: rest => (total + step) :: accumulate (total + step) rest

/-- A bracket's step. -/
def stepOf (b : UInt8) : Option ℤ :=
  if b ∈ ['{'.toUInt8, '['.toUInt8] then some 1
  else if b ∈ ['}'.toUInt8, ']'.toUInt8] then some (-1)
  else none

/-- The bytes the scan reads once the escapes are gone. -/
def readByte (b : UInt8) : Bool :=
  b ∈ ['"'.toUInt8, ','.toUInt8, '{'.toUInt8, '['.toUInt8, '}'.toUInt8, ']'.toUInt8]

def scannedBytes (raw : List UInt8) : List UInt8 :=
  (removePairs '\\'.toUInt8 '"'.toUInt8 (removePairs '\\'.toUInt8 '\\'.toUInt8 raw)).filter readByte

/-- What is carried from window to window. -/
structure Scan where
  level : ℤ := 0
  held : ℕ := 1
  inString : Bool := false
  counted : Bool := false

/-- One window; nothing where it goes past the depth. -/
def Scan.window (depth : ℤ) (s : Scan) (window : List UInt8) : Option Scan :=
  let segments := splitAt '"'.toUInt8 window
  let outside := (everyOther s.inString segments).flatten
  let steps := outside.filterMap stepOf
  let next := { s with
    inString := s.inString ^^ (segments.length % 2 = 0)
    held := s.held + outside.count ','.toUInt8 }
  match (accumulate 0 steps).max? with
  | none => some next
  | some top =>
    if depth < s.level + top then none
    else
      some { next with
        counted := true
        level := s.level + (2 * (steps.count 1 : ℤ) - steps.length)
        held := next.held + steps.count 1 }

/-- The windows of a scan: `range(0, len(scanned), window)`. -/
def windows (window : ℕ) (scanned : List UInt8) : List (List UInt8) :=
  (List.range ((scanned.length + window - 1) / window)).map fun i =>
    (scanned.drop (i * window)).take window

def fullScan (window : ℕ) (raw : List UInt8) (depth values : ℤ) : Option Exceeded :=
  match (windows window (scannedBytes raw)).foldlM (Scan.window depth) {} with
  | none => some .depth
  | some s =>
    if s.counted = false ∧ depth < 0 then some .depth
    else if values < s.held then some .values
    else none

/-- Which bound a body breaks. -/
def exceeded (window : ℕ) (raw : List UInt8) (depth values : ℤ) : Option Exceeded :=
  let brackets : ℤ := raw.count '{'.toUInt8 + raw.count '['.toUInt8
  if brackets ≤ depth ∧ ((raw.length : ℤ) < values ∨ brackets + raw.count ','.toUInt8 < values) then
    none
  else fullScan window raw depth values

/-! ### What is outside strings -/

/-- The bytes outside strings, from a place inside one or not. -/
def outside : Bool → List UInt8 → List UInt8
  | _, [] => []
  | inString, b :: rest =>
    if b = '"'.toUInt8 then outside (!inString) rest
    else if inString then outside inString rest
    else b :: outside inString rest

/-- Whether the bytes end inside a string. -/
def endsInside : Bool → List UInt8 → Bool
  | inString, [] => inString
  | inString, b :: rest =>
    if b = '"'.toUInt8 then endsInside (!inString) rest else endsInside inString rest

theorem outside_append (inString : Bool) (a b : List UInt8) :
    outside inString (a ++ b) = outside inString a ++ outside (endsInside inString a) b := by
  induction a generalizing inString with
  | nil => rfl
  | cons byte rest ih =>
    rw [List.cons_append, outside, outside, endsInside]
    split
    · exact ih _
    · split
      · exact ih _
      · rw [ih, List.cons_append]

theorem endsInside_append (inString : Bool) (a b : List UInt8) :
    endsInside inString (a ++ b) = endsInside (endsInside inString a) b := by
  induction a generalizing inString with
  | nil => rfl
  | cons byte rest ih =>
    rw [List.cons_append, endsInside, endsInside]
    split
    · exact ih _
    · exact ih _

theorem splitAt_ne_nil (separator : UInt8) (l : List UInt8) : splitAt separator l ≠ [] := by
  cases l with
  | nil => exact List.cons_ne_nil _ _
  | cons b rest =>
    rw [splitAt]
    split
    · exact List.cons_ne_nil _ _
    · split
      · exact List.cons_ne_nil _ _
      · exact List.cons_ne_nil _ _

/-- Every other segment is what is outside strings. -/
theorem flatten_everyOther (inString : Bool) (l : List UInt8) :
    (everyOther inString (splitAt '"'.toUInt8 l)).flatten = outside inString l := by
  induction l generalizing inString with
  | nil => cases inString <;> rfl
  | cons b rest ih =>
    rw [splitAt, outside]
    split
    · cases inString with
      | false => exact ih true
      | true => exact ih false
    · cases hsegments : splitAt '"'.toUInt8 rest with
      | nil => exact absurd hsegments (splitAt_ne_nil _ _)
      | cons segment more =>
        rw [hsegments] at ih
        cases inString with
        | false =>
          have hsame := ih false
          rw [everyOther] at hsame ⊢
          simp only [Bool.false_eq_true, if_false, List.flatten_cons, List.cons_append] at hsame ⊢
          rw [hsame]
        | true => exact ih true

/-- An odd number of quotes goes to the other side of a string. -/
theorem endsInside_eq (inString : Bool) (l : List UInt8) :
    endsInside inString l
      = (inString ^^ decide ((splitAt '"'.toUInt8 l).length % 2 = 0)) := by
  induction l generalizing inString with
  | nil => cases inString <;> rfl
  | cons b rest ih =>
    rw [splitAt, endsInside]
    split
    · rw [ih, List.length_cons]
      have hparity : ((splitAt '"'.toUInt8 rest).length + 1) % 2 = 0 ↔
          ¬(splitAt '"'.toUInt8 rest).length % 2 = 0 := by omega
      rw [decide_eq_decide.mpr hparity, decide_not]
      cases inString <;> simp
    · rw [ih]
      cases hsegments : splitAt '"'.toUInt8 rest with
      | nil => exact absurd hsegments (splitAt_ne_nil _ _)
      | cons segment more => rfl

/-! ### Windows -/

theorem flatten_windows {window : ℕ} (h : 0 < window) (l : List UInt8) :
    (windows window l).flatten = l := by
  have htake : ∀ n : ℕ, ((List.range n).map fun i => (l.drop (i * window)).take window).flatten
      = l.take (n * window) := by
    intro n
    induction n with
    | zero => simp
    | succ n ih =>
      rw [List.range_succ, List.map_append, List.flatten_append, ih, List.map_singleton,
        List.flatten_singleton, Nat.succ_mul, List.take_add]
  rw [windows, htake]
  refine List.take_of_length_le ?_
  have hdiv := Nat.lt_div_mul_add (a := l.length + window - 1) h
  omega

/-! ### Levels -/

/-- The highest level that steps reach from 0. -/
def reach : List ℤ → ℤ
  | [] => 0
  | step :: rest => max 0 (step + reach rest)

theorem reach_nonneg (steps : List ℤ) : 0 ≤ reach steps := by
  cases steps with
  | nil => exact le_refl 0
  | cons step rest => exact le_max_left _ _

theorem sum_le_reach (steps : List ℤ) : steps.sum ≤ reach steps := by
  induction steps with
  | nil => exact le_refl 0
  | cons step rest ih =>
    rw [List.sum_cons, reach]
    omega

theorem reach_append (a b : List ℤ) : reach (a ++ b) = max (reach a) (a.sum + reach b) := by
  induction a with
  | nil =>
    have hnonneg := reach_nonneg b
    rw [List.nil_append, List.sum_nil, reach]
    omega
  | cons step rest ih =>
    rw [List.cons_append, reach, reach, ih, List.sum_cons]
    omega

theorem max?_accumulate {step : ℤ} {rest : List ℤ} (total : ℤ) :
    ∃ top, (accumulate total (step :: rest)).max? = some top ∧
      max total top = total + reach (step :: rest) := by
  induction rest generalizing total step with
  | nil =>
    refine ⟨total + step, rfl, ?_⟩
    rw [reach, reach]
    omega
  | cons next rest ih =>
    obtain ⟨top, htop, hreach⟩ := @ih next (total + step)
    rw [accumulate]
    refine ⟨max (total + step) top, ?_, ?_⟩
    · rw [List.max?_cons, htop]
      rfl
    · have hstep : reach (step :: next :: rest) = max 0 (step + reach (next :: rest)) := rfl
      rw [hreach, hstep]
      omega

/-- Steps of which each opens or closes. -/
theorem sum_eq {steps : List ℤ} (h : ∀ step ∈ steps, step = 1 ∨ step = -1) :
    steps.sum = 2 * (steps.count 1 : ℤ) - steps.length := by
  induction steps with
  | nil => rfl
  | cons step rest ih =>
    rw [List.forall_mem_cons] at h
    rw [List.sum_cons, ih h.2, List.length_cons]
    obtain rfl | rfl := h.1
    · rw [List.count_cons_self]
      push_cast
      omega
    · rw [List.count_cons_of_ne (by decide)]
      push_cast
      omega

/-! ### A whole scan -/

/-- The steps of the brackets in bytes outside strings. -/
def stepsOf (marks : List UInt8) : List ℤ := marks.filterMap stepOf

theorem stepsOf_append (a b : List UInt8) : stepsOf (a ++ b) = stepsOf a ++ stepsOf b :=
  List.filterMap_append

theorem eq_of_mem_stepsOf {marks : List UInt8} : ∀ step ∈ stepsOf marks, step = 1 ∨ step = -1 := by
  intro step hstep
  obtain ⟨b, -, hb⟩ := List.mem_filterMap.mp hstep
  rw [stepOf] at hb
  split at hb
  · exact .inl (Option.some.inj hb).symm
  · split at hb
    · exact .inr (Option.some.inj hb).symm
    · cases hb

/-- Each opening bracket is a step up. -/
theorem count_stepsOf (marks : List UInt8) : (stepsOf marks).count 1 = openings marks := by
  induction marks with
  | nil => rfl
  | cons b rest ih =>
    rw [stepsOf, List.filterMap_cons, ← stepsOf]
    by_cases hopen : b ∈ ['{'.toUInt8, '['.toUInt8]
    · rw [stepOf, if_pos hopen, (counts_open rest hopen).1, ← ih]
      exact List.count_cons_self
    · have hnone : openings (b :: rest) = openings rest := by
        simp only [List.mem_cons, List.not_mem_nil, or_false, not_or] at hopen
        rw [openings, List.count_cons_of_ne hopen.1,
          List.count_cons_of_ne hopen.2, openings]
      rw [hnone, ← ih, stepOf, if_neg hopen]
      split
      · rfl
      · next found hstep =>
        split at hstep
        · obtain rfl := Option.some.inj hstep
          exact List.count_cons_of_ne (by decide)
        · cases hstep

/-- What a scan carries once bytes are read. -/
def Scan.after (s : Scan) (scanned : List UInt8) : Scan where
  level := s.level + (stepsOf (outside s.inString scanned)).sum
  held := s.held + commas (outside s.inString scanned)
    + openings (outside s.inString scanned)
  inString := endsInside s.inString scanned
  counted := s.counted || !(stepsOf (outside s.inString scanned)).isEmpty

/-- **One window**, from a level within the depth. -/
theorem window_eq {depth : ℤ} {s : Scan} (hlevel : s.level ≤ depth) (window : List UInt8) :
    s.window depth window
      = if depth < s.level + reach (stepsOf (outside s.inString window)) then none
        else some (s.after window) := by
  rw [Scan.window]
  simp only [flatten_everyOther, ← endsInside_eq]
  rw [← stepsOf]
  have hcount := count_stepsOf (outside s.inString window)
  have hsum := sum_eq (@eq_of_mem_stepsOf (outside s.inString window))
  cases hsteps : stepsOf (outside s.inString window) with
  | nil =>
    rw [hsteps] at hcount
    have hnone : openings (outside s.inString window) = 0 := hcount.symm
    rw [reach, if_neg (by omega), Scan.after, hsteps, hnone]
    simp [accumulate, commas]
  | cons step rest =>
    obtain ⟨top, htop, hreach⟩ := @max?_accumulate step rest 0
    rw [← hsteps] at hreach ⊢
    rw [hsteps, htop, ← hsteps]
    have hbound : depth < s.level + top ↔
        depth < s.level + reach (stepsOf (outside s.inString window)) := by omega
    simp only [hbound]
    split
    · rfl
    · rw [Scan.after, ← hsum, hcount, hsteps]
      simp [commas]

theorem after_append (s : Scan) (a b : List UInt8) :
    s.after (a ++ b) = (s.after a).after b := by
  simp only [Scan.after, outside_append, endsInside_append, stepsOf_append, List.sum_append,
    commas_append, openings_append, Scan.mk.injEq, true_and]
  refine ⟨by omega, by omega, ?_⟩
  rw [Bool.or_assoc]
  congr 1
  cases stepsOf (outside s.inString a) <;> simp

/-- **However it is cut into windows**, a scan reads the bytes. -/
theorem foldlM_window {depth : ℤ} {s : Scan} (hlevel : s.level ≤ depth)
    (ws : List (List UInt8)) :
    ws.foldlM (Scan.window depth) s
      = if depth < s.level + reach (stepsOf (outside s.inString ws.flatten)) then none
        else some (s.after ws.flatten) := by
  induction ws generalizing s with
  | nil =>
    have hnone : outside s.inString [] = [] := rfl
    have hafter : s.after [] = s := by simp [Scan.after, hnone, stepsOf, commas,
      openings, endsInside]
    have hreach : reach (stepsOf []) = 0 := rfl
    rw [List.foldlM_nil, List.flatten_nil, hafter, hnone, hreach, if_neg (by omega)]
    rfl
  | cons window rest ih =>
    have hsplit := reach_append (stepsOf (outside s.inString window))
      (stepsOf (outside (endsInside s.inString window) rest.flatten))
    have hnonneg := reach_nonneg (stepsOf (outside (endsInside s.inString window) rest.flatten))
    have hsum := sum_le_reach (stepsOf (outside s.inString window))
    rw [List.foldlM_cons, window_eq hlevel, List.flatten_cons, outside_append, stepsOf_append,
      hsplit, after_append]
    by_cases hpast : depth < s.level + reach (stepsOf (outside s.inString window))
    · rw [if_pos hpast, if_pos (by omega)]
      rfl
    · have hafter : (s.after window).level
          = s.level + (stepsOf (outside s.inString window)).sum := rfl
      have hinside : (s.after window).inString = endsInside s.inString window := rfl
      have hnext : (s.after window).level ≤ depth := by omega
      rw [if_neg hpast]
      refine (ih hnext).trans ?_
      have hsame : depth < (s.after window).level
            + reach (stepsOf (outside (s.after window).inString rest.flatten)) ↔
          depth < s.level + max (reach (stepsOf (outside s.inString window)))
            ((stepsOf (outside s.inString window)).sum
              + reach (stepsOf (outside (endsInside s.inString window) rest.flatten))) := by
        rw [hafter, hinside]
        omega
      simp only [hsame]

/-- The brackets and commas outside strings, as the scan reads them. -/
def marksOf (raw : List UInt8) : List UInt8 := outside false (scannedBytes raw)

/-- What a body's brackets and commas outside strings say of the bounds. -/
def verdict (marks : List UInt8) (depth values : ℤ) : Option Exceeded :=
  if depth < reach (stepsOf marks) then some .depth
  else if values < counted marks then some .values
  else none

/-- **A full scan**, whatever its window, answers from what is outside strings. -/
theorem fullScan_eq {window : ℕ} (hwindow : 0 < window) (raw : List UInt8) {depth : ℤ}
    (hdepth : 0 ≤ depth) (values : ℤ) :
    fullScan window raw depth values = verdict (marksOf raw) depth values := by
  have hscan := @foldlM_window depth {} hdepth (windows window (scannedBytes raw))
  rw [flatten_windows hwindow] at hscan
  rw [fullScan, hscan, verdict, marksOf]
  have hzero : ({} : Scan).level = 0 := rfl
  have hstart : ({} : Scan).inString = false := rfl
  have hheld : (({} : Scan).after (scannedBytes raw)).held
      = counted (outside false (scannedBytes raw)) := rfl
  rw [hzero, hstart, zero_add]
  by_cases hpast : depth < reach (stepsOf (outside false (scannedBytes raw)))
  · rw [if_pos hpast, if_pos hpast]
  · rw [if_neg hpast, if_neg hpast]
    simp only [hheld]
    rw [if_neg (by omega)]

/-! ### Reading a document -/

section Reading

variable (rest : List UInt8)

theorem scannedBytes_cons {b : UInt8} (h : b ≠ '\\'.toUInt8) :
    scannedBytes (b :: rest) = [b].filter readByte ++ scannedBytes rest := by
  have hkept : ∀ (second : UInt8) (l : List UInt8),
      removePairs '\\'.toUInt8 second (b :: l) = b :: removePairs '\\'.toUInt8 second l := by
    intro second l
    cases l with
    | nil => rfl
    | cons c l => rw [removePairs, if_neg fun hboth => h hboth.1]
  rw [scannedBytes, hkept, hkept, scannedBytes, ← List.singleton_append, List.filter_append]

theorem scannedBytes_append {bytes : List UInt8} (h : ∀ b ∈ bytes, b ≠ '\\'.toUInt8) :
    scannedBytes (bytes ++ rest) = bytes.filter readByte ++ scannedBytes rest := by
  induction bytes with
  | nil => rfl
  | cons b bytes ih =>
    rw [List.forall_mem_cons] at h
    rw [List.cons_append, scannedBytes_cons _ h.1, ih h.2, ← List.append_assoc,
      ← List.filter_append, List.singleton_append]

theorem unread_of_inert {b : UInt8} (h : inert b = true) :
    b ≠ '\\'.toUInt8 ∧ readByte b = false := by
  rw [inert, decide_eq_true_eq] at h
  simp only [List.mem_cons, List.not_mem_nil, or_false, not_or] at h
  refine ⟨h.2.1, ?_⟩
  rw [readByte, decide_eq_false_iff_not]
  simp only [List.mem_cons, List.not_mem_nil, or_false, not_or]
  exact ⟨h.1, h.2.2⟩

/-- An escape is gone, whatever follows it. -/
theorem scannedBytes_escape {b : UInt8}
    (h : b = '\\'.toUInt8 ∨ b = '"'.toUInt8 ∨ readByte b = false) :
    scannedBytes ('\\'.toUInt8 :: b :: rest) = scannedBytes rest := by
  by_cases hbackslash : b = '\\'.toUInt8
  · rw [scannedBytes, hbackslash, removePairs, if_pos ⟨rfl, rfl⟩, scannedBytes]
  · have hkept : ∀ (second : UInt8) (l : List UInt8),
        removePairs '\\'.toUInt8 second (b :: l) = b :: removePairs '\\'.toUInt8 second l := by
      intro second l
      cases l with
      | nil => rfl
      | cons c l => rw [removePairs, if_neg fun hboth => hbackslash hboth.1]
    rw [scannedBytes, removePairs, if_neg fun hboth => hbackslash hboth.2, hkept]
    by_cases hquote : b = '"'.toUInt8
    · rw [removePairs, hquote, if_pos ⟨rfl, rfl⟩, scannedBytes]
    · have hunread := (h.resolve_left hbackslash).resolve_left hquote
      rw [removePairs, if_neg fun hboth => hquote hboth.2, hkept,
        List.filter_cons_of_neg (by decide), List.filter_cons_of_neg (by simpa using hunread),
        scannedBytes]

/-- What is left of a string's inside has no quote. -/
theorem scannedBytes_parts (parts : List StringPart) :
    ∃ held : List UInt8, '"'.toUInt8 ∉ held ∧ ∀ rest,
      scannedBytes (parts.flatMap StringPart.bytes ++ rest)
        = held ++ scannedBytes rest := by
  induction parts with
  | nil => exact ⟨[], List.not_mem_nil, fun rest => rfl⟩
  | cons part parts ih =>
    obtain ⟨held, hquote, hparts⟩ := ih
    simp only [List.flatMap_cons, List.append_assoc]
    cases part with
    | plain c =>
      refine ⟨(String.utf8EncodeChar c.char).filter readByte ++ held, fun hmem => ?_,
        fun rest => ?_⟩
      · obtain hplain | hheld := List.mem_append.mp hmem
        · exact (PlainChar.of_mem (List.mem_of_mem_filter hplain)).1 rfl
        · exact hquote hheld
      · rw [StringPart.bytes, scannedBytes_append _ fun b hb =>
          (PlainChar.of_mem hb).2, hparts, List.append_assoc]
    | escaped letter =>
      refine ⟨held, hquote, fun rest => ?_⟩
      rw [StringPart.bytes, List.cons_append, List.cons_append, List.nil_append,
        scannedBytes_escape _ (by cases letter <;> decide), hparts]
    | unit a b c d =>
      refine ⟨held, hquote, fun rest => ?_⟩
      have hhex : ∀ digit ∈ [a.byte, b.byte, c.byte, d.byte], digit ≠ '\\'.toUInt8 ∧
          readByte digit = false := by
        intro digit hdigit
        have hinert : inert digit = true := by
          simp only [List.mem_cons, List.not_mem_nil, or_false] at hdigit
          obtain rfl | rfl | rfl | rfl := hdigit
          all_goals exact HexDigit.inert_byte _
        exact unread_of_inert hinert
      have hnone : [a.byte, b.byte, c.byte, d.byte].filter readByte = [] := by
        rw [List.filter_eq_nil_iff]
        exact fun digit hdigit => by simpa using (hhex digit hdigit).2
      have hdigits := scannedBytes_append
        (parts.flatMap StringPart.bytes ++ rest) fun digit hdigit =>
          (hhex digit hdigit).1
      rw [hnone, List.nil_append, hparts] at hdigits
      exact (scannedBytes_escape _ (.inr (.inr rfl))).trans hdigits

theorem marksOf_inert {bytes : List UInt8} (h : ∀ b ∈ bytes, inert b = true) :
    marksOf (bytes ++ rest) = marksOf rest := by
  have hnone : bytes.filter readByte = [] := by
    rw [List.filter_eq_nil_iff]
    exact fun b hb => by simpa using (unread_of_inert (h b hb)).2
  rw [marksOf, scannedBytes_append _ fun b hb => (unread_of_inert (h b hb)).1, hnone,
    List.nil_append, marksOf]

/-- A bracket or a comma between the values is read. -/
theorem marksOf_cons {b : UInt8} (h : b ∈ [','.toUInt8, '{'.toUInt8, '['.toUInt8, '}'.toUInt8,
    ']'.toUInt8]) : marksOf (b :: rest) = b :: marksOf rest := by
  have hmark : ∀ b ∈ [','.toUInt8, '{'.toUInt8, '['.toUInt8, '}'.toUInt8, ']'.toUInt8],
      b ≠ '\\'.toUInt8 ∧ b ≠ '"'.toUInt8 ∧ readByte b = true := by decide +kernel
  obtain ⟨hbackslash, hquote, hread⟩ := hmark b h
  rw [marksOf, scannedBytes_cons _ hbackslash, List.filter_singleton, hread]
  simp only [cond_true, List.singleton_append]
  rw [outside, if_neg hquote]
  rfl

theorem marksOf_colon : marksOf (':'.toUInt8 :: rest) = marksOf rest :=
  @marksOf_inert rest [':'.toUInt8] (by decide +kernel)

/-- A string is read as nothing. -/
theorem marksOf_quotedBytes (parts : List StringPart) :
    marksOf (quotedBytes parts ++ rest) = marksOf rest := by
  obtain ⟨held, hquote, hheld⟩ := scannedBytes_parts parts
  have hopen : ∀ l : List UInt8,
      scannedBytes ('"'.toUInt8 :: l) = '"'.toUInt8 :: scannedBytes l := fun l =>
    scannedBytes_cons l (by decide)
  have hinside : ∀ held : List UInt8, '"'.toUInt8 ∉ held → ∀ l : List UInt8,
      outside true (held ++ '"'.toUInt8 :: l) = outside false l := by
    intro held
    induction held with
    | nil =>
      intro _ l
      rw [List.nil_append, outside, if_pos rfl]
      rfl
    | cons b held ih =>
      intro hnot l
      rw [List.mem_cons, not_or] at hnot
      rw [List.cons_append, outside, if_neg (Ne.symm hnot.1), if_pos rfl, ih hnot.2]
  rw [quotedBytes, List.cons_append, List.append_assoc, List.singleton_append, marksOf,
    hopen, hheld, hopen, outside, if_pos rfl, Bool.not_false, hinside held hquote, marksOf]

end Reading

mutual

/-- **What a scan reads of a value**, whatever follows it: the brackets and commas outside its
strings. -/
theorem marksOf_value : ∀ (v : Value) (rest : List UInt8),
    marksOf (v.bytes ++ rest) = v.marks ++ marksOf rest
  | .literal word, rest => marksOf_inert rest word.inert_bytes
  | .number n, rest => marksOf_inert rest n.inert_bytes
  | .string parts, rest => marksOf_quotedBytes rest parts
  | .emptyArray inside, rest => by
    rw [Value.bytes, Value.marks, List.cons_append, marksOf_cons _ (by decide), List.append_assoc,
      marksOf_inert _ inert_blanks, List.singleton_append, marksOf_cons _ (by decide)]
    rfl
  | .emptyObject inside, rest => by
    rw [Value.bytes, Value.marks, List.cons_append, marksOf_cons _ (by decide), List.append_assoc,
      marksOf_inert _ inert_blanks, List.singleton_append, marksOf_cons _ (by decide)]
    rfl
  | .array items, rest => by
    rw [Value.bytes, Value.marks, List.cons_append, marksOf_cons _ (by decide), List.append_assoc,
      marksOf_items items, List.singleton_append, marksOf_cons _ (by decide), List.cons_append,
      List.append_assoc, List.singleton_append]
  | .object members, rest => by
    rw [Value.bytes, Value.marks, List.cons_append, marksOf_cons _ (by decide), List.append_assoc,
      marksOf_members members, List.singleton_append, marksOf_cons _ (by decide),
      List.cons_append, List.append_assoc, List.singleton_append]

theorem marksOf_items : ∀ (items : Items) (rest : List UInt8),
    marksOf (items.bytes ++ rest) = items.marks ++ marksOf rest
  | .last before value after, rest => by
    rw [Items.bytes, Items.marks, List.append_assoc, List.append_assoc,
      marksOf_inert _ inert_blanks, marksOf_value value, marksOf_inert _ inert_blanks]
  | .more before value after more, rest => by
    rw [Items.bytes, Items.marks]
    simp only [List.append_assoc, List.cons_append]
    rw [marksOf_inert _ inert_blanks, marksOf_value value, marksOf_inert _ inert_blanks,
      marksOf_cons _ (by decide), marksOf_items more]

theorem marksOf_members : ∀ (members : Members) (rest : List UInt8),
    marksOf (members.bytes ++ rest) = members.marks ++ marksOf rest
  | .last before name named before' value after, rest => by
    rw [Members.bytes, Members.marks]
    simp only [List.append_assoc, List.cons_append]
    rw [marksOf_inert _ inert_blanks, marksOf_quotedBytes, marksOf_inert _ inert_blanks,
      marksOf_colon, marksOf_inert _ inert_blanks, marksOf_value value,
      marksOf_inert _ inert_blanks]
  | .more before name named before' value after more, rest => by
    rw [Members.bytes, Members.marks]
    simp only [List.append_assoc, List.cons_append]
    rw [marksOf_inert _ inert_blanks, marksOf_quotedBytes, marksOf_inert _ inert_blanks,
      marksOf_colon, marksOf_inert _ inert_blanks, marksOf_value value,
      marksOf_inert _ inert_blanks, marksOf_cons _ (by decide), marksOf_members more]

end

/-! ### Levels of a document -/

/-- Brackets around steps that end where they began lift them by one. -/
theorem reach_bracketed {marks : List UInt8} {opening closing : UInt8}
    (hopen : opening ∈ ['{'.toUInt8, '['.toUInt8]) (hclose : closing ∈ ['}'.toUInt8, ']'.toUInt8])
    (hsum : (stepsOf marks).sum = 0) :
    (stepsOf (opening :: (marks ++ [closing]))).sum = 0 ∧
      reach (stepsOf (opening :: (marks ++ [closing]))) = 1 + reach (stepsOf marks) := by
  have hnot : ∀ b ∈ ['}'.toUInt8, ']'.toUInt8], b ∉ ['{'.toUInt8, '['.toUInt8] := by
    decide +kernel
  have hup : stepOf opening = some 1 := if_pos hopen
  have hdown : stepOf closing = some (-1) := by
    rw [stepOf, if_neg (hnot closing hclose), if_pos hclose]
  have hlast : stepsOf [closing] = [-1] := List.filterMap_cons_some hdown
  have hsteps : stepsOf (opening :: (marks ++ [closing])) = 1 :: (stepsOf marks ++ [-1]) := by
    rw [← hlast, ← stepsOf_append]
    exact List.filterMap_cons_some hup
  have hnonneg := reach_nonneg (stepsOf marks)
  have hback : reach [-1] = 0 := rfl
  rw [hsteps, List.sum_cons, List.sum_append, hsum, reach, reach_append, hsum, hback]
  refine ⟨rfl, ?_⟩
  omega

theorem reach_separated {marks rest : List UInt8} (hsum : (stepsOf marks).sum = 0)
    (hrest : (stepsOf rest).sum = 0) :
    (stepsOf (marks ++ ','.toUInt8 :: rest)).sum = 0 ∧
      reach (stepsOf (marks ++ ','.toUInt8 :: rest))
        = max (reach (stepsOf marks)) (reach (stepsOf rest)) := by
  have hcomma : stepsOf (','.toUInt8 :: rest) = stepsOf rest :=
    List.filterMap_cons_none (by decide)
  rw [stepsOf_append, hcomma, List.sum_append, reach_append, hsum, hrest, zero_add, zero_add]
  exact ⟨rfl, rfl⟩

mutual

/-- **A value's brackets** end where they began, and reach as high as it nests. -/
theorem reach_value : ∀ v : Value,
    (stepsOf v.marks).sum = 0 ∧ reach (stepsOf v.marks) = v.nesting
  | .literal _ | .number _ | .string _ => ⟨rfl, rfl⟩
  | .emptyArray _ | .emptyObject _ => ⟨rfl, rfl⟩
  | .array items => by
    obtain ⟨hsum, hreach⟩ := reach_items items
    obtain ⟨hsum', hreach'⟩ := @reach_bracketed items.marks '['.toUInt8 ']'.toUInt8
      (by decide) (by decide) hsum
    rw [Value.marks, Value.nesting, hsum', hreach', hreach]
    exact ⟨rfl, by push_cast; rfl⟩
  | .object members => by
    obtain ⟨hsum, hreach⟩ := reach_members members
    obtain ⟨hsum', hreach'⟩ := @reach_bracketed members.marks '{'.toUInt8 '}'.toUInt8
      (by decide) (by decide) hsum
    rw [Value.marks, Value.nesting, hsum', hreach', hreach]
    exact ⟨rfl, by push_cast; rfl⟩

theorem reach_items : ∀ items : Items,
    (stepsOf items.marks).sum = 0 ∧ reach (stepsOf items.marks) = items.nesting
  | .last _ value _ => reach_value value
  | .more _ value _ rest => by
    obtain ⟨hsum, hreach⟩ := reach_value value
    obtain ⟨hrest, hreach'⟩ := reach_items rest
    obtain ⟨hsum', hboth⟩ := reach_separated hsum hrest
    rw [Items.marks, Items.nesting, hsum', hboth, hreach, hreach']
    exact ⟨rfl, by omega⟩

theorem reach_members : ∀ members : Members,
    (stepsOf members.marks).sum = 0 ∧ reach (stepsOf members.marks) = members.nesting
  | .last _ _ _ _ value _ => reach_value value
  | .more _ _ _ _ value _ rest => by
    obtain ⟨hsum, hreach⟩ := reach_value value
    obtain ⟨hrest, hreach'⟩ := reach_members rest
    obtain ⟨hsum', hboth⟩ := reach_separated hsum hrest
    rw [Members.marks, Members.nesting, hsum', hboth, hreach, hreach']
    exact ⟨rfl, by omega⟩

end

/-! ### The early answer -/

section Early

variable {raw : List UInt8}

theorem removePairs_sublist (first second : UInt8) (l : List UInt8) :
    (removePairs first second l).Sublist l := by
  fun_induction removePairs first second l with
  | case1 a b rest _ ih => exact (ih.cons b).cons a
  | case2 a b rest _ ih => exact ih.cons_cons a
  | case3 rest _ => exact List.Sublist.refl _

theorem outside_sublist (inString : Bool) (l : List UInt8) : (outside inString l).Sublist l := by
  induction l generalizing inString with
  | nil => exact List.Sublist.refl _
  | cons b rest ih =>
    rw [outside]
    split
    · exact (ih _).cons b
    · split
      · exact (ih _).cons b
      · exact (ih _).cons_cons b

theorem marksOf_sublist (raw : List UInt8) : (marksOf raw).Sublist raw := by
  refine (outside_sublist false _).trans (List.filter_sublist.trans ?_)
  exact (removePairs_sublist _ _ _).trans (removePairs_sublist _ _ _)

/-- No level is higher than there are opening brackets. -/
theorem reach_le_openings (marks : List UInt8) :
    reach (stepsOf marks) ≤ openings marks := by
  have hcount : ∀ steps : List ℤ, (∀ step ∈ steps, step = 1 ∨ step = -1) →
      reach steps ≤ steps.count 1 := by
    intro steps hsteps
    induction steps with
    | nil => exact le_refl 0
    | cons step rest ih =>
      rw [List.forall_mem_cons] at hsteps
      have hrest := ih hsteps.2
      rw [reach]
      obtain rfl | rfl := hsteps.1
      · rw [List.count_cons_self]
        push_cast
        omega
      · rw [List.count_cons_of_ne (by decide)]
        omega
  rw [← count_stepsOf]
  exact hcount _ eq_of_mem_stepsOf

theorem counted_le_length (marks : List UInt8) : counted marks ≤ marks.length + 1 := by
  have hle : commas marks + openings marks ≤ marks.length := by
    induction marks with
    | nil => exact le_refl 0
    | cons b rest ih =>
      rw [List.length_cons]
      by_cases hcomma : b = ','.toUInt8
      · obtain ⟨hopenings, hcommas⟩ := counts_comma rest
        rw [hcomma, hopenings, hcommas]
        omega
      · by_cases hopen : b ∈ ['{'.toUInt8, '['.toUInt8]
        · obtain ⟨hopenings, hcommas⟩ := counts_open rest hopen
          rw [hopenings, hcommas]
          omega
        · simp only [List.mem_cons, List.not_mem_nil, or_false, not_or] at hopen
          rw [commas, openings, List.count_cons_of_ne hcomma,
            List.count_cons_of_ne hopen.1, List.count_cons_of_ne hopen.2, ← commas,
            ← openings]
          omega
  rw [counted]
  omega

/-- **The early answer is the scan's.** -/
theorem exceeded_eq_fullScan {window : ℕ} (hwindow : 0 < window) (raw : List UInt8)
    (depth values : ℤ) : exceeded window raw depth values = fullScan window raw depth values := by
  rw [exceeded]
  split
  · next hearly =>
    obtain ⟨hbrackets, hvalues⟩ := hearly
    have hsublist := marksOf_sublist raw
    have hcurly := hsublist.count_le '{'.toUInt8
    have hsquare := hsublist.count_le '['.toUInt8
    have hcommas := hsublist.count_le ','.toUInt8
    have hlength := hsublist.length_le
    have hreach := reach_le_openings (marksOf raw)
    have hcounted := counted_le_length (marksOf raw)
    have hopenings : openings (marksOf raw)
        = (marksOf raw).count '{'.toUInt8 + (marksOf raw).count '['.toUInt8 := rfl
    have hcount : counted (marksOf raw)
        = 1 + (marksOf raw).count ','.toUInt8 + openings (marksOf raw) := rfl
    rw [fullScan_eq hwindow raw (by omega), verdict, if_neg (by omega), if_neg (by omega)]
  · rfl

end Early

/-! ### Documents -/

theorem marksOf_document (d : Document) : marksOf d.bytes = d.value.marks := by
  have hafter : marksOf (blanks d.after) = [] := by
    have hblanks := @marksOf_inert [] _ (@inert_blanks d.after)
    rwa [List.append_nil] at hblanks
  rw [Document.bytes, marksOf_inert _ inert_blanks, marksOf_value, hafter, List.append_nil]

/-- **The bounds are exact**, whatever the window: a document breaks the depth where it nests
deeper, and the values, where it does not, by what its commas and opening brackets count, which is
at least how many values it holds and exactly that where nothing in it is empty. The early answer
is the full scan's. -/
theorem exceeded_document {window : ℕ} (hwindow : 0 < window) (d : Document) {depth : ℤ}
    (hdepth : 0 ≤ depth) (values : ℤ) :
    (exceeded window d.bytes depth values = some .depth ↔ depth < d.value.nesting) ∧
    (exceeded window d.bytes depth values = some .values ↔
      d.value.nesting ≤ depth ∧ values < counted d.value.marks) ∧
    (exceeded window d.bytes depth values = none ↔
      d.value.nesting ≤ depth ∧ counted d.value.marks ≤ values) ∧
    d.value.holds ≤ counted d.value.marks ∧
    (d.value.noneEmpty = true → d.value.holds = counted d.value.marks) ∧
    exceeded window d.bytes depth values = fullScan window d.bytes depth values := by
  have hearly := exceeded_eq_fullScan hwindow d.bytes depth values
  have hscan := fullScan_eq hwindow d.bytes hdepth values
  rw [marksOf_document, verdict, (reach_value d.value).2] at hscan
  obtain ⟨hholds, hexact⟩ := d.value.holds_le
  refine ⟨?_, ?_, ?_, hholds, hexact.mpr, hearly⟩
  all_goals
    rw [hearly, hscan]
    split
    · simp; omega
    · split <;> simp <;> omega

/-- `[["\\\"["]]`: two arrays around a text of a backslash, a quote and a bracket. -/
def nestedText : Document :=
  ⟨[], .array (.last [] (.array (.last [] (.string [.escaped .backslash, .escaped .quote,
    .plain ⟨'[', by decide, by decide, by decide⟩]) [])) []), []⟩

theorem exceeded_nestedText : exceeded 3 nestedText.bytes 1 9 = some .depth :=
  (exceeded_document (by decide) nestedText (by decide) 9).1.mpr (by decide)

/-- The depth alone: the other bound is `sys.maxsize`. -/
def nestsDeeperThan (window : ℕ) (raw : List UInt8) (limit : ℤ) : Bool :=
  exceeded window raw limit (2 ^ 63 - 1) = some .depth

end AiraGateway.Nesting
