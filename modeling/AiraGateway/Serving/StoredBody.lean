import AiraGateway.Library.JsonRoundTrip
import AiraGateway.Pipeline.Steps

/-!
# The body that is stored of a rewritten request

A redactor's rewrites are put into the stored body by literal substitution on its JSON text, so
that no surface's shape has to be known (`rewrittenBody`). What they stand for is a substitution in
the body's string values and in nothing else (`substitution`).

* `substitutesTexts_of_within`: that is what is stored, where every match that is replaced starts at
  a character of a string value (`Within`).
* `rewrittenBody_corrupts`: a match in a key or inside an escape is replaced as well.
-/

namespace AiraGateway

/-! ### As it is done -/

/-- A text as it stands in serialised JSON, without the quotes around it. -/
def inSerialised (t : Text) : Text := ((Json.dumpsReadable (.str t)).drop 1).dropLast

/-- The serialised body with each text substituted, or nothing where one cannot be found. -/
def rewrittenText : Text → List (Text × Text) → Option Text
  | text, [] => some text
  | text, (before, after) :: rest =>
    if inSerialised before <:+: text then
      rewrittenText (replaceText (inSerialised before) (inSerialised after) 0 text) rest
    else none

/-- The wire body with each rewritten text substituted, or nothing where one cannot be found or
what comes of it cannot be read. -/
def rewrittenBody (body : Option Json) (rewrites : List (Text × Text)) : Option Json := do
  let body ← body
  let text ← rewrittenText body.dumpsReadable rewrites
  Json.loads text

/-! ### As it is meant -/

namespace Json

mutual

/-- A value with a text replaced in its string values. -/
def substituted (before after : Text) : Json → Json
  | str t => str (replaceText before after 0 t)
  | arr items => arr (substitutedItems before after items)
  | obj members => obj (substitutedMembers before after members)
  | null => null
  | bool b => bool b
  | int n => int n
  | float t => float t

def substitutedItems (before after : Text) : List Json → List Json
  | [] => []
  | item :: rest => substituted before after item :: substitutedItems before after rest

def substitutedMembers (before after : Text) : List (Text × Json) → List (Text × Json)
  | [] => []
  | (name, value) :: rest =>
    (name, substituted before after value) :: substitutedMembers before after rest

end

mutual

/-- The string values of a value; an object's names are none. -/
def stringValues : Json → List Text
  | str t => [t]
  | arr items => stringValuesItems items
  | obj members => stringValuesMembers members
  | null | bool _ | int _ | float _ => []

def stringValuesItems : List Json → List Text
  | [] => []
  | item :: rest => stringValues item ++ stringValuesItems rest

def stringValuesMembers : List (Text × Json) → List Text
  | [] => []
  | (_, value) :: rest => stringValues value ++ stringValuesMembers rest

end

mutual

/-- A value without what its strings say. -/
def shape : Json → Json
  | str _ => str []
  | arr items => arr (shapeItems items)
  | obj members => obj (shapeMembers members)
  | null => null
  | bool b => bool b
  | int n => int n
  | float t => float t

def shapeItems : List Json → List Json
  | [] => []
  | item :: rest => shape item :: shapeItems rest

def shapeMembers : List (Text × Json) → List (Text × Json)
  | [] => []
  | (name, value) :: rest => (name, shape value) :: shapeMembers rest

end

/-- Some string value holds a text. -/
def Holds (body : Json) (before : Text) : Prop := ∃ t ∈ body.stringValues, before <:+: t

instance (body : Json) (before : Text) : Decidable (body.Holds before) :=
  inferInstanceAs (Decidable (∃ t ∈ body.stringValues, before <:+: t))

end Json

/-- The body with each text replaced in its string values, or nothing where one occurs in none. -/
def substitution : Json → List (Text × Text) → Option Json
  | body, [] => some body
  | body, (before, after) :: rest =>
    if body.Holds before then substitution (body.substituted before after) rest else none

/-- What is stored is the substitution over the body's texts, or nothing. -/
def SubstitutesTexts (body : Json) (rewrites : List (Text × Text)) : Prop :=
  rewrittenBody (some body) rewrites = none ∨
    ∃ stored, substitution body rewrites = some stored ∧ stored.shape = body.shape ∧
      rewrittenBody (some body) rewrites = some stored

/-! ### The serialised body in pieces -/

/-- A piece of a serialised value: what is not a string value, or a string value and the quote that
ends it. -/
inductive Piece where
  | fixed (t : Text)
  | value (t : Text)

namespace Piece

def text : Piece → Text
  | fixed t => t
  | value t => t.flatMap escapedReadable ++ ['"']

/-- A character as it is serialised, with its start marked. -/
def charMarks (c : Char) : List (Char × Bool) :=
  (escapedReadable c).zipIdx.map fun d => (d.1, d.2 == 0)

/-- The characters of a piece, and whether a character of a string value starts there. -/
def marks : Piece → List (Char × Bool)
  | fixed t => t.map (·, false)
  | value t => t.flatMap charMarks ++ [('"', false)]

def substituted (before after : Text) : Piece → Piece
  | fixed t => fixed t
  | value t => value (replaceText before after 0 t)

end Piece

namespace Json

mutual

/-- A serialised value in pieces. -/
def pieces : Json → List Piece
  | str t => [.fixed ['"'], .value t]
  | arr items => .fixed ['['] :: (piecesItems items ++ [.fixed [']']])
  | obj members => .fixed ['{'] :: (piecesMembers members ++ [.fixed ['}']])
  | null => [.fixed (dumpsReadable null)]
  | bool b => [.fixed (dumpsReadable (bool b))]
  | int n => [.fixed (dumpsReadable (int n))]
  | float t => [.fixed t]

def piecesItems : List Json → List Piece
  | [] => []
  | [item] => pieces item
  | item :: next :: rest => pieces item ++ .fixed [',', ' '] :: piecesItems (next :: rest)

def piecesMembers : List (Text × Json) → List Piece
  | [] => []
  | [(name, value)] => .fixed (quotedReadable name ++ [':', ' ']) :: pieces value
  | (name, value) :: next :: rest =>
    .fixed (quotedReadable name ++ [':', ' ']) ::
      (pieces value ++ .fixed [',', ' '] :: piecesMembers (next :: rest))

end

/-- The serialised value, with what starts a character of a string value marked. -/
def marked (body : Json) : List (Char × Bool) := body.pieces.flatMap Piece.marks

end Json

/-- Every match that a replacement takes starts at a marked character. -/
def TakenAtMarks (needle : Text) : ℕ → List (Char × Bool) → Prop
  | _, [] => True
  | skip + 1, _ :: rest => TakenAtMarks needle skip rest
  | 0, (c, starts) :: rest =>
    if needle.isPrefixOf (c :: rest.map (·.1)) then
      starts = true ∧ TakenAtMarks needle (needle.length - 1) rest
    else TakenAtMarks needle 0 rest

instance takenAtMarksDecidable (needle : Text) :
    (skip : ℕ) → (marks : List (Char × Bool)) → Decidable (TakenAtMarks needle skip marks)
  | _, [] => isTrue trivial
  | skip + 1, _ :: rest => takenAtMarksDecidable needle skip rest
  | 0, (c, starts) :: rest =>
    have := takenAtMarksDecidable needle (needle.length - 1) rest
    have := takenAtMarksDecidable needle 0 rest
    inferInstanceAs (Decidable (if needle.isPrefixOf (c :: rest.map (·.1)) then
      starts = true ∧ TakenAtMarks needle (needle.length - 1) rest
      else TakenAtMarks needle 0 rest))

/-- **At its turn, every match of a text that is replaced starts at a character of a string
value**, and not in a key, in another value, between values or inside an escape. -/
def Within : Json → List (Text × Text) → Prop
  | _, [] => True
  | body, (before, after) :: rest =>
    TakenAtMarks (inSerialised before) 0 body.marked ∧
      (body.Holds before → Within (body.substituted before after) rest)

/-! ### Escapes do not overlap -/

theorem inSerialised_eq (t : Text) : inSerialised t = t.flatMap escapedReadable := by
  change ((quotedReadable t).drop 1).dropLast = _
  rw [quotedReadable, List.drop_succ_cons, List.drop_zero, List.dropLast_concat]

theorem inSerialised_ne_nil {t : Text} (h : t ≠ []) : inSerialised t ≠ [] := by
  obtain ⟨c, rest, rfl⟩ := List.exists_cons_of_ne_nil h
  obtain ⟨d, tail, hd, -⟩ := escaping_escapedReadable.head c
  rw [inSerialised_eq, List.flatMap_cons, hd]
  exact List.cons_ne_nil _ _

/-- A text that stands at the start of a character of a string stands in the string. -/
theorem prefix_of_inSerialised_prefix {before t rest : Text}
    (h : inSerialised before <+: t.flatMap escapedReadable ++ '"' :: rest) : before <+: t := by
  rw [inSerialised_eq] at h
  obtain ⟨tail, h⟩ := h
  induction before generalizing t with
  | nil => exact List.nil_prefix
  | cons c before ih =>
    rw [List.flatMap_cons, List.append_assoc] at h
    have hread := readChar_escapedReadable c (before.flatMap escapedReadable ++ tail)
    cases t with
    | nil =>
      obtain ⟨d, more, hd, hne⟩ := escaping_escapedReadable.head c
      rw [hd] at h
      exact absurd (List.cons.inj h).1 hne
    | cons d t =>
      rw [List.flatMap_cons, List.append_assoc] at h
      have hread' := readChar_escapedReadable d (t.flatMap escapedReadable ++ '"' :: rest)
      rw [← h, hread, Option.some_inj, Prod.mk_inj] at hread'
      obtain ⟨rfl, hrest⟩ := hread'
      exact List.cons_prefix_cons.mpr ⟨rfl, ih hrest⟩

/-! ### Replacing -/

/-- What is passed over is not replaced. -/
theorem replaceText_append_of_length (old new t rest : Text) :
    replaceText old new t.length (t ++ rest) = replaceText old new 0 rest := by
  induction t with
  | nil => rfl
  | cons c t ih => exact ih

/-- A text is replaced where it stands. -/
theorem replaceText_prefix {old new : Text} (hne : old ≠ []) (rest : Text) :
    replaceText old new 0 (old ++ rest) = new ++ replaceText old new 0 rest := by
  obtain ⟨c, tail, rfl⟩ := List.exists_cons_of_ne_nil hne
  have hprefix : (c :: tail).isPrefixOf (c :: (tail ++ rest)) = true := by
    rw [List.isPrefixOf_iff_prefix]
    exact List.prefix_append _ _
  have hskip := replaceText_append_of_length (c :: tail) new tail rest
  rw [List.cons_append, replaceText, if_pos hprefix]
  exact congrArg (new ++ ·) hskip

theorem replaceText_cons_of_not_prefix {old new rest : Text} {c : Char}
    (h : ¬ old <+: c :: rest) :
    replaceText old new 0 (c :: rest) = c :: replaceText old new 0 rest := by
  have hnot : ¬ old.isPrefixOf (c :: rest) = true := by
    rwa [List.isPrefixOf_iff_prefix]
  rw [replaceText, if_neg hnot]

section

variable {needle : Text}

theorem takenAtMarks_append_of_length (marks rest : List (Char × Bool)) :
    TakenAtMarks needle marks.length (marks ++ rest) ↔ TakenAtMarks needle 0 rest := by
  induction marks with
  | nil => rfl
  | cons mark marks ih => exact ih

/-- Where nothing is marked nothing is replaced, and what is replaced later is at marks. -/
theorem TakenAtMarks.of_unmarked (new : Text) {marks rest : List (Char × Bool)}
    (hmarks : ∀ mark ∈ marks, mark.2 = false) (h : TakenAtMarks needle 0 (marks ++ rest)) :
    TakenAtMarks needle 0 rest ∧
      replaceText needle new 0 ((marks ++ rest).map (·.1)) =
        marks.map (·.1) ++ replaceText needle new 0 (rest.map (·.1)) ∧
      (needle <:+: (marks ++ rest).map (·.1) → needle <:+: rest.map (·.1)) := by
  induction marks with
  | nil => exact ⟨h, rfl, id⟩
  | cons mark marks ih =>
    obtain ⟨c, starts⟩ := mark
    rw [List.forall_mem_cons] at hmarks
    rw [List.cons_append, TakenAtMarks] at h
    have hnot : ¬ needle <+: c :: (marks ++ rest).map (·.1) := by
      intro hprefix
      rw [if_pos (List.isPrefixOf_iff_prefix.mpr hprefix)] at h
      exact Bool.false_ne_true (hmarks.1.symm.trans h.1)
    rw [if_neg (mt List.isPrefixOf_iff_prefix.mp hnot)] at h
    obtain ⟨hrest, hreplaced, hsub⟩ := ih hmarks.2 h
    refine ⟨hrest, ?_, fun hin => ?_⟩
    · rw [List.cons_append, List.map_cons, replaceText_cons_of_not_prefix hnot, hreplaced]
      rfl
    · rw [List.cons_append, List.map_cons, List.infix_cons_iff] at hin
      exact hsub (hin.resolve_left hnot)

/-- A match that is taken is passed over whole. -/
theorem TakenAtMarks.of_match {marks rest : List (Char × Bool)} (hne : needle ≠ [])
    (hmarks : marks.map (·.1) = needle) (h : TakenAtMarks needle 0 (marks ++ rest)) :
    TakenAtMarks needle 0 rest := by
  subst hmarks
  cases marks with
  | nil => exact absurd rfl hne
  | cons mark marks =>
    have hprefix : ((mark :: marks).map (·.1)).isPrefixOf
        (mark.1 :: (marks ++ rest).map (·.1)) = true := by
      rw [List.isPrefixOf_iff_prefix, List.map_append, List.map_cons]
      exact List.prefix_append _ _
    rw [List.cons_append, TakenAtMarks, if_pos hprefix] at h
    have hlength : ((mark :: marks).map (·.1)).length - 1 = marks.length := by
      rw [List.length_map, List.length_cons, Nat.add_sub_cancel]
    rw [hlength, takenAtMarks_append_of_length] at h
    exact h.2

end

namespace Piece

private theorem charMarks_eq (c : Char) :
    ∃ d tail, charMarks c = (d, true) :: tail ∧ ∀ mark ∈ tail, mark.2 = false := by
  obtain ⟨d, rest, hd, -⟩ := escaping_escapedReadable.head c
  refine ⟨d, (rest.zipIdx 1).map fun e => (e.1, e.2 == 0), ?_, fun mark hmark => ?_⟩
  · rw [charMarks, hd, List.zipIdx_cons, List.map_cons]
    rfl
  · obtain ⟨e, he, rfl⟩ := List.mem_map.mp hmark
    have hlater := List.le_snd_of_mem_zipIdx he
    exact beq_false_of_ne (by omega)

private theorem map_fst_charMarks (c : Char) : (charMarks c).map (·.1) = escapedReadable c := by
  rw [charMarks, List.map_map]
  exact List.zipIdx_map_fst 0 _

private theorem map_fst_flatMap_charMarks (t : Text) :
    (t.flatMap charMarks).map (·.1) = t.flatMap escapedReadable := by
  rw [List.map_flatMap]
  exact List.flatMap_congr fun c _ => map_fst_charMarks c

theorem map_fst_marks (piece : Piece) : piece.marks.map (·.1) = piece.text := by
  cases piece with
  | fixed t =>
    rw [marks, List.map_map]
    exact List.map_id t
  | value t =>
    rw [marks, List.map_append, map_fst_flatMap_charMarks]
    rfl

variable {before : Text} (after : Text)

/-- In a string value, what is replaced on the serialised text is what is replaced in the string. -/
private theorem replaced_value (hne : before ≠ []) {rest : List (Char × Bool)} (n : ℕ) :
    ∀ t : Text, t.length ≤ n →
      TakenAtMarks (inSerialised before) 0 ((value t).marks ++ rest) →
      TakenAtMarks (inSerialised before) 0 rest ∧
        replaceText (inSerialised before) (inSerialised after) 0
            (((value t).marks ++ rest).map (·.1)) =
          (value (replaceText before after 0 t)).text ++
            replaceText (inSerialised before) (inSerialised after) 0 (rest.map (·.1)) ∧
        (inSerialised before <:+: ((value t).marks ++ rest).map (·.1) →
          before <:+: t ∨ inSerialised before <:+: rest.map (·.1)) := by
  have hneedle := inSerialised_ne_nil hne
  -- by the length of the string: a match may pass over many of its characters
  induction n with
  | zero =>
    intro t hlen h
    rw [List.length_eq_zero_iff.mp (Nat.le_zero.mp hlen)] at h ⊢
    have hquote : ∀ mark ∈ (value []).marks, mark.2 = false := by
      simp [marks]
    obtain ⟨hrest, hreplaced, hsub⟩ :=
      TakenAtMarks.of_unmarked (inSerialised after) hquote h
    exact ⟨hrest, hreplaced, fun hin => Or.inr (hsub hin)⟩
  | succ n ih =>
    intro t hlen h
    cases t with
    | nil => exact ih [] (Nat.zero_le n) h
    | cons c t =>
      have hchars : ((value (c :: t)).marks ++ rest).map (·.1) =
          (c :: t).flatMap escapedReadable ++ '"' :: rest.map (·.1) := by
        rw [List.map_append, map_fst_marks, text, List.append_assoc]
        rfl
      by_cases hmatch : inSerialised before <+: ((value (c :: t)).marks ++ rest).map (·.1)
      · have hprefix : before <+: c :: t := by
          rw [hchars] at hmatch
          exact prefix_of_inSerialised_prefix hmatch
        obtain ⟨v, hv⟩ := hprefix
        have hshort : v.length ≤ n := by
          have hlength := congrArg List.length hv
          have hpos := List.length_pos_of_ne_nil hne
          rw [List.length_append, List.length_cons] at hlength
          rw [List.length_cons] at hlen
          omega
        have hmarks : (value (c :: t)).marks ++ rest =
            before.flatMap charMarks ++ ((value v).marks ++ rest) := by
          rw [← hv, marks, marks, List.flatMap_append, List.append_assoc, List.append_assoc,
            List.append_assoc]
        have hbefore : (before.flatMap charMarks).map (·.1) = inSerialised before := by
          rw [map_fst_flatMap_charMarks, inSerialised_eq]
        rw [hmarks] at h ⊢
        obtain ⟨hrest, hreplaced, -⟩ := ih v hshort (h.of_match hneedle hbefore)
        refine ⟨hrest, ?_, fun _ => Or.inl ⟨[], v, hv⟩⟩
        rw [List.map_append, hbefore, replaceText_prefix hneedle, hreplaced, ← hv,
          replaceText_prefix hne, text, text, List.flatMap_append, inSerialised_eq]
        simp only [List.append_assoc]
      · obtain ⟨d, tail, hd, htail⟩ := charMarks_eq c
        have hmarks : (value (c :: t)).marks ++ rest =
            (d, true) :: (tail ++ ((value t).marks ++ rest)) := by
          rw [marks, List.flatMap_cons, hd, marks]
          simp only [List.cons_append, List.append_assoc]
        have hnot : ¬ inSerialised before <+:
            d :: (tail ++ ((value t).marks ++ rest)).map (·.1) := by
          rw [hmarks, List.map_cons] at hmatch
          exact hmatch
        have hkept : ¬ before <+: c :: t := by
          rintro ⟨v, hv⟩
          refine hmatch ⟨v.flatMap escapedReadable ++ '"' :: rest.map (·.1), ?_⟩
          rw [hchars, ← hv, inSerialised_eq, List.flatMap_append, List.append_assoc]
        rw [hmarks, TakenAtMarks, if_neg (mt List.isPrefixOf_iff_prefix.mp hnot)] at h
        obtain ⟨hvalue, hpassed, hsub⟩ :=
          TakenAtMarks.of_unmarked (inSerialised after) htail h
        obtain ⟨hrest, hreplaced, hsub'⟩ := ih t (by simpa using hlen) hvalue
        refine ⟨hrest, ?_, fun hin => ?_⟩
        · have hescaped : d :: tail.map (·.1) = escapedReadable c := by
            rw [← map_fst_charMarks c, hd]
            rfl
          rw [hmarks, List.map_cons, replaceText_cons_of_not_prefix hnot, hpassed, hreplaced,
            replaceText_cons_of_not_prefix hkept, text, text, List.flatMap_cons, ← hescaped]
          simp only [List.cons_append, List.append_assoc]
        · rw [hmarks, List.map_cons, List.infix_cons_iff] at hin
          have hlater := hsub' (hsub (hin.resolve_left hnot))
          exact hlater.imp_left fun h => h.trans (List.suffix_cons c t).isInfix

/-- Over any pieces: the values are replaced, and what is not a value stays. -/
theorem replaced_pieces (hne : before ≠ []) {pieces : List Piece}
    (h : TakenAtMarks (inSerialised before) 0 (pieces.flatMap marks)) :
    replaceText (inSerialised before) (inSerialised after) 0 (pieces.flatMap text) =
        (pieces.map (substituted before after)).flatMap text ∧
      (inSerialised before <:+: pieces.flatMap text →
        ∃ t, value t ∈ pieces ∧ before <:+: t) := by
  have hchars : ∀ pieces : List Piece, (pieces.flatMap marks).map (·.1) = pieces.flatMap text := by
    intro pieces
    rw [List.map_flatMap]
    exact List.flatMap_congr fun piece _ => map_fst_marks piece
  induction pieces with
  | nil =>
    refine ⟨rfl, fun hin => ?_⟩
    exact absurd (List.infix_nil.mp hin) (inSerialised_ne_nil hne)
  | cons piece rest ih =>
    rw [List.flatMap_cons] at h
    have hsplit : (piece :: rest).flatMap text =
        (piece.marks ++ rest.flatMap marks).map (·.1) := by
      rw [← List.flatMap_cons, hchars]
    cases piece with
    | fixed t =>
      have hfixed : ∀ mark ∈ (fixed t).marks, mark.2 = false := by
        simp [marks]
      obtain ⟨hrest, hreplaced, hsub⟩ :=
        TakenAtMarks.of_unmarked (inSerialised after) hfixed h
      obtain ⟨hreplaced', hsub'⟩ := ih hrest
      refine ⟨?_, fun hin => ?_⟩
      · rw [hsplit, hreplaced, map_fst_marks, hchars, hreplaced']
        rfl
      · rw [hsplit] at hin
        have hlater := hsub hin
        rw [hchars] at hlater
        obtain ⟨u, hu, hbefore⟩ := hsub' hlater
        exact ⟨u, List.mem_cons_of_mem _ hu, hbefore⟩
    | value t =>
      obtain ⟨hrest, hreplaced, hsub⟩ := replaced_value after hne t.length t le_rfl h
      obtain ⟨hreplaced', hsub'⟩ := ih hrest
      refine ⟨?_, fun hin => ?_⟩
      · rw [hsplit, hreplaced, hchars, hreplaced']
        rfl
      · rw [hsplit] at hin
        rcases hsub hin with hhere | hlater
        · exact ⟨t, List.mem_cons_self .., hhere⟩
        · rw [hchars] at hlater
          obtain ⟨u, hu, hbefore⟩ := hsub' hlater
          exact ⟨u, List.mem_cons_of_mem _ hu, hbefore⟩

end Piece

/-! ### The pieces of a value -/

namespace Json

mutual

theorem text_pieces : (v : Json) → v.pieces.flatMap Piece.text = v.dumpsReadable
  | .null | .int _ | .float _ => List.append_nil _
  | .bool _ => List.append_nil _
  | .str t => by
    rw [pieces, List.flatMap_cons, List.flatMap_cons, List.flatMap_nil, List.append_nil]
    rfl
  | .arr items => by
    have hitems := text_piecesItems items
    rw [pieces, List.flatMap_cons, List.flatMap_append, hitems, dumpsReadable]
    rfl
  | .obj members => by
    have hmembers := text_piecesMembers members
    rw [pieces, List.flatMap_cons, List.flatMap_append, hmembers, dumpsReadable]
    rfl

theorem text_piecesItems :
    (items : List Json) → (piecesItems items).flatMap Piece.text = dumpsReadableItems items
  | [] => rfl
  | [item] => text_pieces item
  | item :: next :: rest => by
    have hitem := text_pieces item
    have hrest := text_piecesItems (next :: rest)
    rw [piecesItems, List.flatMap_append, List.flatMap_cons, hitem, hrest, dumpsReadableItems]
    rfl

theorem text_piecesMembers : (members : List (Text × Json)) →
    (piecesMembers members).flatMap Piece.text = dumpsReadableMembers members
  | [] => rfl
  | [(name, value)] => by
    have hvalue := text_pieces value
    rw [piecesMembers, List.flatMap_cons, hvalue, dumpsReadableMembers, Piece.text,
      List.append_assoc]
    rfl
  | (name, value) :: next :: rest => by
    have hvalue := text_pieces value
    have hrest := text_piecesMembers (next :: rest)
    rw [piecesMembers, List.flatMap_cons, List.flatMap_append, List.flatMap_cons, hvalue, hrest,
      dumpsReadableMembers, Piece.text, List.append_assoc]
    rfl

end

variable (before after : Text)

mutual

theorem pieces_substituted : (v : Json) →
    (v.substituted before after).pieces = v.pieces.map (Piece.substituted before after)
  | .null | .int _ | .float _ | .bool _ | .str _ => rfl
  | .arr items => by
    have hitems := piecesItems_substituted items
    rw [substituted, pieces, pieces, hitems, List.map_cons, List.map_append]
    rfl
  | .obj members => by
    have hmembers := piecesMembers_substituted members
    rw [substituted, pieces, pieces, hmembers, List.map_cons, List.map_append]
    rfl

theorem piecesItems_substituted : (items : List Json) →
    piecesItems (substitutedItems before after items) =
      (piecesItems items).map (Piece.substituted before after)
  | [] => rfl
  | [item] => pieces_substituted item
  | item :: next :: rest => by
    have hitem := pieces_substituted item
    have hrest := piecesItems_substituted (next :: rest)
    rw [substitutedItems] at hrest
    rw [substitutedItems, substitutedItems, piecesItems, piecesItems, hitem, hrest, List.map_append,
      List.map_cons]
    rfl

theorem piecesMembers_substituted : (members : List (Text × Json)) →
    piecesMembers (substitutedMembers before after members) =
      (piecesMembers members).map (Piece.substituted before after)
  | [] => rfl
  | [(name, value)] => by
    have hvalue := pieces_substituted value
    rw [substitutedMembers, substitutedMembers, piecesMembers, piecesMembers, hvalue, List.map_cons]
    rfl
  | (name, value) :: (next, value') :: rest => by
    have hvalue := pieces_substituted value
    have hrest := piecesMembers_substituted ((next, value') :: rest)
    rw [substitutedMembers] at hrest
    rw [substitutedMembers, substitutedMembers, piecesMembers, piecesMembers, hvalue, hrest,
      List.map_cons, List.map_append, List.map_cons]
    rfl

end

mutual

theorem value_mem_pieces_iff {t : Text} :
    (v : Json) → (Piece.value t ∈ v.pieces ↔ t ∈ v.stringValues)
  | .null | .int _ | .float _ | .bool _ => by simp [pieces, stringValues]
  | .str u => by simp [pieces, stringValues]
  | .arr items => by
    have hitems := value_mem_piecesItems_iff (t := t) items
    simp [pieces, stringValues, hitems]
  | .obj members => by
    have hmembers := value_mem_piecesMembers_iff (t := t) members
    simp [pieces, stringValues, hmembers]

theorem value_mem_piecesItems_iff {t : Text} :
    (items : List Json) → (Piece.value t ∈ piecesItems items ↔ t ∈ stringValuesItems items)
  | [] => by simp [piecesItems, stringValuesItems]
  | [item] => by
    have hitem := value_mem_pieces_iff (t := t) item
    simp [piecesItems, stringValuesItems, hitem]
  | item :: next :: rest => by
    have hitem := value_mem_pieces_iff (t := t) item
    have hrest := value_mem_piecesItems_iff (t := t) (next :: rest)
    rw [stringValuesItems, List.mem_append, ← hitem, ← hrest, piecesItems]
    simp

theorem value_mem_piecesMembers_iff {t : Text} : (members : List (Text × Json)) →
    (Piece.value t ∈ piecesMembers members ↔ t ∈ stringValuesMembers members)
  | [] => by simp [piecesMembers, stringValuesMembers]
  | [(name, value)] => by
    have hvalue := value_mem_pieces_iff (t := t) value
    simp [piecesMembers, stringValuesMembers, hvalue]
  | (name, value) :: next :: rest => by
    have hvalue := value_mem_pieces_iff (t := t) value
    have hrest := value_mem_piecesMembers_iff (t := t) (next :: rest)
    rw [stringValuesMembers, List.mem_append, ← hvalue, ← hrest, piecesMembers]
    simp

end

/-! ### What a substitution keeps -/

private theorem map_fst_substitutedMembers (members : List (Text × Json)) :
    (substitutedMembers before after members).map (·.1) = members.map (·.1) := by
  induction members with
  | nil => rfl
  | cons member rest ih =>
    obtain ⟨name, value⟩ := member
    rw [substitutedMembers, List.map_cons, List.map_cons, ih]

mutual

theorem valid_substituted : (v : Json) → v.Valid → (v.substituted before after).Valid
  | .null, h | .int _, h | .float _, h | .bool _, h | .str _, h => h
  | .arr items, h => validItems_substituted items h
  | .obj members, h => by
    refine ⟨?_, validMembers_substituted members h.2⟩
    rw [map_fst_substitutedMembers]
    exact h.1

theorem validItems_substituted : (items : List Json) → ValidItems items →
    ValidItems (substitutedItems before after items)
  | [], _ => trivial
  | item :: rest, h => ⟨valid_substituted item h.1, validItems_substituted rest h.2⟩

theorem validMembers_substituted : (members : List (Text × Json)) → ValidMembers members →
    ValidMembers (substitutedMembers before after members)
  | [], _ => trivial
  | (_, value) :: rest, h => ⟨valid_substituted value h.1, validMembers_substituted rest h.2⟩

end

mutual

/-- The same names, the same lengths, and the same values where they are no strings. -/
theorem shape_substituted : (v : Json) → (v.substituted before after).shape = v.shape
  | .null | .int _ | .float _ | .bool _ | .str _ => rfl
  | .arr items => congrArg arr (shapeItems_substituted items)
  | .obj members => congrArg obj (shapeMembers_substituted members)

theorem shapeItems_substituted :
    (items : List Json) → shapeItems (substitutedItems before after items) = shapeItems items
  | [] => rfl
  | item :: rest => congrArg₂ List.cons (shape_substituted item) (shapeItems_substituted rest)

theorem shapeMembers_substituted : (members : List (Text × Json)) →
    shapeMembers (substitutedMembers before after members) = shapeMembers members
  | [] => rfl
  | (name, value) :: rest =>
    congrArg₂ List.cons (congrArg (name, ·) (shape_substituted value))
      (shapeMembers_substituted rest)

end

variable {before} {body : Json}

/-- At a turn whose matches are all in string values: the serialised body becomes that of the
substitution, and a text is found in it where a string value holds it. -/
theorem dumpsReadable_substituted (hne : before ≠ [])
    (h : TakenAtMarks (inSerialised before) 0 body.marked) :
    replaceText (inSerialised before) (inSerialised after) 0 body.dumpsReadable =
        (body.substituted before after).dumpsReadable ∧
      (inSerialised before <:+: body.dumpsReadable ↔ body.Holds before) := by
  obtain ⟨hreplaced, hfound⟩ := Piece.replaced_pieces after hne h
  rw [text_pieces] at hreplaced hfound
  refine ⟨?_, fun hin => ?_, ?_⟩
  · rw [hreplaced, ← pieces_substituted, text_pieces]
  · obtain ⟨t, ht, hbefore⟩ := hfound hin
    exact ⟨t, (value_mem_pieces_iff body).mp ht, hbefore⟩
  · rintro ⟨t, ht, u, w, rfl⟩
    have hpiece := (value_mem_pieces_iff body).mpr ht
    obtain ⟨first, last, hsplit⟩ := List.append_of_mem hpiece
    rw [← text_pieces, hsplit, List.flatMap_append, List.flatMap_cons, Piece.text,
      List.flatMap_append, List.flatMap_append, inSerialised_eq]
    exact ⟨first.flatMap Piece.text ++ u.flatMap escapedReadable,
      w.flatMap escapedReadable ++ (['"'] ++ last.flatMap Piece.text), by
        simp only [List.append_assoc]⟩

end Json

/-! ### The rewritten body -/

/-- Where every match lies within the string values, the serialised body goes through the turns as
the substitution does. -/
theorem rewrittenText_dumpsReadable {body : Json} {rewrites : List (Text × Text)}
    (hne : ∀ rewrite ∈ rewrites, rewrite.1 ≠ []) (h : Within body rewrites) :
    rewrittenText body.dumpsReadable rewrites =
      (substitution body rewrites).map Json.dumpsReadable := by
  induction rewrites generalizing body with
  | nil => rfl
  | cons rewrite rest ih =>
    obtain ⟨before, after⟩ := rewrite
    rw [List.forall_mem_cons] at hne
    obtain ⟨hreplaced, hfound⟩ := Json.dumpsReadable_substituted after hne.1 h.1
    rw [rewrittenText, substitution]
    by_cases hholds : body.Holds before
    · rw [if_pos (hfound.mpr hholds), if_pos hholds, hreplaced]
      exact ih hne.2 (h.2 hholds)
    · rw [if_neg (mt hfound.mp hholds), if_neg hholds]
      rfl

private theorem substitution_spec {body stored : Json} {rewrites : List (Text × Text)}
    (hvalid : body.Valid) (h : substitution body rewrites = some stored) :
    stored.Valid ∧ stored.shape = body.shape := by
  induction rewrites generalizing body with
  | nil =>
    cases h
    exact ⟨hvalid, rfl⟩
  | cons rewrite rest ih =>
    obtain ⟨before, after⟩ := rewrite
    rw [substitution] at h
    by_cases hholds : body.Holds before
    · rw [if_pos hholds] at h
      obtain ⟨hstored, hshape⟩ := ih (Json.valid_substituted before after body hvalid) h
      exact ⟨hstored, hshape.trans (Json.shape_substituted before after body)⟩
    · rw [if_neg hholds] at h
      exact absurd h.symm (Option.some_ne_none _)

/-- **What is stored is the substitution over the body's texts, where every match that is replaced
starts at a character of a string value.** -/
theorem substitutesTexts_of_within {body : Json} {rewrites : List (Text × Text)}
    (hvalid : body.Valid) (hne : ∀ rewrite ∈ rewrites, rewrite.1 ≠ [])
    (h : Within body rewrites) : SubstitutesTexts body rewrites := by
  have htext := rewrittenText_dumpsReadable hne h
  cases hsubstitution : substitution body rewrites with
  | none =>
    rw [hsubstitution, Option.map_none] at htext
    left
    rw [rewrittenBody, Option.bind_eq_bind, Option.bind_some, htext]
    rfl
  | some stored =>
    rw [hsubstitution, Option.map_some] at htext
    obtain ⟨hstored, hshape⟩ := substitution_spec hvalid hsubstitution
    refine Or.inr ⟨stored, hsubstitution, hshape, ?_⟩
    rw [rewrittenBody, Option.bind_eq_bind, Option.bind_some, htext]
    exact Json.loads_dumpsReadable hstored

theorem substitutesTexts_greeting :
    SubstitutesTexts (.obj [("input", .str "Ann says\nhello")]) [("Ann", "[NAME]")] := by
  refine substitutesTexts_of_within ⟨by decide, trivial, trivial⟩ (by decide) ⟨?_, fun _ => trivial⟩
  decide +kernel

/-- A text that is also a key of the body. -/
def keyedBody : Json := .obj [("content", .str "content")]

/-- A text that is a letter of an escape in the body. -/
def letteredBody : Json := .obj [("input", .str "n\n")]

/-- **A match in a key and a match inside an escape are replaced as well.** -/
theorem rewrittenBody_corrupts :
    rewrittenBody (some keyedBody) [("content", "removed")] =
        some (.obj [("removed", .str "removed")]) ∧
      rewrittenBody (some letteredBody) [("n", "t")] = some (.obj [("itput", .str "t\t")]) := by
  decide +kernel

theorem not_substitutesTexts :
    ¬ ∀ (members : List (Text × Json)) (rewrites : List (Text × Text)), (Json.obj members).Valid →
      (∀ rewrite ∈ rewrites, rewrite.1 ≠ []) → SubstitutesTexts (.obj members) rewrites := by
  intro h
  have hkeyed := h [("content", .str "content")] [("content", "removed")]
    ⟨by decide, trivial, trivial⟩ (by decide)
  have hdone := rewrittenBody_corrupts.1
  rcases hkeyed with hnone | ⟨stored, hsubstitution, -, hstored⟩
  · exact absurd (hdone.symm.trans hnone) (Option.some_ne_none _)
  · have hmeant : substitution keyedBody [("content", "removed")] =
        some (.obj [("content", .str "removed")]) := by decide +kernel
    have hsame := (hdone.symm.trans hstored).trans (hsubstitution.symm.trans hmeant)
    exact absurd hsame (by decide)

end AiraGateway
