import AiraGateway.Library.Text

/-!
# The lines of a text

`splitLines` cuts a text as `str.splitlines` does: at a line feed, a carriage return, the two in a
row, and at eight further characters. `endedLines` are the lines that are known to have ended, in a
text that goes on: a carriage return that it ends with may be half of an end.

* Where nothing is made of an empty line, the lines come to what the pieces between all those
  characters come to (`filterMap_splitLines`, `filterMap_endedLines`).
-/

namespace AiraGateway

/-- The characters a line ends at. -/
def isBoundary (c : Char) : Bool :=
  let n := c.toNat
  (0x0A ≤ n && n ≤ 0x0D) || (0x1C ≤ n && n ≤ 0x1E) || n = 0x85 || n = 0x2028 || n = 0x2029

/-- The lines from the start of one on. -/
def linesFrom (line : Text) : Text → List Text
  | [] => if line = [] then [] else [line]
  | '\r' :: '\n' :: rest => line :: linesFrom [] rest
  | c :: rest =>
    if isBoundary c then line :: linesFrom [] rest else linesFrom (line ++ [c]) rest

/-- `str.splitlines`. -/
def splitLines (t : Text) : List Text := linesFrom [] t

def endedFrom (line : Text) : Text → List Text
  | [] => []
  | ['\r'] => []
  | '\r' :: '\n' :: rest => line :: endedFrom [] rest
  | c :: rest =>
    if isBoundary c then line :: endedFrom [] rest else endedFrom (line ++ [c]) rest

/-- The lines that have ended in what is there of a text. -/
def endedLines (t : Text) : List Text := endedFrom [] t

example : splitLines "a\r\nb\n\nc\x0cd\n" = ["a", "b", "", "c", "d"] := by decide +kernel

variable {α : Type} {f : Text → Option α}

theorem splitOnP_line {line rest : Text} {c : Char} (hline : ∀ c ∈ line, isBoundary c = false)
    (hc : isBoundary c = true) :
    (line ++ c :: rest).splitOnP isBoundary = line :: rest.splitOnP isBoundary :=
  List.splitOnP_append_cons_of_forall_mem hline c hc rest

theorem splitOnP_crlf {line rest : Text} (hline : ∀ c ∈ line, isBoundary c = false) :
    (line ++ '\r' :: '\n' :: rest).splitOnP isBoundary
      = line :: [] :: rest.splitOnP isBoundary := by
  rw [splitOnP_line hline (by decide)]
  have hempty := @splitOnP_line [] rest '\n' (fun _ hmem => absurd hmem List.not_mem_nil)
    (by decide)
  exact congrArg _ hempty

theorem not_boundary_snoc {line : Text} {c : Char} (hline : ∀ c ∈ line, isBoundary c = false)
    (hc : ¬isBoundary c = true) : ∀ d ∈ line ++ [c], isBoundary d = false := by
  intro d hd
  rcases List.mem_append.mp hd with hd | hd
  · exact hline d hd
  · rw [List.mem_singleton.mp hd]
    exact (Bool.not_eq_true _).mp hc

theorem filterMap_linesFrom (hf : f [] = none) {line : Text} (t : Text)
    (hline : ∀ c ∈ line, isBoundary c = false) :
    (linesFrom line t).filterMap f = ((line ++ t).splitOnP isBoundary).filterMap f := by
  fun_induction linesFrom line t with
  | case1 => exact (List.filterMap_cons_none hf).symm
  | case2 line _ => rw [List.append_nil, List.splitOnP_eq_singleton hline]
  | case3 line rest ih =>
    -- between the two there is an empty piece
    have hrest := ih fun _ hmem => absurd hmem List.not_mem_nil
    rw [splitOnP_crlf hline, List.filterMap_cons, List.filterMap_cons, List.filterMap_cons_none hf,
      hrest]
    rfl
  | case4 line c rest _ hc ih =>
    have hrest := ih fun _ hmem => absurd hmem List.not_mem_nil
    rw [splitOnP_line hline hc, List.filterMap_cons, List.filterMap_cons, hrest]
    rfl
  | case5 line c rest _ hc ih =>
    rw [ih (not_boundary_snoc hline hc), List.append_assoc]
    rfl

/-- Where nothing is made of an empty line, lines and pieces come to the same. -/
theorem filterMap_splitLines (hf : f [] = none) (t : Text) :
    (splitLines t).filterMap f = (t.splitOnP isBoundary).filterMap f :=
  filterMap_linesFrom hf t fun _ hmem => absurd hmem List.not_mem_nil

theorem getLast?_cons_ne {c d : Char} {rest : Text} (h : (c :: rest).getLast? ≠ some d) :
    rest.getLast? ≠ some d := by
  cases rest with
  | nil => exact (Option.some_ne_none d).symm
  | cons e rest => rwa [List.getLast?_cons_cons] at h

theorem filterMap_endedFrom (hf : f [] = none) {line : Text} (t : Text)
    (hline : ∀ c ∈ line, isBoundary c = false) (hlast : t.getLast? ≠ some '\r') :
    (endedFrom line t).filterMap f =
      ((line ++ t).splitOnP isBoundary).dropLast.filterMap f := by
  fun_induction endedFrom line t with
  | case1 line => rw [List.append_nil, List.splitOnP_eq_singleton hline]; rfl
  | case2 line => exact absurd rfl hlast
  | case3 line rest ih =>
    have hrest := ih (fun _ hmem => absurd hmem List.not_mem_nil)
      (getLast?_cons_ne (getLast?_cons_ne hlast))
    rw [splitOnP_crlf hline, List.dropLast_cons_of_ne_nil (List.cons_ne_nil _ _),
      List.dropLast_cons_of_ne_nil (List.splitOnP_ne_nil _ _), List.filterMap_cons,
      List.filterMap_cons, List.filterMap_cons_none hf, hrest]
    rfl
  | case4 line c rest _ _ hc ih =>
    have hrest := ih (fun _ hmem => absurd hmem List.not_mem_nil) (getLast?_cons_ne hlast)
    rw [splitOnP_line hline hc, List.dropLast_cons_of_ne_nil (List.splitOnP_ne_nil _ _),
      List.filterMap_cons, List.filterMap_cons, hrest]
    rfl
  | case5 line c rest _ _ hc ih =>
    rw [ih (not_boundary_snoc hline hc) (getLast?_cons_ne hlast), List.append_assoc]
    rfl

/-- The lines that have ended come to what all pieces but the last one do. -/
theorem filterMap_endedLines (hf : f [] = none) {t : Text} (hlast : t.getLast? ≠ some '\r') :
    (endedLines t).filterMap f = (t.splitOnP isBoundary).dropLast.filterMap f :=
  filterMap_endedFrom hf t (fun _ hmem => absurd hmem List.not_mem_nil) hlast

/-- The pieces of a front, the last apart, are the first of the text. -/
theorem dropLast_splitOnP_prefix (t t' : Text) :
    (t.splitOnP isBoundary).dropLast <+: (t ++ t').splitOnP isBoundary := by
  induction t with
  | nil => exact List.nil_prefix
  | cons c t ih =>
    rw [List.cons_append, List.splitOnP_cons_eq_if_modifyHead,
      List.splitOnP_cons_eq_if_modifyHead]
    have hne := List.splitOnP_ne_nil isBoundary t
    split_ifs
    · rw [List.dropLast_cons_of_ne_nil hne]
      exact List.prefix_cons_inj _ |>.mpr ih
    · obtain ⟨piece, pieces, hpieces⟩ := List.exists_cons_of_ne_nil hne
      rw [hpieces] at ih ⊢
      cases pieces with
      | nil => exact List.nil_prefix
      | cons next pieces =>
        rw [List.dropLast_cons_of_ne_nil (List.cons_ne_nil _ _)] at ih
        obtain ⟨more, hmore⟩ := ih
        rw [← hmore]
        exact ⟨more, rfl⟩

end AiraGateway
