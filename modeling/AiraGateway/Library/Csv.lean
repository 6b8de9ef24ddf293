import Mathlib.Data.List.Basic

/-!
# Comma-separated tables

A table is written one record a line, its cells apart by a delimiter; a cell that could be taken for
more is quoted, and a quote in it doubled. A reader goes through the text character by character.

* `read_write`: a table is read as it was written, whichever cells are quoted beyond those that
  must be.
-/

namespace AiraGateway.Csv

universe u

/-- The characters that structure a text: two between cells, and two that end a record. -/
structure Dialect (α : Type u) where
  delimiter : α
  quote : α
  carriage : α
  feed : α
  quote_ne_delimiter : quote ≠ delimiter
  carriage_ne_delimiter : carriage ≠ delimiter
  carriage_ne_quote : carriage ≠ quote

variable {α : Type u} [DecidableEq α] (d : Dialect α)

/-! ### Writing -/

/-- Which cells are quoted: all, or those that must be. -/
inductive Quoting
  | all
  | minimal
  deriving DecidableEq

namespace Dialect

/-- A character that has a meaning outside quotes. -/
def Special (c : α) : Prop := c = d.delimiter ∨ c = d.quote ∨ c = d.carriage ∨ c = d.feed

instance (c : α) : Decidable (d.Special c) := inferInstanceAs (Decidable (_ ∨ _))

/-- A cell between quotes: each of its quotes is written twice. -/
def doubled : List α → List α
  | [] => []
  | c :: rest => if c = d.quote then c :: c :: doubled rest else c :: doubled rest

def quoted (cell : List α) : List α := d.quote :: (d.doubled cell ++ [d.quote])

/-- A cell as it is written. -/
def writeCell (quoting : Quoting) (cell : List α) : List α :=
  if quoting = .all ∨ ∃ c ∈ cell, d.Special c then d.quoted cell else cell

/-- The cells of a record, apart by delimiters. -/
def joined (quoting : Quoting) : List (List α) → List α
  | [] => []
  | [cell] => d.writeCell quoting cell
  | cell :: rest => d.writeCell quoting cell ++ d.delimiter :: joined quoting rest

/-- A record, and its end. An only cell that is empty is quoted, so that it is not none. -/
def writeRow (quoting : Quoting) (row : List (List α)) : List α :=
  (if row = [[]] then d.quoted [] else d.joined quoting row) ++ [d.carriage, d.feed]

def write (quoting : Quoting) (table : List (List (List α))) : List α :=
  table.flatMap (d.writeRow quoting)

/-! ### Reading -/

/-- Where a reader is. -/
inductive At
  /-- At the beginning of a record. -/
  | record
  /-- Behind a delimiter. -/
  | cell
  /-- In a cell without quotes. -/
  | plain
  /-- Between quotes. -/
  | quotes
  /-- Behind a quote that ends them, or is the first of two. -/
  | closed
  /-- In the middle of a record's end. -/
  | ended
  deriving DecidableEq

/-- The table that a text is, or nothing where it is none: what a reader makes of a text, which has
the cells of the record before and the characters of the cell it is in. -/
def readFrom (cells : List (List α)) (cell : List α) : At → List α → Option (List (List (List α)))
  | .record, [] => some []
  | .cell, [] | .plain, [] | .closed, [] => some [cells ++ [cell]]
  | .quotes, [] | .ended, [] => none
  | .record, c :: rest =>
    if c = d.quote then readFrom cells [] .quotes rest
    else if c = d.delimiter then readFrom [[]] [] .cell rest
    else if c = d.carriage then readFrom [] [] .ended rest
    else if c = d.feed then none
    else readFrom cells [c] .plain rest
  | .cell, c :: rest =>
    if c = d.quote then readFrom cells [] .quotes rest
    else if c = d.delimiter then readFrom (cells ++ [[]]) [] .cell rest
    else if c = d.carriage then readFrom (cells ++ [[]]) [] .ended rest
    else if c = d.feed then none
    else readFrom cells [c] .plain rest
  | .plain, c :: rest =>
    if c = d.quote then none
    else if c = d.delimiter then readFrom (cells ++ [cell]) [] .cell rest
    else if c = d.carriage then readFrom (cells ++ [cell]) [] .ended rest
    else if c = d.feed then none
    else readFrom cells (cell ++ [c]) .plain rest
  | .quotes, c :: rest =>
    if c = d.quote then readFrom cells cell .closed rest
    else readFrom cells (cell ++ [c]) .quotes rest
  | .closed, c :: rest =>
    if c = d.quote then readFrom cells (cell ++ [c]) .quotes rest
    else if c = d.delimiter then readFrom (cells ++ [cell]) [] .cell rest
    else if c = d.carriage then readFrom (cells ++ [cell]) [] .ended rest
    else none
  | .ended, c :: rest =>
    if c = d.feed then (readFrom [] [] .record rest).map (cells :: ·) else none

def read (text : List α) : Option (List (List (List α))) := d.readFrom [] [] .record text

variable {d} {cells : List (List α)} {cell : List α} {text : List α}

/-- Between quotes a cell is read up to the quote that ends it. -/
theorem readFrom_doubled (start : List α) :
    d.readFrom cells start .quotes (d.doubled cell ++ d.quote :: text) =
      d.readFrom cells (start ++ cell) .closed text := by
  induction cell generalizing start with
  | nil => simp [doubled, readFrom]
  | cons c rest ih =>
    by_cases hc : c = d.quote
    · simp [doubled, readFrom, hc, ih]
    · simp [doubled, readFrom, hc, ih]

/-- A cell without special characters is read to its end. -/
theorem readFrom_plain (start : List α) (h : ∀ c ∈ cell, ¬d.Special c) :
    d.readFrom cells start .plain (cell ++ text) =
      d.readFrom cells (start ++ cell) .plain text := by
  induction cell generalizing start with
  | nil => simp
  | cons c rest ih =>
    rw [List.forall_mem_cons] at h
    obtain ⟨hdelimiter, hquote, hcarriage, hfeed⟩ :
        c ≠ d.delimiter ∧ c ≠ d.quote ∧ c ≠ d.carriage ∧ c ≠ d.feed := by
      simpa [Special] using h.1
    rw [List.cons_append, readFrom, if_neg hquote, if_neg hdelimiter, if_neg hcarriage,
      if_neg hfeed, ih _ h.2, List.append_assoc, List.singleton_append]

/-- Where a cell begins: behind a delimiter, or with its record. -/
inductive Begins : List (List α) → At → Prop
  | record : Begins [] .record
  | cell (cells : List (List α)) : Begins cells .cell

variable {p : At}

theorem readFrom_quoted (h : Begins cells p) :
    d.readFrom cells [] p (d.quoted cell ++ text) = d.readFrom cells cell .closed text := by
  have hquotes := @readFrom_doubled α _ d cells cell text []
  cases h with
  | record => simpa [quoted, readFrom] using hquotes
  | cell => simpa [quoted, readFrom] using hquotes

theorem readFrom_unquoted (h : Begins cells p) (hsome : cell ≠ [])
    (hplain : ∀ c ∈ cell, ¬d.Special c) :
    d.readFrom cells [] p (cell ++ text) = d.readFrom cells cell .plain text := by
  obtain ⟨c, rest, rfl⟩ := List.exists_cons_of_ne_nil hsome
  have hrest := fun c hc => hplain c (List.mem_cons_of_mem _ hc)
  obtain ⟨hdelimiter, hquote, hcarriage, hfeed⟩ :
      c ≠ d.delimiter ∧ c ≠ d.quote ∧ c ≠ d.carriage ∧ c ≠ d.feed := by
    simpa [Special] using hplain c List.mem_cons_self
  cases h with
  | record =>
    rw [List.cons_append, readFrom, if_neg hquote, if_neg hdelimiter, if_neg hcarriage,
      if_neg hfeed, readFrom_plain _ hrest, List.singleton_append]
  | cell =>
    rw [List.cons_append, readFrom, if_neg hquote, if_neg hdelimiter, if_neg hcarriage,
      if_neg hfeed, readFrom_plain _ hrest, List.singleton_append]

/-- A cell that a delimiter follows. -/
theorem readFrom_writeCell_delimiter (quoting : Quoting) (h : Begins cells p) :
    d.readFrom cells [] p (d.writeCell quoting cell ++ d.delimiter :: text) =
      d.readFrom (cells ++ [cell]) [] .cell text := by
  have hquote := d.quote_ne_delimiter.symm
  rw [writeCell]
  split_ifs with hquoted
  · rw [readFrom_quoted h, readFrom, if_neg hquote, if_pos rfl]
  · by_cases hsome : cell = []
    · subst hsome
      cases h with
      | record => rw [List.nil_append, readFrom, if_neg hquote, if_pos rfl, List.nil_append]
      | cell => rw [List.nil_append, readFrom, if_neg hquote, if_pos rfl]
    · have hplain : ∀ c ∈ cell, ¬d.Special c :=
        fun c hc hspecial => hquoted (.inr ⟨c, hc, hspecial⟩)
      rw [readFrom_unquoted h hsome hplain, readFrom, if_neg hquote, if_pos rfl]

/-- The last cell of a record. -/
theorem readFrom_writeCell_end (quoting : Quoting) (h : Begins cells p)
    (hseen : p = .record → cell ≠ []) :
    d.readFrom cells [] p (d.writeCell quoting cell ++ d.carriage :: d.feed :: text) =
      (d.read text).map ((cells ++ [cell]) :: ·) := by
  have hquote := d.carriage_ne_quote
  have hdelimiter := d.carriage_ne_delimiter
  have hended : d.readFrom (cells ++ [cell]) [] .ended (d.feed :: text) =
      (d.read text).map ((cells ++ [cell]) :: ·) := by
    rw [readFrom, if_pos rfl, read]
  rw [writeCell]
  split_ifs with hquoted
  · rw [readFrom_quoted h, readFrom, if_neg hquote, if_neg hdelimiter, if_pos rfl, hended]
  · by_cases hsome : cell = []
    · subst hsome
      cases h with
      | record => exact absurd rfl (hseen rfl)
      | cell =>
        rw [List.nil_append, readFrom, if_neg hquote, if_neg hdelimiter, if_pos rfl, hended]
    · have hplain : ∀ c ∈ cell, ¬d.Special c :=
        fun c hc hspecial => hquoted (.inr ⟨c, hc, hspecial⟩)
      rw [readFrom_unquoted h hsome hplain, readFrom, if_neg hquote, if_neg hdelimiter, if_pos rfl,
        hended]

theorem readFrom_joined (quoting : Quoting) {row : List (List α)} (h : Begins cells p)
    (hrow : row ≠ []) (hseen : p = .record → row ≠ [[]]) :
    d.readFrom cells [] p (d.joined quoting row ++ d.carriage :: d.feed :: text) =
      (d.read text).map ((cells ++ row) :: ·) := by
  induction row generalizing cells p with
  | nil => exact absurd rfl hrow
  | cons cell rest ih =>
    cases rest with
    | nil =>
      exact readFrom_writeCell_end quoting h fun hrecord hempty => hseen hrecord (hempty ▸ rfl)
    | cons next rest =>
      have hnext := ih (Begins.cell (cells ++ [cell])) (List.cons_ne_nil _ _) nofun
      have hjoined : d.joined quoting (cell :: next :: rest) =
          d.writeCell quoting cell ++ d.delimiter :: d.joined quoting (next :: rest) := rfl
      rw [hjoined, List.append_assoc, List.cons_append, readFrom_writeCell_delimiter quoting h,
        hnext, List.append_assoc, List.singleton_append]

theorem read_writeRow (quoting : Quoting) (row : List (List α)) :
    d.read (d.writeRow quoting row ++ text) = (d.read text).map (row :: ·) := by
  have hquote := d.carriage_ne_quote
  have hdelimiter := d.carriage_ne_delimiter
  rw [writeRow, read, List.append_assoc]
  split_ifs with honly
  · rw [readFrom_quoted .record, honly]
    simp [readFrom, hquote, hdelimiter, read]
  · by_cases hnone : row = []
    · simp [hnone, joined, readFrom, hquote, hdelimiter, read]
    · exact readFrom_joined quoting .record hnone fun _ => honly

/-- **A table is read as it was written.** -/
theorem read_write (quoting : Quoting) (table : List (List (List α))) :
    d.read (d.write quoting table) = some table := by
  induction table with
  | nil => rfl
  | cons row rest ih =>
    rw [write, List.flatMap_cons, read_writeRow]
    rw [write] at ih
    rw [ih]
    rfl

end Dialect

end AiraGateway.Csv
