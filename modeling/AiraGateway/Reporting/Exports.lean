import AiraGateway.Common.Money
import AiraGateway.Library.Csv
import AiraGateway.Reporting.Spend

/-!
# Exports somebody opens in a spreadsheet

The usage report, the register of processing activities and a smoke test's evaluation are handed out
as comma-separated tables. They hold text that callers and models wrote, and a cell that begins like
a formula is one to a spreadsheet: it is marked as text.

* `exports_readBack`: a reader of an export gets the rows and values it was made of, whatever
  characters are in them, and no formula.
-/

namespace AiraGateway.Reporting

/-! ### What a cell may start with -/

/-- What is put into a cell. -/
inductive Cell
  | text (t : CodePoints)
  | number (n : ℤ)
  | nothing
  deriving DecidableEq

def numberText (n : ℤ) : CodePoints :=
  (if n < 0 then [45] else []) ++ points (Nat.toDigits 10 n.natAbs)

namespace Cell

/-- A value as it is written. -/
def written : Cell → CodePoints
  | .text t => t
  | .number n => numberText n
  | .nothing => []

/-- A number, or nothing where there is none. -/
def ofNumber (n : Option ℤ) : Cell := n.elim nothing number

end Cell

/-- The characters a spreadsheet takes for the beginning of a formula. -/
def formulaStarters : List ℕ := [61, 43, 45, 64, 9, 13]

/-- What makes the rest of a cell text. -/
def textMarker : ℕ := 39

/-- What a spreadsheet takes for a formula. -/
def Formula (cell : CodePoints) : Prop := ∃ c ∈ cell.head?, c ∈ formulaStarters

instance (cell : CodePoints) : Decidable (Formula cell) :=
  inferInstanceAs (Decidable (∃ c ∈ cell.head?, c ∈ formulaStarters))

/-- A value made safe to write. -/
def safeCell : Cell → Cell
  | .text t => .text (if Formula t then textMarker :: t else t)
  | other => other

/-- A cell shows a value: as it is, or marked as text. -/
def Shows (cell : CodePoints) (value : Cell) : Prop :=
  cell = value.written ∨ Formula value.written ∧ cell = textMarker :: value.written

/-- A cell that begins like a formula is a negative number. -/
def Harmless (cell : CodePoints) : Prop := Formula cell → ∃ n < 0, cell = numberText n

theorem shows_safeCell (value : Cell) : Shows (safeCell value).written value := by
  cases value with
  | text t =>
    by_cases h : Formula t
    · refine .inr ⟨h, ?_⟩
      rw [safeCell, if_pos h]
      rfl
    · refine .inl ?_
      rw [safeCell, if_neg h]
  | number n => exact .inl rfl
  | nothing => exact .inl rfl

theorem not_formula_numberText {n : ℤ} (h : 0 ≤ n) : ¬Formula (numberText n) := by
  rintro ⟨c, hc, hstarts⟩
  have hdigits : c ∈ points (Nat.toDigits 10 n.natAbs) := by
    rw [numberText, if_neg (not_lt.mpr h), List.nil_append] at hc
    exact List.mem_of_mem_head? hc
  obtain ⟨char, hchar, rfl⟩ := List.mem_map.mp hdigits
  have hdigit := Nat.isDigit_of_mem_toDigits (by decide) (by decide) hchar
  have hzero : '0'.toNat = 48 := rfl
  have hnine : '9'.toNat = 57 := rfl
  rw [Char.isDigit_iff_toNat, hzero, hnine] at hdigit
  simp only [formulaStarters, List.mem_cons, List.not_mem_nil, or_false] at hstarts
  omega

/-- **What is made safe is no formula**, a negative number apart. -/
theorem harmless_safeCell (value : Cell) : Harmless (safeCell value).written := by
  intro h
  cases value with
  | text t =>
    by_cases hformula : Formula t
    · rw [safeCell, if_pos hformula] at h
      obtain ⟨c, hc, hstarts⟩ := h
      cases hc
      exact absurd hstarts (by decide)
    · rw [safeCell, if_neg hformula] at h
      exact absurd h hformula
  | number n =>
    by_cases hneg : n < 0
    · exact ⟨n, hneg, rfl⟩
    · exact absurd h (not_formula_numberText (not_lt.mp hneg))
  | nothing =>
    obtain ⟨c, hc, -⟩ := h
    cases hc

example : safeCell (.text "=1+1") = .text "'=1+1" := by decide

/-! ### The file -/

def commas : Csv.Dialect ℕ where
  delimiter := 44
  quote := 34
  carriage := 13
  feed := 10
  quote_ne_delimiter := by decide
  carriage_ne_delimiter := by decide
  carriage_ne_quote := by decide

def bom : ℕ := 0xFEFF

/-- A table as a file. -/
def file (quoting : Csv.Quoting) (table : List (List CodePoints)) : CodePoints :=
  bom :: commas.write quoting table

/-- A reader of the file gets the values, and no formula. -/
def ReadBack (file : CodePoints) (values : List (List Cell)) : Prop :=
  file.head? = some bom ∧ ∃ table, commas.read file.tail = some table ∧
    List.Forall₂ (List.Forall₂ Shows) table values ∧
    ∀ row ∈ table, ∀ cell ∈ row, Harmless cell

/-- A row that is written as it is, and one that is made safe. -/
def safeRow (row : List Cell) : List CodePoints := row.map fun value => (safeCell value).written

def plainRow (row : List Cell) : List CodePoints := row.map Cell.written

/-- How a row is written: its values as they are, or made safe. -/
structure Line where
  values : List Cell
  safe : Bool

def Line.cells (line : Line) : List CodePoints :=
  if line.safe then safeRow line.values else plainRow line.values

/-- A row that is written as it is holds no formula. -/
def Line.Plain (line : Line) : Prop :=
  line.safe = false → ∀ value ∈ line.values, ¬Formula value.written

theorem Line.plain_safe (values : List Cell) : Line.Plain ⟨values, true⟩ := nofun

theorem Line.plain_nil : Line.Plain ⟨[], false⟩ := fun _ _ h => absurd h List.not_mem_nil

/-- A file whose rows are made safe, or hold no formula, is read back. -/
theorem readBack_file (quoting : Csv.Quoting) {lines : List Line}
    (h : ∀ line ∈ lines, line.Plain) :
    ReadBack (file quoting (lines.map Line.cells)) (lines.map Line.values) := by
  refine ⟨rfl, lines.map Line.cells, Csv.Dialect.read_write .., ?_, fun row hrow cell hcell => ?_⟩
  · rw [List.forall₂_map_left_iff, List.forall₂_map_right_iff]
    refine List.forall₂_same.mpr fun line _ => ?_
    rw [Line.cells]
    split_ifs
    · exact List.forall₂_map_left_iff.mpr
        (List.forall₂_same.mpr fun value _ => shows_safeCell value)
    · exact List.forall₂_map_left_iff.mpr (List.forall₂_same.mpr fun value _ => .inl rfl)
  · obtain ⟨line, hline, rfl⟩ := List.mem_map.mp hrow
    rw [Line.cells] at hcell
    split_ifs at hcell with hsafe
    · obtain ⟨value, -, rfl⟩ := List.mem_map.mp hcell
      exact harmless_safeCell value
    · obtain ⟨value, hvalue, rfl⟩ := List.mem_map.mp hcell
      have hplain : line.safe = false := by simpa using hsafe
      exact fun hformula => absurd hformula (h line hline hplain value hvalue)

/-! ### The usage report -/

/-- The columns of the usage report, of which the last two say how long requests took. -/
def usageColumns (currency : CodePoints) : List CodePoints :=
  ["key", "requests", "failed", "prompt_tokens", "completion_tokens", "total_tokens",
    ("cost_" : CodePoints) ++ lower currency, "unpriced_requests", "unmetered_requests",
    "avg_latency_ms", "max_latency_ms"]

/-- A row of the report, or nothing where its cost cannot be stated. -/
def usageRow (row : Figures) : Option (List Cell) := do
  let cost ← formatDisplay row.costNanos
  return [.text row.key, .number row.requests, .number row.failedRequests,
    .number row.promptTokens, .number row.completionTokens, .number row.totalTokens, .text cost,
    .number row.unpricedRequests, .number row.unmeteredRequests,
    row.latency.elim (.number 0) fun latency => .ofNumber latency.average,
    row.latency.elim (.number 0) fun latency => .ofNumber latency.longest]

/-- That a cost is a lower bound, for want of a price or of a count. -/
def unpricedNote (unpriced unmetered : ℕ) : CodePoints :=
  ("# " : CodePoints) ++ numberText unpriced ++
    (" request(s) have no cost, so the cost column is a lower bound. Of those, " : CodePoints) ++
    numberText unmetered ++
    (" reported no token usage for anything to be priced from; the remaining " : CodePoints) ++
    numberText (unpriced - unmetered : ℤ) ++
    (" ran on a model with no price on file." : CodePoints)

/-- That a cost is a lower bound, for callers who left. -/
def partialNote (n : ℕ) : CodePoints :=
  ("# " : CodePoints) ++ numberText n ++
    (" request(s) were left by their caller before the provider reported what they used; they are "
      : CodePoints) ++
    ("booked at what could be established — the request and the answer received — so the cost "
      : CodePoints) ++ ("column is a lower bound." : CodePoints)

/-- A note below a table, apart from it. -/
def note (there : Bool) (text : CodePoints) : List Line :=
  if there then [⟨[], false⟩, ⟨[.text text], false⟩] else []

/-- The lines of the usage report. -/
def usageLines (sheet : Spreadsheet) (currency : CodePoints) (rows : List (List Cell)) :
    List Line :=
  let kept := if sheet.latency then 11 else 9
  let unpriced := (sheet.rows.map (·.unpricedRequests)).foldl (· + ·) 0
  let unmetered := (sheet.rows.map (·.unmeteredRequests)).foldl (· + ·) 0
  let leftEarly := (sheet.rows.map (·.partialUsageRequests)).foldl (· + ·) 0
  ⟨((usageColumns currency).take kept).map .text, false⟩ ::
    rows.map (fun row => ⟨row.take kept, true⟩) ++
    note (unpriced ≠ 0) (unpricedNote unpriced unmetered) ++
    note (leftEarly ≠ 0) (partialNote leftEarly)

/-- One breakdown of the report as a file, or nothing where a cost cannot be stated. -/
def render (sheet : Spreadsheet) (currency : CodePoints) : Option CodePoints := do
  let rows ← sheet.rows.mapM usageRow
  return file .minimal ((usageLines sheet currency rows).map Line.cells)

theorem plain_note {there : Bool} {text : CodePoints} (h : ¬Formula text) :
    ∀ line ∈ note there text, line.Plain := by
  rw [note]
  split_ifs
  · simp only [List.forall_mem_cons]
    refine ⟨Line.plain_nil, fun _ => ?_, fun _ h => absurd h List.not_mem_nil⟩
    exact List.forall_mem_singleton.mpr h
  · exact fun _ h => absurd h List.not_mem_nil

theorem not_formula_of_head {c : ℕ} {text : CodePoints} (h : c ∉ formulaStarters) :
    ¬Formula (c :: text) := by
  rintro ⟨d, hd, hstarts⟩
  cases hd
  exact h hstarts

theorem usageColumns_plain (currency : CodePoints) :
    ∀ cell ∈ usageColumns currency, ¬Formula cell := by
  have hcost : ¬Formula (("cost_" : CodePoints) ++ lower currency) :=
    not_formula_of_head (by decide : 99 ∉ formulaStarters)
  simp only [usageColumns, List.forall_mem_cons]
  exact ⟨by decide, by decide, by decide, by decide, by decide, by decide, hcost, by decide,
    by decide, by decide, by decide, fun _ h => absurd h List.not_mem_nil⟩

theorem exists_mapM_usageRow {figures : List Figures}
    (h : ∀ row ∈ figures, Statable row.costNanos) :
    ∃ rows, figures.mapM usageRow = some rows := by
  induction figures with
  | nil => exact ⟨[], rfl⟩
  | cons row rest ih =>
    rw [List.forall_mem_cons] at h
    obtain ⟨rows, hrows⟩ := ih h.2
    rw [List.mapM_cons, hrows, usageRow, formatDisplay, if_pos h.1]
    exact ⟨_, rfl⟩

/-- **The usage report is read back**, where its costs can be stated. -/
theorem usage_readBack {sheet : Spreadsheet} (currency : CodePoints)
    (h : ∀ row ∈ sheet.rows, Statable row.costNanos) :
    ∃ text rows, render sheet currency = some text ∧ sheet.rows.mapM usageRow = some rows ∧
      ReadBack text ((usageLines sheet currency rows).map Line.values) := by
  obtain ⟨rows, hrows⟩ := exists_mapM_usageRow h
  refine ⟨_, rows, by rw [render, hrows]; rfl, hrows, readBack_file .minimal ?_⟩
  have hhash : ∀ text, ¬Formula (35 :: text) :=
    fun text => not_formula_of_head (by decide : 35 ∉ formulaStarters)
  simp only [usageLines, List.forall_mem_append, List.forall_mem_cons, List.forall_mem_map]
  refine ⟨⟨⟨fun _ value hvalue => ?_, fun row _ => Line.plain_safe _⟩, plain_note (hhash _)⟩,
    plain_note (hhash _)⟩
  obtain ⟨cell, hcell, rfl⟩ := List.mem_map.mp hvalue
  exact usageColumns_plain currency cell (List.mem_of_mem_take hcell)

/-! ### The register of processing activities -/

/-- A model that a use case may call, and where the catalogue says it lives. -/
structure ReleasedModel where
  name : CodePoints
  provider : CodePoints
  regions : List CodePoints
  approved : Bool
  catalogued : Bool

/-- Where traffic went. -/
structure Processed where
  region : CodePoints
  provider : CodePoints
  requests : ℤ

/-- A use case, as the register reads it. -/
structure Entry where
  slug : CodePoints
  name : CodePoints
  status : CodePoints
  purpose : CodePoints
  processing : CodePoints
  models : List ReleasedModel
  promptsStored : Bool
  retentionDays : Option ℤ
  contentVisibility : CodePoints
  tools : Bool
  promptCaching : Bool
  cacheTtl : CodePoints
  reasoning : Bool
  members : ℤ
  groups : ℤ
  requests : ℤ
  processedIn : List Processed
  unexpectedRegions : List CodePoints

/-- The last retention pass, with its moment on the installation's clock. -/
structure Erasure where
  ranAt : CodePoints
  payloadsCleared : ℤ
  rowsDeleted : ℤ

structure Register where
  entries : List Entry
  processedIn : List Processed
  lastErasure : Option Erasure

/-- Texts one below the other. -/
def inLines (texts : List CodePoints) : CodePoints := List.intercalate [10] texts

def orElse (text other : CodePoints) : CodePoints := if text = [] then other else text

namespace Entry

variable (entry : Entry)

def modelNames : CodePoints := inLines (entry.models.map (·.name))

/-- Where the catalogue says each model lives. -/
def provenance : CodePoints :=
  inLines (entry.models.map fun model =>
    model.name ++ (": " : CodePoints) ++ orElse model.provider "uncatalogued" ++
      (" · " : CodePoints) ++
      if model.regions = [] then ("no region (addressed by name)" : CodePoints)
      else spoken model.regions)

/-- The models that the installation will not serve. -/
def unreleased : CodePoints :=
  inLines (entry.models.filterMap fun model =>
    if !model.catalogued then some (model.name ++ (": not in the catalogue" : CodePoints))
    else if !model.approved then some (model.name ++ (": not approved" : CodePoints)) else none)

def processed : CodePoints :=
  inLines (entry.processedIn.map fun place =>
    place.region ++ (" · " : CodePoints) ++ orElse place.provider "unknown provider" ++
      (": " : CodePoints) ++ numberText place.requests)

end Entry

def yesNo (b : Bool) : Cell := .text (if b then "yes" else "no")

def registerColumns : List CodePoints :=
  ["use_case", "name", "status", "purpose", "processing", "models", "provider_region",
    "unreleased_or_unapproved", "prompts_stored", "retention_days", "content_visibility", "tools",
    "prompt_caching", "cache_ttl", "reasoning", "members", "groups", "requests", "processed_in",
    "regions_outside_the_configuration"]

def Entry.row (entry : Entry) : List Cell :=
  [.text entry.slug, .text entry.name, .text entry.status, .text entry.purpose,
    .text entry.processing, .text entry.modelNames, .text entry.provenance, .text entry.unreleased,
    yesNo entry.promptsStored, .text (entry.retentionDays.elim [] numberText),
    .text entry.contentVisibility, yesNo entry.tools, yesNo entry.promptCaching,
    .text (if entry.promptCaching then entry.cacheTtl else []), yesNo entry.reasoning,
    .number entry.members, .number entry.groups, .number entry.requests, .text entry.processed,
    .text (spoken entry.unexpectedRegions)]

/-- The lines of the register of a window. -/
def registerLines (register : Register) (start stop : CodePoints) : List Line :=
  [⟨[.text (("# AIRA register of processing activities, " : CodePoints) ++ start ++
    (" to " : CodePoints) ++ stop)], true⟩, ⟨[], false⟩, ⟨registerColumns.map .text, false⟩] ++
  register.entries.map (fun entry => ⟨entry.row, true⟩) ++
  (match register.lastErasure with
    | some erasure =>
      [⟨[], false⟩, ⟨[.text "# the last retention pass"], true⟩,
        ⟨[.text "ran_at", .text "payloads_cleared", .text "rows_deleted"], false⟩,
        ⟨[.text erasure.ranAt, .number erasure.payloadsCleared, .number erasure.rowsDeleted], true⟩]
    | none =>
      [⟨[], false⟩,
        ⟨[.text (("# the retention sweep has no recorded pass — the deadlines above are " :
          CodePoints) ++ ("unverified" : CodePoints))], true⟩]) ++
  (if register.processedIn = [] then []
    else
      [⟨[], false⟩,
        ⟨[.text "# where this installation processed requests in this period"], true⟩,
        ⟨[.text "region", .text "provider", .text "requests"], false⟩] ++
      register.processedIn.map fun place =>
        ⟨[.text place.region, .text (orElse place.provider "unknown provider"),
          .number place.requests], true⟩)

def renderRegister (register : Register) (start stop : CodePoints) : CodePoints :=
  file .minimal ((registerLines register start stop).map Line.cells)

/-- **The register is read back.** -/
theorem register_readBack (register : Register) (start stop : CodePoints) :
    ReadBack (renderRegister register start stop)
      ((registerLines register start stop).map Line.values) := by
  have hcolumns : Line.Plain ⟨registerColumns.map .text, false⟩ := fun _ => by decide
  have herasure : Line.Plain
      ⟨[.text "ran_at", .text "payloads_cleared", .text "rows_deleted"], false⟩ :=
    fun _ => by decide
  have hplaces : Line.Plain ⟨[.text "region", .text "provider", .text "requests"], false⟩ :=
    fun _ => by decide
  have hend : ∀ line ∈ ([] : List Line), line.Plain := fun _ h => absurd h List.not_mem_nil
  refine readBack_file .minimal ?_
  simp only [registerLines, List.forall_mem_append, List.forall_mem_cons, List.forall_mem_map]
  refine ⟨⟨⟨⟨Line.plain_safe _, Line.plain_nil, hcolumns, hend⟩,
    fun entry _ => Line.plain_safe _⟩, ?_⟩, ?_⟩
  · split
    · simp only [List.forall_mem_cons]
      exact ⟨Line.plain_nil, Line.plain_safe _, herasure, Line.plain_safe _, hend⟩
    · simp only [List.forall_mem_cons]
      exact ⟨Line.plain_nil, Line.plain_safe _, hend⟩
  · split_ifs
    · exact hend
    · simp only [List.forall_mem_append, List.forall_mem_cons, List.forall_mem_map]
      exact ⟨⟨Line.plain_nil, Line.plain_safe _, hplaces, hend⟩, fun place _ => Line.plain_safe _⟩

/-! ### A smoke test's evaluation -/

/-- What a model said to a question, and what a person made of it; its moment is on the
installation's clock. -/
structure TestResult where
  topic : CodePoints
  prompt : CodePoints
  expectation : CodePoints
  response : CodePoints
  error : CodePoints
  latencyMs : Option ℤ
  verdict : CodePoints
  note : CodePoints
  ratedBy : Option CodePoints
  ratedAt : Option CodePoints

def evaluationColumns : List CodePoints :=
  ["topic", "prompt", "expectation", "response", "error", "latency_ms", "verdict", "note",
    "rated_by", "rated_at"]

def TestResult.row (result : TestResult) : List Cell :=
  [.text result.topic, .text result.prompt, .text result.expectation, .text result.response,
    .text result.error, result.latencyMs.elim (.text []) .number, .text result.verdict,
    .text result.note, .text (result.ratedBy.getD []), .text (result.ratedAt.getD [])]

def evaluationLines (results : List TestResult) : List Line :=
  ⟨evaluationColumns.map .text, false⟩ :: results.map fun result => ⟨result.row, true⟩

/-- The evaluation of a run, every cell quoted. -/
def runAsCsv (results : List TestResult) : CodePoints :=
  file .all ((evaluationLines results).map Line.cells)

/-- **An evaluation is read back.** -/
theorem evaluation_readBack (results : List TestResult) :
    ReadBack (runAsCsv results) ((evaluationLines results).map Line.values) := by
  have hcolumns : Line.Plain ⟨evaluationColumns.map .text, false⟩ := fun _ => by decide
  refine readBack_file .all ?_
  simp only [evaluationLines, List.forall_mem_cons, List.forall_mem_map]
  exact ⟨hcolumns, fun result _ => Line.plain_safe _⟩

/-! ### All of them -/

/-- **Every export is read back**: a reader gets the rows and values it was made of, and no
formula. -/
theorem exports_readBack :
    (∀ (sheet : Spreadsheet) (currency : CodePoints),
      (∀ row ∈ sheet.rows, Statable row.costNanos) →
        ∃ text rows, render sheet currency = some text ∧
          sheet.rows.mapM usageRow = some rows ∧
          ReadBack text ((usageLines sheet currency rows).map Line.values)) ∧
      (∀ (register : Register) (start stop : CodePoints),
        ReadBack (renderRegister register start stop)
          ((registerLines register start stop).map Line.values)) ∧
      ∀ results : List TestResult,
        ReadBack (runAsCsv results) ((evaluationLines results).map Line.values) :=
  ⟨fun _ currency h => usage_readBack currency h, register_readBack, evaluation_readBack⟩

end AiraGateway.Reporting
