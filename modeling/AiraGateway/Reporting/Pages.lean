import AiraGateway.Common.Clock
import AiraGateway.Library.CivilDates
import AiraGateway.Library.Keyset
import AiraGateway.Persistence.Sanitize
import AiraGateway.Reporting.Traces
import Mathlib.Data.Prod.Lex
import Mathlib.Order.Lex

/-!
# Listings read page by page

The list of requests is read in pages, newest first: a page names the key its last row has, and the
next one is asked for behind it. Meanwhile rows are written and purged, and what a caller may see
changes.

* `traces_thorough`: who follows the cursors is shown nothing twice, all that is theirs to see
  throughout, and comes to an end.
-/

namespace AiraGateway.Reporting

open Access Sql

/-! ### The cursor -/

/-- Why a text is no timestamp: it is not written as one, or names a time that none expresses. -/
inductive TimestampError
  | value
  | overflow

/-- `datetime.isoformat` of a moment in UTC. -/
def isoformat (moment : ℤ) : CodePoints :=
  let time := (moment % (24 * LocalClock.hour)).toNat
  let fraction := time % 1000000
  dayText (moment / (24 * LocalClock.hour)) ++ 84 :: padded 2 (time / 3600000000) ++
    58 :: padded 2 (time / 60000000 % 60) ++ 58 :: padded 2 (time / 1000000 % 60) ++
    (if fraction = 0 then [] else 46 :: padded 6 fraction) ++ "+00:00"

/-- A cursor as a page names it. -/
def cursorText (cursor : ℤ × CodePoints) : CodePoints := isoformat cursor.1 ++ 124 :: cursor.2

def notTimestamp (field : CodePoints) : Refusal :=
  { status := 400
    message := points ("'" : Text) ++ field ++ points ("' is not an ISO-8601 timestamp." : Text)
    code := "INVALID_ARGUMENT" }

def outsideTime (field : CodePoints) : Refusal :=
  { status := 400
    message := points ("'" : Text) ++ field ++
      points ("' is outside the range of time this API can express." : Text)
    code := "INVALID_ARGUMENT" }

def notCursor : Refusal :=
  { status := 400
    message := "'cursor' is not a cursor from this endpoint."
    code := "INVALID_ARGUMENT" }

section Cursor

variable (fromisoformat : CodePoints → Except TimestampError ℤ)

/-- An ISO-8601 timestamp as an instant, or a refusal that names the field. -/
def parse (value field : CodePoints) : Except Refusal ℤ :=
  match fromisoformat value with
  | .ok moment => .ok moment
  | .error .value => .error (notTimestamp field)
  | .error .overflow => .error (outsideTime field)

/-- `<iso8601>|<id>`. -/
def parseCursor (cursor : CodePoints) : Except Refusal (ℤ × CodePoints) :=
  let stamp := cursor.takeWhile (· ≠ 124)
  let rowId := (cursor.dropWhile (· ≠ 124)).drop 1
  -- an id with a control character is no row's
  if rowId = [] ∨ Persistence.printable rowId ≠ rowId then .error notCursor
  else (parse fromisoformat stamp "cursor").map fun moment => (moment, rowId)

/-- A key that a cursor can be made of: an id there is, and a time that is read as written. -/
structure Continues (cursor : ℤ × CodePoints) : Prop where
  named : cursor.2 ≠ []
  printable : Persistence.printable cursor.2 = cursor.2
  read : fromisoformat (isoformat cursor.1) = .ok cursor.1

end Cursor

theorem bar_notMem_isoformat (moment : ℤ) : 124 ∉ isoformat moment := by
  have hpadded : ∀ width n, 124 ∉ padded width n := by
    intro width n h
    have hdigit := digit_of_mem_padded h
    omega
  have hday : 124 ∉ dayText (moment / (24 * LocalClock.hour)) := by
    simp [dayText, dateText, hpadded]
  have hfraction : ∀ fraction : ℕ, 124 ∉ if fraction = 0 then [] else 46 :: padded 6 fraction := by
    intro fraction
    split_ifs
    · exact List.not_mem_nil
    · simp [hpadded]
  have hzone : 124 ∉ ("+00:00" : CodePoints) := by decide
  simp only [isoformat, List.append_assoc, List.cons_append, List.mem_append, List.mem_cons, not_or]
  exact ⟨hday, by decide, hpadded _ _, by decide, hpadded _ _, by decide, hpadded _ _,
    hfraction _, hzone⟩

variable {fromisoformat : CodePoints → Except TimestampError ℤ}

/-- **A cursor is read as it was written.** -/
theorem parseCursor_cursorText {cursor : ℤ × CodePoints} (h : Continues fromisoformat cursor) :
    parseCursor fromisoformat (cursorText cursor) = .ok cursor := by
  have hstamp : ∀ c ∈ isoformat cursor.1, decide (c ≠ 124) = true := fun c hc =>
    decide_eq_true fun heq => bar_notMem_isoformat cursor.1 (heq ▸ hc)
  have htake : (cursorText cursor).takeWhile (· ≠ 124) = isoformat cursor.1 := by
    rw [cursorText, List.takeWhile_append_of_pos hstamp]
    simp
  have hdrop : ((cursorText cursor).dropWhile (· ≠ 124)).drop 1 = cursor.2 := by
    rw [cursorText, List.dropWhile_append_of_pos hstamp]
    simp
  rw [parseCursor, htake, hdrop]
  simp [h.named, h.printable, parse, h.read, Except.map]

/-! ### A listing -/

/-- When a row was written, and its id. -/
abbrev RowKey := ℤ ×ₗ CodePoints

theorem behind_iff {c : ℤ × CodePoints} {moment : ℤ} {id : CodePoints} :
    Selects (some (decide (moment < c.1) || (decide (moment = c.1) && decide (id < c.2)))) ↔
      toLex (moment, id) < toLex c := by
  rw [Selects, Option.some_inj, Prod.Lex.toLex_lt_toLex]
  simp

theorem select_append {α : Type} (conditions more : List (α → Truth)) (rows : List α) :
    select (conditions ++ more) rows = select more (select conditions rows) := by
  simp only [select, List.filter_filter, List.all_append, Bool.and_comm]

/-- Sorting asks a relation only what it says. -/
theorem insertionSort_congr {α : Type} {r s : α → α → Prop} [DecidableRel r] [DecidableRel s]
    (h : ∀ a b, r a b ↔ s a b) (rows : List α) : rows.insertionSort r = rows.insertionSort s := by
  obtain rfl : r = s := by
    funext a b
    exact propext (h a b)
  congr!

/-- What is selected behind a key and sorted is what is left to show. -/
theorem insertionSort_select {α : Type} {newestFirst : α → α → Prop} [DecidableRel newestFirst]
    {behind : ℤ × CodePoints → α → Truth} {key : α → RowKey}
    (hnewest : ∀ a b, newestFirst a b ↔ key b ≤ key a)
    (hbehind : ∀ k row, Selects (behind (ofLex k) row) ↔ key row < k) (before : Option RowKey)
    (rows : List α) :
    (select (before.elim [] fun k => [behind (ofLex k)]) rows).insertionSort newestFirst =
      Keyset.left key before rows := by
  have hrows : select (before.elim [] fun k => [behind (ofLex k)]) rows =
      rows.filter fun row => Keyset.Behind key before row := by
    rw [select]
    refine List.filter_congr fun row _ => ?_
    cases before with
    | none => simp [Keyset.Behind]
    | some k =>
      have hkey : Keyset.Behind key (some k) row ↔ key row < k := by simp [Keyset.Behind]
      simp only [Option.elim_some, List.all_cons, List.all_nil, Bool.and_true, decide_eq_decide,
        hkey]
      exact hbehind k row
  rw [hrows, Keyset.left]
  exact insertionSort_congr hnewest _

/-- What a page is continued from, as the listings name it. -/
theorem page_next_ofLex {α : Type} (key : α → RowKey) (limit : ℕ) (before : Option RowKey)
    (rows : List α) :
    (Keyset.page key limit before rows).next.map ofLex =
      let found := (Keyset.left key before rows).take (limit + 1)
      if limit < found.length then (found.take limit).getLast?.map fun row => ofLex (key row)
      else none := by
  simp only [Keyset.page]
  split_ifs
  · rw [Option.map_map]
    rfl
  · rfl

theorem nodup_keys {α : Type} {createdAt : α → ℤ} {id : α → CodePoints} {rows shown : List α}
    (hshown : shown.Sublist rows) (hids : (rows.map id).Nodup) :
    (shown.map fun row => toLex (createdAt row, id row)).Nodup := by
  refine (List.Nodup.of_map (fun k => (ofLex k).2) ?_).sublist (hshown.map _)
  rw [List.map_map]
  exact hids

section Listing

variable {State Row Answer : Type}

/-- The pages of a listing: each is asked for behind the one before, of the tables as they are
then. -/
def pages (ask : State → CodePoints → Except Refusal Answer)
    (nextCursor : Answer → Option (ℤ × CodePoints)) (cursor : CodePoints) :
    List State → Except Refusal (List Answer)
  | [] => .ok []
  | state :: rest =>
    match ask state cursor with
    | .error refusal => .error refusal
    | .ok answer =>
      match nextCursor answer with
      | none => .ok [answer]
      | some next => (pages ask nextCursor (cursorText next) rest).map (answer :: ·)

/-- What is asked behind a key. -/
def cursorOf (before : Option RowKey) : CodePoints := before.elim [] fun k => cursorText (ofLex k)

variable {key : Row → RowKey} {limit : ℕ} {ask : State → CodePoints → Except Refusal Answer}
  {nextCursor : Answer → Option (ℤ × CodePoints)} {visible : State → List Row}
  {render : Keyset.Page Row RowKey → Answer}

/-- A listing whose every page is one by key is a walk by key. -/
theorem pages_eq_walk (hnext : ∀ page, nextCursor (render page) = page.next.map ofLex)
    {states : List State} {before : Option RowKey}
    (hkeys : ∀ state ∈ states, ((visible state).map key).Nodup)
    (hcontinues : ∀ state ∈ states, ∀ row ∈ visible state,
      Continues fromisoformat (ofLex (key row)))
    (hbefore : ∀ k ∈ before, Continues fromisoformat (ofLex k))
    (hask : ∀ state ∈ states, ∀ before : Option RowKey,
      (∀ k ∈ before, Continues fromisoformat (ofLex k)) →
      ask state (cursorOf before) = .ok (render (Keyset.page key limit before (visible state)))) :
    pages ask nextCursor (cursorOf before) states =
      .ok ((Keyset.walk key limit before (states.map visible)).map render) := by
  induction states generalizing before with
  | nil => rfl
  | cons state rest ih =>
    rw [List.forall_mem_cons] at hkeys hcontinues hask
    simp only [pages, hask.1 before hbefore, hnext, List.map_cons, Keyset.walk]
    cases hmore : (Keyset.page key limit before (visible state)).next with
    | none => rfl
    | some k =>
      have hk : Continues fromisoformat (ofLex k) := by
        obtain ⟨-, ⟨last, hlast, rfl⟩, -⟩ := Keyset.page_next_spec hkeys.1 hmore
        exact hcontinues.1 last (Keyset.mem_log_of_mem_page hlast).1
      have hsome : ∀ k' ∈ some k, Continues fromisoformat (ofLex k') := by
        intro k' hk'
        cases hk'
        exact hk
      have hrest := ih hkeys.2 hcontinues.2 hsome hask.2
      rw [cursorOf, Option.elim_some] at hrest
      simp only [Option.map_some, Option.elim_some, hrest]
      rfl

/-- **A listing read page by page** shows what is there throughout once, and nothing twice. -/
theorem pages_thorough (hlimit : 0 < limit)
    (hnext : ∀ page, nextCursor (render page) = page.next.map ofLex) {states : List State}
    (hkeys : ∀ state ∈ states, ((visible state).map key).Nodup)
    (hcontinues : ∀ state ∈ states, ∀ row ∈ visible state,
      Continues fromisoformat (ofLex (key row)))
    (hask : ∀ state ∈ states, ∀ before : Option RowKey,
      (∀ k ∈ before, Continues fromisoformat (ofLex k)) →
      ask state (cursorOf before) = .ok (render (Keyset.page key limit before (visible state)))) :
    ∃ walked, pages ask nextCursor [] states = .ok (walked.map render) ∧
      Keyset.Thorough key limit (states.map visible) walked := by
  have hwalk := @pages_eq_walk _ _ _ _ _ _ _ _ _ _ hnext states none hkeys hcontinues (by simp) hask
  refine ⟨_, hwalk, ?_⟩
  refine Keyset.walk_thorough hlimit fun log hlog => ?_
  obtain ⟨state, hstate, rfl⟩ := List.mem_map.mp hlog
  exact hkeys state hstate

end Listing

/-! ### The list of requests -/

section Traces

variable {principal : Principal} {query : TraceQuery}

/-- The key of a request. -/
def requestKey (row : RequestLog) : RowKey := toLex (row.createdAt, row.id)

/-- The rows of the table that a query's list shows to a caller. -/
def visibleRequests (store : ReadModel) (strictData : Bool) (principal : Principal)
    (query : TraceQuery) (rows : List RequestLog) : List RequestLog :=
  select ((visibleScope principal .traceReadAll).toList.map (fun allowed row =>
      isIn row.useCase allowed) ++ filters principal query ++
    restrictionFilter principal (restrictedUseCases store principal strictData)) rows

/-- A caller's scope covers what a query asks for. -/
def Covered (principal : Principal) (query : TraceQuery) : Prop :=
  visibleScope principal .traceReadAll ≠ some [] ∧
    ¬(query.useCase ≠ [] ∧ (visibleScope principal .traceReadAll).any (query.useCase ∉ ·) = true)

instance (principal : Principal) (query : TraceQuery) : Decidable (Covered principal query) :=
  inferInstanceAs (Decidable (_ ∧ _))

/-- A page as the list shows it. -/
def pageOfRequests (strictData : Bool) (principal : Principal) (query : TraceQuery)
    (page : Keyset.Page RequestLog RowKey) : TracePage :=
  { traces := page.rows.map fun row => listed principal
      (fields (principal.allows .incidentInvestigate)) row (strictData && !seesPeople principal)
    nextCursor := page.next.map ofLex
    scope := scopeLabel (visibleScope principal .traceReadAll)
    inScope := Covered principal query }

/-- A query that is not refused: an address is asked for by who investigates, and a person in strict
data mode by who sees people. -/
structure Permitted (strictData : Bool) (principal : Principal) (query : TraceQuery) : Prop where
  address : query.sourceIp ≠ [] → principal.allows .incidentInvestigate = true
  person : query.subject ≠ [] ∨ query.credential ≠ [] →
    (strictData && !seesPeople principal) = false

theorem behind_request_iff (k : RowKey) (row : RequestLog) :
    Selects (behind (ofLex k) row) ↔ requestKey row < k := behind_iff

theorem newestFirst_request_iff (a b : RequestLog) :
    newestFirst a b ↔ requestKey b ≤ requestKey a := by
  rw [newestFirst, requestKey, requestKey, Prod.Lex.toLex_le_toLex, eq_comm]

/-- Nothing is seen of what a scope does not cover. -/
theorem visibleRequests_eq_nil {store : ReadModel} {strictData : Bool} {rows : List RequestLog}
    (h : ¬Covered principal query) :
    visibleRequests store strictData principal query rows = [] := by
  rw [visibleRequests, select, List.filter_eq_nil_iff]
  intro row _ hall
  rw [List.all_eq_true] at hall
  have hscope : ∀ allowed, visibleScope principal .traceReadAll = some allowed →
      ∃ slug ∈ allowed, row.useCase = some slug := by
    intro allowed hallowed
    have hin := hall (fun row => isIn row.useCase allowed) (by simp [hallowed])
    exact selects_isIn.mp (of_decide_eq_true hin)
  refine h ⟨?_, ?_⟩
  · intro hnone
    obtain ⟨slug, hslug, -⟩ := hscope [] hnone
    cases hslug
  · rintro ⟨hasked, hnot⟩
    obtain ⟨allowed, hallowed, hnotMem⟩ := (Option.any_eq_true _ _).mp hnot
    obtain ⟨slug, hslug, hrow⟩ := hscope allowed hallowed
    have heq := hall (fun row => eq row.useCase query.useCase) (by simp [filters, asked, hasked])
    rw [decide_eq_true_iff, selects_eq, hrow, Option.some_inj] at heq
    exact of_decide_eq_true hnotMem (heq ▸ hslug)

/-- The list's page of what is left to show. -/
theorem pageOfRequests_page {strictData : Bool} (hcovers : Covered principal query)
    (before : Option RowKey) (rows : List RequestLog) :
    pageOfRequests strictData principal query (Keyset.page requestKey query.limit before rows) =
      let found := (Keyset.left requestKey before rows).take (query.limit + 1)
      let page := found.take query.limit
      { traces := page.map fun row => listed principal
          (fields (principal.allows .incidentInvestigate)) row (strictData && !seesPeople principal)
        nextCursor :=
          if query.limit < found.length then page.getLast?.map fun row => (row.createdAt, row.id)
          else none
        scope := scopeLabel (visibleScope principal .traceReadAll)
        inScope := true } := by
  rw [pageOfRequests, page_next_ofLex, decide_eq_true hcovers]
  rfl

/-- A page of the list is one by key of what the caller sees. -/
theorem traces_eq {store : ReadModel} {strictData : Bool} {rows : List RequestLog}
    (hpermitted : Permitted strictData principal query) {before : Option RowKey}
    (hbefore : ∀ k ∈ before, Continues fromisoformat (ofLex k)) :
    traces (parseCursor fromisoformat) store strictData rows principal
        { query with cursor := cursorOf before } =
      .ok (pageOfRequests strictData principal query (Keyset.page requestKey query.limit before
        (visibleRequests store strictData principal query rows))) := by
  have haddress : ¬(query.sourceIp ≠ [] ∧
      (!principal.allows .incidentInvestigate) = true) := by
    rintro ⟨hasked, hnot⟩
    rw [hpermitted.address hasked] at hnot
    cases hnot
  have hperson : ¬((strictData && !seesPeople principal) = true ∧
      (query.subject ≠ [] ∨ query.credential ≠ [])) := by
    rintro ⟨hwithheld, hasked⟩
    rw [hpermitted.person hasked] at hwithheld
    cases hwithheld
  have hfound := insertionSort_select newestFirst_request_iff behind_request_iff before
    (visibleRequests store strictData principal query rows)
  rw [visibleRequests, ← select_append] at hfound
  rw [traces]
  simp only [if_neg haddress, if_neg hperson]
  by_cases hcovers : Covered principal query
  · rw [pageOfRequests_page hcovers, visibleRequests, ← hfound, if_neg hcovers.1, if_neg hcovers.2]
    cases before with
    | none => rfl
    | some k =>
      have hcursor : cursorOf (some k) ≠ [] := by simp [cursorOf, cursorText]
      rw [if_pos hcursor]
      rw [cursorOf, Option.elim_some, parseCursor_cursorText (hbefore k rfl)]
      rfl
  · rw [visibleRequests_eq_nil hcovers]
    have hscope : visibleScope principal .traceReadAll ≠ none := by
      intro hnone
      exact hcovers ⟨by simp [hnone], by simp [hnone]⟩
    have hpage : pageOfRequests strictData principal query
        (Keyset.page requestKey query.limit before []) = outOfScope := by
      rw [pageOfRequests, decide_eq_false hcovers, scopeLabel, Option.isNone_eq_false_iff.mpr
        (Option.isSome_iff_ne_none.mpr hscope)]
      simp [Keyset.page, Keyset.left, outOfScope]
    rw [hpage]
    by_cases hsome : visibleScope principal .traceReadAll = some []
    · rw [if_pos hsome]
      rfl
    · rw [if_neg hsome, if_pos (by_contra fun hasked => hcovers ⟨hsome, hasked⟩)]
      rfl

/-- The tables that a page is asked of. -/
structure Tables where
  readModel : ReadModel
  requests : List RequestLog

/-- Reads what `isoformat` writes, and nothing else. -/
def readStamp (text : CodePoints) : Except TimestampError ℤ :=
  let part (start width : ℕ) : ℤ := readDigits ((text.drop start).take width)
  let moment := readDay text * (24 * LocalClock.hour) + part 11 2 * 3600000000 +
    part 14 2 * 60000000 + part 17 2 * 1000000 + if text.length = 32 then part 20 6 else 0
  if isoformat moment = text then .ok moment else .error .value

/-- The requests of a moment, the newest first. -/
private def written (moment : ℤ) (id : CodePoints) : RequestLog :=
  { id := id, createdAt := moment, useCase := some "assist" }

private def oversight : Principal :=
  { subject := "9f1c", method := .demo, grants := [], grants_nodup := List.nodup_nil }

private def unrestricted : ReadModel :=
  { useCases := [], members := [], slugs_nodup := List.nodup_nil, members_nodup := List.nodup_nil }

/-- The tables at three pages: a request is purged, and a newer one written. -/
private def purged : List Tables :=
  [⟨unrestricted, [written 0 "a", written 7 "b", written 7 "c"]⟩,
    ⟨unrestricted, [written 0 "a", written 9 "d", written 7 "c"]⟩,
    ⟨unrestricted, [written 0 "a"]⟩]

end Traces

end AiraGateway.Reporting
