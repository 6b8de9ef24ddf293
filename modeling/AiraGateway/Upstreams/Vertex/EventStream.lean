import AiraGateway.Library.JsonScan
import AiraGateway.Library.Lines
import AiraGateway.Library.Occurrences
import AiraGateway.Upstreams.Vertex.Exchange

/-!
# What is read of an event stream

A stream is lines, each with its end: events, whose JSON text stands in one `data:` line, and others
that carry none (`Stream`). It is read in pieces of the decoded text, cut anywhere, and its lines
are taken where `str.splitlines` ends them, which is at more characters than the format knows.

* **When every event is read and nothing else** (`readsEvery_iff`): where no JSON text holds one of
  the three characters that `str.splitlines` ends a line at and a JSON string may hold as they are,
  and no other line has a piece between such characters that reads as a payload. Then a broken
  connection takes away no event that was received.
-/

namespace AiraGateway.Vertex

/-! ### Streams -/

/-- An object's JSON text, between blanks, in a `data:` line. -/
structure EventLine where
  before : Text
  json : Text
  after : Text
  members : List (Text × Json)
  states : Json.loads json = some (.obj members)
  solid : strip json = json
  blanks : ∀ c ∈ before ++ after, c = ' ' ∨ c = '\t'
  single : '\n' ∉ json ∧ '\r' ∉ json

/-- A line carries no payload: an event's name, an id, a comment, a blank line or `[DONE]`. -/
def CarriesNone (line : Text) : Prop :=
  ¬("data:" : Text) <+: line ∨
    strip (line.drop ("data:" : Text).length) ∈ ([[], "[DONE]"] : List Text)

structure OtherLine where
  text : Text
  none : CarriesNone text
  single : '\n' ∉ text ∧ '\r' ∉ text

inductive Line
  | event (line : EventLine)
  | other (line : OtherLine)

namespace Line

def text : Line → Text
  | event line => ("data:" : Text) ++ (line.before ++ (line.json ++ line.after))
  | other line => line.text

def event? : Line → Option (List (Text × Json))
  | event line => some line.members
  | other _ => none

end Line

/-- What ends a line of an event stream. -/
inductive LineEnd
  | lf
  | crlf
  | cr

def LineEnd.text : LineEnd → Text
  | lf => ['\n']
  | crlf => ['\r', '\n']
  | cr => ['\r']

/-- Lines with their ends. -/
def textOf (ended : List (Line × LineEnd)) : Text :=
  ended.flatMap fun line => line.1.text ++ line.2.text

/-- The lines that have ended, and the last one: blank where the stream ends with a line's end. -/
structure Stream where
  ended : List (Line × LineEnd)
  last : Line

namespace Stream

def lines (stream : Stream) : List Line := stream.ended.map (·.1) ++ [stream.last]

def text (stream : Stream) : Text := textOf stream.ended ++ stream.last.text

end Stream

/-- The objects of some lines, in their order. -/
def eventsOf (lines : List Line) : List (List (Text × Json)) := lines.filterMap Line.event?

/-! ### Reading -/

/-- The lines a response's decoded text comes in, however it was read. -/
def aiterLines (reads : List Text) : List Text := splitLines reads.flatten

/-- The lines that had come when the connection broke. -/
def aiterUntilBroken (reads : List Text) : List Text := endedLines reads.flatten

/-- A streamed answer with these lines, and what ended the reading where it broke off. -/
def streamed (lines : List Text) (broke : Option HttpError) : Response where
  status := 200
  lines := lines.map .line ++ (broke.map .broken).toList

/-- Every event of a stream is read, in order, and nothing else. Where the connection breaks in a
line, the events of the lines before it are. A carriage return ends a line once what follows it has
come. -/
structure ReadsEvery (stream : Stream) : Prop where
  whole : ∀ reads : List Text, reads.flatten = stream.text →
    ssePayloads Json.loads (streamed (aiterLines reads) none) = (eventsOf stream.lines).map .ok
  broken : ∀ front back next rest part reads e, stream.ended = front ++ back →
    back.map (·.1) ++ [stream.last] = next :: rest → part <+: next.text →
    reads.flatten = textOf front ++ part → reads.flatten.getLast? ≠ some '\r' →
    ssePayloads Json.loads (streamed (aiterUntilBroken reads) (some e)) =
      (eventsOf (front.map (·.1))).map .ok ++ [.error (unreachable e)]

/-! ### When it is -/

/-- A line that reads as no payload: it carries none, or JSON that is no object. -/
def Silent (line : Text) : Prop :=
  CarriesNone line ∨ ∃ v, Json.loads (strip (line.drop ("data:" : Text).length)) = some v ∧
    ∀ members, v ≠ .obj members

/-- A line that is taken as it stands. An event's JSON text holds none of the three characters that
end a line and may stand in a string, and every piece of another line is silent. -/
def Line.Kept : Line → Prop
  | event line => ∀ c ∈ line.json, c.toNat ∉ [0x85, 0x2028, 0x2029]
  | other line => ∀ piece ∈ splitLines line.text, Silent piece

/-- What a line of the response comes to. -/
abbrev payloadOf : Text → Option (Except Raised (List (Text × Json))) := ssePayload Json.loads

theorem payloadOf_nil : payloadOf [] = none := by
  rw [payloadOf, ssePayload, if_pos (by decide)]

theorem payloadOf_eq_none_iff {line : Text} : payloadOf line = none ↔ Silent line := by
  rw [payloadOf, ssePayload, Silent, CarriesNone]
  by_cases hstarts : ("data:" : Text) <+: line
  · rw [if_neg (not_not.mpr hstarts)]
    simp only [hstarts, not_true, false_or, List.mem_cons, List.not_mem_nil, or_false]
    by_cases hnone : strip (line.drop ("data:" : Text).length) = [] ∨
        strip (line.drop ("data:" : Text).length) = "[DONE]"
    · rw [if_pos hnone]
      exact iff_of_true rfl (.inl hnone)
    · rw [if_neg hnone]
      simp only [hnone, false_or]
      split
      · next hloads =>
        rw [hloads]
        refine iff_of_false (Option.some_ne_none _) fun ⟨_, hv, _⟩ => ?_
        exact absurd hv.symm (Option.some_ne_none _)
      · next members hloads =>
        rw [hloads]
        refine iff_of_false (Option.some_ne_none _) fun ⟨_, hv, hobj⟩ => ?_
        exact hobj members (Option.some.inj hv).symm
      · next v hobj hloads =>
        rw [hloads]
        exact iff_of_true rfl ⟨v, rfl, hobj⟩
  · rw [if_pos hstarts]
    exact iff_of_true rfl (.inl (.inl hstarts))

/-- What the pieces of a line come to. -/
def partsOf (line : Line) : List (Except Raised (List (Text × Json))) :=
  (line.text.splitOnP isBoundary).filterMap payloadOf

theorem ssePayloads_streamed (lines : List Text) (broke : Option HttpError) :
    ssePayloads Json.loads (streamed lines broke) =
      lines.filterMap payloadOf ++ (broke.map fun e => .error (unreachable e)).toList := by
  rw [ssePayloads, streamed, List.filterMap_append, List.filterMap_map]
  refine congrArg₂ (· ++ ·) rfl ?_
  cases broke with
  | none => rfl
  | some e => rfl

/-- What stands between the characters of a line's end. -/
def LineEnd.gap : LineEnd → List Text
  | crlf => [[]]
  | lf | cr => []

/-- The pieces of a line, and the empty one between the two characters of its end. -/
def piecesOf (line : Line × LineEnd) : List Text :=
  line.1.text.splitOnP isBoundary ++ line.2.gap

/-- The pieces of a stream are those of its lines. -/
theorem splitOnP_textOf (ended : List (Line × LineEnd)) (more : Text) :
    (textOf ended ++ more).splitOnP isBoundary =
      ended.flatMap piecesOf ++ more.splitOnP isBoundary := by
  induction ended with
  | nil => rfl
  | cons line ended ih =>
    have hrest : textOf (line :: ended) ++ more =
        line.1.text ++ (line.2.text ++ (textOf ended ++ more)) := by
      rw [textOf, List.flatMap_cons, List.append_assoc, List.append_assoc]
      rfl
    rw [hrest, List.flatMap_cons, piecesOf, List.append_assoc, List.append_assoc, ← ih]
    obtain ⟨line, ends⟩ := line
    cases ends with
    | lf => exact List.splitOnP_append_cons _ _ (by decide)
    | cr => exact List.splitOnP_append_cons _ _ (by decide)
    | crlf =>
      have hfeed : ('\n' :: (textOf ended ++ more)).splitOnP isBoundary =
          [] :: (textOf ended ++ more).splitOnP isBoundary :=
        @splitOnP_line [] _ '\n' (fun _ hmem => absurd hmem List.not_mem_nil) (by decide)
      refine (List.splitOnP_append_cons _ _ (by decide)).trans ?_
      exact congrArg (line.text.splitOnP isBoundary ++ ·) hfeed

theorem filterMap_pieces (ended : List (Line × LineEnd)) :
    (ended.flatMap piecesOf).filterMap payloadOf = (ended.map (·.1)).flatMap partsOf := by
  induction ended with
  | nil => rfl
  | cons line ended ih =>
    have hend : line.2.gap.filterMap payloadOf = [] := by
      cases line.2 with
      | crlf => exact List.filterMap_cons_none payloadOf_nil
      | lf | cr => rfl
    rw [List.flatMap_cons, List.filterMap_append, ih, piecesOf, List.filterMap_append, hend,
      List.append_nil]
    rfl

/-! ### One line -/

theorem EventLine.json_ne_nil (line : EventLine) : line.json ≠ [] := by
  intro hnil
  have hstates := line.states
  rw [hnil] at hstates
  exact absurd hstates.symm (Option.some_ne_none _)

theorem EventLine.blank_before (line : EventLine) : blank line.before = true := by
  rw [blank, List.all_eq_true]
  intro c hc
  obtain rfl | rfl := line.blanks c (List.mem_append_left _ hc)
  · decide
  · decide

theorem EventLine.blank_after (line : EventLine) : blank line.after = true := by
  rw [blank, List.all_eq_true]
  intro c hc
  obtain rfl | rfl := line.blanks c (List.mem_append_right _ hc)
  · decide
  · decide

/-- A `data:` line is judged by what it carries. -/
theorem payloadOf_data (payload : Text) : payloadOf (("data:" : Text) ++ payload) =
    if strip payload = [] ∨ strip payload = "[DONE]" then none
    else
      match Json.loads (strip payload) with
      | none => some (.error (.upstream {
          message := platformName ++ (" sent a stream event that is not JSON." : Text)
          statusCode := some badAnswer }))
      | some (.obj members) => some (.ok members)
      | some _ => none := by
  have hpayload : ssePayload Json.loads (("data:" : Text) ++ payload) = _ :=
    if_neg (not_not.mpr (List.prefix_append _ _))
  rw [List.drop_left] at hpayload
  exact hpayload

/-- An event's line, whole, is its object. -/
theorem EventLine.payloadOf_text (line : EventLine) :
    payloadOf (Line.event line).text = some (.ok line.members) := by
  have hstrip : strip (line.before ++ (line.json ++ line.after)) = line.json := by
    rw [strip_blank_append line.blank_before line.blank_after, line.solid]
  have hdone : line.json ≠ "[DONE]" := by
    intro hdone
    have hunread : Json.loads "[DONE]" = none := rfl
    have hstates := line.states
    rw [hdone, hunread] at hstates
    exact absurd hstates.symm (Option.some_ne_none _)
  rw [Line.text, payloadOf_data, hstrip, if_neg (not_or.mpr ⟨line.json_ne_nil, hdone⟩),
    line.states]

/-- **What ends in a string is no JSON**, and so the line it stands in is refused. -/
theorem payloadOf_cut {payload : Text} (h : scan .outside payload = some .inside) :
    ∃ raised, payloadOf (("data:" : Text) ++ payload) = some (.error raised) := by
  have hstrip := scan_strip_ne h
  have hnil : strip payload ≠ [] := by
    intro hnil
    rw [hnil] at hstrip
    exact hstrip rfl
  have hdone : strip payload ≠ "[DONE]" := by
    intro hdone
    rw [hdone] at hstrip
    exact hstrip rfl
  rw [payloadOf_data, if_neg (not_or.mpr ⟨hnil, hdone⟩)]
  cases hloads : Json.loads (strip payload) with
  | none => exact ⟨_, rfl⟩
  | some v => exact absurd (scan_of_loads hloads) hstrip

/-- A line ends inside an event's JSON text only at one of three characters. -/
theorem EventLine.isBoundary_iff (line : EventLine) {c : Char} (hc : c ∈ line.json) :
    isBoundary c = true ↔ c.toNat ∈ [0x85, 0x2028, 0x2029] := by
  have hcases : isBoundary c = true ↔ (0x0A ≤ c.toNat ∧ c.toNat ≤ 0x0D) ∨
      (0x1C ≤ c.toNat ∧ c.toNat ≤ 0x1E) ∨ c.toNat ∈ [0x85, 0x2028, 0x2029] := by
    simp [isBoundary, or_assoc]
  rw [hcases]
  refine ⟨fun hboundary => ?_, fun hthree => .inr (.inr hthree)⟩
  by_contra hthree
  have hcontrol : c.toNat < 0x20 := by
    rcases hboundary with hlow | hhigh | hother
    · omega
    · omega
    · exact absurd hother hthree
  -- of the control characters a JSON text has blanks only, and this one is on one line
  obtain ⟨front, back, hjson⟩ := List.append_of_mem hc
  have hscan := scan_of_loads line.states
  rw [hjson] at hscan
  have hspace := isJsonSpace_of_control hcontrol hscan
  have hfour : c = ' ' ∨ c = '\t' ∨ c = '\n' ∨ c = '\r' := by
    simpa [isJsonSpace, or_assoc] using hspace
  obtain rfl | rfl | rfl | rfl := hfour
  · exact absurd hboundary (by decide)
  · exact absurd hboundary (by decide)
  · exact line.single.1 hc
  · exact line.single.2 hc

theorem EventLine.kept_iff (line : EventLine) :
    (Line.event line).Kept ↔ ∀ c ∈ line.json, isBoundary c = false := by
  refine forall₂_congr fun c hc => ?_
  rw [← line.isBoundary_iff hc, Bool.not_eq_true]

theorem EventLine.blanks_plain (line : EventLine) {c : Char} (hc : c ∈ line.before ++ line.after) :
    isBoundary c = false := by
  obtain rfl | rfl := line.blanks c hc
  · decide
  · decide

theorem dataName_plain : ∀ c ∈ ("data:" : Text), isBoundary c = false := by
  have hall : (("data:" : Text).all fun c => !isBoundary c) = true := rfl
  simpa only [List.all_eq_true, Bool.not_eq_true'] using hall

theorem EventLine.text_plain (line : EventLine) (h : (Line.event line).Kept) :
    ∀ c ∈ (Line.event line).text, isBoundary c = false := by
  rw [Line.text, List.forall_mem_append, List.forall_mem_append, List.forall_mem_append]
  exact ⟨dataName_plain, fun c hc => line.blanks_plain (List.mem_append_left _ hc),
    line.kept_iff.mp h, fun c hc => line.blanks_plain (List.mem_append_right _ hc)⟩

/-- An event's line that is not cut is its object. -/
theorem partsOf_event_kept (line : EventLine) (h : (Line.event line).Kept) :
    partsOf (.event line) = [.ok line.members] := by
  rw [partsOf, List.splitOnP_eq_singleton (line.text_plain h),
    List.filterMap_cons_some line.payloadOf_text]
  rfl

theorem plainChar_of_high {c : Char} (h : 0x80 ≤ c.toNat) : plainChar c = false := by
  by_contra hplain
  have hplain := (Bool.not_eq_false _).mp hplain
  rw [plainChar, Bool.or_eq_true, Bool.and_eq_true, decide_eq_true_eq, decide_eq_true_eq] at hplain
  rcases hplain with hvisible | hspace
  · omega
  · have hfour : c = ' ' ∨ c = '\t' ∨ c = '\n' ∨ c = '\r' := by
      simpa [isJsonSpace, or_assoc] using hspace
    obtain rfl | rfl | rfl | rfl := hfour <;> exact absurd h (by decide)

/-- A text that holds a boundary has a first one. -/
theorem exists_first_boundary {t : Text} (h : ¬∀ c ∈ t, isBoundary c = false) :
    ∃ front c back, t = front ++ c :: back ∧ isBoundary c = true ∧
      ∀ d ∈ front, isBoundary d = false := by
  induction t with
  | nil => exact absurd (fun _ hmem => absurd hmem List.not_mem_nil) h
  | cons c t ih =>
    by_cases hc : isBoundary c = true
    · exact ⟨[], c, t, rfl, hc, fun _ hmem => absurd hmem List.not_mem_nil⟩
    · have hc : isBoundary c = false := (Bool.not_eq_true _).mp hc
      obtain ⟨front, d, back, rfl, hd, hfront⟩ := ih fun hall =>
        h (List.forall_mem_cons.mpr ⟨hc, hall⟩)
      exact ⟨c :: front, d, back, rfl, hd, List.forall_mem_cons.mpr ⟨hc, hfront⟩⟩

/-- An event's line that is cut is refused at its first piece. -/
theorem partsOf_event_cut (line : EventLine) (h : ¬(Line.event line).Kept) :
    ∃ raised, .error raised ∈ partsOf (.event line) := by
  rw [line.kept_iff] at h
  obtain ⟨front, c, back, hjson, hc, hfront⟩ := exists_first_boundary h
  have hscan := scan_of_loads line.states
  rw [hjson] at hscan
  have hother : plainChar c = false := by
    have hmem : c ∈ line.json := by
      rw [hjson]
      exact List.mem_append_right _ List.mem_cons_self
    have hthree := (line.isBoundary_iff hmem).mp hc
    have hhigh : 0x85 ≤ c.toNat := by
      simp only [List.mem_cons, List.not_mem_nil, or_false] at hthree
      omega
    exact plainChar_of_high (by omega)
  have hinside := scan_before hother hscan
  have hbefore : scan .outside (line.before ++ front) = some .inside := by
    have hblanks : scan .outside line.before = some .outside := by
      refine scan_plain fun d hd => plain_of_isJsonSpace ?_
      obtain rfl | rfl := line.blanks d (List.mem_append_left _ hd)
      · decide
      · decide
    rw [scan_append, hblanks]
    exact hinside
  obtain ⟨raised, hraised⟩ := payloadOf_cut hbefore
  refine ⟨raised, List.mem_filterMap.mpr ⟨_, ?_, hraised⟩⟩
  have hpiece : ∀ d ∈ ("data:" : Text) ++ (line.before ++ front), isBoundary d = false := by
    rw [List.forall_mem_append, List.forall_mem_append]
    exact ⟨dataName_plain, fun d hd => line.blanks_plain (List.mem_append_left _ hd), hfront⟩
  have htext : (Line.event line).text =
      (("data:" : Text) ++ (line.before ++ front)) ++ c :: (back ++ line.after) := by
    simp [Line.text, hjson]
  rw [htext, splitOnP_line hpiece hc]
  exact List.mem_cons_self

theorem partsOf_other (line : OtherLine) :
    partsOf (.other line) = [] ↔ (Line.other line).Kept := by
  rw [partsOf, ← filterMap_splitLines payloadOf_nil, List.filterMap_eq_nil_iff]
  exact forall₂_congr fun _ _ => payloadOf_eq_none_iff

/-! ### A stream -/

/-- **Lines that are kept** come to their events. -/
theorem flatMap_partsOf {lines : List Line} (h : ∀ line ∈ lines, line.Kept) :
    lines.flatMap partsOf = (eventsOf lines).map .ok := by
  induction lines with
  | nil => rfl
  | cons line lines ih =>
    rw [List.forall_mem_cons] at h
    rw [List.flatMap_cons, ih h.2]
    cases line with
    | event line => exact congrArg (· ++ _) (partsOf_event_kept line h.1)
    | other line => exact congrArg (· ++ _) ((partsOf_other line).mpr h.1)

/-- Where no event is refused, lines come to no less than their events. -/
theorem length_eventsOf_le {lines : List Line}
    (h : ∀ raised, .error raised ∉ lines.flatMap partsOf) :
    (eventsOf lines).length ≤ (lines.flatMap partsOf).length ∧
      ((lines.flatMap partsOf).length ≤ (eventsOf lines).length → ∀ line ∈ lines, line.Kept) := by
  induction lines with
  | nil => exact ⟨Nat.le_refl _, fun _ _ hmem => absurd hmem List.not_mem_nil⟩
  | cons line lines ih =>
    rw [List.flatMap_cons] at h ⊢
    obtain ⟨hle, hkept⟩ := ih fun raised hmem => h raised (List.mem_append_right _ hmem)
    rw [List.length_append, List.forall_mem_cons]
    cases line with
    | event line =>
      have hevent : (Line.event line).Kept := by
        by_contra hcut
        obtain ⟨raised, hraised⟩ := partsOf_event_cut line hcut
        exact h raised (List.mem_append_left _ hraised)
      have hevents : (eventsOf (.event line :: lines)).length = (eventsOf lines).length + 1 := rfl
      rw [partsOf_event_kept line hevent, hevents, List.length_singleton]
      exact ⟨by omega, fun hless => ⟨hevent, hkept (by omega)⟩⟩
    | other line =>
      have hevents : eventsOf (.other line :: lines) = eventsOf lines := rfl
      rw [hevents]
      refine ⟨by omega, fun hless => ⟨?_, hkept (by omega)⟩⟩
      refine (partsOf_other line).mp (List.length_eq_zero_iff.mp ?_)
      omega

/-- The pieces of a line's front that have ended come to nothing, where the line is kept. -/
theorem filterMap_dropLast {line : Line} (h : line.Kept) {part : Text}
    (hpart : part <+: line.text) :
    (part.splitOnP isBoundary).dropLast.filterMap payloadOf = [] := by
  cases line with
  | event line =>
    have hnone := line.text_plain h
    rw [List.splitOnP_eq_singleton fun c hc => hnone c (hpart.subset hc)]
    rfl
  | other line =>
    obtain ⟨rest, hrest⟩ := hpart
    have hfront := dropLast_splitOnP_prefix part rest
    rw [hrest] at hfront
    have hnone := (partsOf_other line).mpr h
    rw [partsOf, List.filterMap_eq_nil_iff] at hnone
    rw [List.filterMap_eq_nil_iff]
    exact fun piece hpiece => hnone piece (hfront.subset hpiece)

/-- **When every event is read and nothing else.** -/
theorem readsEvery_iff (stream : Stream) :
    ReadsEvery stream ↔ ∀ line ∈ stream.lines, line.Kept := by
  have hwhole : ∀ reads : List Text, reads.flatten = stream.text →
      ssePayloads Json.loads (streamed (aiterLines reads) none) = stream.lines.flatMap partsOf := by
    intro reads hreads
    rw [ssePayloads_streamed, aiterLines, hreads, filterMap_splitLines payloadOf_nil, Stream.text,
      splitOnP_textOf, List.filterMap_append, filterMap_pieces, Stream.lines, List.flatMap_append,
      List.flatMap_singleton]
    exact List.append_nil _
  constructor
  · intro h
    have hparts := h.whole [stream.text] (List.append_nil _)
    rw [hwhole [stream.text] (List.append_nil _)] at hparts
    have hnone : ∀ raised, .error raised ∉ stream.lines.flatMap partsOf := by
      intro raised hmem
      rw [hparts] at hmem
      obtain ⟨_, -, hok⟩ := List.mem_map.mp hmem
      exact error_ne_ok hok.symm
    refine (length_eventsOf_le hnone).2 ?_
    rw [hparts, List.length_map]
  · intro hkept
    refine ⟨fun reads hreads => ?_, ?_⟩
    · rw [hwhole reads hreads, flatMap_partsOf hkept]
    · intro front back next rest part reads e hended hnext hpart hreads hlast
      have hlines : stream.lines = front.map (·.1) ++ next :: rest := by
        rw [Stream.lines, hended, List.map_append, List.append_assoc, hnext]
      rw [hlines, List.forall_mem_append, List.forall_mem_cons] at hkept
      rw [ssePayloads_streamed, aiterUntilBroken, filterMap_endedLines payloadOf_nil hlast, hreads,
        splitOnP_textOf, List.dropLast_append_of_ne_nil (List.splitOnP_ne_nil _ _),
        List.filterMap_append, filterMap_pieces, filterMap_dropLast hkept.2.1 hpart,
        List.append_nil, flatMap_partsOf hkept.1]
      rfl

theorem separated_fields :
    Json.loads "\x7b\"text\": \"one\u2028two\"\x7d" =
        some (.obj [("text", .str "one\u2028two")]) ∧
      strip ("\x7b\"text\": \"one\u2028two\"\x7d" : Text) =
        "\x7b\"text\": \"one\u2028two\"\x7d" ∧
      '\n' ∉ ("\x7b\"text\": \"one\u2028two\"\x7d" : Text) ∧
      '\r' ∉ ("\x7b\"text\": \"one\u2028two\"\x7d" : Text) := by
  decide +kernel

theorem mem_blank {c : Char} (hc : c ∈ [' '] ++ ([] : Text)) : c = ' ' ∨ c = '\t' :=
  .inl (List.mem_singleton.mp hc)

/-- An answer whose text holds a line separator. -/
def separated : EventLine where
  before := [' ']
  json := "\x7b\"text\": \"one\u2028two\"\x7d"
  after := []
  members := [("text", .str "one\u2028two")]
  states := separated_fields.1
  solid := separated_fields.2.1
  blanks _ hc := mem_blank hc
  single := separated_fields.2.2

theorem carriesNone_nil : CarriesNone [] := .inr List.mem_cons_self

def blankLine : OtherLine where
  text := []
  none := carriesNone_nil
  single := ⟨List.not_mem_nil, List.not_mem_nil⟩

/-- One event, and the line it stands in is refused for its first half. -/
theorem separated_is_refused : ¬ReadsEvery ⟨[(.event separated, .lf)], .other blankLine⟩ := by
  intro h
  have hread := h.whole [Stream.text ⟨[(.event separated, .lf)], .other blankLine⟩]
    (List.append_nil _)
  have hok := congrArg (List.map Except.isOk) hread
  exact absurd hok (by decide +kernel)

end AiraGateway.Vertex
