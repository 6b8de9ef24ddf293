import AiraGateway.Core.Canonical
import Mathlib.Tactic.Push

/-!
# The notice on an answer

A caller whose request the pipeline changed is told so in front of the answer, where the answer
is plain text. A finished answer is looked at whole (`withheldBecause`); a streamed one is led at
its first delta (`StreamedNotice.lead`), before the rest of it is known.

* `streamed_notice_iff`: exactly when the two agree, for every way of cutting the answer.
* `streamed_notice_leads_blank`: on a text of whitespace alone they do not.
-/

namespace AiraGateway

/-! ### The finished answer -/

def withheldStructured : Text :=
  "the answer is a document the caller parses, and a sentence would invalidate it"

def withheldToolCall : Text := "the answer is a tool call, which carries no text"

def withheldNoText : Text := "the answer carries no plain text to put it in front of"

theorem withheldStructured_ne_nil : withheldStructured ≠ [] := by decide

theorem withheldToolCall_ne_nil : withheldToolCall ≠ [] := by decide

theorem withheldNoText_ne_nil : withheldNoText ≠ [] := by decide

/-- Why the notice cannot precede this answer, or the empty text when it can. -/
def withheldBecause (response : CanonicalResponse) (structured : Bool) : Text :=
  if structured then withheldStructured
  else if response.toolCalls ≠ [] then withheldToolCall
  else if strip response.text = [] then withheldNoText
  else []

/-- `"\n\n".join([*notices, text])`. -/
def joinNotices (notices : List Text) (text : Text) : Text :=
  List.intercalate "\n\n" (notices ++ [text])

/-- The answer with the notices in front of it, where they can be. -/
def withNotices (response : CanonicalResponse) (notices : List Text) (structured : Bool) :
    CanonicalResponse :=
  if notices = [] ∨ withheldBecause response structured ≠ [] then response
  else { response with text := joinNotices notices response.text }

/-- What the audit row says about the notice. -/
structure NoticeOutcome where
  step : Text := "notice"
  action : Text
  why : Text
  deriving DecidableEq

def actionShown : Text := "shown"

def actionWithheld : Text := "withheld"

theorem actionShown_ne_actionWithheld : actionShown ≠ actionWithheld := by decide

def noticeOutcome (response : CanonicalResponse) (notices : List Text) (structured : Bool) :
    Option NoticeOutcome :=
  if notices = [] then none
  else
    let why := withheldBecause response structured
    some { action := if why ≠ [] then actionWithheld else actionShown, why := why }

/-! ### The streamed answer -/

/-- The notice on a stream: what is still to be shown, and what has passed. -/
structure StreamedNotice where
  notices : List Text
  configured : List Text
  structured : Bool
  shown : Bool := false
  toolCall : Bool := false

namespace StreamedNotice

def start (notices : List Text) (structured : Bool) : StreamedNotice where
  notices := if structured then [] else notices
  configured := notices
  structured := structured

def sawToolCall (n : StreamedNotice) : StreamedNotice := { n with toolCall := true }

/-- The delta to send: the first one that is not empty carries the notice. -/
def lead (n : StreamedNotice) (textDelta : Text) : StreamedNotice × Text :=
  if n.notices = [] ∨ textDelta = [] then (n, textDelta)
  else ({ n with notices := [], shown := true }, joinNotices n.notices textDelta)

def outcome (n : StreamedNotice) : Option NoticeOutcome :=
  if n.configured = [] then none
  else if n.shown then some { action := actionShown, why := [] }
  else
    let why := if n.structured then withheldStructured
      else if n.toolCall then withheldToolCall
      else withheldNoText
    some { action := actionWithheld, why := why }

end StreamedNotice

/-- What a stream's accounting keeps of the chunks the caller is sent. -/
structure StreamAccounting where
  notice : StreamedNotice
  showsReasoning : Bool := false
  toolCalls : List Text := []
  reasoning : List Text := []
  audio : List DataPart := []
  parts : List Text := []

namespace StreamAccounting

/-- Account for a chunk, and return it as the caller is to receive it. -/
def take (acc : StreamAccounting) (chunk : CanonicalChunk) : StreamAccounting × CanonicalChunk :=
  let noticed := if chunk.toolCalls ≠ [] then acc.notice.sawToolCall else acc.notice
  let (notice, led) := noticed.lead chunk.textDelta
  ({ acc with
      notice := notice
      toolCalls := acc.toolCalls ++ chunk.toolCalls.map (·.name)
      reasoning := if acc.showsReasoning ∧ chunk.reasoningDelta ≠ [] then
          acc.reasoning ++ [chunk.reasoningDelta]
        else acc.reasoning
      audio := acc.audio ++ chunk.audioDelta.toList
      parts := acc.parts ++ [led] },
    { chunk with textDelta := led })

def takeAll (acc : StreamAccounting) (chunks : List CanonicalChunk) : StreamAccounting :=
  chunks.foldl (fun acc chunk => (acc.take chunk).1) acc

/-- The text the caller has been sent so far, notice included. -/
def text (acc : StreamAccounting) : Text := acc.parts.flatten

@[simp]
theorem take_notice (acc : StreamAccounting) (chunk : CanonicalChunk) :
    (acc.take chunk).1.notice = ((if chunk.toolCalls ≠ [] then acc.notice.sawToolCall
      else acc.notice).lead chunk.textDelta).1 := rfl

@[simp]
theorem take_text (acc : StreamAccounting) (chunk : CanonicalChunk) :
    (acc.take chunk).1.text = acc.text ++ ((if chunk.toolCalls ≠ [] then acc.notice.sawToolCall
      else acc.notice).lead chunk.textDelta).2 := by
  simp [take, text]

end StreamAccounting

/-! ### What a stream has shown by any point -/

/-- The notices go in front of a text once, whatever is appended to it. -/
theorem joinNotices_append (notices : List Text) (s t : Text) :
    joinNotices notices (s ++ t) = joinNotices notices s ++ t := by
  unfold joinNotices
  induction notices with
  | nil => simp
  | cons notice rest ih =>
    cases rest with
    | nil => simp [List.intercalate_cons_cons]
    | cons next rest =>
      simp only [List.cons_append, List.intercalate_cons_cons] at ih ⊢
      rw [ih]
      simp

/-- A stream that has carried `sent` and `calls` by now. -/
structure StreamAccounting.Carried (notices : List Text) (structured : Bool) (sent : Text)
    (calls : List ToolCallPart) (acc : StreamAccounting) : Prop where
  configured : acc.notice.configured = notices
  isStructured : acc.notice.structured = structured
  toolCall : acc.notice.toolCall = !calls.isEmpty
  shown : acc.notice.shown = (!notices.isEmpty && !structured && !sent.isEmpty)
  pending : acc.notice.notices = if structured || !sent.isEmpty then [] else notices
  sentText : acc.text = if acc.notice.shown then joinNotices notices sent else sent

namespace StreamAccounting

variable {notices : List Text} {structured : Bool} {sent : Text} {calls : List ToolCallPart}
  {acc : StreamAccounting}

theorem carried_start (notices : List Text) (structured shows : Bool) :
    Carried notices structured [] []
      { notice := .start notices structured, showsReasoning := shows } where
  configured := rfl
  isStructured := rfl
  toolCall := rfl
  shown := by simp [StreamedNotice.start]
  pending := by simp [StreamedNotice.start]
  sentText := rfl

/-- **One chunk** more has been carried. -/
theorem Carried.take (h : Carried notices structured sent calls acc) (chunk : CanonicalChunk) :
    Carried notices structured (sent ++ chunk.textDelta) (calls ++ chunk.toolCalls)
      (acc.take chunk).1 := by
  obtain ⟨hconf, hstruct, htool, hshown, hpending, htext⟩ := h
  -- seeing a call changes only the flag; the lead looks at what is pending and at the delta
  generalize hn : (if chunk.toolCalls ≠ [] then acc.notice.sawToolCall else acc.notice) = n
  have hn_conf : n.configured = notices := by rw [← hn, ← hconf]; split_ifs <;> rfl
  have hn_struct : n.structured = structured := by rw [← hn, ← hstruct]; split_ifs <;> rfl
  have hn_shown : n.shown = acc.notice.shown := by rw [← hn]; split_ifs <;> rfl
  have hn_pending : n.notices = acc.notice.notices := by rw [← hn]; split_ifs <;> rfl
  have hn_tool : n.toolCall = !(calls ++ chunk.toolCalls).isEmpty := by
    rw [← hn]
    cases hc : chunk.toolCalls with
    | nil => simp [htool]
    | cons call rest => simp [StreamedNotice.sawToolCall]
  have hnotice : (acc.take chunk).1.notice = (n.lead chunk.textDelta).1 := by
    rw [take_notice, hn]
  have hsent : (acc.take chunk).1.text = acc.text ++ (n.lead chunk.textDelta).2 := by
    rw [take_text, hn]
  by_cases hlead : n.notices = [] ∨ chunk.textDelta = []
  · -- nothing is led: nothing is pending, or the delta is empty
    have hkeep : n.lead chunk.textDelta = (n, chunk.textDelta) := if_pos hlead
    rw [hkeep] at hnotice hsent
    rw [hn_pending, hpending] at hlead
    have hstays : notices = [] ∨ structured = true ∨
        (sent ++ chunk.textDelta).isEmpty = sent.isEmpty := by
      rcases hlead with hnone | hempty
      · by_cases hquiet : (structured || !sent.isEmpty) = true
        · rcases Bool.or_eq_true_iff.mp hquiet with hstr | hsome
          · exact .inr (.inl hstr)
          · cases sent with
            | nil => cases hsome
            | cons c rest => exact .inr (.inr rfl)
        · exact .inl (by rwa [if_neg hquiet] at hnone)
      · exact .inr (.inr (by rw [hempty, List.append_nil]))
    refine ⟨by rw [hnotice, hn_conf], by rw [hnotice, hn_struct], by rw [hnotice, hn_tool],
      ?_, ?_, ?_⟩
    · rw [hnotice, hn_shown, hshown]
      rcases hstays with h | h | h <;> simp only [h, List.isEmpty_nil, Bool.not_true,
        Bool.false_and, Bool.and_false]
    · rw [hnotice, hn_pending, hpending]
      rcases hstays with h | h | h <;> simp only [h, Bool.true_or, ite_self]
    · rw [hsent, htext, hnotice, hn_shown]
      split_ifs
      · rw [joinNotices_append]
      · rfl
  · have hled : n.lead chunk.textDelta = ({ n with notices := [], shown := true },
        joinNotices n.notices chunk.textDelta) := if_neg hlead
    rw [hled] at hnotice hsent
    rw [hn_pending, hpending] at hlead
    push Not at hlead
    obtain ⟨hsome, hdelta⟩ := hlead
    -- something is pending, so this is the first text of an answer that is not structured
    have hfirst : structured = false ∧ sent = [] ∧ notices ≠ [] := by
      by_cases hquiet : (structured || !sent.isEmpty) = true
      · exact absurd (if_pos hquiet) hsome
      · rw [if_neg hquiet] at hsome
        simp only [Bool.or_eq_true, Bool.not_eq_true', not_or, Bool.not_eq_true,
          Bool.not_eq_false, List.isEmpty_iff] at hquiet
        exact ⟨hquiet.1, hquiet.2, hsome⟩
    obtain ⟨rfl, rfl, hne⟩ := hfirst
    have hquiet : acc.text = [] := by
      rw [htext, hshown]
      simp
    refine ⟨by rw [hnotice]; exact hn_conf, by rw [hnotice]; exact hn_struct,
      by rw [hnotice]; exact hn_tool, ?_, ?_, ?_⟩
    · rw [hnotice]
      simp [hne, hdelta]
    · rw [hnotice]
      simp [hdelta]
    · rw [hsent, hnotice, hquiet, hn_pending, hpending]
      simp

/-- **A whole stream** has carried its deltas and its calls. -/
theorem Carried.takeAll (h : Carried notices structured sent calls acc)
    (chunks : List CanonicalChunk) :
    Carried notices structured (sent ++ (chunks.map (·.textDelta)).flatten)
      (calls ++ chunks.flatMap (·.toolCalls)) (acc.takeAll chunks) := by
  induction chunks generalizing sent calls acc with
  | nil => simpa [StreamAccounting.takeAll] using h
  | cons chunk rest ih =>
    have hrest := ih (h.take chunk)
    simpa [StreamAccounting.takeAll, List.append_assoc] using hrest

end StreamAccounting

/-! ### The two rules compared -/

section Compared

variable {response : CanonicalResponse} {notices : List Text} {structured : Bool}

theorem withheldBecause_eq_nil_iff :
    withheldBecause response structured = []
      ↔ structured = false ∧ response.toolCalls = [] ∧ blank response.text = false := by
  rw [← Bool.not_eq_true (blank response.text), ← strip_eq_nil_iff]
  unfold withheldBecause
  split_ifs with hstruct hcalls hstrip
  · simp [hstruct, withheldStructured_ne_nil]
  · simp [hcalls, withheldToolCall_ne_nil]
  · simp [hstrip, withheldNoText_ne_nil]
  · simp_all

/-- An answer that cannot carry the notice is left as it is, and the row says why. -/
theorem withheld_answer (hnotices : notices ≠ [])
    (hwhy : withheldBecause response structured ≠ []) :
    (withNotices response notices structured).text = response.text ∧
      noticeOutcome response notices structured
        = some { action := actionWithheld, why := withheldBecause response structured } := by
  constructor
  · rw [withNotices, if_pos (.inr hwhy)]
  · rw [noticeOutcome, if_neg hnotices]
    simp only [hwhy, ne_eq, not_false_eq_true, if_true]

/-- An answer that can is led, and the row says so. -/
theorem shown_answer (hnotices : notices ≠ []) (hwhy : withheldBecause response structured = []) :
    (withNotices response notices structured).text = joinNotices notices response.text ∧
      noticeOutcome response notices structured = some { action := actionShown, why := [] } := by
  constructor
  · rw [withNotices, if_neg (by simp [hnotices, hwhy])]
  · rw [noticeOutcome, if_neg hnotices, hwhy]
    simp only [ne_eq, not_true_eq_false, if_false]

variable {sent : Text} {calls : List ToolCallPart} {acc : StreamAccounting}

/-- A stream that carried text outside a structured answer has led it. -/
theorem StreamAccounting.Carried.led (h : Carried notices structured sent calls acc)
    (hnotices : notices ≠ []) (hstruct : structured = false) (hsent : sent ≠ []) :
    acc.text = joinNotices notices sent ∧
      acc.notice.outcome = some { action := actionShown, why := [] } := by
  have hshown : acc.notice.shown = true := by
    rw [h.shown]
    simp [hnotices, hstruct, hsent]
  refine ⟨by rw [h.sentText, if_pos hshown], ?_⟩
  rw [StreamedNotice.outcome, h.configured, if_neg hnotices, if_pos hshown]

/-- A stream that is structured or carried no text has led nothing. -/
theorem StreamAccounting.Carried.quiet (h : Carried notices structured sent calls acc)
    (hnotices : notices ≠ []) (hquiet : structured = true ∨ sent = []) :
    acc.text = sent ∧ acc.notice.outcome = some
      { action := actionWithheld
        why := if structured then withheldStructured
          else if calls ≠ [] then withheldToolCall
          else withheldNoText } := by
  have hshown : ¬ acc.notice.shown = true := by
    rw [h.shown]
    rcases hquiet with hq | hq <;> simp [hq]
  refine ⟨by rw [h.sentText, if_neg hshown], ?_⟩
  have hcalls : (acc.notice.toolCall = true) = (calls ≠ []) := by
    rw [h.toolCall]
    simp
  rw [StreamedNotice.outcome, h.configured, if_neg hnotices, if_neg hshown, h.isStructured]
  simp only [hcalls]

/-- **Exactly when a streamed answer carries the notice where the finished one does**, and says
so in the same words: where there is no notice, or the answer is structured, or it has no text at
all, or it calls nothing and its text is not only whitespace. For every way of cutting it. -/
theorem streamed_notice_iff (response : CanonicalResponse) (notices : List Text)
    (structured shows : Bool) {chunks : List CanonicalChunk}
    (htext : (chunks.map (·.textDelta)).flatten = response.text)
    (hcalls : chunks.flatMap (·.toolCalls) = response.toolCalls) :
    let acc : StreamAccounting := StreamAccounting.takeAll
      { notice := .start notices structured, showsReasoning := shows } chunks
    (acc.text = (withNotices response notices structured).text ∧
        acc.notice.outcome = noticeOutcome response notices structured)
      ↔ notices = [] ∨ structured = true ∨ response.text = [] ∨
        (response.toolCalls = [] ∧ blank response.text = false) := by
  intro acc
  have hcarried := (StreamAccounting.carried_start notices structured shows).takeAll chunks
  rw [List.nil_append, List.nil_append, htext, hcalls] at hcarried
  rcases eq_or_ne notices [] with rfl | hnotices
  · have hkept : withNotices response [] structured = response := if_pos (.inl rfl)
    refine iff_of_true ⟨?_, ?_⟩ (.inl rfl)
    · rw [hcarried.sentText, hcarried.shown, hkept]
      rfl
    · rw [StreamedNotice.outcome, hcarried.configured, noticeOutcome]
      rfl
  by_cases hquiet : structured = true ∨ response.text = []
  · -- nothing is led, and the reason on record is the finished answer's
    obtain ⟨hsent, houtcome⟩ := hcarried.quiet hnotices hquiet
    have hreason : withheldBecause response structured
        = if structured then withheldStructured
          else if response.toolCalls ≠ [] then withheldToolCall
          else withheldNoText := by
      unfold withheldBecause
      rcases hquiet with rfl | hempty
      · simp only [if_true]
      · rw [if_pos (strip_eq_nil_iff.mpr (by rw [hempty]; rfl))]
    have hwhy : withheldBecause response structured ≠ [] := by
      rw [Ne, withheldBecause_eq_nil_iff]
      rcases hquiet with rfl | hempty
      · simp
      · simp [hempty]
    obtain ⟨hkept, hrow⟩ := withheld_answer hnotices hwhy
    exact iff_of_true ⟨by rw [hsent, hkept], by rw [houtcome, hrow, hreason]⟩
      (.inr (hquiet.imp_right .inl))
  · push Not at hquiet
    obtain ⟨hstruct, hne⟩ := hquiet
    have hstruct : structured = false := by simpa using hstruct
    obtain ⟨hsent, houtcome⟩ := hcarried.led hnotices hstruct hne
    by_cases hwhy : withheldBecause response structured = []
    · obtain ⟨hled, hrow⟩ := shown_answer hnotices hwhy
      exact iff_of_true ⟨by rw [hsent, hled], by rw [houtcome, hrow]⟩
        (.inr (.inr (.inr (withheldBecause_eq_nil_iff.mp hwhy).2)))
    · -- the stream has shown what the finished answer withholds
      obtain ⟨-, hrow⟩ := withheld_answer hnotices hwhy
      refine iff_of_false (fun h => ?_) (fun h => ?_)
      · have hsame := h.2
        rw [houtcome, hrow] at hsame
        exact actionShown_ne_actionWithheld (congrArg NoticeOutcome.action (Option.some.inj hsame))
      · rcases h with h | h | h | h
        · exact hnotices h
        · rw [hstruct] at h
          cases h
        · exact hne h
        · exact hwhy (withheldBecause_eq_nil_iff.mpr ⟨hstruct, h⟩)

end Compared

/-- The conditions can be met by a text in two deltas with an empty one between them. -/
theorem streamed_notice_iff_two_deltas :
    let response : CanonicalResponse := { model := [], text := "ab", usage := ⟨1, 1, 0, 0, 0, 0⟩ }
    let acc : StreamAccounting := StreamAccounting.takeAll
      { notice := .start ["n"] false } [{ textDelta := "a" }, { textDelta := [] },
        { textDelta := "b" }]
    (acc.text = (withNotices response ["n"] false).text ∧
        acc.notice.outcome = noticeOutcome response ["n"] false)
      ↔ ([("n" : Text)] : List Text) = [] ∨ false = true ∨ response.text = [] ∨
        (response.toolCalls = [] ∧ blank response.text = false) :=
  streamed_notice_iff { model := [], text := "ab", usage := ⟨1, 1, 0, 0, 0, 0⟩ } ["n"] false false
    (by decide) (by decide)

/-- **Whitespace alone is led on a stream and not in a finished answer**: one delta of one space
carries the notice, and the row says it was shown. -/
theorem streamed_notice_leads_blank :
    let response : CanonicalResponse := { model := [], text := " ", usage := ⟨1, 1, 0, 0, 0, 0⟩ }
    let acc : StreamAccounting := StreamAccounting.takeAll
      { notice := .start ["n"] false } [{ textDelta := " " }]
    ¬ (acc.text = (withNotices response ["n"] false).text ∧
        acc.notice.outcome = noticeOutcome response ["n"] false) := by
  decide

end AiraGateway
