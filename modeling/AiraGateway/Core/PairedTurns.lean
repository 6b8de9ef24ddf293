import AiraGateway.Core.Pairing
import Mathlib.Data.List.Nodup
import Mathlib.Data.List.Perm.Basic

/-!
# Which results pairing disturbs

Results are paired in the order they were sent, each with a call that is still open. A result that
names no open call takes one of its name, and a later result may have named that call exactly: it
finds its call answered and is paired with another.

A conversation is cut into turns (`turnsOf`): the calls of a model message, and the parts that are
sent after it. Of a turn's results only the ids are told (`exchanges`), for nothing else changes.

* **When pairing disturbs nothing** (`pairsFaithfully_iff`): where every result that is the first
  sent under the id of a call finds that call open, and every result that answers no call finds
  none of its name where calls are struck off by their ids alone (`Turn.Clean`).
-/

namespace AiraGateway

/-! ### Turns -/

/-- The calls of a model message, and the parts sent after it up to the next. -/
structure Turn where
  calls : List ToolCallPart
  parts : List CanonicalPart

def Turn.ids (turn : Turn) : List Text := turn.calls.map (·.id)

/-- The turn under way and those after it. -/
def turnsFrom (calls : List ToolCallPart) : List CanonicalMessage → Turn × List Turn
  | [] => (⟨calls, []⟩, [])
  | message :: rest =>
    if message.role = .model then
      (⟨calls, []⟩, (turnsFrom message.toolCalls rest).1 :: (turnsFrom message.toolCalls rest).2)
    else
      (⟨calls, message.parts ++ (turnsFrom calls rest).1.parts⟩, (turnsFrom calls rest).2)

/-- The turns of a conversation. What comes before the first model message answers no call. -/
def turnsOf (messages : List CanonicalMessage) : List Turn :=
  (turnsFrom [] messages).1 :: (turnsFrom [] messages).2

/-- The id a result was sent under and the one it comes out under. -/
structure Exchange where
  sent : Text
  out : Text
  deriving DecidableEq

def exchangeOf : CanonicalPart × CanonicalPart → Option Exchange
  | (.toolResult result, .toolResult result') => some ⟨result.callId, result'.callId⟩
  | _ => none

/-- The results of a turn, told by their ids. -/
def exchanges (sent out : List CanonicalPart) : List Exchange :=
  (sent.zip out).filterMap exchangeOf

/-! ### What pairing is to do -/

/-- A result under the id of a call, and the first sent under it, comes out under it. -/
def LeavesMatching (ids : List Text) (results : List Exchange) : Prop :=
  ∀ before result after, results = before ++ result :: after → result.sent ∈ ids →
    (∀ earlier ∈ before, earlier.sent ≠ result.sent) → result.out = result.sent

/-- Two results come out under the id of one call only where both were sent under it. -/
def GivesEachOnce (ids : List Text) (results : List Exchange) : Prop :=
  ids.Nodup → results.Pairwise fun a b =>
    a.out = b.out → a.out ∈ ids → a.sent = a.out ∧ b.sent = b.out

/-- Pairing changes nothing but ids of results, leaves those that name their call, gives no call
twice and has nothing to do on what it has paired. -/
structure PairsFaithfully (messages : List CanonicalMessage) : Prop where
  onlyIds : List.Forall₂ CanonicalMessage.Repaired messages (pairedToolResults messages)
  matching : List.Forall₂ (fun sent out => LeavesMatching sent.ids (exchanges sent.parts out.parts))
    (turnsOf messages) (turnsOf (pairedToolResults messages))
  once : List.Forall₂ (fun sent out => GivesEachOnce sent.ids (exchanges sent.parts out.parts))
    (turnsOf messages) (turnsOf (pairedToolResults messages))
  idempotent : pairedToolResults (pairedToolResults messages) = pairedToolResults messages

/-! ### What a result finds -/

/-- The open call a result answers: by its id, or else by its name. -/
def answering (openCalls : List ToolCallPart) (result : ToolResultPart) : Option ToolCallPart :=
  (openCalls.find? (·.id = result.callId)).or (openCalls.find? (·.name = result.name))

/-- The calls that stay open after a result. -/
def stillOpen (openCalls : List ToolCallPart) (result : ToolResultPart) : List ToolCallPart :=
  match answering openCalls result with
  | some answered => openCalls.erase answered
  | none => openCalls

/-- The calls left over where the one a result answers is struck off by its id alone. -/
def struckById (openCalls left : List ToolCallPart) (result : ToolResultPart) :
    List ToolCallPart :=
  match answering openCalls result with
  | some answered => left.eraseP (·.id = answered.id)
  | none => left

/-- The first result sent under a call's id finds that call open. Where calls share ids, finding
no open call of its name does as well. -/
def FindsItsCall (ids sent : List Text) (openCalls : List ToolCallPart)
    (result : ToolResultPart) : Prop :=
  result.callId ∈ ids → result.callId ∉ sent →
    (∃ call ∈ openCalls, call.id = result.callId) ∨
      ¬ ids.Nodup ∧ ∀ call ∈ openCalls, call.name ≠ result.name

/-- A result that answers no call has no call of its name left over. -/
def LeavesNoneOver (openCalls left : List ToolCallPart) (result : ToolResultPart) : Prop :=
  answering openCalls result = none → ∀ call ∈ left, call.name ≠ result.name

/-- Every result of these parts, after some that were sent under given ids and left given calls
open, finds its call and leaves none over. -/
def CleanFrom (ids : List Text) :
    List Text → List ToolCallPart → List ToolCallPart → List CanonicalPart → Prop
  | _, _, _, [] => True
  | sent, openCalls, left, .toolResult result :: rest =>
    FindsItsCall ids sent openCalls result ∧ LeavesNoneOver openCalls left result ∧
      CleanFrom ids (result.callId :: sent) (stillOpen openCalls result)
        (struckById openCalls left result) rest
  | sent, openCalls, left, .text _ :: rest
  | sent, openCalls, left, .data _ :: rest
  | sent, openCalls, left, .toolCall _ :: rest => CleanFrom ids sent openCalls left rest

def Turn.Clean (turn : Turn) : Prop := CleanFrom turn.ids [] turn.calls turn.calls turn.parts

/-! ### One result -/

/-- The id a result comes out under. -/
def outId (openCalls : List ToolCallPart) (result : ToolResultPart) : Text :=
  match answering openCalls result with
  | some answered => answered.id
  | none => result.callId

private theorem pairPart_toolResult (openCalls : List ToolCallPart) (result : ToolResultPart) :
    pairPart openCalls (.toolResult result) =
      (.toolResult { result with callId := outId openCalls result },
        stillOpen openCalls result) := by
  rw [pairPart, outId, stillOpen, answering]
  cases hid : openCalls.find? (·.id = result.callId) with
  | some call =>
    have hsame : call.id = result.callId := by simpa using List.find?_some hid
    simp only [Option.some_or, hsame]
  | none =>
    cases hname : openCalls.find? (·.name = result.name) with
    | some call => rfl
    | none => rfl

private theorem pairParts_append (openCalls : List ToolCallPart) (parts more : List CanonicalPart) :
    pairParts openCalls (parts ++ more) =
      ((pairParts openCalls parts).1 ++ (pairParts (pairParts openCalls parts).2 more).1,
        (pairParts (pairParts openCalls parts).2 more).2) := by
  induction parts generalizing openCalls with
  | nil => rfl
  | cons part rest ih =>
    have hrest := ih (pairPart openCalls part).2
    simp only [List.cons_append, pairParts, hrest]

private theorem length_pairParts (openCalls : List ToolCallPart) (parts : List CanonicalPart) :
    (pairParts openCalls parts).1.length = parts.length :=
  (pairParts_repaired openCalls parts).length_eq.symm

/-- How the call a result answers was found. -/
private theorem answering_cases (openCalls : List ToolCallPart) (result : ToolResultPart) :
    (∃ call ∈ openCalls, call.id = result.callId ∧ answering openCalls result = some call) ∨
      (∀ call ∈ openCalls, call.id ≠ result.callId) ∧
        ((∃ call ∈ openCalls, call.name = result.name ∧ answering openCalls result = some call) ∨
          (∀ call ∈ openCalls, call.name ≠ result.name) ∧ answering openCalls result = none) := by
  rw [answering]
  cases hid : openCalls.find? (·.id = result.callId) with
  | some call =>
    have hsame : call.id = result.callId := by simpa using List.find?_some hid
    exact .inl ⟨call, List.mem_of_find?_eq_some hid, hsame, rfl⟩
  | none =>
    have hno : ∀ call ∈ openCalls, call.id ≠ result.callId := by
      simpa using List.find?_eq_none.mp hid
    refine .inr ⟨hno, ?_⟩
    cases hname : openCalls.find? (·.name = result.name) with
    | some call =>
      have hsame : call.name = result.name := by simpa using List.find?_some hname
      exact .inl ⟨call, List.mem_of_find?_eq_some hname, hsame, rfl⟩
    | none => exact .inr ⟨by simpa using List.find?_eq_none.mp hname, rfl⟩

private theorem mem_of_answering {openCalls : List ToolCallPart} {result : ToolResultPart}
    {call : ToolCallPart} (h : answering openCalls result = some call) : call ∈ openCalls := by
  rcases Option.or_eq_some_iff.mp h with h | ⟨-, h⟩
  · exact List.mem_of_find?_eq_some h
  · exact List.mem_of_find?_eq_some h

private theorem ne_of_answering_none {openCalls : List ToolCallPart} {result : ToolResultPart}
    (h : answering openCalls result = none) : ∀ call ∈ openCalls, call.id ≠ result.callId := by
  have hid := (Option.or_eq_none_iff.mp h).1
  simpa using List.find?_eq_none.mp hid

/-- The results of parts that are paired from given open calls. -/
private def exchangesFrom (openCalls : List ToolCallPart) (parts : List CanonicalPart) :
    List Exchange :=
  exchanges parts (pairParts openCalls parts).1

private theorem exchangesFrom_result (openCalls : List ToolCallPart) (result : ToolResultPart)
    (rest : List CanonicalPart) :
    exchangesFrom openCalls (.toolResult result :: rest) =
      ⟨result.callId, outId openCalls result⟩ :: exchangesFrom (stillOpen openCalls result) rest := by
  rw [exchangesFrom, pairParts, pairPart_toolResult]
  rfl

/-! ### Matching results are left, and no call is given twice -/

/-- The results that came before, beside the calls that are open after them. -/
private structure Past (calls openCalls : List ToolCallPart) (past : List Exchange) : Prop where
  opened : openCalls.Sublist calls
  struck : ∀ call ∈ calls, call ∉ openCalls → ∃ result ∈ past, result.out = call.id
  fresh : (calls.map (·.id)).Nodup → ∀ call ∈ openCalls, ∀ result ∈ past, result.out ≠ call.id
  own : (calls.map (·.id)).Nodup → ∀ result ∈ past, result.out ∈ calls.map (·.id) →
    result.out ∈ past.map (·.sent) → result.sent = result.out
  first : ∀ result ∈ past, result.sent ∈ calls.map (·.id) →
    ∃ own ∈ past, own.sent = result.sent ∧ own.out = result.sent

/-- What is asked of one more result: that it is left where it is the first under a call's id, and
that none before it was given the call it comes out under. -/
private def HeadFaithful (ids : List Text) (past : List Exchange) (result : Exchange) : Prop :=
  (result.sent ∈ ids → result.sent ∉ past.map (·.sent) → result.out = result.sent) ∧
    (ids.Nodup → ∀ earlier ∈ past, earlier.out = result.out → earlier.out ∈ ids →
      earlier.sent = earlier.out ∧ result.sent = result.out)

/-- **One result** is paired faithfully exactly where it finds its call. -/
private theorem headFaithful_iff {calls openCalls : List ToolCallPart} {past : List Exchange}
    (h : Past calls openCalls past) (result : ToolResultPart) :
    HeadFaithful (calls.map (·.id)) past ⟨result.callId, outId openCalls result⟩ ↔
      FindsItsCall (calls.map (·.id)) (past.map (·.sent)) openCalls result := by
  rw [HeadFaithful, FindsItsCall, outId]
  rcases answering_cases openCalls result with ⟨call, hcall, hid, hanswer⟩ |
    ⟨hno, ⟨call, hcall, hname, hanswer⟩ | ⟨hnone, hanswer⟩⟩
  · simp only [hanswer]
    refine iff_of_true ⟨fun _ _ => hid, fun hnodup earlier hearlier hout _ => ?_⟩
      fun _ _ => .inl ⟨call, hcall, hid⟩
    exact absurd hout (h.fresh hnodup call hcall earlier hearlier)
  · simp only [hanswer]
    have hmoved : call.id ≠ result.callId := hno call hcall
    constructor
    · rintro ⟨hleft, -⟩ hids hsent
      exact absurd (hleft hids hsent) hmoved
    · intro hfinds
      refine ⟨fun hids hsent => ?_, fun hnodup earlier hearlier hout _ => ?_⟩
      · rcases hfinds hids hsent with ⟨other, hother, hsame⟩ | ⟨-, hnames⟩
        · exact absurd hsame (hno other hother)
        · exact absurd hname (hnames call hcall)
      · exact absurd hout (h.fresh hnodup call hcall earlier hearlier)
  · simp only [hanswer]
    constructor
    · rintro ⟨-, honce⟩ hids hsent
      refine .inr ⟨fun hnodup => ?_, hnone⟩
      -- the call was given away: to a result that was not sent under it
      obtain ⟨call, hcall, hid⟩ := List.mem_map.mp hids
      have hclosed : call ∉ openCalls := fun hopen => hno call hopen hid
      obtain ⟨earlier, hearlier, hout⟩ := h.struck call hcall hclosed
      have hout : earlier.out = result.callId := hout.trans hid
      have hown := (honce hnodup earlier hearlier hout (hout ▸ hids)).1
      exact hsent (List.mem_map.mpr ⟨earlier, hearlier, hown.trans hout⟩)
    · intro hfinds
      refine ⟨fun _ _ => trivial, fun hnodup earlier hearlier hout hids => ⟨?_, trivial⟩⟩
      have hsent : result.callId ∈ past.map (·.sent) := by
        by_contra hsent
        rcases hfinds (hout ▸ hids) hsent with ⟨call, hcall, hsame⟩ | ⟨hdup, -⟩
        · exact hno call hcall hsame
        · exact hdup hnodup
      exact h.own hnodup earlier hearlier hids (hout ▸ hsent)

private theorem Past.next {calls openCalls : List ToolCallPart} {past : List Exchange}
    (h : Past calls openCalls past) {result : ToolResultPart}
    (hfinds : FindsItsCall (calls.map (·.id)) (past.map (·.sent)) openCalls result) :
    Past calls (stillOpen openCalls result)
      (⟨result.callId, outId openCalls result⟩ :: past) := by
  have hsubset : ∀ call ∈ stillOpen openCalls result, call ∈ openCalls := by
    rw [stillOpen]
    intro call hcall
    split at hcall
    · exact List.mem_of_mem_erase hcall
    · exact hcall
  refine ⟨?_, ?_, ?_, ?_, ?_⟩
  · rw [stillOpen]
    split
    · exact (List.erase_sublist ..).trans h.opened
    · exact h.opened
  · intro call hcall hclosed
    by_cases hopen : call ∈ openCalls
    · refine ⟨_, List.mem_cons_self .., ?_⟩
      rw [stillOpen] at hclosed
      rw [outId]
      cases hanswer : answering openCalls result with
      | none =>
        rw [hanswer] at hclosed
        exact absurd hopen hclosed
      | some answered =>
        rw [hanswer] at hclosed
        have hsame : call = answered := by
          by_contra hother
          exact hclosed ((List.mem_erase_of_ne hother).mpr hopen)
        rw [hsame]
    · obtain ⟨earlier, hearlier, hout⟩ := h.struck call hcall hopen
      exact ⟨earlier, List.mem_cons_of_mem _ hearlier, hout⟩
  · intro hnodup call hcall earlier hearlier
    rcases List.mem_cons.mp hearlier with rfl | hearlier
    · intro hout
      rw [stillOpen] at hcall
      rw [outId] at hout
      cases hanswer : answering openCalls result with
      | none =>
        rw [hanswer] at hcall hout
        exact ne_of_answering_none hanswer call hcall hout.symm
      | some answered =>
        rw [hanswer] at hcall hout
        have hsame := List.inj_on_of_nodup_map hnodup (h.opened.subset (mem_of_answering hanswer))
          (h.opened.subset (List.mem_of_mem_erase hcall)) hout
        have hnodup' := (List.Nodup.of_map _ hnodup).sublist h.opened
        rw [← hsame] at hcall
        exact (hnodup'.mem_erase_iff.mp hcall).1 rfl
    · exact h.fresh hnodup call (hsubset call hcall) earlier hearlier
  · intro hnodup earlier hearlier hids hsent
    rw [List.map_cons, List.mem_cons] at hsent
    rcases List.mem_cons.mp hearlier with rfl | hearlier
    · -- a call that was open was the first's that is sent under its id
      rcases hsent with hsame | hsent
      · exact hsame.symm
      · rw [outId] at hids hsent ⊢
        cases hanswer : answering openCalls result with
        | none => rfl
        | some answered =>
          rw [hanswer] at hids hsent
          obtain ⟨before, hbefore, hsame⟩ := List.mem_map.mp hsent
          obtain ⟨own, hown, -, hout⟩ := h.first before hbefore (hsame ▸ hids)
          exact absurd (hout.trans hsame) (h.fresh hnodup answered (mem_of_answering hanswer) own
            hown)
    · by_cases hpast : earlier.out ∈ past.map (·.sent)
      · exact h.own hnodup earlier hearlier hids hpast
      · have hsame : earlier.out = result.callId := hsent.resolve_right hpast
        rcases hfinds (hsame ▸ hids) (hsame ▸ hpast) with ⟨call, hcall, hid⟩ | ⟨hdup, -⟩
        · exact absurd (hsame.trans hid.symm) (h.fresh hnodup call hcall earlier hearlier)
        · exact absurd hnodup hdup
  · intro earlier hearlier hids
    rcases List.mem_cons.mp hearlier with rfl | hearlier
    · by_cases hsent : result.callId ∈ past.map (·.sent)
      · obtain ⟨before, hbefore, hsame⟩ := List.mem_map.mp hsent
        obtain ⟨own, hown, howns⟩ := h.first before hbefore (hsame ▸ hids)
        exact ⟨own, List.mem_cons_of_mem _ hown, howns.1.trans hsame, howns.2.trans hsame⟩
      · refine ⟨_, List.mem_cons_self .., rfl, ?_⟩
        exact ((headFaithful_iff h result).mpr hfinds).1 hids hsent
    · obtain ⟨own, hown, howns⟩ := h.first earlier hearlier hids
      exact ⟨own, List.mem_cons_of_mem _ hown, howns⟩

/-- What is asked of results after some that came before. -/
private def FaithfulFrom (ids : List Text) (past results : List Exchange) : Prop :=
  (∀ before result after, results = before ++ result :: after → result.sent ∈ ids →
      result.sent ∉ past.map (·.sent) → (∀ earlier ∈ before, earlier.sent ≠ result.sent) →
      result.out = result.sent) ∧
    (ids.Nodup → (∀ a ∈ past, ∀ b ∈ results,
        a.out = b.out → a.out ∈ ids → a.sent = a.out ∧ b.sent = b.out) ∧
      results.Pairwise fun a b => a.out = b.out → a.out ∈ ids → a.sent = a.out ∧ b.sent = b.out)

private theorem faithfulFrom_cons {ids : List Text} {past results : List Exchange}
    {result : Exchange} :
    FaithfulFrom ids past (result :: results) ↔
      HeadFaithful ids past result ∧ FaithfulFrom ids (result :: past) results := by
  constructor
  · rintro ⟨hleft, honce⟩
    refine ⟨⟨fun hids hsent => hleft [] result results rfl hids hsent (by simp),
      fun hnodup earlier hearlier => (honce hnodup).1 earlier hearlier result
        (List.mem_cons_self ..)⟩, fun before next after hsplit hids hsent hbefore => ?_,
      fun hnodup => ?_⟩
    · rw [List.map_cons, List.mem_cons, not_or] at hsent
      refine hleft (result :: before) next after (congrArg (result :: ·) hsplit) hids hsent.2 ?_
      exact List.forall_mem_cons.mpr ⟨fun h => hsent.1 h.symm, hbefore⟩
    · obtain ⟨hpast, hpairs⟩ := honce hnodup
      rw [List.pairwise_cons] at hpairs
      refine ⟨List.forall_mem_cons.mpr ⟨hpairs.1, fun a ha b hb => ?_⟩, hpairs.2⟩
      exact hpast a ha b (List.mem_cons_of_mem _ hb)
  · rintro ⟨⟨hhead, hgiven⟩, hleft, honce⟩
    refine ⟨fun before next after hsplit hids hsent hbefore => ?_, fun hnodup => ?_⟩
    · cases before with
      | nil =>
        obtain ⟨rfl, -⟩ := List.cons.inj hsplit
        exact hhead hids hsent
      | cons first before =>
        obtain ⟨rfl, hrest⟩ := List.cons.inj hsplit
        rw [List.forall_mem_cons] at hbefore
        refine hleft before next after hrest hids ?_ hbefore.2
        rw [List.map_cons, List.mem_cons, not_or]
        exact ⟨fun h => hbefore.1 h.symm, hsent⟩
    · obtain ⟨hpast, hpairs⟩ := honce hnodup
      rw [List.forall_mem_cons] at hpast
      refine ⟨fun a ha => List.forall_mem_cons.mpr ⟨hgiven hnodup a ha, hpast.2 a ha⟩, ?_⟩
      exact List.pairwise_cons.mpr ⟨hpast.1, hpairs⟩

/-- The first half of being clean: every result finds its call. -/
def FindsFrom (ids : List Text) :
    List Text → List ToolCallPart → List CanonicalPart → Prop
  | _, _, [] => True
  | sent, openCalls, .toolResult result :: rest =>
    FindsItsCall ids sent openCalls result ∧
      FindsFrom ids (result.callId :: sent) (stillOpen openCalls result) rest
  | sent, openCalls, .text _ :: rest
  | sent, openCalls, .data _ :: rest
  | sent, openCalls, .toolCall _ :: rest => FindsFrom ids sent openCalls rest

/-- **A run of results** is paired faithfully exactly where each of them finds its call. -/
private theorem faithfulFrom_iff {calls openCalls : List ToolCallPart} {past : List Exchange}
    (h : Past calls openCalls past) (parts : List CanonicalPart) :
    FaithfulFrom (calls.map (·.id)) past (exchangesFrom openCalls parts) ↔
      FindsFrom (calls.map (·.id)) (past.map (·.sent)) openCalls parts := by
  induction parts generalizing openCalls past with
  | nil =>
    refine iff_of_true ⟨fun before result after hsplit => ?_, fun _ => ⟨?_, .nil⟩⟩ trivial
    · have hnil : [] = before ++ result :: after := hsplit
      exact absurd hnil.symm (by simp)
    · exact fun a _ b hb => absurd hb List.not_mem_nil
  | cons part rest ih =>
    cases part with
    | toolResult result =>
      rw [exchangesFrom_result, faithfulFrom_cons, headFaithful_iff h]
      exact and_congr_right fun hfinds => ih (h.next hfinds)
    | text t => exact ih h
    | data part => exact ih h
    | toolCall call => exact ih h

private theorem Past.start (calls : List ToolCallPart) : Past calls calls [] where
  opened := .refl calls
  struck := fun _ hcall hclosed => absurd hcall hclosed
  fresh := fun _ _ _ _ hresult => absurd hresult List.not_mem_nil
  own := fun _ _ hresult => absurd hresult List.not_mem_nil
  first := fun _ hresult => absurd hresult List.not_mem_nil

/-- What is asked of a turn's results, in one. -/
private theorem faithful_turn_iff (turn : Turn) :
    LeavesMatching turn.ids (exchangesFrom turn.calls turn.parts) ∧
        GivesEachOnce turn.ids (exchangesFrom turn.calls turn.parts) ↔
      FindsFrom turn.ids [] turn.calls turn.parts := by
  have hfrom := faithfulFrom_iff (Past.start turn.calls) turn.parts
  rw [List.map_nil] at hfrom
  rw [Turn.ids, ← hfrom, FaithfulFrom, LeavesMatching, GivesEachOnce]
  simp

/-! ### Pairing what is paired -/

/-- The other half of being clean: no result leaves a call of its name over. -/
private def NoneOverFrom :
    List ToolCallPart → List ToolCallPart → List CanonicalPart → Prop
  | _, _, [] => True
  | openCalls, left, .toolResult result :: rest =>
    LeavesNoneOver openCalls left result ∧
      NoneOverFrom (stillOpen openCalls result) (struckById openCalls left result) rest
  | openCalls, left, .text _ :: rest
  | openCalls, left, .data _ :: rest
  | openCalls, left, .toolCall _ :: rest => NoneOverFrom openCalls left rest

private theorem cleanFrom_iff (ids sent : List Text) (openCalls left : List ToolCallPart)
    (parts : List CanonicalPart) :
    CleanFrom ids sent openCalls left parts ↔
      FindsFrom ids sent openCalls parts ∧ NoneOverFrom openCalls left parts := by
  induction parts generalizing sent openCalls left with
  | nil => exact iff_of_true trivial ⟨trivial, trivial⟩
  | cons part rest ih =>
    cases part with
    | toolResult result =>
      rw [CleanFrom, FindsFrom, NoneOverFrom, ih]
      constructor
      · rintro ⟨hfinds, hover, hrest⟩
        exact ⟨⟨hfinds, hrest.1⟩, hover, hrest.2⟩
      · rintro ⟨⟨hfinds, hrest⟩, hover, hrest'⟩
        exact ⟨hfinds, hover, hrest, hrest'⟩
    | text t => exact ih sent openCalls left
    | data part => exact ih sent openCalls left
    | toolCall call => exact ih sent openCalls left

private theorem erase_of_find {p : ToolCallPart → Bool} {l : List ToolCallPart}
    {call : ToolCallPart} (h : l.find? p = some call) : l.erase call = l.eraseP p := by
  induction l with
  | nil => exact nomatch h
  | cons first rest ih =>
    rw [List.find?_cons] at h
    cases hp : p first with
    | true =>
      rw [hp] at h
      obtain rfl : first = call := Option.some.inj h
      rw [List.erase_cons_head, List.eraseP_cons_of_pos hp]
    | false =>
      rw [hp] at h
      have hother : first ≠ call := by
        rintro rfl
        rw [List.find?_some h] at hp
        exact nomatch hp
      rw [List.erase_cons_tail (by simpa using hother), List.eraseP_cons_of_neg (by simp [hp]),
        ih h]

/-- Two lists of calls under the same ids, each as often. -/
private abbrev SameIds (left openCalls : List ToolCallPart) : Prop :=
  (left.map (·.id)).Perm (openCalls.map (·.id))

private theorem map_id_eraseP (l : List ToolCallPart) (id : Text) :
    (l.eraseP (·.id = id)).map (·.id) = (l.map (·.id)).erase id := by
  induction l with
  | nil => rfl
  | cons call rest ih =>
    by_cases hid : call.id = id
    · rw [List.eraseP_cons_of_pos (by simpa using hid), List.map_cons, hid,
        List.erase_cons_head]
    · rw [List.eraseP_cons_of_neg (by simpa using hid), List.map_cons, List.map_cons, ih,
        List.erase_cons_tail (by simpa using hid)]

private theorem map_id_erase {l : List ToolCallPart} {call : ToolCallPart} (h : call ∈ l) :
    ((l.erase call).map (·.id)).Perm ((l.map (·.id)).erase call.id) := by
  have hperm := (List.perm_cons_erase h).map (·.id)
  rw [List.map_cons] at hperm
  have herased := hperm.erase call.id
  rw [List.erase_cons_head] at herased
  exact herased.symm

private theorem SameIds.next {left openCalls : List ToolCallPart} (h : SameIds left openCalls)
    (result : ToolResultPart) :
    SameIds (struckById openCalls left result) (stillOpen openCalls result) := by
  rw [struckById, stillOpen]
  cases hanswer : answering openCalls result with
  | none => exact h
  | some call =>
    change (List.map _ _).Perm _
    rw [map_id_eraseP]
    exact (h.erase call.id).trans (map_id_erase (mem_of_answering hanswer)).symm

/-- **A result that is paired again** comes out as it did exactly where it leaves none over, and
then strikes off the call it had taken, by its id. -/
private theorem pairPart_again {left openCalls : List ToolCallPart} (h : SameIds left openCalls)
    (result : ToolResultPart) :
    (LeavesNoneOver openCalls left result →
      pairPart left (pairPart openCalls (.toolResult result)).1 =
        ((pairPart openCalls (.toolResult result)).1, struckById openCalls left result)) ∧
      ((pairPart left (pairPart openCalls (.toolResult result)).1).1 =
        (pairPart openCalls (.toolResult result)).1 → LeavesNoneOver openCalls left result) := by
  rw [pairPart_toolResult, LeavesNoneOver, struckById, outId]
  cases hanswer : answering openCalls result with
  | some call =>
    -- a call under that id is left, the first of them is struck off
    have hmem : call.id ∈ left.map (·.id) :=
      h.mem_iff.mpr (List.mem_map.mpr ⟨call, mem_of_answering hanswer, rfl⟩)
    obtain ⟨other, hother, hid⟩ := List.mem_map.mp hmem
    have hfound : (left.find? (·.id = call.id)).isSome := by
      rw [List.find?_isSome]
      exact ⟨other, hother, by simpa using hid⟩
    obtain ⟨first, hfirst⟩ := Option.isSome_iff_exists.mp hfound
    refine ⟨fun _ => ?_, fun _ hnone => nomatch hnone⟩
    simp only [pairPart, hfirst, erase_of_find hfirst]
  | none =>
    have hnoid : left.find? (·.id = result.callId) = none := by
      rw [List.find?_eq_none]
      intro call hcall
      have hmem : call.id ∈ openCalls.map (·.id) :=
        h.mem_iff.mp (List.mem_map.mpr ⟨call, hcall, rfl⟩)
      obtain ⟨other, hother, hid⟩ := List.mem_map.mp hmem
      have hne := ne_of_answering_none hanswer other hother
      rw [hid] at hne
      simpa using hne
    refine ⟨fun hover => ?_, fun hsame _ call hcall hname => ?_⟩
    · have hnoname : left.find? (·.name = result.name) = none := by
        rw [List.find?_eq_none]
        intro call hcall
        simpa using hover rfl call hcall
      simp only [pairPart, hnoid, hnoname]
    · have hfound : (left.find? (·.name = result.name)).isSome := by
        rw [List.find?_isSome]
        exact ⟨call, hcall, by simpa using hname⟩
      obtain ⟨first, hfirst⟩ := Option.isSome_iff_exists.mp hfound
      simp only [pairPart, hnoid, hfirst, CanonicalPart.toolResult.injEq,
        ToolResultPart.mk.injEq, and_true] at hsame
      have hno := List.find?_eq_none.mp hnoid first (List.mem_of_find?_eq_some hfirst)
      exact absurd hsame (by simpa using hno)

private theorem pairParts_again {left openCalls : List ToolCallPart} (h : SameIds left openCalls)
    (parts : List CanonicalPart) :
    (pairParts left (pairParts openCalls parts).1).1 = (pairParts openCalls parts).1 ↔
      NoneOverFrom openCalls left parts := by
  induction parts generalizing left openCalls with
  | nil => exact iff_of_true rfl trivial
  | cons part rest ih =>
    cases part with
    | toolResult result =>
      have hhead := pairPart_again h result
      have hrest := ih (h.next result)
      have hopen : (pairPart openCalls (.toolResult result)).2 = stillOpen openCalls result := by
        rw [pairPart_toolResult]
      rw [NoneOverFrom, ← hrest]
      simp only [pairParts, hopen, List.cons.injEq]
      constructor
      · rintro ⟨hsame, htail⟩
        have hover := hhead.2 hsame
        rw [hhead.1 hover] at htail
        exact ⟨hover, htail⟩
      · rintro ⟨hover, htail⟩
        rw [hhead.1 hover]
        exact ⟨rfl, htail⟩
    | text t =>
      refine Iff.trans ?_ (ih h)
      simp only [pairParts, pairPart, List.cons.injEq, true_and]
    | data part =>
      refine Iff.trans ?_ (ih h)
      simp only [pairParts, pairPart, List.cons.injEq, true_and]
    | toolCall call =>
      refine Iff.trans ?_ (ih h)
      simp only [pairParts, pairPart, List.cons.injEq, true_and]

/-! ### A conversation by its turns -/

/-- The parts of a turn as they come out. -/
def Turn.paired (turn : Turn) : Turn := ⟨turn.calls, (pairParts turn.calls turn.parts).1⟩

private theorem calls_turnsFrom (calls : List ToolCallPart) (messages : List CanonicalMessage) :
    (turnsFrom calls messages).1.calls = calls := by
  cases messages with
  | nil => rfl
  | cons message rest =>
    rw [turnsFrom]
    split_ifs <;> rfl

private theorem turnsFrom_paired (calls openCalls : List ToolCallPart)
    (messages : List CanonicalMessage) :
    turnsFrom calls (pairMessages openCalls messages) =
      (⟨calls, (pairParts openCalls (turnsFrom calls messages).1.parts).1⟩,
        (turnsFrom calls messages).2.map Turn.paired) := by
  induction messages generalizing calls openCalls with
  | nil => rfl
  | cons message rest ih =>
    rw [pairMessages]
    by_cases hrole : message.role = .model
    · rw [if_pos hrole, turnsFrom, if_pos hrole, turnsFrom, if_pos hrole, ih]
      have hpaired : Turn.paired (turnsFrom message.toolCalls rest).1 =
          ⟨message.toolCalls, (pairParts message.toolCalls
            (turnsFrom message.toolCalls rest).1.parts).1⟩ := by
        rw [Turn.paired, calls_turnsFrom]
      rw [List.map_cons, hpaired]
      rfl
    · have hrole' : ({ message with parts := (pairParts openCalls message.parts).1 } :
          CanonicalMessage).role ≠ .model := hrole
      rw [if_neg hrole, turnsFrom, if_neg hrole', turnsFrom, if_neg hrole, ih, pairParts_append]

/-- **The turns of a paired conversation** are its turns, each paired. -/
theorem turnsOf_paired (messages : List CanonicalMessage) :
    turnsOf (pairedToolResults messages) = (turnsOf messages).map Turn.paired := by
  rw [turnsOf, pairedToolResults, turnsFrom_paired, turnsOf, List.map_cons, Turn.paired,
    calls_turnsFrom]

private theorem pairMessages_again {left openCalls : List ToolCallPart} (calls : List ToolCallPart)
    {messages : List CanonicalMessage}
    (hfirst : (pairParts left (pairParts openCalls (turnsFrom calls messages).1.parts).1).1 =
      (pairParts openCalls (turnsFrom calls messages).1.parts).1)
    (hrest : ∀ turn ∈ (turnsFrom calls messages).2, turn.paired.paired = turn.paired) :
    pairMessages left (pairMessages openCalls messages) = pairMessages openCalls messages := by
  induction messages generalizing calls left openCalls with
  | nil => rfl
  | cons message rest ih =>
    by_cases hrole : message.role = .model
    · rw [turnsFrom, if_pos hrole, List.forall_mem_cons] at hrest
      rw [pairMessages, if_pos hrole, pairMessages, if_pos hrole]
      refine congrArg (message :: ·) (ih message.toolCalls ?_ hrest.2)
      have hturn := congrArg Turn.parts hrest.1
      rw [Turn.paired, Turn.paired, calls_turnsFrom] at hturn
      exact hturn
    · have hrole' : ({ message with parts := (pairParts openCalls message.parts).1 } :
          CanonicalMessage).role ≠ .model := hrole
      rw [turnsFrom, if_neg hrole, pairParts_append] at hfirst
      rw [turnsFrom, if_neg hrole] at hrest
      rw [pairMessages, if_neg hrole, pairMessages, if_neg hrole']
      rw [pairParts_append] at hfirst
      obtain ⟨hparts, hturn⟩ := List.append_inj hfirst (by rw [length_pairParts])
      have htail := ih calls hturn hrest
      change ({ message with
          parts := (pairParts left (pairParts openCalls message.parts).1).1 } : CanonicalMessage) ::
        pairMessages (pairParts left (pairParts openCalls message.parts).1).2 _ = _
      rw [hparts, htail]

private theorem idempotent_iff (messages : List CanonicalMessage) :
    pairedToolResults (pairedToolResults messages) = pairedToolResults messages ↔
      ∀ turn ∈ turnsOf messages, turn.paired.paired = turn.paired := by
  constructor
  · intro h
    have hturns := congrArg turnsOf h
    rw [turnsOf_paired, turnsOf_paired, List.map_map] at hturns
    exact List.map_inj_left.mp hturns
  · intro h
    rw [turnsOf, List.forall_mem_cons] at h
    have hfirst := congrArg Turn.parts h.1
    rw [Turn.paired, Turn.paired, calls_turnsFrom] at hfirst
    exact pairMessages_again [] hfirst h.2

private theorem clean_iff (turn : Turn) :
    turn.Clean ↔ (LeavesMatching turn.ids (exchanges turn.parts turn.paired.parts) ∧
      GivesEachOnce turn.ids (exchanges turn.parts turn.paired.parts)) ∧
        turn.paired.paired = turn.paired := by
  have hagain := pairParts_again (List.Perm.refl (turn.calls.map (·.id))) turn.parts
  have hpaired : turn.paired.paired = turn.paired ↔
      (pairParts turn.calls (pairParts turn.calls turn.parts).1).1 =
        (pairParts turn.calls turn.parts).1 := by
    constructor
    · exact congrArg Turn.parts
    · exact fun h => congrArg (Turn.mk turn.calls) h
  rw [hpaired, hagain, Turn.Clean, cleanFrom_iff]
  exact and_congr_left' (faithful_turn_iff turn).symm

/-- **When pairing disturbs nothing.** Only ids of results change, results that name their call
are left, no call is given twice and pairing is idempotent, exactly where every turn is clean. -/
theorem pairsFaithfully_iff (messages : List CanonicalMessage) :
    PairsFaithfully messages ↔ ∀ turn ∈ turnsOf messages, turn.Clean := by
  have hturn : ∀ P : Turn → Turn → Prop,
      List.Forall₂ P (turnsOf messages) (turnsOf (pairedToolResults messages)) ↔
        ∀ turn ∈ turnsOf messages, P turn turn.paired := by
    intro P
    rw [turnsOf_paired, List.forall₂_map_right_iff, List.forall₂_same]
  constructor
  · rintro ⟨-, hmatching, honce, hidempotent⟩ turn hmem
    rw [hturn] at hmatching honce
    rw [idempotent_iff] at hidempotent
    exact (clean_iff turn).mpr ⟨⟨hmatching turn hmem, honce turn hmem⟩, hidempotent turn hmem⟩
  · intro hclean
    refine ⟨pairedToolResults_repaired messages, ?_, ?_, ?_⟩
    · exact (hturn _).mpr fun turn hmem => ((clean_iff turn).mp (hclean turn hmem)).1.1
    · exact (hturn _).mpr fun turn hmem => ((clean_iff turn).mp (hclean turn hmem)).1.2
    · exact (idempotent_iff messages).mpr fun turn hmem => ((clean_iff turn).mp (hclean turn hmem)).2

/-- A result that names no call, and before the one that names a call of its name. -/
private def namelessFirst : List CanonicalMessage :=
  [⟨.model, [.toolCall { id := "c1", name := "f" }, .toolCall { id := "c2", name := "f" }]⟩,
    ⟨.user, [.toolResult ⟨"f", "f", "2", []⟩, .toolResult ⟨"c1", "f", "1", []⟩]⟩]

/-- The result that was sent under `c1` comes out under `c2`, and `c1` has the other's. -/
theorem namelessFirst_disturbs : ¬ PairsFaithfully namelessFirst ∧
    (pairedToolResults namelessFirst).map (·.toolResults.map (·.callId)) = [[], [("c1" : Text), "c2"]] := by
  refine ⟨fun h => ?_, by decide⟩
  have hturn := List.forall₂_iff_get.mp h.matching
  have hlast := hturn.2 1 (by decide) (by decide) [⟨"f", "c1"⟩] ⟨"c1", "c2"⟩ [] rfl (by decide)
    (by decide)
  exact absurd hlast (by decide)

end AiraGateway
