import AiraGateway.Api.Kira.Mapping
import AiraGateway.Core.Pairing
import Mathlib.Data.List.Nodup

/-!
# A KIRA conversation arrives whole

A conversation is cut into rounds: the calls of a model turn, and the results sent after it up to
the next (`rounds`). It is cut the same way as it is sent and as it arrives, and a round is answered
where each result names one of its calls, by id and by name, and no two the same one
(`Round.Answered`).

* **A conversation that is mapped arrives whole** (`receive_arrives`): its calls have ids of their
  own, every round is answered, pairing leaves it as it is, and every part of the request is in the
  message of its turn. A conversation with a round that is not answered is refused.
-/

namespace AiraGateway.Kira

/-! ### Rounds -/

/-- A function that is called, under the id that is given. -/
structure Called where
  id : Option Text
  name : Text
  deriving DecidableEq

/-- A result, by the id of the call it is for and the name of its function. -/
structure Told where
  callId : Text
  name : Text
  deriving DecidableEq

/-- What a turn calls and answers. -/
structure Spoken where
  model : Bool
  calls : List Called
  results : List Told

/-- The calls of a model turn, and the results sent after it up to the next one. -/
structure Round where
  calls : List Called
  results : List Told

/-- The round under way and those after it. -/
def roundsFrom (calls : List Called) : List Spoken → Round × List Round
  | [] => (⟨calls, []⟩, [])
  | turn :: rest =>
    if turn.model then
      (⟨calls, turn.results⟩, (roundsFrom turn.calls rest).1 :: (roundsFrom turn.calls rest).2)
    else
      (⟨calls, turn.results ++ (roundsFrom calls rest).1.results⟩, (roundsFrom calls rest).2)

/-- The rounds of a conversation. What comes before the first model turn answers no call. -/
def rounds (turns : List Spoken) : List Round :=
  (roundsFrom [] turns).1 :: (roundsFrom [] turns).2

/-- Every result answers one call, and no call is answered twice. -/
structure Round.Answered (round : Round) : Prop where
  once : (round.results.map (·.callId)).Nodup
  each : ∀ result ∈ round.results,
    (round.calls.filter (·.id = some result.callId)).map (·.name) = [result.name]

/-- A message, told by what it calls and answers. -/
def spokenOf (message : CanonicalMessage) : Spoken where
  model := message.role = .model
  calls := message.toolCalls.map fun call => ⟨some call.id, call.name⟩
  results := message.toolResults.map fun result => ⟨result.callId, result.name⟩

def calledOf (part : RawPart) : Called := ⟨givenId part, textAt part "name"⟩

def toldOf (part : RawPart) : Told := ⟨textAt part "call_id", textAt part "name"⟩

/-- A turn as it was sent, told by what it calls and answers. -/
def RequestTurn.spoken (turn : RequestTurn) : Spoken where
  model := turn.role = .model
  calls := (turn.content.parts.filter fun part => sentKind part = some .call).map calledOf
  results := (turn.content.parts.filter fun part => sentKind part = some .result).map toldOf

theorem calls_roundsFrom (calls : List Called) (turns : List Spoken) :
    (roundsFrom calls turns).1.calls = calls := by
  cases turns with
  | nil => rfl
  | cons turn rest =>
    rw [roundsFrom]
    split_ifs <;> rfl

/-- A round's calls are those of one turn. -/
theorem calls_of_mem_rounds {calls : List Called} {turns : List Spoken} {round : Round}
    (h : round ∈ (roundsFrom calls turns).2) : ∃ turn ∈ turns, round.calls = turn.calls := by
  induction turns generalizing calls with
  | nil => exact absurd h List.not_mem_nil
  | cons turn rest ih =>
    rw [roundsFrom] at h
    split_ifs at h with hmodel
    · rcases List.mem_cons.mp h with rfl | h
      · exact ⟨turn, List.mem_cons_self, calls_roundsFrom _ _⟩
      · obtain ⟨other, hother, hcalls⟩ := ih h
        exact ⟨other, List.mem_cons_of_mem _ hother, hcalls⟩
    · obtain ⟨other, hother, hcalls⟩ := ih h
      exact ⟨other, List.mem_cons_of_mem _ hother, hcalls⟩

/-- Every result is in one round. -/
theorem results_rounds (turns : List Spoken) :
    (rounds turns).flatMap (·.results) = turns.flatMap (·.results) := by
  have hfrom : ∀ calls, (roundsFrom calls turns).1.results ++
      (roundsFrom calls turns).2.flatMap (·.results) = turns.flatMap (·.results) := by
    induction turns with
    | nil => exact fun _ => rfl
    | cons turn rest ih =>
      intro calls
      rw [roundsFrom]
      split_ifs
      · rw [List.flatMap_cons, List.flatMap_cons, ih turn.calls]
      · rw [List.flatMap_cons, List.append_assoc, ih calls]
  exact hfrom []

/-! ### Results that answer calls -/

/-- Every result is for a call of the round, and no two for the same one. -/
structure Round.Found (round : Round) : Prop where
  once : (round.results.map (·.callId)).Nodup
  each : ∀ result ∈ round.results, (⟨some result.callId, result.name⟩ : Called) ∈ round.calls

/-- Where calls have ids of their own, a result that is for one is for no other. -/
theorem Round.Found.answered {round : Round} (h : round.Found)
    (hids : (round.calls.map (·.id)).Nodup) : round.Answered := by
  refine ⟨h.once, fun result hresult => ?_⟩
  have hmem := h.each result hresult
  generalize round.calls = calls at hids hmem
  induction calls with
  | nil => exact absurd hmem List.not_mem_nil
  | cons call rest ih =>
    obtain ⟨hnew, hids⟩ := List.nodup_cons.mp hids
    rcases List.mem_cons.mp hmem with rfl | hmem
    · have hothers : rest.filter (·.id = some result.callId) = [] := by
        rw [List.filter_eq_nil_iff]
        intro other hother hid
        exact hnew (List.mem_map.mpr ⟨other, hother, of_decide_eq_true hid⟩)
      rw [List.filter_cons_of_pos (by simp), hothers]
      rfl
    · have hother : call.id ≠ some result.callId := by
        intro hid
        exact hnew (List.mem_map.mpr ⟨_, hmem, hid.symm⟩)
      rw [List.filter_cons_of_neg (by simpa using hother)]
      exact ih hids hmem

theorem checkResults_ok {openCalls left : List (Text × Text)} {results : List ToolResultPart}
    (h : checkResults openCalls results = .ok left) :
    (results.map (·.callId)).Nodup ∧
      (∀ result ∈ results, dictGet openCalls result.callId = some result.name) ∧
      ∀ id, dictGet left id =
        if id ∈ results.map (·.callId) then none else dictGet openCalls id := by
  induction results generalizing openCalls with
  | nil =>
    obtain rfl := Except.ok.inj h
    exact ⟨List.nodup_nil, fun _ hmem => absurd hmem List.not_mem_nil, fun _ => rfl⟩
  | cons result rest ih =>
    rw [checkResults] at h
    split at h
    · exact absurd h error_ne_ok
    · next called hcalled =>
      split at h
      · exact absurd h error_ne_ok
      · next hname =>
        obtain ⟨hnodup, heach, hleft⟩ := ih h
        have hname : called = result.name := not_not.mp hname
        have hothers : ∀ other ∈ rest, other.callId ≠ result.callId := by
          intro other hother hid
          have hfound := heach other hother
          rw [dictGet_dictErase, if_pos hid] at hfound
          exact absurd hfound.symm (Option.some_ne_none _)
        refine ⟨List.nodup_cons.mpr ⟨?_, hnodup⟩, List.forall_mem_cons.mpr ⟨?_, ?_⟩, ?_⟩
        · intro hmem
          obtain ⟨other, hother, hid⟩ := List.mem_map.mp hmem
          exact hothers other hother hid
        · rw [hcalled, hname]
        · intro other hother
          have hfound := heach other hother
          rwa [dictGet_dictErase, if_neg (hothers other hother)] at hfound
        · intro id
          rw [hleft, dictGet_dictErase, List.map_cons]
          by_cases hid : id = result.callId
          · rw [if_pos hid, if_pos (List.mem_cons.mpr (.inl hid)), ite_self]
          · rw [if_neg hid]
            simp only [List.mem_cons, hid, false_or]

/-- The names of a turn's calls are those of its calls. -/
theorem mem_of_namesById {calls : List ToolCallPart} {id name : Text}
    (h : dictGet (namesById calls) id = some name) :
    ∃ call ∈ calls, call.id = id ∧ call.name = name := by
  have hfrom : ∀ names : List (Text × Text),
      dictGet (calls.foldl (fun names call => dictSet names call.id call.name) names) id
          = some name →
        (∃ call ∈ calls, call.id = id ∧ call.name = name) ∨ dictGet names id = some name := by
    clear h
    induction calls with
    | nil => exact fun names h => .inr h
    | cons call rest ih =>
      intro names h
      rcases ih _ h with ⟨other, hother, hsame⟩ | hbefore
      · exact .inl ⟨other, List.mem_cons_of_mem _ hother, hsame⟩
      · rw [dictGet_dictSet] at hbefore
        split_ifs at hbefore with hid
        · exact .inl ⟨call, List.mem_cons_self, hid.symm, Option.some.inj hbefore⟩
        · exact .inr hbefore
  rcases hfrom [] h with hfound | hnone
  · exact hfound
  · exact absurd hnone.symm (Option.some_ne_none _)

/-- No result stands in a model's turn. -/
def Sorted (messages : List CanonicalMessage) : Prop :=
  ∀ message ∈ messages, message.role = .model → message.toolResults = []

/-- **What is checked, is found.** The first round is answered by what is open. -/
theorem checkResultsAnswerCalls_ok {openCalls : List (Text × Text)} {calls : List Called}
    {messages : List CanonicalMessage} (hsorted : Sorted messages)
    (h : checkResultsAnswerCalls openCalls messages = .ok ()) :
    (((roundsFrom calls (messages.map spokenOf)).1.results.map (·.callId)).Nodup ∧
        ∀ result ∈ (roundsFrom calls (messages.map spokenOf)).1.results,
          dictGet openCalls result.callId = some result.name) ∧
      ∀ round ∈ (roundsFrom calls (messages.map spokenOf)).2, round.Found := by
  induction messages generalizing openCalls calls with
  | nil =>
    exact ⟨⟨List.nodup_nil, fun _ hmem => absurd hmem List.not_mem_nil⟩,
      fun _ hmem => absurd hmem List.not_mem_nil⟩
  | cons message rest ih =>
    rw [Sorted, List.forall_mem_cons] at hsorted
    rw [checkResultsAnswerCalls] at h
    rw [List.map_cons, roundsFrom]
    by_cases hrole : message.role = .model
    · rw [if_pos hrole] at h
      have hmodel : (spokenOf message).model = true := decide_eq_true hrole
      rw [if_pos hmodel]
      obtain ⟨⟨honce, heach⟩, hrest⟩ := @ih _ (spokenOf message).calls hsorted.2 h
      have hnone : (spokenOf message).results = [] := by
        rw [spokenOf, hsorted.1 hrole]
        rfl
      rw [hnone]
      refine ⟨⟨List.nodup_nil, fun _ hmem => absurd hmem List.not_mem_nil⟩, ?_⟩
      refine List.forall_mem_cons.mpr ⟨⟨honce, fun result hresult => ?_⟩, hrest⟩
      obtain ⟨call, hcall, hid, hname⟩ := mem_of_namesById (heach result hresult)
      rw [calls_roundsFrom]
      exact List.mem_map.mpr ⟨call, hcall, by rw [hid, hname]⟩
    · rw [if_neg hrole] at h
      obtain ⟨left, hleft, h⟩ := bind_eq_ok_iff.mp h
      have hmodel : ¬(spokenOf message).model = true := by simpa [spokenOf] using hrole
      rw [if_neg hmodel]
      obtain ⟨hnodup, heach, hopen⟩ := checkResults_ok hleft
      obtain ⟨⟨honce, hothers⟩, hrest⟩ := @ih left calls hsorted.2 h
      have hids : (spokenOf message).results.map (·.callId)
          = message.toolResults.map (·.callId) := by
        rw [spokenOf, List.map_map]
        rfl
      -- a later result finds its call open, so it is for none that is answered here
      have hlater : ∀ result ∈ (roundsFrom calls (rest.map spokenOf)).1.results,
          result.callId ∉ message.toolResults.map (·.callId) ∧
            dictGet openCalls result.callId = some result.name := by
        intro result hresult
        have hfound := hothers result hresult
        rw [hopen] at hfound
        split_ifs at hfound with hmem
        exact ⟨hmem, hfound⟩
      refine ⟨⟨?_, fun result hresult => ?_⟩, hrest⟩
      · rw [List.map_append, List.nodup_append, hids]
        refine ⟨hnodup, honce, fun id hid other hother hsame => ?_⟩
        obtain ⟨result, hresult, rfl⟩ := List.mem_map.mp hother
        rw [hsame] at hid
        exact (hlater result hresult).1 hid
      · rcases List.mem_append.mp hresult with hresult | hresult
        · obtain ⟨sent, hsent, rfl⟩ := List.mem_map.mp hresult
          exact heach sent hsent
        · exact (hlater result hresult).2

/-- A conversation whose results are checked is answered round by round. -/
theorem found_of_checked {messages : List CanonicalMessage} (hsorted : Sorted messages)
    (h : checkResultsAnswerCalls [] messages = .ok ()) :
    ∀ round ∈ rounds (messages.map spokenOf), round.Found := by
  obtain ⟨⟨honce, heach⟩, hrest⟩ := @checkResultsAnswerCalls_ok _ [] _ hsorted h
  refine List.forall_mem_cons.mpr ⟨⟨honce, fun result hresult => ?_⟩, hrest⟩
  exact absurd (heach result hresult).symm (Option.some_ne_none _)

/-! ### Pairing -/

/-- Every name that is left is that of a call that is open. -/
def Open (left : List (Text × Text)) (openCalls : List ToolCallPart) : Prop :=
  ∀ id name, dictGet left id = some name → ∃ call ∈ openCalls, call.id = id

theorem pairParts_checked {left left' : List (Text × Text)} {openCalls : List ToolCallPart}
    {parts : List CanonicalPart} (hopen : Open left openCalls)
    (h : checkResults left (parts.filterMap CanonicalPart.toolResult?) = .ok left') :
    (pairParts openCalls parts).1 = parts ∧ Open left' (pairParts openCalls parts).2 := by
  induction parts generalizing left openCalls with
  | nil =>
    obtain rfl := Except.ok.inj h
    exact ⟨rfl, hopen⟩
  | cons part rest ih =>
    cases part with
    | toolResult result =>
      change checkResults left (result :: rest.filterMap CanonicalPart.toolResult?) = _ at h
      rw [checkResults] at h
      split at h
      · exact absurd h error_ne_ok
      · next called hcalled =>
        split at h
        · exact absurd h error_ne_ok
        · obtain ⟨call, hcall, hid⟩ := hopen _ _ hcalled
          have hfound : (openCalls.find? (·.id = result.callId)).isSome := by
            rw [List.find?_isSome]
            exact ⟨call, hcall, by simpa using hid⟩
          obtain ⟨answered, hanswered⟩ := Option.isSome_iff_exists.mp hfound
          have hsame : answered.id = result.callId := by
            simpa using List.find?_some hanswered
          have hpair : pairPart openCalls (.toolResult result) =
              (.toolResult result, openCalls.erase answered) := by
            rw [pairPart, hanswered]
          have hstill : Open (dictErase left result.callId) (openCalls.erase answered) := by
            intro id name hname
            rw [dictGet_dictErase] at hname
            split_ifs at hname with hother
            obtain ⟨other, hmem, hotherId⟩ := hopen id name hname
            refine ⟨other, (List.mem_erase_of_ne ?_).mpr hmem, hotherId⟩
            rintro rfl
            exact hother (hotherId.symm.trans hsame)
          obtain ⟨hparts, hleft⟩ := ih hstill h
          simp only [pairParts, hpair, hparts]
          exact ⟨trivial, hleft⟩
    | text | data | toolCall =>
      obtain ⟨hparts, hleft⟩ := ih hopen h
      simp only [pairParts, pairPart, hparts]
      exact ⟨trivial, hleft⟩

theorem pairMessages_checked {left : List (Text × Text)} {openCalls : List ToolCallPart}
    {messages : List CanonicalMessage} (hopen : Open left openCalls)
    (h : checkResultsAnswerCalls left messages = .ok ()) :
    pairMessages openCalls messages = messages := by
  induction messages generalizing left openCalls with
  | nil => rfl
  | cons message rest ih =>
    rw [checkResultsAnswerCalls] at h
    rw [pairMessages]
    by_cases hrole : message.role = .model
    · rw [if_pos hrole] at h ⊢
      refine congrArg (message :: ·) (ih (fun id name hname => ?_) h)
      obtain ⟨call, hcall, hid, -⟩ := mem_of_namesById hname
      exact ⟨call, hcall, hid⟩
    · rw [if_neg hrole] at h ⊢
      obtain ⟨left', hleft, h⟩ := bind_eq_ok_iff.mp h
      obtain ⟨hparts, hopen'⟩ := pairParts_checked hopen hleft
      have hrest := ih hopen' h
      simp only [hparts, hrest]

/-- A conversation whose results are checked is paired as it is. -/
theorem paired_of_checked {messages : List CanonicalMessage}
    (h : checkResultsAnswerCalls [] messages = .ok ()) : pairedToolResults messages = messages :=
  pairMessages_checked (fun _ _ hname => absurd hname.symm (Option.some_ne_none _)) h

/-! ### The conversation as it is sent -/

/-- No id that is made up is that of another call, or one that the request names. -/
structure MadeFresh (S : Services) (parts : List RawPart) : Prop where
  apart : ∀ turn place turn' place', madeId S turn place = madeId S turn' place' →
    turn = turn' ∧ place = place'
  calls : ∀ part ∈ parts, ∀ turn place, givenId part ≠ some (madeId S turn place)
  results : ∀ part ∈ parts, ∀ turn place, textAt part "call_id" ≠ madeId S turn place

/-- A call as it is sent and as it arrives: one without an id gets one that is made up. -/
structure CallEchoes (S : Services) (sent said : Called) : Prop where
  name : said.name = sent.name
  id : said.id = sent.id ∨ sent.id = none ∧ ∃ turn place, said.id = some (madeId S turn place)

structure Echoes (S : Services) (sent said : Spoken) : Prop where
  model : said.model = sent.model
  calls : List.Forall₂ (CallEchoes S) sent.calls said.calls
  results : said.results = sent.results

structure RoundEchoes (S : Services) (sent said : Round) : Prop where
  calls : List.Forall₂ (CallEchoes S) sent.calls said.calls
  results : said.results = sent.results

theorem roundsFrom_echoes {S : Services} {calls calls' : List Called} {sent said : List Spoken}
    (hcalls : List.Forall₂ (CallEchoes S) calls calls') (h : List.Forall₂ (Echoes S) sent said) :
    RoundEchoes S (roundsFrom calls sent).1 (roundsFrom calls' said).1 ∧
      List.Forall₂ (RoundEchoes S) (roundsFrom calls sent).2 (roundsFrom calls' said).2 := by
  induction h generalizing calls calls' with
  | nil => exact ⟨⟨hcalls, rfl⟩, .nil⟩
  | @cons turn turn' rest rest' hturn _ ih =>
    rw [roundsFrom, roundsFrom, hturn.model]
    split_ifs
    · obtain ⟨hfirst, hrest⟩ := ih hturn.calls
      exact ⟨⟨hcalls, hturn.results⟩, .cons hfirst hrest⟩
    · obtain ⟨hfirst, hrest⟩ := ih hcalls
      refine ⟨⟨hcalls, ?_⟩, hrest⟩
      rw [hturn.results, hfirst.results]

/-- A result that names no made-up id is for the same calls as it is sent. -/
theorem names_echo {S : Services} {sent said : List Called} {id : Text}
    (h : List.Forall₂ (CallEchoes S) sent said) (hfresh : ∀ turn place, id ≠ madeId S turn place) :
    (said.filter (·.id = some id)).map (·.name) = (sent.filter (·.id = some id)).map (·.name) := by
  induction h with
  | nil => rfl
  | @cons call call' rest rest' hcall _ ih =>
    have hsame : call'.id = some id ↔ call.id = some id := by
      rcases hcall.id with hid | ⟨hnone, turn, place, hmade⟩
      · rw [hid]
      · rw [hnone, hmade, Option.some.injEq]
        exact iff_of_false (hfresh turn place).symm (Option.some_ne_none _).symm
    rw [List.filter_cons, List.filter_cons]
    simp only [hsame]
    split_ifs
    · rw [List.map_cons, List.map_cons, ih, hcall.name]
    · exact ih

theorem RoundEchoes.answered {S : Services} {sent said : Round} (h : RoundEchoes S sent said)
    (hfresh : ∀ result ∈ sent.results, ∀ turn place, result.callId ≠ madeId S turn place)
    (hanswered : said.Answered) : sent.Answered := by
  obtain ⟨honce, heach⟩ := hanswered
  rw [h.results] at honce heach
  refine ⟨honce, fun result hresult => ?_⟩
  rw [← names_echo h.calls (hfresh result hresult)]
  exact heach result hresult

/-- The echo of a conversation has the echoes of its rounds. -/
theorem rounds_echo {S : Services} {sent said : List Spoken}
    (h : List.Forall₂ (Echoes S) sent said) :
    List.Forall₂ (RoundEchoes S) (rounds sent) (rounds said) := by
  obtain ⟨hfirst, hrest⟩ := @roundsFrom_echoes S [] [] _ _ .nil h
  exact .cons hfirst hrest

/-- A round that is answered as it arrives was answered as it was sent. -/
theorem answered_of_echo {S : Services} {sent said : List Round}
    (h : List.Forall₂ (RoundEchoes S) sent said)
    (hfresh : ∀ result ∈ sent.flatMap (·.results), ∀ turn place,
      result.callId ≠ madeId S turn place)
    (hanswered : ∀ round ∈ said, round.Answered) : ∀ round ∈ sent, round.Answered := by
  induction h with
  | nil => exact fun _ hmem => absurd hmem List.not_mem_nil
  | @cons round round' rest rest' hround _ ih =>
    rw [List.forall_mem_cons] at hanswered ⊢
    rw [List.flatMap_cons] at hfresh
    refine ⟨hround.answered ?_ hanswered.1, ih ?_ hanswered.2⟩
    · exact fun result hresult => hfresh result (List.mem_append_left _ hresult)
    · exact fun result hresult => hfresh result (List.mem_append_right _ hresult)

/-! ### What a turn says -/

theorem calls_echo {S : Services} {turn place : ℕ} {sent checked : List RawPart}
    (h : List.Forall₂ Checked sent checked) :
    List.Forall₂ (CallEchoes S)
      ((sent.filter fun part => sentKind part = some .call).map calledOf)
      (((sitesOf turn place checked).map (callAt S)).map
        fun call => ⟨some call.id, call.name⟩) := by
  induction h generalizing place with
  | nil => exact .nil
  | @cons part checked sent rest hpart _ ih =>
    rw [sitesOf, List.filter_cons, hpart.kind]
    by_cases hkind : sentKind part = some .call
    · rw [if_pos (decide_eq_true hkind), if_pos hkind]
      refine .cons ⟨hpart.textAt_eq (by decide), ?_⟩ ih
      have htyped := hpart.typed
      rw [hkind] at htyped
      have hid : (callAt S ⟨checked, turn, place⟩).id
          = (givenId part).getD (madeId S turn place) := by
        rw [← orText_givenId htyped, ← hpart.givenId_eq]
        rfl
      change some (callAt S ⟨checked, turn, place⟩).id = givenId part ∨ _
      rw [hid]
      cases hgiven : givenId part with
      | none =>
        refine .inr ⟨hgiven, turn, place, ?_⟩
        change some (callAt S ⟨checked, turn, place⟩).id = _
        rw [hid, hgiven, Option.getD_none]
      | some id => exact .inl rfl
    · rw [if_neg (by simpa using hkind), if_neg hkind]
      exact ih

theorem results_echo {sent checked : List RawPart} (h : List.Forall₂ Checked sent checked) :
    (resultsOf checked).map (fun result => (⟨result.callId, result.name⟩ : Told)) =
      (sent.filter fun part => sentKind part = some .result).map toldOf := by
  induction h with
  | nil => rfl
  | @cons part checked sent rest hpart _ ih =>
    rw [resultsOf] at ih ⊢
    rw [List.filter_cons, List.filter_cons, hpart.kind]
    split_ifs
    · rw [List.map_cons, List.map_cons, List.map_cons, ih, toldOf, toolResultPart,
        hpart.textAt_eq (by decide), hpart.textAt_eq (by decide)]
    · exact ih

/-- **What the turns of a request say**, their messages say. -/
theorem messagesOf_echoes {S : Services} {turn counted : ℕ} {sent checked : List RequestTurn}
    {messages : List CanonicalMessage} (haccepted : List.Forall₂ Accepted sent checked)
    (h : messagesOf S turn counted checked = .ok messages) :
    List.Forall₂ (Echoes S) (sent.map RequestTurn.spoken) (messages.map spokenOf) ∧
      Sorted messages := by
  induction haccepted generalizing turn counted messages with
  | nil =>
    obtain rfl := Except.ok.inj h
    exact ⟨.nil, fun _ hmem => absurd hmem List.not_mem_nil⟩
  | @cons said checked sent rest hturn _ ih =>
    obtain ⟨parts, hparts, h⟩ := bind_eq_ok_iff.mp h
    obtain ⟨others, hothers, h⟩ := bind_eq_ok_iff.mp h
    obtain rfl := Except.ok.inj h
    obtain ⟨hechoes, hsorted⟩ := ih hothers
    obtain ⟨hcalls, hresults⟩ := partsOf_calls hparts
    refine ⟨.cons ⟨?_, ?_, ?_⟩ hechoes, List.forall_mem_cons.mpr ⟨fun hmodel => ?_, hsorted⟩⟩
    · rw [spokenOf, RequestTurn.spoken, hturn.role]
    · rw [spokenOf, CanonicalMessage.toolCalls, hcalls]
      exact calls_echo hturn.parts
    · rw [spokenOf, CanonicalMessage.toolResults, hresults]
      exact results_echo hturn.parts
    · rw [CanonicalMessage.toolResults, hresults]
      have huser : checked.role ≠ .user := by
        have hmodel : checked.role = .model := hmodel
        rw [hmodel]
        decide
      exact resultsOf_of_kinds (hturn.results huser)

/-! ### Ids of their own -/

theorem nodup_filled {α : Type} {l : List α} {named : α → Option Text} {made : α → Text}
    (hnamed : (l.filterMap named).Nodup) (hmade : (l.map made).Nodup)
    (hfresh : ∀ a ∈ l, ∀ b ∈ l, named a ≠ some (made b)) :
    (l.map fun a => (named a).getD (made a)).Nodup := by
  induction l with
  | nil => exact List.nodup_nil
  | cons a rest ih =>
    obtain ⟨hnew, hmade⟩ := List.nodup_cons.mp hmade
    have hrest : ∀ b ∈ rest, ∀ c ∈ rest, named b ≠ some (made c) := fun b hb c hc =>
      hfresh b (List.mem_cons_of_mem _ hb) c (List.mem_cons_of_mem _ hc)
    rw [List.map_cons, List.nodup_cons]
    cases hid : named a with
    | none =>
      rw [List.filterMap_cons_none hid] at hnamed
      refine ⟨fun hmem => ?_, ih hnamed hmade hrest⟩
      obtain ⟨b, hb, hsame⟩ := List.mem_map.mp hmem
      cases hother : named b with
      | none =>
        rw [hother] at hsame
        exact hnew (List.mem_map.mpr ⟨b, hb, hsame⟩)
      | some id =>
        rw [hother] at hsame
        refine hfresh b (List.mem_cons_of_mem _ hb) a List.mem_cons_self ?_
        rw [hother]
        exact congrArg some hsame
    | some id =>
      rw [List.filterMap_cons_some hid] at hnamed
      obtain ⟨hother, hnamed⟩ := List.nodup_cons.mp hnamed
      refine ⟨fun hmem => ?_, ih hnamed hmade hrest⟩
      obtain ⟨b, hb, hsame⟩ := List.mem_map.mp hmem
      cases hb' : named b with
      | none =>
        rw [hb'] at hsame
        refine hfresh a List.mem_cons_self b (List.mem_cons_of_mem _ hb) ?_
        rw [hid]
        exact congrArg some hsame.symm
      | some id' =>
        rw [hb'] at hsame
        have hsame : id' = id := hsame
        exact hother (List.mem_filterMap.mpr ⟨b, hb, by rw [hb', hsame]⟩)

/-- The numbers of a call's made-up id. -/
def CallSite.numbers (site : CallSite) : ℕ × ℕ := (site.turn, site.place)

theorem mem_sitesOf {turn place : ℕ} {parts : List RawPart} {site : CallSite}
    (h : site ∈ sitesOf turn place parts) :
    site.turn = turn ∧ place ≤ site.place ∧ site.part ∈ parts ∧
      kindOf site.part = some .call := by
  induction parts generalizing place with
  | nil => exact absurd h List.not_mem_nil
  | cons part rest ih =>
    have hlater : site ∈ sitesOf turn (place + 1) rest → site.turn = turn ∧ place ≤ site.place ∧
        site.part ∈ part :: rest ∧ kindOf site.part = some .call := by
      intro h
      obtain ⟨hturn, hplace, hmem, hkind⟩ := ih h
      exact ⟨hturn, by omega, List.mem_cons_of_mem _ hmem, hkind⟩
    rw [sitesOf] at h
    split_ifs at h with hkind
    · rcases List.mem_cons.mp h with rfl | h
      · exact ⟨rfl, le_refl _, List.mem_cons_self, hkind⟩
      · exact hlater h
    · exact hlater h

theorem nodup_sitesOf (turn place : ℕ) (parts : List RawPart) :
    ((sitesOf turn place parts).map CallSite.numbers).Nodup := by
  induction parts generalizing place with
  | nil => exact List.nodup_nil
  | cons part rest ih =>
    rw [sitesOf]
    split_ifs
    · rw [List.map_cons, List.nodup_cons]
      refine ⟨fun hmem => ?_, ih (place + 1)⟩
      obtain ⟨site, hsite, hsame⟩ := List.mem_map.mp hmem
      have hplace : site.place = place := congrArg Prod.snd hsame
      have hlater := (mem_sitesOf hsite).2.1
      omega
    · exact ih (place + 1)

theorem mem_callSites {turn : ℕ} {turns : List RequestTurn} {site : CallSite}
    (h : site ∈ callSites turn turns) :
    turn ≤ site.turn ∧ site.part ∈ turns.flatMap (·.content.parts) ∧
      kindOf site.part = some .call := by
  induction turns generalizing turn with
  | nil => exact absurd h List.not_mem_nil
  | cons said rest ih =>
    rw [List.flatMap_cons]
    rcases List.mem_append.mp h with h | h
    · obtain ⟨hturn, -, hmem, hkind⟩ := mem_sitesOf h
      exact ⟨hturn.ge, List.mem_append_left _ hmem, hkind⟩
    · obtain ⟨hturn, hmem, hkind⟩ := ih h
      exact ⟨by omega, List.mem_append_right _ hmem, hkind⟩

theorem nodup_callSites (turn : ℕ) (turns : List RequestTurn) :
    ((callSites turn turns).map CallSite.numbers).Nodup := by
  induction turns generalizing turn with
  | nil => exact List.nodup_nil
  | cons said rest ih =>
    rw [callSites, List.map_append, List.nodup_append]
    refine ⟨nodup_sitesOf _ _ _, ih (turn + 1), fun numbers hmem numbers' hmem' hsame => ?_⟩
    obtain ⟨site, hsite, rfl⟩ := List.mem_map.mp hmem
    obtain ⟨site', hsite', rfl⟩ := List.mem_map.mp hmem'
    have hturn := (mem_sitesOf hsite).1
    have hturn' := (mem_callSites hsite').1
    have hsame : site.turn = site'.turn := congrArg Prod.fst hsame
    omega

theorem givenIds_sitesOf (turn place : ℕ) (parts : List RawPart) :
    (sitesOf turn place parts).filterMap (fun site => givenId site.part) = givenIds parts := by
  induction parts generalizing place with
  | nil => rfl
  | cons part rest ih =>
    rw [sitesOf, givenIds, List.filter_cons]
    by_cases hkind : kindOf part = some .call
    · rw [if_pos hkind, if_pos (decide_eq_true hkind), List.filterMap_cons, List.filterMap_cons, ih]
      rfl
    · rw [if_neg hkind, if_neg (by simpa using hkind), ih]
      rfl

theorem givenIds_append (parts more : List RawPart) :
    givenIds (parts ++ more) = givenIds parts ++ givenIds more := by
  rw [givenIds, List.filter_append, List.filterMap_append]
  rfl

theorem givenIds_callSites (turn : ℕ) (turns : List RequestTurn) :
    (callSites turn turns).filterMap (fun site => givenId site.part) =
      givenIds (turns.flatMap (·.content.parts)) := by
  induction turns generalizing turn with
  | nil => rfl
  | cons said rest ih =>
    rw [callSites, List.filterMap_append, givenIds_sitesOf, ih, List.flatMap_cons, givenIds_append]

theorem parts_checked {sent checked : List RequestTurn} (h : List.Forall₂ Accepted sent checked) :
    List.Forall₂ Checked (sent.flatMap (·.content.parts)) (checked.flatMap (·.content.parts)) := by
  induction h with
  | nil => exact .nil
  | cons hturn _ ih => exact List.rel_append hturn.parts ih

/-- What is related to something stands on the right for something on the left. -/
theorem exists_of_mem_right {α β : Type} {R : α → β → Prop} {l : List α} {l' : List β} {b : β}
    (h : List.Forall₂ R l l') (hmem : b ∈ l') : ∃ a ∈ l, R a b := by
  induction h with
  | nil => exact absurd hmem List.not_mem_nil
  | @cons a b' _ _ hab _ ih =>
    rcases List.mem_cons.mp hmem with rfl | hmem
    · exact ⟨a, List.mem_cons_self, hab⟩
    · obtain ⟨a', ha', hab'⟩ := ih hmem
      exact ⟨a', List.mem_cons_of_mem _ ha', hab'⟩

/-- **The calls of a conversation have ids of their own**: those they were given, or made up. -/
theorem nodup_callIds {S : Services} {turn : ℕ} {sent checked : List RequestTurn}
    (haccepted : List.Forall₂ Accepted sent checked)
    (hfresh : MadeFresh S (sent.flatMap (·.content.parts)))
    (hgiven : (givenIds (checked.flatMap (·.content.parts))).Nodup) :
    (((callSites turn checked).map (callAt S)).map (·.id)).Nodup := by
  have hparts := parts_checked haccepted
  have hid : ∀ site ∈ callSites turn checked,
      (callAt S site).id = (givenId site.part).getD (madeId S site.turn site.place) := by
    intro site hsite
    obtain ⟨-, hmem, hkind⟩ := mem_callSites hsite
    obtain ⟨before, -, hchecked⟩ := exists_of_mem_right hparts hmem
    have htyped := hchecked.typed
    rw [← hchecked.kind, hkind] at htyped
    change orText (givenId site.part) _ = _
    rw [hchecked.givenId_eq, orText_givenId htyped]
  have hmap : ((callSites turn checked).map (callAt S)).map (·.id) =
      (callSites turn checked).map
        fun site => (givenId site.part).getD (madeId S site.turn site.place) := by
    rw [List.map_map]
    exact List.map_congr_left hid
  rw [hmap]
  refine nodup_filled ?_ ?_ ?_
  · rw [givenIds_callSites]
    exact hgiven
  · have hnumbers := nodup_callSites turn checked
    have hmade : (callSites turn checked).map (fun site => madeId S site.turn site.place) =
        ((callSites turn checked).map CallSite.numbers).map
          fun numbers => madeId S numbers.1 numbers.2 := by
      rw [List.map_map]
      rfl
    rw [hmade]
    refine hnumbers.map fun numbers numbers' hsame => ?_
    obtain ⟨hturn, hplace⟩ := hfresh.apart _ _ _ _ hsame
    exact Prod.ext hturn hplace
  · intro site hsite other _
    obtain ⟨before, hbefore, hchecked⟩ := exists_of_mem_right hparts (mem_callSites hsite).2.1
    rw [hchecked.givenId_eq]
    exact hfresh.calls before hbefore _ _

/-! ### A request -/

/-- The parts of a request, in the order sent. -/
def ChatRequest.parts (request : ChatRequest) : List RawPart :=
  request.turns.flatMap (·.content.parts)

/-- A conversation has arrived whole: as the messages it was sent as, every call under an id of its
own and every result for a call. -/
structure ArrivesWhole (S : Services) (request : ChatRequest) (messages : List CanonicalMessage) :
    Prop where
  ids : (messages.flatMap fun message => message.toolCalls.map (·.id)).Nodup
  answered : ∀ round ∈ rounds (messages.map spokenOf), round.Answered
  paired : pairedToolResults messages = messages
  whole : List.Forall₂ (Carried S) request.turns messages

section Request

variable {S : Services} {request checked : ChatRequest}

/-- The system's instruction carries no function part. -/
theorem kinds_system (h : List.Forall₂ Accepted request.turns checked.turns)
    {content : RequestContent} (hsystem : checked.systemInstruction = some content) :
    content.kinds = [] := by
  have hturn : (⟨.system, content⟩ : RequestTurn) ∈ checked.turns := by
    rw [ChatRequest.turns, hsystem]
    exact List.mem_append_left _ (List.mem_append_left _ (List.mem_singleton.mpr rfl))
  obtain ⟨_, -, haccepted⟩ := exists_of_mem_right h hturn
  have hcall := haccepted.calls fun hmodel => Role.noConfusion hmodel
  have hresult := haccepted.results fun huser => Role.noConfusion huser
  refine List.eq_nil_iff_forall_not_mem.mpr fun kind hkind => ?_
  cases kind with
  | call => exact hcall hkind
  | result => exact hresult hkind

theorem parts_turns (request : ChatRequest) :
    request.parts = (request.systemInstruction.map (·.parts)).getD [] ++
      request.contents.flatMap (·.parts) := by
  rw [ChatRequest.parts, ChatRequest.turns, ChatRequest.contents, List.append_assoc,
    List.flatMap_append]
  refine congrArg₂ (· ++ ·) ?_ ?_
  · cases request.systemInstruction with
    | none => rfl
    | some content => exact List.append_nil _
  · rw [List.flatMap_append, List.flatMap_append, List.flatMap_map, List.flatMap_map]
    rfl

/-- What is known of the function parts of what was said holds of those of the whole request. -/
theorem functions_of_contents (h : List.Forall₂ Accepted request.turns checked.turns) :
    givenIds checked.parts = givenIds (checked.contents.flatMap (·.parts)) ∧
      ∀ part ∈ checked.parts, kindOf part ≠ none →
        part ∈ checked.contents.flatMap (·.parts) := by
  rw [parts_turns, givenIds_append]
  have hsystem : ((checked.systemInstruction.map (·.parts)).getD []).filterMap kindOf = [] := by
    cases hcontent : checked.systemInstruction with
    | none => rfl
    | some content => exact kinds_system h hcontent
  rw [List.filterMap_eq_nil_iff] at hsystem
  constructor
  · have hnone : givenIds ((checked.systemInstruction.map (·.parts)).getD []) = [] := by
      rw [givenIds, List.filter_eq_nil_iff.mpr, List.filterMap_nil]
      intro part hpart
      rw [hsystem part hpart]
      decide
    rw [hnone, List.nil_append]
  · intro part hpart hkind
    rcases List.mem_append.mp hpart with hpart | hpart
    · exact absurd (hsystem part hpart) hkind
    · exact hpart

/-- **A request that is mapped arrives whole**, and was answered as it was sent. -/
theorem toCanonical_arrives {model : Text} {canonical : CanonicalRequest}
    (haccepted : List.Forall₂ Accepted request.turns checked.turns)
    (hfresh : MadeFresh S request.parts) (h : toCanonical S checked model = .ok canonical) :
    ArrivesWhole S request canonical.messages ∧
      ∀ round ∈ rounds (request.turns.map RequestTurn.spoken), round.Answered := by
  obtain ⟨tools, -, h⟩ := bind_eq_ok_iff.mp h
  obtain ⟨_, hchecked, h⟩ := bind_eq_ok_iff.mp h
  obtain ⟨messages, hmessages, h⟩ := bind_eq_ok_iff.mp h
  obtain ⟨_, hresults, h⟩ := bind_eq_ok_iff.mp h
  obtain ⟨thinking, -, h⟩ := bind_eq_ok_iff.mp h
  obtain ⟨schema, -, h⟩ := bind_eq_ok_iff.mp h
  obtain rfl := Except.ok.inj h
  obtain ⟨hgiven, hnamed⟩ := checkFunctionParts_ok hchecked
  obtain ⟨hids, hfunctions⟩ := functions_of_contents haccepted
  rw [← hids] at hgiven
  have hnames : ∀ said ∈ checked.turns, ∀ part ∈ said.content.parts,
      kindOf part = some .result → textAt part "name" ≠ [] := by
    intro said hsaid part hpart hkind
    have hmem : part ∈ checked.parts := List.mem_flatMap.mpr ⟨said, hsaid, hpart⟩
    refine hnamed part (hfunctions part hmem ?_) hkind
    rw [hkind]
    exact Option.some_ne_none _
  obtain ⟨hechoes, hsorted⟩ := messagesOf_echoes haccepted hmessages
  have hnodup : ((messages.flatMap (·.toolCalls)).map (·.id)).Nodup := by
    rw [messagesOf_calls hmessages]
    exact nodup_callIds haccepted hfresh hgiven
  rw [List.map_flatMap] at hnodup
  have hanswered : ∀ round ∈ rounds (messages.map spokenOf), round.Answered := by
    intro round hround
    refine (found_of_checked hsorted hresults round hround).answered ?_
    rcases List.mem_cons.mp hround with rfl | hround
    · rw [calls_roundsFrom]
      exact List.nodup_nil
    · obtain ⟨turn, hturn, hcalls⟩ := calls_of_mem_rounds hround
      obtain ⟨message, hmessage, rfl⟩ := List.mem_map.mp hturn
      have hown := (List.nodup_flatMap.mp hnodup).1 message hmessage
      have hsome : round.calls.map (·.id)
          = (message.toolCalls.map (·.id)).map some := by
        rw [hcalls, spokenOf, List.map_map, List.map_map]
        rfl
      rw [hsome]
      exact hown.map (Option.some_injective _)
  refine ⟨⟨hnodup, hanswered, paired_of_checked hresults, messagesOf_ok haccepted hnames hmessages⟩,
    answered_of_echo (rounds_echo hechoes) ?_ hanswered⟩
  rw [results_rounds]
  intro result hresult
  obtain ⟨turn, hturn, hresult⟩ := List.mem_flatMap.mp hresult
  obtain ⟨said, hsaid, rfl⟩ := List.mem_map.mp hturn
  obtain ⟨part, hpart, rfl⟩ := List.mem_map.mp hresult
  exact hfresh.results part (List.mem_flatMap.mpr ⟨said, hsaid, List.mem_of_mem_filter hpart⟩)

/-- **A KIRA conversation arrives whole.** Where no id that is made up is one the request names, a
request that is mapped has arrived whole, and one with a round that is not answered is refused. -/
theorem receive_arrives (S : Services) (request : ChatRequest) (model : Text)
    (hfresh : MadeFresh S request.parts) :
    (∀ canonical, receive S request model = .ok canonical →
        ArrivesWhole S request canonical.messages) ∧
      ((∃ round ∈ rounds (request.turns.map RequestTurn.spoken), ¬round.Answered) →
        ∃ fault, receive S request model = .error fault) := by
  have harrives : ∀ canonical, receive S request model = .ok canonical →
      ArrivesWhole S request canonical.messages ∧
        ∀ round ∈ rounds (request.turns.map RequestTurn.spoken), round.Answered := by
    intro canonical h
    obtain ⟨checked, hchecked, h⟩ := bind_eq_ok_iff.mp h
    have hvalid : validate request = .ok checked := by
      cases hvalidate : validate request with
      | error message =>
        rw [hvalidate] at hchecked
        exact absurd hchecked error_ne_ok
      | ok accepted =>
        rw [hvalidate] at hchecked
        exact congrArg _ (Except.ok.inj hchecked)
    exact toCanonical_arrives (validate_ok hvalid) hfresh h
  refine ⟨fun canonical h => (harrives canonical h).1, fun ⟨round, hround, hunanswered⟩ => ?_⟩
  cases h : receive S request model with
  | error fault => exact ⟨fault, rfl⟩
  | ok canonical => exact absurd ((harrives canonical h).2 round hround) hunanswered

end Request

/-- Services that take everything, and number made-up ids by turn and place. -/
def willing : Services where
  checkMediaType _ _ := .ok ()
  decode _ _ := .ok []
  checkSignature _ _ _ := .ok ()
  schemaFault _ := none
  parseJsonSchema parameters _ := .ok (.obj parameters)
  parseSchema members := .ok (.obj members)
  modeFrom mode := .ok mode
  str _ := "None"
  uuid turn place := List.replicate turn 'a' ++ List.replicate place 'b'

/-- A call with an id and one without, neither by its type, and a result for the first. -/
def weatherRequest : ChatRequest where
  conversationHistory := some
    [⟨⟨[[("text", .str "Is it nice out?")]]⟩, .user⟩,
      ⟨⟨[[("text", .str "Let me look.")], [("id", .str "c1"), ("name", .str "weather")],
        [("name", .str "weather")]]⟩, .model⟩]
  request := ⟨[[("call_id", .str "c1"), ("name", .str "weather"), ("result", .str "clear")],
    [("text", .str "So?")]]⟩
  tools := some [⟨"weather", "What it is like outside.", [("type", .str "object")]⟩]

theorem madeFresh_weatherRequest : MadeFresh willing weatherRequest.parts := by
  have hmade : ∀ turn place, madeId willing turn place ≠ "c1" ∧ madeId willing turn place ≠ [] := by
    intro turn place
    have hfront : ("unanswerable-" : Text) = 'u' :: "nanswerable-".toList := by decide +kernel
    have hmade : madeId willing turn place
        = 'u' :: ("nanswerable-".toList ++ willing.uuid turn place) := congrArg (· ++ _) hfront
    rw [hmade]
    exact ⟨fun h => absurd (List.cons.inj h).1 (by decide), List.cons_ne_nil _ _⟩
  refine ⟨fun turn place turn' place' h => ?_, ?_, ?_⟩
  · have hsame := List.append_cancel_left h
    have ha := congrArg (List.count 'a') hsame
    have hb := congrArg (List.count 'b') hsame
    simpa [willing, List.count_replicate] using And.intro ha hb
  · intro part hpart turn place hid
    have hids : ∀ part ∈ weatherRequest.parts, givenId part = none ∨ givenId part = some "c1" := by
      decide +kernel
    rcases hids part hpart with hnone | hsome
    · rw [hnone] at hid
      exact absurd hid.symm (Option.some_ne_none _)
    · rw [hsome] at hid
      exact (hmade turn place).1 (Option.some.inj hid).symm
  · intro part hpart turn place hid
    have hids : ∀ part ∈ weatherRequest.parts,
        textAt part "call_id" = [] ∨ textAt part "call_id" = "c1" := by
      decide +kernel
    rcases hids part hpart with hnone | hsome
    · rw [hnone] at hid
      exact (hmade turn place).2 hid.symm
    · rw [hsome] at hid
      exact (hmade turn place).1 hid.symm

theorem weatherRequest_arrives : ∃ canonical, receive willing weatherRequest "m" = .ok canonical ∧
    ArrivesWhole willing weatherRequest canonical.messages := by
  have hmapped : ∃ canonical, receive willing weatherRequest "m" = .ok canonical := by
    refine ⟨_, rfl⟩
  obtain ⟨canonical, hcanonical⟩ := hmapped
  exact ⟨canonical, hcanonical,
    (receive_arrives willing weatherRequest "m" madeFresh_weatherRequest).1 canonical hcanonical⟩

end AiraGateway.Kira
