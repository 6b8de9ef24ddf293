import AiraGateway.Pipeline.Dispatch
import Mathlib.Tactic.Tauto

/-!
# The three loops of a chain as one walk

What becomes of a candidate is decided by the candidate alone (`callFate`): a condition skips it,
its call fails, or it answers. Each loop is then the walk to the first that answers
(`firstAnswer`), and what it noted is read off the candidates passed over (`Walk.passOverAll`).

* `dispatchLoop_eq`, `answerLoop_eq`, `streamLoop_eq`: the three loops differ in what they make of
  the walk's end alone.
* `reportsEach_passOverAll`: what the walk noted names each candidate passed over once.
-/

namespace AiraGateway

/-! ### What a chain notes -/

/-- Why a candidate was passed over: a condition on the way, or what its call met. -/
inductive Passing
  | condition (reason : Text)
  | call (failure : Failure)

namespace Passing

/-- How it is reported where it was not an outage. -/
def skipped? : Passing → Option Text
  | condition reason => some reason
  | call (.upstream _) => none
  | call (.unaddressable e) => some e.str
  | call (.dialect e) => some e.message

/-- The outage it was. -/
def outage? : Passing → Option UpstreamError
  | call (.upstream e) => some e
  | _ => none

def isCall : Passing → Bool
  | condition _ => false
  | call _ => true

/-- It is either reported as skipped or an outage. -/
theorem isSome_outage? (why : Passing) : why.outage?.isSome = !why.skipped?.isSome := by
  cases why with
  | condition reason => rfl
  | call failure => cases failure <;> rfl

end Passing

/-- What a chain notes of one candidate it passes over. The chain for vectors or a ranking keeps
the addressing faults as well. -/
def Walk.passOver (keeps : Bool) (w : Walk) : Text × Passing → Walk
  | (name, .condition reason) => w.skip name reason
  | (name, .call (.upstream e)) => (w.call name).attempted name e
  | (name, .call (.unaddressable e)) =>
    { w.call name with
      unaddressable := if keeps then w.unaddressable ++ [e] else w.unaddressable }.skip name e.str
  | (name, .call (.dialect e)) =>
    { w.call name with unsayable := w.unsayable ++ [e] }.skip name e.message

def Walk.passOverAll (keeps : Bool) (w : Walk) (passed : List (Text × Passing)) : Walk :=
  passed.foldl (Walk.passOver keeps) w

section Noted

variable {keeps : Bool} {w : Walk} {passed : List (Text × Passing)}

@[simp]
theorem Walk.passOverAll_nil : w.passOverAll keeps [] = w := rfl

@[simp]
theorem Walk.passOverAll_cons {p : Text × Passing} :
    w.passOverAll keeps (p :: passed) = (w.passOver keeps p).passOverAll keeps passed := rfl

private def skippedOf (p : Text × Passing) : Option Skipped :=
  p.2.skipped?.map fun reason => { model := p.1, reason }

private def attemptedOf (p : Text × Passing) : Option Attempted :=
  p.2.outage?.map fun e => { model := p.1, reason := e.why }

/-- What one candidate adds to each list. -/
private theorem passOver_lists (p : Text × Passing) :
    (w.passOver keeps p).skipped = w.skipped ++ (skippedOf p).toList ∧
    (w.passOver keeps p).failed = w.failed ++ (attemptedOf p).toList ∧
    (w.passOver keeps p).called = w.called ++ if p.2.isCall then [p.1] else [] := by
  obtain ⟨name, why⟩ := p
  cases why with
  | condition reason => exact ⟨rfl, (List.append_nil _).symm, (List.append_nil _).symm⟩
  | call failure =>
    cases failure with
    | upstream e => exact ⟨(List.append_nil _).symm, rfl, rfl⟩
    | unaddressable e => exact ⟨rfl, (List.append_nil _).symm, rfl⟩
    | dialect e => exact ⟨rfl, (List.append_nil _).symm, rfl⟩

private theorem passOver_lastError (p : Text × Passing) :
    (w.passOver keeps p).lastError = p.2.outage?.or w.lastError := by
  obtain ⟨name, why⟩ := p
  cases why with
  | condition reason => rfl
  | call failure => cases failure <;> rfl

theorem passOverAll_skipped :
    (w.passOverAll keeps passed).skipped = w.skipped ++ passed.filterMap skippedOf := by
  induction passed generalizing w with
  | nil => simp
  | cons p passed ih =>
    rw [Walk.passOverAll_cons, ih, (passOver_lists p).1, List.append_assoc, List.filterMap_cons]
    cases skippedOf p <;> rfl

theorem passOverAll_failed :
    (w.passOverAll keeps passed).failed = w.failed ++ passed.filterMap attemptedOf := by
  induction passed generalizing w with
  | nil => simp
  | cons p passed ih =>
    rw [Walk.passOverAll_cons, ih, (passOver_lists p).2.1, List.append_assoc,
      List.filterMap_cons]
    cases attemptedOf p <;> rfl

theorem passOverAll_called (keeps : Bool) (w : Walk) (passed : List (Text × Passing)) :
    (w.passOverAll keeps passed).called =
      w.called ++ (passed.filter (·.2.isCall)).map (·.1) := by
  induction passed generalizing w with
  | nil => simp
  | cons p passed ih =>
    rw [Walk.passOverAll_cons, ih, (passOver_lists p).2.2, List.append_assoc, List.filter_cons]
    cases p.2.isCall <;> rfl

/-- An outage was noted exactly when a candidate passed over was one. -/
theorem passOverAll_lastError :
    (w.passOverAll keeps passed).lastError.isSome = true ↔
      w.lastError.isSome = true ∨ ∃ p ∈ passed, p.2.outage?.isSome = true := by
  induction passed generalizing w with
  | nil => simp
  | cons p passed ih =>
    rw [Walk.passOverAll_cons, ih, passOver_lastError, Option.isSome_or, Bool.or_eq_true,
      List.exists_mem_cons_iff]
    tauto

private theorem map_model_skippedOf :
    (passed.filterMap skippedOf).map (·.model) =
      (passed.filter (·.2.skipped?.isSome)).map (·.1) := by
  induction passed with
  | nil => rfl
  | cons p passed ih =>
    rw [List.filterMap_cons, List.filter_cons, skippedOf]
    cases p.2.skipped? with
    | none => simpa using ih
    | some reason => simpa using ih

private theorem map_model_attemptedOf :
    (passed.filterMap attemptedOf).map (·.model) =
      (passed.filter (fun p => !p.2.skipped?.isSome)).map (·.1) := by
  induction passed with
  | nil => rfl
  | cons p passed ih =>
    rw [List.filterMap_cons, List.filter_cons, attemptedOf, ← Passing.isSome_outage?]
    cases p.2.outage? with
    | none => simpa using ih
    | some e => simpa using ih

end Noted

/-- The models a report names. -/
def PassedOver.models (p : PassedOver) : List Text :=
  p.skipped.map (·.model) ++ p.failed.map (·.model)

/-- A report that names each of some candidates once, and in order within each list. -/
structure ReportsEach (names : List Text) (p : PassedOver) : Prop where
  each : p.models.Perm names
  skipped : (p.skipped.map (·.model)).Sublist names
  failed : (p.failed.map (·.model)).Sublist names

/-- **Every candidate passed over is reported once.** -/
theorem reportsEach_passOverAll (keeps : Bool) (passed : List (Text × Passing)) :
    ReportsEach (passed.map (·.1))
      { skipped := (({} : Walk).passOverAll keeps passed).skipped
        failed := (({} : Walk).passOverAll keeps passed).failed } := by
  have hskipped : (({} : Walk).passOverAll keeps passed).skipped.map (·.model) =
      (passed.filter (·.2.skipped?.isSome)).map (·.1) := by
    rw [passOverAll_skipped, List.nil_append, map_model_skippedOf]
  have hfailed : (({} : Walk).passOverAll keeps passed).failed.map (·.model) =
      (passed.filter (fun p => !p.2.skipped?.isSome)).map (·.1) := by
    rw [passOverAll_failed, List.nil_append, map_model_attemptedOf]
  refine ⟨?_, ?_, ?_⟩
  · rw [PassedOver.models, hskipped, hfailed, ← List.map_append]
    exact (List.filter_append_perm _ passed).map _
  · rw [hskipped]
    exact List.filter_sublist.map _
  · rw [hfailed]
    exact List.filter_sublist.map _

/-! ### The loops as one walk -/

section Walks

variable {P R T : Type} [Addressed R]
variable (registry : ProviderRegistry P) (request : R) (conditions : Conditions R)

/-- What becomes of one candidate, given what its call meets. -/
def callFate (outcome : ℕ → P → R → Except Failure T) (k : ℕ) (name : Text) :
    Except Passing T :=
  match candidate registry request conditions name with
  | .error reason => .error (.condition reason)
  | .ok (provider, addressed) =>
    match outcome k provider addressed with
    | .error failure => .error (.call failure)
    | .ok value => .ok value

/-- How the chain for a finished answer ends. -/
def Walk.dispatched (w : Walk) : Option (ℕ × Text × T) → Ran Empty (Dispatched T)
  | none => { called := w.called, result := .error (dispatchExhausted w) }
  | some (k, name, response) =>
    { called := (w.call name).called
      result := .ok { response, candidateIndex := k, skipped := w.skipped, failed := w.failed } }

/-- How the chain for vectors or a ranking ends. -/
def Walk.answered (w : Walk) : Option (ℕ × Text × T) → Ran Empty (Answered T)
  | none => { called := w.called, result := .error (answerExhausted w) }
  | some (k, name, value) =>
    { called := (w.call name).called
      result := .ok { value, model := name, candidateIndex := k, skipped := w.skipped
                      failed := w.failed } }

variable {registry request conditions}

theorem callFate_of_condition {outcome : ℕ → P → R → Except Failure T} {k : ℕ}
    {name reason : Text} (h : candidate registry request conditions name = .error reason) :
    callFate registry request conditions outcome k name = .error (.condition reason) := by
  rw [callFate, h]

theorem callFate_of_call (outcome : ℕ → P → R → Except Failure T) (k : ℕ) {name : Text}
    {provider : P} {addressed : R}
    (h : candidate registry request conditions name = .ok (provider, addressed)) :
    callFate registry request conditions outcome k name =
      match outcome k provider addressed with
      | .error failure => .error (.call failure)
      | .ok value => .ok value := by
  rw [callFate, h]

/-- A candidate is an outage exactly when its call failed as one. -/
theorem callFate_eq_outage {outcome : ℕ → P → R → Except Failure T} {k : ℕ} {name : Text}
    {e : UpstreamError} :
    callFate registry request conditions outcome k name = .error (.call (.upstream e)) ↔
      ∃ provider addressed, candidate registry request conditions name = .ok (provider, addressed) ∧
        outcome k provider addressed = .error (.upstream e) := by
  cases hcandidate : candidate registry request conditions name with
  | error reason => simp [callFate_of_condition hcandidate]
  | ok called =>
    obtain ⟨provider, addressed⟩ := called
    rw [callFate_of_call outcome k hcandidate]
    cases houtcome : outcome k provider addressed with
    | error failure =>
      simp only [Except.error.injEq, Passing.call.injEq, Except.ok.injEq, Prod.mk.injEq]
      constructor
      · rintro rfl
        exact ⟨provider, addressed, ⟨rfl, rfl⟩, houtcome⟩
      · rintro ⟨_, _, ⟨rfl, rfl⟩, h⟩
        exact Except.error.inj (houtcome.symm.trans h)
    | ok value =>
      simp only [reduceCtorEq, Except.ok.injEq, Prod.mk.injEq, false_iff, not_exists, not_and]
      rintro _ _ ⟨rfl, rfl⟩ h
      cases houtcome.symm.trans h

/-- **The chain for a finished answer is the walk.** -/
theorem dispatchLoop_eq (generate : ℕ → P → R → Except Failure T) (i : ℕ) (names : List Text)
    (w : Walk) :
    dispatchLoop registry request conditions generate i names w =
      (w.passOverAll false
        (firstAnswer (callFate registry request conditions generate) i names).1).dispatched
        (firstAnswer (callFate registry request conditions generate) i names).2 := by
  induction names generalizing i w with
  | nil => rfl
  | cons name rest ih =>
    rw [dispatchLoop]
    cases hcandidate : candidate registry request conditions name with
    | error reason =>
      rw [firstAnswer_cons_error (callFate_of_condition hcandidate)]
      exact ih (i + 1) _
    | ok called =>
      obtain ⟨provider, addressed⟩ := called
      have hfate := callFate_of_call generate i hcandidate
      cases houtcome : generate i provider addressed with
      | error failure =>
        rw [houtcome] at hfate
        rw [firstAnswer_cons_error hfate]
        cases failure with
        | upstream e =>
          simp only [houtcome]
          exact ih (i + 1) _
        | unaddressable e =>
          simp only [houtcome]
          exact ih (i + 1) _
        | dialect e =>
          simp only [houtcome]
          exact ih (i + 1) _
      | ok value =>
        rw [houtcome] at hfate
        rw [firstAnswer_cons_ok hfate]
        simp only [houtcome]
        rfl

/-- **The chain for vectors or a ranking is the walk.** -/
theorem answerLoop_eq (call : ℕ → P → R → Except Failure T) (i : ℕ) (names : List Text)
    (w : Walk) :
    answerLoop registry request conditions call i names w =
      (w.passOverAll true
        (firstAnswer (callFate registry request conditions call) i names).1).answered
        (firstAnswer (callFate registry request conditions call) i names).2 := by
  induction names generalizing i w with
  | nil => rfl
  | cons name rest ih =>
    rw [answerLoop]
    cases hcandidate : candidate registry request conditions name with
    | error reason =>
      rw [firstAnswer_cons_error (callFate_of_condition hcandidate)]
      exact ih (i + 1) _
    | ok called =>
      obtain ⟨provider, addressed⟩ := called
      have hfate := callFate_of_call call i hcandidate
      cases houtcome : call i provider addressed with
      | error failure =>
        rw [houtcome] at hfate
        rw [firstAnswer_cons_error hfate]
        cases failure with
        | upstream e =>
          simp only [houtcome]
          exact ih (i + 1) _
        | unaddressable e =>
          simp only [houtcome]
          exact ih (i + 1) _
        | dialect e =>
          simp only [houtcome]
          exact ih (i + 1) _
      | ok value =>
        rw [houtcome] at hfate
        rw [firstAnswer_cons_ok hfate]
        simp only [houtcome]
        rfl

/-! ### The streamed chain as the walk -/

/-- What a stream shows when it is asked for its first chunk. -/
def Feed.opens (feed : Feed) : Except Failure Unit :=
  match feed.chunks, feed.failure with
  | [], some e => .error e
  | _, _ => .ok ()

/-- The outcome a stream shows, with what the chain keeps of a candidate that opened. -/
def opening (streamGenerate : ℕ → P → R → Feed) (k : ℕ) (provider : P) (addressed : R) :
    Except Failure (P × R × Feed) :=
  (streamGenerate k provider addressed).opens.map fun _ =>
    (provider, addressed, streamGenerate k provider addressed)

/-- The iterator handed over for a stream that opened. -/
def Feed.rejoined (feed : Feed) : Rejoined :=
  match feed.chunks with
  | [] => .nothing { feed, ended := true }
  | first :: rest => .unstarted first { feed := { feed with chunks := rest } }

/-- Where the first chunk came from. -/
def Feed.region (feed : Feed) : Text :=
  match feed.chunks with
  | [] => []
  | first :: _ => orText first.servedRegion []

/-- How the streamed chain ends. -/
def Walk.streamed (w : Walk) (streams : List (Text × Source)) :
    Option (ℕ × Text × P × R × Feed) → Ran Source (Streaming P R)
  | none =>
    { called := w.called, passedStreams := streams, result := .error (dispatchExhausted w) }
  | some (k, name, provider, addressed, feed) =>
    { called := (w.call name).called
      passedStreams := streams
      result := .ok { model := name, candidateIndex := k, chunks := feed.rejoined
                      skipped := w.skipped, failed := w.failed, provider, sent := addressed
                      region := feed.region } }

private theorem next_of_raised {feed : Feed} {e : Failure} (h : feed.opens = .error e) :
    ∃ source : Source, Source.next { feed } = (.raised e, source) := by
  obtain ⟨chunks, failure⟩ := feed
  cases chunks with
  | nil =>
    cases failure with
    | none => cases h
    | some e' =>
      obtain rfl : e' = e := Except.error.inj h
      exact ⟨_, rfl⟩
  | cons c rest => cases h

variable (registry request conditions) in
/-- **The streamed chain is the walk**, and the stream of each candidate it called and passed
over is closed. -/
theorem streamLoop_eq (streamGenerate : ℕ → P → R → Feed) (i : ℕ) (names : List Text) (w : Walk)
    (passed : List (Text × Source)) :
    ∃ streams, streamLoop registry request conditions streamGenerate i names w passed =
      (w.passOverAll false (firstAnswer
        (callFate registry request conditions (opening streamGenerate)) i names).1).streamed
        (passed ++ streams)
        (firstAnswer (callFate registry request conditions (opening streamGenerate)) i names).2 ∧
      (∀ p ∈ streams, p.2.closed = true) ∧
      streams.map (·.1) = ((firstAnswer
        (callFate registry request conditions (opening streamGenerate)) i names).1.filter
          (·.2.isCall)).map (·.1) := by
  induction names generalizing i w passed with
  | nil => exact ⟨[], by rw [List.append_nil]; rfl, fun p hp => absurd hp List.not_mem_nil, rfl⟩
  | cons name rest ih =>
    rw [streamLoop]
    cases hcandidate : candidate registry request conditions name with
    | error reason =>
      rw [firstAnswer_cons_error (callFate_of_condition hcandidate)]
      exact ih (i + 1) _ _
    | ok called =>
      obtain ⟨provider, addressed⟩ := called
      have hfate := callFate_of_call (opening streamGenerate) i hcandidate
      cases hopens : (streamGenerate i provider addressed).opens with
      | error failure =>
        have houtcome : opening streamGenerate i provider addressed = .error failure := by
          rw [opening, hopens]
          rfl
        rw [houtcome] at hfate
        rw [firstAnswer_cons_error hfate]
        obtain ⟨source, hnext⟩ := next_of_raised hopens
        -- the stream it raised from is closed before the next candidate is tried
        have hstep : ∀ w', ∃ streams, streamLoop registry request conditions streamGenerate
            (i + 1) rest w' (passed ++ [(name, source.close)]) =
              (w'.passOverAll false (firstAnswer (callFate registry request conditions
                (opening streamGenerate)) (i + 1) rest).1).streamed (passed ++ streams)
                (firstAnswer (callFate registry request conditions
                  (opening streamGenerate)) (i + 1) rest).2 ∧
            (∀ p ∈ streams, p.2.closed = true) ∧
            streams.map (·.1) = name :: ((firstAnswer (callFate registry request conditions
              (opening streamGenerate)) (i + 1) rest).1.filter (·.2.isCall)).map (·.1) := by
          intro w'
          obtain ⟨streams, heq, hclosed, hnames⟩ :=
            ih (i + 1) w' (passed ++ [(name, source.close)])
          refine ⟨(name, source.close) :: streams, ?_, ?_, ?_⟩
          · rw [heq, List.append_assoc, List.singleton_append]
          · intro p hp
            rcases List.mem_cons.mp hp with rfl | hp
            · rfl
            · exact hclosed p hp
          · rw [List.map_cons, hnames]
        simp only [hnext]
        cases failure with
        | upstream e => exact hstep _
        | unaddressable e => exact hstep _
        | dialect e => exact hstep _
      | ok opened =>
        have houtcome : opening streamGenerate i provider addressed =
            .ok (provider, addressed, streamGenerate i provider addressed) := by
          rw [opening, hopens]
          rfl
        rw [houtcome] at hfate
        rw [firstAnswer_cons_ok hfate]
        refine ⟨[], ?_, fun p hp => absurd hp List.not_mem_nil, rfl⟩
        rw [List.append_nil]
        dsimp only
        generalize streamGenerate i provider addressed = feed at hopens ⊢
        obtain ⟨chunks, failure⟩ := feed
        cases chunks with
        | nil =>
          cases failure with
          | none => rfl
          | some e => cases hopens
        | cons first rest => rfl

end Walks

end AiraGateway
