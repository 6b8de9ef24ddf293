import AiraGateway.Pipeline.Steps

/-!
# Running a pipeline, for real and as a dry run

Both runners evaluate the same steps, each on the request the one before left. `runPipeline`
records what a step decided, spent and rewrote and ends with the first refusal; `dryRun` writes a
trace, and with `pastBlocks` goes on behind a refusal to show what the other steps would do.

* `dry_run_decides_as_run`: the dry run is blocked exactly when the run is rejected, with the same
  reason and after the same calls; what it traces behind the refusal is marked.
-/

namespace AiraGateway

/-! ### What a request may have a step call -/

/-- What the catalogue says about a model a step wants to call. -/
structure StepDeclaration where
  provider : Text := []
  publisher : Text := []
  thinkingModes : List Text := []

/-- Off where the model can be told to be off, and nothing where it cannot. -/
def thinkingForAClassifier (declaration : StepDeclaration) : Option Thinking :=
  if ("disabled" : Text) ∈ declaration.thinkingModes then some { mode := "disabled" } else none

/-- The evaluator a request's steps run with: the catalogue is asked for a model configuration
does not know, and without a catalogue every classifier asks for no thinking. -/
def stepEvaluator (registry : ProviderRegistry Provider)
    (declarationOf : Option (Text → StepDeclaration)) (permits : Option (Text → Option Text))
    (boundary : Text → DataBoundary) : StepEvaluator where
  providerFor model :=
    match registry.providerFor model [] [] with
    | some direct => some direct
    | none => declarationOf.bind fun declarationOf =>
        registry.providerFor model (declarationOf model).provider (declarationOf model).publisher
  thinkingFor model :=
    match declarationOf with
    | none => some { mode := "disabled" }
    | some declarationOf => thinkingForAClassifier (declarationOf model)
  permits model := permits.bind (· model)
  boundary := boundary

/-! ### The two runners -/

/-- A step's refusal. -/
structure PipelineRejected where
  reason : Text
  step : Text
  deriving DecidableEq

/-- What a run leaves in the caller's hands, whether it ended or was rejected, and the requests
its steps sent to models. -/
structure PipelineRun where
  outcome : PipelineOutcome
  sent : List CanonicalRequest := []
  rejected : Option PipelineRejected := none

structure TraceEntry where
  type : Text
  action : Text
  detail : List (Text × Json)
  afterBlock : Bool := false

structure DryRunResult where
  trace : List TraceEntry
  blocked : Bool
  blockReason : Option Text
  effectiveModel : Text
  fallbackModels : List Text
  modelCalls : List ModelCall
  sent : List CanonicalRequest

/-- What a dry run has come to. -/
structure DryRunState where
  trace : List TraceEntry := []
  calls : List ModelCall
  current : CanonicalRequest
  blocked : Bool := false
  reason : Option Text := none

/-- One step's entry. Whether it comes after a block is read before its own outcome, and only the
first refusal is the run's. -/
def DryRunState.record (s : DryRunState) (e : StepEvaluation) : DryRunState where
  trace := s.trace ++ [⟨e.type, e.action, e.detail, s.blocked⟩]
  calls := s.calls ++ e.call.toList
  current := e.request.getD s.current
  blocked := s.blocked || e.blockReason.isSome
  reason := if s.blocked then s.reason else e.blockReason.or s.reason

section Runners

variable (evaluate : PipelineStep → CanonicalRequest → Evaluated)

def runFrom (o : PipelineOutcome) : List PipelineStep → PipelineRun
  | [] => { outcome := o }
  | step :: rest =>
    let evaluated := evaluate step o.request
    let recorded := (o.record evaluated.evaluation).1
    match evaluated.evaluation.blockReason with
    | some reason =>
      { outcome := recorded, sent := evaluated.sent, rejected := some ⟨reason, step.type.value⟩ }
    | none =>
      let later := runFrom recorded rest
      { later with sent := evaluated.sent ++ later.sent }

/-- Run the configured steps, rejecting at the first refusal. The three lists are the caller's. -/
def runPipeline (pipeline : Pipeline) (request : CanonicalRequest)
    (decisions : List (List (Text × Json))) (modelCalls : List ModelCall)
    (rewrites : List (Text × Text)) : PipelineRun :=
  runFrom evaluate
    { request := request, fallbackModels := pipeline.fallbackModels, decisions := decisions,
      modelCalls := modelCalls, rewrites := rewrites } pipeline.steps

def dryRunFrom (pastBlocks : Bool) (s : DryRunState) :
    List PipelineStep → DryRunState × List CanonicalRequest
  | [] => (s, [])
  | step :: rest =>
    let evaluated := evaluate step s.current
    let next := s.record evaluated.evaluation
    if next.blocked && !s.blocked && !pastBlocks then (next, evaluated.sent)
    else
      let later := dryRunFrom pastBlocks next rest
      (later.1, evaluated.sent ++ later.2)

/-- Evaluate the pipeline without dispatching the caller's own generation. -/
def dryRun (pastBlocks : Bool) (pipeline : Pipeline) (request : CanonicalRequest)
    (modelCalls : List ModelCall) : DryRunResult :=
  let (s, sent) := dryRunFrom evaluate pastBlocks { calls := modelCalls, current := request }
    pipeline.steps
  { trace := s.trace, blocked := s.blocked, blockReason := s.reason,
    effectiveModel := s.current.model, fallbackModels := pipeline.fallbackModels,
    modelCalls := s.calls, sent := sent }

end Runners

section Agreement

variable {evaluate : PipelineStep → CanonicalRequest → Evaluated}

/-- A dry run that nothing has blocked stands where a run stands. -/
structure StandsWith (s : DryRunState) (o : PipelineOutcome) : Prop where
  current : s.current = o.request
  calls : s.calls = o.modelCalls
  blocked : s.blocked = false
  reason : s.reason = none
  trace : ∀ entry ∈ s.trace, entry.afterBlock = false

section Step

variable {s : DryRunState} {o : PipelineOutcome} (h : StandsWith s o)
include h

/-- **One step that lets the request pass** leaves the two where they stand together. -/
theorem StandsWith.record {e : StepEvaluation} (hpass : e.blockReason = none) :
    StandsWith (s.record e) (o.record e).1 := by
  constructor
  · rw [DryRunState.record, PipelineOutcome.record, h.current]
  · rw [DryRunState.record, PipelineOutcome.record, h.calls]
  · simp [DryRunState.record, h.blocked, hpass]
  · simp [DryRunState.record, h.blocked, h.reason, hpass]
  · intro entry hentry
    rcases List.mem_append.mp hentry with hbefore | hnew
    · exact h.trace entry hbefore
    · rw [List.mem_singleton.mp hnew]
      exact h.blocked

/-- **The dry run does what the run does**, up to the first refusal. -/
theorem StandsWith.dryRunFrom (evaluate : PipelineStep → CanonicalRequest → Evaluated)
    (steps : List PipelineStep) :
    let dry := dryRunFrom evaluate false s steps
    let ran := runFrom evaluate o steps
    dry.2 = ran.sent ∧ dry.1.calls = ran.outcome.modelCalls ∧
      dry.1.current = ran.outcome.request ∧ dry.1.blocked = ran.rejected.isSome ∧
      dry.1.reason = ran.rejected.map (·.reason) ∧
      ∀ entry ∈ dry.1.trace, entry.afterBlock = false := by
  induction steps generalizing s o with
  | nil => exact ⟨rfl, h.calls, h.current, h.blocked, h.reason, h.trace⟩
  | cons step rest ih =>
    intro dry ran
    cases hreason : (evaluate step o.request).evaluation.blockReason with
    | some reason =>
      have hblocks : (s.record (evaluate step o.request).evaluation).blocked = true := by
        simp [DryRunState.record, hreason]
      have hdry : dry = (s.record (evaluate step o.request).evaluation,
          (evaluate step o.request).sent) := by
        simp [dry, AiraGateway.dryRunFrom, h.current, hblocks, h.blocked]
      have hran : ran = ⟨(o.record (evaluate step o.request).evaluation).1,
          (evaluate step o.request).sent, some ⟨reason, step.type.value⟩⟩ := by
        simp [ran, runFrom, hreason]
      rw [hdry, hran]
      refine ⟨rfl, ?_, ?_, hblocks, ?_, ?_⟩
      · simp [DryRunState.record, PipelineOutcome.record, h.calls]
      · simp [DryRunState.record, PipelineOutcome.record, h.current]
      · simp [DryRunState.record, h.blocked, hreason]
      · intro entry hentry
        rcases List.mem_append.mp hentry with hbefore | hnew
        · exact h.trace entry hbefore
        · rw [List.mem_singleton.mp hnew]
          exact h.blocked
    | none =>
      have hnext := h.record hreason
      have hdry : dry = ((AiraGateway.dryRunFrom evaluate false
            (s.record (evaluate step o.request).evaluation) rest).1,
          (evaluate step o.request).sent ++ (AiraGateway.dryRunFrom evaluate false
            (s.record (evaluate step o.request).evaluation) rest).2) := by
        simp [dry, AiraGateway.dryRunFrom, h.current, hnext.blocked]
      have hran : ran = { runFrom evaluate (o.record (evaluate step o.request).evaluation).1 rest
          with sent := (evaluate step o.request).sent ++
            (runFrom evaluate (o.record (evaluate step o.request).evaluation).1 rest).sent } := by
        simp [ran, runFrom, hreason]
      obtain ⟨hsent, hcalls, hcurrent, hblocked, hreason', htrace⟩ := ih hnext
      rw [hdry, hran]
      exact ⟨congrArg _ hsent, hcalls, hcurrent, hblocked, hreason', htrace⟩

end Step

/-- A run goes on with the fallbacks of its pipeline. -/
theorem runFrom_fallbackModels (o : PipelineOutcome) (steps : List PipelineStep) :
    (runFrom evaluate o steps).outcome.fallbackModels = o.fallbackModels := by
  induction steps generalizing o with
  | nil => rfl
  | cons step rest ih =>
    rw [runFrom]
    cases hreason : (evaluate step o.request).evaluation.blockReason with
    | some reason => rfl
    | none => exact ih _

/-- Behind a refusal, everything is marked, and the refusal stays what it is. -/
theorem dryRunFrom_blocked (evaluate : PipelineStep → CanonicalRequest → Evaluated)
    {s : DryRunState} (h : s.blocked = true) (steps : List PipelineStep) :
    let dry := dryRunFrom evaluate true s steps
    (∃ later, dry.1.trace = s.trace ++ later ∧ ∀ entry ∈ later, entry.afterBlock = true) ∧
      dry.1.blocked = true ∧ dry.1.reason = s.reason := by
  induction steps generalizing s with
  | nil => exact ⟨⟨[], by simp [dryRunFrom], by simp⟩, h, rfl⟩
  | cons step rest ih =>
    intro dry
    have hblocked : (s.record (evaluate step s.current).evaluation).blocked = true := by
      simp [DryRunState.record, h]
    obtain ⟨⟨later, htrace, hmarked⟩, hstays, hreason⟩ := ih hblocked
    have hdry : dry.1 = (dryRunFrom evaluate true
        (s.record (evaluate step s.current).evaluation) rest).1 := by
      simp [dry, dryRunFrom]
    rw [hdry]
    refine ⟨⟨⟨_, _, _, s.blocked⟩ :: later, htrace.trans (List.append_assoc _ [_] later), ?_⟩,
      hstays, ?_⟩
    · intro entry hentry
      rcases List.mem_cons.mp hentry with rfl | hlater
      · exact h
      · exact hmarked entry hlater
    · rw [hreason, DryRunState.record]
      exact if_pos h

/-- **Going on behind a refusal** adds marked entries to the trace and changes neither whether the
pipeline is blocked nor why. -/
theorem dryRunFrom_pastBlocks (evaluate : PipelineStep → CanonicalRequest → Evaluated)
    {s : DryRunState} (h : s.blocked = false)
    (steps : List PipelineStep) :
    let dry := dryRunFrom evaluate false s steps
    let past := dryRunFrom evaluate true s steps
    (∃ later, past.1.trace = dry.1.trace ++ later ∧ (∀ entry ∈ later, entry.afterBlock = true) ∧
      (dry.1.blocked = false → later = [])) ∧
      past.1.blocked = dry.1.blocked ∧ past.1.reason = dry.1.reason := by
  induction steps generalizing s with
  | nil => exact ⟨⟨[], by simp [dryRunFrom], by simp, fun _ => rfl⟩, rfl, rfl⟩
  | cons step rest ih =>
    intro dry past
    have hpast : past.1 = (dryRunFrom evaluate true
        (s.record (evaluate step s.current).evaluation) rest).1 := by
      simp [past, dryRunFrom]
    rw [hpast]
    by_cases hblocks : (s.record (evaluate step s.current).evaluation).blocked = true
    · have hdry : dry.1 = s.record (evaluate step s.current).evaluation := by
        simp [dry, dryRunFrom, hblocks, h]
      obtain ⟨⟨later, htrace, hmarked⟩, hstays, hreason⟩ :=
        dryRunFrom_blocked evaluate hblocks rest
      rw [hdry]
      refine ⟨⟨later, htrace, hmarked, fun hopen => ?_⟩, by rw [hstays, hblocks], hreason⟩
      rw [hblocks] at hopen
      cases hopen
    · have hopen : (s.record (evaluate step s.current).evaluation).blocked = false := by
        simpa using hblocks
      have hdry : dry.1 = (dryRunFrom evaluate false
          (s.record (evaluate step s.current).evaluation) rest).1 := by
        simp [dry, dryRunFrom, hopen]
      rw [hdry]
      exact ih hopen

/-- **A dry run decides what production decides.** It is blocked exactly when the run is rejected,
with the same reason and after the same calls to models, and where it is not it ends on the model
of the run's request with the same fallbacks. With `pastBlocks` the trace goes on with marked
entries alone, and neither the refusal nor its reason changes. -/
theorem dry_run_decides_as_run (registry : ProviderRegistry Provider)
    (declarationOf : Option (Text → StepDeclaration)) (permits : Option (Text → Option Text))
    (boundary : Text → DataBoundary) (engine : TextEngine) (pipeline : Pipeline)
    (request : CanonicalRequest) (decisions : List (List (Text × Json)))
    (modelCalls : List ModelCall) (rewrites : List (Text × Text)) :
    let evaluate := (stepEvaluator registry declarationOf permits boundary).evaluate engine
    let ran := runPipeline evaluate pipeline request decisions modelCalls rewrites
    let dry := dryRun evaluate false pipeline request modelCalls
    let past := dryRun evaluate true pipeline request modelCalls
    (dry.blocked = true ↔ ran.rejected.isSome = true) ∧
      dry.blockReason = ran.rejected.map (·.reason) ∧
      dry.sent = ran.sent ∧ dry.modelCalls = ran.outcome.modelCalls ∧
      (dry.blocked = false → dry.effectiveModel = ran.outcome.request.model ∧
        dry.fallbackModels = ran.outcome.fallbackModels) ∧
      past.blocked = dry.blocked ∧ past.blockReason = dry.blockReason ∧
      ∃ later, past.trace = dry.trace ++ later ∧
        (∀ entry ∈ dry.trace, entry.afterBlock = false) ∧
        (∀ entry ∈ later, entry.afterBlock = true) ∧ (dry.blocked = false → later = []) := by
  intro evaluate ran dry past
  have hstart : StandsWith { calls := modelCalls, current := request }
      { request := request, fallbackModels := pipeline.fallbackModels, decisions := decisions,
        modelCalls := modelCalls, rewrites := rewrites } := ⟨rfl, rfl, rfl, rfl, by simp⟩
  obtain ⟨hsent, hcalls, hcurrent, hblocked, hreason, hunmarked⟩ :=
    hstart.dryRunFrom evaluate pipeline.steps
  obtain ⟨⟨later, htrace, hmarked, hlater⟩, hpast, hpastReason⟩ :=
    dryRunFrom_pastBlocks evaluate hstart.blocked pipeline.steps
  refine ⟨?_, hreason, hsent, hcalls, fun _ => ⟨congrArg (·.model) hcurrent, ?_⟩, hpast,
    hpastReason, later, htrace, hunmarked, hmarked, hlater⟩
  · exact Bool.eq_iff_iff.mp hblocked
  · have hkept : ran.outcome.fallbackModels = pipeline.fallbackModels :=
      runFrom_fallbackModels _ pipeline.steps
    exact hkept.symm

end Agreement

end AiraGateway
