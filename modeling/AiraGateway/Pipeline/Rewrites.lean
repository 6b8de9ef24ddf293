import AiraGateway.Pipeline.Runner

/-!
# What a pipeline leaves of a request

The steps of a pipeline rewrite and reroute a request on its way to a model. The stored request is
made from the rewrites they record, so these have to be the ones the request has been through.

* `pipeline_leaves`: the request handed on is the caller's with the last recorded rewrite in it and
  a model chosen for it, and each rewrite starts from what the one before wrote.
-/

namespace AiraGateway

/-! ### Rewriting a request again -/

/-- A request with the last of some rewrites in it. -/
def CanonicalRequest.rewritten (request : CanonicalRequest) (wrote : List (Text × Text)) :
    CanonicalRequest :=
  (wrote.getLast?.map fun pair => withUserText request pair.2).getD request

/-- Rewrites that lead from one text to another: each starts from what the one before wrote, and
says something else. -/
def LeadTo : Text → List (Text × Text) → Text → Prop
  | said, [], last => last = said
  | said, (before, after) :: later, last =>
    before = said ∧ strip after ≠ strip before ∧ LeadTo after later last

theorem rewriteFirstUser_twice (first second : Text) (messages : List CanonicalMessage) :
    rewriteFirstUser second (rewriteFirstUser first messages) =
      rewriteFirstUser second messages := by
  induction messages with
  | nil => rfl
  | cons m rest ih =>
    by_cases hrole : m.role = .user
    · have hwritten : (m.withText first).role = .user := hrole
      rw [rewriteFirstUser, if_pos hrole, rewriteFirstUser, if_pos hwritten, rewriteFirstUser,
        if_pos hrole, CanonicalMessage.withText, m.withText_kept first]
      rfl
    · rw [rewriteFirstUser, if_neg hrole, rewriteFirstUser, if_neg hrole, ih, rewriteFirstUser,
        if_neg hrole]

theorem withUserText_twice (request : CanonicalRequest) (first second : Text) :
    withUserText (withUserText request first) second = withUserText request second := by
  simp only [withUserText, List.reverse_reverse, rewriteFirstUser_twice]

theorem rewritten_cons (request : CanonicalRequest) (pair : Text × Text)
    (later : List (Text × Text)) :
    (withUserText request pair.2).rewritten later = request.rewritten (pair :: later) := by
  rcases hlast : later.getLast? with _ | last
  · simp [CanonicalRequest.rewritten, List.getLast?_cons, hlast]
  · simp [CanonicalRequest.rewritten, List.getLast?_cons, hlast, withUserText_twice]

/-- Where a user speaks, one still does after a rewrite, and says it. -/
theorem lastUserText_withUserText {request : CanonicalRequest}
    (h : ∃ m ∈ request.messages, m.role = .user) (text : Text) :
    (∃ m ∈ (withUserText request text).messages, m.role = .user) ∧
      (withUserText request text).lastUserText = text := by
  obtain ⟨before, m, after, hsplit, hrole, hafter⟩ := exists_last_user h
  rw [withUserText_of_last_user hsplit hrole hafter]
  refine ⟨⟨m.withText text, by simp, hrole⟩, ?_⟩
  exact (lastUserText_of_last_user (m := m.withText text) rfl hrole hafter).trans
    (m.withText_text text)

/-! ### One step -/

/-- What a step leaves of a request: another model for it, or another text, which it records. -/
def StepEvaluation.Leaves (s : StepEvaluation) (request : CanonicalRequest) : Prop :=
  (s.rewrote = none ∧
      ∃ model, s.request.getD request = { request with model := model }) ∨
    ∃ text, strip text ≠ strip request.lastUserText ∧
      s.rewrote = some (request.lastUserText, text) ∧
      s.request = some (withUserText request text)

namespace StepEvaluator

variable (e : StepEvaluator) (engine : TextEngine)

theorem evaluatePiiFilter_leaves (config : PiiConfig) (request : CanonicalRequest) :
    (e.evaluatePiiFilter config request).Leaves request := by
  rw [evaluatePiiFilter]
  split
  next => exact .inl ⟨rfl, request.model, rfl⟩
  next model result hredaction =>
    split
    next => exact .inl ⟨rfl, request.model, rfl⟩
    next text htext =>
      by_cases hchanged : strip text ≠ strip request.lastUserText
      · exact .inr ⟨text, hchanged, if_pos hchanged, if_pos hchanged⟩
      · refine .inl ⟨if_neg hchanged, request.model, ?_⟩
        dsimp only
        rw [if_neg hchanged]
        rfl

theorem evaluateModelRoute_leaves (config : List (Text × Json)) (request : CanonicalRequest) :
    (e.evaluateModelRoute engine config request).evaluation.Leaves request := by
  rw [evaluateModelRoute]
  dsimp only
  by_cases hasked : (e.route engine config request).1.call = none ∧
      Pipeline.listed config "categories" ≠ []
  · rw [if_pos hasked]
    refine .inl ⟨rfl, ?_⟩
    dsimp only
    split_ifs
    · exact ⟨configText config "default_model", rfl⟩
    · exact ⟨request.model, rfl⟩
  · rw [if_neg hasked]
    by_cases hretarget : (e.route engine config request).1.target ≠ [] ∧
        (e.route engine config request).1.target ≠ request.model
    · rw [if_pos hretarget]
      exact .inl ⟨rfl, _, rfl⟩
    · rw [if_neg hretarget]
      exact .inl ⟨rfl, request.model, rfl⟩

/-- **A step records what it makes of a request.** -/
theorem evaluate_leaves (step : PipelineStep) (request : CanonicalRequest) :
    (e.evaluate engine step request).evaluation.Leaves request := by
  obtain ⟨stepType, config⟩ := step
  rcases stepType with _ | _ | _
  case injectionFilter => exact .inl ⟨rfl, request.model, rfl⟩
  case modelRoute => exact e.evaluateModelRoute_leaves engine config request
  case piiFilter => exact e.evaluatePiiFilter_leaves _ request

end StepEvaluator

/-! ### A run -/

/-- What an outcome leaves of a request, with some rewrites recorded on the way: the request with
the last one in it, for some model; and where a user speaks, rewrites that lead from what was said
to what is handed on. -/
structure PipelineOutcome.Leaves (o : PipelineOutcome) (request : CanonicalRequest)
    (wrote : List (Text × Text)) : Prop where
  handed : ∃ model, o.request = { request.rewritten wrote with model := model }
  leads : (∃ m ∈ request.messages, m.role = .user) →
    LeadTo request.lastUserText wrote o.request.lastUserText

namespace PipelineOutcome.Leaves

theorem nil (o : PipelineOutcome) : o.Leaves o.request [] :=
  ⟨⟨o.request.model, rfl⟩, fun _ => rfl⟩

/-- **A step before a run** adds its rewrite to those of the run. -/
theorem cons {s : StepEvaluation} {request : CanonicalRequest} (hstep : s.Leaves request)
    {o : PipelineOutcome} {wrote : List (Text × Text)}
    (h : o.Leaves (s.request.getD request) wrote) :
    o.Leaves request (s.rewrote.toList ++ wrote) := by
  obtain ⟨⟨model, hmodel⟩, hleads⟩ := h
  rcases hstep with ⟨hnone, other, hsame⟩ | ⟨text, hchanges, hwrote, hwritten⟩
  · rw [hnone, Option.toList_none, List.nil_append]
    rw [hsame] at hmodel hleads
    refine ⟨⟨model, hmodel.trans ?_⟩, hleads⟩
    rw [CanonicalRequest.rewritten, CanonicalRequest.rewritten]
    cases wrote.getLast? <;> rfl
  · rw [hwrote, Option.toList_some, List.singleton_append]
    rw [hwritten, Option.getD_some] at hmodel hleads
    refine ⟨⟨model, hmodel.trans ?_⟩, fun huser => ?_⟩
    · rw [rewritten_cons request (_, text)]
    · obtain ⟨hspeaks, hread⟩ := lastUserText_withUserText huser text
      rw [hread] at hleads
      exact ⟨rfl, hchanges, hleads hspeaks⟩

end PipelineOutcome.Leaves

theorem runFrom_leaves (e : StepEvaluator) (engine : TextEngine) (o : PipelineOutcome)
    (steps : List PipelineStep) :
    let ran := runFrom (e.evaluate engine) o steps
    ∃ wrote, ran.outcome.rewrites = o.rewrites ++ wrote ∧ ran.outcome.Leaves o.request wrote := by
  induction steps generalizing o with
  | nil => exact ⟨[], (List.append_nil _).symm, .nil o⟩
  | cons step rest ih =>
    have hstep := e.evaluate_leaves engine step o.request
    rw [runFrom]
    cases (e.evaluate engine step o.request).evaluation.blockReason with
    | some reason =>
      -- the run ends here, with what this step recorded
      exact ⟨_, congrArg (o.rewrites ++ ·) (List.append_nil _).symm, .cons hstep (.nil _)⟩
    | none =>
      obtain ⟨wrote, hrewrites, hlater⟩ :=
        ih (o.record (e.evaluate engine step o.request).evaluation).1
      exact ⟨_, hrewrites.trans (List.append_assoc ..), .cons hstep hlater⟩

/-- **What a run leaves of a request**, a refused one as well: the caller's with the last recorded
rewrite in it and a model chosen for it, and nothing else changed. -/
theorem pipeline_leaves (e : StepEvaluator) (engine : TextEngine) (pipeline : Pipeline)
    (request : CanonicalRequest) (decisions : List (List (Text × Json)))
    (modelCalls : List ModelCall) (rewrites : List (Text × Text)) :
    let ran := runPipeline (e.evaluate engine) pipeline request decisions modelCalls rewrites
    ∃ wrote, ran.outcome.rewrites = rewrites ++ wrote ∧ ran.outcome.Leaves request wrote :=
  runFrom_leaves e engine
    { request := request, fallbackModels := pipeline.fallbackModels, decisions := decisions,
      modelCalls := modelCalls, rewrites := rewrites } pipeline.steps

end AiraGateway
