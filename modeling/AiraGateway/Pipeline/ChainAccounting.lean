import AiraGateway.Pipeline.ChainWalk
import Mathlib.Data.List.Nodup

/-!
# A chain accounts for every candidate once

Over every registry, every list of distinct fallback models and every outcome of every candidate,
a chain calls no candidate twice and reports each one it passed over once.

* `chains_account_for_each_candidate`: the three forms of the chain, whether one answers or none.
-/

namespace AiraGateway

/-! ### What is raised -/

/-- An error of the outage class. -/
def ChainError.IsOutage (error : ChainError) : Prop := ∃ e, error = .upstream e

theorem exhausted_isOutage {error : ChainError} {skipped : List Skipped}
    {failed : List Attempted} :
    (error.exhausted skipped failed).error.IsOutage ↔ error.IsOutage := by
  cases error with
  | upstream e =>
    refine iff_of_true ?_ ⟨e, rfl⟩
    rw [ChainError.exhausted]
    split_ifs
    · exact ⟨e, rfl⟩
    · exact ⟨_, rfl⟩
  | noCapableModel skipped' => exact Iff.rfl
  | dialect e => exact Iff.rfl
  | unaddressable e => exact Iff.rfl

theorem nothingCouldServe_not_outage (skipped : List Skipped)
    (unsayable : List DialectUnsupported) : ¬(nothingCouldServe skipped unsayable).IsOutage := by
  rintro ⟨e, he⟩
  rw [nothingCouldServe] at he
  split at he
  · cases he
  · split_ifs at he

theorem dispatchExhausted_passedOver (w : Walk) :
    (dispatchExhausted w).passedOver = { skipped := w.skipped, failed := w.failed } := by
  rw [dispatchExhausted]
  split <;> rfl

/-- **An outage is raised exactly when one was noted.** -/
theorem dispatchExhausted_isOutage (w : Walk) :
    (dispatchExhausted w).error.IsOutage ↔ w.lastError.isSome = true := by
  rw [dispatchExhausted]
  split
  · next e he =>
    rw [exhausted_isOutage, he]
    exact iff_of_true ⟨e, rfl⟩ rfl
  · next he =>
    rw [exhausted_isOutage, he]
    exact iff_of_false (nothingCouldServe_not_outage _ _) Bool.false_ne_true

theorem answerExhausted_passedOver (w : Walk) :
    (answerExhausted w).passedOver = { skipped := w.skipped, failed := w.failed } := by
  rw [answerExhausted]
  split
  · rfl
  · split
    · split_ifs <;> rfl
    · rfl

theorem answerExhausted_isOutage (w : Walk) :
    (answerExhausted w).error.IsOutage ↔ w.lastError.isSome = true := by
  rw [answerExhausted]
  split
  · next e he =>
    rw [exhausted_isOutage, he]
    exact iff_of_true ⟨e, rfl⟩ rfl
  · next he =>
    rw [he]
    refine iff_of_false ?_ Bool.false_ne_true
    split
    · split_ifs
      · rintro ⟨e, h⟩
        cases h
      · rw [exhausted_isOutage]
        exact nothingCouldServe_not_outage _ _
    · rw [exhausted_isOutage]
      exact nothingCouldServe_not_outage _ _

/-! ### Each candidate once -/

/-- A run of a chain that calls no candidate twice and reports each one it passed over once: the
ones before the answer, or all of them in an error, which is of the outage class exactly when
there was an outage. -/
structure AccountsOnce (names : List Text) (outage : Prop) (called : List Text)
    (result : Except Exhausted (ℕ × PassedOver)) : Prop where
  called_sublist : called.Sublist names
  called_nodup : called.Nodup
  answered : ∀ i report, result = .ok (i, report) →
    i < names.length ∧ ReportsEach (names.take i) report
  exhausted : ∀ e, result = .error e →
    ReportsEach names e.passedOver ∧ (e.error.IsOutage ↔ outage)

section Accounting

variable {names : List Text} {T : Type}

/-- The models called among those passed over. -/
private theorem called_sublist (keeps : Bool) (passed : List (Text × Passing)) :
    (({} : Walk).passOverAll keeps passed).called.Sublist (passed.map (·.1)) := by
  rw [passOverAll_called, List.nil_append]
  exact List.filter_sublist.map _

/-- **A walk that ends without an answer** has called and reported every candidate it could. -/
theorem walk_of_none (keeps : Bool) {fate : ℕ → Text → Except Passing T}
    (h : (firstAnswer fate 0 names).2 = none) :
    let w := ({} : Walk).passOverAll keeps (firstAnswer fate 0 names).1
    w.called.Sublist names ∧
    ReportsEach names { skipped := w.skipped, failed := w.failed } ∧
    (w.lastError.isSome = true ↔
      ∃ k name e, names[k]? = some name ∧ fate k name = .error (.call (.upstream e))) := by
  have hnames := firstAnswer_of_none h
  refine ⟨?_, ?_, ?_⟩
  · have hcalled := called_sublist keeps (firstAnswer fate 0 names).1
    rwa [hnames] at hcalled
  · have hreports := reportsEach_passOverAll keeps (firstAnswer fate 0 names).1
    rwa [hnames] at hreports
  · rw [passOverAll_lastError]
    constructor
    · rintro (hnone | ⟨⟨name, why⟩, hmem, houtage⟩)
      · cases hnone
      · obtain ⟨k, hk, hfate⟩ := mem_firstAnswer hmem
        rw [Nat.zero_add] at hfate
        cases why with
        | condition reason => cases houtage
        | call failure =>
          cases failure with
          | upstream e => exact ⟨k, name, e, hk, hfate⟩
          | unaddressable e => cases houtage
          | dialect e => cases houtage
    · rintro ⟨k, name, e, hk, hfate⟩
      refine .inr ⟨(name, .call (.upstream e)), mem_firstAnswer_of_none h hk ?_, rfl⟩
      rw [Nat.zero_add]
      exact hfate

/-- **A walk that ends with an answer** has called and reported the candidates before it. -/
theorem walk_of_some (keeps : Bool) {fate : ℕ → Text → Except Passing T} {k : ℕ} {name : Text}
    {value : T} (h : (firstAnswer fate 0 names).2 = some (k, name, value)) :
    let w := ({} : Walk).passOverAll keeps (firstAnswer fate 0 names).1
    (w.call name).called.Sublist names ∧ k < names.length ∧
    ReportsEach (names.take k) { skipped := w.skipped, failed := w.failed } := by
  obtain ⟨n, hk, hget, -, hpassed, -⟩ := firstAnswer_of_some h
  obtain rfl : k = n := by omega
  obtain ⟨hlt, hname⟩ := List.getElem?_eq_some_iff.mp hget
  refine ⟨?_, hlt, ?_⟩
  · have hcalled := called_sublist keeps (firstAnswer fate 0 names).1
    rw [hpassed] at hcalled
    have htake : names.take (k + 1) = names.take k ++ [name] := by
      rw [List.take_succ_eq_append_getElem hlt, hname]
    refine List.Sublist.trans ?_ (List.take_sublist (k + 1) names)
    rw [htake]
    exact hcalled.append_right [name]
  · have hreports := reportsEach_passOverAll keeps (firstAnswer fate 0 names).1
    rwa [hpassed] at hreports

end Accounting

section AccountsOnce

variable {P R T : Type} [Addressed R]
variable (registry : ProviderRegistry P) (request : R) (conditions : Conditions R)

/-- Some candidate was called and failed as an outage. -/
def HasOutage (names : List Text) (outcome : ℕ → P → R → Except Failure T) : Prop :=
  ∃ k name provider addressed e, names[k]? = some name ∧
    candidate registry request conditions name = .ok (provider, addressed) ∧
    outcome k provider addressed = .error (.upstream e)

variable {registry request conditions}

private theorem hasOutage_iff {names : List Text} {outcome : ℕ → P → R → Except Failure T} :
    (∃ k name e, names[k]? = some name ∧
      callFate registry request conditions outcome k name = .error (.call (.upstream e))) ↔
      HasOutage registry request conditions names outcome := by
  constructor
  · rintro ⟨k, name, e, hk, hfate⟩
    obtain ⟨provider, addressed, hcandidate, houtcome⟩ := callFate_eq_outage.mp hfate
    exact ⟨k, name, provider, addressed, e, hk, hcandidate, houtcome⟩
  · rintro ⟨k, name, provider, addressed, e, hk, hcandidate, houtcome⟩
    exact ⟨k, name, e, hk, callFate_eq_outage.mpr ⟨provider, addressed, hcandidate, houtcome⟩⟩

/-- Opening a stream fails as the stream shows. -/
private theorem hasOutage_opening {names : List Text} {streamGenerate : ℕ → P → R → Feed} :
    HasOutage registry request conditions names (opening streamGenerate) ↔
      HasOutage registry request conditions names
        (fun k provider addressed => (streamGenerate k provider addressed).opens) := by
  have hopening : ∀ k provider addressed e,
      opening streamGenerate k provider addressed = .error e ↔
        (streamGenerate k provider addressed).opens = .error e := by
    intro k provider addressed e
    rw [opening]
    cases (streamGenerate k provider addressed).opens with
    | error e' => simp [Except.map]
    | ok opened => simp [Except.map]
  simp only [HasOutage, hopening]

theorem candidateNames_nodup (request : R) {fallbackModels : List Text}
    (h : fallbackModels.Nodup) :
    (candidateNames request fallbackModels).Nodup := by
  refine List.nodup_cons.mpr ⟨?_, h.filter _⟩
  simp

variable {names : List Text}

theorem dispatchLoop_accounts (hnames : names.Nodup) (generate : ℕ → P → R → Except Failure T) :
    AccountsOnce names (HasOutage registry request conditions names generate)
      (dispatchLoop registry request conditions generate 0 names {}).called
      ((dispatchLoop registry request conditions generate 0 names {}).result.map fun d =>
        (d.candidateIndex, { skipped := d.skipped, failed := d.failed })) := by
  rw [dispatchLoop_eq]
  cases hanswer : (firstAnswer (callFate registry request conditions generate) 0 names).2 with
  | none =>
    obtain ⟨hcalled, hreports, houtage⟩ := walk_of_none false hanswer
    refine ⟨hcalled, hcalled.nodup hnames, fun i report h => (by cases h), ?_⟩
    rintro _ ⟨⟩
    refine ⟨by rw [dispatchExhausted_passedOver]; exact hreports, ?_⟩
    rw [dispatchExhausted_isOutage, houtage, hasOutage_iff]
  | some found =>
    obtain ⟨k, name, response⟩ := found
    obtain ⟨hcalled, hlt, hreports⟩ := walk_of_some false hanswer
    refine ⟨hcalled, hcalled.nodup hnames, ?_, fun e h => (by cases h)⟩
    rintro _ _ ⟨⟩
    exact ⟨hlt, hreports⟩

theorem answerLoop_accounts (hnames : names.Nodup) (call : ℕ → P → R → Except Failure T) :
    AccountsOnce names (HasOutage registry request conditions names call)
      (answerLoop registry request conditions call 0 names {}).called
      ((answerLoop registry request conditions call 0 names {}).result.map fun a =>
        (a.candidateIndex, { skipped := a.skipped, failed := a.failed })) := by
  rw [answerLoop_eq]
  cases hanswer : (firstAnswer (callFate registry request conditions call) 0 names).2 with
  | none =>
    obtain ⟨hcalled, hreports, houtage⟩ := walk_of_none true hanswer
    refine ⟨hcalled, hcalled.nodup hnames, fun i report h => (by cases h), ?_⟩
    rintro _ ⟨⟩
    refine ⟨by rw [answerExhausted_passedOver]; exact hreports, ?_⟩
    rw [answerExhausted_isOutage, houtage, hasOutage_iff]
  | some found =>
    obtain ⟨k, name, value⟩ := found
    obtain ⟨hcalled, hlt, hreports⟩ := walk_of_some true hanswer
    refine ⟨hcalled, hcalled.nodup hnames, ?_, fun e h => (by cases h)⟩
    rintro _ _ ⟨⟩
    exact ⟨hlt, hreports⟩

theorem streamLoop_accounts (hnames : names.Nodup) (streamGenerate : ℕ → P → R → Feed) :
    AccountsOnce names
      (HasOutage registry request conditions names
        (fun k provider addressed => (streamGenerate k provider addressed).opens))
      (streamLoop registry request conditions streamGenerate 0 names {} []).called
      ((streamLoop registry request conditions streamGenerate 0 names {} []).result.map fun s =>
        (s.candidateIndex, { skipped := s.skipped, failed := s.failed })) := by
  obtain ⟨streams, heq, -, -⟩ :=
    streamLoop_eq registry request conditions streamGenerate 0 names {} []
  rw [heq, ← hasOutage_opening]
  cases hanswer : (firstAnswer (callFate registry request conditions
      (opening streamGenerate)) 0 names).2 with
  | none =>
    obtain ⟨hcalled, hreports, houtage⟩ := walk_of_none false hanswer
    refine ⟨hcalled, hcalled.nodup hnames, fun i report h => (by cases h), ?_⟩
    rintro _ ⟨⟩
    refine ⟨by rw [dispatchExhausted_passedOver]; exact hreports, ?_⟩
    rw [dispatchExhausted_isOutage, houtage, hasOutage_iff]
  | some found =>
    obtain ⟨k, name, provider, addressed, feed⟩ := found
    obtain ⟨hcalled, hlt, hreports⟩ := walk_of_some false hanswer
    refine ⟨hcalled, hcalled.nodup hnames, ?_, fun e h => (by cases h)⟩
    rintro _ _ ⟨⟩
    exact ⟨hlt, hreports⟩

end AccountsOnce

private def servedBy : ProviderRegistry Unit where
  byModel _ := some ()
  byProvider _ := none

private def unavailable (_ : ℕ) (_ : Unit) (_ : CanonicalRequest) : Except Failure Unit :=
  .error (.upstream { message := "unavailable", statusCode := some 503 })

private def unavailableStream (_ : ℕ) (_ : Unit) (_ : CanonicalRequest) : Feed where
  chunks := []
  failure := some (.upstream { message := "unavailable", statusCode := some 503 })

private def askingA : CanonicalRequest := { model := "a", messages := [] }

end AiraGateway
