import AiraGateway.Consumer.Apply
import AiraGateway.Library.Best
import Mathlib.Data.List.Pairwise
import Mathlib.Data.List.Perm.Basic
import Mathlib.Data.Prod.Lex

/-!
# Which budgets bind a caller

A configured row describes a scope, or none for this caller (`Scope.applying`), and a scope is the
counter its consumption is kept under (`Scope.usageKey`). `binding` applies the hierarchy: every
shared pot that applies, and of the per-person rows one per slot, which for a budget is its period
(`slotOf`). What holds a slot is a row on before one off, and a person's own before the one for
everybody (`precedence`).

* `binding_counts_once_per_person`: the rows of one use case that bind a caller, one counter each
  and one per-person row per period, whatever the order they were read in.
* `binding_doubles_named_pots`: rows that name somebody without being that person's own break it,
  and nobody has a per-person row without a caller.
-/

namespace AiraGateway

/-! ### Scopes -/

def installationScope : Text := "installation"

def useCaseScope : Text := "use_case"

def eachMemberScope : Text := "each_member"

def memberScope : Text := "member"

/-- The scopes counted per person. -/
def isPerPerson (scope : Text) : Bool := scope = eachMemberScope || scope = memberScope

/-- A resolved scope: a use case, and the one member it narrows to. -/
structure Scope where
  useCase : Text
  member : Option Text := none
  deriving DecidableEq

/-- A caller who can be counted: a name that is not empty. -/
def isCaller : Option Text → Bool
  | none | some [] => false
  | some _ => true

/-- The scope a configured row describes, or nothing if it does not bind this caller. -/
def Scope.applying (scope useCase : Text) (caller : Option Text) (named : Text) : Option Scope :=
  if scope = installationScope then
    if useCase = [] then some { useCase := [] } else none
  else if scope = useCaseScope then some { useCase }
  else if scope = eachMemberScope ∧ isCaller caller then some { useCase, member := caller }
  else if scope = memberScope ∧ isCaller caller ∧ some named = caller then
    some { useCase, member := caller }
  else none

/-- The key consumption is accounted under. -/
def Scope.usageKey (scope : Scope) : Text :=
  match scope.member with
  | none => if scope.useCase = [] then "installation:" else ("uc:" : Text) ++ scope.useCase
  | some member => ("member:" : Text) ++ (scope.useCase ++ ':' :: member)

/-- A selector that looks like a use case's slug. -/
def isValidUseCase (slug : Text) : Bool :=
  0 < slug.length && slug.length ≤ 64 &&
    slug.all fun c => ('a' ≤ c && c ≤ 'z') || ('0' ≤ c && c ≤ '9') || c = '-'

/-! ### The rows that bind -/

/-- What is read of a configured budget or rate limit. -/
class ScopedRow (R : Type) where
  scope : R → Text
  useCase : R → Text
  subject : R → Text
  enabled : R → Bool

section Binding

variable {R σ : Type} [ScopedRow R] [DecidableEq R] [DecidableEq σ]

open ScopedRow

def applyingTo (caller : Option Text) (row : R) : Option Scope :=
  Scope.applying (scope row) (useCase row) caller (subject row)

/-- On before off, then a person's own before the one for everybody. -/
def precedence (row : R) : Bool ×ₗ Bool := toLex (enabled row, decide (scope row = memberScope))

/-- The rows that apply to a caller. -/
def applyingRows (caller : Option Text) (rows : List R) : List R :=
  rows.filter fun row => (applyingTo caller row).isSome

/-- Which per-person row holds each slot. -/
def chosenRows (caller : Option Text) (slot : R → σ) (rows : List R) : List (σ × R) :=
  bestOfEach slot precedence ((applyingRows caller rows).filter fun row => isPerPerson (scope row))

/-- The rows of one use case that bind a caller, in the order given. -/
def binding (caller : Option Text) (slot : R → σ) (rows : List R) : List R :=
  (applyingRows caller rows).filter fun row =>
    !isPerPerson (scope row) || dictGet (chosenRows caller slot rows) (slot row) = some row

end Binding

/-- A budget as it is stored, under its id. -/
structure StoredBudget extends BudgetRead where
  id : ℤ
  deriving DecidableEq

instance : ScopedRow StoredBudget where
  scope row := row.scope
  useCase row := row.useCase
  subject row := row.subject
  enabled row := row.enabled

/-- The slot a per-person budget holds: one per period. -/
def slotOf (budget : StoredBudget) : Text := budget.period

/-- The budgets that bind a request, of the rows stored. -/
def applicable (stored : List StoredBudget) (useCase subject : Option Text) : List StoredBudget :=
  binding subject slotOf (stored.filter fun budget => budget.useCase = orText useCase [])

/-- The key a budget's consumption is accounted under; a budget that does not bind has none. -/
def scopeKey (budget : StoredBudget) (caller : Option Text) : Option Text :=
  (applyingTo caller budget).map Scope.usageKey

/-- A day on the installation's clock. -/
structure Date where
  year : ℕ
  month : ℕ
  day : ℕ

private def twoDigits (n : ℕ) : Text := [Nat.digitChar (n / 10), Nat.digitChar (n % 10)]

/-- The counter key for a moment: the calendar day or month. -/
def periodKey (period : Text) (moment : Date) : Text :=
  let monthly := Nat.toDigits 10 moment.year ++ ('-' :: twoDigits moment.month)
  if period = "day" then monthly ++ ('-' :: twoDigits moment.day) else monthly

/-! ### Scopes and their keys -/

section Names

private theorem installation_ne_useCase : installationScope ≠ useCaseScope := by decide

private theorem installation_ne_eachMember : installationScope ≠ eachMemberScope := by decide

private theorem installation_ne_member : installationScope ≠ memberScope := by decide

private theorem useCase_ne_eachMember : useCaseScope ≠ eachMemberScope := by decide

private theorem useCase_ne_member : useCaseScope ≠ memberScope := by decide

private theorem eachMember_ne_member : eachMemberScope ≠ memberScope := by decide

theorem isPerPerson_iff {scope : Text} :
    isPerPerson scope = true ↔ scope = eachMemberScope ∨ scope = memberScope := by
  simp [isPerPerson]

/-- **When a row applies**, and as which scope. -/
theorem applying_eq_some_iff {scope useCase named : Text} {caller : Option Text} {s : Scope} :
    Scope.applying scope useCase caller named = some s ↔
      (scope = installationScope ∧ useCase = [] ∧ s = { useCase := [] }) ∨
      (scope = useCaseScope ∧ s = { useCase }) ∨
      (isPerPerson scope = true ∧ isCaller caller = true ∧
        (scope = memberScope → some named = caller) ∧ s = { useCase, member := caller }) := by
  rw [Scope.applying, isPerPerson_iff]
  by_cases hi : scope = installationScope
  · subst hi
    simp [installation_ne_useCase, installation_ne_eachMember, installation_ne_member,
      eq_comm (a := s)]
  by_cases hu : scope = useCaseScope
  · subst hu
    simp [hi, useCase_ne_eachMember, useCase_ne_member, eq_comm (a := s)]
  by_cases he : scope = eachMemberScope
  · subst he
    simp [hi, hu, eachMember_ne_member, eq_comm (a := s)]
  by_cases hm : scope = memberScope
  · subst hm
    simp [hi, hu, he, eq_comm (a := s), and_assoc]
  · simp [hi, hu, he, hm]

end Names

/-- The scopes of a use case, and the installation's own. -/
inductive Scope.Valid : Scope → Prop
  | installation : Valid { useCase := [] }
  | useCase {slug : Text} (hslug : isValidUseCase slug = true) (member : Option Text) :
      Valid { useCase := slug, member }

theorem isValidUseCase_ne_nil {slug : Text} (h : isValidUseCase slug = true) : slug ≠ [] := by
  rintro rfl
  cases h

/-- A slug holds no colon. -/
theorem isValidUseCase_colon {slug : Text} (h : isValidUseCase slug = true) : ':' ∉ slug := by
  intro hmem
  have hall := (Bool.and_eq_true_iff.mp h).2
  have hcolon := List.all_eq_true.mp hall ':' hmem
  revert hcolon
  decide

/-- **Distinct scopes have distinct usage keys.** -/
theorem usageKey_injective {s t : Scope} (hs : s.Valid) (ht : t.Valid)
    (h : s.usageKey = t.usageKey) : s = t := by
  cases hs with
  | installation =>
    cases ht with
    | installation => rfl
    | useCase hslug member =>
      cases member with
      | none => simp [Scope.usageKey, isValidUseCase_ne_nil hslug] at h
      | some person => simp [Scope.usageKey] at h
  | useCase hslug member =>
    cases ht with
    | installation =>
      cases member with
      | none => simp [Scope.usageKey, isValidUseCase_ne_nil hslug] at h
      | some person => simp [Scope.usageKey] at h
    | useCase hslug' member' =>
      cases member with
      | none =>
        cases member' with
        | none =>
          rw [Scope.usageKey, Scope.usageKey, if_neg (isValidUseCase_ne_nil hslug),
            if_neg (isValidUseCase_ne_nil hslug')] at h
          exact congrArg (Scope.mk · none) (List.append_cancel_left h)
        | some person => simp [Scope.usageKey, isValidUseCase_ne_nil hslug] at h
      | some person =>
        cases member' with
        | none => simp [Scope.usageKey, isValidUseCase_ne_nil hslug'] at h
        | some person' =>
          -- the first colon after the prefix ends the slug, which holds none itself
          obtain ⟨rfl, rfl⟩ := separator_inj (isValidUseCase_colon hslug)
            (isValidUseCase_colon hslug') (List.append_cancel_left h)
          rfl

/-! ### What binds -/

section Binds

variable {R σ : Type} [ScopedRow R] [DecidableEq R] [DecidableEq σ]
variable {caller : Option Text} {slot : R → σ} {rows : List R} {row : R}

open ScopedRow

/-- A per-person row that is for this caller. -/
def IsFor (caller : Option Text) (row : R) : Prop :=
  isCaller caller = true ∧
    (scope row = eachMemberScope ∨ scope row = memberScope ∧ some (subject row) = caller)

theorem IsFor.isPerPerson (h : IsFor caller row) : isPerPerson (scope row) = true :=
  isPerPerson_iff.mpr (h.2.imp_right And.left)

theorem mem_applyingRows :
    row ∈ applyingRows caller rows ↔ row ∈ rows ∧ ∃ s, applyingTo caller row = some s := by
  rw [applyingRows, List.mem_filter, Option.isSome_iff_exists]

/-- A per-person row applies exactly when it is for the caller. -/
theorem applyingTo_perPerson (hscope : isPerPerson (scope row) = true) :
    (∃ s, applyingTo caller row = some s) ↔ IsFor caller row := by
  simp only [applyingTo, applying_eq_some_iff]
  constructor
  · rintro ⟨s, ⟨hi, -⟩ | ⟨hu, -⟩ | ⟨-, hcaller, hnamed, -⟩⟩
    · rw [hi] at hscope
      cases hscope
    · rw [hu] at hscope
      cases hscope
    · refine ⟨hcaller, (isPerPerson_iff.mp hscope).imp_right fun hm => ⟨hm, hnamed hm⟩⟩
  · rintro ⟨hcaller, hfor⟩
    refine ⟨_, .inr (.inr ⟨hscope, hcaller, fun hm => ?_, rfl⟩)⟩
    rcases hfor with he | ⟨-, hnamed⟩
    · exact absurd (he.symm.trans hm) eachMember_ne_member
    · exact hnamed

/-- The rows one of which holds each slot. -/
theorem mem_perPersonRows :
    row ∈ (applyingRows caller rows).filter (fun row => isPerPerson (scope row)) ↔
      row ∈ rows ∧ IsFor caller row := by
  rw [List.mem_filter, mem_applyingRows]
  constructor
  · rintro ⟨⟨hmem, happlies⟩, hscope⟩
    exact ⟨hmem, (applyingTo_perPerson hscope).mp happlies⟩
  · rintro ⟨hmem, hfor⟩
    exact ⟨⟨hmem, (applyingTo_perPerson hfor.isPerPerson).mpr hfor⟩, hfor.isPerPerson⟩

theorem mem_binding_iff :
    row ∈ binding caller slot rows ↔
      row ∈ applyingRows caller rows ∧
        (isPerPerson (scope row) = true →
          dictGet (chosenRows caller slot rows) (slot row) = some row) := by
  rw [binding, List.mem_filter]
  simp only [Bool.or_eq_true, Bool.not_eq_true', decide_eq_true_eq]
  refine and_congr_right fun _ => ?_
  cases isPerPerson (scope row) <;> simp

/-- A row that is off outranks none that is on. -/
theorem enabled_of_precedence_le {row other : R} (h : precedence other ≤ precedence row)
    (hon : enabled other = true) : enabled row = true := by
  have hlex : ∀ on on' own own' : Bool, toLex (on', own') ≤ toLex (on, own) → on' = true →
      on = true := by decide
  exact hlex _ _ _ _ h hon

/-- The one for everybody outranks no row of the caller's own that is on. -/
theorem member_of_precedence_le {row other : R} (h : precedence other ≤ precedence row)
    (hon : enabled other = true) (hm : scope other = memberScope) : scope row = memberScope := by
  have hlex : ∀ on on' own own' : Bool, toLex (on', own') ≤ toLex (on, own) → on' = true →
      own' = true → own = true := by decide
  exact of_decide_eq_true (hlex _ _ _ _ h hon (decide_eq_true hm))

/-- No row for the caller in its slot outranks it. -/
theorem binding_unbeaten (hmem : row ∈ binding caller slot rows)
    (hscope : isPerPerson (scope row) = true) :
    ∀ other ∈ rows, IsFor caller other → slot other = slot row →
      precedence other ≤ precedence row := by
  intro other hother hfor hslot
  have hheld := (mem_binding_iff.mp hmem).2 hscope
  exact (dictGet_bestOfEach hheld).2.unbeaten other
    (mem_perPersonRows.mpr ⟨hother, hfor⟩) hslot

/-- Of one slot, one per-person row binds. -/
theorem binding_perPerson_unique {other : R} (hmem : row ∈ binding caller slot rows)
    (hother : other ∈ binding caller slot rows) (hscope : isPerPerson (scope row) = true)
    (hscope' : isPerPerson (scope other) = true) (hslot : slot row = slot other) :
    row = other := by
  have hheld := (mem_binding_iff.mp hmem).2 hscope
  have hheld' := (mem_binding_iff.mp hother).2 hscope'
  rw [hslot, hheld'] at hheld
  exact (Option.some.inj hheld).symm

/-- **A slot some row for the caller is of has a per-person row that binds**, and no other. -/
theorem exists_binding_perPerson_iff {s : σ} :
    (∃ row ∈ binding caller slot rows, isPerPerson (scope row) = true ∧ slot row = s) ↔
      ∃ row ∈ rows, IsFor caller row ∧ slot row = s := by
  constructor
  · rintro ⟨row, hmem, hscope, hslot⟩
    obtain ⟨hrow, happlies⟩ := mem_applyingRows.mp (mem_binding_iff.mp hmem).1
    exact ⟨row, hrow, (applyingTo_perPerson hscope).mp happlies, hslot⟩
  · rintro ⟨row, hrow, hfor, hslot⟩
    obtain ⟨held, hheld⟩ := exists_dictGet_bestOfEach slot precedence
      (mem_perPersonRows.mpr ⟨hrow, hfor⟩)
    obtain ⟨hof, hleads⟩ := dictGet_bestOfEach hheld
    obtain ⟨hmem, hscope⟩ := List.mem_filter.mp hleads.mem
    refine ⟨held, mem_binding_iff.mpr ⟨hmem, fun _ => ?_⟩, hscope, hof.trans hslot⟩
    rw [hof]
    exact hheld

/-- **What binds, without its order**: where the rows for a caller rank apart, membership is
decided by the rows there are and not by their order. -/
theorem mem_binding_iff_unbeaten
    (hties : ∀ a ∈ rows, ∀ b ∈ rows, IsFor caller a → IsFor caller b → slot a = slot b →
      precedence a = precedence b → a = b) :
    row ∈ binding caller slot rows ↔
      row ∈ rows ∧ (∃ s, applyingTo caller row = some s) ∧
        (isPerPerson (scope row) = true → ∀ other ∈ rows, IsFor caller other →
          slot other = slot row → precedence other ≤ precedence row) := by
  rw [mem_binding_iff, mem_applyingRows, and_assoc]
  refine and_congr_right fun hrow => and_congr_right fun happlies => ?_
  refine forall_congr' fun hscope => ?_
  have hfor := (applyingTo_perPerson hscope).mp happlies
  rw [chosenRows, dictGet_bestOfEach_iff fun a ha b hb => by
    obtain ⟨ha, hfora⟩ := mem_perPersonRows.mp ha
    obtain ⟨hb, hforb⟩ := mem_perPersonRows.mp hb
    exact hties a ha b hb hfora hforb]
  constructor
  · rintro ⟨-, hleads⟩ other hother hforOther hslot
    exact hleads.unbeaten other (mem_perPersonRows.mpr ⟨hother, hforOther⟩) hslot
  · intro hunbeaten
    refine ⟨rfl, mem_perPersonRows.mpr ⟨hrow, hfor⟩, fun other hother hslot => ?_⟩
    obtain ⟨hother, hforOther⟩ := mem_perPersonRows.mp hother
    exact hunbeaten other hother hforOther hslot

end Binds

/-! ### The budgets of one use case -/

section Budgets

variable {slug : Text} {caller : Option Text} {rows : List StoredBudget}

/-- The same scope, person named and period in one use case: what the store keeps one row of. -/
def SameRule (a b : StoredBudget) : Prop :=
  a.useCase = b.useCase ∧ a.scope = b.scope ∧ a.subject = b.subject ∧ a.period = b.period

instance (a b : StoredBudget) : Decidable (SameRule a b) := inferInstanceAs (Decidable (_ ∧ _))

private theorem SameRule.symm {a b : StoredBudget} (h : SameRule a b) : SameRule b a :=
  ⟨h.1.symm, h.2.1.symm, h.2.2.1.symm, h.2.2.2.symm⟩

/-- The stored budgets of one use case, with the installation's own. -/
structure BudgetsOf (slug : Text) (rows : List StoredBudget) : Prop where
  valid : isValidUseCase slug = true
  owner : ∀ row ∈ rows, row.useCase = slug ∨ row.scope = installationScope ∧ row.useCase = []
  unique : rows.Pairwise fun a b => ¬SameRule a b

/-- Only a person's own budget names somebody. -/
def NamesOnlyMembers (rows : List StoredBudget) : Prop :=
  ∀ row ∈ rows, row.subject ≠ [] → row.scope = memberScope

/-- The row that has the say for its period: the caller's own if on, else the one for everybody
if on, else one that is off. -/
def Preferred (caller : Option Text) (rows : List StoredBudget) (row : StoredBudget) : Prop :=
  (row.scope = memberScope ∧ row.enabled = true) ∨
  (row.scope = eachMemberScope ∧ row.enabled = true ∧
    ∀ own ∈ rows, IsFor caller own → own.period = row.period → own.scope = memberScope →
      own.enabled = false) ∨
  (row.enabled = false ∧
    ∀ other ∈ rows, IsFor caller other → other.period = row.period → other.enabled = false)

theorem BudgetsOf.eq_of_sameRule (h : BudgetsOf slug rows) {a b : StoredBudget} (ha : a ∈ rows)
    (hb : b ∈ rows) (hsame : SameRule a b) : a = b := by
  have : Std.Symm fun a b => ¬SameRule a b := ⟨fun _ _ hab hba => hab hba.symm⟩
  by_contra hne
  exact h.unique.forall ha hb hne hsame

theorem BudgetsOf.nodup (h : BudgetsOf slug rows) : rows.Nodup :=
  h.unique.imp fun hab heq => hab (by rw [heq]; exact ⟨rfl, rfl, rfl, rfl⟩)

theorem BudgetsOf.perm {rows' : List StoredBudget} (h : BudgetsOf slug rows)
    (hperm : rows.Perm rows') : BudgetsOf slug rows' :=
  ⟨h.valid, fun row hrow => h.owner row (hperm.mem_iff.mpr hrow),
    (hperm.pairwise_iff fun hab hba => hab hba.symm).mp h.unique⟩

/-- A row that is not the installation's belongs to the use case. -/
theorem BudgetsOf.useCase_eq (h : BudgetsOf slug rows) {row : StoredBudget} (hrow : row ∈ rows)
    (hscope : row.scope ≠ installationScope) : row.useCase = slug :=
  (h.owner row hrow).resolve_right fun hi => hscope hi.1

theorem subject_of_not_member (hnamed : NamesOnlyMembers rows) {row : StoredBudget}
    (hrow : row ∈ rows) (hscope : row.scope ≠ memberScope) : row.subject = [] := by
  by_contra hsubject
  exact hscope (hnamed row hrow hsubject)

theorem IsFor.scope_ne_installation {row : StoredBudget} (h : IsFor caller row) :
    row.scope ≠ installationScope := by
  rcases h.2 with he | ⟨hm, -⟩
  · exact fun hi => installation_ne_eachMember (hi.symm.trans he)
  · exact fun hi => installation_ne_member (hi.symm.trans hm)

/-- **No ties**: two rows for one caller in one period that rank alike are one row. -/
theorem BudgetsOf.eq_of_precedence (h : BudgetsOf slug rows) (hnamed : NamesOnlyMembers rows)
    {a b : StoredBudget} (ha : a ∈ rows) (hb : b ∈ rows) (hfora : IsFor caller a)
    (hforb : IsFor caller b) (hslot : slotOf a = slotOf b)
    (hrank : precedence a = precedence b) : a = b := by
  have huse : a.useCase = b.useCase :=
    (h.useCase_eq ha hfora.scope_ne_installation).trans
      (h.useCase_eq hb hforb.scope_ne_installation).symm
  have hmember : a.scope = memberScope ↔ b.scope = memberScope :=
    decide_eq_decide.mp (Prod.ext_iff.mp (toLex.injective hrank)).2
  rcases hfora.2 with hea | ⟨hma, hna⟩
  · -- both are for everybody, and so name nobody
    have hnotMember : a.scope ≠ memberScope := fun hm =>
      eachMember_ne_member (hea.symm.trans hm)
    have hnotMember' : b.scope ≠ memberScope := fun hm => hnotMember (hmember.mpr hm)
    have heb : b.scope = eachMemberScope := hforb.2.resolve_right fun hm => hnotMember' hm.1
    refine h.eq_of_sameRule ha hb ⟨huse, hea.trans heb.symm, ?_, hslot⟩
    rw [subject_of_not_member hnamed ha hnotMember, subject_of_not_member hnamed hb hnotMember']
  · -- both are the caller's own
    have hmb : b.scope = memberScope := hmember.mp hma
    have hnb : some b.subject = caller := by
      rcases hforb.2 with heb | ⟨-, hnb⟩
      · exact absurd (heb.symm.trans hmb) eachMember_ne_member
      · exact hnb
    exact h.eq_of_sameRule ha hb
      ⟨huse, hma.trans hmb.symm, Option.some.inj (hna.trans hnb.symm), hslot⟩

/-- The scope of a bound row, and that its key is the scope's. -/
theorem BudgetsOf.scope_of_binding (h : BudgetsOf slug rows) {row : StoredBudget}
    (hrow : row ∈ binding caller slotOf rows) :
    ∃ s, applyingTo caller row = some s ∧ s.Valid ∧ scopeKey row caller = some s.usageKey := by
  obtain ⟨hmem, s, hs⟩ := mem_applyingRows.mp (mem_binding_iff.mp hrow).1
  refine ⟨s, hs, ?_, by rw [scopeKey, hs, Option.map_some]⟩
  rcases applying_eq_some_iff.mp hs with ⟨-, -, rfl⟩ | ⟨hu, rfl⟩ | ⟨hper, -, -, rfl⟩
  · exact .installation
  · have huse := h.useCase_eq hmem fun hi => installation_ne_useCase (hi.symm.trans hu)
    have hvalid : isValidUseCase row.useCase = true := by rw [huse, h.valid]
    exact .useCase hvalid none
  · have hfor := (applyingTo_perPerson hper).mp ⟨_, hs⟩
    have hvalid : isValidUseCase row.useCase = true := by
      rw [h.useCase_eq hmem hfor.scope_ne_installation, h.valid]
    exact .useCase hvalid caller

/-- The scope a row applies as names its use case, and a person where it is per person. -/
theorem applyingTo_spec {row : StoredBudget} {s : Scope} (h : applyingTo caller row = some s) :
    s.useCase = row.useCase ∧ (s.member.isSome = isPerPerson row.scope) := by
  rcases applying_eq_some_iff.mp h with ⟨hi, hnone, rfl⟩ | ⟨hu, rfl⟩ | ⟨hper, hcaller, -, rfl⟩
  · exact ⟨hnone.symm, (congrArg isPerPerson hi).symm⟩
  · exact ⟨rfl, (congrArg isPerPerson hu).symm⟩
  · refine ⟨rfl, Eq.trans ?_ hper.symm⟩
    cases caller with
    | none => cases hcaller
    | some person => rfl

/-- Two rows of one use case that are not per person are of one kind. -/
theorem BudgetsOf.scope_eq_of_useCase (h : BudgetsOf slug rows) {a b : StoredBudget}
    {s t : Scope} (ha : a ∈ rows) (hb : b ∈ rows) (hs : applyingTo caller a = some s)
    (ht : applyingTo caller b = some t) (hpa : isPerPerson a.scope = false)
    (hpb : isPerPerson b.scope = false) (huse : a.useCase = b.useCase) : a.scope = b.scope := by
  have hslug := isValidUseCase_ne_nil h.valid
  -- a pot is the use case's, and so not of the rows that name none
  have hpot : ∀ row ∈ rows, row.scope = useCaseScope → row.useCase ≠ [] := by
    intro row hrow hu
    rw [h.useCase_eq hrow fun hi => installation_ne_useCase (hi.symm.trans hu)]
    exact hslug
  rcases applying_eq_some_iff.mp hs with ⟨hia, hna, -⟩ | ⟨hua, -⟩ | ⟨hper, -⟩
  · rcases applying_eq_some_iff.mp ht with ⟨hib, -⟩ | ⟨hub, -⟩ | ⟨hper, -⟩
    · exact hia.trans hib.symm
    · exact absurd (huse.symm.trans hna) (hpot b hb hub)
    · exact absurd (hpb.symm.trans hper) Bool.false_ne_true
  · rcases applying_eq_some_iff.mp ht with ⟨-, hnb, -⟩ | ⟨hub, -⟩ | ⟨hper, -⟩
    · exact absurd (huse.trans hnb) (hpot a ha hua)
    · exact hua.trans hub.symm
    · exact absurd (hpb.symm.trans hper) Bool.false_ne_true
  · exact absurd (hpa.symm.trans hper) Bool.false_ne_true

/-- **One counter, one row**: of the rows that bind, no two share their counter and their
period. -/
theorem BudgetsOf.eq_of_scopeKey (h : BudgetsOf slug rows) (hnamed : NamesOnlyMembers rows)
    {a b : StoredBudget} (ha : a ∈ binding caller slotOf rows)
    (hb : b ∈ binding caller slotOf rows) (hkey : scopeKey a caller = scopeKey b caller)
    (hperiod : a.period = b.period) : a = b := by
  obtain ⟨s, hs, hsv, hsk⟩ := h.scope_of_binding ha
  obtain ⟨t, ht, htv, htk⟩ := h.scope_of_binding hb
  rw [hsk, htk] at hkey
  obtain rfl := usageKey_injective hsv htv (Option.some.inj hkey)
  have hmema := (mem_applyingRows.mp (mem_binding_iff.mp ha).1).1
  have hmemb := (mem_applyingRows.mp (mem_binding_iff.mp hb).1).1
  obtain ⟨husea, hpera⟩ := applyingTo_spec hs
  obtain ⟨huseb, hperb⟩ := applyingTo_spec ht
  cases hmember : s.member.isSome with
  | true =>
    exact binding_perPerson_unique ha hb (hpera.symm.trans hmember) (hperb.symm.trans hmember)
      hperiod
  | false =>
    have hpa : isPerPerson a.scope = false := hpera.symm.trans hmember
    have hpb : isPerPerson b.scope = false := hperb.symm.trans hmember
    have huse : a.useCase = b.useCase := husea.symm.trans huseb
    have hnotMember : ∀ row : StoredBudget, isPerPerson row.scope = false →
        row.scope ≠ memberScope := fun row hper hm =>
      Bool.false_ne_true (hper.symm.trans (isPerPerson_iff.mpr (.inr hm)))
    refine h.eq_of_sameRule hmema hmemb
      ⟨huse, h.scope_eq_of_useCase hmema hmemb hs ht hpa hpb huse, ?_, hperiod⟩
    rw [subject_of_not_member hnamed hmema (hnotMember a hpa),
      subject_of_not_member hnamed hmemb (hnotMember b hpb)]

/-- The per-person row that binds is the one with the say. -/
theorem preferred_of_binding {row : StoredBudget} (hrow : row ∈ binding caller slotOf rows)
    (hper : isPerPerson row.scope = true) : Preferred caller rows row := by
  have hunbeaten := binding_unbeaten hrow hper
  cases hon : row.enabled with
  | false =>
    refine .inr (.inr ⟨hon, fun other hother hfor hperiod => ?_⟩)
    by_contra hother'
    have hrowOn := enabled_of_precedence_le (hunbeaten other hother hfor hperiod)
      (Bool.eq_true_of_not_eq_false hother')
    exact Bool.false_ne_true (hon.symm.trans hrowOn)
  | true =>
    rcases isPerPerson_iff.mp hper with he | hm
    · refine .inr (.inl ⟨he, hon, fun own hown hfor hperiod hm => ?_⟩)
      by_contra hownOn
      have hrowOwn := member_of_precedence_le (hunbeaten own hown hfor hperiod)
        (Bool.eq_true_of_not_eq_false hownOn) hm
      exact eachMember_ne_member (he.symm.trans hrowOwn)
    · exact .inl ⟨hm, hon⟩

/-- **The choice does not depend on the order of the rows.** -/
theorem BudgetsOf.binding_perm (h : BudgetsOf slug rows) (hnamed : NamesOnlyMembers rows)
    {rows' : List StoredBudget} (hperm : rows.Perm rows') :
    (binding caller slotOf rows).Perm (binding caller slotOf rows') := by
  have hnodup : ∀ {l : List StoredBudget}, l.Nodup → (binding caller slotOf l).Nodup :=
    fun hl => (hl.filter _).filter _
  refine (List.perm_ext_iff_of_nodup (hnodup h.nodup) (hnodup (h.perm hperm).nodup)).mpr ?_
  intro row
  have hnamed' : NamesOnlyMembers rows' := fun r hr => hnamed r (hperm.mem_iff.mpr hr)
  rw [mem_binding_iff_unbeaten fun a ha b hb => h.eq_of_precedence hnamed ha hb,
    mem_binding_iff_unbeaten fun a ha b hb => (h.perm hperm).eq_of_precedence hnamed' ha hb]
  simp only [hperm.mem_iff]

/-- **One counter per person, booked once.** Of the stored budgets of one use case with the
installation's own, no two that bind a caller are kept under one counter in one period; a period
has one per-person budget exactly when some budget of it is for the caller, and it is the one
with the say; the order the rows were read in does not matter; and distinct scopes have distinct
counters. -/
theorem binding_counts_once_per_person {slug : Text} {rows : List StoredBudget}
    (caller : Option Text) (hrows : BudgetsOf slug rows) (hnamed : NamesOnlyMembers rows) :
    (binding caller slotOf rows).Pairwise
      (fun a b => ¬(scopeKey a caller = scopeKey b caller ∧ a.period = b.period)) ∧
    (∀ period : Text,
      (∃! row, row ∈ binding caller slotOf rows ∧ isPerPerson row.scope = true ∧
        row.period = period) ↔
      ∃ row ∈ rows, IsFor caller row ∧ row.period = period) ∧
    (∀ row ∈ binding caller slotOf rows, isPerPerson row.scope = true →
      Preferred caller rows row) ∧
    (∀ rows', rows.Perm rows' →
      (binding caller slotOf rows).Perm (binding caller slotOf rows')) ∧
    (∀ s t : Scope, s.Valid → t.Valid → s.usageKey = t.usageKey → s = t) := by
  refine ⟨?_, fun period => ⟨?_, ?_⟩, fun row => preferred_of_binding,
    fun rows' => hrows.binding_perm hnamed, fun s t => usageKey_injective⟩
  · have hnodup : (binding caller slotOf rows).Nodup := (hrows.nodup.filter _).filter _
    refine hnodup.imp_of_mem fun ha hb hne hsame => hne ?_
    exact hrows.eq_of_scopeKey hnamed ha hb hsame.1 hsame.2
  · rintro ⟨row, ⟨hrow, hper, hperiod⟩, -⟩
    exact exists_binding_perPerson_iff.mp ⟨row, hrow, hper, hperiod⟩
  · intro hfor
    obtain ⟨row, hrow, hper, hperiod⟩ := exists_binding_perPerson_iff.mpr hfor
    refine ⟨row, ⟨hrow, hper, hperiod⟩, ?_⟩
    rintro other ⟨hother, hper', hperiod'⟩
    exact binding_perPerson_unique hother hrow hper' hper (hperiod'.trans hperiod.symm)

end Budgets

private def budget (id : ℤ) (scope subject : Text) (enabled : Bool) : StoredBudget where
  useCase := if scope = installationScope then [] else "demo"
  scope := scope
  subject := subject
  period := "month"
  limitCostNanos := none
  limitTokens := none
  limitRequests := some 10
  enabled := enabled
  id := id

/-- A person's own budget that is off hands them back to the one for everybody. -/
theorem binding_counts_once_for_ana :
    let rows := [budget 1 useCaseScope [] true, budget 2 memberScope "ana" false,
      budget 3 eachMemberScope [] true, budget 4 installationScope [] true]
    binding (some "ana") slotOf rows =
      [budget 1 useCaseScope [] true, budget 3 eachMemberScope [] true,
        budget 4 installationScope [] true] ∧
    (binding (some "ana") slotOf rows).Pairwise
      (fun a b => ¬(scopeKey a (some "ana") = scopeKey b (some "ana") ∧ a.period = b.period)) :=
  ⟨by decide, (binding_counts_once_per_person (some "ana")
    ⟨show isValidUseCase "demo" = true by decide, by decide, by decide⟩
    (by unfold NamesOnlyMembers; decide)).1⟩

private def namedPots : List StoredBudget :=
  [budget 1 useCaseScope [] true, budget 2 useCaseScope "ana" true]

private def namedEach : List StoredBudget :=
  [budget 1 eachMemberScope [] true, budget 2 eachMemberScope "ana" true]

private def oneEach : List StoredBudget := [budget 1 eachMemberScope [] true]

/-- **What a name on another row does**: two pots of one period book one counter, two rows for
everybody bind by the order they were read in; and without a caller no per-person row binds. -/
theorem binding_doubles_named_pots :
    (BudgetsOf "demo" namedPots ∧
      ¬(binding (some "ana") slotOf namedPots).Pairwise fun a b =>
        ¬(scopeKey a (some "ana") = scopeKey b (some "ana") ∧ a.period = b.period)) ∧
    (BudgetsOf "demo" namedEach ∧
      ¬(binding (some "ana") slotOf namedEach).Perm
        (binding (some "ana") slotOf namedEach.reverse)) ∧
    (BudgetsOf "demo" oneEach ∧ binding none slotOf oneEach = []) := by
  refine ⟨⟨⟨by decide, by decide, by decide⟩, by decide⟩,
    ⟨⟨by decide, by decide, by decide⟩, by decide⟩,
    ⟨⟨by decide, by decide, by decide⟩, by decide⟩⟩

/-! ### The counters of one request -/

section Counters

variable {slug : Text} {caller : Option Text} {rows : List StoredBudget}

/-- The counter one request books a budget on. -/
def counterKey (caller : Option Text) (moment : Date) (budget : StoredBudget) :
    Option Text × Text :=
  (scopeKey budget caller, periodKey budget.period moment)

/-- A day and a month are never named alike. -/
theorem periodKey_injective {period period' : Text} {moment : Date}
    (hp : period = "day" ∨ period = "month") (hp' : period' = "day" ∨ period' = "month")
    (h : periodKey period moment = periodKey period' moment) : period = period' := by
  have hlen := congrArg List.length h
  rcases hp with rfl | rfl
  · rcases hp' with rfl | rfl
    · rfl
    · simp [periodKey] at hlen
  · rcases hp' with rfl | rfl
    · simp [periodKey] at hlen
    · rfl

/-- **No counter is booked twice by one request**: what the guard assumes of the budgets it is
given. -/
theorem binding_counterKeys_nodup (moment : Date) (h : BudgetsOf slug rows)
    (hnamed : NamesOnlyMembers rows)
    (hperiods : ∀ row ∈ rows, row.period = "day" ∨ row.period = "month") :
    ((binding caller slotOf rows).map (counterKey caller moment)).Nodup := by
  have hnodup : (binding caller slotOf rows).Nodup := (h.nodup.filter _).filter _
  refine hnodup.map_on fun a ha b hb hkey => ?_
  have hperiodOf : ∀ row ∈ binding caller slotOf rows,
      row.period = "day" ∨ row.period = "month" := fun row hrow =>
    hperiods row (mem_applyingRows.mp (mem_binding_iff.mp hrow).1).1
  obtain ⟨hscope, hperiod⟩ := Prod.ext_iff.mp hkey
  exact h.eq_of_scopeKey hnamed ha hb hscope
    (periodKey_injective (hperiodOf a ha) (hperiodOf b hb) hperiod)

end Counters

end AiraGateway
