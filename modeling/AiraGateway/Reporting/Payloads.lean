import AiraGateway.Library.Sql
import AiraGateway.Persistence.RequestLog
import Mathlib.Data.List.Sort

/-!
# Whose requests a caller sees

A use case may show its members their own requests only, and may leave content to the installation
alone. Whose request a row is, and who is exempt, is asked of a row (`isOwnRequest`), of a query
(`ownRequests`), of a list of use cases (`restrictedUseCases`) and of one request's content
(`authority`).

* `selects_ownRequests`: the query and the test select the same rows.
* `mem_restrictedUseCases_iff`: the use cases a caller is restricted in.
* `authority_eq_othersRequest_iff`: when content is refused as somebody else's.
-/

namespace AiraGateway.Reporting

open Access Sql

/-! ### Rows -/

/-- A use case of the read-model. Management names every one. -/
structure UseCaseRead where
  slug : CodePoints
  payloadVisibility : CodePoints := "members"
  slug_ne : slug ≠ [] := by decide

/-- The rows access is decided from; both tables have a unique key. -/
structure ReadModel where
  useCases : List UseCaseRead := []
  members : List Membership := []
  slugs_nodup : (useCases.map (·.slug)).Nodup := by decide
  members_nodup : (members.map fun member => (member.useCase, member.username)).Nodup := by decide

/-! ### Visibility -/

/-- Who, inside a use case, may open a stored prompt and answer. -/
inductive PayloadVisibility
  | everyMember
  | ownRequestsOnly
  | oversightOnly
  deriving DecidableEq, Repr

def PayloadVisibility.value : PayloadVisibility → CodePoints
  | everyMember => "members"
  | ownRequestsOnly => "own"
  | oversightOnly => "oversight"

/-- The visibility that decides, given the installation's data mode. -/
def effectiveVisibility (stored : Option CodePoints) (strictData : Bool) : Option CodePoints :=
  if strictData then some PayloadVisibility.oversightOnly.value else stored

/-- Whether a caller may see who. -/
def seesPeople (principal : Principal) : Bool := principal.allows .incidentInvestigate

/-- Why content is not shown, as far as authority goes. -/
inductive PayloadRefusal
  | outOfScope
  | notAContentRole
  | othersRequest
  | oversightOnly
  deriving DecidableEq, Repr

/-- The authority a read rests on. -/
inductive Ground
  | incident
  | useCaseAdmin
  | useCaseMember
  | oversight
  deriving DecidableEq, Repr

/-- What a person's membership is stored under. -/
def memberKey (principal : Principal) : CodePoints := principal.person

/-- Whose request a row is. -/
def rowPerson (subject username : Option CodePoints) : Option CodePoints := person subject username

/-- Whether a row is the caller's own request, whichever credential made it. -/
def isOwnRequest (principal : Principal) (subject username : Option CodePoints) : Bool :=
  subject = some principal.subject ||
    (principal.person ≠ [] && rowPerson subject username = some principal.person)

/-- `isOwnRequest` as a condition of a query. -/
def ownRequests (principal : Principal) (row : RequestLog) : Truth :=
  let person := principal.person
  anyOf <|
    [eq row.subject principal.subject] ++
    (if person ≠ [] then [eq row.username person] else []) ++
    -- where the person is the subject, the first condition already selects these
    if person ≠ [] ∧ person ≠ principal.subject then
      [and (or (isNull row.username) (eq row.username [])) (eq row.subject person)]
    else []

/-- The use case a slug names. -/
def useCaseNamed (store : ReadModel) (slug : CodePoints) : Option UseCaseRead :=
  store.useCases.find? (·.slug = slug)

/-- What a caller is inside a use case, if they hold a grant there. -/
def grantRoleIn (store : ReadModel) (principal : Principal) (useCase : CodePoints) :
    Option CodePoints :=
  if useCase ∉ principal.useCases then none
  else
    let row := (store.members.find? fun member =>
      member.useCase = useCase ∧ member.username = memberKey principal).map (·.role)
    -- a grant to a group writes no member row
    some (strongest (((dictGet principal.grants useCase).toList ++ row.toList).filter (· ≠ [])))

/-- The ground on which a caller may read a row's content, or why they may not. -/
def authority (store : ReadModel) (principal : Principal) (row : RequestLog) (strictData : Bool) :
    Except PayloadRefusal Ground :=
  if principal.allows .payloadReadAny then .ok .incident
  else match row.useCase.filter fun slug => slug ≠ [] ∧ slug ∈ principal.useCases with
    | none =>
      .error (if principal.allows .traceReadAll then .notAContentRole else .outOfScope)
    | some slug =>
      let visibility :=
        effectiveVisibility ((useCaseNamed store slug).map (·.payloadVisibility)) strictData
      -- before the administrators: the use case has left its content to the installation
      if visibility = some PayloadVisibility.oversightOnly.value then .error .oversightOnly
      else if grantRoleIn store principal slug = some GrantRole.admin.value then .ok .useCaseAdmin
      else if visibility = some PayloadVisibility.ownRequestsOnly.value &&
          !isOwnRequest principal row.subject row.username then .error .othersRequest
      else .ok .useCaseMember

/-- A list in order. -/
def sorted (slugs : List CodePoints) : List CodePoints := slugs.insertionSort (· ≤ ·)

/-- The use cases among a caller's own whose visibility is one of some; administrators of a use
case are left out where they are exempt. -/
def narrowed (store : ReadModel) (principal : Principal) (visibilities : List PayloadVisibility)
    (administratorsExempt : Bool) : List CodePoints :=
  if principal.allows .incidentInvestigate || principal.useCases.isEmpty then []
  else
    let narrowed := (store.useCases.filter fun useCase => useCase.slug ∈ principal.useCases ∧
      useCase.payloadVisibility ∈ visibilities.map PayloadVisibility.value).map (·.slug)
    if narrowed.isEmpty || !administratorsExempt then sorted narrowed
    else
      let administered := (store.members.filter fun member =>
        member.username = memberKey principal ∧ member.useCase ∈ narrowed ∧
          member.role = GrantRole.admin.value).map (·.useCase)
      -- and those who administer by a grant to a group
      let administered := administered ++
        (principal.grants.filter (·.2 = GrantRole.admin.value)).map (·.1)
      sorted (narrowed.filter (· ∉ administered))

/-- The use cases in which a caller may see their own requests only. -/
def restrictedUseCases (store : ReadModel) (principal : Principal) (strictData : Bool) :
    List CodePoints :=
  if strictData then [] else narrowed store principal [.ownRequestsOnly] true

/-- The use cases in which a caller may see their own figures only. -/
def peopleRestrictedUseCases (store : ReadModel) (principal : Principal) (strictData : Bool) :
    List CodePoints :=
  if strictData then if seesPeople principal then [] else sorted principal.useCases
  else
    -- the exemption differs by mode: administrators are inside what is left to oversight
    let ownOnly := narrowed store principal [.ownRequestsOnly] true
    let oversight := narrowed store principal [.oversightOnly] false
    sorted (ownOnly ∪ oversight)

/-- Whether a row is listed without its person. -/
def withheldRow (principal : Principal) (subject username : Option CodePoints) : Bool :=
  !seesPeople principal && !isOwnRequest principal subject username

/-! ### Whose request a row is -/

theorem rowPerson_eq_some_iff {subject username : Option CodePoints} {name : CodePoints}
    (hname : name ≠ []) :
    rowPerson subject username = some name ↔
      username = some name ∨ (username = none ∨ username = some []) ∧ subject = some name := by
  match username with
  | none => simp [rowPerson, person]
  | some [] => simp [rowPerson, person, hname.symm]
  | some (c :: name) => simp [rowPerson, person]

theorem isOwnRequest_iff {principal : Principal} {subject username : Option CodePoints} :
    isOwnRequest principal subject username = true ↔ subject = some principal.subject ∨
      principal.person ≠ [] ∧ rowPerson subject username = some principal.person := by
  simp [isOwnRequest]

/-- **The query and the test agree** on every row, whatever of its names is absent or empty. -/
theorem selects_ownRequests (principal : Principal) (row : RequestLog) :
    Selects (ownRequests principal row) ↔
      isOwnRequest principal row.subject row.username = true := by
  rw [isOwnRequest_iff]
  by_cases hperson : principal.person = []
  · simp [ownRequests, hperson]
  · rw [rowPerson_eq_some_iff hperson]
    by_cases hsame : principal.person = principal.subject
    · have hsubject : principal.subject ≠ [] := hsame ▸ hperson
      have hown : Selects (ownRequests principal row) ↔
          row.subject = some principal.subject ∨ row.username = some principal.subject := by
        simp [ownRequests, hsubject, hsame]
      rw [hown, hsame]
      tauto
    · have hown : Selects (ownRequests principal row) ↔
          row.subject = some principal.subject ∨ row.username = some principal.person ∨
            (row.username = none ∨ row.username = some []) ∧
              row.subject = some principal.person := by
        simp [ownRequests, hperson, hsame]
      rw [hown]
      tauto

/-! ### Who is restricted -/

theorem strongest_eq_admin_iff {roles : List CodePoints} :
    strongest roles = GrantRole.admin.value ↔ GrantRole.admin.value ∈ roles := by
  by_cases hadmin : GrantRole.admin.value ∈ roles
  · simp only [hadmin, iff_true]
    by_cases huser : GrantRole.user.value ∈ roles
    · simp [strongest, GrantRole.order, hadmin, huser]
    · simp [strongest, GrantRole.order, hadmin, huser]
  · simp only [hadmin, iff_false]
    by_cases huser : GrantRole.user.value ∈ roles
    · simp only [strongest, GrantRole.order, hadmin, huser, decide_true, decide_false,
        List.filter_cons_of_pos, List.filter_cons_of_neg, List.filter_nil, Bool.false_eq_true,
        not_false_eq_true, List.getLast?_singleton]
      decide
    · simp only [strongest, GrantRole.order, hadmin, huser, decide_false,
        List.filter_cons_of_neg, List.filter_nil, Bool.false_eq_true, not_false_eq_true,
        List.getLast?_nil]
      decide

theorem mem_sorted {slugs : List CodePoints} {slug : CodePoints} :
    slug ∈ sorted slugs ↔ slug ∈ slugs :=
  List.mem_insertionSort _

variable {store : ReadModel} {principal : Principal} {slug : CodePoints}

/-- The row that a unique key names. -/
theorem memberFound_iff {role : CodePoints} : (store.members.find? fun member =>
      member.useCase = slug ∧ member.username = memberKey principal).map (·.role) = some role ↔
    ∃ member ∈ store.members, member.useCase = slug ∧ member.username = memberKey principal ∧
      member.role = role := by
  constructor
  · intro hfound
    obtain ⟨member, hmember, hrole⟩ := Option.map_eq_some_iff.mp hfound
    have hkeys := List.find?_some hmember
    simp only [decide_eq_true_eq] at hkeys
    exact ⟨member, List.mem_of_find?_eq_some hmember, hkeys.1, hkeys.2, hrole⟩
  · rintro ⟨member, hmem, hslug, hname, hrole⟩
    have hsome : (store.members.find? fun member =>
        member.useCase = slug ∧ member.username = memberKey principal).isSome := by
      rw [List.find?_isSome]
      exact ⟨member, hmem, by simp [hslug, hname]⟩
    obtain ⟨found, hfound⟩ := Option.isSome_iff_exists.mp hsome
    have hkeys := List.find?_some hfound
    simp only [decide_eq_true_eq] at hkeys
    have hsame : found = member := List.inj_on_of_nodup_map store.members_nodup
      (List.mem_of_find?_eq_some hfound) hmem (by simp [hkeys, hslug, hname])
    rw [hfound, hsame, Option.map_some, hrole]

theorem useCaseNamed_eq_some_iff {useCase : UseCaseRead} :
    useCaseNamed store slug = some useCase ↔ useCase ∈ store.useCases ∧ useCase.slug = slug := by
  constructor
  · intro hfound
    exact ⟨List.mem_of_find?_eq_some hfound, by simpa using List.find?_some hfound⟩
  · rintro ⟨hmem, hslug⟩
    have hsome : (store.useCases.find? (·.slug = slug)).isSome := by
      rw [List.find?_isSome]
      exact ⟨useCase, hmem, by simpa using hslug⟩
    obtain ⟨found, hfound⟩ := Option.isSome_iff_exists.mp hsome
    have hsame : found = useCase := List.inj_on_of_nodup_map store.slugs_nodup
      (List.mem_of_find?_eq_some hfound) hmem (by simpa [hslug] using List.find?_some hfound)
    rw [useCaseNamed, hfound, hsame]

/-- **Who administers a use case**: whoever its rows name so, and whoever a grant to a group
does. -/
theorem grantRoleIn_eq_admin_iff (hslug : slug ∈ principal.useCases) :
    grantRoleIn store principal slug = some GrantRole.admin.value ↔
      (∃ member ∈ store.members, member.useCase = slug ∧
        member.username = memberKey principal ∧ member.role = GrantRole.admin.value) ∨
      (slug, GrantRole.admin.value) ∈ principal.grants := by
  have hne : GrantRole.admin.value ≠ [] := by decide
  rw [grantRoleIn, if_neg (not_not.mpr hslug), Option.some.injEq, strongest_eq_admin_iff,
    List.mem_filter, List.mem_append, Option.mem_toList, Option.mem_toList, memberFound_iff,
    dictGet_eq_some_iff principal.grants_nodup]
  simp only [hne, ne_eq, not_false_eq_true, decide_true, and_true]
  exact or_comm

/-- The use cases of a caller's with one of some visibilities; administered ones are left out where
administrators are exempt. -/
theorem mem_narrowed_iff {visibilities : List PayloadVisibility} {exempt : Bool} :
    slug ∈ narrowed store principal visibilities exempt ↔
      principal.allows .incidentInvestigate = false ∧ slug ∈ principal.useCases ∧
        (∃ visibility ∈ visibilities,
          (useCaseNamed store slug).map (·.payloadVisibility) = some visibility.value) ∧
        (exempt = true → grantRoleIn store principal slug ≠ some GrantRole.admin.value) := by
  have hkept : slug ∈ (store.useCases.filter fun useCase => useCase.slug ∈ principal.useCases ∧
        useCase.payloadVisibility ∈ visibilities.map PayloadVisibility.value).map (·.slug) ↔
      slug ∈ principal.useCases ∧ ∃ visibility ∈ visibilities,
        (useCaseNamed store slug).map (·.payloadVisibility) = some visibility.value := by
    simp only [List.mem_map, List.mem_filter, decide_eq_true_eq, Option.map_eq_some_iff,
      useCaseNamed_eq_some_iff]
    constructor
    · rintro ⟨useCase, ⟨hmem, hown, visibility, hvisibility, hvalue⟩, rfl⟩
      exact ⟨hown, visibility, hvisibility, useCase, ⟨hmem, rfl⟩, hvalue.symm⟩
    · rintro ⟨hown, visibility, hvisibility, useCase, ⟨hmem, rfl⟩, hvalue⟩
      exact ⟨useCase, ⟨hmem, hown, visibility, hvisibility, hvalue.symm⟩, rfl⟩
  unfold narrowed
  generalize (store.useCases.filter fun useCase => useCase.slug ∈ principal.useCases ∧
    useCase.payloadVisibility ∈ visibilities.map PayloadVisibility.value).map (·.slug) = kept
    at hkept
  dsimp only
  split_ifs with hexempt hall
  · refine iff_of_false List.not_mem_nil ?_
    rintro ⟨hincident, hslug, -⟩
    rcases Bool.or_eq_true _ _ |>.mp hexempt with h | h
    · rw [hincident] at h
      exact Bool.noConfusion h
    · rw [List.isEmpty_iff.mp h] at hslug
      exact List.not_mem_nil hslug
  · have hincident : principal.allows .incidentInvestigate = false := by
      simp only [Bool.or_eq_true, not_or, Bool.not_eq_true] at hexempt
      exact hexempt.1
    rw [mem_sorted, hkept]
    constructor
    · rintro ⟨hslug, hvisibility⟩
      refine ⟨hincident, hslug, hvisibility, fun htrue => ?_⟩
      have hmem : slug ∈ kept := hkept.mpr ⟨hslug, hvisibility⟩
      rw [htrue, Bool.not_true, Bool.or_false, List.isEmpty_iff] at hall
      rw [hall] at hmem
      exact absurd hmem List.not_mem_nil
    · rintro ⟨-, hslug, hvisibility, -⟩
      exact ⟨hslug, hvisibility⟩
  · have hincident : principal.allows .incidentInvestigate = false := by
      simp only [Bool.or_eq_true, not_or, Bool.not_eq_true] at hexempt
      exact hexempt.1
    have hexempts : exempt = true := by
      simp only [Bool.or_eq_true, not_or, Bool.not_eq_true, Bool.not_eq_false'] at hall
      exact hall.2
    rw [mem_sorted, List.mem_filter, hkept, decide_eq_true_eq]
    constructor
    · rintro ⟨⟨hslug, hvisibility⟩, hnone⟩
      refine ⟨hincident, hslug, hvisibility, fun _ hadmin => hnone ?_⟩
      rw [List.mem_append]
      rcases (grantRoleIn_eq_admin_iff hslug).mp hadmin with
        ⟨member, hmember, rfl, hname, hrole⟩ | hgrant
      · refine .inl (List.mem_map.mpr ⟨member, List.mem_filter.mpr ⟨hmember, ?_⟩, rfl⟩)
        simpa [hname, hrole] using hkept.mpr ⟨hslug, hvisibility⟩
      · exact .inr (List.mem_map.mpr ⟨_, List.mem_filter.mpr ⟨hgrant, by simp⟩, rfl⟩)
    · rintro ⟨-, hslug, hvisibility, hadmin⟩
      refine ⟨⟨hslug, hvisibility⟩, fun hmem => hadmin hexempts ?_⟩
      rw [grantRoleIn_eq_admin_iff hslug]
      rcases List.mem_append.mp hmem with hmember | hgrant
      · obtain ⟨member, hfound, hsame⟩ := List.mem_map.mp hmember
        obtain ⟨hmember, hkeys⟩ := List.mem_filter.mp hfound
        simp only [decide_eq_true_eq] at hkeys
        exact .inl ⟨member, hmember, hsame, hkeys.1, hkeys.2.2⟩
      · obtain ⟨⟨granted, role⟩, hfound, rfl⟩ := List.mem_map.mp hgrant
        obtain ⟨hgrant, hrole⟩ := List.mem_filter.mp hfound
        have hrole : role = GrantRole.admin.value := by simpa using hrole
        exact .inr (hrole ▸ hgrant)

/-- **The use cases a caller is restricted in.** -/
theorem mem_restrictedUseCases_iff : slug ∈ restrictedUseCases store principal false ↔
    principal.allows .incidentInvestigate = false ∧ slug ∈ principal.useCases ∧
      (useCaseNamed store slug).map (·.payloadVisibility) =
        some PayloadVisibility.ownRequestsOnly.value ∧
      grantRoleIn store principal slug ≠ some GrantRole.admin.value := by
  rw [restrictedUseCases, if_neg Bool.false_ne_true, mem_narrowed_iff]
  simp only [List.mem_singleton, exists_eq_left, forall_const]

/-- **When content is somebody else's**: outside strict data mode, in a use case of the caller's
that shows members their own requests, to whoever neither administers it nor made the request. -/
theorem authority_eq_othersRequest_iff {row : RequestLog} :
    authority store principal row false = .error .othersRequest ↔
      principal.allows .payloadReadAny = false ∧ ∃ slug ∈ principal.useCases,
        row.useCase = some slug ∧
        (useCaseNamed store slug).map (·.payloadVisibility) =
          some PayloadVisibility.ownRequestsOnly.value ∧
        grantRoleIn store principal slug ≠ some GrantRole.admin.value ∧
        isOwnRequest principal row.subject row.username = false := by
  have hmodes : (some PayloadVisibility.ownRequestsOnly.value : Option CodePoints) ≠
      some PayloadVisibility.oversightOnly.value := by decide
  by_cases hany : principal.allows .payloadReadAny = true
  · simp [authority, hany]
  · by_cases howned : ∃ slug ∈ principal.useCases, row.useCase = some slug ∧ slug ≠ []
    · obtain ⟨slug, hslug, hrow, hne⟩ := howned
      have hthere : ∀ P : CodePoints → Prop,
          (∃ slug ∈ principal.useCases, row.useCase = some slug ∧ P slug) ↔ P slug := by
        intro P
        rw [hrow]
        simp [hslug]
      have hfilter : row.useCase.filter (fun slug => slug ≠ [] ∧ slug ∈ principal.useCases) =
          some slug := by simp [hrow, hne, hslug]
      rw [hthere, authority, if_neg hany, hfilter]
      dsimp only [effectiveVisibility]
      rw [if_neg Bool.false_ne_true]
      by_cases hown : (useCaseNamed store slug).map (·.payloadVisibility) =
          some PayloadVisibility.ownRequestsOnly.value
      · rw [hown, if_neg hmodes]
        by_cases hadmin : grantRoleIn store principal slug = some GrantRole.admin.value
        · simp [hadmin]
        · cases hmine : isOwnRequest principal row.subject row.username <;> simp [hadmin, hany]
      · simp only [hown, false_and, and_false, iff_false, decide_false, Bool.false_and,
          Bool.false_eq_true, if_false]
        split_ifs <;> simp
    · -- a use case that has no name is none, and has no row
      have hfilter : row.useCase.filter (fun slug => slug ≠ [] ∧ slug ∈ principal.useCases) =
          none := by
        rw [Option.filter_eq_none_iff]
        intro slug hrow hslug
        simp only [decide_eq_true_eq] at hslug
        exact howned ⟨slug, hslug.2, hrow, hslug.1⟩
      rw [authority, if_neg hany, hfilter]
      refine iff_of_false (by dsimp only; split_ifs <;> simp) ?_
      rintro ⟨-, slug, hslug, hrow, hvisibility, -⟩
      obtain ⟨useCase, hfound, -⟩ := Option.map_eq_some_iff.mp hvisibility
      have hnamed : slug ≠ [] := (useCaseNamed_eq_some_iff.mp hfound).2 ▸ useCase.slug_ne
      exact howned ⟨slug, hslug, hrow, hnamed⟩

end AiraGateway.Reporting
