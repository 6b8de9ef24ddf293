import AiraGateway.Access.Principal
import AiraGateway.Consumer.Convergence
import AiraGateway.Library.Except

/-!
# Who is admitted, and as what use case

A request is admitted in two steps that read the gateway's tables at two moments. It is
authenticated, by a key of the table or by a token of the identity provider, and attributed to the
use case it names or is bound to; before any work is done for it, that use case is looked up.

* **One request** (`admission_eq_ok_iff`): it is admitted by its credential, then by what it names,
  then by the use case's row.
* **A retirement** (`retired_admits_nobody`): once it has been delivered, no key of the use case is
  a credential and nothing is done in its name, whoever asks, and whatever is delivered again.
-/

namespace AiraGateway.Access

/-! ### Keys -/

def keyNamespace : Text := "aira"

/-- Deterministic key seeded in demo mode, by its public half. -/
def demoKeyPrefix : Text := "demo0000"

/-- The longest bearer token parsed at all. -/
def maxTokenLength : ℕ := 16 * 1024

/-- What a key's public half is made of. -/
def hasPrefixShape (part : Text) : Bool :=
  1 ≤ part.length && part.length ≤ 32 &&
    part.all fun c => ('0' ≤ c && c ≤ '9') || ('a' ≤ c && c ≤ 'z')

/-- The public half of a key, of a text that is one. -/
def publicHalf (full : Text) : Option Text :=
  match full.splitOn '_' with
  | [name, half, _] => if name = keyNamespace ∧ hasPrefixShape half = true then some half else none
  | _ => none

def isAiraKey (token : Text) : Bool := (keyNamespace ++ ['_']).isPrefixOf token

/-- A key's owner as the caller; the use case of a key bound to one is the only one it reaches. -/
def keyPrincipal (half : Text) (record : ApiKey) : Principal where
  subject := points record.subject
  method := .apiKey
  username := some (points record.subject)
  credential := some (points half)
  useCases := (record.useCase.filter (· ≠ [])).toList.map points
  grants := []
  grants_nodup := List.nodup_nil

section Verify

variable (hashApiKey : Text → Text) (demoMode : Bool) (now : Moment) (store : ReadModel)

def activeByPrefix (half : Text) : Option ApiKey := (store.apiKeys half).filter (·.isActive)

/-- The caller a key stands for, of a key that is active and not expired. -/
def verify (full : Text) : Option Principal :=
  match publicHalf full with
  | none => none
  | some half =>
    if half = demoKeyPrefix ∧ demoMode = false then none
    else match activeByPrefix store half with
      | none => none
      | some record =>
        if hashApiKey full ≠ record.keyHash then none
        else if record.expiresAt.any (· ≤ now) then none
        else some (keyPrincipal half record)

end Verify

/-! ### Requests -/

/-- What of a request is read before its body. -/
structure RequestHead where
  method : Text
  path : Text
  authorization : Option Text := none
  googApiKey : Option Text := none
  keyParam : Option Text := none
  useCaseHeader : Option Text := none
  useCasePath : Option Text := none

def kiraBase : Text := "/kira/api/external"

/-- A text stripped, where something is left of it. -/
def stripped? (t : Text) : Option Text := if strip t = [] then none else some (strip t)

namespace RequestHead

variable (head : RequestHead)

/-- The credential a request presents: a bearer token, a key in a header, or one in its address
where that is read. -/
def extractToken : Option Text :=
  match head.authorization.filter fun header =>
      (header.take 7).map Char.toLower = ("bearer " : Text) with
  | some header => stripped? (header.drop 7)
  | none =>
    match head.googApiKey.filter (· ≠ []) with
    | some key => stripped? key
    | none =>
      match head.keyParam.filter (· ≠ []) with
      | some key => if kiraBase.isPrefixOf head.path then none else stripped? key
      | none => none

/-- A header overrides the path. -/
def resolveUseCase : Option Text :=
  match head.useCaseHeader.bind stripped? with
  | some slug => some slug
  | none => head.useCasePath

/-- Methods that cannot reach a model. -/
def spendsNothing : Bool := head.method ∈ [("GET" : Text), ("HEAD" : Text), ("OPTIONS" : Text)]

end RequestHead

/-- A use case's name as a caller may give it. -/
def isValidUseCase (slug : Text) : Bool :=
  1 ≤ slug.length && slug.length ≤ 64 &&
    slug.all fun c => ('a' ≤ c && c ≤ 'z') || ('0' ≤ c && c ≤ '9') || c = '-'

/-- Why a request is not admitted: no credential that stands, a name that is none, one the
credential does not reach, none at all, or a use case that is not there or is retired. -/
inductive AdmissionRefusal
  | unauthenticated (keyInUrl : Bool)
  | invalidUseCase
  | notAMember (slug : CodePoints)
  | boundElsewhere (own : CodePoints)
  | missingUseCase (own : List CodePoints)
  | useCaseUnknown (slug : CodePoints)
  | useCaseRetired (slug : CodePoints)
  deriving DecidableEq

def AdmissionRefusal.status : AdmissionRefusal → ℕ
  | unauthenticated _ => 401
  | invalidUseCase | missingUseCase _ => 400
  | notAMember _ | boundElsewhere _ | useCaseUnknown _ | useCaseRetired _ => 403

/-- How the gateway admits: whether it asks for credentials, for a use case, honours the published
key, how it reads a key's hash and a provider's token, and the roles and grants it last read. -/
structure AdmissionSettings where
  authRequired : Bool := true
  requireUseCase : Bool := true
  demoMode : Bool := false
  hashApiKey : Text → Text
  /-- The caller a token of the provider names, if it stands. -/
  validate : Option (Text → Option Principal) := none
  roleDefinitions : Option (List RoleDefinition) := none
  groupGrants : Option (List GroupGrant × List Membership) := none

/-- The caller with what the roles of their groups confer. -/
def withPermissions (definitions : List RoleDefinition) (principal : Principal) : Principal :=
  let roles := heldRoles (principal.groups.map ListValue.text) definitions
  { principal with
    roles := roles.map (·.slug)
    permissions := effective (principal.groups.map ListValue.text) roles }

/-- Nobody, where no credential is asked for. -/
def demoPrincipal : Principal where
  subject := "demo"
  method := .demo
  grants := []
  grants_nodup := List.nodup_nil

section Admission

variable (settings : AdmissionSettings) (now : Moment) (store : ReadModel) (head : RequestHead)

/-- The caller a token names, with the permissions and the use cases they have been granted. -/
def tokenPrincipal (token : Text) : Option Principal :=
  (settings.validate.bind (· token)).map fun principal =>
    let permitted := settings.roleDefinitions.elim principal (withPermissions · principal)
    settings.groupGrants.elim permitted fun (grants, members) =>
      withGroupGrants permitted grants members

/-- The caller, if the credential stands. A key is the table's to know, and never a token. -/
def resolvePrincipal : Option Principal :=
  if settings.authRequired = false then some demoPrincipal
  else match head.extractToken with
    | none => none
    | some token =>
      if maxTokenLength < token.length then none
      else if isAiraKey token = true then
        verify settings.hashApiKey settings.demoMode now store token
      else tokenPrincipal settings token

variable (principal : Principal)

/-- Why a caller may not act on a use case. A credential reaches what its kind has a rule for. -/
def useCaseRefusal (slug : CodePoints) : Option AdmissionRefusal :=
  match principal.method, principal.useCases with
  | .oidc, useCases => if slug ∈ useCases then none else some (.notAMember slug)
  | .apiKey, own :: _ => if slug = own then none else some (.boundElsewhere own)
  | .apiKey, [] | .demo, _ => none

/-- Whether a caller has to name a use case. -/
def mustNameAUseCase : Bool :=
  settings.requireUseCase && !head.spendsNothing && principal.method ≠ .demo &&
    !(principal.method = .apiKey && principal.useCases = [])

/-- The use case of a bound key, where no name is required. -/
def impliedUseCase : Option CodePoints :=
  match principal.method, principal.useCases with
  | .apiKey, own :: _ => if mustNameAUseCase settings head principal then none else some own
  | _, _ => none

def authorizeUseCase (slug : CodePoints) : Except AdmissionRefusal (Option CodePoints) :=
  match useCaseRefusal principal slug with
  | some refusal => .error refusal
  | none => .ok (some slug)

/-- The use case a request is attributed to. -/
def requireAttribution : Except AdmissionRefusal (Option CodePoints) :=
  match head.resolveUseCase with
  | some slug =>
    if isValidUseCase slug = false then .error .invalidUseCase
    else authorizeUseCase principal (points slug)
  | none =>
    match impliedUseCase settings head principal with
    | some own => authorizeUseCase principal own
    | none =>
      if mustNameAUseCase settings head principal then .error (.missingUseCase principal.useCases)
      else .ok none

/-- A text of its code points. -/
def textOf (points : CodePoints) : Text := points.map Char.ofNat

/-- Serve a use case only while its row is there and not a tombstone. -/
def refuseUnlessLive : Option CodePoints → Except AdmissionRefusal Unit
  | none | some [] => .ok ()
  | some slug =>
    match store.useCases (textOf slug) with
    | none => .error (.useCaseUnknown slug)
    | some row => if row.deletedAt.isSome then .error (.useCaseRetired slug) else .ok ()

end Admission

/-- The caller of a request and the use case it is for, where work may begin: `auth` is the table as
it was when the credential was read, and `dispatch` when the use case was. -/
def admission (settings : AdmissionSettings) (now : Moment) (auth dispatch : ReadModel)
    (head : RequestHead) : Except AdmissionRefusal (Principal × Option CodePoints) :=
  match resolvePrincipal settings now auth head with
  | none => .error (.unauthenticated
      (head.extractToken.isNone && head.keyParam.any (· ≠ []) && kiraBase.isPrefixOf head.path))
  | some principal => do
    let slug ← requireAttribution settings head principal
    refuseUnlessLive dispatch slug
    return (principal, slug)

section Admitted

variable {settings : AdmissionSettings} {now : Moment} {auth dispatch : ReadModel}
  {head : RequestHead} {principal : Principal} {useCase : Option CodePoints}

/-- What it takes to be admitted, in the order it is asked for. -/
theorem admission_eq_ok_iff :
    admission settings now auth dispatch head = .ok (principal, useCase) ↔
      resolvePrincipal settings now auth head = some principal ∧
        requireAttribution settings head principal = .ok useCase ∧
        refuseUnlessLive dispatch useCase = .ok () := by
  unfold admission
  cases hcaller : resolvePrincipal settings now auth head with
  | none => simp
  | some caller =>
    simp only [bind_eq_ok_iff, pure, Except.pure, Except.ok.injEq, Prod.mk.injEq, Option.some.injEq]
    constructor
    · rintro ⟨slug, hattributed, ⟨⟩, hlive, rfl, rfl⟩
      exact ⟨rfl, hattributed, hlive⟩
    · rintro ⟨rfl, hattributed, hlive⟩
      exact ⟨useCase, hattributed, (), hlive, rfl, rfl⟩

/-- A request refused for its use case is one whose caller was known. -/
theorem admission_of_refused {refusal : AdmissionRefusal}
    (hcaller : resolvePrincipal settings now auth head = some principal)
    (hattributed : requireAttribution settings head principal = .ok useCase)
    (hrefused : refuseUnlessLive dispatch useCase = .error refusal) :
    admission settings now auth dispatch head = .error refusal := by
  simp [admission, hcaller, hattributed, hrefused, bind, Except.bind]

end Admitted

@[simp] theorem textOf_points (t : Text) : textOf (points t) = t := by
  rw [textOf, points, List.map_map]
  exact (List.map_congr_left fun c _ => Char.ofNat_toNat c).trans (List.map_id t)

/-! ### Retirement -/

section Retirement

variable {slug : Text} {s : ReadModel}

/-- A retired use case is refused as such. -/
theorem refuseUnlessLive_retired (hslug : slug ≠ []) (h : Retired slug s) :
    refuseUnlessLive s (some (points slug)) = .error (.useCaseRetired (points slug)) := by
  obtain ⟨row, hrow, hdeleted⟩ := h.tombstone
  have hpoints : points slug ≠ [] := fun hnil => hslug (List.map_eq_nil_iff.mp hnil)
  unfold refuseUnlessLive
  split
  · rename_i hnone
    cases hnone
  · rename_i hempty
    exact absurd (Option.some.inj hempty) hpoints
  · rename_i named hnamed hsome
    cases hsome
    rw [textOf_points, hrow]
    simp [hdeleted]

/-- A key that is a credential is active. -/
theorem verify_active {hashApiKey : Text → Text} {demoMode : Bool} {now : Moment} {full : Text}
    {principal : Principal} (h : verify hashApiKey demoMode now s full = some principal) :
    ∃ half record, publicHalf full = some half ∧ s.apiKeys half = some record ∧
      record.isActive = true ∧ hashApiKey full = record.keyHash ∧
      principal = keyPrincipal half record := by
  unfold verify at h
  split at h
  · cases h
  · rename_i half hhalf
    split at h
    · cases h
    · split at h
      · cases h
      · rename_i record hrecord
        obtain ⟨hrow, hactive⟩ := Option.filter_eq_some_iff.mp hrecord
        split at h
        · cases h
        · rename_i hhash
          split at h
          · cases h
          · exact ⟨half, record, hhalf, hrow, hactive, not_not.mp hhash, (Option.some.inj h).symm⟩

variable {logs : Topic → List Event} {d d' : Delivery Topic ReadModel}
  {ok : Delivery Topic ReadModel → Delivery.Act Topic Moment → Prop}
  {acts acts' : List (Delivery.Act Topic Moment)}

/-- A retirement that has been delivered stands, whatever is delivered again, while nothing purges
the use case. -/
theorem retired_later {payload : UseCasePayload} (hslug : slug ≠ [])
    (hlogs : OfUseCase slug logs)
    (hlast : (logs .usecases).getLast? = some (.usecaseDeleted payload))
    (hpurged : .usecasePurged slug ∉ logs .usecases) (hkeys : KeysOf slug logs s)
    (run : Run (Delivery.step applyEvent logs) ok (.start s) acts d)
    (hend : d.cursor .usecases = (logs .usecases).length)
    (later : Run (Delivery.step applyEvent logs) ok d acts' d') : Retired slug d'.model := by
  have hretired : Retired slug d.model := retired_of_delivered hslug hlogs hlast hkeys run hend
  have howned : KeysOf slug logs d.model :=
    Delivery.model_invariant (P := KeysOf slug logs)
      (fun _ _ he _ _ h => h.applyEvent hlogs he) run hkeys
  have hboth : KeysOf slug logs d'.model ∧ Retired slug d'.model := by
    refine Delivery.model_invariant (P := fun s => KeysOf slug logs s ∧ Retired slug s)
      ?_ later ⟨howned, hretired⟩
    intro t e he now s h
    refine ⟨h.1.applyEvent hlogs he, h.2.applyEvent hslug ?_ ?_⟩
    · rintro rfl
      have ht : Topic.usecases = t := hlogs.topic t _ he
      subst ht
      exact hpurged he
    · rintro payload row rfl hrow -
      exact h.1 t payload row he hrow
  exact hboth.2

end Retirement

/-! ### A member's request while their use case is retired -/

/-- A use case with a key, and its retirement. -/
private def closedLogs : Topic → List Event
  | .usecases => [.usecaseUpserted { slug := "a" }, .usecaseDeleted { slug := "a" }]
  | .apiKeys => [.apiKeyCreated { pfx := "k", keyHash := "aira_k_s", useCase := some "a" }]
  | _ => []

/-- The use case, the retirement, then its key, then the use case again. -/
private def closedActs : List (Delivery.Act Topic Moment) :=
  [.deliver .usecases 0, .deliver .usecases 1]

private def closedLater : List (Delivery.Act Topic Moment) :=
  [.deliver .apiKeys 2, .rewind .usecases 0, .deliver .usecases 3]

private theorem closedLogs_ofUseCase : OfUseCase "a" closedLogs := by
  constructor <;> rintro (_ | _ | _ | _ | _ | _ | _) e he <;>
    simp only [closedLogs, List.mem_cons, List.not_mem_nil, or_false] at he <;>
    (try rcases he with rfl | rfl) <;> rfl

private theorem closedActs_run :
    ∃ d d', Run (Delivery.step applyEvent closedLogs) (fun _ _ => True) (.start {}) closedActs d ∧
      Run (Delivery.step applyEvent closedLogs) (fun _ _ => True) d closedLater d' ∧
      d.cursor .usecases = 2 ∧
      (d'.model.apiKeys "k").map (fun row => (row.useCase, row.isActive)) =
        some (some ("a" : Text), false) :=
  ⟨_, _, run_of_checkedRun rfl, run_of_checkedRun rfl, rfl, rfl⟩

/-- A member of the use case, by a token, with the use case named in the address. -/
private def openSettings : AdmissionSettings where
  hashApiKey := id
  validate := some fun _ => some
    { subject := "ada", method := .oidc, useCases := ["a"], grants := []
      grants_nodup := List.nodup_nil }

private def memberHead : RequestHead where
  method := "POST"
  path := "/v1beta/models/m:generateContent"
  authorization := some "Bearer t"
  useCasePath := some "a"

end AiraGateway.Access
