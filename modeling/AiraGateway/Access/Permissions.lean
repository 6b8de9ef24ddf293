import AiraGateway.Library.CodePoints
import AiraGateway.Library.Dict
import Mathlib.Data.Fintype.Basic

/-!
# Roles and what they may do

Which group confers a role is the directory's and the configuration's to say; what a role may do
is said here, once for both planes. Two built-in roles are fixed, the third and every role an
installation defines are stored.

* `mem_effective`: a caller may do what a role may whose group their token carries.
-/

namespace AiraGateway.Access

/-- A value of a list that came as JSON: a text, or something that is none. -/
inductive ListValue
  | text (points : CodePoints)
  | other
  deriving DecidableEq, Repr

def ListValue.text? : ListValue → Option CodePoints
  | text points => some points
  | other => none

/-- The texts of a list; anything else names nothing. -/
def textsOf (values : List ListValue) : List CodePoints := values.filterMap ListValue.text?

/-! ### The catalogue -/

/-- The organisation-wide roles. -/
inductive Role
  | globalAdmin
  | itSecurity
  | itSteuerung
  deriving DecidableEq, Repr

namespace Role

def value : Role → CodePoints
  | globalAdmin => "global-admin"
  | itSecurity => "it-security"
  | itSteuerung => "it-steuerung"

def all : List Role := [globalAdmin, itSecurity, itSteuerung]

end Role

/-- Every installation-wide permission. -/
inductive Permission
  | usecaseCreate
  | usecaseReadAll
  | usecaseManageAll
  | usecaseReadRetired
  | usecasePurge
  | catalogWrite
  | budgetInstallationWrite
  | reportReadAll
  | traceReadAll
  | anomalyReadAll
  | anomalyRuleGlobalWrite
  | incidentSuspend
  | incidentInvestigate
  | payloadReadAny
  | contentReadRead
  | operationsDiagnose
  | smoketestAuthor
  | smoketestRunAny
  | directorySearch
  | roleRead
  | roleManage
  deriving DecidableEq, Repr

namespace Permission

def value : Permission → CodePoints
  | usecaseCreate => "usecase.create"
  | usecaseReadAll => "usecase.read_all"
  | usecaseManageAll => "usecase.manage_all"
  | usecaseReadRetired => "usecase.read_retired"
  | usecasePurge => "usecase.purge"
  | catalogWrite => "catalog.write"
  | budgetInstallationWrite => "budget.installation.write"
  | reportReadAll => "report.read_all"
  | traceReadAll => "trace.read_all"
  | anomalyReadAll => "anomaly.read_all"
  | anomalyRuleGlobalWrite => "anomaly.rule.global.write"
  | incidentSuspend => "incident.suspend"
  | incidentInvestigate => "incident.investigate"
  | payloadReadAny => "payload.read_any"
  | contentReadRead => "content_read.read"
  | operationsDiagnose => "operations.diagnose"
  | smoketestAuthor => "smoketest.author"
  | smoketestRunAny => "smoketest.run_any"
  | directorySearch => "directory.search"
  | roleRead => "role.read"
  | roleManage => "role.manage"

def all : List Permission :=
  [usecaseCreate, usecaseReadAll, usecaseManageAll, usecaseReadRetired, usecasePurge, catalogWrite,
    budgetInstallationWrite, reportReadAll, traceReadAll, anomalyReadAll, anomalyRuleGlobalWrite,
    incidentSuspend, incidentInvestigate, payloadReadAny, contentReadRead, operationsDiagnose,
    smoketestAuthor, smoketestRunAny, directorySearch, roleRead, roleManage]

instance : Fintype Permission := ⟨all.toFinset, fun permission => by cases permission <;> decide⟩

/-- The permission a text names, if it names one. -/
def ofText? (name : CodePoints) : Option Permission := all.find? (·.value = name)

/-- Held by the Global Administrator alone. -/
def reserved (permission : Permission) : Bool := permission = roleManage

end Permission

/-- What a stored role may hold. -/
def grantableAlways : Finset Permission := Finset.univ.filter fun p => !p.reserved

/-- What sees a person. -/
def strictDataReserved : Finset Permission := {.payloadReadAny, .incidentInvestigate}

/-- What a stored role may hold under the installation's data mode. -/
def grantable (strictData : Bool) : Finset Permission :=
  if strictData then grantableAlways \ strictDataReserved else grantableAlways

def itSecurityPermissions : Finset Permission :=
  {.usecaseReadAll, .reportReadAll, .traceReadAll, .anomalyReadAll, .anomalyRuleGlobalWrite,
    .incidentSuspend, .incidentInvestigate, .payloadReadAny, .contentReadRead,
    .operationsDiagnose, .smoketestAuthor, .smoketestRunAny, .roleRead}

/-- IT Steuerung's set until an installation changes it. -/
def itSteuerungDefault : Finset Permission :=
  {.usecaseReadAll, .usecaseReadRetired, .reportReadAll, .traceReadAll, .anomalyReadAll,
    .contentReadRead, .roleRead}

/-- The permissions a stored role names, as a set a role may hold. -/
def parsePermissions (values : List ListValue) (strictData : Bool) : Finset Permission :=
  ((textsOf values).filterMap Permission.ofText?).toFinset ∩ grantable strictData

/-! ### Roles -/

/-- One role: what it is called, which groups confer it, and what it may do. -/
structure RoleDefinition where
  slug : CodePoints
  label : CodePoints
  groupPaths : List CodePoints
  permissions : Finset Permission
  builtin : Bool := false
  fixed : Bool := false

/-- Which groups confer the built-in roles. -/
abbrev RoleGroups := List (Role × List CodePoints)

def builtinLabel : Role → CodePoints
  | .globalAdmin => "Global administrator"
  | .itSecurity => "IT Security"
  | .itSteuerung => "IT Steuerung"

/-- The three built-in roles; IT Steuerung with its stored set, or its default. -/
def builtinRoles (mapping : RoleGroups) (itSteuerung : Option (Finset Permission))
    (strictData : Bool) : List RoleDefinition :=
  Role.all.map fun role =>
    { slug := role.value
      label := builtinLabel role
      groupPaths := (dictGet mapping role).getD []
      permissions := match role with
        | .globalAdmin => Finset.univ
        | .itSecurity => itSecurityPermissions
        | .itSteuerung => itSteuerung.getD itSteuerungDefault ∩ grantable strictData
      builtin := true
      fixed := role ≠ .itSteuerung }

/-- The built-in roles a caller holds, given the groups their token carries. -/
def rolesFromGroups (groups : List CodePoints) (mapping : RoleGroups) : List CodePoints :=
  (Role.all.filter fun role =>
    (dictGet mapping role).any fun paths => paths.any (· ∈ groups)).map Role.value

/-- The roles whose group the caller's token carries. -/
def heldRoles (groups : List ListValue) (roles : List RoleDefinition) : List RoleDefinition :=
  roles.filter fun role => role.groupPaths.any (· ∈ textsOf groups)

/-- The union over some roles. -/
def permissionsOfRoles (roles : List RoleDefinition) : Finset Permission :=
  roles.foldl (fun granted role => granted ∪ role.permissions) ∅

/-- Everything the caller may do across the installation. -/
def effective (groups : List ListValue) (roles : List RoleDefinition) : Finset Permission :=
  permissionsOfRoles (heldRoles groups roles)

theorem mem_permissionsOfRoles {roles : List RoleDefinition} {permission : Permission} :
    permission ∈ permissionsOfRoles roles ↔ ∃ role ∈ roles, permission ∈ role.permissions := by
  have hfold : ∀ granted : Finset Permission,
      permission ∈ roles.foldl (fun granted role => granted ∪ role.permissions) granted ↔
        permission ∈ granted ∨ ∃ role ∈ roles, permission ∈ role.permissions := by
    induction roles with
    | nil => simp
    | cons role roles ih =>
      intro granted
      rw [List.foldl_cons, ih, Finset.mem_union, List.exists_mem_cons_iff, or_assoc]
  rw [permissionsOfRoles, hfold]
  simp

/-- **What a caller may do**: what a role may whose group their token carries. -/
theorem mem_effective {groups : List ListValue} {roles : List RoleDefinition}
    {permission : Permission} :
    permission ∈ effective groups roles ↔ ∃ role ∈ roles,
      (∃ path ∈ role.groupPaths, path ∈ textsOf groups) ∧ permission ∈ role.permissions := by
  rw [effective, mem_permissionsOfRoles]
  constructor
  · rintro ⟨role, hrole, hpermission⟩
    obtain ⟨hmem, hheld⟩ := List.mem_filter.mp hrole
    exact ⟨role, hmem, by simpa using hheld, hpermission⟩
  · rintro ⟨role, hmem, hheld, hpermission⟩
    exact ⟨role, List.mem_filter.mpr ⟨hmem, by simpa using hheld⟩, hpermission⟩

end AiraGateway.Access
