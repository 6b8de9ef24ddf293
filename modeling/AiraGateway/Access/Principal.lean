import AiraGateway.Access.Grants
import Mathlib.Data.List.Sort
import Mathlib.Data.Prod.Lex

/-!
# The authenticated caller

Who a request is from, independent of how they signed in: which use cases they reach, and as what
where a grant says so, and what they may do across the installation.
-/

namespace AiraGateway.Access

/-- How a caller signed in. -/
inductive CredentialMethod
  | apiKey
  | oidc
  | demo
  deriving DecidableEq, Repr

/-- Who an allowance is counted against: the name where there is one, the subject otherwise. -/
def person (subject username : Option CodePoints) : Option CodePoints :=
  match username with
  | none | some [] => subject
  | some name => some name

/-- A caller. No use case is granted twice: the grants are a dictionary's entries. -/
structure Principal where
  subject : CodePoints
  method : CredentialMethod
  username : Option CodePoints := none
  credential : Option CodePoints := none
  useCases : List CodePoints := []
  roles : List CodePoints := []
  groups : List CodePoints := []
  grants : List (CodePoints × CodePoints) := []
  permissions : Finset Permission := ∅
  grants_nodup : (grants.map (·.1)).Nodup := by decide

namespace Principal

/-- One human, whichever credential they used: `person` where the subject is there. -/
def person (principal : Principal) : CodePoints :=
  match principal.username with
  | none | some [] => principal.subject
  | some name => name

def allows (principal : Principal) (permission : Permission) : Bool :=
  permission ∈ principal.permissions

end Principal

/-- The caller with the use cases they have been granted, by group or by name, beside those the
token names itself. The roles travel with the slugs. -/
def withGroupGrants (principal : Principal) (grants : List GroupGrant)
    (members : List Membership) : Principal :=
  if principal.groups = [] ∧ (principal.username.filter (· ≠ [])) = none then principal
  else
    let held := principal.groups.map ListValue.text
    let direct := (members.filter fun member =>
      (principal.username.filter (· ≠ [])).any (· = member.username)).map fun member =>
        (member.useCase, member.role)
    let granted := resolve held grants direct
    if granted = [] then principal
    else
      { principal with
        useCases := (principal.useCases ++ granted.map (·.1)).eraseDups
        grants := granted.insertionSort fun a b => toLex a ≤ toLex b
        grants_nodup :=
          ((List.perm_insertionSort _ _).map _).nodup_iff.mpr
            (nodup_keys_resolve held grants direct) }

end AiraGateway.Access
