import AiraGateway.Access.Permissions

/-!
# Who may reach a use case

A caller reaches a use case by a group path that names it, by a grant to one of their groups, or
by a grant naming them. The answer is the union, with the strongest role winning.

* `dictGet_resolve`: what a caller reaches a use case as is the strongest of the roles of every
  route to it.
* `mem_resolve_iff`: which use cases are reached, route by route.
-/

namespace AiraGateway.Access

/-- What a grant lets its holder do inside one use case, weakest first. -/
inductive GrantRole
  | user
  | admin
  deriving DecidableEq, Repr

namespace GrantRole

def value : GrantRole → CodePoints
  | user => "user"
  | admin => "admin"

def order : List GrantRole := [user, admin]

end GrantRole

/-- The strongest of some roles, or `user` if none is recognised. -/
def strongest (roles : List CodePoints) : CodePoints :=
  match (GrantRole.order.filter (·.value ∈ roles)).getLast? with
  | some role => role.value
  | none => GrantRole.user.value

/-- The group-path prefix that grants a use case by naming it. -/
def useCaseGroupPrefix : CodePoints := "/use-cases/"

def slash : ℕ := '/'.toNat

/-- The use case a group path names directly, whatever is nested below the prefix. -/
def slugNamedBy? (path : CodePoints) : Option CodePoints :=
  if useCaseGroupPrefix.isPrefixOf path then
    let slug := CodePoints.lastSegment slash
      (CodePoints.stripOf slash (path.drop useCaseGroupPrefix.length))
    if slug = [] then none else some slug
  else none

/-- Use cases named directly by group paths. -/
def usecasesFromGroupPaths (groups : List CodePoints) : List CodePoints :=
  (groups.filterMap slugNamedBy?).eraseDups

/-- A role to a use case's list of them. -/
def addRole (roles : List (CodePoints × List CodePoints)) (entry : CodePoints × CodePoints) :
    List (CodePoints × List CodePoints) :=
  dictSet roles entry.1 ((dictGet roles entry.1).getD [] ++ [entry.2])

/-- A grant to a group. -/
structure GroupGrant where
  groupPath : CodePoints
  useCase : CodePoints
  role : CodePoints
  deriving DecidableEq

/-- A grant naming a person. -/
structure Membership where
  username : CodePoints
  useCase : CodePoints
  role : CodePoints
  deriving DecidableEq

/-- Every route to a use case, and as what. -/
def routes (groupPaths : List ListValue) (grants : List GroupGrant)
    (direct : List (CodePoints × CodePoints)) : List (CodePoints × CodePoints) :=
  let held := (textsOf groupPaths).eraseDups
  -- a group path cannot express a role
  (usecasesFromGroupPaths held).map (·, GrantRole.user.value) ++
    (grants.filter (·.groupPath ∈ held)).map (fun grant => (grant.useCase, grant.role)) ++ direct

/-- Which use cases a caller reaches, and as what. -/
def resolve (groupPaths : List ListValue) (grants : List GroupGrant)
    (direct : List (CodePoints × CodePoints)) : List (CodePoints × CodePoints) :=
  ((routes groupPaths grants direct).foldl addRole []).map fun entry =>
    (entry.1, strongest entry.2)

/-- The gateway's answer for a caller, from the rows it has. -/
def useCasesOf (grants : List GroupGrant) (members : List Membership) (groupPaths : List ListValue)
    (username : Option CodePoints) : List (CodePoints × CodePoints) :=
  let direct := (members.filter fun member =>
    (username.filter (· ≠ [])).any (· = member.username)).map fun member =>
      (member.useCase, member.role)
  resolve groupPaths grants direct

/-! ### Which use cases are reached -/

/-- Every role of a use case among some routes. -/
def rolesFor (slug : CodePoints) (routes : List (CodePoints × CodePoints)) : List CodePoints :=
  (routes.filter (·.1 = slug)).map (·.2)

theorem dictGet_foldl_addRole (routes : List (CodePoints × CodePoints)) (slug : CodePoints)
    (roles : List (CodePoints × List CodePoints)) :
    dictGet (routes.foldl addRole roles) slug =
      if rolesFor slug routes = [] then dictGet roles slug
      else some ((dictGet roles slug).getD [] ++ rolesFor slug routes) := by
  induction routes generalizing roles with
  | nil => rfl
  | cons entry routes ih =>
    rw [List.foldl_cons, ih, addRole, dictGet_dictSet]
    by_cases heq : entry.1 = slug
    · have hcons : rolesFor slug (entry :: routes) = entry.2 :: rolesFor slug routes := by
        rw [rolesFor, List.filter_cons_of_pos (by simpa using heq)]
        rfl
      rw [hcons, if_neg (List.cons_ne_nil _ _), if_pos heq.symm, heq]
      split_ifs with hnone
      · rw [hnone]
      · rw [Option.getD_some, List.append_assoc]
        rfl
    · have hcons : rolesFor slug (entry :: routes) = rolesFor slug routes := by
        rw [rolesFor, List.filter_cons_of_neg (by simpa using heq)]
        rfl
      simp only [hcons, if_neg fun h : slug = entry.1 => heq h.symm]

/-- **What a caller reaches a use case as** is the strongest role of every route to it. -/
theorem dictGet_resolve (groupPaths : List ListValue) (grants : List GroupGrant)
    (direct : List (CodePoints × CodePoints)) (slug : CodePoints) :
    let roles := rolesFor slug (routes groupPaths grants direct)
    dictGet (resolve groupPaths grants direct) slug =
      if roles = [] then none else some (strongest roles) := by
  intro roles
  rw [resolve, dictGet_map_value, dictGet_foldl_addRole]
  split_ifs <;> rfl

theorem mem_usecasesFromGroupPaths {groups : List CodePoints} {slug : CodePoints} :
    slug ∈ usecasesFromGroupPaths groups ↔ ∃ path ∈ groups, slugNamedBy? path = some slug := by
  rw [usecasesFromGroupPaths, List.mem_eraseDups, List.mem_filterMap]

/-- **Which use cases are reached**: those a group path of the caller's names, those a grant to one
of their groups does, and those granted to them by name. -/
theorem mem_resolve_iff {groupPaths : List ListValue} {grants : List GroupGrant}
    {direct : List (CodePoints × CodePoints)} {slug : CodePoints} :
    slug ∈ (resolve groupPaths grants direct).map (·.1) ↔
      (∃ path ∈ textsOf groupPaths, slugNamedBy? path = some slug) ∨
        (∃ grant ∈ grants, grant.groupPath ∈ textsOf groupPaths ∧ grant.useCase = slug) ∨
        ∃ entry ∈ direct, entry.1 = slug := by
  have hget : slug ∈ (resolve groupPaths grants direct).map (·.1) ↔
      (dictGet (resolve groupPaths grants direct) slug).isSome = true := by
    rw [dictGet, Option.isSome_map, List.find?_isSome, List.mem_map]
    simp only [decide_eq_true_eq]
  have hroutes : (dictGet (resolve groupPaths grants direct) slug).isSome = true ↔
      ∃ entry ∈ routes groupPaths grants direct, entry.1 = slug := by
    rw [dictGet_resolve]
    split_ifs with hnone
    · refine iff_of_false (by simp) ?_
      rintro ⟨entry, hentry, rfl⟩
      have hmem : entry.2 ∈ rolesFor entry.1 (routes groupPaths grants direct) :=
        List.mem_map_of_mem (List.mem_filter.mpr ⟨hentry, by simp⟩)
      rw [hnone] at hmem
      exact List.not_mem_nil hmem
    · refine iff_of_true rfl ?_
      obtain ⟨role, hrole⟩ := List.exists_mem_of_ne_nil _ hnone
      obtain ⟨entry, hentry, -⟩ := List.mem_map.mp hrole
      obtain ⟨hmem, hslug⟩ := List.mem_filter.mp hentry
      exact ⟨entry, hmem, by simpa using hslug⟩
  rw [hget, hroutes, routes]
  constructor
  · rintro ⟨entry, hentry, rfl⟩
    rcases List.mem_append.mp hentry with hleft | hdirect
    · rcases List.mem_append.mp hleft with hnamed | hgranted
      · obtain ⟨slug, hslug, rfl⟩ := List.mem_map.mp hnamed
        obtain ⟨path, hpath, hnames⟩ := mem_usecasesFromGroupPaths.mp hslug
        exact .inl ⟨path, List.mem_eraseDups.mp hpath, hnames⟩
      · obtain ⟨grant, hgrant, rfl⟩ := List.mem_map.mp hgranted
        obtain ⟨hmem, hheld⟩ := List.mem_filter.mp hgrant
        exact .inr (.inl ⟨grant, hmem, List.mem_eraseDups.mp (by simpa using hheld), rfl⟩)
    · exact .inr (.inr ⟨entry, hdirect, rfl⟩)
  · rintro (⟨path, hpath, hnames⟩ | ⟨grant, hgrant, hheld, rfl⟩ | ⟨entry, hentry, rfl⟩)
    · refine ⟨(slug, GrantRole.user.value), ?_, rfl⟩
      refine List.mem_append_left _ (List.mem_append_left _ (List.mem_map_of_mem ?_))
      exact mem_usecasesFromGroupPaths.mpr ⟨path, List.mem_eraseDups.mpr hpath, hnames⟩
    · refine ⟨(grant.useCase, grant.role), ?_, rfl⟩
      refine List.mem_append_left _ (List.mem_append_right _ ?_)
      refine List.mem_map.mpr ⟨grant, List.mem_filter.mpr ⟨hgrant, ?_⟩, rfl⟩
      simpa using List.mem_eraseDups.mpr hheld
    · exact ⟨entry, List.mem_append_right _ hentry, rfl⟩

/-- No use case is reached twice. -/
theorem nodup_keys_resolve (groupPaths : List ListValue) (grants : List GroupGrant)
    (direct : List (CodePoints × CodePoints)) :
    ((resolve groupPaths grants direct).map (·.1)).Nodup := by
  have hfold : ∀ (routes : List (CodePoints × CodePoints))
      (roles : List (CodePoints × List CodePoints)), (roles.map (·.1)).Nodup →
        ((routes.foldl addRole roles).map (·.1)).Nodup := by
    intro routes
    induction routes with
    | nil => exact fun roles hroles => hroles
    | cons entry routes ih => exact fun roles hroles => ih _ (nodup_keys_dictSet hroles)
  rw [resolve, List.map_map]
  exact hfold _ [] List.nodup_nil

end AiraGateway.Access
