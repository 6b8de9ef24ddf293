import AiraGateway.Access.Grants

/-!
# Who may call, and what a role allows, on both planes

The gateway reads the groups of a token. Management writes them down as the groups of an account
when somebody signs in and reads them back from there: a path becomes a mirror group named by the
path, or by its digest where the name would not fit, and a digest is recognised among the paths
that a grant or a stored role names.

* `djangoGroupName_injective`: two paths never share a mirror.
* `mem_pathsBehind_iff`: which paths are read back from the groups of an account.
* `planes_agree_iff`: what a role allows is the same on both planes, and so is who may call,
  exactly where every path that names its use case itself is read back, or the use case is
  reached by another route as well.
* `long_path_forgotten`: a convention path too long for a mirror's name is not read back.
-/

namespace AiraGateway.Access

/-! ### Mirror groups -/

/-- Prefix of the groups mirroring a directory's group path. -/
def keycloakGroupPrefix : CodePoints := "kc:"

/-- What follows the prefix when a mirror is named by its path's digest. -/
def hashedMirrorMark : CodePoints := "#"

def groupNameMaxLength : ℕ := 150

/-- The longest path a mirror carries verbatim. -/
def verbatimPathMaxLength : ℕ := groupNameMaxLength - keycloakGroupPrefix.length

/-- Whether a text column can hold a text. -/
def storable (t : CodePoints) : Bool := !t.contains 0 && t.encodable

/-- Whether a mirror carries a path as it is. -/
def isVerbatim (path : CodePoints) : Bool :=
  path.length ≤ verbatimPathMaxLength && !hashedMirrorMark.isPrefixOf path && storable path

/-- A role an installation defines, or IT Steuerung's changed set. -/
structure StoredRole where
  slug : CodePoints
  label : CodePoints
  groupPath : CodePoints
  permissions : List ListValue
  builtin : Bool := false
  deriving DecidableEq

/-- The rows both planes decide from: Management's tables, and the gateway's copy of them. -/
structure AccessRows where
  grants : List GroupGrant := []
  members : List Membership := []
  roles : List StoredRole := []

/-- Every path a grant or a role names. -/
def AccessRows.namedPaths (rows : AccessRows) : List CodePoints :=
  rows.grants.map (·.groupPath) ++ rows.roles.map (·.groupPath)

/-- Every path a grant or a role names whose mirror is a digest. -/
def digestedPaths (rows : AccessRows) : List CodePoints :=
  (rows.namedPaths.filter fun path =>
    verbatimPathMaxLength < path.length || hashedMirrorMark.isPrefixOf path).eraseDups

/-- Add what is missing and remove what is stale. -/
def reconcile (names current wanted : List CodePoints) : List CodePoints :=
  let add := wanted.filter (· ∉ current)
  let drop := current.filter (· ∉ wanted)
  names.filter (· ∉ drop) ++ add

/-- Make an account's role groups match the roles that the token's groups confer. -/
def syncUserRoles (mapping : RoleGroups) (groups : List ListValue) (names : List CodePoints) :
    List CodePoints :=
  let held := rolesFromGroups (textsOf groups) mapping
  let known := Role.all.map Role.value
  reconcile names (names.filter (· ∈ known)) (known.filter (· ∈ held))

section Mirrors

variable (hexDigest : CodePoints → CodePoints)

/-- The group that carries a path's object permissions. -/
def djangoGroupName (path : CodePoints) : CodePoints :=
  if isVerbatim path then keycloakGroupPrefix ++ path
  else keycloakGroupPrefix ++ hashedMirrorMark ++ hexDigest path

/-- Make an account's mirror groups match the groups in the token. -/
def syncUserGroups (groups : List ListValue) (names : List CodePoints) : List CodePoints :=
  reconcile names (names.filter keycloakGroupPrefix.isPrefixOf)
    ((textsOf groups).map (djangoGroupName hexDigest)).eraseDups

/-- The paths behind mirror-group names; any other name is skipped. -/
def pathsBehind (rows : AccessRows) (names : List CodePoints) : List CodePoints :=
  let mirrors := names.filter keycloakGroupPrefix.isPrefixOf
  let rest (name : CodePoints) := name.drop keycloakGroupPrefix.length
  let digests := mirrors.filter fun name => hashedMirrorMark.isPrefixOf (rest name)
  (mirrors.filter fun name => !hashedMirrorMark.isPrefixOf (rest name)).map rest ++
    if digests = [] then []
    else (digestedPaths rows).filter fun path => djangoGroupName hexDigest path ∈ digests

/-! ### Management's answers -/

/-- Every role this installation knows. -/
def roleDefinitions (rows : AccessRows) (mapping : RoleGroups) (strictData : Bool) :
    List RoleDefinition :=
  let steuerung := rows.roles.find? (·.slug = Role.itSteuerung.value)
  let storedSet := steuerung.map fun row => parsePermissions row.permissions strictData
  let custom := (rows.roles.filter fun row => !row.builtin).map fun row =>
    { slug := row.slug
      label := row.label
      groupPaths := if row.groupPath = [] then [] else [row.groupPath]
      permissions := parsePermissions row.permissions strictData : RoleDefinition }
  builtinRoles mapping storedSet strictData ++ custom

/-- The roles an account holds, every one of them through a group. -/
def heldRolesOf (definitions : List RoleDefinition) (names : List CodePoints) :
    List RoleDefinition :=
  let mirrors := names.filter keycloakGroupPrefix.isPrefixOf
  let slugs := names.filter (!keycloakGroupPrefix.isPrefixOf ·)
  definitions.filter fun role =>
    if role.builtin then role.slug ∈ slugs
    else role.groupPaths.any fun path => djangoGroupName hexDigest path ∈ mirrors

/-- Everything an account may do across the installation. -/
def permissionsOf (definitions : List RoleDefinition) (names : List CodePoints) :
    Finset Permission :=
  permissionsOfRoles (heldRolesOf hexDigest definitions names)

/-- The use cases an account may attribute traffic to. -/
def callableSlugs (rows : AccessRows) (username : CodePoints) (names : List CodePoints) :
    List CodePoints :=
  let held := pathsBehind hexDigest rows names
  let grants := rows.grants.filter (·.groupPath ∈ held)
  let direct := (rows.members.filter (·.username = username)).map fun member =>
    (member.useCase, member.role)
  (resolve (held.map .text) grants direct).map (·.1)

end Mirrors

/-! ### The gateway's answer -/

/-- The roles the gateway knows, from the rows it has. -/
def resolverDefinitions (rows : AccessRows) (mapping : RoleGroups) (strictData : Bool) :
    List RoleDefinition :=
  let steuerung := rows.roles.find? fun row =>
    row.slug = Role.itSteuerung.value && row.builtin
  let storedSet := steuerung.map fun row => parsePermissions row.permissions strictData
  let custom := (rows.roles.filter fun row =>
    !row.builtin && row.slug ∉ Role.all.map Role.value).map fun row =>
      { slug := row.slug
        label := if row.label = [] then row.slug else row.label
        groupPaths := if row.groupPath = [] then [] else [row.groupPath]
        permissions := parsePermissions row.permissions strictData : RoleDefinition }
  builtinRoles mapping storedSet strictData ++ custom

/-- Rows as Management writes them: a column holds their paths, IT Steuerung is the one built-in
role that is stored, and no other role takes a built-in role's name. -/
structure AccessRows.AsWritten (rows : AccessRows) : Prop where
  storable : ∀ path ∈ rows.namedPaths, storable path = true
  builtin : ∀ row ∈ rows.roles, row.builtin = true → row.slug = Role.itSteuerung.value
  custom : ∀ row ∈ rows.roles, row.builtin = false → row.slug ∉ Role.all.map Role.value

/-! ### What is read back -/

section ReadBack

variable {hexDigest : CodePoints → CodePoints}

/-- **Two paths never share a mirror**, as long as two digests are not the same. -/
theorem djangoGroupName_injective (h : Function.Injective hexDigest) :
    Function.Injective (djangoGroupName hexDigest) := by
  intro path path' heq
  have hmark : ∀ {path digest : CodePoints}, isVerbatim path = true →
      path ≠ hashedMirrorMark ++ digest := by
    rintro path digest hverbatim rfl
    have hprefix : hashedMirrorMark.isPrefixOf (hashedMirrorMark ++ digest) = true :=
      List.isPrefixOf_iff_prefix.mpr (List.prefix_append _ _)
    rw [isVerbatim, hprefix] at hverbatim
    simp at hverbatim
  unfold djangoGroupName at heq
  split_ifs at heq with hverbatim hverbatim'
  · exact List.append_cancel_left heq
  · rw [List.append_assoc] at heq
    exact absurd (List.append_cancel_left heq) (hmark hverbatim)
  · rw [List.append_assoc] at heq
    exact absurd (List.append_cancel_left heq).symm (hmark (by assumption))
  · exact h (List.append_cancel_left heq)

theorem mem_reconcile {names current wanted : List CodePoints} {name : CodePoints} :
    name ∈ reconcile names current wanted ↔
      (name ∈ names ∧ (name ∈ current → name ∈ wanted)) ∨ (name ∈ wanted ∧ name ∉ current) := by
  simp only [reconcile, List.mem_append, List.mem_filter, decide_eq_true_eq, not_and, not_not]

private theorem isPrefixOf_djangoGroupName (path : CodePoints) :
    keycloakGroupPrefix.isPrefixOf (djangoGroupName hexDigest path) = true := by
  unfold djangoGroupName
  split_ifs
  · exact List.isPrefixOf_iff_prefix.mpr (List.prefix_append _ _)
  · rw [List.append_assoc]
    exact List.isPrefixOf_iff_prefix.mpr (List.prefix_append _ _)

/-- After the sync the mirrors of an account are those of the token's groups. -/
theorem mem_syncUserGroups {groups : List ListValue} {names : List CodePoints}
    {name : CodePoints} : name ∈ syncUserGroups hexDigest groups names ↔
      if keycloakGroupPrefix.isPrefixOf name then
        ∃ path ∈ textsOf groups, djangoGroupName hexDigest path = name
      else name ∈ names := by
  have hwanted : name ∈ ((textsOf groups).map (djangoGroupName hexDigest)).eraseDups ↔
      ∃ path ∈ textsOf groups, djangoGroupName hexDigest path = name := by
    rw [List.mem_eraseDups, List.mem_map]
  rw [syncUserGroups, mem_reconcile, hwanted, List.mem_filter]
  split_ifs with hmirror
  · simp only [hmirror, and_true]
    constructor
    · rintro (⟨hname, hkeep⟩ | ⟨hwanted, -⟩)
      · exact hkeep hname
      · exact hwanted
    · intro h
      by_cases hname : name ∈ names
      · exact .inl ⟨hname, fun _ => h⟩
      · exact .inr ⟨h, hname⟩
  · constructor
    · rintro (⟨hname, -⟩ | ⟨⟨path, -, rfl⟩, -⟩)
      · exact hname
      · exact absurd (isPrefixOf_djangoGroupName path) hmirror
    · exact fun hname => .inl ⟨hname, fun h => absurd h.2 hmirror⟩

/-- After the sync the role groups of an account are the roles its token confers. -/
theorem mem_syncUserRoles {mapping : RoleGroups} {groups : List ListValue}
    {names : List CodePoints} {role : Role} : role.value ∈ syncUserRoles mapping groups names ↔
      role.value ∈ rolesFromGroups (textsOf groups) mapping := by
  have hknown : role.value ∈ Role.all.map Role.value :=
    List.mem_map_of_mem (by cases role <;> decide)
  rw [syncUserRoles, mem_reconcile, List.mem_filter, List.mem_filter]
  simp only [hknown, decide_true, and_true, true_and, decide_eq_true_eq]
  constructor
  · rintro (⟨hname, hkeep⟩ | ⟨hheld, -⟩)
    · exact hkeep hname
    · exact hheld
  · intro h
    by_cases hname : role.value ∈ names
    · exact .inl ⟨hname, fun _ => h⟩
    · exact .inr ⟨h, hname⟩

variable {rows : AccessRows} {groups : List ListValue} {names : List CodePoints}
  {mapping : RoleGroups} {strictData : Bool}

/-- A path whose mirror says which path it is: the mirror carries it, or it is named. -/
def AccessRows.Recognised (rows : AccessRows) (path : CodePoints) : Prop :=
  isVerbatim path = true ∨ path ∈ rows.namedPaths

/-- A mirror's name without its prefix. -/
private theorem drop_djangoGroupName (path : CodePoints) :
    (djangoGroupName hexDigest path).drop keycloakGroupPrefix.length =
      if isVerbatim path then path else hashedMirrorMark ++ hexDigest path := by
  unfold djangoGroupName
  split_ifs
  · exact List.drop_left
  · rw [List.append_assoc]
    exact List.drop_left

/-- The mark stands in a digest's name alone. -/
private theorem isPrefixOf_drop_djangoGroupName (path : CodePoints) :
    hashedMirrorMark.isPrefixOf
      ((djangoGroupName hexDigest path).drop keycloakGroupPrefix.length) = !isVerbatim path := by
  rw [drop_djangoGroupName]
  rcases hverbatim : isVerbatim path with _ | _
  · exact List.isPrefixOf_iff_prefix.mpr (List.prefix_append _ _)
  · rw [if_pos rfl]
    simp only [isVerbatim, Bool.and_eq_true, Bool.not_eq_true'] at hverbatim
    rw [hverbatim.1.2]
    rfl

/-- The mirrors of an account. -/
private theorem mem_mirrors_iff {name : CodePoints} :
    name ∈ (syncUserGroups hexDigest groups names).filter keycloakGroupPrefix.isPrefixOf ↔
      ∃ path ∈ textsOf groups, djangoGroupName hexDigest path = name := by
  rw [List.mem_filter, mem_syncUserGroups]
  constructor
  · rintro ⟨hname, hprefix⟩
    rwa [if_pos hprefix] at hname
  · rintro ⟨path, hpath, rfl⟩
    rw [if_pos (isPrefixOf_djangoGroupName path)]
    exact ⟨⟨path, hpath, rfl⟩, isPrefixOf_djangoGroupName path⟩

/-- An account has a path's mirror exactly where its token has the path. -/
theorem djangoGroupName_mem_mirrors (hinjective : Function.Injective hexDigest)
    {path : CodePoints} : djangoGroupName hexDigest path ∈
      (syncUserGroups hexDigest groups names).filter keycloakGroupPrefix.isPrefixOf ↔
        path ∈ textsOf groups := by
  rw [mem_mirrors_iff]
  refine ⟨?_, fun hpath => ⟨path, hpath, rfl⟩⟩
  rintro ⟨path', hpath, heq⟩
  rwa [djangoGroupName_injective hinjective heq] at hpath

/-- **Which paths are read back**: those of the token that their mirror tells. -/
theorem mem_pathsBehind_iff (hinjective : Function.Injective hexDigest) (hrows : rows.AsWritten)
    (path : CodePoints) :
    path ∈ pathsBehind hexDigest rows (syncUserGroups hexDigest groups names) ↔
      path ∈ textsOf groups ∧ rows.Recognised path := by
  have hdigest : ∀ path, djangoGroupName hexDigest path ∈
      ((syncUserGroups hexDigest groups names).filter keycloakGroupPrefix.isPrefixOf).filter
        (fun name => hashedMirrorMark.isPrefixOf (name.drop keycloakGroupPrefix.length)) ↔
      path ∈ textsOf groups ∧ isVerbatim path = false := by
    intro path
    rw [List.mem_filter, djangoGroupName_mem_mirrors hinjective, isPrefixOf_drop_djangoGroupName,
      Bool.not_eq_true']
  rw [pathsBehind, List.mem_append]
  constructor
  · rintro (hverbatim | hdigested)
    · obtain ⟨name, hname, rfl⟩ := List.mem_map.mp hverbatim
      obtain ⟨hmem, hmark⟩ := List.mem_filter.mp hname
      obtain ⟨path, hpath, rfl⟩ := mem_mirrors_iff.mp hmem
      rw [isPrefixOf_drop_djangoGroupName, Bool.not_not] at hmark
      rw [drop_djangoGroupName, if_pos hmark]
      exact ⟨hpath, .inl hmark⟩
    · split at hdigested
      next => simp at hdigested
      next =>
        obtain ⟨hnamed, hmem⟩ := List.mem_filter.mp hdigested
        obtain ⟨hpath, -⟩ := (hdigest path).mp (by simpa using hmem)
        rw [digestedPaths, List.mem_eraseDups] at hnamed
        exact ⟨hpath, .inr (List.mem_filter.mp hnamed).1⟩
  · rintro ⟨hpath, hrecognised⟩
    by_cases hverbatim : isVerbatim path = true
    · left
      refine List.mem_map.mpr ⟨djangoGroupName hexDigest path, List.mem_filter.mpr ⟨?_, ?_⟩, ?_⟩
      · exact (djangoGroupName_mem_mirrors hinjective).mpr hpath
      · rw [isPrefixOf_drop_djangoGroupName, hverbatim]
        rfl
      · rw [drop_djangoGroupName, if_pos hverbatim]
    · right
      have hmem := (hdigest path).mpr ⟨hpath, by simpa using hverbatim⟩
      have hnamed : path ∈ rows.namedPaths := hrecognised.resolve_left hverbatim
      rw [if_neg (List.ne_nil_of_mem hmem)]
      refine List.mem_filter.mpr ⟨?_, by simpa using hmem⟩
      rw [digestedPaths, List.mem_eraseDups]
      refine List.mem_filter.mpr ⟨hnamed, ?_⟩
      -- what a column holds has a digest for its length or its first character
      rw [isVerbatim, hrows.storable path hnamed, Bool.and_true, Bool.and_eq_true,
        decide_eq_true_eq, Bool.not_eq_true', not_and_or, not_le] at hverbatim
      rcases hverbatim with hlong | hmark
      · rw [decide_eq_true hlong, Bool.true_or]
      · rw [Bool.not_eq_false] at hmark
        rw [hmark, Bool.or_true]

/-! ### Who may call -/

/-- **Who may call, by Management**: as the gateway has it, but for the paths that are not read
back. -/
theorem mem_callableSlugs_iff (hinjective : Function.Injective hexDigest) (hrows : rows.AsWritten)
    {username slug : CodePoints} :
    slug ∈ callableSlugs hexDigest rows username (syncUserGroups hexDigest groups names) ↔
      (∃ path ∈ textsOf groups, rows.Recognised path ∧ slugNamedBy? path = some slug) ∨
        (∃ grant ∈ rows.grants, grant.groupPath ∈ textsOf groups ∧ grant.useCase = slug) ∨
        ∃ member ∈ rows.members, member.username = username ∧ member.useCase = slug := by
  have htexts : ∀ paths : List CodePoints, textsOf (paths.map .text) = paths := by
    intro paths
    rw [textsOf, List.filterMap_map]
    exact List.filterMap_some
  rw [callableSlugs, mem_resolve_iff, htexts]
  simp only [mem_pathsBehind_iff hinjective hrows, List.mem_filter, decide_eq_true_eq,
    List.mem_map]
  refine or_congr ?_ (or_congr ?_ ?_)
  · exact exists_congr fun path => and_assoc
  · constructor
    · rintro ⟨grant, ⟨hgrant, hpath, -⟩, -, rfl⟩
      exact ⟨grant, hgrant, hpath, rfl⟩
    · rintro ⟨grant, hgrant, hpath, rfl⟩
      have hnamed : grant.groupPath ∈ rows.namedPaths :=
        List.mem_append_left _ (List.mem_map_of_mem hgrant)
      exact ⟨grant, ⟨hgrant, hpath, .inr hnamed⟩, ⟨hpath, .inr hnamed⟩, rfl⟩
  · constructor
    · rintro ⟨-, ⟨member, ⟨hmember, hname⟩, rfl⟩, rfl⟩
      exact ⟨member, hmember, hname, rfl⟩
    · rintro ⟨member, hmember, hname, rfl⟩
      exact ⟨_, ⟨member, ⟨hmember, hname⟩, rfl⟩, rfl⟩

/-- **Who may call, by the gateway.** -/
theorem mem_useCasesOf_iff {grants : List GroupGrant} {members : List Membership}
    {username slug : CodePoints} (hname : username ≠ []) :
    slug ∈ (useCasesOf grants members groups (some username)).map (·.1) ↔
      (∃ path ∈ textsOf groups, slugNamedBy? path = some slug) ∨
        (∃ grant ∈ grants, grant.groupPath ∈ textsOf groups ∧ grant.useCase = slug) ∨
        ∃ member ∈ members, member.username = username ∧ member.useCase = slug := by
  have hsome : (some username).filter (· ≠ []) = some username :=
    Option.filter_some_pos (by simpa using hname)
  rw [useCasesOf, mem_resolve_iff, hsome]
  simp only [Option.any_some, List.mem_map, List.mem_filter, decide_eq_true_eq]
  refine or_congr_right (or_congr_right ?_)
  constructor
  · rintro ⟨-, ⟨member, ⟨hmember, hname⟩, rfl⟩, rfl⟩
    exact ⟨member, hmember, hname.symm, rfl⟩
  · rintro ⟨member, hmember, hname, rfl⟩
    exact ⟨_, ⟨member, ⟨hmember, hname.symm⟩, rfl⟩, rfl⟩

/-! ### What a role allows -/

/-- A built-in role is conferred by the groups configured for it. -/
theorem value_mem_rolesFromGroups {groups : List CodePoints} {role : Role} :
    role.value ∈ rolesFromGroups groups mapping ↔
      ∃ path ∈ (dictGet mapping role).getD [], path ∈ groups := by
  have hvalue : Function.Injective Role.value := by
    intro role role' heq
    cases role <;> cases role' <;> first | rfl | exact absurd heq (by decide)
  have hall : role ∈ Role.all := by cases role <;> decide
  rw [rolesFromGroups, List.mem_map_of_injective hvalue, List.mem_filter]
  rcases dictGet mapping role with _ | paths
  · simp
  · simp [hall]

/-- **A role is held on one plane exactly where it is on the other.** -/
theorem mem_heldRolesOf_iff (hinjective : Function.Injective hexDigest) {role : RoleDefinition} :
    role ∈ heldRolesOf hexDigest (roleDefinitions rows mapping strictData)
        (syncUserGroups hexDigest groups (syncUserRoles mapping groups names)) ↔
      role ∈ heldRoles groups (roleDefinitions rows mapping strictData) := by
  refine List.mem_filter.trans (Iff.trans (and_congr_right fun hrole => ?_) List.mem_filter.symm)
  rcases List.mem_append.mp hrole with hbuiltin | hcustom
  · obtain ⟨builtin, -, rfl⟩ := List.mem_map.mp hbuiltin
    have hslug : keycloakGroupPrefix.isPrefixOf builtin.value = false := by
      cases builtin <;> decide
    simp only [if_true, decide_eq_true_eq, List.mem_filter, mem_syncUserGroups, hslug,
      Bool.false_eq_true, if_false, Bool.not_false, and_true, mem_syncUserRoles,
      value_mem_rolesFromGroups, List.any_eq_true]
  · obtain ⟨row, -, rfl⟩ := List.mem_map.mp hcustom
    simp only [Bool.false_eq_true, if_false, List.any_eq_true, decide_eq_true_eq,
      djangoGroupName_mem_mirrors hinjective]

/-- **Both planes know the same roles**, of rows as Management writes them, but for what they call
them. -/
theorem effective_definitions (hrows : rows.AsWritten) :
    effective groups (roleDefinitions rows mapping strictData) =
      effective groups (resolverDefinitions rows mapping strictData) := by
  have hsteuerung : rows.roles.find? (·.slug = Role.itSteuerung.value) =
      rows.roles.find? fun row => row.slug = Role.itSteuerung.value && row.builtin := by
    rw [← List.head?_filter, ← List.head?_filter]
    refine congrArg List.head? (List.filter_congr fun row hrow => ?_)
    rcases hbuiltin : row.builtin with _ | _
    · have hslug : row.slug ≠ Role.itSteuerung.value := fun heq =>
        hrows.custom row hrow hbuiltin (by rw [heq]; decide)
      simp [hslug]
    · simp
  have hcustom : (rows.roles.filter fun row => !row.builtin) =
      rows.roles.filter fun row => !row.builtin && row.slug ∉ Role.all.map Role.value := by
    refine List.filter_congr fun row hrow => ?_
    rcases hbuiltin : row.builtin with _ | _
    · have hslug := hrows.custom row hrow hbuiltin
      simp [hslug]
    · simp
  ext permission
  rw [mem_effective, mem_effective, roleDefinitions, resolverDefinitions, hsteuerung, hcustom]
  simp only [List.mem_append, List.mem_map, or_and_right, exists_or]
  refine or_congr_right ?_
  constructor
  · rintro ⟨-, ⟨row, hrow, rfl⟩, hheld, hpermission⟩
    exact ⟨_, ⟨row, hrow, rfl⟩, hheld, hpermission⟩
  · rintro ⟨-, ⟨row, hrow, rfl⟩, hheld, hpermission⟩
    exact ⟨_, ⟨row, hrow, rfl⟩, hheld, hpermission⟩

end ReadBack

/-- Every use case that a path of the token names itself is reached by a path that is read back, by
a grant to a group of the token, or by a grant naming the caller. -/
def ConventionReadBack (rows : AccessRows) (groups : List ListValue) (username : CodePoints) :
    Prop :=
  ∀ path ∈ textsOf groups, ¬rows.Recognised path → ∀ slug, slugNamedBy? path = some slug →
    (∃ other ∈ textsOf groups, rows.Recognised other ∧ slugNamedBy? other = some slug) ∨
      (∃ grant ∈ rows.grants, grant.groupPath ∈ textsOf groups ∧ grant.useCase = slug) ∨
      ∃ member ∈ rows.members, member.username = username ∧ member.useCase = slug

/-- **Both planes answer alike** who may call and what a role allows, whatever groups a token
carries and whatever the account's groups were before, exactly where every path that names its use
case itself is read back, or the use case is reached otherwise. -/
theorem planes_agree_iff (hexDigest : CodePoints → CodePoints)
    (hinjective : Function.Injective hexDigest) (rows : AccessRows) (hrows : rows.AsWritten)
    (mapping : RoleGroups) (strictData : Bool) (groups : List ListValue)
    (username : CodePoints) (hname : username ≠ []) (names : List CodePoints) :
    let synced := syncUserGroups hexDigest groups (syncUserRoles mapping groups names)
    ((∀ slug, slug ∈ callableSlugs hexDigest rows username synced ↔
        slug ∈ (useCasesOf rows.grants rows.members groups (some username)).map (·.1)) ∧
      permissionsOf hexDigest (roleDefinitions rows mapping strictData) synced =
        effective groups (resolverDefinitions rows mapping strictData)) ↔
    ConventionReadBack rows groups username := by
  intro synced
  have hpermissions : permissionsOf hexDigest (roleDefinitions rows mapping strictData) synced =
      effective groups (resolverDefinitions rows mapping strictData) := by
    rw [← effective_definitions hrows]
    ext permission
    rw [permissionsOf, mem_permissionsOfRoles, effective, mem_permissionsOfRoles]
    exact exists_congr fun role => and_congr_left fun _ => mem_heldRolesOf_iff hinjective
  simp only [hpermissions, and_true, synced, mem_callableSlugs_iff hinjective hrows,
    mem_useCasesOf_iff hname]
  constructor
  · intro hsame path hpath _ slug hslug
    exact (hsame slug).mpr (.inl ⟨path, hpath, hslug⟩)
  · intro hread slug
    constructor
    · rintro (⟨path, hpath, -, hslug⟩ | hother)
      · exact .inl ⟨path, hpath, hslug⟩
      · exact .inr hother
    · rintro (⟨path, hpath, hslug⟩ | hother)
      · by_cases hrecognised : rows.Recognised path
        · exact .inl ⟨path, hpath, hrecognised, hslug⟩
        · exact hread path hpath hrecognised slug hslug
      · exact .inr hother

/-- A grant to one group, and a role of another. -/
def financeRows : AccessRows where
  grants := [{ groupPath := "/finance", useCase := "ledger", role := "admin" }]
  members := [{ username := "ada", useCase := "notes", role := "user" }]
  roles := [{ slug := "auditor", label := "Auditor", groupPath := "/audit",
              permissions := [.text "report.read_all", .other] }]

/-- A caller in both groups, who also names a use case by a path, may do the same on both planes. -/
theorem finance_planes_agree :
    let groups : List ListValue :=
      [.text "/finance", .other, .text "/audit", .text "/use-cases/pilot/"]
    let synced := syncUserGroups id groups (syncUserRoles [] groups ["kc:/left", "it-security"])
    (∀ slug, slug ∈ callableSlugs id financeRows "ada" synced ↔
        slug ∈ (useCasesOf financeRows.grants financeRows.members groups (some "ada")).map (·.1)) ∧
      permissionsOf id (roleDefinitions financeRows [] true) synced =
        effective groups (resolverDefinitions financeRows [] true) := by
  refine (planes_agree_iff id Function.injective_id financeRows ⟨by decide, by decide, by decide⟩
    [] true [.text "/finance", .other, .text "/audit", .text "/use-cases/pilot/"] "ada" (by decide)
    ["kc:/left", "it-security"]).mpr fun path hpath hunrecognised => ?_
  have hverbatim : ∀ path ∈ textsOf [.text "/finance", .other, .text "/audit",
      .text "/use-cases/pilot/"], isVerbatim path = true := by
    decide
  exact absurd (.inl (hverbatim path hpath)) hunrecognised

/-- A use case named by a path of a deep directory. -/
def deepPath : CodePoints :=
  points (("/use-cases/Konzern/Geschaeftsbereich Finanzen und Controlling/" : Text) ++
    "Konzernrechnungswesen und Steuern/Team Konsolidierung und Berichterstattung/" ++
    "Arbeitsgruppe IFRS/pilot")

/-- **A path too long for a mirror's name is not read back**, and the use case it names is one the
gateway serves and Management does not. -/
theorem long_path_forgotten :
    ("pilot" : CodePoints) ∈ (useCasesOf [] [] [.text deepPath] (some "ada")).map (·.1) ∧
      ∀ hexDigest, Function.Injective hexDigest →
        ("pilot" : CodePoints) ∉ callableSlugs hexDigest {} "ada"
          (syncUserGroups hexDigest [.text deepPath] (syncUserRoles [] [.text deepPath] [])) := by
  refine ⟨by decide +kernel, fun hexDigest hinjective hcallable => ?_⟩
  have hrows : ({} : AccessRows).AsWritten := ⟨by decide, by decide, by decide⟩
  rcases (mem_callableSlugs_iff hinjective hrows).mp hcallable with
    ⟨path, hpath, hrecognised, -⟩ | ⟨grant, hgrant, -⟩ | ⟨member, hmember, -⟩
  · obtain rfl : path = deepPath := List.mem_singleton.mp hpath
    rcases hrecognised with hverbatim | hnamed
    · exact absurd hverbatim (by decide +kernel)
    · exact absurd hnamed List.not_mem_nil
  · exact absurd hgrant List.not_mem_nil
  · exact absurd hmember List.not_mem_nil

end AiraGateway.Access
