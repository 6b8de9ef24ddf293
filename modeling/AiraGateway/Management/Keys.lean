import AiraGateway.Library.Runs
import AiraGateway.Management.Routes

/-!
# API keys under concurrent requests

Keys are issued by one route and revoked by several: one by one, with the access of their owner, and
with their use case. The routes run side by side, each seeing what is committed and what it wrote
itself, and can be given up between any two statements.

* `key_events_describe`: the last event that stands of a key says what its committed row says.
* `key_revocation_final`: a key that is there keeps its number and its owner, and is never active
  again once it is not.
-/

namespace AiraGateway.Routes

variable {U P N F : Type}

/-! ### What the events say of a key -/

def Slot.isKey : Slot U P → Bool
  | .apiKey _ => true
  | _ => false

/-- The last of some events that is about a key. -/
def lastTold [DecidableEq U] [DecidableEq P] (p : ℕ) (events : List (Event U P N F)) :
    Option (Event U P N F) :=
  (events.filter (·.slot = .apiKey p)).getLast?

/-- The last event of a key says what its row says: nothing of a key there is not, the owner of one
that is active, and of another that it is revoked. -/
def Describes (p : ℕ) (last : Option (Event U P N F)) : Option (Row U N F) → Prop
  | none => last = none
  | some ⟨_, .apiKey owner true⟩ => last = some ⟨.apiKey p, some (.apiKey owner true)⟩
  | some ⟨_, .apiKey _ false⟩ => last = some ⟨.apiKey p, none⟩
  | some _ => False

/-! ### Statements that leave the keys in order -/

/-- Statements none of which tells of a key by itself, and which revoke only keys that are seen, or
are seen to be active before. -/
def Calm (seen : ℕ → Prop) : List (Stmt U P N F) → Prop
  | [] => True
  | .requireActive p :: rest => Calm (fun q => q = p ∨ seen q) rest
  | .revokeKey p :: rest => seen p ∧ Calm seen rest
  | .consider p _ :: rest => seen p ∧ Calm seen rest
  | .upsert slot _ :: rest => slot.isKey = false ∧ Calm seen rest
  | .delete slot :: rest => slot.isKey = false ∧ Calm seen rest
  | .announce slot :: rest => slot.isKey = false ∧ Calm seen rest
  | .announceEnd slot :: rest => slot.isKey = false ∧ Calm seen rest
  | _ :: rest => Calm seen rest

theorem Calm.mono {seen seen' : ℕ → Prop} {todo : List (Stmt U P N F)} (h : Calm seen todo)
    (himp : ∀ p, seen p → seen' p) : Calm seen' todo := by
  induction todo generalizing seen seen' with
  | nil => trivial
  | cons stmt rest ih =>
    cases stmt with
    | requireActive p => exact ih h fun q => Or.imp_right (himp q)
    | revokeKey p => exact ⟨himp p h.1, ih h.2 himp⟩
    | consider p user => exact ⟨himp p h.1, ih h.2 himp⟩
    | upsert slot fields => exact ⟨h.1, ih h.2 himp⟩
    | delete slot => exact ⟨h.1, ih h.2 himp⟩
    | announce slot => exact ⟨h.1, ih h.2 himp⟩
    | announceEnd slot => exact ⟨h.1, ih h.2 himp⟩
    | _ => exact ih h himp

theorem Calm.append {seen : ℕ → Prop} {todo more : List (Stmt U P N F)} (h : Calm seen todo)
    (h' : Calm seen more) : Calm seen (todo ++ more) := by
  induction todo generalizing seen with
  | nil => exact h'
  | cons stmt rest ih =>
    cases stmt with
    | requireActive p => exact ih h (h'.mono fun q => Or.inr)
    | revokeKey p => exact ⟨h.1, ih h.2 h'⟩
    | consider p user => exact ⟨h.1, ih h.2 h'⟩
    | upsert slot fields => exact ⟨h.1, ih h.2 h'⟩
    | delete slot => exact ⟨h.1, ih h.2 h'⟩
    | announce slot => exact ⟨h.1, ih h.2 h'⟩
    | announceEnd slot => exact ⟨h.1, ih h.2 h'⟩
    | _ => exact ih h h'

theorem calm_addMember (seen : ℕ → Prop) (user : U) (role : Access.GrantRole) :
    Calm seen (addMember user role : List (Stmt U P N F)) := ⟨rfl, trivial⟩

theorem calm_issueAttempt (seen : ℕ → Prop) (owner : U) (left : ℕ) :
    Calm seen (issueAttempt owner left : List (Stmt U P N F)) := trivial

theorem calm_endAccess (seen : ℕ → Prop) : Calm seen (endAccess : List (Stmt U P N F)) := trivial

theorem calm_statements [DecidableEq U] (seen : ℕ → Prop) (route : Route U P N F) :
    Calm seen route.statements := by
  cases route with
  | members user role => exact ⟨rfl, trivial⟩
  | removeMember user => exact ⟨rfl, trivial⟩
  | groupGrants path role => exact ⟨rfl, trivial⟩
  | revokeGroupGrant path => exact ⟨rfl, trivial⟩
  | issueApiKey caller owner managesAll =>
    rw [Route.statements, issueApiKey]
    refine Calm.append (Calm.append ?_ ?_) (calm_issueAttempt seen owner _)
    · split_ifs <;> trivial
    · split_ifs <;> trivial
  | revokeApiKey p => exact ⟨.inl rfl, trivial⟩
  | saveChild kind name change => trivial
  | deleteChild kind id => exact ⟨rfl, trivial⟩
  | pipeline fields => trivial
  | performUpdate change => trivial
  | retire => trivial

theorem calm_revocations {seen : ℕ → Prop} {keys : List (ℕ × U)} (h : ∀ key ∈ keys, seen key.1) :
    Calm seen (keys.map fun key => .revokeKey key.1 : List (Stmt U P N F)) := by
  induction keys with
  | nil => trivial
  | cons key rest ih =>
    rw [List.forall_mem_cons] at h
    exact ⟨h.1, ih h.2⟩

theorem calm_sweep {seen : ℕ → Prop} {keys : List (ℕ × U)} (h : ∀ key ∈ keys, seen key.1) :
    Calm seen (keys.flatMap fun key => [.ask key.2, .consider key.1 key.2] :
      List (Stmt U P N F)) := by
  induction keys with
  | nil => trivial
  | cons key rest ih =>
    rw [List.forall_mem_cons] at h
    exact ⟨h.1, ih h.2⟩

theorem calm_ends {seen : ℕ → Prop} {slots : List (Slot U P)}
    (h : ∀ slot ∈ slots, slot.isKey = false) :
    Calm seen (slots.map .announceEnd : List (Stmt U P N F)) := by
  induction slots with
  | nil => trivial
  | cons slot rest ih =>
    rw [List.forall_mem_cons] at h
    exact ⟨h.1, ih h.2⟩

/-! ### What a statement does to the keys -/

variable {w : World U P N F} {i : ℕ} {s : Session U P N F}

/-- A session sees a row of a key. -/
def Seen (w : World U P N F) (i p : ℕ) : Prop := w.table.view i (.apiKey p) ≠ none

/-- What executing a statement may do to the keys: nothing, or issue or revoke one, of which it then
tells. -/
inductive Fits (w : World U P N F) (i : ℕ) : Outcome U P N F → Prop
  | waits : Fits w i .waits
  | goesOn {next : Session U P N F} (h : Calm (Seen w i) next.todo) : Fits w i (.goesOn next)
  | writes {slot : Slot U P} {row : Option (Row U N F)} {next : Session U P N F}
      (hslot : slot.isKey = false) (hblocked : w.table.blocked i slot = false)
      (h : Calm (Seen w i) next.todo) : Fits w i (.writes slot row next)
  | issues {p id : ℕ} {owner : U} {next : Session U P N F} {rest : List (Stmt U P N F)}
      (hblocked : w.table.blocked i (.apiKey p) = false)
      (hview : w.table.view i (.apiKey p) = none)
      (htodo : next.todo = .announce (.apiKey p) :: rest) (h : Calm (Seen w i) rest) :
      Fits w i (.writes (.apiKey p) (some ⟨id, .apiKey owner true⟩) next)
  | revokes {p id : ℕ} {owner : U} {was : Bool} {next : Session U P N F}
      {rest : List (Stmt U P N F)} (hblocked : w.table.blocked i (.apiKey p) = false)
      (hview : w.table.view i (.apiKey p) = some ⟨id, .apiKey owner was⟩)
      (htodo : next.todo = .announceEnd (.apiKey p) :: rest) (h : Calm (Seen w i) rest) :
      Fits w i (.writes (.apiKey p) (some ⟨id, .apiKey owner false⟩) next)
  | tells {event : Event U P N F} {next : Session U P N F} (hslot : event.slot.isKey = false)
      (h : Calm (Seen w i) next.todo) : Fits w i (.tells event next)
  | commits : Fits w i .commits
  | fails {again : Option (Session U P N F)} (h : ∀ s ∈ again, Calm (fun _ => False) s.todo) :
      Fits w i (.fails again)

@[simp]
theorem todo_forgetFor (slot : Slot U P) : (s.forgetFor slot).todo = s.todo := by
  cases slot <;> rfl

/-- A row of another kind is saved or deleted. -/
theorem fits_save {slot : Slot U P} {row : Option (Row U N F)} {next : Stmt U P N F}
    (hslot : slot.isKey = false) (h : Calm (Seen w i) (next :: s.todo)) :
    Fits w i (save w i s slot row next) := by
  rw [save]
  split_ifs with hblocked
  · exact .waits
  · exact .writes hslot (Bool.eq_false_iff.mpr hblocked) (by rwa [todo_forgetFor])

theorem seen_of_mem_activeKeys {key : ℕ × U} (h : key ∈ activeKeys w i) : Seen w i key.1 := by
  obtain ⟨slot, -, hslot⟩ := List.mem_filterMap.mp h
  split at hslot
  · next hview =>
    cases hslot
    rw [Seen, hview]
    exact Option.some_ne_none _
  · cases hslot

theorem isKey_of_covers {kind : Ended} {slot : Slot U P} (h : kind.covers slot = true) :
    slot.isKey = false := by
  cases slot with
  | apiKey p => cases kind <;> cases h
  | _ => rfl

theorem fits_saveNamed [DecidableEq N] {kind : ChildKind} {name : N} {change : Option F → F}
    (h : Calm (Seen w i) s.todo) : Fits w i (saveNamed w i s kind name change) := by
  rw [saveNamed]
  split
  · next slot hslot =>
    split
    · have hkey : slot.isKey = false := by
        obtain ⟨row, -, hnamed⟩ := SharedTable.mem_select.mp (List.mem_of_mem_head? hslot)
        cases slot with
        | apiKey p => cases hnamed
        | _ => rfl
      exact fits_save hkey ⟨hkey, h⟩
    · exact .waits
  · split_ifs
    · exact .waits
    · exact fits_save rfl ⟨rfl, h⟩

theorem fits_deleteFound {slot : Slot U P} (hslot : slot.isKey = false)
    (h : Calm (Seen w i) s.todo) : Fits w i (deleteFound w i s slot) := by
  have hnext : Calm (Seen w i) (.announceEnd slot :: s.todo) := ⟨hslot, h⟩
  rw [deleteFound]
  split
  · split_ifs
    · exact fits_save hslot hnext
    · exact .goesOn (by rwa [todo_forgetFor])
  · exact .goesOn (by rwa [todo_forgetFor])
  · exact .goesOn hnext

/-- **What a statement does to the keys**, where the rows a session sees of keys are keys. -/
theorem outcome_fits [DecidableEq U] [DecidableEq P] [DecidableEq N] (held : U → List P)
    (draw : ℕ) {stmt : Stmt U P N F}
    (hrows : ∀ p row, w.table.view i (.apiKey p) = some row →
      ∃ owner active, row.fields = .apiKey owner active)
    (h : Calm (Seen w i) (stmt :: s.todo)) : Fits w i (outcome w i s held draw stmt) := by
  cases stmt with
  | ask user =>
    rw [outcome]
    split
    · exact .goesOn h
    · exact .goesOn h
  | askGroups user direct => exact .goesOn h
  | require user =>
    rw [outcome]
    split_ifs
    · exact .goesOn h
    · exact .fails nofun
  | requireActive p =>
    rw [outcome]
    split
    · next hview =>
      have hrest : Calm (fun q => q = p ∨ Seen w i q) s.todo := h
      refine .goesOn (hrest.mono fun q => ?_)
      rintro (rfl | hseen)
      · rw [Seen, hview]
        exact Option.some_ne_none _
      · exact hseen
    · exact .fails nofun
  | find slot => exact .goesOn h
  | requireFound =>
    rw [outcome]
    split_ifs
    · exact .goesOn h
    · exact .fails nofun
  | begin => exact .goesOn h
  | upsert slot fields => exact fits_save h.1 ⟨h.1, h.2⟩
  | saveChild kind name change => exact fits_saveNamed h
  | saveUseCase change =>
    rw [outcome]
    split
    · exact fits_save rfl ⟨rfl, h⟩
    · exact .fails nofun
  | savePipeline fields =>
    rw [outcome, savePipelineFields]
    split
    · exact .fails nofun
    · exact fits_save rfl ⟨rfl, h⟩
  | delete slot => exact fits_deleteFound h.1 h.2
  | announce slot =>
    rw [outcome]
    split
    · exact .tells h.1 h.2
    · exact .fails nofun
  | announceEnd slot => exact .tells h.1 h.2
  | admitUnlessGranted user =>
    rw [outcome]
    split_ifs
    · exact .goesOn h
    · exact .goesOn ((calm_addMember _ user .user).append h)
  | insertKey owner left =>
    simp only [outcome]
    split_ifs with hblocked htaken
    · exact .waits
    · refine .fails ?_
      cases left with
      | zero => exact nofun
      | succ left =>
        intro s hs
        cases hs
        exact calm_issueAttempt _ owner left
    · rw [save, if_neg hblocked]
      refine .issues (Bool.eq_false_iff.mpr hblocked) ?_ (todo_forgetFor _) h
      simpa using htaken
  | revokeKey p =>
    rw [outcome]
    split
    · next id owner was hview =>
      rw [save]
      split_ifs with hblocked
      · exact .waits
      · exact .revokes (Bool.eq_false_iff.mpr hblocked) hview (todo_forgetFor _) h.2
    · next hview =>
      obtain ⟨⟨id, fields⟩, hrow⟩ := Option.ne_none_iff_exists'.mp h.1
      obtain ⟨owner, active, rfl⟩ := hrows p _ hrow
      exact absurd hrow (hview id owner active)
  | sweep =>
    exact .goesOn ((calm_sweep fun key hkey => seen_of_mem_activeKeys hkey).append h)
  | consider p user =>
    rw [outcome]
    split_ifs
    · exact .goesOn h.2
    · exact .goesOn h
  | retireRow =>
    rw [outcome]
    split
    · exact fits_save rfl ⟨rfl, (calm_endAccess _).append h⟩
    · exact .goesOn h
  | endKeys =>
    exact .goesOn ((calm_revocations fun key hkey => seen_of_mem_activeKeys hkey).append h)
  | endRows kind =>
    refine .goesOn ((calm_ends fun slot hslot => ?_).append h)
    obtain ⟨row, -, hcovers⟩ := SharedTable.mem_select.mp hslot
    exact isKey_of_covers hcovers
  | commit => exact .commits

/-! ### The keys in order -/

/-- What a session has still to run: it tells first of a key it has issued or revoked, and holds. -/
inductive Orderly (w : World U P N F) (i : ℕ) : List (Stmt U P N F) → Prop
  | calm {todo : List (Stmt U P N F)} (h : Calm (Seen w i) todo) : Orderly w i todo
  | announces {p id : ℕ} {owner : U} {rest : List (Stmt U P N F)}
      (hpending : w.table.pending (.apiKey p) = some (i, some ⟨id, .apiKey owner true⟩))
      (h : Calm (Seen w i) rest) : Orderly w i (.announce (.apiKey p) :: rest)
  | ends {p id : ℕ} {owner : U} {rest : List (Stmt U P N F)}
      (hpending : w.table.pending (.apiKey p) = some (i, some ⟨id, .apiKey owner false⟩))
      (h : Calm (Seen w i) rest) : Orderly w i (.announceEnd (.apiKey p) :: rest)

/-- A session of a set has still to tell of a key. -/
def Announcing (w : World U P N F) (T : ℕ → Bool) (p : ℕ) : Prop :=
  ∃ i s, T i = true ∧ w.sessions i = some s ∧
    (s.todo.head? = some (.announce (.apiKey p)) ∨ s.todo.head? = some (.announceEnd (.apiKey p)))

/-- A key's row, and what an open transaction would make of it: the same key, not active again. -/
def Succeeds (row row' : Row U N F) : Prop :=
  ∃ owner was active, row = ⟨row'.id, .apiKey owner was⟩ ∧ row'.fields = .apiKey owner active ∧
    (active = true → was = true)

theorem Succeeds.refl_of_key {row : Row U N F} {owner : U} {active : Bool}
    (h : row.fields = .apiKey owner active) : Succeeds row row :=
  ⟨owner, active, active, by rw [← h], h, fun hactive => hactive⟩

theorem Succeeds.trans {first second third : Row U N F} (h : Succeeds first second)
    (h' : Succeeds second third) : Succeeds first third := by
  obtain ⟨owner, was, active, rfl, hfields, hback⟩ := h
  obtain ⟨owner', was', active', rfl, hfields', hback'⟩ := h'
  cases hfields
  exact ⟨owner, was, active', rfl, hfields', fun hactive => hback (hback' hactive)⟩

/-- The keys are in order: their rows are keys, an open transaction has only issued or revoked them,
and whichever of the open transactions commit, the last event of each says what its row says, or is
about to be told. -/
structure KeysKept [DecidableEq U] [DecidableEq P] (w : World U P N F) : Prop where
  rows : ∀ p row, w.table.rows (.apiKey p) = some row →
    ∃ owner active, row.fields = .apiKey owner active
  pending : ∀ p i v, w.table.pending (.apiKey p) = some (i, v) →
    ∃ id owner active, v = some ⟨id, .apiKey owner active⟩ ∧
      ∀ row, w.table.rows (.apiKey p) = some row → Succeeds row ⟨id, .apiKey owner active⟩
  orderly : ∀ i s, w.sessions i = some s → Orderly w i s.todo
  told : ∀ T p, Announcing w T p ∨
    Describes p (lastTold p (w.table.logIf T)) (w.table.rowIf T (.apiKey p))

theorem Orderly.mono {w w' : World U P N F} {todo : List (Stmt U P N F)} (h : Orderly w i todo)
    (hseen : ∀ p, Seen w i p → Seen w' i p)
    (hpending : ∀ p v, w.table.pending (.apiKey p) = some (i, v) →
      w'.table.pending (.apiKey p) = some (i, v)) : Orderly w' i todo := by
  cases h with
  | calm h => exact .calm (h.mono hseen)
  | announces hheld h => exact .announces (hpending _ _ hheld) (h.mono hseen)
  | ends hheld h => exact .ends (hpending _ _ hheld) (h.mono hseen)

/-- Who has nothing to tell of a key goes on with something else. -/
theorem Calm.head_ne {seen : ℕ → Prop} {todo : List (Stmt U P N F)} (h : Calm seen todo) (p : ℕ) :
    todo.head? ≠ some (.announce (.apiKey p)) ∧ todo.head? ≠ some (.announceEnd (.apiKey p)) := by
  constructor
  · rintro hhead
    obtain ⟨rest, rfl⟩ := List.head?_eq_some_iff.mp hhead
    exact absurd (show true = false from h.1) (by decide)
  · rintro hhead
    obtain ⟨rest, rfl⟩ := List.head?_eq_some_iff.mp hhead
    exact absurd (show true = false from h.1) (by decide)

/-- Only another session's announcements are left where a session had none. -/
theorem Announcing.other {w w' : World U P N F} {T T' : ℕ → Bool} {p : ℕ} (h : Announcing w T p)
    (hcalm : ∀ s, w.sessions i = some s → s.todo.head? ≠ some (.announce (.apiKey p)) ∧
      s.todo.head? ≠ some (.announceEnd (.apiKey p)))
    (hsessions : ∀ j, j ≠ i → w'.sessions j = w.sessions j)
    (hT : ∀ j, j ≠ i → T j = true → T' j = true) : Announcing w' T' p := by
  obtain ⟨j, s, hj, hs, htells⟩ := h
  have hne : j ≠ i := by
    rintro rfl
    obtain ⟨hannounce, hend⟩ := hcalm s hs
    exact htells.elim hannounce hend
  exact ⟨j, s, hT j hne hj, by rw [hsessions j hne]; exact hs, htells⟩

/-- A session has nothing to tell of a key. -/
def Silent (w : World U P N F) (i : ℕ) : Prop :=
  ∀ s, w.sessions i = some s → ∀ p, s.todo.head? ≠ some (.announce (.apiKey p)) ∧
    s.todo.head? ≠ some (.announceEnd (.apiKey p))

theorem Announcing.update {w w' : World U P N F} {next : Option (Session U P N F)}
    {T T' : ℕ → Bool} {p : ℕ} (h : Announcing w T p) (hsilent : Silent w i)
    (hsessions : w'.sessions = Function.update w.sessions i next)
    (hT : ∀ j, j ≠ i → T j = true → T' j = true) : Announcing w' T' p :=
  h.other (fun s hs => hsilent s hs p)
    (fun j hj => by rw [hsessions, Function.update_of_ne hj]) hT

/-- A session that has a key locked is the only one to see what it made of it. -/
theorem view_eq_rows_of_not_blocked {t : SharedTable ℕ (Slot U P) (Row U N F) (Event U P N F)}
    {j : ℕ} {slot : Slot U P} (hblocked : t.blocked i slot = false) (hne : j ≠ i) :
    t.view j slot = t.rows slot := by
  refine SharedTable.view_of_not_held ?_
  rintro ⟨v, hpending⟩
  exact hne (SharedTable.blocked_eq_false_iff.mp hblocked j v hpending)

section Steps

variable [DecidableEq U] [DecidableEq P] {w' : World U P N F} {next : Option (Session U P N F)}

theorem KeysKept.view (h : KeysKept w) {p : ℕ} {row : Row U N F}
    (hview : w.table.view i (.apiKey p) = some row) :
    ∃ owner active, row.fields = .apiKey owner active := by
  by_cases hheld : w.table.Held i (.apiKey p)
  · obtain ⟨v, hpending⟩ := hheld
    obtain ⟨id, owner, active, rfl, -⟩ := h.pending p i v hpending
    rw [SharedTable.view_of_pending hpending] at hview
    cases hview
    exact ⟨owner, active, rfl⟩
  · rw [SharedTable.view_of_not_held hheld] at hview
    exact h.rows p row hview

/-- A key that is there is seen by everybody. -/
theorem KeysKept.seen_of_row (h : KeysKept w) {p : ℕ} (hrow : w.table.rows (.apiKey p) ≠ none) :
    Seen w i p := by
  by_cases hheld : w.table.Held i (.apiKey p)
  · obtain ⟨v, hpending⟩ := hheld
    obtain ⟨id, owner, active, rfl, -⟩ := h.pending p i v hpending
    rw [Seen, SharedTable.view_of_pending hpending]
    exact Option.some_ne_none _
  · rw [Seen, SharedTable.view_of_not_held hheld]
    exact hrow

/-- Who has to tell of a key holds it. -/
theorem KeysKept.holds (h : KeysKept w) {p j : ℕ} (hs : w.sessions j = some s)
    (htells : s.todo.head? = some (.announce (.apiKey p)) ∨
      s.todo.head? = some (.announceEnd (.apiKey p))) :
    ∃ v, w.table.pending (.apiKey p) = some (j, v) := by
  have horderly := h.orderly j s hs
  generalize s.todo = todo at horderly htells
  cases horderly with
  | calm hcalm => exact absurd htells (not_or.mpr (hcalm.head_ne p))
  | announces hpending _ =>
    obtain hhead | hhead := htells
    · cases hhead
      exact ⟨_, hpending⟩
    · cases hhead
  | ends hpending _ =>
    obtain hhead | hhead := htells
    · cases hhead
    · cases hhead
      exact ⟨_, hpending⟩

/-- Every session is in order where one goes on in order and the others find what they found. -/
theorem KeysKept.orderly_update (h : KeysKept w)
    (hsessions : w'.sessions = Function.update w.sessions i next)
    (hseen : ∀ j ≠ i, ∀ p, Seen w j p → Seen w' j p)
    (hpending : ∀ j ≠ i, ∀ p v, w.table.pending (.apiKey p) = some (j, v) →
      w'.table.pending (.apiKey p) = some (j, v))
    (hnext : ∀ s ∈ next, Orderly w' i s.todo) :
    ∀ j s, w'.sessions j = some s → Orderly w' j s.todo := by
  intro j s hs
  rw [hsessions] at hs
  by_cases hj : j = i
  · subst hj
    rw [Function.update_self] at hs
    exact hnext s hs
  · rw [Function.update_of_ne hj] at hs
    exact (h.orderly j s hs).mono (hseen j hj) (hpending j hj)

/-- A session goes on, or one begins. -/
theorem KeysKept.goOn (h : KeysKept w) (hsilent : Silent w i)
    (hnext : ∀ s ∈ next, Calm (Seen w i) s.todo) :
    KeysKept { w with sessions := Function.update w.sessions i next } where
  rows := h.rows
  pending := h.pending
  orderly := h.orderly_update rfl (fun _ _ _ hseen => hseen) (fun _ _ _ _ hheld => hheld)
    fun s hs => .calm (hnext s hs)
  told T p := (h.told T p).imp_left fun hannouncing =>
    hannouncing.update hsilent rfl fun _ _ hj => hj

/-- A row that is no key's is written. -/
theorem KeysKept.write (h : KeysKept w) (hsilent : Silent w i) {slot : Slot U P}
    {row : Option (Row U N F)} {s : Session U P N F} {nextRow : ℕ} (hslot : slot.isKey = false)
    (hnext : Calm (Seen w i) s.todo) :
    KeysKept ⟨w.table.write i slot row, Function.update w.sessions i (some s), nextRow⟩ := by
  have hne : ∀ p, Slot.apiKey p ≠ slot := by
    rintro p rfl
    cases hslot
  have hseen : ∀ j p, Seen w j p →
      Seen ⟨w.table.write i slot row, Function.update w.sessions i (some s), nextRow⟩ j p := by
    intro j p hseen
    rw [Seen, SharedTable.view_write_of_ne (hne p)]
    exact hseen
  refine ⟨h.rows, fun p j v hpending => ?_, ?_, fun T p => ?_⟩
  · rw [SharedTable.pending_write_of_ne (hne p)] at hpending
    exact h.pending p j v hpending
  · refine h.orderly_update rfl (fun j _ => hseen j) (fun j _ p v hheld => ?_) fun s' hs' => ?_
    · exact (SharedTable.pending_write_of_ne (hne p)).trans hheld
    · cases hs'
      exact .calm (hnext.mono (hseen i))
  · refine (h.told T p).imp (fun hannouncing => hannouncing.update hsilent rfl fun _ _ hj => hj) ?_
    intro hdescribes
    rw [SharedTable.rowIf_write_of_ne (hne p)]
    exact hdescribes

/-- A key is issued or revoked, of which its session tells next. -/
theorem KeysKept.writeKey (h : KeysKept w) (hsilent : Silent w i) {p id : ℕ} {owner : U}
    {active : Bool} {s : Session U P N F} {nextRow : ℕ}
    (hblocked : w.table.blocked i (.apiKey p) = false)
    (hrow : ∀ row, w.table.rows (.apiKey p) = some row → Succeeds row ⟨id, .apiKey owner active⟩)
    (htells : s.todo.head? = some (.announce (.apiKey p)) ∨
      s.todo.head? = some (.announceEnd (.apiKey p)))
    (hnext : Orderly ⟨w.table.write i (.apiKey p) (some ⟨id, .apiKey owner active⟩),
      Function.update w.sessions i (some s), nextRow⟩ i s.todo) :
    KeysKept ⟨w.table.write i (.apiKey p) (some ⟨id, .apiKey owner active⟩),
      Function.update w.sessions i (some s), nextRow⟩ := by
  refine ⟨h.rows, fun q j v hpending => ?_, ?_, fun T q => ?_⟩
  · by_cases hq : q = p
    · subst hq
      rw [SharedTable.pending_write_self] at hpending
      cases hpending
      exact ⟨id, owner, active, rfl, hrow⟩
    · rw [SharedTable.pending_write_of_ne (fun heq => hq (Slot.apiKey.inj heq))] at hpending
      exact h.pending q j v hpending
  · refine h.orderly_update rfl (fun j hj q hseen => ?_) (fun j hj q v hheld => ?_) fun s' hs' => ?_
    · by_cases hq : q = p
      · subst hq
        have hview : (w.table.write i (.apiKey q) (some ⟨id, .apiKey owner active⟩)).view j
            (.apiKey q) = w.table.view j (.apiKey q) := by
          rw [view_eq_rows_of_not_blocked hblocked hj, SharedTable.view_of_not_held]
          · rfl
          · rintro ⟨v, hheld⟩
            rw [SharedTable.pending_write_self] at hheld
            cases hheld
            exact hj rfl
        rw [Seen, hview]
        exact hseen
      · rw [Seen, SharedTable.view_write_of_ne fun heq => hq (Slot.apiKey.inj heq)]
        exact hseen
    · refine (SharedTable.pending_write_of_ne ?_).trans hheld
      rintro heq
      cases heq
      exact hj (SharedTable.blocked_eq_false_iff.mp hblocked j v hheld)
    · cases hs'
      exact hnext
  · by_cases hT : q = p ∧ T i = true
    · obtain ⟨rfl, hT⟩ := hT
      exact .inl ⟨i, s, hT, Function.update_self .., htells⟩
    · refine (h.told T q).imp (fun htelling => htelling.update hsilent rfl fun _ _ hj => hj) ?_
      intro hdescribes
      rw [SharedTable.rowIf_write hblocked, if_neg]
      · exact hdescribes
      · exact fun hboth => hT ⟨Slot.apiKey.inj hboth.2, hboth.1⟩

theorem lastTold_append_of_ne {T : ℕ → Bool} {event : Event U P N F} {p : ℕ}
    (h : event.slot ≠ .apiKey p) :
    lastTold p ((w.table.append i event).logIf T) = lastTold p (w.table.logIf T) := by
  rw [SharedTable.logIf_append, lastTold, lastTold, List.filter_append]
  split_ifs
  · rw [List.filter_cons_of_neg (by simpa using h), List.filter_nil, List.append_nil]
  · rw [List.filter_nil, List.append_nil]

/-- An event of no key is told. -/
theorem KeysKept.tell (h : KeysKept w) (hsilent : Silent w i) {event : Event U P N F}
    {s : Session U P N F} (hslot : event.slot.isKey = false) (hnext : Calm (Seen w i) s.todo) :
    KeysKept { w with
      table := w.table.append i event
      sessions := Function.update w.sessions i (some s) } := by
  have hne : ∀ p, event.slot ≠ .apiKey p := by
    rintro p heq
    rw [heq] at hslot
    cases hslot
  refine ⟨h.rows, h.pending, ?_, fun T p => ?_⟩
  · refine h.orderly_update rfl (fun _ _ _ hseen => hseen) (fun _ _ _ _ hheld => hheld) ?_
    intro s' hs'
    cases hs'
    exact .calm hnext
  · refine (h.told T p).imp (fun hannouncing => hannouncing.update hsilent rfl fun _ _ hj => hj) ?_
    intro hdescribes
    rw [lastTold_append_of_ne (hne p)]
    exact hdescribes

/-- What was made of a key is told, by the session that holds it. -/
theorem KeysKept.tellKey (h : KeysKept w) {p : ℕ} {row : Row U N F} {event : Event U P N F}
    {s s' : Session U P N F} (hs : w.sessions i = some s)
    (hhead : ∀ q, q ≠ p → s.todo.head? ≠ some (.announce (.apiKey q)) ∧
      s.todo.head? ≠ some (.announceEnd (.apiKey q)))
    (hpending : w.table.pending (.apiKey p) = some (i, some row)) (hslot : event.slot = .apiKey p)
    (hdescribes : Describes p (some event) (some row)) (hnext : Calm (Seen w i) s'.todo) :
    KeysKept { w with
      table := w.table.append i event
      sessions := Function.update w.sessions i (some s') } := by
  refine ⟨h.rows, h.pending, ?_, fun T q => ?_⟩
  · refine h.orderly_update rfl (fun _ _ _ hseen => hseen) (fun _ _ _ _ hheld => hheld) ?_
    intro s'' hs''
    cases hs''
    exact .calm hnext
  · by_cases hq : q = p
    · subst hq
      by_cases hT : T i = true
      · refine .inr ?_
        rw [SharedTable.rowIf_append, SharedTable.rowIf_of_pending hpending, if_pos hT, lastTold,
          SharedTable.logIf_append, if_pos hT, List.filter_append,
          List.filter_cons_of_pos (by simpa using hslot), List.filter_nil,
          List.getLast?_append_of_ne_nil _ (List.cons_ne_nil _ _)]
        exact hdescribes
      · refine .inr ?_
        rw [SharedTable.rowIf_append, SharedTable.logIf_append, if_neg hT, List.append_nil]
        refine (h.told T q).resolve_left ?_
        rintro ⟨j, t, hj, ht, htells⟩
        -- who has to tell of a key holds it, and another session does
        obtain ⟨v, hheld⟩ := h.holds ht htells
        rw [hpending] at hheld
        cases hheld
        exact hT hj
    · have hne : event.slot ≠ .apiKey q := by
        rw [hslot]
        exact fun heq => hq (Slot.apiKey.inj heq).symm
      refine (h.told T q).imp (fun hannouncing => ?_) fun hdescribes' => ?_
      · refine hannouncing.other (fun t ht => ?_) (fun j hj => Function.update_of_ne hj ..)
          fun _ _ hj => hj
        rw [hs] at ht
        cases ht
        exact hhead q hq
      · rw [lastTold_append_of_ne hne]
        exact hdescribes'

/-- A transaction is committed. -/
theorem KeysKept.commit (h : KeysKept w) (hsilent : Silent w i) :
    KeysKept { w with
      table := w.table.commit i
      sessions := Function.update w.sessions i none } := by
  refine ⟨fun p row hrow => h.view hrow, fun p j v hpending => ?_, ?_, fun T p => ?_⟩
  · obtain ⟨hold, hne⟩ := SharedTable.pending_commit_eq_some_iff.mp hpending
    obtain ⟨id, owner, active, rfl, hrows⟩ := h.pending p j v hold
    refine ⟨id, owner, active, rfl, fun row hrow => hrows row ?_⟩
    rw [SharedTable.rows_commit, SharedTable.view_of_not_held] at hrow
    · exact hrow
    · rintro ⟨v', hheld⟩
      rw [hold] at hheld
      cases hheld
      exact hne rfl
  · refine h.orderly_update rfl (fun j hj p hseen => ?_) (fun j hj p v hheld => ?_) nofun
    · by_cases hheld : w.table.Held j (.apiKey p)
      · obtain ⟨v, hheld⟩ := hheld
        rw [Seen, SharedTable.view_of_pending hheld] at hseen
        rw [Seen, SharedTable.view_of_pending
          (SharedTable.pending_commit_eq_some_iff.mpr ⟨hheld, hj⟩)]
        exact hseen
      · rw [Seen, SharedTable.view_of_not_held hheld] at hseen
        rw [Seen, SharedTable.view_of_not_held, SharedTable.rows_commit]
        · exact h.seen_of_row hseen
        · rintro ⟨v, hafter⟩
          exact hheld ⟨v, (SharedTable.pending_commit_eq_some_iff.mp hafter).1⟩
    · exact SharedTable.pending_commit_eq_some_iff.mpr ⟨hheld, hj⟩
  · rw [SharedTable.rowIf_commit, SharedTable.logIf_commit]
    refine (h.told (SharedTable.joined T i) p).imp_left fun hannouncing =>
      hannouncing.update hsilent rfl fun j hj hT => ?_
    rwa [SharedTable.joined, Function.update_of_ne hj] at hT

/-- A transaction is undone, whatever its session does then. -/
theorem KeysKept.rollback (h : KeysKept w) (hnext : ∀ s ∈ next, Calm (fun _ => False) s.todo) :
    KeysKept { w with
      table := w.table.rollback i
      sessions := Function.update w.sessions i next } := by
  refine ⟨h.rows, fun p j v hpending => ?_, ?_, fun T p => ?_⟩
  · exact h.pending p j v (SharedTable.pending_rollback_eq_some_iff.mp hpending).1
  · refine h.orderly_update rfl (fun j hj p hseen => ?_) (fun j hj p v hheld => ?_) fun s hs => ?_
    · by_cases hheld : w.table.Held j (.apiKey p)
      · obtain ⟨v, hheld⟩ := hheld
        rw [Seen, SharedTable.view_of_pending hheld] at hseen
        rw [Seen, SharedTable.view_of_pending
          (SharedTable.pending_rollback_eq_some_iff.mpr ⟨hheld, hj⟩)]
        exact hseen
      · rw [Seen, SharedTable.view_of_not_held hheld] at hseen
        rw [Seen, SharedTable.view_of_not_held, SharedTable.rows_rollback]
        · exact hseen
        · rintro ⟨v, hafter⟩
          exact hheld ⟨v, (SharedTable.pending_rollback_eq_some_iff.mp hafter).1⟩
    · exact SharedTable.pending_rollback_eq_some_iff.mpr ⟨hheld, hj⟩
    · exact .calm ((hnext s hs).mono fun _ => False.elim)
  · rw [SharedTable.rowIf_rollback, SharedTable.logIf_rollback]
    refine (h.told (SharedTable.without T i) p).imp_left ?_
    rintro ⟨j, s, hj, hs, htells⟩
    have hne : j ≠ i := by
      rintro rfl
      rw [SharedTable.without, Function.update_self] at hj
      cases hj
    rw [SharedTable.without, Function.update_of_ne hne] at hj
    exact ⟨j, s, hj, (Function.update_of_ne hne ..).trans hs, htells⟩

theorem KeysKept.tick (h : KeysKept w) : KeysKept { w with table := w.table.tick } where
  rows := h.rows
  pending := h.pending
  orderly i s hs := (h.orderly i s hs).mono (fun _ hseen => hseen) fun _ _ hheld => hheld
  told T p := h.told T p

/-- What a session sees of a key comes of its row. -/
theorem KeysKept.succeeds (h : KeysKept w) {p : ℕ} {seen row : Row U N F}
    (hview : w.table.view i (.apiKey p) = some seen)
    (hrow : w.table.rows (.apiKey p) = some row) : Succeeds row seen := by
  by_cases hheld : w.table.Held i (.apiKey p)
  · obtain ⟨v, hpending⟩ := hheld
    obtain ⟨id, owner, active, rfl, hrows⟩ := h.pending p i v hpending
    rw [SharedTable.view_of_pending hpending] at hview
    cases hview
    exact hrows row hrow
  · rw [SharedTable.view_of_not_held hheld, hrow] at hview
    cases hview
    obtain ⟨owner, active, hfields⟩ := h.rows p seen hrow
    exact ⟨owner, active, active, by rw [← hfields], hfields, fun hactive => hactive⟩

theorem seen_write_key {p q id : ℕ} {owner : U} {active : Bool}
    {sessions : ℕ → Option (Session U P N F)} {nextRow : ℕ} (hseen : Seen w i q) :
    Seen ⟨w.table.write i (.apiKey p) (some ⟨id, .apiKey owner active⟩), sessions, nextRow⟩
      i q := by
  by_cases hq : q = p
  · subst hq
    rw [Seen, SharedTable.view_write_self]
    exact Option.some_ne_none _
  · rw [Seen, SharedTable.view_write_of_ne fun heq => hq (Slot.apiKey.inj heq)]
    exact hseen

/-- What an outcome makes of the world keeps the keys in order. -/
theorem KeysKept.apply (h : KeysKept w) (hsilent : Silent w i) {outcome : Outcome U P N F}
    (hfits : Fits w i outcome) (happly : outcome.apply w i = some w') : KeysKept w' := by
  cases hfits with
  | waits => cases happly
  | goesOn hnext =>
    cases happly
    refine h.goOn hsilent fun s hs => ?_
    cases hs
    exact hnext
  | writes hslot hblocked hnext =>
    cases happly
    exact h.write hsilent hslot hnext
  | issues hblocked hview htodo hnext =>
    cases happly
    refine h.writeKey hsilent hblocked (fun row hrow => ?_) (.inl (by rw [htodo]; rfl)) ?_
    · have hseen : Seen w i _ := h.seen_of_row (Option.ne_none_iff_exists'.mpr ⟨row, hrow⟩)
      exact absurd hview hseen
    · rw [htodo]
      exact .announces SharedTable.pending_write_self (hnext.mono fun q => seen_write_key)
  | revokes hblocked hview htodo hnext =>
    cases happly
    refine h.writeKey hsilent hblocked (fun row hrow => ?_) (.inr (by rw [htodo]; rfl)) ?_
    · obtain ⟨owner, was, active, rfl, hfields, -⟩ := h.succeeds hview hrow
      cases hfields
      exact ⟨_, was, false, rfl, rfl, nofun⟩
    · rw [htodo]
      exact .ends SharedTable.pending_write_self (hnext.mono fun q => seen_write_key)
  | tells hslot hnext =>
    cases happly
    exact h.tell hsilent hslot hnext
  | commits =>
    cases happly
    exact h.commit hsilent
  | fails hnext =>
    cases happly
    exact h.rollback hnext

/-- **One step keeps the keys in order.** -/
theorem KeysKept.step [DecidableEq N] {held : U → List P} {a : Act U P N F} (h : KeysKept w)
    (hstep : w.step held a = some w') : KeysKept w' := by
  cases a with
  | start i route =>
    simp only [World.step] at hstep
    split at hstep
    · next hsession hrow =>
      split_ifs at hstep
      cases hstep
      refine h.goOn (fun s hs => ?_) fun s hs => ?_
      · rw [hsession] at hs
        cases hs
      · cases hs
        exact calm_statements _ route
    · cases hstep
  | exec i draw =>
    simp only [World.step, World.exec] at hstep
    split at hstep
    · cases hstep
    · next s hs =>
      split at hstep
      · cases hstep
      · next stmt rest htodo =>
        have horderly := h.orderly i s hs
        rw [htodo] at horderly
        cases horderly with
        | calm hcalm =>
          refine h.apply (fun s' hs' p => ?_) (outcome_fits held draw (fun p row => h.view) hcalm)
            hstep
          rw [hs] at hs'
          cases hs'
          rw [htodo]
          exact hcalm.head_ne p
        | announces hpending hrest =>
          simp only [outcome, SharedTable.view_of_pending hpending] at hstep
          cases hstep
          refine h.tellKey hs (fun q hq => ?_) hpending rfl rfl hrest
          rw [htodo]
          refine ⟨fun heq => ?_, nofun⟩
          exact hq (Slot.apiKey.inj (Stmt.announce.inj (Option.some.inj heq))).symm
        | ends hpending hrest =>
          simp only [outcome] at hstep
          cases hstep
          refine h.tellKey hs (fun q hq => ?_) hpending rfl rfl hrest
          rw [htodo]
          refine ⟨nofun, fun heq => ?_⟩
          exact hq (Slot.apiKey.inj (Stmt.announceEnd.inj (Option.some.inj heq))).symm
  | abort i =>
    simp only [World.step] at hstep
    split at hstep
    · cases hstep
    · cases hstep
      exact h.rollback nofun
  | tick =>
    cases hstep
    exact h.tick

end Steps

/-! ### Whole runs -/

section Runs

variable [DecidableEq U] [DecidableEq P] {held : U → List P}

/-- Nobody is at work, and the last event of each key says what its row says. -/
structure Start (w : World U P N F) : Prop where
  idle : ∀ i, w.sessions i = none
  unlocked : ∀ slot, w.table.pending slot = none
  stands : ∀ entry ∈ w.table.log, entry.session = none
  rows : ∀ p row, w.table.rows (.apiKey p) = some row →
    ∃ owner active, row.fields = .apiKey owner active
  told : ∀ p, Describes p (lastTold p (w.table.log.map LogEntry.event))
    (w.table.rows (.apiKey p))

theorem Start.keysKept (h : Start w) : KeysKept w where
  rows := h.rows
  pending p i v hpending := by
    rw [h.unlocked] at hpending
    cases hpending
  orderly i s hs := by
    rw [h.idle] at hs
    cases hs
  told T p := by
    have hlog : w.table.log.filter (LogEntry.standsIf T) = w.table.log := by
      refine List.filter_eq_self.mpr fun entry hentry => ?_
      rw [LogEntry.standsIf, h.stands entry hentry]
      rfl
    rw [SharedTable.logIf, hlog, SharedTable.rowIf_of_pending_none (h.unlocked _)]
    exact .inr (h.told p)

variable {w' w'' : World U P N F}

/-- A step replaces a key's row only where its transaction commits. -/
theorem KeysKept.succeeds_outcome (h : KeysKept w) {i : ℕ} {outcome : Outcome U P N F}
    (happly : outcome.apply w i = some w') {p : ℕ} {row : Row U N F}
    (hrow : w.table.rows (.apiKey p) = some row) :
    ∃ row', w'.table.rows (.apiKey p) = some row' ∧ Succeeds row row' := by
  obtain ⟨owner, active, hfields⟩ := h.rows p row hrow
  cases outcome with
  | waits => cases happly
  | commits =>
    cases happly
    have hne : w.table.rows (.apiKey p) ≠ none := by
      rw [hrow]
      exact Option.some_ne_none row
    obtain ⟨seen, hview⟩ := Option.ne_none_iff_exists'.mp (h.seen_of_row hne)
    exact ⟨seen, hview, h.succeeds hview hrow⟩
  | goesOn next =>
    cases happly
    exact ⟨row, hrow, .refl_of_key hfields⟩
  | writes slot written next =>
    cases happly
    exact ⟨row, hrow, .refl_of_key hfields⟩
  | tells event next =>
    cases happly
    exact ⟨row, hrow, .refl_of_key hfields⟩
  | fails again =>
    cases happly
    exact ⟨row, hrow, .refl_of_key hfields⟩

variable [DecidableEq N] {ok : World U P N F → Act U P N F → Prop}
  {acts acts' : List (Act U P N F)}

theorem KeysKept.run (h : KeysKept w) (run : Run (World.step held) ok w acts w') : KeysKept w' :=
  run.invariant (fun _ _ _ h _ hstep => h.step hstep) h

/-- **The last event of a key says what its row says**: of what is committed, whatever requests are
under way and wherever they were given up. -/
theorem key_events_describe (hstart : Start w) (run : Run (World.step held) ok w acts w') (p : ℕ) :
    Describes p (lastTold p (w'.table.logIf fun _ => false)) (w'.table.rows (.apiKey p)) := by
  have hkept := hstart.keysKept.run run
  obtain ⟨i, s, hnobody, -⟩ | hdescribes := hkept.told (fun _ => false) p
  · cases hnobody
  · rwa [SharedTable.rowIf_nobody] at hdescribes

/-- A step leaves a key's row, or replaces it by what comes of it. -/
theorem KeysKept.succeeds_step {a : Act U P N F} (h : KeysKept w)
    (hstep : w.step held a = some w') {p : ℕ} {row : Row U N F}
    (hrow : w.table.rows (.apiKey p) = some row) :
    ∃ row', w'.table.rows (.apiKey p) = some row' ∧ Succeeds row row' := by
  obtain ⟨owner, active, hfields⟩ := h.rows p row hrow
  cases a with
  | start i route =>
    simp only [World.step] at hstep
    split at hstep
    · split_ifs at hstep
      cases hstep
      exact ⟨row, hrow, .refl_of_key hfields⟩
    · cases hstep
  | exec i draw =>
    simp only [World.step, World.exec] at hstep
    split at hstep
    · cases hstep
    · split at hstep
      · cases hstep
      · exact h.succeeds_outcome hstep hrow
  | abort i =>
    simp only [World.step] at hstep
    split at hstep
    · cases hstep
    · cases hstep
      exact ⟨row, hrow, .refl_of_key hfields⟩
  | tick =>
    cases hstep
    exact ⟨row, hrow, .refl_of_key hfields⟩

theorem KeysKept.succeeds_run (h : KeysKept w) (run : Run (World.step held) ok w acts w') {p : ℕ}
    {row : Row U N F} (hrow : w.table.rows (.apiKey p) = some row) :
    ∃ row', w'.table.rows (.apiKey p) = some row' ∧ Succeeds row row' := by
  have hstart : KeysKept w ∧
      ∃ row', w.table.rows (.apiKey p) = some row' ∧ Succeeds row row' := by
    obtain ⟨owner, active, hfields⟩ := h.rows p row hrow
    exact ⟨h, row, hrow, .refl_of_key hfields⟩
  refine (run.invariant (P := fun v => KeysKept v ∧
    ∃ row', v.table.rows (.apiKey p) = some row' ∧ Succeeds row row') ?_ hstart).2
  intro v a v' hv _ hstep
  obtain ⟨hkept, row', hrow', hsucceeds⟩ := hv
  obtain ⟨row'', hrow'', hnext⟩ := hkept.succeeds_step hstep hrow'
  exact ⟨hkept.step hstep, row'', hrow'', hsucceeds.trans hnext⟩

/-- **A key that is there stays, with its number and its owner, and once it is revoked it is never
active again**, whatever requests are under way when it is first looked at. -/
theorem key_revocation_final (hstart : Start w) (run : Run (World.step held) ok w acts w')
    (run' : Run (World.step held) ok w' acts' w'') {p id : ℕ} {owner : U} {was : Bool}
    (hrow : w'.table.rows (.apiKey p) = some ⟨id, .apiKey owner was⟩) :
    ∃ active, w''.table.rows (.apiKey p) = some ⟨id, .apiKey owner active⟩ ∧
      (active = true → was = true) := by
  obtain ⟨⟨id', fields⟩, hrow', hsucceeds⟩ := (hstart.keysKept.run run).succeeds_run run' hrow
  obtain ⟨owner', was', active, heq, rfl, hback⟩ := hsucceeds
  cases heq
  exact ⟨active, hrow', hback⟩

end Runs

section Example

/-- A live use case, and nothing else. -/
def opened : World ℕ ℕ ℕ ℕ where
  table := {
    rows := fun slot => if slot = .useCase then some ⟨0, .useCase 0 none⟩ else none
    pending := fun _ => none
    known := [.useCase]
    log := []
    clock := 0
    nextId := 0
    complete := by
      intro slot hslot
      by_contra hunknown
      simp only [List.mem_singleton] at hunknown
      simp [hunknown] at hslot
    ordered := .nil
    stamped := nofun }
  sessions _ := none
  nextRow := 1

theorem opened_start : Start opened where
  idle _ := rfl
  unlocked _ := rfl
  stands := nofun
  rows := nofun
  told _ := rfl

/-- A key is issued to somebody who held no grant, its revocation is given up before it commits, and
then goes through. -/
def issuedAndRevoked : List (Act ℕ ℕ ℕ ℕ) :=
  .start 1 (.issueApiKey 5 5 true) :: List.replicate 9 (.exec 1 7) ++
    (.start 2 (.revokeApiKey 7) :: List.replicate 4 (.exec 2 0) ++ [.tick, .abort 2]) ++
      .start 3 (.revokeApiKey 7) :: List.replicate 5 (.exec 3 0)

/-- The key's owner is removed, and the sweep finds no key. -/
private def ownerRemoved : List (Act ℕ ℕ ℕ ℕ) :=
  .start 4 (.removeMember 5) :: List.replicate 6 (.exec 4 0)

/-- A world in which the key is revoked. -/
private def isRevoked (w : World ℕ ℕ ℕ ℕ) : Bool :=
  w.table.rows (.apiKey 7) = some ⟨2, .apiKey 5 false⟩

theorem issued_and_revoked : ∃ w : World ℕ ℕ ℕ ℕ,
    w.table.rows (.apiKey 7) = some ⟨2, .apiKey 5 false⟩ ∧
      Describes 7 (lastTold 7 (w.table.logIf fun _ => false)) (w.table.rows (.apiKey 7)) := by
  have hran : (checkedRun (World.step fun _ => []) (fun _ _ => True) opened issuedAndRevoked).any
      isRevoked = true := by
    decide
  obtain ⟨w, hrun, hrow⟩ := (Option.any_eq_true _ _).mp hran
  exact ⟨w, of_decide_eq_true hrow, key_events_describe opened_start (run_of_checkedRun hrun) 7⟩

theorem stays_revoked : ∃ w : World ℕ ℕ ℕ ℕ,
    w.table.rows (.member 5) = none ∧
      ∃ active, w.table.rows (.apiKey 7) = some ⟨2, .apiKey 5 active⟩ ∧
        (active = true → false = true) := by
  have hran : (checkedRun (World.step fun _ => []) (fun _ _ => True) opened issuedAndRevoked).any
      (fun w => isRevoked w &&
        (checkedRun (World.step fun _ => []) (fun _ _ => True) w ownerRemoved).any fun w' =>
          decide (w'.table.rows (.member 5) = none)) = true := by
    decide
  obtain ⟨w, hrun, hboth⟩ := (Option.any_eq_true _ _).mp hran
  rw [Bool.and_eq_true] at hboth
  obtain ⟨w', hrun', hgone⟩ := (Option.any_eq_true _ _).mp hboth.2
  exact ⟨w', of_decide_eq_true hgone, key_revocation_final opened_start (run_of_checkedRun hrun)
    (run_of_checkedRun hrun') (of_decide_eq_true hboth.1)⟩

end Example

end AiraGateway.Routes
