import AiraGateway.Access.Grants
import AiraGateway.Library.ReadCommitted

/-!
# The write routes of a use case

Every write to a use case and to what hangs off it is a route: it loads the use case, asks whether
the caller may, opens a transaction, changes rows and inserts the event of each change into the
outbox. A route is the list of its statements, in the order the code runs them, and a statement is
executed on the rows as read committed shows them: what is committed, and what its own transaction
wrote. Between two statements of one request any statements of others may run.

What a person holds is asked once in a request and remembered, until the request itself writes a
membership or a group's grant. Whether the caller may do what a route does is asked before its
transaction and of rows the routes do not write; a route is started by those who may.
-/

namespace AiraGateway.Routes

open Access (GrantRole)

/-! ### Rows and events -/

/-- The rows of a use case that are known by a number of their own. -/
inductive ChildKind
  | budget
  | rateLimit
  | anomalyRule
  deriving DecidableEq

/-- What a row is, and what its events are keyed by: the use case, the people and the groups that
reach it, its keys by prefix, its budgets, limits and rules by number, and its pipeline. -/
inductive Slot (U P : Type)
  | useCase
  | member (user : U)
  | group (path : P)
  | apiKey (keyPrefix : ℕ)
  | child (kind : ChildKind) (id : ℕ)
  | pipeline
  deriving DecidableEq

/-- What a row holds. A budget, limit or rule has a name it is saved under: its scope, subject and
period, or the rule's name. -/
inductive Fields (U N F : Type)
  | useCase (fields : F) (deletedAt : Option ℕ)
  | grant (role : GrantRole)
  | apiKey (owner : U) (isActive : Bool)
  | child (name : N) (fields : F)
  | pipeline (fields : F)
  deriving DecidableEq

structure Row (U N F : Type) where
  id : ℕ
  fields : Fields U N F
  deriving DecidableEq

/-- An event of the outbox: the fields of a row that was saved, or that the row grants no more. -/
structure Event (U P N F : Type) where
  slot : Slot U P
  fields : Option (Fields U N F)
  deriving DecidableEq

/-- What an event tells of a row: everything but when the use case was retired. -/
def Fields.told {U N F : Type} : Fields U N F → Fields U N F
  | useCase fields _ => useCase fields none
  | fields => fields

/-- The rows a retirement ends, beside the keys. -/
inductive Ended
  | members
  | groups
  | children (kind : ChildKind)
  | pipeline
  deriving DecidableEq

/-- A row of a kind that a retirement ends. -/
def Ended.covers {U P : Type} : Ended → Slot U P → Bool
  | members, .member _ => true
  | groups, .group _ => true
  | children kind, .child kind' _ => kind = kind'
  | pipeline, .pipeline => true
  | _, _ => false

/-! ### Statements -/

/-- A statement of a request. A row that is saved or deleted is followed by its event. -/
inductive Stmt (U P N F : Type)
  /-- `holds_a_grant`: answered from memory, or by reading the person's membership, -/
  | ask (user : U)
  /-- and then the grants to the groups the person holds. -/
  | askGroups (user : U) (direct : Bool)
  /-- Refuse the request unless the person holds a grant, as it was answered. -/
  | require (user : U)
  /-- Refuse the request unless the key is active. -/
  | requireActive (keyPrefix : ℕ)
  /-- Read the row that the request is about. -/
  | find (slot : Slot U P)
  | requireFound
  | begin
  /-- `update_or_create` on the natural key. -/
  | upsert (slot : Slot U P) (fields : Fields U N F)
  | saveChild (kind : ChildKind) (name : N) (change : Option F → F)
  /-- Save every column of the use case as it was loaded and changed. -/
  | saveUseCase (change : F → F)
  | savePipeline (fields : F)
  /-- Delete the row that was found. -/
  | delete (slot : Slot U P)
  | announce (slot : Slot U P)
  | announceEnd (slot : Slot U P)
  /-- `_admit` the owner of a key who holds no grant. -/
  | admitUnlessGranted (user : U)
  /-- Insert a key under a prefix that is drawn; `left` more are drawn where it is taken. -/
  | insertKey (owner : U) (left : ℕ)
  | revokeKey (keyPrefix : ℕ)
  /-- `_revoke_keys_without_access`: select the active keys, -/
  | sweep
  /-- and revoke each whose owner holds no grant, as it was answered. -/
  | consider (keyPrefix : ℕ) (owner : U)
  /-- Tombstone the use case where it is live. -/
  | retireRow
  | endKeys
  | endRows (kind : Ended)
  | commit

section Routes

variable {U P N F : Type}

/-- The row, the permissions and the event of a membership. -/
def addMember (user : U) (role : GrantRole) : List (Stmt U P N F) :=
  [.upsert (.member user) (.grant role)]

def members (user : U) (role : GrantRole) : List (Stmt U P N F) :=
  .begin :: addMember user role ++ [.commit]

def removeMember (user : U) : List (Stmt U P N F) :=
  [.begin, .find (.member user), .delete (.member user), .sweep, .commit]

def groupGrants (path : P) (role : GrantRole) : List (Stmt U P N F) :=
  [.begin, .upsert (.group path) (.grant role), .commit]

def revokeGroupGrant (path : P) : List (Stmt U P N F) :=
  [.find (.group path), .requireFound, .begin, .delete (.group path), .sweep, .commit]

/-- One drawing of a prefix: the transaction that admits the owner and inserts the key. -/
def issueAttempt (owner : U) (left : ℕ) : List (Stmt U P N F) :=
  [.begin, .ask owner, .admitUnlessGranted owner, .insertKey owner left, .commit]

/-- How many fresh prefixes issuance draws. -/
def prefixAttempts : ℕ := 3

section Issue

variable [DecidableEq U]

/-- Issue a key. Whoever may manage every use case needs no grant to issue; an owner who is
somebody else needs one. -/
def issueApiKey (caller owner : U) (managesAll : Bool) : List (Stmt U P N F) :=
  (if managesAll = true then [] else [.ask caller, .require caller]) ++
    (if owner = caller then [] else [.ask owner, .require owner]) ++
      issueAttempt owner (prefixAttempts - 1)

end Issue

def revokeApiKey (keyPrefix : ℕ) : List (Stmt U P N F) :=
  [.requireActive keyPrefix, .begin, .revokeKey keyPrefix, .commit]

/-- Save a budget, a limit or a rule. -/
def saveChild (kind : ChildKind) (name : N) (change : Option F → F) : List (Stmt U P N F) :=
  [.begin, .saveChild kind name change, .commit]

def deleteChild (kind : ChildKind) (id : ℕ) : List (Stmt U P N F) :=
  [.find (.child kind id), .requireFound, .begin, .delete (.child kind id), .commit]

def pipeline (fields : F) : List (Stmt U P N F) :=
  [.find .pipeline, .begin, .savePipeline fields, .commit]

def performUpdate (change : F → F) : List (Stmt U P N F) :=
  [.begin, .saveUseCase change, .commit]

/-- End every child on its own key. -/
def endAccess : List (Stmt U P N F) :=
  [.endKeys, .endRows .members, .endRows .groups, .endRows (.children .budget),
    .endRows (.children .rateLimit), .endRows (.children .anomalyRule), .endRows .pipeline]

def retire : List (Stmt U P N F) := [.begin, .retireRow, .commit]

/-- The write routes of a use case. -/
inductive Route (U P N F : Type)
  | members (user : U) (role : GrantRole)
  | removeMember (user : U)
  | groupGrants (path : P) (role : GrantRole)
  | revokeGroupGrant (path : P)
  | issueApiKey (caller owner : U) (managesAll : Bool)
  | revokeApiKey (keyPrefix : ℕ)
  | saveChild (kind : ChildKind) (name : N) (change : Option F → F)
  | deleteChild (kind : ChildKind) (id : ℕ)
  | pipeline (fields : F)
  | performUpdate (change : F → F)
  | retire

def Route.statements [DecidableEq U] : Route U P N F → List (Stmt U P N F)
  | members user role => Routes.members user role
  | removeMember user => Routes.removeMember user
  | groupGrants path role => Routes.groupGrants path role
  | revokeGroupGrant path => Routes.revokeGroupGrant path
  | issueApiKey caller owner managesAll => Routes.issueApiKey caller owner managesAll
  | revokeApiKey keyPrefix => Routes.revokeApiKey keyPrefix
  | saveChild kind name change => Routes.saveChild kind name change
  | deleteChild kind id => Routes.deleteChild kind id
  | pipeline fields => Routes.pipeline fields
  | performUpdate change => Routes.performUpdate change
  | retire => Routes.retire

end Routes

/-! ### Executing a statement -/

/-- A request under way: what it has still to run, the use case as it was loaded, what it remembers
of who holds a grant, and the number of the row it found. -/
structure Session (U P N F : Type) where
  todo : List (Stmt U P N F)
  loaded : Row U N F
  memo : U → Option Bool := fun _ => none
  found : Option ℕ := none
  inTransaction : Bool := false

/-- The tables, the requests under way, and the number the next row is given. -/
structure World (U P N F : Type) where
  table : SharedTable ℕ (Slot U P) (Row U N F) (Event U P N F)
  sessions : ℕ → Option (Session U P N F)
  nextRow : ℕ

/-- What executing a statement does: it waits for a lock, goes on having read, writes a row, inserts
an event, commits, or fails, which ends the request or lets it try again. -/
inductive Outcome (U P N F : Type)
  | waits
  | goesOn (session : Session U P N F)
  | writes (slot : Slot U P) (row : Option (Row U N F)) (session : Session U P N F)
  | tells (event : Event U P N F) (session : Session U P N F)
  | commits
  | fails (again : Option (Session U P N F))

/-- A live use case. -/
def Fields.isLive {U N F : Type} : Fields U N F → Bool
  | useCase _ none => true
  | _ => false

section Execute

variable {U P N F : Type} [DecidableEq U] [DecidableEq P] [DecidableEq N]

namespace Session

/-- Forget what was remembered, after a write that changes who holds a grant. -/
def forgetFor (slot : Slot U P) (s : Session U P N F) : Session U P N F :=
  match slot with
  | .member _ | .group _ => { s with memo := fun _ => none }
  | _ => s

end Session

variable (w : World U P N F) (i : ℕ) (s : Session U P N F)

/-- Write a row where no other transaction holds it, and go on with its event. -/
def save (slot : Slot U P) (row : Option (Row U N F)) (next : Stmt U P N F) : Outcome U P N F :=
  if w.table.blocked i slot = true then .waits
  else .writes slot row ({ s with todo := next :: s.todo }.forgetFor slot)

/-- The row of a slot with other fields, or a new one. -/
def rowOf (slot : Slot U P) (fields : Fields U N F) : Row U N F :=
  match w.table.view i slot with
  | some row => ⟨row.id, fields⟩
  | none => ⟨w.nextRow, fields⟩

/-- A child row of a kind that is saved under a name. -/
def isNamed (kind : ChildKind) (name : N) (slot : Slot U P) (row : Row U N F) : Bool :=
  match slot, row.fields with
  | .child kind' _, .child name' _ => kind = kind' ∧ name = name'
  | _, _ => false

/-- Another transaction has inserted a child row of the name. -/
def nameTaken (kind : ChildKind) (name : N) : Bool :=
  w.table.known.any fun slot =>
    match w.table.pending slot with
    | some (j, some row) => j ≠ i && isNamed kind name slot row
    | _ => false

/-- Save the child row of a name, keeping its number, or insert one under a fresh number. -/
def saveNamed (kind : ChildKind) (name : N) (change : Option F → F) : Outcome U P N F :=
  match (w.table.select i (isNamed kind name)).head? with
  | some slot =>
    match w.table.view i slot with
    | some ⟨id, .child _ fields⟩ =>
      save w i s slot (some ⟨id, .child name (change (some fields))⟩) (.announce slot)
    | _ => .waits
  | none =>
    if nameTaken w i kind name = true then .waits
    else
      let slot := .child kind w.nextRow
      save w i s slot (some ⟨w.nextRow, .child name (change none)⟩) (.announce slot)

/-- Save the pipeline as it was found: its row, or a new one, which another may have inserted. -/
def savePipelineFields (fields : F) : Outcome U P N F :=
  match s.found, w.table.view i .pipeline with
  | none, some _ => .fails none
  | _, _ =>
    save w i s .pipeline (some (rowOf w i .pipeline (.pipeline fields))) (.announce .pipeline)

/-- Delete the row that was found, where it is still that row, and go on with the event. -/
def deleteFound (slot : Slot U P) : Outcome U P N F :=
  let next : Session U P N F := { s with todo := .announceEnd slot :: s.todo }
  match s.found, w.table.view i slot with
  | some id, some row => if row.id = id then save w i s slot none (.announceEnd slot)
    else .goesOn (next.forgetFor slot)
  | some _, none => .goesOn (next.forgetFor slot)
  | none, _ => .goesOn next

/-- The active keys a session sees, with their owners. -/
def activeKeys : List (ℕ × U) :=
  w.table.known.filterMap fun slot =>
    match slot, w.table.view i slot with
    | .apiKey keyPrefix, some ⟨_, .apiKey owner true⟩ => some (keyPrefix, owner)
    | _, _ => none

/-- Execute a statement; what follows it is in the session, and `draw` is the prefix a key that is
inserted draws. -/
def outcome (held : U → List P) (draw : ℕ) : Stmt U P N F → Outcome U P N F
  | .ask user =>
    match s.memo user with
    | some _ => .goesOn s
    | none =>
      .goesOn { s with todo := .askGroups user (w.table.view i (.member user)).isSome :: s.todo }
  | .askGroups user direct =>
    let through := (held user).any fun path => (w.table.view i (.group path)).isSome
    .goesOn { s with memo := Function.update s.memo user (some (direct || through)) }
  | .require user => if s.memo user = some true then .goesOn s else .fails none
  | .requireActive keyPrefix =>
    match w.table.view i (.apiKey keyPrefix) with
    | some ⟨_, .apiKey _ true⟩ => .goesOn s
    | _ => .fails none
  | .find slot => .goesOn { s with found := (w.table.view i slot).map Row.id }
  | .requireFound => if s.found.isSome = true then .goesOn s else .fails none
  | .begin => .goesOn { s with inTransaction := true }
  | .upsert slot fields => save w i s slot (some (rowOf w i slot fields)) (.announce slot)
  | .saveChild kind name change => saveNamed w i s kind name change
  | .saveUseCase change =>
    match s.loaded with
    | ⟨id, .useCase fields deletedAt⟩ =>
      save w i s .useCase (some ⟨id, .useCase (change fields) deletedAt⟩) (.announce .useCase)
    | _ => .fails none
  | .savePipeline fields => savePipelineFields w i s fields
  | .delete slot => deleteFound w i s slot
  | .announce slot =>
    match w.table.view i slot with
    | some row => .tells ⟨slot, some row.fields.told⟩ s
    | none => .fails none
  | .announceEnd slot => .tells ⟨slot, none⟩ s
  | .admitUnlessGranted user =>
    if s.memo user = some true then .goesOn s
    else .goesOn { s with todo := addMember user .user ++ s.todo }
  | .insertKey owner left =>
    if w.table.blocked i (.apiKey draw) = true then .waits
    else if (w.table.view i (.apiKey draw)).isSome = true then
      .fails (match left with
        | 0 => none
        | left + 1 => some { s with todo := issueAttempt owner left, inTransaction := false })
    else save w i s (.apiKey draw) (some ⟨w.nextRow, .apiKey owner true⟩) (.announce (.apiKey draw))
  | .revokeKey keyPrefix =>
    match w.table.view i (.apiKey keyPrefix) with
    | some ⟨id, .apiKey owner _⟩ =>
      save w i s (.apiKey keyPrefix) (some ⟨id, .apiKey owner false⟩)
        (.announceEnd (.apiKey keyPrefix))
    | _ => .goesOn { s with todo := .announceEnd (.apiKey keyPrefix) :: s.todo }
  | .sweep => .goesOn { s with
      todo := ((activeKeys w i).flatMap fun key => [.ask key.2, .consider key.1 key.2]) ++ s.todo }
  | .consider keyPrefix user =>
    if s.memo user = some true then .goesOn s
    else .goesOn { s with todo := .revokeKey keyPrefix :: s.todo }
  | .retireRow =>
    match w.table.view i .useCase with
    | some ⟨id, .useCase fields none⟩ =>
      save w i { s with todo := endAccess ++ s.todo } .useCase
        (some ⟨id, .useCase fields (some w.table.clock)⟩) (.announceEnd .useCase)
    | _ => .goesOn s
  | .endKeys => .goesOn { s with
      todo := ((activeKeys w i).map fun key => .revokeKey key.1) ++ s.todo }
  | .endRows kind => .goesOn { s with
      todo := ((w.table.select i fun slot _ => kind.covers slot).map .announceEnd) ++ s.todo }
  | .commit => .commits

/-- What an outcome makes of the world; nothing where the statement waits. -/
def Outcome.apply : Outcome U P N F → Option (World U P N F)
  | .waits => none
  | .goesOn next => some { w with sessions := Function.update w.sessions i (some next) }
  | .writes slot row next => some {
      table := w.table.write i slot row
      sessions := Function.update w.sessions i (some next)
      nextRow := w.nextRow + 1 }
  | .tells event next => some { w with
      table := w.table.append i event
      sessions := Function.update w.sessions i (some next) }
  | .commits => some { w with
      table := w.table.commit i
      sessions := Function.update w.sessions i none }
  | .fails again => some { w with
      table := w.table.rollback i
      sessions := Function.update w.sessions i again }

/-- What can happen next: a request arrives, one executes its next statement, one is given up
(refused, deadlocked, its client gone), or time passes. -/
inductive Act (U P N F : Type)
  | start (i : ℕ) (route : Route U P N F)
  | exec (i : ℕ) (draw : ℕ)
  | abort (i : ℕ)
  | tick

/-- Execute a session's next statement. -/
def World.exec (held : U → List P) (i draw : ℕ) : Option (World U P N F) :=
  match w.sessions i with
  | none => none
  | some s =>
    match s.todo with
    | [] => none
    | stmt :: rest => (outcome w i { s with todo := rest } held draw stmt).apply w i

/-- One step. A request that arrives loads the use case, which only a live one can be. -/
def World.step (held : U → List P) (w : World U P N F) : Act U P N F → Option (World U P N F)
  | .start i route =>
    match w.sessions i, w.table.rows .useCase with
    | none, some row =>
      if row.fields.isLive = true then
        some { w with sessions :=
          Function.update w.sessions i (some { todo := route.statements, loaded := row }) }
      else none
    | _, _ => none
  | .exec i draw => w.exec held i draw
  | .abort i =>
    match w.sessions i with
    | none => none
    | some _ => some { w with
        table := w.table.rollback i
        sessions := Function.update w.sessions i none }
  | .tick => some { w with table := w.table.tick }

end Execute

end AiraGateway.Routes
