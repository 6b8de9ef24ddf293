import AiraGateway.Library.CodePoints
import AiraGateway.Library.ReadCommitted
import AiraGateway.Library.Runs

/-!
# Who signs in to which account

A token names its holder twice: by a subject that never changes and by a preferred name. An account
is bound to a subject on its first sign-in: one that was invited under the preferred name, or a
fresh one, which is renamed with a piece of the subject where the name is taken. Sign-ins,
invitations and the seeding of accounts are transactions under read committed over three tables
whose unique columns are keys of their own: a name is one account's, a subject is bound once, an
account is bound once, and an account has at most one open invitation.

A statement that inserts a key which another open transaction holds waits for its end. One that
inserts a key which is there fails, and the sign-in goes back to its savepoint.
-/

namespace AiraGateway.Identities

/-! ### Names -/

def usernameMaxLength : ℕ := 150

def subjectMaxLength : ℕ := 255

/-- What is appended to the name of an account that has to be renamed. -/
def suffix (subject : CodePoints) : CodePoints := points ['-'] ++ subject.take 8

/-- The longest suffix there is. -/
def suffixProbe : CodePoints := suffix (points (List.replicate 8 'x'))

/-- A distinct name for somebody whose preferred one belongs to another identity. -/
def suffixed (preferred subject : CodePoints) : CodePoints :=
  preferred.take (usernameMaxLength - (suffix subject).length) ++ suffix subject

section Names

-- what is part of a word, and what is stripped off the ends of a name
variable (isWord isBlank : ℕ → Bool)

/-- The signs a name may hold beside what is part of a word. -/
def usernameSigns : CodePoints := ".@+-"

/-- Whether a name is one an account may have. -/
def usernameValid (name : CodePoints) : Bool :=
  name ≠ [] && name.all fun c => isWord c || usernameSigns.contains c

/-- The name to store for a claim, falling back to the subject. -/
def safeUsername (claimed : Option CodePoints) (subject : CodePoints) : CodePoints :=
  let text := match claimed with
    | some name => ((name.dropWhile isBlank).reverse.dropWhile isBlank).reverse
    | none => []
  if decide (text.length ≤ usernameMaxLength) && usernameValid isWord text then text
  else subject.take usernameMaxLength

end Names

/-- Whether a text column can hold a text. -/
def storable (text : CodePoints) : Bool := !text.contains 0 && text.encodable

/-- Whether an account can be bound to a subject. -/
def bindable (subject : CodePoints) : Bool :=
  subject ≠ [] && decide (subject.length ≤ subjectMaxLength) && storable subject

/-- A subject an account can be bound to; a token with another is refused. -/
structure Subject where
  text : CodePoints
  bindable : bindable text = true
  deriving DecidableEq

theorem Subject.text_inj {a b : Subject} (h : a.text = b.text) : a = b := by
  cases a
  cases b
  obtain rfl : _ = _ := h
  rfl

/-! ### Tables -/

/-- A unique column and a value of it. -/
inductive Key
  | account (username : CodePoints)
  /-- The identity of a subject; its row names the account. -/
  | binding (subject : Subject)
  /-- The identity of an account; its row names the subject. -/
  | bound (username : CodePoints)
  | invitation (username : CodePoints)
  deriving DecidableEq

/-- What a transaction did, and its end makes true. -/
inductive Fact
  | invites (username : CodePoints)
  | creates (username : CodePoints) (subject : Subject)
  | redeems (username : CodePoints) (subject : Subject)
  deriving DecidableEq

/-- Where a session is. Every phase but the first is that before its next statement. -/
inductive Phase
  | idle
  /-- A sign-in: is the subject bound? -/
  | arrived (subject : Subject)
  /-- Is an account of the name invited? -/
  | asked (subject : Subject)
  | invited (subject : Subject) (username : CodePoints)
  /-- The invited account is bound, and the invitation to be deleted. -/
  | redeemed (subject : Subject) (username : CodePoints)
  /-- Is the name taken? -/
  | fresh (subject : Subject)
  | named (subject : Subject) (username : CodePoints)
  | created (subject : Subject) (username : CodePoints)
  | bound (subject : Subject) (username : CodePoints)
  /-- The savepoint is rolled back: has somebody provisioned the subject? -/
  | failed (subject : Subject)
  /-- An invitation of somebody the directory knows. -/
  | inviting (username : CodePoints)
  /-- Seeding: the account, whether it is claimed, and its invitation. -/
  | seeding (username : CodePoints)
  | seeded (username : CodePoints)
  | opening (username : CodePoints)
  | opened
  deriving DecidableEq

variable {ι : Type}

/-- The tables of Management and its sessions. -/
structure World (ι : Type) where
  table : SharedTable ι Key CodePoints Fact
  phase : ι → Phase := fun _ => .idle

inductive Act (ι : Type)
  | signIn (i : ι) (subject : Subject)
  /-- `_resolve_or_invite`: somebody is granted access under a name, and the directory answers. -/
  | invite (i : ι) (username : CodePoints) (found : Option CodePoints)
  | seed (i : ι) (username : CodePoints)
  /-- The session's next statement. -/
  | next (i : ι)
  /-- The session's connection is lost. -/
  | abort (i : ι)

/-- What becomes of an insert. -/
inductive Insertion (ι : Type)
  | waits
  | fails
  | done (table : SharedTable ι Key CodePoints Fact)

namespace World

/-- No row and no session. -/
def empty : World ι where
  table :=
    { rows := fun _ => none, pending := fun _ => none, known := [], log := [], clock := 0
      nextId := 0, complete := by simp, ordered := .nil, stamped := by simp }

variable [DecidableEq ι]

/-- Insert a row under each of its unique columns. -/
def insert (t : SharedTable ι Key CodePoints Fact) (i : ι) (columns : List (Key × CodePoints)) :
    Insertion ι :=
  if columns.any fun column => (t.view i column.1).isSome then .fails
  else if columns.any fun column => t.blocked i column.1 then .waits
  else .done (columns.foldl (fun t column => t.write i column.1 (some column.2)) t)

def setPhase (w : World ι) (i : ι) (p : Phase) : World ι :=
  { w with phase := Function.update w.phase i p }

def commit (w : World ι) (i : ι) : World ι := { w.setPhase i .idle with table := w.table.commit i }

def rollback (w : World ι) (i : ι) (p : Phase) : World ι :=
  { w.setPhase i p with table := w.table.rollback i }

/-- An insert, and where the session is when it is done, or failed. -/
def inserting (w : World ι) (i : ι) (columns : List (Key × CodePoints)) (fact : Option Fact)
    (done failed : Phase) : Option (World ι) :=
  match insert w.table i columns with
  | .waits => none
  | .fails => some (w.rollback i failed)
  | .done t =>
    some { w.setPhase i done with table := (fact.toList).foldl (fun t fact => t.append i fact) t }

-- the name a subject's tokens present, stored
variable (preferred : Subject → CodePoints)

/-- The next statement of a session. -/
def next (w : World ι) (i : ι) : Option (World ι) :=
  match w.phase i with
  | .idle => none
  | .arrived subject =>
    match w.table.view i (.binding subject) with
    | some _ => some (w.setPhase i .idle)
    | none => some (w.setPhase i (.asked subject))
  | .asked subject =>
    match w.table.view i (.invitation (preferred subject)) with
    | some _ => some (w.setPhase i (.invited subject (preferred subject)))
    | none => some (w.setPhase i (.fresh subject))
  | .invited subject username =>
    w.inserting i [(.binding subject, username), (.bound username, subject.text)]
      (some (.redeems username subject)) (.redeemed subject username) (.failed subject)
  | .redeemed subject username =>
    -- one that is gone already is not deleted again
    if w.table.blocked i (.invitation username) then none
    else some { w.setPhase i (.bound subject username) with
      table := w.table.write i (.invitation username) none }
  | .fresh subject =>
    match w.table.view i (.account (preferred subject)) with
    | some _ => some (w.setPhase i (.named subject (suffixed (preferred subject) subject.text)))
    | none => some (w.setPhase i (.named subject (preferred subject)))
  | .named subject username =>
    w.inserting i [(.account username, [])] (some (.creates username subject))
      (.created subject username) (.failed subject)
  | .created subject username =>
    w.inserting i [(.binding subject, username), (.bound username, subject.text)] none
      (.bound subject username) (.failed subject)
  | .bound _ _ => some (w.commit i)
  -- the winner's account, or nobody's: the error is raised
  | .failed _ => some (w.setPhase i .idle)
  | .inviting username =>
    w.inserting i [(.account username, []), (.invitation username, [])] (some (.invites username))
      .opened .idle
  | .seeding username =>
    match w.table.view i (.account username) with
    | some _ => some (w.setPhase i (.seeded username))
    | none =>
      match insert w.table i [(.account username, [])] with
      | .waits => none
      -- somebody else made it: read again
      | .fails => some (w.setPhase i (.seeding username))
      | .done t => some { w.setPhase i (.seeded username) with table := t.commit i }
  | .seeded username =>
    match w.table.view i (.bound username) with
    | some _ => some (w.setPhase i .idle)
    | none => some (w.setPhase i (.opening username))
  | .opening username =>
    match w.table.view i (.invitation username) with
    | some _ => some (w.setPhase i .idle)
    | none => w.inserting i [(.invitation username, [])] (some (.invites username)) .opened .idle
  | .opened => some (w.commit i)

/-- One step of a session. -/
def step (w : World ι) : Act ι → Option (World ι)
  | .signIn i subject =>
    if w.phase i = .idle then some (w.setPhase i (.arrived subject)) else none
  | .invite i username found =>
    if w.phase i ≠ .idle then none
    else match w.table.view i (.account username), found with
      | none, some found => some (w.setPhase i (.inviting found))
      | _, _ => some w
  | .seed i username => if w.phase i = .idle then some (w.setPhase i (.seeding username)) else none
  | .next i => w.next preferred i
  | .abort i => if w.phase i = .idle then none else some (w.rollback i .idle)

end World

end AiraGateway.Identities
