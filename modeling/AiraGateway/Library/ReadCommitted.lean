import Mathlib.Data.List.Basic
import Mathlib.Logic.Function.Basic

/-!
# Transactions under read committed

A table of rows `κ → Option ρ` that sessions `ι` write in transactions, and a log into which a
transaction inserts events that are stamped from one clock as they are inserted. A statement sees
what is committed and what its own transaction wrote. A row that a transaction wrote is locked
until it ends: of one key there is at most one uncommitted value, so the value is kept with the
key, and who wrote it. A transaction that ends by a rollback leaves neither rows nor events.

A table holds what keeps it in order as fields: the keys that have or had a row are known, and the
log is in the order of its stamps.

* **Seeing** (`view_write`, `view_of_not_held`): what was written is seen by its own session only.
* **Ending** (`rows_commit`, `rows_rollback`): a commit makes a session's view the rows.
* **The last entry** (`before_getLast`): of any of the log's entries the last comes after the others
  in the order of the stamps.
* **Whichever end** (`rowIf`, `logIf`): the row of a key and the events of the log once the sessions
  of a set have committed and the others have not. A commit moves a session into the set and a
  rollback out of it (`rowIf_commit`, `logIf_commit`, `rowIf_rollback`, `logIf_rollback`), so a
  statement over all sets is one over every way the open transactions may end.
-/

namespace AiraGateway

/-- A row of the log: the session whose open transaction inserted it, its stamp, and its event. -/
structure LogEntry (ι ε : Type) where
  session : Option ι
  createdAt : ℕ
  id : ℕ
  event : ε

/-- The order of the log: by time, and by number within one time. -/
def LogEntry.Before {ι ε : Type} (a b : LogEntry ι ε) : Prop :=
  a.createdAt < b.createdAt ∨ a.createdAt = b.createdAt ∧ a.id < b.id

/-- An entry stands once the sessions of `T` have committed and the others have not. -/
def LogEntry.standsIf {ι ε : Type} (T : ι → Bool) (entry : LogEntry ι ε) : Bool :=
  entry.session.all T

/-- The entry once its session's transaction has committed. -/
def LogEntry.committed {ι ε : Type} [DecidableEq ι] (i : ι) (entry : LogEntry ι ε) :
    LogEntry ι ε :=
  if entry.session = some i then { entry with session := none } else entry

/-- Rows and events, with what open transactions wrote of them. -/
structure SharedTable (ι κ ρ ε : Type) where
  rows : κ → Option ρ
  pending : κ → Option (ι × Option ρ)
  known : List κ
  log : List (LogEntry ι ε)
  clock : ℕ
  nextId : ℕ
  complete : ∀ k, rows k ≠ none ∨ pending k ≠ none → k ∈ known
  ordered : log.Pairwise LogEntry.Before
  stamped : ∀ entry ∈ log, entry.createdAt ≤ clock ∧ entry.id < nextId

namespace SharedTable

variable {ι κ ρ ε : Type}

/-! ### What is seen -/

/-- A session holds the lock of a key it wrote. -/
def Held (t : SharedTable ι κ ρ ε) (i : ι) (k : κ) : Prop := ∃ v, t.pending k = some (i, v)

/-- What a statement of a session sees of a key. -/
def view [DecidableEq ι] (t : SharedTable ι κ ρ ε) (i : ι) (k : κ) : Option ρ :=
  match t.pending k with
  | some (j, v) => if j = i then v else t.rows k
  | none => t.rows k

/-- Another session holds the lock of the key. -/
def blocked [DecidableEq ι] (t : SharedTable ι κ ρ ε) (i : ι) (k : κ) : Bool :=
  match t.pending k with
  | some (j, _) => j ≠ i
  | none => false

/-- The keys whose row a session sees and that meet `p`. -/
def select [DecidableEq ι] (t : SharedTable ι κ ρ ε) (i : ι) (p : κ → ρ → Bool) : List κ :=
  t.known.filter fun k => (t.view i k).any (p k)

/-- The row of a key once the sessions of `T` have committed and the others have not. -/
def rowIf (t : SharedTable ι κ ρ ε) (T : ι → Bool) (k : κ) : Option ρ :=
  match t.pending k with
  | some (j, v) => if T j = true then v else t.rows k
  | none => t.rows k

/-- The events in their order once the sessions of `T` have committed and the others have not. -/
def logIf (t : SharedTable ι κ ρ ε) (T : ι → Bool) : List ε :=
  (t.log.filter (LogEntry.standsIf T)).map LogEntry.event

/-! ### What is done -/

/-- Write a row, or delete it, and lock its key. -/
def write [DecidableEq κ] (t : SharedTable ι κ ρ ε) (i : ι) (k : κ) (v : Option ρ) :
    SharedTable ι κ ρ ε :=
  { t with
    pending := Function.update t.pending k (some (i, v))
    known := if k ∈ t.known then t.known else k :: t.known
    complete := by
      intro l hl
      by_cases hlk : l = k
      · subst hlk
        split_ifs with hknown
        · exact hknown
        · exact List.mem_cons_self
      · rw [Function.update_of_ne hlk] at hl
        have hmem := t.complete l hl
        split_ifs
        · exact hmem
        · exact List.mem_cons_of_mem _ hmem }

/-- Insert an event, stamped by the clock. -/
def append (t : SharedTable ι κ ρ ε) (i : ι) (event : ε) : SharedTable ι κ ρ ε :=
  { t with
    log := t.log ++ [⟨some i, t.clock, t.nextId, event⟩]
    nextId := t.nextId + 1
    ordered := by
      refine List.pairwise_append.mpr ⟨t.ordered, List.pairwise_singleton _ _, ?_⟩
      intro a ha b hb
      rw [List.mem_singleton.mp hb]
      obtain ⟨hclock, hid⟩ := t.stamped a ha
      rcases Nat.lt_or_eq_of_le hclock with hlt | heq
      · exact .inl hlt
      · exact .inr ⟨heq, hid⟩
    stamped := by
      intro entry hentry
      rcases List.mem_append.mp hentry with h | h
      · exact ⟨(t.stamped entry h).1, Nat.lt_succ_of_lt (t.stamped entry h).2⟩
      · rw [List.mem_singleton.mp h]
        exact ⟨Nat.le_refl _, Nat.lt_succ_self _⟩ }

/-- What is written of a key, less what the session wrote of it. -/
def others [DecidableEq ι] (i : ι) : Option (ι × Option ρ) → Option (ι × Option ρ)
  | some (j, v) => if j = i then none else some (j, v)
  | none => none

/-- End a session's transaction: what it wrote is the rows, and its events stand. -/
def commit [DecidableEq ι] (t : SharedTable ι κ ρ ε) (i : ι) : SharedTable ι κ ρ ε :=
  { t with
    rows := t.view i
    pending := fun k => others i (t.pending k)
    log := t.log.map (LogEntry.committed i)
    complete := by
      intro k hk
      refine t.complete k ?_
      rw [view] at hk
      rcases hpending : t.pending k with _ | ⟨j, v⟩
      · rw [hpending] at hk
        exact .inl (hk.resolve_right fun h => h rfl)
      · exact .inr (Option.some_ne_none _)
    ordered := t.ordered.map _ fun a b h => by
      rw [LogEntry.committed, LogEntry.committed]
      split_ifs <;> exact h
    stamped := by
      intro entry hentry
      obtain ⟨old, hold, rfl⟩ := List.mem_map.mp hentry
      rw [LogEntry.committed]
      split_ifs <;> exact t.stamped old hold }

/-- Undo what a session's open transaction wrote and inserted. -/
def rollback [DecidableEq ι] (t : SharedTable ι κ ρ ε) (i : ι) : SharedTable ι κ ρ ε :=
  { t with
    pending := fun k => others i (t.pending k)
    log := t.log.filter (·.session ≠ some i)
    complete := fun k hk => t.complete k <| hk.imp_right fun h hnone => h (by rw [hnone]; rfl)
    ordered := t.ordered.filter _
    stamped := fun entry hentry => t.stamped entry (List.mem_of_mem_filter hentry) }

def tick (t : SharedTable ι κ ρ ε) : SharedTable ι κ ρ ε :=
  { t with
    clock := t.clock + 1
    stamped := fun entry hentry => ⟨Nat.le_succ_of_le (t.stamped entry hentry).1,
      (t.stamped entry hentry).2⟩ }

/-! ### Reading after writing -/

variable {t : SharedTable ι κ ρ ε} {i j : ι} {k l : κ} {v : Option ρ} {event : ε} {T : ι → Bool}

theorem blocked_eq_false_iff [DecidableEq ι] :
    t.blocked i k = false ↔ ∀ j v, t.pending k = some (j, v) → j = i := by
  rw [blocked]
  rcases t.pending k with _ | ⟨j, v⟩
  · exact ⟨fun _ _ _ h => (nomatch h), fun _ => rfl⟩
  · rw [decide_eq_false_iff_not, not_not]
    constructor
    · rintro rfl _ _ ⟨⟩
      rfl
    · exact fun h => h j v rfl

theorem mem_select [DecidableEq ι] {p : κ → ρ → Bool} :
    k ∈ t.select i p ↔ ∃ row, t.view i k = some row ∧ p k row = true := by
  rw [select, List.mem_filter, Option.any_eq_true]
  refine and_iff_right_of_imp ?_
  rintro ⟨row, hrow, -⟩
  refine t.complete k ?_
  rw [view] at hrow
  rcases hpending : t.pending k with _ | ⟨j, v⟩
  · rw [hpending] at hrow
    exact .inl (Option.ne_none_iff_exists'.mpr ⟨row, hrow⟩)
  · exact .inr (Option.some_ne_none _)

theorem view_of_pending [DecidableEq ι] (h : t.pending k = some (i, v)) : t.view i k = v := by
  rw [view, h]
  exact if_pos rfl

theorem view_of_not_held [DecidableEq ι] (h : ¬ t.Held i k) : t.view i k = t.rows k := by
  rw [view]
  rcases hpending : t.pending k with _ | ⟨j, v⟩
  · rfl
  · refine if_neg fun hj => h ⟨v, ?_⟩
    rw [hpending, hj]

@[simp] theorem rows_write [DecidableEq κ] : (t.write i k v).rows = t.rows := rfl

@[simp] theorem log_write [DecidableEq κ] : (t.write i k v).log = t.log := rfl

@[simp] theorem pending_write_self [DecidableEq κ] : (t.write i k v).pending k = some (i, v) :=
  Function.update_self ..

theorem pending_write_of_ne [DecidableEq κ] (h : l ≠ k) : (t.write i k v).pending l = t.pending l :=
  Function.update_of_ne h ..

theorem view_write_self [DecidableEq κ] [DecidableEq ι] : (t.write i k v).view i k = v :=
  view_of_pending pending_write_self

/-- What was written is seen by its own session only. -/
theorem view_write_of_ne [DecidableEq κ] [DecidableEq ι] (h : l ≠ k) :
    (t.write i k v).view j l = t.view j l := by
  rw [view, view, pending_write_of_ne h, rows_write]

@[simp] theorem rows_append : (t.append i event).rows = t.rows := rfl

@[simp] theorem pending_append : (t.append i event).pending = t.pending := rfl

@[simp] theorem view_append [DecidableEq ι] : (t.append i event).view = t.view := rfl

@[simp] theorem rows_commit [DecidableEq ι] : (t.commit i).rows = t.view i := rfl

@[simp] theorem rows_rollback [DecidableEq ι] : (t.rollback i).rows = t.rows := rfl

@[simp] theorem rows_tick : t.tick.rows = t.rows := rfl

@[simp] theorem pending_tick : t.tick.pending = t.pending := rfl

/-- What is left uncommitted is what other sessions wrote. -/
theorem pending_commit_eq_some_iff [DecidableEq ι] :
    (t.commit i).pending k = some (j, v) ↔ t.pending k = some (j, v) ∧ j ≠ i := by
  change others i (t.pending k) = some (j, v) ↔ _
  rcases t.pending k with _ | ⟨j', w⟩
  · exact ⟨fun h => (nomatch h), fun h => h.1⟩
  · rw [others]
    split_ifs with hj
    · subst hj
      refine ⟨fun h => (nomatch h), fun ⟨h, hne⟩ => absurd ?_ hne⟩
      exact (congrArg Prod.fst (Option.some.inj h)).symm
    · refine ⟨fun h => ⟨h, ?_⟩, fun h => h.1⟩
      rintro rfl
      exact hj (congrArg Prod.fst (Option.some.inj h))

theorem pending_rollback_eq_some_iff [DecidableEq ι] :
    (t.rollback i).pending k = some (j, v) ↔ t.pending k = some (j, v) ∧ j ≠ i :=
  pending_commit_eq_some_iff

/-- The last of some entries of a log is the last of them in the order of the log. -/
theorem before_getLast {p : LogEntry ι ε → Bool} {last : LogEntry ι ε}
    (h : (t.log.filter p).getLast? = some last) :
    ∀ entry ∈ t.log.filter p, entry = last ∨ entry.Before last := by
  intro entry hentry
  have hordered := t.ordered.filter p
  obtain ⟨front, hfront⟩ := List.getLast?_eq_some_iff.mp h
  rw [hfront] at hordered hentry
  rcases List.mem_append.mp hentry with hmem | hmem
  · exact .inr ((List.pairwise_append.mp hordered).2.2 entry hmem last List.mem_cons_self)
  · exact .inl (List.mem_singleton.mp hmem)

/-! ### Whichever of the open transactions end -/

/-- A set of sessions with one more. -/
def joined [DecidableEq ι] (T : ι → Bool) (i : ι) : ι → Bool := Function.update T i true

/-- A set of sessions with one fewer. -/
def without [DecidableEq ι] (T : ι → Bool) (i : ι) : ι → Bool := Function.update T i false

theorem rowIf_of_pending (h : t.pending k = some (i, v)) :
    t.rowIf T k = if T i = true then v else t.rows k := by
  rw [rowIf, h]

theorem rowIf_of_pending_none (h : t.pending k = none) : t.rowIf T k = t.rows k := by
  rw [rowIf, h]

theorem rowIf_write_of_ne [DecidableEq κ] (h : l ≠ k) :
    (t.write i k v).rowIf T l = t.rowIf T l := by
  rw [rowIf, rowIf, pending_write_of_ne h, rows_write]

/-- A row that is written is no row yet where its session does not commit. -/
theorem rowIf_write_of_out [DecidableEq κ] [DecidableEq ι] (hblocked : t.blocked i k = false)
    (hT : T i = false) : (t.write i k v).rowIf T k = t.rowIf T k := by
  rw [rowIf_of_pending pending_write_self, hT, if_neg Bool.false_ne_true, rows_write]
  rcases hpending : t.pending k with _ | ⟨j, w⟩
  · rw [rowIf_of_pending_none hpending]
  · obtain rfl := blocked_eq_false_iff.mp hblocked j w hpending
    rw [rowIf_of_pending hpending, hT, if_neg Bool.false_ne_true]

/-- What a row is once its session commits, and what it stays otherwise. -/
theorem rowIf_write [DecidableEq κ] [DecidableEq ι] (hblocked : t.blocked i k = false) :
    (t.write i k v).rowIf T l = if T i = true ∧ l = k then v else t.rowIf T l := by
  by_cases hl : l = k
  · subst hl
    by_cases hT : T i = true
    · rw [if_pos ⟨hT, rfl⟩, rowIf_of_pending pending_write_self, if_pos hT]
    · rw [if_neg fun h => hT h.1, rowIf_write_of_out hblocked (Bool.eq_false_iff.mpr hT)]
  · rw [if_neg fun h => hl h.2, rowIf_write_of_ne hl]

/-- What a session sees of a row that no other has locked is what it is once the session commits. -/
theorem rowIf_eq_view [DecidableEq ι] (hblocked : t.blocked i k = false) (hT : T i = true) :
    t.rowIf T k = t.view i k := by
  rcases hpending : t.pending k with _ | ⟨j, w⟩
  · rw [rowIf_of_pending_none hpending, view, hpending]
  · obtain rfl := blocked_eq_false_iff.mp hblocked j w hpending
    rw [rowIf_of_pending hpending, if_pos hT, view_of_pending hpending]

/-- The rows are what stands where no open transaction commits. -/
theorem rowIf_nobody : t.rowIf (fun _ => false) k = t.rows k := by
  rcases hpending : t.pending k with _ | ⟨j, w⟩
  · rw [rowIf_of_pending_none hpending]
  · rw [rowIf_of_pending hpending, if_neg Bool.false_ne_true]

@[simp] theorem rowIf_append : (t.append i event).rowIf T = t.rowIf T := rfl

theorem rowIf_commit [DecidableEq ι] : (t.commit i).rowIf T k = t.rowIf (joined T i) k := by
  rw [rowIf, rowIf, rows_commit, view]
  change (match others i (t.pending k) with
    | some (j, v) => if T j = true then v else _
    | none => _) = _
  rcases t.pending k with _ | ⟨j, v⟩
  · rfl
  · by_cases hj : j = i
    · subst hj
      simp [joined, others]
    · simp [joined, others, hj]

theorem rowIf_rollback [DecidableEq ι] : (t.rollback i).rowIf T k = t.rowIf (without T i) k := by
  rw [rowIf, rowIf, rows_rollback]
  change (match others i (t.pending k) with
    | some (j, v) => if T j = true then v else _
    | none => _) = _
  rcases t.pending k with _ | ⟨j, v⟩
  · rfl
  · by_cases hj : j = i
    · subst hj
      simp [without, others]
    · simp [without, others, hj]

@[simp] theorem logIf_write [DecidableEq κ] : (t.write i k v).logIf T = t.logIf T := rfl

theorem logIf_append :
    (t.append i event).logIf T = t.logIf T ++ if T i = true then [event] else [] := by
  change ((t.log ++ [_]).filter _).map _ = _
  rw [List.filter_append, List.map_append]
  refine congrArg _ ?_
  by_cases hT : T i = true
  · rw [if_pos hT, List.filter_cons_of_pos (by exact hT)]
    rfl
  · rw [if_neg hT, List.filter_cons_of_neg (by exact hT)]
    rfl

theorem mem_logIf_append {e : ε} :
    e ∈ (t.append i event).logIf T ↔ e ∈ t.logIf T ∨ T i = true ∧ e = event := by
  rw [logIf_append, List.mem_append]
  by_cases hT : T i = true
  · simp [hT]
  · simp [hT]

/-- The more sessions commit, the more events stand. -/
theorem logIf_mono {T' : ι → Bool} (h : ∀ i, T i = true → T' i = true) {e : ε}
    (he : e ∈ t.logIf T) : e ∈ t.logIf T' := by
  obtain ⟨entry, hentry, rfl⟩ := List.mem_map.mp he
  obtain ⟨hmem, hstands⟩ := List.mem_filter.mp hentry
  refine List.mem_map.mpr ⟨entry, List.mem_filter.mpr ⟨hmem, ?_⟩, rfl⟩
  rw [LogEntry.standsIf] at hstands ⊢
  rcases hsession : entry.session with _ | j
  · rfl
  · rw [hsession] at hstands
    exact h j hstands

theorem logIf_commit [DecidableEq ι] : (t.commit i).logIf T = t.logIf (joined T i) := by
  change ((t.log.map (LogEntry.committed i)).filter _).map _ = _
  rw [List.filter_map, List.map_map, logIf]
  have hstands : ∀ entry : LogEntry ι ε,
      (LogEntry.standsIf T ∘ LogEntry.committed i) entry = entry.standsIf (joined T i) := by
    intro entry
    rw [Function.comp_apply, LogEntry.committed, LogEntry.standsIf, LogEntry.standsIf]
    rcases hsession : entry.session with _ | j
    · rw [if_neg (by simp), hsession]
      rfl
    · by_cases hj : j = i
      · subst hj
        simp [joined]
      · simp [joined, hj, hsession]
  rw [List.filter_congr fun entry _ => hstands entry]
  refine List.map_congr_left fun entry _ => ?_
  rw [Function.comp_apply, LogEntry.committed]
  split_ifs <;> rfl

theorem logIf_rollback [DecidableEq ι] : (t.rollback i).logIf T = t.logIf (without T i) := by
  change ((t.log.filter (·.session ≠ some i)).filter _).map _ = _
  rw [List.filter_filter, logIf]
  refine congrArg _ (List.filter_congr fun entry _ => ?_)
  rw [LogEntry.standsIf, LogEntry.standsIf]
  rcases hsession : entry.session with _ | j
  · simp
  · by_cases hj : j = i
    · subst hj
      simp [without]
    · simp [without, hj]

end SharedTable

end AiraGateway
