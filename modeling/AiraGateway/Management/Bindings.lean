import AiraGateway.Management.Identities

/-!
# One subject, one account

What the tables of identities keep, whichever of the open transactions end by a commit: a subject's
account is bound to that subject, an account is redeemed once, and every account that is bound was
invited or made for its subject, under the subject's name or the one it was renamed to.
-/

namespace AiraGateway.Identities

variable {ι : Type} [DecidableEq ι]

/-- No open transaction commits: what is left is committed. -/
def nobody (_ : ι) : Bool := false

/-- The account whose invitation was redeemed. -/
def Fact.redeemed? : Fact → Option CodePoints
  | .redeems username _ => some username
  | _ => none

/-! ### The tables -/

/-- What the tables keep, whichever sessions commit. -/
structure TableSound (preferred : Subject → CodePoints)
    (t : SharedTable ι Key CodePoints Fact) : Prop where
  paired : ∀ T subject username, t.rowIf T (.binding subject) = some username ↔
    t.rowIf T (.bound username) = some subject.text
  once : ∀ T, ((t.logIf T).filterMap Fact.redeemed?).Nodup
  redeemed : ∀ T username subject, .redeems username subject ∈ t.logIf T →
    t.rowIf T (.bound username) = some subject.text
  invited : ∀ T username, t.rowIf T (.invitation username) ≠ none →
    .invites username ∈ t.logIf T
  origin : ∀ T subject username, t.rowIf T (.binding subject) = some username →
    .creates username subject ∈ t.logIf T ∨ .invites username ∈ t.logIf T
  named : ∀ T subject username, t.rowIf T (.binding subject) = some username →
    username = preferred subject ∨ username = suffixed (preferred subject) subject.text

namespace TableSound

variable {preferred : Subject → CodePoints} {t : SharedTable ι Key CodePoints Fact} {i : ι}

theorem commit (h : TableSound preferred t) (i : ι) : TableSound preferred (t.commit i) where
  paired := by
    intro T subject username
    rw [SharedTable.rowIf_commit, SharedTable.rowIf_commit]
    exact h.paired _ subject username
  once := by
    intro T
    rw [SharedTable.logIf_commit]
    exact h.once _
  redeemed := by
    intro T username subject
    rw [SharedTable.logIf_commit, SharedTable.rowIf_commit]
    exact h.redeemed _ username subject
  invited := by
    intro T username
    rw [SharedTable.logIf_commit, SharedTable.rowIf_commit]
    exact h.invited _ username
  origin := by
    intro T subject username
    rw [SharedTable.logIf_commit, SharedTable.rowIf_commit]
    exact h.origin _ subject username
  named := by
    intro T subject username
    rw [SharedTable.rowIf_commit]
    exact h.named _ subject username

theorem rollback (h : TableSound preferred t) (i : ι) : TableSound preferred (t.rollback i) where
  paired := by
    intro T subject username
    rw [SharedTable.rowIf_rollback, SharedTable.rowIf_rollback]
    exact h.paired _ subject username
  once := by
    intro T
    rw [SharedTable.logIf_rollback]
    exact h.once _
  redeemed := by
    intro T username subject
    rw [SharedTable.logIf_rollback, SharedTable.rowIf_rollback]
    exact h.redeemed _ username subject
  invited := by
    intro T username
    rw [SharedTable.logIf_rollback, SharedTable.rowIf_rollback]
    exact h.invited _ username
  origin := by
    intro T subject username
    rw [SharedTable.logIf_rollback, SharedTable.rowIf_rollback]
    exact h.origin _ subject username
  named := by
    intro T subject username
    rw [SharedTable.rowIf_rollback]
    exact h.named _ subject username

omit [DecidableEq ι] in
/-- A fact that is no redemption is told. -/
theorem append (h : TableSound preferred t) {fact : Fact} (hfact : fact.redeemed? = none) :
    TableSound preferred (t.append i fact) where
  paired := h.paired
  once := by
    intro T
    rw [SharedTable.logIf_append, List.filterMap_append]
    have hnone : (if T i = true then [fact] else []).filterMap Fact.redeemed? = [] := by
      split_ifs <;> simp [hfact]
    rw [hnone, List.append_nil]
    exact h.once T
  redeemed := by
    intro T username subject hmem
    obtain hold | ⟨-, rfl⟩ := SharedTable.mem_logIf_append.mp hmem
    · exact h.redeemed T username subject hold
    · simp [Fact.redeemed?] at hfact
  invited := by
    intro T username hrow
    exact SharedTable.mem_logIf_append.mpr (.inl (h.invited T username hrow))
  origin := by
    intro T subject username hrow
    exact (h.origin T subject username hrow).imp
      (fun hmem => SharedTable.mem_logIf_append.mpr (.inl hmem))
      (fun hmem => SharedTable.mem_logIf_append.mpr (.inl hmem))
  named := h.named

/-- An account is inserted, or an invitation deleted. -/
theorem write (h : TableSound preferred t) {k : Key} {v : Option CodePoints}
    (hblocked : t.blocked i k = false) (hbinding : ∀ subject, k ≠ .binding subject)
    (hbound : ∀ username, k ≠ .bound username)
    (hinvitation : ∀ username, k = .invitation username → v = none) :
    TableSound preferred (t.write i k v) := by
  have hrow : ∀ T l, l ≠ k → (t.write i k v).rowIf T l = t.rowIf T l :=
    fun T l hl => SharedTable.rowIf_write_of_ne hl
  refine ⟨?_, h.once, ?_, ?_, ?_, ?_⟩
  · intro T subject username
    rw [hrow T _ (hbinding subject).symm, hrow T _ (hbound username).symm]
    exact h.paired T subject username
  · intro T username subject hmem
    rw [hrow T _ (hbound username).symm]
    exact h.redeemed T username subject hmem
  · intro T username hne
    refine h.invited T username fun hnone => hne ?_
    rw [SharedTable.rowIf_write hblocked, hnone]
    split_ifs with hwritten
    · exact hinvitation username hwritten.2.symm
    · rfl
  · intro T subject username hbindingRow
    rw [hrow T _ (hbinding subject).symm] at hbindingRow
    exact h.origin T subject username hbindingRow
  · intro T subject username hbindingRow
    rw [hrow T _ (hbinding subject).symm] at hbindingRow
    exact h.named T subject username hbindingRow

/-- An invitation is inserted, and told of. -/
theorem invite (h : TableSound preferred t) {username : CodePoints} {v : Option CodePoints}
    (hblocked : t.blocked i (.invitation username) = false) :
    TableSound preferred ((t.write i (.invitation username) v).append i (.invites username)) where
  paired := by
    intro T subject name
    simp only [SharedTable.rowIf_append, SharedTable.rowIf_write hblocked, reduceCtorEq, and_false,
      if_false]
    exact h.paired T subject name
  once := (h.append rfl).once
  redeemed := by
    intro T name subject hmem
    simp only [SharedTable.rowIf_append, SharedTable.rowIf_write hblocked, reduceCtorEq, and_false,
      if_false]
    obtain hold | ⟨-, heq⟩ := SharedTable.mem_logIf_append.mp hmem
    · exact h.redeemed T name subject hold
    · exact absurd heq (by simp)
  invited := by
    intro T name hrow
    rw [SharedTable.rowIf_append, SharedTable.rowIf_write hblocked] at hrow
    refine SharedTable.mem_logIf_append.mpr ?_
    by_cases hnew : T i = true ∧ Key.invitation name = .invitation username
    · obtain rfl := Key.invitation.inj hnew.2
      exact .inr ⟨hnew.1, rfl⟩
    · rw [if_neg hnew] at hrow
      exact .inl (h.invited T name hrow)
  origin := by
    intro T subject name hrow
    simp only [SharedTable.rowIf_append, SharedTable.rowIf_write hblocked, reduceCtorEq, and_false,
      if_false] at hrow
    exact (h.origin T subject name hrow).imp
      (fun hmem => SharedTable.mem_logIf_append.mpr (.inl hmem))
      (fun hmem => SharedTable.mem_logIf_append.mpr (.inl hmem))
  named := by
    intro T subject name hrow
    simp only [SharedTable.rowIf_append, SharedTable.rowIf_write hblocked, reduceCtorEq, and_false,
      if_false] at hrow
    exact h.named T subject name hrow

/-- A subject and an account that are both free are bound to each other. -/
theorem bind (h : TableSound preferred t) {subject : Subject} {username : CodePoints}
    (hbinding : t.view i (.binding subject) = none) (hbound : t.view i (.bound username) = none)
    (hblocked : t.blocked i (.binding subject) = false)
    (hblocked' : t.blocked i (.bound username) = false)
    (horigin : ∀ T, T i = true →
      .creates username subject ∈ t.logIf T ∨ .invites username ∈ t.logIf T)
    (hnamed : username = preferred subject ∨ username = suffixed (preferred subject) subject.text) :
    TableSound preferred
      ((t.write i (.binding subject) (some username)).write i (.bound username) (some subject.text)) := by
  have hblocked'' : (t.write i (.binding subject) (some username)).blocked i (.bound username)
      = false := by
    rw [SharedTable.blocked, SharedTable.pending_write_of_ne (by simp)]
    exact hblocked'
  have hrow : ∀ T l, ((t.write i (.binding subject) (some username)).write i (.bound username)
      (some subject.text)).rowIf T l = if T i = true ∧ l = .bound username then some subject.text
        else if T i = true ∧ l = .binding subject then some username else t.rowIf T l := by
    intro T l
    rw [SharedTable.rowIf_write hblocked'', SharedTable.rowIf_write hblocked]
  -- both are free for whoever sees the session commit
  have hfreeBinding : ∀ T, T i = true → t.rowIf T (.binding subject) = none :=
    fun T hT => (SharedTable.rowIf_eq_view hblocked hT).trans hbinding
  have hfreeBound : ∀ T, T i = true → t.rowIf T (.bound username) = none :=
    fun T hT => (SharedTable.rowIf_eq_view hblocked' hT).trans hbound
  have hbindingRow : ∀ T other, ((t.write i (.binding subject) (some username)).write i
      (.bound username) (some subject.text)).rowIf T (.binding other)
        = if T i = true ∧ other = subject then some username else t.rowIf T (.binding other) := by
    intro T other
    rw [hrow]
    simp only [reduceCtorEq, and_false, if_false, Key.binding.injEq]
  have hboundRow : ∀ T other, ((t.write i (.binding subject) (some username)).write i
      (.bound username) (some subject.text)).rowIf T (.bound other)
        = if T i = true ∧ other = username then some subject.text else t.rowIf T (.bound other) := by
    intro T other
    rw [hrow]
    simp only [reduceCtorEq, and_false, if_false, Key.bound.injEq]
  refine ⟨?_, h.once, ?_, ?_, ?_, ?_⟩
  · intro T other name
    rw [hbindingRow, hboundRow]
    by_cases hT : T i = true
    · by_cases hother : other = subject
      · subst hother
        by_cases hname : name = username
        · subst hname
          simp [hT]
        · have hold := h.paired T other name
          rw [hfreeBinding T hT] at hold
          simp only [hT, true_and, if_true, hname, if_false, Option.some.injEq]
          exact ⟨fun heq => absurd heq.symm hname, fun hrow => absurd (hold.mpr hrow) (by simp)⟩
      · by_cases hname : name = username
        · subst hname
          have hold := h.paired T other name
          rw [hfreeBound T hT] at hold
          simp only [hT, true_and, if_true, hother, if_false, Option.some.injEq]
          exact ⟨fun hrow => absurd (hold.mp hrow) (by simp), fun heq => absurd (Subject.text_inj heq.symm) hother⟩
        · simp only [hother, hname, and_false, if_false]
          exact h.paired T other name
    · rw [if_neg fun hnew => hT hnew.1, if_neg fun hnew => hT hnew.1]
      exact h.paired T other name
  · intro T name other hmem
    have hold := h.redeemed T name other hmem
    rw [hboundRow, if_neg, hold]
    rintro ⟨hT, rfl⟩
    rw [hfreeBound T hT] at hold
    exact absurd hold (by simp)
  · intro T name hne
    rw [hrow] at hne
    simp only [reduceCtorEq, and_false, if_false] at hne
    exact h.invited T name hne
  · intro T other name hbindingNow
    rw [hbindingRow] at hbindingNow
    by_cases hnew : T i = true ∧ other = subject
    · rw [if_pos hnew] at hbindingNow
      obtain ⟨hT, rfl⟩ := hnew
      obtain rfl := Option.some.inj hbindingNow
      exact horigin T hT
    · rw [if_neg hnew] at hbindingNow
      exact h.origin T other name hbindingNow
  · intro T other name hbindingNow
    rw [hbindingRow] at hbindingNow
    by_cases hnew : T i = true ∧ other = subject
    · rw [if_pos hnew] at hbindingNow
      obtain ⟨-, rfl⟩ := hnew
      obtain rfl := Option.some.inj hbindingNow
      exact hnamed
    · rw [if_neg hnew] at hbindingNow
      exact h.named T other name hbindingNow

omit [DecidableEq ι] in
/-- A redemption is told with the binding it is. -/
theorem redeem (h : TableSound preferred t) {subject : Subject} {username : CodePoints}
    (hbound : ∀ T, T i = true → t.rowIf T (.bound username) = some subject.text)
    (hfresh : ∀ T, T i = true → username ∉ (t.logIf T).filterMap Fact.redeemed?) :
    TableSound preferred (t.append i (.redeems username subject)) where
  paired := h.paired
  once := by
    intro T
    rw [SharedTable.logIf_append, List.filterMap_append]
    by_cases hT : T i = true
    · rw [if_pos hT]
      refine List.nodup_append.mpr ⟨h.once T, by simp [Fact.redeemed?], ?_⟩
      intro name hmem other hother
      obtain rfl : other = username := by simpa [Fact.redeemed?] using hother
      rintro rfl
      exact hfresh T hT hmem
    · rw [if_neg hT]
      simpa using h.once T
  redeemed := by
    intro T name other hmem
    obtain hold | ⟨hT, heq⟩ := SharedTable.mem_logIf_append.mp hmem
    · exact h.redeemed T name other hold
    · obtain ⟨rfl, rfl⟩ := Fact.redeems.inj heq
      exact hbound T hT
  invited := by
    intro T name hrow
    exact SharedTable.mem_logIf_append.mpr (.inl (h.invited T name hrow))
  origin := by
    intro T other name hrow
    exact (h.origin T other name hrow).imp
      (fun hmem => SharedTable.mem_logIf_append.mpr (.inl hmem))
      (fun hmem => SharedTable.mem_logIf_append.mpr (.inl hmem))
  named := h.named

omit [DecidableEq ι] in
/-- An account that is bound to nobody was not redeemed. -/
theorem not_redeemed (h : TableSound preferred t) {T : ι → Bool} {username : CodePoints}
    (hfree : t.rowIf T (.bound username) = none) :
    username ∉ (t.logIf T).filterMap Fact.redeemed? := by
  intro hmem
  obtain ⟨fact, hfact, hredeemed⟩ := List.mem_filterMap.mp hmem
  cases fact with
  | redeems name subject =>
    obtain rfl : name = username := Option.some.inj hredeemed
    rw [h.redeemed T name subject hfact] at hfree
    exact absurd hfree (by simp)
  | invites | creates => exact absurd hredeemed (by simp [Fact.redeemed?])

end TableSound

/-! ### The sessions -/

/-- What a session has written and knows, by where it is. -/
def PhaseSound (preferred : Subject → CodePoints) (t : SharedTable ι Key CodePoints Fact) (i : ι) :
    Phase → Prop
  | .invited subject username => (∀ k, ¬ t.Held i k) ∧ username = preferred subject ∧
      .invites username ∈ t.logIf nobody
  | .named subject username => (∀ k, ¬ t.Held i k) ∧
      (username = preferred subject ∨ username = suffixed (preferred subject) subject.text)
  | .created subject username => (∀ other, ¬ t.Held i (.binding other)) ∧
      (username = preferred subject ∨ username = suffixed (preferred subject) subject.text) ∧
      ∀ T, T i = true → .creates username subject ∈ t.logIf T
  | .redeemed subject username | .bound subject username =>
      (∀ other, t.Held i (.binding other) → other = subject) ∧
      t.pending (.binding subject) = some (i, some username)
  | .opened => ∀ other, ¬ t.Held i (.binding other)
  | _ => ∀ k, ¬ t.Held i k

/-- What one session does to the tables leaves the others where they are. -/
structure Apart (i : ι) (t t' : SharedTable ι Key CodePoints Fact) : Prop where
  pending : ∀ j, j ≠ i → ∀ k v, t'.pending k = some (j, v) ↔ t.pending k = some (j, v)
  log : ∀ j, j ≠ i → ∀ fact, (∀ T : ι → Bool, T j = true → fact ∈ t.logIf T) →
    ∀ T : ι → Bool, T j = true → fact ∈ t'.logIf T
  committed : ∀ fact, fact ∈ t.logIf nobody → fact ∈ t'.logIf nobody

namespace Apart

variable {t t' t'' : SharedTable ι Key CodePoints Fact} {i : ι}

omit [DecidableEq ι] in
theorem trans (h : Apart i t t') (h' : Apart i t' t'') : Apart i t t'' where
  pending j hj k v := (h'.pending j hj k v).trans (h.pending j hj k v)
  log j hj fact hfact := h'.log j hj fact (h.log j hj fact hfact)
  committed fact hfact := h'.committed fact (h.committed fact hfact)

theorem write {k : Key} {v : Option CodePoints} (hblocked : t.blocked i k = false) :
    Apart i t (t.write i k v) where
  pending := by
    intro j hj l u
    by_cases hl : l = k
    · subst hl
      rw [SharedTable.pending_write_self]
      constructor
      · intro heq
        exact absurd (congrArg Prod.fst (Option.some.inj heq)).symm hj
      · intro hpending
        exact absurd (SharedTable.blocked_eq_false_iff.mp hblocked j u hpending) hj
    · rw [SharedTable.pending_write_of_ne hl]
  log _ _ _ hfact := hfact
  committed _ hfact := hfact

omit [DecidableEq ι] in
theorem append (fact : Fact) : Apart i t (t.append i fact) where
  pending _ _ _ _ := Iff.rfl
  log _ _ _ hfact T hT := SharedTable.mem_logIf_append.mpr (.inl (hfact T hT))
  committed _ hfact := SharedTable.mem_logIf_append.mpr (.inl hfact)

theorem commit : Apart i t (t.commit i) where
  pending := by
    intro j hj k v
    rw [SharedTable.pending_commit_eq_some_iff]
    exact and_iff_left hj
  log := by
    intro j hj fact hfact T hT
    rw [SharedTable.logIf_commit]
    refine hfact _ ?_
    rw [SharedTable.joined, Function.update_of_ne hj]
    exact hT
  committed := by
    intro fact hfact
    rw [SharedTable.logIf_commit]
    exact SharedTable.logIf_mono (fun j hj => Bool.noConfusion hj) hfact

theorem rollback : Apart i t (t.rollback i) where
  pending := by
    intro j hj k v
    rw [SharedTable.pending_rollback_eq_some_iff]
    exact and_iff_left hj
  log := by
    intro j hj fact hfact T hT
    rw [SharedTable.logIf_rollback]
    refine hfact _ ?_
    rw [SharedTable.without, Function.update_of_ne hj]
    exact hT
  committed := by
    intro fact hfact
    rw [SharedTable.logIf_rollback]
    exact SharedTable.logIf_mono (fun j hj => Bool.noConfusion hj) hfact

omit [DecidableEq ι] in
/-- A session knows what it knew. -/
theorem phaseSound (h : Apart i t t') {preferred : Subject → CodePoints} {j : ι} (hj : j ≠ i)
    {p : Phase} (hp : PhaseSound preferred t j p) : PhaseSound preferred t' j p := by
  have hheld : ∀ k, t'.Held j k ↔ t.Held j k :=
    fun k => exists_congr fun v => h.pending j hj k v
  cases p with
  | invited subject username =>
    exact ⟨fun k => (hheld k).not.mpr (hp.1 k), hp.2.1, h.committed _ hp.2.2⟩
  | named subject username => exact ⟨fun k => (hheld k).not.mpr (hp.1 k), hp.2⟩
  | created subject username =>
    exact ⟨fun other => (hheld _).not.mpr (hp.1 other), hp.2.1, h.log j hj _ hp.2.2⟩
  | redeemed subject username | bound subject username =>
    exact ⟨fun other hother => hp.1 other ((hheld _).mp hother),
      (h.pending j hj _ _).mpr hp.2⟩
  | opened => exact fun other => (hheld _).not.mpr (hp other)
  | idle | arrived | asked | fresh | failed | inviting | seeding | seeded | opening =>
    exact fun k => (hheld k).not.mpr (hp k)

end Apart

/-- The tables are sound, and every session is where it may be. -/
structure Sound (preferred : Subject → CodePoints) (w : World ι) : Prop where
  table : TableSound preferred w.table
  phase : ∀ i, PhaseSound preferred w.table i (w.phase i)

namespace Sound

variable {preferred : Subject → CodePoints} {w w' : World ι} {i : ι}

omit [DecidableEq ι] in
theorem empty : Sound preferred (World.empty : World ι) where
  table :=
    { paired := by simp [World.empty, SharedTable.rowIf]
      once := by simp [World.empty, SharedTable.logIf]
      redeemed := by simp [World.empty, SharedTable.logIf]
      invited := by simp [World.empty, SharedTable.rowIf]
      origin := by simp [World.empty, SharedTable.rowIf]
      named := by simp [World.empty, SharedTable.rowIf] }
  phase := by
    intro i k hheld
    obtain ⟨v, hpending⟩ := hheld
    simp [World.empty] at hpending

/-- One session moves on, over tables it has changed. -/
theorem move (h : Sound preferred w) {t : SharedTable ι Key CodePoints Fact} {p : Phase}
    (htable : TableSound preferred t) (hapart : Apart i w.table t)
    (hp : PhaseSound preferred t i p) :
    Sound preferred { w.setPhase i p with table := t } where
  table := htable
  phase := by
    intro j
    by_cases hj : j = i
    · subst hj
      change PhaseSound preferred t j (Function.update w.phase j p j)
      rw [Function.update_self]
      exact hp
    · change PhaseSound preferred t j (Function.update w.phase i p j)
      rw [Function.update_of_ne hj]
      exact hapart.phaseSound hj (h.phase j)

omit [DecidableEq ι] in
theorem apart_refl (t : SharedTable ι Key CodePoints Fact) : Apart i t t where
  pending _ _ _ _ := Iff.rfl
  log _ _ _ hfact := hfact
  committed _ hfact := hfact

theorem setPhase (h : Sound preferred w) {p : Phase} (hp : PhaseSound preferred w.table i p) :
    Sound preferred (w.setPhase i p) :=
  h.move h.table (apart_refl w.table) hp

/-- A session whose transaction ended holds nothing. -/
theorem not_held_rollback {t : SharedTable ι Key CodePoints Fact} (k : Key) :
    ¬ (t.rollback i).Held i k := by
  rintro ⟨v, hpending⟩
  exact (SharedTable.pending_rollback_eq_some_iff.mp hpending).2 rfl

theorem not_held_commit {t : SharedTable ι Key CodePoints Fact} (k : Key) :
    ¬ (t.commit i).Held i k := by
  rintro ⟨v, hpending⟩
  exact (SharedTable.pending_commit_eq_some_iff.mp hpending).2 rfl

theorem rollback (h : Sound preferred w) {p : Phase}
    (hp : (∀ k, ¬ (w.table.rollback i).Held i k) →
      PhaseSound preferred (w.table.rollback i) i p) : Sound preferred (w.rollback i p) :=
  h.move (h.table.rollback i) .rollback (hp not_held_rollback)

theorem commit (h : Sound preferred w) : Sound preferred (w.commit i) :=
  h.move (h.table.commit i) .commit not_held_commit

/-- What an insert finds where it is done. -/
theorem insert_done {t t' : SharedTable ι Key CodePoints Fact} {columns : List (Key × CodePoints)}
    (h : World.insert t i columns = .done t') :
    (∀ column ∈ columns, t.view i column.1 = none ∧ t.blocked i column.1 = false) ∧
      t' = columns.foldl (fun t column => t.write i column.1 (some column.2)) t := by
  unfold World.insert at h
  split_ifs at h with hthere hblocked
  refine ⟨fun column hcolumn => ⟨?_, ?_⟩, (Insertion.done.inj h).symm⟩
  · by_contra hne
    exact hthere (List.any_eq_true.mpr ⟨column, hcolumn, Option.isSome_iff_ne_none.mpr hne⟩)
  · by_contra hne
    exact hblocked (List.any_eq_true.mpr ⟨column, hcolumn, by simpa using hne⟩)

/-- An insert that is not done is waited for, or undone. -/
theorem inserting (h : Sound preferred w) {columns : List (Key × CodePoints)} {fact : Option Fact}
    {done failed : Phase} (hstep : w.inserting i columns fact done failed = some w')
    (hfailed : (∀ k, ¬ (w.table.rollback i).Held i k) →
      PhaseSound preferred (w.table.rollback i) i failed)
    (hdone : (∀ column ∈ columns,
        w.table.view i column.1 = none ∧ w.table.blocked i column.1 = false) →
      Sound preferred { w.setPhase i done with
        table := (fact.toList).foldl (fun t fact => t.append i fact)
          (columns.foldl (fun t column => t.write i column.1 (some column.2)) w.table) }) :
    Sound preferred w' := by
  unfold World.inserting at hstep
  split at hstep
  · simp at hstep
  · obtain rfl := Option.some.inj hstep
    exact h.rollback hfailed
  · rename_i t hinsert
    obtain rfl := Option.some.inj hstep
    obtain ⟨hfree, rfl⟩ := insert_done hinsert
    exact hdone hfree

omit [DecidableEq ι] in
/-- A subject is bound to an account, and nothing else is written of any binding. -/
theorem binds {t : SharedTable ι Key CodePoints Fact} {subject : Subject} {username : CodePoints}
    (hfree : ∀ other, ¬ t.Held i (.binding other)) :
    let t' := (t.write i (.binding subject) (some username)).write i (.bound username) (some subject.text)
    (∀ other, t'.Held i (.binding other) → other = subject) ∧
      t'.pending (.binding subject) = some (i, some username) := by
  constructor
  · intro other hheld
    by_contra hne
    refine hfree other (hheld.imp fun v hpending => ?_)
    rwa [SharedTable.pending_write_of_ne (by simp),
      SharedTable.pending_write_of_ne (by simpa using hne)] at hpending
  · rw [SharedTable.pending_write_of_ne (by simp), SharedTable.pending_write_self]

/-- The two columns of an identity, one after the other. -/
theorem apart_bind {t : SharedTable ι Key CodePoints Fact} {k l : Key} {v u : Option CodePoints}
    (hne : l ≠ k) (hk : t.blocked i k = false) (hl : t.blocked i l = false) :
    Apart i t ((t.write i k v).write i l u) := by
  have hl' : (t.write i k v).blocked i l = false := by
    rw [SharedTable.blocked, SharedTable.pending_write_of_ne hne]
    exact hl
  exact (Apart.write hk).trans (.write hl')

theorem redeem (h : Sound preferred w) {subject : Subject} {username : CodePoints}
    (hphase : w.phase i = .invited subject username)
    (hfree : ∀ column ∈ [(Key.binding subject, username), (.bound username, subject.text)],
      w.table.view i column.1 = none ∧ w.table.blocked i column.1 = false) :
    Sound preferred { w.setPhase i (.redeemed subject username) with
      table := ((w.table.write i (.binding subject) (some username)).write i (.bound username)
        (some subject.text)).append i (.redeems username subject) } := by
  obtain ⟨hnot, hname, hinvited⟩ : PhaseSound preferred w.table i (.invited subject username) :=
    hphase ▸ h.phase i
  obtain ⟨hbinding, hblocked⟩ := hfree (.binding subject, username) (by simp)
  obtain ⟨hbound, hblocked'⟩ := hfree (.bound username, subject.text) (by simp)
  have hapart : Apart i w.table ((w.table.write i (.binding subject) (some username)).write i
      (.bound username) (some subject.text)) := apart_bind (by simp) hblocked hblocked'
  refine h.move ?_ (hapart.trans (.append _)) (binds fun other => hnot _)
  refine (h.table.bind hbinding hbound hblocked hblocked' ?_ (.inl hname)).redeem ?_ ?_
  · intro T _
    exact .inr (SharedTable.logIf_mono (fun j hj => Bool.noConfusion hj) hinvited)
  · intro T hT
    have hblocked'' : (w.table.write i (.binding subject) (some username)).blocked i
        (.bound username) = false := by
      rw [SharedTable.blocked, SharedTable.pending_write_of_ne (by simp)]
      exact hblocked'
    rw [SharedTable.rowIf_write hblocked'', if_pos ⟨hT, rfl⟩]
  · intro T hT
    exact h.table.not_redeemed ((SharedTable.rowIf_eq_view hblocked' hT).trans hbound)

theorem create (h : Sound preferred w) {subject : Subject} {username : CodePoints}
    (hphase : w.phase i = .named subject username)
    (hfree : ∀ column ∈ [(Key.account username, ([] : CodePoints))],
      w.table.view i column.1 = none ∧ w.table.blocked i column.1 = false) :
    Sound preferred { w.setPhase i (.created subject username) with
      table := (w.table.write i (.account username) (some [])).append i
        (.creates username subject) } := by
  obtain ⟨hnot, hname⟩ : PhaseSound preferred w.table i (.named subject username) :=
    hphase ▸ h.phase i
  obtain ⟨-, hblocked⟩ := hfree (.account username, []) (by simp)
  refine h.move ?_ ((Apart.write hblocked).trans (.append _)) ⟨?_, hname, ?_⟩
  · exact (h.table.write hblocked (by simp) (by simp) (by simp)).append rfl
  · rintro other ⟨v, hpending⟩
    refine hnot (.binding other) ⟨v, ?_⟩
    rwa [SharedTable.pending_append, SharedTable.pending_write_of_ne (by simp)] at hpending
  · intro T hT
    exact SharedTable.mem_logIf_append.mpr (.inr ⟨hT, rfl⟩)

theorem bind (h : Sound preferred w) {subject : Subject} {username : CodePoints}
    (hphase : w.phase i = .created subject username)
    (hfree : ∀ column ∈ [(Key.binding subject, username), (.bound username, subject.text)],
      w.table.view i column.1 = none ∧ w.table.blocked i column.1 = false) :
    Sound preferred { w.setPhase i (.bound subject username) with
      table := (w.table.write i (.binding subject) (some username)).write i (.bound username)
        (some subject.text) } := by
  obtain ⟨hnot, hname, hcreates⟩ : PhaseSound preferred w.table i (.created subject username) :=
    hphase ▸ h.phase i
  obtain ⟨hbinding, hblocked⟩ := hfree (.binding subject, username) (by simp)
  obtain ⟨hbound, hblocked'⟩ := hfree (.bound username, subject.text) (by simp)
  exact h.move
    (h.table.bind hbinding hbound hblocked hblocked' (fun T hT => .inl (hcreates T hT)) hname)
    (apart_bind (by simp) hblocked hblocked') (binds hnot)

/-- An account is made and invited, or one that is there is invited. -/
theorem invite (h : Sound preferred w) {username : CodePoints}
    (hnot : ∀ other, ¬ w.table.Held i (.binding other)) {t : SharedTable ι Key CodePoints Fact}
    (htable : TableSound preferred t) (hapart : Apart i w.table t)
    (hpending : ∀ other, t.pending (.binding other) = w.table.pending (.binding other))
    (hblocked : t.blocked i (.invitation username) = false) :
    Sound preferred { w.setPhase i .opened with
      table := (t.write i (.invitation username) (some [])).append i (.invites username) } := by
  refine h.move (htable.invite hblocked) (hapart.trans ((Apart.write hblocked).trans (.append _))) ?_
  rintro other ⟨v, hheld⟩
  refine hnot other ⟨v, ?_⟩
  rwa [SharedTable.pending_append, SharedTable.pending_write_of_ne (by simp), hpending] at hheld

theorem next (h : Sound preferred w) (hstep : w.next preferred i = some w') :
    Sound preferred w' := by
  have hp := h.phase i
  unfold World.next at hstep
  split at hstep
  case h_1 => simp at hstep
  case h_2 subject hphase =>
    rw [hphase] at hp
    split at hstep <;> obtain rfl := Option.some.inj hstep
    · exact h.setPhase hp
    · exact h.setPhase hp
  case h_3 subject hphase =>
    rw [hphase] at hp
    split at hstep <;> obtain rfl := Option.some.inj hstep
    · rename_i row hview
      refine h.setPhase ⟨hp, rfl, h.table.invited _ _ ?_⟩
      rw [SharedTable.view_of_not_held (hp _)] at hview
      change w.table.rowIf (fun _ => false) _ ≠ none
      rw [SharedTable.rowIf_nobody, hview]
      exact Option.some_ne_none _
    · exact h.setPhase hp
  case h_4 subject username hphase =>
    exact h.inserting hstep (fun hfree => hfree) (h.redeem hphase)
  case h_5 subject username hphase =>
    rw [hphase] at hp
    split_ifs at hstep with hblocked
    obtain rfl := Option.some.inj hstep
    have hfree := Bool.not_eq_true _ ▸ hblocked
    refine h.move (h.table.write hfree (by simp) (by simp) (fun _ _ => rfl)) (.write hfree) ⟨?_, ?_⟩
    · rintro other ⟨v, hheld⟩
      rw [SharedTable.pending_write_of_ne (by simp)] at hheld
      exact hp.1 other ⟨v, hheld⟩
    · rw [SharedTable.pending_write_of_ne (by simp)]
      exact hp.2
  case h_6 subject hphase =>
    rw [hphase] at hp
    split at hstep <;> obtain rfl := Option.some.inj hstep
    · exact h.setPhase ⟨hp, .inr rfl⟩
    · exact h.setPhase ⟨hp, .inl rfl⟩
  case h_7 subject username hphase =>
    exact h.inserting hstep (fun hfree => hfree) (h.create hphase)
  case h_8 subject username hphase =>
    exact h.inserting hstep (fun hfree => hfree) (h.bind hphase)
  case h_9 =>
    obtain rfl := Option.some.inj hstep
    exact h.commit
  case h_10 subject hphase =>
    rw [hphase] at hp
    obtain rfl := Option.some.inj hstep
    exact h.setPhase hp
  case h_11 username hphase =>
    rw [hphase] at hp
    refine h.inserting hstep (fun hfree => hfree) fun hfree => ?_
    obtain ⟨-, hblocked⟩ := hfree (.account username, []) (by simp)
    obtain ⟨-, hblocked'⟩ := hfree (.invitation username, []) (by simp)
    refine h.invite (fun other => hp _)
      (h.table.write (v := some []) hblocked (by simp) (by simp) (by simp)) (.write hblocked) ?_ ?_
    · intro other
      exact SharedTable.pending_write_of_ne (by simp)
    · rw [SharedTable.blocked, SharedTable.pending_write_of_ne (by simp)]
      exact hblocked'
  case h_12 username hphase =>
    rw [hphase] at hp
    split at hstep
    · obtain rfl := Option.some.inj hstep
      exact h.setPhase hp
    split at hstep
    · simp at hstep
    · obtain rfl := Option.some.inj hstep
      exact h.setPhase hp
    · rename_i t hinsert
      obtain rfl := Option.some.inj hstep
      obtain ⟨hfree, rfl⟩ := insert_done hinsert
      obtain ⟨-, hblocked⟩ := hfree (.account username, []) (by simp)
      exact h.move ((h.table.write hblocked (by simp) (by simp) (by simp)).commit i)
        ((Apart.write hblocked).trans .commit) not_held_commit
  case h_13 username hphase =>
    rw [hphase] at hp
    split at hstep <;> obtain rfl := Option.some.inj hstep
    · exact h.setPhase hp
    · exact h.setPhase hp
  case h_14 username hphase =>
    rw [hphase] at hp
    split at hstep
    · obtain rfl := Option.some.inj hstep
      exact h.setPhase hp
    · refine h.inserting hstep (fun hfree => hfree) fun hfree => ?_
      obtain ⟨-, hblocked⟩ := hfree (.invitation username, []) (by simp)
      exact h.invite (fun other => hp _) h.table (apart_refl w.table) (fun _ => rfl) hblocked
  case h_15 =>
    obtain rfl := Option.some.inj hstep
    exact h.commit

theorem step (h : Sound preferred w) {a : Act ι} (hstep : w.step preferred a = some w') :
    Sound preferred w' := by
  cases a with
  | signIn i subject =>
    simp only [World.step] at hstep
    split_ifs at hstep with hok
    obtain rfl := Option.some.inj hstep
    have hp := h.phase i
    rw [hok] at hp
    exact h.setPhase hp
  | invite i username found =>
    simp only [World.step] at hstep
    split_ifs at hstep with hidle
    have hp := h.phase i
    rw [not_not.mp hidle] at hp
    split at hstep <;> obtain rfl := Option.some.inj hstep
    · exact h.setPhase hp
    · exact h
  | seed i username =>
    simp only [World.step] at hstep
    split_ifs at hstep with hidle
    obtain rfl := Option.some.inj hstep
    have hp := h.phase i
    rw [hidle] at hp
    exact h.setPhase hp
  | next i => exact h.next hstep
  | abort i =>
    simp only [World.step] at hstep
    split_ifs at hstep
    obtain rfl := Option.some.inj hstep
    exact h.rollback fun hfree => hfree

theorem run (h : Sound preferred w) {ok : World ι → Act ι → Prop} {acts : List (Act ι)}
    (hrun : Run (World.step preferred) ok w acts w') :
    Sound preferred w' :=
  hrun.invariant (fun _ _ _ hs _ hstep => hs.step hstep) h

end Sound

end AiraGateway.Identities
