import AiraGateway.Management.Bindings
import Mathlib.Data.List.Sort

/-!
# Whom a membership reaches

A direct membership crosses to the gateway as the name of an account, and the gateway matches it
against the preferred name a token presents. The two are one where an account has the name its
subject presents and nobody else presents it. Which accounts were renamed is read off their names,
by looking for the suffix that a renaming leaves.

* `reaches_who_it_names`: in every run a subject has one account and an account one subject, an
  invitation is redeemed once, and whoever is bound was invited or made for the subject. A name is
  refused exactly where it would reach somebody else, or nobody, as long as names are stored as they
  are presented, none ends like a renamed one, and no two are cut to the same.
* `accepted_for_nobody`: a name with a blank is stored as the subject, and accepted.
-/

namespace AiraGateway.Identities

variable {ι : Type} [DecidableEq ι]

/-! ### The check -/

section Check

variable (t : SharedTable ι Key CodePoints Fact)

/-- Accounts provisioned for somebody who signed in under a name that was taken. -/
def namesakesOf (username : CodePoints) : List CodePoints :=
  t.known.filterMap fun
    | .binding subject => (t.rows (.binding subject)).filter fun name =>
        (username.take (usernameMaxLength - suffixProbe.length)).isPrefixOf name &&
          decide (name ≠ username) && decide (name = suffixed username subject.text)
    | _ => none

/-- The name a renamed account's owner presents, read off its own. -/
def signsInAs (username : CodePoints) : Option CodePoints :=
  (t.rows (.bound username)).bind fun subject =>
    let tail := suffix subject
    if tail.isSuffixOf username && decide (tail.length < username.length) then
      some (username.take (username.length - tail.length))
    else none

/-- Why a direct membership is refused. -/
inductive Refusal
  | ambiguous (username : CodePoints) (namesakes : List CodePoints)
  | renamed (username signedInAs : CodePoints)
  deriving DecidableEq

/-- The field an error is about, and what it says. -/
def Refusal.message : Refusal → Text × CodePoints
  | ambiguous username namesakes => ("username", points "'".toList ++ username ++
      points "' is ambiguous: the account ".toList ++
      List.intercalate (points ", ".toList) namesakes ++ points " also signs in as '".toList ++
      username ++ points ("'. The gateway grants a direct membership to whoever signs in under " ++
        "that name, which is no longer the account shown here, so the grant is " ++
        "refused. Grant access through a Keycloak group instead.").toList)
  | renamed username signedInAs => ("username", points "'".toList ++ username ++
      points "' signs in as '".toList ++ signedInAs ++
      points ("' — the account was renamed here because " ++
        "that name was taken — and the gateway matches a direct membership by the " ++
        "sign-in name, so a membership under this name would reach nobody there. " ++
        "Grant access through a Keycloak group instead.").toList)

/-- Refuse a direct membership whose name would reach a different person at the gateway. -/
def refuse (username : CodePoints) : Option Refusal :=
  match (namesakesOf t username).insertionSort (· ≤ ·) with
  | [] => (signsInAs t username).map (.renamed username)
  | namesakes => some (.ambiguous username namesakes)

omit [DecidableEq ι] in
/-- A suffix is never longer than the probe, so what is kept of a name is kept of a longer part. -/
theorem take_prefix_suffixed (username subject : CodePoints) :
    username.take (usernameMaxLength - suffixProbe.length) <+: suffixed username subject := by
  have hlength : (suffix subject).length ≤ suffixProbe.length := by
    have hpiece : (subject.take 8).length ≤ 8 := List.length_take_le ..
    have hprobe : suffixProbe.length = 9 := by decide
    have hsuffix : (suffix subject).length = 1 + (subject.take 8).length := by
      rw [suffix, List.length_append]
      rfl
    omega
  refine (List.take_prefix_take_left ?_).trans (List.prefix_append _ _)
  omega

omit [DecidableEq ι] in
theorem mem_namesakesOf {username name : CodePoints} : name ∈ namesakesOf t username ↔
    ∃ subject, t.rows (.binding subject) = some name ∧ name ≠ username ∧
      name = suffixed username subject.text := by
  constructor
  · intro hmem
    obtain ⟨k, -, hk⟩ := List.mem_filterMap.mp hmem
    cases k with
    | binding subject =>
      obtain ⟨hrow, hname⟩ := Option.filter_eq_some_iff.mp hk
      simp only [Bool.and_eq_true, decide_eq_true_eq] at hname
      exact ⟨subject, hrow, hname.1.2, hname.2⟩
    | account | bound | invitation => exact absurd hk (by simp)
  · rintro ⟨subject, hrow, hne, hname⟩
    refine List.mem_filterMap.mpr ⟨.binding subject, t.complete _ (.inl (by simp [hrow])), ?_⟩
    refine Option.filter_eq_some_iff.mpr ⟨hrow, ?_⟩
    have hstarts := List.isPrefixOf_iff_prefix.mpr (take_prefix_suffixed username subject.text)
    rw [← hname] at hstarts
    simp [hstarts, hne, ← hname]

omit [DecidableEq ι] in
theorem refuse_eq_none_iff {username : CodePoints} :
    refuse t username = none ↔ namesakesOf t username = [] ∧ signsInAs t username = none := by
  unfold refuse
  have hperm := List.perm_insertionSort (· ≤ ·) (namesakesOf t username)
  split
  · rename_i hnil
    rw [hnil] at hperm
    rw [hperm.nil_eq.symm]
    simp
  · rename_i namesakes hnot
    constructor
    · intro h
      simp at h
    · rintro ⟨hnil, -⟩
      rw [hnil] at hnot
      exact absurd rfl (hnot ·)

end Check

/-! ### Names that stand for whoever presents them -/

section Statements

-- what is part of a word, what is stripped off a name, and what a subject's tokens present
variable (isWord isBlank : ℕ → Bool) (claimed : Subject → Option CodePoints)

/-- The name a subject's account is stored under, where it is free. -/
def preferredName (subject : Subject) : CodePoints :=
  safeUsername isWord isBlank (claimed subject) subject.text

/-- **Whom a name reaches**: a membership under an account's name is accepted exactly where its
subject presents the name and no other subject that has signed in does. -/
def ReachesWhoItNames (t : SharedTable ι Key CodePoints Fact) : Prop :=
  ∀ subject username, t.rows (.binding subject) = some username →
    (refuse t username = none ↔ claimed subject = some username ∧
      ∀ other, other ≠ subject → t.rows (.binding other) ≠ none → claimed other ≠ some username)

/-- An account under a preferred name looks like one that was renamed. -/
def endsLikeRenamed (subject username : CodePoints) : Bool :=
  (suffix subject).isSuffixOf username && decide ((suffix subject).length < username.length)

/-- An account is taken for one renamed from another's name, which its subject does not present. -/
def mistaken (subject : Subject) (username : CodePoints) (other : Subject) (name : CodePoints) : Bool :=
  decide (preferredName isWord isBlank claimed subject = username) &&
    decide (name = suffixed username other.text) &&
      decide (preferredName isWord isBlank claimed other ≠ username)

/-- A subject's name is stored as it is presented and does not end like a renamed one, and the
account it is bound to is not mistaken for one renamed from another's name, nor another for it. -/
def nameStands (t : SharedTable ι Key CodePoints Fact) (subject : Subject)
    (username : CodePoints) : Bool :=
  decide (claimed subject = some (preferredName isWord isBlank claimed subject)) &&
    !endsLikeRenamed subject.text (preferredName isWord isBlank claimed subject) &&
      t.known.all fun
        | .binding other => (t.rows (.binding other)).all fun name =>
            !mistaken isWord isBlank claimed subject username other name &&
              !mistaken isWord isBlank claimed other name subject username
        | _ => true

/-- The names of those who sign in stand. -/
def namesStand (w : World ι) : Act ι → Bool
  | .next i =>
    match w.phase i with
    | .bound subject username => nameStands isWord isBlank claimed w.table subject username
    | _ => true
  | _ => true

/-- What the bound accounts' names are. -/
structure Standing (t : SharedTable ι Key CodePoints Fact) : Prop where
  presented : ∀ subject username, t.rows (.binding subject) = some username →
    claimed subject = some (preferredName isWord isBlank claimed subject)
  plain : ∀ subject username, t.rows (.binding subject) = some username →
    endsLikeRenamed subject.text (preferredName isWord isBlank claimed subject) = false
  apart : ∀ subject username, t.rows (.binding subject) = some username →
    ∀ other name, t.rows (.binding other) = some name →
      mistaken isWord isBlank claimed subject username other name = false

end Statements

section Names

variable {isWord isBlank : ℕ → Bool} {claimed : Subject → Option CodePoints}

theorem preferredName_ne_nil (isWord isBlank : ℕ → Bool) (claimed : Subject → Option CodePoints)
    (subject : Subject) : preferredName isWord isBlank claimed subject ≠ [] := by
  intro hnil
  unfold preferredName safeUsername at hnil
  dsimp only at hnil
  split_ifs at hnil with hok
  · simp [hnil, usernameValid] at hok
  · have hbindable := subject.bindable
    have hne : subject.text ≠ [] := by
      intro hempty
      simp [hempty, Identities.bindable] at hbindable
    have hpos := List.length_pos_iff.mpr hne
    have hlength := congrArg List.length hnil
    rw [List.length_take, usernameMaxLength, List.length_nil] at hlength
    omega

omit [DecidableEq ι] in
/-- Whoever is renamed looks like it. -/
theorem endsLikeRenamed_suffixed {preferred : CodePoints} (subject : CodePoints)
    (h : preferred ≠ []) :
    endsLikeRenamed subject (suffixed preferred subject) = true := by
  have hsuffix : (suffix subject).isSuffixOf (suffixed preferred subject) = true :=
    List.isSuffixOf_iff_suffix.mpr (List.suffix_append _ _)
  have hshort : (suffix subject).length ≤ 9 := by
    have hpiece : (subject.take 8).length ≤ 8 := List.length_take_le ..
    have hlength : (suffix subject).length = 1 + (subject.take 8).length := by
      rw [suffix, List.length_append]
      rfl
    omega
  have hkept : 0 < (preferred.take (usernameMaxLength - (suffix subject).length)).length := by
    have hpos : 0 < preferred.length := List.length_pos_iff.mpr h
    rw [List.length_take, usernameMaxLength]
    omega
  have hlonger : (suffix subject).length < (suffixed preferred subject).length := by
    rw [suffixed, List.length_append]
    omega
  simp [endsLikeRenamed, hsuffix, hlonger]

omit [DecidableEq ι] in
theorem signsInAs_eq_none_iff {t : SharedTable ι Key CodePoints Fact} {subject username : CodePoints}
    (h : t.rows (.bound username) = some subject) :
    signsInAs t username = none ↔ endsLikeRenamed subject username = false := by
  unfold signsInAs endsLikeRenamed
  rw [h, Option.bind_some]
  dsimp only
  split_ifs with hends
  · rw [hends]
    simp
  · exact iff_of_true rfl (Bool.eq_false_iff.mpr hends)

omit [DecidableEq ι] in
/-- **The check is right** about names that stand. -/
theorem Standing.reaches {t : SharedTable ι Key CodePoints Fact}
    (h : Standing isWord isBlank claimed t)
    (hsound : TableSound (preferredName isWord isBlank claimed) t) :
    ReachesWhoItNames claimed t := by
  intro subject username hrow
  have hpaired : ∀ subject username, t.rows (.binding subject) = some username ↔
      t.rows (.bound username) = some subject.text := by
    intro subject username
    have hboth := hsound.paired (fun _ => false) subject username
    rwa [SharedTable.rowIf_nobody, SharedTable.rowIf_nobody] at hboth
  have hnamed : ∀ subject username, t.rows (.binding subject) = some username →
      username = preferredName isWord isBlank claimed subject ∨
        username = suffixed (preferredName isWord isBlank claimed subject) subject.text := by
    intro subject username hrow
    refine hsound.named (fun _ => false) subject username ?_
    rwa [SharedTable.rowIf_nobody]
  have hbound := (hpaired subject username).mp hrow
  rw [refuse_eq_none_iff, signsInAs_eq_none_iff hbound]
  have hpresented := h.presented subject username hrow
  have hplain := h.plain subject username hrow
  obtain hown | hrenamed := hnamed subject username hrow
  · -- the account has the name its subject presents
    rw [← hown] at hpresented hplain
    constructor
    · rintro ⟨hnil, -⟩
      refine ⟨hpresented, ?_⟩
      intro other hne hother hclaimed
      obtain ⟨name, hname⟩ := Option.ne_none_iff_exists'.mp hother
      -- whoever else presents it was renamed, and is found
      have hsame : preferredName isWord isBlank claimed other = username :=
        Option.some.inj ((h.presented other name hname).symm.trans hclaimed)
      have hdistinct : name ≠ username := by
        rintro rfl
        have hback := (hpaired other name).mp hname
        rw [hbound] at hback
        exact hne (Subject.text_inj (Option.some.inj hback).symm)
      have hsuffixed : name = suffixed username other.text := by
        have hor := hnamed other name hname
        rw [hsame] at hor
        exact hor.resolve_left hdistinct
      have hmem := (mem_namesakesOf t).mpr ⟨other, hname, hdistinct, hsuffixed⟩
      rw [hnil] at hmem
      exact absurd hmem List.not_mem_nil
    · rintro ⟨-, hnobody⟩
      refine ⟨List.eq_nil_iff_forall_not_mem.mpr fun name hmem => ?_, hplain⟩
      obtain ⟨other, hname, hdistinct, hsuffixed⟩ := (mem_namesakesOf t).mp hmem
      have hnot := h.apart subject username hrow other name hname
      have hsame : preferredName isWord isBlank claimed other = username := by
        by_contra hne
        simp [mistaken, ← hown, ← hsuffixed, hne] at hnot
      have hne : other ≠ subject := by
        rintro rfl
        rw [hrow] at hname
        exact hdistinct (Option.some.inj hname).symm
      refine hnobody other hne (by simp [hname]) ?_
      rw [h.presented other name hname, hsame]
  · -- the account was renamed: its name is presented by nobody it is bound to
    have hfull := preferredName_ne_nil isWord isBlank claimed subject
    have hends := endsLikeRenamed_suffixed subject.text hfull
    rw [← hrenamed] at hends
    constructor
    · rintro ⟨-, hnot⟩
      rw [hends] at hnot
      exact absurd hnot (by simp)
    · rintro ⟨hclaimed, -⟩
      rw [hpresented] at hclaimed
      rw [Option.some.inj hclaimed, hends] at hplain
      exact absurd hplain (by simp)

/-! ### Runs -/

section Runs

variable {preferred : Subject → CodePoints} {w w' : World ι} {i : ι}

/-- An insert binds nobody before its transaction ends. -/
theorem rows_inserting {columns : List (Key × CodePoints)} {fact : Option Fact}
    {done failed : Phase} (h : w.inserting i columns fact done failed = some w') :
    w'.table.rows = w.table.rows := by
  have hcolumns : ∀ (columns : List (Key × CodePoints)) (t : SharedTable ι Key CodePoints Fact),
      (columns.foldl (fun t column => t.write i column.1 (some column.2)) t).rows = t.rows := by
    intro columns
    induction columns with
    | nil => exact fun t => rfl
    | cons column columns ih => exact fun t => (ih _).trans SharedTable.rows_write
  unfold World.inserting at h
  split at h
  · simp at h
  · obtain rfl := Option.some.inj h
    rfl
  · rename_i t hinsert
    obtain rfl := Option.some.inj h
    obtain ⟨-, rfl⟩ := Sound.insert_done hinsert
    cases fact with
    | none => exact hcolumns columns w.table
    | some fact => exact hcolumns columns w.table

/-- **Bindings change** where a sign-in commits, and there by the one binding it is. -/
theorem bindings_step (h : Sound preferred w) {a : Act ι} (hstep : w.step preferred a = some w') :
    (∀ subject, w'.table.rows (.binding subject) = w.table.rows (.binding subject)) ∨
      ∃ i subject username, a = .next i ∧ w.phase i = .bound subject username ∧
        ∀ other, w'.table.rows (.binding other) =
          if other = subject then some username else w.table.rows (.binding other) := by
  have hcommit : ∀ (t : SharedTable ι Key CodePoints Fact) (i : ι),
      (∀ other, ¬ t.Held i (.binding other)) →
        ∀ subject, (t.commit i).rows (.binding subject) = t.rows (.binding subject) :=
    fun t i hnot subject => SharedTable.view_of_not_held (hnot subject)
  cases a with
  | signIn i subject =>
    simp only [World.step] at hstep
    split_ifs at hstep
    obtain rfl := Option.some.inj hstep
    exact .inl fun _ => rfl
  | invite i username found =>
    simp only [World.step] at hstep
    split_ifs at hstep
    split at hstep <;> obtain rfl := Option.some.inj hstep <;> exact .inl fun _ => rfl
  | seed i username =>
    simp only [World.step] at hstep
    split_ifs at hstep
    obtain rfl := Option.some.inj hstep
    exact .inl fun _ => rfl
  | abort i =>
    simp only [World.step] at hstep
    split_ifs at hstep
    obtain rfl := Option.some.inj hstep
    exact .inl fun _ => rfl
  | next i =>
    have hp := h.phase i
    change w.next preferred i = some w' at hstep
    unfold World.next at hstep
    split at hstep
    case h_1 => simp at hstep
    case h_2 | h_3 | h_6 | h_13 =>
      split at hstep <;> obtain rfl := Option.some.inj hstep <;> exact .inl fun _ => rfl
    case h_4 | h_7 | h_8 | h_11 =>
      exact .inl fun subject => congrFun (rows_inserting hstep) _
    case h_5 =>
      split_ifs at hstep
      obtain rfl := Option.some.inj hstep
      exact .inl fun _ => rfl
    case h_9 subject username hphase =>
      obtain rfl := Option.some.inj hstep
      rw [hphase] at hp
      refine .inr ⟨i, subject, username, rfl, hphase, fun other => ?_⟩
      change w.table.view i (.binding other) = _
      by_cases hother : other = subject
      · subst hother
        rw [if_pos rfl]
        exact SharedTable.view_of_pending hp.2
      · rw [if_neg hother]
        exact SharedTable.view_of_not_held fun hheld => hother (hp.1 other hheld)
    case h_10 =>
      obtain rfl := Option.some.inj hstep
      exact .inl fun _ => rfl
    case h_12 username hphase =>
      rw [hphase] at hp
      split at hstep
      · obtain rfl := Option.some.inj hstep
        exact .inl fun _ => rfl
      split at hstep
      · simp at hstep
      · obtain rfl := Option.some.inj hstep
        exact .inl fun _ => rfl
      · rename_i t hinsert
        obtain rfl := Option.some.inj hstep
        obtain ⟨-, rfl⟩ := Sound.insert_done hinsert
        refine .inl (hcommit _ i ?_)
        rintro other ⟨v, hpending⟩
        have hne : Key.binding other ≠ .account username := by simp
        exact hp (.binding other) ⟨v, (SharedTable.pending_write_of_ne hne).symm.trans hpending⟩
    case h_14 =>
      split at hstep
      · obtain rfl := Option.some.inj hstep
        exact .inl fun _ => rfl
      · exact .inl fun subject => congrFun (rows_inserting hstep) _
    case h_15 hphase =>
      obtain rfl := Option.some.inj hstep
      rw [hphase] at hp
      exact .inl (hcommit w.table i hp)

/-- Names that stand when they are bound go on standing. -/
theorem Standing.step (h : Standing isWord isBlank claimed w.table)
    (hsound : Sound (preferredName isWord isBlank claimed) w) {a : Act ι}
    (hok : namesStand isWord isBlank claimed w a = true)
    (hstep : w.step (preferredName isWord isBlank claimed) a = some w') :
    Standing isWord isBlank claimed w'.table := by
  obtain hsame | ⟨i, subject, username, rfl, hphase, hrows⟩ := bindings_step hsound hstep
  · refine ⟨?_, ?_, ?_⟩
    · intro subject username hrow
      exact h.presented subject username ((hsame subject).symm.trans hrow)
    · intro subject username hrow
      exact h.plain subject username ((hsame subject).symm.trans hrow)
    · intro subject username hrow other name hname
      exact h.apart subject username ((hsame subject).symm.trans hrow) other name
        ((hsame other).symm.trans hname)
  · simp only [namesStand, hphase, nameStands, Bool.and_eq_true, decide_eq_true_eq,
      Bool.not_eq_true', List.all_eq_true] at hok
    obtain ⟨⟨hpresented, hplain⟩, hall⟩ := hok
    have hothers : ∀ other name, w.table.rows (.binding other) = some name →
        mistaken isWord isBlank claimed subject username other name = false ∧
          mistaken isWord isBlank claimed other name subject username = false := by
      intro other name hname
      have hone := hall (.binding other) (w.table.complete _ (.inl (by simp [hname])))
      simpa [hname] using hone
    refine ⟨?_, ?_, ?_⟩
    · intro other name hname
      rw [hrows] at hname
      split_ifs at hname with hother
      · exact hother ▸ hpresented
      · exact h.presented other name hname
    · intro other name hname
      rw [hrows] at hname
      split_ifs at hname with hother
      · exact hother ▸ hplain
      · exact h.plain other name hname
    · intro first name hfirst second name' hsecond
      rw [hrows] at hfirst hsecond
      split_ifs at hfirst with hfirstIs <;> split_ifs at hsecond with hsecondIs
      · -- no name ends like one renamed from itself
        obtain rfl := Option.some.inj hfirst
        obtain rfl := Option.some.inj hsecond
        subst hfirstIs
        subst hsecondIs
        by_contra htrue
        simp only [mistaken, Bool.not_eq_false, Bool.and_eq_true, decide_eq_true_eq] at htrue
        exact htrue.2 htrue.1.1
      · obtain rfl := Option.some.inj hfirst
        exact hfirstIs ▸ (hothers second name' hsecond).1
      · obtain rfl := Option.some.inj hsecond
        exact hsecondIs ▸ (hothers first name hfirst).2
      · exact h.apart first name hfirst second name' hsecond

/-- What holds of who is who at every moment: a subject's account is its own, an invitation is
redeemed once, and an account that is bound was made for the subject or invited. -/
structure WhoIsWho (t : SharedTable ι Key CodePoints Fact) : Prop where
  own : ∀ subject other username, t.rows (.binding subject) = some username →
    t.rows (.binding other) = some username → subject = other
  once : ((t.logIf nobody).filterMap Fact.redeemed?).Nodup
  origin : ∀ subject username, t.rows (.binding subject) = some username →
    .creates username subject ∈ t.logIf nobody ∨ .invites username ∈ t.logIf nobody

omit [DecidableEq ι] in
theorem TableSound.whoIsWho {t : SharedTable ι Key CodePoints Fact} (h : TableSound preferred t) :
    WhoIsWho t where
  own := by
    intro subject other username hrow hrow'
    rw [← SharedTable.rowIf_nobody] at hrow hrow'
    have hbound := (h.paired _ subject username).mp hrow
    rw [(h.paired _ other username).mp hrow'] at hbound
    exact Subject.text_inj (Option.some.inj hbound).symm
  once := h.once nobody
  origin := by
    intro subject username hrow
    rw [← SharedTable.rowIf_nobody] at hrow
    exact h.origin _ subject username hrow

/-- **A membership reaches whom it names**: at every moment of every run each is who they are, and
where the names of all who signed in stand, a name is refused exactly where it would reach somebody
else, or nobody. -/
theorem reaches_who_it_names (isWord isBlank : ℕ → Bool) (claimed : Subject → Option CodePoints) :
    (∀ acts (w : World ι), Run (World.step (preferredName isWord isBlank claimed))
        (fun _ _ => True) World.empty acts w → WhoIsWho w.table) ∧
      ∀ acts (w : World ι), Run (World.step (preferredName isWord isBlank claimed))
        (fun w a => namesStand isWord isBlank claimed w a = true) World.empty acts w →
          ReachesWhoItNames claimed w.table := by
  constructor
  · intro acts w hrun
    exact (Sound.empty.run hrun).table.whoIsWho
  · intro acts w hrun
    obtain ⟨hsound, hstanding⟩ : Sound (preferredName isWord isBlank claimed) w ∧
        Standing isWord isBlank claimed w.table := by
      refine hrun.invariant (P := fun w => Sound (preferredName isWord isBlank claimed) w ∧
        Standing isWord isBlank claimed w.table) ?_ ⟨.empty, ?_⟩
      · rintro w a w' ⟨hsound, hstanding⟩ hok hstep
        exact ⟨hsound.step hstep, hstanding.step hsound hok hstep⟩
      · refine ⟨?_, ?_, ?_⟩ <;> intro subject username hrow <;> simp [World.empty] at hrow
    exact hstanding.reaches hsound.table

end Runs

end Names

section Example

/-- Letters, digits and the underscore, as far as these names go. -/
private def asciiWord (c : ℕ) : Bool :=
  (48 ≤ c && c ≤ 57) || (65 ≤ c && c ≤ 90) || (97 ≤ c && c ≤ 122) || c = 95

private def asciiBlank (c : ℕ) : Bool := (9 ≤ c && c ≤ 13) || c = 32

private def first : Subject := ⟨"0b1c7a52-first", by decide⟩

private def second : Subject := ⟨"91d4ee03-second", by decide⟩

private def signsIn (subject : Subject) : List (Act Unit) :=
  .signIn () subject :: List.replicate 6 (.next ())

/-- Two people present one name: it is refused for both of their accounts. -/
theorem one_name_for_two : ∃ w : World Unit,
    (w.table.rows (.binding first) = some ("anna" : CodePoints) ∧
      w.table.rows (.binding second) = some ("anna-91d4ee03" : CodePoints)) ∧
        ReachesWhoItNames (fun _ => some "anna") w.table := by
  have hran : (checkedRun
      (World.step (preferredName asciiWord asciiBlank fun _ => some "anna"))
      (fun w a => namesStand asciiWord asciiBlank (fun _ => some "anna") w a = true)
      (World.empty : World Unit) (signsIn first ++ signsIn second)).any (fun w =>
        decide (w.table.rows (.binding first) = some ("anna" : CodePoints)) &&
          decide (w.table.rows (.binding second) = some ("anna-91d4ee03" : CodePoints))) = true := by
    decide +kernel
  obtain ⟨w, hrun, hrows⟩ := (Option.any_eq_true _ _).mp hran
  simp only [Bool.and_eq_true, decide_eq_true_eq] at hrows
  exact ⟨w, hrows, (reaches_who_it_names asciiWord asciiBlank fun _ => some "anna").2 _ w
    (run_of_checkedRun hrun)⟩

/-- **Accepted for nobody**: a name with a blank in it is no name an account can have, so the account
is named like the subject. A membership under that name is accepted, and nobody presents it. -/
theorem accepted_for_nobody : ∃ w : World Unit,
    Run (World.step (preferredName asciiWord asciiBlank fun _ => some "anna smith"))
      (fun _ _ => True) World.empty (signsIn first) w ∧
        ¬ ReachesWhoItNames (fun _ => some "anna smith") w.table := by
  have hran : (checkedRun
      (World.step (preferredName asciiWord asciiBlank fun _ => some "anna smith"))
      (fun _ _ => True) (World.empty : World Unit) (signsIn first)).any (fun w =>
        decide (w.table.rows (.binding first) = some first.text) &&
          decide (refuse w.table first.text = none)) = true := by
    decide +kernel
  obtain ⟨w, hrun, hrows⟩ := (Option.any_eq_true _ _).mp hran
  simp only [Bool.and_eq_true, decide_eq_true_eq] at hrows
  refine ⟨w, run_of_checkedRun hrun, fun h => ?_⟩
  have hpresents := ((h first first.text hrows.1).mp hrows.2).1
  exact absurd hpresents (by decide)

end Example

end AiraGateway.Identities
