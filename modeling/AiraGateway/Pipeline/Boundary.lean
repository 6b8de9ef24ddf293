import AiraGateway.Library.Occurrences
import AiraGateway.Pipeline.Redaction

/-!
# The markers around a redacted text, in the reply

A redactor is given the caller's text between two markers with a nonce drawn for the request, and
may echo them in its reply, which is unwrapped (`DataBoundary.unwrapped`).

* `unwrapped_wrap`: an echoed pair gives the text between, whatever stands around it.
* `unwraps_cleanly_iff`: of any reply, what is left holds no marker exactly where, past the first
  opening marker, no marker is echoed a second time in front of the last closing one.
* `marker_left`: a reply that leaves one.
-/

namespace AiraGateway

/-! ### Drawing a boundary -/

def hexDigits : Text := "0123456789abcdef"

/-- What sixteen hexadecimal digits are drawn as. -/
def IsNonce (nonce : Text) : Prop := nonce.length = 16 ∧ ∀ c ∈ nonce, c ∈ hexDigits

def dataOpen (nonce : Text) : Text := ("<<<TEXT " : Text) ++ nonce ++ ">>>"

def dataClose (nonce : Text) : Text := ("<<<END " : Text) ++ nonce ++ ">>>"

namespace DataBoundary

/-- Neither marker stands in a text. -/
def Clean (b : DataBoundary) (text : Text) : Prop := ¬ b.opening <:+: text ∧ ¬ b.closing <:+: text

instance (b : DataBoundary) (text : Text) : Decidable (b.Clean text) :=
  inferInstanceAs (Decidable (_ ∧ _))

/-- The markers of the first nonce drawn that the text contains neither of. -/
def around (draws : List Text) (text : Text) : Option DataBoundary :=
  (draws.map fun nonce => ⟨dataOpen nonce, dataClose nonce⟩).find? (·.Clean text)

/-- What a stripped reply holds past its first opening marker: all of it where it echoes none. -/
def past (b : DataBoundary) (reply : Text) : Text :=
  match find (strip reply) b.opening with
  | some start => (strip reply).drop (start + b.opening.length)
  | none => strip reply

/-- A text in which a marker stands in front of a closing one, or an opening one with no closing
one. -/
def EchoedAgain (b : DataBoundary) (text : Text) : Prop :=
  (∃ x y z, text = x ++ b.opening ++ y ++ b.closing ++ z) ∨
    (∃ x y z, text = x ++ b.closing ++ y ++ b.closing ++ z) ∨
    (b.opening <:+: text ∧ ¬ b.closing <:+: text)

end DataBoundary

/-! ### Markers -/

/-- What a marker looks like. -/
def IsMarker (m : Text) : Prop :=
  ∃ body : Text, m = '<' :: '<' :: '<' :: (body ++ ['>', '>', '>']) ∧ '<' ∉ body

theorem not_mem_nonce {nonce : Text} (h : IsNonce nonce) : '<' ∉ nonce := by
  intro hmem
  have hdigits : hexDigits.contains '<' = false := by decide +kernel
  have hdigit := List.contains_iff_mem.mpr (h.2 _ hmem)
  rw [hdigits] at hdigit
  exact absurd hdigit (by decide)

theorem isMarker_dataOpen {nonce : Text} (h : IsNonce nonce) : IsMarker (dataOpen nonce) := by
  have hopen : ("<<<TEXT " : Text) = '<' :: '<' :: '<' :: ['T', 'E', 'X', 'T', ' '] := by
    decide +kernel
  have hclose : (">>>" : Text) = ['>', '>', '>'] := by decide +kernel
  have heq : dataOpen nonce = ("<<<TEXT " : Text) ++ nonce ++ (">>>" : Text) := rfl
  refine ⟨['T', 'E', 'X', 'T', ' '] ++ nonce, ?_, ?_⟩
  · rw [heq, hopen, hclose, List.cons_append, List.cons_append, List.cons_append,
      List.cons_append, List.cons_append, List.cons_append]
  · simp [not_mem_nonce h]

theorem isMarker_dataClose {nonce : Text} (h : IsNonce nonce) : IsMarker (dataClose nonce) := by
  have hopen : ("<<<END " : Text) = '<' :: '<' :: '<' :: ['E', 'N', 'D', ' '] := by
    decide +kernel
  have hclose : (">>>" : Text) = ['>', '>', '>'] := by decide +kernel
  have heq : dataClose nonce = ("<<<END " : Text) ++ nonce ++ (">>>" : Text) := rfl
  refine ⟨['E', 'N', 'D', ' '] ++ nonce, ?_, ?_⟩
  · rw [heq, hopen, hclose, List.cons_append, List.cons_append, List.cons_append,
      List.cons_append, List.cons_append, List.cons_append]
  · simp [not_mem_nonce h]

theorem IsMarker.solid {m : Text} (h : IsMarker m) : Solid m := by
  obtain ⟨body, rfl, -⟩ := h
  refine ⟨⟨'<', _, rfl, by decide⟩, ?_⟩
  exact ⟨'<' :: '<' :: '<' :: (body ++ ['>', '>']), '>', by simp, by decide⟩

/-- **Markers do not overlap**: one that starts later starts behind the other. -/
theorem IsMarker.apart {m m' front back front' back' : Text} (hm : IsMarker m) (hm' : IsMarker m')
    (h : front ++ m ++ back = front' ++ m' ++ back') (hlt : front.length < front'.length) :
    ∃ x, front' = front ++ m ++ x ∧ back = x ++ m' ++ back' := by
  rw [List.append_assoc, List.append_assoc] at h
  obtain ⟨x, rfl, hx⟩ | ⟨x, rfl, -⟩ := List.append_eq_append_iff.mp h
  · obtain ⟨z, rfl, hz⟩ | ⟨y, hy, hy'⟩ := List.append_eq_append_iff.mp hx
    · exact ⟨z, by simp, by simpa using hz⟩
    · cases y with
      | nil => exact ⟨[], by simpa using congrArg (front ++ ·) hy.symm, by simpa using hy'.symm⟩
      | cons d y =>
        -- a later marker would start inside this one, where three brackets never follow
        exfalso
        obtain ⟨body, rfl, hbody⟩ := hm
        obtain ⟨body', rfl, -⟩ := hm'
        have htail : '<' ∉ body ++ ['>', '>', '>'] := by simp [hbody]
        obtain ⟨c, tail, hcons⟩ : ∃ c tail, body ++ ['>', '>', '>'] = c :: tail :=
          List.exists_cons_of_ne_nil (by simp)
        rw [hcons] at hy htail
        match x with
        | [] => simp at hlt
        | [a] =>
          obtain ⟨-, hy⟩ := List.cons.inj hy
          change _ = d :: y at hy
          rw [← hy, List.cons_append, List.cons_append, List.cons_append] at hy'
          obtain ⟨-, hy'⟩ := List.cons.inj hy'
          obtain ⟨-, hy'⟩ := List.cons.inj hy'
          obtain ⟨rfl, -⟩ := List.cons.inj hy'
          exact htail List.mem_cons_self
        | [a, b] =>
          obtain ⟨-, hy⟩ := List.cons.inj hy
          obtain ⟨-, hy⟩ := List.cons.inj hy
          change _ = d :: y at hy
          rw [← hy, List.cons_append, List.cons_append] at hy'
          obtain ⟨-, hy'⟩ := List.cons.inj hy'
          obtain ⟨rfl, -⟩ := List.cons.inj hy'
          exact htail List.mem_cons_self
        | a :: b :: e :: x =>
          obtain ⟨-, hy⟩ := List.cons.inj hy
          obtain ⟨-, hy⟩ := List.cons.inj hy
          obtain ⟨-, hy⟩ := List.cons.inj hy
          obtain ⟨rfl, -⟩ := List.cons.inj hy'
          exact htail (hy ▸ by simp)
  · rw [List.length_append] at hlt
    omega

/-! ### What is left of a reply -/

namespace DataBoundary

variable {b : DataBoundary} {front back r : Text}

/-- The text up to the last closing marker. -/
theorem unwrapped_eq (reply : Text) :
    b.unwrapped reply = strip (match rfind (b.past reply) b.closing with
      | some stop => (b.past reply).take stop
      | none => b.past reply) := rfl

/-- Past the first opening marker, wherever a reply echoes one. -/
theorem past_append (ho : IsMarker b.opening) (hfront : ¬ b.opening <:+: front) :
    b.past (front ++ b.opening ++ back) = rstrip back := by
  have hsplit := @Solid.strip_append b.opening front back ho.solid
  have hfind : find (strip (front ++ b.opening ++ back)) b.opening
      = some (lstrip front).length := by
    rw [find_eq_some_iff, hsplit]
    refine ⟨⟨lstrip front, rstrip back, rfl, rfl⟩, fun front' back' heq => ?_⟩
    by_contra hearlier
    obtain ⟨x, hx, -⟩ := ho.apart ho heq.symm (by omega)
    obtain ⟨s, -, hs⟩ := lstrip_spec front
    exact hfront ⟨s ++ front', x, by rw [hs, hx]; simp⟩
  rw [past, hfind, hsplit]
  simp only
  rw [← List.length_append, List.append_assoc, ← List.append_assoc, List.drop_left]

/-- With no opening marker echoed, a reply is all there is. -/
theorem past_of_not_infix (ho : IsMarker b.opening) {reply : Text}
    (hreply : ¬ b.opening <:+: reply) : b.past reply = strip reply := by
  rw [past, find_eq_none_iff.mpr fun h => hreply (ho.solid.infix_strip_iff.mp h)]

/-- **What stands between an echoed pair** is recovered, whatever stands around it. -/
theorem unwrapped_wrap (ho : IsMarker b.opening) (hc : IsMarker b.closing)
    (hfront : ¬ b.opening <:+: front) (hback : ¬ b.closing <:+: back) :
    b.unwrapped (front ++ b.wrap r ++ back) = strip r := by
  have hshape : front ++ b.wrap r ++ back
      = front ++ b.opening ++ (("\n" : Text) ++ r ++ "\n" ++ b.closing ++ back) := by
    simp only [wrap, List.append_assoc]
  have hpast : b.past (front ++ b.wrap r ++ back)
      = ("\n" : Text) ++ r ++ "\n" ++ b.closing ++ rstrip back := by
    obtain ⟨begin, c, hlast, hsolid⟩ := hc.solid.last
    rw [hshape, past_append ho hfront, hlast, ← List.append_assoc, rstrip_concat_append hsolid]
  have hrfind : rfind (b.past (front ++ b.wrap r ++ back)) b.closing
      = some (("\n" : Text) ++ r ++ "\n").length := by
    rw [rfind_eq_some_iff, hpast]
    refine ⟨⟨_, _, rfl, rfl⟩, fun front' back' heq => ?_⟩
    by_contra hlater
    obtain ⟨x, -, hx⟩ := hc.apart hc heq (by omega)
    obtain ⟨s, -, hs⟩ := rstrip_spec back
    exact hback ⟨x, back' ++ s, by rw [hs, hx]; simp⟩
  rw [unwrapped_eq, hrfind, hpast]
  simp only
  rw [List.append_assoc (_ ++ _), List.take_left, List.append_assoc]
  exact strip_blank_append (by decide) (by decide)

/-- The same where the closing marker is missing. -/
theorem unwrapped_open (ho : IsMarker b.opening) (hc : IsMarker b.closing)
    (hfront : ¬ b.opening <:+: front) (hr : ¬ b.closing <:+: r) :
    b.unwrapped (front ++ b.opening ++ "\n" ++ r) = strip r := by
  have hblank : strip (("\n" : Text) ++ r) = strip r := by
    have h := strip_blank_append (t := r) (s := "\n") (by decide) blank_nil
    rwa [List.append_nil] at h
  have hpast : b.past (front ++ b.opening ++ "\n" ++ r) = rstrip (("\n" : Text) ++ r) := by
    rw [List.append_assoc _ _ r, past_append ho hfront]
  have hnone : rfind (rstrip (("\n" : Text) ++ r)) b.closing = none := by
    rw [rfind_eq_none_iff]
    intro hmem
    obtain ⟨s, hs, heq⟩ := rstrip_spec (("\n" : Text) ++ r)
    have hwithin : b.closing <:+: ("\n" : Text) ++ (r ++ []) := by
      rw [List.append_nil, heq]
      exact hmem.trans ⟨[], s, by simp⟩
    exact hr (hc.solid.infix_of_blank_append (by decide) rfl hwithin)
  rw [unwrapped_eq, hpast, hnone]
  simp only
  rw [strip_rstrip, hblank]

theorem unwrapped_of_clean (ho : IsMarker b.opening) (hc : IsMarker b.closing)
    (hr : b.Clean r) : b.unwrapped r = strip r := by
  have hnone : rfind (strip r) b.closing = none := by
    rw [rfind_eq_none_iff, hc.solid.infix_strip_iff]
    exact hr.2
  rw [unwrapped_eq, past_of_not_infix ho hr.1, hnone]
  simp only
  exact strip_strip

/-- What is left of a reply holds a marker exactly where one is echoed again. -/
theorem clean_unwrapped_iff (ho : IsMarker b.opening) (hc : IsMarker b.closing) (reply : Text) :
    b.Clean (b.unwrapped reply) ↔ ¬ b.EchoedAgain (b.past reply) := by
  rw [Clean, unwrapped_eq, ho.solid.infix_strip_iff, hc.solid.infix_strip_iff, EchoedAgain]
  generalize b.past reply = text
  cases hlast : rfind text b.closing with
  | none =>
    have hno := rfind_eq_none_iff.mp hlast
    simp only
    constructor
    · rintro ⟨hopen, -⟩ (⟨x, y, z, rfl⟩ | ⟨x, y, z, rfl⟩ | ⟨hmem, -⟩)
      · exact hno ⟨_, _, rfl⟩
      · exact hno ⟨_, _, rfl⟩
      · exact hopen hmem
    · intro honce
      exact ⟨fun hmem => honce (.inr (.inr ⟨hmem, hno⟩)), hno⟩
  | some stop =>
    obtain ⟨⟨front, back, rfl, rfl⟩, hbehind⟩ := rfind_eq_some_iff.mp hlast
    have hinside : ∀ m x y z, front ++ b.closing ++ back = x ++ m ++ y ++ b.closing ++ z →
        m <:+: front := by
      intro m x y z heq
      have hle := hbehind _ _ heq
      have hstart : x ++ m ++ y <+: front ++ (b.closing ++ back) :=
        ⟨b.closing ++ z, by rw [← List.append_assoc, ← heq, List.append_assoc]⟩
      obtain ⟨w, hw⟩ := List.prefix_of_prefix_length_le hstart (List.prefix_append _ _) hle
      exact ⟨x, y ++ w, by rw [← hw]; simp⟩
    simp only
    rw [List.append_assoc, List.take_left, ← List.append_assoc]
    constructor
    · rintro ⟨hopen, hclose⟩ (⟨x, y, z, heq⟩ | ⟨x, y, z, heq⟩ | ⟨-, hno⟩)
      · exact hopen (hinside _ x y z heq)
      · exact hclose (hinside _ x y z heq)
      · exact hno ⟨_, _, rfl⟩
    · intro honce
      refine ⟨?_, ?_⟩
      · rintro ⟨x, y, rfl⟩
        exact honce (.inl ⟨x, y, back, rfl⟩)
      · rintro ⟨x, y, rfl⟩
        exact honce (.inr (.inl ⟨x, y, back, rfl⟩))

/-- A boundary drawn for a text is made of markers. -/
theorem isMarker_of_around {draws : List Text} {text : Text} (hdraws : ∀ n ∈ draws, IsNonce n)
    (h : around draws text = some b) : IsMarker b.opening ∧ IsMarker b.closing := by
  obtain ⟨n, hn, rfl⟩ := List.mem_map.mp (List.mem_of_find?_eq_some h)
  exact ⟨isMarker_dataOpen (hdraws n hn), isMarker_dataClose (hdraws n hn)⟩

/-- **Unwrapping a reply** recovers the text of an echoed pair, and leaves no marker of any reply
exactly where, past its first opening marker, none is echoed again. -/
theorem unwraps_cleanly_iff {draws : List Text} {text : Text} (hdraws : ∀ n ∈ draws, IsNonce n)
    (h : around draws text = some b) :
    (∀ preamble comment r, b.Clean preamble → b.Clean comment → b.Clean r →
      b.unwrapped (preamble ++ b.wrap r ++ comment) = strip r ∧
        b.unwrapped (preamble ++ b.opening ++ "\n" ++ r) = strip r ∧
        b.unwrapped r = strip r) ∧
      ∀ reply, b.Clean (b.unwrapped reply) ↔ ¬ b.EchoedAgain (b.past reply) := by
  obtain ⟨ho, hc⟩ := isMarker_of_around hdraws h
  refine ⟨fun preamble comment r hpreamble hcomment hr => ⟨?_, ?_, ?_⟩, clean_unwrapped_iff ho hc⟩
  · exact unwrapped_wrap ho hc hpreamble.1 hcomment.2
  · exact unwrapped_open ho hc hpreamble.1 hr.2
  · exact unwrapped_of_clean ho hc hr

/-- The boundary of one nonce. -/
def sampleNonce : Text := "0123456789abcdef"

def sample : DataBoundary := ⟨dataOpen sampleNonce, dataClose sampleNonce⟩

theorem isNonce_sampleNonce : ∀ n ∈ [sampleNonce], IsNonce n := by
  intro n hn
  obtain rfl := List.mem_singleton.mp hn
  have hdigits : (sampleNonce.all fun c => hexDigits.contains c) = true := by decide +kernel
  exact ⟨by decide +kernel, fun c hc =>
    List.contains_iff_mem.mp (List.all_eq_true.mp hdigits c hc)⟩

theorem around_sample : around [sampleNonce] "Al is in Bonn" = some sample := by
  have hclean : sample.Clean "Al is in Bonn" := by decide +kernel
  exact List.find?_cons_of_pos (decide_eq_true hclean)

theorem unwraps_cleanly_sample :
    sample.unwrapped (("Sure:" : Text) ++ sample.wrap " <PERSON> is in Bonn" ++ " Done.")
        = strip " <PERSON> is in Bonn" ∧
      sample.Clean (sample.unwrapped "<PERSON> is in Bonn") := by
  obtain ⟨hwrapped, hclean⟩ := unwraps_cleanly_iff isNonce_sampleNonce around_sample
  refine ⟨(hwrapped "Sure:" " Done." " <PERSON> is in Bonn" (by decide +kernel)
    (by decide +kernel) (by decide +kernel)).1, (hclean _).mpr ?_⟩
  have hno : sample.Clean (sample.past "<PERSON> is in Bonn") := by decide +kernel
  rintro (⟨x, y, z, heq⟩ | ⟨x, y, z, heq⟩ | ⟨hmem, -⟩)
  · exact hno.2 ⟨_, _, heq.symm⟩
  · exact hno.2 ⟨_, _, heq.symm⟩
  · exact hno.1 hmem

/-- A reply that echoes the opening marker twice keeps the second. -/
theorem marker_left :
    around [sampleNonce] "Al is in Bonn" = some sample ∧
      ¬ sample.Clean (sample.unwrapped
        (sample.opening ++ "\n" ++ sample.opening ++ "\n<PERSON> is in Bonn\n" ++
          sample.closing)) :=
  ⟨around_sample, by decide +kernel⟩

end DataBoundary

end AiraGateway
