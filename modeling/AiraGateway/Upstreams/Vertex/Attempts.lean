import AiraGateway.Upstreams.Vertex.Adapters

/-!
# Within one region

What one region's attempt may do: send to its own host, where the region is permitted to the model,
and leave a response open only where it hands it on. The ways an attempt is put together keep to
that: one body posted, one posted for each of several, a stream entered, and a body sent again.

* **One exchange** (`post_confined`, `postEach_confined`, `openStream_confined`).
* **Sent again carrying less** (`sendCarrying_meets`): three bodies at most, none of them the one
  sent just before it.
-/

namespace AiraGateway.Vertex

open Traced

variable {β V : Type}

/-! ### Within one region -/

section Confined

variable (t : VertexTransport) (host : Text → Text) (model region : Text)

/-- An address of one region's host, where the region is permitted to the model. -/
def Allowed (address : Text) : Prop := t.Permits region model ∧ AtHost (host region) address

/-- Events that stay within one region's attempt and send to its host only. `isOpen` says whether
they leave a response open. -/
structure Confined (events : List (Event β)) (isOpen : Bool) : Prop where
  inside : ∀ event ∈ events, event.Inside
  permitted : ∀ s ∈ sends events, Allowed t host model region s.1
  balanced : openAfter false events = some isOpen

variable {t host model region}
variable {events more : List (Event β)} {isOpen : Bool} {address : Text} {body : β}

theorem Confined.nil : Confined t host model region ([] : List (Event β)) false where
  inside := fun _ h => nomatch h
  permitted := fun _ h => nomatch h
  balanced := rfl

theorem Confined.append (h : Confined t host model region events false)
    (h' : Confined t host model region more isOpen) :
    Confined t host model region (events ++ more) isOpen where
  inside := List.forall_mem_append.mpr ⟨h.inside, h'.inside⟩
  permitted := by
    rw [sends_append]
    exact List.forall_mem_append.mpr ⟨h.permitted, h'.permitted⟩
  balanced := by
    rw [openAfter_append, h.balanced]
    exact h'.balanced

/-- One body sent to an allowed address, and what came back of it. -/
theorem confined_of_sent (h : Allowed t host model region address)
    (hinside : ∀ event ∈ more, event.Inside) (hsends : sends more = [])
    (hbalanced : openAfter false more = some isOpen) :
    Confined t host model region (.sent address body :: more) isOpen where
  inside := List.forall_mem_cons.mpr ⟨trivial, hinside⟩
  permitted := by
    have hall : sends (.sent address body :: more) = [(address, body)] := by
      rw [show sends (.sent address body :: more) = (address, body) :: sends more from rfl, hsends]
    rw [hall]
    exact fun s hs => List.mem_singleton.mp hs ▸ h
  balanced := hbalanced

theorem post_confined (h : Allowed t host model region address) (body : β) :
    (post address body).Meets fun events result =>
      Confined t host model region events false ∧ (sends events).map Prod.snd <+: [body] ∧
        ∀ data, result = .ok data → ∃ response,
          events = [.sent address body, .answered response] ∧ response.status = 200 ∧
            jsonObject response = .ok data := by
  refine (post_meets address body).mono fun events result hpost => ?_
  rcases hpost with ⟨rfl, e, rfl, -⟩ | ⟨rfl, e, rfl⟩ | ⟨response, rfl, hread⟩
  · exact ⟨.nil, List.nil_prefix, fun _ h => (nomatch h)⟩
  · refine ⟨confined_of_sent h (fun _ h => nomatch h) rfl rfl, List.prefix_rfl, ?_⟩
    exact fun _ h => nomatch h
  · refine ⟨confined_of_sent h ?_ rfl rfl, List.prefix_rfl, fun data hdata => ?_⟩
    · exact fun event hevent => List.mem_singleton.mp hevent ▸ trivial
    · exact ⟨response, rfl, hread data hdata⟩

/-- A call for each body: the objects are those of the responses, in order. -/
theorem postEach_confined (h : Allowed t host model region address) (bodies : List β) :
    (VertexAdapters.postEach address bodies).Meets fun events result =>
      Confined t host model region events false ∧ (sends events).map Prod.snd <+: bodies ∧
        ∀ datas, result = .ok datas → (∀ response ∈ responses events, response.status = 200) ∧
          (responses events).mapM jsonObject = .ok datas := by
  induction bodies with
  | nil =>
    refine meets_pure ⟨.nil, List.prefix_rfl, ?_⟩
    rintro _ ⟨⟩
    exact ⟨fun _ h => (nomatch h), rfl⟩
  | cons body bodies ih =>
    refine .bind ((post_confined h body).mono fun events result ⟨hconfined, hbody, hread⟩ => ?_)
    refine ⟨fun e _ => ⟨hconfined, ?_, fun _ h => (nomatch h)⟩, fun data hdata => ?_⟩
    · exact hbody.trans ((List.prefix_cons_inj body).mpr List.nil_prefix)
    obtain ⟨response, rfl, hstatus, hobject⟩ := hread data hdata
    refine .bind (ih.mono fun more result ⟨hmore, hrest, hall⟩ => ?_)
    have hsent : ((sends ([.sent address body, .answered response] ++ more)).map Prod.snd) <+:
        body :: bodies := by
      rw [sends_append, List.map_append]
      exact (List.prefix_cons_inj body).mpr hrest
    refine ⟨fun e _ => ⟨hconfined.append hmore, hsent, fun _ h => (nomatch h)⟩, ?_⟩
    intro datas hdatas
    obtain ⟨hstatuses, hobjects⟩ := hall datas hdatas
    refine meets_pure ⟨?_, ?_, ?_⟩
    · rw [List.append_nil]
      exact hconfined.append hmore
    · rw [List.append_nil]
      exact hsent
    · rw [List.append_nil, responses_append]
      rintro _ ⟨⟩
      refine ⟨List.forall_mem_cons.mpr ⟨hstatus, hstatuses⟩, ?_⟩
      change List.mapM jsonObject (response :: responses more) = _
      rw [List.mapM_cons, hobject, hobjects]
      rfl

/-- A streamed call that is entered: its response is left open where it is handed on. -/
theorem openStream_confined (h : Allowed t host model region address) (body : β)
    (read : ChunkReader) (at' : Text) :
    (openStream address body read at').Meets fun events result =>
      Confined t host model region events result.toBool ∧
        ((events = [] ∧ ∃ e, result = .error e ∧ e.Unsent) ∨
          (sends events).map Prod.snd = [body]) ∧
        ∀ opened, result = .ok opened → ∃ response, responses events = [response] ∧
          response.status = 200 ∧ opened = ⟨response, read, at'⟩ := by
  refine .bind ((enterStream_meets address body).mono fun events result henter => ?_)
  refine ⟨?_, fun response hresult => ?_⟩
  · rintro e rfl
    rcases henter with ⟨rfl, _, he, hunsent⟩ | ⟨rfl | ⟨response, rfl⟩, -⟩ | ⟨_, _, _, h⟩
    · exact ⟨.nil, .inl ⟨rfl, e, rfl, Except.error.inj he ▸ hunsent⟩, fun _ h => nomatch h⟩
    · refine ⟨confined_of_sent h (fun _ h => nomatch h) rfl rfl, .inr rfl, fun _ h => nomatch h⟩
    · refine ⟨confined_of_sent h ?_ rfl rfl, .inr rfl, fun _ h => nomatch h⟩
      exact List.forall_mem_cons.mpr ⟨trivial, List.forall_mem_singleton.mpr trivial⟩
    · exact nomatch h
  · subst hresult
    rcases henter with ⟨-, _, he, -⟩ | ⟨-, _, he⟩ | ⟨_, rfl, hstatus, hresponse⟩
    · exact nomatch he
    · exact nomatch he
    obtain rfl := Except.ok.inj hresponse
    refine meets_pure ⟨confined_of_sent h ?_ rfl rfl, .inr rfl, fun opened hopened => ?_⟩
    · exact List.forall_mem_singleton.mpr trivial
    · exact ⟨response, rfl, hstatus, (Except.ok.inj hopened).symm⟩

end Confined

/-! ### Sent again carrying less -/

section Resend

variable {d : VertexAdapters β V} {T : Type}
variable {t : VertexTransport} {host : Text → Text} {model region : Text}

/-- What was not sent is no refusal of its thinking. -/
theorem not_refusesThinking_of_unsent {e : Raised} (h : e.Unsent) :
    d.refusesThinking e = false := by
  rcases h with ⟨said, rfl⟩ | ⟨what, rfl⟩
  · refine Bool.eq_false_iff.mpr fun h => ?_
    have hstatus : (some 503 : Option ℕ) = some 400 := d.status_of_refusesThinking h
    exact absurd (Option.some.inj hstatus) (by decide)
  · rfl

/-- One sending, as `resend` repeats it: the body is sent, or nothing and that is no refusal. -/
structure SendsOne (t : VertexTransport) (host : Text → Text) (model region : Text)
    (isOpen : Except Raised T → Bool) (read : Response → T → Prop) (body : β)
    (events : List (Event β)) (result : Except Raised T) : Prop where
  confined : Confined t host model region events (isOpen result)
  sent : (events = [] ∧ ∃ e, result = .error e ∧ e.Unsent) ∨ (sends events).map Prod.snd = [body]
  answered : ∀ a, result = .ok a → ∃ response, responses events = [response] ∧
    response.status = 200 ∧ read response a

/-- Several sendings in one region: the last response is the one that is read. -/
structure SendsSome (t : VertexTransport) (host : Text → Text) (model region : Text)
    (isOpen : Except Raised T → Bool) (read : Response → T → Prop) (Bodies : List β → Prop)
    (events : List (Event β)) (result : Except Raised T) : Prop where
  confined : Confined t host model region events (isOpen result)
  sent : Bodies ((sends events).map Prod.snd)
  answered : ∀ a, result = .ok a → ∃ response, (responses events).getLast? = some response ∧
    response.status = 200 ∧ read response a

variable {isOpen : Except Raised T → Bool} {read : Response → T → Prop}
variable {send : β → Program β T} {events more : List (Event β)} {result : Except Raised T}
variable {body sent : β} {Bodies : List β → Prop} {exc e : Raised}

private theorem sendsSome_of_raise (hisOpen : ∀ e, isOpen (.error e) = false) (h : Bodies []) :
    SendsSome t host model region isOpen read Bodies [] (.error e) where
  confined := (hisOpen e).symm ▸ .nil
  sent := h
  answered := fun _ h => nomatch h

/-- A sending that stands, or fails for good. -/
private theorem SendsOne.sendsSome (h : SendsOne t host model region isOpen read body events result)
    (hnone : Bodies []) (hone : Bodies [body]) :
    SendsSome t host model region isOpen read Bodies events result where
  confined := h.confined
  sent := by
    rcases h.sent with ⟨rfl, -⟩ | hsent
    · exact hnone
    · exact hsent.symm ▸ hone
  answered := fun a ha => by
    obtain ⟨response, hresponse, hread⟩ := h.answered a ha
    exact ⟨response, by rw [hresponse, List.getLast?_singleton], hread⟩

/-- A refused sending, and what followed it. -/
private theorem SendsOne.followed (hisOpen : ∀ e, isOpen (.error e) = false)
    (h : SendsOne t host model region isOpen read body events (.error exc))
    (hrefused : d.refusesThinking exc = true)
    (h' : SendsSome t host model region isOpen read (fun bodies => Bodies (body :: bodies))
      more result) :
    SendsSome t host model region isOpen read Bodies (events ++ more) result where
  confined := by
    have hconfined := h.confined
    rw [hisOpen exc] at hconfined
    exact hconfined.append h'.confined
  sent := by
    rcases h.sent with ⟨-, _, he, hunsent⟩ | hsent
    · rw [Except.error.inj he, not_refusesThinking_of_unsent hunsent] at hrefused
      exact nomatch hrefused
    · rw [sends_append, List.map_append, hsent]
      exact h'.sent
  answered := fun a ha => by
    obtain ⟨response, hresponse, hread⟩ := h'.answered a ha
    refine ⟨response, ?_, hread⟩
    rw [responses_append, List.getLast?_append, hresponse]
    rfl

variable [DecidableEq β]

theorem resend_meets (hisOpen : ∀ e, isOpen (.error e) = false)
    (hsend : ∀ body, (send body).Meets (SendsOne t host model region isOpen read body))
    (less : List (Except Raised β)) (sent : β) (exc : Raised) :
    (d.resend send less sent exc).Meets
      (SendsSome t host model region isOpen read fun bodies =>
        bodies.length ≤ less.length ∧ (sent :: bodies).IsChain (· ≠ ·)) := by
  induction less generalizing sent exc with
  | nil => exact meets_raise (sendsSome_of_raise hisOpen ⟨le_rfl, .singleton sent⟩)
  | cons next less ih =>
    rcases next with e | body
    · exact meets_raise (sendsSome_of_raise hisOpen ⟨Nat.zero_le _, .singleton sent⟩)
    rw [VertexAdapters.resend]
    split_ifs with hbody
    · refine (ih sent exc).mono fun events result h => ⟨h.confined, ?_, h.answered⟩
      exact ⟨h.sent.1.trans (Nat.le_succ _), h.sent.2⟩
    have hne : sent ≠ body := fun h => hbody h.symm
    refine .catching ((hsend body).mono fun events result hone => ⟨?_, fun again hagain => ?_⟩)
    · rintro a rfl
      exact hone.sendsSome ⟨Nat.zero_le _, .singleton sent⟩
        ⟨Nat.succ_le_succ (Nat.zero_le _), .cons_cons hne (.singleton body)⟩
    · subst hagain
      split_ifs with hrefused
      · refine (ih body again).mono fun more result h => ?_
        refine hone.followed hisOpen hrefused ⟨h.confined, ?_, h.answered⟩
        exact ⟨Nat.succ_le_succ h.sent.1, .cons_cons hne h.sent.2⟩
      · refine meets_raise ?_
        rw [List.append_nil]
        exact hone.sendsSome ⟨Nat.zero_le _, .singleton sent⟩
          ⟨Nat.succ_le_succ (Nat.zero_le _), .cons_cons hne (.singleton body)⟩

/-- **Sent again carrying less**: three bodies at most, each another one than the one before. -/
theorem sendCarrying_meets (hisOpen : ∀ e, isOpen (.error e) = false)
    (hsend : ∀ body, (send body).Meets (SendsOne t host model region isOpen read body))
    (r : CanonicalRequest) (body : β) :
    (d.sendCarrying r send body).Meets
      (SendsSome t host model region isOpen read fun bodies =>
        bodies.length ≤ 3 ∧ bodies.IsChain (· ≠ ·)) := by
  have hnone : ([] : List β).length ≤ 3 ∧ ([] : List β).IsChain (· ≠ ·) := ⟨Nat.zero_le _, .nil⟩
  have hone : [body].length ≤ 3 ∧ [body].IsChain (· ≠ ·) :=
    ⟨Nat.succ_le_succ (Nat.zero_le _), .singleton body⟩
  refine .catching ((hsend body).mono fun events result h => ⟨?_, fun exc hexc => ?_⟩)
  · rintro a rfl
    exact h.sendsSome hnone hone
  · subst hexc
    split_ifs with hrefused
    · refine (resend_meets hisOpen hsend (d.withLessThinking r) body exc).mono
        fun more result h' => ?_
      refine h.followed hisOpen hrefused ⟨h'.confined, ?_, h'.answered⟩
      exact ⟨Nat.succ_le_succ h'.sent.1, h'.sent.2⟩
    · refine meets_raise ?_
      rw [List.append_nil]
      exact h.sendsSome hnone hone

end Resend

end AiraGateway.Vertex
