import AiraGateway.Upstreams.Vertex.Exchange
import Mathlib.Data.List.Nodup

/-!
# Regional failover

A model is configured for one region or catalogued for several, the first preferred. They are
tried in order: a failure that is about the place moves on to the next, any other is raised, and
so is the last where all of them fail. A stream is opened within an attempt and read after it,
so what is read of it comes after every region that was tried.

* **A list of places names no region twice** (`nodup_targets`).
* **The walk** (`acrossRegions_meets`): the regions tried are the first of the list, all but the
  last failed for the place, and the walk ends as the last attempt did; it ends in a failure that
  is about the place only where the list is exhausted.
* **What is read of a stream** (`readStream_meets`): chunks only, the first of them located, and
  the response is closed at the end however the reading ends.
-/

namespace AiraGateway.Vertex

open Traced

/-! ### Where a model may be tried -/

/-- A model this deployment reaches: where it runs and whose API it speaks. -/
structure VertexModel where
  region : Text
  publisher : Text

/-- One region more, where it was not named before. -/
def addRegion (seen : List Text) (region : Text) : List Text :=
  if region ∈ seen then seen else seen ++ [region]

/-- The text of a region, where an entry of the list is one. -/
def regionText : Json → Option Text
  | .str region => if strip region = [] then none else some (strip region)
  | _ => none

/-- The catalogue's regions, either spelling, in order and without duplicates. -/
def declaredRegions (addressing : Json) : List Text :=
  let single : List Json :=
    match addressing.get "region" with
    | some (.str region) => [.str region]
    | _ => []
  let raw : List Json :=
    match addressing.get "regions" with
    | none => single
    | some .null => single
    | some (.str region) => [.str region]
    | some (.arr items) => items
    | some _ => []
  (raw.filterMap regionText).foldl addRegion []

/-- Every region and publisher a model may be tried at, in order. -/
def targets (models : List (Text × VertexModel)) (publisher model : Text) (addressing : Json) :
    Except Raised (List (Text × Text)) :=
  match dictGet models model with
  | some configured => .ok [(configured.region, configured.publisher)]
  | none =>
    if declaredRegions addressing = [] then
      .error (.ambiguousModel (('\'' :: model) ++
        ("' is catalogued for this platform and says no region. " : Text) ++
        ("Vertex addresses a model by region, so there is nothing to send it to — " : Text) ++
        ("set the region on the model in the catalogue, or name it in AIRA_VERTEX_MODELS."
          : Text)))
    else .ok ((declaredRegions addressing).map fun region => (region, publisher))

private theorem nodup_foldl_addRegion {regions seen : List Text} (h : seen.Nodup) :
    (regions.foldl addRegion seen).Nodup := by
  induction regions generalizing seen with
  | nil => exact h
  | cons region regions ih =>
    refine ih ?_
    rw [addRegion]
    split_ifs with hseen
    · exact h
    · refine List.nodup_append.mpr ⟨h, List.nodup_singleton region, fun a ha b hb => ?_⟩
      rw [List.mem_singleton.mp hb]
      rintro rfl
      exact hseen ha

/-- **A list of places names no region twice.** -/
theorem nodup_targets {models : List (Text × VertexModel)} {publisher model : Text}
    {addressing : Json} {places : List (Text × Text)}
    (h : targets models publisher model addressing = .ok places) :
    (places.map Prod.fst).Nodup := by
  rw [targets] at h
  split at h
  · obtain rfl := Except.ok.inj h
    exact List.nodup_singleton _
  · split_ifs at h
    obtain rfl := Except.ok.inj h
    rw [List.map_map]
    have hregions : (declaredRegions addressing).Nodup := nodup_foldl_addRegion List.nodup_nil
    exact (List.map_id (declaredRegions addressing)).symm ▸ hregions

/-! ### The walk -/

/-- The upstream statuses that mean the next region. -/
def regionFailoverStatuses : List ℕ := [404, 408, 429, 500, 502, 503, 504, 529]

/-- A failure that is about the place: not permitted there, or not served there now. -/
def Raised.aboutThePlace : Raised → Bool
  | .failed (.unaddressable (.regionNotAllowed _)) => true
  | .failed (.upstream e) => e.statusCode.any (· ∈ regionFailoverStatuses)
  | _ => false

def noRegion : Raised := .ambiguousModel "No region was available to address this model."

variable {β T : Type}

/-- Try each place in order. `last` is the failure the walk moved on from. -/
def acrossRegions (attempt : Text → Text → Program β T) :
    Option Raised → List (Text × Text) → Program β T
  | last, [] => raise (last.getD noRegion)
  | _, (region, publisher) :: places => do
    say (.tried region)
    catching (attempt region publisher) fun exc =>
      if exc.aboutThePlace then acrossRegions attempt (some exc) places else raise exc

/-- An attempt that was made: where, what happened there, and how it ended. -/
structure Try (β T : Type) where
  place : Text × Text
  events : List (Event β)
  result : Except Raised T

/-- The region's name, and what happened there. -/
def Try.trace (t : Try β T) : List (Event β) := .tried t.place.1 :: t.events

/-- What the attempts that were made have in common, where `Q` holds of an attempt anywhere. -/
structure Walked (Q : Text × Text → List (Event β) → Except Raised T → Prop)
    (places : List (Text × Text)) (tries : List (Try β T)) (result : Except Raised T) : Prop where
  inOrder : tries.map Try.place <+: places
  each : ∀ t ∈ tries, Q t.place t.events t.result
  movedOn : ∀ t ∈ tries.dropLast, ∃ e, t.result = .error e ∧ e.aboutThePlace = true
  ended : ∀ t ∈ tries.getLast?, t.result = result
  exhausted : ∀ e, result = .error e → e.aboutThePlace = true → tries.map Try.place = places

section Walk

variable {Q : Text × Text → List (Event β) → Except Raised T → Prop}
variable {places : List (Text × Text)} {tries : List (Try β T)} {result : Except Raised T}

private theorem walked_nil : Walked Q [] ([] : List (Try β T)) result where
  inOrder := List.prefix_rfl
  each := fun _ h => nomatch h
  movedOn := fun _ h => nomatch h
  ended := fun _ h => nomatch h
  exhausted := fun _ _ _ => rfl

/-- The walk that ends at its first place. -/
private theorem walked_singleton (t : Try β T) (hQ : Q t.place t.events t.result)
    (h : ∀ e, t.result = .error e → e.aboutThePlace = false) :
    Walked Q (t.place :: places) [t] t.result where
  inOrder := ⟨places, rfl⟩
  each := fun _ ht => List.mem_singleton.mp ht ▸ hQ
  movedOn := fun _ ht => nomatch ht
  ended := fun _ ht => Option.some.inj ht ▸ rfl
  exhausted := fun e he hplace => absurd (h e he) (by rw [hplace]; exact Bool.noConfusion)

/-- A walk that moved on from its first place. -/
private theorem Walked.cons (t : Try β T) {exc : Raised} (hQ : Q t.place t.events t.result)
    (hresult : t.result = .error exc) (hplace : exc.aboutThePlace = true)
    (h : Walked Q places tries result) (hnone : tries = [] → result = .error exc) :
    Walked Q (t.place :: places) (t :: tries) result where
  inOrder := List.prefix_cons_inj _ |>.mpr h.inOrder
  each := List.forall_mem_cons.mpr ⟨hQ, h.each⟩
  movedOn := by
    rcases tries with _ | ⟨next, tries⟩
    · exact fun _ ht => nomatch ht
    · rw [List.dropLast_cons_cons]
      exact List.forall_mem_cons.mpr ⟨⟨exc, hresult, hplace⟩, h.movedOn⟩
  ended := by
    rcases tries with _ | ⟨next, tries⟩
    · intro t' ht'
      obtain rfl : t = t' := Option.some.inj ht'
      rw [hresult, hnone rfl]
    · rw [List.getLast?_cons_cons]
      exact h.ended
  exhausted := fun e he hplace => by rw [List.map_cons, h.exhausted e he hplace]

/-- **The walk.** -/
theorem acrossRegions_meets {attempt : Text → Text → Program β T}
    (h : ∀ region publisher, (attempt region publisher).Meets (Q (region, publisher)))
    (last : Option Raised) (places : List (Text × Text)) :
    (acrossRegions attempt last places).Meets fun events result =>
      ∃ tries : List (Try β T), events = tries.flatMap Try.trace ∧
        Walked Q places tries result ∧ (tries = [] → result = .error (last.getD noRegion)) := by
  induction places generalizing last with
  | nil => exact meets_raise ⟨[], rfl, walked_nil, fun _ => rfl⟩
  | cons place places ih =>
    obtain ⟨region, publisher⟩ := place
    refine meets_say_bind (.catching ((h region publisher).mono fun events result hQ => ?_))
    refine ⟨?_, fun exc hexc => ?_⟩
    · rintro a rfl
      let t : Try β T := ⟨(region, publisher), events, .ok a⟩
      refine ⟨[t], ?_, walked_singleton t hQ fun _ he => (nomatch he), fun h => (nomatch h)⟩
      rw [List.flatMap_singleton, Try.trace]
    · subst hexc
      let t : Try β T := ⟨(region, publisher), events, .error exc⟩
      split_ifs with hplace
      · refine (ih (some exc)).mono fun more result ⟨tries, hmore, hwalked, hnone⟩ => ?_
        refine ⟨t :: tries, ?_, Walked.cons t hQ rfl hplace hwalked hnone, fun h => (nomatch h)⟩
        rw [hmore, List.flatMap_cons, Try.trace]
        rfl
      · refine meets_raise ⟨[t], ?_, ?_, fun h => (nomatch h)⟩
        · rw [List.append_nil, List.flatMap_singleton, Try.trace]
        · refine walked_singleton t hQ fun e he => ?_
          rw [← Except.error.inj he]
          exact Bool.eq_false_iff.mpr hplace

end Walk

/-! ### A stream -/

/-- What a fresh reader makes of a payload after those it has read: a chunk, or nothing. -/
abbrev ChunkReader :=
  List (List (Text × Json)) → List (Text × Json) → Except Raised (Option CanonicalChunk)

/-- A stream that was opened and is not yet read. -/
structure Opened where
  response : Response
  read : ChunkReader
  region : Text

def openStream (address : Text) (body : β) (read : ChunkReader) (region : Text) :
    Program β Opened := do
  let response ← enterStream address body
  return ⟨response, read, region⟩

/-- Hand on the chunks of the payloads, the first of them naming the region. The caller reads one
chunk and at most `further` more, and stops. -/
def chunks (read : ChunkReader) (region : Text) :
    List (Except Raised (List (Text × Json))) → List (List (Text × Json)) → Bool → ℕ →
      Program β Unit
  | [], _, _, _ => pure ()
  | .error e :: _, _, _, _ => raise e
  | .ok payload :: payloads, seen, isLocated, further =>
    match read seen payload with
    | .error e => raise e
    | .ok none => chunks read region payloads (seen ++ [payload]) isLocated further
    | .ok (some chunk) => do
      say (.chunk (if isLocated then chunk else { chunk with servedRegion := some region }))
      if further = 0 then pure ()
      else chunks read region payloads (seen ++ [payload]) true (further - 1)

/-- Read an opened stream, and close it however the reading ends. -/
def readStream (loads : Text → Option Json) (opened : Opened) (further : ℕ) : Program β Unit :=
  afterwards
    (chunks opened.read opened.region (ssePayloads loads opened.response) [] false further) .closed

/-- The chunks a reader makes of the payloads, up to where reading them raises. -/
def chunksOf (read : ChunkReader) :
    List (Except Raised (List (Text × Json))) → List (List (Text × Json)) → List CanonicalChunk
  | [], _ => []
  | .error _ :: _, _ => []
  | .ok payload :: payloads, seen =>
    match read seen payload with
    | .error _ => []
    | .ok none => chunksOf read payloads (seen ++ [payload])
    | .ok (some chunk) => chunk :: chunksOf read payloads (seen ++ [payload])

/-- The chunks with the first of them naming the region. -/
def located (region : Text) : List CanonicalChunk → List CanonicalChunk
  | [] => []
  | chunk :: chunks => { chunk with servedRegion := some region } :: chunks

theorem chunks_meets (read : ChunkReader) (region : Text)
    (payloads : List (Except Raised (List (Text × Json)))) (seen : List (List (Text × Json)))
    (isLocated : Bool) (further : ℕ) :
    (chunks read region payloads seen isLocated further : Program β Unit).Meets fun events _ =>
      (∀ event ∈ events, ∃ chunk, event = .chunk chunk) ∧
        delivered events <+: if isLocated then chunksOf read payloads seen
          else located region (chunksOf read payloads seen) := by
  have hnone : ∀ {cs : List CanonicalChunk},
      (∀ event ∈ ([] : List (Event β)), ∃ chunk, event = .chunk chunk) ∧
        delivered ([] : List (Event β)) <+: cs :=
    ⟨fun _ h => (nomatch h), List.nil_prefix⟩
  induction payloads generalizing seen isLocated further with
  | nil => exact meets_pure hnone
  | cons payload payloads ih =>
    rcases payload with e | payload
    · exact meets_raise hnone
    rw [chunks, chunksOf]
    rcases read seen payload with e | _ | chunk
    · exact meets_raise hnone
    · exact ih (seen ++ [payload]) isLocated further
    -- What is said of the first chunk is its text located; what follows is said as it is.
    have hsaid : ∀ more : List (Event β),
        (∀ event ∈ more, ∃ chunk, event = .chunk chunk) ∧
            delivered more <+: chunksOf read payloads (seen ++ [payload]) →
          (∀ event ∈ .chunk (if isLocated then chunk else
              { chunk with servedRegion := some region }) :: more, ∃ c, event = .chunk c) ∧
            delivered (.chunk (if isLocated then chunk else
              { chunk with servedRegion := some region }) :: more) <+:
              if isLocated then chunk :: chunksOf read payloads (seen ++ [payload])
              else located region (chunk :: chunksOf read payloads (seen ++ [payload])) := by
      rintro more ⟨hmore, hprefix⟩
      refine ⟨List.forall_mem_cons.mpr ⟨⟨_, rfl⟩, hmore⟩, ?_⟩
      rcases isLocated with _ | _
      · exact (List.prefix_cons_inj _).mpr hprefix
      · exact (List.prefix_cons_inj _).mpr hprefix
    refine meets_say_bind ?_
    by_cases hfurther : further = 0
    · rw [if_pos hfurther]
      exact meets_pure (hsaid [] hnone)
    · rw [if_neg hfurther]
      exact (ih (seen ++ [payload]) true (further - 1)).mono fun more _ h => hsaid more h

/-- **What is read of a stream.** -/
theorem readStream_meets (loads : Text → Option Json) (opened : Opened) (further : ℕ) :
    (readStream loads opened further : Program β Unit).Meets fun events _ =>
      (∀ event ∈ events, event = .closed ∨ ∃ chunk, event = .chunk chunk) ∧
        delivered events <+:
          located opened.region (chunksOf opened.read (ssePayloads loads opened.response) []) ∧
        openAfter true events = some false := by
  refine .afterwards ((chunks_meets opened.read opened.region
    (ssePayloads loads opened.response) [] false further).mono fun events _ h => ?_)
  obtain ⟨hchunks, hprefix⟩ := h
  refine ⟨fun event hevent => ?_, ?_, ?_⟩
  · rcases List.mem_append.mp hevent with h | h
    · exact .inr (hchunks event h)
    · exact .inl (List.mem_singleton.mp h)
  · rw [delivered_append]
    exact (List.append_nil _).symm ▸ hprefix
  · have hopen : openAfter true events = some true := by
      clear hprefix
      induction events with
      | nil => rfl
      | cons event events ih =>
        obtain ⟨⟨chunk, rfl⟩, hrest⟩ := List.forall_mem_cons.mp hchunks
        exact ih hrest
    rw [openAfter_append, hopen]
    rfl

end AiraGateway.Vertex
