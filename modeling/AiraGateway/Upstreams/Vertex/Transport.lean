import AiraGateway.Library.Except
import AiraGateway.Pipeline.Dispatch
import Mathlib.Tactic.IntervalCases

/-!
# Reaching a region

Where requests may be processed is one list for every platform, and beside it the regions single
models are permitted by name. The transport measures every address it builds against both, so an
address is either refused or at the host of a region the model may use.

* **A permission by name is what its entries say** (`mem_parseModelRegions`): a region is permitted
  to a model exactly when an entry names the region and lists the model.
* **One segment** (`safe_of_mem_quote`): a model's name cannot change the path of its address.
* **An address is permitted** (`url_permitted`, `openModelsUrl_permitted`,
  `rankingUrl_permitted`): each form of address is built for a permitted region only, at its host.
-/

namespace AiraGateway.Vertex

/-- What stops a call: a refusal of the gateway's own kinds, or any other exception, such as a
cancelled request or an answer no reader was written for. -/
inductive Raised
  | failed (failure : Failure)
  | crashed (what : Text)
  deriving DecidableEq

def Raised.regionNotAllowed (message : Text) : Raised :=
  .failed (.unaddressable (.regionNotAllowed message))

def Raised.ambiguousModel (message : Text) : Raised :=
  .failed (.unaddressable (.ambiguousModel message))

def Raised.upstream (e : UpstreamError) : Raised := .failed (.upstream e)

/-! ### Where requests may be processed -/

/-- The regions each model may use by name beside the allow-list. -/
abbrev ModelRegions := List (Text × List Text)

def permittedByName (permitted : ModelRegions) (model : Text) : List Text :=
  (dictGet permitted model).getD []

/-- One more region for one model. -/
def permit (region : Text) (permitted : ModelRegions) (name : Text) : ModelRegions :=
  dictSet permitted name (region :: permittedByName permitted name)

/-- An entry `region=model,model`: its region and the models it names. -/
def readEntry (entry : Text) : Except Text (Text × List Text) :=
  let region := strip (entry.takeWhile (· ≠ '='))
  let models := (entry.dropWhile (· ≠ '=')).drop 1
  let names := ((models.splitOn ',').map strip).filter (· ≠ [])
  if '=' ∉ entry ∨ region = [] ∨ names = [] then
    .error (('\'' :: entry) ++ ("' does not name a region and its models. Expected " : Text) ++
      ("'region=model,model', e.g. 'global=glm-5.2-maas'." : Text))
  else .ok (region, names)

/-- The parts of the setting that say something. -/
def entriesOf (configured : Text) : List Text :=
  ((configured.splitOn ';').map strip).filter (· ≠ [])

def parseModelRegions (configured : Text) : Except Text ModelRegions := do
  let entries ← (entriesOf configured).mapM readEntry
  return entries.foldl (fun permitted entry => entry.2.foldl (permit entry.1) permitted) []

/-- Refuse a region unless every model may use it, or the model may by name. `printed` is the
text of the sorted allow-list. -/
def checkRegion (printed : List Text → Text) (region : Text) (allowed : List Text) (model : Text)
    (forModels : ModelRegions) : Except Raised Unit :=
  if region ∈ allowed then .ok ()
  else if region ∈ permittedByName forModels model then .ok ()
  else
    let named : Text :=
      if model = [] then []
      else (" and is not permitted for '" : Text) ++ model ++ ("' by name" : Text)
    .error (.regionNotAllowed (("Region '" : Text) ++ region ++
      ("' is not in the allowed set " : Text) ++ printed allowed ++ named ++
      (". Residency is enforced by configuration; widen it deliberately if that is intended."
        : Text)))

section Permissions

variable {region : Text} {permitted : ModelRegions}

theorem mem_permit {name model r : Text} :
    r ∈ permittedByName (permit region permitted name) model ↔
      r ∈ permittedByName permitted model ∨ (model = name ∧ r = region) := by
  rw [permittedByName, permit, dictGet_dictSet]
  by_cases hmodel : model = name
  · subst hmodel
    rw [if_pos rfl, Option.getD_some, List.mem_cons]
    tauto
  · rw [if_neg hmodel]
    simp only [hmodel, false_and, or_false]
    rfl

theorem mem_foldl_permit {names : List Text} {model r : Text} :
    r ∈ permittedByName (names.foldl (permit region) permitted) model ↔
      r ∈ permittedByName permitted model ∨ (model ∈ names ∧ r = region) := by
  induction names generalizing permitted with
  | nil => simp
  | cons name names ih =>
    rw [List.foldl_cons, ih, mem_permit, List.mem_cons]
    tauto

private theorem mem_foldl_entries {entries : List (Text × List Text)} {model r : Text} :
    r ∈ permittedByName
        (entries.foldl (fun permitted entry => entry.2.foldl (permit entry.1) permitted) permitted)
        model ↔
      r ∈ permittedByName permitted model ∨ ∃ entry ∈ entries, model ∈ entry.2 ∧ r = entry.1 := by
  induction entries generalizing permitted with
  | nil => simp
  | cons entry entries ih =>
    rw [List.foldl_cons, ih, mem_foldl_permit]
    simp only [List.mem_cons, exists_eq_or_imp, or_assoc]

/-- **A permission by name is what its entries say.** -/
theorem mem_parseModelRegions {configured model r : Text}
    (h : parseModelRegions configured = .ok permitted) :
    r ∈ permittedByName permitted model ↔
      ∃ entry ∈ entriesOf configured, ∃ names,
        readEntry entry = .ok (r, names) ∧ model ∈ names := by
  obtain ⟨entries, hentries, hpermitted⟩ := bind_eq_ok_iff.mp h
  obtain rfl := Except.ok.inj hpermitted
  rw [mem_foldl_entries]
  have hnone : r ∉ permittedByName [] model := List.not_mem_nil
  simp only [hnone, false_or]
  constructor
  · rintro ⟨entry, hentry, hmodel, rfl⟩
    obtain ⟨text, htext, hok⟩ := (mem_of_mapM_eq_ok hentries).mp hentry
    exact ⟨text, htext, entry.2, hok, hmodel⟩
  · rintro ⟨text, htext, names, hok, hmodel⟩
    exact ⟨(r, names), (mem_of_mapM_eq_ok hentries).mpr ⟨text, htext, hok⟩, hmodel, rfl⟩

end Permissions

/-! ### Addresses -/

/-- The endpoints outside the regional pattern. -/
def multiRegionHosts : List (Text × Text) :=
  [("eu", "aiplatform.eu.rep.googleapis.com"), ("global", "aiplatform.googleapis.com")]

def hostFor (region : Text) : Text :=
  (dictGet multiRegionHosts region).getD (region ++ ("-aiplatform.googleapis.com" : Text))

def rankingHost : Text := "discoveryengine.googleapis.com"

def rankingHostFor (location : Text) : Text :=
  if location = "global" then rankingHost else location ++ '-' :: rankingHost

/-- What a path segment keeps as it is. -/
def isSafe (c : Char) : Bool := c.isAlphanum || c ∈ ['_', '.', '-', '~', '@']

def hexDigit (n : ℕ) : Char := (Nat.digitChar n).toUpper

/-- Percent-encode as one segment: every byte of what is not safe. -/
def quote (t : Text) : Text :=
  t.flatMap fun c =>
    if isSafe c then [c]
    else (String.utf8EncodeChar c).flatMap fun byte =>
      ['%', hexDigit (byte.toNat / 16), hexDigit (byte.toNat % 16)]

private theorem isSafe_hexDigit {n : ℕ} (h : n < 16) : isSafe (hexDigit n) = true := by
  interval_cases n <;> decide

/-- **One segment.** Whatever a name holds, its encoding holds nothing that could end a segment
or step out of it. -/
theorem safe_of_mem_quote {t : Text} {c : Char} (h : c ∈ quote t) : isSafe c = true ∨ c = '%' := by
  obtain ⟨d, -, hc⟩ := List.mem_flatMap.mp h
  by_cases hd : isSafe d = true
  · rw [if_pos hd, List.mem_singleton] at hc
    exact .inl (hc ▸ hd)
  · rw [if_neg hd] at hc
    obtain ⟨byte, -, hc⟩ := List.mem_flatMap.mp hc
    have hbyte : byte.toNat < 256 := byte.toNat_lt
    simp only [List.mem_cons, List.not_mem_nil, or_false] at hc
    rcases hc with rfl | rfl | rfl
    · exact .inr rfl
    · exact .inl (isSafe_hexDigit (by omega))
    · exact .inl (isSafe_hexDigit (by omega))

/-- The name the platform knows a model by: the addressing's, where the entry is an alias. -/
def wireName (model : Text) (addressing : Json) : Text :=
  match addressing.get "model" with
  | some (.str named) => if strip named ≠ [] then strip named else model
  | _ => model

/-- One project and what it may address. -/
structure VertexTransport where
  project : Text
  allowed : List Text
  modelRegions : ModelRegions := []
  /-- The text of the sorted allow-list, as a refusal states it. -/
  printed : List Text → Text

namespace VertexTransport

variable (t : VertexTransport)

def check (region model : Text) : Except Raised Unit :=
  checkRegion t.printed region t.allowed model t.modelRegions

/-- What every address starts with. -/
def base (host region : Text) : Text :=
  ("https://" : Text) ++ host ++ '/' :: ("v1/projects/" : Text) ++ t.project ++
    ("/locations/" : Text) ++ region

def url (region publisher model method : Text) (wireModel : Text := []) : Except Raised Text := do
  t.check region model
  let segment := quote (if wireModel = [] then model else wireModel)
  return t.base (hostFor region) region ++ ("/publishers/" : Text) ++ publisher ++
    ("/models/" : Text) ++ segment ++ ':' :: method

def openModelsUrl (region model : Text) : Except Raised Text := do
  t.check region model
  return t.base (hostFor region) region ++ ("/endpoints/openapi/chat/completions" : Text)

def rankingUrl (location model : Text) : Except Raised Text := do
  t.check location model
  return t.base (rankingHostFor location) location ++
    ("/rankingConfigs/default_ranking_config:rank" : Text)

/-- A region is permitted to a model where `checkRegion` lets it pass. -/
def Permits (region model : Text) : Prop := t.check region model = .ok ()

end VertexTransport

/-- An address at a host. -/
def AtHost (host address : Text) : Prop := (("https://" : Text) ++ host ++ ['/']) <+: address

section Addresses

variable {t : VertexTransport} {region publisher model method wireModel address : Text}

theorem atHost_base (host rest : Text) : AtHost host (t.base host region ++ rest) := by
  unfold AtHost VertexTransport.base
  generalize ("https://" : Text) = scheme, ("v1/projects/" : Text) = projects,
    ("/locations/" : Text) = locations
  simp

private theorem permitted_of_check (host rest : Text)
    (h : (do t.check region model; return t.base host region ++ rest) = Except.ok address) :
    t.Permits region model ∧ AtHost host address := by
  obtain ⟨⟨⟩, hcheck, haddress⟩ := bind_eq_ok_iff.mp h
  obtain rfl := Except.ok.inj haddress
  exact ⟨hcheck, atHost_base host rest⟩

/-- **An address is permitted.** A model's address is at the host of a region permitted to it. -/
theorem url_permitted (h : t.url region publisher model method wireModel = .ok address) :
    t.Permits region model ∧ AtHost (hostFor region) address := by
  let segment := quote (if wireModel = [] then model else wireModel)
  refine permitted_of_check (hostFor region)
    (("/publishers/" : Text) ++ (publisher ++ (("/models/" : Text) ++
      (segment ++ ':' :: method)))) ?_
  rw [← h, VertexTransport.url]
  simp only [List.append_assoc, segment]

theorem openModelsUrl_permitted (h : t.openModelsUrl region model = .ok address) :
    t.Permits region model ∧ AtHost (hostFor region) address :=
  permitted_of_check _ _ h

theorem rankingUrl_permitted (h : t.rankingUrl region model = .ok address) :
    t.Permits region model ∧ AtHost (rankingHostFor region) address :=
  permitted_of_check _ _ h

end Addresses

end AiraGateway.Vertex
