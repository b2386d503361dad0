import ServantRs.Phases.Walk

/-!
# Phases — what an endpoint reads

A combinator reads what it names of a request and nothing else: its own query parameter, its own
header, the authority for a `Host`.  Two requests look alike to an endpoint when they agree on that
(`Chain.SeesAlike`), whatever else is in them.

* `extract_congr`, `preBodyCheck_congr`: the walks over a chain cannot tell such requests apart.
-/

namespace ServantRs

open RouteM ExtractState

section

variable [AppTypes] [HttpCrate]

/-- Two requests agree on what a combinator reads. -/
def Comb.SeesAlike (req req' : RequestData) : Comb → Prop
  | queryParam _ _ _ _ name | queryFlag name =>
    Chain.lookupQuery req.query name = Chain.lookupQuery req'.query name
  | queryParams _ _ name =>
    Chain.queryParamValues name req.query = Chain.queryParamValues name req'.query
  | queryString => req.rawQuery = req'.rawQuery ∧ req.query = req'.query
  | deepQuery _ _ name => parseDeepQuery name req.query = parseDeepQuery name req'.query
  | header _ _ _ _ name =>
    ∀ n, HttpCrate.headerNameFromStr name = some n → req.headers.get n = req'.headers.get n
  | host _ => req.hostAuthority = req'.hostAuthority
  | reqBody .. | streamBody .. => req.contentType = req'.contentType
  | vault => req.extensions = req'.extensions
  | basicAuth .. => req.headerText .AUTHORIZATION = req'.headerText .AUTHORIZATION
  -- the check may read any header
  | authProtect _ => req.headers = req'.headers
  | isSecure => req.isSecure = req'.isSecure
  | httpVersion => req.version = req'.version
  | remoteHost => req.remoteAddr = req'.remoteAddr
  | path _ | capture .. | captureAll .. | fragment .. | description _ | summary _ | operationId _
  | withResource _ | withNamedContext _ => True

namespace Chain

/-- Two requests agree on what the combinators of an endpoint read. -/
def SeesAlike (req req' : RequestData) : Chain → Prop
  | verb _     => True
  | sub c next => c.SeesAlike req req' ∧ next.SeesAlike req req'

variable {req req' : RequestData}

/-- The method is read by no combinator. -/
theorem seesAlike_of_eq (req : RequestData) (method : Method) (isHead : Bool) :
    ∀ c : Chain, c.SeesAlike { req with method, isHead } req
  | verb _ => trivial
  | sub c next => by
      refine ⟨?_, seesAlike_of_eq req method isHead next⟩
      cases c <;> first | trivial | exact ⟨rfl, rfl⟩ | exact fun _ _ => rfl

/-! ### The checks before authentication -/

theorem hostCheck_congr : ∀ {c : Chain}, c.SeesAlike req req' → c.hostCheck req = c.hostCheck req'
  | verb _, _ => rfl
  | sub c next, ⟨hc, h⟩ => by
      have ih := hostCheck_congr h
      cases c
      case host name =>
        rw [hostCheck, hostCheck, ih, show req.hostAuthority = req'.hostAuthority from hc]
      all_goals exact ih

theorem contentType_congr {types : List Mime} : ∀ {c : Chain}, c.SeesAlike req req' →
    c.requestContentTypes = some types → req.contentType = req'.contentType
  | sub c next, ⟨hc, h⟩, htypes => by
      cases c
      case reqBody => exact hc
      case streamBody => exact hc
      all_goals exact contentType_congr h htypes

/-! ### Authentication and extraction -/

variable [Base64Crate]

theorem basicAuthUser_congr
    (h : req.headerText .AUTHORIZATION = req'.headerText .AUTHORIZATION) (position : Nat)
    (Usr : AppTypes.TypeId) (realm : String) :
    basicAuthUser req position Usr realm = basicAuthUser req' position Usr realm := by
  funext st
  rw [basicAuthUser, basicAuthUser, h]

omit [HttpCrate] [Base64Crate] in
theorem authProtectUser_congr (h : req.headers = req'.headers) (position : Nat)
    (Usr : AppTypes.TypeId) :
    authProtectUser req position Usr = authProtectUser req' position Usr := by
  funext st
  rw [authProtectUser, authProtectUser, h]

theorem preBodyCheck_congr : ∀ {c : Chain}, c.SeesAlike req req' →
    c.preBodyCheck req = c.preBodyCheck req'
  | verb _, _ => rfl
  | sub c next, ⟨hc, h⟩ => by
      have ih := preBodyCheck_congr h
      cases c
      case basicAuth Usr realm =>
        rw [preBodyCheck, preBodyCheck, ih, basicAuthUser_congr hc]
      case authProtect Usr => rw [preBodyCheck, preBodyCheck, ih, authProtectUser_congr hc]
      case withNamedContext Name => rw [preBodyCheck, preBodyCheck, ih]
      all_goals exact ih

variable [MimeCrate]

omit [AppTypes] [Base64Crate] [MimeCrate] in
theorem extractHeader_congr {A : Type} (data : HttpApiData A) (P : Presence) (S : Strictness)
    {name : String} {headers headers' : HeaderMap}
    (h : ∀ n, HttpCrate.headerNameFromStr name = some n → headers.get n = headers'.get n) :
    extractHeader data P S name headers = extractHeader data P S name headers' := by
  rw [extractHeader, extractHeader]
  cases hn : HttpCrate.headerNameFromStr name with
  | none => rfl
  | some n => rw [Option.bind_some, Option.bind_some, h n hn]

/-- **Extraction reads of a request what the combinators name.** -/
theorem extract_congr : ∀ {c : Chain}, c.SeesAlike req req' → c.extract req = c.extract req'
  | verb _, _ => rfl
  | sub c next, ⟨hc, h⟩ => by
      have ih := extract_congr h
      cases c
      case capture | captureAll | withResource | withNamedContext => rw [extract, extract, ih]
      case path | host | fragment | description | summary | operationId => exact ih
      case queryParam A data P S name =>
        have hq : lookupQuery req.query name = lookupQuery req'.query name := hc
        rw [extract, extract, ih, extractQueryParam, extractQueryParam, hq]
      case queryParams A data name =>
        have hq : queryParamValues name req.query = queryParamValues name req'.query := hc
        rw [extract, extract, ih, extractQueryParams, extractQueryParams, hq]
      case queryFlag name =>
        have hq : lookupQuery req.query name = lookupQuery req'.query name := hc
        rw [extract, extract, ih, extractQueryFlag, extractQueryFlag, hq]
      case queryString =>
        obtain ⟨hraw, hquery⟩ := hc
        rw [extract, extract, ih, hraw, hquery]
      case deepQuery A data name =>
        have hq : parseDeepQuery name req.query = parseDeepQuery name req'.query := hc
        rw [extract, extract, ih, extractDeepQuery, extractDeepQuery, hq]
      case header A data P S name =>
        rw [extract, extract, ih, extractHeader_congr data P S hc]
      case reqBody A ctypes S =>
        have hct : req.contentType = req'.contentType := hc
        have hbody : extractReqBody ctypes S req = extractReqBody ctypes S req' := by
          funext body
          rw [extractReqBody, extractReqBody, hct]
        rw [extract, extract, ih, hbody]
      case streamBody framing T codec => rw [extract, extract, ih]
      case vault =>
        have hext : req.extensions = req'.extensions := hc
        rw [extract, extract, ih, hext]
      case basicAuth Usr realm => rw [extract, extract, ih, basicAuthUser_congr hc]
      case authProtect Usr => rw [extract, extract, ih, authProtectUser_congr hc]
      case isSecure =>
        have hsecure : req.isSecure = req'.isSecure := hc
        rw [extract, extract, ih, hsecure]
      case httpVersion =>
        have hversion : req.version = req'.version := hc
        rw [extract, extract, ih, hversion]
      case remoteHost =>
        have hremote : req.remoteAddr = req'.remoteAddr := hc
        rw [extract, extract, ih, hremote]

end Chain

end

end ServantRs
