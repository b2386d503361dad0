import ServantRs.Docs.Served
import ServantRs.Routing.Mirror

/-!
# Docs — what is documented is what is read

The entries of a document name the query parameters and the headers of an endpoint.  A server reads
nothing else of a request's query and headers, but `Accept` and the credentials of its caller
(`handle_documented`).
-/

namespace ServantRs.Docs

section

variable [AppTypes]

/-- Two requests agree on a query parameter of a document. -/
def ParamDoc.Alike (req req' : RequestData) (p : ParamDoc) : Prop :=
  match p.kind with
  | .list => Chain.queryParamValues p.name req.query = Chain.queryParamValues p.name req'.query
  | .normal | .flag => Chain.lookupQuery req.query p.name = Chain.lookupQuery req'.query p.name

variable [HttpCrate]

/-- Two requests agree on what an entry of a document names. -/
structure EndpointDoc.Alike (req req' : RequestData) (ep : EndpointDoc) : Prop where
  queryParams : ∀ p ∈ ep.queryParams, p.Alike req req'
  deepQueries : ∀ d ∈ ep.deepQueries,
    parseDeepQuery d.name req.query = parseDeepQuery d.name req'.query
  headers : ∀ name ∈ ep.headers, ∀ n, HttpCrate.headerNameFromStr name = some n →
    req.headers.get n = req'.headers.get n
  queryString : ep.queryString.isSome → req.rawQuery = req'.rawQuery ∧ req.query = req'.query
  host : ep.host.isSome → req.hostAuthority = req'.hostAuthority
  requestBody : ep.requestBody.isSome → req.contentType = req'.contentType

end

/-! ### Entries that name more -/

/-- What an entry names, another one does. -/
structure EndpointDoc.Within (a b : EndpointDoc) : Prop where
  queryParams : a.queryParams ⊆ b.queryParams
  deepQueries : a.deepQueries ⊆ b.deepQueries
  headers : a.headers ⊆ b.headers
  queryString : a.queryString.isSome → b.queryString.isSome
  host : a.host.isSome → b.host.isSome
  requestBody : a.requestBody.isSome → b.requestBody.isSome

namespace EndpointDoc.Within

variable {a b c : EndpointDoc}

theorem refl (a : EndpointDoc) : a.Within a :=
  ⟨List.Subset.refl _, List.Subset.refl _, List.Subset.refl _, id, id, id⟩

theorem trans (h : a.Within b) (h' : b.Within c) : a.Within c where
  queryParams := List.Subset.trans h.queryParams h'.queryParams
  deepQueries := List.Subset.trans h.deepQueries h'.deepQueries
  headers := List.Subset.trans h.headers h'.headers
  queryString ha := h'.queryString (h.queryString ha)
  host ha := h'.host (h.host ha)
  requestBody ha := h'.requestBody (h.requestBody ha)

theorem combine_left [MimeEq] (a b : EndpointDoc) : a.Within (a.combine b) := by
  constructor <;> simp +contextual [combine, List.subset_def]

theorem combine_right [MimeEq] (a b : EndpointDoc) : b.Within (a.combine b) := by
  constructor <;> simp +contextual [combine, List.subset_def]

theorem alike [AppTypes] [HttpCrate] {req req' : RequestData} (h : a.Within b)
    (hb : b.Alike req req') : a.Alike req req' where
  queryParams p hp := hb.queryParams p (h.queryParams hp)
  deepQueries d hd := hb.deepQueries d (h.deepQueries hd)
  headers name hname := hb.headers name (h.headers hname)
  queryString ha := hb.queryString (h.queryString ha)
  host ha := hb.host (h.host ha)
  requestBody ha := hb.requestBody (h.requestBody ha)

end EndpointDoc.Within

theorem within_docsVerb (t : Terminal) (acc : EndpointDoc) : acc.Within (docsVerb t acc) := by
  cases t <;> constructor <;> simp [docsVerb, EndpointDoc.note]

variable [AppTypes] [HttpCrate] [TypeNames]

theorem within_docsComb (c : Comb) (acc : EndpointDoc) : acc.Within (docsComb c acc) := by
  cases c <;> constructor <;> simp +contextual [docsComb, EndpointDoc.note, List.subset_def]

/-- An endpoint is named in the entry of its key. -/
theorem within_of_key_eq [MimeEq] {api : ApiDescription} {ep a : EndpointDoc}
    (hep : ep ∈ api.docs.endpoints) (ha : a ∈ api.endpoints) (hkey : ep.key = a.key) :
    a.Within ep := by
  refine ((gathers_docs api).joined hep).le .refl (fun _ _ _ => .trans) .combine_left
    .combine_right ?_
  exact List.mem_filter.mpr ⟨ha, decide_eq_true hkey.symm⟩

end ServantRs.Docs

namespace ServantRs

open Docs (EndpointDoc docsComb docsVerb)

section

variable [AppTypes] [HttpCrate]

/-! ### Chains -/

/-- Two requests of one caller: from one place, in one version, with one `Authorization`. -/
structure RequestData.SameCaller (req req' : RequestData) : Prop where
  version : req.version = req'.version
  remoteAddr : req.remoteAddr = req'.remoteAddr
  isSecure : req.isSecure = req'.isSecure
  extensions : req.extensions = req'.extensions
  authorization : req.headerText .AUTHORIZATION = req'.headerText .AUTHORIZATION

/-- No check of the application, which might read any header. -/
def Chain.Unchecked : Chain → Prop
  | verb _                    => True
  | sub (.authProtect _) _    => False
  | sub _ next                => next.Unchecked

omit [HttpCrate] in
theorem Chain.Unchecked.next {c : Comb} {next : Chain} (h : (Chain.sub c next).Unchecked) :
    next.Unchecked := by
  cases c
  case authProtect => exact h.elim
  all_goals exact h

variable [Docs.TypeNames] {req req' : RequestData}

theorem Comb.seesAlike_of_documented (hcaller : req.SameCaller req') {c : Comb} {next : Chain}
    (hc : (Chain.sub c next).Unchecked) {acc : EndpointDoc}
    (h : (docsComb c acc).Alike req req') : c.SeesAlike req req' := by
  cases c with
  | queryParam A data P S name =>
      exact h.queryParams _ (List.mem_append_right _ (List.mem_singleton_self _))
  | queryParams A data name =>
      exact h.queryParams _ (List.mem_append_right _ (List.mem_singleton_self _))
  | queryFlag name =>
      exact h.queryParams _ (List.mem_append_right _ (List.mem_singleton_self _))
  | queryString => exact h.queryString rfl
  | deepQuery A data name =>
      exact h.deepQueries _ (List.mem_append_right _ (List.mem_singleton_self _))
  | header A data P S name =>
      exact h.headers name (List.mem_append_right _ (List.mem_singleton_self _))
  | host name => exact h.host rfl
  | reqBody | streamBody => exact h.requestBody rfl
  | vault => exact hcaller.extensions
  | basicAuth => exact hcaller.authorization
  | authProtect => exact hc.elim
  | isSecure => exact hcaller.isSecure
  | httpVersion => exact hcaller.version
  | remoteHost => exact hcaller.remoteAddr
  | path | capture | captureAll | fragment | description | summary | operationId | withResource
  | withNamedContext => trivial

/-- The entry of a chain names what its combinators read. -/
theorem Chain.seesAlike_of_documented (hcaller : req.SameCaller req') : ∀ (c : Chain)
    (acc : EndpointDoc), c.Unchecked →
      ∃ ep, c.description.endpointsWalk docsComb docsVerb acc = [ep] ∧ acc.Within ep ∧
        (ep.Alike req req' → c.SeesAlike req req')
  | verb t, acc, _ => ⟨docsVerb t acc, rfl, Docs.within_docsVerb t acc, fun _ => trivial⟩
  | sub c next, acc, hc => by
      obtain ⟨ep, hwalk, hwithin, hnext⟩ :=
        seesAlike_of_documented hcaller next (docsComb c acc) hc.next
      refine ⟨ep, hwalk, (Docs.within_docsComb c acc).trans hwithin, fun h => ⟨?_, hnext h⟩⟩
      exact Comb.seesAlike_of_documented hcaller hc (hwithin.alike h)

/-- An endpoint that is tried has its entry, which covers the path and names what it reads. -/
theorem Api.attempt_documented (hcaller : req.SameCaller req') {segments : List String}
    {a : Attempt} : ∀ {api : Api}, a ∈ api.attempts segments → a.chain.Unchecked →
      ∃ ep ∈ api.description.endpoints, ep.Covers segments ∧
        (ep.Alike req req' → a.chain.SeesAlike req req')
  | .endpoint label chain handler, ha, hchain => by
      rw [attempts, Option.mem_toList, Option.map_eq_some_iff] at ha
      obtain ⟨m, hm, rfl⟩ := ha
      obtain ⟨ep, hwalk, hpath, hraw, -⟩ := chain.endpointsWalk .empty
      obtain ⟨ep', hwalk', -, hsees⟩ := chain.seesAlike_of_documented hcaller .empty hchain
      obtain rfl : ep = ep' := List.singleton_injective (hwalk.symm.trans hwalk')
      refine ⟨ep, ?_, ?_, hsees⟩
      · rw [description, Docs.ApiDescription.endpoints, hwalk]
        exact List.mem_singleton_self _
      · rw [EndpointDoc.Covers, Docs.covers_iff lastOnly, hpath, hraw]
        exact Option.isSome_iff_exists.mpr ⟨m, hm⟩
  | .raw .., ha, _ => by cases ha
  | .alt left right, ha, hchain => by
      rw [description, Docs.ApiDescription.endpoints, Docs.ApiDescription.endpointsWalk]
      rcases List.mem_append.mp ha with ha | ha
      · obtain ⟨ep, hep, h⟩ := attempt_documented hcaller ha hchain
        exact ⟨ep, List.mem_append_left _ hep, h⟩
      · obtain ⟨ep, hep, h⟩ := attempt_documented hcaller ha hchain
        exact ⟨ep, List.mem_append_right _ hep, h⟩

/-! ### The server -/

variable [MimeCrate] [Base64Crate] [MimeEq] [PercentEncoding]

/-- **What is not documented is not read.**  Two requests of one caller that agree on what the
entries covering their path name are answered alike, and run the same handlers on the same
arguments, whatever else their queries and headers hold. -/
theorem handle_documented {api : Api} (htyped : api.Typed) (hu : api.description.Unambiguous)
    (context : Context) (maxBody : Nat) {req req' : HttpRequest} (hmethod : req.method = req'.method)
    (hpath : req.path = req'.path) (hbody : req.body = req'.body)
    (haccept : req.data.accept = req'.data.accept) (hcaller : req.data.SameCaller req'.data)
    (hunchecked : ∀ a ∈ api.attempts (pathSegments req.path), a.chain.Unchecked)
    (h : ∀ ep ∈ api.description.docs.endpoints, ep.Covers (pathSegments req.path) →
      ep.Alike req.data req'.data) :
    RouterService.handle ⟨serveWithContext api context, maxBody⟩ req =
        RouterService.handle ⟨serveWithContext api context, maxBody⟩ req' ∧
      dispatch Leaf.call (serveWithContext api context) (pathSegments req.path) [] none req.data =
        dispatch Leaf.call (serveWithContext api context) (pathSegments req.path) [] none
          req'.data := by
  have hchains : ∀ a ∈ api.attempts (pathSegments req.path),
      a.chain.SeesAlike req.data req'.data := by
    intro a ha
    obtain ⟨e, he, hcovers, hsees⟩ := Api.attempt_documented hcaller ha (hunchecked a ha)
    obtain ⟨ep, hep, hkey⟩ := (Docs.gathers_docs api.description).exists_mem he
    refine hsees ((Docs.within_of_key_eq hep he hkey).alike (h ep hep ?_))
    exact (Docs.covers_of_key_eq hu hep he hkey).mpr hcovers
  have hhead : req.data.isHead = req'.data.isHead := by
    rw [HttpRequest.data, HttpRequest.data, hmethod]
  have halike : api.SeesAlike (pathSegments req.path) req.data req'.data :=
    ⟨hmethod, hhead, haccept, hchains⟩
  exact halike.handle_eq htyped context maxBody hpath hbody

end

/-! ### A search that is tracked -/

section

attribute [local instance] AppTypes.reference HttpCrate.reference MimeCrate.reference
  Base64Crate.reference PercentEncoding.reference MimeEq.reference Docs.TypeNames.reference

theorem searchApi_unambiguous : searchApi.description.Unambiguous := by
  intro a ha b hb _
  obtain rfl := List.mem_singleton.mp ha
  obtain rfl := List.mem_singleton.mp hb
  exact .nil

/-- A header that the document does not name. -/
theorem handle_documented_tracked :
    RouterService.handle ⟨serveWithContext searchApi .new, 0⟩ (rootRequest .GET none) =
      RouterService.handle ⟨serveWithContext searchApi .new, 0⟩ trackedRequest := by
  refine (handle_documented searchApi_typed searchApi_unambiguous .new 0 rfl rfl rfl rfl
    ⟨rfl, rfl, rfl, rfl, rfl⟩ (fun a ha => ?_) fun ep hep _ => ?_).1
  · rw [attempts_searchApi ha]
    trivial
  · obtain rfl := List.mem_singleton.mp hep
    refine ⟨?_, ?_, ?_, ?_, ?_, ?_⟩
    · rintro p hp
      obtain rfl := List.mem_singleton.mp hp
      rfl
    all_goals simp [docsVerb, docsComb, EndpointDoc.empty]

end

end ServantRs
