import Mathlib.Data.List.Forall2
import ServantRs.Phases.Reads
import ServantRs.Routing.Head

/-!
# Routing — two requests, one API

A dispatch of one request beside a dispatch of another, endpoint by endpoint (`tryInOrder_rel`).

* `handle_seesAlike`: two requests that agree on what the endpoints of their path read are answered
  alike; what no endpoint declares is ignored.
* `handle_head`: `HEAD` runs the handler that `GET` runs, on the same arguments, and is answered
  with the same status and headers.
-/

namespace ServantRs

open RouteM ExtractState

/-! ### Side by side -/

/-- Computations tried in order are related when they are one by one. -/
theorem tryInOrder_rel {σ σ' : Type*} {T T' : Type} {Rel : RouteM σ T → RouteM σ' T' → Prop}
    (hfail : Rel (RouteM.fail notFound) (RouteM.fail notFound))
    (hor : ∀ x x' y y', Rel x x' → Rel y y' → Rel (x.orElse y) (x'.orElse y'))
    {xs : List (RouteM σ T)} {xs' : List (RouteM σ' T')} (h : List.Forall₂ Rel xs xs') :
    Rel (tryInOrder xs []) (tryInOrder xs' []) := by
  rw [tryInOrder_eq_foldr, tryInOrder_eq_foldr]
  induction h with
  | nil => exact hfail
  | cons hx _ ih => exact hor _ _ _ _ hx ih

section

variable [AppTypes] [HttpCrate] [MimeCrate] [Base64Crate]

/-- A served API, for two requests on one path. -/
theorem dispatch_attempts_rel {api : Api} (htyped : api.Typed) (context : Context)
    (segments : List String) (req req' : RequestData)
    (Rel : RouteM World Response → RouteM World Response → Prop)
    (hfail : Rel (RouteM.fail notFound) (RouteM.fail notFound))
    (hor : ∀ x x' y y', Rel x x' → Rel y y' → Rel (x.orElse y) (x'.orElse y'))
    (hcall : ∀ a ∈ api.attempts segments, Rel (a.call context req) (a.call context req')) :
    Rel (dispatch Leaf.call (serveWithContext api context) segments [] none req)
      (dispatch Leaf.call (serveWithContext api context) segments [] none req') := by
  have hserve : ∀ req : RequestData,
      dispatch Leaf.call (serveWithContext api context) segments [] none req =
        tryInOrder ((api.attempts segments).map (·.call context req)) [] := fun req =>
    (dispatch_flat api context segments req).trans (serveFlat_attempts htyped)
  rw [hserve, hserve]
  refine tryInOrder_rel hfail hor ?_
  rw [List.forall₂_map_left_iff, List.forall₂_map_right_iff]
  exact List.forall₂_same.mpr hcall

/-! ### What is ignored -/

/-- An endpoint cannot tell two requests apart that look alike to it. -/
theorem callEndpoint_congr (label : Nat) {chain : Chain}
    (handler : chain.Args → Except ServerError chain.Output) (context : Context)
    (captures : List String) (capturedAll : Option (List String)) {req req' : RequestData}
    (h : chain.SeesAlike req req') (hmethod : req.method = req'.method)
    (hhead : req.isHead = req'.isHead) (haccept : req.accept = req'.accept) :
    Leaf.callEndpoint label chain handler context req captures capturedAll =
      Leaf.callEndpoint label chain handler context req' captures capturedAll := by
  have hct : Leaf.contentTypeOk chain req = Leaf.contentTypeOk chain req' := by
    rw [Leaf.contentTypeOk, Leaf.contentTypeOk]
    split
    · next types htypes => rw [Chain.contentType_congr h htypes]
    · rfl
  have hgates : Leaf.gates chain req captures capturedAll =
      Leaf.gates chain req' captures capturedAll := by
    rw [Leaf.gates, Leaf.gates, Chain.hostCheck_congr h, Leaf.methodOk, Leaf.methodOk, hmethod,
      hhead, haccept, hct]
  have hrun : Leaf.runHandler label chain handler req =
      Leaf.runHandler label chain handler req' := by
    funext args
    rw [Leaf.runHandler, Leaf.runHandler, haccept, hhead]
  rw [callEndpoint_eq, callEndpoint_eq, hgates, runExtraction_eq, runExtraction_eq,
    Chain.preBodyCheck_congr h, Chain.extract_congr h, hrun]

/-- Two requests on one path agree on what the endpoints of that path read. -/
structure Api.SeesAlike (api : Api) (segments : List String) (req req' : RequestData) : Prop where
  method : req.method = req'.method
  isHead : req.isHead = req'.isHead
  accept : req.accept = req'.accept
  chains : ∀ a ∈ api.attempts segments, a.chain.SeesAlike req req'

variable [PercentEncoding]

/-- Requests that look alike to the endpoints of their path are handled alike. -/
theorem Api.SeesAlike.handle_eq {api : Api} (htyped : api.Typed) (context : Context) (maxBody : Nat)
    {req req' : HttpRequest} (hpath : req.path = req'.path) (hbody : req.body = req'.body)
    (h : api.SeesAlike (pathSegments req.path) req.data req'.data) :
    RouterService.handle ⟨serveWithContext api context, maxBody⟩ req =
        RouterService.handle ⟨serveWithContext api context, maxBody⟩ req' ∧
      dispatch Leaf.call (serveWithContext api context) (pathSegments req.path) [] none req.data =
        dispatch Leaf.call (serveWithContext api context) (pathSegments req.path) [] none
          req'.data := by
  have hor : ∀ x x' y y' : RouteM World Response, x = x' → y = y' →
      x.orElse y = x'.orElse y' := by
    rintro x _ y _ rfl rfl
    rfl
  have hdispatch := dispatch_attempts_rel htyped context (pathSegments req.path) req.data req'.data
    Eq rfl hor fun a ha => by
      rw [Attempt.call, Attempt.call, Leaf.call, Leaf.call, Leaf.run, Leaf.run,
        callEndpoint_congr a.label a.handler context a.captures a.capturedAll (h.chains a ha) h.method
          h.isHead h.accept]
  refine ⟨?_, hdispatch⟩
  rw [RouterService.handle, RouterService.handle, hdispatch, hpath, hbody]

/-- **What no endpoint of the path declares is ignored.**  Two requests that agree on the method,
`Accept` and what the endpoints of their path read are answered alike, whatever else their queries
and headers hold, and run the same handlers on the same arguments. -/
theorem handle_seesAlike {api : Api} (htyped : api.Typed) (context : Context) (maxBody : Nat)
    {req req' : HttpRequest} (hpath : req.path = req'.path) (hbody : req.body = req'.body)
    (h : api.SeesAlike (pathSegments req.path) req.data req'.data) :
    RouterService.handle ⟨serveWithContext api context, maxBody⟩ req =
        RouterService.handle ⟨serveWithContext api context, maxBody⟩ req' ∧
      dispatch Leaf.call (serveWithContext api context) (pathSegments req.path) [] none req.data =
        dispatch Leaf.call (serveWithContext api context) (pathSegments req.path) [] none
          req'.data :=
  h.handle_eq htyped context maxBody hpath hbody

/-! ### `HEAD` and `GET` -/

/-- The same response but for the body, which may be left out. -/
structure Response.Mirrors (head get : Response) : Prop where
  status : head.status = get.status
  headers : head.headers = get.headers
  body : head.body = .full [] ∨ head.body = get.body

/-- The same result, but for the body of an answer. -/
inductive RouteResult.Mirrors : RouteResult Response → RouteResult Response → Prop
  | route {head get : Response} (h : head.Mirrors get) : Mirrors (.route head) (.route get)
  | fail (e : ServerError) : Mirrors (.fail e) (.fail e)
  | failFatal (e : ServerError) : Mirrors (.failFatal e) (.failFatal e)

/-- Two computations that do the same and end alike. -/
def RouteM.Mirrors {σ : Type*} (x y : RouteM σ Response) : Prop :=
  ∀ s, (x s).2 = (y s).2 ∧ (x s).1.Mirrors (y s).1

omit [AppTypes] [HttpCrate] [MimeCrate] [Base64Crate] [PercentEncoding] in
theorem Response.Mirrors.refl (r : Response) : r.Mirrors r := ⟨rfl, rfl, .inr rfl⟩

omit [AppTypes] [HttpCrate] [MimeCrate] [Base64Crate] [PercentEncoding] in
theorem RouteResult.Mirrors.refl : ∀ r : RouteResult Response, r.Mirrors r
  | .route r     => .route (.refl r)
  | .fail e      => .fail e
  | .failFatal e => .failFatal e

omit [AppTypes] [HttpCrate] [MimeCrate] [Base64Crate] [PercentEncoding] in
theorem RouteResult.Mirrors.intoResponse {r r' : RouteResult Response} (h : r.Mirrors r') :
    r.intoResponse.Mirrors r'.intoResponse := by
  cases h with
  | route h => exact h
  | fail e | failFatal e => exact .refl _

namespace RouteM.Mirrors

variable {σ : Type*}

omit [AppTypes] [HttpCrate] [MimeCrate] [Base64Crate] [PercentEncoding] in
theorem refl (x : RouteM σ Response) : x.Mirrors x := fun _ => ⟨rfl, .refl _⟩

omit [AppTypes] [HttpCrate] [MimeCrate] [Base64Crate] [PercentEncoding] in
theorem bind {T : Type} (x : RouteM σ T) {k k' : T → RouteM σ Response}
    (h : ∀ t, (k t).Mirrors (k' t)) : (x >>= k).Mirrors (x >>= k') := by
  intro s
  rcases hx : x s with ⟨t | e | e, s'⟩
  · rw [bind_route hx, bind_route hx]
    exact h t s'
  · rw [bind_fail hx, bind_fail hx]
    exact ⟨rfl, .fail e⟩
  · rw [bind_failFatal hx, bind_failFatal hx]
    exact ⟨rfl, .failFatal e⟩

omit [AppTypes] [HttpCrate] [MimeCrate] [Base64Crate] [PercentEncoding] in
theorem orElse {x x' y y' : RouteM σ Response} (hx : x.Mirrors x') (hy : y.Mirrors y') :
    (x.orElse y).Mirrors (x'.orElse y') := by
  intro s
  obtain ⟨hstate, hres⟩ := hx s
  rcases hxs : x s with ⟨r, t⟩
  rcases hxs' : x' s with ⟨r', t'⟩
  rw [hxs, hxs'] at hstate hres
  obtain rfl : t = t' := hstate
  rw [RouteM.orElse, RouteM.orElse, hxs, hxs']
  cases hres with
  | route h => exact ⟨rfl, .route h⟩
  | failFatal e => exact ⟨rfl, .failFatal e⟩
  | fail e =>
      obtain ⟨hstate, hres⟩ := hy t
      rcases hys : y t with ⟨r, u⟩
      rcases hys' : y' t with ⟨r', u'⟩
      rw [hys, hys'] at hstate hres
      obtain rfl : u = u' := hstate
      simp only [hys, hys']
      cases hres with
      | route h => exact ⟨rfl, .route h⟩
      | failFatal e => exact ⟨rfl, .failFatal e⟩
      | fail e' => exact ⟨rfl, .fail _⟩

omit [AppTypes] [HttpCrate] [MimeCrate] [Base64Crate] [PercentEncoding] in
theorem gated (gates : List (RouteResult Unit)) {x y : RouteM σ Response} (h : x.Mirrors y) :
    (RouteM.gated gates x).Mirrors (RouteM.gated gates y) := by
  induction gates with
  | nil => exact h
  | cons r gates ih => exact .bind _ fun _ => ih

omit [HttpCrate] [MimeCrate] [Base64Crate] [PercentEncoding] in
theorem inExtractState (captures : List String) (capturedAll : Option (List String))
    (context : Context) {x y : RouteM ExtractState Response} (h : x.Mirrors y) :
    (Leaf.inExtractState captures capturedAll context x).Mirrors
      (Leaf.inExtractState captures capturedAll context y) := by
  intro w
  obtain ⟨hstate, hres⟩ := h (.new captures capturedAll context w)
  exact ⟨congrArg ExtractState.world hstate, hres⟩

end RouteM.Mirrors

/-! ### The handler of `GET` -/

variable {context : Context}

omit [MimeCrate] [Base64Crate] [PercentEncoding] in
/-- A `HEAD` runs what a `GET` runs, and leaves the body of the answer out. -/
theorem runHandler_head (label : Nat) (chain : Chain)
    (handler : chain.Args → Except ServerError chain.Output) {req : RequestData}
    (hreq : req.isHead = false) (args : chain.Args) :
    RouteM.Mirrors (Leaf.runHandler label chain handler
      { req with method := .HEAD, isHead := true } args)
        (Leaf.runHandler label chain handler req args) := by
  rw [Leaf.runHandler, Leaf.runHandler]
  refine .bind _ fun _ => ?_
  cases handler args with
  | error e => exact .refl _
  | ok out =>
      rcases hrender : chain.terminal.render req.accept out with ⟨status, mime, body, extra⟩
      have haccept : RequestData.accept { req with method := .HEAD, isHead := true } =
          req.accept := rfl
      simp only [haccept, hrender, hreq, if_true, Bool.false_eq_true, if_false]
      exact fun s => ⟨rfl, .route ⟨rfl, rfl, .inl rfl⟩⟩

omit [PercentEncoding] in
theorem callEndpoint_head (label : Nat) {chain : Chain}
    (handler : chain.Args → Except ServerError chain.Output) (captures : List String)
    (capturedAll : Option (List String)) {req : RequestData} (hmethod : req.method = .GET)
    (hreq : req.isHead = false) (hchain : chain.method ≠ .HEAD) :
    RouteM.Mirrors (Leaf.callEndpoint label chain handler context
      { req with method := .HEAD, isHead := true } captures capturedAll)
        (Leaf.callEndpoint label chain handler context req captures capturedAll) := by
  have halike := chain.seesAlike_of_eq req .HEAD true
  have hok : Leaf.methodOk chain { req with method := .HEAD, isHead := true } =
      Leaf.methodOk chain req := by
    simp [Leaf.methodOk, hmethod, hreq, Ne.symm hchain, eq_comm]
  have hgates : Leaf.gates chain { req with method := .HEAD, isHead := true } captures capturedAll =
      Leaf.gates chain req captures capturedAll := by
    rw [Leaf.gates, Leaf.gates, hok, Chain.hostCheck_congr halike]
    rfl
  rw [callEndpoint_eq, callEndpoint_eq, hgates, runExtraction_eq, runExtraction_eq,
    Chain.preBodyCheck_congr halike, Chain.extract_congr halike]
  exact .gated _ (.inExtractState captures capturedAll context
    (.bind _ fun _ => .bind _ fun _ => .bind _ fun args => runHandler_head label chain handler hreq args))

omit [PercentEncoding] in
theorem call_head (a : Attempt) {req : RequestData} (hmethod : req.method = .GET)
    (hreq : req.isHead = false) (hchain : a.chain.method ≠ .HEAD) :
    RouteM.Mirrors (a.call context { req with method := .HEAD, isHead := true })
      (a.call context req) := by
  rw [Attempt.call, Attempt.call, Leaf.call, Leaf.call, Leaf.run, Leaf.run]
  exact .bind _ fun _ => callEndpoint_head a.label a.handler a.captures a.capturedAll hmethod hreq
    hchain

/-- **`HEAD` is `GET` without the body.**  Where no endpoint of the path asks for `HEAD` itself, a
`HEAD` request calls the leaves, runs the checks and the handler and reads the body as the `GET`
request does, and its response has the same status and headers; its body is empty, or an
error's. -/
theorem handle_head {api : Api} (htyped : api.Typed) (context : Context) (maxBody : Nat)
    {req : HttpRequest} (hreq : req.method = .GET)
    (hget : ∀ a ∈ api.attempts (pathSegments req.path), a.chain.method ≠ .HEAD) :
    Response.Mirrors
        (RouterService.handle ⟨serveWithContext api context, maxBody⟩ { req with method := .HEAD })
        (RouterService.handle ⟨serveWithContext api context, maxBody⟩ req) ∧
      (dispatch Leaf.call (serveWithContext api context) (pathSegments req.path) [] none
          (HttpRequest.data { req with method := .HEAD }) (.new req.body maxBody)).2 =
        (dispatch Leaf.call (serveWithContext api context) (pathSegments req.path) [] none req.data
          (.new req.body maxBody)).2 := by
  have hmethod : req.data.method = .GET := hreq
  have hishead : req.data.isHead = false := by
    rw [HttpRequest.data, hreq]
    rfl
  have hdata : HttpRequest.data { req with method := .HEAD } =
      { req.data with method := .HEAD, isHead := true } := by simp [HttpRequest.data]
  obtain ⟨hstate, hres⟩ := dispatch_attempts_rel htyped context (pathSegments req.path)
    (HttpRequest.data { req with method := .HEAD }) req.data RouteM.Mirrors (.refl _)
    (fun _ _ _ _ hx hy => hx.orElse hy)
    (fun a ha => hdata ▸ call_head a hmethod hishead (hget a ha)) (.new req.body maxBody)
  exact ⟨hres.intoResponse, hstate⟩

end

section

attribute [local instance] AppTypes.reference HttpCrate.reference MimeCrate.reference
  Base64Crate.reference PercentEncoding.reference

theorem attempts_searchApi {segments : List String} {a : Attempt}
    (h : a ∈ searchApi.attempts segments) :
    a.chain = .sub (.queryParam String .string .required .strict "q")
      (.verb (.noContentVerb .GET)) := by
  rw [searchApi, Api.attempts, Option.mem_toList, Option.map_eq_some_iff] at h
  obtain ⟨m, -, rfl⟩ := h
  rfl

theorem searchApi_typed : searchApi.Typed := trivial

/-- With a parameter missing, both are bad requests. -/
theorem handle_head_search : Response.Mirrors
    (RouterService.handle ⟨serveWithContext searchApi .new, 0⟩ (rootRequest .HEAD none))
    (RouterService.handle ⟨serveWithContext searchApi .new, 0⟩ (rootRequest .GET none)) := by
  have hget : (rootRequest .GET none).method = .GET := rfl
  refine (handle_head searchApi_typed .new 0 hget fun a ha => ?_).1
  rw [attempts_searchApi ha]
  decide

/-- The request with a header that the API does not know. -/
def trackedRequest : HttpRequest :=
  { rootRequest .GET none with headers := [("x-tracking", [0x31])] }

theorem handle_seesAlike_tracked :
    RouterService.handle ⟨serveWithContext searchApi .new, 0⟩ (rootRequest .GET none) =
      RouterService.handle ⟨serveWithContext searchApi .new, 0⟩ trackedRequest := by
  refine (handle_seesAlike searchApi_typed .new 0 rfl rfl ⟨rfl, rfl, rfl, fun a ha => ?_⟩).1
  rw [attempts_searchApi ha]
  exact ⟨rfl, trivial⟩

end

end ServantRs
