import ServantRs.Calls.RoundTrip

/-!
# Calls — raw endpoints

A raw endpoint is called with a method of the caller's choice, and its handler sees a request that
has come to the end of the path: no segments left, no query, no body.  The response comes back as
the handler made it.

The combinators above a raw endpoint do to the client's request what they do above a typed one
(`buildRequest_toChain`), so the request arrives as that of a typed call without arguments does.

* `RawChain.Leads`: the raw endpoint is the first to match the path of its call.
* `callRaw_ok`: the response comes back.
-/

namespace ServantRs

open RouteM

section

variable [AppTypes]

namespace RawChain

/-- The raw endpoint with a verb in the handler's place. -/
def toChain (M : Method) : RawChain → Chain
  | raw | rawM => .verb (.noContentVerb M)
  | sub c next => .sub c.comb (next.toChain M)

variable {M : Method}

theorem terminal_toChain : ∀ c : RawChain, (c.toChain M).terminal = .noContentVerb M
  | raw | rawM => rfl
  | sub _ next => terminal_toChain next

theorem hasClient_toChain : ∀ c : RawChain, (c.toChain M).HasClient
  | raw | rawM => trivial
  | sub c next => ⟨by cases c <;> trivial, hasClient_toChain next⟩

theorem parts_toChain : ∀ c : RawChain, (c.toChain M).parts = c.parts
  | raw | rawM => rfl
  | sub c next => by cases c <;> simp [toChain, RawComb.comb, Chain.parts, parts, parts_toChain next]

omit [AppTypes] in
theorem captureAllLast_parts : ∀ c : RawChain, CaptureAllLast c.parts
  | raw | rawM => trivial
  | sub c next => by
      cases c with
      | path | host | fragment | description | summary | operationId =>
          exact captureAllLast_parts next

/-- There are no arguments. -/
def noArgs (M : Method) : (c : RawChain) → (c.toChain M).Args
  | raw | rawM => ()
  | sub (.path _) next | sub (.host _) next | sub (.fragment ..) next | sub (.description _) next
  | sub (.summary _) next | sub (.operationId _) next => next.noArgs M

section

variable [PercentEncoding] [HttpCrate]

/-- **The client builds the request of a raw endpoint as that of a typed one.** -/
theorem buildRequest_toChain : ∀ (c : RawChain) (req : ClientRequest),
    (c.toChain M).buildRequest c.hasClient_toChain (c.noArgs M) req
      = (c.buildRawRequest req).map fun req => { req with method := M }
  | raw, req | rawM, req => rfl
  | sub c next, req => by
      cases c with
      | host name =>
          show (Chain.hostHeader name >>= fun value => _)
            = (Chain.hostHeader name >>= fun value => _).map _
          cases Chain.hostHeader name with
          | error e => rfl
          | ok value => exact buildRequest_toChain next _
      | path segment => exact buildRequest_toChain next _
      | fragment | description | summary | operationId => exact buildRequest_toChain next _

end

/-! ### Matching -/

/-- The segments above a raw endpoint. -/
def segments : RawChain → List String
  | raw | rawM               => []
  | sub (.path segment) next => segment :: next.segments
  | sub _ next               => next.segments

/-- The authorities a raw endpoint asks for. -/
def hosts : RawChain → List String
  | raw | rawM            => []
  | sub (.host name) next => name :: next.hosts
  | sub _ next            => next.hosts

theorem items_noArgs : ∀ c : RawChain,
    (c.toChain M).items (c.noArgs M) = c.segments.map .static
  | raw | rawM => rfl
  | sub c next => by
      cases c with
      | path segment => exact congrArg (UrlItem.static segment :: ·) (items_noArgs next)
      | host | fragment | description | summary | operationId => exact items_noArgs next

theorem pieces_noArgs (c : RawChain) :
    ((c.toChain M).items (c.noArgs M)).flatMap UrlItem.pieces = c.segments := by
  rw [items_noArgs, List.flatMap_map]
  exact List.flatMap_singleton' c.segments

omit [AppTypes] in
/-- **Its segments come to the end of the path.** -/
theorem matchParts_segments : ∀ {c : RawChain}, c.segments.getLast? ≠ some "" →
    matchParts lastOnly true c.parts c.segments = some ⟨[], [], none⟩
  | raw, _ | rawM, _ => rfl
  | sub (.path segment) next, h => by
      have hempty : isEmptyPath (segment :: next.segments) = false := by
        rw [Bool.eq_false_iff, ne_eq, isEmptyPath_cons]
        rintro ⟨rfl, hnil⟩
        rw [segments, hnil] at h
        exact h rfl
      have hnext : next.segments.getLast? ≠ some "" := by
        intro hlast
        rw [segments, List.getLast?_cons, hlast] at h
        exact h rfl
      rw [parts, segments, matchParts_static_cons hempty, if_pos rfl, matchParts_segments hnext]
  | sub (.host _) next, h | sub (.fragment ..) next, h | sub (.description _) next, h
  | sub (.summary _) next, h | sub (.operationId _) next, h =>
      matchParts_segments (c := next) h

/-- The host is all that is sent beside the path. -/
theorem comb_toChain [HttpCrate] : ∀ {c : RawChain} {comb : Comb}, comb ∈ (c.toChain M).combs →
    comb.argName = none ∧ comb.IsBody = false ∧ ∀ key, comb.readsKey key = false
  | sub c next, comb, h => by
      rcases List.mem_cons.mp h with rfl | h
      · cases c <;> exact ⟨rfl, rfl, fun _ => rfl⟩
      · exact comb_toChain h

theorem headerNames_toChain [HttpCrate] : ∀ c : RawChain,
    (c.toChain M).combs.filterMap Comb.headerName = c.hosts.map fun _ => .HOST
  | raw | rawM => rfl
  | sub c next => by
      have ih := headerNames_toChain next
      cases c with
      | host name => exact congrArg (HeaderName.HOST :: ·) ih
      | path | fragment | description | summary | operationId => exact ih

/-- A raw endpoint that can be called: on one host at most, whose name is an authority and fits in a
header, and with a path that does not end in an empty segment. -/
structure Callable [HttpCrate] (c : RawChain) : Prop where
  one : c.hosts.length ≤ 1
  host : ∀ name ∈ c.hosts, (HostRequirement.parse name).isSome ∧ IsHeaderText name
  path : c.segments.getLast? ≠ some ""

section

variable [HttpCrate] [MimeCrate] {c : RawChain}

theorem Callable.toChain (hc : c.Callable) (hM : M ≠ .HEAD) (added : List HeaderName) :
    (c.toChain M).Callable added where
  client := c.hasClient_toChain
  method := by rwa [Chain.method, terminal_toChain]
  tail := c.parts_toChain ▸ c.captureAllLast_parts
  keys := List.Pairwise.imp_of_mem (fun _ hc' _ key _ => (comb_toChain hc').2.2 key)
    (List.pairwise_of_forall fun _ _ => trivial)
  names := by
    rw [headerNames_toChain]
    have hone := hc.one
    cases hhosts : c.hosts with
    | nil => exact .nil
    | cons name names =>
        rw [hhosts] at hone
        obtain rfl := List.length_eq_zero_iff.mp (Nat.le_zero.mp (Nat.le_of_succ_le_succ hone))
        exact List.nodup_singleton _
  own := by
    intro n hn
    rw [headerNames_toChain] at hn
    obtain ⟨name, -, rfl⟩ := List.mem_map.mp hn
    exact ⟨by decide, by decide⟩
  added := by
    intro n hn
    obtain ⟨comb, hcomb, hname⟩ := List.mem_filterMap.mp hn
    rw [(comb_toChain hcomb).1] at hname
    cases hname
  body := by
    rw [List.countP_eq_zero.mpr fun comb hcomb => ?_]
    · exact Nat.zero_le 1
    · rw [(comb_toChain hcomb).2.1]
      exact Bool.false_ne_true
  media := by
    intro m hm
    rw [terminal_toChain] at hm
    cases hm
  accepts := .inl ⟨M, c.terminal_toChain⟩

theorem sendable_noArgs {maxBody : Nat} : ∀ {c : RawChain},
    (∀ name ∈ c.hosts, (HostRequirement.parse name).isSome ∧ IsHeaderText name) →
      ∀ b ∈ (c.toChain M).bindings (c.noArgs M), b.comb.Sendable maxBody b.arg
  | sub (.host name) next, h, b, hb => by
      rcases List.mem_cons.mp hb with rfl | hb
      · exact h name List.mem_cons_self
      · exact sendable_noArgs (fun name hname => h name (List.mem_cons_of_mem _ hname)) b hb
  | sub (.path _) next, h, b, hb | sub (.fragment ..) next, h, b, hb
  | sub (.description _) next, h, b, hb | sub (.summary _) next, h, b, hb
  | sub (.operationId _) next, h, b, hb => by
      rcases List.mem_cons.mp hb with rfl | hb
      · trivial
      · exact sendable_noArgs (c := next) h b hb

/-- Nothing of its request fails to be sent. -/
theorem Callable.sends (hc : c.Callable) (maxBody : Nat) :
    (c.toChain M).Sends maxBody (c.noArgs M) where
  sendable := sendable_noArgs hc.host
  path := by
    rintro ⟨-, hlast⟩
    rw [items_noArgs, List.flatMap_map] at hlast
    refine hc.path ?_
    rw [← hlast]
    exact congrArg List.getLast? (List.flatMap_singleton' c.segments).symm
  tail := by
    have hnone : capturedTail (c.segments.map .static) = none := by
      simp [capturedTail, List.findSome?_map, Function.comp_def, UrlItem.tail]
    rw [items_noArgs, hnone]
    simp

end

/-! ### The service -/

section

variable [HttpCrate]

/-- The response of a raw endpoint's handler. -/
def respond : (c : RawChain) → c.Handler → Context → RawRequest → Response
  | raw, handler, _, req => handler req
  | rawM, handler, context, req => Leaf.rawAnswer (handler req context)
  | sub _ next, handler, context, req => next.respond handler context req

/-- The first host, where every host lets the request through. -/
theorem check_of_hostCheck {name : String} {next : Chain} {req : RequestData}
    (h : (Chain.sub (.host name) next).hostCheck req = .route ()) :
    (HostGuard.fromName name).check req = .route () ∧ next.hostCheck req = .route () := by
  rw [Chain.hostCheck] at h
  rw [HostGuard.fromName]
  cases hparse : HostRequirement.parse name with
  | none =>
      rw [hparse] at h
      cases h
  | some required =>
      simp only [hparse] at h
      simp only [HostGuard.check]
      cases hauthority : req.hostAuthority with
      | none =>
          rw [hauthority] at h
          cases h
      | some authority =>
          simp only [hauthority] at h ⊢
          by_cases hmatches : required.matchesAuthority authority = true
          · rw [if_pos hmatches] at h
            exact ⟨if_pos hmatches, h⟩
          · rw [if_neg hmatches] at h
            cases h

variable [MimeCrate] [Base64Crate] {req : RequestData} {w : World} {body : Bytes}
  {label : Nat} {context : Context} {tail captures : List String} {all : Option (List String)}

/-- **The leaf of a raw endpoint answers with its handler's response**, on a body that is read. -/
theorem leaf_run (hbody : (Leaf.buffered w).1 = .route body) : ∀ (c : RawChain)
    (handler : c.Handler), (c.toChain M).hostCheck req = .route () →
      ((c.leaf label context handler).run req tail captures all w).1
        = .route (c.respond handler context (.fromRequest req tail body))
  | raw, handler, _ => by
      have hpair : Leaf.buffered w = (.route body, (Leaf.buffered w).2) := Prod.ext hbody rfl
      show ((Leaf.buffered >>= fun body => RouteM.modify (·.record (.rawHandler label)) >>= fun _ =>
        RouteM.pure (handler (.fromRequest req tail body))) w).1 = _
      rw [bind_route hpair]
      rfl
  | rawM, handler, _ => by
      have hpair : Leaf.buffered w = (.route body, (Leaf.buffered w).2) := Prod.ext hbody rfl
      show ((Leaf.buffered >>= fun body => RouteM.modify (·.record (.rawHandler label)) >>= fun _ =>
        _) w).1 = _
      rw [bind_route hpair, respond]
      cases handler (.fromRequest req tail body) context with
      | ok response => rfl
      | error e => rfl
  | sub c next, handler, hhost => by
      cases c with
      | host name =>
          obtain ⟨hcheck, hnext⟩ := check_of_hostCheck hhost
          show ((ofResult ((HostGuard.fromName name).check req) >>= fun _ =>
            (next.leaf label context handler).run req tail captures all) w).1 = _
          rw [hcheck]
          exact leaf_run hbody next handler hnext
      | path | fragment | description | summary | operationId =>
          exact leaf_run hbody next handler hhost

end

/-! ### There and back -/

omit [AppTypes] in
/-- The first computation that answers, when those before it find nothing. -/
theorem tryInOrder_of_notFound {σ : Type*} {T : Type} {x : RouteM σ T} {ys : List (RouteM σ T)}
    {s : σ} {t : T} (hx : (x s).1 = .route t) :
    ∀ {xs : List (RouteM σ T)} {errors : List ServerError},
      (∀ y ∈ xs, y = RouteM.fail notFound) → (tryInOrder (xs ++ x :: ys) errors s).1 = .route t
  | [], errors, _ => by
      rcases hs : x s with ⟨_ | _ | _, s'⟩ <;> rw [hs] at hx
      · simp only [List.nil_append, tryInOrder, hs, hx]
      · cases hx
      · cases hx
  | y :: xs, errors, h => by
      obtain rfl := h y List.mem_cons_self
      have hxs : ∀ y ∈ xs, y = RouteM.fail notFound := fun y hy => h y (List.mem_cons_of_mem _ hy)
      exact @tryInOrder_of_notFound _ _ _ _ _ _ hx xs _ hxs

variable [PercentEncoding] [UriCrate] [HttpCrate] [MimeCrate] [Base64Crate]

/-- A call that reaches its raw endpoint: the network takes the request to a service that the
endpoint is served by, and no endpoint before it matches its path. -/
structure CallsInto (c : RawChain) (client : HyperClient) (added : List HeaderName) (api : Api)
    (context : Context) (maxBody label : Nat) (handler : c.Handler) (M : Method) : Prop where
  reaches : ∀ creq sent, c.buildRawRequest .new = .ok creq →
    client.build { creq with method := M } = .ok sent →
      client.Reaches (RouterService.handle ⟨serveWithContext api context, maxBody⟩) added sent
  root : client.base.path = ""
  kept : .ACCEPT ∉ added ∧ .CONTENT_TYPE ∉ added
  leads : ∃ before after, api.routes context
    = before ++ ⟨c.pattern, c.leaf label context handler⟩ :: after ∧
      ∀ route ∈ before, route.pattern.match? lastOnly (received c.segments) = none
  callable : c.Callable
  method : M ≠ .HEAD
  builds : ∃ creq, c.buildRawRequest .new = .ok creq ∧
    UriCrate.isUri (client.base.urlFor creq.target) = true

variable {c : RawChain} {client : HyperClient} {added : List HeaderName} {api : Api}
  {context : Context} {maxBody label : Nat} {handler : c.Handler}

/-- What a raw endpoint sees of a call. -/
structure Sees (M : Method) (req : RawRequest) : Prop where
  method : req.method = M
  tail : req.tail = []
  query : req.query.pairs = []
  body : req.body = []

/-- **A service answers a raw call with the handler's response.** -/
theorem CallsInto.handle (h : c.CallsInto client added api context maxBody label handler M)
    (laws : HeaderValueLaws) {creq : ClientRequest}
    (hb : (c.toChain M).Built (c.noArgs M) creq) {got : HttpRequest}
    (harrives : creq.Arrives added got) : ∃ req, Sees M req ∧
      RouterService.handle ⟨serveWithContext api context, maxBody⟩ got
        = c.respond handler context req := by
  have hc := h.callable.toChain h.method added
  have hs : (c.toChain M).Sends maxBody (c.noArgs M) := h.callable.sends maxBody
  have hpath : pathSegments got.path = received c.segments := by
    have hempty : EndsPath "" := fun _ hc => absurd hc (Option.not_mem_none _)
    rw [harrives.path, hb.target, ← c.pieces_noArgs (M := M),
      ← pathSegments_path_render .plain ((c.toChain M).items (c.noArgs M)) hempty,
      String.append_empty]
  have hbody : (Leaf.buffered ((World.new got.body maxBody).record
      (.call (c.leaf label context handler) [] [] none))).1 = .route [] := by
    have hzero : (c.toChain M).combs.countP Comb.IsBody = 0 := by
      rw [List.countP_eq_zero]
      intro comb hcomb
      rw [(comb_toChain hcomb).2.1]
      exact Bool.false_ne_true
    obtain ⟨hfull, hstream⟩ := hb.none hzero
    have hholds : creq.hyperBody.Holds [] := by
      rw [ClientRequest.hyperBody, hfull, hstream]
      exact .full []
    obtain ⟨hbytes, herror⟩ := harrives.body [] hholds
    have hbuffer := @buffer_of_received got.body maxBody herror (by rw [hbytes]; exact Nat.zero_le _)
    rw [hbytes] at hbuffer
    simp only [Leaf.buffered, World.bufferBody, World.record, World.new, hbuffer]
  have hcall : ((Leaf.call (c.leaf label context handler) got.data [] [] none)
      (World.new got.body maxBody)).1
        = .route (c.respond handler context (.fromRequest got.data [] [])) :=
    c.leaf_run hbody handler (harrives.hostCheck laws hc hs hb)
  refine ⟨.fromRequest got.data [] [], ⟨?_, rfl, ?_, rfl⟩, ?_⟩
  · exact harrives.method.trans (hb.method.trans (by rw [Chain.method, terminal_toChain]; rfl))
  · refine (harrives.query_data hs hb).trans ?_
    rw [← flatMap_pairs, ← Chain.items_eq_bindings, items_noArgs]
    exact List.flatMap_eq_nil_iff.mpr fun item hitem => by
      obtain ⟨segment, -, rfl⟩ := List.mem_map.mp hitem
      rfl
  · obtain ⟨before, after, hroutes, hbefore⟩ := h.leads
    have hdispatch : dispatch Leaf.call (serveWithContext api context) (pathSegments got.path) []
        none got.data = serveFlat lastOnly Leaf.call api context (pathSegments got.path) got.data :=
      dispatch_flat api context (pathSegments got.path) got.data
    have hmatch : c.pattern.match? lastOnly (received c.segments) = some ⟨[], [], none⟩ :=
      (matchParts_received _ _).trans (matchParts_segments h.callable.path)
    have hattempt : Route.attempt lastOnly Leaf.call (received c.segments) got.data
        ⟨c.pattern, c.leaf label context handler⟩
          = Leaf.call (c.leaf label context handler) got.data [] [] none := by
      rw [Route.attempt]
      simp only [hmatch]
    rw [RouterService.handle]
    dsimp only
    rw [hdispatch, hpath, serveFlat, hroutes, List.map_append, List.map_cons, hattempt,
      tryInOrder_of_notFound hcall]
    · rfl
    · intro y hy
      obtain ⟨route, hroute, rfl⟩ := List.mem_map.mp hy
      rw [Route.attempt, hbefore route hroute]

variable [BodyUtilCrate]

/-- **A raw endpoint's response comes back as its handler made it**, for every method but `HEAD`. -/
theorem callRaw_ok (laws : HeaderValueLaws)
    (h : c.CallsInto client added api context maxBody label handler M) :
    ∃ req, Sees M req ∧ ∀ bytes, (c.respond handler context req).body.Holds bytes →
      bytes.length ≤ client.maxBody →
        ∃ resp, c.callRaw client.transport.toRunClient M = .ok resp ∧
          resp.Carries added (c.respond handler context req) bytes := by
  have hc := h.callable.toChain h.method added
  obtain ⟨creq, hbuild, huri⟩ := h.builds
  have hb : (c.toChain M).Built (c.noArgs M) { creq with method := M } := by
    refine hc.built ?_
    rw [buildRequest_toChain, hbuild]
    rfl
  obtain ⟨got, streamed, harrives, hreturns, hrun⟩ :=
    HyperClient.runStreaming_of_reaches (fun sent => h.reaches creq sent hbuild) laws h.root h.kept
      (hc.sendable (h.callable.sends maxBody) hb) huri
  obtain ⟨req, hsees, hhandle⟩ := h.handle laws hb harrives
  rw [hhandle] at hreturns
  refine ⟨req, hsees, fun bytes hbytes hle => ?_⟩
  obtain ⟨resp, hrequest, hcarries⟩ := hreturns.runRequest hrun hbytes hle
  refine ⟨resp, ?_, hcarries⟩
  rw [callRaw, hbuild]
  exact hrequest

end RawChain

end

/-! ### Files behind a host -/

section

attribute [local instance] AppTypes.reference HttpCrate.reference MimeCrate.reference
  Base64Crate.reference PercentEncoding.reference UriCrate.reference
  BodyUtilCrate.reference

/-- `/files` on `localhost`, for every method. -/
def files : RawChain := .sub (.host "localhost") (.sub (.path "files") .rawM)

/-- The method is told back, and an unknown one refused. -/
def filesHandler : files.Handler := fun (req : RawRequest) _ =>
  if req.method = .GET then .ok ⟨.OK, [], .full (utf8Bytes "get")⟩
  else .error .err405

def filesApi : Api := .alt (.endpoint 0 putNote noteHandler) (.raw 1 files filesHandler)

noncomputable def filesNetwork : HyperClient :=
  ⟨noteBase, loopback noteBase (RouterService.handle ⟨serveWithContext filesApi .new, 64⟩)
    (rootRequest .GET none), 64⟩

theorem files_callsInto : files.CallsInto filesNetwork ["date"] filesApi .new 64 1 filesHandler
    .GET where
  reaches _ sent _ _ := loopback_reaches _ _ _ _ _ sent
  root := rfl
  kept := by decide
  leads := ⟨[_], [], rfl, by
    intro route hroute
    obtain rfl := List.mem_singleton.mp hroute
    rfl⟩
  callable := ⟨by decide, by
    intro name hname
    obtain rfl := List.mem_singleton.mp hname
    exact ⟨by decide, by decide⟩, by decide⟩
  method := by decide
  builds := ⟨_, rfl, by decide⟩

theorem callRaw_ok_files : ∃ req, RawChain.Sees .GET req ∧
    ∀ bytes, (files.respond filesHandler .new req).body.Holds bytes →
      bytes.length ≤ filesNetwork.maxBody →
        ∃ resp, files.callRaw filesNetwork.transport.toRunClient .GET = .ok resp ∧
          resp.Carries ["date"] (files.respond filesHandler .new req) bytes :=
  RawChain.callRaw_ok headerValueLaws_reference files_callsInto

end

end ServantRs
