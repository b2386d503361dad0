import ServantRs.Phases.Demands

/-!
# Phases — silence

When the phases of a leaf end without a text.  The demands of an endpoint stand in a fixed order:
its users, its body, its arguments from the outermost combinator on.  `Chain.SilentOn` goes through
them and runs nothing: they are met in turn and the handler's arguments are as they should be, or
the first that is not met is refused without a text.

* `quiet_preBodyCheck`, `quiet_extract`: the two walks, by a rule for each step (`quiet_bind`,
  `quiet_seq`).
* `quiet_arguments`: the phases before the handler end in such arguments, or in an error without a
  body, exactly then.
-/

namespace ServantRs

open RouteM ExtractState

/-! ### Answers, or errors without a body -/

namespace RouteM

variable {σ : Type*} {T U : Type} {x : RouteM σ T} {s s' : σ} {Q : T → σ → Prop}

/-- An answer has `Q`, and an error has no body. -/
def Quiet (x : RouteM σ T) (s : σ) (Q : T → σ → Prop) : Prop :=
  match x s with
  | (.route t, s') => Q t s'
  | (.fail e, _) | (.failFatal e, _) => e.body = []

theorem quiet_of_route {t : T} (h : x s = (.route t, s')) : x.Quiet s Q ↔ Q t s' := by
  rw [Quiet, h]

theorem quiet_of_failFatal {e : ServerError} (h : x s = (.failFatal e, s')) :
    x.Quiet s Q ↔ e.body = [] := by
  rw [Quiet, h]

/-- One computation after another. -/
theorem quiet_bind {k : T → RouteM σ U} {Q : U → σ → Prop} :
    (x >>= k).Quiet s Q ↔ x.Quiet s fun t s' => (k t).Quiet s' Q := by
  rcases h : x s with ⟨t | e | e, s'⟩
  · rw [quiet_of_route h, Quiet, Quiet, bind_route h]
  · rw [Quiet, Quiet, bind_fail h, h]
  · rw [quiet_of_failFatal h, quiet_of_failFatal (bind_failFatal h)]

end RouteM

section

variable [AppTypes]

section

variable [HttpCrate] [Base64Crate]

/-! ### Users -/

namespace AuthSite

/-- The sites of an endpoint in turn, then what comes after them. -/
def Silent (req : RequestData) : List AuthSite → Prop → Prop
  | [], next            => next
  | site :: sites, next => (site.demand req).Silent fun _ => Silent req sites next

theorem silent_sites {req : RequestData} {next : Prop} : ∀ {sites : List AuthSite},
    Silent req sites next ↔ match sites.findSome? (·.rejection req) with
      | none   => next
      | some e => e.body = []
  | [] => Iff.rfl
  | site :: sites => by
      have hd := decides_verdict req site
      rw [Silent, List.findSome?_cons, rejection]
      cases hv : site.verdict req with
      | ok user =>
          rw [hv] at hd
          exact (Demand.silent_of_met hd).trans silent_sites
      | error e =>
          rw [hv] at hd
          exact Demand.silent_of_unmet hd

end AuthSite

/-- **The walk before the body.** -/
theorem quiet_preBodyCheck {req : RequestData} {c : Chain} {st : ExtractState}
    {Q : Unit → ExtractState → Prop} {next : Prop}
    (hnext : ∀ users log, (c.authSites st.contexts).map (·.verdict req) = users.map .ok →
      (Q () { st with
        prechecked := st.prechecked ++ users
        world := ⟨st.world.body, log⟩ } ↔ next)) :
    (c.preBodyCheck req).Quiet st Q ↔ AuthSite.Silent req (c.authSites st.contexts) next := by
  rw [AuthSite.silent_sites]
  rcases preBodyCheck_spec req c st with ⟨users, hv, hwalk⟩ | ⟨e, checks, st', he, -, hwalk, -⟩
  · rw [quiet_of_route hwalk, no_rejection_of_accepted hv]
    exact hnext users _ hv
  · rw [quiet_of_failFatal hwalk, he]

end

/-! ### The arguments -/

/-- What is left of a request's captures, and the contexts and the body at hand. -/
structure Supply where
  captures : List String
  capturedAll : Option (List String)
  contexts : List Context
  slot : BodySlot

def ExtractState.supply (st : ExtractState) : Supply :=
  ⟨st.captures, st.capturedAll, st.contexts, st.world.body.slot⟩

section

variable [HttpCrate] [MimeCrate] [Base64Crate]

/-- The demands of a chain in turn, then `last` of the arguments given. -/
def Chain.Silent (req : RequestData) : (c : Chain) → Supply → (c.Args → Prop) → Prop
  | verb _, _, last => last ()
  | sub (.capture _ data S _) next, s, last =>
    (Demand.capture data S s.captures.head?).Silent fun out =>
      next.Silent req { s with captures := s.captures.tail } fun tail => last (out, tail)
  | sub (.captureAll _ data _) next, s, last =>
    (Demand.each data.fromUrlPiece (s.capturedAll.getD [])).Silent fun out =>
      next.Silent req { s with capturedAll := none } fun tail => last (out, tail)
  | sub (.queryParam _ data P S name) next, s, last =>
    (Demand.component P S
      ((lookupQuery req.query name).join.map data.fromQueryParam)).Silent fun out =>
        next.Silent req s fun tail => last (out, tail)
  | sub (.queryParams _ data name) next, s, last =>
    (Demand.each data.fromQueryParam (queryParamValues name req.query)).Silent fun out =>
      next.Silent req s fun tail => last (out, tail)
  | sub (.queryFlag name) next, s, last =>
    (Demand.flag name req.query).Silent fun b => next.Silent req s fun tail => last (b, tail)
  | sub .queryString next, s, last =>
    next.Silent req s fun tail => last (⟨req.rawQuery, req.query⟩, tail)
  | sub (.deepQuery _ data name) next, s, last =>
    (Demand.deepQuery data name req.query).Silent fun out =>
      next.Silent req s fun tail => last (out, tail)
  | sub (.header _ data P S name) next, s, last =>
    (Demand.component P S (Demand.headerValue data name req.headers)).Silent fun out =>
      next.Silent req s fun tail => last (out, tail)
  | sub (.reqBody _ ctypes S) next, s, last =>
    (Demand.reqBody ctypes S req.contentType s.slot).Silent fun out =>
      next.Silent req s fun tail => last (out, tail)
  | sub (.streamBody framing _ codec) next, s, last =>
    (Demand.stream s.slot).Silent fun body =>
      next.Silent req { s with slot := .taken } fun tail =>
        last (decodeStream framing codec body, tail)
  | sub .vault next, s, last => next.Silent req s fun tail => last (req.extensions, tail)
  | sub (.withResource R) next, s, last =>
    (Demand.resource R s.contexts).Silent fun resource =>
      next.Silent req s fun tail => last (resource, tail)
  | sub (.basicAuth Usr realm) next, s, last =>
    (Demand.user req ⟨next.depth, s.contexts, .basic Usr realm⟩ Usr).Silent fun user =>
      next.Silent req s fun tail => last (user, tail)
  | sub (.authProtect Usr) next, s, last =>
    (Demand.user req ⟨next.depth, s.contexts, .protect Usr⟩ Usr).Silent fun user =>
      next.Silent req s fun tail => last (user, tail)
  | sub .isSecure next, s, last => next.Silent req s fun tail => last (req.isSecure, tail)
  | sub .httpVersion next, s, last => next.Silent req s fun tail => last (req.version, tail)
  | sub .remoteHost next, s, last => next.Silent req s fun tail => last (req.remoteAddr, tail)
  | sub (.withNamedContext Name) next, s, last =>
    next.Silent req { s with contexts := enclose Name s.contexts } last
  -- no argument
  | sub (.path _) next, s, last | sub (.host _) next, s, last | sub (.fragment ..) next, s, last
  | sub (.description _) next, s, last | sub (.summary _) next, s, last
  | sub (.operationId _) next, s, last => next.Silent req s last

section

variable {A A' B : Type} {get : RouteM ExtractState A} {f : A → A'} {d : Demand A}
  {next : RouteM ExtractState B} {st : ExtractState} {last : A' × B → Prop} {rest : A → Prop}

omit [HttpCrate] [MimeCrate] [Base64Crate]

/-- A step that a demand decides, then the rest of a chain. -/
theorem quiet_seq (hd : d.Decides (get st).1) (ih : ∀ a st', get st = (.route a, st') →
      (next.Quiet st' (fun tail _ => last (f a, tail)) ↔ rest a)) :
    (get >>= fun a => Chain.consTail (f a) next).Quiet st (fun args _ => last args)
      ↔ d.Silent rest := by
  rw [quiet_bind]
  rcases h : get st with ⟨a | e | e, st'⟩ <;> rw [h] at hd
  · rw [quiet_of_route h, Demand.silent_of_met hd, ← ih a st' h, Chain.consTail, quiet_bind]
    rfl
  · exact hd.elim
  · rw [quiet_of_failFatal h, Demand.silent_of_unmet hd]

/-- A step that leaves the state as it is. -/
theorem quiet_read (hd : d.Decides (get st).1) (hst : (get st).2 = st)
    (ih : ∀ a, next.Quiet st (fun tail _ => last (f a, tail)) ↔ rest a) :
    (get >>= fun a => Chain.consTail (f a) next).Quiet st (fun args _ => last args)
      ↔ d.Silent rest := by
  refine quiet_seq hd fun a st' h => ?_
  obtain rfl : st = st' := hst.symm.trans (congrArg Prod.snd h)
  exact ih a

/-- An argument that every request gives. -/
theorem quiet_consTail {a : A'} : (Chain.consTail a next).Quiet st (fun args _ => last args)
    ↔ next.Quiet st fun tail _ => last (a, tail) := by
  rw [Chain.consTail, quiet_bind]
  rfl

/-- The rest of a chain under a named context. -/
theorem quiet_withNamedContext {last : B → Prop} (Name : AppTypes.ContextName) :
    (withNamedContext Name next).Quiet st (fun args _ => last args)
      ↔ next.Quiet { st with contexts := Chain.enclose Name st.contexts }
          fun args _ => last args := by
  have hl : st.lookupNamedContext Name = st.contexts.findSome? (·.namedContext Name) := rfl
  rw [Chain.enclose, Quiet, withNamedContext, hl]
  cases st.contexts.findSome? (·.namedContext Name) with
  | none => rfl
  | some named =>
      rw [Quiet]
      dsimp only
      rcases next { st with contexts := named :: st.contexts } with ⟨args | e | e, st'⟩ <;> rfl

end

omit [MimeCrate] in
/-- A user that was accepted before, then the rest of a chain. -/
theorem quiet_user {req : RequestData} {B : Type} {Usr : AppTypes.TypeId} {site : AuthSite}
    {sites : List AuthSite} {users : List Dyn} {next : RouteM ExtractState B} {st : ExtractState}
    {last : AppTypes.El Usr × B → Prop} {rest : AppTypes.El Usr → Prop}
    {resolve : ExtractState → Except ServerError (AppTypes.El Usr) × ExtractState}
    (hr : ∃ st, site.Resolves req resolve st)
    (hu : (site :: sites).map (·.verdict req) = users.map .ok) (hst : st.prechecked = users)
    (ih : ∀ user users, sites.map (·.verdict req) = users.map .ok →
      (next.Quiet { st with prechecked := users } (fun tail _ => last (user, tail)) ↔ rest user)) :
    (Chain.extractUser Usr resolve >>= fun user => Chain.consTail user next).Quiet st
      (fun args _ => last args) ↔ (Demand.user req site Usr).Silent rest := by
  obtain _ | ⟨user, users⟩ := users
  · cases hu
  · obtain ⟨hhead, htail⟩ := List.cons.inj hu
    obtain ⟨st', hr⟩ := hr
    obtain ⟨u, rfl⟩ := hr.type_of_ok hhead
    have hget := extractUser_front hst resolve
    refine quiet_seq ?_ fun a st'' h => ?_
    · rw [hget]
      exact Demand.met_user hhead
    · rw [hget] at h
      cases h
      exact ih u users htail

/-- **Extraction, of captures that were validated and users that were accepted.** -/
theorem quiet_extract (req : RequestData) (caps : List String) (ca : Option (List String)) :
    ∀ (c : Chain) (idx : Nat) (users : List Dyn) (st : ExtractState) (last : c.Args → Prop),
      c.validateCaptures caps idx ca = .route () → Cursor caps idx ca st →
      (c.authSites st.contexts).map (·.verdict req) = users.map .ok → st.prechecked = users →
        ((c.extract req).Quiet st (fun args _ => last args) ↔ c.Silent req st.supply last)
  | .verb _, _, _, _, _, _, _, _, _ => Iff.rfl
  | .sub c next, idx, users, st, last, hv, hcur, hu, hst => by
      have ih := quiet_extract req caps ca next
      cases c with
      | path | host | fragment | description | summary | operationId =>
          exact ih idx users st last hv hcur hu hst
      | queryString | vault | isSecure | httpVersion | remoteHost =>
          exact quiet_consTail.trans (ih idx users st _ hv hcur hu hst)
      | queryFlag name =>
          rw [Chain.Silent, Demand.silent_of_met (Demand.decides_flag name req.query)]
          exact quiet_consTail.trans (ih idx users st _ hv hcur hu hst)
      | queryParam A data P S name =>
          exact quiet_read (Demand.decides_queryParam data P S name req.query) rfl
            fun a => ih idx users st _ hv hcur hu hst
      | queryParams A data name =>
          exact quiet_read (Demand.decides_queryParams data name req.query) rfl
            fun a => ih idx users st _ hv hcur hu hst
      | deepQuery A data name =>
          exact quiet_read (Demand.decides_deepQuery data name req.query) rfl
            fun a => ih idx users st _ hv hcur hu hst
      | header A data P S name =>
          exact quiet_read (Demand.decides_header data P S name req.headers) rfl
            fun a => ih idx users st _ hv hcur hu hst
      | reqBody A ctypes S =>
          exact quiet_read (Demand.decides_reqBody ctypes S req st.world.body) rfl
            fun a => ih idx users st _ hv hcur hu hst
      | withResource R =>
          refine quiet_read (Demand.decides_resource R st) ?_
            fun a => ih idx users st _ hv hcur hu hst
          rw [Chain.extractResource, orFatal_snd]
          cases st.lookupResourceProvider R <;> rfl
      | streamBody framing T codec =>
          refine quiet_seq (Demand.decides_stream rfl) fun body st' h => ?_
          have hslot : st.world.takeBodyStream.2.body.slot = .taken :=
            slot_takeStream (congrArg Prod.fst (of_orFatal_eq_route h))
          obtain rfl := congrArg Prod.snd (of_orFatal_eq_route h)
          have hrest := ih idx users { st with world := st.world.takeBodyStream.2 }
            (fun tail => last (Chain.decodeStream framing codec body, tail)) hv
            (hcur.of_eq rfl rfl) hu hst
          rwa [supply, hslot] at hrest
      | capture A data S name =>
          rw [Chain.validateCaptures_capture] at hv
          obtain ⟨⟨out, hout⟩, hv⟩ := RouteResult.of_andThen_eq_route hv
          rw [← hcur.head?] at hout
          refine quiet_seq ?_ fun a st' h => ?_
          · rw [Chain.extractCapture_eq, hout]
            exact Demand.met_of_captureResult hout
          · rw [Chain.extractCapture_eq] at h
            obtain rfl : { st with captures := st.captures.tail } = st' := congrArg Prod.snd h
            exact ih (idx + 1) users _ _ hv hcur.next hu hst
      | captureAll A data name =>
          rw [Chain.validateCaptures_captureAll] at hv
          obtain ⟨hall, hv⟩ := RouteResult.of_andThen_eq_route hv
          have hout : ∃ out, Chain.captureAllResult data name (st.capturedAll.getD [])
              = .route out := by
            rcases hcur.capturedAll with hca | hca <;> rw [hca]
            · exact hall
            · -- the tails are gone, and there is nothing to parse
              exact ⟨[], rfl⟩
          obtain ⟨out, hout⟩ := hout
          refine quiet_seq ?_ fun a st' h => ?_
          · rw [Chain.extractCaptureAll_eq, hout]
            exact Demand.met_of_captureAllResult hout
          · rw [Chain.extractCaptureAll_eq] at h
            obtain rfl : { st with capturedAll := none } = st' := congrArg Prod.snd h
            exact ih idx users _ _ hv hcur.takeAll hu hst
      | basicAuth Usr realm =>
          exact quiet_user ⟨st, resolves_basicAuthUser next.depth Usr realm st⟩ hu hst
            fun user users hu => ih idx users _ _ hv (hcur.of_eq rfl rfl) hu rfl
      | authProtect Usr =>
          exact quiet_user ⟨st, resolves_authProtectUser next.depth Usr st⟩ hu hst
            fun user users hu => ih idx users _ _ hv (hcur.of_eq rfl rfl) hu rfl
      | withNamedContext Name =>
          exact (quiet_withNamedContext Name).trans
            (ih idx users { st with contexts := Chain.enclose Name st.contexts } last hv
              (hcur.of_eq rfl rfl) hu hst)

/-- The demands of an endpoint on a request whose body has not been touched: its users, its body,
its arguments; then `last` of the arguments. -/
def Chain.SilentOn (c : Chain) (context : Context) (req : RequestData) (captures : List String)
    (capturedAll : Option (List String)) (body : List BodyEvent) (limit : Nat)
    (last : c.Args → Prop) : Prop :=
  AuthSite.Silent req (c.authSites [context]) <|
    (Demand.slot c.requestBodyMode limit body).Silent fun slot =>
      c.Silent req ⟨captures, capturedAll, [context], slot⟩ last

/-- **The phases before the handler.** -/
theorem quiet_arguments {c : Chain} {req : RequestData} {captures : List String}
    {capturedAll : Option (List String)}
    (hv : c.validateCaptures captures 0 capturedAll = .route ()) (context : Context)
    (body : List BodyEvent) (limit : Nat) (last : c.Args → Prop) :
    (c.preBodyCheck req >>= fun _ => Leaf.bodyStep c >>= fun _ => c.extract req).Quiet
        (.new captures capturedAll context ⟨.new body limit, []⟩) (fun args _ => last args)
      ↔ c.SilentOn context req captures capturedAll body limit last := by
  have hrest : ∀ users log, (c.authSites [context]).map (·.verdict req) = users.map .ok →
      ((Leaf.bodyStep c >>= fun _ => c.extract req).Quiet
          ⟨captures, capturedAll, [context], users, ⟨.new body limit, log⟩⟩
          (fun args _ => last args)
        ↔ (Demand.slot c.requestBodyMode limit body).Silent fun slot =>
            c.Silent req ⟨captures, capturedAll, [context], slot⟩ last) := by
    intro users log hu
    rw [quiet_bind]
    rcases decides_bodyStep c ⟨captures, capturedAll, [context], users, ⟨.new body limit, log⟩⟩ rfl
      with ⟨slot, log', hmet, hstep⟩ | ⟨e, st', hunmet, hstep⟩
    · rw [quiet_of_route hstep, Demand.silent_of_met hmet]
      exact quiet_extract req captures capturedAll c 0 users _ last hv ⟨rfl, .inl rfl⟩ hu rfl
    · rw [quiet_of_failFatal hstep, Demand.silent_of_unmet hunmet]
  rw [quiet_bind]
  exact quiet_preBodyCheck hrest

end

end

end ServantRs
