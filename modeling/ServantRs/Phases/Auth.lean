import ServantRs.Phases.Walk

/-!
# Phases — authentication

Where a chain authenticates: each `BasicAuth` and `AuthProtect` with its position and the contexts
around it, the innermost named one first (`Chain.authSites`).  Its `verdict` on a request is the
user its own check accepts, or the error it rejects with; the check is the first one that these
contexts hold.

* `preBodyCheck_spec`: the walk before the body runs the checks in order up to the first that
  rejects, and keeps the accepted users in order.
* `extract_spec`: extraction takes the users in the order they were kept, so each lands at the
  argument of its own combinator, and no check is run again.
* `auth_gate`: what a call of a leaf may do.
-/

namespace ServantRs

open RouteM ExtractState

variable [AppTypes]

/-- How a combinator authenticates. -/
inductive AuthScheme where
  | basic (Usr : AppTypes.TypeId) (realm : String)
  | protect (Usr : AppTypes.TypeId)

/-- An authentication combinator in place: its position, and the contexts in scope, the innermost
first. -/
structure AuthSite where
  position : Nat
  contexts : List Context
  scheme : AuthScheme

namespace AuthSite

variable [HttpCrate] [Base64Crate]

/-- The user the site's check accepts for a request, or the error the site rejects it with. -/
def verdict (req : RequestData) (site : AuthSite) : Except ServerError Dyn :=
  match site.scheme with
  | .basic Usr realm =>
    match site.contexts.findSome? (·.basicAuthCheck Usr) with
    | none => .error (ServerError.err500.withBody "basic-auth check not configured in context")
    | some check =>
      match (req.headerText .AUTHORIZATION).bind parseBasicAuth with
      | none => .error (unauthorizedBasic realm)
      | some data =>
        match check data with
        | .authorized user => .ok ⟨Usr, user⟩
        | .badPassword | .noSuchUser | .unauthorized => .error (unauthorizedBasic realm)
  | .protect Usr =>
    match site.contexts.findSome? (·.authCheck Usr) with
    | none => .error (ServerError.err500.withBody "auth check not configured in context")
    | some check => (check req.headers).map (⟨Usr, ·⟩)

/-- The error a site rejects with, if it does. -/
def rejection (req : RequestData) (site : AuthSite) : Option ServerError :=
  match site.verdict req with
  | .ok _    => none
  | .error e => some e

end AuthSite

namespace Chain

/-- The contexts below a `WithNamedContext`. -/
def enclose (Name : AppTypes.ContextName) (contexts : List Context) : List Context :=
  match contexts.findSome? (·.namedContext Name) with
  | some named => named :: contexts
  | none       => contexts

/-- The authentication combinators of a chain, outermost first. -/
def authSites : Chain → List Context → List AuthSite
  | verb _, _ => []
  | sub (.basicAuth Usr realm) next, contexts =>
    ⟨next.depth, contexts, .basic Usr realm⟩ :: next.authSites contexts
  | sub (.authProtect Usr) next, contexts =>
    ⟨next.depth, contexts, .protect Usr⟩ :: next.authSites contexts
  | sub (.withNamedContext Name) next, contexts => next.authSites (enclose Name contexts)
  | sub _ next, contexts => next.authSites contexts

/-! ### Positions -/

theorem authSites_plain {c : Comb} (hc : c.IsPlain) (next : Chain) (contexts : List Context) :
    (sub c next).authSites contexts = next.authSites contexts := by
  cases c <;> first | rfl | exact hc.elim

/-- A site of a chain is one of its combinators. -/
theorem position_lt_depth : ∀ (c : Chain) (contexts : List Context),
    ∀ site ∈ c.authSites contexts, site.position < c.depth
  | verb _, _, site, h => by cases h
  | sub c next, contexts, site, h => by
      have ih := position_lt_depth next
      by_cases hc : c.IsPlain
      · rw [authSites_plain hc] at h
        exact (ih contexts site h).trans (Nat.lt_succ_self _)
      · cases c with
        | basicAuth | authProtect =>
            rcases List.mem_cons.mp h with rfl | h
            · exact Nat.lt_succ_self _
            · exact (ih contexts site h).trans (Nat.lt_succ_self _)
        | withNamedContext Name => exact (ih _ site h).trans (Nat.lt_succ_self _)
        | capture | captureAll => exact (ih contexts site h).trans (Nat.lt_succ_self _)
        | _ => exact absurd trivial hc

/-- No two sites have one position. -/
theorem nodup_positions : ∀ (c : Chain) (contexts : List Context),
    ((c.authSites contexts).map (·.position)).Nodup
  | verb _, _ => List.nodup_nil
  | sub c next, contexts => by
      have ih := nodup_positions next
      have hhead : next.depth ∉ (next.authSites contexts).map (·.position) := by
        intro h
        obtain ⟨site, hs, hp⟩ := List.mem_map.mp h
        exact absurd hp (position_lt_depth next contexts site hs).ne
      by_cases hc : c.IsPlain
      · rw [authSites_plain hc]
        exact ih contexts
      · cases c with
        | basicAuth | authProtect => exact List.nodup_cons.mpr ⟨hhead, ih contexts⟩
        | withNamedContext Name => exact ih _
        | capture | captureAll => exact ih contexts
        | _ => exact absurd trivial hc

end Chain

/-! ### One check -/

/-- Events written down after those of a world. -/
def World.extend (events : List Event) (w : World) : World := { w with log := w.log ++ events }

@[simp] theorem World.extend_nil (w : World) : w.extend [] = w := by
  rw [World.extend, List.append_nil]

@[simp] theorem World.extend_extend (events events' : List Event) (w : World) :
    (w.extend events).extend events' = w.extend (events ++ events') := by
  simp only [World.extend, List.append_assoc]

@[simp] theorem World.log_extend (events : List Event) (w : World) :
    (w.extend events).log = w.log ++ events := rfl

section

variable [HttpCrate] [Base64Crate] {req : RequestData}

/-- `resolve` does what the site says: it answers with the user of its verdict after running the
check, or with its error, whether or not a check was run. -/
def AuthSite.Resolves (req : RequestData) (site : AuthSite) {Usr : AppTypes.TypeId}
    (resolve : ExtractState → Except ServerError (AppTypes.El Usr) × ExtractState)
    (st : ExtractState) : Prop :=
  (∃ user, site.verdict req = .ok ⟨Usr, user⟩ ∧
    resolve st = (.ok user, st.record (.check site.position))) ∨
  (∃ e, site.verdict req = .error e ∧
    (resolve st = (.error e, st) ∨ resolve st = (.error e, st.record (.check site.position))))

/-- An accepted user is of the type the site asks for. -/
theorem AuthSite.Resolves.type_of_ok {site : AuthSite} {Usr : AppTypes.TypeId}
    {resolve : ExtractState → Except ServerError (AppTypes.El Usr) × ExtractState}
    {st : ExtractState} (h : site.Resolves req resolve st) {user : Dyn}
    (hv : site.verdict req = .ok user) : ∃ u, user = ⟨Usr, u⟩ := by
  rcases h with ⟨u, hu, -⟩ | ⟨e, he, -⟩
  · rw [hu] at hv
    exact ⟨u, (Except.ok.inj hv).symm⟩
  · rw [he] at hv
    cases hv

theorem resolves_basicAuthUser (position : Nat) (Usr : AppTypes.TypeId) (realm : String)
    (st : ExtractState) :
    AuthSite.Resolves req ⟨position, st.contexts, .basic Usr realm⟩
      (basicAuthUser req position Usr realm) st := by
  unfold AuthSite.Resolves AuthSite.verdict basicAuthUser lookupBasicAuthCheck
  dsimp only
  cases st.contexts.findSome? (·.basicAuthCheck Usr) with
  | none => exact .inr ⟨_, rfl, .inl rfl⟩
  | some check =>
      cases (req.headerText .AUTHORIZATION).bind parseBasicAuth with
      | none => exact .inr ⟨_, rfl, .inl rfl⟩
      | some data =>
          dsimp only
          cases check data with
          | authorized user => exact .inl ⟨user, rfl, rfl⟩
          | badPassword | noSuchUser | unauthorized => exact .inr ⟨_, rfl, .inr rfl⟩

theorem resolves_authProtectUser (position : Nat) (Usr : AppTypes.TypeId) (st : ExtractState) :
    AuthSite.Resolves req ⟨position, st.contexts, .protect Usr⟩
      (authProtectUser req position Usr) st := by
  unfold AuthSite.Resolves AuthSite.verdict authProtectUser lookupAuthCheck
  dsimp only
  cases st.contexts.findSome? (·.authCheck Usr) with
  | none => exact .inr ⟨_, rfl, .inl rfl⟩
  | some check =>
      dsimp only
      cases check req.headers with
      | ok user => exact .inl ⟨user, rfl, rfl⟩
      | error e => exact .inr ⟨e, rfl, .inr rfl⟩

/-! ### The walk before the body -/

/-- Where every site accepts, none rejects. -/
theorem no_rejection_of_accepted : ∀ {sites : List AuthSite} {users : List Dyn},
    sites.map (·.verdict req) = users.map .ok → sites.findSome? (·.rejection req) = none
  | [], _, _ => rfl
  | site :: sites, [], h => by cases h
  | site :: sites, user :: users, h => by
      obtain ⟨hhead, htail⟩ := List.cons.inj h
      have hv : site.verdict req = .ok user := hhead
      have hrej : site.rejection req = none := by rw [AuthSite.rejection, hv]
      rw [List.findSome?_cons, hrej]
      exact no_rejection_of_accepted htail

/-- Every site accepts, and the users are kept in order; or the first rejection commits, after
the checks up to it. -/
def PreBodyOutcome (req : RequestData) (sites : List AuthSite) (walk : RouteM ExtractState Unit)
    (st : ExtractState) : Prop :=
  (∃ users, sites.map (·.verdict req) = users.map .ok ∧
    walk st = (.route (), { st with
      prechecked := st.prechecked ++ users
      world := st.world.extend (sites.map fun site => .check site.position) })) ∨
  (∃ e checks st', sites.findSome? (·.rejection req) = some e ∧
    checks <+: sites.map (·.position) ∧
    walk st = (.failFatal e, st') ∧ st'.world = st.world.extend (checks.map .check))

/-- One more site before a walk. -/
theorem PreBodyOutcome.cons {site : AuthSite} {sites : List AuthSite} {Usr : AppTypes.TypeId}
    {resolve : ExtractState → Except ServerError (AppTypes.El Usr) × ExtractState}
    {walk : RouteM ExtractState Unit} {st : ExtractState} (hr : site.Resolves req resolve st)
    (ih : ∀ st' : ExtractState, st'.contexts = st.contexts → PreBodyOutcome req sites walk st') :
    PreBodyOutcome req (site :: sites)
      (orFatal resolve >>= fun user => pushPrechecked Usr user >>= fun _ => walk) st := by
  rcases hr with ⟨user, hv, hres⟩ | ⟨e, hv, hres⟩
  · let st₁ : ExtractState := { st.record (.check site.position) with
      prechecked := st.prechecked ++ [⟨Usr, user⟩] }
    have hstep : (orFatal resolve >>= fun user => pushPrechecked Usr user >>= fun _ => walk) st
        = walk st₁ := by
      rw [bind_route (orFatal_ok hres)]
      exact bind_route rfl
    rcases ih st₁ rfl with ⟨users, hus, hw⟩ | ⟨e, checks, st', he, hpre, hw, hst'⟩
    · refine .inl ⟨⟨Usr, user⟩ :: users, by rw [List.map_cons, hv, hus]; rfl, ?_⟩
      rw [hstep, hw]
      simp [st₁, ExtractState.record, World.record, World.extend]
    · have hrej : site.rejection req = none := by rw [AuthSite.rejection, hv]
      refine .inr ⟨e, site.position :: checks, st', ?_, ?_, hstep.trans hw, ?_⟩
      · rw [List.findSome?_cons, hrej]
        exact he
      · exact (List.prefix_cons_inj _).mpr hpre
      · rw [hst']
        simp [st₁, ExtractState.record, World.record, World.extend]
  · have hrej : site.rejection req = some e := by rw [AuthSite.rejection, hv]
    have hfind : (site :: sites).findSome? (·.rejection req) = some e := by
      rw [List.findSome?_cons, hrej]
    rcases hres with hres | hres
    · refine .inr ⟨e, [], st, hfind, List.nil_prefix, bind_failFatal (orFatal_error hres), ?_⟩
      simp
    · refine .inr ⟨e, [site.position], _, hfind, ?_, bind_failFatal (orFatal_error hres), rfl⟩
      exact (List.prefix_cons_inj _).mpr List.nil_prefix

/-- A walk under a named context. -/
theorem PreBodyOutcome.withNamedContext {c : Chain} {walk : RouteM ExtractState Unit}
    (ih : ∀ st : ExtractState, PreBodyOutcome req (c.authSites st.contexts) walk st)
    (Name : AppTypes.ContextName) (st : ExtractState) :
    PreBodyOutcome req (c.authSites (Chain.enclose Name st.contexts))
      (ServantRs.withNamedContext Name walk) st := by
  have hl : st.lookupNamedContext Name = st.contexts.findSome? (·.namedContext Name) := rfl
  cases h : st.contexts.findSome? (·.namedContext Name) with
  | none =>
      have hw : ServantRs.withNamedContext Name walk st = walk st := by
        rw [ServantRs.withNamedContext, hl, h]
      have henc : Chain.enclose Name st.contexts = st.contexts := by rw [Chain.enclose, h]
      rw [henc, PreBodyOutcome, hw]
      exact ih st
  | some named =>
      have hw : ServantRs.withNamedContext Name walk st
          = ((walk { st with contexts := named :: st.contexts }).1,
            { (walk { st with contexts := named :: st.contexts }).2 with
              contexts := (walk { st with contexts := named :: st.contexts }).2.contexts.tail }) := by
        rw [ServantRs.withNamedContext, hl, h]
      have henc : Chain.enclose Name st.contexts = named :: st.contexts := by
        rw [Chain.enclose, h]
      rw [henc, PreBodyOutcome, hw]
      rcases ih { st with contexts := named :: st.contexts } with
        ⟨users, hus, heq⟩ | ⟨e, checks, st', he, hpre, heq, hst'⟩
      · exact .inl ⟨users, hus, by rw [heq]; rfl⟩
      · exact .inr ⟨e, checks, { st' with contexts := st'.contexts.tail }, he, hpre, by rw [heq],
          hst'⟩

/-- **The walk before the body runs the checks in order.** -/
theorem preBodyCheck_spec (req : RequestData) : ∀ (c : Chain) (st : ExtractState),
    PreBodyOutcome req (c.authSites st.contexts) (c.preBodyCheck req) st
  | .verb _, st => .inl ⟨[], rfl, by simp [Chain.preBodyCheck, Chain.authSites, RouteM.pure]⟩
  | .sub c next, st => by
      have ih := preBodyCheck_spec req next
      by_cases hc : c.IsPlain
      · rw [Chain.authSites_plain hc, Chain.preBodyCheck_plain hc]
        exact ih st
      · cases c with
        | basicAuth Usr realm =>
            refine .cons (resolves_basicAuthUser _ Usr realm st) fun st' hst' => ?_
            rw [← hst']
            exact ih st'
        | authProtect Usr =>
            refine .cons (resolves_authProtectUser _ Usr st) fun st' hst' => ?_
            rw [← hst']
            exact ih st'
        | withNamedContext Name => exact .withNamedContext ih Name st
        | capture | captureAll => exact ih st
        | _ => exact absurd trivial hc

end

/-! ### Extraction -/

/-- A user at the front is the one taken. -/
theorem extractUser_front {Usr : AppTypes.TypeId} {user : AppTypes.El Usr} {rest : List Dyn}
    {st : ExtractState} (h : st.prechecked = ⟨Usr, user⟩ :: rest)
    (resolve : ExtractState → Except ServerError (AppTypes.El Usr) × ExtractState) :
    Chain.extractUser Usr resolve st = (.route user, { st with prechecked := rest }) := by
  have ht : takeFirst Usr st.prechecked = some (user, rest) := by
    rw [h, takeFirst, dif_pos rfl]
  have hp : takePrechecked Usr st = (.route (some user), { st with prechecked := rest }) := by
    rw [takePrechecked, ht]
  rw [Chain.extractUser, bind_route hp]
  rfl

section

variable [HttpCrate] [MimeCrate] [Base64Crate] {req : RequestData}

/-- Extraction runs no check, and the users among its arguments are the verdicts of their own
sites. -/
structure ExtractOutcome (req : RequestData) (c : Chain) (sites : List AuthSite)
    (st : ExtractState) : Prop where
  log : BodyEventsOnly (c.extract req) st
  users : ∀ args st', c.extract req st = (.route args, st') →
    sites.map (fun site => (site.position, site.verdict req))
      = (c.userArgs args).map fun user => (user.1, .ok user.2)

/-- A step that leaves the users alone. -/
theorem ExtractOutcome.quiet {c : Comb} {next : Chain} {sites : List AuthSite} {H : Type}
    {get : RouteM ExtractState H} {mk : H → next.Args → (Chain.sub c next).Args}
    {st : ExtractState} (hget : QuietStep get)
    (hmk : ∀ h tail, (Chain.sub c next).userArgs (mk h tail) = next.userArgs tail)
    (heq : (Chain.sub c next).extract req
      = get >>= fun h => next.extract req >>= fun tail => RouteM.pure (mk h tail))
    (ih : ∀ st', st'.prechecked = st.prechecked → ExtractOutcome req next sites st') :
    ExtractOutcome req (.sub c next) sites st where
  log := by
    rw [heq]
    refine (hget.log st).seq fun h st' hg => (ih st' ?_).log
    have hp := hget.prechecked st
    rwa [hg] at hp
  users args st' h := by
    rw [heq] at h
    obtain ⟨head, tail, st₁, hg, hn, rfl⟩ := of_seq_eq_route h
    have hp := hget.prechecked st
    rw [hg] at hp
    rw [hmk]
    exact (ih st₁ hp).users tail st' hn

/-- The user of a site at the front. -/
theorem ExtractOutcome.front {c : Comb} {next : Chain} {site : AuthSite} {sites : List AuthSite}
    {Usr : AppTypes.TypeId} {user : AppTypes.El Usr} {rest : List Dyn} {st : ExtractState}
    {resolve : ExtractState → Except ServerError (AppTypes.El Usr) × ExtractState}
    {mk : AppTypes.El Usr → next.Args → (Chain.sub c next).Args}
    (hv : site.verdict req = .ok ⟨Usr, user⟩) (hst : st.prechecked = ⟨Usr, user⟩ :: rest)
    (hmk : ∀ u tail, (Chain.sub c next).userArgs (mk u tail)
      = (site.position, ⟨Usr, u⟩) :: next.userArgs tail)
    (heq : (Chain.sub c next).extract req = Chain.extractUser Usr resolve >>= fun u =>
      next.extract req >>= fun tail => RouteM.pure (mk u tail))
    (ih : ∀ st' : ExtractState, st'.prechecked = rest → ExtractOutcome req next sites st') :
    ExtractOutcome req (.sub c next) (site :: sites) st where
  log := by
    have hfront := extractUser_front hst resolve
    rw [heq]
    refine .seq ⟨[], by simp, by rw [hfront, List.append_nil]⟩ fun u st' hg => ?_
    rw [hfront] at hg
    cases hg
    exact (ih _ rfl).log
  users args st' h := by
    rw [heq] at h
    obtain ⟨u, tail, st₁, hg, hn, rfl⟩ := of_seq_eq_route h
    rw [extractUser_front hst resolve] at hg
    cases hg
    rw [hmk, List.map_cons, List.map_cons, hv, (ih _ rfl).users tail st' hn]

/-- The rest of a chain under a named context. -/
theorem ExtractOutcome.named {next : Chain} {sites : List AuthSite} {st : ExtractState}
    (Name : AppTypes.ContextName)
    (ih : ∀ st' : ExtractState, st'.prechecked = st.prechecked →
      ExtractOutcome req next sites st') :
    ExtractOutcome req (.sub (.withNamedContext Name) next) sites st := by
  have hx : (Chain.sub (.withNamedContext Name) next).extract req
      = withNamedContext Name (next.extract req) := rfl
  cases hl : st.lookupNamedContext Name with
  | none =>
      have heq : withNamedContext Name (next.extract req) st = next.extract req st := by
        rw [withNamedContext, hl]
      obtain ⟨hlog, husers⟩ := ih st rfl
      refine ⟨?_, fun args st' h => husers args st' ?_⟩
      · obtain ⟨events, hbody, hlog⟩ := hlog
        exact ⟨events, hbody, by rw [hx, heq, hlog]⟩
      · rw [← heq]
        exact h
  | some named =>
      let inner : ExtractState := { st with contexts := named :: st.contexts }
      have heq : withNamedContext Name (next.extract req) st = ((next.extract req inner).1,
          { (next.extract req inner).2 with
            contexts := (next.extract req inner).2.contexts.tail }) := by
        rw [withNamedContext, hl]
      obtain ⟨hlog, husers⟩ := ih inner rfl
      refine ⟨?_, fun args st' h => husers args (next.extract req inner).2 ?_⟩
      · obtain ⟨events, hbody, hlog⟩ := hlog
        exact ⟨events, hbody, by rw [hx, heq, hlog]⟩
      · rw [hx, heq] at h
        exact Prod.ext (Prod.ext_iff.mp h).1 rfl

/-- **Extraction takes the users in the order they were kept.** -/
theorem extract_spec : ∀ (c : Chain) (contexts : List Context) (users : List Dyn)
    (st : ExtractState), (c.authSites contexts).map (·.verdict req) = users.map .ok →
    st.prechecked = users → ExtractOutcome req c (c.authSites contexts) st
  | .verb _, contexts, users, st, _, _ =>
      ⟨⟨[], by simp, (List.append_nil _).symm⟩, fun _ _ _ => rfl⟩
  | .sub c next, contexts, users, st, hv, hst => by
      have ih := extract_spec next
      by_cases hc : c.IsPlain
      · obtain ⟨H, get, mk, hget, hmk, heq⟩ := Chain.extract_plain req hc next
        rw [Chain.authSites_plain hc] at hv ⊢
        exact .quiet hget.toQuietStep hmk heq fun st' hst' =>
          ih contexts users st' hv (hst'.trans hst)
      · cases c with
        | capture A data S name =>
            exact .quiet (Chain.quietStep_extractCapture data S name) (fun _ _ => rfl) rfl
              fun st' hst' => ih contexts users st' hv (hst'.trans hst)
        | captureAll A data name =>
            exact .quiet (Chain.quietStep_extractCaptureAll data name) (fun _ _ => rfl) rfl
              fun st' hst' => ih contexts users st' hv (hst'.trans hst)
        | basicAuth Usr realm =>
            obtain _ | ⟨user, users⟩ := users
            · cases hv
            · obtain ⟨hhead, htail⟩ := List.cons.inj hv
              obtain ⟨u, rfl⟩ := (resolves_basicAuthUser next.depth Usr realm
                { st with contexts := contexts }).type_of_ok hhead
              exact .front hhead hst (fun _ _ => rfl) rfl
                fun st' hst' => ih contexts users st' htail hst'
        | authProtect Usr =>
            obtain _ | ⟨user, users⟩ := users
            · cases hv
            · obtain ⟨hhead, htail⟩ := List.cons.inj hv
              obtain ⟨u, rfl⟩ := (resolves_authProtectUser next.depth Usr
                { st with contexts := contexts }).type_of_ok hhead
              exact .front hhead hst (fun _ _ => rfl) rfl
                fun st' hst' => ih contexts users st' htail hst'
        | withNamedContext Name =>
            exact .named Name fun st' hst' => ih _ users st' hv (hst'.trans hst)
        | _ => exact absurd trivial hc

/-! ### A call of a leaf -/

/-- What comes after the checks: the body is handed out and the handler is called, with every user
from its own site. -/
structure HandlerTrace (req : RequestData) (label : Nat) (chain : Chain) (sites : List AuthSite)
    (events : List Event) : Prop where
  body_or_handler : ∀ e ∈ events, e.IsBody ∨ ∃ args, e = .handler label chain args
  users : ∀ args, .handler label chain args ∈ events →
    sites.map (fun site => (site.position, site.verdict req))
      = (chain.userArgs args).map fun user => (user.1, .ok user.2)

omit [MimeCrate] in
theorem HandlerTrace.of_body {label : Nat} {chain : Chain} {sites : List AuthSite}
    {events : List Event} (h : ∀ e ∈ events, e.IsBody) :
    HandlerTrace req label chain sites events where
  body_or_handler e he := .inl (h e he)
  users _ ha := (h _ ha).elim

omit [MimeCrate] in
theorem HandlerTrace.append {label : Nat} {chain : Chain} {sites : List AuthSite}
    {events events' : List Event} (h : HandlerTrace req label chain sites events)
    (h' : HandlerTrace req label chain sites events') :
    HandlerTrace req label chain sites (events ++ events') where
  body_or_handler e he :=
    (List.mem_append.mp he).elim (h.body_or_handler e) (h'.body_or_handler e)
  users args ha := (List.mem_append.mp ha).elim (h.users args) (h'.users args)

/-- The arguments, then the handler. -/
theorem extractThenHandle_spec (label : Nat) {chain : Chain}
    (handler : chain.Args → Except ServerError chain.Output) {contexts : List Context}
    {st : ExtractState}
    (hv : (chain.authSites contexts).map (·.verdict req) = st.prechecked.map .ok) :
    ∃ events, HandlerTrace req label chain (chain.authSites contexts) events ∧
      ((chain.extract req >>= fun args => Leaf.runHandler label chain handler req args) st).2.world.log
        = st.world.log ++ events := by
  obtain ⟨⟨body, hbody, hlog⟩, husers⟩ := extract_spec chain contexts _ st hv rfl
  rcases hx : chain.extract req st with ⟨args | e | e, st'⟩ <;> rw [hx] at hlog
  · obtain ⟨response, hrun⟩ := runHandler_spec label chain handler req args st'
    refine ⟨body ++ [.handler label chain args], .append (.of_body hbody) ⟨?_, ?_⟩, ?_⟩
    · intro e he
      exact .inr ⟨args, List.mem_singleton.mp he⟩
    · intro args' hmem
      cases List.mem_singleton.mp hmem
      exact husers args st' hx
    · rw [bind_route hx, hrun, ← List.append_assoc, ← hlog]
      rfl
  · exact ⟨body, .of_body hbody, by rw [bind_fail hx]; exact hlog⟩
  · exact ⟨body, .of_body hbody, by rw [bind_failFatal hx]; exact hlog⟩

/-- The body, the arguments, then the handler. -/
theorem bodyThenHandle_spec (label : Nat) {chain : Chain}
    (handler : chain.Args → Except ServerError chain.Output) {contexts : List Context}
    {st : ExtractState}
    (hv : (chain.authSites contexts).map (·.verdict req) = st.prechecked.map .ok) :
    ∃ events, HandlerTrace req label chain (chain.authSites contexts) events ∧
      ((Leaf.bodyStep chain >>= fun _ => chain.extract req >>= fun args =>
        Leaf.runHandler label chain handler req args) st).2.world.log = st.world.log ++ events := by
  obtain ⟨body, hbody, hlog⟩ := (plainStep_bodyStep chain).log st
  have hp := (plainStep_bodyStep chain).prechecked st
  rcases hb : Leaf.bodyStep chain st with ⟨_ | e | e, st'⟩ <;> rw [hb] at hlog hp
  · rw [← hp] at hv
    obtain ⟨events, htrace, hlog'⟩ := extractThenHandle_spec label handler hv
    refine ⟨body ++ events, .append (.of_body hbody) htrace, ?_⟩
    rw [bind_route hb, hlog', hlog, List.append_assoc]
  · exact ⟨body, .of_body hbody, by rw [bind_fail hb]; exact hlog⟩
  · exact ⟨body, .of_body hbody, by rw [bind_failFatal hb]; exact hlog⟩

/-- The phases from authentication on: the checks in order up to the first that rejects, and when
every site accepts, the rest. -/
theorem runExtraction_spec (req : RequestData) (label : Nat) (chain : Chain)
    (handler : chain.Args → Except ServerError chain.Output) (st : ExtractState)
    (hst : st.prechecked = []) :
    ∃ checks rest, (Leaf.runExtraction label chain handler req st).2.world.log
        = st.world.log ++ (checks.map Event.check ++ rest) ∧
      checks <+: (chain.authSites st.contexts).map (·.position) ∧
      HandlerTrace req label chain (chain.authSites st.contexts) rest ∧
      (rest ≠ [] → checks = (chain.authSites st.contexts).map (·.position)) := by
  rw [runExtraction_eq]
  rcases preBodyCheck_spec req chain st with
    ⟨users, hv, hpre⟩ | ⟨e, checks, st', -, hprefix, hpre, hst'⟩
  · rw [hst, List.nil_append] at hpre
    rw [bind_route hpre]
    let st₁ : ExtractState := { st with
      prechecked := users
      world := st.world.extend ((chain.authSites st.contexts).map fun s => .check s.position) }
    have hv₁ : (chain.authSites st.contexts).map (·.verdict req) = st₁.prechecked.map .ok := hv
    obtain ⟨events, htrace, hlog⟩ := bodyThenHandle_spec label handler hv₁
    refine ⟨_, events, ?_, List.prefix_rfl, htrace, fun _ => rfl⟩
    rw [hlog, World.log_extend, List.append_assoc, List.map_map]
    rfl
  · refine ⟨checks, [], ?_, hprefix, .of_body (by simp), fun h => absurd rfl h⟩
    rw [bind_failFatal hpre, hst', List.append_nil]
    rfl

/-- What a call of a leaf writes down: the call, its checks, then the body and the handler. -/
theorem call_trace (label : Nat) (chain : Chain)
    (handler : chain.Args → Except ServerError chain.Output) (context : Context)
    (req : RequestData) (tail captures : List String) (capturedAll : Option (List String))
    (w : World) :
    ∃ checks rest,
      (Leaf.call (.endpoint label chain handler context) req tail captures capturedAll w).2.log
        = w.log ++ .call (.endpoint label chain handler context) tail captures capturedAll ::
            (checks.map Event.check ++ rest) ∧
      checks <+: (chain.authSites [context]).map (·.position) ∧
      HandlerTrace req label chain (chain.authSites [context]) rest ∧
      (rest ≠ [] → checks = (chain.authSites [context]).map (·.position)) := by
  let w' := w.record (.call (.endpoint label chain handler context) tail captures capturedAll)
  have hcall : Leaf.call (.endpoint label chain handler context) req tail captures capturedAll w
      = Leaf.callEndpoint label chain handler context req captures capturedAll w' := rfl
  rw [hcall, callEndpoint_eq]
  by_cases hg : ∀ r ∈ Leaf.gates chain req captures capturedAll, r = .route ()
  · rw [gated_of_pass hg]
    obtain ⟨checks, rest, hlog, hprefix, htrace, hall⟩ := runExtraction_spec req label chain handler
      (ExtractState.new captures capturedAll context w') rfl
    refine ⟨checks, rest, ?_, hprefix, htrace, hall⟩
    show (Leaf.runExtraction label chain handler req _).2.world.log = _
    rw [hlog]
    show w.log ++ [_] ++ _ = _
    rw [List.append_assoc]
    rfl
  · refine ⟨[], [], ?_, List.nil_prefix, .of_body (by simp), fun h => absurd rfl h⟩
    rcases gated_of_stop hg (Leaf.inExtractState captures capturedAll context
      (Leaf.runExtraction label chain handler req)) w' with ⟨e, -, hstop⟩ | ⟨e, -, hstop⟩
    · rw [hstop]; rfl
    · rw [hstop]; rfl

/-- **The authentication gate.**  A call of a leaf runs each check at most once and all of them
before it touches the body.  It calls no handler but its own, and that only after the check of
every site has accepted the request; then each check was run once, and the user at the argument of
each combinator is the one that its own check accepted. -/
theorem auth_gate (label : Nat) (chain : Chain)
    (handler : chain.Args → Except ServerError chain.Output) (context : Context)
    (req : RequestData) (tail captures : List String) (capturedAll : Option (List String))
    (w : World) :
    ∃ checks rest,
      (Leaf.call (.endpoint label chain handler context) req tail captures capturedAll w).2.log
        = w.log ++ .call (.endpoint label chain handler context) tail captures capturedAll ::
            (checks.map Event.check ++ rest) ∧
      checks.Nodup ∧ checks <+: (chain.authSites [context]).map (·.position) ∧
      (∀ position, .check position ∉ rest) ∧
      ∀ l c args, .handler l c args ∈ rest → l = label ∧ c = chain ∧
        checks = (c.authSites [context]).map (·.position) ∧
        (c.authSites [context]).map (fun site => (site.position, site.verdict req))
          = (c.userArgs args).map fun user => (user.1, .ok user.2) := by
  obtain ⟨checks, rest, hlog, hprefix, htrace, hall⟩ :=
    call_trace label chain handler context req tail captures capturedAll w
  have hnodup : checks.Nodup := hprefix.sublist.nodup (Chain.nodup_positions chain [context])
  refine ⟨checks, rest, hlog, hnodup, hprefix, ?_, ?_⟩
  · intro position hmem
    rcases htrace.body_or_handler _ hmem with hbody | ⟨args, he⟩
    · exact hbody
    · cases he
  · intro l c args hmem
    rcases htrace.body_or_handler _ hmem with hbody | ⟨args', he⟩
    · exact hbody.elim
    · cases he
      exact ⟨rfl, rfl, hall (List.ne_nil_of_mem hmem), htrace.users _ hmem⟩

end

end ServantRs
