import ServantRs.Docs.Provenance
import ServantRs.Routing.OneShot
import ServantRs.Server.Adapter

/-!
# Docs — what is documented is what is served

A served API has its document: that of its description, the same without handlers
(`Api.description`).  The path of an entry is a template, and covers the paths it has the form of
(`EndpointDoc.Covers`).

Two entries of the document are the same to a reader when their paths show alike, so the results
below are about APIs in which such paths are the same (`ApiDescription.Unambiguous`).

* `undocumented_iff`: the router touches nothing, and answers 404, just when no entry covers the
  path.
* `handler_documented`: a handler runs only where an entry covers the path and has the method.
-/

namespace ServantRs.Docs

open RouteM

/-! ### Paths as templates -/

/-- The segments of a path have the form of a template; a raw endpoint's path may go on. -/
def covers (raw : Bool) : List PathPart → List String → Prop
  | [], segments => raw = true ∨ isEmptyPath segments = true
  | .static s :: parts, segments =>
    isEmptyPath segments = false ∧ segments.head? = some s ∧ covers raw parts segments.tail
  | .capture .. :: parts, segments => isEmptyPath segments = false ∧ covers raw parts segments.tail
  | .captureAll .. :: parts, _ => covers raw parts []

def EndpointDoc.Covers (ep : EndpointDoc) (segments : List String) : Prop :=
  covers ep.raw.isSome ep.path segments

/-- A part without its names. -/
def PathPart.erase : PathPart → ServantRs.PathPart
  | static s      => .static s
  | capture ..    => .capture
  | captureAll .. => .captureAll

/-- **A template covers what the pattern finds.** -/
theorem covers_iff (merge : SlotMerge) {raw : Bool} : ∀ {parts : List PathPart}
    {segments : List String}, covers raw parts segments ↔
      (matchParts merge raw (parts.map PathPart.erase) segments).isSome
  | [], segments => by
      rw [covers, List.map_nil, matchParts]
      split
      · next h => simp [h]
      · next h => split <;> simp_all
  | .static s :: parts, segments => by
      rw [covers, List.map_cons, PathPart.erase]
      rcases RouterTree.isEmptyPath_cases segments with h | ⟨first, rest, rfl, h⟩
      · simp [matchParts_static_empty h, h]
      · rw [matchParts_static_cons h, List.head?_cons, List.tail_cons, covers_iff merge]
        by_cases hs : first = s
        · subst hs
          simp [h]
        · simp [h, hs]
  | .capture name A :: parts, segments => by
      rw [covers, List.map_cons, PathPart.erase]
      rcases RouterTree.isEmptyPath_cases segments with h | ⟨first, rest, rfl, h⟩
      · simp [matchParts_capture_empty h, h]
      · rw [matchParts_capture_cons h, List.tail_cons, covers_iff merge]
        simp [h]
  | .captureAll name A :: parts, segments => by
      rw [covers, List.map_cons, PathPart.erase, matchParts_captureAll,
        covers_iff merge, Option.isSome_map]

theorem covers_congr {raw : Bool} {parts parts' : List PathPart}
    (h : List.Forall₂ PathPart.Same parts parts') {segments : List String} :
    covers raw parts segments ↔ covers raw parts' segments := by
  induction h generalizing segments with
  | nil => exact Iff.rfl
  | cons hp _ ih => cases hp <;> simp only [covers, ih]

end ServantRs.Docs

namespace ServantRs

section

variable [AppTypes]

/-! ### Descriptions -/

def Chain.description : Chain → Docs.ApiDescription
  | verb t     => .verb t
  | sub c next => .sub c next.description

def RawChain.description : RawChain → Docs.ApiDescription
  | raw        => .raw
  | rawM       => .rawM
  | sub c next => .sub c.comb next.description

/-- An API without its handlers. -/
def Api.description : Api → Docs.ApiDescription
  | endpoint _ chain _ => chain.description
  | raw _ chain _      => chain.description
  | alt left right     => .alt left.description right.description

/-! ### Entries and routes -/

section

variable [HttpCrate] [Docs.TypeNames]

open Docs (EndpointDoc docsComb docsVerb)

/-- What an entry says of an endpoint's route. -/
structure Route.DocumentedBy (route : Route) (ep : EndpointDoc) : Prop where
  pattern : route.pattern = ⟨ep.path.map Docs.PathPart.erase, ep.raw.isSome⟩
  method : ∀ {label chain handler context}, route.leaf = .endpoint label chain handler context →
    ep.raw = none ∧ ep.method = chain.method

/-- The entry of a chain: what stood before, and the chain's own parts. -/
theorem Chain.endpointsWalk : ∀ (c : Chain) (acc : EndpointDoc),
    ∃ ep, c.description.endpointsWalk docsComb docsVerb acc = [ep] ∧
      ep.path.map Docs.PathPart.erase = acc.path.map Docs.PathPart.erase ++ c.parts ∧
      ep.raw = acc.raw ∧ ep.method = c.method
  | verb t, acc => by
      refine ⟨docsVerb t acc, rfl, ?_, ?_, ?_⟩
      · rw [parts, List.append_nil]
        cases t <;> rfl
      · cases t <;> rfl
      · cases t <;> rfl
  | sub c next, acc => by
      obtain ⟨ep, hwalk, hpath, hraw, hmethod⟩ := endpointsWalk next (docsComb c acc)
      refine ⟨ep, hwalk, hpath.trans ?_, hraw.trans ?_, hmethod⟩
      · cases c <;> simp [docsComb, parts, Docs.PathPart.erase, EndpointDoc.note]
      · cases c <;> rfl

theorem RawChain.endpointsWalk : ∀ (c : RawChain) (acc : EndpointDoc),
    ∃ ep, c.description.endpointsWalk docsComb docsVerb acc = [ep] ∧
      ep.path.map Docs.PathPart.erase = acc.path.map Docs.PathPart.erase ++ c.parts ∧
      ep.raw.isSome = true
  | raw, acc => ⟨_, rfl, (List.append_nil _).symm, rfl⟩
  | rawM, acc => ⟨_, rfl, (List.append_nil _).symm, rfl⟩
  | sub c next, acc => by
      obtain ⟨ep, hwalk, hpath, hraw⟩ := endpointsWalk next (docsComb c.comb acc)
      refine ⟨ep, hwalk, hpath.trans ?_, hraw⟩
      cases c <;> simp [RawComb.comb, docsComb, parts, Docs.PathPart.erase]

/-- **Every endpoint has its entry**, in order. -/
theorem Api.endpoints_description (context : Context) : ∀ api : Api,
    List.Forall₂ Route.DocumentedBy (api.routes context) api.description.endpoints
  | .endpoint label chain handler => by
      obtain ⟨ep, hwalk, hpath, hraw, hmethod⟩ := chain.endpointsWalk .empty
      rw [description, Docs.ApiDescription.endpoints, hwalk, routes]
      refine .cons ⟨?_, ?_⟩ .nil
      · rw [hpath, hraw]
        rfl
      · rintro _ _ _ _ hleaf
        cases hleaf
        exact ⟨hraw, hmethod⟩
  | .raw label chain handler => by
      obtain ⟨ep, hwalk, hpath, hraw⟩ := chain.endpointsWalk .empty
      rw [description, Docs.ApiDescription.endpoints, hwalk, routes]
      refine .cons ⟨?_, ?_⟩ .nil
      · rw [hpath, hraw]
        rfl
      · intro _ _ _ _ hleaf
        exact absurd hleaf (chain.leaf_ne_endpoint handler)
  | .alt left right => by
      rw [description, Docs.ApiDescription.endpoints, Docs.ApiDescription.endpointsWalk, routes]
      exact List.rel_append (endpoints_description context left)
        (endpoints_description context right)

theorem Api.exists_documentedBy {api : Api} {context : Context} {route : Route}
    (h : route ∈ api.routes context) : ∃ ep ∈ api.description.endpoints, route.DocumentedBy ep := by
  have hall := api.endpoints_description context
  generalize api.routes context = routes at hall h
  generalize api.description.endpoints = endpoints at hall
  induction hall with
  | nil => cases h
  | cons hdoc _ ih =>
      rcases List.mem_cons.mp h with rfl | h
      · exact ⟨_, List.mem_cons_self, hdoc⟩
      · obtain ⟨ep, hep, hdoc⟩ := ih h
        exact ⟨ep, List.mem_cons_of_mem _ hep, hdoc⟩

end

end

end ServantRs

namespace ServantRs.Docs

section

variable [AppTypes] [HttpCrate] [TypeNames]

/-- Endpoints whose paths show alike, with one host and method, have the same path. -/
def ApiDescription.Unambiguous (api : ApiDescription) : Prop :=
  ∀ a ∈ api.endpoints, ∀ b ∈ api.endpoints, a.key = b.key → List.Forall₂ PathPart.Same a.path b.path

omit [AppTypes] [HttpCrate] [TypeNames] in
theorem EndpointDoc.raw_of_key_eq {a b : EndpointDoc} (h : a.key = b.key) :
    a.raw.isSome = b.raw.isSome ∧ (a.raw = none → a.method = b.method) := by
  rcases (key_eq_iff.mp h).method with ⟨ha, hb⟩ | ⟨ha, hb, hm⟩
  · exact ⟨ha.trans hb.symm, fun hnone => by rw [hnone] at ha; cases ha⟩
  · exact ⟨by rw [ha, hb], fun _ => hm⟩

variable [MimeEq]

/-- What an entry of the document says of route and method, some endpoint says. -/
theorem endpoint_of_documented {api : ApiDescription} {ep : EndpointDoc}
    (h : ep ∈ api.docs.endpoints) : ∃ a ∈ api.endpoints, ep.path = a.path ∧ ep.key = a.key := by
  have hcombine : ∀ a b : EndpointDoc, (a.combine b).path = a.path := fun _ _ => rfl
  obtain ⟨a, ha, hpath⟩ := ((gathers_docs api).joined h).exists_eq hcombine
  obtain ⟨hmem, hkey⟩ := List.mem_filter.mp ha
  have hkey : a.key = ep.key := of_decide_eq_true hkey
  exact ⟨a, hmem, hpath, hkey.symm⟩

/-- The entry of an endpoint's key covers what the endpoint covers. -/
theorem covers_of_key_eq {api : ApiDescription} (hu : api.Unambiguous) {ep a : EndpointDoc}
    (hep : ep ∈ api.docs.endpoints) (ha : a ∈ api.endpoints) (hkey : ep.key = a.key)
    {segments : List String} : ep.Covers segments ↔ a.Covers segments := by
  obtain ⟨b, hb, hpath, hkey'⟩ := endpoint_of_documented hep
  rw [EndpointDoc.Covers, EndpointDoc.Covers, (EndpointDoc.raw_of_key_eq hkey).1, hpath]
  exact covers_congr (hu b hb a ha (hkey'.symm.trans hkey))

/-- What an endpoint says of route and method, some entry of the document says. -/
theorem documented_of_endpoint {api : ApiDescription} (hu : api.Unambiguous) {a : EndpointDoc}
    (h : a ∈ api.endpoints) : ∃ ep ∈ api.docs.endpoints,
      (∀ segments, ep.Covers segments ↔ a.Covers segments) ∧
      (a.raw = none → ep.raw = none ∧ ep.method = a.method) := by
  obtain ⟨ep, hep, hkey⟩ := (gathers_docs api).exists_mem h
  obtain ⟨hraw, hmethod⟩ := EndpointDoc.raw_of_key_eq hkey
  refine ⟨ep, hep, fun segments => covers_of_key_eq hu hep h hkey, fun hnone => ?_⟩
  have hnone' : ep.raw = none := by simpa [hnone] using hraw
  exact ⟨hnone', hmethod hnone'⟩

theorem documented_covers_iff {api : ApiDescription} (hu : api.Unambiguous)
    {segments : List String} : (∃ ep ∈ api.docs.endpoints, ep.Covers segments) ↔
      ∃ a ∈ api.endpoints, a.Covers segments := by
  constructor
  · rintro ⟨ep, hep, hcovers⟩
    obtain ⟨a, ha, hpath, hkey⟩ := endpoint_of_documented hep
    refine ⟨a, ha, ?_⟩
    rwa [EndpointDoc.Covers, ← hpath, ← (EndpointDoc.raw_of_key_eq hkey).1]
  · rintro ⟨a, ha, hcovers⟩
    obtain ⟨ep, hep, hiff, -⟩ := documented_of_endpoint hu ha
    exact ⟨ep, hep, (hiff segments).mpr hcovers⟩

end

end ServantRs.Docs

namespace ServantRs

open RouteM

section

variable [AppTypes]

/-! ### What a dispatch writes down -/

/-- Something is written down. -/
def RouteM.Notes {R : Type} (x : RouteM World R) : Prop :=
  ∀ w, ∃ e events, (x w).2.log = w.log ++ e :: events

/-- What is written down is in `P`. -/
def RouteM.Records {R : Type} (P : Event → Prop) (x : RouteM World R) : Prop :=
  ∀ w, ∃ events, (x w).2.log = w.log ++ events ∧ ∀ e ∈ events, P e

theorem RouteM.Notes.orElse {R : Type} {P : Event → Prop} {x y : RouteM World R} (hx : x.Notes)
    (hy : y.Records P) : (x.orElse y).Notes := by
  intro w
  obtain ⟨e, events, hlog⟩ := hx w
  rcases hxw : x w with ⟨t | err | err, w'⟩ <;> rw [hxw] at hlog
  · exact ⟨e, events, by rw [RouteM.orElse, hxw]; exact hlog⟩
  · obtain ⟨more, hmore, -⟩ := hy w'
    refine ⟨e, events ++ more, ?_⟩
    rw [RouteM.snd_orElse_of_fail hxw, hmore, hlog, List.append_assoc]
    rfl
  · exact ⟨e, events, by rw [RouteM.orElse, hxw]; exact hlog⟩

namespace RouteM.Records

variable {R : Type} {P : Event → Prop}

theorem of_log_eq {x : RouteM World R} (h : ∀ w, (x w).2.log = w.log) : x.Records P := fun w =>
  ⟨[], by rw [h w, List.append_nil], by simp⟩

theorem record {e : Event} (h : P e) : (RouteM.modify (·.record e) : RouteM World Unit).Records P :=
  fun w => ⟨[e], rfl, by simpa using h⟩

theorem bind {T : Type} {x : RouteM World T} {k : T → RouteM World R} (hx : x.Records P)
    (hk : ∀ t, (k t).Records P) : (x >>= k).Records P := by
  intro w
  obtain ⟨events, hlog, hP⟩ := hx w
  rcases hxw : x w with ⟨t | e | e, w'⟩ <;> rw [hxw] at hlog
  · obtain ⟨more, hmore, hP'⟩ := hk t w'
    refine ⟨events ++ more, ?_, fun e he => (List.mem_append.mp he).elim (hP e) (hP' e)⟩
    rw [bind_route hxw, hmore, hlog, List.append_assoc]
  · exact ⟨events, by rw [bind_fail hxw]; exact hlog, hP⟩
  · exact ⟨events, by rw [bind_failFatal hxw]; exact hlog, hP⟩

theorem orElse {x y : RouteM World R} (hx : x.Records P) (hy : y.Records P) :
    (x.orElse y).Records P := by
  intro w
  obtain ⟨events, hlog, hP⟩ := hx w
  rcases hxw : x w with ⟨t | e | e, w'⟩ <;> rw [hxw] at hlog
  · exact ⟨events, by rw [RouteM.orElse, hxw]; exact hlog, hP⟩
  · obtain ⟨more, hmore, hP'⟩ := hy w'
    refine ⟨events ++ more, ?_, fun e he => (List.mem_append.mp he).elim (hP e) (hP' e)⟩
    rw [RouteM.snd_orElse_of_fail hxw, hmore, hlog, List.append_assoc]
  · exact ⟨events, by rw [RouteM.orElse, hxw]; exact hlog, hP⟩

theorem tryInOrder {xs : List (RouteM World R)} (h : ∀ x ∈ xs, x.Records P) :
    (ServantRs.tryInOrder xs []).Records P := by
  rw [tryInOrder_eq_foldr]
  induction xs with
  | nil => exact of_log_eq fun _ => rfl
  | cons x xs ih =>
      obtain ⟨hx, hxs⟩ := List.forall_mem_cons.mp h
      exact hx.orElse (ih hxs)

end RouteM.Records

/-! ### Leaves and routes -/

variable [HttpCrate] [MimeCrate] [Base64Crate] {context : Context} {segments : List String}
variable {req : RequestData}

theorem Leaf.notes_call (leaf : Leaf) (req : RequestData) (tail captures : List String)
    (capturedAll : Option (List String)) :
    (Leaf.call leaf req tail captures capturedAll).Notes := by
  intro w
  obtain ⟨events, -, hlog⟩ := (untouched_run req tail captures capturedAll leaf).log
    (w.record (.call leaf tail captures capturedAll))
  refine ⟨.call leaf tail captures capturedAll, events, hlog.trans ?_⟩
  rw [World.record, List.append_assoc]
  rfl

/-- A handler's event is of this endpoint, whose method is asked for. -/
def Event.HandledBy (label : Nat) (chain : Chain) (req : RequestData) (e : Event) : Prop :=
  ∀ label' chain' args, e = .handler label' chain' args →
    label' = label ∧ chain' = chain ∧ Leaf.methodOk chain req = true

theorem Leaf.records_endpoint (req : RequestData) (label : Nat) (chain : Chain)
    (handler : chain.Args → Except ServerError chain.Output) (tail captures : List String)
    (capturedAll : Option (List String)) :
    (Leaf.call (.endpoint label chain handler context) req tail captures capturedAll).Records
      (Event.HandledBy label chain req) := by
  refine .bind (.record fun _ _ _ h => by cases h) fun _ => ?_
  rw [Leaf.run, callEndpoint_eq]
  by_cases hg : ∀ r ∈ Leaf.gates chain req captures capturedAll, r = .route ()
  · rw [gated_of_pass hg]
    have hmethod : Leaf.methodOk chain req = true :=
      Leaf.require_eq_route.mp
        (hg (Leaf.require (Leaf.methodOk chain req) .err405) (by simp [Leaf.gates]))
    intro w
    obtain ⟨checks, rest, hlog, -, htrace, -⟩ := runExtraction_spec req label chain handler
      (.new captures capturedAll context w) rfl
    refine ⟨checks.map Event.check ++ rest, hlog, ?_⟩
    intro e he label' chain' args heq
    subst heq
    rcases List.mem_append.mp he with he | he
    · obtain ⟨position, -, hcheck⟩ := List.mem_map.mp he
      cases hcheck
    · rcases htrace.body_or_handler _ he with hbody | ⟨args', hargs⟩
      · exact hbody.elim
      · cases hargs
        exact ⟨rfl, rfl, hmethod⟩
  · refine .of_log_eq fun w => ?_
    rcases gated_of_stop hg (Leaf.inExtractState captures capturedAll context
      (Leaf.runExtraction label chain handler req)) w with ⟨e, -, h⟩ | ⟨e, -, h⟩ <;> rw [h]

omit [HttpCrate] [MimeCrate] [Base64Crate] in
theorem Leaf.records_buffered {P : Event → Prop} (h : P .buffer) :
    (Leaf.buffered).Records P := by
  intro w
  refine ⟨[.buffer], ?_, by simpa using h⟩
  rcases hw : w.bufferBody with ⟨_ | _, w'⟩ <;> rw [Leaf.buffered, hw]
  · exact congrArg (World.log ∘ Prod.snd) hw.symm
  · exact congrArg (World.log ∘ Prod.snd) hw.symm

/-- A raw endpoint runs no typed handler. -/
theorem RawChain.records_run (req : RequestData) (label : Nat) (tail captures : List String)
    (capturedAll : Option (List String)) : ∀ (c : RawChain) (handler : c.Handler),
      ((c.leaf label context handler).run req tail captures capturedAll).Records
        fun e => ∀ label chain args, e ≠ .handler label chain args
  | raw, handler =>
      .bind (Leaf.records_buffered fun _ _ _ h => by cases h) fun _ =>
        .bind (.record fun _ _ _ h => by cases h) fun _ => .of_log_eq fun _ => rfl
  | rawM, handler =>
      .bind (Leaf.records_buffered fun _ _ _ h => by cases h) fun body =>
        .bind (.record fun _ _ _ h => by cases h) fun _ => by
          cases handler (.fromRequest req tail body) context with
          | ok response => exact .of_log_eq fun _ => rfl
          | error e => exact .of_log_eq fun _ => rfl
  | sub (.host name) next, handler =>
      .bind (.of_log_eq fun w => by cases (HostGuard.fromName name).check req <;> rfl) fun _ =>
        records_run req label tail captures capturedAll next handler
  | sub (.path _) next, handler | sub (.fragment ..) next, handler
  | sub (.description _) next, handler | sub (.summary _) next, handler
  | sub (.operationId _) next, handler => records_run req label tail captures capturedAll next handler

/-- A typed handler that runs is a matching route's, and its method is asked for. -/
def Event.HandledIn (api : Api) (context : Context) (segments : List String) (req : RequestData)
    (e : Event) : Prop :=
  ∀ label chain args, e = .handler label chain args → ∃ route ∈ api.routes context,
    (route.pattern.match? lastOnly segments).isSome ∧ Leaf.methodOk chain req = true ∧
      ∃ handler, route.leaf = .endpoint label chain handler context

theorem Api.records_attempt : ∀ (api : Api) {route : Route}, route ∈ api.routes context →
    (route.attempt lastOnly Leaf.call segments req).Records
      (Event.HandledIn api context segments req)
  | .endpoint label chain handler, route, hmem => by
      obtain rfl := List.mem_singleton.mp hmem
      rw [Route.attempt]
      cases hm : PathPattern.match? lastOnly chain.pattern segments with
      | none => exact .of_log_eq fun _ => rfl
      | some m =>
          intro w
          obtain ⟨events, hlog, hP⟩ :=
            Leaf.records_endpoint req label chain handler m.tail m.captures m.capturedAll w
          refine ⟨events, hlog, fun e he label' chain' args heq => ?_⟩
          obtain ⟨rfl, rfl, hmethod⟩ := hP e he label' chain' args heq
          exact ⟨_, List.mem_singleton_self _, by simp [hm], hmethod, handler, rfl⟩
  | .raw label chain handler, route, hmem => by
      obtain rfl := List.mem_singleton.mp hmem
      rw [Route.attempt]
      split
      · next m hm =>
          refine .bind (.record fun _ _ _ h => by cases h) fun _ w => ?_
          obtain ⟨events, hlog, hP⟩ := chain.records_run req label m.tail m.captures
            m.capturedAll handler w
          exact ⟨events, hlog, fun e he label chain args heq =>
            absurd heq (hP e he label chain args)⟩
      · exact .of_log_eq fun _ => rfl
  | .alt left right, route, hmem => by
      intro w
      rcases List.mem_append.mp hmem with hmem | hmem
      · obtain ⟨events, hlog, hP⟩ := left.records_attempt hmem w
        refine ⟨events, hlog, fun e he label chain args heq => ?_⟩
        obtain ⟨r, hr, hrest⟩ := hP e he label chain args heq
        exact ⟨r, List.mem_append_left _ hr, hrest⟩
      · obtain ⟨events, hlog, hP⟩ := right.records_attempt hmem w
        refine ⟨events, hlog, fun e he label chain args heq => ?_⟩
        obtain ⟨r, hr, hrest⟩ := hP e he label chain args heq
        exact ⟨r, List.mem_append_right _ hr, hrest⟩

theorem Route.attempt_of_not_isSome {route : Route}
    (h : ¬ (route.pattern.match? lastOnly segments).isSome) :
    route.attempt lastOnly Leaf.call segments req = RouteM.fail notFound := by
  rw [Route.attempt]
  split
  · next m hm => exact absurd (by simp [hm]) h
  · rfl

/-- Of routes tried in order one matches, and something is written down. -/
theorem tryInOrder_notes (req : RequestData) {P : Event → Prop} {routes : List Route}
    (hP : ∀ route ∈ routes, (route.attempt lastOnly Leaf.call segments req).Records P)
    (h : ∃ route ∈ routes, (route.pattern.match? lastOnly segments).isSome) :
    (tryInOrder (routes.map (Route.attempt lastOnly Leaf.call segments req)) []).Notes := by
  induction routes with
  | nil => simp at h
  | cons route routes ih =>
      obtain ⟨-, hroutes⟩ := List.forall_mem_cons.mp hP
      have hrest : (tryInOrder (routes.map (Route.attempt lastOnly Leaf.call segments req))
          []).Records P := .tryInOrder fun x hx => by
        obtain ⟨r, hr, rfl⟩ := List.mem_map.mp hx
        exact hroutes r hr
      rw [List.map_cons, tryInOrder_eq_foldr, List.foldr_cons, ← tryInOrder_eq_foldr]
      by_cases hm : (route.pattern.match? lastOnly segments).isSome
      · refine RouteM.Notes.orElse ?_ hrest
        obtain ⟨m, hm⟩ := Option.isSome_iff_exists.mp hm
        rw [Route.attempt, hm]
        exact Leaf.notes_call _ _ _ _ _
      · have hlater : ∃ r ∈ routes, (r.pattern.match? lastOnly segments).isSome := by
          obtain ⟨r, hr, hmr⟩ := h
          rcases List.mem_cons.mp hr with rfl | hr
          · exact absurd hmr hm
          · exact ⟨r, hr, hmr⟩
        intro w
        obtain ⟨e, events, hlog⟩ := ih hroutes hlater w
        refine ⟨e, events, ?_⟩
        rw [← hlog, Route.attempt_of_not_isSome hm]
        simp only [RouteM.orElse, RouteM.fail]
        rcases tryInOrder (routes.map (Route.attempt lastOnly Leaf.call segments req)) [] w with
          ⟨_ | _ | _, _⟩ <;> rfl

/-- Of routes tried in order none matches. -/
theorem tryInOrder_notFound {routes : List Route}
    (h : ∀ route ∈ routes, ¬ (route.pattern.match? lastOnly segments).isSome) :
    tryInOrder (routes.map (Route.attempt lastOnly Leaf.call segments req)) [] =
      RouteM.fail notFound := by
  induction routes with
  | nil => rfl
  | cons route routes ih =>
      obtain ⟨hroute, hroutes⟩ := List.forall_mem_cons.mp h
      rw [List.map_cons, tryInOrder_eq_foldr, List.foldr_cons, ← tryInOrder_eq_foldr, ih hroutes,
        Route.attempt_of_not_isSome hroute, orElse_notFound]

/-! ### The document of a served API -/

variable [Docs.TypeNames] [MimeEq]

omit [MimeCrate] [Base64Crate] in
theorem Api.exists_match_iff (context : Context) {api : Api} (hu : api.description.Unambiguous) :
    (∃ route ∈ api.routes context, (route.pattern.match? lastOnly segments).isSome) ↔
      ∃ ep ∈ api.description.docs.endpoints, ep.Covers segments := by
  rw [Docs.documented_covers_iff hu]
  have hall := api.endpoints_description context
  generalize api.routes context = routes at hall
  generalize api.description.endpoints = endpoints at hall
  induction hall with
  | nil => simp
  | @cons route ep routes eps hdoc _ ih =>
      have hhead : (route.pattern.match? lastOnly segments).isSome ↔ ep.Covers segments := by
        rw [hdoc.pattern, Docs.EndpointDoc.Covers, Docs.covers_iff lastOnly]
        rfl
      simp only [List.mem_cons, exists_eq_or_imp, hhead, ih]

/-- **A path that no entry of the document covers is not found, and on it nothing is touched; a path
that an entry covers has a leaf called.** -/
theorem undocumented_iff {api : Api} (hu : api.description.Unambiguous) (context : Context)
    (segments : List String) (req : RequestData) (w : World) :
    (∀ ep ∈ api.description.docs.endpoints, ¬ ep.Covers segments) ↔
      dispatch Leaf.call (serveWithContext api context) segments [] none req w =
        (.fail notFound, w) := by
  rw [dispatch_flat]
  constructor
  · intro h
    rw [tryInOrder_notFound]
    · rfl
    · intro route hroute hm
      obtain ⟨ep, hep, hcovers⟩ := (api.exists_match_iff context hu).mp ⟨route, hroute, hm⟩
      exact h ep hep hcovers
  · intro h ep hep hcovers
    have hnotes := tryInOrder_notes req (fun _ hr => api.records_attempt hr)
      ((api.exists_match_iff context hu).mpr ⟨ep, hep, hcovers⟩)
    obtain ⟨e, events, hlog⟩ := hnotes w
    rw [h] at hlog
    simp at hlog

/-- The entry of a handler that runs. -/
theorem exists_entry_of_handler {api : Api} (hu : api.description.Unambiguous) {context : Context}
    {segments : List String} {req : RequestData} {body : List BodyEvent} {maxBody label : Nat}
    {chain : Chain} {args : chain.Args}
    (h : .handler label chain args ∈
      (dispatch Leaf.call (serveWithContext api context) segments [] none req
        (.new body maxBody)).2.log) :
    ∃ ep ∈ api.description.docs.endpoints, ep.Covers segments ∧ ep.raw = none ∧
      (ep.method = req.method ∨ (req.isHead = true ∧ ep.method = .GET)) := by
  rw [dispatch_flat] at h
  have hrecords : (tryInOrder ((api.routes context).map
      (Route.attempt lastOnly Leaf.call segments req)) []).Records
        (Event.HandledIn api context segments req) := .tryInOrder fun x hx => by
    obtain ⟨r, hr, rfl⟩ := List.mem_map.mp hx
    exact api.records_attempt hr
  obtain ⟨events, hlog, hP⟩ := hrecords (.new body maxBody)
  rw [hlog] at h
  obtain ⟨route, hroute, hmatch, hmethod, handler, hleaf⟩ := hP _ h label chain args rfl
  obtain ⟨a, ha, hdoc⟩ := Api.exists_documentedBy hroute
  obtain ⟨hraw, hchain⟩ := hdoc.method hleaf
  obtain ⟨ep, hep, hcovers, hsame⟩ := Docs.documented_of_endpoint hu ha
  obtain ⟨hraw', hmethod'⟩ := hsame hraw
  refine ⟨ep, hep, (hcovers segments).mpr ?_, hraw', ?_⟩
  · rw [hdoc.pattern] at hmatch
    exact (Docs.covers_iff lastOnly).mpr hmatch
  · rw [hmethod', hchain]
    rw [Leaf.methodOk, Bool.or_eq_true, Bool.and_eq_true, decide_eq_true_eq, decide_eq_true_eq]
      at hmethod
    exact hmethod.imp Eq.symm id

/-- **A handler runs only for what is documented**: an entry of the document covers the path and has
the method of the request, or `GET` for a `HEAD`. -/
theorem handler_documented {api : Api} (hu : api.description.Unambiguous) {context : Context}
    {segments : List String} {req : RequestData} {body : List BodyEvent} {maxBody label : Nat}
    {chain : Chain} {args : chain.Args}
    (h : .handler label chain args ∈
      (dispatch Leaf.call (serveWithContext api context) segments [] none req
        (.new body maxBody)).2.log) :
    ∃ ep ∈ api.description.docs.endpoints, ep.Covers segments ∧ ep.raw = none ∧
      (ep.method = req.method ∨ (req.isHead = true ∧ ep.method = .GET)) :=
  exists_entry_of_handler hu h

end

/-! ### One endpoint -/

section

attribute [local instance] AppTypes.reference HttpCrate.reference MimeCrate.reference
  Base64Crate.reference MimeEq.reference Docs.TypeNames.reference

/-- `GET /ping`. -/
def pingChain : Chain := .sub (.path "ping") (.verb (.noContentVerb .GET))

def pingApi : Api := .endpoint 7 pingChain fun _ => .ok ()

theorem pingApi_unambiguous : pingApi.description.Unambiguous := by
  intro a ha b hb _
  obtain rfl := List.mem_singleton.mp ha
  obtain rfl := List.mem_singleton.mp hb
  exact .cons (.static "ping") .nil

/-- `/pong` is not documented. -/
theorem undocumented_iff_pong :
    dispatch Leaf.call (serveWithContext pingApi .new) ["pong"] [] none (.ofMethod .GET ())
      (.new [] 0) = (.fail notFound, .new [] 0) := by
  refine (undocumented_iff pingApi_unambiguous .new ["pong"] (.ofMethod .GET ()) (.new [] 0)).mp ?_
  intro ep hep
  obtain rfl := List.mem_singleton.mp hep
  rintro ⟨-, hhead, -⟩
  revert hhead
  decide

theorem pingApi_handled : .handler 7 pingChain () ∈ (dispatch Leaf.call
    (serveWithContext pingApi .new) ["ping"] [] none (.ofMethod .GET ()) (.new [] 0)).2.log := by
  have hlog : (dispatch Leaf.call (serveWithContext pingApi .new) ["ping"] [] none
      (.ofMethod .GET ()) (.new [] 0)).2.log =
        [.call (.endpoint 7 pingChain (fun _ => .ok ()) .new) [] [] none,
          .handler 7 pingChain ()] := rfl
  rw [hlog]
  exact List.mem_cons_of_mem _ (List.mem_singleton_self _)

theorem handler_documented_ping : ∃ ep ∈ pingApi.description.docs.endpoints,
    ep.Covers ["ping"] ∧ ep.raw = none ∧
      (ep.method = .GET ∨ (false = true ∧ ep.method = .GET)) :=
  handler_documented pingApi_unambiguous pingApi_handled

end

end ServantRs
