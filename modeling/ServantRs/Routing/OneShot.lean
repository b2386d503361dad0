import ServantRs.Phases.Captures
import ServantRs.Routing.Flat

/-!
# Routing — the body is handed out once

A dispatch calls leaves one after another.  Every leaf but the last has failed recoverably, and a
leaf that fails so has done nothing: its captures, host, method or media types did not do
(`untouched_run`).  In the log of a dispatch all calls of leaves therefore stand before everything
else (`OneShot`), so one leaf at most buffers or takes the body, and none is called after it.

The captures of a call are those its pattern takes, one for each `Capture` of the chain.
-/

namespace ServantRs

open RouteM

section

variable [AppTypes]

/-- A computation that calls no leaf, and has done nothing when it does not apply. -/
structure Untouched {R : Type} (x : RouteM World R) : Prop where
  log : ∀ w, ∃ events : List Event, (∀ e ∈ events, ¬ e.IsCall) ∧ (x w).2.log = w.log ++ events
  of_fail : ∀ w e, (x w).1 = .fail e → (x w).2 = w

/-- In what is written down all calls of leaves, each in `P`, come first; a computation that does
not apply has only called leaves. -/
def OneShot {R : Type} (P : Event → Prop) (x : RouteM World R) : Prop :=
  ∀ w, ∃ calls rest : List Event, (x w).2.log = w.log ++ (calls ++ rest) ∧
    (∀ e ∈ calls, e.IsCall ∧ P e) ∧ (∀ e ∈ rest, ¬ e.IsCall) ∧
    ∀ e, (x w).1 = .fail e → rest = []

namespace OneShot

variable {R : Type} {P : Event → Prop}

theorem fail (e : ServerError) : OneShot P (RouteM.fail e : RouteM World R) := by
  intro w
  exact ⟨[], [], (List.append_nil _).symm, by simp, by simp, fun _ _ => rfl⟩

theorem mono {Q : Event → Prop} {x : RouteM World R} (h : OneShot P x) (hPQ : ∀ e, P e → Q e) :
    OneShot Q x := by
  intro w
  obtain ⟨calls, rest, hlog, hcalls, hrest, hfail⟩ := h w
  exact ⟨calls, rest, hlog, fun e he => ⟨(hcalls e he).1, hPQ e (hcalls e he).2⟩, hrest, hfail⟩

/-- One computation after another that did not apply. -/
theorem orElse {x y : RouteM World R} (hx : OneShot P x) (hy : OneShot P y) :
    OneShot P (x.orElse y) := by
  intro w
  obtain ⟨calls, rest, hlog, hcalls, hrest, hfail⟩ := hx w
  rcases hxw : x w with ⟨t | e | e, w'⟩
  · refine ⟨calls, rest, ?_, hcalls, hrest, fun e he => ?_⟩
    · rw [RouteM.orElse, hxw]
      rw [hxw] at hlog
      exact hlog
    · rw [RouteM.orElse, hxw] at he
      cases he
  · obtain ⟨calls', rest', hlog', hcalls', hrest', hfail'⟩ := hy w'
    have hnil : rest = [] := hfail e (by rw [hxw])
    have hw' : w'.log = w.log ++ calls := by
      rw [hxw, hnil, List.append_nil] at hlog
      exact hlog
    have hsnd : (x.orElse y w).2 = (y w').2 := by
      simp only [RouteM.orElse, hxw]
      rcases y w' with ⟨_ | _ | _, _⟩ <;> rfl
    refine ⟨calls ++ calls', rest', ?_, fun e he => ?_, hrest', fun e he => ?_⟩
    · rw [hsnd, hlog', hw', List.append_assoc, List.append_assoc]
    · exact (List.mem_append.mp he).elim (hcalls e) (hcalls' e)
    · simp only [RouteM.orElse, hxw] at he
      rcases hyw : y w' with ⟨_ | e' | _, w''⟩
      · rw [hyw] at he
        cases he
      · exact hfail' e' (by rw [hyw])
      · rw [hyw] at he
        cases he
  · refine ⟨calls, rest, ?_, hcalls, hrest, fun e he => ?_⟩
    · rw [RouteM.orElse, hxw]
      rw [hxw] at hlog
      exact hlog
    · rw [RouteM.orElse, hxw] at he
      cases he

/-- Computations tried in order. -/
theorem tryInOrder {xs : List (RouteM World R)} (h : ∀ x ∈ xs, OneShot P x) :
    OneShot P (ServantRs.tryInOrder xs []) := by
  rw [tryInOrder_eq_foldr]
  induction xs with
  | nil => exact fail notFound
  | cons x xs ih =>
      obtain ⟨hx, hxs⟩ := List.forall_mem_cons.mp h
      exact hx.orElse (ih hxs)

end OneShot

/-! ### Leaves -/

variable [HttpCrate] [MimeCrate] [Base64Crate]

theorem untouched_callEndpoint (label : Nat) (chain : Chain)
    (handler : chain.Args → Except ServerError chain.Output) (context : Context)
    (req : RequestData) (captures : List String) (capturedAll : Option (List String)) :
    Untouched (Leaf.callEndpoint label chain handler context req captures capturedAll) := by
  rw [callEndpoint_eq]
  by_cases hg : ∀ r ∈ Leaf.gates chain req captures capturedAll, r = .route ()
  · rw [gated_of_pass hg]
    refine ⟨fun w => ?_, fun w e he => ?_⟩
    · obtain ⟨checks, rest, hlog, -, htrace, -⟩ := runExtraction_spec req label chain handler
        (.new captures capturedAll context w) rfl
      refine ⟨checks.map Event.check ++ rest, fun e he => ?_, hlog⟩
      rcases List.mem_append.mp he with he | he
      · obtain ⟨position, -, rfl⟩ := List.mem_map.mp he
        exact id
      · rcases htrace.body_or_handler e he with hbody | ⟨args, rfl⟩
        · cases e <;> first | exact id | exact hbody.elim
        · exact id
    · have hv : chain.validateCaptures captures 0 capturedAll = .route () :=
        hg _ (by simp [Leaf.gates])
      exact absurd he (runExtraction_ne_fail hv w e)
  · refine ⟨fun w => ⟨[], by simp, ?_⟩, fun w e he => ?_⟩
    · rcases gated_of_stop hg (Leaf.inExtractState captures capturedAll context
        (Leaf.runExtraction label chain handler req)) w with ⟨e, -, h⟩ | ⟨e, -, h⟩ <;> rw [h]
      · exact (List.append_nil _).symm
      · exact (List.append_nil _).symm
    · rcases gated_of_stop hg (Leaf.inExtractState captures capturedAll context
        (Leaf.runExtraction label chain handler req)) w with ⟨e, -, h⟩ | ⟨e, -, h⟩ <;> rw [h]

omit [HttpCrate] [MimeCrate] [Base64Crate] in
/-- A raw handler on the buffered body; an error of the body commits. -/
theorem untouched_buffered (label : Nat) {k : Bytes → RouteM World Response}
    (hk : ∀ body w, ∃ response, k body w = (.route response, w.record (.rawHandler label))) :
    Untouched (Leaf.buffered >>= k) := by
  have hlog : ∀ w, (Leaf.buffered w).2.log = w.log ++ [.buffer] := by
    intro w
    rcases h : w.bufferBody with ⟨_ | _, w'⟩ <;> rw [Leaf.buffered, h]
    · exact congrArg (World.log ∘ Prod.snd) h.symm
    · exact congrArg (World.log ∘ Prod.snd) h.symm
  refine ⟨fun w => ?_, fun w e he => ?_⟩
  · have hw := hlog w
    rcases hb : Leaf.buffered w with ⟨body | e | e, w'⟩ <;> rw [hb] at hw
    · obtain ⟨response, hresponse⟩ := hk body w'
      refine ⟨[.buffer, .rawHandler label], by simp [Event.IsCall], ?_⟩
      rw [bind_route hb, hresponse]
      show w'.log ++ [_] = _
      rw [hw, List.append_assoc]
      rfl
    · exact ⟨[.buffer], by simp [Event.IsCall], by rw [bind_fail hb]; exact hw⟩
    · exact ⟨[.buffer], by simp [Event.IsCall], by rw [bind_failFatal hb]; exact hw⟩
  · rcases hb : Leaf.buffered w with ⟨body | e' | e', w'⟩
    · obtain ⟨response, hresponse⟩ := hk body w'
      rw [bind_route hb, hresponse] at he
      cases he
    · exact absurd (congrArg Prod.fst hb) (Leaf.buffered_ne_fail w e')
    · rw [bind_failFatal hb] at he
      cases he

/-- **A leaf that does not apply has done nothing.** -/
theorem untouched_run (req : RequestData) (tail captures : List String)
    (capturedAll : Option (List String)) :
    ∀ leaf : Leaf, Untouched (leaf.run req tail captures capturedAll)
  | .endpoint label chain handler context =>
      untouched_callEndpoint label chain handler context req captures capturedAll
  | .raw label handler => untouched_buffered label fun body w => ⟨_, rfl⟩
  | .rawM label handler context => untouched_buffered label fun body w => by
      cases handler (.fromRequest req tail body) context with
      | ok response => exact ⟨_, rfl⟩
      | error e => exact ⟨_, rfl⟩
  | .guard g inner => by
      have ih := untouched_run req tail captures capturedAll inner
      show Untouched (ofResult (g.check req) >>= fun _ => inner.run req tail captures capturedAll)
      cases g.check req with
      | route t => exact ih
      | fail e => exact ⟨fun w => ⟨[], by simp, (List.append_nil _).symm⟩, fun _ _ _ => rfl⟩
      | failFatal e => exact ⟨fun w => ⟨[], by simp, (List.append_nil _).symm⟩, fun _ _ _ => rfl⟩

/-- A leaf called: the call is written down first. -/
theorem oneShot_call (req : RequestData) (leaf : Leaf) (tail captures : List String)
    (capturedAll : Option (List String)) :
    OneShot (· = .call leaf tail captures capturedAll)
      (Leaf.call leaf req tail captures capturedAll) := by
  intro w
  let w' := w.record (.call leaf tail captures capturedAll)
  have hrun := untouched_run req tail captures capturedAll leaf
  have hcall : Leaf.call leaf req tail captures capturedAll w
      = leaf.run req tail captures capturedAll w' := rfl
  obtain ⟨events, hev, hlog⟩ := hrun.log w'
  rw [hcall]
  rcases hr : leaf.run req tail captures capturedAll w' with ⟨t | e | e, w''⟩ <;> rw [hr] at hlog
  · refine ⟨[.call leaf tail captures capturedAll], events, ?_, by simp [Event.IsCall], hev, nofun⟩
    rw [hlog, ← List.append_assoc]
    rfl
  · have hw : w'' = w' := by
      have h := hrun.of_fail w' e (by rw [hr])
      rwa [hr] at h
    refine ⟨[.call leaf tail captures capturedAll], [], ?_, by simp [Event.IsCall], by simp,
      fun _ _ => rfl⟩
    rw [hw]
    rfl
  · refine ⟨[.call leaf tail captures capturedAll], events, ?_, by simp [Event.IsCall], hev, nofun⟩
    rw [hlog, ← List.append_assoc]
    rfl

end

/-! ### The captures of a call -/

/-- A pattern captures a segment for each of its captures. -/
theorem captures_length_of_match {merge : SlotMerge} {raw : Bool} :
    ∀ {parts : List PathPart} {segments : List String} {m : Matched},
      matchParts merge raw parts segments = some m → m.captures.length = parts.count .capture
  | [], segments, m, h => by
      rw [matchParts] at h
      split at h
      · cases h
        rfl
      · split at h
        · cases h
          rfl
        · cases h
  | .static segment :: parts, segments, m, h => by
      rcases RouterTree.isEmptyPath_cases segments with he | ⟨first, rest, rfl, he⟩
      · rw [matchParts_static_empty he] at h
        cases h
      · rw [matchParts_static_cons he] at h
        have hne : PathPart.static segment ≠ .capture := by simp
        rw [List.count_cons_of_ne hne]
        split at h
        · exact captures_length_of_match h
        · cases h
  | .capture :: parts, segments, m, h => by
      rcases RouterTree.isEmptyPath_cases segments with he | ⟨first, rest, rfl, he⟩
      · rw [matchParts_capture_empty he] at h
        cases h
      · rw [matchParts_capture_cons he] at h
        obtain ⟨m', hm', rfl⟩ := Option.map_eq_some_iff.mp h
        have ih := captures_length_of_match hm'
        rw [List.count_cons_self, ← ih]
        rfl
  | .captureAll :: parts, segments, m, h => by
      rw [matchParts_captureAll] at h
      obtain ⟨m', hm', rfl⟩ := Option.map_eq_some_iff.mp h
      have hne : PathPart.captureAll ≠ .capture := by simp
      have ih := captures_length_of_match hm'
      rw [List.count_cons_of_ne hne]
      exact ih

section

variable [AppTypes]

/-- The `Capture` combinators of a chain. -/
def Chain.captureCount : Chain → Nat
  | verb _ => 0
  | sub (.capture ..) next => next.captureCount + 1
  | sub _ next => next.captureCount

theorem Chain.count_parts : ∀ c : Chain, c.parts.count .capture = c.captureCount
  | verb _ => rfl
  | sub c next => by
      have ih := count_parts next
      cases c with
      | capture A data S name =>
          rw [parts, captureCount, List.count_cons_self, ih]
      | path segment =>
          have hne : PathPart.static segment ≠ .capture := by simp
          exact (List.count_cons_of_ne hne).trans ih
      | captureAll A data name =>
          have hne : PathPart.captureAll ≠ .capture := by simp
          exact (List.count_cons_of_ne hne).trans ih
      | _ => exact ih

variable [HttpCrate]

/-- A raw endpoint's leaf is not a typed one. -/
theorem RawChain.leaf_ne_endpoint {label label' : Nat} {context context' : Context} {chain : Chain}
    {handler' : chain.Args → Except ServerError chain.Output} :
    ∀ (c : RawChain) (handler : c.Handler),
      c.leaf label context handler ≠ .endpoint label' chain handler' context'
  | raw, _ => nofun
  | rawM, _ => nofun
  | sub (.host _) _, _ => nofun
  | sub (.path _) next, handler | sub (.fragment ..) next, handler
  | sub (.description _) next, handler | sub (.summary _) next, handler
  | sub (.operationId _) next, handler => leaf_ne_endpoint next handler

/-- A typed endpoint of an API has the pattern of its chain. -/
theorem pattern_of_mem_routes {context : Context} {route : Route} {label : Nat} {chain : Chain}
    {handler : chain.Args → Except ServerError chain.Output} {context' : Context}
    (hleaf : route.leaf = .endpoint label chain handler context') :
    ∀ api : Api, route ∈ api.routes context → route.pattern = chain.pattern
  | .endpoint _ _ _, hmem => by
      cases List.mem_singleton.mp hmem
      cases hleaf
      rfl
  | .raw _ c rawHandler, hmem => by
      cases List.mem_singleton.mp hmem
      exact absurd hleaf (c.leaf_ne_endpoint rawHandler)
  | .alt left right, hmem =>
      (List.mem_append.mp hmem).elim (pattern_of_mem_routes hleaf left)
        (pattern_of_mem_routes hleaf right)

variable [MimeCrate] [Base64Crate]

/-- A served router calls a leaf with what its endpoint's pattern finds, and is one-shot. -/
theorem oneShot_dispatch (api : Api) (context : Context) (segments : List String)
    (req : RequestData) :
    OneShot (fun e => ∃ route ∈ api.routes context, ∃ m,
        route.pattern.match? lastOnly segments = some m ∧
        e = .call route.leaf m.tail m.captures m.capturedAll)
      (dispatch Leaf.call (serveWithContext api context) segments [] none req) := by
  rw [dispatch_flat]
  refine OneShot.tryInOrder fun x hx => ?_
  obtain ⟨route, hmem, rfl⟩ := List.mem_map.mp hx
  rw [Route.attempt]
  cases hm : route.pattern.match? lastOnly segments with
  | none => exact .fail notFound
  | some m =>
      refine (oneShot_call req route.leaf m.tail m.captures m.capturedAll).mono ?_
      rintro e rfl
      exact ⟨route, hmem, m, hm, rfl⟩

/-- **The body is handed out once.**  In a dispatch every call of a leaf stands before everything
else, so one leaf at most touches the body and none is called after it.  A typed leaf is called
with as many captures as its chain has, and once it has validated them, extracting from them never
fails recoverably. -/
theorem body_handed_out_once (api : Api) (context : Context) (segments : List String)
    (req : RequestData) (w : World) :
    ∃ calls rest, (dispatch Leaf.call (serveWithContext api context) segments [] none req w).2.log
        = w.log ++ (calls ++ rest) ∧
      (∀ e ∈ calls, e.IsCall) ∧ (∀ e ∈ rest, ¬ e.IsCall) ∧
      ∀ label chain handler context' tail captures capturedAll,
        .call (.endpoint label chain handler context') tail captures capturedAll ∈ calls →
        captures.length = chain.captureCount ∧
        (chain.validateCaptures captures 0 capturedAll = .route () →
          ∀ st : ExtractState, st.captures = captures → st.capturedAll = capturedAll →
            ∀ e, (chain.extract req st).1 ≠ .fail e) := by
  obtain ⟨calls, rest, hlog, hcalls, hrest, -⟩ := oneShot_dispatch api context segments req w
  refine ⟨calls, rest, hlog, fun e he => (hcalls e he).1, hrest, ?_⟩
  intro label chain handler context' tail captures capturedAll hmem
  obtain ⟨route, hroute, m, hm, hcall⟩ := (hcalls _ hmem).2
  obtain ⟨hleaf, -, rfl, rfl⟩ := Event.call.inj hcall
  constructor
  · have hlen := captures_length_of_match hm
    rw [pattern_of_mem_routes hleaf.symm api hroute] at hlen
    exact hlen.trans chain.count_parts
  · intro hv st hcaptures hall
    exact extract_ne_fail req _ _ chain 0 hv st ⟨hcaptures, .inl hall⟩

end

end ServantRs
