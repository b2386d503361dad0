import ServantRs.Phases.Auth
import ServantRs.Routing.Flat

/-!
# Routing — the handler that answers

However many endpoints are tried for a request, one handler is called at most.  When one is, it is
the last thing that is done, and the response is its answer to this request; when none is, the
result is an error (`dispatch_decided`).
-/

namespace ServantRs

open RouteM ExtractState

variable [AppTypes]

/-! ### Answers -/

/-- A handler is called. -/
def Event.IsHandler : Event → Prop
  | handler .. | rawHandler _ => True
  | _                         => False

/-- The response to a raw handler's result. -/
def Leaf.rawAnswer : Except ServerError Response → Response
  | .ok response => response
  | .error e     => errorResponse e

/-- The response to a handler's result. -/
def Leaf.answer [HttpCrate] (c : Chain) (req : RequestData) :
    Except ServerError c.Output → Response
  | .ok out =>
    let (status, mime, body, extraHeaders) := c.terminal.render req.accept out
    buildResponse (status, mime, if req.isHead then .full [] else body, extraHeaders)
  | .error e => errorResponse e

/-- A response is the answer of the handler that a leaf has called. -/
inductive Leaf.Answers [HttpCrate] (req : RequestData) (tail : List String) :
    Leaf → Event → Response → Prop
  | endpoint (label : Nat) (chain : Chain)
      (handler : chain.Args → Except ServerError chain.Output) (context : Context)
      (args : chain.Args) :
      Answers req tail (.endpoint label chain handler context) (.handler label chain args)
        (answer chain req (handler args))
  | raw (label : Nat) (handler : RawRequest → Response) (body : Bytes) :
      Answers req tail (.raw label handler) (.rawHandler label)
        (handler (.fromRequest req tail body))
  | rawM (label : Nat) (handler : RawRequest → Context → Except ServerError Response)
      (context : Context) (body : Bytes) :
      Answers req tail (.rawM label handler context) (.rawHandler label)
        (rawAnswer (handler (.fromRequest req tail body) context))
  | guard (g : HostGuard) {inner : Leaf} {e : Event} {resp : Response}
      (h : Answers req tail inner e resp) : Answers req tail (.guard g inner) e resp

/-! ### Decisions -/

section

variable {A A' : Event → Response → Prop} {events before : List Event}
  {result : RouteResult Response}

/-- What has been done goes with the result: a handler was called, last, and the response is its
answer; or none was, and there is an error. -/
inductive Decided (A : Event → Response → Prop) : List Event → RouteResult Response → Prop
  | ran {before : List Event} {e : Event} {resp : Response} (h : ∀ e ∈ before, ¬ e.IsHandler)
      (he : e.IsHandler) (ha : A e resp) : Decided A (before ++ [e]) (.route resp)
  | fail {events : List Event} {err : ServerError} (h : ∀ e ∈ events, ¬ e.IsHandler) :
      Decided A events (.fail err)
  | failFatal {events : List Event} {err : ServerError} (h : ∀ e ∈ events, ¬ e.IsHandler) :
      Decided A events (.failFatal err)

namespace Decided

theorem one {e : Event} {resp : Response} (he : e.IsHandler) (ha : A e resp) :
    Decided A [e] (.route resp) := by
  have hran : Decided A ([] ++ [e]) (.route resp) := .ran (by simp) he ha
  exact hran

theorem after (h : Decided A events result) (hbefore : ∀ e ∈ before, ¬ e.IsHandler) :
    Decided A (before ++ events) result := by
  have hboth : ∀ {events' : List Event}, (∀ e ∈ events', ¬ e.IsHandler) →
      ∀ e ∈ before ++ events', ¬ e.IsHandler := by
    intro events' hevents e he
    exact (List.mem_append.mp he).elim (hbefore e) (hevents e)
  cases h with
  | ran h he ha =>
      rw [← List.append_assoc]
      exact .ran (hboth h) he ha
  | fail h => exact .fail (hboth h)
  | failFatal h => exact .failFatal (hboth h)

theorem mono (h : Decided A events result) (hA : ∀ e resp, A e resp → A' e resp) :
    Decided A' events result := by
  cases h with
  | ran h he ha => exact .ran h he (hA _ _ ha)
  | fail h => exact .fail h
  | failFatal h => exact .failFatal h

end Decided

/-- A computation that decides. -/
def RouteM.Decides (A : Event → Response → Prop) (x : RouteM World Response) : Prop :=
  ∀ w, ∃ events, (x w).2.log = w.log ++ events ∧ Decided A events (x w).1

namespace RouteM.Decides

variable {x y : RouteM World Response}

theorem mono (h : x.Decides A) (hA : ∀ e resp, A e resp → A' e resp) : x.Decides A' := by
  intro w
  obtain ⟨events, hlog, hd⟩ := h w
  exact ⟨events, hlog, hd.mono hA⟩

theorem fail (err : ServerError) : (RouteM.fail err : RouteM World Response).Decides A := by
  intro w
  exact ⟨[], (List.append_nil _).symm, .fail fun _ he => absurd he List.not_mem_nil⟩

/-- After an error the other computation decides. -/
theorem orElse (hx : x.Decides A) (hy : y.Decides A) : (x.orElse y).Decides A := by
  intro w
  obtain ⟨events, hlog, hd⟩ := hx w
  rcases hxw : x w with ⟨t | e | e, w'⟩ <;> rw [hxw] at hlog hd
  · exact ⟨events, by rw [RouteM.orElse, hxw]; exact hlog, by rw [RouteM.orElse, hxw]; exact hd⟩
  · obtain ⟨more, hmore, hd'⟩ := hy w'
    have hnone : ∀ e ∈ events, ¬ e.IsHandler := by
      cases hd with
      | fail h => exact h
    refine ⟨events ++ more, ?_, ?_⟩
    · rw [RouteM.snd_orElse_of_fail hxw, hmore, hlog, List.append_assoc]
    · rcases hyw : y w' with ⟨t | e' | e', w''⟩ <;> rw [hyw] at hd' <;>
        simp only [RouteM.orElse, hxw, hyw]
      · exact hd'.after hnone
      · cases hd' with
        | fail h => exact (Decided.fail h).after hnone
      · exact hd'.after hnone
  · exact ⟨events, by rw [RouteM.orElse, hxw]; exact hlog, by rw [RouteM.orElse, hxw]; exact hd⟩

theorem tryInOrder {xs : List (RouteM World Response)} (h : ∀ x ∈ xs, x.Decides A) :
    (ServantRs.tryInOrder xs []).Decides A := by
  rw [tryInOrder_eq_foldr]
  induction xs with
  | nil => exact fail notFound
  | cons x xs ih =>
      obtain ⟨hx, hxs⟩ := List.forall_mem_cons.mp h
      exact hx.orElse (ih hxs)

end RouteM.Decides

end

/-! ### Leaves -/

section

variable [HttpCrate]

/-- The handler's answer, written down. -/
theorem Leaf.runHandler_eq {c : Chain} {args : c.Args} (label : Nat)
    (handler : c.Args → Except ServerError c.Output) (req : RequestData) (st : ExtractState) :
    Leaf.runHandler label c handler req args st
      = (.route (Leaf.answer c req (handler args)), st.record (.handler label c args)) := by
  have hrec : RouteM.modify (·.record (.handler label c args)) st
      = (.route (), st.record (.handler label c args)) := rfl
  rw [Leaf.runHandler, bind_route hrec]
  cases handler args with
  | ok out => rfl
  | error e => rfl

omit [HttpCrate] in
theorem Event.not_isHandler_of_isBody {e : Event} (h : e.IsBody) : ¬ e.IsHandler := by
  cases e with
  | buffer | take => exact id
  | call | check | handler | rawHandler => exact h.elim

/-- A computation that decides, from a state of the extraction. -/
def DecidesAt (A : Event → Response → Prop) (x : RouteM ExtractState Response)
    (st : ExtractState) : Prop :=
  ∃ events, (x st).2.world.log = st.world.log ++ events ∧ Decided A events (x st).1

omit [HttpCrate] in
/-- After a step that handles the body at most. -/
theorem DecidesAt.seq {T : Type} {A : Event → Response → Prop} {get : RouteM ExtractState T}
    {k : T → RouteM ExtractState Response} {st : ExtractState} (hget : BodyEventsOnly get st)
    (hk : ∀ t st', get st = (.route t, st') → DecidesAt A (k t) st') :
    DecidesAt A (get >>= k) st := by
  obtain ⟨body, hbody, hlog⟩ := hget
  have hquiet : ∀ e ∈ body, ¬ e.IsHandler := fun e he =>
    Event.not_isHandler_of_isBody (hbody e he)
  rcases hx : get st with ⟨t | e | e, st'⟩ <;> rw [hx] at hlog
  · obtain ⟨events, hlog', hd⟩ := hk t st' hx
    refine ⟨body ++ events, ?_, ?_⟩
    · rw [bind_route hx, hlog', hlog, List.append_assoc]
    · rw [bind_route hx]
      exact hd.after hquiet
  · exact ⟨body, by rw [bind_fail hx]; exact hlog, by rw [bind_fail hx]; exact .fail hquiet⟩
  · exact ⟨body, by rw [bind_failFatal hx]; exact hlog,
      by rw [bind_failFatal hx]; exact .failFatal hquiet⟩

variable [MimeCrate] [Base64Crate] {req : RequestData} {label : Nat} {chain : Chain}
  {handler : chain.Args → Except ServerError chain.Output} {context : Context}
  {tail captures : List String} {capturedAll : Option (List String)}

/-- **The phases from authentication on decide.** -/
theorem runExtraction_decides {st : ExtractState} (hst : st.prechecked = []) :
    DecidesAt (Leaf.Answers req tail (.endpoint label chain handler context))
      (Leaf.runExtraction label chain handler req) st := by
  rw [runExtraction_eq]
  rcases preBodyCheck_spec req chain st with
    ⟨users, hv, hpre⟩ | ⟨e, checks, st', -, -, hpre, hst'⟩
  · -- the checks, then the body, the arguments and the handler
    rw [hst, List.nil_append] at hpre
    let st₁ : ExtractState := { st with
      prechecked := users
      world := st.world.extend ((chain.authSites st.contexts).map fun s => .check s.position) }
    have hrest : DecidesAt (Leaf.Answers req tail (.endpoint label chain handler context))
        (Leaf.bodyStep chain >>= fun _ => chain.extract req >>= fun args =>
          Leaf.runHandler label chain handler req args) st₁ := by
      refine .seq ((plainStep_bodyStep chain).log st₁) fun _ st₂ hbody => ?_
      have hp := (plainStep_bodyStep chain).prechecked st₁
      rw [hbody] at hp
      have hv₂ : (chain.authSites st.contexts).map (·.verdict req) = st₂.prechecked.map .ok := by
        rw [hp]
        exact hv
      refine .seq (extract_spec chain st.contexts _ st₂ hv₂ rfl).log fun args st₃ _ => ?_
      refine ⟨[.handler label chain args], ?_, ?_⟩
      · rw [Leaf.runHandler_eq]
        rfl
      · rw [Leaf.runHandler_eq]
        exact .one trivial (.endpoint label chain handler context args)
    obtain ⟨events, hlog, hd⟩ := hrest
    refine ⟨((chain.authSites st.contexts).map fun s => .check s.position) ++ events, ?_, ?_⟩
    · rw [bind_route hpre, hlog, ← List.append_assoc]
      rfl
    · rw [bind_route hpre]
      refine hd.after fun e he => ?_
      obtain ⟨site, -, rfl⟩ := List.mem_map.mp he
      exact id
  · refine ⟨checks.map .check, ?_, ?_⟩
    · rw [bind_failFatal hpre]
      show st'.world.log = _
      rw [hst', World.log_extend]
    · rw [bind_failFatal hpre]
      refine .failFatal fun e he => ?_
      obtain ⟨position, -, rfl⟩ := List.mem_map.mp he
      exact id

omit [HttpCrate] [MimeCrate] [Base64Crate] in
/-- A body that is buffered, then a raw handler. -/
theorem buffered_decides {A : Event → Response → Prop} {answer : Bytes → Response}
    {k : Bytes → RouteM World Response}
    (hk : ∀ body w, k body w = (.route (answer body), w.record (.rawHandler label)))
    (hA : ∀ body, A (.rawHandler label) (answer body)) : (Leaf.buffered >>= k).Decides A := by
  intro w
  have hlog : (Leaf.buffered w).2.log = w.log ++ [.buffer] := by
    rcases h : w.bufferBody with ⟨_ | _, w'⟩ <;> rw [Leaf.buffered, h]
    · exact congrArg (World.log ∘ Prod.snd) h.symm
    · exact congrArg (World.log ∘ Prod.snd) h.symm
  have hquiet : ∀ e ∈ [Event.buffer], ¬ e.IsHandler := by
    intro e he
    rw [List.mem_singleton.mp he]
    exact id
  rcases hb : Leaf.buffered w with ⟨body | e | e, w'⟩ <;> rw [hb] at hlog
  · refine ⟨[.buffer] ++ [.rawHandler label], ?_, ?_⟩
    · rw [bind_route hb, hk, ← List.append_assoc, ← hlog]
      rfl
    · rw [bind_route hb, hk]
      exact .ran hquiet trivial (hA body)
  · exact ⟨[.buffer], by rw [bind_fail hb]; exact hlog, by rw [bind_fail hb]; exact .fail hquiet⟩
  · exact ⟨[.buffer], by rw [bind_failFatal hb]; exact hlog,
      by rw [bind_failFatal hb]; exact .failFatal hquiet⟩

/-- **A leaf decides.** -/
theorem Leaf.run_decides : ∀ leaf : Leaf,
    (leaf.run req tail captures capturedAll).Decides (Leaf.Answers req tail leaf)
  | .endpoint label chain handler context => by
      show (Leaf.callEndpoint label chain handler context req captures capturedAll).Decides _
      rw [callEndpoint_eq]
      intro w
      by_cases hg : ∀ r ∈ Leaf.gates chain req captures capturedAll, r = .route ()
      · rw [gated_of_pass hg]
        exact @runExtraction_decides _ _ _ _ req label chain handler context tail
          (.new captures capturedAll context w) rfl
      · rcases gated_of_stop hg (Leaf.inExtractState captures capturedAll context
          (Leaf.runExtraction label chain handler req)) w with ⟨e, -, h⟩ | ⟨e, -, h⟩ <;> rw [h]
        · exact ⟨[], (List.append_nil _).symm, .fail (by simp)⟩
        · exact ⟨[], (List.append_nil _).symm, .failFatal (by simp)⟩
  | .raw label handler => buffered_decides (fun _ _ => rfl) fun body => .raw label handler body
  | .rawM label handler context => by
      refine buffered_decides (fun body w => ?_) fun body => .rawM label handler context body
      show RouteM.bind _ _ w = _
      cases hresult : handler (.fromRequest req tail body) context with
      | ok response => rfl
      | error e => rfl
  | .guard g inner => by
      have ih := run_decides inner
      intro w
      show ∃ events, ((ofResult (g.check req) >>= fun _ =>
        inner.run req tail captures capturedAll) w).2.log = _ ∧ Decided _ events
          ((ofResult (g.check req) >>= fun _ => inner.run req tail captures capturedAll) w).1
      rcases g.check_cases req with h | h <;> rw [h]
      · obtain ⟨events, hlog, hd⟩ := ih w
        exact ⟨events, hlog, hd.mono fun _ _ => .guard g⟩
      · exact ⟨[], (List.append_nil _).symm, .fail (by simp)⟩

end

/-! ### Dispatch -/

section

variable [HttpCrate] [MimeCrate] [Base64Crate]

/-- A handler of the API that was called on this request: its endpoint's path is the request's, and
the response is its answer. -/
def Api.Answers (api : Api) (context : Context) (segments : List String) (req : RequestData)
    (e : Event) (resp : Response) : Prop :=
  ∃ route ∈ api.routes context, ∃ m, route.pattern.match? lastOnly segments = some m ∧
    route.leaf.Answers req m.tail e resp

theorem Route.attempt_decides {segments : List String} {req : RequestData} (route : Route) :
    (route.attempt lastOnly Leaf.call segments req).Decides fun e resp =>
      ∃ m, route.pattern.match? lastOnly segments = some m ∧
        route.leaf.Answers req m.tail e resp := by
  rw [Route.attempt]
  cases hm : route.pattern.match? lastOnly segments with
  | none => exact .fail notFound
  | some m =>
      intro w
      obtain ⟨events, hlog, hd⟩ := (@Leaf.run_decides _ _ _ _ req m.tail m.captures m.capturedAll
        route.leaf) (w.record (.call route.leaf m.tail m.captures m.capturedAll))
      refine ⟨[.call route.leaf m.tail m.captures m.capturedAll] ++ events, ?_, ?_⟩
      · rw [← List.append_assoc]
        exact hlog
      · refine (hd.mono fun e resp h => ⟨m, rfl, h⟩).after fun e he => ?_
        rw [List.mem_singleton.mp he]
        exact id

/-- **One handler is called at most, and the response is its answer.**  Of all the endpoints that a
request is tried on, one alone comes to call its handler: that is the last thing that is done, and
the dispatch ends in the handler's answer.  Otherwise no handler is called, and it ends in an
error. -/
theorem dispatch_decided (api : Api) (context : Context) (segments : List String)
    (req : RequestData) (w : World) :
    ∃ events,
      (dispatch Leaf.call (serveWithContext api context) segments [] none req w).2.log
        = w.log ++ events ∧
      Decided (api.Answers context segments req) events
        (dispatch Leaf.call (serveWithContext api context) segments [] none req w).1 := by
  have hdecides : (tryInOrder ((api.routes context).map
      (Route.attempt lastOnly Leaf.call segments req)) []).Decides
        (api.Answers context segments req) := by
    refine .tryInOrder fun x hx => ?_
    obtain ⟨route, hroute, rfl⟩ := List.mem_map.mp hx
    exact route.attempt_decides.mono fun e resp h => ⟨route, hroute, h⟩
  rw [dispatch_flat]
  exact hdecides w

end

end ServantRs
