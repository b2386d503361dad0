import ServantRs.Phases.Blind
import ServantRs.Phases.Order
import ServantRs.Phases.Silent
import ServantRs.Routing.OneShot
import ServantRs.Server.Adapter
import ServantRs.Support.Bytes

/-!
# Routing — responses to `HEAD`

A response to `HEAD` should have no body.  The leaf drops the body of a handler's answer; an error
keeps the one it has, whether a handler returned it, extraction did, or no route recovered from it.

* `HeadSilent`: what an API and a request have to be like, in terms of the demands of its endpoints.
* `head_body_iff`: the response of a typed API to a `HEAD` request has no body exactly then.
-/

namespace ServantRs

open RouteM ExtractState

theorem RouteM.bind_assoc {σ : Type*} {T U V : Type} (x : RouteM σ T) (k : T → RouteM σ U)
    (k' : U → RouteM σ V) : (x >>= k) >>= k' = x >>= fun t => k t >>= k' := by
  funext s
  rcases hx : x s with ⟨t | e | e, s'⟩
  · rw [bind_route hx]
    rcases hk : k t s' with ⟨u | e | e, s''⟩
    · rw [bind_route ((bind_route hx).trans hk), bind_route hk]
    · rw [bind_fail ((bind_route hx).trans hk), bind_fail hk]
    · rw [bind_failFatal ((bind_route hx).trans hk), bind_failFatal hk]
  · rw [bind_fail hx, bind_fail (bind_fail hx)]
  · rw [bind_failFatal hx, bind_failFatal (bind_failFatal hx)]

/-- A route that answers after one that did not apply. -/
theorem RouteM.orElse_of_fail {σ : Type*} {T : Type} {x y : RouteM σ T} {s s' : σ}
    {e : ServerError} (hx : x s = (.fail e, s')) (hy : ∀ e, (y s').1 ≠ .fail e) :
    x.orElse y s = y s' := by
  rw [orElse, hx]
  rcases hys : y s' with ⟨t | e' | e', s''⟩
  · simp only [hys]
  · exact absurd (congrArg Prod.fst hys) (hy e')
  · simp only [hys]

theorem RouteM.orElse_of_fail_fail {σ : Type*} {T : Type} {x y : RouteM σ T} {s s' : σ}
    {e e' : ServerError} (hx : x s = (.fail e, s')) (hy : (y s').1 = .fail e') :
    (x.orElse y s).1 = .fail (combineFail (some e) e') := by
  rw [orElse, hx]
  rcases hys : y s' with ⟨t | e'' | e'', s''⟩ <;> rw [hys] at hy
  · cases hy
  · obtain rfl := RouteResult.fail.inj hy
    simp only [hys]
  · cases hy

/-! ### The endpoints of a path -/

section

variable [AppTypes]

/-- An API of typed endpoints only. -/
def Api.Typed : Api → Prop
  | endpoint ..    => True
  | raw ..         => False
  | alt left right => left.Typed ∧ right.Typed

/-- A typed endpoint whose pattern matches a path, with what it finds there. -/
structure Attempt where
  label : Nat
  chain : Chain
  handler : chain.Args → Except ServerError chain.Output
  tail : List String
  captures : List String
  capturedAll : Option (List String)

/-- The typed endpoints that match a path, from left to right. -/
def Api.attempts (segments : List String) : Api → List Attempt
  | endpoint label chain handler => ((chain.pattern.match? lastOnly segments).map fun m =>
      ⟨label, chain, handler, m.tail, m.captures, m.capturedAll⟩).toList
  | raw .. => []
  | alt left right => left.attempts segments ++ right.attempts segments

namespace Attempt

variable [HttpCrate] [MimeCrate] [Base64Crate] (a : Attempt) (context : Context)
  (req : RequestData)

/-- Every capture parses. -/
def Parses : Prop := a.chain.validateCaptures a.captures 0 a.capturedAll = .route ()

/-- Captures, host, method and media types let the request through. -/
def Applies : Prop := ∀ r ∈ Leaf.gates a.chain req a.captures a.capturedAll, r = .route ()

instance : Decidable (a.Applies req) :=
  inferInstanceAs (Decidable (∀ r ∈ Leaf.gates a.chain req a.captures a.capturedAll, r = .route ()))

/-- The request gives what the endpoint asks for and the handler has no error with a body, or what
it lacks first is refused without a text. -/
def Silent (body : List BodyEvent) (limit : Nat) : Prop :=
  a.chain.SilentOn context req a.captures a.capturedAll body limit fun args =>
    ∀ e, a.handler args = .error e → e.body = []

def call : RouteM World Response :=
  Leaf.call (.endpoint a.label a.chain a.handler context) req a.tail a.captures a.capturedAll

end Attempt

section

variable [HttpCrate] [MimeCrate] [Base64Crate]

/-- The first endpoint that applies is silent; if none applies, the captures of all that match the
path parse. -/
def HeadSilent (api : Api) (context : Context) (segments : List String) (req : RequestData)
    (body : List BodyEvent) (limit : Nat) : Prop :=
  match (api.attempts segments).find? (·.Applies req) with
  | some a => a.Silent context req body limit
  | none   => ∀ a ∈ api.attempts segments, a.Parses

/-- A served API of typed endpoints tries those that match the path. -/
theorem serveFlat_attempts {context : Context} {segments : List String} {req : RequestData} :
    ∀ {api : Api}, api.Typed → serveFlat lastOnly Leaf.call api context segments req
      = tryInOrder ((api.attempts segments).map (·.call context req)) []
  | .endpoint label chain handler, _ => by
      rw [serveFlat, Api.routes, List.map_singleton, tryInOrder_singleton, Route.attempt,
        Api.attempts]
      cases chain.pattern.match? lastOnly segments with
      | none => rfl
      | some m => exact (tryInOrder_singleton _).symm
  | .raw .., h => h.elim
  | .alt left right, h => by
      have hright : ∀ y ∈ (right.routes context).map
          (Route.attempt lastOnly Leaf.call segments req), y.Canonical := by
        intro y hy
        obtain ⟨route, -, rfl⟩ := List.mem_map.mp hy
        rw [Route.attempt]
        split
        · exact Leaf.canonical_call _ _ _ _ _
        · exact canonical_fail_notFound
      have hattempts : ∀ y ∈ (right.attempts segments).map (·.call context req), y.Canonical := by
        intro y hy
        obtain ⟨a, -, rfl⟩ := List.mem_map.mp hy
        exact Leaf.canonical_call _ _ _ _ _
      rw [serveFlat, Api.routes, List.map_append, tryInOrder_append hright, Api.attempts,
        List.map_append, tryInOrder_append hattempts]
      exact congrArg₂ RouteM.orElse (serveFlat_attempts h.1) (serveFlat_attempts h.2)

/-! ### Errors of endpoints that do not apply -/

omit [AppTypes] [HttpCrate] [MimeCrate] [Base64Crate] in
theorem priority_lt {n : Nat} (h : n ≠ 400) : priority n < 6 := by
  unfold priority
  split <;> omega

/-- A bad request has a body, another error none. -/
def Graded (e : ServerError) : Prop := e.code = 400 ↔ e.body ≠ []

omit [AppTypes] [HttpCrate] [MimeCrate] [Base64Crate] in
/-- Of two errors the one kept has no body when neither has. -/
theorem combineFail_graded {b new : ServerError} (hb : Graded b) (hn : Graded new) :
    Graded (combineFail (some b) new) ∧
      ((combineFail (some b) new).body = [] ↔ b.body = [] ∧ new.body = []) := by
  rw [combineFail]
  by_cases hb400 : b.code = 400
  · have hbody : b.body ≠ [] := hb.mp hb400
    have hle : ¬ priority b.code < priority new.code := by
      have htop : priority b.code = 6 := by rw [hb400, priority]
      by_cases hn400 : new.code = 400
      · rw [hb400, hn400]
        exact Nat.lt_irrefl _
      · exact Nat.not_lt.mpr (htop ▸ Nat.le_of_lt (priority_lt hn400))
    rw [if_neg hle]
    exact ⟨hb, fun h => absurd h hbody, fun h => absurd h.1 hbody⟩
  · have hbody : b.body = [] := not_not.mp (mt hb.mpr hb400)
    by_cases hn400 : new.code = 400
    · have hlt : priority b.code < priority new.code := by
        rw [hn400]
        exact priority_lt hb400
      rw [if_pos hlt]
      exact ⟨hn, fun h => ⟨hbody, h⟩, fun h => h.2⟩
    · have hnbody : new.body = [] := not_not.mp (mt hn.mpr hn400)
      split
      · exact ⟨hn, fun h => ⟨hbody, h⟩, fun h => h.2⟩
      · exact ⟨hb, fun h => ⟨h, hnbody⟩, fun h => h.1⟩

omit [HttpCrate] [MimeCrate] [Base64Crate] in
/-- A capture that is there either parses or is a bad request. -/
theorem Chain.validateCaptures_eq : ∀ (c : Chain) (caps : List String) (idx : Nat)
    (ca : Option (List String)), idx + c.captureCount ≤ caps.length →
      c.validateCaptures caps idx ca = .route () ∨
        ∃ text, c.validateCaptures caps idx ca
          = .fail (badRequest ("could not parse capture" ++ text))
  | verb _, _, _, _, _ => .inl rfl
  | sub c next, caps, idx, ca, hlen => by
      have ih := validateCaptures_eq next
      by_cases hc : c.IsCapture
      · cases c with
        | capture A data S name =>
            rw [captureCount] at hlen
            have hseg : caps[idx]? = some caps[idx] := List.getElem?_eq_getElem (by omega)
            rw [validateCaptures_capture, hseg, captureResult]
            cases CaptureShape.build S (data.fromUrlPiece caps[idx]) with
            | ok out => exact ih caps (idx + 1) ca (by omega)
            | error e =>
                refine .inr ⟨" `" ++ name ++ "`: " ++ e.message, ?_⟩
                simp only [RouteResult.andThen, captureError, ← String.append_assoc]
                rfl
        | captureAll A data name =>
            rw [validateCaptures_captureAll, captureAllResult]
            cases parseSegments data (ca.getD []) with
            | ok out => exact ih caps idx ca hlen
            | error e =>
                refine .inr ⟨"-all `" ++ name ++ "`: " ++ e.message, ?_⟩
                simp only [RouteResult.andThen, captureAllError, ← String.append_assoc]
                rfl
        | _ => exact hc.elim
      · have hcount : (sub c next).captureCount = next.captureCount := by
          cases c <;> first | rfl | exact absurd trivial hc
        rw [validateCaptures_other hc]
        rw [hcount] at hlen
        exact ih caps idx ca hlen

omit [MimeCrate] [Base64Crate] in
theorem Chain.hostCheck_eq (req : RequestData) : ∀ c : Chain,
    c.hostCheck req = .route () ∨ c.hostCheck req = .fail .err404
  | verb _ => .inl rfl
  | sub c next => by
      have ih := hostCheck_eq req next
      cases c with
      | host name =>
          rw [hostCheck]
          cases HostRequirement.parse name with
          | none => exact .inr rfl
          | some required =>
              dsimp only
              cases req.hostAuthority with
              | none => exact .inr rfl
              | some authority =>
                  dsimp only
                  split
                  · exact ih
                  · exact .inr rfl
      | _ => exact ih

omit [AppTypes] [HttpCrate] [MimeCrate] [Base64Crate] in
theorem Leaf.require_eq (b : Bool) (e : ServerError) :
    Leaf.require b e = .route () ∨ Leaf.require b e = .fail e := by
  cases b with
  | true => exact .inl rfl
  | false => exact .inr rfl

omit [Base64Crate] in
/-- Behind the captures, a gate lets through or fails with an error that has no body. -/
theorem gates_tail (chain : Chain) (req : RequestData) (captures : List String)
    (capturedAll : Option (List String)) :
    ∀ r ∈ (Leaf.gates chain req captures capturedAll).tail,
      r = .route () ∨ ∃ e, r = .fail e ∧ e.code ≠ 400 ∧ e.body = [] := by
  have hplain : ∀ {r : RouteResult Unit} {e : ServerError}, r = .route () ∨ r = .fail e →
      e.code ≠ 400 ∧ e.body = [] →
        r = .route () ∨ ∃ e, r = .fail e ∧ e.code ≠ 400 ∧ e.body = [] :=
    fun h he => h.imp_right fun hfail => ⟨_, hfail, he⟩
  intro r hr
  simp only [Leaf.gates, List.tail_cons, List.mem_cons, List.not_mem_nil, or_false] at hr
  rcases hr with rfl | rfl | rfl | rfl
  · exact hplain (chain.hostCheck_eq req) ⟨by decide, rfl⟩
  · exact hplain (Leaf.require_eq _ _) ⟨by decide, rfl⟩
  · exact hplain (chain.acceptCheck_eq req.accept) ⟨by decide, rfl⟩
  · exact hplain (Leaf.require_eq _ _) ⟨by decide, rfl⟩

namespace Attempt

variable {a : Attempt} (context : Context) {req : RequestData}

/-- An endpoint that does not apply does nothing; its error has a body when a capture does not
parse. -/
theorem call_of_not_applies (hlen : a.chain.captureCount ≤ a.captures.length)
    (h : ¬ a.Applies req) (w : World) :
    ∃ e w', a.call context req w = (.fail e, w') ∧ w'.body = w.body ∧ Graded e ∧
      (e.body = [] ↔ a.Parses) := by
  let w' := w.record (.call (.endpoint a.label a.chain a.handler context) a.tail a.captures
    a.capturedAll)
  let x := Leaf.inExtractState a.captures a.capturedAll context
    (Leaf.runExtraction a.label a.chain a.handler req)
  have hcall : a.call context req w
      = gated (Leaf.gates a.chain req a.captures a.capturedAll) x w' := call_endpoint_eq w
  have hcons : Leaf.gates a.chain req a.captures a.capturedAll
      = a.chain.validateCaptures a.captures 0 a.capturedAll
        :: (Leaf.gates a.chain req a.captures a.capturedAll).tail := rfl
  rw [Applies, hcons, List.forall_mem_cons, not_and] at h
  rcases a.chain.validateCaptures_eq a.captures 0 a.capturedAll (by omega) with hv | ⟨text, hv⟩
  · have hstep : a.call context req w
        = gated (Leaf.gates a.chain req a.captures a.capturedAll).tail x w' := by
      rw [hcall, hcons, hv]
      rfl
    have htail := gates_tail a.chain req a.captures a.capturedAll
    rcases gated_of_stop (h hv) x w' with ⟨e, hmem, hstop⟩ | ⟨e, hmem, -⟩
    · rcases htail _ hmem with hr | ⟨e', he', hcode, hbody⟩
      · cases hr
      · obtain rfl := RouteResult.fail.inj he'
        refine ⟨e, w', hstep.trans hstop, rfl,
          ⟨fun he => absurd he hcode, fun he => absurd hbody he⟩, fun _ => hv, fun _ => hbody⟩
    · rcases htail _ hmem with hr | ⟨e', he', -⟩
      · cases hr
      · cases he'
  · have hne : utf8Bytes ("could not parse capture" ++ text) ≠ [] := by
      rw [utf8Bytes_append]
      exact List.append_ne_nil_of_left_ne_nil (by decide) _
    have hstep : a.call context req w
        = (.fail (badRequest ("could not parse capture" ++ text)), w') := by
      rw [hcall, hcons, hv]
      rfl
    refine ⟨_, w', hstep, rfl, ⟨fun _ => hne, fun _ => rfl⟩, fun he => absurd he hne, fun hp => ?_⟩
    rw [Parses, hv] at hp
    cases hp

/-- An endpoint that applies is not passed over. -/
theorem call_of_applies (h : a.Applies req) (w : World) :
    (a.call context req w).1 = (Leaf.runExtraction a.label a.chain a.handler req
        (.new a.captures a.capturedAll context ⟨w.body, []⟩)).1 ∧
      ∀ e, (a.call context req w).1 ≠ .fail e := by
  let w' := w.record (.call (.endpoint a.label a.chain a.handler context) a.tail a.captures
    a.capturedAll)
  have hcall : (a.call context req w).1 = (Leaf.runExtraction a.label a.chain a.handler req
      (.new a.captures a.capturedAll context w')).1 := by
    have heq : a.call context req w = gated (Leaf.gates a.chain req a.captures a.capturedAll)
        (Leaf.inExtractState a.captures a.capturedAll context
          (Leaf.runExtraction a.label a.chain a.handler req)) w' := call_endpoint_eq w
    rw [heq, gated_of_pass h]
    rfl
  have hv : a.chain.validateCaptures a.captures 0 a.capturedAll = .route () :=
    h _ List.mem_cons_self
  refine ⟨?_, fun e => ?_⟩
  · obtain ⟨log', hlog⟩ := LogBlind.runExtraction req a.label a.chain a.handler
      (.new a.captures a.capturedAll context ⟨w.body, []⟩) w'.log
    have hst := congrArg Prod.fst hlog
    exact hcall.trans hst
  · rw [hcall]
    exact runExtraction_ne_fail hv w' e

end Attempt

/-! ### The endpoints tried in order -/

variable (context : Context) {req : RequestData}

/-- The first endpoint that applies is the one that answers. -/
theorem tryInOrder_attempts_of_applies {a : Attempt} : ∀ {attempts : List Attempt},
    (∀ b ∈ attempts, b.chain.captureCount ≤ b.captures.length) →
    attempts.find? (·.Applies req) = some a → ∀ w : World,
      (tryInOrder (attempts.map (·.call context req)) [] w).1
        = (Leaf.runExtraction a.label a.chain a.handler req
            (.new a.captures a.capturedAll context ⟨w.body, []⟩)).1
  | [], _, h, _ => by cases h
  | b :: attempts, hlen, h, w => by
      obtain ⟨hb, hlen⟩ := List.forall_mem_cons.mp hlen
      rw [List.map_cons, tryInOrder_eq_foldr, List.foldr_cons, ← tryInOrder_eq_foldr]
      by_cases happ : b.Applies req
      · rw [List.find?_cons_of_pos (by simpa using happ)] at h
        obtain rfl := Option.some.inj h
        obtain ⟨hrun, hne⟩ := Attempt.call_of_applies context happ w
        rw [← hrun, orElse]
        rcases hc : b.call context req w with ⟨t | e | e, w'⟩
        · rfl
        · exact absurd (congrArg Prod.fst hc) (hne e)
        · rfl
      · rw [List.find?_cons_of_neg (by simpa using happ)] at h
        obtain ⟨e, w', hcall, hbody, -⟩ := Attempt.call_of_not_applies context hb happ w
        have ih := tryInOrder_attempts_of_applies hlen h w'
        rw [hbody] at ih
        have happlies : a.Applies req := by simpa using List.find?_some h
        have hne := (Attempt.call_of_applies context happlies w).2
        rw [(Attempt.call_of_applies context happlies w).1] at hne
        rw [← ih] at hne ⊢
        rw [orElse_of_fail hcall hne]

/-- Where no endpoint applies, the error has a body when some capture does not parse. -/
theorem tryInOrder_attempts_of_not_applies : ∀ {attempts : List Attempt},
    (∀ b ∈ attempts, b.chain.captureCount ≤ b.captures.length) →
    (∀ b ∈ attempts, ¬ b.Applies req) → ∀ w : World,
      ∃ e, (tryInOrder (attempts.map (·.call context req)) [] w).1 = .fail e ∧ Graded e ∧
        (e.body = [] ↔ ∀ b ∈ attempts, b.Parses)
  | [], _, _, w => by
      refine ⟨notFound, rfl, ⟨fun h => absurd h (by decide), fun h => absurd rfl h⟩, ?_⟩
      exact ⟨fun _ b hb => absurd hb List.not_mem_nil, fun _ => rfl⟩
  | b :: attempts, hlen, h, w => by
      obtain ⟨hb, hlen⟩ := List.forall_mem_cons.mp hlen
      obtain ⟨hnot, h⟩ := List.forall_mem_cons.mp h
      obtain ⟨e, w', hcall, -, hgraded, hparses⟩ :=
        Attempt.call_of_not_applies context hb hnot w
      obtain ⟨e', ih, hgraded', hparses'⟩ :=
        tryInOrder_attempts_of_not_applies hlen h w'
      obtain ⟨hcombined, hbody⟩ := combineFail_graded hgraded hgraded'
      refine ⟨combineFail (some e) e', ?_, hcombined, ?_⟩
      · rw [List.map_cons, tryInOrder_eq_foldr, List.foldr_cons, ← tryInOrder_eq_foldr]
        exact orElse_of_fail_fail hcall ih
      · rw [hbody, hparses, hparses', List.forall_mem_cons]

omit [HttpCrate] [MimeCrate] [Base64Crate] in
/-- An endpoint that matches a path captures a segment for each `Capture`. -/
theorem captureCount_le {segments : List String} : ∀ {api : Api},
    ∀ a ∈ api.attempts segments, a.chain.captureCount ≤ a.captures.length
  | .endpoint label chain handler, a, ha => by
      rw [Api.attempts, Option.mem_toList, Option.map_eq_some_iff] at ha
      obtain ⟨m, hm, rfl⟩ := ha
      have hlen := captures_length_of_match hm
      exact Nat.le_of_eq (chain.count_parts.symm.trans hlen.symm)
  | .raw .., a, ha => by cases ha
  | .alt left right, a, ha => by
      rcases List.mem_append.mp ha with ha | ha
      · exact captureCount_le a ha
      · exact captureCount_le a ha

omit [MimeCrate] [Base64Crate] in
/-- What a handler that was reached answers a `HEAD` request has no body, unless it is an error. -/
theorem runHandler_head_body (a : Attempt) (hhead : req.isHead = true) (args : a.chain.Args)
    (st : ExtractState) :
    ((Leaf.runHandler a.label a.chain a.handler req args st).1.intoResponse).body = .full []
      ↔ ∀ e, a.handler args = .error e → e.body = [] := by
  have hrec : RouteM.modify (·.record (.handler a.label a.chain args)) st
      = (.route (), st.record (.handler a.label a.chain args)) := rfl
  rw [Leaf.runHandler, bind_route hrec]
  dsimp only
  cases a.handler args with
  | ok out =>
      dsimp only
      rw [hhead, if_pos rfl]
      simp [RouteM.pure, RouteResult.intoResponse, buildResponse]
  | error e => simp [RouteM.pure, RouteResult.intoResponse, errorResponse]

/-- The response of an endpoint that applies has no body when the endpoint is silent. -/
theorem head_body_of_applies {a : Attempt} (happlies : a.Applies req) (hhead : req.isHead = true)
    (body : List BodyEvent) (limit : Nat) :
    ((Leaf.runExtraction a.label a.chain a.handler req (.new a.captures a.capturedAll context
        ⟨.new body limit, []⟩)).1.intoResponse).body = .full []
      ↔ a.Silent context req body limit := by
  have hv : a.chain.validateCaptures a.captures 0 a.capturedAll = .route () :=
    happlies _ List.mem_cons_self
  have hrun : Leaf.runExtraction a.label a.chain a.handler req
      = (a.chain.preBodyCheck req >>= fun _ => Leaf.bodyStep a.chain >>= fun _ =>
          a.chain.extract req) >>= Leaf.runHandler a.label a.chain a.handler req := by
    simp only [runExtraction_eq, bind_assoc]
  rw [Attempt.Silent, ← quiet_arguments hv, hrun, Quiet]
  generalize (a.chain.preBodyCheck req >>= fun _ => Leaf.bodyStep a.chain >>= fun _ =>
    a.chain.extract req) = x
  rcases h : x (.new a.captures a.capturedAll context ⟨.new body limit, []⟩) with
    ⟨args | e | e, st⟩
  · rw [bind_route h]
    exact runHandler_head_body a hhead args st
  · rw [bind_fail h]
    simp [RouteResult.intoResponse, errorResponse]
  · rw [bind_failFatal h]
    simp [RouteResult.intoResponse, errorResponse]

/-- **When a response to `HEAD` has no body.** -/
theorem head_body_iff [PercentEncoding] {api : Api} (htyped : api.Typed) (context : Context)
    (maxBody : Nat) {req : HttpRequest} (hhead : req.method = .HEAD) :
    (RouterService.handle ⟨serveWithContext api context, maxBody⟩ req).body = .full []
      ↔ HeadSilent api context (pathSegments req.path) req.data req.body maxBody := by
  have hishead : req.data.isHead = true := decide_eq_true hhead
  rw [RouterService.handle]
  dsimp only
  rw [dispatch_flat, ← serveFlat, serveFlat_attempts htyped, HeadSilent]
  cases hfind : (api.attempts (pathSegments req.path)).find? (·.Applies req.data) with
  | some a =>
      dsimp only
      have happlies : a.Applies req.data := by simpa using List.find?_some hfind
      rw [tryInOrder_attempts_of_applies context captureCount_le hfind]
      exact head_body_of_applies context happlies hishead req.body maxBody
  | none =>
      dsimp only
      have hnone : ∀ b ∈ api.attempts (pathSegments req.path), ¬ b.Applies req.data := by
        intro b hb
        simpa using List.find?_eq_none.mp hfind b hb
      obtain ⟨e, he, -, hparses⟩ := tryInOrder_attempts_of_not_applies context captureCount_le
        hnone (World.new req.body maxBody)
      rw [he, ← hparses, RouteResult.intoResponse, errorResponse]
      simp

end

end

/-! ### A body that stays -/

section

attribute [local instance] AppTypes.reference HttpCrate.reference MimeCrate.reference
  Base64Crate.reference PercentEncoding.reference

/-- `GET /` with one required query parameter. -/
def searchApi : Api :=
  .endpoint 0 (.sub (.queryParam String .string .required .strict "q")
    (.verb (.noContentVerb .GET))) fun _ => .ok ()

/-- A request to the root. -/
def rootRequest (method : Method) (query : Option String) : HttpRequest where
  method := method
  path := "/"
  query := query
  authority := none
  version := .http11
  headers := []
  extensions := (() : Unit)
  connectionInfo := none
  body := []

theorem pathSegments_root : pathSegments "/" = [""] := by
  have hcut : splitChar '/' ((stripPrefix "/" "/").getD "/") = [""] := by decide
  have hdecode : PercentEncoding.percentDecodeLossy "" = "" := PercentEncoding.decode_eq "" "" rfl
  rw [pathSegments, hcut, List.map_singleton, hdecode]

/-- `HEAD /` without the parameter is answered with a body. -/
theorem head_missing_parameter : ¬ ∀ (api : Api) (maxBody : Nat) (req : HttpRequest), api.Typed →
    req.method = .HEAD →
      (RouterService.handle ((RouterService.new (serve api)).withMaxBody maxBody) req).body
        = .full [] := by
  intro h
  have htyped : searchApi.Typed := trivial
  have hempty := h searchApi 0 (rootRequest .HEAD none) htyped rfl
  have hpath : (rootRequest .HEAD none).path = "/" := rfl
  have hmissing : (dispatch Leaf.call (serve searchApi) [""] [] none (rootRequest .HEAD none).data
      (World.new [] 0)).1 = .failFatal (badRequest "missing required query parameter `q`") := rfl
  rw [RouterService.handle, hpath, pathSegments_root] at hempty
  have hbody := (congrArg (Response.body ∘ RouteResult.intoResponse) hmissing).symm.trans hempty
  have hbytes : utf8Bytes "missing required query parameter `q`" = [] := ResponseBody.full.inj hbody
  exact absurd hbytes (by decide)

/-- `HEAD /?q=a` -/
theorem head_body_iff_searchApi :
    (RouterService.handle ⟨serveWithContext searchApi .new, 0⟩
        (rootRequest .HEAD (some "q=a"))).body = .full []
      ↔ HeadSilent searchApi .new (pathSegments "/") (rootRequest .HEAD (some "q=a")).data [] 0 :=
  have htyped : searchApi.Typed := trivial
  head_body_iff htyped .new 0 rfl

end

end ServantRs
