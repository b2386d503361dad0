import ServantRs.Phases.NotFound
import ServantRs.Routing.Pattern

/-!
# Routing — an API as a list of endpoints

The abstract reading of an API: its endpoints from left to right, each with its path pattern
(`Api.routes`), tried one by one (`tryInOrder`).  The first that answers or commits is the result;
when none does, it is the leftmost error of the highest priority, a pattern that does not match
counting as a 404.

`dispatch_serve`: the served router, whatever merging it went through, gives the same results and
does the same things to the world.
-/

namespace ServantRs

open RouteM

/-! ### Trying computations in order -/

/-- The leftmost error of the highest priority. -/
def bestError (errors : List ServerError) : ServerError :=
  (errors.argmax fun e => priority e.code).getD notFound

section TryInOrder

variable {σ : Type*} {T : Type}

/-- The computations in order, up to the first that answers or commits; `errors` are those of the
ones before. -/
def tryInOrder : List (RouteM σ T) → List ServerError → RouteM σ T
  | [], errors => RouteM.fail (bestError errors)
  | x :: xs, errors => fun s =>
    match x s with
    | (.fail e, s') => tryInOrder xs (errors ++ [e]) s'
    | r             => r

theorem bestError_concat (errors : List ServerError) (e : ServerError) :
    bestError (errors ++ [e])
      = if errors = [] then e else combineFail (some (bestError errors)) e := by
  rw [bestError, argmax_concat_leftMax, Option.getD_some]
  cases h : errors.argmax fun e => priority e.code with
  | none =>
      rw [List.argmax_eq_none] at h
      rw [if_pos h]
      rfl
  | some best =>
      have hne : errors ≠ [] := fun hnil => by rw [hnil] at h; cases h
      rw [if_neg hne, bestError, h, combineFail_some]
      rfl

/-- After errors, the computations are tried as after a route that failed with the best of
them. -/
theorem tryInOrder_errors : ∀ (xs : List (RouteM σ T)) {errors : List ServerError},
    errors ≠ [] → tryInOrder xs errors
      = (RouteM.fail (bestError errors)).orElse (xs.foldr RouteM.orElse (RouteM.fail notFound))
  | [], errors, _ => (orElse_notFound _).symm
  | x :: xs, errors, hne => by
      have step : ∀ e s', tryInOrder xs (errors ++ [e]) s' = ((RouteM.fail
          (combineFail (some (bestError errors)) e)).orElse
            (xs.foldr RouteM.orElse (RouteM.fail notFound))) s' := by
        intro e s'
        rw [tryInOrder_errors xs (by simp), bestError_concat, if_neg hne]
      funext s
      rw [List.foldr_cons, ← orElse_assoc]
      rcases hx : x s with ⟨_ | e | _, s'⟩ <;>
        simp only [tryInOrder, RouteM.orElse, RouteM.fail, hx]
      rw [step e s']
      rfl

/-- After an error the state is what the other computation leaves. -/
theorem RouteM.snd_orElse_of_fail {x y : RouteM σ T} {s s' : σ} {e : ServerError}
    (hx : x s = (.fail e, s')) : (x.orElse y s).2 = (y s').2 := by
  simp only [orElse, hx]
  rcases y s' with ⟨_ | _ | _, _⟩ <;> rfl

/-- Trying in order is one `orElse` after another. -/
theorem tryInOrder_eq_foldr (xs : List (RouteM σ T)) :
    tryInOrder xs [] = xs.foldr RouteM.orElse (RouteM.fail notFound) := by
  cases xs with
  | nil => rfl
  | cons x xs =>
      funext s
      have step : ∀ e s', tryInOrder xs [e] s'
          = ((RouteM.fail e).orElse (xs.foldr RouteM.orElse (RouteM.fail notFound))) s' := by
        intro e s'
        rw [tryInOrder_errors xs (List.cons_ne_nil _ _)]
        rfl
      rw [List.foldr_cons]
      rcases hx : x s with ⟨_ | e | _, s'⟩ <;> simp only [tryInOrder, RouteM.orElse, hx]
      rw [List.nil_append, step e s']
      rfl

theorem tryInOrder_singleton (x : RouteM σ T) : tryInOrder [x] [] = x := by
  rw [tryInOrder_eq_foldr]
  exact orElse_notFound x

theorem tryInOrder_append {xs ys : List (RouteM σ T)} (hys : ∀ y ∈ ys, y.Canonical) :
    tryInOrder (xs ++ ys) [] = (tryInOrder xs []).orElse (tryInOrder ys []) := by
  have hc : (ys.foldr RouteM.orElse (RouteM.fail notFound)).Canonical := by
    induction ys with
    | nil => exact canonical_fail_notFound
    | cons y ys ih =>
        obtain ⟨hy, hys⟩ := List.forall_mem_cons.mp hys
        exact hy.orElse (ih hys)
  simp only [tryInOrder_eq_foldr]
  induction xs with
  | nil => exact hc.notFound_orElse.symm
  | cons x xs ih => rw [List.cons_append, List.foldr_cons, List.foldr_cons, ih, orElse_assoc]

end TryInOrder

/-! ### The endpoints of an API -/

section Routes

variable [AppTypes]

/-- An endpoint: its pattern and its leaf. -/
structure Route where
  pattern : PathPattern
  leaf : Leaf

/-- The endpoint's leaf called with what its pattern finds; a pattern that does not match is not
found. -/
def Route.attempt {Q σ : Type*} {R : Type} (merge : SlotMerge) (call : LeafCall Leaf Q σ R)
    (segments : List String) (req : Q) (route : Route) : RouteM σ R :=
  match route.pattern.match? merge segments with
  | some m => call route.leaf req m.tail m.captures m.capturedAll
  | none   => RouteM.fail notFound

theorem Route.attempt_eq {Q σ : Type*} {R : Type} {call : LeafCall Leaf Q σ R}
    (segments : List String) (req : Q) (route : Route) :
    route.attempt lastOnly call segments req
      = Matched.callLeaf call req route.leaf [] none (route.pattern.match? lastOnly segments) := by
  rw [Route.attempt]
  cases route.pattern.match? lastOnly segments with
  | none => rfl
  | some m => rw [Matched.callLeaf, Option.or_none, List.nil_append]

variable [HttpCrate]

/-- The endpoints of an API, from left to right. -/
def Api.routes (context : Context) : Api → List Route
  | endpoint label chain handler => [⟨chain.pattern, .endpoint label chain handler context⟩]
  | raw label chain handler => [⟨chain.pattern, chain.leaf label context handler⟩]
  | alt left right => left.routes context ++ right.routes context

/-- An API served endpoint by endpoint. -/
def serveFlat {Q σ : Type*} {R : Type} (merge : SlotMerge) (call : LeafCall Leaf Q σ R) (api : Api)
    (context : Context) (segments : List String) (req : Q) : RouteM σ R :=
  tryInOrder ((api.routes context).map (Route.attempt merge call segments req)) []

/-- A served router calls leaves as the endpoints tried in order do, for every canonical call. -/
theorem dispatch_intoRouter {Q σ : Type*} {R : Type} {call : LeafCall Leaf Q σ R} {req : Q}
    (hc : ∀ leaf tail captures all, (call leaf req tail captures all).Canonical)
    (context : Context) (segments : List String) : ∀ api : Api,
      dispatch call (api.intoRouter context) segments [] none req
        = serveFlat lastOnly call api context segments req
  | .endpoint label chain handler => by
      rw [serveFlat, Api.routes, List.map_singleton, tryInOrder_singleton, Route.attempt_eq]
      exact dispatch_shape _ chain segments [] none
  | .raw label chain handler => by
      rw [serveFlat, Api.routes, List.map_singleton, tryInOrder_singleton, Route.attempt_eq]
      exact dispatch_intoRawRouter label context chain handler call segments [] none
  | .alt left right => by
      have hright : ∀ y ∈ (right.routes context).map (Route.attempt lastOnly call segments req),
          y.Canonical := by
        intro y hy
        obtain ⟨route, -, rfl⟩ := List.mem_map.mp hy
        rw [Route.attempt]
        split
        · exact hc _ _ _ _
        · exact canonical_fail_notFound
      show RouterTree.dispatch call req ((left.intoRouter context).tree.smartChoice
        (right.intoRouter context).tree) segments [] none = _
      rw [RouterTree.dispatch_smartChoice hc _ (right.intoRouter context).sorted, serveFlat,
        Api.routes, List.map_append, tryInOrder_append hright]
      exact congrArg₂ RouteM.orElse (dispatch_intoRouter hc context segments left)
        (dispatch_intoRouter hc context segments right)

end Routes

section

variable [AppTypes] [HttpCrate] [MimeCrate] [Base64Crate]

/-- A dispatch tries the endpoints one by one. -/
theorem dispatch_flat (api : Api) (context : Context) (segments : List String)
    (req : RequestData) :
    dispatch Leaf.call (serveWithContext api context) segments [] none req =
      tryInOrder ((api.routes context).map (Route.attempt lastOnly Leaf.call segments req)) [] :=
  dispatch_intoRouter (fun leaf tail captures all => leaf.canonical_call req tail captures all)
    context segments api

/-- **Serving an API is trying its endpoints from left to right.**  Each is run with what its own
pattern finds; the last `CaptureAll` of a chain fills the slot of captured tails. -/
theorem dispatch_serve (api : Api) (context : Context) (segments : List String)
    (req : RequestData) :
    dispatch Leaf.call (serveWithContext api context) segments [] none req
      = serveFlat lastOnly Leaf.call api context segments req :=
  dispatch_intoRouter (fun leaf tail captures all => leaf.canonical_call req tail captures all)
    context segments api

end

/-! ### Two `CaptureAll`s in a chain -/

section

attribute [local instance] AppTypes.reference HttpCrate.reference MimeCrate.reference
  Base64Crate.reference

def doubleCaptureAll : Chain :=
  .sub (.captureAll String .string "first")
    (.sub (.captureAll String .string "second") (.verb (.noContentVerb .GET)))

/-- Answers when the first list has segments in it. -/
def doubleCaptureAllApi : Api :=
  .endpoint 0 doubleCaptureAll fun (first, _, _) => if first = [] then .error .err400 else .ok ()

/-- The segments of the first `CaptureAll` are lost to the second. -/
theorem captureAll_slot_overwritten :
    ¬ ∀ (api : Api) (context : Context) (segments : List String) (req : RequestData),
      dispatch Leaf.call (serveWithContext api context) segments [] none req
        = serveFlat allInOrder Leaf.call api context segments req := by
  intro h
  have heq := congrArg Prod.fst (congrFun (h doubleCaptureAllApi .new ["x"] (.ofMethod .GET ()))
    (.new [] 0))
  have hserved : (dispatch Leaf.call (serveWithContext doubleCaptureAllApi .new) ["x"] [] none
      (.ofMethod .GET ()) (.new [] 0)).1 = .route (errorResponse .err400) := rfl
  have hclaimed : (serveFlat allInOrder Leaf.call doubleCaptureAllApi .new ["x"]
      (.ofMethod .GET ()) (.new [] 0)).1 = .route ⟨.NO_CONTENT, [], .full []⟩ := rfl
  rw [hserved, hclaimed] at heq
  have hstatus := congrArg Response.status (RouteResult.route.inj heq)
  exact absurd hstatus (by decide)

end

end ServantRs
