import ServantRs.Routing.Flat

/-!
# Routing — endpoints that do not matter

What an API does with a request depends on the endpoints whose paths are the request's, and on their
order.  The others may be added, removed or moved: APIs with the same matching endpoints answer
alike, and do the same things (`dispatch_matching`).  So alternatives without a common path may
change places (`Api.matching_alt_comm`).
-/

namespace ServantRs

open RouteM

section

variable {σ A : Type*} {T : Type} {f : A → RouteM σ T}

/-- Computations that find nothing do not matter among those that are tried. -/
theorem tryInOrder_filter {p : A → Bool} {as : List A} (hf : ∀ a ∈ as, (f a).Canonical)
    (hnone : ∀ a ∈ as, p a = false → f a = RouteM.fail notFound) :
    tryInOrder (as.map f) [] = tryInOrder ((as.filter p).map f) [] := by
  rw [tryInOrder_eq_foldr, tryInOrder_eq_foldr]
  have hcanonical : ∀ {as : List A}, (∀ a ∈ as, (f a).Canonical) →
      ((as.map f).foldr RouteM.orElse (RouteM.fail notFound)).Canonical := by
    intro as hf
    induction as with
    | nil => exact canonical_fail_notFound
    | cons a as ih =>
        obtain ⟨ha, has⟩ := List.forall_mem_cons.mp hf
        exact ha.orElse (ih has)
  induction as with
  | nil => rfl
  | cons a as ih =>
      obtain ⟨ha, has⟩ := List.forall_mem_cons.mp hf
      obtain ⟨hnonea, hnone⟩ := List.forall_mem_cons.mp hnone
      rw [List.map_cons, List.foldr_cons, ih has hnone, List.filter_cons]
      by_cases hp : p a = true
      · rw [if_pos hp, List.map_cons, List.foldr_cons]
      · have hkept : ∀ b ∈ as.filter p, (f b).Canonical := fun b hb =>
          has b (List.mem_of_mem_filter hb)
        rw [if_neg hp, hnonea (Bool.eq_false_iff.mpr hp)]
        exact (hcanonical hkept).notFound_orElse

end

section

variable [AppTypes] [HttpCrate] [MimeCrate] [Base64Crate]

/-- The endpoints whose paths are the request's, in order. -/
def Api.matching (api : Api) (context : Context) (segments : List String) : List Route :=
  (api.routes context).filter fun route => (route.pattern.match? lastOnly segments).isSome

/-- Only the endpoints that match are tried. -/
theorem dispatch_eq_matching (api : Api) (context : Context) (segments : List String)
    (req : RequestData) : dispatch Leaf.call (serveWithContext api context) segments [] none req
      = tryInOrder ((api.matching context segments).map
          (Route.attempt lastOnly Leaf.call segments req)) [] := by
  rw [dispatch_flat, Api.matching]
  refine tryInOrder_filter (fun route _ => ?_) fun route _ hnone => ?_
  · rw [Route.attempt]
    cases route.pattern.match? lastOnly segments with
    | none => exact canonical_fail_notFound
    | some m => exact route.leaf.canonical_call req _ _ _
  · rw [Route.attempt]
    cases hm : route.pattern.match? lastOnly segments with
    | none => rfl
    | some m =>
        rw [hm] at hnone
        cases hnone

omit [MimeCrate] [Base64Crate] in
/-- Alternatives without a common path have the same matching endpoints in either order. -/
theorem Api.matching_alt_comm {left right : Api} {context : Context} {segments : List String}
    (h : ∀ route ∈ left.routes context, ∀ route' ∈ right.routes context,
      ¬ ((route.pattern.match? lastOnly segments).isSome ∧
        (route'.pattern.match? lastOnly segments).isSome)) :
    (left.alt right).matching context segments = (right.alt left).matching context segments := by
  rw [matching, matching, routes, routes, List.filter_append, List.filter_append]
  cases hleft : (left.routes context).filter fun route =>
      (route.pattern.match? lastOnly segments).isSome with
  | nil => rw [List.nil_append, List.append_nil]
  | cons route _ =>
      obtain ⟨hmem, hmatch⟩ := List.mem_filter.mp (hleft ▸ List.mem_cons_self)
      have hright : ((right.routes context).filter fun route =>
          (route.pattern.match? lastOnly segments).isSome) = [] :=
        List.filter_eq_nil_iff.mpr fun route' hmem' hmatch' => h route hmem route' hmem'
          ⟨hmatch, hmatch'⟩
      rw [hright, List.append_nil, List.nil_append]

/-- **What matches a request decides what is done with it.**  APIs with the same matching endpoints
do the same, so alternatives without a common path may change places. -/
theorem dispatch_matching (segments : List String) (req : RequestData) :
    (∀ (api api' : Api) (context context' : Context),
      api.matching context segments = api'.matching context' segments →
        dispatch Leaf.call (serveWithContext api context) segments [] none req
          = dispatch Leaf.call (serveWithContext api' context') segments [] none req) ∧
    ∀ (left right : Api) (context : Context),
      (∀ route ∈ left.routes context, ∀ route' ∈ right.routes context,
        ¬ ((route.pattern.match? lastOnly segments).isSome ∧
          (route'.pattern.match? lastOnly segments).isSome)) →
        dispatch Leaf.call (serveWithContext (left.alt right) context) segments [] none req
          = dispatch Leaf.call (serveWithContext (right.alt left) context) segments [] none req := by
  have hsame : ∀ (api api' : Api) (context context' : Context),
      api.matching context segments = api'.matching context' segments →
        dispatch Leaf.call (serveWithContext api context) segments [] none req
          = dispatch Leaf.call (serveWithContext api' context') segments [] none req := by
    intro api api' context context' h
    rw [dispatch_eq_matching, dispatch_eq_matching, h]
  exact ⟨hsame, fun left right context h => hsame _ _ _ _ (Api.matching_alt_comm h)⟩

end

/-! ### Two endpoints apart -/

section

attribute [local instance] AppTypes.reference HttpCrate.reference MimeCrate.reference
  Base64Crate.reference

/-- `GET` of one segment. -/
def single (label : Nat) (segment : String) : Api :=
  .endpoint label (.sub (.path segment) (.verb (.noContentVerb .GET))) fun _ => .ok ()

/-- `/up` and `/down`, in either order: at `/down` they are alike. -/
theorem dispatch_matching_single :
    dispatch Leaf.call (serveWithContext (.alt (single 0 "up") (single 1 "down")) .new) ["down"] []
        none (.ofMethod .GET ())
      = dispatch Leaf.call (serveWithContext (.alt (single 1 "down") (single 0 "up")) .new)
          ["down"] [] none (.ofMethod .GET ()) := by
  refine (dispatch_matching ["down"] (.ofMethod .GET ())).2 _ _ .new ?_
  intro route hroute route' _ h
  obtain ⟨hup, -⟩ := h
  rw [List.mem_singleton.mp hroute] at hup
  cases hup

end

end ServantRs
