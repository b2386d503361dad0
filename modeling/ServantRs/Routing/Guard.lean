import ServantRs.Routing.Pattern

/-!
# Routing — routers behind a host guard

A guard is put on a raw router leaf by leaf.  Dispatch calls leaves and joins what they answer, so
whatever holds of every leaf, of a plain 404 and of a join holds of a dispatch (`dispatch_rel`).

* `guardRawRouter_spec`: a request that passes the guard is dispatched as without it; one that does
  not touches nothing and is not found.
-/

namespace ServantRs

open RouteM

namespace RouterTree

variable {L Q Q' σ σ' : Type*} {R R' : Type}

section Rel

variable {call : LeafCall L Q σ R} {call' : LeafCall L Q' σ' R'} {req : Q} {req' : Q'}
  {Rel : RouteM σ R → RouteM σ' R' → Prop}

theorem runChoiceLeaves_rel (hfail : Rel (RouteM.fail notFound) (RouteM.fail notFound))
    (hor : ∀ x x' y y', Rel x x' → Rel y y' → Rel (x.orElse y) (x'.orElse y'))
    (hcall : ∀ leaf tail captures all,
      Rel (call leaf req tail captures all) (call' leaf req' tail captures all))
    (captures : List String) (all : Option (List String)) (leaves : List L) :
    Rel (runChoiceLeaves call req captures all none leaves)
      (runChoiceLeaves call' req' captures all none leaves) := by
  induction leaves with
  | nil => exact hfail
  | cons leaf leaves ih =>
      rw [runChoiceLeaves_cons, runChoiceLeaves_cons]
      exact hor _ _ _ _ (hcall leaf [] captures all) ih

mutual

/-- **Two dispatches of one router are related** when their leaves are, and joins keep the
relation. -/
theorem dispatch_rel (hfail : Rel (RouteM.fail notFound) (RouteM.fail notFound))
    (hor : ∀ x x' y y', Rel x x' → Rel y y' → Rel (x.orElse y) (x'.orElse y'))
    (hcall : ∀ leaf tail captures all,
      Rel (call leaf req tail captures all) (call' leaf req' tail captures all)) :
    ∀ (r : RouterTree L) (segments captures : List String) (all : Option (List String)),
      Rel (dispatch call req r segments captures all) (dispatch call' req' r segments captures all)
  | .static map leaves, segments, captures, all => by
      rcases isEmptyPath_cases segments with h | ⟨first, rest, rfl, h⟩
      · rw [dispatch_static_empty h, dispatch_static_empty h]
        exact runChoiceLeaves_rel hfail hor hcall captures all leaves
      · rw [dispatch_static_cons h, dispatch_static_cons h]
        exact dispatchAt_rel hfail hor hcall map first rest captures all
  | .capture hints inner, segments, captures, all => by
      rcases isEmptyPath_cases segments with h | ⟨first, rest, rfl, h⟩
      · rw [dispatch_capture_empty h, dispatch_capture_empty h]
        exact hfail
      · rw [dispatch_capture_cons h, dispatch_capture_cons h]
        exact dispatch_rel hfail hor hcall inner rest (captures ++ [first]) all
  | .captureAll hints inner, segments, captures, all => by
      rw [dispatch, dispatch]
      exact dispatch_rel hfail hor hcall inner [] captures (some (dropLeadingEmpty segments))
  | .raw leaf, segments, captures, all => by
      rw [dispatch, dispatch]
      exact hcall leaf (rawTail segments) captures all
  | .choice left right, segments, captures, all => by
      rw [dispatch_choice, dispatch_choice]
      exact hor _ _ _ _ (dispatch_rel hfail hor hcall left segments captures all)
        (dispatch_rel hfail hor hcall right segments captures all)

theorem dispatchAt_rel (hfail : Rel (RouteM.fail notFound) (RouteM.fail notFound))
    (hor : ∀ x x' y y', Rel x x' → Rel y y' → Rel (x.orElse y) (x'.orElse y'))
    (hcall : ∀ leaf tail captures all,
      Rel (call leaf req tail captures all) (call' leaf req' tail captures all)) :
    ∀ (map : List (String × RouterTree L)) (first : String) (rest captures : List String)
      (all : Option (List String)),
      Rel (dispatchAt call req map first rest captures all)
        (dispatchAt call' req' map first rest captures all)
  | [], first, rest, captures, all => by
      rw [dispatchAt, dispatchAt]
      exact hfail
  | (segment, inner) :: map, first, rest, captures, all => by
      rw [dispatchAt, dispatchAt]
      split
      · exact dispatch_rel hfail hor hcall inner rest captures all
      · exact dispatchAt_rel hfail hor hcall map first rest captures all

end

end Rel

/-- Dispatch calls leaves for its own request only. -/
theorem dispatch_congr {call call' : LeafCall L Q σ R} {req : Q}
    (h : ∀ leaf tail captures all,
      call leaf req tail captures all = call' leaf req tail captures all) (r : RouterTree L)
    (segments captures : List String) (all : Option (List String)) :
    dispatch call req r segments captures all = dispatch call' req r segments captures all := by
  have hor : ∀ x x' y y' : RouteM σ R, x = x' → y = y' → x.orElse y = x'.orElse y' := by
    rintro x _ y _ rfl rfl
    rfl
  exact dispatch_rel rfl hor h r segments captures all

/-- A router none of whose leaves is found is not found. -/
theorem dispatch_notFound {call : LeafCall L Q σ R} {req : Q}
    (h : ∀ leaf tail captures all,
      call leaf req tail captures all = RouteM.fail notFound) (r : RouterTree L)
    (segments captures : List String) (all : Option (List String)) :
    dispatch call req r segments captures all = RouteM.fail notFound := by
  have hor : ∀ x x' y y' : RouteM σ R, x = RouteM.fail notFound ∧ x' = RouteM.fail notFound →
      y = RouteM.fail notFound ∧ y' = RouteM.fail notFound →
      x.orElse y = RouteM.fail notFound ∧ x'.orElse y' = RouteM.fail notFound := by
    rintro _ _ _ _ ⟨rfl, rfl⟩ ⟨rfl, rfl⟩
    exact ⟨orElse_notFound _, orElse_notFound _⟩
  have hcall := fun leaf tail captures all => And.intro (h leaf tail captures all)
    (h leaf tail captures all)
  exact (dispatch_rel ⟨rfl, rfl⟩ hor hcall r segments captures all).1

end RouterTree

/-! ### The guard -/

section

variable [AppTypes] [HttpCrate]

/-- `HostGuardLeaf::call`, whatever way the leaf behind the guard is called. -/
def guardedCall {σ : Type*} {R : Type} (inner : LeafCall Leaf RequestData σ R) :
    LeafCall Leaf RequestData σ R
  | .guard g leaf, req, tail, captures, capturedAll => do
    ofResult (g.check req)
    inner leaf req tail captures capturedAll
  | leaf, req, tail, captures, capturedAll => inner leaf req tail captures capturedAll

/-- The leaf behind a guard runs as `HostGuardLeaf::call` has it. -/
theorem run_guard [MimeCrate] [Base64Crate] (g : HostGuard) (leaf : Leaf) :
    Leaf.run (.guard g leaf) = guardedCall Leaf.run (.guard g leaf) := rfl

/-- **Guarding is transparent and complete.**  A request that passes the guard is answered, and
calls leaves, as without it.  For one that does not, no leaf is called: whatever leaves do, nothing
happens, and the request is not found. -/
theorem guardRawRouter_spec (g : HostGuard) (r : Router Leaf) (req : RequestData)
    (segments captures : List String) (all : Option (List String)) {σ : Type*} {R : Type}
    (inner : LeafCall Leaf RequestData σ R) :
    (g.check req = .route () →
      (guardRawRouter g r).tree.dispatch (guardedCall inner) req segments captures all
        = r.tree.dispatch inner req segments captures all) ∧
    (g.check req ≠ .route () → ∀ s,
      (guardRawRouter g r).tree.dispatch (guardedCall inner) req segments captures all s
        = (.fail .err404, s)) := by
  have hguard : (guardRawRouter g r).tree.dispatch (guardedCall inner) req segments captures all
      = r.tree.dispatch (fun leaf => guardedCall inner (.guard g leaf)) req segments captures all :=
    dispatch_guardRawRouter g r.tree segments captures all
  rw [hguard]
  constructor
  · intro hpass
    refine RouterTree.dispatch_congr (fun leaf tail captures all => ?_) _ _ _ _
    rw [guardedCall, hpass]
    rfl
  · intro hstop s
    have hfail : g.check req = .fail notFound := (g.check_cases req).resolve_left hstop
    rw [RouterTree.dispatch_notFound fun leaf tail captures all => ?_]
    · rfl
    · rw [guardedCall, hfail]
      rfl

end

end ServantRs
