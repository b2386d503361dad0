import ServantRs.Server.Router

/-!
# Routing — joining two routers keeps their meaning

`choice` merges static maps, concatenates leaves, fuses captures and moves choices to the left.
When every recoverable 404 of a leaf is the plain one, dispatching the joined router is trying
the one router and then the other, step for step (`dispatch_smartChoice`): the induction is on the
right router, with `orElse`'s associativity and units for the merges.  For other leaves the two
sides agree up to which 404 is returned (`choice_preserves_dispatch`), because dispatch commutes
with making every 404 the plain one (`dispatch_plain404`).
-/

namespace ServantRs

/-! ### Results up to the text of a 404 -/

/-- The plain 404 for any 404. -/
def ServerError.plain404 (e : ServerError) : ServerError := if e.code = 404 then notFound else e

namespace RouteResult

variable {T : Type}

def plain404 : RouteResult T → RouteResult T
  | route t     => route t
  | fail e      => fail e.plain404
  | failFatal e => failFatal e

/-- The same answer, the same commitment, or failures of one status code. -/
def SameOutcome : RouteResult T → RouteResult T → Prop
  | route t,     route t'     => t = t'
  | fail e,      fail e'      => e.code = e'.code
  | failFatal e, failFatal e' => e = e'
  | _,           _            => False

theorem code_plain404 (e : ServerError) : e.plain404.code = e.code := by
  by_cases h : e.code = 404
  · rw [ServerError.plain404, if_pos h, h]; rfl
  · rw [ServerError.plain404, if_neg h]

theorem plain404_combineFail (a b : ServerError) :
    (combineFail (some a) b).plain404 = combineFail (some a.plain404) b.plain404 := by
  let p := fun e : ServerError => priority e.code
  have hp : ∀ e, p e.plain404 = p e := fun e => congrArg priority (code_plain404 e)
  show (leftMax p a b).plain404 = leftMax p a.plain404 b.plain404
  rcases lt_or_ge (p a) (p b) with h | h
  · rw [leftMax_of_lt h, leftMax_of_lt (by rwa [hp, hp])]
  · rw [leftMax_of_le h, leftMax_of_le (by rwa [hp, hp])]

theorem sameOutcome_of_plain404 {r r' : RouteResult T} (h : r.plain404 = r'.plain404) :
    r.SameOutcome r' := by
  cases r <;> cases r' <;> simp only [plain404, route.injEq, fail.injEq, failFatal.injEq,
    reduceCtorEq] at h
  · exact h
  · rename_i e e'
    have hc := congrArg ServerError.code h
    simpa only [SameOutcome, code_plain404] using hc
  · exact h

end RouteResult

namespace RouteM

variable {σ : Type*} {T : Type}

/-- Every recoverable 404 of `x` made the plain one. -/
def plain404 (x : RouteM σ T) : RouteM σ T := fun s => ((x s).1.plain404, (x s).2)

theorem canonical_plain404 (x : RouteM σ T) : x.plain404.Canonical := by
  intro s e h hc
  rcases hx : (x s).1 with _ | e' | _ <;>
    simp only [plain404, hx, RouteResult.plain404, reduceCtorEq, RouteResult.fail.injEq] at h
  subst h
  rw [RouteResult.code_plain404] at hc
  exact if_pos hc

theorem Canonical.plain404_eq {x : RouteM σ T} (hx : x.Canonical) : x.plain404 = x := by
  funext s
  refine Prod.ext ?_ rfl
  rcases hxs : (x s).1 with _ | e | _ <;> simp only [plain404, hxs, RouteResult.plain404]
  by_cases hc : e.code = 404
  · rw [ServerError.plain404, if_pos hc, hx s e hxs hc]
  · rw [ServerError.plain404, if_neg hc]

theorem plain404_fail_notFound : (fail notFound : RouteM σ T).plain404 = fail notFound :=
  canonical_fail_notFound.plain404_eq

theorem plain404_orElse (x y : RouteM σ T) :
    (x.orElse y).plain404 = x.plain404.orElse y.plain404 := by
  funext s
  rcases hx : x s with ⟨_ | e₁ | _, s₁⟩ <;>
    simp only [plain404, orElse, hx, RouteResult.plain404]
  rcases hy : y s₁ with ⟨_ | e₂ | _, s₂⟩ <;> simp only [RouteResult.plain404_combineFail]

end RouteM

namespace RouterTree

variable {L Q σ : Type*} {R : Type} {call : LeafCall L Q σ R} {req : Q}

/-! ### The leaves of the empty path -/

/-- With an error in hand, the leaves are tried as after a route that failed with it. -/
theorem runChoiceLeaves_some (captures : List String) (all : Option (List String)) :
    ∀ (leaves : List L) (b : ServerError),
      runChoiceLeaves call req captures all (some b) leaves
        = (RouteM.fail b).orElse (runChoiceLeaves call req captures all none leaves)
  | [], b => (RouteM.orElse_notFound _).symm
  | leaf :: leaves, b => by
      funext s
      have ih := runChoiceLeaves_some captures all leaves
      rcases h : call leaf req [] captures all s with ⟨_ | e | _, s'⟩ <;>
        simp only [runChoiceLeaves, RouteM.orElse, RouteM.fail, h]
      -- the accumulator holds the better of `b` and `e`, the other side the two in turn
      rw [ih (combineFail (some b) e), ih (combineFail none e)]
      simp only [RouteM.orElse, RouteM.fail]
      rcases runChoiceLeaves call req captures all none leaves s' with ⟨_ | e' | _, _⟩ <;>
        simp only [← combineFail_assoc]
      rfl

theorem runChoiceLeaves_cons (captures : List String) (all : Option (List String)) (leaf : L)
    (leaves : List L) :
    runChoiceLeaves call req captures all none (leaf :: leaves)
      = (call leaf req [] captures all).orElse
          (runChoiceLeaves call req captures all none leaves) := by
  funext s
  rcases h : call leaf req [] captures all s with ⟨_ | e | _, s'⟩ <;>
    simp only [runChoiceLeaves, RouteM.orElse, h]
  rw [runChoiceLeaves_some]
  rfl

/-- Leaves after leaves are tried after them. -/
theorem runChoiceLeaves_append {captures : List String} {all : Option (List String)}
    {l₁ l₂ : List L} (hc : (runChoiceLeaves call req captures all none l₂).Canonical) :
    runChoiceLeaves call req captures all none (l₁ ++ l₂)
      = (runChoiceLeaves call req captures all none l₁).orElse
          (runChoiceLeaves call req captures all none l₂) := by
  induction l₁ with
  | nil => exact hc.notFound_orElse.symm
  | cons leaf l₁ ih =>
      rw [List.cons_append, runChoiceLeaves_cons, runChoiceLeaves_cons, ih, RouteM.orElse_assoc]

theorem runChoiceLeaves_canonical
    (hc : ∀ leaf tail captures all, (call leaf req tail captures all).Canonical)
    (captures : List String) (all : Option (List String)) (leaves : List L) :
    (runChoiceLeaves call req captures all none leaves).Canonical := by
  induction leaves with
  | nil => exact RouteM.canonical_fail_notFound
  | cons leaf leaves ih => rw [runChoiceLeaves_cons]; exact (hc _ _ _ _).orElse ih

/-! ### Dispatch, case by case -/

theorem dispatch_static_empty {segments : List String} (h : isEmptyPath segments = true)
    (map : List (String × RouterTree L)) (leaves : List L) (captures : List String)
    (all : Option (List String)) :
    dispatch call req (.static map leaves) segments captures all
      = runChoiceLeaves call req captures all none leaves := by
  cases segments with
  | nil => rw [dispatch]
  | cons first rest => rw [dispatch]; exact if_pos h

theorem dispatch_static_cons {first : String} {rest : List String}
    (h : isEmptyPath (first :: rest) = false) (map : List (String × RouterTree L))
    (leaves : List L) (captures : List String) (all : Option (List String)) :
    dispatch call req (.static map leaves) (first :: rest) captures all
      = dispatchAt call req map first rest captures all := by
  rw [dispatch]
  exact if_neg (by simp [h])

theorem dispatch_capture_empty {segments : List String} (h : isEmptyPath segments = true)
    (hints : List CaptureHint) (inner : RouterTree L) (captures : List String)
    (all : Option (List String)) :
    dispatch call req (.capture hints inner) segments captures all = RouteM.fail notFound := by
  cases segments with
  | nil => rw [dispatch]
  | cons first rest => rw [dispatch]; exact if_pos h

theorem dispatch_capture_cons {first : String} {rest : List String}
    (h : isEmptyPath (first :: rest) = false) (hints : List CaptureHint) (inner : RouterTree L)
    (captures : List String) (all : Option (List String)) :
    dispatch call req (.capture hints inner) (first :: rest) captures all
      = dispatch call req inner rest (captures ++ [first]) all := by
  rw [dispatch]
  exact if_neg (by simp [h])

theorem dispatch_choice (a b : RouterTree L) (segments captures : List String)
    (all : Option (List String)) :
    dispatch call req (.choice a b) segments captures all
      = (dispatch call req a segments captures all).orElse
          (dispatch call req b segments captures all) := by
  rw [dispatch]

/-- A path is empty, or it has a first segment. -/
theorem isEmptyPath_cases (segments : List String) :
    isEmptyPath segments = true ∨
      ∃ first rest, segments = first :: rest ∧ isEmptyPath (first :: rest) = false := by
  cases segments with
  | nil => exact .inl rfl
  | cons first rest =>
      cases h : isEmptyPath (first :: rest) with
      | true => exact .inl rfl
      | false => exact .inr ⟨first, rest, rfl, h⟩

mutual

/-- A 404 of a dispatch is the plain one, when the leaves' are. -/
theorem dispatch_canonical
    (hc : ∀ leaf tail captures all, (call leaf req tail captures all).Canonical) :
    ∀ (r : RouterTree L) (segments captures : List String) (all : Option (List String)),
      (dispatch call req r segments captures all).Canonical
  | .static map leaves, segments, captures, all => by
      rcases isEmptyPath_cases segments with h | ⟨first, rest, rfl, h⟩
      · rw [dispatch_static_empty h]
        exact runChoiceLeaves_canonical hc _ _ _
      · rw [dispatch_static_cons h]
        exact dispatchAt_canonical hc map first rest captures all
  | .capture hints inner, segments, captures, all => by
      rcases isEmptyPath_cases segments with h | ⟨first, rest, rfl, h⟩
      · rw [dispatch_capture_empty h]
        exact RouteM.canonical_fail_notFound
      · rw [dispatch_capture_cons h]
        exact dispatch_canonical hc inner _ _ _
  | .captureAll hints inner, segments, captures, all => by
      rw [dispatch]
      exact dispatch_canonical hc inner _ _ _
  | .raw leaf, segments, captures, all => by rw [dispatch]; exact hc _ _ _ _
  | .choice a b, segments, captures, all => by
      rw [dispatch]
      exact (dispatch_canonical hc a _ _ _).orElse (dispatch_canonical hc b _ _ _)

theorem dispatchAt_canonical
    (hc : ∀ leaf tail captures all, (call leaf req tail captures all).Canonical) :
    ∀ (map : List (String × RouterTree L)) (first : String) (rest captures : List String)
      (all : Option (List String)), (dispatchAt call req map first rest captures all).Canonical
  | [], _, _, _, _ => by rw [dispatchAt]; exact RouteM.canonical_fail_notFound
  | (k, inner) :: map, first, rest, captures, all => by
      rw [dispatchAt]
      by_cases h : first = k
      · rw [if_pos h]; exact dispatch_canonical hc inner _ _ _
      · rw [if_neg h]; exact dispatchAt_canonical hc map first rest captures all

end

/-! ### Joining -/

mutual

/-- **Dispatching a joined router is trying the one and then the other**, when the leaves'
recoverable 404s are the plain one. -/
theorem dispatch_smartChoice
    (hc : ∀ leaf tail captures all, (call leaf req tail captures all).Canonical) :
    ∀ (b : RouterTree L), b.Sorted → ∀ (a : RouterTree L) (segments captures : List String)
      (all : Option (List String)),
      dispatch call req (smartChoice a b) segments captures all
        = (dispatch call req a segments captures all).orElse
            (dispatch call req b segments captures all)
  | .static t₂ l₂, hb, a, segments, captures, all => by
      cases a with
      | static t₁ l₁ =>
          rw [smartChoice]
          rcases isEmptyPath_cases segments with h | ⟨first, rest, rfl, h⟩
          · simp only [dispatch_static_empty h]
            exact runChoiceLeaves_append (runChoiceLeaves_canonical hc _ _ _)
          · simp only [dispatch_static_cons h]
            rw [mergeMap_eq, dispatchAt_eq, dispatchAt_eq, dispatchAt_eq,
              SortedMap.get_mergeWith first hb.1]
            cases h₁ : SortedMap.get first t₁ with
            | none =>
                cases h₂ : SortedMap.get first t₂ with
                | none => exact (RouteM.orElse_notFound _).symm
                | some r₂ => exact (dispatch_canonical hc r₂ _ _ _).notFound_orElse.symm
            | some r₁ =>
                cases h₂ : SortedMap.get first t₂ with
                | none => exact (RouteM.orElse_notFound _).symm
                | some r₂ => exact dispatch_smartChoice_at hc t₂ hb.2 h₂ r₁ rest captures all
      | capture | captureAll | raw | choice => exact dispatch_choice _ _ _ _ _
  | .capture h₂ r₂, hb, a, segments, captures, all => by
      cases a with
      | capture h₁ r₁ =>
          rw [smartChoice]
          rcases isEmptyPath_cases segments with h | ⟨first, rest, rfl, h⟩
          · simp only [dispatch_capture_empty h]
            exact (RouteM.orElse_notFound _).symm
          · simp only [dispatch_capture_cons h]
            exact dispatch_smartChoice hc r₂ hb r₁ rest _ all
      | static | captureAll | raw | choice => exact dispatch_choice _ _ _ _ _
  | .choice r₂ r₃, hb, a, segments, captures, all => by
      rw [smartChoice, dispatch_choice, dispatch_choice, dispatch_smartChoice hc r₂ hb.1 a,
        RouteM.orElse_assoc]
  | .captureAll hints r, _, a, segments, captures, all => by rw [smartChoice, dispatch_choice]
  | .raw l, _, a, segments, captures, all => by rw [smartChoice, dispatch_choice]

theorem dispatch_smartChoice_at
    (hc : ∀ leaf tail captures all, (call leaf req tail captures all).Canonical) :
    ∀ (t₂ : List (String × RouterTree L)), SortedAll t₂ → ∀ {k : String} {r₂ : RouterTree L},
      SortedMap.get k t₂ = some r₂ → ∀ (a : RouterTree L) (segments captures : List String)
      (all : Option (List String)),
      dispatch call req (smartChoice a r₂) segments captures all
        = (dispatch call req a segments captures all).orElse
            (dispatch call req r₂ segments captures all)
  | (j, r) :: t₂, ht, k, r₂, hg, a, segments, captures, all => by
      rw [SortedMap.get] at hg
      split at hg
      · obtain rfl := Option.some.inj hg
        exact dispatch_smartChoice hc r ht.1 a segments captures all
      · exact dispatch_smartChoice_at hc t₂ ht.2 hg a segments captures all

end

/-! ### Any leaves -/

/-- Every leaf's recoverable 404 made the plain one. -/
def plainCall (call : LeafCall L Q σ R) : LeafCall L Q σ R :=
  fun leaf req tail captures all => (call leaf req tail captures all).plain404

theorem runChoiceLeaves_plain404 (captures : List String) (all : Option (List String))
    (leaves : List L) :
    runChoiceLeaves (plainCall call) req captures all none leaves
      = (runChoiceLeaves call req captures all none leaves).plain404 := by
  induction leaves with
  | nil => exact RouteM.plain404_fail_notFound.symm
  | cons leaf leaves ih =>
      rw [runChoiceLeaves_cons, runChoiceLeaves_cons, ih, RouteM.plain404_orElse, plainCall]

mutual

/-- Dispatch commutes with making every 404 the plain one. -/
theorem dispatch_plain404 : ∀ (r : RouterTree L) (segments captures : List String)
    (all : Option (List String)),
    dispatch (plainCall call) req r segments captures all
      = (dispatch call req r segments captures all).plain404
  | .static map leaves, segments, captures, all => by
      rcases isEmptyPath_cases segments with h | ⟨first, rest, rfl, h⟩
      · rw [dispatch_static_empty h, dispatch_static_empty h, runChoiceLeaves_plain404]
      · rw [dispatch_static_cons h, dispatch_static_cons h, dispatchAt_plain404 map]
  | .capture hints inner, segments, captures, all => by
      rcases isEmptyPath_cases segments with h | ⟨first, rest, rfl, h⟩
      · rw [dispatch_capture_empty h, dispatch_capture_empty h, RouteM.plain404_fail_notFound]
      · rw [dispatch_capture_cons h, dispatch_capture_cons h, dispatch_plain404 inner]
  | .captureAll hints inner, segments, captures, all => by
      rw [dispatch, dispatch, dispatch_plain404 inner]
  | .raw leaf, segments, captures, all => by rw [dispatch, dispatch, plainCall]
  | .choice a b, segments, captures, all => by
      rw [dispatch, dispatch, dispatch_plain404 a, dispatch_plain404 b, RouteM.plain404_orElse]

theorem dispatchAt_plain404 : ∀ (map : List (String × RouterTree L)) (first : String)
    (rest captures : List String) (all : Option (List String)),
    dispatchAt (plainCall call) req map first rest captures all
      = (dispatchAt call req map first rest captures all).plain404
  | [], _, _, _, _ => by rw [dispatchAt, dispatchAt, RouteM.plain404_fail_notFound]
  | (k, inner) :: map, first, rest, captures, all => by
      rw [dispatchAt, dispatchAt]
      by_cases h : first = k
      · rw [if_pos h, if_pos h, dispatch_plain404 inner]
      · rw [if_neg h, if_neg h, dispatchAt_plain404 map]

end

/-- Joined or chosen, two routers leave the same state and the same result but for the text of a
404, whatever the leaves do. -/
theorem dispatch_smartChoice_plain404 (a : RouterTree L) {b : RouterTree L} (hb : b.Sorted)
    (segments captures : List String) (all : Option (List String)) :
    (dispatch call req (smartChoice a b) segments captures all).plain404
      = (dispatch call req (.choice a b) segments captures all).plain404 := by
  have hc : ∀ leaf tail captures all, (plainCall call leaf req tail captures all).Canonical :=
    fun _ _ _ _ => RouteM.canonical_plain404 _
  rw [← dispatch_plain404, ← dispatch_plain404, dispatch_smartChoice hc b hb a, dispatch_choice]

end RouterTree

/-! ### The calls a dispatch makes -/

/-- One call of a leaf: which one, and with what. -/
structure LeafInvocation (L Q : Type*) where
  leaf : L
  req : Q
  tail : List String
  captures : List String
  capturedAll : Option (List String)

section Calls

variable {L Q : Type*} {R : Type}

/-- A leaf whose result is a function of what it is called with, writing its calls down. -/
def recordCalls
    (result : L → Q → List String → List String → Option (List String) → RouteResult R) :
    LeafCall L Q (List (LeafInvocation L Q)) R :=
  fun leaf req tail captures all log =>
    (result leaf req tail captures all, log ++ [⟨leaf, req, tail, captures, all⟩])

/-- **Joining two routers keeps their meaning.**  For leaves whose results are any function of
what they are called with, the joined router calls the same leaves with the same arguments in
the same order as the choice of the two, with the same outcome; the two errors of a failure have
one status code, and are one error when every recoverable 404 of a leaf is the plain one. -/
theorem choice_preserves_dispatch
    (result : L → Q → List String → List String → Option (List String) → RouteResult R)
    (a b : Router L) (segments captures : List String) (all : Option (List String)) (req : Q) :
    let joined := dispatch (recordCalls result) (choice a b) segments captures all req []
    let chosen := dispatch (recordCalls result) (Router.Choice a b) segments captures all req []
    joined.2 = chosen.2 ∧ joined.1.SameOutcome chosen.1 ∧
      ((∀ leaf tail captures all e, result leaf req tail captures all = .fail e → e.code = 404 →
        e = notFound) → joined.1 = chosen.1) := by
  intro joined chosen
  have h : RouteM.plain404 (dispatch (recordCalls result) (choice a b) segments captures all req) []
      = RouteM.plain404 (dispatch (recordCalls result) (Router.Choice a b) segments captures all
          req) [] :=
    congrFun (RouterTree.dispatch_smartChoice_plain404 a.tree b.sorted segments captures all) []
  obtain ⟨hr, hlog⟩ := Prod.ext_iff.mp h
  refine ⟨hlog, RouteResult.sameOutcome_of_plain404 hr, fun hplain => ?_⟩
  have hc : ∀ leaf tail captures all,
      (recordCalls result leaf req tail captures all).Canonical :=
    fun leaf tail captures all _ e he => hplain leaf tail captures all e he
  have hj : joined = chosen := by
    show RouterTree.dispatch _ _ (a.tree.smartChoice b.tree) _ _ _ _
      = RouterTree.dispatch _ _ (.choice a.tree b.tree) _ _ _ _
    rw [RouterTree.dispatch_smartChoice hc b.tree b.sorted a.tree, RouterTree.dispatch_choice]
  rw [hj]

/-- Two leaves under one segment: the first takes another method, the second answers. -/
def overlappingLeaves (leaf : Bool) (_ : Unit) (_ captures : List String)
    (_ : Option (List String)) : RouteResult (List String) :=
  if leaf then .fail .err405 else .route captures

theorem choice_preserves_dispatch_overlapping :
    (dispatch (recordCalls overlappingLeaves)
        (choice (.path "users" (.leaf true)) (.path "users" (.leaf false))) ["users"] [] none ()
        []).1
      = (dispatch (recordCalls overlappingLeaves)
        (Router.Choice (.path "users" (.leaf true)) (.path "users" (.leaf false))) ["users"] []
        none () []).1 :=
  (choice_preserves_dispatch overlappingLeaves (.path "users" (.leaf true))
    (.path "users" (.leaf false)) ["users"] [] none ()).2.2 (by
      rintro (_ | _) tail captures all e he hc
      · exact absurd he (by simp [overlappingLeaves])
      · obtain rfl := RouteResult.fail.inj he
        exact absurd hc (by decide))

end Calls

end ServantRs
