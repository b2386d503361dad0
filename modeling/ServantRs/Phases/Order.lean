import ServantRs.Phases.Auth

/-!
# Phases — authentication against negotiation

The design has a request authenticated before its `Accept` and `Content-Type` are looked at.  The
leaf looks at them first: a request it would not authenticate is rejected for good only when both
would do (`rejected_for_good_iff`); otherwise the route merely does not apply, with a 406 or a 415
(`call_of_media_types`), and the request goes on to the next endpoint.
-/

namespace ServantRs

open RouteM ExtractState

section

variable [AppTypes] [HttpCrate] [MimeCrate] [Base64Crate] {label : Nat} {chain : Chain}
  {handler : chain.Args → Except ServerError chain.Output} {context : Context} {req : RequestData}
  {tail captures : List String} {capturedAll : Option (List String)}

/-- A leaf called: the call is written down, then come the gates. -/
theorem call_endpoint_eq (w : World) :
    Leaf.call (.endpoint label chain handler context) req tail captures capturedAll w
      = gated (Leaf.gates chain req captures capturedAll)
          (Leaf.inExtractState captures capturedAll context
            (Leaf.runExtraction label chain handler req))
          (w.record (.call (.endpoint label chain handler context) tail captures capturedAll)) := rfl

/-- What passes every gate and is rejected is rejected for good, with the check's error. -/
theorem call_rejected (hg : ∀ r ∈ Leaf.gates chain req captures capturedAll, r = .route ())
    {e : ServerError} (he : (chain.authSites [context]).findSome? (·.rejection req) = some e)
    (w : World) :
    (Leaf.call (.endpoint label chain handler context) req tail captures capturedAll w).1
      = .failFatal e := by
  let st := ExtractState.new captures capturedAll context
    (w.record (.call (.endpoint label chain handler context) tail captures capturedAll))
  rw [call_endpoint_eq, gated_of_pass hg]
  show (Leaf.runExtraction label chain handler req st).1 = _
  rw [runExtraction_eq]
  rcases preBodyCheck_spec req chain st with
    ⟨users, hv, -⟩ | ⟨e', checks, st', he', -, hpre, -⟩
  · have hnone := no_rejection_of_accepted hv
    exact absurd (he.symm.trans hnone) (by simp)
  · rw [bind_failFatal hpre]
    exact congrArg _ (Option.some.inj (he'.symm.trans he))

/-- A request whose media types would not do gets a 406 or a 415, and the route does not apply. -/
theorem call_of_media_types (hcaptures : chain.validateCaptures captures 0 capturedAll = .route ())
    (hhost : chain.hostCheck req = .route ()) (hmethod : Leaf.methodOk chain req = true)
    (h : ¬ (chain.acceptCheck req.accept = .route () ∧ Leaf.contentTypeOk chain req = true))
    (w : World) :
    (Leaf.call (.endpoint label chain handler context) req tail captures capturedAll w).1
        = .fail .err406 ∨
      (Leaf.call (.endpoint label chain handler context) req tail captures capturedAll w).1
        = .fail .err415 := by
  have hg : ¬ ∀ r ∈ Leaf.gates chain req captures capturedAll, r = .route () := by
    simpa [Leaf.gates, hcaptures, hhost, Leaf.require_eq_route, hmethod] using h
  rw [call_endpoint_eq]
  rcases gated_of_stop hg
      (Leaf.inExtractState captures capturedAll context
        (Leaf.runExtraction label chain handler req))
      (w.record (.call (.endpoint label chain handler context) tail captures capturedAll))
    with ⟨e, hmem, hstop⟩ | ⟨e, hmem, hstop⟩
  · rw [hstop]
    simp only [Leaf.gates, hcaptures, hhost, hmethod, Leaf.require, List.mem_cons, reduceCtorEq,
      List.not_mem_nil, if_true, false_or, or_false] at hmem
    rcases hmem with ha | hct
    · rcases Chain.acceptCheck_eq chain req.accept with hr | hf
      · rw [hr] at ha
        cases ha
      · exact .inl (congrArg _ (RouteResult.fail.inj (ha.trans hf)))
    · exact .inr (congrArg _ (Leaf.require_eq_fail hct.symm))
  · -- no gate commits
    simp only [Leaf.gates, hcaptures, hhost, List.mem_cons, reduceCtorEq, List.not_mem_nil,
      Leaf.require_ne_failFatal.symm, false_or, or_false] at hmem
    rcases Chain.acceptCheck_eq chain req.accept with hr | hf
    · rw [hr] at hmem
      cases hmem
    · rw [hf] at hmem
      cases hmem

/-- **A request that is not authenticated is rejected for good exactly when its media types would
do.** -/
theorem rejected_for_good_iff (hcaptures : chain.validateCaptures captures 0 capturedAll = .route ())
    (hhost : chain.hostCheck req = .route ()) (hmethod : Leaf.methodOk chain req = true)
    {e : ServerError} (he : (chain.authSites [context]).findSome? (·.rejection req) = some e)
    (w : World) :
    (Leaf.call (.endpoint label chain handler context) req tail captures capturedAll w).1
        = .failFatal e ↔
      chain.acceptCheck req.accept = .route () ∧ Leaf.contentTypeOk chain req = true := by
  constructor
  · intro hfatal
    by_contra hmedia
    let result :=
      (Leaf.call (.endpoint label chain handler context) req tail captures capturedAll w).1
    have hresult : result = .fail .err406 ∨ result = .fail .err415 :=
      call_of_media_types hcaptures hhost hmethod hmedia w
    rcases hresult with h | h
    · exact absurd (hfatal.symm.trans h) nofun
    · exact absurd (hfatal.symm.trans h) nofun
  · rintro ⟨haccept, hct⟩
    refine call_rejected ?_ he w
    simp [Leaf.gates, hcaptures, hhost, Leaf.require_eq_route, hmethod, haccept, hct]

end

/-! ### A request without a content type -/

section

attribute [local instance] AppTypes.reference HttpCrate.reference MimeCrate.reference
  Base64Crate.reference

/-- `POST` with a JSON text, for a user. -/
def guardedPost : Chain :=
  .sub (.authProtect "user")
    (.sub (.reqBody String [⟨.Json, fun s => .ok (utf8Bytes s), fun _ => .ok ""⟩] .strict)
      (.verb (.noContentVerb .POST)))

/-- A context that accepts nobody. -/
def rejectingContext : Context :=
  .mk (fun _ => none) (fun _ => some fun _ => .error .err401) (fun _ => none) (fun _ => none)

theorem unauthenticated_falls_through :
    ¬ ∀ (chain : Chain) (handler : chain.Args → Except ServerError chain.Output)
      (context : Context) (req : RequestData) (captures : List String)
      (capturedAll : Option (List String)) (e : ServerError) (w : World),
      chain.validateCaptures captures 0 capturedAll = .route () → chain.hostCheck req = .route () →
      Leaf.methodOk chain req = true →
      (chain.authSites [context]).findSome? (·.rejection req) = some e →
      (Leaf.call (.endpoint 0 chain handler context) req [] captures capturedAll w).1
        = .failFatal e := by
  intro h
  have hpost := h guardedPost (fun _ => .ok ()) rejectingContext (.ofMethod .POST ()) [] none .err401
    (.new [] 0) rfl rfl (by decide) rfl
  have hactual : (Leaf.call (.endpoint 0 guardedPost (fun _ => .ok ()) rejectingContext)
      (.ofMethod .POST ()) [] [] none (.new [] 0)).1 = .fail .err415 := rfl
  rw [hactual] at hpost
  cases hpost

/-- `GET` without a body, for a user. -/
def guardedGet : Chain := .sub (.authProtect "user") (.verb (.noContentVerb .GET))

theorem rejected_for_good_iff_guardedGet :
    (Leaf.call (.endpoint 0 guardedGet (fun _ => .ok ()) rejectingContext) (.ofMethod .GET ()) [] []
        none (.new [] 0)).1 = .failFatal .err401 ↔
      guardedGet.acceptCheck (RequestData.ofMethod .GET ()).accept = .route () ∧
        Leaf.contentTypeOk guardedGet (.ofMethod .GET ()) = true :=
  rejected_for_good_iff rfl rfl (by decide) rfl (.new [] 0)

end

end ServantRs
