import ServantRs.Phases.Auth

/-!
# Phases — the 404s of a leaf

A leaf fails recoverably with a 404 when a capture is missing or a host does not match, and the
error is then the plain one, the same as that of a path with no route (`canonical_call`).  Trying
leaves in order is therefore the same however the tree that holds them groups them.
-/

namespace ServantRs

open RouteM ExtractState

namespace Chain

/-! ### Captures and hosts -/

/-- A capture that is not there is not found; one that does not parse is a bad request. -/
theorem canonical_captureResult {A : Type} (data : HttpApiData A) (S : Strictness)
    (name : String) (seg : Option String) : (captureResult data S name seg).Canonical := by
  cases seg with
  | none => exact RouteResult.canonical_fail fun _ => rfl
  | some seg =>
      rw [captureResult]
      cases CaptureShape.build S (data.fromUrlPiece seg) with
      | ok out => exact RouteResult.canonical_route out
      | error e => exact RouteResult.canonical_fail fun h => absurd h (by decide : (400 : Nat) ≠ 404)

theorem canonical_captureAllResult {A : Type} (data : HttpApiData A) (name : String)
    (segs : List String) : (captureAllResult data name segs).Canonical := by
  rw [captureAllResult]
  cases parseSegments data segs with
  | ok out => exact RouteResult.canonical_route out
  | error e => exact RouteResult.canonical_fail fun h => absurd h (by decide : (400 : Nat) ≠ 404)

variable [AppTypes]

theorem canonical_validateCaptures : ∀ (c : Chain) (caps : List String) (idx : Nat)
    (ca : Option (List String)), (c.validateCaptures caps idx ca).Canonical
  | verb _, _, _, _ => RouteResult.canonical_route ()
  | sub c next, caps, idx, ca => by
      have ih := canonical_validateCaptures next
      by_cases hc : c.IsCapture
      · cases c with
        | capture A data S name =>
            rw [validateCaptures_capture]
            exact (canonical_captureResult data S name _).andThen (ih caps (idx + 1) ca)
        | captureAll A data name =>
            rw [validateCaptures_captureAll]
            exact (canonical_captureAllResult data name _).andThen (ih caps idx ca)
        | _ => exact hc.elim
      · rw [validateCaptures_other hc]
        exact ih caps idx ca

/-- A host that does not match is not found. -/
theorem canonical_hostCheck [HttpCrate] (req : RequestData) :
    ∀ c : Chain, (c.hostCheck req).Canonical
  | verb _ => RouteResult.canonical_route ()
  | sub c next => by
      have ih := canonical_hostCheck req next
      have h404 : (RouteResult.fail .err404 : RouteResult Unit).Canonical :=
        RouteResult.canonical_fail fun _ => rfl
      cases c with
      | host name =>
          rw [hostCheck]
          cases HostRequirement.parse name with
          | none => exact h404
          | some required =>
              dsimp only
              cases req.hostAuthority with
              | none => exact h404
              | some authority =>
                  dsimp only
                  split
                  · exact ih
                  · exact h404
      | _ => exact ih

/-! ### Extraction -/

theorem canonical_withNamedContext {T : Type} (Name : AppTypes.ContextName)
    {f : RouteM ExtractState T} (hf : f.Canonical) : (withNamedContext Name f).Canonical := by
  intro st e h hc
  rw [withNamedContext] at h
  cases hn : st.lookupNamedContext Name with
  | none => rw [hn] at h; exact hf st e h hc
  | some named => rw [hn] at h; exact hf _ e h hc

theorem canonical_extractCapture {A : Type} (data : HttpApiData A) (S : Strictness)
    (name : String) : (extractCapture data S name).Canonical := by
  intro st
  rw [extractCapture_eq]
  exact canonical_captureResult data S name _

theorem canonical_extractCaptureAll {A : Type} (data : HttpApiData A) (name : String) :
    (extractCaptureAll data name).Canonical := by
  intro st
  rw [extractCaptureAll_eq]
  exact canonical_captureAllResult data name _

theorem canonical_consTail {H T : Type} (head : H) {tail : RouteM ExtractState T}
    (h : tail.Canonical) : (consTail head tail).Canonical := h.bind fun _ => canonical_pure _

variable [HttpCrate] [MimeCrate] [Base64Crate] (req : RequestData)

/-- A recoverable 404 of an extraction is the plain one. -/
theorem canonical_extract (c : Chain) : (c.extract req).Canonical := by
  induction c with
  | verb t => exact canonical_pure _
  | sub c next ih =>
      by_cases hc : c.IsPlain
      · obtain ⟨H, get, mk, hget, -, heq⟩ := extract_plain req hc next
        rw [heq]
        exact (canonical_of_ne_fail hget.ne_fail).bind fun _ => ih.bind fun _ => canonical_pure _
      · cases c with
        | capture A data S name =>
            exact (canonical_extractCapture data S name).bind fun _ => canonical_consTail _ ih
        | captureAll A data name =>
            exact (canonical_extractCaptureAll data name).bind fun _ => canonical_consTail _ ih
        | basicAuth Usr realm =>
            exact (canonical_of_ne_fail (extractUser_ne_fail Usr _)).bind fun _ =>
              canonical_consTail _ ih
        | authProtect Usr =>
            exact (canonical_of_ne_fail (extractUser_ne_fail Usr _)).bind fun _ =>
              canonical_consTail _ ih
        | withNamedContext Name => exact canonical_withNamedContext Name ih
        | _ => exact absurd trivial hc

end Chain

/-! ### Leaves -/

theorem Leaf.canonical_require {b : Bool} {e : ServerError} (h : e.code ≠ 404) :
    (Leaf.require b e).Canonical := by
  cases b with
  | true => exact RouteResult.canonical_route ()
  | false => exact RouteResult.canonical_fail fun hcode => absurd hcode h

variable [AppTypes]

theorem HostGuard.canonical_check [HttpCrate] (g : HostGuard) (req : RequestData) :
    (g.check req).Canonical := by
  rcases g.check_cases req with h | h
  · rw [h]
    exact RouteResult.canonical_route ()
  · rw [h]
    exact RouteResult.canonical_fail fun _ => rfl

namespace Leaf

theorem buffered_ne_fail (w : World) (e : ServerError) : (buffered w).1 ≠ .fail e := by
  rcases h : w.bufferBody with ⟨_ | _, w'⟩ <;> simp [buffered, h]

theorem canonical_inExtractState {T : Type} {captures : List String}
    {capturedAll : Option (List String)} {context : Context} {f : RouteM ExtractState T}
    (h : f.Canonical) : (inExtractState captures capturedAll context f).Canonical :=
  fun _ e he hcode => h _ e he hcode

variable [HttpCrate]

theorem canonical_gates [MimeCrate] (chain : Chain) (req : RequestData) (captures : List String)
    (capturedAll : Option (List String)) :
    ∀ r ∈ gates chain req captures capturedAll, r.Canonical := by
  intro r hr
  simp only [gates, List.mem_cons, List.not_mem_nil, or_false] at hr
  rcases hr with rfl | rfl | rfl | rfl | rfl
  · exact Chain.canonical_validateCaptures chain captures 0 capturedAll
  · exact Chain.canonical_hostCheck req chain
  · exact canonical_require (by decide)
  · rcases Chain.acceptCheck_eq chain req.accept with h | h <;> rw [h]
    · exact RouteResult.canonical_route ()
    · exact RouteResult.canonical_fail fun hcode => absurd hcode (by decide)
  · exact canonical_require (by decide)

variable [Base64Crate]

theorem preBodyCheck_ne_fail (req : RequestData) (c : Chain) (st : ExtractState)
    (e : ServerError) : (c.preBodyCheck req st).1 ≠ .fail e := by
  rcases preBodyCheck_spec req c st with ⟨users, -, h⟩ | ⟨e', checks, st', -, -, h, -⟩
  · rw [h]
    exact nofun
  · rw [h]
    exact nofun

variable [MimeCrate]

theorem canonical_runExtraction (label : Nat) (chain : Chain)
    (handler : chain.Args → Except ServerError chain.Output) (req : RequestData) :
    (runExtraction label chain handler req).Canonical := by
  rw [runExtraction_eq]
  refine (canonical_of_ne_fail (preBodyCheck_ne_fail req chain)).bind fun _ => ?_
  refine (canonical_of_ne_fail (plainStep_bodyStep chain).ne_fail).bind fun _ => ?_
  refine (Chain.canonical_extract req chain).bind fun args => ?_
  refine canonical_of_ne_fail fun st e => ?_
  obtain ⟨response, h⟩ := runHandler_spec label chain handler req args st
  rw [h]
  exact nofun

/-- **A recoverable 404 of a leaf is the plain one.** -/
theorem canonical_run (req : RequestData) (tail captures : List String)
    (capturedAll : Option (List String)) :
    ∀ leaf : Leaf, (leaf.run req tail captures capturedAll).Canonical
  | endpoint label chain handler context => by
      show (callEndpoint label chain handler context req captures capturedAll).Canonical
      rw [callEndpoint_eq]
      exact canonical_gated (canonical_gates chain req captures capturedAll)
        (canonical_inExtractState (canonical_runExtraction label chain handler req))
  | raw label handler =>
      (canonical_of_ne_fail buffered_ne_fail).bind fun _ =>
        (canonical_modify _).bind fun _ => canonical_pure _
  | rawM label handler context =>
      (canonical_of_ne_fail buffered_ne_fail).bind fun body =>
        (canonical_modify _).bind fun _ => by
          cases handler (.fromRequest req tail body) context with
          | ok response => exact canonical_pure _
          | error e => exact canonical_pure _
  | guard g inner =>
      (canonical_ofResult (g.canonical_check req)).bind fun _ =>
        canonical_run req tail captures capturedAll inner

theorem canonical_call (leaf : Leaf) (req : RequestData) (tail captures : List String)
    (capturedAll : Option (List String)) : (call leaf req tail captures capturedAll).Canonical :=
  (canonical_modify _).bind fun _ => canonical_run req tail captures capturedAll leaf

end Leaf

end ServantRs
