import ServantRs.Phases.NotFound

/-!
# Phases — captures are read twice

A leaf parses its captures before anything else (`validateCaptures`, by index) and again when it
extracts its arguments (`extract`, by a cursor).  The two walks read the same segments, so once the
first has let a request through, the second never fails recoverably (`extract_ne_fail`): by the
time the body is gone, a leaf answers or commits.
-/

namespace ServantRs

open RouteM ExtractState

section Seq

variable {H A B : Type} [AppTypes] {get : RouteM ExtractState H} {next : RouteM ExtractState A}
  {mk : H → A → B} {st : ExtractState}

/-- A step and a rest that do not fail recoverably. -/
theorem seq_ne_fail (hget : ∀ e, (get st).1 ≠ .fail e)
    (hnext : ∀ h st', get st = (.route h, st') → ∀ e, (next st').1 ≠ .fail e) (e : ServerError) :
    ((get >>= fun h => next >>= fun tail => RouteM.pure (mk h tail)) st).1 ≠ .fail e := by
  intro hfail
  rcases hg : get st with ⟨h | e' | e', st'⟩
  · rw [bind_route hg] at hfail
    rcases hn : next st' with ⟨tail | e' | e', st''⟩
    · rw [bind_route hn] at hfail
      cases hfail
    · exact hnext h st' hg e' (by rw [hn])
    · rw [bind_failFatal hn] at hfail
      cases hfail
  · exact hget e' (by rw [hg])
  · rw [bind_failFatal hg] at hfail
    cases hfail

end Seq

variable [AppTypes]

/-- The cursor stands at the capture `idx`; the slot of captured tails is as it was, or emptied. -/
structure Cursor (caps : List String) (idx : Nat) (ca : Option (List String))
    (st : ExtractState) : Prop where
  captures : st.captures = caps.drop idx
  capturedAll : st.capturedAll = ca ∨ st.capturedAll = none

namespace Cursor

variable {caps : List String} {idx : Nat} {ca : Option (List String)} {st st' : ExtractState}

theorem of_eq (h : Cursor caps idx ca st) (hc : st'.captures = st.captures)
    (ha : st'.capturedAll = st.capturedAll) : Cursor caps idx ca st' where
  captures := hc.trans h.captures
  capturedAll := h.capturedAll.imp ha.trans ha.trans

/-- What the cursor stands at is what the index names. -/
theorem head? (h : Cursor caps idx ca st) : st.captures.head? = caps[idx]? := by
  rw [h.captures, List.head?_drop]

theorem next (h : Cursor caps idx ca st) :
    Cursor caps (idx + 1) ca { st with captures := st.captures.tail } where
  captures := by
    show st.captures.tail = _
    rw [h.captures, List.tail_drop]
  capturedAll := h.capturedAll

theorem takeAll (h : Cursor caps idx ca st) : Cursor caps idx ca { st with capturedAll := none } where
  captures := h.captures
  capturedAll := .inr rfl

end Cursor

/-! ### Users leave the captures alone -/

/-- A computation that leaves the captures alone. -/
def KeepsCaptures {T : Type} (f : ExtractState → T × ExtractState) : Prop :=
  ∀ st, (f st).2.captures = st.captures ∧ (f st).2.capturedAll = st.capturedAll

theorem keepsCaptures_extractUser {Usr : AppTypes.TypeId}
    {resolve : ExtractState → Except ServerError (AppTypes.El Usr) × ExtractState}
    (h : KeepsCaptures resolve) : KeepsCaptures (Chain.extractUser Usr resolve) := by
  intro st
  cases hf : takeFirst Usr st.prechecked with
  | none =>
      have hp : takePrechecked Usr st = (.route none, st) := by rw [takePrechecked, hf]
      rw [Chain.extractUser, bind_route hp]
      show (orFatal resolve st).2.captures = _ ∧ (orFatal resolve st).2.capturedAll = _
      rw [orFatal_snd]
      exact h st
  | some found =>
      have hp : takePrechecked Usr st
          = (.route (some found.1), { st with prechecked := found.2 }) := by rw [takePrechecked, hf]
      rw [Chain.extractUser, bind_route hp]
      exact ⟨rfl, rfl⟩

section

variable [HttpCrate] [Base64Crate] {req : RequestData}

theorem keepsCaptures_of_resolves {Usr : AppTypes.TypeId} {site : ExtractState → AuthSite}
    {resolve : ExtractState → Except ServerError (AppTypes.El Usr) × ExtractState}
    (h : ∀ st, (site st).Resolves req resolve st) : KeepsCaptures resolve := by
  intro st
  rcases h st with ⟨user, -, hr⟩ | ⟨e, -, hr | hr⟩ <;> rw [hr]
  · exact ⟨rfl, rfl⟩
  · exact ⟨rfl, rfl⟩
  · exact ⟨rfl, rfl⟩

/-- An authentication combinator, then the rest of a chain. -/
theorem user_ne_fail {A B : Type} {Usr : AppTypes.TypeId} {next : RouteM ExtractState A}
    {mk : AppTypes.El Usr → A → B} {site : ExtractState → AuthSite} {caps : List String} {idx : Nat}
    {ca : Option (List String)} {st : ExtractState}
    {resolve : ExtractState → Except ServerError (AppTypes.El Usr) × ExtractState}
    (hr : ∀ st, (site st).Resolves req resolve st) (hst : Cursor caps idx ca st)
    (ih : ∀ st', Cursor caps idx ca st' → ∀ e, (next st').1 ≠ .fail e) (e : ServerError) :
    ((Chain.extractUser Usr resolve >>= fun h => next >>= fun tail =>
      RouteM.pure (mk h tail)) st).1 ≠ .fail e := by
  refine seq_ne_fail (Chain.extractUser_ne_fail Usr resolve st) (fun user st' hg => ih st' ?_) e
  have hkeep := keepsCaptures_extractUser (keepsCaptures_of_resolves hr) st
  rw [hg] at hkeep
  exact hst.of_eq hkeep.1 hkeep.2

end

/-! ### What was validated is extracted -/

variable [HttpCrate] [MimeCrate] [Base64Crate]

/-- **What was validated is extracted without a recoverable failure.** -/
theorem extract_ne_fail (req : RequestData) (caps : List String) (ca : Option (List String)) :
    ∀ (c : Chain) (idx : Nat), c.validateCaptures caps idx ca = .route () →
      ∀ st, Cursor caps idx ca st → ∀ e, (c.extract req st).1 ≠ .fail e
  | .verb _, _, _, st, _, e => nofun
  | .sub c next, idx, hv, st, hst, e => by
      have ih := extract_ne_fail req caps ca next
      by_cases hc : c.IsPlain
      · obtain ⟨H, get, mk, hget, -, heq⟩ := Chain.extract_plain req hc next
        have hnc : ¬ c.IsCapture := by
          cases c <;> first | exact id | exact hc.elim
        rw [Chain.validateCaptures_other hnc] at hv
        rw [heq]
        refine seq_ne_fail (hget.ne_fail st) (fun h st' hg => ih idx hv st' ?_) e
        have hcaps := hget.captures st
        have hall := hget.capturedAll st
        rw [hg] at hcaps hall
        exact hst.of_eq hcaps hall
      · cases c with
        | capture A data S name =>
            rw [Chain.validateCaptures_capture] at hv
            obtain ⟨⟨out, hout⟩, hv⟩ := RouteResult.of_andThen_eq_route hv
            refine seq_ne_fail (fun e' => ?_) (fun h st' hg => ih (idx + 1) hv st' ?_) e
            · rw [Chain.extractCapture_eq, hst.head?, hout]
              exact nofun
            · rw [Chain.extractCapture_eq] at hg
              obtain rfl : { st with captures := st.captures.tail } = st' := congrArg Prod.snd hg
              exact hst.next
        | captureAll A data name =>
            rw [Chain.validateCaptures_captureAll] at hv
            obtain ⟨⟨out, hout⟩, hv⟩ := RouteResult.of_andThen_eq_route hv
            refine seq_ne_fail (fun e' => ?_) (fun h st' hg => ih idx hv st' ?_) e
            · rw [Chain.extractCaptureAll_eq]
              rcases hst.capturedAll with hall | hall <;> rw [hall]
              · rw [hout]
                exact nofun
              · exact nofun
            · rw [Chain.extractCaptureAll_eq] at hg
              obtain rfl : { st with capturedAll := none } = st' := congrArg Prod.snd hg
              exact hst.takeAll
        | basicAuth Usr realm =>
            exact user_ne_fail (resolves_basicAuthUser next.depth Usr realm) hst (ih idx hv) e
        | authProtect Usr =>
            exact user_ne_fail (resolves_authProtectUser next.depth Usr) hst (ih idx hv) e
        | withNamedContext Name =>
            show (withNamedContext Name (next.extract req) st).1 ≠ .fail e
            rw [withNamedContext]
            cases st.lookupNamedContext Name with
            | none => exact ih idx hv st hst e
            | some named =>
                exact ih idx hv { st with contexts := named :: st.contexts } (hst.of_eq rfl rfl) e
        | _ => exact absurd trivial hc

/-- A leaf whose captures were validated does not fail recoverably any more. -/
theorem runExtraction_ne_fail {label : Nat} {chain : Chain}
    {handler : chain.Args → Except ServerError chain.Output} {req : RequestData}
    {caps : List String} {ca : Option (List String)} {context : Context}
    (hv : chain.validateCaptures caps 0 ca = .route ()) (w : World) (e : ServerError) :
    (Leaf.runExtraction label chain handler req (.new caps ca context w)).1 ≠ .fail e := by
  intro hfail
  rw [runExtraction_eq] at hfail
  rcases preBodyCheck_spec req chain (.new caps ca context w) with
    ⟨users, -, hpre⟩ | ⟨e', checks, st', -, -, hpre, -⟩
  · rw [bind_route hpre] at hfail
    generalize hst₁ : ({ ExtractState.new caps ca context w with
      prechecked := _, world := _ } : ExtractState) = st₁ at hfail
    have hcur : Cursor caps 0 ca st₁ := by
      rw [← hst₁]
      exact ⟨rfl, .inl rfl⟩
    have hbody := plainStep_bodyStep chain
    rcases hb : Leaf.bodyStep chain st₁ with ⟨_ | e' | e', st₂⟩
    · have hcaps := hbody.captures st₁
      have hall := hbody.capturedAll st₁
      rw [hb] at hcaps hall
      have hne := extract_ne_fail req caps ca chain 0 hv st₂ (hcur.of_eq hcaps hall)
      rw [bind_route hb] at hfail
      rcases hx : chain.extract req st₂ with ⟨args | e' | e', st₃⟩
      · obtain ⟨response, hrun⟩ := runHandler_spec label chain handler req args st₃
        rw [bind_route hx, hrun] at hfail
        cases hfail
      · exact hne e' (by rw [hx])
      · rw [bind_failFatal hx] at hfail
        cases hfail
    · exact hbody.ne_fail st₁ e' (by rw [hb])
    · rw [bind_failFatal hb] at hfail
      cases hfail
  · rw [bind_failFatal hpre] at hfail
    cases hfail

end ServantRs
