import ServantRs.Phases.Walk

/-!
# Phases — what is written down is not read

The phases of an endpoint write into the log of a dispatch and never look at it.  Two runs from
states that differ in nothing but their logs end in the same result, and in states that differ in
nothing but their logs (`LogBlind`): `LogBlind.runExtraction`.
-/

namespace ServantRs

open RouteM ExtractState

variable [AppTypes]

/-- The state with another log. -/
def ExtractState.relog (log : List Event) (st : ExtractState) : ExtractState :=
  { st with world := { st.world with log := log } }

/-- The log makes no difference to the result. -/
def LogBlind {T : Type} (x : RouteM ExtractState T) : Prop :=
  ∀ st log, ∃ log', x (st.relog log) = ((x st).1, (x st).2.relog log')

namespace LogBlind

variable {T U : Type}

theorem pure (t : T) : LogBlind (RouteM.pure t : RouteM ExtractState T) := fun _ log => ⟨log, rfl⟩

theorem ofResult (r : RouteResult T) : LogBlind (RouteM.ofResult r : RouteM ExtractState T) :=
  fun _ log => ⟨log, rfl⟩

theorem bind {x : RouteM ExtractState T} {k : T → RouteM ExtractState U} (hx : LogBlind x)
    (hk : ∀ t, LogBlind (k t)) : LogBlind (x >>= k) := by
  intro st log
  obtain ⟨log', h⟩ := hx st log
  rcases hxst : x st with ⟨t | e | e, st'⟩ <;> rw [hxst] at h
  · obtain ⟨log'', hk⟩ := hk t st' log'
    exact ⟨log'', by rw [bind_route h, bind_route hxst, hk]⟩
  · exact ⟨log', by rw [bind_fail h, bind_fail hxst]⟩
  · exact ⟨log', by rw [bind_failFatal h, bind_failFatal hxst]⟩

theorem consTail {H : Type} (head : H) {tail : RouteM ExtractState T} (h : LogBlind tail) :
    LogBlind (Chain.consTail head tail) := h.bind fun _ => .pure _

/-- A change of state that changes the log, or works on what is not the log. -/
theorem modify {f : ExtractState → ExtractState}
    (h : ∀ st log, ∃ log', f (st.relog log) = (f st).relog log') : LogBlind (RouteM.modify f) := by
  intro st log
  obtain ⟨log', hf⟩ := h st log
  exact ⟨log', congrArg (Prod.mk _) hf⟩

theorem orFatal {f : ExtractState → Except ServerError T × ExtractState}
    (h : ∀ st log, ∃ log', f (st.relog log) = ((f st).1, (f st).2.relog log')) :
    LogBlind (ServantRs.orFatal f) := by
  intro st log
  obtain ⟨log', hf⟩ := h st log
  refine ⟨log', ?_⟩
  rcases hfst : f st with ⟨e | t, st'⟩ <;> rw [hfst] at hf
  · rw [orFatal_error hf, orFatal_error hfst]
  · rw [orFatal_ok hf, orFatal_ok hfst]

theorem withNamedContext (Name : AppTypes.ContextName) {x : RouteM ExtractState T}
    (h : LogBlind x) : LogBlind (ServantRs.withNamedContext Name x) := by
  intro st log
  have hlookup : (st.relog log).lookupNamedContext Name = st.lookupNamedContext Name := rfl
  rw [ServantRs.withNamedContext, ServantRs.withNamedContext, hlookup]
  cases st.lookupNamedContext Name with
  | none => exact h st log
  | some named =>
      obtain ⟨log', hx⟩ := h { st with contexts := named :: st.contexts } log
      have henter :
          ({ st.relog log with contexts := named :: (st.relog log).contexts } : ExtractState)
            = ExtractState.relog log { st with contexts := named :: st.contexts } := rfl
      exact ⟨log', by dsimp only; rw [henter, hx]; rfl⟩

/-! ### Steps -/

theorem takeBody : LogBlind Chain.takeBody := .orFatal fun _ log => ⟨log ++ [.take], rfl⟩

theorem bodyStep (chain : Chain) : LogBlind (Leaf.bodyStep chain) := by
  rw [Leaf.bodyStep]
  split
  · exact .orFatal fun _ log => ⟨log ++ [.buffer], rfl⟩
  · exact .pure ()

theorem extractResource (R : AppTypes.TypeId) : LogBlind (Chain.extractResource R) := by
  refine .orFatal fun st log => ⟨log, ?_⟩
  have hlookup : (st.relog log).lookupResourceProvider R = st.lookupResourceProvider R := rfl
  rw [hlookup]
  cases st.lookupResourceProvider R with
  | none => rfl
  | some provider => rfl

theorem pushPrechecked (Usr : AppTypes.TypeId) (user : AppTypes.El Usr) :
    LogBlind (ExtractState.pushPrechecked Usr user) := .modify fun _ log => ⟨log, rfl⟩

theorem extractUser (Usr : AppTypes.TypeId)
    {resolve : ExtractState → Except ServerError (AppTypes.El Usr) × ExtractState}
    (h : ∀ st log, ∃ log', resolve (st.relog log) = ((resolve st).1, (resolve st).2.relog log')) :
    LogBlind (Chain.extractUser Usr resolve) := by
  refine .bind (fun st log => ⟨log, ?_⟩) fun user => ?_
  · have hprechecked : (st.relog log).prechecked = st.prechecked := rfl
    rw [takePrechecked, takePrechecked, hprechecked]
    cases takeFirst Usr st.prechecked with
    | none => rfl
    | some found => rfl
  · cases user with
    | none => exact .orFatal h
    | some user => exact .pure user

end LogBlind

theorem authProtectUser_relog (req : RequestData) (position : Nat)
    (Usr : AppTypes.TypeId) (st : ExtractState) (log : List Event) :
    ∃ log', authProtectUser req position Usr (st.relog log)
      = ((authProtectUser req position Usr st).1,
          (authProtectUser req position Usr st).2.relog log') := by
  have hlookup : (st.relog log).lookupAuthCheck Usr = st.lookupAuthCheck Usr := rfl
  rw [authProtectUser, authProtectUser, hlookup]
  cases st.lookupAuthCheck Usr with
  | none => exact ⟨log, rfl⟩
  | some check => exact ⟨log ++ [.check position], rfl⟩

section

variable [HttpCrate] [Base64Crate] (req : RequestData)

theorem basicAuthUser_relog (position : Nat) (Usr : AppTypes.TypeId) (realm : String)
    (st : ExtractState) (log : List Event) :
    ∃ log', basicAuthUser req position Usr realm (st.relog log)
      = ((basicAuthUser req position Usr realm st).1,
          (basicAuthUser req position Usr realm st).2.relog log') := by
  have hlookup : (st.relog log).lookupBasicAuthCheck Usr = st.lookupBasicAuthCheck Usr := rfl
  rw [basicAuthUser, basicAuthUser, hlookup]
  cases st.lookupBasicAuthCheck Usr with
  | none => exact ⟨log, rfl⟩
  | some check =>
      cases (req.headerText .AUTHORIZATION).bind parseBasicAuth with
      | none => exact ⟨log, rfl⟩
      | some data =>
          dsimp only
          cases check data <;> exact ⟨log ++ [.check position], rfl⟩

namespace LogBlind

theorem preBodyCheck : ∀ c : Chain, LogBlind (c.preBodyCheck req)
  | .verb _ => .pure ()
  | .sub c next => by
      have ih := preBodyCheck next
      by_cases hc : c.IsPlain
      · rw [Chain.preBodyCheck_plain hc]
        exact ih
      · cases c with
        | basicAuth Usr realm =>
            exact .bind (.orFatal (basicAuthUser_relog req _ Usr realm)) fun user =>
              .bind (.pushPrechecked Usr user) fun _ => ih
        | authProtect Usr =>
            exact .bind (.orFatal (authProtectUser_relog req _ Usr)) fun user =>
              .bind (.pushPrechecked Usr user) fun _ => ih
        | withNamedContext Name => exact .withNamedContext Name ih
        | capture | captureAll => exact ih
        | _ => exact absurd trivial hc

end LogBlind

end

namespace LogBlind

theorem extractCapture {A : Type} (data : HttpApiData A) (S : Strictness) (name : String) :
    LogBlind (Chain.extractCapture data S name) := by
  refine .bind (fun _ log => ⟨log, rfl⟩) fun seg => ?_
  cases seg with
  | none => exact .ofResult (.fail _)
  | some seg =>
      dsimp only
      cases CaptureShape.build S (data.fromUrlPiece seg) with
      | ok out => exact .pure out
      | error e => exact .ofResult (.fail _)

theorem extractCaptureAll {A : Type} (data : HttpApiData A) (name : String) :
    LogBlind (Chain.extractCaptureAll data name) := by
  refine .bind (fun _ log => ⟨log, rfl⟩) fun segs => ?_
  cases Chain.parseSegments data segs with
  | ok out => exact .pure out
  | error e => exact .ofResult (.fail _)

variable [HttpCrate] [MimeCrate] [Base64Crate] (req : RequestData)

theorem extract : ∀ c : Chain, LogBlind (c.extract req)
  | .verb _ => .pure ()
  | .sub c next => by
      have ih := extract next
      cases c with
      | capture A data S name => exact .bind (.extractCapture data S name) fun _ => .consTail _ ih
      | captureAll A data name => exact .bind (.extractCaptureAll data name) fun _ => .consTail _ ih
      | queryParam | queryParams | deepQuery | header =>
          exact .bind (.ofResult _) fun _ => .consTail _ ih
      | queryFlag | queryString | vault | isSecure | httpVersion | remoteHost =>
          exact .consTail _ ih
      | reqBody A ctypes S => exact .bind (fun _ log => ⟨log, rfl⟩) fun _ => .consTail _ ih
      | streamBody => exact .bind .takeBody fun _ => .consTail _ ih
      | withResource R => exact .bind (.extractResource R) fun _ => .consTail _ ih
      | basicAuth Usr realm =>
          exact .bind (.extractUser Usr (basicAuthUser_relog req _ Usr realm)) fun _ =>
            .consTail _ ih
      | authProtect Usr =>
          exact .bind (.extractUser Usr (authProtectUser_relog req _ Usr)) fun _ => .consTail _ ih
      | withNamedContext Name => exact .withNamedContext Name ih
      | path | host | fragment | description | summary | operationId => exact ih

/-- **An endpoint does not read what was written down.** -/
theorem runExtraction (label : Nat) (chain : Chain)
    (handler : chain.Args → Except ServerError chain.Output) :
    LogBlind (Leaf.runExtraction label chain handler req) := by
  rw [runExtraction_eq]
  refine .bind (.preBodyCheck req chain) fun _ => .bind (.bodyStep chain) fun _ =>
    .bind (.extract req chain) fun args => ?_
  rw [Leaf.runHandler]
  refine .bind (.modify fun _ log => ⟨log ++ [.handler label chain args], rfl⟩) fun _ => ?_
  cases handler args with
  | ok out => exact .pure _
  | error e => exact .pure _

end LogBlind

end ServantRs
