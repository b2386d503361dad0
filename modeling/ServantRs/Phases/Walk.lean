import ServantRs.Server.Handler

/-!
# Phases — one step of the walks

What one combinator does to the state the walks over a chain share.  Most combinators only read
the request and add an argument (`Comb.IsPlain`); `extract_plain` says this once for all of them,
so that a property of whole walks is a matter of the five that are left: captures, users and named
contexts.
-/

namespace ServantRs

open RouteM ExtractState

namespace Chain

/-! ### What is read from a request never fails recoverably -/

theorem extractQueryParam_ne_fail {A : Type} (data : HttpApiData A) (P : Presence) (S : Strictness)
    (name : String) (query : List QueryPair) (e : ServerError) :
    extractQueryParam data P S name query ≠ .fail e := by
  rw [extractQueryParam]
  split <;> simp

theorem extractQueryParams_ne_fail {A : Type} (data : HttpApiData A) (name : String)
    (query : List QueryPair) (e : ServerError) : extractQueryParams data name query ≠ .fail e := by
  rw [extractQueryParams]
  split <;> simp

theorem extractDeepQuery_ne_fail {A : Type} (data : DeepQueryData A) (name : String)
    (query : List QueryPair) (e : ServerError) : extractDeepQuery data name query ≠ .fail e := by
  rw [extractDeepQuery]
  split
  · simp
  · split <;> simp

theorem extractHeader_ne_fail [HttpCrate] {A : Type} (data : HttpApiData A) (P : Presence)
    (S : Strictness) (name : String) (headers : HeaderMap) (e : ServerError) :
    extractHeader data P S name headers ≠ .fail e := by
  rw [extractHeader]
  split <;> simp

/-! ### What a capture makes of its segments -/

def captureResult {A : Type} (data : HttpApiData A) (S : Strictness) (name : String) :
    Option String → RouteResult (CaptureShape.Out S A)
  | none => .fail notFoundCapture
  | some seg =>
    match CaptureShape.build S (data.fromUrlPiece seg) with
    | .ok out  => .route out
    | .error e => .fail (captureError name e)

def captureAllResult {A : Type} (data : HttpApiData A) (name : String) (segs : List String) :
    RouteResult (List A) :=
  match parseSegments data segs with
  | .ok out  => .route out
  | .error e => .fail (captureAllError name e)

end Chain

section

variable [AppTypes]

namespace Comb

/-- Neither a capture nor a user nor a named context. -/
def IsPlain : Comb → Prop
  | capture .. | captureAll .. | basicAuth .. | authProtect _ | withNamedContext _ => False
  | _ => True

/-- A combinator that takes segments. -/
def IsCapture : Comb → Prop
  | capture .. | captureAll .. => True
  | _ => False

end Comb

/-- A computation that writes down nothing but that it hands out the body. -/
def BodyEventsOnly {T : Type} (x : RouteM ExtractState T) (st : ExtractState) : Prop :=
  ∃ events : List Event, (∀ e ∈ events, e.IsBody) ∧ (x st).2.world.log = st.world.log ++ events

/-- A step that leaves the users as they are; of what it does it writes down that it hands out the
body, if it does. -/
structure QuietStep {H : Type} (get : RouteM ExtractState H) : Prop where
  prechecked : ∀ st, (get st).2.prechecked = st.prechecked
  log : ∀ st, BodyEventsOnly get st

/-- A quiet step that leaves the captures as they are and never fails recoverably. -/
structure PlainStep {H : Type} (get : RouteM ExtractState H) : Prop extends QuietStep get where
  captures : ∀ st, (get st).2.captures = st.captures
  capturedAll : ∀ st, (get st).2.capturedAll = st.capturedAll
  ne_fail : ∀ st e, (get st).1 ≠ .fail e

theorem QuietStep.of_world {H : Type} {get : RouteM ExtractState H}
    (hp : ∀ st, (get st).2.prechecked = st.prechecked) (hw : ∀ st, (get st).2.world = st.world) :
    QuietStep get where
  prechecked := hp
  log st := ⟨[], by simp, by rw [hw, List.append_nil]⟩

namespace PlainStep

variable {H : Type}

/-- A step that leaves the state as it is. -/
theorem of_eq {get : RouteM ExtractState H} (h : ∀ st, (get st).2 = st)
    (hf : ∀ st e, (get st).1 ≠ .fail e) : PlainStep get where
  toQuietStep := .of_world (fun st => by rw [h]) fun st => by rw [h]
  captures st := by rw [h]
  capturedAll st := by rw [h]
  ne_fail := hf

theorem ofResult {r : RouteResult H} (h : ∀ e, r ≠ .fail e) :
    PlainStep (RouteM.ofResult r : RouteM ExtractState H) :=
  of_eq (fun _ => rfl) fun _ => h

theorem pure (h : H) : PlainStep (RouteM.pure h : RouteM ExtractState H) :=
  of_eq (fun _ => rfl) fun _ _ => by simp [RouteM.pure]

end PlainStep

/-! ### A step, then the rest of a chain -/

section Seq

variable {H A B : Type} {get : RouteM ExtractState H} {next : RouteM ExtractState A}
  {mk : H → A → B} {st : ExtractState}

theorem BodyEventsOnly.seq (hget : BodyEventsOnly get st)
    (hnext : ∀ h st', get st = (.route h, st') → BodyEventsOnly next st') :
    BodyEventsOnly (get >>= fun h => next >>= fun tail => RouteM.pure (mk h tail)) st := by
  obtain ⟨events, hbody, hlog⟩ := hget
  rcases hg : get st with ⟨h | e | e, st'⟩ <;> rw [hg] at hlog
  · obtain ⟨events', hbody', hlog'⟩ := hnext h st' hg
    refine ⟨events ++ events', fun e he => ?_, ?_⟩
    · exact (List.mem_append.mp he).elim (hbody e) (hbody' e)
    · rw [bind_route hg, ← List.append_assoc, ← hlog]
      rcases hn : next st' with ⟨_ | _ | _, st''⟩ <;> rw [hn] at hlog'
      · rw [bind_route hn]
        exact hlog'
      · rw [bind_fail hn]
        exact hlog'
      · rw [bind_failFatal hn]
        exact hlog'
  · exact ⟨events, hbody, by rw [bind_fail hg]; exact hlog⟩
  · exact ⟨events, hbody, by rw [bind_failFatal hg]; exact hlog⟩

/-- What answers with a head and a tail had the head first. -/
theorem of_seq_eq_route {args : B} {st' : ExtractState}
    (h : (get >>= fun h => next >>= fun tail => RouteM.pure (mk h tail)) st = (.route args, st')) :
    ∃ head tail st₁, get st = (.route head, st₁) ∧ next st₁ = (.route tail, st') ∧
      args = mk head tail := by
  obtain ⟨head, st₁, hget, hrest⟩ := of_bind_eq_route h
  obtain ⟨tail, st₂, hnext, hpure⟩ := of_bind_eq_route hrest
  cases hpure
  exact ⟨head, tail, _, hget, hnext, rfl⟩

end Seq

theorem orFatal_ok {T : Type} {f : ExtractState → Except ServerError T × ExtractState}
    {st st' : ExtractState} {t : T} (h : f st = (.ok t, st')) :
    orFatal f st = (.route t, st') := by
  rw [orFatal, h]

theorem orFatal_error {T : Type} {f : ExtractState → Except ServerError T × ExtractState}
    {st st' : ExtractState} {e : ServerError} (h : f st = (.error e, st')) :
    orFatal f st = (.failFatal e, st') := by
  rw [orFatal, h]

theorem of_orFatal_eq_route {T : Type} {f : ExtractState → Except ServerError T × ExtractState}
    {st st' : ExtractState} {t : T} (h : orFatal f st = (.route t, st')) : f st = (.ok t, st') := by
  rcases hf : f st with ⟨e | t', st''⟩
  · rw [orFatal_error hf] at h
    cases h
  · rw [orFatal_ok hf] at h
    cases h
    rfl

theorem orFatal_ne_fail {T : Type} (f : ExtractState → Except ServerError T × ExtractState)
    (st : ExtractState) (e : ServerError) : (orFatal f st).1 ≠ .fail e := by
  rcases h : f st with ⟨_ | _, st'⟩ <;> simp [orFatal, h]

theorem orFatal_snd {T : Type} (f : ExtractState → Except ServerError T × ExtractState)
    (st : ExtractState) : (orFatal f st).2 = (f st).2 := by
  rcases h : f st with ⟨_ | _, st'⟩ <;> simp [orFatal, h]

theorem plainStep_takeBody : PlainStep Chain.takeBody where
  prechecked _ := by rw [Chain.takeBody, orFatal_snd]
  log _ := ⟨[.take], by simp [Event.IsBody], by rw [Chain.takeBody, orFatal_snd]; rfl⟩
  captures _ := by rw [Chain.takeBody, orFatal_snd]
  capturedAll _ := by rw [Chain.takeBody, orFatal_snd]
  ne_fail := orFatal_ne_fail _

theorem plainStep_bufferBody : PlainStep Leaf.bufferBody where
  prechecked _ := by rw [Leaf.bufferBody, orFatal_snd]
  log _ := ⟨[.buffer], by simp [Event.IsBody], by rw [Leaf.bufferBody, orFatal_snd]; rfl⟩
  captures _ := by rw [Leaf.bufferBody, orFatal_snd]
  capturedAll _ := by rw [Leaf.bufferBody, orFatal_snd]
  ne_fail := orFatal_ne_fail _

theorem plainStep_extractResource (R : AppTypes.TypeId) :
    PlainStep (Chain.extractResource R) := by
  refine .of_eq (fun st => ?_) (orFatal_ne_fail _)
  rw [Chain.extractResource, orFatal_snd]
  cases st.lookupResourceProvider R <;> rfl

namespace Chain

section

variable [HttpCrate]

variable [MimeCrate]

theorem extractReqBody_ne_fail {A : Type} (ctypes : List (Codec A)) (S : Strictness)
    (req : RequestData) (body : RequestBody) (e : ServerError) :
    extractReqBody ctypes S req body ≠ .fail e := by
  rw [extractReqBody]
  split
  · simp
  · split
    · simp
    · split <;> simp

/-! ### The users among a handler's arguments -/

/-- The user at each authentication combinator's argument, with the combinator's position. -/
def userArgs : (c : Chain) → c.Args → List (Nat × Dyn)
  | verb _, _ => []
  | sub (.basicAuth Usr _) next, (user, tail) => (next.depth, ⟨Usr, user⟩) :: next.userArgs tail
  | sub (.authProtect Usr) next, (user, tail) => (next.depth, ⟨Usr, user⟩) :: next.userArgs tail
  | sub (.capture ..) next, (_, tail) | sub (.captureAll ..) next, (_, tail)
  | sub (.queryParam ..) next, (_, tail) | sub (.queryParams ..) next, (_, tail)
  | sub (.queryFlag _) next, (_, tail) | sub .queryString next, (_, tail)
  | sub (.deepQuery ..) next, (_, tail) | sub (.header ..) next, (_, tail)
  | sub (.reqBody ..) next, (_, tail) | sub (.streamBody ..) next, (_, tail)
  | sub .vault next, (_, tail) | sub (.withResource _) next, (_, tail)
  | sub .isSecure next, (_, tail) | sub .httpVersion next, (_, tail)
  | sub .remoteHost next, (_, tail) => next.userArgs tail
  | sub (.path _) next, args | sub (.host _) next, args | sub (.fragment ..) next, args
  | sub (.description _) next, args | sub (.summary _) next, args
  | sub (.operationId _) next, args | sub (.withNamedContext _) next, args => next.userArgs args

/-! ### Plain combinators -/

variable [Base64Crate] {req : RequestData}

/-- A plain combinator's extraction: a plain step, then the rest of the chain. -/
theorem extract_plain (req : RequestData) {c : Comb} (hc : c.IsPlain) (next : Chain) :
    ∃ (H : Type) (get : RouteM ExtractState H) (mk : H → next.Args → (sub c next).Args),
      PlainStep get ∧ (∀ h tail, (sub c next).userArgs (mk h tail) = next.userArgs tail) ∧
      (sub c next).extract req
        = (get >>= fun h => next.extract req >>= fun tail => RouteM.pure (mk h tail)) := by
  cases c with
  | capture | captureAll | basicAuth | authProtect | withNamedContext => exact hc.elim
  | queryParam A data P S name =>
      exact ⟨_, _, Prod.mk, .ofResult (extractQueryParam_ne_fail data P S name req.query),
        fun _ _ => rfl, rfl⟩
  | queryParams A data name =>
      exact ⟨_, _, Prod.mk, .ofResult (extractQueryParams_ne_fail data name req.query),
        fun _ _ => rfl, rfl⟩
  | deepQuery A data name =>
      exact ⟨_, _, Prod.mk, .ofResult (extractDeepQuery_ne_fail data name req.query),
        fun _ _ => rfl, rfl⟩
  | header A data P S name =>
      exact ⟨_, _, Prod.mk, .ofResult (extractHeader_ne_fail data P S name req.headers),
        fun _ _ => rfl, rfl⟩
  | reqBody A ctypes S =>
      exact ⟨_, _, Prod.mk, .of_eq (fun _ => rfl)
        (fun st => extractReqBody_ne_fail ctypes S req st.world.body), fun _ _ => rfl, rfl⟩
  | streamBody framing T codec =>
      exact ⟨_, _, fun body tail => (decodeStream framing codec body, tail), plainStep_takeBody,
        fun _ _ => rfl, rfl⟩
  | withResource R =>
      exact ⟨_, _, Prod.mk, plainStep_extractResource R, fun _ _ => rfl, rfl⟩
  | queryFlag | queryString | vault | isSecure | httpVersion | remoteHost =>
      exact ⟨_, RouteM.pure _, Prod.mk, .pure _, fun _ _ => rfl, rfl⟩
  | path | host | fragment | description | summary | operationId =>
      exact ⟨Unit, RouteM.pure (), fun _ tail => tail, .pure _, fun _ _ => rfl,
        (RouteM.bind_pure _).symm⟩

omit [MimeCrate] in
/-- A plain combinator adds nothing to the checks before the body. -/
theorem preBodyCheck_plain {c : Comb} (hc : c.IsPlain) (next : Chain) :
    (sub c next).preBodyCheck req = next.preBodyCheck req := by
  cases c <;> first | rfl | exact hc.elim

end

/-! ### Captures before extraction -/

theorem validateCaptures_other {c : Comb} (hc : ¬ c.IsCapture) (next : Chain) (caps : List String)
    (idx : Nat) (ca : Option (List String)) :
    (sub c next).validateCaptures caps idx ca = next.validateCaptures caps idx ca := by
  cases c <;> first | rfl | exact absurd trivial hc

theorem validateCaptures_capture {A : Type} (data : HttpApiData A) (S : Strictness) (name : String)
    (next : Chain) (caps : List String) (idx : Nat) (ca : Option (List String)) :
    (sub (.capture A data S name) next).validateCaptures caps idx ca
      = (captureResult data S name caps[idx]?).andThen
          (next.validateCaptures caps (idx + 1) ca) := by
  rw [validateCaptures]
  cases caps[idx]? with
  | none => rfl
  | some seg =>
      dsimp only [captureResult]
      cases CaptureShape.build S (data.fromUrlPiece seg) <;> rfl

theorem validateCaptures_captureAll {A : Type} (data : HttpApiData A) (name : String)
    (next : Chain) (caps : List String) (idx : Nat) (ca : Option (List String)) :
    (sub (.captureAll A data name) next).validateCaptures caps idx ca
      = (captureAllResult data name (ca.getD [])).andThen (next.validateCaptures caps idx ca) := by
  rw [validateCaptures, captureAllResult]
  cases parseSegments data (ca.getD []) <;> rfl

/-! ### Captures and users in extraction -/

theorem extractCapture_eq {A : Type} (data : HttpApiData A) (S : Strictness) (name : String)
    (st : ExtractState) : extractCapture data S name st
      = (captureResult data S name st.captures.head?, { st with captures := st.captures.tail }) := by
  rw [extractCapture, bind_route (rfl : nextCapture st = (.route st.captures.head?, _))]
  cases st.captures.head? with
  | none => rfl
  | some seg =>
      dsimp only [captureResult]
      cases CaptureShape.build S (data.fromUrlPiece seg) <;> rfl

theorem extractCaptureAll_eq {A : Type} (data : HttpApiData A) (name : String)
    (st : ExtractState) : extractCaptureAll data name st
      = (captureAllResult data name (st.capturedAll.getD []), { st with capturedAll := none }) := by
  rw [extractCaptureAll, bind_route (rfl : takeCaptureAll st = (.route (st.capturedAll.getD []), _)),
    captureAllResult]
  cases parseSegments data (st.capturedAll.getD []) <;> rfl

theorem quietStep_extractCapture {A : Type} (data : HttpApiData A) (S : Strictness)
    (name : String) : QuietStep (extractCapture data S name) :=
  .of_world (fun st => by rw [extractCapture_eq]) fun st => by rw [extractCapture_eq]

theorem quietStep_extractCaptureAll {A : Type} (data : HttpApiData A) (name : String) :
    QuietStep (extractCaptureAll data name) :=
  .of_world (fun st => by rw [extractCaptureAll_eq]) fun st => by rw [extractCaptureAll_eq]

/-- A user is found, or the request is rejected for good. -/
theorem extractUser_ne_fail (Usr : AppTypes.TypeId)
    (resolve : ExtractState → Except ServerError (AppTypes.El Usr) × ExtractState)
    (st : ExtractState) (e : ServerError) : (extractUser Usr resolve st).1 ≠ .fail e := by
  cases h : takeFirst Usr st.prechecked with
  | none =>
      have hp : takePrechecked Usr st = (.route none, st) := by rw [takePrechecked, h]
      rw [extractUser, bind_route hp]
      exact orFatal_ne_fail resolve st e
  | some found =>
      have hp : takePrechecked Usr st
          = (.route (some found.1), { st with prechecked := found.2 }) := by rw [takePrechecked, h]
      rw [extractUser, bind_route hp]
      simp [RouteM.pure]

end Chain

end

/-! ### The phases of a leaf -/

theorem Leaf.require_eq_route {b : Bool} {e : ServerError} :
    Leaf.require b e = .route () ↔ b = true := by
  cases b <;> simp [Leaf.require]

theorem Leaf.require_ne_failFatal {b : Bool} {e e' : ServerError} :
    Leaf.require b e ≠ .failFatal e' := by
  cases b <;> simp [Leaf.require]

theorem Leaf.require_eq_fail {b : Bool} {e e' : ServerError} (h : Leaf.require b e = .fail e') :
    e' = e := by
  cases b with
  | true => cases h
  | false => exact (RouteResult.fail.inj h).symm

section Leaf

variable [AppTypes]

/-- An `Accept` header is negotiated, or the route does not apply. -/
theorem Chain.acceptCheck_eq (chain : Chain) (accept : Option String) :
    chain.acceptCheck accept = .route () ∨ chain.acceptCheck accept = .fail .err406 := by
  unfold Chain.acceptCheck
  cases chain.terminal with
  | noContentVerb M => exact .inl rfl
  | verb | verbWithHeaders | uverb | streamVerb =>
      dsimp only
      split
      · exact .inl rfl
      · exact .inr rfl

/-- The body is buffered when the chain asks for it. -/
def Leaf.bodyStep (chain : Chain) : RouteM ExtractState Unit :=
  if chain.requestBodyMode = some .buffered then Leaf.bufferBody else RouteM.pure ()

theorem plainStep_bodyStep (chain : Chain) : PlainStep (Leaf.bodyStep chain) := by
  rw [Leaf.bodyStep]
  split
  · exact plainStep_bufferBody
  · exact .pure ()

variable [HttpCrate]

/-- A handler is written down, and its answer is the response. -/
theorem runHandler_spec (label : Nat) (chain : Chain)
    (handler : chain.Args → Except ServerError chain.Output) (req : RequestData)
    (args : chain.Args) (st : ExtractState) :
    ∃ response, Leaf.runHandler label chain handler req args st
      = (.route response, st.record (.handler label chain args)) := by
  have hrec : RouteM.modify (·.record (.handler label chain args)) st
      = (.route (), st.record (.handler label chain args)) := rfl
  rw [Leaf.runHandler, bind_route hrec]
  cases handler args with
  | ok out => exact ⟨_, rfl⟩
  | error e => exact ⟨_, rfl⟩

variable [MimeCrate] [Base64Crate]

/-- The checks that come before authentication. -/
def Leaf.gates (chain : Chain) (req : RequestData) (captures : List String)
    (capturedAll : Option (List String)) : List (RouteResult Unit) :=
  [chain.validateCaptures captures 0 capturedAll, chain.hostCheck req,
    Leaf.require (Leaf.methodOk chain req) .err405, chain.acceptCheck req.accept,
    Leaf.require (Leaf.contentTypeOk chain req) .err415]

theorem callEndpoint_eq (label : Nat) (chain : Chain)
    (handler : chain.Args → Except ServerError chain.Output) (context : Context)
    (req : RequestData) (captures : List String) (capturedAll : Option (List String)) :
    Leaf.callEndpoint label chain handler context req captures capturedAll
      = gated (Leaf.gates chain req captures capturedAll)
          (Leaf.inExtractState captures capturedAll context
            (Leaf.runExtraction label chain handler req)) := rfl

theorem runExtraction_eq (label : Nat) (chain : Chain)
    (handler : chain.Args → Except ServerError chain.Output) (req : RequestData) :
    Leaf.runExtraction label chain handler req
      = chain.preBodyCheck req >>= fun _ => Leaf.bodyStep chain >>= fun _ =>
          chain.extract req >>= fun args => Leaf.runHandler label chain handler req args := by
  rw [Leaf.runExtraction, Leaf.bodyStep]
  split <;> rfl

end Leaf

end ServantRs
