import ServantRs.Messages.Codecs
import ServantRs.Phases.Auth

/-!
# Phases — the content type, looked at twice

An endpoint looks at the `Content-Type` of a request before it touches the body, against every media
type of its codecs at once (`Chain.contentTypeAcceptable`), and once more when the body is decoded,
codec by codec (`negotiateContent`).  Each reads the header on its own and has its own default.

The two agree, so that a body which extraction comes to can be decoded: the 415 that `ReqBody` has
for one that cannot is never given.  `Chain.extractWith` has the reading of a body as a parameter,
and `Leaf.callEndpointWith` is the call of a leaf that extracts so; a reader that differs from the
code's in that branch alone makes no difference to a call.

* `contentTypeAcceptable_iff`: the check and the decoder agree.
* `Chain.Decodes`: what has to hold of the bodies a walk reads; `decodes_of_contentTypeOk`.
-/

namespace ServantRs

open RouteM ExtractState

/-! ### The check and the decoder -/

section

variable [MimeCrate]

/-- A header names one of these media types; an absent one names octets. -/
def NamesOneOf (contentType : Option String) (types : List Mime) : Prop :=
  ∃ ct, requestContentType contentType = some ct ∧ ∃ m ∈ types, m.SameSubtype ct

theorem contentTypeAcceptable_iff_names {types : List Mime} {contentType : Option String} :
    Chain.contentTypeAcceptable types contentType = true ↔ NamesOneOf contentType types := by
  cases contentType with
  | none =>
      simp only [Chain.contentTypeAcceptable, NamesOneOf, requestContentType, List.any_eq_true,
        mediaTypeMatches_iff, Option.some.injEq, exists_eq_left']
  | some text =>
      simp only [Chain.contentTypeAcceptable, NamesOneOf, requestContentType]
      cases MimeCrate.parse (trim text) with
      | none => simp
      | some ct =>
          simp only [List.any_eq_true, mediaTypeMatches_iff, Option.some.injEq, exists_eq_left']

theorem negotiateContent_isSome_iff_names {A : Type} {L : List (Codec A)}
    {contentType : Option String} {body : Bytes} :
    (negotiateContent L contentType body).isSome = true
      ↔ NamesOneOf contentType (Codec.allMediaTypes L) := by
  rw [negotiateContent, NamesOneOf]
  cases requestContentType contentType with
  | none => simp
  | some ct =>
      have hread : (Codec.unrender L ct body).isSome = true
          ↔ ¬ ∀ m ∈ Codec.allMediaTypes L, ¬ m.SameSubtype ct :=
        Option.isSome_iff_ne_none.trans (not_congr Codec.unrender_eq_none_iff)
      simpa using hread

/-- **The check and the decoder agree.** -/
theorem contentTypeAcceptable_iff {A : Type} (L : List (Codec A)) (contentType : Option String)
    (body : Bytes) : Chain.contentTypeAcceptable (Codec.allMediaTypes L) contentType = true
      ↔ (negotiateContent L contentType body).isSome = true :=
  contentTypeAcceptable_iff_names.trans negotiateContent_isSome_iff_names.symm

end

/-! ### Computations that do the same -/

section

variable {σ : Type*} {T U : Type} {P P' P'' : σ → Prop}

/-- From a state of `P` two computations do the same, and an answer leaves a state of `P'`. -/
structure AgreeOn (P P' : σ → Prop) (x y : RouteM σ T) : Prop where
  eq : ∀ s, P s → x s = y s
  post : ∀ s t s', P s → x s = (.route t, s') → P' s'

namespace AgreeOn

theorem same {x : RouteM σ T} (h : ∀ s t s', P s → x s = (.route t, s') → P' s') :
    AgreeOn P P' x x := ⟨fun _ _ => rfl, h⟩

theorem bind {x y : RouteM σ T} {k l : T → RouteM σ U} (hx : AgreeOn P P' x y)
    (hk : ∀ t, AgreeOn P' P'' (k t) (l t)) : AgreeOn P P'' (x >>= k) (y >>= l) where
  eq s hs := by
    have hxy : x s = y s := hx.eq s hs
    rcases h : x s with ⟨t | e | e, s'⟩
    · rw [bind_route h, bind_route (hxy.symm.trans h)]
      exact (hk t).eq s' (hx.post s t s' hs h)
    · rw [bind_fail h, bind_fail (hxy.symm.trans h)]
    · rw [bind_failFatal h, bind_failFatal (hxy.symm.trans h)]
  post s u s'' hs hu := by
    obtain ⟨t, s', h, hrest⟩ := of_bind_eq_route hu
    exact (hk t).post s' u s'' (hx.post s t s' hs h) hrest

end AgreeOn

end

/-! ### Extraction with another reader -/

/-- A way to read a body with the codecs of a list. -/
abbrev BodyReader : Type 1 :=
  (A : Type) → List (Codec A) → (S : Strictness) → RequestBody →
    RouteResult (ArgShape.Out .required S A)

/-- A body that is not buffered is the server's fault. -/
theorem code_of_bufferedBytes {body : RequestBody} {e : ServerError}
    (h : body.bufferedBytes = .error e) : e.code = 500 := by
  rw [RequestBody.bufferedBytes] at h
  split at h
  · cases h
  · cases h
    rfl
  · cases h
    rfl

theorem slot_takeStream {b : RequestBody} {body : List BodyEvent}
    (h : b.takeStream.1 = .ok body) : b.takeStream.2.slot = .taken := by
  obtain ⟨slot, limit⟩ := b
  cases slot with
  | streaming body => cases body <;> rfl
  | buffered bytes => cases h
  | taken => rfl

section

variable [AppTypes]

namespace Chain

section

variable [HttpCrate] [MimeCrate]

/-- The body is there, and no codec of the list is for it. -/
def Unsupported {A : Type} (ctypes : List (Codec A)) (req : RequestData) (body : RequestBody) :
    Prop :=
  ∃ bytes, body.bufferedBytes = .ok bytes ∧ negotiateContent ctypes req.contentType bytes = none

/-- The reader of the code. -/
def reqBodyReader (req : RequestData) : BodyReader :=
  fun _ ctypes S body => extractReqBody ctypes S req body

/-- The code answers 415 in that branch and in no other. -/
theorem extractReqBody_eq_err415_iff {A : Type} {ctypes : List (Codec A)} {S : Strictness}
    {req : RequestData} {body : RequestBody} :
    extractReqBody ctypes S req body = .failFatal .err415 ↔ Unsupported ctypes req body := by
  constructor
  · intro h
    rw [extractReqBody] at h
    split at h
    · next e he =>
        have hcode := code_of_bufferedBytes he
        rw [RouteResult.failFatal.inj h] at hcode
        exact absurd hcode (by decide)
    · next bytes hbytes =>
        split at h
        · next hnone => exact ⟨bytes, hbytes, hnone⟩
        · split at h
          · cases h
          · exact absurd (congrArg ServerError.code (RouteResult.failFatal.inj h)) (by decide)
          · exact absurd (congrArg ServerError.code (RouteResult.failFatal.inj h)) (by decide)
  · rintro ⟨bytes, hbytes, hnone⟩
    simp only [extractReqBody, hbytes, hnone]

end

section

variable [HttpCrate] [Base64Crate]

/-- `extract`, with the reading of a body as a parameter. -/
def extractWith (read : BodyReader) (req : RequestData) : (c : Chain) → RouteM ExtractState c.Args
  | verb _ => RouteM.pure ()
  | sub (.capture _ data S name) next => do
    let out ← extractCapture data S name
    consTail out (next.extractWith read req)
  | sub (.captureAll _ data name) next => do
    let out ← extractCaptureAll data name
    consTail out (next.extractWith read req)
  | sub (.queryParam _ data P S name) next => do
    let out ← ofResult (extractQueryParam data P S name req.query)
    consTail out (next.extractWith read req)
  | sub (.queryParams _ data name) next => do
    let out ← ofResult (extractQueryParams data name req.query)
    consTail out (next.extractWith read req)
  | sub (.queryFlag name) next =>
    consTail (extractQueryFlag name req.query) (next.extractWith read req)
  | sub .queryString next => consTail ⟨req.rawQuery, req.query⟩ (next.extractWith read req)
  | sub (.deepQuery _ data name) next => do
    let out ← ofResult (extractDeepQuery data name req.query)
    consTail out (next.extractWith read req)
  | sub (.header _ data P S name) next => do
    let out ← ofResult (extractHeader data P S name req.headers)
    consTail out (next.extractWith read req)
  | sub (.reqBody A ctypes S) next => do
    let out ← fun st => (read A ctypes S st.world.body, st)
    consTail out (next.extractWith read req)
  | sub (.streamBody framing _ codec) next => do
    let body ← takeBody
    consTail (decodeStream framing codec body) (next.extractWith read req)
  | sub .vault next => consTail req.extensions (next.extractWith read req)
  | sub (.withResource R) next => do
    let resource ← extractResource R
    consTail resource (next.extractWith read req)
  | sub (.basicAuth Usr realm) next => do
    let user ← extractUser Usr (basicAuthUser req next.depth Usr realm)
    consTail user (next.extractWith read req)
  | sub (.authProtect Usr) next => do
    let user ← extractUser Usr (authProtectUser req next.depth Usr)
    consTail user (next.extractWith read req)
  | sub .isSecure next => consTail req.isSecure (next.extractWith read req)
  | sub .httpVersion next => consTail req.version (next.extractWith read req)
  | sub .remoteHost next => consTail req.remoteAddr (next.extractWith read req)
  | sub (.withNamedContext Name) next => withNamedContext Name (next.extractWith read req)
  | sub (.path _) next | sub (.host _) next | sub (.fragment ..) next
  | sub (.description _) next | sub (.summary _) next | sub (.operationId _) next =>
    next.extractWith read req

/-- The reader of the code makes `extract` of it. -/
theorem extractWith_reqBodyReader [MimeCrate] (req : RequestData) :
    ∀ c : Chain, c.extractWith (reqBodyReader req) req = c.extract req
  | verb _ => rfl
  | sub c next => by
      have ih := extractWith_reqBodyReader req next
      cases c <;> simp only [extractWith, extract, reqBodyReader, ih] <;> rfl

end

end Chain

/-! ### The body from one combinator to the next -/

/-- The body is left as it is. -/
def KeepsBody {T : Type} (x : RouteM ExtractState T) : Prop :=
  ∀ st, (x st).2.world.body = st.world.body

/-- The state's body is one of `Q`. -/
def BodyIn (Q : RequestBody → Prop) (st : ExtractState) : Prop := Q st.world.body

namespace KeepsBody

variable {T : Type} {Q : RequestBody → Prop}

theorem agreeOn {x : RouteM ExtractState T} (h : KeepsBody x) :
    AgreeOn (BodyIn Q) (BodyIn Q) x x := by
  refine .same fun st t st' hQ hx => ?_
  have hbody := h st
  rw [hx] at hbody
  rw [BodyIn, hbody]
  exact hQ

theorem extractCapture {A : Type} (data : HttpApiData A) (S : Strictness) (name : String) :
    KeepsBody (Chain.extractCapture data S name) := by
  intro st
  rw [Chain.extractCapture_eq]

theorem extractCaptureAll {A : Type} (data : HttpApiData A) (name : String) :
    KeepsBody (Chain.extractCaptureAll data name) := by
  intro st
  rw [Chain.extractCaptureAll_eq]

theorem extractResource (R : AppTypes.TypeId) : KeepsBody (Chain.extractResource R) := by
  intro st
  rw [Chain.extractResource, orFatal_snd]
  cases st.lookupResourceProvider R <;> rfl

/-- A user that was accepted before is taken; another is found now. -/
theorem extractUser (Usr : AppTypes.TypeId)
    {resolve : ExtractState → Except ServerError (AppTypes.El Usr) × ExtractState}
    (h : ∀ st, (resolve st).2.world.body = st.world.body) :
    KeepsBody (Chain.extractUser Usr resolve) := by
  intro st
  cases hfirst : takeFirst Usr st.prechecked with
  | none =>
      have htake : takePrechecked Usr st = (.route none, st) := by rw [takePrechecked, hfirst]
      rw [Chain.extractUser, bind_route htake]
      dsimp only
      rw [orFatal_snd]
      exact h st
  | some found =>
      have htake : takePrechecked Usr st
          = (.route (some found.1), { st with prechecked := found.2 }) := by
        rw [takePrechecked, hfirst]
      rw [Chain.extractUser, bind_route htake]
      rfl

end KeepsBody

/-- A site's check leaves the body as it is. -/
theorem AuthSite.Resolves.body [HttpCrate] [Base64Crate] {req : RequestData} {site : AuthSite}
    {Usr : AppTypes.TypeId}
    {resolve : ExtractState → Except ServerError (AppTypes.El Usr) × ExtractState}
    {st : ExtractState} (h : site.Resolves req resolve st) :
    (resolve st).2.world.body = st.world.body := by
  rcases h with ⟨user, -, h⟩ | ⟨e, -, h | h⟩
  · rw [h]
    rfl
  · rw [h]
  · rw [h]
    rfl

/-- A body taken as a stream is gone. -/
theorem agreeOn_takeBody {P : ExtractState → Prop} :
    AgreeOn P (BodyIn (·.slot = .taken)) Chain.takeBody Chain.takeBody := by
  refine .same fun st body st' _ h => ?_
  obtain ⟨hok, rfl⟩ := Prod.mk.inj (of_orFatal_eq_route h)
  exact slot_takeStream hok

theorem AgreeOn.consTail {P P' : ExtractState → Prop} {H T : Type} (head : H)
    {x y : RouteM ExtractState T} (h : AgreeOn P P' x y) :
    AgreeOn P P' (Chain.consTail head x) (Chain.consTail head y) := by
  refine h.bind fun tail => .same fun st t st' hst hpure => ?_
  cases hpure
  exact hst

theorem AgreeOn.withNamedContext {Q : RequestBody → Prop} {T : Type} (Name : AppTypes.ContextName)
    {x y : RouteM ExtractState T} (h : AgreeOn (BodyIn Q) (fun _ => True) x y) :
    AgreeOn (BodyIn Q) (fun _ => True) (ServantRs.withNamedContext Name x)
      (ServantRs.withNamedContext Name y) where
  eq st hst := by
    rw [ServantRs.withNamedContext, ServantRs.withNamedContext]
    cases st.lookupNamedContext Name with
    | none => exact h.eq st hst
    | some named =>
        have hnamed := h.eq { st with contexts := named :: st.contexts } hst
        dsimp only
        rw [hnamed]
  post _ _ _ _ _ := trivial

/-! ### What has to hold of the bodies that are read -/

namespace Chain

def reqBodyCount : Chain → Nat
  | verb _                 => 0
  | sub (.reqBody ..) next => next.reqBodyCount + 1
  | sub _ next             => next.reqBodyCount

variable [HttpCrate] [MimeCrate]

/-- No body the walk comes to is without a codec, when the one at hand is of `Q`. -/
def Decodes (req : RequestData) : Chain → (RequestBody → Prop) → Prop
  | verb _, _ => True
  | sub (.reqBody _ ctypes _) next, Q =>
    (∀ b, Q b → ¬ Unsupported ctypes req b) ∧ next.Decodes req Q
  | sub (.streamBody ..) next, _ => next.Decodes req (·.slot = .taken)
  | sub _ next, Q => next.Decodes req Q

/-- Nothing is read of a body that is gone. -/
theorem decodes_taken (req : RequestData) : ∀ c : Chain, c.Decodes req (·.slot = .taken)
  | verb _ => trivial
  | sub c next => by
      have ih := decodes_taken req next
      cases c with
      | reqBody A ctypes S =>
          refine ⟨?_, ih⟩
          rintro b hslot ⟨bytes, hbytes, -⟩
          rw [RequestBody.bufferedBytes, hslot] at hbytes
          cases hbytes
      | _ => exact ih

theorem decodes_of_reqBodyCount_eq_zero (req : RequestData) : ∀ (c : Chain)
    (Q : RequestBody → Prop), c.reqBodyCount = 0 → c.Decodes req Q
  | verb _, _, _ => trivial
  | sub c next, Q, h => by
      cases c with
      | reqBody => exact absurd h (Nat.succ_ne_zero _)
      | streamBody => exact decodes_taken req next
      | _ => exact decodes_of_reqBodyCount_eq_zero req next Q h

/-- What the check lets through can be decoded. -/
theorem not_unsupported_of_acceptable {A : Type} {ctypes : List (Codec A)} {req : RequestData}
    (h : contentTypeAcceptable (Codec.allMediaTypes ctypes) req.contentType = true)
    (body : RequestBody) : ¬ Unsupported ctypes req body := by
  rintro ⟨bytes, -, hnone⟩
  have hsome := (contentTypeAcceptable_iff ctypes req.contentType bytes).mp h
  rw [hnone] at hsome
  cases hsome

/-- The check looks at the first body combinator: a second that reads would not be looked at. -/
theorem decodes_of_contentTypeOk (req : RequestData) : ∀ (c : Chain) (Q : RequestBody → Prop),
    c.reqBodyCount = 1 → Leaf.contentTypeOk c req = true → c.Decodes req Q
  | verb _, _, _, _ => trivial
  | sub c next, Q, hsingle, hok => by
      cases c with
      | reqBody A ctypes S =>
          have hnone : next.reqBodyCount = 0 := Nat.succ.inj hsingle
          exact ⟨fun b _ => not_unsupported_of_acceptable hok b,
            decodes_of_reqBodyCount_eq_zero req next Q hnone⟩
      -- the check was the stream's, and the stream takes the body away
      | streamBody => exact decodes_taken req next
      | _ => exact decodes_of_contentTypeOk req next Q hsingle hok

end Chain

/-! ### Another answer in the branch -/

section

variable [HttpCrate] [MimeCrate]

/-- The reader does what the code's does, but for the branch in which the code's answers 415. -/
def BodyReader.SameElsewhere (read : BodyReader) (req : RequestData) : Prop :=
  ∀ (A : Type) (ctypes : List (Codec A)) (S : Strictness) (body : RequestBody),
    ¬ Chain.Unsupported ctypes req body →
      read A ctypes S body = Chain.extractReqBody ctypes S req body

variable [Base64Crate] {read : BodyReader} {req : RequestData}

/-- **Extraction does not depend on what stands in a branch it does not come to.** -/
theorem agreeOn_extract (hread : read.SameElsewhere req) : ∀ (c : Chain) (Q : RequestBody → Prop),
    c.Decodes req Q → AgreeOn (BodyIn Q) (fun _ => True) (c.extractWith read req) (c.extract req)
  | .verb _, _, _ => .same fun _ _ _ _ _ => trivial
  | .sub c next, Q, h => by
      have ih := agreeOn_extract hread next
      cases c with
      | capture A data S name =>
          exact (KeepsBody.extractCapture data S name).agreeOn.bind fun _ => .consTail _ (ih Q h)
      | captureAll A data name =>
          exact (KeepsBody.extractCaptureAll data name).agreeOn.bind fun _ => .consTail _ (ih Q h)
      | queryParam | queryParams | deepQuery | header =>
          exact .bind (KeepsBody.agreeOn fun _ => rfl) fun _ => .consTail _ (ih Q h)
      | queryFlag | queryString | vault | isSecure | httpVersion | remoteHost =>
          exact .consTail _ (ih Q h)
      | reqBody A ctypes S =>
          obtain ⟨hdecodes, hnext⟩ := h
          refine .bind ⟨fun st hst => ?_, fun st out st' hst hout => ?_⟩ fun _ =>
            .consTail _ (ih Q hnext)
          · rw [hread A ctypes S st.world.body (hdecodes _ hst)]
          · obtain rfl : st = st' := congrArg Prod.snd hout
            exact hst
      | streamBody => exact agreeOn_takeBody.bind fun _ => .consTail _ (ih _ h)
      | withResource R =>
          exact (KeepsBody.extractResource R).agreeOn.bind fun _ => .consTail _ (ih Q h)
      | basicAuth Usr realm =>
          have hkeeps :
              KeepsBody (Chain.extractUser Usr (basicAuthUser req next.depth Usr realm)) :=
            .extractUser Usr fun st => (resolves_basicAuthUser next.depth Usr realm st).body
          exact hkeeps.agreeOn.bind fun _ => .consTail _ (ih Q h)
      | authProtect Usr =>
          have hkeeps : KeepsBody (Chain.extractUser Usr (authProtectUser req next.depth Usr)) :=
            .extractUser Usr fun st => (resolves_authProtectUser next.depth Usr st).body
          exact hkeeps.agreeOn.bind fun _ => .consTail _ (ih Q h)
      | withNamedContext Name => exact .withNamedContext Name (ih Q h)
      | path | host | fragment | description | summary | operationId => exact ih Q h

namespace Leaf

variable (label : Nat) (chain : Chain) (handler : chain.Args → Except ServerError chain.Output)
  (context : Context)

/-- `runExtraction` with another reader. -/
def runExtractionWith (read : BodyReader) (req : RequestData) : RouteM ExtractState Response := do
  chain.preBodyCheck req
  bodyStep chain
  let args ← chain.extractWith read req
  runHandler label chain handler req args

/-- `callEndpoint` with another reader. -/
def callEndpointWith (read : BodyReader) (req : RequestData) (captures : List String)
    (capturedAll : Option (List String)) : RouteM World Response :=
  gated (gates chain req captures capturedAll)
    (inExtractState captures capturedAll context (runExtractionWith label chain handler read req))

/-- The reader of the code makes `callEndpoint` of it. -/
theorem callEndpointWith_reqBodyReader (req : RequestData) (captures : List String)
    (capturedAll : Option (List String)) :
    callEndpointWith label chain handler context (Chain.reqBodyReader req) req captures capturedAll
      = callEndpoint label chain handler context req captures capturedAll := by
  rw [callEndpointWith, callEndpoint_eq, runExtraction_eq, runExtractionWith,
    Chain.extractWith_reqBodyReader]

variable {label chain handler context}

theorem runExtractionWith_eq (hread : read.SameElsewhere req) (hsingle : chain.reqBodyCount = 1)
    (hok : contentTypeOk chain req = true) :
    runExtractionWith label chain handler read req = runExtraction label chain handler req := by
  have hextract : chain.extractWith read req = chain.extract req := by
    funext st
    have hdecodes := Chain.decodes_of_contentTypeOk req chain (fun _ => True) hsingle hok
    exact (agreeOn_extract hread chain _ hdecodes).eq st trivial
  rw [runExtractionWith, runExtraction_eq, hextract]

end Leaf

end

/-- **What the check lets through can be decoded.**  The check agrees with the decoder on every list
of codecs, every header and every body; and where a chain has one `ReqBody`, what that answers when
no codec is for a body makes no difference to a call. -/
theorem contentType_agreement [HttpCrate] [MimeCrate] [Base64Crate] :
    (∀ (A : Type) (L : List (Codec A)) (contentType : Option String) (body : Bytes),
      Chain.contentTypeAcceptable (Codec.allMediaTypes L) contentType = true
        ↔ (negotiateContent L contentType body).isSome = true) ∧
    ∀ (label : Nat) (chain : Chain) (handler : chain.Args → Except ServerError chain.Output)
      (context : Context) (req : RequestData) (captures : List String)
      (capturedAll : Option (List String)) (read : BodyReader),
      chain.reqBodyCount = 1 → read.SameElsewhere req →
        Leaf.callEndpointWith label chain handler context read req captures capturedAll
          = Leaf.callEndpoint label chain handler context req captures capturedAll := by
  refine ⟨fun A L contentType body => contentTypeAcceptable_iff L contentType body, ?_⟩
  intro label chain handler context req captures capturedAll read hsingle hread
  rw [Leaf.callEndpointWith, callEndpoint_eq]
  refine gated_congr fun hpass => ?_
  have hgate : Leaf.require (Leaf.contentTypeOk chain req) .err415 = .route () :=
    hpass _ (by simp [Leaf.gates])
  have hok : Leaf.contentTypeOk chain req = true := Leaf.require_eq_route.mp hgate
  rw [Leaf.runExtractionWith_eq hread hsingle hok]

/-! ### Another answer -/

/-- The reader of the code, but for a 500 in the branch of the 415. -/
def refusing [HttpCrate] [MimeCrate] (req : RequestData) : BodyReader :=
  fun _ ctypes S body =>
    match body.bufferedBytes with
    | .error e => .failFatal e
    | .ok bytes =>
      match negotiateContent ctypes req.contentType bytes with
      | none   => .failFatal .err500
      | some _ => Chain.extractReqBody ctypes S req body

theorem sameElsewhere_refusing [HttpCrate] [MimeCrate] (req : RequestData) :
    (refusing req).SameElsewhere req := by
  intro A ctypes S body h
  simp only [refusing]
  split
  · next e he => simp only [Chain.extractReqBody, he]
  · next bytes hbytes =>
      split
      · next hnone => exact absurd ⟨bytes, hbytes, hnone⟩ h
      · rfl

end

section

attribute [local instance] AppTypes.reference HttpCrate.reference MimeCrate.reference
  Base64Crate.reference

/-- Texts in JSON, none of which is read. -/
def jsonText : Codec String := ⟨.Json, fun s => .ok (utf8Bytes s), fun _ => .ok ""⟩

/-- `POST` with a JSON text. -/
def jsonPost : Chain := .sub (.reqBody String [jsonText] .strict) (.verb (.noContentVerb .POST))

/-- `POST` with a JSON text, and with a plain one after it. -/
def jsonThenPlain : Chain :=
  .sub (.reqBody String [jsonText] .strict)
    (.sub (.reqBody String [Codec.plainText] .strict) (.verb (.noContentVerb .POST)))

/-- A request with JSON. -/
def jsonRequest : RequestData :=
  { RequestData.ofMethod .POST () with headers := [(.CONTENT_TYPE, utf8Bytes "application/json")] }

theorem contentType_agreement_jsonPost :
    (Chain.contentTypeAcceptable (Codec.allMediaTypes [jsonText]) (some "application/json") = true
      ↔ (negotiateContent [jsonText] (some "application/json") [0x7D]).isSome = true) ∧
    Leaf.callEndpointWith 0 jsonPost (fun _ => .ok ()) .new (refusing jsonRequest) jsonRequest []
        none
      = Leaf.callEndpoint 0 jsonPost (fun _ => .ok ()) .new jsonRequest [] none :=
  ⟨contentType_agreement.1 String [jsonText] (some "application/json") [0x7D],
    contentType_agreement.2 0 jsonPost (fun _ => .ok ()) .new jsonRequest [] none
      (refusing jsonRequest) rfl (sameElsewhere_refusing jsonRequest)⟩

/-- The check does not look at a second `ReqBody`. -/
example : (Leaf.callEndpoint 0 jsonThenPlain (fun _ => .ok ()) .new jsonRequest [] none
    (.new [.data [0x7D]] 1)).1 = .failFatal .err415 := by rfl

end

end ServantRs
