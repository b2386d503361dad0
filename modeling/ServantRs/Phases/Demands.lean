import Mathlib.Data.List.Forall2
import ServantRs.Phases.Body
import ServantRs.Phases.Captures
import ServantRs.Phases.ContentType
import ServantRs.Support.Bytes

/-!
# Phases — what a request has to give

Past its gates a leaf asks of a request what its combinators name: users, a body within the limit,
query parameters, headers.  A `Demand` says which values a request gives and, of a request that
gives none, whether the error has a text.  Each is stated of the request alone, and a step of the
leaf's phases does what its demand says (`Demand.Decides`): it ends in the value given, or commits
to an error.
-/

namespace ServantRs

open RouteM ExtractState

/-! ### Demands -/

/-- What is asked of a request: the values it gives, and whether an error for want of one has a
text. -/
structure Demand (H : Type*) where
  /-- The request gives this value. -/
  Gives : H → Prop
  /-- The error says what is wrong. -/
  Explained : Prop

namespace Demand

variable {H : Type*} {d : Demand H} {h : H} {e : ServerError} {next : H → Prop}

/-- What is asked for is given and `next` holds of it, or it is not given and no text says so. -/
def Silent (d : Demand H) (next : H → Prop) : Prop :=
  (∃ h, d.Gives h ∧ next h) ∨ ((∀ h, ¬ d.Gives h) ∧ ¬ d.Explained)

/-- One value is given. -/
def Met (d : Demand H) (h : H) : Prop := ∀ h', d.Gives h' ↔ h' = h

/-- No value is given, and the error has a body when the demand has it explained. -/
structure Unmet (d : Demand H) (e : ServerError) : Prop where
  none : ∀ h, ¬ d.Gives h
  body : e.body = [] ↔ ¬ d.Explained

theorem silent_of_met (hd : d.Met h) : d.Silent next ↔ next h := by
  constructor
  · rintro (⟨h', hgives, hnext⟩ | ⟨hnone, -⟩)
    · rwa [← (hd h').mp hgives]
    · exact absurd ((hd h).mpr rfl) (hnone h)
  · exact fun hnext => .inl ⟨h, (hd h).mpr rfl, hnext⟩

theorem silent_of_unmet (hd : d.Unmet e) : d.Silent next ↔ e.body = [] := by
  rw [hd.body]
  constructor
  · rintro (⟨h, hgives, -⟩ | ⟨-, hbare⟩)
    · exact absurd hgives (hd.none h)
    · exact hbare
  · exact fun hbare => .inr ⟨hd.none, hbare⟩

/-- An error with a text, where the demand has one. -/
theorem Unmet.of_text (hnone : ∀ h, ¬ d.Gives h) (hexplained : d.Explained) (hbody : e.body ≠ []) :
    d.Unmet e where
  none := hnone
  body := ⟨fun he => absurd he hbody, fun hbare => absurd hexplained hbare⟩

section

variable {E : Type*} {result : Except E H} {error : E}

/-- A demand for the value of a result. -/
theorem met_of_ok (hgives : ∀ h, d.Gives h ↔ result = .ok h) (hok : result = .ok h) : d.Met h := by
  intro h'
  rw [hgives, hok, Except.ok.injEq, eq_comm]

theorem none_of_error (hgives : ∀ h, d.Gives h ↔ result = .ok h) (herror : result = .error error)
    (h : H) : ¬ d.Gives h := by
  rw [hgives, herror]
  simp

end

/-- A result that is the value given, or an error for want of one. -/
def Decides {H : Type} (d : Demand H) : RouteResult H → Prop
  | .route h     => d.Met h
  | .fail _      => False
  | .failFatal e => d.Unmet e

end Demand

/-! ### Values read -/

/-- What an argument was built from. -/
def ArgShape.raw {A : Type} : (P : Presence) → (S : Strictness) → ArgShape.Out P S A →
    Option (Except ParseError A)
  | .required, .strict,  out => some (.ok out)
  | .required, .lenient, out => some out
  | .optional, .strict,  out => Option.map .ok out
  | .optional, .lenient, out => out

theorem ArgShape.build_raw {A : Type} : ∀ {P : Presence} {S : Strictness}
    (out : ArgShape.Out P S A), build P S (raw P S out) = .ok out
  | .required, .strict,  _      => rfl
  | .required, .lenient, _      => rfl
  | .optional, .strict,  none   => rfl
  | .optional, .strict,  some _ => rfl
  | .optional, .lenient, _      => rfl

theorem ArgShape.raw_of_build {A : Type} : ∀ {P : Presence} {S : Strictness}
    {value : Option (Except ParseError A)} {out : ArgShape.Out P S A},
    build P S value = .ok out → raw P S out = value
  | .required, .strict,  some (.ok _), _, rfl => rfl
  | .required, .lenient, some _,       _, rfl => rfl
  | .optional, .strict,  none,         _, rfl => rfl
  | .optional, .strict,  some (.ok _), _, rfl => rfl
  | .optional, .lenient, _,            _, rfl => rfl

theorem ArgShape.build_eq_ok_iff {A : Type} {P : Presence} {S : Strictness}
    {value : Option (Except ParseError A)} {out : ArgShape.Out P S A} :
    build P S value = .ok out ↔ raw P S out = value :=
  ⟨raw_of_build, fun h => h ▸ build_raw out⟩

/-- What a captured argument was built from. -/
def CaptureShape.raw {A : Type} : (S : Strictness) → CaptureShape.Out S A → Except ParseError A
  | .strict,  out => .ok out
  | .lenient, out => out

theorem CaptureShape.build_eq_ok_iff {A : Type} : ∀ {S : Strictness} {value : Except ParseError A}
    {out : CaptureShape.Out S A}, build S value = .ok out ↔ raw S out = value
  | .strict,  _, _ => eq_comm
  | .lenient, _, _ => ⟨fun h => (Except.ok.inj h).symm, fun h => congrArg Except.ok h.symm⟩

/-- A list is parsed one by one. -/
theorem forall₂_of_parse {A : Type} (read : String → Except ParseError A)
    (parse : List String → Except ParseError (List A)) (hnil : parse [] = .ok [])
    (hcons : ∀ s texts, parse (s :: texts) = match read s with
      | .error e => .error e
      | .ok a    => (parse texts).map (a :: ·)) :
    ∀ {texts : List String} {out : List A},
      parse texts = .ok out ↔ List.Forall₂ (fun s a => read s = .ok a) texts out
  | [], out => by
      rw [hnil, List.forall₂_nil_left_iff, Except.ok.injEq, eq_comm]
  | s :: texts, out => by
      rw [hcons, List.forall₂_cons_left_iff]
      cases hs : read s with
      | error e => simp
      | ok a =>
          simp only [← forall₂_of_parse read parse hnil hcons, Except.ok.injEq]
          cases ht : parse texts with
          | error e => simp [Except.map]
          | ok as => simp [Except.map, eq_comm]

/-! ### What is read of the head of a request -/

/-- A text that ends in a quoted name is none that is empty. -/
theorem badRequest_quoted (text : String) : (badRequest (text ++ "`")).body ≠ [] := by
  show utf8Bytes (text ++ "`") ≠ []
  rw [utf8Bytes_append]
  exact List.append_ne_nil_of_right_ne_nil _ (by decide)

namespace Demand

/-- A component that is there if it has to be, and that parses if it has to. -/
def component {A : Type} (P : Presence) (S : Strictness) (value : Option (Except ParseError A)) :
    Demand (ArgShape.Out P S A) where
  Gives out := ArgShape.raw P S out = value
  Explained := True

/-- Texts each of which parses. -/
def each {A : Type} (read : String → Except ParseError A) (texts : List String) :
    Demand (List A) where
  Gives out := List.Forall₂ (fun s a => read s = .ok a) texts out
  Explained := True

/-- A deep query parameter. -/
def deepQuery {A : Type} (data : DeepQueryData A) (name : String) (query : List QueryPair) :
    Demand A where
  Gives out := ∃ params, parseDeepQuery name query = .ok params ∧
    data.fromDeepQuery params = .ok out
  Explained := True

/-- A flag is bare, or `true`, or `1`, or empty. -/
def flag (name : String) (query : List QueryPair) : Demand Bool where
  Gives b := b = true ↔ ∃ value ∈ [none, some "true", some "1", some ""],
    Chain.lookupQuery query name = some value
  Explained := True

/-- What is built of a component, or one of two errors that both have a text. -/
theorem decides_component {A : Type} {P : Presence} {S : Strictness}
    {value : Option (Except ParseError A)} {r : RouteResult (ArgShape.Out P S A)}
    {missing parse : ServerError} (hmissing : missing.body ≠ []) (hparse : parse.body ≠ [])
    (hr : r = match ArgShape.build P S value with
      | .ok out           => .route out
      | .error .missing   => .failFatal missing
      | .error (.parse _) => .failFatal parse) : (component P S value).Decides r := by
  have hgives : ∀ out, (component P S value).Gives out ↔ ArgShape.build P S value = .ok out :=
    fun out => ArgShape.build_eq_ok_iff.symm
  rw [hr]
  cases hb : ArgShape.build P S value with
  | ok out => exact met_of_ok hgives hb
  | error e =>
      have hnone := none_of_error hgives hb
      cases e with
      | missing => exact .of_text hnone trivial hmissing
      | parse e => exact .of_text hnone trivial hparse

theorem decides_queryParam {A : Type} (data : HttpApiData A) (P : Presence) (S : Strictness)
    (name : String) (query : List QueryPair) :
    (component P S ((Chain.lookupQuery query name).join.map data.fromQueryParam)).Decides
      (Chain.extractQueryParam data P S name query) :=
  decides_component (badRequest_quoted _) (badRequest_quoted _) rfl

theorem decides_queryParams {A : Type} (data : HttpApiData A) (name : String)
    (query : List QueryPair) :
    (each data.fromQueryParam (Chain.queryParamValues name query)).Decides
      (Chain.extractQueryParams data name query) := by
  let values := Chain.queryParamValues name query
  have hgives : ∀ out, (each data.fromQueryParam values).Gives out
      ↔ Chain.parseQueryParams data values = .ok out :=
    fun out => (forall₂_of_parse _ (Chain.parseQueryParams data) rfl fun _ _ => rfl).symm
  rw [Chain.extractQueryParams]
  cases hp : Chain.parseQueryParams data values with
  | ok out => exact met_of_ok hgives hp
  | error e => exact .of_text (none_of_error hgives hp) trivial (badRequest_quoted _)

theorem decides_deepQuery {A : Type} (data : DeepQueryData A) (name : String)
    (query : List QueryPair) :
    (deepQuery data name query).Decides (Chain.extractDeepQuery data name query) := by
  rw [Chain.extractDeepQuery]
  cases hparams : parseDeepQuery name query with
  | error e =>
      refine .of_text (fun out hout => ?_) trivial (badRequest_quoted _)
      obtain ⟨params, hparams', -⟩ := hout
      cases hparams.symm.trans hparams'
  | ok params =>
      have hgives : ∀ out, (deepQuery data name query).Gives out
          ↔ data.fromDeepQuery params = .ok out := by
        intro out
        rw [deepQuery, hparams]
        simp
      dsimp only
      cases hout : data.fromDeepQuery params with
      | ok out => exact met_of_ok hgives hout
      | error e => exact .of_text (none_of_error hgives hout) trivial (badRequest_quoted _)

theorem decides_flag (name : String) (query : List QueryPair) :
    (flag name query).Met (Chain.extractQueryFlag name query) := by
  intro b
  have hset : Chain.extractQueryFlag name query = true
      ↔ ∃ value ∈ [none, some "true", some "1", some ""],
          Chain.lookupQuery query name = some value := by
    rw [Chain.extractQueryFlag]
    rcases Chain.lookupQuery query name with _ | _ | text
    · simp
    · simp
    · simp [or_assoc]
  rw [flag, ← hset]
  exact Bool.eq_iff_iff.symm

section

variable [HttpCrate]

/-- What the first header of a name says. -/
def headerValue {A : Type} (data : HttpApiData A) (name : String) (headers : HeaderMap) :
    Option (Except ParseError A) :=
  ((HttpCrate.headerNameFromStr name).bind headers.get).map fun value =>
    match HttpCrate.headerValueToStr value with
    | some text => data.fromHeader text
    | none      => .error ⟨"header value is not valid text"⟩

theorem decides_header {A : Type} (data : HttpApiData A) (P : Presence) (S : Strictness)
    (name : String) (headers : HeaderMap) :
    (component P S (headerValue data name headers)).Decides
      (Chain.extractHeader data P S name headers) :=
  decides_component (badRequest_quoted _) (badRequest_quoted _) rfl

end

end Demand

/-! ### What is captured -/

/-- A captured segment. -/
def Demand.capture {A : Type} (data : HttpApiData A) (S : Strictness) (seg : Option String) :
    Demand (CaptureShape.Out S A) where
  Gives out := seg.map data.fromUrlPiece = some (CaptureShape.raw S out)
  Explained := True

theorem Demand.met_of_captureResult {A : Type} {data : HttpApiData A} {S : Strictness}
    {name : String} {seg : Option String} {out : CaptureShape.Out S A}
    (h : Chain.captureResult data S name seg = .route out) :
    (Demand.capture data S seg).Met out := by
  cases seg with
  | none => cases h
  | some seg =>
      have hgives : ∀ out, (Demand.capture data S (some seg)).Gives out
          ↔ CaptureShape.build S (data.fromUrlPiece seg) = .ok out := by
        intro out
        rw [CaptureShape.build_eq_ok_iff]
        simp [Demand.capture, eq_comm]
      rw [Chain.captureResult] at h
      split at h
      · next hb =>
        rw [← RouteResult.route.inj h]
        exact met_of_ok hgives hb
      · cases h

theorem Demand.met_of_captureAllResult {A : Type} {data : HttpApiData A} {name : String}
    {segs : List String} {out : List A}
    (h : Chain.captureAllResult data name segs = .route out) :
    (Demand.each data.fromUrlPiece segs).Met out := by
  have hgives : ∀ out, (Demand.each data.fromUrlPiece segs).Gives out
      ↔ Chain.parseSegments data segs = .ok out :=
    fun out => (forall₂_of_parse _ (Chain.parseSegments data) rfl fun _ _ => rfl).symm
  rw [Chain.captureAllResult] at h
  split at h
  · next hp =>
    rw [← RouteResult.route.inj h]
    exact met_of_ok hgives hp
  · cases h

/-! ### What is read of the body -/

namespace Demand

/-- The slot of a body that a leaf extracts from: one that is buffered has to arrive undisturbed and
within the limit.  What exceeds the limit is refused without a text. -/
def slot (mode : Option Chain.RequestBodyMode) (limit : Nat) (body : List BodyEvent) :
    Demand BodySlot where
  Gives slot :=
    match mode with
    | some .buffered => ¬ ExceedsLimit limit body ∧ (∀ message, .error message ∉ body) ∧
        slot = .buffered (dataOf body)
    | _ => slot = .streaming (some body)
  Explained := ¬ ExceedsLimit limit body

/-- The body as a stream, while it is still there. -/
def stream (slot : BodySlot) : Demand (List BodyEvent) where
  Gives body := slot = .streaming (some body)
  Explained := True

/-- A buffered body that a codec of its content type reads.  A content type that no codec is for is
refused without a text. -/
def reqBody [MimeCrate] {A : Type} (ctypes : List (Codec A)) (S : Strictness)
    (contentType : Option String) (slot : BodySlot) : Demand (ArgShape.Out .required S A) where
  Gives out := ∃ bytes decoded, slot = .buffered bytes ∧
    negotiateContent ctypes contentType bytes = some decoded ∧
    ArgShape.raw .required S out = some (decoded.mapError ParseError.mk)
  Explained := ∀ bytes, slot = .buffered bytes →
    NamesOneOf contentType (Codec.allMediaTypes ctypes)

end Demand

/-- A body that is collected has arrived undisturbed. -/
theorem undisturbed_of_collectLimited {limit : Nat} : ∀ (body : List BodyEvent) {out bytes : Bytes},
    RequestBody.collectLimited limit (RequestBody.streamItems body) out = .ok bytes →
      ∀ message, .error message ∉ body
  | [], _, _, _, _ => List.not_mem_nil
  | .data chunk :: body, out, bytes, h, message => by
      rw [RequestBody.streamItems, RequestBody.collectLimited] at h
      split at h
      · cases h
      · simpa using undisturbed_of_collectLimited body h message
  | .trailers :: body, out, bytes, h, message => by
      simpa using undisturbed_of_collectLimited body h message
  | .error _ :: body, out, bytes, h, _ => by cases h

/-- A body that is not collected is too long, or its transport failed. -/
theorem collectLimited_error {limit : Nat} : ∀ (body : List BodyEvent) {out : Bytes}
    {e : ServerError},
    RequestBody.collectLimited limit (RequestBody.streamItems body) out = .error e →
      e = .err413 ∨ (e = ServerError.err400.withBody "could not read request body" ∧
        ∃ message, .error message ∈ body)
  | [], _, _, h => by cases h
  | .data chunk :: body, out, e, h => by
      rw [RequestBody.streamItems, RequestBody.collectLimited] at h
      split at h
      · exact .inl (Except.error.inj h).symm
      · exact (collectLimited_error body h).imp_right fun ⟨he, message, hmem⟩ =>
          ⟨he, message, List.mem_cons_of_mem _ hmem⟩
  | .trailers :: body, out, e, h =>
      (collectLimited_error body h).imp_right fun ⟨he, message, hmem⟩ =>
        ⟨he, message, List.mem_cons_of_mem _ hmem⟩
  | .error message :: body, out, e, h =>
      .inr ⟨(Except.error.inj h).symm, message, List.mem_cons_self⟩

section

variable [AppTypes]

/-- The body before extraction. -/
theorem decides_bodyStep (chain : Chain) {body : List BodyEvent} {limit : Nat} (st : ExtractState)
    (hst : st.world.body = .new body limit) :
    (∃ slot log, (Demand.slot chain.requestBodyMode limit body).Met slot ∧
      Leaf.bodyStep chain st = (.route (), { st with world := ⟨⟨slot, limit⟩, log⟩ })) ∨
    (∃ e st', (Demand.slot chain.requestBodyMode limit body).Unmet e ∧
      Leaf.bodyStep chain st = (.failFatal e, st')) := by
  rw [Leaf.bodyStep]
  split
  · next hmode =>
    rw [hmode]
    have hrefused := collectLimited_new_eq_err413_iff limit body
    cases hc : RequestBody.collectLimited limit (RequestBody.streamItems body) [] with
    | ok bytes =>
        have hbuffer : st.world.body.buffer = (.ok bytes, ⟨.buffered bytes, limit⟩) := by
          simp only [hst, RequestBody.buffer, RequestBody.takeForBuffering, RequestBody.new, hc]
        obtain ⟨rfl, -⟩ := collectLimited_eq_ok body (Nat.zero_le _) hc
        refine .inl ⟨.buffered (dataOf body), st.world.log ++ [.buffer], fun slot => ?_, ?_⟩
        · have hwithin : ¬ ExceedsLimit limit body := by
            rw [← hrefused, hc]
            simp
          exact ⟨fun h => h.2.2, fun h => ⟨hwithin, undisturbed_of_collectLimited body hc, h⟩⟩
        · rw [Leaf.bufferBody, orFatal, World.bufferBody, hbuffer]
          rfl
    | error e =>
        have hbuffer : st.world.body.buffer = (.error e, ⟨.taken, limit⟩) := by
          simp only [hst, RequestBody.buffer, RequestBody.takeForBuffering, RequestBody.new, hc]
        refine .inr ⟨e, { st with world := st.world.bufferBody.2 }, ?_, ?_⟩
        · rcases collectLimited_error body hc with rfl | ⟨rfl, message, hmem⟩
          · have hexceeds := hrefused.mp hc
            exact ⟨fun slot h => h.1 hexceeds, fun _ h => h hexceeds, fun _ => rfl⟩
          · refine .of_text (fun slot h => h.2.1 message hmem) (fun hexceeds => ?_) (by decide)
            have he := Except.error.inj (hc.symm.trans (hrefused.mpr hexceeds))
            exact withBody_ne_err413 (by decide) _ he
        · rw [Leaf.bufferBody, orFatal, World.bufferBody, hbuffer]
          rfl
  · next hmode =>
    refine .inl ⟨.streaming (some body), st.world.log, fun slot => ?_, ?_⟩
    · rw [Demand.slot]
      split
      · next h => exact absurd h hmode
      · exact Iff.rfl
    · rw [← RequestBody.new, ← hst]
      rfl

theorem Demand.decides_stream {slot : BodySlot} {st : ExtractState}
    (hst : st.world.body.slot = slot) : (Demand.stream slot).Decides (Chain.takeBody st).1 := by
  subst hst
  rw [Chain.takeBody, orFatal, World.takeBodyStream, RequestBody.takeStream]
  cases hslot : st.world.body.slot with
  | streaming body =>
      cases body with
      | none => exact .of_text (fun _ h => by cases h) trivial (by decide)
      | some body =>
          intro body'
          simp [Demand.stream, eq_comm]
  | buffered bytes => exact .of_text (fun _ h => by cases h) trivial (by decide)
  | taken => exact .of_text (fun _ h => by cases h) trivial (by decide)

theorem Demand.decides_reqBody [HttpCrate] [MimeCrate] {A : Type} (ctypes : List (Codec A))
    (S : Strictness) (req : RequestData) (body : RequestBody) :
    (Demand.reqBody ctypes S req.contentType body.slot).Decides
      (Chain.extractReqBody ctypes S req body) := by
  rw [Chain.extractReqBody, RequestBody.bufferedBytes]
  cases hslot : body.slot with
  | streaming _ | taken =>
      refine .of_text (fun out h => ?_) (fun bytes h => ?_) (by decide)
      · obtain ⟨bytes, decoded, hbytes, -⟩ := h
        cases hbytes
      · cases h
  | buffered bytes =>
      have hnames := @negotiateContent_isSome_iff_names _ A ctypes req.contentType bytes
      dsimp only
      cases hn : negotiateContent ctypes req.contentType bytes with
      | none =>
          rw [hn] at hnames
          refine ⟨fun out h => ?_, fun _ h => ?_, fun _ => rfl⟩
          · obtain ⟨bytes', decoded, hbytes, hdecoded, -⟩ := h
            cases hbytes
            cases hn.symm.trans hdecoded
          · exact absurd (hnames.mpr (h bytes rfl)) (by simp)
      | some decoded =>
          rw [hn] at hnames
          have hexplained : (reqBody ctypes S req.contentType (.buffered bytes)).Explained :=
            fun _ _ => hnames.mp rfl
          have hgives : ∀ out, (reqBody ctypes S req.contentType (.buffered bytes)).Gives out
              ↔ ArgShape.build .required S (some (decoded.mapError ParseError.mk)) = .ok out := by
            intro out
            rw [ArgShape.build_eq_ok_iff]
            simp [reqBody, hn]
          dsimp only
          cases hb : ArgShape.build .required S (some (decoded.mapError ParseError.mk)) with
          | ok out => exact met_of_ok hgives hb
          | error e =>
              have hnone := none_of_error hgives hb
              cases e with
              | missing => exact .of_text hnone hexplained (by decide)
              | parse e => exact .of_text hnone hexplained (by decide)

/-! ### What is looked up for a request -/

/-- A resource that one of the contexts provides. -/
def Demand.resource (R : AppTypes.TypeId) (contexts : List Context) : Demand (AppTypes.El R) where
  Gives resource := ∃ provider, contexts.findSome? (·.resourceProvider R) = some provider ∧
    resource = provider ()
  Explained := True

theorem Demand.decides_resource (R : AppTypes.TypeId) (st : ExtractState) :
    (Demand.resource R st.contexts).Decides (Chain.extractResource R st).1 := by
  rw [Chain.extractResource, orFatal, lookupResourceProvider]
  cases hp : st.contexts.findSome? (·.resourceProvider R) with
  | none => exact .of_text (fun _ h => by simp [hp, resource] at h) trivial (by decide)
  | some provider =>
      intro out
      simp [resource, hp]

section

variable [HttpCrate] [Base64Crate]

namespace AuthSite

/-- A user that the site's check accepts.  Without a text are the refusals of a `BasicAuth`, and
those of an `AuthProtect` whose check gives an error without a body. -/
def demand (req : RequestData) (site : AuthSite) : Demand Dyn where
  Gives user :=
    match site.scheme with
    | .basic Usr _ => ∃ check data u, site.contexts.findSome? (·.basicAuthCheck Usr) = some check ∧
        (req.headerText .AUTHORIZATION).bind parseBasicAuth = some data ∧
        check data = .authorized u ∧ user = ⟨Usr, u⟩
    | .protect Usr => ∃ check u, site.contexts.findSome? (·.authCheck Usr) = some check ∧
        check req.headers = .ok u ∧ user = ⟨Usr, u⟩
  Explained :=
    match site.scheme with
    | .basic Usr _ => site.contexts.findSome? (·.basicAuthCheck Usr) = none
    | .protect Usr => ∀ check, site.contexts.findSome? (·.authCheck Usr) = some check →
        ∃ e, check req.headers = .error e ∧ e.body ≠ []

omit [AppTypes] [Base64Crate] in
theorem unauthorizedBasic_body (realm : String) : (unauthorizedBasic realm).body = [] := by
  rw [unauthorizedBasic]
  split <;> rfl

/-- The demand of a site is for the user of its verdict. -/
theorem decides_verdict (req : RequestData) (site : AuthSite) :
    (site.demand req).Decides (match site.verdict req with
      | .ok user => .route user
      | .error e => .failFatal e) := by
  obtain ⟨position, contexts, scheme⟩ := site
  cases scheme with
  | basic Usr realm =>
      rw [verdict]
      dsimp only
      cases hc : contexts.findSome? (·.basicAuthCheck Usr) with
      | none => exact .of_text (fun _ h => by simp [demand, hc] at h) hc (by decide)
      | some check =>
          have hbare : (unauthorizedBasic realm).body = []
              ↔ ¬ (demand req ⟨position, contexts, .basic Usr realm⟩).Explained := by
            simp [demand, hc, unauthorizedBasic_body]
          dsimp only
          cases hd : (req.headerText .AUTHORIZATION).bind parseBasicAuth with
          | none => exact ⟨fun _ h => by simp [demand, hd] at h, hbare⟩
          | some data =>
              dsimp only
              cases hv : check data with
              | authorized u =>
                  intro user
                  simp [demand, hc, hd, hv]
              | badPassword | noSuchUser | unauthorized =>
                  exact ⟨fun _ h => by simp [demand, hc, hd, hv] at h, hbare⟩
  | protect Usr =>
      rw [verdict]
      dsimp only
      cases hc : contexts.findSome? (·.authCheck Usr) with
      | none =>
          have hexplained : (demand req ⟨position, contexts, .protect Usr⟩).Explained := by
            simp [demand, hc]
          exact .of_text (fun _ h => by simp [demand, hc] at h) hexplained (by decide)
      | some check =>
          dsimp only
          cases hv : check req.headers with
          | ok u =>
              intro user
              simp [demand, hc, hv]
          | error e =>
              refine ⟨fun user h => ?_, ?_⟩
              · simp [demand, hc, hv] at h
              · simp [demand, hc, hv]

end AuthSite

/-- The user of an authentication combinator. -/
def Demand.user (req : RequestData) (site : AuthSite) (Usr : AppTypes.TypeId) :
    Demand (AppTypes.El Usr) where
  Gives u := (site.demand req).Gives ⟨Usr, u⟩
  Explained := (site.demand req).Explained

theorem Demand.met_user {req : RequestData} {site : AuthSite} {Usr : AppTypes.TypeId}
    {u : AppTypes.El Usr} (hv : site.verdict req = .ok ⟨Usr, u⟩) :
    (Demand.user req site Usr).Met u := by
  have hmet := site.decides_verdict req
  rw [hv] at hmet
  intro u'
  refine (hmet ⟨Usr, u'⟩).trans ?_
  rw [Sigma.mk.injEq, heq_eq_eq, and_iff_right rfl]

end

end

end ServantRs
