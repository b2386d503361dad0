import ServantRs.Calls.Request
import ServantRs.Phases.Walk
import ServantRs.Routing.Handlers
import ServantRs.Routing.Head

/-!
# Calls — serving a call

A request of a call, where it arrives, passes the checks of its endpoint and is taken apart into the
arguments it was built of.

* `Arrives.body_read`: the body is read.
* `Arrives.applies`: captures, host, method and media types let the request through.
* `Arrives.runExtraction`: the handler is run on the arguments of the call.
* `Arrives.handle`: a service answers with the handler's answer.
-/

namespace ServantRs

open RouteM ExtractState

/-! ### Whole bodies -/

theorem map_ok_chunksOf : ∀ {items : List (Except String Bytes)}, failureOf items = none →
    (chunksOf items).map .ok = items
  | [], _ => rfl
  | .ok chunk :: items, h => congrArg (Except.ok chunk :: ·) (map_ok_chunksOf h)
  | .error _ :: _, h => by cases h

/-- Chunks within the limit are put together. -/
theorem collectLimited_of_le {max : Nat} : ∀ (chunks : List Bytes) {out : Bytes},
    out.length + chunks.flatten.length ≤ max →
      RequestBody.collectLimited max (chunks.map .ok) out = .ok (out ++ chunks.flatten)
  | [], out, _ => by simp [RequestBody.collectLimited]
  | chunk :: chunks, out, h => by
      rw [List.flatten_cons, List.length_append] at h
      have hfits : ¬ max < out.length + chunk.length := by omega
      rw [List.map_cons, RequestBody.collectLimited, if_neg hfits,
        collectLimited_of_le chunks (by rw [List.length_append]; omega), List.flatten_cons,
        List.append_assoc]

/-- A body that arrives whole is buffered. -/
theorem buffer_of_received {events : List BodyEvent} {max : Nat}
    (herror : transportError events = none) (hle : (receivedBytes events).length ≤ max) :
    (RequestBody.new events max).buffer
      = (.ok (receivedBytes events), ⟨.buffered (receivedBytes events), max⟩) := by
  have hcollect : RequestBody.collectLimited max (RequestBody.streamItems events) []
      = .ok (receivedBytes events) := by
    rw [← map_ok_chunksOf herror,
      collectLimited_of_le _ (by simpa [receivedBytes] using hle)]
    rfl
  rw [RequestBody.buffer, RequestBody.new, RequestBody.takeForBuffering]
  simp only [hcollect]

variable [AppTypes] [PercentEncoding] [HttpCrate] [MimeCrate] {c : Chain}
  {added : List HeaderName} {args : c.Args} {creq : ClientRequest} {got : HttpRequest}
  {maxBody : Nat}

namespace ClientRequest.Arrives

omit [MimeCrate] in
/-- The media type of the body, as a server has it. -/
theorem contentType_data (laws : HeaderValueLaws) (h : creq.Arrives added got) {mime : Mime}
    (hmime : creq.contentType = some mime) (htext : IsHeaderText mime.source) :
    got.data.contentType = some mime.source := by
  have hget : got.data.headers.get .CONTENT_TYPE = some (utf8Bytes mime.source) := by
    refine h.contentType.trans ?_
    rw [hmime]
    rfl
  rw [RequestData.contentType, RequestData.headerText, hget, Option.bind_some,
    (laws.of_isHeaderText htext).2]

/-- The content type of a body that is sent is one of the endpoint's. -/
theorem contentTypeOk (laws : HeaderValueLaws) (h : creq.Arrives added got) {mime : Mime}
    (hmime : creq.contentType = some mime) (hcarried : mime.Carried) {types : List Mime}
    (htypes : c.requestContentTypes = some types) (hmem : mime ∈ types) :
    Leaf.contentTypeOk c got.data = true := by
  rw [Leaf.contentTypeOk, htypes, h.contentType_data laws hmime hcarried.text]
  simp only [Chain.contentTypeAcceptable, hcarried.trimmed, hcarried.parsed]
  exact List.any_eq_true.mpr ⟨mime, hmem, mediaTypeMatches_iff.mpr ⟨rfl, rfl⟩⟩

/-- **The body is read.** -/
theorem body_read (laws : HeaderValueLaws) (h : creq.Arrives added got) (hc : c.Callable added)
    (hs : c.Sends maxBody args) (hb : c.Built args creq) :
    Leaf.contentTypeOk c got.data = true ∧
    ∀ st : ExtractState, st.world.body = .new got.body maxBody →
      ∃ w, Leaf.bodyStep c st = (.route (), { st with world := w }) ∧
        ∀ b ∈ c.bindings args, b.comb.IsBody = true → b.comb.Reads got.data w.body b.arg := by
  by_cases hbody : ∃ b ∈ c.bindings args, b.comb.IsBody = true
  · obtain ⟨b, hmem, hbody⟩ := hbody
    have hone : (c.bindings args).countP (fun b => b.comb.IsBody) ≤ 1 :=
      (countP_combs Comb.IsBody c args).symm ▸ hc.body
    have hown : ∀ b' ∈ c.bindings args, b'.comb.IsBody = true → b' = b := fun b' hmem' hbody' =>
      eq_of_countP_le_one hone hmem' hmem hbody' hbody
    have hsend := hs.sendable b hmem
    have hputs := hb.puts b hmem
    have hcomb := Chain.comb_mem hmem
    obtain ⟨comb, a⟩ := b
    cases comb with
    | reqBody A ctypes S =>
        obtain ⟨value, hvalue⟩ := ArgShape.exists_intoValue hsend.1
        obtain ⟨mime, bytes, hrender, hfull, hstream⟩ := hputs value hvalue
        obtain ⟨hback, hcarried⟩ := hsend.2 value hvalue
        obtain ⟨hcarried, hle⟩ := hcarried mime bytes hrender
        have hmime : creq.contentType = some mime := by rw [ClientRequest.contentType, hfull]; rfl
        have hholds : creq.hyperBody.Holds bytes := by
          rw [ClientRequest.hyperBody, hfull]
          exact .full bytes
        obtain ⟨hbytes, herror⟩ := h.body bytes hholds
        obtain ⟨htypes, hmode⟩ := Chain.bodyKind_of_mem hc.body hcomb rfl
        refine ⟨h.contentTypeOk laws hmime hcarried htypes (unrender_renderPrimary hback hrender).1,
          fun st hst => ⟨st.world.bufferBody.2, ?_, fun b' hmem' hbody' => ?_⟩⟩
        · have hbuffer : st.world.bufferBody.1 = .ok bytes := by
            rw [World.bufferBody, hst, buffer_of_received herror (by rwa [hbytes]), hbytes]
          rw [Leaf.bodyStep, if_pos hmode]
          refine orFatal_ok ?_
          rw [hbuffer]
          rfl
        · obtain rfl := hown b' hmem' hbody'
          have hslot : st.world.bufferBody.2.body.slot = .buffered bytes := by
            rw [World.bufferBody, hst, buffer_of_received herror (by rwa [hbytes]), hbytes]
          exact Comb.reads_of_reqBody hsend hvalue hrender
            (h.contentType_data laws hmime hcarried.text) hslot
    | streamBody framing T codec =>
        obtain ⟨chunks, hencode, hread⟩ := Comb.reads_of_streamBody hsend
        obtain ⟨hfull, hstream⟩ := hputs
        have hmime : creq.contentType = some codec.mediaType := by
          rw [ClientRequest.contentType, hfull, hstream]
          rfl
        have hholds : creq.hyperBody.Holds chunks.flatten := by
          rw [ClientRequest.hyperBody, hfull, hstream, hencode]
          exact .stream chunks
        obtain ⟨hbytes, herror⟩ := h.body chunks.flatten hholds
        obtain ⟨htypes, hmode⟩ := Chain.bodyKind_of_mem hc.body hcomb rfl
        refine ⟨h.contentTypeOk laws hmime hsend.1 htypes List.mem_cons_self,
          fun st hst => ⟨st.world, ?_, fun b' hmem' hbody' => ?_⟩⟩
        · rw [Leaf.bodyStep, if_neg (by rw [hmode]; simp)]
          rfl
        · obtain rfl := hown b' hmem' hbody'
          exact hread (by rw [hst]; rfl) hbytes herror
    | _ => cases hbody
  · have hnone : ∀ b ∈ c.bindings args, b.comb.IsBody = false := by
      intro b hmem
      simpa using fun hb => hbody ⟨b, hmem, hb⟩
    obtain ⟨htypes, hmode⟩ := c.bodyKind_eq
    have hkind : c.combs.findSome? Comb.bodyKind = none := by
      rw [List.findSome?_eq_none_iff]
      intro comb hcomb
      rw [← Chain.map_comb_bindings c args] at hcomb
      obtain ⟨b, hmem, rfl⟩ := List.mem_map.mp hcomb
      have hbody := hnone b hmem
      obtain ⟨comb, a⟩ := b
      cases comb with
      | reqBody | streamBody => cases hbody
      | _ => rfl
    rw [hkind] at htypes hmode
    refine ⟨by rw [Leaf.contentTypeOk, htypes]; rfl, fun st _ => ⟨st.world, ?_, ?_⟩⟩
    · rw [Leaf.bodyStep, if_neg (by rw [hmode]; simp)]
      rfl
    · intro b hmem hbody
      rw [hnone b hmem] at hbody
      cases hbody

end ClientRequest.Arrives

/-! ### Answers -/

/-- The response to a handler's result, for the endpoint's own client. -/
def Chain.ownAnswer (c : Chain) : Except ServerError c.Output → Response
  | .ok out  => buildResponse (c.terminal.render c.terminal.ownAccept out)
  | .error e => errorResponse e

/-! ### The checks before the body -/

omit [PercentEncoding] in
/-- **Captures that are read are valid.** -/
theorem Chain.validateCaptures_of_reads {req : RequestData} {body : RequestBody} :
    ∀ (c : Chain) {args : c.Args} {caps : List String} {idx : Nat} {ca : Option (List String)},
      CaptureAllLast c.parts → caps.drop idx = capturedPieces (c.items args) →
      (∀ tail, capturedTail (c.items args) = some tail → ca.getD [] = tail) →
      (∀ b ∈ c.bindings args, b.comb.Reads req body b.arg) →
        c.validateCaptures caps idx ca = .route ()
  | verb _, _, _, _, _, _, _, _, _ => rfl
  | sub (.capture A data S name) next, (a, args), caps, idx, ca, hlast, hcaps, htail, hreads => by
      obtain ⟨hread, hreads⟩ := List.forall_mem_cons.mp hreads
      have hcaps : caps.drop idx = capturePiece data S a :: capturedPieces (next.items args) := hcaps
      have hfirst : caps[idx]? = some (capturePiece data S a) := by
        have hget := congrArg (·[0]?) hcaps
        simpa using hget
      have hbuild : CaptureShape.build S (data.fromUrlPiece (capturePiece data S a)) = .ok a := hread
      have hrest : caps.drop (idx + 1) = capturedPieces (next.items args) := by
        rw [← List.drop_drop, hcaps]
        rfl
      rw [validateCaptures_capture, hfirst]
      simp only [captureResult, hbuild]
      exact validateCaptures_of_reads next hlast hrest htail hreads
  | sub (.captureAll A data name) next, (as, args), caps, idx, ca, hlast, hcaps, htail, hreads => by
      obtain ⟨hread, hreads⟩ := List.forall_mem_cons.mp hreads
      have hnone : next.parts = [] := hlast
      have hparse : parseSegments data (as.map data.toUrlPiece) = .ok as := hread
      rw [validateCaptures_captureAll, captureAllResult, htail _ rfl, hparse]
      refine validateCaptures_of_reads next (hnone ▸ trivial) hcaps (fun tail ht => ?_) hreads
      rw [capturedTail_of_parts hnone] at ht
      cases ht
  -- the other combinators take no segments
  | sub (.queryParam ..) next, (_, _), _, _, _, hlast, hcaps, htail, hreads
  | sub (.queryParams ..) next, (_, _), _, _, _, hlast, hcaps, htail, hreads
  | sub (.queryFlag _) next, (_, _), _, _, _, hlast, hcaps, htail, hreads
  | sub .queryString next, (_, _), _, _, _, hlast, hcaps, htail, hreads
  | sub (.deepQuery ..) next, (_, _), _, _, _, hlast, hcaps, htail, hreads
  | sub (.header ..) next, (_, _), _, _, _, hlast, hcaps, htail, hreads
  | sub (.reqBody ..) next, (_, _), _, _, _, hlast, hcaps, htail, hreads
  | sub (.streamBody ..) next, (_, _), _, _, _, hlast, hcaps, htail, hreads
  | sub .vault next, (_, _), _, _, _, hlast, hcaps, htail, hreads
  | sub (.withResource _) next, (_, _), _, _, _, hlast, hcaps, htail, hreads
  | sub (.basicAuth ..) next, (_, _), _, _, _, hlast, hcaps, htail, hreads
  | sub (.authProtect _) next, (_, _), _, _, _, hlast, hcaps, htail, hreads
  | sub .isSecure next, (_, _), _, _, _, hlast, hcaps, htail, hreads
  | sub .httpVersion next, (_, _), _, _, _, hlast, hcaps, htail, hreads
  | sub .remoteHost next, (_, _), _, _, _, hlast, hcaps, htail, hreads
  | sub (.path _) next, _, _, _, _, hlast, hcaps, htail, hreads
  | sub (.host _) next, _, _, _, _, hlast, hcaps, htail, hreads
  | sub (.fragment ..) next, _, _, _, _, hlast, hcaps, htail, hreads
  | sub (.description _) next, _, _, _, _, hlast, hcaps, htail, hreads
  | sub (.summary _) next, _, _, _, _, hlast, hcaps, htail, hreads
  | sub (.operationId _) next, _, _, _, _, hlast, hcaps, htail, hreads
  | sub (.withNamedContext _) next, _, _, _, _, hlast, hcaps, htail, hreads =>
      validateCaptures_of_reads next hlast hcaps htail (List.forall_mem_cons.mp hreads).2

omit [PercentEncoding] [MimeCrate] in
/-- An authority that satisfies every `Host`. -/
theorem Chain.hostCheck_of_forall {req : RequestData} : ∀ {c : Chain},
    (∀ name, Comb.host name ∈ c.combs → ∃ required authority,
      HostRequirement.parse name = some required ∧ req.hostAuthority = some authority ∧
        required.matchesAuthority authority = true) → c.hostCheck req = .route ()
  | verb _, _ => rfl
  | sub c next, h => by
      have ih : next.hostCheck req = .route () :=
        hostCheck_of_forall fun name hname => h name (List.mem_cons_of_mem _ hname)
      cases c with
      | host name =>
          obtain ⟨required, authority, hparse, hauthority, hmatches⟩ := h name List.mem_cons_self
          rw [hostCheck, hparse]
          simp only [hauthority, hmatches, if_true, ih]
      | _ => exact ih

omit [AppTypes] [PercentEncoding] [MimeCrate] in
/-- An authority satisfies its own requirement. -/
theorem HostRequirement.matchesAuthority_self {name : String} {required : HostRequirement}
    (h : parse name = some required) : required.matchesAuthority name = true := by
  rw [matchesAuthority, h]
  cases hport : required.port with
  | none => simp
  | some port => simp [hport]

omit [AppTypes] [PercentEncoding] [MimeCrate] in
/-- A requirement keeps its text. -/
theorem HostRequirement.original_of_parse {original : String} {required : HostRequirement}
    (h : parse original = some required) : required.original = original := by
  rw [parse] at h
  obtain ⟨parsed, -, h⟩ := Option.bind_eq_some_iff.mp h
  by_cases hbad : parsed.host = "" ∨ '@' ∈ original.toList
  · simp [hbad] at h
  · by_cases hport : parsed.port = none ∧ hasUnparsedPortMarker original parsed.host = true
    · simp [hbad, hport] at h
    · simp only [hbad, hport, if_false, Option.pure_def, Option.some.injEq] at h
      rw [← h]

namespace ClientRequest.Arrives

/-- **The host is the one that is required.** -/
theorem hostCheck (laws : HeaderValueLaws) (h : creq.Arrives added got) (hc : c.Callable added)
    (hs : c.Sends maxBody args) (hb : c.Built args creq) : c.hostCheck got.data = .route () := by
  refine Chain.hostCheck_of_forall fun name hname => ?_
  rw [← Chain.map_comb_bindings c args] at hname
  obtain ⟨⟨comb, a⟩, hmem, hcomb⟩ := List.mem_map.mp hname
  obtain rfl : comb = .host name := hcomb
  obtain ⟨hsome, htext⟩ := hs.sendable _ hmem
  obtain ⟨required, hparse⟩ := Option.isSome_iff_exists.mp hsome
  obtain ⟨hfrom, hto⟩ := laws.of_isHeaderText htext
  have hentry : (Binding.mk (.host name) a).entry = some (.HOST, utf8Bytes name) := by
    show (HostRequirement.parse name).bind (fun required =>
      (HttpCrate.headerValueFromStr required.original).bind fun v => some (HeaderName.HOST, v)) = _
    rw [hparse, Option.bind_some, HostRequirement.original_of_parse hparse, hfrom, Option.bind_some]
  have hnames : ((c.bindings args).filterMap fun b => b.comb.headerName).Nodup :=
    (filterMap_combs Comb.headerName c args).symm ▸ hc.names
  have hsent : creq.headers.get .HOST = some (utf8Bytes name) := by
    rw [hb.headers, get_of_entries hnames hmem rfl, hentry]
    rfl
  have hgot : got.data.headers.get .HOST = some (utf8Bytes name) :=
    (h.header .HOST (by decide) (by decide) (.inr (by rw [hsent]; rfl))).trans hsent
  refine ⟨required, name, hparse, ?_, HostRequirement.matchesAuthority_self hparse⟩
  rw [RequestData.hostAuthority, hgot]
  exact hto

/-- The `Accept` header of the endpoint, as a server has it. -/
theorem accept_data (laws : HeaderValueLaws) (h : creq.Arrives added got) (hc : c.Callable added)
    (hb : c.Built args creq) : got.data.accept = c.terminal.ownAccept := by
  have hgot : got.data.headers.get .ACCEPT = _ := h.accept
  have hheader : creq.acceptHeader = c.terminal.ownAccept := by
    rw [ClientRequest.acceptHeader, hb.accept]
    rfl
  rw [RequestData.accept, RequestData.headerText, hgot, hheader]
  cases haccept : c.terminal.ownAccept with
  | none => rfl
  | some text =>
      have htext : IsHeaderText text := by
        rw [Terminal.ownAccept] at haccept
        split at haccept
        · cases haccept
        · obtain rfl := Option.some.inj haccept
          refine isHeaderText_intercalate fun s hs => ?_
          obtain ⟨mime, hmime, rfl⟩ := List.mem_map.mp hs
          exact (hc.media mime hmime).text
      rw [Option.map_some, Option.bind_some, (laws.of_isHeaderText htext).2]

/-- **A media type of the endpoint is accepted.** -/
theorem acceptCheck (laws : HeaderValueLaws) (h : creq.Arrives added got) (hc : c.Callable added)
    (hb : c.Built args creq) : c.acceptCheck got.data.accept = .route () := by
  rcases hc.accepts with ⟨M, hM⟩ | ⟨i, hi⟩
  · rw [Chain.acceptCheck, hM]
  · have hterminal : ∀ M, c.terminal ≠ .noContentVerb M := by
      intro M hM
      rw [hM] at hi
      cases hi
    rw [h.accept_data laws hc hb, Chain.acceptCheck_eq_route_iff hterminal]
    exact ⟨i, hi⟩

/-- What the request is answered with. -/
theorem answer_eq (laws : HeaderValueLaws) (h : creq.Arrives added got) (hc : c.Callable added)
    (hb : c.Built args creq) (result : Except ServerError c.Output) :
    Leaf.answer c got.data result = c.ownAnswer result := by
  have hmethod : got.data.method = c.method := h.method.trans hb.method
  have hhead : got.data.isHead = false := decide_eq_false (hmethod.trans_ne hc.method)
  cases result with
  | error e => rfl
  | ok out =>
      rw [Leaf.answer, hhead, h.accept_data laws hc hb]
      rfl

omit [MimeCrate] in
theorem methodOk (h : creq.Arrives added got) (hb : c.Built args creq) :
    Leaf.methodOk c got.data = true := by
  have hmethod : got.data.method = c.method := h.method.trans hb.method
  rw [Leaf.methodOk, hmethod]
  simp

/-! ### Every binding -/

theorem query_data (h : creq.Arrives added got) (hs : c.Sends maxBody args)
    (hb : c.Built args creq) : got.data.query = (c.bindings args).flatMap Binding.pairs := by
  have hadditive : ∀ item ∈ c.items args, item.Additive := by
    intro item hitem
    rw [Chain.items_eq_bindings] at hitem
    obtain ⟨⟨comb, a⟩, hmem, hitem⟩ := List.mem_filterMap.mp hitem
    have hsend := hs.sendable _ hmem
    have hitem : comb.item a = some item := hitem
    cases comb with
    | queryParam | queryParams | deepQuery =>
        obtain rfl := Option.some.inj hitem
        exact hsend.1
    | queryFlag =>
        obtain rfl := Option.some.inj hitem
        exact hsend
    | path | capture | captureAll =>
        obtain rfl := Option.some.inj hitem
        trivial
    | queryString => exact hsend.elim
    | _ => cases hitem
  have hquery : got.data.query = parseQuery got.query := rfl
  rw [hquery, h.query, hb.target, parseQuery_of_additive hadditive, Chain.items_eq_bindings,
    flatMap_pairs]

/-- **Every binding is read.** -/
theorem reads (laws : HeaderValueLaws) (h : creq.Arrives added got) (hc : c.Callable added)
    (hs : c.Sends maxBody args) (hb : c.Built args creq) {body : RequestBody}
    (hbody : ∀ b ∈ c.bindings args, b.comb.IsBody = true → b.comb.Reads got.data body b.arg) :
    ∀ b ∈ c.bindings args, b.comb.Reads got.data body b.arg := by
  intro b hmem
  have hsend := hs.sendable b hmem
  have hkeys : (c.bindings args).Pairwise fun b b' => b.comb.KeysApart b'.comb := by
    have hpair := hc.keys
    rw [← Chain.map_comb_bindings c args, List.pairwise_map] at hpair
    exact hpair
  cases hown : b.comb.IsBody with
  | true => exact hbody b hmem hown
  | false =>
      cases hbeside : b.comb.IsBeside with
      | false =>
          obtain ⟨before, after, hpairs, hother⟩ := pairs_of_mem hkeys hmem
          exact Comb.reads_of_url hsend hbeside ((h.query_data hs hb).trans hpairs) hother
      | true =>
          have hcomb := Chain.comb_mem hmem
          have hnames : ((c.bindings args).filterMap fun b => b.comb.headerName).Nodup :=
            (filterMap_combs Comb.headerName c args).symm ▸ hc.names
          obtain ⟨comb, a⟩ := b
          cases comb with
          | host name => trivial
          | header A data P S name =>
              refine Comb.reads_of_header laws hsend fun n hn => ?_
              have hname : n ∈ c.combs.filterMap Comb.headerName :=
                List.mem_filterMap.mpr ⟨_, hcomb, hn⟩
              have hadded : n ∉ added := hc.added n (List.mem_filterMap.mpr ⟨_, hcomb, hn⟩)
              have hget : got.data.headers.get n = creq.headers.get n :=
                h.header n (hc.own n hname).1 (hc.own n hname).2 (.inl hadded)
              rw [hget, hb.headers, get_of_entries hnames hmem hn]
              rfl
          | reqBody | streamBody => cases hown
          | _ => cases hbeside

end ClientRequest.Arrives

/-! ### The leaf -/

/-- The endpoint of a call with what its pattern finds in the pieces that are sent. -/
def Chain.called (label : Nat) (c : Chain) (handler : c.Args → Except ServerError c.Output)
    (args : c.Args) : Attempt :=
  ⟨label, c, handler, [], capturedPieces (c.items args),
    (capturedTail (c.items args)).map dropLeadingEmpty⟩

omit [PercentEncoding] in
/-- What the endpoint is called with, once its body step is done. -/
theorem Chain.Sends.holds (hs : c.Sends maxBody args) (st : ExtractState)
    (hcaptures : st.captures = capturedPieces (c.items args))
    (hall : st.capturedAll = (capturedTail (c.items args)).map dropLeadingEmpty) :
    c.Holds args st.world.body st := by
  refine ⟨hcaptures, ?_, fun _ => rfl⟩
  rw [hall]
  have htail := hs.tail
  cases ht : capturedTail (c.items args) with
  | none => rfl
  | some tail =>
      rw [ht] at htail
      exact dropLeadingEmpty_eq_self.mpr htail

variable [Base64Crate] {label : Nat} {handler : c.Args → Except ServerError c.Output}

omit [PercentEncoding] [MimeCrate] in
/-- No check comes before the body of an endpoint that has a client. -/
theorem Chain.preBodyCheck_of_hasClient {req : RequestData} : ∀ {c : Chain}, c.HasClient →
    c.preBodyCheck req = RouteM.pure ()
  | verb _, _ => rfl
  | sub c next, h => by
      have ih : next.preBodyCheck req = RouteM.pure () := preBodyCheck_of_hasClient h.2
      cases c with
      | basicAuth | authProtect | withNamedContext => exact h.1.elim
      | _ => exact ih

namespace ClientRequest.Arrives

omit [Base64Crate] in
/-- **The request passes the checks of its endpoint.** -/
theorem applies (laws : HeaderValueLaws) (h : creq.Arrives added got) (hc : c.Callable added)
    (hs : c.Sends maxBody args) (hb : c.Built args creq) :
    (c.called label handler args).Applies got.data := by
  obtain ⟨hcontent, hstep⟩ := h.body_read laws hc hs hb
  obtain ⟨w, -, hbody⟩ := hstep (.new [] none .new (.new got.body maxBody)) rfl
  have hreads := h.reads laws hc hs hb hbody
  intro r hr
  simp only [Leaf.gates, List.mem_cons, List.not_mem_nil, or_false] at hr
  rcases hr with rfl | rfl | rfl | rfl | rfl
  · refine c.validateCaptures_of_reads hc.tail rfl (fun tail ht => ?_) hreads
    have htail := hs.tail
    rw [ht] at htail
    show ((capturedTail (c.items args)).map dropLeadingEmpty).getD [] = tail
    rw [ht]
    exact dropLeadingEmpty_eq_self.mpr htail
  · exact h.hostCheck laws hc hs hb
  · exact Leaf.require_eq_route.mpr (h.methodOk hb)
  · exact h.acceptCheck laws hc hb
  · exact Leaf.require_eq_route.mpr hcontent

/-- **The handler is run on the arguments of the call.** -/
theorem runExtraction (laws : HeaderValueLaws) (h : creq.Arrives added got)
    (hc : c.Callable added) (hs : c.Sends maxBody args) (hb : c.Built args creq)
    (context : Context) (log : List Event) :
    (Leaf.runExtraction label c handler got.data (.new (c.called label handler args).captures
        (c.called label handler args).capturedAll context ⟨.new got.body maxBody, log⟩)).1
      = .route (Leaf.answer c got.data (handler args)) := by
  obtain ⟨-, hstep⟩ := h.body_read laws hc hs hb
  let st₀ : ExtractState := .new (capturedPieces (c.items args))
    ((capturedTail (c.items args)).map dropLeadingEmpty) context ⟨.new got.body maxBody, log⟩
  obtain ⟨w, hw, hbody⟩ := hstep st₀ rfl
  have hholds : c.Holds args w.body { st₀ with world := w } :=
    hs.holds { st₀ with world := w } rfl rfl
  obtain ⟨st, hst⟩ := c.extract_of_reads hc.tail hc.body hholds (h.reads laws hc hs hb hbody)
  have hrun : (Leaf.runHandler label c handler got.data args st).1
      = .route (Leaf.answer c got.data (handler args)) := by
    rw [Leaf.runHandler_eq]
  rw [runExtraction_eq, Chain.preBodyCheck_of_hasClient hc.client]
  show ((Leaf.bodyStep c >>= fun _ => c.extract got.data >>=
    Leaf.runHandler label c handler got.data) st₀).1 = _
  rw [bind_route hw, bind_route hst, hrun]

end ClientRequest.Arrives

/-! ### The service -/

/-- Of the endpoints that match the path of a call, the first with the call's method is the one that
is called. -/
def Api.Leads (api : Api) (label : Nat) (c : Chain)
    (handler : c.Args → Except ServerError c.Output) (args : c.Args) : Prop :=
  ∃ before after, api.attempts (received ((c.items args).flatMap UrlItem.pieces))
      = before ++ c.called label handler args :: after ∧ ∀ a ∈ before, a.chain.method ≠ c.method

omit [PercentEncoding] [HttpCrate] [MimeCrate] [Base64Crate] in
/-- An endpoint that is served alone. -/
theorem Api.leads_endpoint (label : Nat) (handler : c.Args → Except ServerError c.Output)
    (hlast : CaptureAllLast c.parts) (hpath : ¬ EndsEmpty (c.items args)) :
    (endpoint label c handler).Leads label c handler args := by
  refine ⟨[], [], ?_, fun _ ha => absurd ha List.not_mem_nil⟩
  have hmatch : c.pattern.match? lastOnly (received ((c.items args).flatMap UrlItem.pieces))
      = some (foundIn (c.items args)) := by
    rw [PathPattern.match?, Chain.pattern, matchParts_received,
      Chain.parts_eq_items c args, matchParts_items _ (Chain.parts_eq_items c args ▸ hlast), if_neg hpath]
  rw [attempts, hmatch]
  rfl

/-- **A service answers a call with the handler's answer.** -/
theorem ClientRequest.Arrives.handle (laws : HeaderValueLaws) (h : creq.Arrives added got)
    (hc : c.Callable added) (hs : c.Sends maxBody args) (hb : c.Built args creq) {api : Api}
    (htyped : api.Typed) (hleads : api.Leads label c handler args) (context : Context) :
    RouterService.handle ⟨serveWithContext api context, maxBody⟩ got
      = Leaf.answer c got.data (handler args) := by
  have hpath : pathSegments got.path = received ((c.items args).flatMap UrlItem.pieces) := by
    have hempty : EndsPath "" := nofun
    rw [h.path, hb.target, ← pathSegments_path_render .plain (c.items args) hempty,
      String.append_empty]
  obtain ⟨before, after, hattempts, hbefore⟩ := hleads
  have hnot : ∀ a ∈ before, ¬ a.Applies got.data := by
    intro a hmem happlies
    have hmethod := Leaf.require_eq_route.mp
      (happlies (Leaf.require (Leaf.methodOk a.chain got.data) .err405) (by simp [Leaf.gates]))
    have hgot : got.data.method = c.method := h.method.trans hb.method
    have hhead : got.data.isHead = false := decide_eq_false (hgot.trans_ne hc.method)
    rw [Leaf.methodOk, hgot, hhead, Bool.false_and, Bool.or_false, decide_eq_true_eq] at hmethod
    exact hbefore a hmem hmethod.symm
  have hfind : (api.attempts (pathSegments got.path)).find? (·.Applies got.data)
      = some (c.called label handler args) := by
    have hnone : before.find? (·.Applies got.data) = none := by
      simpa [List.find?_eq_none] using hnot
    rw [hpath, hattempts, List.find?_append, hnone, Option.none_or, List.find?_cons_of_pos]
    exact decide_eq_true (h.applies laws hc hs hb)
  have hrun : (Leaf.runExtraction label c handler got.data (.new (capturedPieces (c.items args))
      ((capturedTail (c.items args)).map dropLeadingEmpty) context ⟨.new got.body maxBody, []⟩)).1
        = .route (Leaf.answer c got.data (handler args)) :=
    h.runExtraction laws hc hs hb context []
  have hdispatch : dispatch Leaf.call (serveWithContext api context) (pathSegments got.path) [] none
      got.data = serveFlat lastOnly Leaf.call api context (pathSegments got.path) got.data :=
    dispatch_flat api context (pathSegments got.path) got.data
  rw [RouterService.handle]
  dsimp only
  rw [hdispatch, serveFlat_attempts htyped,
    tryInOrder_attempts_of_applies context captureCount_le hfind]
  exact congrArg RouteResult.intoResponse hrun

end ServantRs
