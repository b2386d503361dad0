import ServantRs.Calls.RoundTrip
import ServantRs.Streams.Pieces

/-!
# Calls — streams

A client calls a streaming endpoint, and is handed the items of the handler's stream one by one,
however many there are: only a frame and a piece of the body together have to fit in its buffer.

* `validateStreamingResponse_eq`: the answer passes the client's checks.
* `callStream_ok`: the items come back.
-/

namespace ServantRs

section

variable [HttpCrate] {T : Type} {framing : Framing} {codec : Codec T} {STATUS : StatusCode}
  {items : List T}

omit [HttpCrate] in
/-- The handler's value is the stream of the items. -/
inductive Terminal.Yields (framing : Framing) (codec : Codec T) (STATUS : StatusCode)
    (items : List T) : (t : Terminal) → t.Output → Prop
  | streamVerb (M : Method) : Yields framing codec STATUS items
      (.streamVerb M STATUS framing T codec) (SourceStream.ofList items)

omit [HttpCrate] in
theorem Terminal.Yields.mem_mediaTypes {t : Terminal} {out : t.Output}
    (h : t.Yields framing codec STATUS items out) : codec.mediaType ∈ t.mediaTypes := by
  cases h with
  | streamVerb M => exact List.mem_cons_self

theorem HyperClient.Cuts.of_runStreaming [PercentEncoding] [UriCrate] {client : HyperClient}
    {piece : Nat} (h : client.Cuts piece) {req : ClientRequest} {resp : StreamingResponse}
    (hrun : client.runStreaming req = .ok resp) :
    ∀ chunk, .ok chunk ∈ resp.body → chunk.length ≤ piece := by
  obtain ⟨sent, -, hsent⟩ := of_bind_eq_ok hrun
  cases hinner : client.inner sent with
  | error message =>
      rw [hinner] at hsent
      cases hsent
  | ok resp' =>
      rw [hinner] at hsent
      obtain rfl := Except.ok.inj hsent
      exact h sent resp' hinner

/-- The answer to a call of a streaming endpoint. -/
theorem Terminal.Yields.buildResponse_eq (laws : HeaderValueLaws) {t : Terminal} {out : t.Output}
    (h : t.Yields framing codec STATUS items out) (hitems : ∀ x ∈ items, codec.Streams framing x)
    (hm : IsHeaderText codec.mediaType.source) (accept : Option String) :
    buildResponse (t.render accept out) = ⟨STATUS,
      [(.CONTENT_TYPE, utf8Bytes codec.mediaType.source)],
      .stream (.ofList ((items.map (encodeItem framing codec)).map .ok))⟩ := by
  cases h with
  | streamVerb M =>
      have hstream : (SourceStream.ofList items).map
          (fun item => (codec.mimeRender item).map framing.frame)
            = .ofList ((items.map (encodeItem framing codec)).map .ok) := by
        rw [SourceStream.map_ofList, List.map_map]
        congr 1
        refine List.map_congr_left fun x hx => ?_
        obtain ⟨rendered, frame, hrender, -, -⟩ := hitems x hx
        show (codec.mimeRender x).map framing.frame = .ok (encodeItem framing codec x)
        rw [encodeItem, hrender]
        rfl
      show buildResponse (STATUS, some codec.mediaType,
        .stream ((SourceStream.ofList items).map fun item =>
          (codec.mimeRender item).map framing.frame), []) = _
      rw [hstream]
      simp only [buildResponse, Option.bind_some, (laws.of_isHeaderText hm).1]
      rfl

variable [MimeCrate]

/-- **The answer passes the client's checks.** -/
theorem validateStreamingResponse_eq (laws : HeaderValueLaws) {resp : StreamingResponse}
    (hstatus : resp.status = STATUS)
    (hget : resp.headers.get .CONTENT_TYPE = some (utf8Bytes codec.mediaType.source))
    (hm : codec.mediaType.Carried) (hown : codec.mediaType ∈ codec.mediaTypes) :
    validateStreamingResponse STATUS codec.toMediaType resp = .ok () := by
  have hparse : parseContentType (utf8Bytes codec.mediaType.source) = some codec.mediaType := by
    rw [parseContentType, (laws.of_isHeaderText hm.text).2, Option.bind_some, hm.parsed]
  have hmatches : codec.mediaTypes.any (mediaTypeMatches · codec.mediaType) = true :=
    List.any_eq_true.mpr ⟨_, hown, mediaTypeMatches_iff.mpr ⟨rfl, rfl⟩⟩
  rw [validateStreamingResponse, if_neg (not_not.mpr hstatus), hget]
  simp only [hparse, hmatches, if_true]

variable [AppTypes] [PercentEncoding] [UriCrate] [Base64Crate] [BodyUtilCrate]

namespace ClientEndpoint

variable {endpoint : ClientEndpoint} {client : HyperClient} {added : List HeaderName} {api : Api}
  {context : Context} {maxBody label : Nat}
  {handler : endpoint.chain.Args → Except ServerError endpoint.chain.Output}
  {args : endpoint.chain.Args}

/-- **The handler's items come back**, however many there are. -/
theorem callStream_ok (laws : HeaderValueLaws)
    (h : endpoint.CallsInto client added api context maxBody label handler args)
    (info : endpoint.chain.StreamInfo framing codec STATUS) (hframing : framing ∈ Framing.builtin)
    {out : endpoint.chain.Output} (hout : handler args = .ok out)
    (hyields : endpoint.chain.terminal.Yields framing codec STATUS items out)
    (hitems : ∀ x ∈ items, codec.Streams framing x) (hown : codec.mediaType ∈ codec.mediaTypes)
    {max piece : Nat} (hcuts : client.Cuts piece)
    (hmax : ∀ x ∈ items, (encodeItem framing codec x).length ≤ max)
    (hfits : max + piece ≤ MAX_STREAM_FRAME_BYTES) :
    endpoint.callStream info client.transport args = .ok (.ofList (items.map .ok)) := by
  obtain ⟨creq, resp, hbuild, hrun, hreturns⟩ := h.runStreaming laws
  have hm : codec.mediaType.Carried := h.callable.media _ hyields.mem_mediaTypes
  have hanswer := hyields.buildResponse_eq laws hitems hm.text endpoint.chain.terminal.ownAccept
  have hsent : endpoint.chain.ownAnswer (handler args) = buildResponse
      (endpoint.chain.terminal.render endpoint.chain.terminal.ownAccept out) := by
    rw [hout]
    rfl
  rw [hsent, hanswer] at hreturns
  have hget : resp.headers.get .CONTENT_TYPE = some (utf8Bytes codec.mediaType.source) := by
    rw [HeaderMap.get_eq_head?, hreturns.header _ h.kept.2]
    rfl
  obtain ⟨chunks, hchunks, hflat⟩ := hreturns.body _ (.stream _)
  have hpieces : ∀ chunk ∈ chunks, chunk.length ≤ piece := fun chunk hchunk =>
    hcuts.of_runStreaming hrun chunk (hchunks ▸ List.mem_map_of_mem hchunk)
  have hdecode : deframeDecode framing codec resp.body = .ofList (items.map .ok) := by
    rw [hchunks]
    exact deframeDecode_pieces (stable_of_mem_builtin hframing)
      (Framing.flushes_of_mem_builtin hframing) hitems hmax hpieces hfits (by rw [hflat, List.flatMap_def])
  have hstreamed : client.transport.runStreaming creq = .ok resp := hrun
  have hvalid := validateStreamingResponse_eq laws hreturns.status hget hm hown
  rw [callStream, hbuild]
  show (client.transport.runStreaming creq >>= fun resp => _) = _
  rw [hstreamed]
  show (validateStreamingResponse STATUS codec.toMediaType resp >>= fun _ => _) = _
  rw [hvalid]
  exact congrArg Except.ok hdecode

end ClientEndpoint

end

/-! ### A feed -/

section

attribute [local instance] AppTypes.reference HttpCrate.reference MimeCrate.reference
  Base64Crate.reference PercentEncoding.reference UriCrate.reference
  BodyUtilCrate.reference

/-- `GET /ticks`, line by line. -/
def ticks : Chain := .sub (.path "ticks") (.verb (.streamVerb .GET .OK NewlineFraming Bytes .octetStream))

def ticksClient : ClientEndpoint := ⟨ticks, ⟨trivial, trivial⟩, ()⟩

def ticksHandler : ticks.Args → Except ServerError (SourceStream Bytes) :=
  fun _ => .ok (.ofList [[1], [], [2, 3]])

noncomputable def ticksNetwork : HyperClient :=
  ⟨noteBase, loopback noteBase
    (RouterService.handle ⟨serveWithContext (.endpoint 0 ticks ticksHandler) .new, 64⟩)
    (rootRequest .GET none), 64⟩

theorem ticks_callsInto : ticksClient.CallsInto ticksNetwork [] (.endpoint 0 ticks ticksHandler)
    .new 64 0 ticksHandler () where
  reaches _ sent _ _ := loopback_reaches _ _ _ _ _ sent
  root := rfl
  kept := by decide
  typed := trivial
  leads := Api.leads_endpoint 0 ticksHandler trivial (by decide)
  callable :=
    { client := ⟨trivial, trivial⟩
      method := by decide
      tail := trivial
      keys := List.pairwise_singleton _ _
      names := by decide
      own := by decide
      added := by decide
      body := by decide
      media := List.forall_mem_singleton.mpr octets_carried
      accepts := .inr ⟨0, by decide⟩ }
  sends := ⟨List.forall_mem_singleton.mpr trivial, by decide, by decide⟩
  builds := ⟨_, rfl, by decide⟩

theorem callStream_ok_ticks :
    ticksClient.callStream (.sub trivial (.streamVerb .GET)) ticksNetwork.transport ()
      = .ok (.ofList ([[1], [], [2, 3]].map .ok)) := by
  have hitems : ∀ x ∈ [[1], [], [2, 3]], Codec.octetStream.Streams NewlineFraming x := by
    intro x hx
    refine Codec.RoundTrips.streams_newline ⟨x, rfl, ?_, rfl⟩
    simp only [List.mem_cons, List.not_mem_nil, or_false] at hx
    rcases hx with rfl | rfl | rfl <;> decide
  have hmax : ∀ x ∈ [[1], [], [2, 3]],
      (encodeItem NewlineFraming .octetStream x).length ≤ 3 := by decide
  exact ClientEndpoint.callStream_ok headerValueLaws_reference ticks_callsInto
    (.sub trivial (.streamVerb .GET)) (by simp [Framing.builtin]) rfl (.streamVerb .GET) hitems
    List.mem_cons_self (loopback_cuts _ _ _ _) hmax (by decide)

end

end ServantRs
