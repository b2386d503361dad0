import ServantRs.Calls.Answer

/-!
# Calls — there and back

A client calls an endpoint of a service behind a network, and gets what the service's handler
returns for the arguments of the call.

* `ClientEndpoint.CallsInto`: the client, the network, the service and the arguments of a call.
* `CallsInto.runStreaming`: what comes back is the handler's answer.
* `call_ok`, `call_error`: the handler's value, and the handler's error.
* `callStream_ok`: the items of a handler's stream.
-/

namespace ServantRs

section

variable [AppTypes] [PercentEncoding] [UriCrate] [HttpCrate] [MimeCrate] [Base64Crate]

/-- A call that reaches its endpoint: the network takes the request to a service that the endpoint
is served by, and its arguments can be sent. -/
structure ClientEndpoint.CallsInto (endpoint : ClientEndpoint) (client : HyperClient)
    (added : List HeaderName) (api : Api) (context : Context) (maxBody label : Nat)
    (handler : endpoint.chain.Args → Except ServerError endpoint.chain.Output)
    (args : endpoint.chain.Args) : Prop where
  reaches : ∀ creq sent, endpoint.chain.buildRequest endpoint.hasClient args .new = .ok creq →
    client.build creq = .ok sent →
      client.Reaches (RouterService.handle ⟨serveWithContext api context, maxBody⟩) added sent
  root : client.base.path = ""
  kept : .ACCEPT ∉ added ∧ .CONTENT_TYPE ∉ added
  typed : api.Typed
  leads : api.Leads label endpoint.chain handler args
  callable : endpoint.chain.Callable added
  sends : endpoint.chain.Sends maxBody args
  builds : ∃ creq, endpoint.chain.buildRequest endpoint.hasClient args .new = .ok creq ∧
    UriCrate.isUri (client.base.urlFor creq.target) = true

variable {endpoint : ClientEndpoint} {client : HyperClient} {added : List HeaderName} {api : Api}
  {context : Context} {maxBody label : Nat}
  {handler : endpoint.chain.Args → Except ServerError endpoint.chain.Output}
  {args : endpoint.chain.Args}

namespace ClientEndpoint

/-- **What comes back is the handler's answer.** -/
theorem CallsInto.runStreaming
    (h : endpoint.CallsInto client added api context maxBody label handler args)
    (laws : HeaderValueLaws) :
    ∃ creq resp, endpoint.chain.buildRequest endpoint.hasClient args .new = .ok creq ∧
      client.runStreaming creq = .ok resp ∧
      Returns added (endpoint.chain.ownAnswer (handler args)) resp := by
  obtain ⟨creq, hbuild, huri⟩ := h.builds
  have hb : endpoint.chain.Built args creq := h.callable.built hbuild
  obtain ⟨got, resp, harrives, hreturns, hrun⟩ :=
    HyperClient.runStreaming_of_reaches (fun sent => h.reaches creq sent hbuild) laws h.root h.kept
      (h.callable.sendable h.sends hb) huri
  rw [harrives.handle laws h.callable h.sends hb h.typed h.leads context,
    harrives.answer_eq laws h.callable hb] at hreturns
  exact ⟨creq, resp, hbuild, hrun, hreturns⟩

variable [BodyUtilCrate]

/-- A call decodes the handler's answer. -/
theorem CallsInto.call_eq
    (h : endpoint.CallsInto client added api context maxBody label handler args)
    (laws : HeaderValueLaws) {bytes : Bytes}
    (hbytes : (endpoint.chain.ownAnswer (handler args)).body.Holds bytes)
    (hle : bytes.length ≤ client.maxBody) :
    ∃ resp : ClientResponse, resp.Carries added (endpoint.chain.ownAnswer (handler args)) bytes ∧
      endpoint.call client.transport.toRunClient args
        = endpoint.chain.terminal.decode endpoint.decoder resp := by
  obtain ⟨creq, streamed, hbuild, hrun, hreturns⟩ := h.runStreaming laws
  obtain ⟨resp, hrequest, hcarries⟩ := hreturns.runRequest hrun hbytes hle
  have hrequest : client.transport.runRequest creq = .ok resp := hrequest
  have hstreams : (creq.streamingBody.isSome && !client.transport.supportsStreamingRequestBody)
      ≠ true := by
    show (creq.streamingBody.isSome && false) ≠ true
    rw [Bool.and_false]
    exact Bool.false_ne_true
  refine ⟨resp, hcarries, ?_⟩
  rw [call, hbuild]
  refine (if_neg hstreams).trans ?_
  show (client.transport.runRequest creq >>= fun resp => _) = _
  rw [hrequest]
  rfl

/-- **The handler's value comes back.** -/
theorem call_ok (laws : HeaderValueLaws)
    (h : endpoint.CallsInto client added api context maxBody label handler args)
    {out : endpoint.chain.Output} (hout : handler args = .ok out)
    {same : endpoint.chain.Output → Prop}
    (hback : endpoint.chain.terminal.ReadsBack added endpoint.decoder out same)
    (hle : ∀ bytes, (endpoint.chain.terminal.render endpoint.chain.terminal.ownAccept
      out).2.2.1.Holds bytes → bytes.length ≤ client.maxBody) :
    ∃ out', endpoint.call client.transport.toRunClient args = .ok out' ∧ same out' := by
  obtain ⟨bytes, hbytes, hdecode⟩ :=
    hback.decode_eq laws h.kept.2 h.callable.media h.callable.accepts
  have hanswer : endpoint.chain.ownAnswer (handler args) = buildResponse
      (endpoint.chain.terminal.render endpoint.chain.terminal.ownAccept out) := by
    rw [hout]
    rfl
  obtain ⟨resp, hcarries, hcall⟩ := h.call_eq laws (hanswer ▸ hbytes) (hle bytes hbytes)
  rw [hcall]
  exact hdecode resp (hanswer ▸ hcarries)

/-- **The handler's error comes back** as a response of its status, its headers and its body. -/
theorem call_error (laws : HeaderValueLaws)
    (h : endpoint.CallsInto client added api context maxBody label handler args)
    {e : ServerError} (he : handler args = .error e)
    (hrefuses : endpoint.chain.terminal.Refuses endpoint.decoder e.status)
    (hle : e.body.length ≤ client.maxBody) :
    ∃ resp : ClientResponse,
      endpoint.call client.transport.toRunClient args = .error (.failureResponse resp) ∧
        resp.status = e.status ∧ resp.body = e.body ∧
        ∀ n ∉ added, resp.headers.filter (·.1 = n) = e.headers.filter (·.1 = n) := by
  have hanswer : endpoint.chain.ownAnswer (handler args) = errorResponse e := by
    rw [he]
    rfl
  obtain ⟨resp, hcarries, hcall⟩ := h.call_eq laws (hanswer ▸ .full e.body) hle
  rw [hanswer] at hcarries
  have hstatus : resp.status = e.status := hcarries.status
  refine ⟨resp, ?_, hstatus, hcarries.body, hcarries.header⟩
  rw [hcall]
  exact Terminal.Refuses.decode_eq (hstatus ▸ hrefuses)

end ClientEndpoint

end

/-! ### A box of notes -/

section

attribute [local instance] AppTypes.reference HttpCrate.reference MimeCrate.reference
  Base64Crate.reference PercentEncoding.reference UriCrate.reference
  BodyUtilCrate.reference

/-- `POST /boxes/{box}?tag=..` with an author and a note, that is handed back. -/
def putNote : Chain :=
  .sub (.path "boxes") (.sub (.capture String .string .strict "box")
    (.sub (.queryParam String .string .required .strict "tag")
      (.sub (.header String .string .optional .strict "X-Author")
        (.sub (.reqBody Bytes [.octetStream] .strict)
          (.verb (.verb .POST .OK Bytes [.octetStream]))))))

def putNoteClient : ClientEndpoint := ⟨putNote, ⟨trivial, trivial, trivial, trivial, trivial, trivial⟩, ()⟩

/-- Box `0` is locked. -/
def openBox (box : String) (note : Bytes) : Except ServerError Bytes :=
  if box = "0" then .error (.withBody "locked" .err401) else .ok note

def noteHandler : putNote.Args → Except ServerError Bytes
  | (box, _, _, note, _) => openBox box note

def noteBase : BaseUrl := .http "localhost" 8080

noncomputable def noteNetwork : HyperClient :=
  ⟨noteBase, loopback noteBase
    (RouterService.handle ⟨serveWithContext (.endpoint 0 putNote noteHandler) .new, 64⟩)
    (rootRequest .GET none), 64⟩

theorem octets_carried : Mime.Carried .APPLICATION_OCTET_STREAM where
  text := by decide
  trimmed := by decide
  parsed := by decide

theorem putNote_callable : putNote.Callable ["date"] where
  client := ⟨trivial, trivial, trivial, trivial, trivial, trivial⟩
  method := by decide
  tail := trivial
  keys := by simp [putNote, Chain.combs, Comb.KeysApart, Comb.readsKey]
  names := by decide
  own := by decide
  added := by decide
  body := by decide
  media := by
    intro m hm
    obtain rfl := List.mem_singleton.mp hm
    exact octets_carried
  accepts := .inr ⟨0, by decide⟩

theorem putNote_callsInto (box : String) (h : box = "7" ∨ box = "0") :
    putNoteClient.CallsInto noteNetwork ["date"] (.endpoint 0 putNote noteHandler) .new 64 0
      noteHandler (box, "a b", some "me", [1, 2], ()) where
  reaches _ sent _ _ := loopback_reaches _ _ _ _ _ sent
  root := rfl
  kept := by decide
  typed := trivial
  leads := Api.leads_endpoint 0 noteHandler trivial (by rcases h with rfl | rfl <;> decide)
  callable := putNote_callable
  sends := by
    refine ⟨?_, by rcases h with rfl | rfl <;> decide, by rcases h with rfl | rfl <;> decide⟩
    have hauthor : Comb.Sendable 64 (.header String .string .optional .strict "X-Author")
        (some "me") := by
      refine ⟨by decide, trivial, ?_⟩
      rintro _ ⟨⟩
      exact ⟨by decide, rfl⟩
    have htag : Comb.Sendable 64 (.queryParam String .string .required .strict "tag") "a b" := by
      refine ⟨by decide, trivial, ?_⟩
      rintro _ ⟨⟩
      rfl
    have hnote : Comb.Sendable 64 (.reqBody Bytes [.octetStream] .strict) ([1, 2] : Bytes) := by
      refine ⟨trivial, ?_⟩
      rintro _ ⟨⟩
      refine ⟨?_, ?_⟩
      · intro c hc bytes hbytes
        obtain rfl := List.mem_singleton.mp hc
        exact hbytes.symm
      · rintro mime bytes ⟨⟩
        exact ⟨octets_carried, by decide⟩
    exact List.forall_mem_cons.mpr ⟨trivial, List.forall_mem_cons.mpr ⟨rfl,
      List.forall_mem_cons.mpr ⟨htag, List.forall_mem_cons.mpr ⟨hauthor,
        List.forall_mem_singleton.mpr hnote⟩⟩⟩⟩
  builds := by
    rcases h with rfl | rfl
    · exact ⟨_, rfl, by decide⟩
    · exact ⟨_, rfl, by decide⟩

/-- A note for box 7 is handed back. -/
theorem call_ok_note : ∃ out', putNoteClient.call noteNetwork.transport.toRunClient
    ("7", "a b", some "me", [1, 2], ()) = .ok out' ∧ out' = ([1, 2] : Bytes) := by
  have hback : putNote.terminal.ReadsBack ["date"] () ([1, 2] : Bytes) (· = ([1, 2] : Bytes)) := by
    refine .verb .POST .OK (List.pairwise_singleton _ _) fun c hc => ?_
    obtain rfl := List.mem_singleton.mp hc
    exact ⟨_, rfl, trivial, rfl⟩
  refine ClientEndpoint.call_ok headerValueLaws_reference (putNote_callsInto "7" (.inl rfl)) rfl
    hback fun bytes hbytes => ?_
  rw [hbytes.unique (.full [1, 2])]
  decide

/-- Box 0 is locked, and the client is told. -/
theorem call_error_note : ∃ resp : ClientResponse,
    putNoteClient.call noteNetwork.transport.toRunClient ("0", "a b", some "me", [1, 2], ())
      = .error (.failureResponse resp) ∧
    resp.status = ServerError.err401.status ∧ resp.body = utf8Bytes "locked" ∧
    ∀ n ∉ ["date"], resp.headers.filter (·.1 = n) = [] := by
  have hrefuses : (ServerError.withBody "locked" .err401).status ≠ StatusCode.OK := by decide
  exact ClientEndpoint.call_error headerValueLaws_reference (putNote_callsInto "0" (.inr rfl)) rfl
    hrefuses (by decide)

end

end ServantRs
