import ServantRs.Calls.Sent
import ServantRs.Client.Transport
import ServantRs.Messages.Headers
import ServantRs.Server.Adapter
import ServantRs.Streams.Server

/-!
# Calls — over the wire

What a network does between a client and a service: a request arrives with the method and the
target it was sent with, the headers it was sent with, and a body of the same bytes, cut anywhere;
a response comes back likewise.  A network may add headers of its own (`added`).

* `build_sends`: what a client sends of a request.
* `Reaches`: the network behind a client takes a request to a service and the response back.
* `runStreaming_of_reaches`: what of a client's request arrives there.
-/

namespace ServantRs

variable [HttpCrate]

/-! ### Bodies in the end -/

namespace HyperBody

/-- The bytes of a body that does not fail. -/
inductive Holds : HyperBody → Bytes → Prop
  | full (bytes : Bytes) : Holds (.full bytes) bytes
  | stream (chunks : List Bytes) : Holds (.stream (.ofList (chunks.map .ok))) chunks.flatten

end HyperBody

namespace ResponseBody

/-- The bytes of a body that does not fail. -/
inductive Holds : ResponseBody → Bytes → Prop
  | full (bytes : Bytes) : Holds (.full bytes) bytes
  | stream (chunks : List Bytes) : Holds (.stream (.ofList (chunks.map .ok))) chunks.flatten

end ResponseBody

/-! ### What the client sends -/

namespace ClientRequest

/-- The content type of the body, and the body as it is sent. -/
def contentType (req : ClientRequest) : Option Mime :=
  (req.body.map Prod.snd).or (req.streamingBody.map StreamingRequestBody.mediaType)

def hyperBody (req : ClientRequest) : HyperBody :=
  match req.body, req.streamingBody with
  | some (bytes, _), _ => .full bytes
  | none, some body    => .stream body.stream
  | none, none         => .full []

/-- Headers that a client can put together: distinct names, none of which it sets itself, and texts
that are headers'. -/
structure Sendable (req : ClientRequest) : Prop where
  nodup : (req.headers.map Prod.fst).Nodup
  own : ∀ n ∈ req.headers.map Prod.fst, n ≠ .ACCEPT ∧ n ≠ .CONTENT_TYPE
  accept : ∀ mime ∈ req.accept, IsHeaderText mime.source
  contentType : ∀ mime ∈ req.contentType, IsHeaderText mime.source
  body : req.body = none ∨ req.streamingBody = none

end ClientRequest

omit [HttpCrate] in
/-- Texts of headers joined are a header's text. -/
theorem isHeaderText_intercalate {texts : List String} (h : ∀ s ∈ texts, IsHeaderText s) :
    IsHeaderText (", ".intercalate texts) := by
  intro c hc
  rcases mem_toList_intercalate hc with hc | ⟨s, hs, hc⟩
  · have hsep : c = ',' ∨ c = ' ' := by simpa using hc
    rcases hsep with rfl | rfl
    · exact .inr (by decide)
    · exact .inr (by decide)
  · exact h s hs c hc

namespace HyperClient

variable {req : ClientRequest}

/-- A header of the client's own, as it is sent. -/
def ownEntry (name : HeaderName) (text : Option String) : HeaderMap :=
  (text.map fun text => (name, utf8Bytes text)).toList

theorem headerEntry_eq (laws : HeaderValueLaws) (name : HeaderName) {text : Option String}
    (h : ∀ s ∈ text, IsHeaderText s) : headerEntry name text = some (ownEntry name text) := by
  cases text with
  | none => rfl
  | some s =>
      rw [headerEntry, (laws.of_isHeaderText (h s rfl)).1]
      rfl

omit [HttpCrate] in
theorem mem_ownEntry {name n : HeaderName} {text : Option String}
    (h : n ∈ (ownEntry name text).map Prod.fst) : n = name := by
  cases text with
  | none => cases h
  | some s => simpa [ownEntry] using h

/-- The headers of a request between the client's own. -/
def sentHeaders (req : ClientRequest) : HeaderMap :=
  ownEntry .ACCEPT req.acceptHeader ++ req.headers
    ++ ownEntry .CONTENT_TYPE (req.contentType.map Mime.source)

omit [HttpCrate] in
theorem nodup_sentHeaders (h : req.Sendable) : ((sentHeaders req).map Prod.fst).Nodup := by
  have hown : ∀ (name : HeaderName) (text : Option String),
      ((ownEntry name text).map Prod.fst).Nodup := by
    intro name text
    cases text with
    | none => exact .nil
    | some s => simp [ownEntry]
  rw [sentHeaders, List.map_append, List.map_append, List.nodup_append, List.nodup_append]
  refine ⟨⟨hown _ _, h.nodup, ?_⟩, hown _ _, ?_⟩
  · rintro n hn m hm rfl
    exact (h.own n hm).1 (mem_ownEntry hn)
  · rintro n hn m hm rfl
    obtain rfl := mem_ownEntry hm
    rcases List.mem_append.mp hn with hn | hn
    · exact absurd (mem_ownEntry hn) (by decide)
    · exact (h.own _ hn).2 rfl

/-- The client's own headers stand around those of the request. -/
theorem outgoingHeaders_eq (laws : HeaderValueLaws) (h : req.Sendable) :
    outgoingHeaders req req.contentType = some (sentHeaders req) := by
  have haccept : ∀ s ∈ req.acceptHeader, IsHeaderText s := by
    intro s hs
    rw [ClientRequest.acceptHeader] at hs
    split at hs
    · cases hs
    · obtain rfl := Option.some.inj hs
      refine isHeaderText_intercalate fun t ht => ?_
      obtain ⟨mime, hmime, rfl⟩ := List.mem_map.mp ht
      exact h.accept mime hmime
  have hcontent : ∀ s ∈ req.contentType.map Mime.source, IsHeaderText s := by
    intro s hs
    obtain ⟨mime, hmime, rfl⟩ := Option.map_eq_some_iff.mp hs
    exact h.contentType mime hmime
  have hfold := HeaderMap.foldl_append_of_fresh (nodup_sentHeaders h) (m := [])
    fun n _ hn => absurd hn List.not_mem_nil
  rw [outgoingHeaders, headerEntry_eq laws .ACCEPT haccept,
    headerEntry_eq laws .CONTENT_TYPE hcontent]
  exact congrArg some hfold

omit [HttpCrate] in
/-- One of the client's own headers. -/
theorem get_ownEntry (name : HeaderName) (text : Option String) :
    HeaderMap.get name (ownEntry name text) = text.map utf8Bytes := by
  cases text with
  | none => rfl
  | some s => exact if_pos rfl

omit [HttpCrate] in
theorem get_ownEntry_of_ne {name n : HeaderName} (h : n ≠ name) (text : Option String) :
    HeaderMap.get n (ownEntry name text) = none :=
  HeaderMap.get_of_fresh fun hn => h (mem_ownEntry hn)

variable [PercentEncoding] [UriCrate] {client : HyperClient}

/-- A request with one body at most is finished with that body. -/
theorem build_eq (h : req.Sendable) :
    client.build req = client.finish req req.contentType req.hyperBody := by
  rw [build, ClientRequest.contentType, ClientRequest.hyperBody]
  rcases h.body with hb | hb
  · rw [hb]
    cases req.streamingBody with
    | none => rfl
    | some body => rfl
  · rw [hb]
    cases req.body with
    | none => rfl
    | some body => rfl

/-- What is sent of a request. -/
structure Sends (client : HyperClient) (req : ClientRequest) (sent : HyperRequest) : Prop where
  method : sent.method = req.method
  url : sent.url = client.base.urlFor req.target
  accept : sent.headers.get .ACCEPT = req.acceptHeader.map utf8Bytes
  contentType : sent.headers.get .CONTENT_TYPE
    = req.contentType.map fun mime => utf8Bytes mime.source
  others : ∀ n, n ≠ .ACCEPT → n ≠ .CONTENT_TYPE → sent.headers.get n = req.headers.get n
  body : sent.body = req.hyperBody

/-- **What a client sends.** -/
theorem build_sends (laws : HeaderValueLaws) (h : req.Sendable)
    (huri : UriCrate.isUri (client.base.urlFor req.target) = true) :
    ∃ sent, client.build req = .ok sent ∧ client.Sends req sent := by
  rw [build_eq h, finish, outgoingHeaders_eq laws h]
  simp only [if_pos huri]
  have haccept : req.headers.get .ACCEPT = none :=
    HeaderMap.get_of_fresh fun hmem => (h.own _ hmem).1 rfl
  have hcontent : req.headers.get .CONTENT_TYPE = none :=
    HeaderMap.get_of_fresh fun hmem => (h.own _ hmem).2 rfl
  have hget : ∀ n, HeaderMap.get n (sentHeaders req)
      = ((HeaderMap.get n (ownEntry .ACCEPT req.acceptHeader)).or (req.headers.get n)).or
          (HeaderMap.get n (ownEntry .CONTENT_TYPE (req.contentType.map Mime.source))) := by
    intro n
    rw [sentHeaders, HeaderMap.get_append_or, HeaderMap.get_append_or]
  refine ⟨_, rfl, rfl, rfl, ?_, ?_, fun n hna hnc => ?_, rfl⟩
  · show HeaderMap.get .ACCEPT (sentHeaders req) = _
    rw [hget, get_ownEntry, get_ownEntry_of_ne (by decide), haccept, Option.or_none, Option.or_none]
  · show HeaderMap.get .CONTENT_TYPE (sentHeaders req) = _
    rw [hget, get_ownEntry, get_ownEntry_of_ne (by decide), hcontent, Option.map_map]
    rfl
  · show HeaderMap.get n (sentHeaders req) = _
    rw [hget, get_ownEntry_of_ne hna, get_ownEntry_of_ne hnc, Option.none_or, Option.or_none]

end HyperClient

/-! ### A network -/

/-- What a service does with a request. -/
abbrev Service [AppTypes] := HttpRequest → Response

section

variable [AppTypes]

omit [HttpCrate] in
/-- A request as it is delivered: what was sent is there, in a body of the same bytes. -/
structure Delivers (base : BaseUrl) (added : List HeaderName) (sent : HyperRequest)
    (got : HttpRequest) : Prop where
  method : got.method = sent.method
  path : ∀ target, sent.url = base.urlFor target → got.path = Uri.path (base.path ++ target)
  query : ∀ target, sent.url = base.urlFor target → got.query = Uri.query (base.path ++ target)
  header : ∀ n, n ∉ added ∨ (sent.headers.get n).isSome → got.headers.get n = sent.headers.get n
  body : ∀ bytes, sent.body.Holds bytes →
    receivedBytes got.body = bytes ∧ transportError got.body = none

omit [HttpCrate] [AppTypes] in
/-- A response as it comes back. -/
structure Returns (added : List HeaderName) (resp : Response) (got : StreamingResponse) : Prop where
  status : got.status = resp.status
  header : ∀ n ∉ added, got.headers.filter (·.1 = n) = resp.headers.filter (·.1 = n)
  body : ∀ bytes, resp.body.Holds bytes →
    ∃ chunks : List Bytes, got.body = chunks.map .ok ∧ chunks.flatten = bytes

omit [HttpCrate] in
/-- The network behind a client delivers a request to a service, and brings the response back. -/
def HyperClient.Reaches (client : HyperClient) (service : Service) (added : List HeaderName)
    (sent : HyperRequest) : Prop :=
  ∃ got resp, Delivers client.base added sent got ∧ Returns added (service got) resp ∧
    client.inner sent = .ok resp

omit [HttpCrate] [AppTypes] in
/-- The network hands bodies out in pieces of at most `piece` bytes. -/
def HyperClient.Cuts (client : HyperClient) (piece : Nat) : Prop :=
  ∀ sent resp, client.inner sent = .ok resp → ∀ chunk, .ok chunk ∈ resp.body → chunk.length ≤ piece

variable [PercentEncoding]

omit [HttpCrate] in
/-- What of a client's request arrives at the root of a service. -/
structure ClientRequest.Arrives (creq : ClientRequest) (added : List HeaderName)
    (got : HttpRequest) : Prop where
  method : got.method = creq.method
  path : got.path = Uri.path creq.target
  query : got.query = Uri.query creq.target
  accept : got.headers.get .ACCEPT = creq.acceptHeader.map utf8Bytes
  contentType : got.headers.get .CONTENT_TYPE
    = creq.contentType.map fun mime => utf8Bytes mime.source
  header : ∀ n, n ≠ .ACCEPT → n ≠ .CONTENT_TYPE → n ∉ added ∨ (creq.headers.get n).isSome →
    got.headers.get n = creq.headers.get n
  body : ∀ bytes, creq.hyperBody.Holds bytes →
    receivedBytes got.body = bytes ∧ transportError got.body = none

variable [UriCrate] {client : HyperClient} {service : Service} {added : List HeaderName}
  {req : ClientRequest}

/-- **A request arrives, and the response comes back.** -/
theorem HyperClient.runStreaming_of_reaches
    (h : ∀ sent, client.build req = .ok sent → client.Reaches service added sent)
    (laws : HeaderValueLaws) (hroot : client.base.path = "")
    (hadded : .ACCEPT ∉ added ∧ .CONTENT_TYPE ∉ added) (hsend : req.Sendable)
    (huri : UriCrate.isUri (client.base.urlFor req.target) = true) :
    ∃ got resp, req.Arrives added got ∧ Returns added (service got) resp ∧
      client.runStreaming req = .ok resp := by
  obtain ⟨sent, hbuild, hsent⟩ := HyperClient.build_sends laws hsend huri
  obtain ⟨got, resp, hgot, hreturns, hinner⟩ := h sent hbuild
  have htarget : client.base.path ++ req.target = req.target := by
    rw [hroot, String.empty_append]
  refine ⟨got, resp, ⟨?_, ?_, ?_, ?_, ?_, fun n hna hnc hn => ?_, ?_⟩, hreturns, ?_⟩
  · rw [hgot.method, hsent.method]
  · rw [hgot.path _ hsent.url, htarget]
  · rw [hgot.query _ hsent.url, htarget]
  · rw [hgot.header _ (.inl hadded.1), hsent.accept]
  · rw [hgot.header _ (.inl hadded.2), hsent.contentType]
  · have hothers := hsent.others n hna hnc
    rw [hgot.header n (by rwa [hothers]), hothers]
  · rw [← hsent.body]
    exact hgot.body
  · rw [HyperClient.runStreaming, hbuild]
    show (client.inner sent).mapError ClientError.connectionError = _
    rw [hinner]
    rfl

end

/-! ### A client beside its service -/

omit [HttpCrate] in
theorem chunks_of_ofList_eq {chunks chunks' : List Bytes}
    (h : SourceStream.ofList (chunks.map (Except.ok (ε := String)))
      = SourceStream.ofList (chunks'.map .ok)) : chunks = chunks' := by
  have hmap : chunks.map (Except.ok (ε := String)) = chunks'.map .ok :=
    List.ext_getElem? fun n => congrFun h n
  exact List.map_injective_iff.mpr (fun _ _ => Except.ok.inj) hmap

namespace HyperBody

omit [HttpCrate] in
theorem Holds.unique {body : HyperBody} {bytes bytes' : Bytes} (h : body.Holds bytes)
    (h' : body.Holds bytes') : bytes = bytes' := by
  cases h with
  | full bytes =>
      cases h'
      rfl
  | stream chunks =>
      generalize hs : SourceStream.ofList (chunks.map Except.ok) = s at h'
      cases h' with
      | stream chunks' => rw [chunks_of_ofList_eq hs]

open Classical in
/-- The body in one piece. -/
noncomputable def events (body : HyperBody) : List BodyEvent :=
  if h : ∃ bytes, body.Holds bytes then [.data h.choose] else [.error "no end of the body"]

end HyperBody

namespace ResponseBody

omit [HttpCrate] in
theorem Holds.unique {body : ResponseBody} {bytes bytes' : Bytes} (h : body.Holds bytes)
    (h' : body.Holds bytes') : bytes = bytes' := by
  cases h with
  | full bytes =>
      cases h'
      rfl
  | stream chunks =>
      generalize hs : SourceStream.ofList (chunks.map Except.ok) = s at h'
      cases h' with
      | stream chunks' => rw [chunks_of_ofList_eq hs]

open Classical in
/-- The body byte by byte. -/
noncomputable def pieces (body : ResponseBody) : List (Except String Bytes) :=
  if h : ∃ bytes, body.Holds bytes then h.choose.map fun b => .ok [b]
  else [.error "no end of the body"]

end ResponseBody

section

variable [AppTypes] [PercentEncoding]

/-- A network that calls the service; `front` is a request with what the client says nothing of. -/
noncomputable def loopback (base : BaseUrl) (service : Service) (front : HttpRequest)
    (sent : HyperRequest) : Except String StreamingResponse :=
  let target := String.ofList (sent.url.toList.drop (base.urlFor "").toList.length)
  let resp := service { front with
    method := sent.method
    path := Uri.path (base.path ++ target)
    query := Uri.query (base.path ++ target)
    headers := sent.headers
    body := sent.body.events }
  .ok ⟨resp.status, resp.headers, resp.body.pieces⟩

omit [HttpCrate] [PercentEncoding] in
/-- Such a network leads to its service. -/
theorem loopback_reaches (base : BaseUrl) (service : Service) (front : HttpRequest) (maxBody : Nat)
    (added : List HeaderName) (sent : HyperRequest) :
    HyperClient.Reaches ⟨base, loopback base service front, maxBody⟩ service added sent := by
  have htarget : ∀ target, sent.url = base.urlFor target →
      String.ofList (sent.url.toList.drop (base.urlFor "").toList.length) = target := by
    intro target hurl
    have hsplit : base.urlFor target = base.urlFor "" ++ target := by
      rw [BaseUrl.urlFor, BaseUrl.urlFor, String.append_empty]
    rw [hurl, hsplit, String.toList_append, List.drop_left, String.ofList_toList]
  refine ⟨_, _, ⟨rfl, fun target hurl => ?_, fun target hurl => ?_, fun _ _ => rfl,
    fun bytes hbytes => ?_⟩, ⟨rfl, fun _ _ => rfl, fun bytes hbytes => ?_⟩, rfl⟩
  · rw [htarget target hurl]
  · rw [htarget target hurl]
  · have hall : ∃ bytes, sent.body.Holds bytes := ⟨bytes, hbytes⟩
    have hevents : sent.body.events = [.data hall.choose] := dif_pos hall
    rw [hevents, hall.choose_spec.unique hbytes]
    exact ⟨List.append_nil bytes, rfl⟩
  · have hall : ∃ bytes, ResponseBody.Holds _ bytes := ⟨bytes, hbytes⟩
    refine ⟨bytes.map ([·]), (dif_pos hall).trans ?_, List.flatMap_singleton' bytes⟩
    rw [hall.choose_spec.unique hbytes, List.map_map]
    rfl

omit [HttpCrate] [PercentEncoding] in
/-- It hands bodies out byte by byte. -/
theorem loopback_cuts (base : BaseUrl) (service : Service) (front : HttpRequest) (maxBody : Nat) :
    HyperClient.Cuts ⟨base, loopback base service front, maxBody⟩ 1 := by
  rintro sent _ ⟨⟩ chunk hchunk
  rw [ResponseBody.pieces] at hchunk
  split at hchunk
  · obtain ⟨b, -, hb⟩ := List.mem_map.mp hchunk
    obtain rfl := Except.ok.inj hb
    exact Nat.le_refl 1
  · cases List.mem_singleton.mp hchunk

end

end ServantRs
