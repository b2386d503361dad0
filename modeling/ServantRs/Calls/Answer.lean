import ServantRs.Calls.Serve
import ServantRs.Messages.UnionTrip

/-!
# Calls — answers

What a client makes of the answer to its call.

* `Terminal.ReadsBack`: a handler's value that comes back, and what it comes back as.
* `ReadsBack.decode_eq`: the client reads it from the answer.
* `Terminal.Refuses`: the statuses that are none of the endpoint's.
-/

namespace ServantRs

open MediaType

variable [HttpCrate]

/-- A response with a whole body, as the answer to a request comes back. -/
structure ClientResponse.Carries (resp : ClientResponse) (added : List HeaderName)
    (answer : Response) (bytes : Bytes) : Prop where
  status : resp.status = answer.status
  header : ∀ n ∉ added, resp.headers.filter (·.1 = n) = answer.headers.filter (·.1 = n)
  body : resp.body = bytes

/-- **An answer with a body that the client takes** is collected. -/
theorem Returns.runRequest [PercentEncoding] [UriCrate] [BodyUtilCrate] {client : HyperClient}
    {added : List HeaderName} {req : ClientRequest} {answer : Response} {got : StreamingResponse}
    (h : Returns added answer got) (hrun : client.runStreaming req = .ok got) {bytes : Bytes}
    (hbytes : answer.body.Holds bytes) (hle : bytes.length ≤ client.maxBody) :
    ∃ resp, client.runRequest req = .ok resp ∧ resp.Carries added answer bytes := by
  obtain ⟨chunks, hchunks, hflat⟩ := h.body bytes hbytes
  have hcollect : BodyUtilCrate.collect client.maxBody got.body = .ok bytes := by
    rw [hchunks, BodyUtilCrate.collect_ok _ chunks (by rwa [hflat]), hflat]
  refine ⟨⟨got.status, got.headers, bytes⟩, ?_, h.status, h.header, rfl⟩
  rw [HyperClient.runRequest, hrun]
  show ((BodyUtilCrate.collect client.maxBody got.body).mapError CollectError.toClientError
    >>= fun body => _) = _
  rw [hcollect]
  rfl

/-! ### Headers of an answer -/

variable [MimeCrate]

namespace ClientResponse.Carries

variable {resp : ClientResponse} {added : List HeaderName} {status : StatusCode}
  {mime : Option Mime} {body : ResponseBody} {extra : List (HeaderName × HeaderValue)}
  {bytes : Bytes}

omit [HttpCrate] [MimeCrate] in
theorem get_header {answer : Response} (h : resp.Carries added answer bytes) {n : HeaderName}
    (hn : n ∉ added) : resp.headers.get n = answer.headers.get n := by
  rw [HeaderMap.get_eq_head?, h.header n hn, ← HeaderMap.get_eq_head?]

/-- The content type of an answer is the one it was rendered in. -/
theorem contentType (laws : HeaderValueLaws) (hadded : .CONTENT_TYPE ∉ added)
    (h : resp.Carries added (buildResponse (status, mime, body, extra)) bytes)
    (hmime : ∀ m ∈ mime, m.Carried) (hnone : mime = none → extra = []) :
    (resp.headers.get .CONTENT_TYPE = none ∧ mime = none) ∨
      ∃ value m, resp.headers.get .CONTENT_TYPE = some value ∧ mime = some m ∧
        parseContentType value = some m := by
  rw [h.get_header hadded]
  cases mime with
  | none =>
      rw [hnone rfl]
      exact .inl ⟨rfl, rfl⟩
  | some m =>
      obtain ⟨hfrom, hto⟩ := laws.of_isHeaderText (hmime m rfl).text
      refine .inr ⟨utf8Bytes m.source, m, ?_, rfl, ?_⟩
      · simp only [buildResponse, Option.bind_some, hfrom]
        rw [HeaderMap.get_eq_head?, HeaderMap.filter_foldl_append]
        rfl
      · rw [parseContentType, hto, Option.bind_some, (hmime m rfl).parsed]

omit [MimeCrate] in
/-- Headers of the handler's own that the network does not add come back. -/
theorem among (h : resp.Carries added (buildResponse (status, mime, body, extra)) bytes)
    (hextra : ∀ e ∈ extra, e.1 ∉ added) : HeaderMap.Among extra resp.headers := by
  intro n
  by_cases hn : n ∈ added
  · have hnone : extra.filter (·.1 = n) = [] := by
      refine List.filter_eq_nil_iff.mpr fun e he heq => hextra e he ?_
      rwa [of_decide_eq_true heq]
    rw [hnone]
    exact List.nil_sublist _
  · rw [h.header n hn]
    exact HeaderMap.among_buildResponse status mime body extra n

end ClientResponse.Carries

/-! ### Values -/

/-- **A handler's value that comes back**: every codec of the endpoint writes it and reads it again,
no codec reads for another, and no header of it is one the network adds.  The last argument says
what it comes back as. -/
inductive Terminal.ReadsBack (added : List HeaderName) :
    (t : Terminal) → t.Decoder → t.Output → (t.Output → Prop) → Prop
  | verb (M : Method) (STATUS : StatusCode) {A : Type} {ctypes : List (Codec A)} {value : A}
      (hseparate : Codec.Separate ctypes)
      (hvalue : ∀ c ∈ ctypes, c.RoundTrips (fun _ => True) value) :
      ReadsBack added (.verb M STATUS A ctypes) () value (· = value)
  | verbWithHeaders (M : Method) (STATUS : StatusCode) {A : Type} {ctypes : List (Codec A)}
      {arm : Headers A} (hseparate : Codec.Separate ctypes)
      (hvalue : ∀ c ∈ ctypes, c.RoundTrips (fun _ => True) arm.value)
      (hheaders : ∀ e ∈ arm.headers, e.1 ∉ added) :
      ReadsBack added (.verbWithHeaders M STATUS A ctypes) () arm
        fun arm' => arm'.value = arm.value ∧ HeaderMap.Among arm.headers arm'.headers
  | uverb (M : Method) {CTypes : List MediaType} {U : Union CTypes} {v : U.Value}
      (hdistinct : Distinct CTypes) (hplain : U.NonStreaming) (hstatuses : U.statuses.Nodup)
      (hback : U.ReadsBack v) {status : StatusCode} {mime : Option Mime} {body : ArmBody}
      {headers : List (HeaderName × HeaderValue)}
      (hrender : U.renderUnion (Terminal.uverb M CTypes U.Value U.data).ownAccept v
        = .ok (status, mime, body, headers))
      (hmime : ∀ m ∈ mime, m.Carried) (hheaders : ∀ e ∈ headers, e.1 ∉ added) :
      ReadsBack added (.uverb M CTypes U.Value U.data) U.decoder v (U.Same v)
  | noContentVerb (M : Method) : ReadsBack added (.noContentVerb M) () () fun _ => True

section

variable {T : Type} {codecs : List (Codec T)} {value : T} {accept : Option String} {i : Nat}

omit [HttpCrate] [MimeCrate] in
/-- A value that every codec writes is rendered in the media type that is negotiated. -/
theorem exists_renderArm_of_roundTrips
    (hi : negotiateMediaIndex accept (Codec.allMediaTypes codecs) = some i)
    (hvalue : ∀ c ∈ codecs, c.RoundTrips (fun _ => True) value) :
    ∃ m bytes, m ∈ Codec.allMediaTypes codecs ∧ renderArm codecs value accept = .ok (some m, bytes)
      ∧ ∀ status, renderBody codecs accept value status = (status, some m, .full bytes, []) := by
  obtain ⟨m, hm⟩ : ∃ m, (Codec.allMediaTypes codecs)[i]? = some m :=
    ⟨_, List.getElem?_eq_getElem (negotiateMediaIndex_lt hi)⟩
  obtain ⟨before, c, after, j, rfl, hj, rfl⟩ := Codec.exists_owner hm
  obtain ⟨bytes, hbytes, -, -⟩ := hvalue c (by simp)
  have hwrites : Codec.renderIndex (before ++ c :: after) value
      ((Codec.allMediaTypes before).length + j) = .ok bytes := by
    rw [Codec.renderIndex_owner before after value (List.getElem?_eq_some_iff.mp hj).1, hbytes]
  refine ⟨m, bytes, List.mem_of_getElem? hm, renderArm_eq_ok_iff.mpr ⟨_, hi, hwrites, hm⟩,
    fun status => ?_⟩
  rw [renderBody, hi]
  simp only [hwrites, hm]

omit [HttpCrate] [MimeCrate] in
theorem Codec.RoundTrips.readsBack {c : Codec T} {allowed : Bytes → Prop}
    (h : c.RoundTrips allowed value) : c.ReadsBack value := by
  obtain ⟨rendered, hrender, -, hread⟩ := h
  intro bytes hbytes
  rw [hrender] at hbytes
  obtain rfl := Except.ok.inj hbytes
  exact hread

end

omit [HttpCrate] [MimeCrate] in
/-- An arm without a content type has no headers either. -/
theorem Union.headers_of_no_mime {CTypes : List MediaType} {accept : Option String}
    {status : StatusCode} {body : ArmBody} {headers : List (HeaderName × HeaderValue)} :
    ∀ (U : Union CTypes) (v : U.Value),
      U.renderUnion accept v = .ok (status, none, body, headers) → headers = []
  | withStatus .., _, h | withFixedStatus .., _, h => by
      obtain ⟨⟨_, _⟩, -, h⟩ := of_bind_eq_ok h
      exact (congrArg (·.2.2.2) (Except.ok.inj h)).symm
  | withStatusHeaders S T C, arm, h => by
      obtain ⟨⟨_, _⟩, harm, h⟩ := of_bind_eq_ok h
      cases h
      -- what is negotiated is a media type
      obtain ⟨i, hi, -, hnone⟩ := renderArm_eq_ok_iff.mp harm
      exact absurd (negotiateMediaIndex_lt hi) (Nat.not_lt.mpr (List.getElem?_eq_none_iff.mp hnone))
  | withStatusNoBody _, _, h => (congrArg (·.2.2.2) (Except.ok.inj h)).symm
  | withStreamingStatus .., _, h => by cases h
  | union2 A _, .V0 a, h | union3 A _ _, .V0 a, h | union4 A _ _ _, .V0 a, h
  | union2 _ A, .V1 a, h | union3 _ A _, .V1 a, h | union4 _ A _ _, .V1 a, h
  | union3 _ _ A, .V2 a, h | union4 _ _ A _, .V2 a, h | union4 _ _ _ A, .V3 a, h =>
      headers_of_no_mime A a h

section

variable {added : List HeaderName} {resp : ClientResponse} {bytes : Bytes}

/-- A value rendered over a list of content types is read by the client. -/
theorem ClientResponse.Carries.decodeBody {A : Type} {ctypes : List (Codec A)} {value : A}
    {accept : Option String} {status : StatusCode} {m : Mime}
    {extra : List (HeaderName × HeaderValue)}
    (h : resp.Carries added (buildResponse (status, some m, .full bytes, extra)) bytes)
    (laws : HeaderValueLaws) (hadded : .CONTENT_TYPE ∉ added) (hm : m.Carried)
    (hseparate : Codec.Separate ctypes) (hvalue : ∀ c ∈ ctypes, c.ReadsBack value)
    (harm : renderArm ctypes value accept = .ok (some m, bytes)) :
    ServantRs.decodeBody ctypes resp = .ok value := by
  have hread : decodeArm ctypes (some m) bytes = .ok value :=
    decodeArm_of_renderArm hseparate hvalue harm
  obtain ⟨-, hnone⟩ | ⟨v, m', hget, hm', hparse⟩ :=
    h.contentType laws hadded (by rintro _ ⟨⟩; exact hm) nofun
  · cases hnone
  · obtain rfl := Option.some.inj hm'
    rw [decodeArm, Option.getD_some] at hread
    simp only [ServantRs.decodeBody, hget, hparse, h.body]
    cases hdecoded : Codec.unrender ctypes m bytes with
    | none =>
        rw [hdecoded] at hread
        cases hread
    | some decoded =>
        rw [hdecoded] at hread
        obtain rfl : decoded = .ok value := hread
        rfl

omit [HttpCrate] [MimeCrate] in
theorem render_verbWithHeaders {M : Method} {STATUS : StatusCode} {A : Type}
    {ctypes : List (Codec A)} {arm : Headers A} {accept : Option String} {status : StatusCode}
    {ct : Option Mime} {body : ResponseBody} {extra : List (HeaderName × HeaderValue)}
    (h : renderBody ctypes accept arm.value STATUS = (status, ct, body, extra)) :
    (Terminal.verbWithHeaders M STATUS A ctypes).render accept arm
      = (status, ct, body, arm.headers) := by
  simp only [Terminal.render, h]

section

variable {M : Method} {CTypes : List MediaType} {Resp : Type} {data : UnionData Resp}
  {union : UnionDecode Resp}

theorem decode_uverb_ok {value : Resp} (h : union.decodeUnion resp.status resp.headers
    ((resp.headers.get .CONTENT_TYPE).bind parseContentType) resp.body = some (.ok value)) :
    (Terminal.uverb M CTypes Resp data).decode union resp = .ok value := by
  simp only [Terminal.decode, h]

theorem decode_uverb_none (h : union.decodeUnion resp.status resp.headers
    ((resp.headers.get .CONTENT_TYPE).bind parseContentType) resp.body = none) :
    (Terminal.uverb M CTypes Resp data).decode union resp = .error (.failureResponse resp) := by
  simp only [Terminal.decode, h]

end

/-- **The client reads the handler's value** from the answer. -/
theorem Terminal.ReadsBack.decode_eq {t : Terminal} {d : t.Decoder} {out : t.Output}
    {same : t.Output → Prop} (h : t.ReadsBack added d out same) (laws : HeaderValueLaws)
    (hadded : .CONTENT_TYPE ∉ added) (hmedia : ∀ m ∈ t.mediaTypes, m.Carried)
    (haccepts : t.AcceptsOwn) :
    ∃ bytes, (t.render t.ownAccept out).2.2.1.Holds bytes ∧ ∀ resp : ClientResponse,
      resp.Carries added (buildResponse (t.render t.ownAccept out)) bytes →
        ∃ out', t.decode d resp = .ok out' ∧ same out' := by
  have hi : (∀ M, t ≠ .noContentVerb M) →
      ∃ i, negotiateMediaIndex t.ownAccept t.mediaTypes = some i := by
    rintro hne
    rcases haccepts with ⟨M, hM⟩ | hi
    · exact absurd hM (hne M)
    · exact hi
  cases h with
  | noContentVerb M =>
      exact ⟨[], .full [], fun resp hcarries =>
        ⟨(), if_neg (not_not.mpr hcarries.status), trivial⟩⟩
  | @verb M STATUS A ctypes value hseparate hvalue =>
      obtain ⟨i, hi⟩ := hi nofun
      obtain ⟨m, bytes, hm, harm, hrender⟩ := exists_renderArm_of_roundTrips hi hvalue
      have hrender : Terminal.render (.verb M STATUS A ctypes)
          (Terminal.ownAccept (.verb M STATUS A ctypes)) value = (STATUS, some m, .full bytes, []) :=
        hrender STATUS
      rw [hrender]
      refine ⟨bytes, .full bytes, fun resp hcarries => ⟨value, ?_, rfl⟩⟩
      exact (if_neg (not_not.mpr hcarries.status)).trans (hcarries.decodeBody laws hadded
        (hmedia m hm) hseparate (fun c hc => (hvalue c hc).readsBack) harm)
  | @verbWithHeaders M STATUS A ctypes arm hseparate hvalue hheaders =>
      obtain ⟨i, hi⟩ := hi nofun
      obtain ⟨m, bytes, hm, harm, hrender⟩ := exists_renderArm_of_roundTrips hi hvalue
      have hrender : Terminal.render (.verbWithHeaders M STATUS A ctypes)
          (Terminal.ownAccept (.verbWithHeaders M STATUS A ctypes)) arm
            = (STATUS, some m, .full bytes, arm.headers) :=
        render_verbWithHeaders (hrender STATUS)
      rw [hrender]
      refine ⟨bytes, .full bytes, fun resp hcarries => ⟨⟨arm.value, resp.headers⟩,
        (if_neg (not_not.mpr hcarries.status)).trans ?_, rfl, hcarries.among hheaders⟩⟩
      rw [hcarries.decodeBody laws hadded (hmedia m hm) hseparate
        (fun c hc => (hvalue c hc).readsBack) harm]
      rfl
  | @uverb M CTypes U v hdistinct hplain hstatuses hback status mime body headers hrender hmime
      hheaders =>
      have hrendered : Terminal.render (.uverb M CTypes U.Value U.data)
          (Terminal.ownAccept (.uverb M CTypes U.Value U.data)) v
            = (status, mime, body.toResponseBody, headers) := render_uverb_ok hrender
      obtain ⟨bytes, -, rfl, -⟩ := U.arrives_of_renderUnion hdistinct (fun n => .refl _) v hplain
        hstatuses hback hrender
      rw [hrendered]
      refine ⟨bytes, .full bytes, fun resp hcarries => ?_⟩
      obtain ⟨_, v', ⟨⟩, hdecode, hsame⟩ := U.arrives_of_renderUnion hdistinct
        (hcarries.among hheaders) v hplain hstatuses hback hrender
      have hct : (resp.headers.get .CONTENT_TYPE).bind parseContentType = mime := by
        obtain ⟨hget, rfl⟩ | ⟨value, m, hget, rfl, hparse⟩ :=
          hcarries.contentType laws hadded hmime fun hnone => by
            subst hnone
            exact U.headers_of_no_mime v hrender
        · rw [hget]
          rfl
        · rw [hget, Option.bind_some, hparse]
      have hstatus : resp.status = status := hcarries.status
      refine ⟨v', decode_uverb_ok ?_, hsame⟩
      rw [hct, hstatus, hcarries.body]
      exact hdecode

/-! ### Errors -/

/-- The statuses that are none of the endpoint's. -/
def Terminal.Refuses : (t : Terminal) → t.Decoder → StatusCode → Prop
  | verb _ STATUS .., _, status | verbWithHeaders _ STATUS .., _, status => status ≠ STATUS
  | uverb .., union, status => ∀ headers ct body, union.decodeUnion status headers ct body = none
  | streamVerb .., _, _     => False
  | noContentVerb _, _, status => status ≠ .NO_CONTENT

omit [HttpCrate] [MimeCrate] in
/-- A union refuses every status that no arm has. -/
theorem Union.refuses {CTypes : List MediaType} {U : Union CTypes} {status : StatusCode}
    (h : status ∉ U.statuses) (M : Method) :
    (Terminal.uverb M CTypes U.Value U.data).Refuses U.decoder status :=
  fun _ _ _ => decodeUnion_eq_none h

/-- **A response of another status is handed out as it is.** -/
theorem Terminal.Refuses.decode_eq {t : Terminal} {d : t.Decoder}
    (h : t.Refuses d resp.status) : t.decode d resp = .error (.failureResponse resp) := by
  cases t with
  | verb | verbWithHeaders | noContentVerb => exact if_pos h
  | uverb M CTypes Resp union => exact decode_uverb_none (h _ _ _)
  | streamVerb => exact h.elim

end

end ServantRs
