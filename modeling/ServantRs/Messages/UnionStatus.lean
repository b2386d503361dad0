import ServantRs.Core.Union
import ServantRs.Server.Handler

/-!
# Messages — the status of a union response

The `Accept` check asks whether some media type of the endpoint is acceptable.  An arm that is
rendered over the endpoint's content types asks the same again, and gets the same answer; a fixed
arm asks for its own marker alone, which may be refused after the check has passed.

* `Union.renderUnion_of_fixedAccepted`, `Union.renderUnion_of_not_fixedAccepted`: the two outcomes.
* `uverb_render_own_status`: the response has the arm's own status, unless it is a fixed arm that
  is refused.
-/

namespace ServantRs

open MediaType

theorem CodecList.allMediaTypes_codecs {CTypes : List MediaType} {T : Type}
    (C : CodecList CTypes T) : Codec.allMediaTypes C.codecs = allMediaTypes CTypes := by
  rw [Codec.allMediaTypes, C.markers]

section

variable {T : Type} {value : T} {accept : Option String} {mime : Option Mime} {bytes : Bytes}

/-- What is written comes of a negotiated media type. -/
theorem renderArm_eq_ok_iff {codecs : List (Codec T)} :
    renderArm codecs value accept = .ok (mime, bytes)
      ↔ ∃ i, negotiateMediaIndex accept (Codec.allMediaTypes codecs) = some i ∧
        Codec.renderIndex codecs value i = .ok bytes ∧
        (Codec.allMediaTypes codecs)[i]? = mime := by
  rw [renderArm]
  cases negotiateMediaIndex accept (Codec.allMediaTypes codecs) with
  | none => simp
  | some i =>
      cases hbytes : Codec.renderIndex codecs value i with
      | error e => simp [hbytes, Except.map]
      | ok written => simp [hbytes, Except.map, and_comm]

theorem renderFixedArm_of_refused {codec : Codec T}
    (h : negotiateMediaIndex accept codec.mediaTypes = none) :
    renderFixedArm codec value accept = .error "not acceptable" := by
  rw [renderFixedArm, h]

theorem renderFixedArm_of_accepted {codec : Codec T} {i : Nat}
    (hi : negotiateMediaIndex accept codec.mediaTypes = some i)
    (hbytes : codec.mimeRender value = .ok bytes) :
    renderFixedArm codec value accept = .ok (codec.mediaTypes[i]?, bytes) := by
  rw [renderFixedArm, hi, hbytes]
  rfl

/-- A fixed arm is rendered over the list of its one marker. -/
theorem renderFixedArm_eq_renderArm (codec : Codec T) :
    renderFixedArm codec value accept = renderArm [codec] value accept := by
  have hmedia : Codec.allMediaTypes [codec] = codec.mediaTypes := List.append_nil _
  rw [renderFixedArm, renderArm, hmedia]
  cases hi : negotiateMediaIndex accept codec.mediaTypes with
  | none => rfl
  | some i =>
      have hown : Codec.renderIndex [codec] value i = codec.mimeRender value :=
        if_pos (negotiateMediaIndex_lt hi)
      dsimp only
      rw [hown]

end

namespace Union

variable {CTypes : List MediaType}

/-- The status of the arm that is returned. -/
def ownStatus : (U : Union CTypes) → U.Value → StatusCode
  | withStatus S .., _ | withStatusNoBody S, _ | withFixedStatus S .., _
  | withStreamingStatus S .., _ | withStatusHeaders S .., _ => S
  | union2 A _, .V0 a | union3 A _ _, .V0 a | union4 A _ _ _, .V0 a => A.ownStatus a
  | union2 _ B, .V1 b | union3 _ B _, .V1 b | union4 _ B _ _, .V1 b => B.ownStatus b
  | union3 _ _ C, .V2 c | union4 _ _ C _, .V2 c => C.ownStatus c
  | union4 _ _ _ D, .V3 d => D.ownStatus d

/-- The codec that is to write the value of the arm does write it. -/
def Encodes (accept : Option String) : (U : Union CTypes) → U.Value → Prop
  | withStatus _ _ C, value =>
      ∀ i, negotiateMediaIndex accept (allMediaTypes CTypes) = some i →
        ∃ bytes, Codec.renderIndex C.codecs value i = .ok bytes
  | withStatusHeaders _ _ C, arm =>
      ∀ i, negotiateMediaIndex accept (allMediaTypes CTypes) = some i →
        ∃ bytes, Codec.renderIndex C.codecs arm.value i = .ok bytes
  | withFixedStatus _ _ codec, value => ∃ bytes, codec.mimeRender value = .ok bytes
  | withStatusNoBody _, _ | withStreamingStatus .., _ => True
  | union2 A _, .V0 a | union3 A _ _, .V0 a | union4 A _ _ _, .V0 a => A.Encodes accept a
  | union2 _ B, .V1 b | union3 _ B _, .V1 b | union4 _ B _ _, .V1 b => B.Encodes accept b
  | union3 _ _ C, .V2 c | union4 _ _ C _, .V2 c => C.Encodes accept c
  | union4 _ _ _ D, .V3 d => D.Encodes accept d

/-- A fixed arm that is returned has a media type the header accepts. -/
def FixedAccepted (accept : Option String) : (U : Union CTypes) → U.Value → Prop
  | withFixedStatus _ _ codec, _ => ∃ i, negotiateMediaIndex accept codec.mediaTypes = some i
  | withStatus .., _ | withStatusHeaders .., _ | withStatusNoBody _, _
  | withStreamingStatus .., _ => True
  | union2 A _, .V0 a | union3 A _ _, .V0 a | union4 A _ _ _, .V0 a => A.FixedAccepted accept a
  | union2 _ B, .V1 b | union3 _ B _, .V1 b | union4 _ B _ _, .V1 b => B.FixedAccepted accept b
  | union3 _ _ C, .V2 c | union4 _ _ C _, .V2 c => C.FixedAccepted accept c
  | union4 _ _ _ D, .V3 d => D.FixedAccepted accept d

/-- A value over the endpoint's content types is written when one of them is acceptable. -/
theorem exists_renderArm {T : Type} (C : CodecList CTypes T) {value : T} {accept : Option String}
    {i : Nat} (hi : negotiateMediaIndex accept (allMediaTypes CTypes) = some i)
    (hvalue : ∀ i, negotiateMediaIndex accept (allMediaTypes CTypes) = some i →
      ∃ bytes, Codec.renderIndex C.codecs value i = .ok bytes) :
    ∃ mime bytes, renderArm C.codecs value accept = .ok (mime, bytes) := by
  obtain ⟨bytes, hbytes⟩ := hvalue i hi
  rw [← C.allMediaTypes_codecs] at hi
  exact ⟨_, bytes, renderArm_eq_ok_iff.mpr ⟨i, hi, hbytes, rfl⟩⟩

/-- **An arm that is not refused has its own status.** -/
theorem renderUnion_of_fixedAccepted {accept : Option String} {i : Nat}
    (hi : negotiateMediaIndex accept (allMediaTypes CTypes) = some i) :
    ∀ (U : Union CTypes) (v : U.Value), U.Encodes accept v → U.FixedAccepted accept v →
      ∃ mime body headers, U.renderUnion accept v = .ok (U.ownStatus v, mime, body, headers)
  | withStatus S T C, value, hencodes, _ => by
      obtain ⟨mime, bytes, harm⟩ := exists_renderArm C hi hencodes
      exact ⟨mime, .full bytes, [], by rw [renderUnion, harm]; rfl⟩
  | withStatusHeaders S T C, arm, hencodes, _ => by
      obtain ⟨mime, bytes, harm⟩ := exists_renderArm C hi hencodes
      exact ⟨mime, .full bytes, arm.headers, by rw [renderUnion, harm]; rfl⟩
  | withFixedStatus S T codec, value, ⟨bytes, hbytes⟩, ⟨j, hj⟩ => by
      have harm := renderFixedArm_of_accepted hj hbytes
      exact ⟨_, .full bytes, [], by rw [renderUnion, harm]; rfl⟩
  | withStatusNoBody S, _, _, _ => ⟨none, .full [], [], rfl⟩
  | withStreamingStatus .., _, _, _ => ⟨_, _, _, rfl⟩
  | union2 A _, .V0 a, hencodes, hfixed | union3 A _ _, .V0 a, hencodes, hfixed
  | union4 A _ _ _, .V0 a, hencodes, hfixed => renderUnion_of_fixedAccepted hi A a hencodes hfixed
  | union2 _ B, .V1 b, hencodes, hfixed | union3 _ B _, .V1 b, hencodes, hfixed
  | union4 _ B _ _, .V1 b, hencodes, hfixed => renderUnion_of_fixedAccepted hi B b hencodes hfixed
  | union3 _ _ C, .V2 c, hencodes, hfixed | union4 _ _ C _, .V2 c, hencodes, hfixed =>
      renderUnion_of_fixedAccepted hi C c hencodes hfixed
  | union4 _ _ _ D, .V3 d, hencodes, hfixed => renderUnion_of_fixedAccepted hi D d hencodes hfixed

/-- **A fixed arm that is refused is an error.** -/
theorem renderUnion_of_not_fixedAccepted {accept : Option String} :
    ∀ (U : Union CTypes) (v : U.Value), ¬ U.FixedAccepted accept v →
      U.renderUnion accept v = .error "not acceptable"
  | withFixedStatus S T codec, value, hfixed => by
      have hnone : negotiateMediaIndex accept codec.mediaTypes = none :=
        Option.eq_none_iff_forall_ne_some.mpr fun j hj => hfixed ⟨j, hj⟩
      have harm : renderFixedArm codec value accept = .error "not acceptable" :=
        renderFixedArm_of_refused hnone
      rw [renderUnion, harm]
      rfl
  | withStatus .., _, hfixed | withStatusHeaders .., _, hfixed | withStatusNoBody _, _, hfixed
  | withStreamingStatus .., _, hfixed => absurd trivial hfixed
  | union2 A _, .V0 a, hfixed | union3 A _ _, .V0 a, hfixed | union4 A _ _ _, .V0 a, hfixed =>
      renderUnion_of_not_fixedAccepted A a hfixed
  | union2 _ B, .V1 b, hfixed | union3 _ B _, .V1 b, hfixed | union4 _ B _ _, .V1 b, hfixed =>
      renderUnion_of_not_fixedAccepted B b hfixed
  | union3 _ _ C, .V2 c, hfixed | union4 _ _ C _, .V2 c, hfixed =>
      renderUnion_of_not_fixedAccepted C c hfixed
  | union4 _ _ _ D, .V3 d, hfixed => renderUnion_of_not_fixedAccepted D d hfixed

end Union

/-! ### Behind the `Accept` check -/

/-- The response body of an arm. -/
def ArmBody.toResponseBody : ArmBody → ResponseBody
  | full bytes    => .full bytes
  | stream chunks => .stream chunks

variable {CTypes : List MediaType}

section

variable {M : Method} {Resp : Type} {union : UnionData Resp} {v : Resp} {accept : Option String}

theorem render_uverb_ok {status : StatusCode} {mime : Option Mime} {body : ArmBody}
    {headers : List (HeaderName × HeaderValue)}
    (h : union.renderUnion accept v = .ok (status, mime, body, headers)) :
    (Terminal.uverb M CTypes Resp union).render accept v
      = (status, mime, body.toResponseBody, headers) := by
  cases body <;> simp only [Terminal.render, h, ArmBody.toResponseBody]

theorem render_uverb_error {message : String} (h : union.renderUnion accept v = .error message) :
    (Terminal.uverb M CTypes Resp union).render accept v = serializationError := by
  simp only [Terminal.render, h]

end

section

variable [AppTypes]

/-- **The status of a union response**: behind the `Accept` check a response whose codec writes has
the status of its arm, unless the arm is a fixed one and the header accepts no media type of its
marker; then, and only then, it is the internal error. -/
theorem uverb_render_own_status {c : Chain} {M : Method} {U : Union CTypes}
    (ht : c.terminal = .uverb M CTypes U.Value U.data) {accept : Option String}
    (haccept : c.acceptCheck accept = .route ()) {v : U.Value} (hv : U.Encodes accept v) :
    (U.FixedAccepted accept v → ∃ mime body headers,
      U.renderUnion accept v = .ok (U.ownStatus v, mime, body, headers) ∧
      (Terminal.uverb M CTypes U.Value U.data).render accept v
        = (U.ownStatus v, mime, body.toResponseBody, headers)) ∧
    (¬ U.FixedAccepted accept v →
      (Terminal.uverb M CTypes U.Value U.data).render accept v = serializationError) := by
  constructor
  · intro hfixed
    have hcontent : ∀ M', c.terminal ≠ .noContentVerb M' := fun M' h => by
      rw [ht] at h
      cases h
    obtain ⟨i, hi⟩ := (Chain.acceptCheck_eq_route_iff hcontent).mp haccept
    rw [ht] at hi
    obtain ⟨mime, body, headers, hrender⟩ := Union.renderUnion_of_fixedAccepted hi U v hv hfixed
    exact ⟨mime, body, headers, hrender, render_uverb_ok hrender⟩
  · intro hfixed
    exact render_uverb_error (Union.renderUnion_of_not_fixedAccepted U v hfixed)

end

/-! ### A queue -/

section

attribute [local instance] AppTypes.reference

/-- A job is queued, which is told in plain text, or there is nothing to do. -/
def queueUnion : Union [.Json, .PlainText] :=
  .union2 (.withFixedStatus ⟨202, by decide⟩ String .plainText) (.withStatusNoBody .NO_CONTENT)

def queueChain : Chain := .verb (.uverb .POST [.Json, .PlainText] queueUnion.Value queueUnion.data)

theorem uverb_render_own_status_queued :
    ∃ mime body headers,
      queueUnion.renderUnion (some "text/*") (.V0 "queued")
        = .ok (⟨202, by decide⟩, mime, body, headers) ∧
      queueChain.terminal.render (some "text/*") (.V0 "queued")
        = (⟨202, by decide⟩, mime, body.toResponseBody, headers) := by
  have haccept : queueChain.acceptCheck (some "text/*") = .route () := rfl
  have hv : queueUnion.Encodes (some "text/*") (.V0 "queued") := ⟨_, rfl⟩
  exact (uverb_render_own_status (c := queueChain) rfl haccept hv).1 ⟨0, rfl⟩

/-- A client that asks for JSON passes the check, for JSON is in the list; the queued arm is plain
text, and what the client is answered is the internal error. -/
theorem queued_refused :
    queueChain.acceptCheck (some "application/json") = .route () ∧
      Codec.plainText.mediaTypes ⊆ allMediaTypes [.Json, .PlainText] ∧
      queueUnion.Encodes (some "application/json") (.V0 "queued") ∧
      (queueUnion.ownStatus (.V0 "queued")).code = 202 ∧
      queueChain.terminal.render (some "application/json") (.V0 "queued") = serializationError :=
  ⟨rfl, by decide, ⟨_, rfl⟩, rfl, rfl⟩

end

end ServantRs
