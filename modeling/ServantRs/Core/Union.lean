import ServantRs.Core.Api

/-!
# Core — union responses

A handler of a union endpoint returns one arm of several, each with its own status.  An arm is
rendered over the endpoint's content types, through one marker of its own, as a stream, or without
a body (`Union.renderUnion`).  The client takes the first arm of the response's status
(`Union.decodeUnion`).

The markers of the endpoint are a parameter; an arm over them has a codec for each (`CodecList`).
-/

namespace ServantRs

/-- A codec for each marker of a content-type list. -/
structure CodecList (CTypes : List MediaType) (T : Type) where
  codecs : List (Codec T)
  markers : codecs.map Codec.toMediaType = CTypes

inductive Union2 (A B : Type) where
  | V0 (a : A)
  | V1 (b : B)
deriving DecidableEq

inductive Union3 (A B C : Type) where
  | V0 (a : A)
  | V1 (b : B)
  | V2 (c : C)
deriving DecidableEq

inductive Union4 (A B C D : Type) where
  | V0 (a : A)
  | V1 (b : B)
  | V2 (c : C)
  | V3 (d : D)
deriving DecidableEq

/-- An arm, or a union of arms and unions, over the content types of an endpoint. -/
inductive Union (CTypes : List MediaType) : Type 1 where
  | withStatus (S : StatusCode) (T : Type) (codecs : CodecList CTypes T)
  | withStatusNoBody (S : StatusCode)
  | withFixedStatus (S : StatusCode) (T : Type) (codec : Codec T)
  | withStreamingStatus (S : StatusCode) (framing : Framing) (T : Type) (codec : Codec T)
  | withStatusHeaders (S : StatusCode) (T : Type) (codecs : CodecList CTypes T)
  | union2 (A B : Union CTypes)
  | union3 (A B C : Union CTypes)
  | union4 (A B C D : Union CTypes)

/-- What an arm renders to: status, content type, body and extra headers. -/
abbrev ArmResponse := StatusCode × Option Mime × ArmBody × List (HeaderName × HeaderValue)

/-! ### Rendering -/

/-- A value in the media type negotiated for it. -/
def renderArm {T : Type} (codecs : List (Codec T)) (value : T) (accept : Option String) :
    Except String (Option Mime × Bytes) :=
  match negotiateMediaIndex accept (Codec.allMediaTypes codecs) with
  | none => .error "not acceptable"
  | some idx => (Codec.renderIndex codecs value idx).map ((Codec.allMediaTypes codecs)[idx]?, ·)

/-- A value through one marker, in the media type negotiated among the marker's. -/
def renderFixedArm {T : Type} (codec : Codec T) (value : T) (accept : Option String) :
    Except String (Option Mime × Bytes) :=
  match negotiateMediaIndex accept codec.mediaTypes with
  | none => .error "not acceptable"
  | some index => (codec.mimeRender value).map (codec.mediaTypes[index]?, ·)

/-! ### Decoding -/

def unsupportedContentType (ct : Mime) : String := "unsupported content type: " ++ ct.source

def decodeArm {T : Type} (codecs : List (Codec T)) (ct : Option Mime) (body : Bytes) :
    Except String T :=
  let ct := ct.getD .APPLICATION_OCTET_STREAM
  match Codec.unrender codecs ct body with
  | some decoded => decoded
  | none         => .error (unsupportedContentType ct)

def ensureFixedMedia (marker : MediaType) (ct : Option Mime) : Except String Mime :=
  let ct := ct.getD .APPLICATION_OCTET_STREAM
  if marker.mediaTypes.any (mediaTypeMatches · ct) then .ok ct
  else .error (unsupportedContentType ct)

def decodeFixedArm {T : Type} (codec : Codec T) (ct : Option Mime) (body : Bytes) :
    Except String T := do
  let _ ← ensureFixedMedia codec.toMediaType ct
  codec.mimeUnrender body

/-- The frames of a buffer, decoded, and what no frame is left in; at most `n` are taken. -/
def deframeAll {T : Type} (framing : Framing) (codec : Codec T) (eof : Bool) : Nat → Bytes →
    Except String (List T × Bytes)
  | 0, buf => .ok ([], buf)
  | n + 1, buf =>
    match framing.deframe buf eof with
    | (none, buf) => .ok ([], buf)
    | (some frame, buf) => do
      let item ← codec.mimeUnrender frame
      let (items, buf) ← deframeAll framing codec eof n buf
      pure (item :: items, buf)

/-- A whole body as a stream.  A frame takes a byte at least, so there are no more frames than
bytes. -/
def decodeStreamArm {T : Type} (framing : Framing) (codec : Codec T) (ct : Option Mime)
    (body : Bytes) : Except String (SourceStream T) := do
  let (items, buf) ← deframeAll framing codec false (body.length + 1) body
  let (items', buf) ← deframeAll framing codec true (buf.length + 1) buf
  if buf ≠ [] then .error "incomplete streaming response frame"
  let _ ← ensureFixedMedia codec.toMediaType ct
  pure (.ofList (items ++ items'))

/-- What an arm decodes, when the response has its status. -/
def decodeAt {V : Type} (S status : StatusCode) (decoded : Except String V) :
    Option (Except String V) :=
  if status ≠ S then none else some decoded

/-- The first arm that has the response's status. -/
def Union2.decode {A B : Type} (a : Option (Except String A)) (b : Option (Except String B)) :
    Option (Except String (Union2 A B)) :=
  (a.map (Except.map .V0)).or (b.map (Except.map .V1))

def Union3.decode {A B C : Type} (a : Option (Except String A)) (b : Option (Except String B))
    (c : Option (Except String C)) : Option (Except String (Union3 A B C)) :=
  (a.map (Except.map .V0)).or ((b.map (Except.map .V1)).or (c.map (Except.map .V2)))

def Union4.decode {A B C D : Type} (a : Option (Except String A)) (b : Option (Except String B))
    (c : Option (Except String C)) (d : Option (Except String D)) :
    Option (Except String (Union4 A B C D)) :=
  (a.map (Except.map .V0)).or
    ((b.map (Except.map .V1)).or ((c.map (Except.map .V2)).or (d.map (Except.map .V3))))

namespace Union

variable {CTypes : List MediaType}

/-- What a handler returns for a union. -/
def Value : Union CTypes → Type
  | withStatus _ T _            => T
  | withStatusNoBody _          => Unit
  | withFixedStatus _ T _       => T
  | withStreamingStatus _ _ T _ => SourceStream T
  | withStatusHeaders _ T _     => Headers T
  | union2 A B                  => Union2 A.Value B.Value
  | union3 A B C                => Union3 A.Value B.Value C.Value
  | union4 A B C D              => Union4 A.Value B.Value C.Value D.Value

def renderUnion : (U : Union CTypes) → Option String → U.Value → Except String ArmResponse
  | withStatus S _ C, accept, value => do
    let (mime, bytes) ← renderArm C.codecs value accept
    pure (S, mime, .full bytes, [])
  | withStatusNoBody S, _, _ => .ok (S, none, .full [], [])
  | withFixedStatus S _ codec, accept, value => do
    let (mime, bytes) ← renderFixedArm codec value accept
    pure (S, mime, .full bytes, [])
  | withStreamingStatus S framing _ codec, _, stream =>
    .ok (S, some codec.mediaType,
      .stream (stream.map fun item => (codec.mimeRender item).map framing.frame), [])
  | withStatusHeaders S _ C, accept, arm => do
    let (mime, bytes) ← renderArm C.codecs arm.value accept
    pure (S, mime, .full bytes, arm.headers)
  | union2 A _, accept, .V0 a | union3 A _ _, accept, .V0 a | union4 A _ _ _, accept, .V0 a =>
    A.renderUnion accept a
  | union2 _ B, accept, .V1 b | union3 _ B _, accept, .V1 b | union4 _ B _ _, accept, .V1 b =>
    B.renderUnion accept b
  | union3 _ _ C, accept, .V2 c | union4 _ _ C _, accept, .V2 c => C.renderUnion accept c
  | union4 _ _ _ D, accept, .V3 d => D.renderUnion accept d

/-- The first arm of the response's status, with what it decodes; `none` when no arm has it. -/
def decodeUnion (status : StatusCode) (headers : HeaderMap) (ct : Option Mime) (body : Bytes) :
    (U : Union CTypes) → Option (Except String U.Value)
  | withStatus S _ C => decodeAt S status (decodeArm C.codecs ct body)
  | withStatusNoBody S => decodeAt S status (.ok ())
  | withFixedStatus S _ codec => decodeAt S status (decodeFixedArm codec ct body)
  | withStreamingStatus S framing _ codec =>
    decodeAt S status (decodeStreamArm framing codec ct body)
  | withStatusHeaders S _ C =>
    decodeAt S status ((decodeArm C.codecs ct body).map fun value => ⟨value, headers⟩)
  | union2 A B =>
    Union2.decode (A.decodeUnion status headers ct body) (B.decodeUnion status headers ct body)
  | union3 A B C =>
    Union3.decode (A.decodeUnion status headers ct body) (B.decodeUnion status headers ct body)
      (C.decodeUnion status headers ct body)
  | union4 A B C D =>
    Union4.decode (A.decodeUnion status headers ct body) (B.decodeUnion status headers ct body)
      (C.decodeUnion status headers ct body) (D.decodeUnion status headers ct body)

/-- A union as the response of an endpoint. -/
def data (U : Union CTypes) : UnionData U.Value := ⟨U.renderUnion⟩

end Union

end ServantRs
