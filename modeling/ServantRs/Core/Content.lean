import ServantRs.Core.Packages
import ServantRs.Support.Binary32

/-!
# Core — content types and negotiation

A content-type list is a list of codecs, each with the media types it answers to.  A response is
rendered in the media type `negotiateMediaIndex` picks for the request's `Accept`; a request body
is read by the first codec that matches its `Content-Type` (`negotiateContent`).

`negotiateMediaIndex_lt`: a picked index is the index of a media type.
-/

namespace ServantRs

/-- A content-type marker: its canonical media type, and every one it matches. -/
structure MediaType where
  mediaType : Mime
  mediaTypes : List Mime
deriving DecidableEq, Repr

/-- A marker with the way it writes and reads values of `A`. -/
structure Codec (A : Type) extends MediaType where
  mimeRender : A → Except String Bytes
  mimeUnrender : Bytes → Except String A

namespace MediaType

/-- A marker that matches its canonical media type only. -/
def ofMime (m : Mime) : MediaType := ⟨m, [m]⟩

def Json : MediaType := ofMime .APPLICATION_JSON
def PlainText : MediaType := ofMime .TEXT_PLAIN_UTF_8
def FormUrlEncoded : MediaType := ofMime .APPLICATION_WWW_FORM_URLENCODED
def OctetStream : MediaType := ofMime .APPLICATION_OCTET_STREAM
def EventStream : MediaType := ofMime ⟨"text/event-stream", "text", "event-stream"⟩

/-- Every media type of a list, in list order. -/
def allMediaTypes (L : List MediaType) : List Mime := L.flatMap mediaTypes

end MediaType

/-- Types and subtypes agree; parameters do not count, and nothing stands for anything else. -/
def mediaTypeMatches (provided content : Mime) : Bool :=
  provided.type_ = content.type_ && provided.subtype = content.subtype

namespace Codec

variable {A : Type}

def allMediaTypes (L : List (Codec A)) : List Mime := MediaType.allMediaTypes (L.map toMediaType)

/-- `value` as the codec that owns the `idx`-th media type of the list writes it. -/
def renderIndex : List (Codec A) → A → Nat → Except String Bytes
  | [], _, _ => .error "content-type index out of range"
  | c :: L, value, i =>
    if i < c.mediaTypes.length then c.mimeRender value
    else renderIndex L value (i - c.mediaTypes.length)

/-- `value` in the first media type of the list. -/
def renderPrimary (L : List (Codec A)) (value : A) : Except String (Mime × Bytes) :=
  match allMediaTypes L with
  | []        => .error "content-type list is non-empty" -- `expect`: no list is empty
  | mime :: _ => (renderIndex L value 0).map (mime, ·)

/-- `body` read by the first codec with a media type that matches `ct`. -/
def unrender : List (Codec A) → Mime → Bytes → Option (Except String A)
  | [], _, _ => none
  | c :: L, ct, body =>
    if c.mediaTypes.any (mediaTypeMatches · ct) then some (c.mimeUnrender body)
    else unrender L ct body

end Codec

/-- Bytes as they are. -/
def Codec.octetStream : Codec Bytes := ⟨.OctetStream, .ok, .ok⟩

/-- Text in UTF-8. -/
def Codec.plainText : Codec String where
  toMediaType := .PlainText
  mimeRender s := .ok (utf8Bytes s)
  mimeUnrender bytes :=
    match fromUtf8 bytes with
    | some s => .ok s
    | none   => .error (utf8Error bytes)

/-! ### `Accept` -/

/-- One range of an `Accept` header. -/
structure MediaRange where
  type_ : String
  subtype : String
  quality : Nat
deriving DecidableEq, Repr

/-- The quality a range's parameters give it: the last `q`, `1.0` without one.  A malformed or
out-of-range `q` drops the range. -/
def rangeQuality : Nat → List String → Option Nat
  | quality, [] => some quality
  | quality, param :: params =>
    match (stripPrefix "q=" (trim param)).or (stripPrefix "Q=" (trim param)) with
    | some q =>
      match (Binary32.parse (trim q)).bind Binary32.inUnit with
      | some v => rangeQuality v params
      | none   => none
    | none => rangeQuality quality params

def parseRange (part : String) : Option MediaRange := do
  let part := trim part
  if part = "" then none
  match splitChar ';' part with
  | [] => none
  | media :: params =>
    let (type_, subtype) ← splitOnce '/' (trim media)
    let quality ← rangeQuality Binary32.one params
    pure ⟨toAsciiLowercase (trim type_), toAsciiLowercase (trim subtype), quality⟩

def parseAccept (header : String) : List MediaRange := (splitChar ',' header).filterMap parseRange

def eqIgnoreAsciiCase (s t : String) : Bool := toAsciiLowercase s = toAsciiLowercase t

/-- How specific a range that matches a media type is: `3` when exact, `2` for `type/*`, `1` for
`*/*`. -/
def rangeSpecificity (range : MediaRange) (server : Mime) : Option Nat :=
  if range.type_ = "*" ∧ range.subtype = "*" then some 1
  else if range.subtype = "*" ∧ eqIgnoreAsciiCase range.type_ server.type_ then some 2
  else if eqIgnoreAsciiCase range.type_ server.type_
      ∧ eqIgnoreAsciiCase range.subtype server.subtype then some 3
  else none

def starRange : MediaRange := ⟨"*", "*", Binary32.one⟩

/-- Pairs in lexicographic order. -/
def lexLt (a b : Nat × Nat) : Bool := a.1 < b.1 || (a.1 = b.1 && a.2 < b.2)

/-- The most specific range that matches `mt`, and the highest quality among those. -/
def bestForOption (ranges : List MediaRange) (mt : Mime) : Option (Nat × Nat) :=
  ranges.foldl (fun best r =>
    match rangeSpecificity r mt with
    | none => best
    | some spec =>
      match best with
      | none     => some (spec, r.quality)
      | some cur => if lexLt cur (spec, r.quality) then some (spec, r.quality) else some cur) none

/-- One media type against the best so far: `(index, quality, specificity)`. -/
def betterOption (ranges : List MediaRange) (best : Option (Nat × Nat × Nat)) (p : Mime × Nat) :
    Option (Nat × Nat × Nat) :=
  match bestForOption ranges p.1 with
  | none => best
  | some (spec, q) =>
    if 0 < q then
      match best with
      | none => some (p.2, q, spec)
      | some (i, bq, bspec) => if lexLt (bq, bspec) (q, spec) then some (p.2, q, spec)
          else some (i, bq, bspec)
    else best

/-- The ranges an `Accept` header asks for; `none` when it has no valid one.  An absent or blank
header asks for anything. -/
def acceptRanges : Option String → Option (List MediaRange)
  | none => some [starRange]
  | some h =>
    if trim h = "" then some [starRange]
    else match parseAccept h with
      | []     => none
      | ranges => some ranges

/-- The index of the media type that answers an `Accept` header best: quality first, then
specificity, then the list's order. -/
def negotiateMediaIndex (accept : Option String) (media : List Mime) : Option Nat :=
  if media = [] then none
  else (acceptRanges accept).bind fun ranges =>
    (media.zipIdx.foldl (betterOption ranges) none).map (·.1)

theorem betterOption_index {ranges : List MediaRange} {best : Option (Nat × Nat × Nat)}
    {p : Mime × Nat} {i q s : Nat} (h : betterOption ranges best p = some (i, q, s)) :
    i = p.2 ∨ ∃ q' s', best = some (i, q', s') := by
  rw [betterOption] at h
  split at h
  · exact .inr ⟨q, s, h⟩
  · split at h
    · split at h
      · exact .inl (congrArg Prod.fst (Option.some.inj h)).symm
      · split at h
        · exact .inl (congrArg Prod.fst (Option.some.inj h)).symm
        · obtain ⟨rfl, rfl, rfl⟩ := by simpa using h
          exact .inr ⟨_, _, rfl⟩
    · exact .inr ⟨q, s, h⟩

theorem foldl_betterOption_index {ranges : List MediaRange} {ps : List (Mime × Nat)} :
    ∀ {best : Option (Nat × Nat × Nat)} {i q s : Nat},
      ps.foldl (betterOption ranges) best = some (i, q, s) →
      (∃ p ∈ ps, i = p.2) ∨ ∃ q' s', best = some (i, q', s') := by
  induction ps with
  | nil => exact fun h => .inr ⟨_, _, h⟩
  | cons p ps ih =>
      intro best i q s h
      rcases ih h with ⟨p', hp', hi⟩ | ⟨q', s', hb⟩
      · exact .inl ⟨p', List.mem_cons_of_mem _ hp', hi⟩
      · rcases betterOption_index hb with hi | hb
        · exact .inl ⟨p, List.mem_cons_self, hi⟩
        · exact .inr hb

/-- A picked index is the index of a media type. -/
theorem negotiateMediaIndex_lt {accept : Option String} {media : List Mime} {i : Nat}
    (h : negotiateMediaIndex accept media = some i) : i < media.length := by
  rw [negotiateMediaIndex] at h
  split at h
  · exact absurd h (by simp)
  · obtain ⟨ranges, -, h⟩ := Option.bind_eq_some_iff.mp h
    obtain ⟨⟨i', q, s⟩, hf, rfl⟩ := Option.map_eq_some_iff.mp h
    rcases foldl_betterOption_index hf with ⟨p, hp, rfl⟩ | ⟨_, _, hn⟩
    · have hz := List.snd_lt_of_mem_zipIdx hp
      simpa using hz
    · exact absurd hn (by simp)

/-! ### `Content-Type` -/

section

variable [MimeCrate]

/-- The media type of a request body; without a header, octets. -/
def requestContentType : Option String → Option Mime
  | some s => MimeCrate.parse (trim s)
  | none   => some .APPLICATION_OCTET_STREAM

/-- The body read by the list's codec for its `Content-Type`. -/
def negotiateContent {A : Type} (L : List (Codec A)) (contentType : Option String) (body : Bytes) :
    Option (Except String A) :=
  (requestContentType contentType).bind fun ct => Codec.unrender L ct body

end

end ServantRs
