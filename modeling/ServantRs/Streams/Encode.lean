import ServantRs.Client.Build
import ServantRs.Streams.Lengths
import ServantRs.Streams.Server

/-!
# Streams — requests, there and back

The client writes the items of a streaming request as frames; the server takes them off again,
however the bytes were cut on the way.

* `Delimits`: a framing takes its own frames off.  Netstrings do for all bytes, newlines for those
  without a newline.
* `streamBody_round_trip`: the items come back.
-/

namespace ServantRs

open Framing SourceStream Chain

/-- The frames of `allowed` bytes are taken off as they were put on. -/
structure Framing.Delimits (F : Framing) (max : Nat) (allowed : Bytes → Prop) : Prop where
  nil : ∀ eof, F.deframeLimited [] eof max = (.ok none, [])
  front : ∀ {rendered rest}, allowed rendered → (F.frame rendered ++ rest).length ≤ max →
    F.deframeLimited (F.frame rendered ++ rest) false max = (.ok (some rendered), rest)

/-! ### Newlines -/

theorem NewlineFraming.delimits (max : Nat) : NewlineFraming.Delimits max (LF ∉ ·) where
  nil eof := by
    have hnone : NewlineFraming.deframe [] eof = (none, []) := if_neg fun h => h.2 rfl
    show deframeWithin NewlineFraming.deframe [] eof max = _
    rw [deframeWithin, List.length_nil, if_neg (Nat.not_lt_zero max), hnone]
    exact if_neg fun h => h.2 rfl
  front {rendered rest} h hle := by
    have hcut : NewlineFraming.frame rendered ++ rest = rendered ++ LF :: rest := by
      show rendered ++ [LF] ++ rest = _
      rw [List.append_assoc, List.singleton_append]
    rw [hcut] at hle ⊢
    show deframeWithin NewlineFraming.deframe _ false max = _
    rw [deframeWithin_false NewlineFraming.stable hle, NewlineFraming.deframe_append h]

/-! ### Netstrings -/

namespace NetstringFraming

theorem all_isDigit_repr (n : Nat) : n.repr.toList.all Char.isDigit = true := by
  rw [Nat.toList_repr]
  exact List.all_eq_true.mpr fun c hc => Nat.isDigit_of_mem_toDigits (by decide) (by decide) hc

theorem colon_notMem_repr (n : Nat) : COLON ∉ utf8Bytes n.repr := by
  intro h
  have hdigits : (utf8Bytes n.repr).all isAsciiDigit = true := by
    rw [all_isAsciiDigit, all_isDigit_repr]
  exact absurd (List.all_eq_true.mp hdigits COLON h) (by decide)

/-- The length a frame begins with is read. -/
theorem parseNetstringLen_repr {n : Nat} (h : n ≤ USIZE_MAX) :
    parseNetstringLen (utf8Bytes n.repr) = .ok n :=
  parseNetstringLen_eq_ok_iff.mpr ⟨n.repr, rfl, all_isDigit_repr n, parseUsize_repr h⟩

/-- The parts of a frame. -/
theorem frame_append (rendered rest : Bytes) :
    frame rendered ++ rest
      = utf8Bytes rendered.length.repr ++ COLON :: (rendered ++ COMMA :: rest) := by
  have hcolon : utf8Bytes ":" = [COLON] := rfl
  rw [frame, Nat.toString_eq_repr, utf8Bytes_append, hcolon]
  simp

theorem delimits {max : Nat} (hmax : max ≤ USIZE_MAX) :
    NetstringFraming.Delimits max fun _ => True where
  nil eof := by
    show deframeLimited [] eof max = _
    rw [deframeLimited, position_eq_none.mpr List.not_mem_nil]
    simp only [List.length_nil, if_neg (Nat.not_lt_zero max)]
    exact if_neg fun h => h.2 rfl
  front {rendered rest} _ hle := by
    have hframe : Framing.frame NetstringFraming rendered ++ rest = _ := frame_append rendered rest
    have hlimited : Framing.deframeLimited NetstringFraming = deframeLimited := rfl
    rw [hframe] at hle
    rw [hlimited, hframe]
    simp only [List.length_append, List.length_cons] at hle
    exact deframeLimited_eq_some_iff.mpr ⟨_, rfl, colon_notMem_repr _,
      parseNetstringLen_repr (by omega), by omega, by omega⟩

end NetstringFraming

/-! ### The round trip -/

section

variable {T : Type}

/-- The bytes of an item; nothing when it is not rendered. -/
def encodeItem (F : Framing) (codec : Codec T) (item : T) : Bytes :=
  match codec.mimeRender item with
  | .ok rendered => F.frame rendered
  | .error _     => []

/-- An item that is rendered, as `allowed` bytes, and read again. -/
def Codec.RoundTrips (codec : Codec T) (allowed : Bytes → Prop) (item : T) : Prop :=
  ∃ rendered, codec.mimeRender item = .ok rendered ∧ allowed rendered ∧
    codec.mimeUnrender rendered = .ok item

variable {F : Framing} {codec : Codec T} {allowed : Bytes → Prop} {items : List T}

/-- The client's chunks are the items' bytes, item by item. -/
theorem encodeStreamBody_ofList (h : ∀ x ∈ items, codec.RoundTrips allowed x) :
    encodeStreamBody F codec (.ofList (items.map .ok))
      = .ofList ((items.map (encodeItem F codec)).map .ok) := by
  rw [encodeStreamBody, map_ofList, List.map_map, List.map_map]
  congr 1
  refine List.map_congr_left fun x hx => ?_
  obtain ⟨rendered, hr, -, -⟩ := h x hx
  show (codec.mimeRender x).map F.frame = .ok (encodeItem F codec x)
  rw [encodeItem, hr]
  rfl

/-- The server takes off what the client put on. -/
theorem decodeStream_encoded (hs : StableWithin F.deframeLimited DEFAULT_MAX_DECODED_FRAME_BYTES)
    (hd : F.Delimits DEFAULT_MAX_DECODED_FRAME_BYTES allowed)
    (h : ∀ x ∈ items, codec.RoundTrips allowed x)
    (hle : (items.flatMap (encodeItem F codec)).length ≤ DEFAULT_MAX_DECODED_FRAME_BYTES)
    {body : List BodyEvent} (hbytes : receivedBytes body = items.flatMap (encodeItem F codec))
    (herror : transportError body = none) :
    decodeStream F codec body = .ofList (items.map .ok) := by
  have hnil : ∀ eof, (frameDecoder hs codec eof).next [] = .more := fun eof =>
    congrArg (foundFrame codec) (hd.nil eof)
  have hnext : ∀ x ∈ items, ∀ rest,
      (encodeItem F codec x ++ rest).length ≤ DEFAULT_MAX_DECODED_FRAME_BYTES →
        (frameDecoder hs codec false).next (encodeItem F codec x ++ rest) = .item x rest := by
    intro x hx rest hlen
    obtain ⟨rendered, hr, hallowed, hu⟩ := h x hx
    rw [encodeItem, hr] at hlen ⊢
    refine (congrArg (foundFrame codec) (hd.front hallowed hlen)).trans ?_
    rw [foundFrame, hu]
  rw [decodeStream_eq hs codec (by rwa [hbytes]), hbytes, herror,
    Decoder.drain_flatMap (hnil false) hle hnext]
  congr 1
  rw [decodedBody, closing, decodedAtEnd, Decoder.drain_of_more (hnil true), List.map_id']
  exact List.append_nil _

end

theorem DEFAULT_MAX_DECODED_FRAME_BYTES_le : DEFAULT_MAX_DECODED_FRAME_BYTES ≤ USIZE_MAX := by
  decide

/-- The client's chunks, and what the server makes of their bytes. -/
theorem encoded_round_trip {T : Type} {F : Framing} {codec : Codec T} {allowed : Bytes → Prop}
    (hs : StableWithin F.deframeLimited DEFAULT_MAX_DECODED_FRAME_BYTES)
    (hd : F.Delimits DEFAULT_MAX_DECODED_FRAME_BYTES allowed) {items : List T}
    (h : ∀ x ∈ items, codec.RoundTrips allowed x) :
    ∃ chunks : List Bytes,
      encodeStreamBody F codec (.ofList (items.map .ok)) = .ofList (chunks.map .ok) ∧
      (chunks.flatten.length ≤ DEFAULT_MAX_DECODED_FRAME_BYTES →
        ∀ body : List BodyEvent, receivedBytes body = chunks.flatten →
          transportError body = none →
            decodeStream F codec body = .ofList (items.map .ok)) := by
  refine ⟨items.map (encodeItem F codec), encodeStreamBody_ofList h, ?_⟩
  rw [← List.flatMap_def]
  intro hle body hbytes herror
  exact decodeStream_encoded hs hd h hle hbytes herror

/-- **Streaming request round trip.**  Items that are rendered and read again, framed as
netstrings, or by newlines when none is rendered with one, come back from any chunks of the bytes
that were sent for them, within the limit, and nothing comes after them. -/
theorem streamBody_round_trip {T : Type} {F : Framing} {codec : Codec T} {items : List T}
    (hF : F = NetstringFraming ∨
      F = NewlineFraming ∧ ∀ x ∈ items, ∀ rendered, codec.mimeRender x = .ok rendered →
        LF ∉ rendered)
    (hitems : ∀ x ∈ items, ∃ rendered, codec.mimeRender x = .ok rendered ∧
      codec.mimeUnrender rendered = .ok x) :
    ∃ chunks : List Bytes,
      encodeStreamBody F codec (.ofList (items.map .ok)) = .ofList (chunks.map .ok) ∧
      (chunks.flatten.length ≤ DEFAULT_MAX_DECODED_FRAME_BYTES →
        ∀ body : List BodyEvent, receivedBytes body = chunks.flatten →
          transportError body = none →
            decodeStream F codec body = .ofList (items.map .ok)) := by
  rcases hF with rfl | ⟨rfl, hline⟩
  · refine encoded_round_trip (NetstringFraming.stableWithin _)
      (NetstringFraming.delimits DEFAULT_MAX_DECODED_FRAME_BYTES_le) fun x hx => ?_
    obtain ⟨rendered, hr, hu⟩ := hitems x hx
    exact ⟨rendered, hr, trivial, hu⟩
  · refine encoded_round_trip (NewlineFraming.stable.within _) (NewlineFraming.delimits _)
      fun x hx => ?_
    obtain ⟨rendered, hr, hu⟩ := hitems x hx
    exact ⟨rendered, hr, hline x hx rendered hr, hu⟩

/-- Two items, one with a newline and one that is empty, as netstrings. -/
theorem streamBody_round_trip_octets : ∃ chunks : List Bytes,
    encodeStreamBody NetstringFraming .octetStream (.ofList ([[LF, COMMA], []].map .ok))
      = .ofList (chunks.map .ok) ∧
    (chunks.flatten.length ≤ DEFAULT_MAX_DECODED_FRAME_BYTES →
      ∀ body : List BodyEvent, receivedBytes body = chunks.flatten →
        transportError body = none →
          decodeStream NetstringFraming .octetStream body
            = .ofList ([[LF, COMMA], []].map .ok)) :=
  streamBody_round_trip (.inl rfl) fun x _ => ⟨x, rfl, rfl⟩

end ServantRs
