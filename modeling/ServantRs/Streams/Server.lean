import ServantRs.Server.Extract
import ServantRs.Streams.Framings
import ServantRs.Support.Incremental

/-!
# Streams — requests, taken apart

The server's walk over a request body is the feeding of a decoder that fails for good: at a frame
that is malformed or too large, and at an item that does not decode (`decodeNext_yields`).  What it
yields is items, then at most one error, and the chunks the body comes in do not matter:
`decodeStream_rechunk`.
-/

namespace ServantRs

open Framing SourceStream Chain

section

variable {T : Type} {F : Framing} {max : Nat} (hs : StableWithin F.deframeLimited max)
  (codec : Codec T)

/-! ### The server's decoder -/

/-- A frame, decoded; a frame that is none, or does not decode, is the end. -/
def foundFrame : Except StreamBodyError (Option Bytes) × Bytes → Found UInt8 T StreamBodyError
  | (.ok (some frame), rest) =>
    match codec.mimeUnrender frame with
    | .ok item       => .item item rest
    | .error message => .fail (.decode message)
  | (.ok none, _) => .more
  | (.error e, _) => .fail e

theorem foundFrame_eq_item {found : Except StreamBodyError (Option Bytes) × Bytes} {item : T}
    {rest : Bytes} (h : foundFrame codec found = .item item rest) :
    ∃ frame, found = (.ok (some frame), rest) ∧ codec.mimeUnrender frame = .ok item := by
  rcases found with ⟨e | _ | frame, rest'⟩
  · cases h
  · cases h
  · rw [foundFrame] at h
    cases hu : codec.mimeUnrender frame with
    | error message =>
        rw [hu] at h
        cases h
    | ok item' =>
        rw [hu] at h
        cases h
        exact ⟨frame, rfl, hu⟩

theorem foundFrame_eq_fail {found : Except StreamBodyError (Option Bytes) × Bytes}
    {e : StreamBodyError} (h : foundFrame codec found = .fail e) :
    (∃ frame rest message, found = (.ok (some frame), rest) ∧
      codec.mimeUnrender frame = .error message ∧ e = .decode message) ∨
    ∃ rest, found = (.error e, rest) := by
  rcases found with ⟨e' | _ | frame, rest⟩
  · cases h
    exact .inr ⟨rest, rfl⟩
  · cases h
  · rw [foundFrame] at h
    cases hu : codec.mimeUnrender frame with
    | error message =>
        rw [hu] at h
        cases h
        exact .inl ⟨frame, rest, message, rfl, hu, rfl⟩
    | ok item' =>
        rw [hu] at h
        cases h

theorem foundFrame_eq_more {found : Except StreamBodyError (Option Bytes) × Bytes}
    (h : foundFrame codec found = .more) : ∃ rest, found = (.ok none, rest) := by
  rcases found with ⟨e | _ | frame, rest⟩
  · cases h
  · exact ⟨rest, rfl⟩
  · rw [foundFrame] at h
    cases hu : codec.mimeUnrender frame with
    | error message =>
        rw [hu] at h
        cases h
    | ok item' =>
        rw [hu] at h
        cases h

def frameDecoder (eof : Bool) : Decoder UInt8 T StreamBodyError where
  next buf := foundFrame codec (F.deframeLimited buf eof max)
  shrinks h := by
    obtain ⟨frame, hd, -⟩ := foundFrame_eq_item codec h
    exact hs.shrinks hd

/-- A stable framing makes a stable decoder, up to the limit. -/
theorem stable_frameDecoder : (frameDecoder hs codec false).Stable max where
  item_append {buf more item rest} hle h := by
    obtain ⟨frame, hd, hu⟩ := foundFrame_eq_item codec h
    show foundFrame codec (F.deframeLimited (buf ++ more) false max) = _
    rw [hs.append hle hd, foundFrame, hu]
  fail_append {buf more e} hle h := by
    show foundFrame codec (F.deframeLimited (buf ++ more) false max) = _
    rcases foundFrame_eq_fail codec h with ⟨frame, rest, message, hd, hu, rfl⟩ | ⟨rest, hd⟩
    · rw [hs.append hle hd, foundFrame, hu]
    · rw [hs.error_append hle hd]
      rfl

/-- Why decoding stopped. -/
def errorOf : Except StreamBodyError Bytes → List (Except StreamBodyError T)
  | .ok _    => []
  | .error e => [.error e]

/-- What is decoded of the bytes left at the end of a body. -/
def decodedAtEnd (rest : Bytes) : List (Except StreamBodyError T) :=
  ((frameDecoder hs codec true).drain rest).1.map .ok
    ++ errorOf ((frameDecoder hs codec true).drain rest).2

/-- What follows the items that were decoded as the chunks came. -/
def closing : Option String → Except StreamBodyError Bytes → List (Except StreamBodyError T)
  | _,            .error e => [.error e]
  | some message, .ok _    => [.error (.transport message)]
  | none,         .ok rest => decodedAtEnd hs codec rest

/-- What is decoded of a body. -/
def decodedBody (failure : Option String) (decoded : List T × Except StreamBodyError Bytes) :
    List (Except StreamBodyError T) := decoded.1.map .ok ++ closing hs codec failure decoded.2

theorem errorOf_eq (out : Except StreamBodyError Bytes) :
    ∃ e : Option StreamBodyError, (errorOf out : List (Except StreamBodyError T))
      = e.toList.map .error := by
  cases out with
  | ok rest => exact ⟨none, rfl⟩
  | error e => exact ⟨some e, rfl⟩

/-- Items, then at most one error. -/
theorem decodedBody_eq (failure : Option String)
    (decoded : List T × Except StreamBodyError Bytes) :
    ∃ (items : List T) (e : Option StreamBodyError),
      decodedBody hs codec failure decoded = items.map .ok ++ e.toList.map .error := by
  obtain ⟨items, rest | e⟩ := decoded
  · exact ⟨items, some rest, rfl⟩
  · cases failure with
    | some message => exact ⟨items, some (.transport message), rfl⟩
    | none =>
        obtain ⟨e', he⟩ := errorOf_eq (T := T) ((frameDecoder hs codec true).drain e).2
        refine ⟨items ++ ((frameDecoder hs codec true).drain e).1, e', ?_⟩
        show items.map Except.ok ++ (_ ++ errorOf _) = _
        rw [he, List.map_append, List.append_assoc]

end

/-! ### The walk over a body -/

section

variable {T : Type} (framing : Framing) (codec : Codec T) (max : Nat)

/-- `decodeBuffered`, with frames of `max` bytes at most. -/
def decodeBufferedWithin (body : List (Except String Bytes)) (buf : Bytes) (eof : Bool) :
    (Except StreamBodyError T × DecodeState) ⊕ Bytes :=
  match framing.deframeLimited buf eof max with
  | (.ok (some frame), buf) =>
    match codec.mimeUnrender frame with
    | .ok item       => .inl (.ok item, ⟨body, buf, eof, false⟩)
    | .error message => .inl (.error (.decode message), ⟨body, buf, eof, true⟩)
  | (.ok none, buf) => .inr buf
  | (.error e, buf) => .inl (.error e, ⟨body, buf, eof, true⟩)

/-- `decodeNext`, with frames of `max` bytes at most. -/
def decodeNextWithin : List (Except String Bytes) → Bytes → Bool →
    Option (Except StreamBodyError T × DecodeState)
  | body, buf, eof =>
    match decodeBufferedWithin framing codec max body buf eof with
    | .inl item => some item
    | .inr buf =>
      if eof then none
      else match body with
        | [] =>
          match decodeBufferedWithin framing codec max [] buf true with
          | .inl item => some item
          | .inr _    => none
        | .ok chunk :: body => decodeNextWithin body (buf ++ chunk) eof
        | .error message :: body => some (.error (.transport message), ⟨body, buf, eof, true⟩)

/-- What the walk does next. -/
abbrev decodeStepWithin (st : DecodeState) : Option (Except StreamBodyError T × DecodeState) :=
  if st.done then none else decodeNextWithin framing codec max st.body st.buf st.eof

/-- `decode_stream`, with frames of `max` bytes at most. -/
def decodeStreamWithin (body : List BodyEvent) : SourceStream (Except StreamBodyError T) :=
  SourceStream.unfold (decodeStepWithin framing codec max)
    ⟨RequestBody.streamItems body, [], false, false⟩

end

section

variable {T : Type} {F : Framing} {codec : Codec T} {max : Nat}
  {hs : StableWithin F.deframeLimited max}
  {body : List (Except String Bytes)} {buf rest : Bytes} {eof : Bool}

theorem decodeBuffered_of_item {item : T}
    (h : (frameDecoder hs codec eof).next buf = .item item rest) :
    decodeBufferedWithin F codec max body buf eof = .inl (.ok item, ⟨body, rest, eof, false⟩) := by
  obtain ⟨frame, hd, hu⟩ := foundFrame_eq_item codec h
  simp only [decodeBufferedWithin, hd, hu]

theorem decodeBuffered_of_fail {e : StreamBodyError} (body : List (Except String Bytes))
    (h : (frameDecoder hs codec eof).next buf = .fail e) :
    ∃ rest, decodeBufferedWithin F codec max body buf eof
      = .inl (.error e, ⟨body, rest, eof, true⟩) := by
  rcases foundFrame_eq_fail codec h with ⟨frame, rest, message, hd, hu, rfl⟩ | ⟨rest, hd⟩
  · refine ⟨rest, ?_⟩
    simp only [decodeBufferedWithin, hd, hu]
  · refine ⟨rest, ?_⟩
    rw [decodeBufferedWithin, hd]

theorem decodeBuffered_of_more (h : (frameDecoder hs codec eof).next buf = .more) :
    decodeBufferedWithin F codec max body buf eof = .inr buf := by
  obtain ⟨rest, hd⟩ := foundFrame_eq_more codec h
  obtain rfl := hs.rest_of_none hd
  rw [decodeBufferedWithin, hd]

theorem decodeStep_of_item {item : T} (h : (frameDecoder hs codec eof).next buf = .item item rest) :
    decodeStepWithin F codec max ⟨body, buf, eof, false⟩
      = some (.ok item, ⟨body, rest, eof, false⟩) := by
  show decodeNextWithin F codec max body buf eof = _
  rw [decodeNextWithin, decodeBuffered_of_item h]

/-- A failure is the last that is yielded. -/
theorem decodeStep_yields_of_fail {e : StreamBodyError}
    (h : (frameDecoder hs codec eof).next buf = .fail e) :
    Yields (decodeStepWithin F codec max) ⟨body, buf, eof, false⟩ [.error e] := by
  obtain ⟨rest, hb⟩ := decodeBuffered_of_fail body h
  have hstep : decodeStepWithin F codec max ⟨body, buf, eof, false⟩
      = some (.error e, ⟨body, rest, eof, true⟩) := by
    show decodeNextWithin F codec max body buf eof = _
    rw [decodeNextWithin, hb]
  exact .item hstep (.done rfl)

theorem decodeNext_eof (h : (frameDecoder hs codec true).next buf = .more) :
    decodeNextWithin F codec max body buf true = none := by
  rw [decodeNextWithin, decodeBuffered_of_more h]
  rfl

/-- At the end of a body what is buffered is decoded as it is. -/
theorem decodeNext_nil (h : (frameDecoder hs codec false).next buf = .more) :
    decodeNextWithin F codec max [] buf false = decodeNextWithin F codec max [] buf true := by
  rw [decodeNextWithin, decodeBuffered_of_more h]
  cases hn : (frameDecoder hs codec true).next buf with
  | more =>
      simp only [decodeNext_eof hn, decodeBuffered_of_more hn, Bool.false_eq_true, if_false]
  | item item rest =>
      rw [decodeNextWithin]
      simp only [decodeBuffered_of_item hn, Bool.false_eq_true, if_false]
  | fail e =>
      obtain ⟨rest, hb⟩ := decodeBuffered_of_fail [] hn
      rw [decodeNextWithin]
      simp only [hb, Bool.false_eq_true, if_false]

theorem decodeNext_chunk (h : (frameDecoder hs codec false).next buf = .more) (chunk : Bytes) :
    decodeNextWithin F codec max (.ok chunk :: body) buf false
      = decodeNextWithin F codec max body (buf ++ chunk) false := by
  rw [decodeNextWithin, decodeBuffered_of_more h]
  rfl

theorem decodeNext_failure (h : (frameDecoder hs codec false).next buf = .more)
    (message : String) :
    decodeNextWithin F codec max (.error message :: body) buf false
      = some (.error (.transport message), ⟨body, buf, false, true⟩) := by
  rw [decodeNextWithin, decodeBuffered_of_more h]
  rfl

/-- At the end of a body the walk yields what is decoded of the bytes left. -/
theorem decodeNext_yields_eof
    (hs : StableWithin F.deframeLimited max)
    (body : List (Except String Bytes)) (buf : Bytes) :
    Yields (decodeStepWithin F codec max) ⟨body, buf, true, false⟩ (decodedAtEnd hs codec buf) := by
  induction buf using (frameDecoder hs codec true).drain_induction with
  | more buf h =>
      rw [decodedAtEnd, Decoder.drain_of_more h]
      exact .done (decodeNext_eof h)
  | item buf item rest h ih =>
      rw [decodedAtEnd, Decoder.drain_of_item h]
      exact .item (decodeStep_of_item h) ih
  | fail buf e h =>
      rw [decodedAtEnd, Decoder.drain_of_fail h]
      exact decodeStep_yields_of_fail h

/-- What is decoded of a body and of a buffer before it. -/
abbrev decodedFrom (hs : StableWithin F.deframeLimited max)
    (codec : Codec T) (body : List (Except String Bytes)) (buf : Bytes) :
    List (Except StreamBodyError T) :=
  decodedBody hs codec (failureOf body) ((frameDecoder hs codec false).feed (chunksOf body) buf)

/-- It is enough to look at the walk where the buffer holds no complete frame. -/
theorem decodeStep_yields_of_more
    (hs : StableWithin F.deframeLimited max)
    {body : List (Except String Bytes)}
    (hmore : ∀ buf, (frameDecoder hs codec false).next buf = .more →
      Yields (decodeStepWithin F codec max) ⟨body, buf, false, false⟩
        (decodedFrom hs codec body buf))
    (buf : Bytes) :
    Yields (decodeStepWithin F codec max) ⟨body, buf, false, false⟩
      (decodedFrom hs codec body buf) := by
  induction buf using (frameDecoder hs codec false).drain_induction with
  | more buf h => exact hmore buf h
  | item buf item rest h ih =>
      rw [decodedFrom, decodedBody, Decoder.feed_of_item h]
      exact .item (decodeStep_of_item h) ih
  | fail buf e h =>
      rw [decodedFrom, decodedBody, Decoder.feed_of_fail h]
      cases failureOf body with
      | none => exact decodeStep_yields_of_fail h
      | some message => exact decodeStep_yields_of_fail h

/-- **The walk over a body is the feeding of a decoder.** -/
theorem decodeNext_yields (hs : StableWithin F.deframeLimited max) :
    ∀ (body : List (Except String Bytes)) (buf : Bytes),
      Yields (decodeStepWithin F codec max) ⟨body, buf, false, false⟩
        (decodedFrom hs codec body buf)
  | [], buf => by
      refine decodeStep_yields_of_more hs (fun buf h => ?_) buf
      have hstep : decodeStepWithin F codec max ⟨[], buf, false, false⟩
          = decodeStepWithin F codec max ⟨[], buf, true, false⟩ := decodeNext_nil h
      have hitems : decodedFrom hs codec [] buf = decodedAtEnd hs codec buf := by
        rw [decodedFrom, chunksOf, Decoder.feed, Decoder.drain_of_more h]
        rfl
      rw [hitems]
      exact .of_step_eq hstep (decodeNext_yields_eof hs [] buf)
  | .ok chunk :: body, buf => by
      refine decodeStep_yields_of_more hs (fun buf h => ?_) buf
      have hstep : decodeStepWithin F codec max ⟨.ok chunk :: body, buf, false, false⟩
          = decodeStepWithin F codec max ⟨body, buf ++ chunk, false, false⟩ :=
        decodeNext_chunk h chunk
      have hitems : decodedFrom hs codec (.ok chunk :: body) buf
          = decodedFrom hs codec body (buf ++ chunk) := by
        rw [decodedFrom, chunksOf, Decoder.feed_cons_of_more h]
        rfl
      rw [hitems]
      exact .of_step_eq hstep (decodeNext_yields hs body (buf ++ chunk))
  | .error message :: body, buf => by
      refine decodeStep_yields_of_more hs (fun buf h => ?_) buf
      have hitems : decodedFrom hs codec (.error message :: body) buf
          = [.error (.transport message)] := by
        rw [decodedFrom, chunksOf, Decoder.feed, Decoder.drain_of_more h]
        rfl
      rw [hitems]
      exact .item (decodeNext_failure h message) (.done rfl)

end

/-! ### Request bodies -/

/-- The bytes received of a body. -/
def receivedBytes (body : List BodyEvent) : Bytes :=
  (chunksOf (RequestBody.streamItems body)).flatten

/-- Why no more was received. -/
def transportError (body : List BodyEvent) : Option String :=
  failureOf (RequestBody.streamItems body)

/-- The walk of the server is the walk within its limit. -/
theorem decodeNext_eq_within {T : Type} (F : Framing) (codec : Codec T)
    (body : List (Except String Bytes)) (buf : Bytes) (eof : Bool) :
    decodeNext F codec body buf eof
      = decodeNextWithin F codec DEFAULT_MAX_DECODED_FRAME_BYTES body buf eof := by
  have hbuffered : ∀ body buf eof, decodeBuffered F codec body buf eof
      = decodeBufferedWithin F codec DEFAULT_MAX_DECODED_FRAME_BYTES body buf eof :=
    fun _ _ _ => rfl
  induction body generalizing buf with
  | nil =>
      rw [decodeNext, decodeNextWithin]
      cases hwithin : decodeBufferedWithin F codec DEFAULT_MAX_DECODED_FRAME_BYTES [] buf eof with
      | inl item => simp only [hbuffered, hwithin]
      | inr rest =>
          cases hlast : decodeBufferedWithin F codec DEFAULT_MAX_DECODED_FRAME_BYTES [] rest
              true with
          | inl item => simp only [hbuffered, hwithin, hlast]
          | inr last => simp only [hbuffered, hwithin, hlast]
  | cons received body ih =>
      rw [decodeNext, decodeNextWithin]
      cases hwithin : decodeBufferedWithin F codec DEFAULT_MAX_DECODED_FRAME_BYTES
          (received :: body) buf eof with
      | inl item => simp only [hbuffered, hwithin]
      | inr rest =>
          cases received with
          | ok chunk => simp only [hbuffered, hwithin, ih]
          | error message => simp only [hbuffered, hwithin]

/-- `decode_stream` decodes within its limit. -/
theorem decodeStream_eq_within {T : Type} (F : Framing) (codec : Codec T)
    (body : List BodyEvent) :
    decodeStream F codec body
      = decodeStreamWithin F codec DEFAULT_MAX_DECODED_FRAME_BYTES body := by
  have hstep : (fun st : DecodeState => if st.done then none
      else decodeNext F codec st.body st.buf st.eof)
      = decodeStepWithin F codec DEFAULT_MAX_DECODED_FRAME_BYTES := by
    funext st
    rw [decodeNext_eq_within]
  rw [decodeStream, hstep]
  rfl

/-- What a body is decoded to, chunk by chunk. -/
theorem decodeStreamWithin_eq {T : Type} {F : Framing} {max : Nat}
    (hs : StableWithin F.deframeLimited max) (codec : Codec T) (body : List BodyEvent) :
    decodeStreamWithin F codec max body
      = .ofList (decodedFrom hs codec (RequestBody.streamItems body) []) :=
  (decodeNext_yields hs _ []).unfold_eq

/-- What is decoded of a body within the limit is what is decoded of its bytes put together. -/
theorem decodeStream_eq {T : Type} {F : Framing}
    (hs : StableWithin F.deframeLimited DEFAULT_MAX_DECODED_FRAME_BYTES) (codec : Codec T)
    {body : List BodyEvent}
    (hle : (receivedBytes body).length ≤ DEFAULT_MAX_DECODED_FRAME_BYTES) :
    decodeStream F codec body = .ofList (decodedBody hs codec (transportError body)
      ((frameDecoder hs codec false).drain (receivedBytes body))) := by
  rw [decodeStream_eq_within, decodeStreamWithin_eq hs, decodedFrom,
    (stable_frameDecoder hs codec).feed_eq_drain hle, List.nil_append]
  rfl

/-- **The chunks of a request do not matter, and an error is the last.**  A body within the limit
is decoded to a list of items with at most one error behind them, and every body of the same bytes
that ended the same way is decoded to the same, for every framing of the library. -/
theorem decodeStream_rechunk {T : Type} {F : Framing} (hF : F ∈ builtin) (codec : Codec T)
    (body : List BodyEvent)
    (hle : (receivedBytes body).length ≤ DEFAULT_MAX_DECODED_FRAME_BYTES) :
    (∃ (items : List T) (e : Option StreamBodyError),
      decodeStream F codec body = .ofList (items.map .ok ++ e.toList.map .error)) ∧
    ∀ body' : List BodyEvent, receivedBytes body' = receivedBytes body →
      transportError body' = transportError body →
        decodeStream F codec body' = decodeStream F codec body := by
  have hs := stableWithin_of_mem_builtin hF DEFAULT_MAX_DECODED_FRAME_BYTES
  refine ⟨?_, fun body' hbytes herror => ?_⟩
  · obtain ⟨items, e, hitems⟩ := decodedBody_eq hs codec (transportError body)
      ((frameDecoder hs codec false).drain (receivedBytes body))
    exact ⟨items, e, by rw [decodeStream_eq hs codec hle, hitems]⟩
  · rw [decodeStream_eq hs codec hle, decodeStream_eq hs codec (by rwa [hbytes]), hbytes, herror]

/-- `2:ab,`, cut, and a transport error. -/
theorem decodeStream_rechunk_netstring :
    (∃ (items : List Bytes) (e : Option StreamBodyError),
      decodeStream NetstringFraming .octetStream
          [.data [50, COLON, 97], .data [98, COMMA], .error "reset"]
        = .ofList (items.map .ok ++ e.toList.map .error)) ∧
    ∀ body' : List BodyEvent,
      receivedBytes body' = receivedBytes [.data [50, COLON, 97], .data [98, COMMA], .error "reset"] →
        transportError body' = transportError [.data [50, COLON, 97], .data [98, COMMA], .error "reset"] →
          decodeStream NetstringFraming .octetStream body'
            = decodeStream NetstringFraming .octetStream
                [.data [50, COLON, 97], .data [98, COMMA], .error "reset"] :=
  decodeStream_rechunk (by simp [builtin]) .octetStream _ (by decide)

end ServantRs
