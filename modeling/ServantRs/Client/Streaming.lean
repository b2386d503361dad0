import ServantRs.Core.Api

/-!
# Client — streaming responses

The body of a streaming response is taken apart into items as it comes (`deframeDecode`).  An item
that does not decode is an error among the others; a body that fails, or outgrows the buffer, is
one error more.
-/

namespace ServantRs

/-- The most bytes buffered for a frame. -/
def MAX_STREAM_FRAME_BYTES : Nat := 8 * 1024 * 1024

/-- What a response body still has to deliver, what of it is in the buffer, and whether its end
was reached. -/
structure DeframeState where
  body : List (Except String Bytes)
  buf : Bytes
  eof : Bool

section

variable {T : Type} (framing : Framing) (codec : Codec T)

/-- An item from the front of the buffer, or the buffer when no frame is complete. -/
def deframeBuffered (body : List (Except String Bytes)) (buf : Bytes) (eof : Bool) :
    (Except String T × DeframeState) ⊕ Bytes :=
  match framing.deframe buf eof with
  | (some frame, buf) => .inl (codec.mimeUnrender frame, ⟨body, buf, eof⟩)
  | (none, buf)       => .inr buf

/-- At the end, bytes that are no frame are an error. -/
def deframeLeftover (body : List (Except String Bytes)) (buf : Bytes) :
    Option (Except String T × DeframeState) :=
  if buf ≠ [] then some (.error "incomplete streaming response frame", ⟨body, [], true⟩) else none

/-- The next item of a body: the buffer is filled while it holds no complete frame. -/
def deframeNext : List (Except String Bytes) → Bytes → Bool →
    Option (Except String T × DeframeState)
  | body, buf, eof =>
    match deframeBuffered framing codec body buf eof with
    | .inl item => some item
    | .inr buf =>
      if eof then deframeLeftover body buf
      else match body with
        | [] =>
          match deframeBuffered framing codec [] buf true with
          | .inl item => some item
          | .inr buf  => deframeLeftover [] buf
        | .ok chunk :: body =>
          if MAX_STREAM_FRAME_BYTES < (buf ++ chunk).length then
            some (.error "streaming response frame exceeded size limit", ⟨body, [], true⟩)
          else deframeNext body (buf ++ chunk) eof
        | .error message :: body => some (.error message, ⟨body, buf, true⟩)

/-- The items of a body; a chunk that could not be read is its error's text. -/
def deframeDecode (body : List (Except String Bytes)) : SourceStream (Except String T) :=
  SourceStream.unfold (fun st => deframeNext framing codec st.body st.buf st.eof) ⟨body, [], false⟩

end

end ServantRs
