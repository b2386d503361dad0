import ServantRs.Client.Streaming
import ServantRs.Streams.Frames
import ServantRs.Support.Incremental

/-!
# Streams — responses, taken apart

The client's walk over a response body yields the items of its frames and what comes of its end
(`responseItems_yielded`); over a body within the buffer's limit it is the feeding of a decoder.
As the framings of the library are stable, the chunks such a body comes in do not matter:
`deframeDecode_rechunk`.
-/

namespace ServantRs

open Framing SourceStream

section

variable {T : Type} {F : Framing} (hs : Stable F.deframe) (codec : Codec T)

/-! ### The client's decoder -/

/-- A frame, decoded; an item that does not decode is an item. -/
def foundItem : Option Bytes × Bytes → Found UInt8 (Except String T) Empty
  | (some frame, rest) => .item (codec.mimeUnrender frame) rest
  | (none, _)          => .more

theorem foundItem_eq_item {found : Option Bytes × Bytes} {item : Except String T} {rest : Bytes}
    (h : foundItem codec found = .item item rest) :
    ∃ frame, found = (some frame, rest) ∧ item = codec.mimeUnrender frame := by
  rcases found with ⟨_ | frame, rest'⟩
  · cases h
  · cases h
    exact ⟨frame, rfl, rfl⟩

def itemDecoder (eof : Bool) : Decoder UInt8 (Except String T) Empty where
  next buf := foundItem codec (F.deframe buf eof)
  shrinks h := by
    obtain ⟨frame, hd, -⟩ := foundItem_eq_item codec h
    exact hs.shrinks hd

/-- A stable framing makes a stable decoder. -/
theorem stable_itemDecoder (N : Nat) : (itemDecoder hs codec false).Stable N where
  item_append {buf more item rest} _ h := by
    obtain ⟨frame, hd, rfl⟩ := foundItem_eq_item codec h
    exact congrArg (foundItem codec) (hs.append hd)
  fail_append {buf more e} := e.elim

/-- Bytes that are no frame at the end of a body. -/
def incomplete : Except Empty Bytes → List (Except String T)
  | .ok []       => []
  | .ok (_ :: _) => [.error "incomplete streaming response frame"]
  | .error e     => e.elim

/-- The items of what is left at the end of a body. -/
def leftoverItems (rest : Bytes) : List (Except String T) :=
  ((itemDecoder hs codec true).drain rest).1 ++ incomplete ((itemDecoder hs codec true).drain rest).2

/-- What follows the items that were decoded as the chunks came: what went wrong, and the items of
what is left. -/
def ending (failure : Option String) : Except Empty Bytes → List (Except String T)
  | .ok rest => failure.toList.map .error ++ leftoverItems hs codec rest
  | .error e => e.elim

/-- The items of a body. -/
def bodyItems (failure : Option String) (decoded : List (Except String T) × Except Empty Bytes) :
    List (Except String T) := decoded.1 ++ ending hs codec failure decoded.2

/-! ### The walk over a body -/

/-- What the walk does next. -/
abbrev deframeStep (F : Framing) (codec : Codec T) (st : DeframeState) :
    Option (Except String T × DeframeState) := deframeNext F codec st.body st.buf st.eof

variable {hs codec} {body : List (Except String Bytes)} {buf rest : Bytes} {eof : Bool}

theorem deframeNext_of_some {frame : Bytes} (h : F.deframe buf eof = (some frame, rest)) :
    deframeNext F codec body buf eof = some (codec.mimeUnrender frame, ⟨body, rest, eof⟩) := by
  rw [deframeNext, deframeBuffered, h]

theorem deframeNext_eof (h : F.deframe buf true = (none, rest)) :
    deframeNext F codec body buf true = deframeLeftover body rest := by
  rw [deframeNext, deframeBuffered, h]
  rfl

/-- At the end of the body what is buffered is flushed. -/
theorem deframeNext_nil (hs : Stable F.deframe) (h : F.deframe buf false = (none, rest)) :
    deframeNext F codec [] buf false = deframeNext F codec [] buf true := by
  obtain rfl := hs.rest_of_none h
  rw [deframeNext, deframeBuffered, h]
  rcases hd : F.deframe rest true with ⟨_ | frame, rest'⟩
  · rw [deframeNext_eof hd]
    simp only [deframeBuffered, hd, Bool.false_eq_true, if_false]
  · rw [deframeNext_of_some hd]
    simp only [deframeBuffered, hd, Bool.false_eq_true, if_false]

/-- A chunk is put into the buffer, which stays within its limit. -/
theorem deframeNext_chunk (hs : Stable F.deframe) (h : F.deframe buf false = (none, rest))
    {chunk : Bytes} (hle : (buf ++ chunk).length ≤ MAX_STREAM_FRAME_BYTES) :
    deframeNext F codec (.ok chunk :: body) buf false
      = deframeNext F codec body (buf ++ chunk) false := by
  obtain rfl := hs.rest_of_none h
  rw [deframeNext, deframeBuffered, h]
  exact if_neg (Nat.not_lt.mpr hle)

theorem deframeNext_failure (hs : Stable F.deframe) (h : F.deframe buf false = (none, rest))
    (message : String) :
    deframeNext F codec (.error message :: body) buf false
      = some (.error message, ⟨body, buf, true⟩) := by
  obtain rfl := hs.rest_of_none h
  rw [deframeNext, deframeBuffered, h]
  rfl

/-- A chunk that outgrows the buffer is the end of it. -/
theorem deframeNext_overflow (hs : Stable F.deframe) (h : F.deframe buf false = (none, rest))
    {chunk : Bytes} (hlt : MAX_STREAM_FRAME_BYTES < (buf ++ chunk).length) :
    deframeNext F codec (.ok chunk :: body) buf false
      = some (.error "streaming response frame exceeded size limit", ⟨body, [], true⟩) := by
  obtain rfl := hs.rest_of_none h
  rw [deframeNext, deframeBuffered, h]
  exact if_pos hlt

/-- No complete frame in the buffer. -/
theorem deframe_of_more (h : (itemDecoder hs codec eof).next buf = .more) :
    F.deframe buf eof = (none, buf) := by
  rcases hd : F.deframe buf eof with ⟨_ | frame, rest⟩
  · rw [hs.rest_of_none hd]
  · have hitem : (itemDecoder hs codec eof).next buf = foundItem codec (some frame, rest) :=
      congrArg (foundItem codec) hd
    rw [hitem] at h
    cases h

/-- At the end of a body the walk yields the items of what is left. -/
theorem deframeNext_yields_eof (hs : Stable F.deframe) (body : List (Except String Bytes))
    (buf : Bytes) :
    Yields (deframeStep F codec) ⟨body, buf, true⟩ (leftoverItems hs codec buf) := by
  induction buf using (itemDecoder hs codec true).drain_induction with
  | more buf h =>
      have hstep : deframeStep F codec ⟨body, buf, true⟩ = deframeLeftover body buf :=
        deframeNext_eof (deframe_of_more h)
      rw [leftoverItems, Decoder.drain_of_more h]
      cases buf with
      | nil => exact .done hstep
      | cons b buf =>
          exact .item hstep (.done (deframeNext_eof (deframe_nil hs true)))
  | item buf item rest h ih =>
      obtain ⟨frame, hd, rfl⟩ := foundItem_eq_item codec h
      rw [leftoverItems, Decoder.drain_of_item h]
      exact .item (deframeNext_of_some hd) ih
  | fail buf e h => exact e.elim

/-- The items of a body and of a buffer before it: those of the complete frames, then, once the
body ended, failed or outgrew the buffer, what comes of that. -/
def responseItems (hs : Stable F.deframe) (codec : Codec T) :
    List (Except String Bytes) → Bytes → List (Except String T)
  | [], buf => (F.frames buf).map codec.mimeUnrender ++ leftoverItems hs codec (F.unfinished buf)
  | .ok chunk :: body, buf =>
    (F.frames buf).map codec.mimeUnrender ++
      if MAX_STREAM_FRAME_BYTES < (F.unfinished buf ++ chunk).length then
        [.error "streaming response frame exceeded size limit"]
      else responseItems hs codec body (F.unfinished buf ++ chunk)
  | .error message :: _, buf =>
    (F.frames buf).map codec.mimeUnrender ++
      .error message :: leftoverItems hs codec (F.unfinished buf)

/-- The complete frames of a buffer are yielded first. -/
theorem yields_frames (hs : Stable F.deframe) {body : List (Except String Bytes)} {buf : Bytes}
    {items : List (Except String T)}
    (t : Yields (deframeStep F codec) ⟨body, F.unfinished buf, false⟩ items) :
    Yields (deframeStep F codec) ⟨body, buf, false⟩
      ((F.frames buf).map codec.mimeUnrender ++ items) := by
  induction buf using frames_induction hs with
  | none buf h => rwa [frames_of_none h, ← unfinished_of_none h]
  | some buf frame rest h ih =>
      rw [unfinished_of_some hs h] at t
      rw [frames_of_some hs h]
      exact .item (deframeNext_of_some h) (ih t)

/-- **The walk over a body**, however long. -/
theorem responseItems_yielded (hs : Stable F.deframe) (body : List (Except String Bytes))
    (buf : Bytes) :
    Yields (deframeStep F codec) ⟨body, buf, false⟩ (responseItems hs codec body buf) := by
  have hnone := fun buf => deframe_unfinished hs buf
  induction body generalizing buf with
  | nil =>
      exact yields_frames hs (.of_step_eq (deframeNext_nil hs (hnone buf))
        (deframeNext_yields_eof hs [] _))
  | cons received body ih =>
      cases received with
      | ok chunk =>
          refine yields_frames hs ?_
          split
          · next hlt =>
              exact .item (deframeNext_overflow hs (hnone buf) hlt)
                (.done (deframeNext_eof (deframe_nil hs true)))
          · next hle =>
              exact .of_step_eq (deframeNext_chunk hs (hnone buf) (Nat.not_lt.mp hle)) (ih _)
      | error message =>
          exact yields_frames hs (.item (deframeNext_failure hs (hnone buf) message)
            (deframeNext_yields_eof hs body _))

/-- What a body is decoded to. -/
theorem deframeDecode_eq_responseItems (hs : Stable F.deframe)
    (body : List (Except String Bytes)) :
    deframeDecode F codec body = .ofList (responseItems hs codec body []) :=
  (responseItems_yielded hs body []).unfold_eq

/-! ### Bodies that are buffered whole -/

/-- The items of a body and of a buffer before it. -/
abbrev itemsFrom (hs : Stable F.deframe) (codec : Codec T) (body : List (Except String Bytes))
    (buf : Bytes) : List (Except String T) :=
  bodyItems hs codec (failureOf body) ((itemDecoder hs codec false).feed (chunksOf body) buf)

/-- What the decoder takes off a buffer are its frames. -/
theorem drain_itemDecoder (hs : Stable F.deframe) (buf : Bytes) :
    (itemDecoder hs codec false).drain buf
      = ((F.frames buf).map codec.mimeUnrender, .ok (F.unfinished buf)) := by
  induction buf using frames_induction hs with
  | none buf h =>
      have hmore : (itemDecoder hs codec false).next buf = .more :=
        congrArg (foundItem codec) h
      rw [Decoder.drain_of_more hmore, frames_of_none h, unfinished_of_none h, List.map_nil]
  | some buf frame rest h ih =>
      have hitem : (itemDecoder hs codec false).next buf = .item (codec.mimeUnrender frame) rest :=
        congrArg (foundItem codec) h
      rw [Decoder.drain_of_item hitem, ih, frames_of_some hs h, unfinished_of_some hs h,
        List.map_cons]

/-- **A body within the limit is the feeding of a decoder.** -/
theorem responseItems_eq_itemsFrom (hs : Stable F.deframe) (body : List (Except String Bytes))
    (buf : Bytes) (hle : buf.length + (chunksOf body).flatten.length ≤ MAX_STREAM_FRAME_BYTES) :
    responseItems hs codec body buf = itemsFrom hs codec body buf := by
  induction body generalizing buf with
  | nil => rw [responseItems, itemsFrom, chunksOf, Decoder.feed, drain_itemDecoder]; rfl
  | cons received body ih =>
      cases received with
      | ok chunk =>
          rw [chunksOf, List.flatten_cons, List.length_append] at hle
          have hrest := length_unfinished_le hs buf
          have hlen : (F.unfinished buf ++ chunk).length ≤ buf.length + chunk.length := by
            rw [List.length_append]
            omega
          rw [responseItems, if_neg (by omega), ih _ (by omega), itemsFrom, itemsFrom, chunksOf,
            Decoder.feed, drain_itemDecoder]
          exact (List.append_assoc _ _ _).symm
      | error message =>
          rw [responseItems, itemsFrom, chunksOf, Decoder.feed, drain_itemDecoder]
          rfl

/-- The items of a body that is short enough to be buffered are those of its bytes put together. -/
theorem deframeDecode_eq (hs : Stable F.deframe) {body : List (Except String Bytes)}
    (hle : (chunksOf body).flatten.length ≤ MAX_STREAM_FRAME_BYTES) :
    deframeDecode F codec body = .ofList (bodyItems hs codec (failureOf body)
      ((itemDecoder hs codec false).drain (chunksOf body).flatten)) := by
  rw [deframeDecode_eq_responseItems hs, responseItems_eq_itemsFrom hs body [] (by simpa using hle),
    itemsFrom, (stable_itemDecoder hs codec _).feed_eq_drain (Nat.le_refl _), List.nil_append]

/-- Items that are taken off as they were put on come back, and nothing after them. -/
theorem deframeDecode_encoded (hs : Stable F.deframe) {items : List T} {encode : T → Bytes}
    (h : ∀ x ∈ items, ∀ rest, ∃ frame, F.deframe (encode x ++ rest) false = (some frame, rest) ∧
      codec.mimeUnrender frame = .ok x)
    {chunks : List Bytes} (hchunks : chunks.flatten = items.flatMap encode)
    (hle : chunks.flatten.length ≤ MAX_STREAM_FRAME_BYTES) :
    deframeDecode F codec (chunks.map .ok) = .ofList (items.map .ok) := by
  have hnil : ∀ eof, (itemDecoder hs codec eof).next [] = .more := fun eof =>
    congrArg (foundItem codec) (deframe_nil hs eof)
  have hnext : ∀ x ∈ items, ∀ rest, (encode x ++ rest).length ≤ MAX_STREAM_FRAME_BYTES →
      (itemDecoder hs codec false).next (encode x ++ rest) = .item (.ok x) rest := by
    intro x hx rest _
    obtain ⟨frame, hframe, hu⟩ := h x hx rest
    refine (congrArg (foundItem codec) hframe).trans ?_
    rw [foundItem, hu]
  rw [deframeDecode_eq hs (by rwa [chunksOf_map_ok]), chunksOf_map_ok, failureOf_map_ok, hchunks,
    Decoder.drain_flatMap (hnil false) (hchunks ▸ hle) hnext]
  congr 1
  rw [bodyItems, ending, leftoverItems, Decoder.drain_of_more (hnil true)]
  exact List.append_nil _

end

/-- **The chunks of a response do not matter.**  The items of a body that comes in chunks are those
of the same body in one chunk, for every framing of the library. -/
theorem deframeDecode_rechunk {T : Type} {F : Framing} (hF : F ∈ builtin) (codec : Codec T)
    (chunks : List Bytes) (hle : chunks.flatten.length ≤ MAX_STREAM_FRAME_BYTES) :
    ∃ items, deframeDecode F codec (chunks.map .ok) = .ofList items ∧
      deframeDecode F codec [.ok chunks.flatten] = .ofList items := by
  have hs := stable_of_mem_builtin hF
  have hchunks := chunksOf_map_ok chunks
  have hwhole : chunksOf [.ok chunks.flatten] = [chunks.flatten] := rfl
  have hflat : [chunks.flatten].flatten = chunks.flatten := List.append_nil _
  refine ⟨bodyItems hs codec none ((itemDecoder hs codec false).drain chunks.flatten), ?_, ?_⟩
  · rw [deframeDecode_eq hs (by rwa [hchunks]), hchunks, failureOf_map_ok]
  · rw [deframeDecode_eq hs (by rwa [hwhole, hflat]), hwhole, hflat]
    rfl

/-- `2:ab,0:,` cut inside both frames. -/
theorem deframeDecode_rechunk_netstrings :
    ∃ items, deframeDecode NetstringFraming .octetStream
        ([[50, COLON], [97], [], [98, COMMA, 48], [COLON, COMMA]].map .ok) = .ofList items ∧
      deframeDecode NetstringFraming .octetStream
        [.ok [[50, COLON], [97], [], [98, COMMA, 48], [COLON, COMMA]].flatten] = .ofList items :=
  deframeDecode_rechunk (by simp [builtin]) .octetStream _ (by decide)

end ServantRs
