import ServantRs.Streams.Encode
import ServantRs.Streams.Events
import ServantRs.Streams.Overflow

/-!
# Streams — long responses in small pieces

The limit of the client's buffer counts what is unfinished and the chunk that comes.  What is
unfinished of a body of frames is less than one of them, so a body as long as it may be is decoded
to its items when a frame and a chunk together fit (`deframeDecode_pieces`).

`Codec.Streams`: items whose frames are taken off as they were put on.
-/

namespace ServantRs

open Framing SourceStream

section

variable {T : Type} {F : Framing} {codec : Codec T}

/-- An item that is rendered, framed, taken off and read again. -/
def Codec.Streams (F : Framing) (codec : Codec T) (item : T) : Prop :=
  ∃ rendered frame, codec.mimeRender item = .ok rendered ∧
    F.deframe (F.frame rendered) false = (some frame, []) ∧ codec.mimeUnrender frame = .ok item

/-- The frame of an item is taken off the front of a buffer. -/
theorem Codec.Streams.front (hs : Stable F.deframe) {item : T} (h : codec.Streams F item) :
    ∃ frame, codec.mimeUnrender frame = .ok item ∧ ∀ rest,
      F.deframe (encodeItem F codec item ++ rest) false = (some frame, rest) := by
  obtain ⟨rendered, frame, hrender, hframe, hread⟩ := h
  refine ⟨frame, hread, fun rest => ?_⟩
  rw [encodeItem, hrender]
  exact hs.append hframe

/-- The frames of a body of items. -/
theorem frames_encoded (hs : Stable F.deframe) : ∀ {items : List T},
    (∀ x ∈ items, codec.Streams F x) →
      (F.frames (items.flatMap (encodeItem F codec))).map codec.mimeUnrender = items.map .ok ∧
        F.unfinished (items.flatMap (encodeItem F codec)) = []
  | [], _ => by
      have hnil := deframe_nil hs false
      rw [List.flatMap_nil, frames_of_none hnil, unfinished_of_none hnil]
      exact ⟨rfl, rfl⟩
  | x :: items, h => by
      obtain ⟨hx, hitems⟩ := List.forall_mem_cons.mp h
      obtain ⟨frame, hread, hfront⟩ := hx.front hs
      obtain ⟨hframes, hunfinished⟩ := frames_encoded hs hitems
      have hd := hfront (items.flatMap (encodeItem F codec))
      rw [List.flatMap_cons, frames_of_some hs hd, unfinished_of_some hs hd, List.map_cons, hread,
        hframes, hunfinished]
      exact ⟨rfl, rfl⟩

/-- **What is unfinished is less than a frame**, wherever a body of items is cut. -/
theorem length_unfinished_prefix (hs : Stable F.deframe) {max : Nat} : ∀ {items : List T}
    {pre post : Bytes}, (∀ x ∈ items, codec.Streams F x) →
      (∀ x ∈ items, (encodeItem F codec x).length ≤ max) →
      pre ++ post = items.flatMap (encodeItem F codec) → (F.unfinished pre).length ≤ max
  | [], pre, post, _, _, hcut => by
      rw [List.flatMap_nil, List.append_eq_nil_iff] at hcut
      have hle := length_unfinished_le hs pre
      rw [hcut.1, List.length_nil] at hle
      rw [hcut.1]
      omega
  | x :: items, pre, post, h, hle, hcut => by
      obtain ⟨hx, hitems⟩ := List.forall_mem_cons.mp h
      obtain ⟨hlex, hleitems⟩ := List.forall_mem_cons.mp hle
      obtain ⟨frame, -, hfront⟩ := hx.front hs
      rw [List.flatMap_cons, List.append_eq_append_iff] at hcut
      rcases hcut with ⟨rest, hpre, hpost⟩ | ⟨rest, hpre, hpost⟩
      -- the cut is in the first frame, or at its end
      · have hshort := length_unfinished_le hs pre
        rw [hpre, List.length_append] at hlex
        omega
      -- the first frame is taken off, and the cut is behind it
      · rw [hpre, unfinished_of_some hs (hfront rest)]
        exact length_unfinished_prefix hs hitems hleitems hpost.symm

/-- A body of items does not outgrow the buffer when a frame and a chunk of it fit together. -/
theorem not_overflows_encoded (hs : Stable F.deframe) {items : List T} {chunks : List Bytes}
    {max piece : Nat} (h : ∀ x ∈ items, codec.Streams F x)
    (hle : ∀ x ∈ items, (encodeItem F codec x).length ≤ max)
    (hpiece : ∀ chunk ∈ chunks, chunk.length ≤ piece)
    (hfits : max + piece ≤ MAX_STREAM_FRAME_BYTES)
    (hchunks : chunks.flatten = items.flatMap (encodeItem F codec)) : ¬ Overflows F [] chunks := by
  rintro ⟨pre, chunk, post, rfl, hlt⟩
  rw [List.flatten_append] at hchunks
  have hunfinished := length_unfinished_prefix hs h hle hchunks
  have hchunk := hpiece chunk (by simp)
  rw [List.nil_append, List.length_append] at hlt
  omega

/-- **A body of items is decoded to the items**, however long it is. -/
theorem deframeDecode_pieces (hs : Stable F.deframe) (hf : Flushes F) {items : List T}
    {chunks : List Bytes} {max piece : Nat} (h : ∀ x ∈ items, codec.Streams F x)
    (hle : ∀ x ∈ items, (encodeItem F codec x).length ≤ max)
    (hpiece : ∀ chunk ∈ chunks, chunk.length ≤ piece)
    (hfits : max + piece ≤ MAX_STREAM_FRAME_BYTES)
    (hchunks : chunks.flatten = items.flatMap (encodeItem F codec)) :
    deframeDecode F codec (chunks.map .ok) = .ofList (items.map .ok) := by
  have hover : ¬ Overflows F [] (chunksOf (chunks.map .ok)) := by
    rw [chunksOf_map_ok]
    exact not_overflows_encoded hs h hle hpiece hfits hchunks
  obtain ⟨hframes, hunfinished⟩ := frames_encoded hs h
  have hnil : leftoverItems hs codec [] = [] :=
    (leftoverItems_eq_nil_iff hs hf (deframe_nil hs false)).mpr rfl
  rw [deframeDecode_eq_responseItems hs, responseItems_of_not_overflows hs hover, chunksOf_map_ok,
    failureOf_map_ok, List.nil_append, hchunks, hframes, hunfinished, hnil]
  rw [Option.toList_none, List.map_nil, List.nil_append, List.append_nil]

end

/-! ### The framings of the library -/

section

variable {T : Type} {codec : Codec T} {item : T}

/-- Items rendered without a newline stream line by line. -/
theorem Codec.RoundTrips.streams_newline (h : codec.RoundTrips (LF ∉ ·) item) :
    codec.Streams NewlineFraming item := by
  obtain ⟨rendered, hrender, hlf, hread⟩ := h
  exact ⟨rendered, rendered, hrender, NewlineFraming.deframe_append hlf [] false, hread⟩

/-- Readable events stream as server-sent events. -/
theorem ServerEvent.streams {e : ServerEvent} (h : e.Readable) :
    ServerEvent.codec.Streams EventStreamFraming e := by
  refine ⟨e.block, _, e.mimeRender_eq_block, ?_, ServerEvent.mimeUnrender_fieldLines h⟩
  have hblock := ServerEvent.deframe_block h [] false
  rwa [List.append_nil] at hblock

end

end ServantRs
