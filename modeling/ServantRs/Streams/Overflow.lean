import ServantRs.Streams.Client

/-!
# Streams — the limit of the client's buffer

The client looks at the length of its buffer when a chunk has come, before it takes the frames off
it.  A body that never brings the buffer over the limit is decoded frame by frame
(`responseItems_of_not_overflows`); one that does is decoded up to the chunk that does
(`responseItems_of_overflows`), whether or not a frame of it is long: `sizeLimit_iff`.
-/

namespace ServantRs

open Framing SourceStream

/-- A chunk comes that is, with what is unfinished before it, longer than the buffer may be. -/
def Overflows (F : Framing) (buf : Bytes) (chunks : List Bytes) : Prop :=
  ∃ pre chunk post, chunks = pre ++ chunk :: post ∧
    MAX_STREAM_FRAME_BYTES < (F.unfinished (buf ++ pre.flatten) ++ chunk).length

section

variable {T : Type} {F : Framing} {codec : Codec T} {buf : Bytes}

theorem not_overflows_nil : ¬ Overflows F buf [] := by
  rintro ⟨pre, chunk, post, h, -⟩
  simp at h

theorem overflows_cons (hs : Stable F.deframe) {chunk : Bytes} {chunks : List Bytes} :
    Overflows F buf (chunk :: chunks) ↔
      MAX_STREAM_FRAME_BYTES < (F.unfinished buf ++ chunk).length ∨
        Overflows F (F.unfinished buf ++ chunk) chunks := by
  have hjoin : ∀ pre : List Bytes, F.unfinished (buf ++ (chunk :: pre).flatten)
      = F.unfinished (F.unfinished buf ++ chunk ++ pre.flatten) := fun pre => by
    rw [List.flatten_cons, unfinished_append hs, List.append_assoc]
  constructor
  · rintro ⟨pre, next, post, h, hlt⟩
    cases pre with
    | nil =>
        cases h
        rw [List.flatten_nil, List.append_nil] at hlt
        exact .inl hlt
    | cons first pre =>
        cases h
        rw [hjoin] at hlt
        exact .inr ⟨pre, next, post, rfl, hlt⟩
  · rintro (hlt | ⟨pre, next, post, rfl, hlt⟩)
    · exact ⟨[], chunk, chunks, rfl, by rwa [List.flatten_nil, List.append_nil]⟩
    · exact ⟨chunk :: pre, next, post, rfl, by rwa [hjoin]⟩

/-! ### What is left at the end -/

/-- At the end the unfinished bytes are an item, or an error if there are any. -/
theorem leftoverItems_eq (hs : Stable F.deframe) (hf : Flushes F)
    (h : F.deframe buf false = (none, buf)) :
    leftoverItems hs codec buf
      = (F.deframe buf true).1.toList.map codec.mimeUnrender
        ++ incomplete (.ok (F.deframe buf true).2) := by
  rcases hf.flush h with hnone | hsome
  · have hmore : (itemDecoder hs codec true).next buf = .more :=
      congrArg (foundItem codec) hnone
    rw [leftoverItems, Decoder.drain_of_more hmore, hnone]
    rfl
  · have hitem : (itemDecoder hs codec true).next buf = .item (codec.mimeUnrender buf) [] :=
      congrArg (foundItem codec) hsome
    have hnil : (itemDecoder hs codec true).next [] = .more :=
      congrArg (foundItem codec) (deframe_nil hs true)
    rw [leftoverItems, Decoder.drain_of_item hitem, Decoder.drain_of_more hnil, hsome]
    rfl

theorem leftoverItems_eq_nil_iff (hs : Stable F.deframe) (hf : Flushes F)
    (h : F.deframe buf false = (none, buf)) : leftoverItems hs codec buf = [] ↔ buf = [] := by
  constructor
  · intro hitems
    rw [leftoverItems_eq hs hf h] at hitems
    rcases hf.flush h with hnone | hsome
    · rw [hnone] at hitems
      cases buf with
      | nil => rfl
      | cons b buf => cases hitems
    · rw [hsome] at hitems
      cases hitems
  · rintro rfl
    rw [leftoverItems_eq hs hf h, deframe_nil hs true]
    rfl

/-! ### Both kinds of bodies -/

theorem responseItems_of_not_overflows (hs : Stable F.deframe)
    {body : List (Except String Bytes)} (h : ¬ Overflows F buf (chunksOf body)) :
    responseItems hs codec body buf
      = (F.frames (buf ++ (chunksOf body).flatten)).map codec.mimeUnrender
        ++ ((failureOf body).toList.map .error
          ++ leftoverItems hs codec (F.unfinished (buf ++ (chunksOf body).flatten))) := by
  induction body generalizing buf with
  | nil =>
      rw [chunksOf, List.flatten_nil, List.append_nil]
      rfl
  | cons received body ih =>
      cases received with
      | ok chunk =>
          -- the frames of all bytes are those of the buffer, then those behind them
          rw [chunksOf, overflows_cons hs, not_or] at h
          rw [responseItems, if_neg h.1, ih h.2, chunksOf, List.flatten_cons, frames_append hs buf,
            unfinished_append hs buf, List.append_assoc, List.map_append, List.append_assoc]
          rfl
      | error message =>
          rw [chunksOf, List.flatten_nil, List.append_nil]
          rfl

/-- The items of the frames that came before the chunk, and no more. -/
theorem responseItems_of_overflows (hs : Stable F.deframe) (codec : Codec T)
    {body : List (Except String Bytes)} (h : Overflows F buf (chunksOf body)) :
    ∃ before after, F.frames (buf ++ (chunksOf body).flatten) = before ++ after ∧
      responseItems hs codec body buf = before.map codec.mimeUnrender
        ++ [.error "streaming response frame exceeded size limit"] := by
  induction body generalizing buf with
  | nil => exact absurd h not_overflows_nil
  | cons received body ih =>
      cases received with
      | error message => exact absurd h not_overflows_nil
      | ok chunk =>
          rw [chunksOf, List.flatten_cons, frames_append hs, ← List.append_assoc]
          by_cases hlt : MAX_STREAM_FRAME_BYTES < (F.unfinished buf ++ chunk).length
          · exact ⟨_, _, rfl, by rw [responseItems, if_pos hlt]⟩
          · have hrest := ((overflows_cons hs).mp h).resolve_left hlt
            obtain ⟨before, after, hframes, hitems⟩ := ih hrest
            refine ⟨F.frames buf ++ before, after, ?_, ?_⟩
            · rw [hframes, List.append_assoc]
            · rw [responseItems, if_neg hlt, hitems, List.map_append, List.append_assoc]

end

/-! ### Every frame -/

/-- Each frame of a body is yielded as an item, and no frame is said to be too long. -/
structure YieldsEveryFrame {T : Type} (F : Framing) (codec : Codec T) (chunks : List Bytes) :
    Prop where
  item : ∀ {n frame}, (F.bodyFrames chunks.flatten)[n]? = some frame →
    deframeDecode F codec (chunks.map .ok) n = some (codec.mimeUnrender frame)
  noLimit : ∀ {n}, (F.bodyFrames chunks.flatten).length ≤ n →
    deframeDecode F codec (chunks.map .ok) n
      ≠ some (.error "streaming response frame exceeded size limit")

section

variable {F : Framing} {chunks : List Bytes}

/-- A body that stays within the buffer is decoded frame by frame. -/
theorem deframeDecode_of_not_overflows {T : Type} {codec : Codec T} (hs : Stable F.deframe)
    (hf : Flushes F) (h : ¬ Overflows F [] chunks) :
    deframeDecode F codec (chunks.map .ok) = .ofList
      ((F.bodyFrames chunks.flatten).map codec.mimeUnrender
        ++ incomplete (.ok (F.incompleteBytes chunks.flatten))) := by
  rw [← chunksOf_map_ok chunks] at h
  rw [deframeDecode_eq_responseItems hs, responseItems_of_not_overflows hs h, chunksOf_map_ok,
    failureOf_map_ok, List.nil_append, leftoverItems_eq hs hf (deframe_unfinished hs _),
    bodyFrames, List.map_append, List.append_assoc]
  rfl

theorem yieldsEveryFrame_of_not_overflows {T : Type} {codec : Codec T} (hs : Stable F.deframe)
    (hf : Flushes F) (h : ¬ Overflows F [] chunks) : YieldsEveryFrame F codec chunks where
  item {n frame} hframe := by
    have hlt : n < (F.bodyFrames chunks.flatten).length := (List.getElem?_eq_some_iff.mp hframe).1
    rw [deframeDecode_of_not_overflows hs hf h, ofList,
      List.getElem?_append_left (by rwa [List.length_map]), List.getElem?_map, hframe]
    rfl
  noLimit {n} hle hlimit := by
    rw [deframeDecode_of_not_overflows hs hf h, ofList,
      List.getElem?_append_right (by rwa [List.length_map])] at hlimit
    -- at the end there is at most the error of an incomplete frame
    have hmem := List.mem_of_getElem? hlimit
    cases hrest : F.incompleteBytes chunks.flatten with
    | nil =>
        rw [hrest] at hmem
        cases hmem
    | cons b rest =>
        rw [hrest] at hmem
        simp [incomplete] at hmem

theorem not_yieldsEveryFrame_of_overflows (hs : Stable F.deframe) (h : Overflows F [] chunks) :
    ¬ YieldsEveryFrame F .octetStream chunks := by
  intro hall
  rw [← chunksOf_map_ok chunks] at h
  obtain ⟨before, after, -, hitems⟩ := responseItems_of_overflows hs .octetStream h
  have hlimit : deframeDecode F .octetStream (chunks.map .ok) before.length
      = some (.error "streaming response frame exceeded size limit") := by
    rw [deframeDecode_eq_responseItems hs, hitems, ofList,
      List.getElem?_append_right (Nat.le_of_eq (List.length_map _)), List.length_map, Nat.sub_self]
    rfl
  cases hn : (F.bodyFrames chunks.flatten)[before.length]? with
  | none => exact hall.noLimit (List.getElem?_eq_none_iff.mp hn) hlimit
  | some frame =>
      rw [hall.item hn] at hlimit
      cases hlimit

end

/-- **The limit stops bodies, not frames.**  Every frame of a body is yielded exactly when no chunk
brings the buffer over its limit. -/
theorem sizeLimit_iff {F : Framing} (hF : F ∈ builtin) (chunks : List Bytes) :
    (∀ (T : Type) (codec : Codec T), YieldsEveryFrame F codec chunks)
      ↔ ¬ Overflows F [] chunks := by
  have hs := stable_of_mem_builtin hF
  refine ⟨fun hall h => not_yieldsEveryFrame_of_overflows hs h (hall _ _), fun h T codec => ?_⟩
  exact yieldsEveryFrame_of_not_overflows hs (flushes_of_mem_builtin hF) h

/-- `2:ab,`, in two chunks. -/
theorem sizeLimit_iff_netstring :
    (∀ (T : Type) (codec : Codec T),
      YieldsEveryFrame NetstringFraming codec [[50, COLON, 97], [98, COMMA]])
      ↔ ¬ Overflows NetstringFraming [] [[50, COLON, 97], [98, COMMA]] :=
  sizeLimit_iff (by simp [builtin]) _

theorem framesWithin_newlines {max : Nat} (hmax : 1 ≤ max) (n : Nat) :
    FramesWithin NewlineFraming max (List.replicate n LF) := by
  induction n with
  | zero => exact .unfinished (deframe_nil NewlineFraming.stable false) (Nat.zero_le _)
  | succ n ih =>
      have hframe := NewlineFraming.deframe_append List.not_mem_nil (List.replicate n LF) false
      refine .frame hframe ?_ ih
      rw [List.length_replicate, List.length_replicate]
      omega

/-- One chunk of more empty lines than the limit has bytes: each frame is one byte long, and the
first thing that is said is that a frame is too long. -/
theorem sizeLimit_newlines :
    FramesWithin NewlineFraming MAX_STREAM_FRAME_BYTES
        (List.replicate (MAX_STREAM_FRAME_BYTES + 1) LF) ∧
      ¬ ∀ (T : Type) (codec : Codec T),
        YieldsEveryFrame NewlineFraming codec [List.replicate (MAX_STREAM_FRAME_BYTES + 1) LF] := by
  have hoverflows : Overflows NewlineFraming []
      [List.replicate (MAX_STREAM_FRAME_BYTES + 1) LF] := by
    refine ⟨[], _, [], rfl, ?_⟩
    rw [List.length_append, List.length_replicate]
    omega
  exact ⟨framesWithin_newlines (by decide) _,
    fun hall => not_yieldsEveryFrame_of_overflows NewlineFraming.stable hoverflows (hall _ _)⟩

end ServantRs
