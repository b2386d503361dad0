import ServantRs.Core.Union
import ServantRs.Streams.Overflow

/-!
# Streams — a response taken apart at once

A streaming arm of a union is decoded from a body that was buffered whole.  Its two loops take the
frames of the body, as the incremental client does, and stop: each frame shortens the buffer
(`deframeAll_enough`).  The items are the client's, unless one of them is an error:
`decodeStreamArm_agrees`.
-/

namespace ServantRs

open Framing SourceStream

/-- A list of computations succeeds when each of them does. -/
theorem mapM_eq_ok_iff {A B : Type} {f : A → Except String B} {l : List A} {items : List B} :
    l.mapM f = .ok items ↔ l.map f = items.map .ok := by
  induction l generalizing items with
  | nil => cases items <;> simp [pure, Except.pure]
  | cons a l ih =>
      rw [List.mapM_cons, List.map_cons]
      cases ha : f a with
      | error e => cases items <;> simp [bind, Except.bind]
      | ok b =>
          cases hl : l.mapM f with
          | error e =>
              have hne : ∀ items : List B, l.map f ≠ items.map .ok := fun items h => by
                rw [ih.mpr h] at hl
                cases hl
              cases items with
              | nil => simp [bind, Except.bind]
              | cons item items => simp [bind, Except.bind, hne items]
          | ok bs =>
              cases items with
              | nil => simp [bind, Except.bind, pure, Except.pure]
              | cons item items =>
                  have hiff : bs = items ↔ l.map f = items.map .ok := by
                    rw [← ih, hl, Except.ok.injEq]
                  simp [bind, Except.bind, pure, Except.pure, hiff]

section

variable {T : Type} {F : Framing} {codec : Codec T} {buf : Bytes} {eof : Bool}

/-! ### The loops -/

/-- A loop takes no more frames than there are bytes. -/
theorem deframeAll_enough (hs : Stable F.deframe) {n m : Nat} (hn : buf.length < n)
    (hm : buf.length < m) : deframeAll F codec eof n buf = deframeAll F codec eof m buf := by
  induction n generalizing m buf with
  | zero => exact absurd hn (Nat.not_lt_zero _)
  | succ n ih =>
      obtain ⟨m, rfl⟩ : ∃ k, m = k + 1 := ⟨m - 1, by omega⟩
      rw [deframeAll, deframeAll]
      rcases h : F.deframe buf eof with ⟨_ | frame, rest⟩
      · rfl
      · have hlt := hs.shrinks h
        have hrest : deframeAll F codec eof n rest = deframeAll F codec eof m rest :=
          ih (by omega) (by omega)
        simp only [hrest]

/-- A loop that came to its end left no frame. -/
theorem deframe_of_deframeAll (hs : Stable F.deframe) {n : Nat} (hn : buf.length < n)
    {items : List T} {rest : Bytes} (h : deframeAll F codec eof n buf = .ok (items, rest)) :
    F.deframe rest eof = (none, rest) := by
  induction n generalizing buf items with
  | zero => exact absurd hn (Nat.not_lt_zero _)
  | succ n ih =>
      rw [deframeAll] at h
      rcases hd : F.deframe buf eof with ⟨_ | frame, buf'⟩
      · rw [hd] at h
        obtain rfl := hs.rest_of_none hd
        cases h
        exact hd
      · have hlt := hs.shrinks hd
        rw [hd] at h
        cases hu : codec.mimeUnrender frame with
        | error e =>
            simp only [hu] at h
            cases h
        | ok item =>
            cases hrest : deframeAll F codec eof n buf' with
            | error e =>
                simp only [hu, hrest] at h
                cases h
            | ok found =>
                simp only [hu, hrest] at h
                cases h
                exact ih (by omega) hrest

/-- The first loop decodes the complete frames. -/
theorem deframeAll_frames (hs : Stable F.deframe) {n : Nat} (hn : buf.length < n) :
    deframeAll F codec false n buf = (do
      let items ← (F.frames buf).mapM codec.mimeUnrender
      pure (items, F.unfinished buf)) := by
  induction buf using frames_induction hs generalizing n with
  | none buf h =>
      obtain ⟨n, rfl⟩ : ∃ k, n = k + 1 := ⟨n - 1, by omega⟩
      rw [deframeAll, h, frames_of_none h, unfinished_of_none h]
      rfl
  | some buf frame rest h ih =>
      have hlt := hs.shrinks h
      obtain ⟨n, rfl⟩ : ∃ k, n = k + 1 := ⟨n - 1, by omega⟩
      rw [deframeAll, h, frames_of_some hs h, unfinished_of_some hs h, List.mapM_cons]
      show (codec.mimeUnrender frame >>= fun item =>
        deframeAll F codec false n rest >>= fun found => pure (item :: found.1, found.2)) = _
      rw [@ih n (by omega)]
      simp only [bind_assoc, pure_bind]

/-- The second loop decodes what is flushed at the end. -/
theorem deframeAll_flush (hs : Stable F.deframe) (hf : Flushes F)
    (h : F.deframe buf false = (none, buf)) {n : Nat} (hn : buf.length < n) :
    deframeAll F codec true n buf = (do
      let items ← (F.deframe buf true).1.toList.mapM codec.mimeUnrender
      pure (items, (F.deframe buf true).2)) := by
  obtain ⟨n, rfl⟩ : ∃ k, n = k + 1 := ⟨n - 1, by omega⟩
  rcases hf.flush h with hnone | hsome
  · rw [deframeAll, hnone]
    rfl
  · have hlt := hs.shrinks hsome
    have hend : deframeAll F codec true n [] = .ok ([], []) := by
      cases n with
      | zero => rfl
      | succ n => rw [deframeAll, deframe_nil hs true]
    rw [deframeAll, hsome]
    simp only [hend, Option.toList_some, List.mapM_cons, List.mapM_nil, bind_assoc, pure_bind]
    rfl

/-- The arm decodes the frames of the body. -/
theorem decodeStreamArm_eq (hs : Stable F.deframe) (hf : Flushes F) {ct : Option Mime}
    {mime : Mime} (hct : ensureFixedMedia codec.toMediaType ct = .ok mime) :
    decodeStreamArm F codec ct buf = (do
      let items ← (F.bodyFrames buf).mapM codec.mimeUnrender
      if F.incompleteBytes buf ≠ [] then .error "incomplete streaming response frame"
      pure (.ofList items)) := by
  rw [decodeStreamArm, deframeAll_frames hs (Nat.lt_succ_self _), bodyFrames, List.mapM_append]
  simp only [bind_assoc, pure_bind]
  congr 1
  funext items
  rw [deframeAll_flush hs hf (deframe_unfinished hs buf) (Nat.lt_succ_self _)]
  simp only [bind_assoc, pure_bind, hct]
  rfl

end

/-! ### The incremental client -/

theorem not_overflows_of_length_le {F : Framing} (hs : Stable F.deframe) {buf : Bytes}
    {chunks : List Bytes} (hle : (buf ++ chunks.flatten).length ≤ MAX_STREAM_FRAME_BYTES) :
    ¬ Overflows F buf chunks := by
  rintro ⟨pre, chunk, post, rfl, hlt⟩
  have hrest := length_unfinished_le hs (buf ++ pre.flatten)
  simp only [List.flatten_append, List.flatten_cons, List.length_append] at hle hrest hlt
  omega

/-- A list without an error is a list of values. -/
theorem exists_map_ok {A : Type} {l : List (Except String A)} (h : ∀ e, .error e ∉ l) :
    ∃ items : List A, l = items.map .ok := by
  induction l with
  | nil => exact ⟨[], rfl⟩
  | cons x l ih =>
      obtain ⟨items, rfl⟩ := ih fun e he => h e (List.mem_cons_of_mem _ he)
      cases x with
      | error e => exact absurd List.mem_cons_self (h e)
      | ok item => exact ⟨item :: items, rfl⟩

section

variable {T : Type} {F : Framing} {codec : Codec T} {ct : Option Mime} {mime : Mime}
  {body : Bytes} {s : SourceStream T}

/-- The arm is decoded when every frame is, and no bytes are left. -/
theorem decodeStreamArm_eq_ok_iff (hs : Stable F.deframe) (hf : Flushes F)
    (hct : ensureFixedMedia codec.toMediaType ct = .ok mime) :
    decodeStreamArm F codec ct body = .ok s ↔ ∃ items : List T,
      (F.bodyFrames body).map codec.mimeUnrender = items.map .ok ∧ F.incompleteBytes body = [] ∧
        s = .ofList items := by
  rw [decodeStreamArm_eq hs hf hct]
  constructor
  · intro h
    cases hitems : (F.bodyFrames body).mapM codec.mimeUnrender with
    | error e =>
        rw [hitems] at h
        cases h
    | ok items =>
        rw [hitems] at h
        by_cases hrest : F.incompleteBytes body = []
        · rw [hrest] at h
          cases h
          exact ⟨items, mapM_eq_ok_iff.mp hitems, hrest, rfl⟩
        · simp only [ne_eq, hrest, not_false_eq_true, if_true] at h
          cases h
  · rintro ⟨items, hitems, hrest, rfl⟩
    rw [mapM_eq_ok_iff.mpr hitems, hrest]
    rfl

theorem decodeStreamArm_items (hs : Stable F.deframe) (hf : Flushes F)
    (hct : ensureFixedMedia codec.toMediaType ct = .ok mime) {chunks : List Bytes}
    (hover : ¬ Overflows F [] chunks)
    (h : decodeStreamArm F codec ct chunks.flatten = .ok s) :
    deframeDecode F codec (chunks.map .ok) = s.map .ok := by
  obtain ⟨items, hitems, hrest, rfl⟩ := (decodeStreamArm_eq_ok_iff hs hf hct).mp h
  rw [deframeDecode_of_not_overflows hs hf hover, hitems, hrest, map_ofList]
  exact congrArg ofList (List.append_nil _)

/-- Where the client yields no error, the arm is decoded. -/
theorem decodeStreamArm_of_no_error (hs : Stable F.deframe) (hf : Flushes F)
    (hct : ensureFixedMedia codec.toMediaType ct = .ok mime) {chunks : List Bytes}
    (hover : ¬ Overflows F [] chunks)
    (h : ∀ n e, deframeDecode F codec (chunks.map .ok) n ≠ some (.error e)) :
    ∃ s, decodeStreamArm F codec ct chunks.flatten = .ok s := by
  have hmem : ∀ e, .error e ∉ (F.bodyFrames chunks.flatten).map codec.mimeUnrender
      ++ incomplete (.ok (F.incompleteBytes chunks.flatten)) := by
    intro e he
    obtain ⟨n, hn⟩ := List.mem_iff_getElem?.mp he
    rw [deframeDecode_of_not_overflows hs hf hover] at h
    exact h n e hn
  obtain ⟨items, hitems⟩ := exists_map_ok fun e he => hmem e (List.mem_append_left _ he)
  cases hrest : F.incompleteBytes chunks.flatten with
  | nil => exact ⟨_, (decodeStreamArm_eq_ok_iff hs hf hct).mpr ⟨items, hitems, hrest, rfl⟩⟩
  | cons b rest =>
      rw [hrest] at hmem
      exact absurd (List.mem_append_right _ List.mem_cons_self) (hmem _)

end

/-- **Decoding a body at once and as it comes agree.**  A frame shortens the buffer, so that both
loops end, with no frame left; a body within the client's limit is decoded at once exactly when the
client yields no error from it, in whatever chunks, and then to the same items. -/
theorem decodeStreamArm_agrees {T : Type} {F : Framing} (hF : F ∈ builtin) (codec : Codec T)
    {ct : Option Mime} {mime : Mime} (hct : ensureFixedMedia codec.toMediaType ct = .ok mime)
    {chunks : List Bytes} (hle : chunks.flatten.length ≤ MAX_STREAM_FRAME_BYTES) :
    (∀ buf eof frame rest, F.deframe buf eof = (some frame, rest) → rest.length < buf.length) ∧
    (∀ eof n buf, buf.length < n →
      deframeAll F codec eof n buf = deframeAll F codec eof (buf.length + 1) buf ∧
      ∀ items rest, deframeAll F codec eof n buf = .ok (items, rest) →
        F.deframe rest eof = (none, rest)) ∧
    ((∃ s, decodeStreamArm F codec ct chunks.flatten = .ok s) ↔
      ∀ n e, deframeDecode F codec (chunks.map .ok) n ≠ some (.error e)) ∧
    ∀ s, decodeStreamArm F codec ct chunks.flatten = .ok s →
      deframeDecode F codec (chunks.map .ok) = s.map .ok := by
  have hs := stable_of_mem_builtin hF
  have hf := flushes_of_mem_builtin hF
  have hover : ¬ Overflows F [] chunks := not_overflows_of_length_le hs hle
  refine ⟨fun _ _ _ _ h => hs.shrinks h, fun eof n buf hn => ⟨?_, fun items rest h => ?_⟩, ⟨?_, ?_⟩,
    fun s h => decodeStreamArm_items hs hf hct hover h⟩
  · exact deframeAll_enough hs hn (Nat.lt_succ_self _)
  · exact deframe_of_deframeAll hs hn h
  · rintro ⟨s, h⟩ n e he
    rw [decodeStreamArm_items hs hf hct hover h, SourceStream.map] at he
    obtain ⟨item, -, hitem⟩ := Option.map_eq_some_iff.mp he
    cases hitem
  · exact decodeStreamArm_of_no_error hs hf hct hover

/-- Two netstrings, a chunk each. -/
theorem decodeStreamArm_agrees_netstrings :
    (∃ s, decodeStreamArm NetstringFraming .octetStream none
        [[49, COLON, 97, COMMA], [49, COLON, 98, COMMA]].flatten = .ok s) ↔
      ∀ n e, deframeDecode NetstringFraming .octetStream
        ([[49, COLON, 97, COMMA], [49, COLON, 98, COMMA]].map .ok) n ≠ some (.error e) := by
  have h := decodeStreamArm_agrees (show NetstringFraming ∈ builtin by simp [builtin]) .octetStream
    (show ensureFixedMedia Codec.octetStream.toMediaType none = .ok .APPLICATION_OCTET_STREAM from rfl)
    (show [[49, COLON, 97, COMMA], [49, COLON, 98, COMMA]].flatten.length
      ≤ MAX_STREAM_FRAME_BYTES by decide)
  exact h.2.2.1

end ServantRs
