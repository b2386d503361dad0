import ServantRs.Streams.Framings

/-!
# Streams — the frames of a buffer

`frames` are the complete frames at the front of a buffer, and `unfinished` the bytes behind them.
With a stable framing both go on where they stopped when more bytes come (`frames_append`,
`unfinished_append`), so the frames of a body do not depend on its chunks.  At the end of a body
the unfinished bytes are a frame more, or none at all (`Flushes`).
-/

namespace ServantRs

namespace Framing

/-- The complete frames at the front of a buffer, `n` of them at most, and what is left of it. -/
def takeFrames (F : Framing) : Nat → Bytes → List Bytes × Bytes
  | 0, buf => ([], buf)
  | n + 1, buf =>
    match F.deframe buf false with
    | (some frame, rest) => (frame :: (takeFrames F n rest).1, (takeFrames F n rest).2)
    | (none, _)          => ([], buf)

/-- The complete frames at the front of a buffer, which has no more of them than bytes. -/
def frames (F : Framing) (buf : Bytes) : List Bytes := (F.takeFrames buf.length buf).1

/-- The bytes behind the complete frames. -/
def unfinished (F : Framing) (buf : Bytes) : Bytes := (F.takeFrames buf.length buf).2

variable {F : Framing} {buf rest frame : Bytes}

/-- No frame is taken off an empty buffer. -/
theorem deframe_nil (hs : Stable F.deframe) (eof : Bool) : F.deframe [] eof = (none, []) := by
  rcases h : F.deframe [] eof with ⟨_ | frame, rest⟩
  · rw [hs.rest_of_none h]
  · exact absurd (hs.shrinks h) (Nat.not_lt_zero _)

theorem takeFrames_of_none (h : F.deframe buf false = (none, rest)) (n : Nat) :
    F.takeFrames n buf = ([], buf) := by
  cases n with
  | zero => rfl
  | succ n => rw [takeFrames, h]

/-- Taking more frames than there are bytes takes no more of them. -/
theorem takeFrames_enough (hs : Stable F.deframe) {n m : Nat} (hn : buf.length ≤ n)
    (hm : buf.length ≤ m) : F.takeFrames n buf = F.takeFrames m buf := by
  induction n generalizing m buf with
  | zero =>
      obtain rfl := List.length_eq_zero_iff.mp (Nat.le_zero.mp hn)
      rw [takeFrames_of_none (deframe_nil hs false), takeFrames_of_none (deframe_nil hs false)]
  | succ n ih =>
      rcases h : F.deframe buf false with ⟨_ | frame, rest⟩
      · rw [takeFrames_of_none h, takeFrames_of_none h]
      · have hlt := hs.shrinks h
        obtain ⟨m, rfl⟩ : ∃ k, m = k + 1 := ⟨m - 1, by omega⟩
        rw [takeFrames, takeFrames, h]
        show (frame :: (F.takeFrames n rest).1, _) = (frame :: (F.takeFrames m rest).1, _)
        rw [@ih rest m (by omega) (by omega)]

/-! ### A buffer by its frames -/

theorem frames_of_none (h : F.deframe buf false = (none, rest)) : F.frames buf = [] := by
  rw [frames, takeFrames_of_none h]

theorem unfinished_of_none (h : F.deframe buf false = (none, rest)) : F.unfinished buf = buf := by
  rw [unfinished, takeFrames_of_none h]

theorem takeFrames_of_some (hs : Stable F.deframe)
    (h : F.deframe buf false = (some frame, rest)) :
    F.takeFrames buf.length buf = (frame :: F.frames rest, F.unfinished rest) := by
  have hlt := hs.shrinks h
  obtain ⟨n, hn⟩ : ∃ n, buf.length = n + 1 := ⟨buf.length - 1, by omega⟩
  rw [hn, takeFrames, h]
  show (frame :: (F.takeFrames n rest).1, _) = _
  rw [takeFrames_enough hs (by omega : rest.length ≤ n) (Nat.le_refl _)]
  rfl

theorem frames_of_some (hs : Stable F.deframe) (h : F.deframe buf false = (some frame, rest)) :
    F.frames buf = frame :: F.frames rest := by
  rw [frames, takeFrames_of_some hs h]

theorem unfinished_of_some (hs : Stable F.deframe)
    (h : F.deframe buf false = (some frame, rest)) : F.unfinished buf = F.unfinished rest := by
  rw [unfinished, takeFrames_of_some hs h]

/-- A buffer, frame by frame. -/
theorem frames_induction (hs : Stable F.deframe) {P : Bytes → Prop}
    (none : ∀ buf, F.deframe buf false = (none, buf) → P buf)
    (some : ∀ buf frame rest, F.deframe buf false = (some frame, rest) → P rest → P buf)
    (buf : Bytes) : P buf := by
  induction hn : buf.length using Nat.strongRecOn generalizing buf with
  | _ n ih =>
      subst hn
      rcases h : F.deframe buf false with ⟨_ | frame, rest⟩
      · obtain rfl := hs.rest_of_none h
        exact none _ h
      · exact some buf frame rest h (ih _ (hs.shrinks h) rest rfl)

/-- What is left holds no complete frame. -/
theorem deframe_unfinished (hs : Stable F.deframe) (buf : Bytes) :
    F.deframe (F.unfinished buf) false = (none, F.unfinished buf) := by
  induction buf using frames_induction hs with
  | none buf h => rwa [unfinished_of_none h]
  | some buf frame rest h ih => rwa [unfinished_of_some hs h]

theorem length_unfinished_le (hs : Stable F.deframe) (buf : Bytes) :
    (F.unfinished buf).length ≤ buf.length := by
  induction buf using frames_induction hs with
  | none buf h => rw [unfinished_of_none h]
  | some buf frame rest h ih =>
      have hlt := hs.shrinks h
      rw [unfinished_of_some hs h]
      omega

/-! ### More bytes -/

/-- **The frames go on where they stopped.** -/
theorem frames_append (hs : Stable F.deframe) (buf more : Bytes) :
    F.frames (buf ++ more) = F.frames buf ++ F.frames (F.unfinished buf ++ more) := by
  induction buf using frames_induction hs with
  | none buf h => rw [frames_of_none h, unfinished_of_none h, List.nil_append]
  | some buf frame rest h ih =>
      rw [frames_of_some hs (hs.append h), ih, frames_of_some hs h, unfinished_of_some hs h,
        List.cons_append]

theorem unfinished_append (hs : Stable F.deframe) (buf more : Bytes) :
    F.unfinished (buf ++ more) = F.unfinished (F.unfinished buf ++ more) := by
  induction buf using frames_induction hs with
  | none buf h => rw [unfinished_of_none h]
  | some buf frame rest h ih =>
      rw [unfinished_of_some hs (hs.append h), ih, unfinished_of_some hs h]

/-- A buffer without a frame, complete or not, is empty. -/
theorem eq_nil_of_unfinished (hframes : F.frames buf = []) (hs : Stable F.deframe)
    (hrest : F.unfinished buf = []) : buf = [] := by
  rcases h : F.deframe buf false with ⟨_ | frame, rest⟩
  · rwa [unfinished_of_none h] at hrest
  · rw [frames_of_some hs h] at hframes
    cases hframes

/-! ### The end of a body -/

/-- The frames of a whole body: what is unfinished at its end may be one. -/
def bodyFrames (F : Framing) (buf : Bytes) : List Bytes :=
  F.frames buf ++ (F.deframe (F.unfinished buf) true).1.toList

/-- The bytes of a whole body that are in no frame. -/
def incompleteBytes (F : Framing) (buf : Bytes) : Bytes := (F.deframe (F.unfinished buf) true).2

/-- The frames of a body, with their delimiters, and what is unfinished at its end are no longer
than `max`. -/
inductive FramesWithin (F : Framing) (max : Nat) : Bytes → Prop where
  | unfinished {buf : Bytes} (h : F.deframe buf false = (none, buf)) (hle : buf.length ≤ max) :
      FramesWithin F max buf
  | frame {buf frame rest : Bytes} (h : F.deframe buf false = (some frame, rest))
      (hle : buf.length ≤ rest.length + max) (t : FramesWithin F max rest) : FramesWithin F max buf

/-- What is unfinished at the end is taken whole or not at all. -/
structure Flushes (F : Framing) : Prop where
  flush : ∀ {buf}, F.deframe buf false = (none, buf) →
    F.deframe buf true = (none, buf) ∨ F.deframe buf true = (some buf, [])

theorem flushAtEof_flushes (buf : Bytes) :
    flushAtEof buf true = (none, buf) ∨ flushAtEof buf true = (some buf, []) := by
  by_cases h : buf = []
  · exact .inl (if_neg fun he => he.2 h)
  · exact .inr (if_pos ⟨rfl, h⟩)

theorem cutAt_flushes {find : Bytes → Option (Nat × Nat)} (h : cutAt find buf false = (none, buf)) :
    cutAt find buf true = (none, buf) ∨ cutAt find buf true = (some buf, []) := by
  rcases hf : find buf with _ | ⟨i, j⟩
  · rw [cutAt_of_none hf]
    exact flushAtEof_flushes buf
  · rw [cutAt_of_some hf] at h
    cases h

theorem flushes_of_mem_builtin (hF : F ∈ builtin) : Flushes F where
  flush {buf} h := by
    have hnewline : deframe NewlineFraming = cutAt NewlineFraming.findNewline :=
      NewlineFraming.deframe_eq_cutAt
    simp only [builtin, List.mem_cons, List.not_mem_nil, or_false] at hF
    rcases hF with rfl | rfl | rfl | rfl
    · exact flushAtEof_flushes buf
    · rw [hnewline] at h ⊢
      exact cutAt_flushes h
    · exact .inl h
    · exact cutAt_flushes h

end Framing

end ServantRs
