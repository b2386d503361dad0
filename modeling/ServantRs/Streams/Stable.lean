import ServantRs.Core.Framing

/-!
# Streams — stable framings

A frame taken off the front of a buffer is taken off when more follows it, and the frame and what
is left of the buffer are as before.  `Framing.Stable` says so of `deframe`, and
`Framing.StableWithin` of `deframeLimited` and the malformed frames it finds, for buffers no longer
than the limit.

* `Framing.Stable.within`: the limit around a stable framing keeps it stable.
* `Marks.stable`: a framing whose frames end at marks is stable when the marks stay.
* `NewlineFraming.stable`: newlines do.
-/

namespace ServantRs

namespace Framing

/-- More bytes do not change the frame at the front of a buffer. -/
structure Stable (deframe : Bytes → Bool → Option Bytes × Bytes) : Prop where
  rest_of_none : ∀ {buf eof rest}, deframe buf eof = (none, rest) → rest = buf
  shrinks : ∀ {buf eof frame rest}, deframe buf eof = (some frame, rest) →
    rest.length < buf.length
  frame_le : ∀ {buf eof frame rest}, deframe buf eof = (some frame, rest) →
    frame.length ≤ buf.length
  append : ∀ {buf more frame rest}, deframe buf false = (some frame, rest) →
    deframe (buf ++ more) false = (some frame, rest ++ more)

/-- More bytes, up to a limit, do not change the frame at the front of a buffer or what is wrong
with it. -/
structure StableWithin
    (deframe : Bytes → Bool → Nat → Except StreamBodyError (Option Bytes) × Bytes) (max : Nat) :
    Prop where
  rest_of_none : ∀ {buf eof rest}, deframe buf eof max = (.ok none, rest) → rest = buf
  shrinks : ∀ {buf eof frame rest}, deframe buf eof max = (.ok (some frame), rest) →
    rest.length < buf.length
  append : ∀ {buf more frame rest}, (buf ++ more).length ≤ max →
    deframe buf false max = (.ok (some frame), rest) →
    deframe (buf ++ more) false max = (.ok (some frame), rest ++ more)
  error_append : ∀ {buf more e rest}, (buf ++ more).length ≤ max →
    deframe buf false max = (.error e, rest) →
    deframe (buf ++ more) false max = (.error e, rest ++ more)

end Framing

open Framing

/-! ### The end of a body -/

theorem flushAtEof_eq_some {buf frame rest : Bytes} {eof : Bool}
    (h : flushAtEof buf eof = (some frame, rest)) :
    eof = true ∧ buf ≠ [] ∧ frame = buf ∧ rest = [] := by
  rw [flushAtEof] at h
  split at h
  · next hb =>
      cases h
      exact ⟨hb.1, hb.2, rfl, rfl⟩
  · cases h

theorem flushAtEof_eq_none {buf rest : Bytes} {eof : Bool}
    (h : flushAtEof buf eof = (none, rest)) : rest = buf := by
  rw [flushAtEof] at h
  split at h
  · cases h
  · cases h
    rfl

theorem flushAtEof_false (buf : Bytes) : flushAtEof buf false = (none, buf) :=
  if_neg fun h => Bool.false_ne_true h.1

theorem stable_flushAtEof : Stable flushAtEof where
  rest_of_none h := flushAtEof_eq_none h
  shrinks h := by
    obtain ⟨-, hne, rfl, rfl⟩ := flushAtEof_eq_some h
    exact List.length_pos_iff.mpr hne
  frame_le h := by
    obtain ⟨-, -, rfl, -⟩ := flushAtEof_eq_some h
    exact Nat.le_refl _
  append h := absurd (flushAtEof_eq_some h).1 Bool.false_ne_true

/-! ### The limit around a framing -/

section deframeWithin

variable {deframe : Bytes → Bool → Option Bytes × Bytes} {max : Nat} {buf : Bytes} {eof : Bool}

/-- A buffer within the limit is no reason to fail before the end of the body. -/
theorem deframeWithin_false (hs : Stable deframe) (hle : buf.length ≤ max) :
    deframeWithin deframe buf false max = (.ok (deframe buf false).1, (deframe buf false).2) := by
  rw [deframeWithin, if_neg (Nat.not_lt.mpr hle)]
  rcases h : deframe buf false with ⟨_ | frame, rest⟩
  · exact if_neg fun he => Bool.false_ne_true he.1
  · exact if_neg (Nat.not_lt.mpr (Nat.le_trans (hs.frame_le h) hle))

theorem deframeWithin_eq_some {frame rest : Bytes}
    (h : deframeWithin deframe buf eof max = (.ok (some frame), rest)) :
    deframe buf eof = (some frame, rest) := by
  rw [deframeWithin] at h
  split at h
  · cases h
  · rcases hd : deframe buf eof with ⟨_ | frame', rest'⟩
    · rw [hd] at h
      dsimp only at h
      split at h
      · cases h
      · cases h
    · rw [hd] at h
      dsimp only at h
      split at h
      · cases h
      · cases h
        rfl

theorem deframeWithin_eq_none {rest : Bytes}
    (h : deframeWithin deframe buf eof max = (.ok none, rest)) :
    deframe buf eof = (none, rest) := by
  rw [deframeWithin] at h
  split at h
  · cases h
  · rcases hd : deframe buf eof with ⟨_ | frame', rest'⟩
    · rw [hd] at h
      dsimp only at h
      split at h
      · cases h
      · cases h
        rfl
    · rw [hd] at h
      dsimp only at h
      split at h
      · cases h
      · cases h

/-- **A stable framing is stable under the limit.** -/
theorem Framing.Stable.within (hs : Stable deframe) (max : Nat) :
    StableWithin (deframeWithin deframe) max where
  rest_of_none h := hs.rest_of_none (deframeWithin_eq_none h)
  shrinks h := hs.shrinks (deframeWithin_eq_some h)
  append hle h := by
    rw [deframeWithin_false hs hle, hs.append (deframeWithin_eq_some h)]
  error_append {buf more e rest} hle h := by
    rw [List.length_append] at hle
    rw [deframeWithin_false hs (by omega)] at h
    cases h

end deframeWithin

/-! ### Frames between marks -/

/-- Where a frame ends and what follows it begins. -/
structure Marks (find : Bytes → Option (Nat × Nat)) : Prop where
  within : ∀ {buf i j}, find buf = some (i, j) → i < j ∧ j ≤ buf.length
  append : ∀ {buf i j} (more : Bytes), find buf = some (i, j) → find (buf ++ more) = some (i, j)

/-- The frame before the first mark. -/
def cutAt (find : Bytes → Option (Nat × Nat)) (buf : Bytes) (eof : Bool) : Option Bytes × Bytes :=
  match find buf with
  | some (i, j) => (some (buf.take i), buf.drop j)
  | none        => flushAtEof buf eof

section cutAt

variable {find : Bytes → Option (Nat × Nat)} {buf : Bytes} {eof : Bool}

theorem cutAt_of_some {i j : Nat} (h : find buf = some (i, j)) :
    cutAt find buf eof = (some (buf.take i), buf.drop j) := by rw [cutAt, h]

theorem cutAt_of_none (h : find buf = none) : cutAt find buf eof = flushAtEof buf eof := by
  rw [cutAt, h]

/-- **Marks that stay make a stable framing.** -/
theorem Marks.stable (hm : Marks find) : Stable (cutAt find) where
  rest_of_none {buf eof rest} h := by
    rcases hf : find buf with _ | ⟨i, j⟩
    · rw [cutAt_of_none hf] at h
      exact flushAtEof_eq_none h
    · rw [cutAt_of_some hf] at h
      cases h
  shrinks {buf eof frame rest} h := by
    rcases hf : find buf with _ | ⟨i, j⟩
    · rw [cutAt_of_none hf] at h
      exact stable_flushAtEof.shrinks h
    · rw [cutAt_of_some hf] at h
      cases h
      have := hm.within hf
      rw [List.length_drop]
      omega
  frame_le {buf eof frame rest} h := by
    rcases hf : find buf with _ | ⟨i, j⟩
    · rw [cutAt_of_none hf] at h
      exact stable_flushAtEof.frame_le h
    · rw [cutAt_of_some hf] at h
      cases h
      exact List.length_take_le' ..
  append {buf more frame rest} h := by
    rcases hf : find buf with _ | ⟨i, j⟩
    · rw [cutAt_of_none hf, flushAtEof_false] at h
      cases h
    · rw [cutAt_of_some hf] at h
      cases h
      obtain ⟨hij, hj⟩ := hm.within hf
      rw [cutAt_of_some (hm.append more hf), List.take_append_of_le_length (by omega),
        List.drop_append_of_le_length hj]

end cutAt

/-! ### Newlines -/

namespace NewlineFraming

/-- A newline, and what follows it. -/
def findNewline (buf : Bytes) : Option (Nat × Nat) := (position LF buf).map fun i => (i, i + 1)

theorem deframe_eq_cutAt : deframe = cutAt findNewline := by
  funext buf eof
  rw [deframe, cutAt, findNewline]
  cases position LF buf with
  | none => rfl
  | some i => rfl

theorem findNewline_append {item : Bytes} (h : LF ∉ item) (rest : Bytes) :
    findNewline (item ++ LF :: rest) = some (item.length, item.length + 1) := by
  rw [findNewline, position_append h]
  rfl

/-- A newline is found behind bytes that are none. -/
theorem exists_of_findNewline {buf : Bytes} {i j : Nat} (h : findNewline buf = some (i, j)) :
    ∃ item rest, buf = item ++ LF :: rest ∧ LF ∉ item ∧ i = item.length ∧ j = item.length + 1 := by
  obtain ⟨k, hk, hij⟩ := Option.map_eq_some_iff.mp h
  obtain ⟨item, rest, rfl, hitem, rfl⟩ := exists_of_position hk
  cases hij
  exact ⟨item, rest, rfl, hitem, rfl, rfl⟩

theorem marks : Marks findNewline where
  within h := by
    obtain ⟨item, rest, rfl, -, rfl, rfl⟩ := exists_of_findNewline h
    rw [List.length_append, List.length_cons]
    omega
  append more h := by
    obtain ⟨item, rest, rfl, hitem, rfl, rfl⟩ := exists_of_findNewline h
    rw [List.append_assoc]
    exact findNewline_append hitem (rest ++ more)

theorem stable : Stable deframe := by
  rw [deframe_eq_cutAt]
  exact marks.stable

/-- A frame ends at the first newline. -/
theorem deframe_append {item : Bytes} (h : LF ∉ item) (rest : Bytes) (eof : Bool) :
    deframe (item ++ LF :: rest) eof = (some item, rest) := by
  rw [deframe_eq_cutAt, cutAt_of_some (findNewline_append h rest), List.take_left,
    List.drop_length_add_append, List.drop_one, List.tail_cons]

end NewlineFraming

end ServantRs
