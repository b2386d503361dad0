import ServantRs.Streams.FrameLimit
import ServantRs.Streams.Frames

/-!
# Streams — which frames are too large

The limits of the framings that mark where a frame ends.  Newlines and event blocks go by the
generic limit (`limitLaws_within`), netstrings by the length they declare
(`NetstringFraming.limitLaws`).  `frameTooLarge_iff` says of each when a request is refused for
nothing.
-/

namespace ServantRs

open Framing SourceStream Chain

/-! ### The generic limit -/

section

variable {F : Framing} {max : Nat} {buf : Bytes}

/-- The limit is held against the buffer. -/
theorem limitLaws_within (hs : Stable F.deframe) (hf : Flushes F)
    (hlim : F.deframeLimited = deframeWithin F.deframe) (payload : Bytes → Nat) :
    LimitLaws F (fun max buf => max < buf.length) payload where
  stable max := hlim ▸ hs.within max
  takes {buf frame rest} max h := by
    obtain ⟨cap, h⟩ := h
    rw [hlim] at h ⊢
    by_cases hlt : max < buf.length
    · exact .inr (by rw [deframeWithin, if_pos hlt])
    · rw [deframeWithin_false hs (Nat.not_lt.mp hlt), deframeWithin_eq_some h]
      exact .inl rfl
  waits {buf} max h := by
    obtain ⟨cap, h⟩ := h
    rw [hlim] at h ⊢
    by_cases hlt : max < buf.length
    · exact .inr (by rw [deframeWithin, if_pos hlt])
    · rw [deframeWithin_false hs (Nat.not_lt.mp hlt), deframeWithin_eq_none h]
      exact .inl rfl
  takes_append {buf frame rest} more h := by
    obtain ⟨cap, h⟩ := h
    rw [hlim] at h
    refine ⟨(buf ++ more).length, ?_⟩
    rw [hlim, deframeWithin_false hs (Nat.le_refl _), hs.append (deframeWithin_eq_some h)]
  stops h := by rw [hlim, deframeWithin, if_pos h]
  tooLarge {max buf rest} h := by
    by_contra hnot
    rw [not_or, Nat.not_lt] at hnot
    rw [hlim, deframeWithin_false hs hnot.1] at h
    cases h
  atEnd {max buf} h := by
    rw [hlim] at h ⊢
    have hle : ¬ max < buf.length := fun hlt => by
      rw [deframeWithin, if_pos hlt] at h
      cases h
    rcases hf.flush (deframeWithin_eq_none h) with hnone | hsome
    · rw [deframeWithin, if_neg hle, hnone]
      dsimp only
      split
      · exact ⟨fun rest he => (by cases he), fun he => by cases he⟩
      · exact ⟨fun rest he => (by cases he), fun he => by cases he⟩
    · rw [deframeWithin, if_neg hle, hsome]
      dsimp only
      rw [if_neg hle]
      refine ⟨fun rest he => (by cases he), fun {frame rest} he => ?_⟩
      cases he
      rfl
  nil max := by
    rw [hlim, deframeWithin, List.length_nil, if_neg (Nat.not_lt_zero max), deframe_nil hs true]
    exact if_neg fun h => h.2 rfl

end

/-! ### Netstrings -/

namespace NetstringFraming

/-- The length the netstring at the front of a buffer declares, `0` when there is none. -/
def declaredLength (buf : Bytes) : Nat :=
  match position COLON buf with
  | some colon => (parseNetstringLen (buf.take colon)).toOption.getD 0
  | none       => 0

theorem declaredLength_append {pre : Bytes} (h : COLON ∉ pre) {len : Nat}
    (hlen : parseNetstringLen pre = .ok len) (post : Bytes) :
    declaredLength (pre ++ COLON :: post) = len := by
  rw [declaredLength, position_append h]
  show (parseNetstringLen ((pre ++ COLON :: post).take pre.length)).toOption.getD 0 = len
  rw [List.take_left, hlen]
  rfl

section

variable {colon len cap max : Nat} {pre post buf rest : Bytes} {eof : Bool}

theorem dataWithin_of_lt (h : max < len) :
    dataWithin colon len post eof max = .error (.frameTooLarge max) := if_pos h

/-- Data that is waited for under one limit is waited for under another, or longer than it, and
malformed at the end. -/
theorem dataWithin_of_waits (h : dataWithin colon len post false cap = .ok none) (hle : len ≤ max) :
    dataWithin colon len post false max = .ok none ∧
      dataWithin colon len post true max = .error (.malformedFrame "incomplete netstring frame") := by
  rw [dataWithin] at h
  split at h
  · cases h
  · split at h
    · next hover =>
        split at h
        · next hshort =>
            constructor
            · rw [dataWithin, if_neg (Nat.not_lt.mpr hle), if_pos hover, if_pos hshort]
              rfl
            · rw [dataWithin, if_neg (Nat.not_lt.mpr hle), if_pos hover, if_pos hshort]
              rfl
        · split at h
          · cases h
          · cases h
    · cases h

theorem lt_of_dataWithin (h : dataWithin colon len post eof max = .error (.frameTooLarge max)) :
    max < len := by
  by_contra hle
  rw [dataWithin, if_neg hle] at h
  split at h
  · split at h
    · split at h
      · cases h
      · cases h
    · split at h
      · cases h
      · cases h
  · cases h

/-- A length prefix, and what is behind it. -/
theorem deframeLimited_data (hpre : COLON ∉ pre) (hlen : parseNetstringLen pre = .ok len)
    (post : Bytes) (eof : Bool) (max : Nat) :
    deframeLimited (pre ++ COLON :: post) eof max
      = takeOff (pre ++ COLON :: post) (dataWithin pre.length len post eof max) := by
  rw [deframeLimited_append hpre, hlen]
  rfl

/-- A buffer that waits has no colon yet, or less data than it declares. -/
theorem cases_of_waits (h : deframeLimited buf false cap = (.ok none, buf)) :
    COLON ∉ buf ∨ ∃ pre post len, buf = pre ++ COLON :: post ∧ COLON ∉ pre ∧
      parseNetstringLen pre = .ok len ∧ dataWithin pre.length len post false cap = .ok none := by
  cases hp : position COLON buf with
  | none => exact .inl (position_eq_none.mp hp)
  | some colon =>
      obtain ⟨pre, post, rfl, hpre, -⟩ := exists_of_position hp
      cases hlen : parseNetstringLen pre with
      | error e =>
          rw [deframeLimited_append hpre, hlen] at h
          cases h
      | ok len =>
          rw [deframeLimited_data hpre hlen] at h
          refine .inr ⟨pre, post, len, rfl, hpre, hlen, ?_⟩
          cases hdata : dataWithin pre.length len post false cap with
          | error e =>
              rw [hdata] at h
              cases h
          | ok found =>
              cases found with
              | none => rfl
              | some found =>
                  rw [hdata] at h
                  cases h

/-- A prefix that does not read is malformed, not too large. -/
theorem parseNetstringLen_ne_tooLarge : parseNetstringLen pre ≠ .error (.frameTooLarge max) := by
  rw [parseNetstringLen]
  split
  · exact fun h => by cases h
  · split
    · exact fun h => by cases h
    · exact fun h => by cases h

theorem deframeLimited_colonless (h : COLON ∉ buf) (eof : Bool) (max : Nat) :
    deframeLimited buf eof max =
      if max < buf.length then (.error (.frameTooLarge max), buf)
      else if eof ∧ buf ≠ [] then
        (.error (.malformedFrame "netstring length prefix has no colon"), buf)
      else (.ok none, buf) := by
  rw [deframeLimited, position_eq_none.mpr h]

theorem framing_deframeLimited : Framing.deframeLimited NetstringFraming = deframeLimited := rfl

/-- A buffer is too large without a colon, or for the length it declares. -/
theorem tooLarge_cases
    (h : deframeLimited buf false max = (.error (.frameTooLarge max), rest)) :
    (COLON ∉ buf ∧ max < buf.length) ∨ ∀ more, max < declaredLength (buf ++ more) := by
  cases hp : position COLON buf with
  | none =>
      have hcolon := position_eq_none.mp hp
      refine .inl ⟨hcolon, ?_⟩
      by_contra hle
      rw [deframeLimited_colonless hcolon, if_neg hle,
        if_neg fun he => Bool.false_ne_true he.1] at h
      cases h
  | some colon =>
      obtain ⟨pre, post, rfl, hpre, -⟩ := exists_of_position hp
      refine .inr fun more => ?_
      rw [deframeLimited_append hpre] at h
      obtain ⟨he, -⟩ := takeOff_eq_error h
      cases hlen : parseNetstringLen pre with
      | error e =>
          rw [hlen] at he
          cases he
          exact absurd hlen parseNetstringLen_ne_tooLarge
      | ok len =>
          rw [hlen] at he
          have hlt := lt_of_dataWithin he
          rwa [List.append_assoc, List.cons_append, declaredLength_append hpre hlen]

/-- What is waited for is no frame at the end, and none that is too large. -/
theorem atEnd_of_waits (h : deframeLimited buf false max = (.ok none, buf)) :
    (∀ rest, deframeLimited buf true max ≠ (.error (.frameTooLarge max), rest)) ∧
      ∀ {frame rest}, deframeLimited buf true max = (.ok (some frame), rest) → rest = [] := by
  rcases cases_of_waits h with hcolon | ⟨pre, post, len, rfl, hpre, hlen, hdata⟩
  · have hle : ¬ max < buf.length := fun hlt => by
      rw [deframeLimited_colonless hcolon, if_pos hlt] at h
      cases h
    rw [deframeLimited_colonless hcolon, if_neg hle]
    split
    · exact ⟨fun rest he => (by cases he), fun he => by cases he⟩
    · exact ⟨fun rest he => (by cases he), fun he => by cases he⟩
  · have hmax : len ≤ max := by
      by_contra hlt
      rw [dataWithin_of_lt (Nat.not_le.mp hlt)] at hdata
      cases hdata
    rw [deframeLimited_data hpre hlen, (dataWithin_of_waits hdata hmax).2]
    exact ⟨fun rest he => (by cases he), fun he => by cases he⟩

theorem limitLaws : LimitLaws NetstringFraming
    (fun max buf => COLON ∉ buf ∧ max < buf.length) declaredLength where
  stable max := stableWithin max
  takes {buf frame rest} max h := by
    obtain ⟨cap, h⟩ := h
    obtain ⟨pre, rfl, hpre, hlen, hcap, hover⟩ := deframeLimited_eq_some_iff.mp h
    by_cases hmax : frame.length ≤ max
    · exact .inl (deframeLimited_eq_some_iff.mpr ⟨pre, rfl, hpre, hlen, hmax, hover⟩)
    · refine .inr ((deframeLimited_data hpre hlen _ _ _).trans ?_)
      rw [dataWithin_of_lt (Nat.not_le.mp hmax)]
      rfl
  waits {buf} max h := by
    obtain ⟨cap, h⟩ := h
    rw [framing_deframeLimited] at h ⊢
    rcases cases_of_waits h with hcolon | ⟨pre, post, len, rfl, hpre, hlen, hdata⟩
    · rw [deframeLimited_colonless hcolon]
      split
      · exact .inr rfl
      · exact .inl (if_neg fun he => Bool.false_ne_true he.1)
    · by_cases hmax : len ≤ max
      · refine .inl ((deframeLimited_data hpre hlen _ _ _).trans ?_)
        rw [(dataWithin_of_waits hdata hmax).1]
        rfl
      · refine .inr ((deframeLimited_data hpre hlen _ _ _).trans ?_)
        rw [dataWithin_of_lt (Nat.not_le.mp hmax)]
        rfl
  takes_append {buf frame rest} more h := by
    obtain ⟨cap, h⟩ := h
    obtain ⟨pre, rfl, hpre, hlen, hcap, hover⟩ := deframeLimited_eq_some_iff.mp h
    exact ⟨cap, deframeLimited_eq_some_iff.mpr ⟨pre, by simp, hpre, hlen, hcap, hover⟩⟩
  stops {max buf} h := (deframeLimited_colonless h.1 false max).trans (if_pos h.2)
  tooLarge := tooLarge_cases
  atEnd := atEnd_of_waits
  nil max := by
    refine (deframeLimited_colonless List.not_mem_nil true max).trans ?_
    rw [List.length_nil, if_neg (Nat.not_lt_zero max)]
    exact if_neg fun h => h.2 rfl

end

end NetstringFraming

/-! ### The framings with marked frames -/

/-- The framings that mark where a frame ends. -/
inductive Delimited where
  | newline | netstring | eventStream
deriving DecidableEq, Repr

namespace Delimited

def framing : Delimited → Framing
  | newline     => NewlineFraming
  | netstring   => NetstringFraming
  | eventStream => EventStreamFraming

/-- The buffers that are too large whatever frames they hold. -/
def Overfull : Delimited → Nat → Bytes → Prop
  | netstring, max, buf => COLON ∉ buf ∧ max < buf.length
  | newline, max, buf | eventStream, max, buf => max < buf.length

/-- The length of the payload at the front of a buffer: of a frame, of what would be flushed at the
end of a body, or as a netstring declares it. -/
def payloadLength : Delimited → Bytes → Nat
  | netstring, buf   => NetstringFraming.declaredLength buf
  | newline, buf     => ((NewlineFraming.deframe buf true).1.map List.length).getD 0
  | eventStream, buf => ((EventStreamFraming.deframe buf true).1.map List.length).getD 0

theorem limitLaws : ∀ D : Delimited, LimitLaws D.framing D.Overfull D.payloadLength
  | newline     => limitLaws_within NewlineFraming.stable
      (flushes_of_mem_builtin (by simp [builtin, framing])) rfl _
  | netstring   => NetstringFraming.limitLaws
  | eventStream => limitLaws_within EventStreamFraming.stable
      (flushes_of_mem_builtin (by simp [builtin, framing])) rfl _

end Delimited

/-- **When a request is refused for nothing.**  A frame is said to be too large only if one is
longer than the limit, in every body but those without such a frame that fill an overfull buffer on
the way: one longer than the limit, or for netstrings one without a colon. -/
theorem frameTooLarge_iff {T : Type} (D : Delimited) (codec : Codec T) (max : Nat)
    (body : List BodyEvent) :
    (ReportsTooLarge D.framing codec max body →
      LongFrame D.framing D.payloadLength max (receivedBytes body)) ↔
        LongFrame D.framing D.payloadLength max (receivedBytes body) ∨
          ¬ Crowded D.framing codec D.Overfull max (chunksOf (RequestBody.streamItems body)) :=
  D.limitLaws.reports_only_iff

/-! ### A line of the very length -/

theorem leaves_length {F : Framing} {overfull : Nat → Bytes → Prop} {payload : Bytes → Nat}
    (laws : LimitLaws F overfull payload) {buf rest : Bytes} (h : Leaves F buf rest) :
    rest = buf ∨ rest.length < buf.length := by
  induction h with
  | refl => exact .inl rfl
  | tail _ h ih =>
      obtain ⟨frame, cap, hd⟩ := h
      have hlt := (laws.stable cap).shrinks hd
      rcases ih with rfl | ih
      · exact .inr hlt
      · exact .inr (Nat.lt_trans hlt ih)

section

variable (max : Nat)

/-- A line as long as the limit. -/
def fullLine : Bytes := List.replicate max 97 ++ [LF]

theorem receivedBytes_data (chunk : Bytes) : receivedBytes [.data chunk] = chunk :=
  List.append_nil _

theorem reportsTooLarge_fullLine :
    ReportsTooLarge NewlineFraming .octetStream max [.data (fullLine max)] := by
  have laws := Delimited.newline.limitLaws
  have hwaits : Waits NewlineFraming [] := ⟨0, rfl⟩
  have hbuffers : Buffers NewlineFraming .octetStream [fullLine max] (fullLine max) :=
    .chunk .start hwaits (fullLine max)
  have hover : Delimited.newline.Overfull max (fullLine max) := by
    show max < (List.replicate max 97 ++ [LF]).length
    rw [List.length_append, List.length_replicate]
    exact Nat.lt_succ_self max
  exact laws.reportsTooLarge_iff.mpr (laws.feed_of_overfull hbuffers hover [])

theorem not_longFrame_fullLine :
    ¬ LongFrame NewlineFraming Delimited.newline.payloadLength max (fullLine max) := by
  rintro ⟨rest, hrest, hlong⟩
  have hlen : (fullLine max).length = max + 1 := by
    rw [fullLine, List.length_append, List.length_replicate, List.length_singleton]
  rcases leaves_length Delimited.newline.limitLaws hrest with rfl | hlt
  · -- the line itself
    have hnotMem : LF ∉ List.replicate max (97 : UInt8) := fun hmem =>
      absurd (List.eq_of_mem_replicate hmem) (by decide)
    rw [Delimited.payloadLength, fullLine, NewlineFraming.deframe_append hnotMem] at hlong
    simp at hlong
  · rw [Delimited.payloadLength] at hlong
    cases hd : NewlineFraming.deframe rest true with
    | mk found left =>
        rw [hd] at hlong
        cases found with
        | none => exact absurd hlong (Nat.not_lt_zero max)
        | some frame =>
            have hle := NewlineFraming.stable.frame_le hd
            have hlong' : max < frame.length := hlong
            omega

end

/-- A line of 8 MiB is refused as too large, although a frame may be 8 MiB long. -/
theorem frameTooLarge_fullLine :
    (∃ n, decodeStream NewlineFraming .octetStream
        [.data (fullLine DEFAULT_MAX_DECODED_FRAME_BYTES)] n
      = some (.error (.frameTooLarge DEFAULT_MAX_DECODED_FRAME_BYTES))) ∧
    ¬ LongFrame NewlineFraming Delimited.newline.payloadLength DEFAULT_MAX_DECODED_FRAME_BYTES
      (receivedBytes [.data (fullLine DEFAULT_MAX_DECODED_FRAME_BYTES)]) := by
  constructor
  · rw [decodeStream_eq_within]
    exact reportsTooLarge_fullLine _
  · rw [receivedBytes_data]
    exact not_longFrame_fullLine _

end ServantRs
