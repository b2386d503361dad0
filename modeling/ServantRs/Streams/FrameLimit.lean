import Mathlib.Logic.Relation
import ServantRs.Streams.Server

/-!
# Streams — the limit of a request's frames

A request's frames are bounded, each by the same limit.  Newlines and event blocks hold the limit
against the whole buffer, netstrings against a buffer without a colon, before they look for a
frame; so a body is said to hold a frame that is too large although it holds none exactly when a
buffer on the way is overfull: `frameTooLarge_iff`.
-/

namespace ServantRs

open Framing SourceStream

/-! ### Frames, whatever the limit -/

section

variable (F : Framing)

/-- Under some limit a frame is taken off a buffer. -/
def Takes (buf frame rest : Bytes) : Prop :=
  ∃ cap, F.deframeLimited buf false cap = (.ok (some frame), rest)

/-- Under some limit a buffer waits for more bytes. -/
def Waits (buf : Bytes) : Prop := ∃ cap, F.deframeLimited buf false cap = (.ok none, buf)

/-- What is left of a buffer when some frames are taken off it. -/
def Leaves : Bytes → Bytes → Prop :=
  Relation.ReflTransGen fun buf rest => ∃ frame, Takes F buf frame rest

/-- The buffers a body is decoded from, by the chunks received, when nothing is too large. -/
inductive Buffers {T : Type} (codec : Codec T) : List Bytes → Bytes → Prop where
  | start : Buffers codec [] []
  | frame {chunks : List Bytes} {buf frame rest : Bytes} {item : T} (b : Buffers codec chunks buf)
      (h : Takes F buf frame rest) (hu : codec.mimeUnrender frame = .ok item) :
      Buffers codec chunks rest
  | chunk {chunks : List Bytes} {buf : Bytes} (b : Buffers codec chunks buf) (h : Waits F buf)
      (chunk : Bytes) : Buffers codec (chunks ++ [chunk]) (buf ++ chunk)

end

/-- What a limit does to a framing: it lets frames through or stops at them, always at buffers that
are overfull, and else only at a frame whose payload is longer than the limit. -/
structure LimitLaws (F : Framing) (overfull : Nat → Bytes → Prop) (payload : Bytes → Nat) :
    Prop where
  stable : ∀ max, StableWithin F.deframeLimited max
  takes : ∀ {buf frame rest} (max : Nat), Takes F buf frame rest →
    F.deframeLimited buf false max = (.ok (some frame), rest) ∨
      F.deframeLimited buf false max = (.error (.frameTooLarge max), buf)
  waits : ∀ {buf} (max : Nat), Waits F buf →
    F.deframeLimited buf false max = (.ok none, buf) ∨
      F.deframeLimited buf false max = (.error (.frameTooLarge max), buf)
  takes_append : ∀ {buf frame rest} (more : Bytes), Takes F buf frame rest →
    Takes F (buf ++ more) frame (rest ++ more)
  stops : ∀ {max buf}, overfull max buf →
    F.deframeLimited buf false max = (.error (.frameTooLarge max), buf)
  tooLarge : ∀ {max buf rest}, F.deframeLimited buf false max = (.error (.frameTooLarge max), rest) →
    overfull max buf ∨ ∀ more, max < payload (buf ++ more)
  atEnd : ∀ {max buf}, F.deframeLimited buf false max = (.ok none, buf) →
    (∀ rest, F.deframeLimited buf true max ≠ (.error (.frameTooLarge max), rest)) ∧
      ∀ {frame rest}, F.deframeLimited buf true max = (.ok (some frame), rest) → rest = []
  nil : ∀ max, F.deframeLimited [] true max = (.ok none, [])

/-! ### The decoder under a limit -/

namespace LimitLaws

variable {T : Type} {F : Framing} {overfull : Nat → Bytes → Prop} {payload : Bytes → Nat}
  (laws : LimitLaws F overfull payload) {codec : Codec T} {max : Nat} {chunks : List Bytes}
  {buf rest : Bytes}

section

include laws

theorem next_of_takes {frame : Bytes} {item : T} (h : Takes F buf frame rest)
    (hu : codec.mimeUnrender frame = .ok item) :
    (frameDecoder (laws.stable max) codec false).next buf = .item item rest ∨
      (frameDecoder (laws.stable max) codec false).next buf = .fail (.frameTooLarge max) := by
  rcases laws.takes max h with hd | hd
  · refine .inl ((congrArg (foundFrame codec) hd).trans ?_)
    rw [foundFrame, hu]
  · exact .inr (congrArg (foundFrame codec) hd)

theorem next_of_waits (h : Waits F buf) :
    (frameDecoder (laws.stable max) codec false).next buf = .more ∨
      (frameDecoder (laws.stable max) codec false).next buf = .fail (.frameTooLarge max) :=
  (laws.waits max h).imp (congrArg (foundFrame codec)) (congrArg (foundFrame codec))

/-- **The limit is the only difference.**  With it the loop comes to the same buffers, or it stops
at something too large. -/
theorem feed_of_buffers (b : Buffers F codec chunks buf) (post : List Bytes) :
    ((frameDecoder (laws.stable max) codec false).feed (chunks ++ post) []).2
        = ((frameDecoder (laws.stable max) codec false).feed post buf).2 ∨
      ((frameDecoder (laws.stable max) codec false).feed (chunks ++ post) []).2
        = .error (.frameTooLarge max) := by
  -- along the way to the buffer, with the chunks that are still to come
  induction b generalizing post with
  | start => exact .inl rfl
  | frame b h hu ih =>
      rcases ih post with hfeed | hfeed
      · rcases laws.next_of_takes h hu with hnext | hnext
        · exact .inl (by rw [hfeed, Decoder.feed_of_item hnext])
        · exact .inr (by rw [hfeed, Decoder.feed_of_fail hnext])
      · exact .inr hfeed
  | chunk b h chunk ih =>
      rw [List.append_assoc, List.singleton_append]
      rcases ih (chunk :: post) with hfeed | hfeed
      · rcases laws.next_of_waits h with hnext | hnext
        · exact .inl (by rw [hfeed, Decoder.feed_cons_of_more hnext])
        · exact .inr (by rw [hfeed, Decoder.feed_of_fail hnext])
      · exact .inr hfeed

/-- The loop stops at a buffer that is overfull. -/
theorem feed_of_overfull (b : Buffers F codec chunks buf) (h : overfull max buf)
    (post : List Bytes) :
    ((frameDecoder (laws.stable max) codec false).feed (chunks ++ post) []).2
      = .error (.frameTooLarge max) := by
  have hnext : (frameDecoder (laws.stable max) codec false).next buf
      = .fail (.frameTooLarge max) := congrArg (foundFrame codec) (laws.stops h)
  rcases laws.feed_of_buffers b post with hfeed | hfeed
  · rw [hfeed, Decoder.feed_of_fail hnext]
  · exact hfeed

end

/-! ### The buffers the loop comes to -/

section

variable {hs : StableWithin F.deframeLimited max}

theorem buffers_of_item {item : T} (b : Buffers F codec chunks buf)
    (h : (frameDecoder hs codec false).next buf = .item item rest) :
    Buffers F codec chunks rest := by
  obtain ⟨frame, hd, hu⟩ := foundFrame_eq_item codec h
  exact .frame b ⟨max, hd⟩ hu

theorem buffers_of_more (b : Buffers F codec chunks buf)
    (h : (frameDecoder hs codec false).next buf = .more) (chunk : Bytes) :
    Buffers F codec (chunks ++ [chunk]) (buf ++ chunk) := by
  obtain ⟨rest, hd⟩ := foundFrame_eq_more codec h
  obtain rfl := hs.rest_of_none hd
  exact .chunk b ⟨max, hd⟩ chunk

theorem drain_stops {e : StreamBodyError} (b : Buffers F codec chunks buf)
    (h : ((frameDecoder hs codec false).drain buf).2 = .error e) :
    ∃ buf', Buffers F codec chunks buf' ∧ (frameDecoder hs codec false).next buf' = .fail e := by
  induction buf using (frameDecoder hs codec false).drain_induction with
  | more buf hnext =>
      rw [Decoder.drain_of_more hnext] at h
      cases h
  | item buf item rest hnext ih =>
      rw [Decoder.drain_of_item hnext] at h
      exact ih (buffers_of_item b hnext) h
  | fail buf e' hnext =>
      rw [Decoder.drain_of_fail hnext] at h
      cases h
      exact ⟨buf, b, hnext⟩

theorem drain_waits (b : Buffers F codec chunks buf)
    (h : ((frameDecoder hs codec false).drain buf).2 = .ok rest) :
    Buffers F codec chunks rest ∧ (frameDecoder hs codec false).next rest = .more := by
  induction buf using (frameDecoder hs codec false).drain_induction with
  | more buf hnext =>
      rw [Decoder.drain_of_more hnext] at h
      cases h
      exact ⟨b, hnext⟩
  | item buf item rest hnext ih =>
      rw [Decoder.drain_of_item hnext] at h
      exact ih (buffers_of_item b hnext) h
  | fail buf e hnext =>
      rw [Decoder.drain_of_fail hnext] at h
      cases h

/-- Where the loop stops, it is at one of the buffers of the body. -/
theorem feed_stops {e : StreamBodyError} (post : List Bytes) (b : Buffers F codec chunks buf)
    (h : ((frameDecoder hs codec false).feed post buf).2 = .error e) :
    ∃ pre buf', pre <+: chunks ++ post ∧ Buffers F codec pre buf' ∧
      (frameDecoder hs codec false).next buf' = .fail e := by
  induction post generalizing chunks buf with
  | nil =>
      obtain ⟨buf', b', hnext⟩ := drain_stops b h
      exact ⟨chunks, buf', List.prefix_append _ _, b', hnext⟩
  | cons chunk post ih =>
      rw [Decoder.feed] at h
      rcases hd : (frameDecoder hs codec false).drain buf with ⟨items, e' | rest⟩
      · rw [hd] at h
        cases h
        obtain ⟨buf', b', hnext⟩ := drain_stops b (congrArg Prod.snd hd)
        exact ⟨chunks, buf', List.prefix_append _ _, b', hnext⟩
      · rw [hd] at h
        obtain ⟨b', hnext⟩ := drain_waits b (congrArg Prod.snd hd)
        obtain ⟨pre, buf', hpre, hbuf'⟩ := ih (buffers_of_more b' hnext chunk) h
        rw [List.append_assoc, List.singleton_append] at hpre
        exact ⟨pre, buf', hpre, hbuf'⟩

theorem feed_waits (post : List Bytes) (b : Buffers F codec chunks buf)
    (h : ((frameDecoder hs codec false).feed post buf).2 = .ok rest) :
    (frameDecoder hs codec false).next rest = .more := by
  induction post generalizing chunks buf with
  | nil => exact (drain_waits b h).2
  | cons chunk post ih =>
      rw [Decoder.feed] at h
      rcases hd : (frameDecoder hs codec false).drain buf with ⟨items, e | rest'⟩
      · rw [hd] at h
        cases h
      · rw [hd] at h
        obtain ⟨b', hnext⟩ := drain_waits b (congrArg Prod.snd hd)
        exact ih (buffers_of_more b' hnext chunk) h

theorem leaves_append (laws : LimitLaws F overfull payload) (h : Leaves F buf rest)
    (more : Bytes) : Leaves F (buf ++ more) (rest ++ more) := by
  induction h with
  | refl => exact .refl
  | tail _ h ih =>
      obtain ⟨frame, ht⟩ := h
      exact .tail ih ⟨frame, laws.takes_append more ht⟩

/-- What is left after some frames of the chunks. -/
theorem leaves_of_buffers (laws : LimitLaws F overfull payload)
    (b : Buffers F codec chunks buf) : Leaves F chunks.flatten buf := by
  induction b with
  | start => exact .refl
  | frame b h hu ih => exact .tail ih ⟨_, h⟩
  | chunk b h chunk ih =>
      rw [List.flatten_append, List.flatten_singleton]
      exact leaves_append laws ih chunk

end

end LimitLaws

/-! ### What is reported -/

/-- The stream says that a frame is too large. -/
def ReportsTooLarge {T : Type} (F : Framing) (codec : Codec T) (max : Nat)
    (body : List BodyEvent) : Prop :=
  ∃ n, decodeStreamWithin F codec max body n = some (.error (.frameTooLarge max))

/-- A body on its way fills an overfull buffer. -/
def Crowded {T : Type} (F : Framing) (codec : Codec T) (overfull : Nat → Bytes → Prop) (max : Nat)
    (chunks : List Bytes) : Prop :=
  ∃ pre buf, pre <+: chunks ∧ Buffers F codec pre buf ∧ overfull max buf

/-- A frame of the bytes is longer than the limit. -/
def LongFrame (F : Framing) (payload : Bytes → Nat) (max : Nat) (bytes : Bytes) : Prop :=
  ∃ rest, Leaves F bytes rest ∧ max < payload rest

namespace LimitLaws

variable {T : Type} {F : Framing} {overfull : Nat → Bytes → Prop} {payload : Bytes → Nat}
  (laws : LimitLaws F overfull payload) {codec : Codec T} {max : Nat} {body : List BodyEvent}

include laws

/-- Nothing is too large at the end of a body if it was not before. -/
theorem notMem_decodedAtEnd {rest : Bytes}
    (h : (frameDecoder (laws.stable max) codec false).next rest = .more) :
    .error (.frameTooLarge max) ∉ decodedAtEnd (laws.stable max) codec rest := by
  obtain ⟨rest', hd⟩ := foundFrame_eq_more codec h
  obtain rfl := (laws.stable max).rest_of_none hd
  obtain ⟨herror, hframe⟩ := laws.atEnd hd
  have hnil : (frameDecoder (laws.stable max) codec true).next [] = .more :=
    congrArg (foundFrame codec) (laws.nil max)
  rw [decodedAtEnd]
  cases hnext : (frameDecoder (laws.stable max) codec true).next rest' with
  | more =>
      rw [Decoder.drain_of_more hnext]
      exact List.not_mem_nil
  | item item left =>
      -- a frame at the end is all that is left
      obtain ⟨frame, hd', -⟩ := foundFrame_eq_item codec hnext
      obtain rfl := hframe hd'
      rw [Decoder.drain_of_item hnext, Decoder.drain_of_more hnil]
      simp [errorOf]
  | fail e =>
      rw [Decoder.drain_of_fail hnext]
      rcases foundFrame_eq_fail codec hnext with ⟨_, _, message, -, -, rfl⟩ | ⟨left, hd'⟩
      · simp [errorOf]
      · have hne : e ≠ .frameTooLarge max := fun he => herror left (he ▸ hd')
        simp [errorOf, Ne.symm hne]

theorem mem_closing_iff {failure : Option String} {out : Except StreamBodyError Bytes}
    (hwaits : ∀ rest, out = .ok rest →
      (frameDecoder (laws.stable max) codec false).next rest = .more) :
    .error (.frameTooLarge max) ∈ closing (laws.stable max) codec failure out
      ↔ out = .error (.frameTooLarge max) := by
  cases out with
  | error e =>
      have hclosing : closing (laws.stable max) codec failure (.error e) = [.error e] := by
        cases failure <;> rfl
      rw [hclosing, List.mem_singleton]
      simp [eq_comm]
  | ok rest =>
      refine ⟨fun h => ?_, fun h => by cases h⟩
      cases failure with
      | none => exact absurd h (laws.notMem_decodedAtEnd (hwaits rest rfl))
      | some message => simp [closing] at h

/-- What is said to be too large is so as the chunks come. -/
theorem reportsTooLarge_iff : ReportsTooLarge F codec max body ↔
    ((frameDecoder (laws.stable max) codec false).feed
      (chunksOf (RequestBody.streamItems body)) []).2 = .error (.frameTooLarge max) := by
  rw [ReportsTooLarge, decodeStreamWithin_eq (laws.stable max), ← laws.mem_closing_iff
    fun rest h => feed_waits _ .start h]
  refine List.mem_iff_getElem?.symm.trans ?_
  rw [decodedFrom, decodedBody, List.mem_append]
  refine or_iff_right fun h => ?_
  obtain ⟨item, -, hitem⟩ := List.mem_map.mp h
  cases hitem

/-- **When a body is said to hold a frame that is too large although it holds none.** -/
theorem reports_only_iff :
    (ReportsTooLarge F codec max body → LongFrame F payload max (receivedBytes body)) ↔
      LongFrame F payload max (receivedBytes body) ∨
        ¬ Crowded F codec overfull max (chunksOf (RequestBody.streamItems body)) := by
  rw [laws.reportsTooLarge_iff]
  constructor
  · intro h
    by_cases hcrowded : Crowded F codec overfull max (chunksOf (RequestBody.streamItems body))
    · obtain ⟨pre, buf, ⟨post, hpre⟩, b, hover⟩ := hcrowded
      exact .inl (h (hpre ▸ laws.feed_of_overfull b hover post))
    · exact .inr hcrowded
  · rintro (hlong | hcrowded) h
    · exact hlong
    · -- the buffer the loop stops at is not overfull, so it declares a long frame
      obtain ⟨pre, buf, hpre, b, hnext⟩ := feed_stops _ .start h
      rcases foundFrame_eq_fail codec hnext with ⟨_, _, _, -, -, he⟩ | ⟨rest, hd⟩
      · cases he
      · rcases laws.tooLarge hd with hover | hlong
        · exact absurd ⟨pre, buf, hpre, b, hover⟩ hcrowded
        · obtain ⟨post, hpost⟩ := hpre
          have hbytes : receivedBytes body = pre.flatten ++ post.flatten := by
            rw [receivedBytes, ← List.flatten_append, hpost, List.nil_append]
          rw [hbytes]
          exact ⟨buf ++ post.flatten,
            leaves_append laws (leaves_of_buffers laws b) _, hlong _⟩

end LimitLaws

end ServantRs
