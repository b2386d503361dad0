import ServantRs.Streams.Overflow

/-!
# Streams — a response that breaks off

When a chunk cannot be read, the client yields the error and goes on as at the end of a body: what
is unfinished comes behind the error, as an item or as an error more.  `transportError_iff` says
when nothing does.
-/

namespace ServantRs

open Framing SourceStream

/-- The bytes received of a response. -/
def receivedOf (body : List (Except String Bytes)) : Bytes := (chunksOf body).flatten

/-- Each item is that of a complete frame, and the stream has no more items than those and one
error behind them. -/
structure Untruncated {T : Type} (F : Framing) (codec : Codec T)
    (body : List (Except String Bytes)) : Prop where
  complete : ∀ {n x}, deframeDecode F codec body n = some (.ok x) →
    ∃ frame, (F.frames (receivedOf body))[n]? = some frame ∧ codec.mimeUnrender frame = .ok x
  last : ∀ {n}, (F.frames (receivedOf body)).length < n → deframeDecode F codec body n = none

section

variable {T : Type} {F : Framing} {codec : Codec T} {body : List (Except String Bytes)}

/-- The items of frames, then one error. -/
theorem untruncated_of_eq {before after : List Bytes} {message : String}
    (hframes : F.frames (receivedOf body) = before ++ after)
    (hstream : deframeDecode F codec body
      = .ofList (before.map codec.mimeUnrender ++ [.error message])) :
    Untruncated F codec body where
  complete {n x} h := by
    rw [hstream, ofList] at h
    by_cases hn : n < before.length
    · rw [List.getElem?_append_left (by rwa [List.length_map]), List.getElem?_map] at h
      obtain ⟨frame, hframe, hx⟩ := Option.map_eq_some_iff.mp h
      exact ⟨frame, by rwa [hframes, List.getElem?_append_left hn], hx⟩
    · rw [List.getElem?_append_right (by rw [List.length_map]; omega)] at h
      have hmem := List.mem_of_getElem? h
      simp at hmem
  last {n} h := by
    rw [hframes, List.length_append] at h
    rw [hstream, ofList, List.getElem?_eq_none_iff, List.length_append, List.length_map,
      List.length_singleton]
    omega

/-- A body that does not outgrow the buffer: its frames, the error, and what is unfinished. -/
theorem deframeDecode_of_failure (hs : Stable F.deframe) {message : String}
    (hfail : failureOf body = some message) (h : ¬ Overflows F [] (chunksOf body)) :
    deframeDecode F codec body = .ofList ((F.frames (receivedOf body)).map codec.mimeUnrender
      ++ .error message :: leftoverItems hs codec (F.unfinished (receivedOf body))) := by
  rw [deframeDecode_eq_responseItems hs, responseItems_of_not_overflows hs h, hfail]
  rfl

/-- What is unfinished comes behind the error. -/
theorem not_untruncated_of_unfinished (hs : Stable F.deframe) (hf : Flushes F) {message : String}
    (hfail : failureOf body = some message) (h : ¬ Overflows F [] (chunksOf body))
    (hrest : F.unfinished (receivedOf body) ≠ []) : ¬ Untruncated F codec body := by
  intro hall
  have hlast := hall.last (Nat.lt_succ_self (F.frames (receivedOf body)).length)
  rw [deframeDecode_of_failure hs hfail h, ofList, List.getElem?_eq_none_iff, List.length_append,
    List.length_map, List.length_cons] at hlast
  have hitems : leftoverItems hs codec (F.unfinished (receivedOf body)) = [] :=
    List.length_eq_zero_iff.mp (by omega)
  exact hrest ((leftoverItems_eq_nil_iff hs hf (deframe_unfinished hs _)).mp hitems)

end

/-- **When a broken response yields no more than it received.**  Every item is that of a complete
frame and nothing comes behind the error exactly when the bytes received are whole frames, or a
chunk brought the buffer over its limit before the error. -/
theorem transportError_iff {T : Type} {F : Framing} (hF : F ∈ builtin) (codec : Codec T)
    {body : List (Except String Bytes)} {message : String}
    (hfail : failureOf body = some message) :
    Untruncated F codec body ↔
      F.unfinished (receivedOf body) = [] ∨ Overflows F [] (chunksOf body) := by
  have hs := stable_of_mem_builtin hF
  have hf := flushes_of_mem_builtin hF
  constructor
  · intro hall
    by_contra hnot
    rw [not_or] at hnot
    exact not_untruncated_of_unfinished hs hf hfail hnot.2 hnot.1 hall
  · intro h
    by_cases hover : Overflows F [] (chunksOf body)
    · obtain ⟨before, after, hframes, hitems⟩ := responseItems_of_overflows hs codec hover
      exact untruncated_of_eq hframes (by rw [deframeDecode_eq_responseItems hs, hitems])
    · have hitems : leftoverItems hs codec (F.unfinished (receivedOf body)) = [] :=
        (leftoverItems_eq_nil_iff hs hf (deframe_unfinished hs _)).mpr (h.resolve_right hover)
      exact untruncated_of_eq (List.append_nil _).symm
        (by rw [deframeDecode_of_failure hs hfail hover, hitems])

/-- `a`, a newline, `b`, and an error. -/
theorem transportError_iff_newline :
    Untruncated NewlineFraming .octetStream [.ok [97, LF], .ok [98], .error "reset"] ↔
      NewlineFraming.unfinished (receivedOf [.ok [97, LF], .ok [98], .error "reset"]) = [] ∨
        Overflows NewlineFraming [] (chunksOf [.ok [97, LF], .ok [98], .error "reset"]) :=
  transportError_iff (by simp [builtin]) .octetStream rfl

/-- `b` was not received to its end, and is an item behind the error. -/
theorem item_after_transportError :
    deframeDecode NewlineFraming .octetStream [.ok [97, LF], .ok [98], .error "reset"] 2
        = some (.ok [98]) ∧
      ¬ Untruncated NewlineFraming .octetStream [.ok [97, LF], .ok [98], .error "reset"] := by
  have hitem : deframeDecode NewlineFraming .octetStream
      [.ok [97, LF], .ok [98], .error "reset"] 2 = some (.ok [98]) := by decide
  refine ⟨hitem, fun hall => ?_⟩
  obtain ⟨frame, hframe, -⟩ := hall.complete hitem
  have hframes : (NewlineFraming.frames
      (receivedOf [.ok [97, LF], .ok [98], .error "reset"]))[2]? = none := by decide
  rw [hframes] at hframe
  cases hframe

end ServantRs
