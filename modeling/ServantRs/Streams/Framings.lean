import ServantRs.Streams.Blocks
import ServantRs.Streams.Netstring

/-!
# Streams — the framings of the library

They are stable, all four: `stable_of_mem_builtin`, `stableWithin_of_mem_builtin`.  What is
received of a body is its chunks, and why there are no more of them if the body failed.
-/

namespace ServantRs

open Framing

/-! ### What is received of a body -/

/-- The chunks of a body before the first one that could not be read. -/
def chunksOf : List (Except String Bytes) → List Bytes
  | []                => []
  | .ok chunk :: body => chunk :: chunksOf body
  | .error _ :: _     => []

/-- Why a chunk could not be read. -/
def failureOf : List (Except String Bytes) → Option String
  | []                  => none
  | .ok _ :: body       => failureOf body
  | .error message :: _ => some message

theorem chunksOf_map_ok : ∀ chunks : List Bytes, chunksOf (chunks.map .ok) = chunks
  | [] => rfl
  | chunk :: chunks => congrArg (chunk :: ·) (chunksOf_map_ok chunks)

theorem failureOf_map_ok : ∀ chunks : List Bytes, failureOf (chunks.map .ok) = none
  | [] => rfl
  | _ :: chunks => failureOf_map_ok chunks

/-! ### Stability -/

theorem stable_of_mem_builtin {F : Framing} (h : F ∈ builtin) : Stable F.deframe := by
  simp only [builtin, List.mem_cons, List.not_mem_nil, or_false] at h
  rcases h with rfl | rfl | rfl | rfl
  · exact stable_flushAtEof
  · exact NewlineFraming.stable
  · exact NetstringFraming.stable
  · exact EventStreamFraming.stable

theorem stableWithin_of_mem_builtin {F : Framing} (h : F ∈ builtin) (max : Nat) :
    StableWithin F.deframeLimited max := by
  simp only [builtin, List.mem_cons, List.not_mem_nil, or_false] at h
  rcases h with rfl | rfl | rfl | rfl
  · exact stable_flushAtEof.within max
  · exact NewlineFraming.stable.within max
  · exact NetstringFraming.stableWithin max
  · exact EventStreamFraming.stable.within max

end ServantRs
