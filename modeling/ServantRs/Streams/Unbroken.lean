import ServantRs.Streams.Events
import ServantRs.Streams.Frames

/-!
# Streams — when lines are one block

Lines are written behind labels, with a newline behind each, and an empty line behind the last one.
They are one block exactly if no text on them, its newline included, holds a blank line of any kind
(`Unbroken`): a label begins each line with a character that ends none, so no blank line begins in
one line and ends in the next.
-/

namespace ServantRs

open Framing EventStreamFraming

/-- The blank lines at which an event ends. -/
def blankLines : List String := ["\n\n", "\n\r\n", "\r\r", "\r\n\r\n"]

/-- No blank line is in a text with a newline behind it. -/
def Unbroken (text : String) : Prop := ∀ m ∈ blankLines, ¬ m.toList <:+: text.toList ++ ['\n']

theorem eventMarks_eq : eventMarks = blankLines.map utf8Bytes := by decide

theorem blankLines_ascii : ∀ m ∈ blankLines, ∀ c ∈ m.toList, c.toNat < 128 := by
  simp [blankLines]

theorem utf8Bytes_newline (text : String) :
    utf8Bytes text ++ [LF] = (text.toList ++ ['\n']).flatMap String.utf8EncodeChar := by
  rw [List.flatMap_append]
  rfl

/-- The bytes of a text hold an event's end where the text holds a blank line. -/
theorem findEventEnd_text {text : String} :
    findEventEnd (utf8Bytes text ++ [LF]) = none ↔ Unbroken text := by
  rw [findEventEnd_eq_none_iff, eventMarks_eq, List.forall_mem_map, utf8Bytes_newline]
  exact forall₂_congr fun m hm => not_congr (infix_utf8_iff (blankLines_ascii m hm))

/-- A label in front changes nothing. -/
theorem findEventEnd_labelled {label text : String} (h : EventLine label) :
    findEventEnd (utf8Bytes (label ++ text) ++ [LF]) = none ↔ Unbroken text := by
  rw [utf8Bytes_append, List.append_assoc, findEventEnd_line _ (mt LF_mem_utf8Bytes.mp h.newline)
    (mt CR_mem_utf8Bytes.mp h.carriageReturn), Option.map_eq_none_iff, findEventEnd_text]

/-! ### The frames of a body -/

theorem bodyFrames_of_some {buf : Bytes} {i j : Nat} (h : findEventEnd buf = some (i, j)) :
    bodyFrames EventStreamFraming buf
      = buf.take i :: bodyFrames EventStreamFraming (buf.drop j) := by
  have hs : Stable (Framing.deframe EventStreamFraming) := EventStreamFraming.stable
  have hdeframe : Framing.deframe EventStreamFraming buf false = (some (buf.take i), buf.drop j) :=
    cutAt_of_some h
  rw [bodyFrames, frames_of_some hs hdeframe, unfinished_of_some hs hdeframe]
  rfl

/-- A body of no frames is empty. -/
theorem eq_nil_of_bodyFrames {buf : Bytes} (h : bodyFrames EventStreamFraming buf = []) :
    buf = [] := by
  have hs : Stable (Framing.deframe EventStreamFraming) := EventStreamFraming.stable
  obtain ⟨hframes, hlast⟩ := List.append_eq_nil_iff.mp h
  refine eq_nil_of_unfinished hframes hs ?_
  have hnone := deframe_unfinished hs buf
  -- what is unfinished at the end is a frame, unless it is nothing
  by_contra hne
  cases hfind : findEventEnd (unfinished EventStreamFraming buf) with
  | some ends =>
      have hsome := (cutAt_of_some hfind).symm.trans hnone
      cases hsome
  | none =>
      have hflush : Framing.deframe EventStreamFraming (unfinished EventStreamFraming buf) true
          = (some (unfinished EventStreamFraming buf), []) :=
        (cutAt_of_none hfind).trans (if_pos ⟨rfl, hne⟩)
      rw [hflush] at hlast
      cases hlast

section

variable {ws : List (String × String)}

/-- The lines of some texts behind their labels. -/
def labelledLines (ws : List (String × String)) : List String := ws.map fun w => w.1 ++ w.2

theorem labelledLines_ne_nil (h : ws ≠ []) : labelledLines ws ≠ [] := mt List.map_eq_nil_iff.mp h

theorem headed_labelledLines (h : ∀ w ∈ ws, EventLine w.1) :
    ∀ l ∈ labelledLines ws, Headed (utf8Bytes l) := by
  intro l hl
  obtain ⟨w, hw, rfl⟩ := List.mem_map.mp hl
  rw [utf8Bytes_append]
  exact (headed_utf8Bytes (h w hw)).append _

/-- Lines without a blank line in their texts are one frame. -/
theorem bodyFrames_of_unbroken (hne : ws ≠ []) (h : ∀ w ∈ ws, EventLine w.1)
    (hunbroken : ∀ w ∈ ws, Unbroken w.2) :
    bodyFrames EventStreamFraming (utf8Bytes ("\n".intercalate (labelledLines ws)) ++ [LF, LF])
      = [utf8Bytes ("\n".intercalate (labelledLines ws))] := by
  have hnone : ∀ l ∈ labelledLines ws, findEventEnd (utf8Bytes l ++ [LF]) = none := by
    intro l hl
    obtain ⟨w, hw, rfl⟩ := List.mem_map.mp hl
    exact (findEventEnd_labelled (h w hw)).mpr (hunbroken w hw)
  have hend := findEventEnd_intercalate [] (labelledLines_ne_nil hne) (headed_labelledLines h)
    hnone
  rw [bodyFrames_of_some hend, List.take_left, List.drop_length_add_append]
  rfl

/-- Lines with a blank line in one of their texts are more frames than one. -/
theorem unbroken_of_bodyFrames (hne : ws ≠ []) (h : ∀ w ∈ ws, EventLine w.1) {block : Bytes}
    (hblock : bodyFrames EventStreamFraming
      (utf8Bytes ("\n".intercalate (labelledLines ws)) ++ [LF, LF]) = [block]) :
    ∀ w ∈ ws, Unbroken w.2 := by
  have hlines : utf8Bytes ("\n".intercalate (labelledLines ws)) ++ [LF, LF]
      = ((labelledLines ws).map utf8Bytes).flatMap (· ++ [LF]) ++ [LF] := by
    rw [← utf8Bytes_intercalate (labelledLines_ne_nil hne), List.append_assoc]
    rfl
  by_contra hbroken
  obtain ⟨w, hw, hbroken⟩ : ∃ w ∈ ws, ¬ Unbroken w.2 := by
    simpa using hbroken
  have hline : w.1 ++ w.2 ∈ labelledLines ws := List.mem_map.mpr ⟨w, hw, rfl⟩
  obtain ⟨i, j, hend, hj⟩ := findEventEnd_broken
    (List.forall_mem_map.mpr (headed_labelledLines h))
    ⟨_, List.mem_map.mpr ⟨_, hline, rfl⟩, mt (findEventEnd_labelled (h w hw)).mp hbroken⟩
  rw [hlines, bodyFrames_of_some hend, List.cons.injEq] at hblock
  -- the last newline at least is left
  have hrest := eq_nil_of_bodyFrames hblock.2
  rw [List.drop_eq_nil_iff, List.length_append, List.length_singleton] at hrest
  omega

end

end ServantRs
