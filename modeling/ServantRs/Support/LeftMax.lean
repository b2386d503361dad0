import Mathlib.Order.Lattice
import Mathlib.Order.MinMax
import Mathlib.Data.List.MinMax

/-!
# Support — the left-biased maximum

`leftMax p a b` is the one of `a` and `b` with the higher priority `p`, and `a` when they tie.
It is associative, and it is how `List.argmax` grows at the end of a list.

* `argmax_eq_some_iff_rank`: in a list that ascends by a rank, `List.argmax` is the element of the
  highest priority, and of those of one priority the one of the least rank.
-/

namespace ServantRs

universe u v
variable {α : Type u} {β : Type v} [LinearOrder β] {p : α → β}

/-- The higher of `a` and `b` under `p`, ties to the left. -/
def leftMax (p : α → β) (a b : α) : α := if p a < p b then b else a

theorem leftMax_of_lt {a b : α} (h : p a < p b) : leftMax p a b = b := if_pos h

theorem leftMax_of_le {a b : α} (h : p b ≤ p a) : leftMax p a b = a := if_neg (not_lt.mpr h)

theorem leftMax_assoc (a b c : α) :
    leftMax p (leftMax p a b) c = leftMax p a (leftMax p b c) := by
  rcases lt_or_ge (p a) (p b) with hab | hab
  · rw [leftMax_of_lt hab]
    rcases lt_or_ge (p b) (p c) with hbc | hbc
    · rw [leftMax_of_lt hbc, leftMax_of_lt (hab.trans hbc)]
    · rw [leftMax_of_le hbc, leftMax_of_lt hab]
  · rw [leftMax_of_le hab]
    rcases lt_or_ge (p b) (p c) with hbc | hbc
    · rw [leftMax_of_lt hbc]
    · rw [leftMax_of_le hbc, leftMax_of_le hab, leftMax_of_le (hbc.trans hab)]

/-- The winner is one of the two. -/
theorem leftMax_eq_or (a b : α) : leftMax p a b = a ∨ leftMax p a b = b := by
  rcases lt_or_ge (p a) (p b) with h | h
  · exact .inr (leftMax_of_lt h)
  · exact .inl (leftMax_of_le h)

/-- The maximum of a list with one more element at its end. -/
theorem argmax_concat_leftMax (l : List α) (a : α) :
    (l ++ [a]).argmax p = some ((l.argmax p).elim a (leftMax p · a)) := by
  rw [List.argmax_concat]
  cases l.argmax p with
  | none => rfl
  | some c =>
      show (if p c < p a then some a else some c) = some (leftMax p c a)
      rw [leftMax, apply_ite some]

/-! ### Lists that ascend by a rank -/

section Rank

variable {γ : Type*} [LinearOrder γ] [DecidableEq α] {rank : α → γ} {l : List α} {a b : α}

/-- What comes first in an ascending list has the lower rank. -/
theorem rank_lt_of_idxOf_lt (hl : l.Pairwise fun a b => rank a < rank b) (hb : b ∈ l)
    (h : l.idxOf a < l.idxOf b) : rank a < rank b := by
  have hlen : l.idxOf b < l.length := List.idxOf_lt_length_of_mem hb
  have hlt := List.pairwise_iff_getElem.mp hl _ _ (h.trans hlen) hlen h
  rwa [List.getElem_idxOf, List.getElem_idxOf] at hlt

theorem idxOf_le_idxOf_iff (hl : l.Pairwise fun a b => rank a < rank b) (ha : a ∈ l)
    (hb : b ∈ l) : l.idxOf a ≤ l.idxOf b ↔ rank a ≤ rank b := by
  constructor
  · intro h
    rcases h.lt_or_eq with hlt | heq
    · exact (rank_lt_of_idxOf_lt hl hb hlt).le
    · exact ((List.idxOf_inj ha).mp heq ▸ le_rfl)
  · intro h
    by_contra hlt
    exact absurd (rank_lt_of_idxOf_lt hl ha (not_le.mp hlt)) (not_lt.mpr h)

/-- **The maximum of an ascending list** is the highest, and the first by rank of the highest. -/
theorem argmax_eq_some_iff_rank (hl : l.Pairwise fun a b => rank a < rank b) :
    l.argmax p = some a
      ↔ a ∈ l ∧ (∀ b ∈ l, p b ≤ p a) ∧ ∀ b ∈ l, p a ≤ p b → rank a ≤ rank b := by
  rw [List.argmax_eq_some_iff]
  refine and_congr_right fun ha => and_congr_right fun _ => ?_
  exact forall₂_congr fun b hb => imp_congr_right fun _ => idxOf_le_idxOf_iff hl ha hb

end Rank

end ServantRs
