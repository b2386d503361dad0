import ServantRs.Core.Content
import Mathlib.Data.List.MinMax
import Mathlib.Data.Prod.Lex

/-!
# Messages — what negotiation picks

Two maxima are taken, one inside the other.  A media type is judged by its best range: of the ranges
that match it, the most specific, and of these the highest quality (`bestForOption_eq_argmax`).  Of
the media types that are judged above zero, the one of the highest quality answers, and of these the
most specifically asked for (`foldl_betterOption_eq_argmax`); in both the first wins a tie.

* `negotiateMediaIndex_isSome_iff`: there is an answer when some media type is judged above zero.
-/

namespace ServantRs

theorem lexLt_iff {a b : Nat × Nat} : lexLt a b = true ↔ toLex a < toLex b := by
  simp [lexLt, Prod.Lex.toLex_lt_toLex]

/-! ### Inside: the ranges of one media type -/

/-- What the ranges that match say of a media type: specificity and quality. -/
def candidates (ranges : List MediaRange) (mt : Mime) : List (Nat × Nat) :=
  ranges.filterMap fun r => (rangeSpecificity r mt).map (·, r.quality)

theorem mem_candidates {ranges : List MediaRange} {mt : Mime} {spec q : Nat} :
    (spec, q) ∈ candidates ranges mt
      ↔ ∃ r ∈ ranges, rangeSpecificity r mt = some spec ∧ r.quality = q := by
  simp only [candidates, List.mem_filterMap, Option.map_eq_some_iff, Prod.mk.injEq]
  constructor
  · rintro ⟨r, hr, s, hs, rfl, rfl⟩
    exact ⟨r, hr, hs, rfl⟩
  · rintro ⟨r, hr, hs, rfl⟩
    exact ⟨r, hr, spec, hs, rfl, rfl⟩

/-- **A media type is judged by the greatest pair.** -/
theorem bestForOption_eq_argmax (ranges : List MediaRange) (mt : Mime) :
    bestForOption ranges mt = (candidates ranges mt).argmax toLex := by
  induction ranges using List.reverseRecOn with
  | nil => rfl
  | append_singleton ranges r ih =>
      -- one more range, one more step of the loop
      have hmore : candidates (ranges ++ [r]) mt = candidates ranges mt ++ candidates [r] mt :=
        List.filterMap_append
      rw [bestForOption, List.foldl_append, ← bestForOption, ih, hmore]
      cases hr : rangeSpecificity r mt with
      | none => simp [candidates, hr]
      | some spec =>
          have hone : candidates [r] mt = [(spec, r.quality)] := by simp [candidates, hr]
          rw [hone, List.argmax_concat]
          simp only [List.foldl_cons, List.foldl_nil, hr]
          cases (candidates ranges mt).argmax toLex with
          | none => rfl
          | some cur => simp only [lexLt_iff]

/-- A media type is judged above zero when its best range is, and that is one that matches. -/
theorem exists_range_of_bestForOption {ranges : List MediaRange} {mt : Mime} {spec q : Nat}
    (h : bestForOption ranges mt = some (spec, q)) :
    ∃ r ∈ ranges, rangeSpecificity r mt = some spec ∧ r.quality = q := by
  rw [bestForOption_eq_argmax] at h
  exact mem_candidates.mp (List.argmax_mem h)

/-- No range that matches is above the best. -/
theorem le_of_bestForOption {ranges : List MediaRange} {mt : Mime} {r : MediaRange} {s : Nat}
    (hr : r ∈ ranges) (hs : rangeSpecificity r mt = some s) :
    ∃ spec q, bestForOption ranges mt = some (spec, q) ∧
      toLex (s, r.quality) ≤ toLex (spec, q) := by
  have hmem : (s, r.quality) ∈ candidates ranges mt := mem_candidates.mpr ⟨r, hr, hs, rfl⟩
  rw [bestForOption_eq_argmax]
  cases hbest : (candidates ranges mt).argmax toLex with
  | none =>
      rw [List.argmax_eq_none] at hbest
      rw [hbest] at hmem
      exact absurd hmem List.not_mem_nil
  | some best => exact ⟨best.1, best.2, rfl, List.le_of_mem_argmax hmem hbest⟩

/-! ### Outside: the media types -/

/-- A media type is judged above zero. -/
def Acceptable (ranges : List MediaRange) (mt : Mime) : Prop :=
  ∃ spec q, bestForOption ranges mt = some (spec, q) ∧ 0 < q

/-- A media type in the running: `(index, quality, specificity)`. -/
def contender (ranges : List MediaRange) (p : Mime × Nat) : Option (Nat × Nat × Nat) :=
  (bestForOption ranges p.1).bind fun best =>
    if 0 < best.2 then some (p.2, best.2, best.1) else none

theorem contender_isSome_iff {ranges : List MediaRange} {p : Mime × Nat} :
    (∃ o, contender ranges p = some o) ↔ Acceptable ranges p.1 := by
  rw [contender, Acceptable]
  cases bestForOption ranges p.1 with
  | none => simp
  | some best =>
      obtain ⟨spec, q⟩ := best
      simp

/-- **The answer is the greatest of the media types in the running.** -/
theorem foldl_betterOption_eq_argmax (ranges : List MediaRange) (ps : List (Mime × Nat)) :
    ps.foldl (betterOption ranges) none
      = (ps.filterMap (contender ranges)).argmax fun o => toLex o.2 := by
  induction ps using List.reverseRecOn with
  | nil => rfl
  | append_singleton ps p ih =>
      rw [List.foldl_append, ih, List.filterMap_append, List.foldl_cons, List.foldl_nil,
        betterOption]
      cases hbest : bestForOption ranges p.1 with
      | none => simp [contender, hbest]
      | some best =>
          obtain ⟨spec, q⟩ := best
          by_cases hq : 0 < q
          · have hone : [p].filterMap (contender ranges) = [(p.2, q, spec)] := by
              simp [contender, hbest, hq]
            rw [hone, List.argmax_concat]
            simp only [hq, if_true]
            cases (ps.filterMap (contender ranges)).argmax fun o => toLex o.2 with
            | none => rfl
            | some cur => simp only [lexLt_iff]
          · simp [contender, hbest, hq]

/-- Some media type wins when one is judged above zero. -/
theorem foldl_betterOption_isSome_iff {ranges : List MediaRange} {media : List Mime} :
    (∃ o, media.zipIdx.foldl (betterOption ranges) none = some o)
      ↔ ∃ mt ∈ media, Acceptable ranges mt := by
  rw [foldl_betterOption_eq_argmax]
  constructor
  · rintro ⟨o, ho⟩
    obtain ⟨p, hp, hcontender⟩ := List.mem_filterMap.mp (List.argmax_mem ho)
    exact ⟨p.1, List.fst_mem_of_mem_zipIdx hp, contender_isSome_iff.mp ⟨o, hcontender⟩⟩
  · rintro ⟨mt, hmt, hacceptable⟩
    obtain ⟨i, hi, hget⟩ := List.getElem_of_mem hmt
    have hp : (mt, i) ∈ media.zipIdx := List.mk_mem_zipIdx_iff_getElem?.mpr (by simp [hi, hget])
    have hcontender : ∃ o, contender ranges (mt, i) = some o :=
      (contender_isSome_iff (p := (mt, i))).mpr hacceptable
    obtain ⟨o, ho⟩ := hcontender
    have hmem : o ∈ media.zipIdx.filterMap (contender ranges) := List.mem_filterMap.mpr ⟨_, hp, ho⟩
    refine Option.ne_none_iff_exists'.mp fun hnone => ?_
    rw [List.argmax_eq_none] at hnone
    exact List.ne_nil_of_mem hmem hnone

/-- **There is an answer** when the header asks for something and some media type is judged above
zero by it. -/
theorem negotiateMediaIndex_isSome_iff {accept : Option String} {media : List Mime} :
    (∃ i, negotiateMediaIndex accept media = some i)
      ↔ ∃ ranges, acceptRanges accept = some ranges ∧ ∃ mt ∈ media, Acceptable ranges mt := by
  rw [negotiateMediaIndex]
  by_cases hmedia : media = []
  · simp [hmedia]
  · rw [if_neg hmedia]
    simp only [Option.bind_eq_some_iff, Option.map_eq_some_iff]
    constructor
    · rintro ⟨i, ranges, hranges, o, ho, -⟩
      exact ⟨ranges, hranges, foldl_betterOption_isSome_iff.mp ⟨o, ho⟩⟩
    · rintro ⟨ranges, hranges, hsome⟩
      obtain ⟨o, ho⟩ := foldl_betterOption_isSome_iff.mpr hsome
      exact ⟨o.1, ranges, hranges, o, ho, rfl⟩

end ServantRs
