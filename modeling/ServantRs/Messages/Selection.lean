import ServantRs.Messages.Negotiation
import ServantRs.Support.LeftMax
import Mathlib.Order.Bounds.Basic

/-!
# Messages — what negotiation is for

The ranges of a header give verdicts on a media type, a specificity and a quality each; the greatest
verdict is the media type's rating (`Effective`).  Of a list of media types the answer is the first
of those rated best, quality before specificity (`maximisers`).

* `bestForOption_eq_some_iff`: the inner loop computes the rating.
* `negotiateMediaIndex_eq`: the outer loop is a maximum over the media types in the running.
* `negotiation_spec`: both loops together, and the order of the ranges does not matter.
-/

namespace ServantRs

/-- What the ranges that match a media type say of it: specificity, then quality. -/
def verdicts (ranges : List MediaRange) (mt : Mime) : Set (ℕ ×ₗ ℕ) :=
  {v | ∃ r ∈ ranges, ∃ spec, rangeSpecificity r mt = some spec ∧ v = toLex (spec, r.quality)}

/-- The rating of a media type: the greatest verdict on it. -/
def Effective (ranges : List MediaRange) (mt : Mime) (spec q : ℕ) : Prop :=
  IsGreatest (verdicts ranges mt) (toLex (spec, q))

/-- The rating of the media type at an index of a list. -/
def Rated (ranges : List MediaRange) (media : List Mime) (i spec q : ℕ) : Prop :=
  ∃ mt, media[i]? = some mt ∧ Effective ranges mt spec q

/-- The indices rated best, quality before specificity. -/
def maximisers (ranges : List MediaRange) (media : List Mime) : Set ℕ :=
  {i | ∃ spec q, Rated ranges media i spec q ∧
    ∀ j spec' q', Rated ranges media j spec' q' → toLex (q', spec') ≤ toLex (q, spec)}

/-- The ranges of a header: an absent or blank one asks for anything, and a malformed range is
none. -/
def validRanges : Option String → List MediaRange
  | none   => [starRange]
  | some h => if trim h = "" then [starRange] else parseAccept h

/-! ### Ratings -/

theorem mem_verdicts {ranges : List MediaRange} {mt : Mime} {spec q : ℕ} :
    toLex (spec, q) ∈ verdicts ranges mt ↔ (spec, q) ∈ candidates ranges mt := by
  rw [mem_candidates]
  constructor
  · rintro ⟨r, hr, s, hs, heq⟩
    obtain ⟨rfl, rfl⟩ := Prod.mk.inj (toLex.injective heq)
    exact ⟨r, hr, hs, rfl⟩
  · rintro ⟨r, hr, hs, rfl⟩
    exact ⟨r, hr, spec, hs, rfl⟩

/-- **The inner loop computes the rating.** -/
theorem bestForOption_eq_some_iff {ranges : List MediaRange} {mt : Mime} {spec q : ℕ} :
    bestForOption ranges mt = some (spec, q) ↔ Effective ranges mt spec q := by
  constructor
  · intro h
    have hmem : toLex (spec, q) ∈ verdicts ranges mt :=
      mem_verdicts.mpr (mem_candidates.mpr (exists_range_of_bestForOption h))
    refine ⟨hmem, ?_⟩
    rintro v ⟨r, hr, s, hs, rfl⟩
    obtain ⟨spec', q', hbest, hle⟩ := le_of_bestForOption hr hs
    obtain ⟨rfl, rfl⟩ := Prod.mk.inj (Option.some.inj (h.symm.trans hbest))
    exact hle
  · intro h
    -- a range that matches keeps the loop from ending empty-handed
    obtain ⟨r, hr, hs, rfl⟩ := mem_candidates.mp (mem_verdicts.mp h.1)
    obtain ⟨spec', q', hbest, hge⟩ := le_of_bestForOption hr hs
    have hsaid : toLex (spec', q') ∈ verdicts ranges mt :=
      mem_verdicts.mpr (mem_candidates.mpr (exists_range_of_bestForOption hbest))
    rw [hbest, toLex.injective (le_antisymm (h.2 hsaid) hge)]

/-- Only which ranges there are counts. -/
theorem bestForOption_congr {ranges ranges' : List MediaRange} (h : ∀ r, r ∈ ranges ↔ r ∈ ranges')
    (mt : Mime) : bestForOption ranges mt = bestForOption ranges' mt := by
  have hverdicts : verdicts ranges mt = verdicts ranges' mt := by simp only [verdicts, h]
  refine Option.ext fun best => ?_
  obtain ⟨spec, q⟩ := best
  rw [bestForOption_eq_some_iff, bestForOption_eq_some_iff, Effective, Effective, hverdicts]

/-! ### The media types in the running -/

theorem contender_eq_some_iff {ranges : List MediaRange} {p : Mime × ℕ} {i q spec : ℕ} :
    contender ranges p = some (i, q, spec) ↔ p.2 = i ∧ Effective ranges p.1 spec q ∧ 0 < q := by
  rw [contender, Option.bind_eq_some_iff]
  constructor
  · rintro ⟨⟨spec', q'⟩, hbest, h⟩
    by_cases hq : 0 < q'
    · rw [if_pos hq] at h
      cases h
      exact ⟨rfl, bestForOption_eq_some_iff.mp hbest, hq⟩
    · rw [if_neg hq] at h
      cases h
  · rintro ⟨rfl, heff, hq⟩
    exact ⟨(spec, q), bestForOption_eq_some_iff.mpr heff, if_pos hq⟩

theorem mem_contenders {ranges : List MediaRange} {media : List Mime} {i q spec : ℕ} :
    (i, q, spec) ∈ media.zipIdx.filterMap (contender ranges)
      ↔ Rated ranges media i spec q ∧ 0 < q := by
  rw [List.mem_filterMap]
  constructor
  · rintro ⟨⟨mt, j⟩, hmem, h⟩
    obtain ⟨rfl, heff, hq⟩ := contender_eq_some_iff.mp h
    exact ⟨⟨mt, List.mk_mem_zipIdx_iff_getElem?.mp hmem, heff⟩, hq⟩
  · rintro ⟨⟨mt, hmt, heff⟩, hq⟩
    exact ⟨(mt, i), List.mk_mem_zipIdx_iff_getElem?.mpr hmt,
      contender_eq_some_iff.mpr ⟨rfl, heff, hq⟩⟩

/-- The media types in the running stand in the order of their indices. -/
theorem pairwise_contenders (ranges : List MediaRange) (media : List Mime) :
    (media.zipIdx.filterMap (contender ranges)).Pairwise fun a b => a.1 < b.1 := by
  rw [List.pairwise_filterMap]
  have hindices : media.zipIdx.Pairwise fun a b => a.2 < b.2 := by
    have hrange : (media.zipIdx.map Prod.snd).Pairwise (· < ·) := by
      rw [List.zipIdx_map_snd]
      exact List.pairwise_lt_range'
    exact List.pairwise_map.mp hrange
  refine hindices.imp fun {a b} hab => ?_
  rintro ⟨i, q, spec⟩ ha ⟨j, q', spec'⟩ hb
  obtain ⟨rfl, -⟩ := contender_eq_some_iff.mp ha
  obtain ⟨rfl, -⟩ := contender_eq_some_iff.mp hb
  exact hab

/-- **The outer loop is a maximum.** -/
theorem negotiateMediaIndex_eq (accept : Option String) (media : List Mime) :
    negotiateMediaIndex accept media
      = ((media.zipIdx.filterMap (contender (validRanges accept))).argmax
          fun o => toLex o.2).map (·.1) := by
  rw [negotiateMediaIndex]
  by_cases hmedia : media = []
  · rw [if_pos hmedia, hmedia]
    rfl
  · have hranges : acceptRanges accept = if validRanges accept = [] then none
        else some (validRanges accept) := by
      cases accept with
      | none => rfl
      | some h =>
          by_cases hblank : trim h = ""
          · simp [acceptRanges, validRanges, hblank]
          · cases hparsed : parseAccept h <;> simp [acceptRanges, validRanges, hblank, hparsed]
    rw [if_neg hmedia, hranges]
    by_cases hnone : validRanges accept = []
    · -- without a range nothing is in the running
      have hempty : media.zipIdx.filterMap (contender []) = [] :=
        List.filterMap_eq_nil_iff.mpr fun p _ => rfl
      rw [if_pos hnone, hnone, hempty]
      rfl
    · rw [if_neg hnone, Option.bind_some, foldl_betterOption_eq_argmax]

/-! ### The specification -/

theorem negotiateMediaIndex_eq_none_iff {accept : Option String} {media : List Mime} :
    negotiateMediaIndex accept media = none
      ↔ ∀ mt ∈ media, ∀ spec q, Effective (validRanges accept) mt spec q → ¬ 0 < q := by
  rw [negotiateMediaIndex_eq, Option.map_eq_none_iff, List.argmax_eq_none,
    List.eq_nil_iff_forall_not_mem]
  constructor
  · intro h mt hmt spec q heff hq
    obtain ⟨i, hi⟩ := List.mem_iff_getElem?.mp hmt
    exact h (i, q, spec) (mem_contenders.mpr ⟨⟨mt, hi, heff⟩, hq⟩)
  · rintro h ⟨i, q, spec⟩ hmem
    obtain ⟨⟨mt, hi, heff⟩, hq⟩ := mem_contenders.mp hmem
    exact h mt (List.mem_of_getElem? hi) spec q heff hq

theorem isLeast_of_negotiateMediaIndex {accept : Option String} {media : List Mime} {i : ℕ}
    (h : negotiateMediaIndex accept media = some i) :
    IsLeast (maximisers (validRanges accept) media) i := by
  rw [negotiateMediaIndex_eq] at h
  obtain ⟨⟨i, q, spec⟩, hbest, rfl⟩ := Option.map_eq_some_iff.mp h
  obtain ⟨hmem, hmax, hfirst⟩ :=
    (argmax_eq_some_iff_rank (pairwise_contenders _ _)).mp hbest
  obtain ⟨hrated, hq⟩ := mem_contenders.mp hmem
  constructor
  · refine ⟨spec, q, hrated, fun j spec' q' hj => ?_⟩
    rcases Nat.eq_zero_or_pos q' with rfl | hq'
    · exact (Prod.Lex.toLex_lt_toLex.mpr (.inl hq)).le
    · exact hmax (j, q', spec') (mem_contenders.mpr ⟨hj, hq'⟩)
  · rintro j ⟨spec', q', hj, hmax'⟩
    -- another of the best has the same quality, so it is in the running too
    have hle : toLex (q, spec) ≤ toLex (q', spec') := hmax' i spec q hrated
    have hq' : 0 < q' := by
      rcases Prod.Lex.toLex_le_toLex.mp hle with hlt | ⟨heq, -⟩
      · exact hq.trans hlt
      · obtain rfl : q = q' := heq
        exact hq
    exact hfirst (j, q', spec') (mem_contenders.mpr ⟨hj, hq'⟩) hle

/-! ### The order of the ranges -/

/-- A header with a comma is not blank. -/
theorem trim_ne_of_comma {h : String} (hc : ',' ∈ h.toList) : trim h ≠ "" := fun hblank =>
  absurd (isWhiteSpace_of_trim_eq_empty hblank hc) (by decide)

theorem eq_of_perm_of_notMem {h h' : String} (hc : ',' ∉ h.toList)
    (hperm : (splitChar ',' h).Perm (splitChar ',' h')) : h = h' := by
  rw [splitChar_of_notMem hc, List.singleton_perm] at hperm
  have hjoin := intercalate_splitChar ',' h'
  rwa [← hperm, String.intercalate_singleton] at hjoin

/-- Headers of the same pieces have the same ranges, in some order. -/
theorem mem_validRanges_of_perm {h h' : String} (hperm : (splitChar ',' h).Perm (splitChar ',' h'))
    (r : MediaRange) : r ∈ validRanges (some h) ↔ r ∈ validRanges (some h') := by
  by_cases hc : ',' ∈ h.toList
  · by_cases hc' : ',' ∈ h'.toList
    · rw [validRanges, validRanges, if_neg (trim_ne_of_comma hc), if_neg (trim_ne_of_comma hc')]
      exact (hperm.filterMap parseRange).mem_iff
    · rw [eq_of_perm_of_notMem hc' hperm.symm]
  · rw [eq_of_perm_of_notMem hc hperm]

theorem negotiateMediaIndex_perm {h h' : String} (hperm : (splitChar ',' h).Perm (splitChar ',' h'))
    (media : List Mime) :
    negotiateMediaIndex (some h) media = negotiateMediaIndex (some h') media := by
  have hcontender : contender (validRanges (some h)) = contender (validRanges (some h')) :=
    funext fun p => by
      rw [contender, contender, bestForOption_congr (mem_validRanges_of_perm hperm)]
  rw [negotiateMediaIndex_eq, negotiateMediaIndex_eq, hcontender]

/-- **Negotiation computes what it is for.**  There is no answer when no media type is rated above
zero; an answer is the first of those rated best; and the order of the ranges does not matter. -/
theorem negotiation_spec (media : List Mime) :
    (∀ accept, negotiateMediaIndex accept media = none
      ↔ ∀ mt ∈ media, ∀ spec q, Effective (validRanges accept) mt spec q → ¬ 0 < q) ∧
    (∀ accept i, negotiateMediaIndex accept media = some i →
      IsLeast (maximisers (validRanges accept) media) i) ∧
    ∀ h h', (splitChar ',' h).Perm (splitChar ',' h') →
      negotiateMediaIndex (some h) media = negotiateMediaIndex (some h') media :=
  ⟨fun _ => negotiateMediaIndex_eq_none_iff, fun _ _ => isLeast_of_negotiateMediaIndex,
    fun _ _ hperm => negotiateMediaIndex_perm hperm media⟩

end ServantRs
