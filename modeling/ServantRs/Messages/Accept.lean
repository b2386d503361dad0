import ServantRs.Client.Build
import ServantRs.Messages.MediaText
import ServantRs.Messages.Negotiation
import ServantRs.Server.Handler

/-!
# Messages — a client before its own server

The client asks for the media types of its endpoint, each as it is written; the server compares what
is asked with the subtypes of the same media types, which end before a `+suffix`.  So a media type
with a suffix is asked for by no range, its own included.

* `MediaText.rangeSpecificity_range`: which media types a range stands for.
* `own_accept_iff`: when the server accepts what its client asks for.
-/

namespace ServantRs

/-! ### What is asked for -/

namespace MediaText

/-- A range stands for a media type when type and whole subtype are the same, up to case. -/
theorem rangeSpecificity_range {t t' : MediaText} {r : MediaRange} (h : t.range = some r)
    {s : Nat} : rangeSpecificity r t'.toMime = some s
      ↔ s = 3 ∧ toAsciiLowercase t.type_.text = toAsciiLowercase t'.type_.text ∧
        toAsciiLowercase t.fullSubtype = toAsciiLowercase t'.subtype.text := by
  obtain ⟨quality, -, rfl⟩ := Option.map_eq_some_iff.mp h
  have hsubtype : toAsciiLowercase t.fullSubtype ≠ "*" :=
    fun hstar => t.fullSubtype_ne_star (toAsciiLowercase_eq_star hstar)
  simp only [rangeSpecificity, eqIgnoreAsciiCase, hsubtype, and_false, false_and, if_false,
    toAsciiLowercase_idem, decide_eq_true_eq, toMime, Option.ite_none_right_eq_some]
  constructor
  · rintro ⟨⟨htype, hsub⟩, hs⟩
    exact ⟨(Option.some.inj hs).symm, htype, hsub⟩
  · rintro ⟨rfl, htype, hsub⟩
    exact ⟨⟨htype, hsub⟩, rfl⟩

/-- Only a media type without a suffix asks for one of its list. -/
theorem suffix_of_lower_eq {t t' : MediaText}
    (h : toAsciiLowercase t.fullSubtype = toAsciiLowercase t'.subtype.text) : t.suffix = none := by
  by_contra hsuffix
  have hplus : '+' ∈ (toAsciiLowercase t.fullSubtype).toList :=
    mem_toAsciiLowercase (by decide) (t.plus_mem_fullSubtype.mpr hsuffix)
  rw [h] at hplus
  exact t'.plus (mem_of_mem_toAsciiLowercase (by decide) hplus)

/-- **Which media types of a list are accepted by the list's own ranges**: some one is when one has
no suffix and does not refuse itself. -/
theorem exists_acceptable_iff (texts : List MediaText) :
    (∃ mt ∈ texts.map toMime, Acceptable (texts.filterMap range) mt)
      ↔ ∃ t ∈ texts, t.suffix = none ∧ t.Weighty := by
  constructor
  · rintro ⟨mt, hmt, spec, q, hbest, hq⟩
    obtain ⟨t', -, rfl⟩ := List.mem_map.mp hmt
    obtain ⟨r, hr, hspec, rfl⟩ := exists_range_of_bestForOption hbest
    obtain ⟨t, ht, hrange⟩ := List.mem_filterMap.mp hr
    obtain ⟨-, -, hsub⟩ := (rangeSpecificity_range hrange).mp hspec
    exact ⟨t, ht, suffix_of_lower_eq hsub, t.range_pos_iff.mp ⟨r, hrange, hq⟩⟩
  · rintro ⟨t, ht, hsuffix, hweighty⟩
    obtain ⟨r, hrange, hpos⟩ := t.range_pos_iff.mpr hweighty
    have hr : r ∈ texts.filterMap range := List.mem_filterMap.mpr ⟨t, ht, hrange⟩
    have hspec : rangeSpecificity r t.toMime = some 3 := by
      rw [rangeSpecificity_range hrange, fullSubtype_of_none hsuffix]
      exact ⟨rfl, rfl, rfl⟩
    -- a range that does better is as specific, so its quality is no lower
    obtain ⟨spec, q, hbest, hle⟩ := le_of_bestForOption hr hspec
    obtain ⟨r', hr', hspec', rfl⟩ := exists_range_of_bestForOption hbest
    obtain ⟨t', -, hrange'⟩ := List.mem_filterMap.mp hr'
    obtain ⟨rfl, -, -⟩ := (rangeSpecificity_range hrange').mp hspec'
    have hquality : r.quality ≤ r'.quality := by
      rcases Prod.Lex.toLex_le_toLex.mp hle with hlt | ⟨-, hle⟩
      · exact absurd hlt (Nat.lt_irrefl 3)
      · exact hle
    exact ⟨t.toMime, List.mem_map.mpr ⟨t, ht, rfl⟩, 3, r'.quality, hbest,
      Nat.lt_of_lt_of_le hpos hquality⟩

/-- The header of a list of media types is not blank. -/
theorem trim_header_ne (t : MediaText) (ts : List MediaText) :
    trim (", ".intercalate ((t :: ts).map text)) ≠ "" := by
  intro hblank
  obtain ⟨c, cs, hcs, hc⟩ := t.type_.exists_cons
  obtain ⟨mid, b, htext⟩ := t.exists_text
  obtain ⟨rest, hrest⟩ := exists_intercalate_cons ", " t.text (ts.map text)
  have hmem : c ∈ (", ".intercalate ((t :: ts).map text)).toList := by
    rw [List.map_cons, hrest, htext]
    simp [hcs]
  have hwhite := isWhiteSpace_of_trim_eq_empty hblank hmem
  rw [isWhiteSpace_of_isTokenChar hc] at hwhite
  cases hwhite

/-- What the header of media types asks for; nothing when every weight is no number. -/
theorem acceptRanges_texts {t : MediaText} {ts : List MediaText} {ranges : List MediaRange} :
    acceptRanges (some (", ".intercalate ((t :: ts).map text))) = some ranges
      ↔ ranges ≠ [] ∧ (t :: ts).filterMap range = ranges := by
  rw [acceptRanges, if_neg (trim_header_ne t ts), parseAccept_texts]
  cases (t :: ts).filterMap range with
  | nil =>
      constructor
      · intro h
        cases h
      · rintro ⟨hne, rfl⟩
        exact absurd rfl hne
  | cons r rs =>
      constructor
      · intro h
        obtain rfl := Option.some.inj h
        exact ⟨List.cons_ne_nil r rs, rfl⟩
      · rintro ⟨-, rfl⟩
        rfl

/-- A list of media types answers the header of its own. -/
theorem negotiate_own_iff {texts : List MediaText} (hne : texts ≠ []) :
    (∃ i, negotiateMediaIndex (some (", ".intercalate (texts.map text))) (texts.map toMime)
        = some i)
      ↔ ∃ t ∈ texts, t.suffix = none ∧ t.Weighty := by
  obtain ⟨t, ts, rfl⟩ := List.exists_cons_of_ne_nil hne
  rw [negotiateMediaIndex_isSome_iff, ← exists_acceptable_iff]
  constructor
  · rintro ⟨ranges, hranges, hsome⟩
    obtain ⟨-, rfl⟩ := acceptRanges_texts.mp hranges
    exact hsome
  · rintro ⟨mt, hmt, hacceptable⟩
    have hsome : (t :: ts).filterMap range ≠ [] := by
      -- with no range at all, nothing is judged
      intro hnil
      rw [hnil] at hacceptable
      obtain ⟨spec, q, hbest, -⟩ := hacceptable
      cases hbest
    exact ⟨_, acceptRanges_texts.mpr ⟨hsome, rfl⟩, mt, hmt, hacceptable⟩

end MediaText

/-! ### Client and server -/

/-- A client asks for the media types of its endpoint. -/
theorem Terminal.accept_buildRequest {t : Terminal} (h : t.mediaTypes ≠ []) (req : ClientRequest) :
    (t.buildRequest req).accept = t.mediaTypes := by
  cases t with
  | noContentVerb => exact absurd rfl h
  | verb | verbWithHeaders | uverb | streamVerb => rfl

section

variable [AppTypes] [PercentEncoding] [HttpCrate]

/-- What a client builds ends with its terminal. -/
theorem Chain.exists_terminal_buildRequest : ∀ (c : Chain) (h : c.HasClient) {args : c.Args}
    {req req' : ClientRequest}, c.buildRequest h args req = .ok req' →
      ∃ req₀, req' = c.terminal.buildRequest req₀
  | verb t, _, _, req, _, hb => ⟨req, (Except.ok.inj hb).symm⟩
  | sub (.path _) next, h, _, _, _, hb | sub (.capture ..) next, h, (_, _), _, _, hb
  | sub (.captureAll ..) next, h, (_, _), _, _, hb | sub (.queryParam ..) next, h, (_, _), _, _, hb
  | sub (.queryParams ..) next, h, (_, _), _, _, hb | sub (.queryFlag _) next, h, (_, _), _, _, hb
  | sub .queryString next, h, (_, _), _, _, hb | sub (.deepQuery ..) next, h, (_, _), _, _, hb
  | sub (.header ..) next, h, (_, _), _, _, hb | sub (.streamBody ..) next, h, (_, _), _, _, hb
  | sub (.fragment ..) next, h, _, _, _, hb | sub (.description _) next, h, _, _, _, hb
  | sub (.summary _) next, h, _, _, _, hb | sub (.operationId _) next, h, _, _, _, hb =>
      next.exists_terminal_buildRequest h.2 hb
  | sub (.host _) next, h, _, _, _, hb => by
      obtain ⟨value, -, hb⟩ := of_bind_eq_ok hb
      exact next.exists_terminal_buildRequest h.2 hb
  | sub (.reqBody _ ctypes S) next, h, (a, _), _, _, hb => by
      rw [buildRequest] at hb
      split at hb
      · obtain ⟨rendered, -, hb⟩ := of_bind_eq_ok hb
        exact next.exists_terminal_buildRequest h.2 hb
      · exact next.exists_terminal_buildRequest h.2 hb
  | sub .vault _, h, _, _, _, _ | sub (.withResource _) _, h, _, _, _, _
  | sub (.basicAuth ..) _, h, _, _, _, _ | sub (.authProtect _) _, h, _, _, _, _
  | sub .isSecure _, h, _, _, _, _ | sub .httpVersion _, h, _, _, _, _
  | sub .remoteHost _, h, _, _, _, _ | sub (.withNamedContext _) _, h, _, _, _, _ => h.1.elim

/-- **A server accepts its own client** if and only if some media type of the endpoint has no suffix
and does not refuse itself by a weight. -/
theorem own_accept_iff {c : Chain} (h : c.HasClient) {args : c.Args} {creq : ClientRequest}
    (hb : c.buildRequest h args .new = .ok creq) {texts : List MediaText} (hne : texts ≠ [])
    (hmedia : c.terminal.mediaTypes = texts.map MediaText.toMime) :
    c.acceptCheck creq.acceptHeader = .route () ↔ ∃ t ∈ texts, t.suffix = none ∧ t.Weighty := by
  have hsome : c.terminal.mediaTypes ≠ [] := by
    rw [hmedia, ne_eq, List.map_eq_nil_iff]
    exact hne
  obtain ⟨req₀, rfl⟩ := c.exists_terminal_buildRequest h hb
  have hheader : (c.terminal.buildRequest req₀).acceptHeader
      = some (", ".intercalate (texts.map MediaText.text)) := by
    rw [ClientRequest.acceptHeader, Terminal.accept_buildRequest hsome, if_neg hsome, hmedia,
      List.map_map]
    rfl
  have hcontent : ∀ M, c.terminal ≠ .noContentVerb M := fun M ht => hsome (by rw [ht]; rfl)
  rw [Chain.acceptCheck_eq_route_iff hcontent, hheader, hmedia]
  exact MediaText.negotiate_own_iff hne

end

/-! ### An API of two versions -/

section

attribute [local instance] PercentEncoding.reference AppTypes.reference HttpCrate.reference

/-- `application/vnd.api+json`. -/
def vndApiJson : MediaText where
  type_ := ⟨"application", by decide, List.all_eq_true.mp rfl⟩
  subtype := ⟨"vnd.api", by decide, List.all_eq_true.mp rfl⟩
  suffix := some "json"
  params := []
  type_ne_star := by decide
  subtype_ne_star := by decide
  plus := by decide
  suffix_chars s hs := by
    obtain rfl := Option.some.inj hs
    exact List.all_eq_true.mp rfl

/-- `version=1`, behind a blank. -/
def versionParam : MediaParam where
  pad := " "
  name := ⟨"version", by decide, List.all_eq_true.mp rfl⟩
  value := ⟨"1", by decide, List.all_eq_true.mp rfl⟩
  blank c hc := .inl (List.mem_singleton.mp hc)

/-- `application/json; version=1`. -/
def jsonVersion : MediaText where
  type_ := ⟨"application", by decide, List.all_eq_true.mp rfl⟩
  subtype := ⟨"json", by decide, List.all_eq_true.mp rfl⟩
  suffix := none
  params := [versionParam]
  type_ne_star := by decide
  subtype_ne_star := by decide
  plus := by decide
  suffix_chars s hs := nomatch hs

/-- A `GET` that answers with bytes in each of the media types. -/
def getChain (texts : List MediaText) : Chain :=
  .verb (.verb .GET .OK Bytes (texts.map fun t => ⟨.ofMime t.toMime, .ok, .ok⟩))

theorem getChain_mediaTypes (texts : List MediaText) :
    (getChain texts).terminal.mediaTypes = texts.map MediaText.toMime := by
  induction texts with
  | nil => rfl
  | cons t ts ih => exact congrArg (t.toMime :: ·) ih

theorem own_accept_jsonVersion :
    ∃ creq, (getChain [vndApiJson, jsonVersion]).buildRequest trivial () .new = .ok creq ∧
      (getChain [vndApiJson, jsonVersion]).acceptCheck creq.acceptHeader = .route () := by
  have hmem : jsonVersion ∈ [vndApiJson, jsonVersion] := List.mem_cons_of_mem _ List.mem_cons_self
  obtain ⟨creq, hb⟩ : ∃ creq,
      (getChain [vndApiJson, jsonVersion]).buildRequest trivial () .new = .ok creq := ⟨_, rfl⟩
  refine ⟨creq, hb, (own_accept_iff _ hb (List.ne_nil_of_mem hmem)
    (getChain_mediaTypes _)).mpr ?_⟩
  have hweights : jsonVersion.weights = [] := rfl
  refine ⟨jsonVersion, hmem, rfl, ?_⟩
  rw [MediaText.Weighty, hweights]
  simp

/-- A client of `application/vnd.api+json` alone is answered 406 by its own server. -/
theorem own_accept_refused :
    ∃ creq, (getChain [vndApiJson]).buildRequest trivial () .new = .ok creq ∧
      creq.acceptHeader = some "application/vnd.api+json" ∧
      (getChain [vndApiJson]).acceptCheck creq.acceptHeader = .fail .err406 :=
  ⟨_, rfl, rfl, rfl⟩

end

end ServantRs
