import ServantRs.Core.Content

/-!
# Messages — media types as text

A media type is sent as it is written: type, subtype, an optional `+suffix` and parameters.  Its
parts are tokens, so the separators of an `Accept` header are in none of them, and the header is
read as one range for each media type (`parseAccept_texts`).  The subtype of such a range has the
suffix; the subtype of the media type (`MediaText.toMime`) has not.

* `parseRange_text`: how one media type is read.
* `range_pos_iff`: which are not refused by a weight of their own.
-/

namespace ServantRs

/-! ### Tokens -/

/-- The characters of a token. -/
def isTokenChar (c : Char) : Bool := c.isAlphanum || "!#$%&'*+-.^_`|~".toList.contains c

/-- Text of token characters, one at least. -/
structure Token where
  text : String
  ne_empty : text ≠ ""
  chars : ∀ c ∈ text.toList, isTokenChar c = true

theorem isAlphanum_bounds {c : Char} (h : c.isAlphanum = true) : 48 ≤ c.toNat ∧ c.toNat ≤ 122 := by
  have hval : c.toNat = c.val.toNat := rfl
  have hcases : (c.isUpper = true ∨ c.isLower = true) ∨ c.isDigit = true :=
    (Bool.or_eq_true_iff.mp h).imp_left Bool.or_eq_true_iff.mp
  rw [hval]
  rcases hcases with (h | h) | h
  · obtain ⟨hle, hge⟩ : 'A'.val ≤ c.val ∧ c.val ≤ 'Z'.val := of_decide_eq_true h
    exact ⟨Nat.le_trans (by decide) hle, Nat.le_trans hge (by decide)⟩
  · obtain ⟨hle, hge⟩ := Bool.and_eq_true_iff.mp h
    exact ⟨Nat.le_trans (by decide) (of_decide_eq_true hle), of_decide_eq_true hge⟩
  · obtain ⟨hle, hge⟩ := Bool.and_eq_true_iff.mp h
    exact ⟨of_decide_eq_true hle, Nat.le_trans (of_decide_eq_true hge) (by decide)⟩

theorem isTokenChar_bounds {c : Char} (h : isTokenChar c = true) :
    33 ≤ c.toNat ∧ c.toNat ≤ 126 := by
  rw [isTokenChar, Bool.or_eq_true] at h
  rcases h with h | h
  · have hbounds := isAlphanum_bounds h
    omega
  · have hmarks : "!#$%&'*+-.^_`|~".toList.all (fun d => 33 ≤ d.toNat ∧ d.toNat ≤ 126) = true := rfl
    exact of_decide_eq_true (List.all_eq_true.mp hmarks c (List.contains_iff_mem.mp h))

/-- Token characters are no white space. -/
theorem isWhiteSpace_of_isTokenChar {c : Char} (h : isTokenChar c = true) :
    isWhiteSpace c = false := by
  have hbounds := isTokenChar_bounds h
  simp only [isWhiteSpace, Bool.or_eq_false_iff, Bool.and_eq_false_iff, decide_eq_false_iff_not]
  omega

namespace Token

variable (t : Token)

/-- No token holds a separator. -/
theorem notMem {c : Char} (hc : isTokenChar c = false) : c ∉ t.text.toList := fun h => by
  rw [t.chars c h] at hc
  cases hc

theorem exists_cons : ∃ c cs, t.text.toList = c :: cs ∧ isTokenChar c = true := by
  cases h : t.text.toList with
  | nil => exact absurd (String.toList_eq_nil_iff.mp h) t.ne_empty
  | cons c cs => exact ⟨c, cs, rfl, t.chars c (h ▸ List.mem_cons_self)⟩

theorem solid : Solid t.text where
  head := by
    obtain ⟨c, cs, hcs, hc⟩ := t.exists_cons
    exact ⟨c, cs, hcs, isWhiteSpace_of_isTokenChar hc⟩
  last c h := isWhiteSpace_of_isTokenChar (t.chars c (List.mem_of_getLast? h))

end Token

/-! ### Media types -/

/-- A parameter with a value that is not quoted, and the blanks before it. -/
structure MediaParam where
  pad : String
  name : Token
  value : Token
  blank : ∀ c ∈ pad.toList, c = ' ' ∨ c = '\t'

/-- A concrete media type: no part of it stands for any other. -/
structure MediaText where
  type_ : Token
  subtype : Token
  suffix : Option String
  params : List MediaParam
  type_ne_star : type_.text ≠ "*"
  subtype_ne_star : subtype.text ≠ "*"
  plus : '+' ∉ subtype.text.toList
  suffix_chars : ∀ s ∈ suffix, ∀ c ∈ s.toList, isTokenChar c = true

def MediaParam.text (p : MediaParam) : String := p.pad ++ (p.name.text ++ "=" ++ p.value.text)

namespace MediaText

/-- The subtype with its suffix. -/
def fullSubtype (t : MediaText) : String :=
  match t.suffix with
  | some s => t.subtype.text ++ "+" ++ s
  | none   => t.subtype.text

/-- The type and the whole subtype. -/
def media (t : MediaText) : String := t.type_.text ++ "/" ++ t.fullSubtype

def text (t : MediaText) : String := ";".intercalate (t.media :: t.params.map MediaParam.text)

/-- The media type of a text; its subtype ends before the suffix.  That a subtype with several `+`
ends at the first is an assumption: `mime` ends it at the last. -/
def toMime (t : MediaText) : Mime := ⟨t.text, t.type_.text, t.subtype.text⟩

/-! ### The parts of a text -/

theorem fullSubtype_chars (t : MediaText) : ∀ c ∈ t.fullSubtype.toList, isTokenChar c = true := by
  intro c hc
  rw [fullSubtype] at hc
  cases hs : t.suffix with
  | none =>
      rw [hs] at hc
      exact t.subtype.chars c hc
  | some s =>
      rw [hs, String.toList_append, String.toList_append, List.mem_append, List.mem_append] at hc
      rcases hc with (hc | hc) | hc
      · exact t.subtype.chars c hc
      · obtain rfl := List.mem_singleton.mp hc
        decide
      · exact t.suffix_chars s hs c hc

theorem fullSubtype_ne_empty (t : MediaText) : t.fullSubtype ≠ "" := by
  rw [fullSubtype]
  cases t.suffix with
  | none => exact t.subtype.ne_empty
  | some s => simp

/-- The whole subtype is a token too. -/
def subtypeToken (t : MediaText) : Token :=
  ⟨t.fullSubtype, t.fullSubtype_ne_empty, t.fullSubtype_chars⟩

/-- The suffix is what has a plus. -/
theorem plus_mem_fullSubtype (t : MediaText) : '+' ∈ t.fullSubtype.toList ↔ t.suffix ≠ none := by
  rw [fullSubtype]
  cases t.suffix with
  | none => exact ⟨fun h => absurd h t.plus, fun h => absurd rfl h⟩
  | some s => simp

theorem fullSubtype_of_none {t : MediaText} (h : t.suffix = none) :
    t.fullSubtype = t.subtype.text := by rw [fullSubtype, h]

/-- No wildcard, whatever its suffix. -/
theorem fullSubtype_ne_star (t : MediaText) : t.fullSubtype ≠ "*" := by
  intro h
  by_cases hs : t.suffix = none
  · exact t.subtype_ne_star (fullSubtype_of_none hs ▸ h)
  · have hplus := t.plus_mem_fullSubtype.mpr hs
    rw [h] at hplus
    exact absurd hplus (by decide)

/-- A separator is in a part when it is one of the part's own. -/
theorem notMem_media {c : Char} (hc : isTokenChar c = false) (hslash : c ≠ '/') (t : MediaText) :
    c ∉ t.media.toList := by
  have hone : ("/" : String).toList = ['/'] := rfl
  rw [media, String.toList_append, String.toList_append, hone, List.mem_append, List.mem_append,
    List.mem_singleton, not_or, not_or]
  exact ⟨⟨t.type_.notMem hc, hslash⟩, t.subtypeToken.notMem hc⟩

end MediaText

theorem MediaParam.notMem_text {c : Char} (hc : isTokenChar c = false) (hequals : c ≠ '=')
    (hblank : c ≠ ' ' ∧ c ≠ '\t') (p : MediaParam) : c ∉ p.text.toList := by
  have hone : ("=" : String).toList = ['='] := rfl
  rw [MediaParam.text, String.toList_append, String.toList_append, String.toList_append, hone]
  simp only [List.mem_append, List.mem_singleton, not_or]
  refine ⟨fun hpad => ?_, ⟨p.name.notMem hc, hequals⟩, p.value.notMem hc⟩
  rcases p.blank c hpad with rfl | rfl
  · exact hblank.1 rfl
  · exact hblank.2 rfl

namespace MediaText

/-- No text has a comma in it. -/
theorem comma_notMem (t : MediaText) : ',' ∉ t.text.toList := by
  intro h
  rcases mem_toList_intercalate h with h | ⟨s, hs, h⟩
  · exact absurd h (by decide)
  · rcases List.mem_cons.mp hs with rfl | hs
    · exact t.notMem_media (by decide) (by decide) h
    · obtain ⟨p, -, rfl⟩ := List.mem_map.mp hs
      exact p.notMem_text (by decide) (by decide) (by decide) h

/-- A text is cut into the media and the parameters. -/
theorem splitChar_text (t : MediaText) :
    splitChar ';' t.text = t.media :: t.params.map MediaParam.text := by
  refine splitChar_intercalate (fun s hs => ?_) (List.cons_ne_nil _ _)
  rcases List.mem_cons.mp hs with rfl | hs
  · exact t.notMem_media (by decide) (by decide)
  · obtain ⟨p, -, rfl⟩ := List.mem_map.mp hs
    exact p.notMem_text (by decide) (by decide) (by decide)

theorem splitOnce_media (t : MediaText) :
    splitOnce '/' t.media = some (t.type_.text, t.fullSubtype) :=
  splitOnce_append (t.type_.notMem (by decide))

/-- A text begins with its type and ends with a token. -/
theorem exists_text (t : MediaText) :
    ∃ mid, ∃ b : Token, t.text = t.type_.text ++ mid ++ b.text := by
  rcases List.eq_nil_or_concat t.params with h | ⟨ps, p, h⟩
  · refine ⟨"/", t.subtypeToken, ?_⟩
    rw [text, h, List.map_nil, String.intercalate_singleton, media]
    rfl
  · obtain ⟨mid, hmid⟩ := exists_intercalate_ends ";" t.media p.text (ps.map MediaParam.text)
    refine ⟨"/" ++ t.fullSubtype ++ mid ++ p.pad ++ p.name.text ++ "=", p.value, ?_⟩
    rw [text, h, List.concat_eq_append, List.map_append, List.map_singleton, hmid, media,
      MediaParam.text, ← String.toList_inj]
    simp

end MediaText

/-- What stands between two tokens is solid with them. -/
theorem solid_of_tokens (a b : Token) (mid : String) : Solid (a.text ++ mid ++ b.text) where
  head := by
    obtain ⟨c, cs, hcs, hc⟩ := a.exists_cons
    refine ⟨c, cs ++ mid.toList ++ b.text.toList, ?_, isWhiteSpace_of_isTokenChar hc⟩
    rw [String.toList_append, String.toList_append, hcs]
    rfl
  last c h := by
    have hne : b.text.toList ≠ [] := fun he => b.ne_empty (String.toList_eq_nil_iff.mp he)
    have hlast := List.getLast?_eq_some_getLast hne
    rw [String.toList_append, List.getLast?_append, hlast, Option.some_or] at h
    exact b.solid.last c (hlast.trans h)

/-! ### Reading a text -/

/-- The value of a parameter that is a weight. -/
def MediaParam.weight (p : MediaParam) : Option String :=
  if p.name.text = "q" ∨ p.name.text = "Q" then some p.value.text else none

/-- The quality a weight stands for: a number between 0 and 1. -/
def weigh (w : String) : Option Nat := (Binary32.parse w).bind Binary32.inUnit

theorem MediaParam.trim_text (p : MediaParam) :
    trim p.text = p.name.text ++ "=" ++ p.value.text := by
  refine trim_append (fun c hc => ?_) (solid_of_tokens p.name p.value "=")
  rcases p.blank c hc with rfl | rfl
  · decide
  · decide

/-- A name is a letter when the letter and a sign of equality stand in front. -/
theorem stripPrefix_param (name value : Token) (c : Char) :
    stripPrefix (String.ofList [c, '=']) (name.text ++ "=" ++ value.text)
      = if name.text = String.singleton c then some value.text else none := by
  have hequals : '=' ∉ name.text.toList := name.notMem (by decide)
  obtain ⟨d, ds, hds, -⟩ := name.exists_cons
  have hname : name.text = String.singleton c ↔ d = c ∧ ds = [] := by
    rw [← String.toList_inj, hds, String.toList_singleton, List.cons.injEq]
  have hlist : (name.text ++ "=" ++ value.text).toList = d :: (ds ++ '=' :: value.text.toList) := by
    rw [String.toList_append, String.toList_append, hds]
    simp
  have hstrip : stripPrefix (String.ofList [c, '=']) (name.text ++ "=" ++ value.text)
      = ((if (c == d) = true then ['='].isPrefixOf? (ds ++ '=' :: value.text.toList)
          else none).map String.ofList) := by
    rw [stripPrefix, String.toList_ofList, hlist]
    rfl
  rw [hstrip]
  by_cases hd : d = c
  · rw [if_pos (beq_iff_eq.mpr hd.symm)]
    cases ds with
    | nil =>
        rw [if_pos (hname.mpr ⟨hd, rfl⟩), List.nil_append]
        exact congrArg some String.ofList_toList
    | cons e es =>
        have he : e ≠ '=' := fun heq => hequals (by rw [hds, heq]; simp)
        have hno : ¬ name.text = String.singleton c := fun heq =>
          List.cons_ne_nil e es (hname.mp heq).2
        have hnone : ['='].isPrefixOf? (e :: (es ++ '=' :: value.text.toList)) = none :=
          if_neg fun heq => he (beq_iff_eq.mp heq).symm
        rw [if_neg hno, List.cons_append, hnone]
        rfl
  · have hno : ¬ name.text = String.singleton c := fun heq => hd (hname.mp heq).1
    rw [if_neg hno, if_neg fun heq => hd (beq_iff_eq.mp heq).symm]
    rfl

/-- The weight of a parameter is what its text is read for. -/
theorem stripPrefix_weight (p : MediaParam) :
    (stripPrefix "q=" (p.name.text ++ "=" ++ p.value.text)).or
      (stripPrefix "Q=" (p.name.text ++ "=" ++ p.value.text)) = p.weight := by
  have hq : stripPrefix "q=" (p.name.text ++ "=" ++ p.value.text)
      = if p.name.text = "q" then some p.value.text else none :=
    stripPrefix_param p.name p.value 'q'
  have hQ : stripPrefix "Q=" (p.name.text ++ "=" ++ p.value.text)
      = if p.name.text = "Q" then some p.value.text else none :=
    stripPrefix_param p.name p.value 'Q'
  rw [hq, hQ, MediaParam.weight]
  by_cases hname : p.name.text = "q"
  · simp [hname]
  · simp [hname]

/-- The weights of a media type. -/
def MediaText.weights (t : MediaText) : List String := t.params.filterMap MediaParam.weight

/-- The quality of a range is that of the last weight, when all of them are numbers. -/
theorem rangeQuality_params : ∀ (ps : List MediaParam) (quality : Nat),
    rangeQuality quality (ps.map MediaParam.text)
      = (ps.filterMap MediaParam.weight).foldlM (fun _ w => weigh w) quality
  | [], quality => rfl
  | p :: ps, quality => by
      rw [List.map_cons, rangeQuality, p.trim_text, stripPrefix_weight]
      cases hw : p.weight with
      | none =>
          rw [List.filterMap_cons_none hw]
          exact rangeQuality_params ps quality
      | some w =>
          have hsolid : trim w = w := by
            obtain ⟨-, hvalue⟩ := Option.ite_none_right_eq_some.mp hw
            cases hvalue
            exact trim_of_solid p.value.solid
          rw [List.filterMap_cons_some hw, List.foldlM_cons]
          dsimp only
          rw [hsolid]
          cases hv : weigh w with
          | none =>
              rw [weigh] at hv
              rw [hv]
              rfl
          | some v =>
              rw [weigh] at hv
              rw [hv]
              exact rangeQuality_params ps v

namespace MediaText

/-- A media type whose weights, if it has any, are numbers, and the last of them not zero. -/
def Weighty (t : MediaText) : Prop :=
  (∀ w ∈ t.weights, weigh w ≠ none) ∧ ∀ w ∈ t.weights.getLast?, weigh w ≠ some 0

/-- The quality that a list of weights leaves is the last one's. -/
theorem foldlM_weigh_pos_iff : ∀ {ws : List String} {quality : Nat},
    (∃ q, ws.foldlM (fun _ w => weigh w) quality = some q ∧ 0 < q)
      ↔ (∀ w ∈ ws, weigh w ≠ none) ∧ (ws = [] → 0 < quality) ∧
        ∀ w ∈ ws.getLast?, weigh w ≠ some 0
  | [], quality => by simp
  | w :: ws, quality => by
      rw [List.foldlM_cons]
      cases hv : weigh w with
      | none => simp [hv]
      | some v =>
          show (∃ q, ws.foldlM (fun _ w => weigh w) v = some q ∧ 0 < q) ↔ _
          rw [foldlM_weigh_pos_iff]
          cases ws with
          | nil => simp [hv, Nat.pos_iff_ne_zero]
          | cons w' ws => simp [hv]

/-- A range for a media type; none when a weight is no number. -/
def range (t : MediaText) : Option MediaRange :=
  (rangeQuality Binary32.one (t.params.map MediaParam.text)).map fun quality =>
    ⟨toAsciiLowercase t.type_.text, toAsciiLowercase t.fullSubtype, quality⟩

/-- A media type that is not refused by its own weights has a range with a quality. -/
theorem range_pos_iff (t : MediaText) :
    (∃ r, t.range = some r ∧ 0 < r.quality) ↔ t.Weighty := by
  have hone : t.weights = [] → 0 < Binary32.one := fun _ => Nat.two_pow_pos 149
  rw [range, rangeQuality_params]
  constructor
  · rintro ⟨r, hr, hpos⟩
    obtain ⟨quality, hquality, rfl⟩ := Option.map_eq_some_iff.mp hr
    obtain ⟨hall, -, hlast⟩ := foldlM_weigh_pos_iff.mp ⟨quality, hquality, hpos⟩
    exact ⟨hall, hlast⟩
  · rintro ⟨hall, hlast⟩
    obtain ⟨quality, hquality, hpos⟩ := foldlM_weigh_pos_iff.mpr ⟨hall, hone, hlast⟩
    exact ⟨_, Option.map_eq_some_iff.mpr ⟨quality, hquality, rfl⟩, hpos⟩

/-- **A media type is read as its range**, behind white space. -/
theorem parseRange_text (t : MediaText) {pad : String}
    (hpad : ∀ c ∈ pad.toList, isWhiteSpace c = true) : parseRange (pad ++ t.text) = t.range := by
  obtain ⟨mid, b, htext⟩ := t.exists_text
  have hsolid : Solid t.text := htext ▸ solid_of_tokens t.type_ b mid
  have hmedia : Solid t.media := solid_of_tokens t.type_ t.subtypeToken "/"
  have hne : t.text ≠ "" := by
    intro hempty
    obtain ⟨c, cs, hcs, -⟩ := hsolid.head
    rw [hempty] at hcs
    cases hcs
  have htype : trim t.type_.text = t.type_.text := trim_of_solid t.type_.solid
  have hsubtype : trim t.fullSubtype = t.fullSubtype := trim_of_solid t.subtypeToken.solid
  rw [parseRange, trim_append hpad hsolid]
  simp only [if_neg hne, splitChar_text, trim_of_solid hmedia, splitOnce_media]
  rw [range]
  cases rangeQuality Binary32.one (t.params.map MediaParam.text) with
  | none => rfl
  | some quality =>
      show some (MediaRange.mk (toAsciiLowercase (trim t.type_.text))
        (toAsciiLowercase (trim t.fullSubtype)) quality) = _
      rw [htype, hsubtype]
      rfl

/-- **An `Accept` header is read as the ranges of its media types.** -/
theorem parseAccept_texts (texts : List MediaText) :
    parseAccept (", ".intercalate (texts.map text)) = texts.filterMap range := by
  cases texts with
  | nil => decide
  | cons t ts =>
      have hcut : splitChar ',' (", ".intercalate ((t :: ts).map text))
          = t.text :: (ts.map text).map (" " ++ ·) := by
        have hsep : (", " : String) = "," ++ " " := rfl
        rw [List.map_cons, hsep, intercalate_pad]
        refine splitChar_intercalate (fun s hs => ?_) (List.cons_ne_nil _ _)
        rcases List.mem_cons.mp hs with rfl | hs
        · exact t.comma_notMem
        · obtain ⟨s', hs', rfl⟩ := List.mem_map.mp hs
          obtain ⟨t', -, rfl⟩ := List.mem_map.mp hs'
          rw [String.toList_append, List.mem_append, not_or]
          exact ⟨by decide, t'.comma_notMem⟩
      have hfirst : parseRange t.text = t.range := by
        have hread : parseRange ("" ++ t.text) = t.range := t.parseRange_text (by simp)
        rwa [String.empty_append] at hread
      have hblank : ∀ c ∈ (" " : String).toList, isWhiteSpace c = true := List.all_eq_true.mp rfl
      have hrest : ((ts.map text).map (" " ++ ·)).filterMap parseRange = ts.filterMap range := by
        simp only [List.filterMap_map, Function.comp_def, parseRange_text _ hblank]
      rw [parseAccept, hcut, List.filterMap_cons, List.filterMap_cons, hfirst, hrest]

end MediaText

end ServantRs
