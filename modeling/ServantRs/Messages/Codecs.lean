import ServantRs.Core.Content

/-!
# Messages — the codec that reads is the codec that wrote

A body is written by the codec that owns the negotiated media type and read by the first codec that
matches its `Content-Type`.  Matching leaves a `+suffix` out, so the two differ where media types
differ in nothing else.

* `renderIndex_owner`: the codec that owns a media type writes.
* `unrender_append`, `unrender_eq_none_iff`, `unrender_owner`: the first codec that matches reads.
* `codec_agrees_iff`: when the owner is the reader, and what is labelled otherwise is not read.
-/

namespace ServantRs

/-- `type/subtype+suffix`: a media type without its parameters. -/
def Mime.essence (m : Mime) : String := String.ofList (m.source.toList.takeWhile (· ≠ ';'))

/-- Types and subtypes agree, suffixes aside. -/
def Mime.SameSubtype (m m' : Mime) : Prop := m.type_ = m'.type_ ∧ m.subtype = m'.subtype

theorem mediaTypeMatches_iff {m m' : Mime} : mediaTypeMatches m m' = true ↔ m.SameSubtype m' := by
  simp [mediaTypeMatches, Mime.SameSubtype]

/-- The media type at an index of a list is one of the marker behind `before`. -/
def MediaType.Owns (before : List MediaType) (M : MediaType) (i : Nat) (m : Mime) : Prop :=
  ∃ j, M.mediaTypes[j]? = some m ∧ i = (allMediaTypes before).length + j

/-- Every media type of a list has an owner. -/
theorem MediaType.exists_owns : ∀ {Ms : List MediaType} {i : Nat} {m : Mime},
    (allMediaTypes Ms)[i]? = some m → ∃ before M after, Ms = before ++ M :: after ∧ Owns before M i m
  | [], i, m, h => by cases h
  | M :: Ms, i, m, h => by
      rw [allMediaTypes, List.flatMap_cons] at h
      by_cases hi : i < M.mediaTypes.length
      · rw [List.getElem?_append_left hi] at h
        exact ⟨[], M, Ms, rfl, i, h, (Nat.zero_add i).symm⟩
      · rw [List.getElem?_append_right (Nat.not_lt.mp hi)] at h
        obtain ⟨before, M', after, rfl, j, hj, hij⟩ := exists_owns h
        refine ⟨M :: before, M', after, rfl, j, hj, ?_⟩
        rw [allMediaTypes, List.flatMap_cons, List.length_append, ← allMediaTypes]
        omega

namespace Codec

variable {A : Type} {L L' : List (Codec A)} {c : Codec A} {ct : Mime} {body : Bytes}

theorem allMediaTypes_cons (c : Codec A) (L : List (Codec A)) :
    allMediaTypes (c :: L) = c.mediaTypes ++ allMediaTypes L := List.flatMap_cons ..

/-- Every media type of a list is some codec's. -/
theorem exists_owner {i : Nat} {m : Mime} (h : (allMediaTypes L)[i]? = some m) :
    ∃ before c after j, L = before ++ c :: after ∧ c.mediaTypes[j]? = some m ∧
      i = (allMediaTypes before).length + j := by
  obtain ⟨_, _, _, hsplit, j, hj, hij⟩ := MediaType.exists_owns h
  obtain ⟨before, rest, rfl, rfl, hrest⟩ := List.map_eq_append_iff.mp hsplit
  obtain ⟨c, after, rfl, rfl, -⟩ := List.map_eq_cons_iff.mp hrest
  exact ⟨before, c, after, j, rfl, hj, hij⟩

/-! ### Writing -/

/-- The codec that owns a media type writes in it. -/
theorem renderIndex_owner (L L' : List (Codec A)) (value : A) {j : Nat}
    (hj : j < c.mediaTypes.length) :
    renderIndex (L ++ c :: L') value ((allMediaTypes L).length + j) = c.mimeRender value := by
  induction L with
  | nil =>
      have hzero : (allMediaTypes ([] : List (Codec A))).length + j = j := Nat.zero_add j
      rw [List.nil_append, renderIndex, hzero, if_pos hj]
  | cons d L ih =>
      have hlength : (allMediaTypes (d :: L)).length + j - d.mediaTypes.length
          = (allMediaTypes L).length + j := by
        rw [allMediaTypes_cons, List.length_append]
        omega
      have hskip : ¬ (allMediaTypes (d :: L)).length + j < d.mediaTypes.length := by
        rw [allMediaTypes_cons, List.length_append]
        omega
      rw [List.cons_append, renderIndex, if_neg hskip, hlength, ih]

/-! ### Reading -/

/-- A codec matches when one of its media types does. -/
theorem any_matches_iff : c.mediaTypes.any (mediaTypeMatches · ct) = true
    ↔ ∃ m ∈ c.mediaTypes, m.SameSubtype ct := by
  simp only [List.any_eq_true, mediaTypeMatches_iff]

theorem unrender_cons_of_match (h : ∃ m ∈ c.mediaTypes, m.SameSubtype ct) :
    unrender (c :: L) ct body = some (c.mimeUnrender body) := by
  rw [unrender, if_pos (any_matches_iff.mpr h)]

theorem unrender_cons_of_not_match (h : ∀ m ∈ c.mediaTypes, ¬ m.SameSubtype ct) :
    unrender (c :: L) ct body = unrender L ct body := by
  have hno : ¬ c.mediaTypes.any (mediaTypeMatches · ct) = true := fun hany => by
    obtain ⟨m, hm, hsame⟩ := any_matches_iff.mp hany
    exact h m hm hsame
  rw [unrender, if_neg hno]

/-- The codecs of a list come before those behind it. -/
theorem unrender_append (L L' : List (Codec A)) (ct : Mime) (body : Bytes) :
    unrender (L ++ L') ct body = (unrender L ct body).or (unrender L' ct body) := by
  induction L with
  | nil => rfl
  | cons c L ih =>
      by_cases h : ∃ m ∈ c.mediaTypes, m.SameSubtype ct
      · rw [List.cons_append, unrender_cons_of_match h, unrender_cons_of_match h]
        rfl
      · have hno : ∀ m ∈ c.mediaTypes, ¬ m.SameSubtype ct := fun m hm hsame => h ⟨m, hm, hsame⟩
        rw [List.cons_append, unrender_cons_of_not_match hno, unrender_cons_of_not_match hno, ih]

/-- A body is not read when no media type matches. -/
theorem unrender_eq_none_iff :
    unrender L ct body = none ↔ ∀ m ∈ allMediaTypes L, ¬ m.SameSubtype ct := by
  induction L with
  | nil => exact ⟨fun _ m hm => absurd hm List.not_mem_nil, fun _ => rfl⟩
  | cons c L ih =>
      rw [allMediaTypes_cons]
      simp only [List.mem_append, or_imp, forall_and]
      by_cases h : ∃ m ∈ c.mediaTypes, m.SameSubtype ct
      · rw [unrender_cons_of_match h]
        obtain ⟨m, hm, hsame⟩ := h
        exact ⟨fun hnone => absurd hnone (Option.some_ne_none _),
          fun hno => absurd hsame (hno.1 m hm)⟩
      · have hno : ∀ m ∈ c.mediaTypes, ¬ m.SameSubtype ct := fun m hm hsame => h ⟨m, hm, hsame⟩
        rw [unrender_cons_of_not_match hno, ih]
        exact ⟨fun htail => ⟨hno, htail⟩, fun hboth => hboth.2⟩

/-- The owner of a media type reads it when no codec before it matches. -/
theorem unrender_owner {m : Mime} (hm : m ∈ c.mediaTypes)
    (hbefore : ∀ m' ∈ allMediaTypes L, ¬ m'.SameSubtype m) :
    unrender (L ++ c :: L') m body = some (c.mimeUnrender body) := by
  rw [unrender_append, unrender_eq_none_iff.mpr hbefore, Option.none_or,
    unrender_cons_of_match ⟨m, hm, rfl, rfl⟩]

/-! ### Tags -/

/-- A codec that reads every body as a tag. -/
def tagged (tag : A) (M : MediaType) : Codec A := ⟨M, fun _ => .error "", fun _ => .ok tag⟩

theorem map_toMediaType_tagged (tag : A) (Ms : List MediaType) :
    (Ms.map (tagged tag)).map toMediaType = Ms := by
  rw [List.map_map]
  exact List.map_id Ms

/-- The tag that is read is the tag of all. -/
theorem unrender_tagged (tag : A) {ct : Mime} {body : Bytes} : ∀ {Ms : List MediaType}
    {read : Except String A}, unrender (Ms.map (tagged tag)) ct body = some read → read = .ok tag
  | [], read, h => by cases h
  | M :: Ms, read, h => by
      rw [List.map_cons, unrender] at h
      split at h
      · cases h
        rfl
      · exact unrender_tagged tag h

end Codec

/-! ### The writer and the reader -/

open Codec

/-- The writer is the reader: at the `i`-th media type `m` of the list, which is one of `M`'s,
whatever the codecs of the markers do, the owner writes, the owner reads, and a body labelled `ct`
is not read when `ct` is not in the list. -/
def MediaType.AgreesAt (before : List MediaType) (M : MediaType) (after : List MediaType) (i : Nat)
    (m ct : Mime) : Prop :=
  ∀ (A : Type) (L : List (Codec A)) (c : Codec A) (L' : List (Codec A)),
    L.map toMediaType = before → c.toMediaType = M → L'.map toMediaType = after →
      (∀ value, renderIndex (L ++ c :: L') value i = c.mimeRender value) ∧
      (∀ body, unrender (L ++ c :: L') m body = some (c.mimeUnrender body)) ∧
      (ct.essence ∉ (allMediaTypes (before ++ M :: after)).map Mime.essence →
        ∀ body, unrender (L ++ c :: L') ct body = none)

/-- **When the writer is the reader**: if and only if no marker before the owner has a media type
that differs in its suffix at most, and no marker at all has one for `ct`, unless `ct` is in the
list. -/
theorem codec_agrees_iff {before : List MediaType} {M : MediaType} (after : List MediaType) {i : Nat}
    {m : Mime} (hm : MediaType.Owns before M i m) (ct : Mime) :
    MediaType.AgreesAt before M after i m ct
      ↔ (∀ m' ∈ MediaType.allMediaTypes before, ¬ m'.SameSubtype m) ∧
        (ct.essence ∈ (MediaType.allMediaTypes (before ++ M :: after)).map Mime.essence ∨
          ∀ m' ∈ MediaType.allMediaTypes (before ++ M :: after), ¬ m'.SameSubtype ct) := by
  obtain ⟨j, hj, rfl⟩ := hm
  constructor
  · intro h
    -- every marker but the owner reads `false`
    obtain ⟨-, hreads, hnone⟩ := h Bool (before.map (tagged false)) (tagged true M)
      (after.map (tagged false)) (map_toMediaType_tagged ..) rfl (map_toMediaType_tagged ..)
    constructor
    · have hread := hreads []
      rw [unrender_append] at hread
      cases hbefore : unrender (before.map (tagged false)) m [] with
      | none =>
          have hno := unrender_eq_none_iff.mp hbefore
          rwa [allMediaTypes, map_toMediaType_tagged] at hno
      | some read =>
          rw [unrender_tagged false hbefore] at hbefore
          rw [hbefore] at hread
          cases hread
    · rw [or_iff_not_imp_left]
      intro hct
      have hno := unrender_eq_none_iff.mp (hnone hct [])
      rwa [allMediaTypes, List.map_append, List.map_cons, map_toMediaType_tagged,
        map_toMediaType_tagged] at hno
  · rintro ⟨hbefore, hct⟩ A L c L' rfl rfl rfl
    obtain ⟨hlt, hget⟩ := List.getElem?_eq_some_iff.mp hj
    have hmem : m ∈ c.mediaTypes := hget ▸ List.getElem_mem hlt
    refine ⟨fun value => renderIndex_owner L L' value hlt, fun body => unrender_owner hmem hbefore,
      fun hnot body => ?_⟩
    rw [unrender_eq_none_iff, allMediaTypes, List.map_append, List.map_cons]
    exact hct.resolve_left hnot

/-- Text behind JSON, and a body of octets, which neither reads. -/
theorem codec_agrees_text :
    MediaType.AgreesAt [.Json] .PlainText [] 1 .TEXT_PLAIN_UTF_8 .APPLICATION_OCTET_STREAM :=
  (codec_agrees_iff [] ⟨0, rfl, rfl⟩ .APPLICATION_OCTET_STREAM).mpr
    (by simp [MediaType.allMediaTypes, MediaType.Json, MediaType.PlainText, MediaType.ofMime,
      Mime.SameSubtype, Mime.APPLICATION_JSON, Mime.TEXT_PLAIN_UTF_8, Mime.APPLICATION_OCTET_STREAM])

def API_JSON : MediaType := .ofMime ⟨"application/vnd.api+json", "application", "vnd.api"⟩
def API_XML : MediaType := .ofMime ⟨"application/vnd.api+xml", "application", "vnd.api"⟩

/-- Two media types that differ in their suffixes: what the second codec wrote, the first reads. -/
theorem codec_confused :
    ((MediaType.allMediaTypes [API_JSON, API_XML]).map Mime.essence).Nodup ∧
    MediaType.Owns [API_JSON] API_XML 1 API_XML.mediaType ∧
    ¬ MediaType.AgreesAt [API_JSON] API_XML [] 1 API_XML.mediaType API_XML.mediaType := by
  refine ⟨by decide, ⟨0, rfl, rfl⟩, fun h => ?_⟩
  obtain ⟨-, hreads, -⟩ := h Bool [tagged false API_JSON] (tagged true API_XML) [] rfl rfl rfl
  have hread : unrender ([tagged false API_JSON] ++ [tagged true API_XML]) API_XML.mediaType []
      = some (.ok false) := rfl
  rw [hreads []] at hread
  cases hread

end ServantRs
