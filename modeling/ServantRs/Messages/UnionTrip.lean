import ServantRs.Client.Build
import ServantRs.Messages.Codecs
import ServantRs.Messages.UnionStatus
import Mathlib.Data.List.Nodup

/-!
# Messages — a union response and back

The server writes the arm it was given; the client reads the first arm that has the response's
status.  With one status for each arm these are the same, and what the arm's codec wrote the same
codec reads (`decodeArm_of_renderArm`), because no other codec matches its media types.  A fixed arm
is an arm over the list of its one marker.

* `Union.decodeUnion_eq_none`: no arm is taken for a status that is none of the union's.
* `Union.round_trip`: what a union is rendered to is decoded to the same arm.
-/

namespace ServantRs

open MediaType

/-! ### Headers -/

namespace HeaderMap

/-- The headers of one map are among another's, those of one name in their order. -/
def Among (headers m : List (HeaderName × HeaderValue)) : Prop :=
  ∀ n, (headers.filter (·.1 = n)).Sublist (m.filter (·.1 = n))

/-- The extra headers of a response are among its headers. -/
theorem among_buildResponse [HttpCrate] (status : StatusCode) (mime : Option Mime)
    (body : ResponseBody) (headers : List (HeaderName × HeaderValue)) :
    Among headers (buildResponse (status, mime, body, headers)).headers := by
  intro n
  rw [buildResponse, filter_foldl_append, List.filter_append]
  exact List.sublist_append_right _ _

end HeaderMap

/-! ### One arm -/

/-- What the codec writes of the value, it reads as the value. -/
def Codec.ReadsBack {T : Type} (c : Codec T) (value : T) : Prop :=
  ∀ bytes, c.mimeRender value = .ok bytes → c.mimeUnrender bytes = .ok value

/-- No two media types of the list have type and subtype in common. -/
def MediaType.Distinct (Ms : List MediaType) : Prop :=
  ((allMediaTypes Ms).map fun m => (m.type_, m.subtype)).Nodup

section

variable {T : Type} {codecs : List (Codec T)} {value : T} {accept : Option String}
  {mime : Option Mime} {bytes : Bytes}

/-- No codec matches a media type of another one. -/
def Codec.Separate (codecs : List (Codec T)) : Prop :=
  codecs.Pairwise fun c c' => ∀ m ∈ c.mediaTypes, ∀ m' ∈ c'.mediaTypes, ¬ m.SameSubtype m'

theorem Codec.separate_of_distinct : ∀ {codecs : List (Codec T)},
    Distinct (codecs.map toMediaType) → Separate codecs
  | [], _ => List.Pairwise.nil
  | c :: codecs, h => by
      rw [Distinct, List.map_cons, MediaType.allMediaTypes, List.flatMap_cons, List.map_append,
        List.nodup_append] at h
      refine List.pairwise_cons.mpr ⟨fun c' hc' m hm m' hm' hsame => ?_, separate_of_distinct h.2.1⟩
      have hlater : m' ∈ (codecs.map toMediaType).flatMap mediaTypes :=
        List.mem_flatMap.mpr ⟨_, List.mem_map_of_mem hc', hm'⟩
      exact h.2.2 (m.type_, m.subtype) (List.mem_map.mpr ⟨m, hm, rfl⟩) (m'.type_, m'.subtype)
        (List.mem_map.mpr ⟨m', hlater, rfl⟩) (Prod.ext hsame.1 hsame.2)

theorem CodecList.separate {CTypes : List MediaType} (htypes : Distinct CTypes)
    (C : CodecList CTypes T) : Codec.Separate C.codecs :=
  Codec.separate_of_distinct (C.markers.symm ▸ htypes)

/-- **The writer reads**: what one of several codecs that are separate writes is decoded. -/
theorem decodeArm_of_renderArm (hseparate : Codec.Separate codecs)
    (hvalue : ∀ c ∈ codecs, c.ReadsBack value)
    (h : renderArm codecs value accept = .ok (mime, bytes)) :
    decodeArm codecs mime bytes = .ok value := by
  obtain ⟨i, hi, hbytes, rfl⟩ := renderArm_eq_ok_iff.mp h
  obtain ⟨m, hm⟩ : ∃ m, (Codec.allMediaTypes codecs)[i]? = some m :=
    ⟨_, List.getElem?_eq_getElem (negotiateMediaIndex_lt hi)⟩
  obtain ⟨before, c, after, j, rfl, hj, rfl⟩ := Codec.exists_owner hm
  obtain ⟨hlt, hget⟩ := List.getElem?_eq_some_iff.mp hj
  have hmem : m ∈ c.mediaTypes := hget ▸ List.getElem_mem hlt
  have hwrites : c.mimeRender value = .ok bytes := by
    rw [Codec.renderIndex_owner before after value hlt] at hbytes
    exact hbytes
  -- a codec before the owner does not match, so the owner is the first that does
  have hbefore : ∀ m' ∈ Codec.allMediaTypes before, ¬ m'.SameSubtype m := by
    intro m' hm'
    obtain ⟨M, hM, hm'⟩ := List.mem_flatMap.mp hm'
    obtain ⟨c', hc', rfl⟩ := List.mem_map.mp hM
    exact (List.pairwise_append.mp hseparate).2.2 c' hc' c List.mem_cons_self m' hm' m hmem
  have hreads : Codec.unrender (before ++ c :: after) m bytes = some (.ok value) := by
    rw [Codec.unrender_owner hmem hbefore, hvalue c (by simp) bytes hwrites]
  rw [hm, decodeArm, Option.getD_some, hreads]

/-- A fixed arm is decoded over the list of its one marker. -/
theorem decodeFixedArm_eq_decodeArm (codec : Codec T) (ct : Option Mime) (body : Bytes) :
    decodeFixedArm codec ct body = decodeArm [codec] ct body := by
  rw [decodeFixedArm, ensureFixedMedia, decodeArm, Codec.unrender]
  by_cases h : codec.mediaTypes.any (mediaTypeMatches · (ct.getD .APPLICATION_OCTET_STREAM)) = true
  · rw [if_pos h, if_pos h]
    rfl
  · rw [if_neg h, if_neg h]
    rfl

theorem decodeFixedArm_of_renderFixedArm {codec : Codec T} (hvalue : codec.ReadsBack value)
    (h : renderFixedArm codec value accept = .ok (mime, bytes)) :
    decodeFixedArm codec mime bytes = .ok value := by
  rw [renderFixedArm_eq_renderArm] at h
  rw [decodeFixedArm_eq_decodeArm]
  exact decodeArm_of_renderArm (List.pairwise_singleton _ codec)
    (List.forall_mem_singleton.mpr hvalue) h

end

/-! ### The first arm of a status -/

section

variable {V : Type} {S status : StatusCode} {decoded : Except String V}

theorem decodeAt_self {v : V} (h : decoded = .ok v) : decodeAt S S decoded = some (.ok v) := by
  rw [decodeAt, if_neg (not_not.mpr rfl), h]

theorem decodeAt_of_ne (h : status ≠ S) : decodeAt S status decoded = none := if_pos h

end

namespace Union

variable {CTypes : List MediaType}

/-- The statuses of the arms. -/
def statuses : Union CTypes → List StatusCode
  | withStatus S .. | withStatusNoBody S | withFixedStatus S .. | withStreamingStatus S ..
  | withStatusHeaders S .. => [S]
  | union2 A B     => A.statuses ++ B.statuses
  | union3 A B C   => A.statuses ++ (B.statuses ++ C.statuses)
  | union4 A B C D => A.statuses ++ (B.statuses ++ (C.statuses ++ D.statuses))

/-- **No arm is taken** for a status that is none of the union's. -/
theorem decodeUnion_eq_none {status : StatusCode} {headers : HeaderMap} {ct : Option Mime}
    {body : Bytes} : ∀ {U : Union CTypes}, status ∉ U.statuses →
      U.decodeUnion status headers ct body = none
  | withStatus .., h | withStatusNoBody _, h | withFixedStatus .., h | withStreamingStatus .., h
  | withStatusHeaders .., h => decodeAt_of_ne fun heq => h (List.mem_singleton.mpr heq)
  | union2 A B, h => by
      simp only [statuses, List.mem_append, not_or] at h
      rw [decodeUnion, decodeUnion_eq_none h.1, decodeUnion_eq_none h.2]
      rfl
  | union3 A B C, h => by
      simp only [statuses, List.mem_append, not_or] at h
      rw [decodeUnion, decodeUnion_eq_none h.1, decodeUnion_eq_none h.2.1,
        decodeUnion_eq_none h.2.2]
      rfl
  | union4 A B C D, h => by
      simp only [statuses, List.mem_append, not_or] at h
      rw [decodeUnion, decodeUnion_eq_none h.1, decodeUnion_eq_none h.2.1,
        decodeUnion_eq_none h.2.2.1, decodeUnion_eq_none h.2.2.2]
      rfl

/-- The status of an arm is one of the union's. -/
theorem ownStatus_mem : ∀ (U : Union CTypes) (v : U.Value), U.ownStatus v ∈ U.statuses
  | withStatus .., _ | withStatusNoBody _, _ | withFixedStatus .., _ | withStreamingStatus .., _
  | withStatusHeaders .., _ => List.mem_singleton_self _
  | union2 A _, .V0 a | union3 A _ _, .V0 a | union4 A _ _ _, .V0 a =>
      List.mem_append_left _ (A.ownStatus_mem a)
  | union2 _ B, .V1 b => List.mem_append_right _ (B.ownStatus_mem b)
  | union3 _ B _, .V1 b | union4 _ B _ _, .V1 b =>
      List.mem_append_right _ (List.mem_append_left _ (B.ownStatus_mem b))
  | union3 _ _ C, .V2 c => List.mem_append_right _ (List.mem_append_right _ (C.ownStatus_mem c))
  | union4 _ _ C _, .V2 c =>
      List.mem_append_right _ (List.mem_append_right _ (List.mem_append_left _ (C.ownStatus_mem c)))
  | union4 _ _ _ D, .V3 d =>
      List.mem_append_right _ (List.mem_append_right _ (List.mem_append_right _ (D.ownStatus_mem d)))

/-- What is rendered has the status of its arm. -/
theorem status_of_renderUnion {accept : Option String} {status : StatusCode} {mime : Option Mime}
    {body : ArmBody} {headers : List (HeaderName × HeaderValue)} :
    ∀ (U : Union CTypes) (v : U.Value), U.renderUnion accept v = .ok (status, mime, body, headers) →
      status = U.ownStatus v
  | withStatus .., _, h | withStatusHeaders .., _, h | withFixedStatus .., _, h => by
      obtain ⟨⟨_, _⟩, -, h⟩ := of_bind_eq_ok h
      cases h
      rfl
  | withStatusNoBody _, _, h | withStreamingStatus .., _, h => by
      cases h
      rfl
  | union2 A _, .V0 a, h | union3 A _ _, .V0 a, h | union4 A _ _ _, .V0 a, h
  | union2 _ A, .V1 a, h | union3 _ A _, .V1 a, h | union4 _ A _ _, .V1 a, h
  | union3 _ _ A, .V2 a, h | union4 _ _ A _, .V2 a, h | union4 _ _ _ A, .V3 a, h =>
      status_of_renderUnion A a h

/-- A status that is rendered is one of the union's. -/
theorem status_mem_of_renderUnion {accept : Option String} {status : StatusCode}
    {mime : Option Mime} {body : ArmBody} {headers : List (HeaderName × HeaderValue)}
    {U : Union CTypes} {v : U.Value}
    (h : U.renderUnion accept v = .ok (status, mime, body, headers)) : status ∈ U.statuses := by
  rw [status_of_renderUnion U v h]
  exact U.ownStatus_mem v

section

variable {A B C D : Union CTypes}

theorem nodup_union2 : (union2 A B).statuses.Nodup ↔ A.statuses.Nodup ∧ B.statuses.Nodup ∧
    A.statuses.Disjoint B.statuses := List.nodup_append'

theorem nodup_union3 : (union3 A B C).statuses.Nodup ↔ A.statuses.Nodup ∧
    (union2 B C).statuses.Nodup ∧ A.statuses.Disjoint B.statuses ∧
      A.statuses.Disjoint C.statuses := by
  rw [← List.disjoint_append_right]
  exact List.nodup_append'

theorem nodup_union4 : (union4 A B C D).statuses.Nodup ↔ A.statuses.Nodup ∧
    (union3 B C D).statuses.Nodup ∧ A.statuses.Disjoint B.statuses ∧
      A.statuses.Disjoint C.statuses ∧ A.statuses.Disjoint D.statuses := by
  rw [← List.disjoint_append_right, ← List.disjoint_append_right]
  exact List.nodup_append'

end

/-- Every arm has a body that is not streamed. -/
def NonStreaming : Union CTypes → Prop
  | withStatus .. | withStatusNoBody _ | withFixedStatus .. | withStatusHeaders .. => True
  | withStreamingStatus .. => False
  | union2 A B     => A.NonStreaming ∧ B.NonStreaming
  | union3 A B C   => A.NonStreaming ∧ B.NonStreaming ∧ C.NonStreaming
  | union4 A B C D => A.NonStreaming ∧ B.NonStreaming ∧ C.NonStreaming ∧ D.NonStreaming

/-- The codecs of the arm read what they write of its value. -/
def ReadsBack : (U : Union CTypes) → U.Value → Prop
  | withStatus _ _ C, value => ∀ c ∈ C.codecs, c.ReadsBack value
  | withStatusHeaders _ _ C, arm => ∀ c ∈ C.codecs, c.ReadsBack arm.value
  | withFixedStatus _ _ codec, value => codec.ReadsBack value
  | withStatusNoBody _, _ | withStreamingStatus .., _ => True
  | union2 A _, .V0 a | union3 A _ _, .V0 a | union4 A _ _ _, .V0 a => A.ReadsBack a
  | union2 _ B, .V1 b | union3 _ B _, .V1 b | union4 _ B _ _, .V1 b => B.ReadsBack b
  | union3 _ _ C, .V2 c | union4 _ _ C _, .V2 c => C.ReadsBack c
  | union4 _ _ _ D, .V3 d => D.ReadsBack d

/-- The same variant with the same value; of headers, all come again. -/
def Same : (U : Union CTypes) → U.Value → U.Value → Prop
  | withStatusHeaders .., arm, arm' =>
      arm'.value = arm.value ∧ HeaderMap.Among arm.headers arm'.headers
  | withStatus .., v, v' | withFixedStatus .., v, v' => v = v'
  | withStatusNoBody _, _, _ => True
  | withStreamingStatus .., _, _ => False
  | union2 A _, .V0 a, .V0 a' | union3 A _ _, .V0 a, .V0 a'
  | union4 A _ _ _, .V0 a, .V0 a' => A.Same a a'
  | union2 _ B, .V1 b, .V1 b' | union3 _ B _, .V1 b, .V1 b'
  | union4 _ B _ _, .V1 b, .V1 b' => B.Same b b'
  | union3 _ _ C, .V2 c, .V2 c' | union4 _ _ C _, .V2 c, .V2 c' => C.Same c c'
  | union4 _ _ _ D, .V3 d, .V3 d' => D.Same d d'
  | union2 .., _, _ | union3 .., _, _ | union4 .., _, _ => False

section

variable {status : StatusCode} {m : HeaderMap} {mime : Option Mime} {body : ArmBody}

/-- The response is decoded, to what was sent. -/
def Arrives (status : StatusCode) (m : HeaderMap) (mime : Option Mime) (body : ArmBody)
    (U : Union CTypes) (v : U.Value) : Prop :=
  ∃ bytes v', body = .full bytes ∧ U.decodeUnion status m mime bytes = some (.ok v') ∧ U.Same v v'

/-- What arrives at an arm arrives at a union that takes the arm. -/
theorem Arrives.inject {U W : Union CTypes} {w : W.Value} {v : U.Value} (f : W.Value → U.Value)
    (h : W.Arrives status m mime body w)
    (htakes : ∀ {bytes w'}, W.decodeUnion status m mime bytes = some (.ok w') →
      U.decodeUnion status m mime bytes = some (.ok (f w')))
    (hsame : ∀ {w'}, W.Same w w' → U.Same v (f w')) : U.Arrives status m mime body v := by
  obtain ⟨bytes, w', hbody, hdecode, hw⟩ := h
  exact ⟨bytes, f w', hbody, htakes hdecode, hsame hw⟩

/-- **The arm that is sent is the arm that is taken.** -/
theorem arrives_of_renderUnion (htypes : Distinct CTypes) {accept : Option String}
    {headers : List (HeaderName × HeaderValue)} (hheaders : HeaderMap.Among headers m) :
    ∀ (U : Union CTypes) (v : U.Value), U.NonStreaming → U.statuses.Nodup → U.ReadsBack v →
      U.renderUnion accept v = .ok (status, mime, body, headers) → U.Arrives status m mime body v
  | withStatus S T C, value, _, _, hback, hr => by
      obtain ⟨⟨_, bytes⟩, harm, hr⟩ := of_bind_eq_ok hr
      cases hr
      have hdecode : decodeArm C.codecs mime bytes = .ok value :=
        decodeArm_of_renderArm (C.separate htypes) hback harm
      exact ⟨bytes, value, rfl, decodeAt_self hdecode, rfl⟩
  | withStatusHeaders S T C, arm, _, _, hback, hr => by
      obtain ⟨⟨_, bytes⟩, harm, hr⟩ := of_bind_eq_ok hr
      cases hr
      have hdecode : decodeArm C.codecs mime bytes = .ok arm.value :=
        decodeArm_of_renderArm (C.separate htypes) hback harm
      refine ⟨bytes, ⟨arm.value, m⟩, rfl, decodeAt_self ?_, rfl, hheaders⟩
      rw [hdecode]
      rfl
  | withFixedStatus S T codec, value, _, _, hback, hr => by
      obtain ⟨⟨_, bytes⟩, harm, hr⟩ := of_bind_eq_ok hr
      cases hr
      have hdecode : decodeFixedArm codec mime bytes = .ok value :=
        decodeFixedArm_of_renderFixedArm hback harm
      exact ⟨bytes, value, rfl, decodeAt_self hdecode, rfl⟩
  | withStatusNoBody S, _, _, _, _, hr => by
      cases hr
      exact ⟨[], (), rfl, decodeAt_self rfl, trivial⟩
  | withStreamingStatus .., _, hplain, _, _, _ => hplain.elim
  -- the arms before the one that was sent have other statuses, and are passed over
  | union2 A B, .V0 a, hplain, hnodup, hback, hr => by
      have hA : A.statuses.Nodup := (nodup_union2.mp hnodup).1
      have harrives := arrives_of_renderUnion htypes hheaders A a hplain.1 hA hback hr
      refine harrives.inject .V0 (fun hdecode => ?_) id
      rw [decodeUnion, hdecode]
      rfl
  | union2 A B, .V1 b, hplain, hnodup, hback, hr => by
      obtain ⟨-, hB, hA⟩ := nodup_union2.mp hnodup
      have hmem : status ∈ B.statuses := status_mem_of_renderUnion hr
      have harrives := arrives_of_renderUnion htypes hheaders B b hplain.2 hB hback hr
      refine harrives.inject .V1 (fun hdecode => ?_) id
      rw [decodeUnion, decodeUnion_eq_none fun h => hA h hmem, hdecode]
      rfl
  | union3 A B C, .V0 a, hplain, hnodup, hback, hr => by
      have hA : A.statuses.Nodup := (nodup_union3.mp hnodup).1
      have harrives := arrives_of_renderUnion htypes hheaders A a hplain.1 hA hback hr
      refine harrives.inject .V0 (fun hdecode => ?_) id
      rw [decodeUnion, hdecode]
      rfl
  | union3 A B C, .V1 b, hplain, hnodup, hback, hr => by
      obtain ⟨-, hrest, hA, -⟩ := nodup_union3.mp hnodup
      have hB : B.statuses.Nodup := (nodup_union2.mp hrest).1
      have hmem : status ∈ B.statuses := status_mem_of_renderUnion hr
      have harrives := arrives_of_renderUnion htypes hheaders B b hplain.2.1 hB hback hr
      refine harrives.inject .V1 (fun hdecode => ?_) id
      rw [decodeUnion, decodeUnion_eq_none fun h => hA h hmem, hdecode]
      rfl
  | union3 A B C, .V2 c, hplain, hnodup, hback, hr => by
      obtain ⟨-, hrest, -, hA⟩ := nodup_union3.mp hnodup
      obtain ⟨-, hC, hB⟩ := nodup_union2.mp hrest
      have hmem : status ∈ C.statuses := status_mem_of_renderUnion hr
      have harrives := arrives_of_renderUnion htypes hheaders C c hplain.2.2 hC hback hr
      refine harrives.inject .V2 (fun hdecode => ?_) id
      rw [decodeUnion, decodeUnion_eq_none fun h => hA h hmem,
        decodeUnion_eq_none fun h => hB h hmem, hdecode]
      rfl
  | union4 A B C D, .V0 a, hplain, hnodup, hback, hr => by
      have hA : A.statuses.Nodup := (nodup_union4.mp hnodup).1
      have harrives := arrives_of_renderUnion htypes hheaders A a hplain.1 hA hback hr
      refine harrives.inject .V0 (fun hdecode => ?_) id
      rw [decodeUnion, hdecode]
      rfl
  | union4 A B C D, .V1 b, hplain, hnodup, hback, hr => by
      obtain ⟨-, hrest, hA, -, -⟩ := nodup_union4.mp hnodup
      have hB : B.statuses.Nodup := (nodup_union3.mp hrest).1
      have hmem : status ∈ B.statuses := status_mem_of_renderUnion hr
      have harrives := arrives_of_renderUnion htypes hheaders B b hplain.2.1 hB hback hr
      refine harrives.inject .V1 (fun hdecode => ?_) id
      rw [decodeUnion, decodeUnion_eq_none fun h => hA h hmem, hdecode]
      rfl
  | union4 A B C D, .V2 c, hplain, hnodup, hback, hr => by
      obtain ⟨-, hrest, -, hA, -⟩ := nodup_union4.mp hnodup
      obtain ⟨-, hrest, hB, -⟩ := nodup_union3.mp hrest
      have hC : C.statuses.Nodup := (nodup_union2.mp hrest).1
      have hmem : status ∈ C.statuses := status_mem_of_renderUnion hr
      have harrives := arrives_of_renderUnion htypes hheaders C c hplain.2.2.1 hC hback hr
      refine harrives.inject .V2 (fun hdecode => ?_) id
      rw [decodeUnion, decodeUnion_eq_none fun h => hA h hmem,
        decodeUnion_eq_none fun h => hB h hmem, hdecode]
      rfl
  | union4 A B C D, .V3 d, hplain, hnodup, hback, hr => by
      obtain ⟨-, hrest, -, -, hA⟩ := nodup_union4.mp hnodup
      obtain ⟨-, hrest, -, hB⟩ := nodup_union3.mp hrest
      obtain ⟨-, hD, hC⟩ := nodup_union2.mp hrest
      have hmem : status ∈ D.statuses := status_mem_of_renderUnion hr
      have harrives := arrives_of_renderUnion htypes hheaders D d hplain.2.2.2 hD hback hr
      refine harrives.inject .V3 (fun hdecode => ?_) id
      rw [decodeUnion, decodeUnion_eq_none fun h => hA h hmem,
        decodeUnion_eq_none fun h => hB h hmem, decodeUnion_eq_none fun h => hC h hmem, hdecode]
      rfl

end

/-- **A union response and back**: the client decodes the same variant with the same value, and the
headers of an arm come again. -/
theorem round_trip [HttpCrate] {U : Union CTypes} (hplain : U.NonStreaming)
    (hstatuses : U.statuses.Nodup) (htypes : Distinct CTypes) {v : U.Value} (hback : U.ReadsBack v)
    {accept : Option String} {status : StatusCode} {mime : Option Mime} {body : ArmBody}
    {headers : List (HeaderName × HeaderValue)}
    (hr : U.renderUnion accept v = .ok (status, mime, body, headers)) :
    ∃ bytes v', body = .full bytes ∧
      U.decodeUnion status (buildResponse (status, mime, body.toResponseBody, headers)).headers mime
        bytes = some (.ok v') ∧ U.Same v v' :=
  arrives_of_renderUnion htypes (HeaderMap.among_buildResponse _ _ _ _) U v hplain hstatuses hback
    hr

end Union

/-! ### A resource that may be there -/

section

attribute [local instance] HttpCrate.reference

/-- A thing is created, with its location, or refused in plain text, or there is nothing to do. -/
def thingUnion : Union [.OctetStream, .PlainText] :=
  .union2
    (.withStatusHeaders ⟨201, by decide⟩ Bytes
      ⟨[.octetStream, ⟨.PlainText, .ok, .ok⟩], rfl⟩)
    (.union2 (.withFixedStatus ⟨409, by decide⟩ String .plainText) (.withStatusNoBody .NO_CONTENT))

theorem union_round_trip_thing :
    ∃ bytes v', ArmBody.full [9] = .full bytes ∧
      thingUnion.decodeUnion ⟨201, by decide⟩
        (buildResponse (⟨201, by decide⟩, some .TEXT_PLAIN_UTF_8, .full [9],
          [("location", utf8Bytes "/things/9")])).headers (some .TEXT_PLAIN_UTF_8) bytes
        = some (.ok v') ∧
      thingUnion.Same (.V0 ⟨[9], [("location", utf8Bytes "/things/9")]⟩) v' := by
  have hr : thingUnion.renderUnion (some "text/*")
      (.V0 ⟨[9], [("location", utf8Bytes "/things/9")]⟩)
        = .ok (⟨201, by decide⟩, some .TEXT_PLAIN_UTF_8, .full [9],
          [("location", utf8Bytes "/things/9")]) := rfl
  have hplain : thingUnion.NonStreaming := ⟨trivial, trivial, trivial⟩
  have htypes : Distinct [.OctetStream, .PlainText] := by
    unfold Distinct
    decide
  have hback : thingUnion.ReadsBack (.V0 ⟨[9], [("location", utf8Bytes "/things/9")]⟩) := by
    intro c hc bytes hbytes
    rcases List.mem_pair.mp hc with rfl | rfl <;> exact hbytes.symm
  exact Union.round_trip hplain (by decide) htypes hback hr

end

end ServantRs
