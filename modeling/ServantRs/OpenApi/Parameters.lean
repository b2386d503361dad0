import ServantRs.OpenApi.Grouping
import ServantRs.Docs.Provenance
import Mathlib.Data.List.Perm.Basic

/-!
# OpenAPI — parameters that clash

Endpoints of one key are merged before operations are written: the merged endpoint has the path of
the first and the query parameters and headers of all.  OpenAPI wants the parameters of an operation
to differ in name or place.

* `nodup_parameterKeys_iff`: when those of one endpoint do.
* `distinct_parameters_iff`: when those of every operation of a document do, although those of each
  endpoint taken alone do; `repeated_parameter`: they may not.
-/

namespace ServantRs.OpenApi

open Docs

/-! ### Names and places -/

/-- Name and place of a parameter. -/
def parameterKey (parameter : Value) : Option Value × Option Value :=
  (parameter.get "name", parameter.get "in")

/-- Names and places of the parameters of an operation. -/
def parameterKeys (op : Value) : List (Option Value × Option Value) :=
  match op.get "parameters" with
  | some parameters => parameters.items.map parameterKey
  | none            => []

def keyAt (place name : String) : Option Value × Option Value :=
  (some (.string name), some (.string place))

theorem keyAt_injective (place : String) : Function.Injective (keyAt place) := by
  intro a b h
  simpa [keyAt] using h

def pathNames (ep : EndpointDoc) : List String := ep.path.filterMap PathPart.name?

/-- The names in the query, of plain parameters and of deep ones. -/
def queryNames (ep : EndpointDoc) : List String :=
  ep.queryParams.map ParamDoc.name ++ ep.deepQueries.map DeepQueryDoc.name

section Keys

attribute [local simp] obj SortedMap.get SortedMap.get_insert

theorem parameterKey_path (name typeName : String) :
    parameterKey (pathParameter name typeName) = keyAt "path" name := by
  simp [parameterKey, keyAt, pathParameter]

theorem parameterKey_query (param : ParamDoc) :
    parameterKey (queryParameter param) = keyAt "query" param.name := by
  rcases param with ⟨name, _ | _ | _, typeName⟩ <;> simp [parameterKey, keyAt, queryParameter]

theorem parameterKey_deepQuery (param : DeepQueryDoc) :
    parameterKey (deepQueryParameter param) = keyAt "query" param.name := by
  simp [parameterKey, keyAt, deepQueryParameter]

theorem parameterKey_header (name : String) :
    parameterKey (headerParameter name) = keyAt "header" name := by
  simp [parameterKey, keyAt, headerParameter]

end Keys

theorem map_parameterKey_path (path : List PathPart) :
    (pathParameters path).map parameterKey
      = (path.filterMap PathPart.name?).map (keyAt "path") := by
  rw [pathParameters, List.map_filterMap, List.map_filterMap]
  congr 1
  funext part
  cases part with
  | static s => rfl
  | capture name typeName => exact congrArg some (parameterKey_path name typeName)
  | captureAll name typeName => exact congrArg some (parameterKey_path name typeName)

theorem parameterKeys_operationFor (ep : EndpointDoc) :
    parameterKeys (operationFor ep)
      = (pathNames ep).map (keyAt "path") ++ (queryNames ep).map (keyAt "query")
        ++ ep.headers.map (keyAt "header") := by
  have hkeys : parameterKeys (operationFor ep) = (parametersFor ep).map parameterKey := by
    rw [parameterKeys, get_parameters, parametersMember]
    cases parametersFor ep <;> rfl
  rw [hkeys]
  simp only [parametersFor, List.map_append, List.map_map, map_parameterKey_path, pathNames,
    queryNames, List.append_assoc]
  congr 2
  · exact List.map_congr_left fun param _ => parameterKey_query param
  · congr 1
    · exact List.map_congr_left fun param _ => parameterKey_deepQuery param
    · exact List.map_congr_left fun name _ => parameterKey_header name

/-- Places keep names apart. -/
theorem nodup_parameterKeys_iff (ep : EndpointDoc) :
    (parameterKeys (operationFor ep)).Nodup
      ↔ (pathNames ep).Nodup ∧ (queryNames ep).Nodup ∧ ep.headers.Nodup := by
  have hapart : ∀ {place place' : String}, place ≠ place' → ∀ names names' : List String,
      (names.map (keyAt place)).Disjoint (names'.map (keyAt place')) := by
    intro place place' hne names names' key hkey hkey'
    obtain ⟨name, -, rfl⟩ := List.mem_map.mp hkey
    obtain ⟨name', -, h⟩ := List.mem_map.mp hkey'
    exact hne (by simpa [keyAt] using (congrArg Prod.snd h).symm)
  rw [parameterKeys_operationFor, List.nodup_append', List.nodup_append', List.disjoint_append_left,
    List.nodup_map_iff (keyAt_injective _), List.nodup_map_iff (keyAt_injective _),
    List.nodup_map_iff (keyAt_injective _)]
  constructor
  · rintro ⟨⟨hpath, hquery, -⟩, hheader, -⟩
    exact ⟨hpath, hquery, hheader⟩
  · rintro ⟨hpath, hquery, hheader⟩
    exact ⟨⟨hpath, hquery, hapart (by simp) _ _⟩, hheader, hapart (by simp) _ _,
      hapart (by simp) _ _⟩

/-! ### Merged endpoints -/

/-- No query parameter and no header of one is one of the other. -/
def Apart (a b : EndpointDoc) : Prop :=
  (queryNames a).Disjoint (queryNames b) ∧ a.headers.Disjoint b.headers

section Merged

variable [MimeEq]

theorem queryNames_of_joined {eps : List EndpointDoc} {d : EndpointDoc}
    (h : KeyedList.Joined EndpointDoc.combine eps d) :
    List.Perm (queryNames d) (eps.flatMap queryNames) := by
  have hplain : d.queryParams = eps.flatMap EndpointDoc.queryParams :=
    h.flatMap fun _ _ => rfl
  have hdeep : d.deepQueries = eps.flatMap EndpointDoc.deepQueries :=
    h.flatMap fun _ _ => rfl
  rw [queryNames, hplain, hdeep, List.map_flatMap, List.map_flatMap]
  exact List.flatMap_append_perm _ _ _

/-- Endpoints that are each in order are when merged if no two of them declare one parameter. -/
theorem nodup_merged_iff {eps : List EndpointDoc} {d : EndpointDoc}
    (h : KeyedList.Joined EndpointDoc.combine eps d)
    (halone : ∀ ep ∈ eps, (parameterKeys (operationFor ep)).Nodup) :
    (parameterKeys (operationFor d)).Nodup ↔ eps.Pairwise Apart := by
  simp only [nodup_parameterKeys_iff] at halone
  have hkeeps : ∀ a b : EndpointDoc, (a.combine b).path = a.path := fun _ _ => rfl
  obtain ⟨first, hfirst, hpath⟩ := h.exists_eq hkeeps
  have hnames : (pathNames d).Nodup := by
    rw [pathNames, hpath]
    exact (halone first hfirst).1
  have hheaders : d.headers = eps.flatMap EndpointDoc.headers :=
    h.flatMap fun _ _ => rfl
  rw [nodup_parameterKeys_iff, (queryNames_of_joined h).nodup_iff, hheaders, List.nodup_flatMap,
    List.nodup_flatMap]
  constructor
  · rintro ⟨-, ⟨-, hquery⟩, -, hheader⟩
    exact hquery.and hheader
  · intro hapart
    exact ⟨hnames, ⟨fun ep hep => (halone ep hep).2.1, hapart.imp And.left⟩,
      fun ep hep => (halone ep hep).2.2, hapart.imp And.right⟩

end Merged

/-! ### The operations of an API -/

theorem raw_eq_none_of_key {a b : EndpointDoc} (h : a.key = b.key) (ha : a.raw = none) :
    b.raw = none := by
  rcases (key_eq_iff.mp h).method with ⟨hraw, -⟩ | ⟨-, hb, -⟩
  · simp [ha] at hraw
  · exact hb

section Api

variable [AppTypes] [HttpCrate] [TypeNames] [ToSchema] [MimeEq]

/-- The operations of a document repeat no parameter when its endpoints, merged, do not. -/
theorem forall_emitted_iff (api : ApiDescription) (info : OpenApiInfo) :
    (∀ op, Emitted (openapiFor api info) op → (parameterKeys op).Nodup)
      ↔ ∀ d ∈ api.openapiDocs.endpoints, d.raw = none →
        (parameterKeys (operationFor d)).Nodup := by
  constructor
  · intro h d hd hraw
    refine h _ (emitted_operationFor (List.mem_filter.mpr ⟨hd, ?_⟩))
    rw [hraw]
    rfl
  · intro h op hop
    obtain ⟨d, hd, hget⟩ := exists_endpoint_of_emitted hop
    obtain ⟨hd, hraw⟩ := List.mem_filter.mp hd
    have hparameters := hget "parameters" (by simp [HOST_ALTERNATIVES_EXTENSION])
    rw [parameterKeys, hparameters]
    exact h d hd (Option.isNone_iff_eq_none.mp hraw)

/-- **When parameters are repeated.**  When the parameters of each endpoint taken alone differ in
name or place, those of every operation do if and only if no two endpoints that are documented as
one declare a query parameter of one name or a header of one name. -/
theorem distinct_parameters_iff (api : ApiDescription) (info : OpenApiInfo)
    (halone : ∀ ep ∈ api.openapiEndpoints, ep.raw = none →
      (parameterKeys (operationFor ep)).Nodup) :
    (∀ op, Emitted (openapiFor api info) op → (parameterKeys op).Nodup)
      ↔ api.openapiEndpoints.Pairwise fun a b =>
        a.raw = none → a.SameRoute PathPart.Alike b → Apart a b := by
  have hdocs := gathers_openapiDocs api
  -- the endpoints merged into `d`
  have hgroup : ∀ {d : EndpointDoc}, d.raw = none →
      ∀ ep ∈ api.openapiEndpoints.filter (fun e => decide (e.key = d.key)),
        ep.raw = none ∧ (parameterKeys (operationFor ep)).Nodup := by
    intro d hraw ep hep
    obtain ⟨hep, hkey⟩ := List.mem_filter.mp hep
    have hnone := raw_eq_none_of_key (of_decide_eq_true hkey).symm hraw
    exact ⟨hnone, halone ep hep hnone⟩
  rw [forall_emitted_iff]
  simp only [← key_eq_iff]
  constructor
  · intro h
    have hgroups : ∀ k, (api.openapiEndpoints.filter fun e => decide (e.key = k)).Pairwise
        fun a b => a.raw = none → Apart a b := by
      refine fun k => List.pairwise_iff_forall_sublist.mpr fun {a b} hab hraw => ?_
      obtain ⟨ha, hk⟩ := List.mem_filter.mp (hab.subset List.mem_cons_self)
      obtain ⟨d, hd, hkey⟩ := hdocs.exists_mem ha
      obtain rfl : d.key = k := hkey.trans (of_decide_eq_true hk)
      have hjoin := hdocs.joined hd
      have hnone := raw_eq_none_of_key hkey.symm hraw
      have hpairs := (nodup_merged_iff hjoin fun ep hep => (hgroup hnone ep hep).2).mp
        (h d hd hnone)
      exact List.pairwise_iff_forall_sublist.mp hpairs hab
    exact (KeyedList.forall_pairwise_filter_iff.mp hgroups).imp fun hapart hraw hkey =>
      hapart hkey hraw
  · intro h d hd hraw
    have hjoin := hdocs.joined hd
    have hpairs : (api.openapiEndpoints.filter fun e => decide (e.key = d.key)).Pairwise
        fun a b => a.raw = none → Apart a b :=
      KeyedList.forall_pairwise_filter_iff.mpr
        (h.imp fun hapart hkey hraw => hapart hraw hkey) d.key
    refine (nodup_merged_iff hjoin fun ep hep => (hgroup hraw ep hep).2).mpr ?_
    exact hpairs.imp_of_mem fun ha _ hapart => hapart (hgroup hraw _ ha).1

end Api

/-! ### A parameter repeated -/

section

attribute [local instance] AppTypes.reference HttpCrate.reference MimeEq.reference
  TypeNames.reference ToSchema.reference

/-- `GET /?q=..`, twice. -/
def repeatedApi : ApiDescription :=
  .alt (.sub (.queryParam String .string .optional .strict "q") (.verb (.noContentVerb .GET)))
    (.sub (.queryParam String .string .optional .strict "q") (.verb (.noContentVerb .GET)))

theorem repeatedApi_alone : ∀ ep ∈ repeatedApi.openapiEndpoints, ep.raw = none →
    (parameterKeys (operationFor ep)).Nodup := by
  have hall : repeatedApi.openapiEndpoints.map (fun ep => (pathNames ep, queryNames ep, ep.headers))
      = [([], ["q"], []), ([], ["q"], [])] := rfl
  intro ep hep _
  have hnames := List.mem_map_of_mem (f := fun ep => (pathNames ep, queryNames ep, ep.headers)) hep
  rw [hall] at hnames
  have hnames : pathNames ep = [] ∧ queryNames ep = ["q"] ∧ ep.headers = [] := by simpa using hnames
  obtain ⟨hpath, hquery, hheaders⟩ := hnames
  rw [nodup_parameterKeys_iff, hpath, hquery, hheaders]
  exact ⟨List.nodup_nil, List.nodup_singleton _, List.nodup_nil⟩

theorem distinct_parameters_iff_repeated :
    (∀ op, Emitted (openapiFor repeatedApi ⟨"", "", none⟩) op → (parameterKeys op).Nodup)
      ↔ repeatedApi.openapiEndpoints.Pairwise fun a b =>
        a.raw = none → a.SameRoute PathPart.Alike b → Apart a b :=
  distinct_parameters_iff repeatedApi ⟨"", "", none⟩ repeatedApi_alone

theorem repeated_parameter : ¬ ∀ (api : ApiDescription) (info : OpenApiInfo),
    (∀ ep ∈ api.openapiEndpoints, ep.raw = none → (parameterKeys (operationFor ep)).Nodup) →
      ∀ op, Emitted (openapiFor api info) op → (parameterKeys op).Nodup := by
  intro h
  obtain ⟨d, hd, hraw, hquery⟩ : ∃ d, repeatedApi.openapiDocs.endpoints = [d] ∧ d.raw = none ∧
      queryNames d = ["q", "q"] := ⟨_, rfl, rfl, rfl⟩
  have hdocument := (forall_emitted_iff repeatedApi ⟨"", "", none⟩).mp
    (h repeatedApi ⟨"", "", none⟩ repeatedApi_alone)
  have hnodup := (nodup_parameterKeys_iff d).mp (hdocument d (hd ▸ List.mem_cons_self) hraw)
  rw [hquery] at hnodup
  simp at hnodup

end

end ServantRs.OpenApi
