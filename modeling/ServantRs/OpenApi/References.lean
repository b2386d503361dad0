import ServantRs.OpenApi.Grouping
import Mathlib.Data.List.Pairwise

/-!
# OpenAPI — what the checks are good for

Bodies are referred to by component name, components are registered under it, and names are checked,
each in a walk of its own.  A component is registered by the first body of its name; the check sees
to it that every other body of that name has the same schema.

* `checkOperationIds_ok`, `checkSchemaComponents_ok`: what a check that passes says.
* `checked_references`: references and operation ids of a checked document.
-/

namespace ServantRs.OpenApi

open Docs

/-! ### Operation ids -/

theorem checkOperationIds_ok {seen : List String} {eps : List EndpointDoc}
    (h : checkOperationIds seen eps = .ok ()) :
    (eps.filterMap EndpointDoc.operationId).Nodup ∧
      ∀ id ∈ eps.filterMap EndpointDoc.operationId, id ∉ seen := by
  induction eps generalizing seen with
  | nil => exact ⟨List.nodup_nil, nofun⟩
  | cons ep eps ih =>
      rw [checkOperationIds] at h
      cases hid : ep.operationId with
      | none =>
          rw [hid] at h
          rw [List.filterMap_cons_none hid]
          exact ih h
      | some id =>
          rw [hid] at h
          dsimp only at h
          rw [List.filterMap_cons_some hid]
          split at h
          case isTrue => cases h
          case isFalse hfresh =>
            obtain ⟨hnodup, hunseen⟩ := ih h
            refine ⟨List.nodup_cons.mpr ⟨fun hmem => ?_, hnodup⟩, fun id' hid' => ?_⟩
            · exact hunseen id hmem List.mem_cons_self
            · rcases List.mem_cons.mp hid' with rfl | hid'
              · exact hfresh
              · exact fun hmem => hunseen id' hid' (List.mem_cons_of_mem _ hmem)

/-- What one endpoint's id is, no other's is. -/
def DistinctIds (a b : EndpointDoc) : Prop :=
  ∀ id, a.operationId = some id → b.operationId ≠ some id

instance : Std.Symm DistinctIds := ⟨fun _ _ h id hb ha => h id ha hb⟩

theorem pairwise_distinctIds {eps : List EndpointDoc}
    (h : checkOperationIds [] eps = .ok ()) : eps.Pairwise DistinctIds := by
  refine (List.pairwise_filterMap.mp (checkOperationIds_ok h).1).imp ?_
  intro a b hne id ha hb
  exact hne id ha id hb rfl

/-! ### Components -/

theorem get_insertComponent {components : Members} {name : String} {value : Value}
    (h : SortedMap.get name components = some value) (schema : SchemaDoc) :
    SortedMap.get name (insertComponent components schema) = some value := by
  rw [insertComponent]
  split
  case h_1 name' value' _ _ =>
    split
    case isTrue => exact h
    case isFalse hnone =>
      have hne : name ≠ name' := by
        rintro rfl
        exact hnone (Option.isSome_iff_exists.mpr ⟨value, h⟩)
      rw [SortedMap.get_insert, if_neg hne, h]
  case h_2 => exact h

/-- A component stays as it was registered. -/
theorem get_foldl_insertComponent {components : Members} {name : String} {value : Value}
    (h : SortedMap.get name components = some value) (schemas : List SchemaDoc) :
    SortedMap.get name (schemas.foldl insertComponent components) = some value := by
  induction schemas generalizing components with
  | nil => exact h
  | cons schema schemas ih => exact ih (get_insertComponent h schema)

/-- One step of the check keeps what is registered, and `schema` is among it. -/
theorem checkSchemaComponents_cons {seen : Members} {schema : SchemaDoc} {schemas : List SchemaDoc}
    (h : checkSchemaComponents seen (schema :: schemas) = .ok ()) :
    checkSchemaComponents (insertComponent seen schema) schemas = .ok () ∧
      ∀ name value, schema.componentName = some name → schema.schema = some value →
        SortedMap.get name (insertComponent seen schema) = some value := by
  obtain ⟨typeName, _ | name, _ | value⟩ := schema
  · exact ⟨h, nofun⟩
  · exact ⟨h, nofun⟩
  · exact ⟨h, nofun⟩
  · rw [checkSchemaComponents] at h
    dsimp only [insertComponent] at h ⊢
    cases hget : SortedMap.get name seen with
    | none =>
        rw [hget] at h
        refine ⟨h, ?_⟩
        rintro _ _ ⟨⟩ ⟨⟩
        exact (SortedMap.get_insert ..).trans (if_pos rfl)
    | some existing =>
        rw [hget] at h
        dsimp only at h
        split at h
        case isTrue => cases h
        case isFalse heq =>
          refine ⟨h, ?_⟩
          rintro _ _ ⟨⟩ ⟨⟩
          rw [not_not.mp heq] at hget
          exact hget

/-- **A name stands for one schema**, that of every body of this name. -/
theorem checkSchemaComponents_ok {seen : Members} {schemas : List SchemaDoc}
    (h : checkSchemaComponents seen schemas = .ok ()) {schema : SchemaDoc} (hmem : schema ∈ schemas)
    {name : String} {value : Value} (hname : schema.componentName = some name)
    (hvalue : schema.schema = some value) :
    SortedMap.get name (schemas.foldl insertComponent seen) = some value := by
  induction schemas generalizing seen with
  | nil => cases hmem
  | cons other schemas ih =>
      obtain ⟨hrest, hregistered⟩ := checkSchemaComponents_cons h
      rcases List.mem_cons.mp hmem with rfl | hmem
      · exact get_foldl_insertComponent (hregistered name value hname hvalue) schemas
      · exact ih hrest hmem

/-! ### Schemas of a document -/

/-- The schemas of a body, one for each media type. -/
def contentSchemas (body : Value) : List Value :=
  (((body.get "content").map Value.members).getD []).filterMap fun media => media.2.get "schema"

def requestSchemas (op : Value) : List Value :=
  match op.get "requestBody" with
  | some body => contentSchemas body
  | none      => []

def responseSchemas (op : Value) : List Value :=
  match op.get "responses" with
  | some responses => responses.members.flatMap fun response => contentSchemas response.2
  | none           => []

theorem eq_of_mem_contentSchemas {body schema s : Value} {types : List Mime}
    (hbody : body.get "content" = some (contentFor types schema)) (hs : s ∈ contentSchemas body) :
    s = schema := by
  rw [contentSchemas, hbody, Option.map_some, Option.getD_some] at hs
  obtain ⟨media, hmedia, hs⟩ := List.mem_filterMap.mp hs
  obtain ⟨type, -, rfl⟩ := List.mem_map.mp (mem_of_mem_obj hmedia)
  simpa [obj, SortedMap.get_insert, eq_comm] using hs

theorem mem_requestSchemas {ep : EndpointDoc} {s : Value}
    (hs : s ∈ requestSchemas (operationFor ep)) :
    ∃ body, ep.requestBody = some body ∧ s = schemaForDoc body.schema := by
  rw [requestSchemas, get_requestBody] at hs
  cases hbody : ep.requestBody with
  | none => simp [hbody] at hs
  | some body =>
      rw [hbody, Option.map_some] at hs
      have hcontent : (requestBodyFor body).get "content"
          = some (contentFor body.contentTypes (schemaForDoc body.schema)) := by
        rw [requestBodyFor]
        split <;> simp [obj, SortedMap.get_insert]
      exact ⟨body, rfl, eq_of_mem_contentSchemas hcontent hs⟩

theorem mem_responseSchemas {ep : EndpointDoc} {s : Value}
    (hs : s ∈ responseSchemas (operationFor ep)) :
    s = responseSchemaFor ep := by
  rw [responseSchemas, get_responses] at hs
  obtain ⟨response, hresponse, hs⟩ := List.mem_flatMap.mp hs
  rw [responsesFor] at hresponse
  obtain rfl := List.mem_singleton.mp (mem_of_mem_obj hresponse)
  dsimp only at hs
  split at hs
  case isTrue => simp [contentSchemas, obj, SortedMap.get, SortedMap.insert] at hs
  case isFalse =>
    have hcontent : (obj ([("description", .string "")]
          ++ [("content", contentFor ep.responseTypes (responseSchemaFor ep))])).get "content"
        = some (contentFor ep.responseTypes (responseSchemaFor ep)) := by
      simp [obj, SortedMap.get_insert]
    exact eq_of_mem_contentSchemas hcontent hs

/-! ### Checked documents -/

theorem toCheckedOpenapi_ok {doc : ApiDoc} {info : OpenApiInfo} {v : Value}
    (h : toCheckedOpenapi doc info = .ok v) :
    checkOperationIds [] doc.endpoints = .ok () ∧
      checkSchemaComponents [] (schemaDocs doc) = .ok () ∧ v = toOpenapi doc info := by
  rw [toCheckedOpenapi] at h
  cases hids : checkOperationIds [] doc.endpoints with
  | error e => rw [hids] at h; cases h
  | ok =>
      cases hschemas : checkSchemaComponents [] (schemaDocs doc) with
      | error e => rw [hids, hschemas] at h; cases h
      | ok =>
          rw [hids, hschemas] at h
          exact ⟨rfl, rfl, (Except.ok.inj h).symm⟩

/-- What stands for the schema of a body: a reference to a component that is this schema, or, for a
type without a component name, the schema in place. -/
inductive Written (doc : Value) (schema : SchemaDoc) : Value → Prop where
  | ref {name : String} {value : Value} (hname : schema.componentName = some name)
      (hvalue : schema.schema = some value) (hcomponent : componentSchema doc name = some value) :
      Written doc schema (schemaRef name)
  | inline (hname : schema.componentName = none) :
      Written doc schema (schema.schema.getD (schemaFor schema.typeName))

theorem written {doc : ApiDoc} {info : OpenApiInfo} {v : Value}
    (hschemas : ∀ schema ∈ schemaDocs doc, schema.componentName.isSome → schema.schema.isSome)
    (h : toCheckedOpenapi doc info = .ok v) {schema : SchemaDoc} (hmem : schema ∈ schemaDocs doc) :
    Written v schema (schemaForDoc schema) := by
  obtain ⟨-, hcheck, rfl⟩ := toCheckedOpenapi_ok h
  rw [schemaForDoc]
  cases hname : schema.componentName with
  | none => exact .inline hname
  | some name =>
      obtain ⟨value, hvalue⟩ := Option.isSome_iff_exists.mp (hschemas schema hmem (by simp [hname]))
      refine .ref hname hvalue ?_
      rw [componentSchema_toOpenapi]
      exact checkSchemaComponents_ok hcheck hmem hname hvalue

/-- Operation number `i` under a path and a method. -/
def operationNo (doc : Value) (p m : String) (i : ℕ) : Option Value := do
  let main ← operationAt doc p m
  (operations main)[i]?

theorem operationNo_toOpenapi (doc : ApiDoc) (info : OpenApiInfo) (p m : String) (i : ℕ) :
    operationNo (toOpenapi doc info) p m i = (slot doc p m)[i]?.map operationFor := by
  rw [operationNo, operationAt_toOpenapi]
  cases hslot : slotOperation (slot doc p m) with
  | none =>
      have hnil : slot doc p m = [] := by
        by_contra hne
        simpa [hslot] using (slotOperation_isSome _).mpr hne
      simp [hnil]
  | some main => simp [operations_of_slot hslot]

/-- The bodies of an operation, as its endpoint has them. -/
structure BodiesWritten (doc : Value) (ep : EndpointDoc) (op : Value) : Prop where
  request : ∀ s ∈ requestSchemas op, ∃ body, ep.requestBody = some body ∧ Written doc body.schema s
  response : ∀ s ∈ responseSchemas op,
    (∃ schema, ep.responseSchema = some schema ∧ Written doc schema s) ∨
      (ep.responseSchema = none ∧ s = obj [])

theorem bodiesWritten {doc : ApiDoc} {info : OpenApiInfo} {v : Value}
    (hschemas : ∀ schema ∈ schemaDocs doc, schema.componentName.isSome → schema.schema.isSome)
    (h : toCheckedOpenapi doc info = .ok v) {ep : EndpointDoc} (hep : ep ∈ doc.endpoints) :
    BodiesWritten v ep (operationFor ep) where
  request s hs := by
    obtain ⟨body, hbody, rfl⟩ := mem_requestSchemas hs
    refine ⟨body, hbody, written hschemas h (List.mem_flatMap.mpr ⟨ep, hep, ?_⟩)⟩
    simp [hbody]
  response s hs := by
    rw [mem_responseSchemas hs, responseSchemaFor]
    cases hschema : ep.responseSchema with
    | none => exact .inr ⟨rfl, rfl⟩
    | some schema =>
        refine .inl ⟨schema, rfl, written hschemas h (List.mem_flatMap.mpr ⟨ep, hep, ?_⟩)⟩
        simp [hschema]

theorem index_eq_of_pairwise {α : Type*} {R : α → α → Prop} {l : List α} (h : l.Pairwise R)
    {i j : ℕ} {a b : α} (ha : l[i]? = some a) (hb : l[j]? = some b) (hab : ¬ R a b)
    (hba : ¬ R b a) : i = j := by
  obtain ⟨hi, rfl⟩ := List.getElem?_eq_some_iff.mp ha
  obtain ⟨hj, rfl⟩ := List.getElem?_eq_some_iff.mp hb
  rcases lt_trichotomy i j with hlt | heq | hlt
  · exact absurd (List.pairwise_iff_getElem.mp h i j hi hj hlt) hab
  · exact heq
  · exact absurd (List.pairwise_iff_getElem.mp h j i hj hi hlt) hba

/-- One id, one path, one method, one place there. -/
theorem eq_of_operationId {doc : ApiDoc} (h : doc.endpoints.Pairwise DistinctIds)
    {p m q n : String} {i j : ℕ} {a b : EndpointDoc} (ha : (slot doc p m)[i]? = some a)
    (hb : (slot doc q n)[j]? = some b) {id : String} (hida : a.operationId = some id)
    (hidb : b.operationId = some id) : p = q ∧ m = n ∧ i = j := by
  obtain ⟨hamem, haslot⟩ := List.mem_filter.mp (List.mem_of_getElem? ha)
  obtain ⟨hbmem, hbslot⟩ := List.mem_filter.mp (List.mem_of_getElem? hb)
  obtain ⟨rfl, rfl⟩ := of_decide_eq_true haslot
  obtain ⟨rfl, rfl⟩ := of_decide_eq_true hbslot
  have hsame : a = b := by
    by_contra hne
    exact h.forall (List.mem_of_mem_filter hamem) (List.mem_of_mem_filter hbmem) hne id hida hidb
  subst hsame
  have hslot : (slot doc (templatedPath a.path) (methodKey a)).Pairwise DistinctIds :=
    (h.sublist List.filter_sublist).sublist List.filter_sublist
  have hirrefl : ¬ DistinctIds a a := fun hne => hne id hida hida
  exact ⟨rfl, rfl, index_eq_of_pairwise hslot ha hb hirrefl hirrefl⟩

/-- **References of a checked document are sound.**  In an operation or an alternative, the schema
of a body is a reference to a component that is the schema of this body, or that schema in place;
and no two endpoints have one operation id. -/
theorem checked_references (doc : ApiDoc) (info : OpenApiInfo) (v : Value)
    (hschemas : ∀ schema ∈ schemaDocs doc, schema.componentName.isSome → schema.schema.isSome)
    (h : toCheckedOpenapi doc info = .ok v) :
    (∀ p m main, operationAt v p m = some main →
      ∃ first, operationNo v p m 0 = some first ∧
        ∀ k ≠ HOST_ALTERNATIVES_EXTENSION, main.get k = first.get k) ∧
    (∀ p m i op, operationNo v p m i = some op →
      ∃ ep, (slot doc p m)[i]? = some ep ∧ op = operationFor ep ∧ BodiesWritten v ep op) ∧
    ∀ p m i op q n j op' id, operationNo v p m i = some op → operationNo v q n j = some op' →
      op.get "operationId" = some id → op'.get "operationId" = some id →
        p = q ∧ m = n ∧ i = j := by
  have hread : ∀ p m i, operationNo v p m i = (slot doc p m)[i]?.map operationFor := by
    obtain ⟨-, -, rfl⟩ := toCheckedOpenapi_ok h
    exact operationNo_toOpenapi doc info
  refine ⟨fun p m main hmain => ?_, fun p m i op hop => ?_, ?_⟩
  · obtain ⟨-, -, rfl⟩ := toCheckedOpenapi_ok h
    rw [operationAt_toOpenapi] at hmain
    cases hslot : slot doc p m with
    | nil => rw [hslot] at hmain; cases hmain
    | cons ep eps =>
        rw [hslot] at hmain
        refine ⟨operationFor ep, ?_, fun k hk => get_of_slot hmain hk⟩
        rw [operationNo_toOpenapi, hslot]
        rfl
  · rw [hread] at hop
    obtain ⟨ep, hep, rfl⟩ := Option.map_eq_some_iff.mp hop
    have hmem : ep ∈ doc.endpoints :=
      List.mem_of_mem_filter (mem_documented_of_mem_slot (List.mem_of_getElem? hep))
    exact ⟨ep, hep, rfl, bodiesWritten hschemas h hmem⟩
  · intro p m i op q n j op' id hop hop' hid hid'
    rw [hread] at hop hop'
    obtain ⟨a, ha, rfl⟩ := Option.map_eq_some_iff.mp hop
    obtain ⟨b, hb, rfl⟩ := Option.map_eq_some_iff.mp hop'
    rw [get_operationId] at hid hid'
    obtain ⟨ida, hida, rfl⟩ := Option.map_eq_some_iff.mp hid
    obtain ⟨idb, hidb, hidb'⟩ := Option.map_eq_some_iff.mp hid'
    obtain rfl : idb = ida := by simpa using hidb'
    exact eq_of_operationId (pairwise_distinctIds (toCheckedOpenapi_ok h).1) ha hb hida hidb

/-- The schema of users, a component. -/
def userSchema : SchemaDoc := ⟨"crate::User", some "User", some (obj [("type", .string "object")])⟩

/-- `POST /users` takes a user and answers one. -/
def userDoc : ApiDoc :=
  ⟨[{ EndpointDoc.empty with
      path := [.static "users"]
      method := .POST
      operationId := some "createUser"
      requestBody := some ⟨[.APPLICATION_JSON], "crate::User", userSchema, false⟩
      responseTypes := [.APPLICATION_JSON]
      responseSchema := some userSchema }]⟩

theorem checked_references_user :
    let v := toOpenapi userDoc ⟨"Users", "1.0.0", none⟩
    ∀ op, operationNo v "/users" "post" 0 = some op →
      ∃ ep, (slot userDoc "/users" "post")[0]? = some ep ∧ op = operationFor ep ∧
        BodiesWritten v ep op := by
  intro v
  have hschemas : ∀ schema ∈ schemaDocs userDoc, schema.componentName.isSome →
      schema.schema.isSome := by
    have hdocs : schemaDocs userDoc = [userSchema, userSchema] := rfl
    intro schema hmem _
    rw [hdocs] at hmem
    obtain rfl : schema = userSchema := by simpa using hmem
    rfl
  exact (checked_references userDoc ⟨"Users", "1.0.0", none⟩ v hschemas rfl).2.1 "/users" "post" 0

end ServantRs.OpenApi
