import ServantRs.OpenApi.Document

/-!
# OpenAPI — no endpoint is lost

The endpoints of one path template and one method share an operation.  Each step of the loop writes
one member of one object anew from what is there, so the loop groups endpoints, first by template
and then by method (`SortedMap.get_foldl_upsert`).

* `foldl_joinOperation`: what one group is written as.
* `get_operation`: the operation at a path and a method.
* `toOpenapi_paths`: the object of paths, whole.
* `exists_endpoint_of_emitted`, `emitted_operationFor`: the operations of a document are those of
  its endpoints.
-/

namespace ServantRs.OpenApi

open Docs

/-- The endpoints written under one path and one method, in order. -/
def slot (doc : ApiDoc) (p m : String) : List EndpointDoc :=
  (documented doc).filter fun ep => decide (templatedPath ep.path = p ∧ methodKey ep = m)

/-- An endpoint as an alternative: its host, if it has one, and its operation. -/
def alternativeFor (ep : EndpointDoc) : Value :=
  obj [("host", (ep.host.map hostExtension).getD .null), ("operation", operationFor ep)]

/-- The operation of several endpoints: that of the first, with all of them as alternatives. -/
def slotOperation : List EndpointDoc → Option Value
  | []        => none
  | [ep]      => some (operationFor ep)
  | ep :: eps =>
    some (.object (SortedMap.insert HOST_ALTERNATIVES_EXTENSION
      (.array ((ep :: eps).map alternativeFor)) (operationMembers ep)))

/-! ### One group -/

theorem sameMethodAlternative_operation (ep : EndpointDoc) :
    sameMethodAlternative (operationMembers ep) = alternativeFor ep := by
  have hhost : SortedMap.get HOST_EXTENSION (operationMembers ep) = ep.host.map hostExtension :=
    get_host ep
  rw [sameMethodAlternative, hhost, alternativeFor, obj, List.foldl_cons, List.foldl_cons,
    List.foldl_nil, operationFor]

/-- A second endpoint: the first becomes an alternative too. -/
theorem append_operation (a b : EndpointDoc) :
    some (appendSameMethodAlternative (operationFor a) (operationFor b))
      = slotOperation [a, b] := by
  have hnone : SortedMap.get HOST_ALTERNATIVES_EXTENSION (operationMembers a) = none :=
    get_alternatives a
  have hself : withAlternatives (operationMembers a)
      = SortedMap.insert HOST_ALTERNATIVES_EXTENSION (.array [alternativeFor a])
          (operationMembers a) := by
    simp [withAlternatives, hnone, sameMethodAlternative_operation]
  simp [operationFor, appendSameMethodAlternative, hself, SortedMap.get_insert,
    SortedMap.insert_insert, sameMethodAlternative_operation, slotOperation]

/-- Any further endpoint is appended. -/
theorem append_alternatives (m : Members) (alternatives : List Value) (b : EndpointDoc) :
    appendSameMethodAlternative
        (.object (SortedMap.insert HOST_ALTERNATIVES_EXTENSION (.array alternatives) m))
        (operationFor b)
      = .object (SortedMap.insert HOST_ALTERNATIVES_EXTENSION
          (.array (alternatives ++ [alternativeFor b])) m) := by
  simp [operationFor, appendSameMethodAlternative, withAlternatives, SortedMap.get_insert,
    SortedMap.insert_insert, sameMethodAlternative_operation]

/-- One endpoint put where there may be an operation. -/
def joinOperation (ep : EndpointDoc) : Option Value → Value
  | some existing => appendSameMethodAlternative existing (operationFor ep)
  | none          => operationFor ep

/-- **What one group is written as.** -/
theorem foldl_joinOperation (eps : List EndpointDoc) :
    eps.foldl (fun o ep => some (joinOperation ep o)) none = slotOperation eps := by
  induction eps using List.reverseRecOn with
  | nil => rfl
  | append_singleton eps ep ih =>
      rw [List.foldl_append, ih]
      rcases eps with _ | ⟨a, _ | ⟨b, eps⟩⟩
      · rfl
      · exact append_operation a ep
      · have hsnoc : (a :: b :: eps).map alternativeFor ++ [alternativeFor ep]
            = ((a :: b :: eps) ++ [ep]).map alternativeFor := by simp
        have happend := append_alternatives (operationMembers a)
          ((a :: b :: eps).map alternativeFor) ep
        rw [hsnoc] at happend
        exact congrArg some happend

/-! ### The loop -/

theorem insertMethodOperation_eq (methods : Members) (ep : EndpointDoc) :
    insertMethodOperation methods (methodKey ep) (operationFor ep)
      = SortedMap.upsert (methodKey ep) (joinOperation ep) methods := by
  rw [insertMethodOperation, SortedMap.upsert]
  cases SortedMap.get (methodKey ep) methods <;> rfl

/-- One endpoint put into what there is of its path. -/
def joinPath (ep : EndpointDoc) (o : Option Value) : Value :=
  .object (SortedMap.upsert (methodKey ep) (joinOperation ep) ((o.map Value.members).getD []))

theorem insertEndpoint_eq (paths : Members) (ep : EndpointDoc) :
    insertEndpoint paths ep = SortedMap.upsert (templatedPath ep.path) (joinPath ep) paths := by
  rw [insertEndpoint, SortedMap.upsert]
  simp only [insertMethodOperation_eq]
  -- what is there and no object is replaced
  rcases SortedMap.get (templatedPath ep.path) paths with _ | ⟨_ | _ | _ | _ | _ | _⟩ <;> rfl

/-- The methods of one path. -/
def groupByMethod (eps : List EndpointDoc) : Members :=
  eps.foldl (fun methods ep => SortedMap.upsert (methodKey ep) (joinOperation ep) methods) []

theorem foldl_joinPath (eps : List EndpointDoc) :
    eps.foldl (fun o ep => some (joinPath ep o)) none
      = if eps = [] then none else some (.object (groupByMethod eps)) := by
  induction eps using List.reverseRecOn with
  | nil => rfl
  | append_singleton eps ep ih =>
      have hsnoc : groupByMethod (eps ++ [ep])
          = SortedMap.upsert (methodKey ep) (joinOperation ep) (groupByMethod eps) :=
        List.foldl_append
      have hne : eps ++ [ep] ≠ [] := by simp
      rw [List.foldl_append, ih, if_neg hne, hsnoc]
      by_cases h : eps = []
      · subst h; rfl
      · rw [if_neg h]; rfl

/-- The paths of a document. -/
def groupByPath (eps : List EndpointDoc) : Members :=
  eps.foldl (fun paths ep => SortedMap.upsert (templatedPath ep.path) (joinPath ep) paths) []

theorem foldl_insertEndpoint (eps : List EndpointDoc) :
    eps.foldl insertEndpoint [] = groupByPath eps := by
  rw [groupByPath]
  congr 1
  funext paths ep
  exact insertEndpoint_eq paths ep

theorem sorted_groupByMethod (eps : List EndpointDoc) : SortedMap.Sorted (groupByMethod eps) :=
  SortedMap.Sorted.foldl_upsert _ _ List.Pairwise.nil _

theorem sorted_groupByPath (eps : List EndpointDoc) : SortedMap.Sorted (groupByPath eps) :=
  SortedMap.Sorted.foldl_upsert _ _ List.Pairwise.nil _

theorem get_groupByPath (eps : List EndpointDoc) (p : String) :
    SortedMap.get p (groupByPath eps)
      = if (eps.filter fun ep => decide (templatedPath ep.path = p)) = [] then none
        else some (.object (groupByMethod
          (eps.filter fun ep => decide (templatedPath ep.path = p)))) := by
  rw [groupByPath, SortedMap.get_foldl_upsert]
  exact foldl_joinPath _

theorem get_groupByMethod (eps : List EndpointDoc) (m : String) :
    SortedMap.get m (groupByMethod eps)
      = slotOperation (eps.filter fun ep => decide (methodKey ep = m)) := by
  rw [groupByMethod, SortedMap.get_foldl_upsert]
  exact foldl_joinOperation _

theorem slot_eq (doc : ApiDoc) (p m : String) :
    ((documented doc).filter fun ep => decide (templatedPath ep.path = p)).filter
        (fun ep => decide (methodKey ep = m))
      = slot doc p m := by
  simp [slot, List.filter_filter, and_comm]

/-! ### The object of paths -/

/-- The operation at a path and a method. -/
def operationAt (doc : Value) (p m : String) : Option Value := do
  let paths ← doc.get "paths"
  let methods ← paths.get p
  methods.get m

/-- **The operation at a path and a method.** -/
theorem operationAt_toOpenapi (doc : ApiDoc) (info : OpenApiInfo) (p m : String) :
    operationAt (toOpenapi doc info) p m = slotOperation (slot doc p m) := by
  have hpaths : (toOpenapi doc info).get "paths"
      = some (.object (groupByPath (documented doc))) := by
    rw [get_paths, foldl_insertEndpoint]
  have hpath := get_groupByPath (documented doc) p
  simp only [operationAt, hpaths, Option.bind_eq_bind, Option.bind_some, Value.get_object, hpath]
  split
  case isTrue h =>
    rw [← slot_eq, h]
    rfl
  case isFalse =>
    rw [Option.bind_some, Value.get_object, get_groupByMethod, slot_eq]

theorem exists_slot_iff (doc : ApiDoc) (p : String) :
    (∃ m, slot doc p m ≠ [])
      ↔ ((documented doc).filter fun ep => decide (templatedPath ep.path = p)) ≠ [] := by
  simp only [← slot_eq]
  constructor
  · rintro ⟨m, hm⟩ h
    rw [h] at hm
    exact hm rfl
  · intro h
    obtain ⟨ep, eps, heps⟩ := List.exists_cons_of_ne_nil h
    refine ⟨methodKey ep, List.ne_nil_of_mem (a := ep) ?_⟩
    rw [heps]
    exact List.mem_filter.mpr ⟨List.mem_cons_self, decide_eq_true rfl⟩

theorem slotOperation_isSome (eps : List EndpointDoc) : (slotOperation eps).isSome ↔ eps ≠ [] := by
  rcases eps with _ | ⟨a, _ | ⟨b, eps⟩⟩ <;> simp [slotOperation]

/-- **No endpoint is lost.**  A document has the paths and methods of the endpoints that are not
raw and no others, each once, and at a path and a method the operation of the first of its
endpoints, with one alternative for each when there are several. -/
theorem toOpenapi_paths (doc : ApiDoc) (info : OpenApiInfo) :
    ∃ paths : Members, (toOpenapi doc info).get "paths" = some (.object paths) ∧
      SortedMap.Sorted paths ∧
      (∀ p, p ∈ paths.map Prod.fst ↔ ∃ m, slot doc p m ≠ []) ∧
      ∀ p v, (p, v) ∈ paths → ∃ methods : Members, v = .object methods ∧
        SortedMap.Sorted methods ∧
        (∀ m, m ∈ methods.map Prod.fst ↔ slot doc p m ≠ []) ∧
        ∀ m op, (m, op) ∈ methods → slotOperation (slot doc p m) = some op := by
  refine ⟨groupByPath (documented doc), ?_, sorted_groupByPath _, fun p => ?_, fun p v hv => ?_⟩
  · rw [get_paths, foldl_insertEndpoint]
  · rw [← SortedMap.isSome_get_iff, get_groupByPath, exists_slot_iff]
    split <;> simp [*]
  · have hget := SortedMap.get_of_mem (sorted_groupByPath _) hv
    rw [get_groupByPath] at hget
    obtain ⟨-, hobject⟩ := Option.ite_none_left_eq_some.mp hget
    obtain rfl := Option.some.inj hobject
    refine ⟨_, rfl, sorted_groupByMethod _, fun m => ?_, fun m op hop => ?_⟩
    · rw [← SortedMap.isSome_get_iff, get_groupByMethod, slot_eq, slotOperation_isSome]
    · rw [← slot_eq, ← get_groupByMethod]
      exact SortedMap.get_of_mem (sorted_groupByMethod _) hop

/-! ### The operations of a document -/

/-- The operations under one path and one method: the alternatives, or the one there is. -/
def operations (op : Value) : List Value :=
  match op.get HOST_ALTERNATIVES_EXTENSION with
  | some alternatives => alternatives.items.filterMap (Value.get "operation")
  | none              => [op]

/-- An operation of a document: one at a path and a method, or one of the alternatives there. -/
def Emitted (doc op : Value) : Prop :=
  ∃ p m main, operationAt doc p m = some main ∧ (op = main ∨ op ∈ operations main)

theorem get_alternativeFor (ep : EndpointDoc) :
    (alternativeFor ep).get "operation" = some (operationFor ep) := by
  simp [alternativeFor, obj, SortedMap.get_insert]

/-- One operation for each endpoint, in order. -/
theorem operations_of_slot {eps : List EndpointDoc} {main : Value}
    (h : slotOperation eps = some main) : operations main = eps.map operationFor := by
  rcases eps with _ | ⟨a, _ | ⟨b, eps⟩⟩
  · cases h
  · obtain rfl := Option.some.inj h
    rw [operations, get_alternatives, List.map_singleton]
  · obtain rfl := Option.some.inj h
    have hread : Value.get "operation" ∘ alternativeFor = some ∘ operationFor :=
      funext get_alternativeFor
    simp only [operations, Value.get_object, SortedMap.get_insert, if_pos, Value.items,
      List.filterMap_map, hread, List.filterMap_eq_map]

/-- Alternatives apart, the operation is that of the first endpoint. -/
theorem get_of_slot {ep : EndpointDoc} {eps : List EndpointDoc} {main : Value}
    (h : slotOperation (ep :: eps) = some main) {k : String}
    (hk : k ≠ HOST_ALTERNATIVES_EXTENSION) : main.get k = (operationFor ep).get k := by
  cases eps with
  | nil => rw [← Option.some.inj h]
  | cons b eps =>
      rw [← Option.some.inj h, Value.get_object, SortedMap.get_insert, if_neg hk]
      rfl

variable {doc : ApiDoc} {info : OpenApiInfo}

theorem mem_documented_of_mem_slot {p m : String} {ep : EndpointDoc} (h : ep ∈ slot doc p m) :
    ep ∈ documented doc := List.mem_of_mem_filter h

/-- An operation of a document is, alternatives apart, that of an endpoint. -/
theorem exists_endpoint_of_emitted {op : Value} (h : Emitted (toOpenapi doc info) op) :
    ∃ ep ∈ documented doc,
      ∀ k ≠ HOST_ALTERNATIVES_EXTENSION, op.get k = (operationFor ep).get k := by
  obtain ⟨p, m, main, hmain, h⟩ := h
  rw [operationAt_toOpenapi] at hmain
  rcases h with rfl | h
  · cases hslot : slot doc p m with
    | nil => rw [hslot] at hmain; cases hmain
    | cons ep eps =>
        rw [hslot] at hmain
        have hmem : ep ∈ slot doc p m := hslot ▸ List.mem_cons_self
        exact ⟨ep, mem_documented_of_mem_slot hmem, fun k hk => get_of_slot hmain hk⟩
  · rw [operations_of_slot hmain] at h
    obtain ⟨ep, hep, rfl⟩ := List.mem_map.mp h
    exact ⟨ep, mem_documented_of_mem_slot hep, fun k _ => rfl⟩

theorem emitted_operationFor {ep : EndpointDoc} (h : ep ∈ documented doc) :
    Emitted (toOpenapi doc info) (operationFor ep) := by
  have hmem : ep ∈ slot doc (templatedPath ep.path) (methodKey ep) :=
    List.mem_filter.mpr ⟨h, decide_eq_true ⟨rfl, rfl⟩⟩
  have hsome := (slotOperation_isSome _).mpr (List.ne_nil_of_mem hmem)
  obtain ⟨main, hmain⟩ := Option.isSome_iff_exists.mp hsome
  refine ⟨_, _, main, (operationAt_toOpenapi doc info _ _).trans hmain, .inr ?_⟩
  rw [operations_of_slot hmain]
  exact List.mem_map_of_mem hmem

end ServantRs.OpenApi
