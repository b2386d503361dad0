import ServantRs.Docs.Schema

/-!
# OpenAPI — what schemas accept

A schema accepts a JSON value when each of its keywords does (`Accepts`).  The schema of a type
accepts what the type describes, and nothing else (`schema_accepts_iff`).
-/

namespace ServantRs.OpenApi

open Docs

/-! ### Acceptance -/

/-- The literal has no fraction and no exponent. -/
def IsInteger (literal : String) : Prop := ∀ c ∈ literal.toList, c ≠ '.' ∧ c ≠ 'e' ∧ c ≠ 'E'

/-- The values of a `type`. -/
def HasType (type : String) : Value → Prop
  | .null           => False
  | .bool _         => type = "boolean"
  | .number literal => type = "number" ∨ type = "integer" ∧ IsInteger literal
  | .string _       => type = "string"
  | .array _        => type = "array"
  | .object _       => type = "object"

/-- The number of items a literal stands for. -/
def itemBound (literal : String) : Nat := Nat.ofDigitChars 10 literal.toList 0

theorem itemBound_repr (n : Nat) : itemBound n.repr = n := by
  rw [itemBound, Nat.toList_repr, Nat.ofDigitChars_ten_toDigits]

/-- `nullable` adds `null` to the values of a schema's `type`. -/
def IsNullable (keywords : Members) : Prop := SortedMap.get "nullable" keywords = some (.bool true)

mutual

/-- A schema accepts a value. -/
def Accepts : Value → Value → Prop
  | .object keywords, j => AcceptsAll (IsNullable keywords) keywords j
  | _, _                => False

def AcceptsAll (nullable : Prop) : Members → Value → Prop
  | [], _                 => True
  | (keyword, v) :: rest, j => AcceptsKeyword nullable keyword v j ∧ AcceptsAll nullable rest j

/-- A keyword that says nothing of such a value accepts it. -/
def AcceptsKeyword (nullable : Prop) (keyword : String) : Value → Value → Prop
  | .string type, j => keyword = "type" → HasType type j ∨ nullable ∧ j = .null
  | .object m, j =>
    (keyword = "items" → ∀ x ∈ j.items, AcceptsAll (IsNullable m) m x) ∧
      (keyword = "properties" → AcceptsProperties m j)
  | .number literal, j => ∀ l, j = .array l →
    (keyword = "minItems" → itemBound literal ≤ l.length) ∧
      (keyword = "maxItems" → l.length ≤ itemBound literal)
  | .array l, j =>
    (keyword = "required" → ∀ m, j = .object m → ∀ name, .string name ∈ l →
      (SortedMap.get name m).isSome) ∧ (keyword = "allOf" → AcceptsAllOf l j)
  | .null, _ | .bool _, _ => True

def AcceptsProperties : Members → Value → Prop
  | [], _ => True
  | (name, schema) :: rest, j =>
    (∀ x, j.get name = some x → Accepts schema x) ∧ AcceptsProperties rest j

def AcceptsAllOf : List Value → Value → Prop
  | [], _             => True
  | schema :: rest, j => Accepts schema j ∧ AcceptsAllOf rest j

end

theorem acceptsAll_iff {nullable : Prop} {j : Value} : ∀ {keywords : Members},
    AcceptsAll nullable keywords j ↔ ∀ p ∈ keywords, AcceptsKeyword nullable p.1 p.2 j
  | [] => by simp [AcceptsAll]
  | (keyword, v) :: rest => by simp [AcceptsAll, @acceptsAll_iff nullable j rest]

theorem acceptsProperties_iff {j : Value} : ∀ {properties : Members},
    AcceptsProperties properties j ↔
      ∀ p ∈ properties, ∀ x, j.get p.1 = some x → Accepts p.2 x
  | [] => by simp [AcceptsProperties]
  | (name, schema) :: rest => by
      simp [AcceptsProperties, @acceptsProperties_iff j rest]

/-! ### Keywords -/

section

variable {nullable nullable' : Prop} {j : Value} {keyword : String} {v : Value}

theorem acceptsKeyword_type {type : String} :
    AcceptsKeyword nullable "type" (.string type) j ↔ HasType type j ∨ nullable ∧ j = .null := by
  simp [AcceptsKeyword]

theorem acceptsKeyword_items {m : Members} :
    AcceptsKeyword nullable "items" (.object m) j ↔ ∀ x ∈ j.items, Accepts (.object m) x := by
  simp [AcceptsKeyword, Accepts]

theorem acceptsKeyword_properties {m : Members} :
    AcceptsKeyword nullable "properties" (.object m) j ↔
      ∀ p ∈ m, ∀ x, j.get p.1 = some x → Accepts p.2 x := by
  simp [AcceptsKeyword, acceptsProperties_iff]

theorem acceptsKeyword_minItems {n : Nat} {l : List Value} :
    AcceptsKeyword nullable "minItems" (.number n.repr) (.array l) ↔ n ≤ l.length := by
  simp [AcceptsKeyword, itemBound_repr]

theorem acceptsKeyword_maxItems {n : Nat} {l : List Value} :
    AcceptsKeyword nullable "maxItems" (.number n.repr) (.array l) ↔ l.length ≤ n := by
  simp [AcceptsKeyword, itemBound_repr]

theorem acceptsKeyword_required {l : List Value} {m : Members} :
    AcceptsKeyword nullable "required" (.array l) (.object m) ↔
      ∀ name, .string name ∈ l → (SortedMap.get name m).isSome := by
  simp [AcceptsKeyword]

theorem acceptsKeyword_nullable : AcceptsKeyword nullable "nullable" v j := by
  cases v <;> simp [AcceptsKeyword]

/-- `null` is of a nullable `type`, and the other keywords say nothing of it. -/
theorem acceptsKeyword_null (h : keyword ≠ "allOf") : AcceptsKeyword True keyword v .null := by
  cases v <;> simp [AcceptsKeyword, acceptsProperties_iff, Value.items, Value.get, Value.members,
    SortedMap.get, h]

/-- `nullable` is about `null`. -/
theorem acceptsKeyword_congr (h : j ≠ .null) :
    AcceptsKeyword nullable keyword v j ↔ AcceptsKeyword nullable' keyword v j := by
  cases v <;> simp [AcceptsKeyword, h]

end

/-! ### Written schemas -/

theorem members_obj_concat (members : Members) (p : String × Value) :
    (obj (members ++ [p])).members = SortedMap.insert p.1 p.2 (obj members).members :=
  List.foldl_append

theorem sorted_obj (members : Members) : SortedMap.Sorted (obj members).members := by
  induction members using List.reverseRecOn with
  | nil => exact List.Pairwise.nil
  | append_singleton members p ih =>
      rw [members_obj_concat]
      exact ih.insert p.1 p.2

/-- In a sorted object a member is what is found at its name. -/
theorem mem_iff_get {m : Members} (h : SortedMap.Sorted m) {p : String × Value} :
    p ∈ m ↔ SortedMap.get p.1 m = some p.2 :=
  ⟨SortedMap.get_of_mem h, SortedMap.mem_of_get⟩

theorem mem_obj {members : Members} (h : (members.map Prod.fst).Nodup) {p : String × Value} :
    p ∈ (obj members).members ↔ p ∈ members := by
  induction members using List.reverseRecOn with
  | nil => simp [obj, Value.members]
  | append_singleton members q ih =>
      rw [List.map_append, List.map_singleton, List.nodup_append] at h
      obtain ⟨hnodup, -, hq⟩ := h
      rw [mem_iff_get (sorted_obj _), members_obj_concat, SortedMap.get_insert, List.mem_append,
        List.mem_singleton, ← ih hnodup, mem_iff_get (sorted_obj _)]
      by_cases hp : p.1 = q.1
      · have hnone : SortedMap.get p.1 (obj members).members ≠ some p.2 := by
          intro hget
          have hmem := (ih hnodup).mp ((mem_iff_get (sorted_obj _)).mpr hget)
          exact hq _ (List.mem_map_of_mem hmem) _ (List.mem_singleton_self _) hp
        rw [if_pos hp]
        constructor
        · intro h
          exact .inr (Prod.ext hp (Option.some.inj h).symm)
        · rintro (h | rfl)
          · exact absurd h hnone
          · rfl
      · have hne : p ≠ q := by
          rintro rfl
          exact hp rfl
        simp [hp, hne]

/-- A schema written member by member accepts what each member accepts. -/
theorem accepts_obj {members : Members} {j : Value} (h : (members.map Prod.fst).Nodup)
    (hnullable : "nullable" ∉ members.map Prod.fst) :
    Accepts (obj members) j ↔ ∀ p ∈ members, AcceptsKeyword False p.1 p.2 j := by
  have hnot : IsNullable (obj members).members ↔ False := by
    refine iff_false_intro fun hget => hnullable ?_
    have hmem := (mem_obj h).mp (SortedMap.mem_of_get hget)
    exact List.mem_map_of_mem hmem
  have hall : Accepts (.object (obj members).members) j ↔
      ∀ p ∈ (obj members).members, AcceptsKeyword False p.1 p.2 j := by
    rw [Accepts, acceptsAll_iff, propext hnot]
  simp only [mem_obj h] at hall
  exact hall

/-- An object in order, which asks for no other schemas. -/
structure Plain (schema : Value) : Prop where
  object : schema = .object schema.members
  sorted : SortedMap.Sorted schema.members
  allOf : "allOf" ∉ schema.members.map Prod.fst

theorem plain_obj {members : Members} (h : "allOf" ∉ members.map Prod.fst) :
    Plain (obj members) := by
  refine ⟨rfl, sorted_obj _, fun hmem => h ?_⟩
  obtain ⟨p, hp, heq⟩ := List.mem_map.mp hmem
  exact List.mem_map.mpr ⟨p, mem_of_mem_obj hp, heq⟩

theorem plain_nullable {schema : Value} (h : Plain schema) :
    Plain (SchemaType.nullable schema) := by
  obtain ⟨hobject, hsorted, hallOf⟩ := h
  rw [hobject, SchemaType.nullable]
  refine ⟨rfl, hsorted.insert _ _, fun hmem => ?_⟩
  obtain ⟨p, hp, heq⟩ := List.mem_map.mp hmem
  rcases SortedMap.mem_insert hp with rfl | hp
  · simp at heq
  · exact hallOf (List.mem_map.mpr ⟨p, hp, heq⟩)

/-- A nullable schema accepts `null` besides. -/
theorem accepts_nullable {schema j : Value} (h : Plain schema) :
    Accepts (SchemaType.nullable schema) j ↔ j = .null ∨ Accepts schema j := by
  obtain ⟨hobject, hsorted, hallOf⟩ := h
  rw [hobject, SchemaType.nullable, Accepts, Accepts, acceptsAll_iff, acceptsAll_iff]
  have hnullable : IsNullable (SortedMap.insert "nullable" (.bool true) schema.members) ↔ True :=
    iff_true_intro (by rw [IsNullable, SortedMap.get_insert, if_pos rfl])
  rw [propext hnullable]
  by_cases hj : j = .null
  · subst hj
    refine iff_of_true (fun p hp => acceptsKeyword_null ?_) (.inl rfl)
    rcases SortedMap.mem_insert hp with rfl | hp
    · simp
    · rintro heq
      exact hallOf (heq ▸ List.mem_map_of_mem hp)
  · rw [or_iff_right hj]
    constructor
    · intro h p hp
      by_cases hkey : p.1 = "nullable"
      · rw [hkey]
        exact acceptsKeyword_nullable
      · refine (acceptsKeyword_congr hj).mp (h p ?_)
        rw [mem_iff_get (hsorted.insert _ _), SortedMap.get_insert, if_neg hkey]
        exact SortedMap.get_of_mem hsorted hp
    · intro h p hp
      rcases SortedMap.mem_insert hp with rfl | hp
      · exact acceptsKeyword_nullable
      · exact (acceptsKeyword_congr hj).mpr (h p hp)

/-! ### What types describe -/

end ServantRs.OpenApi

namespace ServantRs.Docs.SchemaType

open OpenApi

/-- The values that a type, or a field of the type, describes. -/
def DescribesAs : (field : Bool) → SchemaType → Value → Prop
  | _, int _, j              => ∃ literal, j = .number literal ∧ IsInteger literal
  | _, float, j              => ∃ literal, j = .number literal
  | _, bool, j               => ∃ b, j = .bool b
  | _, string, j             => ∃ s, j = .string s
  | _, noContent, _          => True
  | true, option inner, j    => inner.DescribesAs false j
  | false, option inner, j   => j = .null ∨ inner.DescribesAs false j
  | _, vec item, j           => ∃ l, j = .array l ∧ ∀ x ∈ l, item.DescribesAs false x
  | _, array item length, j  =>
    ∃ l, j = .array l ∧ l.length = length ∧ ∀ x ∈ l, item.DescribesAs false x
  | _, named type, j         => type.DescribesAs false j
  | _, struct _ name _ type, j => ∃ m, j = .object m ∧ ∀ i,
    (∀ x, SortedMap.get (name i) m = some x → (type i).DescribesAs true x) ∧
      ((type i).optionInner = none → (SortedMap.get (name i) m).isSome)

/-- **What a type describes**: an integer is a number without fraction, an array has its length, an
`Option` is `null` or what it may hold; a structure has all its fields, but those spelled `Option`,
which are what they may hold, or missing. -/
def Describes (type : SchemaType) (j : Value) : Prop := type.DescribesAs false j

end ServantRs.Docs.SchemaType

namespace ServantRs.OpenApi

open Docs SchemaType

theorem plain_schemaAs (type : SchemaType) : ∀ field, Plain (type.schemaAs field) := by
  induction type with
  | int | float | bool | string | noContent | vec | array | struct =>
      intro field
      exact plain_obj (by simp)
  | option inner ih =>
      rintro (_ | _)
      · exact plain_nullable (ih false)
      · exact ih false
  | named type ih =>
      intro field
      exact ih false

theorem mem_required {n : Nat} {name : Fin n → String} {type : Fin n → SchemaType} {s : String} :
    .string s ∈ required name type ↔ ∃ i, (type i).optionInner = none ∧ name i = s := by
  simp [required]

/-- The items of an array, each accepted. -/
theorem accepts_items {schema j : Value} {nullable : Prop} (h : Plain schema) :
    AcceptsKeyword nullable "items" schema j ↔ ∀ x ∈ j.items, Accepts schema x := by
  rw [h.object]
  exact acceptsKeyword_items

/-- **The schema of a type accepts what the type describes**, as it does the schema of a field. -/
theorem schemaAs_accepts_iff (type : SchemaType) : ∀ (field : Bool) (j : Value),
    Accepts (type.schemaAs field) j ↔ type.DescribesAs field j := by
  induction type with
  | int | float | bool | string =>
      intro field j
      rw [schemaAs, DescribesAs, accepts_obj (by simp) (by simp)]
      cases j <;> simp [acceptsKeyword_type, HasType]
  | noContent =>
      intro field j
      rw [schemaAs, DescribesAs, accepts_obj (by simp) (by simp)]
      simp
  | option inner ih =>
      rintro (_ | _) j
      · rw [schemaAs, DescribesAs, accepts_nullable (plain_schemaAs inner false), ih]
      · rw [schemaAs, DescribesAs, ih]
  | vec item ih =>
      intro field j
      rw [schemaAs, DescribesAs, accepts_obj (by simp) (by simp)]
      have hitems := @accepts_items _ j False (plain_schemaAs item false)
      cases j <;> simp [acceptsKeyword_type, HasType, hitems, ih, Value.items]
  | array item length ih =>
      intro field j
      rw [schemaAs, DescribesAs, accepts_obj (by simp) (by simp)]
      have hitems := @accepts_items _ j False (plain_schemaAs item false)
      cases j with
      | array l =>
          simp [acceptsKeyword_type, HasType, hitems, ih, Value.items, acceptsKeyword_minItems,
            acceptsKeyword_maxItems]
          constructor
          · rintro ⟨h, hmin, hmax⟩
            exact ⟨Nat.le_antisymm hmax hmin, h⟩
          · rintro ⟨rfl, h⟩
            exact ⟨h, Nat.le_refl _, Nat.le_refl _⟩
      | _ => simp [acceptsKeyword_type, HasType]
  | named type ih =>
      intro field j
      exact ih false j
  | struct n name distinct type ih =>
      intro field j
      rw [schemaAs, DescribesAs, accepts_obj (by simp) (by simp)]
      cases j with
      | object m =>
          have hnodup : (((List.finRange n).map fun i => (name i, (type i).schemaAs true)).map
              Prod.fst).Nodup := by
            rw [List.map_map]
            exact (List.nodup_finRange n).map distinct
          have hproperties : AcceptsKeyword False "properties"
              (obj ((List.finRange n).map fun i => (name i, (type i).schemaAs true))) (.object m) ↔
                ∀ i x, SortedMap.get (name i) m = some x → (type i).DescribesAs true x := by
            refine acceptsKeyword_properties.trans ?_
            constructor
            · intro h i x hx
              refine (ih i true x).mp (h (name i, _) ?_ x hx)
              exact (mem_obj hnodup).mpr (List.mem_map_of_mem (List.mem_finRange i))
            · rintro h p hp x hx
              obtain ⟨i, -, rfl⟩ := List.mem_map.mp ((mem_obj hnodup).mp hp)
              exact (ih i true x).mpr (h i x hx)
          simp [acceptsKeyword_type, HasType, hproperties, acceptsKeyword_required, mem_required,
            forall_and]
      | _ => simp [acceptsKeyword_type, HasType]

/-- **The schema of a type accepts what the type describes, and nothing else.** -/
theorem schema_accepts_iff (type : SchemaType) (j : Value) :
    Accepts type.schema j ↔ type.Describes j :=
  schemaAs_accepts_iff type false j

end ServantRs.OpenApi

/-! ### What is written -/

namespace ServantRs.Docs.SchemaType

/-- The schema of the type has `null`. -/
def TakesNull : SchemaType → Prop
  | option _ | noContent => True
  | named type           => type.TakesNull
  | _                    => False

/-- Somewhere in the value, what is written is not what the schema says: a float is `null`; a field
spelled `Option` is `null`, but what it may hold never is; or a field that is not spelled so is
missing under the name that the schema has for it. -/
def MisfitsAs : (field : Bool) → SchemaType → Value → Prop
  | _, int _, _ | _, bool, _ | _, string, _ | _, noContent, _ => False
  | _, float, j            => j = .null
  | false, option inner, j => j ≠ .null ∧ inner.MisfitsAs false j
  | true, option inner, j  =>
    j = .null ∧ ¬ inner.TakesNull ∨ j ≠ .null ∧ inner.MisfitsAs false j
  | _, vec item, j | _, array item _, j => ∃ x ∈ j.items, item.MisfitsAs false x
  | _, named type, j       => type.MisfitsAs false j
  | _, struct _ name _ type, j => ∃ i,
    (∃ x, j.get (name i) = some x ∧ (type i).MisfitsAs true x) ∨
      (j.get (name i) = none ∧ (type i).optionInner = none)

/-- Fields are written under their names, and none is left out. -/
def WritesPlainly : SchemaType → Value → Prop
  | int t, j        => ∃ v : t.Val, j = .number v.val.repr
  | float, j        => j = .null ∨ ∃ literal, j = .number literal
  | bool, j         => ∃ b, j = .bool b
  | string, j       => ∃ s, j = .string s
  | noContent, _    => False
  | option inner, j => j = .null ∨ inner.WritesPlainly j
  | vec item, j     => ∃ l, j = .array l ∧ ∀ x ∈ l, item.WritesPlainly x
  | array item length, j =>
    ∃ l, j = .array l ∧ l.length = length ∧ ∀ x ∈ l, item.WritesPlainly x
  | named type, j   => type.WritesPlainly j
  | struct _ name _ type, j => ∃ m, j = .object m ∧
    (∀ i, ∃ x, SortedMap.get (name i) m = some x ∧ (type i).WritesPlainly x) ∧
      ∀ s, (SortedMap.get s m).isSome → ∃ i, s = name i

end ServantRs.Docs.SchemaType

namespace ServantRs.OpenApi

open Docs SchemaType

/-- `serde` and `serde_json`: what is written for some value of a type, and the name a field is
written under, which is its own but for the mark of a raw identifier.  Floats that are not finite
are `null`, and so is a `None`; an object has a structure's fields, each under a name of its own,
but for those that are left out. -/
class SerdeCrate where
  Writes : SchemaType → Value → Prop
  fieldName : String → String
  fieldName_fieldName : ∀ s, fieldName (fieldName s) = fieldName s
  writes_int : ∀ {t j}, Writes (.int t) j → ∃ v : t.Val, j = .number v.val.repr
  writes_float : ∀ {j}, Writes .float j → j = .null ∨ ∃ literal, j = .number literal
  writes_bool : ∀ {j}, Writes .bool j → ∃ b, j = .bool b
  writes_string : ∀ {j}, Writes .string j → ∃ s, j = .string s
  writes_noContent : ∀ {j}, ¬ Writes .noContent j
  writes_option : ∀ {inner j}, Writes (.option inner) j → j = .null ∨ Writes inner j
  writes_vec : ∀ {item j}, Writes (.vec item) j → ∃ l, j = .array l ∧ ∀ x ∈ l, Writes item x
  writes_array : ∀ {item length j}, Writes (.array item length) j →
    ∃ l, j = .array l ∧ l.length = length ∧ ∀ x ∈ l, Writes item x
  writes_named : ∀ {type j}, Writes (.named type) j → Writes type j
  writes_struct : ∀ {n name distinct} {type : Fin n → SchemaType} {j},
    Writes (.struct n name distinct type) j → Function.Injective (fun i => fieldName (name i)) ∧
      ∃ m, j = .object m ∧ ∀ s x, SortedMap.get s m = some x →
        ∃ i, s = fieldName (name i) ∧ Writes (type i) x

theorem isInteger_repr (v : Int) : IsInteger v.repr := by
  have hdigit : ∀ n : Nat, ∀ c ∈ Nat.toDigits 10 n, c ≠ '.' ∧ c ≠ 'e' ∧ c ≠ 'E' := by
    intro n c hc
    have hd : c.isDigit = true := Nat.isDigit_of_mem_toDigits (by simp) (by simp) hc
    refine ⟨?_, ?_, ?_⟩ <;> (rintro rfl; cases hd)
  rw [Int.repr_eq_if]
  by_cases h : 0 ≤ v
  · rw [if_pos h, IsInteger, Nat.toList_repr]
    exact hdigit v.toNat
  · have hlist : ("-" ++ (-v).toNat.repr).toList = '-' :: Nat.toDigits 10 (-v).toNat := by
      rw [String.toList_append, Nat.toList_repr]
      rfl
    rw [if_neg h, IsInteger, hlist]
    intro c hc
    rcases List.mem_cons.mp hc with rfl | hc
    · simp
    · exact hdigit _ c hc

theorem describes_null_iff (type : SchemaType) : type.DescribesAs false .null ↔ type.TakesNull := by
  induction type with
  | option inner ih => simp [DescribesAs, TakesNull]
  | named type ih => exact ih
  | _ => simp [DescribesAs, TakesNull]

section

variable [SerdeCrate]

open SerdeCrate

/-- What is written is described, but where it misfits. -/
theorem describesAs_iff_of_writes (type : SchemaType) : ∀ (field : Bool) (j : Value),
    Writes type j → (type.DescribesAs field j ↔ ¬ type.MisfitsAs field j) := by
  induction type with
  | int t =>
      intro field j hj
      obtain ⟨v, rfl⟩ := writes_int hj
      exact iff_of_true ⟨_, rfl, isInteger_repr v.val⟩ id
  | float =>
      intro field j hj
      rcases writes_float hj with rfl | ⟨literal, rfl⟩
      · simp [DescribesAs, MisfitsAs]
      · simp [DescribesAs, MisfitsAs]
  | bool =>
      intro field j hj
      obtain ⟨b, rfl⟩ := writes_bool hj
      simp [DescribesAs, MisfitsAs]
  | string =>
      intro field j hj
      obtain ⟨s, rfl⟩ := writes_string hj
      simp [DescribesAs, MisfitsAs]
  | noContent =>
      intro field j hj
      exact absurd hj writes_noContent
  | option inner ih =>
      intro field j hj
      by_cases hnull : j = .null
      · subst hnull
        cases field with
        | false => simp [DescribesAs, MisfitsAs]
        | true => simp [DescribesAs, MisfitsAs, describes_null_iff]
      · have hinner := ih false j ((writes_option hj).resolve_left hnull)
        cases field <;> simp [DescribesAs, MisfitsAs, hnull, hinner]
  | vec item ih =>
      intro field j hj
      obtain ⟨l, rfl, hl⟩ := writes_vec hj
      have hitems : (∀ x ∈ l, item.DescribesAs false x) ↔ ∀ x ∈ l, ¬ item.MisfitsAs false x :=
        forall₂_congr fun x hx => ih false x (hl x hx)
      simp [DescribesAs, MisfitsAs, Value.items, hitems]
  | array item length ih =>
      intro field j hj
      obtain ⟨l, rfl, hlength, hl⟩ := writes_array hj
      have hitems : (∀ x ∈ l, item.DescribesAs false x) ↔ ∀ x ∈ l, ¬ item.MisfitsAs false x :=
        forall₂_congr fun x hx => ih false x (hl x hx)
      simp [DescribesAs, MisfitsAs, Value.items, hitems, hlength]
  | named type ih =>
      intro field j hj
      exact ih false j (writes_named hj)
  | struct n name distinct type ih =>
      intro field j hj
      obtain ⟨hinj, m, rfl, hm⟩ := writes_struct hj
      -- what stands under the schema's name of a field is the field's
      have hown : ∀ i x, SortedMap.get (name i) m = some x → Writes (type i) x := by
        intro i x hx
        obtain ⟨k, hk, hwrites⟩ := hm _ _ hx
        have hsame : fieldName (name i) = fieldName (name k) := by rw [hk, fieldName_fieldName]
        rwa [hinj hsame]
      have hfield : ∀ i, ((∀ x, SortedMap.get (name i) m = some x → (type i).DescribesAs true x) ∧
          ((type i).optionInner = none → (SortedMap.get (name i) m).isSome)) ↔
            ¬ ((∃ x, SortedMap.get (name i) m = some x ∧ (type i).MisfitsAs true x) ∨
              (SortedMap.get (name i) m = none ∧ (type i).optionInner = none)) := by
        intro i
        cases hget : SortedMap.get (name i) m with
        | none => simp
        | some x => simp [ih i true x (hown i x hget)]
      simp only [DescribesAs, MisfitsAs, Value.object.injEq, exists_eq_left', hfield,
        Value.get_object, not_exists]

/-- **What is written is accepted, but where it misfits**: where a float is not finite, where a `None`
in a field spelled `Option` is written as `null`, though what the field may hold never is, or where a
field not spelled so is missing under the schema's name, as it is left out or written under another
one. -/
theorem written_accepted_iff {type : SchemaType} {j : Value} (h : Writes type j) :
    Accepts type.schema j ↔ ¬ type.MisfitsAs false j :=
  (schemaAs_accepts_iff type false j).trans (describesAs_iff_of_writes type false j h)

end

/-! ### A user with a nickname -/

/-- Fields that are no raw identifiers, and none left out. -/
@[reducible] def SerdeCrate.reference : SerdeCrate where
  Writes := WritesPlainly
  fieldName s := s
  fieldName_fieldName _ := rfl
  writes_int h := h
  writes_float h := h
  writes_bool h := h
  writes_string h := h
  writes_noContent h := h
  writes_option h := h
  writes_vec h := h
  writes_array h := h
  writes_named h := h
  writes_struct {_ _ distinct _ _} h := by
    obtain ⟨m, rfl, hm, hkeys⟩ := h
    refine ⟨distinct, m, rfl, fun s x hx => ?_⟩
    obtain ⟨i, rfl⟩ := hkeys s (Option.isSome_iff_exists.mpr ⟨x, hx⟩)
    obtain ⟨y, hy, hwrites⟩ := hm i
    rw [hx] at hy
    obtain rfl := Option.some.inj hy
    exact ⟨i, rfl, hwrites⟩

def userNames (i : Fin 2) : String := if i = 0 then "id" else "nickname"

theorem userNames_injective : Function.Injective userNames := by
  have h : ∀ i j, userNames i = userNames j → i = j := by
    simp [Fin.forall_fin_two, userNames]
  intro i j
  exact h i j

/-- `struct User { id: u64, nickname: Option<String> }` -/
def userType : SchemaType :=
  .struct 2 userNames userNames_injective fun i => if i = 0 then .int .u64 else .option .string

def user (nickname : Value) : Value := .object [("id", .number "7"), ("nickname", nickname)]

theorem writes_user {nickname : Value} (h : (SchemaType.option .string).WritesPlainly nickname) :
    userType.WritesPlainly (user nickname) := by
  refine ⟨_, rfl, Fin.forall_fin_two.mpr ⟨⟨.number "7", rfl, ⟨⟨7, by decide⟩, rfl⟩⟩,
    ⟨nickname, rfl, h⟩⟩, fun s hs => ?_⟩
  have hkey : s = "id" ∨ s = "nickname" := by
    by_contra hne
    rw [not_or] at hne
    simp [SortedMap.get, hne.1, hne.2] at hs
  rcases hkey with rfl | rfl
  · exact ⟨0, rfl⟩
  · exact ⟨1, rfl⟩

section

attribute [local instance] SerdeCrate.reference

/-- A nickname that is `null` is not accepted. -/
theorem written_accepted_iff_user : ¬ Accepts userType.schema (user .null) := by
  have hwrites : SerdeCrate.Writes userType (user .null) := writes_user (.inl rfl)
  rw [written_accepted_iff hwrites, not_not]
  have hfield : ∃ x, (user .null).get "nickname" = some x ∧
      (SchemaType.option .string).MisfitsAs true x := ⟨.null, rfl, .inl ⟨rfl, id⟩⟩
  exact Exists.intro 1 (.inl hfield)

end

end ServantRs.OpenApi
