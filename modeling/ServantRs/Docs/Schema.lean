import ServantRs.Core.HttpData
import ServantRs.Docs.Json

/-!
# Docs — schemas of types

A type describes itself by a schema: the scalars by their kind, the collections by the schema of
their items, a structure by those of its fields.  In a structure a field that is spelled `Option` has
the schema of what it may hold, and is not required; everywhere else an `Option` is nullable.
-/

namespace ServantRs.Docs

/-- The types that have a schema.  A structure's fields have different names. -/
inductive SchemaType where
  | int (t : IntType)
  /-- `f32` and `f64` -/
  | float
  | bool
  /-- `String` and `&str` -/
  | string
  | noContent
  | option (inner : SchemaType)
  | vec (item : SchemaType)
  | array (item : SchemaType) (length : Nat)
  /-- Another name for a type. -/
  | named (type : SchemaType)
  | struct (n : Nat) (name : Fin n → String) (distinct : Function.Injective name)
      (type : Fin n → SchemaType)

namespace SchemaType

/-- `Option<T>` gives `T`, by its spelling. -/
def optionInner : SchemaType → Option SchemaType
  | option inner => some inner
  | _            => none

/-- `nullable` put into a schema. -/
def nullable : Value → Value
  | .object m => .object (SortedMap.insert "nullable" (.bool true) m)
  | schema    => obj [("nullable", .bool true), ("allOf", .array [schema])]

/-- The names of the fields that are not spelled `Option`. -/
def required {n : Nat} (name : Fin n → String) (type : Fin n → SchemaType) : List Value :=
  ((List.finRange n).filter fun i => (type i).optionInner.isNone).map fun i => .string (name i)

/-- The schema of a type, or that of a field of the type. -/
def schemaAs : (field : Bool) → SchemaType → Value
  | _, int _             => obj [("type", .string "integer")]
  | _, float             => obj [("type", .string "number")]
  | _, bool              => obj [("type", .string "boolean")]
  | _, string            => obj [("type", .string "string")]
  | _, noContent         => obj []
  | true, option inner   => inner.schemaAs false
  | false, option inner  => nullable (inner.schemaAs false)
  | _, vec item          => obj [("type", .string "array"), ("items", item.schemaAs false)]
  | _, array item length =>
    obj [("type", .string "array"), ("items", item.schemaAs false),
      ("minItems", .number length.repr), ("maxItems", .number length.repr)]
  | _, named type        => type.schemaAs false
  | _, struct n name _ type =>
    obj [("type", .string "object"),
      ("properties", obj ((List.finRange n).map fun i => (name i, (type i).schemaAs true))),
      ("required", .array (required name type))]

/-- `ToSchema::schema` -/
def schema (type : SchemaType) : Value := type.schemaAs false

end SchemaType

end ServantRs.Docs
