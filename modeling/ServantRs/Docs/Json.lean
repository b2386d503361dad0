import ServantRs.Docs.Model
import ServantRs.Support.SortedMap
import Mathlib.Data.String.Basic

/-!
# Docs — JSON values

Equality of JSON values is decidable.  An object written by the program is a map: its members are
sorted by name (`SortedMap`), each name once.

* `get_insertSome`: a member that is written only when there is one.
-/

namespace ServantRs.Docs

/-! ### Equality -/

mutual

def Value.beq : Value → Value → Bool
  | .null, .null         => true
  | .bool a, .bool b     => a == b
  | .number a, .number b => a == b
  | .string a, .string b => a == b
  | .array l, .array m   => beqItems l m
  | .object l, .object m => beqMembers l m
  | _, _                 => false

def beqItems : List Value → List Value → Bool
  | [], []         => true
  | a :: l, b :: m => a.beq b && beqItems l m
  | _, _           => false

def beqMembers : List (String × Value) → List (String × Value) → Bool
  | [], []                   => true
  | (k, a) :: l, (j, b) :: m => k == j && a.beq b && beqMembers l m
  | _, _                     => false

end

mutual

theorem Value.beq_iff : ∀ a b : Value, a.beq b = true ↔ a = b
  | .null, b | .bool _, b | .number _, b | .string _, b => by cases b <;> simp [Value.beq]
  | .array l, b => by
      cases b with
      | array m => simp only [Value.beq, Value.array.injEq, beqItems_iff l m]
      | _ => simp [Value.beq]
  | .object l, b => by
      cases b with
      | object m => simp only [Value.beq, Value.object.injEq, beqMembers_iff l m]
      | _ => simp [Value.beq]

theorem beqItems_iff : ∀ l m : List Value, beqItems l m = true ↔ l = m
  | [], m => by cases m <;> simp [beqItems]
  | a :: l, m => by
      cases m with
      | nil => simp [beqItems]
      | cons b m => simp [beqItems, Value.beq_iff a b, beqItems_iff l m]

theorem beqMembers_iff : ∀ l m : List (String × Value), beqMembers l m = true ↔ l = m
  | [], m => by cases m <;> simp [beqMembers]
  | (k, a) :: l, m => by
      cases m with
      | nil => simp [beqMembers]
      | cons p m => simp [beqMembers, Prod.ext_iff, Value.beq_iff a p.2, beqMembers_iff l m]

end

instance : DecidableEq Value := fun a b => decidable_of_iff _ (Value.beq_iff a b)

/-! ### Members -/

/-- The members of an object. -/
abbrev Members := List (String × Value)

namespace Value

def members : Value → Members
  | object m => m
  | _        => []

def items : Value → List Value
  | array l => l
  | _       => []

/-- The member `k` of an object. -/
def get (k : String) (v : Value) : Option Value := SortedMap.get k v.members

@[simp] theorem get_object (k : String) (m : Members) : (object m).get k = SortedMap.get k m := rfl

end Value

/-- `json!({ .. })`: the members put in one by one. -/
def obj (members : Members) : Value :=
  .object (members.foldl (fun m p => SortedMap.insert p.1 p.2 m) [])

theorem mem_of_mem_obj {members : Members} {p : String × Value}
    (h : p ∈ (obj members).members) : p ∈ members := by
  induction members using List.reverseRecOn with
  | nil => cases h
  | append_singleton members q ih =>
      have hsnoc : (obj (members ++ [q])).members
          = SortedMap.insert q.1 q.2 (obj members).members := List.foldl_append
      rw [hsnoc] at h
      rcases SortedMap.mem_insert h with rfl | h
      · exact List.mem_append_right _ (List.mem_singleton_self _)
      · exact List.mem_append_left _ (ih h)

/-- `v` at `k`, if there is one. -/
def insertSome (k : String) (v : Option Value) (m : Members) : Members :=
  match v with
  | some v => SortedMap.insert k v m
  | none   => m

theorem get_insertSome (k j : String) (v : Option Value) (m : Members) :
    SortedMap.get j (insertSome k v m)
      = if j = k then v.or (SortedMap.get j m) else SortedMap.get j m := by
  cases v with
  | none => simp [insertSome]
  | some v => simp [insertSome, SortedMap.get_insert]

end ServantRs.Docs
