import Mathlib.Order.Lattice
import Mathlib.Data.List.Basic

/-!
# Support — association lists sorted by key

An ordered map is kept as the list of its entries, keys strictly increasing.  `get`, `remove`
and `insert` walk the list; on a sorted list they are the operations of an ordered map, and
`Sorted` is kept by each of them.

`mergeWith f m₁ m₂` puts every entry of `m₂` into `m₁`, joining two values at one key by `f`.
Over a sorted `m₂` it is the pointwise merge (`get_mergeWith`).

`upsert k f m` computes the value at `k` anew from the one there.  Elements put in so one by one are
grouped: at a key stands what comes of the elements of that key, in order (`get_foldl_upsert`).

Nothing here names the repository: the keys are any linear order, the values any type.
-/

namespace ServantRs.SortedMap

universe u v
variable {κ : Type u} {ν : Type v} [LinearOrder κ]

/-- The value at `k`. -/
def get (k : κ) : List (κ × ν) → Option ν
  | [] => none
  | (k', v) :: m => if k = k' then some v else get k m

/-- The entries without the one at `k`. -/
def remove (k : κ) : List (κ × ν) → List (κ × ν)
  | [] => []
  | (k', v) :: m => if k = k' then m else (k', v) :: remove k m

/-- `v` at `k`, in key order, in place of what was there. -/
def insert (k : κ) (v : ν) : List (κ × ν) → List (κ × ν)
  | [] => [(k, v)]
  | (k', v') :: m =>
    if k < k' then (k, v) :: (k', v') :: m
    else if k = k' then (k, v) :: m
    else (k', v') :: insert k v m

/-- Keys strictly increasing. -/
def Sorted (m : List (κ × ν)) : Prop := m.Pairwise fun p q => p.1 < q.1

instance (m : List (κ × ν)) : Decidable (Sorted m) :=
  inferInstanceAs (Decidable (m.Pairwise fun p q => p.1 < q.1))

/-! ### Reading after writing -/

theorem get_insert (k k' : κ) (v : ν) :
    ∀ m : List (κ × ν), get k' (insert k v m) = if k' = k then some v else get k' m
  | [] => by simp [insert, get]
  | (j, w) :: m => by
      have ih := get_insert k k' v m
      by_cases hlt : k < j
      · simp [insert, hlt, get]
      by_cases he : k = j
      · subst he
        by_cases h : k' = k <;> simp [insert, get, h]
      · simp only [insert, if_neg hlt, if_neg he, get, ih]
        by_cases h : k' = j
        · subst h; simp [Ne.symm he]
        · simp [h]

/-- What is written last counts. -/
theorem insert_insert (k : κ) (v w : ν) :
    ∀ m : List (κ × ν), insert k w (insert k v m) = insert k w m
  | [] => by simp [insert]
  | (j, u) :: m => by
      by_cases hlt : k < j
      · simp [insert, hlt]
      by_cases he : k = j
      · simp [insert, he]
      · simp [insert, hlt, he, insert_insert k v w m]

theorem get_remove_of_ne {k k' : κ} (h : k' ≠ k) :
    ∀ m : List (κ × ν), get k' (remove k m) = get k' m
  | [] => rfl
  | (j, w) :: m => by
      have ih := get_remove_of_ne h m
      by_cases he : k = j
      · subst he; simp [remove, get, h]
      · by_cases hj : k' = j <;> simp [remove, he, get, hj, ih]

/-! ### Membership -/

theorem mem_of_get {k : κ} {v : ν} : ∀ {m : List (κ × ν)}, get k m = some v → (k, v) ∈ m
  | (j, w) :: m, h => by
      by_cases he : k = j
      · obtain rfl : w = v := by simpa [get, he] using h
        exact he ▸ List.mem_cons_self
      · rw [get, if_neg he] at h
        exact List.mem_cons_of_mem _ (mem_of_get h)

theorem mem_remove {k : κ} {p : κ × ν} : ∀ {m : List (κ × ν)}, p ∈ remove k m → p ∈ m
  | (j, w) :: m, h => by
      by_cases he : k = j
      · rw [remove, if_pos he] at h
        exact List.mem_cons_of_mem _ h
      · rw [remove, if_neg he] at h
        rcases List.mem_cons.mp h with rfl | h
        · exact List.mem_cons_self
        · exact List.mem_cons_of_mem _ (mem_remove h)

theorem mem_insert {k : κ} {v : ν} {p : κ × ν} :
    ∀ {m : List (κ × ν)}, p ∈ insert k v m → p = (k, v) ∨ p ∈ m
  | [], h => .inl (List.mem_singleton.mp h)
  | (j, w) :: m, h => by
      by_cases hlt : k < j
      · rw [insert, if_pos hlt] at h
        exact List.mem_cons.mp h
      by_cases he : k = j
      · rw [insert, if_neg hlt, if_pos he] at h
        exact (List.mem_cons.mp h).imp_right (List.mem_cons_of_mem _)
      · rw [insert, if_neg hlt, if_neg he] at h
        rcases List.mem_cons.mp h with rfl | h
        · exact .inr List.mem_cons_self
        · exact (mem_insert h).imp_right (List.mem_cons_of_mem _)

theorem isSome_get_iff {k : κ} : ∀ {m : List (κ × ν)}, (get k m).isSome ↔ k ∈ m.map Prod.fst
  | [] => by simp [get]
  | (j, w) :: m => by
      by_cases he : k = j
      · simp [get, he]
      · rw [get, if_neg he, isSome_get_iff, List.map_cons, List.mem_cons]
        exact (or_iff_right he).symm

/-! ### Sortedness is kept -/

theorem Sorted.remove {m : List (κ × ν)} (h : Sorted m) (k : κ) :
    Sorted (SortedMap.remove k m) := by
  induction m with
  | nil => exact h
  | cons p m ih =>
      obtain ⟨hp, hm⟩ := List.pairwise_cons.mp h
      by_cases he : k = p.1
      · rw [SortedMap.remove, if_pos he]; exact hm
      · rw [SortedMap.remove, if_neg he]
        exact List.pairwise_cons.mpr ⟨fun q hq => hp q (mem_remove hq), ih hm⟩

theorem Sorted.insert {m : List (κ × ν)} (h : Sorted m) (k : κ) (v : ν) :
    Sorted (SortedMap.insert k v m) := by
  induction m with
  | nil => exact List.pairwise_singleton _ _
  | cons p m ih =>
      obtain ⟨hp, hm⟩ := List.pairwise_cons.mp h
      by_cases hlt : k < p.1
      · rw [SortedMap.insert, if_pos hlt]
        refine List.pairwise_cons.mpr ⟨fun q hq => ?_, h⟩
        rcases List.mem_cons.mp hq with rfl | hq
        · exact hlt
        · exact hlt.trans (hp q hq)
      by_cases he : k = p.1
      · rw [SortedMap.insert, if_neg hlt, if_pos he]
        exact List.pairwise_cons.mpr ⟨fun q hq => he ▸ hp q hq, hm⟩
      · rw [SortedMap.insert, if_neg hlt, if_neg he]
        refine List.pairwise_cons.mpr ⟨fun q hq => ?_, ih hm⟩
        rcases mem_insert hq with rfl | hq
        · exact lt_of_le_of_ne (not_lt.mp hlt) (Ne.symm he)
        · exact hp q hq

/-- In a sorted list every entry is the one found at its key. -/
theorem get_of_mem {k : κ} {v : ν} {m : List (κ × ν)} (h : Sorted m) (hmem : (k, v) ∈ m) :
    get k m = some v := by
  induction m with
  | nil => cases hmem
  | cons p m ih =>
      obtain ⟨hp, hm⟩ := List.pairwise_cons.mp h
      rcases List.mem_cons.mp hmem with rfl | hmem
      · exact if_pos rfl
      · rw [get, if_neg (hp _ hmem).ne', ih hm hmem]

/-! ### Grouping -/

section Grouping

universe w
variable {α : Type w}

/-- The value at `k` computed anew from the one there. -/
def upsert (k : κ) (f : Option ν → ν) (m : List (κ × ν)) : List (κ × ν) := insert k (f (get k m)) m

variable (key : α → κ) (f : α → Option ν → ν)

/-- **Grouping.**  At a key stands what comes of the elements of that key, in order. -/
theorem get_foldl_upsert (k : κ) (l : List α) (m : List (κ × ν)) :
    get k (l.foldl (fun m a => upsert (key a) (f a) m) m)
      = (l.filter fun a => decide (key a = k)).foldl (fun o a => some (f a o)) (get k m) := by
  induction l generalizing m with
  | nil => rfl
  | cons a l ih =>
      rw [List.foldl_cons, ih, upsert, get_insert]
      by_cases hk : key a = k
      · rw [if_pos hk.symm, List.filter_cons_of_pos (by simpa using hk), List.foldl_cons, hk]
      · rw [if_neg (Ne.symm hk), List.filter_cons_of_neg (by simpa using hk)]

theorem Sorted.foldl_upsert {m : List (κ × ν)} (h : Sorted m) (l : List α) :
    Sorted (l.foldl (fun m a => upsert (key a) (f a) m) m) := by
  induction l generalizing m with
  | nil => exact h
  | cons a l ih => exact ih (h.insert _ _)

end Grouping

/-! ### Merging -/

/-- Every entry of the second list put into the first, in order. -/
def mergeWith (f : ν → ν → ν) (m₁ : List (κ × ν)) : List (κ × ν) → List (κ × ν)
  | [] => m₁
  | (k, w) :: m₂ =>
    match get k m₁ with
    | some v => mergeWith f (insert k (f v w) (remove k m₁)) m₂
    | none => mergeWith f (insert k w m₁) m₂

theorem Sorted.mergeWith {f : ν → ν → ν} {m₁ : List (κ × ν)} (h : Sorted m₁) :
    ∀ m₂ : List (κ × ν), Sorted (SortedMap.mergeWith f m₁ m₂) := by
  intro m₂
  induction m₂ generalizing m₁ with
  | nil => exact h
  | cons p m₂ ih =>
      rw [SortedMap.mergeWith]
      split
      · exact ih ((h.remove _).insert _ _)
      · exact ih (h.insert _ _)

theorem get_eq_none_of_lt {k : κ} : ∀ {m : List (κ × ν)}, (∀ p ∈ m, k < p.1) → get k m = none
  | [], _ => rfl
  | (j, w) :: m, h => by
      have hj : k < j := h (j, w) List.mem_cons_self
      rw [get, if_neg hj.ne]
      exact get_eq_none_of_lt fun p hp => h p (List.mem_cons_of_mem _ hp)

/-- **The merge, read at a key.**  A key of both maps holds the joined values, a key of one
holds that map's value. -/
theorem get_mergeWith {f : ν → ν → ν} (k : κ) {m₂ : List (κ × ν)} (h : Sorted m₂)
    (m₁ : List (κ × ν)) :
    get k (mergeWith f m₁ m₂) =
      match get k m₁, get k m₂ with
      | some v, some w => some (f v w)
      | some v, none => some v
      | none, o => o := by
  induction m₂ generalizing m₁ with
  | nil => rw [mergeWith, get]; cases get k m₁ <;> rfl
  | cons p m₂ ih =>
      obtain ⟨j, w⟩ := p
      obtain ⟨hj, hm⟩ := List.pairwise_cons.mp h
      by_cases he : k = j
      · subst he
        have hk : get k m₂ = none := get_eq_none_of_lt fun p hp => hj p hp
        cases h₁ : get k m₁ <;> simp [mergeWith, h₁, ih hm, get_insert, get, hk]
      · cases h₁ : get j m₁ <;>
          simp [mergeWith, h₁, ih hm, get_insert, get_remove_of_ne he, get, he]

end ServantRs.SortedMap
