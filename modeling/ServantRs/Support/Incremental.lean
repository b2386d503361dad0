import Mathlib.Data.List.Basic

/-!
# Support — decoding a buffer as it fills

A `Decoder` looks at the front of a buffer: it finds an item and what is left of the buffer, or
that the buffer can never be decoded, or that more must come first.  `drain` takes items until it
stops; `feed` does so each time another chunk has come.

A decoder is *stable* up to a length when what it finds in a buffer it finds in every longer one
of that length at most.  Then the chunks do not matter: `feed_eq_drain`.
-/

namespace ServantRs

universe u v w

/-- What a decoder finds at the front of a buffer. -/
inductive Found (α : Type u) (β : Type v) (ε : Type w) where
  | more
  | item (b : β) (rest : List α)
  | fail (e : ε)

/-- A decoder, which uses some of the buffer up with each item. -/
structure Decoder (α : Type u) (β : Type v) (ε : Type w) where
  next : List α → Found α β ε
  shrinks : ∀ {xs b rest}, next xs = .item b rest → rest.length < xs.length

namespace Decoder

variable {α : Type u} {β : Type v} {ε : Type w} (d : Decoder α β ε)

/-- The items at the front of a buffer, and what is left, or why there is an end of it. -/
def drain (xs : List α) : List β × Except ε (List α) :=
  match _h : d.next xs with
  | .more        => ([], .ok xs)
  | .item b rest => (b :: (drain rest).1, (drain rest).2)
  | .fail e      => ([], .error e)
termination_by xs.length
decreasing_by all_goals exact d.shrinks _h

/-- Decoding goes on where it stopped, with more behind. -/
def resume : List β × Except ε (List α) → List α → List β × Except ε (List α)
  | (bs, .ok rest), ys => (bs ++ (d.drain (rest ++ ys)).1, (d.drain (rest ++ ys)).2)
  | (bs, .error e), _  => (bs, .error e)

/-- The items of a buffer and of the chunks that come after it, decoded as they come. -/
def feed : List (List α) → List α → List β × Except ε (List α)
  | [], xs => d.drain xs
  | chunk :: chunks, xs =>
    match d.drain xs with
    | (bs, .ok rest) => (bs ++ (feed chunks (rest ++ chunk)).1, (feed chunks (rest ++ chunk)).2)
    | (bs, .error e) => (bs, .error e)

/-- What is found in a buffer is found in every longer one, up to a length. -/
structure Stable (N : ℕ) : Prop where
  item_append : ∀ {xs ys b rest}, (xs ++ ys).length ≤ N → d.next xs = .item b rest →
    d.next (xs ++ ys) = .item b (rest ++ ys)
  fail_append : ∀ {xs ys e}, (xs ++ ys).length ≤ N → d.next xs = .fail e →
    d.next (xs ++ ys) = .fail e

variable {d} {N : ℕ} {xs ys rest : List α}

theorem drain_of_more (h : d.next xs = .more) : d.drain xs = ([], .ok xs) := by
  rw [drain]
  split
  · rfl
  · next h' => rw [h] at h'; cases h'
  · next h' => rw [h] at h'; cases h'

theorem drain_of_fail {e : ε} (h : d.next xs = .fail e) : d.drain xs = ([], .error e) := by
  rw [drain]
  split
  · next h' => rw [h] at h'; cases h'
  · next h' => rw [h] at h'; cases h'
  · next h' =>
      rw [h] at h'
      cases h'
      rfl

theorem drain_of_item {b : β} (h : d.next xs = .item b rest) :
    d.drain xs = (b :: (d.drain rest).1, (d.drain rest).2) := by
  rw [drain]
  split
  · next h' => rw [h] at h'; cases h'
  · next h' =>
      rw [h] at h'
      cases h'
      rfl
  · next h' => rw [h] at h'; cases h'

theorem feed_of_item {b : β} (h : d.next xs = .item b rest) : ∀ chunks : List (List α),
    d.feed chunks xs = (b :: (d.feed chunks rest).1, (d.feed chunks rest).2)
  | [] => drain_of_item h
  | chunk :: chunks => by
      rw [feed, feed, drain_of_item h]
      rcases d.drain rest with ⟨bs, e | left⟩
      · rfl
      · rfl

theorem feed_of_fail {e : ε} (h : d.next xs = .fail e) : ∀ chunks : List (List α),
    d.feed chunks xs = ([], .error e)
  | [] => drain_of_fail h
  | chunk :: chunks => by rw [feed, drain_of_fail h]

theorem feed_cons_of_more (h : d.next xs = .more) (chunk : List α) (chunks : List (List α)) :
    d.feed (chunk :: chunks) xs = d.feed chunks (xs ++ chunk) := by
  rw [feed, drain_of_more h]
  rfl

/-- A run of a decoder, buffer by buffer. -/
theorem drain_induction {P : List α → Prop}
    (more : ∀ xs, d.next xs = .more → P xs)
    (item : ∀ xs b rest, d.next xs = .item b rest → P rest → P xs)
    (fail : ∀ xs e, d.next xs = .fail e → P xs) (xs : List α) : P xs := by
  induction hn : xs.length using Nat.strongRecOn generalizing xs with
  | _ n ih =>
      subst hn
      cases h : d.next xs with
      | more => exact more xs h
      | item b rest => exact item xs b rest h (ih _ (d.shrinks h) rest rfl)
      | fail e => exact fail xs e h

/-- What is left of a buffer is not longer than the buffer. -/
theorem length_drain_le : ∀ {bs : List β}, d.drain xs = (bs, .ok rest) →
    rest.length ≤ xs.length := by
  induction xs using d.drain_induction with
  | more xs h =>
      intro bs hd
      rw [drain_of_more h] at hd
      cases hd
      exact Nat.le_refl _
  | item xs b rest' h ih =>
      intro bs hd
      rw [drain_of_item h] at hd
      obtain ⟨-, hrest⟩ := Prod.ext_iff.mp hd
      exact Nat.le_trans (ih (Prod.ext rfl hrest)) (Nat.le_of_lt (d.shrinks h))
  | fail xs e h =>
      intro bs hd
      rw [drain_of_fail h] at hd
      cases hd

/-- **Draining goes on where it stopped.** -/
theorem Stable.drain_append (hs : d.Stable N) : (xs ++ ys).length ≤ N →
    d.drain (xs ++ ys) = d.resume (d.drain xs) ys := by
  induction xs using d.drain_induction with
  | more xs h =>
      intro _
      rw [drain_of_more h, resume, List.nil_append]
  | item xs b rest h ih =>
      intro hle
      have hlt : (rest ++ ys).length ≤ N := by
        have := d.shrinks h
        rw [List.length_append] at hle ⊢
        omega
      rw [drain_of_item (hs.item_append hle h), drain_of_item h, ih hlt]
      cases d.drain rest with
      | mk bs out =>
          cases out with
          | ok left => rfl
          | error e => rfl
  | fail xs e h =>
      intro hle
      rw [drain_of_fail (hs.fail_append hle h), drain_of_fail h, resume]

/-- **The chunks do not matter.**  What is decoded as chunks come is what is decoded of all of
them at once. -/
theorem Stable.feed_eq_drain (hs : d.Stable N) : ∀ {chunks : List (List α)} {xs : List α},
    (xs ++ chunks.flatten).length ≤ N → d.feed chunks xs = d.drain (xs ++ chunks.flatten)
  | [], xs, _ => by rw [feed, List.flatten_nil, List.append_nil]
  | chunk :: chunks, xs, hle => by
      rw [List.flatten_cons] at hle ⊢
      rw [hs.drain_append hle, feed]
      cases hd : d.drain xs with
      | mk bs out =>
          cases out with
          | error e => rfl
          | ok rest =>
              have hrest := length_drain_le hd
              have hle' : (rest ++ chunk ++ chunks.flatten).length ≤ N := by
                simp only [List.length_append] at hle ⊢
                omega
              rw [resume, ← List.append_assoc]
              show (bs ++ (d.feed chunks (rest ++ chunk)).1, (d.feed chunks (rest ++ chunk)).2) = _
              rw [hs.feed_eq_drain hle']

/-- **What is encoded item by item is decoded to the items.** -/
theorem drain_flatMap {γ : Type*} {encode : γ → List α} {f : γ → β} (hnil : d.next [] = .more) :
    ∀ {items : List γ}, (items.flatMap encode).length ≤ N →
      (∀ x ∈ items, ∀ rest, (encode x ++ rest).length ≤ N →
        d.next (encode x ++ rest) = .item (f x) rest) →
      d.drain (items.flatMap encode) = (items.map f, .ok [])
  | [], _, _ => drain_of_more hnil
  | x :: items, hle, hnext => by
      obtain ⟨hx, hitems⟩ := List.forall_mem_cons.mp hnext
      rw [List.flatMap_cons] at hle ⊢
      have htail : (items.flatMap encode).length ≤ N := by
        rw [List.length_append] at hle
        omega
      rw [drain_of_item (hx _ hle), drain_flatMap hnil htail hitems]
      rfl

end Decoder

end ServantRs
