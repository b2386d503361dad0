import ServantRs.Calls.Binding
import ServantRs.Url.DeepQuery
import ServantRs.Url.Query

/-!
# Calls — queries

Query parameters and deep objects in one URL, among the pieces of a path.  A server has the pairs
of all of them, and each finds its own by the keys it reads (`Comb.readsKey`), when no other reads
those.

* `parseQuery_of_additive`: the pairs a server has.
* `pairs_of_mem`: the pairs of a binding, among those of the others.
-/

namespace ServantRs

/-! ### Items that are added -/

namespace UrlItem

/-- An item that comes after what is there; a parameter has a name. -/
def Additive : UrlItem → Prop
  | queryString _ => False
  | queryParam name _ | queryParams name _ | queryFlag name _ | deepQuery name _ => name ≠ ""
  | static _ | capture _ | captureAll _ => True

/-- The pairs a server has of an item of a client's. -/
def sentPairs : UrlItem → List QueryPair
  | deepQuery name entries => entries.map (DeepQueryEntry.pair name)
  | item                   => item.pairs .plain

variable [PercentEncoding] {item : UrlItem}

theorem Additive.addTo {style : ArrayElementStyle} (h : item.Additive) (url : UrlParts) :
    item.addTo style url = (url.addSegments item.pieces).addParams (item.params style) := by
  cases item with
  | queryString query => exact h.elim
  | _ => rfl

/-- The parameters of a deep object are its entries. -/
theorem params_deepQuery (name : String) (entries : DeepQueryParams) :
    (deepQuery name entries).params .plain = entries.map (renderDeepQueryEntry name) := by
  refine List.map_congr_left fun entry _ => ?_
  obtain ⟨path, value⟩ := entry
  cases value with
  | none => rfl
  | some value => rfl

theorem Additive.queryPiece (h : item.Additive) : ∀ s ∈ item.params .plain, QueryPiece s := by
  cases item with
  | queryString query => exact h.elim
  | static segment | capture piece | captureAll pieces => exact fun s hs => nomatch hs
  | queryParam name value | queryParams name values | queryFlag name present =>
      exact IsNamed.queryPiece h
  | deepQuery name entries =>
      intro s hs
      rw [params_deepQuery] at hs
      obtain ⟨entry, -, rfl⟩ := List.mem_map.mp hs
      exact queryPiece_deepQueryEntry h entry

/-- A server reads a parameter as its pairs. -/
theorem Additive.map_parsePair (h : item.Additive) :
    (item.params .plain).map parsePair = item.sentPairs := by
  cases item with
  | queryString query => exact h.elim
  | static segment | capture piece | captureAll pieces => rfl
  | queryParam name value | queryParams name values | queryFlag name present =>
      exact IsNamed.map_parsePair h
  | deepQuery name entries =>
      rw [params_deepQuery, List.map_map]
      exact List.map_congr_left fun entry _ => parsePair_deepQueryEntry name entry

end UrlItem

section

variable [PercentEncoding]

/-- A URL of items that are added has their pieces and their parameters. -/
theorem ofItems_of_additive {style : ArrayElementStyle} {items : List UrlItem}
    (h : ∀ item ∈ items, item.Additive) : UrlParts.ofItems style items
      = ⟨(items.flatMap UrlItem.pieces).map encode, none, items.flatMap (UrlItem.params style)⟩ := by
  have hfold : ∀ (items : List UrlItem) (url : UrlParts), (∀ item ∈ items, item.Additive) →
      items.foldl (UrlItem.addTo style) url
        = (url.addSegments (items.flatMap UrlItem.pieces)).addParams
            (items.flatMap (UrlItem.params style)) := by
    intro items
    induction items with
    | nil => simp [UrlParts.addSegments, UrlParts.addParams]
    | cons item items ih =>
        intro url h
        obtain ⟨hitem, hitems⟩ := List.forall_mem_cons.mp h
        rw [List.foldl_cons, hitem.addTo, ih _ hitems]
        simp [UrlParts.addSegments, UrlParts.addParams]
  exact hfold items .empty h

/-- **The pairs a server has** of a URL of items that are added. -/
theorem parseQuery_of_additive {items : List UrlItem} (h : ∀ item ∈ items, item.Additive) :
    parseQuery (Uri.query (UrlParts.ofItems .plain items).render)
      = items.flatMap UrlItem.sentPairs := by
  have hpieces : ∀ s ∈ items.flatMap (UrlItem.params .plain), QueryPiece s := by
    intro s hs
    obtain ⟨item, hitem, hs⟩ := List.mem_flatMap.mp hs
    exact (h item hitem).queryPiece s hs
  rw [ofItems_of_additive h, UrlParts.render,
    parseQuery_queryPart (fun c hc => inPath_of_mem _ hc) rfl hpieces, List.map_flatMap]
  exact List.flatMap_congr fun item hitem => (h item hitem).map_parsePair

end

/-! ### Keys -/

/-- The pairs of a parameter have its keys. -/
theorem UrlItem.key_mem_sentPairs {item : UrlItem} {name : String} (h : item.name = some name) :
    ∀ p ∈ item.sentPairs, p.1 ∈ queryKeys name := by
  have hpairs : item.sentPairs = item.pairs .plain := by
    cases item with
    | deepQuery => cases h
    | _ => rfl
  rw [hpairs]
  exact key_mem h

variable [AppTypes]

/-- The keys a combinator reads. -/
def Comb.readsKey : Comb → String → Bool
  | queryParam _ _ _ _ name, key | queryParams _ _ name, key | queryFlag name, key =>
    key ∈ queryKeys name
  | deepQuery _ _ name, key => isEntryKey name key
  | _, _ => false

/-- No key is read by both. -/
def Comb.KeysApart (c c' : Comb) : Prop := ∀ key, c.readsKey key = true → c'.readsKey key = false

/-- The pairs a server has of a binding. -/
def Binding.pairs (b : Binding) : List QueryPair := b.item.toList.flatMap UrlItem.sentPairs

theorem flatMap_pairs (bs : List Binding) :
    (bs.filterMap Binding.item).flatMap UrlItem.sentPairs = bs.flatMap Binding.pairs := by
  induction bs with
  | nil => rfl
  | cons b bs ih =>
      rw [List.filterMap_cons, List.flatMap_cons, Binding.pairs, ← ih]
      cases b.item with
      | none => rfl
      | some item => simp

/-- The pairs of a binding have keys its combinator reads. -/
theorem Binding.readsKey_of_mem {b : Binding} {p : QueryPair} (hp : p ∈ b.pairs) :
    b.comb.readsKey p.1 = true := by
  obtain ⟨c, a⟩ := b
  obtain ⟨item, hitem, hp⟩ := List.mem_flatMap.mp hp
  have hitem : c.item a = some item := Option.mem_toList.mp hitem
  cases c with
  | queryParam A data P S name | queryParams A data name | queryFlag name =>
      obtain rfl := Option.some.inj hitem
      exact decide_eq_true (UrlItem.key_mem_sentPairs rfl p hp)
  | deepQuery A data name =>
      obtain rfl := Option.some.inj hitem
      obtain ⟨entry, -, rfl⟩ := List.mem_map.mp hp
      show isEntryKey name (name ++ String.ofList (brackets entry.path)) = true
      rw [← isSome_deepQuerySuffix, deepQuerySuffix_brackets]
      rfl
  | path | capture | captureAll | queryString =>
      obtain rfl := Option.some.inj hitem
      cases hp
  | _ => cases hitem

/-- **A binding's own pairs**, among those of bindings whose keys are apart from its. -/
theorem pairs_of_mem {bs : List Binding}
    (hapart : bs.Pairwise fun b b' => b.comb.KeysApart b'.comb) {b : Binding} (hb : b ∈ bs) :
    ∃ before after, bs.flatMap Binding.pairs = before ++ (b.pairs ++ after) ∧
      ∀ p ∈ before ++ after, b.comb.readsKey p.1 = false := by
  obtain ⟨pre, post, rfl⟩ := List.append_of_mem hb
  obtain ⟨-, hpost, hpre⟩ := List.pairwise_append.mp hapart
  refine ⟨pre.flatMap Binding.pairs, post.flatMap Binding.pairs, by simp, fun p hp => ?_⟩
  rcases List.mem_append.mp hp with hp | hp
  · obtain ⟨b', hb', hp⟩ := List.mem_flatMap.mp hp
    have hreads := Binding.readsKey_of_mem hp
    have hnot := hpre b' hb' b List.mem_cons_self p.1 hreads
    exact hnot
  · obtain ⟨b', hb', hp⟩ := List.mem_flatMap.mp hp
    have hreads := Binding.readsKey_of_mem hp
    cases hown : b.comb.readsKey p.1 with
    | false => rfl
    | true =>
        have hnot := (List.pairwise_cons.mp hpost).1 b' hb' p.1 hown
        rw [hreads] at hnot
        cases hnot

end ServantRs
