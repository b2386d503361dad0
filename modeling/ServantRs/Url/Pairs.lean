import ServantRs.Url.Path

/-!
# Url — pairs of a query

A query is written as parameters joined by `&`, a key and a value of each around `=`, both encoded.
A server splits it there and decodes.

* `Uri.query_append`: a target's query ends at the fragment.
* `parsePairs_intercalate`, `parseQuery_queryPart`: the pieces of a query are its parameters.
* `parsePair_single`, `parsePair_arrayElem`, `parsePair_key`: each is read as its pair.
* `parsePairs_renderPairs`: any list of pairs comes back, but for those that leave no text.
-/

namespace ServantRs

/-! ### The query of a target -/

/-- A query ends at the fragment. -/
theorem Uri.query_append {p q : String} (hp : ∀ c ∈ p.toList, Uri.inPath c = true)
    (hq : '#' ∉ q.toList) : Uri.query (p ++ "?" ++ q) = some q := by
  have htext : (p ++ "?" ++ q).toList = p.toList ++ '?' :: q.toList := by simp
  have hfragment : ∀ c ∈ q.toList, (decide (c ≠ '#')) = true := fun c hc => by
    have hne : c ≠ '#' := fun e => hq (e ▸ hc)
    simpa using hne
  have hmark : ('?' :: q.toList).dropWhile Uri.inPath = '?' :: q.toList :=
    List.dropWhile_cons_of_neg (by decide)
  rw [Uri.query, htext, List.dropWhile_append_of_pos hp, hmark]
  show some (String.ofList (q.toList.takeWhile (· ≠ '#'))) = some q
  rw [List.takeWhile_eq_self_iff.mpr hfragment, String.ofList_toList]

theorem Uri.query_of_inPath {p : String} (hp : ∀ c ∈ p.toList, Uri.inPath c = true) :
    Uri.query p = none := by
  have hnil : p.toList.dropWhile Uri.inPath = [] := List.dropWhile_eq_nil_iff.mpr hp
  rw [Uri.query, hnil]

section

variable [PercentEncoding]

/-- Encoded text holds none of the characters a query is split at. -/
theorem notMem_encode_of_query {c : Char} (hc : c ∈ ['&', '=', '#', '+']) (s : String) :
    c ∉ (encode s).toList := by
  simp only [List.mem_cons, List.not_mem_nil, or_false] at hc
  rcases hc with rfl | rfl | rfl | rfl <;> exact notMem_encode (by decide) (by decide) s

theorem decodeComponent_encode (s : String) : decodeComponent (encode s) = s := by
  rw [decodeComponent, replaceChar_of_notMem (notMem_encode_of_query (by simp) s), decode_encode]

/-- The brackets of an array key stay as they are. -/
theorem decodeComponent_encode_brackets (s : String) :
    decodeComponent (encode s ++ "[]") = s ++ "[]" := by
  have hplus : '+' ∉ (encode s ++ "[]").toList := by
    rw [String.toList_append, List.mem_append, not_or]
    exact ⟨notMem_encode_of_query (by simp) s, by decide⟩
  rw [decodeComponent, replaceChar_of_notMem hplus]
  apply PercentEncoding.decode_eq
  rw [encode, PercentEncoding.encode_eq, String.toList_append, String.toList_ofList,
    percentDecode_percentEncode_append (by decide), utf8Bytes, String.toList_append,
    List.flatMap_append]
  rfl

/-! ### Pieces of a query -/

/-- A text that is a piece of a query by itself. -/
structure QueryPiece (s : String) : Prop where
  ampersand : '&' ∉ s.toList
  hash : '#' ∉ s.toList
  ne_empty : s ≠ ""

omit [PercentEncoding] in
theorem QueryPiece.append {s t : String} (h : QueryPiece s) (hampersand : '&' ∉ t.toList)
    (hhash : '#' ∉ t.toList) : QueryPiece (s ++ t) where
  ampersand := by
    rw [String.toList_append, List.mem_append, not_or]
    exact ⟨h.ampersand, hampersand⟩
  hash := by
    rw [String.toList_append, List.mem_append, not_or]
    exact ⟨h.hash, hhash⟩
  ne_empty hempty := by
    have hs : s = "" := by
      rw [← String.toList_inj, String.toList_append] at hempty
      exact String.toList_eq_nil_iff.mp (List.append_eq_nil_iff.mp hempty).1
    exact h.ne_empty hs

theorem queryPiece_key {key : String} (h : key ≠ "") : QueryPiece (encode key) where
  ampersand := notMem_encode_of_query (by simp) key
  hash := notMem_encode_of_query (by simp) key
  ne_empty hempty := h (encode_eq_empty.mp hempty)

theorem QueryPiece.value {key : String} (h : QueryPiece key) (value : String) :
    QueryPiece (key ++ "=" ++ encode value) :=
  (h.append (by decide) (by decide)).append (notMem_encode_of_query (by simp) value)
    (notMem_encode_of_query (by simp) value)

/-- The pieces of a query are its parameters. -/
theorem parsePairs_intercalate {params : List String} (h : ∀ s ∈ params, QueryPiece s) :
    parsePairs ("&".intercalate params) = params.map parsePair := by
  cases params with
  | nil =>
      rw [String.intercalate_nil, parsePairs, splitChar_of_notMem (by simp)]
      rfl
  | cons param params =>
      have hsplit : splitChar '&' ("&".intercalate (param :: params)) = param :: params :=
        splitChar_intercalate (c := '&') (fun s hs => (h s hs).ampersand) (List.cons_ne_nil _ _)
      have hkept : (param :: params).filter (· ≠ "") = param :: params :=
        List.filter_eq_self.mpr fun s hs => by simpa using (h s hs).ne_empty
      rw [parsePairs, hsplit, hkept]

/-- A server has the pairs of the parameters of a URL. -/
theorem parseQuery_queryPart {p : String} {url : UrlParts}
    (hp : ∀ c ∈ p.toList, Uri.inPath c = true) (hraw : url.rawQuery = none)
    (h : ∀ s ∈ url.params, QueryPiece s) :
    parseQuery (Uri.query (p ++ url.queryPart)) = url.params.map parsePair := by
  rw [UrlParts.queryPart, hraw]
  cases hparams : url.params with
  | nil =>
      rw [if_neg (by simp), String.append_empty, Uri.query_of_inPath hp]
      rfl
  | cons param params =>
      rw [hparams] at h
      have hhash : '#' ∉ ("&".intercalate (param :: params)).toList := by
        intro hmem
        rcases mem_toList_intercalate hmem with hmem | ⟨s, hs, hmem⟩
        · exact absurd hmem (by decide)
        · exact (h s hs).hash hmem
      rw [if_pos (by simp), String.append_empty, ← String.append_assoc,
        Uri.query_append hp hhash]
      exact parsePairs_intercalate h

/-! ### The pair of a parameter -/

/-- The key of an array element. -/
def arrayKey : ArrayElementStyle → String → String
  | .bracket, name => name ++ "[]"
  | .plain,   name => name

theorem parsePair_value {raw key : String} (hraw : '=' ∉ raw.toList)
    (hkey : decodeComponent raw = key) (value : String) :
    parsePair (raw ++ "=" ++ encode value) = (key, some value) := by
  have hsplit : splitOnce '=' (raw ++ "=" ++ encode value) = some (raw, encode value) :=
    splitOnce_append hraw
  rw [parsePair, hsplit]
  show (decodeComponent raw, some (decodeComponent (encode value))) = (key, some value)
  rw [hkey, decodeComponent_encode]

theorem parsePair_key (key : String) : parsePair (encode key) = (key, none) := by
  rw [parsePair, splitOnce_of_notMem (notMem_encode_of_query (by simp) key)]
  show (decodeComponent (encode key), none) = (key, none)
  rw [decodeComponent_encode]

theorem parsePair_single (style : ArrayElementStyle) (key value : String) :
    parsePair (renderParam style (.single key value)) = (key, some value) :=
  parsePair_value (notMem_encode_of_query (by simp) key) (decodeComponent_encode key) value

/-- The brackets belong to the key. -/
theorem renderParam_bracket (key value : String) :
    renderParam .bracket (.arrayElem key value) = encode key ++ "[]" ++ "=" ++ encode value := by
  have hjoin : ("[]=" : String) = "[]" ++ "=" := rfl
  rw [renderParam, hjoin, ← String.append_assoc]

theorem parsePair_arrayElem (style : ArrayElementStyle) (key value : String) :
    parsePair (renderParam style (.arrayElem key value)) = (arrayKey style key, some value) := by
  cases style with
  | plain =>
      exact parsePair_value (notMem_encode_of_query (by simp) key) (decodeComponent_encode key) value
  | bracket =>
      have hraw : '=' ∉ (encode key ++ "[]").toList := by
        rw [String.toList_append, List.mem_append, not_or]
        exact ⟨notMem_encode_of_query (by simp) key, by decide⟩
      rw [renderParam_bracket]
      exact parsePair_value hraw (decodeComponent_encode_brackets key) value

/-! ### Any list of pairs -/

theorem renderPair_eq_empty {pair : QueryPair} : renderPair pair = "" ↔ pair = ("", none) := by
  obtain ⟨key, _ | value⟩ := pair
  · rw [Prod.mk.injEq, and_iff_left rfl]
    exact encode_eq_empty
  · refine iff_of_false (fun hempty => ?_) (by simp)
    have hlist : (renderPair (key, some value)).toList = [] := by rw [hempty]; rfl
    simp [renderPair] at hlist

theorem parsePair_renderPair (pair : QueryPair) : parsePair (renderPair pair) = pair := by
  obtain ⟨key, _ | value⟩ := pair
  · exact parsePair_key key
  · exact parsePair_value (notMem_encode_of_query (by simp) key) (decodeComponent_encode key) value

theorem notMem_renderPair (pair : QueryPair) : '&' ∉ (renderPair pair).toList := by
  have hencode : ∀ s, '&' ∉ (encodeQueryComponent s).toList := fun s =>
    notMem_encode_of_query (by simp) s
  obtain ⟨key, _ | value⟩ := pair
  · exact hencode key
  · simp [renderPair, hencode]

/-- The pieces that hold text are those of pairs that leave some. -/
theorem filter_map_renderPair (pairs : List QueryPair) :
    (pairs.map renderPair).filter (· ≠ "") = (pairs.filter (· ≠ ("", none))).map renderPair := by
  rw [List.filter_map]
  refine congrArg _ (List.filter_congr fun pair _ => ?_)
  simp [renderPair_eq_empty]

/-- **Pairs come back**, in order, but for a bare key that is empty: it leaves no text. -/
theorem parsePairs_renderPairs (pairs : List QueryPair) :
    parsePairs (renderPairs pairs) = pairs.filter (· ≠ ("", none)) := by
  cases pairs with
  | nil =>
      rw [renderPairs, List.map_nil, String.intercalate_nil, parsePairs,
        splitChar_of_notMem (by simp)]
      rfl
  | cons pair pairs =>
      have hsplit : splitChar '&' (renderPairs (pair :: pairs))
          = (pair :: pairs).map renderPair := by
        refine splitChar_intercalate (c := '&') (fun s hs => ?_) (List.cons_ne_nil _ _)
        obtain ⟨pair, -, rfl⟩ := List.mem_map.mp hs
        exact notMem_renderPair pair
      have hread : parsePair ∘ renderPair = id := funext parsePair_renderPair
      rw [parsePairs, hsplit, filter_map_renderPair, List.map_map, hread, List.map_id]

end

end ServantRs
