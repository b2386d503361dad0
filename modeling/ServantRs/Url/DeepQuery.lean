import ServantRs.Url.Pairs

/-!
# Url — deep objects

The key of an entry is the root with a bracketed field for each segment of its path, every one of
them encoded by itself.  A server decodes the key as a whole and looks for brackets in what comes
out, so a closing bracket of a segment ends its field.

* `parsePair_deepQueryEntry`: the key a server has is the root and the segments between brackets.
* `parsePathFields_brackets`: the segments come back when none of them has a closing bracket.
* `deepQuery_round_trip_iff`: the entries of a root come back exactly then.
-/

namespace ServantRs

/-- The segments of a path, between brackets. -/
def brackets (path : List String) : List Char :=
  path.flatMap fun segment => '[' :: (segment.toList ++ [']'])

theorem brackets_cons (segment : String) (path : List String) :
    brackets (segment :: path) = '[' :: (segment.toList ++ ']' :: brackets path) := by
  simp [brackets]

/-- A path is empty, or its brackets open. -/
theorem head?_brackets (path : List String) :
    brackets path = [] ∨ (brackets path).head? = some '[' := by
  cases path with
  | nil => exact .inl rfl
  | cons segment path => exact .inr (by rw [brackets_cons]; rfl)

/-! ### Fields -/

/-- An error of neither step is no error of both. -/
theorem bind_ne_error {E A B : Type} {x : Except E A} {f : A → Except E B} {e : E}
    (hx : x ≠ .error e) (hf : ∀ a, f a ≠ .error e) : (x >>= f) ≠ .error e := by
  cases x with
  | error e' => exact fun h => hx (congrArg _ (Except.error.inj h))
  | ok a => exact hf a

/-- The first field ends at the first closing bracket. -/
theorem parsePathFields_field {segment : List Char} (h : ']' ∉ segment) {rest : List Char}
    (hrest : rest = [] ∨ rest.head? = some '[') :
    parsePathFields ('[' :: (segment ++ ']' :: rest))
      = (parsePathFields rest).map (String.ofList segment :: ·) := by
  have hkeep : ∀ c ∈ segment, (decide (c ≠ ']')) = true := fun c hc => by
    have hne : c ≠ ']' := fun e => h (e ▸ hc)
    simpa using hne
  have hdrop : (segment ++ ']' :: rest).dropWhile (· ≠ ']') = ']' :: rest := by
    rw [List.dropWhile_append_of_pos hkeep]
    rfl
  have htake : (segment ++ ']' :: rest).takeWhile (· ≠ ']') = segment := by
    rw [List.takeWhile_append_of_pos hkeep]
    exact List.append_nil _
  have hopen : ¬ (rest ≠ [] ∧ rest.head? ≠ some '[') := by
    rintro ⟨hne, hhead⟩
    rcases hrest with hnil | hsome
    · exact hne hnil
    · exact hhead hsome
  rw [parsePathFields, if_neg (not_not.mpr rfl)]
  split
  · next hnil =>
      rw [hdrop] at hnil
      cases hnil
  · next hcons =>
      rw [hdrop] at hcons
      cases hcons
      rw [if_neg hopen, htake]
      cases parsePathFields rest with
      | error e => rfl
      | ok fields => rfl

/-- The segments come back when none of them has a closing bracket. -/
theorem parsePathFields_brackets : ∀ {path : List String},
    (∀ segment ∈ path, ']' ∉ segment.toList) → parsePathFields (brackets path) = .ok path
  | [], _ => by rw [brackets, List.flatMap_nil, parsePathFields]
  | segment :: path, h => by
      obtain ⟨hsegment, hpath⟩ := List.forall_mem_cons.mp h
      rw [brackets_cons, parsePathFields_field hsegment (head?_brackets path),
        parsePathFields_brackets hpath, String.ofList_toList]
      rfl

/-- A path that is read is its first field, between brackets, and the path of what follows. -/
theorem exists_of_parsePathFields {c : Char} {afterOpen : List Char} {path : List String}
    (h : parsePathFields (c :: afterOpen) = .ok path) :
    ∃ segment rest fields, c = '[' ∧ afterOpen = segment ++ ']' :: rest ∧ ']' ∉ segment ∧
      parsePathFields rest = .ok fields ∧ path = String.ofList segment :: fields := by
  rw [parsePathFields] at h
  split at h
  · cases h
  · next hopen =>
      split at h
      · cases h
      · next close rest hdrop =>
          split at h
          · cases h
          · obtain ⟨fields, hfields, hb⟩ := of_bind_eq_ok h
            cases hb
            have hclose : close = ']' := by
              have hhead := List.head?_dropWhile_not (fun d => decide (d ≠ ']')) afterOpen
              rw [hdrop] at hhead
              simpa using hhead
            have hcut := List.takeWhile_append_dropWhile (p := fun d => decide (d ≠ ']'))
              (l := afterOpen)
            rw [hdrop, hclose] at hcut
            refine ⟨_, rest, fields, not_not.mp hopen, hcut.symm, fun hmem => ?_, hfields, rfl⟩
            have hne := List.mem_takeWhile_imp hmem
            simp at hne

/-- **Which texts are read, and as what**: segments without a closing bracket, each between
brackets. -/
theorem parsePathFields_eq_ok_iff {rest : List Char} {path : List String} :
    parsePathFields rest = .ok path
      ↔ rest = brackets path ∧ ∀ segment ∈ path, ']' ∉ segment.toList := by
  constructor
  · -- field by field: what is left is shorter
    induction hn : rest.length using Nat.strongRecOn generalizing rest path with
    | _ n ih =>
        intro h
        subst hn
        cases rest with
        | nil =>
            rw [parsePathFields] at h
            cases h
            exact ⟨rfl, fun segment hmem => absurd hmem List.not_mem_nil⟩
        | cons c afterOpen =>
            obtain ⟨segment, rest', fields, rfl, rfl, hclosed, hfields, rfl⟩ :=
              exists_of_parsePathFields h
            have hlt : rest'.length < ('[' :: (segment ++ ']' :: rest')).length := by
              simp only [List.length_cons, List.length_append]
              omega
            obtain ⟨hrest, hall⟩ := ih _ hlt rfl hfields
            rw [brackets_cons, String.toList_ofList, ← hrest]
            refine ⟨rfl, List.forall_mem_cons.mpr ⟨?_, hall⟩⟩
            rwa [String.toList_ofList]
  · rintro ⟨rfl, hclosed⟩
    exact parsePathFields_brackets hclosed

/-- No field that is read has a closing bracket. -/
theorem notMem_of_parsePathFields {rest : List Char} {path : List String}
    (h : parsePathFields rest = .ok path) : ∀ segment ∈ path, ']' ∉ segment.toList :=
  (parsePathFields_eq_ok_iff.mp h).2

/-- Only a text that begins without a bracket lacks the opening one: after a field the walk goes on
at a bracket or not at all. -/
theorem parsePathFields_ne_missingOpening {rest : List Char}
    (h : rest = [] ∨ rest.head? = some '[') :
    parsePathFields rest ≠ .error .missingOpeningBracket := by
  induction hn : rest.length using Nat.strongRecOn generalizing rest with
  | _ n ih =>
      subst hn
      cases rest with
      | nil =>
          rw [parsePathFields]
          intro h
          cases h
      | cons c afterOpen =>
          have hopen : c = '[' := by simpa using h
          rw [parsePathFields, if_neg (not_not.mpr hopen)]
          split
          · intro h
            cases h
          · next close rest' hdrop =>
              split
              · intro h
                cases h
              · next hnext =>
                  have hle := (List.dropWhile_sublist (fun d => decide (d ≠ ']'))
                    (l := afterOpen)).length_le
                  rw [hdrop, List.length_cons] at hle
                  have hrest : rest' = [] ∨ rest'.head? = some '[' := by
                    by_contra hno
                    exact hnext (not_or.mp hno)
                  have hlt := Nat.lt_succ_of_le (Nat.le_of_succ_le hle)
                  exact bind_ne_error (ih rest'.length hlt hrest rfl) fun _ h => by cases h

/-! ### Entries -/

/-- The pair a server has of an entry. -/
def DeepQueryEntry.pair (root : String) (entry : DeepQueryEntry) : QueryPair :=
  (root ++ String.ofList (brackets entry.path), entry.value)

theorem deepQuerySuffix_brackets (root : String) (path : List String) :
    deepQuerySuffix root (root ++ String.ofList (brackets path))
      = some (String.ofList (brackets path)) := by
  rw [deepQuerySuffix, stripPrefix_append]
  have hkept : (String.ofList (brackets path) = "" ||
      (String.ofList (brackets path)).toList.head? = some '[') = true := by
    rcases head?_brackets path with h | h
    · rw [h]
      rfl
    · rw [String.toList_ofList, h]
      simp
  exact Option.filter_some_pos hkept

/-- The entries are read one by one, each by its own path. -/
theorem parseDeepQuery_cons (root : String) (entry : DeepQueryEntry) (query : List QueryPair) :
    parseDeepQuery root (entry.pair root :: query) = (do
      let path ← parsePathFields (brackets entry.path)
      let entries ← parseDeepQuery root query
      pure (⟨path, entry.value⟩ :: entries)) := by
  have hpath : parsePath (String.ofList (brackets entry.path))
      = parsePathFields (brackets entry.path) := by
    rw [parsePath, String.toList_ofList]
  rw [DeepQueryEntry.pair, parseDeepQuery, deepQuerySuffix_brackets]
  simp only [hpath]

theorem parseDeepQuery_pairs (root : String) : ∀ {entries : DeepQueryParams},
    (∀ entry ∈ entries, ∀ segment ∈ entry.path, ']' ∉ segment.toList) →
    parseDeepQuery root (entries.map (DeepQueryEntry.pair root)) = .ok entries
  | [], _ => rfl
  | entry :: entries, h => by
      obtain ⟨hentry, hentries⟩ := List.forall_mem_cons.mp h
      rw [List.map_cons, parseDeepQuery_cons, parsePathFields_brackets hentry,
        parseDeepQuery_pairs root hentries]
      rfl

/-- What one pair adds to the entries that are read: nothing under another key, else an entry. -/
theorem of_parseDeepQuery_cons_eq_ok {root key : String} {value : Option String}
    {query : List QueryPair} {entries : DeepQueryParams}
    (h : parseDeepQuery root ((key, value) :: query) = .ok entries) :
    (deepQuerySuffix root key = none ∧ parseDeepQuery root query = .ok entries) ∨
      ∃ suffix path rest, deepQuerySuffix root key = some suffix ∧ parsePath suffix = .ok path ∧
        parseDeepQuery root query = .ok rest ∧ entries = ⟨path, value⟩ :: rest := by
  rw [parseDeepQuery] at h
  cases hsuffix : deepQuerySuffix root key with
  | none =>
      rw [hsuffix] at h
      exact .inl ⟨rfl, h⟩
  | some suffix =>
      rw [hsuffix] at h
      obtain ⟨path, hpath, hb⟩ := of_bind_eq_ok h
      obtain ⟨rest, hrest, hb⟩ := of_bind_eq_ok hb
      cases hb
      exact .inr ⟨suffix, path, rest, rfl, hpath, hrest, rfl⟩

/-- No segment of an entry that is read has a closing bracket. -/
theorem notMem_of_parseDeepQuery {root : String} : ∀ {query : List QueryPair}
    {entries : DeepQueryParams}, parseDeepQuery root query = .ok entries →
    ∀ entry ∈ entries, ∀ segment ∈ entry.path, ']' ∉ segment.toList
  | [], entries, h => by
      cases h
      exact fun entry hmem => absurd hmem List.not_mem_nil
  | (key, value) :: query, entries, h => by
      rcases of_parseDeepQuery_cons_eq_ok h with
        ⟨-, hrest⟩ | ⟨suffix, path, rest, -, hpath, hrest, rfl⟩
      · exact notMem_of_parseDeepQuery hrest
      · exact List.forall_mem_cons.mpr
          ⟨notMem_of_parsePathFields hpath, notMem_of_parseDeepQuery hrest⟩

/-! ### Which texts, and which entries -/

/-- A path is written as its segments, each between brackets; none of them has a closing one. -/
def BracketPath (path : List String) (s : String) : Prop :=
  s.toList = brackets path ∧ ∀ segment ∈ path, ']' ∉ segment.toList

/-- A key of an entry of `root`: the root, or the root with a bracket after it. -/
def isEntryKey (root key : String) : Bool :=
  key = root || (root ++ "[").toList.isPrefixOf key.toList

theorem parsePath_eq_ok_iff {s : String} {path : List String} :
    parsePath s = .ok path ↔ BracketPath path s := parsePathFields_eq_ok_iff

theorem deepQuerySuffix_eq_some_iff {root key suffix : String} :
    deepQuerySuffix root key = some suffix
      ↔ key = root ++ suffix ∧ (suffix = "" ∨ suffix.toList.head? = some '[') := by
  rw [deepQuerySuffix, Option.filter_eq_some_iff, stripPrefix_eq_some_iff]
  simp

theorem isSome_deepQuerySuffix (root key : String) :
    (deepQuerySuffix root key).isSome = isEntryKey root key := by
  rw [Bool.eq_iff_iff, Option.isSome_iff_exists, isEntryKey, Bool.or_eq_true, decide_eq_true_eq,
    List.isPrefixOf_iff_prefix]
  simp only [deepQuerySuffix_eq_some_iff]
  constructor
  · rintro ⟨suffix, rfl, rfl | hopen⟩
    · exact .inl (String.append_empty ..)
    · obtain ⟨cs, hcs⟩ := List.head?_eq_some_iff.mp hopen
      refine .inr ⟨cs, ?_⟩
      rw [String.toList_append, String.toList_append, hcs, List.append_assoc]
      rfl
  · rintro (rfl | ⟨cs, hcs⟩)
    · exact ⟨"", (String.append_empty ..).symm, .inl rfl⟩
    · refine ⟨String.ofList ('[' :: cs), ?_, .inr (by rw [String.toList_ofList]; rfl)⟩
      rw [← String.toList_inj, ← hcs]
      simp

/-- **The entries that are read** are those of the keys of the root, in order, each by its path. -/
theorem parseDeepQuery_eq_ok_iff {root : String} {query : List QueryPair}
    {entries : DeepQueryParams} : parseDeepQuery root query = .ok entries
      ↔ query.filter (fun pair => isEntryKey root pair.1) = entries.map (DeepQueryEntry.pair root) ∧
        ∀ entry ∈ entries, ∀ segment ∈ entry.path, ']' ∉ segment.toList := by
  constructor
  · intro h
    refine ⟨?_, notMem_of_parseDeepQuery h⟩
    induction query generalizing entries with
    | nil =>
        cases h
        rfl
    | cons pair query ih =>
        obtain ⟨key, value⟩ := pair
        rw [List.filter_cons, ← isSome_deepQuerySuffix]
        rcases of_parseDeepQuery_cons_eq_ok h with
          ⟨hother, hrest⟩ | ⟨suffix, path, rest, hsuffix, hpath, hrest, rfl⟩
        · rw [hother]
          exact ih hrest
        · have hkey : key = root ++ String.ofList (brackets path) := by
            rw [(deepQuerySuffix_eq_some_iff.mp hsuffix).1, ← (parsePath_eq_ok_iff.mp hpath).1,
              String.ofList_toList]
          rw [hsuffix, Option.isSome_some, if_pos rfl, ih hrest, List.map_cons,
            DeepQueryEntry.pair, hkey]
  · rintro ⟨hkept, hclosed⟩
    -- the pairs of other keys are passed over
    have hskip : parseDeepQuery root query
        = parseDeepQuery root (query.filter fun pair => isEntryKey root pair.1) := by
      clear hkept hclosed
      induction query with
      | nil => rfl
      | cons pair query ih =>
          obtain ⟨key, value⟩ := pair
          rw [List.filter_cons, ← isSome_deepQuerySuffix, parseDeepQuery]
          cases hsuffix : deepQuerySuffix root key with
          | none => exact ih
          | some suffix =>
              rw [Option.isSome_some, if_pos rfl, parseDeepQuery, hsuffix]
              simp only [ih]
    rw [hskip, hkept]
    exact parseDeepQuery_pairs root hclosed

/-- An entry's key never lacks its opening bracket. -/
theorem parseDeepQuery_ne_missingOpening (root : String) : ∀ query : List QueryPair,
    parseDeepQuery root query ≠ .error .missingOpeningBracket
  | [] => nofun
  | (key, value) :: query => by
      have ih := parseDeepQuery_ne_missingOpening root query
      rw [parseDeepQuery]
      cases hsuffix : deepQuerySuffix root key with
      | none => exact ih
      | some suffix =>
          have hopen : suffix.toList = [] ∨ suffix.toList.head? = some '[' :=
            (deepQuerySuffix_eq_some_iff.mp hsuffix).2.imp String.toList_eq_nil_iff.mpr id
          exact bind_ne_error (parsePathFields_ne_missingOpening hopen) fun _ =>
            bind_ne_error ih fun _ => nofun

/-- **The parser of bracket paths accepts its grammar**, and reads each text as its one path; any
other text is an error, and for a key of a root never that of a missing opening bracket. -/
theorem bracket_grammar (s root : String) (query : List QueryPair) :
    (∀ path, parsePath s = .ok path ↔ BracketPath path s) ∧
    (∀ path path', BracketPath path s → BracketPath path' s → path = path') ∧
    ((∀ path, ¬ BracketPath path s) → ∃ kind, parsePath s = .error kind) ∧
    (∀ entries, parseDeepQuery root query = .ok entries
      ↔ query.filter (fun pair => isEntryKey root pair.1) = entries.map (DeepQueryEntry.pair root) ∧
        ∀ entry ∈ entries, ∀ segment ∈ entry.path, ']' ∉ segment.toList) ∧
    parseDeepQuery root query ≠ .error .missingOpeningBracket := by
  refine ⟨fun path => parsePath_eq_ok_iff, fun path path' h h' => ?_, fun hnone => ?_,
    fun entries => parseDeepQuery_eq_ok_iff, parseDeepQuery_ne_missingOpening root query⟩
  · exact Except.ok.inj ((parsePath_eq_ok_iff.mpr h).symm.trans (parsePath_eq_ok_iff.mpr h'))
  · cases hp : parsePath s with
    | error kind => exact ⟨kind, rfl⟩
    | ok path => exact absurd (parsePath_eq_ok_iff.mp hp) (hnone path)

/-! ### Keys -/

section

variable [PercentEncoding]

/-- The fields of a key: the segments, encoded, between brackets. -/
theorem toList_renderDeepQueryKey (root : String) (path : List String) :
    (renderDeepQueryKey root path).toList
      = (encode root).toList ++ brackets (path.map encode) := by
  have hfoldl : ∀ (path : List String) (key : String),
      (path.foldl (fun key segment => key ++ "[" ++ encodeQueryComponent segment ++ "]") key).toList
        = key.toList ++ brackets (path.map encode) := by
    intro path
    induction path with
    | nil => intro key; simp [brackets]
    | cons segment path ih =>
        intro key
        rw [List.foldl_cons, ih, List.map_cons, brackets_cons]
        simp [encodeQueryComponent, encode, QUERY_COMPONENT, COMPONENT]
  exact hfoldl path _

/-- A key holds none of the characters a query is split at. -/
theorem notMem_renderDeepQueryKey {c : Char} (hc : c ∈ ['&', '=', '#', '+']) (root : String)
    (path : List String) : c ∉ (renderDeepQueryKey root path).toList := by
  rw [toList_renderDeepQueryKey, List.mem_append, not_or]
  refine ⟨notMem_encode_of_query hc root, fun hmem => ?_⟩
  obtain ⟨segment, hsegment, hmem⟩ := List.mem_flatMap.mp hmem
  obtain ⟨raw, -, rfl⟩ := List.mem_map.mp hsegment
  rw [List.mem_cons, List.mem_append, List.mem_singleton] at hmem
  rcases hmem with rfl | hmem | rfl
  · exact absurd hc (by decide)
  · exact notMem_encode_of_query hc raw hmem
  · exact absurd hc (by decide)

/-- Decoding a key undoes the encoding of its segments, and leaves the brackets. -/
theorem percentDecode_brackets : ∀ path : List String,
    percentDecode (brackets (path.map encode))
      = (brackets path).flatMap String.utf8EncodeChar
  | [] => rfl
  | segment :: path => by
      rw [List.map_cons, brackets_cons, brackets_cons, percentDecode_cons_of_ne (by decide),
        encode, PercentEncoding.encode_eq, String.toList_ofList,
        percentDecode_percentEncode_append (by decide), percentDecode_cons_of_ne (by decide),
        percentDecode_brackets path, List.flatMap_cons, List.flatMap_append, List.flatMap_cons]

theorem decodeComponent_renderDeepQueryKey (root : String) (path : List String) :
    decodeComponent (renderDeepQueryKey root path) = root ++ String.ofList (brackets path) := by
  rw [decodeComponent, replaceChar_of_notMem (notMem_renderDeepQueryKey (by simp) root path)]
  apply PercentEncoding.decode_eq
  rw [toList_renderDeepQueryKey, encode, PercentEncoding.encode_eq, String.toList_ofList,
    percentDecode_percentEncode_append (by decide), percentDecode_brackets, utf8Bytes,
    String.toList_append, List.flatMap_append, String.toList_ofList]

/-- The pair a server has of an entry is the entry's own. -/
theorem parsePair_deepQueryEntry (root : String) (entry : DeepQueryEntry) :
    parsePair (renderDeepQueryEntry root entry) = entry.pair root := by
  obtain ⟨path, value⟩ := entry
  have hkey := decodeComponent_renderDeepQueryKey root path
  have hequals := notMem_renderDeepQueryKey (c := '=') (by simp) root path
  cases value with
  | some value => exact parsePair_value hequals hkey value
  | none =>
      show parsePair (renderDeepQueryKey root path) = _
      rw [parsePair, splitOnce_of_notMem hequals]
      exact Prod.ext hkey rfl

theorem queryPiece_deepQueryKey {root : String} (hroot : root ≠ "") (path : List String) :
    QueryPiece (renderDeepQueryKey root path) where
  ampersand := notMem_renderDeepQueryKey (by simp) root path
  hash := notMem_renderDeepQueryKey (by simp) root path
  ne_empty hempty := by
    have hlist := toList_renderDeepQueryKey root path
    rw [hempty] at hlist
    have hencode : (encode root).toList = [] := (List.append_eq_nil_iff.mp hlist.symm).1
    exact hroot (encode_eq_empty.mp (String.toList_eq_nil_iff.mp hencode))

/-- An entry is a piece of a query when its root has a name. -/
theorem queryPiece_deepQueryEntry {root : String} (hroot : root ≠ "") (entry : DeepQueryEntry) :
    QueryPiece (renderDeepQueryEntry root entry) := by
  obtain ⟨path, value⟩ := entry
  cases value with
  | some value => exact (queryPiece_deepQueryKey hroot path).value value
  | none => exact queryPiece_deepQueryKey hroot path

/-- The pairs a server has of the entries of a root. -/
theorem parsePairs_deepQuery {root : String} (hroot : root ≠ "") (entries : DeepQueryParams) :
    parsePairs ("&".intercalate (entries.map (renderDeepQueryEntry root)))
      = entries.map (DeepQueryEntry.pair root) := by
  have hpieces : ∀ s ∈ entries.map (renderDeepQueryEntry root), QueryPiece s := by
    intro s hs
    obtain ⟨entry, -, rfl⟩ := List.mem_map.mp hs
    exact queryPiece_deepQueryEntry hroot entry
  rw [parsePairs_intercalate hpieces, List.map_map]
  exact List.map_congr_left fun entry _ => parsePair_deepQueryEntry root entry

/-! ### The round trip -/

/-- **Deep objects, there and back.**  The entries of a root come back if and only if no segment of
a path has a closing bracket. -/
theorem deepQuery_round_trip_iff {root : String} (hroot : root ≠ "") (entries : DeepQueryParams) :
    parseDeepQuery root
        (parsePairs ("&".intercalate (entries.map (renderDeepQueryEntry root)))) = .ok entries
      ↔ ∀ entry ∈ entries, ∀ segment ∈ entry.path, ']' ∉ segment.toList := by
  rw [parsePairs_deepQuery hroot]
  exact ⟨notMem_of_parseDeepQuery, parseDeepQuery_pairs root⟩

end

/-- Two entries, one of them with an opening bracket and an empty segment. -/
theorem deepQuery_round_trip_filter :
    let _ := PercentEncoding.reference
    parseDeepQuery "filter" (parsePairs ("&".intercalate
        ([⟨["user", "na[me", ""], some "a&b"⟩, ⟨[], none⟩].map (renderDeepQueryEntry "filter"))))
      = .ok [⟨["user", "na[me", ""], some "a&b"⟩, ⟨[], none⟩] :=
  let _ := PercentEncoding.reference
  (deepQuery_round_trip_iff (by decide) _).mpr (by decide)

/-- The path of one segment `a][b` is read as that of two. -/
theorem deepQuery_confused :
    let _ := PercentEncoding.reference
    parseDeepQuery "filter" (parsePairs ("&".intercalate
        ([⟨["a][b"], some "1"⟩].map (renderDeepQueryEntry "filter"))))
      = .ok [⟨["a", "b"], some "1"⟩] ∧
    [(⟨["a", "b"], some "1"⟩ : DeepQueryEntry)] ≠ [⟨["a][b"], some "1"⟩] := by
  intro _
  have hread : parseDeepQuery "filter" ([⟨["a", "b"], some "1"⟩].map (DeepQueryEntry.pair "filter"))
      = .ok [⟨["a", "b"], some "1"⟩] := parseDeepQuery_pairs "filter" (by decide)
  rw [parsePairs_deepQuery (by decide)]
  -- the brackets of both paths are the same text
  exact ⟨hread, by decide⟩

end ServantRs
