import ServantRs.Core.Modifiers

/-!
# Core — query strings

A query string is `&`-separated pairs, a key and its value after the first `=`; a key without
`=` is bare, which is not the same as a key with an empty value.  `Query` keeps the decoded pairs
in order, and the raw text when it came from a request.

A deep-object parameter spreads one value over several keys, `root[a][b]`; its entries are the
bracket paths with their values.
-/

namespace ServantRs

/-- A decoded key, and its value unless the key is bare. -/
abbrev QueryPair := String × Option String

/-- Every ASCII character but the unreserved ones is encoded. -/
def QUERY_COMPONENT : AsciiSet :=
  (((nonAlphanumeric.remove '-').remove '_').remove '.').remove '~'

structure Query where
  raw : Option String
  pairs : List QueryPair
deriving DecidableEq, Repr

section

variable [PercentEncoding]

def encodeQueryComponent (value : String) : String :=
  PercentEncoding.utf8PercentEncode QUERY_COMPONENT value

def decodeComponent (value : String) : String :=
  PercentEncoding.percentDecodeLossy (replaceChar '+' ' ' value)

def parsePair (pair : String) : QueryPair :=
  match splitOnce '=' pair with
  | some (k, v) => (decodeComponent k, some (decodeComponent v))
  | none        => (decodeComponent pair, none)

/-- The pairs of a raw query string, in order; an empty piece is none. -/
def parsePairs (raw : String) : List QueryPair :=
  ((splitChar '&' raw).filter (· ≠ "")).map parsePair

def renderPair : QueryPair → String
  | (key, some value) => encodeQueryComponent key ++ "=" ++ encodeQueryComponent value
  | (key, none)       => encodeQueryComponent key

def renderPairs (pairs : List QueryPair) : String := "&".intercalate (pairs.map renderPair)

namespace Query

/-- A query of decoded pairs. -/
def new (pairs : List QueryPair) : Query := ⟨none, pairs⟩

/-- A query with its raw text, which renderers keep as it is. -/
def fromRaw (raw : String) (pairs : List QueryPair) : Query := ⟨some raw, pairs⟩

def parse : Option String → Query
  | some raw => fromRaw raw (parsePairs raw)
  | none     => ⟨none, []⟩

def toQueryString (q : Query) : String :=
  match q.raw with
  | some raw => raw
  | none     => renderPairs q.pairs

end Query

end

/-! ### Deep objects -/

/-- One entry: its bracket path, and its value unless the key is bare. -/
structure DeepQueryEntry where
  path : List String
  value : Option String
deriving DecidableEq, Repr

/-- The entries of one root, in order. -/
abbrev DeepQueryParams := List DeepQueryEntry

inductive DeepQueryParseErrorKind where
  | missingOpeningBracket | missingClosingBracket | unexpectedTextAfterBracket
deriving DecidableEq, Repr

/-- What a value type says of its deep-object entries. -/
structure DeepQueryData (A : Type) where
  toDeepQuery : A → DeepQueryParams
  fromDeepQuery : DeepQueryParams → Except ParseError A

/-- The bracketed fields of a key's suffix, read while there is text left. -/
def parsePathFields (rest : List Char) : Except DeepQueryParseErrorKind (List String) :=
  match rest with
  | [] => .ok []
  | c :: afterOpen =>
    if c ≠ '[' then .error .missingOpeningBracket
    else match _h : afterOpen.dropWhile (· ≠ ']') with
      | [] => .error .missingClosingBracket
      | _ :: rest' =>
        if rest' ≠ [] ∧ rest'.head? ≠ some '[' then .error .unexpectedTextAfterBracket
        else do
          let fields ← parsePathFields rest'
          pure (String.ofList (afterOpen.takeWhile (· ≠ ']')) :: fields)
termination_by rest.length
decreasing_by
  have hsub : (afterOpen.dropWhile fun d => decide (d ≠ ']')).Sublist afterOpen :=
    List.dropWhile_sublist _
  have hle := hsub.length_le
  rw [_h] at hle
  simp only [List.length_cons] at hle ⊢
  omega

def parsePath (suffix : String) : Except DeepQueryParseErrorKind (List String) :=
  parsePathFields suffix.toList

/-- What follows `root` in a key of its entries. -/
def deepQuerySuffix (root key : String) : Option String :=
  (stripPrefix root key).filter fun suffix =>
    suffix = "" || suffix.toList.head? = some '['

/-- The entries of `root` among decoded pairs. -/
def parseDeepQuery (root : String) : List QueryPair →
    Except DeepQueryParseErrorKind DeepQueryParams
  | [] => .ok []
  | (key, value) :: query =>
    match deepQuerySuffix root key with
    | none => parseDeepQuery root query
    | some suffix => do
      let path ← parsePath suffix
      let entries ← parseDeepQuery root query
      pure (⟨path, value⟩ :: entries)

/-- `root[a][b]`, each part encoded. -/
def renderDeepQueryKey [PercentEncoding] (root : String) (path : List String) : String :=
  path.foldl (fun key segment => key ++ "[" ++ encodeQueryComponent segment ++ "]")
    (encodeQueryComponent root)

/-- An entry as `key` or `key=value`. -/
def renderDeepQueryEntry [PercentEncoding] (root : String) (entry : DeepQueryEntry) : String :=
  match entry.value with
  | some value => renderDeepQueryKey root entry.path ++ "=" ++ encodeQueryComponent value
  | none       => renderDeepQueryKey root entry.path

end ServantRs
