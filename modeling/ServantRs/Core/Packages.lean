import ServantRs.Support.Percent

/-!
# Core — the packages the program is written over

What the program uses of the crates it depends on.  `PercentEncoding`, `HttpCrate`, `MimeCrate`,
`MimeEq` and `Base64Crate` leave those crates' functions open; `PercentEncoding` carries what the
program relies on, that each byte outside the kept set is written `%XX` and that decoding reads it
back.
The plain data of the `http` crate (methods, status codes, header maps) is written out.

`reference` is one implementation of each, on which closed terms evaluate.

* `HeaderMap.append_of_fresh`, `HeaderMap.get_append`: the values of distinct names do not meet.
* `HeaderMap.filter_append`: the values of one name keep their order.
-/

namespace ServantRs

abbrev Bytes := List UInt8

/-! ### `percent_encoding` -/

/-- `utf8_percent_encode` and `percent_decode_str(..).decode_utf8_lossy()`.  Nothing is said of a
text that decodes to no UTF-8. -/
class PercentEncoding where
  utf8PercentEncode : AsciiSet → String → String
  percentDecodeLossy : String → String
  encode_eq : ∀ set s, utf8PercentEncode set s = String.ofList (percentEncode set s.toList)
  decode_eq : ∀ s t, percentDecode s.toList = utf8Bytes t → percentDecodeLossy s = t

@[reducible] def PercentEncoding.reference : PercentEncoding where
  utf8PercentEncode set s := String.ofList (percentEncode set s.toList)
  percentDecodeLossy s := (fromUtf8 (percentDecode s.toList)).getD "\uFFFD"
  encode_eq _ _ := rfl
  decode_eq s t h := by rw [h, fromUtf8_utf8Bytes, Option.getD_some]

section PercentEncoding

variable [PercentEncoding]

/-- What is encoded is decoded. -/
theorem percentDecodeLossy_encode {set : AsciiSet} (hset : set '%' = true) (s : String) :
    PercentEncoding.percentDecodeLossy (PercentEncoding.utf8PercentEncode set s) = s := by
  apply PercentEncoding.decode_eq
  rw [PercentEncoding.encode_eq, String.toList_ofList, percentDecode_percentEncode hset, utf8Bytes]

theorem notMem_encode {set : AsciiSet} {c : Char} (hset : set c = true)
    (hc : c ∉ "%0123456789ABCDEF".toList) (s : String) :
    c ∉ (PercentEncoding.utf8PercentEncode set s).toList := by
  rw [PercentEncoding.encode_eq, String.toList_ofList]
  exact notMem_percentEncode hset hc _

theorem encode_eq_empty {set : AsciiSet} {s : String} :
    PercentEncoding.utf8PercentEncode set s = "" ↔ s = "" := by
  rw [PercentEncoding.encode_eq, ← String.toList_inj, String.toList_ofList]
  exact percentEncode_eq_nil.trans String.toList_eq_nil_iff

end PercentEncoding

/-! ### `http` -/

/-- A method, by its token. -/
structure Method where
  token : String
deriving DecidableEq, Repr

namespace Method

def GET : Method := ⟨"GET"⟩
def POST : Method := ⟨"POST"⟩
def DELETE : Method := ⟨"DELETE"⟩
def PATCH : Method := ⟨"PATCH"⟩
def HEAD : Method := ⟨"HEAD"⟩
def OPTIONS : Method := ⟨"OPTIONS"⟩
def TRACE : Method := ⟨"TRACE"⟩
def CONNECT : Method := ⟨"CONNECT"⟩

end Method

/-- A status code: three digits. -/
structure StatusCode where
  code : Nat
  three_digits : 100 ≤ code ∧ code < 1000
deriving DecidableEq, Repr

namespace StatusCode

def OK : StatusCode := ⟨200, by decide⟩
def NO_CONTENT : StatusCode := ⟨204, by decide⟩
def INTERNAL_SERVER_ERROR : StatusCode := ⟨500, by decide⟩

end StatusCode

/-- The version of a request. -/
inductive Version where
  | http09 | http10 | http11 | http2 | http3
deriving DecidableEq, Repr

/-- A header name, in lower case. -/
abbrev HeaderName := String

/-- A header value: bytes, not all of them text. -/
abbrev HeaderValue := Bytes

/-- The parts of an `Authority`: its host, and its port when that is a number of 16 bits. -/
structure Authority where
  host : String
  port : Option UInt16
deriving DecidableEq, Repr

/-- Reading names, values and authorities. -/
class HttpCrate where
  headerNameFromStr : String → Option HeaderName
  headerValueFromStr : String → Option HeaderValue
  headerValueToStr : HeaderValue → Option String
  authorityFromStr : String → Option Authority

/-- Header names with their values, in the order they are iterated: the values of one name stand
together. -/
abbrev HeaderMap := List (HeaderName × HeaderValue)

namespace HeaderMap

/-- The first value of a name. -/
def get (name : HeaderName) : HeaderMap → Option HeaderValue
  | [] => none
  | (k, v) :: m => if k = name then some v else get name m

def contains (name : HeaderName) (m : HeaderMap) : Bool := m.any (·.1 = name)

/-- One more value of a name, after those it has. -/
def append (name : HeaderName) (value : HeaderValue) : HeaderMap → HeaderMap
  | [] => [(name, value)]
  | (k, v) :: m =>
    if k = name ∧ contains name m = false then (k, v) :: (name, value) :: m
    else (k, v) :: append name value m

/-- One value of a name, in place of those it has. -/
def insert (name : HeaderName) (value : HeaderValue) : HeaderMap → HeaderMap
  | [] => [(name, value)]
  | (k, v) :: m =>
    if k = name then (name, value) :: m.filter (·.1 ≠ name) else (k, v) :: insert name value m

section

variable {name : HeaderName} {m : HeaderMap}

/-- The value of a name that is not there goes to the end. -/
theorem append_of_fresh (h : name ∉ m.map Prod.fst) (value : HeaderValue) :
    m.append name value = m ++ [(name, value)] := by
  induction m with
  | nil => rfl
  | cons p m ih =>
      obtain ⟨k, v⟩ := p
      rw [List.map_cons, List.mem_cons, not_or] at h
      have hk : ¬ (k = name ∧ contains name m = false) := fun hk => h.1 hk.1.symm
      rw [append, if_neg hk, ih h.2, List.cons_append]

/-- A name that is not there is looked up in what follows. -/
theorem get_append (h : name ∉ m.map Prod.fst) (m' : HeaderMap) :
    HeaderMap.get name (m ++ m') = m'.get name := by
  induction m with
  | nil => rfl
  | cons p m ih =>
      obtain ⟨k, v⟩ := p
      rw [List.map_cons, List.mem_cons, not_or] at h
      rw [List.cons_append, get, if_neg (Ne.symm h.1), ih h.2]

theorem get_of_fresh (h : name ∉ m.map Prod.fst) : m.get name = none := by
  have hget : HeaderMap.get name (m ++ []) = none := get_append h []
  rwa [List.append_nil] at hget

end

/-- One more value of a name comes after the others of that name. -/
theorem filter_append (n name : HeaderName) (value : HeaderValue) (m : HeaderMap) :
    (append name value m).filter (·.1 = n) = (m ++ [(name, value)]).filter (·.1 = n) := by
  induction m with
  | nil => rfl
  | cons entry m ih =>
      obtain ⟨k, v⟩ := entry
      rw [append]
      by_cases h : k = name ∧ contains name m = false
      · -- the last value of the name: what comes after it has other names
        obtain ⟨rfl, hlast⟩ := h
        have hother : ∀ entry ∈ m, entry.1 ≠ k := by
          intro entry hentry hk
          have hcontains : contains k m = true :=
            List.any_eq_true.mpr ⟨entry, hentry, decide_eq_true hk⟩
          rw [hlast] at hcontains
          cases hcontains
        rw [if_pos ⟨rfl, hlast⟩]
        by_cases hn : k = n
        · have hnone : m.filter (·.1 = n) = [] :=
            List.filter_eq_nil_iff.mpr fun entry hentry => by simpa [hn] using hother entry hentry
          simp [hn, hnone]
        · simp [hn]
      · rw [if_neg h, List.cons_append, List.filter_cons, List.filter_cons, ih]

theorem filter_foldl_append (n : HeaderName) (headers : List (HeaderName × HeaderValue)) :
    ∀ m : HeaderMap, (headers.foldl (fun m (name, value) => m.append name value) m).filter (·.1 = n)
      = (m ++ headers).filter (·.1 = n) := by
  induction headers with
  | nil => exact fun m => by rw [List.foldl_nil, List.append_nil]
  | cons entry headers ih =>
      intro m
      have hone : entry :: headers = [entry] ++ headers := rfl
      rw [List.foldl_cons, ih, hone, ← List.append_assoc, List.filter_append, List.filter_append,
        filter_append]

end HeaderMap

namespace HeaderName

def ACCEPT : HeaderName := "accept"
def AUTHORIZATION : HeaderName := "authorization"
def CONTENT_TYPE : HeaderName := "content-type"
def HOST : HeaderName := "host"
def WWW_AUTHENTICATE : HeaderName := "www-authenticate"

end HeaderName

/-- Visible ASCII, or a tab. -/
def isVisibleAscii (b : UInt8) : Bool := (32 ≤ b && b < 127) || b = 9

@[reducible] def HttpCrate.reference : HttpCrate where
  headerNameFromStr s :=
    if s ≠ "" ∧ s.toList.all (fun c => c.isAlphanum || "!#$%&*+-.^_|~".toList.contains c) then
      some (toAsciiLowercase s)
    else none
  headerValueFromStr s :=
    if (utf8Bytes s).all (fun b => (32 ≤ b && b ≠ 127) || b = 9) then some (utf8Bytes s) else none
  headerValueToStr v := if v.all isVisibleAscii then fromUtf8 v else none
  authorityFromStr s :=
    if s ≠ "" ∧ s.toList.all (fun c => c.isAlphanum || c = '.' || c = '-') then
      some ⟨s, none⟩
    else none

/-! ### `mime` -/

/-- A media type: the text it was read from, its type and its subtype (without a `+suffix`), in
lower case. -/
structure Mime where
  source : String
  type_ : String
  subtype : String
deriving DecidableEq, Repr

namespace Mime

def APPLICATION_JSON : Mime := ⟨"application/json", "application", "json"⟩
def TEXT_PLAIN_UTF_8 : Mime := ⟨"text/plain; charset=utf-8", "text", "plain"⟩
def APPLICATION_WWW_FORM_URLENCODED : Mime :=
  ⟨"application/x-www-form-urlencoded", "application", "x-www-form-urlencoded"⟩
def APPLICATION_OCTET_STREAM : Mime :=
  ⟨"application/octet-stream", "application", "octet-stream"⟩

end Mime

/-- `str::parse::<Mime>`. -/
class MimeCrate where
  parse : String → Option Mime

/-- `impl PartialEq for Mime`: which media types `==` takes for one. -/
class MimeEq where
  eq : Mime → Mime → Bool

@[reducible] def MimeEq.reference : MimeEq where
  eq m m' := m = m'

/-- Types and subtypes without parameters or suffixes. -/
@[reducible] def MimeCrate.reference : MimeCrate where
  parse s :=
    match splitOnce '/' s with
    | some (t, u) =>
      if t ≠ "" ∧ u ≠ "" ∧ (t ++ u).toList.all (fun c => c.isAlphanum || c = '-') then
        some ⟨toAsciiLowercase s, toAsciiLowercase t, toAsciiLowercase u⟩
      else none
    | none => none

/-! ### `base64` -/

/-- Decoding by the standard engine. -/
class Base64Crate where
  decode : String → Option Bytes

/-- The value of a digit of the standard alphabet. -/
def base64Digit (c : Char) : Option Nat :=
  let i := "ABCDEFGHIJKLMNOPQRSTUVWXYZabcdefghijklmnopqrstuvwxyz0123456789+/".toList.idxOf c
  if i < 64 then some i else none

/-- Groups of four digits, without padding. -/
def base64Groups : List Char → Option Bytes
  | [] => some []
  | a :: b :: c :: d :: rest => do
    let n := (← base64Digit a) * 262144 + (← base64Digit b) * 4096 + (← base64Digit c) * 64
      + (← base64Digit d)
    pure (UInt8.ofNat (n / 65536) :: UInt8.ofNat (n / 256) :: UInt8.ofNat n :: (← base64Groups rest))
  | _ => none

@[reducible] def Base64Crate.reference : Base64Crate where
  decode s := base64Groups s.toList

end ServantRs
