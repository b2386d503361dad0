import Mathlib.Data.List.TakeWhile

/-!
# Support — text

The operations on strings the standard library offers and the program uses, each by its list of
characters: cutting at every occurrence of a character (`splitChar`), at the first one
(`splitOnce`), taking a prefix off (`stripPrefix`), trimming.

* `splitChar_intercalate` — cutting undoes joining, when no piece holds the separator;
* `splitOnce_append` — the first cut falls at the first separator.
-/

namespace ServantRs

/-- The pieces of `s` between the occurrences of `c`: always one at least. -/
def splitChar (c : Char) (s : String) : List String := (s.toList.splitOn c).map String.ofList

/-- `s` cut at the first `c`, which is dropped. -/
def splitOnce (c : Char) (s : String) : Option (String × String) :=
  match s.toList.dropWhile (· ≠ c) with
  | []        => none
  | _ :: rest => some (String.ofList (s.toList.takeWhile (· ≠ c)), String.ofList rest)

/-- `s` without its prefix `p`, if it has it. -/
def stripPrefix (p s : String) : Option String := (p.toList.isPrefixOf? s.toList).map String.ofList

/-- What follows the last `sep`. -/
def afterLast (sep : List Char) : List Char → Option (List Char)
  | []      => sep.isPrefixOf? []
  | c :: cs => (afterLast sep cs).or (sep.isPrefixOf? (c :: cs))

/-- The characters of Unicode's `White_Space`. -/
def isWhiteSpace (c : Char) : Bool :=
  let n := c.toNat
  (0x09 ≤ n && n ≤ 0x0D) || n = 0x20 || n = 0x85 || n = 0xA0 || n = 0x1680 ||
    (0x2000 ≤ n && n ≤ 0x200A) || n = 0x2028 || n = 0x2029 || n = 0x202F || n = 0x205F ||
    n = 0x3000

/-- `s` without white space at either end. -/
def trim (s : String) : String :=
  String.ofList (((s.toList.dropWhile isWhiteSpace).reverse.dropWhile isWhiteSpace).reverse)

/-- `s` with its ASCII letters in lower case. -/
def toAsciiLowercase (s : String) : String := String.ofList (s.toList.map Char.toLower)

/-- `s` with every `old` replaced by `new`. -/
def replaceChar (old new : Char) (s : String) : String :=
  String.ofList (s.toList.map fun c => if c = old then new else c)

/-- `s` without any `c`. -/
def removeChar (c : Char) (s : String) : String := String.ofList (s.toList.filter (· ≠ c))

/-- Every carriage return before a newline dropped. -/
def replaceCrLf : List Char → List Char
  | []                => []
  | '\r' :: '\n' :: cs => '\n' :: replaceCrLf cs
  | c :: cs           => c :: replaceCrLf cs

/-- A line without the carriage return before its newline. -/
def stripCr (line : String) : String :=
  if line.toList.getLast? = some '\r' then String.ofList line.toList.dropLast else line

/-- The lines of a text; what follows the last newline is one unless it is empty. -/
def strLines (s : String) : List String :=
  let pieces := splitChar '\n' s
  pieces.dropLast.map stripCr ++ pieces.getLast?.toList.filter (· ≠ "")

/-- The bytes of `s` in UTF-8. -/
def utf8Bytes (s : String) : List UInt8 := s.toList.flatMap String.utf8EncodeChar

/-- The string a list of bytes is the UTF-8 of. -/
def fromUtf8 (bs : List UInt8) : Option String := String.fromUTF8? bs.toByteArray

theorem toByteArray_utf8Bytes (s : String) : (utf8Bytes s).toByteArray = s.toByteArray := by
  show s.toList.utf8Encode = s.toByteArray
  rw [← String.toByteArray_ofList, String.ofList_toList]

/-- A string is what its UTF-8 is read as. -/
theorem fromUtf8_utf8Bytes (s : String) : fromUtf8 (utf8Bytes s) = some s := by
  rw [fromUtf8, toByteArray_utf8Bytes, String.fromUTF8?, dif_pos s.isValidUTF8]
  exact congrArg some (String.toByteArray_inj.mp rfl)

/-- What bytes are read as has them for its UTF-8. -/
theorem utf8Bytes_of_fromUtf8 {bs : List UInt8} {s : String} (h : fromUtf8 bs = some s) :
    utf8Bytes s = bs := by
  rw [fromUtf8, String.fromUTF8?] at h
  split at h
  · cases h
    exact List.toByteArray_inj.mp (toByteArray_utf8Bytes _)
  · cases h

/-! ### Bytes that are no UTF-8 -/

/-- The bounds of the second byte of a character that begins with `first`, and how many bytes come
after it. -/
def utf8Second (first : UInt8) : Option (UInt8 × UInt8 × Nat) :=
  if 0xC2 ≤ first && first ≤ 0xDF then some (0x80, 0xBF, 0)
  else if first = 0xE0 then some (0xA0, 0xBF, 1)
  else if first = 0xED then some (0x80, 0x9F, 1)
  else if 0xE1 ≤ first && first ≤ 0xEF then some (0x80, 0xBF, 1)
  else if first = 0xF0 then some (0x90, 0xBF, 2)
  else if 0xF1 ≤ first && first ≤ 0xF3 then some (0x80, 0xBF, 2)
  else if first = 0xF4 then some (0x80, 0x8F, 2)
  else none

/-- What follows `n` continuation bytes; else the length of the invalid sequence, `none` where the
bytes end in it. -/
def utf8Continue : Nat → Nat → List UInt8 → Except (Option Nat) (List UInt8)
  | 0, _, bytes => .ok bytes
  | _ + 1, _, [] => .error none
  | n + 1, seen, b :: bytes =>
    if 0x80 ≤ b && b ≤ 0xBF then utf8Continue n (seen + 1) bytes else .error (some seen)

/-- What follows the character that begins with `first`. -/
def utf8Next (first : UInt8) (bytes : List UInt8) : Except (Option Nat) (List UInt8) :=
  if first < 0x80 then .ok bytes
  else
    match utf8Second first, bytes with
    | none, _ => .error (some 1)
    | some _, [] => .error none
    | some (low, high, more), b :: bytes =>
      if low ≤ b && b ≤ high then utf8Continue more 2 bytes else .error (some 1)

/-- Where bytes are no UTF-8, and the length of the invalid sequence; `fuel` is their number. -/
def utf8ErrorAt : (fuel index : Nat) → List UInt8 → Nat × Option Nat
  | fuel + 1, index, first :: bytes =>
    match utf8Next first bytes with
    | .ok rest      => utf8ErrorAt fuel (index + (bytes.length + 1 - rest.length)) rest
    | .error length => (index, length)
  | _, index, _ => (index, none)

/-- What `Utf8Error` says of bytes that are no UTF-8. -/
def utf8Error (bytes : List UInt8) : String :=
  match utf8ErrorAt bytes.length 0 bytes with
  | (index, some length) =>
    "invalid utf-8 sequence of " ++ length.repr ++ " bytes from index " ++ index.repr
  | (index, none) => "incomplete utf-8 byte sequence from index " ++ index.repr

/-! ### Cutting undoes joining -/

theorem ofList_map_toList (ps : List String) : (ps.map String.toList).map String.ofList = ps := by
  simp

/-- **Cutting undoes joining.**  The pieces come back when none of them holds the separator and
there is one at least. -/
theorem splitChar_intercalate {c : Char} {ps : List String} (h : ∀ p ∈ ps, c ∉ p.toList)
    (hne : ps ≠ []) : splitChar c ((String.singleton c).intercalate ps) = ps := by
  rw [splitChar, String.toList_intercalate, String.toList_singleton,
    List.splitOn_intercalate c (by simpa using h) (by simpa using hne), ofList_map_toList]

/-- A character of joined pieces is one of the separator's or of a piece's. -/
theorem mem_toList_intercalate {c : Char} {sep : String} : ∀ {ps : List String},
    c ∈ (sep.intercalate ps).toList → c ∈ sep.toList ∨ ∃ p ∈ ps, c ∈ p.toList
  | [], h => by simp at h
  | [p], h => by
      rw [String.intercalate_singleton] at h
      exact .inr ⟨p, List.mem_singleton_self p, h⟩
  | p :: q :: ps, h => by
      rw [String.intercalate_cons_cons, String.toList_append, String.toList_append,
        List.mem_append, List.mem_append] at h
      rcases h with (h | h) | h
      · exact .inr ⟨p, List.mem_cons_self, h⟩
      · exact .inl h
      · rcases mem_toList_intercalate h with h | ⟨r, hr, h⟩
        · exact .inl h
        · exact .inr ⟨r, List.mem_cons_of_mem _ hr, h⟩

/-- What follows the separator may as well stand before the pieces. -/
theorem intercalate_pad (sep pad s : String) (ps : List String) :
    (sep ++ pad).intercalate (s :: ps) = sep.intercalate (s :: ps.map (pad ++ ·)) := by
  induction ps generalizing s with
  | nil => simp
  | cons p ps ih =>
      rw [String.intercalate_cons_cons, ih, List.map_cons, String.intercalate_cons_cons,
        String.intercalate_cons_append]
      simp only [String.append_assoc]

/-- Joined pieces begin with the first. -/
theorem exists_intercalate_cons (sep s : String) (ps : List String) :
    ∃ rest, sep.intercalate (s :: ps) = s ++ rest := by
  cases ps with
  | nil => exact ⟨"", by simp⟩
  | cons p ps =>
      refine ⟨sep ++ sep.intercalate (p :: ps), ?_⟩
      rw [String.intercalate_cons_cons, String.append_assoc]

/-- Joined pieces end with the last. -/
theorem exists_intercalate_concat (sep s : String) : ∀ ps : List String,
    ∃ front, sep.intercalate (ps ++ [s]) = front ++ s
  | [] => ⟨"", by simp⟩
  | p :: ps => by
      obtain ⟨front, hfront⟩ := exists_intercalate_concat sep s ps
      obtain ⟨q, qs, hq⟩ := List.exists_cons_of_ne_nil (List.concat_ne_nil s ps)
      refine ⟨p ++ sep ++ front, ?_⟩
      rw [List.cons_append, hq, String.intercalate_cons_cons, ← hq, hfront, ← String.append_assoc]

/-- Joined pieces begin with the first and end with the last. -/
theorem exists_intercalate_ends (sep s t : String) (ps : List String) :
    ∃ mid, sep.intercalate (s :: (ps ++ [t])) = s ++ mid ++ t := by
  obtain ⟨front, hfront⟩ := exists_intercalate_concat sep t ps
  obtain ⟨q, qs, hq⟩ := List.exists_cons_of_ne_nil (List.concat_ne_nil t ps)
  refine ⟨sep ++ front, ?_⟩
  rw [hq, String.intercalate_cons_cons, ← hq, hfront, ← String.append_assoc]
  simp only [String.append_assoc]

theorem splitChar_of_notMem {c : Char} {s : String} (h : c ∉ s.toList) : splitChar c s = [s] := by
  rw [splitChar, List.splitOn_eq_singleton h]; simp

theorem splitOnce_of_notMem {c : Char} {s : String} (h : c ∉ s.toList) : splitOnce c s = none := by
  have hd : s.toList.dropWhile (· ≠ c) = [] :=
    List.dropWhile_eq_nil_iff.mpr fun x hx => by
      have hne : x ≠ c := fun e => h (e ▸ hx)
      simpa using hne
  rw [splitOnce, hd]

/-- The first cut falls at the first separator. -/
theorem splitOnce_append {c : Char} {s t : String} (h : c ∉ s.toList) :
    splitOnce c (s ++ String.singleton c ++ t) = some (s, t) := by
  have hp : ∀ x ∈ s.toList, (decide (x ≠ c)) = true := fun x hx => by
    have hne : x ≠ c := fun e => h (e ▸ hx)
    simpa using hne
  have hl : (s ++ String.singleton c ++ t).toList = s.toList ++ c :: t.toList := by simp
  rw [splitOnce, hl, List.dropWhile_append_of_pos hp, List.takeWhile_append_of_pos hp]
  simp

theorem splitChar_ne_nil (c : Char) (s : String) : splitChar c s ≠ [] := by
  simp [splitChar, List.splitOn_ne_nil]

/-- Joining undoes cutting. -/
theorem intercalate_splitChar (c : Char) (s : String) :
    (String.singleton c).intercalate (splitChar c s) = s := by
  rw [← String.toList_inj, String.toList_intercalate, splitChar, String.toList_singleton,
    List.map_map]
  have hid : String.toList ∘ String.ofList = id := funext fun _ => String.toList_ofList
  rw [hid, List.map_id]
  exact List.intercalate_splitOn c

/-- The elements of a piece are the list's, and none is a separator. -/
theorem mem_of_mem_splitOnP {α : Type*} {p : α → Bool} {x : α} {l piece : List α}
    (h : piece ∈ l.splitOnP p) (hx : x ∈ piece) : x ∈ l ∧ p x = false := by
  induction l generalizing piece with
  | nil =>
      rw [List.splitOnP_nil, List.mem_singleton] at h
      subst h
      cases hx
  | cons y l ih =>
      have hlater : ∀ {piece}, piece ∈ l.splitOnP p → x ∈ piece → x ∈ y :: l ∧ p x = false :=
        fun h hx => ⟨List.mem_cons_of_mem y (ih h hx).1, (ih h hx).2⟩
      rw [List.splitOnP_cons_eq_if_modifyHead] at h
      cases hy : p y with
      | true =>
          rw [if_pos hy] at h
          rcases List.mem_cons.mp h with rfl | h
          · cases hx
          · exact hlater h hx
      | false =>
          -- the first piece of the rest gets `y` in front
          obtain ⟨first, pieces, hsplit⟩ := List.exists_cons_of_ne_nil (List.splitOnP_ne_nil p l)
          rw [if_neg (Bool.eq_false_iff.mp hy), hsplit, List.modifyHead_cons, List.mem_cons] at h
          rcases h with rfl | h
          · rcases List.mem_cons.mp hx with rfl | hx
            · exact ⟨List.mem_cons_self, hy⟩
            · exact hlater (hsplit ▸ List.mem_cons_self) hx
          · exact hlater (hsplit ▸ List.mem_cons_of_mem _ h) hx

/-- The characters of a piece are the text's, and none is the separator. -/
theorem mem_of_mem_splitChar {c x : Char} {s piece : String} (h : piece ∈ splitChar c s)
    (hx : x ∈ piece.toList) : x ∈ s.toList ∧ x ≠ c := by
  obtain ⟨cs, hcs, rfl⟩ := List.mem_map.mp h
  rw [String.toList_ofList] at hx
  obtain ⟨hmem, hne⟩ := mem_of_mem_splitOnP hcs hx
  exact ⟨hmem, by simpa using hne⟩

/-! ### Lines -/

theorem replaceCrLf_of_notMem : ∀ {cs : List Char}, '\r' ∉ cs → replaceCrLf cs = cs
  | [], _ => rfl
  | c :: cs, h => by
      rw [List.mem_cons, not_or] at h
      have hc : c ≠ '\r' := Ne.symm h.1
      rw [replaceCrLf, replaceCrLf_of_notMem h.2]
      rintro cs' rfl
      exact absurd rfl hc

theorem stripCr_of_notMem {line : String} (h : '\r' ∉ line.toList) : stripCr line = line :=
  if_neg fun hlast => h (List.mem_of_getLast? hlast)

/-- The lines of joined lines, when none is empty and none holds a line end. -/
theorem strLines_intercalate {ls : List String} (hne : ls ≠ [])
    (h : ∀ l ∈ ls, l ≠ "" ∧ '\n' ∉ l.toList ∧ '\r' ∉ l.toList) :
    strLines ("\n".intercalate ls) = ls := by
  have hcut : splitChar '\n' ("\n".intercalate ls) = ls :=
    splitChar_intercalate (fun l hl => (h l hl).2.1) hne
  have hfront : ls.dropLast.map stripCr = ls.dropLast :=
    (List.map_congr_left fun l hl =>
      stripCr_of_notMem (h l (List.dropLast_subset _ hl)).2.2).trans (List.map_id _)
  have hlast : ls.getLast? = some (ls.getLast hne) := List.getLast?_eq_some_getLast hne
  have hkeep : (ls.getLast hne ≠ "") := (h _ (List.getLast_mem hne)).1
  rw [strLines, hcut, hfront, hlast, Option.toList_some,
    List.filter_cons_of_pos (by simpa using hkeep), List.filter_nil, List.dropLast_concat_getLast]

/-! ### Prefixes -/

theorem isPrefixOf?_append (p s : List Char) : p.isPrefixOf? (p ++ s) = some s := by
  induction p with
  | nil => cases s <;> rfl
  | cons c p ih =>
      show (if (c == c) = true then p.isPrefixOf? (p ++ s) else none) = some s
      rw [if_pos (beq_self_eq_true c), ih]

theorem isPrefixOf?_eq_some_iff {p s t : List Char} : p.isPrefixOf? s = some t ↔ s = p ++ t := by
  constructor
  · intro h
    induction p generalizing s with
    | nil =>
        cases s <;> exact Option.some.inj h
    | cons c p ih =>
        cases s with
        | nil => cases h
        | cons d s =>
            have hif : (if (c == d) = true then p.isPrefixOf? s else none) = some t := h
            obtain ⟨hcd, hrest⟩ := Option.ite_none_right_eq_some.mp hif
            rw [beq_iff_eq.mp hcd, ih hrest, List.cons_append]
  · rintro rfl
    exact isPrefixOf?_append p t

theorem stripPrefix_eq_some_iff {p s t : String} : stripPrefix p s = some t ↔ s = p ++ t := by
  rw [stripPrefix, Option.map_eq_some_iff]
  constructor
  · rintro ⟨cs, hcs, rfl⟩
    rw [← String.toList_inj, isPrefixOf?_eq_some_iff.mp hcs, String.toList_append,
      String.toList_ofList]
  · rintro rfl
    exact ⟨t.toList, isPrefixOf?_eq_some_iff.mpr String.toList_append, String.ofList_toList⟩

/-- A prefix put on comes off. -/
theorem stripPrefix_append (p s : String) : stripPrefix p (p ++ s) = some s := by
  simp [stripPrefix, isPrefixOf?_append]

/-- A prefix that is not there does not come off. -/
theorem stripPrefix_of_head {p s : String} {c d : Char} {ps cs : List Char}
    (hp : p.toList = c :: ps) (hs : s.toList = d :: cs) (h : c ≠ d) : stripPrefix p s = none := by
  have hnone : (c :: ps).isPrefixOf? (d :: cs) = none := if_neg fun he => h (beq_iff_eq.mp he)
  rw [stripPrefix, hp, hs, hnone]
  rfl

theorem replaceChar_of_notMem {old new : Char} {s : String} (h : old ∉ s.toList) :
    replaceChar old new s = s := by
  have hm : s.toList.map (fun c => if c = old then new else c) = s.toList := by
    refine (List.map_congr_left fun c hc => ?_).trans (List.map_id _)
    have hne : c ≠ old := fun e => h (e ▸ hc)
    simp [hne]
  rw [replaceChar, hm, String.ofList_toList]

/-! ### Trimming -/

/-- A text that neither begins nor ends with white space. -/
structure Solid (s : String) : Prop where
  head : ∃ c cs, s.toList = c :: cs ∧ isWhiteSpace c = false
  last : ∀ c, s.toList.getLast? = some c → isWhiteSpace c = false

theorem dropWhile_of_head {c : Char} {cs : List Char} (h : isWhiteSpace c = false) :
    (c :: cs).dropWhile isWhiteSpace = c :: cs :=
  List.dropWhile_cons_of_neg (by simp [h])

/-- White space in front of a solid text is trimmed off, and nothing else. -/
theorem trim_append {pad s : String} (hpad : ∀ c ∈ pad.toList, isWhiteSpace c = true)
    (h : Solid s) : trim (pad ++ s) = s := by
  obtain ⟨c, cs, hs, hc⟩ := h.head
  have hfront : (pad ++ s).toList.dropWhile isWhiteSpace = s.toList := by
    rw [String.toList_append, List.dropWhile_append_of_pos hpad, hs, dropWhile_of_head hc]
  have hback : s.toList.reverse.dropWhile isWhiteSpace = s.toList.reverse := by
    cases hr : s.toList.reverse with
    | nil => rfl
    | cons d ds =>
        have hlast : s.toList.getLast? = some d := by
          rw [List.getLast?_eq_head?_reverse, hr]
          rfl
        exact dropWhile_of_head (h.last d hlast)
  rw [trim, hfront, hback, List.reverse_reverse, String.ofList_toList]

theorem trim_of_solid {s : String} (h : Solid s) : trim s = s := by
  have hempty : trim ("" ++ s) = s := trim_append (by simp) h
  rwa [String.empty_append] at hempty

/-- Nothing is left of white space alone. -/
theorem isWhiteSpace_of_trim_eq_empty {s : String} (h : trim s = "") {c : Char}
    (hc : c ∈ s.toList) : isWhiteSpace c = true := by
  rw [trim, String.ofList_eq_empty_iff, List.reverse_eq_nil_iff, List.dropWhile_eq_nil_iff] at h
  have hnil : s.toList.dropWhile isWhiteSpace = [] := by
    cases hd : s.toList.dropWhile isWhiteSpace with
    | nil => rfl
    | cons d ds =>
        -- what is left begins with no white space, and white space was all that was left
        have hwhite : isWhiteSpace d = true := h d (by simp [hd])
        have hhead := List.head?_dropWhile_not isWhiteSpace s.toList
        rw [hd] at hhead
        simp [hwhite] at hhead
  exact List.dropWhile_eq_nil_iff.mp hnil c hc

/-! ### Case -/

/-- A character in lower case is itself, or a small letter. -/
theorem toLower_cases (c : Char) :
    c.toLower = c ∨ (97 ≤ c.toLower.toNat ∧ c.toLower.toNat ≤ 122) := by
  by_cases h : c.val ≥ 'A'.val ∧ c.val ≤ 'Z'.val
  · right
    have hval : c.toLower.val = c.val + ('a'.val - 'A'.val) := congrArg Char.val (dif_pos h)
    have hle : 65 ≤ c.val.toNat ∧ c.val.toNat ≤ 90 :=
      ⟨UInt32.le_iff_toNat_le.mp h.1, UInt32.le_iff_toNat_le.mp h.2⟩
    have hdiff : ('a'.val - 'A'.val).toNat = 32 := by decide
    have hnat : c.toLower.toNat = c.val.toNat + 32 := by
      show c.toLower.val.toNat = _
      rw [hval, UInt32.toNat_add, hdiff]
      omega
    omega
  · left
    exact dif_neg h

theorem toLower_toLower (c : Char) : c.toLower.toLower = c.toLower := by
  rcases toLower_cases c with h | h
  · rw [h, h]
  · have hnot : ¬ (c.toLower.val ≥ 'A'.val ∧ c.toLower.val ≤ 'Z'.val) := fun hle => by
      have hz : c.toLower.toNat ≤ 90 := UInt32.le_iff_toNat_le.mp hle.2
      omega
    exact dif_neg hnot

/-- A character in upper case is itself, or a capital letter. -/
theorem toUpper_cases (c : Char) :
    c.toUpper = c ∨ (65 ≤ c.toUpper.toNat ∧ c.toUpper.toNat ≤ 90) := by
  by_cases h : 'a'.val ≤ c.val ∧ c.val ≤ 'z'.val
  · right
    have hval : c.toUpper.val = c.val + ('A'.val - 'a'.val) := by
      delta Char.toUpper
      rw [dif_pos h]
    have hle : 97 ≤ c.val.toNat ∧ c.val.toNat ≤ 122 :=
      ⟨UInt32.le_iff_toNat_le.mp h.1, UInt32.le_iff_toNat_le.mp h.2⟩
    have hdiff : ('A'.val - 'a'.val).toNat = 4294967264 := by simp
    have hnat : c.toUpper.toNat = c.val.toNat - 32 := by
      show c.toUpper.val.toNat = _
      rw [hval, UInt32.toNat_add, hdiff]
      omega
    omega
  · left
    exact dif_neg h

theorem toUpper_toUpper (c : Char) : c.toUpper.toUpper = c.toUpper := by
  rcases toUpper_cases c with h | h
  · rw [h, h]
  · have hnot : ¬ ('a'.val ≤ c.toUpper.val ∧ c.toUpper.val ≤ 'z'.val) := fun hle => by
      have ha : 97 ≤ c.toUpper.toNat := UInt32.le_iff_toNat_le.mp hle.1
      omega
    exact dif_neg hnot

theorem toAsciiLowercase_idem (s : String) :
    toAsciiLowercase (toAsciiLowercase s) = toAsciiLowercase s := by
  rw [toAsciiLowercase, toAsciiLowercase, String.toList_ofList, List.map_map]
  exact congrArg String.ofList (List.map_congr_left fun c _ => toLower_toLower c)

/-- What is no small letter in lower case was there before. -/
theorem mem_of_mem_toAsciiLowercase {c : Char} (hc : c.toNat < 97 ∨ 122 < c.toNat) {s : String}
    (h : c ∈ (toAsciiLowercase s).toList) : c ∈ s.toList := by
  rw [toAsciiLowercase, String.toList_ofList] at h
  obtain ⟨d, hd, rfl⟩ := List.mem_map.mp h
  rcases toLower_cases d with he | he
  · rwa [he]
  · omega

theorem mem_toAsciiLowercase {c : Char} (hc : c.toLower = c) {s : String} (h : c ∈ s.toList) :
    c ∈ (toAsciiLowercase s).toList := by
  rw [toAsciiLowercase, String.toList_ofList]
  exact List.mem_map.mpr ⟨c, h, hc⟩

/-- Only a star is a star in lower case. -/
theorem toAsciiLowercase_eq_star {s : String} (h : toAsciiLowercase s = "*") : s = "*" := by
  have hlist : s.toList.map Char.toLower = ['*'] := by
    rw [toAsciiLowercase] at h
    rw [← String.toList_ofList (l := s.toList.map Char.toLower), h]
    rfl
  obtain ⟨c, hs, hc⟩ := List.map_eq_singleton_iff.mp hlist
  have hstar : c = '*' := by
    rcases toLower_cases c with he | he
    · rw [← he, hc]
    · rw [hc] at he
      exact absurd he (by decide)
  rw [← String.toList_inj, hs, hstar]
  rfl

end ServantRs
