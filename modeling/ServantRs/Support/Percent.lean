import ServantRs.Support.Text

/-!
# Support — percent encoding

A set of ASCII characters (`AsciiSet`) is encoded: those characters, and every character outside
ASCII, become `%XX` for each byte of their UTF-8; the others stand for themselves.  Decoding
reads `%` and two hexadecimal digits as a byte, and leaves any other `%` as it is.

* `percentDecode_percentEncode` — decoding undoes encoding, whatever follows, when the set has
  `%` in it;
* `notMem_percentEncode` — a character of the set which an escape does not use never occurs in an
  encoded text, so it can separate encoded texts.
-/

namespace ServantRs

/-- Which ASCII characters are encoded. -/
abbrev AsciiSet := Char → Bool

/-- Every ASCII character but letters and digits. -/
def nonAlphanumeric : AsciiSet := fun c => !c.isAlphanum

def AsciiSet.remove (set : AsciiSet) (c : Char) : AsciiSet := fun d => set d && d != c

/-- The upper-case hexadecimal digit of `n < 16`. -/
def hexDigit (n : Nat) : Char := if n < 10 then Char.ofNat (48 + n) else Char.ofNat (55 + n)

/-- The value of a hexadecimal digit, of either case. -/
def hexValue (c : Char) : Option Nat :=
  if 48 ≤ c.toNat ∧ c.toNat ≤ 57 then some (c.toNat - 48)
  else if 65 ≤ c.toNat ∧ c.toNat ≤ 70 then some (c.toNat - 55)
  else if 97 ≤ c.toNat ∧ c.toNat ≤ 102 then some (c.toNat - 87)
  else none

/-- `%XX` for a byte. -/
def percentByte (b : UInt8) : List Char := ['%', hexDigit (b.toNat / 16), hexDigit (b.toNat % 16)]

def encodeChar (set : AsciiSet) (c : Char) : List Char :=
  if c.toNat < 128 ∧ set c = false then [c] else (String.utf8EncodeChar c).flatMap percentByte

def percentEncode (set : AsciiSet) (cs : List Char) : List Char := cs.flatMap (encodeChar set)

/-- The bytes a text decodes to. -/
def percentDecode : List Char → List UInt8
  | [] => []
  | '%' :: h :: l :: rest =>
    match hexValue h, hexValue l with
    | some a, some b => UInt8.ofNat (16 * a + b) :: percentDecode rest
    | _, _           => 0x25 :: percentDecode (h :: l :: rest)
  | c :: rest => String.utf8EncodeChar c ++ percentDecode rest

/-! ### Decoding undoes encoding -/

theorem hexValue_hexDigit : ∀ n, n < 16 → hexValue (hexDigit n) = some n := by decide

theorem percentDecode_percentByte (b : UInt8) (rest : List Char) :
    percentDecode (percentByte b ++ rest) = b :: percentDecode rest := by
  have hb : b.toNat < 256 := b.toNat_lt
  have hhi : hexValue (hexDigit (b.toNat / 16)) = some (b.toNat / 16) :=
    hexValue_hexDigit _ (by omega)
  have hlo : hexValue (hexDigit (b.toNat % 16)) = some (b.toNat % 16) :=
    hexValue_hexDigit _ (by omega)
  have hsum : 16 * (b.toNat / 16) + b.toNat % 16 = b.toNat := by omega
  simp only [percentByte, List.cons_append, List.nil_append, percentDecode, hhi, hlo, hsum,
    UInt8.ofNat_toNat]

theorem percentDecode_flatMap_percentByte (bs : List UInt8) (rest : List Char) :
    percentDecode (bs.flatMap percentByte ++ rest) = bs ++ percentDecode rest := by
  induction bs with
  | nil => rfl
  | cons b bs ih =>
      rw [List.flatMap_cons, List.append_assoc, percentDecode_percentByte, ih, List.cons_append]

theorem percentDecode_cons_of_ne {c : Char} (h : c ≠ '%') (rest : List Char) :
    percentDecode (c :: rest) = String.utf8EncodeChar c ++ percentDecode rest := by
  rw [percentDecode]
  intro _ _ _ hc
  exact absurd hc h

theorem percentDecode_encodeChar {set : AsciiSet} (hset : set '%' = true) (c : Char)
    (rest : List Char) :
    percentDecode (encodeChar set c ++ rest) = String.utf8EncodeChar c ++ percentDecode rest := by
  by_cases h : c.toNat < 128 ∧ set c = false
  · have hc : c ≠ '%' := by
      rintro rfl
      exact absurd hset (by simp [h.2])
    rw [encodeChar, if_pos h, List.singleton_append, percentDecode_cons_of_ne hc]
  · rw [encodeChar, if_neg h, percentDecode_flatMap_percentByte]

/-- **Decoding undoes encoding**, whatever follows the encoded text. -/
theorem percentDecode_percentEncode_append {set : AsciiSet} (hset : set '%' = true)
    (cs rest : List Char) :
    percentDecode (percentEncode set cs ++ rest)
      = cs.flatMap String.utf8EncodeChar ++ percentDecode rest := by
  induction cs with
  | nil => rfl
  | cons c cs ih =>
      rw [percentEncode, List.flatMap_cons, List.append_assoc, percentDecode_encodeChar hset,
        ← percentEncode, ih, List.flatMap_cons, List.append_assoc]

theorem percentDecode_percentEncode {set : AsciiSet} (hset : set '%' = true) (cs : List Char) :
    percentDecode (percentEncode set cs) = cs.flatMap String.utf8EncodeChar := by
  simpa [percentDecode] using percentDecode_percentEncode_append hset cs []

/-! ### What an encoded text is made of -/

theorem hexDigit_mem : ∀ n, n < 16 → hexDigit n ∈ "0123456789ABCDEF".toList := by decide

theorem mem_percentByte {c : Char} {b : UInt8} (h : c ∈ percentByte b) :
    c ∈ "%0123456789ABCDEF".toList := by
  have hb : b.toNat < 256 := b.toNat_lt
  have hhi := hexDigit_mem (b.toNat / 16) (by omega)
  have hlo := hexDigit_mem (b.toNat % 16) (by omega)
  have hcons : ∀ d ∈ "0123456789ABCDEF".toList, d ∈ "%0123456789ABCDEF".toList :=
    fun d hd => List.mem_cons_of_mem _ hd
  simp only [percentByte, List.mem_cons, List.not_mem_nil, or_false] at h
  rcases h with rfl | rfl | rfl
  · decide
  · exact hcons _ hhi
  · exact hcons _ hlo

/-- A character of an encoded text is one of an escape, or one outside the set. -/
theorem mem_percentEncode {set : AsciiSet} {c : Char} {cs : List Char}
    (h : c ∈ percentEncode set cs) :
    c ∈ "%0123456789ABCDEF".toList ∨ (c ∈ cs ∧ c.toNat < 128 ∧ set c = false) := by
  obtain ⟨d, hd, hc⟩ := List.mem_flatMap.mp h
  by_cases hk : d.toNat < 128 ∧ set d = false
  · rw [encodeChar, if_pos hk] at hc
    obtain rfl := List.mem_singleton.mp hc
    exact .inr ⟨hd, hk⟩
  · rw [encodeChar, if_neg hk] at hc
    obtain ⟨b, _, hb⟩ := List.mem_flatMap.mp hc
    exact .inl (mem_percentByte hb)

/-- A character of the set which an escape does not use never occurs in an encoded text. -/
theorem notMem_percentEncode {set : AsciiSet} {c : Char} (hset : set c = true)
    (hc : c ∉ "%0123456789ABCDEF".toList) (cs : List Char) : c ∉ percentEncode set cs := by
  intro h
  rcases mem_percentEncode h with h | ⟨_, _, h⟩
  · exact hc h
  · exact absurd hset (by simp [h])

theorem encodeChar_ne_nil (set : AsciiSet) (c : Char) : encodeChar set c ≠ [] := by
  by_cases h : c.toNat < 128 ∧ set c = false
  · rw [encodeChar, if_pos h]
    exact List.cons_ne_nil _ _
  · obtain ⟨b, bs, hb⟩ := List.exists_cons_of_ne_nil (String.utf8EncodeChar_ne_nil (c := c))
    rw [encodeChar, if_neg h, hb]
    exact List.cons_ne_nil _ _

/-- An encoded text is empty only when the text was. -/
theorem percentEncode_eq_nil {set : AsciiSet} {cs : List Char} :
    percentEncode set cs = [] ↔ cs = [] := by
  constructor
  · intro h
    cases cs with
    | nil => rfl
    | cons c cs => exact absurd (List.append_eq_nil_iff.mp h).1 (encodeChar_ne_nil set c)
  · rintro rfl
    rfl

end ServantRs
