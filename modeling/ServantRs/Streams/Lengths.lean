import ServantRs.Streams.Netstring

/-!
# Streams — the length of a netstring

The decoder of responses reads the length of a netstring as Rust reads a `usize`, which may have a
`+` before it; that of requests takes decimal digits only (`bind_parseUsize_iff`).  But for such a
`+` the two take the same frames off: `deframeLimited_iff_deframe`.
-/

namespace ServantRs

namespace NetstringFraming

def PLUS : UInt8 := 43

/-! ### Digits, as bytes and as characters -/

/-- The bytes of a character are digits when it is one. -/
theorem all_isAsciiDigit_char (c : Char) :
    (String.utf8EncodeChar c).all isAsciiDigit = c.isDigit := by
  by_cases hc : c.toNat < 128
  · have hbyte : (UInt8.ofNat c.toNat).toNat = c.toNat := by
      rw [UInt8.toNat_ofNat']
      omega
    rw [utf8EncodeChar_of_lt hc, Bool.eq_iff_iff]
    simp only [List.all_cons, List.all_nil, Bool.and_true, isAsciiDigit, Char.isDigit,
      Bool.and_eq_true, decide_eq_true_eq, UInt8.le_iff_toNat_le, UInt32.le_iff_toNat_le, hbyte,
      ge_iff_le]
    rfl
  · -- neither a byte of the character nor the character is below 128
    have hdigit : c.isDigit = false := by
      rw [← Bool.not_eq_true]
      intro h
      simp only [Char.isDigit, Bool.and_eq_true, decide_eq_true_eq, UInt32.le_iff_toNat_le] at h
      have hle : c.toNat ≤ 57 := h.2
      omega
    rw [hdigit, ← Bool.not_eq_true, List.all_eq_true]
    intro h
    obtain ⟨b, hb⟩ := List.exists_mem_of_ne_nil _ (String.utf8EncodeChar_ne_nil (c := c))
    have hle := le_of_mem_utf8EncodeChar (Nat.not_lt.mp hc) hb
    have hb57 := h b hb
    simp only [isAsciiDigit, Bool.and_eq_true, decide_eq_true_eq, UInt8.le_iff_toNat_le] at hb57
    have : b.toNat ≤ 57 := hb57.2
    omega

theorem all_isAsciiDigit (s : String) :
    (utf8Bytes s).all isAsciiDigit = s.toList.all Char.isDigit := by
  rw [utf8Bytes, List.all_flatMap]
  exact congrArg _ (funext all_isAsciiDigit_char)

/-! ### Lengths -/

/-- A length of digits is read alike with a `+` before it. -/
theorem parseUsize_plus {s : String} (h : s.toList.all Char.isDigit = true) :
    parseUsize ("+" ++ s) = parseUsize s := by
  have hhead : s.toList.head? ≠ some '+' := fun hp =>
    absurd (List.all_eq_true.mp h '+' (List.mem_of_head? hp)) (by decide)
  rw [parseUsize, parseUsize, String.toList_append, if_neg hhead]
  rfl

/-- A length is digits, or a `+` and digits. -/
theorem digits_of_parseUsize {s : String} {len : Nat} (h : parseUsize s = some len) :
    s.toList.all Char.isDigit = true ∨
      ∃ t, s = "+" ++ t ∧ t.toList.all Char.isDigit = true ∧ parseUsize t = some len := by
  rw [parseUsize] at h
  by_cases hplus : s.toList.head? = some '+'
  · obtain ⟨cs, hcs⟩ := List.head?_eq_some_iff.mp hplus
    have hs : s = "+" ++ String.ofList cs := by
      have hcs' : (String.ofList cs).toList = cs := String.toList_ofList
      rw [← String.toList_inj, hcs, String.toList_append, hcs']
      rfl
    rw [if_pos hplus, hcs, List.tail_cons] at h
    split at h
    · next hdigits =>
        have hall : (String.ofList cs).toList.all Char.isDigit = true := by
          rw [String.toList_ofList]
          exact hdigits.2.1
        refine .inr ⟨String.ofList cs, hs, hall, ?_⟩
        rw [← parseUsize_plus hall, ← hs, parseUsize, if_pos hplus, hcs, List.tail_cons,
          if_pos hdigits]
        exact h
    · cases h
  · rw [if_neg hplus] at h
    split at h
    · next hdigits => exact .inl hdigits.2.1
    · cases h

theorem parseNetstringLen_eq_ok_iff {raw : Bytes} {len : Nat} :
    parseNetstringLen raw = .ok len ↔
      ∃ s, raw = utf8Bytes s ∧ s.toList.all Char.isDigit = true ∧ parseUsize s = some len := by
  rw [parseNetstringLen]
  constructor
  · intro h
    split at h
    · cases h
    · next hguard =>
        rw [not_or, Bool.not_eq_false] at hguard
        cases htext : fromUtf8 raw with
        | none =>
            rw [htext] at h
            cases h
        | some s =>
            obtain rfl := utf8Bytes_of_fromUtf8 htext
            rw [htext, Option.bind_some] at h
            cases hlen : parseUsize s with
            | none =>
                rw [hlen] at h
                cases h
            | some len' =>
                rw [hlen] at h
                cases h
                exact ⟨s, rfl, by rw [← all_isAsciiDigit, hguard.2], hlen⟩
  · rintro ⟨s, rfl, hall, hlen⟩
    have hne : utf8Bytes s ≠ [] := by
      rintro hnil
      rw [utf8Bytes_eq_nil.mp hnil] at hlen
      cases hlen
    have hdigits : (utf8Bytes s).all isAsciiDigit ≠ false := by
      rw [all_isAsciiDigit, hall]
      exact Bool.false_ne_true.symm
    rw [if_neg (not_or.mpr ⟨hne, hdigits⟩), fromUtf8_utf8Bytes, Option.bind_some, hlen]

/-- **The lengths of responses** are those of requests, and those with a `+` before them. -/
theorem bind_parseUsize_iff {raw : Bytes} {len : Nat} :
    (fromUtf8 raw).bind parseUsize = some len ↔
      parseNetstringLen raw = .ok len ∨
        ∃ digits, raw = PLUS :: digits ∧ parseNetstringLen digits = .ok len := by
  constructor
  · intro h
    obtain ⟨s, htext, hlen⟩ := Option.bind_eq_some_iff.mp h
    obtain rfl := utf8Bytes_of_fromUtf8 htext
    rcases digits_of_parseUsize hlen with hall | ⟨t, rfl, hall, ht⟩
    · exact .inl (parseNetstringLen_eq_ok_iff.mpr ⟨s, rfl, hall, hlen⟩)
    · exact .inr ⟨utf8Bytes t, utf8Bytes_append "+" t,
        parseNetstringLen_eq_ok_iff.mpr ⟨t, rfl, hall, ht⟩⟩
  · rintro (h | ⟨digits, rfl, h⟩)
    · obtain ⟨s, rfl, -, hlen⟩ := parseNetstringLen_eq_ok_iff.mp h
      rw [fromUtf8_utf8Bytes, Option.bind_some, hlen]
    · obtain ⟨s, rfl, hall, hlen⟩ := parseNetstringLen_eq_ok_iff.mp h
      have hplus : PLUS :: utf8Bytes s = utf8Bytes ("+" ++ s) := (utf8Bytes_append "+" s).symm
      rw [hplus, fromUtf8_utf8Bytes, Option.bind_some, parseUsize_plus hall, hlen]

/-- No digit is a colon. -/
theorem colon_notMem_of_parseNetstringLen {raw : Bytes} {len : Nat}
    (h : parseNetstringLen raw = .ok len) : COLON ∉ raw := by
  obtain ⟨s, rfl, hall, -⟩ := parseNetstringLen_eq_ok_iff.mp h
  rw [← all_isAsciiDigit] at hall
  exact fun hmem => absurd (List.all_eq_true.mp hall COLON hmem) (by decide)

/-! ### Both decoders -/

/-- A frame with a `+` before its length, and bytes behind it. -/
def Signed (buf : Bytes) : Prop :=
  ∃ digits item rest, buf = PLUS :: digits ++ COLON :: (item ++ COMMA :: rest) ∧
    parseNetstringLen digits = .ok item.length ∧ digits.length + item.length + 3 ≤ USIZE_MAX

variable {buf : Bytes} {eof : Bool} {max : Nat}

/-- The frame of a `+` is taken off responses, and not off requests. -/
theorem decoders_of_signed (h : Signed buf) : ∃ frame rest,
    deframe buf eof = (some frame, rest) ∧
      deframeLimited buf eof max ≠ (.ok (some frame), rest) := by
  obtain ⟨digits, item, rest, rfl, hlen, hover⟩ := h
  have hcolon : COLON ∉ PLUS :: digits := fun hmem => by
    rcases List.mem_cons.mp hmem with heq | hmem
    · exact absurd heq (by decide)
    · exact colon_notMem_of_parseNetstringLen hlen hmem
  have hlenient := bind_parseUsize_iff.mpr (.inr ⟨digits, rfl, hlen⟩)
  refine ⟨item, rest, ?_, fun hlimited => ?_⟩
  · exact deframe_eq_some_iff.mpr (front_eq_some_iff.mpr
      ⟨PLUS :: digits, rfl, hcolon, hlenient, by rw [List.length_cons]; omega⟩)
  · obtain ⟨pre, hbuf, hpre, hstrict, -, -⟩ := deframeLimited_eq_some_iff.mp hlimited
    -- the first colon is the same, and so is what is before it
    have hpos := position_append hcolon (item ++ COMMA :: rest)
    rw [hbuf, position_append hpre] at hpos
    obtain ⟨rfl, -⟩ := List.append_inj hbuf.symm (Option.some.inj hpos)
    obtain ⟨s, hs, hall, -⟩ := parseNetstringLen_eq_ok_iff.mp hstrict
    rw [← all_isAsciiDigit, ← hs] at hall
    exact absurd (List.all_eq_true.mp hall PLUS List.mem_cons_self) (by decide)

/-- **Both decoders of netstrings take the same frames off** a buffer within the limit, unless a
`+` stands before the length. -/
theorem deframeLimited_iff_deframe (hle : buf.length ≤ max) :
    (∀ frame rest, deframeLimited buf eof max = (.ok (some frame), rest) ↔
      deframe buf eof = (some frame, rest)) ↔ ¬ Signed buf := by
  constructor
  · intro hiff hsigned
    obtain ⟨frame, rest, hlenient, hstrict⟩ := decoders_of_signed hsigned
    exact hstrict ((hiff frame rest).mpr hlenient)
  · intro hsigned frame rest
    rw [deframeLimited_eq_some_iff, deframe_eq_some_iff, front_eq_some_iff]
    constructor
    · rintro ⟨pre, hbuf, hpre, hlen, -, hover⟩
      exact ⟨pre, hbuf, hpre, bind_parseUsize_iff.mpr (.inl hlen), hover⟩
    · rintro ⟨pre, rfl, hpre, hlen, hover⟩
      rcases bind_parseUsize_iff.mp hlen with hstrict | ⟨digits, rfl, hstrict⟩
      · refine ⟨pre, rfl, hpre, hstrict, ?_, hover⟩
        simp only [List.length_append, List.length_cons] at hle
        omega
      · refine absurd ⟨digits, frame, rest, rfl, hstrict, ?_⟩ hsigned
        rw [List.length_cons] at hover
        omega

/-- `3:abc,`. -/
theorem deframeLimited_iff_deframe_abc :
    (∀ frame rest,
      deframeLimited [51, COLON, 97, 98, 99, COMMA] false 6 = (.ok (some frame), rest) ↔
        deframe [51, COLON, 97, 98, 99, COMMA] false = (some frame, rest)) ↔
      ¬ Signed [51, COLON, 97, 98, 99, COMMA] :=
  deframeLimited_iff_deframe (by decide)

/-- `+3:abc,` is a frame of a response and malformed in a request. -/
theorem decoders_of_plus :
    deframeLimited [PLUS, 51, COLON, 97, 98, 99, COMMA] false 7
        = (.error (malformed "netstring length prefix is not decimal"),
          [PLUS, 51, COLON, 97, 98, 99, COMMA]) ∧
      ¬ ∀ frame rest,
        deframeLimited [PLUS, 51, COLON, 97, 98, 99, COMMA] false 7 = (.ok (some frame), rest) ↔
          deframe [PLUS, 51, COLON, 97, 98, 99, COMMA] false = (some frame, rest) := by
  have hstrict : deframeLimited [PLUS, 51, COLON, 97, 98, 99, COMMA] false 7
      = (.error (malformed "netstring length prefix is not decimal"),
        [PLUS, 51, COLON, 97, 98, 99, COMMA]) := by decide
  have hlenient : deframe [PLUS, 51, COLON, 97, 98, 99, COMMA] false
      = (some [97, 98, 99], []) := by decide
  refine ⟨hstrict, fun hiff => ?_⟩
  have hsome := (hiff [97, 98, 99] []).mpr hlenient
  rw [hstrict] at hsome
  cases hsome

end NetstringFraming

end ServantRs
