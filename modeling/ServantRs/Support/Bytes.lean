import Mathlib.Algebra.Ring.Nat
import ServantRs.Support.Text

/-!
# Support — bytes and machine words

Looking a byte up in a buffer (`position`), the arithmetic of a 64-bit `usize`, and the decimal
text of a number read back (`parseUsize_repr`).  In the UTF-8 of a text an ASCII byte stands for
its character and for nothing else (`mem_utf8Bytes_iff`).
-/

namespace ServantRs

/-! ### Looking a byte up -/

/-- The index of the first `b`. -/
def position (b : UInt8) (buf : List UInt8) : Option Nat := buf.idxOf? b

theorem position_eq_none {b : UInt8} {buf : List UInt8} : position b buf = none ↔ b ∉ buf :=
  List.idxOf?_eq_none_iff

theorem position_append {b : UInt8} {pre : List UInt8} (h : b ∉ pre) (post : List UInt8) :
    position b (pre ++ b :: post) = some pre.length := by
  induction pre with
  | nil =>
      rw [position, List.nil_append, List.idxOf?_cons, if_pos (beq_self_eq_true b)]
      rfl
  | cons x pre ih =>
      rw [List.mem_cons, not_or] at h
      have hx : (x == b) = false := beq_eq_false_iff_ne.mpr (Ne.symm h.1)
      rw [position, List.cons_append, List.idxOf?_cons, hx, ← position, ih h.2]
      rfl

/-- A buffer is cut at the first `b`. -/
theorem exists_of_position {b : UInt8} {buf : List UInt8} {i : Nat}
    (h : position b buf = some i) :
    ∃ pre post, buf = pre ++ b :: post ∧ b ∉ pre ∧ i = pre.length := by
  obtain ⟨hi, hb, hbefore⟩ := List.idxOf?_eq_some_iff.mp h
  refine ⟨buf.take i, buf.drop (i + 1), ?_, fun hmem => ?_, ?_⟩
  · rw [← hb, List.getElem_cons_drop, List.take_append_drop]
  · obtain ⟨j, hj, hbj⟩ := List.getElem_of_mem hmem
    rw [List.length_take] at hj
    rw [List.getElem_take] at hbj
    exact hbefore j (by omega) hbj
  · rw [List.length_take]
    omega

/-! ### Machine words -/

/-- `usize::MAX` of a 64-bit machine. -/
def USIZE_MAX : Nat := 2 ^ 64 - 1

/-- `usize::checked_add`. -/
def checkedAdd (a b : Nat) : Option Nat := if a + b ≤ USIZE_MAX then some (a + b) else none

/-- `str::parse::<usize>`: decimal digits after an optional `+`. -/
def parseUsize (s : String) : Option Nat :=
  let digits := if s.toList.head? = some '+' then s.toList.tail else s.toList
  if digits ≠ [] ∧ digits.all Char.isDigit ∧ Nat.ofDigitChars 10 digits 0 ≤ USIZE_MAX then
    some (Nat.ofDigitChars 10 digits 0)
  else none

/-- A number is what its decimal text is read as. -/
theorem parseUsize_repr {n : Nat} (h : n ≤ USIZE_MAX) : parseUsize n.repr = some n := by
  have hdigit : ∀ c ∈ Nat.toDigits 10 n, c.isDigit :=
    fun c hc => Nat.isDigit_of_mem_toDigits (by decide) (by decide) hc
  have hplus : (Nat.toDigits 10 n).head? ≠ some '+' := fun hp =>
    absurd (hdigit '+' (List.mem_of_head? hp)) (by decide)
  rw [parseUsize, Nat.toList_repr]
  rw [if_neg hplus, if_pos, Nat.ofDigitChars_ten_toDigits]
  refine ⟨Nat.toDigits_ne_nil, List.all_eq_true.mpr hdigit, ?_⟩
  rwa [Nat.ofDigitChars_ten_toDigits]

/-! ### UTF-8 -/

theorem utf8EncodeChar_of_lt {c : Char} (h : c.toNat < 128) :
    String.utf8EncodeChar c = [UInt8.ofNat c.toNat] := by
  have hle : c.val.toNat ≤ 127 := Nat.le_of_lt_succ h
  rw [String.utf8EncodeChar]
  exact if_pos hle

/-- A character outside ASCII has no ASCII byte. -/
theorem le_of_mem_utf8EncodeChar {c : Char} (h : 128 ≤ c.toNat) {b : UInt8}
    (hb : b ∈ String.utf8EncodeChar c) : 128 ≤ b.toNat := by
  have hlt : ¬ c.val.toNat ≤ 127 := Nat.not_le.mpr h
  have hbyte : ∀ n, 128 ≤ n → n < 256 → 128 ≤ (UInt8.ofNat n).toNat := by
    intro n h128 h256
    rw [UInt8.toNat_ofNat']
    omega
  rw [String.utf8EncodeChar] at hb
  simp only [if_neg hlt] at hb
  split at hb
  · simp only [List.mem_cons, List.not_mem_nil, or_false] at hb
    rcases hb with rfl | rfl
    · exact hbyte _ (by omega) (by omega)
    · exact hbyte _ (by omega) (by omega)
  · split at hb
    · simp only [List.mem_cons, List.not_mem_nil, or_false] at hb
      rcases hb with rfl | rfl | rfl
      · exact hbyte _ (by omega) (by omega)
      · exact hbyte _ (by omega) (by omega)
      · exact hbyte _ (by omega) (by omega)
    · simp only [List.mem_cons, List.not_mem_nil, or_false] at hb
      rcases hb with rfl | rfl | rfl | rfl
      · exact hbyte _ (by omega) (by omega)
      · exact hbyte _ (by omega) (by omega)
      · exact hbyte _ (by omega) (by omega)
      · exact hbyte _ (by omega) (by omega)

/-- An ASCII byte stands for its character. -/
theorem mem_utf8Bytes_iff {c : Char} (hc : c.toNat < 128) {s : String} :
    UInt8.ofNat c.toNat ∈ utf8Bytes s ↔ c ∈ s.toList := by
  have hbyte : (UInt8.ofNat c.toNat).toNat = c.toNat := by
    rw [UInt8.toNat_ofNat']
    omega
  rw [utf8Bytes, List.mem_flatMap]
  constructor
  · rintro ⟨d, hd, hmem⟩
    by_cases hd128 : d.toNat < 128
    · rw [utf8EncodeChar_of_lt hd128, List.mem_singleton] at hmem
      have hnat := congrArg UInt8.toNat hmem
      rw [hbyte, UInt8.toNat_ofNat', Nat.mod_eq_of_lt (by omega)] at hnat
      rwa [Char.toNat_inj.mp hnat]
    · have hle := le_of_mem_utf8EncodeChar (Nat.not_lt.mp hd128) hmem
      omega
  · intro hmem
    exact ⟨c, hmem, by rw [utf8EncodeChar_of_lt hc]; exact List.mem_singleton_self _⟩

/-- A byte of ASCII is the first of a character only where it stands for it. -/
theorem eq_of_cons_prefix_utf8EncodeChar {c d : Char} (hc : c.toNat < 128) {bs bs' : List UInt8}
    (h : String.utf8EncodeChar c ++ bs <+: String.utf8EncodeChar d ++ bs') :
    c = d ∧ bs <+: bs' := by
  rw [utf8EncodeChar_of_lt hc, List.singleton_append] at h
  have hbyte : (UInt8.ofNat c.toNat).toNat = c.toNat := by
    rw [UInt8.toNat_ofNat']
    omega
  by_cases hd : d.toNat < 128
  · rw [utf8EncodeChar_of_lt hd, List.singleton_append, List.cons_prefix_cons] at h
    have hnat := congrArg UInt8.toNat h.1
    rw [hbyte, UInt8.toNat_ofNat', Nat.mod_eq_of_lt (by omega)] at hnat
    exact ⟨Char.toNat_inj.mp hnat, h.2⟩
  · obtain ⟨b, tl, hb⟩ := List.exists_cons_of_ne_nil (String.utf8EncodeChar_ne_nil (c := d))
    rw [hb, List.cons_append, List.cons_prefix_cons] at h
    have hle := le_of_mem_utf8EncodeChar (Nat.not_lt.mp hd) (hb ▸ List.mem_cons_self)
    rw [← h.1] at hle
    omega

theorem prefix_of_utf8 : ∀ {m cs : List Char}, (∀ c ∈ m, c.toNat < 128) →
    m.flatMap String.utf8EncodeChar <+: cs.flatMap String.utf8EncodeChar → m <+: cs
  | [], _, _, _ => List.nil_prefix
  | c :: m, [], hm, h => by
      have hnil := List.prefix_nil.mp h
      rw [List.flatMap_cons, utf8EncodeChar_of_lt (hm c List.mem_cons_self)] at hnil
      cases hnil
  | c :: m, d :: cs, hm, h => by
      obtain ⟨rfl, htail⟩ := eq_of_cons_prefix_utf8EncodeChar (hm c List.mem_cons_self) h
      exact List.cons_prefix_cons.mpr
        ⟨rfl, prefix_of_utf8 (fun x hx => hm x (List.mem_cons_of_mem _ hx)) htail⟩

/-- No byte of a character but its first one is ASCII. -/
theorem exists_utf8EncodeChar {c : Char} (hc : c.toNat < 128) (d : Char) :
    ∃ b tl, String.utf8EncodeChar d = b :: tl ∧ ∀ x ∈ tl, x ≠ UInt8.ofNat c.toNat := by
  obtain ⟨b, tl, hb⟩ := List.exists_cons_of_ne_nil (String.utf8EncodeChar_ne_nil (c := d))
  refine ⟨b, tl, hb, ?_⟩
  rintro x hx rfl
  by_cases hd : d.toNat < 128
  · rw [utf8EncodeChar_of_lt hd] at hb
    cases hb
    cases hx
  · have hle := le_of_mem_utf8EncodeChar (Nat.not_lt.mp hd) (hb ▸ List.mem_cons_of_mem b hx)
    rw [UInt8.toNat_ofNat'] at hle
    omega

/-- What begins with no byte of the front is in what is behind it. -/
theorem infix_of_infix_append {c : UInt8} {m bs bs' : List UInt8} (hbs : ∀ b ∈ bs, b ≠ c)
    (h : c :: m <:+: bs ++ bs') : c :: m <:+: bs' := by
  induction bs with
  | nil => exact h
  | cons b bs ih =>
      rcases List.infix_cons_iff.mp h with hp | hi
      · exact absurd (List.cons_prefix_cons.mp hp).1.symm (hbs b List.mem_cons_self)
      · exact ih (fun x hx => hbs x (List.mem_cons_of_mem _ hx)) hi

/-- **ASCII text is in the UTF-8 of a text where it is in the text.** -/
theorem infix_utf8_iff {m : List Char} (hm : ∀ c ∈ m, c.toNat < 128) {cs : List Char} :
    m.flatMap String.utf8EncodeChar <:+: cs.flatMap String.utf8EncodeChar ↔ m <:+: cs := by
  constructor
  · intro h
    induction cs with
    | nil =>
        have hnil : m.flatMap String.utf8EncodeChar = [] := List.infix_nil.mp h
        exact (prefix_of_utf8 hm (hnil ▸ List.nil_prefix)).isInfix
    | cons d cs ih =>
        cases m with
        | nil => exact List.nil_infix
        | cons c m =>
            have hc := hm c List.mem_cons_self
            have hchar : (c :: m).flatMap String.utf8EncodeChar
                = UInt8.ofNat c.toNat :: m.flatMap String.utf8EncodeChar := by
              rw [List.flatMap_cons, utf8EncodeChar_of_lt hc, List.singleton_append]
            obtain ⟨b, tl, hb, htl⟩ := exists_utf8EncodeChar hc d
            rw [hchar, List.flatMap_cons, hb, List.cons_append] at h
            -- it begins with the first byte of `d`, or behind its last one
            rcases List.infix_cons_iff.mp h with hp | hi
            · rw [← hchar, ← List.cons_append, ← hb, ← List.flatMap_cons] at hp
              exact (prefix_of_utf8 hm hp).isInfix
            · rw [← hchar] at hi
              exact (ih (hchar ▸ infix_of_infix_append htl (hchar ▸ hi))).trans
                (List.suffix_cons d cs).isInfix
  · rintro ⟨front, back, rfl⟩
    rw [List.flatMap_append, List.flatMap_append]
    exact ⟨_, _, rfl⟩

theorem utf8Bytes_append (s t : String) : utf8Bytes (s ++ t) = utf8Bytes s ++ utf8Bytes t := by
  rw [utf8Bytes, String.toList_append, List.flatMap_append, ← utf8Bytes, ← utf8Bytes]

theorem utf8Bytes_eq_nil {s : String} : utf8Bytes s = [] ↔ s = "" := by
  constructor
  · intro h
    have hread := fromUtf8_utf8Bytes s
    rw [h] at hread
    exact (Option.some.inj hread).symm
  · rintro rfl
    rfl

end ServantRs
