import ServantRs.Core.HttpData

/-!
# Messages — scalars

* `fromStr_iff`: an integer type reads the decimal texts of its numbers and nothing else: digits
  after an optional sign, the minus for a signed type only, whose value fits.
* `IntType.data_iff`, `bool_iff`, `char_iff`: what a component is read as, exactly.
* `scalars_read_back`: what a scalar is written as is read back.
-/

namespace ServantRs

namespace IntType

variable {t : IntType}

/-! ### Digit by digit -/

/-- A magnitude with its sign. -/
def signed' (negative : Bool) (n : Nat) : Int := if negative then -n else n

/-- What is between zero and a number of the type is one. -/
theorem InRange.of_le {negative : Bool} {m n : Nat} (h : t.InRange (signed' negative n))
    (hle : m ≤ n) : t.InRange (signed' negative m) := by
  obtain ⟨hmin, hmax⟩ := t.inRange_zero
  obtain ⟨hlo, hhi⟩ := h
  have hle : (m : Int) ≤ n := Int.ofNat_le.mpr hle
  cases negative with
  | false =>
      simp only [signed', Bool.false_eq_true, if_false] at hlo hhi ⊢
      exact ⟨Int.le_trans hmin (Int.natCast_nonneg m), Int.le_trans hle hhi⟩
  | true =>
      simp only [signed', if_true] at hlo hhi ⊢
      exact ⟨Int.le_trans hlo (Int.neg_le_neg hle),
        Int.le_trans (Int.neg_nonpos_of_nonneg (Int.natCast_nonneg m)) hmax⟩

/-- One digit more, and it fits. -/
theorem pushDigit_iff {negative : Bool} {acc v : t.Val} {m : Nat} {c : Char}
    (hacc : acc.val = signed' negative m) : t.pushDigit negative acc c = .ok v ↔
      c.isDigit = true ∧ v.val = signed' negative (10 * m + (c.toNat - '0'.toNat)) := by
  have hmul : acc.val * 10 = signed' negative (10 * m) := by
    rw [hacc]
    cases negative
    · simp only [signed', Bool.false_eq_true, if_false]
      omega
    · simp only [signed', if_true]
      omega
  have hadd : ∀ x : Nat, (if negative = true then signed' negative (10 * m) - (x : Int)
      else signed' negative (10 * m) + x) = signed' negative (10 * m + x) := by
    intro x
    cases negative
    · simp only [signed', Bool.false_eq_true, if_false]
      omega
    · simp only [signed', if_true]
      omega
  rw [pushDigit]
  by_cases hdigit : c.isDigit = true
  · rw [if_pos hdigit, hmul]
    by_cases hfits : t.InRange (signed' negative (10 * m + (c.toNat - '0'.toNat)))
    · have hfits' := hfits.of_le (Nat.le_add_right (10 * m) _)
      simp only [checked, dif_pos hfits', hadd, dif_pos hfits, hdigit, true_and]
      constructor
      · intro h
        rw [← Except.ok.inj h]
      · intro h
        exact congrArg Except.ok (Subtype.ext h.symm)
    · have hne : v.val ≠ signed' negative (10 * m + (c.toNat - '0'.toNat)) :=
        fun h => hfits (h ▸ v.property)
      simp only [hne, and_false, iff_false]
      by_cases hfits' : t.InRange (signed' negative (10 * m))
      · simp only [checked, dif_pos hfits', hadd, dif_neg hfits, reduceCtorEq, not_false_eq_true]
      · simp only [checked, dif_neg hfits', reduceCtorEq, not_false_eq_true]
  · rw [if_neg hdigit]
    simp [hdigit]

theorem le_ofDigitChars (cs : List Char) (m : Nat) : m ≤ Nat.ofDigitChars 10 cs m := by
  induction cs generalizing m with
  | nil => simp
  | cons c cs ih =>
      rw [Nat.ofDigitChars_cons]
      exact Nat.le_trans (by omega) (ih _)

/-- **Digits are read as their number**, and only if it fits. -/
theorem pushDigits_iff {negative : Bool} {cs : List Char} {acc v : t.Val} {m : Nat}
    (hacc : acc.val = signed' negative m) : t.pushDigits negative acc cs = .ok v ↔
      (∀ c ∈ cs, c.isDigit = true) ∧ v.val = signed' negative (Nat.ofDigitChars 10 cs m) := by
  induction cs generalizing acc m with
  | nil =>
      rw [pushDigits, Nat.ofDigitChars_nil, ← hacc]
      constructor
      · intro h
        exact ⟨by simp, by rw [Except.ok.inj h]⟩
      · rintro ⟨-, h⟩
        exact congrArg Except.ok (Subtype.ext h.symm)
  | cons c cs ih =>
      rw [pushDigits, Nat.ofDigitChars_cons, List.forall_mem_cons]
      constructor
      · intro h
        split at h
        · next acc' hpush =>
            obtain ⟨hdigit, hval⟩ := (pushDigit_iff hacc).mp hpush
            obtain ⟨hall, hv⟩ := (ih hval).mp h
            exact ⟨⟨hdigit, hall⟩, hv⟩
        · cases h
      · rintro ⟨⟨hdigit, hall⟩, hv⟩
        have hfits : t.InRange (signed' negative (10 * m + (c.toNat - '0'.toNat))) :=
          InRange.of_le (hv ▸ v.property) (le_ofDigitChars cs _)
        have hpush : t.pushDigit negative acc c = .ok ⟨_, hfits⟩ :=
          (pushDigit_iff hacc).mpr ⟨hdigit, rfl⟩
        simp only [hpush]
        exact (ih rfl).mpr ⟨hall, hv⟩

/-! ### Signs -/

/-- A decimal text of a number of the type, as it may be written. -/
inductive Denotes (t : IntType) : List Char → Int → Prop
  | plain {digits : List Char} (hne : digits ≠ []) (h : ∀ c ∈ digits, c.isDigit = true) :
      Denotes t digits (Nat.ofDigitChars 10 digits 0)
  | plus {digits : List Char} (hne : digits ≠ []) (h : ∀ c ∈ digits, c.isDigit = true) :
      Denotes t ('+' :: digits) (Nat.ofDigitChars 10 digits 0)
  | minus {digits : List Char} (hne : digits ≠ []) (h : ∀ c ∈ digits, c.isDigit = true)
      (hsigned : t.signed = true) : Denotes t ('-' :: digits) (-Nat.ofDigitChars 10 digits 0)

theorem denotes_plus {digits : List Char} {n : Int} : t.Denotes ('+' :: digits) n ↔
    digits ≠ [] ∧ (∀ c ∈ digits, c.isDigit = true) ∧
      n = signed' false (Nat.ofDigitChars 10 digits 0) := by
  constructor
  · rintro (⟨-, h⟩ | ⟨hne, h⟩)
    · exact absurd (h '+' List.mem_cons_self) (by decide)
    · exact ⟨hne, h, rfl⟩
  · rintro ⟨hne, h, rfl⟩
    exact .plus hne h

theorem denotes_minus {digits : List Char} {n : Int} : t.Denotes ('-' :: digits) n ↔
    t.signed = true ∧ digits ≠ [] ∧ (∀ c ∈ digits, c.isDigit = true) ∧
      n = signed' true (Nat.ofDigitChars 10 digits 0) := by
  constructor
  · rintro (⟨-, h⟩ | - | ⟨hne, h, hsigned⟩)
    · exact absurd (h '-' List.mem_cons_self) (by decide)
    · exact ⟨hsigned, hne, h, rfl⟩
  · rintro ⟨hsigned, hne, h, rfl⟩
    exact .minus hne h hsigned

theorem denotes_plain {digits : List Char} {n : Int} (hplus : ∀ cs, digits ≠ '+' :: cs)
    (hminus : ∀ cs, digits ≠ '-' :: cs) : t.Denotes digits n ↔
      digits ≠ [] ∧ (∀ c ∈ digits, c.isDigit = true) ∧
        n = signed' false (Nat.ofDigitChars 10 digits 0) := by
  constructor
  · rintro (⟨hne, h⟩ | ⟨hne, h⟩ | ⟨hne, h, hsigned⟩)
    · exact ⟨hne, h, rfl⟩
    · exact absurd rfl (hplus _)
    · exact absurd rfl (hminus _)
  · rintro ⟨hne, h, rfl⟩
    exact .plain hne h

/-- **An integer type reads the decimal texts of its numbers, and nothing else.** -/
theorem fromStr_iff {s : String} {v : t.Val} :
    t.fromStr s = .ok v ↔ t.Denotes s.toList v.val := by
  have hzero : ∀ negative, t.zero.val = signed' negative 0 := by
    intro negative
    cases negative <;> rfl
  rw [fromStr]
  split
  · next h =>
      rw [h, denotes_plain (fun _ => by simp) fun _ => by simp]
      simp
  · next h =>
      rw [h, denotes_plus]
      simp
  · next h =>
      rw [h, denotes_minus]
      simp
  · next digits hne h =>
      have hne : digits ≠ [] := fun hnil => hne (hnil ▸ rfl)
      rw [h, denotes_plus, pushDigits_iff (hzero false)]
      simp [hne]
  · next digits hne h =>
      have hne : digits ≠ [] := fun hnil => hne (hnil ▸ rfl)
      rw [h, denotes_minus]
      split
      · next hsigned =>
          rw [pushDigits_iff (hzero true)]
          simp [hsigned, hne]
      · next hsigned =>
          rw [pushDigits_iff (hzero false), List.forall_mem_cons]
          have hdash : ¬ '-'.isDigit = true := by decide
          simp [hsigned, hdash]
  · next hnil _ _ hplus hminus =>
      have hne : s.toList ≠ [] := hnil
      rw [denotes_plain hplus hminus, pushDigits_iff (hzero false)]
      simp only [hne, ne_eq, not_false_eq_true, true_and]

theorem fromUrlPiece_iff [StrDebug] {s : String} {v : t.Val} :
    t.fromUrlPiece s = .ok v ↔ t.Denotes (trim s).toList v.val := by
  rw [← fromStr_iff, fromUrlPiece]
  cases t.fromStr (trim s) <;> simp

/-- **What a component is read as**: the number that its text denotes, white space around it
dropped. -/
theorem data_iff [StrDebug] {s : String} {v : t.Val} :
    t.data.fromUrlPiece s = .ok v ↔ t.Denotes (trim s).toList v.val := by
  simp only [data, HttpApiData.ofUrlPiece, fromUrlPiece_iff]

/-! ### Written and read -/

theorem not_isWhiteSpace_of_isDigit {c : Char} (h : c.isDigit = true) :
    isWhiteSpace c = false := by
  obtain ⟨hlo, hhi⟩ : 48 ≤ c.toNat ∧ c.toNat ≤ 57 := by
    simpa [Char.isDigit, UInt32.le_iff_toNat_le] using h
  simp only [isWhiteSpace, Bool.or_eq_false_iff, Bool.and_eq_false_iff, decide_eq_false_iff_not]
  omega

theorem solid_of_digits {cs : List Char} (hne : cs ≠ [])
    (h : ∀ c ∈ cs, isWhiteSpace c = false) : Solid (String.ofList cs) where
  head := by
    obtain ⟨c, cs', rfl⟩ := List.exists_cons_of_ne_nil hne
    exact ⟨c, cs', String.toList_ofList, h c List.mem_cons_self⟩
  last c hc := by
    rw [String.toList_ofList] at hc
    exact h c (List.mem_of_getLast? hc)

theorem isDigit_of_mem_toDigits {n : Nat} {c : Char} (h : c ∈ Nat.toDigits 10 n) :
    c.isDigit = true := Nat.isDigit_of_mem_toDigits (by decide) (by decide) h

/-- The text of a number denotes it, and has no white space to drop. -/
theorem denotes_repr (v : t.Val) : t.Denotes v.val.repr.toList v.val ∧ Solid v.val.repr := by
  obtain ⟨n, hlo, hhi⟩ := v
  simp only
  rw [Int.repr_eq_if]
  by_cases hn : 0 ≤ n
  · rw [if_pos hn, Nat.toList_repr]
    have hden := Denotes.plain (t := t) Nat.toDigits_ne_nil
      fun c (hc : c ∈ Nat.toDigits 10 n.toNat) => isDigit_of_mem_toDigits hc
    rw [Nat.ofDigitChars_ten_toDigits, Int.toNat_of_nonneg hn] at hden
    exact ⟨hden, solid_of_digits Nat.toDigits_ne_nil fun c hc =>
      not_isWhiteSpace_of_isDigit (isDigit_of_mem_toDigits hc)⟩
  · have hsigned : t.signed = true := by
      by_contra hs
      rw [min, if_neg hs] at hlo
      exact hn hlo
    have hneg : 0 ≤ -n := by omega
    have hlist : ("-" ++ (-n).toNat.repr).toList = '-' :: Nat.toDigits 10 (-n).toNat := by
      rw [String.toList_append, Nat.toList_repr]
      rfl
    rw [if_neg hn, hlist]
    have hden := Denotes.minus (t := t) Nat.toDigits_ne_nil
      (fun c (hc : c ∈ Nat.toDigits 10 (-n).toNat) => isDigit_of_mem_toDigits hc) hsigned
    rw [Nat.ofDigitChars_ten_toDigits, Int.toNat_of_nonneg hneg, Int.neg_neg] at hden
    refine ⟨hden, ?_⟩
    rw [← String.ofList_toList (s := "-" ++ (-n).toNat.repr), hlist]
    refine solid_of_digits (List.cons_ne_nil _ _) fun c hc => ?_
    rcases List.mem_cons.mp hc with rfl | hc
    · decide
    · exact not_isWhiteSpace_of_isDigit (isDigit_of_mem_toDigits hc)

end IntType

/-- A type that reads back what it writes, in every component. -/
structure HttpApiData.ReadsBack {A : Type} (data : HttpApiData A) : Prop where
  urlPiece : ∀ a, data.fromUrlPiece (data.toUrlPiece a) = .ok a
  queryParam : ∀ a, data.fromQueryParam (data.toQueryParam a) = .ok a
  header : ∀ a, data.fromHeader (data.toHeader a) = .ok a

theorem HttpApiData.ReadsBack.ofUrlPiece {A : Type} {name : String} {write : A → String}
    {read : String → Except ParseError A} (h : ∀ a, read (write a) = .ok a) :
    (HttpApiData.ofUrlPiece name write read).ReadsBack := ⟨h, h, h⟩

/-- **Every scalar is read back**: strings, characters, booleans and the integers of every width. -/
theorem scalars_read_back [StrDebug] : HttpApiData.string.ReadsBack ∧ HttpApiData.char.ReadsBack ∧
    HttpApiData.bool.ReadsBack ∧ ∀ t : IntType, t.data.ReadsBack := by
  refine ⟨.ofUrlPiece fun s => rfl, .ofUrlPiece fun c => ?_, .ofUrlPiece fun b => ?_,
    fun t => .ofUrlPiece fun v => ?_⟩
  · simp
  · cases b <;> rfl
  · obtain ⟨hden, hsolid⟩ := IntType.denotes_repr v
    rw [IntType.fromUrlPiece_iff, trim_of_solid hsolid]
    exact hden

end ServantRs
