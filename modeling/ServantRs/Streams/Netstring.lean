import ServantRs.Streams.Stable

/-!
# Streams — netstrings

Both decoders of netstrings cut the buffer at the first colon and read the length before it.

* `front_eq_some_iff`, `deframeLimited_eq_some_iff`: the buffers an item is taken off, by their
  parts.
* `stable`, `stableWithin`: an item that is there stays there, and so does what is wrong.
-/

namespace ServantRs

open Framing

namespace NetstringFraming

theorem checkedAdd_of_le {a b : Nat} (h : a + b ≤ USIZE_MAX) : checkedAdd a b = some (a + b) :=
  if_pos h

theorem checkedAdd_of_not_le {a b : Nat} (h : ¬ a + b ≤ USIZE_MAX) : checkedAdd a b = none :=
  if_neg h

/-- The bounds of an item behind its prefix, when none of them overflows. -/
theorem bind_checkedAdd {A : Type} (colon len : Nat) (f : Nat → Nat → Nat → Option A) :
    (do let dataStart ← checkedAdd colon 1
        let dataEnd ← checkedAdd dataStart len
        let total ← checkedAdd dataEnd 1
        f dataStart dataEnd total)
      = if colon + 1 + len + 1 ≤ USIZE_MAX then
          f (colon + 1) (colon + 1 + len) (colon + 1 + len + 1)
        else none := by
  by_cases h₁ : colon + 1 ≤ USIZE_MAX
  · rw [checkedAdd_of_le h₁]
    show (checkedAdd (colon + 1) len >>= _) = _
    by_cases h₂ : colon + 1 + len ≤ USIZE_MAX
    · rw [checkedAdd_of_le h₂]
      show (checkedAdd (colon + 1 + len) 1 >>= _) = _
      by_cases h₃ : colon + 1 + len + 1 ≤ USIZE_MAX
      · rw [checkedAdd_of_le h₃, if_pos h₃]
        rfl
      · rw [checkedAdd_of_not_le h₃, if_neg h₃]
        rfl
    · rw [checkedAdd_of_not_le h₂, if_neg (by omega)]
      rfl
  · rw [checkedAdd_of_not_le h₁, if_neg (by omega)]
    rfl

theorem addOrMalformed_of_le {a b : Nat} (h : a + b ≤ USIZE_MAX) :
    addOrMalformed a b = .ok (a + b) := by
  rw [addOrMalformed, checkedAdd, if_pos h]

theorem addOrMalformed_of_not_le {a b : Nat} (h : ¬ a + b ≤ USIZE_MAX) :
    addOrMalformed a b = .error (malformed "netstring length overflow") := by
  rw [addOrMalformed, checkedAdd, if_neg h]

theorem bind_addOrMalformed {A : Type} (colon len : Nat)
    (f : Nat → Nat → Nat → Except StreamBodyError A) :
    (do let dataStart ← addOrMalformed colon 1
        let dataEnd ← addOrMalformed dataStart len
        let total ← addOrMalformed dataEnd 1
        f dataStart dataEnd total)
      = if colon + 1 + len + 1 ≤ USIZE_MAX then
          f (colon + 1) (colon + 1 + len) (colon + 1 + len + 1)
        else .error (malformed "netstring length overflow") := by
  by_cases h₁ : colon + 1 ≤ USIZE_MAX
  · rw [addOrMalformed_of_le h₁]
    show (addOrMalformed (colon + 1) len >>= _) = _
    by_cases h₂ : colon + 1 + len ≤ USIZE_MAX
    · rw [addOrMalformed_of_le h₂]
      show (addOrMalformed (colon + 1 + len) 1 >>= _) = _
      by_cases h₃ : colon + 1 + len + 1 ≤ USIZE_MAX
      · rw [addOrMalformed_of_le h₃, if_pos h₃]
        rfl
      · rw [addOrMalformed_of_not_le h₃, if_neg h₃]
        rfl
    · rw [addOrMalformed_of_not_le h₂, if_neg (by omega)]
      rfl
  · rw [addOrMalformed_of_not_le h₁, if_neg (by omega)]
    rfl

section data

variable (pre post : Bytes) (len : Nat)

theorem length_lt_total :
    (pre ++ COLON :: post).length < pre.length + 1 + len + 1 ↔ post.length < len + 1 := by
  rw [List.length_append, List.length_cons]
  omega

theorem getElem?_dataEnd : (pre ++ COLON :: post)[pre.length + 1 + len]? = post[len]? := by
  have hsum : pre.length + 1 + len - pre.length = len + 1 := by omega
  rw [List.getElem?_append_right (by omega), hsum, List.getElem?_cons_succ]

theorem take_drop_data :
    ((pre ++ COLON :: post).take (pre.length + 1 + len)).drop (pre.length + 1) = post.take len := by
  have htake : (pre ++ COLON :: post).take (pre.length + 1 + len)
      = pre ++ [COLON] ++ post.take len := by
    rw [Nat.add_assoc, List.take_length_add_append, Nat.add_comm 1 len, List.take_succ_cons,
      List.append_assoc, List.singleton_append]
  have hlen : (pre ++ [COLON]).length = pre.length + 1 := by
    rw [List.length_append, List.length_singleton]
  rw [htake, ← hlen, List.drop_left]

theorem drop_total :
    (pre ++ COLON :: post).drop (pre.length + 1 + len + 1) = post.drop (len + 1) := by
  have hsum : pre.length + 1 + len + 1 = pre.length + (len + 1 + 1) := by omega
  rw [hsum, List.drop_length_add_append, List.drop_succ_cons]

end data

/-- An item of a length and the comma behind it are there. -/
theorem split_of_getElem? {post : Bytes} {len : Nat} (h : post[len]? = some COMMA) :
    post = post.take len ++ COMMA :: post.drop (len + 1) ∧ (post.take len).length = len := by
  obtain ⟨hlt, hcomma⟩ := List.getElem?_eq_some_iff.mp h
  refine ⟨?_, List.length_take_of_le (Nat.le_of_lt hlt)⟩
  rw [← hcomma, List.getElem_cons_drop, List.take_append_drop]

theorem getElem?_item (item rest : Bytes) :
    (item ++ COMMA :: rest)[item.length]? = some COMMA := by
  rw [List.getElem?_append_right (Nat.le_refl _), Nat.sub_self, List.getElem?_cons_zero]

theorem length_item_lt (item rest : Bytes) : item.length + 1 ≤ (item ++ COMMA :: rest).length := by
  rw [List.length_append, List.length_cons]
  omega

/-- The item behind a length prefix. -/
theorem front_append {pre : Bytes} (h : COLON ∉ pre) (post : Bytes) :
    front (pre ++ COLON :: post) = (fromUtf8 pre).bind fun text => (parseUsize text).bind fun len =>
      if pre.length + 1 + len + 1 ≤ USIZE_MAX then
        if post.length < len + 1 then none
        else if post[len]? ≠ some COMMA then none
        else some (post.take len, post.drop (len + 1))
      else none := by
  have htake : (pre ++ COLON :: post).take pre.length = pre := List.take_left
  show (position COLON (pre ++ COLON :: post)).bind _ = _
  rw [position_append h, Option.bind_some]
  show (fromUtf8 ((pre ++ COLON :: post).take pre.length)).bind _ = _
  rw [htake]
  congr 1
  funext text
  show (parseUsize text).bind _ = _
  congr 1
  funext len
  refine (bind_checkedAdd pre.length len _).trans ?_
  simp only [length_lt_total, getElem?_dataEnd, take_drop_data, drop_total]

/-- **The buffers a netstring is taken off**, before the end of the body and at it. -/
theorem front_eq_some_iff {buf item rest : Bytes} :
    front buf = some (item, rest) ↔
      ∃ pre, buf = pre ++ COLON :: (item ++ COMMA :: rest) ∧ COLON ∉ pre ∧
        (fromUtf8 pre).bind parseUsize = some item.length ∧
        pre.length + item.length + 2 ≤ USIZE_MAX := by
  constructor
  · intro h
    obtain ⟨colon, hcolon, -⟩ := Option.bind_eq_some_iff.mp h
    obtain ⟨pre, post, rfl, hpre, -⟩ := exists_of_position hcolon
    rw [front_append hpre] at h
    obtain ⟨text, htext, h⟩ := Option.bind_eq_some_iff.mp h
    obtain ⟨len, hlen, h⟩ := Option.bind_eq_some_iff.mp h
    split at h
    · next hmax =>
        split at h
        · cases h
        · split at h
          · cases h
          · next hcomma =>
              cases h
              obtain ⟨hpost, hitem⟩ := split_of_getElem? (Decidable.of_not_not hcomma)
              refine ⟨pre, by rw [← hpost], hpre, ?_, by omega⟩
              rw [htext, Option.bind_some, hlen, hitem]
    · cases h
  · rintro ⟨pre, rfl, hpre, hlen, hmax⟩
    obtain ⟨text, htext, hlen⟩ := Option.bind_eq_some_iff.mp hlen
    have hcomma := getElem?_item item rest
    have hlong := Nat.not_lt.mpr (length_item_lt item rest)
    rw [front_append hpre, htext, Option.bind_some, hlen, Option.bind_some, if_pos (by omega),
      if_neg hlong, if_neg (not_not.mpr hcomma), List.take_left, List.drop_length_add_append,
      List.drop_one, List.tail_cons]

theorem deframe_eq_some_iff {buf item rest : Bytes} {eof : Bool} :
    deframe buf eof = (some item, rest) ↔ front buf = some (item, rest) := by
  rw [deframe]
  rcases front buf with _ | ⟨item', rest'⟩
  · simp
  · simp

theorem stable : Stable deframe where
  rest_of_none {buf eof rest} h := by
    rcases hf : front buf with _ | ⟨item', rest'⟩
    · rw [deframe, hf] at h
      cases h
      rfl
    · rw [deframe, hf] at h
      cases h
  shrinks h := by
    obtain ⟨pre, rfl, -⟩ := front_eq_some_iff.mp (deframe_eq_some_iff.mp h)
    simp only [List.length_append, List.length_cons]
    omega
  frame_le h := by
    obtain ⟨pre, rfl, -⟩ := front_eq_some_iff.mp (deframe_eq_some_iff.mp h)
    simp only [List.length_append, List.length_cons]
    omega
  append {buf more frame rest} h := by
    obtain ⟨pre, rfl, hpre, hlen, hmax⟩ := front_eq_some_iff.mp (deframe_eq_some_iff.mp h)
    refine deframe_eq_some_iff.mpr (front_eq_some_iff.mpr ⟨pre, ?_, hpre, hlen, hmax⟩)
    simp

end NetstringFraming

/-! ### Netstrings of requests -/

namespace NetstringFraming

/-- An item of a length before a comma, behind a prefix of a length. -/
def dataWithin (colon len : Nat) (post : Bytes) (eof : Bool) (max : Nat) :
    Except StreamBodyError (Option (Bytes × Bytes)) :=
  if max < len then .error (.frameTooLarge max)
  else if colon + 1 + len + 1 ≤ USIZE_MAX then
    if post.length < len + 1 then
      if eof then .error (.malformedFrame "incomplete netstring frame") else .ok none
    else if post[len]? ≠ some COMMA then
      .error (.malformedFrame "netstring frame is missing trailing comma")
    else .ok (some (post.take len, post.drop (len + 1)))
  else .error (malformed "netstring length overflow")

theorem itemAfter_append (pre post : Bytes) (eof : Bool) (max : Nat) :
    itemAfter pre.length (pre ++ COLON :: post) eof max = (do
      let len ← parseNetstringLen pre
      dataWithin pre.length len post eof max) := by
  have htake : (pre ++ COLON :: post).take pre.length = pre := List.take_left
  rw [itemAfter, htake]
  congr 1
  funext len
  rw [dataWithin]
  congr 1
  refine (bind_addOrMalformed pre.length len _).trans ?_
  simp only [length_lt_total, getElem?_dataEnd, take_drop_data, drop_total]

/-- The data an item is taken off. -/
theorem dataWithin_eq_some_iff {colon len max : Nat} {post item rest : Bytes} {eof : Bool} :
    dataWithin colon len post eof max = .ok (some (item, rest)) ↔
      post = item ++ COMMA :: rest ∧ item.length = len ∧ len ≤ max ∧
        colon + 1 + len + 1 ≤ USIZE_MAX := by
  rw [dataWithin]
  constructor
  · intro h
    split at h
    · cases h
    · next hmax =>
        split at h
        · next hover =>
            split at h
            · split at h
              · cases h
              · cases h
            · split at h
              · cases h
              · next hcomma =>
                  cases h
                  obtain ⟨hpost, hitem⟩ := split_of_getElem? (Decidable.of_not_not hcomma)
                  exact ⟨hpost, hitem, by omega, hover⟩
        · cases h
  · rintro ⟨rfl, rfl, hmax, hover⟩
    have hcomma := getElem?_item item rest
    have hlong := Nat.not_lt.mpr (length_item_lt item rest)
    rw [if_neg (by omega), if_pos hover, if_neg hlong, if_neg (not_not.mpr hcomma), List.take_left,
      List.drop_length_add_append, List.drop_one, List.tail_cons]

/-- What is wrong with data stays wrong. -/
theorem dataWithin_append_error {colon len max : Nat} {post more : Bytes} {e : StreamBodyError}
    (h : dataWithin colon len post false max = .error e) :
    dataWithin colon len (post ++ more) false max = .error e := by
  rw [dataWithin] at h ⊢
  split at h
  · next hmax => rwa [if_pos hmax]
  · next hmax =>
      rw [if_neg hmax]
      split at h
      · next hover =>
          rw [if_pos hover]
          split at h
          · cases h
          · next hlong =>
              split at h
              · next hcomma =>
                  have hlt : len < post.length := by omega
                  rw [if_neg (by rw [List.length_append]; omega), List.getElem?_append_left hlt,
                    if_pos hcomma]
                  exact h
              · cases h
      · next hover => rwa [if_neg hover]

variable {buf rest : Bytes} {eof : Bool} {max : Nat}

theorem deframeLimited_of_notMem (h : COLON ∉ buf) (hle : buf.length ≤ max) :
    deframeLimited buf false max = (.ok none, buf) := by
  rw [deframeLimited, position_eq_none.mpr h]
  show (if max < buf.length then _ else _) = _
  rw [if_neg (Nat.not_lt.mpr hle)]
  exact if_neg fun he => Bool.false_ne_true he.1

/-- A frame of a request, behind its prefix. -/
theorem deframeLimited_append {pre : Bytes} (h : COLON ∉ pre) (post : Bytes) :
    deframeLimited (pre ++ COLON :: post) eof max = takeOff (pre ++ COLON :: post) (do
      let len ← parseNetstringLen pre
      dataWithin pre.length len post eof max) := by
  rw [deframeLimited, position_append h]
  exact congrArg (takeOff _) (itemAfter_append pre post eof max)

theorem takeOff_eq_some_iff {found : Except StreamBodyError (Option (Bytes × Bytes))}
    {item : Bytes} :
    takeOff buf found = (.ok (some item), rest) ↔ found = .ok (some (item, rest)) := by
  rcases found with e | _ | ⟨item', rest'⟩
  · simp [takeOff]
  · simp [takeOff]
  · simp [takeOff]

theorem takeOff_eq_none {found : Except StreamBodyError (Option (Bytes × Bytes))}
    (h : takeOff buf found = (.ok none, rest)) : rest = buf := by
  rcases found with e | _ | ⟨item', rest'⟩
  · cases h
  · cases h
    rfl
  · cases h

theorem takeOff_eq_error {found : Except StreamBodyError (Option (Bytes × Bytes))}
    {e : StreamBodyError} (h : takeOff buf found = (.error e, rest)) :
    found = .error e ∧ rest = buf := by
  rcases found with e' | _ | ⟨item', rest'⟩
  · cases h
    exact ⟨rfl, rfl⟩
  · cases h
  · cases h

/-- **The buffers a netstring of a request is taken off.** -/
theorem deframeLimited_eq_some_iff {item : Bytes} :
    deframeLimited buf eof max = (.ok (some item), rest) ↔
      ∃ pre, buf = pre ++ COLON :: (item ++ COMMA :: rest) ∧ COLON ∉ pre ∧
        parseNetstringLen pre = .ok item.length ∧ item.length ≤ max ∧
        pre.length + item.length + 2 ≤ USIZE_MAX := by
  constructor
  · intro h
    cases hp : position COLON buf with
    | none =>
        rw [deframeLimited, hp] at h
        dsimp only at h
        split at h
        · cases h
        · split at h
          · cases h
          · cases h
    | some colon =>
        obtain ⟨pre, post, rfl, hpre, -⟩ := exists_of_position hp
        rw [deframeLimited_append hpre, takeOff_eq_some_iff] at h
        cases hlen : parseNetstringLen pre with
        | error e =>
            rw [hlen] at h
            cases h
        | ok len =>
            rw [hlen] at h
            obtain ⟨rfl, rfl, hmax, hover⟩ := dataWithin_eq_some_iff.mp h
            exact ⟨pre, rfl, hpre, hlen, hmax, by omega⟩
  · rintro ⟨pre, rfl, hpre, hlen, hmax, hover⟩
    rw [deframeLimited_append hpre, takeOff_eq_some_iff, hlen]
    exact dataWithin_eq_some_iff.mpr ⟨rfl, rfl, hmax, by omega⟩

/-- What is wrong with a netstring, within the limit: its prefix, or the data behind it. -/
theorem deframeLimited_append_error {more : Bytes} {e : StreamBodyError}
    (hle : (buf ++ more).length ≤ max) (h : deframeLimited buf false max = (.error e, rest)) :
    deframeLimited (buf ++ more) false max = (.error e, rest ++ more) := by
  cases hp : position COLON buf with
  | none =>
      rw [List.length_append] at hle
      rw [deframeLimited_of_notMem (position_eq_none.mp hp) (by omega)] at h
      cases h
  | some colon =>
      obtain ⟨pre, post, rfl, hpre, -⟩ := exists_of_position hp
      rw [deframeLimited_append hpre] at h
      obtain ⟨he, rfl⟩ := takeOff_eq_error h
      have hjoin : pre ++ COLON :: post ++ more = pre ++ COLON :: (post ++ more) := by simp
      rw [hjoin, deframeLimited_append hpre]
      cases hlen : parseNetstringLen pre with
      | error e' =>
          rw [hlen] at he
          cases he
          rfl
      | ok len =>
          rw [hlen] at he
          have hmore : dataWithin pre.length len (post ++ more) false max = .error e :=
            dataWithin_append_error he
          exact congrArg (takeOff _) hmore

theorem stableWithin (max : Nat) : StableWithin deframeLimited max where
  rest_of_none {buf eof rest} h := by
    cases hp : position COLON buf with
    | none =>
        rw [deframeLimited, hp] at h
        dsimp only at h
        split at h
        · cases h
        · split at h
          · cases h
          · cases h
            rfl
    | some colon =>
        rw [deframeLimited, hp] at h
        exact takeOff_eq_none h
  shrinks h := by
    obtain ⟨pre, rfl, -⟩ := deframeLimited_eq_some_iff.mp h
    simp only [List.length_append, List.length_cons]
    omega
  append {buf more frame rest} _ h := by
    obtain ⟨pre, rfl, hpre, hlen, hmax, hover⟩ := deframeLimited_eq_some_iff.mp h
    refine deframeLimited_eq_some_iff.mpr ⟨pre, ?_, hpre, hlen, hmax, hover⟩
    simp
  error_append := deframeLimited_append_error

end NetstringFraming

end ServantRs
