import ServantRs.Streams.Stable

/-!
# Streams — the blocks of an event stream

A block ends at the first blank line, which is a line end of one kind or another after one.  A
longer mark may begin where the buffer ends, but never so that an event ends earlier than was
found: `findEventEnd_append`.
-/

namespace ServantRs

open Framing

namespace EventStreamFraming

theorem eventMarks_length : ∀ m ∈ eventMarks, 2 ≤ m.length ∧ m.length ≤ 4 := by decide

/-- No mark begins with another one; where the tail of one does, it is that other one. -/
theorem eventMarks_apart : ∀ m ∈ eventMarks, ∀ m' ∈ eventMarks,
    (m <+: m' → m = m') ∧ (m' <+: m.tail → m' = m.tail) := by
  decide

theorem exists_of_blankLine {buf : Bytes} {n : Nat} (h : blankLine buf = some n) :
    ∃ m ∈ eventMarks, m <+: buf ∧ n = m.length := by
  obtain ⟨m, hm, rfl⟩ := Option.map_eq_some_iff.mp h
  have hp := List.find?_some hm
  exact ⟨m, List.mem_of_find?_eq_some hm, List.isPrefixOf_iff_prefix.mp hp, rfl⟩

/-- The mark at the front of a buffer is the only one there. -/
theorem blankLine_of_mark {buf m : Bytes} (hm : m ∈ eventMarks) (hp : m <+: buf) :
    blankLine buf = some m.length := by
  rw [blankLine]
  cases hf : eventMarks.find? (·.isPrefixOf buf) with
  | none => exact absurd (List.isPrefixOf_iff_prefix.mpr hp) (List.find?_eq_none.mp hf m hm)
  | some m' =>
      have hm' := List.mem_of_find?_eq_some hf
      have hfront := List.find?_some hf
      have hp' : m' <+: buf := List.isPrefixOf_iff_prefix.mp hfront
      rcases List.prefix_or_prefix_of_prefix hp hp' with h | h
      · rw [(eventMarks_apart m hm m' hm').1 h]
        rfl
      · rw [(eventMarks_apart m' hm' m hm).1 h]
        rfl

theorem blankLine_append {buf : Bytes} {n : Nat} (h : blankLine buf = some n) (more : Bytes) :
    blankLine (buf ++ more) = some n := by
  obtain ⟨m, hm, hp, rfl⟩ := exists_of_blankLine h
  exact blankLine_of_mark hm (hp.trans (List.prefix_append buf more))

theorem findEventEnd_cons_of_some {b : UInt8} {buf : Bytes} {n : Nat}
    (h : blankLine (b :: buf) = some n) : findEventEnd (b :: buf) = some (0, n) := by
  rw [findEventEnd, h]

theorem findEventEnd_cons_of_none {b : UInt8} {buf : Bytes} (h : blankLine (b :: buf) = none) :
    findEventEnd (b :: buf) = (findEventEnd buf).map fun (i, j) => (i + 1, j + 1) := by
  rw [findEventEnd, h]

/-- A mark stands where an event ends. -/
theorem findEventEnd_within : ∀ {buf : Bytes} {i j : Nat}, findEventEnd buf = some (i, j) →
    i + 2 ≤ j ∧ j ≤ buf.length
  | [], _, _, h => by cases h
  | b :: buf, i, j, h => by
      cases hb : blankLine (b :: buf) with
      | some n =>
          rw [findEventEnd_cons_of_some hb] at h
          cases h
          obtain ⟨m, hm, hp, rfl⟩ := exists_of_blankLine hb
          have := eventMarks_length m hm
          exact ⟨by omega, hp.length_le⟩
      | none =>
          rw [findEventEnd_cons_of_none hb] at h
          obtain ⟨⟨i', j'⟩, h', hij⟩ := Option.map_eq_some_iff.mp h
          cases hij
          have := findEventEnd_within h'
          rw [List.length_cons]
          omega

/-- **No event ends earlier once more bytes are there.**  Where no mark is followed by an event's
end, no mark comes to be. -/
theorem blankLine_append_of_none {b : UInt8} {buf : Bytes} {i j : Nat}
    (hb : blankLine (b :: buf) = none) (h : findEventEnd buf = some (i, j)) (more : Bytes) :
    blankLine (b :: buf ++ more) = none := by
  by_contra hne
  obtain ⟨n, hn⟩ := Option.ne_none_iff_exists'.mp hne
  obtain ⟨m, hm, hp, -⟩ := exists_of_blankLine hn
  -- the mark would reach past the buffer
  have hout : ¬ m <+: b :: buf := fun hp' => by
    rw [blankLine_of_mark hm hp'] at hb
    cases hb
  have hlong : (b :: buf).length < m.length := by
    by_contra hle
    exact hout (List.prefix_of_prefix_length_le hp (List.prefix_append _ _) (Nat.not_lt.mp hle))
  have hwithin := findEventEnd_within h
  have hlen := eventMarks_length m hm
  rw [List.length_cons] at hlong
  -- so the end that was found follows at once, and its mark is the tail of the other one
  obtain ⟨n', hn'⟩ : ∃ n', blankLine buf = some n' := by
    cases buf with
    | nil => cases h
    | cons c buf =>
        cases hc : blankLine (c :: buf) with
        | some n' => exact ⟨n', rfl⟩
        | none =>
            rw [findEventEnd_cons_of_none hc] at h
            obtain ⟨⟨i', j'⟩, h', hij⟩ := Option.map_eq_some_iff.mp h
            cases hij
            have := findEventEnd_within h'
            omega
  obtain ⟨m', hm', hp', -⟩ := exists_of_blankLine hn'
  obtain ⟨a, tl, rfl⟩ : ∃ a tl, m = a :: tl := List.exists_cons_of_length_pos (by omega)
  obtain ⟨rfl, htl⟩ := List.cons_prefix_cons.mp hp
  have hpre : m' <+: tl :=
    List.prefix_of_prefix_length_le (hp'.trans (List.prefix_append buf more)) htl
      (by have := hp'.length_le; rw [List.length_cons] at hlong; omega)
  have heq : m' = tl := (eventMarks_apart _ hm m' hm').2 hpre
  subst heq
  exact hout (List.cons_prefix_cons.mpr ⟨rfl, hp'⟩)

theorem findEventEnd_append : ∀ {buf : Bytes} {i j : Nat} (more : Bytes),
    findEventEnd buf = some (i, j) → findEventEnd (buf ++ more) = some (i, j)
  | [], _, _, _, h => by cases h
  | b :: buf, i, j, more, h => by
      cases hb : blankLine (b :: buf) with
      | some n =>
          rw [findEventEnd_cons_of_some hb] at h
          exact (findEventEnd_cons_of_some (blankLine_append hb more)).trans h
      | none =>
          rw [findEventEnd_cons_of_none hb] at h
          obtain ⟨⟨i', j'⟩, h', hij⟩ := Option.map_eq_some_iff.mp h
          have hnone : blankLine (b :: (buf ++ more)) = none := blankLine_append_of_none hb h' more
          rw [List.cons_append, findEventEnd_cons_of_none hnone, findEventEnd_append more h']
          exact congrArg some hij

/-! ### Blocks of lines -/

theorem eventMarks_ends : ∀ m ∈ eventMarks, m ≠ [] ∧ ∀ b ∈ m, b = LF ∨ b = CR := by
  simp [eventMarks]

/-- No mark begins at a byte that ends no line. -/
theorem blankLine_of_ne {b : UInt8} {buf : Bytes} (hLF : b ≠ LF) (hCR : b ≠ CR) :
    blankLine (b :: buf) = none := by
  by_contra hne
  obtain ⟨n, hn⟩ := Option.ne_none_iff_exists'.mp hne
  obtain ⟨m, hm, hp, -⟩ := exists_of_blankLine hn
  obtain ⟨hm0, hends⟩ := eventMarks_ends m hm
  obtain ⟨c, m', rfl⟩ := List.exists_cons_of_ne_nil hm0
  obtain ⟨rfl, -⟩ := List.cons_prefix_cons.mp hp
  rcases hends c List.mem_cons_self with h | h
  · exact hLF h
  · exact hCR h

/-- A place in a buffer, with `n` bytes more in front. -/
def shift (n : Nat) (ends : Nat × Nat) : Nat × Nat := (ends.1 + n, ends.2 + n)

theorem map_shift_zero (ends : Option (Nat × Nat)) : ends.map (shift 0) = ends := by
  have hid : shift 0 = id := rfl
  rw [hid, Option.map_id_fun, id]

/-- No event ends within a line. -/
theorem findEventEnd_line : ∀ {line : Bytes} (buf : Bytes), LF ∉ line → CR ∉ line →
    findEventEnd (line ++ buf) = (findEventEnd buf).map (shift line.length)
  | [], buf, _, _ => (map_shift_zero _).symm
  | b :: line, buf, hLF, hCR => by
      rw [List.mem_cons, not_or] at hLF hCR
      have hb : blankLine (b :: (line ++ buf)) = none :=
        blankLine_of_ne (Ne.symm hLF.1) (Ne.symm hCR.1)
      rw [List.cons_append, findEventEnd_cons_of_none hb, findEventEnd_line buf hLF.2 hCR.2,
        Option.map_map]
      rfl

theorem blankLine_of_findEventEnd {b : UInt8} {buf : Bytes} (h : findEventEnd (b :: buf) = none) :
    blankLine (b :: buf) = none ∧ findEventEnd buf = none := by
  cases hb : blankLine (b :: buf) with
  | some n =>
      rw [findEventEnd_cons_of_some hb] at h
      cases h
  | none =>
      rw [findEventEnd_cons_of_none hb] at h
      exact ⟨rfl, Option.map_eq_none_iff.mp h⟩

/-- No event ends where no mark is. -/
theorem findEventEnd_eq_none_iff {buf : Bytes} :
    findEventEnd buf = none ↔ ∀ m ∈ eventMarks, ¬ m <:+: buf := by
  induction buf with
  | nil =>
      refine ⟨fun _ m hm h => (eventMarks_ends m hm).1 (List.infix_nil.mp h), fun _ => rfl⟩
  | cons b buf ih =>
      constructor
      · intro h m hm hin
        obtain ⟨hb, hbuf⟩ := blankLine_of_findEventEnd h
        rcases List.infix_cons_iff.mp hin with hp | hin
        · rw [blankLine_of_mark hm hp] at hb
          cases hb
        · exact ih.mp hbuf m hm hin
      · intro h
        cases hb : blankLine (b :: buf) with
        | some n =>
            obtain ⟨m, hm, hp, -⟩ := exists_of_blankLine hb
            exact absurd hp.isInfix (h m hm)
        | none =>
            have hbuf : findEventEnd buf = none :=
              ih.mpr fun m hm hin => h m hm (List.infix_cons_iff.mpr (.inr hin))
            rw [findEventEnd_cons_of_none hb, hbuf]
            rfl

/-- A mark does not reach past a byte that ends no line. -/
theorem prefix_of_prefix_append {m buf rest : Bytes} {b : UInt8} (hb : b ∉ m)
    (h : m <+: buf ++ b :: rest) : m <+: buf := by
  rcases List.prefix_or_prefix_of_prefix h (List.prefix_append buf (b :: rest)) with hp | ⟨y, rfl⟩
  · exact hp
  · rw [List.prefix_append_right_inj] at h
    cases y with
    | nil => exact ⟨[], by simp⟩
    | cons c y =>
        obtain ⟨rfl, -⟩ := List.cons_prefix_cons.mp h
        exact absurd (List.mem_append_right buf List.mem_cons_self) hb

/-- Behind a byte that ends no line, an event ends where it does without what is in front. -/
theorem findEventEnd_append_of_none {b : UInt8} (hLF : b ≠ LF) (hCR : b ≠ CR) (rest : Bytes) :
    ∀ {buf : Bytes}, findEventEnd buf = none →
      findEventEnd (buf ++ b :: rest) = (findEventEnd (b :: rest)).map (shift buf.length)
  | [], _ => (map_shift_zero _).symm
  | c :: buf, h => by
      obtain ⟨hc, hbuf⟩ := blankLine_of_findEventEnd h
      have hnone : blankLine (c :: (buf ++ b :: rest)) = none := by
        -- no mark holds `b`, so one that begins before it is there without what follows
        by_contra hne
        obtain ⟨n, hn⟩ := Option.ne_none_iff_exists'.mp hne
        obtain ⟨m, hm, hp, -⟩ := exists_of_blankLine hn
        have hb : b ∉ m := fun hmem => ((eventMarks_ends m hm).2 b hmem).elim hLF hCR
        have hfront : m <+: c :: buf := prefix_of_prefix_append hb hp
        have hmark := blankLine_of_mark hm hfront
        rw [hc] at hmark
        cases hmark
      rw [List.cons_append, findEventEnd_cons_of_none hnone,
        findEventEnd_append_of_none hLF hCR rest hbuf, Option.map_map]
      rfl

theorem eventMarks_last : ∀ m ∈ eventMarks, [LF, LF] <:+ m → m = [LF, LF] := by decide

/-- A newline behind a line that was not at its end ends the event there. -/
theorem findEventEnd_last : ∀ {line : Bytes}, findEventEnd (line ++ [LF]) = none →
    findEventEnd (line ++ [LF] ++ [LF]) = some (line.length, line.length + 2)
  | [], _ => by decide
  | b :: line, h => by
      rw [List.cons_append] at h
      obtain ⟨hb, hline⟩ := blankLine_of_findEventEnd h
      have hnone : blankLine (b :: (line ++ [LF] ++ [LF])) = none := by
        by_contra hne
        obtain ⟨n, hn⟩ := Option.ne_none_iff_exists'.mp hne
        obtain ⟨m, hm, hp, -⟩ := exists_of_blankLine hn
        -- a mark that is not there without the last newline ends with it
        have hwhole : m = b :: line ++ [LF] ++ [LF] := by
          refine (List.prefix_concat_iff.mp hp).resolve_right fun hp => ?_
          have hmark := blankLine_of_mark hm hp
          rw [List.cons_append, hb] at hmark
          cases hmark
        have htwo : m = [LF, LF] :=
          eventMarks_last m hm ⟨b :: line, by rw [hwhole, List.append_assoc]; rfl⟩
        have hlen := congrArg List.length (hwhole.symm.trans htwo)
        simp at hlen
      rw [List.cons_append, List.cons_append, findEventEnd_cons_of_none hnone,
        findEventEnd_last hline]
      rfl

/-- A line that begins with a byte that ends none. -/
def Headed (line : Bytes) : Prop := ∃ b bs, line = b :: bs ∧ b ≠ LF ∧ b ≠ CR

theorem Headed.append {line : Bytes} (h : Headed line) (rest : Bytes) : Headed (line ++ rest) := by
  obtain ⟨b, bs, rfl, hLF, hCR⟩ := h
  exact ⟨b, bs ++ rest, rfl, hLF, hCR⟩

/-- Where an event ends in lines of which the first one ends none. -/
theorem findEventEnd_cons_line {l l' : Bytes} (hnone : findEventEnd (l ++ [LF]) = none)
    (hhead : Headed l') (ls : List Bytes) :
    findEventEnd ((l :: l' :: ls).flatMap (· ++ [LF]) ++ [LF])
      = (findEventEnd ((l' :: ls).flatMap (· ++ [LF]) ++ [LF])).map (shift (l.length + 1)) := by
  obtain ⟨b, bs, rfl, hLF, hCR⟩ := hhead
  have hfront : ((b :: bs) :: ls).flatMap (· ++ [LF]) ++ [LF]
      = b :: (bs ++ [LF] ++ ls.flatMap (· ++ [LF]) ++ [LF]) := rfl
  rw [List.flatMap_cons, List.append_assoc, hfront, findEventEnd_append_of_none hLF hCR _ hnone,
    List.length_append]
  rfl

/-- **Lines that hold no mark are one block.**  It ends at the newline behind the last of them. -/
theorem findEventEnd_lines {lines : List Bytes} {n : Nat}
    (hn : (lines.flatMap (· ++ [LF])).length = n + 1) (hheads : ∀ l ∈ lines, Headed l)
    (hnone : ∀ l ∈ lines, findEventEnd (l ++ [LF]) = none) :
    findEventEnd (lines.flatMap (· ++ [LF]) ++ [LF]) = some (n, n + 2) := by
  induction lines generalizing n with
  | nil => cases hn
  | cons l ls ih =>
      obtain ⟨hl, hls⟩ := List.forall_mem_cons.mp hnone
      rw [List.flatMap_cons, List.length_append, List.length_append, List.length_singleton] at hn
      cases ls with
      | nil =>
          obtain rfl : l.length = n := Nat.succ.inj hn
          rw [List.flatMap_cons, List.flatMap_nil, List.append_nil]
          exact findEventEnd_last hl
      | cons l' ls =>
          have htail : ((l' :: ls).flatMap (· ++ [LF])).length = n - (l.length + 1) + 1 := by
            have hpos : 0 < ((l' :: ls).flatMap (· ++ [LF])).length := by
              rw [List.flatMap_cons, List.length_append, List.length_append, List.length_singleton]
              omega
            omega
          have hhead := hheads l' (List.mem_cons_of_mem l List.mem_cons_self)
          rw [findEventEnd_cons_line hl hhead,
            ih htail (fun x hx => hheads x (List.mem_cons_of_mem l hx)) hls]
          simp only [Option.map_some, shift, Option.some.injEq, Prod.mk.injEq]
          omega

/-- **Lines of which one holds a mark are cut there**, before the newline behind them. -/
theorem findEventEnd_broken {lines : List Bytes} (hheads : ∀ l ∈ lines, Headed l)
    (hsome : ∃ l ∈ lines, findEventEnd (l ++ [LF]) ≠ none) :
    ∃ i j, findEventEnd (lines.flatMap (· ++ [LF]) ++ [LF]) = some (i, j) ∧
      j ≤ (lines.flatMap (· ++ [LF])).length := by
  induction lines with
  | nil =>
      obtain ⟨l, hl, -⟩ := hsome
      cases hl
  | cons l ls ih =>
      cases hl : findEventEnd (l ++ [LF]) with
      | some ends =>
          -- what comes behind a mark does not move it
          refine ⟨ends.1, ends.2, ?_, ?_⟩
          · rw [List.flatMap_cons, List.append_assoc]
            exact findEventEnd_append _ hl
          · have hwithin := (findEventEnd_within hl).2
            rw [List.flatMap_cons, List.length_append]
            omega
      | none =>
          -- the mark is in a later line, all of which begin with no line end
          obtain ⟨x, hx, hxs⟩ := hsome
          have hx : x ∈ ls := (List.mem_cons.mp hx).resolve_left fun he => hxs (he ▸ hl)
          obtain ⟨i, j, hend, hj⟩ :=
            ih (fun y hy => hheads y (List.mem_cons_of_mem l hy)) ⟨x, hx, hxs⟩
          refine ⟨i + (l.length + 1), j + (l.length + 1), ?_, ?_⟩
          · obtain ⟨l', ls, rfl⟩ := List.exists_cons_of_ne_nil (List.ne_nil_of_mem hx)
            have hhead := hheads l' (List.mem_cons_of_mem l List.mem_cons_self)
            rw [findEventEnd_cons_line hl hhead, hend]
            rfl
          · rw [List.flatMap_cons, List.length_append, List.length_append, List.length_singleton]
            omega

theorem marks : Marks findEventEnd where
  within h := by
    obtain ⟨hij, hj⟩ := findEventEnd_within h
    exact ⟨by omega, hj⟩
  append := findEventEnd_append

theorem deframe_eq_cutAt : deframe = cutAt findEventEnd := rfl

theorem stable : Stable deframe := marks.stable

end EventStreamFraming

end ServantRs
