import ServantRs.Support.Text

/-!
# Support — runs between separators

`runs p l` are the nonempty pieces of a list between the elements that satisfy `p`.  Separators that
stand together count once, so neither dropping one of two (`runs_append_cons_cons`) nor replacing
one by another (`runs_map_of_separators`) changes the runs: that is what the line ends of a text are
for one who passes empty lines over.

* `runs_append_cons` — the runs on both sides of a separator;
* `runs_map` — the runs of what a list is mapped to;
* `filter_strLines` — the lines of a text that are not empty, whatever its line ends are.
-/

namespace ServantRs

variable {α β : Type*} {p : α → Bool}

/-- The nonempty pieces of a list between the elements that satisfy `p`. -/
def runs (p : α → Bool) (l : List α) : List (List α) := (l.splitOnP p).filter (· ≠ [])

theorem runs_nil : runs p [] = [] := rfl

/-- The runs on both sides of a separator. -/
theorem runs_append_cons {c : α} (hc : p c = true) (as bs : List α) :
    runs p (as ++ c :: bs) = runs p as ++ runs p bs := by
  rw [runs, List.splitOnP_append_cons as bs hc, List.filter_append]
  rfl

theorem runs_cons {c : α} (hc : p c = true) (bs : List α) : runs p (c :: bs) = runs p bs :=
  runs_append_cons hc [] bs

theorem runs_concat {c : α} (hc : p c = true) (as : List α) : runs p (as ++ [c]) = runs p as := by
  rw [runs_append_cons hc, runs_nil, List.append_nil]

/-- Of two separators that stand together, the first may go. -/
theorem runs_append_cons_cons {c d : α} (hc : p c = true) (hd : p d = true) (as bs : List α) :
    runs p (as ++ c :: d :: bs) = runs p (as ++ d :: bs) := by
  rw [runs_append_cons hc, runs_append_cons hd, runs_cons hd]

/-- A list without separators is one run. -/
theorem runs_of_forall {as : List α} (hne : as ≠ []) (h : ∀ a ∈ as, p a = false) :
    runs p as = [as] := by
  rw [runs, List.splitOnP_eq_singleton h]
  simp [hne]

/-- What stands before the first separator is the first run, with `as` in front of it. -/
theorem runs_append {as : List α} (hne : as ≠ []) (h : ∀ a ∈ as, p a = false) (bs : List α) :
    runs p (as ++ bs)
      = (as ++ bs.takeWhile (!p ·)) :: runs p (bs.dropWhile (!p ·)) := by
  have hfront : ∀ b ∈ bs.takeWhile (!p ·), p b = false := fun b hb => by
    simpa using List.mem_takeWhile_imp hb
  have hrun : runs p (as ++ bs.takeWhile (!p ·)) = [as ++ bs.takeWhile (!p ·)] := by
    refine runs_of_forall (List.append_ne_nil_of_left_ne_nil hne _) fun a ha => ?_
    rcases List.mem_append.mp ha with ha | ha
    · exact h a ha
    · exact hfront a ha
  have hcut : as ++ bs = as ++ bs.takeWhile (!p ·) ++ bs.dropWhile (!p ·) := by
    rw [List.append_assoc, List.takeWhile_append_dropWhile]
  rw [hcut]
  -- the run goes to the end, or up to the separator that is dropped next
  cases hdrop : bs.dropWhile (!p ·) with
  | nil => rw [List.append_nil, hrun, runs_nil]
  | cons c cs =>
      have hhead := List.head?_dropWhile_not (!p ·) bs
      have hc : p c = true := by
        rw [hdrop] at hhead
        simpa using hhead
      rw [runs_append_cons hc, hrun, runs_cons hc]
      rfl

/-- The runs of lists with a separator behind each. -/
theorem runs_flatMap {ι : Type*} {f : ι → List α} {e : ι → α} (he : ∀ i, p (e i) = true)
    (is : List ι) :
    runs p (is.flatMap fun i => f i ++ [e i]) = is.flatMap fun i => runs p (f i) := by
  induction is with
  | nil => rfl
  | cons i is ih =>
      rw [List.flatMap_cons, List.flatMap_cons, List.append_assoc, List.singleton_append,
        runs_append_cons (he i), ih]

theorem splitOnP_map (f : α → β) (q : β → Bool) (l : List α) :
    (l.map f).splitOnP q = (l.splitOnP (q ∘ f)).map (List.map f) := by
  induction l with
  | nil => rfl
  | cons a l ih =>
      rw [List.map_cons, List.splitOnP_cons_eq_if_modifyHead, ih,
        List.splitOnP_cons_eq_if_modifyHead]
      obtain ⟨first, pieces, hsplit⟩ :=
        List.exists_cons_of_ne_nil (List.splitOnP_ne_nil (q ∘ f) l)
      rw [hsplit]
      cases hq : q (f a) with
      | true => simp [hq]
      | false => simp [hq]

/-- The runs of what a list is mapped to. -/
theorem runs_map (f : α → β) (q : β → Bool) (l : List α) :
    runs q (l.map f) = (runs (q ∘ f) l).map (List.map f) := by
  rw [runs, splitOnP_map, runs, List.filter_map]
  refine congrArg _ (List.filter_congr fun piece _ => ?_)
  simp

/-- No run holds a separator. -/
theorem not_separator_of_mem_runs {l run : List α} (h : run ∈ runs p l) {a : α} (ha : a ∈ run) :
    p a = false :=
  (mem_of_mem_splitOnP (List.mem_filter.mp h).1 ha).2

/-- Replacing separators by separators, and nothing else, leaves the runs. -/
theorem runs_map_of_separators {q : α → Bool} {f : α → α} (hp : ∀ a, q (f a) = p a)
    (hf : ∀ a, p a = false → f a = a) (l : List α) : runs q (l.map f) = runs p l := by
  have hcomp : q ∘ f = p := funext hp
  rw [runs_map, hcomp]
  refine (List.map_congr_left fun run hrun => ?_).trans (List.map_id _)
  exact (List.map_congr_left fun a ha => hf a (not_separator_of_mem_runs hrun ha)).trans
    (List.map_id _)

/-! ### Lines -/

/-- The characters that end a line: a newline, and a carriage return. -/
def isLineEnd (c : Char) : Bool := c = '\n' || c = '\r'

/-- A carriage return before a newline ends no line of its own. -/
theorem runs_replaceCrLf (as cs : List Char) :
    runs isLineEnd (as ++ replaceCrLf cs) = runs isLineEnd (as ++ cs) := by
  -- what was passed over goes to `as`
  induction cs using replaceCrLf.induct generalizing as with
  | case1 => rfl
  | case2 cs ih =>
      have hempty : runs isLineEnd (replaceCrLf cs) = runs isLineEnd cs := ih []
      rw [replaceCrLf, runs_append_cons_cons (by decide) (by decide), runs_append_cons (by decide),
        hempty, runs_append_cons (by decide)]
  | case3 c cs h ih =>
      have hmove : ∀ l, as ++ c :: l = as ++ [c] ++ l := fun l => by simp
      rw [replaceCrLf, hmove, ih, ← hmove]
      exact h

/-- Line ends of one kind in the place of the others. -/
theorem runs_replaceChar (cs : List Char) :
    runs (· = '\n') (cs.map fun c => if c = '\r' then '\n' else c) = runs isLineEnd cs := by
  refine runs_map_of_separators (fun c => ?_) (fun c hc => if_neg ?_) cs
  · by_cases h : c = '\r'
    · simp [h, isLineEnd]
    · simp [h, isLineEnd]
  · rintro rfl
    exact absurd hc (by decide)

/-- The lines of a text without carriage returns that are not empty. -/
theorem filter_strLines {s : String} (h : '\r' ∉ s.toList) :
    (strLines s).filter (· ≠ "") = (runs (· = '\n') s.toList).map String.ofList := by
  have hne := splitChar_ne_nil '\n' s
  have hfront : (splitChar '\n' s).dropLast.map stripCr = (splitChar '\n' s).dropLast :=
    (List.map_congr_left fun l hl => stripCr_of_notMem fun hr =>
      h (mem_of_mem_splitChar (List.dropLast_subset _ hl) hr).1).trans (List.map_id _)
  have hlast : (splitChar '\n' s).getLast?.toList = [(splitChar '\n' s).getLast hne] := by
    rw [List.getLast?_eq_some_getLast hne, Option.toList_some]
  have hsplit : s.toList.splitOn '\n' = s.toList.splitOnP (· = '\n') :=
    congrArg (List.splitOnP · s.toList) (funext fun c => (Bool.beq_eq_decide_eq c '\n'))
  -- the last piece is left out when it is empty, as every other one is here
  rw [strLines]
  simp only [hfront, hlast]
  rw [List.filter_append, List.filter_filter]
  simp only [Bool.and_self]
  rw [← List.filter_append, List.dropLast_concat_getLast, splitChar, hsplit, List.filter_map, runs]
  exact congrArg _ (List.filter_congr fun piece _ => by simp)

end ServantRs
