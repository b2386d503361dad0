import Mathlib.Data.List.Induction
import ServantRs.Streams.Events
import ServantRs.Support.Runs

/-!
# Streams — what the lines of an event set

Reading an event is setting its fields, one line after the other: `lineField` is the field a line
sets and the value it sets it to, and `settings` are those of a text, whose line ends may be of any
kind.  A value is a part of its line, so both are defined for characters that carry more with them
(`settings_map`).

* `mimeUnrender_settings`: an event is read from the settings of its text.
-/

namespace ServantRs

namespace EventLines

/-- The fields of an event. -/
inductive FieldName where
  | comment
  | event
  | id
  | data
deriving DecidableEq, Repr

/-- The field of a name; a comment has none. -/
def FieldName.ofName (name : List Char) : Option FieldName :=
  if name = "event".toList then some .event
  else if name = "id".toList then some .id
  else if name = "data".toList then some .data
  else none

/-- A field, and a value for it. -/
abbrev Setting (α : Type*) := FieldName × List α

section

variable {α β : Type*} (char : α → Char)

/-- A value without the space before it. -/
def dropSpace : List α → List α
  | []     => []
  | c :: v => if char c = ' ' then v else c :: v

/-- The field a line sets, and the value it sets it to. -/
def lineField : List α → Option (Setting α)
  | []     => none
  | c :: v =>
    if char c = ':' then some (.comment, dropSpace char v)
    else
      (FieldName.ofName (((c :: v).takeWhile (char · ≠ ':')).map char)).map
        (·, dropSpace char (((c :: v).dropWhile (char · ≠ ':')).drop 1))

/-- The settings of a text, in the order of its lines. -/
def settings (text : List α) : List (Setting α) :=
  (runs (isLineEnd ∘ char) text).filterMap (lineField char)

/-- A setting to what a value is mapped to. -/
def Setting.map (f : β → α) (s : Setting β) : Setting α := (s.1, List.map f s.2)

theorem dropSpace_map (f : β → α) : ∀ v : List β,
    dropSpace char (v.map f) = (dropSpace (char ∘ f) v).map f
  | [] => rfl
  | c :: v => by
      by_cases h : char (f c) = ' '
      · have hspace : (char ∘ f) c = ' ' := h
        rw [List.map_cons, dropSpace, dropSpace, if_pos h, if_pos hspace]
      · have hspace : (char ∘ f) c ≠ ' ' := h
        rw [List.map_cons, dropSpace, dropSpace, if_neg h, if_neg hspace, List.map_cons]

/-- A line is read by its characters alone. -/
theorem lineField_map (f : β → α) (line : List β) :
    lineField char (line.map f) = (lineField (char ∘ f) line).map (Setting.map f) := by
  cases line with
  | nil => rfl
  | cons c v =>
      by_cases hc : char (f c) = ':'
      · have hcolon : (char ∘ f) c = ':' := hc
        rw [List.map_cons, lineField, lineField, if_pos hc, if_pos hcolon, dropSpace_map]
        rfl
      · have hcolon : (char ∘ f) c ≠ ':' := hc
        rw [List.map_cons, lineField, lineField, if_neg hc, if_neg hcolon, ← List.map_cons]
        simp only [List.takeWhile_map, List.dropWhile_map, ← List.map_drop, dropSpace_map,
          List.map_map, Option.map_map]
        rfl

theorem settings_map (f : β → α) (text : List β) :
    settings char (text.map f) = (settings (char ∘ f) text).map (Setting.map f) := by
  rw [settings, runs_map, List.filterMap_map, settings, List.map_filterMap]
  exact congrArg (List.filterMap · _) (funext fun line => lineField_map char f line)

end

/-- The values some settings set a field to. -/
def setTo {β : Type*} (f : FieldName) (sets : List (FieldName × β)) : List β :=
  sets.filterMap fun (g, v) => if g = f then some v else none

/-- What settings leave in the fields: all comments and data, and the last event and id. -/
def fieldsOf (sets : List (Setting Char)) : ServerEvent.Fields where
  event := (setTo .event sets).getLast?.map String.ofList
  id := (setTo .id sets).getLast?.map String.ofList
  comments := (setTo .comment sets).map String.ofList
  data := (setTo .data sets).map String.ofList

/-- A field set. -/
def put (acc : ServerEvent.Fields) : FieldName → String → ServerEvent.Fields
  | .comment, value => { acc with comments := acc.comments ++ [value] }
  | .event, value   => { acc with event := some value }
  | .id, value      => { acc with id := some value }
  | .data, value    => { acc with data := acc.data ++ [value] }

theorem stripPrefix_singleton (c d : Char) (cs : List Char) :
    stripPrefix (String.singleton c) (String.ofList (d :: cs))
      = if d = c then some (String.ofList cs) else none := by
  by_cases h : d = c
  · have happend : String.ofList (d :: cs) = String.singleton c ++ String.ofList cs := by
      rw [← String.toList_inj, h]
      simp
    rw [if_pos h, happend, stripPrefix_append]
  · rw [if_neg h]
    exact stripPrefix_of_head (String.toList_singleton c) String.toList_ofList (Ne.symm h)

theorem stripSpace_ofList (v : List Char) :
    ServerEvent.stripSpace (String.ofList v) = String.ofList (dropSpace (fun c => c) v) := by
  cases v with
  | nil => rfl
  | cons c v =>
      have hspace : " " = String.singleton ' ' := rfl
      rw [ServerEvent.stripSpace, hspace, stripPrefix_singleton, dropSpace]
      split
      · rfl
      · rfl

theorem set_ofName (acc : ServerEvent.Fields) (name : List Char) (value : String) :
    acc.set (String.ofList name) value
      = ((FieldName.ofName name).map (put acc · value)).getD acc := by
  have hname : ∀ s : String, String.ofList name = s ↔ name = s.toList := fun s => by
    rw [← String.toList_inj, String.toList_ofList]
  rw [ServerEvent.Fields.set, FieldName.ofName]
  simp only [hname]
  split
  · rfl
  · split
    · rfl
    · split
      · rfl
      · rfl

/-- A line is read as what it sets. -/
theorem readLine_ofList (acc : ServerEvent.Fields) (line : List Char) :
    acc.readLine (String.ofList line)
      = ((lineField (fun c => c) line).map fun s => put acc s.1 (String.ofList s.2)).getD acc := by
  cases line with
  | nil => rfl
  | cons c v =>
      have hne : String.ofList (c :: v) ≠ "" := by
        intro h
        have hnil := String.ofList_eq_empty_iff.mp h
        cases hnil
      have hcolon : ":" = String.singleton ':' := rfl
      rw [ServerEvent.Fields.readLine, if_neg hne, hcolon, stripPrefix_singleton, lineField]
      by_cases hc : c = ':'
      · rw [if_pos hc, if_pos hc]
        simp only [stripSpace_ofList, Option.map_some, Option.getD_some, put]
      · have hid : ∀ l : List Char, l.map (fun c => c) = l := List.map_id'
        rw [if_neg hc, if_neg hc, hid, Option.map_map]
        -- without a colon the whole line is the name, and the value is empty
        cases hdrop : (c :: v).dropWhile (· ≠ ':') with
        | nil =>
            have hsplit : splitOnce ':' (String.ofList (c :: v)) = none := by
              rw [splitOnce, String.toList_ofList, hdrop]
            have hname : (c :: v).takeWhile (· ≠ ':') = c :: v := by
              have hcut := List.takeWhile_append_dropWhile (p := (· ≠ ':')) (l := c :: v)
              rwa [hdrop, List.append_nil] at hcut
            rw [hsplit, hname]
            exact set_ofName acc (c :: v) ""
        | cons d rest =>
            have hsplit : splitOnce ':' (String.ofList (c :: v))
                = some (String.ofList ((c :: v).takeWhile (· ≠ ':')), String.ofList rest) := by
              rw [splitOnce, String.toList_ofList, hdrop]
            rw [hsplit]
            show acc.set _ (ServerEvent.stripSpace (String.ofList rest)) = _
            rw [stripSpace_ofList, set_ofName]
            rfl

theorem setTo_append {β : Type*} (f : FieldName) (sets sets' : List (FieldName × β)) :
    setTo f (sets ++ sets') = setTo f sets ++ setTo f sets' := List.filterMap_append

theorem setTo_cons {β : Type*} (f g : FieldName) (v : β) (sets : List (FieldName × β)) :
    setTo f ((g, v) :: sets) = if g = f then v :: setTo f sets else setTo f sets := by
  rw [setTo, List.filterMap_cons]
  split
  · next h =>
      have hne : g ≠ f := fun he => by simp [he] at h
      rw [if_neg hne]
      rfl
  · next v' h =>
      by_cases hg : g = f
      · obtain rfl : v = v' := by simpa [hg] using h
        rw [if_pos hg]
        rfl
      · simp [hg] at h

/-- One setting more is one field set. -/
theorem fieldsOf_concat (sets : List (Setting Char)) (s : Setting Char) :
    fieldsOf (sets ++ [s]) = put (fieldsOf sets) s.1 (String.ofList s.2) := by
  obtain ⟨f, v⟩ := s
  have hlast : ∀ g, setTo g [(f, v)] = if f = g then [v] else [] := fun g => setTo_cons g f v []
  cases f with
  | comment | event | id | data => simp [fieldsOf, setTo_append, hlast, put]

theorem foldl_put (sets : List (Setting Char)) :
    sets.foldl (fun acc s => put acc s.1 (String.ofList s.2)) ⟨none, none, [], []⟩
      = fieldsOf sets := by
  induction sets using List.reverseRecOn with
  | nil => rfl
  | append_singleton sets s ih => rw [List.foldl_concat, ih, fieldsOf_concat]

theorem foldl_readLine (lines : List (List Char)) (acc : ServerEvent.Fields) :
    (lines.map String.ofList).foldl ServerEvent.Fields.readLine acc
      = (lines.filterMap (lineField fun c => c)).foldl
          (fun acc s => put acc s.1 (String.ofList s.2)) acc := by
  induction lines generalizing acc with
  | nil => rfl
  | cons line lines ih =>
      rw [List.map_cons, List.foldl_cons, ih, readLine_ofList, List.filterMap_cons]
      cases lineField (fun c => c) line with
      | none => rfl
      | some s => rfl

/-- An empty line is passed over. -/
theorem foldl_readLine_filter (lines : List String) (acc : ServerEvent.Fields) :
    lines.foldl ServerEvent.Fields.readLine acc
      = (lines.filter (· ≠ "")).foldl ServerEvent.Fields.readLine acc := by
  induction lines generalizing acc with
  | nil => rfl
  | cons line lines ih =>
      by_cases h : line = ""
      · -- `continue`
        have hread : acc.readLine line = acc := if_pos h
        rw [List.foldl_cons, hread, ih, List.filter_cons_of_neg (by simpa using h)]
      · rw [List.foldl_cons, ih, List.filter_cons_of_pos (by simpa using h), List.foldl_cons]

/-- The lines of a text are its runs between line ends. -/
theorem filter_strLines_normalize {cs : List Char} (h : cs.head? ≠ some '\uFEFF') :
    (strLines (ServerEvent.normalize (String.ofList cs))).filter (· ≠ "")
      = (runs isLineEnd cs).map String.ofList := by
  have hbom : stripPrefix "\uFEFF" (String.ofList cs) = none := by
    cases cs with
    | nil => rfl
    | cons c cs =>
        have hsingle : "\uFEFF" = String.singleton '\uFEFF' := rfl
        have hc : c ≠ '\uFEFF' := fun he => h (by rw [he, List.head?_cons])
        rw [hsingle, stripPrefix_singleton, if_neg hc]
  have hnormal : ServerEvent.normalize (String.ofList cs)
      = String.ofList ((replaceCrLf cs).map fun c => if c = '\r' then '\n' else c) := by
    rw [ServerEvent.normalize, hbom]
    simp only [Option.getD_none, replaceChar, String.toList_ofList]
  have hcr : '\r' ∉ (ServerEvent.normalize (String.ofList cs)).toList := by
    rw [hnormal, String.toList_ofList]
    intro hmem
    obtain ⟨c, -, hc⟩ := List.mem_map.mp hmem
    split at hc
    · cases hc
    · next hne => exact hne hc
  have hruns := runs_replaceCrLf [] cs
  rw [filter_strLines hcr, hnormal, String.toList_ofList, runs_replaceChar]
  exact congrArg _ hruns

/-- **An event is read from the settings of its text**, which has no byte order mark in front. -/
theorem mimeUnrender_settings {cs : List Char} (h : cs.head? ≠ some '\uFEFF') :
    ServerEvent.mimeUnrender (utf8Bytes (String.ofList cs))
      = .ok (ServerEvent.ofFields (fieldsOf (settings (fun c => c) cs))) := by
  have hruns : isLineEnd ∘ (fun c : Char => c) = isLineEnd := rfl
  rw [ServerEvent.mimeUnrender, fromUtf8_utf8Bytes]
  simp only
  rw [foldl_readLine_filter, filter_strLines_normalize h, foldl_readLine, foldl_put, settings,
    hruns]

end EventLines

end ServantRs
