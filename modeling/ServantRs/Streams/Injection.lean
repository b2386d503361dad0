import ServantRs.Streams.Settings
import ServantRs.Streams.Unbroken

/-!
# Streams — what becomes of line ends in an event's texts

An event is written line by line, and cut again at every line end, those in its own texts too.  The
comment and the data are written a line at a time, but only newlines are looked for; the event type
and the identifier are written as they are.  What stands behind a line end in a text is a line of
its own for the reader (`strays`), and may set any field; and at a blank line the block ends.

To tell whose text a value is, the characters of an event are written with the field they are
written for (`traced`).

* `uninjected_iff`: when an event is one block whose values are all of their own field.
-/

namespace ServantRs

open Framing

namespace EventLines

/-! ### Whose text a value is -/

/-- A character of an event, and the field it is written for. -/
abbrev Traced := Char × FieldName

def label : FieldName → String
  | .comment => ": "
  | .event   => "event: "
  | .id      => "id: "
  | .data    => "data: "

/-- The texts a field is written with, each on one line. -/
def texts (e : ServerEvent) : FieldName → List String
  | .comment => e.comment.toList.flatMap (splitChar '\n')
  | .event   => e.event.toList
  | .id      => e.id.toList
  | .data    => e.dataTexts

/-- The texts of an event in the order they are written in. -/
def written (e : ServerEvent) : List (FieldName × String) :=
  [FieldName.comment, .event, .id, .data].flatMap fun f => (texts e f).map (f, ·)

/-- A text on its line, without the line's end. -/
def tracedLine (w : FieldName × String) : List Traced := (label w.1 ++ w.2).toList.map (·, w.1)

/-- The lines of an event. -/
def traced (e : ServerEvent) : List Traced :=
  (written e).flatMap fun w => tracedLine w ++ [('\n', w.1)]

/-- The values the reader keeps of those a field is set to. -/
def kept {β : Type*} : FieldName → List β → List β
  | .comment, vs | .data, vs => vs
  | .event, vs | .id, vs     => vs.getLast?.toList

/-- Whatever is kept for a field was written for it. -/
def Own (sets : List (Setting Traced)) : Prop :=
  ∀ f, ∀ v ∈ kept f (setTo f sets), ∀ c ∈ v, c.2 = f

/-- **No field injection.**  The bytes of an event are one block, and the block, whose text is that
of `text`, is read as values of which each one holds only what was written for its field. -/
def Uninjected (e : ServerEvent) : Prop :=
  ∃ bytes block text, e.mimeRender = .ok bytes ∧ EventStreamFraming.bodyFrames bytes = [block] ∧
    text <+: traced e ∧ utf8Bytes (String.ofList (text.map Prod.fst)) = block ∧
    ServerEvent.mimeUnrender block
      = .ok (ServerEvent.ofFields
          (fieldsOf ((settings Prod.fst text).map (Setting.map Prod.fst)))) ∧
    Own (settings Prod.fst text)

/-! ### Line ends in a text -/

/-- The lines of a text behind its first line end. -/
def strays (text : String) : List (List Char) :=
  runs isLineEnd (text.toList.dropWhile (!isLineEnd ·))

/-- What the strays of some texts set a field to, with the field of the text they are in. -/
def strayValues (f : FieldName) (ws : List (FieldName × String)) :
    List (FieldName × List Char) :=
  ws.flatMap fun w => (setTo f ((strays w.2).filterMap (lineField fun c => c))).map (w.1, ·)

/-- The texts whose strays a field's value may be of: for the event type and the identifier, those
from its own text on, if it has one. -/
def writtenFrom (e : ServerEvent) : FieldName → List (FieldName × String)
  | .comment | .data => written e
  | .event           => if e.event = none then written e else (written e).dropWhile (·.1 ≠ .event)
  | .id              => if e.id = none then written e else (written e).dropWhile (·.1 ≠ .id)

/-- An event without a blank line in its texts, and without strays that set another field. -/
structure Contained (e : ServerEvent) : Prop where
  unbroken : ∀ w ∈ written e, Unbroken w.2
  strays : ∀ f, ∀ x ∈ kept f (strayValues f (writtenFrom e f)), x.1 = f ∨ x.2 = []

/-! ### The text of the block -/

theorem fieldLines_eq (e : ServerEvent) :
    e.fieldLines = (written e).map fun w => label w.1 ++ w.2 := by
  have hlabelled : ServerEvent.labelled ": " = fun text => (splitChar '\n' text).map (": " ++ ·) :=
    rfl
  simp only [written, List.flatMap_cons, List.flatMap_nil, List.append_nil, List.map_append,
    List.map_map, Function.comp_def, texts, label, List.map_flatMap, ServerEvent.fieldLines,
    hlabelled, List.append_assoc]

theorem written_ne_nil (e : ServerEvent) : written e ≠ [] := by
  intro h
  have hlines := fieldLines_eq e
  rw [h, List.map_nil] at hlines
  exact e.fieldLines_ne_nil hlines

/-- The lines of an event, as they are written. -/
theorem traced_text (e : ServerEvent) :
    (traced e).map Prod.fst = ("\n".intercalate e.fieldLines ++ "\n").toList := by
  rw [← ServerEvent.joinLines_eq_intercalate e.fieldLines_ne_nil, ServerEvent.joinLines,
    fieldLines_eq, traced]
  induction written e with
  | nil => rfl
  | cons w ws ih =>
      rw [List.flatMap_cons, List.map_append, ih]
      simp [tracedLine, Function.comp_def]

/-- The lines of an event without the last one's end: the block. -/
def tracedBlock (e : ServerEvent) : List Traced := (traced e).dropLast

theorem traced_eq (e : ServerEvent) : ∃ f, traced e = tracedBlock e ++ [('\n', f)] := by
  obtain ⟨ws, w, hws⟩ : ∃ ws w, written e = ws ++ [w] :=
    ⟨_, _, (List.dropLast_concat_getLast (written_ne_nil e)).symm⟩
  have hcut : traced e
      = ws.flatMap (fun w => tracedLine w ++ [('\n', w.1)]) ++ tracedLine w ++ [('\n', w.1)] := by
    rw [traced, hws, List.flatMap_append, List.flatMap_singleton, List.append_assoc]
  exact ⟨w.1, by rw [tracedBlock, hcut, List.dropLast_concat]⟩

theorem tracedBlock_text (e : ServerEvent) :
    (tracedBlock e).map Prod.fst = ("\n".intercalate e.fieldLines).toList := by
  have htext := traced_text e
  obtain ⟨f, hf⟩ := traced_eq e
  rw [hf, List.map_append, String.toList_append] at htext
  exact List.append_inj_left' htext rfl

/-- A part of an event's front with the block's text is the block. -/
theorem eq_tracedBlock {e : ServerEvent} {text : List Traced} (hp : text <+: traced e)
    (h : String.ofList (text.map Prod.fst) = "\n".intercalate e.fieldLines) :
    text = tracedBlock e := by
  -- two fronts of one length are the same
  have hblock : tracedBlock e <+: traced e := List.dropLast_prefix (traced e)
  have hchars : text.map Prod.fst = (tracedBlock e).map Prod.fst := by
    rw [tracedBlock_text, ← h, String.toList_ofList]
  have hlen : text.length = (tracedBlock e).length := by
    have := congrArg List.length hchars
    rwa [List.length_map, List.length_map] at this
  exact (List.prefix_of_prefix_length_le hp hblock hlen.le).eq_of_length hlen

/-! ### The settings of the block -/

/-- A line is read as the field it is labelled with. -/
theorem lineField_label (f : FieldName) (v : List Char) :
    lineField (fun c => c) ((label f).toList ++ v) = some (f, v) := by
  cases f with
  | comment | event | id | data => rfl

theorem label_lineEnds (f : FieldName) :
    (label f).toList ≠ [] ∧ ∀ c ∈ (label f).toList, isLineEnd c = false := by
  cases f with
  | comment | event | id | data => simp [label, isLineEnd]

/-- What a text's line sets: its own field, to what stands before its first line end, and what its
strays set. -/
def lineSettings (w : FieldName × String) : List (Setting Char) :=
  (w.1, w.2.toList.takeWhile (!isLineEnd ·)) :: (strays w.2).filterMap (lineField fun c => c)

theorem settings_tracedLine (w : FieldName × String) :
    settings Prod.fst (tracedLine w) = (lineSettings w).map (Setting.map (·, w.1)) := by
  have hchar : Prod.fst ∘ (fun c : Char => (c, w.1)) = fun c => c := rfl
  have hruns : isLineEnd ∘ (fun c : Char => c) = isLineEnd := rfl
  obtain ⟨hne, hends⟩ := label_lineEnds w.1
  rw [tracedLine, settings_map, hchar, settings, hruns, String.toList_append,
    runs_append hne hends, List.filterMap_cons, lineField_label]
  rfl

theorem settings_tracedBlock (e : ServerEvent) :
    settings Prod.fst (tracedBlock e)
      = (written e).flatMap fun w => (lineSettings w).map (Setting.map (·, w.1)) := by
  obtain ⟨f, hf⟩ := traced_eq e
  have hend : ∀ g : FieldName, (isLineEnd ∘ Prod.fst) ('\n', g) = true := fun _ => rfl
  have hruns : runs (isLineEnd ∘ Prod.fst) (tracedBlock e)
      = (written e).flatMap fun w => runs (isLineEnd ∘ Prod.fst) (tracedLine w) := by
    rw [← runs_concat (hend f), ← hf]
    exact runs_flatMap (fun w => hend w.1) (written e)
  rw [settings, hruns, List.filterMap_flatMap]
  exact congrArg (List.flatMap · _) (funext fun w => settings_tracedLine w)

/-! ### What is kept of them -/

/-- A value of a field's text. -/
def tagged (x : FieldName × List Char) : List Traced := x.2.map (·, x.1)

/-- A value is a field's own when it is empty or of the field's text. -/
theorem own_tagged {f : FieldName} {x : FieldName × List Char} :
    (∀ c ∈ tagged x, c.2 = f) ↔ x.1 = f ∨ x.2 = [] := by
  constructor
  · intro h
    cases hv : x.2 with
    | nil => exact .inr rfl
    | cons c v => exact .inl (h (c, x.1) (by rw [tagged, hv]; exact List.mem_cons_self))
  · rintro (h | h) c hc
    · obtain ⟨_, -, rfl⟩ := List.mem_map.mp hc
      exact h
    · rw [tagged, h] at hc
      cases hc

/-- The settings of some lines. -/
def linesSettings (ws : List (FieldName × String)) : List (Setting Traced) :=
  ws.flatMap fun w => (lineSettings w).map (Setting.map (·, w.1))

theorem setTo_map {α β : Type*} (f : FieldName) (g : α → β) (sets : List (Setting α)) :
    setTo f (sets.map (Setting.map g)) = (setTo f sets).map (List.map g) := by
  rw [setTo, List.filterMap_map, setTo, List.map_filterMap]
  refine congrArg (List.filterMap · sets) (funext fun s => ?_)
  by_cases h : s.1 = f
  · simp [Setting.map, h]
  · simp [Setting.map, h]

theorem linesSettings_append (ws ws' : List (FieldName × String)) :
    linesSettings (ws ++ ws') = linesSettings ws ++ linesSettings ws' := List.flatMap_append

theorem strayValues_cons (f : FieldName) (w : FieldName × String)
    (ws : List (FieldName × String)) :
    strayValues f (w :: ws) = strayValues f [w] ++ strayValues f ws := by
  rw [strayValues, List.flatMap_cons, strayValues, List.flatMap_singleton, strayValues]

/-- What a field is set to in a line: the line's own text, if it is the field's, and what the
strays set it to. -/
theorem setTo_linesSettings_cons (f : FieldName) (w : FieldName × String)
    (ws : List (FieldName × String)) :
    setTo f (linesSettings (w :: ws))
      = (if w.1 = f then [tagged (w.1, w.2.toList.takeWhile (!isLineEnd ·))] else [])
        ++ (strayValues f [w]).map tagged ++ setTo f (linesSettings ws) := by
  have hstrays : (strayValues f [w]).map tagged
      = (setTo f ((strays w.2).filterMap (lineField fun c => c))).map (List.map (·, w.1)) := by
    rw [strayValues, List.flatMap_singleton, List.map_map]
    rfl
  rw [linesSettings, List.flatMap_cons, setTo_append, setTo_map, lineSettings, setTo_cons, hstrays,
    linesSettings]
  split
  · rfl
  · rfl

/-- Without a line of the field's, all it is set to are strays. -/
theorem setTo_linesSettings {f : FieldName} {ws : List (FieldName × String)}
    (h : ∀ w ∈ ws, w.1 ≠ f) : setTo f (linesSettings ws) = (strayValues f ws).map tagged := by
  induction ws with
  | nil => rfl
  | cons w ws ih =>
      obtain ⟨hw, hws⟩ := List.forall_mem_cons.mp h
      rw [setTo_linesSettings_cons, if_neg hw, ih hws, strayValues_cons f w ws, List.map_append,
        List.nil_append]

/-- All that a field is set to is its own when the strays are. -/
theorem own_all (f : FieldName) (ws : List (FieldName × String)) :
    (∀ v ∈ setTo f (linesSettings ws), ∀ c ∈ v, c.2 = f)
      ↔ ∀ x ∈ strayValues f ws, x.1 = f ∨ x.2 = [] := by
  induction ws with
  | nil => simp [linesSettings, setTo, strayValues]
  | cons w ws ih =>
      have hown : ∀ v ∈ (if w.1 = f then [tagged (w.1, w.2.toList.takeWhile (!isLineEnd ·))]
          else []), ∀ c ∈ v, c.2 = f := by
        intro v hv
        split at hv
        · next h => exact List.mem_singleton.mp hv ▸ own_tagged.mpr (.inl h)
        · cases hv
      have hstrays : (∀ v ∈ (strayValues f [w]).map tagged, ∀ c ∈ v, c.2 = f)
          ↔ ∀ x ∈ strayValues f [w], x.1 = f ∨ x.2 = [] := by
        rw [List.forall_mem_map]
        exact forall₂_congr fun x _ => own_tagged
      rw [setTo_linesSettings_cons, strayValues_cons f w ws, List.forall_mem_append,
        List.forall_mem_append, List.forall_mem_append, ih, hstrays]
      exact and_congr_left' (and_iff_right hown)

/-- The last of what a field is set to, where all are strays. -/
theorem own_last_tagged (f : FieldName) (xs : List (FieldName × List Char)) :
    (∀ v ∈ (xs.map tagged).getLast?.toList, ∀ c ∈ v, c.2 = f)
      ↔ ∀ x ∈ xs.getLast?.toList, x.1 = f ∨ x.2 = [] := by
  rw [List.getLast?_map]
  cases xs.getLast? with
  | none => simp
  | some x => simpa using own_tagged

/-- The last that a field is set to is its own when the last stray from its line on is. -/
theorem own_last {f : FieldName} {front back : List (FieldName × String)} {text : String}
    (hfront : ∀ w ∈ front, w.1 ≠ f) (hback : ∀ w ∈ back, w.1 ≠ f) :
    (∀ v ∈ (setTo f (linesSettings (front ++ (f, text) :: back))).getLast?.toList,
        ∀ c ∈ v, c.2 = f)
      ↔ ∀ x ∈ (strayValues f ((front ++ (f, text) :: back).dropWhile (·.1 ≠ f))).getLast?.toList,
          x.1 = f ∨ x.2 = [] := by
  have hdrop : (front ++ (f, text) :: back).dropWhile (·.1 ≠ f) = (f, text) :: back := by
    rw [List.dropWhile_append_of_pos (by simpa using hfront),
      List.dropWhile_cons_of_neg (by simp)]
  -- the field's line sets it anew: what the strays before set it to is forgotten
  have hvalues : setTo f (linesSettings (front ++ (f, text) :: back))
      = (strayValues f front).map tagged ++ tagged (f, text.toList.takeWhile (!isLineEnd ·))
          :: (strayValues f ((f, text) :: back)).map tagged := by
    rw [linesSettings_append, setTo_append, setTo_linesSettings hfront, setTo_linesSettings_cons,
      if_pos rfl, setTo_linesSettings hback, strayValues_cons f (f, text) back, List.map_append,
      List.append_assoc, List.singleton_append]
  have hown : ∀ c ∈ tagged (f, text.toList.takeWhile (!isLineEnd ·)), c.2 = f :=
    own_tagged.mpr (.inl rfl)
  rw [hdrop, ← own_last_tagged, hvalues, List.getLast?_append_cons, List.getLast?_cons]
  cases ((strayValues f ((f, text) :: back)).map tagged).getLast? with
  | none => simpa using hown
  | some v => rfl

/-- The texts of an event, field by field. -/
theorem written_eq (e : ServerEvent) :
    written e = (texts e .comment).map (FieldName.comment, ·)
      ++ (texts e .event).map (FieldName.event, ·) ++ (texts e .id).map (FieldName.id, ·)
      ++ (texts e .data).map (FieldName.data, ·) := by
  simp [written]

theorem ne_of_mem_map {f g : FieldName} (hne : g ≠ f) (ls : List String) :
    ∀ w ∈ ls.map (g, ·), w.1 ≠ f := by
  intro w hw
  obtain ⟨_, -, rfl⟩ := List.mem_map.mp hw
  exact hne

/-- The last that a field of one text, or of none, is set to. -/
theorem own_optional {f : FieldName} {front back ws : List (FieldName × String)}
    {text : Option String} (hws : ws = front ++ text.toList.map (f, ·) ++ back)
    (hfront : ∀ w ∈ front, w.1 ≠ f) (hback : ∀ w ∈ back, w.1 ≠ f) :
    (∀ v ∈ (setTo f (linesSettings ws)).getLast?.toList, ∀ c ∈ v, c.2 = f)
      ↔ ∀ x ∈ (strayValues f (if text = none then ws else ws.dropWhile (·.1 ≠ f))).getLast?.toList,
          x.1 = f ∨ x.2 = [] := by
  cases text with
  | none =>
      have hnone : ∀ w ∈ ws, w.1 ≠ f := by
        rw [hws, Option.toList_none, List.map_nil, List.append_nil]
        exact List.forall_mem_append.mpr ⟨hfront, hback⟩
      rw [if_pos rfl, setTo_linesSettings hnone]
      exact own_last_tagged f _
  | some text =>
      have hcut : ws = front ++ (f, text) :: back := by
        rw [hws, Option.toList_some, List.map_singleton, List.append_assoc, List.singleton_append]
      rw [if_neg (Option.some_ne_none text), hcut]
      exact own_last hfront hback

/-- What an event is read as is its fields' own when the strays are harmless. -/
theorem own_settings_iff (e : ServerEvent) :
    Own (settings Prod.fst (tracedBlock e))
      ↔ ∀ f, ∀ x ∈ kept f (strayValues f (writtenFrom e f)), x.1 = f ∨ x.2 = [] := by
  have hsettings : settings Prod.fst (tracedBlock e) = linesSettings (written e) :=
    settings_tracedBlock e
  rw [Own, hsettings]
  refine forall_congr' fun f => ?_
  -- comments and data are all kept, of the others the last one
  cases f with
  | comment => exact own_all .comment (written e)
  | event =>
      have hws : written e = (texts e .comment).map (FieldName.comment, ·)
          ++ e.event.toList.map (FieldName.event, ·) ++ ((texts e .id).map (FieldName.id, ·)
          ++ (texts e .data).map (FieldName.data, ·)) := by
        rw [written_eq, List.append_assoc _ _ (List.map _ (texts e .data))]
        rfl
      exact own_optional hws (ne_of_mem_map (by decide) _)
        (List.forall_mem_append.mpr ⟨ne_of_mem_map (by decide) _, ne_of_mem_map (by decide) _⟩)
  | id =>
      exact own_optional (written_eq e)
        (List.forall_mem_append.mpr ⟨ne_of_mem_map (by decide) _, ne_of_mem_map (by decide) _⟩)
        (ne_of_mem_map (by decide) _)
  | data => exact own_all .data (written e)

/-! ### When there is no injection -/

theorem eventLine_label (f : FieldName) : EventLine (label f) := by
  cases f with
  | comment | event | id | data => exact ServerEvent.eventLine_labels _ (by simp [label])

/-- The written texts, each with its label. -/
def lineTexts (e : ServerEvent) : List (String × String) :=
  (written e).map fun w => (label w.1, w.2)

theorem lineTexts_ne_nil (e : ServerEvent) : lineTexts e ≠ [] :=
  mt List.map_eq_nil_iff.mp (written_ne_nil e)

theorem eventLine_lineTexts (e : ServerEvent) : ∀ w ∈ lineTexts e, EventLine w.1 :=
  List.forall_mem_map.mpr fun w _ => eventLine_label w.1

theorem labelledLines_lineTexts (e : ServerEvent) : labelledLines (lineTexts e) = e.fieldLines := by
  rw [labelledLines, lineTexts, List.map_map, fieldLines_eq]
  rfl

theorem block_eq (e : ServerEvent) :
    e.block = utf8Bytes ("\n".intercalate (labelledLines (lineTexts e))) ++ [LF, LF] := by
  rw [labelledLines_lineTexts, ServerEvent.block]

theorem utf8Bytes_inj {s t : String} (h : utf8Bytes s = utf8Bytes t) : s = t := by
  have hs := fromUtf8_utf8Bytes s
  rw [h, fromUtf8_utf8Bytes] at hs
  exact (Option.some.inj hs).symm

theorem contained_of_uninjected {e : ServerEvent} (h : Uninjected e) : Contained e := by
  obtain ⟨bytes, block, text, hrender, hbody, hp, htext, -, hown⟩ := h
  obtain rfl : e.block = bytes := Except.ok.inj (e.mimeRender_eq_block.symm.trans hrender)
  have hne := lineTexts_ne_nil e
  have hlabels := eventLine_lineTexts e
  rw [block_eq] at hbody
  have hunbroken := unbroken_of_bodyFrames hne hlabels hbody
  rw [bodyFrames_of_unbroken hne hlabels hunbroken, labelledLines_lineTexts] at hbody
  -- so the text is that of the whole block
  obtain rfl : utf8Bytes ("\n".intercalate e.fieldLines) = block := (List.cons.inj hbody).1
  obtain rfl := eq_tracedBlock hp (utf8Bytes_inj htext)
  exact ⟨fun w hw => hunbroken (label w.1, w.2) (List.mem_map_of_mem hw),
    (own_settings_iff e).mp hown⟩

/-- An event's text has no byte order mark in front. -/
theorem head_tracedBlock (e : ServerEvent) :
    ((tracedBlock e).map Prod.fst).head? ≠ some '\uFEFF' := by
  obtain ⟨w, ws, hws⟩ := List.exists_cons_of_ne_nil (written_ne_nil e)
  obtain ⟨c, cs, hc, hbom⟩ := (eventLine_label w.1).head
  obtain ⟨rest, hrest⟩ :=
    exists_intercalate_cons "\n" (label w.1 ++ w.2) (ws.map fun w => label w.1 ++ w.2)
  rw [tracedBlock_text, fieldLines_eq, hws, List.map_cons, hrest, String.toList_append,
    String.toList_append, hc]
  simpa using hbom

theorem uninjected_of_contained {e : ServerEvent} (h : Contained e) : Uninjected e := by
  have hbody := bodyFrames_of_unbroken (lineTexts_ne_nil e) (eventLine_lineTexts e)
    (List.forall_mem_map.mpr h.unbroken)
  have htext : utf8Bytes (String.ofList ((tracedBlock e).map Prod.fst))
      = utf8Bytes ("\n".intercalate e.fieldLines) := by
    rw [tracedBlock_text, String.ofList_toList]
  rw [← block_eq, labelledLines_lineTexts, ← htext] at hbody
  have hread := mimeUnrender_settings (head_tracedBlock e)
  rw [settings_map] at hread
  exact ⟨_, _, _, e.mimeRender_eq_block, hbody, List.dropLast_prefix (traced e), rfl, hread,
    (own_settings_iff e).mpr h.strays⟩

/-- **When no field is injected into another.**  An event is one block whose values are each of its
own field exactly if there is no blank line in its texts, and no line in one of them that sets
another field. -/
theorem uninjected_iff (e : ServerEvent) : Uninjected e ↔ Contained e :=
  ⟨contained_of_uninjected, uninjected_of_contained⟩

/-- An event type of two lines, the second of which is read as data. -/
theorem not_uninjected_event : ¬ Uninjected ⟨none, some "x\ndata: y", none, ""⟩ := by
  intro h
  have hdata := (contained_of_uninjected h).strays .data (.event, ['y']) (by decide)
  revert hdata
  decide

end EventLines

end ServantRs
