import ServantRs.Core.ServerEvent
import ServantRs.Streams.Client

/-!
# Streams — server-sent events, there and back

An event is written as the lines of `ServerEvent.fieldLines` and a blank line.  No line is empty or
holds a line end, so the blank line is where the block ends (`deframe_block`), and each line is read
back as the field it was written for (`mimeUnrender_fieldLines`).

* `serverEvents_round_trip`: the events come back, however their bytes are cut.
-/

namespace ServantRs

open Framing SourceStream

/-! ### Blocks of lines -/

/-- A line of an event: not empty, without line ends, and no byte order mark in front. -/
structure EventLine (line : String) : Prop where
  newline : '\n' ∉ line.toList
  carriageReturn : '\r' ∉ line.toList
  head : ∃ c cs, line.toList = c :: cs ∧ c ≠ '\uFEFF'

theorem EventLine.ne_empty {line : String} (h : EventLine line) : line ≠ "" := by
  obtain ⟨c, cs, hc, -⟩ := h.head
  rintro rfl
  cases hc

namespace EventStreamFraming

theorem LF_mem_utf8Bytes {s : String} : LF ∈ utf8Bytes s ↔ '\n' ∈ s.toList :=
  mem_utf8Bytes_iff (c := '\n') (by decide)

theorem CR_mem_utf8Bytes {s : String} : CR ∈ utf8Bytes s ↔ '\r' ∈ s.toList :=
  mem_utf8Bytes_iff (c := '\r') (by decide)

/-- Lines, with their ends, as bytes. -/
theorem utf8Bytes_intercalate : ∀ {ls : List String}, ls ≠ [] →
    utf8Bytes ("\n".intercalate ls) ++ [LF] = (ls.map utf8Bytes).flatMap (· ++ [LF])
  | [], hne => absurd rfl hne
  | [l], _ => by rw [String.intercalate_singleton]; simp
  | l :: l' :: ls, _ => by
      have hnewline : utf8Bytes "\n" = [LF] := rfl
      rw [String.intercalate_cons_cons, utf8Bytes_append, utf8Bytes_append, hnewline,
        List.append_assoc, utf8Bytes_intercalate (List.cons_ne_nil l' ls)]
      rfl

/-- A line begins with a byte that ends none. -/
theorem headed_utf8Bytes {line : String} (h : EventLine line) : Headed (utf8Bytes line) := by
  have hne : utf8Bytes line ≠ [] := mt utf8Bytes_eq_nil.mp h.ne_empty
  obtain ⟨b, bs, hb⟩ := List.exists_cons_of_ne_nil hne
  have hmem : b ∈ utf8Bytes line := hb ▸ List.mem_cons_self
  exact ⟨b, bs, hb, fun he => h.newline (LF_mem_utf8Bytes.mp (he ▸ hmem)),
    fun he => h.carriageReturn (CR_mem_utf8Bytes.mp (he ▸ hmem))⟩

/-- Lines that hold no mark are a block, which ends where the last of them does. -/
theorem findEventEnd_intercalate (rest : Bytes) {ls : List String} (hne : ls ≠ [])
    (hheads : ∀ l ∈ ls, Headed (utf8Bytes l))
    (hnone : ∀ l ∈ ls, findEventEnd (utf8Bytes l ++ [LF]) = none) :
    findEventEnd (utf8Bytes ("\n".intercalate ls) ++ LF :: LF :: rest)
      = some ((utf8Bytes ("\n".intercalate ls)).length,
          (utf8Bytes ("\n".intercalate ls)).length + 2) := by
  have hlines := utf8Bytes_intercalate hne
  have hlen : ((ls.map utf8Bytes).flatMap (· ++ [LF])).length
      = (utf8Bytes ("\n".intercalate ls)).length + 1 := by
    rw [← hlines, List.length_append, List.length_singleton]
  have hlast := findEventEnd_lines hlen (List.forall_mem_map.mpr hheads)
    (List.forall_mem_map.mpr hnone)
  rw [← hlines] at hlast
  simpa using findEventEnd_append rest hlast

/-- The end of a block of lines is where its last line ends. -/
theorem findEventEnd_block (rest : Bytes) {ls : List String} (hne : ls ≠ [])
    (h : ∀ l ∈ ls, EventLine l) :
    findEventEnd (utf8Bytes ("\n".intercalate ls) ++ LF :: LF :: rest)
      = some ((utf8Bytes ("\n".intercalate ls)).length,
          (utf8Bytes ("\n".intercalate ls)).length + 2) := by
  refine findEventEnd_intercalate rest hne (fun l hl => headed_utf8Bytes (h l hl)) fun l hl => ?_
  rw [findEventEnd_line [LF] (mt LF_mem_utf8Bytes.mp (h l hl).newline)
    (mt CR_mem_utf8Bytes.mp (h l hl).carriageReturn)]
  rfl

/-- A block of lines is taken off up to the end of its last line. -/
theorem deframe_block {ls : List String} (hne : ls ≠ []) (h : ∀ l ∈ ls, EventLine l) (rest : Bytes)
    (eof : Bool) :
    deframe (utf8Bytes ("\n".intercalate ls) ++ LF :: LF :: rest) eof
      = (some (utf8Bytes ("\n".intercalate ls)), rest) := by
  rw [deframe_eq_cutAt, cutAt_of_some (findEventEnd_block rest hne h), List.take_left,
    List.drop_length_add_append]
  rfl

end EventStreamFraming

namespace ServerEvent

/-! ### Writing -/

/-- The lines of a text behind a label. -/
def labelled (label text : String) : List String := (splitChar '\n' text).map (label ++ ·)

/-- The data lines of an event; none for empty data where another field is written. -/
def dataTexts (e : ServerEvent) : List String :=
  if e.data ≠ "" ∨ (e.comment = none ∧ e.event = none ∧ e.id = none) then splitChar '\n' e.data
  else []

/-- The lines an event is written as. -/
def fieldLines (e : ServerEvent) : List String :=
  e.comment.toList.flatMap (labelled ": ") ++ e.event.toList.map ("event: " ++ ·)
    ++ e.id.toList.map ("id: " ++ ·) ++ e.dataTexts.map ("data: " ++ ·)

/-- Lines, each with its end. -/
def joinLines (ls : List String) : String := String.join (ls.map (· ++ "\n"))

theorem joinLines_append (ls ls' : List String) :
    joinLines (ls ++ ls') = joinLines ls ++ joinLines ls' := by
  rw [joinLines, List.map_append, String.join_append, ← joinLines, ← joinLines]

theorem joinLines_eq_intercalate : ∀ {ls : List String}, ls ≠ [] →
    joinLines ls = "\n".intercalate ls ++ "\n"
  | [], h => absurd rfl h
  | [l], _ => by simp [joinLines]
  | l :: l' :: ls, _ => by
      have ih := joinLines_eq_intercalate (List.cons_ne_nil l' ls)
      have hcons : joinLines (l :: l' :: ls) = l ++ "\n" ++ joinLines (l' :: ls) := by
        simp [joinLines]
      rw [hcons, ih, String.intercalate_cons_cons, String.append_assoc, String.append_assoc,
        String.append_assoc]

theorem pushLines_eq (label text : String) :
    pushLines label text = joinLines ((splitChar '\n' text).map (label ++ ·)) := by
  rw [pushLines, joinLines, List.map_map]
  rfl

theorem pushField_eq (label : String) (value : Option String) :
    pushField label value = joinLines (value.toList.map (label ++ ·)) := by
  cases value with
  | none => rfl
  | some value => simp [pushField, joinLines]

theorem pushComment_eq (comment : Option String) :
    pushComment comment = joinLines (comment.toList.flatMap (labelled ": ")) := by
  cases comment with
  | none => rfl
  | some comment => simp [pushComment, pushLines_eq, labelled]

/-- An event is written as its lines and an empty one. -/
theorem mimeRender_eq (e : ServerEvent) :
    e.mimeRender = .ok (utf8Bytes (joinLines e.fieldLines ++ "\n")) := by
  have hdata : (if e.data ≠ "" ∨ (e.comment = none ∧ e.event = none ∧ e.id = none) then
      pushLines "data: " e.data else "") = joinLines (e.dataTexts.map ("data: " ++ ·)) := by
    rw [dataTexts]
    split
    · exact pushLines_eq _ _
    · rfl
  rw [mimeRender, fieldLines, joinLines_append, joinLines_append, joinLines_append]
  simp only [hdata, pushComment_eq, pushField_eq]

/-- No line of an event is empty, and it has one. -/
theorem fieldLines_ne_nil (e : ServerEvent) : e.fieldLines ≠ [] := by
  intro h
  simp only [fieldLines, List.append_eq_nil_iff, List.map_eq_nil_iff, List.flatMap_eq_nil_iff] at h
  obtain ⟨⟨⟨hcomment, hevent⟩, hid⟩, hdata⟩ := h
  have hnone : e.comment = none := by
    cases hc : e.comment with
    | none => rfl
    | some comment =>
        rw [hc] at hcomment
        have hlabelled := hcomment comment (by simp)
        exact absurd (List.map_eq_nil_iff.mp hlabelled) (splitChar_ne_nil '\n' comment)
  rw [dataTexts, if_pos (.inr ⟨hnone, Option.toList_eq_nil_iff.mp hevent,
    Option.toList_eq_nil_iff.mp hid⟩)] at hdata
  exact splitChar_ne_nil '\n' e.data hdata

/-- The texts of an event that come back: on one line where there is one line for them, and without
carriage returns. -/
structure Readable (e : ServerEvent) : Prop where
  comment : ∀ comment ∈ e.comment, '\r' ∉ comment.toList
  event : ∀ event ∈ e.event, '\r' ∉ event.toList ∧ '\n' ∉ event.toList
  id : ∀ id ∈ e.id, '\r' ∉ id.toList ∧ '\n' ∉ id.toList
  data : '\r' ∉ e.data.toList

/-- A value behind a label is a line when it has no line ends. -/
theorem eventLine_append {label value : String} (hlabel : EventLine label)
    (hr : '\r' ∉ value.toList) (hn : '\n' ∉ value.toList) : EventLine (label ++ value) := by
  obtain ⟨c, cs, hc, hne⟩ := hlabel.head
  constructor
  · rw [String.toList_append, List.mem_append, not_or]
    exact ⟨hlabel.newline, hn⟩
  · rw [String.toList_append, List.mem_append, not_or]
    exact ⟨hlabel.carriageReturn, hr⟩
  · exact ⟨c, cs ++ value.toList, by rw [String.toList_append, hc]; rfl, hne⟩

theorem eventLine_labels : ∀ label ∈ [": ", "event: ", "id: ", "data: "], EventLine label := by
  intro label hlabel
  simp only [List.mem_cons, List.not_mem_nil, or_false] at hlabel
  rcases hlabel with rfl | rfl | rfl | rfl
  · exact ⟨by decide, by decide, ':', _, rfl, by decide⟩
  · exact ⟨by decide, by decide, 'e', _, rfl, by decide⟩
  · exact ⟨by decide, by decide, 'i', _, rfl, by decide⟩
  · exact ⟨by decide, by decide, 'd', _, rfl, by decide⟩

/-- The pieces of a text without carriage returns have no line ends. -/
theorem eventLine_piece {label text piece : String} (hlabel : EventLine label)
    (hr : '\r' ∉ text.toList) (h : piece ∈ splitChar '\n' text) : EventLine (label ++ piece) :=
  eventLine_append hlabel (fun hx => hr (mem_of_mem_splitChar h hx).1)
    fun hx => (mem_of_mem_splitChar h hx).2 rfl

theorem eventLine_fieldLines {e : ServerEvent} (h : e.Readable) :
    ∀ l ∈ e.fieldLines, EventLine l := by
  intro l hl
  simp only [fieldLines, List.mem_append, List.mem_flatMap, List.mem_map, Option.mem_toList] at hl
  rcases hl with ((⟨comment, hc, hl⟩ | ⟨event, he, rfl⟩) | ⟨id, hi, rfl⟩) | ⟨piece, hp, rfl⟩
  · obtain ⟨piece, hp, rfl⟩ := List.mem_map.mp hl
    exact eventLine_piece (eventLine_labels _ (by simp)) (h.comment comment hc) hp
  · exact eventLine_append (eventLine_labels _ (by simp)) (h.event event he).1 (h.event event he).2
  · exact eventLine_append (eventLine_labels _ (by simp)) (h.id id hi).1 (h.id id hi).2
  · rw [dataTexts] at hp
    split at hp
    · exact eventLine_piece (eventLine_labels _ (by simp)) h.data hp
    · cases hp

/-! ### Reading -/

theorem stripSpace_append (value : String) : stripSpace (" " ++ value) = value := by
  rw [stripSpace, stripPrefix_append]
  rfl

theorem readLine_comment (acc : Fields) (comment : String) :
    acc.readLine (": " ++ comment) = { acc with comments := acc.comments ++ [comment] } := by
  have hne : ": " ++ comment ≠ "" := by simp
  have hcut : ": " ++ comment = ":" ++ (" " ++ comment) := by
    rw [← String.append_assoc]
    rfl
  rw [Fields.readLine, if_neg hne, hcut, stripPrefix_append]
  simp only [stripSpace_append]

/-- A line is read as the field it is labelled with. -/
theorem readLine_field (acc : Fields) (field : String) {c : Char} {cs : List Char}
    (hfield : field.toList = c :: cs) (hcolon : ':' ∉ field.toList) (value : String) :
    acc.readLine (field ++ ": " ++ value) = acc.set field value := by
  have hhead : (field ++ ": " ++ value).toList = c :: (cs ++ ':' :: ' ' :: value.toList) := by
    simp [hfield]
  have hne : field ++ ": " ++ value ≠ "" := by
    intro he
    rw [he] at hhead
    cases hhead
  have hc : ':' ≠ c := fun he => hcolon (by rw [hfield, ← he]; exact List.mem_cons_self)
  have hcut : field ++ ": " ++ value = field ++ String.singleton ':' ++ (" " ++ value) := by
    rw [← String.toList_inj]
    simp
  have hnone : stripPrefix ":" (field ++ ": " ++ value) = none := stripPrefix_of_head rfl hhead hc
  rw [Fields.readLine, if_neg hne, hnone, hcut, splitOnce_append hcolon]
  simp only [stripSpace_append]

theorem foldl_readLine_comments : ∀ (comments : List String) (acc : Fields),
    (comments.map (": " ++ ·)).foldl Fields.readLine acc
      = { acc with comments := acc.comments ++ comments }
  | [], acc => by simp
  | comment :: comments, acc => by
      rw [List.map_cons, List.foldl_cons, readLine_comment, foldl_readLine_comments]
      simp

theorem foldl_readLine_data : ∀ (data : List String) (acc : Fields),
    (data.map ("data: " ++ ·)).foldl Fields.readLine acc = { acc with data := acc.data ++ data }
  | [], acc => by simp
  | piece :: data, acc => by
      have hset : acc.readLine ("data: " ++ piece) = { acc with data := acc.data ++ [piece] } :=
        readLine_field acc "data" rfl (by decide) piece
      rw [List.map_cons, List.foldl_cons, hset, foldl_readLine_data]
      simp

/-- A field that is there is read; one that is not leaves what was read. -/
theorem foldl_readLine_event (event : Option String) (acc : Fields) (h : acc.event = none) :
    (event.toList.map ("event: " ++ ·)).foldl Fields.readLine acc
      = { acc with event := event } := by
  cases event with
  | none =>
      obtain ⟨event, id, comments, data⟩ := acc
      cases h
      rfl
  | some event => exact readLine_field acc "event" rfl (by decide) event

theorem foldl_readLine_id (id : Option String) (acc : Fields) (h : acc.id = none) :
    (id.toList.map ("id: " ++ ·)).foldl Fields.readLine acc = { acc with id := id } := by
  cases id with
  | none =>
      obtain ⟨event, id, comments, data⟩ := acc
      cases h
      rfl
  | some id => exact readLine_field acc "id" rfl (by decide) id

/-- The lines of an event are read as its fields. -/
theorem ofFields_fieldLines (e : ServerEvent) :
    ofFields (e.fieldLines.foldl Fields.readLine ⟨none, none, [], []⟩) = e := by
  have hcomments : e.comment.toList.flatMap (labelled ": ")
      = (e.comment.toList.flatMap (splitChar '\n')).map (": " ++ ·) := by
    rw [List.map_flatMap]
    rfl
  rw [fieldLines, hcomments, List.foldl_append, List.foldl_append, List.foldl_append,
    foldl_readLine_comments, foldl_readLine_event _ _ rfl, foldl_readLine_id _ _ rfl,
    foldl_readLine_data]
  have hcomment : (if e.comment.toList.flatMap (splitChar '\n') = [] then none
      else some ("\n".intercalate (e.comment.toList.flatMap (splitChar '\n')))) = e.comment := by
    cases e.comment with
    | none => rfl
    | some comment =>
        have hpieces : (some comment).toList.flatMap (splitChar '\n') = splitChar '\n' comment := by
          simp
        rw [hpieces, if_neg (splitChar_ne_nil '\n' comment)]
        exact congrArg some (intercalate_splitChar '\n' comment)
  have hdata : "\n".intercalate e.dataTexts = e.data := by
    rw [dataTexts]
    split
    · exact intercalate_splitChar '\n' e.data
    · next h => exact (not_ne_iff.mp (not_or.mp h).1).symm
  simp only [ofFields, List.nil_append, hcomment, hdata]

/-- A text of an event's lines is read as they are. -/
theorem normalize_lines {l : String} {ls : List String} (h : ∀ x ∈ l :: ls, EventLine x) :
    normalize ("\n".intercalate (l :: ls)) = "\n".intercalate (l :: ls) := by
  have hcr : '\r' ∉ ("\n".intercalate (l :: ls)).toList := by
    intro hmem
    rcases mem_toList_intercalate hmem with hsep | ⟨x, hx, hmem⟩
    · exact absurd hsep (by decide)
    · exact (h x hx).carriageReturn hmem
  obtain ⟨c, cs, hc, hbom⟩ := (h l List.mem_cons_self).head
  have hhead : ∃ cs', ("\n".intercalate (l :: ls)).toList = c :: cs' := by
    cases ls with
    | nil => exact ⟨cs, by rw [String.intercalate_singleton, hc]⟩
    | cons l' ls =>
        rw [String.intercalate_cons_cons, String.toList_append, String.toList_append, hc]
        exact ⟨_, rfl⟩
  obtain ⟨cs', hcs'⟩ := hhead
  have hnone : stripPrefix "\uFEFF" ("\n".intercalate (l :: ls)) = none :=
    stripPrefix_of_head rfl hcs' (Ne.symm hbom)
  rw [normalize, hnone, Option.getD_none, replaceCrLf_of_notMem hcr, String.ofList_toList,
    replaceChar_of_notMem hcr]

/-- The lines of an event are read back as the event. -/
theorem mimeUnrender_fieldLines {e : ServerEvent} (h : e.Readable) :
    codec.mimeUnrender (utf8Bytes ("\n".intercalate e.fieldLines)) = .ok e := by
  obtain ⟨l, ls, hlines⟩ := List.exists_cons_of_ne_nil e.fieldLines_ne_nil
  have hline := eventLine_fieldLines h
  have hends : ∀ x ∈ e.fieldLines, x ≠ "" ∧ '\n' ∉ x.toList ∧ '\r' ∉ x.toList := fun x hx =>
    ⟨(hline x hx).ne_empty, (hline x hx).newline, (hline x hx).carriageReturn⟩
  have hcut : strLines ("\n".intercalate e.fieldLines) = e.fieldLines :=
    strLines_intercalate e.fieldLines_ne_nil hends
  have hnormal : normalize ("\n".intercalate e.fieldLines) = "\n".intercalate e.fieldLines := by
    rw [hlines] at hline ⊢
    exact normalize_lines hline
  have hcodec : codec.mimeUnrender = mimeUnrender := rfl
  rw [hcodec, mimeUnrender, fromUtf8_utf8Bytes]
  simp only [hnormal, hcut, ofFields_fieldLines]

/-- What an event is written as: its lines, and the two newlines behind them. -/
def block (e : ServerEvent) : Bytes := utf8Bytes ("\n".intercalate e.fieldLines) ++ [LF, LF]

theorem mimeRender_eq_block (e : ServerEvent) : e.mimeRender = .ok e.block := by
  rw [mimeRender_eq, joinLines_eq_intercalate e.fieldLines_ne_nil, utf8Bytes_append,
    utf8Bytes_append, List.append_assoc]
  rfl

/-- A block is taken off as the lines it was written as. -/
theorem deframe_block {e : ServerEvent} (h : e.Readable) (rest : Bytes) (eof : Bool) :
    Framing.deframe EventStreamFraming (e.block ++ rest) eof
      = (some (utf8Bytes ("\n".intercalate e.fieldLines)), rest) := by
  have hdeframe : Framing.deframe EventStreamFraming = EventStreamFraming.deframe := rfl
  rw [hdeframe, block, List.append_assoc]
  exact EventStreamFraming.deframe_block e.fieldLines_ne_nil (eventLine_fieldLines h) rest eof

end ServerEvent

/-! ### The round trip -/

/-- **Server-sent events come back.**  Whatever chunks the frames of a list of readable events come
in, within the limit, the client reads those events, and then the end. -/
theorem serverEvents_round_trip {events : List ServerEvent} (h : ∀ e ∈ events, e.Readable)
    {rendered : List Bytes} (hrender : events.map ServerEvent.codec.mimeRender = rendered.map .ok)
    {chunks : List Bytes} (hchunks : chunks.flatten = (rendered.map EventStreamFraming.frame).flatten)
    (hle : chunks.flatten.length ≤ MAX_STREAM_FRAME_BYTES) :
    deframeDecode EventStreamFraming ServerEvent.codec (chunks.map .ok)
      = .ofList (events.map .ok) := by
  have hrendered : rendered = events.map ServerEvent.block := by
    have hblocks : events.map ServerEvent.codec.mimeRender
        = (events.map ServerEvent.block).map .ok := by
      rw [List.map_map]
      exact List.map_congr_left fun e _ => e.mimeRender_eq_block
    exact List.map_injective_iff.mpr (fun _ _ => Except.ok.inj) (hrender.symm.trans hblocks)
  have hbytes : chunks.flatten = events.flatMap ServerEvent.block := by
    have hframe : rendered.map EventStreamFraming.frame = rendered := List.map_id _
    rw [hchunks, hframe, hrendered, List.flatMap_def]
  have hs : Stable (Framing.deframe EventStreamFraming) := EventStreamFraming.stable
  exact deframeDecode_encoded hs (fun e he rest =>
    ⟨_, ServerEvent.deframe_block (h e he) rest false, ServerEvent.mimeUnrender_fieldLines (h e he)⟩)
    hbytes hle

/-- A comment of two lines, the second one empty, cut inside the first. -/
theorem serverEvents_round_trip_comment :
    deframeDecode EventStreamFraming ServerEvent.codec
        ([[58], [32, 97, LF, 58, 32, LF, LF]].map .ok)
      = .ofList ([⟨some "a\n", none, none, ""⟩].map .ok) := by
  have hreadable : ∀ e ∈ [(⟨some "a\n", none, none, ""⟩ : ServerEvent)], e.Readable := by
    intro e he
    rw [List.mem_singleton.mp he]
    constructor <;> simp
  have hrender : [(⟨some "a\n", none, none, ""⟩ : ServerEvent)].map ServerEvent.codec.mimeRender
      = [[58, 32, 97, LF, 58, 32, LF, LF]].map .ok := by decide
  exact serverEvents_round_trip hreadable hrender rfl (by decide)

end ServantRs
