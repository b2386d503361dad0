import ServantRs.Core.Content

/-!
# Core — server-sent events

An event is written as lines, a field on each, and an empty line behind them.  `mimeUnrender` reads
the lines of one block back: an unknown field, and a line it knows nothing of, is passed over.
-/

namespace ServantRs

structure ServerEvent where
  comment : Option String
  event : Option String
  id : Option String
  data : String
deriving DecidableEq, Repr

namespace ServerEvent

/-! ### Writing -/

/-- The lines of a text, each behind a label. -/
def pushLines (label text : String) : String :=
  String.join ((splitChar '\n' text).map fun line => label ++ line ++ "\n")

/-- A field on one line, if it is there. -/
def pushField (label : String) : Option String → String
  | some value => label ++ value ++ "\n"
  | none       => ""

/-- Comment lines, if there is a comment. -/
def pushComment : Option String → String
  | some comment => pushLines ": " comment
  | none         => ""

def mimeRender (e : ServerEvent) : Except String Bytes :=
  -- empty data is left out where another field is written
  let data :=
    if e.data ≠ "" ∨ (e.comment = none ∧ e.event = none ∧ e.id = none) then
      pushLines "data: " e.data
    else ""
  .ok (utf8Bytes
    (pushComment e.comment ++ pushField "event: " e.event ++ pushField "id: " e.id ++ data ++ "\n"))

/-! ### Reading -/

/-- What the lines read so far say. -/
structure Fields where
  event : Option String
  id : Option String
  comments : List String
  data : List String

/-- A value without the space before it. -/
def stripSpace (value : String) : String := (stripPrefix " " value).getD value

/-- A field, by its name. -/
def Fields.set (acc : Fields) (field value : String) : Fields :=
  if field = "event" then { acc with event := some value }
  else if field = "id" then { acc with id := some value }
  else if field = "data" then { acc with data := acc.data ++ [value] }
  else acc

/-- One line more. -/
def Fields.readLine (acc : Fields) (line : String) : Fields :=
  if line = "" then acc
  else match stripPrefix ":" line with
    | some comment => { acc with comments := acc.comments ++ [stripSpace comment] }
    | none =>
      match splitOnce ':' line with
      | some (field, value) => acc.set field (stripSpace value)
      | none                => acc.set line ""

/-- A text with newlines for its line ends, and without a byte order mark. -/
def normalize (text : String) : String :=
  let text := (stripPrefix "\uFEFF" text).getD text
  replaceChar '\r' '\n' (String.ofList (replaceCrLf text.toList))

def ofFields (fields : Fields) : ServerEvent where
  comment := if fields.comments = [] then none else some ("\n".intercalate fields.comments)
  event := fields.event
  id := fields.id
  data := "\n".intercalate fields.data

def mimeUnrender (bytes : Bytes) : Except String ServerEvent :=
  match fromUtf8 bytes with
  | some text => .ok (ofFields ((strLines (normalize text)).foldl Fields.readLine ⟨none, none, [], []⟩))
  | none      => .error (utf8Error bytes)

/-- Events as `text/event-stream`. -/
def codec : Codec ServerEvent := ⟨.EventStream, mimeRender, mimeUnrender⟩

end ServerEvent

end ServantRs
