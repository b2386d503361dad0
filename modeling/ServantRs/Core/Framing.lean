import ServantRs.Core.Stream
import ServantRs.Support.Bytes

/-!
# Core — framings

The four ways items are delimited: not at all, by a newline, as netstrings (`<len>:<item>,`), and
as blocks of a server-sent event stream, which a blank line ends.  `deframe` takes a frame off the
front of a buffer; `deframeLimited`, for request bodies, also tells a malformed frame from an
incomplete one and bounds its size.
-/

namespace ServantRs

def LF : UInt8 := 10
def CR : UInt8 := 13
def COLON : UInt8 := 58
def COMMA : UInt8 := 44

/-- What is left at the end of a body is a frame. -/
def flushAtEof (buf : Bytes) (eof : Bool) : Option Bytes × Bytes :=
  if eof ∧ buf ≠ [] then (some buf, []) else (none, buf)

/-- `Framing::deframe_limited`, where a framing does not give its own. -/
def deframeWithin (deframe : Bytes → Bool → Option Bytes × Bytes) (buf : Bytes) (eof : Bool)
    (maxFrameBytes : Nat) : Except StreamBodyError (Option Bytes) × Bytes :=
  if maxFrameBytes < buf.length then (.error (.frameTooLarge maxFrameBytes), buf)
  else match deframe buf eof with
    | (some frame, buf) =>
      if maxFrameBytes < frame.length then (.error (.frameTooLarge maxFrameBytes), buf)
      else (.ok (some frame), buf)
    | (none, buf) =>
      if eof ∧ buf ≠ [] then (.error (.malformedFrame "incomplete trailing frame"), buf)
      else (.ok none, buf)

/-! ### Without delimiters, and newlines -/

/-- Items are not delimited: the whole body is one. -/
def NoFraming : Framing where
  frame rendered := rendered
  deframe := flushAtEof
  deframeLimited := deframeWithin flushAtEof

namespace NewlineFraming

def deframe (buf : Bytes) (eof : Bool) : Option Bytes × Bytes :=
  match position LF buf with
  | some i => (some (buf.take i), buf.drop (i + 1))
  | none   => flushAtEof buf eof

end NewlineFraming

/-- Each item is followed by a newline. -/
def NewlineFraming : Framing where
  frame rendered := rendered ++ [LF]
  deframe := NewlineFraming.deframe
  deframeLimited := deframeWithin NewlineFraming.deframe

/-! ### Netstrings -/

namespace NetstringFraming

def frame (rendered : Bytes) : Bytes :=
  utf8Bytes (toString rendered.length ++ ":") ++ rendered ++ [COMMA]

/-- The item at the front of a buffer and what follows it; `none` also when there never will be
one. -/
def front (buf : Bytes) : Option (Bytes × Bytes) := do
  let colon ← position COLON buf
  let text ← fromUtf8 (buf.take colon)
  let len ← parseUsize text
  let dataStart ← checkedAdd colon 1
  let dataEnd ← checkedAdd dataStart len
  let total ← checkedAdd dataEnd 1
  if buf.length < total then none
  else if buf[dataEnd]? ≠ some COMMA then none
  else some ((buf.take dataEnd).drop dataStart, buf.drop total)

def deframe (buf : Bytes) (_eof : Bool) : Option Bytes × Bytes :=
  match front buf with
  | some (item, rest) => (some item, rest)
  | none              => (none, buf)

def malformed (message : String) : StreamBodyError := .malformedFrame message

/-- `u8::is_ascii_digit` -/
def isAsciiDigit (b : UInt8) : Bool := 48 ≤ b && b ≤ 57

def parseNetstringLen (raw : Bytes) : Except StreamBodyError Nat :=
  if raw = [] ∨ raw.all isAsciiDigit = false then
    .error (malformed "netstring length prefix is not decimal")
  else match (fromUtf8 raw).bind parseUsize with
    | some len => .ok len
    | none     => .error (malformed "netstring length prefix is invalid")

/-- A sum, or the error of its overflow. -/
def addOrMalformed (a b : Nat) : Except StreamBodyError Nat :=
  match checkedAdd a b with
  | some sum => .ok sum
  | none     => .error (malformed "netstring length overflow")

/-- The item behind a length prefix that ends at `colon`, and what follows it. -/
def itemAfter (colon : Nat) (buf : Bytes) (eof : Bool) (maxFrameBytes : Nat) :
    Except StreamBodyError (Option (Bytes × Bytes)) := do
  let len ← parseNetstringLen (buf.take colon)
  if maxFrameBytes < len then .error (.frameTooLarge maxFrameBytes)
  else
    let dataStart ← addOrMalformed colon 1
    let dataEnd ← addOrMalformed dataStart len
    let total ← addOrMalformed dataEnd 1
    if buf.length < total then
      if eof then .error (.malformedFrame "incomplete netstring frame") else .ok none
    else if buf[dataEnd]? ≠ some COMMA then
      .error (.malformedFrame "netstring frame is missing trailing comma")
    else .ok (some ((buf.take dataEnd).drop dataStart, buf.drop total))

/-- A frame, and the buffer it leaves. -/
def takeOff (buf : Bytes) : Except StreamBodyError (Option (Bytes × Bytes)) →
    Except StreamBodyError (Option Bytes) × Bytes
  | .error e                => (.error e, buf)
  | .ok none                => (.ok none, buf)
  | .ok (some (item, rest)) => (.ok (some item), rest)

def deframeLimited (buf : Bytes) (eof : Bool) (maxFrameBytes : Nat) :
    Except StreamBodyError (Option Bytes) × Bytes :=
  match position COLON buf with
  | none =>
    if maxFrameBytes < buf.length then (.error (.frameTooLarge maxFrameBytes), buf)
    else if eof ∧ buf ≠ [] then
      (.error (.malformedFrame "netstring length prefix has no colon"), buf)
    else (.ok none, buf)
  | some colon => takeOff buf (itemAfter colon buf eof maxFrameBytes)

end NetstringFraming

/-- Each item stands between its length and a comma. -/
def NetstringFraming : Framing where
  frame := NetstringFraming.frame
  deframe := NetstringFraming.deframe
  deframeLimited := NetstringFraming.deframeLimited

/-! ### Event streams -/

namespace EventStreamFraming

/-- How a block ends: the end of its last line and that of the blank line, in the order tried. -/
def eventMarks : List Bytes := [[LF, LF], [LF, CR, LF], [CR, CR], [CR, LF, CR, LF]]

/-- The length of the mark at the front of a buffer. -/
def blankLine (buf : Bytes) : Option Nat :=
  (eventMarks.find? (·.isPrefixOf buf)).map List.length

/-- Where the first event ends, and where the next one begins. -/
def findEventEnd : Bytes → Option (Nat × Nat)
  | [] => none
  | b :: buf =>
    match blankLine (b :: buf) with
    | some n => some (0, n)
    | none   => (findEventEnd buf).map fun (itemEnd, drainEnd) => (itemEnd + 1, drainEnd + 1)

def deframe (buf : Bytes) (eof : Bool) : Option Bytes × Bytes :=
  match findEventEnd buf with
  | some (itemEnd, drainEnd) => (some (buf.take itemEnd), buf.drop drainEnd)
  | none                     => flushAtEof buf eof

end EventStreamFraming

/-- Each item is an event block, which ends itself with a blank line. -/
def EventStreamFraming : Framing where
  frame rendered := rendered
  deframe := EventStreamFraming.deframe
  deframeLimited := deframeWithin EventStreamFraming.deframe

/-- The framings of the library. -/
def Framing.builtin : List Framing :=
  [NoFraming, NewlineFraming, NetstringFraming, EventStreamFraming]

end ServantRs
