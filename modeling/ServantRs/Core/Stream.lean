import ServantRs.Core.Packages

/-!
# Core — streams of items

A streaming response is a sequence of items; a streaming request body reaches the handler as a
sequence of items or errors.  A `Framing` puts a rendered item into a frame and takes frames off
a buffer.
-/

namespace ServantRs

/-- The largest frame a request body is decoded from. -/
def DEFAULT_MAX_DECODED_FRAME_BYTES : Nat := 8 * 1024 * 1024

/-- The items of a stream in order; from its end on, `none`. -/
def SourceStream (T : Type) := Nat → Option T

namespace SourceStream

variable {S T : Type}

def map {U : Type} (f : T → U) (s : SourceStream T) : SourceStream U := fun n => (s n).map f

/-- The stream a step function unfolds from a state. -/
def unfold (step : S → Option (T × S)) (s : S) : SourceStream T
  | 0     => (step s).map (·.1)
  | n + 1 => match step s with
    | some (_, s') => unfold step s' n
    | none         => none

/-- The stream of a list. -/
def ofList (items : List T) : SourceStream T := fun n => items[n]?

theorem map_ofList {U : Type} (f : T → U) (items : List T) :
    (ofList items).map f = ofList (items.map f) := by
  funext n
  exact List.getElem?_map.symm

/-- A step function yields the items from a state, and then ends. -/
inductive Yields (step : S → Option (T × S)) : S → List T → Prop where
  | done {s : S} (h : step s = none) : Yields step s []
  | item {s s' : S} {item : T} {items : List T} (h : step s = some (item, s'))
      (t : Yields step s' items) : Yields step s (item :: items)

namespace Yields

variable {step : S → Option (T × S)} {s s' : S} {items : List T}

/-- A state that steps as another yields what the other does. -/
theorem of_step_eq (h : step s = step s') (t : Yields step s' items) : Yields step s items := by
  cases t with
  | done hd => exact .done (h.trans hd)
  | item hi t => exact .item (h.trans hi) t

/-- The stream unfolded from a state is the list of what the state yields. -/
theorem unfold_eq (t : Yields step s items) : unfold step s = ofList items := by
  funext n
  induction t generalizing n with
  | done h =>
      cases n with
      | zero => rw [unfold, h]; rfl
      | succ n => rw [unfold, h]; rfl
  | item h t ih =>
      cases n with
      | zero => rw [unfold, h]; rfl
      | succ n => rw [unfold, h]; exact ih n

end Yields

end SourceStream

/-- An error among the items of a request stream. -/
inductive StreamBodyError where
  | transport (message : String)
  | malformedFrame (message : String)
  | frameTooLarge (limit : Nat)
  | decode (message : String)
deriving DecidableEq, Repr

/-- The error's text. -/
def StreamBodyError.message : StreamBodyError → String
  | transport message      => "request stream transport error: " ++ message
  | malformedFrame message => "malformed request stream frame: " ++ message
  | frameTooLarge limit    => "request stream frame exceeded " ++ toString limit ++ " bytes"
  | decode message         => "request stream item decode error: " ++ message

/-- How items are delimited.  The decoding directions return the buffer they leave. -/
structure Framing where
  frame : Bytes → Bytes
  deframe : Bytes → Bool → Option Bytes × Bytes
  deframeLimited : Bytes → Bool → Nat → Except StreamBodyError (Option Bytes) × Bytes

end ServantRs
