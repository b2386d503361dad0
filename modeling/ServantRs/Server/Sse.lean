import ServantRs.Core.ServerEvent
import ServantRs.Server.Listener

/-!
# Server — keep-alive comments

`SseKeepAlive` wraps a stream of events: it hands them on, and puts a comment between them when
none has come for an interval.  An item of the wrapped stream is a future that first waits for the
interval's first tick, then for an event or for a tick, whichever comes first; where both have come
either is taken.

The application sends events when it likes, and the consumer polls when it likes.  Time is a clock
that does not go past a tick that is waited for (`KeepAliveState.timers`).
-/

namespace ServantRs

/-- `tokio::time::Interval` with `MissedTickBehavior::Delay`: when the next tick is due, by the
period, when this one was due, and when it is taken.  A tick that is late puts the next one off, at
most to a period from now. -/
structure Interval where
  next : Duration → Duration → Duration → Duration
  le_next : ∀ period deadline now, deadline ≤ now → deadline + period ≤ next period deadline now
  next_le : ∀ period deadline now, deadline ≤ now → next period deadline now ≤ now + period

/-- `ServerEvent::comment`: a comment alone. -/
def ServerEvent.ofComment (comment : String) : ServerEvent := ⟨some comment, none, none, ""⟩

/-- A comment, put into a stream of events at an interval that is not zero. -/
structure SseKeepAlive where
  interval : Duration
  comment : String
  pos : 0 < interval

namespace SseKeepAlive

/-- An interval of zero panics. -/
def new (interval : Duration) : Option SseKeepAlive :=
  if h : 0 < interval then some ⟨interval, "keep-alive", h⟩ else none

def withComment (comment : String) (k : SseKeepAlive) : SseKeepAlive := { k with comment }

/-- The event that keeps the stream alive. -/
def beat (k : SseKeepAlive) : ServerEvent := .ofComment k.comment

end SseKeepAlive

/-- Where the wrapped stream is: between two items, before or after the first tick; in an item, at
its wait for the first tick or at its `select!`; or at the end. -/
inductive KeepAlivePhase where
  | between (primed : Bool)
  | priming
  | selecting
  | ended
deriving DecidableEq

structure KeepAliveState where
  now : Duration
  phase : KeepAlivePhase
  /-- When the interval's next tick is due. -/
  deadline : Duration
  /-- Since when the consumer waits for an item. -/
  polled : Option Duration
  /-- The application's events that have not been taken. -/
  waiting : List ServerEvent
  /-- The application's stream has ended. -/
  closed : Bool
  /-- The items of the wrapped stream so far. -/
  given : List ServerEvent

/-- What happens: to the application's stream, to the wrapped stream, or to the clock. -/
inductive KeepAliveEvent where
  | send (e : ServerEvent)
  | close
  | poll
  /-- The consumer does not wait any longer.  What the item's future has done stays done. -/
  | leave
  | prime
  | take
  | finish
  | beat
  | tick (d : Duration)

namespace KeepAliveState

/-- The wrapped stream when it is made: its interval's first tick is due at once. -/
def new (now : Duration) : KeepAliveState where
  now := now
  phase := .between false
  deadline := now
  polled := none
  waiting := []
  closed := false
  given := []

/-- The timers that are waited for. -/
def timers (s : KeepAliveState) : List Duration :=
  match s.polled, s.phase with
  | some _, .priming   => [s.deadline]
  | some _, .selecting => [s.deadline]
  | _, _               => []

/-- An item is given, and the consumer waits no more. -/
def give (item : ServerEvent) (s : KeepAliveState) : KeepAliveState :=
  { s with phase := .between true, polled := none, given := s.given ++ [item] }

end KeepAliveState

/-- One step of the wrapped stream, of what it is made from, of its consumer or of the clock. -/
def SseKeepAlive.stream (ticks : Interval) (k : SseKeepAlive) (s : KeepAliveState) :
    KeepAliveEvent → Option KeepAliveState
  | .send e => if s.closed then none else some { s with waiting := s.waiting ++ [e] }
  | .close  => if s.closed then none else some { s with closed := true }
  | .poll   =>
    match s.polled, s.phase with
    | none, .between false => some { s with phase := .priming, polled := some s.now }
    | none, .between true  => some { s with phase := .selecting, polled := some s.now }
    | none, .priming       => some { s with polled := some s.now }
    | none, .selecting     => some { s with polled := some s.now }
    | _, _                 => none
  | .leave => some { s with polled := none }
  | .prime =>
    match s.polled, s.phase with
    | some _, .priming =>
      if s.deadline ≤ s.now then
        some { s with phase := .selecting, deadline := ticks.next k.interval s.deadline s.now }
      else none
    | _, _ => none
  | .take =>
    match s.polled, s.phase, s.waiting with
    | some _, .selecting, e :: waiting => some (.give e { s with waiting })
    | _, _, _                          => none
  | .finish =>
    match s.polled, s.phase, s.waiting with
    | some _, .selecting, [] =>
      if s.closed then some { s with phase := .ended, polled := none } else none
    | _, _, _ => none
  | .beat =>
    match s.polled, s.phase with
    | some _, .selecting =>
      if s.deadline ≤ s.now then
        some (.give k.beat { s with deadline := ticks.next k.interval s.deadline s.now })
      else none
    | _, _ => none
  | .tick d => if s.timers.all (s.now + d ≤ ·) then some { s with now := s.now + d } else none

/-- A stream wrapped by `k`. -/
def SseKeepAlive.machine (ticks : Interval) (k : SseKeepAlive) :
    Machine KeepAliveState KeepAliveEvent where
  Init s := ∃ now, s = .new now
  Step s e s' := k.stream ticks s e = some s'

end ServantRs
