import ServantRs.Support.Bytes
import ServantRs.Support.Machine

/-!
# Server — the accept loop

Connections are accepted one after another, and each is served on a task of its own that holds one
of the permits of a semaphore.  Without a permit the connection is closed at once; a failed accept
is retried after a pause.  The loop never returns.

What serves a connection is a parameter (`Serving`).  Time is a clock that all parts read; it does
not go past a timer that is due (`LoopState.timers`).
-/

namespace ServantRs

/-- A span of time, and a point on the clock, in nanoseconds. -/
abbrev Duration := Nat

def Duration.fromMillis (ms : Nat) : Duration := ms * 1000000

def Duration.fromSecs (secs : Nat) : Duration := secs * 1000000000

/-! ### Limits -/

/-- Default cap on connections served at once. -/
def DEFAULT_MAX_CONNECTIONS : Nat := 1024

/-- Default pause after a failed `accept`. -/
def DEFAULT_ACCEPT_ERROR_BACKOFF : Duration := .fromMillis 100

/-- `Semaphore::MAX_PERMITS`: three bits of a `usize` are flags. -/
def MAX_PERMITS : Nat := USIZE_MAX / 2 ^ 3

/-- Limits of a listener: one connection at least, and no more than a semaphore has permits for. -/
structure ConnectionLimits where
  maxConnections : Nat
  acceptErrorBackoff : Duration
  one_le : 1 ≤ maxConnections
  le_max : maxConnections ≤ MAX_PERMITS

namespace ConnectionLimits

def default : ConnectionLimits where
  maxConnections := DEFAULT_MAX_CONNECTIONS
  acceptErrorBackoff := DEFAULT_ACCEPT_ERROR_BACKOFF
  one_le := by decide
  le_max := by decide

/-- Clamped to one at least, and to the most permits at most. -/
def withMaxConnections (maxConnections : Nat) (limits : ConnectionLimits) : ConnectionLimits where
  maxConnections := max 1 (min maxConnections MAX_PERMITS)
  acceptErrorBackoff := limits.acceptErrorBackoff
  one_le := Nat.le_max_left _ _
  le_max := Nat.max_le.mpr ⟨by decide, Nat.min_le_right _ _⟩

def withAcceptErrorBackoff (backoff : Duration) (limits : ConnectionLimits) : ConnectionLimits :=
  { limits with acceptErrorBackoff := backoff }

end ConnectionLimits

/-! ### Connections -/

/-- What `serve` makes of a connection: the state of its future, the steps it takes at a time, when
it has returned, and the timer it waits for. -/
structure Serving (Io Addr C L : Type) where
  start : Duration → Io → Option Addr → C
  step : Duration → C → L → Option C
  isOver : C → Bool
  timer : C → Option Duration

/-- A connection with its future. -/
structure Connection (Io Addr C : Type) where
  io : Io
  peer : Option Addr
  state : C

/-! ### The loop -/

/-- Where the loop is: in `accept`, with a connection in hand, or asleep after a failed `accept`. -/
inductive LoopPhase (Io Addr : Type) where
  | accepting
  | deciding (io : Io) (peer : Option Addr)
  | backingOff (wake : Duration)

/-- The loop, its semaphore and the tasks it has spawned.  A task whose future has returned has
dropped its connection, and drops its permit next. -/
structure LoopState (Io Addr C : Type) where
  now : Duration
  phase : LoopPhase Io Addr
  permits : Nat
  running : List (Connection Io Addr C)
  returned : List (Connection Io Addr C)
  /-- Those whose tasks have ended. -/
  ended : List (Connection Io Addr C)
  /-- Those that were closed at once. -/
  refused : List (Io × Option Addr)

/-- What happens: to the loop, to a task (by its place in a list), or to the clock. -/
inductive LoopEvent (Io Addr L : Type) where
  | accept (io : Io) (peer : Option Addr)
  | acceptError
  | wake
  | spawn
  | refuse
  | serve (i : Nat) (l : L)
  /-- The future has returned. -/
  | finish (i : Nat)
  /-- The future has panicked, which ends the task alone. -/
  | panic (i : Nat)
  /-- A task drops its permit. -/
  | release (i : Nat)
  | tick (d : Duration)

namespace LoopState

variable {Io Addr C L : Type}

/-- The loop when it is entered. -/
def new (limits : ConnectionLimits) (now : Duration) : LoopState Io Addr C where
  now := now
  phase := .accepting
  permits := limits.maxConnections
  running := []
  returned := []
  ended := []
  refused := []

/-- The timers that are waited for. -/
def timers (serving : Serving Io Addr C L) (s : LoopState Io Addr C) : List Duration :=
  (match s.phase with
    | .backingOff wake => [wake]
    | _ => []) ++ s.running.filterMap fun c => serving.timer c.state

end LoopState

section

variable {Io Addr C L : Type} (limits : ConnectionLimits) (serving : Serving Io Addr C L)

/-- One step of `accept_loop`, of a task it has spawned, or of the clock. -/
def acceptLoop (s : LoopState Io Addr C) : LoopEvent Io Addr L → Option (LoopState Io Addr C)
  | .accept io peer =>
    match s.phase with
    | .accepting => some { s with phase := .deciding io peer }
    | _          => none
  | .acceptError =>
    match s.phase with
    | .accepting => some { s with phase := .backingOff (s.now + limits.acceptErrorBackoff) }
    | _          => none
  | .wake =>
    match s.phase with
    | .backingOff wake => if wake ≤ s.now then some { s with phase := .accepting } else none
    | _                => none
  | .spawn =>
    match s.phase with
    | .deciding io peer =>
      if 0 < s.permits then
        some { s with
          phase := .accepting
          permits := s.permits - 1
          running := s.running ++ [⟨io, peer, serving.start s.now io peer⟩] }
      else none
    | _ => none
  | .refuse =>
    match s.phase with
    | .deciding io peer =>
      if s.permits = 0 then
        some { s with phase := .accepting, refused := s.refused ++ [(io, peer)] }
      else none
    | _ => none
  | .serve i l =>
    match s.running[i]? with
    | some c =>
      (serving.step s.now c.state l).map fun state =>
        { s with running := s.running.set i { c with state } }
    | none => none
  | .finish i =>
    match s.running[i]? with
    | some c =>
      if serving.isOver c.state then
        some { s with running := s.running.eraseIdx i, returned := s.returned ++ [c] }
      else none
    | none => none
  | .panic i =>
    match s.running[i]? with
    | some c => some { s with running := s.running.eraseIdx i, returned := s.returned ++ [c] }
    | none   => none
  | .release i =>
    match s.returned[i]? with
    | some c =>
      some { s with
        permits := s.permits + 1
        returned := s.returned.eraseIdx i
        ended := s.ended ++ [c] }
    | none => none
  | .tick d =>
    if (s.timers serving).all (s.now + d ≤ ·) then some { s with now := s.now + d } else none

/-- The accept loop with its tasks. -/
def acceptMachine : Machine (LoopState Io Addr C) (LoopEvent Io Addr L) where
  Init s := ∃ now, s = .new limits now
  Step s e s' := acceptLoop limits serving s e = some s'

end

end ServantRs
