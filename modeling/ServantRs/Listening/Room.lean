import Mathlib.Algebra.Order.Group.Multiset
import Mathlib.Tactic.Abel
import ServantRs.Listening.Steps

/-!
# Listening — a room of guests

What the accept loop is for, without its phases, its tasks and its clock: a room for so many guests
(`Room`).  A guest enters while there is room, and is turned away when there is none; who is in may
leave.

The guests are the connections that hold a permit (`LoopState.room`), and every step of the loop is
one of the room's or changes nothing in it (`room_refined`).
-/

namespace ServantRs

/-- Who is in, who has left and who has been turned away. -/
structure Room (G : Type) where
  guests : Multiset G
  left : Multiset G
  turnedAway : Multiset G

inductive RoomEvent (G : Type) where
  | enter (g : G)
  | leave (g : G)
  | turnAway (g : G)

namespace Room

variable {G : Type}

/-- A room for `cap` guests. -/
inductive Step (cap : Nat) : Room G → RoomEvent G → Room G → Prop
  | enter {r : Room G} (g : G) (h : r.guests.card < cap) :
      Step cap r (.enter g) { r with guests := g ::ₘ r.guests }
  | leave {r : Room G} {g : G} {rest : Multiset G} (h : r.guests = g ::ₘ rest) :
      Step cap r (.leave g) { r with guests := rest, left := g ::ₘ r.left }
  | turnAway {r : Room G} (g : G) (h : r.guests.card = cap) :
      Step cap r (.turnAway g) { r with turnedAway := g ::ₘ r.turnedAway }

/-- The room, empty at first. -/
def machine (G : Type) (cap : Nat) : Machine (Room G) (RoomEvent G) where
  Init r := r = ⟨0, 0, 0⟩
  Step := Step cap

end Room

section

variable {Io Addr C L : Type} {limits : ConnectionLimits} {serving : Serving Io Addr C L}
variable {s s' : LoopState Io Addr C} {e : LoopEvent Io Addr L}

/-- A connection as it was accepted. -/
def Connection.accepted (c : Connection Io Addr C) : Io × Option Addr := (c.io, c.peer)

/-- The connections of a list, in any order. -/
def crowd (cs : List (Connection Io Addr C)) : Multiset (Io × Option Addr) :=
  Multiset.ofList (cs.map Connection.accepted)

@[simp] theorem crowd_nil : crowd ([] : List (Connection Io Addr C)) = 0 := rfl

@[simp] theorem card_crowd (cs : List (Connection Io Addr C)) :
    (crowd cs).card = cs.length := by
  simp [crowd]

theorem crowd_append (cs ds : List (Connection Io Addr C)) :
    crowd (cs ++ ds) = crowd cs + crowd ds := by
  simp [crowd]

theorem crowd_one (c : Connection Io Addr C) : crowd [c] = {c.accepted} := rfl

/-- A connection is served under the name it was accepted by. -/
theorem crowd_set {cs : List (Connection Io Addr C)} {i : Nat} {c : Connection Io Addr C}
    (h : cs[i]? = some c) (state : C) : crowd (cs.set i { c with state }) = crowd cs := by
  obtain ⟨hlt, rfl⟩ := List.getElem?_eq_some_iff.mp h
  have hset := (List.set_perm_cons_eraseIdx hlt { cs[i] with state }).map Connection.accepted
  have hget := (List.getElem_cons_eraseIdx_perm hlt).map Connection.accepted
  exact Multiset.coe_eq_coe.mpr (hset.trans hget)

theorem crowd_eraseIdx {cs : List (Connection Io Addr C)} {i : Nat} {c : Connection Io Addr C}
    (h : cs[i]? = some c) : crowd cs = c.accepted ::ₘ crowd (cs.eraseIdx i) := by
  obtain ⟨hlt, rfl⟩ := List.getElem?_eq_some_iff.mp h
  exact Multiset.coe_eq_coe.mpr ((List.getElem_cons_eraseIdx_perm hlt).symm.map _)

/-! ### Permits -/

/-- Every permit is there, or is held by a task. -/
def LoopState.Balanced (limits : ConnectionLimits) (s : LoopState Io Addr C) : Prop :=
  s.permits + s.running.length + s.returned.length = limits.maxConnections

theorem LoopStep.balanced (h : LoopStep limits serving s e s') (hs : s.Balanced limits) :
    s'.Balanced limits := by
  simp only [LoopState.Balanced] at hs ⊢
  cases h with
  | accept | acceptError | wake | refuse | tick => exact hs
  | spawn h hp => simp only [List.length_append, List.length_singleton]; omega
  | serve h hstep => simpa using hs
  | finish h hover =>
      have hlt := (List.getElem?_eq_some_iff.mp h).1
      simp only [List.length_eraseIdx_of_lt hlt, List.length_append, List.length_singleton]
      omega
  | panic h =>
      have hlt := (List.getElem?_eq_some_iff.mp h).1
      simp only [List.length_eraseIdx_of_lt hlt, List.length_append, List.length_singleton]
      omega
  | release h =>
      have hlt := (List.getElem?_eq_some_iff.mp h).1
      simp only [List.length_eraseIdx_of_lt hlt]
      omega

theorem LoopState.balanced (h : (acceptMachine limits serving).Reachable s) :
    s.Balanced limits := by
  refine h.invariant (P := LoopState.Balanced limits) ?_ fun _ _ _ hs h =>
    (acceptLoop_cases h).balanced hs
  rintro _ ⟨now, rfl⟩
  simp [LoopState.Balanced, LoopState.new]

/-! ### The room of the loop -/

/-- The guests hold a permit. -/
def LoopState.room (s : LoopState Io Addr C) : Room (Io × Option Addr) where
  guests := crowd s.running + crowd s.returned
  left := crowd s.ended
  turnedAway := Multiset.ofList s.refused

theorem LoopState.Balanced.card_guests (h : s.Balanced limits) :
    s.permits + s.room.guests.card = limits.maxConnections := by
  simpa [LoopState.room, LoopState.Balanced, Nat.add_assoc] using h

theorem LoopStep.room (h : LoopStep limits serving s e s') (hs : s.Balanced limits) :
    s'.room = s.room ∨ ∃ f, Room.Step limits.maxConnections s.room f s'.room := by
  have hcard := hs.card_guests
  cases h with
  | accept | acceptError | wake | tick => exact .inl rfl
  | @spawn io peer h hp =>
      have hroom : LoopState.room { s with
          phase := .accepting
          permits := s.permits - 1
          running := s.running ++ [⟨io, peer, serving.start s.now io peer⟩] } =
            { s.room with guests := (io, peer) ::ₘ s.room.guests } := by
        simp only [LoopState.room, crowd_append, crowd_one, Connection.accepted,
          ← Multiset.singleton_add]
        congr 1
        abel
      rw [hroom]
      exact .inr ⟨_, .enter (io, peer) (by omega)⟩
  | @refuse io peer h hp =>
      have hroom : LoopState.room { s with
          phase := .accepting, refused := s.refused ++ [(io, peer)] } =
            { s.room with turnedAway := (io, peer) ::ₘ s.room.turnedAway } := by
        simp only [LoopState.room, ← Multiset.coe_add, Multiset.coe_singleton,
          ← Multiset.singleton_add]
        congr 1
        abel
      rw [hroom]
      exact .inr ⟨_, .turnAway (io, peer) (by omega)⟩
  | serve h hstep =>
      refine .inl ?_
      simp only [LoopState.room, crowd_set h]
  | finish h hover =>
      refine .inl ?_
      simp only [LoopState.room, crowd_append, crowd_one, crowd_eraseIdx h,
        ← Multiset.singleton_add]
      congr 1
      abel
  | panic h =>
      refine .inl ?_
      simp only [LoopState.room, crowd_append, crowd_one, crowd_eraseIdx h,
        ← Multiset.singleton_add]
      congr 1
      abel
  | @release i c h =>
      have hroom : LoopState.room { s with
          permits := s.permits + 1
          returned := s.returned.eraseIdx i
          ended := s.ended ++ [c] } =
            { s.room with
              guests := crowd s.running + crowd (s.returned.eraseIdx i)
              left := c.accepted ::ₘ s.room.left } := by
        simp only [LoopState.room, crowd_append, crowd_one, ← Multiset.singleton_add]
        congr 1
        abel
      rw [hroom]
      refine .inr ⟨_, .leave ?_⟩
      simp only [LoopState.room, crowd_eraseIdx h, Multiset.add_cons]

/-- **The loop is a room for as many guests as its limit.** -/
def roomRefinement (limits : ConnectionLimits) (serving : Serving Io Addr C L) :
    (acceptMachine limits serving).Refinement
      (Room.machine (Io × Option Addr) limits.maxConnections) where
  abs := LoopState.room
  init := by
    rintro s ⟨now, rfl⟩
    rfl
  step h hs := (acceptLoop_cases hs).room (LoopState.balanced h)

/-- **The loop is a room.**  In every state of the loop the permits there are and those held by
tasks are as many as the limit, and every step is a step of a room of that size or leaves the room
as it was: a task is started only when there is room, and a connection is closed at once only when
there is none. -/
theorem acceptLoop_room (h : (acceptMachine limits serving).Reachable s) :
    (Room.machine (Io × Option Addr) limits.maxConnections).Reachable s.room ∧
      s.permits + s.room.guests.card = limits.maxConnections ∧
      ∀ e s', (acceptMachine limits serving).Step s e s' →
        s'.room = s.room ∨ ∃ f, Room.Step limits.maxConnections s.room f s'.room :=
  ⟨(roomRefinement limits serving).reachable h, (LoopState.balanced h).card_guests,
    fun _ _ hs => (acceptLoop_cases hs).room (LoopState.balanced h)⟩

end

/-- Connections that are over when they start. -/
def briefServing : Serving Nat Unit Unit Unit where
  start _ _ _ := ()
  step _ _ _ := none
  isOver _ := true
  timer _ := none

/-- The second of two connections comes while the first is being served. -/
def briefEvents : List (LoopEvent Nat Unit Unit) :=
  [.accept 0 none, .spawn, .accept 1 none, .refuse, .finish 0, .release 0]

theorem briefEvents_run : (acceptMachine (.withMaxConnections 1 .default) briefServing).Run
    briefEvents { LoopState.new (.withMaxConnections 1 .default) 0 with
      ended := [⟨0, none, ()⟩]
      refused := [(1, none)] } :=
  acceptMachine_run 0 briefEvents rfl

/-- One is served, and one is turned away. -/
theorem acceptLoop_room_brief : ∃ s : LoopState Nat Unit Unit,
    s.room = ⟨0, {(0, none)}, {(1, none)}⟩ ∧
      (Room.machine (Nat × Option Unit) 1).Reachable s.room ∧
      s.permits + s.room.guests.card = 1 :=
  have hroom := acceptLoop_room ⟨_, briefEvents_run⟩
  ⟨_, rfl, hroom.1, hroom.2.1⟩

end ServantRs
