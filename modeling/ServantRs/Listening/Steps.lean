import ServantRs.Server.Listener

/-!
# Listening — the steps of the accept loop

* `LoopStep`: what each event does to the loop, guards included.
* `acceptLoop_cases`: the loop takes no other steps.
-/

namespace ServantRs

section

variable {Io Addr C L : Type} (limits : ConnectionLimits) (serving : Serving Io Addr C L)

/-- The steps of the loop, of its tasks and of the clock. -/
inductive LoopStep (s : LoopState Io Addr C) : LoopEvent Io Addr L → LoopState Io Addr C → Prop
  | accept (io : Io) (peer : Option Addr) (h : s.phase = .accepting) :
      LoopStep s (.accept io peer) { s with phase := .deciding io peer }
  | acceptError (h : s.phase = .accepting) :
      LoopStep s .acceptError { s with phase := .backingOff (s.now + limits.acceptErrorBackoff) }
  | wake {wake : Duration} (h : s.phase = .backingOff wake) (hle : wake ≤ s.now) :
      LoopStep s .wake { s with phase := .accepting }
  | spawn {io : Io} {peer : Option Addr} (h : s.phase = .deciding io peer) (hp : 0 < s.permits) :
      LoopStep s .spawn { s with
        phase := .accepting
        permits := s.permits - 1
        running := s.running ++ [⟨io, peer, serving.start s.now io peer⟩] }
  | refuse {io : Io} {peer : Option Addr} (h : s.phase = .deciding io peer) (hp : s.permits = 0) :
      LoopStep s .refuse { s with phase := .accepting, refused := s.refused ++ [(io, peer)] }
  | serve {i : Nat} {c : Connection Io Addr C} {l : L} {state : C} (h : s.running[i]? = some c)
      (hs : serving.step s.now c.state l = some state) :
      LoopStep s (.serve i l) { s with running := s.running.set i { c with state } }
  | finish {i : Nat} {c : Connection Io Addr C} (h : s.running[i]? = some c)
      (hover : serving.isOver c.state = true) :
      LoopStep s (.finish i)
        { s with running := s.running.eraseIdx i, returned := s.returned ++ [c] }
  | panic {i : Nat} {c : Connection Io Addr C} (h : s.running[i]? = some c) :
      LoopStep s (.panic i)
        { s with running := s.running.eraseIdx i, returned := s.returned ++ [c] }
  | release {i : Nat} {c : Connection Io Addr C} (h : s.returned[i]? = some c) :
      LoopStep s (.release i) { s with
        permits := s.permits + 1
        returned := s.returned.eraseIdx i
        ended := s.ended ++ [c] }
  | tick (d : Duration) (h : ∀ t ∈ s.timers serving, s.now + d ≤ t) :
      LoopStep s (.tick d) { s with now := s.now + d }

variable {limits serving} {s s' : LoopState Io Addr C} {e : LoopEvent Io Addr L}

/-- **The loop takes these steps only.** -/
theorem acceptLoop_cases (h : acceptLoop limits serving s e = some s') :
    LoopStep limits serving s e s' := by
  cases e with
  | accept io peer =>
      rw [acceptLoop] at h
      split at h
      · next hp =>
          obtain rfl := Option.some.inj h
          exact .accept io peer hp
      · cases h
  | acceptError =>
      rw [acceptLoop] at h
      split at h
      · next hp =>
          obtain rfl := Option.some.inj h
          exact .acceptError hp
      · cases h
  | wake =>
      rw [acceptLoop] at h
      split at h
      · next wake hp =>
          split at h
          · next hle =>
              obtain rfl := Option.some.inj h
              exact .wake hp hle
          · cases h
      · cases h
  | spawn =>
      rw [acceptLoop] at h
      split at h
      · next io peer hp =>
          split at h
          · next hpos =>
              obtain rfl := Option.some.inj h
              exact .spawn hp hpos
          · cases h
      · cases h
  | refuse =>
      rw [acceptLoop] at h
      split at h
      · next io peer hp =>
          split at h
          · next hzero =>
              obtain rfl := Option.some.inj h
              exact .refuse hp hzero
          · cases h
      · cases h
  | serve i l =>
      rw [acceptLoop] at h
      split at h
      · next c hc =>
          obtain ⟨state, hs, rfl⟩ := Option.map_eq_some_iff.mp h
          exact .serve hc hs
      · cases h
  | finish i =>
      rw [acceptLoop] at h
      split at h
      · next c hc =>
          split at h
          · next hover =>
              obtain rfl := Option.some.inj h
              exact .finish hc hover
          · cases h
      · cases h
  | panic i =>
      rw [acceptLoop] at h
      split at h
      · next c hc =>
          obtain rfl := Option.some.inj h
          exact .panic hc
      · cases h
  | release i =>
      rw [acceptLoop] at h
      split at h
      · next c hc =>
          obtain rfl := Option.some.inj h
          exact .release hc
      · cases h
  | tick d =>
      rw [acceptLoop] at h
      split at h
      · next hall =>
          obtain rfl := Option.some.inj h
          exact .tick d fun t ht => of_decide_eq_true (List.all_eq_true.mp hall t ht)
      · cases h

/-- The steps of the loop one after another. -/
theorem acceptMachine_run (now : Duration) (es : List (LoopEvent Io Addr L))
    (h : es.foldlM (acceptLoop limits serving) (.new limits now) = some s) :
    (acceptMachine limits serving).Run es s :=
  ⟨_, ⟨now, rfl⟩, Machine.path_of_foldlM (fun _ _ _ h => h) h⟩

end

end ServantRs
