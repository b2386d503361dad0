import ServantRs.Listening.Connections

/-!
# Listening — time

The clock does not go past a timer that is due.  Nor does it stand still: whatever state the loop is
in, the timers alone let any time pass (`timers_expire`), so a client that connects and says nothing
holds a permit no longer than a handshake may take (`serveRustlsListener_recovers`).

After a failed accept the loop accepts nothing before its pause is over
(`acceptLoop_backsOff`).
-/

namespace ServantRs

section

variable {Io Addr C L : Type} {limits : ConnectionLimits} {serving : Serving Io Addr C L}
variable {s s' : LoopState Io Addr C} {e : LoopEvent Io Addr L} {es : List (LoopEvent Io Addr L)}

/-! ### The pause after a failed accept -/

/-- The time that passes. -/
def elapsed (es : List (LoopEvent Io Addr L)) : Duration :=
  (es.map fun
    | .tick d => d
    | _       => 0).sum

theorem elapsed_append (es fs : List (LoopEvent Io Addr L)) :
    elapsed (es ++ fs) = elapsed es + elapsed fs := by
  simp [elapsed]

theorem LoopStep.now (h : LoopStep limits serving s e s') : s'.now = s.now + elapsed [e] := by
  cases h <;> simp [elapsed]

/-- The loop sleeps until it is time. -/
theorem LoopStep.backingOff (h : LoopStep limits serving s e s') {wake : Duration}
    (hphase : s.phase = .backingOff wake) : s'.phase = .backingOff wake ∨ wake ≤ s'.now := by
  cases h with
  | accept io peer h => rw [hphase] at h; cases h
  | acceptError h => rw [hphase] at h; cases h
  | wake h hle =>
      rw [hphase] at h
      cases h
      exact .inr hle
  | spawn h hp => rw [hphase] at h; cases h
  | refuse h hp => rw [hphase] at h; cases h
  | serve | finish | panic | release | tick => exact .inl hphase

theorem now_le_of_path (t : (acceptMachine limits serving).Path s es s') :
    s'.now = s.now + elapsed es := by
  refine t.invariant (P := fun es s' => s'.now = s.now + elapsed es) rfl ?_
  intro es s₁ e s₂ ih h
  rw [(acceptLoop_cases h).now, ih, elapsed_append, Nat.add_assoc]

/-- **Between a failed accept and the next one passes the pause at least, whatever happens to the
connections in between.** -/
theorem acceptLoop_backsOff {mid : List (LoopEvent Io Addr L)} {io : Io} {peer : Option Addr}
    {s₁ s₂ s₃ : LoopState Io Addr C}
    (herror : acceptLoop limits serving s .acceptError = some s₁)
    (hmid : (acceptMachine limits serving).Path s₁ mid s₂)
    (haccept : acceptLoop limits serving s₂ (.accept io peer) = some s₃) :
    limits.acceptErrorBackoff ≤ elapsed mid := by
  have hnow := now_le_of_path hmid
  have hstart : s₁.now = s.now ∧ s₁.phase = .backingOff (s.now + limits.acceptErrorBackoff) := by
    cases acceptLoop_cases herror with
    | acceptError h => exact ⟨rfl, rfl⟩
  have hphase : s₂.phase = .accepting := by
    cases acceptLoop_cases haccept with
    | accept _ _ h => exact h
  have hwake := hmid.invariant
    (P := fun _ s' => s'.phase = .backingOff (s.now + limits.acceptErrorBackoff) ∨
      s.now + limits.acceptErrorBackoff ≤ s'.now) (.inl hstart.2) ?_
  · rcases hwake with hwake | hwake
    · rw [hphase] at hwake
      cases hwake
    · rw [hnow, hstart.1] at hwake
      exact Nat.le_of_add_le_add_left hwake
  · intro _ b e b' ih h
    have hstep := acceptLoop_cases h
    rcases ih with ih | ih
    · exact hstep.backingOff ih
    · exact .inr (hstep.now ▸ Nat.le_add_right_of_le ih)

/-- A state of the loop with nothing to serve. -/
def idle (now : Duration) (phase : LoopPhase Nat Unit) : LoopState Nat Unit Unit :=
  { LoopState.new .default now with phase }

/-- With the default pause. -/
theorem acceptLoop_backsOff_default : DEFAULT_ACCEPT_ERROR_BACKOFF ≤
    elapsed ([.tick DEFAULT_ACCEPT_ERROR_BACKOFF, .wake] : List (LoopEvent Nat Unit Unit)) := by
  have herror : acceptLoop .default briefServing (idle 0 .accepting) .acceptError =
      some (idle 0 (.backingOff DEFAULT_ACCEPT_ERROR_BACKOFF)) := by
    simp [acceptLoop, idle, LoopState.new, ConnectionLimits.default]
  have htick : acceptLoop .default briefServing (idle 0 (.backingOff DEFAULT_ACCEPT_ERROR_BACKOFF))
      (.tick DEFAULT_ACCEPT_ERROR_BACKOFF) =
        some (idle DEFAULT_ACCEPT_ERROR_BACKOFF (.backingOff DEFAULT_ACCEPT_ERROR_BACKOFF)) := by
    simp [acceptLoop, idle, LoopState.new, LoopState.timers]
  have hwake : acceptLoop .default briefServing
      (idle DEFAULT_ACCEPT_ERROR_BACKOFF (.backingOff DEFAULT_ACCEPT_ERROR_BACKOFF)) .wake =
        some (idle DEFAULT_ACCEPT_ERROR_BACKOFF .accepting) := by
    simp [acceptLoop, idle, LoopState.new]
  have haccept : acceptLoop .default briefServing (idle DEFAULT_ACCEPT_ERROR_BACKOFF .accepting)
      (.accept 0 none) = some (idle DEFAULT_ACCEPT_ERROR_BACKOFF (.deciding 0 none)) := by
    simp [acceptLoop, idle, LoopState.new]
  exact acceptLoop_backsOff herror ((Machine.Path.one htick).trans (.one hwake)) haccept

/-! ### Timers -/

/-- A connection starts with a timer at most, `within` from now, sets none later, and is over when
its timer has expired. -/
structure Serving.Punctual (serving : Serving Io Addr C L) (within : Duration) (expiry : L) :
    Prop where
  start : ∀ {now io peer t}, serving.timer (serving.start now io peer) = some t →
    now ≤ t ∧ t ≤ now + within
  step : ∀ {now c l c' t}, serving.step now c l = some c' → serving.timer c' = some t →
    serving.timer c = some t
  expire : ∀ {now c t}, serving.timer c = some t → t ≤ now →
    ∃ c', serving.step now c expiry = some c' ∧ serving.isOver c' = true

theorem LoopState.mem_timers {t : Duration} : t ∈ s.timers serving ↔
    s.phase = .backingOff t ∨ ∃ c ∈ s.running, serving.timer c.state = some t := by
  rw [LoopState.timers, List.mem_append, List.mem_filterMap]
  cases s.phase <;> simp [eq_comm]

/-- No timer is overdue, and none is far off. -/
def LoopState.OnTime (serving : Serving Io Addr C L) (far : Duration)
    (s : LoopState Io Addr C) : Prop :=
  ∀ t ∈ s.timers serving, s.now ≤ t ∧ t ≤ s.now + far

variable {within : Duration} {expiry : L}

/-- A timer is an old one, or has been set now. -/
theorem LoopStep.timers (hp : serving.Punctual within expiry)
    (h : LoopStep limits serving s e s') {t : Duration} (ht : t ∈ s'.timers serving) :
    (t ∈ s.timers serving) ∨
      (s'.now ≤ t ∧ t ≤ s'.now + max within limits.acceptErrorBackoff) := by
  rw [LoopState.mem_timers] at ht ⊢
  cases h with
  | accept io peer h =>
      rcases ht with ht | ht
      · cases ht
      · exact .inl (.inr ht)
  | acceptError h =>
      rcases ht with ht | ht
      · cases ht
        exact .inr ⟨Nat.le_add_right _ _, Nat.add_le_add_left (Nat.le_max_right _ _) _⟩
      · exact .inl (.inr ht)
  | wake h hle =>
      rcases ht with ht | ht
      · cases ht
      · exact .inl (.inr ht)
  | spawn h hpos =>
      rcases ht with ht | ⟨c, hc, ht⟩
      · cases ht
      · rcases List.mem_append.mp hc with hc | hc
        · exact .inl (.inr ⟨c, hc, ht⟩)
        · obtain rfl := List.mem_singleton.mp hc
          obtain ⟨hle, hfar⟩ := hp.start ht
          exact .inr ⟨hle, hfar.trans (Nat.add_le_add_left (Nat.le_max_left _ _) _)⟩
  | refuse h hzero =>
      rcases ht with ht | ht
      · cases ht
      · exact .inl (.inr ht)
  | serve h hstep =>
      rcases ht with ht | ⟨c, hc, ht⟩
      · exact .inl (.inl ht)
      · rcases List.mem_or_eq_of_mem_set hc with hc | rfl
        · exact .inl (.inr ⟨c, hc, ht⟩)
        · exact .inl (.inr ⟨_, List.mem_of_getElem? h, hp.step hstep ht⟩)
  | finish | panic =>
      rcases ht with ht | ⟨c, hc, ht⟩
      · exact .inl (.inl ht)
      · exact .inl (.inr ⟨c, List.mem_of_mem_eraseIdx hc, ht⟩)
  | release | tick => exact .inl ht

theorem LoopState.onTime (hp : serving.Punctual within expiry)
    (h : (acceptMachine limits serving).Reachable s) :
    s.OnTime serving (max within limits.acceptErrorBackoff) := by
  refine h.invariant (P := LoopState.OnTime serving (max within limits.acceptErrorBackoff)) ?_ ?_
  · rintro _ ⟨now, rfl⟩ t ht
    simp [LoopState.timers, LoopState.new] at ht
  · intro s e s' ih h t ht
    have hstep := acceptLoop_cases h
    rcases hstep.timers hp ht with hold | hnew
    · have hfar := (ih t hold).2.trans
        (Nat.add_le_add_right (hstep.now ▸ Nat.le_add_right s.now _) _)
      refine ⟨?_, hfar⟩
      cases hstep with
      | tick d hd => exact hd t hold
      | accept | acceptError | wake | spawn | refuse | serve | finish | panic | release =>
          exact (ih t hold).1
    · exact hnew

/-! ### Time passes -/

/-- What happens without any client: timers expire, tasks end, time passes. -/
inductive LoopEvent.Unprompted (expiry : L) : LoopEvent Io Addr L → Prop
  | wake : Unprompted expiry .wake
  | serve (i : Nat) : Unprompted expiry (.serve i expiry)
  | finish (i : Nat) : Unprompted expiry (.finish i)
  | release (i : Nat) : Unprompted expiry (.release i)
  | tick (d : Duration) : Unprompted expiry (.tick d)

/-- Where the loop is after its pause. -/
def LoopPhase.awake : LoopPhase Io Addr → LoopPhase Io Addr
  | .backingOff _ => .accepting
  | phase         => phase

/-- The connections that wait for no timer. -/
def LoopState.untimed (serving : Serving Io Addr C L) (s : LoopState Io Addr C) :
    List (Connection Io Addr C) :=
  s.running.filter fun c => (serving.timer c.state).isNone

/-- A connection whose timer has expired ends, and its permit is there again. -/
theorem expire_connection (limits : ConnectionLimits) (hp : serving.Punctual within expiry)
    {as bs : List (Connection Io Addr C)} {c : Connection Io Addr C} {t : Duration}
    (hs : s.running = as ++ c :: bs) (ht : serving.timer c.state = some t) (hdue : t ≤ s.now) :
    ∃ es s', (acceptMachine limits serving).Path s es s' ∧ (∀ e ∈ es, e.Unprompted expiry) ∧
      s'.now = s.now ∧ s'.phase = s.phase ∧ s'.running = as ++ bs ∧ s'.returned = s.returned := by
  obtain ⟨state, hstep, hover⟩ := hp.expire ht hdue
  have hget : s.running[as.length]? = some c := by simp [hs]
  have hset : s.running.set as.length { c with state } = as ++ { c with state } :: bs := by
    simp [hs]
  have herase : (as ++ { c with state } :: bs).eraseIdx as.length = as ++ bs := by
    simp [List.eraseIdx_append_of_length_le]
  have hserve : acceptLoop limits serving s (.serve as.length expiry) =
      some { s with running := as ++ { c with state } :: bs } := by
    simp only [acceptLoop, hget, hstep, Option.map_some, hset]
  have hfinish : acceptLoop limits serving { s with running := as ++ { c with state } :: bs }
      (.finish as.length) =
        some { s with running := as ++ bs, returned := s.returned ++ [{ c with state }] } := by
    simp [acceptLoop, hover, herase]
  have hrelease : acceptLoop limits serving
      { s with running := as ++ bs, returned := s.returned ++ [{ c with state }] }
      (.release s.returned.length) = some { s with
        running := as ++ bs
        permits := s.permits + 1
        returned := s.returned
        ended := s.ended ++ [{ c with state }] } := by
    simp [acceptLoop, List.eraseIdx_append_of_length_le]
  refine ⟨_, _, ((Machine.Path.refl.step hserve).step hfinish).step hrelease, ?_, rfl, rfl, rfl,
    rfl⟩
  intro e he
  simp only [List.nil_append, List.mem_append, List.mem_singleton] at he
  rcases he with (rfl | rfl) | rfl
  · exact .serve _
  · exact .finish _
  · exact .release _

/-- A timer that is due goes off, and no other. -/
theorem expire_one (limits : ConnectionLimits) (hp : serving.Punctual within expiry) {t : Duration}
    (ht : t ∈ s.timers serving) (hdue : t ≤ s.now) :
    ∃ es s', (acceptMachine limits serving).Path s es s' ∧ (∀ e ∈ es, e.Unprompted expiry) ∧
      s'.now = s.now ∧ s'.phase.awake = s.phase.awake ∧
      s'.untimed serving = s.untimed serving ∧ s'.returned = s.returned ∧
      (s.timers serving).Perm (t :: s'.timers serving) := by
  rcases LoopState.mem_timers.mp ht with hphase | ⟨c, hc, htimer⟩
  · have hwake : acceptLoop limits serving s .wake = some { s with phase := .accepting } := by
      simp only [acceptLoop, hphase, hdue, if_true]
    refine ⟨_, _, .one hwake, ?_, rfl, ?_, rfl, rfl, ?_⟩
    · intro e he
      rw [List.mem_singleton.mp he]
      exact .wake
    · rw [hphase]
      rfl
    · simp [LoopState.timers, hphase]
  · obtain ⟨as, bs, hs⟩ := List.append_of_mem hc
    obtain ⟨es, s', hpath, hes, hnow, hphase, hrunning, hreturned⟩ :=
      expire_connection limits hp hs htimer hdue
    refine ⟨es, s', hpath, hes, hnow, by rw [hphase], ?_, hreturned, ?_⟩
    · simp [LoopState.untimed, hrunning, hs, htimer]
    · simp only [LoopState.timers, hphase, hrunning, hs, List.filterMap_append,
        List.filterMap_cons, htimer]
      rw [← List.append_assoc, ← List.append_assoc]
      exact List.perm_middle

/-- **Timers alone let time pass, up to any point after the last of them.** -/
theorem timers_expire (limits : ConnectionLimits) (hp : serving.Punctual within expiry) {target : Duration}
    (hnow : s.now ≤ target) (htimers : ∀ t ∈ s.timers serving, s.now ≤ t ∧ t ≤ target) :
    ∃ es s', (acceptMachine limits serving).Path s es s' ∧ (∀ e ∈ es, e.Unprompted expiry) ∧
      s'.now = target ∧ s'.phase = s.phase.awake ∧ s'.running = s.untimed serving ∧
      s'.returned = s.returned := by
  induction hn : (s.timers serving).length generalizing s with
  | zero =>
      have hnone := List.length_eq_zero_iff.mp hn
      have htick : acceptLoop limits serving s (.tick (target - s.now)) =
          some { s with now := target } := by
        simp only [acceptLoop, hnone, List.all_nil, if_true, Nat.add_sub_cancel' hnow]
      refine ⟨_, _, .one htick, ?_, rfl, ?_, ?_, rfl⟩
      · intro e he
        rw [List.mem_singleton.mp he]
        exact .tick _
      · cases hphase : s.phase with
        | backingOff wake =>
            have hmem : wake ∈ s.timers serving := LoopState.mem_timers.mpr (.inl hphase)
            rw [hnone] at hmem
            cases hmem
        | accepting | deciding => rfl
      · refine (List.filter_eq_self.mpr fun c hc => ?_).symm
        cases htimer : serving.timer c.state with
        | none => rfl
        | some t =>
            have hmem : t ∈ s.timers serving := LoopState.mem_timers.mpr (.inr ⟨c, hc, htimer⟩)
            rw [hnone] at hmem
            cases hmem
  | succ n ih =>
      -- The earliest timer goes off first: the clock may be set to it.
      obtain ⟨t, hmin⟩ := Option.isSome_iff_exists.mp
        (List.isSome_min?_of_ne_nil (List.ne_nil_of_length_eq_add_one hn))
      obtain ⟨ht, hle⟩ := List.min?_eq_some_iff.mp hmin
      obtain ⟨hafter, hbefore⟩ := htimers t ht
      have htick : acceptLoop limits serving s (.tick (t - s.now)) = some { s with now := t } := by
        simp only [acceptLoop, Nat.add_sub_cancel' hafter]
        rw [if_pos (List.all_eq_true.mpr fun u hu => decide_eq_true (hle u hu))]
      obtain ⟨es, s₁, hpath, hes, hnow₁, hphase₁, hrunning₁, hreturned₁, hperm⟩ :=
        expire_one limits hp (s := { s with now := t }) ht (Nat.le_refl t)
      have hsame : LoopState.timers serving { s with now := t } = s.timers serving := rfl
      rw [hsame] at hperm
      obtain ⟨es', s', hpath', hes', hnow', hphase', hrunning', hreturned'⟩ :=
        ih (s := s₁) (hnow₁ ▸ hbefore)
          (fun u hu =>
            have hmem := hperm.mem_iff.mpr (List.mem_cons_of_mem t hu)
            ⟨hnow₁ ▸ hle u hmem, (htimers u hmem).2⟩)
          (by simpa [hn] using hperm.length_eq.symm)
      refine ⟨_, s', ((Machine.Path.one htick).trans hpath).trans hpath', ?_, hnow',
        hphase'.trans hphase₁, hrunning'.trans hrunning₁, hreturned'.trans hreturned₁⟩
      intro e he
      rcases List.mem_append.mp he with he | he
      · rcases List.mem_append.mp he with he | he
        · rw [List.mem_singleton.mp he]
          exact .tick _
        · exact hes e he
      · exact hes' e he

end

/-! ### The TLS listener -/

section

variable [AppTypes] [PercentEncoding] [HttpCrate] [MimeCrate] [Base64Crate]
variable {service : RouterService} {Io : Type}

/-- Whatever happens on a connection, it waits for no timer afterwards. -/
theorem serveConnection_timer {now : Duration} {c c' : HttpConnection} {e : ConnectionEvent}
    (h : serveConnection service now c e = some c') : c'.timer = none := by
  rw [serveConnection] at h
  split at h
  · next hphase =>
      cases e with
      | request req =>
          obtain rfl := Option.some.inj h
          simp only [HttpConnection.timer, hphase]
      | close =>
          obtain rfl := Option.some.inj h
          rfl
      | handshake | timeout => cases h
  · cases e with
    | handshake ok =>
        obtain rfl := Option.some.inj h
        cases ok <;> rfl
    | timeout =>
        simp only at h
        split at h
        · obtain rfl := Option.some.inj h
          rfl
        · cases h
    | request | close => cases h
  · cases h

theorem tlsServing_punctual (tls : RustlsConfig) :
    (tlsServing service tls Io).Punctual tls.handshakeTimeout .timeout where
  start h := by
    obtain rfl := Option.some.inj h
    exact ⟨Nat.le_add_right _ _, Nat.le_refl _⟩
  step h ht := by
    rw [show (tlsServing service tls Io).timer _ = none from serveConnection_timer h] at ht
    cases ht
  expire {now c t} ht hdue := by
    have hphase : c.phase = .handshake t := by
      simp only [tlsServing, HttpConnection.timer] at ht
      split at ht
      · next hphase => rw [hphase, Option.some.inj ht]
      · cases ht
    refine ⟨{ c with phase := .closed }, ?_, rfl⟩
    simp only [tlsServing, serveConnection, hphase, hdue, if_true]

/-- **Clients that stall in their handshakes hold up neither the clock nor the listener: from any
state, once the time for a handshake and for the pause has passed with no help from any client, the
loop is not asleep, and the permits are there but for those of the connections that were past their
handshakes or over.** -/
theorem serveRustlsListener_recovers {tls : RustlsConfig}
    {s : LoopState Io AppTypes.SocketAddr HttpConnection}
    (h : (acceptMachine tls.limits (tlsServing service tls Io)).Reachable s) :
    ∃ es s', (acceptMachine tls.limits (tlsServing service tls Io)).Path s es s' ∧
      (∀ e ∈ es, e.Unprompted .timeout) ∧
      s'.now = s.now + max tls.handshakeTimeout tls.limits.acceptErrorBackoff ∧
      (∀ wake, s'.phase ≠ .backingOff wake) ∧
      s'.running = s.running.filter (fun c => c.state.timer.isNone) ∧
      s'.permits + s'.running.length + s.returned.length = tls.limits.maxConnections := by
  have hp : (tlsServing service tls Io).Punctual tls.handshakeTimeout .timeout :=
    tlsServing_punctual tls
  obtain ⟨es, s', hpath, hes, hnow, hphase, hrunning, hreturned⟩ :=
    timers_expire tls.limits hp (Nat.le_add_right _ _) (LoopState.onTime hp h)
  have hbalanced := LoopState.balanced (h.path hpath)
  rw [LoopState.Balanced, hreturned] at hbalanced
  refine ⟨es, s', hpath, hes, hnow, ?_, hrunning, hbalanced⟩
  intro wake hwake
  rw [hphase] at hwake
  cases hs : s.phase with
  | accepting | deciding | backingOff => rw [hs] at hwake; cases hwake

end

section

attribute [local instance] AppTypes.reference HttpCrate.reference MimeCrate.reference
  Base64Crate.reference PercentEncoding.reference

/-- Time passes, and the connection goes on. -/
theorem serveRustlsListener_recovers_forging :
    ∃ (es : List (LoopEvent Unit String ConnectionEvent))
      (s' : LoopState Unit String HttpConnection),
      (∀ e ∈ es, e.Unprompted .timeout) ∧ s'.now = DEFAULT_HANDSHAKE_TIMEOUT ∧
        s'.running = [forgingConnection (.new (serve searchApi))] := by
  obtain ⟨es, s', -, hes, hnow, -, hrunning, -⟩ :=
    serveRustlsListener_recovers (reachable_forging (.new (serve searchApi)))
  exact ⟨es, s', hes, hnow, hrunning⟩

end

end ServantRs
