import ServantRs.Listening.Room
import ServantRs.Routing.Head
import ServantRs.Server.Connection

/-!
# Listening — every connection on its own

* `acceptLoop_accepted`: a connection that was accepted is in one place, once.
* `acceptLoop_alone`: its future is where it would be were it the only one, whatever the others do:
  time passes, but no event of another connection, of the loop or of the semaphore reaches it.
* `serveListener_answered`, `serveRustlsListener_answered`: so a request is answered as the service
  answers it with this connection's info, and over TLS after its handshake.
-/

namespace ServantRs

section

variable {Io Addr C L : Type} {limits : ConnectionLimits} {serving : Serving Io Addr C L}
variable {s s' : LoopState Io Addr C} {e : LoopEvent Io Addr L} {es : List (LoopEvent Io Addr L)}

/-! ### One place for each -/

/-- The connections that have been accepted. -/
def accepted (es : List (LoopEvent Io Addr L)) : List (Io × Option Addr) :=
  es.filterMap fun
    | .accept io peer => some (io, peer)
    | _               => none

/-- The connection that the loop has in hand. -/
def LoopState.inHand (s : LoopState Io Addr C) : Multiset (Io × Option Addr) :=
  match s.phase with
  | .deciding io peer => {(io, peer)}
  | _                 => 0

/-- Those in hand, served, gone and refused. -/
def LoopState.everyone (s : LoopState Io Addr C) : Multiset (Io × Option Addr) :=
  s.inHand + crowd s.running + crowd s.returned + crowd s.ended + Multiset.ofList s.refused

theorem LoopStep.everyone (h : LoopStep limits serving s e s') :
    s'.everyone = s.everyone + Multiset.ofList (accepted [e]) := by
  cases h with
  | accept io peer h =>
      simp only [LoopState.everyone, LoopState.inHand, h, accepted, List.filterMap_cons,
        List.filterMap_nil, Multiset.coe_singleton]
      abel
  | acceptError h => simp [LoopState.everyone, LoopState.inHand, h, accepted]
  | wake h hle => simp [LoopState.everyone, LoopState.inHand, h, accepted]
  | spawn h hp =>
      simp only [LoopState.everyone, LoopState.inHand, h, accepted, List.filterMap_cons,
        List.filterMap_nil, crowd_append, crowd_one, Connection.accepted, Multiset.coe_nil]
      abel
  | refuse h hp =>
      simp only [LoopState.everyone, LoopState.inHand, h, accepted, List.filterMap_cons,
        List.filterMap_nil, ← Multiset.coe_add, Multiset.coe_singleton, Multiset.coe_nil]
      abel
  | serve h hstep => simp [LoopState.everyone, LoopState.inHand, crowd_set h, accepted]
  | finish h hover =>
      simp only [LoopState.everyone, LoopState.inHand, accepted, List.filterMap_cons,
        List.filterMap_nil, crowd_append, crowd_one, crowd_eraseIdx h, Multiset.coe_nil,
        ← Multiset.singleton_add]
      abel
  | panic h =>
      simp only [LoopState.everyone, LoopState.inHand, accepted, List.filterMap_cons,
        List.filterMap_nil, crowd_append, crowd_one, crowd_eraseIdx h, Multiset.coe_nil,
        ← Multiset.singleton_add]
      abel
  | release h =>
      simp only [LoopState.everyone, LoopState.inHand, accepted, List.filterMap_cons,
        List.filterMap_nil, crowd_append, crowd_one, crowd_eraseIdx h, Multiset.coe_nil,
        ← Multiset.singleton_add]
      abel
  | tick d h => simp [LoopState.everyone, LoopState.inHand, accepted]

/-- **Along every run, the connections that were accepted are those in hand, being served, over and
refused, each as often as it was accepted.** -/
theorem acceptLoop_accepted (h : (acceptMachine limits serving).Run es s) :
    s.everyone = Multiset.ofList (accepted es) := by
  refine h.invariant (P := fun es s => s.everyone = Multiset.ofList (accepted es)) ?_ ?_
  · rintro _ ⟨now, rfl⟩
    rfl
  · intro es s e s' ih h
    rw [(acceptLoop_cases h).everyone, ih, accepted, accepted, accepted, List.filterMap_append,
      Multiset.coe_add]

/-- One is over, and one is refused. -/
theorem acceptLoop_accepted_brief : ∃ s : LoopState Nat Unit Unit,
    s.everyone = Multiset.ofList [(0, none), (1, none)] ∧
      (s.ended.map Connection.accepted, s.refused) = ([(0, none)], [(1, none)]) :=
  ⟨_, acceptLoop_accepted briefEvents_run, rfl⟩

/-! ### Alone -/

/-- A connection served on its own. -/
def Serving.alone (serving : Serving Io Addr C L) (io : Io) (peer : Option Addr) :
    Machine C (Duration × L) where
  Init c := ∃ now, c = serving.start now io peer
  Step c t c' := serving.step t.1 c t.2 = some c'

/-- The connections whose futures there are or were. -/
def LoopState.served (s : LoopState Io Addr C) : List (Connection Io Addr C) :=
  s.running ++ s.returned ++ s.ended

/-- A step leaves a connection as it was, starts it, or is one of its own. -/
theorem LoopStep.served (h : LoopStep limits serving s e s') {c : Connection Io Addr C}
    (hc : c ∈ s'.served) :
    c ∈ s.served ∨ (∃ now, c.state = serving.start now c.io c.peer) ∨
      ∃ b ∈ s.served, ∃ l, b.io = c.io ∧ b.peer = c.peer ∧
        serving.step s.now b.state l = some c.state := by
  simp only [LoopState.served, List.mem_append] at hc ⊢
  cases h with
  | accept | acceptError | wake | refuse | tick => exact .inl hc
  | spawn h hp =>
      simp only [List.mem_append, List.mem_singleton] at hc
      rcases hc with ((hc | rfl) | hc) | hc
      · exact .inl (.inl (.inl hc))
      · exact .inr (.inl ⟨s.now, rfl⟩)
      · exact .inl (.inl (.inr hc))
      · exact .inl (.inr hc)
  | @serve i b l state h hstep =>
      rcases hc with (hc | hc) | hc
      · rcases List.mem_or_eq_of_mem_set hc with hc | rfl
        · exact .inl (.inl (.inl hc))
        · exact .inr (.inr ⟨b, .inl (.inl (List.mem_of_getElem? h)), l, rfl, rfl, hstep⟩)
      · exact .inl (.inl (.inr hc))
      · exact .inl (.inr hc)
  | finish h hover =>
      simp only [List.mem_append, List.mem_singleton] at hc
      rcases hc with (hc | hc | rfl) | hc
      · exact .inl (.inl (.inl (List.mem_of_mem_eraseIdx hc)))
      · exact .inl (.inl (.inr hc))
      · exact .inl (.inl (.inl (List.mem_of_getElem? h)))
      · exact .inl (.inr hc)
  | panic h =>
      simp only [List.mem_append, List.mem_singleton] at hc
      rcases hc with (hc | hc | rfl) | hc
      · exact .inl (.inl (.inl (List.mem_of_mem_eraseIdx hc)))
      · exact .inl (.inl (.inr hc))
      · exact .inl (.inl (.inl (List.mem_of_getElem? h)))
      · exact .inl (.inr hc)
  | release h =>
      simp only [List.mem_append, List.mem_singleton] at hc
      rcases hc with (hc | hc) | hc | rfl
      · exact .inl (.inl (.inl hc))
      · exact .inl (.inl (.inr (List.mem_of_mem_eraseIdx hc)))
      · exact .inl (.inr hc)
      · exact .inl (.inl (.inr (List.mem_of_getElem? h)))

/-- **A connection among others is where it can be alone.** -/
theorem acceptLoop_alone (h : (acceptMachine limits serving).Reachable s)
    {c : Connection Io Addr C} (hc : c ∈ s.served) :
    (serving.alone c.io c.peer).Reachable c.state := by
  refine h.invariant (P := fun s => ∀ c ∈ s.served, (serving.alone c.io c.peer).Reachable c.state)
    ?_ ?_ c hc
  · rintro _ ⟨now, rfl⟩ c hc
    simp [LoopState.served, LoopState.new] at hc
  · intro s e s' ih h c hc
    rcases (acceptLoop_cases h).served hc with hold | hnew | ⟨b, hb, l, hio, hpeer, hstep⟩
    · exact ih c hold
    · exact ⟨[], c.state, hnew, .refl⟩
    · have hb := ih b hb
      rw [hio, hpeer] at hb
      exact hb.step (e := (s.now, l)) hstep

end

/-! ### Requests -/

section

variable [AppTypes] [PercentEncoding] [HttpCrate] [MimeCrate] [Base64Crate]
variable {service : RouterService} {Io : Type}

/-- Every request was answered by the service, with the connection's info, and none before the
handshake was done. -/
def HttpConnection.Answers (service : RouterService) (info : ConnectionInfo)
    (c : HttpConnection) : Prop :=
  c.info = info ∧
    (∀ a ∈ c.answered, a.1.connectionInfo = some info ∧ a.2 = service.handle a.1) ∧
    ∀ deadline, c.phase = .handshake deadline → c.answered = []

theorem serveHttp1_answers {info : ConnectionInfo} {c c' : HttpConnection} {e : ConnectionEvent}
    (hc : c.Answers service info) (hphase : c.phase = .http)
    (h : serveHttp1 service c e = some c') : c'.Answers service info := by
  obtain ⟨rfl, hanswered, -⟩ := hc
  cases e with
  | request req =>
      obtain rfl := Option.some.inj h
      refine ⟨rfl, ?_, ?_⟩
      · intro a ha
        rcases List.mem_append.mp ha with ha | ha
        · exact hanswered a ha
        · obtain rfl := List.mem_singleton.mp ha
          exact ⟨rfl, rfl⟩
      · intro deadline hd
        rw [hphase] at hd
        cases hd
  | close =>
      obtain rfl := Option.some.inj h
      exact ⟨rfl, hanswered, fun deadline hd => by cases hd⟩
  | handshake ok => cases h
  | timeout => cases h

theorem serveConnection_answers {info : ConnectionInfo} {now : Duration} {c c' : HttpConnection}
    {e : ConnectionEvent} (hc : c.Answers service info)
    (h : serveConnection service now c e = some c') : c'.Answers service info := by
  rw [serveConnection] at h
  split at h
  · next hphase => exact serveHttp1_answers hc hphase h
  · next deadline hphase =>
      obtain ⟨hinfo, -, hbefore⟩ := hc
      have hnone := hbefore deadline hphase
      cases e with
      | handshake ok =>
          obtain rfl := Option.some.inj h
          exact ⟨hinfo, by simp [hnone], fun _ _ => hnone⟩
      | timeout =>
          simp only at h
          split at h
          · obtain rfl := Option.some.inj h
            exact ⟨hinfo, by simp [hnone], fun _ _ => hnone⟩
          · cases h
      | request req => cases h
      | close => cases h
  · cases h

/-- Served alone, a connection answers with its info, whatever happens on it and when. -/
theorem Serving.answers {serving : Serving Io AppTypes.SocketAddr HttpConnection ConnectionEvent}
    {io : Io} {peer : Option AppTypes.SocketAddr} {c : HttpConnection} (info : ConnectionInfo)
    (hstart : ∀ now, (serving.start now io peer).Answers service info)
    (hstep : serving.step = serveConnection service)
    (h : (serving.alone io peer).Reachable c) : c.Answers service info := by
  refine h.invariant (P := HttpConnection.Answers service info) ?_ ?_
  · rintro _ ⟨now, rfl⟩
    exact hstart now
  · rintro b ⟨now, e⟩ b' hb h
    rw [Serving.alone, hstep] at h
    exact serveConnection_answers hb h

variable {c : Connection Io AppTypes.SocketAddr HttpConnection} {req : HttpRequest} {res : Response}
variable {s : LoopState Io AppTypes.SocketAddr HttpConnection}

/-- **A listener answers a request as the service does, and handlers see the peer of the connection
it came on.** -/
theorem serveListener_answered {limits : ConnectionLimits}
    (h : (acceptMachine limits (plainServing service Io)).Reachable s) (hc : c ∈ s.served)
    (ha : (req, res) ∈ c.state.answered) :
    res = service.handle req ∧ req.data.remoteAddr = c.peer ∧ req.data.isSecure = false := by
  obtain ⟨-, hanswered, -⟩ := Serving.answers ⟨c.peer, false⟩
    (fun now => ⟨rfl, by simp [plainServing], by simp [plainServing]⟩) rfl (acceptLoop_alone h hc)
  obtain ⟨hinfo, hres⟩ := hanswered _ ha
  exact ⟨hres, by rw [HttpRequest.data, hinfo, Option.getD_some],
    by rw [HttpRequest.data, hinfo, Option.getD_some]⟩

/-- **A TLS listener answers a request as the service does, after the handshake of the connection it
came on; handlers see that connection's peer, and that it is secure.** -/
theorem serveRustlsListener_answered {tls : RustlsConfig}
    (h : (acceptMachine tls.limits (tlsServing service tls Io)).Reachable s) (hc : c ∈ s.served)
    (ha : (req, res) ∈ c.state.answered) :
    res = service.handle req ∧ req.data.remoteAddr = c.peer ∧ req.data.isSecure = true ∧
      ∀ deadline, c.state.phase ≠ .handshake deadline := by
  obtain ⟨-, hanswered, hbefore⟩ := Serving.answers ⟨c.peer, true⟩
    (fun now => ⟨rfl, by simp [tlsServing], by simp [tlsServing]⟩) rfl (acceptLoop_alone h hc)
  obtain ⟨hinfo, hres⟩ := hanswered _ ha
  refine ⟨hres, by rw [HttpRequest.data, hinfo, Option.getD_some],
    by rw [HttpRequest.data, hinfo, Option.getD_some], ?_⟩
  intro deadline hd
  rw [hbefore deadline hd] at ha
  cases ha

end

section

attribute [local instance] AppTypes.reference HttpCrate.reference MimeCrate.reference
  Base64Crate.reference PercentEncoding.reference

/-- A request that says of itself that it has come from elsewhere. -/
def forgedRequest : HttpRequest :=
  { rootRequest .GET none with connectionInfo := some ⟨some "elsewhere", false⟩ }

/-- The same as it is seen. -/
def seenRequest : HttpRequest :=
  { forgedRequest with connectionInfo := some ⟨some "peer", true⟩ }

/-- The connection on which it comes, after the handshake. -/
def forgingConnection (service : RouterService) : Connection Unit String HttpConnection where
  io := ()
  peer := some "peer"
  state := ⟨⟨some "peer", true⟩, .http, [(seenRequest, service.handle seenRequest)]⟩

theorem reachable_forging (service : RouterService) :
    (acceptMachine RustlsConfig.new.limits (tlsServing service .new Unit)).Reachable
      { (LoopState.new .default 0 : LoopState Unit String HttpConnection) with
        permits := DEFAULT_MAX_CONNECTIONS - 1
        running := [forgingConnection service] } :=
  ⟨_, acceptMachine_run 0 [.accept () (some "peer"), .spawn, .serve 0 (.handshake true),
    .serve 0 (.request forgedRequest)] rfl⟩

/-- It is seen to have come from the peer. -/
theorem serveRustlsListener_answered_forged :
    seenRequest.data.remoteAddr = some "peer" ∧ seenRequest.data.isSecure = true := by
  obtain ⟨-, hpeer, hsecure, -⟩ :=
    serveRustlsListener_answered (reachable_forging (.new (serve searchApi)))
      (List.mem_singleton_self (forgingConnection _)) (List.mem_singleton_self (seenRequest, _))
  exact ⟨hpeer, hsecure⟩

end

end ServantRs
