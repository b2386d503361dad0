import ServantRs.Server.Sse
import ServantRs.Streams.Pieces

/-!
# Streams — keep-alive comments

A stream that is kept alive gives its events in order, each once, with comments between them, and
ends when it has given them all (`keepAlive_padded`).  A consumer waits an interval at most, and is
sent no more comments than the intervals that have passed (`keepAlive_prompt`).  A client that
passes the comments over reads the application's events (`keepAlive_read`).
-/

namespace ServantRs

/-! ### Padding -/

/-- A list with `pad` put in anywhere. -/
inductive Padded {T : Type} (pad : T) : List T → List T → Prop
  | nil : Padded pad [] []
  | item {xs ys : List T} (x : T) (h : Padded pad xs ys) : Padded pad (x :: xs) (x :: ys)
  | pad {xs ys : List T} (h : Padded pad xs ys) : Padded pad xs (pad :: ys)

namespace Padded

variable {T : Type} {pad : T} {xs xs' ys ys' : List T}

theorem append (h : Padded pad xs ys) (h' : Padded pad xs' ys') :
    Padded pad (xs ++ xs') (ys ++ ys') := by
  induction h with
  | nil => exact h'
  | item x h ih => exact .item x ih
  | pad h ih => exact .pad ih

/-- Who passes the padding over sees the list. -/
theorem filter (h : Padded pad xs ys) {p : T → Bool} (hp : p pad = false) :
    ys.filter p = xs.filter p := by
  induction h with
  | nil => rfl
  | item x h ih => rw [List.filter_cons, List.filter_cons, ih]
  | pad h ih => rw [List.filter_cons, hp, ih]; rfl

/-- There is nothing else in it. -/
theorem mem (h : Padded pad xs ys) {y : T} (hy : y ∈ ys) : y ∈ xs ∨ y = pad := by
  induction h with
  | nil => cases hy
  | item x h ih =>
      rcases List.mem_cons.mp hy with rfl | hy
      · exact .inl List.mem_cons_self
      · exact (ih hy).imp (List.mem_cons_of_mem x) id
  | pad h ih =>
      rcases List.mem_cons.mp hy with rfl | hy
      · exact .inr rfl
      · exact ih hy

theorem length (h : Padded pad xs ys) : xs.length ≤ ys.length := by
  induction h with
  | nil => exact Nat.le_refl _
  | item x h ih => exact Nat.succ_le_succ ih
  | pad h ih => exact Nat.le_succ_of_le ih

end Padded

section

variable (ticks : Interval) (k : SseKeepAlive)

/-! ### Steps -/

/-- The steps of the wrapped stream, and of what is around it. -/
inductive KeepAliveStep (s : KeepAliveState) : KeepAliveEvent → KeepAliveState → Prop
  | send (e : ServerEvent) (h : s.closed = false) :
      KeepAliveStep s (.send e) { s with waiting := s.waiting ++ [e] }
  | close (h : s.closed = false) : KeepAliveStep s .close { s with closed := true }
  | poll {phase : KeepAlivePhase} (h : s.polled = none)
      (hphase : phase = .priming ∧ (s.phase = .between false ∨ s.phase = .priming) ∨
        phase = .selecting ∧ (s.phase = .between true ∨ s.phase = .selecting)) :
      KeepAliveStep s .poll { s with phase, polled := some s.now }
  | leave : KeepAliveStep s .leave { s with polled := none }
  | prime (h : s.phase = .priming) (hle : s.deadline ≤ s.now) :
      KeepAliveStep s .prime
        { s with phase := .selecting, deadline := ticks.next k.interval s.deadline s.now }
  | take {e : ServerEvent} {waiting : List ServerEvent} (h : s.phase = .selecting)
      (hwaiting : s.waiting = e :: waiting) :
      KeepAliveStep s .take (.give e { s with waiting })
  | finish (h : s.phase = .selecting) (hwaiting : s.waiting = []) (hclosed : s.closed = true) :
      KeepAliveStep s .finish { s with phase := .ended, polled := none }
  | beat (h : s.phase = .selecting) (hle : s.deadline ≤ s.now) :
      KeepAliveStep s .beat
        (.give k.beat { s with deadline := ticks.next k.interval s.deadline s.now })
  | tick (d : Duration) (h : ∀ t ∈ s.timers, s.now + d ≤ t) :
      KeepAliveStep s (.tick d) { s with now := s.now + d }

variable {ticks k} {s s' : KeepAliveState} {e : KeepAliveEvent}

/-- **The wrapped stream takes these steps only.** -/
theorem keepAlive_cases (h : k.stream ticks s e = some s') : KeepAliveStep ticks k s e s' := by
  cases e with
  | send e =>
      rw [SseKeepAlive.stream] at h
      split at h
      · cases h
      · next hc =>
          obtain rfl := Option.some.inj h
          exact .send e (Bool.eq_false_iff.mpr hc)
  | close =>
      rw [SseKeepAlive.stream] at h
      split at h
      · cases h
      · next hc =>
          obtain rfl := Option.some.inj h
          exact .close (Bool.eq_false_iff.mpr hc)
  | poll =>
      rw [SseKeepAlive.stream] at h
      split at h
      · next hp hs =>
          obtain rfl := Option.some.inj h
          exact .poll hp (.inl ⟨rfl, .inl hs⟩)
      · next hp hs =>
          obtain rfl := Option.some.inj h
          exact .poll hp (.inr ⟨rfl, .inl hs⟩)
      · next hp hs =>
          obtain rfl := Option.some.inj h
          have hstep : KeepAliveStep ticks k s .poll _ := .poll hp (.inl ⟨hs, .inr hs⟩)
          exact hstep
      · next hp hs =>
          obtain rfl := Option.some.inj h
          have hstep : KeepAliveStep ticks k s .poll _ := .poll hp (.inr ⟨hs, .inr hs⟩)
          exact hstep
      · cases h
  | leave =>
      obtain rfl := Option.some.inj h
      exact .leave
  | prime =>
      rw [SseKeepAlive.stream] at h
      split at h
      · next hs =>
          split at h
          · next hle =>
              obtain rfl := Option.some.inj h
              exact .prime hs hle
          · cases h
      · cases h
  | take =>
      rw [SseKeepAlive.stream] at h
      split at h
      · next hs hw =>
          obtain rfl := Option.some.inj h
          exact .take hs hw
      · cases h
  | finish =>
      rw [SseKeepAlive.stream] at h
      split at h
      · next hs hw =>
          split at h
          · next hc =>
              obtain rfl := Option.some.inj h
              exact .finish hs hw hc
          · cases h
      · cases h
  | beat =>
      rw [SseKeepAlive.stream] at h
      split at h
      · next hs =>
          split at h
          · next hle =>
              obtain rfl := Option.some.inj h
              exact .beat hs hle
          · cases h
      · cases h
  | tick d =>
      rw [SseKeepAlive.stream] at h
      split at h
      · next hall =>
          obtain rfl := Option.some.inj h
          exact .tick d fun t ht => of_decide_eq_true (List.all_eq_true.mp hall t ht)
      · cases h

/-! ### What is given -/

/-- What the application has sent. -/
def sentBy (es : List KeepAliveEvent) : List ServerEvent :=
  es.filterMap fun
    | .send e => some e
    | _       => none

theorem sentBy_append (es fs : List KeepAliveEvent) : sentBy (es ++ fs) = sentBy es ++ sentBy fs :=
  List.filterMap_append

/-- What is taken is given, padded with comments; what is not waits; and nothing waits at the
end. -/
structure KeptAlive (k : SseKeepAlive) (es : List KeepAliveEvent) (s : KeepAliveState)
    (taken : List ServerEvent) : Prop where
  padded : Padded k.beat taken s.given
  sent : sentBy es = taken ++ s.waiting
  ended : s.phase = .ended → s.closed = true ∧ s.waiting = []

variable {es : List KeepAliveEvent} {taken : List ServerEvent}

theorem sentBy_quiet (h : sentBy [e] = []) : sentBy (es ++ [e]) = sentBy es := by
  rw [sentBy_append, h, List.append_nil]

/-- **Every step keeps it so.** -/
theorem KeepAliveStep.keptAlive (h : KeepAliveStep ticks k s e s')
    (hs : KeptAlive k es s taken) : ∃ taken, KeptAlive k (es ++ [e]) s' taken := by
  have hsent := hs.sent
  cases h with
  | send e hc =>
      refine ⟨taken, hs.padded, ?_, fun hend => ?_⟩
      · rw [sentBy_append, hsent, List.append_assoc]
        rfl
      · have hclosed := (hs.ended hend).1
        rw [hc] at hclosed
        cases hclosed
  | close hc => exact ⟨taken, hs.padded, (sentBy_quiet rfl).trans hsent,
      fun hend => ⟨rfl, (hs.ended hend).2⟩⟩
  | poll hp hphase =>
      refine ⟨taken, hs.padded, (sentBy_quiet rfl).trans hsent, fun hend => ?_⟩
      rcases hphase with ⟨rfl, -⟩ | ⟨rfl, -⟩ <;> cases hend
  | leave => exact ⟨taken, hs.padded, (sentBy_quiet rfl).trans hsent, hs.ended⟩
  | prime hphase hle =>
      refine ⟨taken, hs.padded, (sentBy_quiet rfl).trans hsent, ?_⟩
      intro hend
      cases hend
  | @take e waiting hphase hw =>
      refine ⟨taken ++ [e], hs.padded.append (.item e .nil), ?_, ?_⟩
      · rw [sentBy_quiet rfl, hsent, hw, List.append_assoc]
        rfl
      · intro hend
        cases hend
  | finish hphase hw hc =>
      exact ⟨taken, hs.padded, (sentBy_quiet rfl).trans hsent, fun _ => ⟨hc, hw⟩⟩
  | beat hphase hle =>
      refine ⟨taken, ?_, (sentBy_quiet rfl).trans hsent, ?_⟩
      · have hbeat := hs.padded.append (.pad .nil)
        rwa [List.append_nil] at hbeat
      · intro hend
        cases hend
  | tick d h => exact ⟨taken, hs.padded, (sentBy_quiet rfl).trans hsent, hs.ended⟩

theorem keptAlive_of_run (t : (k.machine ticks).Run es s) : ∃ taken, KeptAlive k es s taken := by
  refine t.invariant (P := fun es s => ∃ taken, KeptAlive k es s taken) ?_ ?_
  · rintro s ⟨now, rfl⟩
    refine ⟨[], .nil, rfl, ?_⟩
    intro hend
    cases hend
  · rintro es s e s' ⟨taken, hs⟩ h
    exact (keepAlive_cases h).keptAlive hs

/-- **A stream that is kept alive gives its events in order, each once, with comments between them,
and ends only when the application's stream has ended and all its events are given.** -/
theorem keepAlive_padded (t : (k.machine ticks).Run es s) :
    ∃ taken, Padded k.beat taken s.given ∧ sentBy es = taken ++ s.waiting ∧
      (s.phase = .ended → s.closed = true ∧ s.waiting = []) := by
  obtain ⟨taken, hs⟩ := keptAlive_of_run t
  exact ⟨taken, hs.padded, hs.sent, hs.ended⟩

/-! ### Time -/

/-- The time that passes. -/
def timePassed (es : List KeepAliveEvent) : Duration :=
  (es.map fun
    | .tick d => d
    | _       => 0).sum

/-- The comments that are put in. -/
def beats (es : List KeepAliveEvent) : Nat :=
  (es.map fun
    | .beat => 1
    | _     => 0).sum

theorem timePassed_append (es fs : List KeepAliveEvent) :
    timePassed (es ++ fs) = timePassed es + timePassed fs := by
  simp [timePassed]

theorem beats_append (es fs : List KeepAliveEvent) : beats (es ++ fs) = beats es + beats fs := by
  simp [beats]

/-- The first tick has been waited for. -/
def KeepAlivePhase.primed : KeepAlivePhase → Bool
  | .between primed => primed
  | .priming        => false
  | .selecting      => true
  | .ended          => true

/-- A tick is due within an interval of the time at which it is waited for, and as many intervals
have passed before it as there were comments, and one more. -/
structure Timely (k : SseKeepAlive) (made : Duration) (es : List KeepAliveEvent)
    (s : KeepAliveState) : Prop where
  now : s.now = made + timePassed es
  unprimed : s.phase.primed = false → s.deadline = made ∧ beats es = 0
  primed : s.phase.primed = true →
    s.deadline ≤ s.now + k.interval ∧ made + (beats es + 1) * k.interval ≤ s.deadline
  polled : ∀ since, s.polled = some since → s.phase = .priming ∧ s.now ≤ since ∨
    s.phase = .selecting ∧ s.deadline ≤ since + k.interval ∧ s.now ≤ since + k.interval

variable {made : Duration}

theorem Timely.new : Timely k made [] (.new made) := by
  refine ⟨rfl, fun _ => ⟨rfl, rfl⟩, ?_, ?_⟩
  · intro h
    cases h
  · intro since h
    cases h

/-- A step that takes no time and puts no comment in. -/
theorem Timely.quiet (hs : Timely k made es s) (htime : timePassed [e] = 0) (hbeats : beats [e] = 0)
    (hnow : s'.now = s.now) (hdeadline : s'.deadline = s.deadline)
    (hprimed : s'.phase.primed = s.phase.primed)
    (hpolled : ∀ since, s'.polled = some since → s'.phase = .priming ∧ s'.now ≤ since ∨
      s'.phase = .selecting ∧ s'.deadline ≤ since + k.interval ∧ s'.now ≤ since + k.interval) :
    Timely k made (es ++ [e]) s' := by
  have hpassed : timePassed (es ++ [e]) = timePassed es := by
    rw [timePassed_append, htime, Nat.add_zero]
  have hcount : beats (es ++ [e]) = beats es := by rw [beats_append, hbeats, Nat.add_zero]
  constructor
  · rw [hnow, hpassed, hs.now]
  · rw [hprimed, hdeadline, hcount]
    exact hs.unprimed
  · rw [hprimed, hdeadline, hnow, hcount]
    exact hs.primed
  · exact hpolled

/-- **Every step is in time.** -/
theorem KeepAliveStep.timely (h : KeepAliveStep ticks k s e s') (hs : Timely k made es s) :
    Timely k made (es ++ [e]) s' := by
  cases h with
  | send e hc => exact hs.quiet rfl rfl rfl rfl rfl hs.polled
  | close hc => exact hs.quiet rfl rfl rfl rfl rfl hs.polled
  | poll hp hphase =>
      rcases hphase with ⟨rfl, hphase⟩ | ⟨rfl, hphase⟩
      · refine hs.quiet rfl rfl rfl rfl ?_ ?_
        · rcases hphase with hphase | hphase <;> simp only [hphase, KeepAlivePhase.primed]
        · intro since hsince
          obtain rfl := Option.some.inj hsince
          exact .inl ⟨rfl, Nat.le_refl _⟩
      · have hprimed : s.phase.primed = true := by
          rcases hphase with hphase | hphase <;> simp only [hphase, KeepAlivePhase.primed]
        refine hs.quiet rfl rfl rfl rfl hprimed.symm ?_
        intro since hsince
        obtain rfl := Option.some.inj hsince
        exact .inr ⟨rfl, (hs.primed hprimed).1, Nat.le_add_right _ _⟩
  | leave =>
      refine hs.quiet rfl rfl rfl rfl rfl ?_
      intro since hsince
      cases hsince
  | prime hphase hle =>
      obtain ⟨hdeadline, hbeats⟩ := hs.unprimed (by rw [hphase]; rfl)
      have hcount : beats (es ++ [.prime]) = 0 := by rw [beats_append, hbeats]; rfl
      have hnext := ticks.next_le k.interval _ _ hle
      constructor
      · rw [timePassed_append]
        exact hs.now
      · intro hprimed
        cases hprimed
      · intro _
        refine ⟨hnext, ?_⟩
        rw [hcount, Nat.zero_add, Nat.one_mul, ← hdeadline]
        exact ticks.le_next k.interval _ _ hle
      · intro since hsince
        rcases hs.polled since hsince with ⟨-, hnow⟩ | ⟨hselecting, -, -⟩
        · exact .inr ⟨rfl, Nat.le_trans hnext (Nat.add_le_add_right hnow _),
            Nat.le_add_right_of_le hnow⟩
        · rw [hphase] at hselecting
          cases hselecting
  | take hphase hw =>
      refine hs.quiet rfl rfl rfl rfl (by rw [hphase]; rfl) ?_
      intro since hsince
      cases hsince
  | finish hphase hw hc =>
      refine hs.quiet rfl rfl rfl rfl (by rw [hphase]; rfl) ?_
      intro since hsince
      cases hsince
  | beat hphase hle =>
      obtain ⟨-, hpast⟩ := hs.primed (by rw [hphase]; rfl)
      have hcount : beats (es ++ [.beat]) = beats es + 1 := beats_append _ _
      constructor
      · rw [timePassed_append]
        exact hs.now
      · intro hprimed
        cases hprimed
      · intro _
        refine ⟨ticks.next_le k.interval _ _ hle, ?_⟩
        rw [hcount, Nat.add_one_mul, ← Nat.add_assoc]
        exact Nat.le_trans (Nat.add_le_add_right hpast _) (ticks.le_next k.interval _ _ hle)
      · intro since hsince
        cases hsince
  | tick d h =>
      have hcount : beats (es ++ [.tick d]) = beats es := beats_append _ _
      have hpassed : timePassed (es ++ [.tick d]) = timePassed es + d := by
        rw [timePassed_append]
        rfl
      constructor
      · rw [hpassed, ← Nat.add_assoc, ← hs.now]
      · rw [hcount]
        exact hs.unprimed
      · intro hprimed
        rw [hcount]
        obtain ⟨hdue, hpast⟩ := hs.primed hprimed
        exact ⟨Nat.le_trans hdue (Nat.add_le_add_right (Nat.le_add_right _ _) _), hpast⟩
      · intro since hsince
        have hsince : s.polled = some since := hsince
        rcases hs.polled since hsince with ⟨hpriming, hnow⟩ | ⟨hselecting, hdue, hnow⟩
        · -- the first tick is due already
          have hle : s.now + d ≤ s.deadline := h _ (by
            rw [KeepAliveState.timers, hsince, hpriming]; exact List.mem_singleton_self _)
          obtain ⟨hdeadline, -⟩ := hs.unprimed (by rw [hpriming]; rfl)
          have hmade : made ≤ s.now := hs.now ▸ Nat.le_add_right _ _
          exact .inl ⟨hpriming, Nat.le_trans (hdeadline ▸ hle) (Nat.le_trans hmade hnow)⟩
        · have hle : s.now + d ≤ s.deadline := h _ (by
            rw [KeepAliveState.timers, hsince, hselecting]; exact List.mem_singleton_self _)
          exact .inr ⟨hselecting, hdue, Nat.le_trans hle hdue⟩

theorem timely_of_run (t : (k.machine ticks).Run es s) : ∃ made, Timely k made es s := by
  obtain ⟨_, ⟨made, rfl⟩, t⟩ := t
  exact ⟨made, t.invariant (P := Timely k made) .new fun es s e s' hs h =>
    (keepAlive_cases h).timely hs⟩

/-- What the wrapped stream does by itself. -/
def KeepAliveEvent.Own : KeepAliveEvent → Prop
  | .prime  => True
  | .beat   => True
  | .tick _ => True
  | _       => False

theorem stream_beat {since : Duration} (hpolled : s.polled = some since)
    (hphase : s.phase = .selecting) (hle : s.deadline ≤ s.now) :
    k.stream ticks s .beat =
      some (.give k.beat { s with deadline := ticks.next k.interval s.deadline s.now }) := by
  simp only [SseKeepAlive.stream, hpolled, hphase]
  exact if_pos hle

/-- At its `select!`, the stream puts a comment in when its tick is due. -/
theorem path_beat {since : Duration} (hpolled : s.polled = some since)
    (hphase : s.phase = .selecting) : ∃ es s', (k.machine ticks).Path s es s' ∧
      (∀ e ∈ es, e.Own) ∧ s'.given = s.given ++ [k.beat] ∧ s'.now = max s.now s.deadline := by
  by_cases hle : s.deadline ≤ s.now
  · refine ⟨[.beat], _, .one (stream_beat hpolled hphase hle), ?_, rfl,
      (Nat.max_eq_left hle).symm⟩
    intro e he
    rw [List.mem_singleton.mp he]
    trivial
  · have hlt : s.now ≤ s.deadline := Nat.le_of_not_le hle
    have hsum : s.now + (s.deadline - s.now) = s.deadline := Nat.add_sub_cancel' hlt
    have htick : k.stream ticks s (.tick (s.deadline - s.now)) =
        some { s with now := s.deadline } := by
      simp only [SseKeepAlive.stream, KeepAliveState.timers, hpolled, hphase, hsum,
        List.all_cons, List.all_nil, Nat.le_refl, decide_true, Bool.and_self, if_true]
    have hbeat := @stream_beat ticks k { s with now := s.deadline } since hpolled hphase
      (Nat.le_refl _)
    refine ⟨[.tick _, .beat], _, (Machine.Path.one htick).trans (.one hbeat), ?_, rfl,
      (Nat.max_eq_right hlt).symm⟩
    intro e he
    rcases List.mem_cons.mp he with rfl | he
    · trivial
    · rw [List.mem_singleton.mp he]
      trivial

/-- Where the consumer waits at the `select!`, it waits an interval at most. -/
theorem Timely.path_beat (hs : Timely k made es s) {since : Duration}
    (hpolled : s.polled = some since) (hphase : s.phase = .selecting) :
    ∃ es' s', (k.machine ticks).Path s es' s' ∧ (∀ e ∈ es', e.Own) ∧
      s'.given = s.given ++ [k.beat] ∧ s'.now ≤ since + k.interval := by
  obtain ⟨es', s', t, hown, hgiven, hnow⟩ := @ServantRs.path_beat ticks k s since hpolled hphase
  refine ⟨es', s', t, hown, hgiven, ?_⟩
  rcases hs.polled since hpolled with ⟨hpriming, -⟩ | ⟨-, hdue, hle⟩
  · rw [hphase] at hpriming
    cases hpriming
  · rw [hnow]
    exact Nat.max_le.mpr ⟨hle, hdue⟩

/-- **A consumer waits an interval at most**: no more time passes while it waits, and without the
application's help it is given a comment by then.  **No more comments are put in than intervals
have passed.** -/
theorem keepAlive_prompt (t : (k.machine ticks).Run es s) :
    (∀ since, s.polled = some since → s.now ≤ since + k.interval ∧
      ∃ es' s', (k.machine ticks).Path s es' s' ∧ (∀ e ∈ es', e.Own) ∧
        s'.given = s.given ++ [k.beat] ∧ s'.now ≤ since + k.interval) ∧
      beats es * k.interval ≤ timePassed es := by
  obtain ⟨made, hs⟩ := timely_of_run t
  constructor
  · intro since hpolled
    rcases hs.polled since hpolled with ⟨hpriming, hnow⟩ | ⟨hselecting, -, hnow⟩
    · refine ⟨Nat.le_add_right_of_le hnow, ?_⟩
      obtain ⟨hdeadline, -⟩ := hs.unprimed (by rw [hpriming]; rfl)
      have hle : s.deadline ≤ s.now := by
        rw [hdeadline, hs.now]
        exact Nat.le_add_right _ _
      have hprime : k.stream ticks s .prime = some
          { s with phase := .selecting, deadline := ticks.next k.interval s.deadline s.now } := by
        simp only [SseKeepAlive.stream, hpolled, hpriming]
        exact if_pos hle
      have hs' := (keepAlive_cases hprime).timely hs
      obtain ⟨es', s', t', hown, hgiven, hle'⟩ := @Timely.path_beat ticks _ _ _ _ hs' since
        hpolled rfl
      refine ⟨.prime :: es', s', (Machine.Path.one hprime).trans t', ?_, hgiven, hle'⟩
      intro e he
      rcases List.mem_cons.mp he with rfl | he
      · trivial
      · exact hown e he
    · exact ⟨hnow, hs.path_beat hpolled hselecting⟩
  · cases hprimed : s.phase.primed with
    | false =>
        rw [(hs.unprimed hprimed).2, Nat.zero_mul]
        exact Nat.zero_le _
    | true =>
        obtain ⟨hdue, hpast⟩ := hs.primed hprimed
        have hle := Nat.le_trans hpast hdue
        rw [hs.now, Nat.add_one_mul, ← Nat.add_assoc] at hle
        exact Nat.le_of_add_le_add_left (Nat.le_of_add_le_add_right hle)

/-! ### The client -/

/-- A comment without carriage returns is readable. -/
theorem readable_beat (h : '\r' ∉ k.comment.toList) : k.beat.Readable := by
  constructor
  · intro comment hcomment
    obtain rfl := Option.mem_some_iff.mp hcomment
    exact h
  · intro event hevent
    cases hevent
  · intro id hid
    cases hid
  · exact List.not_mem_nil

/-- **A client reads the application's events, in order, each once**, with comments between them,
however long the stream goes on and whatever pieces its bytes come in: only a frame and a piece
together have to fit in the client's buffer. -/
theorem keepAlive_read (t : (k.machine ticks).Run es s) (hended : s.phase = .ended)
    (hcomment : '\r' ∉ k.comment.toList) (hreadable : ∀ e ∈ sentBy es, e.Readable)
    {chunks : List Bytes} {max piece : Nat}
    (hchunks : chunks.flatten =
      s.given.flatMap (encodeItem EventStreamFraming ServerEvent.codec))
    (hmax : ∀ e ∈ k.beat :: sentBy es,
      (encodeItem EventStreamFraming ServerEvent.codec e).length ≤ max)
    (hpiece : ∀ chunk ∈ chunks, chunk.length ≤ piece)
    (hfits : max + piece ≤ MAX_STREAM_FRAME_BYTES) :
    ∃ events, deframeDecode EventStreamFraming ServerEvent.codec (chunks.map .ok)
        = .ofList (events.map .ok) ∧ Padded k.beat (sentBy es) events := by
  obtain ⟨taken, hs⟩ := keptAlive_of_run t
  have htaken : sentBy es = taken := by
    rw [hs.sent, (hs.ended hended).2, List.append_nil]
  have hbeat := readable_beat hcomment
  have hgiven : ∀ e ∈ s.given, e ∈ k.beat :: sentBy es := by
    intro e he
    rcases hs.padded.mem he with he | rfl
    · exact List.mem_cons_of_mem _ (htaken ▸ he)
    · exact List.mem_cons_self
  have hstreams : ∀ e ∈ s.given, ServerEvent.codec.Streams EventStreamFraming e := by
    intro e he
    rcases List.mem_cons.mp (hgiven e he) with rfl | he
    · exact ServerEvent.streams hbeat
    · exact ServerEvent.streams (hreadable e he)
  refine ⟨s.given, ?_, htaken ▸ hs.padded⟩
  have hF : EventStreamFraming ∈ Framing.builtin := by simp [Framing.builtin]
  exact deframeDecode_pieces EventStreamFraming.stable (Framing.flushes_of_mem_builtin hF) hstreams
    (fun e he => hmax e (hgiven e he)) hpiece hfits hchunks

end

/-! ### A quiet feed -/

/-- A tick that is late by more than five milliseconds puts the next one off. -/
def Interval.reference : Interval where
  next period deadline now :=
    if deadline + .fromMillis 5 < now then now + period else deadline + period
  le_next period deadline now h := by
    split
    · exact Nat.add_le_add_right h period
    · exact Nat.le_refl _
  next_le period deadline now h := by
    split
    · exact Nat.le_refl _
    · exact Nat.add_le_add_right h period

/-- A comment every fifteen seconds. -/
def quietKeepAlive : SseKeepAlive := ⟨.fromSecs 15, "keep-alive", by decide⟩

/-- Fifteen seconds without an event, then one, and the end. -/
def quietRun : List KeepAliveEvent :=
  [.poll, .prime, .tick (.fromSecs 15), .beat, .send (.ofComment "up"), .poll, .take, .close, .poll]

def quietState : KeepAliveState where
  now := .fromSecs 15
  phase := .selecting
  deadline := .fromSecs 30
  polled := some (.fromSecs 15)
  waiting := []
  closed := true
  given := [.ofComment "keep-alive", .ofComment "up"]

theorem quiet_run : (quietKeepAlive.machine .reference).Run quietRun quietState := by
  have hsteps : quietRun.foldlM (quietKeepAlive.stream .reference) (.new 0) = some quietState := by
    simp [quietRun, quietState, quietKeepAlive, SseKeepAlive.stream, KeepAliveState.new,
      KeepAliveState.timers, KeepAliveState.give, Interval.reference, SseKeepAlive.beat,
      Duration.fromSecs, Duration.fromMillis]
  exact ⟨.new 0, ⟨0, rfl⟩, Machine.path_of_foldlM (fun _ _ _ h => h) hsteps⟩

theorem quiet_finish : (quietKeepAlive.machine .reference).Run (quietRun ++ [.finish])
    { quietState with phase := .ended, polled := none } := by
  obtain ⟨s₀, hs₀, t⟩ := quiet_run
  exact ⟨s₀, hs₀, t.step rfl⟩

theorem keepAlive_padded_quiet : ∃ taken, Padded quietKeepAlive.beat taken quietState.given ∧
    sentBy quietRun = taken ++ quietState.waiting ∧
    (quietState.phase = .ended → quietState.closed = true ∧ quietState.waiting = []) :=
  keepAlive_padded quiet_run

theorem keepAlive_prompt_quiet : (∀ since, quietState.polled = some since →
    quietState.now ≤ since + quietKeepAlive.interval ∧ ∃ es' s',
      (quietKeepAlive.machine .reference).Path quietState es' s' ∧ (∀ e ∈ es', e.Own) ∧
        s'.given = quietState.given ++ [quietKeepAlive.beat] ∧
        s'.now ≤ since + quietKeepAlive.interval) ∧
    beats quietRun * quietKeepAlive.interval ≤ timePassed quietRun :=
  keepAlive_prompt quiet_run

/-- The two comments in one chunk. -/
theorem keepAlive_read_quiet : ∃ events, deframeDecode EventStreamFraming ServerEvent.codec
      ([quietState.given.flatMap (encodeItem EventStreamFraming ServerEvent.codec)].map .ok)
        = .ofList (events.map .ok) ∧
      Padded quietKeepAlive.beat (sentBy (quietRun ++ [.finish])) events := by
  have hreadable : ∀ e ∈ sentBy (quietRun ++ [.finish]), e.Readable := by
    intro e he
    have he : e ∈ [ServerEvent.ofComment "up"] := he
    rw [List.mem_singleton.mp he]
    constructor <;> simp [ServerEvent.ofComment]
  refine keepAlive_read quiet_finish rfl (by simp [quietKeepAlive]) hreadable
    (List.append_nil _) ?_ ?_ (Nat.le_refl (32 + (MAX_STREAM_FRAME_BYTES - 32)))
  · decide
  · decide

end ServantRs
