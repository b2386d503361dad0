import ServantRs.Server.Request

/-!
# Phases — the slot of a request body

A body is called on in any order: buffered, asked for its bytes, taken as a stream.  The first call
that touches it takes it out of its slot, and what that call leaves there stays (`run_of_touched`).
Until then no bytes are there to be asked for.

* `oneShotBody_run`: what holds of every run of calls on a new body.
-/

namespace ServantRs

open RequestBody

/-- A call on a body. -/
inductive BodyCall where
  | buffer
  | buffered
  | takeStream
deriving DecidableEq, Repr

/-- What a call returns: bytes, or the body to be read as a stream. -/
inductive BodyReply where
  | bytes (result : Except ServerError Bytes)
  | stream (result : Except ServerError (List BodyEvent))

namespace BodyReply

/-- An error was returned. -/
def Fails : BodyReply → Prop
  | bytes (.error _) | stream (.error _) => True
  | _ => False

end BodyReply

/-- A call, with the body before and after it. -/
structure BodyStep where
  call : BodyCall
  before : RequestBody
  reply : BodyReply
  after : RequestBody

namespace BodyCall

def step (b : RequestBody) : BodyCall → BodyStep
  | buffer     => ⟨buffer, b, .bytes b.buffer.1, b.buffer.2⟩
  | buffered   => ⟨buffered, b, .bytes b.bufferedBytes, b⟩
  | takeStream => ⟨takeStream, b, .stream b.takeStream.1, b.takeStream.2⟩

/-- Calls one after another. -/
def run : RequestBody → List BodyCall → List BodyStep
  | _, [] => []
  | b, call :: calls => call.step b :: run (call.step b).after calls

end BodyCall

namespace BodyStep

/-- The body taken out of its slot by a call, to be buffered or to be read as a stream. -/
def handedOut (s : BodyStep) : Option (List BodyEvent) :=
  match s.call with
  | .buffer     => s.before.takeForBuffering.1.toOption.join
  | .buffered   => none
  | .takeStream => s.before.takeStream.1.toOption

end BodyStep

/-! ### The chunks of a body -/

/-- The data of a body before any error of its transport. -/
def dataChunks : List BodyEvent → List Bytes
  | [] => []
  | .data chunk :: body => chunk :: dataChunks body
  | .trailers :: body   => dataChunks body
  | .error _ :: _       => []

/-- All data of a body, put together. -/
def dataOf : List BodyEvent → Bytes
  | [] => []
  | .data chunk :: body => chunk ++ dataOf body
  | .trailers :: body | .error _ :: body => dataOf body

/-- Some prefix of the chunks before any error is longer than the limit. -/
def ExceedsLimit (limit : Nat) (body : List BodyEvent) : Prop :=
  ∃ n, limit < ((dataChunks body).take n).flatten.length

theorem exceedsLimit_iff {limit : Nat} {body : List BodyEvent} :
    ExceedsLimit limit body ↔ limit < (dataChunks body).flatten.length := by
  constructor
  · rintro ⟨n, hn⟩
    have hcut := congrArg (List.length ∘ List.flatten) (List.take_append_drop n (dataChunks body))
    simp only [Function.comp_apply, List.flatten_append, List.length_append] at hcut
    omega
  · intro h
    exact ⟨(dataChunks body).length, by rwa [List.take_length]⟩

theorem withBody_ne_err413 {e : ServerError} (h : e.code ≠ 413) (text : String) :
    e.withBody text ≠ .err413 := by
  intro he
  have hcode : (e.withBody text).code = 413 := congrArg ServerError.code he
  exact h hcode

/-- Chunks are refused for their length when they are too long before any error. -/
theorem collectLimited_eq_err413_iff {limit : Nat} : ∀ (body : List BodyEvent) {out : Bytes},
    out.length ≤ limit → (collectLimited limit (streamItems body) out = .error .err413
      ↔ limit < out.length + (dataChunks body).flatten.length)
  | [], out, hle => by
      rw [streamItems, collectLimited, dataChunks, List.flatten_nil, List.length_nil]
      refine ⟨fun h => ?_, fun h => by omega⟩
      cases h
  | .data chunk :: body, out, hle => by
      rw [streamItems, collectLimited, dataChunks, List.flatten_cons, List.length_append]
      by_cases h : limit < out.length + chunk.length
      · rw [if_pos h]
        exact ⟨fun _ => by omega, fun _ => rfl⟩
      · have hlen : (out ++ chunk).length = out.length + chunk.length := List.length_append
        rw [if_neg h, collectLimited_eq_err413_iff body (by omega), hlen, Nat.add_assoc]
  | .trailers :: body, out, hle => by
      rw [streamItems, dataChunks]
      exact collectLimited_eq_err413_iff body hle
  | .error message :: body, out, hle => by
      -- an error of the transport is another one, whatever comes behind it
      rw [streamItems, collectLimited, dataChunks, List.flatten_nil, List.length_nil]
      refine ⟨fun h => ?_, fun h => by omega⟩
      exact (withBody_ne_err413 (by decide) _ (Except.error.inj h)).elim

/-- A new body is refused for its length when it is too long before any error. -/
theorem collectLimited_new_eq_err413_iff (limit : Nat) (body : List BodyEvent) :
    collectLimited limit (streamItems body) [] = .error .err413 ↔ ExceedsLimit limit body := by
  rw [collectLimited_eq_err413_iff body (Nat.zero_le _), exceedsLimit_iff, List.length_nil,
    Nat.zero_add]

/-- What is collected is all of the body's data, within the limit. -/
theorem collectLimited_eq_ok {limit : Nat} : ∀ (body : List BodyEvent) {out bytes : Bytes},
    out.length ≤ limit → collectLimited limit (streamItems body) out = .ok bytes →
      bytes = out ++ dataOf body ∧ bytes.length ≤ limit
  | [], out, bytes, hle, h => by
      cases h
      exact ⟨(List.append_nil _).symm, hle⟩
  | .data chunk :: body, out, bytes, hle, h => by
      rw [streamItems, collectLimited] at h
      split at h
      · cases h
      · next hfits =>
          have hlen : (out ++ chunk).length ≤ limit := by
            rw [List.length_append]
            omega
          obtain ⟨rfl, hbytes⟩ := collectLimited_eq_ok body hlen h
          rw [dataOf, ← List.append_assoc]
          exact ⟨rfl, hbytes⟩
  | .trailers :: body, out, bytes, hle, h => collectLimited_eq_ok body hle h
  | .error message :: body, out, bytes, hle, h => by cases h

/-! ### A body that was touched -/

/-- The body is no longer in its slot. -/
def BodySlot.Touched : BodySlot → Prop
  | buffered _ | taken => True
  | streaming _ => False

/-- What a call on a touched body returns. -/
def BodySlot.settledReply : BodySlot → BodyCall → BodyReply
  | buffered bytes, .buffer | buffered bytes, .buffered => .bytes (.ok bytes)
  | buffered _, .takeStream =>
    .stream (.error (ServerError.err500.withBody "request body was already buffered"))
  | _, .buffer => .bytes (.error (ServerError.err500.withBody "request body was consumed"))
  | _, .buffered => .bytes (.error (ServerError.err500.withBody "request body is not buffered"))
  | _, .takeStream =>
    .stream (.error (ServerError.err500.withBody "request body was already consumed"))

section

variable {b : RequestBody}

/-- **A call on a touched body leaves it as it is.** -/
theorem step_of_touched (h : b.slot.Touched) (call : BodyCall) :
    call.step b = ⟨call, b, b.slot.settledReply call, b⟩ := by
  obtain ⟨slot, limit⟩ := b
  cases slot with
  | streaming body => exact h.elim
  | buffered bytes => cases call <;> rfl
  | taken => cases call <;> rfl

/-- What the call that touched the body left in the slot stays there. -/
theorem run_of_touched (h : b.slot.Touched) (calls : List BodyCall) :
    BodyCall.run b calls = calls.map fun call => ⟨call, b, b.slot.settledReply call, b⟩ := by
  induction calls with
  | nil => rfl
  | cons call calls ih => rw [BodyCall.run, step_of_touched h, ih, List.map_cons]

theorem mem_run_of_touched (h : b.slot.Touched) {calls : List BodyCall} {s : BodyStep}
    (hs : s ∈ BodyCall.run b calls) : ∃ call, s = ⟨call, b, b.slot.settledReply call, b⟩ := by
  rw [run_of_touched h] at hs
  obtain ⟨call, -, rfl⟩ := List.mem_map.mp hs
  exact ⟨call, rfl⟩

/-- A touched body is not handed out. -/
theorem handedOut_of_touched (h : b.slot.Touched) (call : BodyCall) (reply : BodyReply)
    (after : RequestBody) : BodyStep.handedOut ⟨call, b, reply, after⟩ = none := by
  obtain ⟨slot, limit⟩ := b
  cases slot with
  | streaming body => exact h.elim
  | buffered bytes => cases call <;> rfl
  | taken => cases call <;> rfl

theorem handedOut_run_of_touched (h : b.slot.Touched) (calls : List BodyCall) :
    (BodyCall.run b calls).filterMap BodyStep.handedOut = [] := by
  refine List.filterMap_eq_nil_iff.mpr fun s hs => ?_
  obtain ⟨call, rfl⟩ := mem_run_of_touched h hs
  exact handedOut_of_touched h call _ _

theorem settledReply_ne_stream {slot : BodySlot} (h : slot.Touched) (call : BodyCall)
    (stream : List BodyEvent) : slot.settledReply call ≠ .stream (.ok stream) := by
  intro he
  cases slot with
  | streaming body => exact h
  | buffered bytes => cases call <;> cases he
  | taken => cases call <;> cases he

theorem settledReply_ne_err413 {slot : BodySlot} (h : slot.Touched) (call : BodyCall) :
    slot.settledReply call ≠ .bytes (.error .err413) := by
  intro he
  cases slot with
  | streaming body => exact h
  | buffered bytes => cases call <;> cases he
  | taken =>
      cases call with
      | takeStream => cases he
      | buffer | buffered =>
          have hreply := Except.error.inj (BodyReply.bytes.inj he)
          exact withBody_ne_err413 (by decide) _ hreply

/-- Bytes are returned from where they are buffered, to every call for them. -/
theorem settledReply_of_buffered {slot : BodySlot} {bytes : Bytes} {call : BodyCall}
    (h : slot = .buffered bytes) (hcall : call ≠ .takeStream) :
    slot.settledReply call = .bytes (.ok bytes) := by
  subst h
  cases call with
  | takeStream => exact absurd rfl hcall
  | buffer | buffered => rfl

theorem buffered_of_settledReply {slot : BodySlot} {call : BodyCall} {bytes : Bytes}
    (h : slot.settledReply call = .bytes (.ok bytes)) : slot = .buffered bytes := by
  cases slot with
  | streaming body => cases call <;> cases h
  | taken => cases call <;> cases h
  | buffered bytes' => cases call <;> cases h <;> rfl

end

/-! ### Every run -/

/-- What holds of the calls on one body of a limit. -/
structure OneShotBody (body : List BodyEvent) (limit : Nat) (steps : List BodyStep) : Prop where
  /-- The body leaves its slot at most once. -/
  handedOut : (steps.filterMap BodyStep.handedOut).length ≤ 1
  /-- It is read as a stream at most once, and not after it was to be buffered. -/
  streamed : steps.Pairwise fun s s' =>
    (s.call = .buffer ∨ ∃ stream, s.reply = .stream (.ok stream)) →
      ∀ stream, s'.reply ≠ .stream (.ok stream)
  /-- Once buffered, it is there for every later call. -/
  buffered : steps.Pairwise fun s s' => ∀ bytes, s.call = .buffer → s.reply = .bytes (.ok bytes) →
    s'.call ≠ .takeStream → s'.reply = .bytes (.ok bytes)
  /-- Buffered bytes are the body's data, within the limit. -/
  data : ∀ s ∈ steps, ∀ bytes, s.reply = .bytes (.ok bytes) →
    bytes = dataOf body ∧ bytes.length ≤ limit
  /-- A body still in its slot is refused when it is too long; none other is for that reason. -/
  tooLarge : ∀ s ∈ steps, s.call = .buffer → (s.reply = .bytes (.error .err413)
    ↔ ¬ s.before.slot.Touched ∧ ExceedsLimit limit body)
  /-- A touched body gives the bytes it holds, or else says what has become of it. -/
  settled : ∀ s ∈ steps, s.before.slot.Touched → s.reply = s.before.slot.settledReply s.call
  /-- A call that fails leaves the slot as it was, but for the one that could not buffer. -/
  unchanged : ∀ s ∈ steps, s.reply.Fails → (s.call = .buffer → s.before.slot.Touched) →
    s.after = s.before

namespace OneShotBody

variable {body : List BodyEvent} {limit : Nat}

/-- Calls on a touched body that holds its data, if it holds bytes. -/
theorem of_touched {b : RequestBody} (h : b.slot.Touched)
    (hdata : ∀ bytes, b.slot = .buffered bytes → bytes = dataOf body ∧ bytes.length ≤ limit)
    (calls : List BodyCall) : OneShotBody body limit (BodyCall.run b calls) where
  handedOut := by
    rw [handedOut_run_of_touched h]
    exact Nat.zero_le 1
  streamed := by
    refine List.pairwise_of_forall_mem_list fun s _ s' hs' _ => ?_
    obtain ⟨call, rfl⟩ := mem_run_of_touched h hs'
    exact settledReply_ne_stream h call
  buffered := by
    refine List.pairwise_of_forall_mem_list fun s hs s' hs' bytes _ hreply hcall => ?_
    obtain ⟨call, rfl⟩ := mem_run_of_touched h hs
    obtain ⟨call', rfl⟩ := mem_run_of_touched h hs'
    exact settledReply_of_buffered (buffered_of_settledReply hreply) hcall
  data := by
    intro s hs bytes hreply
    obtain ⟨call, rfl⟩ := mem_run_of_touched h hs
    exact hdata bytes (buffered_of_settledReply hreply)
  tooLarge := by
    intro s hs _
    obtain ⟨call, rfl⟩ := mem_run_of_touched h hs
    exact ⟨fun he => absurd he (settledReply_ne_err413 h call), fun he => absurd h he.1⟩
  settled := by
    intro s hs _
    obtain ⟨call, rfl⟩ := mem_run_of_touched h hs
    rfl
  unchanged := by
    intro s hs _ _
    obtain ⟨call, rfl⟩ := mem_run_of_touched h hs
    rfl

/-- One call more in front: what it has to keep to. -/
theorem cons {s : BodyStep} {steps : List BodyStep} (h : OneShotBody body limit steps)
    (hhanded : s.handedOut = none ∨ steps.filterMap BodyStep.handedOut = [])
    (hstreamed : (s.call = .buffer ∨ ∃ stream, s.reply = .stream (.ok stream)) →
      ∀ s' ∈ steps, ∀ stream, s'.reply ≠ .stream (.ok stream))
    (hbuffered : ∀ bytes, s.call = .buffer → s.reply = .bytes (.ok bytes) →
      ∀ s' ∈ steps, s'.call ≠ .takeStream → s'.reply = .bytes (.ok bytes))
    (hdata : ∀ bytes, s.reply = .bytes (.ok bytes) → bytes = dataOf body ∧ bytes.length ≤ limit)
    (htooLarge : s.call = .buffer → (s.reply = .bytes (.error .err413)
      ↔ ¬ s.before.slot.Touched ∧ ExceedsLimit limit body))
    (hfresh : ¬ s.before.slot.Touched)
    (hunchanged : s.reply.Fails → (s.call = .buffer → s.before.slot.Touched) →
      s.after = s.before) : OneShotBody body limit (s :: steps) where
  handedOut := by
    rcases hhanded with hnone | hnil
    · rw [List.filterMap_cons_none hnone]
      exact h.handedOut
    · rw [List.filterMap_cons, hnil]
      cases s.handedOut with
      | none => exact Nat.zero_le 1
      | some body => exact Nat.le_refl 1
  streamed := List.pairwise_cons.mpr ⟨fun s' hs' he => hstreamed he s' hs', h.streamed⟩
  buffered := List.pairwise_cons.mpr
    ⟨fun s' hs' bytes hcall hreply => hbuffered bytes hcall hreply s' hs', h.buffered⟩
  data := List.forall_mem_cons.mpr ⟨hdata, h.data⟩
  tooLarge := List.forall_mem_cons.mpr ⟨htooLarge, h.tooLarge⟩
  settled := List.forall_mem_cons.mpr ⟨fun htouched => absurd htouched hfresh, h.settled⟩
  unchanged := List.forall_mem_cons.mpr ⟨hunchanged, h.unchanged⟩

theorem nil : OneShotBody body limit [] :=
  ⟨Nat.zero_le 1, .nil, .nil, by simp, by simp, by simp, by simp⟩

/-- The bytes are asked for before the body is touched. -/
theorem cons_buffered {steps : List BodyStep} (h : OneShotBody body limit steps) :
    OneShotBody body limit (BodyCall.buffered.step (.new body limit) :: steps) := by
  refine h.cons (.inl rfl) ?_ ?_ ?_ ?_ id ?_
  · rintro (he | ⟨stream, he⟩)
    · cases he
    · cases he
  · intro bytes he
    cases he
  · intro bytes he
    cases he
  · intro he
    cases he
  · exact fun _ _ => rfl

/-- The body is read as a stream. -/
theorem cons_takeStream (calls : List BodyCall) :
    OneShotBody body limit (BodyCall.run (.new body limit) (.takeStream :: calls)) := by
  let taken : RequestBody := ⟨.taken, limit⟩
  have htouched : taken.slot.Touched := trivial
  have hlater : OneShotBody body limit (BodyCall.run taken calls) :=
    of_touched htouched (fun _ he => by cases he) calls
  have hrun : BodyCall.run (.new body limit) (.takeStream :: calls)
      = ⟨.takeStream, .new body limit, .stream (.ok body), taken⟩ :: BodyCall.run taken calls := rfl
  rw [hrun]
  refine hlater.cons (.inr (handedOut_run_of_touched htouched calls)) ?_ ?_ ?_ ?_ id ?_
  · intro _ s' hs'
    obtain ⟨call, rfl⟩ := mem_run_of_touched htouched hs'
    exact settledReply_ne_stream htouched call
  · intro _ he
    cases he
  · intro _ he
    cases he
  · intro he
    cases he
  · intro he
    exact he.elim

/-- The body is to be buffered; what is in the slot then depends on whether it could be. -/
theorem cons_buffer_of {b : RequestBody} {result : Except ServerError Bytes}
    (hcollect : collectLimited limit (streamItems body) [] = result) (htouched : b.slot.Touched)
    (hok : ∀ bytes, result = .ok bytes ↔ b.slot = .buffered bytes) (calls : List BodyCall) :
    OneShotBody body limit
      (⟨.buffer, .new body limit, .bytes result, b⟩ :: BodyCall.run b calls) := by
  have hdata : ∀ bytes, result = .ok bytes → bytes = dataOf body ∧ bytes.length ≤ limit :=
    fun bytes he => collectLimited_eq_ok body (Nat.zero_le _) (hcollect.trans he)
  have hlater : OneShotBody body limit (BodyCall.run b calls) :=
    of_touched htouched (fun bytes he => hdata bytes ((hok bytes).mpr he)) calls
  refine hlater.cons (.inr (handedOut_run_of_touched htouched calls)) ?_ ?_ ?_ ?_ id ?_
  · intro _ s' hs'
    obtain ⟨call, rfl⟩ := mem_run_of_touched htouched hs'
    exact settledReply_ne_stream htouched call
  · intro bytes _ hreply s' hs' hcall
    obtain ⟨call, rfl⟩ := mem_run_of_touched htouched hs'
    have hslot : b.slot = .buffered bytes := (hok bytes).mp (BodyReply.bytes.inj hreply)
    exact settledReply_of_buffered hslot hcall
  · intro bytes hreply
    exact hdata bytes (BodyReply.bytes.inj hreply)
  · intro _
    have hrefused : result = .error .err413 ↔ ExceedsLimit limit body := by
      rw [← hcollect, collectLimited_new_eq_err413_iff]
    exact ⟨fun he => ⟨id, hrefused.mp (BodyReply.bytes.inj he)⟩,
      fun he => congrArg BodyReply.bytes (hrefused.mpr he.2)⟩
  · intro _ hfresh
    exact (hfresh rfl).elim

/-- The body is buffered, or lost. -/
theorem cons_buffer (calls : List BodyCall) :
    OneShotBody body limit (BodyCall.run (.new body limit) (.buffer :: calls)) := by
  cases hcollect : collectLimited limit (streamItems body) [] with
  | ok bytes =>
      have hrun : BodyCall.run (.new body limit) (.buffer :: calls)
          = ⟨.buffer, .new body limit, .bytes (.ok bytes), ⟨.buffered bytes, limit⟩⟩
            :: BodyCall.run ⟨.buffered bytes, limit⟩ calls := by
        simp only [BodyCall.run, BodyCall.step, buffer, takeForBuffering, RequestBody.new, hcollect]
      have htouched : (BodySlot.buffered bytes).Touched := trivial
      rw [hrun]
      exact cons_buffer_of (b := ⟨.buffered bytes, limit⟩) hcollect htouched (fun _ => by simp) calls
  | error e =>
      have hrun : BodyCall.run (.new body limit) (.buffer :: calls)
          = ⟨.buffer, .new body limit, .bytes (.error e), ⟨.taken, limit⟩⟩
            :: BodyCall.run ⟨.taken, limit⟩ calls := by
        simp only [BodyCall.run, BodyCall.step, buffer, takeForBuffering, RequestBody.new, hcollect]
      have htouched : BodySlot.taken.Touched := trivial
      rw [hrun]
      exact cons_buffer_of (b := ⟨.taken, limit⟩) hcollect htouched (fun _ => by simp) calls

end OneShotBody

/-- **A body is handed out once.**  Whatever is called on a new body, in whatever order. -/
theorem oneShotBody_run (body : List BodyEvent) (limit : Nat) (calls : List BodyCall) :
    OneShotBody body limit (BodyCall.run (.new body limit) calls) := by
  induction calls with
  | nil => exact .nil
  | cons call calls ih =>
      cases call with
      -- only a call that leaves the body in its slot is followed by calls on a new body
      | buffered => exact ih.cons_buffered
      | takeStream => exact .cons_takeStream calls
      | buffer => exact .cons_buffer calls

/-- A body that was too long is gone: asked to buffer it once more, the server says so. -/
theorem buffer_after_tooLarge : ¬ ∀ (body : List BodyEvent) (limit : Nat) (calls : List BodyCall),
    ∀ s ∈ BodyCall.run (.new body limit) calls, s.call = .buffer →
      (s.reply = .bytes (.error .err413) ↔ ExceedsLimit limit body) := by
  intro h
  have hlong : ExceedsLimit 0 [.data [97]] := ⟨1, by decide⟩
  let s : BodyStep := ⟨.buffer, ⟨.taken, 0⟩,
    .bytes (.error (ServerError.err500.withBody "request body was consumed")), ⟨.taken, 0⟩⟩
  have hs : s ∈ BodyCall.run (.new [.data [97]] 0) [.buffer, .buffer] :=
    List.mem_cons_of_mem _ List.mem_cons_self
  have hreply := BodyReply.bytes.inj ((h _ _ _ s hs rfl).mpr hlong)
  exact withBody_ne_err413 (by decide) _ (Except.error.inj hreply)

end ServantRs
