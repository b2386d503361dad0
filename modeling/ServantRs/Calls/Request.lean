import ServantRs.Calls.Read
import ServantRs.Calls.Wire

/-!
# Calls — the request of a call

An endpoint that can be called (`Chain.Callable`), arguments that can be sent (`Chain.Sends`), and
what is known of the request that is built of them.

* `Built`: the request, put together.
* `Callable.sendable`: the client can put its headers and its body together.
-/

namespace ServantRs

open RouteM ExtractState

variable [AppTypes]

section

variable [HttpCrate]

/-- The header a handler's argument is sent in. -/
def Comb.argName : Comb → Option HeaderName
  | header _ _ _ _ name => HttpCrate.headerNameFromStr name
  | _                   => none

omit [AppTypes] [HttpCrate] in
/-- The `Accept` header that is sent for an endpoint. -/
def Terminal.ownAccept (t : Terminal) : Option String :=
  if t.mediaTypes = [] then none else some (", ".intercalate (t.mediaTypes.map Mime.source))

omit [AppTypes] [HttpCrate] in
/-- The endpoint would answer the `Accept` header its client sends: no media type of it is needed, or
one is negotiated among its own (see `MediaText.negotiate_own_iff`). -/
def Terminal.AcceptsOwn (t : Terminal) : Prop :=
  (∃ M, t = .noContentVerb M) ∨ ∃ i, negotiateMediaIndex t.ownAccept t.mediaTypes = some i

variable [MimeCrate]

omit [AppTypes] [HttpCrate] [MimeCrate] in
/-- A required argument that can be sent has a value. -/
theorem ArgShape.exists_intoValue {A : Type} {S : Strictness} {a : ArgShape.Out .required S A}
    (h : ArgShape.Sendable .required S a) :
    ∃ value, ArgShape.intoValue .required S a = some value := by
  cases S with
  | strict => exact ⟨a, rfl⟩
  | lenient =>
      obtain ⟨value, rfl⟩ := h
      exact ⟨value, rfl⟩

/-- An endpoint that can be called: parameters, headers and the body are told apart, and the network
adds no header an argument is read from. -/
structure Chain.Callable (c : Chain) (added : List HeaderName) : Prop where
  client : c.HasClient
  method : c.method ≠ .HEAD
  tail : CaptureAllLast c.parts
  keys : c.combs.Pairwise Comb.KeysApart
  names : (c.combs.filterMap Comb.headerName).Nodup
  own : ∀ n ∈ c.combs.filterMap Comb.headerName, n ≠ .ACCEPT ∧ n ≠ .CONTENT_TYPE
  added : ∀ n ∈ c.combs.filterMap Comb.argName, n ∉ added
  body : c.combs.countP Comb.IsBody ≤ 1
  media : ∀ m ∈ c.terminal.mediaTypes, m.Carried
  accepts : c.terminal.AcceptsOwn

/-- Arguments that can be sent: each by itself, and the path so that it does not end in an empty
piece. -/
structure Chain.Sends (c : Chain) (maxBody : Nat) (args : c.Args) : Prop where
  sendable : ∀ b ∈ c.bindings args, b.comb.Sendable maxBody b.arg
  path : ¬ EndsEmpty (c.items args)
  tail : ((capturedTail (c.items args)).getD []).head? ≠ some ""

end

/-! ### What is built -/

theorem filterMap_combs {B : Type} (f : Comb → Option B) (c : Chain) (args : c.Args) :
    (c.bindings args).filterMap (fun b => f b.comb) = c.combs.filterMap f := by
  rw [← Chain.map_comb_bindings c args, List.filterMap_map]
  rfl

theorem countP_combs (p : Comb → Bool) (c : Chain) (args : c.Args) :
    (c.bindings args).countP (fun b => p b.comb) = c.combs.countP p := by
  rw [← Chain.map_comb_bindings c args, List.countP_map]
  rfl

omit [AppTypes] in
/-- A terminal sets the method and what is accepted, and nothing else. -/
theorem Terminal.buildRequest_spec (t : Terminal) {req : ClientRequest} (h : req.accept = []) :
    (t.buildRequest req).method = t.method ∧ (t.buildRequest req).accept = t.mediaTypes ∧
      (t.buildRequest req).beside = req.beside := by
  cases t with
  | noContentVerb M => exact ⟨rfl, h, rfl⟩
  | verb | verbWithHeaders | uverb | streamVerb => exact ⟨rfl, rfl, rfl⟩

section

variable [HttpCrate] [PercentEncoding]

/-- What is known of the request that is built of a call. -/
structure Chain.Built (c : Chain) (args : c.Args) (creq : ClientRequest) : Prop where
  method : creq.method = c.method
  target : creq.target = (UrlParts.ofItems .plain (c.items args)).render
  accept : creq.accept = c.terminal.mediaTypes
  headers : creq.headers = (c.bindings args).filterMap Binding.entry
  puts : ∀ b ∈ c.bindings args, b.comb.PutsBody creq b.arg
  none : c.combs.countP Comb.IsBody = 0 → creq.body = none ∧ creq.streamingBody = none

variable [MimeCrate] {c : Chain} {added : List HeaderName} {args : c.Args} {creq : ClientRequest}

theorem Chain.Callable.built (hc : c.Callable added)
    (hb : c.buildRequest hc.client args .new = .ok creq) : c.Built args creq := by
  have htarget := target_eq_items hb
  rw [buildRequest_eq_bindings] at hb
  cases hwalk : (c.bindings args).foldlM Binding.addTo .new with
  | error e =>
      rw [hwalk] at hb
      cases hb
  | ok req =>
      rw [hwalk] at hb
      obtain rfl := Except.ok.inj hb
      obtain ⟨hmethod, haccept, hbeside⟩ := c.terminal.buildRequest_spec (accept_of_foldlM hwalk)
      have hheaders := headers_of_foldlM (by rw [filterMap_combs]; exact hc.names)
        (fun _ _ hmem => absurd hmem List.not_mem_nil) hwalk
      have hcount : (c.bindings args).countP (fun b => b.comb.IsBody) ≤ 1 :=
        (countP_combs Comb.IsBody c args).symm ▸ hc.body
      refine ⟨hmethod, htarget, haccept, (congrArg Prod.fst hbeside).trans hheaders, ?_, ?_⟩
      · intro b hmem
        exact (body_of_foldlM hcount hwalk b hmem).of_eq
          (congrArg (Prod.fst ∘ Prod.snd) hbeside) (congrArg (Prod.snd ∘ Prod.snd) hbeside)
      · intro hzero
        have hnone : ∀ b ∈ c.bindings args, b.comb.IsBody = false := by
          intro b hmem
          rw [← countP_combs Comb.IsBody c args] at hzero
          simpa using List.countP_eq_zero.mp hzero b hmem
        obtain ⟨hbody, hstream⟩ := bodies_of_foldlM hnone hwalk
        exact ⟨(congrArg (Prod.fst ∘ Prod.snd) hbeside).trans hbody,
          (congrArg (Prod.snd ∘ Prod.snd) hbeside).trans hstream⟩

/-! ### The body -/

omit [AppTypes] [HttpCrate] [PercentEncoding] [MimeCrate] in
/-- No two members of a list are the one that is counted. -/
theorem eq_of_countP_le_one {A : Type*} {p : A → Bool} : ∀ {as : List A} {a b : A},
    as.countP p ≤ 1 → a ∈ as → b ∈ as → p a = true → p b = true → a = b
  | x :: as, a, b, hone, ha, hb, hpa, hpb => by
      by_cases hx : p x = true
      · rw [List.countP_cons_of_pos hx] at hone
        have hnone := List.countP_eq_zero.mp (Nat.le_zero.mp (Nat.le_of_succ_le_succ hone))
        rcases List.mem_cons.mp ha with rfl | ha
        · rcases List.mem_cons.mp hb with rfl | hb
          · rfl
          · exact absurd hpb (hnone b hb)
        · exact absurd hpa (hnone a ha)
      · rw [List.countP_cons_of_neg hx] at hone
        have hne : ∀ {y}, y ∈ x :: as → p y = true → y ∈ as := by
          intro y hy hpy
          rcases List.mem_cons.mp hy with rfl | hy
          · exact absurd hpy hx
          · exact hy
        exact eq_of_countP_le_one hone (hne ha hpa) (hne hb hpb) hpa hpb

omit [HttpCrate] [PercentEncoding] [MimeCrate] in
/-- A call has no body, or an argument that is one. -/
theorem Chain.body_cases (c : Chain) (args : c.Args) :
    c.combs.countP Comb.IsBody = 0 ∨ ∃ b ∈ c.bindings args, b.comb.IsBody = true := by
  rw [← countP_combs Comb.IsBody c args, List.countP_eq_zero]
  by_cases h : ∃ b ∈ c.bindings args, b.comb.IsBody = true
  · exact .inr h
  · exact .inl fun b hmem hbody => h ⟨b, hmem, hbody⟩

/-- **The client can put the request together**: no header is there twice or is the client's own, and
no body besides another. -/
theorem Chain.Callable.sendable {maxBody : Nat} (hc : c.Callable added)
    (hs : c.Sends maxBody args) (hb : c.Built args creq) : creq.Sendable := by
  have hnames : ((c.bindings args).filterMap fun b => b.comb.headerName).Nodup :=
    (filterMap_combs Comb.headerName c args).symm ▸ hc.names
  have hbody : (creq.body = none ∨ creq.streamingBody = none) ∧
      ∀ mime ∈ creq.contentType, IsHeaderText mime.source := by
    rcases c.body_cases args with hzero | ⟨⟨comb, a⟩, hmem, hbody⟩
    · obtain ⟨hfull, hstream⟩ := hb.none hzero
      refine ⟨.inl hfull, ?_⟩
      rw [ClientRequest.contentType, hfull, hstream]
      exact fun _ h => absurd h (Option.not_mem_none _)
    · have hsend := hs.sendable _ hmem
      have hputs := hb.puts _ hmem
      cases comb with
      | reqBody A ctypes S =>
          obtain ⟨value, hvalue⟩ := ArgShape.exists_intoValue hsend.1
          obtain ⟨mime, bytes, hrender, hfull, hstream⟩ := hputs value hvalue
          refine ⟨.inr hstream, ?_⟩
          rw [ClientRequest.contentType, hfull]
          rintro _ ⟨⟩
          exact ((hsend.2 value hvalue).2 mime bytes hrender).1.text
      | streamBody framing T codec =>
          obtain ⟨hfull, hstream⟩ := hputs
          refine ⟨.inl hfull, ?_⟩
          rw [ClientRequest.contentType, hfull, hstream]
          rintro _ ⟨⟩
          exact hsend.1.text
      | _ => cases hbody
  refine ⟨?_, fun n hn => ?_, fun mime hmime => ?_, hbody.2, hbody.1⟩
  · rw [hb.headers]
    exact nodup_entries hnames
  · rw [hb.headers] at hn
    exact hc.own n (filterMap_combs Comb.headerName c args ▸ mem_names_of_entry hn)
  · rw [hb.accept] at hmime
    exact (hc.media mime hmime).text

end

/-- The media types of a body combinator, and how the body is read. -/
def Comb.bodyKind : Comb → Option (List Mime × Chain.RequestBodyMode)
  | reqBody _ ctypes _   => some (Codec.allMediaTypes ctypes, .buffered)
  | streamBody _ _ codec => some ([codec.mediaType], .streaming)
  | _                    => none

theorem Chain.bodyKind_eq : ∀ c : Chain,
    c.requestContentTypes = (c.combs.findSome? Comb.bodyKind).map Prod.fst ∧
      c.requestBodyMode = (c.combs.findSome? Comb.bodyKind).map Prod.snd
  | verb _ => ⟨rfl, rfl⟩
  | sub c next => by
      have ih := bodyKind_eq next
      cases c with
      | reqBody | streamBody => exact ⟨rfl, rfl⟩
      | _ => exact ih

theorem Chain.bodyKind_of_mem {c : Chain} (hone : c.combs.countP Comb.IsBody ≤ 1) {comb : Comb}
    (hmem : comb ∈ c.combs) {types : List Mime} {mode : RequestBodyMode}
    (hkind : comb.bodyKind = some (types, mode)) :
    c.requestContentTypes = some types ∧ c.requestBodyMode = some mode := by
  have hp : ∀ comb : Comb, comb.bodyKind.isSome = comb.IsBody := by
    intro comb
    cases comb <;> rfl
  have hfound : c.combs.findSome? Comb.bodyKind = some (types, mode) := by
    cases hf : c.combs.findSome? Comb.bodyKind with
    | none =>
        rw [List.findSome?_eq_none_iff.mp hf comb hmem] at hkind
        cases hkind
    | some kind =>
        -- the first body is the one there is
        obtain ⟨first, hfirst, hfkind⟩ := List.exists_of_findSome?_eq_some hf
        have hown : comb.IsBody = true := by rw [← hp, hkind]; rfl
        have hother : first.IsBody = true := by rw [← hp, hfkind]; rfl
        rw [← hkind, ← hfkind, eq_of_countP_le_one hone hfirst hmem hother hown]
  obtain ⟨htypes, hmode⟩ := c.bodyKind_eq
  rw [hfound] at htypes hmode
  exact ⟨htypes, hmode⟩

end ServantRs
