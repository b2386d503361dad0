import ServantRs.Calls.Binding

/-!
# Calls — what is sent beside the URL

The headers and the body of the request a call builds.  Header names that do not meet leave the
headers one after another; of one body combinator, the request has the body.

* `headers_of_foldlM`: the headers are the entries of the bindings, in order.
* `body_of_foldlM`: the body is that of the binding that has one.
-/

namespace ServantRs

namespace HeaderMap

variable {name : HeaderName} {m : HeaderMap}

/-- The value of a name that is not there goes to the end. -/
theorem insert_of_fresh (h : name ∉ m.map Prod.fst) (value : HeaderValue) :
    m.insert name value = m ++ [(name, value)] := by
  induction m with
  | nil => rfl
  | cons entry m ih =>
      obtain ⟨k, v⟩ := entry
      rw [List.map_cons, List.mem_cons, not_or] at h
      rw [insert, if_neg (Ne.symm h.1), ih h.2, List.cons_append]

/-- Values of distinct names that are not there go to the end, in order. -/
theorem foldl_append_of_fresh : ∀ {entries : List (HeaderName × HeaderValue)} {m : HeaderMap},
    (entries.map Prod.fst).Nodup → (∀ n ∈ entries.map Prod.fst, n ∉ m.map Prod.fst) →
      entries.foldl (fun m (name, value) => append name value m) m = m ++ entries
  | [], m, _, _ => (List.append_nil m).symm
  | (n, v) :: entries, m, hnodup, hfresh => by
      rw [List.map_cons, List.nodup_cons] at hnodup
      obtain ⟨hn, hfresh⟩ := List.forall_mem_cons.mp hfresh
      have happend : append n v m = m ++ [(n, v)] := append_of_fresh hn v
      have hfresh' : ∀ k ∈ entries.map Prod.fst, k ∉ (append n v m).map Prod.fst := by
        intro k hk
        rw [happend, List.map_append, List.mem_append, not_or, List.map_singleton,
          List.mem_singleton]
        exact ⟨hfresh k hk, fun h => hnodup.1 (h ▸ hk)⟩
      rw [List.foldl_cons]
      refine (foldl_append_of_fresh hnodup.2 hfresh').trans ?_
      rw [happend, List.append_assoc, List.singleton_append]

/-- A name's value among distinct names. -/
theorem get_of_mem (hnodup : (m.map Prod.fst).Nodup) {value : HeaderValue}
    (h : (name, value) ∈ m) : m.get name = some value := by
  induction m with
  | nil => cases h
  | cons entry m ih =>
      obtain ⟨k, v⟩ := entry
      rw [List.map_cons, List.nodup_cons] at hnodup
      rcases List.mem_cons.mp h with heq | h
      · obtain ⟨rfl, rfl⟩ := Prod.mk.inj heq
        rw [get, if_pos rfl]
      · have hmem : name ∈ m.map Prod.fst := List.mem_map_of_mem h
        have hne : k ≠ name := fun hk => hnodup.1 (hk ▸ hmem)
        rw [get, if_neg hne, ih hnodup.2 h]

/-- A name is looked up in one list of headers, then in the next. -/
theorem get_append_or (m m' : HeaderMap) :
    HeaderMap.get name (m ++ m') = (m.get name).or (m'.get name) := by
  induction m with
  | nil => rfl
  | cons entry m ih =>
      obtain ⟨k, v⟩ := entry
      rw [List.cons_append, get, get]
      by_cases h : k = name
      · simp [h]
      · simp [h, ih]

/-- The first value of a name is the first of its values. -/
theorem get_eq_head? : ∀ m : HeaderMap,
    HeaderMap.get name m = (m.filter (·.1 = name)).head?.map Prod.snd
  | [] => rfl
  | (k, v) :: m => by
      rw [get, List.filter_cons]
      by_cases h : k = name
      · simp [h]
      · simp [h, get_eq_head? m]

end HeaderMap

/-- A loop whose steps leave something as it is. -/
theorem foldl_keeps {S A B : Type*} (g : S → B) {f : S → A → S} (h : ∀ s a, g (f s a) = g s) :
    ∀ (as : List A) (s : S), g (as.foldl f s) = g s
  | [], _ => rfl
  | a :: as, s => (foldl_keeps g h as (f s a)).trans (h s a)

variable [AppTypes] [HttpCrate]

namespace Comb

/-- The header a combinator is about. -/
def headerName : Comb → Option HeaderName
  | header _ _ _ _ name => HttpCrate.headerNameFromStr name
  | host _              => some .HOST
  | _                   => none

/-- The header that is sent for an argument, if one is. -/
def entry : (c : Comb) → c.Arg → Option (HeaderName × HeaderValue)
  | header _ data P S name, a => do
    let n ← HttpCrate.headerNameFromStr name
    let value ← ArgShape.intoValue P S a
    let v ← HttpCrate.headerValueFromStr (data.toHeader value)
    pure (n, v)
  | host name, _ => do
    let required ← HostRequirement.parse name
    let v ← HttpCrate.headerValueFromStr required.original
    pure (.HOST, v)
  | _, _ => none

omit [HttpCrate] in
/-- The combinator is about the body. -/
def IsBody : Comb → Bool
  | reqBody .. | streamBody .. => true
  | _                          => false

omit [HttpCrate] in
/-- The combinator is about what a request has beside its URL. -/
def IsBeside : Comb → Bool
  | header .. | host _ | reqBody .. | streamBody .. => true
  | _ => false

/-- A header that is sent is the combinator's. -/
theorem headerName_of_entry {c : Comb} {a : c.Arg} {n : HeaderName} {v : HeaderValue}
    (h : c.entry a = some (n, v)) : c.headerName = some n := by
  cases c with
  | header A data P S name =>
      obtain ⟨m, hm, h⟩ := Option.bind_eq_some_iff.mp h
      obtain ⟨value, -, h⟩ := Option.bind_eq_some_iff.mp h
      obtain ⟨w, -, h⟩ := Option.bind_eq_some_iff.mp h
      obtain ⟨rfl, rfl⟩ := Prod.mk.inj (Option.some.inj h)
      exact hm
  | host name =>
      obtain ⟨required, -, h⟩ := Option.bind_eq_some_iff.mp h
      obtain ⟨w, -, h⟩ := Option.bind_eq_some_iff.mp h
      obtain ⟨rfl, rfl⟩ := Prod.mk.inj (Option.some.inj h)
      rfl
  | _ => cases h

end Comb

namespace Binding

def entry (b : Binding) : Option (HeaderName × HeaderValue) := b.comb.entry b.arg

end Binding

/-- What a request has beside its URL. -/
def ClientRequest.beside (req : ClientRequest) :
    HeaderMap × Option (Bytes × Mime) × Option StreamingRequestBody :=
  (req.headers, req.body, req.streamingBody)

variable [PercentEncoding] {req req' : ClientRequest}

/-- A step that is about the URL leaves what no URL shows. -/
theorem Comb.addTo_keeps {B : Type} (g : ClientRequest → B)
    (hpath : ∀ req raw, g (ClientRequest.appendPath raw req) = g req)
    (hquery : ∀ req name value, g (ClientRequest.appendQuery name value req) = g req)
    (hdeep : ∀ req name path value, g (ClientRequest.appendDeepQuery name path value req) = g req)
    (hset : ∀ req query, g (ClientRequest.setQueryString query req) = g req)
    {c : Comb} {a : c.Arg} (hc : c.IsBeside = false) (h : c.addTo req a = .ok req') :
    g req' = g req := by
  cases c with
  | header | host | reqBody | streamBody => cases hc
  | path segment =>
      cases h
      exact hpath req segment
  | capture A data S name =>
      rw [addTo] at h
      obtain rfl := Except.ok.inj h
      cases CaptureShape.intoValue S a with
      | none => exact hpath req ""
      | some value => exact hpath req (data.toUrlPiece value)
  | captureAll A data name =>
      cases h
      exact foldl_keeps g (f := fun req a => req.appendPath (data.toUrlPiece a))
        (fun req a => hpath req (data.toUrlPiece a)) a req
  | queryParam A data P S name =>
      rw [addTo] at h
      obtain rfl := Except.ok.inj h
      cases ArgShape.intoValue P S a with
      | none => rfl
      | some value => exact hquery req name (some (data.toQueryParam value))
  | queryParams A data name =>
      cases h
      exact foldl_keeps g (f := fun req a => req.appendQuery name (some (data.toQueryParam a)))
        (fun req a => hquery req name (some (data.toQueryParam a))) a req
  | queryFlag name =>
      rw [addTo] at h
      obtain rfl := Except.ok.inj h
      split
      · exact hquery req name none
      · rfl
  | queryString =>
      cases h
      exact hset req a
  | deepQuery A data name =>
      cases h
      exact foldl_keeps g
        (f := fun req (entry : DeepQueryEntry) => req.appendDeepQuery name entry.path entry.value)
        (fun req entry => hdeep req name entry.path entry.value) (data.toDeepQuery a) req
  | _ =>
      cases h
      rfl

theorem Comb.addTo_beside {c : Comb} {a : c.Arg} (hc : c.IsBeside = false)
    (h : c.addTo req a = .ok req') : req'.beside = req.beside :=
  addTo_keeps ClientRequest.beside (fun _ _ => rfl) (fun _ _ _ => rfl) (fun _ _ _ _ => rfl)
    (fun _ _ => rfl) hc h

/-- No step is about the media types that are asked for. -/
theorem Comb.addTo_accept {c : Comb} {a : c.Arg} (h : c.addTo req a = .ok req') :
    req'.accept = req.accept := by
  cases c with
  | header A data P S name =>
      rw [addTo] at h
      obtain rfl := Except.ok.inj h
      cases ArgShape.intoValue P S a with
      | none => rfl
      | some value =>
          simp only [Chain.addHeaderText]
          split
          · rfl
          · rfl
  | host name =>
      obtain ⟨v, -, h⟩ := of_bind_eq_ok h
      obtain rfl := Except.ok.inj h
      rfl
  | reqBody A ctypes S =>
      rw [addTo] at h
      split at h
      · obtain ⟨rendered, -, h⟩ := of_bind_eq_ok h
        obtain rfl := Except.ok.inj h
        rfl
      · obtain rfl := Except.ok.inj h
        rfl
  | streamBody framing T codec =>
      obtain rfl := Except.ok.inj h
      rfl
  | _ =>
      exact addTo_keeps ClientRequest.accept (fun _ _ => rfl) (fun _ _ _ => rfl)
        (fun _ _ _ _ => rfl) (fun _ _ => rfl) rfl h

/-! ### Headers -/

/-- A step adds the header of its argument. -/
theorem Comb.addTo_headers {c : Comb} {a : c.Arg} (hfresh : ∀ n ∈ c.headerName,
    n ∉ req.headers.map Prod.fst) (h : c.addTo req a = .ok req') :
    req'.headers = req.headers ++ (c.entry a).toList := by
  cases c with
  | header A data P S name =>
      rw [addTo] at h
      obtain rfl := Except.ok.inj h
      rw [entry]
      cases hv : ArgShape.intoValue P S a with
      | none => cases HttpCrate.headerNameFromStr name <;> simp
      | some value =>
          cases hn : HttpCrate.headerNameFromStr name with
          | none => simp [Chain.addHeaderText, hn]
          | some n =>
              cases hw : HttpCrate.headerValueFromStr (data.toHeader value) with
              | none => simp [Chain.addHeaderText, hn, hw]
              | some v =>
                  have happend : req.headers.append n v = req.headers ++ [(n, v)] :=
                    HeaderMap.append_of_fresh (hfresh n hn) v
                  simp [Chain.addHeaderText, hn, hw, ClientRequest.addHeader, happend]
  | host name =>
      obtain ⟨v, hv, h⟩ := of_bind_eq_ok h
      obtain rfl := Except.ok.inj h
      rw [Chain.hostHeader] at hv
      rw [entry]
      cases hp : HostRequirement.parse name with
      | none =>
          rw [hp] at hv
          cases hv
      | some required =>
          cases hw : HttpCrate.headerValueFromStr required.original with
          | none =>
              simp only [hp, hw] at hv
              cases hv
          | some w =>
              simp only [hp, hw] at hv
              obtain rfl := Except.ok.inj hv
              have hinsert : req.headers.insert .HOST w = req.headers ++ [(.HOST, w)] :=
                HeaderMap.insert_of_fresh (hfresh .HOST rfl) w
              simp [hw, hinsert]
  | reqBody A ctypes S =>
      rw [addTo] at h
      have hkept : req'.headers = req.headers := by
        split at h
        · obtain ⟨rendered, -, h⟩ := of_bind_eq_ok h
          obtain rfl := Except.ok.inj h
          rfl
        · obtain rfl := Except.ok.inj h
          rfl
      rw [hkept]
      exact (List.append_nil _).symm
  | streamBody framing T codec =>
      obtain rfl := Except.ok.inj h
      exact (List.append_nil _).symm
  | _ =>
      have hkept := congrArg Prod.fst (addTo_beside rfl h)
      exact hkept.trans (List.append_nil _).symm

/-- A walk over bindings goes through its first one. -/
theorem exists_of_foldlM_cons {b : Binding} {bs : List Binding}
    (h : (b :: bs).foldlM Binding.addTo req = .ok req') :
    ∃ mid, b.addTo req = .ok mid ∧ bs.foldlM Binding.addTo mid = .ok req' := by
  rw [List.foldlM_cons] at h
  exact of_bind_eq_ok h

theorem accept_of_foldlM : ∀ {bs : List Binding} {req : ClientRequest},
    bs.foldlM Binding.addTo req = .ok req' → req'.accept = req.accept
  | [], req, h => by
      obtain rfl := Except.ok.inj h
      rfl
  | b :: bs, req, h => by
      obtain ⟨mid, hb, h⟩ := exists_of_foldlM_cons h
      exact (accept_of_foldlM h).trans (Comb.addTo_accept hb)

omit [PercentEncoding] in
/-- The names of headers that are sent are the bindings'. -/
theorem mem_names_of_entry {bs : List Binding} {n : HeaderName}
    (h : n ∈ (bs.filterMap Binding.entry).map Prod.fst) :
    n ∈ bs.filterMap fun b => b.comb.headerName := by
  obtain ⟨⟨m, v⟩, he, rfl⟩ := List.mem_map.mp h
  obtain ⟨b, hb, he⟩ := List.mem_filterMap.mp he
  exact List.mem_filterMap.mpr ⟨b, hb, Comb.headerName_of_entry he⟩

omit [PercentEncoding] in
/-- Distinct names of combinators leave distinct names of headers. -/
theorem nodup_entries : ∀ {bs : List Binding},
    (bs.filterMap fun b => b.comb.headerName).Nodup →
      ((bs.filterMap Binding.entry).map Prod.fst).Nodup
  | [], _ => .nil
  | b :: bs, h => by
      rw [List.filterMap_cons] at h ⊢
      cases he : b.entry with
      | none =>
          refine nodup_entries ?_
          cases hn : b.comb.headerName with
          | none => rwa [hn] at h
          | some n =>
              rw [hn] at h
              exact h.of_cons
      | some p =>
          obtain ⟨n, v⟩ := p
          rw [Comb.headerName_of_entry he] at h
          refine List.nodup_cons.mpr ⟨fun hmem => ?_, nodup_entries h.of_cons⟩
          exact (List.nodup_cons.mp h).1 (mem_names_of_entry hmem)

/-- **The headers of a request** are those of its bindings, in order. -/
theorem headers_of_foldlM : ∀ {bs : List Binding} {req : ClientRequest},
    (bs.filterMap fun b => b.comb.headerName).Nodup →
    (∀ n ∈ bs.filterMap (fun b => b.comb.headerName), n ∉ req.headers.map Prod.fst) →
    bs.foldlM Binding.addTo req = .ok req' →
      req'.headers = req.headers ++ bs.filterMap Binding.entry
  | [], req, _, _, h => by
      obtain rfl := Except.ok.inj h
      exact (List.append_nil _).symm
  | b :: bs, req, hnodup, hfresh, h => by
      obtain ⟨mid, hb, h⟩ := exists_of_foldlM_cons h
      rw [List.filterMap_cons] at hnodup hfresh
      have hown : ∀ n ∈ b.comb.headerName, n ∉ req.headers.map Prod.fst := by
        intro n hn
        have hname : b.comb.headerName = some n := hn
        rw [hname] at hfresh
        exact hfresh n List.mem_cons_self
      have hrest : ∀ n ∈ bs.filterMap (fun b => b.comb.headerName), n ∉ req.headers.map Prod.fst ∧
          b.comb.headerName ≠ some n := by
        intro n hn
        cases hname : b.comb.headerName with
        | none =>
            rw [hname] at hfresh
            exact ⟨hfresh n hn, nofun⟩
        | some m =>
            rw [hname] at hfresh hnodup
            refine ⟨hfresh n (List.mem_cons_of_mem _ hn), fun he => ?_⟩
            exact (List.nodup_cons.mp hnodup).1 (Option.some.inj he ▸ hn)
      have hnodup' : (bs.filterMap fun b => b.comb.headerName).Nodup := by
        cases hname : b.comb.headerName with
        | none => rwa [hname] at hnodup
        | some m =>
            rw [hname] at hnodup
            exact hnodup.of_cons
      have hmid : mid.headers = req.headers ++ b.entry.toList := Comb.addTo_headers hown hb
      rw [headers_of_foldlM hnodup' (fun n hn => ?_) h, hmid, List.append_assoc,
        List.filterMap_cons]
      · cases b.entry with
        | none => rfl
        | some p => rfl
      · rw [hmid, List.map_append, List.mem_append, not_or]
        refine ⟨(hrest n hn).1, fun hmem => ?_⟩
        cases he : b.entry with
        | none =>
            rw [he] at hmem
            cases hmem
        | some p =>
            obtain ⟨m, v⟩ := p
            rw [he] at hmem
            obtain rfl : n = m := by simpa using hmem
            exact (hrest n hn).2 (Comb.headerName_of_entry he)

/-! ### The body -/

/-- The request has the body of a combinator's argument. -/
def Comb.PutsBody (req : ClientRequest) : (c : Comb) → c.Arg → Prop
  | reqBody _ ctypes S, a => ∀ value, ArgShape.intoValue .required S a = some value →
    ∃ mime bytes, Codec.renderPrimary ctypes value = .ok (mime, bytes) ∧
      req.body = some (bytes, mime) ∧ req.streamingBody = none
  | streamBody framing _ codec, items => req.body = none ∧
    req.streamingBody = some ⟨codec.mediaType, encodeStreamBody framing codec items⟩
  | _, _ => True

omit [HttpCrate] [PercentEncoding] in
/-- Only the bodies count. -/
theorem Comb.PutsBody.of_eq {c : Comb} {a : c.Arg} (h : c.PutsBody req a)
    (hbody : req'.body = req.body) (hstream : req'.streamingBody = req.streamingBody) :
    c.PutsBody req' a := by
  cases c with
  | reqBody A ctypes S =>
      rw [PutsBody, hbody, hstream]
      exact h
  | streamBody framing T codec =>
      rw [PutsBody, hbody, hstream]
      exact h
  | _ => trivial

omit [HttpCrate] [PercentEncoding] in
theorem Comb.putsBody_of_isBody {c : Comb} {a : c.Arg} (h : c.IsBody = false) :
    c.PutsBody req a := by
  cases c with
  | reqBody | streamBody => cases h
  | _ => trivial

/-- A step without a body leaves the bodies as they are. -/
theorem Comb.addTo_bodies {c : Comb} {a : c.Arg} (hc : c.IsBody = false)
    (h : c.addTo req a = .ok req') :
    req'.body = req.body ∧ req'.streamingBody = req.streamingBody := by
  cases c with
  | header A data P S name =>
      rw [addTo] at h
      obtain rfl := Except.ok.inj h
      cases ArgShape.intoValue P S a with
      | none => exact ⟨rfl, rfl⟩
      | some value =>
          simp only [Chain.addHeaderText]
          split
          · exact ⟨rfl, rfl⟩
          · exact ⟨rfl, rfl⟩
  | host name =>
      obtain ⟨v, -, h⟩ := of_bind_eq_ok h
      obtain rfl := Except.ok.inj h
      exact ⟨rfl, rfl⟩
  | reqBody | streamBody => cases hc
  | _ =>
      have hkept := congrArg Prod.snd (addTo_beside rfl h)
      exact ⟨congrArg Prod.fst hkept, congrArg Prod.snd hkept⟩

theorem Comb.addTo_putsBody {c : Comb} {a : c.Arg} (h : c.addTo req a = .ok req') :
    c.PutsBody req' a := by
  cases c with
  | reqBody A ctypes S =>
      intro value hvalue
      rw [addTo, hvalue] at h
      obtain ⟨⟨mime, bytes⟩, hr, h⟩ := of_bind_eq_ok h
      obtain rfl := Except.ok.inj h
      exact ⟨mime, bytes, hr, rfl, rfl⟩
  | streamBody framing T codec =>
      obtain rfl := Except.ok.inj h
      exact ⟨rfl, rfl⟩
  | _ => trivial

theorem bodies_of_foldlM : ∀ {bs : List Binding} {req : ClientRequest},
    (∀ b ∈ bs, b.comb.IsBody = false) → bs.foldlM Binding.addTo req = .ok req' →
      req'.body = req.body ∧ req'.streamingBody = req.streamingBody
  | [], req, _, h => by
      obtain rfl := Except.ok.inj h
      exact ⟨rfl, rfl⟩
  | b :: bs, req, hnone, h => by
      obtain ⟨mid, hb, h⟩ := exists_of_foldlM_cons h
      obtain ⟨hown, hnone⟩ := List.forall_mem_cons.mp hnone
      obtain ⟨hbody, hstream⟩ := Comb.addTo_bodies hown hb
      obtain ⟨hbody', hstream'⟩ := bodies_of_foldlM hnone h
      exact ⟨hbody'.trans hbody, hstream'.trans hstream⟩

/-- **The body of a request** is that of the one binding that has a body. -/
theorem body_of_foldlM : ∀ {bs : List Binding} {req : ClientRequest},
    bs.countP (fun b => b.comb.IsBody) ≤ 1 → bs.foldlM Binding.addTo req = .ok req' →
      ∀ b ∈ bs, b.comb.PutsBody req' b.arg
  | b :: bs, req, hcount, h, b', hmem => by
      obtain ⟨mid, hb, hrest⟩ := exists_of_foldlM_cons h
      rw [List.countP_cons] at hcount
      rcases List.mem_cons.mp hmem with rfl | hmem
      · cases hown : b'.comb.IsBody with
        | true =>
            -- no other binding has a body
            rw [hown, if_pos rfl] at hcount
            have hnone : ∀ b ∈ bs, b.comb.IsBody = false := by
              intro b hmem
              have hzero := List.countP_eq_zero.mp (Nat.le_zero.mp (Nat.le_of_succ_le_succ hcount))
              simpa using hzero b hmem
            obtain ⟨hbody, hstream⟩ := bodies_of_foldlM hnone hrest
            exact (Comb.addTo_putsBody hb).of_eq hbody hstream
        | false => exact Comb.putsBody_of_isBody hown
      · exact body_of_foldlM (by omega) hrest b' hmem

end ServantRs
