import ServantRs.Client.Build
import ServantRs.Server.Extract
import ServantRs.Support.Bytes

/-!
# Messages — header arguments

The client puts a header argument on the request when its text makes a header value; the server
reads a value back when it is visible ASCII.  The two are not the same, and a text that makes no
value is left out without an error.

* `extractHeader_eq_route_iff`: what of an argument's value the server makes that argument again.
* `headers_round_trip_iff`: the arguments come back exactly when every text sent is visible ASCII.
-/

namespace ServantRs

/-! ### Header values -/

/-- Visible ASCII and tabs: the text a header is read as. -/
def IsHeaderText (s : String) : Prop := ∀ c ∈ s.toList, c = '\t' ∨ (' ' ≤ c ∧ c ≤ '~')

/-- What the `http` package documents of header values: made of the bytes of a text without control
characters other than a tab, and read as text when they are visible ASCII. -/
structure HeaderValueLaws [HttpCrate] : Prop where
  fromStr : ∀ s, HttpCrate.headerValueFromStr s =
    if (utf8Bytes s).all (fun b => (32 ≤ b && b ≠ 127) || b = 9) then some (utf8Bytes s) else none
  toStr : ∀ v, HttpCrate.headerValueToStr v = if v.all isVisibleAscii then fromUtf8 v else none

theorem isVisibleAscii_iff {b : UInt8} :
    isVisibleAscii b = true ↔ (32 ≤ b.toNat ∧ b.toNat < 127) ∨ b.toNat = 9 := by
  simp only [isVisibleAscii, Bool.or_eq_true, Bool.and_eq_true, decide_eq_true_eq,
    UInt8.le_iff_toNat_le, UInt8.lt_iff_toNat_lt, ← UInt8.toNat_inj]
  exact Iff.rfl

/-- A character is of a header's text when its bytes are visible ASCII. -/
theorem all_utf8EncodeChar {c : Char} :
    (∀ b ∈ String.utf8EncodeChar c, isVisibleAscii b = true)
      ↔ c = '\t' ∨ (' ' ≤ c ∧ c ≤ '~') := by
  have hchar : (c = '\t' ∨ (' ' ≤ c ∧ c ≤ '~')) ↔ (32 ≤ c.toNat ∧ c.toNat < 127) ∨ c.toNat = 9 := by
    have hle : ∀ d : Char, (' ' ≤ d ↔ 32 ≤ d.toNat) ∧ (d ≤ '~' ↔ d.toNat < 127) := fun d => by
      constructor
      · exact UInt32.le_iff_toNat_le
      · exact UInt32.le_iff_toNat_le.trans Nat.lt_succ_iff.symm
    rw [(hle c).1, (hle c).2, ← Char.toNat_inj, or_comm]
    exact Iff.rfl
  rw [hchar]
  by_cases h : c.toNat < 128
  · have hbyte : (UInt8.ofNat c.toNat).toNat = c.toNat := by
      rw [UInt8.toNat_ofNat']
      omega
    rw [utf8EncodeChar_of_lt h, List.forall_mem_singleton, isVisibleAscii_iff, hbyte]
  · obtain ⟨b, hb⟩ := List.exists_mem_of_ne_nil _ (String.utf8EncodeChar_ne_nil (c := c))
    have hle := le_of_mem_utf8EncodeChar (Nat.not_lt.mp h) hb
    constructor
    · intro hall
      have hvisible := isVisibleAscii_iff.mp (hall b hb)
      omega
    · omega

theorem all_isVisibleAscii {s : String} :
    (utf8Bytes s).all isVisibleAscii = true ↔ IsHeaderText s := by
  rw [List.all_eq_true, utf8Bytes]
  simp only [List.mem_flatMap, forall_exists_index, and_imp]
  constructor
  · intro h c hc
    exact all_utf8EncodeChar.mp fun b hb => h b c hc hb
  · intro h b c hc hb
    exact all_utf8EncodeChar.mpr (h c hc) b hb

namespace HeaderValueLaws

variable [HttpCrate] (laws : HeaderValueLaws)
include laws

/-- A header's text is a value, and is read back. -/
theorem of_isHeaderText {s : String} (h : IsHeaderText s) :
    HttpCrate.headerValueFromStr s = some (utf8Bytes s) ∧
      HttpCrate.headerValueToStr (utf8Bytes s) = some s := by
  have hvisible := all_isVisibleAscii.mpr h
  have hvalue : (utf8Bytes s).all (fun b => (32 ≤ b && b ≠ 127) || b = 9) = true := by
    rw [List.all_eq_true] at hvisible ⊢
    intro b hb
    have hb := hvisible b hb
    simp only [isVisibleAscii, Bool.or_eq_true, Bool.and_eq_true, decide_eq_true_eq] at hb ⊢
    refine hb.imp_left fun hbounds => ⟨hbounds.1, fun he => ?_⟩
    rw [he] at hbounds
    exact absurd hbounds.2 (by decide)
  rw [laws.fromStr, if_pos hvalue, laws.toStr, if_pos hvisible]
  exact ⟨rfl, fromUtf8_utf8Bytes s⟩

/-- Another text makes no value, or one that is not read. -/
theorem of_not_isHeaderText {s : String} (h : ¬ IsHeaderText s) {v : HeaderValue}
    (hv : HttpCrate.headerValueFromStr s = some v) : HttpCrate.headerValueToStr v = none := by
  have hvisible : ¬ (utf8Bytes s).all isVisibleAscii = true := mt all_isVisibleAscii.mp h
  rw [laws.fromStr] at hv
  split at hv
  · cases hv
    rw [laws.toStr, if_neg hvisible]
  · cases hv

end HeaderValueLaws

/-! ### One argument -/

section

open Chain

variable [HttpCrate] {P : Presence} {S : Strictness} {out : ArgShape.Out P S String}
  {name : String} {n : HeaderName} {headers : HeaderMap}

/-- The value sent for an argument. -/
def headerValue (P : Presence) (S : Strictness) (out : ArgShape.Out P S String) :
    Option HeaderValue := (ArgShape.intoValue P S out).bind HttpCrate.headerValueFromStr

/-- An argument that comes back: no parse failure, and a header's text if there is a value. -/
def HeaderArrives (P : Presence) (S : Strictness) (out : ArgShape.Out P S String) : Prop :=
  ArgShape.Sendable P S out ∧ ∀ s ∈ ArgShape.intoValue P S out, IsHeaderText s

/-- What the server makes of a value. -/
def readHeader (v : HeaderValue) : Except ParseError String :=
  match HttpCrate.headerValueToStr v with
  | some s => .ok s
  | none   => .error ⟨"header value is not valid text"⟩

theorem readHeader_of_toOption {v : HeaderValue} {s : String}
    (h : (readHeader v).toOption = some s) :
    HttpCrate.headerValueToStr v = some s ∧ readHeader v = .ok s := by
  rw [readHeader] at h ⊢
  cases hv : HttpCrate.headerValueToStr v with
  | none =>
      rw [hv] at h
      cases h
  | some t =>
      rw [hv] at h
      cases h
      exact ⟨rfl, rfl⟩

theorem extractHeader_eq_route (hname : HttpCrate.headerNameFromStr name = some n) :
    extractHeader .string P S name headers = .route out
      ↔ ArgShape.build P S ((headers.get n).map readHeader) = .ok out := by
  rw [extractHeader]
  generalize hraw : Option.map _ (Option.bind _ _) = raw
  have hread : raw = (headers.get n).map readHeader := by
    rw [← hraw, hname]
    rfl
  rw [← hread]
  rcases ArgShape.build P S raw with (- | e) | out'
  · simp
  · simp
  · simp

/-- **What arrives.**  A header argument comes back from the value sent for it exactly when it has
no parse failure and its text is a header's. -/
theorem extractHeader_eq_route_iff (laws : HeaderValueLaws)
    (hname : HttpCrate.headerNameFromStr name = some n)
    (hget : headers.get n = headerValue P S out) :
    extractHeader .string P S name headers = .route out ↔ HeaderArrives P S out := by
  rw [extractHeader_eq_route hname, hget, headerValue]
  constructor
  · intro hbuild
    have hvalue := ArgShape.intoValue_of_build hbuild
    cases hsent : ArgShape.intoValue P S out with
    | none =>
        rw [hsent] at hbuild
        refine ⟨ArgShape.sendable_of_build hbuild (by simp), ?_⟩
        rw [hsent]
        simp
    | some s =>
        rw [hsent, Option.bind_some] at hbuild hvalue
        obtain ⟨received, hreceived, hs⟩ := Option.bind_eq_some_iff.mp hvalue.symm
        obtain ⟨v, hv, rfl⟩ := Option.map_eq_some_iff.mp hreceived
        -- the value was sent, and read as the text it was made of
        obtain ⟨hto, hread⟩ := readHeader_of_toOption hs
        refine ⟨ArgShape.sendable_of_build hbuild fun e he => ?_, ?_⟩
        · rw [hreceived, hread] at he
          cases he
        · rw [hsent]
          intro t ht
          cases ht
          by_contra hnot
          rw [laws.of_not_isHeaderText hnot hv] at hto
          cases hto
  · rintro ⟨hsendable, htext⟩
    have hread : ((ArgShape.intoValue P S out).bind HttpCrate.headerValueFromStr).map readHeader
        = (ArgShape.intoValue P S out).map .ok := by
      cases hsent : ArgShape.intoValue P S out with
      | none => rfl
      | some s =>
          obtain ⟨hfrom, hto⟩ := laws.of_isHeaderText (htext s hsent)
          rw [Option.bind_some, hfrom, Option.map_some, readHeader, hto]
          rfl
    rw [hread]
    exact ArgShape.build_intoValue hsendable

end

/-! ### Chains of headers -/

/-- A chain of headers with strings for values. -/
inductive HeaderChain [AppTypes] : Chain → Prop where
  | verb (t : Terminal) : HeaderChain (.verb t)
  | header (P : Presence) (S : Strictness) (name : String) {next : Chain} (h : HeaderChain next) :
      HeaderChain (.sub (.header String .string P S name) next)

namespace Chain

variable [AppTypes]

/-- The names of the headers, as they are written. -/
def headerNames : Chain → List String
  | verb _                          => []
  | sub (.header _ _ _ _ name) next => name :: next.headerNames
  | sub _ next                      => next.headerNames

/-- Every header argument is one that comes back. -/
def HeadersArrive : (c : Chain) → c.Args → Prop
  | sub (.header _ data P S _) next, (head, tail) =>
    (ArgShape.Sendable P S head ∧ ∀ a ∈ ArgShape.intoValue P S head, IsHeaderText (data.toHeader a)) ∧
      next.HeadersArrive tail
  | _, _ => True

/-- The headers a client sends for the arguments. -/
def headerEntries [HttpCrate] : (c : Chain) → c.Args → HeaderMap
  | sub (.header _ data P S name) next, (head, tail) =>
    ((HttpCrate.headerNameFromStr name).toList.flatMap fun n =>
      ((ArgShape.intoValue P S head).bind fun a =>
        HttpCrate.headerValueFromStr (data.toHeader a)).toList.map (n, ·))
      ++ next.headerEntries tail
  | _, _ => []

end Chain

section

open Chain RouteM

variable [AppTypes]

/-- An argument and the arguments behind it are extracted one by one. -/
theorem ofResult_consTail {H T : Type} {r : RouteResult H} {x : RouteM ExtractState T}
    {st : ExtractState} {h : H} {t : T} :
    ((ofResult r >>= fun out => consTail out x) st).1 = .route (h, t)
      ↔ r = .route h ∧ (x st).1 = .route t := by
  cases r with
  | fail e => exact ⟨nofun, fun hr => nomatch hr.1⟩
  | failFatal e => exact ⟨nofun, fun hr => nomatch hr.1⟩
  | route out =>
      show (consTail out x st).1 = _ ↔ _
      rcases hx : x st with ⟨tail | e | e, st'⟩
      · rw [consTail_route hx]
        simp
      · rw [consTail, bind_fail hx]
        simp
      · rw [consTail, bind_failFatal hx]
        simp

namespace HeaderChain

variable {c : Chain}

theorem hasClient (h : HeaderChain c) : c.HasClient := by
  induction h with
  | verb t => exact trivial
  | header P S name h ih => exact ⟨trivial, ih⟩

variable [HttpCrate]

/-- The headers of a chain have its names. -/
theorem name_of_mem (h : HeaderChain c) : ∀ {names : List HeaderName} {args : c.Args},
    c.headerNames.map HttpCrate.headerNameFromStr = names.map some →
      ∀ n ∈ (c.headerEntries args).map Prod.fst, n ∈ names := by
  induction h with
  | verb t =>
      intro names args _ n hn
      cases hn
  | @header P S name next h ih =>
      rintro names ⟨head, tail⟩ hnames n hn
      obtain ⟨m, ns, rfl, hm, hns⟩ := List.map_eq_cons_iff.mp hnames.symm
      rw [headerEntries, List.map_append, List.mem_append] at hn
      rcases hn with hn | hn
      · obtain ⟨p, hp, rfl⟩ := List.mem_map.mp hn
        obtain ⟨k, hk, hp⟩ := List.mem_flatMap.mp hp
        obtain ⟨v, -, rfl⟩ := List.mem_map.mp hp
        rw [← hm] at hk
        exact List.mem_cons.mpr (.inl (by simpa using hk))
      · exact List.mem_cons_of_mem _ (ih hns.symm n hn)

/-- The headers of a chain: its first argument's, and the others'. -/
theorem headerEntries_cons {P : Presence} {S : Strictness} {name : String} {next : Chain}
    {n : HeaderName} (hname : HttpCrate.headerNameFromStr name = some n)
    (head : ArgShape.Out P S String) (tail : next.Args) :
    (Chain.sub (.header String .string P S name) next).headerEntries (head, tail)
      = (headerValue P S head).toList.map (n, ·) ++ next.headerEntries tail := by
  rw [headerEntries, hname]
  exact congrArg (· ++ next.headerEntries tail) (List.flatMap_singleton _ n)

/-- A header's value put on a request. -/
def sendHeader (name : String) : Option String → ClientRequest → ClientRequest
  | some a, req => addHeaderText name a req
  | none,   req => req

omit [AppTypes] in
/-- The value of a name that is not there is the last of the headers, if it is a value. -/
theorem sendHeader_headers {name : String} {n : HeaderName} {value : Option String}
    {req : ClientRequest} (hname : HttpCrate.headerNameFromStr name = some n)
    (hfresh : n ∉ req.headers.map Prod.fst) :
    (sendHeader name value req).headers
      = req.headers ++ (value.bind HttpCrate.headerValueFromStr).toList.map (n, ·) := by
  cases value with
  | none => exact (List.append_nil _).symm
  | some a =>
      rw [sendHeader, addHeaderText, hname, Option.bind_some]
      cases HttpCrate.headerValueFromStr a with
      | none => exact (List.append_nil _).symm
      | some v => exact HeaderMap.append_of_fresh hfresh v

omit [AppTypes] [HttpCrate] in
theorem eq_of_mem_map_pair {n m : HeaderName} {value : Option HeaderValue}
    (h : m ∈ (value.toList.map (n, ·)).map Prod.fst) : n = m := by
  obtain ⟨p, hp, rfl⟩ := List.mem_map.mp h
  obtain ⟨v, -, rfl⟩ := List.mem_map.mp hp
  rfl

/-- **What is sent.**  The headers of a request are those of the arguments, in order. -/
theorem buildRequest_headers [PercentEncoding] (h : HeaderChain c) :
    ∀ {names : List HeaderName} {args : c.Args} {req : ClientRequest},
      c.headerNames.map HttpCrate.headerNameFromStr = names.map some → names.Nodup →
      (∀ n ∈ names, n ∉ req.headers.map Prod.fst) →
        ∃ creq, c.buildRequest h.hasClient args req = .ok creq ∧
          creq.headers = req.headers ++ c.headerEntries args := by
  induction h with
  | verb t =>
      intro names args req _ _ _
      have hnone : (Chain.verb t).headerEntries args = [] := rfl
      refine ⟨t.buildRequest req, rfl, ?_⟩
      rw [hnone, List.append_nil]
      cases t with
      | verb => rfl
      | verbWithHeaders => rfl
      | uverb => rfl
      | streamVerb => rfl
      | noContentVerb => rfl
  | @header P S name next h ih =>
      rintro names ⟨head, tail⟩ req hnames hnodup hfresh
      obtain ⟨n, ns, rfl, hn, hns⟩ := List.map_eq_cons_iff.mp hnames.symm
      obtain ⟨hnotin, hnodup⟩ := List.nodup_cons.mp hnodup
      obtain ⟨hn', hfresh⟩ := List.forall_mem_cons.mp hfresh
      have hsent : (sendHeader name (ArgShape.intoValue P S head) req).headers = _ :=
        sendHeader_headers hn.symm hn'
      have hnext : ∀ m ∈ ns, m ∉ ((sendHeader name (ArgShape.intoValue P S head) req).headers).map
          Prod.fst := by
        intro m hm
        rw [hsent, List.map_append, List.mem_append, not_or]
        exact ⟨hfresh m hm, fun hmem => hnotin (eq_of_mem_map_pair hmem ▸ hm)⟩
      obtain ⟨creq, hb, hheaders⟩ := @ih ns tail _ hns.symm hnodup hnext
      refine ⟨creq, ?_, ?_⟩
      · rw [← hb, buildRequest]
        cases ArgShape.intoValue P S head with
        | none => rfl
        | some a => rfl
      · rw [hheaders, hsent, headerEntries_cons hn.symm, List.append_assoc]
        rfl

/-- **What is read.**  A chain finds the header of each of its arguments, and all of them come back
exactly when each does. -/
theorem extract_iff [MimeCrate] [Base64Crate] (laws : HeaderValueLaws) (h : HeaderChain c) :
    ∀ {names : List HeaderName} {args : c.Args} (before : HeaderMap) {req : RequestData}
      {st : ExtractState},
      c.headerNames.map HttpCrate.headerNameFromStr = names.map some → names.Nodup →
      (∀ n ∈ names, n ∉ before.map Prod.fst) → req.headers = before ++ c.headerEntries args →
        ((c.extract req st).1 = .route args ↔ c.HeadersArrive args) := by
  induction h with
  | verb t =>
      intro names args before req st _ _ _ _
      exact ⟨fun _ => trivial, fun _ => rfl⟩
  | @header P S name next h ih =>
      rintro names ⟨head, tail⟩ before req st hnames hnodup hfresh hheaders
      obtain ⟨n, ns, rfl, hn, hns⟩ := List.map_eq_cons_iff.mp hnames.symm
      obtain ⟨hnotin, hnodup⟩ := List.nodup_cons.mp hnodup
      obtain ⟨hn', hfresh⟩ := List.forall_mem_cons.mp hfresh
      rw [headerEntries_cons hn.symm] at hheaders
      have hlater : n ∉ (next.headerEntries tail).map Prod.fst := fun hmem =>
        hnotin (h.name_of_mem hns.symm n hmem)
      have hget : req.headers.get n = headerValue P S head := by
        rw [hheaders, HeaderMap.get_append hn']
        cases headerValue P S head with
        | none => exact HeaderMap.get_of_fresh hlater
        | some v => exact if_pos rfl
      have htail : (next.extract req st).1 = .route tail ↔ next.HeadersArrive tail := by
        refine ih (before ++ (headerValue P S head).toList.map (n, ·)) hns.symm hnodup ?_
          (by rw [hheaders, List.append_assoc])
        intro m hm
        rw [List.map_append, List.mem_append, not_or]
        exact ⟨hfresh m hm, fun hmem => hnotin (eq_of_mem_map_pair hmem ▸ hm)⟩
      have hhead : extractHeader .string P S name req.headers = .route head
          ↔ HeaderArrives P S head := extractHeader_eq_route_iff laws hn.symm hget
      show ((ofResult (extractHeader .string P S name req.headers) >>= fun out =>
        consTail out (next.extract req)) st).1 = .route (head, tail) ↔ _
      rw [ofResult_consTail, hhead, htail]
      exact Iff.rfl

end HeaderChain

variable {c : Chain} [PercentEncoding] [HttpCrate] [MimeCrate] [Base64Crate]

/-- **Header arguments, there and back.**  In a chain of headers with distinct valid names, the
server extracts from the client's headers the arguments they were built from if and only if no
argument is a parse failure and every text that is sent is visible ASCII. -/
theorem headers_round_trip_iff (laws : HeaderValueLaws) (hc : HeaderChain c)
    {names : List HeaderName}
    (hnames : c.headerNames.map HttpCrate.headerNameFromStr = names.map some)
    (hdistinct : names.Nodup) (args : c.Args) (req : RequestData) (st : ExtractState) :
    (∀ creq, c.buildRequest hc.hasClient args .new = .ok creq →
        (c.extract { req with headers := creq.headers } st).1 = .route args)
      ↔ c.HeadersArrive args := by
  have hfresh : ∀ n ∈ names, n ∉ (ClientRequest.new.headers).map Prod.fst :=
    fun n _ => List.not_mem_nil
  obtain ⟨creq, hb, hheaders⟩ := @HeaderChain.buildRequest_headers _ c _ _ hc names args .new hnames
    hdistinct hfresh
  have hextract : (c.extract { req with headers := creq.headers } st).1 = .route args
      ↔ c.HeadersArrive args := hc.extract_iff laws [] hnames hdistinct hfresh hheaders
  constructor
  · exact fun h => hextract.mp (h creq hb)
  · intro h creq' hb'
    rw [hb] at hb'
    cases hb'
    exact hextract.mpr h

end

/-! ### A note -/

section

attribute [local instance] PercentEncoding.reference AppTypes.reference HttpCrate.reference
  MimeCrate.reference Base64Crate.reference

theorem headerValueLaws_reference : HeaderValueLaws := ⟨fun _ => rfl, fun _ => rfl⟩

def noteChain : Chain :=
  .sub (.header String .string .required .strict "X-Id")
    (.sub (.header String .string .optional .strict "X-Note") (.verb (.noContentVerb .GET)))

theorem noteChain_headerChain : HeaderChain noteChain :=
  .header .required .strict "X-Id" (.header .optional .strict "X-Note" (.verb _))

theorem noteChain_names :
    noteChain.headerNames.map HttpCrate.headerNameFromStr = ["x-id", "x-note"].map some := by
  decide

theorem headers_round_trip_note :
    (∀ creq, noteChain.buildRequest noteChain_headerChain.hasClient ("7", some "a b~", ()) .new
        = .ok creq →
      (noteChain.extract { RequestData.ofMethod .GET () with headers := creq.headers }
        (.new [] none .new (.new [] 0))).1 = .route ("7", some "a b~", ()))
      ↔ noteChain.HeadersArrive ("7", some "a b~", ()) :=
  headers_round_trip_iff headerValueLaws_reference noteChain_headerChain noteChain_names (by decide)
    _ _ _

/-- A note with a newline is lost: the client reports nothing, and the server has no note. -/
theorem header_lost :
    ∃ creq, noteChain.buildRequest noteChain_headerChain.hasClient ("7", some "a\nb", ()) .new
        = .ok creq ∧
      (noteChain.extract { RequestData.ofMethod .GET () with headers := creq.headers }
        (.new [] none .new (.new [] 0))).1 = .route ("7", none, ()) ∧
      (("7", none, ()) : String × Option String × Unit) ≠ ("7", some "a\nb", ()) :=
  ⟨_, rfl, rfl, by decide⟩

end

end ServantRs
