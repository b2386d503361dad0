import ServantRs.Calls.Query
import ServantRs.Calls.Sent
import ServantRs.Messages.Headers
import ServantRs.Messages.UnionTrip
import ServantRs.Streams.Encode

/-!
# Calls — what is read

An argument that can be sent (`Comb.Sendable`) is read again from what was sent for it, binding by
binding (`Comb.Reads`); where every binding is read, the handler's arguments are extracted.

* `extract_of_reads`: the server's walk.
* `reads_of_url`, `reads_of_header`, `reads_of_reqBody`, `reads_of_streamBody`: what is read of one
  binding.
-/

namespace ServantRs

open RouteM ExtractState Framing

/-! ### Arguments that can be sent -/

instance (s : String) : Decidable (IsHeaderText s) :=
  decidable_of_iff _ all_isVisibleAscii

/-- A media type that a header carries: its text is read as the media type. -/
structure Mime.Carried [MimeCrate] (m : Mime) : Prop where
  text : IsHeaderText m.source
  trimmed : trim m.source = m.source
  parsed : MimeCrate.parse m.source = some m

/-- The piece of a path that is sent for a capture. -/
def capturePiece {A : Type} (data : HttpApiData A) (S : Strictness) (a : CaptureShape.Out S A) :
    String := ((CaptureShape.intoValue S a).map data.toUrlPiece).getD ""

variable [AppTypes]

section

variable [HttpCrate] [MimeCrate]

/-- The argument is one that the server can read: its texts are read as they are written, its body
is, and is no larger than `maxBody`. -/
def Comb.Sendable (maxBody : Nat) : (c : Comb) → c.Arg → Prop
  | capture _ data S _, a => CaptureShape.build S (data.fromUrlPiece (capturePiece data S a)) = .ok a
  | captureAll A data _, as =>
    ∀ a ∈ (show List A from as), data.fromUrlPiece (data.toUrlPiece a) = .ok a
  | queryParam _ data P S name, a => name ≠ "" ∧ ArgShape.Sendable P S a ∧
    ∀ value, ArgShape.intoValue P S a = some value →
      data.fromQueryParam (data.toQueryParam value) = .ok value
  | queryParams A data name, as => name ≠ "" ∧
    ∀ value ∈ (show List A from as), data.fromQueryParam (data.toQueryParam value) = .ok value
  | queryFlag name, _ => name ≠ ""
  | deepQuery _ data name, a => name ≠ "" ∧
    (∀ entry ∈ data.toDeepQuery a, ∀ segment ∈ entry.path, ']' ∉ segment.toList) ∧
      data.fromDeepQuery (data.toDeepQuery a) = .ok a
  | header _ data P S name, a => (HttpCrate.headerNameFromStr name).isSome ∧
    ArgShape.Sendable P S a ∧ ∀ value, ArgShape.intoValue P S a = some value →
      IsHeaderText (data.toHeader value) ∧ data.fromHeader (data.toHeader value) = .ok value
  | host name, _ => (HostRequirement.parse name).isSome ∧ IsHeaderText name
  | reqBody _ ctypes S, a => ArgShape.Sendable .required S a ∧
    ∀ value, ArgShape.intoValue .required S a = some value →
      (∀ c ∈ ctypes, c.ReadsBack value) ∧ ∀ mime bytes,
        Codec.renderPrimary ctypes value = .ok (mime, bytes) → mime.Carried ∧ bytes.length ≤ maxBody
  | streamBody framing T codec, items => codec.mediaType.Carried ∧
    StableWithin framing.deframeLimited DEFAULT_MAX_DECODED_FRAME_BYTES ∧
    ∃ (allowed : Bytes → Prop) (values : List T),
      framing.Delimits DEFAULT_MAX_DECODED_FRAME_BYTES allowed ∧ items = .ofList (values.map .ok) ∧
      (∀ value ∈ values, codec.RoundTrips allowed value) ∧
      (values.flatMap (encodeItem framing codec)).length ≤ DEFAULT_MAX_DECODED_FRAME_BYTES
  | path _, _ | fragment .., _ | description _, _ | summary _, _ | operationId _, _ => True
  -- a query string comes back with its text, and the others have no client
  | _, _ => False

/-- What the server reads for the combinator is the argument. -/
def Comb.Reads (req : RequestData) (body : RequestBody) : (c : Comb) → c.Arg → Prop
  | capture _ data S _, a => CaptureShape.build S (data.fromUrlPiece (capturePiece data S a)) = .ok a
  | captureAll A data _, as =>
    Chain.parseSegments data ((show List A from as).map data.toUrlPiece) = .ok as
  | queryParam _ data P S name, a => Chain.extractQueryParam data P S name req.query = .route a
  | queryParams _ data name, as => Chain.extractQueryParams data name req.query = .route as
  | queryFlag name, present => Chain.extractQueryFlag name req.query = present
  | deepQuery _ data name, a => Chain.extractDeepQuery data name req.query = .route a
  | header _ data P S name, a => Chain.extractHeader data P S name req.headers = .route a
  | reqBody _ ctypes S, a => Chain.extractReqBody ctypes S req body = .route a
  | streamBody framing _ codec, items => ∃ events, body.slot = .streaming (some events) ∧
    Chain.decodeStream framing codec events = items
  | path _, _ | host _, _ | fragment .., _ | description _, _ | summary _, _ | operationId _, _ =>
    True
  | _, _ => False

end

/-! ### The server's walk -/

/-- An argument read before the rest of a chain. -/
theorem extract_cons {H T : Type} {get : RouteM ExtractState H} {next : RouteM ExtractState T}
    {st st₁ st₂ : ExtractState} {h : H} {t : T} (hget : get st = (.route h, st₁))
    (hnext : next st₁ = (.route t, st₂)) :
    (get >>= fun out => Chain.consTail out next) st = (.route (h, t), st₂) :=
  (bind_route hget).trans (Chain.consTail_route hnext)

/-- The state a walk starts from holds what was sent for the captures, and the body for the
combinator that reads it. -/
structure Chain.Holds (c : Chain) (args : c.Args) (body : RequestBody) (st : ExtractState) :
    Prop where
  captures : st.captures = capturedPieces (c.items args)
  tail : st.capturedAll.getD [] = (capturedTail (c.items args)).getD []
  body : c.combs.countP Comb.IsBody ≠ 0 → st.world.body = body

namespace Chain

/-- No `CaptureAll` is left below another. -/
theorem capturedTail_of_parts {c : Chain} {args : c.Args} (h : c.parts = []) :
    capturedTail (c.items args) = none := by
  rw [parts_eq_items c args] at h
  exact (pieces_eq_nil _ h).2.2.2

/-- No body is left below another. -/
theorem noBody_below {c : Comb} {next : Chain} (h : (sub c next).combs.countP Comb.IsBody ≤ 1)
    (hc : c.IsBody = true) : next.combs.countP Comb.IsBody = 0 := by
  rw [combs, List.countP_cons_of_pos hc] at h
  exact Nat.le_zero.mp (Nat.le_of_succ_le_succ h)

variable [HttpCrate] [MimeCrate] [Base64Crate] {req : RequestData}

/-- **The server's walk.**  Where every binding is read, the arguments are extracted. -/
theorem extract_of_reads : ∀ (c : Chain) {args : c.Args} {body : RequestBody} {st : ExtractState},
    CaptureAllLast c.parts → c.combs.countP Comb.IsBody ≤ 1 → c.Holds args body st →
    (∀ b ∈ c.bindings args, b.comb.Reads req body b.arg) →
      ∃ st', c.extract req st = (.route args, st')
  | verb _, _, _, st, _, _, _, _ => ⟨st, rfl⟩
  | sub (.path _) next, args, _, st, hlast, hone, hst, hreads
  | sub (.host _) next, args, _, st, hlast, hone, hst, hreads
  | sub (.fragment ..) next, args, _, st, hlast, hone, hst, hreads
  | sub (.description _) next, args, _, st, hlast, hone, hst, hreads
  | sub (.summary _) next, args, _, st, hlast, hone, hst, hreads
  | sub (.operationId _) next, args, _, st, hlast, hone, hst, hreads =>
      extract_of_reads next hlast hone ⟨hst.captures, hst.tail, hst.body⟩
        (List.forall_mem_cons.mp hreads).2
  | sub (.queryParam A data P S name) next, (a, args), _, st, hlast, hone, hst, hreads => by
      obtain ⟨hread, hreads⟩ := List.forall_mem_cons.mp hreads
      obtain ⟨st', h⟩ := extract_of_reads next hlast hone ⟨hst.captures, hst.tail, hst.body⟩ hreads
      exact ⟨st', extract_cons (congrArg (·, st) hread) h⟩
  | sub (.queryParams A data name) next, (as, args), _, st, hlast, hone, hst, hreads => by
      obtain ⟨hread, hreads⟩ := List.forall_mem_cons.mp hreads
      obtain ⟨st', h⟩ := extract_of_reads next hlast hone ⟨hst.captures, hst.tail, hst.body⟩ hreads
      exact ⟨st', extract_cons (congrArg (·, st) hread) h⟩
  | sub (.deepQuery A data name) next, (a, args), _, st, hlast, hone, hst, hreads => by
      obtain ⟨hread, hreads⟩ := List.forall_mem_cons.mp hreads
      obtain ⟨st', h⟩ := extract_of_reads next hlast hone ⟨hst.captures, hst.tail, hst.body⟩ hreads
      exact ⟨st', extract_cons (congrArg (·, st) hread) h⟩
  | sub (.header A data P S name) next, (a, args), _, st, hlast, hone, hst, hreads => by
      obtain ⟨hread, hreads⟩ := List.forall_mem_cons.mp hreads
      obtain ⟨st', h⟩ := extract_of_reads next hlast hone ⟨hst.captures, hst.tail, hst.body⟩ hreads
      exact ⟨st', extract_cons (congrArg (·, st) hread) h⟩
  | sub (.queryFlag name) next, (present, args), _, st, hlast, hone, hst, hreads => by
      obtain ⟨hread, hreads⟩ := List.forall_mem_cons.mp hreads
      obtain ⟨st', h⟩ := extract_of_reads next hlast hone ⟨hst.captures, hst.tail, hst.body⟩ hreads
      have hflag : extractQueryFlag name req.query = present := hread
      refine ⟨st', ?_⟩
      show consTail (extractQueryFlag name req.query) (next.extract req) st = _
      rw [hflag]
      exact consTail_route h
  -- a capture takes the first of the segments, a tail all of its own
  | sub (.capture A data S name) next, (a, args), _, st, hlast, hone, hst, hreads => by
      obtain ⟨hread, hreads⟩ := List.forall_mem_cons.mp hreads
      have hcaptures : st.captures = capturePiece data S a :: capturedPieces (next.items args) :=
        hst.captures
      let st₁ : ExtractState := { st with captures := capturedPieces (next.items args) }
      have hget : extractCapture data S name st = (.route a, st₁) := by
        have hbuild : CaptureShape.build S (data.fromUrlPiece (capturePiece data S a)) = .ok a :=
          hread
        rw [extractCapture_eq, hcaptures]
        simp only [List.head?_cons, List.tail_cons, captureResult, hbuild, st₁]
      have hst₁ : next.Holds args _ st₁ := ⟨rfl, hst.tail, hst.body⟩
      obtain ⟨st', h⟩ := extract_of_reads next hlast hone hst₁ hreads
      exact ⟨st', extract_cons hget h⟩
  | sub (.captureAll A data name) next, (as, args), _, st, hlast, hone, hst, hreads => by
      obtain ⟨hread, hreads⟩ := List.forall_mem_cons.mp hreads
      have htail : st.capturedAll.getD [] = as.map data.toUrlPiece := hst.tail
      have hnone : next.parts = [] := hlast
      let st₁ : ExtractState := { st with capturedAll := none }
      have hget : extractCaptureAll data name st = (.route as, st₁) := by
        have hparse : parseSegments data (as.map data.toUrlPiece) = .ok as := hread
        rw [extractCaptureAll_eq, captureAllResult, htail, hparse]
      have hst₁ : next.Holds args _ st₁ :=
        ⟨hst.captures, by rw [capturedTail_of_parts hnone], hst.body⟩
      obtain ⟨st', h⟩ := extract_of_reads next (hnone ▸ trivial) hone hst₁ hreads
      exact ⟨st', extract_cons hget h⟩
  -- the one body is read where it is reached
  | sub (.reqBody A ctypes S) next, (a, args), body, st, hlast, hone, hst, hreads => by
      obtain ⟨hread, hreads⟩ := List.forall_mem_cons.mp hreads
      have hbody : st.world.body = body := hst.body (by simp [combs, Comb.IsBody])
      have hzero : next.combs.countP Comb.IsBody = 0 := noBody_below hone rfl
      obtain ⟨st', h⟩ := extract_of_reads next hlast (by omega)
        ⟨hst.captures, hst.tail, fun hne => absurd hzero hne⟩ hreads
      have hget : (extractReqBody ctypes S req st.world.body, st) = (.route a, st) := by
        rw [hbody]
        exact congrArg (·, st) hread
      exact ⟨st', extract_cons hget h⟩
  | sub (.streamBody framing T codec) next, (items, args), body, st, hlast, hone, hst, hreads => by
      obtain ⟨⟨events, hslot, hitems⟩, hreads⟩ := List.forall_mem_cons.mp hreads
      have hbody : st.world.body = body := hst.body (by simp [combs, Comb.IsBody])
      have hzero : next.combs.countP Comb.IsBody = 0 := noBody_below hone rfl
      have htake : st.world.takeBodyStream.1 = .ok events := by
        rw [World.takeBodyStream, hbody, RequestBody.takeStream, hslot]
      let st₁ : ExtractState := { st with world := st.world.takeBodyStream.2 }
      have hget : takeBody st = (.route events, st₁) := orFatal_ok (congrArg (·, st₁) htake)
      have hst₁ : next.Holds args body st₁ :=
        ⟨hst.captures, hst.tail, fun hne => absurd hzero hne⟩
      obtain ⟨st', h⟩ := extract_of_reads next hlast (by omega) hst₁ hreads
      refine ⟨st', (bind_route hget).trans ?_⟩
      have hdecoded : decodeStream framing codec events = items := hitems
      rw [hdecoded]
      exact consTail_route h
  | sub .queryString _, (_, _), _, _, _, _, _, hreads | sub .vault _, (_, _), _, _, _, _, _, hreads
  | sub (.withResource _) _, (_, _), _, _, _, _, _, hreads
  | sub (.basicAuth ..) _, (_, _), _, _, _, _, _, hreads
  | sub (.authProtect _) _, (_, _), _, _, _, _, _, hreads
  | sub .isSecure _, (_, _), _, _, _, _, _, hreads
  | sub .httpVersion _, (_, _), _, _, _, _, _, hreads
  | sub .remoteHost _, (_, _), _, _, _, _, _, hreads
  | sub (.withNamedContext _) _, _, _, _, _, _, _, hreads =>
      ((List.forall_mem_cons.mp hreads).1 : False).elim

end Chain

/-! ### Queries and headers -/

omit [AppTypes] in
theorem parseSegments_sent {A : Type} {data : HttpApiData A} : ∀ {values : List A},
    (∀ value ∈ values, data.fromUrlPiece (data.toUrlPiece value) = .ok value) →
      Chain.parseSegments data (values.map data.toUrlPiece) = .ok values
  | [], _ => rfl
  | value :: values, h => by
      obtain ⟨hvalue, hvalues⟩ := List.forall_mem_cons.mp h
      rw [List.map_cons, Chain.parseSegments, hvalue, parseSegments_sent hvalues]
      rfl

section

variable {name : String} {query before own after : List QueryPair}

omit [AppTypes] in
/-- The entries of a root among pairs of other keys. -/
theorem parseDeepQuery_among {entries : DeepQueryParams}
    (hother : ∀ p ∈ before ++ after, isEntryKey name p.1 = false)
    (hclosed : ∀ entry ∈ entries, ∀ segment ∈ entry.path, ']' ∉ segment.toList) :
    parseDeepQuery name (before ++ (entries.map (DeepQueryEntry.pair name) ++ after))
      = .ok entries := by
  refine parseDeepQuery_eq_ok_iff.mpr ⟨?_, hclosed⟩
  have hnone : ∀ pairs : List QueryPair, (∀ p ∈ pairs, isEntryKey name p.1 = false) →
      pairs.filter (fun pair => isEntryKey name pair.1) = [] := by
    intro pairs h
    simpa [List.filter_eq_nil_iff] using h
  have hall : (entries.map (DeepQueryEntry.pair name)).filter (fun pair => isEntryKey name pair.1)
      = entries.map (DeepQueryEntry.pair name) := by
    refine List.filter_eq_self.mpr fun p hp => ?_
    obtain ⟨entry, -, rfl⟩ := List.mem_map.mp hp
    show isEntryKey name (name ++ String.ofList (brackets entry.path)) = true
    rw [← isSome_deepQuerySuffix, deepQuerySuffix_brackets]
    rfl
  rw [List.filter_append, List.filter_append, hall,
    hnone before fun p hp => hother p (List.mem_append_left _ hp),
    hnone after fun p hp => hother p (List.mem_append_right _ hp), List.nil_append, List.append_nil]

end

section

variable [HttpCrate] {bs : List Binding} {b : Binding}

/-- The value of a binding's header, among those of the others. -/
theorem get_of_entries (hnodup : (bs.filterMap fun b => b.comb.headerName).Nodup) (hb : b ∈ bs)
    {n : HeaderName} (hn : b.comb.headerName = some n) :
    HeaderMap.get n (bs.filterMap Binding.entry) = b.entry.map Prod.snd := by
  cases he : b.entry with
  | some p =>
      obtain ⟨m, v⟩ := p
      obtain rfl : m = n := Option.some.inj ((Comb.headerName_of_entry he).symm.trans hn)
      exact HeaderMap.get_of_mem (nodup_entries hnodup) (List.mem_filterMap.mpr ⟨b, hb, he⟩)
  | none =>
      refine HeaderMap.get_of_fresh fun hmem => ?_
      obtain ⟨pre, post, rfl⟩ := List.append_of_mem hb
      -- no other binding has the name
      rw [List.filterMap_append, List.filterMap_cons, hn, List.nodup_append] at hnodup
      obtain ⟨-, hpost, hpre⟩ := hnodup
      rw [List.filterMap_append, List.filterMap_cons, he, ← List.filterMap_append] at hmem
      have hmem := mem_names_of_entry hmem
      rw [List.filterMap_append] at hmem
      rcases List.mem_append.mp hmem with hmem | hmem
      · exact hpre n hmem n List.mem_cons_self rfl
      · exact (List.nodup_cons.mp hpost).1 hmem

variable [MimeCrate] {req : RequestData} {body : RequestBody} {maxBody : Nat}

/-- **Paths and queries are read**: a parameter finds its own pairs among those of other keys. -/
theorem Comb.reads_of_url {c : Comb} {a : c.Arg} (hs : c.Sendable maxBody a)
    (hc : c.IsBeside = false) {before after : List QueryPair}
    (hquery : req.query = before ++ (Binding.pairs ⟨c, a⟩ ++ after))
    (hother : ∀ p ∈ before ++ after, c.readsKey p.1 = false) : c.Reads req body a := by
  have hpairs : ∀ {item : UrlItem}, c.item a = some item →
      Binding.pairs ⟨c, a⟩ = item.sentPairs := by
    intro item h
    simp [Binding.pairs, Binding.item, h]
  have hforeign : ∀ {name : String}, (∀ key, c.readsKey key = decide (key ∈ queryKeys name)) →
      Foreign name before ∧ Foreign name after := by
    intro name hkeys
    have hnone : ∀ p ∈ before ++ after, p.1 ∉ queryKeys name := fun p hp =>
      of_decide_eq_false ((hkeys p.1).symm.trans (hother p hp))
    exact ⟨fun p hp => hnone p (List.mem_append_left _ hp),
      fun p hp => hnone p (List.mem_append_right _ hp)⟩
  cases c with
  | path | fragment | description | summary | operationId => trivial
  | header | host | reqBody | streamBody => cases hc
  | queryString | vault | withResource | basicAuth | authProtect | isSecure | httpVersion
  | remoteHost | withNamedContext => exact hs.elim
  | capture A data S name => exact hs
  | captureAll A data name => exact parseSegments_sent hs
  | queryParam A data P S name =>
      obtain ⟨-, ha, hvalue⟩ := hs
      obtain ⟨hbefore, hafter⟩ := hforeign fun _ => rfl
      have hown : Binding.pairs ⟨.queryParam A data P S name, a⟩ = UrlItem.pairs .plain
          (.queryParam name ((ArgShape.intoValue P S a).map data.toQueryParam)) := hpairs rfl
      rw [Comb.Reads, hquery, hown]
      exact Chain.extractQueryParam_sent ha hvalue hbefore hafter
  | queryParams A data name =>
      obtain ⟨-, hvalues⟩ := hs
      obtain ⟨hbefore, hafter⟩ := hforeign fun _ => rfl
      have hown : Binding.pairs ⟨.queryParams A data name, a⟩ = UrlItem.pairs .plain
          (.queryParams name ((show List A from a).map data.toQueryParam)) := hpairs rfl
      rw [Comb.Reads, hquery, hown]
      exact Chain.extractQueryParams_sent hvalues hbefore hafter
  | queryFlag name =>
      obtain ⟨hbefore, hafter⟩ := hforeign fun _ => rfl
      have hown : Binding.pairs ⟨.queryFlag name, a⟩
          = UrlItem.pairs .plain (.queryFlag name a) := hpairs rfl
      rw [Comb.Reads, hquery, hown]
      exact Chain.extractQueryFlag_sent a hbefore hafter
  | deepQuery A data name =>
      obtain ⟨-, hclosed, hvalue⟩ := hs
      have hown : Binding.pairs ⟨.deepQuery A data name, a⟩
          = (data.toDeepQuery a).map (DeepQueryEntry.pair name) := hpairs rfl
      have hread : parseDeepQuery name req.query = .ok (data.toDeepQuery a) := by
        rw [hquery, hown]
        exact parseDeepQuery_among hother hclosed
      simp only [Comb.Reads, Chain.extractDeepQuery, hread, hvalue]

/-- **A header is read** from the value sent for it. -/
theorem Comb.reads_of_header {A : Type} {data : HttpApiData A} {P : Presence} {S : Strictness}
    {name : String} {a : ArgShape.Out P S A} (laws : HeaderValueLaws)
    (hs : (Comb.header A data P S name).Sendable maxBody a)
    (hget : ∀ n, HttpCrate.headerNameFromStr name = some n →
      req.headers.get n = ((Comb.header A data P S name).entry a).map Prod.snd) :
    (Comb.header A data P S name).Reads req body a := by
  obtain ⟨hname, ha, htext⟩ := hs
  obtain ⟨n, hn⟩ := Option.isSome_iff_exists.mp hname
  have hget := hget n hn
  have hentry : (Comb.header A data P S name).entry a
      = (HttpCrate.headerNameFromStr name).bind fun n => (ArgShape.intoValue P S a).bind fun value =>
          (HttpCrate.headerValueFromStr (data.toHeader value)).bind fun v => some (n, v) := rfl
  have hbuild := ArgShape.build_intoValue ha
  show Chain.extractHeader data P S name req.headers = .route a
  rw [Chain.extractHeader, hn, Option.bind_some, hget, hentry, hn, Option.bind_some]
  cases hvalue : ArgShape.intoValue P S a with
  | none =>
      rw [hvalue] at hbuild
      simp only [Option.bind_none, Option.map_none] at hbuild ⊢
      rw [hbuild]
  | some value =>
      obtain ⟨hheader, hread⟩ := htext value hvalue
      obtain ⟨hfrom, hto⟩ := laws.of_isHeaderText hheader
      rw [hvalue] at hbuild
      simp only [Option.bind_some, hfrom, Option.map_some, hto, hread] at hbuild ⊢
      rw [hbuild]

/-! ### Bodies -/

end

omit [AppTypes] in
/-- What is written in the first media type of a list is read by the codec that wrote it: no codec
stands before. -/
theorem unrender_renderPrimary {A : Type} {L : List (Codec A)} {value : A} {mime : Mime}
    {bytes : Bytes} (hback : ∀ c ∈ L, c.ReadsBack value)
    (h : Codec.renderPrimary L value = .ok (mime, bytes)) :
    mime ∈ Codec.allMediaTypes L ∧ Codec.unrender L mime bytes = some (.ok value) := by
  rw [Codec.renderPrimary] at h
  cases hL : Codec.allMediaTypes L with
  | nil =>
      rw [hL] at h
      cases h
  | cons m ms =>
      rw [hL] at h
      have hfirst : (Codec.allMediaTypes L)[0]? = some m := by rw [hL]; rfl
      obtain ⟨before, c, after, j, rfl, hj, hzero⟩ := Codec.exists_owner hfirst
      obtain ⟨hbefore, rfl⟩ := Nat.eq_zero_of_add_eq_zero hzero.symm
      obtain ⟨hlt, hget⟩ := List.getElem?_eq_some_iff.mp hj
      have hwrites : Codec.renderIndex (before ++ c :: after) value 0 = c.mimeRender value := by
        have howner := Codec.renderIndex_owner before after value hlt
        rwa [hbefore] at howner
      rw [hwrites] at h
      cases hr : c.mimeRender value with
      | error e =>
          rw [hr] at h
          cases h
      | ok bytes' =>
          rw [hr] at h
          obtain ⟨rfl, rfl⟩ := Prod.mk.inj (Except.ok.inj h)
          have hnone : ∀ m' ∈ Codec.allMediaTypes before, ¬ m'.SameSubtype m := by
            rw [List.length_eq_zero_iff.mp hbefore]
            exact fun m' hm' => absurd hm' List.not_mem_nil
          refine ⟨List.mem_cons_self, ?_⟩
          rw [Codec.unrender_owner (hget ▸ List.getElem_mem hlt) hnone,
            hback c (by simp) bytes' hr]

variable [HttpCrate] [MimeCrate] {req : RequestData} {maxBody : Nat}

omit [AppTypes] [HttpCrate] in
/-- The text of a media type that is carried, as a server has it. -/
theorem requestContentType_of_carried {m : Mime} (h : m.Carried) :
    requestContentType (some m.source) = some m := by
  rw [requestContentType, h.trimmed, h.parsed]

/-- **A body is read** by the codec that wrote it. -/
theorem Comb.reads_of_reqBody {A : Type} {ctypes : List (Codec A)} {S : Strictness}
    {a : ArgShape.Out .required S A} (hs : (Comb.reqBody A ctypes S).Sendable maxBody a)
    {value : A} (hvalue : ArgShape.intoValue .required S a = some value) {mime : Mime}
    {bytes : Bytes} (hrender : Codec.renderPrimary ctypes value = .ok (mime, bytes))
    (hcontent : req.contentType = some mime.source) {body : RequestBody}
    (hslot : body.slot = .buffered bytes) : (Comb.reqBody A ctypes S).Reads req body a := by
  obtain ⟨ha, hsent⟩ := hs
  obtain ⟨hback, hcarried⟩ := hsent value hvalue
  have hbuild := ArgShape.build_intoValue ha
  rw [hvalue] at hbuild
  have hbuffered : body.bufferedBytes = .ok bytes := by rw [RequestBody.bufferedBytes, hslot]
  have hread : negotiateContent ctypes req.contentType bytes = some (.ok value) := by
    rw [hcontent, negotiateContent, requestContentType_of_carried (hcarried mime bytes hrender).1,
      Option.bind_some, (unrender_renderPrimary hback hrender).2]
  show Chain.extractReqBody ctypes S req body = .route a
  simp only [Chain.extractReqBody, hbuffered, hread, Except.mapError]
  have hbuild : ArgShape.build .required S (some (.ok value)) = .ok a := hbuild
  rw [hbuild]

/-- **A stream is read**, in whatever chunks it comes. -/
theorem Comb.reads_of_streamBody {T : Type} {framing : Framing} {codec : Codec T}
    {items : SourceStream (Except StreamBodyError T)}
    (hs : (Comb.streamBody framing T codec).Sendable maxBody items) :
    ∃ chunks : List Bytes, encodeStreamBody framing codec items = .ofList (chunks.map .ok) ∧
      ∀ {body : RequestBody} {events : List BodyEvent}, body.slot = .streaming (some events) →
        receivedBytes events = chunks.flatten → transportError events = none →
          (Comb.streamBody framing T codec).Reads req body items := by
  obtain ⟨-, hstable, allowed, values, hdelimits, rfl, htrips, hle⟩ := hs
  refine ⟨values.map (encodeItem framing codec), encodeStreamBody_ofList htrips, ?_⟩
  intro body events hslot hbytes herror
  rw [← List.flatMap_def] at hbytes
  exact ⟨events, hslot, decodeStream_encoded hstable hdelimits htrips hle hbytes herror⟩

end ServantRs
