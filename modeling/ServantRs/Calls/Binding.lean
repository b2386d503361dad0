import ServantRs.Url.Items

/-!
# Calls — bindings

A call of an endpoint is a list of bindings, one for each combinator: the combinator, and the
argument it is given.  What a call puts in a URL and on a request, it puts there binding by
binding.

* `items_eq_bindings`: the items of the URL.
* `buildRequest_eq_bindings`: the client's walk.
-/

namespace ServantRs

variable [AppTypes]

/-- The argument a combinator takes; the others take none. -/
def Comb.Arg : Comb → Type
  | capture A _ S _      => CaptureShape.Out S A
  | captureAll A _ _     => List A
  | queryParam A _ P S _ => ArgShape.Out P S A
  | queryParams A _ _    => List A
  | queryFlag _          => Bool
  | queryString          => Query
  | deepQuery A _ _      => A
  | header A _ P S _     => ArgShape.Out P S A
  | reqBody A _ S        => ArgShape.Out .required S A
  | streamBody _ T _     => SourceStream (Except StreamBodyError T)
  | vault                => AppTypes.Extensions
  | withResource R       => AppTypes.El R
  | basicAuth Usr _      => AppTypes.El Usr
  | authProtect Usr      => AppTypes.El Usr
  | isSecure             => Bool
  | httpVersion          => Version
  | remoteHost           => Option AppTypes.SocketAddr
  | _                    => Unit

/-- A combinator with its argument. -/
structure Binding where
  comb : Comb
  arg : comb.Arg

namespace Chain

/-- The combinators, outermost first. -/
def combs : Chain → List Comb
  | verb _     => []
  | sub c next => c :: next.combs

/-- The combinators with their arguments. -/
def bindings : (c : Chain) → c.Args → List Binding
  | verb _, _ => []
  | sub (.capture A data S name) next, (a, args) =>
    ⟨.capture A data S name, a⟩ :: next.bindings args
  | sub (.captureAll A data name) next, (as, args) =>
    ⟨.captureAll A data name, as⟩ :: next.bindings args
  | sub (.queryParam A data P S name) next, (a, args) =>
    ⟨.queryParam A data P S name, a⟩ :: next.bindings args
  | sub (.queryParams A data name) next, (as, args) =>
    ⟨.queryParams A data name, as⟩ :: next.bindings args
  | sub (.queryFlag name) next, (present, args) =>
    ⟨.queryFlag name, present⟩ :: next.bindings args
  | sub .queryString next, (query, args) => ⟨.queryString, query⟩ :: next.bindings args
  | sub (.deepQuery A data name) next, (a, args) =>
    ⟨.deepQuery A data name, a⟩ :: next.bindings args
  | sub (.header A data P S name) next, (a, args) =>
    ⟨.header A data P S name, a⟩ :: next.bindings args
  | sub (.reqBody A ctypes S) next, (a, args) => ⟨.reqBody A ctypes S, a⟩ :: next.bindings args
  | sub (.streamBody framing T codec) next, (items, args) =>
    ⟨.streamBody framing T codec, items⟩ :: next.bindings args
  | sub .vault next, (a, args) => ⟨.vault, a⟩ :: next.bindings args
  | sub (.withResource R) next, (a, args) => ⟨.withResource R, a⟩ :: next.bindings args
  | sub (.basicAuth Usr realm) next, (a, args) => ⟨.basicAuth Usr realm, a⟩ :: next.bindings args
  | sub (.authProtect Usr) next, (a, args) => ⟨.authProtect Usr, a⟩ :: next.bindings args
  | sub .isSecure next, (a, args) => ⟨.isSecure, a⟩ :: next.bindings args
  | sub .httpVersion next, (a, args) => ⟨.httpVersion, a⟩ :: next.bindings args
  | sub .remoteHost next, (a, args) => ⟨.remoteHost, a⟩ :: next.bindings args
  | sub (.path segment) next, args => ⟨.path segment, ()⟩ :: next.bindings args
  | sub (.host name) next, args => ⟨.host name, ()⟩ :: next.bindings args
  | sub (.fragment A data text) next, args => ⟨.fragment A data text, ()⟩ :: next.bindings args
  | sub (.description text) next, args => ⟨.description text, ()⟩ :: next.bindings args
  | sub (.summary text) next, args => ⟨.summary text, ()⟩ :: next.bindings args
  | sub (.operationId id) next, args => ⟨.operationId id, ()⟩ :: next.bindings args
  | sub (.withNamedContext Name) next, args => ⟨.withNamedContext Name, ()⟩ :: next.bindings args

theorem map_comb_bindings : ∀ (c : Chain) (args : c.Args),
    (c.bindings args).map Binding.comb = c.combs
  | verb _, _ => rfl
  | sub (.capture ..) next, (_, args) | sub (.captureAll ..) next, (_, args)
  | sub (.queryParam ..) next, (_, args) | sub (.queryParams ..) next, (_, args)
  | sub (.queryFlag _) next, (_, args) | sub .queryString next, (_, args)
  | sub (.deepQuery ..) next, (_, args) | sub (.header ..) next, (_, args)
  | sub (.reqBody ..) next, (_, args) | sub (.streamBody ..) next, (_, args)
  | sub .vault next, (_, args) | sub (.withResource _) next, (_, args)
  | sub (.basicAuth ..) next, (_, args) | sub (.authProtect _) next, (_, args)
  | sub .isSecure next, (_, args) | sub .httpVersion next, (_, args)
  | sub .remoteHost next, (_, args) => congrArg (List.cons _) (map_comb_bindings next args)
  | sub (.path _) next, args | sub (.host _) next, args | sub (.fragment ..) next, args
  | sub (.description _) next, args | sub (.summary _) next, args
  | sub (.operationId _) next, args | sub (.withNamedContext _) next, args =>
      congrArg (List.cons _) (map_comb_bindings next args)

theorem comb_mem {c : Chain} {args : c.Args} {b : Binding} (hb : b ∈ c.bindings args) :
    b.comb ∈ c.combs := map_comb_bindings c args ▸ List.mem_map_of_mem hb

end Chain

/-- The item of a combinator in a URL. -/
def Comb.item : (c : Comb) → c.Arg → Option UrlItem
  | path segment, _ => some (.static segment)
  | capture _ data S _, a =>
    some (.capture (((CaptureShape.intoValue S a).map data.toUrlPiece).getD ""))
  | captureAll _ data _, as => some (.captureAll (as.map data.toUrlPiece))
  | queryParam _ data P S name, a =>
    some (.queryParam name ((ArgShape.intoValue P S a).map data.toQueryParam))
  | queryParams _ data name, as => some (.queryParams name (as.map data.toQueryParam))
  | queryFlag name, present => some (.queryFlag name present)
  | queryString, query => some (.queryString query)
  | deepQuery _ data name, a => some (.deepQuery name (data.toDeepQuery a))
  | _, _ => none

def Binding.item (b : Binding) : Option UrlItem := b.comb.item b.arg

/-- **The items of a call are those of its bindings.** -/
theorem Chain.items_eq_bindings : ∀ (c : Chain) (args : c.Args),
    c.items args = (c.bindings args).filterMap Binding.item
  | verb _, _ => rfl
  | sub (.path _) next, args => congrArg (List.cons _) (items_eq_bindings next args)
  | sub (.capture ..) next, (_, args) | sub (.captureAll ..) next, (_, args)
  | sub (.queryParam ..) next, (_, args) | sub (.queryParams ..) next, (_, args)
  | sub (.queryFlag _) next, (_, args) | sub .queryString next, (_, args)
  | sub (.deepQuery ..) next, (_, args) => congrArg (List.cons _) (items_eq_bindings next args)
  | sub (.header ..) next, (_, args) | sub (.reqBody ..) next, (_, args)
  | sub (.streamBody ..) next, (_, args) | sub .vault next, (_, args)
  | sub (.withResource _) next, (_, args) | sub (.basicAuth ..) next, (_, args)
  | sub (.authProtect _) next, (_, args) | sub .isSecure next, (_, args)
  | sub .httpVersion next, (_, args) | sub .remoteHost next, (_, args) =>
      items_eq_bindings next args
  | sub (.host _) next, args | sub (.fragment ..) next, args | sub (.description _) next, args
  | sub (.summary _) next, args | sub (.operationId _) next, args
  | sub (.withNamedContext _) next, args => items_eq_bindings next args

/-! ### The client's walk -/

variable [PercentEncoding] [HttpCrate]

/-- What the client does for a combinator.  What a server alone provides is not put on a
request. -/
def Comb.addTo (req : ClientRequest) : (c : Comb) → c.Arg → Except String ClientRequest
  | path segment, _ => .ok (req.appendPath segment)
  | capture _ data S _, a => .ok (match CaptureShape.intoValue S a with
    | some a => req.appendPath (data.toUrlPiece a)
    | none   => req.appendPath "")
  | captureAll _ data _, as =>
    .ok (List.foldl (fun req a => req.appendPath (data.toUrlPiece a)) req as)
  | queryParam _ data P S name, a => .ok (match ArgShape.intoValue P S a with
    | some a => req.appendQuery name (some (data.toQueryParam a))
    | none   => req)
  | queryParams _ data name, as =>
    .ok (List.foldl (fun req a => req.appendQuery name (some (data.toQueryParam a))) req as)
  | queryFlag name, present =>
    let present : Bool := present
    .ok (if present then req.appendQuery name none else req)
  | queryString, query => .ok (req.setQueryString query)
  | deepQuery _ data name, a => .ok ((data.toDeepQuery a).foldl (fun req entry =>
    req.appendDeepQuery name entry.path entry.value) req)
  | header _ data P S name, a => .ok (match ArgShape.intoValue P S a with
    | some a => Chain.addHeaderText name (data.toHeader a) req
    | none   => req)
  | host name, _ => do
    let value ← Chain.hostHeader name
    .ok { req with headers := req.headers.insert .HOST value }
  | reqBody _ ctypes S, a =>
    match ArgShape.intoValue .required S a with
    | some a => do
      let (mime, bytes) ← Codec.renderPrimary ctypes a
      .ok (req.setBody bytes mime)
    | none => .ok req
  | streamBody framing _ codec, items =>
    .ok (req.setStreamingBody ⟨codec.mediaType, encodeStreamBody framing codec items⟩)
  | _, _ => .ok req

def Binding.addTo (req : ClientRequest) (b : Binding) : Except String ClientRequest :=
  b.comb.addTo req b.arg

namespace Chain

/-- **The client walks over the bindings.** -/
theorem buildRequest_eq_bindings : ∀ (c : Chain) (h : c.HasClient) (args : c.Args)
    (req : ClientRequest), c.buildRequest h args req
      = ((c.bindings args).foldlM Binding.addTo req).map c.terminal.buildRequest
  | verb _, _, _, _ => rfl
  | sub (.path _) next, h, args, _ => buildRequest_eq_bindings next h.2 args _
  | sub (.capture ..) next, h, (_, args), _ => buildRequest_eq_bindings next h.2 args _
  | sub (.captureAll ..) next, h, (_, args), _ => buildRequest_eq_bindings next h.2 args _
  | sub (.queryParam ..) next, h, (_, args), _ => buildRequest_eq_bindings next h.2 args _
  | sub (.queryParams ..) next, h, (_, args), _ => buildRequest_eq_bindings next h.2 args _
  | sub (.queryFlag _) next, h, (_, args), _ => buildRequest_eq_bindings next h.2 args _
  | sub .queryString next, h, (_, args), _ => buildRequest_eq_bindings next h.2 args _
  | sub (.deepQuery ..) next, h, (_, args), _ => buildRequest_eq_bindings next h.2 args _
  | sub (.header ..) next, h, (_, args), _ => buildRequest_eq_bindings next h.2 args _
  | sub (.streamBody ..) next, h, (_, args), _ => buildRequest_eq_bindings next h.2 args _
  | sub (.fragment ..) next, h, args, _ => buildRequest_eq_bindings next h.2 args _
  | sub (.description _) next, h, args, _ => buildRequest_eq_bindings next h.2 args _
  | sub (.summary _) next, h, args, _ => buildRequest_eq_bindings next h.2 args _
  | sub (.operationId _) next, h, args, _ => buildRequest_eq_bindings next h.2 args _
  -- the two steps that can fail
  | sub (.host name) next, h, args, req => by
      rw [buildRequest, bindings, List.foldlM_cons, Binding.addTo, Comb.addTo]
      cases hostHeader name with
      | error e => rfl
      | ok value => exact buildRequest_eq_bindings next h.2 args _
  | sub (.reqBody A ctypes S) next, h, (a, args), req => by
      rw [buildRequest, bindings, List.foldlM_cons, Binding.addTo, Comb.addTo]
      cases ArgShape.intoValue .required S a with
      | none => exact buildRequest_eq_bindings next h.2 args _
      | some value =>
          dsimp only
          cases Codec.renderPrimary ctypes value with
          | error e => rfl
          | ok rendered => exact buildRequest_eq_bindings next h.2 args _
  | sub .vault _, h, _, _ | sub (.withResource _) _, h, _, _ | sub (.basicAuth ..) _, h, _, _
  | sub (.authProtect _) _, h, _, _ | sub .isSecure _, h, _, _ | sub .httpVersion _, h, _, _
  | sub .remoteHost _, h, _, _ | sub (.withNamedContext _) _, h, _, _ => h.1.elim

end Chain

end ServantRs
