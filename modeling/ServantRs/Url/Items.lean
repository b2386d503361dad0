import ServantRs.Client.Build
import ServantRs.Core.Link

/-!
# Url — what a call puts in a URL

An endpoint chain is walked twice to get a URL: by the client, which fills a request, and by the
link interpretation.  What either puts there is a list of items, one for each combinator of the
path and the query (`Chain.items`, `Chain.linkItems`); what a URL shows of them is `UrlParts`.

* `target_eq_render`, `renderWith_eq`: a target and a link are rendered from the parts alone.
* `buildRequest_shows`, `url_addToLink`: the two walks put the items in, one after another.
-/

namespace ServantRs

/-! ### What a URL shows -/

/-- Escaped segments, a raw query, and rendered parameters after it. -/
structure UrlParts where
  segments : List String
  rawQuery : Option String
  params : List String
deriving DecidableEq, Repr

namespace UrlParts

def empty : UrlParts := ⟨[], none, []⟩

/-- The `?` part. -/
def queryPart (url : UrlParts) : String :=
  if url.rawQuery ≠ none ∨ url.params ≠ [] then
    "?" ++ (match url.rawQuery with
      | some raw => raw ++ (if raw ≠ "" ∧ url.params ≠ [] then "&" else "")
      | none     => "") ++ "&".intercalate url.params
  else ""

def render (url : UrlParts) : String := "/" ++ "/".intercalate url.segments ++ url.queryPart

def addParams (url : UrlParts) (params : List String) : UrlParts :=
  { url with params := url.params ++ params }

theorem addParams_nil (url : UrlParts) : url.addParams [] = url := by
  simp [addParams]

theorem addParams_cons (url : UrlParts) (param : String) (params : List String) :
    url.addParams (param :: params) = (url.addParams [param]).addParams params := by
  simp [addParams]

variable [PercentEncoding]

/-- More segments, encoded. -/
def addSegments (url : UrlParts) (raws : List String) : UrlParts :=
  { url with segments := url.segments ++ raws.map encode }

theorem addSegments_nil (url : UrlParts) : url.addSegments [] = url := by
  simp [addSegments]

theorem addSegments_cons (url : UrlParts) (raw : String) (raws : List String) :
    url.addSegments (raw :: raws) = (url.addSegments [raw]).addSegments raws := by
  simp [addSegments]

end UrlParts

variable [PercentEncoding]

namespace QueryRender

/-- The pair a parameter is recorded as. -/
def pair : QueryRender → QueryPair
  | plain key value | deepObject key value => (key, value)

theorem render_plain (key : String) (value : Option String) :
    (plain key value).render = renderPair (key, value) := by
  rw [render, renderPairs, List.map_singleton, String.intercalate_singleton]

end QueryRender

namespace ClientRequest

def url (req : ClientRequest) : UrlParts :=
  ⟨req.segments, req.rawQuery, req.queryRender.map QueryRender.render⟩

/-- The pairs are those of the parameters to be rendered, in order. -/
def Paired (req : ClientRequest) : Prop := req.query = req.queryRender.map QueryRender.pair

/-- A target is rendered from the parts of its URL. -/
theorem target_eq_render {req : ClientRequest} (h : req.Paired) : req.target = req.url.render := by
  have hparams : req.url.params ≠ [] ↔ req.query ≠ [] := by
    rw [h, url, ne_eq, ne_eq, List.map_eq_nil_iff, List.map_eq_nil_iff]
  rw [target, UrlParts.render, UrlParts.queryPart]
  simp only [hparams]
  rfl

end ClientRequest

namespace Link

def url (style : ArrayElementStyle) (link : Link) : UrlParts :=
  ⟨link.segments, link.rawQuery, link.query.map (renderParam style)⟩

end Link

/-- A parameter with a pair renders as the pair, in either style. -/
theorem renderPair_of_plainPair {style : ArrayElementStyle} {param : Param} {pair : QueryPair}
    (h : param.plainPair = some pair) : renderPair pair = renderParam style param := by
  cases param with
  | single key value =>
      obtain rfl := Option.some.inj h
      rfl
  | flag key =>
      obtain rfl := Option.some.inj h
      rfl
  | arrayElem key value => cases h
  | deepObject key value => cases h

/-- The short way through parameters that are all plain gives what the long way does. -/
theorem renderParams_eq (params : List Param) (style : ArrayElementStyle) :
    renderParams params style = "&".intercalate (params.map (renderParam style)) := by
  rw [renderParams]
  split
  · rename_i pairs h
    rw [renderPairs]
    congr 1
    induction params generalizing pairs with
    | nil =>
        obtain rfl : [] = pairs := by simpa using h
        rfl
    | cons param params ih =>
        rw [List.mapM_cons] at h
        obtain ⟨pair, hpair, h⟩ := Option.bind_eq_some_iff.mp h
        obtain ⟨rest, hrest, h⟩ := Option.bind_eq_some_iff.mp h
        obtain rfl := Option.some.inj h
        rw [List.map_cons, List.map_cons, renderPair_of_plainPair hpair, ih rest hrest]
  · rfl

/-- A link is rendered from the parts of its URL, then its fragment. -/
theorem Link.renderWith_eq (link : Link) (style : ArrayElementStyle) (leadingSlash : Bool) :
    link.renderWith style leadingSlash
      = (if leadingSlash then "/" else "") ++ "/".intercalate link.segments
        ++ (link.url style).queryPart ++ (match link.fragment with
          | some frag => "#" ++ encode frag
          | none      => "") := by
  have hparams : (link.url style).params ≠ [] ↔ link.query ≠ [] := by
    rw [url, ne_eq, ne_eq, List.map_eq_nil_iff]
  rw [renderWith, renderQueryPart, UrlParts.queryPart, renderParams_eq]
  simp only [hparams]
  rfl

theorem Link.renderWith_dropFragment (link : Link) (style : ArrayElementStyle) :
    link.dropFragment.renderWith style true = (link.url style).render := by
  rw [renderWith_eq, dropFragment, String.append_empty]
  rfl

/-! ### Items -/

/-- What one combinator puts in a URL. -/
inductive UrlItem where
  | static (segment : String)
  | capture (piece : String)
  | captureAll (pieces : List String)
  | queryParam (name : String) (value : Option String)
  | queryParams (name : String) (values : List String)
  | queryFlag (name : String) (present : Bool)
  | queryString (query : Query)
  | deepQuery (name : String) (entries : DeepQueryParams)
deriving DecidableEq, Repr

namespace UrlItem

/-- Its segments, as they are before encoding. -/
def pieces : UrlItem → List String
  | static segment    => [segment]
  | capture piece     => [piece]
  | captureAll pieces => pieces
  | _                 => []

/-- Its rendered parameters. -/
def params (style : ArrayElementStyle) : UrlItem → List String
  | queryParam name value => value.toList.map fun value => renderParam style (.single name value)
  | queryParams name values => values.map fun value => renderParam style (.arrayElem name value)
  | queryFlag name present => if present then [renderParam style (.flag name)] else []
  | deepQuery name entries => entries.map fun entry =>
    renderParam style (.deepObject (renderDeepQueryKey name entry.path) entry.value)
  | _ => []

/-- A query string replaces what is there; any other item comes after it. -/
def addTo (style : ArrayElementStyle) (url : UrlParts) : UrlItem → UrlParts
  | queryString query =>
    ⟨url.segments, query.raw, if query.raw = none then query.pairs.map renderPair else []⟩
  | item => (url.addSegments item.pieces).addParams (item.params style)

section

variable (style : ArrayElementStyle) (url : UrlParts)

theorem addTo_static (segment : String) :
    addTo style url (static segment) = url.addSegments [segment] := UrlParts.addParams_nil _

theorem addTo_capture (piece : String) :
    addTo style url (capture piece) = url.addSegments [piece] := UrlParts.addParams_nil _

theorem addTo_captureAll (pieces : List String) :
    addTo style url (captureAll pieces) = url.addSegments pieces := UrlParts.addParams_nil _

theorem addTo_queryParam (name : String) (value : Option String) :
    addTo style url (queryParam name value) = url.addParams
      (value.toList.map fun value => renderParam style (.single name value)) :=
  congrArg (UrlParts.addParams · _) (UrlParts.addSegments_nil url)

theorem addTo_queryParams (name : String) (values : List String) :
    addTo style url (queryParams name values) = url.addParams
      (values.map fun value => renderParam style (.arrayElem name value)) :=
  congrArg (UrlParts.addParams · _) (UrlParts.addSegments_nil url)

theorem addTo_queryFlag (name : String) (present : Bool) :
    addTo style url (queryFlag name present) = url.addParams
      (if present then [renderParam style (.flag name)] else []) :=
  congrArg (UrlParts.addParams · _) (UrlParts.addSegments_nil url)

theorem addTo_deepQuery (name : String) (entries : DeepQueryParams) :
    addTo style url (deepQuery name entries) = url.addParams (entries.map fun entry =>
      renderParam style (.deepObject (renderDeepQueryKey name entry.path) entry.value)) :=
  congrArg (UrlParts.addParams · _) (UrlParts.addSegments_nil url)

end

end UrlItem

/-- The parts of a URL with these items in it. -/
def UrlParts.ofItems (style : ArrayElementStyle) (items : List UrlItem) : UrlParts :=
  items.foldl (UrlItem.addTo style) .empty

/-! ### The client's steps -/

/-- A request shows these parts of a URL. -/
structure ClientRequest.Shows (req : ClientRequest) (url : UrlParts) : Prop where
  paired : req.Paired
  url_eq : req.url = url

namespace ClientRequest.Shows

variable {req : ClientRequest} {url : UrlParts}

theorem new : ClientRequest.new.Shows .empty := ⟨rfl, rfl⟩

/-- What does not touch segments and queries shows no difference. -/
theorem of_eq (h : req.Shows url) {req' : ClientRequest} (hsegments : req'.segments = req.segments)
    (hraw : req'.rawQuery = req.rawQuery) (hquery : req'.query = req.query)
    (hrender : req'.queryRender = req.queryRender) : req'.Shows url := by
  refine ⟨?_, ?_⟩
  · rw [Paired, hquery, hrender]
    exact h.paired
  · rw [ClientRequest.url, hsegments, hraw, hrender]
    exact h.url_eq

theorem appendPath (h : req.Shows url) (raw : String) :
    (req.appendPath raw).Shows (url.addSegments [raw]) := by
  obtain ⟨hpaired, rfl⟩ := h
  exact ⟨hpaired, rfl⟩

/-- One more parameter, recorded and to be rendered. -/
theorem append (h : req.Shows url) (render : QueryRender) :
    ClientRequest.Shows { req with query := req.query ++ [render.pair],
                                   queryRender := req.queryRender ++ [render] }
      (url.addParams [render.render]) := by
  obtain ⟨hpaired, rfl⟩ := h
  refine ⟨?_, ?_⟩
  · have hquery : req.query = req.queryRender.map QueryRender.pair := hpaired
    show req.query ++ [render.pair] = (req.queryRender ++ [render]).map QueryRender.pair
    rw [List.map_append, List.map_singleton, hquery]
  · rw [ClientRequest.url, List.map_append, List.map_singleton]
    rfl

theorem appendQuery (h : req.Shows url) (name : String) (value : Option String) :
    (req.appendQuery name value).Shows (url.addParams [renderPair (name, value)]) := by
  rw [← QueryRender.render_plain]
  exact h.append (.plain name value)

theorem appendDeepQuery (h : req.Shows url) (root : String) (entry : DeepQueryEntry) :
    (req.appendDeepQuery root entry.path entry.value).Shows (url.addParams
      [renderParam .plain (.deepObject (renderDeepQueryKey root entry.path) entry.value)]) := by
  have hrender : QueryRender.render (.deepObject (renderDeepQueryKey root entry.path) entry.value)
      = renderParam .plain (.deepObject (renderDeepQueryKey root entry.path) entry.value) := by
    cases entry.value with
    | none => rfl
    | some value => rfl
  rw [← hrender]
  exact h.append (.deepObject (renderDeepQueryKey root entry.path) entry.value)

theorem setQueryString (h : req.Shows url) (query : Query) :
    (req.setQueryString query).Shows (UrlItem.addTo .plain url (.queryString query)) := by
  obtain ⟨hpaired, rfl⟩ := h
  obtain ⟨_ | raw, pairs⟩ := query
  · refine ⟨?_, ?_⟩
    · show pairs = (pairs.map fun pair => QueryRender.plain pair.1 pair.2).map QueryRender.pair
      rw [List.map_map]
      exact (List.map_id pairs).symm
    · have hparams : (pairs.map fun pair => QueryRender.plain pair.1 pair.2).map
          QueryRender.render = pairs.map renderPair := by
        rw [List.map_map]
        exact List.map_congr_left fun pair _ => QueryRender.render_plain pair.1 pair.2
      exact congrArg (UrlParts.mk req.segments none) hparams
  · exact ⟨rfl, rfl⟩

theorem foldl_appendPath {A : Type} (f : A → String) : ∀ (as : List A) {req : ClientRequest}
    {url : UrlParts}, req.Shows url →
      (as.foldl (fun req a => req.appendPath (f a)) req).Shows (url.addSegments (as.map f))
  | [], _, url, h => by
      rw [List.map_nil, UrlParts.addSegments_nil]
      exact h
  | a :: as, _, url, h => by
      rw [List.map_cons, UrlParts.addSegments_cons]
      exact foldl_appendPath f as (h.appendPath (f a))

/-- A loop that adds one parameter for each value. -/
theorem foldl_append {A : Type} {f : ClientRequest → A → ClientRequest} {param : A → String}
    (step : ∀ {req url} (a : A), req.Shows url → (f req a).Shows (url.addParams [param a])) :
    ∀ (as : List A) {req : ClientRequest} {url : UrlParts}, req.Shows url →
      (as.foldl f req).Shows (url.addParams (as.map param))
  | [], _, url, h => by
      rw [List.map_nil, UrlParts.addParams_nil]
      exact h
  | a :: as, _, url, h => by
      rw [List.map_cons, UrlParts.addParams_cons]
      exact foldl_append step as (step a h)

theorem addHeaderText [HttpCrate] (h : req.Shows url) (name value : String) :
    (Chain.addHeaderText name value req).Shows url := by
  rw [Chain.addHeaderText]
  split
  · exact h.of_eq rfl rfl rfl rfl
  · exact h

end ClientRequest.Shows

/-! ### The link's steps -/

namespace Link

variable {style : ArrayElementStyle}

theorem url_addSegment (link : Link) (raw : String) :
    (link.addSegment raw).url style = (link.url style).addSegments [raw] := rfl

theorem url_addQuery (link : Link) (param : Param) :
    (link.addQuery param).url style = (link.url style).addParams [renderParam style param] := by
  rw [url, addQuery, List.map_append, List.map_singleton]
  rfl

theorem renderParam_pairParam (pair : QueryPair) :
    renderParam style (pairParam pair) = renderPair pair := by
  obtain ⟨key, _ | value⟩ := pair
  · rfl
  · rfl

theorem url_setQueryString (link : Link) (query : Query) :
    (link.setQueryString query).url style
      = UrlItem.addTo style (link.url style) (.queryString query) := by
  obtain ⟨_ | raw, pairs⟩ := query
  · have hparams : (pairs.map pairParam).map (renderParam style) = pairs.map renderPair := by
      rw [List.map_map]
      exact List.map_congr_left fun pair _ => renderParam_pairParam pair
    exact congrArg (UrlParts.mk link.segments none) hparams
  · rfl

theorem url_foldl_addSegment {A : Type} (f : A → String) : ∀ (as : List A) (link : Link),
    (as.foldl (fun link a => link.addSegment (f a)) link).url style
      = (link.url style).addSegments (as.map f)
  | [], link => by
      rw [List.map_nil, UrlParts.addSegments_nil]
      rfl
  | a :: as, link => by
      rw [List.map_cons, UrlParts.addSegments_cons, List.foldl_cons, url_foldl_addSegment f as,
        url_addSegment]

/-- A loop that adds one parameter for each value. -/
theorem url_foldl_addQuery {A : Type} (param : A → Param) : ∀ (as : List A) (link : Link),
    (as.foldl (fun link a => link.addQuery (param a)) link).url style
      = (link.url style).addParams (as.map fun a => renderParam style (param a))
  | [], link => by
      rw [List.map_nil, UrlParts.addParams_nil]
      rfl
  | a :: as, link => by
      rw [List.map_cons, UrlParts.addParams_cons, List.foldl_cons, url_foldl_addQuery param as,
        url_addQuery]

end Link

/-! ### The items of a chain -/

variable [AppTypes]

namespace Chain

/-- The items of a client's call. -/
def items : (c : Chain) → c.Args → List UrlItem
  | verb _, _ => []
  | sub (.path segment) next, args => .static segment :: next.items args
  | sub (.capture _ data S _) next, (a, args) =>
    .capture (((CaptureShape.intoValue S a).map data.toUrlPiece).getD "") :: next.items args
  | sub (.captureAll _ data _) next, (as, args) =>
    .captureAll (as.map data.toUrlPiece) :: next.items args
  | sub (.queryParam _ data P S name) next, (a, args) =>
    .queryParam name ((ArgShape.intoValue P S a).map data.toQueryParam) :: next.items args
  | sub (.queryParams _ data name) next, (as, args) =>
    .queryParams name (as.map data.toQueryParam) :: next.items args
  | sub (.queryFlag name) next, (present, args) => .queryFlag name present :: next.items args
  | sub .queryString next, (query, args) => .queryString query :: next.items args
  | sub (.deepQuery _ data name) next, (a, args) =>
    .deepQuery name (data.toDeepQuery a) :: next.items args
  -- the other arguments are in no URL
  | sub (.header ..) next, (_, args) | sub (.reqBody ..) next, (_, args)
  | sub (.streamBody ..) next, (_, args) | sub .vault next, (_, args)
  | sub (.withResource _) next, (_, args) | sub (.basicAuth ..) next, (_, args)
  | sub (.authProtect _) next, (_, args) | sub .isSecure next, (_, args)
  | sub .httpVersion next, (_, args) | sub .remoteHost next, (_, args) => next.items args
  | sub (.host _) next, args | sub (.fragment ..) next, args | sub (.description _) next, args
  | sub (.summary _) next, args | sub (.operationId _) next, args
  | sub (.withNamedContext _) next, args => next.items args

/-- The items of a link. -/
def linkItems : (c : Chain) → c.LinkArgs → List UrlItem
  | verb _, _ => []
  | sub (.path segment) next, args => .static segment :: next.linkItems args
  | sub (.capture _ data S _) next, (a, args) =>
    .capture (((CaptureShape.intoValue S a).map data.toUrlPiece).getD "") :: next.linkItems args
  | sub (.captureAll _ data _) next, (as, args) =>
    .captureAll (as.map data.toUrlPiece) :: next.linkItems args
  | sub (.queryParam _ data P S name) next, (a, args) =>
    .queryParam name ((ArgShape.intoValue P S a).map data.toQueryParam) :: next.linkItems args
  | sub (.queryParams _ data name) next, (as, args) =>
    .queryParams name (as.map data.toQueryParam) :: next.linkItems args
  | sub (.queryFlag name) next, (present, args) => .queryFlag name present :: next.linkItems args
  | sub .queryString next, (query, args) => .queryString query :: next.linkItems args
  | sub (.deepQuery _ data name) next, (a, args) =>
    .deepQuery name (data.toDeepQuery a) :: next.linkItems args
  -- a fragment is kept apart
  | sub (.fragment ..) next, (_, args) => next.linkItems args
  | sub (.header ..) next, args | sub (.reqBody ..) next, args | sub (.streamBody ..) next, args
  | sub .vault next, args | sub (.withResource _) next, args | sub (.basicAuth ..) next, args
  | sub (.authProtect _) next, args | sub .isSecure next, args | sub .httpVersion next, args
  | sub .remoteHost next, args | sub (.host _) next, args | sub (.description _) next, args
  | sub (.summary _) next, args | sub (.operationId _) next, args
  | sub (.withNamedContext _) next, args => next.linkItems args

end Chain

/-! ### The client's walk -/

namespace Chain

variable [HttpCrate]

/-- **The client's walk.**  A request that is built shows the items of its call after what it
showed before. -/
theorem buildRequest_shows : ∀ (c : Chain) (h : c.HasClient) {args : c.Args}
    {req req' : ClientRequest} {url : UrlParts}, c.buildRequest h args req = .ok req' →
      req.Shows url → req'.Shows ((c.items args).foldl (UrlItem.addTo .plain) url)
  | verb t, _, _, req, _, _, hb, hs => by
      obtain rfl := Except.ok.inj hb
      cases t <;> exact hs.of_eq rfl rfl rfl rfl
  | sub (.path segment) next, h, _, _, _, url, hb, hs => by
      refine buildRequest_shows next h.2 hb ?_
      rw [UrlItem.addTo_static]
      exact hs.appendPath segment
  | sub (.capture _ data S _) next, h, (a, _), _, _, url, hb, hs => by
      refine buildRequest_shows next h.2 hb ?_
      rw [UrlItem.addTo_capture]
      cases CaptureShape.intoValue S a with
      | some a => exact hs.appendPath (data.toUrlPiece a)
      | none => exact hs.appendPath ""
  | sub (.captureAll _ data _) next, h, (as, _), _, _, url, hb, hs => by
      refine buildRequest_shows next h.2 hb ?_
      rw [UrlItem.addTo_captureAll]
      exact hs.foldl_appendPath data.toUrlPiece as
  | sub (.queryParam _ data P S name) next, h, (a, _), _, _, url, hb, hs => by
      refine buildRequest_shows next h.2 hb ?_
      rw [UrlItem.addTo_queryParam]
      cases ArgShape.intoValue P S a with
      | some a => exact hs.appendQuery name (some (data.toQueryParam a))
      | none =>
          rw [Option.map_none, Option.toList_none, List.map_nil, UrlParts.addParams_nil]
          exact hs
  | sub (.queryParams _ data name) next, h, (as, _), _, _, url, hb, hs => by
      refine buildRequest_shows next h.2 hb ?_
      rw [UrlItem.addTo_queryParams, List.map_map]
      exact hs.foldl_append (fun a hs => hs.appendQuery name (some (data.toQueryParam a))) as
  | sub (.queryFlag name) next, h, (present, _), _, _, url, hb, hs => by
      refine buildRequest_shows next h.2 hb ?_
      rw [UrlItem.addTo_queryFlag]
      cases present with
      | true => exact hs.appendQuery name none
      | false =>
          have hnil : url.addParams [] = url := url.addParams_nil
          exact hnil.symm ▸ hs
  | sub .queryString next, h, (query, _), _, _, url, hb, hs =>
      buildRequest_shows next h.2 hb (hs.setQueryString query)
  | sub (.deepQuery _ data name) next, h, (a, _), _, _, url, hb, hs => by
      refine buildRequest_shows next h.2 hb ?_
      rw [UrlItem.addTo_deepQuery]
      exact hs.foldl_append (fun entry hs => hs.appendDeepQuery name entry) (data.toDeepQuery a)
  -- headers and bodies show nothing of themselves in the URL
  | sub (.header _ data P S name) next, h, (a, _), _, _, _, hb, hs => by
      refine buildRequest_shows next h.2 hb ?_
      cases ArgShape.intoValue P S a with
      | some a => exact hs.addHeaderText name (data.toHeader a)
      | none => exact hs
  | sub (.host name) next, h, _, _, _, _, hb, hs => by
      obtain ⟨value, -, hb⟩ := of_bind_eq_ok hb
      exact buildRequest_shows next h.2 hb (hs.of_eq rfl rfl rfl rfl)
  | sub (.reqBody _ ctypes S) next, h, (a, _), _, _, _, hb, hs => by
      rw [buildRequest] at hb
      split at hb
      · obtain ⟨rendered, -, hb⟩ := of_bind_eq_ok hb
        exact buildRequest_shows next h.2 hb (hs.of_eq rfl rfl rfl rfl)
      · exact buildRequest_shows next h.2 hb hs
  | sub (.streamBody ..) next, h, (_, _), _, _, _, hb, hs =>
      buildRequest_shows next h.2 hb (hs.of_eq rfl rfl rfl rfl)
  | sub (.fragment ..) next, h, _, _, _, _, hb, hs
  | sub (.description _) next, h, _, _, _, _, hb, hs
  | sub (.summary _) next, h, _, _, _, _, hb, hs
  | sub (.operationId _) next, h, _, _, _, _, hb, hs => buildRequest_shows next h.2 hb hs
  | sub .vault _, h, _, _, _, _, _, _ | sub (.withResource _) _, h, _, _, _, _, _, _
  | sub (.basicAuth ..) _, h, _, _, _, _, _, _ | sub (.authProtect _) _, h, _, _, _, _, _, _
  | sub .isSecure _, h, _, _, _, _, _, _ | sub .httpVersion _, h, _, _, _, _, _, _
  | sub .remoteHost _, h, _, _, _, _, _, _ | sub (.withNamedContext _) _, h, _, _, _, _, _, _ =>
      h.1.elim

/-- The target of a request that is built is rendered from the items of its call. -/
theorem target_eq_items {c : Chain} {h : c.HasClient} {args : c.Args} {req : ClientRequest}
    (hb : c.buildRequest h args .new = .ok req) :
    req.target = (UrlParts.ofItems .plain (c.items args)).render := by
  have hs : req.Shows (.ofItems .plain (c.items args)) :=
    buildRequest_shows c h hb ClientRequest.Shows.new
  rw [ClientRequest.target_eq_render hs.paired, hs.url_eq]

end Chain

/-! ### The link's walk -/

namespace Chain

theorem url_addToLink_cons {style : ArrayElementStyle} {next : Chain} {args : next.LinkArgs}
    {link : Link} {url : UrlParts} {item : UrlItem}
    (hnext : (next.addToLink args link).url style
      = (next.linkItems args).foldl (UrlItem.addTo style) (link.url style))
    (hstep : link.url style = UrlItem.addTo style url item) :
    (next.addToLink args link).url style
      = (item :: next.linkItems args).foldl (UrlItem.addTo style) url := by
  rw [hnext, hstep, List.foldl_cons]

/-- **The link's walk.**  A link shows the items of its arguments after what it showed before. -/
theorem url_addToLink (style : ArrayElementStyle) : ∀ (c : Chain) (args : c.LinkArgs) (link : Link),
    (c.addToLink args link).url style
      = (c.linkItems args).foldl (UrlItem.addTo style) (link.url style)
  | verb _, _, _ => rfl
  | sub (.path segment) next, args, link => by
      refine url_addToLink_cons (url_addToLink style next args _) ?_
      rw [UrlItem.addTo_static, Link.url_addSegment]
  | sub (.capture _ data S _) next, (a, args), link => by
      refine url_addToLink_cons (url_addToLink style next args _) ?_
      rw [UrlItem.addTo_capture]
      cases CaptureShape.intoValue S a with
      | some a => rfl
      | none => rfl
  | sub (.captureAll _ data _) next, (as, args), link => by
      refine url_addToLink_cons (url_addToLink style next args _) ?_
      rw [UrlItem.addTo_captureAll, Link.url_foldl_addSegment]
  | sub (.queryParam _ data P S name) next, (a, args), link => by
      refine url_addToLink_cons (url_addToLink style next args _) ?_
      rw [UrlItem.addTo_queryParam]
      cases ArgShape.intoValue P S a with
      | some a => rw [Link.url_addQuery, Option.map_some, Option.toList_some, List.map_singleton]
      | none => rw [Option.map_none, Option.toList_none, List.map_nil, UrlParts.addParams_nil]
  | sub (.queryParams _ data name) next, (as, args), link => by
      refine url_addToLink_cons (url_addToLink style next args _) ?_
      rw [UrlItem.addTo_queryParams, Link.url_foldl_addQuery, List.map_map]
      rfl
  | sub (.queryFlag name) next, (present, args), link => by
      refine url_addToLink_cons (url_addToLink style next args _) ?_
      rw [UrlItem.addTo_queryFlag]
      cases present with
      | true => exact Link.url_addQuery link (.flag name)
      | false => exact ((link.url style).addParams_nil).symm
  | sub .queryString next, (query, args), link =>
      url_addToLink_cons (url_addToLink style next args _) (Link.url_setQueryString link query)
  | sub (.deepQuery _ data name) next, (a, args), link => by
      refine url_addToLink_cons (url_addToLink style next args _) ?_
      rw [UrlItem.addTo_deepQuery, Link.url_foldl_addQuery]
  | sub (.fragment ..) next, (_, args), link => url_addToLink style next args _
  | sub (.header ..) next, args, link | sub (.host _) next, args, link
  | sub (.reqBody ..) next, args, link | sub (.streamBody ..) next, args, link
  | sub (.description _) next, args, link | sub (.summary _) next, args, link
  | sub (.operationId _) next, args, link | sub .vault next, args, link
  | sub (.withResource _) next, args, link | sub (.basicAuth ..) next, args, link
  | sub (.authProtect _) next, args, link | sub .isSecure next, args, link
  | sub .httpVersion next, args, link | sub .remoteHost next, args, link
  | sub (.withNamedContext _) next, args, link => url_addToLink style next args link

theorem url_link (c : Chain) (args : c.LinkArgs) (style : ArrayElementStyle) :
    (c.link args).url style = .ofItems style (c.linkItems args) := by
  rw [link, url_addToLink]
  rfl

/-- A link is rendered from its items, then its fragment. -/
theorem renderWith_link_eq (c : Chain) (args : c.LinkArgs) (style : ArrayElementStyle) :
    (c.link args).renderWith style true = (UrlParts.ofItems style (c.linkItems args)).render
      ++ (match (c.link args).fragment with
        | some frag => "#" ++ encode frag
        | none      => "") := by
  rw [Link.renderWith_eq, ← url_link]
  rfl

end Chain

end ServantRs
