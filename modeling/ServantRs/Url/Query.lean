import ServantRs.Server.Extract
import ServantRs.Url.Agreement
import ServantRs.Url.Pairs

/-!
# Url — queries, there and back

The parameters of a chain are found again by their keys, among those of other combinators.

* `parseQuery_of_isNamed`: a server has the pairs of named parameters.
* `QueryChain.extract_sent`: a chain finds its own arguments among pairs of other keys.
* `query_round_trip`: the arguments of a chain of query parameters come back.
-/

namespace ServantRs

section

variable [PercentEncoding]

/-! ### Named parameters -/

namespace UrlItem

/-- A query parameter with a name. -/
def IsNamed : UrlItem → Prop
  | queryParam name _ | queryParams name _ | queryFlag name _ => name ≠ ""
  | _ => False

/-- The pairs a server has of a named parameter. -/
def pairs (style : ArrayElementStyle) : UrlItem → List QueryPair
  | queryParam name value   => value.toList.map fun value => (name, some value)
  | queryParams name values => values.map fun value => (arrayKey style name, some value)
  | queryFlag name present  => if present then [(name, none)] else []
  | _                       => []

variable {style : ArrayElementStyle} {item : UrlItem}

theorem IsNamed.queryPiece (h : item.IsNamed) : ∀ s ∈ item.params style, QueryPiece s := by
  intro s hs
  cases item with
  | queryParam name value =>
      obtain ⟨v, -, rfl⟩ := List.mem_map.mp hs
      exact (queryPiece_key h).value v
  | queryParams name values =>
      obtain ⟨v, -, rfl⟩ := List.mem_map.mp hs
      cases style with
      | plain => exact (queryPiece_key h).value v
      | bracket =>
          rw [renderParam_bracket]
          exact ((queryPiece_key h).append (by decide) (by decide)).value v
  | queryFlag name present =>
      cases present with
      | true =>
          obtain rfl := List.mem_singleton.mp hs
          exact queryPiece_key h
      | false => cases hs
  | _ => exact h.elim

/-- A server reads a parameter as its pairs. -/
theorem IsNamed.map_parsePair (h : item.IsNamed) :
    (item.params style).map parsePair = item.pairs style := by
  cases item with
  | queryParam name value =>
      rw [params, List.map_map]
      exact List.map_congr_left fun v _ => parsePair_single style name v
  | queryParams name values =>
      rw [params, List.map_map]
      exact List.map_congr_left fun v _ => parsePair_arrayElem style name v
  | queryFlag name present =>
      cases present with
      | true => exact congrArg (· :: []) (parsePair_key name)
      | false => rfl
  | _ => exact h.elim

theorem IsNamed.addTo (h : item.IsNamed) (url : UrlParts) :
    item.addTo style url = url.addParams (item.params style) := by
  cases item with
  | queryParam name value => exact addTo_queryParam style url name value
  | queryParams name values => exact addTo_queryParams style url name values
  | queryFlag name present => exact addTo_queryFlag style url name present
  | _ => exact h.elim

end UrlItem

/-- Named parameters are all there is in a URL of them. -/
theorem ofItems_of_isNamed {style : ArrayElementStyle} {items : List UrlItem}
    (h : ∀ item ∈ items, item.IsNamed) :
    UrlParts.ofItems style items = ⟨[], none, items.flatMap (UrlItem.params style)⟩ := by
  have hfold : ∀ (items : List UrlItem) (url : UrlParts), (∀ item ∈ items, item.IsNamed) →
      items.foldl (UrlItem.addTo style) url
        = url.addParams (items.flatMap (UrlItem.params style)) := by
    intro items
    induction items with
    | nil => exact fun url _ => url.addParams_nil.symm
    | cons item items ih =>
        intro url h
        obtain ⟨hitem, hitems⟩ := List.forall_mem_cons.mp h
        rw [List.foldl_cons, hitem.addTo, ih _ hitems, List.flatMap_cons]
        simp [UrlParts.addParams]
  exact hfold items .empty h

/-- A server has the pairs of named parameters. -/
theorem parseQuery_of_isNamed {p : String} {style : ArrayElementStyle} {items : List UrlItem}
    (hp : ∀ c ∈ p.toList, Uri.inPath c = true) (h : ∀ item ∈ items, item.IsNamed) :
    parseQuery (Uri.query (p ++ (UrlParts.ofItems style items).queryPart))
      = items.flatMap (UrlItem.pairs style) := by
  have hpieces : ∀ s ∈ items.flatMap (UrlItem.params style), QueryPiece s := by
    intro s hs
    obtain ⟨item, hitem, hs⟩ := List.mem_flatMap.mp hs
    exact (h item hitem).queryPiece s hs
  rw [ofItems_of_isNamed h, parseQuery_queryPart hp rfl hpieces, List.map_flatMap]
  exact List.flatMap_congr fun item hitem => (h item hitem).map_parsePair

end

/-! ### Looking a name up among other keys -/

/-- The keys a query parameter answers to. -/
def queryKeys (name : String) : List String := [name, name ++ "[]"]

/-- The name of a query parameter. -/
def UrlItem.name : UrlItem → Option String
  | queryParam name _ | queryParams name _ | queryFlag name _ => some name
  | _ => none

/-- The pairs of a parameter have its keys. -/
theorem UrlItem.key_mem {style : ArrayElementStyle} {item : UrlItem} {name : String}
    (h : item.name = some name) : ∀ p ∈ item.pairs style, p.1 ∈ queryKeys name := by
  intro p hp
  cases item with
  | queryParam own value =>
      obtain rfl := Option.some.inj h
      obtain ⟨v, -, rfl⟩ := List.mem_map.mp hp
      exact List.mem_cons_self
  | queryParams own values =>
      obtain rfl := Option.some.inj h
      obtain ⟨v, -, rfl⟩ := List.mem_map.mp hp
      cases style with
      | plain => exact List.mem_cons_self
      | bracket => exact List.mem_cons_of_mem _ List.mem_cons_self
  | queryFlag own present =>
      obtain rfl := Option.some.inj h
      cases present with
      | true =>
          obtain rfl := List.mem_singleton.mp hp
          exact List.mem_cons_self
      | false => cases hp
  | _ => cases h

/-- None of the pairs is for a name. -/
def Foreign (name : String) (pairs : List QueryPair) : Prop := ∀ p ∈ pairs, p.1 ∉ queryKeys name

section

variable {name : String} {before own after : List QueryPair}

theorem lookupQuery_among (hbefore : Foreign name before) (hafter : Foreign name after) :
    Chain.lookupQuery (before ++ (own ++ after)) name = Chain.lookupQuery own name := by
  have hother : ∀ {pairs : List QueryPair}, Foreign name pairs →
      pairs.find? (·.1 = name) = none := by
    intro pairs h
    rw [List.find?_eq_none]
    intro p hp hname
    exact h p hp (by simp [queryKeys, of_decide_eq_true hname])
  rw [Chain.lookupQuery, Chain.lookupQuery, List.find?_append, List.find?_append, hother hbefore,
    hother hafter, Option.none_or, Option.or_none]

theorem queryParamValues_among (hbefore : Foreign name before) (hafter : Foreign name after) :
    Chain.queryParamValues name (before ++ (own ++ after)) = Chain.queryParamValues name own := by
  have hother : ∀ {pairs : List QueryPair}, Foreign name pairs →
      Chain.queryParamValues name pairs = [] := by
    intro pairs h
    rw [Chain.queryParamValues, List.filterMap_eq_nil_iff]
    intro p hp
    exact if_neg fun hkey => h p hp (by simpa [queryKeys] using hkey)
  have happend : ∀ pairs pairs' : List QueryPair, Chain.queryParamValues name (pairs ++ pairs')
      = Chain.queryParamValues name pairs ++ Chain.queryParamValues name pairs' :=
    fun _ _ => List.filterMap_append
  rw [happend, happend, hother hbefore, hother hafter, List.nil_append, List.append_nil]

end

/-! ### Reading what was sent -/

namespace Chain

variable {A : Type} {data : HttpApiData A} {name : String} {style : ArrayElementStyle}
  {before after : List QueryPair}

theorem extractQueryParam_sent {P : Presence} {S : Strictness} {a : ArgShape.Out P S A}
    (ha : ArgShape.Sendable P S a)
    (hvalue : ∀ value, ArgShape.intoValue P S a = some value →
      data.fromQueryParam (data.toQueryParam value) = .ok value)
    (hbefore : Foreign name before) (hafter : Foreign name after) :
    extractQueryParam data P S name (before ++ (UrlItem.pairs style
      (.queryParam name ((ArgShape.intoValue P S a).map data.toQueryParam)) ++ after))
        = .route a := by
  have hlookup : (lookupQuery (UrlItem.pairs style (.queryParam name
      ((ArgShape.intoValue P S a).map data.toQueryParam))) name).join
        = (ArgShape.intoValue P S a).map data.toQueryParam := by
    cases ArgShape.intoValue P S a with
    | none => rfl
    | some value => simp [lookupQuery, UrlItem.pairs]
  have hread : ((ArgShape.intoValue P S a).map data.toQueryParam).map data.fromQueryParam
      = (ArgShape.intoValue P S a).map .ok := by
    cases h : ArgShape.intoValue P S a with
    | none => rfl
    | some value => exact congrArg some (hvalue value h)
  rw [extractQueryParam, lookupQuery_among hbefore hafter, hlookup, hread]
  simp only [ArgShape.build_intoValue ha]

theorem parseQueryParams_sent : ∀ {values : List A},
    (∀ value ∈ values, data.fromQueryParam (data.toQueryParam value) = .ok value) →
      parseQueryParams data (values.map data.toQueryParam) = .ok values
  | [], _ => rfl
  | value :: values, h => by
      obtain ⟨hvalue, hvalues⟩ := List.forall_mem_cons.mp h
      rw [List.map_cons, parseQueryParams, hvalue, parseQueryParams_sent hvalues]
      rfl

/-- Either form of an array key is read. -/
theorem queryParamValues_sent (values : List String) :
    queryParamValues name (UrlItem.pairs style (.queryParams name values)) = values := by
  have hkey : arrayKey style name = name ∨ arrayKey style name = name ++ "[]" := by
    cases style with
    | plain => exact .inl rfl
    | bracket => exact .inr rfl
  induction values with
  | nil => rfl
  | cons value values ih =>
      rw [queryParamValues, UrlItem.pairs] at ih ⊢
      simp only [List.map_cons, List.filterMap_cons, if_pos hkey, ih]

theorem extractQueryParams_sent {values : List A}
    (hvalues : ∀ value ∈ values, data.fromQueryParam (data.toQueryParam value) = .ok value)
    (hbefore : Foreign name before) (hafter : Foreign name after) :
    extractQueryParams data name (before ++ (UrlItem.pairs style
      (.queryParams name (values.map data.toQueryParam)) ++ after)) = .route values := by
  rw [extractQueryParams, queryParamValues_among hbefore hafter, queryParamValues_sent,
    parseQueryParams_sent hvalues]

theorem extractQueryFlag_sent (present : Bool) (hbefore : Foreign name before)
    (hafter : Foreign name after) :
    extractQueryFlag name (before ++ (UrlItem.pairs style (.queryFlag name present) ++ after))
      = present := by
  rw [extractQueryFlag, lookupQuery_among hbefore hafter]
  cases present with
  | true => simp [lookupQuery, UrlItem.pairs]
  | false => rfl

end Chain

/-! ### A chain's own arguments -/

section

variable [AppTypes]

/-- A chain of query parameters. -/
inductive QueryChain : Chain → Prop
  | verb (t : Terminal) : QueryChain (.verb t)
  | queryParam {A : Type} (data : HttpApiData A) (P : Presence) (S : Strictness) (name : String)
      {next : Chain} : QueryChain next → QueryChain (.sub (.queryParam A data P S name) next)
  | queryParams {A : Type} (data : HttpApiData A) (name : String) {next : Chain} :
      QueryChain next → QueryChain (.sub (.queryParams A data name) next)
  | queryFlag (name : String) {next : Chain} :
      QueryChain next → QueryChain (.sub (.queryFlag name) next)

namespace Chain

/-- The names of the query parameters. -/
def queryNames : Chain → List String
  | verb _ => []
  | sub (.queryParam _ _ _ _ name) next => name :: next.queryNames
  | sub (.queryParams _ _ name) next => name :: next.queryNames
  | sub (.queryFlag name) next => name :: next.queryNames
  | sub _ next => next.queryNames

/-- The arguments hold no parse failure, and their values are read as they are written. -/
def Sendable : (c : Chain) → c.Args → Prop
  | sub (.queryParam _ data P S _) next, (a, args) =>
    ArgShape.Sendable P S a ∧
      (∀ value, ArgShape.intoValue P S a = some value →
        data.fromQueryParam (data.toQueryParam value) = .ok value) ∧ next.Sendable args
  | sub (.queryParams _ data _) next, (as, args) =>
    (∀ value ∈ as, data.fromQueryParam (data.toQueryParam value) = .ok value) ∧ next.Sendable args
  | sub (.queryFlag _) next, (_, args) => next.Sendable args
  | _, _ => True

end Chain

namespace QueryChain

open RouteM Chain

variable {c : Chain} {style : ArrayElementStyle}

theorem hasClient (h : QueryChain c) : c.HasClient := by
  induction h with
  | verb t => exact trivial
  | queryParam data P S name h ih | queryParams data name h ih | queryFlag name h ih =>
      exact ⟨trivial, ih⟩

/-- The items of a chain of query parameters have its names. -/
theorem name_of_mem (h : QueryChain c) : ∀ {args : c.Args}, ∀ item ∈ c.items args,
    ∃ name ∈ c.queryNames, item.name = some name := by
  induction h with
  | verb t =>
      intro args item hitem
      cases hitem
  | queryParam data P S name h ih | queryParams data name h ih | queryFlag name h ih =>
      rintro ⟨a, args⟩ item hitem
      rcases List.mem_cons.mp hitem with rfl | hitem
      · exact ⟨name, List.mem_cons_self, rfl⟩
      · obtain ⟨name', hname', hitem⟩ := ih item hitem
        exact ⟨name', List.mem_cons_of_mem _ hname', hitem⟩

theorem isNamed_of_mem (h : QueryChain c) (hnames : ∀ name ∈ c.queryNames, name ≠ "")
    (args : c.Args) : ∀ item ∈ c.items args, item.IsNamed := by
  intro item hitem
  obtain ⟨name, hname, hitem⟩ := h.name_of_mem item hitem
  have hne := hnames name hname
  cases item with
  | queryParam own value | queryParams own values | queryFlag own present =>
      obtain rfl := Option.some.inj hitem
      exact hne
  | _ => cases hitem

/-- What the rest of a chain sends is for other names. -/
theorem foreign (h : QueryChain c) (args : c.Args) {name : String}
    (hkeys : ∀ other ∈ c.queryNames, (queryKeys name).Disjoint (queryKeys other)) :
    Foreign name ((c.items args).flatMap (UrlItem.pairs style)) := by
  intro p hp hkey
  obtain ⟨item, hitem, hp⟩ := List.mem_flatMap.mp hp
  obtain ⟨other, hother, hname⟩ := h.name_of_mem item hitem
  exact hkeys other hother hkey (UrlItem.key_mem hname p hp)

omit [AppTypes] in
/-- One more parameter's pairs are for none of the names below it. -/
theorem foreign_append {names : List String} {before : List QueryPair} {item : UrlItem}
    {name : String} (hbefore : ∀ other ∈ names, Foreign other before)
    (hitem : item.name = some name)
    (hkeys : ∀ other ∈ names, (queryKeys name).Disjoint (queryKeys other)) :
    ∀ other ∈ names, Foreign other (before ++ item.pairs style) := by
  intro other hother p hp hkey
  rcases List.mem_append.mp hp with hp | hp
  · exact hbefore other hother p hp hkey
  · exact hkeys other hother (UrlItem.key_mem hitem p hp) hkey

variable [HttpCrate] [MimeCrate] [Base64Crate]

/-- **A chain finds its own arguments.**  Among pairs for other names, the pairs that a chain of
query parameters sends are extracted as the arguments they were sent for. -/
theorem extract_sent (h : QueryChain c) : ∀ {args : c.Args} (before : List QueryPair)
    {req : RequestData} {st : ExtractState},
    c.queryNames.Pairwise (fun name other => (queryKeys name).Disjoint (queryKeys other)) →
      (∀ name ∈ c.queryNames, Foreign name before) → c.Sendable args →
      req.query = before ++ (c.items args).flatMap (UrlItem.pairs style) →
        c.extract req st = (.route args, st) := by
  -- `before` gathers the pairs of the parameters above
  induction h with
  | verb t =>
      intro args before req st _ _ _ _
      rfl
  | @queryParam A data P S name next h ih =>
      rintro ⟨a, args⟩ before req st hdisjoint hbefore ⟨ha, hvalue, hargs⟩ hquery
      obtain ⟨hkeys, hnext⟩ := List.pairwise_cons.mp hdisjoint
      obtain ⟨hname, hothers⟩ := List.forall_mem_cons.mp hbefore
      have hrest : Foreign name ((next.items args).flatMap (UrlItem.pairs style)) :=
        h.foreign args hkeys
      have hself : extractQueryParam data P S name req.query = .route a := by
        rw [hquery]
        exact extractQueryParam_sent ha hvalue hname hrest
      have htail : next.extract req st = (.route args, st) :=
        ih _ hnext (foreign_append hothers rfl hkeys) hargs
          (hquery.trans (List.append_assoc ..).symm)
      show (ofResult (extractQueryParam data P S name req.query) >>= fun out =>
        consTail out (next.extract req)) st = _
      rw [hself]
      exact consTail_route htail
  | @queryParams A data name next h ih =>
      rintro ⟨values, args⟩ before req st hdisjoint hbefore ⟨hvalues, hargs⟩ hquery
      obtain ⟨hkeys, hnext⟩ := List.pairwise_cons.mp hdisjoint
      obtain ⟨hname, hothers⟩ := List.forall_mem_cons.mp hbefore
      have hrest : Foreign name ((next.items args).flatMap (UrlItem.pairs style)) :=
        h.foreign args hkeys
      have hself : extractQueryParams data name req.query = .route values := by
        rw [hquery]
        exact extractQueryParams_sent hvalues hname hrest
      have htail : next.extract req st = (.route args, st) :=
        ih _ hnext (foreign_append hothers rfl hkeys) hargs
          (hquery.trans (List.append_assoc ..).symm)
      show (ofResult (extractQueryParams data name req.query) >>= fun out =>
        consTail out (next.extract req)) st = _
      rw [hself]
      exact consTail_route htail
  | @queryFlag name next h ih =>
      rintro ⟨present, args⟩ before req st hdisjoint hbefore hargs hquery
      obtain ⟨hkeys, hnext⟩ := List.pairwise_cons.mp hdisjoint
      obtain ⟨hname, hothers⟩ := List.forall_mem_cons.mp hbefore
      have hrest : Foreign name ((next.items args).flatMap (UrlItem.pairs style)) :=
        h.foreign args hkeys
      have hself : extractQueryFlag name req.query = present := by
        rw [hquery]
        exact extractQueryFlag_sent present hname hrest
      have htail : next.extract req st = (.route args, st) :=
        ih _ hnext (foreign_append hothers rfl hkeys) hargs
          (hquery.trans (List.append_assoc ..).symm)
      show consTail (extractQueryFlag name req.query) (next.extract req) st = _
      rw [hself]
      exact consTail_route htail

end QueryChain

end

/-! ### The round trip -/

section

variable [AppTypes] [PercentEncoding]

namespace QueryChain

open Chain

variable {c : Chain}

/-- No query parameter sets the fragment. -/
theorem fragment_addToLink (h : QueryChain c) : ∀ (args : c.LinkArgs) (link : Link),
    (c.addToLink args link).fragment = link.fragment := by
  have hfold : ∀ {A : Type} (param : A → Param) (values : List A) (link : Link),
      (values.foldl (fun link value => link.addQuery (param value)) link).fragment
        = link.fragment := by
    intro A param values
    induction values with
    | nil => exact fun _ => rfl
    | cons value values ih => exact fun link => ih (link.addQuery (param value))
  induction h with
  | verb t => exact fun _ _ => rfl
  | @queryParam A data P S name next h ih =>
      rintro ⟨a, args⟩ link
      refine (ih args _).trans ?_
      cases ArgShape.intoValue P S a with
      | none => rfl
      | some value => rfl
  | queryParams data name h ih =>
      rintro ⟨values, args⟩ link
      exact (ih args _).trans (hfold _ values link)
  | queryFlag name h ih =>
      rintro ⟨present, args⟩ link
      refine (ih args _).trans ?_
      cases present with
      | true => rfl
      | false => rfl

variable [HttpCrate]

/-- A request for query parameters can be built. -/
theorem buildRequest_ok (h : QueryChain c) : ∀ (args : c.Args) (req : ClientRequest),
    ∃ req', c.buildRequest h.hasClient args req = .ok req' := by
  induction h with
  | verb t => exact fun _ _ => ⟨_, rfl⟩
  | queryParam data P S name h ih | queryParams data name h ih | queryFlag name h ih =>
      rintro ⟨a, args⟩ req
      exact ih args _

end QueryChain

variable [HttpCrate] [MimeCrate] [Base64Crate]

/-- **Query round trip.**  A chain of query parameters with names that are not empty and share no
key: its arguments are extracted from the query of the client's target, and from the query of the
link in either style of array elements. -/
theorem query_round_trip {c : Chain} (hc : QueryChain c)
    (hnames : ∀ name ∈ c.queryNames, name ≠ "")
    (hkeys : c.queryNames.Pairwise fun name other =>
      (queryKeys name).Disjoint (queryKeys other))
    (args : c.Args) (hargs : c.Sendable args) (req : RequestData) (st : ExtractState) :
    (∃ creq, c.buildRequest hc.hasClient args .new = .ok creq ∧
      c.extract { req with query := parseQuery (Uri.query creq.target) } st
        = (.route args, st)) ∧
    ∀ (largs : c.LinkArgs) (style : ArrayElementStyle) (leadingSlash : Bool),
      c.Corresponds args largs →
        c.extract { req with
            query := parseQuery (Uri.query ((c.link largs).renderWith style leadingSlash)) } st
          = (.route args, st) := by
  have hnamed := hc.isNamed_of_mem hnames args
  have hextract : ∀ (style : ArrayElementStyle) {query : List QueryPair},
      query = (c.items args).flatMap (UrlItem.pairs style) →
        c.extract { req with query := query } st = (.route args, st) := by
    rintro style query rfl
    exact hc.extract_sent [] hkeys (fun _ _ => nofun) hargs rfl
  refine ⟨?_, fun largs style leadingSlash hcorresponds => ?_⟩
  · obtain ⟨creq, hb⟩ := hc.buildRequest_ok args .new
    refine ⟨creq, hb, hextract .plain ?_⟩
    rw [Chain.target_eq_items hb, UrlParts.render]
    refine parseQuery_of_isNamed (fun d hd => ?_) hnamed
    rw [ofItems_of_isNamed hnamed] at hd
    exact inPath_of_mem [] hd
  · have hurl : (c.link largs).url style = .ofItems style (c.items args) := by
      rw [Chain.items_eq c hcorresponds]
      exact Chain.url_link c largs style
    have hsegments : (c.link largs).segments = [] := by
      have h := congrArg UrlParts.segments hurl
      rwa [ofItems_of_isNamed hnamed] at h
    have hfragment : (c.link largs).fragment = none := hc.fragment_addToLink largs .new
    refine hextract style ?_
    rw [Link.renderWith_eq, hfragment, hurl, hsegments, String.append_empty]
    refine parseQuery_of_isNamed (fun d hd => ?_) hnamed
    cases leadingSlash with
    | true => exact inPath_of_mem [] hd
    | false => simp at hd

end

/-! ### A filter -/

section

attribute [local instance] PercentEncoding.reference AppTypes.reference HttpCrate.reference
  MimeCrate.reference Base64Crate.reference

def filterChain : Chain :=
  .sub (.queryParam String .string .required .strict "q")
    (.sub (.queryParam String .string .optional .lenient "page")
      (.sub (.queryParams String .string "tag") (.sub (.queryFlag "all")
        (.verb (.noContentVerb .GET)))))

theorem filterChain_queryChain : QueryChain filterChain :=
  .queryParam .string .required .strict "q" (.queryParam .string .optional .lenient "page"
    (.queryParams .string "tag" (.queryFlag "all" (.verb _))))

def filterArgs : filterChain.Args := ("a&b=c +", some (.ok ""), ["x", "[]"], true, ())

/-- Separators in the values. -/
theorem query_round_trip_filter :
    ∃ creq, filterChain.buildRequest filterChain_queryChain.hasClient filterArgs .new = .ok creq ∧
      filterChain.extract { RequestData.ofMethod .GET () with
          query := parseQuery (Uri.query creq.target) } (.new [] none .new (.new [] 0))
        = (.route filterArgs, .new [] none .new (.new [] 0)) := by
  have hargs : filterChain.Sendable filterArgs :=
    ⟨trivial, fun _ _ => rfl, nofun, fun _ _ => rfl, fun _ _ => rfl, trivial⟩
  have hkeys : filterChain.queryNames.Pairwise fun name other =>
      (queryKeys name).Disjoint (queryKeys other) := by
    simp [filterChain, Chain.queryNames, queryKeys]
  exact (query_round_trip filterChain_queryChain (by decide) hkeys filterArgs hargs
    (.ofMethod .GET ()) (.new [] none .new (.new [] 0))).1

end

end ServantRs
