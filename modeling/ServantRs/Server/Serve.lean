import ServantRs.Server.Handler

/-!
# Server — from an API to its router

An API is a tree of alternatives over endpoints, each with its handler.  A typed endpoint's shape
puts its leaf under the path-bearing combinators; a raw endpoint's leaf sits under its segments,
behind a guard for each `Host` above it; alternatives are joined by `choice`.
-/

namespace ServantRs

variable [AppTypes]

namespace RawChain

/-- The handler a raw endpoint takes. -/
def Handler : RawChain → Type _
  | raw        => RawRequest → Response
  | rawM       => RawRequest → Context → Except ServerError Response
  | sub _ next => next.Handler

end RawChain

/-- An API with its handlers. -/
inductive Api where
  | endpoint (label : Nat) (chain : Chain)
      (handler : chain.Args → Except ServerError chain.Output)
  | raw (label : Nat) (chain : RawChain) (handler : chain.Handler)
  | alt (left right : Api)

/-- `leaf` in the path structure of an endpoint. -/
def Chain.shape : Chain → Leaf → Router Leaf
  | verb _, leaf => Router.leaf leaf
  | sub (.path segment) next, leaf => Router.path segment (next.shape leaf)
  | sub (.capture _ data _ name) next, leaf =>
    Router.capture [⟨name, data.typeName⟩] (next.shape leaf)
  | sub (.captureAll _ data name) next, leaf =>
    Router.captureAll [⟨name, "alloc::vec::Vec<" ++ data.typeName ++ ">"⟩] (next.shape leaf)
  | sub _ next, leaf => next.shape leaf

namespace RouterTree

mutual

/-- Every leaf behind a guard. -/
def guardRawRouter (g : HostGuard) : RouterTree Leaf → RouterTree Leaf
  | .static map leaves      => .static (guardRawMap g map) (leaves.map (Leaf.guard g))
  | .capture hints inner    => .capture hints (guardRawRouter g inner)
  | .captureAll hints inner => .captureAll hints (guardRawRouter g inner)
  | .raw leaf               => .raw (.guard g leaf)
  | .choice left right      => .choice (guardRawRouter g left) (guardRawRouter g right)

def guardRawMap (g : HostGuard) : List (String × RouterTree Leaf) → List (String × RouterTree Leaf)
  | []                      => []
  | (segment, inner) :: map => (segment, guardRawRouter g inner) :: guardRawMap g map

end

theorem guardRawMap_eq (g : HostGuard) : ∀ map : List (String × RouterTree Leaf),
    guardRawMap g map = map.map fun p => (p.1, guardRawRouter g p.2)
  | [] => rfl
  | (segment, inner) :: map => by rw [guardRawMap, guardRawMap_eq g map]; rfl

mutual

theorem Sorted.guardRawRouter (g : HostGuard) :
    ∀ r : RouterTree Leaf, r.Sorted → (RouterTree.guardRawRouter g r).Sorted
  | .static map leaves, h => by
      rw [RouterTree.guardRawRouter, Sorted]
      refine ⟨?_, SortedAll.guardRawMap g h.2⟩
      rw [guardRawMap_eq, SortedMap.Sorted, List.pairwise_map]
      exact h.1
  | .capture hints inner, h => by
      rw [RouterTree.guardRawRouter, Sorted]
      exact Sorted.guardRawRouter g inner h
  | .captureAll hints inner, h => by
      rw [RouterTree.guardRawRouter, Sorted]
      exact Sorted.guardRawRouter g inner h
  | .raw leaf, _ => trivial
  | .choice left right, h => by
      rw [RouterTree.guardRawRouter, Sorted]
      exact ⟨Sorted.guardRawRouter g left h.1, Sorted.guardRawRouter g right h.2⟩

theorem SortedAll.guardRawMap (g : HostGuard) :
    ∀ {map : List (String × RouterTree Leaf)}, SortedAll map →
      SortedAll (RouterTree.guardRawMap g map)
  | [], _ => trivial
  | (segment, inner) :: map, h => by
      rw [RouterTree.guardRawMap, SortedAll]
      exact ⟨Sorted.guardRawRouter g inner h.1, SortedAll.guardRawMap g h.2⟩

end

end RouterTree

def guardRawRouter (g : HostGuard) (router : Router Leaf) : Router Leaf :=
  ⟨router.tree.guardRawRouter g, RouterTree.Sorted.guardRawRouter g router.tree router.sorted⟩

section

variable [HttpCrate]

def RawChain.intoRawRouter (label : Nat) (context : Context) :
    (c : RawChain) → c.Handler → Router Leaf
  | raw, handler => Router.raw (.raw label handler)
  | rawM, handler => Router.raw (.rawM label handler context)
  | sub (.path segment) next, handler =>
    Router.path segment (next.intoRawRouter label context handler)
  | sub (.host name) next, handler =>
    guardRawRouter (.fromName name) (next.intoRawRouter label context handler)
  | sub (.fragment ..) next, handler | sub (.description _) next, handler
  | sub (.summary _) next, handler | sub (.operationId _) next, handler =>
    next.intoRawRouter label context handler

def Api.intoRouter (context : Context) : Api → Router Leaf
  | endpoint label chain handler => chain.shape (.endpoint label chain handler context)
  | raw label chain handler      => chain.intoRawRouter label context handler
  | alt left right               => choice (left.intoRouter context) (right.intoRouter context)

/-- The router of an API, given the server context. -/
def serveWithContext (api : Api) (context : Context) : Router Leaf := api.intoRouter context

/-- The router of an API. -/
def serve (api : Api) : Router Leaf := serveWithContext api Context.new

end

end ServantRs
