import ServantRs.Server.Result
import ServantRs.Support.SortedMap
import Mathlib.Data.String.Basic

/-!
# Server — the routing tree

A router is a tree: a map from the next path segment with leaves for the empty path, a node that
captures one segment, one that captures all that are left, a raw leaf that owns the rest of the
path, and a choice.  `RouterTree.dispatch` walks it for a list of segments and calls leaves;
`RouterTree.choice` joins two trees, merging static maps and capture nodes where it can.

The static maps are ordered maps, so their keys ascend (`RouterTree.Sorted`); a `Router` is a tree
in which they do.  The leaves are of any type, and a leaf is called in a computation over any
state.
-/

namespace ServantRs

/-- What a capture node is called: the capture's name and type, for documentation. -/
structure CaptureHint where
  name : String
  typeName : String
deriving DecidableEq, Repr

inductive RouterTree (L : Type*) where
  /-- The next segment's sub-routers, and the leaves for the empty path, tried in order. -/
  | static (map : List (String × RouterTree L)) (leaves : List L)
  /-- One segment is captured. -/
  | capture (hints : List CaptureHint) (inner : RouterTree L)
  /-- All segments left are captured. -/
  | captureAll (hints : List CaptureHint) (inner : RouterTree L)
  /-- The leaf owns the rest of the path. -/
  | raw (leaf : L)
  /-- The left one, then the right one. -/
  | choice (a b : RouterTree L)

/-- How a leaf is called: for a request, with the unmatched tail, the captured segments and the
segments captured at once. -/
abbrev LeafCall (L Q σ : Type*) (R : Type) :=
  L → Q → List String → List String → Option (List String) → RouteM σ R

def isEmptyPath (segments : List String) : Bool := segments = [] || segments = [""]

def rawTail (segments : List String) : List String := if isEmptyPath segments then [] else segments

/-- The segments a `CaptureAll` takes: a leading empty one, left by a trailing slash, is
dropped. -/
def dropLeadingEmpty : List String → List String
  | "" :: segs => segs
  | segs       => segs

/-- The hints of the second list that the first has not, added to it. -/
def mergeHints (h₁ h₂ : List CaptureHint) : List CaptureHint :=
  h₂.foldl (fun h₁ h => if h ∈ h₁ then h₁ else h₁ ++ [h]) h₁

namespace RouterTree

variable {L Q σ : Type*} {R : Type}

/-- A leaf for the empty path. -/
def leaf (l : L) : RouterTree L := .static [] [l]

/-- A sub-router under one segment. -/
def path (segment : String) (inner : RouterTree L) : RouterTree L := .static [(segment, inner)] []

/-! ### Joining two routers -/

mutual

/-- Two routers as one, the left first. -/
def smartChoice (a : RouterTree L) : RouterTree L → RouterTree L
  | .static t₂ l₂ =>
    match a with
    | .static t₁ l₁ => .static (mergeMap t₁ t₂) (l₁ ++ l₂)
    | a             => .choice a (.static t₂ l₂)
  | .capture h₂ r₂ =>
    match a with
    | .capture h₁ r₁ => .capture (mergeHints h₁ h₂) (smartChoice r₁ r₂)
    | a              => .choice a (.capture h₂ r₂)
  | .choice r₂ r₃ => .choice (smartChoice a r₂) r₃
  | .captureAll h r => .choice a (.captureAll h r)
  | .raw l => .choice a (.raw l)

/-- The entries of the second map put into the first. -/
def mergeMap (t₁ : List (String × RouterTree L)) :
    List (String × RouterTree L) → List (String × RouterTree L)
  | [] => t₁
  | (k, r₂) :: t₂ =>
    match SortedMap.get k t₁ with
    | some r₁ => mergeMap (SortedMap.insert k (smartChoice r₁ r₂) (SortedMap.remove k t₁)) t₂
    | none    => mergeMap (SortedMap.insert k r₂ t₁) t₂

end

theorem mergeMap_eq (t₁ t₂ : List (String × RouterTree L)) :
    mergeMap t₁ t₂ = SortedMap.mergeWith smartChoice t₁ t₂ := by
  induction t₂ generalizing t₁ with
  | nil => rw [mergeMap, SortedMap.mergeWith]
  | cons p t₂ ih =>
      cases hg : SortedMap.get p.1 t₁ <;> simp only [mergeMap, SortedMap.mergeWith, hg, ih]

/-! ### Interpreting a router -/

section Dispatch

variable (call : LeafCall L Q σ R) (req : Q)

/-- The leaves one after another until one answers or commits; `best` is the best error so
far. -/
def runChoiceLeaves (captures : List String) (capturedAll : Option (List String))
    (best : Option ServerError) : List L → RouteM σ R
  | [] => RouteM.fail (best.getD notFound)
  | leaf :: leaves => fun s =>
    match call leaf req [] captures capturedAll s with
    | (.fail e, s') => runChoiceLeaves captures capturedAll (some (combineFail best e)) leaves s'
    | r             => r

mutual

def dispatch : RouterTree L → List String → List String → Option (List String) → RouteM σ R
  | .static map leaves, segments, captures, capturedAll =>
    match segments with
    | [] => runChoiceLeaves call req captures capturedAll none leaves
    | first :: rest =>
      if isEmptyPath (first :: rest) then runChoiceLeaves call req captures capturedAll none leaves
      else dispatchAt map first rest captures capturedAll
  | .capture _ inner, segments, captures, capturedAll =>
    match segments with
    | [] => RouteM.fail notFound
    | first :: rest =>
      if isEmptyPath (first :: rest) then RouteM.fail notFound
      else dispatch inner rest (captures ++ [first]) capturedAll
  | .captureAll _ inner, segments, captures, _ =>
    dispatch inner [] captures (some (dropLeadingEmpty segments))
  | .raw leaf, segments, captures, capturedAll =>
    call leaf req (rawTail segments) captures capturedAll
  | .choice a b, segments, captures, capturedAll =>
    (dispatch a segments captures capturedAll).orElse (dispatch b segments captures capturedAll)

/-- The sub-router at `first`, for the segments after it. -/
def dispatchAt : List (String × RouterTree L) → String → List String → List String →
    Option (List String) → RouteM σ R
  | [], _, _, _, _ => RouteM.fail notFound
  | (k, inner) :: map, first, rest, captures, capturedAll =>
    if first = k then dispatch inner rest captures capturedAll
    else dispatchAt map first rest captures capturedAll

end

theorem dispatchAt_eq (first : String) (rest captures : List String)
    (capturedAll : Option (List String)) : ∀ map : List (String × RouterTree L),
    dispatchAt call req map first rest captures capturedAll =
      match SortedMap.get first map with
      | some inner => dispatch call req inner rest captures capturedAll
      | none       => RouteM.fail notFound
  | [] => by rw [dispatchAt, SortedMap.get]
  | (k, inner) :: map => by
      rw [dispatchAt, SortedMap.get]
      by_cases h : first = k
      · rw [if_pos h, if_pos h]
      · rw [if_neg h, if_neg h, dispatchAt_eq first rest captures capturedAll map]

end Dispatch

/-! ### Ordered maps -/

mutual

/-- The keys of every static map ascend. -/
def Sorted : RouterTree L → Prop
  | .static map _       => SortedMap.Sorted map ∧ SortedAll map
  | .capture _ inner    => inner.Sorted
  | .captureAll _ inner => inner.Sorted
  | .raw _              => True
  | .choice a b         => a.Sorted ∧ b.Sorted

/-- Every sub-router of a map is `Sorted`. -/
def SortedAll : List (String × RouterTree L) → Prop
  | []              => True
  | (_, inner) :: m => inner.Sorted ∧ SortedAll m

end

theorem sortedAll_iff : ∀ (m : List (String × RouterTree L)),
    SortedAll m ↔ ∀ p ∈ m, p.2.Sorted
  | [] => by simp [SortedAll]
  | (k, inner) :: m => by simp [SortedAll, sortedAll_iff m]

theorem SortedAll.get {m : List (String × RouterTree L)} {k : String} {r : RouterTree L}
    (h : SortedAll m) (hg : SortedMap.get k m = some r) : r.Sorted :=
  (sortedAll_iff m).mp h _ (SortedMap.mem_of_get hg)

theorem SortedAll.insert {m : List (String × RouterTree L)} (h : SortedAll m) {r : RouterTree L}
    (hr : r.Sorted) (k : String) : SortedAll (SortedMap.insert k r m) := by
  refine (sortedAll_iff _).mpr fun p hp => ?_
  rcases SortedMap.mem_insert hp with rfl | hp
  · exact hr
  · exact (sortedAll_iff m).mp h p hp

theorem SortedAll.remove {m : List (String × RouterTree L)} (h : SortedAll m) (k : String) :
    SortedAll (SortedMap.remove k m) :=
  (sortedAll_iff _).mpr fun p hp => (sortedAll_iff m).mp h p (SortedMap.mem_remove hp)

mutual

/-- Joining keeps the maps in order. -/
theorem Sorted.smartChoice {a : RouterTree L} (ha : a.Sorted) :
    ∀ {b : RouterTree L}, b.Sorted → (RouterTree.smartChoice a b).Sorted
  | .static t₂ l₂, hb => by
      cases a with
      | static t₁ l₁ =>
          rw [RouterTree.smartChoice, Sorted, mergeMap_eq]
          exact ⟨ha.1.mergeWith t₂, mergeMap_eq t₁ t₂ ▸ SortedAll.mergeMap ha.2 hb.2⟩
      | capture | captureAll | raw | choice => exact ⟨ha, hb⟩
  | .capture h₂ r₂, hb => by
      cases a with
      | capture h₁ r₁ =>
          rw [RouterTree.smartChoice, Sorted]
          have hinner : r₁.Sorted := ha
          exact Sorted.smartChoice hinner hb
      | static | captureAll | raw | choice => exact ⟨ha, hb⟩
  | .choice r₂ r₃, hb => by
      rw [RouterTree.smartChoice, Sorted]
      exact ⟨Sorted.smartChoice ha hb.1, hb.2⟩
  | .captureAll h r, hb => by
      rw [RouterTree.smartChoice, Sorted]
      exact ⟨ha, hb⟩
  | .raw l, hb => by
      rw [RouterTree.smartChoice, Sorted]
      exact ⟨ha, hb⟩

theorem SortedAll.mergeMap {t₁ : List (String × RouterTree L)} (h₁ : SortedAll t₁) :
    ∀ {t₂ : List (String × RouterTree L)}, SortedAll t₂ → SortedAll (RouterTree.mergeMap t₁ t₂)
  | [], _ => by rw [RouterTree.mergeMap]; exact h₁
  | (k, r₂) :: t₂, h₂ => by
      rw [RouterTree.mergeMap]
      split
      · rename_i r₁ hg
        exact SortedAll.mergeMap ((h₁.remove k).insert (Sorted.smartChoice (h₁.get hg) h₂.1) k) h₂.2
      · exact SortedAll.mergeMap (h₁.insert h₂.1 k) h₂.2

end

end RouterTree

/-- A routing tree whose static maps are ordered maps. -/
structure Router (L : Type*) where
  tree : RouterTree L
  sorted : tree.Sorted

namespace Router

variable {L : Type*}

def leaf (l : L) : Router L := ⟨.leaf l, .nil, trivial⟩

def path (segment : String) (inner : Router L) : Router L :=
  ⟨.path segment inner.tree, List.pairwise_singleton _ _, inner.sorted, trivial⟩

def capture (hints : List CaptureHint) (inner : Router L) : Router L :=
  ⟨.capture hints inner.tree, inner.sorted⟩

def captureAll (hints : List CaptureHint) (inner : Router L) : Router L :=
  ⟨.captureAll hints inner.tree, inner.sorted⟩

def raw (l : L) : Router L := ⟨.raw l, trivial⟩

/-- The plain choice node. -/
def Choice (a b : Router L) : Router L := ⟨.choice a.tree b.tree, a.sorted, b.sorted⟩

end Router

/-- `choice`: two routers as one, static maps and captures merged. -/
def choice {L : Type*} (a b : Router L) : Router L :=
  ⟨a.tree.smartChoice b.tree, a.sorted.smartChoice b.sorted⟩

/-- Interpret a router for a request. -/
def dispatch {L Q σ : Type*} {R : Type} (call : LeafCall L Q σ R) (router : Router L)
    (segments captures : List String) (capturedAll : Option (List String)) (req : Q) : RouteM σ R :=
  router.tree.dispatch call req segments captures capturedAll

end ServantRs
