import ServantRs.Routing.Choice
import ServantRs.Server.Serve

/-!
# Routing — path patterns

What an endpoint says of the path, apart from any router: a list of parts (`Chain.parts`,
`RawChain.parts`), and `PathPattern.match?`, which finds them in a list of segments.

`dispatch_shape`, `dispatch_intoRawRouter`: the router built for one endpoint calls its leaf with
what its pattern finds, and is not found when the pattern does not match.  A request has one slot
for captured tails, so of several `CaptureAll`s in a chain the last one's segments are kept
(`lastOnly`).
-/

namespace ServantRs

/-- A part of a path pattern. -/
inductive PathPart where
  | static (segment : String)
  | capture
  | captureAll
deriving DecidableEq, Repr

/-- The parts of a pattern, and whether it is open at its end. -/
structure PathPattern where
  parts : List PathPart
  raw : Bool
deriving DecidableEq, Repr

/-- What a pattern finds. -/
structure Matched where
  tail : List String
  captures : List String
  capturedAll : Option (List String)
deriving DecidableEq, Repr

/-- What the slot of captured tails holds for a `CaptureAll` that takes the first argument, when
what is below it has filled the slot with the second. -/
abbrev SlotMerge := List String → Option (List String) → List String

/-- Every segment captured, in order. -/
def allInOrder : SlotMerge := fun own inner => own ++ inner.getD []

/-- What the innermost `CaptureAll` takes. -/
def lastOnly : SlotMerge := fun own inner => inner.getD own

namespace Matched

/-- A segment captured before the rest. -/
def consCapture (first : String) (m : Matched) : Matched := { m with captures := first :: m.captures }

def withCapturedAll (merge : SlotMerge) (own : List String) (m : Matched) : Matched :=
  { m with capturedAll := some (merge own m.capturedAll) }

end Matched

/-- The parts found in the segments, in order.  A pattern ends at the end of the path, or, when it
is open, anywhere. -/
def matchParts (merge : SlotMerge) (raw : Bool) : List PathPart → List String → Option Matched
  | [], segments =>
    if raw then some ⟨rawTail segments, [], none⟩
    else if isEmptyPath segments then some ⟨[], [], none⟩ else none
  | .static segment :: parts, segments =>
    match segments with
    | [] => none
    | first :: rest =>
      if isEmptyPath (first :: rest) then none
      else if first = segment then matchParts merge raw parts rest else none
  | .capture :: parts, segments =>
    match segments with
    | [] => none
    | first :: rest =>
      if isEmptyPath (first :: rest) then none
      else (matchParts merge raw parts rest).map (·.consCapture first)
  | .captureAll :: parts, segments =>
    (matchParts merge raw parts []).map (·.withCapturedAll merge (dropLeadingEmpty segments))

namespace PathPattern

def match? (merge : SlotMerge) (pattern : PathPattern) (segments : List String) : Option Matched :=
  matchParts merge pattern.raw pattern.parts segments

end PathPattern

/-! ### A pattern on a path -/

section Match

variable {merge : SlotMerge} {raw : Bool}

theorem matchParts_static_empty {segments : List String} (h : isEmptyPath segments = true)
    (segment : String) (parts : List PathPart) :
    matchParts merge raw (.static segment :: parts) segments = none := by
  cases segments with
  | nil => rfl
  | cons first rest => exact if_pos h

theorem matchParts_static_cons {first : String} {rest : List String}
    (h : isEmptyPath (first :: rest) = false) (segment : String) (parts : List PathPart) :
    matchParts merge raw (.static segment :: parts) (first :: rest)
      = if first = segment then matchParts merge raw parts rest else none :=
  if_neg (by simp [h])

theorem matchParts_capture_empty {segments : List String} (h : isEmptyPath segments = true)
    (parts : List PathPart) : matchParts merge raw (.capture :: parts) segments = none := by
  cases segments with
  | nil => rfl
  | cons first rest => exact if_pos h

theorem matchParts_capture_cons {first : String} {rest : List String}
    (h : isEmptyPath (first :: rest) = false) (parts : List PathPart) :
    matchParts merge raw (.capture :: parts) (first :: rest)
      = (matchParts merge raw parts rest).map (·.consCapture first) :=
  if_neg (by simp [h])

theorem matchParts_captureAll (parts : List PathPart) (segments : List String) :
    matchParts merge raw (.captureAll :: parts) segments
      = (matchParts merge raw parts []).map
          (·.withCapturedAll merge (dropLeadingEmpty segments)) := rfl

end Match

/-! ### The patterns of endpoints -/

section Patterns

variable [AppTypes]

def Chain.parts : Chain → List PathPart
  | verb _ => []
  | sub (.path segment) next  => .static segment :: next.parts
  | sub (.capture ..) next    => .capture :: next.parts
  | sub (.captureAll ..) next => .captureAll :: next.parts
  | sub _ next                => next.parts

def Chain.pattern (c : Chain) : PathPattern := ⟨c.parts, false⟩

def RawChain.parts : RawChain → List PathPart
  | raw | rawM => []
  | sub (.path segment) next => .static segment :: next.parts
  | sub _ next               => next.parts

def RawChain.pattern (c : RawChain) : PathPattern := ⟨c.parts, true⟩

variable [HttpCrate]

/-- The leaf of a raw endpoint: its handler behind the guards of its hosts, the outermost first. -/
def RawChain.leaf (label : Nat) (context : Context) : (c : RawChain) → c.Handler → Leaf
  | raw, handler => .raw label handler
  | rawM, handler => .rawM label handler context
  | sub (.host name) next, handler => .guard (.fromName name) (next.leaf label context handler)
  | sub (.path _) next, handler | sub (.fragment ..) next, handler
  | sub (.description _) next, handler | sub (.summary _) next, handler
  | sub (.operationId _) next, handler => next.leaf label context handler

end Patterns

/-! ### Calling a leaf with what a pattern finds -/

namespace Matched

variable {L Q σ : Type*} {R : Type} (call : LeafCall L Q σ R) (req : Q) (leaf : L)

/-- A leaf called with what its pattern found, after what was captured before it; not found when
the pattern does not match. -/
def callLeaf (captures : List String) (capturedAll : Option (List String)) :
    Option Matched → RouteM σ R
  | some m => call leaf req m.tail (captures ++ m.captures) (m.capturedAll.or capturedAll)
  | none   => RouteM.fail notFound

variable {call req leaf} {captures : List String} {all : Option (List String)}

theorem callLeaf_consCapture (first : String) (found : Option Matched) :
    callLeaf call req leaf captures all (found.map (·.consCapture first))
      = callLeaf call req leaf (captures ++ [first]) all found := by
  cases found with
  | none => rfl
  | some m =>
      show call leaf req m.tail (captures ++ first :: m.captures) (m.capturedAll.or all)
        = call leaf req m.tail (captures ++ [first] ++ m.captures) (m.capturedAll.or all)
      rw [List.append_assoc, List.singleton_append]

/-- The slot keeps what is put into it last. -/
theorem callLeaf_withCapturedAll (own : List String) (found : Option Matched) :
    callLeaf call req leaf captures all (found.map (·.withCapturedAll lastOnly own))
      = callLeaf call req leaf captures (some own) found := by
  cases found with
  | none => rfl
  | some m =>
      obtain ⟨tail, caps, _ | inner⟩ := m
      · rfl
      · rfl

end Matched

/-! ### Dispatch on the router of one endpoint -/

section Dispatch

open RouterTree Matched

variable [AppTypes] {Q σ : Type*} {R : Type} {req : Q}

/-- A leaf alone answers for the empty path. -/
theorem dispatch_leaf {call : LeafCall Leaf Q σ R} (leaf : Leaf) (segments captures : List String)
    (all : Option (List String)) :
    RouterTree.dispatch call req (RouterTree.leaf leaf) segments captures all
      = callLeaf call req leaf captures all (matchParts lastOnly false [] segments) := by
  rcases isEmptyPath_cases segments with h | ⟨first, rest, rfl, h⟩
  · rw [RouterTree.leaf, dispatch_static_empty h, runChoiceLeaves_cons, matchParts,
      if_neg (by simp), if_pos h, callLeaf, List.append_nil]
    exact RouteM.orElse_notFound _
  · rw [RouterTree.leaf, dispatch_static_cons h, dispatchAt, matchParts, if_neg (by simp),
      if_neg (by simp [h]), callLeaf]

/-- A router under one segment. -/
theorem dispatch_path {call : LeafCall Leaf Q σ R} {leaf : Leaf} {inner : RouterTree Leaf}
    {raw : Bool} {parts : List PathPart}
    (ih : ∀ segments captures all, RouterTree.dispatch call req inner segments captures all
      = callLeaf call req leaf captures all (matchParts lastOnly raw parts segments))
    (segment : String) (segments captures : List String) (all : Option (List String)) :
    RouterTree.dispatch call req (RouterTree.path segment inner) segments captures all
      = callLeaf call req leaf captures all
          (matchParts lastOnly raw (.static segment :: parts) segments) := by
  rcases isEmptyPath_cases segments with h | ⟨first, rest, rfl, h⟩
  · rw [RouterTree.path, dispatch_static_empty h, matchParts_static_empty h]
    rfl
  · rw [RouterTree.path, dispatch_static_cons h, matchParts_static_cons h, dispatchAt]
    by_cases hs : first = segment
    · rw [if_pos hs, if_pos hs, ih]
    · rw [if_neg hs, if_neg hs, dispatchAt]
      rfl

/-- **The router of a typed endpoint calls its leaf with what its pattern finds.** -/
theorem dispatch_shape {call : LeafCall Leaf Q σ R} (leaf : Leaf) :
    ∀ (c : Chain) (segments captures : List String) (all : Option (List String)),
      RouterTree.dispatch call req (c.shape leaf).tree segments captures all
        = callLeaf call req leaf captures all (matchParts lastOnly false c.parts segments)
  | .verb _, segments, captures, all => dispatch_leaf leaf segments captures all
  | .sub (.path segment) next, segments, captures, all =>
      dispatch_path (dispatch_shape leaf next) segment segments captures all
  | .sub (.capture ..) next, segments, captures, all => by
      rw [Chain.shape, Chain.parts, Router.capture]
      rcases isEmptyPath_cases segments with h | ⟨first, rest, rfl, h⟩
      · rw [dispatch_capture_empty h, matchParts_capture_empty h]
        rfl
      · rw [dispatch_capture_cons h, matchParts_capture_cons h, callLeaf_consCapture,
          dispatch_shape leaf next]
  | .sub (.captureAll ..) next, segments, captures, all => by
      rw [Chain.shape, Chain.parts, Router.captureAll, RouterTree.dispatch,
        matchParts_captureAll, callLeaf_withCapturedAll, dispatch_shape leaf next]
  | .sub (.queryParam ..) next, segments, captures, all
  | .sub (.queryParams ..) next, segments, captures, all
  | .sub (.queryFlag _) next, segments, captures, all
  | .sub .queryString next, segments, captures, all
  | .sub (.deepQuery ..) next, segments, captures, all
  | .sub (.header ..) next, segments, captures, all
  | .sub (.host _) next, segments, captures, all
  | .sub (.reqBody ..) next, segments, captures, all
  | .sub (.streamBody ..) next, segments, captures, all
  | .sub (.fragment ..) next, segments, captures, all
  | .sub (.description _) next, segments, captures, all
  | .sub (.summary _) next, segments, captures, all
  | .sub (.operationId _) next, segments, captures, all
  | .sub .vault next, segments, captures, all
  | .sub (.withResource _) next, segments, captures, all
  | .sub (.basicAuth ..) next, segments, captures, all
  | .sub (.authProtect _) next, segments, captures, all
  | .sub .isSecure next, segments, captures, all
  | .sub .httpVersion next, segments, captures, all
  | .sub .remoteHost next, segments, captures, all
  | .sub (.withNamedContext _) next, segments, captures, all =>
      dispatch_shape leaf next segments captures all

/-- Leaves under a function are called under it. -/
theorem runChoiceLeaves_map {call : LeafCall Leaf Q σ R} (f : Leaf → Leaf) (captures : List String)
    (all : Option (List String)) (leaves : List Leaf) :
    runChoiceLeaves call req captures all none (leaves.map f)
      = runChoiceLeaves (fun leaf => call (f leaf)) req captures all none leaves := by
  induction leaves with
  | nil => rfl
  | cons leaf leaves ih =>
      rw [List.map_cons, runChoiceLeaves_cons, runChoiceLeaves_cons, ih]

mutual

/-- A guarded router calls every leaf behind the guard. -/
theorem dispatch_guardRawRouter {call : LeafCall Leaf Q σ R} (g : HostGuard) :
    ∀ (r : RouterTree Leaf) (segments captures : List String) (all : Option (List String)),
      RouterTree.dispatch call req (RouterTree.guardRawRouter g r) segments captures all
        = RouterTree.dispatch (fun leaf => call (.guard g leaf)) req r segments captures all
  | .static map leaves, segments, captures, all => by
      rw [RouterTree.guardRawRouter]
      rcases isEmptyPath_cases segments with h | ⟨first, rest, rfl, h⟩
      · rw [dispatch_static_empty h, dispatch_static_empty h, runChoiceLeaves_map]
      · rw [dispatch_static_cons h, dispatch_static_cons h, dispatchAt_guardRawMap g map]
  | .capture hints inner, segments, captures, all => by
      rw [RouterTree.guardRawRouter]
      rcases isEmptyPath_cases segments with h | ⟨first, rest, rfl, h⟩
      · rw [dispatch_capture_empty h, dispatch_capture_empty h]
      · rw [dispatch_capture_cons h, dispatch_capture_cons h, dispatch_guardRawRouter g inner]
  | .captureAll hints inner, segments, captures, all => by
      rw [RouterTree.guardRawRouter, RouterTree.dispatch, RouterTree.dispatch,
        dispatch_guardRawRouter g inner]
  | .raw leaf, segments, captures, all => by
      rw [RouterTree.guardRawRouter, RouterTree.dispatch, RouterTree.dispatch]
  | .choice left right, segments, captures, all => by
      rw [RouterTree.guardRawRouter, dispatch_choice, dispatch_choice,
        dispatch_guardRawRouter g left, dispatch_guardRawRouter g right]

theorem dispatchAt_guardRawMap {call : LeafCall Leaf Q σ R} (g : HostGuard) :
    ∀ (map : List (String × RouterTree Leaf)) (first : String) (rest captures : List String)
      (all : Option (List String)),
      dispatchAt call req (RouterTree.guardRawMap g map) first rest captures all
        = dispatchAt (fun leaf => call (.guard g leaf)) req map first rest captures all
  | [], _, _, _, _ => by rw [RouterTree.guardRawMap, dispatchAt, dispatchAt]
  | (segment, inner) :: map, first, rest, captures, all => by
      rw [RouterTree.guardRawMap, dispatchAt, dispatchAt, dispatch_guardRawRouter g inner,
        dispatchAt_guardRawMap g map]

end

/-- **The router of a raw endpoint calls its leaf with what its pattern finds.** -/
theorem dispatch_intoRawRouter [HttpCrate] (label : Nat) (context : Context) :
    ∀ (c : RawChain) (handler : c.Handler) (call : LeafCall Leaf Q σ R)
      (segments captures : List String) (all : Option (List String)),
      RouterTree.dispatch call req (c.intoRawRouter label context handler).tree segments captures
          all
        = callLeaf call req (c.leaf label context handler) captures all
            (matchParts lastOnly true c.parts segments)
  | .raw, handler, call, segments, captures, all
  | .rawM, handler, call, segments, captures, all => by
      rw [RawChain.intoRawRouter, Router.raw, RouterTree.dispatch, RawChain.parts, matchParts,
        if_pos rfl, callLeaf, List.append_nil]
      rfl
  | .sub (.path segment) next, handler, call, segments, captures, all =>
      dispatch_path (dispatch_intoRawRouter label context next handler call) segment segments
        captures all
  | .sub (.host name) next, handler, call, segments, captures, all =>
      (dispatch_guardRawRouter _ _ segments captures all).trans
        (dispatch_intoRawRouter label context next handler _ segments captures all)
  | .sub (.fragment ..) next, handler, call, segments, captures, all
  | .sub (.description _) next, handler, call, segments, captures, all
  | .sub (.summary _) next, handler, call, segments, captures, all
  | .sub (.operationId _) next, handler, call, segments, captures, all =>
      dispatch_intoRawRouter label context next handler call segments captures all

end Dispatch

end ServantRs
