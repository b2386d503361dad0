import ServantRs.Routing.Flat
import ServantRs.Url.Items

/-!
# Url — paths, there and back

The path of a URL is written by a client or a link and read by a server: encoded, joined by
slashes, split, decoded, and walked by the router.

* `pathSegments_path_render`: the server has the pieces again, but for the root, which has one empty
  segment (`received`).
* `matchParts_items`: what an endpoint's own pattern finds in its pieces.
* `path_round_trip`: pieces that are not empty reach the leaf as they were sent.
-/

namespace ServantRs

/-! ### The path of a target -/

/-- The text does not go on with a path. -/
def EndsPath (t : String) : Prop := ∀ c ∈ t.toList.head?, Uri.inPath c = false

/-- A path ends at the query or the fragment. -/
theorem Uri.path_append {p t : String} (hp : ∀ c ∈ p.toList, Uri.inPath c = true)
    (ht : EndsPath t) : Uri.path (p ++ t) = p := by
  have hnil : t.toList.takeWhile Uri.inPath = [] := by
    rw [EndsPath] at ht
    cases h : t.toList with
    | nil => rfl
    | cons c cs =>
        have hc : Uri.inPath c = false := ht c (by rw [h]; rfl)
        rw [List.takeWhile_cons, if_neg (by simp [hc])]
  rw [Uri.path, String.toList_append, List.takeWhile_append_of_pos hp, hnil, List.append_nil,
    String.ofList_toList]

theorem endsPath_queryPart (url : UrlParts) {t : String} (ht : EndsPath t) :
    EndsPath (url.queryPart ++ t) := by
  rw [UrlParts.queryPart]
  split
  · intro c hc
    have hhead : '?' = c := by simpa [String.append_assoc] using hc
    rw [← hhead]
    rfl
  · rw [String.empty_append]
    exact ht

/-- What a server splits a path of pieces into: the root has one empty segment. -/
def received : List String → List String
  | []     => [""]
  | pieces => pieces

section

variable [PercentEncoding]

/-- Encoded text holds none of the characters a path is split at. -/
theorem notMem_encode_of_reserved {c : Char} (hc : c ∈ ['/', '?', '#']) (s : String) :
    c ∉ (encode s).toList := by
  simp only [List.mem_cons, List.not_mem_nil, or_false] at hc
  rcases hc with rfl | rfl | rfl <;> exact notMem_encode (by decide) (by decide) s

theorem decode_encode (s : String) : PercentEncoding.percentDecodeLossy (encode s) = s :=
  percentDecodeLossy_encode (by decide) s

/-- Encoded segments joined by slashes are all path. -/
theorem inPath_of_mem (pieces : List String) {c : Char}
    (hc : c ∈ ("/" ++ "/".intercalate (pieces.map encode)).toList) : Uri.inPath c = true := by
  rw [String.toList_append, List.mem_append] at hc
  have hslash : ∀ d ∈ "/".toList, Uri.inPath d = true := by
    intro d hd
    obtain rfl : d = '/' := List.mem_singleton.mp hd
    rfl
  rcases hc with hc | hc
  · exact hslash c hc
  · rcases mem_toList_intercalate hc with hc | ⟨p, hp, hc⟩
    · exact hslash c hc
    · obtain ⟨s, -, rfl⟩ := List.mem_map.mp hp
      have hquestion : c ≠ '?' := fun e => notMem_encode_of_reserved (by simp) s (e ▸ hc)
      have hhash : c ≠ '#' := fun e => notMem_encode_of_reserved (by simp) s (e ▸ hc)
      simp [Uri.inPath, hquestion, hhash]

/-- **The server has the pieces again.** -/
theorem pathSegments_encode (pieces : List String) :
    pathSegments ("/" ++ "/".intercalate (pieces.map encode)) = received pieces := by
  have hstrip : stripPrefix "/" ("/" ++ "/".intercalate (pieces.map encode))
      = some ("/".intercalate (pieces.map encode)) := stripPrefix_append _ _
  rw [pathSegments, hstrip, Option.getD_some]
  cases pieces with
  | nil =>
      have hempty : PercentEncoding.percentDecodeLossy "" = "" := PercentEncoding.decode_eq "" "" rfl
      rw [List.map_nil, String.intercalate_nil, splitChar_of_notMem (by simp), List.map_singleton,
        hempty]
      rfl
  | cons piece pieces =>
      have hsplit : splitChar '/' ("/".intercalate ((piece :: pieces).map encode))
          = (piece :: pieces).map encode := by
        refine splitChar_intercalate (c := '/') (fun p hp => ?_) (by simp)
        obtain ⟨s, -, rfl⟩ := List.mem_map.mp hp
        exact notMem_encode_of_reserved (by simp) s
      have hdecode : ((piece :: pieces).map encode).map PercentEncoding.percentDecodeLossy
          = piece :: pieces := by
        rw [List.map_map]
        exact (List.map_congr_left fun s _ => decode_encode s).trans (List.map_id _)
      rw [hsplit, hdecode]
      rfl

/-! ### The segments of items -/

theorem UrlItem.segments_addTo (style : ArrayElementStyle) (url : UrlParts) (item : UrlItem) :
    (item.addTo style url).segments = url.segments ++ item.pieces.map encode := by
  cases item with
  | queryString query => exact (List.append_nil _).symm
  | _ => rfl

theorem segments_foldl (style : ArrayElementStyle) : ∀ (items : List UrlItem) (url : UrlParts),
    (items.foldl (UrlItem.addTo style) url).segments
      = url.segments ++ (items.flatMap UrlItem.pieces).map encode
  | [], url => (List.append_nil _).symm
  | item :: items, url => by
      rw [List.foldl_cons, segments_foldl style items, UrlItem.segments_addTo, List.flatMap_cons,
        List.map_append, List.append_assoc]

/-- A server has the pieces of a URL's items again, whatever stands behind the path. -/
theorem pathSegments_path_render (style : ArrayElementStyle) (items : List UrlItem) {t : String}
    (ht : EndsPath t) :
    pathSegments (Uri.path ((UrlParts.ofItems style items).render ++ t))
      = received (items.flatMap UrlItem.pieces) := by
  have hsegments : (UrlParts.ofItems style items).segments
      = (items.flatMap UrlItem.pieces).map encode := segments_foldl style items .empty
  rw [UrlParts.render, String.append_assoc, hsegments,
    Uri.path_append (fun c hc => inPath_of_mem _ hc) (endsPath_queryPart _ ht), pathSegments_encode]

end

/-! ### Items on a pattern -/

namespace UrlItem

/-- The part of a pattern an item is for. -/
def part : UrlItem → Option PathPart
  | static segment => some (.static segment)
  | capture _      => some .capture
  | captureAll _   => some .captureAll
  | _              => none

/-- The pieces that are not a tail's. -/
def ownPieces : UrlItem → List String
  | static segment => [segment]
  | capture piece  => [piece]
  | _              => []

def captured : UrlItem → List String
  | capture piece => [piece]
  | _             => []

def tail : UrlItem → Option (List String)
  | captureAll pieces => some pieces
  | _                 => none

end UrlItem

/-- A tail is captured at the end of the path only. -/
def CaptureAllLast : List PathPart → Prop
  | []                   => True
  | .captureAll :: parts => parts = []
  | .static _ :: parts | .capture :: parts => CaptureAllLast parts

/-- The pieces captured one by one, in order. -/
def capturedPieces (items : List UrlItem) : List String := items.flatMap UrlItem.captured

/-- The pieces captured at once. -/
def capturedTail (items : List UrlItem) : Option (List String) := items.findSome? UrlItem.tail

/-- Items without a part in the path have no pieces. -/
theorem pieces_eq_nil : ∀ (items : List UrlItem), items.filterMap UrlItem.part = [] →
    items.flatMap UrlItem.pieces = [] ∧ items.flatMap UrlItem.ownPieces = [] ∧
      capturedPieces items = [] ∧ capturedTail items = none
  | [], _ => ⟨rfl, rfl, rfl, rfl⟩
  | item :: items, h => by
      cases item with
      | static segment => simp [UrlItem.part] at h
      | capture piece => simp [UrlItem.part] at h
      | captureAll pieces => simp [UrlItem.part] at h
      | _ => exact pieces_eq_nil items h

/-- The pieces: first those that are not the tail's. -/
theorem pieces_eq_append : ∀ (items : List UrlItem),
    CaptureAllLast (items.filterMap UrlItem.part) →
      items.flatMap UrlItem.pieces
        = items.flatMap UrlItem.ownPieces ++ (capturedTail items).getD []
  | [], _ => rfl
  | item :: items, h => by
      cases item with
      | static segment => exact congrArg (segment :: ·) (pieces_eq_append items h)
      | capture piece => exact congrArg (piece :: ·) (pieces_eq_append items h)
      | captureAll pieces =>
          obtain ⟨hp, ho, -, -⟩ := pieces_eq_nil items h
          rw [List.flatMap_cons, List.flatMap_cons, hp, ho]
          exact List.append_nil pieces
      | _ => exact pieces_eq_append items h

/-- The path ends in an empty piece that no tail captures. -/
def EndsEmpty (items : List UrlItem) : Prop :=
  (capturedTail items).getD [] = [] ∧ (items.flatMap UrlItem.ownPieces).getLast? = some ""

instance (items : List UrlItem) : Decidable (EndsEmpty items) :=
  inferInstanceAs (Decidable (_ ∧ _))

/-- What the pattern of items finds in their pieces. -/
def foundIn (items : List UrlItem) : Matched :=
  ⟨[], capturedPieces items, (capturedTail items).map dropLeadingEmpty⟩

theorem isEmptyPath_cons {first : String} {rest : List String} :
    isEmptyPath (first :: rest) = true ↔ first = "" ∧ rest = [] := by
  simp [isEmptyPath]

/-- A piece before the others ends the path when it is empty and there are no others. -/
theorem endsEmpty_cons (item : UrlItem) {items : List UrlItem} {piece : String}
    (hown : item.ownPieces = [piece]) (htail : item.tail = none)
    (hlast : CaptureAllLast (items.filterMap UrlItem.part)) :
    EndsEmpty (item :: items)
      ↔ isEmptyPath (piece :: items.flatMap UrlItem.pieces) = true ∨ EndsEmpty items := by
  have htails : capturedTail (item :: items) = capturedTail items := by
    rw [capturedTail, List.findSome?_cons, htail]
    rfl
  rw [EndsEmpty, EndsEmpty, htails, List.flatMap_cons, hown, List.singleton_append,
    isEmptyPath_cons, pieces_eq_append items hlast, List.append_eq_nil_iff]
  cases items.flatMap UrlItem.ownPieces with
  | nil => simp [and_comm]
  | cons own owns => simp [List.getLast?_cons]

theorem dropLeadingEmpty_eq_self {segments : List String} :
    dropLeadingEmpty segments = segments ↔ segments.head? ≠ some "" := by
  constructor
  · intro h hhead
    obtain ⟨rest, rfl⟩ := List.head?_eq_some_iff.mp hhead
    have hlength := congrArg List.length h
    simp [dropLeadingEmpty] at hlength
  · intro hhead
    rw [dropLeadingEmpty]
    intro rest h
    rw [h] at hhead
    exact hhead rfl

/-- The router does not read an empty piece at the end as a segment. -/
theorem matchParts_items : ∀ (items : List UrlItem),
    CaptureAllLast (items.filterMap UrlItem.part) →
      matchParts lastOnly false (items.filterMap UrlItem.part) (items.flatMap UrlItem.pieces)
        = if EndsEmpty items then none else some (foundIn items)
  | [], _ => rfl
  | item :: items, h => by
      cases item with
      -- a piece is read as a segment unless it is empty and the last
      | static segment =>
          have hlast : CaptureAllLast (items.filterMap UrlItem.part) := h
          have hends := endsEmpty_cons (.static segment) rfl rfl hlast
          show matchParts lastOnly false (.static segment :: items.filterMap UrlItem.part)
            (segment :: items.flatMap UrlItem.pieces) = _
          cases he : isEmptyPath (segment :: items.flatMap UrlItem.pieces) with
          | true => rw [matchParts_static_empty he, if_pos (hends.mpr (.inl he))]
          | false =>
              rw [matchParts_static_cons he, if_pos rfl, matchParts_items items hlast]
              simp only [hends, he, Bool.false_eq_true, false_or]
              rfl
      | capture piece =>
          have hlast : CaptureAllLast (items.filterMap UrlItem.part) := h
          have hends := endsEmpty_cons (.capture piece) rfl rfl hlast
          show matchParts lastOnly false (.capture :: items.filterMap UrlItem.part)
            (piece :: items.flatMap UrlItem.pieces) = _
          cases he : isEmptyPath (piece :: items.flatMap UrlItem.pieces) with
          | true => rw [matchParts_capture_empty he, if_pos (hends.mpr (.inl he))]
          | false =>
              rw [matchParts_capture_cons he, matchParts_items items hlast]
              simp only [hends, he, Bool.false_eq_true, false_or]
              split
              · rfl
              · rfl
      -- the pattern ends here, and the tail takes every piece left
      | captureAll pieces =>
          have hparts : items.filterMap UrlItem.part = [] := h
          obtain ⟨hp, ho, hc, -⟩ := pieces_eq_nil items hparts
          have hends : ¬ EndsEmpty (.captureAll pieces :: items) := by
            rintro ⟨-, hlast⟩
            rw [List.flatMap_cons, ho] at hlast
            cases hlast
          show matchParts lastOnly false (.captureAll :: items.filterMap UrlItem.part)
            (pieces ++ items.flatMap UrlItem.pieces) = _
          rw [if_neg hends, hparts, hp, List.append_nil]
          have hfound : foundIn (.captureAll pieces :: items)
              = ⟨[], [], some (dropLeadingEmpty pieces)⟩ := by
            show Matched.mk [] (capturedPieces items) (some (dropLeadingEmpty pieces)) = _
            rw [hc]
          rw [hfound]
          rfl
      | _ => exact matchParts_items items h

/-- The root's one empty segment is as good as none. -/
theorem matchParts_received {merge : SlotMerge} {raw : Bool} (parts : List PathPart)
    (pieces : List String) :
    matchParts merge raw parts (received pieces) = matchParts merge raw parts pieces := by
  cases pieces with
  | cons piece pieces => rfl
  | nil =>
      cases parts with
      | nil => rfl
      | cons part parts =>
          cases part with
          | static segment => exact matchParts_static_empty rfl segment parts
          | capture => exact matchParts_capture_empty rfl parts
          | captureAll => rfl

/-! ### The targets of an endpoint -/

namespace Chain

variable [AppTypes]

theorem parts_eq_items : ∀ (c : Chain) (args : c.Args),
    c.parts = (c.items args).filterMap UrlItem.part
  | verb _, _ => rfl
  | sub (.path _) next, args => congrArg (List.cons _) (parts_eq_items next args)
  | sub (.capture ..) next, (_, args) => congrArg (List.cons _) (parts_eq_items next args)
  | sub (.captureAll ..) next, (_, args) => congrArg (List.cons _) (parts_eq_items next args)
  | sub (.queryParam ..) next, (_, args) | sub (.queryParams ..) next, (_, args)
  | sub (.queryFlag _) next, (_, args) | sub .queryString next, (_, args)
  | sub (.deepQuery ..) next, (_, args) | sub (.header ..) next, (_, args)
  | sub (.reqBody ..) next, (_, args) | sub (.streamBody ..) next, (_, args)
  | sub .vault next, (_, args) | sub (.withResource _) next, (_, args)
  | sub (.basicAuth ..) next, (_, args) | sub (.authProtect _) next, (_, args)
  | sub .isSecure next, (_, args) | sub .httpVersion next, (_, args)
  | sub .remoteHost next, (_, args) | sub (.host _) next, args | sub (.fragment ..) next, args
  | sub (.description _) next, args | sub (.summary _) next, args
  | sub (.operationId _) next, args | sub (.withNamedContext _) next, args =>
      parts_eq_items next args

theorem parts_eq_linkItems : ∀ (c : Chain) (args : c.LinkArgs),
    c.parts = (c.linkItems args).filterMap UrlItem.part
  | verb _, _ => rfl
  | sub (.path _) next, args => congrArg (List.cons _) (parts_eq_linkItems next args)
  | sub (.capture ..) next, (_, args) => congrArg (List.cons _) (parts_eq_linkItems next args)
  | sub (.captureAll ..) next, (_, args) => congrArg (List.cons _) (parts_eq_linkItems next args)
  | sub (.queryParam ..) next, (_, args) | sub (.queryParams ..) next, (_, args)
  | sub (.queryFlag _) next, (_, args) | sub .queryString next, (_, args)
  | sub (.deepQuery ..) next, (_, args) | sub (.fragment ..) next, (_, args)
  | sub (.header ..) next, args | sub (.reqBody ..) next, args | sub (.streamBody ..) next, args
  | sub .vault next, args | sub (.withResource _) next, args | sub (.basicAuth ..) next, args
  | sub (.authProtect _) next, args | sub .isSecure next, args | sub .httpVersion next, args
  | sub .remoteHost next, args | sub (.host _) next, args | sub (.description _) next, args
  | sub (.summary _) next, args | sub (.operationId _) next, args
  | sub (.withNamedContext _) next, args => parts_eq_linkItems next args

variable [PercentEncoding] [HttpCrate]

/-- A target that the client or a link makes for an endpoint, with the items put in it. -/
inductive Target (c : Chain) : List UrlItem → String → Prop
  | client (h : c.HasClient) (args : c.Args) {req : ClientRequest}
      (hb : c.buildRequest h args .new = .ok req) : Target c (c.items args) req.target
  | link (args : c.LinkArgs) (style : ArrayElementStyle) :
      Target c (c.linkItems args) ((c.link args).renderWith style true)

namespace Target

variable {c : Chain} {items : List UrlItem} {target : String}

theorem parts_eq (h : c.Target items target) : c.parts = items.filterMap UrlItem.part := by
  cases h with
  | client _ args _ => exact parts_eq_items c args
  | link args _ => exact parts_eq_linkItems c args

/-- A server has the pieces of a target again. -/
theorem pathSegments_path (h : c.Target items target) :
    pathSegments (Uri.path target) = received (items.flatMap UrlItem.pieces) := by
  cases h with
  | client _ args hb =>
      have hempty : EndsPath "" := nofun
      rw [target_eq_items hb, ← pathSegments_path_render .plain (c.items args) hempty,
        String.append_empty]
  | link args style =>
      rw [renderWith_link_eq]
      cases (c.link args).fragment with
      | none => exact pathSegments_path_render style (c.linkItems args) nofun
      | some frag =>
          refine pathSegments_path_render style (c.linkItems args) fun d hd => ?_
          have hhead : '#' = d := by simpa using hd
          rw [← hhead]
          rfl

/-- What dispatching a target does: nothing is found when the path ends in an empty piece, else
the leaf has what its pattern finds. -/
theorem dispatch_eq (h : c.Target items target) (hlast : CaptureAllLast c.parts) (label : Nat)
    (handler : c.Args → Except ServerError c.Output) (context : Context) {Q σ : Type*} {R : Type}
    (call : LeafCall Leaf Q σ R) (req : Q) :
    dispatch call (serveWithContext (.endpoint label c handler) context)
        (pathSegments (Uri.path target)) [] none req
      = if EndsEmpty items then RouteM.fail notFound
        else call (.endpoint label c handler context) req [] (capturedPieces items)
          ((capturedTail items).map dropLeadingEmpty) := by
  have hparts := h.parts_eq
  have hdispatch : RouterTree.dispatch call req (c.shape (.endpoint label c handler context)).tree
      (received (items.flatMap UrlItem.pieces)) [] none = _ := dispatch_shape _ c _ [] none
  rw [matchParts_received, hparts, matchParts_items items (hparts ▸ hlast)] at hdispatch
  rw [h.pathSegments_path]
  refine hdispatch.trans ?_
  split
  · rfl
  · rw [Matched.callLeaf, Option.or_none, List.nil_append]
    rfl

end Target

/-- **Path round trip.**  A target of an endpoint whose pieces are none of them empty reaches the
endpoint's leaf with the pieces of its captures, in order, and those of its tail. -/
theorem path_round_trip (c : Chain) (hlast : CaptureAllLast c.parts) {items : List UrlItem}
    {target : String} (h : c.Target items target)
    (hne : ∀ piece ∈ items.flatMap UrlItem.pieces, piece ≠ "") (label : Nat)
    (handler : c.Args → Except ServerError c.Output) (context : Context) {Q σ : Type*} {R : Type}
    (call : LeafCall Leaf Q σ R) (req : Q) :
    dispatch call (serveWithContext (.endpoint label c handler) context)
        (pathSegments (Uri.path target)) [] none req
      = call (.endpoint label c handler context) req [] (capturedPieces items)
          (capturedTail items) := by
  rw [pieces_eq_append items (h.parts_eq ▸ hlast)] at hne
  have hends : ¬ EndsEmpty items := by
    rintro ⟨-, hown⟩
    exact hne "" (List.mem_append_left _ (List.mem_of_getLast? hown)) rfl
  have htail : (capturedTail items).map dropLeadingEmpty = capturedTail items := by
    cases ht : capturedTail items with
    | none => rfl
    | some tail =>
        rw [ht, Option.getD_some] at hne
        have hhead : tail.head? ≠ some "" := fun hhead =>
          hne "" (List.mem_append_right _ (List.mem_of_head? hhead)) rfl
        rw [Option.map_some, dropLeadingEmpty_eq_self.mpr hhead]
  rw [h.dispatch_eq hlast, if_neg hends, htail]

end Chain

/-! ### Files in a volume -/

section

attribute [local instance] PercentEncoding.reference AppTypes.reference HttpCrate.reference

/-- A leaf that answers with what it is called with. -/
def echo : LeafCall Leaf Unit Unit (List String × Option (List String)) :=
  fun _ _ _ captures capturedAll world => (.route (captures, capturedAll), world)

def filesChain : Chain :=
  .sub (.path "files") (.sub (.capture String .string .strict "volume")
    (.sub (.captureAll String .string "path") (.verb (.noContentVerb .GET))))

theorem filesChain_hasClient : filesChain.HasClient := ⟨trivial, trivial, trivial, trivial⟩

def filesArgs : filesChain.Args := ("50%", ["a/b", ".."], ())

/-- Slashes, percent signs and dots in the pieces. -/
theorem path_round_trip_files : ∃ req : ClientRequest,
    filesChain.buildRequest filesChain_hasClient filesArgs .new = .ok req ∧
      dispatch echo (serveWithContext (.endpoint 0 filesChain fun _ => .ok ()) .new)
        (pathSegments (Uri.path req.target)) [] none () ()
          = (.route (["50%"], some ["a/b", ".."]), ()) := by
  obtain ⟨req, hb⟩ : ∃ req, filesChain.buildRequest filesChain_hasClient filesArgs .new
      = .ok req := ⟨_, rfl⟩
  have hlast : CaptureAllLast filesChain.parts := rfl
  have htarget : filesChain.Target (filesChain.items filesArgs) req.target :=
    .client filesChain_hasClient filesArgs hb
  have hne : ∀ piece ∈ (filesChain.items filesArgs).flatMap UrlItem.pieces, piece ≠ "" := by decide
  exact ⟨req, hb, congrFun (Chain.path_round_trip filesChain hlast htarget hne 0 _ .new echo ()) ()⟩

end

end ServantRs
