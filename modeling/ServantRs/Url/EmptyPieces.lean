import ServantRs.Phases.Auth
import ServantRs.Url.Path
import Mathlib.Data.List.Forall2

/-!
# Url — empty pieces

An empty piece at the end of a path is read as a trailing slash, and an empty piece before a
captured tail is dropped.  So empty strings do not always come back:

* `captureAll_received`: a tail comes back without one leading empty string; the leaf is not
  reached when the tail is empty and the piece before it is.
* `alt_runs_called_endpoint`: a call may reach another endpoint only when its last piece is empty
  and the other's pattern takes the pieces before it.
-/

namespace ServantRs

/-! ### Tails -/

section

variable [AppTypes] [PercentEncoding] [HttpCrate]

/-- **What becomes of a tail.**  The leaf has the tail that was sent without one leading empty
string, so it has the tail itself when that begins with none; it is not reached when nothing was
sent and the piece before was empty. -/
theorem captureAll_received (c : Chain) (hlast : CaptureAllLast c.parts) {items : List UrlItem}
    {target : String} (h : c.Target items target) {sent : List String}
    (hsent : capturedTail items = some sent) (label : Nat)
    (handler : c.Args → Except ServerError c.Output) (context : Context) {Q σ : Type*} {R : Type}
    (call : LeafCall Leaf Q σ R) (req : Q) :
    (dispatch call (serveWithContext (.endpoint label c handler) context)
        (pathSegments (Uri.path target)) [] none req
      = if sent = [] ∧ (items.flatMap UrlItem.ownPieces).getLast? = some "" then
          RouteM.fail notFound
        else call (.endpoint label c handler context) req [] (capturedPieces items)
          (some (dropLeadingEmpty sent))) ∧
      (dropLeadingEmpty sent = sent ↔ sent.head? ≠ some "") := by
  refine ⟨?_, dropLeadingEmpty_eq_self⟩
  rw [h.dispatch_eq hlast, hsent]
  simp only [EndsEmpty, hsent, Option.getD_some, Option.map_some]

end

section

attribute [local instance] PercentEncoding.reference AppTypes.reference HttpCrate.reference

def pathsChain : Chain :=
  .sub (.path "files") (.sub (.captureAll String .string "path") (.verb (.noContentVerb .GET)))

theorem pathsChain_hasClient : pathsChain.HasClient := ⟨trivial, trivial, trivial⟩

theorem pathsChain_builds (sent : List String) :
    ∃ req, pathsChain.buildRequest pathsChain_hasClient (sent, ()) .new = .ok req := ⟨_, rfl⟩

/-- An absolute path. -/
theorem captureAll_received_absolute : ∃ req : ClientRequest,
    pathsChain.buildRequest pathsChain_hasClient (["", "etc", ""], ()) .new = .ok req ∧
      dispatch echo (serveWithContext (.endpoint 0 pathsChain fun _ => .ok ()) .new)
        (pathSegments (Uri.path req.target)) [] none () ()
          = (.route ([], some ["etc", ""]), ()) := by
  obtain ⟨req, hb⟩ := pathsChain_builds ["", "etc", ""]
  have htarget : pathsChain.Target (pathsChain.items (["", "etc", ""], ())) req.target :=
    .client pathsChain_hasClient (["", "etc", ""], ()) hb
  have h := (captureAll_received pathsChain rfl htarget rfl 0 (fun _ => .ok ()) .new echo ()).1
  exact ⟨req, hb, congrFun h ()⟩

/-- A leading empty string does not come back. -/
theorem captureAll_drops_leading_empty :
    ¬ ∀ (sent : List String) (req : ClientRequest),
      pathsChain.buildRequest pathsChain_hasClient (sent, ()) .new = .ok req →
        dispatch echo (serveWithContext (.endpoint 0 pathsChain fun _ => .ok ()) .new)
          (pathSegments (Uri.path req.target)) [] none () () = (.route ([], some sent), ()) := by
  intro h
  obtain ⟨req, hb⟩ := pathsChain_builds [""]
  have htarget : pathsChain.Target (pathsChain.items ([""], ())) req.target :=
    .client pathsChain_hasClient ([""], ()) hb
  have heq := h [""] req hb
  rw [htarget.dispatch_eq rfl] at heq
  cases heq

end

/-! ### Another endpoint -/

/-- The segments before a trailing slash. -/
def dropTrailingEmpty (segments : List String) : List String :=
  if segments.getLast? = some "" then segments.dropLast else segments

theorem dropTrailingEmpty_of_isEmptyPath {segments : List String}
    (h : isEmptyPath segments = true) : dropTrailingEmpty segments = [] := by
  rcases segments with _ | ⟨first, rest⟩
  · rfl
  · obtain ⟨rfl, rfl⟩ := isEmptyPath_cons.mp h
    rfl

theorem dropTrailingEmpty_cons {first : String} {rest : List String}
    (h : isEmptyPath (first :: rest) = false) :
    dropTrailingEmpty (first :: rest) = first :: dropTrailingEmpty rest := by
  cases rest with
  | nil =>
      have hfirst : first ≠ "" := fun e => by simp [isEmptyPath, e] at h
      simp [dropTrailingEmpty, hfirst]
  | cons second rest =>
      rw [dropTrailingEmpty, dropTrailingEmpty, List.getLast?_cons_cons, List.dropLast_cons_cons]
      split
      · rfl
      · rfl

/-- A part of a pattern takes a segment: a static part its own, a capture any. -/
def PathPart.Takes : PathPart → String → Prop
  | .static segment, piece => piece = segment
  | .capture, _            => True
  | .captureAll, _         => False

/-- A pattern without a tail takes a segment with each part. -/
theorem takes_of_match {merge : SlotMerge} : ∀ {parts : List PathPart} {segments : List String}
    {m : Matched}, PathPart.captureAll ∉ parts → matchParts merge false parts segments = some m →
      List.Forall₂ PathPart.Takes parts (dropTrailingEmpty segments)
  | [], segments, m, _, h => by
      rw [matchParts, if_neg Bool.false_ne_true] at h
      split at h
      · rename_i hempty
        rw [dropTrailingEmpty_of_isEmptyPath hempty]
        exact .nil
      · cases h
  | .static segment :: parts, segments, m, hopen, h => by
      rcases RouterTree.isEmptyPath_cases segments with he | ⟨first, rest, rfl, he⟩
      · rw [matchParts_static_empty he] at h
        cases h
      · rw [matchParts_static_cons he] at h
        split at h
        · rename_i hfirst
          have ih := takes_of_match (fun hmem => hopen (List.mem_cons_of_mem _ hmem)) h
          rw [dropTrailingEmpty_cons he]
          exact .cons hfirst ih
        · cases h
  | .capture :: parts, segments, m, hopen, h => by
      rcases RouterTree.isEmptyPath_cases segments with he | ⟨first, rest, rfl, he⟩
      · rw [matchParts_capture_empty he] at h
        cases h
      · rw [matchParts_capture_cons he] at h
        obtain ⟨m', hm', -⟩ := Option.map_eq_some_iff.mp h
        have ih := takes_of_match (fun hmem => hopen (List.mem_cons_of_mem _ hmem)) hm'
        rw [dropTrailingEmpty_cons he]
        exact .cons trivial ih
  | .captureAll :: parts, segments, m, hopen, h => absurd List.mem_cons_self hopen

theorem captureAllLast_of_notMem : ∀ (parts : List PathPart), PathPart.captureAll ∉ parts →
    CaptureAllLast parts
  | [], _ => trivial
  | .static _ :: parts, h | .capture :: parts, h =>
      captureAllLast_of_notMem parts fun hmem => h (List.mem_cons_of_mem _ hmem)
  | .captureAll :: _, h => absurd List.mem_cons_self h

/-- Without a tail there is one piece for each part. -/
theorem length_pieces : ∀ (items : List UrlItem),
    PathPart.captureAll ∉ items.filterMap UrlItem.part →
      (items.flatMap UrlItem.pieces).length = (items.filterMap UrlItem.part).length
  | [], _ => rfl
  | item :: items, h => by
      cases item with
      | static segment =>
          have ih := length_pieces items fun hmem => h (List.mem_cons_of_mem _ hmem)
          exact congrArg (· + 1) ih
      | capture piece =>
          have ih := length_pieces items fun hmem => h (List.mem_cons_of_mem _ hmem)
          exact congrArg (· + 1) ih
      | captureAll pieces => exact absurd List.mem_cons_self h
      | _ => exact length_pieces items h

/-- The segments a server has of pieces are the pieces, but for an empty one at the end. -/
theorem dropTrailingEmpty_received (pieces : List String) :
    dropTrailingEmpty (received pieces) = dropTrailingEmpty pieces := by
  cases pieces with
  | nil => rfl
  | cons piece pieces => rfl

section

variable [AppTypes] [HttpCrate]

theorem dispatch_of_match_none (label : Nat) {c : Chain}
    (handler : c.Args → Except ServerError c.Output) (context : Context) {Q σ : Type*} {R : Type}
    (call : LeafCall Leaf Q σ R) {segments : List String}
    (hnone : c.pattern.match? lastOnly segments = none) (req : Q) :
    dispatch call (serveWithContext (.endpoint label c handler) context) segments [] none req
      = RouteM.fail notFound := by
  have hdispatch : RouterTree.dispatch call req (c.shape (.endpoint label c handler context)).tree
      segments [] none = _ := dispatch_shape _ c segments [] none
  rw [PathPattern.match?] at hnone
  exact hdispatch.trans (congrArg _ hnone)

/-- A pattern of another length does not match a target, unless the target ends in an empty piece
and the pattern takes the pieces before it. -/
theorem Chain.Target.match_eq_none [PercentEncoding] {c₁ c₂ : Chain} {items : List UrlItem}
    {target : String} (h : c₁.Target items target) (hopen₁ : PathPart.captureAll ∉ c₁.parts)
    (hopen₂ : PathPart.captureAll ∉ c₂.parts) (hlength : c₁.parts.length ≠ c₂.parts.length)
    (hlast : (items.flatMap UrlItem.pieces).getLast? = some "" →
      ¬ List.Forall₂ PathPart.Takes c₂.parts (items.flatMap UrlItem.pieces).dropLast) :
    c₂.pattern.match? lastOnly (pathSegments (Uri.path target)) = none := by
  have hparts := h.parts_eq
  rw [h.pathSegments_path, Option.eq_none_iff_forall_ne_some]
  intro m hm
  have htaken := takes_of_match hopen₂ hm
  rw [dropTrailingEmpty_received, dropTrailingEmpty] at htaken
  split at htaken
  · rename_i hempty
    exact hlast hempty htaken
  · -- all pieces are taken, one for each part of either pattern
    have hlen := htaken.length_eq
    rw [length_pieces _ (hparts ▸ hopen₁), ← hparts] at hlen
    exact hlength hlen.symm

variable [MimeCrate] [Base64Crate]

/-- A leaf calls no handler but its own. -/
theorem handler_of_call (label : Nat) (chain : Chain)
    (handler : chain.Args → Except ServerError chain.Output) (context : Context)
    (req : RequestData) (tail captures : List String) (capturedAll : Option (List String))
    (w : World) : ∃ events,
      (Leaf.call (.endpoint label chain handler context) req tail captures capturedAll w).2.log
        = w.log ++ events ∧ ∀ l c args, .handler l c args ∈ events → l = label := by
  obtain ⟨checks, rest, hlog, -, htrace, -⟩ :=
    call_trace label chain handler context req tail captures capturedAll w
  refine ⟨_, hlog, fun l c args hmem => ?_⟩
  have hrest : .handler l c args ∈ rest := by simpa using hmem
  rcases htrace.body_or_handler _ hrest with hbody | ⟨args', he⟩
  · exact hbody.elim
  · cases he
    rfl

/-- Of two APIs beside each other the right one is for what the left one does not answer. -/
theorem dispatch_alt (left right : Api) (context : Context) (segments : List String)
    (req : RequestData) :
    dispatch Leaf.call (serveWithContext (.alt left right) context) segments [] none req
      = (dispatch Leaf.call (serveWithContext left context) segments [] none req).orElse
          (dispatch Leaf.call (serveWithContext right context) segments [] none req) :=
  RouterTree.dispatch_smartChoice
    (fun leaf tail captures all => Leaf.canonical_call leaf req tail captures all) _
    (right.intoRouter context).sorted _ _ _ _

variable [PercentEncoding]

/-- **A call runs its own endpoint.**  Two endpoints beside each other, with patterns without
tails and of different lengths: a client's call of the one does what it does when that endpoint is
served alone, and never runs the handler of the other, unless the call's last piece is empty and
the other's pattern takes the pieces before it. -/
theorem alt_runs_called_endpoint (label₁ label₂ : Nat) (c₁ c₂ : Chain)
    (handler₁ : c₁.Args → Except ServerError c₁.Output)
    (handler₂ : c₂.Args → Except ServerError c₂.Output) (context : Context)
    (hopen₁ : PathPart.captureAll ∉ c₁.parts) (hopen₂ : PathPart.captureAll ∉ c₂.parts)
    (hlength : c₁.parts.length ≠ c₂.parts.length) (h : c₁.HasClient) (args : c₁.Args)
    {creq : ClientRequest} (hb : c₁.buildRequest h args .new = .ok creq)
    (hlast : ((c₁.items args).flatMap UrlItem.pieces).getLast? = some "" →
      ¬ List.Forall₂ PathPart.Takes c₂.parts ((c₁.items args).flatMap UrlItem.pieces).dropLast)
    (req : RequestData) :
    dispatch Leaf.call (serveWithContext
        (.alt (.endpoint label₁ c₁ handler₁) (.endpoint label₂ c₂ handler₂)) context)
        (pathSegments (Uri.path creq.target)) [] none req
      = dispatch Leaf.call (serveWithContext (.endpoint label₁ c₁ handler₁) context)
          (pathSegments (Uri.path creq.target)) [] none req ∧
    (label₁ ≠ label₂ → ∀ w, ∃ events,
      (dispatch Leaf.call (serveWithContext
          (.alt (.endpoint label₁ c₁ handler₁) (.endpoint label₂ c₂ handler₂)) context)
          (pathSegments (Uri.path creq.target)) [] none req w).2.log = w.log ++ events ∧
        ∀ c args, .handler label₂ c args ∉ events) := by
  have htarget : c₁.Target (c₁.items args) creq.target := .client h args hb
  have hnone := htarget.match_eq_none hopen₁ hopen₂ hlength hlast
  have halone : dispatch Leaf.call (serveWithContext
      (.alt (.endpoint label₁ c₁ handler₁) (.endpoint label₂ c₂ handler₂)) context)
      (pathSegments (Uri.path creq.target)) [] none req
    = dispatch Leaf.call (serveWithContext (.endpoint label₁ c₁ handler₁) context)
        (pathSegments (Uri.path creq.target)) [] none req := by
    rw [dispatch_alt, dispatch_of_match_none label₂ handler₂ context Leaf.call hnone,
      RouteM.orElse_notFound]
  refine ⟨halone, fun hlabel w => ?_⟩
  rw [halone, htarget.dispatch_eq (captureAllLast_of_notMem _ hopen₁)]
  split
  · exact ⟨[], (List.append_nil _).symm, by simp⟩
  · obtain ⟨events, hlog, hown⟩ := handler_of_call label₁ c₁ handler₁ context req [] (capturedPieces
      (c₁.items args)) ((capturedTail (c₁.items args)).map dropLeadingEmpty) w
    exact ⟨events, hlog, fun c args hmem => hlabel (hown label₂ c args hmem).symm⟩

end

section

attribute [local instance] PercentEncoding.reference AppTypes.reference HttpCrate.reference
  MimeCrate.reference Base64Crate.reference

/-- One user is deleted, or all are. -/
def userChain : Chain :=
  .sub (.path "users") (.sub (.capture String .string .strict "id") (.verb (.noContentVerb .DELETE)))

def usersChain : Chain := .sub (.path "users") (.verb (.noContentVerb .DELETE))

def usersApi : Api :=
  .alt (.endpoint 1 userChain fun _ => .ok ()) (.endpoint 2 usersChain fun _ => .ok ())

theorem userChain_hasClient : userChain.HasClient := ⟨trivial, trivial, trivial⟩

theorem userChain_builds (id : String) :
    ∃ creq, userChain.buildRequest userChain_hasClient (id, ()) .new = .ok creq := ⟨_, rfl⟩

/-- Deleting user `7`. -/
theorem alt_runs_called_endpoint_user : ∃ creq : ClientRequest,
    userChain.buildRequest userChain_hasClient ("7", ()) .new = .ok creq ∧
      ∃ events, (dispatch Leaf.call (serveWithContext usersApi .new)
          (pathSegments (Uri.path creq.target)) [] none (.ofMethod .DELETE ()) (.new [] 0)).2.log
            = (World.new [] 0).log ++ events ∧ ∀ c args, .handler 2 c args ∉ events := by
  rw [usersApi]
  obtain ⟨creq, hb⟩ := userChain_builds "7"
  have hrun := (alt_runs_called_endpoint 1 2 userChain usersChain (fun _ => .ok ())
    (fun _ => .ok ()) .new (by decide) (by decide) (by decide) userChain_hasClient ("7", ()) hb
    (absurd · (by decide)) (.ofMethod .DELETE ())).2
  have hlabel : (1 : Nat) ≠ 2 := by decide
  exact ⟨creq, hb, hrun hlabel (.new [] 0)⟩

/-- Deleting the user with the empty name deletes all. -/
theorem call_runs_sibling :
    ¬ ∀ (id : String) (creq : ClientRequest),
      userChain.buildRequest userChain_hasClient (id, ()) .new = .ok creq →
        ∀ args, .handler 2 usersChain args ∉ (dispatch Leaf.call (serveWithContext usersApi .new)
          (pathSegments (Uri.path creq.target)) [] none (.ofMethod .DELETE ()) (.new [] 0)).2.log := by
  intro h
  obtain ⟨creq, hb⟩ := userChain_builds ""
  have htarget : userChain.Target (userChain.items ("", ())) creq.target :=
    .client userChain_hasClient ("", ()) hb
  have hsegments : pathSegments (Uri.path creq.target) = ["users", ""] := htarget.pathSegments_path
  have hlog : (dispatch Leaf.call (serveWithContext usersApi .new) ["users", ""] [] none
      (.ofMethod .DELETE ()) (.new [] 0)).2.log
        = [.call (.endpoint 2 usersChain (fun _ => .ok ()) .new) [] [] none,
           .handler 2 usersChain ()] := by
    have hnone : userChain.pattern.match? lastOnly ["users", ""] = none := by decide
    rw [usersApi, dispatch_alt, dispatch_of_match_none 1 _ .new Leaf.call hnone]
    rfl
  have hrun := h "" creq hb ()
  rw [hsegments, hlog] at hrun
  exact hrun (List.mem_cons_of_mem _ (List.mem_singleton_self _))

end

end ServantRs
