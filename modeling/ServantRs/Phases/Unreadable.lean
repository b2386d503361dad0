import ServantRs.Messages.Negotiation
import ServantRs.Phases.Captures
import ServantRs.Phases.Order

/-!
# Phases — headers that are no text

A header's value is bytes, and the bytes may be no text.  The design rejects an `Accept` that is
there and cannot be parsed, without the fallback for an absent one.  The leaf asks for a header's
text, so to it a value that is none is an absent header: `Accept` then asks for anything, and
`Content-Type` stands for octets.

* `rejectsUnreadable_iff`: such a request is rejected only where the default would be rejected too.
-/

namespace ServantRs

open RouteM ExtractState

/-- An absent `Accept` is served by whatever there is. -/
theorem negotiateMediaIndex_none_isSome_iff {media : List Mime} :
    (∃ i, negotiateMediaIndex none media = some i) ↔ media ≠ [] := by
  rw [negotiateMediaIndex_isSome_iff]
  have hstar : ∀ mt, Acceptable [starRange] mt := fun mt => ⟨1, Binary32.one, rfl, by decide⟩
  constructor
  · rintro ⟨ranges, -, mt, hmt, -⟩
    exact List.ne_nil_of_mem hmt
  · intro h
    obtain ⟨mt, hmt⟩ := List.exists_mem_of_ne_nil media h
    exact ⟨[starRange], rfl, mt, hmt, hstar mt⟩

section

variable [AppTypes] [HttpCrate]

/-- A header that is there and is no text. -/
def RequestData.Unreadable (req : RequestData) (name : HeaderName) : Prop :=
  ∃ value, req.headers.get name = some value ∧ HttpCrate.headerValueToStr value = none

/-- The text of such a header is that of an absent one. -/
theorem RequestData.Unreadable.headerText {req : RequestData} {name : HeaderName}
    (h : req.Unreadable name) : req.headerText name = none := by
  obtain ⟨value, hget, hread⟩ := h
  rw [RequestData.headerText, hget, Option.bind_some, hread]

/-- The terminal negotiates the media type of its response. -/
def Chain.Negotiates (chain : Chain) : Prop := ∀ M, chain.terminal ≠ .noContentVerb M

namespace Leaf

/-- An unreadable `Accept` is let through wherever there is a media type. -/
theorem acceptCheck_unreadable {chain : Chain} {req : RequestData} (hneg : chain.Negotiates)
    (h : req.Unreadable .ACCEPT) :
    chain.acceptCheck req.accept = .route () ↔ chain.terminal.mediaTypes ≠ [] := by
  have habsent : req.accept = none := h.headerText
  rw [habsent, Chain.acceptCheck_eq_route_iff hneg]
  exact negotiateMediaIndex_none_isSome_iff

variable [MimeCrate]

/-- An unreadable `Content-Type` is let through wherever octets are. -/
theorem contentTypeOk_unreadable {chain : Chain} {req : RequestData} {types : List Mime}
    (hbody : chain.requestContentTypes = some types) (h : req.Unreadable .CONTENT_TYPE) :
    contentTypeOk chain req = types.any (mediaTypeMatches · .APPLICATION_OCTET_STREAM) := by
  have habsent : req.contentType = none := h.headerText
  rw [contentTypeOk, hbody, habsent]
  rfl

/-- The checks before the one of `Accept` let a request through. -/
structure Reaches (chain : Chain) (req : RequestData) (captures : List String)
    (capturedAll : Option (List String)) : Prop where
  captures : chain.validateCaptures captures 0 capturedAll = .route ()
  host : chain.hostCheck req = .route ()
  method : methodOk chain req = true

variable [Base64Crate]

section

variable {label : Nat} {chain : Chain} {handler : chain.Args → Except ServerError chain.Output}
  {context : Context} {req : RequestData} {tail captures : List String}
  {capturedAll : Option (List String)}

/-- What the checks of `Accept` and `Content-Type` make of a request that reaches them. -/
theorem call_of_reaches (h : Reaches chain req captures capturedAll) (w : World) :
    call (.endpoint label chain handler context) req tail captures capturedAll w
      = gated [chain.acceptCheck req.accept, require (contentTypeOk chain req) .err415]
          (inExtractState captures capturedAll context (runExtraction label chain handler req))
          (w.record (.call (.endpoint label chain handler context) tail captures capturedAll)) := by
  rw [call_endpoint_eq, gates, h.captures, h.host, h.method]
  rfl

theorem call_of_not_acceptCheck (h : Reaches chain req captures capturedAll)
    (haccept : chain.acceptCheck req.accept = .fail .err406) (w : World) :
    (call (.endpoint label chain handler context) req tail captures capturedAll w).1
      = .fail .err406 := by
  rw [call_of_reaches h, haccept]
  rfl

theorem call_of_not_contentTypeOk (h : Reaches chain req captures capturedAll)
    (haccept : chain.acceptCheck req.accept = .route ())
    (htype : contentTypeOk chain req = false) (w : World) :
    (call (.endpoint label chain handler context) req tail captures capturedAll w).1
      = .fail .err415 := by
  rw [call_of_reaches h, haccept, htype]
  rfl

/-- Past both checks a leaf does not fail recoverably. -/
theorem call_of_contentTypeOk (h : Reaches chain req captures capturedAll)
    (haccept : chain.acceptCheck req.accept = .route ())
    (htype : contentTypeOk chain req = true) (w : World) (e : ServerError) :
    (call (.endpoint label chain handler context) req tail captures capturedAll w).1 ≠ .fail e := by
  rw [call_of_reaches h, haccept, htype]
  exact runExtraction_ne_fail h.captures _ e

end

section

variable (label : Nat) (chain : Chain) (handler : chain.Args → Except ServerError chain.Output)
  (context : Context) (req : RequestData) (tail captures : List String)
  (capturedAll : Option (List String))

/-- A negotiation header that is there is never taken for an absent one: an `Accept` that is no text
is answered as one that cannot be parsed, and a `Content-Type` that is none as one that does not
match. -/
structure RejectsUnreadable : Prop where
  accept : Reaches chain req captures capturedAll → chain.Negotiates → req.Unreadable .ACCEPT →
    ∀ w, (call (.endpoint label chain handler context) req tail captures capturedAll w).1
      = .fail .err406
  contentType : Reaches chain req captures capturedAll →
    chain.acceptCheck req.accept = .route () → chain.requestContentTypes ≠ none →
    req.Unreadable .CONTENT_TYPE →
    ∀ w, (call (.endpoint label chain handler context) req tail captures capturedAll w).1
      = .fail .err415

/-- What stands for an absent header is rejected as well: there is no media type to answer in, and
the body is never octets. -/
structure RejectsDefaults : Prop where
  accept : Reaches chain req captures capturedAll → chain.Negotiates → req.Unreadable .ACCEPT →
    chain.terminal.mediaTypes = []
  contentType : Reaches chain req captures capturedAll →
    chain.acceptCheck req.accept = .route () → req.Unreadable .CONTENT_TYPE →
    ∀ types, chain.requestContentTypes = some types →
      types.any (mediaTypeMatches · .APPLICATION_OCTET_STREAM) = false

/-- **An unreadable header is rejected exactly where its default is.** -/
theorem rejectsUnreadable_iff :
    RejectsUnreadable label chain handler context req tail captures capturedAll
      ↔ RejectsDefaults chain req captures capturedAll := by
  let w : World := .new [] 0
  constructor
  · intro h
    refine ⟨fun hreach hneg hun => ?_, fun hreach haccept hun types hbody => ?_⟩
    · by_contra hmedia
      have hroute : chain.acceptCheck req.accept = .route () :=
        (acceptCheck_unreadable hneg hun).mpr hmedia
      have h406 := h.accept hreach hneg hun w
      cases htype : contentTypeOk chain req with
      | true  => exact call_of_contentTypeOk hreach hroute htype w _ h406
      | false =>
          rw [call_of_not_contentTypeOk hreach hroute htype] at h406
          exact absurd (congrArg ServerError.code (RouteResult.fail.inj h406)) (by decide)
    · have h415 := h.contentType hreach haccept (by simp [hbody]) hun w
      rw [← contentTypeOk_unreadable hbody hun, ← Bool.not_eq_true]
      exact fun htype => call_of_contentTypeOk hreach haccept htype w _ h415
  · intro h
    refine ⟨fun hreach hneg hun w => ?_, fun hreach haccept hbody hun w => ?_⟩
    · refine call_of_not_acceptCheck hreach ?_ w
      rcases Chain.acceptCheck_eq chain req.accept with hroute | hfail
      · exact absurd (h.accept hreach hneg hun) ((acceptCheck_unreadable hneg hun).mp hroute)
      · exact hfail
    · obtain ⟨types, hbody⟩ := Option.ne_none_iff_exists'.mp hbody
      refine call_of_not_contentTypeOk hreach haccept ?_ w
      rw [contentTypeOk_unreadable hbody hun]
      exact h.contentType hreach haccept hun types hbody

end

end Leaf

end

/-! ### A request with a byte beyond ASCII -/

section

attribute [local instance] AppTypes.reference HttpCrate.reference MimeCrate.reference
  Base64Crate.reference

/-- `GET`, answered in JSON. -/
def jsonGet : Chain :=
  .verb (.verb .GET .OK String [⟨.Json, fun s => .ok (utf8Bytes s), fun _ => .ok ""⟩])

/-- A request whose `Accept` is one byte beyond ASCII. -/
def unreadableAccept : RequestData :=
  { RequestData.ofMethod .GET () with headers := [(.ACCEPT, [0xFF])] }

theorem unreadable_accept_served :
    ¬ ∀ (chain : Chain) (handler : chain.Args → Except ServerError chain.Output)
      (context : Context) (req : RequestData) (captures : List String)
      (capturedAll : Option (List String)),
      Leaf.RejectsUnreadable 0 chain handler context req [] captures capturedAll := by
  intro h
  have h406 := (h jsonGet (fun _ => .ok "") .new unreadableAccept [] none).accept
    ⟨rfl, rfl, by decide⟩ nofun ⟨[0xFF], rfl, rfl⟩ (.new [] 0)
  cases h406

end

end ServantRs
