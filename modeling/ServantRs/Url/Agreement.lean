import ServantRs.Url.Items

/-!
# Url — client and link agree

Corresponding arguments put the same items in a URL (`Chain.items_eq`), so the target of a
client's request is the link to the same endpoint, with plain array elements and without the
fragment, which a request does not have (`target_eq_renderWith`).
-/

namespace ServantRs

namespace Chain

section

variable [AppTypes]

/-- A client's and a link's arguments have the same path and query values.  The client's headers
and bodies are in no link, a link's fragment in no request. -/
def Corresponds : (c : Chain) → c.Args → c.LinkArgs → Prop
  | verb _, _, _ => True
  | sub (.capture ..) next, (a, args), (b, largs)     => a = b ∧ next.Corresponds args largs
  | sub (.captureAll ..) next, (a, args), (b, largs)  => a = b ∧ next.Corresponds args largs
  | sub (.queryParam ..) next, (a, args), (b, largs)  => a = b ∧ next.Corresponds args largs
  | sub (.queryParams ..) next, (a, args), (b, largs) => a = b ∧ next.Corresponds args largs
  | sub (.queryFlag _) next, (a, args), (b, largs)    => a = b ∧ next.Corresponds args largs
  | sub .queryString next, (a, args), (b, largs)      => a = b ∧ next.Corresponds args largs
  | sub (.deepQuery ..) next, (a, args), (b, largs)   => a = b ∧ next.Corresponds args largs
  | sub (.header ..) next, (_, args), largs     => next.Corresponds args largs
  | sub (.reqBody ..) next, (_, args), largs    => next.Corresponds args largs
  | sub (.streamBody ..) next, (_, args), largs => next.Corresponds args largs
  | sub .vault next, (_, args), largs            => next.Corresponds args largs
  | sub (.withResource _) next, (_, args), largs => next.Corresponds args largs
  | sub (.basicAuth ..) next, (_, args), largs   => next.Corresponds args largs
  | sub (.authProtect _) next, (_, args), largs  => next.Corresponds args largs
  | sub .isSecure next, (_, args), largs         => next.Corresponds args largs
  | sub .httpVersion next, (_, args), largs      => next.Corresponds args largs
  | sub .remoteHost next, (_, args), largs       => next.Corresponds args largs
  | sub (.fragment ..) next, args, (_, largs) => next.Corresponds args largs
  | sub (.path _) next, args, largs
  | sub (.host _) next, args, largs
  | sub (.description _) next, args, largs
  | sub (.summary _) next, args, largs
  | sub (.operationId _) next, args, largs
  | sub (.withNamedContext _) next, args, largs => next.Corresponds args largs

/-- Corresponding arguments put the same items in a URL. -/
theorem items_eq : ∀ (c : Chain) {args : c.Args} {largs : c.LinkArgs},
    c.Corresponds args largs → c.items args = c.linkItems largs
  | verb _, _, _, _ => rfl
  | sub (.path _) next, _, _, hc => congrArg (List.cons _) (items_eq next hc)
  | sub (.capture ..) next, (_, _), (_, _), ⟨rfl, hc⟩ => congrArg (List.cons _) (items_eq next hc)
  | sub (.captureAll ..) next, (_, _), (_, _), ⟨rfl, hc⟩ => congrArg (List.cons _) (items_eq next hc)
  | sub (.queryParam ..) next, (_, _), (_, _), ⟨rfl, hc⟩ => congrArg (List.cons _) (items_eq next hc)
  | sub (.queryParams ..) next, (_, _), (_, _), ⟨rfl, hc⟩ => congrArg (List.cons _) (items_eq next hc)
  | sub (.queryFlag _) next, (_, _), (_, _), ⟨rfl, hc⟩ => congrArg (List.cons _) (items_eq next hc)
  | sub .queryString next, (_, _), (_, _), ⟨rfl, hc⟩ => congrArg (List.cons _) (items_eq next hc)
  | sub (.deepQuery ..) next, (_, _), (_, _), ⟨rfl, hc⟩ => congrArg (List.cons _) (items_eq next hc)
  | sub (.header ..) next, (_, _), _, hc | sub (.reqBody ..) next, (_, _), _, hc
  | sub (.streamBody ..) next, (_, _), _, hc | sub .vault next, (_, _), _, hc
  | sub (.withResource _) next, (_, _), _, hc | sub (.basicAuth ..) next, (_, _), _, hc
  | sub (.authProtect _) next, (_, _), _, hc | sub .isSecure next, (_, _), _, hc
  | sub .httpVersion next, (_, _), _, hc | sub .remoteHost next, (_, _), _, hc
  | sub (.fragment ..) next, _, (_, _), hc
  | sub (.host _) next, _, _, hc | sub (.description _) next, _, _, hc
  | sub (.summary _) next, _, _, hc | sub (.operationId _) next, _, _, hc
  | sub (.withNamedContext _) next, _, _, hc => items_eq next hc

variable [PercentEncoding] [HttpCrate]

/-- **Client and link agree on the URL.**  The target of the request built for a call is the link
to the same endpoint with the same path and query values, without its fragment, rendered with
plain array elements and a leading slash. -/
theorem target_eq_renderWith (c : Chain) (h : c.HasClient) (args : c.Args) (largs : c.LinkArgs)
    {req : ClientRequest} (hb : c.buildRequest h args ClientRequest.new = .ok req)
    (hc : c.Corresponds args largs) :
    req.target = (c.link largs).dropFragment.renderWith .plain true := by
  calc req.target
      = (UrlParts.ofItems .plain (c.items args)).render := target_eq_items hb
    _ = ((c.link largs).url .plain).render := by rw [items_eq c hc, url_link]
    _ = (c.link largs).dropFragment.renderWith .plain true :=
        (Link.renderWith_dropFragment _ _).symm

end

/-! ### A search -/

section

attribute [local instance] PercentEncoding.reference AppTypes.reference HttpCrate.reference

def searchChain : Chain :=
  .sub (.path "users") (.sub (.capture String .string .strict "group") (.sub .queryString
    (.sub (.queryParams String .string "tag") (.sub (.queryFlag "all")
      (.sub (.fragment String .string "anchor") (.verb (.noContentVerb .GET)))))))

def searchArgs : searchChain.Args :=
  ("a/b", .fromRaw "page=2" [("page", some "2")], ["x", "y z"], true, ())

def searchLinkArgs : searchChain.LinkArgs :=
  ("a/b", .fromRaw "page=2" [("page", some "2")], ["x", "y z"], true, "top", ())

/-- Parameters after a raw query string. -/
theorem target_eq_renderWith_search :
    ∃ (h : searchChain.HasClient) (req : ClientRequest),
      searchChain.buildRequest h searchArgs .new = .ok req ∧
      req.target = (searchChain.link searchLinkArgs).dropFragment.renderWith .plain true := by
  have h : searchChain.HasClient := by simp [searchChain, Chain.HasClient, Comb.HasClient]
  have hc : searchChain.Corresponds searchArgs searchLinkArgs := ⟨rfl, rfl, rfl, rfl, trivial⟩
  exact ⟨h, _, rfl, target_eq_renderWith searchChain h searchArgs searchLinkArgs rfl hc⟩

end

end Chain

end ServantRs
