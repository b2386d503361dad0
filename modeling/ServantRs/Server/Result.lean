import ServantRs.Core.Error
import ServantRs.Support.LeftMax

/-!
# Server — routing results

An attempt to serve a request along one route answers (`route`), does not apply (`fail`, the next
sibling is tried) or commits to an error (`failFatal`).  Of two errors the one of higher
`priority` is kept, the left one when they tie (`combineFail`).

`RouteM σ` is a computation with a state that ends in such a result; the state stays as it is
left when a route does not apply.  `orElse` tries a second computation when the first does not
apply.
-/

namespace ServantRs

/-- The outcome of one route. -/
inductive RouteResult (T : Type) where
  | route (t : T)
  | fail (e : ServerError)
  | failFatal (e : ServerError)
deriving DecidableEq

namespace RouteResult

variable {T U : Type}

/-- The second result, once the first is an answer. -/
def andThen : RouteResult T → RouteResult U → RouteResult U
  | route _,     r => r
  | fail e,      _ => fail e
  | failFatal e, _ => failFatal e

end RouteResult

/-- `404 < 405 < 401 < 415 < 406 < (others) < 400`. -/
def priority (status : Nat) : Nat :=
  match status with
  | 404 => 0
  | 405 => 1
  | 401 => 2
  | 415 => 3
  | 406 => 4
  | 400 => 6
  | _   => 5

/-- The best error so far against a newer one. -/
def combineFail : Option ServerError → ServerError → ServerError
  | none,   new => new
  | some b, new => if priority b.code < priority new.code then new else b

/-- The error of a route that does not match. -/
def notFound : ServerError := .err404

/-- A computation over a state `σ` that ends in a routing result. -/
def RouteM (σ : Type*) (T : Type) := σ → RouteResult T × σ

namespace RouteM

variable {σ : Type*} {T U : Type}

def pure (t : T) : RouteM σ T := fun s => (.route t, s)

def fail (e : ServerError) : RouteM σ T := fun s => (.fail e, s)

def failFatal (e : ServerError) : RouteM σ T := fun s => (.failFatal e, s)

def bind (x : RouteM σ T) (k : T → RouteM σ U) : RouteM σ U := fun s =>
  match x s with
  | (.route t, s')     => k t s'
  | (.fail e, s')      => (.fail e, s')
  | (.failFatal e, s') => (.failFatal e, s')

instance : Monad (RouteM σ) where
  pure := pure
  bind := bind

/-- A result reached without touching the state. -/
def ofResult (r : RouteResult T) : RouteM σ T := fun s => (r, s)

/-- A change of state. -/
def modify (f : σ → σ) : RouteM σ Unit := fun s => (.route (), f s)

/-- `x`, and `y` when `x` does not apply; of two errors the better is kept. -/
def orElse (x y : RouteM σ T) : RouteM σ T := fun s =>
  match x s with
  | (.fail e₁, s') =>
    match y s' with
    | (.fail e₂, s'') => (.fail (combineFail (some e₁) e₂), s'')
    | r               => r
  | r => r

end RouteM

/-! ### Errors -/

theorem combineFail_some (b new : ServerError) :
    combineFail (some b) new = leftMax (fun e => priority e.code) b new := rfl

theorem priority_eq_zero {n : Nat} : priority n = 0 ↔ n = 404 := by
  constructor
  · intro h
    unfold priority at h
    split at h <;> simp_all
  · rintro rfl
    rfl

theorem combineFail_assoc (a b c : ServerError) :
    combineFail (some (combineFail (some a) b)) c = combineFail (some a) (combineFail (some b) c) := by
  simp only [combineFail_some, leftMax_assoc]

/-- A route that does not match is no better than an earlier error. -/
theorem combineFail_notFound (e : ServerError) : combineFail (some e) notFound = e := by
  rw [combineFail_some]
  exact leftMax_of_le (Nat.zero_le _)

/-- An error that is not a 404 is better than a route that does not match. -/
theorem notFound_combineFail {e : ServerError} (h : e.code ≠ 404) :
    combineFail (some notFound) e = e := by
  have hp : priority e.code ≠ 0 := fun h0 => h (priority_eq_zero.mp h0)
  rw [combineFail_some]
  exact leftMax_of_lt (Nat.pos_of_ne_zero hp)

/-- Of two errors, one is kept. -/
theorem combineFail_eq_or (b new : ServerError) :
    combineFail (some b) new = b ∨ combineFail (some b) new = new := by
  rw [combineFail_some]
  exact leftMax_eq_or b new

namespace RouteResult

variable {T U : Type}

theorem of_andThen_eq_route {r : RouteResult T} {r' : RouteResult U} {u : U}
    (h : r.andThen r' = .route u) : (∃ t, r = .route t) ∧ r' = .route u := by
  cases r with
  | route t => exact ⟨⟨t, rfl⟩, h⟩
  | fail e => cases h
  | failFatal e => cases h

/-- A recoverable 404 is the plain one. -/
def Canonical (r : RouteResult T) : Prop := ∀ e, r = .fail e → e.code = 404 → e = notFound

theorem canonical_route (t : T) : (route t).Canonical := fun _ h => nomatch h

theorem canonical_fail {e : ServerError} (h : e.code = 404 → e = notFound) :
    (fail e : RouteResult T).Canonical := by
  intro e' he hcode
  obtain rfl := RouteResult.fail.inj he
  exact h hcode

theorem Canonical.andThen {r : RouteResult T} {r' : RouteResult U} (hr : r.Canonical)
    (hr' : r'.Canonical) : (r.andThen r').Canonical := by
  intro e h hcode
  cases r with
  | route t => exact hr' e h hcode
  | fail e' =>
      obtain rfl := RouteResult.fail.inj h
      exact hr e' rfl hcode
  | failFatal e' => cases h

end RouteResult

/-! ### One computation after another -/

namespace RouteM

variable {σ : Type*} {T U : Type} {x : RouteM σ T} {k : T → RouteM σ U} {s s' : σ}

theorem bind_route {t : T} (h : x s = (.route t, s')) : (x >>= k) s = k t s' := by
  show RouteM.bind x k s = k t s'
  rw [RouteM.bind, h]

theorem bind_fail {e : ServerError} (h : x s = (.fail e, s')) : (x >>= k) s = (.fail e, s') := by
  show RouteM.bind x k s = (.fail e, s')
  rw [RouteM.bind, h]

theorem bind_failFatal {e : ServerError} (h : x s = (.failFatal e, s')) :
    (x >>= k) s = (.failFatal e, s') := by
  show RouteM.bind x k s = (.failFatal e, s')
  rw [RouteM.bind, h]

/-- An answer of two computations is an answer of both. -/
theorem of_bind_eq_route {u : U} {s'' : σ} (h : (x >>= k) s = (.route u, s'')) :
    ∃ t s', x s = (.route t, s') ∧ k t s' = (.route u, s'') := by
  rcases hx : x s with ⟨t | _ | _, s'⟩
  · rw [bind_route hx] at h
    exact ⟨t, s', rfl, h⟩
  · rw [bind_fail hx] at h
    cases h
  · rw [bind_failFatal hx] at h
    cases h

/-- Passing a result on changes nothing. -/
theorem bind_pure (x : RouteM σ T) : (x >>= fun t => pure t) = x := by
  funext s
  rcases h : x s with ⟨_ | _ | _, s'⟩
  · rw [bind_route h]; rfl
  · rw [bind_fail h]
  · rw [bind_failFatal h]

/-- A computation behind gates: the first that does not let through is the result. -/
def gated (gates : List (RouteResult Unit)) (x : RouteM σ T) : RouteM σ T :=
  gates.foldr (fun r x => ofResult r >>= fun _ => x) x

theorem gated_of_pass {gates : List (RouteResult Unit)} (h : ∀ r ∈ gates, r = .route ()) :
    gated gates x = x := by
  induction gates with
  | nil => rfl
  | cons r gates ih =>
      obtain ⟨rfl, hrest⟩ := List.forall_mem_cons.mp h
      exact ih hrest

/-- A gate that does not let through is the result, and nothing is touched. -/
theorem gated_of_stop {gates : List (RouteResult Unit)} (h : ¬ ∀ r ∈ gates, r = .route ())
    (x : RouteM σ T) (s : σ) :
    (∃ e, .fail e ∈ gates ∧ gated gates x s = (.fail e, s)) ∨
      (∃ e, .failFatal e ∈ gates ∧ gated gates x s = (.failFatal e, s)) := by
  induction gates with
  | nil => exact absurd (fun r hr => nomatch hr) h
  | cons r gates ih =>
      cases r with
      | route t =>
          have hrest : ¬ ∀ r ∈ gates, r = .route () :=
            fun hall => h (List.forall_mem_cons.mpr ⟨rfl, hall⟩)
          rcases ih hrest with ⟨e, hmem, heq⟩ | ⟨e, hmem, heq⟩
          · exact .inl ⟨e, List.mem_cons_of_mem _ hmem, heq⟩
          · exact .inr ⟨e, List.mem_cons_of_mem _ hmem, heq⟩
      | fail e => exact .inl ⟨e, List.mem_cons_self, rfl⟩
      | failFatal e => exact .inr ⟨e, List.mem_cons_self, rfl⟩

/-- What is behind the gates matters only when all let through. -/
theorem gated_congr {gates : List (RouteResult Unit)} {x y : RouteM σ T}
    (h : (∀ r ∈ gates, r = .route ()) → x = y) : gated gates x = gated gates y := by
  induction gates with
  | nil => exact h (by simp)
  | cons r gates ih =>
      cases r with
      | route t =>
          have hrest : gated gates x = gated gates y :=
            ih fun hall => h (List.forall_mem_cons.mpr ⟨rfl, hall⟩)
          exact hrest
      | fail e => rfl
      | failFatal e => rfl

end RouteM

/-! ### Trying one route after another -/

namespace RouteM

variable {σ : Type*} {T : Type}

theorem orElse_assoc (x y z : RouteM σ T) : (x.orElse y).orElse z = x.orElse (y.orElse z) := by
  funext s
  simp only [orElse]
  rcases x s with ⟨_ | e₁ | _, s₁⟩ <;> try rfl
  dsimp only
  rcases y s₁ with ⟨_ | e₂ | _, s₂⟩ <;> try rfl
  dsimp only
  rcases z s₂ with ⟨_ | e₃ | _, s₃⟩ <;> try rfl
  simp only [combineFail_assoc]

/-- Nothing is gained from a route that does not match. -/
theorem orElse_notFound (x : RouteM σ T) : x.orElse (fail notFound) = x := by
  funext s
  simp only [orElse, fail, combineFail_notFound]
  rcases x s with ⟨_ | _ | _, _⟩ <;> rfl

/-- A recoverable 404 of `x` is the plain one. -/
def Canonical (x : RouteM σ T) : Prop :=
  ∀ s e, (x s).1 = .fail e → e.code = 404 → e = notFound

theorem canonical_fail {e : ServerError} (h : e.code = 404 → e = notFound) :
    Canonical (fail e : RouteM σ T) := fun _ => RouteResult.canonical_fail h

theorem canonical_fail_notFound : Canonical (fail notFound : RouteM σ T) :=
  canonical_fail fun _ => rfl

theorem Canonical.orElse {x y : RouteM σ T} (hx : x.Canonical) (hy : y.Canonical) :
    (x.orElse y).Canonical := by
  intro s e h hc
  rcases hxs : x s with ⟨_ | e₁ | _, s₁⟩ <;> simp only [RouteM.orElse, hxs, reduceCtorEq] at h
  rcases hys : y s₁ with ⟨_ | e₂ | _, s₂⟩ <;> simp only [hys, reduceCtorEq] at h
  obtain rfl := RouteResult.fail.inj h
  rcases combineFail_eq_or e₁ e₂ with he | he <;> rw [he] at hc ⊢
  · exact hx s e₁ (by rw [hxs]) hc
  · exact hy s₁ e₂ (by rw [hys]) hc

theorem canonical_pure (t : T) : Canonical (pure t : RouteM σ T) := by
  rintro s e h -
  exact absurd h (by simp [pure])

theorem canonical_ofResult {r : RouteResult T} (h : r.Canonical) :
    Canonical (ofResult r : RouteM σ T) := fun _ => h

theorem canonical_modify (f : σ → σ) : Canonical (modify f) := by
  rintro s e h -
  exact absurd h (by simp [modify])

theorem Canonical.bind {U : Type} {x : RouteM σ T} {k : T → RouteM σ U} (hx : x.Canonical)
    (hk : ∀ t, (k t).Canonical) : (x >>= k).Canonical := by
  intro s e h hc
  change (RouteM.bind x k s).1 = .fail e at h
  rcases hxs : x s with ⟨t | e' | _, s'⟩ <;> simp only [RouteM.bind, hxs, reduceCtorEq] at h
  · exact hk t s' e h hc
  · obtain rfl := RouteResult.fail.inj h
    exact hx s e' (by rw [hxs]) hc

/-- A computation that never fails recoverably has no 404 to be plain. -/
theorem canonical_of_ne_fail {x : RouteM σ T} (h : ∀ s e, (x s).1 ≠ .fail e) : x.Canonical :=
  fun s e he => absurd he (h s e)

theorem canonical_gated {gates : List (RouteResult Unit)} {x : RouteM σ T}
    (hg : ∀ r ∈ gates, r.Canonical) (hx : x.Canonical) : (gated gates x).Canonical := by
  induction gates with
  | nil => exact hx
  | cons r gates ih =>
      obtain ⟨hr, hrest⟩ := List.forall_mem_cons.mp hg
      exact (canonical_ofResult hr).bind fun _ => ih hrest

/-- A route that does not match is as if it were not there. -/
theorem Canonical.notFound_orElse {x : RouteM σ T} (hx : x.Canonical) :
    (fail notFound : RouteM σ T).orElse x = x := by
  funext s
  simp only [RouteM.orElse, fail]
  rcases hxs : x s with ⟨_ | e | _, s'⟩ <;> try rfl
  dsimp only
  by_cases hc : e.code = 404
  · rw [hx s e (by rw [hxs]) hc, combineFail_notFound]
  · rw [notFound_combineFail hc]

end RouteM

end ServantRs
