import Mathlib.Data.List.Basic

/-!
# Support — machines

A machine has states it may start in and labelled steps.  What holds at the start and is kept by
every step holds along every run (`Run.invariant`, `Reachable.invariant`).  A machine whose steps
are another's, or change nothing the other knows of, reaches no state that the other does not
(`Refinement.reachable`).
-/

namespace ServantRs

universe u v w x

/-- A machine with labelled steps. -/
structure Machine (S : Type u) (E : Type v) where
  Init : S → Prop
  Step : S → E → S → Prop

namespace Machine

variable {S : Type u} {E : Type v} (M : Machine S E)

/-- Steps one after another, from a state. -/
inductive Path (s₀ : S) : List E → S → Prop
  | refl : Path s₀ [] s₀
  | step {es : List E} {s s' : S} {e : E} (t : Path s₀ es s) (h : M.Step s e s') :
      Path s₀ (es ++ [e]) s'

/-- A path from the start. -/
def Run (es : List E) (s : S) : Prop := ∃ s₀, M.Init s₀ ∧ M.Path s₀ es s

def Reachable (s : S) : Prop := ∃ es, M.Run es s

variable {M} {es es' : List E} {s s' s'' : S} {e : E}

theorem Path.one (h : M.Step s e s') : M.Path s [e] s' := Path.step .refl h

theorem Path.trans (t : M.Path s es s') (t' : M.Path s' es' s'') :
    M.Path s (es ++ es') s'' := by
  induction t' with
  | refl => rwa [List.append_nil]
  | step t' h ih =>
      rw [← List.append_assoc]
      exact ih.step h

/-- Steps that a function takes. -/
theorem path_of_foldlM {f : S → E → Option S} (hf : ∀ s e s', f s e = some s' → M.Step s e s')
    (h : es.foldlM f s = some s') : M.Path s es s' := by
  induction es generalizing s with
  | nil =>
      obtain rfl := Option.some.inj h
      exact .refl
  | cons e es ih =>
      rw [List.foldlM_cons] at h
      obtain ⟨s₁, h₁, h⟩ := Option.bind_eq_some_iff.mp h
      exact (Path.one (hf s e s₁ h₁)).trans (ih h)

/-- **What every step keeps is kept along a path.** -/
theorem Path.invariant {P : List E → S → Prop} (t : M.Path s es s') (start : P [] s)
    (step : ∀ es s e s', P es s → M.Step s e s' → P (es ++ [e]) s') : P es s' := by
  induction t with
  | refl => exact start
  | step t h ih => exact step _ _ _ _ ih h

theorem Reachable.path (h : M.Reachable s) (t : M.Path s es s') : M.Reachable s' := by
  obtain ⟨es₀, s₀, hs₀, t₀⟩ := h
  exact ⟨es₀ ++ es, s₀, hs₀, t₀.trans t⟩

theorem Reachable.step (h : M.Reachable s) (hs : M.Step s e s') : M.Reachable s' :=
  h.path (.one hs)

/-- **What holds at the start and is kept by every step holds along every run.** -/
theorem Run.invariant {P : List E → S → Prop} (start : ∀ s, M.Init s → P [] s)
    (step : ∀ es s e s', P es s → M.Step s e s' → P (es ++ [e]) s') (t : M.Run es s) :
    P es s := by
  obtain ⟨s₀, hs₀, t⟩ := t
  exact t.invariant (start s₀ hs₀) step

theorem Reachable.invariant {P : S → Prop} (start : ∀ s, M.Init s → P s)
    (step : ∀ s e s', P s → M.Step s e s' → P s') (t : M.Reachable s) : P s := by
  obtain ⟨es, t⟩ := t
  exact t.invariant (P := fun _ s => P s) start fun _ s e s' => step s e s'

/-- `M` as `A`: a step of `M` is one of `A`'s, or changes nothing that `A` knows of. -/
structure Refinement {T : Type w} {F : Type x} (M : Machine S E) (A : Machine T F) where
  abs : S → T
  init : ∀ {s}, M.Init s → A.Init (abs s)
  step : ∀ {s e s'}, M.Reachable s → M.Step s e s' →
    abs s' = abs s ∨ ∃ f, A.Step (abs s) f (abs s')

/-- **A refinement reaches what the machine it refines does.** -/
theorem Refinement.reachable {T : Type w} {F : Type x} {A : Machine T F} (R : Refinement M A)
    (t : M.Reachable s) : A.Reachable (R.abs s) := by
  obtain ⟨es, s₀, hs₀, t⟩ := t
  induction t with
  | refl => exact ⟨[], _, R.init hs₀, .refl⟩
  | step t h ih =>
      rcases R.step ⟨_, s₀, hs₀, t⟩ h with heq | ⟨f, hf⟩
      · rwa [heq]
      · exact ih.step hf

end Machine

end ServantRs
