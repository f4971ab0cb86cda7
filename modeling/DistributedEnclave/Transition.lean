import Mathlib.Logic.Relation

/-! Reachable states of a step relation, the invariant rule, the rule that carries runs of
one system over to runs of another, and traces whose events are justified by their past. -/
namespace DistributedEnclave.Transition
universe u v
variable {σ : Type u} {τ : Type v}

def Reachable (init : σ → Prop) (step : σ → σ → Prop) (s : σ) : Prop :=
  ∃ s₀, init s₀ ∧ Relation.ReflTransGen step s₀ s

variable {init : σ → Prop} {step : σ → σ → Prop}

theorem Reachable.start {s : σ} (h : init s) : Reachable init step s := ⟨s, h, .refl⟩

theorem Reachable.next {s s' : σ} (h : Reachable init step s) (hstep : step s s') :
    Reachable init step s' := by
  obtain ⟨s₀, h₀, hrun⟩ := h
  exact ⟨s₀, h₀, hrun.tail hstep⟩

/-- What holds initially and is kept by every step holds in every reachable state. -/
theorem Reachable.invariant {I : σ → Prop} (hinit : ∀ s, init s → I s)
    (hstep : ∀ s s', I s → step s s' → I s') {s : σ} (h : Reachable init step s) : I s := by
  obtain ⟨s₀, h₀, hrun⟩ := h
  induction hrun with
  | refl => exact hinit _ h₀
  | tail _ hlast ih => exact hstep _ _ ih hlast

/-- The invariant rule where a step may be judged by an invariant that is known already. -/
theorem Reachable.invariant_under {I J : σ → Prop} (hI : ∀ s, Reachable init step s → I s)
    (hinit : ∀ s, init s → J s) (hstep : ∀ s s', I s → J s → step s s' → J s') {s : σ}
    (h : Reachable init step s) : J s := by
  obtain ⟨s₀, h₀, hrun⟩ := h
  induction hrun with
  | refl => exact hinit _ h₀
  | tail hrun hlast ih => exact hstep _ _ (hI _ ⟨s₀, h₀, hrun⟩) ih hlast

/-- Every concrete step is an abstract step or leaves the abstract state alone. -/
theorem Reachable.refine {init' : τ → Prop} {step' : τ → τ → Prop} {I : σ → Prop} (f : σ → τ)
    (hI : ∀ s, Reachable init step s → I s) (hinit : ∀ s, init s → init' (f s))
    (hstep : ∀ s s', I s → step s s' → f s' = f s ∨ step' (f s) (f s')) {s : σ}
    (h : Reachable init step s) : Reachable init' step' (f s) := by
  refine Reachable.invariant_under (J := fun s => Reachable init' step' (f s)) hI
    (fun s hs => Reachable.start (hinit s hs)) ?_ h
  intro s s' hs hr hstep'
  cases hstep s s' hs hstep' with
  | inl heq => rwa [heq]
  | inr habs => exact hr.next habs

section Traces
variable {ε : Type u}

def Justified (P : List ε → ε → Prop) (trace : List ε) : Prop :=
  ∀ before e after, trace = before ++ e :: after → P before e

theorem Justified.nil {P : List ε → ε → Prop} : Justified P [] := by
  intro before e after h
  simp at h

theorem Justified.concat {P : List ε → ε → Prop} {trace : List ε} (h : Justified P trace) {e : ε}
    (he : P trace e) : Justified P (trace ++ [e]) := by
  intro before x after heq
  cases List.eq_nil_or_concat after with
  | inl hnil =>
    subst hnil
    obtain ⟨rfl, hx⟩ := List.append_inj' heq rfl
    obtain rfl := List.singleton_inj.mp hx
    exact he
  | inr hcons =>
    obtain ⟨after, y, rfl⟩ := hcons
    rw [List.concat_eq_append, ← List.cons_append, ← List.append_assoc] at heq
    exact h before x after (List.append_inj' heq rfl).1

theorem Justified.append {P : List ε → ε → Prop} {trace : List ε} (h : Justified P trace)
    {events : List ε} (he : ∀ e ∈ events, ∀ before, P before e) :
    Justified P (trace ++ events) := by
  induction events generalizing trace with
  | nil => rwa [List.append_nil]
  | cons e events ih =>
    rw [List.append_cons]
    exact ih (h.concat (he e List.mem_cons_self trace))
      (fun x hx => he x (List.mem_cons_of_mem e hx))

end Traces

end DistributedEnclave.Transition
