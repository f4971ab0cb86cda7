import Mathlib.Logic.Relation
import Mathlib.Data.List.Basic

/-! Systems of parties that are kept in a list: what one party's step does to a count over all of
them, and runs in which every party is taken to its goal in turn. -/
namespace DistributedEnclave.Parties
variable {α : Type*} {σ : Type*}

theorem countP_set_add {l : List α} {i : Nat} {a : α} (h : l[i]? = some a) (b : α)
    (p : α → Bool) : (l.set i b).countP p+(if p a then 1 else 0) =
      l.countP p+(if p b then 1 else 0) := by
  induction l generalizing i with
  | nil => cases h
  | cons x l ih =>
    cases i with
    | zero =>
      obtain rfl : x = a := Option.some.inj h
      rw [List.set_cons_zero, List.countP_cons, List.countP_cons]
      omega
    | succ i =>
      have hl : l[i]? = some a := h
      rw [List.set_cons_succ, List.countP_cons, List.countP_cons]
      have hih := ih hl
      omega

/-- What holds of all parties, wherever they stand, is kept when it holds of the one that moves. -/
theorem forall_set {l : List α} {i : Nat} {b : α} {P : Nat → α → Prop}
    (h : ∀ j a, l[j]? = some a → P j a) (hb : P i b) {j : Nat} {a : α}
    (hj : (l.set i b)[j]? = some a) : P j a := by
  rw [List.getElem?_set] at hj
  split at hj
  · rename_i heq
    subst heq
    split at hj
    · exact Option.some.inj hj ▸ hb
    · cases hj
  · exact h j a hj

theorem get_set_self {l : List α} {i : Nat} {a : α} (h : l[i]? = some a) (b : α) :
    (l.set i b)[i]? = some b := by
  obtain ⟨hi, _⟩ := List.getElem?_eq_some_iff.mp h
  exact List.getElem?_set_self hi

/-- When every party can be taken to its goal without moving one that is there away from it, all
can be. -/
theorem all_in_turn {step : σ → σ → Prop} {I : σ → Prop} {P : Nat → σ → Prop} {n : Nat}
    (hadvance : ∀ i < n, ∀ s, I s → ∃ s', Relation.ReflTransGen step s s' ∧ I s' ∧ P i s' ∧
      ∀ j < n, P j s → P j s') {s : σ} (hs : I s) :
    ∃ s', Relation.ReflTransGen step s s' ∧ I s' ∧ ∀ i < n, P i s' := by
  have hfirst : ∀ m ≤ n, ∃ s', Relation.ReflTransGen step s s' ∧ I s' ∧ ∀ i < m, P i s' := by
    intro m
    induction m with
    | zero =>
      intro _
      exact ⟨s, .refl, hs, fun i hi => absurd hi (Nat.not_lt_zero i)⟩
    | succ m ih =>
      intro hm
      obtain ⟨s₁, hrun₁, hI₁, hP₁⟩ := ih (Nat.le_of_succ_le hm)
      obtain ⟨s₂, hrun₂, hI₂, hP, hkeep⟩ := hadvance m hm s₁ hI₁
      refine ⟨s₂, hrun₁.trans hrun₂, hI₂, fun i hi => ?_⟩
      cases Nat.lt_succ_iff_lt_or_eq.mp hi with
      | inl hlt => exact hkeep i (by omega) (hP₁ i hlt)
      | inr heq => exact heq ▸ hP
  exact hfirst n (Nat.le_refl n)

end DistributedEnclave.Parties
