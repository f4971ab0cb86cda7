import Mathlib.Data.List.Basic

/-! Two runs over the same steps that end in one state: they have been in one state all along, or
they have come together at a step. -/
namespace DistributedEnclave.Chains
variable {σ ι ε : Type} {f g : σ → ι → Except ε σ} {c c' d a a' b : σ} {x : ι} {xs : List ι}

theorem foldlM_cons_ok : (x :: xs).foldlM f c = .ok d ↔ ∃ b, f c x = .ok b ∧ xs.foldlM f b = .ok d := by
  rw [List.foldlM_cons]
  cases f c x with
  | error e => simp [bind, Except.bind]
  | ok b => simp [bind, Except.bind]

structure Merge (f g : σ → ι → Except ε σ) (c c' : σ) (xs : List ι) (x : ι) (a a' b : σ) :
    Prop where
  before : ∃ front back, xs = front ++ x :: back ∧ front.foldlM f c = .ok a ∧
    front.foldlM g c' = .ok a'
  left : f a x = .ok b
  right : g a' x = .ok b

theorem Merge.head (hf : f c x = .ok b) (hg : g c' x = .ok b) : Merge f g c c' (x :: xs) x c c' b :=
  ⟨⟨[], xs, rfl, rfl, rfl⟩, hf, hg⟩

theorem Merge.cons {y : ι} {e e' : σ} (hf : f c y = .ok e) (hg : g c' y = .ok e')
    (h : Merge f g e e' xs x a a' b) : Merge f g c c' (y :: xs) x a a' b := by
  obtain ⟨front, back, rfl, ha, ha'⟩ := h.before
  refine ⟨⟨y :: front, back, rfl, ?_, ?_⟩, h.left, h.right⟩
  · exact foldlM_cons_ok.mpr ⟨e, hf, ha⟩
  · exact foldlM_cons_ok.mpr ⟨e', hg, ha'⟩

/-- Two runs that end alike start alike and pass every step alike, unless they come together at one
of the steps. -/
theorem alike_or_merge (hf : xs.foldlM f c = .ok d) (hg : xs.foldlM g c' = .ok d) :
    (c = c' ∧ ∀ x ∈ xs, ∃ a b, Merge f g c c' xs x a a b) ∨
      ∃ x a a' b, Merge f g c c' xs x a a' b ∧ a ≠ a' := by
  induction xs generalizing c c' with
  | nil =>
    cases hf
    cases hg
    exact .inl ⟨rfl, fun x hx => by cases hx⟩
  | cons y xs ih =>
    obtain ⟨e, hfy, hf⟩ := foldlM_cons_ok.mp hf
    obtain ⟨e', hgy, hg⟩ := foldlM_cons_ok.mp hg
    cases ih hf hg with
    | inr hmerge =>
      obtain ⟨x, a, a', b, hmerge, hne⟩ := hmerge
      exact .inr ⟨x, a, a', b, hmerge.cons hfy hgy, hne⟩
    | inl hsame =>
      obtain ⟨rfl, hall⟩ := hsame
      by_cases hne : c = c'
      · subst hne
        refine .inl ⟨rfl, fun x hx => ?_⟩
        cases hx with
        | head => exact ⟨c, e, .head hfy hgy⟩
        | tail _ hx =>
          obtain ⟨a, b, hmerge⟩ := hall x hx
          exact ⟨a, b, hmerge.cons hfy hgy⟩
      · exact .inr ⟨y, c, c', e, .head hfy hgy, hne⟩

end DistributedEnclave.Chains
