import DistributedEnclave.Transition
import Mathlib.Logic.Function.Basic

/-! Calls that claim a key of a shared set. A call prepares by itself, claims its key in one
atomic step that succeeds once for each key, and finishes by itself. Any number of calls run
at once, in any interleaving. -/
namespace DistributedEnclave.OneShot
open DistributedEnclave.Transition
universe u v

inductive Stage (P E A : Type u) where
  | ready
  | prepared (p : P)
  | claimed (p : P)
  | failed (e : E)
  | returned (p : P) (r : Except E A)

/-- The private phases of the calls, as relations: whatever may happen around them, these are
the outcomes they can have. -/
structure Protocol (ι : Type v) (K P E A : Type u) where
  key : P → K
  prepares : ι → Except E P → Prop
  finishes : ι → P → Except E A → Prop
  taken : E

def Stage.result {P E A : Type u} : Stage P E A → Option (Except E A)
  | .failed e => some (.error e)
  | .returned _ r => some r
  | _ => none

structure State (ι : Type v) (K P E A : Type u) where
  used : List K
  stage : ι → Stage P E A

section
variable {ι : Type v} [DecidableEq ι] {K P E A : Type u} (C : Protocol ι K P E A)

def State.setStage (s : State ι K P E A) (i : ι) (x : Stage P E A) : State ι K P E A :=
  { s with stage := Function.update s.stage i x }

@[simp] theorem State.setStage_self (s : State ι K P E A) (i : ι) (x : Stage P E A) :
    (s.setStage i x).stage i = x := Function.update_self ..

theorem State.setStage_ne (s : State ι K P E A) {i j : ι} (h : j ≠ i) (x : Stage P E A) :
    (s.setStage i x).stage j = s.stage j := Function.update_of_ne h ..

inductive Step : State ι K P E A → State ι K P E A → Prop
  | prepare {s i p} : s.stage i = .ready → C.prepares i (.ok p) →
      Step s (s.setStage i (.prepared p))
  | fail {s i e} : s.stage i = .ready → C.prepares i (.error e) →
      Step s (s.setStage i (.failed e))
  | claim {s i p} : s.stage i = .prepared p → C.key p ∉ s.used →
      Step s { s.setStage i (.claimed p) with used := C.key p::s.used }
  | refuse {s i p} : s.stage i = .prepared p → C.key p ∈ s.used →
      Step s (s.setStage i (.failed C.taken))
  | finish {s i p r} : s.stage i = .claimed p → C.finishes i p r →
      Step s (s.setStage i (.returned p r))

def Start (s : State ι K P E A) : Prop := ∀ i, s.stage i = .ready

abbrev Run (s : State ι K P E A) : Prop := Reachable Start (Step C) s

/-- A call holds its key from the moment it has claimed it. -/
def Stage.Owns (k : K) : Stage P E A → Prop
  | .claimed p => C.key p = k
  | .returned p (.ok _) => C.key p = k
  | _ => False

structure Inv (s : State ι K P E A) : Prop where
  used : ∀ i k, (s.stage i).Owns C k → k ∈ s.used
  unique : ∀ i j k, (s.stage i).Owns C k → (s.stage j).Owns C k → i = j

variable {C}

/-- A call that gains no key keeps the invariant. -/
theorem Inv.setStage {s : State ι K P E A} (h : Inv C s) {i : ι} {x : Stage P E A}
    (hx : ∀ k, x.Owns C k → (s.stage i).Owns C k) : Inv C (s.setStage i x) := by
  have howns : ∀ j k, ((s.setStage i x).stage j).Owns C k → (s.stage j).Owns C k := by
    intro j k hown
    by_cases hj : j = i
    · subst hj
      rw [State.setStage_self] at hown
      exact hx k hown
    · rwa [s.setStage_ne hj] at hown
  exact ⟨fun j k hown => h.used j k (howns j k hown),
    fun j j' k hown hown' => h.unique j j' k (howns j k hown) (howns j' k hown')⟩

theorem Inv.claim {s : State ι K P E A} (h : Inv C s) {i : ι} {p : P}
    (hfree : C.key p ∉ s.used) :
    Inv C { s.setStage i (.claimed p) with used := C.key p::s.used } := by
  have howns : ∀ j k, ((s.setStage i (.claimed p)).stage j).Owns C k →
      (j = i ∧ k = C.key p) ∨ (j ≠ i ∧ (s.stage j).Owns C k) := by
    intro j k hown
    by_cases hj : j = i
    · subst hj
      rw [State.setStage_self] at hown
      exact .inl ⟨rfl, hown.symm⟩
    · rw [s.setStage_ne hj] at hown
      exact .inr ⟨hj, hown⟩
  refine ⟨?_, ?_⟩
  · intro j k hown
    cases howns j k hown with
    | inl hself => exact hself.2 ▸ List.mem_cons_self
    | inr hother => exact List.mem_cons_of_mem _ (h.used j k hother.2)
  · intro j j' k hown hown'
    -- the new key has no owner yet, because it is not in the set
    cases howns j k hown with
    | inl hself =>
      cases howns j' k hown' with
      | inl hself' => exact hself.1.trans hself'.1.symm
      | inr hother' => exact absurd (hself.2 ▸ h.used j' k hother'.2) hfree
    | inr hother =>
      cases howns j' k hown' with
      | inl hself' => exact absurd (hself'.2 ▸ h.used j k hother.2) hfree
      | inr hother' => exact h.unique j j' k hother.2 hother'.2

theorem Inv.step {s s' : State ι K P E A} (h : Inv C s) (hstep : Step C s s') : Inv C s' := by
  cases hstep with
  | prepare => exact h.setStage fun k hk => hk.elim
  | fail => exact h.setStage fun k hk => hk.elim
  | claim _ hfree => exact h.claim hfree
  | refuse => exact h.setStage fun k hk => hk.elim
  | @finish i p r hstage _ =>
    refine h.setStage fun k hk => ?_
    rw [hstage]
    cases r with
    | error e => exact hk.elim
    | ok a => exact hk

theorem Run.inv {s : State ι K P E A} (h : Run C s) : Inv C s := by
  refine Reachable.invariant (I := Inv C) ?_ (fun s s' hs hstep => hs.step hstep) h
  intro s hs
  have hnone : ∀ i k, ¬(s.stage i).Owns C k := fun i k hown => by
    rw [hs i] at hown
    exact hown
  exact ⟨fun i k hown => absurd hown (hnone i k), fun i j k hown => absurd hown (hnone i k)⟩

/-- No two calls with one key return successfully. -/
theorem Run.unique {s : State ι K P E A} (h : Run C s) {i j : ι} {p q : P} {a b : A}
    (hi : s.stage i = .returned p (.ok a)) (hj : s.stage j = .returned q (.ok b))
    (hkey : C.key p = C.key q) : i = j := by
  refine h.inv.unique i j (C.key q) ?_ ?_
  · rw [hi]
    exact hkey
  · rw [hj]
    exact rfl

/-- What a call has returned comes from its own phases. -/
theorem Run.returned {s : State ι K P E A} (h : Run C s) {i : ι} {p : P} {r : Except E A}
    (hi : s.stage i = .returned p r) : C.prepares i (.ok p) ∧ C.finishes i p r := by
  let I : ι → Stage P E A → Prop := fun i x => match x with
    | .prepared p | .claimed p => C.prepares i (.ok p)
    | .returned p r => C.prepares i (.ok p) ∧ C.finishes i p r
    | _ => True
  have hset : ∀ {s : State ι K P E A} {i x}, (∀ j, I j (s.stage j)) → I i x →
      ∀ j, I j ((s.setStage i x).stage j) := by
    intro s i x hs hx j
    by_cases hj : j = i
    · subst hj
      rwa [State.setStage_self]
    · rw [s.setStage_ne hj]
      exact hs j
  have hI : ∀ j, I j (s.stage j) := by
    refine Reachable.invariant (I := fun s => ∀ j, I j (s.stage j)) ?_ ?_ h
    · intro s hs j
      rw [hs j]
      exact trivial
    · intro s s' hs hstep
      cases hstep with
      | prepare _ hp => exact hset hs hp
      | fail => exact hset hs trivial
      | @claim i p hstage _ =>
        have hp := hs i
        rw [hstage] at hp
        exact hset hs hp
      | refuse => exact hset hs trivial
      | @finish i p r hstage hfin =>
        have hp := hs i
        rw [hstage] at hp
        exact hset hs ⟨hp, hfin⟩
  have := hI i
  rwa [hi] at this

end
end DistributedEnclave.OneShot
