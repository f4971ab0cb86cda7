import Mathlib.Logic.Basic

/-! Inversion rules for computations that can fail, first without and then with
a state that survives the failure. A successful run is taken apart into the
successful runs of its parts; a guard that throws becomes a side condition. -/
namespace DistributedEnclave.Outcome
universe u
variable {ε σ α β : Type u}

theorem bind_eq_ok (x : Except ε α) (f : α → Except ε β) (b : β) :
    (x >>= f) = .ok b ↔ ∃ a, x = .ok a ∧ f a = .ok b := by
  cases x with
  | error e => simp [bind, Except.bind]
  | ok a => simp [bind, Except.bind]

theorem bind_eq_error (x : Except ε α) (f : α → Except ε β) (e : ε) :
    (x >>= f) = .error e ↔ x = .error e ∨ ∃ a, x = .ok a ∧ f a = .error e := by
  cases x with
  | error e' => simp [bind, Except.bind]
  | ok a => simp [bind, Except.bind]

theorem ok_mapError {ε' : Type u} (f : ε → ε') (a : α) :
    (Except.ok a : Except ε α).mapError f = .ok a := rfl

theorem error_mapError {ε' : Type u} (f : ε → ε') (e : ε) :
    (Except.error e : Except ε α).mapError f = .error (f e) := rfl

theorem mapError_ok {ε' : Type u} {x : Except ε α} {f : ε → ε'} {a : α} :
    x.mapError f = .ok a ↔ x = .ok a := by
  cases x with
  | ok a' => rw [ok_mapError, Except.ok.injEq, Except.ok.injEq]
  | error e =>
    rw [error_mapError]
    exact iff_of_false (by simp) (by simp)

@[simp] theorem ok_bind (a : α) (f : α → Except ε β) : (Except.ok a >>= f) = f a := rfl

@[simp] theorem error_bind (e : ε) (f : α → Except ε β) :
    (Except.error e >>= f) = Except.error e := rfl

@[simp] theorem pure_eq_ok (a : α) : (pure a : Except ε α) = .ok a := rfl

@[simp] theorem throw_eq_error (e : ε) : (throw e : Except ε α) = .error e := rfl

/-- A guard in front of a computation succeeds with it and only when it lets it pass. -/
theorem guard_eq_ok (p : Prop) [Decidable p] (e : ε) (x : Except ε α) (a : α) :
    (if p then Except.error e else x) = .ok a ↔ ¬p ∧ x = .ok a := by
  split <;> simp_all

def Avoids (e : ε) (x : Except ε α) : Prop := x ≠ .error e

section
variable {e : ε}

theorem Avoids.ok (a : α) : Avoids e (.ok a) := fun h => nomatch h

theorem Avoids.error {e' : ε} (h : e' ≠ e) : Avoids e (.error e' : Except ε α) :=
  fun hc => h (Except.error.inj hc)

/-- The continuation need avoid the error only after what the first part can return. -/
theorem Avoids.bind {x : Except ε α} {f : α → Except ε β} (hx : Avoids e x)
    (hf : ∀ a, x = .ok a → Avoids e (f a)) : Avoids e (x >>= f) := by
  intro h
  rcases (bind_eq_error x f e).mp h with h | ⟨a, ha, h⟩
  · exact hx h
  · exact hf a ha h

theorem Avoids.ite {p : Prop} [Decidable p] {x y : Except ε α} (hx : p → Avoids e x)
    (hy : ¬p → Avoids e y) : Avoids e (if p then x else y) := by
  split
  · exact hx ‹_›
  · exact hy ‹_›

end

/-- A failing computation over a state that keeps the changes made before the failure. -/
abbrev Effect (ε σ α : Type u) := ExceptT ε (StateM σ) α

def exec (x : Effect ε σ α) (s : σ) : Except ε α × σ := x.run.run s

@[simp] theorem exec_pure (a : α) (s : σ) :
    exec (pure a : Effect ε σ α) s = (.ok a, s) := rfl

@[simp] theorem exec_throw (e : ε) (s : σ) :
    exec (throw e : Effect ε σ α) s = (.error e, s) := rfl

@[simp] theorem exec_lift (x : Except ε α) (s : σ) :
    exec (liftM x : Effect ε σ α) s = (x, s) := rfl

@[simp] theorem exec_get (s : σ) : exec (get : Effect ε σ σ) s = (.ok s, s) := rfl

theorem exec_modify (f : σ → σ) (s : σ) :
    exec (modify f : Effect ε σ PUnit) s = (.ok ⟨⟩, f s) := rfl

theorem exec_bind (x : Effect ε σ α) (f : α → Effect ε σ β) (s : σ) :
    exec (x >>= f) s =
      match exec x s with
      | (.ok a, s') => exec (f a) s'
      | (.error e, s') => (.error e, s') := by
  simp only [exec, ExceptT.run_bind, StateT.run_bind]
  rcases x.run.run s with ⟨r, s'⟩
  cases r <;> rfl

theorem exec_lift_ok_bind (a : α) (f : α → Effect ε σ β) (s : σ) :
    exec (liftM (.ok a : Except ε α) >>= f) s = exec (f a) s := rfl

theorem exec_bind_ok (x : Effect ε σ α) (f : α → Effect ε σ β) (s s' : σ) (b : β) :
    exec (x >>= f) s = (.ok b, s') ↔
      ∃ a s₁, exec x s = (.ok a, s₁) ∧ exec (f a) s₁ = (.ok b, s') := by
  rw [exec_bind]
  rcases exec x s with ⟨r, s₁⟩
  cases r with
  | error e => simp
  | ok a =>
    constructor
    · exact fun h => ⟨a, s₁, rfl, h⟩
    · intro h
      obtain ⟨a', s₂, h, hf⟩ := h
      cases h
      exact hf

/-- Lifting a pure computation in front of an effect keeps the state. -/
theorem exec_lift_bind_ok (x : Except ε α) (f : α → Effect ε σ β) (s s' : σ) (b : β) :
    exec (liftM x >>= f) s = (.ok b, s') ↔
      ∃ a, x = .ok a ∧ exec (f a) s = (.ok b, s') := by
  rw [exec_bind_ok]
  constructor
  · intro h
    obtain ⟨a, s₁, hx, hf⟩ := h
    simp only [exec_lift, Prod.mk.injEq] at hx
    exact ⟨a, hx.1, hx.2 ▸ hf⟩
  · intro h
    obtain ⟨a, hx, hf⟩ := h
    exact ⟨a, s, by simp [hx], hf⟩

theorem exec_guard_ok (p : Prop) [Decidable p] (e : ε) (x : Effect ε σ α) (s s' : σ) (a : α) :
    exec (if p then throw e else x) s = (.ok a, s') ↔ ¬p ∧ exec x s = (.ok a, s') := by
  split <;> simp_all

theorem lift_bind (x : Except ε α) (f : α → Except ε β) :
    (liftM (x >>= f) : Effect ε σ β) = liftM x >>= fun a => liftM (f a) := by
  cases x <;> rfl

theorem throw_bind (e : ε) (f : α → Effect ε σ β) :
    ((throw e : Effect ε σ α) >>= f) = throw e := rfl

def RunAvoids (e : ε) (x : Effect ε σ α) : Prop := ∀ s, Avoids e (exec x s).1

section
variable {e : ε}

theorem RunAvoids.pure (a : α) : RunAvoids e (pure a : Effect ε σ α) := fun _ => .ok a

theorem RunAvoids.throw {e' : ε} (h : e' ≠ e) : RunAvoids e (throw e' : Effect ε σ α) :=
  fun _ => .error h

theorem RunAvoids.lift {x : Except ε α} (h : Avoids e x) : RunAvoids e (liftM x : Effect ε σ α) :=
  fun _ => h

theorem RunAvoids.get : RunAvoids e (get : Effect ε σ σ) := fun s => .ok s

theorem RunAvoids.modify (f : σ → σ) : RunAvoids e (modify f : Effect ε σ PUnit) :=
  fun _ h => nomatch h

theorem RunAvoids.bind_of {x : Effect ε σ α} {f : α → Effect ε σ β} (hx : RunAvoids e x)
    (hf : ∀ a, (∃ s s', exec x s = (.ok a, s')) → RunAvoids e (f a)) : RunAvoids e (x >>= f) := by
  intro s
  have h := hx s
  rw [exec_bind]
  split
  · rename_i a s' hrun
    exact hf a ⟨s, s', hrun⟩ s'
  · rename_i e' s' hrun
    rw [hrun] at h
    exact fun hc => h (congrArg Except.error (Except.error.inj hc))

theorem RunAvoids.bind {x : Effect ε σ α} {f : α → Effect ε σ β} (hx : RunAvoids e x)
    (hf : ∀ a, RunAvoids e (f a)) : RunAvoids e (x >>= f) :=
  hx.bind_of fun a _ => hf a

theorem RunAvoids.lift_bind {x : Except ε α} {f : α → Effect ε σ β} (hx : Avoids e x)
    (hf : ∀ a, x = .ok a → RunAvoids e (f a)) :
    RunAvoids e ((liftM x : Effect ε σ α) >>= f) := by
  refine (RunAvoids.lift hx).bind_of ?_
  intro a h
  obtain ⟨s, s', hrun⟩ := h
  exact hf a (congrArg Prod.fst hrun)

theorem RunAvoids.ite {p : Prop} [Decidable p] {x y : Effect ε σ α} (hx : p → RunAvoids e x)
    (hy : ¬p → RunAvoids e y) : RunAvoids e (if p then x else y) := by
  split
  · exact hx ‹_›
  · exact hy ‹_›

end

/-- Related states give the same result and related states. -/
def Respects (R : σ → σ → Prop) (x : Effect ε σ α) : Prop :=
  ∀ s s', R s s' → (exec x s).1 = (exec x s').1 ∧ R (exec x s).2 (exec x s').2

section
variable {R : σ → σ → Prop}

theorem Respects.pure (a : α) : Respects R (pure a : Effect ε σ α) := fun _ _ h => ⟨rfl, h⟩

theorem Respects.throw (e : ε) : Respects R (throw e : Effect ε σ α) := fun _ _ h => ⟨rfl, h⟩

theorem Respects.lift (x : Except ε α) : Respects R (liftM x : Effect ε σ α) :=
  fun _ _ h => ⟨rfl, h⟩

theorem Respects.modify {f : σ → σ} (hf : ∀ s s', R s s' → R (f s) (f s')) :
    Respects R (modify f : Effect ε σ PUnit) := fun s s' h => ⟨rfl, hf s s' h⟩

theorem Respects.bind {x : Effect ε σ α} {f : α → Effect ε σ β} (hx : Respects R x)
    (hf : ∀ a, Respects R (f a)) : Respects R (x >>= f) := by
  intro s s' h
  obtain ⟨hresult, hstate⟩ := hx s s' h
  rw [exec_bind, exec_bind]
  cases hrun : exec x s with
  | mk r t =>
    cases hrun' : exec x s' with
    | mk r' t' =>
      rw [hrun, hrun'] at hresult hstate
      obtain rfl : r = r' := hresult
      cases r with
      | error e => exact ⟨rfl, hstate⟩
      | ok a => exact hf a t t' hstate

theorem Respects.ite {p : Prop} [Decidable p] {x y : Effect ε σ α} (hx : Respects R x)
    (hy : Respects R y) : Respects R (if p then x else y) := by
  split
  · exact hx
  · exact hy

end

def Preserves (I : σ → Prop) (x : Effect ε σ α) : Prop := ∀ s, I s → I (exec x s).2

def Alone (I : σ → Prop) (s s' : σ) : Prop := s = s' ∧ I s

theorem preserves_iff {I : σ → Prop} {x : Effect ε σ α} : Preserves I x ↔ Respects (Alone I) x := by
  constructor
  · intro h s s' hs
    obtain ⟨rfl, hs⟩ := hs
    exact ⟨rfl, rfl, h s hs⟩
  · intro h s hs
    exact (h s s ⟨rfl, hs⟩).2.2

section
variable {I : σ → Prop}

theorem Preserves.pure (a : α) : Preserves I (pure a : Effect ε σ α) := preserves_iff.mpr (.pure a)

theorem Preserves.throw (e : ε) : Preserves I (throw e : Effect ε σ α) :=
  preserves_iff.mpr (.throw e)

theorem Preserves.lift (x : Except ε α) : Preserves I (liftM x : Effect ε σ α) :=
  preserves_iff.mpr (.lift x)

theorem Preserves.bind {x : Effect ε σ α} {f : α → Effect ε σ β} (hx : Preserves I x)
    (hf : ∀ a, Preserves I (f a)) : Preserves I (x >>= f) :=
  preserves_iff.mpr (.bind (preserves_iff.mp hx) fun a => preserves_iff.mp (hf a))

theorem Preserves.ite {p : Prop} [Decidable p] {x y : Effect ε σ α} (hx : Preserves I x)
    (hy : Preserves I y) : Preserves I (if p then x else y) :=
  preserves_iff.mpr (.ite (preserves_iff.mp hx) (preserves_iff.mp hy))

end

end DistributedEnclave.Outcome
