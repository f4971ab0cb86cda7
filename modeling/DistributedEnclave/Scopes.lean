import Mathlib.Logic.Basic

/-! Programs that open and close nested scopes by hand around calls, whose outcomes they branch
on, and a rule by which a program closes every scope that it has opened. -/
namespace DistributedEnclave.Scopes

/-- `enter` opens a scope of a kind and `leave` closes the innermost one. A `call` needs an open
scope, a `test` does not. -/
inductive Code (K F T E A : Type) : Type
  | ret (a : A)
  | exit (e : E)
  | enter (k : K) (rest : Code K F T E A)
  | leave (rest : Code K F T E A)
  | call (f : F) (rest : Bool → Code K F T E A)
  | test (t : T) (rest : Bool → Code K F T E A)

variable {K F T E A B : Type}

namespace Code

def bind (x : Code K F T E A) (f : A → Code K F T E B) : Code K F T E B :=
  match x with
  | ret a => f a
  | exit e => exit e
  | enter k rest => enter k (rest.bind f)
  | leave rest => leave (rest.bind f)
  | call g rest => call g (fun b => (rest b).bind f)
  | test t rest => test t (fun b => (rest b).bind f)

instance : Monad (Code K F T E) where
  pure := ret
  bind := bind

end Code

/-- Run with `n` of its own scopes open, the program closes them all and no other. A scope that
it opens outside of those is of kind `k`, it makes calls only within them, and when it closes the
last of them it is at its end. -/
def Scoped (k : K) : Code K F T E A → Nat → Prop
  | .ret _, n => n = 0
  | .exit _, _ => True
  | .enter k' rest, n => (n = 0 → k' = k) ∧ Scoped k rest (n+1)
  | .leave rest, n => ∃ m, n = m+1 ∧ Scoped k rest m ∧ (m = 0 → ∃ a, rest = .ret a)
  | .call _ rest, n => 0 < n ∧ ∀ b, Scoped k (rest b) n
  | .test _ rest, n => ∀ b, Scoped k (rest b) n

/-- A part that closes its own scopes, in a program with others around it. -/
theorem Scoped.bind {k k' : K} {x : Code K F T E A} {f : A → Code K F T E B} {n m : Nat}
    (hx : Scoped k x n) (hf : ∀ a, Scoped k' (f a) (m+1)) : Scoped k' (x >>= f) (n+m+1) := by
  change Scoped k' (x.bind f) (n+m+1)
  induction x generalizing n with
  | ret a =>
    obtain rfl : n = 0 := hx
    rw [Nat.zero_add]
    exact hf a
  | exit e => trivial
  | enter k₁ rest ih =>
    have hrest := ih hx.2
    rw [Nat.add_right_comm n 1 m] at hrest
    exact ⟨fun h => (nomatch h), hrest⟩
  | leave rest ih =>
    obtain ⟨p, rfl, hrest, _⟩ := hx
    exact ⟨p+m+1, by omega, ih hrest, fun h => (nomatch h)⟩
  | call g rest ih => exact ⟨Nat.succ_pos _, fun b => ih b (hx.2 b)⟩
  | test t rest ih => exact fun b => ih b (hx b)

theorem Scoped.bind_closed {k k' : K} {x : Code K F T E A} {f : A → Code K F T E B} {m : Nat}
    (hx : Scoped k x 0) (hf : ∀ a, Scoped k' (f a) (m+1)) : Scoped k' (x >>= f) (m+1) := by
  have hbind := hx.bind hf
  rwa [Nat.zero_add] at hbind

/-- The scopes that are open, the innermost first, are those of a program of kind `k` that began
as `origin`. At no time in between are there none. -/
structure Within (k : K) (origin x : Code K F T E A) (scopes : List K) : Prop where
  begins : ∃ rest, origin = .enter k rest
  closes : Scoped k x scopes.length
  outermost : ∀ k' ∈ scopes.getLast?, k' = k
  held : scopes = [] → x = origin ∨ ∃ a, x = .ret a

section
variable {k k' : K} {scopes : List K} {origin x rest : Code K F T E A} {f : F} {t : T}

theorem Within.start (h : Scoped k x 0) (hbegins : ∃ rest, x = .enter k rest) : Within k x x [] :=
  ⟨hbegins, h, nofun, fun _ => .inl rfl⟩

theorem Within.ret {a : A} (h : Within k origin (.ret a : Code K F T E A) scopes) : scopes = [] :=
  List.eq_nil_of_length_eq_zero h.closes

theorem Within.enter (h : Within k origin (.enter k' rest) scopes) :
    Within k origin rest (k' :: scopes) := by
  refine ⟨h.begins, h.closes.2, fun k₁ hk₁ => ?_, nofun⟩
  cases scopes with
  | nil =>
    cases hk₁
    exact h.closes.1 rfl
  | cons k₂ scopes => exact h.outermost k₁ hk₁

theorem Within.leave (h : Within k origin (.leave rest) scopes) :
    scopes ≠ [] ∧ Within k origin rest scopes.tail := by
  obtain ⟨m, hlen, hrest, hend⟩ := h.closes
  cases scopes with
  | nil => cases hlen
  | cons k₁ scopes =>
    obtain rfl := Nat.succ.inj hlen
    refine ⟨nofun, h.begins, hrest, fun k₂ hk₂ => ?_, fun hnil => .inr (hend ?_)⟩
    · cases scopes with
      | nil => cases hk₂
      | cons k₃ scopes => exact h.outermost k₂ hk₂
    · exact List.length_eq_zero_iff.mpr hnil

theorem Within.call {rest : Bool → Code K F T E A} (h : Within k origin (.call f rest) scopes) :
    scopes ≠ [] ∧ ∀ b, Within k origin (rest b) scopes := by
  have hne : scopes ≠ [] := List.ne_nil_of_length_pos h.closes.1
  exact ⟨hne, fun b => ⟨h.begins, h.closes.2 b, h.outermost, fun hnil => absurd hnil hne⟩⟩

theorem Within.test {rest : Bool → Code K F T E A} (h : Within k origin (.test t rest) scopes)
    (b : Bool) : Within k origin (rest b) scopes := by
  refine ⟨h.begins, h.closes b, h.outermost, fun hnil => ?_⟩
  obtain ⟨first, hfirst⟩ := h.begins
  cases h.held hnil with
  | inl hstart => cases hstart.trans hfirst
  | inr hret =>
    obtain ⟨a, hret⟩ := hret
    cases hret

theorem Within.getLast (h : Within k origin x scopes) (hne : scopes ≠ []) :
    scopes.getLast? = some k := by
  rw [List.getLast?_eq_some_getLast hne]
  exact congrArg some (h.outermost _ (List.getLast?_eq_some_getLast hne))

end

end DistributedEnclave.Scopes
