import Mathlib.Algebra.GroupWithZero.Nat
import Mathlib.Data.Nat.GCD.Basic
import Mathlib.Data.Nat.ModEq
import Mathlib.Logic.Function.Iterate
import Mathlib.Tactic.Ring

/-! Multiplicative congruential generators, whose multiplier has no factor in common with the
modulus. -/
namespace DistributedEnclave.Congruential
variable {a m : Nat}

def next (a m x : Nat) : Nat := a*x%m

theorem iterate_next {x : Nat} (hx : x < m) (k : Nat) : (next a m)^[k] x = a^k*x%m := by
  induction k with
  | zero => rw [pow_zero, one_mul, Nat.mod_eq_of_lt hx]; rfl
  | succ k ih =>
    calc
      (next a m)^[k+1] x = a*((next a m)^[k] x)%m := Function.iterate_succ_apply' _ _ _
      _ = a*(a^k*x)%m := by rw [ih, Nat.mul_mod_mod]
      _ = a^(k+1)*x%m := by rw [← mul_assoc, ← pow_succ']

theorem iterate_lt {x : Nat} (hx : x < m) (k : Nat) : (next a m)^[k] x < m := by
  rw [iterate_next hx]
  exact Nat.mod_lt _ (by omega)

/-- The states have the divisors of the modulus that the first one has. -/
theorem dvd_iterate_iff (ha : Nat.Coprime a m) {x d : Nat} (hx : x < m) (hd : d ∣ m) (k : Nat) :
    d ∣ (next a m)^[k] x ↔ d ∣ x := by
  have hcoprime : Nat.Coprime d (a^k) := (Nat.Coprime.coprime_dvd_right hd ha).symm.pow_right k
  rw [iterate_next hx, Nat.dvd_mod_iff hd]
  exact hcoprime.dvd_mul_left

theorem iterate_pos (ha : Nat.Coprime a m) {x : Nat} (hx : x < m) (hpos : 0 < x) (k : Nat) :
    0 < (next a m)^[k] x := by
  by_contra hzero
  have hdvd : m ∣ (next a m)^[k] x := by
    rw [Nat.eq_zero_of_not_pos hzero]
    exact dvd_zero m
  have hle := Nat.le_of_dvd hpos ((dvd_iterate_iff ha hx dvd_rfl k).mp hdvd)
  omega

/-- With a power of a number for the modulus all its powers divide the same states. -/
theorem pow_dvd_iterate_iff {p n x : Nat} (ha : Nat.Coprime a (p^n)) (hx : x < p^n) (hpos : 0 < x)
    (k j : Nat) : p^j ∣ (next a (p^n))^[k] x ↔ p^j ∣ x := by
  rcases Nat.le_total j n with hle | hge
  · exact dvd_iterate_iff ha hx (pow_dvd_pow p hle) k
  -- neither is a multiple of the modulus
  have hlarge : ∀ y, 0 < y → y < p^n → ¬p^j ∣ y := by
    intro y hy hlt hdvd
    have := Nat.le_of_dvd hy ((pow_dvd_pow p hge).trans hdvd)
    omega
  exact iff_of_false (hlarge _ (iterate_pos ha hx hpos k) (iterate_lt hx k)) (hlarge x hpos hx)

/-- Two generators that start apart never meet. -/
theorem iterate_inj (ha : Nat.Coprime a m) {x y : Nat} (hx : x < m) (hy : y < m) {k : Nat}
    (h : (next a m)^[k] x = (next a m)^[k] y) : x = y := by
  rw [iterate_next hx, iterate_next hy] at h
  have hmod : x ≡ y [MOD m] := Nat.ModEq.cancel_left_of_coprime (ha.symm.pow_right k) h
  exact Nat.ModEq.eq_of_lt_of_lt hmod hx hy

end DistributedEnclave.Congruential
