import Mathlib.Algebra.Order.Field.Power
import Mathlib.Data.Int.Log
import Mathlib.Data.Rat.Floor
import Mathlib.Tactic.FieldSimp
import Mathlib.Tactic.Linarith
import Mathlib.Tactic.Positivity
import Mathlib.Tactic.Ring

/-! Rounding to the nearest value of a binary floating-point format, ties to even. -/
namespace DistributedEnclave.Rounding

def roundEven (q : ℚ) : ℤ :=
  if q-⌊q⌋ < 1/2 then ⌊q⌋
  else if 1/2 < q-⌊q⌋ then ⌊q⌋+1
  else if ⌊q⌋%2 = 0 then ⌊q⌋ else ⌊q⌋+1

theorem roundEven_of_near {q : ℚ} {n : ℤ} (hlow : n-1/2 < q) (hhigh : q < n+1/2) :
    roundEven q = n := by
  have hfloor := Int.floor_le q
  have hlt := Int.lt_floor_add_one q
  by_cases hn : (n : ℚ) ≤ q
  · have heq : ⌊q⌋ = n := Int.floor_eq_iff.mpr ⟨hn, by linarith⟩
    rw [roundEven, heq, if_pos (by linarith)]
  · have hn : q < n := not_le.mp hn
    have heq : ⌊q⌋ = n-1 := by
      apply Int.floor_eq_iff.mpr
      push_cast
      exact ⟨by linarith, by linarith⟩
    have hpos : ¬q-⌊q⌋ < 1/2 := by
      rw [heq]
      push_cast
      linarith
    have hgt : 1/2 < q-⌊q⌋ := by
      rw [heq]
      push_cast
      linarith
    rw [roundEven, if_neg hpos, if_pos hgt, heq, sub_add_cancel]

theorem roundEven_intCast (n : ℤ) : roundEven n = n :=
  roundEven_of_near (by linarith) (by linarith)

theorem roundEven_le {q : ℚ} {n : ℤ} (h : q ≤ n) : roundEven q ≤ n := by
  cases h.eq_or_lt with
  | inl heq => rw [heq, roundEven_intCast]
  | inr hlt =>
    have hfloor : ⌊q⌋ < n := Int.floor_lt.mpr hlt
    rw [roundEven]
    split_ifs <;> omega

theorem le_roundEven {q : ℚ} {n : ℤ} (h : n ≤ q) : n ≤ roundEven q := by
  have hfloor : n ≤ ⌊q⌋ := Int.le_floor.mpr h
  rw [roundEven]
  split_ifs <;> omega

theorem abs_roundEven_le {q : ℚ} {n : ℤ} (h : |q| ≤ n) : |roundEven q| ≤ n := by
  rw [abs_le] at h ⊢
  refine ⟨le_roundEven ?_, roundEven_le h.2⟩
  push_cast
  exact h.1

structure Format where
  precision : ℕ
  emin : ℤ

namespace Format
variable (F : Format)

def lastExponent (q : ℚ) : ℤ := max F.emin (Int.log 2 |q|+1-F.precision)

def nearest (q : ℚ) : ℚ := roundEven (q/2^F.lastExponent q)*2^F.lastExponent q

def Representable (q : ℚ) : Prop :=
  ∃ m e : ℤ, F.emin ≤ e ∧ |m| < 2^F.precision ∧ q = m*2^e

variable {F}

theorem two_zpow_split (e k : ℤ) : (2 : ℚ)^e = 2^(e-k)*2^k := by
  rw [← zpow_add₀ (by norm_num), sub_add_cancel]

/-- On the grid of its last digit or a finer one, a number is an integer. -/
theorem Representable.on_grid {q : ℚ} (h : F.Representable q) {k : ℤ} (hk : k ≤ F.lastExponent q) :
    ∃ n : ℤ, q = n*2^k := by
  obtain ⟨m, e, he, hm, rfl⟩ := h
  by_cases hzero : m = 0
  · subst hzero
    exact ⟨0, by simp⟩
  have hpos : (0 : ℚ) < |(m : ℚ)*2^e| := by
    have : (m : ℚ) ≠ 0 := Int.cast_ne_zero.mpr hzero
    positivity
  have hlarge : |(m : ℚ)*2^e| < 2^(F.precision+e : ℤ) := by
    rw [abs_mul, abs_of_pos (a := (2 : ℚ)^e) (by positivity), zpow_add₀ (by norm_num),
      zpow_natCast]
    refine mul_lt_mul_of_pos_right ?_ (by positivity)
    exact_mod_cast hm
  have hlog : Int.log 2 |(m : ℚ)*2^e| < F.precision+e :=
    (Int.lt_zpow_iff_log_lt (by norm_num) hpos).mp hlarge
  have hke : k ≤ e := by
    refine hk.trans ?_
    rw [lastExponent]
    omega
  refine ⟨m*2^(e-k).toNat, ?_⟩
  rw [two_zpow_split e k]
  push_cast
  rw [← zpow_natCast, Int.toNat_of_nonneg (by omega), mul_assoc]

theorem nearest_of_representable {q : ℚ} (h : F.Representable q) : F.nearest q = q := by
  obtain ⟨n, hn⟩ := h.on_grid le_rfl
  have hdiv : q/2^F.lastExponent q = n := by
    rw [div_eq_iff (by positivity)]
    exact hn
  rw [nearest, hdiv, roundEven_intCast]
  exact hn.symm

/-- A bound that the format has survives the rounding. -/
theorem abs_nearest_le {q b : ℚ} (hb : F.Representable b) (h : |q| ≤ b) : |F.nearest q| ≤ b := by
  by_cases hzero : q = 0
  · subst hzero
    have hnearest : F.nearest 0 = 0 := by
      rw [nearest, zero_div, ← Int.cast_zero (R := ℚ), roundEven_intCast, Int.cast_zero, zero_mul]
    rw [hnearest]
    exact h
  have hlog : Int.log 2 |q| ≤ Int.log 2 |b| :=
    Int.log_mono_right (abs_pos.mpr hzero) (h.trans (le_abs_self b))
  have hgrid : F.lastExponent q ≤ F.lastExponent b := by
    rw [lastExponent, lastExponent]
    omega
  obtain ⟨n, hn⟩ := hb.on_grid hgrid
  have hpos : (0 : ℚ) < 2^F.lastExponent q := by positivity
  have hle : |q/2^F.lastExponent q| ≤ n := by
    rw [abs_div, abs_of_pos hpos, div_le_iff₀ hpos, ← hn]
    exact h
  have hround : |(roundEven (q/2^F.lastExponent q) : ℚ)| ≤ n := by
    exact_mod_cast abs_roundEven_le hle
  rw [nearest, abs_mul, abs_of_pos hpos, hn]
  exact mul_le_mul_of_nonneg_right hround hpos.le

theorem representable_two_zpow {k : ℤ} (hk : F.emin ≤ k) (hprecision : 0 < F.precision) :
    F.Representable (2^k) := by
  refine ⟨1, k, hk, ?_, by simp⟩
  rw [abs_one]
  exact one_lt_pow₀ (by norm_num) hprecision.ne'

/-- Less than half of the last digit added to a power of two is lost. -/
theorem abs_nearest_saturates {q : ℚ} {k : ℤ} (hprecision : 0 < F.precision)
    (hk : F.emin ≤ k+1-F.precision) (h : |q| < 2^k+2^(k-F.precision)) :
    |F.nearest q| ≤ 2^k := by
  by_cases hle : |q| ≤ 2^k
  · exact abs_nearest_le (representable_two_zpow (by omega) hprecision) hle
  have hlt : 2^k < |q| := not_le.mp hle
  have hsmall : (2 : ℚ)^(k-F.precision) ≤ 2^k := zpow_le_zpow_right₀ (by norm_num) (by omega)
  have hdouble : (2 : ℚ)^(k+1) = 2^k+2^k := by rw [zpow_add_one₀ (by norm_num)]; ring
  have hpos : 0 < |q| := lt_trans (by positivity) hlt
  have hlog : Int.log 2 |q| = k := by
    have hlow : k ≤ Int.log 2 |q| := (Int.zpow_le_iff_le_log (by norm_num) hpos).mp hlt.le
    have hhigh : Int.log 2 |q| < k+1 :=
      (Int.lt_zpow_iff_log_lt (by norm_num) hpos).mp (by push_cast; linarith)
    omega
  have hlast : F.lastExponent q = k+1-F.precision := by
    rw [lastExponent, hlog]
    omega
  set e := k+1-(F.precision : ℤ) with he
  have hgrid : (2 : ℚ)^k = (2^(F.precision-1) : ℤ)*2^e := by
    push_cast
    rw [← zpow_natCast, ← zpow_add₀ (by norm_num)]
    congr 1
    omega
  have hhalf : (2 : ℚ)^(k-F.precision) = 1/2*2^e := by
    have : e = k-F.precision+1 := by omega
    rw [this, zpow_add_one₀ (by norm_num)]
    ring
  have hscale : (0 : ℚ) < 2^e := by positivity
  rw [nearest, hlast, abs_mul, abs_of_pos hscale, hgrid]
  refine mul_le_mul_of_nonneg_right ?_ hscale.le
  have hbound : |q/2^e| < (2^(F.precision-1) : ℤ)+1/2 := by
    rw [abs_div, abs_of_pos hscale, div_lt_iff₀ hscale, add_mul, ← hgrid, ← hhalf]
    exact h
  have hbound' : ((2^(F.precision-1) : ℤ) : ℚ) ≤ |q/2^e| := by
    rw [abs_div, abs_of_pos hscale, le_div_iff₀ hscale, ← hgrid]
    exact hlt.le
  have hround : |roundEven (q/2^e)| ≤ 2^(F.precision-1) := by
    cases le_total 0 (q/2^e) with
    | inl hnonneg =>
      rw [abs_of_nonneg hnonneg] at hbound hbound'
      rw [roundEven_of_near (by linarith) hbound]
      exact (abs_of_nonneg (by positivity)).le
    | inr hneg =>
      rw [abs_of_nonpos hneg] at hbound hbound'
      have hnear : roundEven (q/2^e) = -2^(F.precision-1) := by
        apply roundEven_of_near <;> push_cast at * <;> linarith
      rw [hnear, abs_neg]
      exact (abs_of_nonneg (by positivity)).le
  exact_mod_cast hround

/-- No rounding crosses a power of two. -/
theorem two_zpow_le_nearest {q : ℚ} {k : ℤ} (hprecision : 0 < F.precision) (hk : F.emin ≤ k)
    (h : 2^k ≤ q) : 2^k ≤ F.nearest q := by
  have hpos : 0 < q := lt_of_lt_of_le (by positivity) h
  have hlog : k ≤ Int.log 2 |q| := by
    rw [abs_of_pos hpos]
    exact (Int.zpow_le_iff_le_log (by norm_num) hpos).mp (by exact_mod_cast h)
  have hlast : F.lastExponent q ≤ Int.log 2 |q| := by
    rw [lastExponent]
    omega
  have hscale : (0 : ℚ) < 2^F.lastExponent q := by positivity
  have hgrid : (2 : ℚ)^Int.log 2 |q| =
      (2^(Int.log 2 |q|-F.lastExponent q).toNat : ℤ)*2^F.lastExponent q := by
    push_cast
    rw [← zpow_natCast, Int.toNat_of_nonneg (by omega), ← zpow_add₀ (by norm_num), sub_add_cancel]
  have hle : (2 : ℚ)^Int.log 2 |q| ≤ q := by
    have hlog := Int.zpow_log_le_self (R := ℚ) (b := 2) (by norm_num) (abs_pos.mpr hpos.ne')
    rw [abs_of_pos hpos] at hlog ⊢
    exact_mod_cast hlog
  have hround : ((2^(Int.log 2 |q|-F.lastExponent q).toNat : ℤ) : ℚ) ≤
      roundEven (q/2^F.lastExponent q) := by
    refine Int.cast_le.mpr (le_roundEven ?_)
    rw [le_div_iff₀ hscale, ← hgrid]
    exact hle
  calc
    (2 : ℚ)^k ≤ 2^Int.log 2 |q| := zpow_le_zpow_right₀ (by norm_num) hlog
    _ = _ := hgrid
    _ ≤ F.nearest q := mul_le_mul_of_nonneg_right hround hscale.le

theorem nearest_nonneg {q : ℚ} (h : 0 ≤ q) : 0 ≤ F.nearest q := by
  have hdiv : ((0 : ℤ) : ℚ) ≤ q/2^F.lastExponent q := by
    rw [Int.cast_zero]
    positivity
  have hround : (0 : ℚ) ≤ roundEven (q/2^F.lastExponent q) := by
    exact_mod_cast le_roundEven hdiv
  rw [nearest]
  positivity

theorem representable_intCast {n : ℤ} (hn : |n| < 2^F.precision) (he : F.emin ≤ 0) :
    F.Representable n := ⟨n, 0, he, hn, by simp⟩

end Format

end DistributedEnclave.Rounding
