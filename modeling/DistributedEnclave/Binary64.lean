import DistributedEnclave.Rounding

/-! Values of a `double` and their arithmetic. Zero has no sign here: the two zeros differ only
as divisors, and nothing modelled divides by zero. -/
namespace DistributedEnclave
open DistributedEnclave.Rounding

inductive Binary64 where
  | nan
  | infinite (negative : Bool)
  | finite (value : ℚ)
  deriving DecidableEq

namespace Binary64

def format : Format := ⟨53, -1074⟩

def round (q : ℚ) : Binary64 :=
  if 2^1024 ≤ |format.nearest q| then infinite (q < 0) else finite (format.nearest q)

def isfinite : Binary64 → Bool
  | finite _ => true
  | _ => false

@[simp] theorem isfinite_finite (a : ℚ) : (finite a).isfinite = true := rfl

/-- The comparison `<`, which is false for a NaN. -/
def lt : Binary64 → Binary64 → Bool
  | nan, _ | _, nan => false
  | infinite negative, infinite negative' => negative && !negative'
  | infinite negative, finite _ => negative
  | finite _, infinite negative => !negative
  | finite a, finite b => a < b

def eq : Binary64 → Binary64 → Bool
  | nan, _ => false
  | x, y => x = y

def add : Binary64 → Binary64 → Binary64
  | nan, _ | _, nan => nan
  | infinite negative, infinite negative' =>
    if negative = negative' then infinite negative else nan
  | infinite negative, finite _ | finite _, infinite negative => infinite negative
  | finite a, finite b => round (a+b)

def neg : Binary64 → Binary64
  | nan => nan
  | infinite negative => infinite !negative
  | finite a => finite (-a)

def mul : Binary64 → Binary64 → Binary64
  | nan, _ | _, nan => nan
  | infinite negative, infinite negative' => infinite (negative != negative')
  | infinite negative, finite a | finite a, infinite negative =>
    if a = 0 then nan else infinite (negative != decide (a < 0))
  | finite a, finite b => round (a*b)

def div : Binary64 → Binary64 → Binary64
  | nan, _ | _, nan | infinite _, infinite _ => nan
  | infinite negative, finite b => infinite (negative != decide (b < 0))
  | finite _, infinite _ => finite 0
  | finite a, finite b => if b = 0 then nan else round (a/b)

instance : Zero Binary64 := ⟨finite 0⟩
instance : Add Binary64 := ⟨add⟩
instance : Neg Binary64 := ⟨neg⟩
instance : Sub Binary64 := ⟨fun x y => x + -y⟩
instance : Mul Binary64 := ⟨mul⟩
instance : Div Binary64 := ⟨div⟩

def fabs : Binary64 → Binary64
  | nan => nan
  | infinite _ => infinite false
  | finite a => finite |a|

def fmax (x y : Binary64) : Binary64 :=
  if x = nan then y else if y = nan then x else if x.lt y then y else x

def ofRat (q : ℚ) : Binary64 := round q

/-- `(int)x` of a value that an `int` holds. -/
def truncate : Binary64 → Int
  | finite a => if a < 0 then ⌈a⌉ else ⌊a⌋
  | _ => 0

def Within (x : Binary64) (b : ℚ) : Prop := ∃ a, x = finite a ∧ |a| ≤ b

theorem Within.isfinite {x : Binary64} {b : ℚ} (h : x.Within b) : x.isfinite = true := by
  obtain ⟨a, rfl, _⟩ := h
  rfl

theorem round_within {q b : ℚ} (hb : format.Representable b) (hlarge : b < 2^1024)
    (h : |q| ≤ b) : (round q).Within b := by
  have hle := Format.abs_nearest_le hb h
  rw [round, if_neg (not_le.mpr (hle.trans_lt hlarge))]
  exact ⟨_, rfl, hle⟩

/-- An integer of at most 53 digits is a double. -/
theorem representable_natCast {n : ℕ} (hn : n < 2^53) : format.Representable n := by
  have habs : |(n : ℤ)| < 2^53 := by
    rw [Nat.abs_cast]
    exact_mod_cast hn
  have := Format.representable_intCast (F := format) habs (by decide)
  exact_mod_cast this

theorem natCast_lt_max {n : ℕ} (hn : n < 2^53) : (n : ℚ) < 2^1024 := by
  have : (n : ℚ) < 2^53 := by exact_mod_cast hn
  exact this.trans (pow_lt_pow_right₀ (by norm_num) (by norm_num))

/-- What is a double already stays as it is. -/
theorem round_of_representable {q : ℚ} (hq : format.Representable q) (h : |q| < 2^1024) :
    round q = finite q := by
  rw [round, Format.nearest_of_representable hq, if_neg (not_le.mpr h)]

theorem round_natCast {n : ℕ} (hn : n < 2^53) : round n = finite n :=
  round_of_representable (representable_natCast hn) (by
    rw [Nat.abs_cast]
    exact natCast_lt_max hn)

theorem ofRat_natCast {n : ℕ} (hn : n < 2^53) : ofRat n = finite n := round_natCast hn

theorem ofRat_ofNat {n : ℕ} [n.AtLeastTwo] (hn : n < 2^53) :
    ofRat (OfNat.ofNat n : ℚ) = finite (OfNat.ofNat n : ℚ) := ofRat_natCast hn

/-- Sums and products of integers are exact. -/
theorem finite_add_natCast {a b : ℕ} (h : a+b < 2^53) :
    finite a + finite b = finite (a+b : ℕ) := by
  change round (a+b) = _
  rw [← Nat.cast_add]
  exact round_natCast h

theorem finite_mul_natCast {a b : ℕ} (h : a*b < 2^53) :
    finite a * finite b = finite (a*b : ℕ) := by
  change round (a*b) = _
  rw [← Nat.cast_mul]
  exact round_natCast h

theorem ofRat_within {q : ℚ} {n : ℕ} (hn : n < 2^53) (h : |q| ≤ n) : (ofRat q).Within n :=
  round_within (representable_natCast hn) (natCast_lt_max hn) h

theorem neg_within {x : Binary64} {b : ℚ} (hx : x.Within b) : (-x).Within b := by
  obtain ⟨a, rfl, ha⟩ := hx
  exact ⟨-a, rfl, by rwa [abs_neg]⟩

theorem add_within {x y : Binary64} {a b : ℚ} {n : ℕ} (hx : x.Within a) (hy : y.Within b)
    (hn : n < 2^53) (h : a+b ≤ n) : (x+y).Within n := by
  obtain ⟨r, rfl, hr⟩ := hx
  obtain ⟨s, rfl, hs⟩ := hy
  exact ofRat_within hn ((abs_add_le r s).trans ((add_le_add hr hs).trans h))

theorem sub_within {x y : Binary64} {a b : ℚ} {n : ℕ} (hx : x.Within a) (hy : y.Within b)
    (hn : n < 2^53) (h : a+b ≤ n) : (x-y).Within n := add_within hx (neg_within hy) hn h

theorem mul_within {x y : Binary64} {a b : ℚ} {n : ℕ} (hx : x.Within a) (hy : y.Within b)
    (hn : n < 2^53) (h : a*b ≤ n) : (x*y).Within n := by
  obtain ⟨r, rfl, hr⟩ := hx
  obtain ⟨s, rfl, hs⟩ := hy
  refine ofRat_within hn ?_
  rw [abs_mul]
  exact (mul_le_mul hr hs (abs_nonneg s) ((abs_nonneg r).trans hr)).trans h

theorem sub_self_of_finite (a : ℚ) : finite a - finite a = 0 := by
  change round (a + -a) = _
  rw [add_neg_cancel]
  exact_mod_cast round_natCast (n := 0) (by norm_num)

/-- A finite number equals itself. -/
theorem Within.eq_self {x : Binary64} {b : ℚ} (h : x.Within b) : x.eq x = true := by
  obtain ⟨a, rfl, _⟩ := h
  exact decide_eq_true rfl

/-- The sum of what is far smaller than a large power of two stays below it. -/
theorem add_saturates {x y : Binary64} {a : ℚ} {k : ℕ} (hx : x.Within (2^k)) (hy : y.Within a)
    (hk : 53 ≤ k) (hlarge : k < 1024) (ha : a < 2^(k-53)) : (x+y).Within (2^k) := by
  obtain ⟨r, rfl, hr⟩ := hx
  obtain ⟨s, rfl, hs⟩ := hy
  have hsum : |r+s| < 2^(k : ℤ)+2^((k : ℤ)-53) := by
    have hpow : (2 : ℚ)^((k : ℤ)-53) = 2^(k-53) := by
      rw [← zpow_natCast]
      congr 1
      omega
    rw [hpow, zpow_natCast]
    exact (abs_add_le r s).trans_lt (by linarith)
  have hemin : format.emin ≤ (k : ℤ)+1-format.precision := by
    change (-1074 : ℤ) ≤ (k : ℤ)+1-(53 : ℕ)
    omega
  have hle := Format.abs_nearest_saturates (F := format) (by decide) hemin hsum
  rw [zpow_natCast] at hle
  have hpow : (2 : ℚ)^k < 2^1024 := pow_lt_pow_right₀ (by norm_num) hlarge
  change (round (r+s)).Within (2^k)
  rw [round, if_neg (not_le.mpr (hle.trans_lt hpow))]
  exact ⟨_, rfl, hle⟩

/-- A value between 0 and an integer stays there. -/
theorem round_between {q : ℚ} {n : ℕ} (hn : n < 2^53) (h : 0 ≤ q) (hle : q ≤ n) :
    ∃ a, round q = finite a ∧ 0 ≤ a ∧ a ≤ n := by
  have habs : |q| ≤ n := by rwa [abs_of_nonneg h]
  have hnearest := Format.nearest_nonneg (F := format) h
  obtain ⟨a, ha, hbound⟩ := ofRat_within hn habs
  rw [ofRat, round] at ha
  refine ⟨a, ha, ?_⟩
  split at ha
  · cases ha
  · cases ha
    exact ⟨hnearest, (abs_le.mp hbound).2⟩

theorem round_not_neg {q : ℚ} (h : 0 ≤ q) : (round q).lt 0 = false := by
  rw [round]
  split
  · simp [lt, not_lt.mpr h]
  · exact decide_eq_false (not_lt.mpr (Format.nearest_nonneg h))

theorem lt_nan (x : Binary64) : x.lt nan = false := by
  cases x with
  | nan => rfl
  | infinite negative => rfl
  | finite a => rfl

end Binary64

end DistributedEnclave
