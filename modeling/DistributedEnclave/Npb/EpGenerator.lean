import DistributedEnclave.Congruential
import DistributedEnclave.Npb.Benchmarks

/-! The generator of EP. The states of `npb_rand` are those of a congruential generator, whatever
is lost of the products above 64 bits. -/
namespace DistributedEnclave.Npb
open Congruential
variable {libm : Libm}

theorem and_npbMask (x : UInt64) : (x &&& npbMask).toNat = x.toNat%2^46 := by
  rw [UInt64.toNat_and]
  exact Nat.and_two_pow_sub_one_eq_mod x.toNat 46

theorem npbRand_toNat (state : UInt64) : (npbRand state).toNat = next (5^13) (2^46) state.toNat := by
  rw [npbRand, and_npbMask, UInt64.toNat_mul, Nat.mod_mod_of_dvd _ (by norm_num)]
  rfl

theorem npbRand_iterate (k : Nat) (state : UInt64) :
    (npbRand^[k] state).toNat = (next (5^13) (2^46))^[k] state.toNat :=
  (Function.Semiconj.iterate_right npbRand_toNat k).eq state

theorem multiplier_coprime : Nat.Coprime (5^13) (2^46) :=
  Nat.Coprime.pow 13 46 (by decide)

/-- The state a seed stands for: its low digits, unless they are all 0. -/
theorem epStart_toNat (seed : Int64) :
    (epStart seed).toNat =
      if seed.toInt.toNat%2^46 = 0 then 271828183 else seed.toInt.toNat%2^46 := by
  have hmasked : (if seed > 0 then seed.toUInt64 &&& npbMask else 0).toNat =
      seed.toInt.toNat%2^46 := by
    by_cases hseed : seed > 0
    · rw [if_pos hseed, and_npbMask, Int64.toNat_toUInt64_of_le (Int64.le_of_lt hseed)]
      rfl
    · have hle : seed.toInt ≤ 0 := by
        rw [gt_iff_lt, Int64.lt_iff_toInt_lt, Int64.toInt_zero] at hseed
        omega
      rw [if_neg hseed, Int.toNat_of_nonpos hle]
      rfl
  rw [← hmasked, epStart]
  generalize (if seed > 0 then seed.toUInt64 &&& npbMask else 0) = state
  by_cases hzero : state = 0
  · rw [if_pos hzero, hzero]
    rfl
  · have hne : state.toNat ≠ 0 := fun h => hzero (UInt64.toNat_inj.mp h)
    rw [if_neg hzero, if_neg hne]

theorem epStart_range (seed : Int64) : 0 < (epStart seed).toNat ∧ (epStart seed).toNat < 2^46 := by
  have hmod := Nat.mod_lt seed.toInt.toNat (show 0 < 2^46 by norm_num)
  rw [epStart_toNat]
  split <;> omega

/-- A seed that 46 digits hold is its own state. -/
theorem epStart_of_small {seed : Int64} (hpos : 0 < seed.toInt) (hlt : seed.toInt < 2^46) :
    ((epStart seed).toNat : Int) = seed.toInt := by
  rw [epStart_toNat, Nat.mod_eq_of_lt (by omega), if_neg (by omega), Int.toNat_of_nonneg hpos.le]

section Uniform
variable {state : UInt64}

/-- The quotient of a state by the modulus is exact. -/
theorem npbUniform_eq (hlt : state.toNat < 2^46) :
    npbUniform state = .finite (state.toNat/2^46) := by
  have hvalue : Binary64.ofRat state.toNat = .finite state.toNat :=
    Binary64.ofRat_natCast (hlt.trans (by norm_num))
  have hmodulus : Binary64.ofRat (2^46) = .finite (2^46) := by
    exact_mod_cast Binary64.ofRat_natCast (n := 2^46) (by norm_num)
  have hcast : (state.toNat : ℚ) < 2^46 := by exact_mod_cast hlt
  have hrepresentable : Binary64.format.Representable (state.toNat/2^46) := by
    refine ⟨state.toNat, -46, by decide, ?_, ?_⟩
    · rw [Nat.abs_cast]
      exact_mod_cast hlt.trans (show 2^46 < 2^53 by norm_num)
    · rw [zpow_neg, div_eq_mul_inv, Int.cast_natCast]
      norm_num
  have hsmall : |(state.toNat/2^46 : ℚ)| < 2^1024 := by
    rw [abs_of_nonneg (by positivity)]
    calc
      (state.toNat/2^46 : ℚ) ≤ state.toNat := div_le_self (Nat.cast_nonneg _) (by norm_num)
      _ < 2^1024 := hcast.trans (pow_lt_pow_right₀ (by norm_num) (by norm_num))
  rw [npbUniform, hvalue, hmodulus]
  change (if (2^46 : ℚ) = 0 then Binary64.nan else Binary64.round _) = _
  rw [if_neg (by norm_num), Binary64.round_of_representable hrepresentable hsmall]

theorem npbUniform_between (hpos : 0 < state.toNat) (hlt : state.toNat < 2^46) :
    ∃ u, npbUniform state = .finite u ∧ 1/2^46 ≤ u ∧ u < 1 := by
  refine ⟨_, npbUniform_eq hlt, ?_, ?_⟩
  · have hone : (1 : ℚ) ≤ state.toNat := by exact_mod_cast hpos
    exact div_le_div_of_nonneg_right hone (by norm_num)
  · rw [div_lt_one (by norm_num)]
    exact_mod_cast hlt

/-- The least uniform deviate is above the bound at which `ep_compute` clamps. -/
theorem npbUniform_not_clamped (hpos : 0 < state.toNat) (hlt : state.toNat < 2^46) :
    (npbUniform state).lt (.ofRat (1/10^15)) = false := by
  obtain ⟨u, hu, hle, _⟩ := npbUniform_between hpos hlt
  have hleast : Binary64.format.Representable (2^(-46 : ℤ)) :=
    Rounding.Format.representable_two_zpow (by decide) (by decide)
  have hsmall : (2 : ℚ)^(-46 : ℤ) < 2^1024 := by
    have hone : (2 : ℚ)^(-46 : ℤ) < 1 := by norm_num
    exact hone.trans (one_lt_pow₀ (by norm_num) (by norm_num))
  have hbound : (Binary64.ofRat (1/10^15)).Within (2^(-46 : ℤ)) :=
    Binary64.round_within hleast hsmall (by rw [abs_of_nonneg] <;> norm_num)
  obtain ⟨c, hc, hcle⟩ := hbound
  have hcu : c ≤ u := by
    refine (le_abs_self c).trans (hcle.trans (le_trans ?_ hle))
    norm_num
  rw [hu, hc]
  exact decide_eq_false (not_lt.mpr hcu)

end Uniform

/-- The states of the generator after its calls. -/
theorem states_range (seed : Int64) (k : Nat) :
    0 < (npbRand^[k] (epStart seed)).toNat ∧ (npbRand^[k] (epStart seed)).toNat < 2^46 := by
  obtain ⟨hpos, hlt⟩ := epStart_range seed
  rw [npbRand_iterate]
  exact ⟨iterate_pos multiplier_coprime hlt hpos k, iterate_lt hlt k⟩

/-- A round of `ep_compute` makes two calls. -/
theorem epPair_iterate_state (n : Nat) (s : UInt64 × EpResult) :
    ((epPair libm)^[n] s).1 = npbRand^[2*n] s.1 := by
  induction n with
  | zero => rfl
  | succ n ih =>
    rw [Function.iterate_succ_apply', Nat.mul_succ, Function.iterate_succ_apply',
      Function.iterate_succ_apply', ← ih]
    rfl

/-- No round of `ep_compute` clamps its first deviate. -/
theorem epPair_not_clamped (seed : Int64) (result : EpResult) (n : Nat) :
    (npbUniform (npbRand ((epPair libm)^[n] (epStart seed, result)).1)).lt (.ofRat (1/10^15)) =
      false := by
  obtain ⟨hpos, hlt⟩ := states_range seed (2*n+1)
  rw [Function.iterate_succ_apply'] at hpos hlt
  rw [epPair_iterate_state]
  exact npbUniform_not_clamped hpos hlt

/-- The states of different starts never meet. -/
theorem states_apart {seed seed' : Int64} {k : Nat}
    (h : npbRand^[k] (epStart seed) = npbRand^[k] (epStart seed')) :
    (epStart seed).toNat = (epStart seed').toNat := by
  have hstates := congrArg UInt64.toNat h
  rw [npbRand_iterate, npbRand_iterate] at hstates
  exact iterate_inj multiplier_coprime (epStart_range seed).2 (epStart_range seed').2 hstates

section Seeds
variable {a : Arguments} {run run' : Int32} {worker worker' : Nat}

/-- The seeds of a job are small and positive. -/
theorem epSeed_toInt (hworkers : a.nworkers ≤ maxWorkers)
    (hrun : 1 ≤ run.toInt ∧ run.toInt ≤ maxRuns) (hworker : worker < a.nworkers) :
    (epSeed a run worker).toInt = run.toInt*a.nworkers+worker ∧
      0 < (epSeed a run worker).toInt ∧ (epSeed a run worker).toInt < 2^46 := by
  obtain ⟨hmin, hmax⟩ := hrun
  simp only [maxWorkers, maxRuns] at hworkers hmax
  have hlow : (a.nworkers : Int) ≤ run.toInt*a.nworkers :=
    le_mul_of_one_le_left (Int.natCast_nonneg _) hmin
  have hhigh : run.toInt*a.nworkers ≤ 1000*a.nworkers :=
    mul_le_mul_of_nonneg_right (by exact_mod_cast hmax) (Int.natCast_nonneg _)
  have hseed : (epSeed a run worker).toInt = run.toInt*a.nworkers+worker :=
    Int64.toInt_ofInt_of_le (by omega) (by omega)
  rw [hseed]
  refine ⟨rfl, ?_, ?_⟩ <;> omega

/-- A seed tells the run and the worker. -/
theorem epSeed_inj (hworkers : a.nworkers ≤ maxWorkers)
    (hrun : 1 ≤ run.toInt ∧ run.toInt ≤ maxRuns) (hworker : worker < a.nworkers)
    (hrun' : 1 ≤ run'.toInt ∧ run'.toInt ≤ maxRuns) (hworker' : worker' < a.nworkers)
    (h : (epSeed a run worker).toInt = (epSeed a run' worker').toInt) :
    run = run' ∧ worker = worker' := by
  rw [(epSeed_toInt hworkers hrun hworker).1, (epSeed_toInt hworkers hrun' hworker').1] at h
  have hquotient : ∀ (r : Int) {w : Nat}, w < a.nworkers → (r*a.nworkers+w)/a.nworkers = r := by
    intro r w hw
    rw [Int.add_comm, Int.add_mul_ediv_right _ _ (by omega),
      Int.ediv_eq_zero_of_lt (Int.natCast_nonneg w) (by omega), Int.zero_add]
  have hruns : run.toInt = run'.toInt := by
    rw [← hquotient run.toInt hworker, h, hquotient run'.toInt hworker']
  rw [hruns] at h
  exact ⟨Int32.toInt_inj.mp hruns, by omega⟩

end Seeds

/-- The generator computes powers of its multiplier exactly, never degenerates, and serves every
worker of every run from states of its own. -/
theorem ep_generator_sound :
    (∀ (seed : Int64) (k : Nat),
      (epStart seed).toNat =
        (if seed.toInt.toNat%2^46 = 0 then 271828183 else seed.toInt.toNat%2^46) ∧
      (npbRand^[k] (epStart seed)).toNat = 5^(13*k)*(epStart seed).toNat%2^46 ∧
      1 ≤ (npbRand^[k] (epStart seed)).toNat ∧ (npbRand^[k] (epStart seed)).toNat ≤ 2^46-1 ∧
      (∀ j, 2^j ∣ (npbRand^[k] (epStart seed)).toNat ↔ 2^j ∣ (epStart seed).toNat) ∧
      (∃ u, npbUniform (npbRand^[k] (epStart seed)) = .finite u ∧ 0 < u ∧ u < 1) ∧
      ∀ (libm : Libm) (result : EpResult),
        (npbUniform (npbRand ((epPair libm)^[k] (epStart seed, result)).1)).lt
          (.ofRat (1/10^15)) = false) ∧
    ∀ (a : Arguments) (run run' : Int32) (worker worker' k : Nat), a.nworkers ≤ maxWorkers →
      1 ≤ run.toInt ∧ run.toInt ≤ maxRuns → 1 ≤ run'.toInt ∧ run'.toInt ≤ maxRuns →
      worker < a.nworkers → worker' < a.nworkers → (run, worker) ≠ (run', worker') →
      npbRand^[k] (epStart (epSeed a run worker)) ≠ npbRand^[k] (epStart (epSeed a run' worker')) := by
  refine ⟨?_, ?_⟩
  · intro seed k
    obtain ⟨hpos, hlt⟩ := states_range seed k
    obtain ⟨hstart, hbound⟩ := epStart_range seed
    obtain ⟨u, hu, hlow, hhigh⟩ := npbUniform_between hpos hlt
    refine ⟨epStart_toNat seed, ?_, hpos, by omega, ?_, ⟨u, hu, ?_, hhigh⟩,
      fun libm result => epPair_not_clamped seed result k⟩
    · rw [npbRand_iterate, iterate_next hbound, ← pow_mul]
    · intro j
      rw [npbRand_iterate]
      exact pow_dvd_iterate_iff multiplier_coprime hbound hstart k j
    · exact lt_of_lt_of_le (by norm_num) hlow
  · intro a run run' worker worker' k hworkers hrun hrun' hworker hworker' hne heq
    obtain ⟨_, hpos, hlt⟩ := epSeed_toInt hworkers hrun hworker
    obtain ⟨_, hpos', hlt'⟩ := epSeed_toInt hworkers hrun' hworker'
    have hseeds : (epSeed a run worker).toInt = (epSeed a run' worker').toInt := by
      rw [← epStart_of_small hpos hlt, ← epStart_of_small hpos' hlt', states_apart heq]
    obtain ⟨hruns, hworkers'⟩ := epSeed_inj hworkers hrun hworker hrun' hworker' hseeds
    exact hne (Prod.ext hruns hworkers')

end DistributedEnclave.Npb
