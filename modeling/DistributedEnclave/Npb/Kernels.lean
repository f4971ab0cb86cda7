import DistributedEnclave.Links
import DistributedEnclave.Npb.TaskTokens
import DistributedEnclave.Npb.Transfer

/-! The computations of the other workloads, and what the checks on both sides say of them. -/
namespace DistributedEnclave.Npb

def mibBytes : Nat := 1048576
def epBins : Nat := 10
def npbTwoPi : Binary64 := .ofRat (6283185307179586/1000000000000000)

/-- The mathematical library of a machine, within the bounds it is documented to keep. -/
structure Libm where
  log : Binary64 → Binary64
  sqrt : Binary64 → Binary64
  sin : Binary64 → Binary64
  cos : Binary64 → Binary64
  log_range : ∀ r : ℚ, 1/2^50 ≤ r → r ≤ 1 → ∃ l, log (.finite r) = .finite l ∧ -35 ≤ l ∧ l ≤ 0
  sqrt_range : ∀ r : ℚ, 0 ≤ r → r ≤ 81 → ∃ s, sqrt (.finite r) = .finite s ∧ 0 ≤ s ∧ s ≤ 9
  sin_range : ∀ r, (sin (.finite r)).Within 1
  cos_range : ∀ r, (cos (.finite r)).Within 1

/-- What a process finds on its machine: the clock, the mathematical library, the numbers that
`rand` yields after `srand(42)`, and how it was built. -/
structure Host where
  clock : Clock
  libm : Libm
  rand : Nat → Nat
  randMax : Nat
  skipAttestation : Bool

section Ep
variable (libm : Libm)

def npbMask : UInt64 := 70368744177663

def npbRand (state : UInt64) : UInt64 := (1220703125*state) &&& npbMask

def npbUniform (state : UInt64) : Binary64 := .ofRat state.toNat / .ofRat (2^46)

def boxMuller (u1 u2 : Binary64) : Binary64 × Binary64 :=
  let u1 := if u1.lt (.ofRat (1/10^15)) then .ofRat (1/10^15) else u1
  let t := libm.sqrt (-.ofRat 2 * libm.log u1)
  (t*libm.cos (npbTwoPi*u2), t*libm.sin (npbTwoPi*u2))

def epBin (x y : Binary64) : Nat :=
  let lmax := if y.fabs.lt x.fabs then x.fabs else y.fabs
  let bin := lmax.truncate
  if bin ≥ epBins then epBins-1 else bin.toNat

/-- One round of the loop of `ep_compute`. -/
def epPair (s : UInt64 × EpResult) : UInt64 × EpResult :=
  let state := npbRand s.1
  let state' := npbRand state
  let (x, y) := boxMuller libm (npbUniform state) (npbUniform state')
  (state', { counts := s.2.counts.modify (epBin x y) (· + 1), sx := s.2.sx+x, sy := s.2.sy+y })

def epStart (seed : Int64) : UInt64 :=
  let state := if seed > 0 then seed.toUInt64 &&& npbMask else 0
  if state = 0 then 271828183 else state

def epCompute (pairs seed : Int64) : EpResult :=
  ((epPair libm)^[pairs.toInt.toNat]
    (epStart seed, { counts := List.replicate epBins 0, sx := 0, sy := 0 })).2

/-- The loop over the bins of a result: how many pairs they hold, unless that is too many. -/
def countPairs (pairs : Int) : Int → List Int → Option Int
  | workerPairs, [] => some workerPairs
  | workerPairs, count :: counts =>
    if count < 0 ∨ count > pairs-workerPairs then none
    else countPairs pairs (workerPairs+count) counts

def epValid (pairs : Int64) (result : EpResult) : Bool :=
  countPairs pairs.toInt 0 result.counts = some pairs.toInt &&
    result.sx.isfinite && result.sy.isfinite

variable {libm}

theorem npbUniform_range (state : UInt64) :
    ∃ u, npbUniform (npbRand state) = .finite u ∧ 0 ≤ u ∧ u ≤ 1 := by
  have hstate : (npbRand state).toNat ≤ 70368744177663 := by
    rw [npbRand, UInt64.toNat_and]
    exact Nat.and_le_right
  have hvalue : Binary64.ofRat (npbRand state).toNat = .finite (npbRand state).toNat :=
    Binary64.ofRat_natCast (by omega)
  have hmodulus : Binary64.ofRat (2^46) = .finite (2^46) := by
    exact_mod_cast Binary64.ofRat_natCast (n := 2^46) (by norm_num)
  rw [npbUniform, hvalue, hmodulus]
  change ∃ u, (if (2^46 : ℚ) = 0 then Binary64.nan else Binary64.round _) = _ ∧ _
  rw [if_neg (by norm_num)]
  have hnonneg : (0 : ℚ) ≤ (npbRand state).toNat/2^46 :=
    div_nonneg (Nat.cast_nonneg _) (by norm_num)
  refine (Binary64.round_between (n := 1) (by norm_num) hnonneg ?_).imp ?_
  · have hle : ((npbRand state).toNat : ℚ) ≤ 70368744177663 := by exact_mod_cast hstate
    rw [div_le_iff₀ (by norm_num)]
    push_cast
    linarith
  · intro u hu
    exact_mod_cast hu

/-- The deviates are small. -/
theorem boxMuller_within {u1 u2 : ℚ} (h1 : u1 ≤ 1) (h2 : |u2| ≤ 1) :
    (boxMuller libm (.finite u1) (.finite u2)).1.Within (9 : Nat) ∧
      (boxMuller libm (.finite u1) (.finite u2)).2.Within (9 : Nat) := by
  have hleast : ∃ c, Binary64.ofRat (1/10^15) = .finite c ∧ 1/2^50 ≤ c ∧ c ≤ 1 := by
    obtain ⟨c, hc, _, hle⟩ :=
      Binary64.round_between (q := 1/10^15) (n := 1) (by norm_num) (by norm_num) (by norm_num)
    refine ⟨c, hc, ?_, by exact_mod_cast hle⟩
    have hpow : (2 : ℚ)^(-50 : ℤ) ≤ 1/10^15 := by norm_num
    have hnearest := Rounding.Format.two_zpow_le_nearest (F := Binary64.format) (by decide)
      (by decide) hpow
    rw [Binary64.round] at hc
    split at hc
    · cases hc
    · cases hc
      refine le_trans ?_ hnearest
      norm_num
  obtain ⟨c, hc, hclow, hcle⟩ := hleast
  have hclamped : ∃ r, (if (Binary64.finite u1).lt (.finite c) then Binary64.finite c
      else .finite u1) = .finite r ∧ 1/2^50 ≤ r ∧ r ≤ 1 := by
    by_cases hlt : u1 < c
    · exact ⟨c, if_pos (decide_eq_true hlt), hclow, hcle⟩
    · refine ⟨u1, if_neg ?_, hclow.trans (not_lt.mp hlt), h1⟩
      rw [Binary64.lt, decide_eq_true_eq]
      exact hlt
  obtain ⟨r, hr, hrlow, hrle⟩ := hclamped
  obtain ⟨l, hl, hllow, hlle⟩ := libm.log_range r hrlow hrle
  have htwo : Binary64.ofRat 2 = .finite 2 := Binary64.ofRat_ofNat (by norm_num)
  obtain ⟨m, hm, hm0, hmle⟩ :=
    Binary64.round_between (q := -2*l) (n := 70) (by norm_num) (by linarith)
      (by push_cast; linarith)
  have hproduct : -Binary64.finite 2 * .finite l = .finite m := hm
  push_cast at hmle
  obtain ⟨t, ht, ht0, htle⟩ := libm.sqrt_range m hm0 (by linarith)
  have hangle : ∃ a, npbTwoPi * Binary64.finite u2 = .finite a := by
    have hpi : npbTwoPi.Within (7 : Nat) :=
      Binary64.ofRat_within (by norm_num) (by rw [abs_of_nonneg] <;> norm_num)
    obtain ⟨a, ha, _⟩ := Binary64.mul_within (n := 7) hpi ⟨u2, rfl, h2⟩ (by norm_num)
      (by norm_num)
    exact ⟨a, ha⟩
  obtain ⟨a, ha⟩ := hangle
  have hradius : (Binary64.finite t).Within (9 : Nat) :=
    ⟨t, rfl, by rw [abs_of_nonneg ht0]; exact_mod_cast htle⟩
  simp only [boxMuller, hc, hr, hl, htwo, hproduct, ht, ha]
  constructor
  · exact Binary64.mul_within hradius (libm.cos_range a) (by norm_num) (by norm_num)
  · exact Binary64.mul_within hradius (libm.sin_range a) (by norm_num) (by norm_num)

theorem epBin_lt (x y : Binary64) : epBin x y < epBins := by
  simp only [epBin]
  generalize (if y.fabs.lt x.fabs then x.fabs else y.fabs).truncate = bin
  by_cases hbin : bin ≥ epBins
  · rw [if_pos hbin]
    decide
  · rw [if_neg hbin]
    simp only [epBins] at hbin ⊢
    omega

structure EpCounted (i : Nat) (result : EpResult) : Prop where
  bins : result.counts.length = epBins
  nonneg : ∀ count ∈ result.counts, 0 ≤ count
  sum : result.counts.sum = i
  sx : result.sx.Within (2^62)
  sy : result.sy.Within (2^62)

theorem nonneg_modify_succ {counts : List Int} {b : Nat} (h : ∀ count ∈ counts, 0 ≤ count) :
    ∀ count ∈ counts.modify b (· + 1), 0 ≤ count := by
  intro count hc
  obtain ⟨i, hi, rfl⟩ := List.mem_iff_getElem.mp hc
  rw [List.length_modify] at hi
  have hold := h _ (List.getElem_mem hi)
  rw [List.getElem_modify]
  split <;> omega

theorem sum_modify_succ {counts : List Int} {b : Nat} (hb : b < counts.length) :
    (counts.modify b (· + 1)).sum = counts.sum+1 := by
  obtain ⟨l₁, count, l₂, hl, _, hmodify⟩ := List.exists_of_modify (· + (1 : Int)) hb
  rw [hmodify, hl]
  simp only [List.sum_append, List.sum_cons]
  omega

theorem EpCounted.pair {i : Nat} {s : UInt64 × EpResult} (h : EpCounted i s.2) :
    EpCounted (i+1) (epPair libm s).2 := by
  obtain ⟨u1, hu1, _, hu1le⟩ := npbUniform_range s.1
  obtain ⟨u2, hu2, hu20, hu2le⟩ := npbUniform_range (npbRand s.1)
  have hu2abs : |u2| ≤ 1 := by rwa [abs_of_nonneg hu20]
  have hdeviates : (boxMuller libm (.finite u1) (.finite u2)).1.Within (9 : Nat) ∧
      (boxMuller libm (.finite u1) (.finite u2)).2.Within (9 : Nat) :=
    boxMuller_within hu1le hu2abs
  obtain ⟨hx, hy⟩ := hdeviates
  have hsmall : ((9 : Nat) : ℚ) < 2^(62-53) := by norm_num
  have hbin := epBin_lt (boxMuller libm (.finite u1) (.finite u2)).1
    (boxMuller libm (.finite u1) (.finite u2)).2
  simp only [epPair, hu1, hu2]
  constructor
  · rw [List.length_modify]
    exact h.bins
  · exact nonneg_modify_succ h.nonneg
  · rw [sum_modify_succ (h.bins ▸ hbin), h.sum, Nat.cast_succ]
  · exact Binary64.add_saturates h.sx hx (by norm_num) (by norm_num) hsmall
  · exact Binary64.add_saturates h.sy hy (by norm_num) (by norm_num) hsmall

theorem countPairs_eq {pairs workerPairs : Int} {counts : List Int} (h : ∀ count ∈ counts, 0 ≤ count)
    (hle : workerPairs+counts.sum ≤ pairs) :
    countPairs pairs workerPairs counts = some (workerPairs+counts.sum) := by
  induction counts generalizing workerPairs with
  | nil => simp [countPairs]
  | cons count counts ih =>
    have hcount := h count List.mem_cons_self
    have hrest : ∀ c ∈ counts, 0 ≤ c := fun c hc => h c (List.mem_cons_of_mem count hc)
    have hsum := List.sum_nonneg hrest
    rw [List.sum_cons] at hle ⊢
    rw [countPairs, if_neg (by omega), ih hrest (by omega), add_assoc]

/-- What a worker computes passes the checks of the master. -/
theorem epCompute_valid {pairs : Int64} (hpairs : 0 ≤ pairs.toInt) (seed : Int64) :
    epValid pairs (epCompute libm pairs seed) = true := by
  have hzero : (0 : Binary64).Within (2^62) := ⟨0, rfl, by norm_num⟩
  have hcounted : ∀ n s, EpCounted 0 s.2 → EpCounted n ((epPair libm)^[n] s).2 := by
    intro n
    induction n with
    | zero => exact fun s hs => hs
    | succ n ih =>
      intro s hs
      rw [Function.iterate_succ_apply']
      exact (ih s hs).pair
  have hresult : EpCounted pairs.toInt.toNat (epCompute libm pairs seed) :=
    hcounted _ _ ⟨rfl, fun count hc => (List.eq_of_mem_replicate hc).ge, rfl, hzero, hzero⟩
  have hsum : (epCompute libm pairs seed).counts.sum = pairs.toInt := by
    rw [hresult.sum, Int.toNat_of_nonneg hpairs]
  have hcount : countPairs pairs.toInt 0 (epCompute libm pairs seed).counts =
      some (0+(epCompute libm pairs seed).counts.sum) :=
    countPairs_eq hresult.nonneg (by omega)
  rw [epValid, hcount, hsum, zero_add, hresult.sx.isfinite, hresult.sy.isfinite]
  simp

end Ep

section Cg
variable (host : Host)

/-- The matrix of `generate_sparse_matrix`: where its rows begin, the columns of their entries
and the entries. -/
def rowPtr (n nzpc : Nat) : List Int32 := (List.range (n+1)).map (fun i => Int32.ofNat (i*nzpc))

def colIdx (n nzpc : Nat) : List Int32 :=
  (List.range (n*nzpc)).map (fun k => Int32.ofNat (host.rand (2*k)%n))

def val (n nzpc : Nat) : List Binary64 :=
  (List.range (n*nzpc)).map (fun k =>
    .ofRat (host.rand (2*k+1)) / .ofRat host.randMax * .ofRat 2 - .ofRat 1)

def spmvKernel (nrows : Nat) (rowPtr cols : List Int32) (vals x : List Binary64) : List Binary64 :=
  (List.range nrows).map (fun i =>
    let first := (rowPtr[i]?.getD 0).toInt.toNat
    let last := (rowPtr[i+1]?.getD 0).toInt.toNat
    (List.range' first (last-first)).foldl (fun sum j =>
      sum + vals[j]?.getD 0 * x[(cols[j]?.getD 0).toInt.toNat]?.getD 0) 0)

def normalized (x y : List Binary64) : List Binary64 :=
  let norm := host.libm.sqrt (y.foldl (fun norm yi => norm + yi*yi) 0)
  if Binary64.lt 0 norm then y.map (· / norm) else x

def overwrite (y : List Binary64) (start : Nat) (part : List Binary64) : List Binary64 :=
  y.take start ++ part ++ y.drop (start+part.length)

end Cg

section Stream

/-- `a[i] = b[i] + scalar * c[i]`, over the whole arrays. -/
def triad (b c : List Binary64) : List Binary64 :=
  b.zipWith (fun bi ci => bi + .ofRat 3 * ci) c

def total (a : List Binary64) : Binary64 := a.foldl (· + ·) 0

def streamExpected (n : Nat) : Binary64 := .ofRat 7 * .ofRat n

def streamResult (clock : Clock) (n : Nat) (run : Int32) : StreamResult where
  run := run
  verified :=
    let checksum := total (triad (List.replicate n (.ofRat 1)) (List.replicate n (.ofRat 2)))
    if checksum.isfinite && checksum.eq (streamExpected n) then 1 else 0
  computeMs := clock.ms (.stream run)
  checksum := total (triad (List.replicate n (.ofRat 1)) (List.replicate n (.ofRat 2)))

def streamValid (n : Nat) (run : Int32) (result : StreamResult) : Bool :=
  result.run = run && result.verified ≠ 0 && result.computeMs.isfinite &&
    !result.computeMs.lt 0 && result.checksum.eq (streamExpected n)

theorem triad_ones_twos (n : Nat) :
    triad (List.replicate n (.ofRat 1)) (List.replicate n (.ofRat 2)) =
      List.replicate n (.finite (7 : Nat)) := by
  have hone : Binary64.ofRat 1 = .finite (1 : Nat) := by
    rw [← Nat.cast_one]
    exact Binary64.ofRat_natCast (by norm_num)
  have htwo : Binary64.ofRat 2 = .finite (2 : Nat) := Binary64.ofRat_ofNat (by norm_num)
  have hthree : Binary64.ofRat 3 = .finite (3 : Nat) := Binary64.ofRat_ofNat (by norm_num)
  rw [triad, List.zipWith_replicate, Nat.min_self, hone, htwo, hthree,
    Binary64.finite_mul_natCast (by norm_num), Binary64.finite_add_natCast (by norm_num)]

theorem total_sevens {n m : Nat} (h : 7*(n+m) < 2^53) :
    (List.replicate m (.finite (7 : Nat))).foldl (· + ·) (.finite (7*n : Nat)) =
      Binary64.finite (7*(n+m) : Nat) := by
  induction m generalizing n with
  | zero => rfl
  | succ m ih =>
    rw [List.replicate_succ, List.foldl_cons, Binary64.finite_add_natCast (by omega)]
    have hnext := ih (n := n+1) (by omega)
    rwa [Nat.add_right_comm n 1 m] at hnext

theorem total_triad {n : Nat} (h : 7*n < 2^53) :
    total (triad (List.replicate n (.ofRat 1)) (List.replicate n (.ofRat 2))) =
      .finite (7*n : Nat) := by
  have hsum := total_sevens (n := 0) (m := n) (by omega)
  rw [Nat.mul_zero, Nat.cast_zero, Nat.zero_add] at hsum
  rw [triad_ones_twos]
  exact hsum

/-- What a worker reports is what the master expects: the sum is exact. -/
theorem streamResult_valid (clock : Clock) {n : Nat} (h : 7*n < 2^53) (run : Int32) :
    streamValid n run (streamResult clock n run) = true := by
  have hexpected : streamExpected n = .finite (7*n : Nat) := by
    have hseven : Binary64.ofRat 7 = .finite (7 : Nat) := Binary64.ofRat_ofNat (by norm_num)
    rw [streamExpected, hseven, Binary64.ofRat_natCast (by omega), Binary64.finite_mul_natCast h]
  simp [streamValid, streamResult, total_triad h, hexpected, Binary64.eq, clock.isfinite,
    clock.nonneg]

end Stream

section Random
open Links Set

def exchange (order : Nat → Nat) (i other : Nat) : Nat → Nat :=
  Function.update (Function.update order i (order other)) other (order i)

/-- The loop that shuffles `order`, for `i` down to 1. -/
def shuffle : Nat → UInt64 → (Nat → Nat) → Nat → Nat
  | 0, _, order => order
  | i+1, rng, order =>
    let rng := xorshift64Step rng
    shuffle i rng (exchange order (i+1) (rng.toNat%(i+2)))

def randomOrder (n : Nat) : Nat → Nat := shuffle (n-1) 0x4d595df4d0f33173 id

/-- The loop that links every entry to the next and finds the place of 0. -/
def linkOrder (n : Nat) (order : Nat → Nat) : (Nat → Nat) × Nat :=
  (List.range n).foldl (fun s i =>
    let next := if i+1 = n then 0 else i+1
    (Function.update s.1 (order i) (order next), if order i = 0 then i else s.2))
    (fun _ => 0, 0)

/-- What a worker works out before the runs: the links, the token after the warm-up and the
two tokens it expects. -/
structure Chase where
  links : Nat → Nat
  warmToken : Nat
  expectedWarmToken : Nat
  expectedFinalToken : Nat

def prepareChase (n : Nat) (accesses warmup : UInt64) : Chase :=
  let order := randomOrder n
  let (links, zeroPosition) := linkOrder n order
  let warmPosition := (zeroPosition+warmup.toNat%n)%n
  { links := links
    warmToken := links^[warmup.toNat] 0
    expectedWarmToken := order warmPosition
    expectedFinalToken := order ((warmPosition+accesses.toNat%n)%n) }

def Chase.final (chase : Chase) (accesses : UInt64) : Nat :=
  chase.links^[accesses.toNat] chase.warmToken

def randomResult (clock : Clock) (chase : Chase) (accesses : UInt64) (run : Int32) :
    RandomResult where
  run := run
  verified := if chase.final accesses = chase.expectedFinalToken then 1 else 0
  finalToken := UInt32.ofNat (chase.final accesses)
  computeMs := clock.ms (.random run)

def Shuffled (n : Nat) (order : Nat → Nat) : Prop :=
  ∃ perm : Equiv.Perm Nat, order = perm ∧ ∀ k, perm k < n ↔ k < n

theorem Shuffled.exchange {n i other : Nat} {order : Nat → Nat} (h : Shuffled n order)
    (hi : i < n) (hother : other < n) : Shuffled n (exchange order i other) := by
  obtain ⟨perm, rfl, hperm⟩ := h
  refine ⟨(Equiv.swap other i).trans perm, ?_, ?_⟩
  · exact (Equiv.comp_swap_eq_update other i perm).symm
  · intro k
    rw [Equiv.trans_apply, hperm]
    by_cases hk : k = other
    · subst hk
      rw [Equiv.swap_apply_left]
      exact iff_of_true hi hother
    by_cases hki : k = i
    · subst hki
      rw [Equiv.swap_apply_right]
      exact iff_of_true hother hi
    · rw [Equiv.swap_apply_of_ne_of_ne hk hki]

theorem shuffle_shuffled {n i : Nat} {rng : UInt64} {order : Nat → Nat} (h : Shuffled n order)
    (hi : i < n) : Shuffled n (shuffle i rng order) := by
  induction i generalizing rng order with
  | zero => exact h
  | succ i ih =>
    rw [shuffle]
    refine ih (h.exchange hi ?_) (by omega)
    exact (Nat.mod_lt _ (by omega)).trans_le hi

theorem randomOrder_shuffled {n : Nat} (hn : 0 < n) : Shuffled n (randomOrder n) :=
  shuffle_shuffled ⟨Equiv.refl Nat, rfl, fun _ => Iff.rfl⟩ (by omega)

theorem Shuffled.bijOn {n : Nat} {order : Nat → Nat} (h : Shuffled n order) :
    BijOn order (Iio n) (Iio n) := by
  obtain ⟨perm, rfl, hperm⟩ := h
  refine ⟨fun k hk => (hperm k).mpr hk, perm.injective.injOn, ?_⟩
  intro k hk
  refine ⟨perm.symm k, ?_, perm.apply_symm_apply k⟩
  change perm.symm k < n
  rw [← hperm, perm.apply_symm_apply]
  exact hk

/-- The links lead through all entries in turn. -/
theorem linkOrder_links {n : Nat} {order : Nat → Nat} (h : Shuffled n order) :
    (∀ j < n, (linkOrder n order).1 (order j) = order ((j+1)%n)) ∧
      ∀ j < n, order j = 0 → (linkOrder n order).2 = j := by
  have hlinks : (linkOrder n order).1 = (List.range n).foldl (fun t i =>
      Function.update t (order i) (order (if i+1 = n then 0 else i+1))) (fun _ => 0) :=
    (List.foldl_hom Prod.fst fun _ _ => rfl).symm
  have hplace : (linkOrder n order).2 =
      (List.range n).foldl (fun p i => if order i = 0 then i else p) 0 :=
    (List.foldl_hom Prod.snd fun _ _ => rfl).symm
  refine ⟨?_, ?_⟩
  · intro j hj
    rw [hlinks, foldl_assign h.bijOn.injOn le_rfl _ _ hj, next_index hj]
  · intro j hj hzero
    rw [hplace, ← hzero]
    exact foldl_place h.bijOn.injOn le_rfl _ _ hj

/-- Both tokens are the ones expected. -/
theorem prepareChase_expected {n : Nat} (hn : 0 < n) (accesses warmup : UInt64) :
    (prepareChase n accesses warmup).warmToken =
        (prepareChase n accesses warmup).expectedWarmToken ∧
      (prepareChase n accesses warmup).final accesses =
        (prepareChase n accesses warmup).expectedFinalToken := by
  have hshuffled := randomOrder_shuffled hn
  obtain ⟨hlinks, hzero⟩ := linkOrder_links hshuffled
  obtain ⟨z, hz, hz0⟩ := hshuffled.bijOn.surjOn (show 0 ∈ Iio n from hn)
  have hposition : (linkOrder n (randomOrder n)).2 = z := hzero z hz hz0
  have hwarm : (linkOrder n (randomOrder n)).1^[warmup.toNat] 0 =
      randomOrder n ((z+warmup.toNat%n)%n) := by
    rw [← hz0, iterate_order hlinks hz, Nat.add_mod_mod]
  refine ⟨?_, ?_⟩
  · simp only [prepareChase, hposition]
    exact hwarm
  · simp only [Chase.final, prepareChase, hposition, hwarm]
    rw [iterate_order hlinks (Nat.mod_lt _ hn)]
    simp only [Nat.add_mod_mod]

end Random

section Vmap

def vmapInputValue (index : Nat) : Binary64 :=
  .ofRat (index%4096 : Nat) / .ofRat 128 - .ofRat 8

def vmapTransform (value : Binary64) : Binary64 := value * .ofRat (5/4) + .ofRat (1/2)

def vmapInput (n : Nat) : List Binary64 := (List.range n).map vmapInputValue

def vmapSamples (n : Nat) : List Nat := [0, n/2, n-1]

/-- The samples of `output` are what the transform makes of those of `input`. -/
def samplesMatch (input output : List Binary64) (n : Nat) : Bool :=
  (vmapSamples n).all (fun index =>
    (output[index]?.getD 0).eq (vmapTransform (input[index]?.getD 0)))

def vmapResult (clock : Clock) (n : Nat) (run : Int32) (input : List Binary64) : VmapResult where
  run := run
  verified :=
    let output := input.map vmapTransform
    if (total output).isfinite && samplesMatch input output n then 1 else 0
  computeMs := clock.ms (.vmap run)
  checksum := total (input.map vmapTransform)

def vmapValid (n : Nat) (run : Int32) (result : VmapResult) : Bool :=
  let expected := total ((vmapInput n).map vmapTransform)
  result.run = run && result.verified ≠ 0 && result.computeMs.isfinite &&
    !result.computeMs.lt 0 && result.checksum.isfinite &&
    !(Binary64.ofRat (1/10^9) * Binary64.fmax (.ofRat 1) expected.fabs).lt
      (result.checksum - expected).fabs

theorem vmapTransform_within (index : Nat) :
    (vmapTransform (vmapInputValue index)).Within (128 : Nat) := by
  have hmod : index%4096 < 4096 := Nat.mod_lt index (by norm_num)
  have hin : Binary64.ofRat (index%4096 : Nat) = .finite (index%4096 : Nat) :=
    Binary64.ofRat_natCast (hmod.trans (by norm_num))
  have hscale : Binary64.ofRat 128 = .finite 128 := Binary64.ofRat_ofNat (by norm_num)
  have hquotient : (Binary64.finite (index%4096 : Nat) / .finite 128).Within (32 : Nat) := by
    have hle : ((index%4096 : Nat) : ℚ) ≤ 4096 := by exact_mod_cast hmod.le
    change (if (128 : ℚ) = 0 then Binary64.nan else Binary64.round _).Within _
    rw [if_neg (by norm_num)]
    refine Binary64.ofRat_within (by norm_num) ?_
    rw [abs_of_nonneg (by positivity)]
    push_cast
    linarith
  have height : (Binary64.ofRat 8).Within (8 : Nat) :=
    Binary64.ofRat_within (by norm_num) (by norm_num)
  have hfactor : (Binary64.ofRat (5/4)).Within (2 : Nat) :=
    Binary64.ofRat_within (by norm_num) (by norm_num)
  have hhalf : (Binary64.ofRat (1/2)).Within (1 : Nat) :=
    Binary64.ofRat_within (by norm_num) (by norm_num)
  rw [vmapInputValue, hin, hscale]
  have hvalue := Binary64.sub_within (n := 40) hquotient height (by norm_num) (by norm_num)
  have hproduct := Binary64.mul_within (n := 80) hvalue hfactor (by norm_num) (by norm_num)
  exact Binary64.add_within hproduct hhalf (by norm_num) (by norm_num)

theorem foldl_within {l : List Binary64} {b k : Nat} {x : Binary64} (hl : ∀ y ∈ l, y.Within b)
    (hx : x.Within (b*k : Nat)) (h : b*(k+l.length) < 2^53) :
    (l.foldl (· + ·) x).Within (b*(k+l.length) : Nat) := by
  induction l generalizing x k with
  | nil => exact hx
  | cons y l ih =>
    rw [List.foldl_cons]
    rw [List.length_cons] at h ⊢
    have hnext : (x+y).Within (b*(k+1) : Nat) := by
      refine Binary64.add_within hx (hl y List.mem_cons_self) ?_ ?_
      · exact lt_of_le_of_lt (Nat.mul_le_mul_left b (by omega)) h
      · push_cast
        linarith
    have htail := ih (fun z hz => hl z (List.mem_cons_of_mem y hz)) hnext
      (by rwa [Nat.add_right_comm, Nat.add_assoc])
    rwa [Nat.add_right_comm, Nat.add_assoc] at htail

theorem vmapTotal_within {n : Nat} (h : 128*n < 2^53) :
    (total ((vmapInput n).map vmapTransform)).Within (128*n : Nat) := by
  have hlen : ((vmapInput n).map vmapTransform).length = n := by
    rw [List.length_map, vmapInput, List.length_map, List.length_range]
  have hzero : (0 : Binary64).Within (128*0 : Nat) := ⟨0, rfl, by norm_num⟩
  have hsum := foldl_within (l := (vmapInput n).map vmapTransform) ?_ hzero (by rwa [hlen, Nat.zero_add])
  · rwa [hlen, Nat.zero_add] at hsum
  · intro y hy
    obtain ⟨x, hx, rfl⟩ := List.mem_map.mp hy
    obtain ⟨index, _, rfl⟩ := List.mem_map.mp hx
    exact vmapTransform_within index

theorem samplesMatch_map {n : Nat} (hn : 0 < n) :
    samplesMatch (vmapInput n) ((vmapInput n).map vmapTransform) n = true := by
  rw [samplesMatch, List.all_eq_true]
  intro index hindex
  have hlt : index < n := by
    simp only [vmapSamples, List.mem_cons, List.not_mem_nil, or_false] at hindex
    omega
  have hget : (vmapInput n)[index]? = some (vmapInputValue index) := by
    rw [vmapInput, List.getElem?_map, List.getElem?_range hlt]
    rfl
  rw [List.getElem?_map, hget]
  exact (vmapTransform_within index).eq_self

/-- What a worker reports is what the master expects: both add up the same values. -/
theorem vmapResult_valid (clock : Clock) {n : Nat} (hn : 0 < n) (h : 128*n < 2^53) (run : Int32) :
    vmapValid n run (vmapResult clock n run (vmapInput n)) = true := by
  obtain ⟨sum, hsum, _⟩ := vmapTotal_within h
  have hverified : (vmapResult clock n run (vmapInput n)).verified = 1 := by
    rw [vmapResult]
    simp only [hsum, Binary64.isfinite_finite, samplesMatch_map hn, Bool.and_self, if_true]
  have htolerance : (Binary64.ofRat (1/10^9) *
      Binary64.fmax (.ofRat 1) (Binary64.finite sum).fabs).lt (Binary64.finite 0) = false := by
    obtain ⟨a, ha, hnonneg, _⟩ :=
      Binary64.round_between (q := 1/10^9) (n := 1) (by norm_num) (by norm_num) (by norm_num)
    have hone : Binary64.ofRat 1 = .finite 1 := by
      exact_mod_cast Binary64.ofRat_natCast (n := 1) (by norm_num)
    have hmax : ∃ m, Binary64.fmax (.finite 1) (Binary64.finite |sum|) = .finite m ∧ 0 ≤ m := by
      rw [Binary64.fmax, if_neg (by simp), if_neg (by simp)]
      split
      · exact ⟨_, rfl, abs_nonneg sum⟩
      · exact ⟨_, rfl, by norm_num⟩
    obtain ⟨m, hm, hm0⟩ := hmax
    rw [hone, Binary64.ofRat, ha, Binary64.fabs, hm]
    exact Binary64.round_not_neg (mul_nonneg hnonneg hm0)
  have hzero : (Binary64.finite sum - .finite sum).fabs = .finite 0 := by
    rw [Binary64.sub_self_of_finite]
    rfl
  have hchecksum : (vmapResult clock n run (vmapInput n)).checksum = .finite sum := hsum
  have hms : (vmapResult clock n run (vmapInput n)).computeMs = clock.ms (.vmap run) := rfl
  have hrun : (vmapResult clock n run (vmapInput n)).run = run := rfl
  simp only [vmapValid, hverified, hchecksum, hms, hrun, hsum, hzero, htolerance, clock.isfinite,
    clock.nonneg, Binary64.isfinite_finite]
  simp

end Vmap

end DistributedEnclave.Npb
