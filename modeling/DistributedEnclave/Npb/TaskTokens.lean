import DistributedEnclave.XorMaps

/-! The computations of one TASKQ task, which both programs hold, and the jump table with
which the master checks a token without iterating. -/
namespace DistributedEnclave.Npb
open DistributedEnclave.XorMaps

def xorshift64Step (value : UInt64) : UInt64 :=
  let value := value ^^^ value <<< 13
  let value := value ^^^ value >>> 7
  value ^^^ value <<< 17

def taskInitialToken (taskId : UInt64) (run : Int32) : UInt64 :=
  let token := (0x9e3779b97f4a7c15 : UInt64) ^^^ (taskId*(0xbf58476d1ce4e5b9 : UInt64)) ^^^
    (run.toUInt32.toUInt64 <<< 32)
  if token ≠ 0 then token else 0xd1b54a32d192ed03

def taskInputByte (taskId : UInt64) (run : Int32) (index : Nat) : UInt8 :=
  (taskId*131+run.toUInt32.toUInt64*17+UInt64.ofNat index).toUInt8

def taskOutputByte (input : UInt8) (token taskId : UInt64) (index : Nat) : UInt8 :=
  let shift := UInt64.ofNat (index &&& 7)*8
  let mask := (token >>> shift).toUInt8
  let lane := (UInt64.ofNat index*29+taskId).toUInt8
  input ^^^ mask ^^^ lane

def linearMapApply (map : Nat → UInt64) (value : UInt64) : UInt64 :=
  (List.range 64).foldl (fun result bit =>
    if (value >>> UInt64.ofNat bit) &&& 1 ≠ 0 then result ^^^ map bit else result) 0

def linearMapCompose (outer inner : Nat → UInt64) (bit : Nat) : UInt64 :=
  linearMapApply outer (inner bit)

/-- The loop of `build_xorshift_jump`. -/
def jumpLoop (iterations : Nat) (base jump : Nat → UInt64) : Nat → UInt64 :=
  if iterations = 0 then jump
  else
    let jump := if iterations%2 = 1 then linearMapCompose base jump else jump
    jumpLoop (iterations/2) (if iterations/2 ≠ 0 then linearMapCompose base base else base) jump
termination_by iterations
decreasing_by omega

def buildXorshiftJump (iterations : UInt64) : Nat → UInt64 :=
  jumpLoop iterations.toNat (fun bit => xorshift64Step (1 <<< UInt64.ofNat bit))
    (fun bit => 1 <<< UInt64.ofNat bit)

def onBits (f : UInt64 → UInt64) (v : BitVec 64) : BitVec 64 := (f ⟨v⟩).toBitVec

theorem onBits_iterate (f : UInt64 → UInt64) (n : Nat) (v : BitVec 64) :
    (onBits f)^[n] v = onBits f^[n] v := by
  induction n generalizing v with
  | zero => rfl
  | succ n ih => rw [Function.iterate_succ_apply, ih]; rfl

theorem xorshift64Step_linear : XorLinear (onBits xorshift64Step) := by
  have hleft := fun n => XorLinear.xor (w := 64) XorLinear.identity (XorLinear.shiftLeft n)
  have hright := XorLinear.xor (w := 64) XorLinear.identity (XorLinear.ushiftRight 7)
  exact (hleft 17).comp (hright.comp (hleft 13))

theorem xorshift64Step_bijective : Function.Bijective xorshift64Step := by
  have hleft : ∀ s, 0 < s → Function.Injective (fun v : BitVec 64 => v ^^^ v <<< s) := fun s hs =>
    (vanishes_shiftLeft hs).injective_xor (XorLinear.shiftLeft s)
  have hright : Function.Injective (fun v : BitVec 64 => v ^^^ v >>> 7) :=
    (vanishes_ushiftRight (by decide)).injective_xor (XorLinear.ushiftRight 7)
  have hbits : Function.Bijective (onBits xorshift64Step) := bijective_of_injective
    ((hleft 17 (by decide)).comp (hright.comp (hleft 13 (by decide))))
  constructor
  · intro a b hab
    exact UInt64.toBitVec_inj.mp (hbits.injective (congrArg UInt64.toBitVec hab))
  · intro value
    obtain ⟨v, hv⟩ := hbits.surjective value.toBitVec
    exact ⟨⟨v⟩, UInt64.toBitVec_inj.mp hv⟩

theorem xorshift64Step_eq_zero {value : UInt64} : xorshift64Step value = 0 ↔ value = 0 :=
  xorshift64Step_bijective.injective.eq_iff' rfl

/-- A state that is not 0 stays so. -/
theorem xorshift64Step_iterate_ne_zero {value : UInt64} (h : value ≠ 0) (n : Nat) :
    xorshift64Step^[n] value ≠ 0 := by
  induction n with
  | zero => exact h
  | succ n ih =>
    rw [Function.iterate_succ_apply']
    exact mt xorshift64Step_eq_zero.mp ih

/-- The second constant stands in for a mixed value of 0. -/
theorem taskInitialToken_ne_zero (taskId : UInt64) (run : Int32) :
    taskInitialToken taskId run ≠ 0 := by
  rw [taskInitialToken]
  split
  · assumption
  · decide

def TableOf (map : Nat → UInt64) (g : BitVec 64 → BitVec 64) : Prop :=
  ∀ bit < 64, (map bit).toBitVec = bitImages g bit

theorem shift_amount {bit : Nat} (h : bit < 64) : (UInt64.ofNat bit).toNat % 64 = bit := by
  rw [UInt64.toNat_ofNat']
  omega

theorem bit_test (value : UInt64) {bit : Nat} (h : bit < 64) :
    (value >>> UInt64.ofNat bit) &&& 1 ≠ 0 ↔ value.toBitVec.getLsbD bit = true := by
  have hval : ((value >>> UInt64.ofNat bit) &&& 1).toNat = value.toNat >>> bit % 2 := by
    rw [UInt64.toNat_and, UInt64.toNat_shiftRight, shift_amount h]
    exact Nat.and_one_is_mod _
  rw [ne_eq, ← UInt64.toNat_inj, hval]
  simp [BitVec.getLsbD, Nat.testBit, Nat.and_comm 1, Nat.and_one_is_mod]

theorem one_shiftLeft {bit : Nat} (h : bit < 64) :
    ((1 : UInt64) <<< UInt64.ofNat bit).toBitVec = 1#64 <<< bit := by
  apply BitVec.eq_of_toNat_eq
  rw [UInt64.toNat_toBitVec, UInt64.toNat_shiftLeft, shift_amount h, BitVec.toNat_shiftLeft]
  rfl

theorem linearMapApply_prefix (map : Nat → UInt64) (value : UInt64) {n : Nat} (h : n ≤ 64) :
    ((List.range n).foldl (fun result bit =>
      if (value >>> UInt64.ofNat bit) &&& 1 ≠ 0 then result ^^^ map bit else result) 0).toBitVec =
      xorSum (fun bit => (map bit).toBitVec) value.toBitVec n := by
  induction n with
  | zero => rfl
  | succ n ih =>
    rw [List.range_succ, List.foldl_append, List.foldl_cons, List.foldl_nil, xorSum]
    by_cases hbit : value.toBitVec.getLsbD n = true
    · rw [if_pos ((bit_test value h).mpr hbit), if_pos hbit, UInt64.toBitVec_xor, ih (by omega)]
    · rw [if_neg (mt (bit_test value h).mp hbit), if_neg hbit, ih (by omega)]

/-- Applying a table is applying the map it is the table of. -/
theorem TableOf.apply {map : Nat → UInt64} {g : BitVec 64 → BitVec 64} (h : TableOf map g)
    (hg : XorLinear g) (value : UInt64) : (linearMapApply map value).toBitVec = g value.toBitVec := by
  have hcongr : ∀ n ≤ 64, xorSum (fun bit => (map bit).toBitVec) value.toBitVec n =
      xorSum (bitImages g) value.toBitVec n := by
    intro n hn
    induction n with
    | zero => rfl
    | succ n ih => rw [xorSum, xorSum, ih (by omega), h n (by omega)]
  rw [linearMapApply, linearMapApply_prefix map value (Nat.le_refl 64), hcongr 64 (Nat.le_refl 64),
    hg.eq_xorSum]

theorem TableOf.compose {outer inner : Nat → UInt64} {g f : BitVec 64 → BitVec 64}
    (ho : TableOf outer g) (hg : XorLinear g) (hi : TableOf inner f) :
    TableOf (linearMapCompose outer inner) (g ∘ f) := by
  intro bit hbit
  rw [linearMapCompose, ho.apply hg, hi bit hbit]
  rfl

/-- Binary powering: the loop composes `g` as often as the remaining count says. -/
theorem TableOf.jumpLoop {base jump : Nat → UInt64} {g f : BitVec 64 → BitVec 64} (n : Nat)
    (hb : TableOf base g) (hg : XorLinear g) (hj : TableOf jump f) :
    TableOf (jumpLoop n base jump) (g^[n] ∘ f) := by
  induction n using Nat.strongRecOn generalizing base jump g f with
  | ind n ih =>
    rw [Npb.jumpLoop]
    split
    · rename_i hzero
      subst hzero
      exact hj
    rename_i hpos
    have hjump : TableOf (if n%2 = 1 then linearMapCompose base jump else jump) (g^[n%2] ∘ f) := by
      by_cases hodd : n%2 = 1
      · rw [if_pos hodd, hodd]
        exact hb.compose hg hj
      · have heven : n%2 = 0 := by omega
        rw [if_neg hodd, heven]
        exact hj
    have hsplit : g^[n] ∘ f = (g^[2])^[n/2] ∘ (g^[n%2] ∘ f) := by
      rw [← Function.comp_assoc, ← Function.iterate_mul, ← Function.iterate_add, Nat.div_add_mod]
    rw [hsplit]
    by_cases hhalf : n/2 = 0
    · have hstop : ∀ t, Npb.jumpLoop (n/2) t (if n%2 = 1 then linearMapCompose base jump else jump) =
          if n%2 = 1 then linearMapCompose base jump else jump := by
        intro t
        rw [Npb.jumpLoop, if_pos hhalf]
      rw [hstop, hhalf]
      exact hjump
    · rw [if_pos hhalf]
      exact ih (n/2) (by omega) (hb.compose hg hb) (hg.iterate 2) hjump

/-- The master's reference token is the one that iterating yields. -/
theorem linearMapApply_buildXorshiftJump (iterations token : UInt64) :
    linearMapApply (buildXorshiftJump iterations) token = xorshift64Step^[iterations.toNat] token := by
  have hbase : TableOf (fun bit => xorshift64Step (1 <<< UInt64.ofNat bit)) (onBits xorshift64Step) := by
    intro bit hbit
    rw [bitImages, ← one_shiftLeft hbit]
    rfl
  have hjump : TableOf (fun bit => 1 <<< UInt64.ofNat bit) id := by
    intro bit hbit
    exact one_shiftLeft hbit
  have htable := hbase.jumpLoop iterations.toNat xorshift64Step_linear hjump
  have happly := htable.apply (xorshift64Step_linear.iterate iterations.toNat) token
  apply UInt64.toBitVec_inj.mp
  rw [buildXorshiftJump, happly, Function.comp_apply, id, onBits_iterate]
  rfl

end DistributedEnclave.Npb
