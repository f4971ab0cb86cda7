import Mathlib.Data.Fintype.EquivFin
import Mathlib.Logic.Function.Iterate

/-! Maps on words that respect exclusive or, and their tables of images of single bits. -/
namespace DistributedEnclave.XorMaps
variable {w : Nat}

def XorLinear (f : BitVec w → BitVec w) : Prop := ∀ a b, f (a ^^^ b) = f a ^^^ f b

theorem XorLinear.zero {f : BitVec w → BitVec w} (h : XorLinear f) : f 0#w = 0#w := by
  have hsum := h 0#w 0#w
  rwa [BitVec.xor_self, BitVec.xor_self] at hsum

theorem XorLinear.identity : XorLinear (id : BitVec w → BitVec w) := fun _ _ => rfl

theorem XorLinear.comp {f g : BitVec w → BitVec w} (hf : XorLinear f) (hg : XorLinear g) :
    XorLinear (f ∘ g) := by
  intro a b
  rw [Function.comp_apply, hg, hf]
  rfl

theorem XorLinear.iterate {f : BitVec w → BitVec w} (hf : XorLinear f) (n : Nat) :
    XorLinear f^[n] := by
  induction n with
  | zero => exact XorLinear.identity
  | succ n ih => exact ih.comp hf

theorem XorLinear.xor {f g : BitVec w → BitVec w} (hf : XorLinear f) (hg : XorLinear g) :
    XorLinear (fun v => f v ^^^ g v) := by
  intro a b
  simp only [hf a b, hg a b]
  ac_rfl

theorem XorLinear.shiftLeft (n : Nat) : XorLinear (fun v : BitVec w => v <<< n) :=
  fun a b => BitVec.shiftLeft_xor_distrib a b n

theorem XorLinear.ushiftRight (n : Nat) : XorLinear (fun v : BitVec w => v >>> n) :=
  fun a b => BitVec.ushiftRight_xor_distrib a b n

def xorSum (table : Nat → BitVec w) (v : BitVec w) : Nat → BitVec w
  | 0 => 0#w
  | n+1 => if v.getLsbD n then xorSum table v n ^^^ table n else xorSum table v n

def bitImages (f : BitVec w → BitVec w) (bit : Nat) : BitVec w := f (1#w <<< bit)

theorem xorSum_bits (v : BitVec w) (n i : Nat) (hn : n ≤ w) :
    (xorSum (bitImages id) v n).getLsbD i = (decide (i < n) && v.getLsbD i) := by
  induction n with
  | zero => simp [xorSum]
  | succ n ih =>
    have hsucc : i < n+1 ↔ i < n ∨ i = n := by omega
    simp only [xorSum]
    split
    · rename_i hbit
      rw [BitVec.getLsbD_xor, ih (by omega)]
      by_cases hi : i = n
      · subst hi
        simp [bitImages, hbit, BitVec.getLsbD_shiftLeft]
        omega
      · have hoff : (bitImages id n : BitVec w).getLsbD i = false := by
          by_cases hlt : i < n
          · simp [bitImages, hlt]
          · have hpos : i - n ≠ 0 := by omega
            simp [bitImages, hpos]
        simp [hoff, hi, hsucc]
    · rename_i hbit
      rw [ih (by omega)]
      by_cases hi : i = n
      · subst hi
        simp [hbit]
      · simp [hi, hsucc]

/-- Every word is the sum of its bits. -/
theorem xorSum_id (v : BitVec w) : xorSum (bitImages id) v w = v := by
  apply BitVec.eq_of_getLsbD_eq
  intro i hi
  rw [xorSum_bits v w i (Nat.le_refl w)]
  simp [hi]

theorem XorLinear.xorSum {f : BitVec w → BitVec w} (hf : XorLinear f)
    (table : Nat → BitVec w) (v : BitVec w) (n : Nat) :
    f (XorMaps.xorSum table v n) = XorMaps.xorSum (fun bit => f (table bit)) v n := by
  induction n with
  | zero => exact hf.zero
  | succ n ih =>
    simp only [XorMaps.xorSum]
    split
    · rw [hf, ih]
    · exact ih

/-- The table of a map that respects exclusive or determines the map. -/
theorem XorLinear.eq_xorSum {f : BitVec w → BitVec w} (hf : XorLinear f) (v : BitVec w) :
    XorMaps.xorSum (bitImages f) v w = f v := by
  have hsum := hf.xorSum (bitImages id) v w
  rw [xorSum_id] at hsum
  exact hsum.symm

section Bijective
variable {f g : BitVec w → BitVec w}

/-- A map that takes only 0 to 0 tells any two words apart. -/
theorem XorLinear.injective (hf : XorLinear f) (hker : ∀ v, f v = 0#w → v = 0#w) :
    Function.Injective f := by
  intro a b hab
  have hzero : f (a ^^^ b) = 0#w := by rw [hf, hab, BitVec.xor_self]
  exact BitVec.xor_eq_zero_iff.mp (hker (a ^^^ b) hzero)

theorem bijective_of_injective (hf : Function.Injective f) : Function.Bijective f := by
  have : Finite (BitVec w) := Finite.of_injective BitVec.toFin fun _ _ => BitVec.toFin_inj.mp
  exact Finite.injective_iff_bijective.mp hf

def Vanishes (g : BitVec w → BitVec w) : Prop := ∃ n, ∀ v, g^[n] v = 0#w

/-- What such a map yields can be added to a word without loss: only 0 is a fixed point of it. -/
theorem Vanishes.injective_xor (hn : Vanishes g) (hg : XorLinear g) :
    Function.Injective (fun v => v ^^^ g v) := by
  refine (XorLinear.identity.xor hg).injective fun v hv => ?_
  obtain ⟨n, hn⟩ := hn
  have hfixed : g v = v := (BitVec.xor_eq_zero_iff.mp hv).symm
  calc
    v = g^[n] v := (Function.iterate_fixed hfixed n).symm
    _ = 0#w := hn v

theorem shiftLeft_iterate (s n : Nat) (v : BitVec w) :
    (fun v : BitVec w => v <<< s)^[n] v = v <<< (s*n) := by
  induction n with
  | zero => rw [Function.iterate_zero, id, Nat.mul_zero, BitVec.shiftLeft_zero]
  | succ n ih => rw [Function.iterate_succ_apply', ih, ← BitVec.shiftLeft_add, Nat.mul_succ]

theorem ushiftRight_iterate (s n : Nat) (v : BitVec w) :
    (fun v : BitVec w => v >>> s)^[n] v = v >>> (s*n) := by
  induction n with
  | zero => rw [Function.iterate_zero, id, Nat.mul_zero, BitVec.ushiftRight_zero]
  | succ n ih => rw [Function.iterate_succ_apply', ih, ← BitVec.shiftRight_add, Nat.mul_succ]

theorem vanishes_shiftLeft {s : Nat} (hs : 0 < s) : Vanishes (fun v : BitVec w => v <<< s) := by
  refine ⟨w, fun v => ?_⟩
  rw [shiftLeft_iterate, BitVec.shiftLeft_eq_zero (Nat.le_mul_of_pos_left w hs)]

theorem vanishes_ushiftRight {s : Nat} (hs : 0 < s) : Vanishes (fun v : BitVec w => v >>> s) := by
  refine ⟨w, fun v => ?_⟩
  rw [ushiftRight_iterate, BitVec.ushiftRight_eq_zero (Nat.le_mul_of_pos_left w hs)]

end Bijective

end DistributedEnclave.XorMaps
