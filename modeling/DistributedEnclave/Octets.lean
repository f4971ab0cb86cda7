import Mathlib.Tactic.Linarith
import Mathlib.Tactic.Ring

/-! Big-endian octet strings of a fixed width and the slicing facts that parsers
of length-prefixed vectors use. Nothing here is about a particular format. -/
namespace DistributedEnclave.Octets

abbrev Bytes := List UInt8

def beEncode : Nat → Nat → Bytes
  | 0, _ => []
  | n+1, v => UInt8.ofNat (v / 256^n) :: beEncode n v

def beDecode : Bytes → Nat
  | [] => 0
  | b :: bs => b.toNat * 256^bs.length + beDecode bs

@[simp] theorem beEncode_length (n v : Nat) : (beEncode n v).length = n := by
  induction n with
  | zero => rfl
  | succ n ih => simp [beEncode, ih]

theorem beDecode_lt (bs : Bytes) : beDecode bs < 256^bs.length := by
  induction bs with
  | nil => simp [beDecode]
  | cons b bs ih =>
    have hb : b.toNat < 256 := b.toNat_lt
    calc
      beDecode (b :: bs) < b.toNat * 256^bs.length + 256^bs.length := by
        simp only [beDecode]; omega
      _ = (b.toNat + 1) * 256^bs.length := by ring
      _ ≤ 256 * 256^bs.length := Nat.mul_le_mul_right _ (by omega)
      _ = 256^(b :: bs).length := by rw [List.length_cons, Nat.pow_succ]; ring

theorem beDecode_beEncode (n v : Nat) : beDecode (beEncode n v) = v % 256^n := by
  induction n with
  | zero => simp [beEncode, beDecode, Nat.mod_one]
  | succ n ih =>
    have hsplit : v % 256^(n+1) = v % 256^n + 256^n * (v / 256^n % 256) := by
      rw [Nat.pow_succ, Nat.mod_mul]
    simp only [beEncode, beDecode, beEncode_length, ih, UInt8.toNat_ofNat', hsplit]
    ring

theorem beDecode_beEncode_of_lt {n v : Nat} (h : v < 256^n) :
    beDecode (beEncode n v) = v := by
  rw [beDecode_beEncode, Nat.mod_eq_of_lt h]

theorem beEncode_mod (n v : Nat) : beEncode n (v % 256^n) = beEncode n v := by
  suffices h : ∀ k, n ≤ k → beEncode n (v % 256^k) = beEncode n v from h n le_rfl
  induction n with
  | zero => intro k _; rfl
  | succ n ih =>
    intro k hk
    have hdvd : 256^(n+1) ∣ 256^k := Nat.pow_dvd_pow 256 hk
    have hhead : UInt8.ofNat (v % 256^k / 256^n) = UInt8.ofNat (v / 256^n) := by
      apply UInt8.toNat_inj.mp
      simp only [UInt8.toNat_ofNat']
      rw [show (2:Nat)^8 = 256 from rfl, ← Nat.mod_mul_right_div_self,
        ← Nat.mod_mul_right_div_self, ← Nat.pow_succ, Nat.mod_mod_of_dvd _ hdvd]
    rw [beEncode, beEncode, hhead, ih k (by omega)]

theorem beEncode_beDecode (bs : Bytes) : beEncode bs.length (beDecode bs) = bs := by
  induction bs with
  | nil => rfl
  | cons b bs ih =>
    have hlt := beDecode_lt bs
    have hpos : 0 < 256^bs.length := Nat.pow_pos (by decide)
    have hdiv : beDecode (b :: bs) / 256^bs.length = b.toNat := by
      rw [beDecode, Nat.mul_comm, Nat.mul_add_div hpos, Nat.div_eq_of_lt hlt, Nat.add_zero]
    have hmod : beDecode (b :: bs) % 256^bs.length = beDecode bs := by
      rw [beDecode, Nat.mul_comm, Nat.mul_add_mod, Nat.mod_eq_of_lt hlt]
    rw [List.length_cons, beEncode, hdiv, UInt8.ofNat_toNat, ← beEncode_mod, hmod, ih]

/-- Equal encodings of numbers that fit the width come from equal numbers. -/
theorem beEncode_inj {n v w : Nat} (hv : v < 256^n) (hw : w < 256^n)
    (h : beEncode n v = beEncode n w) : v = w := by
  rw [← beDecode_beEncode_of_lt hv, h, beDecode_beEncode_of_lt hw]

/-- The low-order octet comes last. -/
theorem beEncode_succ (n v : Nat) :
    beEncode (n+1) v = beEncode n (v/256) ++ [UInt8.ofNat v] := by
  induction n with
  | zero => simp [beEncode]
  | succ n ih =>
    have hdiv : v/256/256^n = v/256^(n+1) := by
      rw [Nat.div_div_eq_div_mul, Nat.pow_succ, Nat.mul_comm]
    calc
      beEncode (n+2) v = UInt8.ofNat (v/256^(n+1)) :: beEncode (n+1) v := rfl
      _ = UInt8.ofNat (v/256/256^n) :: (beEncode n (v/256) ++ [UInt8.ofNat v]) := by
        rw [hdiv, ih]
      _ = beEncode (n+1) (v/256) ++ [UInt8.ofNat v] := rfl

/-- A prefix of known length and what follows it determine each other. -/
theorem append_split {a b : Bytes} {k : Nat} (h : a.length = k) :
    (a ++ b).take k = a ∧ (a ++ b).drop k = b := by
  subst h
  exact ⟨List.take_left, List.drop_left⟩

/-- An octet is the code of its character. -/
theorem toUInt8_ofNat (c : UInt8) : (Char.ofNat c.toNat).toUInt8 = c := by
  have hvalid : c.toNat.isValidChar := .inl (by have := c.toNat_lt; omega)
  apply UInt8.toNat_inj.mp
  rw [Char.toUInt8, UInt32.toNat_toUInt8, Char.ofNat, dif_pos hvalid]
  exact Nat.mod_eq_of_lt c.toNat_lt

end DistributedEnclave.Octets
