import DistributedEnclave.Octets

/-! Hexadecimal digits in octet strings: the number they denote, and the octets. -/
namespace DistributedEnclave.Hex
open Octets

def isDigit (c : UInt8) : Bool :=
  ('0'.toUInt8 ≤ c && c ≤ '9'.toUInt8) || ('a'.toUInt8 ≤ c && c ≤ 'f'.toUInt8) ||
    ('A'.toUInt8 ≤ c && c ≤ 'F'.toUInt8)

def digit (c : UInt8) : Nat :=
  if c ≤ '9'.toUInt8 then c.toNat-48 else if c ≤ 'F'.toUInt8 then c.toNat-55 else c.toNat-87

def number (digits : Bytes) : Nat := digits.foldl (fun n c => n*16+digit c) 0

def octets : Bytes → Bytes
  | a :: b :: digits => UInt8.ofNat (digit a*16+digit b) :: octets digits
  | _ => []

/-- What holds of the numbers below 256 holds of every octet. -/
theorem forall_octet {P : UInt8 → Prop} (h : ∀ n < 256, P (UInt8.ofNat n)) (c : UInt8) : P c := by
  rw [← UInt8.ofNat_toNat (x := c)]
  exact h c.toNat c.toNat_lt

theorem digit_lt {c : UInt8} (h : isDigit c = true) : digit c < 16 := by
  have hall : ∀ c, isDigit c = true → digit c < 16 := forall_octet (by decide +kernel)
  exact hall c h

theorem foldl_number (n : Nat) (digits : Bytes) :
    digits.foldl (fun n c => n*16+digit c) n = n*16^digits.length+number digits := by
  induction digits generalizing n with
  | nil => simp [number]
  | cons c digits ih =>
    rw [number, List.foldl_cons, List.foldl_cons, ih, ih (0*16+digit c), List.length_cons, pow_succ]
    ring

theorem number_cons_cons (a b : UInt8) (digits : Bytes) :
    number (a :: b :: digits) = (digit a*16+digit b)*16^digits.length+number digits := by
  rw [number, List.foldl_cons, List.foldl_cons, foldl_number]
  ring

theorem exists_pair {digits : Bytes} {n : Nat} (h : digits.length = (n+1)*2) :
    ∃ a b rest, digits = a :: b :: rest ∧ rest.length = n*2 := by
  cases digits with
  | nil =>
    rw [List.length_nil] at h
    omega
  | cons a digits =>
    cases digits with
    | nil =>
      rw [List.length_singleton] at h
      omega
    | cons b rest =>
      rw [List.length_cons, List.length_cons] at h
      exact ⟨a, b, rest, rfl, by omega⟩

theorem octets_length {digits : Bytes} {n : Nat} (h : digits.length = n*2) :
    (octets digits).length = n := by
  induction n generalizing digits with
  | zero =>
    rw [List.eq_nil_of_length_eq_zero h]
    rfl
  | succ n ih =>
    obtain ⟨a, b, rest, rfl, hrest⟩ := exists_pair h
    rw [octets, List.length_cons, ih hrest]

/-- The octets are those of the number, the most significant first. -/
theorem beDecode_octets {digits : Bytes} {n : Nat} (h : digits.length = n*2)
    (hdigits : ∀ c ∈ digits, isDigit c = true) : beDecode (octets digits) = number digits := by
  induction n generalizing digits with
  | zero =>
    rw [List.eq_nil_of_length_eq_zero h]
    rfl
  | succ n ih =>
    obtain ⟨a, b, rest, rfl, hlen⟩ := exists_pair h
    have ha := digit_lt (hdigits a List.mem_cons_self)
    have hb := digit_lt (hdigits b (List.mem_cons_of_mem a List.mem_cons_self))
    have hrest : ∀ c ∈ rest, isDigit c = true := fun c hc =>
      hdigits c (List.mem_cons_of_mem a (List.mem_cons_of_mem b hc))
    have hoctet : (UInt8.ofNat (digit a*16+digit b)).toNat = digit a*16+digit b :=
      UInt8.toNat_ofNat_of_lt' (by rw [UInt8.size]; omega)
    have hpow : (16 : Nat)^(n*2) = 256^n := by
      rw [Nat.mul_comm n 2, pow_mul]
      norm_num
    rw [octets, beDecode, hoctet, octets_length hlen, ih hlen hrest, number_cons_cons, hlen, hpow]

end DistributedEnclave.Hex
