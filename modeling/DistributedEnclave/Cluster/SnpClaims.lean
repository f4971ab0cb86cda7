import DistributedEnclave.Cluster.SnpReport
import DistributedEnclave.Hex
import DistributedEnclave.Npb.SecureChannel
import Mathlib.Data.Nat.Digits.Defs

/-! The policy and the measurement that the owner expects, read from the environment in
hexadecimal and compared with those of a report. -/
namespace DistributedEnclave.Cluster
open DistributedEnclave.Octets
open DistributedEnclave.Hex
open DistributedEnclave.Npb (loadU64BeBytes loadU64BeBytes_eq)

def Marked (text digits : Bytes) : Prop :=
  text = digits ∨ text = chars "0x" ++ digits ∨ text = chars "0X" ++ digits

/-- `text` consists of the digits `digits` of `n` octets behind an optional prefix. -/
structure Denotes (text digits : Bytes) (n : Nat) : Prop where
  marked : Marked text digits
  length : digits.length = n*2
  isDigit : ∀ c ∈ digits, isDigit c = true

theorem hexNibble_eq (c : UInt8) :
    hexNibble c = if isDigit c then some (UInt8.ofNat (digit c)) else none := by
  revert c
  exact forall_octet (by decide +kernel)

theorem nibbles_octet {high low : Nat} (hhigh : high < 16) (hlow : low < 16) :
    (UInt8.ofNat high <<< 4) ||| UInt8.ofNat low = UInt8.ofNat (high*16+low) := by
  have hall : ∀ high < 16, ∀ low < 16,
      (UInt8.ofNat high <<< 4) ||| UInt8.ofNat low = UInt8.ofNat (high*16+low) := by
    decide +kernel
  exact hall high hhigh low hlow

theorem parsePairs_eq {digits : Bytes} {n : Nat} (h : digits.length = n*2)
    (hdigits : ∀ c ∈ digits, isDigit c = true) : parsePairs digits = some (octets digits) := by
  induction n generalizing digits with
  | zero =>
    rw [List.eq_nil_of_length_eq_zero h]
    rfl
  | succ n ih =>
    obtain ⟨a, b, rest, rfl, hlen⟩ := exists_pair h
    have ha := hdigits a List.mem_cons_self
    have hb := hdigits b (List.mem_cons_of_mem a List.mem_cons_self)
    have hrest : ∀ c ∈ rest, isDigit c = true := fun c hc =>
      hdigits c (List.mem_cons_of_mem a (List.mem_cons_of_mem b hc))
    rw [parsePairs, hexNibble_eq, hexNibble_eq, if_pos ha, if_pos hb, ih hlen hrest, octets,
      ← nibbles_octet (digit_lt ha) (digit_lt hb)]
    rfl

theorem isDigit_of_parsePairs {text out : Bytes} (h : parsePairs text = some out) :
    ∀ c ∈ text, isDigit c = true := by
  have hnibble : ∀ {c v}, hexNibble c = some v → isDigit c = true := by
    intro c v hc
    rw [hexNibble_eq] at hc
    by_contra hno
    rw [if_neg hno] at hc
    cases hc
  induction text using parsePairs.induct generalizing out with
  | case1 => exact fun c hc => absurd hc List.not_mem_nil
  | case2 c => cases h
  | case3 a b rest ih =>
    simp only [parsePairs, Option.bind_eq_bind, Option.bind_eq_some_iff] at h
    obtain ⟨high, hhigh, low, hlow, out', hrest, _⟩ := h
    intro c hc
    rcases List.mem_cons.mp hc with rfl | hc
    · exact hnibble hhigh
    rcases List.mem_cons.mp hc with rfl | hc
    · exact hnibble hlow
    · exact ih hrest c hc

theorem dropHexMark_marked (text : Bytes) : Marked text (dropHexMark text) := by
  rw [dropHexMark]
  split
  · rename_i hmark
    match text with
    | [] => exact absurd hmark.1 (by decide)
    | [c] => rcases hmark.2 with h | h <;> cases h
    | a :: b :: rest =>
      obtain ⟨rfl, hsecond⟩ : a = '0'.toUInt8 ∧ (b = 'x'.toUInt8 ∨ b = 'X'.toUInt8) := hmark
      rcases hsecond with rfl | rfl
      · exact .inr (.inl rfl)
      · exact .inr (.inr rfl)
  · exact .inl rfl

/-- Digits do not begin with the prefix. -/
theorem dropHexMark_eq {text digits : Bytes} (h : Marked text digits)
    (hdigits : ∀ c ∈ digits, isDigit c = true) : dropHexMark text = digits := by
  rcases h with rfl | rfl | rfl
  · rw [dropHexMark, if_neg]
    intro h
    obtain ⟨_, hsecond⟩ := h
    match text with
    | [] => rcases hsecond with h | h <;> cases h
    | [c] => rcases hsecond with h | h <;> cases h
    | a :: b :: rest =>
      have hb := hdigits b (List.mem_cons_of_mem a List.mem_cons_self)
      obtain rfl | rfl : b = 'x'.toUInt8 ∨ b = 'X'.toUInt8 := hsecond
      · exact absurd hb (by decide)
      · exact absurd hb (by decide)
  · rfl
  · rfl

/-- What `parse_hex_exact` accepts and returns. -/
theorem parseHexExact_eq_some {text out : Bytes} {n : Nat} :
    parseHexExact text n = some out ↔ ∃ digits, Denotes text digits n ∧ out = octets digits := by
  constructor
  · intro h
    rw [parseHexExact] at h
    split at h
    · cases h
    rename_i hlen
    have hdigits := isDigit_of_parsePairs h
    rw [parsePairs_eq (not_not.mp hlen) hdigits] at h
    exact ⟨_, ⟨dropHexMark_marked text, not_not.mp hlen, hdigits⟩, (Option.some.inj h).symm⟩
  · intro h
    obtain ⟨digits, hdenotes, rfl⟩ := h
    rw [parseHexExact, dropHexMark_eq hdenotes.marked hdenotes.isDigit]
    exact (if_neg (not_not.mpr hdenotes.length)).trans
      (parsePairs_eq hdenotes.length hdenotes.isDigit)

theorem octets_bytesToHex (b : Bytes) : octets (bytesToHex b) = b := by
  have hoctet : ∀ x : UInt8, UInt8.ofNat (digit (hexDigit ((x >>> 4) &&& 0xF))*16+
      digit (hexDigit (x &&& 0xF))) = x := forall_octet (by decide +kernel)
  induction b with
  | nil => rfl
  | cons x b ih =>
    change UInt8.ofNat _ :: octets (bytesToHex b) = x :: b
    rw [hoctet, ih]

theorem bytesToHex_denotes (b : Bytes) : (bytesToHex b).length = b.length*2 ∧
    ∀ c ∈ bytesToHex b, isDigit c = true := by
  have hdigit : ∀ x : UInt8, isDigit (hexDigit ((x >>> 4) &&& 0xF)) = true ∧
      isDigit (hexDigit (x &&& 0xF)) = true := forall_octet (by decide +kernel)
  induction b with
  | nil => exact ⟨rfl, fun c hc => nomatch hc⟩
  | cons x b ih =>
    change (_ :: _ :: bytesToHex b).length = _ ∧ ∀ c ∈ _ :: _ :: bytesToHex b, _
    refine ⟨?_, ?_⟩
    · rw [List.length_cons, List.length_cons, List.length_cons, ih.1]
      omega
    · intro c hc
      rcases List.mem_cons.mp hc with rfl | hc
      · exact (hdigit x).1
      rcases List.mem_cons.mp hc with rfl | hc
      · exact (hdigit x).2
      · exact ih.2 c hc

/-- Reading undoes writing, with or without the prefix. -/
theorem parseHexExact_bytesToHex {text b : Bytes} (h : Marked text (bytesToHex b)) :
    parseHexExact text b.length = some b := by
  obtain ⟨hlen, hdigits⟩ := bytesToHex_denotes b
  exact parseHexExact_eq_some.mpr ⟨_, ⟨h, hlen, hdigits⟩, (octets_bytesToHex b).symm⟩

section Numbers

theorem loadU64Be_toNat {b : Bytes} (h : b.length ≤ 8) : (loadU64Be b).toNat = beDecode b := by
  rw [← loadU64BeBytes_eq h, loadU64Be, loadU64BeBytes]
  refine (List.foldl_hom UInt64.toNat ?_).symm
  intro value x
  rw [UInt64.toNat_or, UInt64.toNat_shiftLeft, UInt8.toNat_toUInt64]
  rfl

/-- An octet is placed above the `k` octets of a number. -/
theorem place_octet {value : UInt64} {k : Nat} (x : UInt8) (hk : k < 8)
    (hvalue : value.toNat < 256^k) :
    (value ||| (x.toUInt64 <<< (UInt64.ofNat (8*k)))).toNat = value.toNat+256^k*x.toNat := by
  have hpow : (256 : Nat)^k = 2^(8*k) := by
    rw [pow_mul]
    norm_num
  have hshift : (UInt64.ofNat (8*k)).toNat%64 = 8*k := by
    rw [UInt64.toNat_ofNat_of_lt' (by rw [UInt64.size]; omega), Nat.mod_eq_of_lt (by omega)]
  have hplaced : x.toNat <<< (8*k) < 2^64 := by
    have hx : x.toNat < 2^8 := x.toNat_lt
    calc
      x.toNat <<< (8*k) = x.toNat*2^(8*k) := Nat.shiftLeft_eq _ _
      _ < 2^8*2^(8*k) := Nat.mul_lt_mul_of_pos_right hx (Nat.pow_pos (by decide))
      _ = 2^(8+8*k) := (pow_add 2 8 (8*k)).symm
      _ ≤ 2^64 := Nat.pow_le_pow_right (by decide) (by omega)
  rw [hpow] at hvalue ⊢
  rw [UInt64.toNat_or, UInt64.toNat_shiftLeft, UInt8.toNat_toUInt64, hshift,
    Nat.mod_eq_of_lt hplaced, Nat.or_comm, ← Nat.shiftLeft_add_eq_or_of_lt hvalue,
    Nat.shiftLeft_eq, Nat.mul_comm, Nat.add_comm]

/-- The octets from `k` on of a little-endian number are added to those before. -/
theorem loadLe_foldl {b : Bytes} {k : Nat} {value : UInt64} (hk : k+b.length ≤ 8)
    (hvalue : value.toNat < 256^k) :
    ((b.zipIdx k).foldl (fun value x =>
      value ||| (x.1.toUInt64 <<< (UInt64.ofNat (8*x.2)))) value).toNat =
      value.toNat+256^k*Nat.ofDigits 256 (b.map UInt8.toNat) := by
  induction b generalizing k value with
  | nil => simp
  | cons x b ih =>
    rw [List.length_cons] at hk
    have hstep := place_octet x (show k < 8 by omega) hvalue
    have hx : x.toNat < 256 := x.toNat_lt
    have hnext : value.toNat+256^k*x.toNat < 256^(k+1) := by
      have hle : 256^k*x.toNat ≤ 256^k*255 := Nat.mul_le_mul_left _ (by omega)
      rw [Nat.pow_succ]
      omega
    rw [List.zipIdx_cons, List.foldl_cons, ih (by omega) (hstep ▸ hnext), hstep, List.map_cons,
      Nat.ofDigits_cons, Nat.pow_succ]
    ring

theorem loadU64Le_toNat {b : Bytes} (h : b.length ≤ 8) :
    (loadU64Le b).toNat = Nat.ofDigits 256 (b.map UInt8.toNat) := by
  have hzero : (0 : UInt64).toNat < 256^0 := by decide
  have hload := loadLe_foldl (k := 0) (by omega : 0+b.length ≤ 8) hzero
  rwa [pow_zero, one_mul, UInt64.toNat_zero, Nat.zero_add] at hload

end Numbers

section Claims
variable {host : SnpHost} {report : Bytes}

/-- The checks one after the other. -/
theorem verifyExpectedSnpClaims_eq_zero :
    verifyExpectedSnpClaims host report = 0 ↔
      ∃ measurementHex policyHex measurement policy,
        host.nonEmptyEnv "SNP_EXPECTED_MEASUREMENT" = some measurementHex ∧
        host.nonEmptyEnv "SNP_EXPECTED_POLICY" = some policyHex ∧
        parseHexExact measurementHex 48 = some measurement ∧
        parseHexExact policyHex 8 = some policy ∧ 192 ≤ report.length ∧
        loadU64Le ((report.drop 0x08).take 8) = loadU64Be policy ∧
        (report.drop 0x90).take 48 = measurement := by
  rw [verifyExpectedSnpClaims]
  constructor
  · intro h
    split at h
    · rename_i measurementHex policyHex hmeasurement hpolicy
      split at h
      · rename_i measurement policy hparsed hparsed'
        split at h
        · cases h
        rename_i hlen
        split at h
        · cases h
        rename_i hnumber
        split at h
        · cases h
        rename_i hslice
        exact ⟨measurementHex, policyHex, measurement, policy, hmeasurement, hpolicy, hparsed,
          hparsed', Nat.not_lt.mp hlen, not_not.mp hnumber, not_not.mp hslice⟩
      · cases h
    · cases h
  · intro h
    obtain ⟨measurementHex, policyHex, measurement, policy, hmeasurement, hpolicy, hparsed,
      hparsed', hlen, hnumber, hslice⟩ := h
    have hlong : ¬report.length < snpMeasurementOffset+snpMeasurementSize := Nat.not_lt.mpr hlen
    simp only [hmeasurement, hpolicy]
    rw [show parseHexExact measurementHex snpMeasurementSize = some measurement from hparsed,
      hparsed']
    dsimp only
    rw [if_neg hlong]
    exact (if_neg (not_not.mpr hnumber)).trans (if_neg (not_not.mpr hslice))

theorem nonEmptyEnv_eq_some {name : String} {text : Bytes} :
    host.nonEmptyEnv name = some text ↔ host.getenv name = some text ∧ text ≠ [] := by
  rw [SnpHost.nonEmptyEnv, Option.filter_eq_some_iff, decide_eq_true_eq]

theorem Denotes.text_ne {text digits : Bytes} {n : Nat} (h : Denotes text digits n) (hn : 0 < n) :
    text ≠ [] := by
  have hlen := h.length
  intro h
  subst h
  rcases h.marked with heq | heq | heq
  · rw [← heq, List.length_nil] at hlen
    omega
  · cases heq
  · cases heq

/-- The policy of a report as the number that its digits denote. -/
theorem policy_eq_iff {digits : Bytes} (hlen : digits.length = 8*2)
    (hdigits : ∀ c ∈ digits, isDigit c = true) :
    loadU64Le ((report.drop 0x08).take 8) = loadU64Be (octets digits) ↔
      Nat.ofDigits 256 (((report.drop 0x08).take 8).map UInt8.toNat) = number digits := by
  rw [← UInt64.toNat_inj, loadU64Le_toNat (List.length_take_le 8 _),
    loadU64Be_toNat (octets_length hlen).le, beDecode_octets hlen hdigits]

end Claims

/-- The report is checked against exactly the expected measurement and policy. -/
theorem snpClaims_exact :
    (∀ (host : SnpHost) (report : Bytes), verifyExpectedSnpClaims host report = 0 ↔
      ∃ measurementHex measurement policyHex policy,
        host.getenv "SNP_EXPECTED_MEASUREMENT" = some measurementHex ∧
        Denotes measurementHex measurement 48 ∧
        host.getenv "SNP_EXPECTED_POLICY" = some policyHex ∧ Denotes policyHex policy 8 ∧
        192 ≤ report.length ∧ (report.drop 0x90).take 48 = octets measurement ∧
        Nat.ofDigits 256 (((report.drop 0x08).take 8).map UInt8.toNat) = number policy) ∧
    ∀ b text : Bytes, Marked text (bytesToHex b) → parseHexExact text b.length = some b := by
  refine ⟨?_, fun b text h => parseHexExact_bytesToHex h⟩
  intro host report
  rw [verifyExpectedSnpClaims_eq_zero]
  constructor
  · intro h
    obtain ⟨measurementHex, policyHex, _, _, hmeasurement, hpolicy, hparsed, hparsed', hlen,
      hnumber, hslice⟩ := h
    obtain ⟨measurement, hdenotes, rfl⟩ := parseHexExact_eq_some.mp hparsed
    obtain ⟨policy, hdenotes', rfl⟩ := parseHexExact_eq_some.mp hparsed'
    exact ⟨measurementHex, measurement, policyHex, policy, (nonEmptyEnv_eq_some.mp hmeasurement).1,
      hdenotes, (nonEmptyEnv_eq_some.mp hpolicy).1, hdenotes', hlen, hslice,
      (policy_eq_iff hdenotes'.length hdenotes'.isDigit).mp hnumber⟩
  · intro h
    obtain ⟨measurementHex, measurement, policyHex, policy, hmeasurement, hdenotes, hpolicy,
      hdenotes', hlen, hslice, hnumber⟩ := h
    exact ⟨measurementHex, policyHex, octets measurement, octets policy,
      nonEmptyEnv_eq_some.mpr ⟨hmeasurement, hdenotes.text_ne (by decide)⟩,
      nonEmptyEnv_eq_some.mpr ⟨hpolicy, hdenotes'.text_ne (by decide)⟩,
      parseHexExact_eq_some.mpr ⟨measurement, hdenotes, rfl⟩,
      parseHexExact_eq_some.mpr ⟨policy, hdenotes', rfl⟩, hlen,
      (policy_eq_iff hdenotes'.length hdenotes'.isDigit).mpr hnumber, hslice⟩

end DistributedEnclave.Cluster
