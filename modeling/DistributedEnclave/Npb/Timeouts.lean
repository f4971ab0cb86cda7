import DistributedEnclave.Cluster.Primitives
import DistributedEnclave.Decimals
import DistributedEnclave.Outcome

/-! The settings of the wait deadlines. -/
namespace DistributedEnclave.Npb.Timeouts
open Decimals Octets Outcome
open Cluster (chars)

/-- `configuration_error` with its message, or an unsigned operation that wraps around. -/
inductive Fault where
  | configuration (message : String)
  | overflow
  deriving DecidableEq

def uintMax : Nat := 4294967295

def unsigned (n : Nat) : Except Fault Nat := if n ≤ uintMax then .ok n else .error .overflow

/-- The loop over the characters of the setting. -/
def readSeconds (name : String) : Bytes → Nat → Except Fault Nat
  | [], seconds => .ok seconds
  | c :: text, seconds =>
    if c < '0'.toUInt8 ∨ c > '9'.toUInt8 ∨ seconds > 8640 then .error (.configuration name)
    else do
      let product ← unsigned (seconds*10)
      let seconds ← unsigned (product+digit c)
      if seconds > 86400 then .error (.configuration name) else readSeconds name text seconds

def timeoutSetting (getenv : String → Option Bytes) (name : String) (fallback : Nat) :
    Except Fault Nat :=
  match getenv name with
  | none => .ok fallback
  | some text =>
    if text = [] then .error (.configuration name)
    else do
      let seconds ← readSeconds name text 0
      if seconds = 0 then .error (.configuration name) else pure seconds

section
variable {name : String} {text : Bytes}

theorem isDigit_iff {c : UInt8} : ¬(c < '0'.toUInt8 ∨ c > '9'.toUInt8) ↔ isDigit c = true := by
  rw [isDigit, Bool.and_eq_true, decide_eq_true_eq, decide_eq_true_eq, not_or, UInt8.not_lt,
    UInt8.not_lt]

/-- A digit that keeps the value in range is added without an overflow. -/
theorem readSeconds_cons {c : UInt8} {seconds : Nat} (hc : isDigit c = true)
    (hle : seconds*10+digit c ≤ 86400) :
    readSeconds name (c :: text) seconds = readSeconds name text (seconds*10+digit c) := by
  have hproduct : unsigned (seconds*10) = .ok (seconds*10) :=
    if_pos (by simp only [uintMax]; omega)
  have hsum : unsigned (seconds*10+digit c) = .ok (seconds*10+digit c) :=
    if_pos (by simp only [uintMax]; omega)
  rw [readSeconds, if_neg (by rw [← or_assoc]; exact not_or.mpr ⟨isDigit_iff.mpr hc, by omega⟩),
    hproduct, ok_bind, hsum, ok_bind, if_neg (Nat.not_lt.mpr hle)]

/-- Any other character is refused, a digit too before the value can wrap around. -/
theorem readSeconds_refused {c : UInt8} {seconds : Nat}
    (h : ¬(isDigit c = true ∧ seconds*10+digit c ≤ 86400)) :
    readSeconds name (c :: text) seconds = .error (.configuration name) := by
  rw [readSeconds]
  split
  · rfl
  rename_i hguard
  rw [← or_assoc, not_or, isDigit_iff] at hguard
  obtain ⟨hc, hsmall⟩ := hguard
  have hdigit := digit_lt hc
  have hproduct : unsigned (seconds*10) = .ok (seconds*10) :=
    if_pos (by simp only [uintMax]; omega)
  have hsum : unsigned (seconds*10+digit c) = .ok (seconds*10+digit c) :=
    if_pos (by simp only [uintMax]; omega)
  have hlarge : seconds*10+digit c > 86400 := Nat.lt_of_not_le fun hle => h ⟨hc, hle⟩
  rw [hproduct, ok_bind, hsum, ok_bind, if_pos hlarge]

/-- What the loop makes of the characters behind those that `seconds` has been read from. -/
theorem readSeconds_eq (name : String) (text : Bytes) {seconds : Nat} (h : seconds ≤ 86400) :
    readSeconds name text seconds =
      if text.all isDigit = true ∧ seconds*10^text.length+value text ≤ 86400 then
        .ok (seconds*10^text.length+value text)
      else .error (.configuration name) := by
  induction text generalizing seconds with
  | nil =>
    have htotal : seconds*10^([] : Bytes).length+value [] = seconds := Nat.mul_one seconds
    rw [readSeconds, htotal, if_pos ⟨rfl, h⟩]
  | cons c text ih =>
    have htotal : seconds*10^(c :: text).length+value (c :: text) =
        (seconds*10+digit c)*10^text.length+value text := by
      rw [← foldl_value, ← foldl_value]
      rfl
    simp only [htotal, List.all_cons, Bool.and_eq_true]
    by_cases hnext : isDigit c = true ∧ seconds*10+digit c ≤ 86400
    · rw [readSeconds_cons hnext.1 hnext.2, ih hnext.2]
      simp only [hnext.1, true_and]
    · have hfail : ¬((isDigit c = true ∧ text.all isDigit = true) ∧
          (seconds*10+digit c)*10^text.length+value text ≤ 86400) := by
        intro hall
        have hpow := Nat.le_mul_of_pos_right (seconds*10+digit c)
          (Nat.pow_pos (n := text.length) (show 0 < 10 by decide))
        exact hnext ⟨hall.1.1, by omega⟩
      rw [readSeconds_refused hnext, if_neg hfail]

end

/-- What the settings accept, and the number of seconds each of them stands for. -/
structure Denotes (text : Bytes) (seconds : Nat) : Prop where
  nonempty : text ≠ []
  digits : ∀ c ∈ text, isDigit c = true
  value : value text = seconds
  range : 1 ≤ seconds ∧ seconds ≤ 86400

theorem timeoutSetting_eq {getenv : String → Option Bytes} {name : String} {text : Bytes}
    (h : getenv name = some text) (fallback : Nat) :
    timeoutSetting getenv name fallback =
      if text ≠ [] ∧ text.all isDigit = true ∧ 1 ≤ value text ∧ value text ≤ 86400 then
        .ok (value text)
      else .error (.configuration name) := by
  have hread := readSeconds_eq name text (Nat.zero_le 86400)
  rw [Nat.zero_mul, Nat.zero_add] at hread
  simp only [timeoutSetting, h, hread]
  by_cases hne : text = []
  · rw [if_pos hne, if_neg fun hall => hall.1 hne]
  rw [if_neg hne]
  by_cases hall : text.all isDigit = true ∧ value text ≤ 86400
  · rw [if_pos hall, ok_bind]
    by_cases hzero : value text = 0
    · rw [if_pos hzero, if_neg fun h => absurd hzero (by omega)]
    · rw [if_neg hzero, if_pos ⟨hne, hall.1, Nat.pos_of_ne_zero hzero, hall.2⟩]
      rfl
  · rw [if_neg hall, error_bind, if_neg fun h => hall ⟨h.2.1, h.2.2.2⟩]

/-- A setting that is refused is named. -/
theorem timeoutSetting_error {getenv : String → Option Bytes} {name : String} {fallback : Nat}
    {f : Fault} (h : timeoutSetting getenv name fallback = .error f) : f = .configuration name := by
  cases htext : getenv name with
  | none =>
    rw [timeoutSetting, htext] at h
    cases h
  | some text =>
    rw [timeoutSetting_eq htext] at h
    split at h
    · cases h
    · exact (Except.error.inj h).symm

/-- The seconds of a setting, or of its default, are not 0. -/
theorem timeoutSetting_pos {getenv : String → Option Bytes} {name : String} {fallback seconds : Nat}
    (hfallback : fallback ≠ 0) (h : timeoutSetting getenv name fallback = .ok seconds) :
    seconds ≠ 0 := by
  cases htext : getenv name with
  | none =>
    rw [timeoutSetting, htext] at h
    cases h
    exact hfallback
  | some text =>
    rw [timeoutSetting_eq htext] at h
    split at h
    · rename_i hvalid
      cases h
      exact Nat.one_le_iff_ne_zero.mp hvalid.2.2.1
    · cases h

/-- A setting is accepted exactly if it is a numeral for one second up to a day. -/
theorem timeout_setting_exact {getenv : String → Option Bytes} {name : String} {text : Bytes}
    (h : getenv name = some text) (fallback : Nat) :
    (∀ seconds, timeoutSetting getenv name fallback = .ok seconds ↔ Denotes text seconds) ∧
      timeoutSetting getenv name fallback ≠ .error .overflow := by
  rw [timeoutSetting_eq h]
  constructor
  · intro seconds
    split
    · rename_i hvalid
      rw [Except.ok.injEq]
      have hdigits := List.all_eq_true.mp hvalid.2.1
      exact ⟨fun heq => ⟨hvalid.1, hdigits, heq, heq ▸ hvalid.2.2⟩, fun hd => hd.value⟩
    · rename_i hinvalid
      refine ⟨nofun, fun hd => absurd ⟨hd.nonempty, List.all_eq_true.mpr hd.digits, ?_⟩ hinvalid⟩
      rw [hd.value]
      exact hd.range
  · split
    · exact nofun
    · exact nofun

theorem day_setting_exact :
    (∀ seconds, timeoutSetting (fun _ => some (chars "0086400")) "PPDPC_IO_TIMEOUT_SECONDS" 600 =
        .ok seconds ↔ Denotes (chars "0086400") seconds) ∧
      timeoutSetting (fun _ => some (chars "0086400")) "PPDPC_IO_TIMEOUT_SECONDS" 600 ≠
        .error .overflow :=
  timeout_setting_exact rfl 600

end DistributedEnclave.Npb.Timeouts
