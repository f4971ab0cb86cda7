import DistributedEnclave.Octets
import Mathlib.Data.List.TakeWhile

/-! Decimal numerals in octet strings, as programs in C read them. -/
namespace DistributedEnclave.Decimals
open Octets

def isDigit (c : UInt8) : Bool := '0'.toUInt8 ≤ c && c ≤ '9'.toUInt8

/-- `isspace` in the C locale. -/
def isSpace (c : UInt8) : Bool := c = ' '.toUInt8 || ('\t'.toUInt8 ≤ c && c ≤ '\r'.toUInt8)

def digit (c : UInt8) : Nat := c.toNat-48

def value (digits : Bytes) : Nat := digits.foldl (fun n c => n*10+digit c) 0

inductive Sign where
  | absent | plus | minus
  deriving DecidableEq

def Sign.text : Sign → Bytes
  | absent => []
  | plus => ['+'.toUInt8]
  | minus => ['-'.toUInt8]

def Sign.apply : Sign → Nat → Int
  | absent, n | plus, n => n
  | minus, n => -n

def takeSign : Bytes → Sign × Bytes
  | [] => (.absent, [])
  | c :: text =>
    if c = '+'.toUInt8 then (.plus, text)
    else if c = '-'.toUInt8 then (.minus, text)
    else (.absent, c :: text)

structure Numeral where
  spaces : Bytes
  sign : Sign
  digits : Bytes
  isSpace_spaces : ∀ c ∈ spaces, isSpace c = true
  digits_ne : digits ≠ []
  isDigit_digits : ∀ c ∈ digits, isDigit c = true

namespace Numeral

def text (numeral : Numeral) : Bytes := numeral.spaces ++ numeral.sign.text ++ numeral.digits

def denoted (numeral : Numeral) : Int := numeral.sign.apply (value numeral.digits)

end Numeral

theorem isDigit_range {c : UInt8} (h : isDigit c = true) : 48 ≤ c.toNat ∧ c.toNat ≤ 57 := by
  rw [isDigit, Bool.and_eq_true, decide_eq_true_eq, decide_eq_true_eq, UInt8.le_iff_toNat_le,
    UInt8.le_iff_toNat_le] at h
  exact h

theorem digit_lt {c : UInt8} (h : isDigit c = true) : digit c < 10 := by
  have := isDigit_range h
  rw [digit]
  omega

theorem isSpace_range {c : UInt8} (h : isSpace c = true) : c.toNat ≤ 32 := by
  rw [isSpace, Bool.or_eq_true, Bool.and_eq_true, decide_eq_true_eq, decide_eq_true_eq,
    decide_eq_true_eq, UInt8.le_iff_toNat_le, UInt8.le_iff_toNat_le] at h
  rcases h with rfl | ⟨_, hle⟩
  · decide
  · exact hle.trans (by decide)

theorem foldl_value (n : Nat) (digits : Bytes) :
    digits.foldl (fun n c => n*10+digit c) n = n*10^digits.length+value digits := by
  induction digits generalizing n with
  | nil => simp [value]
  | cons c digits ih =>
    rw [value, List.foldl_cons, List.foldl_cons, ih, ih (0*10+digit c), List.length_cons, pow_succ]
    ring

theorem value_append (l m : Bytes) : value (l ++ m) = value l*10^m.length+value m := by
  rw [value, List.foldl_append, foldl_value]
  rfl

def afterSpaces (text : Bytes) : Sign × Bytes := takeSign (text.dropWhile isSpace)

theorem takeSign_text (sign : Sign) {c : UInt8} (hc : isDigit c = true) (digits : Bytes) :
    takeSign (sign.text ++ c :: digits) = (sign, c :: digits) := by
  have hrange := isDigit_range hc
  have hplus : c ≠ '+'.toUInt8 := fun h => by
    subst h
    exact absurd hrange.1 (by decide)
  have hminus : c ≠ '-'.toUInt8 := fun h => by
    subst h
    exact absurd hrange.1 (by decide)
  cases sign with
  | absent => exact (if_neg hplus).trans (if_neg hminus)
  | plus => rfl
  | minus => rfl

namespace Numeral
variable (numeral : Numeral)

theorem exists_cons : ∃ c digits, numeral.digits = c :: digits ∧ isDigit c = true := by
  obtain ⟨c, digits, h⟩ := List.exists_cons_of_ne_nil numeral.digits_ne
  exact ⟨c, digits, h, numeral.isDigit_digits c (h ▸ List.mem_cons_self)⟩

/-- What comes after the white space of a numeral is no white space. -/
theorem dropWhile_text :
    numeral.text.dropWhile isSpace = numeral.sign.text ++ numeral.digits := by
  obtain ⟨c, digits, hdigits, hc⟩ := numeral.exists_cons
  have hspace : isSpace c ≠ true := fun h => by
    have := isSpace_range h
    have := isDigit_range hc
    omega
  rw [text, List.append_assoc, List.dropWhile_append_of_pos numeral.isSpace_spaces, hdigits]
  cases numeral.sign with
  | absent => exact List.dropWhile_cons_of_neg hspace
  | plus => rfl
  | minus => rfl

theorem afterSpaces_text : afterSpaces numeral.text = (numeral.sign, numeral.digits) := by
  obtain ⟨c, digits, hdigits, hc⟩ := numeral.exists_cons
  rw [afterSpaces, dropWhile_text, hdigits]
  exact takeSign_text _ hc _

/-- A numeral begins with a minus sign only where that is its sign. -/
theorem head_text (h : numeral.sign = .minus → numeral.spaces ≠ []) :
    numeral.text.head? ≠ some '-'.toUInt8 := by
  obtain ⟨c, digits, hdigits, hc⟩ := numeral.exists_cons
  rw [text, hdigits]
  cases hspaces : numeral.spaces with
  | cons s spaces =>
    have hs := numeral.isSpace_spaces s (hspaces ▸ List.mem_cons_self)
    intro heq
    obtain rfl : s = '-'.toUInt8 := Option.some.inj heq
    exact absurd hs (by decide)
  | nil =>
    cases hsign : numeral.sign with
    | absent =>
      intro heq
      obtain rfl : c = '-'.toUInt8 := Option.some.inj heq
      exact absurd hc (by decide)
    | plus =>
      intro heq
      exact absurd (Option.some.inj heq : '+'.toUInt8 = '-'.toUInt8) (by decide)
    | minus => exact absurd hspaces (h hsign)

/-- A text stands for one integer at most. -/
theorem denoted_unique {numeral numeral' : Numeral} (h : numeral.text = numeral'.text) :
    numeral.denoted = numeral'.denoted := by
  have hpair := numeral.afterSpaces_text
  rw [h, numeral'.afterSpaces_text, Prod.mk.injEq] at hpair
  rw [denoted, denoted, hpair.1, hpair.2]

def ofDigits {digits : Bytes} (hne : digits ≠ []) (h : ∀ c ∈ digits, isDigit c = true) : Numeral where
  spaces := []
  sign := .absent
  digits := digits
  isSpace_spaces := fun _ hc => nomatch hc
  digits_ne := hne
  isDigit_digits := h

end Numeral

theorem takeSign_append (text : Bytes) : (takeSign text).1.text ++ (takeSign text).2 = text := by
  cases text with
  | nil => rfl
  | cons c text =>
    rw [takeSign]
    split
    · rename_i h
      rw [h]
      rfl
    split
    · rename_i h
      rw [h]
      rfl
    · rfl

/-- A text that is digits after its white space and sign is a numeral. -/
theorem exists_numeral {text : Bytes} (hne : (afterSpaces text).2 ≠ [])
    (hdigits : ∀ c ∈ (afterSpaces text).2, isDigit c = true) :
    ∃ numeral : Numeral, numeral.text = text ∧ numeral.sign = (afterSpaces text).1 ∧
      numeral.digits = (afterSpaces text).2 := by
  refine ⟨⟨text.takeWhile isSpace, _, _, fun c hc => List.mem_takeWhile_imp hc, hne, hdigits⟩, ?_,
    rfl, rfl⟩
  rw [Numeral.text, List.append_assoc]
  change text.takeWhile isSpace ++ ((takeSign (text.dropWhile isSpace)).1.text ++
    (takeSign (text.dropWhile isSpace)).2) = text
  rw [takeSign_append, List.takeWhile_append_dropWhile]

end DistributedEnclave.Decimals
