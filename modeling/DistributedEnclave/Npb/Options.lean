import DistributedEnclave.Cluster.Primitives
import DistributedEnclave.Decimals
import DistributedEnclave.Npb.Service
import DistributedEnclave.Outcome

/-! The command line of the master: the numbers of its options and the checks after them. -/
namespace DistributedEnclave.Npb
open Decimals Octets Outcome
open Cluster (chars)

/-- What `strtoull` returns, where it stopped and whether it set `errno` to `ERANGE`. -/
structure Converted where
  value : UInt64
  rest : Bytes
  rangeError : Bool

/-- The conversion of `strtoull`; a minus sign negates in the unsigned type. -/
def signed : Sign → UInt64 → UInt64
  | .absent, n | .plus, n => n
  | .minus, n => -n

/-- The conversion of the digits at the front of `body`. Without any the end is the beginning
of the text. -/
def convertDigits (text : Bytes) (sign : Sign) (body : Bytes) : Converted :=
  if body.takeWhile isDigit = [] then { value := 0, rest := text, rangeError := false }
  else if value (body.takeWhile isDigit) > uint64Max then
    { value := .ofNat uint64Max, rest := body.dropWhile isDigit, rangeError := true }
  else
    { value := signed sign (.ofNat (value (body.takeWhile isDigit)))
      rest := body.dropWhile isDigit
      rangeError := false }

/-- `strtoull(text, &end, 10)` of the C standard. -/
def strtoull (text : Bytes) : Converted :=
  convertDigits text (afterSpaces text).1 (afterSpaces text).2

def parseU64Arg (text : Bytes) (minValue maxValue : UInt64) : Option UInt64 :=
  if text = [] ∨ text.head? = some '-'.toUInt8 then none
  else
    let converted := strtoull text
    if converted.rangeError ∨ converted.rest ≠ [] ∨ converted.value < minValue ∨
      converted.value > maxValue then none
    else some converted.value

/-- `strtoull` of a numeral that a 64-bit number holds. -/
theorem strtoull_numeral {numeral : Numeral} (h : value numeral.digits ≤ uint64Max) :
    strtoull numeral.text =
      { value := signed numeral.sign (.ofNat (value numeral.digits))
        rest := []
        rangeError := false } := by
  have hdigits : numeral.digits.takeWhile isDigit = numeral.digits :=
    List.takeWhile_eq_self_iff.mpr numeral.isDigit_digits
  have hrest : numeral.digits.dropWhile isDigit = [] :=
    List.dropWhile_eq_nil_iff.mpr numeral.isDigit_digits
  rw [strtoull, numeral.afterSpaces_text, convertDigits, hdigits, hrest, if_neg numeral.digits_ne,
    if_neg (Nat.not_lt.mpr h)]

/-- `strtoull` reads all of a text only where that is a numeral. -/
theorem strtoull_all {text : Bytes} (hne : text ≠ []) (hrest : (strtoull text).rest = [])
    (hrange : (strtoull text).rangeError = false) :
    ∃ numeral : Numeral, numeral.text = text ∧ value numeral.digits ≤ uint64Max := by
  have hsome : (afterSpaces text).2.takeWhile isDigit ≠ [] := by
    intro hnone
    rw [strtoull, convertDigits, if_pos hnone] at hrest
    exact hne hrest
  rw [strtoull, convertDigits, if_neg hsome] at hrest hrange
  split at hrest
  · rename_i hlarge
    rw [if_pos hlarge] at hrange
    cases hrange
  rename_i hsmall
  have hdigits := List.dropWhile_eq_nil_iff.mp hrest
  rw [List.takeWhile_eq_self_iff.mpr hdigits] at hsome hsmall
  obtain ⟨numeral, htext, _, heq⟩ := exists_numeral hsome hdigits
  exact ⟨numeral, htext, heq ▸ Nat.not_lt.mp hsmall⟩

section Argument
variable {text : Bytes} {minValue maxValue out : UInt64}

/-- What `parse_u64_arg` accepts: a numeral whose value, negated by a minus sign in the unsigned
type, is in range. Only a minus sign at the very front is refused. -/
theorem parseU64Arg_eq_some :
    parseU64Arg text minValue maxValue = some out ↔
      ∃ numeral : Numeral, numeral.text = text ∧ value numeral.digits ≤ uint64Max ∧
        (numeral.sign = .minus → numeral.spaces ≠ []) ∧
        signed numeral.sign (.ofNat (value numeral.digits)) = out ∧
        minValue ≤ out ∧ out ≤ maxValue := by
  rw [parseU64Arg]
  constructor
  · intro h
    split at h
    · cases h
    rename_i hfront
    rw [not_or] at hfront
    dsimp only at h
    split at h
    · cases h
    rename_i hchecks
    obtain ⟨hrange, hrest, hmin, hmax⟩ : (strtoull text).rangeError = false ∧
        (strtoull text).rest = [] ∧ minValue ≤ (strtoull text).value ∧
        (strtoull text).value ≤ maxValue := by
      simpa only [not_or, Bool.not_eq_true, not_not, gt_iff_lt, UInt64.not_lt] using hchecks
    obtain ⟨numeral, rfl, hsmall⟩ := strtoull_all hfront.1 hrest hrange
    cases h
    rw [strtoull_numeral hsmall] at hmin hmax ⊢
    refine ⟨numeral, rfl, hsmall, ?_, rfl, hmin, hmax⟩
    intro hsign hspaces
    refine hfront.2 ?_
    rw [Numeral.text, hspaces, hsign]
    rfl
  · intro h
    obtain ⟨numeral, rfl, hsmall, hminus, rfl, hmin, hmax⟩ := h
    have hfront : ¬(numeral.text = [] ∨ numeral.text.head? = some '-'.toUInt8) := by
      rw [not_or]
      refine ⟨?_, numeral.head_text hminus⟩
      intro hnil
      exact numeral.digits_ne (List.append_eq_nil_iff.mp hnil).2
    rw [if_neg hfront, strtoull_numeral hsmall]
    simp [hmin, hmax]

theorem toNat_ofNat_value {digits : Bytes} (h : value digits ≤ uint64Max) :
    (UInt64.ofNat (value digits)).toNat = value digits := by
  simp only [uint64Max] at h
  exact UInt64.toNat_ofNat_of_lt' (by rw [UInt64.size]; omega)

theorem toNat_neg_value {digits : Bytes} (h : value digits ≤ uint64Max) :
    (-UInt64.ofNat (value digits)).toNat = (2^64-value digits)%2^64 := by
  rw [UInt64.toNat_neg, toNat_ofNat_value h]
  rfl

/-- What a numeral with a plus sign or none denotes is what is read. -/
theorem signed_denoted {numeral : Numeral} (hsmall : value numeral.digits ≤ uint64Max)
    (hminus : numeral.sign = .minus → value numeral.digits = 0) :
    numeral.denoted = (signed numeral.sign (.ofNat (value numeral.digits))).toNat := by
  have hvalue := toNat_ofNat_value hsmall
  rw [Numeral.denoted]
  cases hsign : numeral.sign with
  | absent => rw [signed, hvalue, Sign.apply]
  | plus => rw [signed, hvalue, Sign.apply]
  | minus =>
    rw [signed, toNat_neg_value hsmall, Sign.apply, hminus hsign]
    rfl

/-- Any other numeral wraps around. -/
theorem signed_wraps {numeral : Numeral} (hsign : numeral.sign = .minus)
    (hsmall : value numeral.digits ≤ uint64Max) (hpos : 0 < value numeral.digits) :
    (signed numeral.sign (.ofNat (value numeral.digits))).toNat = 2^64-value numeral.digits := by
  rw [hsign, signed, toNat_neg_value hsmall]
  exact Nat.mod_eq_of_lt (by omega)

/-- A numeral that is negative but for which white space hides the sign, and whose value wraps
around into the range. -/
def WrapsInto (text : Bytes) (minValue maxValue : UInt64) : Prop :=
  ∃ numeral : Numeral, numeral.text = text ∧ numeral.spaces ≠ [] ∧ numeral.sign = .minus ∧
    0 < value numeral.digits ∧ value numeral.digits < 2^64 ∧
    minValue.toNat ≤ 2^64-value numeral.digits ∧ 2^64-value numeral.digits ≤ maxValue.toNat

/-- What is accepted then is a negative number that is taken for a positive one. -/
theorem WrapsInto.accepted (h : WrapsInto text minValue maxValue) :
    ∃ numeral : Numeral, numeral.text = text ∧ numeral.denoted < 0 ∧
      ∃ out, parseU64Arg text minValue maxValue = some out := by
  obtain ⟨numeral, rfl, hspaces, hsign, hpos, hlt, hmin, hmax⟩ := h
  have hsmall : value numeral.digits ≤ uint64Max := by
    simp only [uint64Max]
    omega
  have hwraps := signed_wraps hsign hsmall hpos
  have hdenoted : numeral.denoted < 0 := by
    rw [Numeral.denoted, hsign, Sign.apply]
    omega
  exact ⟨numeral, rfl, hdenoted, _, parseU64Arg_eq_some.mpr
    ⟨numeral, rfl, hsmall, fun _ => hspaces, rfl,
      UInt64.le_iff_toNat_le.mpr (hwraps.symm ▸ hmin),
      UInt64.le_iff_toNat_le.mpr (hwraps.symm ▸ hmax)⟩⟩

theorem parseU64Arg_denoted (hwraps : ¬WrapsInto text minValue maxValue)
    (hout : parseU64Arg text minValue maxValue = some out) :
    ∃ numeral : Numeral, numeral.text = text ∧ minValue.toNat ≤ numeral.denoted ∧
      numeral.denoted ≤ maxValue.toNat ∧ numeral.denoted = out.toNat := by
  obtain ⟨numeral, rfl, hsmall, hminus, rfl, hmin, hmax⟩ := parseU64Arg_eq_some.mp hout
  rw [UInt64.le_iff_toNat_le] at hmin hmax
  have hzero : numeral.sign = .minus → value numeral.digits = 0 := by
    intro hsign
    by_contra hne
    have hpos := Nat.pos_of_ne_zero hne
    rw [signed_wraps hsign hsmall hpos] at hmin hmax
    simp only [uint64Max] at hsmall
    exact hwraps ⟨numeral, rfl, hminus hsign, hsign, hpos, by omega, hmin, hmax⟩
  have hdenoted := signed_denoted hsmall hzero
  exact ⟨numeral, rfl, by omega, by omega, hdenoted⟩

theorem parseU64Arg_digits (hne : text ≠ []) (hdigits : ∀ c ∈ text, isDigit c = true)
    (hmin : minValue.toNat ≤ value text) (hmax : value text ≤ maxValue.toNat) :
    parseU64Arg text minValue maxValue = some (.ofNat (value text)) := by
  have hsmall : value text ≤ uint64Max := by
    have := maxValue.toNat_lt
    simp only [uint64Max]
    omega
  refine parseU64Arg_eq_some.mpr ⟨.ofDigits hne hdigits, rfl, hsmall,
    fun h => absurd (show Sign.absent = .minus from h) (by decide), rfl, ?_, ?_⟩
  · rwa [UInt64.le_iff_toNat_le, toNat_ofNat_value hsmall]
  · rwa [UInt64.le_iff_toNat_le, toNat_ofNat_value hsmall]

/-- The numbers of the options mean what they say unless the value wraps around. -/
theorem options_exact_iff (text : Bytes) (minValue maxValue : UInt64) :
    ((∀ out, parseU64Arg text minValue maxValue = some out →
        ∃ numeral : Numeral, numeral.text = text ∧ minValue.toNat ≤ numeral.denoted ∧
          numeral.denoted ≤ maxValue.toNat ∧ numeral.denoted = out.toNat) ∧
      (text ≠ [] → (∀ c ∈ text, isDigit c = true) → minValue.toNat ≤ value text →
        value text ≤ maxValue.toNat →
        parseU64Arg text minValue maxValue = some (.ofNat (value text)))) ↔
      ¬WrapsInto text minValue maxValue := by
  constructor
  · intro ⟨hsound, _⟩ hwraps
    obtain ⟨numeral, htext, hneg, out, hout⟩ := hwraps.accepted
    obtain ⟨numeral', htext', hmin, _⟩ := hsound out hout
    rw [← htext] at htext'
    rw [Numeral.denoted_unique htext'] at hmin
    omega
  · intro hwraps
    exact ⟨fun _ => parseU64Arg_denoted hwraps, parseU64Arg_digits⟩

/-- With white space in front -1 is the largest number of accesses. -/
theorem hidden_minus_wraps :
    parseU64Arg (chars " -1") 1 (.ofNat uint64Max) = some (.ofNat uint64Max) ∧
      ∃ numeral : Numeral, numeral.text = chars " -1" ∧ numeral.denoted = -1 := by
  have hspaces : (chars " ").all isSpace = true := by decide
  have hdigits : (chars "1").all isDigit = true := by decide
  exact ⟨by decide +kernel, ⟨chars " ", .minus, chars "1", List.all_eq_true.mp hspaces,
    by decide, List.all_eq_true.mp hdigits⟩, rfl, rfl⟩

end Argument

section CommandLine

def number (text : Bytes) (minValue maxValue : UInt64) (set : UInt64 → Arguments) :
    Except Int Arguments :=
  match parseU64Arg text minValue maxValue with
  | some parsed => .ok (set parsed)
  | none => .error 2

def workloadOf (text : Bytes) : Option Int32 :=
  if text = chars "ep" then some workloadEp
  else if text = chars "cg" then some workloadCg
  else if text = chars "stream" then some workloadStream
  else if text = chars "random" then some workloadRandom
  else if text = chars "vmap" then some workloadVmap
  else if text = chars "taskq" then some workloadTaskq
  else none

/-- An option with its value. The file for the results plays no part here. -/
def setOption (option text : Bytes) (a : Arguments) : Except Int Arguments :=
  if option = chars "--master" then
    number text 1 (.ofNat maxWorkers) (fun n => { a with nworkers := n.toNat })
  else if option = chars "--workload" then
    match workloadOf text with
    | some workload => .ok { a with workload := workload }
    | none => .error 1
  else if option = chars "--ep-n" then
    number text 1 (.ofNat (2^63-1)) (fun n => { a with epN := n.toInt64 })
  else if option = chars "--cg-n" then
    number text 1 (.ofNat (intMax-1)) (fun n => { a with cgN := n.toNat })
  else if option = chars "--cg-nzpc" then
    number text 1 (.ofNat intMax) (fun n => { a with cgNzpc := n.toNat })
  else if option = chars "--cg-iters" then
    number text 1 (.ofNat intMax) (fun n => { a with cgIters := n.toNat })
  else if option = chars "--stream-array-mib" then
    number text streamMinMib.toUInt64 streamMaxMib.toUInt64
      (fun n => { a with streamArrayMib := n.toUInt32 })
  else if option = chars "--stream-warmup" then
    number text 0 (.ofNat (2^32-1)) (fun n => { a with streamWarmup := n.toUInt32 })
  else if option = chars "--random-mib" then
    number text randomMinMib.toUInt64 randomMaxMib.toUInt64
      (fun n => { a with randomMib := n.toUInt32 })
  else if option = chars "--random-accesses" then
    number text 1 (.ofNat uint64Max) (fun n => { a with randomAccesses := n })
  else if option = chars "--random-warmup-accesses" then
    number text 0 (.ofNat uint64Max) (fun n => { a with randomWarmupAccesses := n })
  else if option = chars "--vmap-mib" then
    number text vmapMinMib.toUInt64 vmapMaxMib.toUInt64 (fun n => { a with vmapMib := n.toUInt32 })
  else if option = chars "--task-count" then
    number text 0 (.ofNat uint64Max) (fun n => { a with taskCount := n })
  else if option = chars "--task-bytes" then
    number text taskqMinBytes.toUInt64 taskqMaxBytes.toUInt64
      (fun n => { a with taskBytes := n.toUInt32 })
  else if option = chars "--task-iters" then
    number text 1 (.ofNat uint64Max) (fun n => { a with taskIters := n })
  else if option = chars "--runs" then
    number text 1 (.ofNat maxRuns) (fun n => { a with numRuns := n.toNat.toInt32 })
  else if option = chars "--output" then
    if text = [] then .error 2 else .ok a
  else .error 2

/-- The loop over the options. One at the end that lacks its value is refused as an unknown one
is. -/
def parseOptions : List Bytes → Arguments → Except Int Arguments
  | [], a => .ok a
  | option :: rest, a =>
    if option = chars "--no-encrypt" then parseOptions rest { a with encrypt := false }
    else
      match rest with
      | [] => .error 2
      | text :: rest => do
        let a ← setOption option text a
        parseOptions rest a

/-- The arguments of the master and the checks on them; `skipAttestation` is the build flag. -/
def mainArguments (skipAttestation : Bool) (argv : List Bytes) : Except Int Arguments := do
  let a ← parseOptions argv {}
  if a.cgN*a.cgNzpc > intMax then .error 2
  else if a.epN.toInt > (2^63-1)/a.nworkers then .error 2
  else if ¬skipAttestation ∧ ¬a.encrypt then .error 2
  else pure a

structure Arguments.InRange (a : Arguments) : Prop where
  workers : 0 < a.nworkers ∧ a.nworkers ≤ maxWorkers
  runs : 1 ≤ a.numRuns.toInt ∧ a.numRuns.toInt ≤ maxRuns
  workload : a.workload ∈
    [workloadEp, workloadCg, workloadStream, workloadRandom, workloadVmap, workloadTaskq]
  epN : 1 ≤ a.epN.toInt
  cgN : 0 < a.cgN ∧ a.cgN < intMax
  cgNzpc : 0 < a.cgNzpc
  cgIters : 0 < a.cgIters ∧ a.cgIters ≤ intMax
  streamArrayMib : streamMinMib ≤ a.streamArrayMib ∧ a.streamArrayMib ≤ streamMaxMib
  randomMib : randomMinMib ≤ a.randomMib ∧ a.randomMib ≤ randomMaxMib
  randomAccesses : 0 < a.randomAccesses.toNat
  vmapMib : vmapMinMib ≤ a.vmapMib ∧ a.vmapMib ≤ vmapMaxMib
  taskBytes : taskqMinBytes ≤ a.taskBytes ∧ a.taskBytes ≤ taskqMaxBytes
  taskIters : 0 < a.taskIters.toNat

theorem Arguments.default_inRange : ({} : Arguments).InRange := by
  constructor <;> decide

variable {a a' : Arguments} {text option : Bytes}

theorem number_inRange {minValue maxValue : UInt64} {set : UInt64 → Arguments}
    (h : ∀ n, minValue.toNat ≤ n.toNat → n.toNat ≤ maxValue.toNat → (set n).InRange)
    (hnumber : number text minValue maxValue set = .ok a') : a'.InRange := by
  rw [number] at hnumber
  split at hnumber
  · rename_i n hparsed
    obtain ⟨_, _, _, _, _, hmin, hmax⟩ := parseU64Arg_eq_some.mp hparsed
    cases hnumber
    exact h n (UInt64.le_iff_toNat_le.mp hmin) (UInt64.le_iff_toNat_le.mp hmax)
  · cases hnumber

theorem workloadOf_mem {workload : Int32} (h : workloadOf text = some workload) : workload ∈
    [workloadEp, workloadCg, workloadStream, workloadRandom, workloadVmap, workloadTaskq] := by
  have hmem : ∀ {c : Prop} [Decidable c] {w : Int32} {o : Option Int32},
      (if c then some w else o) = some workload → workload = w ∨ o = some workload := by
    intro c _ w o h
    split at h
    · exact .inl (Option.some.inj h).symm
    · exact .inr h
  simp only [List.mem_cons, List.not_mem_nil, or_false]
  refine (hmem h).imp_right fun h => (hmem h).imp_right fun h => (hmem h).imp_right fun h =>
    (hmem h).imp_right fun h => (hmem h).imp_right fun h => (hmem h).resolve_right ?_
  exact fun h => nomatch h

theorem ite_inRange {c : Prop} [Decidable c] {x y : Except Int Arguments}
    (hx : x = .ok a' → a'.InRange) (hy : y = .ok a' → a'.InRange)
    (h : (if c then x else y) = .ok a') : a'.InRange := by
  split at h
  · exact hx h
  · exact hy h

theorem toUInt32_between {lo hi : UInt32} {n : UInt64} (hmin : lo.toUInt64.toNat ≤ n.toNat)
    (hmax : n.toNat ≤ hi.toUInt64.toNat) : lo ≤ n.toUInt32 ∧ n.toUInt32 ≤ hi := by
  have hlt := hi.toNat_lt
  rw [UInt32.toNat_toUInt64] at hmin hmax
  rw [UInt32.le_iff_toNat_le, UInt32.le_iff_toNat_le, UInt64.toNat_toUInt32,
    Nat.mod_eq_of_lt (by omega)]
  exact ⟨hmin, hmax⟩

theorem toInt_toInt64 {n : UInt64} (h : n.toNat ≤ 2^63-1) : n.toInt64.toInt = n.toNat := by
  have hlt : 2*n.toBitVec.toNat < 2^64 := by
    change 2*n.toNat < 2^64
    omega
  exact BitVec.toInt_eq_toNat_of_lt hlt

/-- An option is read into its range. -/
theorem setOption_inRange (ha : a.InRange) (h : setOption option text a = .ok a') :
    a'.InRange := by
  rw [setOption] at h
  revert h
  refine ite_inRange (number_inRange fun n hmin hmax => { ha with workers := ⟨hmin, hmax⟩ }) ?_
  refine ite_inRange ?_ ?_
  · intro h
    split at h
    · rename_i hworkload
      cases h
      exact { ha with workload := workloadOf_mem hworkload }
    · cases h
  refine ite_inRange (number_inRange fun n hmin hmax => { ha with epN := ?_ }) ?_
  · rw [toInt_toInt64 hmax]
    exact_mod_cast hmin
  refine ite_inRange (number_inRange fun n hmin hmax => { ha with cgN := ⟨hmin, ?_⟩ }) ?_
  · exact Nat.lt_of_le_of_lt hmax (by decide)
  refine ite_inRange (number_inRange fun n hmin hmax => { ha with cgNzpc := hmin }) ?_
  refine ite_inRange (number_inRange fun n hmin hmax => { ha with cgIters := ⟨hmin, hmax⟩ }) ?_
  refine ite_inRange (number_inRange fun n hmin hmax => { ha with streamArrayMib := ?_ }) ?_
  · exact toUInt32_between hmin hmax
  refine ite_inRange (number_inRange fun n hmin hmax => { ha with }) ?_
  refine ite_inRange (number_inRange fun n hmin hmax => { ha with randomMib := ?_ }) ?_
  · exact toUInt32_between hmin hmax
  refine ite_inRange (number_inRange fun n hmin hmax => { ha with randomAccesses := hmin }) ?_
  refine ite_inRange (number_inRange fun n hmin hmax => { ha with }) ?_
  refine ite_inRange (number_inRange fun n hmin hmax => { ha with vmapMib := ?_ }) ?_
  · exact toUInt32_between hmin hmax
  refine ite_inRange (number_inRange fun n hmin hmax => { ha with }) ?_
  refine ite_inRange (number_inRange fun n hmin hmax => { ha with taskBytes := ?_ }) ?_
  · exact toUInt32_between hmin hmax
  refine ite_inRange (number_inRange fun n hmin hmax => { ha with taskIters := hmin }) ?_
  refine ite_inRange (number_inRange fun n hmin hmax => { ha with runs := ?_ }) ?_
  · have hmax : n.toNat ≤ 1000 := hmax
    have hint : n.toNat.toInt32.toInt = n.toNat := Int32.toInt_ofNat_of_lt (by omega)
    rw [hint]
    exact ⟨by exact_mod_cast hmin, by exact_mod_cast hmax⟩
  refine ite_inRange (ite_inRange ?_ ?_) ?_
  · exact fun h => nomatch h
  · intro h
    cases h
    exact ha
  · exact fun h => nomatch h

theorem parseOptions_inRange {argv : List Bytes} (ha : a.InRange)
    (h : parseOptions argv a = .ok a') : a'.InRange := by
  induction argv using List.twoStepInduction generalizing a with
  | nil =>
    cases h
    exact ha
  | singleton option =>
    rw [parseOptions] at h
    split at h
    · cases h
      exact { ha with }
    · cases h
  | cons_cons option text rest ih ih' =>
    rw [parseOptions] at h
    split at h
    · refine ih' text ?_ h
      exact { ha with }
    · obtain ⟨a₁, hset, hrest⟩ := (bind_eq_ok _ _ _).mp h
      exact ih (setOption_inRange ha hset) hrest

/-- What the master goes on with. -/
theorem mainArguments_admitted {skipAttestation : Bool} {argv : List Bytes}
    (h : mainArguments skipAttestation argv = .ok a) :
    a.Admitted ∧ (a.encrypt = false → skipAttestation = true) := by
  obtain ⟨a₁, hparse, h⟩ := (bind_eq_ok _ _ _).mp h
  rw [guard_eq_ok, guard_eq_ok, guard_eq_ok] at h
  obtain ⟨hcg, hep, hplain, hpure⟩ := h
  cases hpure
  have ha := parseOptions_inRange Arguments.default_inRange hparse
  refine ⟨?_, ?_⟩
  · have hworkers := ha.workers.1
    have hproduct : a.epN.toInt*a.nworkers ≤ 2^63-1 :=
      Int.mul_le_of_le_ediv (by omega) (not_lt.mp hep)
    exact { ha with
      epN := ⟨ha.epN, hproduct⟩
      cgNzpc := ⟨ha.cgNzpc, Nat.not_lt.mp hcg⟩ }
  · intro hencrypt
    by_contra hskip
    exact hplain ⟨hskip, by rw [hencrypt]; decide⟩

end CommandLine

end DistributedEnclave.Npb
