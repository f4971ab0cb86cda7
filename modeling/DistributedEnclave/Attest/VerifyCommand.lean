import DistributedEnclave.Attest.Enrollment
import DistributedEnclave.Cluster.SnpClaims
import DistributedEnclave.Shell
import Mathlib.Algebra.GroupWithZero.Nat

/-! The words the shell makes of the command line of `verify_sev_snp_report`. -/
namespace DistributedEnclave.Attest
open DistributedEnclave.Octets DistributedEnclave.Cluster
open DistributedEnclave.Shell (Token State tokens after emitted literal isBlank isActive isOrdinary
  backslash tokens_append step_space value price)

/-- The directory of `SNP_CERTS_DIR`, or `certs` where the variable is unset or empty. -/
def certsDir (env : Option Bytes) : Bytes := (env.filter (· ≠ [])).getD (chars "certs")

theorem certsDir_ne_nil (env : Option Bytes) : certsDir env ≠ [] := by
  cases h : env.filter (· ≠ []) with
  | none =>
    rw [certsDir, h]
    decide
  | some text =>
    rw [certsDir, h]
    exact of_decide_eq_true (Option.filter_eq_some_iff.mp h).2

/-- Apart from the report, what is verified is the outcome of this command line alone. -/
theorem verifySevSnpReport_command {host : Host} {report rd : Bytes} (hne : report.length ≠ 0)
    (hwrite : host.writeReport = true)
    (hpath : sanitizePath (certsDir (host.getenv "SNP_CERTS_DIR")) = 0) :
    verifySevSnpReport host report rd =
      if host.system (verifyCommand (certsDir (host.getenv "SNP_CERTS_DIR")) rd) = .exited 0
      then 0 else -1 := by
  rw [verifySevSnpReport, if_neg hne, if_neg (not_not.mpr hwrite)]
  exact if_neg (not_not.mpr hpath)

def commandTokens (certsDir expectedReportData : Bytes) : List Token :=
  [literal (chars "snpguest"), literal (chars "verify"), literal (chars "attestation"),
    literal certsDir, literal snpReportTmp, literal (chars "--report-data"),
    literal (chars "0x" ++ bytesToHex expectedReportData), .operator (chars ">"),
    literal (chars "snpguest_verify.log"), .ioNumber ((chars "2").map .plain),
    .operator (chars ">&"), literal (chars "1")]

def Glob (c : UInt8) : Prop := c = '*'.toUInt8 ∨ c = '?'.toUInt8 ∨ c = '['.toUInt8

/-- No blank, backslash or pattern character, no leading #, and short enough that the command
with its digits fits in the buffer. -/
structure Intact (p : Bytes) : Prop where
  blank : ' '.toUInt8 ∉ p
  backslash : '\\'.toUInt8 ∉ p
  glob : ∀ c ∈ p, ¬Glob c
  comment : p.head? ≠ some '#'.toUInt8
  length : p.length ≤ 808

def beforePath : Bytes := chars "snpguest verify attestation "
def afterPath : Bytes := chars " snp_report.bin --report-data 0x"
def redirection : Bytes := chars " > snpguest_verify.log 2>&1"

/-- The command line as it would be without the bound of the buffer. -/
def unboundedCommand (p rd : Bytes) : Bytes :=
  beforePath ++ (p ++ (afterPath ++ (bytesToHex rd ++ redirection)))

theorem verifyCommand_eq_take (p rd : Bytes) :
    verifyCommand p rd = (unboundedCommand p rd).take (cmdSize-1) := by
  have hafter : afterPath = chars " " ++ snpReportTmp ++ chars " --report-data 0x" := by decide
  rw [verifyCommand, unboundedCommand, hafter]
  simp only [List.append_assoc]
  rfl

theorem unboundedCommand_length {rd : Bytes} (hrd : rd.length = reportDataSize) (p : Bytes) :
    (unboundedCommand p rd).length = p.length+215 := by
  have hbefore : beforePath.length = 28 := by decide
  have hafter : afterPath.length = 32 := by decide
  have hredirect : redirection.length = 27 := by decide
  rw [unboundedCommand, List.length_append, List.length_append, List.length_append,
    List.length_append, (bytesToHex_denotes rd).1, hrd, hbefore, hafter, hredirect, reportDataSize]
  omega

section Words
variable {p rd : Bytes}

theorem hexDigit_ordinary {c : UInt8} (h : Hex.isDigit c = true) : isOrdinary c = true := by
  have hall : ∀ c, Hex.isDigit c = true → isOrdinary c = true :=
    Hex.forall_octet (by decide +kernel)
  exact hall c h

/-- Among the characters that `sanitize_path` admits only these mean something to the shell. -/
theorem isOrdinary_of_safe {c : UInt8} (hsafe : unsafeChar c = false) (hblank : c ≠ ' '.toUInt8)
    (hslash : c ≠ '\\'.toUInt8) (hglob : ¬Glob c) : isOrdinary c = true := by
  have hall : ∀ c, (unsafeChar c || c = ' '.toUInt8 || c = '\\'.toUInt8 || c = '*'.toUInt8 ||
      c = '?'.toUInt8 || c = '['.toUInt8 || isOrdinary c) = true :=
    Hex.forall_octet (by decide +kernel)
  simp only [Glob, not_or] at hglob
  simpa [hsafe, hblank, hslash, hglob] using hall c

theorem sanitizePath_eq_zero : sanitizePath p = 0 ↔ ∀ c ∈ p, unsafeChar c = false := by
  rw [sanitizePath]
  split
  · rename_i h
    obtain ⟨c, hc, hunsafe⟩ := List.any_eq_true.mp h
    refine ⟨fun hneg => absurd hneg (by decide), fun hall => ?_⟩
    rw [hall c hc] at hunsafe
    exact absurd hunsafe (by decide)
  · rename_i h
    refine ⟨fun _ c hc => ?_, fun _ => rfl⟩
    rw [Bool.not_eq_true, List.any_eq_false] at h
    simpa using h c hc

/-- The shell's words where every character of the path is ordinary. -/
theorem tokens_unboundedCommand (hne : p ≠ []) (hp : ∀ c ∈ p, isOrdinary c = true)
    (hhash : p.head? ≠ some '#'.toUInt8) :
    tokens .blank (unboundedCommand p rd) = commandTokens p rd := by
  have hbefore : emitted .blank beforePath =
      [literal (chars "snpguest"), literal (chars "verify"), literal (chars "attestation")] ∧
      after .blank beforePath = .blank := by decide +kernel
  obtain ⟨hpath, hpathEmitted⟩ := Shell.read_ordinary hne hp hhash
  -- the blank behind the path ends its word
  have hsplit : afterPath = ' '.toUInt8 :: afterPath.tail := by decide
  have hafter : emitted .blank afterPath.tail = [literal snpReportTmp,
      literal (chars "--report-data")] ∧
      after .blank afterPath.tail = .word ((chars "0x").map .plain) := by decide +kernel
  have hdigits : ∀ c ∈ bytesToHex rd, isOrdinary c = true := fun c hc =>
    hexDigit_ordinary ((bytesToHex_denotes rd).2 c hc)
  have hredirect : redirection = ' '.toUInt8 :: redirection.tail := by decide
  have hlog : tokens .blank redirection.tail = [.operator (chars ">"),
      literal (chars "snpguest_verify.log"), .ioNumber ((chars "2").map .plain),
      .operator (chars ">&"), literal (chars "1")] := by decide +kernel
  rw [unboundedCommand, tokens_append, hbefore.1, hbefore.2, tokens_append, hpathEmitted, hpath,
    tokens_append, hsplit, emitted, after, step_space, hafter.1, hafter.2, tokens_append,
    Shell.emitted_ordinary hdigits, Shell.after_ordinary hdigits, hredirect, tokens, step_space,
    hlog, ← List.map_append]
  rfl

theorem tokens_verifyCommand (hne : p ≠ []) (hsafe : sanitizePath p = 0) (hp : Intact p)
    (hrd : rd.length = reportDataSize) :
    tokens .blank (verifyCommand p rd) = commandTokens p rd := by
  have hfits : (unboundedCommand p rd).length ≤ cmdSize-1 := by
    rw [unboundedCommand_length hrd, cmdSize]
    have := hp.length
    omega
  rw [verifyCommand_eq_take, List.take_of_length_le hfits]
  have hordinary : ∀ c ∈ p, isOrdinary c = true := fun c hc =>
    isOrdinary_of_safe (sanitizePath_eq_zero.mp hsafe c hc) (fun heq => hp.blank (heq ▸ hc))
      (fun heq => hp.backslash (heq ▸ hc)) (hp.glob c hc)
  exact tokens_unboundedCommand hne hordinary hp.comment

/-! What the command's words are worth cannot exceed the price of the command line. With one for
each plain character, that leaves no character of the path without meaning to lose; a backslash
is paid for by two. -/

def weight (c : UInt8) : Nat := if isBlank c || Shell.isOperator c || isActive c then 0 else 1

theorem pays_weight : Shell.Pays (fun _ => 1) weight 1 where
  plain c hblank hoperator hactive _ := by
    rw [weight, hblank, hoperator, hactive]
    decide
  escape := by decide
  escaped _ := Nat.le_add_right _ _

def slash (c : UInt8) : Nat := if c = backslash then 1 else 0

theorem pays_slash : Shell.Pays (fun c => 2*slash c) slash 1 where
  plain c _ _ _ hslash := by
    rw [slash, if_neg hslash]
  escape := by decide
  escaped c := by
    rw [slash]
    split <;> decide

theorem weight_le_one (c : UInt8) : weight c ≤ 1 := by
  rw [weight]
  split <;> decide

theorem price_weight_le (text : Bytes) : price weight text ≤ text.length := by
  induction text with
  | nil => exact Nat.le_refl 0
  | cons c text ih =>
    have := weight_le_one c
    rw [Shell.price_cons, List.length_cons]
    omega

/-- Only a text whose characters all have their weight has the price of its length. -/
theorem weight_eq_one (h : p.length ≤ price weight p) : ∀ c ∈ p, weight c = 1 := by
  induction p with
  | nil => exact fun c hc => absurd hc List.not_mem_nil
  | cons d p ih =>
    have hone := weight_le_one d
    have hrest := price_weight_le p
    rw [Shell.price_cons, List.length_cons] at h
    intro c hc
    cases hc with
    | head => omega
    | tail _ hc => exact ih (by omega) c hc

theorem price_one (text : Bytes) : price (fun _ => 1) text = text.length := by
  induction text with
  | nil => rfl
  | cons c text ih => rw [Shell.price_cons, ih, List.length_cons, Nat.add_comm]

theorem value_commandTokens (hrd : rd.length = reportDataSize) :
    value (fun _ => 1) (commandTokens p rd) = p.length+203 := by
  have hdigits : (bytesToHex rd).length = 128 := by rw [(bytesToHex_denotes rd).1, hrd]; rfl
  simp only [commandTokens, Shell.value_cons, Shell.value_literal, Shell.value_ioNumber,
    Shell.value_operator, Shell.value_nil, price_one, List.length_append, hdigits]
  have hwords : (chars "snpguest").length = 8 ∧ (chars "verify").length = 6 ∧
      (chars "attestation").length = 11 ∧ snpReportTmp.length = 14 ∧
      (chars "--report-data").length = 13 ∧ (chars "0x").length = 2 ∧
      (chars "snpguest_verify.log").length = 19 ∧ (chars "2").length = 1 ∧
      (chars "1").length = 1 := by decide
  omega

theorem price_unboundedCommand_le (hrd : rd.length = reportDataSize) :
    price weight (unboundedCommand p rd) ≤ price weight p+203 := by
  have hdigits := price_weight_le (bytesToHex rd)
  have hfixed : price weight beforePath = 25 ∧ price weight afterPath = 29 ∧
      price weight redirection = 21 := by decide +kernel
  rw [(bytesToHex_denotes rd).1, hrd, reportDataSize] at hdigits
  simp only [unboundedCommand, Shell.price_append]
  omega

/-- The price of a command line that gives the words. -/
theorem value_le_price {v u : UInt8 → Nat} {k : Nat} (hpays : Shell.Pays v u k)
    (h : tokens .blank (verifyCommand p rd) = commandTokens p rd) :
    value v (commandTokens p rd) ≤ price u (verifyCommand p rd) := by
  have hle := hpays.tokens .blank (verifyCommand p rd)
  rwa [h, State.value, Nat.zero_add] at hle

theorem price_verifyCommand_le (u : UInt8 → Nat) (p rd : Bytes) :
    price u (verifyCommand p rd) ≤ price u (unboundedCommand p rd) := by
  rw [verifyCommand_eq_take]
  exact Shell.price_take_le u (cmdSize-1) _

theorem weight_of_tokens (hrd : rd.length = reportDataSize)
    (h : tokens .blank (verifyCommand p rd) = commandTokens p rd) : ∀ c ∈ p, weight c = 1 := by
  have hvalue := value_le_price pays_weight h
  have hprice := price_verifyCommand_le weight p rd
  have hbound := price_unboundedCommand_le (p := p) hrd
  rw [value_commandTokens hrd] at hvalue
  exact weight_eq_one (by omega)

/-- A quoting backslash is no character of a word. -/
theorem backslash_of_tokens (h : tokens .blank (verifyCommand p rd) = commandTokens p rd) :
    '\\'.toUInt8 ∉ p := by
  intro hmem
  have hvalue := value_le_price pays_slash h
  have hprice := price_verifyCommand_le slash p rd
  have hone : 1 ≤ price slash p := Shell.le_price slash hmem
  have hfixed : price slash beforePath = 0 ∧ price slash afterPath = 0 ∧
      price slash redirection = 0 := by decide +kernel
  simp only [commandTokens, Shell.value_cons, Shell.value_literal, Shell.price_append,
    Shell.price_mul, unboundedCommand] at hvalue hprice
  omega

/-- What is cut off has the last character, which stands for itself. -/
theorem length_of_tokens (hrd : rd.length = reportDataSize)
    (h : tokens .blank (verifyCommand p rd) = commandTokens p rd) : p.length ≤ 808 := by
  by_contra hlong
  have hvalue := value_le_price pays_weight h
  have hdigits := price_weight_le (bytesToHex rd)
  have hlast : redirection = redirection.dropLast ++ chars "1" := by decide
  have hfixed : price weight beforePath = 25 ∧ price weight afterPath = 29 ∧
      price weight redirection.dropLast = 20 := by decide +kernel
  obtain ⟨body, hbody⟩ : ∃ body, body = beforePath ++ (p ++ (afterPath ++ (bytesToHex rd ++
    redirection.dropLast))) := ⟨_, rfl⟩
  have hcommand : unboundedCommand p rd = body ++ chars "1" := by
    rw [unboundedCommand, hlast, hbody]
    simp only [List.append_assoc, ← hlast]
  have hlen : cmdSize-1 ≤ body.length := by
    have hlen := unboundedCommand_length hrd p
    have hone : (chars "1").length = 1 := by decide
    rw [hcommand, List.length_append, hone] at hlen
    rw [cmdSize]
    omega
  have hcut : price weight (verifyCommand p rd) ≤ price weight body := by
    rw [verifyCommand_eq_take, hcommand, List.take_append_of_le_length hlen]
    exact Shell.price_take_le weight _ _
  have hweight := price_weight_le p
  rw [(bytesToHex_denotes rd).1, hrd, reportDataSize] at hdigits
  rw [value_commandTokens hrd] at hvalue
  simp only [hbody, Shell.price_append] at hcut
  omega

theorem comment_of_tokens (hrd : rd.length = reportDataSize)
    (h : tokens .blank (verifyCommand p rd) = commandTokens p rd) :
    p.head? ≠ some '#'.toUInt8 := by
  intro hhash
  obtain ⟨rest, rfl⟩ := List.head?_eq_some_iff.mp hhash
  obtain ⟨more, hmore⟩ : ∃ more, more = (rest ++ (afterPath ++ (bytesToHex rd ++
    redirection))).take 994 := ⟨_, rfl⟩
  have hcommand : verifyCommand ('#'.toUInt8 :: rest) rd = beforePath ++ '#'.toUInt8 :: more := by
    have hlen : beforePath.length = 28 := by decide
    rw [verifyCommand_eq_take, unboundedCommand, List.take_append, hlen, hmore,
      List.take_of_length_le (by rw [hlen]; decide)]
    rfl
  have hbefore : value (fun _ => 1) (emitted .blank beforePath) = 25 ∧
      after .blank beforePath = .blank ∧ price weight beforePath = 25 := by decide +kernel
  have hblank : tokens .blank ('#'.toUInt8 :: more) = tokens .comment more := rfl
  have hone : weight '#'.toUInt8 = 1 := by decide
  have hcomment := pays_weight.tokens .comment more
  have hvalue := value_commandTokens (p := '#'.toUInt8 :: rest) hrd
  have hprice := price_verifyCommand_le weight ('#'.toUInt8 :: rest) rd
  have hbound := price_unboundedCommand_le (p := '#'.toUInt8 :: rest) hrd
  have hweight := price_weight_le ('#'.toUInt8 :: rest)
  rw [← h, hcommand, tokens_append, Shell.value_append, hbefore.1, hbefore.2.1, hblank] at hvalue
  rw [hcommand, Shell.price_append, Shell.price_cons, hbefore.2.2, hone] at hprice
  rw [State.value] at hcomment
  omega

theorem intact_of_tokens (hrd : rd.length = reportDataSize)
    (h : tokens .blank (verifyCommand p rd) = commandTokens p rd) : Intact p := by
  have hone := weight_of_tokens hrd h
  have hspace : weight ' '.toUInt8 = 0 := by decide
  have hglob : weight '*'.toUInt8 = 0 ∧ weight '?'.toUInt8 = 0 ∧ weight '['.toUInt8 = 0 := by
    decide
  refine ⟨fun hc => ?_, backslash_of_tokens h, fun c hc hpattern => ?_, comment_of_tokens hrd h,
    length_of_tokens hrd h⟩
  · have := hone _ hc
    omega
  · have := hone c hc
    rcases hpattern with rfl | rfl | rfl <;> omega

end Words

/-- The shell runs the command of `verify_sev_snp_report` with the directory as the one word it
is exactly for the intact directories. -/
theorem verify_command_exact_iff (env : Option Bytes) (rd : Bytes)
    (hsafe : sanitizePath (certsDir env) = 0) (hrd : rd.length = reportDataSize) :
    tokens .blank (verifyCommand (certsDir env) rd) = commandTokens (certsDir env) rd ↔
      Intact (certsDir env) :=
  ⟨intact_of_tokens hrd, fun hp => tokens_verifyCommand (certsDir_ne_nil env) hsafe hp hrd⟩

/-- The directory where the variable is unset. -/
theorem verify_command_exact_default :
    tokens .blank (verifyCommand (certsDir none) (List.replicate 64 0)) =
        commandTokens (certsDir none) (List.replicate 64 0) ↔ Intact (certsDir none) :=
  verify_command_exact_iff none (List.replicate 64 0) (by decide) (by decide)

/-- An accepted directory that leaves the command without report and report data. -/
theorem hash_drops_report_data :
    sanitizePath (certsDir (some (chars "certs #"))) = 0 ∧
      tokens .blank (verifyCommand (certsDir (some (chars "certs #"))) (List.replicate 64 0)) =
        [literal (chars "snpguest"), literal (chars "verify"), literal (chars "attestation"),
          literal (chars "certs")] ∧
      tokens .blank (verifyCommand (certsDir (some (chars "certs #"))) (List.replicate 64 0)) ≠
        commandTokens (certsDir (some (chars "certs #"))) (List.replicate 64 0) := by
  decide +kernel

end DistributedEnclave.Attest
