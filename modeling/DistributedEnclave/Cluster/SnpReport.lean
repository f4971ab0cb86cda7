import DistributedEnclave.Cluster.Primitives

/-! Verification of an SEV-SNP report by the central node of the NPB benchmark: the policy
and measurement the owner expects, then `snpguest` with the certificates of the chip. -/
namespace DistributedEnclave.Cluster
open DistributedEnclave.Octets

def snpPolicyOffset : Nat := 0x08
def snpMeasurementOffset : Nat := 0x90
def snpMeasurementSize : Nat := 48
def snpReportedTcbOffset : Nat := 0x180
def snpReportedTcbSize : Nat := 8
def snpChipIdOffset : Nat := 0x1A0
def snpChipIdSize : Nat := 64
def pathMax : Nat := 4096

def hexDigit (n : UInt8) : UInt8 := (chars "0123456789abcdef").getD n.toNat 0

def bytesToHex (b : Bytes) : Bytes :=
  b.flatMap fun (x : UInt8) => [hexDigit ((x >>> 4) &&& 0xF), hexDigit (x &&& 0xF)]

def hexNibble (c : UInt8) : Option UInt8 :=
  if '0'.toUInt8 ≤ c ∧ c ≤ '9'.toUInt8 then some (c - '0'.toUInt8)
  else if 'a'.toUInt8 ≤ c ∧ c ≤ 'f'.toUInt8 then some (c - 'a'.toUInt8+10)
  else if 'A'.toUInt8 ≤ c ∧ c ≤ 'F'.toUInt8 then some (c - 'A'.toUInt8+10)
  else none

def parsePairs : Bytes → Option Bytes
  | [] => some []
  | [_] => none
  | a :: b :: rest => do
    let high ← hexNibble a
    let low ← hexNibble b
    let out ← parsePairs rest
    return ((high <<< 4) ||| low) :: out

def dropHexMark (text : Bytes) : Bytes :=
  if text.getD 0 0 = '0'.toUInt8 ∧ (text.getD 1 0 = 'x'.toUInt8 ∨ text.getD 1 0 = 'X'.toUInt8)
  then text.drop 2 else text

def parseHexExact (text : Bytes) (outLen : Nat) : Option Bytes :=
  let text := dropHexMark text
  if text.length ≠ outLen*2 then none else parsePairs text

def loadU64Le (b : Bytes) : UInt64 :=
  b.zipIdx.foldl (fun value x => value ||| (x.1.toUInt64 <<< (UInt64.ofNat (8*x.2)))) 0

def loadU64Be (b : Bytes) : UInt64 := b.foldl (fun value x => (value <<< 8) ||| x.toUInt64) 0

/-- The answers of the operating system during one call of `verify_sev_snp_report`. The
last two are asked once per attempt of its loop. -/
structure SnpHost where
  getenv : String → Option Bytes
  mkdtemp : Option Bytes
  writeReport : Bytes → Bool
  realpath : Bytes → Option Bytes
  mkdir : Bytes → Bool
  symlink : Bytes → Bytes → Bool
  statSize : Nat → Bytes → Option Int
  runProcess : Nat → List Bytes → Int

/-- An environment variable that is set and not empty. -/
def SnpHost.nonEmptyEnv (host : SnpHost) (name : String) : Option Bytes :=
  (host.getenv name).filter (· ≠ [])

def verifyExpectedSnpClaims (host : SnpHost) (report : Bytes) : Int :=
  match host.nonEmptyEnv "SNP_EXPECTED_MEASUREMENT", host.nonEmptyEnv "SNP_EXPECTED_POLICY" with
  | some measurementHex, some policyHex =>
    match parseHexExact measurementHex snpMeasurementSize, parseHexExact policyHex 8 with
    | some expectedMeasurement, some expectedPolicyBytes =>
      if report.length < snpMeasurementOffset+snpMeasurementSize then -1
      else if loadU64Le ((report.drop snpPolicyOffset).take 8) ≠ loadU64Be expectedPolicyBytes
        then -1
      else if (report.drop snpMeasurementOffset).take snpMeasurementSize ≠ expectedMeasurement
        then -1
      else 0
    | _, _ => -1
  | _, _ => -1

def joinPath (directory name : Bytes) : Option Bytes :=
  let path := directory ++ chars "/" ++ name
  if path.length ≥ pathMax then none else some path

def certsArgv (certsDir : Bytes) : List Bytes :=
  [chars "snpguest", chars "verify", chars "certs", certsDir]

def attestationArgv (certsDir reportPath reportDataArg : Bytes) : List Bytes :=
  [chars "snpguest", chars "verify", chars "attestation", certsDir, reportPath,
    chars "--report-data", reportDataArg]

def fetchArgv (certsDir reportPath : Bytes) : List Bytes :=
  [chars "snpguest", chars "fetch", chars "vcek", chars "pem", certsDir, reportPath,
    chars "--processor-model", chars "milan"]

def verifySnpWithCerts (host : SnpHost) (attempt : Nat)
    (certsDir reportPath reportDataArg : Bytes) : Int :=
  if host.runProcess attempt (certsArgv certsDir) ≠ 0 then -1
  else if host.runProcess attempt (attestationArgv certsDir reportPath reportDataArg) = 0 then 0
  else -1

/-- The loop over the cached certificate and a fetched one, with `n` attempts left. -/
def verifyAttempts (host : SnpHost) (workerCerts reportPath reportDataArg vcekPath : Bytes) :
    Nat → Nat → Int
  | 0, _ => -1
  | n+1, attempt =>
    let cached := (host.statSize attempt vcekPath).any (0 < ·)
    if ¬cached ∧ host.runProcess attempt (fetchArgv workerCerts reportPath) ≠ 0 then -1
    else if verifySnpWithCerts host attempt workerCerts reportPath reportDataArg = 0 then 0
    else if ¬cached then -1
    else verifyAttempts host workerCerts reportPath reportDataArg vcekPath n (attempt+1)

structure CertPaths where
  cacheRoot : Bytes
  workerCerts : Bytes
  arkSource : Bytes
  askSource : Bytes
  arkLink : Bytes
  askLink : Bytes
  vcekPath : Bytes

def certPaths (host : SnpHost) (certsDir cacheKey : Bytes) : Option CertPaths := do
  let resolvedCerts ← host.realpath certsDir
  let cacheRoot ← joinPath resolvedCerts (chars "vcek-cache")
  let workerCerts ← joinPath cacheRoot cacheKey
  let arkSource ← joinPath resolvedCerts (chars "ark.pem")
  let askSource ← joinPath resolvedCerts (chars "ask.pem")
  let arkLink ← joinPath workerCerts (chars "ark.pem")
  let askLink ← joinPath workerCerts (chars "ask.pem")
  let vcekPath ← joinPath workerCerts (chars "vcek.pem")
  return ⟨cacheRoot, workerCerts, arkSource, askSource, arkLink, askLink, vcekPath⟩

def cacheInput (report : Bytes) : Bytes :=
  (report.drop snpChipIdOffset).take snpChipIdSize ++
    (report.drop snpReportedTcbOffset).take snpReportedTcbSize

def reportDataArg (expectedReportData : Bytes) : Bytes :=
  chars "0x" ++ bytesToHex expectedReportData

/-- The part after the report has been written to `reportPath`. -/
def verifyWrittenReport (S : Sodium Bytes) (host : SnpHost)
    (report reportPath expectedReportData : Bytes) : Int :=
  let certsDir := (host.nonEmptyEnv "SNP_CERTS_DIR").getD (chars "certs")
  if report.length < snpChipIdOffset+snpChipIdSize then -1
  else
    let cacheKey := bytesToHex (S.generichash hashLen [cacheInput report])
    match certPaths host certsDir cacheKey with
    | none => -1
    | some p =>
      if ¬(host.mkdir p.cacheRoot ∧ host.mkdir p.workerCerts) then -1
      else if ¬(host.symlink p.arkSource p.arkLink ∧ host.symlink p.askSource p.askLink) then -1
      else verifyAttempts host p.workerCerts reportPath (reportDataArg expectedReportData)
        p.vcekPath 2 0

def verifySevSnpReport (S : Sodium Bytes) (host : SnpHost)
    (report expectedReportData : Bytes) : Int :=
  if report.length = 0 then -1
  else if verifyExpectedSnpClaims host report ≠ 0 then -1
  else
    match host.mkdtemp with
    | none => -1
    | some tempDir =>
      let reportPath := tempDir ++ chars "/report.bin"
      if ¬host.writeReport reportPath then -1
      else verifyWrittenReport S host report reportPath expectedReportData

/-- `snpguest` has accepted the certificates in some directory and, under them, the report
with the expected report data. -/
def GuestVerified (host : SnpHost) (expectedReportData : Bytes) : Prop :=
  ∃ attempt certsDir reportPath,
    host.runProcess attempt (certsArgv certsDir) = 0 ∧
    host.runProcess attempt
      (attestationArgv certsDir reportPath (reportDataArg expectedReportData)) = 0

theorem verifyAttempts_verified {host : SnpHost} {certs path arg vcek : Bytes} {n attempt : Nat}
    (h : verifyAttempts host certs path arg vcek n attempt = 0) :
    ∃ attempt, verifySnpWithCerts host attempt certs path arg = 0 := by
  induction n generalizing attempt with
  | zero => cases h
  | succ n ih =>
    simp only [verifyAttempts] at h
    split_ifs at h with hfetch hverify hcached
    · exact ⟨attempt, hverify⟩
    · exact ih h

theorem verifySnpWithCerts_eq_zero {host : SnpHost} {attempt : Nat} {certs path arg : Bytes}
    (h : verifySnpWithCerts host attempt certs path arg = 0) :
    host.runProcess attempt (certsArgv certs) = 0 ∧
      host.runProcess attempt (attestationArgv certs path arg) = 0 := by
  simp only [verifySnpWithCerts, ite_not] at h
  split_ifs at h with hcerts hattestation
  exact ⟨hcerts, hattestation⟩

/-- A report is accepted only non-empty, with the expected claims, and by `snpguest`. -/
theorem verifySevSnpReport_eq_zero {S : Sodium Bytes} {host : SnpHost} {report data : Bytes}
    (h : verifySevSnpReport S host report data = 0) :
    0 < report.length ∧ verifyExpectedSnpClaims host report = 0 ∧ GuestVerified host data := by
  simp only [verifySevSnpReport] at h
  split_ifs at h with hlen hclaims
  cases htemp : host.mkdtemp with
  | none => simp [htemp] at h
  | some dir =>
    simp only [htemp] at h
    split_ifs at h with hwrite
    simp only [verifyWrittenReport] at h
    split_ifs at h with hshort
    cases hpaths : certPaths host ((host.nonEmptyEnv "SNP_CERTS_DIR").getD (chars "certs"))
        (bytesToHex (S.generichash hashLen [cacheInput report])) with
    | none => simp [hpaths] at h
    | some p =>
      simp only [hpaths] at h
      split_ifs at h with hmkdir hlink
      obtain ⟨attempt, hverify⟩ := verifyAttempts_verified h
      obtain ⟨hcerts, hattestation⟩ := verifySnpWithCerts_eq_zero hverify
      exact ⟨Nat.pos_of_ne_zero hlen, not_not.mp hclaims, attempt, p.workerCerts, _, hcerts,
        hattestation⟩

end DistributedEnclave.Cluster
