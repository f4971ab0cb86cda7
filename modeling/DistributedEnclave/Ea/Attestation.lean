import DistributedEnclave.Ea.Policy

/-! The attestation payload of a certificate entry and its verification against the
connection it arrived on. TLS exporters, hashes, x509, JSON and the configured
verifiers are parameters. -/
namespace DistributedEnclave.Ea
open DistributedEnclave.Octets DistributedEnclave.Outcome

/-- The hashes that `authenticatorHashTLS13` hands out. -/
inductive Hash where
  | sha256 | sha384
  deriving DecidableEq, Repr

def Hash.size : Hash → Nat
  | sha256 => 32
  | sha384 => 48

inductive Key where
  | ecdsa (key : Bytes) | rsa (key : Bytes) | ed25519 (key : Bytes) | other (key : Bytes)
  deriving DecidableEq, Repr

structure Certificate where
  raw : Bytes
  rawSubjectPublicKeyInfo : Bytes
  publicKey : Key
  deriving DecidableEq, Repr

structure VerifyOptions where
  dnsName : String
  intermediates : Option (List Certificate)
  roots : Option (List Certificate)
  currentTime : Int
  keyUsages : List Nat
  maxConstraintComparisons : Int
  deriving DecidableEq, Repr

structure AttestationBinder where
  aikPubHash : Bytes
  binding : Bytes
  deriving DecidableEq, Repr

structure Payload where
  version : Int
  mediaType : String
  evidence : Bytes
  attestationResults : Bytes
  binder : AttestationBinder
  deriving DecidableEq, Repr

/-- The Go library functions that the validator relies on. A library error is a number. -/
structure Library where
  sum : Hash → Bytes → Bytes
  hmac : Hash → Bytes → Bytes → Bytes
  sha512 : Bytes → Bytes
  verifyECDSA : Bytes → Bytes → Bytes → Bool
  verifyPSS : Bytes → Bytes → Bytes → Bool
  verifyEd25519 : Bytes → Bytes → Bytes → Bool
  parseCertificate : Bytes → Except Nat Certificate
  verifyCertificate : Certificate → VerifyOptions → Except Nat Unit
  marshalPKIXPublicKey : Key → Except Nat Bytes
  unmarshalPayload : Bytes → Option Payload

structure ConnectionState where
  version : UInt16
  cipherSuite : UInt16
  exportKeyingMaterial : String → Bytes → Nat → Except Nat Bytes

def versionTLS13 : UInt16 := 0x0304
def tlsAES128GCMSHA256 : UInt16 := 0x1301
def tlsAES256GCMSHA384 : UInt16 := 0x1302
def tlsCHACHA20POLY1305SHA256 : UInt16 := 0x1303

def fromLibrary {α : Type} : Except Nat α → Except Error α
  | .ok a => .ok a
  | .error code => .error (.library code)

theorem fromLibrary_ok {α : Type} (x : Except Nat α) (a : α) :
    fromLibrary x = .ok a ↔ x = .ok a := by
  cases x <;> simp [fromLibrary]

structure EvidenceCall where
  evidence : Bytes
  expectedReportData : Bytes
  accepted : Bool
  deriving DecidableEq, Repr

structure ResultsCall where
  results : Bytes
  accepted : Bool
  deriving DecidableEq, Repr

/-- What a validation reaches through pointers: the used contexts of its session, the
verify options it shares with other calls, and the calls its verifiers have seen. -/
structure World where
  session : Option (List Bytes)
  verifyOpts : Option VerifyOptions
  evidenceCalls : List EvidenceCall
  resultsCalls : List ResultsCall
  deriving DecidableEq, Repr

abbrev Run := Effect Error World

structure VerificationPolicy where
  evidenceVerifier : Option (Bytes → Bytes → Except Error Unit)
  resultsVerifier : Option (Bytes → Except Error Unit)

def Payload.validate (p : Payload) : Except Error Unit :=
  if p.evidence.length = 0 ∧ p.attestationResults.length = 0 then .error .errMissingStatement
  else if p.binder.aikPubHash.length = 0 ∨ p.binder.binding.length = 0 then
    .error .errMissingBinder
  else .ok ()

theorem Payload.validate_ok (p : Payload) :
    p.validate = .ok () ↔ (p.evidence ≠ [] ∨ p.attestationResults ≠ []) ∧
      p.binder.aikPubHash ≠ [] ∧ p.binder.binding ≠ [] := by
  simp only [Payload.validate, guard_eq_ok, List.length_eq_zero_iff, not_and_or, not_or, and_true]

section
variable (lib : Library) (st : ConnectionState)

def parsePayload (raw : Bytes) : Except Error Payload :=
  if raw.length = 0 then .error .errMalformedPayload
  else
    match lib.unmarshalPayload raw with
    | none => .error .errMalformedPayload
    | some p => do
      p.validate
      .ok p

def exporterLabelAttestation : String := "Attestation"
def exportedAttestationValueLen : Nat := 32

def attestationHashTLS13 (cipherSuite : UInt16) : Except Error Hash :=
  if cipherSuite = tlsAES128GCMSHA256 ∨ cipherSuite = tlsCHACHA20POLY1305SHA256 then .ok .sha256
  else if cipherSuite = tlsAES256GCMSHA384 then .ok .sha384
  else .error (.attestationUnknownCipherSuite cipherSuite)

def exportAttestationValue (label : String) (contextValue : Bytes) :
    Except Error (Bytes × Hash) :=
  if st.version ≠ versionTLS13 then .error .attestationNotTLS13
  else do
    let h ← attestationHashTLS13 st.cipherSuite
    let out ← fromLibrary (st.exportKeyingMaterial label contextValue exportedAttestationValueLen)
    .ok (out, h)

def publicKeyBytes (leaf : Certificate) : Except Error Bytes :=
  if leaf.rawSubjectPublicKeyInfo.length > 0 then .ok leaf.rawSubjectPublicKeyInfo
  else fromLibrary (lib.marshalPKIXPublicKey leaf.publicKey)

def aikPublicKeyHash (h : Hash) (pubKey : Bytes) : Bytes := lib.sum h pubKey

def bindingValue (h : Hash) (pubKey exportedValue : Bytes) : Bytes :=
  lib.sum h (pubKey ++ exportedValue)

structure Binding where
  exportedValue : Bytes
  aikPubHash : Bytes
  binding : Bytes
  deriving DecidableEq, Repr

def computeBinding (label : String) (certificateRequestContext : Bytes) (leaf : Certificate) :
    Except Error Binding := do
  let (exportedValue, h) ← exportAttestationValue st label certificateRequestContext
  let pub ← publicKeyBytes lib leaf
  .ok ⟨exportedValue, aikPublicKeyHash lib h pub, bindingValue lib h pub exportedValue⟩

def computeReportData (context : Bytes) (leaf : Certificate) : Except Error Bytes := do
  let pub ← publicKeyBytes lib leaf
  .ok (lib.sha512 (pub ++ context))

def equalBytes (a b : Bytes) : Bool := a.length == b.length && a == b

theorem equalBytes_iff (a b : Bytes) : equalBytes a b = true ↔ a = b := by
  simp only [equalBytes, Bool.and_eq_true, beq_iff_eq]
  exact ⟨And.right, fun h => ⟨by rw [h], h⟩⟩

def verifyBinder (label : String) (certificateRequestContext : Bytes) (leaf : Certificate)
    (binder : AttestationBinder) : Except Error Unit := do
  let b ← computeBinding lib st label certificateRequestContext leaf
  if !equalBytes b.aikPubHash binder.aikPubHash then .error .errAIKPubHashMismatch
  else if !equalBytes b.binding binder.binding then .error .errBindingMismatch
  else .ok ()

theorem verifyBinder_ok (label : String) (ctx : Bytes) (leaf : Certificate)
    (binder : AttestationBinder) :
    verifyBinder lib st label ctx leaf binder = .ok () ↔
      ∃ b, computeBinding lib st label ctx leaf = .ok b ∧
        binder.aikPubHash = b.aikPubHash ∧ binder.binding = b.binding := by
  simp only [verifyBinder, bind_eq_ok, guard_eq_ok, Bool.not_eq_true, Bool.not_eq_false',
    equalBytes_iff, and_true]
  simp [eq_comm]

def callEvidenceVerifier (verify : Bytes → Bytes → Except Error Unit)
    (evidence expectedReportData : Bytes) : Run Unit := do
  let result := verify evidence expectedReportData
  modify fun w => { w with evidenceCalls := w.evidenceCalls ++
    [⟨evidence, expectedReportData, result.isOk⟩] }
  liftM result

def callResultsVerifier (verify : Bytes → Except Error Unit) (results : Bytes) : Run Unit := do
  let result := verify results
  modify fun w => { w with resultsCalls := w.resultsCalls ++ [⟨results, result.isOk⟩] }
  liftM result

structure VerifiedPayload where
  payload : Payload
  evidenceVerified : Bool
  resultsVerified : Bool
  bindingVerified : Bool
  usedExporterLabel : String
  deriving DecidableEq, Repr

/-- The part of `VerifyPayload` about the evidence; the flag is `EvidenceVerified`. -/
def verifyEvidenceStatement (ctx : Bytes) (leaf : Certificate) (payload : Payload)
    (policy : VerificationPolicy) : Run Bool :=
  match policy.evidenceVerifier with
  | some verify =>
    if payload.evidence.length > 0 then do
      let expectedRD ← liftM (computeReportData lib ctx leaf)
      callEvidenceVerifier verify payload.evidence expectedRD
      pure true
    else pure false
  | none =>
    if payload.evidence.length > 0 then throw .errEvidenceVerificationMissing else pure false

def verifyResultsStatement (payload : Payload) (policy : VerificationPolicy) : Run Bool :=
  match policy.resultsVerifier with
  | some verify =>
    if payload.attestationResults.length > 0 then do
      callResultsVerifier verify payload.attestationResults
      pure true
    else pure false
  | none =>
    if payload.attestationResults.length > 0 then throw .errResultsVerificationMissing
    else pure false

def verifyPayload (defaultLabel : String) (ctx : Bytes) (leaf : Certificate) (payload : Payload)
    (policy : VerificationPolicy) : Run VerifiedPayload := do
  liftM payload.validate
  let evidenceVerified ← verifyEvidenceStatement lib ctx leaf payload policy
  let resultsVerified ← verifyResultsStatement payload policy
  liftM (verifyBinder lib st defaultLabel ctx leaf payload.binder)
  pure ⟨payload, evidenceVerified, resultsVerified, true, defaultLabel⟩

theorem exec_callEvidenceVerifier_ok (verify : Bytes → Bytes → Except Error Unit)
    (evidence rd : Bytes) (w w' : World) (u : Unit) :
    exec (callEvidenceVerifier verify evidence rd) w = (.ok u, w') ↔
      verify evidence rd = .ok () ∧
        w' = { w with evidenceCalls := w.evidenceCalls ++ [⟨evidence, rd, true⟩] } := by
  simp only [callEvidenceVerifier, exec_bind, exec_modify, exec_lift, Prod.mk.injEq]
  constructor
  · intro h
    obtain ⟨h, rfl⟩ := h
    exact ⟨h, by rw [h]; rfl⟩
  · intro h
    obtain ⟨h, rfl⟩ := h
    exact ⟨h, by rw [h]; rfl⟩

theorem exec_callResultsVerifier_ok (verify : Bytes → Except Error Unit)
    (results : Bytes) (w w' : World) (u : Unit) :
    exec (callResultsVerifier verify results) w = (.ok u, w') ↔
      verify results = .ok () ∧
        w' = { w with resultsCalls := w.resultsCalls ++ [⟨results, true⟩] } := by
  simp only [callResultsVerifier, exec_bind, exec_modify, exec_lift, Prod.mk.injEq]
  constructor
  · intro h
    obtain ⟨h, rfl⟩ := h
    exact ⟨h, by rw [h]; rfl⟩
  · intro h
    obtain ⟨h, rfl⟩ := h
    exact ⟨h, by rw [h]; rfl⟩

/-- A successful evidence step either had no evidence to look at, or made one call that
accepted the evidence with the report data of this context and leaf. -/
theorem exec_verifyEvidenceStatement_ok (ctx : Bytes) (leaf : Certificate) (payload : Payload)
    (policy : VerificationPolicy) (w w' : World) (flag : Bool) :
    exec (verifyEvidenceStatement lib ctx leaf payload policy) w = (.ok flag, w') ↔
      (payload.evidence = [] ∧ flag = false ∧ w' = w) ∨
      (payload.evidence ≠ [] ∧ flag = true ∧ ∃ verify rd,
        policy.evidenceVerifier = some verify ∧ computeReportData lib ctx leaf = .ok rd ∧
        verify payload.evidence rd = .ok () ∧
        w' = { w with evidenceCalls := w.evidenceCalls ++ [⟨payload.evidence, rd, true⟩] }) := by
  rw [verifyEvidenceStatement]
  cases policy.evidenceVerifier with
  | none =>
    by_cases hc : payload.evidence = []
    · simp [hc, eq_comm]
    · simp [List.length_pos_iff, hc]
  | some verify =>
    by_cases hc : payload.evidence = []
    · simp [hc, eq_comm]
    · simp only [gt_iff_lt, List.length_pos_iff, ne_eq, hc, not_false_eq_true, if_true,
        false_and, false_or, true_and, exec_lift, exec_bind_ok,
        exec_callEvidenceVerifier_ok, exec_pure, Prod.mk.injEq, Except.ok.injEq,
        Option.some.injEq]
      constructor
      · intro h
        obtain ⟨rd, _, ⟨hrd, rfl⟩, _, _, ⟨hv, rfl⟩, rfl, rfl⟩ := h
        exact ⟨rfl, verify, rd, rfl, hrd, hv, rfl⟩
      · intro h
        obtain ⟨rfl, _, rd, rfl, hrd, hv, rfl⟩ := h
        exact ⟨rd, w, ⟨hrd, rfl⟩, (), _, ⟨hv, rfl⟩, rfl, rfl⟩

theorem exec_verifyResultsStatement_ok (payload : Payload) (policy : VerificationPolicy)
    (w w' : World) (flag : Bool) :
    exec (verifyResultsStatement payload policy) w = (.ok flag, w') ↔
      (payload.attestationResults = [] ∧ flag = false ∧ w' = w) ∨
      (payload.attestationResults ≠ [] ∧ flag = true ∧ ∃ verify,
        policy.resultsVerifier = some verify ∧ verify payload.attestationResults = .ok () ∧
        w' = { w with resultsCalls := w.resultsCalls ++ [⟨payload.attestationResults, true⟩] }) := by
  rw [verifyResultsStatement]
  cases policy.resultsVerifier with
  | none =>
    by_cases hc : payload.attestationResults = []
    · simp [hc, eq_comm]
    · simp [List.length_pos_iff, hc]
  | some verify =>
    by_cases hc : payload.attestationResults = []
    · simp [hc, eq_comm]
    · simp only [gt_iff_lt, List.length_pos_iff, ne_eq, hc, not_false_eq_true, if_true,
        false_and, false_or, true_and, exec_bind_ok, exec_callResultsVerifier_ok, exec_pure,
        Prod.mk.injEq, Except.ok.injEq, Option.some.injEq]
      constructor
      · intro h
        obtain ⟨_, _, ⟨hv, rfl⟩, rfl, rfl⟩ := h
        exact ⟨rfl, verify, rfl, hv, rfl⟩
      · intro h
        obtain ⟨rfl, _, rfl, hv, rfl⟩ := h
        exact ⟨(), _, ⟨hv, rfl⟩, rfl, rfl⟩

structure Payload.Accepted (policy : VerificationPolicy) (ctx : Bytes) (leaf : Certificate)
    (p : Payload) : Prop where
  evidence : p.evidence ≠ [] → ∃ verify rd, policy.evidenceVerifier = some verify ∧
    computeReportData lib ctx leaf = .ok rd ∧ verify p.evidence rd = .ok ()
  results : p.attestationResults ≠ [] → ∃ verify, policy.resultsVerifier = some verify ∧
    verify p.attestationResults = .ok ()

def evidenceCallsOf (ctx : Bytes) (leaf : Certificate) (p : Payload) : List EvidenceCall :=
  if p.evidence = [] then []
  else match computeReportData lib ctx leaf with
    | .ok rd => [⟨p.evidence, rd, true⟩]
    | .error _ => []

def resultsCallsOf (p : Payload) : List ResultsCall :=
  if p.attestationResults = [] then [] else [⟨p.attestationResults, true⟩]

/-- `VerifyPayload` succeeds exactly on a valid payload whose statements are accepted by
configured verifiers and whose binder is the computed one. -/
theorem exec_verifyPayload_ok (label : String) (ctx : Bytes) (leaf : Certificate) (p : Payload)
    (policy : VerificationPolicy) (w w' : World) (v : VerifiedPayload) :
    exec (verifyPayload lib st label ctx leaf p policy) w = (.ok v, w') ↔
      p.validate = .ok () ∧ p.Accepted lib policy ctx leaf ∧
      verifyBinder lib st label ctx leaf p.binder = .ok () ∧
      v = ⟨p, p.evidence ≠ [], p.attestationResults ≠ [], true, label⟩ ∧
      w' = { w with
        evidenceCalls := w.evidenceCalls ++ evidenceCallsOf lib ctx leaf p
        resultsCalls := w.resultsCalls ++ resultsCallsOf p } := by
  simp only [verifyPayload, exec_lift, exec_bind_ok, exec_pure, Prod.mk.injEq,
    Except.ok.injEq, exec_verifyEvidenceStatement_ok, exec_verifyResultsStatement_ok]
  constructor
  · intro h
    obtain ⟨_, _, ⟨hval, rfl⟩, ev, w1, hev, rs, w2, hrs, _, _, ⟨hbind, rfl⟩, rfl, rfl⟩ := h
    refine ⟨hval, ⟨fun hne => ?_, fun hne => ?_⟩, hbind, ?_⟩
    · rcases hev with ⟨hnil, _⟩ | ⟨_, _, verify, rd, h1, h2, h3, _⟩
      · exact absurd hnil hne
      · exact ⟨verify, rd, h1, h2, h3⟩
    · rcases hrs with ⟨hnil, _⟩ | ⟨_, _, verify, h1, h2, _⟩
      · exact absurd hnil hne
      · exact ⟨verify, h1, h2⟩
    · rcases hev with ⟨h, rfl, rfl⟩ | ⟨h, rfl, _, rd, _, hrd, _, rfl⟩ <;>
        rcases hrs with ⟨h', rfl, rfl⟩ | ⟨h', rfl, _, _, _, rfl⟩ <;>
        simp [evidenceCallsOf, resultsCallsOf, *]
  · intro h
    obtain ⟨hval, hacc, hbind, rfl, rfl⟩ := h
    refine ⟨(), w, ⟨hval, rfl⟩, p.evidence ≠ [], { w with
      evidenceCalls := w.evidenceCalls ++ evidenceCallsOf lib ctx leaf p }, ?_,
      p.attestationResults ≠ [], _, ?_, (), _, ⟨hbind, rfl⟩, rfl, rfl⟩
    · by_cases h : p.evidence = []
      · exact .inl ⟨h, by simp [h], by simp [evidenceCallsOf, h]⟩
      · obtain ⟨verify, rd, h1, h2, h3⟩ := hacc.evidence h
        exact .inr ⟨h, by simp [h], verify, rd, h1, h2, h3, by simp [evidenceCallsOf, h, h2]⟩
    · by_cases h : p.attestationResults = []
      · exact .inl ⟨h, by simp [h], by simp [resultsCallsOf, h]⟩
      · obtain ⟨verify, h1, h2⟩ := hacc.results h
        exact .inr ⟨h, by simp [h], verify, h1, h2, by simp [resultsCallsOf, h]⟩

end
end DistributedEnclave.Ea
