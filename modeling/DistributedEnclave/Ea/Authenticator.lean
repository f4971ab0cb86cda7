import DistributedEnclave.Ea.Attestation

/-! The validator of exported authenticators. The long function of the source is cut at
its own seams: what it derives from the connection and the request, how it splits the
bytes, the checks on the entries, and the checks on signature, MAC and chain. -/
namespace DistributedEnclave.Ea
open DistributedEnclave.Octets DistributedEnclave.Outcome DistributedEnclave.Repeat

inductive Role where
  | client | server
  deriving DecidableEq, Repr

def labelClientAuthenticatorHandshakeContext : String :=
  "EXPORTER-client authenticator handshake context"
def labelServerAuthenticatorHandshakeContext : String :=
  "EXPORTER-server authenticator handshake context"
def labelClientAuthenticatorFinishedKey : String := "EXPORTER-client authenticator finished key"
def labelServerAuthenticatorFinishedKey : String := "EXPORTER-server authenticator finished key"

def authenticatorHashTLS13 (cipherSuite : UInt16) : Except Error Hash :=
  if cipherSuite = tlsAES128GCMSHA256 ∨ cipherSuite = tlsCHACHA20POLY1305SHA256 then .ok .sha256
  else if cipherSuite = tlsAES256GCMSHA384 then .ok .sha384
  else .error (.errUnknownCipherSuite cipherSuite)

def exportWith (st : ConnectionState) (clientLabel serverLabel : String) (role : Role) :
    Except Error (Bytes × Hash) :=
  if st.version ≠ versionTLS13 then .error .errNotTLS13
  else do
    let h ← authenticatorHashTLS13 st.cipherSuite
    let label := if role = .server then serverLabel else clientLabel
    let out ← fromLibrary (st.exportKeyingMaterial label [] h.size)
    .ok (out, h)

def exportHandshakeContext (st : ConnectionState) (role : Role) : Except Error (Bytes × Hash) :=
  exportWith st labelClientAuthenticatorHandshakeContext
    labelServerAuthenticatorHandshakeContext role

def exportFinishedKey (st : ConnectionState) (role : Role) : Except Error (Bytes × Hash) :=
  exportWith st labelClientAuthenticatorFinishedKey labelServerAuthenticatorFinishedKey role

inductive SigAlg where
  | ecdsa | rsaPSS | ed25519
  deriving DecidableEq, Repr

structure SigSchemeInfo where
  scheme : UInt16
  alg : SigAlg
  hash : Option Hash
  deriving DecidableEq, Repr

def ecdsaWithP256AndSHA256 : UInt16 := 0x0403
def pssWithSHA256 : UInt16 := 0x0804
def ed25519Scheme : UInt16 := 0x0807

def signatureSchemeInfo (s : UInt16) : Except Error SigSchemeInfo :=
  if s = ecdsaWithP256AndSHA256 then .ok ⟨s, .ecdsa, some .sha256⟩
  else if s = pssWithSHA256 then .ok ⟨s, .rsaPSS, some .sha256⟩
  else if s = ed25519Scheme then .ok ⟨s, .ed25519, none⟩
  else .error (.unsupportedSignatureScheme s)

def eaContextString : Bytes :=
  [0x45, 0x78, 0x70, 0x6F, 0x72, 0x74, 0x65, 0x64, 0x20,
   0x41, 0x75, 0x74, 0x68, 0x65, 0x6E, 0x74, 0x69, 0x63, 0x61, 0x74, 0x6F, 0x72]

def buildCertVerifyInput (transcriptHash : Bytes) : Bytes :=
  List.replicate 64 0x20 ++ eaContextString ++ [0x00] ++ transcriptHash

structure ValidationResult where
  context : Bytes
  chain : List Certificate
  cmwAttestation : Bytes
  attestation : Option VerifiedPayload
  empty : Bool
  deriving DecidableEq, Repr

/-- What the validator keeps of the optional request; all empty without one. -/
structure RequestParts where
  bytes : Bytes
  offered : List UInt16
  context : Bytes
  deriving DecidableEq, Repr

def requestParts (req : Option AuthenticatorRequest) : Except Error RequestParts :=
  match req with
  | none => .ok ⟨[], [], []⟩
  | some r => do
    let reqBytes ← marshalRequest r
    let schemes ← r.signatureSchemes
    match schemes with
    | some offered => .ok ⟨reqBytes, offered, r.context⟩
    | none => .error .missingSignatureAlgorithms

structure FullMessages where
  certBytes : Bytes
  cvBytes : Bytes
  cert : CertificateMessage
  cv : CertificateVerifyMessage
  fin : FinishedMessage

def splitMessages (certHm : HandshakeMessage) (rest : Bytes) : Except Error FullMessages :=
  match unmarshalHandshakeMessage rest with
  | .error _ => .error .errUnsupportedHandshakeType
  | .ok (cvHm, rest) =>
    if cvHm.type ≠ handshakeTypeCertificateVerify then .error .errUnsupportedHandshakeType
    else
      match unmarshalHandshakeMessage rest with
      | .error _ => .error .errInvalidLength
      | .ok (finHm, rest) =>
        if finHm.type ≠ handshakeTypeFinished ∨ rest.length ≠ 0 then .error .errInvalidLength
        else do
          let (cert, _) ← unmarshalCertificateMessage (marshalRaw certHm)
          let (cv, _) ← unmarshalCertificateVerifyMessage (marshalRaw cvHm)
          let (fin, _) ← unmarshalFinishedMessage (marshalRaw finHm)
          .ok ⟨marshalRaw certHm, marshalRaw cvHm, cert, cv, fin⟩

def first {α : Type} : List α → Except Error α
  | [] => .error .panic
  | a::_ => .ok a

theorem first_ok {α : Type} (l : List α) (a : α) : first l = .ok a ↔ ∃ t, l = a::t := by
  cases l with
  | nil => simp [first]
  | cons b t => simp [first]

def validateEntries (req : Option AuthenticatorRequest)
    (policy : Option SpontaneousAuthenticatorPolicy) : List CertificateEntry → Except Error Unit
  | [] => .ok ()
  | entry::entries => do
    validateCertificateEntryExtensions req policy entry.extensions
    validateEntries req policy entries

/-- The checks on placement and permission of extensions; the result is the CMW payload of
the leaf entry, if it carries one. -/
def checkEntries (req : Option AuthenticatorRequest)
    (policy : Option SpontaneousAuthenticatorPolicy) (entries : List CertificateEntry) :
    Except Error (Option Bytes) := do
  validateCMWAttestationPlacement entries
  validateEntries req policy entries
  let leafEntry ← first entries
  let extracted ← extractCMWAttestationFromExtensions leafEntry.extensions
  if extracted.isSome ∧ req.isSome ∧
      !requestPermitsCertificateExtension req cmwAttestationExtensionType then
    .error .errBadRequest
  else if extracted.isSome ∧ req.isNone ∧
      !policyPermitsCertificateExtension policy cmwAttestationExtensionType then
    .error .errBadRequest
  else .ok extracted

section
variable (lib : Library)

def hashConcat (h : Hash) (chunks : List Bytes) : Bytes :=
  lib.sum h (chunks.filter (·.length ≠ 0)).flatten

theorem hashConcat_eq (h : Hash) (chunks : List Bytes) :
    hashConcat lib h chunks = lib.sum h chunks.flatten := by
  rw [hashConcat]
  congr 1
  induction chunks with
  | nil => rfl
  | cons c chunks ih =>
    cases c with
    | nil => simpa using ih
    | cons x c => simpa using ih

def hmacSum (h : Hash) (key data : Bytes) : Bytes := lib.hmac h key data

def constantTimeEqual (a b : Bytes) : Bool := a.length == b.length && a == b

theorem constantTimeEqual_iff (a b : Bytes) : constantTimeEqual a b = true ↔ a = b :=
  equalBytes_iff a b

def verifyCertVerify (pub : Key) (scheme : UInt16) (transcriptHash signature : Bytes) :
    Except Error Unit := do
  let info ← signatureSchemeInfo scheme
  let msg := buildCertVerifyInput transcriptHash
  match info.alg, pub with
  | .ecdsa, .ecdsa k =>
    if !lib.verifyECDSA k (lib.sum .sha256 msg) signature then .error .errSignatureMismatch
    else .ok ()
  | .rsaPSS, .rsa k =>
    if !lib.verifyPSS k (lib.sum .sha256 msg) signature then .error .errSignatureMismatch
    else .ok ()
  | .ed25519, .ed25519 k =>
    if !lib.verifyEd25519 k msg signature then .error .errSignatureMismatch else .ok ()
  | _, _ => .error .errUnsupportedSignatureScheme

def parseChain : List CertificateEntry → Except Error (List Certificate)
  | [] => .ok []
  | e::entries => do
    let c ← fromLibrary (lib.parseCertificate e.certDER)
    let chain ← parseChain entries
    .ok (c::chain)

def checkFull (hsCtx fk : Bytes) (h : Hash) (req : Option AuthenticatorRequest)
    (r : RequestParts) (m : FullMessages) : Except Error (List Certificate × Certificate) := do
  let chain ← parseChain lib m.cert.entries
  let leaf ← first chain
  if req.isSome ∧ !r.offered.any (· == m.cv.algorithm) then
    .error .errUnsupportedSignatureScheme
  else do
    let th1 := hashConcat lib h [hsCtx, r.bytes, m.certBytes]
    verifyCertVerify lib leaf.publicKey m.cv.algorithm th1 m.cv.signature
    let th2 := hashConcat lib h [hsCtx, r.bytes, m.certBytes, m.cvBytes]
    let expectedFin := hmacSum lib h fk th2
    if !constantTimeEqual expectedFin m.fin.verifyData then .error .errFinishedMismatch
    else .ok (chain, leaf)

def markContextUsed (ctx : Bytes) : Run Unit := do
  let w ← get
  match w.session with
  | none => pure ()
  | some used =>
    if ctx ∈ used then throw .errContextReuse
    else modify fun w => { w with session := some (ctx::used) }

def addCert (pool : List Certificate) (c : Certificate) : List Certificate :=
  if c ∈ pool then pool else pool ++ [c]

/-- `leaf.Verify` with a copy of the options. The copy shares its pool with the original,
so the certificates added to a pool that is there stay in it. -/
def verifyChain (chain : List Certificate) (leaf : Certificate) : Run Unit := do
  let w ← get
  match w.verifyOpts with
  | none => pure ()
  | some opts =>
    let pool := chain.tail.foldl addCert (opts.intermediates.getD [])
    let shared := { opts with intermediates := opts.intermediates.map fun _ => pool }
    modify fun w => { w with verifyOpts := some shared }
    liftM (fromLibrary (lib.verifyCertificate leaf { opts with intermediates := some pool }))

variable (st : ConnectionState)

def validateFinishedOnly (hsCtx fk : Bytes) (h : Hash) (req : Option AuthenticatorRequest)
    (r : RequestParts) (firstHm : HandshakeMessage) (rest : Bytes) : Run ValidationResult :=
  if req.isNone ∨ rest.length ≠ 0 then throw .errUnsupportedHandshakeType
  else do
    let (finMsg, _) ← liftM (unmarshalFinishedMessage (marshalRaw firstHm))
    let certBytes ← liftM (marshalCertificateMessage ⟨r.context, []⟩)
    let th := hashConcat lib h [hsCtx, r.bytes, certBytes]
    let expectedFin := hmacSum lib h fk th
    if !constantTimeEqual expectedFin finMsg.verifyData then throw .errFinishedMismatch
    else do
      markContextUsed r.context
      pure ⟨r.context, [], [], none, true⟩

/-- The last part of the validator, on the CMW payload of the leaf entry. -/
def attachAttestation (attPolicy : Option VerificationPolicy) (ctx : Bytes)
    (chain : List Certificate) (leaf : Certificate) (extracted : Option Bytes) :
    Run ValidationResult :=
  match extracted with
  | none => pure ⟨ctx, chain, [], none, false⟩
  | some cmw => do
    let parsed ← liftM (parsePayload lib cmw)
    let verified ← verifyPayload lib st exporterLabelAttestation ctx leaf parsed
      (attPolicy.getD ⟨none, none⟩)
    pure ⟨ctx, chain, cmw, some verified, false⟩

def validateAuthenticator (role : Role) (req : Option AuthenticatorRequest)
    (policy : Option SpontaneousAuthenticatorPolicy) (attPolicy : Option VerificationPolicy)
    (authBytes : Bytes) : Run ValidationResult :=
  if st.version ≠ versionTLS13 then throw .errNotTLS13
  else do
    let (hsCtx, h) ← liftM (exportHandshakeContext st role)
    let (fk, _) ← liftM (exportFinishedKey st role)
    let r ← liftM (requestParts req)
    let (firstHm, rest) ← liftM (unmarshalHandshakeMessage authBytes)
    if firstHm.type = handshakeTypeFinished then
      validateFinishedOnly lib hsCtx fk h req r firstHm rest
    else if firstHm.type ≠ handshakeTypeCertificate then throw .errUnsupportedHandshakeType
    else do
      let m ← liftM (splitMessages firstHm rest)
      if req.isSome ∧ m.cert.context ≠ r.context then throw .errContextMismatch
      else if m.cert.entries.length = 0 then do
        markContextUsed m.cert.context
        pure ⟨m.cert.context, [], [], none, true⟩
      else do
        let extracted ← liftM (checkEntries req policy m.cert.entries)
        let (chain, leaf) ← liftM (checkFull lib hsCtx fk h req r m)
        verifyChain lib chain leaf
        markContextUsed m.cert.context
        attachAttestation lib st attPolicy m.cert.context chain leaf extracted

end
end DistributedEnclave.Ea
