import DistributedEnclave.Atls.IssuingCA
import DistributedEnclave.Atls.WorkerSettings

/-! The attested-TLS client, and the worker that asks the head node for its certificate. -/
namespace DistributedEnclave.Atls
open Ea Octets Outcome

structure AttestationEvidence where
  mediaType : String
  bytes : Bytes

abbrev EvidenceFetcher := Bytes → Except Nat AttestationEvidence

def fetchDummyAttestationEvidence : EvidenceFetcher := fun _ =>
  .ok ⟨"application/octet-stream", Cluster.chars "dummy-attestation-report"⟩

structure GuestDevice where
  openDevice : Except Nat Unit
  getExtendedReport : Bytes → Except Nat Bytes
  marshal : Bytes → Except Nat Bytes

def fetchSEVSNPAttestationEvidence (device : GuestDevice) : EvidenceFetcher := fun reportData => do
  device.openDevice
  let report ← device.getExtendedReport reportData
  let evidence ← device.marshal report
  pure ⟨"application/vnd.google.go-sev-guest.attestation+protobuf", evidence⟩

section Client
variable (lib : Library) (sg : Producer)

def buildSEVSNPReportData (context : Bytes) (leaf : Certificate) : Except Error Bytes := do
  let pubKey ← publicKeyBytes lib leaf
  pure (lib.sha512 (pubKey ++ context))

def buildAttesterLeafExtensions (fetcher : EvidenceFetcher) (st : ConnectionState)
    (req : AuthenticatorRequest) (leaf : Certificate) : Except Error (List Extension) := do
  let b ← computeBinding lib st exporterLabelAttestation req.context leaf
  let reportData ← buildSEVSNPReportData lib req.context leaf
  let evidence ← fromLibrary (fetcher reportData)
  let payloadBytes ← marshalPayload sg
    ⟨1, evidence.mediaType, evidence.bytes, [], ⟨b.aikPubHash, b.binding⟩⟩
  let ext ← cmwAttestationDataExtension payloadBytes
  pure [ext]

def evidenceFetcher (device : GuestDevice) (useSEVSNP : Bool) : EvidenceFetcher :=
  if useSEVSNP then fetchSEVSNPAttestationEvidence device else fetchDummyAttestationEvidence

def attesterLeafExtensions (device : GuestDevice) (useSEVSNP : Bool) : ConnectionState →
    AuthenticatorRequest → Certificate → Except Error (List Extension) :=
  buildAttesterLeafExtensions lib sg (evidenceFetcher device useSEVSNP)

inductive ClientError where
  | ea (e : Error)
  | missingClientConfig | trailingRequestBytes | missingClientIdentity | missingClientLeaf
  deriving DecidableEq

structure ClientConfig where
  hasTLSConfig : Bool
  certificates : List Identity
  identity : Identity
  buildLeafExtensions : Option (ConnectionState → AuthenticatorRequest → Certificate →
    Except Error (List Extension))

def resolveClientIdentity (cfg : ClientConfig) : Except ClientError Identity :=
  if cfg.identity.certificate ≠ [] ∧ cfg.identity.privateKey ≠ none then .ok cfg.identity
  else
    match cfg.hasTLSConfig, cfg.certificates with
    | true, identity :: _ => .ok identity
    | _, _ => .error .missingClientIdentity

def buildClientExtensions (cfg : ClientConfig) (st : ConnectionState) (req : AuthenticatorRequest)
    (identity : Identity) : Except ClientError (List Extension) :=
  match cfg.buildLeafExtensions with
  | none => .ok []
  | some build =>
    match identity.certificate with
    | [] => .error .missingClientLeaf
    | der :: _ => Except.mapError .ea (do
      let leaf ← fromLibrary (lib.parseCertificate der)
      build st req leaf)

/-- The request that the client reads, the identity and the extensions it answers with, and what
it has not read. -/
def clientRequest (t : Transport) (cfg : ClientConfig) :
    Except ClientError (ConnectionState × AuthenticatorRequest × Identity × List Extension × Bytes) :=
  do
    let st ← Except.mapError .ea (fromLibrary t.handshake)
    let (frameType, reqBytes, unread) ← Except.mapError .ea (readFrame t.incoming)
    if frameType ≠ frameTypeRequest then .error (.ea (.unexpectedFrameType frameType))
    else
      let (req, rest) ← Except.mapError .ea (unmarshalAuthenticatorRequest reqBytes)
      if rest.length ≠ 0 then .error .trailingRequestBytes
      else
        let identity ← resolveClientIdentity cfg
        let exts ← buildClientExtensions lib cfg st req identity
        pure (st, req, identity, exts, unread)

structure Dialed where
  written : Bytes
  unread : Bytes

def client (t : Transport) (cfg : Option ClientConfig) (w : World) :
    Except ClientError Dialed × World :=
  match cfg with
  | none => (.error .missingClientConfig, w)
  | some cfg =>
    if !cfg.hasTLSConfig then (.error .missingClientConfig, w)
    else
      match clientRequest lib t cfg with
      | .error e => (.error e, w)
      | .ok (st, req, identity, exts, unread) =>
        match exec (createAuthenticator lib sg st .client (some req) none identity exts) w with
        | (.error e, w) => (.error (.ea e), w)
        | (.ok authBytes, w) =>
          let frame := writeFrame frameTypeAuthenticator authBytes
          match t.write frame with
          | .error code => (.error (.ea (.library code)), w)
          | .ok () => (.ok ⟨frame, unread⟩, w)

end Client

section Run

inductive SplitError where
  | noWorkerCert | noCACert
  deriving DecidableEq

def splitCerts (pki : Pki) (data : Bytes) : Except SplitError (Bytes × Bytes) :=
  match pki.decode data with
  | none => .error .noWorkerCert
  | some (b1, rest) =>
    match pki.decode rest with
    | none => .error .noCACert
    | some (b2, _) => .ok (pki.encodeToMemory b1, pki.encodeToMemory b2)

inductive RunError where
  | settings (e : WorkerSettings.SettingError)
  | generateCSR (code : Nat) | identity (code : Nat) | noPinnedCert | pinnedCert
  | dial (e : ClientError) | sendCSR (code : Nat) | readCerts (code : Nat)
  | parseCerts (e : SplitError) | marshalKey (code : Nat) | writeFile (path : String)

def rayCertDir : String := "/root"

/-- The machine of a worker: what `run` generates at random, its files, and the connections of its
network. `handshake` gets the check of the certificates that the server presents. -/
structure WorkerHost where
  settings : WorkerSettings.Source
  device : GuestDevice
  generateKey : Except Nat (PrivateKey × Key)
  createCertificateRequest : String → PrivateKey → Except Nat Bytes
  generateCertificate : Except Nat Identity
  readPinned : Except Nat Bytes
  handshake : (List Bytes → Bool) → Except Nat ConnectionState
  write : Bytes → Except Nat Unit
  writeFile : String → Nat → Bytes → Except Nat Unit

def WorkerHost.generateCSR (host : WorkerHost) (pki : Pki) : Except Nat (PrivateKey × Bytes) := do
  let (key, _) ← host.generateKey
  let der ← host.createCertificateRequest "fort-ray-worker" key
  pure (key, pki.encodeToMemory { type := "CERTIFICATE REQUEST", bytes := der })

def loadPinnedServerCert (host : WorkerHost) (pki : Pki) : Except RunError Bytes :=
  match host.readPinned with
  | .error _ => .error .noPinnedCert
  | .ok pemData =>
    match pki.decode pemData with
    | none => .error .pinnedCert
    | some (block, _) => .ok block.bytes

def verifyPeerCertificate (pinnedDER : Bytes) (rawCerts : List Bytes) : Bool :=
  match rawCerts with
  | [] => false
  | raw :: _ => raw = pinnedDER

def WorkerHost.writeFileOr (host : WorkerHost) (path : String) (mode : Nat) (data : Bytes) :
    Except RunError Unit :=
  (host.writeFile path mode data).mapError fun _ => .writeFile path

structure Written where
  path : String
  mode : Nat
  data : Bytes

structure Worker where
  useSEVSNP : Bool
  key : PrivateKey
  csrPEM : Bytes
  identity : Identity
  pinnedDER : Bytes

def WorkerHost.prepare (host : WorkerHost) (pki : Pki) : Except RunError Worker := do
  let useSEVSNP ← (WorkerSettings.resolveSEVSNPAttestation host.settings).mapError .settings
  let (key, csrPEM) ← (host.generateCSR pki).mapError .generateCSR
  let identity ← host.generateCertificate.mapError .identity
  let pinnedDER ← loadPinnedServerCert host pki
  pure { useSEVSNP, key, csrPEM, identity, pinnedDER }

def Worker.transport (w : Worker) (host : WorkerHost) (incoming : Bytes) : Transport where
  handshake := host.handshake (verifyPeerCertificate w.pinnedDER)
  random _ := .error 0
  write := host.write
  incoming := incoming

def Worker.config (lib : Library) (sg : Producer) (host : WorkerHost) (w : Worker) :
    ClientConfig where
  hasTLSConfig := true
  certificates := []
  identity := w.identity
  buildLeafExtensions := some (attesterLeafExtensions lib sg host.device w.useSEVSNP)

/-- `Dial`; the client has no session. -/
def Worker.dial (lib : Library) (sg : Producer) (host : WorkerHost) (w : Worker)
    (incoming : Bytes) : Except ClientError Dialed :=
  (client lib sg (w.transport host incoming) (some (w.config lib sg host)) ⟨none, none, [], []⟩).1

def Worker.install (pki : Pki) (host : WorkerHost) (w : Worker) (certData : Bytes) :
    Except RunError (List Written) := do
  let (workerCertPEM, caCertPEM) ← (splitCerts pki certData).mapError .parseCerts
  let keyDER ← (pki.marshalECPrivateKey w.key).mapError .marshalKey
  let keyPEM := pki.encodeToMemory { type := "EC PRIVATE KEY", bytes := keyDER }
  let files := [⟨rayCertDir ++ "/ray-worker.crt", 0o644, workerCertPEM⟩,
    ⟨rayCertDir ++ "/ray-worker.key", 0o600, keyPEM⟩,
    ⟨rayCertDir ++ "/ca.crt", 0o644, caCertPEM⟩]
  files.forM fun file => host.writeFileOr file.path file.mode file.data
  pure files

/-- What `run` has sent, without a write that fails, and when it returns `nil` the files it has
written. `incoming` is what comes over the connection before the server closes it, or before it
fails with `readErr`. -/
def run (lib : Library) (sg : Producer) (pki : Pki) (host : WorkerHost) (incoming : Bytes)
    (readErr : Option Nat) : Bytes × Except RunError (List Written) :=
  match host.prepare pki with
  | .error e => ([], .error e)
  | .ok w =>
    match w.dial lib sg host incoming with
    | .error e => ([], .error (.dial e))
    | .ok dialed =>
      match host.write w.csrPEM with
      | .error code => (dialed.written, .error (.sendCSR code))
      | .ok () =>
        (dialed.written ++ w.csrPEM,
          match readErr with
          | some code => .error (.readCerts code)
          | none => w.install pki host dialed.unread)

end Run

end DistributedEnclave.Atls
