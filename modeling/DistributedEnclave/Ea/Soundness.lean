import DistributedEnclave.Ea.Acceptance

/-! What acceptance proves: the Finished MAC, which one form of input goes without, and
everything that stands behind a verified attestation. -/
namespace DistributedEnclave.Ea
open DistributedEnclave.Octets DistributedEnclave.Outcome

def SplitsInto (authBytes : Bytes) (cert : CertificateMessage) (cv : CertificateVerifyMessage)
    (fin : FinishedMessage) : Prop :=
  ∃ certBytes cvBytes finBytes, authBytes = certBytes ++ (cvBytes ++ finBytes) ∧
    unmarshalCertificateMessage certBytes = .ok (cert, certBytes) ∧
    unmarshalCertificateVerifyMessage cvBytes = .ok (cv, cvBytes) ∧
    unmarshalFinishedMessage finBytes = .ok (fin, finBytes)

theorem splitsInto_iff {b : Bytes} {cert : CertificateMessage} {cv : CertificateVerifyMessage}
    {fin : FinishedMessage} : SplitsInto b cert cv fin ↔ IsFull b cert cv fin := by
  simp only [SplitsInto, unmarshalCertificateMessage_ok, unmarshalCertificateVerifyMessage_ok,
    unmarshalFinishedMessage_ok, and_true]
  constructor
  · intro h
    obtain ⟨_, _, _, rfl, ⟨h1, rfl⟩, ⟨h2, rfl⟩, h3, rfl⟩ := h
    exact ⟨h1, h2, h3, rfl⟩
  · intro h
    obtain ⟨h1, h2, h3, rfl⟩ := h
    exact ⟨_, _, _, rfl, ⟨h1, rfl⟩, ⟨h2, rfl⟩, h3, rfl⟩

section
variable (lib : Library)

/-- The bytes end in a Finished message that carries the MAC over the handshake context,
the request, the Certificate message and the CertificateVerify message, if there is one. -/
def CarriesFinishedMac (st : ConnectionState) (role : Role) (req : Option AuthenticatorRequest)
    (authBytes : Bytes) : Prop :=
  ∃ d, derive st role req = .ok d ∧
    ((∃ fin, IsFinishedOnly authBytes fin ∧
        fin.verifyData = d.mac lib (encodeCertificate ⟨d.request.context, []⟩)) ∨
      ∃ cert cv fin, IsFull authBytes cert cv fin ∧
        fin.verifyData = d.mac lib (encodeCertificate cert ++ encodeCertificateVerify cv))

/-- A zero-entry Certificate message that answers the request, followed by a Finished
message with some other content than the MAC. -/
def UncheckedZeroEntry (st : ConnectionState) (role : Role) (req : Option AuthenticatorRequest)
    (authBytes : Bytes) (w : World) : Prop :=
  ∃ d cert cv fin, derive st role req = .ok d ∧
    ChecksZeroEntry d req authBytes w cert cv fin ∧
    fin.verifyData ≠ d.mac lib (encodeCertificate cert ++ encodeCertificateVerify cv)

/-- An unchecked zero-entry authenticator is accepted, and it carries no MAC. -/
theorem UncheckedZeroEntry.accepted {st : ConnectionState} {role : Role}
    {req : Option AuthenticatorRequest} {authBytes : Bytes} {w : World}
    (h : UncheckedZeroEntry lib st role req authBytes w)
    (policy : Option SpontaneousAuthenticatorPolicy) (attPolicy : Option VerificationPolicy) :
    (∃ res w', exec (validateAuthenticator lib st role req policy attPolicy authBytes) w =
      (.ok res, w')) ∧ ¬CarriesFinishedMac lib st role req authBytes := by
  obtain ⟨d, cert, cv, fin, hd, hchecks, hne⟩ := h
  refine ⟨⟨_, _, (exec_validateAuthenticator_ok ..).mpr
    ⟨d, hd, .inr (.inl ⟨cert, cv, fin, hchecks, rfl, rfl⟩)⟩⟩, ?_⟩
  intro h
  obtain ⟨d', hd', h⟩ := h
  obtain rfl : d' = d := Except.ok.inj (hd'.symm.trans hd)
  rcases h with ⟨fin', hfin, _⟩ | ⟨cert', cv', fin', hfull, hmac⟩
  · exact hfin.not_isFull hchecks.isFull
  · obtain ⟨rfl, rfl, rfl⟩ := hfull.unique hchecks.isFull
    exact hne hmac

/-- Acceptance implies the MAC on exactly those inputs that are not an unchecked
zero-entry authenticator. -/
theorem accepted_carriesFinishedMac_iff (st : ConnectionState) (role : Role)
    (req : Option AuthenticatorRequest) (policy : Option SpontaneousAuthenticatorPolicy)
    (attPolicy : Option VerificationPolicy) (authBytes : Bytes) (w : World) :
    (∀ res w', exec (validateAuthenticator lib st role req policy attPolicy authBytes) w =
        (.ok res, w') → CarriesFinishedMac lib st role req authBytes) ↔
      ¬UncheckedZeroEntry lib st role req authBytes w := by
  constructor
  · intro hall hbad
    obtain ⟨⟨res, w', hrun⟩, hno⟩ := hbad.accepted lib policy attPolicy
    exact hno (hall res w' hrun)
  · intro hno res w' hrun
    obtain ⟨d, hd, h⟩ := (exec_validateAuthenticator_ok ..).mp hrun
    refine ⟨d, hd, ?_⟩
    rcases h with ⟨fin, h⟩ | ⟨cert, cv, fin, h⟩ | ⟨cert, cv, fin, chain, leaf, h⟩ |
      ⟨cert, cv, fin, chain, leaf, cmw, p, h⟩
    · exact .inl ⟨fin, h.isFinished, h.mac⟩
    · refine .inr ⟨cert, cv, fin, h.isFull, ?_⟩
      by_contra hne
      exact hno ⟨d, cert, cv, fin, hd, h.toChecksZeroEntry, hne⟩
    · exact .inr ⟨cert, cv, fin, h.isFull, h.checked.mac⟩
    · exact .inr ⟨cert, cv, fin, h.isFull, h.checked.mac⟩

end

def padTo (n : Nat) (b : Bytes) : Bytes := (b ++ List.replicate n 0).take n

def paddingLibrary : Library where
  sum h b := padTo h.size b
  hmac h key data := padTo h.size (key ++ data)
  sha512 b := padTo 64 b
  verifyECDSA _ _ signature := signature == [0x01]
  verifyPSS _ _ _ := false
  verifyEd25519 _ _ _ := false
  parseCertificate der := if der.length = 0 then .error 1 else .ok ⟨der, der, .ecdsa der⟩
  verifyCertificate _ _ := .ok ()
  marshalPKIXPublicKey _ := .error 2
  unmarshalPayload raw := some ⟨1, "application/eat+cwt", raw, [],
    ⟨padTo 32 [0x30], padTo 32 [0x30, 0x07]⟩⟩

def sampleState : ConnectionState where
  version := versionTLS13
  cipherSuite := tlsAES128GCMSHA256
  exportKeyingMaterial label _ n :=
    .ok (padTo n (if label = exporterLabelAttestation then [0x07] else [0x09]))

def sampleRequest : AuthenticatorRequest where
  type := handshakeTypeCertificateRequest
  context := [0x2A]
  extensions := [⟨signatureAlgorithmsExtensionType, [0x00, 0x02, 0x04, 0x03]⟩,
    cmwAttestationOfferExtension]

def noSession : World := ⟨none, none, [], []⟩

def zeroEntryBytes : Bytes :=
  [0x0B,0,0,5, 1,0x2A,0,0,0, 0x0F,0,0,4, 0,0,0,0, 0x14,0,0,1, 0]

theorem zeroEntryBytes_unchecked :
    UncheckedZeroEntry paddingLibrary sampleState .client (some sampleRequest) zeroEntryBytes
      noSession := by
  refine ⟨⟨padTo 32 [0x09], padTo 32 [0x09], .sha256,
    ⟨encodeRequest sampleRequest, [0x0403], [0x2A]⟩⟩, ⟨[0x2A], []⟩, ⟨0, []⟩, ⟨[0]⟩,
    by decide +kernel, ⟨⟨?_, by decide, ?_, by decide⟩, rfl, fun _ => rfl, ?_⟩, by decide +kernel⟩
  · exact emptyCertificate_fits (by decide)
  · exact ⟨by decide, by decide⟩
  · intro used h
    cases h

/-- The code returns a result for a Finished message of one octet, which no MAC is. -/
theorem zeroEntryBytes_accepted_without_mac :
    (exec (validateAuthenticator paddingLibrary sampleState .client (some sampleRequest) none none
      zeroEntryBytes) noSession).1 = .ok ⟨[0x2A], [], [], none, true⟩ ∧
    ¬CarriesFinishedMac paddingLibrary sampleState .client (some sampleRequest) zeroEntryBytes :=
  ⟨by decide +kernel, (zeroEntryBytes_unchecked.accepted _ none none).2⟩

section
variable (lib : Library)

/-- Everything a non-nil attestation in the result stands for. -/
structure AttestationSound (st : ConnectionState) (role : Role)
    (req : Option AuthenticatorRequest) (policy : Option SpontaneousAuthenticatorPolicy)
    (attPolicy : Option VerificationPolicy) (authBytes : Bytes) (verified : VerifiedPayload)
    (d : Derived) (cert : CertificateMessage) (cv : CertificateVerifyMessage)
    (fin : FinishedMessage) (leafEntry : CertificateEntry) (others : List CertificateEntry)
    (leaf : Certificate) (cmw : Bytes) : Prop where
  parses : SplitsInto authBytes cert cv fin
  parsesUniquely : ∀ cert' cv' fin', SplitsInto authBytes cert' cv' fin' →
    cert' = cert ∧ cv' = cv ∧ fin' = fin
  handshakeContext : exportHandshakeContext st role = .ok (d.hsCtx, d.hash)
  finishedKey : exportFinishedKey st role = .ok (d.finishedKey, d.hash)
  noRequest : req = none → d.request.bytes = []
  request : ∀ r, req = some r → marshalRequest r = .ok d.request.bytes ∧
    cert.context = r.context ∧
    ∃ offered, r.signatureSchemes = .ok (some offered) ∧ cv.algorithm ∈ offered
  entries : cert.entries = leafEntry::others
  leafParsed : lib.parseCertificate leafEntry.certDER = .ok leaf
  signature : verifyCertVerify lib leaf.publicKey cv.algorithm
    (lib.sum d.hash (d.hsCtx ++ (d.request.bytes ++ encodeCertificate cert))) cv.signature =
    .ok ()
  mac : fin.verifyData = lib.hmac d.hash d.finishedKey (lib.sum d.hash (d.hsCtx ++
    (d.request.bytes ++ (encodeCertificate cert ++ encodeCertificateVerify cv))))
  onLeaf : ∃ e ∈ leafEntry.extensions, e.type = cmwAttestationExtensionType
  notElsewhere : ∀ entry ∈ others, ∀ e ∈ entry.extensions, e.type ≠ cmwAttestationExtensionType
  permitted : Permits req policy cmwAttestationExtensionType
  extracted : extractCMWAttestationFromExtensions leafEntry.extensions = .ok (some cmw)
  payload : parsePayload lib cmw = .ok verified.payload
  evidence : verified.payload.evidence ≠ [] → ∃ p verify pub, attPolicy = some p ∧
    p.evidenceVerifier = some verify ∧ publicKeyBytes lib leaf = .ok pub ∧
    verify verified.payload.evidence (lib.sha512 (pub ++ cert.context)) = .ok ()
  results : verified.payload.attestationResults ≠ [] → ∃ p verify, attPolicy = some p ∧
    p.resultsVerifier = some verify ∧ verify verified.payload.attestationResults = .ok ()
  binder : ∃ b, computeBinding lib st exporterLabelAttestation cert.context leaf = .ok b ∧
    verified.payload.binder.aikPubHash = b.aikPubHash ∧
    verified.payload.binder.binding = b.binding

theorem exportWith_hash {st : ConnectionState} {c s c' s' : String} {role : Role}
    {x x' : Bytes × Hash} (h : exportWith st c s role = .ok x)
    (h' : exportWith st c' s' role = .ok x') : x.2 = x'.2 := by
  simp only [exportWith, guard_eq_ok, bind_eq_ok, Except.ok.injEq] at h h'
  obtain ⟨_, hash, hh, _, _, rfl⟩ := h
  obtain ⟨_, hash', hh', _, _, rfl⟩ := h'
  exact Except.ok.inj (hh.symm.trans hh')

theorem computeReportData_ok {ctx rd : Bytes} {leaf : Certificate} :
    computeReportData lib ctx leaf = .ok rd ↔
      ∃ pub, publicKeyBytes lib leaf = .ok pub ∧ rd = lib.sha512 (pub ++ ctx) := by
  simp only [computeReportData, bind_eq_ok, Except.ok.injEq]
  exact exists_congr fun _ => and_congr_right fun _ => eq_comm

theorem PayloadChecked.evidence {st : ConnectionState} {attPolicy : Option VerificationPolicy}
    {ctx cmw : Bytes} {leaf : Certificate} {p : Payload}
    (h : PayloadChecked lib st attPolicy ctx leaf cmw p) (hne : p.evidence ≠ []) :
    ∃ pol verify pub, attPolicy = some pol ∧ pol.evidenceVerifier = some verify ∧
      publicKeyBytes lib leaf = .ok pub ∧ verify p.evidence (lib.sha512 (pub ++ ctx)) = .ok () := by
  obtain ⟨verify, rd, hverify, hrd, hok⟩ := h.accepted.evidence hne
  obtain ⟨pub, hpub, rfl⟩ := (computeReportData_ok lib).mp hrd
  cases attPolicy with
  | none => cases hverify
  | some pol => exact ⟨pol, verify, pub, rfl, hverify, hpub, hok⟩

theorem PayloadChecked.results {st : ConnectionState} {attPolicy : Option VerificationPolicy}
    {ctx cmw : Bytes} {leaf : Certificate} {p : Payload}
    (h : PayloadChecked lib st attPolicy ctx leaf cmw p) (hne : p.attestationResults ≠ []) :
    ∃ pol verify, attPolicy = some pol ∧ pol.resultsVerifier = some verify ∧
      verify p.attestationResults = .ok () := by
  obtain ⟨verify, hverify, hok⟩ := h.accepted.results hne
  cases attPolicy with
  | none => cases hverify
  | some pol => exact ⟨pol, verify, rfl, hverify, hok⟩

/-- A result with a non-nil attestation is sound: one parse, one leaf, one transcript and
one context stand behind the signature, the MAC, the accepted statements and the binder. -/
theorem validate_attestation_sound (st : ConnectionState) (role : Role)
    (req : Option AuthenticatorRequest) (policy : Option SpontaneousAuthenticatorPolicy)
    (attPolicy : Option VerificationPolicy) (authBytes : Bytes) (w w' : World)
    (res : ValidationResult) (verified : VerifiedPayload)
    (hrun : exec (validateAuthenticator lib st role req policy attPolicy authBytes) w =
      (.ok res, w'))
    (hatt : res.attestation = some verified) :
    ∃ d cert cv fin leafEntry others leaf cmw, AttestationSound lib st role req policy attPolicy
      authBytes verified d cert cv fin leafEntry others leaf cmw := by
  obtain ⟨d, hd, h⟩ := (exec_validateAuthenticator_ok ..).mp hrun
  obtain ⟨h1, ⟨_, h2⟩, h3⟩ := derive_ok.mp hd
  have hash : _ = d.hash := (exportWith_hash h1 h2).symm
  rcases h with ⟨fin, h⟩ | ⟨cert, cv, fin, h⟩ | ⟨cert, cv, fin, chain, leaf, h⟩ |
    ⟨cert, cv, fin, chain, leaf, cmw, p, h⟩
  · rw [h.result] at hatt
    cases hatt
  · rw [h.result] at hatt
    cases hatt
  · rw [h.result] at hatt
    cases hatt
  obtain ⟨leafEntry, others, hentries, hchecked⟩ := h.entries
  obtain ⟨rest, hchain⟩ := h.checked.leafFirst
  have hverified : verified = p.verified := by
    rw [h.result] at hatt
    exact (Option.some.inj hatt).symm
  have hleaf : lib.parseCertificate leafEntry.certDER = .ok leaf := by
    have := h.checked.parsed
    rw [hentries, hchain] at this
    exact (List.forall₂_cons.mp this).1
  obtain ⟨e, he, htype⟩ := extractCMW_mem hchecked.extracted
  have hpermitted : Permits req policy cmwAttestationExtensionType :=
    htype ▸ hchecked.permitted leafEntry (by simp) e he
  have hbind := (verifyBinder_ok lib st _ _ _ _).mp h.payload.binder
  subst hverified
  refine ⟨d, cert, cv, fin, leafEntry, others, leaf, cmw, ?_⟩
  exact {
    parses := splitsInto_iff.mpr h.isFull
    parsesUniquely := fun _ _ _ h' => (splitsInto_iff.mp h').unique h.isFull
    handshakeContext := h1
    finishedKey := by rw [h2]; exact congrArg (fun x => Except.ok (d.finishedKey, x)) hash
    noRequest := by
      intro h
      subst h
      rw [← Except.ok.inj h3]
    request := by
      intro r hr
      subst hr
      obtain ⟨hfit, hbytes, hctx, hschemes⟩ := requestParts_some h3
      exact ⟨(marshalRequest_ok r _).mpr ⟨hfit, hbytes⟩, (h.context rfl).trans hctx, _, hschemes,
        h.checked.offered rfl⟩
    entries := hentries
    leafParsed := hleaf
    signature := h.checked.signature
    mac := h.checked.mac
    onLeaf := ⟨e, he, htype⟩
    notElsewhere := hchecked.leafOnly
    permitted := hpermitted
    extracted := hchecked.extracted
    payload := h.payload.parsed
    evidence := h.payload.evidence lib
    results := h.payload.results lib
    binder := hbind }

end

def attestedBytes : Bytes :=
  [0x0B,0,0,0x13, 1,0x2A,0,0,0xE, 0,0,1,0x30, 0,8, 0xFF,0,0,4,0,2,0xE1,0xE2,
   0x0F,0,0,5, 4,3,0,1,1, 0x14,0,0,0x20] ++ padTo 32 [0x09]

def acceptingPolicy : VerificationPolicy := ⟨some fun _ _ => .ok (), none⟩

def attestedPayload : VerifiedPayload where
  payload := ⟨1, "application/eat+cwt", [0xE1, 0xE2], [],
    ⟨padTo 32 [0x30], padTo 32 [0x30, 0x07]⟩⟩
  evidenceVerified := true
  resultsVerified := false
  bindingVerified := true
  usedExporterLabel := exporterLabelAttestation

theorem attestedBytes_sound :
    ∃ d cert cv fin leafEntry others leaf cmw, AttestationSound paddingLibrary sampleState .client
      (some sampleRequest) none (some acceptingPolicy) attestedBytes attestedPayload d cert cv fin
      leafEntry others leaf cmw :=
  validate_attestation_sound paddingLibrary sampleState .client (some sampleRequest) none
    (some acceptingPolicy) attestedBytes noSession
    ⟨none, none, [⟨[0xE1, 0xE2], padTo 64 [0x30, 0x2A], true⟩], []⟩
    ⟨[0x2A], [⟨[0x30], [0x30], .ecdsa [0x30]⟩], [0xE1, 0xE2], some attestedPayload, false⟩
    attestedPayload (by decide +kernel) rfl

end DistributedEnclave.Ea
