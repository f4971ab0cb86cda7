import DistributedEnclave.Ea.Creation
import DistributedEnclave.Ea.Soundness

/-! What the creator produces, the validator at the other end of the connection accepts, and
the result says what went in. -/
namespace DistributedEnclave.Ea
open DistributedEnclave.Octets DistributedEnclave.Outcome

/-- The two ends of a TLS 1.3 connection whose exporters agree. -/
structure ExportersAgree (st st' : ConnectionState) : Prop where
  version : st'.version = st.version
  cipherSuite : st'.cipherSuite = st.cipherSuite
  exporter : ∀ label ctx n,
    st'.exportKeyingMaterial label ctx n = st.exportKeyingMaterial label ctx n

theorem ExportersAgree.eq {st st' : ConnectionState} (h : ExportersAgree st st') : st' = st := by
  cases st
  cases st'
  obtain rfl := h.version
  obtain rfl := h.cipherSuite
  obtain rfl := funext fun label => funext fun ctx => funext (h.exporter label ctx)
  rfl

section
variable (lib : Library) (sg : Producer)

def SignsFor : PrivateKey → Key → Prop
  | .ecdsa _ k, .ecdsa pub => ∀ digest sig, sg.signECDSA k digest = .ok sig →
      lib.verifyECDSA pub digest sig = true
  | .rsa k, .rsa pub => ∀ digest sig, sg.signPSS k digest = .ok sig →
      lib.verifyPSS pub digest sig = true
  | .ed25519 k, .ed25519 pub => ∀ msg, lib.verifyEd25519 pub msg (sg.signEd25519 k msg) = true
  | .other _, .other _ => True
  | _, _ => False

variable {lib sg}

theorem verify_signCertVerify {priv : PrivateKey} {pub : Key} (hkey : SignsFor lib sg priv pub)
    {scheme : UInt16} {th sig : Bytes} (h : signCertVerify lib sg priv scheme th = .ok sig) :
    verifyCertVerify lib pub scheme th sig = .ok () := by
  simp only [signCertVerify, bind_eq_ok] at h
  obtain ⟨info, hinfo, h⟩ := h
  simp only [verifyCertVerify, hinfo, ok_bind]
  cases halg : info.alg with
  | ecdsa =>
    rw [halg] at h
    cases priv with
    | ecdsa curve k =>
      cases pub with
      | ecdsa pub =>
        have hok := hkey _ _ ((fromLibrary_ok _ _).mp h)
        simp [hok]
      | _ => exact hkey.elim
    | _ => cases h
  | rsaPSS =>
    rw [halg] at h
    cases priv with
    | rsa k =>
      cases pub with
      | rsa pub =>
        have hok := hkey _ _ ((fromLibrary_ok _ _).mp h)
        simp [hok]
      | _ => exact hkey.elim
    | _ => cases h
  | ed25519 =>
    rw [halg] at h
    cases priv with
    | ed25519 k =>
      cases pub with
      | ed25519 pub =>
        have hok := hkey (buildCertVerifyInput th)
        cases h
        simp [hok]
      | _ => exact hkey.elim
    | _ => cases h

variable (lib sg) (st : ConnectionState)

/-- The extensions hold one CMW extension, and it wraps a payload whose binder is the
computed one and whose statements the configured verifiers accept. -/
structure WrapsPayload (attPolicy : Option VerificationPolicy) (ctx : Bytes) (leaf : Certificate)
    (exts : List Extension) (cmw : Bytes) (p : Payload) : Prop where
  extension : ∃ before e after, exts = before ++ e::after ∧
    cmwAttestationDataExtension cmw = .ok e ∧
    ∀ x ∈ before ++ after, x.type ≠ cmwAttestationExtensionType
  marshaled : marshalPayload sg p = .ok cmw
  binder : ∃ b, computeBinding lib st exporterLabelAttestation ctx leaf = .ok b ∧
    p.binder = ⟨b.aikPubHash, b.binding⟩
  accepted : p.Accepted lib (attPolicy.getD ⟨none, none⟩) ctx leaf

structure HasChain (identity : Identity) (leaf : Certificate) (issuers : List Certificate) :
    Prop where
  parsed : List.Forall₂ (fun der c => lib.parseCertificate der = .ok c) identity.certificate
    (leaf::issuers)
  key : ∀ priv, identity.privateKey = some priv → SignsFor lib sg priv leaf.publicKey

/-- The identities and leaf extensions an authenticator can be made of, with the chain and
the CMW payload that the validator is to report. -/
inductive Presents (attPolicy : Option VerificationPolicy) (ctx : Bytes) (identity : Identity)
    (exts : List Extension) : List Certificate → Option Bytes → Prop
  | empty : identity.certificate = [] → identity.privateKey = none →
      Presents attPolicy ctx identity exts [] none
  | plain {leaf issuers} : HasChain lib sg identity leaf issuers →
      (∀ e ∈ exts, e.type ≠ cmwAttestationExtensionType) →
      Presents attPolicy ctx identity exts (leaf::issuers) none
  | attested {leaf issuers cmw p} : HasChain lib sg identity leaf issuers →
      WrapsPayload lib sg st attPolicy ctx leaf exts cmw p →
      Presents attPolicy ctx identity exts (leaf::issuers) (some cmw)

variable {lib sg st}

theorem WrapsPayload.extracted {attPolicy : Option VerificationPolicy} {ctx cmw : Bytes}
    {leaf : Certificate} {exts : List Extension} {p : Payload}
    (h : WrapsPayload lib sg st attPolicy ctx leaf exts cmw p) :
    extractCMWAttestationFromExtensions exts = .ok (some cmw) := by
  obtain ⟨before, e, after, rfl, hcmw, hother⟩ := h.extension
  rw [extractCMW_append fun x hx => hother x (List.mem_append_left _ hx)]
  exact extractCMW_marshal hcmw after

theorem versioned_fields (p : Payload) : p.versioned.evidence = p.evidence ∧
    p.versioned.attestationResults = p.attestationResults ∧ p.versioned.binder = p.binder := by
  rw [Payload.versioned]
  split <;> exact ⟨rfl, rfl, rfl⟩

theorem marshalPayload_parsed (hjson : ∀ p raw, sg.marshalJSON p = .ok raw →
      lib.unmarshalPayload raw = some p) {p : Payload} {raw : Bytes}
    (h : marshalPayload sg p = .ok raw) (hne : raw ≠ []) :
    parsePayload lib raw = .ok p.versioned := by
  simp only [marshalPayload, bind_eq_ok, fromLibrary_ok] at h
  obtain ⟨_, hval, hraw⟩ := h
  have hval' : p.versioned.validate = .ok () := by
    obtain ⟨hev, hres, hbinder⟩ := versioned_fields p
    rw [Payload.validate, hev, hres, hbinder]
    exact hval
  rw [parsePayload, if_neg (by simpa using hne), hjson _ _ hraw]
  simp only [hval', ok_bind]

/-- The wrapped payload passes every check of the validator. -/
theorem WrapsPayload.checked (hjson : ∀ p raw, sg.marshalJSON p = .ok raw →
      lib.unmarshalPayload raw = some p) {attPolicy : Option VerificationPolicy}
    {ctx cmw : Bytes} {leaf : Certificate} {exts : List Extension} {p : Payload}
    (h : WrapsPayload lib sg st attPolicy ctx leaf exts cmw p) :
    PayloadChecked lib st attPolicy ctx leaf cmw p.versioned := by
  obtain ⟨_, _, _, hne, _⟩ := extractCMW_eq_some h.extracted
  obtain ⟨b, hb, hbinder⟩ := h.binder
  obtain ⟨hev, hres, hversioned⟩ := versioned_fields p
  refine ⟨marshalPayload_parsed hjson h.marshaled hne, ⟨?_, ?_⟩,
    (verifyBinder_ok ..).mpr ⟨b, hb, ?_⟩⟩
  · rw [hev]
    exact h.accepted.evidence
  · rw [hres]
    exact h.accepted.results
  · rw [hversioned, hbinder]
    exact ⟨rfl, rfl⟩

theorem parsed_certificateEntries (exts : List Extension) {ders : List Bytes}
    {chain : List Certificate}
    (h : List.Forall₂ (fun der c => lib.parseCertificate der = .ok c) ders chain) :
    List.Forall₂ (fun (e : CertificateEntry) c => lib.parseCertificate e.certDER = .ok c)
      (certificateEntries exts ders) chain := by
  cases h with
  | nil => exact .nil
  | cons hleaf hrest =>
    refine .cons hleaf ?_
    rw [List.forall₂_map_left_iff]
    exact hrest

/-- A full authenticator that was created passes the checks on its messages. -/
theorem CreatedFull.checks {d : Derived} {r : AuthenticatorRequest}
    {policy : Option SpontaneousAuthenticatorPolicy} {identity : Identity}
    {exts : List Extension} {authBytes : Bytes} {priv : PrivateKey} {cert : CertificateMessage}
    {cv : CertificateVerifyMessage} {leaf : Certificate} {issuers : List Certificate}
    {extracted : Option Bytes} {w : World}
    (h : CreatedFull lib sg d (some r) policy identity exts authBytes priv cert cv)
    (policy' : Option SpontaneousAuthenticatorPolicy)
    (hchain : HasChain lib sg identity leaf issuers)
    (hoffered : r.signatureSchemes = .ok (some d.request.offered))
    (hpermit : ∀ e ∈ exts, Permits (some r) policy e.type)
    (hextract : extractCMWAttestationFromExtensions exts = .ok extracted)
    (hopts : w.verifyOpts = none) (hfresh : w.Fresh d.request.context) :
    ChecksEntries lib d (some r) policy' authBytes w cert cv
      ⟨d.mac lib (encodeCertificate cert ++ encodeCertificateVerify cv)⟩ extracted
      (leaf::issuers) leaf := by
  have hcert := h.cert_eq
  have hparsed := parsed_certificateEntries exts hchain.parsed
  have hschemes := parseSignatureSchemesExtension_ne_nil hoffered
  subst hcert
  refine ⟨h.isFull, fun _ => rfl, ?_, ⟨hparsed, ⟨issuers, rfl⟩, ?_, ?_, rfl⟩, ?_, hfresh⟩
  · cases hders : identity.certificate with
    | nil => exact absurd hders h.certificate
    | cons der ders =>
      refine ⟨⟨der, exts⟩, ders.map (⟨·, []⟩), rfl, ?_, ?_, hextract⟩
      · intro entry hentry e he
        obtain ⟨der', _, rfl⟩ := List.mem_map.mp hentry
        cases he
      · intro entry hentry e he
        cases List.mem_cons.mp hentry with
        | inl hleaf =>
          subst hleaf
          exact hpermit e he
        | inr hother =>
          obtain ⟨der', _, rfl⟩ := List.mem_map.mp hother
          cases he
  · exact fun _ => chooseSignatureScheme_offered h.chosen hschemes
  · exact verify_signCertVerify (hchain.key priv h.key) h.signed
  · intro opts hsome
    rw [hopts] at hsome
    cases hsome

theorem HasChain.certificate_ne {identity : Identity} {leaf : Certificate}
    {issuers : List Certificate} (h : HasChain lib sg identity leaf issuers) :
    identity.certificate ≠ [] := by
  intro hnil
  have := h.parsed
  rw [hnil] at this
  cases this

/-- Whatever the creator returns for a request, the validator with the same role and request
accepts, and it reports the context of the request, the chain and the CMW payload. -/
theorem created_is_accepted {st' : ConnectionState} (hagree : ExportersAgree st st')
    (hjson : ∀ p raw, sg.marshalJSON p = .ok raw → lib.unmarshalPayload raw = some p)
    (role : Role) (r : AuthenticatorRequest)
    (policy policy' : Option SpontaneousAuthenticatorPolicy)
    (attPolicy : Option VerificationPolicy) (identity : Identity) (exts : List Extension)
    (chain : List Certificate) (cmw : Option Bytes)
    (hpresents : Presents lib sg st attPolicy r.context identity exts chain cmw)
    (w₀ w₁ w : World) (authBytes : Bytes)
    (hcreate : exec (createAuthenticator lib sg st role (some r) policy identity exts) w₀ =
      (.ok authBytes, w₁))
    (hopts : w.verifyOpts = none) (hunused : w.Fresh r.context) :
    ∃ res w', exec (validateAuthenticator lib st' role (some r) policy' attPolicy authBytes) w =
        (.ok res, w') ∧
      res.context = r.context ∧ res.chain = chain ∧
      (res.empty = true ↔ identity.certificate = []) ∧ res.cmwAttestation = cmw.getD [] ∧
      (res.attestation.isSome ↔ identity.certificate ≠ [] ∧
        ∃ e ∈ exts, e.type = cmwAttestationExtensionType) := by
  obtain rfl := hagree.eq
  obtain ⟨ctx, hbytes, _⟩ := (exec_createAuthenticator_ok ..).mp hcreate
  obtain ⟨_, hpermit, d, hd, _, hform⟩ := (createBytes_ok ..).mp hbytes
  have hderive : derive st' role (some r) = .ok d :=
    derive_ok.mpr ⟨hd.handshakeContext, hd.finishedKey, hd.request⟩
  obtain ⟨_, _, hctx, hoffered⟩ := requestParts_some hd.request
  rw [← hctx] at hunused hpresents ⊢
  cases hpresents with
  | empty hcert hkey =>
    cases hform with
    | inl h =>
      refine ⟨⟨d.request.context, [], [], none, true⟩, w.markUsed d.request.context,
        (exec_validateAuthenticator_ok ..).mpr ⟨d, hderive, .inl ⟨_,
          ⟨⟨h.isFinished, rfl, rfl, hunused⟩, rfl, rfl⟩⟩⟩, rfl, rfl, ?_, rfl, ?_⟩
      · simp [hcert]
      · simp [hcert]
    | inr h =>
      obtain ⟨priv, cert, cv, h⟩ := h
      exact absurd hcert h.certificate
  | @plain leaf issuers hchain hno =>
    cases hform with
    | inl h => exact absurd h.noCertificate hchain.certificate_ne
    | inr h =>
      obtain ⟨priv, cert, cv, h⟩ := h
      have hctx' : cert.context = d.request.context := by rw [h.cert_eq]
      have hchecks := h.checks policy' hchain hoffered hpermit
        ((extractCMW_eq_none exts).mpr hno) hopts hunused
      refine ⟨⟨cert.context, leaf::issuers, [], none, false⟩, w.afterFull cert (leaf::issuers), ?_,
        hctx', rfl, ?_, rfl, ?_⟩
      · exact (exec_validateAuthenticator_ok ..).mpr
          ⟨d, hderive, .inr (.inr (.inl ⟨cert, cv, _, _, _, hchecks, rfl, rfl⟩))⟩
      · simp [hchain.certificate_ne]
      · simpa using fun _ => hno
  | @attested leaf issuers cmw p hchain hwraps =>
    cases hform with
    | inl h => exact absurd h.noCertificate hchain.certificate_ne
    | inr h =>
      obtain ⟨priv, cert, cv, h⟩ := h
      have hctx' : cert.context = d.request.context := by rw [h.cert_eq]
      have hchecks := h.checks policy' hchain hoffered hpermit hwraps.extracted hopts
        hunused
      have hpayload := hwraps.checked hjson
      rw [← hctx'] at hpayload
      have hrun := (exec_validateAuthenticator_ok lib st' role (some r) policy' attPolicy authBytes
        w _ _).mpr ⟨d, hderive,
          .inr (.inr (.inr ⟨cert, cv, _, _, _, _, _, hchecks, hpayload, rfl, rfl⟩))⟩
      refine ⟨_, _, hrun, hctx', rfl, ?_, rfl, ?_⟩
      · simp [hchain.certificate_ne]
      · simpa [hchain.certificate_ne] using extractCMW_mem hwraps.extracted

end

def paddingProducer : Producer where
  rand n := .ok (List.replicate n 0x2A)
  signECDSA _ _ := .ok [0x01]
  signPSS _ _ := .error 1
  signEd25519 _ _ := []
  marshalJSON p :=
    if p = { attestedPayload.payload with evidence := p.evidence } then .ok p.evidence
    else .error 2

def sampleIdentity : Identity := ⟨[[0x30]], some (.ecdsa "P-256" [])⟩

def sampleLeaf : Certificate := ⟨[0x30], [0x30], .ecdsa [0x30]⟩

def sampleExtension : Extension := ⟨cmwAttestationExtensionType, [0x00, 0x02, 0xE1, 0xE2]⟩

theorem samplePresents : Presents paddingLibrary paddingProducer sampleState
    (some acceptingPolicy) sampleRequest.context sampleIdentity [sampleExtension] [sampleLeaf]
    (some [0xE1, 0xE2]) := by
  refine .attested (p := attestedPayload.payload) ⟨.cons rfl .nil, ?_⟩
    ⟨⟨[], sampleExtension, [], rfl, by decide +kernel, by simp⟩, by decide +kernel,
      ⟨⟨padTo 32 [0x07], padTo 32 [0x30], padTo 32 [0x30, 0x07]⟩, by decide +kernel, rfl⟩, ?_⟩
  · intro priv hpriv
    cases hpriv
    intro digest sig hsig
    cases hsig
    rfl
  · refine ⟨fun _ => ⟨fun _ _ => .ok (), padTo 64 [0x30, 0x2A], rfl, by decide +kernel, rfl⟩, ?_⟩
    intro hne
    exact absurd rfl hne

theorem sample_created_is_accepted :
    ∃ res w', exec (validateAuthenticator paddingLibrary sampleState .client (some sampleRequest)
        none (some acceptingPolicy) attestedBytes) noSession = (.ok res, w') ∧
      res.context = [0x2A] ∧ res.chain = [sampleLeaf] ∧
      (res.empty = true ↔ sampleIdentity.certificate = []) ∧ res.cmwAttestation = [0xE1, 0xE2] ∧
      (res.attestation.isSome ↔ sampleIdentity.certificate ≠ [] ∧
        ∃ e ∈ [sampleExtension], e.type = cmwAttestationExtensionType) :=
  created_is_accepted ⟨rfl, rfl, fun _ _ _ => rfl⟩
    (fun p raw h => by
      simp only [paddingProducer] at h
      split at h
      · rename_i hp
        cases h
        rw [hp]
        rfl
      · cases h)
    .client sampleRequest none none (some acceptingPolicy) sampleIdentity [sampleExtension]
    [sampleLeaf] (some [0xE1, 0xE2]) samplePresents noSession noSession noSession attestedBytes
    (by decide +kernel) rfl (fun _ h => by cases h)

end DistributedEnclave.Ea
