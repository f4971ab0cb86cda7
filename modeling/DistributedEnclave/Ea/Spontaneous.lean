import DistributedEnclave.Ea.RoundTrip

/-! Authenticators without a request: the rules their creator follows and what the validator
checks of them. -/
namespace DistributedEnclave.Ea
open DistributedEnclave.Octets DistributedEnclave.Outcome

/-- The rules for a spontaneous authenticator: it comes from the server, it presents a
certificate, and the policy permits its signature scheme and every extension in it. -/
structure FollowsRules (role : Role) (policy : Option SpontaneousAuthenticatorPolicy)
    (cert : CertificateMessage) (cv : CertificateVerifyMessage) : Prop where
  role : role = .server
  certificate : cert.entries ≠ []
  scheme : policyPermitsSignatureScheme policy cv.algorithm = true
  extensions : ∀ entry ∈ cert.entries, ∀ e ∈ entry.extensions, Permits none policy e.type

def SpontaneousRules (role : Role) (policy : Option SpontaneousAuthenticatorPolicy)
    (authBytes : Bytes) : Prop :=
  ∃ cert cv fin, IsFull authBytes cert cv fin ∧ FollowsRules role policy cert cv

section
variable {lib : Library} {sg : Producer} {st : ConnectionState} {role : Role}
  {policy : Option SpontaneousAuthenticatorPolicy}

/-- The creator follows the rules. -/
theorem createBytes_follows_rules {identity : Identity} {exts : List Extension}
    {ctx authBytes : Bytes}
    (h : createBytes lib sg st role none policy identity exts = .ok (ctx, authBytes)) :
    SpontaneousRules role policy authBytes := by
  obtain ⟨hrole, hpermit, d, hd, _, hform⟩ := (createBytes_ok ..).mp h
  cases hform with
  | inl h => exact absurd h.requested (by simp)
  | inr h =>
    obtain ⟨priv, cert, cv, h⟩ := h
    have hcert := h.cert_eq
    refine ⟨cert, cv, _, h.isFull, hrole rfl, ?_, h.permitted rfl, ?_⟩
    · subst hcert
      cases hders : identity.certificate with
      | nil => exact absurd hders h.certificate
      | cons der ders => simp [certificateEntries]
    · subst hcert
      intro entry hentry e he
      cases hders : identity.certificate with
      | nil => exact absurd hders h.certificate
      | cons der ders =>
        simp only [hders, certificateEntries] at hentry
        cases List.mem_cons.mp hentry with
        | inl hleaf =>
          subst hleaf
          exact hpermit e he
        | inr hother =>
          obtain ⟨der', _, rfl⟩ := List.mem_map.mp hother
          cases he

variable (lib st role policy)

def PassesChecks (d : Derived) (attPolicy : Option VerificationPolicy) (authBytes : Bytes)
    (w : World) (cert : CertificateMessage) (cv : CertificateVerifyMessage)
    (fin : FinishedMessage) : Prop :=
  ∃ extracted chain leaf,
    ChecksEntries lib d none policy authBytes w cert cv fin extracted chain leaf ∧
    ∀ cmw, extracted = some cmw → ∃ p, PayloadChecked lib st attPolicy cert.context leaf cmw p

/-- Input that no check of the validator stops: a Certificate message without entries, or an
otherwise flawless authenticator of a role other than the server's or with a signature scheme
that the policy excludes. -/
def Unstopped (attPolicy : Option VerificationPolicy) (authBytes : Bytes) (w : World) : Prop :=
  ∃ d cert cv fin, derive st role none = .ok d ∧
    (ChecksZeroEntry d none authBytes w cert cv fin ∨
      PassesChecks lib st policy d attPolicy authBytes w cert cv fin ∧
        (role ≠ .server ∨ policyPermitsSignatureScheme policy cv.algorithm = false))

variable {lib st role policy}

theorem PassesChecks.accepted {d : Derived} {attPolicy : Option VerificationPolicy}
    {authBytes : Bytes} {w : World} {cert : CertificateMessage} {cv : CertificateVerifyMessage}
    {fin : FinishedMessage} (hd : derive st role none = .ok d)
    (h : PassesChecks lib st policy d attPolicy authBytes w cert cv fin) :
    ∃ res w', exec (validateAuthenticator lib st role none policy attPolicy authBytes) w =
      (.ok res, w') := by
  obtain ⟨extracted, chain, leaf, hchecks, hpayload⟩ := h
  cases extracted with
  | none =>
    exact ⟨_, _, (exec_validateAuthenticator_ok ..).mpr
      ⟨d, hd, .inr (.inr (.inl ⟨cert, cv, fin, chain, leaf, hchecks, rfl, rfl⟩))⟩⟩
  | some cmw =>
    obtain ⟨p, hp⟩ := hpayload cmw rfl
    exact ⟨_, _, (exec_validateAuthenticator_ok ..).mpr
      ⟨d, hd, .inr (.inr (.inr ⟨cert, cv, fin, chain, leaf, cmw, p, hchecks, hp, rfl, rfl⟩))⟩⟩

theorem PassesChecks.extensions {d : Derived} {attPolicy : Option VerificationPolicy}
    {authBytes : Bytes} {w : World} {cert : CertificateMessage} {cv : CertificateVerifyMessage}
    {fin : FinishedMessage} (h : PassesChecks lib st policy d attPolicy authBytes w cert cv fin) :
    IsFull authBytes cert cv fin ∧ cert.entries ≠ [] ∧
      ∀ entry ∈ cert.entries, ∀ e ∈ entry.extensions, Permits none policy e.type := by
  obtain ⟨_, _, _, hchecks, _⟩ := h
  obtain ⟨leafEntry, others, hentries, hchecked⟩ := hchecks.entries
  refine ⟨hchecks.isFull, by simp [hentries], ?_⟩
  rw [hentries]
  exact hchecked.permitted

/-- Without a request the validator accepts two kinds of input. -/
theorem spontaneous_accepted {attPolicy : Option VerificationPolicy} {authBytes : Bytes}
    {w w' : World} {res : ValidationResult}
    (h : exec (validateAuthenticator lib st role none policy attPolicy authBytes) w =
      (.ok res, w')) :
    ∃ d cert cv fin, derive st role none = .ok d ∧
      (ChecksZeroEntry d none authBytes w cert cv fin ∨
        PassesChecks lib st policy d attPolicy authBytes w cert cv fin) := by
  obtain ⟨d, hd, h⟩ := (exec_validateAuthenticator_ok ..).mp h
  cases h with
  | inl h =>
    obtain ⟨fin, h⟩ := h
    exact absurd h.requested (by simp)
  | inr h =>
    cases h with
    | inl h =>
      obtain ⟨cert, cv, fin, h⟩ := h
      exact ⟨d, cert, cv, fin, hd, .inl h.toChecksZeroEntry⟩
    | inr h =>
      cases h with
      | inl h =>
        obtain ⟨cert, cv, fin, chain, leaf, h⟩ := h
        exact ⟨d, cert, cv, fin, hd, .inr ⟨none, chain, leaf, h.toChecksEntries,
          fun _ hnone => by cases hnone⟩⟩
      | inr h =>
        obtain ⟨cert, cv, fin, chain, leaf, cmw, p, h⟩ := h
        refine ⟨d, cert, cv, fin, hd, .inr ⟨some cmw, chain, leaf, h.toChecksEntries, ?_⟩⟩
        intro cmw' hsome
        cases hsome
        exact ⟨p, h.payload⟩

theorem Unstopped.accepted {attPolicy : Option VerificationPolicy} {authBytes : Bytes} {w : World}
    (h : Unstopped lib st role policy attPolicy authBytes w) :
    (∃ res w', exec (validateAuthenticator lib st role none policy attPolicy authBytes) w =
      (.ok res, w')) ∧ ¬SpontaneousRules role policy authBytes := by
  obtain ⟨d, cert, cv, fin, hd, h⟩ := h
  cases h with
  | inl h =>
    refine ⟨⟨_, _, (exec_validateAuthenticator_ok ..).mpr
      ⟨d, hd, .inr (.inl ⟨cert, cv, fin, h, rfl, rfl⟩)⟩⟩, ?_⟩
    intro hrules
    obtain ⟨cert', cv', fin', hfull, hfollows⟩ := hrules
    obtain ⟨rfl, _, _⟩ := hfull.unique h.isFull
    exact hfollows.certificate h.noEntries
  | inr h =>
    obtain ⟨hpass, hbreak⟩ := h
    refine ⟨hpass.accepted hd, ?_⟩
    intro hrules
    obtain ⟨cert', cv', fin', hfull, hfollows⟩ := hrules
    obtain ⟨_, rfl, _⟩ := hfull.unique hpass.extensions.1
    cases hbreak with
    | inl hrole => exact hrole hfollows.role
    | inr hscheme =>
      rw [hfollows.scheme] at hscheme
      cases hscheme

/-- The validator keeps to the rules on exactly those inputs that its checks do stop; the creator
always does. -/
theorem spontaneous_rules_enforced_iff (lib : Library) (st : ConnectionState) (role : Role)
    (policy : Option SpontaneousAuthenticatorPolicy) (attPolicy : Option VerificationPolicy)
    (authBytes : Bytes) (w : World) :
    ((∀ res w', exec (validateAuthenticator lib st role none policy attPolicy authBytes) w =
        (.ok res, w') → SpontaneousRules role policy authBytes) ↔
      ¬Unstopped lib st role policy attPolicy authBytes w) ∧
    ∀ sg identity exts ctx created,
      createBytes lib sg st role none policy identity exts = .ok (ctx, created) →
        SpontaneousRules role policy created := by
  refine ⟨?_, fun _ _ _ _ _ h => createBytes_follows_rules h⟩
  constructor
  · intro hall hbad
    obtain ⟨⟨res, w', hrun⟩, hno⟩ := hbad.accepted
    exact hno (hall res w' hrun)
  · intro hstop res w' hrun
    obtain ⟨d, cert, cv, fin, hd, h⟩ := spontaneous_accepted hrun
    cases h with
    | inl h => exact absurd ⟨d, cert, cv, fin, hd, .inl h⟩ hstop
    | inr h =>
      obtain ⟨hfull, hne, hexts⟩ := h.extensions
      refine ⟨cert, cv, fin, hfull, ?_, hne, ?_, hexts⟩
      · by_contra hrole
        exact hstop ⟨d, cert, cv, fin, hd, .inr ⟨h, .inl hrole⟩⟩
      · by_contra hscheme
        exact hstop ⟨d, cert, cv, fin, hd, .inr ⟨h, .inr (by simpa using hscheme)⟩⟩

end

def ed25519Policy : SpontaneousAuthenticatorPolicy where
  allowedSignatureSchemes := [ed25519Scheme]
  allowedCertificateExtensions := [cmwAttestationExtensionType]

/-- Under a policy for Ed25519 the creator refuses to sign with an ECDSA key, and the
validator accepts what is signed with one. -/
theorem ed25519Policy_ignored :
    (exec (validateAuthenticator paddingLibrary sampleState .server none (some ed25519Policy)
      (some acceptingPolicy) attestedBytes) noSession).1 =
      .ok ⟨[0x2A], [sampleLeaf], [0xE1, 0xE2], some attestedPayload, false⟩ ∧
    createBytes paddingLibrary paddingProducer sampleState .server none (some ed25519Policy)
      sampleIdentity [sampleExtension] = .error .errUnsupportedSignatureScheme ∧
    ¬SpontaneousRules .server (some ed25519Policy) attestedBytes := by
  refine ⟨by decide +kernel, by decide +kernel, ?_⟩
  intro hrules
  obtain ⟨cert, cv, fin, hfull, hfollows⟩ := hrules
  have hcv : IsFull attestedBytes
      ⟨[0x2A], [⟨[0x30], [sampleExtension]⟩]⟩ ⟨0x0403, [0x01]⟩ ⟨padTo 32 [0x09]⟩ :=
    splitsInto_iff.mp ⟨encodeCertificate ⟨[0x2A], [⟨[0x30], [sampleExtension]⟩]⟩,
      encodeCertificateVerify ⟨0x0403, [0x01]⟩, encodeFinished ⟨padTo 32 [0x09]⟩,
      by decide +kernel, by decide +kernel, by decide +kernel, by decide +kernel⟩
  obtain ⟨_, rfl, _⟩ := hfull.unique hcv
  exact absurd hfollows.scheme (by decide)

end DistributedEnclave.Ea
