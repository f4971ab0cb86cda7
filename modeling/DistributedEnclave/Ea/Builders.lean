import DistributedEnclave.Ea.Policy

/-! What the extension builders hand out, carried in a message and read back. The builders
bound the length of their inner vector, the message bounds the block around it, and the two
bounds are not the same. -/
namespace DistributedEnclave.Ea
open DistributedEnclave.Octets DistributedEnclave.Outcome

def requestTypes : List UInt8 :=
  [handshakeTypeCertificateRequest, handshakeTypeClientCertificateRequest]

/-- A request that holds just the extension can be sent under any context, and the receiver
reads the schemes from it. -/
def RequestCarries (e : Extension)
    (read : AuthenticatorRequest → Except Error (Option (List UInt16))) (schemes : List UInt16) :
    Prop :=
  ∀ typ ∈ requestTypes, ∀ ctx : Bytes, ctx.length ≤ 255 →
    ∃ bs r, marshalRequest ⟨typ, ctx, [e]⟩ = .ok bs ∧
      unmarshalAuthenticatorRequest bs = .ok (r, []) ∧ read r = .ok (some schemes)

/-- A Certificate message within its 24-bit length, whose one entry holds just the extension,
can be sent, and the receiver reads the payload from the entry. -/
def CertificateCarries (e : Extension) (cmw : Bytes) : Prop :=
  ∀ ctx certDER : Bytes, ctx.length ≤ 255 → certDER ≠ [] →
    (encodeCertificateBody ⟨ctx, [⟨certDER, [e]⟩]⟩).length ≤ 0xFFFFFF →
    ∃ bs m raw entry, marshalCertificateMessage ⟨ctx, [⟨certDER, [e]⟩]⟩ = .ok bs ∧
      unmarshalCertificateMessage bs = .ok (m, raw) ∧ m.entries = [entry] ∧
      extractCMWAttestationFromExtensions entry.extensions = .ok (some cmw)

theorem extensionsFit_singleton (e : Extension) : ExtensionsFit [e] ↔ 4+e.data.length ≤ 0xFFFF := by
  rw [ExtensionsFit, encodeExtensionList, List.flatMap_singleton, encodeExtension_length]

theorem marshalSignatureSchemesExtension_length {typ : UInt16} {schemes : List UInt16}
    {e : Extension} (h : marshalSignatureSchemesExtension typ schemes = .ok e) :
    e.data.length = 2+2*schemes.length := by
  simp only [marshalSignatureSchemesExtension, guard_eq_ok] at h
  obtain ⟨_, _, h⟩ := h
  cases h
  have hput : schemes.flatMap putUint16 = schemes.flatMap encodeScheme :=
    congrArg (schemes.flatMap ·) (funext putUint16_eq)
  rw [hput, List.length_append, flatMap_encodeScheme_length, putUint16_eq, beEncode_length]

theorem exists_schemesExtension (typ : UInt16) (schemes : List UInt16) (hpos : schemes.length ≠ 0)
    (hle : schemes.length ≤ 0x7FFF) :
    ∃ e, marshalSignatureSchemesExtension typ schemes = .ok e := by
  rw [marshalSignatureSchemesExtension, if_neg hpos, if_neg (by omega)]
  exact ⟨_, rfl⟩

theorem exists_cmwExtension (cmw : Bytes) (hpos : cmw.length ≠ 0) (hle : cmw.length ≤ 0xFFFF) :
    ∃ e, cmwAttestationDataExtension cmw = .ok e := by
  rw [cmwAttestationDataExtension, if_neg (by omega)]
  exact ⟨_, rfl⟩

theorem cmwAttestationDataExtension_length {cmw : Bytes} {e : Extension}
    (h : cmwAttestationDataExtension cmw = .ok e) : e.data.length = 2+cmw.length := by
  simp only [cmwAttestationDataExtension, guard_eq_ok] at h
  obtain ⟨_, h⟩ := h
  cases h
  rw [List.length_append, putUint16_eq, beEncode_length]

/-- Two octets for the vector's length and four for the extension's header leave room for
32764 schemes. -/
theorem requestCarries_iff {typ : UInt16} {schemes : List UInt16} {e : Extension}
    (h : marshalSignatureSchemesExtension typ schemes = .ok e) :
    RequestCarries e (fun r => parseSignatureSchemesExtension typ r.extensions) schemes ↔
      schemes.length ≤ 32764 := by
  have hlen := marshalSignatureSchemesExtension_length h
  have hfit := extensionsFit_singleton e
  constructor
  · intro hcarries
    obtain ⟨bs, _, hbs, _⟩ := hcarries handshakeTypeCertificateRequest (by decide) [] (by decide)
    have hexts := hfit.mp ((marshalRequest_ok _ bs).mp hbs).1.extensions
    omega
  · intro hle typ' htyp ctx hctx
    have hfits : (⟨typ', ctx, [e]⟩ : AuthenticatorRequest).Fits := by
      refine ⟨?_, hctx, hfit.mpr (by omega)⟩
      simpa [requestTypes] using htyp
    refine ⟨_, ⟨typ', ctx, [e]⟩, (marshalRequest_ok _ _).mpr ⟨hfits, rfl⟩, ?_, ?_⟩
    · rw [unmarshalAuthenticatorRequest_ok, List.append_nil]
      exact ⟨hfits, rfl⟩
    · exact parseSignatureSchemesExtension_marshal h [] [] (by simp)

theorem certificateCarries_iff {cmw : Bytes} {e : Extension}
    (h : cmwAttestationDataExtension cmw = .ok e) :
    CertificateCarries e cmw ↔ cmw.length ≤ 65529 := by
  have hlen := cmwAttestationDataExtension_length h
  have hfit := extensionsFit_singleton e
  constructor
  · intro hcarries
    obtain ⟨bs, _, _, _, hbs, _⟩ := hcarries [] [0x30] (by decide) (by decide) (by
      simp only [cmwAttestationDataExtension, guard_eq_ok] at h
      simp [encodeCertificateBody, encodeEntries, encodeEntry, encodeExtensions,
        encodeExtensionList, encodeExtension_length]
      omega)
    have hentry := ((marshalCertificateMessage_ok _ bs).mp hbs).1.entries ⟨[0x30], [e]⟩ (by simp)
    have hexts := hfit.mp hentry.2.2
    omega
  · intro hle ctx certDER hctx hne hbody
    have hfits : (⟨ctx, [⟨certDER, [e]⟩]⟩ : CertificateMessage).Fits := by
      refine ⟨hctx, ?_, hbody⟩
      intro entry hentry
      obtain rfl := List.mem_singleton.mp hentry
      refine ⟨hne, ?_, hfit.mpr (by omega)⟩
      simp [encodeCertificateBody, encodeEntries, encodeEntry] at hbody
      simp only
      omega
    exact ⟨_, _, _, _, (marshalCertificateMessage_ok _ _).mpr ⟨hfits, rfl⟩,
      (unmarshalCertificateMessage_ok _ _ _).mpr ⟨hfits, rfl, rfl⟩, rfl, extractCMW_marshal h []⟩

/-- An extension of a builder is carried and read back exactly when the list has at most
32764 schemes, the payload at most 65529 octets. -/
theorem builders_carried (schemes : List UInt16) (cmw : Bytes) :
    (∀ e, signatureAlgorithmsExtension schemes = .ok e →
      (RequestCarries e AuthenticatorRequest.signatureSchemes schemes ↔
        schemes.length ≤ 32764)) ∧
    (∀ e, signatureAlgorithmsCertExtension schemes = .ok e →
      (RequestCarries e AuthenticatorRequest.signatureSchemesCert schemes ↔
        schemes.length ≤ 32764)) ∧
    ∀ e, cmwAttestationDataExtension cmw = .ok e →
      (CertificateCarries e cmw ↔ cmw.length ≤ 65529) :=
  ⟨fun _ h => requestCarries_iff h, fun _ h => requestCarries_iff h,
    fun _ h => certificateCarries_iff h⟩

theorem twoSchemes_carried :
    RequestCarries ⟨signatureAlgorithmsExtensionType, [0x00, 0x04, 0x04, 0x03, 0x08, 0x07]⟩
        AuthenticatorRequest.signatureSchemes [0x0403, 0x0807] ∧
      CertificateCarries ⟨cmwAttestationExtensionType, [0x00, 0x01, 0x2A]⟩ [0x2A] := by
  obtain ⟨hschemes, _, hcmw⟩ := builders_carried [0x0403, 0x0807] [0x2A]
  exact ⟨(hschemes _ (by decide +kernel)).mpr (by decide),
    (hcmw _ (by decide +kernel)).mpr (by decide)⟩

/-- The longest list and the longest payload that the builders accept fit no message. -/
theorem longest_not_carried :
    (∃ e, signatureAlgorithmsExtension (List.replicate 0x7FFF 0x0403) = .ok e ∧
      ¬RequestCarries e AuthenticatorRequest.signatureSchemes (List.replicate 0x7FFF 0x0403)) ∧
    (∃ e, signatureAlgorithmsCertExtension (List.replicate 0x7FFF 0x0403) = .ok e ∧
      ¬RequestCarries e AuthenticatorRequest.signatureSchemesCert
        (List.replicate 0x7FFF 0x0403)) ∧
    ∃ e, cmwAttestationDataExtension (List.replicate 0xFFFF 0x2A) = .ok e ∧
      ¬CertificateCarries e (List.replicate 0xFFFF 0x2A) := by
  have hschemes : ∀ typ, ∃ e, marshalSignatureSchemesExtension typ
      (List.replicate 0x7FFF 0x0403) = .ok e ∧ ¬RequestCarries e
        (fun r => parseSignatureSchemesExtension typ r.extensions)
        (List.replicate 0x7FFF 0x0403) := by
    intro typ
    obtain ⟨e, he⟩ := exists_schemesExtension typ (List.replicate 0x7FFF 0x0403)
      (by rw [List.length_replicate]; decide) (by rw [List.length_replicate])
    refine ⟨e, he, fun hcarries => ?_⟩
    have hle := (requestCarries_iff he).mp hcarries
    rw [List.length_replicate] at hle
    omega
  refine ⟨hschemes _, hschemes _, ?_⟩
  obtain ⟨e, he⟩ := exists_cmwExtension (List.replicate 0xFFFF 0x2A)
    (by rw [List.length_replicate]; decide) (by rw [List.length_replicate])
  refine ⟨e, he, fun hcarries => ?_⟩
  have hle := (certificateCarries_iff he).mp hcarries
  rw [List.length_replicate] at hle
  omega

end DistributedEnclave.Ea
