import DistributedEnclave.Ea.Soundness

/-! The encoding of the exported-authenticator messages as a whole: which values can be
encoded, that decoding undoes encoding, and that every message has one encoding only. -/
namespace DistributedEnclave.Ea
open DistributedEnclave.Octets DistributedEnclave.Outcome

def extensionsLength (exts : List Extension) : Nat := (exts.map fun e => 4+e.data.length).sum

def CertificateEntry.length (e : CertificateEntry) : Nat :=
  3+(e.certDER.length+(2+extensionsLength e.extensions))

def entriesLength (entries : List CertificateEntry) : Nat :=
  (entries.map CertificateEntry.length).sum

def ExtensionsOverflow (exts : List Extension) : Prop :=
  (∃ e ∈ exts, e.data.length > 0xFFFF) ∨ extensionsLength exts > 0xFFFF

def CertificateEntry.Overflows (e : CertificateEntry) : Prop :=
  e.certDER.length > 0xFFFFFF ∨ ExtensionsOverflow e.extensions

/-- A length of the message that does not fit its field: the context, something in an entry,
the list of entries or the body. -/
def CertificateMessage.Overflows (m : CertificateMessage) : Prop :=
  m.context.length > 255 ∨ (∃ e ∈ m.entries, e.Overflows) ∨ entriesLength m.entries > 0xFFFFFF ∨
    1+(m.context.length+(3+entriesLength m.entries)) > 0xFFFFFF

def CertificateVerifyMessage.Overflows (m : CertificateVerifyMessage) : Prop :=
  m.signature.length > 0xFFFF ∨ 4+m.signature.length > 0xFFFFFF

def FinishedMessage.Overflows (m : FinishedMessage) : Prop := m.verifyData.length > 0xFFFFFF

def AuthenticatorRequest.Overflows (r : AuthenticatorRequest) : Prop :=
  r.context.length > 255 ∨ ExtensionsOverflow r.extensions ∨
    1+(r.context.length+(2+extensionsLength r.extensions)) > 0xFFFFFF

theorem encodeExtensionList_length (exts : List Extension) :
    (encodeExtensionList exts).length = extensionsLength exts := by
  induction exts with
  | nil => rfl
  | cons e exts ih =>
    rw [encodeExtensionList_cons, List.length_append, encodeExtension_length, ih]
    rfl

theorem encodeEntries_length (entries : List CertificateEntry) :
    (encodeEntries entries).length = entriesLength entries := by
  induction entries with
  | nil => rfl
  | cons e entries ih =>
    have hentry : (encodeEntry e).length = e.length := by
      simp [encodeEntry, encodeExtensions, encodeExtensionList_length, CertificateEntry.length]
    change (encodeEntry e ++ encodeEntries entries).length = e.length+entriesLength entries
    rw [List.length_append, hentry, ih]

theorem extensionsOverflow_iff (exts : List Extension) :
    ExtensionsOverflow exts ↔ ¬ExtensionsFit exts := by
  constructor
  · intro h hfit
    cases h with
    | inl h =>
      obtain ⟨e, he, hbig⟩ := h
      exact absurd (hfit.data_le e he) (by omega)
    | inr h =>
      rw [ExtensionsFit, encodeExtensionList_length] at hfit
      omega
  · intro h
    rw [ExtensionsFit, encodeExtensionList_length] at h
    exact .inr (by omega)

theorem CertificateEntry.fits_iff (e : CertificateEntry) :
    e.Fits ↔ ¬(e.Overflows ∨ e.certDER = []) := by
  simp only [Fits, Overflows, extensionsOverflow_iff, not_or, not_not, not_lt, ne_eq]
  tauto

theorem CertificateMessage.fits_iff (m : CertificateMessage) :
    m.Fits ↔ ¬(m.Overflows ∨ ∃ e ∈ m.entries, e.certDER = []) := by
  have hbody : (encodeCertificateBody m).length =
      1+(m.context.length+(3+entriesLength m.entries)) := by
    simp [encodeCertificateBody, encodeEntries_length, Nat.add_comm 1]
  constructor
  · intro h hbad
    have hb := h.body
    rw [hbody] at hb
    have hctx := h.context
    rcases hbad with (hbad | ⟨e, he, hbad⟩ | hbad | hbad) | ⟨e, he, hbad⟩
    · omega
    · exact (e.fits_iff.mp (h.entries e he)) (.inl hbad)
    · omega
    · omega
    · exact (e.fits_iff.mp (h.entries e he)) (.inr hbad)
  · intro h
    simp only [Overflows, not_or, not_exists, not_and, not_lt] at h
    obtain ⟨⟨hctx, hentries, _, hb⟩, hne⟩ := h
    refine ⟨hctx, fun e he => e.fits_iff.mpr ?_, by omega⟩
    exact not_or.mpr ⟨hentries e he, hne e he⟩

theorem AuthenticatorRequest.fits_iff (r : AuthenticatorRequest) :
    r.Fits ↔ ¬(r.Overflows ∨ (r.type ≠ 13 ∧ r.type ≠ 17)) := by
  constructor
  · intro h hbad
    have hexts := h.extensions
    have hctx := h.context
    rcases hbad with (hbad | hbad | hbad) | hbad
    · omega
    · exact (extensionsOverflow_iff _).mp hbad hexts
    · rw [ExtensionsFit, encodeExtensionList_length] at hexts
      omega
    · exact h.type.elim hbad.1 hbad.2
  · intro h
    simp only [Overflows, extensionsOverflow_iff, not_or, not_and, not_not, not_lt] at h
    obtain ⟨⟨hctx, hexts, _⟩, htype⟩ := h
    refine ⟨?_, hctx, hexts⟩
    by_cases h13 : r.type = 13
    · exact .inl h13
    · exact .inr (htype h13)

/-- An encoder that succeeds exactly on `good` values fails exactly on the others. -/
theorem fails_iff {α : Type} {x : Except Error α} {good : Prop} {enc : α}
    (h : ∀ bs, x = .ok bs ↔ good ∧ bs = enc) : (∃ e, x = .error e) ↔ ¬good := by
  constructor
  · intro hfail hgood
    obtain ⟨e, he⟩ := hfail
    rw [(h enc).mpr ⟨hgood, rfl⟩] at he
    cases he
  · intro hbad
    cases hx : x with
    | error e => exact ⟨e, rfl⟩
    | ok bs => exact absurd ((h bs).mp hx).1 hbad

theorem marshalRequest_fails (r : AuthenticatorRequest) :
    (∃ e, marshalRequest r = .error e) ↔ r.Overflows ∨ (r.type ≠ 13 ∧ r.type ≠ 17) := by
  rw [fails_iff (marshalRequest_ok r), r.fits_iff, not_not]

theorem marshalCertificateMessage_fails (m : CertificateMessage) :
    (∃ e, marshalCertificateMessage m = .error e) ↔
      m.Overflows ∨ ∃ e ∈ m.entries, e.certDER = [] := by
  rw [fails_iff (marshalCertificateMessage_ok m), m.fits_iff, not_not]

theorem marshalCertificateVerifyMessage_fails (m : CertificateVerifyMessage) :
    (∃ e, marshalCertificateVerifyMessage m = .error e) ↔ m.Overflows := by
  rw [fails_iff (marshalCertificateVerifyMessage_ok m), CertificateVerifyMessage.Overflows]
  omega

theorem marshalFinishedMessage_fails (m : FinishedMessage) :
    (∃ e, marshalFinishedMessage m = .error e) ↔ m.Overflows ∨ m.verifyData = [] := by
  rw [fails_iff (marshalFinishedMessage_ok m), FinishedMessage.Fits, FinishedMessage.Overflows]
  simp only [not_and_or, not_not, not_le, ne_eq]
  exact or_comm

/-- Every message that can be encoded is decoded to itself, and an encoder fails exactly on
a length that does not fit, an empty certificate or MAC, or a wrong request type. -/
theorem decoding_undoes_encoding :
    (∀ r : AuthenticatorRequest,
      ((∃ e, marshalRequest r = .error e) ↔ r.Overflows ∨ (r.type ≠ 13 ∧ r.type ≠ 17)) ∧
      ∀ bs rest, marshalRequest r = .ok bs →
        unmarshalAuthenticatorRequest (bs ++ rest) = .ok (r, rest)) ∧
    (∀ m : CertificateMessage,
      ((∃ e, marshalCertificateMessage m = .error e) ↔
        m.Overflows ∨ ∃ e ∈ m.entries, e.certDER = []) ∧
      ∀ bs, marshalCertificateMessage m = .ok bs →
        unmarshalCertificateMessage bs = .ok (m, bs)) ∧
    (∀ m : CertificateVerifyMessage,
      ((∃ e, marshalCertificateVerifyMessage m = .error e) ↔ m.Overflows) ∧
      ∀ bs, marshalCertificateVerifyMessage m = .ok bs →
        unmarshalCertificateVerifyMessage bs = .ok (m, bs)) ∧
    (∀ m : FinishedMessage,
      ((∃ e, marshalFinishedMessage m = .error e) ↔ m.Overflows ∨ m.verifyData = []) ∧
      ∀ bs, marshalFinishedMessage m = .ok bs →
        unmarshalFinishedMessage bs = .ok (m, bs)) := by
  refine ⟨fun r => ⟨marshalRequest_fails r, ?_⟩, fun m => ⟨marshalCertificateMessage_fails m, ?_⟩,
    fun m => ⟨marshalCertificateVerifyMessage_fails m, ?_⟩,
    fun m => ⟨marshalFinishedMessage_fails m, ?_⟩⟩
  · intro bs rest h
    obtain ⟨hfit, rfl⟩ := (marshalRequest_ok r bs).mp h
    exact (unmarshalAuthenticatorRequest_ok _ r rest).mpr ⟨hfit, rfl⟩
  · intro bs h
    obtain ⟨hfit, rfl⟩ := (marshalCertificateMessage_ok m bs).mp h
    exact (unmarshalCertificateMessage_ok _ m _).mpr ⟨hfit, rfl, rfl⟩
  · intro bs h
    obtain ⟨hfit, rfl⟩ := (marshalCertificateVerifyMessage_ok m bs).mp h
    exact (unmarshalCertificateVerifyMessage_ok _ m _).mpr ⟨hfit, rfl, rfl⟩
  · intro bs h
    obtain ⟨hfit, rfl⟩ := (marshalFinishedMessage_ok m bs).mp h
    exact (unmarshalFinishedMessage_ok _ m _).mpr ⟨hfit, rfl, rfl⟩

theorem sampleRequest_decoded :
    unmarshalAuthenticatorRequest (encodeRequest sampleRequest ++ [0xAA]) =
      .ok (sampleRequest, [0xAA]) :=
  (decoding_undoes_encoding.1 sampleRequest).2 _ _ (by decide +kernel)

theorem marshal_of_unmarshalRequest {b rest : Bytes} {r : AuthenticatorRequest}
    (h : unmarshalAuthenticatorRequest b = .ok (r, rest)) :
    ∃ bs, marshalRequest r = .ok bs ∧ bs ++ rest = b := by
  obtain ⟨hfit, rfl⟩ := (unmarshalAuthenticatorRequest_ok b r rest).mp h
  exact ⟨_, (marshalRequest_ok r _).mpr ⟨hfit, rfl⟩, rfl⟩

theorem marshal_of_unmarshalCertificateMessage {b raw : Bytes} {m : CertificateMessage}
    (h : unmarshalCertificateMessage b = .ok (m, raw)) : marshalCertificateMessage m = .ok b := by
  obtain ⟨hfit, hb, _⟩ := (unmarshalCertificateMessage_ok b m raw).mp h
  exact (marshalCertificateMessage_ok m b).mpr ⟨hfit, hb⟩

theorem marshal_of_unmarshalCertificateVerifyMessage {b raw : Bytes}
    {m : CertificateVerifyMessage} (h : unmarshalCertificateVerifyMessage b = .ok (m, raw)) :
    marshalCertificateVerifyMessage m = .ok b := by
  obtain ⟨hfit, hb, _⟩ := (unmarshalCertificateVerifyMessage_ok b m raw).mp h
  exact (marshalCertificateVerifyMessage_ok m b).mpr ⟨hfit, hb⟩

theorem marshal_of_unmarshalFinishedMessage {b raw : Bytes} {m : FinishedMessage}
    (h : unmarshalFinishedMessage b = .ok (m, raw)) : marshalFinishedMessage m = .ok b := by
  obtain ⟨hfit, hb, _⟩ := (unmarshalFinishedMessage_ok b m raw).mp h
  exact (marshalFinishedMessage_ok m b).mpr ⟨hfit, hb⟩

/-- What is parsed from an encoded request is that request. -/
theorem unmarshal_marshalRequest {r r' : AuthenticatorRequest} {bs rest : Bytes}
    (h : marshalRequest r = .ok bs) (h' : unmarshalAuthenticatorRequest bs = .ok (r', rest)) :
    r' = r ∧ rest = [] := by
  obtain ⟨hfit, hbs⟩ := (marshalRequest_ok r bs).mp h
  have hr : unmarshalAuthenticatorRequest bs = .ok (r, []) :=
    (unmarshalAuthenticatorRequest_ok bs r []).mpr ⟨hfit, by rw [List.append_nil, hbs]⟩
  have heq := h'.symm.trans hr
  simp only [Except.ok.injEq, Prod.mk.injEq] at heq
  exact heq

/-- Every octet belongs to the Finished message or to the Certificate and CertificateVerify
messages that follow the handshake context and the request in the transcript. With at least
one certificate the Finished message carries the MAC over that transcript; without one nothing
is hashed. -/
def WithinTranscript (lib : Library) (d : Derived) (authBytes : Bytes) : Prop :=
  ∃ fin finBytes, marshalFinishedMessage fin = .ok finBytes ∧
    (authBytes = finBytes ∨
      ∃ cert cv certBytes cvBytes, marshalCertificateMessage cert = .ok certBytes ∧
        marshalCertificateVerifyMessage cv = .ok cvBytes ∧
        authBytes = certBytes ++ (cvBytes ++ finBytes) ∧
        (cert.entries ≠ [] → fin.verifyData = d.mac lib (certBytes ++ cvBytes)))

theorem IsFull.withinTranscript {lib : Library} {d : Derived} {b : Bytes}
    {cert : CertificateMessage} {cv : CertificateVerifyMessage} {fin : FinishedMessage}
    (h : IsFull b cert cv fin) (hmac : cert.entries ≠ [] →
      fin.verifyData = d.mac lib (encodeCertificate cert ++ encodeCertificateVerify cv)) :
    WithinTranscript lib d b :=
  ⟨fin, _, (marshalFinishedMessage_ok fin _).mpr ⟨h.finFits, rfl⟩, .inr ⟨cert, cv, _, _,
    (marshalCertificateMessage_ok cert _).mpr ⟨h.certFits, rfl⟩,
    (marshalCertificateVerifyMessage_ok cv _).mpr ⟨h.cvFits, rfl⟩, h.bytes, hmac⟩⟩

theorem accepted_withinTranscript {lib : Library} {st : ConnectionState} {role : Role}
    {req : Option AuthenticatorRequest} {policy : Option SpontaneousAuthenticatorPolicy}
    {attPolicy : Option VerificationPolicy} {authBytes : Bytes} {w w' : World}
    {res : ValidationResult}
    (h : exec (validateAuthenticator lib st role req policy attPolicy authBytes) w =
      (.ok res, w')) :
    ∃ d, derive st role req = .ok d ∧ WithinTranscript lib d authBytes := by
  obtain ⟨d, hd, h⟩ := (exec_validateAuthenticator_ok ..).mp h
  refine ⟨d, hd, ?_⟩
  cases h with
  | inl h =>
    obtain ⟨fin, h⟩ := h
    exact ⟨fin, _, (marshalFinishedMessage_ok fin _).mpr ⟨h.isFinished.finFits, rfl⟩,
      .inl h.isFinished.bytes⟩
  | inr h =>
    cases h with
    | inl h =>
      obtain ⟨cert, cv, fin, h⟩ := h
      exact h.isFull.withinTranscript fun hne => absurd h.noEntries hne
    | inr h =>
      cases h with
      | inl h =>
        obtain ⟨cert, cv, fin, chain, leaf, h⟩ := h
        exact h.isFull.withinTranscript fun _ => h.checked.mac
      | inr h =>
        obtain ⟨cert, cv, fin, chain, leaf, cmw, p, h⟩ := h
        exact h.isFull.withinTranscript fun _ => h.checked.mac

/-- Encoding what was decoded gives the decoded bytes back. So both ends of a request hash
the same bytes, and an accepted authenticator has no octet that escapes the transcript. -/
theorem encoding_is_canonical :
    (∀ b r rest, unmarshalAuthenticatorRequest b = .ok (r, rest) →
      ∃ bs, marshalRequest r = .ok bs ∧ bs ++ rest = b) ∧
    (∀ b m raw, unmarshalCertificateMessage b = .ok (m, raw) →
      marshalCertificateMessage m = .ok b) ∧
    (∀ b m raw, unmarshalCertificateVerifyMessage b = .ok (m, raw) →
      marshalCertificateVerifyMessage m = .ok b) ∧
    (∀ b m raw, unmarshalFinishedMessage b = .ok (m, raw) → marshalFinishedMessage m = .ok b) ∧
    (∀ r bs r' rest, marshalRequest r = .ok bs →
      unmarshalAuthenticatorRequest bs = .ok (r', rest) → rest = [] ∧
        marshalRequest r' = .ok bs ∧ requestParts (some r') = requestParts (some r)) ∧
    (∀ lib st role req policy attPolicy authBytes w res w',
      exec (validateAuthenticator lib st role req policy attPolicy authBytes) w = (.ok res, w') →
      ∃ d, derive st role req = .ok d ∧ WithinTranscript lib d authBytes) := by
  refine ⟨fun _ _ _ h => marshal_of_unmarshalRequest h,
    fun _ _ _ h => marshal_of_unmarshalCertificateMessage h,
    fun _ _ _ h => marshal_of_unmarshalCertificateVerifyMessage h,
    fun _ _ _ h => marshal_of_unmarshalFinishedMessage h, ?_,
    fun _ _ _ _ _ _ _ _ _ _ h => accepted_withinTranscript h⟩
  intro r bs r' rest h h'
  obtain ⟨rfl, hrest⟩ := unmarshal_marshalRequest h h'
  exact ⟨hrest, h, rfl⟩

theorem attestedBytes_withinTranscript :
    ∃ d, derive sampleState .client (some sampleRequest) = .ok d ∧
      WithinTranscript paddingLibrary d attestedBytes :=
  encoding_is_canonical.2.2.2.2.2 paddingLibrary sampleState .client (some sampleRequest) none
    (some acceptingPolicy) attestedBytes noSession
    ⟨[0x2A], [⟨[0x30], [0x30], .ecdsa [0x30]⟩], [0xE1, 0xE2], some attestedPayload, false⟩
    ⟨none, none, [⟨[0xE1, 0xE2], padTo 64 [0x30, 0x2A], true⟩], []⟩ (by decide +kernel)

end DistributedEnclave.Ea
