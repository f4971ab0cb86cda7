import DistributedEnclave.Ea.Builders
import DistributedEnclave.Ea.Creation

/-! What is hashed under a signature or a MAC. The chunks are written one after the other
and absent ones are skipped, so a transcript is told apart by its headers alone. -/
namespace DistributedEnclave.Ea
open DistributedEnclave.Octets DistributedEnclave.Outcome

/-- The bytes that `hashConcat` writes to the hash. -/
def hashInput (chunks : List Bytes) : Bytes := (chunks.filter (·.length ≠ 0)).flatten

theorem hashConcat_hashInput (lib : Library) (h : Hash) (chunks : List Bytes) :
    hashConcat lib h chunks = lib.sum h (hashInput chunks) := rfl

theorem hashInput_cons (c : Bytes) (chunks : List Bytes) :
    hashInput (c::chunks) = c ++ hashInput chunks := by
  cases c with
  | nil => rfl
  | cons x c => simp [hashInput]

@[simp] theorem hashInput_nil : hashInput [] = [] := rfl

def IsMarshaled (types : List UInt8) (b : Bytes) : Prop :=
  ∃ hm, marshalHandshakeMessage hm = .ok b ∧ hm.type ∈ types

/-- A marshaled message in front of a byte string is told from what follows it. -/
theorem IsMarshaled.append_inj {types types' : List UInt8} {b b' t t' : Bytes}
    (h : IsMarshaled types b) (h' : IsMarshaled types' b') (heq : b ++ t = b' ++ t') :
    b = b' ∧ t = t' := by
  obtain ⟨hm, hb, _⟩ := h
  obtain ⟨hm', hb', _⟩ := h'
  obtain ⟨hle, rfl⟩ := (marshalHandshakeMessage_ok hm b).mp hb
  obtain ⟨hle', rfl⟩ := (marshalHandshakeMessage_ok hm' b').mp hb'
  have hparse := unmarshal_encodeHandshake hle t
  rw [heq, unmarshal_encodeHandshake hle' t', Except.ok.injEq, Prod.mk.injEq] at hparse
  obtain ⟨rfl, rfl⟩ := hparse
  exact ⟨rfl, rfl⟩

theorem IsMarshaled.head {types : List UInt8} {b : Bytes} (h : IsMarshaled types b) :
    ∃ typ s, typ ∈ types ∧ b = typ::s := by
  obtain ⟨hm, hb, htype⟩ := h
  obtain ⟨_, rfl⟩ := (marshalHandshakeMessage_ok hm b).mp hb
  exact ⟨hm.type, _, htype, rfl⟩

theorem IsMarshaled.type_mem {types types' : List UInt8} {b b' t t' : Bytes}
    (h : IsMarshaled types b) (h' : IsMarshaled types' b') (heq : b ++ t = b' ++ t') :
    ∃ typ, typ ∈ types ∧ typ ∈ types' := by
  obtain ⟨typ, s, htyp, rfl⟩ := h.head
  obtain ⟨typ', s', htyp', rfl⟩ := h'.head
  simp only [List.cons_append, List.cons.injEq] at heq
  exact ⟨typ, htyp, heq.1 ▸ htyp'⟩

@[ext] structure Transcript where
  request : Option Bytes
  certificate : Bytes
  certificateVerify : Option Bytes
  request_marshaled : ∀ b ∈ request, IsMarshaled requestTypes b
  certificate_marshaled : IsMarshaled [handshakeTypeCertificate] certificate
  certificateVerify_marshaled :
    ∀ b ∈ certificateVerify, IsMarshaled [handshakeTypeCertificateVerify] b

/-- The arguments of `hashConcat`. An absent request is an empty chunk, an absent
CertificateVerify message is no argument at all. -/
def Transcript.chunks (t : Transcript) (hsCtx : Bytes) : List Bytes :=
  [hsCtx, t.request.getD [], t.certificate] ++ t.certificateVerify.toList

def Transcript.hash (t : Transcript) (lib : Library) (h : Hash) (hsCtx : Bytes) : Bytes :=
  hashConcat lib h (t.chunks hsCtx)

theorem Transcript.hashInput_chunks (t : Transcript) (hsCtx : Bytes) :
    hashInput (t.chunks hsCtx) =
      hsCtx ++ (t.request.getD [] ++ (t.certificate ++ t.certificateVerify.getD [])) := by
  cases h : t.certificateVerify <;> simp [chunks, hashInput_cons, h]

theorem Transcript.request_inj {t t' : Transcript} {s s' : Bytes}
    (heq : t.request.getD [] ++ (t.certificate ++ s) =
      t'.request.getD [] ++ (t'.certificate ++ s')) :
    t.request = t'.request ∧ t.certificate ++ s = t'.certificate ++ s' := by
  -- a request and a Certificate message never start with the same type octet
  have hdisjoint : ¬∃ typ, typ ∈ requestTypes ∧ typ ∈ [handshakeTypeCertificate] := by
    intro h
    obtain ⟨typ, htyp, htyp'⟩ := h
    obtain rfl := List.mem_singleton.mp htyp'
    exact absurd htyp (by decide)
  cases hr : t.request with
  | none =>
    cases hr' : t'.request with
    | none =>
      rw [hr, hr'] at heq
      exact ⟨rfl, heq⟩
    | some b' =>
      rw [hr, hr'] at heq
      exact absurd ((t'.request_marshaled b' hr').type_mem t.certificate_marshaled heq.symm)
        hdisjoint
  | some b =>
    have hb := t.request_marshaled b hr
    cases hr' : t'.request with
    | none =>
      rw [hr, hr'] at heq
      exact absurd (hb.type_mem t'.certificate_marshaled heq) hdisjoint
    | some b' =>
      rw [hr, hr'] at heq
      obtain ⟨hbb, hrest⟩ := hb.append_inj (t'.request_marshaled b' hr') heq
      exact ⟨by rw [show b = b' from hbb], hrest⟩

theorem Transcript.certificateVerify_inj {t t' : Transcript}
    (heq : t.certificateVerify.getD [] = t'.certificateVerify.getD []) :
    t.certificateVerify = t'.certificateVerify := by
  cases hv : t.certificateVerify with
  | none =>
    cases hv' : t'.certificateVerify with
    | none => rfl
    | some b' =>
      obtain ⟨_, _, _, hb'⟩ := (t'.certificateVerify_marshaled b' hv').head
      rw [hv, hv', hb'] at heq
      cases heq
  | some b =>
    cases hv' : t'.certificateVerify with
    | none =>
      obtain ⟨_, _, _, hb⟩ := (t.certificateVerify_marshaled b hv).head
      rw [hv, hv', hb] at heq
      cases heq
    | some b' =>
      rw [hv, hv'] at heq
      exact congrArg some heq

theorem Transcript.hashInput_inj {t t' : Transcript} {hsCtx hsCtx' : Bytes}
    (hlen : hsCtx.length = hsCtx'.length)
    (heq : hashInput (t.chunks hsCtx) = hashInput (t'.chunks hsCtx')) :
    hsCtx = hsCtx' ∧ t = t' := by
  rw [hashInput_chunks, hashInput_chunks] at heq
  obtain ⟨hctx, heq⟩ := List.append_inj heq hlen
  obtain ⟨hrequest, heq⟩ := request_inj heq
  obtain ⟨hcert, heq⟩ := t.certificate_marshaled.append_inj t'.certificate_marshaled heq
  exact ⟨hctx, Transcript.ext hrequest hcert (certificateVerify_inj heq)⟩

def IsCollision (f : Bytes → Bytes) (x y : Bytes) : Prop := x ≠ y ∧ f x = f y

theorem Transcript.hash_inj {t t' : Transcript} {hsCtx hsCtx' : Bytes}
    (hlen : hsCtx.length = hsCtx'.length) {lib : Library} {h : Hash}
    (heq : t.hash lib h hsCtx = t'.hash lib h hsCtx') :
    (hsCtx = hsCtx' ∧ t = t') ∨
      IsCollision (lib.sum h) (hashInput (t.chunks hsCtx)) (hashInput (t'.chunks hsCtx')) := by
  by_cases hin : hashInput (t.chunks hsCtx) = hashInput (t'.chunks hsCtx')
  · exact .inl (hashInput_inj hlen hin)
  · exact .inr ⟨hin, heq⟩

theorem buildCertVerifyInput_inj {th th' : Bytes}
    (h : buildCertVerifyInput th = buildCertVerifyInput th') : th = th' :=
  List.append_cancel_left h

theorem encodeRequest_marshaled {r : AuthenticatorRequest} (h : r.Fits) :
    IsMarshaled requestTypes (encodeRequest r) := by
  refine ⟨_, (marshalHandshakeMessage_ok _ _).mpr ⟨h.body, rfl⟩, ?_⟩
  rcases h.type with htype | htype <;> simp [htype, requestTypes]

theorem encodeCertificate_marshaled {m : CertificateMessage} (h : m.Fits) :
    IsMarshaled [handshakeTypeCertificate] (encodeCertificate m) :=
  ⟨_, (marshalHandshakeMessage_ok _ _).mpr ⟨h.body, rfl⟩, List.mem_singleton_self _⟩

theorem encodeCertificateVerify_marshaled {m : CertificateVerifyMessage}
    (h : m.signature.length ≤ 0xFFFF) :
    IsMarshaled [handshakeTypeCertificateVerify] (encodeCertificateVerify m) :=
  ⟨_, (marshalHandshakeMessage_ok _ _).mpr ⟨encodeCertificateVerifyBody_le h, rfl⟩,
    List.mem_singleton_self _⟩

def authenticatorTranscript (req : Option AuthenticatorRequest) (hreq : ∀ r ∈ req, r.Fits)
    (cert : CertificateMessage) (hcert : cert.Fits) (cv : Option CertificateVerifyMessage)
    (hcv : ∀ m ∈ cv, m.signature.length ≤ 0xFFFF) : Transcript where
  request := req.map encodeRequest
  certificate := encodeCertificate cert
  certificateVerify := cv.map encodeCertificateVerify
  request_marshaled b hb := by
    obtain ⟨r, hr, rfl⟩ := Option.map_eq_some_iff.mp hb
    exact encodeRequest_marshaled (hreq r hr)
  certificate_marshaled := encodeCertificate_marshaled hcert
  certificateVerify_marshaled b hb := by
    obtain ⟨m, hm, rfl⟩ := Option.map_eq_some_iff.mp hb
    exact encodeCertificateVerify_marshaled (hcv m hm)

theorem requestParts_bytes {req : Option AuthenticatorRequest} {parts : RequestParts}
    (h : requestParts req = .ok parts) :
    (∀ r ∈ req, r.Fits) ∧ parts.bytes = (req.map encodeRequest).getD [] := by
  cases req with
  | none =>
    cases h
    exact ⟨by simp, rfl⟩
  | some r =>
    obtain ⟨hfit, hbytes, _⟩ := requestParts_some h
    refine ⟨?_, hbytes⟩
    intro m hm
    cases hm
    exact hfit

section
variable (lib : Library)

theorem authenticatorTranscript_hash {d : Derived} {req : Option AuthenticatorRequest}
    (hbytes : d.request.bytes = (req.map encodeRequest).getD []) (hreq : ∀ r ∈ req, r.Fits)
    (cert : CertificateMessage) (hcert : cert.Fits) (cv : Option CertificateVerifyMessage)
    (hcv : ∀ m ∈ cv, m.signature.length ≤ 0xFFFF) :
    (authenticatorTranscript req hreq cert hcert cv hcv).hash lib d.hash d.hsCtx =
      lib.sum d.hash (d.hsCtx ++ (d.request.bytes ++
        (encodeCertificate cert ++ (cv.map encodeCertificateVerify).getD []))) := by
  rw [Transcript.hash, hashConcat_hashInput, Transcript.hashInput_chunks, hbytes]
  rfl

/-- The signature and the MAC of an accepted full authenticator are over the hashes of two
transcripts, which differ in the CertificateVerify message only. -/
theorem FullChecked.transcripts {d : Derived} {req : Option AuthenticatorRequest}
    {cert : CertificateMessage} {cv : CertificateVerifyMessage} {fin : FinishedMessage}
    {chain : List Certificate} {leaf : Certificate} {authBytes : Bytes}
    (h : FullChecked lib d req cert cv fin chain leaf) (hfull : IsFull authBytes cert cv fin)
    (hreq : requestParts req = .ok d.request) :
    ∃ signed maced : Transcript,
      signed.request = req.map encodeRequest ∧ maced.request = signed.request ∧
      signed.certificate = encodeCertificate cert ∧ maced.certificate = signed.certificate ∧
      signed.certificateVerify = none ∧
      maced.certificateVerify = some (encodeCertificateVerify cv) ∧
      verifyCertVerify lib leaf.publicKey cv.algorithm (signed.hash lib d.hash d.hsCtx)
        cv.signature = .ok () ∧
      fin.verifyData = hmacSum lib d.hash d.finishedKey (maced.hash lib d.hash d.hsCtx) := by
  obtain ⟨hfits, hbytes⟩ := requestParts_bytes hreq
  have hcv : ∀ m ∈ some cv, m.signature.length ≤ 0xFFFF := by
    intro m hm
    cases hm
    exact hfull.cvFits
  have hsigned := authenticatorTranscript_hash lib hbytes hfits cert hfull.certFits none
    (by simp)
  have hmaced := authenticatorTranscript_hash lib hbytes hfits cert hfull.certFits (some cv) hcv
  refine ⟨authenticatorTranscript req hfits cert hfull.certFits none (by simp),
    authenticatorTranscript req hfits cert hfull.certFits (some cv) hcv, rfl, rfl, rfl, rfl, rfl,
    rfl, ?_, ?_⟩
  · rw [hsigned]
    simpa using h.signature
  · rw [hmaced]
    exact h.mac

end

/-- Transcripts are unambiguous. Equal hash inputs after contexts of one length come from the
same messages, so that one signature input or one MAC input stands for two transcripts only
where the hash function collides on them. -/
theorem transcripts_unambiguous (t t' : Transcript) (hsCtx hsCtx' : Bytes)
    (hlen : hsCtx.length = hsCtx'.length) :
    (hashInput (t.chunks hsCtx) = hashInput (t'.chunks hsCtx') → hsCtx = hsCtx' ∧ t = t') ∧
    ∀ (lib : Library) (h : Hash),
      (hashConcat lib h (t.chunks hsCtx) = hashConcat lib h (t'.chunks hsCtx') ∨
        buildCertVerifyInput (hashConcat lib h (t.chunks hsCtx)) =
          buildCertVerifyInput (hashConcat lib h (t'.chunks hsCtx'))) →
      (hsCtx = hsCtx' ∧ t = t') ∨
        IsCollision (lib.sum h) (hashInput (t.chunks hsCtx)) (hashInput (t'.chunks hsCtx')) := by
  refine ⟨Transcript.hashInput_inj hlen, ?_⟩
  intro lib h heq
  cases heq with
  | inl heq => exact Transcript.hash_inj hlen heq
  | inr heq => exact Transcript.hash_inj hlen (buildCertVerifyInput_inj heq)

def signedTranscript : Transcript :=
  authenticatorTranscript none (by simp) ⟨[0x2A], []⟩ (emptyCertificate_fits (by decide)) none
    (by simp)

def macedTranscript : Transcript :=
  authenticatorTranscript none (by simp) ⟨[0x2A], []⟩ (emptyCertificate_fits (by decide))
    (some ⟨ed25519Scheme, [0x01]⟩) (by simp)

theorem signedTranscript_not_maced :
    hashInput (signedTranscript.chunks [0x05]) ≠ hashInput (macedTranscript.chunks [0x05]) := by
  intro h
  have heq := ((transcripts_unambiguous signedTranscript macedTranscript [0x05] [0x05] rfl).1 h).2
  have hcv := congrArg Transcript.certificateVerify heq
  cases hcv

end DistributedEnclave.Ea
