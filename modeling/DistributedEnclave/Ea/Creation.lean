import DistributedEnclave.Ea.Acceptance

/-! The creator of exported authenticators: the choice of a signature scheme, the two forms
of output and the checks in front of them, and what it produces as one equivalence. -/
namespace DistributedEnclave.Ea
open DistributedEnclave.Octets DistributedEnclave.Outcome

inductive PrivateKey where
  | ecdsa (curve : String) (key : Bytes) | rsa (key : Bytes) | ed25519 (key : Bytes)
  | other (key : Bytes)
  deriving DecidableEq, Repr

structure Identity where
  certificate : List Bytes
  privateKey : Option PrivateKey
  deriving DecidableEq, Repr

/-- The Go library functions of the creating side. What they draw at random during one call
is part of them. -/
structure Producer where
  rand : Nat → Except Nat Bytes
  signECDSA : Bytes → Bytes → Except Nat Bytes
  signPSS : Bytes → Bytes → Except Nat Bytes
  signEd25519 : Bytes → Bytes → Bytes
  marshalJSON : Payload → Except Nat Bytes

def compat (priv : PrivateKey) (s : UInt16) : Bool :=
  match signatureSchemeInfo s with
  | .error _ => false
  | .ok info =>
    match info.alg, priv with
    | .ecdsa, .ecdsa curve _ => curve == "P-256"
    | .rsaPSS, .rsa _ => true
    | .ed25519, .ed25519 _ => true
    | _, _ => false

def chooseSignatureScheme (priv : PrivateKey) (offered : List UInt16) : Except Error UInt16 :=
  if offered.length > 0 then
    match offered.find? (compat priv) with
    | some s => .ok s
    | none => .error .errUnsupportedSignatureScheme
  else
    match priv with
    | .ecdsa curve _ =>
      if curve = "P-256" then .ok ecdsaWithP256AndSHA256
      else .error .errUnsupportedSignatureScheme
    | .rsa _ => .ok pssWithSHA256
    | .ed25519 _ => .ok ed25519Scheme
    | .other _ => .error .errUnsupportedSignatureScheme

theorem chooseSignatureScheme_offered {priv : PrivateKey} {offered : List UInt16} {s : UInt16}
    (h : chooseSignatureScheme priv offered = .ok s) (hne : offered ≠ []) : s ∈ offered := by
  unfold chooseSignatureScheme at h
  rw [if_pos (List.length_pos_iff.mpr hne)] at h
  split at h
  · rename_i x hfind
    cases h
    exact List.mem_of_find?_eq_some hfind
  · cases h

/-- Index 0 gets the leaf extensions, every other certificate none. -/
def certificateEntries (leafEntryExtensions : List Extension) :
    List Bytes → List CertificateEntry
  | [] => []
  | der::ders => ⟨der, leafEntryExtensions⟩::ders.map (⟨·, []⟩)

section
variable (lib : Library) (sg : Producer)

/-- Version 0 stands for version 1. -/
def Payload.versioned (p : Payload) : Payload := if p.version = 0 then { p with version := 1 } else p

def marshalPayload (p : Payload) : Except Error Bytes := do
  p.validate
  fromLibrary (sg.marshalJSON p.versioned)

def newRandomContext (n : Int) : Except Error Bytes :=
  if n ≤ 0 ∨ n > 255 then .error .errInvalidLength else fromLibrary (sg.rand n.toNat)

def signCertVerify (priv : PrivateKey) (scheme : UInt16) (transcriptHash : Bytes) :
    Except Error Bytes := do
  let info ← signatureSchemeInfo scheme
  let msg := buildCertVerifyInput transcriptHash
  match info.alg, priv with
  | .ecdsa, .ecdsa _ k => fromLibrary (sg.signECDSA k (lib.sum .sha256 msg))
  | .rsaPSS, .rsa k => fromLibrary (sg.signPSS k (lib.sum .sha256 msg))
  | .ed25519, .ed25519 k => .ok (sg.signEd25519 k msg)
  | _, _ => .error .errUnsupportedSignatureScheme

/-- The creator takes the context of the request, or a random one without a request. -/
def creatorParts (req : Option AuthenticatorRequest) : Except Error RequestParts :=
  match req with
  | some _ => requestParts req
  | none => do
    let c ← newRandomContext sg 32
    .ok ⟨[], [], c⟩

def createFinishedOnly (hsCtx fk : Bytes) (h : Hash) (r : RequestParts) : Except Error Bytes := do
  let certBytes ← marshalCertificateMessage ⟨r.context, []⟩
  let th := hashConcat lib h [hsCtx, r.bytes, certBytes]
  let verifyData := hmacSum lib h fk th
  marshalFinishedMessage ⟨verifyData⟩

def createFull (hsCtx fk : Bytes) (h : Hash) (req : Option AuthenticatorRequest)
    (policy : Option SpontaneousAuthenticatorPolicy) (r : RequestParts) (priv : PrivateKey)
    (certificate : List Bytes) (leafEntryExtensions : List Extension) : Except Error Bytes := do
  let scheme ← chooseSignatureScheme priv r.offered
  if req.isNone ∧ !policyPermitsSignatureScheme policy scheme then
    .error .errUnsupportedSignatureScheme
  else do
    let certBytes ← marshalCertificateMessage
      ⟨r.context, certificateEntries leafEntryExtensions certificate⟩
    let th1 := hashConcat lib h [hsCtx, r.bytes, certBytes]
    let sig ← signCertVerify lib sg priv scheme th1
    let cvBytes ← marshalCertificateVerifyMessage ⟨scheme, sig⟩
    let th2 := hashConcat lib h [hsCtx, r.bytes, certBytes, cvBytes]
    let verifyData := hmacSum lib h fk th2
    let finBytes ← marshalFinishedMessage ⟨verifyData⟩
    .ok (certBytes ++ (cvBytes ++ finBytes))

variable (st : ConnectionState)

/-- The creator up to the point where both of its exits mark the context and return the
bytes: that context and those bytes. -/
def createBytes (role : Role) (req : Option AuthenticatorRequest)
    (policy : Option SpontaneousAuthenticatorPolicy) (identity : Identity)
    (leafEntryExtensions : List Extension) : Except Error (Bytes × Bytes) :=
  if st.version ≠ versionTLS13 then .error .errNotTLS13
  else if req.isNone ∧ role ≠ .server then .error .errInvalidRole
  else do
    validateCertificateEntryExtensions req policy leafEntryExtensions
    let emptyAuthenticator := identity.certificate.isEmpty && identity.privateKey.isNone
    if !emptyAuthenticator && (identity.certificate.isEmpty || identity.privateKey.isNone) then
      .error .errBadRequest
    else do
      let r ← creatorParts sg req
      let (hsCtx, h) ← exportHandshakeContext st role
      let (fk, _) ← exportFinishedKey st role
      -- a certificate is there exactly when a key is, so the key tells the two forms apart
      match identity.privateKey with
      | none =>
        if req.isNone then .error .errBadRequest
        else do
          let finBytes ← createFinishedOnly lib hsCtx fk h r
          .ok (r.context, finBytes)
      | some priv => do
        let authBytes ← createFull lib sg hsCtx fk h req policy r priv identity.certificate
          leafEntryExtensions
        .ok (r.context, authBytes)

def createAuthenticator (role : Role) (req : Option AuthenticatorRequest)
    (policy : Option SpontaneousAuthenticatorPolicy) (identity : Identity)
    (leafEntryExtensions : List Extension) : Run Bytes := do
  let (ctx, authBytes) ← liftM
    (createBytes lib sg st role req policy identity leafEntryExtensions)
  markContextUsed ctx
  pure authBytes

theorem exec_createAuthenticator_ok (role : Role) (req : Option AuthenticatorRequest)
    (policy : Option SpontaneousAuthenticatorPolicy) (identity : Identity)
    (exts : List Extension) (w w' : World) (authBytes : Bytes) :
    exec (createAuthenticator lib sg st role req policy identity exts) w = (.ok authBytes, w') ↔
      ∃ ctx, createBytes lib sg st role req policy identity exts = .ok (ctx, authBytes) ∧
        w.Fresh ctx ∧ w' = w.markUsed ctx := by
  rw [createAuthenticator, exec_lift_bind_ok]
  constructor
  · intro h
    obtain ⟨⟨ctx, bytes⟩, hcreate, h⟩ := h
    rw [exec_bind_ok] at h
    obtain ⟨_, w₁, hmark, h⟩ := h
    obtain ⟨hfresh, rfl⟩ := (exec_markContextUsed_ok ..).mp hmark
    cases h
    exact ⟨ctx, hcreate, hfresh, rfl⟩
  · intro h
    obtain ⟨ctx, hcreate, hfresh, hw⟩ := h
    refine ⟨(ctx, authBytes), hcreate, ?_⟩
    rw [exec_bind_ok]
    exact ⟨(), w', (exec_markContextUsed_ok ..).mpr ⟨hfresh, hw⟩, rfl⟩

structure CreatorDerived (role : Role) (req : Option AuthenticatorRequest) (d : Derived) :
    Prop where
  handshakeContext : exportHandshakeContext st role = .ok (d.hsCtx, d.hash)
  finishedKey : ∃ h, exportFinishedKey st role = .ok (d.finishedKey, h)
  request : creatorParts sg req = .ok d.request

structure CreatedEmpty (d : Derived) (req : Option AuthenticatorRequest) (identity : Identity)
    (authBytes : Bytes) : Prop where
  noCertificate : identity.certificate = []
  noKey : identity.privateKey = none
  requested : req.isSome
  certFits : (⟨d.request.context, []⟩ : CertificateMessage).Fits
  isFinished : IsFinishedOnly authBytes ⟨d.mac lib (encodeCertificate ⟨d.request.context, []⟩)⟩

structure CreatedFull (d : Derived) (req : Option AuthenticatorRequest)
    (policy : Option SpontaneousAuthenticatorPolicy) (identity : Identity)
    (exts : List Extension) (authBytes : Bytes) (priv : PrivateKey) (cert : CertificateMessage)
    (cv : CertificateVerifyMessage) : Prop where
  certificate : identity.certificate ≠ []
  key : identity.privateKey = some priv
  cert_eq : cert = ⟨d.request.context, certificateEntries exts identity.certificate⟩
  chosen : chooseSignatureScheme priv d.request.offered = .ok cv.algorithm
  permitted : req = none → policyPermitsSignatureScheme policy cv.algorithm = true
  signed : signCertVerify lib sg priv cv.algorithm
    (lib.sum d.hash (d.hsCtx ++ (d.request.bytes ++ encodeCertificate cert))) = .ok cv.signature
  isFull : IsFull authBytes cert cv
    ⟨d.mac lib (encodeCertificate cert ++ encodeCertificateVerify cv)⟩

theorem createFinishedOnly_ok (d : Derived) (bs : Bytes) :
    createFinishedOnly lib d.hsCtx d.finishedKey d.hash d.request = .ok bs ↔
      (⟨d.request.context, []⟩ : CertificateMessage).Fits ∧
      IsFinishedOnly bs ⟨d.mac lib (encodeCertificate ⟨d.request.context, []⟩)⟩ := by
  simp only [createFinishedOnly, bind_eq_ok, marshalCertificateMessage_ok,
    marshalFinishedMessage_ok, hashConcat_eq, hmacSum, List.flatten_cons, List.flatten_nil,
    List.append_nil]
  constructor
  · intro h
    obtain ⟨_, ⟨hcert, rfl⟩, hfin, hbs⟩ := h
    exact ⟨hcert, hfin, hbs⟩
  · intro h
    exact ⟨_, ⟨h.1, rfl⟩, h.2.finFits, h.2.bytes⟩

theorem createFull_ok (d : Derived) (req : Option AuthenticatorRequest)
    (policy : Option SpontaneousAuthenticatorPolicy) (identity : Identity)
    (exts : List Extension) (priv : PrivateKey) (hne : identity.certificate ≠ [])
    (hpriv : identity.privateKey = some priv) (bs : Bytes) :
    createFull lib sg d.hsCtx d.finishedKey d.hash req policy d.request priv identity.certificate
        exts = .ok bs ↔
      ∃ cert cv, CreatedFull lib sg d req policy identity exts bs priv cert cv := by
  simp only [createFull, bind_eq_ok, guard_eq_ok, marshalCertificateMessage_ok,
    marshalCertificateVerifyMessage_ok, marshalFinishedMessage_ok, hashConcat_eq, hmacSum,
    List.flatten_cons, List.flatten_nil, List.append_nil, Except.ok.injEq]
  constructor
  · intro h
    obtain ⟨scheme, hscheme, hpermit, _, ⟨hcert, rfl⟩, sig, hsig, _, ⟨hcv, rfl⟩, _,
      ⟨hfin, rfl⟩, rfl⟩ := h
    refine ⟨_, ⟨scheme, sig⟩, hne, hpriv, rfl, hscheme, ?_, hsig, hcert, hcv, hfin, rfl⟩
    intro hreq
    simpa [hreq] using hpermit
  · intro h
    obtain ⟨cert, cv, h⟩ := h
    obtain rfl := h.cert_eq
    refine ⟨cv.algorithm, h.chosen, ?_, _, ⟨h.isFull.certFits, rfl⟩, cv.signature, h.signed, _,
      ⟨h.isFull.cvFits, rfl⟩, _, ⟨h.isFull.finFits, rfl⟩, h.isFull.bytes.symm⟩
    intro hbad
    have := h.permitted (Option.isNone_iff_eq_none.mp hbad.1)
    rw [this] at hbad
    exact absurd hbad.2 (by decide)

/-- The creator succeeds in exactly two ways: with a lone Finished message for an empty
identity, and with the three messages for a chain with a key. -/
theorem createBytes_ok (role : Role) (req : Option AuthenticatorRequest)
    (policy : Option SpontaneousAuthenticatorPolicy) (identity : Identity)
    (exts : List Extension) (ctx authBytes : Bytes) :
    createBytes lib sg st role req policy identity exts = .ok (ctx, authBytes) ↔
      (req = none → role = .server) ∧ (∀ e ∈ exts, Permits req policy e.type) ∧
      ∃ d, CreatorDerived sg st role req d ∧ ctx = d.request.context ∧
        (CreatedEmpty lib d req identity authBytes ∨
          ∃ priv cert cv, CreatedFull lib sg d req policy identity exts authBytes priv cert cv) := by
  simp only [createBytes, guard_eq_ok, bind_eq_ok, Prod.exists]
  constructor
  · intro h
    obtain ⟨_, hrole, _, hexts, hid, r, hr, hsCtx, hash, h1, fk, hash', h2, h⟩ := h
    refine ⟨fun hreq => by simpa [hreq] using hrole,
      (validateCertificateEntryExtensions_ok req policy exts).mp hexts,
      ⟨hsCtx, fk, hash, r⟩, ⟨h1, ⟨hash', h2⟩, hr⟩, ?_⟩
    cases hpriv : identity.privateKey with
    | none =>
      rw [hpriv] at h hid
      simp only [guard_eq_ok, bind_eq_ok, Except.ok.injEq, Prod.mk.injEq] at h
      obtain ⟨hreq, bs, hbs, hctx, hbytes⟩ := h
      subst hbytes
      obtain ⟨hcert, hfin⟩ := (createFinishedOnly_ok lib ⟨hsCtx, fk, hash, r⟩ bs).mp hbs
      refine ⟨hctx.symm, .inl ⟨?_, hpriv, ?_, hcert, hfin⟩⟩
      · simpa using hid
      · simpa [Option.isSome_iff_ne_none] using hreq
    | some priv =>
      rw [hpriv] at h hid
      simp only [bind_eq_ok, Except.ok.injEq, Prod.mk.injEq] at h
      obtain ⟨bs, hbs, hctx, hbytes⟩ := h
      subst hbytes
      have hne : identity.certificate ≠ [] := by simpa using hid
      obtain ⟨cert, cv, hfull⟩ := (createFull_ok lib sg ⟨hsCtx, fk, hash, r⟩ req policy identity
        exts priv hne hpriv bs).mp hbs
      exact ⟨hctx.symm, .inr ⟨priv, cert, cv, hfull⟩⟩
  · intro h
    obtain ⟨hrole, hexts, d, hd, hctx, h⟩ := h
    subst hctx
    obtain ⟨hash', h2⟩ := hd.finishedKey
    refine ⟨not_not.mpr (exportWith_tls13 hd.handshakeContext), ?_, (),
      (validateCertificateEntryExtensions_ok req policy exts).mpr hexts, ?_, d.request, hd.request,
      d.hsCtx, d.hash, hd.handshakeContext, d.finishedKey, hash', h2, ?_⟩
    · intro hbad
      exact hbad.2 (hrole (Option.isNone_iff_eq_none.mp hbad.1))
    · cases h with
      | inl h => simp [h.noCertificate, h.noKey]
      | inr h =>
        obtain ⟨priv, cert, cv, h⟩ := h
        simp [h.certificate, h.key]
    · cases h with
      | inl h =>
        rw [h.noKey]
        have hreq : ¬req.isNone = true := by simpa [Option.isSome_iff_ne_none] using h.requested
        rw [if_neg hreq, (createFinishedOnly_ok lib d authBytes).mpr ⟨h.certFits, h.isFinished⟩]
        rfl
      | inr h =>
        obtain ⟨priv, cert, cv, h⟩ := h
        rw [h.key]
        have hbs := (createFull_ok lib sg d req policy identity exts priv h.certificate h.key
          authBytes).mpr ⟨cert, cv, h⟩
        simp only [hbs, ok_bind]

end
end DistributedEnclave.Ea
