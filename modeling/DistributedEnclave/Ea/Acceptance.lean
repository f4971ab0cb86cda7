import Mathlib.Data.List.Forall2
import DistributedEnclave.Ea.Phases

/-! What the validator accepts, as one equivalence. The three success exits are three
forms of input: a lone Finished message, a Certificate message without entries, and a
full authenticator. -/
namespace DistributedEnclave.Ea
open DistributedEnclave.Octets DistributedEnclave.Outcome DistributedEnclave.Repeat

theorem exportWith_tls13 {st : ConnectionState} {c s : String} {role : Role} {x : Bytes × Hash}
    (h : exportWith st c s role = .ok x) : st.version = versionTLS13 := by
  simp only [exportWith, guard_eq_ok, not_not] at h
  exact h.1

theorem requestParts_some {r : AuthenticatorRequest} {parts : RequestParts}
    (h : requestParts (some r) = .ok parts) :
    r.Fits ∧ parts.bytes = encodeRequest r ∧ parts.context = r.context ∧
      r.signatureSchemes = .ok (some parts.offered) := by
  simp only [requestParts, bind_eq_ok, marshalRequest_ok] at h
  obtain ⟨bytes, ⟨hfit, rfl⟩, schemes, hschemes, h⟩ := h
  cases schemes with
  | none => cases h
  | some offered =>
    cases h
    exact ⟨hfit, rfl, rfl, hschemes⟩

/-- A request is taken apart exactly when it marshals and offers signature schemes. -/
theorem requestParts_context_le {req : Option AuthenticatorRequest} {parts : RequestParts}
    (h : requestParts req = .ok parts) : parts.context.length ≤ 255 := by
  cases req with
  | none => cases h; simp
  | some r =>
    obtain ⟨hfit, _, hctx, _⟩ := requestParts_some h
    rw [hctx]
    exact hfit.context

theorem emptyCertificate_fits {ctx : Bytes} (h : ctx.length ≤ 255) :
    (⟨ctx, []⟩ : CertificateMessage).Fits := by
  refine ⟨h, by simp, ?_⟩
  simp [encodeCertificateBody, encodeEntries]
  omega

def World.Fresh (w : World) (ctx : Bytes) : Prop := ∀ used, w.session = some used → ctx ∉ used

def World.markUsed (w : World) (ctx : Bytes) : World :=
  { w with session := w.session.map (ctx :: ·) }

theorem exec_markContextUsed_ok (ctx : Bytes) (w w' : World) (u : Unit) :
    exec (markContextUsed ctx) w = (.ok u, w') ↔ w.Fresh ctx ∧ w' = w.markUsed ctx := by
  obtain ⟨session, opts, ev, rs⟩ := w
  simp only [markContextUsed, exec_bind, exec_get, World.Fresh, World.markUsed]
  cases session with
  | none => simp [eq_comm]
  | some used =>
    by_cases hc : ctx ∈ used
    · simp [hc]
    · simp [hc, exec_modify, eq_comm]

def VerifyOptions.withChain (opts : VerifyOptions) (chain : List Certificate) : VerifyOptions :=
  { opts with intermediates := some (chain.tail.foldl addCert (opts.intermediates.getD [])) }

def VerifyOptions.shareChain (opts : VerifyOptions) (chain : List Certificate) : VerifyOptions :=
  { opts with intermediates :=
      opts.intermediates.map fun pool => chain.tail.foldl addCert pool }

def World.addChain (w : World) (chain : List Certificate) : World :=
  { w with verifyOpts := w.verifyOpts.map (·.shareChain chain) }

section
variable (lib : Library)

def ChainTrusted (w : World) (chain : List Certificate) (leaf : Certificate) : Prop :=
  ∀ opts, w.verifyOpts = some opts →
    lib.verifyCertificate leaf (opts.withChain chain) = .ok ()

theorem exec_verifyChain_ok (chain : List Certificate) (leaf : Certificate) (w w' : World)
    (u : Unit) :
    exec (verifyChain lib chain leaf) w = (.ok u, w') ↔
      ChainTrusted lib w chain leaf ∧ w' = w.addChain chain := by
  obtain ⟨session, opts, ev, rs⟩ := w
  simp only [verifyChain, exec_bind, exec_get, ChainTrusted, World.addChain]
  cases opts with
  | none => simp [eq_comm]
  | some opts =>
    have hshare : opts.intermediates.map (fun _ => chain.tail.foldl addCert
        (opts.intermediates.getD [])) =
        opts.intermediates.map fun pool => chain.tail.foldl addCert pool := by
      cases opts.intermediates <;> rfl
    simp only [exec_bind, exec_modify, exec_lift, Prod.mk.injEq, fromLibrary_ok, Option.map_some,
      Option.some.injEq, hshare]
    constructor
    · intro h
      obtain ⟨h, rfl⟩ := h
      exact ⟨fun _ ho => ho ▸ h, rfl⟩
    · intro h
      obtain ⟨h, rfl⟩ := h
      exact ⟨h _ rfl, rfl⟩

structure IsFull (authBytes : Bytes) (cert : CertificateMessage) (cv : CertificateVerifyMessage)
    (fin : FinishedMessage) : Prop where
  certFits : cert.Fits
  cvFits : cv.signature.length ≤ 0xFFFF
  finFits : fin.Fits
  bytes : authBytes = encodeCertificate cert ++ (encodeCertificateVerify cv ++ encodeFinished fin)

structure IsFinishedOnly (authBytes : Bytes) (fin : FinishedMessage) : Prop where
  finFits : fin.Fits
  bytes : authBytes = encodeFinished fin

theorem encodeCertificateVerifyBody_le {cv : CertificateVerifyMessage}
    (h : cv.signature.length ≤ 0xFFFF) :
    (encodeCertificateVerifyBody cv).length ≤ 0xFFFFFF := by
  simp [encodeCertificateVerifyBody]
  omega

theorem unmarshal_encodeHandshake {hm : HandshakeMessage} (h : hm.body.length ≤ 0xFFFFFF)
    (rest : Bytes) : unmarshalHandshakeMessage (encodeHandshake hm ++ rest) = .ok (hm, rest) :=
  (unmarshalHandshakeMessage_ok _ hm rest).mpr ⟨h, rfl⟩

theorem IsFull.first {b : Bytes} {cert : CertificateMessage} {cv : CertificateVerifyMessage}
    {fin : FinishedMessage} (h : IsFull b cert cv fin) :
    unmarshalHandshakeMessage b = .ok (⟨handshakeTypeCertificate, encodeCertificateBody cert⟩,
      encodeCertificateVerify cv ++ encodeFinished fin) := by
  rw [h.bytes]
  exact unmarshal_encodeHandshake h.certFits.body _

theorem splitMessages_sound {certHm : HandshakeMessage} {rest : Bytes} {m : FullMessages}
    (hle : certHm.body.length ≤ 0xFFFFFF) (h : splitMessages certHm rest = .ok m) :
    IsFull (encodeHandshake certHm ++ rest) m.cert m.cv m.fin ∧
      m.certBytes = encodeCertificate m.cert ∧ m.cvBytes = encodeCertificateVerify m.cv := by
  rw [splitMessages] at h
  split at h
  · cases h
  rename_i cvHm rest1 hcv
  rw [guard_eq_ok] at h
  obtain ⟨_, h⟩ := h
  split at h
  · cases h
  rename_i finHm rest2 hfin
  simp only [guard_eq_ok, bind_eq_ok, Prod.exists, not_or, not_not,
    List.length_eq_zero_iff] at h
  obtain ⟨⟨_, rfl⟩, cert, _, hcert, cv, _, hcv', fin, _, hfin', h⟩ := h
  cases h
  obtain ⟨hcvle, rfl⟩ := (unmarshalHandshakeMessage_ok _ cvHm rest1).mp hcv
  obtain ⟨hfinle, rfl⟩ := (unmarshalHandshakeMessage_ok _ finHm []).mp hfin
  obtain ⟨h1, h2, _⟩ := (unmarshalCertificateMessage_ok _ cert _).mp hcert
  obtain ⟨h3, h4, _⟩ := (unmarshalCertificateVerifyMessage_ok _ cv _).mp hcv'
  obtain ⟨h5, h6, _⟩ := (unmarshalFinishedMessage_ok _ fin _).mp hfin'
  rw [marshalRaw_of_le hle] at h2
  rw [marshalRaw_of_le hcvle] at h4
  rw [marshalRaw_of_le hfinle] at h6
  refine ⟨⟨h1, h3, h5, by rw [h2, h4, h6, List.append_nil]⟩, ?_, ?_⟩
  · exact (marshalRaw_of_le hle).trans h2
  · exact (marshalRaw_of_le hcvle).trans h4

theorem splitMessages_complete {cert : CertificateMessage} {cv : CertificateVerifyMessage}
    {fin : FinishedMessage} (hcert : cert.Fits) (hcv : cv.signature.length ≤ 0xFFFF)
    (hfin : fin.Fits) :
    splitMessages ⟨handshakeTypeCertificate, encodeCertificateBody cert⟩
      (encodeCertificateVerify cv ++ encodeFinished fin) =
      .ok ⟨encodeCertificate cert, encodeCertificateVerify cv, cert, cv, fin⟩ := by
  have hcvle := encodeCertificateVerifyBody_le hcv
  have h1 : marshalRaw ⟨handshakeTypeCertificate, encodeCertificateBody cert⟩ =
      encodeCertificate cert := marshalRaw_of_le hcert.body
  have h2 : marshalRaw ⟨handshakeTypeCertificateVerify, encodeCertificateVerifyBody cv⟩ =
      encodeCertificateVerify cv := marshalRaw_of_le hcvle
  have h3 : marshalRaw ⟨handshakeTypeFinished, fin.verifyData⟩ = encodeFinished fin :=
    marshalRaw_of_le hfin.2
  have h4 : unmarshalHandshakeMessage (encodeCertificateVerify cv ++ encodeFinished fin) =
      .ok (⟨handshakeTypeCertificateVerify, encodeCertificateVerifyBody cv⟩, encodeFinished fin) :=
    unmarshal_encodeHandshake hcvle _
  have h5 : unmarshalHandshakeMessage (encodeFinished fin) =
      .ok (⟨handshakeTypeFinished, fin.verifyData⟩, []) := by
    have := @unmarshal_encodeHandshake ⟨handshakeTypeFinished, fin.verifyData⟩ hfin.2 []
    rwa [List.append_nil] at this
  have h6 := (unmarshalCertificateMessage_ok _ cert _).mpr ⟨hcert, rfl, rfl⟩
  have h7 := (unmarshalCertificateVerifyMessage_ok _ cv _).mpr ⟨hcv, rfl, rfl⟩
  have h8 := (unmarshalFinishedMessage_ok _ fin _).mpr ⟨hfin, rfl, rfl⟩
  simp only [splitMessages, h4, h5, ne_eq, not_true_eq_false, if_false, List.length_nil,
    or_self, h1, h2, h3, h6, h7, h8, ok_bind]

theorem validateEntries_ok (req : Option AuthenticatorRequest)
    (policy : Option SpontaneousAuthenticatorPolicy) (entries : List CertificateEntry) :
    validateEntries req policy entries = .ok () ↔
      ∀ entry ∈ entries, ∀ e ∈ entry.extensions, Permits req policy e.type := by
  induction entries with
  | nil => simp [validateEntries]
  | cons entry entries ih =>
    rw [validateEntries, bind_eq_ok, List.forall_mem_cons,
      ← validateCertificateEntryExtensions_ok, ← ih]
    exact ⟨fun ⟨_, h1, h2⟩ => ⟨h1, h2⟩, fun ⟨h1, h2⟩ => ⟨(), h1, h2⟩⟩

structure EntriesChecked (req : Option AuthenticatorRequest)
    (policy : Option SpontaneousAuthenticatorPolicy) (leafEntry : CertificateEntry)
    (others : List CertificateEntry) (extracted : Option Bytes) : Prop where
  leafOnly : ∀ entry ∈ others, ∀ e ∈ entry.extensions, e.type ≠ cmwAttestationExtensionType
  permitted : ∀ entry ∈ leafEntry::others, ∀ e ∈ entry.extensions, Permits req policy e.type
  extracted : extractCMWAttestationFromExtensions leafEntry.extensions = .ok extracted

theorem extractCMW_mem {exts : List Extension} {cmw : Bytes}
    (h : extractCMWAttestationFromExtensions exts = .ok (some cmw)) :
    ∃ e ∈ exts, e.type = cmwAttestationExtensionType := by
  obtain ⟨e, he, htype, _⟩ := extractCMW_eq_some h
  exact ⟨e, he, htype⟩

theorem checkEntries_ok (req : Option AuthenticatorRequest)
    (policy : Option SpontaneousAuthenticatorPolicy) (entries : List CertificateEntry)
    (extracted : Option Bytes) :
    checkEntries req policy entries = .ok extracted ↔
      ∃ leafEntry others, entries = leafEntry::others ∧
        EntriesChecked req policy leafEntry others extracted := by
  simp only [checkEntries, bind_eq_ok, guard_eq_ok, first_ok, Except.ok.injEq]
  constructor
  · intro h
    obtain ⟨_, hplace, _, hperm, leafEntry, ⟨others, rfl⟩, x, hx, _, _, rfl⟩ := h
    exact ⟨leafEntry, others, rfl, (validateCMWAttestationPlacement_ok _).mp hplace,
      (validateEntries_ok req policy _).mp hperm, hx⟩
  · intro h
    obtain ⟨leafEntry, others, rfl, h⟩ := h
    refine ⟨(), (validateCMWAttestationPlacement_ok _).mpr h.leafOnly, (),
      (validateEntries_ok req policy _).mpr h.permitted, leafEntry, ⟨others, rfl⟩, extracted,
      h.extracted, ?_⟩
    cases extracted with
    | none => simp
    | some cmw =>
      -- the two checks after the extraction repeat what the entry loop has established
      obtain ⟨e, he, htype⟩ := extractCMW_mem h.extracted
      have hp := (permits_iff req policy _).mp (h.permitted leafEntry (by simp) e he)
      rw [htype] at hp
      cases req with
      | none => simpa using hp
      | some r => simpa using hp

theorem parseChain_ok (entries : List CertificateEntry) (chain : List Certificate) :
    parseChain lib entries = .ok chain ↔
      List.Forall₂ (fun e c => lib.parseCertificate e.certDER = .ok c) entries chain := by
  induction entries generalizing chain with
  | nil => simp [parseChain, List.forall₂_nil_left_iff, eq_comm]
  | cons e entries ih =>
    simp only [parseChain, bind_eq_ok, fromLibrary_ok, ih, Except.ok.injEq]
    constructor
    · intro h
      obtain ⟨c, hc, chain', hchain, rfl⟩ := h
      exact .cons hc hchain
    · intro h
      cases h with
      | cons hc hchain => exact ⟨_, hc, _, hchain, rfl⟩

def Derived.mac (d : Derived) (transcript : Bytes) : Bytes :=
  lib.hmac d.hash d.finishedKey (lib.sum d.hash (d.hsCtx ++ (d.request.bytes ++ transcript)))

structure FullChecked (d : Derived) (req : Option AuthenticatorRequest)
    (cert : CertificateMessage) (cv : CertificateVerifyMessage) (fin : FinishedMessage)
    (chain : List Certificate) (leaf : Certificate) : Prop where
  parsed : List.Forall₂ (fun e c => lib.parseCertificate e.certDER = .ok c) cert.entries chain
  leafFirst : ∃ rest, chain = leaf::rest
  offered : req.isSome → cv.algorithm ∈ d.request.offered
  signature : verifyCertVerify lib leaf.publicKey cv.algorithm
    (lib.sum d.hash (d.hsCtx ++ (d.request.bytes ++ encodeCertificate cert))) cv.signature =
    .ok ()
  mac : fin.verifyData = d.mac lib (encodeCertificate cert ++ encodeCertificateVerify cv)

theorem checkFull_ok (d : Derived) (req : Option AuthenticatorRequest)
    (cert : CertificateMessage) (cv : CertificateVerifyMessage) (fin : FinishedMessage)
    (chain : List Certificate) (leaf : Certificate) :
    checkFull lib d.hsCtx d.finishedKey d.hash req d.request
        ⟨encodeCertificate cert, encodeCertificateVerify cv, cert, cv, fin⟩ = .ok (chain, leaf) ↔
      FullChecked lib d req cert cv fin chain leaf := by
  simp only [checkFull, bind_eq_ok, guard_eq_ok, parseChain_ok, first_ok, hashConcat_eq, hmacSum,
    Bool.not_eq_true, Bool.not_eq_false', constantTimeEqual_iff, Except.ok.injEq, Prod.mk.injEq,
    List.flatten_cons, List.flatten_nil, List.append_nil]
  constructor
  · intro h
    obtain ⟨c, hc, l, hl, hoff, _, hsig, hmac, rfl, rfl⟩ := h
    refine ⟨hc, hl, fun hreq => ?_, hsig, hmac.symm⟩
    simpa [hreq] using hoff
  · intro h
    obtain ⟨hc, hl, hoff, hsig, hmac⟩ := h
    refine ⟨chain, hc, leaf, hl, ?_, (), hsig, hmac.symm, rfl, rfl⟩
    intro h
    obtain ⟨hreq, hno⟩ := h
    simp only [Bool.not_eq_true', List.any_eq_false, beq_iff_eq] at hno
    exact hno _ (hoff hreq) rfl

structure PayloadChecked (st : ConnectionState) (attPolicy : Option VerificationPolicy)
    (ctx : Bytes) (leaf : Certificate) (cmw : Bytes) (p : Payload) : Prop where
  parsed : parsePayload lib cmw = .ok p
  accepted : p.Accepted lib (attPolicy.getD ⟨none, none⟩) ctx leaf
  binder : verifyBinder lib st exporterLabelAttestation ctx leaf p.binder = .ok ()

def Payload.verified (p : Payload) : VerifiedPayload :=
  ⟨p, p.evidence ≠ [], p.attestationResults ≠ [], true, exporterLabelAttestation⟩

def World.logCalls (w : World) (ctx : Bytes) (leaf : Certificate) (p : Payload) : World :=
  { w with
    evidenceCalls := w.evidenceCalls ++ evidenceCallsOf lib ctx leaf p
    resultsCalls := w.resultsCalls ++ resultsCallsOf p }

theorem parsePayload_validate {raw : Bytes} {p : Payload} (h : parsePayload lib raw = .ok p) :
    p.validate = .ok () := by
  simp only [parsePayload, guard_eq_ok] at h
  obtain ⟨_, h⟩ := h
  split at h
  · cases h
  · simp only [bind_eq_ok, Except.ok.injEq] at h
    obtain ⟨_, hval, rfl⟩ := h
    exact hval

theorem exec_attachAttestation_ok (st : ConnectionState) (attPolicy : Option VerificationPolicy)
    (ctx : Bytes) (chain : List Certificate) (leaf : Certificate) (extracted : Option Bytes)
    (w w' : World) (res : ValidationResult) :
    exec (attachAttestation lib st attPolicy ctx chain leaf extracted) w = (.ok res, w') ↔
      (extracted = none ∧ res = ⟨ctx, chain, [], none, false⟩ ∧ w' = w) ∨
      (∃ cmw p, extracted = some cmw ∧ PayloadChecked lib st attPolicy ctx leaf cmw p ∧
        res = ⟨ctx, chain, cmw, some p.verified, false⟩ ∧ w' = w.logCalls lib ctx leaf p) := by
  cases extracted with
  | none => simp [attachAttestation, eq_comm]
  | some cmw =>
    simp only [attachAttestation, exec_bind_ok, exec_lift, exec_pure, Prod.mk.injEq,
      Except.ok.injEq, exec_verifyPayload_ok, reduceCtorEq, false_and, false_or,
      Option.some.injEq]
    constructor
    · intro h
      obtain ⟨p, _, ⟨hp, rfl⟩, _, _, ⟨_, hacc, hbind, rfl, rfl⟩, rfl, rfl⟩ := h
      exact ⟨cmw, p, rfl, ⟨hp, hacc, hbind⟩, rfl, rfl⟩
    · intro h
      obtain ⟨_, p, rfl, hc, rfl, rfl⟩ := h
      exact ⟨p, w, ⟨hc.parsed, rfl⟩, p.verified, _,
        ⟨parsePayload_validate lib hc.parsed, hc.accepted, hc.binder, rfl, rfl⟩, rfl, rfl⟩

structure ChecksFinished (d : Derived) (req : Option AuthenticatorRequest) (authBytes : Bytes)
    (w : World) (fin : FinishedMessage) : Prop where
  isFinished : IsFinishedOnly authBytes fin
  requested : req.isSome
  mac : fin.verifyData = d.mac lib (encodeCertificate ⟨d.request.context, []⟩)
  fresh : w.Fresh d.request.context

structure AcceptsFinished (d : Derived) (req : Option AuthenticatorRequest) (authBytes : Bytes)
    (w w' : World) (res : ValidationResult) (fin : FinishedMessage) : Prop
    extends ChecksFinished lib d req authBytes w fin where
  world : w' = w.markUsed d.request.context
  result : res = ⟨d.request.context, [], [], none, true⟩

structure ChecksZeroEntry (d : Derived) (req : Option AuthenticatorRequest) (authBytes : Bytes)
    (w : World) (cert : CertificateMessage) (cv : CertificateVerifyMessage)
    (fin : FinishedMessage) : Prop where
  isFull : IsFull authBytes cert cv fin
  noEntries : cert.entries = []
  context : req.isSome → cert.context = d.request.context
  fresh : w.Fresh cert.context

structure AcceptsZeroEntry (d : Derived) (req : Option AuthenticatorRequest) (authBytes : Bytes)
    (w w' : World) (res : ValidationResult) (cert : CertificateMessage)
    (cv : CertificateVerifyMessage) (fin : FinishedMessage) : Prop
    extends ChecksZeroEntry d req authBytes w cert cv fin where
  world : w' = w.markUsed cert.context
  result : res = ⟨cert.context, [], [], none, true⟩

/-- What every accepted full authenticator with entries has gone through. -/
structure ChecksEntries (d : Derived) (req : Option AuthenticatorRequest)
    (policy : Option SpontaneousAuthenticatorPolicy) (authBytes : Bytes) (w : World)
    (cert : CertificateMessage) (cv : CertificateVerifyMessage) (fin : FinishedMessage)
    (extracted : Option Bytes) (chain : List Certificate) (leaf : Certificate) : Prop where
  isFull : IsFull authBytes cert cv fin
  context : req.isSome → cert.context = d.request.context
  entries : ∃ leafEntry others, cert.entries = leafEntry::others ∧
    EntriesChecked req policy leafEntry others extracted
  checked : FullChecked lib d req cert cv fin chain leaf
  trusted : ChainTrusted lib w chain leaf
  fresh : w.Fresh cert.context

def World.afterFull (w : World) (cert : CertificateMessage) (chain : List Certificate) : World :=
  (w.addChain chain).markUsed cert.context

structure AcceptsUnattested (d : Derived) (req : Option AuthenticatorRequest)
    (policy : Option SpontaneousAuthenticatorPolicy) (authBytes : Bytes) (w w' : World)
    (res : ValidationResult) (cert : CertificateMessage) (cv : CertificateVerifyMessage)
    (fin : FinishedMessage) (chain : List Certificate) (leaf : Certificate) : Prop
    extends ChecksEntries lib d req policy authBytes w cert cv fin none chain leaf where
  world : w' = w.afterFull cert chain
  result : res = ⟨cert.context, chain, [], none, false⟩

structure AcceptsAttested (d : Derived) (st : ConnectionState) (req : Option AuthenticatorRequest)
    (policy : Option SpontaneousAuthenticatorPolicy) (attPolicy : Option VerificationPolicy)
    (authBytes : Bytes) (w w' : World) (res : ValidationResult) (cert : CertificateMessage)
    (cv : CertificateVerifyMessage) (fin : FinishedMessage) (chain : List Certificate)
    (leaf : Certificate) (cmw : Bytes) (p : Payload) : Prop
    extends ChecksEntries lib d req policy authBytes w cert cv fin (some cmw) chain leaf where
  payload : PayloadChecked lib st attPolicy cert.context leaf cmw p
  world : w' = (w.afterFull cert chain).logCalls lib cert.context leaf p
  result : res = ⟨cert.context, chain, cmw, some p.verified, false⟩

theorem fresh_addChain {w : World} {chain : List Certificate} {ctx : Bytes} :
    (w.addChain chain).Fresh ctx ↔ w.Fresh ctx := Iff.rfl

theorem derive_ok {st : ConnectionState} {role : Role} {req : Option AuthenticatorRequest}
    {d : Derived} :
    derive st role req = .ok d ↔ exportHandshakeContext st role = .ok (d.hsCtx, d.hash) ∧
      (∃ h, exportFinishedKey st role = .ok (d.finishedKey, h)) ∧
      requestParts req = .ok d.request := by
  simp only [derive, bind_eq_ok, Prod.exists, Except.ok.injEq]
  constructor
  · intro h
    obtain ⟨hsCtx, h, h1, fk, h', h2, r, h3, rfl⟩ := h
    exact ⟨h1, ⟨h', h2⟩, h3⟩
  · intro h
    obtain ⟨h1, ⟨h', h2⟩, h3⟩ := h
    exact ⟨d.hsCtx, d.hash, h1, d.finishedKey, h', h2, d.request, h3, rfl⟩

def World.detached (w : World) : World := { w with session := none }

theorem World.detached_fresh (w : World) (ctx : Bytes) : w.detached.Fresh ctx :=
  fun _ h => nomatch h

theorem ChecksFinished.freshIn {d : Derived} {req : Option AuthenticatorRequest} {b : Bytes}
    {w : World} {fin : FinishedMessage} :
    ChecksFinished lib d req b w fin ↔
      ChecksFinished lib d req b w.detached fin ∧ w.Fresh d.request.context :=
  ⟨fun h => ⟨⟨h.isFinished, h.requested, h.mac, w.detached_fresh _⟩, h.fresh⟩,
    fun h => ⟨h.1.isFinished, h.1.requested, h.1.mac, h.2⟩⟩

theorem ChecksZeroEntry.freshIn {d : Derived} {req : Option AuthenticatorRequest} {b : Bytes}
    {w : World} {cert : CertificateMessage} {cv : CertificateVerifyMessage}
    {fin : FinishedMessage} :
    ChecksZeroEntry d req b w cert cv fin ↔
      ChecksZeroEntry d req b w.detached cert cv fin ∧ w.Fresh cert.context :=
  ⟨fun h => ⟨⟨h.isFull, h.noEntries, h.context, w.detached_fresh _⟩, h.fresh⟩,
    fun h => ⟨h.1.isFull, h.1.noEntries, h.1.context, h.2⟩⟩

theorem ChecksEntries.freshIn {d : Derived} {req : Option AuthenticatorRequest}
    {policy : Option SpontaneousAuthenticatorPolicy} {b : Bytes} {w : World}
    {cert : CertificateMessage} {cv : CertificateVerifyMessage} {fin : FinishedMessage}
    {extracted : Option Bytes} {chain : List Certificate} {leaf : Certificate} :
    ChecksEntries lib d req policy b w cert cv fin extracted chain leaf ↔
      ChecksEntries lib d req policy b w.detached cert cv fin extracted chain leaf ∧
        w.Fresh cert.context :=
  ⟨fun h => ⟨⟨h.isFull, h.context, h.entries, h.checked, h.trusted, w.detached_fresh _⟩, h.fresh⟩,
    fun h => ⟨h.1.isFull, h.1.context, h.1.entries, h.1.checked, h.1.trusted, h.2⟩⟩

inductive Prepares (d : Derived) (req : Option AuthenticatorRequest)
    (policy : Option SpontaneousAuthenticatorPolicy) (authBytes : Bytes) (w : World) :
    Pending → World → Prop
  | finished {fin} : ChecksFinished lib d req authBytes w.detached fin →
      Prepares d req policy authBytes w (.empty d.request.context) w
  | zeroEntry {cert cv fin} : ChecksZeroEntry d req authBytes w.detached cert cv fin →
      Prepares d req policy authBytes w (.empty cert.context) w
  | full {cert cv fin extracted chain leaf} :
      ChecksEntries lib d req policy authBytes w.detached cert cv fin extracted chain leaf →
      Prepares d req policy authBytes w (.full cert.context chain leaf extracted)
        (w.addChain chain)

theorem prepareFinishedOnly_ok (d : Derived) (req : Option AuthenticatorRequest)
    (hctx : d.request.context.length ≤ 255) (firstHm : HandshakeMessage) (rest : Bytes)
    (hle : firstHm.body.length ≤ 0xFFFFFF) (w : World) (p : Pending) :
    prepareFinishedOnly lib d req firstHm rest = .ok p ↔
      ∃ fin, ChecksFinished lib d req (encodeHandshake firstHm ++ rest) w.detached fin ∧
        rest = [] ∧ p = .empty d.request.context := by
  have hcert := (marshalCertificateMessage_ok ⟨d.request.context, []⟩ _).mpr
    ⟨emptyCertificate_fits hctx, rfl⟩
  simp only [prepareFinishedOnly, guard_eq_ok, bind_eq_ok, Prod.exists, hcert, Except.ok.injEq,
    hashConcat_eq, hmacSum, Bool.not_eq_true, Bool.not_eq_false', constantTimeEqual_iff,
    unmarshalFinishedMessage_ok, marshalRaw_of_le hle, List.flatten_cons, List.flatten_nil,
    List.append_nil, not_or, Option.isNone_eq_false_iff, not_not, List.length_eq_zero_iff, ne_eq]
  constructor
  · intro h
    obtain ⟨⟨hreq, rfl⟩, fin, _, ⟨hfit, hb, rfl⟩, _, rfl, hmac, hp⟩ := h
    exact ⟨fin, ⟨⟨hfit, by rw [List.append_nil, hb]⟩, hreq, hmac.symm,
      w.detached_fresh _⟩, rfl, hp.symm⟩
  · intro h
    obtain ⟨fin, h, rfl, hp⟩ := h
    have hb := h.isFinished.bytes
    rw [List.append_nil] at hb
    exact ⟨⟨h.requested, rfl⟩, fin, _, ⟨h.isFinished.finFits, hb, rfl⟩,
      _, rfl, h.mac.symm, hp.symm⟩

theorem exec_prepareFull_ok (d : Derived) (req : Option AuthenticatorRequest)
    (policy : Option SpontaneousAuthenticatorPolicy) (cert : CertificateMessage)
    (cv : CertificateVerifyMessage) (fin : FinishedMessage) (w w' : World) (p : Pending) :
    exec (prepareFull lib d req policy ⟨encodeCertificate cert, encodeCertificateVerify cv, cert,
        cv, fin⟩) w = (.ok p, w') ↔
      ∃ extracted chain leaf, (∃ leafEntry others, cert.entries = leafEntry::others ∧
          EntriesChecked req policy leafEntry others extracted) ∧
        FullChecked lib d req cert cv fin chain leaf ∧ ChainTrusted lib w chain leaf ∧
        p = .full cert.context chain leaf extracted ∧ w' = w.addChain chain := by
  rw [prepareFull, exec_lift_bind_ok]
  constructor
  · intro h
    obtain ⟨extracted, hentries, h⟩ := h
    rw [exec_lift_bind_ok] at h
    obtain ⟨⟨chain, leaf⟩, hfull, h⟩ := h
    rw [exec_bind_ok] at h
    obtain ⟨_, _, hverify, h⟩ := h
    obtain ⟨htrust, rfl⟩ := (exec_verifyChain_ok ..).mp hverify
    cases h
    exact ⟨extracted, chain, leaf, (checkEntries_ok ..).mp hentries, (checkFull_ok ..).mp hfull,
      htrust, rfl, rfl⟩
  · intro h
    obtain ⟨extracted, chain, leaf, hentries, hfull, htrust, rfl, rfl⟩ := h
    refine ⟨extracted, (checkEntries_ok ..).mpr hentries, ?_⟩
    rw [exec_lift_bind_ok]
    refine ⟨(chain, leaf), (checkFull_ok ..).mpr hfull, ?_⟩
    rw [exec_bind_ok]
    exact ⟨(), _, (exec_verifyChain_ok ..).mpr ⟨htrust, rfl⟩, rfl⟩

theorem exec_prepareValidation_sound (st : ConnectionState) (role : Role)
    (req : Option AuthenticatorRequest) (policy : Option SpontaneousAuthenticatorPolicy)
    (authBytes : Bytes) (w w' : World) (p : Pending)
    (h : exec (prepareValidation lib st role req policy authBytes) w = (.ok p, w')) :
    ∃ d, derive st role req = .ok d ∧ Prepares lib d req policy authBytes w p w' := by
  rw [prepareValidation, exec_lift_bind_ok] at h
  obtain ⟨d, hd, h⟩ := h
  refine ⟨d, hd, ?_⟩
  have hdctx := requestParts_context_le (derive_ok.mp hd).2.2
  rw [exec_lift_bind_ok] at h
  obtain ⟨⟨firstHm, rest⟩, hfirst, h⟩ := h
  obtain ⟨hle, rfl⟩ := (unmarshalHandshakeMessage_ok _ _ _).mp hfirst
  by_cases hfin : firstHm.type = handshakeTypeFinished
  · simp only [if_pos hfin, exec_lift, Prod.mk.injEq] at h
    obtain ⟨h, rfl⟩ := h
    obtain ⟨fin, hchecks, _, rfl⟩ :=
      (prepareFinishedOnly_ok lib d req hdctx firstHm rest hle w p).mp h
    exact .finished hchecks
  simp only [if_neg hfin, exec_guard_ok, not_not, exec_lift_bind_ok] at h
  obtain ⟨_, m, hm, hctx, h⟩ := h
  obtain ⟨hfull, hcb, hcvb⟩ := splitMessages_sound hle hm
  have hcontext : req.isSome → m.cert.context = d.request.context := fun hr => by
    simpa [hr] using hctx
  by_cases hnil : m.cert.entries.length = 0
  · rw [if_pos hnil] at h
    cases h
    exact .zeroEntry ⟨hfull, List.length_eq_zero_iff.mp hnil, hcontext, w.detached_fresh _⟩
  rw [if_neg hnil, show m = ⟨encodeCertificate m.cert, encodeCertificateVerify m.cv, m.cert,
    m.cv, m.fin⟩ by rw [← hcb, ← hcvb]] at h
  obtain ⟨extracted, chain, leaf, hentries, hchecked, htrust, rfl, rfl⟩ :=
    (exec_prepareFull_ok ..).mp h
  exact .full ⟨hfull, hcontext, hentries, hchecked, htrust, w.detached_fresh _⟩

section Prepared
variable (st : ConnectionState) (role : Role) {req : Option AuthenticatorRequest}
  (policy : Option SpontaneousAuthenticatorPolicy) {authBytes : Bytes} {w : World} {d : Derived}

theorem ChecksFinished.prepared {fin : FinishedMessage} (hd : derive st role req = .ok d)
    (h : ChecksFinished lib d req authBytes w.detached fin) :
    exec (prepareValidation lib st role req policy authBytes) w =
      (.ok (.empty d.request.context), w) := by
  have hb : authBytes = encodeHandshake ⟨handshakeTypeFinished, fin.verifyData⟩ ++ [] := by
    rw [List.append_nil]
    exact h.isFinished.bytes
  have hle := h.isFinished.finFits.2
  have hdctx := requestParts_context_le (derive_ok.mp hd).2.2
  rw [prepareValidation, exec_lift_bind_ok]
  refine ⟨d, hd, ?_⟩
  rw [exec_lift_bind_ok]
  refine ⟨(⟨handshakeTypeFinished, fin.verifyData⟩, []), ?_, ?_⟩
  · rw [hb]
    exact unmarshal_encodeHandshake hle []
  · simp only [if_true, exec_lift, Prod.mk.injEq, and_true]
    rw [prepareFinishedOnly_ok lib d req hdctx _ _ hle w, ← hb]
    exact ⟨fin, h, rfl, rfl⟩

/-- After the three messages have been read only the entries decide. -/
theorem IsFull.prepared {cert : CertificateMessage} {cv : CertificateVerifyMessage}
    {fin : FinishedMessage} (hd : derive st role req = .ok d) (h : IsFull authBytes cert cv fin)
    (hcontext : req.isSome → cert.context = d.request.context) :
    exec (prepareValidation lib st role req policy authBytes) w =
      exec (if cert.entries.length = 0 then pure (.empty cert.context)
        else prepareFull lib d req policy ⟨encodeCertificate cert, encodeCertificateVerify cv,
          cert, cv, fin⟩) w := by
  have hsplit := splitMessages_complete h.certFits h.cvFits h.finFits
  have hcert : ¬handshakeTypeCertificate = handshakeTypeFinished := by decide
  have hctx : ¬(req.isSome ∧ cert.context ≠ d.request.context) :=
    fun hc => hc.2 (hcontext hc.1)
  rw [prepareValidation, hd, exec_lift_ok_bind, h.first, exec_lift_ok_bind]
  dsimp only
  rw [if_neg hcert, if_neg (not_not.mpr rfl), hsplit, exec_lift_ok_bind, if_neg hctx]

end Prepared

/-- Up to the session a validation succeeds in three ways: on a lone Finished message, on a
Certificate message without entries and on a full authenticator. -/
theorem exec_prepareValidation_ok (st : ConnectionState) (role : Role)
    (req : Option AuthenticatorRequest) (policy : Option SpontaneousAuthenticatorPolicy)
    (authBytes : Bytes) (w w' : World) (p : Pending) :
    exec (prepareValidation lib st role req policy authBytes) w = (.ok p, w') ↔
      ∃ d, derive st role req = .ok d ∧ Prepares lib d req policy authBytes w p w' := by
  constructor
  · exact exec_prepareValidation_sound lib st role req policy authBytes w w' p
  · intro h
    obtain ⟨d, hd, h⟩ := h
    cases h with
    | finished h => exact h.prepared lib st role policy hd
    | zeroEntry h =>
      rw [h.isFull.prepared lib st role policy hd h.context,
        if_pos (List.length_eq_zero_iff.mpr h.noEntries)]
      rfl
    | @full cert cv fin extracted chain leaf h =>
      obtain ⟨leafEntry, others, hentries, _⟩ := h.entries
      rw [h.isFull.prepared lib st role policy hd h.context, if_neg (by simp [hentries])]
      exact (exec_prepareFull_ok ..).mpr
        ⟨extracted, chain, leaf, h.entries, h.checked, h.trusted, rfl, rfl⟩

/-- Exactly four kinds of run end with a result: those on a lone Finished message, on a
Certificate message without entries, on a full authenticator without the CMW extension and
on one with it. -/
theorem exec_validateAuthenticator_ok (st : ConnectionState) (role : Role)
    (req : Option AuthenticatorRequest) (policy : Option SpontaneousAuthenticatorPolicy)
    (attPolicy : Option VerificationPolicy) (authBytes : Bytes) (w w' : World)
    (res : ValidationResult) :
    exec (validateAuthenticator lib st role req policy attPolicy authBytes) w = (.ok res, w') ↔
      ∃ d, derive st role req = .ok d ∧
        ((∃ fin, AcceptsFinished lib d req authBytes w w' res fin) ∨
          (∃ cert cv fin, AcceptsZeroEntry d req authBytes w w' res cert cv fin) ∨
          (∃ cert cv fin chain leaf,
            AcceptsUnattested lib d req policy authBytes w w' res cert cv fin chain leaf) ∨
          (∃ cert cv fin chain leaf cmw p, AcceptsAttested lib d st req policy attPolicy authBytes
            w w' res cert cv fin chain leaf cmw p)) := by
  rw [validateAuthenticator_cut, exec_bind_ok]
  simp only [exec_prepareValidation_ok, exec_bind_ok, exec_markContextUsed_ok]
  constructor
  · intro h
    obtain ⟨p, w₁, ⟨d, hd, hp⟩, _, w₂, ⟨hfresh, rfl⟩, h⟩ := h
    refine ⟨d, hd, ?_⟩
    cases hp with
    | finished hchecks =>
      cases h
      exact .inl ⟨_, (ChecksFinished.freshIn lib).mpr ⟨hchecks, hfresh⟩, rfl, rfl⟩
    | zeroEntry hchecks =>
      cases h
      exact .inr (.inl ⟨_, _, _, ChecksZeroEntry.freshIn.mpr ⟨hchecks, hfresh⟩, rfl, rfl⟩)
    | full hchecks =>
      have hbase := (ChecksEntries.freshIn lib).mpr ⟨hchecks, fresh_addChain.mp hfresh⟩
      cases (exec_attachAttestation_ok ..).mp h with
      | inl h =>
        obtain ⟨rfl, hres, hw⟩ := h
        exact .inr (.inr (.inl ⟨_, _, _, _, _, hbase, hw, hres⟩))
      | inr h =>
        obtain ⟨cmw, p, rfl, hp, hres, hw⟩ := h
        exact .inr (.inr (.inr ⟨_, _, _, _, _, _, _, hbase, hp, hw, hres⟩))
  · intro h
    obtain ⟨d, hd, h⟩ := h
    obtain ⟨fin, h⟩ | ⟨cert, cv, fin, h⟩ | ⟨cert, cv, fin, chain, leaf, h⟩ |
      ⟨cert, cv, fin, chain, leaf, cmw, p, h⟩ := h
    · obtain ⟨hchecks, hfresh⟩ := (ChecksFinished.freshIn lib).mp h.toChecksFinished
      refine ⟨_, w, ⟨d, hd, .finished hchecks⟩, (), _, ⟨hfresh, rfl⟩, ?_⟩
      rw [h.world, h.result]
      rfl
    · obtain ⟨hchecks, hfresh⟩ := ChecksZeroEntry.freshIn.mp h.toChecksZeroEntry
      refine ⟨_, w, ⟨d, hd, .zeroEntry hchecks⟩, (), _, ⟨hfresh, rfl⟩, ?_⟩
      rw [h.world, h.result]
      rfl
    · obtain ⟨hchecks, hfresh⟩ := (ChecksEntries.freshIn lib).mp h.toChecksEntries
      exact ⟨_, _, ⟨d, hd, .full hchecks⟩, (), _, ⟨fresh_addChain.mpr hfresh, rfl⟩,
        (exec_attachAttestation_ok lib st attPolicy cert.context chain leaf none _ _ _).mpr
          (.inl ⟨rfl, h.result, h.world⟩)⟩
    · obtain ⟨hchecks, hfresh⟩ := (ChecksEntries.freshIn lib).mp h.toChecksEntries
      exact ⟨_, _, ⟨d, hd, .full hchecks⟩, (), _, ⟨fresh_addChain.mpr hfresh, rfl⟩,
        (exec_attachAttestation_ok ..).mpr (.inr ⟨cmw, p, rfl, h.payload, h.result, h.world⟩)⟩

/-- The messages of a full authenticator are determined by its bytes. -/
theorem IsFull.unique {b : Bytes} {cert cert' : CertificateMessage}
    {cv cv' : CertificateVerifyMessage} {fin fin' : FinishedMessage} (h : IsFull b cert cv fin)
    (h' : IsFull b cert' cv' fin') : cert = cert' ∧ cv = cv' ∧ fin = fin' := by
  have hb := h.first
  rw [h'.first] at hb
  simp only [Except.ok.injEq, Prod.mk.injEq] at hb
  have hs := splitMessages_complete h.certFits h.cvFits h.finFits
  rw [← hb.1, ← hb.2, splitMessages_complete h'.certFits h'.cvFits h'.finFits] at hs
  simp only [Except.ok.injEq, FullMessages.mk.injEq] at hs
  exact ⟨hs.2.2.1.symm, hs.2.2.2.1.symm, hs.2.2.2.2.symm⟩

theorem IsFinishedOnly.not_isFull {b : Bytes} {fin fin' : FinishedMessage}
    {cert : CertificateMessage} {cv : CertificateVerifyMessage} (h : IsFinishedOnly b fin)
    (h' : IsFull b cert cv fin') : False := by
  have hb := h.bytes.symm.trans h'.bytes
  simp [encodeFinished, encodeCertificate, encodeHandshake, handshakeTypeFinished,
    handshakeTypeCertificate] at hb

theorem IsFinishedOnly.unique {b : Bytes} {fin fin' : FinishedMessage}
    (h : IsFinishedOnly b fin) (h' : IsFinishedOnly b fin') : fin = fin' := by
  have hb := (unmarshalFinishedMessage_ok b fin b).mpr ⟨h.finFits, h.bytes, rfl⟩
  rw [(unmarshalFinishedMessage_ok b fin' b).mpr ⟨h'.finFits, h'.bytes, rfl⟩] at hb
  simp only [Except.ok.injEq, Prod.mk.injEq, and_true] at hb
  exact hb.symm

end
end DistributedEnclave.Ea
