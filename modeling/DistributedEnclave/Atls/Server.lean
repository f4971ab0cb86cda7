import DistributedEnclave.Ea.Soundness

/-! The attested-TLS server: framing, the request it sends, the validation of the answer
and the decision of `handleConn` to sign a certificate request. -/
namespace DistributedEnclave.Atls
open DistributedEnclave.Octets DistributedEnclave.Outcome DistributedEnclave.Ea

def frameTypeRequest : UInt8 := 1
def frameTypeAuthenticator : UInt8 := 2

def writeFrame (typ : UInt8) (payload : Bytes) : Bytes :=
  typ :: (beEncode 4 payload.length ++ payload)

def readFrame (stream : Bytes) : Except Error (UInt8 × Bytes × Bytes) :=
  if stream.length < 5 then .error .unexpectedEOF
  else do
    let header ← slice stream 0 5
    let typ ← index header 0
    if typ = 0 then .error .invalidFrameType
    else do
      let lenBytes ← slice header 1 5
      let n := beDecode lenBytes
      let body ← sliceFrom stream 5
      if body.length < n then .error .unexpectedEOF
      else do
        let payload ← slice body 0 n
        let rest ← sliceFrom body n
        .ok (typ, payload, rest)

/-- A frame that is written is read back, and the rest of the stream stays unread. -/
theorem readFrame_writeFrame {typ : UInt8} {payload : Bytes} (htyp : typ ≠ 0)
    (hlen : payload.length < 256^4) (rest : Bytes) :
    readFrame (writeFrame typ payload ++ rest) = .ok (typ, payload, rest) := by
  obtain ⟨lb, hlb⟩ : ∃ lb, lb = beEncode 4 payload.length := ⟨_, rfl⟩
  have hlen4 : lb.length = 4 := by rw [hlb, beEncode_length]
  have hdec : beDecode lb = payload.length := by rw [hlb, beDecode_beEncode_of_lt hlen]
  have hstream : writeFrame typ payload ++ rest = typ::lb ++ (payload ++ rest) := by
    simp [writeFrame, hlb]
  have hheader : slice (typ::lb ++ (payload ++ rest)) 0 5 = .ok (typ::lb) :=
    @slice_append [] (typ::lb) (payload ++ rest) 0 5 rfl (by simp [hlen4])
  have hbody : sliceFrom (typ::lb ++ (payload ++ rest)) 5 = .ok (payload ++ rest) :=
    sliceFrom_append (by simp [hlen4])
  have hindex : index (typ::lb) 0 = .ok typ := rfl
  have hlenBytes : slice (typ::lb) 1 5 = .ok lb := by
    have := @slice_append [typ] lb [] 1 5 rfl (by rw [hlen4])
    simpa using this
  have hpayload : slice (payload ++ rest) 0 payload.length = .ok payload := by
    rw [slice_zero (by simp), List.take_left]
  rw [hstream, readFrame, if_neg (by simp [hlen4])]
  simp only [hheader, hindex, hlenBytes, hbody, hdec, ok_bind, if_neg htyp, hpayload,
    sliceFrom_append rfl]
  rw [if_neg (by simp)]

structure ServerConfig where
  hasTLSConfig : Bool
  attestationPolicy : VerificationPolicy
  request : Option AuthenticatorRequest
  requestBuilder : Option (Except Nat AuthenticatorRequest)

structure Transport where
  handshake : Except Nat ConnectionState
  random : Nat → Except Nat Bytes
  write : Bytes → Except Nat Unit
  incoming : Bytes

structure Conn where
  request : AuthenticatorRequest
  validationResult : Option ValidationResult

def newRandomContext (random : Nat → Except Nat Bytes) (n : Nat) : Except Error Bytes :=
  if n ≤ 0 ∨ n > 255 then .error .errInvalidLength else fromLibrary (random n)

def buildRequest (random : Nat → Except Nat Bytes) (cfg : ServerConfig) :
    Except Error AuthenticatorRequest :=
  match cfg.requestBuilder, cfg.request with
  | some build, _ => fromLibrary build
  | none, some req => .ok req
  | none, none => do
    let ctx ← newRandomContext random 32
    let sigExt ← signatureAlgorithmsExtension [ecdsaWithP256AndSHA256]
    .ok ⟨handshakeTypeCertificateRequest, ctx, [sigExt, cmwAttestationOfferExtension]⟩

def server (lib : Library) (t : Transport) (cfg : Option ServerConfig) : Run Conn :=
  match cfg with
  | none => throw .missingServerConfig
  | some cfg =>
    if !cfg.hasTLSConfig then throw .missingServerConfig
    else do
      let st ← liftM (fromLibrary t.handshake)
      let req ← liftM (buildRequest t.random cfg)
      let reqBytes ← liftM (marshalRequest req)
      liftM (fromLibrary (t.write (writeFrame frameTypeRequest reqBytes)))
      let (frameType, authBytes, _) ← liftM (readFrame t.incoming)
      if frameType ≠ frameTypeAuthenticator then throw (.unexpectedFrameType frameType)
      else do
        let res ← validateAuthenticator lib st .client (some req) none
          (some cfg.attestationPolicy) authBytes
        pure ⟨req, some res⟩

def Conn.attested (conn : Conn) : Bool := conn.validationResult.isSome

inductive Handled where
  | notATLS | attestationRequired | readFailed (code : Nat) | signCSR (csrPEM : String)
  deriving DecidableEq, Repr

def csrLines : List String → List String
  | [] => []
  | line::lines =>
    if line = "-----END CERTIFICATE REQUEST-----" then [line] else line::csrLines lines

def handleConn (conn : Option Conn) (scanned : List String) (scanErr : Option Nat) : Handled :=
  match conn with
  | none => .notATLS
  | some c =>
    if !c.attested then .attestationRequired
    else
      match scanErr with
      | some code => .readFailed code
      | none => .signCSR (String.intercalate "\n" (csrLines scanned) ++ "\n")

def mainConfig (verifier : Bytes → Bytes → Except Error Unit) : ServerConfig where
  hasTLSConfig := true
  attestationPolicy := ⟨some verifier, none⟩
  request := none
  requestBuilder := none

/-- The head node gives neither a session nor verify options; its verifiers may have been
called before, on other connections. -/
def mainWorld (calls : List EvidenceCall) : World := ⟨none, none, calls, []⟩

section
variable (lib : Library)

/-- On this connection the verifier accepted non-empty evidence with the report data of
the accepted authenticator's leaf and context. -/
def EvidenceAccepted (verifier : Bytes → Bytes → Except Error Unit) (conn : Conn)
    (w w' : World) : Prop :=
  ∃ res leaf rest pub calls call, conn.validationResult = some res ∧ res.chain = leaf::rest ∧
    publicKeyBytes lib leaf = .ok pub ∧ w'.evidenceCalls = w.evidenceCalls ++ calls ∧
    call ∈ calls ∧ call.accepted = true ∧ call.evidence ≠ [] ∧
    call.expectedReportData = lib.sha512 (pub ++ res.context) ∧
    verifier call.evidence call.expectedReportData = .ok ()

/-- The three forms of authenticator that pass without evidence: the lone Finished
message, the Certificate message without entries, and the full authenticator whose leaf
entry lacks the CMW extension. -/
def EvidenceFree (d : Derived) (req : AuthenticatorRequest) (authBytes : Bytes) (w : World) :
    Prop :=
  (∃ fin, ChecksFinished lib d (some req) authBytes w fin) ∨
  (∃ cert cv fin, ChecksZeroEntry d (some req) authBytes w cert cv fin) ∨
  (∃ cert cv fin chain leaf,
    ChecksEntries lib d (some req) none authBytes w cert cv fin none chain leaf)

structure Delivered (t : Transport) (cfg : ServerConfig) (st : ConnectionState)
    (req : AuthenticatorRequest) (authBytes : Bytes) : Prop where
  tlsConfig : cfg.hasTLSConfig = true
  handshake : t.handshake = .ok st
  request : buildRequest t.random cfg = .ok req
  sent : ∃ reqBytes, marshalRequest req = .ok reqBytes ∧
    t.write (writeFrame frameTypeRequest reqBytes) = .ok ()
  frame : ∃ rest, readFrame t.incoming = .ok (frameTypeAuthenticator, authBytes, rest)

theorem exec_server_ok (t : Transport) (cfg : ServerConfig) (w w' : World) (conn : Conn) :
    exec (server lib t (some cfg)) w = (.ok conn, w') ↔
      ∃ st req authBytes res, Delivered t cfg st req authBytes ∧
        exec (validateAuthenticator lib st .client (some req) none (some cfg.attestationPolicy)
          authBytes) w = (.ok res, w') ∧ conn = ⟨req, some res⟩ := by
  rw [server, exec_guard_ok]
  simp only [exec_bind_ok, exec_lift, exec_guard_ok, exec_pure, Prod.mk.injEq, Prod.exists,
    fromLibrary_ok, Bool.not_eq_true, Bool.not_eq_false', not_not, ne_eq, Except.ok.injEq]
  constructor
  · intro h
    obtain ⟨hcfg, st, _, ⟨hst, rfl⟩, req, _, ⟨hreq, rfl⟩, reqBytes, _, ⟨hbytes, rfl⟩, _, _,
      ⟨hwrite, rfl⟩, _, authBytes, rest, _, ⟨hframe, rfl⟩, rfl, res, _, hrun, rfl, rfl⟩ := h
    exact ⟨st, req, authBytes, res, ⟨hcfg, hst, hreq, ⟨reqBytes, hbytes, hwrite⟩, rest, hframe⟩,
      hrun, rfl⟩
  · intro h
    obtain ⟨st, req, authBytes, res, ⟨hcfg, hst, hreq, ⟨reqBytes, hbytes, hwrite⟩, rest, hframe⟩,
      hrun, rfl⟩ := h
    exact ⟨hcfg, st, w, ⟨hst, rfl⟩, req, w, ⟨hreq, rfl⟩, reqBytes, w, ⟨hbytes, rfl⟩, (), w,
      ⟨hwrite, rfl⟩, _, authBytes, rest, w, ⟨hframe, rfl⟩, rfl, res, w', hrun, rfl, rfl⟩

/-- The server signs exactly for the connections it computes `attested` for. -/
theorem handleConn_signCSR (conn : Conn) (scanned : List String) :
    (∃ csr, handleConn (some conn) scanned none = .signCSR csr) ↔ conn.attested = true := by
  cases h : conn.attested <;> simp [handleConn, h]

theorem EvidenceFree.runs {st : ConnectionState} {d : Derived} {req : AuthenticatorRequest}
    {authBytes : Bytes} {w : World} (hd : derive st .client (some req) = .ok d)
    (h : EvidenceFree lib d req authBytes w) (attPolicy : Option VerificationPolicy) :
    ∃ res w', exec (validateAuthenticator lib st .client (some req) none attPolicy authBytes) w =
      (.ok res, w') ∧ w'.evidenceCalls = w.evidenceCalls := by
  rcases h with ⟨fin, h⟩ | ⟨cert, cv, fin, h⟩ | ⟨cert, cv, fin, chain, leaf, h⟩
  · exact ⟨_, _, (exec_validateAuthenticator_ok ..).mpr ⟨d, hd, .inl ⟨fin, h, rfl, rfl⟩⟩, rfl⟩
  · exact ⟨_, _, (exec_validateAuthenticator_ok ..).mpr
      ⟨d, hd, .inr (.inl ⟨cert, cv, fin, h, rfl, rfl⟩)⟩, rfl⟩
  · exact ⟨_, _, (exec_validateAuthenticator_ok ..).mpr
      ⟨d, hd, .inr (.inr (.inl ⟨cert, cv, fin, chain, leaf, h, rfl, rfl⟩))⟩, rfl⟩

/-- Without a results verifier, an accepted CMW payload is accepted evidence. -/
theorem attested_evidence {d : Derived} {st : ConnectionState} {req : AuthenticatorRequest}
    {verifier : Bytes → Bytes → Except Error Unit} {authBytes : Bytes} {w w' : World}
    {res : ValidationResult} {cert : CertificateMessage} {cv : CertificateVerifyMessage}
    {fin : FinishedMessage} {chain : List Certificate} {leaf : Certificate} {cmw : Bytes}
    {p : Payload}
    (h : AcceptsAttested lib d st (some req) none (some (mainConfig verifier).attestationPolicy)
      authBytes w w' res cert cv fin chain leaf cmw p) :
    EvidenceAccepted lib verifier ⟨req, some res⟩ w w' := by
  have hresults : p.attestationResults = [] := by
    by_contra hne
    obtain ⟨pol, verify, hpol, hverify, _⟩ := h.payload.results lib hne
    cases hpol
    cases hverify
  have hevidence : p.evidence ≠ [] := by
    have := ((Payload.validate_ok p).mp (parsePayload_validate lib h.payload.parsed)).1
    rcases this with he | hr
    · exact he
    · exact absurd hresults hr
  obtain ⟨pol, verify, pub, hpol, hverify, hpub, hok⟩ := h.payload.evidence lib hevidence
  cases hpol
  cases hverify
  obtain ⟨rest, hchain⟩ := h.checked.leafFirst
  have hrd : computeReportData lib cert.context leaf = .ok (lib.sha512 (pub ++ cert.context)) :=
    (computeReportData_ok lib).mpr ⟨pub, hpub, rfl⟩
  have hcalls : evidenceCallsOf lib cert.context leaf p =
      [⟨p.evidence, lib.sha512 (pub ++ cert.context), true⟩] := by
    rw [evidenceCallsOf, if_neg hevidence, hrd]
  refine ⟨res, leaf, rest, pub, evidenceCallsOf lib cert.context leaf p,
    ⟨p.evidence, lib.sha512 (pub ++ cert.context), true⟩, rfl, by rw [h.result, hchain], hpub,
    by rw [h.world]; rfl, by rw [hcalls]; simp, rfl, hevidence, by rw [h.result], hok⟩

theorem not_evidenceAccepted {verifier : Bytes → Bytes → Except Error Unit} {conn : Conn}
    {w w' : World} (h : w'.evidenceCalls = w.evidenceCalls) :
    ¬EvidenceAccepted lib verifier conn w w' := by
  intro h
  obtain ⟨_, _, _, _, calls, call, _, _, _, hcalls, hmem, _⟩ := h
  rw [h, List.self_eq_append_right] at hcalls
  rw [hcalls] at hmem
  cases hmem

/-- Certificates are signed only for verified evidence on exactly those runs whose
authenticator has none of the three evidence-free forms. -/
theorem server_attested_iff (t : Transport) (verifier : Bytes → Bytes → Except Error Unit)
    (calls : List EvidenceCall) :
    (∀ conn w', exec (server lib t (some (mainConfig verifier))) (mainWorld calls) =
        (.ok conn, w') → conn.attested = true →
        EvidenceAccepted lib verifier conn (mainWorld calls) w') ↔
      ¬∃ st req authBytes d, Delivered t (mainConfig verifier) st req authBytes ∧
        derive st .client (some req) = .ok d ∧
        EvidenceFree lib d req authBytes (mainWorld calls) := by
  constructor
  · intro hall h
    obtain ⟨st, req, authBytes, d, hdel, hd, hfree⟩ := h
    obtain ⟨res, w', hrun, hcalls⟩ :=
      hfree.runs lib hd (some (mainConfig verifier).attestationPolicy)
    have hserver := (exec_server_ok lib t (mainConfig verifier) (mainWorld calls) w' _).mpr
      ⟨st, req, authBytes, res, hdel, hrun, rfl⟩
    exact not_evidenceAccepted lib hcalls (hall _ _ hserver rfl)
  · intro hno conn w' hserver _
    obtain ⟨st, req, authBytes, res, hdel, hrun, rfl⟩ := (exec_server_ok ..).mp hserver
    obtain ⟨d, hd, h⟩ := (exec_validateAuthenticator_ok ..).mp hrun
    have hnot : ¬EvidenceFree lib d req authBytes (mainWorld calls) := fun hfree =>
      hno ⟨st, req, authBytes, d, hdel, hd, hfree⟩
    rcases h with ⟨fin, h⟩ | ⟨cert, cv, fin, h⟩ | ⟨cert, cv, fin, chain, leaf, h⟩ |
      ⟨cert, cv, fin, chain, leaf, cmw, p, h⟩
    · exact absurd (.inl ⟨fin, h.toChecksFinished⟩) hnot
    · exact absurd (.inr (.inl ⟨cert, cv, fin, h.toChecksZeroEntry⟩)) hnot
    · exact absurd (.inr (.inr ⟨cert, cv, fin, chain, leaf, h.toChecksEntries⟩)) hnot
    · exact attested_evidence lib h

end

def finishedOnlyTransport : Transport where
  handshake := .ok sampleState
  random n := .ok (List.replicate n 0x2A)
  write _ := .ok ()
  incoming := [0x02, 0,0,0,0x24, 0x14,0,0,0x20] ++ padTo 32 [0x09]

/-- The lone Finished message is answered with a signed certificate; the verifier, which
would have rejected everything, is never called. -/
theorem finishedOnly_attested :
    ∃ conn, exec (server paddingLibrary finishedOnlyTransport
        (some (mainConfig fun _ _ => .error .errMissingStatement))) (mainWorld []) =
        (.ok conn, mainWorld []) ∧ conn.attested = true ∧
      ¬EvidenceAccepted paddingLibrary (fun _ _ => .error .errMissingStatement) conn
        (mainWorld []) (mainWorld []) := by
  have hrun : exec (validateAuthenticator paddingLibrary sampleState .client
      (some ⟨handshakeTypeCertificateRequest, List.replicate 32 0x2A,
        [⟨signatureAlgorithmsExtensionType, [0x00, 0x02, 0x04, 0x03]⟩,
          cmwAttestationOfferExtension]⟩) none
      (some (mainConfig fun _ _ => .error .errMissingStatement).attestationPolicy)
      ([0x14,0,0,0x20] ++ padTo 32 [0x09])) (mainWorld []) =
      (.ok ⟨List.replicate 32 0x2A, [], [], none, true⟩, mainWorld []) := by
    decide +kernel
  refine ⟨_, (exec_server_ok ..).mpr ⟨sampleState, _, _, _,
    ⟨rfl, rfl, rfl, ⟨_, rfl, rfl⟩, [], by decide +kernel⟩, hrun, rfl⟩, rfl,
    not_evidenceAccepted paddingLibrary rfl⟩

end DistributedEnclave.Atls
