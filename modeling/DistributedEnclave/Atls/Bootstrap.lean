import DistributedEnclave.Atls.Client
import DistributedEnclave.Atls.Framing
import DistributedEnclave.Ea.Frames
import DistributedEnclave.Ea.RoundTrip

/-! A worker and the head node together: the worker that can answer gets a certificate for its
key. -/
namespace DistributedEnclave.Atls
open Ea Octets Outcome Transition

section Lines

def newline : UInt8 := '\n'.toUInt8

def unlines (lines : List Bytes) : Bytes := lines.flatMap (· ++ [newline])

structure PlainLine (line : Bytes) : Prop where
  noNewline : newline ∉ line
  noCR : line.getLast? ≠ some '\r'.toUInt8
  short : line.length < maxScanTokenSize

variable {readErr : Option Nat} {line : Bytes} {lines : List Bytes}

theorem scanLines_line (hnewline : newline ∉ line) (begun : Bytes)
    (hshort : (begun ++ line).length < maxScanTokenSize) (rest : Bytes) :
    scanLines readErr begun (line ++ newline :: rest) =
      (dropCR (begun ++ line) :: (scanLines readErr [] rest).1, (scanLines readErr [] rest).2) := by
  induction line generalizing begun with
  | nil =>
    rw [List.append_nil] at hshort ⊢
    rw [List.nil_append, scanLines, if_neg hshort.ne]
    exact if_pos rfl
  | cons c line ih =>
    have hc : c ≠ newline := fun heq => hnewline (heq ▸ List.mem_cons_self)
    have hmem : newline ∉ line := fun h => hnewline (List.mem_cons_of_mem c h)
    have hlength : begun.length ≠ maxScanTokenSize := by
      rw [List.length_append, List.length_cons] at hshort
      omega
    rw [List.append_cons] at hshort
    rw [List.cons_append, scanLines, if_neg hlength, List.append_cons begun c line]
    exact (if_neg hc).trans (ih hmem (begun ++ [c]) hshort)

theorem dropCR_plain (h : PlainLine line) : dropCR line = line := if_neg h.noCR

/-- The lines of a text are read back, and the scanner goes on behind them. -/
theorem scanLines_unlines (h : ∀ line ∈ lines, PlainLine line) (rest : Bytes) :
    scanLines readErr [] (unlines lines ++ rest) =
      (lines ++ (scanLines readErr [] rest).1, (scanLines readErr [] rest).2) := by
  induction lines with
  | nil => rfl
  | cons line lines ih =>
    have hline := h line List.mem_cons_self
    have hlines := ih fun l hl => h l (List.mem_cons_of_mem line hl)
    have hsplit : unlines (line :: lines) ++ rest = line ++ newline :: (unlines lines ++ rest) := by
      simp [unlines]
    rw [hsplit, scanLines_line hline.noNewline [] hline.short, List.nil_append,
      dropCR_plain hline, hlines]
    rfl

theorem csrLines_end {front : List String} (h : csrEnd ∉ front) (rest : List String) :
    csrLines (front ++ csrEnd :: rest) = front ++ [csrEnd] := by
  induction front with
  | nil => exact if_pos rfl
  | cons line front ih =>
    have hline : line ≠ csrEnd := fun heq => h (heq ▸ List.mem_cons_self)
    have hfront := ih fun hmem => h (List.mem_cons_of_mem line hmem)
    calc csrLines (line :: (front ++ csrEnd :: rest))
        = line :: csrLines (front ++ csrEnd :: rest) := if_neg hline
      _ = line :: (front ++ [csrEnd]) := by rw [hfront]

theorem chars_goString (b : Bytes) : Cluster.chars (goString b) = b := by
  rw [Cluster.chars, goString, String.toList_ofList, List.map_map]
  refine (List.map_congr_left fun c _ => toUInt8_ofNat c).trans (List.map_id b)

theorem chars_append (s t : String) :
    Cluster.chars (s ++ t) = Cluster.chars s ++ Cluster.chars t := by
  rw [Cluster.chars, String.toList_append, List.map_append]
  rfl

theorem chars_join (lines : List Bytes) (hne : lines ≠ []) :
    Cluster.chars (String.intercalate "\n" (lines.map goString) ++ "\n") = unlines lines := by
  induction lines with
  | nil => exact absurd rfl hne
  | cons line lines ih =>
    cases lines with
    | nil =>
      rw [List.map_singleton, String.intercalate_singleton, chars_append, chars_goString]
      exact (List.append_nil _).symm
    | cons next lines =>
      have hlines := ih (List.cons_ne_nil next lines)
      rw [chars_append, List.map_cons] at hlines
      rw [List.map_cons, List.map_cons, String.intercalate_cons_cons, chars_append, chars_append,
        chars_append, chars_goString, List.append_assoc, List.append_assoc, hlines]
      simp [unlines, newline, Cluster.chars]

end Lines

def serverExtensions : List Extension :=
  [⟨signatureAlgorithmsExtensionType, [0x00, 0x02, 0x04, 0x03]⟩, cmwAttestationOfferExtension]

def serverRequest (ctx : Bytes) : AuthenticatorRequest :=
  ⟨handshakeTypeCertificateRequest, ctx, serverExtensions⟩

def requestStream (ctx : Bytes) : Bytes :=
  writeFrame frameTypeRequest (encodeRequest (serverRequest ctx))

section Answer
variable {lib : Library} {sg : Producer} {host : WorkerHost} {worker : Worker}
  {st : ConnectionState} {ctx : Bytes} {dialed : Dialed}

theorem serverExtensions_fit : (encodeExtensionList serverExtensions).length ≤ 0xFFFF := by
  decide

theorem serverRequest_fits (h : ctx.length ≤ 255) : (serverRequest ctx).Fits :=
  ⟨.inl rfl, h, serverExtensions_fit⟩

theorem buildRequest_main {random : Nat → Except Nat Bytes} (h : random 32 = .ok ctx)
    {verifier : Bytes → Bytes → Except Error Unit} :
    buildRequest random (mainConfig verifier) = .ok (serverRequest ctx) := by
  have hsignature : signatureAlgorithmsExtension [ecdsaWithP256AndSHA256] =
      .ok ⟨signatureAlgorithmsExtensionType, [0x00, 0x02, 0x04, 0x03]⟩ := rfl
  have hrandom : newRandomContext random 32 = .ok ctx := by
    rw [newRandomContext, if_neg (by decide), h]
    rfl
  simp only [buildRequest, mainConfig, hrandom, hsignature, ok_bind]
  rfl

theorem readFrame_requestStream (h : ctx.length ≤ 255) (rest : Bytes) :
    readFrame (requestStream ctx ++ rest) =
      .ok (frameTypeRequest, encodeRequest (serverRequest ctx), rest) := by
  have hmarshal := (marshalRequest_ok _ _).mpr ⟨serverRequest_fits h, rfl⟩
  exact readFrame_writeFrame (by decide) (Framing.marshalRequest_lt hmarshal) rest

structure Answers (lib : Library) (sg : Producer) (host : WorkerHost) (worker : Worker)
    (st : ConnectionState) (ctx authBytes : Bytes) : Prop where
  handshake : host.handshake (verifyPeerCertificate worker.pinnedDER) = .ok st
  extensions : ∃ leaf der ders exts, worker.identity.certificate = der :: ders ∧
    lib.parseCertificate der = .ok leaf ∧
    attesterLeafExtensions lib sg host.device worker.useSEVSNP st (serverRequest ctx) leaf =
      .ok exts ∧
    ∃ w, exec (createAuthenticator lib sg st .client (some (serverRequest ctx)) none
      worker.identity exts) ⟨none, none, [], []⟩ = (.ok authBytes, w)
  key : worker.identity.privateKey ≠ none
  written : host.write (writeFrame frameTypeAuthenticator authBytes) = .ok ()

theorem resolveClientIdentity_ok {cfg : ClientConfig} (hnone : cfg.certificates = [])
    {identity : Identity} :
    resolveClientIdentity cfg = .ok identity ↔
      cfg.identity.certificate ≠ [] ∧ cfg.identity.privateKey ≠ none ∧
        cfg.identity = identity := by
  rw [resolveClientIdentity, hnone]
  by_cases h : cfg.identity.certificate ≠ [] ∧ cfg.identity.privateKey ≠ none
  · rw [if_pos h, Except.ok.injEq]
    exact ⟨fun heq => ⟨h.1, h.2, heq⟩, fun hidentity => hidentity.2.2⟩
  · rw [if_neg h]
    refine iff_of_false ?_ fun hidentity => h ⟨hidentity.1, hidentity.2.1⟩
    cases cfg.hasTLSConfig with
    | false => simp
    | true => simp

theorem buildClientExtensions_config {req : AuthenticatorRequest} {exts : List Extension} :
    buildClientExtensions lib (worker.config lib sg host) st req worker.identity = .ok exts ↔
      ∃ leaf der ders, worker.identity.certificate = der :: ders ∧
        lib.parseCertificate der = .ok leaf ∧
        attesterLeafExtensions lib sg host.device worker.useSEVSNP st req leaf = .ok exts := by
  simp only [buildClientExtensions, Worker.config]
  cases hcert : worker.identity.certificate with
  | nil => simp
  | cons der ders =>
    simp only [mapError_ok, bind_eq_ok, fromLibrary_ok, List.cons.injEq]
    constructor
    · intro h
      obtain ⟨leaf, hleaf, hexts⟩ := h
      exact ⟨leaf, der, ders, ⟨rfl, rfl⟩, hleaf, hexts⟩
    · intro h
      obtain ⟨leaf, der', ders', ⟨rfl, rfl⟩, hleaf, hexts⟩ := h
      exact ⟨leaf, hleaf, hexts⟩

/-- What the client makes of the request, whatever follows it. -/
theorem clientRequest_ok (hctx : ctx.length ≤ 255) (rest : Bytes)
    {x : ConnectionState × AuthenticatorRequest × Identity × List Extension × Bytes} :
    clientRequest lib (worker.transport host (requestStream ctx ++ rest))
        (worker.config lib sg host) = .ok x ↔
      ∃ st exts, host.handshake (verifyPeerCertificate worker.pinnedDER) = .ok st ∧
        worker.identity.privateKey ≠ none ∧
        (∃ leaf der ders, worker.identity.certificate = der :: ders ∧
          lib.parseCertificate der = .ok leaf ∧
          attesterLeafExtensions lib sg host.device worker.useSEVSNP st (serverRequest ctx) leaf =
            .ok exts) ∧
        x = (st, serverRequest ctx, worker.identity, exts, rest) := by
  have hcertificates : (worker.config lib sg host).certificates = [] := rfl
  have hunmarshal : unmarshalAuthenticatorRequest (encodeRequest (serverRequest ctx)) =
      .ok (serverRequest ctx, []) :=
    (unmarshalAuthenticatorRequest_ok _ _ _).mpr
      ⟨serverRequest_fits hctx, (List.append_nil _).symm⟩
  simp only [clientRequest, Worker.transport, readFrame_requestStream hctx, bind_eq_ok,
    mapError_ok, fromLibrary_ok, Except.ok.injEq, guard_eq_ok, resolveClientIdentity_ok hcertificates,
    Prod.exists]
  constructor
  · intro h
    obtain ⟨st, hst, _, _, _, hframe, _, req, left, hreq, _, identity, ⟨_, hkey, hidentity⟩, exts,
      hexts, hx⟩ := h
    cases hframe
    rw [hunmarshal] at hreq
    cases hreq
    subst hidentity
    cases hx
    exact ⟨st, exts, hst, hkey, buildClientExtensions_config.mp hexts, rfl⟩
  · intro h
    obtain ⟨st, exts, hst, hkey, hexts, rfl⟩ := h
    have hcert : worker.identity.certificate ≠ [] := by
      obtain ⟨_, _, _, hcert, _⟩ := hexts
      rw [hcert]
      exact List.cons_ne_nil _ _
    exact ⟨st, hst, _, _, _, rfl, not_not.mpr rfl, _, _, hunmarshal, not_not.mpr rfl, _,
      ⟨hcert, hkey, rfl⟩, exts, buildClientExtensions_config.mpr hexts, rfl⟩

/-- The worker answers to the request whatever follows it. -/
theorem Worker.dial_ok (hctx : ctx.length ≤ 255) (rest : Bytes) :
    worker.dial lib sg host (requestStream ctx ++ rest) = .ok dialed ↔
      ∃ st authBytes, Answers lib sg host worker st ctx authBytes ∧
        dialed = ⟨writeFrame frameTypeAuthenticator authBytes, rest⟩ := by
  have htls : ¬(!(worker.config lib sg host).hasTLSConfig) = true := Bool.false_ne_true
  rw [Worker.dial, client, if_neg htls]
  constructor
  · intro h
    cases hrequest : clientRequest lib (worker.transport host (requestStream ctx ++ rest))
        (worker.config lib sg host) with
    | error e =>
      rw [hrequest] at h
      cases h
    | ok x =>
      obtain ⟨st, exts, hst, hkey, ⟨leaf, der, ders, hcert, hleaf, hexts⟩, rfl⟩ :=
        (clientRequest_ok hctx rest).mp hrequest
      rw [hrequest] at h
      dsimp only at h
      cases hcreate : exec (createAuthenticator lib sg st .client (some (serverRequest ctx)) none
          worker.identity exts) ⟨none, none, [], []⟩ with
      | mk r w =>
        rw [hcreate] at h
        cases r with
        | error e => cases h
        | ok authBytes =>
          dsimp only [Worker.transport] at h
          cases hwrite : host.write (writeFrame frameTypeAuthenticator authBytes) with
          | error code =>
            rw [hwrite] at h
            cases h
          | ok =>
            rw [hwrite] at h
            cases h
            exact ⟨st, authBytes,
              ⟨hst, ⟨leaf, der, ders, exts, hcert, hleaf, hexts, w, hcreate⟩, hkey, hwrite⟩, rfl⟩
  · intro h
    obtain ⟨st, authBytes, ⟨hst, ⟨leaf, der, ders, exts, hcert, hleaf, hexts, w, hcreate⟩, hkey,
      hwrite⟩, rfl⟩ := h
    have hrequest : clientRequest lib (worker.transport host (requestStream ctx ++ rest))
        (worker.config lib sg host) =
        .ok (st, serverRequest ctx, worker.identity, exts, rest) :=
      (clientRequest_ok hctx rest).mpr ⟨st, exts, hst, hkey,
        ⟨leaf, der, ders, hcert, hleaf, hexts⟩, rfl⟩
    rw [hrequest]
    dsimp only [Worker.transport]
    rw [hcreate]
    dsimp only
    rw [hwrite]

/-- The leaf extensions wrap a payload that the verifier of the head node accepts. -/
theorem attesterLeafExtensions_wraps {verifier : Bytes → Bytes → Except Error Unit}
    {leaf : Certificate} {exts : List Extension}
    (h : attesterLeafExtensions lib sg host.device worker.useSEVSNP st (serverRequest ctx) leaf =
      .ok exts)
    (hverifier : ∀ reportData e,
      evidenceFetcher host.device worker.useSEVSNP reportData = .ok e →
      verifier e.bytes reportData = .ok ()) :
    ∃ cmw p, WrapsPayload lib sg st (some (mainConfig verifier).attestationPolicy) ctx leaf exts
      cmw p := by
  simp only [attesterLeafExtensions, buildAttesterLeafExtensions, bind_eq_ok, fromLibrary_ok,
    pure_eq_ok, Except.ok.injEq] at h
  obtain ⟨b, hb, reportData, hreport, evidence, hevidence, cmw, hcmw, e, he, rfl⟩ := h
  refine ⟨cmw, _, ⟨[], e, [], rfl, he, ?_⟩, hcmw, ⟨b, hb, rfl⟩, ?_, ?_⟩
  · intro x hx
    cases hx
  · intro _
    exact ⟨verifier, reportData, rfl, hreport, hverifier reportData evidence hevidence⟩
  · intro hresults
    exact absurd rfl hresults

/-- The authenticator of the worker is accepted, with its evidence. -/
theorem Answers.validated {authBytes : Bytes} (h : Answers lib sg host worker st ctx authBytes)
    (hjson : ∀ p raw, sg.marshalJSON p = .ok raw → lib.unmarshalPayload raw = some p)
    {leaf : Certificate} {issuers : List Certificate}
    (hchain : HasChain lib sg worker.identity leaf issuers)
    {verifier : Bytes → Bytes → Except Error Unit}
    (hverifier : ∀ reportData e,
      evidenceFetcher host.device worker.useSEVSNP reportData = .ok e →
      verifier e.bytes reportData = .ok ())
    {w : World} (hsession : w.session = none) (hopts : w.verifyOpts = none) :
    ∃ res w', exec (validateAuthenticator lib st .client (some (serverRequest ctx)) none
        (some (mainConfig verifier).attestationPolicy) authBytes) w = (.ok res, w') ∧
      res.chain = leaf :: issuers ∧ res.attestation.isSome := by
  obtain ⟨leaf', der, ders, exts, hcert, hleaf, hexts, w₁, hcreate⟩ := h.extensions
  have hsame : leaf' = leaf := by
    have hparsed := hchain.parsed
    rw [hcert] at hparsed
    cases hparsed with
    | cons hder _ => exact Except.ok.inj (hleaf.symm.trans hder)
  subst hsame
  obtain ⟨cmw, p, hwraps⟩ := attesterLeafExtensions_wraps hexts hverifier
  obtain ⟨c, hbytes, _⟩ := (exec_createAuthenticator_ok ..).mp hcreate
  obtain ⟨_, hpermit, d, hd, _, hform⟩ := (createBytes_ok ..).mp hbytes
  have hderive : derive st .client (some (serverRequest ctx)) = .ok d :=
    derive_ok.mpr ⟨hd.handshakeContext, hd.finishedKey, hd.request⟩
  obtain ⟨_, _, hctx, hoffered⟩ := requestParts_some hd.request
  have hfresh : w.Fresh d.request.context := by
    intro used hused
    rw [hsession] at hused
    cases hused
  cases hform with
  | inl hempty => exact absurd hempty.noCertificate hchain.certificate_ne
  | inr hfull =>
    obtain ⟨priv, cert, cv, hfull⟩ := hfull
    have hchecks := hfull.checks none hchain hoffered hpermit hwraps.extracted hopts hfresh
    have hcontext : cert.context = ctx := by
      rw [hfull.cert_eq]
      exact hctx
    have hpayload := hwraps.checked hjson
    rw [← hcontext] at hpayload
    have hrun := (exec_validateAuthenticator_ok lib st .client (some (serverRequest ctx)) none
      (some (mainConfig verifier).attestationPolicy) authBytes w _ _).mpr ⟨d, hderive,
        .inr (.inr (.inr ⟨cert, cv, _, _, _, _, _, hchecks, hpayload, rfl, rfl⟩))⟩
    exact ⟨_, _, hrun, rfl, rfl⟩

end Answer

section Head
variable {lib : Library} {pki : Pki} {verifier : Bytes → Bytes → Except Error Unit}
  {s s' : HeadNode}

def Bare (w : World) : Prop := w.session = none ∧ w.verifyOpts = none

theorem server_preserves (t : Transport) (cfg : Option ServerConfig) :
    Preserves Bare (server lib t cfg) := by
  have hlog : ∀ w ev rs, Bare w → Bare { w with evidenceCalls := ev, resultsCalls := rs } :=
    fun w ev rs hw => hw
  have hadd : ∀ w chain, Bare w → Bare (World.addChain w chain) := by
    intro w chain hw
    exact ⟨hw.1, by rw [World.addChain, hw.2]; rfl⟩
  have hmark : ∀ ctx, Preserves Bare (markContextUsed ctx) := by
    intro ctx w hw
    rw [markContextUsed, exec_bind, exec_get]
    simp only [hw.1]
    exact hw
  cases cfg with
  | none => exact .throw _
  | some cfg =>
    refine .ite (.throw _) (.bind (.lift _) fun st => .bind (.lift _) fun req => ?_)
    refine .bind (.lift _) fun reqBytes => .bind (.lift _) fun _ => .bind (.lift _) fun frame => ?_
    refine .ite (.throw _) (.bind ?_ fun res => .pure _)
    rw [validateAuthenticator_cut]
    exact .bind (prepareValidation_preserves lib st hadd _ _ _ _) fun p =>
      .bind (hmark p.context) fun _ => finishValidation_preserves lib st hlog _ p

theorem HeadStep.bare (hs : Bare s.world) (hstep : HeadStep pki lib verifier s s') :
    Bare s'.world := by
  cases hstep with
  | @accept t conn w _ hrun =>
    have hw : Bare (exec (server lib t (some (mainConfig verifier))) s.world).2 :=
      server_preserves t (some (mainConfig verifier)) s.world hs
    rw [hrun] at hw
    exact hw
  | @refuse t e w hrun =>
    have hw : Bare (exec (server lib t (some (mainConfig verifier))) s.world).2 :=
      server_preserves t (some (mainConfig verifier)) s.world hs
    rw [hrun] at hw
    exact hw
  | serve => exact hs
  | draw => exact hs
  | create => exact hs
  | notCreated => exact hs
  | sendCert => exact hs
  | sendCA => exact hs
  | certNotSent => exact hs
  | caNotSent => exact hs

structure RequestText (csrPEM : Bytes) : Prop where
  lines : ∃ front, csrEnd ∉ front.map goString ∧ (∀ line ∈ front, PlainLine line) ∧
    csrPEM = unlines (front ++ [Cluster.chars csrEnd])

theorem csrEnd_plain : PlainLine (Cluster.chars csrEnd) := by
  refine ⟨?_, ?_, ?_⟩ <;> decide

theorem goString_csrEnd : goString (Cluster.chars csrEnd) = csrEnd := by decide

/-- The head node signs the request that it is sent, whatever becomes of the connection. -/
theorem readCSR_text {csrPEM : Bytes} (h : RequestText csrPEM) {conn : Conn}
    (hattested : conn.attested = true) (readErr : Option Nat) :
    ∃ text, readCSR conn csrPEM readErr = .signCSR text ∧ Cluster.chars text = csrPEM := by
  obtain ⟨front, hfront, hplain, rfl⟩ := h.lines
  have hlines : ∀ line ∈ front ++ [Cluster.chars csrEnd], PlainLine line := by
    intro line hline
    rw [List.mem_append, List.mem_singleton] at hline
    cases hline with
    | inl hmem => exact hplain line hmem
    | inr heq => exact heq ▸ csrEnd_plain
  have hscan : scanLines readErr [] (unlines (front ++ [Cluster.chars csrEnd])) =
      (front ++ [Cluster.chars csrEnd], (scanLines readErr [] []).2) := by
    have hrest : scanLines readErr [] (unlines (front ++ [Cluster.chars csrEnd]) ++ []) = _ :=
      scanLines_unlines hlines []
    have hnone : (scanLines readErr [] []).1 = [] := rfl
    rw [List.append_nil, hnone, List.append_nil] at hrest
    exact hrest
  have hscanned : (front ++ [Cluster.chars csrEnd]).map goString =
      front.map goString ++ [csrEnd] := by
    rw [List.map_append, List.map_singleton, goString_csrEnd]
  have hmem : csrEnd ∈ front.map goString ++ [csrEnd] := by simp
  refine ⟨_, ?_, chars_join (front ++ [Cluster.chars csrEnd]) (by simp)⟩
  rw [readCSR, hscan]
  dsimp only
  rw [hscanned, if_pos hmem, handleConn, if_neg (by simp [hattested]), csrLines_end hfront]

theorem set_last (old : List Handler) (h h' : Handler) :
    (old ++ [h]).set old.length h' = old ++ [h'] := by
  simp

theorem update_last (ca : IssuingCA) (w : World) (old : List Handler) (h h' : Handler) :
    (⟨ca, w, old ++ [h]⟩ : HeadNode).update old.length h' = ⟨ca, w, old ++ [h']⟩ :=
  congrArg (HeadNode.mk ca w) (set_last old h h')

structure Issues (pki : Pki) (s : HeadNode) (remoteAddr : String) (csrPEM : Bytes)
    (csr : CertificateRequest) (ips : List Bytes) (now : Int) (der : Bytes) : Prop where
  text : RequestText csrPEM
  request : csrToIssue pki csrPEM (pki.splitHost remoteAddr) = .ok (csr, ips)
  created : ∃ certRandom, pki.createCertificate certRandom
    (leafTemplate (s.ca.counter+1) now csr.commonName ips) s.ca.cert csr.publicKey s.ca.key = .ok der

/-- The goroutine of a connection can go through to its end. -/
theorem handler_serves {t : Transport} {conn : Conn} {w : World} {remoteAddr : String}
    {csrPEM : Bytes} {csr : CertificateRequest} {ips : List Bytes} {now : Int} {der : Bytes}
    (haccept : exec (server lib t (some (mainConfig verifier))) s.world = (.ok conn, w))
    (hattested : conn.attested = true)
    (h : Issues pki s remoteAddr csrPEM csr ips now der) :
    ∃ s' handler, Relation.ReflTransGen (HeadStep pki lib verifier) s s' ∧
      s'.handlers = s.handlers ++ [handler] ∧ handler.conn = conn ∧ handler.received = csrPEM ∧
      handler.issued = some
        (leafTemplate (s.ca.counter+1) now csr.commonName ips, csr.publicKey, der) ∧
      handler.written = certificatePEM pki der ++ s.ca.certPEM := by
  obtain ⟨text, hread, htext⟩ := readCSR_text h.text hattested none
  obtain ⟨certRandom, hcreated⟩ := h.created
  have hlast : ∀ h' : Handler, (s.handlers ++ [h'])[s.handlers.length]? = some h' := by
    simp
  have hserve : Handler.serve pki { conn, remoteAddr } csrPEM none =
      { conn, remoteAddr, received := csrPEM, stage := .drawing csr ips } := by
    rw [Handler.serve, hread]
    dsimp only
    rw [htext, h.request]
  have haccepted : Relation.ReflTransGen (HeadStep pki lib verifier) s
      { s with world := w, handlers := s.handlers ++ [{ conn, remoteAddr }] } :=
    .single (.accept haccept)
  have hserving : HeadStep pki lib verifier
      { s with world := w, handlers := s.handlers ++ [{ conn, remoteAddr }] }
      (HeadNode.update ⟨s.ca, w, s.handlers ++ [({ conn, remoteAddr } : Handler)]⟩
        s.handlers.length (Handler.serve pki { conn, remoteAddr } csrPEM none)) :=
    .serve (hlast _) rfl
  have hserved := haccepted.tail hserving
  rw [update_last, hserve] at hserved
  have hdrawn := hserved.tail (.draw (hlast _) rfl)
  rw [set_last] at hdrawn
  have hissued := hdrawn.tail (.create (hlast _) rfl hcreated)
  rw [update_last] at hissued
  have hsent := hissued.tail (.sendCert (hlast _) rfl)
  rw [update_last] at hsent
  have hdone := hsent.tail (.sendCA (hlast _) rfl)
  rw [update_last] at hdone
  exact ⟨_, _, hdone, rfl, rfl, rfl, rfl, rfl⟩

end Head

section Bootstrap
variable {lib : Library} {sg : Producer} {pki : Pki} {verifier : Bytes → Bytes → Except Error Unit}
  {host : WorkerHost} {worker : Worker} {t : Transport} {ctx : Bytes} {s : HeadNode}

structure Meets (lib : Library) (sg : Producer) (verifier : Bytes → Bytes → Except Error Unit)
    (host : WorkerHost) (worker : Worker) (t : Transport) (ctx : Bytes) : Prop where
  handshake : host.handshake (verifyPeerCertificate worker.pinnedDER) = t.handshake
  random : t.random 32 = .ok ctx
  context : ctx.length = 32
  sends : ∀ b, t.write b = .ok ()
  certificate : ∃ leaf issuers, HasChain lib sg worker.identity leaf issuers
  evidence : ∀ reportData e, evidenceFetcher host.device worker.useSEVSNP reportData = .ok e →
    verifier e.bytes reportData = .ok ()

structure Installs (pki : Pki) (host : WorkerHost) (worker : Worker) (caPEM der keyDER : Bytes) :
    Prop where
  sends : host.write worker.csrPEM = .ok ()
  certificate : pki.decode (certificatePEM pki der ++ caPEM) = some (⟨"CERTIFICATE", [], der⟩, caPEM)
  ca : ∃ block rest, pki.decode caPEM = some (block, rest) ∧ pki.encodeToMemory block = caPEM
  key : pki.marshalECPrivateKey worker.key = .ok keyDER
  writes : ∀ path mode data, host.writeFile path mode data = .ok ()

def workerFiles (pki : Pki) (der keyDER caPEM : Bytes) : List Written :=
  [⟨"/root/ray-worker.crt", 0o644, certificatePEM pki der⟩,
    ⟨"/root/ray-worker.key", 0o600, pki.encodeToMemory { type := "EC PRIVATE KEY", bytes := keyDER }⟩,
    ⟨"/root/ca.crt", 0o644, caPEM⟩]

theorem Installs.install {caPEM der keyDER : Bytes} (h : Installs pki host worker caPEM der keyDER) :
    worker.install pki host (certificatePEM pki der ++ caPEM) =
      .ok (workerFiles pki der keyDER caPEM) := by
  obtain ⟨block, rest, hca, hencode⟩ := h.ca
  have hsplit : splitCerts pki (certificatePEM pki der ++ caPEM) =
      .ok (certificatePEM pki der, caPEM) := by
    rw [splitCerts, h.certificate]
    dsimp only
    rw [hca]
    dsimp only
    rw [hencode]
    rfl
  have hwrites : ∀ files : List Written,
      (files.forM fun file => host.writeFileOr file.path file.mode file.data) = .ok () := by
    intro files
    induction files with
    | nil => rfl
    | cons file files ih =>
      have hfile : host.writeFileOr file.path file.mode file.data = .ok () := by
        rw [WorkerHost.writeFileOr, h.writes]
        rfl
      change (host.writeFileOr file.path file.mode file.data >>= fun _ =>
        files.forM fun file => host.writeFileOr file.path file.mode file.data) = .ok ()
      rw [hfile]
      exact ih
  rw [Worker.install, hsplit, h.key]
  simp only [ok_mapError, ok_bind, hwrites]
  rfl

/-- What has come of a connection: the worker has sent the same whatever it would read after the
request, the head node has accepted its evidence and issued a certificate for its request, and the
worker has this certificate. -/
structure Bootstrapped (lib : Library) (sg : Producer) (pki : Pki)
    (verifier : Bytes → Bytes → Except Error Unit) (host : WorkerHost) (t : Transport)
    (ctx : Bytes) (s s' : HeadNode) (handler : Handler) (issued : Template × Key × Bytes)
    (files : List Written) (sent : Bytes) : Prop where
  answer : ∀ rest readErr, (run lib sg pki host (requestStream ctx ++ rest) readErr).1 = sent
  accepted : ∃ w, exec (server lib { t with incoming := sent } (some (mainConfig verifier)))
    s.world = (.ok handler.conn, w)
  attested : ∃ res, handler.conn.validationResult = some res ∧ res.attestation.isSome
  received : ∃ authBytes, sent = writeFrame frameTypeAuthenticator authBytes ++ handler.received
  steps : Relation.ReflTransGen (HeadStep pki lib verifier) s s'
  handlers : s'.handlers = s.handlers ++ [handler]
  issued : handler.issued = some issued
  files : (run lib sg pki host (requestStream ctx ++ handler.written) none).2 = .ok files

/-- A worker that can answer the head node gets the certificate for its request, whatever other
connections there are. -/
theorem worker_bootstrapped {headIP : String}
    (hs : Reachable (HeadStarted pki headIP) (HeadStep pki lib verifier) s)
    (hjson : ∀ p raw, sg.marshalJSON p = .ok raw → lib.unmarshalPayload raw = some p)
    (hprepared : host.prepare pki = .ok worker) (hmeets : Meets lib sg verifier host worker t ctx)
    {dialed : Dialed} (hdialed : worker.dial lib sg host (requestStream ctx) = .ok dialed)
    {remoteAddr : String} {csr : CertificateRequest} {ips : List Bytes} {now : Int}
    {der keyDER : Bytes} (hissues : Issues pki s remoteAddr worker.csrPEM csr ips now der)
    (hinstalls : Installs pki host worker s.ca.certPEM der keyDER) :
    ∃ s' handler sent, Bootstrapped lib sg pki verifier host t ctx s s' handler
      (leafTemplate (s.ca.counter+1) now csr.commonName ips, csr.publicKey, der)
      (workerFiles pki der keyDER s.ca.certPEM) sent := by
  have hcontext : ctx.length ≤ 255 := by
    rw [hmeets.context]
    decide
  have hbare : Bare s.world := by
    refine hs.invariant ?_ fun s s' hbare hstep => hstep.bare hbare
    intro s hstart
    rw [hstart.world]
    exact ⟨rfl, rfl⟩
  obtain ⟨leaf, issuers, hchain⟩ := hmeets.certificate
  rw [← List.append_nil (requestStream ctx)] at hdialed
  obtain ⟨st, authBytes, hanswers, _⟩ := (Worker.dial_ok hcontext []).mp hdialed
  have hrun : ∀ rest readErr, run lib sg pki host (requestStream ctx ++ rest) readErr =
      (writeFrame frameTypeAuthenticator authBytes ++ worker.csrPEM,
        readErr.elim (worker.install pki host rest) fun code => .error (.readCerts code)) := by
    intro rest readErr
    have hdial := (Worker.dial_ok hcontext rest).mpr ⟨st, authBytes, hanswers, rfl⟩
    rw [run, hprepared]
    dsimp only
    rw [hdial]
    dsimp only
    cases readErr with
    | none => simp only [hinstalls.sends, Option.elim]
    | some code => simp only [hinstalls.sends, Option.elim]
  obtain ⟨res, w, hvalidated, hres, hattested⟩ :=
    hanswers.validated hjson hchain hmeets.evidence hbare.1 hbare.2
  let sent := writeFrame frameTypeAuthenticator authBytes ++ worker.csrPEM
  have hdelivered : Delivered { t with incoming := sent } (mainConfig verifier) st
      (serverRequest ctx) authBytes := by
    refine ⟨rfl, hmeets.handshake.symm.trans hanswers.handshake, ?_, ?_, worker.csrPEM, ?_⟩
    · exact buildRequest_main hmeets.random
    · exact ⟨_, (marshalRequest_ok _ _).mpr ⟨serverRequest_fits hcontext, rfl⟩, hmeets.sends _⟩
    · obtain ⟨_, _, _, _, _, _, _, _, hcreate⟩ := hanswers.extensions
      exact readFrame_writeFrame (by decide) (Framing.createAuthenticator_lt hcreate) _
  have haccept := (exec_server_ok lib { t with incoming := sent } (mainConfig verifier) s.world w
    ⟨serverRequest ctx, some res⟩).mpr ⟨st, _, authBytes, res, hdelivered, hvalidated, rfl⟩
  obtain ⟨s', handler, hsteps, hhandlers, hconn, hreceived, hissued, hwritten⟩ :=
    handler_serves haccept rfl hissues
  refine ⟨s', handler, sent, fun rest readErr => by rw [hrun], ⟨w, hconn ▸ haccept⟩,
    ⟨res, hconn ▸ rfl, hattested⟩, ⟨authBytes, by rw [hreceived]⟩, hsteps, hhandlers, hissued, ?_⟩
  rw [hrun, hwritten]
  exact hinstalls.install

end Bootstrap

def dummyPayload (evidence : Bytes) : Payload :=
  ⟨1, "application/octet-stream", evidence, [], ⟨padTo 32 [0x30], padTo 32 [0x30, 0x07]⟩⟩

def readingLibrary : Library :=
  { paddingLibrary with unmarshalPayload := fun raw => some (dummyPayload raw) }

def writingProducer : Producer :=
  { paddingProducer with
    marshalJSON := fun p => if p = dummyPayload p.evidence then .ok p.evidence else .error 2 }

def armourPki : Pki :=
  { plainPki with
    encodeToMemory := fun block => unlines [Cluster.chars ("-----BEGIN " ++ block.type ++ "-----"),
      block.bytes, Cluster.chars ("-----END " ++ block.type ++ "-----")]
    decode := fun text =>
      match (scanLines none [] text).1 with
      | start :: bytes :: _ :: rest =>
        some (⟨goString ((start.drop 11).take (start.length-16)), [], bytes⟩, unlines rest)
      | _ => none }

def plainHost : WorkerHost where
  settings := ⟨fun _ => [], fun _ => .error 0⟩
  device := ⟨.error 0, fun _ => .error 0, fun _ => .error 0⟩
  generateKey := .ok (.ecdsa "P-256" [0x4B], .ecdsa [0x4B])
  createCertificateRequest _ _ := .ok [0x4B]
  generateCertificate := .ok sampleIdentity
  readPinned := .ok (certificatePEM armourPki [0x50])
  handshake verify := if verify [[0x50]] then .ok sampleState else .error 0
  write _ := .ok ()
  writeFile _ _ _ := .ok ()

def plainWorker : Worker where
  useSEVSNP := false
  key := .ecdsa "P-256" [0x4B]
  csrPEM := armourPki.encodeToMemory ⟨"CERTIFICATE REQUEST", [], [0x4B]⟩
  identity := sampleIdentity
  pinnedDER := [0x50]

def dummyVerifier : Bytes → Bytes → Except Error Unit := fun evidence _ =>
  if evidence = Cluster.chars "dummy-attestation-report" then .ok () else .error .errMissingStatement

def plainCA : IssuingCA := ⟨caTemplate 0, .ecdsa "P-256" [], certificatePEM armourPki [1], 2⟩

def plainContext : Bytes := List.replicate 32 0x2A

theorem plain_started : HeadStarted armourPki "" ⟨plainCA, mainWorld [], []⟩ :=
  ⟨rfl, rfl, [], [], 0, [], [], 0, { plainCA with counter := 1 },
    (certificatePEM armourPki [2], armourPki.encodeToMemory ⟨"EC PRIVATE KEY", [], []⟩), rfl, rfl⟩

theorem plain_issues : Issues armourPki ⟨plainCA, mainWorld [], []⟩ "" plainWorker.csrPEM
    ⟨.ecdsa [0x4B], "fort-ray-worker", [0x4B]⟩ [] 0 [3] := by
  have hstart : PlainLine (Cluster.chars "-----BEGIN CERTIFICATE REQUEST-----") := by
    refine ⟨?_, ?_, ?_⟩ <;> decide
  have hbytes : PlainLine [0x4B] := by
    refine ⟨?_, ?_, ?_⟩ <;> decide
  refine ⟨⟨[Cluster.chars "-----BEGIN CERTIFICATE REQUEST-----", [0x4B]], by decide, ?_, rfl⟩, rfl,
    [], rfl⟩
  intro line hline
  cases hline with
  | head => exact hstart
  | tail _ hline =>
    cases hline with
    | head => exact hbytes
    | tail _ hline => cases hline

theorem plain_meets : Meets readingLibrary writingProducer dummyVerifier plainHost plainWorker
    finishedOnlyTransport plainContext where
  handshake := rfl
  random := rfl
  context := rfl
  sends _ := rfl
  certificate := by
    refine ⟨sampleLeaf, [], .cons rfl .nil, fun priv hpriv => ?_⟩
    cases hpriv
    intro digest sig hsig
    cases hsig
    rfl
  evidence reportData e he := by
    cases he
    rfl

theorem plain_installs : Installs armourPki plainHost plainWorker plainCA.certPEM [3] [] where
  sends := rfl
  certificate := rfl
  ca := ⟨⟨"CERTIFICATE", [], [1]⟩, [], rfl, rfl⟩
  key := rfl
  writes _ _ _ := rfl

/-- The first worker of a head node gets the certificate with number 3. -/
theorem plain_worker_bootstrapped : ∃ s' handler sent,
    Bootstrapped readingLibrary writingProducer armourPki dummyVerifier plainHost
      finishedOnlyTransport plainContext ⟨plainCA, mainWorld [], []⟩ s' handler
      (leafTemplate 3 0 "fort-ray-worker" [], .ecdsa [0x4B], [3])
      (workerFiles armourPki [3] [] plainCA.certPEM) sent := by
  have hdials : (plainWorker.dial readingLibrary writingProducer plainHost
      (requestStream plainContext)).isOk = true := by
    decide +kernel
  cases hdialed : plainWorker.dial readingLibrary writingProducer plainHost
      (requestStream plainContext) with
  | error e =>
    rw [hdialed] at hdials
    cases hdials
  | ok dialed =>
    refine worker_bootstrapped (.start plain_started) ?_ rfl plain_meets hdialed plain_issues
      plain_installs
    intro p raw hraw
    simp only [writingProducer] at hraw
    split at hraw
    · rename_i hp
      cases hraw
      exact congrArg some hp.symm
    · cases hraw

end DistributedEnclave.Atls
