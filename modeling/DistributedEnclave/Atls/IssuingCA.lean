import DistributedEnclave.Atls.Server
import DistributedEnclave.Cluster.Primitives
import DistributedEnclave.Ea.Creation
import DistributedEnclave.Tickets
import DistributedEnclave.Transition

/-! The CA of the head node: it issues certificates to the connections that have attested, each
of which is handled by a goroutine of its own. -/
namespace DistributedEnclave.Atls
open Ea Octets Outcome Tickets Transition

structure Block where
  type : String
  headers : List (String × String) := []
  bytes : Bytes

structure CertificateRequest where
  publicKey : Key
  commonName : String
  raw : Bytes

inductive KeyUsage where
  | digitalSignature | keyEncipherment | certSign | crlSign
  deriving DecidableEq

inductive ExtKeyUsage where
  | serverAuth | clientAuth
  deriving DecidableEq

/-- The fields of `x509.Certificate` that are set for a new certificate. Times are in seconds. -/
structure Template where
  serialNumber : Int
  commonName : String
  notBefore : Int
  notAfter : Int
  isCA : Bool := false
  keyUsage : List KeyUsage
  extKeyUsage : List ExtKeyUsage := []
  basicConstraintsValid : Bool := false
  ipAddresses : List Bytes := []

/-- The Go libraries for certificates. What a function draws at random is its first argument.
`splitHost` is empty for an address without a port. -/
structure Pki where
  decode : Bytes → Option (Block × Bytes)
  encodeToMemory : Block → Bytes
  parseCertificateRequest : Bytes → Except Nat CertificateRequest
  checkSignature : CertificateRequest → Except Nat Unit
  parseIP : String → Option Bytes
  splitHost : String → String
  generateKey : Bytes → Except Nat (PrivateKey × Key)
  createCertificate : Bytes → Template → Template → Key → PrivateKey → Except Nat Bytes
  parseCertificate : Bytes → Except Nat Template
  marshalECPrivateKey : PrivateKey → Except Nat Bytes

structure IssuingCA where
  cert : Template
  key : PrivateKey
  certPEM : Bytes
  counter : Int64

inductive IssueError where
  | noPEMBlock | parseCSR (code : Nat) | csrSignature (code : Nat) | caKey (code : Nat)
  | caCert (code : Nat) | library (code : Nat)
  deriving DecidableEq

def day : Int := 86400

def caTemplate (now : Int) : Template where
  serialNumber := 1
  commonName := "Fort Ray CA"
  notBefore := now-60
  notAfter := now+day
  isCA := true
  keyUsage := [.certSign, .crlSign]
  basicConstraintsValid := true

def leafTemplate (serial : Int64) (now : Int) (cn : String) (ips : List Bytes) : Template where
  serialNumber := serial.toInt
  commonName := cn
  notBefore := now-60
  notAfter := now+day
  keyUsage := [.digitalSignature, .keyEncipherment]
  extKeyUsage := [.serverAuth, .clientAuth]
  ipAddresses := ips

variable (pki : Pki)

def certificatePEM (der : Bytes) : Bytes := pki.encodeToMemory { type := "CERTIFICATE", bytes := der }

def library {α : Type} (e : Nat → IssueError) (x : Except Nat α) : Except IssueError α := x.mapError e

def newIssuingCA (keyRandom certRandom : Bytes) (now : Int) : Except IssueError IssuingCA := do
  let (key, pub) ← library .caKey (pki.generateKey keyRandom)
  let tmpl := caTemplate now
  let der ← library .caCert (pki.createCertificate certRandom tmpl tmpl pub key)
  let cert ← library .library (pki.parseCertificate der)
  pure ⟨cert, key, certificatePEM pki der, 1⟩

/-- `issue` draws a number before it can fail. -/
def issue (ca : IssuingCA) (certRandom : Bytes) (now : Int) (pub : Key) (cn : String)
    (ips : List Bytes) : Except IssueError Bytes × IssuingCA :=
  let serial := ca.counter+1
  let der := library .library
    (pki.createCertificate certRandom (leafTemplate serial now cn ips) ca.cert pub ca.key)
  (der.map (certificatePEM pki), { ca with counter := serial })

/-- The part of `signCSR` before `issue`. -/
def csrToIssue (csrPEM : Bytes) (workerIP : String) :
    Except IssueError (CertificateRequest × List Bytes) :=
  match pki.decode csrPEM with
  | none => .error .noPEMBlock
  | some (block, _) => do
    let csr ← library .parseCSR (pki.parseCertificateRequest block.bytes)
    library .csrSignature (pki.checkSignature csr)
    pure (csr, (pki.parseIP workerIP).toList)

def bridgeIP : String := "192.168.100.1"

def headIPs (headIP : String) : List Bytes :=
  (pki.parseIP headIP).toList ++
    (if headIP ≠ bridgeIP then [(pki.parseIP bridgeIP).getD []] else [])

def issueHeadCert (ca : IssuingCA) (keyRandom certRandom : Bytes) (now : Int) (headIP : String) :
    Except IssueError (Bytes × Bytes) × IssuingCA :=
  match library .library (pki.generateKey keyRandom) with
  | .error e => (.error e, ca)
  | .ok (key, pub) =>
    let (cert, ca) := issue pki ca certRandom now pub "fort-ray-head" (headIPs pki headIP)
    let pems := do
      let certPEM ← cert
      let keyDER ← library .library (pki.marshalECPrivateKey key)
      pure (certPEM, pki.encodeToMemory { type := "EC PRIVATE KEY", bytes := keyDER })
    (pems, ca)

section Lines

def goString (b : Bytes) : String := String.ofList (b.map fun c => Char.ofNat c.toNat)

def maxScanTokenSize : Nat := 65536

def errTooLong : Nat := 0

def dropCR (line : Bytes) : Bytes :=
  if line.getLast? = some '\r'.toUInt8 then line.dropLast else line

def scanLines (readErr : Option Nat) : Bytes → Bytes → List Bytes × Option Nat
  | line, [] =>
    if line.length = maxScanTokenSize then ([], some errTooLong)
    else (if line = [] then [] else [dropCR line], readErr)
  | line, c :: rest =>
    if line.length = maxScanTokenSize then ([], some errTooLong)
    else if c = '\n'.toUInt8 then
      let (lines, err) := scanLines readErr [] rest
      (dropCR line :: lines, err)
    else scanLines readErr (line ++ [c]) rest

def csrEnd : String := "-----END CERTIFICATE REQUEST-----"

/-- What `handleConn` makes of what it is sent: the scanner goes no further than the end of a
certificate request, so that an error behind it is not seen. -/
def readCSR (conn : Conn) (stream : Bytes) (readErr : Option Nat) : Handled :=
  let (lines, err) := scanLines readErr [] stream
  let scanned := lines.map goString
  handleConn (some conn) scanned (if csrEnd ∈ scanned then none else err)

end Lines

inductive Stage where
  | started
  | drawing (csr : CertificateRequest) (ips : List Bytes)
  | creating (csr : CertificateRequest) (ips : List Bytes) (serial : Int64)
  | sendingCert (workerCert : Bytes)
  | sendingCA
  | closed

structure Handler where
  conn : Conn
  remoteAddr : String
  stage : Stage := .started
  received : Bytes := []
  serial : Option Int64 := none
  issued : Option (Template × Key × Bytes) := none
  written : Bytes := []

def Handler.serve (h : Handler) (stream : Bytes) (readErr : Option Nat) : Handler :=
  match readCSR h.conn stream readErr with
  | .signCSR csrPEM =>
    match csrToIssue pki (Cluster.chars csrPEM) (pki.splitHost h.remoteAddr) with
    | .ok (csr, ips) => { h with received := stream, stage := .drawing csr ips }
    | .error _ => { h with received := stream, stage := .closed }
  | _ => { h with received := stream, stage := .closed }

structure HeadNode where
  ca : IssuingCA
  world : World
  handlers : List Handler := []

def HeadNode.update (s : HeadNode) (i : Nat) (h : Handler) : HeadNode :=
  { s with handlers := s.handlers.set i h }

variable (lib : Library) (verifier : Bytes → Bytes → Except Error Unit)

/-- One step of the accept loop, which runs the handshakes itself, or of a goroutine. A write may
fail after any part of it. -/
inductive HeadStep : HeadNode → HeadNode → Prop
  | accept {s t conn w remoteAddr}
    (h : exec (server lib t (some (mainConfig verifier))) s.world = (.ok conn, w)) :
    HeadStep s { s with world := w, handlers := s.handlers ++ [{ conn, remoteAddr }] }
  | refuse {s t e w}
    (h : exec (server lib t (some (mainConfig verifier))) s.world = (.error e, w)) :
    HeadStep s { s with world := w }
  | serve {s i h stream readErr} (hi : s.handlers[i]? = some h) (hstage : h.stage = .started) :
    HeadStep s (s.update i (h.serve pki stream readErr))
  | draw {s i h csr ips} (hi : s.handlers[i]? = some h) (hstage : h.stage = .drawing csr ips) :
    HeadStep s
      { s with
        ca := { s.ca with counter := s.ca.counter+1 }
        handlers := s.handlers.set i { h with
          stage := .creating csr ips (s.ca.counter+1)
          serial := some (s.ca.counter+1) } }
  | create {s i h csr ips serial certRandom now der} (hi : s.handlers[i]? = some h)
    (hstage : h.stage = .creating csr ips serial)
    (hder : pki.createCertificate certRandom (leafTemplate serial now csr.commonName ips) s.ca.cert
      csr.publicKey s.ca.key = .ok der) :
    HeadStep s (s.update i { h with
      stage := .sendingCert (certificatePEM pki der)
      issued := some (leafTemplate serial now csr.commonName ips, csr.publicKey, der) })
  | notCreated {s i h csr ips serial certRandom now e} (hi : s.handlers[i]? = some h)
    (hstage : h.stage = .creating csr ips serial)
    (hder : pki.createCertificate certRandom (leafTemplate serial now csr.commonName ips) s.ca.cert
      csr.publicKey s.ca.key = .error e) :
    HeadStep s (s.update i { h with stage := .closed })
  | sendCert {s i h workerCert} (hi : s.handlers[i]? = some h)
    (hstage : h.stage = .sendingCert workerCert) :
    HeadStep s (s.update i { h with stage := .sendingCA, written := h.written ++ workerCert })
  | sendCA {s i h} (hi : s.handlers[i]? = some h) (hstage : h.stage = .sendingCA) :
    HeadStep s (s.update i { h with stage := .closed, written := h.written ++ s.ca.certPEM })
  | certNotSent {s i h workerCert} (n : Nat) (hi : s.handlers[i]? = some h)
    (hstage : h.stage = .sendingCert workerCert) :
    HeadStep s
      (s.update i { h with stage := .closed, written := h.written ++ workerCert.take n })
  | caNotSent {s i h} (n : Nat) (hi : s.handlers[i]? = some h) (hstage : h.stage = .sendingCA) :
    HeadStep s
      (s.update i { h with stage := .closed, written := h.written ++ s.ca.certPEM.take n })

/-- What `main` does before it listens. -/
structure HeadStarted (headIP : String) (s : HeadNode) : Prop where
  world : s.world = mainWorld []
  handlers : s.handlers = []
  ca : ∃ keyRandom certRandom now headKeyRandom headCertRandom headNow ca pems,
    newIssuingCA pki keyRandom certRandom now = .ok ca ∧
    issueHeadCert pki ca headKeyRandom headCertRandom headNow headIP = (.ok pems, s.ca)

section Issued
variable {pki lib verifier} {s s' : HeadNode} {h : Handler} {ca : IssuingCA}

def Handler.Requested (pki : Pki) (h : Handler) (csr : CertificateRequest) (ips : List Bytes) :
    Prop :=
  ∃ readErr csrPEM, readCSR h.conn h.received readErr = .signCSR csrPEM ∧
    csrToIssue pki (Cluster.chars csrPEM) (pki.splitHost h.remoteAddr) = .ok (csr, ips)

def Handler.Certified (pki : Pki) (ca : IssuingCA) (h : Handler) (der : Bytes) : Prop :=
  ∃ csr ips serial now certRandom, h.Requested pki csr ips ∧ h.serial = some serial ∧
    h.issued = some (leafTemplate serial now csr.commonName ips, csr.publicKey, der) ∧
    pki.createCertificate certRandom (leafTemplate serial now csr.commonName ips) ca.cert
      csr.publicKey ca.key = .ok der

def Handler.Progress (pki : Pki) (ca : IssuingCA) (h : Handler) : Prop :=
  match h.stage with
  | .started => h.serial = none ∧ h.issued = none ∧ h.written = []
  | .drawing csr ips => h.serial = none ∧ h.issued = none ∧ h.written = [] ∧
      h.Requested pki csr ips
  | .creating csr ips serial => h.serial = some serial ∧ h.issued = none ∧ h.written = [] ∧
      h.Requested pki csr ips
  | .sendingCert workerCert => ∃ der, h.Certified pki ca der ∧ h.written = [] ∧
      workerCert = certificatePEM pki der
  | .sendingCA => ∃ der, h.Certified pki ca der ∧ h.written = certificatePEM pki der
  | .closed => h.issued = none ∧ h.written = [] ∨
      ∃ der, h.Certified pki ca der ∧ h.written <+: certificatePEM pki der ++ ca.certPEM

def Handler.Admitted (lib : Library) (verifier : Bytes → Bytes → Except Error Unit)
    (h : Handler) : Prop :=
  ∃ t w w', exec (server lib t (some (mainConfig verifier))) w = (.ok h.conn, w')

structure HeadNode.Inv (pki : Pki) (lib : Library)
    (verifier : Bytes → Bytes → Except Error Unit) (s : HeadNode) : Prop where
  tickets : Valid 2 s.ca.counter (s.handlers.map Handler.serial)
  admitted : ∀ h ∈ s.handlers, h.Admitted lib verifier
  progress : ∀ h ∈ s.handlers, h.Progress pki s.ca

theorem HeadNode.Inv.arrive {h : Handler} {w : World} (hs : s.Inv pki lib verifier)
    (hserial : h.serial = none) (hadmitted : h.Admitted lib verifier)
    (hprogress : h.Progress pki s.ca) :
    { s with world := w, handlers := s.handlers ++ [h] }.Inv pki lib verifier := by
  refine ⟨?_, fun h' hh => ?_, fun h' hh => ?_⟩
  · rw [List.map_append, List.map_singleton, hserial]
    exact hs.tickets.arrive
  · rw [List.mem_append, List.mem_singleton] at hh
    cases hh with
    | inl hold => exact hs.admitted h' hold
    | inr hnew => exact hnew ▸ hadmitted
  · rw [List.mem_append, List.mem_singleton] at hh
    cases hh with
    | inl hold => exact hs.progress h' hold
    | inr hnew => exact hnew ▸ hprogress

/-- A step of a goroutine that draws no number concerns no other connection. -/
theorem HeadNode.Inv.update {i : Nat} {h h' : Handler} (hs : s.Inv pki lib verifier)
    (hi : s.handlers[i]? = some h) (hserial : h'.serial = h.serial) (hconn : h'.conn = h.conn)
    (hprogress : h.Progress pki s.ca → h'.Progress pki s.ca) :
    (s.update i h').Inv pki lib verifier := by
  have hmem : h ∈ s.handlers := List.mem_of_getElem? hi
  obtain ⟨hlt, hget⟩ := List.getElem?_eq_some_iff.mp hi
  have hsame : (s.handlers.set i h').map Handler.serial = s.handlers.map Handler.serial := by
    have hlt' : i < (s.handlers.map Handler.serial).length := by rwa [List.length_map]
    have hmap : h'.serial = (s.handlers.map Handler.serial).get ⟨i, hlt'⟩ := by
      rw [List.get_eq_getElem, List.getElem_map, hget, hserial]
    rw [List.map_set, hmap, List.get_eq_getElem, List.set_getElem_self]
  refine ⟨?_, fun h'' hh => ?_, fun h'' hh => ?_⟩
  · change Valid 2 s.ca.counter ((s.handlers.set i h').map Handler.serial)
    rw [hsame]
    exact hs.tickets
  · cases List.mem_or_eq_of_mem_set hh with
    | inl hold => exact hs.admitted h'' hold
    | inr hnew =>
      obtain ⟨t, w, w', hrun⟩ := hs.admitted h hmem
      exact ⟨t, w, w', by rw [hnew, hconn, hrun]⟩
  · cases List.mem_or_eq_of_mem_set hh with
    | inl hold => exact hs.progress h'' hold
    | inr hnew => exact hnew ▸ hprogress (hs.progress h hmem)

theorem HeadNode.Inv.draw {i : Nat} {h : Handler} {csr : CertificateRequest} {ips : List Bytes}
    (hs : s.Inv pki lib verifier) (hroom : 2+s.handlers.length < 2^63)
    (hi : s.handlers[i]? = some h) (hstage : h.stage = .drawing csr ips) :
    { s with
      ca := { s.ca with counter := s.ca.counter+1 }
      handlers := s.handlers.set i { h with
        stage := .creating csr ips (s.ca.counter+1)
        serial := some (s.ca.counter+1) } }.Inv pki lib verifier := by
  have hmem : h ∈ s.handlers := List.mem_of_getElem? hi
  have hold := hs.progress h hmem
  simp only [Handler.Progress, hstage] at hold
  obtain ⟨hnone, hissued, hwritten, hrequested⟩ := hold
  refine ⟨?_, fun h' hh => ?_, fun h' hh => ?_⟩
  · rw [List.map_set]
    refine hs.tickets.draw ?_ (by decide) (by rw [List.length_map]; omega)
    rw [List.getElem?_map, hi]
    exact congrArg some hnone
  · cases List.mem_or_eq_of_mem_set hh with
    | inl hother => exact hs.admitted h' hother
    | inr hnew =>
      subst hnew
      exact hs.admitted h hmem
  · cases List.mem_or_eq_of_mem_set hh with
    | inl hother => exact hs.progress h' hother
    | inr hnew =>
      subst hnew
      exact ⟨rfl, hissued, hwritten, hrequested⟩

theorem Handler.serve_progress (hstage : h.stage = .started) (hprogress : h.Progress pki ca)
    (stream : Bytes) (readErr : Option Nat) :
    (h.serve pki stream readErr).Progress pki ca ∧
      (h.serve pki stream readErr).serial = h.serial ∧
      (h.serve pki stream readErr).conn = h.conn := by
  simp only [Handler.Progress, hstage] at hprogress
  obtain ⟨hserial, hissued, hwritten⟩ := hprogress
  rw [Handler.serve]
  split
  · rename_i csrPEM hread
    split
    · rename_i csr ips hcsr
      exact ⟨⟨hserial, hissued, hwritten, readErr, csrPEM, hread, hcsr⟩, rfl, rfl⟩
    · exact ⟨.inl ⟨hissued, hwritten⟩, rfl, rfl⟩
  · exact ⟨.inl ⟨hissued, hwritten⟩, rfl, rfl⟩

theorem HeadStep.length (h : HeadStep pki lib verifier s s') :
    s.handlers.length ≤ s'.handlers.length := by
  cases h with
  | accept => simp
  | refuse => exact Nat.le_refl _
  | serve => simp [HeadNode.update]
  | draw => simp
  | create => simp [HeadNode.update]
  | notCreated => simp [HeadNode.update]
  | sendCert => simp [HeadNode.update]
  | sendCA => simp [HeadNode.update]
  | certNotSent => simp [HeadNode.update]
  | caNotSent => simp [HeadNode.update]

theorem HeadStep.inv (hs : s.Inv pki lib verifier) (hroom : 2+s.handlers.length < 2^63)
    (hstep : HeadStep pki lib verifier s s') : s'.Inv pki lib verifier := by
  cases hstep with
  | accept hrun => exact hs.arrive rfl ⟨_, _, _, hrun⟩ ⟨rfl, rfl, rfl⟩
  | refuse hrun => exact ⟨hs.tickets, hs.admitted, hs.progress⟩
  | @serve i h stream readErr hi hstage =>
    have hserved := h.serve_progress hstage (hs.progress h (List.mem_of_getElem? hi)) stream readErr
    exact hs.update hi hserved.2.1 hserved.2.2 fun _ => hserved.1
  | draw hi hstage => exact hs.draw hroom hi hstage
  | create hi hstage hder =>
    refine hs.update hi rfl rfl fun hprogress => ?_
    simp only [Handler.Progress, hstage] at hprogress
    obtain ⟨hserial, _, hwritten, hrequested⟩ := hprogress
    exact ⟨_, ⟨_, _, _, _, _, hrequested, hserial, rfl, hder⟩, hwritten, rfl⟩
  | notCreated hi hstage _ =>
    refine hs.update hi rfl rfl fun hprogress => ?_
    simp only [Handler.Progress, hstage] at hprogress
    exact .inl ⟨hprogress.2.1, hprogress.2.2.1⟩
  | sendCert hi hstage =>
    refine hs.update hi rfl rfl fun hprogress => ?_
    simp only [Handler.Progress, hstage] at hprogress
    obtain ⟨der, hcertified, hwritten, rfl⟩ := hprogress
    exact ⟨der, hcertified, by rw [hwritten, List.nil_append]⟩
  | @sendCA i h hi hstage =>
    refine hs.update hi rfl rfl fun hprogress => ?_
    simp only [Handler.Progress, hstage] at hprogress
    obtain ⟨der, hcertified, hwritten⟩ := hprogress
    have hall : h.written ++ s.ca.certPEM = certificatePEM pki der ++ s.ca.certPEM := by
      rw [hwritten]
    exact .inr ⟨der, hcertified, hall ▸ List.prefix_rfl⟩
  | certNotSent n hi hstage =>
    refine hs.update hi rfl rfl fun hprogress => ?_
    simp only [Handler.Progress, hstage] at hprogress
    obtain ⟨der, hcertified, hwritten, rfl⟩ := hprogress
    refine .inr ⟨der, hcertified, ?_⟩
    rw [hwritten, List.nil_append]
    exact (List.take_prefix n _).trans (List.prefix_append _ _)
  | caNotSent n hi hstage =>
    refine hs.update hi rfl rfl fun hprogress => ?_
    simp only [Handler.Progress, hstage] at hprogress
    obtain ⟨der, hcertified, hwritten⟩ := hprogress
    refine .inr ⟨der, hcertified, ?_⟩
    rw [hwritten]
    exact (List.prefix_append_right_inj _).mpr (List.take_prefix n _)

theorem HeadStarted.inv {headIP : String} (h : HeadStarted pki headIP s) :
    s.Inv pki lib verifier := by
  obtain ⟨hworld, hhandlers, _, _, _, _, _, _, ca, pems, hca, hhead⟩ := h
  have hone : ca.counter = 1 := by
    simp only [newIssuingCA, bind_eq_ok] at hca
    obtain ⟨_, _, _, _, _, _, hca⟩ := hca
    cases hca
    rfl
  have htwo : s.ca.counter = 2 := by
    rw [issueHeadCert] at hhead
    split at hhead
    · cases (Prod.mk.inj hhead).1
    · rw [← (Prod.mk.inj hhead).2]
      change ca.counter+1 = 2
      rw [hone]
      rfl
  refine ⟨?_, ?_, ?_⟩
  · rw [hhandlers, htwo]
    exact .nil rfl
  · rw [hhandlers]
    exact fun h hh => by cases hh
  · rw [hhandlers]
    exact fun h hh => by cases hh

structure Handler.Owns (pki : Pki) (lib : Library)
    (verifier : Bytes → Bytes → Except Error Unit) (ca : IssuingCA) (h : Handler)
    (tmpl : Template) (pub : Key) (der : Bytes) : Prop where
  admitted : h.Admitted lib verifier
  request : ∃ csr ips, h.Requested pki csr ips ∧ pub = csr.publicKey ∧
    tmpl.commonName = csr.commonName ∧ pki.checkSignature csr = .ok ()
  signed : ∃ certRandom, pki.createCertificate certRandom tmpl ca.cert pub ca.key = .ok der
  fresh : 2 < tmpl.serialNumber
  leaf : tmpl.isCA = false
  address : tmpl.ipAddresses = (pki.parseIP (pki.splitHost h.remoteAddr)).toList

/-- The certificates of a head node: no number is used twice, those of the CA and of the head node
included; each is for the request of its own connection, and goes to no other. -/
structure HeadNode.Sound (pki : Pki) (lib : Library)
    (verifier : Bytes → Bytes → Except Error Unit) (s : HeadNode) : Prop where
  distinct : ∀ (i j : Nat) h h' issued issued', s.handlers[i]? = some h →
    s.handlers[j]? = some h' → h.issued = some issued → h'.issued = some issued' →
    issued.1.serialNumber = issued'.1.serialNumber → i = j
  owned : ∀ h ∈ s.handlers, ∀ tmpl pub der, h.issued = some (tmpl, pub, der) →
    h.Owns pki lib verifier s.ca tmpl pub der
  unissued : ∀ h ∈ s.handlers, h.issued = none → h.written = []
  written : ∀ h ∈ s.handlers, ∀ tmpl pub der, h.issued = some (tmpl, pub, der) →
    h.written <+: certificatePEM pki der ++ s.ca.certPEM

theorem csrToIssue_ok {csrPEM : Bytes} {workerIP : String} {csr : CertificateRequest}
    {ips : List Bytes} (h : csrToIssue pki csrPEM workerIP = .ok (csr, ips)) :
    pki.checkSignature csr = .ok () ∧ ips = (pki.parseIP workerIP).toList := by
  rw [csrToIssue] at h
  split at h
  · cases h
  rename_i block _ _
  simp only [bind_eq_ok] at h
  obtain ⟨csr', _, _, hsignature, h⟩ := h
  cases h
  refine ⟨?_, rfl⟩
  cases hcheck : pki.checkSignature csr with
  | ok _ => rfl
  | error e =>
    rw [library, hcheck] at hsignature
    cases hsignature

theorem Handler.Certified.owns {der : Bytes} (h' : h.Certified pki ca der)
    (hadmitted : h.Admitted lib verifier) {counter : Int64}
    {drawn : List (Option Int64)} (htickets : Valid 2 counter drawn) (hmem : h.serial ∈ drawn)
    {tmpl : Template} {pub : Key} {der' : Bytes} (hissued : h.issued = some (tmpl, pub, der')) :
    h.Owns pki lib verifier ca tmpl pub der' := by
  obtain ⟨csr, ips, serial, now, certRandom, hrequested, hserial, hcertificate, hder⟩ := h'
  cases hissued.symm.trans hcertificate
  obtain ⟨readErr, csrPEM, hread, hcsr⟩ := hrequested
  obtain ⟨hsignature, hips⟩ := csrToIssue_ok hcsr
  refine ⟨hadmitted, ⟨csr, ips, ⟨readErr, csrPEM, hread, hcsr⟩, rfl, rfl, hsignature⟩,
    ⟨certRandom, hder⟩, ?_, rfl, hips⟩
  rw [hserial] at hmem
  exact (htickets.range serial hmem).1

/-- What a connection that something has been issued to is at. -/
theorem Handler.Progress.issued (hprogress : h.Progress pki ca) :
    h.issued = none ∧ h.written = [] ∨
      ∃ der, h.Certified pki ca der ∧ h.written <+: certificatePEM pki der ++ ca.certPEM := by
  cases hstage : h.stage with
  | started =>
    simp only [Handler.Progress, hstage] at hprogress
    exact .inl hprogress.2
  | drawing csr ips =>
    simp only [Handler.Progress, hstage] at hprogress
    exact .inl ⟨hprogress.2.1, hprogress.2.2.1⟩
  | creating csr ips serial =>
    simp only [Handler.Progress, hstage] at hprogress
    exact .inl ⟨hprogress.2.1, hprogress.2.2.1⟩
  | sendingCert workerCert =>
    simp only [Handler.Progress, hstage] at hprogress
    obtain ⟨der, hcertified, hwritten, -⟩ := hprogress
    exact .inr ⟨der, hcertified, hwritten ▸ List.nil_prefix⟩
  | sendingCA =>
    simp only [Handler.Progress, hstage] at hprogress
    obtain ⟨der, hcertified, hwritten⟩ := hprogress
    exact .inr ⟨der, hcertified, hwritten ▸ List.prefix_append _ _⟩
  | closed =>
    simp only [Handler.Progress, hstage] at hprogress
    exact hprogress

theorem Handler.Certified.issued {der der' : Bytes} {tmpl : Template} {pub : Key}
    (hcertified : h.Certified pki ca der) (hissued : h.issued = some (tmpl, pub, der')) :
    der' = der ∧ ∃ serial, h.serial = some serial ∧ tmpl.serialNumber = serial.toInt := by
  obtain ⟨_, _, serial, _, _, _, hserial, hcertificate, _⟩ := hcertified
  cases hissued.symm.trans hcertificate
  exact ⟨rfl, serial, hserial, rfl⟩

end Issued

/-- The head node issues certificates soundly in every interleaving of its goroutines, until its
counter overflows. -/
theorem certificates_issued {pki : Pki} {lib : Library}
    {verifier : Bytes → Bytes → Except Error Unit} {headIP : String} {s : HeadNode}
    (h : Reachable (HeadStarted pki headIP) (HeadStep pki lib verifier) s)
    (hroom : 2+s.handlers.length < 2^63) : s.Sound pki lib verifier := by
  have hinv : 2+s.handlers.length < 2^63 → s.Inv pki lib verifier := by
    refine h.invariant (I := fun s => 2+s.handlers.length < 2^63 → s.Inv pki lib verifier)
      (fun s hs _ => hs.inv) fun s s' hs hstep hroom' => ?_
    have hlength := hstep.length
    exact hstep.inv (hs (by omega)) (by omega)
  obtain ⟨htickets, hadmitted, hprogress⟩ := hinv hroom
  have hcertified : ∀ h ∈ s.handlers, ∀ issued, h.issued = some issued →
      ∃ der, h.Certified pki s.ca der ∧ h.written <+: certificatePEM pki der ++ s.ca.certPEM := by
    intro h hh issued hissued
    cases (hprogress h hh).issued with
    | inl hnone =>
      rw [hnone.1] at hissued
      cases hissued
    | inr hsome => exact hsome
  have hdrawn : ∀ (i : Nat) h, s.handlers[i]? = some h →
      (s.handlers.map Handler.serial)[i]? = some h.serial := by
    intro i h hi
    rw [List.getElem?_map, hi]
    rfl
  refine ⟨fun i j h h' issued issued' hi hj hissued hissued' hsame => ?_,
    fun h hh tmpl pub der hissued => ?_, fun h hh hnone => ?_,
    fun h hh tmpl pub der hissued => ?_⟩
  · obtain ⟨_, hc, -⟩ := hcertified h (List.mem_of_getElem? hi) issued hissued
    obtain ⟨_, hc', -⟩ := hcertified h' (List.mem_of_getElem? hj) issued' hissued'
    obtain ⟨-, serial, hserial, heq⟩ := hc.issued hissued
    obtain ⟨-, serial', hserial', heq'⟩ := hc'.issued hissued'
    have hserials : serial = serial' := Int64.toInt_inj.mp (by rw [← heq, ← heq', hsame])
    refine htickets.distinct i j serial ?_ ?_
    · rw [hdrawn i h hi, hserial]
    · rw [hdrawn j h' hj, hserial', hserials]
  · obtain ⟨_, hc, -⟩ := hcertified h hh _ hissued
    exact hc.owns (hadmitted h hh) htickets (List.mem_map_of_mem hh) hissued
  · cases (hprogress h hh).issued with
    | inl hnone' => exact hnone'.2
    | inr hsome =>
      obtain ⟨_, ⟨_, _, _, _, _, _, _, hcertificate, _⟩, _⟩ := hsome
      rw [hnone] at hcertificate
      cases hcertificate
  · obtain ⟨der', hc, hwritten⟩ := hcertified h hh _ hissued
    rw [(hc.issued hissued).1]
    exact hwritten

def plainPki : Pki where
  decode b := some (⟨"CERTIFICATE REQUEST", [], b⟩, [])
  encodeToMemory block := block.bytes
  parseCertificateRequest b := .ok ⟨.ecdsa b, "fort-ray-worker", b⟩
  checkSignature _ := .ok ()
  parseIP _ := none
  splitHost _ := ""
  generateKey _ := .ok (.ecdsa "P-256" [], .ecdsa [])
  createCertificate _ tmpl _ _ _ := .ok [UInt8.ofNat tmpl.serialNumber.toNat]
  parseCertificate _ := .ok (caTemplate 0)
  marshalECPrivateKey _ := .ok []

def Handler.number (h : Handler) : Option Int := h.issued.map fun issued => issued.1.serialNumber

/-- Two workers at once: the one that came second is the first to draw a number, and the last to
get its certificate. -/
theorem worker_certificates_issued : ∃ s : HeadNode,
    s.handlers.map Handler.number = [some 4, some 3] ∧
      s.Sound plainPki paddingLibrary (fun _ _ => .error .errMissingStatement) := by
  let verifier : Bytes → Bytes → Except Error Unit := fun _ _ => .error .errMissingStatement
  let ca : IssuingCA := ⟨caTemplate 0, .ecdsa "P-256" [], [1], 2⟩
  let csr : CertificateRequest :=
    ⟨.ecdsa (Cluster.chars (csrEnd ++ "\n")), "fort-ray-worker", Cluster.chars (csrEnd ++ "\n")⟩
  have hrun : exec (validateAuthenticator paddingLibrary sampleState .client
      (some ⟨handshakeTypeCertificateRequest, List.replicate 32 0x2A,
        [⟨signatureAlgorithmsExtensionType, [0x00, 0x02, 0x04, 0x03]⟩,
          cmwAttestationOfferExtension]⟩) none (some (mainConfig verifier).attestationPolicy)
      ([0x14,0,0,0x20] ++ padTo 32 [0x09])) (mainWorld []) =
      (.ok ⟨List.replicate 32 0x2A, [], [], none, true⟩, mainWorld []) := by
    decide +kernel
  have hserver := (exec_server_ok paddingLibrary finishedOnlyTransport (mainConfig verifier)
    (mainWorld []) _ _).mpr ⟨sampleState, _, _, _, ⟨rfl, rfl, rfl, ⟨_, rfl, rfl⟩, [], by
      decide +kernel⟩, hrun, rfl⟩
  have hstart : Reachable (HeadStarted plainPki "") (HeadStep plainPki paddingLibrary verifier)
      ⟨ca, mainWorld [], []⟩ :=
    .start ⟨rfl, rfl, [], [], 0, [], [], 0, { ca with counter := 1 }, ([2], []), rfl, rfl⟩
  have hfirst := hstart.next (@HeadStep.accept _ _ _ _ _ _ _ "" hserver)
  have hboth := hfirst.next (@HeadStep.accept _ _ _ _ _ _ _ "" hserver)
  have hread := hboth.next (@HeadStep.serve _ _ _ _ 0 _ (Cluster.chars (csrEnd ++ "\n")) none rfl rfl)
  have hread' := hread.next
    (@HeadStep.serve _ _ _ _ 1 _ (Cluster.chars (csrEnd ++ "\n")) none rfl rfl)
  have hdrawn := hread'.next (@HeadStep.draw _ _ _ _ 1 _ csr [] rfl rfl)
  have hdrawn' := hdrawn.next (@HeadStep.draw _ _ _ _ 0 _ csr [] rfl rfl)
  have hissued := hdrawn'.next (@HeadStep.create _ _ _ _ 0 _ csr [] 4 [] 0 [4] rfl rfl rfl)
  have hissued' := hissued.next (@HeadStep.create _ _ _ _ 1 _ csr [] 3 [] 0 [3] rfl rfl rfl)
  exact ⟨_, rfl, certificates_issued hissued' (by decide)⟩

end DistributedEnclave.Atls
