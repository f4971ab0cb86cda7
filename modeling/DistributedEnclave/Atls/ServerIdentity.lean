import DistributedEnclave.Atls.Bootstrap

/-! The identity of the head node: it is generated by the first start of the server, and the worker
image pins the certificate that `refresh-server-cert.sh` copies when it has killed this server. -/
namespace DistributedEnclave.Atls.ServerIdentity
open Ea Octets Outcome Relation

inductive LoadError where
  | load (code : Nat) | generate (code : Nat) | parse (code : Nat) | writeCert (code : Nat)
  | marshalKey (code : Nat) | writeKey (code : Nat)
  deriving DecidableEq

structure Generated where
  der : Bytes
  priv : PrivateKey
  deriving DecidableEq

/-- How far `loadOrGenerateATLSCert` is. A file that is open has `left` still to be written. -/
inductive Start where
  | reading
  | generated (g : Generated)
  | writingCert (g : Generated) (left : Bytes)
  | writingKey (g : Generated) (left : Bytes)
  | serving (chain : List Bytes)
  | failed (e : LoadError)
  deriving DecidableEq

def Start.writing : Start → Bool
  | .generated _ | .writingCert _ _ | .writingKey _ _ => true
  | .reading | .serving _ | .failed _ => false

/-- The two files, `none` where they cannot be read, the server, and every certificate that has
been generated here. -/
structure HeadHost where
  cert : Option Bytes
  key : Option Bytes
  start : Start
  issued : List Bytes

def HeadHost.readFiles (s : HeadHost) : Option (Bytes × Bytes) :=
  match s.cert, s.key with
  | some certPEM, some keyPEM => some (certPEM, keyPEM)
  | _, _ => none

def keyPEM (pki : Pki) (keyDER : Bytes) : Bytes :=
  pki.encodeToMemory { type := "EC PRIVATE KEY", bytes := keyDER }

def loaded : Except Nat (List Bytes) → Start
  | .ok chain => .serving chain
  | .error code => .failed (.load code)

def HeadHost.Fails (s : HeadHost) : LoadError → Prop
  | .load _ => False
  | .generate _ | .parse _ => s.start = .reading ∧ s.readFiles = none
  | .writeCert _ => (∃ g, s.start = .generated g) ∨ ∃ g left, s.start = .writingCert g left
  | .marshalKey _ => ∃ g, s.start = .writingCert g []
  | .writeKey _ => (∃ g, s.start = .writingCert g []) ∨ ∃ g left, s.start = .writingKey g left

def HeadHost.restarted (s : HeadHost) : HeadHost := { s with start := .reading }

def HeadHost.since (s t : HeadHost) : List Bytes :=
  t.issued.take (t.issued.length - s.issued.length)

/-- The certificates generated from `s` on are new ones. -/
def HeadHost.Fresh (s t : HeadHost) : Prop := ∀ der ∈ s.since t, der ∉ s.issued

section Steps
variable (pki : Pki) (x509KeyPair : Bytes → Bytes → Except Nat (List Bytes))
  (generates : Generated → Prop)

/-- `os.WriteFile` empties the file, and may write it in several pieces. The server can be killed
and started again at any time. -/
inductive Step : HeadHost → HeadHost → Prop where
  | load {s certPEM keyPEM} (hs : s.start = .reading)
      (hread : s.readFiles = some (certPEM, keyPEM)) :
      Step s { s with start := loaded (x509KeyPair certPEM keyPEM) }
  | generate {s g cert} (hs : s.start = .reading) (hread : s.readFiles = none)
      (hg : generates g) (hleaf : pki.parseCertificate g.der = .ok cert) :
      Step s { s with start := .generated g, issued := g.der :: s.issued }
  | openCert {s g} (hs : s.start = .generated g) :
      Step s { s with cert := some [], start := .writingCert g (certificatePEM pki g.der) }
  | writeCert {s g w chunk left} (hs : s.start = .writingCert g (chunk ++ left))
      (hw : s.cert = some w) :
      Step s { s with cert := some (w ++ chunk), start := .writingCert g left }
  | openKey {s g keyDER} (hs : s.start = .writingCert g [])
      (hkey : pki.marshalECPrivateKey g.priv = .ok keyDER) :
      Step s { s with key := some [], start := .writingKey g (keyPEM pki keyDER) }
  | writeKey {s g w chunk left} (hs : s.start = .writingKey g (chunk ++ left))
      (hw : s.key = some w) :
      Step s { s with key := some (w ++ chunk), start := .writingKey g left }
  | serve {s g} (hs : s.start = .writingKey g []) : Step s { s with start := .serving [g.der] }
  | fail {s e} (h : s.Fails e) : Step s { s with start := .failed e }
  | restart {s} : Step s s.restarted

def HeadHost.Loads (s : HeadHost) (chain : List Bytes) : Prop :=
  ∃ certPEM keyPEM, s.readFiles = some (certPEM, keyPEM) ∧
    x509KeyPair certPEM keyPEM = .ok chain

def Accepts (host : WorkerHost) (chain : List Bytes) : Prop :=
  ∃ pinnedDER, loadPinnedServerCert host pki = .ok pinnedDER ∧
    verifyPeerCertificate pinnedDER chain = true

/-- How the libraries read files of which a killed server has written the beginning: a text that
has lost its end is no other certificate. -/
structure ReadsTorn : Prop where
  block : ∀ {g text block rest}, generates g → text <+: certificatePEM pki g.der →
    pki.decode text = some (block, rest) → block.bytes = g.der
  pair : ∀ {g text keyPEM chain}, generates g → text <+: certificatePEM pki g.der →
    x509KeyPair text keyPEM = .ok chain →
    (pki.decode text).isSome ∧ chain.head? = some g.der
  whole : ∀ {g keyDER}, generates g → pki.marshalECPrivateKey g.priv = .ok keyDER →
    x509KeyPair (certificatePEM pki g.der) (keyPEM pki keyDER) = .ok [g.der]

end Steps

theorem readFiles_some {s : HeadHost} {certPEM keyPEM : Bytes} :
    s.readFiles = some (certPEM, keyPEM) ↔ s.cert = some certPEM ∧ s.key = some keyPEM := by
  rcases s with ⟨_ | c, _ | k, start, issued⟩ <;> simp [HeadHost.readFiles]

theorem readFiles_none {s : HeadHost} {certPEM : Bytes} (hc : s.cert = some certPEM) :
    s.readFiles = none ↔ s.key = none := by
  rcases s with ⟨_ | c, _ | k, start, issued⟩ <;> simp [HeadHost.readFiles] at hc ⊢

theorem loaded_serving {r : Except Nat (List Bytes)} {chain : List Bytes} :
    loaded r = .serving chain ↔ r = .ok chain := by
  cases r <;> simp [loaded]

theorem HeadHost.since_cons {s t : HeadHost} {t' : HeadHost} {der : Bytes}
    (hissued : t'.issued = der :: t.issued) (hle : s.issued.length ≤ t.issued.length) :
    s.since t' = der :: s.since t := by
  rw [since, since, hissued, List.length_cons, Nat.succ_sub hle, List.take_succ_cons]

theorem HeadHost.fresh_of_same {s t : HeadHost} (h : t.issued = s.issued) : s.Fresh t := by
  intro der hder
  rw [since, h, Nat.sub_self] at hder
  cases hder

theorem loadPinnedServerCert_eq {pki : Pki} {host : WorkerHost} {text : Bytes}
    (hpin : host.readPinned = .ok text) : loadPinnedServerCert host pki =
      (pki.decode text).elim (.error .pinnedCert) fun block => .ok block.1.bytes := by
  rw [loadPinnedServerCert, hpin]
  dsimp only
  cases hdecode : pki.decode text with
  | none => rfl
  | some block => rfl

theorem verifyPeerCertificate_iff {pinnedDER : Bytes} {chain : List Bytes} :
    verifyPeerCertificate pinnedDER chain = true ↔ chain.head? = some pinnedDER := by
  cases chain <;> simp [verifyPeerCertificate]

theorem loaded_writing (r : Except Nat (List Bytes)) : (loaded r).writing = false := by
  cases r <;> rfl

theorem HeadHost.Fails.cases {s : HeadHost} {e : LoadError} (h : s.Fails e) :
    s.readFiles = none ∨ s.start.writing = true := by
  cases e with
  | load code => exact h.elim
  | generate code => exact .inl h.2
  | parse code => exact .inl h.2
  | writeCert code => obtain ⟨g, hs⟩ | ⟨g, left, hs⟩ := h <;> exact .inr (by rw [hs]; rfl)
  | marshalKey code =>
    obtain ⟨g, hs⟩ := h
    exact .inr (by rw [hs]; rfl)
  | writeKey code => obtain ⟨g, hs⟩ | ⟨g, left, hs⟩ := h <;> exact .inr (by rw [hs]; rfl)

theorem accepts_iff {pki : Pki} {host : WorkerHost} {text : Bytes} {chain : List Bytes}
    (hpin : host.readPinned = .ok text) : Accepts pki host chain ↔
      ∃ block rest, pki.decode text = some (block, rest) ∧ chain.head? = some block.bytes := by
  rw [Accepts, loadPinnedServerCert_eq hpin]
  simp only [verifyPeerCertificate_iff]
  cases pki.decode text with
  | none => simp
  | some block =>
    obtain ⟨block, rest⟩ := block
    simp

/-- What answers the worker is a server with this chain: a check that refuses it ends the
handshake. -/
def Shown (host : WorkerHost) (chain : List Bytes) : Prop :=
  ∀ verify : List Bytes → Bool, verify chain = false → ∃ code, host.handshake verify = .error code

section Refusal
variable {lib : Library} {sg : Producer} {pki : Pki} {host : WorkerHost} {w : Worker}
  {incoming : Bytes} {code : Nat}

theorem clientRequest_refused {t : Transport} {cfg : ClientConfig} (h : t.handshake = .error code) :
    clientRequest lib t cfg = .error (.ea (.library code)) := by
  rw [clientRequest, h]
  rfl

theorem dial_refused (h : host.handshake (verifyPeerCertificate w.pinnedDER) = .error code) :
    w.dial lib sg host incoming = .error (.ea (.library code)) := by
  have hrequest : clientRequest lib (w.transport host incoming) (w.config lib sg host) =
      .error (.ea (.library code)) := clientRequest_refused h
  rw [Worker.dial, client]
  dsimp only
  rw [hrequest]
  rfl

theorem prepare_pinned (h : host.prepare pki = .ok w) :
    loadPinnedServerCert host pki = .ok w.pinnedDER := by
  simp only [WorkerHost.prepare, bind_eq_ok] at h
  obtain ⟨useSEVSNP, -, key, -, identity, -, pinnedDER, hpinned, heq⟩ := h
  cases heq
  exact hpinned

theorem refused_run {chain : List Bytes} (hrefused : ¬Accepts pki host chain)
    (hshown : Shown host chain) (readErr : Option Nat) :
    (run lib sg pki host incoming readErr).1 = [] ∧
      ∃ e, (run lib sg pki host incoming readErr).2 = .error e := by
  cases hprepare : host.prepare pki with
  | error e =>
    rw [run, hprepare]
    exact ⟨rfl, e, rfl⟩
  | ok w =>
    have hfalse : verifyPeerCertificate w.pinnedDER chain = false :=
      Bool.eq_false_iff.mpr fun htrue => hrefused ⟨_, prepare_pinned hprepare, htrue⟩
    obtain ⟨code, hcode⟩ := hshown _ hfalse
    rw [run, hprepare]
    dsimp only
    rw [dial_refused hcode]
    exact ⟨rfl, _, rfl⟩

end Refusal

section Runs
variable {pki : Pki} {x509KeyPair : Bytes → Bytes → Except Nat (List Bytes)}
  {generates : Generated → Prop} {s s' t : HeadHost}

def Renewed (pki : Pki) (generates : Generated → Prop) (s t : HeadHost) : Prop :=
  ∃ g text, t.cert = some text ∧ generates g ∧ g.der ∈ s.since t ∧
    text <+: certificatePEM pki g.der

def StartOk (pki : Pki) (x509KeyPair : Bytes → Bytes → Except Nat (List Bytes))
    (generates : Generated → Prop) (s t : HeadHost) : Start → Prop
  | .reading | .failed _ => True
  | .generated g => generates g ∧ g.der ∈ s.since t
  | .writingCert g left => generates g ∧ g.der ∈ s.since t ∧
      ∃ w, t.cert = some w ∧ w ++ left = certificatePEM pki g.der
  | .writingKey g left => generates g ∧ t.cert = some (certificatePEM pki g.der) ∧
      ∃ w keyDER, t.key = some w ∧ pki.marshalECPrivateKey g.priv = .ok keyDER ∧
        w ++ left = keyPEM pki keyDER
  | .serving chain => t.Loads x509KeyPair chain

structure Sound (pki : Pki) (x509KeyPair : Bytes → Bytes → Except Nat (List Bytes))
    (generates : Generated → Prop) (s t : HeadHost) : Prop where
  issued : s.issued.length ≤ t.issued.length
  cert : (t.key = none ∧ t.cert = s.cert) ∨ Renewed pki generates s t
  start : StartOk pki x509KeyPair generates s t t.start

theorem Sound.refl (hkey : s.key = none) (hstart : s.start = .reading) :
    Sound pki x509KeyPair generates s s where
  issued := Nat.le_refl _
  cert := .inl ⟨hkey, rfl⟩
  start := by rw [hstart]; trivial

theorem Sound.cert_of_key (h : Sound pki x509KeyPair generates s t) (hkey : t.key ≠ none) :
    Renewed pki generates s t :=
  h.cert.resolve_left fun hold => hkey hold.1

/-- A step that leaves the files alone. -/
theorem Sound.move {x : Start} (h : Sound pki x509KeyPair generates s t)
    (hx : StartOk pki x509KeyPair generates s t x) :
    Sound pki x509KeyPair generates s { t with start := x } where
  issued := h.issued
  cert := h.cert
  start := by
    cases x with
    | reading => trivial
    | failed e => trivial
    | _ => exact hx

theorem loaded_ok {certPEM keyPEM : Bytes} (hread : t.readFiles = some (certPEM, keyPEM)) :
    StartOk pki x509KeyPair generates s t (loaded (x509KeyPair certPEM keyPEM)) := by
  cases hpair : x509KeyPair certPEM keyPEM with
  | error code => trivial
  | ok chain => exact ⟨certPEM, keyPEM, hread, hpair⟩

theorem Sound.step (hlib : ReadsTorn pki x509KeyPair generates)
    (h : Sound pki x509KeyPair generates s t) (hstep : Step pki x509KeyPair generates t s') :
    Sound pki x509KeyPair generates s s' := by
  have hstart := h.start
  cases hstep with
  | load hs hread => exact h.move (loaded_ok hread)
  | @generate g cert hs hread hg hleaf =>
    have hsince : s.since { t with start := .generated g, issued := g.der :: t.issued } =
      g.der :: s.since t := HeadHost.since_cons rfl h.issued
    refine ⟨h.issued.trans (Nat.le_succ _), ?_, hg, hsince ▸ List.mem_cons_self⟩
    cases h.cert with
    | inl hold => exact .inl hold
    | inr hrenewed =>
      obtain ⟨g', text, hcert, hg', hmem, hrest⟩ := hrenewed
      exact .inr ⟨g', text, hcert, hg', hsince ▸ List.mem_cons_of_mem _ hmem, hrest⟩
  | @openCert g hs =>
    rw [hs] at hstart
    obtain ⟨hg, hmem⟩ := hstart
    exact ⟨h.issued, .inr ⟨g, [], rfl, hg, hmem, List.nil_prefix⟩, hg, hmem, [], rfl, rfl⟩
  | @writeCert g w chunk left hs hw =>
    rw [hs] at hstart
    obtain ⟨hg, hmem, w', hw', htext⟩ := hstart
    obtain rfl : w = w' := Option.some.inj (hw.symm.trans hw')
    have htext' : (w ++ chunk) ++ left = certificatePEM pki g.der := by
      rw [List.append_assoc, htext]
    exact ⟨h.issued, .inr ⟨g, w ++ chunk, rfl, hg, hmem, left, htext'⟩,
      hg, hmem, w ++ chunk, rfl, htext'⟩
  | @openKey g keyDER hs hkey =>
    rw [hs] at hstart
    obtain ⟨hg, hmem, w, hw, htext⟩ := hstart
    rw [List.append_nil] at htext
    subst htext
    exact ⟨h.issued, .inr ⟨g, _, hw, hg, hmem, List.prefix_rfl⟩,
      hg, hw, [], keyDER, rfl, hkey, rfl⟩
  | @writeKey g w chunk left hs hw =>
    rw [hs] at hstart
    obtain ⟨hg, hcert, w', keyDER, hw', hkey, htext⟩ := hstart
    obtain rfl : w = w' := Option.some.inj (hw.symm.trans hw')
    obtain ⟨g', text, hrenewed⟩ := h.cert_of_key (by rw [hw]; exact Option.some_ne_none w)
    exact ⟨h.issued, .inr ⟨g', text, hrenewed⟩,
      hg, hcert, w ++ chunk, keyDER, rfl, hkey, by rw [List.append_assoc, htext]⟩
  | @serve g hs =>
    rw [hs] at hstart
    obtain ⟨hg, hcert, w, keyDER, hw, hkey, htext⟩ := hstart
    rw [List.append_nil] at htext
    subst htext
    exact h.move ⟨_, _, readFiles_some.mpr ⟨hcert, hw⟩, hlib.whole hg hkey⟩
  | fail _ => exact h.move trivial
  | restart => exact h.move trivial

theorem Sound.run (hlib : ReadsTorn pki x509KeyPair generates) (hkey : s.key = none)
    (hstart : s.start = .reading) (hrun : ReflTransGen (Step pki x509KeyPair generates) s t) :
    Sound pki x509KeyPair generates s t := by
  induction hrun with
  | refl => exact .refl hkey hstart
  | tail _ hlast ih => exact ih.step hlib hlast

/-- A server that has a certificate has it from its files. -/
theorem Sound.serving {chain : List Bytes} (h : Sound pki x509KeyPair generates s t)
    (hserving : t.start = .serving chain) : t.Loads x509KeyPair chain := by
  have hstart := h.start
  rwa [hserving] at hstart

structure Settled (x509KeyPair : Bytes → Bytes → Except Nat (List Bytes))
    (certPEM keyPEM : Bytes) (t : HeadHost) : Prop where
  files : t.readFiles = some (certPEM, keyPEM)
  start : t.start = .reading ∨ t.start = loaded (x509KeyPair certPEM keyPEM)

theorem Settled.not_writing {certPEM keyPEM : Bytes} (h : Settled x509KeyPair certPEM keyPEM s) :
    s.start.writing = false := by
  cases h.start with
  | inl hstart =>
    rw [hstart]
    rfl
  | inr hstart =>
    rw [hstart]
    exact loaded_writing _

theorem Settled.step {certPEM keyPEM : Bytes} (h : Settled x509KeyPair certPEM keyPEM s)
    (hstep : Step pki x509KeyPair generates s s') : Settled x509KeyPair certPEM keyPEM s' := by
  have hidle := h.not_writing
  cases hstep with
  | load hs hread =>
    rw [h.files] at hread
    cases hread
    exact ⟨h.files, .inr rfl⟩
  | generate hs hread => simp [h.files] at hread
  | fail hfails =>
    cases hfails.cases with
    | inl hread => simp [h.files] at hread
    | inr hwriting => simp [hidle] at hwriting
  | restart => exact ⟨h.files, .inl rfl⟩
  | openCert hs => simp [hs, Start.writing] at hidle
  | writeCert hs => simp [hs, Start.writing] at hidle
  | openKey hs => simp [hs, Start.writing] at hidle
  | writeKey hs => simp [hs, Start.writing] at hidle
  | serve hs => simp [hs, Start.writing] at hidle

theorem Settled.run {certPEM keyPEM : Bytes} (hread : s.readFiles = some (certPEM, keyPEM))
    (hstart : s.start = .reading) (hrun : ReflTransGen (Step pki x509KeyPair generates) s t) :
    Settled x509KeyPair certPEM keyPEM t := by
  induction hrun with
  | refl => exact ⟨hread, .inl hstart⟩
  | tail _ hlast ih => exact ih.step hlast

/-- A serving host with a key that was not there in `s` shows none of the certificates of `s`. -/
theorem Sound.serving_new (hlib : ReadsTorn pki x509KeyPair generates)
    (h : Sound pki x509KeyPair generates s t) (hfresh : s.Fresh t) {chain : List Bytes}
    (hserving : t.start = .serving chain) : ∃ der, chain.head? = some der ∧ der ∉ s.issued := by
  obtain ⟨certPEM, keyPEM, hread, hpair⟩ := h.serving hserving
  obtain ⟨hcert, hkey⟩ := readFiles_some.mp hread
  have hrenewed := h.cert_of_key (by rw [hkey]; exact Option.some_ne_none keyPEM)
  obtain ⟨g, text, htext, hg, hmem, hfront⟩ := hrenewed
  obtain rfl : certPEM = text := Option.some.inj (hcert.symm.trans htext)
  exact ⟨g.der, (hlib.pair hg hfront hpair).2, hfresh _ hmem⟩

/-- The host that `refresh-server-cert.sh` starts the server on. -/
def HeadHost.Removed (s : HeadHost) : Prop :=
  s.cert = none ∧ s.key = none ∧ s.start = .reading

/-- A certificate file that was written after the removal begins like a generated certificate. -/
theorem Sound.written {certPEM : Bytes} (h : Sound pki x509KeyPair generates s t)
    (hremoved : s.Removed) (hcert : t.cert = some certPEM) :
    ∃ g, generates g ∧ g.der ∈ t.issued ∧ certPEM <+: certificatePEM pki g.der := by
  cases h.cert with
  | inl hold =>
    rw [hold.2, hremoved.1] at hcert
    cases hcert
  | inr hrenewed =>
    obtain ⟨g, text, htext, hg, hmem, hfront⟩ := hrenewed
    obtain rfl : certPEM = text := Option.some.inj (hcert.symm.trans htext)
    exact ⟨g, hg, List.mem_of_mem_take hmem, hfront⟩

theorem Step.wholeCert {g : Generated} {text : Bytes} (hs : s.start = .writingCert g text)
    (hw : s.cert = some []) : Step pki x509KeyPair generates s
      { s with cert := some text, start := .writingCert g [] } := by
  have hs' : s.start = .writingCert g (text ++ []) := by rw [hs, List.append_nil]
  exact .writeCert hs' hw

theorem Step.wholeKey {g : Generated} {text : Bytes} (hs : s.start = .writingKey g text)
    (hw : s.key = some []) : Step pki x509KeyPair generates s
      { s with key := some text, start := .writingKey g [] } := by
  have hs' : s.start = .writingKey g (text ++ []) := by rw [hs, List.append_nil]
  exact .writeKey hs' hw

def HeadHost.certWritten (pki : Pki) (g : Generated) (s : HeadHost) : HeadHost where
  cert := some (certificatePEM pki g.der)
  key := none
  start := .writingCert g []
  issued := g.der :: s.issued

theorem certWritten_reached {g : Generated} {cert : Template} (hkey : s.key = none)
    (hstart : s.start = .reading) (hg : generates g)
    (hleaf : pki.parseCertificate g.der = .ok cert) :
    ReflTransGen (Step pki x509KeyPair generates) s (s.certWritten pki g) := by
  obtain ⟨file, key, start, issued⟩ := s
  obtain rfl : key = none := hkey
  obtain rfl : start = .reading := hstart
  have hread : HeadHost.readFiles ⟨file, none, .reading, issued⟩ = none := by cases file <;> rfl
  have hgenerated : Step pki x509KeyPair generates ⟨file, none, .reading, issued⟩
      ⟨file, none, .generated g, g.der :: issued⟩ := .generate rfl hread hg hleaf
  have hopen : Step pki x509KeyPair generates ⟨file, none, .generated g, g.der :: issued⟩
      ⟨some [], none, .writingCert g (certificatePEM pki g.der), g.der :: issued⟩ := .openCert rfl
  have hwritten : Step pki x509KeyPair generates
      ⟨some [], none, .writingCert g (certificatePEM pki g.der), g.der :: issued⟩
      ⟨some (certificatePEM pki g.der), none, .writingCert g [], g.der :: issued⟩ :=
    .wholeCert rfl rfl
  exact ((ReflTransGen.single hgenerated).tail hopen).tail hwritten

/-- A server that is not killed comes to its end. -/
theorem serving_reached {g : Generated} {keyDER : Bytes}
    (hkey : pki.marshalECPrivateKey g.priv = .ok keyDER) :
    ReflTransGen (Step pki x509KeyPair generates) (s.certWritten pki g)
      { s.certWritten pki g with key := some (keyPEM pki keyDER), start := .serving [g.der] } := by
  have hopen : Step pki x509KeyPair generates (s.certWritten pki g)
      { s.certWritten pki g with
        key := some [], start := .writingKey g (keyPEM pki keyDER) } := .openKey rfl hkey
  have hwritten : Step pki x509KeyPair generates
      { s.certWritten pki g with key := some [], start := .writingKey g (keyPEM pki keyDER) }
      { s.certWritten pki g with key := some (keyPEM pki keyDER), start := .writingKey g [] } :=
    .wholeKey rfl rfl
  exact ((ReflTransGen.single hopen).tail hwritten).tail (.serve rfl)

/-- The file that the script waits for is there before the key is. -/
theorem certWritten_not_loads {g : Generated} {chain : List Bytes} :
    ¬(s.certWritten pki g).Loads x509KeyPair chain := by
  rintro ⟨certPEM, keyPEM, hread, -⟩
  cases hread

/-- The next start generates another certificate. -/
theorem incomplete_refused (hlib : ReadsTorn pki x509KeyPair generates) {g : Generated}
    {certPEM : Bytes} (hg : generates g) (hmem : g.der ∈ s.issued)
    (hfront : certPEM <+: certificatePEM pki g.der) (hkey : s.key = none) {host : WorkerHost}
    (hpin : host.readPinned = .ok certPEM)
    (hlater : ReflTransGen (Step pki x509KeyPair generates) s.restarted t) {chain : List Bytes}
    (hserving : t.start = .serving chain) (hfresh : s.Fresh t) : ¬Accepts pki host chain := by
  have hsound := Sound.run (s := s.restarted) hlib hkey rfl hlater
  obtain ⟨der, hhead, hnew⟩ := hsound.serving_new hlib hfresh hserving
  rw [accepts_iff hpin]
  rintro ⟨block, rest, hdecode, hblock⟩
  rw [hhead, hlib.block hg hfront hdecode] at hblock
  exact hnew (Option.some.inj hblock ▸ hmem)

/-- Every start reads the same files. -/
theorem complete_taken (hlib : ReadsTorn pki x509KeyPair generates) {g : Generated}
    {certPEM keyPEM : Bytes} (hg : generates g) (hfront : certPEM <+: certificatePEM pki g.der)
    (hread : s.readFiles = some (certPEM, keyPEM)) {host : WorkerHost}
    (hpin : host.readPinned = .ok certPEM)
    (hlater : ReflTransGen (Step pki x509KeyPair generates) s.restarted t) {chain : List Bytes}
    (hserving : t.start = .serving chain) :
    s.Loads x509KeyPair chain ∧ Accepts pki host chain := by
  have hsettled := Settled.run (s := s.restarted) hread rfl hlater
  have hpair : x509KeyPair certPEM keyPEM = .ok chain := by
    have hstart := hsettled.start
    rw [hserving] at hstart
    exact loaded_serving.mp (hstart.resolve_left Start.noConfusion).symm
  obtain ⟨hsome, hhead⟩ := hlib.pair hg hfront hpair
  obtain ⟨⟨block, rest⟩, hdecode⟩ := Option.isSome_iff_exists.mp hsome
  refine ⟨⟨certPEM, keyPEM, hread, hpair⟩, (accepts_iff hpin).mpr ⟨block, rest, hdecode, ?_⟩⟩
  rw [hhead, hlib.block hg hfront hdecode]

/-- The image pins the certificate file of a server that is killed at any time. Its workers take
the servers that are started later on these files if and only if the files were complete; they send
nothing to the others. -/
theorem refreshed_identity_pinned (hlib : ReadsTorn pki x509KeyPair generates)
    (hremoved : s.Removed) (hrun : ReflTransGen (Step pki x509KeyPair generates) s t)
    {certPEM : Bytes} (hcert : t.cert = some certPEM) {host : WorkerHost}
    (hpin : host.readPinned = .ok certPEM) :
    (∀ chain, t.start = .serving chain → t.Loads x509KeyPair chain) ∧
      (∀ chain, t.Loads x509KeyPair chain → ∃ u, u.start = .serving chain ∧
        u.issued = t.issued ∧ ReflTransGen (Step pki x509KeyPair generates) t.restarted u) ∧
      ∀ u chain, ReflTransGen (Step pki x509KeyPair generates) t.restarted u →
        u.start = .serving chain → t.Fresh u →
        (Accepts pki host chain ↔ ∃ chain, t.Loads x509KeyPair chain) ∧
        ((¬∃ chain, t.Loads x509KeyPair chain) → Shown host chain →
          ∀ lib sg incoming readErr, (run lib sg pki host incoming readErr).1 = [] ∧
            ∃ e, (run lib sg pki host incoming readErr).2 = .error e) := by
  have hsound := Sound.run hlib hremoved.2.1 hremoved.2.2 hrun
  obtain ⟨g, hg, hmem, hfront⟩ := hsound.written hremoved hcert
  refine ⟨fun chain => hsound.serving, ?_, ?_⟩
  · rintro chain ⟨certPEM, keyPEM, hread, hpair⟩
    exact ⟨{ t with start := loaded (x509KeyPair certPEM keyPEM) }, loaded_serving.mpr hpair, rfl,
      .single (.load rfl hread)⟩
  · intro u chain hlater hserving hfresh
    have hiff : Accepts pki host chain ↔ ∃ chain, t.Loads x509KeyPair chain := by
      cases hread : t.readFiles with
      | none =>
        have hkey : t.key = none := (readFiles_none hcert).mp hread
        refine iff_of_false
          (incomplete_refused hlib hg hmem hfront hkey hpin hlater hserving hfresh) ?_
        rintro ⟨chain, certPEM, keyPEM, hsome, -⟩
        rw [hread] at hsome
        cases hsome
      | some files =>
        obtain ⟨certPEM', keyPEM⟩ := files
        obtain rfl : certPEM = certPEM' :=
          Option.some.inj (hcert.symm.trans (readFiles_some.mp hread).1)
        obtain ⟨hloads, haccepts⟩ := complete_taken hlib hg hfront hread hpin hlater hserving
        exact iff_of_true haccepts ⟨chain, hloads⟩
    refine ⟨hiff, fun hnot hshown lib sg incoming readErr => ?_⟩
    exact refused_run (mt hiff.mp hnot) hshown readErr

end Runs

def linePki : Pki :=
  { plainPki with
    encodeToMemory := fun block => block.bytes ++ [0x0A]
    decode := fun text =>
      if text.getLast? = some 0x0A then some (⟨"CERTIFICATE", [], text.dropLast⟩, []) else none }

def linePair (certPEM keyPEM : Bytes) : Except Nat (List Bytes) :=
  if certPEM.getLast? = some 0x0A ∧ keyPEM.getLast? = some 0x0A then .ok [certPEM.dropLast]
  else .error 1

def OneLine (g : Generated) : Prop := 0x0A ∉ g.der

theorem line_complete {g : Generated} {text : Bytes} (hg : OneLine g)
    (hfront : text <+: certificatePEM linePki g.der) (hlast : text.getLast? = some 0x0A) :
    text = g.der ++ [0x0A] := by
  refine (List.prefix_concat_iff.mp hfront).resolve_right fun htorn => hg ?_
  exact htorn.subset (List.mem_of_getLast? hlast)

theorem line_readsTorn : ReadsTorn linePki linePair OneLine where
  block := by
    intro g text block rest hg hfront hdecode
    simp only [linePki, Option.ite_none_right_eq_some] at hdecode
    obtain ⟨hlast, hblock⟩ := hdecode
    cases hblock
    rw [line_complete hg hfront hlast, List.dropLast_concat]
  pair := by
    intro g text keyPEM chain hg hfront hpair
    rw [linePair] at hpair
    split at hpair
    case isTrue hlast =>
      cases hpair
      have htext := line_complete hg hfront hlast.1
      subst htext
      simp [linePki]
    case isFalse => cases hpair
  whole := by
    intro g keyDER hg hkey
    simp [linePair, certificatePEM, keyPEM, linePki]

def firstIdentity : Generated := ⟨[0x50], .ecdsa "P-256" [0x4B]⟩
def secondIdentity : Generated := ⟨[0x51], .ecdsa "P-256" [0x4C]⟩
def removedHost : HeadHost := ⟨none, none, .reading, []⟩

def killedHost : HeadHost := removedHost.certWritten linePki firstIdentity

def refreshedWorker : WorkerHost :=
  { plainHost with readPinned := .ok (certificatePEM linePki firstIdentity.der) }

theorem killedHost_reached :
    ReflTransGen (Step linePki linePair OneLine) removedHost killedHost := by
  have hline : OneLine firstIdentity := by
    rw [OneLine]
    decide
  exact certWritten_reached rfl rfl hline rfl

theorem second_served : ∃ u, ReflTransGen (Step linePki linePair OneLine) killedHost.restarted u ∧
    u.start = .serving [secondIdentity.der] ∧ killedHost.Fresh u := by
  have hline : OneLine secondIdentity := by
    rw [OneLine]
    decide
  have hkey : linePki.marshalECPrivateKey secondIdentity.priv = .ok [] := rfl
  have hwritten : ReflTransGen (Step linePki linePair OneLine) killedHost.restarted
      (killedHost.restarted.certWritten linePki secondIdentity) :=
    certWritten_reached rfl rfl hline rfl
  refine ⟨_, hwritten.trans (serving_reached hkey), rfl, ?_⟩
  intro der hder
  rw [List.mem_singleton.mp hder]
  decide

/-- A server that is killed before it has written its key leaves workers that refuse the next one,
and one that is killed later leaves workers that take it. -/
theorem kill_decides_workers :
    (∃ u chain, ReflTransGen (Step linePki linePair OneLine) killedHost.restarted u ∧
      u.start = .serving chain ∧ ¬Accepts linePki refreshedWorker chain) ∧
    ∃ s u chain, ReflTransGen (Step linePki linePair OneLine) removedHost s ∧
      ReflTransGen (Step linePki linePair OneLine) s.restarted u ∧ u.start = .serving chain ∧
      Accepts linePki refreshedWorker chain := by
  have hremoved : removedHost.Removed := ⟨rfl, rfl, rfl⟩
  have hpin : refreshedWorker.readPinned = .ok (certificatePEM linePki firstIdentity.der) := rfl
  constructor
  · obtain ⟨u, hlater, hserving, hfresh⟩ := second_served
    have hpinned := refreshed_identity_pinned line_readsTorn hremoved killedHost_reached rfl hpin
    refine ⟨u, _, hlater, hserving, fun haccepts => ?_⟩
    obtain ⟨chain', hloads⟩ := (hpinned.2.2 u _ hlater hserving hfresh).1.mp haccepts
    exact certWritten_not_loads hloads
  · have hkey : linePki.marshalECPrivateKey firstIdentity.priv = .ok [] := rfl
    have hrun := killedHost_reached.trans (serving_reached hkey)
    have hpinned := refreshed_identity_pinned line_readsTorn hremoved hrun rfl hpin
    have hloads := hpinned.1 _ rfl
    obtain ⟨u, hserving, hissued, hlater⟩ := hpinned.2.1 _ hloads
    have hiff := (hpinned.2.2 u _ hlater hserving (HeadHost.fresh_of_same hissued)).1
    exact ⟨_, u, _, hrun, hlater, hserving, hiff.mpr ⟨_, hloads⟩⟩

end DistributedEnclave.Atls.ServerIdentity
