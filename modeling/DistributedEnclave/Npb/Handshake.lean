import DistributedEnclave.Npb.Enrollment
import DistributedEnclave.Symbolic

/-! The owner-authenticated handshake as a system: the enrollment of `worker_npb.c`, the
central node, any number of workers, and an attacker that sees every message and delivers
whatever it can derive. -/
namespace DistributedEnclave.Npb
open DistributedEnclave.Octets DistributedEnclave.Cluster DistributedEnclave.Symbolic
  DistributedEnclave.Transition
universe u v

structure Hello (β : Type u) where
  context : β
  clientPk : β
  clientSk : β
  binding : β
  evidenceHash : β
  deriving DecidableEq

structure Agreement (β : Type u) where
  context : β
  clientPk : β
  serverPk : β
  binding : β
  evidenceHash : β
  transcriptHash : β
  trafficRx : β
  trafficTx : β
  confirmRx : β
  confirmTx : β
  deriving DecidableEq

/-- `g_session_key`, `g_recv_key` and `g_channel_binding`. -/
structure Session (β : Type u) where
  sessionKey : β
  recvKey : β
  channelBinding : β
  deriving DecidableEq

inductive WorkerPhase (β : Type u) where
  | awaitRequest
  | awaitResult (v : Hello β)
  | awaitServerAuth (v : Hello β)
  | awaitServerFinish (g : Agreement β)
  | established
  | returned (code : Int)
  | aborted
  deriving DecidableEq

inductive WorkerEvent (β : Type u) where
  | sent (m : Message β)
  | received (m : Message β)
  | agreed (g : Agreement β)
  | established (g : Agreement β) (s : Session β)
  deriving DecidableEq

structure Worker (β : Type u) where
  phase : WorkerPhase β
  log : List (WorkerEvent β)

namespace Worker
variable {β : Type u}

def initial : Worker β := ⟨.awaitRequest, []⟩

def record (w : Worker β) (events : List (WorkerEvent β)) : Worker β :=
  { w with log := w.log ++ events }

def enter (w : Worker β) (phase : WorkerPhase β) : Worker β := { w with phase := phase }

/-- A `char` array of 64 that `strncpy` fills after `memset`. -/
def charArray (text : Bytes) : Bytes := text.take 63 ++ List.replicate (64-(text.take 63).length) 0

variable (S : Sodium β)

def authHdr (context clientPk : β) (evidenceLen : Nat) : EaAuthHdr β :=
  ⟨clientPk, eaPayloadVersion, charArray eaMediaType, UInt32.ofNat evidenceLen,
    eaAikPubHash S clientPk, eaBindingValue S clientPk context, charArray eaExporterLabel⟩

/-- `report` is what `get_sev_snp_report` hands back for the binding, `none` its failure. -/
def onRequest (w : Worker β) (request : EaRequest β) (clientSk : β) (report : Option Bytes) :
    Worker β :=
  let w := w.record [.received (.eaRequest request)]
  let clientPk := S.kxPublic clientSk
  let evidence := if request.attestationOffer ≠ 0 then report else some []
  match evidence with
  | none => w.enter .aborted
  | some evidence =>
    let w := w.record [.sent (.eaAuthHdr (authHdr S request.context clientPk evidence.length))]
    let w := if evidence.length > 0 then w.record [.sent (.eaEvidenceData evidence)] else w
    w.enter (.awaitResult ⟨request.context, clientPk, clientSk,
      eaBindingValue S clientPk request.context, hashEvidence S evidence⟩)

def onResult (w : Worker β) (v : Hello β) (attestOk : Int32) : Worker β :=
  let w := w.record [.received (.eaResult attestOk)]
  if attestOk = 0 then w.enter (.returned 1) else w.enter (.awaitServerAuth v)

def agreement (v : Hello β) (serverPk rawRx rawTx : β) : Agreement β :=
  let transcriptHash := computeKxTranscript S v.context v.clientPk serverPk v.binding v.evidenceHash
  { context := v.context
    clientPk := v.clientPk
    serverPk := serverPk
    binding := v.binding
    evidenceHash := v.evidenceHash
    transcriptHash := transcriptHash
    trafficRx := deriveBoundKey S rawRx transcriptHash "traffic:c2w"
    trafficTx := deriveBoundKey S rawTx transcriptHash "traffic:w2c"
    confirmRx := deriveBoundKey S rawRx transcriptHash "confirm:c2w"
    confirmTx := deriveBoundKey S rawTx transcriptHash "confirm:w2c" }

def onServerAuth (w : Worker β) (ownerSignPk : β) (v : Hello β) (serverPk signature : β) :
    Worker β :=
  let w := w.record [.received (.kxServerAuth serverPk signature)]
  let transcriptHash := computeKxTranscript S v.context v.clientPk serverPk v.binding v.evidenceHash
  if ¬S.signVerifyDetached signature transcriptHash ownerSignPk then w.enter (.returned 1)
  else
    match S.kxClientSessionKeys v.clientPk v.clientSk serverPk with
    | none => w.enter (.returned 1)
    | some (rawRx, rawTx) =>
      let g := agreement S v serverPk rawRx rawTx
      let clientFinish := computeKeyConfirmation S g.confirmTx transcriptHash "worker"
      (w.record [.agreed g, .sent (.kxClientFinish clientFinish)]).enter (.awaitServerFinish g)

def onServerFinish [DecidableEq β] (w : Worker β) (g : Agreement β) (serverFinish : β) :
    Worker β :=
  let w := w.record [.received (.kxServerFinish serverFinish)]
  if serverFinish ≠ computeKeyConfirmation S g.confirmRx g.transcriptHash "central-node" then
    w.enter (.returned 1)
  else
    (w.record [.established g ⟨g.trafficTx, g.trafficRx, g.transcriptHash⟩]).enter .established

inductive Step [DecidableEq β] (ownerSignPk clientSk : β) :
    Worker β → Option (Message β) → Worker β → Prop
  | request {w} (request : EaRequest β) (report : Option Bytes) : w.phase = .awaitRequest →
      Step ownerSignPk clientSk w (some (.eaRequest request))
        (w.onRequest S request clientSk report)
  | result {w v} (attestOk : Int32) : w.phase = .awaitResult v →
      Step ownerSignPk clientSk w (some (.eaResult attestOk)) (w.onResult v attestOk)
  | serverAuth {w v} (serverPk signature : β) : w.phase = .awaitServerAuth v →
      Step ownerSignPk clientSk w (some (.kxServerAuth serverPk signature))
        (w.onServerAuth S ownerSignPk v serverPk signature)
  | serverFinish {w g} (finish : β) : w.phase = .awaitServerFinish g →
      Step ownerSignPk clientSk w (some (.kxServerFinish finish)) (w.onServerFinish S g finish)
  | abort {w} : Step ownerSignPk clientSk w none (w.enter .aborted)

end Worker

inductive Name (W : Type u) where
  | owner
  | context (round : Nat)
  | server (round : Nat)
  | client (w : W)
  | attacker (n : Nat)
  deriving DecidableEq

def Name.IsSecret {W : Type u} : Name W → Prop
  | .owner | .server _ | .client _ => True
  | .context _ | .attacker _ => False

/-- libsodium over terms. `weak` are the public keys that `crypto_kx` refuses; callers pass
the public part of their own secret key. -/
def symbolic {N : Type u} [DecidableEq N] (weak : Term N → Bool) : Sodium (Term N) where
  octets := .octets
  generichash len parts := .hash len (Term.tuple parts)
  keyedhash key parts := .mac key (Term.tuple parts)
  kxPublic := .pub
  kxServerSessionKeys _ serverSk clientPk :=
    if weak clientPk then none
    else some (.shared .toServer clientPk (.pub serverSk), .shared .toClient clientPk (.pub serverSk))
  kxClientSessionKeys _ clientSk serverPk :=
    if weak serverPk then none
    else some (.shared .toClient (.pub clientSk) serverPk, .shared .toServer (.pub clientSk) serverPk)
  signDetached sk message := some (.sign sk message)
  signVerifyDetached signature message pk :=
    match pk with
    | .pub sk => signature = .sign sk message
    | _ => false

/-- The cryptographic values in a message; the rest of it is free. -/
def Message.terms {β : Type u} : Message β → List β
  | .eaRequest request => [request.context]
  | .eaAuthHdr hdr => [hdr.clientPk, hdr.payloadHdr.binder.aikPubHash, hdr.payloadHdr.binder.binding]
  | .eaEvidenceData _ | .eaResult _ => []
  | .kxServerAuth serverPk signature => [serverPk, signature]
  | .kxClientFinish finish | .kxServerFinish finish => [finish]

structure System (Env : Type v) (W : Type u) where
  central : Central Env (Term (Name W))
  workers : W → Worker (Term (Name W))

namespace System
variable {Env : Type v} {W : Type u}

def initial : System Env W := ⟨.initial, fun _ => .initial⟩

def Sent (s : System Env W) (m : Message (Term (Name W))) : Prop :=
  .sent m ∈ s.central.log ∨ ∃ w, .sent m ∈ (s.workers w).log

def knowledge (s : System Env W) : Set (Term (Name W)) := {t | ∃ m, s.Sent m ∧ t ∈ m.terms}

/-- The attacker can deliver a message when it can derive what is in it. -/
def Deliverable (s : System Env W) (m : Message (Term (Name W))) : Prop :=
  ∀ t ∈ m.terms, Derives Name.IsSecret s.knowledge t

/-- Messages come from the attacker, contexts and key pairs are fresh for each round. -/
def Admissible (s : System Env W) : Central.Input Env (Term (Name W)) → Prop
  | .context context => context = .name (.context s.central.round)
  | .message m => s.Deliverable m
  | .validate _ serverSk => serverSk = .name (.server s.central.round)
  | .proceed | .data _ _ | .abort => True

variable [DecidableEq W]

def setWorker (s : System Env W) (w : W) (worker : Worker (Term (Name W))) : System Env W :=
  { s with workers := Function.update s.workers w worker }

theorem setWorker_self (s : System Env W) (w : W) (worker : Worker (Term (Name W))) :
    (s.setWorker w worker).workers w = worker := Function.update_self ..

theorem setWorker_ne (s : System Env W) {w x : W} (h : x ≠ w) (worker : Worker (Term (Name W))) :
    (s.setWorker w worker).workers x = s.workers x := Function.update_of_ne h ..

variable (weak : Term (Name W) → Bool)
  (verifyReport : Env → Bytes → Term (Name W) → Int) (target : Nat)

inductive Step : System Env W → System Env W → Prop
  | central {s c'} (input : Central.Input Env (Term (Name W))) : s.Admissible input →
      Central.Step (symbolic weak) verifyReport (.name .owner) target s.central input c' →
      Step s { s with central := c' }
  | worker {s w'} (w : W) (input : Option (Message (Term (Name W)))) :
      (∀ m, input = some m → s.Deliverable m) →
      Worker.Step (symbolic weak) (.pub (.name .owner)) (.name (.client w)) (s.workers w) input w' →
      Step s (s.setWorker w w')

abbrev Run (s : System Env W) : Prop :=
  Reachable (fun s => s = initial) (Step weak verifyReport target) s

end System
end DistributedEnclave.Npb
