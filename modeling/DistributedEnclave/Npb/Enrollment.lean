import DistributedEnclave.Cluster.SnpReport
import DistributedEnclave.Npb.KeyAgreement
import DistributedEnclave.Npb.Messages
import DistributedEnclave.Transition

/-! The enrollment phase of `master_npb.c` in the build with attestation: one round for
each wanted worker, cut where the program waits for a message, and what follows it. -/
namespace DistributedEnclave.Npb
open DistributedEnclave.Octets DistributedEnclave.Cluster DistributedEnclave.Transition
universe u v

/-- The entry of `workers`, `wkey`, `wkey_rx` and `channel_binding` for one worker; `comm`
is the round in which its communicator was accepted. -/
@[ext] structure Slot (β : Type u) where
  comm : Nat
  wkey : β
  wkeyRx : β
  channelBinding : β
  deriving DecidableEq

structure Pending (β : Type u) where
  context : β
  hdr : EaAuthHdr β
  evidenceHash : β
  serverPk : β
  transcriptHash : β
  trafficTx : β
  trafficRx : β
  confirmTx : β
  confirmRx : β
  deriving DecidableEq

inductive Phase (β : Type u) where
  | accept
  | awaitHeader (context : β)
  | awaitEvidence (context : β) (hdr : EaAuthHdr β)
  | validate (context : β) (hdr : EaAuthHdr β) (evidence : Bytes)
  | awaitFinish (pending : Pending β)
  | partialDone (w : Nat)
  | benchmark
  | returned (code : Int)
  | aborted
  deriving DecidableEq

/-- A message on the data plane: a command, or anything else with its tag. -/
inductive DataMessage where
  | command (tag : Int32) (cmd : NpbCmd)
  | other (tag : Int32) (content : Bytes)
  deriving DecidableEq

inductive Event (Env : Type v) (β : Type u) where
  | sent (m : Message β)
  | received (m : Message β)
  | reportChecked (env : Env) (report : Bytes) (reportData : β) (result : Int)
  | stored (i : Nat) (slot : Slot β)
  | dataPlane (w : Nat) (m : DataMessage)
  deriving DecidableEq

structure Central (Env : Type v) (β : Type u) where
  round : Nat
  phase : Phase β
  slots : Nat → Option (Slot β)
  nworkers : Nat
  log : List (Event Env β)

namespace Central
variable {Env : Type v} {β : Type u}

def initial : Central Env β := ⟨1, .accept, fun _ => none, 0, []⟩

def record (c : Central Env β) (events : List (Event Env β)) : Central Env β :=
  { c with log := c.log ++ events }

def enter (c : Central Env β) (phase : Phase β) : Central Env β := { c with phase := phase }

/-- `continue`, or the end of the loop body. -/
def endRound (c : Central Env β) : Central Env β :=
  { c with phase := .accept, round := c.round+1 }

def store (c : Central Env β) (slot : Slot β) : Central Env β :=
  { c with
    slots := Function.update c.slots c.nworkers (some slot)
    nworkers := c.nworkers+1
    log := c.log ++ [.stored c.nworkers slot] }

def beginRound (c : Central Env β) (context : β) : Central Env β :=
  (c.record [.sent (.eaRequest ⟨context, 1⟩)]).enter (.awaitHeader context)

def onHeader (c : Central Env β) (context : β) (hdr : EaAuthHdr β) : Central Env β :=
  let evidenceLen := hdr.payloadHdr.evidenceLen.toNat
  let c := c.record [.received (.eaAuthHdr hdr)]
  if evidenceLen > maxReportLen then c.endRound
  else if evidenceLen > 0 then c.enter (.awaitEvidence context hdr)
  else c.enter (.validate context hdr [])

/-- `npb_recv_exact` fails on a message of another length, and `die_mpi` aborts. -/
def onEvidence (c : Central Env β) (context : β) (hdr : EaAuthHdr β) (evidence : Bytes) :
    Central Env β :=
  if evidence.length ≠ hdr.payloadHdr.evidenceLen.toNat then c.enter .aborted
  else (c.record [.received (.eaEvidenceData evidence)]).enter (.validate context hdr evidence)

section
variable [DecidableEq β] (S : Sodium β) (verifyReport : Env → Bytes → β → Int) (ownerSignSk : β)

/-- `attest_ok` before the report is looked at. -/
def payloadOk (context : β) (hdr : EaAuthHdr β) : Bool :=
  eaVerifyPayload S hdr.payloadHdr context hdr.clientPk = 0

def attestOk (context : β) (hdr : EaAuthHdr β) (evidence : Bytes) (env : Env) : Int32 :=
  let evidenceLen := hdr.payloadHdr.evidenceLen.toNat
  let ok : Int32 := if payloadOk S context hdr then 1 else 0
  let ok : Int32 :=
    if ok ≠ 0 ∧ evidenceLen > 0 then
      if verifyReport env evidence hdr.payloadHdr.binder.binding ≠ 0 then 0 else ok
    else ok
  if evidenceLen = 0 then 0 else ok

def reportCheck (context : β) (hdr : EaAuthHdr β) (evidence : Bytes) (env : Env) :
    List (Event Env β) :=
  if payloadOk S context hdr ∧ hdr.payloadHdr.evidenceLen.toNat > 0 then
    [.reportChecked env evidence hdr.payloadHdr.binder.binding
      (verifyReport env evidence hdr.payloadHdr.binder.binding)]
  else []

def keyExchange (c : Central Env β) (context : β) (hdr : EaAuthHdr β) (evidenceHash serverSk : β) :
    Central Env β :=
  let serverPk := S.kxPublic serverSk
  let transcriptHash := computeKxTranscript S context hdr.clientPk serverPk
    hdr.payloadHdr.binder.binding evidenceHash
  match S.signDetached ownerSignSk transcriptHash with
  | none => c.endRound
  | some signature =>
    let c := c.record [.sent (.kxServerAuth serverPk signature)]
    match S.kxServerSessionKeys serverPk serverSk hdr.clientPk with
    | none => c.endRound
    | some (rawRx, rawTx) => c.enter (.awaitFinish {
        context := context
        hdr := hdr
        evidenceHash := evidenceHash
        serverPk := serverPk
        transcriptHash := transcriptHash
        trafficTx := deriveBoundKey S rawTx transcriptHash "traffic:c2w"
        trafficRx := deriveBoundKey S rawRx transcriptHash "traffic:w2c"
        confirmTx := deriveBoundKey S rawTx transcriptHash "confirm:c2w"
        confirmRx := deriveBoundKey S rawRx transcriptHash "confirm:w2c" })

def onValidate (c : Central Env β) (context : β) (hdr : EaAuthHdr β) (evidence : Bytes)
    (env : Env) (serverSk : β) : Central Env β :=
  let ok := attestOk S verifyReport context hdr evidence env
  let c := c.record (reportCheck S verifyReport context hdr evidence env ++ [.sent (.eaResult ok)])
  if ok = 0 then c.endRound
  else keyExchange S ownerSignSk c context hdr (hashEvidence S evidence) serverSk

def onFinish (c : Central Env β) (p : Pending β) (clientFinish : β) : Central Env β :=
  let c := c.record [.received (.kxClientFinish clientFinish)]
  if clientFinish ≠ computeKeyConfirmation S p.confirmRx p.transcriptHash "worker" then c.endRound
  else
    let serverFinish := computeKeyConfirmation S p.confirmTx p.transcriptHash "central-node"
    let c := c.record [.sent (.kxServerFinish serverFinish)]
    (c.store ⟨c.round, p.trafficTx, p.trafficRx, p.transcriptHash⟩).endRound

def afterRounds (c : Central Env β) (target : Nat) : Central Env β :=
  if c.nworkers ≠ target then c.enter (.partialDone 0) else c.enter .benchmark

def sendDone (c : Central Env β) (w : Nat) : Central Env β :=
  if w < c.nworkers then
    (c.record [.dataPlane w (.command tagNpbCmd { cmd := cmdNpbDone })]).enter (.partialDone (w+1))
  else c.enter (.returned 1)

inductive Input (Env : Type v) (β : Type u) where
  | context (context : β)
  | message (m : Message β)
  | validate (env : Env) (serverSk : β)
  | proceed
  | data (w : Nat) (m : DataMessage)
  | abort

/-- One step. The benchmark may send anything on the data plane here. -/
inductive Step (target : Nat) : Central Env β → Input Env β → Central Env β → Prop
  | accept {c} (context : β) : c.phase = .accept → c.round ≤ target →
      Step target c (.context context) (c.beginRound context)
  | header {c context} (hdr : EaAuthHdr β) : c.phase = .awaitHeader context →
      Step target c (.message (.eaAuthHdr hdr)) (c.onHeader context hdr)
  | evidence {c context hdr} (evidence : Bytes) : c.phase = .awaitEvidence context hdr →
      Step target c (.message (.eaEvidenceData evidence)) (c.onEvidence context hdr evidence)
  | validate {c context hdr evidence} (env : Env) (serverSk : β) :
      c.phase = .validate context hdr evidence →
      Step target c (.validate env serverSk)
        (onValidate S verifyReport ownerSignSk c context hdr evidence env serverSk)
  | finish {c p} (clientFinish : β) : c.phase = .awaitFinish p →
      Step target c (.message (.kxClientFinish clientFinish)) (onFinish S c p clientFinish)
  | enrolled {c} : c.phase = .accept → target < c.round →
      Step target c .proceed (c.afterRounds target)
  | sendDone {c w} : c.phase = .partialDone w → Step target c .proceed (c.sendDone w)
  | benchmark {c} (w : Nat) (m : DataMessage) : c.phase = .benchmark →
      Step target c (.data w m) (c.record [.dataPlane w m])
  | abort {c} : Step target c .abort (c.enter .aborted)

abbrev Run (target : Nat) (c : Central Env β) : Prop :=
  Reachable (fun c => c = initial)
    (fun c c' => ∃ input, Step S verifyReport ownerSignSk target c input c') c

end
end Central
end DistributedEnclave.Npb
