import DistributedEnclave.Cluster.Primitives

/-! The computations of the owner-authenticated key agreement. `master_npb.c` and
`worker_npb.c` hold the same text for each of them; they differ in who calls what. -/
namespace DistributedEnclave.Npb
open DistributedEnclave.Octets DistributedEnclave.Cluster
universe u
variable {β : Type u} (S : Sodium β)

def bindingLen : Nat := 64
def eaPayloadVersion : UInt32 := 2
def kxTranscriptDomain : Bytes := chars "PPDPC-OPENMPI-KX-V3"
def kdfDomain : Bytes := chars "PPDPC-OPENMPI-KDF-V2"
def finishedDomain : Bytes := chars "PPDPC-OPENMPI-FINISHED-V2"

def hashEvidence (evidence : Bytes) : β := S.generichash hashLen [S.octets evidence]

def computeKxTranscript (context clientPk serverPk binding evidenceHash : β) : β :=
  S.generichash hashLen
    [S.octets kxTranscriptDomain, context, clientPk, serverPk, binding, evidenceHash]

def deriveBoundKey (rawKey transcriptHash : β) (label : String) : β :=
  S.keyedhash rawKey [S.octets kdfDomain, S.octets (chars label), transcriptHash]

def computeKeyConfirmation (key transcriptHash : β) (role : String) : β :=
  S.keyedhash key [S.octets finishedDomain, S.octets (chars role), transcriptHash]

def eaAikPubHash (pubKey : β) : β := S.generichash hashLen [pubKey]

def eaBindingValue (pubKey context : β) : β := S.generichash bindingLen [pubKey, context]

def eaVerifyPayload [DecidableEq β] (hdr : EaPayloadHdr β) (context pubKey : β) : Int :=
  verifyPayloadOf eaPayloadVersion (eaAikPubHash S pubKey) (eaBindingValue S pubKey context) hdr

inductive Message (β : Type u) where
  | eaRequest (request : EaRequest β)
  | eaAuthHdr (hdr : EaAuthHdr β)
  | eaEvidenceData (evidence : Bytes)
  | eaResult (attestOk : Int32)
  | kxServerAuth (serverPk signature : β)
  | kxClientFinish (finish : β)
  | kxServerFinish (finish : β)
  deriving DecidableEq

end DistributedEnclave.Npb
