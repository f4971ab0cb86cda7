import DistributedEnclave.Octets

/-! What the MPI programs share: the libsodium operations they call, over any type of
octet strings, and the structures of the attestation exchange. -/
namespace DistributedEnclave.Cluster
open DistributedEnclave.Octets
universe u

/-- The characters of a C string literal, without the final zero. -/
def chars (s : String) : Bytes := s.toList.map Char.toUInt8

/-- libsodium. A hash takes the parts that `crypto_generichash_update` is given in turn;
`kxServerSessionKeys` and `kxClientSessionKeys` return `(rx, tx)`. -/
structure Sodium (β : Type u) where
  octets : Bytes → β
  generichash : Nat → List β → β
  keyedhash : β → List β → β
  kxPublic : β → β
  kxServerSessionKeys : β → β → β → Option (β × β)
  kxClientSessionKeys : β → β → β → Option (β × β)
  signDetached : β → β → Option β
  signVerifyDetached : β → β → β → Bool

/-- `strncmp` on arrays of `char`; past their end they count as zero. -/
def strncmp : Nat → Bytes → Bytes → Int
  | 0, _, _ => 0
  | n+1, a, b =>
    let x := a.headD 0
    let y := b.headD 0
    if x ≠ y then (x.toNat:Int)-y.toNat
    else if x = 0 then 0
    else strncmp n a.tail b.tail

def hashLen : Nat := 32
def maxReportLen : Nat := 16384
def maxWorkers : Nat := 128
def eaMediaType : Bytes := chars "application/eat+cwt"
def eaExporterLabel : Bytes := chars "Attestation"

structure EaRequest (β : Type u) where
  context : β
  attestationOffer : UInt8
  deriving DecidableEq

structure EaBinder (β : Type u) where
  aikPubHash : β
  binding : β
  exporterLabel : Bytes
  deriving DecidableEq

structure EaPayloadHdr (β : Type u) where
  version : UInt32
  mediaType : Bytes
  evidenceLen : UInt32
  binder : EaBinder β
  deriving DecidableEq

structure EaAuthHdr (β : Type u) where
  clientPk : β
  payloadHdr : EaPayloadHdr β
  deriving DecidableEq

structure PayloadAccepted {β : Type u} (version : UInt32) (expectedAik expectedBinding : β)
    (hdr : EaPayloadHdr β) : Prop where
  version_eq : hdr.version = version
  mediaType_eq : strncmp 64 hdr.mediaType eaMediaType = 0
  exporterLabel_eq : strncmp 64 hdr.binder.exporterLabel eaExporterLabel = 0
  aikPubHash_eq : expectedAik = hdr.binder.aikPubHash
  binding_eq : expectedBinding = hdr.binder.binding

section
variable {β : Type u} [DecidableEq β]

/-- The checks of `ea_verify_payload` in both masters, in their order. -/
def verifyPayloadOf (version : UInt32) (expectedAik expectedBinding : β)
    (hdr : EaPayloadHdr β) : Int :=
  if hdr.version ≠ version then -1
  else if strncmp 64 hdr.mediaType eaMediaType ≠ 0 then -1
  else if strncmp 64 hdr.binder.exporterLabel eaExporterLabel ≠ 0 then -1
  else if expectedAik ≠ hdr.binder.aikPubHash then -1
  else if expectedBinding ≠ hdr.binder.binding then -1
  else 0

theorem verifyPayloadOf_eq_zero_iff {version : UInt32} {aik binding : β} {hdr : EaPayloadHdr β} :
    verifyPayloadOf version aik binding hdr = 0 ↔ PayloadAccepted version aik binding hdr := by
  constructor
  · intro h
    simp only [verifyPayloadOf, ite_not] at h
    split_ifs at h with hversion hmedia hlabel haik hbinding
    exact ⟨hversion, hmedia, hlabel, haik, hbinding⟩
  · intro h
    simp [verifyPayloadOf, h.version_eq, h.mediaType_eq, h.exporterLabel_eq, h.aikPubHash_eq,
      h.binding_eq]

end

def plainSodium : Sodium Bytes where
  octets := id
  generichash _ parts := parts.flatten
  keyedhash key parts := key ++ parts.flatten
  kxPublic sk := sk
  kxServerSessionKeys serverPk _ clientPk :=
    some (serverPk ++ clientPk ++ [1], serverPk ++ clientPk ++ [2])
  kxClientSessionKeys clientPk _ serverPk :=
    some (serverPk ++ clientPk ++ [2], serverPk ++ clientPk ++ [1])
  signDetached sk message := some (sk ++ message)
  signVerifyDetached signature message pk := signature = pk ++ message

end DistributedEnclave.Cluster
