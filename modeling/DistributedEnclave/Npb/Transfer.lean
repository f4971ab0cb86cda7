import DistributedEnclave.Binary64
import DistributedEnclave.Rendezvous
import DistributedEnclave.Npb.Messages
import DistributedEnclave.Npb.SecureChannel

/-! The messages of the benchmark phase and the functions that transfer them. Encryption is
ideal here: a sealed message opens under its own counter, tag and length and no other. -/
namespace DistributedEnclave.Npb
open DistributedEnclave.Programs

def tagNpbEpResult : Int32 := 131
def tagNpbCgX : Int32 := 132
def tagNpbCgY : Int32 := 133
def tagNpbCgMatrix : Int32 := 134
def tagNpbTime : Int32 := 135
def tagStreamReady : Int32 := 136
def tagStreamRun : Int32 := 137
def tagStreamResult : Int32 := 138
def tagRandomReady : Int32 := 139
def tagRandomRun : Int32 := 140
def tagRandomResult : Int32 := 141
def tagVmapReady : Int32 := 142
def tagVmapInput : Int32 := 143
def tagVmapOutput : Int32 := 144
def tagVmapResult : Int32 := 145
def tagTaskqReady : Int32 := 146
def tagTaskqControl : Int32 := 147
def tagTaskqTask : Int32 := 148
def tagTaskqInput : Int32 := 149
def tagTaskqResult : Int32 := 150
def tagTaskqOutput : Int32 := 151

def workloadEp : Int32 := 1
def workloadCg : Int32 := 2
def workloadStream : Int32 := 3
def workloadRandom : Int32 := 4
def workloadVmap : Int32 := 5
def workloadTaskq : Int32 := 6

structure EpResult where
  counts : List Int
  sx : Binary64
  sy : Binary64

structure WorkloadReady where
  workload : Int32
  ok : Int32
  elementCount : UInt64

structure RunTrigger where
  run : Int32
  reserved : Int32 := 0

structure StreamResult where
  run : Int32
  verified : Int32
  computeMs : Binary64
  checksum : Binary64

structure RandomResult where
  run : Int32
  verified : Int32
  finalToken : UInt32
  reserved : UInt32 := 0
  computeMs : Binary64

structure VmapResult where
  run : Int32
  verified : Int32
  computeMs : Binary64
  checksum : Binary64

structure TaskqControl where
  command : Int32
  run : Int32

structure TaskqTask where
  command : Int32
  run : Int32
  taskId : UInt64
  iterations : UInt64
  payloadBytes : UInt32
  reserved : UInt32 := 0

structure TaskqResult where
  run : Int32
  verified : Int32
  taskId : UInt64
  token : UInt64
  payloadBytes : UInt32
  reserved : UInt32 := 0
  computeMs : Binary64

inductive Payload where
  | cmd (c : NpbCmd)
  | seed (s : Int64)
  | epResult (r : EpResult)
  | time (ms : Binary64)
  | ready (r : WorkloadReady)
  | trigger (t : RunTrigger)
  | streamResult (r : StreamResult)
  | randomResult (r : RandomResult)
  | vmapResult (r : VmapResult)
  | taskqControl (c : TaskqControl)
  | taskqTask (t : TaskqTask)
  | taskqResult (r : TaskqResult)
  | octets (l : List UInt8)
  | ints (l : List Int32)
  | doubles (l : List Binary64)

def sizeofNpbCmd : Nat := 104
def sizeofSeed : Nat := 8
def sizeofEpResult : Nat := 96
def sizeofDouble : Nat := 8
def sizeofInt : Nat := 4
def sizeofWorkloadReady : Nat := 16
def sizeofRunTrigger : Nat := 8
def sizeofStreamResult : Nat := 24
def sizeofRandomResult : Nat := 24
def sizeofVmapResult : Nat := 24
def sizeofTaskqControl : Nat := 8
def sizeofTaskqTask : Nat := 32
def sizeofTaskqResult : Nat := 40

@[simp] def Payload.size : Payload → Nat
  | cmd _ => sizeofNpbCmd
  | seed _ => sizeofSeed
  | epResult _ => sizeofEpResult
  | time _ => sizeofDouble
  | ready _ => sizeofWorkloadReady
  | trigger _ => sizeofRunTrigger
  | streamResult _ => sizeofStreamResult
  | randomResult _ => sizeofRandomResult
  | vmapResult _ => sizeofVmapResult
  | taskqControl _ => sizeofTaskqControl
  | taskqTask _ => sizeofTaskqTask
  | taskqResult _ => sizeofTaskqResult
  | octets l => l.length
  | ints l => l.length*sizeofInt
  | doubles l => l.length*sizeofDouble

inductive Wire where
  | plain (data : Payload)
  | sealed (counter : Nat) (plaintext : Payload)

def Wire.length : Wire → Nat
  | plain data => data.size
  | sealed _ plaintext => npub+plaintext.size+abytes

def Wire.payload : Wire → Payload
  | plain data => data
  | sealed _ plaintext => plaintext

def Wire.isSealed : Wire → Bool
  | plain _ => false
  | sealed _ _ => true

structure Envelope where
  tag : Int32
  wire : Wire

/-- A posted receive: its tag, the length of the plaintext, and whether it is decrypted. -/
structure Posted where
  tag : Int32
  len : Nat
  encrypted : Bool

/-- MPI matches messages by tag. -/
def Envelope.fits (m : Envelope) (q : Posted) : Prop := m.tag = q.tag

def Envelope.Exact (m : Envelope) (q : Posted) : Prop :=
  m.tag = q.tag ∧ match m.wire with
    | .plain data => q.encrypted = false ∧ data.size = q.len
    | .sealed _ plaintext => q.encrypted = true ∧ plaintext.size = q.len

inductive Reason where
  | nonceExhausted
  | fatal
  deriving DecidableEq

structure Counters where
  sendNonceCtr : Nat := 0
  recvNonceCtr : Nat := 0
  deriving DecidableEq

def Counters.mirror (c : Counters) : Unit → Counters := fun _ => ⟨c.recvNonceCtr, c.sendNonceCtr⟩

/-- A process whose loops have the heads `L` and return `R`; both come with the counters. -/
abbrev Party (P L R : Type) : Signature Envelope Posted where
  Peer := P
  Loop := L × (P → Counters)
  Result := R × (P → Counters)
  Reason := Reason

inductive Kernel where
  | ep (run : Int32)
  | cg (run : Int32) (iter : Nat)
  | stream (run : Int32)
  | random (run : Int32)
  | vmap (run : Int32)
  | taskq (run : Int32) (taskId : UInt64)

/-- What a worker measures: `MPI_Wtime` does not run backwards. -/
structure Clock where
  ms : Kernel → Binary64
  isfinite : ∀ k, (ms k).isfinite = true
  nonneg : ∀ k, (ms k).lt 0 = false

section
variable {P L R : Type} [DecidableEq P]

def enter (l : L) : Code (Party P L R) Counters R := fun c => .loop (l, c) .ret

def mpiAbort (r : Reason) {A : Type} : Code (Party P L R) Counters A := fun _ => .abort r

def mpiIprobe (p : P) (tag : Int32) : Code (Party P L R) Counters Bool :=
  fun c => .poll p ⟨tag, 0, false⟩ (fun found => .ret (found, c))

/-- `MPI_Send` of a buffer, encrypted under the next counter. -/
def sendSealed (p : P) (data : Payload) (tag : Int32) : Code (Party P L R) Counters Unit :=
  fun c =>
    if (c p).sendNonceCtr = uint64Max then .abort .nonceExhausted
    else .send p ⟨tag, .sealed (c p).sendNonceCtr data⟩ (.ret ((),
      Function.update c p { c p with sendNonceCtr := (c p).sendNonceCtr+1 }))

def sendPlain (p : P) (data : Payload) (tag : Int32) : Code (Party P L R) Counters Unit :=
  fun c => .send p ⟨tag, .plain data⟩ (.ret ((), c))

/-- `npb_recv_exact`, which aborts at any other length, and the decryption. -/
def recvSealed (p : P) (len : Nat) (tag : Int32) : Code (Party P L R) Counters (Option Payload) :=
  fun c => .recv p ⟨tag, len, true⟩ (fun m =>
    if m.wire.length ≠ npub+len+abytes then .abort .fatal
    else
      match m.wire with
      | .plain _ => .ret (none, c)
      | .sealed counter plaintext =>
        if counter ≠ (c p).recvNonceCtr then .ret (none, c)
        else .ret (some plaintext,
          Function.update c p { c p with recvNonceCtr := (c p).recvNonceCtr+1 }))

/-- A ciphertext of the right length would be taken for data; as the data is arbitrary where
the sender is, that case is left out. -/
def recvPlain (p : P) (len : Nat) (tag : Int32) : Code (Party P L R) Counters (Option Payload) :=
  fun c => .recv p ⟨tag, len, false⟩ (fun m =>
    if m.wire.length ≠ len then .abort .fatal
    else
      match m.wire with
      | .plain data => .ret (some data, c)
      | .sealed _ _ => .ret (none, c))

def secureSendMsg (p : P) (data : Payload) (tag : Int32) : Code (Party P L R) Counters Unit :=
  if data.size > secureMaxPlain then mpiAbort .fatal else sendSealed p data tag

def secureRecvMsg (p : P) (len : Nat) (tag : Int32) :
    Code (Party P L R) Counters (Option Payload) :=
  if len > secureMaxPlain then pure none else recvSealed p len tag

def workloadSendSmall (p : P) (data : Payload) (tag : Int32) (encrypt : Bool) :
    Code (Party P L R) Counters Unit :=
  if encrypt then secureSendMsg p data tag
  else if data.size > secureMaxPlain then mpiAbort .fatal
  else sendPlain p data tag

def workloadRecvSmall (p : P) (len : Nat) (tag : Int32) (encrypt : Bool) :
    Code (Party P L R) Counters (Option Payload) :=
  if encrypt then secureRecvMsg p len tag
  else if len > secureMaxPlain then pure none
  else recvPlain p len tag

def sendBulkMsg (p : P) (data : Payload) (tag : Int32) (encrypt : Bool) :
    Code (Party P L R) Counters Unit :=
  if data.size > intMax then mpiAbort .fatal
  else if !encrypt then sendPlain p data tag
  else if data.size > intMax-npub-abytes then mpiAbort .fatal
  else sendSealed p data tag

def recvBulkMsg (p : P) (len : Nat) (tag : Int32) (encrypt : Bool) :
    Code (Party P L R) Counters (Option Payload) :=
  if len > intMax then pure none
  else if !encrypt then recvPlain p len tag
  else if len > intMax-npub-abytes then pure none
  else recvSealed p len tag

/-! What the functions do in front of peers of which nothing is known. -/

variable {A : Type} {body : (Party P L R).Loop → Prog (Party P L R) (Party P L R).Result}
  {J : Action (Party P L R) → List (Programs.Event (Party P L R)) → Prop}

def SentOne (p : P) (data : Payload) (t t' : List (Programs.Event (Party P L R))) : Prop :=
  ∃ m : Envelope, m.wire.payload = data ∧ t' = t ++ [.sent p m]

def ReceivedOne (p : P) (r : Option Payload) (t t' : List (Programs.Event (Party P L R))) : Prop :=
  (r = none ∧ t' = t) ∨
    ∃ q m, t' = t ++ [.received p q m] ∧ ∀ data, r = some data → m.wire.payload = data

variable {n : Nat} {c : P → Counters} {t : List (Programs.Event (Party P L R))}

theorem sendSealed_listen {p : P} {data : Payload}
    (hJ : ∀ m, m.wire.payload = data → J (.send p m) t) (tag : Int32) :
    Maintains (listen _) body J (fun _ t' => SentOne p data t t') n
      (sendSealed p data tag c) t := by
  rw [sendSealed]
  split
  · exact .abort
  · refine .send (hJ _ rfl) ?_
    intro t' ht
    exact .ret ⟨_, rfl, ht⟩

omit [DecidableEq P] in
theorem sendPlain_listen {p : P} {data : Payload}
    (hJ : ∀ m, m.wire.payload = data → J (.send p m) t) (tag : Int32) :
    Maintains (listen _) body J (fun _ t' => SentOne p data t t') n
      (sendPlain p data tag c) t := by
  refine .send (hJ _ rfl) ?_
  intro t' ht
  exact .ret ⟨_, rfl, ht⟩

theorem secureSendMsg_listen {p : P} {data : Payload}
    (hJ : ∀ m, m.wire.payload = data → J (.send p m) t) (tag : Int32) :
    Maintains (listen _) body J (fun _ t' => SentOne p data t t') n
      (secureSendMsg p data tag c) t := by
  rw [secureSendMsg]
  split
  · exact .abort
  · exact sendSealed_listen hJ tag

theorem workloadSendSmall_listen {p : P} {data : Payload}
    (hJ : ∀ m, m.wire.payload = data → J (.send p m) t) (tag : Int32) (encrypt : Bool) :
    Maintains (listen _) body J (fun _ t' => SentOne p data t t') n
      (workloadSendSmall p data tag encrypt c) t := by
  rw [workloadSendSmall]
  split
  · exact secureSendMsg_listen hJ tag
  · split
    · exact .abort
    · exact sendPlain_listen hJ tag

theorem sendBulkMsg_listen {p : P} {data : Payload}
    (hJ : ∀ m, m.wire.payload = data → J (.send p m) t) (tag : Int32) (encrypt : Bool) :
    Maintains (listen _) body J (fun _ t' => SentOne p data t t') n
      (sendBulkMsg p data tag encrypt c) t := by
  rw [sendBulkMsg]
  split
  · exact .abort
  · split
    · exact sendPlain_listen hJ tag
    · split
      · exact .abort
      · exact sendSealed_listen hJ tag

theorem recvSealed_listen {p : P} (hJ : ∀ q, J (.recv p q) t) (len : Nat) (tag : Int32) :
    Maintains (listen _) body J (fun r t' => ReceivedOne p r.1 t t') n
      (recvSealed p len tag c) t := by
  refine .recv (hJ _) ?_
  intro m t' ht
  split
  · exact .abort
  split
  · exact .ret (.inr ⟨_, m, ht, fun data hdata => by cases hdata⟩)
  · rename_i counter plaintext hwire
    split
    · exact .ret (.inr ⟨_, m, ht, fun data hdata => by cases hdata⟩)
    · refine .ret (.inr ⟨_, m, ht, fun data hdata => ?_⟩)
      cases hdata
      rw [hwire]
      rfl

omit [DecidableEq P] in
theorem recvPlain_listen {p : P} (hJ : ∀ q, J (.recv p q) t) (len : Nat) (tag : Int32) :
    Maintains (listen _) body J (fun r t' => ReceivedOne p r.1 t t') n
      (recvPlain p len tag c) t := by
  refine .recv (hJ _) ?_
  intro m t' ht
  split
  · exact .abort
  split
  · rename_i plaintext hwire
    refine .ret (.inr ⟨_, m, ht, fun data hdata => ?_⟩)
    cases hdata
    rw [hwire]
    rfl
  · exact .ret (.inr ⟨_, m, ht, fun data hdata => by cases hdata⟩)

theorem secureRecvMsg_listen {p : P} (hJ : ∀ q, J (.recv p q) t) (len : Nat) (tag : Int32) :
    Maintains (listen _) body J (fun r t' => ReceivedOne p r.1 t t') n
      (secureRecvMsg p len tag c) t := by
  rw [secureRecvMsg]
  split
  · exact .ret (.inl ⟨rfl, rfl⟩)
  · exact recvSealed_listen hJ len tag

theorem workloadRecvSmall_listen {p : P} (hJ : ∀ q, J (.recv p q) t) (len : Nat) (tag : Int32)
    (encrypt : Bool) : Maintains (listen _) body J (fun r t' => ReceivedOne p r.1 t t') n
      (workloadRecvSmall p len tag encrypt c) t := by
  rw [workloadRecvSmall]
  split
  · exact secureRecvMsg_listen hJ len tag
  · split
    · exact .ret (.inl ⟨rfl, rfl⟩)
    · exact recvPlain_listen hJ len tag

theorem recvBulkMsg_listen {p : P} (hJ : ∀ q, J (.recv p q) t) (len : Nat) (tag : Int32)
    (encrypt : Bool) : Maintains (listen _) body J (fun r t' => ReceivedOne p r.1 t t') n
      (recvBulkMsg p len tag encrypt c) t := by
  rw [recvBulkMsg]
  split
  · exact .ret (.inl ⟨rfl, rfl⟩)
  · split
    · exact recvPlain_listen hJ len tag
    · split
      · exact .ret (.inl ⟨rfl, rfl⟩)
      · exact recvSealed_listen hJ len tag

end

end DistributedEnclave.Npb
