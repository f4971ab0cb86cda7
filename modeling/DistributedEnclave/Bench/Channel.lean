import DistributedEnclave.Bench.Dgemm
import DistributedEnclave.Exchanges
import DistributedEnclave.Npb.Duality

/-! The channel of the DGEMM benchmark: its commands as the octets of a C structure, and the
functions of either side that transfer them, the matrices and the times. A shorter message than
was awaited is refused, a longer one ends the job. -/
namespace DistributedEnclave.Bench
open CheckedInts Npb Octets Programs

def cmdBenchDone : Int := 2

def tagBenchCmd : Int32 := 120
def tagBenchA : Int32 := 121
def tagBenchB : Int32 := 122
def tagBenchC : Int32 := 123
def tagBenchTime : Int32 := 124

/-- An `int32_t` in memory, the low-order octet first. -/
def int32Octets (z : Int) : Bytes := (beEncode 4 (z%4294967296).toNat).reverse

def readInt32 (l : Bytes) : Int :=
  if beDecode l.reverse < 2147483648 then beDecode l.reverse
  else (beDecode l.reverse : Int)-4294967296

@[simp] theorem int32Octets_length (z : Int) : (int32Octets z).length = 4 := by
  rw [int32Octets, List.length_reverse, beEncode_length]

theorem readInt32_octets {z : Int} (hmin : minInt ≤ z) (hmax : z ≤ maxInt) :
    readInt32 (int32Octets z) = z := by
  have hnonneg : 0 ≤ z%4294967296 := Int.emod_nonneg z (by decide)
  have hlt : (z%4294967296).toNat < 256^4 := by
    have := Int.emod_lt_of_pos z (show (0 : Int) < 4294967296 by decide)
    omega
  simp only [minInt] at hmin
  simp only [maxInt] at hmax
  rw [readInt32, int32Octets, List.reverse_reverse, beDecode_beEncode_of_lt hlt]
  split
  · omega
  · omega

def BenchCmd.fields (cmd : BenchCmd) : List Int :=
  [cmd.cmd, cmd.matrixSize, cmd.rowStart, cmd.rowCount, cmd.encryptData, cmd.numRuns]

def sizeofBenchCmd : Nat := 24

def BenchCmd.octets (cmd : BenchCmd) : Bytes := cmd.fields.flatMap int32Octets

def readBenchCmd (l : Bytes) : BenchCmd where
  cmd := readInt32 (l.take 4)
  matrixSize := readInt32 ((l.drop 4).take 4)
  rowStart := readInt32 ((l.drop 8).take 4)
  rowCount := readInt32 ((l.drop 12).take 4)
  encryptData := readInt32 ((l.drop 16).take 4)
  numRuns := readInt32 ((l.drop 20).take 4)

def BenchCmd.InRange (cmd : BenchCmd) : Prop := ∀ z ∈ cmd.fields, minInt ≤ z ∧ z ≤ maxInt

@[simp] theorem BenchCmd.octets_length (cmd : BenchCmd) : cmd.octets.length = sizeofBenchCmd := by
  simp [octets, fields, sizeofBenchCmd]

/-- What a worker reads is what the master has written. -/
theorem readBenchCmd_octets {cmd : BenchCmd} (h : cmd.InRange) : readBenchCmd cmd.octets = cmd := by
  have hread : ∀ z ∈ cmd.fields, readInt32 (int32Octets z) = z :=
    fun z hz => readInt32_octets (h z hz).1 (h z hz).2
  simp only [BenchCmd.fields, List.mem_cons, List.not_mem_nil, or_false, forall_eq_or_imp,
    forall_eq] at hread
  obtain ⟨hcmd, hsize, hstart, hcount, hencrypt, hruns⟩ := hread
  simp only [BenchCmd.octets, BenchCmd.fields, List.flatMap_cons, List.flatMap_nil, readBenchCmd]
  simp only [List.append_nil, List.take_append, List.drop_append, int32Octets_length, List.take_zero,
    List.drop_zero, Nat.sub_self, Nat.reduceSub, List.take_of_length_le, List.drop_eq_nil_of_le,
    Nat.reduceLeDiff, le_refl, List.nil_append, hcmd, hsize, hstart, hcount, hencrypt, hruns]

section Functions
variable {P L R : Type} [DecidableEq P]

/-- `mpi_recv` of a ciphertext into a buffer of the length awaited, the checks of its length and
of its counter, and the decryption. -/
def recvCiphertext (p : P) (len : Nat) (tag : Int32) :
    Code (Party P L R) Counters (Option Payload) :=
  fun c => .recv p ⟨tag, len, true⟩ (fun m =>
    if m.wire.length > Npb.npub+len+Npb.abytes then .abort .fatal
    else if m.wire.length ≠ Npb.npub+len+Npb.abytes then .ret (none, c)
    else
      match m.wire with
      | .plain _ => .ret (none, c)
      | .sealed counter plaintext =>
        if counter ≠ (c p).recvNonceCtr then .ret (none, c)
        else .ret (some plaintext,
          Function.update c p { c p with recvNonceCtr := (c p).recvNonceCtr+1 }))

def recvPlaintext (p : P) (len : Nat) (tag : Int32) :
    Code (Party P L R) Counters (Option Payload) :=
  fun c => .recv p ⟨tag, len, false⟩ (fun m =>
    if m.wire.length > len then .abort .fatal
    else if m.wire.length ≠ len then .ret (none, c)
    else
      match m.wire with
      | .plain data => .ret (some data, c)
      | .sealed _ _ => .ret (none, c))

def secureSend (p : P) (data : Payload) (tag : Int32) : Code (Party P L R) Counters Unit :=
  if data.size > secureMaxPlain then mpiAbort .fatal else sendSealed p data tag

def secureRecv (p : P) (len : Nat) (tag : Int32) : Code (Party P L R) Counters (Option Payload) :=
  if len > secureMaxPlain then pure none else recvCiphertext p len tag

def workloadSendSmall (p : P) (data : Payload) (tag : Int32) (encrypt : Bool) :
    Code (Party P L R) Counters Unit :=
  if encrypt then secureSend p data tag
  else if data.size > secureMaxPlain then mpiAbort .fatal
  else sendPlain p data tag

def workloadRecvSmall (p : P) (len : Nat) (tag : Int32) (encrypt : Bool) :
    Code (Party P L R) Counters (Option Payload) :=
  if encrypt then secureRecv p len tag
  else if len > secureMaxPlain then pure none
  else recvPlaintext p len tag

def matrixLimit : Nat := (intMax-Npb.npub-Npb.abytes)/sizeofDouble

def sendMatrix (p : P) (data : List Binary64) (tag : Int32) (encrypt : Bool) :
    Code (Party P L R) Counters Unit :=
  if !encrypt then sendPlain p (.doubles data) tag
  else if data.length > matrixLimit then mpiAbort .fatal
  else sendSealed p (.doubles data) tag

def recvMatrix (p : P) (numDoubles : Int) (tag : Int32) (encrypt : Bool) :
    Code (Party P L R) Counters (Option Payload) :=
  if numDoubles < 0 then pure none
  else if !encrypt then recvPlaintext p (numDoubles.toNat*sizeofDouble) tag
  else if numDoubles.toNat > matrixLimit then pure none
  else recvCiphertext p (numDoubles.toNat*sizeofDouble) tag

variable {A : Type} {p : P} {len : Nat} {data : Payload}

theorem recvCiphertext_takes (tag : Int32) (hlen : data.size = len) :
    TakesSealed p len tag data (recvCiphertext p len tag : Code (Party P L R) Counters _) := by
  intro A k c
  refine ⟨_, rfl, ?_⟩
  simp only [Wire.length, hlen, gt_iff_lt, lt_irrefl, ne_eq, not_true_eq_false, if_false]
  rfl

omit [DecidableEq P] in
theorem recvPlaintext_takes (tag : Int32) (hlen : data.size = len) :
    TakesPlain p len tag data (recvPlaintext p len tag : Code (Party P L R) Counters _) := by
  intro A k c
  refine ⟨_, rfl, ?_⟩
  simp only [Wire.length, hlen, gt_iff_lt, lt_irrefl, ne_eq, not_true_eq_false, if_false]
  rfl

end Functions

def Room (n : Nat) (s : Counters) : Prop :=
  s.sendNonceCtr+n ≤ uint64Max ∧ s.recvNonceCtr+n ≤ uint64Max

theorem Room.less {n m : Nat} {s : Counters} (h : Room n s) (hle : m ≤ n) : Room m s := by
  obtain ⟨hsend, hrecv⟩ := h
  exact ⟨by omega, by omega⟩

theorem Room.sent {n : Nat} {s : Counters} (h : Room (n+1) s) :
    Room n { s with sendNonceCtr := s.sendNonceCtr+1 } := by
  obtain ⟨hsend, hrecv⟩ := h
  exact ⟨by change s.sendNonceCtr+1+n ≤ _; omega, by change s.recvNonceCtr+n ≤ _; omega⟩

theorem Room.received {n : Nat} {s : Counters} (h : Room (n+1) s) :
    Room n { s with recvNonceCtr := s.recvNonceCtr+1 } := by
  obtain ⟨hsend, hrecv⟩ := h
  exact ⟨by change s.sendNonceCtr+n ≤ _; omega, by change s.recvNonceCtr+1+n ≤ _; omega⟩

section Exchange
variable {L R L' R' A D : Type}
  {body : (Party Nat L R).Loop → Prog (Party Nat L R) (Party Nat L R).Result}
  {work : (Party Unit L' R').Loop → Prog (Party Unit L' R') (Party Unit L' R').Result}
  {I : (Party Nat L R).Loop → (Nat → Site (Party Unit L' R') (D × (Unit → Counters))) → Prop}

variable (L R work) in
abbrev Ready (n : Nat) (x : Code (Party Unit L' R') Counters D) :
    Counters → Site (Party Unit L' R') (D × (Unit → Counters)) → Prop :=
  Stands (fabric L R work) (fun s _ => Room n s) Counters.mirror x

variable (body work I) in
/-- A script of the master that concerns one worker and never ends the job. -/
abbrev Serves (p n : Nat) (x : Code (Party Nat L R) Counters A)
    (before : Code (Party Unit L' R') Counters D) (good : A → Prop) (m : Nat)
    (after : A → Code (Party Unit L' R') Counters D) : Prop :=
  Transfers body work I (fun _ _ _ => False) p (fun s _ => Room n s) x before good
    (fun s _ => Room m s) after

variable {p n len : Nat} {data : Payload} {tag : Int32} {encrypt : Bool}

theorem room_ledger (p n : Nat) : Ledger
    (fun _ _ (_ : Nat → Site (Party Unit L' R') (D × (Unit → Counters))) => False) p
    (fun s _ => Room (n+1) s) (fun s _ => Room n s) := by
  constructor
  · intro s e h hctr
    have := h.1
    omega
  · intro s e h hctr
    have := h.2
    omega
  · exact fun s site m x d h _ => h.sent
  · exact fun s site m x d h _ => h.received
  · exact fun s site m x d h _ => h.less (Nat.le_succ n)
  · exact fun s site m x d h _ => h.less (Nat.le_succ n)

/-- More room than a script needs. -/
theorem Serves.room {m l : Nat} {x : Code (Party Nat L R) Counters A}
    {before : Code (Party Unit L' R') Counters D} {good : A → Prop}
    {after : A → Code (Party Unit L' R') Counters D}
    (h : Serves body work I p m x before good l after) (hle : m ≤ n) :
    Serves body work I p n x before good l after :=
  Exchange.before (S := Party Nat L R) (fun _ _ hs => ⟨hs.1.less hle, hs.2⟩) h

theorem secureSend_serves (hlen : data.size = len) (hsmall : len ≤ secureMaxPlain)
    (k : Option Payload → Code (Party Unit L' R') Counters D) :
    Serves body work I p (n+1) (secureSend p data tag) (secureRecv () len tag >>= k)
      (fun _ => True) n (fun _ => k (some data)) :=
  secureSend_transfers (room_ledger p n) hlen hsmall (recvCiphertext_takes tag hlen) k

theorem workloadRecvSmall_serves (hlen : data.size = len) (hsmall : len ≤ secureMaxPlain)
    (k : Unit → Code (Party Unit L' R') Counters D) :
    Serves body work I p (n+1) (workloadRecvSmall p len tag encrypt)
      (workloadSendSmall () data tag encrypt >>= k) (· = some data) n (fun _ => k ()) :=
  smallRecv_transfers (room_ledger p n) hlen hsmall (recvCiphertext_takes tag hlen)
    (recvPlaintext_takes tag hlen) k

variable {l : List Binary64} {count : Nat}

theorem sendMatrix_serves (hcount : l.length = count) (hlimit : count ≤ matrixLimit)
    (k : Option Payload → Code (Party Unit L' R') Counters D) :
    Serves body work I p (n+1) (sendMatrix p l tag encrypt)
      (recvMatrix () count tag encrypt >>= k) (fun _ => True) n
      (fun _ => k (some (.doubles l))) := by
  have hsize : (Payload.doubles l).size = count*sizeofDouble := by rw [Payload.size, hcount]
  have hnonneg : ¬(count : Int) < 0 := by omega
  rw [sendMatrix, recvMatrix, if_neg hnonneg, Int.toNat_natCast, hcount]
  cases encrypt with
  | true =>
    simp only [Bool.not_true, Bool.false_eq_true, if_false, gt_iff_lt,
      if_neg (Nat.not_lt.mpr hlimit)]
    exact sendSealed_transfers (room_ledger p n) hsize (recvCiphertext_takes tag hsize) k
  | false => exact sendPlain_transfers (room_ledger p n) hsize (recvPlaintext_takes tag hsize) k

theorem recvMatrix_serves (hcount : l.length = count) (hlimit : count ≤ matrixLimit)
    (k : Unit → Code (Party Unit L' R') Counters D) :
    Serves body work I p (n+1) (recvMatrix p count tag encrypt)
      (sendMatrix () l tag encrypt >>= k) (· = some (.doubles l)) n (fun _ => k ()) := by
  have hsize : (Payload.doubles l).size = count*sizeofDouble := by rw [Payload.size, hcount]
  have hnonneg : ¬(count : Int) < 0 := by omega
  rw [sendMatrix, recvMatrix, if_neg hnonneg, Int.toNat_natCast, hcount]
  cases encrypt with
  | true =>
    simp only [Bool.not_true, Bool.false_eq_true, if_false, gt_iff_lt,
      if_neg (Nat.not_lt.mpr hlimit)]
    exact recvSealed_transfers (room_ledger p n) hsize (recvCiphertext_takes tag hsize) k
  | false => exact recvPlain_transfers (room_ledger p n) hsize (recvPlaintext_takes tag hsize) k

end Exchange

end DistributedEnclave.Bench
