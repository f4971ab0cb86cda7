import DistributedEnclave.Octets
import DistributedEnclave.Streams

/-! The encrypted data plane of the NPB benchmark: nonce and associated data, the send and
receive functions for small and bulk messages on both sides, and one master with its
workers over a network that delivers whatever it likes. -/
namespace DistributedEnclave.Npb
open DistributedEnclave.Octets DistributedEnclave.Streams DistributedEnclave.Transition

def npub : Nat := 12
def abytes : Nat := 16
def hashLen : Nat := 32
def secureMaxPlain : Nat := 256
def intMax : Nat := 2147483647
def uint64Max : Nat := 2^64-1
def secureProtocolVersion : UInt8 := 2
def directionCentralToWorker : UInt8 := 1
def directionWorkerToCentral : UInt8 := 2

def storeU32Be (value : UInt32) : Bytes :=
  [(value >>> 24).toUInt8, (value >>> 16).toUInt8, (value >>> 8).toUInt8, value.toUInt8]

/-- The loop of `store_u64_be_bytes`, which fills the buffer from its end. -/
def storeLoop : Nat → Nat → Bytes → Bytes
  | 0, _, out => out
  | i+1, value, out => storeLoop i (value >>> 8) (UInt8.ofNat value :: out)

def storeU64BeBytes (value : Nat) : Bytes := storeLoop 8 value []

def loadU64BeBytes (b : Bytes) : Nat :=
  b.foldl (fun value x => (value <<< 8)%2^64 ||| x.toNat) 0

theorem storeLoop_eq (n value : Nat) (out : Bytes) :
    storeLoop n value out = beEncode n value ++ out := by
  induction n generalizing value out with
  | zero => rfl
  | succ n ih =>
    rw [storeLoop, ih, beEncode_succ, Nat.shiftRight_eq_div_pow, List.append_assoc]
    rfl

theorem storeU64BeBytes_eq (value : Nat) : storeU64BeBytes value = beEncode 8 value := by
  rw [storeU64BeBytes, storeLoop_eq, List.append_nil]

theorem loadLoop_eq (b : Bytes) (n value : Nat) (hb : b.length+n ≤ 8) (hv : value < 256^n) :
    b.foldl (fun value x => (value <<< 8)%2^64 ||| x.toNat) value =
      value*256^b.length+beDecode b := by
  induction b generalizing n value with
  | nil => simp [beDecode]
  | cons x b ih =>
    have hx : x.toNat < 2^8 := x.toNat_lt
    rw [List.length_cons] at hb
    have hpow : (256:Nat)^(n+1) ≤ 256^8 := Nat.pow_le_pow_right (by decide) (by omega)
    have hnext : value*256+x.toNat < 256^(n+1) := by rw [Nat.pow_succ]; omega
    have hstep : (value <<< 8)%2^64 ||| x.toNat = value*256+x.toNat := by
      have hs : value*2^8 < 2^64 :=
        ((Nat.le_add_right ..).trans_lt hnext).trans_le (hpow.trans (by norm_num))
      rw [Nat.shiftLeft_eq, Nat.mod_eq_of_lt hs, ← Nat.shiftLeft_eq,
        ← Nat.shiftLeft_add_eq_or_of_lt hx, Nat.shiftLeft_eq]
    rw [List.foldl_cons, hstep, ih (n+1) _ (by omega) hnext, beDecode, List.length_cons,
      Nat.pow_succ]
    ring

theorem loadU64BeBytes_eq {b : Bytes} (h : b.length ≤ 8) : loadU64BeBytes b = beDecode b := by
  have := loadLoop_eq b 0 0 (by omega) (by decide)
  simpa [loadU64BeBytes] using this

theorem storeU32Be_eq (value : UInt32) : storeU32Be value = beEncode 4 value.toNat := by
  simp only [storeU32Be, beEncode, List.cons.injEq, and_true]
  refine ⟨?_, ?_, ?_, ?_⟩ <;> apply UInt8.toNat_inj.mp <;>
    simp [Nat.shiftRight_eq_div_pow]

def makeNonce (counter : Nat) : Bytes := List.replicate (npub-8) 0 ++ storeU64BeBytes counter

def parseNonce (nonce : Bytes) : Option Nat :=
  if (nonce.take (npub-8)).any (· ≠ 0) then none
  else some (loadU64BeBytes ((nonce.drop (npub-8)).take 8))

def buildAad (channelBinding : Bytes) (direction : UInt8) (tag : Int32)
    (plaintextLen counter : Nat) : Bytes :=
  channelBinding ++ ([secureProtocolVersion, direction] ++ (storeU32Be tag.toUInt32 ++
    (storeU64BeBytes plaintextLen ++ storeU64BeBytes counter)))

theorem makeNonce_length (counter : Nat) : (makeNonce counter).length = npub := by
  simp [makeNonce, npub, storeU64BeBytes_eq]

theorem makeNonce_inj {c c' : Nat} (hc : c < 2^64) (hc' : c' < 2^64)
    (h : makeNonce c = makeNonce c') : c = c' := by
  simp only [makeNonce, List.append_cancel_left_eq, storeU64BeBytes_eq] at h
  exact beEncode_inj (by omega) (by omega) h

theorem parseNonce_makeNonce {c : Nat} (hc : c < 2^64) : parseNonce (makeNonce c) = some c := by
  have hzero : (makeNonce c).take (npub-8) = List.replicate (npub-8) 0 :=
    (append_split (by simp)).1
  have hdrop : (makeNonce c).drop (npub-8) = beEncode 8 c := by
    rw [← storeU64BeBytes_eq]
    exact (append_split (by simp)).2
  have hload : loadU64BeBytes (beEncode 8 c) = c := by
    rw [loadU64BeBytes_eq (by simp), beDecode_beEncode_of_lt (by omega)]
  rw [parseNonce, hzero, hdrop, List.take_of_length_le (by simp), hload, if_neg]
  simp

/-- Associated data under one binding determines tag and length. -/
theorem buildAad_inj {b : Bytes} {d : UInt8} {t t' : Int32} {l l' c c' : Nat}
    (hl : l < 2^64) (hl' : l' < 2^64) (h : buildAad b d t l c = buildAad b d t' l' c') :
    t = t' ∧ l = l' := by
  simp only [buildAad, List.append_cancel_left_eq, storeU32Be_eq, storeU64BeBytes_eq] at h
  obtain ⟨htag, h⟩ := List.append_inj h (by simp)
  obtain ⟨hlen, _⟩ := List.append_inj h (by simp)
  have ht : t.toUInt32 = t'.toUInt32 := UInt32.toNat_inj.mp
    (beEncode_inj t.toUInt32.toNat_lt t'.toUInt32.toNat_lt htag)
  exact ⟨Int32.toBitVec_inj.mp (congrArg UInt32.toBitVec ht), beEncode_inj (by omega) (by omega) hlen⟩

abbrev Record := Sealed Bytes Bytes Bytes Bytes Bytes

/-- How a send function ends: `MPI_Abort` with the encryption it may have made before, or
a buffer handed to `MPI_Send`. -/
inductive SendResult where
  | abort (record : Option Record)
  | plain (wire : Bytes)
  | sent (record : Record) (wire : Bytes)

/-- How a receive function ends: an MPI error, which aborts, the return value -1, or
success with the next counter. -/
inductive RecvResult where
  | abort | rejected
  | plain (data : Bytes)
  | accepted (plaintext : Bytes) (counter : Nat)

section
variable (encrypt : Bytes → Bytes → Bytes → Bytes → Bytes)

/-- The common part of `secure_send` and `send_bulk` from the nonce to the buffer. -/
def sealMessage (direction : UInt8) (key channelBinding : Bytes) (counter : Nat)
    (plaintext : Bytes) (tag : Int32) : SendResult :=
  let nonce := makeNonce counter
  let aad := buildAad channelBinding direction tag plaintext.length counter
  let ciphertext := encrypt key nonce aad plaintext
  let record : Record := ⟨key, nonce, aad, plaintext, ciphertext⟩
  if ciphertext.length ≠ plaintext.length+abytes then .abort (some record)
  else .sent record (nonce ++ ciphertext)

def secureSend (direction : UInt8) (key channelBinding : Bytes) (nonceCtr : Nat)
    (plaintext : Bytes) (tag : Int32) : SendResult :=
  if plaintext.length > secureMaxPlain then .abort none
  else if nonceCtr = uint64Max then .abort none
  else sealMessage encrypt direction key channelBinding nonceCtr plaintext tag

def sendBulk (direction : UInt8) (key channelBinding : Bytes) (nonceCtr : Nat) (data : Bytes)
    (tag : Int32) (encryptData : Bool) : SendResult :=
  if data.length > intMax then .abort none
  else if !encryptData then .plain data
  else if data.length > intMax-npub-abytes then .abort none
  else if nonceCtr = uint64Max then .abort none
  else sealMessage encrypt direction key channelBinding nonceCtr data tag

def Master.secureSend := Npb.secureSend encrypt directionCentralToWorker
def Master.sendBulk := Npb.sendBulk encrypt directionCentralToWorker
def Worker.secureSend := Npb.secureSend encrypt directionWorkerToCentral
def Worker.sendBulk := Npb.sendBulk encrypt directionWorkerToCentral

end

section
variable (decrypt : Bytes → Bytes → Bytes → Bytes → Option Bytes)

/-- The common part of `secure_recv` and `recv_bulk` from `MPI_Recv` on. A message of any
other length than the expected one is an MPI error. -/
def openMessage (direction : UInt8) (key channelBinding : Bytes) (nonceCtr len : Nat)
    (tag : Int32) (incoming : Bytes) : RecvResult :=
  if incoming.length ≠ npub+len+abytes then .abort
  else
    match parseNonce (incoming.take npub) with
    | none => .rejected
    | some received =>
      if received ≠ nonceCtr then .rejected
      else
        let aad := buildAad channelBinding direction tag len received
        match decrypt key (incoming.take npub) aad (incoming.drop npub) with
        | none => .rejected
        | some plaintext =>
          if plaintext.length ≠ len then .rejected
          else .accepted plaintext ((received+1)%2^64)

def secureRecv (direction : UInt8) (key channelBinding : Bytes) (nonceCtr len : Nat)
    (tag : Int32) (incoming : Bytes) : RecvResult :=
  if len > secureMaxPlain then .rejected
  else openMessage decrypt direction key channelBinding nonceCtr len tag incoming

def recvBulk (direction : UInt8) (key channelBinding : Bytes) (nonceCtr len : Nat)
    (tag : Int32) (encryptData : Bool) (incoming : Bytes) : RecvResult :=
  if len > intMax then .rejected
  else if !encryptData then
    if incoming.length ≠ len then .abort else .plain incoming
  else if len > intMax-npub-abytes then .rejected
  else openMessage decrypt direction key channelBinding nonceCtr len tag incoming

def Master.secureRecv := Npb.secureRecv decrypt directionWorkerToCentral
def Master.recvBulk := Npb.recvBulk decrypt directionWorkerToCentral
def Worker.secureRecv := Npb.secureRecv decrypt directionCentralToWorker
def Worker.recvBulk := Npb.recvBulk decrypt directionCentralToWorker

end

inductive Side where
  | central | worker
  deriving DecidableEq, Repr

def Side.other : Side → Side
  | central => worker
  | worker => central

def Side.direction : Side → UInt8
  | central => directionCentralToWorker
  | worker => directionWorkerToCentral

inductive Size where
  | small | bulk
  deriving DecidableEq, Repr

def sendOf (encrypt : Bytes → Bytes → Bytes → Bytes → Bytes) (side : Side) (size : Size)
    (key channelBinding : Bytes) (ctr : Nat) (data : Bytes) (tag : Int32) : SendResult :=
  match side, size with
  | .central, .small => Master.secureSend encrypt key channelBinding ctr data tag
  | .central, .bulk => Master.sendBulk encrypt key channelBinding ctr data tag true
  | .worker, .small => Worker.secureSend encrypt key channelBinding ctr data tag
  | .worker, .bulk => Worker.sendBulk encrypt key channelBinding ctr data tag true

def recvOf (decrypt : Bytes → Bytes → Bytes → Bytes → Option Bytes) (side : Side) (size : Size)
    (key channelBinding : Bytes) (ctr len : Nat) (tag : Int32) (incoming : Bytes) : RecvResult :=
  match side, size with
  | .central, .small => Master.secureRecv decrypt key channelBinding ctr len tag incoming
  | .central, .bulk => Master.recvBulk decrypt key channelBinding ctr len tag true incoming
  | .worker, .small => Worker.secureRecv decrypt key channelBinding ctr len tag incoming
  | .worker, .bulk => Worker.recvBulk decrypt key channelBinding ctr len tag true incoming

def recordOf (encrypt : Bytes → Bytes → Bytes → Bytes → Bytes) (side : Side)
    (key channelBinding : Bytes) (counter : Nat) (m : Int32 × Bytes) : Record :=
  let aad := buildAad channelBinding side.direction m.1 m.2.length counter
  ⟨key, makeNonce counter, aad, m.2, encrypt key (makeNonce counter) aad m.2⟩

/-- All that one of the four send functions can do under encryption. -/
theorem sendOf_cases (encrypt : Bytes → Bytes → Bytes → Bytes → Bytes) (side : Side) (size : Size)
    (key binding : Bytes) (ctr : Nat) (data : Bytes) (tag : Int32) :
    sendOf encrypt side size key binding ctr data tag = .abort none ∨
    (ctr ≠ uint64Max ∧ data.length ≤ intMax ∧
      (((recordOf encrypt side key binding ctr (tag, data)).cipher.length ≠ data.length+abytes ∧
        sendOf encrypt side size key binding ctr data tag =
          .abort (some (recordOf encrypt side key binding ctr (tag, data)))) ∨
      ((recordOf encrypt side key binding ctr (tag, data)).cipher.length = data.length+abytes ∧
        sendOf encrypt side size key binding ctr data tag =
          .sent (recordOf encrypt side key binding ctr (tag, data)) (makeNonce ctr ++
            (recordOf encrypt side key binding ctr (tag, data)).cipher)))) := by
  have hsmall : secureMaxPlain ≤ intMax := by decide
  have hseal : sealMessage encrypt side.direction key binding ctr data tag =
      if (recordOf encrypt side key binding ctr (tag, data)).cipher.length ≠ data.length+abytes
      then .abort (some (recordOf encrypt side key binding ctr (tag, data)))
      else .sent (recordOf encrypt side key binding ctr (tag, data)) (makeNonce ctr ++
            (recordOf encrypt side key binding ctr (tag, data)).cipher) := rfl
  have hsend : sendOf encrypt side size key binding ctr data tag = .abort none ∨
      (ctr ≠ uint64Max ∧ data.length ≤ intMax ∧ sendOf encrypt side size key binding ctr data tag =
        sealMessage encrypt side.direction key binding ctr data tag) := by
    cases side <;> cases size <;>
      simp only [sendOf, Master.secureSend, Master.sendBulk, Worker.secureSend, Worker.sendBulk,
        secureSend, sendBulk, Side.direction] <;> grind
  rcases hsend with h | ⟨hctr, hlen, h⟩
  · exact .inl h
  · refine .inr ⟨hctr, hlen, ?_⟩
    rw [h, hseal]
    by_cases hc : (recordOf encrypt side key binding ctr (tag, data)).cipher.length =
        data.length+abytes
    · exact .inr ⟨hc, if_neg (not_not.mpr hc)⟩
    · exact .inl ⟨hc, if_pos hc⟩

/-- What an accepting receive has checked, for any of the four receive functions. -/
theorem recvOf_accepted {decrypt : Bytes → Bytes → Bytes → Bytes → Option Bytes} {side : Side}
    {size : Size} {key binding : Bytes} {ctr len : Nat} {tag : Int32} {incoming p : Bytes}
    {next : Nat} (h : recvOf decrypt side size key binding ctr len tag incoming =
      .accepted p next) :
    len ≤ intMax ∧ incoming.length = npub+len+abytes ∧
      parseNonce (incoming.take npub) = some ctr ∧ p.length = len ∧ next = (ctr+1)%2^64 ∧
      decrypt key (incoming.take npub) (buildAad binding side.other.direction tag len ctr)
        (incoming.drop npub) = some p := by
  have hsmall : secureMaxPlain ≤ intMax := by decide
  have hopen : len ≤ intMax ∧ openMessage decrypt side.other.direction key binding ctr len tag
      incoming = .accepted p next := by
    cases side <;> cases size <;>
      simp only [recvOf, Master.secureRecv, Master.recvBulk, Worker.secureRecv, Worker.recvBulk,
        secureRecv, recvBulk, Side.other, Side.direction] at h ⊢ <;> grind
  obtain ⟨hlen, hopen⟩ := hopen
  simp only [openMessage] at hopen
  split at hopen
  · cases hopen
  rename_i hl
  split at hopen
  · cases hopen
  rename_i received hparse
  split at hopen
  · cases hopen
  rename_i hctr
  split at hopen
  · cases hopen
  rename_i plaintext hdec
  split at hopen
  · cases hopen
  rename_i hp
  cases hopen
  obtain rfl := not_not.mp hctr
  exact ⟨hlen, not_not.mp hl, hparse, not_not.mp hp, rfl, hdec⟩

end DistributedEnclave.Npb
