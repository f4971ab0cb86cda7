import DistributedEnclave.Attest.Enrollment
import DistributedEnclave.Streams

/-! The task phase that `master_attest.c` and `worker_attest.c` share with `master_star.c`
and `worker_star.c`: one master, the enrolled workers and the messages in flight, with
every encryption on record. -/
namespace DistributedEnclave.Attest
open DistributedEnclave.Octets DistributedEnclave.Cluster DistributedEnclave.Streams
  DistributedEnclave.Transition

def npub : Nat := 12
def tagTask : Int32 := 10
def tagResult : Int32 := 11
def tagIdle : Int32 := 13
def tagShutdown : Int32 := 99
def ctrlMagicShutdown : UInt32 := 0xDEAD0001
def ctrlMagicIdle : UInt32 := 0xDEAD0002

/-- Four octets of memory on a little-endian machine. -/
def storeWord (x : UInt32) : Bytes := (beEncode 4 x.toNat).reverse
def loadWord (b : Bytes) : UInt32 := UInt32.ofNat (beDecode b.reverse)

/-- `memset` to zero, then `memcpy` of the counter. -/
def makeNonce (counter : Nat) : Bytes :=
  (beEncode 8 counter).reverse ++ List.replicate (npub-8) 0

def nonceCounter (buf : Bytes) : Nat := beDecode (buf.take 8).reverse

theorem makeNonce_length (counter : Nat) : (makeNonce counter).length = npub := by
  simp [makeNonce, npub]

theorem makeNonce_inj {c c' : Nat} (hc : c < 2^64) (hc' : c' < 2^64)
    (h : makeNonce c = makeNonce c') : c = c' := by
  rw [makeNonce, makeNonce, List.append_cancel_right_eq, List.reverse_inj] at h
  exact beEncode_inj (by omega) (by omega) h

abbrev Record := Sealed Bytes Bytes Bytes Bytes Bytes

/-- The secrets of `crypto_kx` for each worker: the master's `tx` is the worker's `rx`. -/
structure Secrets (S : Sodium Bytes) where
  serverSk : Nat → Bytes
  clientSk : Nat → Bytes
  masterRx : Nat → Bytes
  masterTx : Nat → Bytes
  workerRx : Nat → Bytes
  workerTx : Nat → Bytes
  server : ∀ i, S.kxServerSessionKeys (S.kxPublic (serverSk i)) (serverSk i)
    (S.kxPublic (clientSk i)) = some (masterRx i, masterTx i)
  client : ∀ i, S.kxClientSessionKeys (S.kxPublic (clientSk i)) (clientSk i)
    (S.kxPublic (serverSk i)) = some (workerRx i, workerTx i)
  agree : ∀ i, workerRx i = masterTx i

/-- Fresh key pairs lead to different keys of the enrolled workers. -/
structure FreshSecrets (S : Sodium Bytes) (nworkers : Nat) extends Secrets S where
  fresh : ∀ i < nworkers, ∀ j < nworkers,
    appKey S (masterTx i) = appKey S (masterTx j) → i = j

/-- Where the master stands: handing out at the start, at the head of the loop over the
results, polling worker `i`, shutting down worker `i`, or finished. -/
inductive Pc where
  | start (i : Nat)
  | loop
  | poll (i : Nat)
  | shutdown (i : Nat)
  | done
  deriving DecidableEq

structure WorkerState where
  sendNonceCtr : Nat
  recvNonceCtr : Nat
  running : Bool

structure State where
  pc : Pc
  next : Nat
  resultsReceived : Nat
  sendNonceCtr : Nat → Nat
  recvNonceCtr : Nat → Nat
  workers : Nat → WorkerState
  toWorker : Nat → List (Int32 × Bytes)
  toMaster : Nat → List Bytes
  log : List Record

def initial (nworkers : Nat) : State where
  pc := if nworkers = 0 then .done else .start 0
  next := 0
  resultsReceived := 0
  sendNonceCtr _ := 0
  recvNonceCtr _ := 0
  workers _ := ⟨0, 0, true⟩
  toWorker _ := []
  toMaster _ := []
  log := []

section
variable {S : Sodium Bytes} (K : Secrets S) (encrypt : Bytes → Bytes → Bytes → Bytes)

def wkey (i : Nat) : Bytes := appKey S (K.masterTx i)

/-- `g_session_key_bytes` of worker `i`. -/
def sessionKey (i : Nat) : Bytes := appKey S (K.workerRx i)

def sealRecord (key : Bytes) (counter : Nat) (plaintext : Bytes) : Record :=
  ⟨key, makeNonce counter, [], plaintext, encrypt key (makeNonce counter) plaintext⟩

/-- `secure_recv` after the receive: the plaintext and the new counter. -/
def secureRecv (log : List Record) (key : Bytes) (counter : Nat) (plainLen : Nat) (buf : Bytes) :
    Option (Bytes × Nat) :=
  if nonceCounter buf < counter then none
  else
    match openSealed log key (buf.take npub) [] (buf.drop npub) with
    | none => none
    | some plaintext =>
      if plaintext.length ≠ plainLen then none
      else some (plaintext, (nonceCounter buf+1)%2^64)

def masterSend (s : State) (i : Nat) (tag : Int32) (plaintext : Bytes) : State :=
  let r := sealRecord encrypt (wkey K i) (s.sendNonceCtr i) plaintext
  { s with
    sendNonceCtr := Function.update s.sendNonceCtr i ((s.sendNonceCtr i+1)%2^64)
    toWorker := Function.update s.toWorker i (s.toWorker i ++ [(tag, r.nonce ++ r.cipher)])
    log := s.log ++ [r] }

def workerSend (s : State) (i : Nat) (plaintext : Bytes) : State :=
  let w := s.workers i
  let r := sealRecord encrypt (sessionKey K i) w.sendNonceCtr plaintext
  { s with
    workers := Function.update s.workers i { w with sendNonceCtr := (w.sendNonceCtr+1)%2^64 }
    toMaster := Function.update s.toMaster i (s.toMaster i ++ [r.nonce ++ r.cipher])
    log := s.log ++ [r] }

def secureSendTask (s : State) (i : Nat) (x : Int32) : State :=
  masterSend K encrypt s i tagTask (storeWord x.toUInt32)

def secureSendCtrl (s : State) (i : Nat) (tag : Int32) (magic : UInt32) : State :=
  masterSend K encrypt s i tag (storeWord magic)

variable (nworkers : Nat) (tasks : List Int32)

def handOut (s : State) (i : Nat) : State :=
  match tasks[s.next]? with
  | some x => { secureSendTask K encrypt s i x with next := s.next+1 }
  | none => secureSendCtrl K encrypt s i tagIdle ctrlMagicIdle

/-- Polling worker `i`; a message in flight need not be visible to the probe yet. -/
def pollWorker (s : State) (i : Nat) (visible : Bool) : State :=
  match s.toMaster i with
  | [] => s
  | buf :: rest =>
    if ¬visible then s
    else
      let s := { s with toMaster := Function.update s.toMaster i rest }
      match secureRecv s.log (wkey K i) (s.recvNonceCtr i) 8 buf with
      | none => s
      | some (_, counter) => handOut K encrypt tasks { s with
          recvNonceCtr := Function.update s.recvNonceCtr i counter
          resultsReceived := s.resultsReceived+1 } i

def masterStep (s : State) (visible : Bool) : State :=
  match s.pc with
  | .start i =>
    if i < nworkers then { handOut K encrypt tasks s i with pc := .start (i+1) }
    else { s with pc := .loop }
  | .loop =>
    if s.resultsReceived < tasks.length then { s with pc := .poll 0 }
    else { s with pc := .shutdown 0 }
  | .poll i =>
    if i < nworkers then { pollWorker K encrypt tasks s i visible with pc := .poll (i+1) }
    else { s with pc := .loop }
  | .shutdown i =>
    if i < nworkers then
      { secureSendCtrl K encrypt s i tagShutdown ctrlMagicShutdown with pc := .shutdown (i+1) }
    else { s with pc := .done }
  | .done => s

def stopWorker (s : State) (i : Nat) : State :=
  { s with workers := Function.update s.workers i { s.workers i with running := false } }

def acceptCounter (s : State) (i counter : Nat) : State :=
  { s with workers := Function.update s.workers i { s.workers i with recvNonceCtr := counter } }

/-- One round of the work loop of worker `i`. Unknown tags are consumed. -/
def workerStep (s : State) (i : Nat) (tag : Int32) (buf : Bytes) : State :=
  let recv := secureRecv s.log (sessionKey K i) (s.workers i).recvNonceCtr 4 buf
  if tag = tagShutdown then
    match recv with
    | none => s
    | some (magic, counter) =>
      let s := acceptCounter s i counter
      if loadWord magic = ctrlMagicShutdown then stopWorker s i else s
  else if tag = tagIdle then
    match recv with
    | none => s
    | some (_, counter) => acceptCounter s i counter
  else if tag = tagTask then
    match recv with
    | none => s
    | some (word, counter) =>
      let x := (loadWord word).toInt32
      workerSend K encrypt (acceptCounter s i counter) i
        (storeWord x.toUInt32 ++ storeWord (x*x).toUInt32)
  else s

inductive Step : State → State → Prop
  | master {s} (visible : Bool) : Step s (masterStep K encrypt nworkers tasks s visible)
  | worker {s} {i : Nat} {tag : Int32} {buf : Bytes} {rest : List (Int32 × Bytes)} :
      i < nworkers → (s.workers i).running → s.toWorker i = (tag, buf) :: rest →
      Step s (workerStep K encrypt { s with toWorker := Function.update s.toWorker i rest } i tag buf)

abbrev Run (s : State) : Prop :=
  Reachable (fun s => s = initial nworkers) (Step K encrypt nworkers tasks) s

variable {K encrypt nworkers tasks}

def Pc.sent : Pc → Nat → Nat
  | .start k, i => if i < k then 1 else 0
  | .loop, _ | .poll _, _ => 1
  | .shutdown k, i => if i < k then 2 else 1
  | .done, _ => 2

theorem Pc.sent_le (pc : Pc) (i : Nat) : pc.sent i ≤ 2 := by
  cases pc with
  | start k => simp only [Pc.sent]; split_ifs <;> omega
  | shutdown k => simp only [Pc.sent]; split_ifs <;> omega
  | _ => simp [Pc.sent]

end

section
variable {S : Sodium Bytes} {nworkers : Nat} {K : FreshSecrets S nworkers}
  {encrypt : Bytes → Bytes → Bytes → Bytes} {tasks : List Int32}

structure Taskless (K : FreshSecrets S nworkers) (s : State) : Prop where
  records : ∀ r ∈ s.log, ∃ i < nworkers, r.key = wkey K.toSecrets i ∧
    ∃ c < s.sendNonceCtr i, r.nonce = makeNonce c
  nonces : NonceRespecting s.log
  sent : ∀ i, s.sendNonceCtr i ≤ s.pc.sent i
  controls : ∀ i, ∀ m ∈ s.toWorker i, m.1 ≠ tagTask
  silent : ∀ i, s.toMaster i = []

theorem Taskless.move {s : State} (h : Taskless K s) {pc : Pc}
    (hpc : ∀ i, s.pc.sent i ≤ pc.sent i) : Taskless K { s with pc := pc } :=
  ⟨h.records, h.nonces, fun i => (h.sent i).trans (hpc i), h.controls, h.silent⟩

theorem Taskless.masterSend {s : State} (h : Taskless K s) {i : Nat} (hworker : i < nworkers)
    {tag : Int32} (htag : tag ≠ tagTask) (plaintext : Bytes) {pc : Pc}
    (hpc : ∀ j, s.pc.sent j ≤ pc.sent j) (hi : s.pc.sent i < pc.sent i) :
    Taskless K { masterSend K.toSecrets encrypt s i tag plaintext with pc := pc } := by
  have hctr : s.sendNonceCtr i < pc.sent i := (h.sent i).trans_lt hi
  have htwo : s.sendNonceCtr i < 2 := hctr.trans_le (pc.sent_le i)
  have hnext : (s.sendNonceCtr i+1)%2^64 = s.sendNonceCtr i+1 := Nat.mod_eq_of_lt (by omega)
  refine ⟨?_, ?_, ?_, ?_, h.silent⟩
  · intro r hr
    simp only [Attest.masterSend, List.mem_append, List.mem_singleton] at hr ⊢
    cases hr with
    | inl hr =>
      obtain ⟨j, hlt, hkey, c, hc, hnonce⟩ := h.records r hr
      refine ⟨j, hlt, hkey, c, ?_, hnonce⟩
      by_cases hj : j = i
      · subst hj
        rw [Function.update_self, hnext]
        omega
      · rwa [Function.update_of_ne hj]
    | inr hr =>
      subst hr
      exact ⟨i, hworker, rfl, s.sendNonceCtr i, by rw [Function.update_self, hnext]; omega, rfl⟩
  · refine h.nonces.concat ?_
    intro r hr heq
    obtain ⟨j, hlt, hkey, c, hc, hnonce⟩ := h.records r hr
    have hj : j = i := K.fresh j hlt i hworker (hkey.symm.trans heq.1)
    subst hj
    have := makeNonce_inj (by omega) (by omega) (hnonce.symm.trans heq.2)
    omega
  · intro j
    simp only [Attest.masterSend]
    by_cases hj : j = i
    · subst hj
      rw [Function.update_self, hnext]
      omega
    · rw [Function.update_of_ne hj]
      exact (h.sent j).trans (hpc j)
  · intro j m hm
    simp only [Attest.masterSend] at hm
    by_cases hj : j = i
    · subst hj
      rw [Function.update_self, List.mem_append, List.mem_singleton] at hm
      cases hm with
      | inl hm => exact h.controls j m hm
      | inr hm => subst hm; exact htag
    · rw [Function.update_of_ne hj] at hm
      exact h.controls j m hm

theorem Taskless.masterStep {s : State} (h : Taskless K s) (visible : Bool) :
    Taskless K (masterStep K.toSecrets encrypt nworkers [] s visible) := by
  have hpoll : ∀ i, pollWorker K.toSecrets encrypt [] s i visible = s := by
    intro i
    rw [pollWorker, h.silent i]
  simp only [Attest.masterStep]
  cases hpc : s.pc with
  | start i =>
    simp only
    split_ifs with hi
    · refine h.masterSend hi (by decide) _ ?_ ?_
      · intro j
        rw [hpc]
        simp only [Pc.sent]
        split_ifs <;> omega
      · simp [hpc, Pc.sent]
    · refine h.move fun j => ?_
      rw [hpc]
      simp only [Pc.sent]
      split_ifs <;> omega
  | loop => exact h.move fun j => by simp [hpc, Pc.sent]
  | poll i =>
    simp only [hpoll]
    split_ifs <;> exact h.move fun j => by simp [hpc, Pc.sent]
  | shutdown i =>
    simp only
    split_ifs with hi
    · refine h.masterSend hi (by decide) _ ?_ ?_
      · intro j
        rw [hpc]
        simp only [Pc.sent]
        split_ifs <;> omega
      · simp [hpc, Pc.sent]
    · exact h.move fun j => by rw [hpc]; exact Pc.sent_le _ j
  | done => exact h

/-- A worker that takes in a control message encrypts nothing. -/
theorem Taskless.workerStep {s : State} (h : Taskless K s) {i : Nat} {tag : Int32} {buf : Bytes}
    {rest : List (Int32 × Bytes)} (hqueue : s.toWorker i = (tag, buf) :: rest) :
    Taskless K (workerStep K.toSecrets encrypt
      { s with toWorker := Function.update s.toWorker i rest } i tag buf) := by
  have htag : tag ≠ tagTask := h.controls i (tag, buf) (by rw [hqueue]; exact List.mem_cons_self)
  have hrest : Taskless K { s with toWorker := Function.update s.toWorker i rest } := by
    refine ⟨h.records, h.nonces, h.sent, ?_, h.silent⟩
    intro j m hm
    by_cases hj : j = i
    · subst hj
      simp only [Function.update_self] at hm
      exact h.controls j m (by rw [hqueue]; exact List.mem_cons_of_mem _ hm)
    · simp only [Function.update_of_ne hj] at hm
      exact h.controls j m hm
  have hworkers : ∀ workers, Taskless K
      { s with toWorker := Function.update s.toWorker i rest, workers := workers } :=
    fun workers => ⟨hrest.records, hrest.nonces, hrest.sent, hrest.controls, hrest.silent⟩
  simp only [Attest.workerStep, if_neg htag]
  split_ifs
  · split
    · exact hrest
    · split_ifs
      · exact hworkers _
      · exact hworkers _
  · split
    · exact hrest
    · exact hworkers _
  · exact hrest

theorem taskless_run {s : State} (h : Run K.toSecrets encrypt nworkers [] s) : Taskless K s := by
  refine Reachable.invariant (I := Taskless K) ?_ ?_ h
  · intro s hs
    subst hs
    exact ⟨by simp [initial], List.Pairwise.nil, by simp [initial], by simp [initial],
      by simp [initial]⟩
  · intro s s' hs hstep
    cases hstep with
    | master visible => exact hs.masterStep visible
    | worker _ _ hqueue => exact hs.workerStep hqueue

end

section
variable {S : Sodium Bytes} {K : Secrets S} {encrypt : Bytes → Bytes → Bytes → Bytes}
  {nworkers : Nat} {tasks : List Int32}

theorem no_workers_run {s : State} (h : Run K encrypt 0 tasks s) : s.log = [] := by
  have hinv : s.pc = .done ∧ s.log = [] := by
    refine Reachable.invariant (I := fun s => s.pc = .done ∧ s.log = []) ?_ ?_ h
    · intro s hs
      subst hs
      exact ⟨rfl, rfl⟩
    · intro s s' hs hstep
      cases hstep with
      | master visible =>
        rw [Attest.masterStep, hs.1]
        exact hs
      | worker hi _ _ => exact (Nat.not_lt_zero _ hi).elim
  exact hinv.2

variable (encrypt) in
/-- What is sealed first under a key is opened by a receiver that holds the key. -/
theorem secureRecv_first (key plaintext : Bytes) (c : Nat) :
    ∃ counter, secureRecv [sealRecord encrypt key c plaintext] key 0 plaintext.length
      (makeNonce c ++ encrypt key (makeNonce c) plaintext) = some (plaintext, counter) := by
  obtain ⟨htake, hdrop⟩ := append_split (b := encrypt key (makeNonce c) plaintext)
    (makeNonce_length c)
  refine ⟨(nonceCounter (makeNonce c ++ encrypt key (makeNonce c) plaintext)+1)%2^64, ?_⟩
  simp only [secureRecv, htake, hdrop]
  simp [openSealed, sealRecord]

theorem storeWord_length (x : UInt32) : (storeWord x).length = 4 := by simp [storeWord]

variable (encrypt) in
/-- A worker that opens a task seals its result under its own counter. -/
theorem workerStep_task_log {s : State} {i counter : Nat} {buf word : Bytes}
    (h : secureRecv s.log (sessionKey K i) (s.workers i).recvNonceCtr 4 buf =
      some (word, counter)) :
    ∃ plaintext, (Attest.workerStep K encrypt s i tagTask buf).log =
      s.log ++ [sealRecord encrypt (sessionKey K i) (s.workers i).sendNonceCtr plaintext] := by
  simp only [Attest.workerStep, h, if_neg (show tagTask ≠ tagShutdown by decide),
    if_neg (show tagTask ≠ tagIdle by decide), if_true]
  refine ⟨storeWord (loadWord word).toInt32.toUInt32 ++
    storeWord ((loadWord word).toInt32 * (loadWord word).toInt32).toUInt32, ?_⟩
  simp only [workerSend, acceptCounter, Function.update_self]

variable (K encrypt) in
/-- With a worker and a task, the first result is sealed under the pair of the first task. -/
theorem first_result_reuses (hn : 0 < nworkers) (x : Int32) (rest : List Int32) :
    ∃ s, Run K encrypt nworkers (x :: rest) s ∧ ¬NonceRespecting s.log := by
  let r := sealRecord encrypt (wkey K 0) 0 (storeWord x.toUInt32)
  let s₀ := initial nworkers
  let s₁ : State := { secureSendTask K encrypt s₀ 0 x with next := 1, pc := .start 1 }
  have hkey : sessionKey K 0 = wkey K 0 := by rw [sessionKey, K.agree, wkey]
  have hmaster : Attest.masterStep K encrypt nworkers (x :: rest) s₀ false = s₁ := by
    have hpc : s₀.pc = .start 0 := if_neg hn.ne'
    simp only [Attest.masterStep, hpc, if_pos hn]
    rfl
  have hstep₁ : Step K encrypt nworkers (x :: rest) s₀ s₁ := hmaster ▸ Step.master false
  have hrun₀ : Run K encrypt nworkers (x :: rest) s₀ := .start rfl
  have hrun₁ : Run K encrypt nworkers (x :: rest) s₁ := hrun₀.next hstep₁
  have hqueue : s₁.toWorker 0 = [(tagTask, r.nonce ++ r.cipher)] := by
    simp [s₁, s₀, secureSendTask, Attest.masterSend, initial, r]
  have hrun₂ := hrun₁.next (.worker hn rfl hqueue)
  refine ⟨_, hrun₂, ?_⟩
  obtain ⟨counter, hrecv⟩ := secureRecv_first encrypt (wkey K 0)
    (storeWord x.toUInt32) 0
  rw [storeWord_length, ← hkey] at hrecv
  let s₁' : State := { s₁ with toWorker := Function.update s₁.toWorker 0 [] }
  have hopen : secureRecv s₁'.log (sessionKey K 0) (s₁'.workers 0).recvNonceCtr 4
      (r.nonce ++ r.cipher) = some (storeWord x.toUInt32, counter) := by
    rw [hkey] at hrecv ⊢
    exact hrecv
  obtain ⟨plaintext, hlog⟩ := workerStep_task_log encrypt hopen
  rw [hlog, NonceRespecting, List.pairwise_append]
  intro hfresh
  exact hfresh.2.2 r (List.mem_singleton.mpr rfl) _ (List.mem_singleton.mpr rfl) ⟨hkey.symm, rfl⟩

end

/-- No key and nonce are used twice in any reachable state exactly when there is no worker
or no task. -/
theorem nonces_fresh_iff {S : Sodium Bytes} {nworkers : Nat} {K : FreshSecrets S nworkers}
    {encrypt : Bytes → Bytes → Bytes → Bytes} {tasks : List Int32} :
    (∀ s, Run K.toSecrets encrypt nworkers tasks s → NonceRespecting s.log) ↔
      nworkers = 0 ∨ tasks = [] := by
  constructor
  · intro hall
    by_contra hnot
    obtain ⟨hn, htasks⟩ := not_or.mp hnot
    obtain ⟨x, rest, rfl⟩ := List.exists_cons_of_ne_nil htasks
    obtain ⟨s, hrun, hreuse⟩ := first_result_reuses K.toSecrets encrypt
      (Nat.pos_of_ne_zero hn) x rest
    exact hreuse (hall s hrun)
  · intro hcases s hrun
    cases hcases with
    | inl hn =>
      subst hn
      rw [no_workers_run hrun]
      exact List.Pairwise.nil
    | inr htasks =>
      subst htasks
      exact (taskless_run hrun).nonces

section Sample

def plainSecrets : Secrets plainSodium where
  serverSk i := List.replicate i 0
  clientSk _ := [7]
  masterRx i := List.replicate i 0 ++ [7] ++ [1]
  masterTx i := List.replicate i 0 ++ [7] ++ [2]
  workerRx i := List.replicate i 0 ++ [7] ++ [2]
  workerTx i := List.replicate i 0 ++ [7] ++ [1]
  server _ := rfl
  client _ := rfl
  agree _ := rfl

def plainFresh (nworkers : Nat) : FreshSecrets plainSodium nworkers where
  toSecrets := plainSecrets
  fresh i _ j _ h := by
    have := congrArg List.length h
    simpa [appKey, plainSodium, plainSecrets] using this

/-- The tasks of `main`, one enrolled worker. -/
theorem single_worker_reuses_nonce :
    ¬∀ s, Run plainSecrets (fun key nonce plaintext => key ++ nonce ++ plaintext) 1
      [2, 3, 4, 5, 6, 7, 8, 9, 10] s → NonceRespecting s.log := by
  intro hall
  obtain ⟨s, hrun, hreuse⟩ := first_result_reuses plainSecrets
    (fun key nonce plaintext => key ++ nonce ++ plaintext) Nat.one_pos 2
    [3, 4, 5, 6, 7, 8, 9, 10]
  exact hreuse (hall s hrun)

end Sample
end DistributedEnclave.Attest
