import DistributedEnclave.Attest.TaskProtocol

/-! The task phase under an active network. Every receive hands out whatever tag and octets
the network likes; what is sent and what is accepted goes on a trace. -/
namespace DistributedEnclave.Attest
open DistributedEnclave.Octets DistributedEnclave.Cluster DistributedEnclave.Streams
  DistributedEnclave.Transition

inductive Act where
  | masterSends | masterAccepts | workerSends | workerAccepts
  deriving DecidableEq, Repr

structure Event where
  act : Act
  worker : Nat
  tag : Int32
  plaintext : Bytes
  wire : Bytes
  deriving DecidableEq

def messages (a : Act) (i : Nat) (trace : List Event) : List (Bytes × Bytes) :=
  (trace.filter fun e => e.act = a ∧ e.worker = i).map fun e => (e.plaintext, e.wire)

@[simp] theorem messages_nil (a : Act) (i : Nat) : messages a i [] = [] := rfl

@[simp] theorem messages_append (a : Act) (i : Nat) (trace events : List Event) :
    messages a i (trace ++ events) = messages a i trace ++ messages a i events := by
  simp [messages]

theorem messages_concat (a : Act) (i : Nat) (trace : List Event) (e : Event) :
    messages a i (trace ++ [e]) =
      if e.act = a ∧ e.worker = i then messages a i trace ++ [(e.plaintext, e.wire)]
      else messages a i trace := by
  by_cases h : e.act = a ∧ e.worker = i <;> simp [messages, h]

def sentinel (tag : Int32) : Option UInt32 :=
  if tag = tagShutdown then some ctrlMagicShutdown
  else if tag = tagIdle then some ctrlMagicIdle
  else none

def Event.IsWord (e : Event) : Prop :=
  e.plaintext.length = 4 ∧
    (e.tag = tagTask ∨ ∃ m, sentinel e.tag = some m ∧ e.plaintext = storeWord m)

section
variable {S : Sodium Bytes} (K : Secrets S) (encrypt : Bytes → Bytes → Bytes → Bytes)

def wire (key : Bytes) (counter : Nat) (plaintext : Bytes) : Bytes :=
  makeNonce counter ++ encrypt key (makeNonce counter) plaintext

variable (nworkers : Nat) (tasks : List Int32)

def nextMessage (s : State) : Int32 × Bytes :=
  match tasks[s.next]? with
  | some x => (tagTask, storeWord x.toUInt32)
  | none => (tagIdle, storeWord ctrlMagicIdle)

def sendEvent (s : State) (i : Nat) (m : Int32 × Bytes) : Event :=
  ⟨.masterSends, i, m.1, m.2, wire encrypt (wkey K i) (s.sendNonceCtr i) m.2⟩

def pollEvents (s : State) (i : Nat) (visible : Bool) : List Event :=
  match s.toMaster i with
  | [] => []
  | buf :: _ =>
    if ¬visible then []
    else
      match secureRecv s.log (wkey K i) (s.recvNonceCtr i) 8 buf with
      | none => []
      | some (plaintext, _) =>
        [⟨.masterAccepts, i, tagResult, plaintext, buf⟩,
          sendEvent K encrypt s i (nextMessage tasks s)]

def masterEvents (s : State) (visible : Bool) : List Event :=
  match s.pc with
  | .start i => if i < nworkers then [sendEvent K encrypt s i (nextMessage tasks s)] else []
  | .poll i => if i < nworkers then pollEvents K encrypt tasks s i visible else []
  | .shutdown i =>
    if i < nworkers then [sendEvent K encrypt s i (tagShutdown, storeWord ctrlMagicShutdown)]
    else []
  | _ => []

def resultPair (x : Int32) : Bytes := storeWord x.toUInt32 ++ storeWord (x*x).toUInt32

def workerEvents (s : State) (i : Nat) (tag : Int32) (buf : Bytes) : List Event :=
  match secureRecv s.log (sessionKey K i) (s.workers i).recvNonceCtr 4 buf with
  | none => []
  | some (word, _) =>
    if tag = tagShutdown ∨ tag = tagIdle then [⟨.workerAccepts, i, tag, word, buf⟩]
    else if tag = tagTask then
      let result := resultPair (loadWord word).toInt32
      [⟨.workerAccepts, i, tag, word, buf⟩, ⟨.workerSends, i, tagResult, result,
        wire encrypt (sessionKey K i) (s.workers i).sendNonceCtr result⟩]
    else []

/-- A step in which the network hands out any octets: `inbox` to the master's receives, and to
a worker what it is allowed after the trace so far, a tag with octets. -/
inductive NetStep (allowed : List Event → Nat → Int32 → Bytes → Prop) :
    State × List Event → State × List Event → Prop
  | master {s trace} (inbox : Nat → List Bytes) (visible : Bool) :
      NetStep allowed (s, trace)
        (masterStep K encrypt nworkers tasks { s with toMaster := inbox } visible,
          trace ++ masterEvents K encrypt nworkers tasks { s with toMaster := inbox } visible)
  | worker {s trace i} (tag : Int32) (buf : Bytes) : i < nworkers → (s.workers i).running →
      allowed trace i tag buf → NetStep allowed (s, trace) (workerStep K encrypt s i tag buf,
        trace ++ workerEvents K encrypt s i tag buf)

abbrev NetRun (allowed : List Event → Nat → Int32 → Bytes → Prop) (t : State × List Event) :
    Prop :=
  Reachable (fun t => t = (initial nworkers, [])) (NetStep K encrypt nworkers tasks allowed) t

abbrev HostileRun (t : State × List Event) : Prop :=
  NetRun K encrypt nworkers tasks (fun _ _ _ _ => True) t

end

theorem nonceCounter_makeNonce {c : Nat} (hc : c < 2^64) (rest : Bytes) :
    nonceCounter (makeNonce c ++ rest) = c := by
  have htake : (makeNonce c ++ rest).take 8 = (beEncode 8 c).reverse := by
    rw [makeNonce, List.append_assoc]
    exact List.take_left' (by simp)
  rw [nonceCounter, htake, List.reverse_reverse]
  exact beDecode_beEncode_of_lt (by omega)

/-- An accepted buffer is a record of the log under the key, at or above the counter. -/
theorem secureRecv_ok {log : List Record} {key : Bytes} {counter plainLen next : Nat}
    {buf plaintext : Bytes}
    (h : secureRecv log key counter plainLen buf = some (plaintext, next)) :
    counter ≤ nonceCounter buf ∧ next = (nonceCounter buf+1)%2^64 ∧ plaintext.length = plainLen ∧
      ∃ r ∈ log, r.key = key ∧ r.plain = plaintext ∧ r.nonce ++ r.cipher = buf := by
  rw [secureRecv] at h
  split at h
  · cases h
  rename_i hle
  split at h
  · cases h
  rename_i p hopen
  split at h
  · cases h
  rename_i hlen
  cases h
  refine ⟨Nat.le_of_not_lt hle, rfl, not_not.mp hlen, _, openSealed_eq_some hopen, rfl, rfl, ?_⟩
  exact List.take_append_drop npub buf

/-- What is on record is opened as what was sealed. -/
theorem openSealed_sealed {encrypt : Bytes → Bytes → Bytes → Bytes}
    (hinjective : ∀ key nonce p q, encrypt key nonce p = encrypt key nonce q → p = q)
    {log : List Record}
    (hsealed : ∀ r ∈ log, r = ⟨r.key, r.nonce, [], r.plain, encrypt r.key r.nonce r.plain⟩)
    {key : Bytes} {c : Nat} {p : Bytes} (hmem : sealRecord encrypt key c p ∈ log) :
    openSealed log key (makeNonce c) [] (encrypt key (makeNonce c) p) = some p := by
  rw [openSealed, Option.map_eq_some_iff]
  cases hfind : log.find? (fun r => r.key = key ∧ r.nonce = makeNonce c ∧ r.aad = [] ∧
      r.cipher = encrypt key (makeNonce c) p) with
  | none =>
    have := List.find?_eq_none.mp hfind _ hmem
    simp [sealRecord] at this
  | some r =>
    have hr := List.find?_some hfind
    simp only [decide_eq_true_eq] at hr
    obtain ⟨hkey, hnonce, _, hcipher⟩ := hr
    refine ⟨r, rfl, hinjective key (makeNonce c) r.plain p ?_⟩
    rw [← hcipher, hsealed r (List.mem_of_find?_eq_some hfind), ← hkey, ← hnonce]

theorem sealed_concat {encrypt : Bytes → Bytes → Bytes → Bytes} {log : List Record}
    (h : ∀ r ∈ log, r = ⟨r.key, r.nonce, [], r.plain, encrypt r.key r.nonce r.plain⟩)
    (key : Bytes) (c : Nat) (p : Bytes) : ∀ r ∈ log ++ [sealRecord encrypt key c p],
      r = ⟨r.key, r.nonce, [], r.plain, encrypt r.key r.nonce r.plain⟩ := by
  intro r hr
  cases List.mem_append.mp hr with
  | inl hr => exact h r hr
  | inr hr =>
    obtain rfl := List.mem_singleton.mp hr
    rfl

/-- What holds of the state of a worker holds after an update elsewhere. -/
theorem workers_update (s : State) (i : Nat) (w : WorkerState) (f : WorkerState → Nat) (j : Nat) :
    f (Function.update s.workers i w j) = if i = j then f w else f (s.workers j) := by
  by_cases hj : j = i
  · subst hj
    rw [Function.update_self, if_pos rfl]
  · rw [Function.update_of_ne hj, if_neg (Ne.symm hj)]

/-- An update that leaves a number of the worker as it was. -/
theorem workers_same (s : State) (i : Nat) {w : WorkerState} (f : WorkerState → Nat)
    (hf : f w = f (s.workers i)) (j : Nat) :
    f (Function.update s.workers i w j) = f (s.workers j) := by
  rw [workers_update s i w f]
  split
  · rename_i hj
    rw [hf, hj]
  · rfl

theorem acceptCounter_sendNonceCtr (s : State) (i next j : Nat) :
    ((acceptCounter s i next).workers j).sendNonceCtr = (s.workers j).sendNonceCtr := by
  refine workers_same s i (·.sendNonceCtr) ?_ j
  rfl

theorem stopWorker_sendNonceCtr (s : State) (i j : Nat) :
    ((stopWorker s i).workers j).sendNonceCtr = (s.workers j).sendNonceCtr := by
  refine workers_same s i (·.sendNonceCtr) ?_ j
  rfl

theorem stopWorker_recvNonceCtr (s : State) (i j : Nat) :
    ((stopWorker s i).workers j).recvNonceCtr = (s.workers j).recvNonceCtr := by
  refine workers_same s i (·.recvNonceCtr) ?_ j
  rfl

theorem workerSend_recvNonceCtr {S : Sodium Bytes} {K : Secrets S}
    {encrypt : Bytes → Bytes → Bytes → Bytes} (s : State) (i : Nat) (p : Bytes) (j : Nat) :
    ((workerSend K encrypt s i p).workers j).recvNonceCtr = (s.workers j).recvNonceCtr := by
  refine workers_same s i (·.recvNonceCtr) ?_ j
  rfl

theorem resultPair_length (x : Int32) : (resultPair x).length = 8 := by
  rw [resultPair, List.length_append, storeWord_length, storeWord_length]

section
variable {S : Sodium Bytes} (K : Secrets S) (encrypt : Bytes → Bytes → Bytes → Bytes)

structure Kept (nworkers : Nat) (allowed : List Event → Nat → Int32 → Bytes → Prop)
    (I : State → List Event → Prop) : Prop where
  same : ∀ {s s' trace}, I s trace → s'.log = s.log → s'.sendNonceCtr = s.sendNonceCtr →
    s'.recvNonceCtr = s.recvNonceCtr → s'.workers = s.workers → I s' trace
  masterSend : ∀ {s trace i} m, i < nworkers → (sendEvent K encrypt s i m).IsWord → I s trace →
    I (masterSend K encrypt s i m.1 m.2) (trace ++ [sendEvent K encrypt s i m])
  masterAccept : ∀ {s trace i buf p next}, i < nworkers →
    secureRecv s.log (wkey K i) (s.recvNonceCtr i) 8 buf = some (p, next) → I s trace →
    I { s with recvNonceCtr := Function.update s.recvNonceCtr i next }
      (trace ++ [⟨.masterAccepts, i, tagResult, p, buf⟩])
  workerAccept : ∀ {s trace i tag buf p next}, i < nworkers →
    secureRecv s.log (sessionKey K i) (s.workers i).recvNonceCtr 4 buf = some (p, next) →
    allowed trace i tag buf → I s trace →
    I (acceptCounter s i next) (trace ++ [⟨.workerAccepts, i, tag, p, buf⟩])
  workerSend : ∀ {s trace i word buf}, i < nworkers → word.length = 4 →
    ⟨.workerAccepts, i, tagTask, word, buf⟩ ∈ trace → I s trace →
    I (workerSend K encrypt s i (resultPair (loadWord word).toInt32)) (trace ++
      [⟨.workerSends, i, tagResult, resultPair (loadWord word).toInt32, wire encrypt
        (sessionKey K i) (s.workers i).sendNonceCtr (resultPair (loadWord word).toInt32)⟩])
  stop : ∀ {s trace} i, I s trace → I (stopWorker s i) trace

variable {K encrypt} {nworkers : Nat} {tasks : List Int32}
  {allowed : List Event → Nat → Int32 → Bytes → Prop} {I : State → List Event → Prop}

theorem handOut_eq (s : State) (i : Nat) : handOut K encrypt tasks s i =
    { masterSend K encrypt s i (nextMessage tasks s).1 (nextMessage tasks s).2 with
      next := if s.next < tasks.length then s.next+1 else s.next } := by
  cases htask : tasks[s.next]? with
  | none =>
    have hlt : ¬s.next < tasks.length := not_lt.mpr (List.getElem?_eq_none_iff.mp htask)
    simp only [handOut, nextMessage, htask, if_neg hlt]
    rfl
  | some x =>
    have hlt : s.next < tasks.length := (List.getElem?_eq_some_iff.mp htask).1
    simp only [handOut, nextMessage, htask, if_pos hlt]
    rfl

theorem sendEvent_isWord {s : State} {i : Nat} {tag : Int32} {m : UInt32}
    (h : tag = tagTask ∨ sentinel tag = some m) :
    (sendEvent K encrypt s i (tag, storeWord m)).IsWord :=
  ⟨storeWord_length m, h.imp id fun h => ⟨m, h, rfl⟩⟩

theorem nextMessage_length (s : State) : (nextMessage tasks s).2.length = 4 := by
  rw [nextMessage]
  split <;> exact storeWord_length _

theorem nextMessage_isWord (s : State) (i : Nat) :
    (sendEvent K encrypt s i (nextMessage tasks s)).IsWord := by
  rw [nextMessage]
  split
  · exact sendEvent_isWord (.inl rfl)
  · exact sendEvent_isWord (.inr (by decide))

theorem Kept.handOut (h : Kept K encrypt nworkers allowed I) {s : State} {trace : List Event}
    {i : Nat} (hi : i < nworkers) (hs : I s trace) : I (handOut K encrypt tasks s i)
      (trace ++ [sendEvent K encrypt s i (nextMessage tasks s)]) := by
  rw [handOut_eq]
  exact h.same (h.masterSend (nextMessage tasks s) hi (nextMessage_isWord s i) hs) rfl rfl rfl rfl

theorem Kept.pollWorker (h : Kept K encrypt nworkers allowed I) {s : State} {trace : List Event}
    {i : Nat} (hi : i < nworkers) (visible : Bool) (hs : I s trace) :
    I (pollWorker K encrypt tasks s i visible)
      (trace ++ pollEvents K encrypt tasks s i visible) := by
  rw [Attest.pollWorker, pollEvents]
  cases hqueue : s.toMaster i with
  | nil => simpa using hs
  | cons buf rest =>
    by_cases hv : ¬visible
    · simpa [hv] using hs
    simp only [if_neg hv]
    cases hrecv : secureRecv s.log (wkey K i) (s.recvNonceCtr i) 8 buf with
    | none =>
      simp only [List.append_nil]
      exact h.same hs rfl rfl rfl rfl
    | some x =>
      rw [List.append_cons]
      exact h.handOut (s := { s with
        toMaster := Function.update s.toMaster i rest
        recvNonceCtr := Function.update s.recvNonceCtr i x.2
        resultsReceived := s.resultsReceived+1 }) hi
        (h.same (h.masterAccept hi hrecv hs) rfl rfl rfl rfl)

theorem Kept.masterStep (h : Kept K encrypt nworkers allowed I) {s : State} {trace : List Event}
    (visible : Bool) (hs : I s trace) : I (masterStep K encrypt nworkers tasks s visible)
      (trace ++ masterEvents K encrypt nworkers tasks s visible) := by
  have hmove : ∀ pc, I { s with pc := pc } (trace ++ []) := by
    intro pc
    rw [List.append_nil]
    exact h.same hs rfl rfl rfl rfl
  rw [masterEvents]
  simp only [Attest.masterStep]
  cases s.pc with
  | start i =>
    by_cases hi : i < nworkers
    · simp only [if_pos hi]
      exact h.same (h.handOut hi hs) rfl rfl rfl rfl
    · simpa only [if_neg hi] using hmove _
  | loop =>
    dsimp only
    split
    · exact hmove _
    · exact hmove _
  | poll i =>
    by_cases hi : i < nworkers
    · simp only [if_pos hi]
      exact h.same (h.pollWorker hi visible hs) rfl rfl rfl rfl
    · simpa only [if_neg hi] using hmove _
  | shutdown i =>
    by_cases hi : i < nworkers
    · simp only [if_pos hi]
      exact h.same (h.masterSend (tagShutdown, storeWord ctrlMagicShutdown) hi
        (sendEvent_isWord (.inr (by decide))) hs) rfl rfl rfl rfl
    · simpa only [if_neg hi] using hmove _
  | done => simpa only [List.append_nil] using hs

theorem Kept.workerStep (h : Kept K encrypt nworkers allowed I) {s : State} {trace : List Event}
    {i : Nat} (hi : i < nworkers) {tag : Int32} {buf : Bytes} (hallowed : allowed trace i tag buf)
    (hs : I s trace) :
    I (workerStep K encrypt s i tag buf) (trace ++ workerEvents K encrypt s i tag buf) := by
  rw [workerEvents]
  simp only [Attest.workerStep]
  cases hrecv : secureRecv s.log (sessionKey K i) (s.workers i).recvNonceCtr 4 buf with
  | none =>
    simp only [List.append_nil]
    split_ifs <;> exact hs
  | some x =>
    obtain ⟨word, next⟩ := x
    have haccept := h.workerAccept hi hrecv hallowed hs
    by_cases hshut : tag = tagShutdown
    · simp only [if_pos hshut, if_pos (Or.inl hshut : tag = tagShutdown ∨ tag = tagIdle)]
      split
      · exact h.stop i haccept
      · exact haccept
    by_cases hidle : tag = tagIdle
    · simpa only [if_neg hshut, if_pos hidle,
        if_pos (Or.inr hidle : tag = tagShutdown ∨ tag = tagIdle)] using haccept
    have hctrl : ¬(tag = tagShutdown ∨ tag = tagIdle) := not_or.mpr ⟨hshut, hidle⟩
    by_cases htask : tag = tagTask
    · subst htask
      simp only [if_neg hshut, if_neg hidle, if_neg hctrl, if_true]
      rw [List.append_cons, ← acceptCounter_sendNonceCtr s i next i]
      exact h.workerSend hi (secureRecv_ok hrecv).2.2.1
        (List.mem_append_right trace (List.mem_singleton.mpr rfl)) haccept
    · simpa only [if_neg hshut, if_neg hidle, if_neg hctrl, if_neg htask, List.append_nil] using hs

/-- What holds at the start and is kept by sends and accepts holds in every run. -/
theorem Kept.run (h : Kept K encrypt nworkers allowed I) (hinit : I (initial nworkers) [])
    {t : State × List Event} (hrun : NetRun K encrypt nworkers tasks allowed t) : I t.1 t.2 := by
  refine Reachable.invariant (I := fun t => I t.1 t.2) ?_ ?_ hrun
  · intro t ht
    subst ht
    exact hinit
  · intro t t' ht hstep
    cases hstep with
    | master inbox visible =>
      exact h.masterStep visible (h.same ht rfl rfl rfl rfl)
    | worker tag buf hi _ hallowed => exact h.workerStep hi hallowed ht

end

theorem sessionKey_eq {S : Sodium Bytes} (K : Secrets S) (i : Nat) :
    sessionKey K i = wkey K i := by
  rw [sessionKey, K.agree, wkey]

section
variable {S : Sodium Bytes} {nworkers : Nat} {K : FreshSecrets S nworkers}
  {encrypt : Bytes → Bytes → Bytes → Bytes}

/-- On every channel there are fewer than 2^64 messages in each direction. -/
def Short (trace : List Event) : Prop :=
  ∀ i, (messages .masterSends i trace).length < 2^64 ∧
    (messages .workerSends i trace).length < 2^64

def numbered (m : Bytes × Bytes) : Nat × Bytes × Bytes := (nonceCounter m.2, m)

def Recorded (nworkers : Nat) (trace : List Event) (a : Act) (key : Nat → Bytes) (r : Record) :
    Prop :=
  ∃ i < nworkers, ∃ c, r.key = key i ∧ r.nonce = makeNonce c ∧
    (messages a i trace)[c]? = some (r.plain, r.nonce ++ r.cipher)

structure Carries (trace : List Event) (a b : Act) (len : Nat) (sendCtr recvCtr : Nat → Nat) :
    Prop where
  lengths : ∀ i, ∀ m ∈ messages a i trace, m.1.length = len
  counter : ∀ i, sendCtr i = (messages a i trace).length
  gapped : ∀ i, Gapped (messages a i trace) ((messages b i trace).map numbered) (recvCtr i)

structure Channelled (K : FreshSecrets S nworkers) (s : State) (trace : List Event) : Prop where
  records : ∀ r ∈ s.log, Recorded nworkers trace .masterSends (wkey K.toSecrets) r ∨
    Recorded nworkers trace .workerSends (sessionKey K.toSecrets) r
  words : Carries trace .masterSends .workerAccepts 4 s.sendNonceCtr
    fun i => (s.workers i).recvNonceCtr
  pairs : Carries trace .workerSends .masterAccepts 8 (fun i => (s.workers i).sendNonceCtr)
    s.recvNonceCtr

theorem Recorded.mono {trace : List Event} {a : Act} {key : Nat → Bytes} {r : Record}
    (h : Recorded nworkers trace a key r) (events : List Event) :
    Recorded nworkers (trace ++ events) a key r := by
  obtain ⟨i, hi, c, hkey, hnonce, hget⟩ := h
  refine ⟨i, hi, c, hkey, hnonce, ?_⟩
  rwa [messages_append, List.getElem?_append_left (List.getElem?_eq_some_iff.mp hget).1]

/-- The counter on the wire is the number of the message. -/
theorem Recorded.number {trace : List Event} {a : Act} {key : Nat → Bytes} {r : Record}
    (h : Recorded nworkers trace a key r)
    (hinj : ∀ i < nworkers, ∀ j < nworkers, key i = key j → i = j) {i : Nat} (hi : i < nworkers)
    (hkey : r.key = key i) (hshort : (messages a i trace).length < 2^64) :
    (messages a i trace)[nonceCounter (r.nonce ++ r.cipher)]? =
        some (r.plain, r.nonce ++ r.cipher) ∧
      (nonceCounter (r.nonce ++ r.cipher)+1)%2^64 = nonceCounter (r.nonce ++ r.cipher)+1 := by
  obtain ⟨j, hj, c, hkey', hnonce, hget⟩ := h
  obtain rfl := hinj j hj i hi (hkey'.symm.trans hkey)
  have hlt := (List.getElem?_eq_some_iff.mp hget).1
  have hcounter : nonceCounter (r.nonce ++ r.cipher) = c := by
    rw [hnonce]
    exact nonceCounter_makeNonce (by omega) r.cipher
  rw [hcounter]
  exact ⟨hget, Nat.mod_eq_of_lt (by omega)⟩

theorem sessionKey_injective (K : FreshSecrets S nworkers) (i : Nat) (hi : i < nworkers) (j : Nat)
    (hj : j < nworkers) (h : sessionKey K.toSecrets i = sessionKey K.toSecrets j) : i = j := by
  rw [sessionKey_eq, sessionKey_eq] at h
  exact K.fresh i hi j hj h

section
variable {trace : List Event} {a b : Act} {len : Nat} {sendCtr recvCtr : Nat → Nat}

theorem Recorded.new {key : Nat → Bytes} {r : Record} {e : Event} (hact : e.act = a)
    (hworker : e.worker < nworkers) (hkey : r.key = key e.worker)
    (hnonce : r.nonce = makeNonce (messages a e.worker trace).length)
    (hplain : e.plaintext = r.plain) (hwire : e.wire = r.nonce ++ r.cipher) :
    Recorded nworkers (trace ++ [e]) a key r := by
  refine ⟨e.worker, hworker, _, hkey, hnonce, ?_⟩
  rw [messages_concat, if_pos ⟨hact, rfl⟩, List.getElem?_concat_length, hplain, hwire]

theorem messages_other {e : Event} (h : e.act ≠ a) (i : Nat) :
    messages a i (trace ++ [e]) = messages a i trace := by
  rw [messages_concat, if_neg]
  exact fun hc => h hc.1

/-- An event of the other direction changes nothing. -/
theorem Carries.other (h : Carries trace a b len sendCtr recvCtr) {e : Event}
    (hsend : e.act ≠ a) (haccept : e.act ≠ b) : Carries (trace ++ [e]) a b len sendCtr recvCtr := by
  refine ⟨?_, ?_, ?_⟩
  · intro i
    rw [messages_other hsend]
    exact h.lengths i
  · intro i
    rw [messages_other hsend]
    exact h.counter i
  · intro i
    rw [messages_other hsend, messages_other haccept]
    exact h.gapped i

theorem Carries.sends (h : Carries trace a b len sendCtr recvCtr) (hne : a ≠ b) {e : Event}
    (hact : e.act = a) (hlen : e.plaintext.length = len)
    (hshort : (messages a e.worker trace).length+1 < 2^64) {sendCtr' : Nat → Nat}
    (hctr : ∀ i, sendCtr' i = if e.worker = i then (sendCtr i+1)%2^64 else sendCtr i) :
    Carries (trace ++ [e]) a b len sendCtr' recvCtr := by
  have hsent : ∀ i, messages a i (trace ++ [e]) = if e.worker = i then
      messages a i trace ++ [(e.plaintext, e.wire)] else messages a i trace := by
    intro i
    rw [messages_concat]
    simp only [hact, true_and]
  refine ⟨?_, ?_, ?_⟩
  · intro i m hm
    rw [hsent] at hm
    split at hm
    · cases List.mem_append.mp hm with
      | inl hm => exact h.lengths i m hm
      | inr hm =>
        obtain rfl := List.mem_singleton.mp hm
        exact hlen
    · exact h.lengths i m hm
  · intro i
    rw [hsent, hctr]
    split
    · rename_i hi
      subst hi
      rw [List.length_append, List.length_singleton, h.counter]
      exact Nat.mod_eq_of_lt hshort
    · exact h.counter i
  · intro i
    rw [hsent, messages_other (hact ▸ hne)]
    split
    · exact (h.gapped i).send _
    · exact h.gapped i

/-- A message is accepted whose number is not below the counter. -/
theorem Carries.accepts (h : Carries trace a b len sendCtr recvCtr) (hne : a ≠ b) {e : Event}
    (hact : e.act = b) (hfresh : recvCtr e.worker ≤ nonceCounter e.wire)
    (hsent : (messages a e.worker trace)[nonceCounter e.wire]? = some (e.plaintext, e.wire))
    {recvCtr' : Nat → Nat}
    (hctr : ∀ i, recvCtr' i = if e.worker = i then nonceCounter e.wire+1 else recvCtr i) :
    Carries (trace ++ [e]) a b len sendCtr recvCtr' := by
  have hother : e.act ≠ a := hact ▸ hne.symm
  refine ⟨?_, ?_, ?_⟩
  · intro i
    rw [messages_other hother]
    exact h.lengths i
  · intro i
    rw [messages_other hother]
    exact h.counter i
  · intro i
    rw [messages_other hother, messages_concat, hctr]
    simp only [hact, true_and]
    split
    · rename_i hi
      subst hi
      rw [List.map_append]
      exact (h.gapped _).accept hfresh hsent
    · exact h.gapped i

end

theorem Channelled.masterSend {s : State} {trace : List Event} (h : Channelled K s trace) {i : Nat}
    (hi : i < nworkers) (m : Int32 × Bytes) (hlen : m.2.length = 4)
    (hshort : (messages .masterSends i trace).length+1 < 2^64) :
    Channelled K (masterSend K.toSecrets encrypt s i m.1 m.2)
      (trace ++ [sendEvent K.toSecrets encrypt s i m]) := by
  refine ⟨?_, h.words.sends (by decide) rfl hlen hshort ?_, h.pairs.other ?_ ?_⟩
  · intro r hr
    cases List.mem_append.mp hr with
    | inl hr => exact (h.records r hr).imp (·.mono _) (·.mono _)
    | inr hr =>
      obtain rfl := List.mem_singleton.mp hr
      exact .inl (.new rfl hi rfl (congrArg makeNonce (h.words.counter i)) rfl rfl)
  · intro j
    show Function.update s.sendNonceCtr i _ j = if i = j then _ else _
    by_cases hj : j = i
    · subst hj
      rw [Function.update_self, if_pos rfl]
    · rw [Function.update_of_ne hj, if_neg (Ne.symm hj)]
  · exact Act.noConfusion
  · exact Act.noConfusion

theorem Channelled.workerSend {s : State} {trace : List Event} (h : Channelled K s trace) {i : Nat}
    (hi : i < nworkers) (p : Bytes) (hlen : p.length = 8)
    (hshort : (messages .workerSends i trace).length+1 < 2^64) :
    Channelled K (workerSend K.toSecrets encrypt s i p) (trace ++ [⟨.workerSends, i, tagResult, p,
      wire encrypt (sessionKey K.toSecrets i) (s.workers i).sendNonceCtr p⟩]) := by
  refine ⟨?_, ?_, h.pairs.sends (by decide) rfl hlen hshort ?_⟩
  · intro r hr
    cases List.mem_append.mp hr with
    | inl hr => exact (h.records r hr).imp (·.mono _) (·.mono _)
    | inr hr =>
      obtain rfl := List.mem_singleton.mp hr
      exact .inr (.new rfl hi rfl (congrArg makeNonce (h.pairs.counter i)) rfl rfl)
  · rw [funext (workerSend_recvNonceCtr s i p)]
    exact h.words.other Act.noConfusion Act.noConfusion
  · intro j
    rw [Attest.workerSend, workers_update s i _ (·.sendNonceCtr)]
    split
    · rename_i hj
      rw [hj]
    · rfl

/-- The master accepts only what the worker of the channel has sent. -/
theorem Channelled.masterAccept {s : State} {trace : List Event} (h : Channelled K s trace)
    {i next : Nat} {buf p : Bytes} (hi : i < nworkers)
    (hrecv : secureRecv s.log (wkey K.toSecrets i) (s.recvNonceCtr i) 8 buf = some (p, next))
    (hshort : Short trace) :
    Channelled K { s with recvNonceCtr := Function.update s.recvNonceCtr i next }
      (trace ++ [⟨.masterAccepts, i, tagResult, p, buf⟩]) := by
  obtain ⟨hfresh, hnext, hlen, r, hr, hkey, rfl, rfl⟩ := secureRecv_ok hrecv
  have hrecord : Recorded nworkers trace .workerSends (sessionKey K.toSecrets) r := by
    refine (h.records r hr).resolve_left fun hsent => ?_
    obtain ⟨j, _, c, _, _, hget⟩ := hsent
    have hword : r.plain.length = 4 := h.words.lengths j _ (List.mem_of_getElem? hget)
    omega
  obtain ⟨hsent, hmod⟩ := hrecord.number (sessionKey_injective K) hi
    (hkey.trans (sessionKey_eq K.toSecrets i).symm) (hshort i).2
  refine ⟨fun r hr => (h.records r hr).imp (·.mono _) (·.mono _), h.words.other Act.noConfusion
    Act.noConfusion, h.pairs.accepts (by decide) rfl hfresh hsent ?_⟩
  intro j
  show Function.update s.recvNonceCtr i next j = if i = j then _ else _
  by_cases hj : j = i
  · subst hj
    rw [Function.update_self, if_pos rfl, hnext, hmod]
  · rw [Function.update_of_ne hj, if_neg (Ne.symm hj)]

/-- A worker accepts only what the master has sent to it. -/
theorem Channelled.workerAccept {s : State} {trace : List Event} (h : Channelled K s trace)
    {i next : Nat} {buf p : Bytes} (hi : i < nworkers) (tag : Int32)
    (hrecv : secureRecv s.log (sessionKey K.toSecrets i) (s.workers i).recvNonceCtr 4 buf =
      some (p, next))
    (hshort : Short trace) :
    Channelled K (acceptCounter s i next) (trace ++ [⟨.workerAccepts, i, tag, p, buf⟩]) := by
  obtain ⟨hfresh, hnext, hlen, r, hr, hkey, rfl, rfl⟩ := secureRecv_ok hrecv
  have hrecord : Recorded nworkers trace .masterSends (wkey K.toSecrets) r := by
    refine (h.records r hr).resolve_right fun hsent => ?_
    obtain ⟨j, _, c, _, _, hget⟩ := hsent
    have hpair : r.plain.length = 8 := h.pairs.lengths j _ (List.mem_of_getElem? hget)
    omega
  obtain ⟨hsent, hmod⟩ := hrecord.number K.fresh hi (hkey.trans (sessionKey_eq K.toSecrets i))
    (hshort i).1
  refine ⟨fun r hr => (h.records r hr).imp (·.mono _) (·.mono _),
    h.words.accepts (by decide) rfl hfresh hsent ?_, ?_⟩
  · intro j
    rw [acceptCounter, workers_update s i _ (·.recvNonceCtr)]
    split
    · exact hnext.trans hmod
    · rfl
  · rw [funext (acceptCounter_sendNonceCtr s i next)]
    exact h.pairs.other Act.noConfusion Act.noConfusion

theorem Short.of_append {trace events : List Event} (h : Short (trace ++ events)) : Short trace := by
  intro i
  have := h i
  rw [messages_append, messages_append, List.length_append, List.length_append] at this
  omega

variable {tasks : List Int32}

/-- A send that stays below the limit. -/
theorem Short.sends {trace : List Event} {e : Event} (h : Short (trace ++ [e])) :
    (e.act = .masterSends → (messages .masterSends e.worker trace).length+1 < 2^64) ∧
      (e.act = .workerSends → (messages .workerSends e.worker trace).length+1 < 2^64) := by
  constructor
  · intro hact
    have hle := (h e.worker).1
    rwa [messages_concat, if_pos ⟨hact, rfl⟩, List.length_append] at hle
  · intro hact
    have hle := (h e.worker).2
    rwa [messages_concat, if_pos ⟨hact, rfl⟩, List.length_append] at hle

theorem Channelled.stopWorker {s : State} {trace : List Event} (h : Channelled K s trace) (i : Nat) :
    Channelled K (stopWorker s i) trace := by
  refine ⟨h.records, ?_, ?_⟩
  · rw [funext (stopWorker_recvNonceCtr s i)]
    exact h.words
  · rw [funext (stopWorker_sendNonceCtr s i)]
    exact h.pairs

theorem Channelled.kept {allowed : List Event → Nat → Int32 → Bytes → Prop} :
    Kept K.toSecrets encrypt nworkers allowed fun s trace => Short trace → Channelled K s trace where
  same := by
    intro s s' trace h hlog hsend hrecv hworkers hshort
    obtain ⟨hrecords, hwords, hpairs⟩ := h hshort
    exact ⟨by rwa [hlog], by rwa [hsend, hworkers], by rwa [hworkers, hrecv]⟩
  masterSend := fun m hi hword h hshort =>
    (h hshort.of_append).masterSend hi m hword.1 (hshort.sends.1 rfl)
  masterAccept := fun hi hrecv h hshort =>
    (h hshort.of_append).masterAccept hi hrecv hshort.of_append
  workerAccept := fun hi hrecv _ h hshort =>
    (h hshort.of_append).workerAccept hi _ hrecv hshort.of_append
  workerSend := fun hi _ _ h hshort =>
    (h hshort.of_append).workerSend hi _ (resultPair_length _) (hshort.sends.2 rfl)
  stop := fun i h hshort => (h hshort).stopWorker i

theorem channelled_initial : Channelled K (initial nworkers) [] := by
  have hnil : ∀ a b len, Carries [] a b len (fun _ => 0) (fun _ => 0) :=
    fun a b len => ⟨by simp, by simp, fun i => .nil _ _⟩
  exact ⟨by simp [initial], hnil _ _ _, hnil _ _ _⟩

theorem channelled_run {t : State × List Event}
    (h : HostileRun K.toSecrets encrypt nworkers tasks t) :
    Short t.2 → Channelled K t.1 t.2 :=
  Channelled.kept.run (fun _ => channelled_initial) h

/-- Whatever the network does, both ends of every channel accept a subsequence of what the
other end has sent, octet for octet. -/
theorem replay_protected {s : State} {trace : List Event}
    (h : HostileRun K.toSecrets encrypt nworkers tasks (s, trace)) (hshort : Short trace) (i : Nat) :
    List.Sublist (messages .workerAccepts i trace) (messages .masterSends i trace) ∧
      List.Sublist (messages .masterAccepts i trace) (messages .workerSends i trace) := by
  have hnumbered : ∀ l : List (Bytes × Bytes), (l.map numbered).map (·.2) = l := by
    intro l
    rw [List.map_map]
    exact List.map_id _
  have hrun := channelled_run h hshort
  have hwords := (hrun.words.gapped i).sublist
  have hpairs := (hrun.pairs.gapped i).sublist
  rw [hnumbered] at hwords hpairs
  exact ⟨hwords, hpairs⟩

end

section Sample

def plainEncrypt (key nonce plaintext : Bytes) : Bytes := key ++ nonce ++ plaintext

theorem plainEncrypt_injective (key nonce p q : Bytes)
    (h : plainEncrypt key nonce p = plainEncrypt key nonce q) : p = q :=
  List.append_cancel_left h

theorem short_of_length {trace : List Event} (h : trace.length < 2^64) : Short trace := by
  intro i
  have hle : ∀ a, (messages a i trace).length ≤ trace.length := by
    intro a
    rw [messages, List.length_map]
    exact List.length_filter_le _ _
  exact ⟨(hle _).trans_lt h, (hle _).trans_lt h⟩

def sampleWire : Bytes := wire plainEncrypt (wkey plainSecrets 0) 0 (storeWord 2)

/-- The master sends a task, the worker takes it, and the network delivers it once more. -/
theorem replayed_task_protected :
    ∃ s trace, HostileRun plainSecrets plainEncrypt 1 [2] (s, trace) ∧
      messages .workerAccepts 0 trace = [(storeWord 2, sampleWire)] ∧
      List.Sublist (messages .workerAccepts 0 trace) (messages .masterSends 0 trace) ∧
      List.Sublist (messages .masterAccepts 0 trace) (messages .workerSends 0 trace) := by
  have hsent := (Reachable.start rfl : HostileRun plainSecrets plainEncrypt 1 [2] _).next
    (.master (fun _ => []) false)
  have htaken := hsent.next
    (.worker (i := 0) tagTask sampleWire (by decide) (by decide +kernel) trivial)
  have hagain := htaken.next
    (.worker (i := 0) tagTask sampleWire (by decide) (by decide +kernel) trivial)
  refine ⟨_, _, hagain, ?_, replay_protected (K := plainFresh 1) hagain (short_of_length ?_) 0⟩
  · decide +kernel
  · decide +kernel

end Sample
end DistributedEnclave.Attest
