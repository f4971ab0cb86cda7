import DistributedEnclave.Attest.Hostile

/-! A network that delivers in order and may garble a message so that it is rejected. What is
left in its queues as it was sent will be accepted. -/
namespace DistributedEnclave.Attest
open DistributedEnclave.Octets DistributedEnclave.Cluster DistributedEnclave.Streams
  DistributedEnclave.Transition

section
variable {S : Sodium Bytes} (K : Secrets S) (encrypt : Bytes → Bytes → Bytes → Bytes)

/-- A step that delivers what was sent, or one in which the next message of a channel arrives
as other octets and is rejected. The number counts the tasks and results that were. -/
inductive LossyStep (nworkers : Nat) (tasks : List Int32) : State × Nat → State × Nat → Prop
  | delivered {s s' rejected} : Step K encrypt nworkers tasks s s' →
      LossyStep nworkers tasks (s, rejected) (s', rejected)
  | garbledWord {s rejected i tag buf rest} (buf' : Bytes) : i < nworkers →
      (s.workers i).running → s.toWorker i = (tag, buf)::rest →
      secureRecv s.log (sessionKey K i) (s.workers i).recvNonceCtr 4 buf' = none →
      LossyStep nworkers tasks (s, rejected)
        (workerStep K encrypt { s with toWorker := Function.update s.toWorker i rest } i tag buf',
          if tag = tagTask then rejected+1 else rejected)
  | garbledResult {s rejected i buf rest} (buf' : Bytes) : s.pc = .poll i → i < nworkers →
      s.toMaster i = buf::rest →
      secureRecv s.log (wkey K i) (s.recvNonceCtr i) 8 buf' = none →
      LossyStep nworkers tasks (s, rejected) (masterStep K encrypt nworkers tasks
        { s with toMaster := Function.update s.toMaster i (buf'::rest) } true, rejected+1)

abbrev LossyRun (nworkers : Nat) (tasks : List Int32) (s : State) (rejected : Nat) : Prop :=
  Reachable (fun t => t = (initial nworkers, 0)) (LossyStep K encrypt nworkers tasks) (s, rejected)

def Queued (log : List Record) (key : Bytes) (len : Nat) : Nat → List Bytes → Nat → Prop
  | c, [], e => c = e
  | c, buf::rest, e => (∃ p, p.length = len ∧ sealRecord encrypt key c p ∈ log ∧
      buf = wire encrypt key c p) ∧ Queued log key len (c+1) rest e

structure Flowing (s : State) : Prop where
  sealed : ∀ r ∈ s.log, r = ⟨r.key, r.nonce, [], r.plain, encrypt r.key r.nonce r.plain⟩
  words : ∀ i, ∃ c, (s.workers i).recvNonceCtr ≤ c ∧
    Queued encrypt s.log (sessionKey K i) 4 c ((s.toWorker i).map (·.2)) (s.sendNonceCtr i)
  pairs : ∀ i, ∃ c, s.recvNonceCtr i ≤ c ∧
    Queued encrypt s.log (wkey K i) 8 c (s.toMaster i) (s.workers i).sendNonceCtr

variable {K encrypt}

theorem Queued.le {log : List Record} {key : Bytes} {len c e : Nat} {queue : List Bytes}
    (h : Queued encrypt log key len c queue e) : c ≤ e := by
  induction queue generalizing c with
  | nil => exact le_of_eq h
  | cons buf rest ih => exact (Nat.le_succ c).trans (ih h.2)

theorem Queued.mono {log log' : List Record} (hsub : ∀ r ∈ log, r ∈ log') {key : Bytes}
    {len c e : Nat} {queue : List Bytes} (h : Queued encrypt log key len c queue e) :
    Queued encrypt log' key len c queue e := by
  induction queue generalizing c with
  | nil => exact h
  | cons buf rest ih =>
    obtain ⟨⟨p, hlen, hmem, hbuf⟩, hrest⟩ := h
    exact ⟨⟨p, hlen, hsub _ hmem, hbuf⟩, ih hrest⟩

theorem Queued.push {log : List Record} {key : Bytes} {len c e : Nat} {queue : List Bytes}
    (h : Queued encrypt log key len c queue e) {p : Bytes} (hlen : p.length = len)
    (hmem : sealRecord encrypt key e p ∈ log) :
    Queued encrypt log key len c (queue ++ [wire encrypt key e p]) (e+1) := by
  induction queue generalizing c with
  | nil =>
    obtain rfl : c = e := h
    exact ⟨⟨p, hlen, hmem, rfl⟩, rfl⟩
  | cons buf rest ih => exact ⟨h.1, ih h.2⟩

section
variable (hinjective : ∀ key nonce p q, encrypt key nonce p = encrypt key nonce q → p = q)
include hinjective

/-- The head of a queue is accepted by a receiver whose counter has not passed it. -/
theorem Queued.accepted {log : List Record}
    (hsealed : ∀ r ∈ log, r = ⟨r.key, r.nonce, [], r.plain, encrypt r.key r.nonce r.plain⟩)
    {key buf : Bytes} {len counter c e : Nat} {rest : List Bytes}
    (h : Queued encrypt log key len c (buf::rest) e) (hle : counter ≤ c) (he : e < 2^64) :
    ∃ p, secureRecv log key counter len buf = some (p, c+1) ∧ p.length = len := by
  obtain ⟨⟨p, hlen, hmem, rfl⟩, hrest⟩ := h
  have hc : c+1 < 2^64 := Nat.lt_of_le_of_lt hrest.le he
  obtain ⟨htake, hdrop⟩ := append_split (b := encrypt key (makeNonce c) p) (makeNonce_length c)
  have hcounter := nonceCounter_makeNonce (Nat.lt_of_succ_lt hc) (encrypt key (makeNonce c) p)
  refine ⟨p, ?_, hlen⟩
  rw [secureRecv, wire, hcounter, if_neg (Nat.not_lt.mpr hle), htake, hdrop,
    openSealed_sealed hinjective hsealed hmem]
  simp only [hlen, ne_eq, not_true_eq_false, if_false, Nat.mod_eq_of_lt hc]

end

theorem Flowing.masterSend {s : State} (h : Flowing K encrypt s) (i : Nat) (tag : Int32)
    {p : Bytes} (hlen : p.length = 4) (hctr : s.sendNonceCtr i+1 < 2^64) :
    Flowing K encrypt (masterSend K encrypt s i tag p) := by
  have hsub : ∀ r ∈ s.log, r ∈ (Attest.masterSend K encrypt s i tag p).log :=
    fun r hr => List.mem_append_left _ hr
  refine ⟨sealed_concat h.sealed _ _ _, ?_, ?_⟩
  · intro j
    obtain ⟨c, hc, hq⟩ := h.words j
    refine ⟨c, hc, ?_⟩
    simp only [Attest.masterSend]
    by_cases hj : j = i
    · subst hj
      rw [Function.update_self, Function.update_self, Nat.mod_eq_of_lt hctr, List.map_append]
      rw [← sessionKey_eq]
      exact (hq.mono fun r hr => List.mem_append_left _ hr).push hlen
        (List.mem_append_right _ (List.mem_singleton.mpr rfl))
    · rw [Function.update_of_ne hj, Function.update_of_ne hj]
      exact hq.mono hsub
  · intro j
    obtain ⟨c, hc, hq⟩ := h.pairs j
    exact ⟨c, hc, hq.mono hsub⟩

theorem Flowing.workerSend {s : State} (h : Flowing K encrypt s) (i : Nat) {p : Bytes}
    (hlen : p.length = 8) (hctr : (s.workers i).sendNonceCtr+1 < 2^64) :
    Flowing K encrypt (workerSend K encrypt s i p) := by
  have hsub : ∀ r ∈ s.log, r ∈ (Attest.workerSend K encrypt s i p).log :=
    fun r hr => List.mem_append_left _ hr
  refine ⟨sealed_concat h.sealed _ _ _, ?_, ?_⟩
  · intro j
    obtain ⟨c, hc, hq⟩ := h.words j
    refine ⟨c, ?_, hq.mono hsub⟩
    rwa [workerSend_recvNonceCtr]
  · intro j
    obtain ⟨c, hc, hq⟩ := h.pairs j
    refine ⟨c, hc, ?_⟩
    simp only [Attest.workerSend]
    by_cases hj : j = i
    · subst hj
      rw [Function.update_self, Function.update_self, Nat.mod_eq_of_lt hctr, sessionKey_eq]
      exact (hq.mono fun r hr => List.mem_append_left _ hr).push hlen
        (List.mem_append_right _ (List.mem_singleton.mpr rfl))
    · rw [Function.update_of_ne hj, Function.update_of_ne hj]
      exact hq.mono hsub

theorem Flowing.stop {s : State} (h : Flowing K encrypt s) (i : Nat) :
    Flowing K encrypt (stopWorker s i) := by
  refine ⟨h.sealed, ?_, ?_⟩
  · intro j
    obtain ⟨c, hc, hq⟩ := h.words j
    refine ⟨c, ?_, hq⟩
    rwa [stopWorker_recvNonceCtr]
  · intro j
    obtain ⟨c, hc, hq⟩ := h.pairs j
    refine ⟨c, hc, ?_⟩
    rwa [stopWorker_sendNonceCtr]

/-- A message that is lost leaves a gap in front of the rest. -/
theorem Flowing.masterLoses {s : State} (h : Flowing K encrypt s) {i : Nat} {buf : Bytes}
    {rest : List Bytes} (hqueue : s.toMaster i = buf::rest) :
    Flowing K encrypt { s with toMaster := Function.update s.toMaster i rest } := by
  refine ⟨h.sealed, h.words, ?_⟩
  intro j
  obtain ⟨c, hc, hq⟩ := h.pairs j
  by_cases hj : j = i
  · subst hj
    rw [hqueue] at hq
    refine ⟨c+1, hc.trans (Nat.le_succ c), ?_⟩
    simp only [Function.update_self]
    exact hq.2
  · refine ⟨c, hc, ?_⟩
    simp only [Function.update_of_ne hj]
    exact hq

theorem Flowing.workerLoses {s : State} (h : Flowing K encrypt s) {i : Nat} {m : Int32 × Bytes}
    {rest : List (Int32 × Bytes)} (hqueue : s.toWorker i = m::rest) :
    Flowing K encrypt { s with toWorker := Function.update s.toWorker i rest } := by
  refine ⟨h.sealed, ?_, h.pairs⟩
  intro j
  obtain ⟨c, hc, hq⟩ := h.words j
  by_cases hj : j = i
  · subst hj
    rw [hqueue, List.map_cons] at hq
    refine ⟨c+1, hc.trans (Nat.le_succ c), ?_⟩
    simp only [Function.update_self]
    exact hq.2
  · refine ⟨c, hc, ?_⟩
    simp only [Function.update_of_ne hj]
    exact hq

section
variable (hinjective : ∀ key nonce p q, encrypt key nonce p = encrypt key nonce q → p = q)
include hinjective

theorem Flowing.masterTakes {s : State} (h : Flowing K encrypt s) {i : Nat} {buf : Bytes}
    {rest : List Bytes} (hqueue : s.toMaster i = buf::rest)
    (hctr : (s.workers i).sendNonceCtr < 2^64) :
    ∃ p next, secureRecv s.log (wkey K i) (s.recvNonceCtr i) 8 buf = some (p, next) ∧
      Flowing K encrypt { s with
        toMaster := Function.update s.toMaster i rest
        recvNonceCtr := Function.update s.recvNonceCtr i next } := by
  obtain ⟨c, hc, hq⟩ := h.pairs i
  rw [hqueue] at hq
  obtain ⟨p, hrecv, _⟩ := hq.accepted hinjective h.sealed hc hctr
  refine ⟨p, c+1, hrecv, h.sealed, h.words, ?_⟩
  intro j
  by_cases hj : j = i
  · subst hj
    refine ⟨c+1, ?_, ?_⟩
    · simp only [Function.update_self, le_refl]
    · simp only [Function.update_self]
      exact hq.2
  · simp only [Function.update_of_ne hj]
    exact h.pairs j

theorem Flowing.workerTakes {s : State} (h : Flowing K encrypt s) {i : Nat}
    {m : Int32 × Bytes} {rest : List (Int32 × Bytes)} (hqueue : s.toWorker i = m::rest)
    (hctr : s.sendNonceCtr i < 2^64) :
    ∃ p next, secureRecv s.log (sessionKey K i) (s.workers i).recvNonceCtr 4 m.2 =
        some (p, next) ∧ (s.workers i).recvNonceCtr < next ∧ next ≤ s.sendNonceCtr i ∧
      Flowing K encrypt
        (acceptCounter { s with toWorker := Function.update s.toWorker i rest } i next) := by
  obtain ⟨c, hc, hq⟩ := h.words i
  rw [hqueue, List.map_cons] at hq
  obtain ⟨p, hrecv, _⟩ := hq.accepted hinjective h.sealed hc hctr
  refine ⟨p, c+1, hrecv, Nat.lt_succ_of_le hc, hq.2.le, h.sealed, ?_, ?_⟩
  · intro j
    by_cases hj : j = i
    · subst hj
      refine ⟨c+1, ?_, ?_⟩
      · simp only [acceptCounter, Function.update_self, le_refl]
      · simp only [acceptCounter, Function.update_self]
        exact hq.2
    · simp only [acceptCounter, Function.update_of_ne hj]
      exact h.words j
  · intro j
    obtain ⟨c', hc', hq'⟩ := h.pairs j
    refine ⟨c', hc', ?_⟩
    rw [acceptCounter_sendNonceCtr]
    exact hq'

end

end
end DistributedEnclave.Attest
