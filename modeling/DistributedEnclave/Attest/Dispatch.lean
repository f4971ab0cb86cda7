import Mathlib.Algebra.BigOperators.Group.Finset.Basic
import DistributedEnclave.Attest.Flow

/-! The dispatcher over a network that keeps the order but may garble messages: where the tasks are
that have no result yet. -/
namespace DistributedEnclave.Attest
open DistributedEnclave.Octets DistributedEnclave.Cluster DistributedEnclave.Streams
  DistributedEnclave.Transition

section
variable {S : Sodium Bytes} {K : Secrets S} {encrypt : Bytes → Bytes → Bytes → Bytes}

def outstanding (s : State) (i : Nat) : Nat :=
  (s.toWorker i).countP (·.1 = tagTask) + (s.toMaster i).length

def tasksInFlight (nworkers : Nat) (s : State) : Nat :=
  ∑ i ∈ Finset.range nworkers, (s.toWorker i).countP (·.1 = tagTask)

def resultsInFlight (nworkers : Nat) (s : State) : Nat :=
  ∑ i ∈ Finset.range nworkers, (s.toMaster i).length

def inFlight (nworkers : Nat) (s : State) : Nat :=
  ∑ i ∈ Finset.range nworkers, outstanding s i

theorem inFlight_eq (nworkers : Nat) (s : State) :
    inFlight nworkers s = tasksInFlight nworkers s + resultsInFlight nworkers s :=
  Finset.sum_add_distrib

theorem inFlight_congr {nworkers : Nat} {s s' : State}
    (h : ∀ j, outstanding s' j = outstanding s j) : inFlight nworkers s' = inFlight nworkers s :=
  Finset.sum_congr rfl fun j _ => h j

/-- What changes at one worker changes in the sum. -/
theorem inFlight_change {nworkers : Nat} {s s' : State} {i : Nat} (hi : i < nworkers)
    (h : ∀ j, j ≠ i → outstanding s' j = outstanding s j) :
    inFlight nworkers s' + outstanding s i = inFlight nworkers s + outstanding s' i := by
  have hmem := Finset.mem_range.mpr hi
  have hrest : ∑ j ∈ (Finset.range nworkers).erase i, outstanding s' j =
      ∑ j ∈ (Finset.range nworkers).erase i, outstanding s j :=
    Finset.sum_congr rfl fun j hj => h j (Finset.ne_of_mem_erase hj)
  rw [inFlight, inFlight, ← Finset.add_sum_erase _ _ hmem, ← Finset.add_sum_erase _ _ hmem, hrest]
  omega

def Pc.Collecting : Pc → Prop
  | .start _ | .loop | .poll _ => True
  | _ => False

def Pc.Waiting : Pc → Prop
  | .loop | .poll _ => True
  | _ => False

theorem Pc.Waiting.collecting {pc : Pc} (h : pc.Waiting) : pc.Collecting := by
  cases pc with
  | loop => trivial
  | poll _ => trivial
  | _ => exact h.elim

theorem Pc.Waiting.sent {pc : Pc} (h : pc.Waiting) (i : Nat) : pc.sent i = 1 := by
  cases pc with
  | loop => rfl
  | poll _ => rfl
  | _ => exact h.elim

/-- Every task that was handed out is on its way, answered or rejected; `rejected` counts the
tasks and results that were. -/
structure Dispatching (K : Secrets S) (encrypt : Bytes → Bytes → Bytes → Bytes) (nworkers : Nat)
    (tasks : List Int32) (s : State) (rejected : Nat) : Prop where
  flowing : Flowing K encrypt s
  total : s.next = s.resultsReceived + inFlight nworkers s + rejected
  next_le : s.next ≤ tasks.length
  sends : ∀ i, s.sendNonceCtr i ≤ s.pc.sent i + s.resultsReceived
  answers : ∀ i, (s.workers i).sendNonceCtr ≤ (s.workers i).recvNonceCtr
  busy : rejected = 0 → s.next < tasks.length → ∀ i < nworkers, s.pc.sent i ≠ 0 →
    1 ≤ outstanding s i
  opened : s.pc.Collecting → ∀ i < nworkers, (s.workers i).running ∧
    ∀ m ∈ s.toWorker i, m.1 ≠ tagShutdown

section
variable {nworkers : Nat} {tasks : List Int32} {s : State} {rejected : Nat}

theorem Dispatching.move (h : Dispatching K encrypt nworkers tasks s rejected) {pc : Pc}
    (hsent : ∀ i, s.pc.sent i ≤ pc.sent i)
    (hbusy : ∀ i < nworkers, pc.sent i ≠ 0 → s.pc.sent i ≠ 0)
    (hcollecting : pc.Collecting → s.pc.Collecting) :
    Dispatching K encrypt nworkers tasks { s with pc := pc } rejected where
  flowing := ⟨h.flowing.sealed, h.flowing.words, h.flowing.pairs⟩
  total := h.total
  next_le := h.next_le
  sends i := (h.sends i).trans (Nat.add_le_add_right (hsent i) _)
  answers := h.answers
  busy hzero hnext i hi hpc := h.busy hzero hnext i hi (hbusy i hi hpc)
  opened hpc := h.opened (hcollecting hpc)

/-- The waiting master looks at one worker after the other. -/
theorem Dispatching.wait (h : Dispatching K encrypt nworkers tasks s rejected)
    (hwaiting : s.pc.Waiting) {pc : Pc} (hpc : pc.Waiting) :
    Dispatching K encrypt nworkers tasks { s with pc := pc } rejected := by
  refine h.move ?_ ?_ ?_
  · intro j
    rw [hwaiting.sent, hpc.sent]
  · intro j _ _
    rw [hwaiting.sent]
    exact Nat.one_ne_zero
  · intro _
    exact hwaiting.collecting

theorem Dispatching.sends_lt (h : Dispatching K encrypt nworkers tasks s rejected)
    (hsize : tasks.length < 2^31) (i : Nat) : s.sendNonceCtr i+1 < 2^64 := by
  have hsends := h.sends i
  have htwo := s.pc.sent_le i
  have htotal := h.total
  have hnext := h.next_le
  omega

theorem Dispatching.answers_lt (h : Dispatching K encrypt nworkers tasks s rejected)
    (hsize : tasks.length < 2^31) (i : Nat) : (s.workers i).sendNonceCtr+1 < 2^64 := by
  have hanswers := h.answers i
  obtain ⟨c, hc, hq⟩ := h.flowing.words i
  have hle := hq.le
  have := h.sends_lt hsize i
  omega

theorem outstanding_masterSend (s : State) (i : Nat) (tag : Int32) (p : Bytes) (j : Nat) :
    outstanding (masterSend K encrypt s i tag p) j =
      outstanding s j + if i = j ∧ tag = tagTask then 1 else 0 := by
  simp only [outstanding, masterSend]
  by_cases hj : j = i
  · subst hj
    rw [Function.update_self, List.countP_append, List.countP_singleton]
    simp only [decide_eq_true_eq, true_and]
    omega
  · rw [Function.update_of_ne hj, if_neg fun h => hj h.1.symm]
    rfl

theorem outstanding_workerSend (s : State) (i : Nat) (p : Bytes) (j : Nat) :
    outstanding (workerSend K encrypt s i p) j = outstanding s j + if i = j then 1 else 0 := by
  simp only [outstanding, workerSend]
  by_cases hj : j = i
  · subst hj
    rw [Function.update_self, List.length_append, if_pos rfl, Nat.add_assoc]
    rfl
  · rw [Function.update_of_ne hj, if_neg (Ne.symm hj)]
    rfl

theorem nextMessage_tag (s : State) : (nextMessage tasks s).1 = tagTask ↔ s.next < tasks.length := by
  rw [nextMessage]
  cases htask : tasks[s.next]? with
  | none =>
    have hle := List.getElem?_eq_none_iff.mp htask
    exact ⟨fun h => absurd h (by decide), fun h => absurd h (not_lt.mpr hle)⟩
  | some x => exact ⟨fun _ => (List.getElem?_eq_some_iff.mp htask).1, fun _ => rfl⟩

theorem nextMessage_tag_ne (s : State) : (nextMessage tasks s).1 ≠ tagShutdown := by
  rw [nextMessage]
  split
  · exact (by decide : tagTask ≠ tagShutdown)
  · exact (by decide : tagIdle ≠ tagShutdown)

section HandOut
variable {i : Nat}

theorem handOut_next : (handOut K encrypt tasks s i).next =
    if s.next < tasks.length then s.next+1 else s.next := by
  rw [handOut_eq]

theorem handOut_resultsReceived :
    (handOut K encrypt tasks s i).resultsReceived = s.resultsReceived := by
  rw [handOut_eq]
  rfl

theorem handOut_workers : (handOut K encrypt tasks s i).workers = s.workers := by
  rw [handOut_eq]
  rfl

theorem handOut_sendNonceCtr (hctr : s.sendNonceCtr i+1 < 2^64) (j : Nat) :
    (handOut K encrypt tasks s i).sendNonceCtr j = s.sendNonceCtr j + if i = j then 1 else 0 := by
  rw [handOut_eq]
  simp only [masterSend, Function.update_apply, Nat.mod_eq_of_lt hctr]
  by_cases hj : j = i
  · rw [if_pos hj, if_pos hj.symm, hj]
  · rw [if_neg hj, if_neg (Ne.symm hj), Nat.add_zero]

/-- Nobody is told to shut down. -/
theorem handOut_toWorker {j : Nat} {m : Int32 × Bytes}
    (hm : m ∈ (handOut K encrypt tasks s i).toWorker j) :
    m ∈ s.toWorker j ∨ m.1 ≠ tagShutdown := by
  rw [handOut_eq] at hm
  simp only [masterSend, Function.update_apply] at hm
  split at hm
  · rename_i hji
    rw [List.mem_append, List.mem_singleton] at hm
    cases hm with
    | inl hm => exact .inl (hji ▸ hm)
    | inr hm =>
      subst hm
      exact .inr (nextMessage_tag_ne s)
  · exact .inl hm

theorem outstanding_handOut (j : Nat) : outstanding (handOut K encrypt tasks s i) j =
    outstanding s j + if i = j ∧ s.next < tasks.length then 1 else 0 := by
  rw [handOut_eq]
  exact (outstanding_masterSend ..).trans (by simp only [nextMessage_tag])

theorem inFlight_handOut (hi : i < nworkers) : inFlight nworkers (handOut K encrypt tasks s i) =
    inFlight nworkers s + if s.next < tasks.length then 1 else 0 := by
  have hother : ∀ j, j ≠ i → outstanding (handOut K encrypt tasks s i) j = outstanding s j := by
    intro j hj
    rw [outstanding_handOut, if_neg fun hc => hj hc.1.symm]
    rfl
  have hsum := inFlight_change hi hother
  rw [outstanding_handOut i] at hsum
  simp only [true_and] at hsum
  omega

end HandOut

structure Serving (K : Secrets S) (encrypt : Bytes → Bytes → Bytes → Bytes) (nworkers : Nat)
    (tasks : List Int32) (s : State) (rejected i : Nat) (pc : Pc) : Prop where
  flowing : Flowing K encrypt s
  total : s.next = s.resultsReceived + inFlight nworkers s + rejected
  next_le : s.next ≤ tasks.length
  sends : ∀ j, s.sendNonceCtr j + (if i = j then 1 else 0) ≤ pc.sent j + s.resultsReceived
  answers : ∀ i, (s.workers i).sendNonceCtr ≤ (s.workers i).recvNonceCtr
  busy : rejected = 0 → s.next < tasks.length → ∀ j < nworkers, j ≠ i → pc.sent j ≠ 0 →
    1 ≤ outstanding s j
  opened : ∀ i < nworkers, (s.workers i).running ∧ ∀ m ∈ s.toWorker i, m.1 ≠ tagShutdown

/-- The nonces have room for the message. -/
theorem Serving.room {i : Nat} {pc : Pc} (h : Serving K encrypt nworkers tasks s rejected i pc)
    (hsize : tasks.length < 2^31) : s.sendNonceCtr i+1 < 2^64 := by
  have hsends := h.sends i
  rw [if_pos rfl] at hsends
  have htwo := pc.sent_le i
  have htotal := h.total
  have hnext := h.next_le
  omega

theorem Serving.handOut {i : Nat} {pc : Pc}
    (h : Serving K encrypt nworkers tasks s rejected i pc) (hi : i < nworkers)
    (hsize : tasks.length < 2^31) :
    Dispatching K encrypt nworkers tasks { handOut K encrypt tasks s i with pc := pc }
      rejected := by
  have hctr := h.room hsize
  have hnext : (Attest.handOut K encrypt tasks s i).next =
      if s.next < tasks.length then s.next+1 else s.next := handOut_next
  have hsum : inFlight nworkers (Attest.handOut K encrypt tasks s i) =
      inFlight nworkers s + if s.next < tasks.length then 1 else 0 := inFlight_handOut hi
  refine ⟨?_, ?_, ?_, ?_, ?_, ?_, ?_⟩
  · have hlen : (nextMessage tasks s).2.length = 4 := nextMessage_length s
    have hflow := h.flowing.masterSend i (nextMessage tasks s).1 hlen hctr
    rw [handOut_eq]
    exact ⟨hflow.sealed, hflow.words, hflow.pairs⟩
  · change (Attest.handOut K encrypt tasks s i).next =
      (Attest.handOut K encrypt tasks s i).resultsReceived +
        inFlight nworkers (Attest.handOut K encrypt tasks s i) + rejected
    have htotal := h.total
    rw [hnext, handOut_resultsReceived, hsum]
    split <;> omega
  · change (Attest.handOut K encrypt tasks s i).next ≤ tasks.length
    have := h.next_le
    rw [hnext]
    split <;> omega
  · intro j
    have hsends := h.sends j
    change (Attest.handOut K encrypt tasks s i).sendNonceCtr j ≤
      pc.sent j + (Attest.handOut K encrypt tasks s i).resultsReceived
    rwa [handOut_resultsReceived, handOut_sendNonceCtr hctr]
  · intro j
    change ((Attest.handOut K encrypt tasks s i).workers j).sendNonceCtr ≤
      ((Attest.handOut K encrypt tasks s i).workers j).recvNonceCtr
    rw [handOut_workers]
    exact h.answers j
  · intro hzero hlt j hj hpc
    change 1 ≤ outstanding (Attest.handOut K encrypt tasks s i) j
    have hlt' : s.next < tasks.length := by
      change (Attest.handOut K encrypt tasks s i).next < tasks.length at hlt
      rw [hnext] at hlt
      split at hlt <;> omega
    rw [outstanding_handOut]
    by_cases hij : j = i
    · rw [if_pos ⟨hij.symm, hlt'⟩]
      omega
    · have := h.busy hzero hlt' j hj hij hpc
      omega
  · intro _ j hj
    obtain ⟨hrunning, hqueue⟩ := h.opened j hj
    refine ⟨?_, fun m hm => (handOut_toWorker hm).elim (hqueue m) id⟩
    change ((Attest.handOut K encrypt tasks s i).workers j).running
    rwa [handOut_workers]

theorem Dispatching.start {i : Nat} (h : Dispatching K encrypt nworkers tasks s rejected)
    (hpc : s.pc = .start i) : Serving K encrypt nworkers tasks s rejected i (.start (i+1)) := by
  refine ⟨h.flowing, h.total, h.next_le, ?_, h.answers, ?_, h.opened (hpc ▸ trivial)⟩
  · intro j
    have hsends := h.sends j
    rw [hpc] at hsends
    simp only [Pc.sent] at hsends ⊢
    split_ifs at hsends ⊢ <;> omega
  · intro hzero hnext j hj hij hsent
    refine h.busy hzero hnext j hj ?_
    rw [hpc]
    simp only [Pc.sent] at hsent ⊢
    split_ifs at hsent ⊢ <;> omega

theorem Dispatching.shutdown {i : Nat} (h : Dispatching K encrypt nworkers tasks s rejected)
    (hpc : s.pc = .shutdown i) (hsize : tasks.length < 2^31) (magic : UInt32) :
    Dispatching K encrypt nworkers tasks
      { secureSendCtrl K encrypt s i tagShutdown magic with pc := .shutdown (i+1) } rejected := by
  have hctr := h.sends_lt hsize i
  have hflow := h.flowing.masterSend i tagShutdown (storeWord_length magic) hctr
  have hout : ∀ j, outstanding (masterSend K encrypt s i tagShutdown (storeWord magic)) j =
      outstanding s j := by
    intro j
    rw [outstanding_masterSend, if_neg fun h => absurd h.2 (by decide)]
    rfl
  refine ⟨⟨hflow.sealed, hflow.words, hflow.pairs⟩, ?_, h.next_le, ?_, h.answers, ?_, ?_⟩
  · exact h.total.trans (by rw [← inFlight_congr hout]; rfl)
  · intro j
    have hsends := h.sends j
    rw [hpc] at hsends
    simp only [secureSendCtrl, masterSend, Function.update_apply, Pc.sent] at hsends ⊢
    split
    · rename_i hj
      subst hj
      rw [if_neg (lt_irrefl j)] at hsends
      rw [Nat.mod_eq_of_lt hctr, if_pos (Nat.lt_succ_self j)]
      omega
    · split_ifs at hsends ⊢ <;> omega
  · intro hzero hnext j hj _
    refine le_of_le_of_eq (h.busy hzero hnext j hj ?_) (hout j).symm
    rw [hpc]
    simp only [Pc.sent]
    split_ifs <;> omega
  · intro hc
    exact hc.elim

/-- The result that was taken from the queue of worker `i` had been in flight. -/
theorem outstanding_taken {i : Nat} {buf : Bytes} {rest : List Bytes}
    (hqueue : s.toMaster i = buf::rest) {t : State} (hwords : t.toWorker = s.toWorker)
    (hpairs : t.toMaster = Function.update s.toMaster i rest) (hi : i < nworkers) :
    inFlight nworkers s = inFlight nworkers t + 1 ∧
      ∀ j, j ≠ i → outstanding t j = outstanding s j := by
  have hother : ∀ j, j ≠ i → outstanding t j = outstanding s j := by
    intro j hj
    rw [outstanding, outstanding, hwords, hpairs, Function.update_of_ne hj]
  have hself : outstanding s i = outstanding t i + 1 := by
    rw [outstanding, outstanding, hwords, hpairs, Function.update_self, hqueue, List.length_cons]
    rfl
  have := inFlight_change hi hother
  exact ⟨by omega, hother⟩

theorem Dispatching.accepted {i next : Nat} {buf : Bytes} {rest : List Bytes}
    (h : Dispatching K encrypt nworkers tasks s rejected) (hpc : s.pc = .poll i) (hi : i < nworkers)
    (hqueue : s.toMaster i = buf::rest)
    (hflow : Flowing K encrypt { s with
      toMaster := Function.update s.toMaster i rest
      recvNonceCtr := Function.update s.recvNonceCtr i next }) :
    Serving K encrypt nworkers tasks { s with
      toMaster := Function.update s.toMaster i rest
      recvNonceCtr := Function.update s.recvNonceCtr i next
      resultsReceived := s.resultsReceived+1 } rejected i (.poll (i+1)) := by
  obtain ⟨hsum, hother⟩ := outstanding_taken hqueue (t := { s with
    toMaster := Function.update s.toMaster i rest
    recvNonceCtr := Function.update s.recvNonceCtr i next
    resultsReceived := s.resultsReceived+1 }) rfl rfl hi
  refine ⟨⟨hflow.sealed, hflow.words, hflow.pairs⟩, ?_, h.next_le, ?_, h.answers, ?_,
    h.opened (hpc ▸ trivial)⟩
  · have htotal := h.total
    show s.next = s.resultsReceived + 1 + _ + rejected
    omega
  · intro j
    have hsends := h.sends j
    rw [hpc] at hsends
    simp only [Pc.sent] at hsends ⊢
    split_ifs <;> omega
  · intro hzero hnext j hj hij _
    rw [hother j hij]
    exact h.busy hzero hnext j hj (by simp [hpc, Pc.sent])

theorem Dispatching.dropped {i : Nat} {buf : Bytes} {rest : List Bytes}
    (h : Dispatching K encrypt nworkers tasks s rejected) (hpc : s.pc = .poll i) (hi : i < nworkers)
    (hqueue : s.toMaster i = buf::rest) :
    Dispatching K encrypt nworkers tasks { s with
      toMaster := Function.update s.toMaster i rest
      pc := .poll (i+1) } (rejected+1) := by
  obtain ⟨hsum, _⟩ := outstanding_taken hqueue (t := { s with
    toMaster := Function.update s.toMaster i rest
    pc := .poll (i+1) }) rfl rfl hi
  have hflow := h.flowing.masterLoses hqueue
  refine ⟨⟨hflow.sealed, hflow.words, hflow.pairs⟩, ?_, h.next_le, ?_, h.answers, ?_, ?_⟩
  · have htotal := h.total
    show s.next = s.resultsReceived + _ + (rejected+1)
    omega
  · intro j
    have hsends := h.sends j
    rw [hpc] at hsends
    exact hsends
  · intro hzero
    exact absurd hzero (Nat.succ_ne_zero rejected)
  · intro _
    exact h.opened (hpc ▸ trivial)

/-- What a worker does leaves the master's counters alone. -/
theorem Dispatching.workerMoves (h : Dispatching K encrypt nworkers tasks s rejected) {s' : State}
    {rejected' : Nat} (hflow : Flowing K encrypt s') (hpc : s'.pc = s.pc) (hnext : s'.next = s.next)
    (hresults : s'.resultsReceived = s.resultsReceived) (hctr : s'.sendNonceCtr = s.sendNonceCtr)
    (hanswers : ∀ i, (s'.workers i).sendNonceCtr ≤ (s'.workers i).recvNonceCtr)
    (hopened : s.pc.Collecting → ∀ i < nworkers, (s'.workers i).running ∧
      ∀ m ∈ s'.toWorker i, m.1 ≠ tagShutdown)
    (hle : rejected ≤ rejected')
    (hsum : inFlight nworkers s' + rejected' = inFlight nworkers s + rejected)
    (hout : rejected' = 0 → ∀ i, outstanding s' i = outstanding s i) :
    Dispatching K encrypt nworkers tasks s' rejected' := by
  refine ⟨hflow, ?_, ?_, ?_, hanswers, ?_, ?_⟩
  · have htotal := h.total
    rw [hnext, hresults]
    omega
  · rw [hnext]
    exact h.next_le
  · rw [hpc, hresults, hctr]
    exact h.sends
  · intro hzero hlt i hi hsent
    rw [hnext] at hlt
    rw [hpc] at hsent
    rw [hout hzero]
    exact h.busy (Nat.eq_zero_of_le_zero (hzero ▸ hle)) hlt i hi hsent
  · rw [hpc]
    exact hopened

theorem pollWorker_accepted {i next : Nat} {buf p : Bytes} {rest : List Bytes}
    (hqueue : s.toMaster i = buf::rest)
    (hrecv : secureRecv s.log (wkey K i) (s.recvNonceCtr i) 8 buf = some (p, next)) :
    pollWorker K encrypt tasks s i true = handOut K encrypt tasks { s with
      toMaster := Function.update s.toMaster i rest
      recvNonceCtr := Function.update s.recvNonceCtr i next
      resultsReceived := s.resultsReceived+1 } i := by
  simp only [pollWorker, hqueue, hrecv, not_true_eq_false, if_false]

theorem pollWorker_rejected {i : Nat} {buf : Bytes} {rest : List Bytes}
    (hqueue : s.toMaster i = buf::rest)
    (hrecv : secureRecv s.log (wkey K i) (s.recvNonceCtr i) 8 buf = none) :
    pollWorker K encrypt tasks s i true =
      { s with toMaster := Function.update s.toMaster i rest } := by
  simp only [pollWorker, hqueue, hrecv, not_true_eq_false, if_false]

theorem masterStep_rejected {i : Nat} {buf : Bytes} {rest : List Bytes} (hpc : s.pc = .poll i)
    (hi : i < nworkers) (hqueue : s.toMaster i = buf::rest)
    (hrecv : secureRecv s.log (wkey K i) (s.recvNonceCtr i) 8 buf = none) :
    masterStep K encrypt nworkers tasks s true = { s with
      toMaster := Function.update s.toMaster i rest
      pc := .poll (i+1) } := by
  rw [masterStep, hpc]
  simp only [if_pos hi, pollWorker_rejected hqueue hrecv]

/-- Nothing is there, or the probe does not see it. -/
theorem pollWorker_nothing {i : Nat} {visible : Bool} (h : s.toMaster i = [] ∨ visible = false) :
    pollWorker K encrypt tasks s i visible = s := by
  cases h with
  | inl hnil => simp only [pollWorker, hnil]
  | inr hinvisible =>
    rw [pollWorker, hinvisible]
    cases s.toMaster i with
    | nil => rfl
    | cons buf rest => simp

section
variable (hinjective : ∀ key nonce p q, encrypt key nonce p = encrypt key nonce q → p = q)
include hinjective

theorem Dispatching.poll {i : Nat} (h : Dispatching K encrypt nworkers tasks s rejected)
    (hpc : s.pc = .poll i) (hi : i < nworkers) (hsize : tasks.length < 2^31) (visible : Bool) :
    Dispatching K encrypt nworkers tasks
      { pollWorker K encrypt tasks s i visible with pc := .poll (i+1) } rejected ∧
    (s.toMaster i ≠ [] → visible = true →
      (pollWorker K encrypt tasks s i visible).resultsReceived = s.resultsReceived+1) := by
  by_cases hnothing : s.toMaster i = [] ∨ visible = false
  · rw [pollWorker_nothing hnothing]
    refine ⟨h.wait (hpc ▸ trivial) trivial, ?_⟩
    intro hne hvisible
    cases hnothing with
    | inl hnil => exact absurd hnil hne
    | inr hinvisible => exact absurd hvisible (by simp [hinvisible])
  obtain ⟨hne, hvisible⟩ := not_or.mp hnothing
  obtain ⟨buf, rest, hqueue⟩ := List.exists_cons_of_ne_nil hne
  obtain rfl : visible = true := by simpa using hvisible
  have hctr := Nat.lt_of_succ_lt (h.answers_lt hsize i)
  obtain ⟨p, next, hrecv, hflow⟩ := h.flowing.masterTakes hinjective hqueue hctr
  rw [pollWorker_accepted hqueue hrecv]
  refine ⟨(h.accepted hpc hi hqueue hflow).handOut hi hsize, ?_⟩
  intro _ _
  rw [handOut_eq]
  rfl

theorem Dispatching.masterStep (h : Dispatching K encrypt nworkers tasks s rejected)
    (hsize : tasks.length < 2^31) (visible : Bool) :
    Dispatching K encrypt nworkers tasks (masterStep K encrypt nworkers tasks s visible)
      rejected := by
  simp only [Attest.masterStep]
  cases hpc : s.pc with
  | start i =>
    simp only
    split
    · rename_i hi
      exact (h.start hpc).handOut hi hsize
    · rename_i hi
      refine h.move ?_ ?_ ?_
      · intro j
        rw [hpc]
        simp only [Pc.sent]
        split_ifs <;> omega
      · intro j hj _
        rw [hpc]
        simp only [Pc.sent]
        split_ifs <;> omega
      · intro _
        exact hpc ▸ trivial
  | loop =>
    simp only
    split
    · exact h.wait (hpc ▸ trivial) trivial
    · refine h.move ?_ ?_ ?_
      · intro j
        rw [hpc]
        simp [Pc.sent]
      · intro j hj _
        simp [hpc, Pc.sent]
      · intro hc
        exact hc.elim
  | poll i =>
    simp only
    split
    · rename_i hi
      exact (h.poll hinjective hpc hi hsize visible).1
    · exact h.wait (hpc ▸ trivial) trivial
  | shutdown i =>
    simp only
    split
    · exact h.shutdown hpc hsize ctrlMagicShutdown
    · refine h.move ?_ ?_ ?_
      · intro j
        rw [hpc]
        exact Pc.sent_le _ j
      · intro j hj _
        rw [hpc]
        simp only [Pc.sent]
        split_ifs <;> omega
      · intro hc
        exact hc.elim
  | done => exact h

end

/-- Taking the head off the queue of a worker takes a task off if it was one. -/
theorem outstanding_popped {i : Nat} {tag : Int32} {buf : Bytes} {rest : List (Int32 × Bytes)}
    (hqueue : s.toWorker i = (tag, buf)::rest) {t : State} (hpairs : t.toMaster = s.toMaster)
    (hwords : t.toWorker = Function.update s.toWorker i rest) (j : Nat) :
    outstanding s j = outstanding t j + if i = j ∧ tag = tagTask then 1 else 0 := by
  rw [outstanding, outstanding, hwords, hpairs]
  by_cases hj : j = i
  · subst hj
    rw [Function.update_self, hqueue, List.countP_cons]
    simp only [decide_eq_true_eq, true_and]
    omega
  · rw [Function.update_of_ne hj, if_neg fun h => hj h.1.symm]
    rfl

theorem popped_opened {i : Nat} {m : Int32 × Bytes} {rest : List (Int32 × Bytes)}
    (hqueue : s.toWorker i = m::rest) {j : Nat}
    (h : ∀ m ∈ s.toWorker j, m.1 ≠ tagShutdown) :
    ∀ m ∈ Function.update s.toWorker i rest j, m.1 ≠ tagShutdown := by
  intro m hm
  rw [Function.update_apply] at hm
  split at hm
  · rename_i hj
    subst hj
    exact h m (hqueue ▸ List.mem_cons_of_mem _ hm)
  · exact h m hm

/-- A message that reaches worker `i` garbled is gone. -/
theorem Dispatching.skipped {i : Nat} {tag : Int32} {buf : Bytes} {rest : List (Int32 × Bytes)}
    (h : Dispatching K encrypt nworkers tasks s rejected) (hi : i < nworkers)
    (hqueue : s.toWorker i = (tag, buf)::rest) :
    Dispatching K encrypt nworkers tasks { s with toWorker := Function.update s.toWorker i rest }
      (if tag = tagTask then rejected+1 else rejected) := by
  let s' : State := { s with toWorker := Function.update s.toWorker i rest }
  have hout := outstanding_popped hqueue (t := s') rfl rfl
  refine h.workerMoves (h.flowing.workerLoses hqueue) rfl rfl rfl rfl h.answers ?_ ?_ ?_ ?_
  · intro hc j hj
    obtain ⟨hrunning, hwords⟩ := h.opened hc j hj
    exact ⟨hrunning, popped_opened hqueue hwords⟩
  · split <;> omega
  · have hother : ∀ j, j ≠ i → outstanding s' j = outstanding s j := by
      intro j hj
      rw [hout j, if_neg fun hc => hj hc.1.symm]
      rfl
    have hsum := inFlight_change hi hother
    have hself := hout i
    simp only [true_and] at hself
    show inFlight nworkers s' + _ = _
    split <;> rename_i htag
    · rw [if_pos htag] at hself
      omega
    · rw [if_neg htag] at hself
      omega
  · intro hzero j
    have htag : tag ≠ tagTask := by
      intro htag
      rw [if_pos htag] at hzero
      omega
    rw [hout j, if_neg fun hc => htag hc.2]
    rfl

theorem acceptCounter_running (s : State) (i next j : Nat) :
    ((acceptCounter s i next).workers j).running = (s.workers j).running := by
  simp only [acceptCounter, Function.update_apply]
  split
  · rename_i hj
    rw [hj]
  · rfl

theorem workerSend_running (s : State) (i : Nat) (p : Bytes) (j : Nat) :
    ((workerSend K encrypt s i p).workers j).running = (s.workers j).running := by
  simp only [workerSend, Function.update_apply]
  split
  · rename_i hj
    rw [hj]
  · rfl

theorem popped_collecting {i : Nat} {m : Int32 × Bytes} {rest : List (Int32 × Bytes)}
    (h : Dispatching K encrypt nworkers tasks s rejected) (hqueue : s.toWorker i = m::rest)
    (hc : s.pc.Collecting) {workers : Nat → WorkerState}
    (hrunning : ∀ j, (workers j).running = (s.workers j).running) :
    ∀ j < nworkers, (workers j).running ∧
      ∀ m ∈ Function.update s.toWorker i rest j, m.1 ≠ tagShutdown := by
  intro j hj
  obtain ⟨hrun, hwords⟩ := h.opened hc j hj
  exact ⟨(hrunning j).trans hrun, popped_opened hqueue hwords⟩

/-- Worker `i` has accepted one message more than it has answered. -/
theorem accepted_answers (h : ∀ i, (s.workers i).sendNonceCtr ≤ (s.workers i).recvNonceCtr)
    {i next : Nat} (hlt : (s.workers i).recvNonceCtr < next) (j : Nat) :
    ((acceptCounter s i next).workers j).sendNonceCtr + (if i = j then 1 else 0) ≤
      ((acceptCounter s i next).workers j).recvNonceCtr := by
  have hj := h j
  rw [acceptCounter_sendNonceCtr, acceptCounter, workers_update s i _ (·.recvNonceCtr)]
  by_cases hij : i = j
  · subst hij
    simp only [if_true]
    omega
  · simp only [if_neg hij]
    exact hj

theorem Dispatching.tookControl {i next : Nat} {tag : Int32} {buf : Bytes}
    {rest : List (Int32 × Bytes)} (h : Dispatching K encrypt nworkers tasks s rejected)
    (hqueue : s.toWorker i = (tag, buf)::rest) (htag : tag ≠ tagTask)
    (hlt : (s.workers i).recvNonceCtr < next)
    (hflow : Flowing K encrypt
      (acceptCounter { s with toWorker := Function.update s.toWorker i rest } i next)) :
    Dispatching K encrypt nworkers tasks
      (acceptCounter { s with toWorker := Function.update s.toWorker i rest } i next)
      rejected := by
  let s' := acceptCounter { s with toWorker := Function.update s.toWorker i rest } i next
  have hsame : ∀ j, outstanding s' j = outstanding s j := by
    intro j
    rw [outstanding_popped hqueue (t := s') rfl rfl, if_neg fun hc => htag hc.2]
    rfl
  refine h.workerMoves hflow rfl rfl rfl rfl ?_ ?_ (le_refl _) (by rw [inFlight_congr hsame])
    (fun _ => hsame)
  · intro j
    exact (Nat.le_add_right _ _).trans (accepted_answers h.answers hlt j)
  · intro hc
    exact popped_collecting h hqueue hc (acceptCounter_running _ i next)

/-- The result takes the place of the task. -/
theorem Dispatching.tookTask {i next : Nat} {buf p : Bytes} {rest : List (Int32 × Bytes)}
    (h : Dispatching K encrypt nworkers tasks s rejected) (hsize : tasks.length < 2^31)
    (hqueue : s.toWorker i = (tagTask, buf)::rest) (hlt : (s.workers i).recvNonceCtr < next)
    (hlen : p.length = 8)
    (hflow : Flowing K encrypt
      (acceptCounter { s with toWorker := Function.update s.toWorker i rest } i next)) :
    Dispatching K encrypt nworkers tasks (workerSend K encrypt
      (acceptCounter { s with toWorker := Function.update s.toWorker i rest } i next) i p)
      rejected := by
  let s₁ := acceptCounter { s with toWorker := Function.update s.toWorker i rest } i next
  have hctr : (s₁.workers i).sendNonceCtr+1 < 2^64 := by
    rw [acceptCounter_sendNonceCtr]
    exact h.answers_lt hsize i
  have hsame : ∀ j, outstanding (workerSend K encrypt s₁ i p) j = outstanding s j := by
    intro j
    rw [outstanding_workerSend, outstanding_popped hqueue (t := s₁) rfl rfl]
    simp only [and_true]
  refine h.workerMoves (hflow.workerSend i hlen hctr) rfl rfl rfl rfl ?_ ?_ (le_refl _)
    (by rw [← inFlight_congr hsame]) (fun _ => hsame)
  · intro j
    have hanswers := accepted_answers h.answers hlt j
    simp only [workerSend, Function.update_apply]
    split
    · rename_i hj
      subst hj
      rw [if_pos rfl] at hanswers
      exact (Nat.mod_le _ _).trans hanswers
    · exact (Nat.le_add_right _ _).trans hanswers
  · intro hc
    refine popped_collecting h hqueue hc fun j => ?_
    rw [workerSend_running, acceptCounter_running]

/-- Only a worker that is told to stop stops, and then the results are in. -/
theorem Dispatching.stopped (h : Dispatching K encrypt nworkers tasks s rejected) (i : Nat)
    (hpc : ¬s.pc.Collecting) : Dispatching K encrypt nworkers tasks (stopWorker s i) rejected := by
  refine ⟨h.flowing.stop i, h.total, h.next_le, h.sends, ?_, h.busy, fun hc => (hpc hc).elim⟩
  intro j
  have := h.answers j
  simp only [stopWorker, Function.update_apply]
  split
  · rename_i hj
    exact hj ▸ this
  · exact this

section
variable (hinjective : ∀ key nonce p q, encrypt key nonce p = encrypt key nonce q → p = q)
include hinjective

theorem Dispatching.workerStep {i : Nat} {tag : Int32} {buf : Bytes} {rest : List (Int32 × Bytes)}
    (h : Dispatching K encrypt nworkers tasks s rejected) (hsize : tasks.length < 2^31)
    (hi : i < nworkers) (hqueue : s.toWorker i = (tag, buf)::rest) :
    Dispatching K encrypt nworkers tasks (workerStep K encrypt
      { s with toWorker := Function.update s.toWorker i rest } i tag buf) rejected := by
  obtain ⟨p, next, hrecv, hlt, _, hflow⟩ := h.flowing.workerTakes hinjective hqueue
    (Nat.lt_of_succ_lt (h.sends_lt hsize i))
  simp only at hrecv
  simp only [Attest.workerStep, hrecv]
  by_cases hshutdown : tag = tagShutdown
  · have htook := h.tookControl hqueue (by rw [hshutdown]; decide) hlt hflow
    have hpc : ¬s.pc.Collecting := by
      intro hc
      refine (h.opened hc i hi).2 (tag, buf) ?_ hshutdown
      rw [hqueue]
      exact List.mem_cons_self
    simp only [if_pos hshutdown]
    split
    · exact htook.stopped i hpc
    · exact htook
  simp only [if_neg hshutdown]
  by_cases hidle : tag = tagIdle
  · simp only [if_pos hidle]
    exact h.tookControl hqueue (by rw [hidle]; decide) hlt hflow
  simp only [if_neg hidle]
  by_cases htask : tag = tagTask
  · subst htask
    simp only [if_true]
    exact h.tookTask hsize hqueue hlt (resultPair_length _) hflow
  simp only [if_neg htask]
  have hskipped := h.skipped hi hqueue
  rwa [if_neg htask] at hskipped

end

end
end
end DistributedEnclave.Attest
