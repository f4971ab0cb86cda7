import DistributedEnclave.Attest.Dispatch

/-! What is on its way comes back: the master polls every worker again and again, and a worker
that holds a task answers it. -/
namespace DistributedEnclave.Attest
open DistributedEnclave.Octets DistributedEnclave.Cluster DistributedEnclave.Streams
  DistributedEnclave.Transition

section
variable {S : Sodium Bytes} {K : Secrets S} {encrypt : Bytes → Bytes → Bytes → Bytes}
  {nworkers : Nat} {tasks : List Int32} {s : State} {rejected : Nat}

theorem poll_up (s : State) (i k : Nat) (hk : i+k ≤ nworkers) :
    Relation.ReflTransGen (Step K encrypt nworkers tasks) { s with pc := .poll i }
      { s with pc := .poll (i+k) } := by
  induction k with
  | zero => exact .refl
  | succ k ih =>
    refine (ih (Nat.le_of_succ_le hk)).tail ?_
    have hstep : Step K encrypt nworkers tasks { s with pc := .poll (i+k) } _ := .master false
    have hlt : i+k < nworkers := Nat.lt_of_succ_le hk
    simp only [Attest.masterStep, if_pos hlt] at hstep
    rw [pollWorker_nothing (.inr rfl)] at hstep
    exact hstep

/-- Without looking, the waiting master comes around to any worker. -/
theorem comes_around (hwaiting : s.pc.Waiting) (hmissing : s.resultsReceived < tasks.length)
    {i : Nat} (hi : i < nworkers) :
    Relation.ReflTransGen (Step K encrypt nworkers tasks) s { s with pc := .poll i } := by
  have hloop : Relation.ReflTransGen (Step K encrypt nworkers tasks) { s with pc := .loop }
      { s with pc := .poll i } := by
    refine .head ?_ (Nat.zero_add i ▸ poll_up s 0 i (by omega))
    have hstep : Step K encrypt nworkers tasks { s with pc := .loop } _ := .master false
    simp only [Attest.masterStep, if_pos hmissing] at hstep
    exact hstep
  have hend : ∀ k, ¬k < nworkers → Relation.ReflTransGen (Step K encrypt nworkers tasks)
      { s with pc := .poll k } { s with pc := .poll i } := by
    intro k hk
    refine .head ?_ hloop
    have hstep : Step K encrypt nworkers tasks { s with pc := .poll k } _ := .master false
    simp only [Attest.masterStep, if_neg hk] at hstep
    exact hstep
  cases hpc : s.pc with
  | loop =>
    have hs : s = { s with pc := .loop } := by rw [← hpc]
    rwa [← hs] at hloop
  | poll k =>
    have hs : s = { s with pc := .poll k } := by rw [← hpc]
    rw [hs]
    by_cases hk : k < nworkers
    · have hup : Relation.ReflTransGen (Step K encrypt nworkers tasks) { s with pc := .poll k }
          { s with pc := .poll (k+(nworkers-k)) } := poll_up s k (nworkers-k) (by omega)
      rw [Nat.add_sub_cancel' hk.le] at hup
      exact hup.trans (hend nworkers (lt_irrefl _))
    · exact hend k hk
  | _ =>
    rw [hpc] at hwaiting
    exact hwaiting.elim

variable (K encrypt) in
theorem workerStep_frame (s : State) (i : Nat) (tag : Int32) (buf : Bytes) :
    (workerStep K encrypt s i tag buf).pc = s.pc ∧
      (workerStep K encrypt s i tag buf).resultsReceived = s.resultsReceived ∧
      (workerStep K encrypt s i tag buf).toWorker = s.toWorker := by
  simp only [workerStep]
  split_ifs
  · split
    · exact ⟨rfl, rfl, rfl⟩
    · split <;> exact ⟨rfl, rfl, rfl⟩
  · split <;> exact ⟨rfl, rfl, rfl⟩
  · split <;> exact ⟨rfl, rfl, rfl⟩
  · exact ⟨rfl, rfl, rfl⟩

theorem workerStep_rejected {i : Nat} {tag : Int32} {buf : Bytes}
    (hrecv : secureRecv s.log (sessionKey K i) (s.workers i).recvNonceCtr 4 buf = none) :
    workerStep K encrypt s i tag buf = s := by
  simp only [workerStep, hrecv, ite_self]

theorem workerStep_answers {i next : Nat} {buf p : Bytes}
    (hrecv : secureRecv s.log (sessionKey K i) (s.workers i).recvNonceCtr 4 buf = some (p, next)) :
    (workerStep K encrypt s i tagTask buf).toMaster i ≠ [] := by
  simp only [workerStep, hrecv, if_neg (show tagTask ≠ tagShutdown by decide),
    if_neg (show tagTask ≠ tagIdle by decide), if_true, workerSend, Function.update_self]
  exact List.append_ne_nil_of_right_ne_nil _ (List.cons_ne_nil _ _)

section
variable (hinjective : ∀ key nonce p q, encrypt key nonce p = encrypt key nonce q → p = q)
include hinjective

/-- A worker with a task in its queue gets to it and answers. -/
theorem worker_answers {i : Nat} (hi : i < nworkers) (hsize : tasks.length < 2^31)
    {queue : List (Int32 × Bytes)} (hqueue : s.toWorker i = queue)
    (h : Dispatching K encrypt nworkers tasks s rejected) (hwaiting : s.pc.Waiting)
    (htask : 0 < queue.countP (·.1 = tagTask)) :
    ∃ s', Relation.ReflTransGen (Step K encrypt nworkers tasks) s s' ∧ s'.pc = s.pc ∧
      s'.resultsReceived = s.resultsReceived ∧ s'.toMaster i ≠ [] ∧
      Dispatching K encrypt nworkers tasks s' rejected := by
  induction queue generalizing s with
  | nil => exact absurd htask (lt_irrefl 0)
  | cons m rest ih =>
    obtain ⟨tag, buf⟩ := m
    have hrunning := (h.opened hwaiting.collecting i hi).1
    have hstep : Step K encrypt nworkers tasks s _ := .worker hi hrunning hqueue
    have hnext := h.workerStep hinjective hsize hi hqueue
    obtain ⟨p, next, hrecv, _, _, _⟩ := h.flowing.workerTakes hinjective hqueue
      (Nat.lt_of_succ_lt (h.sends_lt hsize i))
    obtain ⟨hpc, hresults, hwords⟩ := workerStep_frame K encrypt
      { s with toWorker := Function.update s.toWorker i rest } i tag buf
    by_cases htag : tag = tagTask
    · subst htag
      exact ⟨_, .single hstep, hpc, hresults, workerStep_answers hrecv, hnext⟩
    · rw [List.countP_cons_of_neg (by simpa using htag)] at htask
      have hrest := congrFun hwords i
      simp only [Function.update_self] at hrest
      obtain ⟨s', hrun, hpc', hresults', hanswer, hs'⟩ :=
        ih hrest hnext (by rwa [hpc]) htask
      exact ⟨s', .head hstep hrun, hpc'.trans hpc, hresults'.trans hresults, hanswer, hs'⟩

/-- While something is in flight, the waiting master can receive a result. -/
theorem result_arrives (hsize : tasks.length < 2^31)
    (h : Dispatching K encrypt nworkers tasks s rejected) (hwaiting : s.pc.Waiting)
    (hmissing : s.resultsReceived < tasks.length) (hflight : inFlight nworkers s ≠ 0) :
    ∃ s', Relation.ReflTransGen (Step K encrypt nworkers tasks) s s' ∧
      s'.resultsReceived = s.resultsReceived+1 := by
  have harrived : ∀ {s : State} {i}, Dispatching K encrypt nworkers tasks s rejected →
      s.pc.Waiting → s.resultsReceived < tasks.length → i < nworkers → s.toMaster i ≠ [] →
      ∃ s', Relation.ReflTransGen (Step K encrypt nworkers tasks) s s' ∧
        s'.resultsReceived = s.resultsReceived+1 := by
    intro s i h hwaiting hmissing hi hne
    have hat : Dispatching K encrypt nworkers tasks { s with pc := .poll i } rejected :=
      h.wait hwaiting trivial
    have hstep : Step K encrypt nworkers tasks { s with pc := .poll i } _ := .master true
    simp only [Attest.masterStep, if_pos hi] at hstep
    exact ⟨_, (comes_around hwaiting hmissing hi).tail hstep,
      (hat.poll hinjective rfl hi hsize true).2 hne rfl⟩
  obtain ⟨i, hi, hout⟩ := Finset.exists_ne_zero_of_sum_ne_zero hflight
  rw [Finset.mem_range] at hi
  by_cases hne : s.toMaster i = []
  · have htask : 0 < (s.toWorker i).countP (·.1 = tagTask) := by
      rw [outstanding, hne] at hout
      exact Nat.pos_of_ne_zero hout
    obtain ⟨s', hrun, hpc, hresults, hanswer, hs'⟩ :=
      worker_answers hinjective hi hsize rfl h hwaiting htask
    obtain ⟨s'', hrun', hreceived⟩ := harrived hs' (hpc ▸ hwaiting) (hresults ▸ hmissing) hi hanswer
    exact ⟨s'', hrun.trans hrun', hreceived.trans (by rw [hresults])⟩
  · exact harrived h hwaiting hmissing hi hne

theorem Dispatching.lossyStep {s' : State} {rejected' : Nat}
    (h : Dispatching K encrypt nworkers tasks s rejected) (hsize : tasks.length < 2^31)
    (hstep : LossyStep K encrypt nworkers tasks (s, rejected) (s', rejected')) :
    Dispatching K encrypt nworkers tasks s' rejected' := by
  cases hstep with
  | delivered hstep =>
    cases hstep with
    | master visible => exact h.masterStep hinjective hsize visible
    | worker hi _ hqueue => exact h.workerStep hinjective hsize hi hqueue
  | garbledWord buf' hi _ hqueue hrecv =>
    rw [workerStep_rejected]
    · exact h.skipped hi hqueue
    · exact hrecv
  | @garbledResult _ _ i _ rest buf' hpc hi hqueue hrecv =>
    let s₀ : State := { s with toMaster := Function.update s.toMaster i (buf'::rest) }
    have hgarbled : s₀.toMaster i = buf'::rest := Function.update_self ..
    have hdropped := h.dropped hpc hi hqueue
    rw [masterStep_rejected (s := s₀) hpc hi hgarbled hrecv]
    simp only [s₀, Function.update_idem]
    exact hdropped

theorem dispatching_run (hsize : tasks.length < 2^31)
    (h : LossyRun K encrypt nworkers tasks s rejected) :
    Dispatching K encrypt nworkers tasks s rejected := by
  refine Reachable.invariant (I := fun t => Dispatching K encrypt nworkers tasks t.1 t.2) ?_ ?_ h
  · intro t ht
    subst ht
    refine ⟨⟨by simp [initial], ?_, ?_⟩, ?_, Nat.zero_le _, ?_, ?_, ?_, ?_⟩
    · intro i
      exact ⟨0, le_refl _, rfl⟩
    · intro i
      exact ⟨0, le_refl _, rfl⟩
    · simp [initial, inFlight, outstanding]
    · simp [initial]
    · simp [initial]
    · intro _ _ i hi hsent
      simp [initial, (Nat.zero_lt_of_lt hi).ne', Pc.sent] at hsent
    · intro _ i _
      simp [initial]
  · intro t t' ht hstep
    exact ht.lossyStep hinjective hsize hstep

/-- A task without a result waits, is on its way, has its result on the way, or was rejected.
The master that waits with nothing rejected can receive one more result; after a rejection it
does not get all of them. -/
theorem tasks_accounted (hsize : tasks.length < 2^31) (hn : 0 < nworkers)
    (h : LossyRun K encrypt nworkers tasks s rejected) :
    s.resultsReceived ≤ s.next ∧ s.next ≤ tasks.length ∧
    tasks.length - s.resultsReceived = (tasks.length - s.next) + tasksInFlight nworkers s +
      resultsInFlight nworkers s + rejected ∧
    (rejected = 0 → s.pc.Waiting → s.resultsReceived < tasks.length →
      ∃ s', Relation.ReflTransGen (Step K encrypt nworkers tasks) s s' ∧
        s'.resultsReceived = s.resultsReceived+1) ∧
    (rejected ≠ 0 → s.resultsReceived < tasks.length) := by
  have hrun := dispatching_run hinjective hsize h
  have htotal := hrun.total
  have hnext := hrun.next_le
  have hflight := inFlight_eq nworkers s
  refine ⟨by omega, hnext, by omega, ?_, by omega⟩
  intro hzero hwaiting hmissing
  refine result_arrives hinjective hsize hrun hwaiting hmissing ?_
  by_cases hleft : s.next < tasks.length
  · have hbusy := hrun.busy hzero hleft 0 hn (by rw [hwaiting.sent 0]; exact Nat.one_ne_zero)
    intro hnone
    rw [inFlight, ← Finset.add_sum_erase _ _ (Finset.mem_range.mpr hn)] at hnone
    omega
  · omega

end

end

section Sample

/-- The only task arrives garbled: the worker skips it, and nothing is on its way any more. -/
theorem garbled_task_lost : ∃ s, LossyRun plainSecrets plainEncrypt 1 [2] s 1 ∧ s.pc.Waiting ∧
    ([2] : List Int32).length - s.resultsReceived ≠
      ([2] : List Int32).length - s.next + tasksInFlight 1 s + resultsInFlight 1 s := by
  have hsent := (Reachable.start rfl : LossyRun plainSecrets plainEncrypt 1 [2] _ _).next
    (.delivered (.master false))
  have hloop := hsent.next (.delivered (.master false))
  have hpoll := hloop.next (.delivered (.master false))
  have hskipped := hpoll.next
    (.garbledWord (i := 0) [] (by decide) (by decide +kernel) rfl
      (by decide +kernel))
  refine ⟨_, hskipped, trivial, ?_⟩
  decide +kernel

/-- The only task is on its way. -/
theorem sent_task_accounted : ∃ s, LossyRun plainSecrets plainEncrypt 1 [2] s 0 ∧
    s.pc.Waiting ∧ tasksInFlight 1 s = 1 ∧ ∃ s', Relation.ReflTransGen
      (Step plainSecrets plainEncrypt 1 [2]) s s' ∧ s'.resultsReceived = s.resultsReceived+1 := by
  have hsent := (Reachable.start rfl : LossyRun plainSecrets plainEncrypt 1 [2] _ _).next
    (.delivered (.master false))
  have hloop := hsent.next (.delivered (.master false))
  have hpoll := hloop.next (.delivered (.master false))
  refine ⟨_, hpoll, trivial, ?_, (tasks_accounted plainEncrypt_injective (by decide) Nat.one_pos
    hpoll).2.2.2.1 rfl trivial ?_⟩
  · decide +kernel
  · decide +kernel

end Sample
end DistributedEnclave.Attest
