import DistributedEnclave.Npb.Benchmarks
import DistributedEnclave.Npb.TaskqCost

/-! How many messages a job exchanges, from the first command to the shutdown. -/
namespace DistributedEnclave.Npb
open DistributedEnclave.Programs
open Taskq (Head masterBody)

def Arguments.rounds (a : Arguments) (opening round : Nat) : Nat :=
  a.nworkers*opening+a.numRuns.toInt.toNat*(a.nworkers*round)

def Arguments.workloadMessages (a : Arguments) : Nat :=
  if a.workload = workloadEp then a.rounds 1 3
  else if a.workload = workloadCg then a.rounds 4 (a.cgIters*3)
  else if a.workload = workloadStream then a.rounds 2 2
  else if a.workload = workloadRandom then a.rounds 2 2
  else if a.workload = workloadVmap then a.rounds 2 3
  else (taskqParams a).messages

def Arguments.messages (a : Arguments) : Nat := a.workloadMessages+a.nworkers

section
variable {machine : Host} {a : Arguments} {limit n k : Nat}

variable (a limit n) in
abbrev JobSpends {A : Type} (k : Nat) (m : A → Nat) (x : MasterCode A) : Prop :=
  Spends (Finset.range a.nworkers) a.encrypt limit (masterBody (taskqParams a)) n k m x

theorem gatherEp_spends {w : Nat} : JobSpends a limit n (k+2) (fun _ => k) (gatherEp a w) := by
  rw [gatherEp]
  refine (workloadRecvSmall_spends (k := k+1)).bind fun r => ?_
  split
  swap
  · exact mpiAbort_spends
  split
  · exact mpiAbort_spends
  refine workloadRecvSmall_spends.bind fun r' => ?_
  split
  swap
  · exact mpiAbort_spends
  split
  · exact mpiAbort_spends
  · exact .pure ()

theorem epMasterRun_spends {run : Int32} :
    JobSpends a limit n (k+a.nworkers*3) (fun _ => k) (epMasterRun a run) := by
  have hsum : k+a.nworkers*3 = k+a.nworkers*2+a.nworkers*1 := by omega
  rw [epMasterRun, hsum]
  refine (forWorkers_spends fun w hw l => workloadSendSmall_spends hw).bind fun _ => ?_
  exact forWorkers_spends fun w _ l => gatherEp_spends

theorem runEpMaster_spends : JobSpends a limit n (k+a.rounds 1 3) (fun _ => k) (runEpMaster a) := by
  have hsum : k+a.rounds 1 3 = k+(runs a.numRuns).length*(a.nworkers*3)+a.nworkers*1 := by
    rw [Arguments.rounds, Taskq.runs_length]
    omega
  rw [runEpMaster, hsum]
  refine (forWorkers_spends fun w hw l => secureSendMsg_spends hw).bind fun _ => ?_
  refine Affords.bind (Affords.forEach books_thrifty ?_) fun _ => .pure 0
  exact fun run _ l => epMasterRun_spends

theorem startCg_spends {w : Nat} (hw : w ∈ Finset.range a.nworkers) :
    JobSpends a limit n (k+4) (fun _ => k) (startCg machine a w) :=
  (secureSendMsg_spends (k := k+3) hw).bind fun _ =>
    (sendBulkMsg_spends (k := k+2) hw).bind fun _ =>
      (sendBulkMsg_spends (k := k+1) hw).bind fun _ => sendBulkMsg_spends hw

theorem gatherCg_spends {y : List Binary64} {w : Nat} :
    JobSpends a limit n (k+2) (fun _ => k) (gatherCg a y w) := by
  rw [gatherCg]
  refine (recvBulkMsg_spends (k := k+1)).bind fun r => ?_
  split
  swap
  · exact mpiAbort_spends
  refine workloadRecvSmall_spends.bind fun r' => ?_
  split
  swap
  · exact mpiAbort_spends
  split
  · exact mpiAbort_spends
  · exact .pure _

theorem cgMasterIter_spends {xy : List Binary64 × List Binary64} :
    JobSpends a limit n (k+a.nworkers*3) (fun _ => k) (cgMasterIter machine a xy) := by
  have hsum : k+a.nworkers*3 = k+(List.range a.nworkers).length*2+a.nworkers*1 := by
    rw [List.length_range]
    omega
  rw [cgMasterIter, hsum]
  refine (forWorkers_spends fun w hw l => sendBulkMsg_spends hw).bind fun _ => ?_
  refine Affords.bind (Affords.fold (fun w _ y l => gatherCg_spends) xy.2) fun y => ?_
  exact .pure (normalized machine xy.1 y, y)

theorem cgMasterRun_spends {y : List Binary64} {run : Int32} :
    JobSpends a limit n (k+a.nworkers*(a.cgIters*3)) (fun _ => k)
      (cgMasterRun machine a y run) := by
  have hsum : a.nworkers*(a.cgIters*3) = (List.range a.cgIters).length*(a.nworkers*3) := by
    rw [List.length_range]
    ring
  rw [cgMasterRun, hsum]
  refine Affords.bind (Affords.fold (fun _ _ xy l => cgMasterIter_spends) (initialX a, y))
    fun xy => ?_
  exact .pure xy.2

theorem runCgMaster_spends :
    JobSpends a limit n (k+a.rounds 4 (a.cgIters*3)) (fun _ => k) (runCgMaster machine a) := by
  have hsum : k+a.rounds 4 (a.cgIters*3) =
      k+(runs a.numRuns).length*(a.nworkers*(a.cgIters*3))+a.nworkers*4 := by
    rw [Arguments.rounds, Taskq.runs_length]
    omega
  rw [runCgMaster, hsum]
  split
  · exact mpiAbort_spends
  refine (forWorkers_spends fun w hw l => startCg_spends hw).bind fun _ => ?_
  refine Affords.bind (Affords.fold (fun run _ y l => cgMasterRun_spends) _) fun _ => ?_
  exact .pure 0

theorem streamMasterRun_spends {run : Int32} :
    JobSpends a limit n (k+a.nworkers*2) (fun _ => k) (streamMasterRun a run) := by
  have hsum : k+a.nworkers*2 = k+a.nworkers*1+a.nworkers*1 := by omega
  rw [streamMasterRun, hsum]
  refine (forWorkers_spends fun w hw l => workloadSendSmall_spends hw).bind fun _ => ?_
  refine gather_spends fun w l => workloadRecvSmall_spends.bind fun r => ?_
  split
  · split
    · exact .pure (-1)
    · exact .pure 0
  · exact .pure (-1)

theorem gatherRandom_spends {run : Int32} {expected : UInt32} {ps : List Nat} :
    JobSpends a limit n (k+ps.length*1) (fun _ => k) (gatherRandom a run expected ps) := by
  induction ps generalizing expected with
  | nil =>
    rw [List.length_nil, Nat.zero_mul]
    exact .pure 0
  | cons w ps ih =>
    rw [List.length_cons, Nat.succ_mul, ← Nat.add_assoc]
    refine workloadRecvSmall_spends.bind fun r => ?_
    split
    · split
      · exact (Affords.pure (-1)).within books_thrifty (Nat.le_add_right ..)
      · exact ih
    · exact (Affords.pure (-1)).within books_thrifty (Nat.le_add_right ..)

theorem randomMasterRun_spends {run : Int32} :
    JobSpends a limit n (k+a.nworkers*2) (fun _ => k) (randomMasterRun a run) := by
  have hsum : k+a.nworkers*2 = k+(List.range a.nworkers).length*1+a.nworkers*1 := by
    rw [List.length_range]
    omega
  rw [randomMasterRun, hsum]
  refine (forWorkers_spends fun w hw l => workloadSendSmall_spends hw).bind fun _ => ?_
  exact gatherRandom_spends

theorem gatherVmap_spends {run : Int32} {w : Nat} :
    JobSpends a limit n (k+2) (fun _ => k) (gatherVmap a run w) := by
  have hfail : ∀ l, k ≤ l → JobSpends a limit n l (fun _ => k) (pure (-1)) :=
    fun l hl => (Affords.pure (-1)).within books_thrifty hl
  rw [gatherVmap]
  refine (recvBulkMsg_spends (k := k+1)).bind fun r => ?_
  split
  swap
  · exact hfail _ (Nat.le_succ k)
  refine workloadRecvSmall_spends.bind fun r' => ?_
  split
  swap
  · exact hfail k (Nat.le_refl k)
  split
  · exact hfail k (Nat.le_refl k)
  split
  · exact hfail k (Nat.le_refl k)
  · exact .pure 0

theorem vmapMasterRun_spends {run : Int32} :
    JobSpends a limit n (k+a.nworkers*3) (fun _ => k) (vmapMasterRun a run) := by
  have hsum : k+a.nworkers*3 = k+a.nworkers*2+a.nworkers*1 := by omega
  rw [vmapMasterRun, hsum]
  refine (forWorkers_spends fun w hw l => sendBulkMsg_spends hw).bind fun _ => ?_
  exact gather_spends fun w l => gatherVmap_spends

/-- The workloads that wait for the workers to report ready. -/
theorem ready_spends {cmd : NpbCmd} {workload tag : Int32} {count : UInt64} {round : Nat}
    {run : Int32 → MasterCode Int}
    (hrun : ∀ i k, JobSpends a limit n (k+a.nworkers*round) (fun _ => k) (run i)) :
    JobSpends a limit n (k+a.rounds 2 round) (fun _ => k) (do
      forEach (fun w => secureSendMsg w (.cmd cmd) tagNpbCmd) (List.range a.nworkers)
      let ready ← waitForWorkloadReady a.nworkers workload tag count
      if ready ≠ 0 then pure (-1) else untilFailure run (runs a.numRuns)) := by
  rw [Arguments.rounds, ← Taskq.runs_length]
  exact readyRuns_spends hrun

theorem runVmapMaster_spends :
    JobSpends a limit n (k+a.rounds 2 3) (fun _ => k) (runVmapMaster a) := by
  rw [runVmapMaster]
  split
  · exact (Affords.pure (-1)).within books_thrifty (Nat.le_add_right ..)
  · exact ready_spends fun _ _ => vmapMasterRun_spends

theorem runWorkload_spends :
    JobSpends a limit n (k+a.workloadMessages) (fun _ => k) (runWorkload machine a) := by
  rw [runWorkload, Arguments.workloadMessages]
  split
  · exact runEpMaster_spends
  split
  · exact runCgMaster_spends
  split
  · exact ready_spends fun _ _ => streamMasterRun_spends
  split
  · exact ready_spends fun _ _ => randomMasterRun_spends
  split
  · exact runVmapMaster_spends
  split
  · exact Taskq.runTaskqMaster_costs
  · exact (Affords.pure 0).within books_thrifty (Nat.le_add_right ..)

theorem masterMain_spends :
    JobSpends a limit n (k+a.messages) (fun _ => k) (masterMain machine a) := by
  have hsum : k+a.messages = k+a.nworkers*1+a.workloadMessages := by
    rw [Arguments.messages]
    omega
  rw [masterMain, hsum]
  refine runWorkload_spends.bind fun status => ?_
  split
  · exact mpiAbort_spends
  · exact forWorkers_spends fun w hw l => secureSendMsg_spends hw

end

end DistributedEnclave.Npb
