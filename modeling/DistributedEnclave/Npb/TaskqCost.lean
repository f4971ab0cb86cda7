import DistributedEnclave.Npb.NonceBudget
import DistributedEnclave.Npb.TaskqDispatch

/-! How many messages the dispatcher exchanges, and that under encryption it pays a nonce for
each that it sends. -/
namespace DistributedEnclave.Npb
open DistributedEnclave.Programs
open Taskq (Head)

section
variable {nworkers limit n k s : Nat} {encrypt : Bool}
  {body : (Party Nat Head Int).Loop → Prog (Party Nat Head Int) (Party Nat Head Int).Result}

/-- A loop over the workers. -/
theorem forWorkers_spends {f : Nat → MasterCode Unit}
    (h : ∀ w ∈ Finset.range nworkers, ∀ k,
      Spends (Finset.range nworkers) encrypt limit body n (k+s) (fun _ => k) (f w)) :
    Spends (Finset.range nworkers) encrypt limit body n (k+nworkers*s) (fun _ => k)
      (forEach f (List.range nworkers)) := by
  have hlen : k+nworkers*s = k+(List.range nworkers).length*s := by rw [List.length_range]
  rw [hlen]
  exact Affords.forEach books_thrifty fun w hw => h w (Finset.mem_range.mpr (List.mem_range.mp hw))

/-- A loop over the workers that stops where one has failed. -/
theorem gather_spends {f : Nat → MasterCode Int}
    (h : ∀ w k, Spends (Finset.range nworkers) encrypt limit body n (k+s) (fun _ => k) (f w)) :
    Spends (Finset.range nworkers) encrypt limit body n (k+nworkers*s) (fun _ => k)
      (untilFailure f (List.range nworkers)) := by
  have hlen : k+nworkers*s = k+(List.range nworkers).length*s := by rw [List.length_range]
  rw [hlen]
  exact Affords.untilFailure books_thrifty fun w _ => h w

theorem waitForWorkloadReady_spends {workload tag : Int32} {count : UInt64} :
    Spends (Finset.range nworkers) encrypt limit body n (k+nworkers*1) (fun _ => k)
      (waitForWorkloadReady nworkers workload tag count) := by
  refine gather_spends fun w l => secureRecvMsg_spends.bind fun r => ?_
  split
  · split
    · exact .pure (-1)
    · exact .pure 0
  · exact .pure (-1)

/-- A workload for which the workers report ready before they go through the runs. -/
theorem readyRuns_spends {cmd : NpbCmd} {workload tag : Int32} {count : UInt64}
    {is : List Int32} {run : Int32 → MasterCode Int}
    (hrun : ∀ i k, Spends (Finset.range nworkers) encrypt limit body n (k+s) (fun _ => k) (run i)) :
    Spends (Finset.range nworkers) encrypt limit body n (k+(nworkers*2+is.length*s))
      (fun _ => k) (do
        forEach (fun w => secureSendMsg w (.cmd cmd) tagNpbCmd) (List.range nworkers)
        let ready ← waitForWorkloadReady nworkers workload tag count
        if ready ≠ 0 then pure (-1) else untilFailure run is) := by
  have hsum : k+(nworkers*2+is.length*s) = k+is.length*s+nworkers*1+nworkers*1 := by omega
  rw [hsum]
  refine (forWorkers_spends fun w hw l => secureSendMsg_spends hw).bind fun _ => ?_
  refine waitForWorkloadReady_spends.bind fun ready => ?_
  split
  · exact (Affords.pure (-1)).within books_thrifty (Nat.le_add_right ..)
  · exact Affords.untilFailure books_thrifty fun i _ => hrun i

end

namespace Taskq
variable {p : Params} {limit n k : Nat}

/-- The messages that the tasks of a run still cost: four for each that has not gone out, two for
each that a worker holds. -/
def Queue.due (p : Params) (q : Queue) : Nat :=
  4*(p.taskCount.toNat-q.nextTask)+2*(q.held p.nworkers).length

def Head.due (p : Params) : Head → Nat
  | .test q => if q.status = 0 then q.due p else 0
  | .scan q _ => q.due p

def Params.messages (p : Params) : Nat :=
  p.nworkers*2+p.numRuns.toInt.toNat*(2*p.nworkers+4*p.taskCount.toNat)

theorem Queue.held_assign_le {q : Queue} {n w : Nat} (hw : w < n) :
    ((q.assign w).held n).length ≤ (q.held n).length+1 := by
  by_cases hfree : q.busy w = false
  · have hlen := (q.held_assign hw hfree).length_eq
    rw [List.length_cons] at hlen
    omega
  · have hsame : (q.assign w).busy = q.busy := by
      funext v
      by_cases hv : v = w
      · subst hv
        simpa [Queue.assign] using hfree
      · exact q.assign_busy_of_ne hv
    simp only [Queue.held, hsame, List.length_map]
    omega

theorem Queue.due_assign {q : Queue} {w : Nat} (hw : w < p.nworkers)
    (hnext : q.nextTask < p.taskCount.toNat) : (q.assign w).due p+2 ≤ q.due p := by
  have hheld := q.held_assign_le hw
  have hnext' : (q.assign w).nextTask = q.nextTask+1 := rfl
  simp only [Queue.due, hnext']
  omega

theorem Queue.due_complete {q : Queue} {w : Nat} (hw : w < p.nworkers) (hbusy : q.busy w = true) :
    (q.complete w).due p+2 ≤ q.due p := by
  have hlen := (q.held_complete hw hbusy).length_eq
  have hnext' : (q.complete w).nextTask = q.nextTask := rfl
  rw [List.length_cons] at hlen
  simp only [Queue.due, hnext']
  omega

theorem startQueue_due (run : Int32) : (startQueue run).due p = 4*p.taskCount.toNat := by
  simp [Queue.due, Queue.held, startQueue]

abbrev Costs (p : Params) (limit : Nat) {A : Type} (n k : Nat) (m : A → Nat) (x : MasterCode A) :
    Prop :=
  Spends (Finset.range p.nworkers) p.encrypt limit (masterBody p) n k m x

theorem dispatch_costs {q : Queue} {w : Nat} (hw : w < p.nworkers) :
    Costs p limit n (k+q.due p) (fun q' => k+q'.due p) (dispatch p q w) := by
  have hmem := Finset.mem_range.mpr hw
  rw [dispatch]
  split
  · rename_i hnext
    have hdue := q.due_assign hw hnext
    rw [sendTaskqWork, bind_assoc]
    refine Affords.within books_thrifty (k := k+(q.assign w).due p+1+1) ?_ (by omega)
    exact (workloadSendSmall_spends hmem).bind fun _ => (sendBulkMsg_spends hmem).bind fun _ =>
      .leaves (fun q' : Queue => k+q'.due p) (q.assign w)
  · exact .leaves (fun q' : Queue => k+q'.due p) q

theorem Head.due_test (q : Queue) : (Head.test q).due p ≤ q.due p := by
  rw [Head.due]
  split
  · exact Nat.le_refl _
  · exact Nat.zero_le _

theorem scan_costs {q : Queue} {w : Nat}
    (hloop : ∀ head : Head, Costs p limit n (k+head.due p) (fun _ => k) (enter head)) :
    Costs p limit n (k+q.due p) (fun _ => k) (scan p q w) := by
  have htest := Nat.add_le_add_left (Head.due_test (p := p) q) k
  rw [scan]
  split
  swap
  · exact (hloop (.test q)).within books_thrifty htest
  rename_i hw
  split
  · exact hloop (.scan q (w+1))
  rename_i hbusy
  refine mpiIprobe_spends.bind fun found => ?_
  split
  · exact hloop (.scan q (w+1))
  -- two messages for the result, and then the worker holds no task any more
  have hdue := q.due_complete (w := w) hw (by simpa using hbusy)
  refine Affords.within books_thrifty (k := k+(q.complete w).due p+1+1) ?_ (by omega)
  have hfail : ∀ l, k ≤ l → Costs p limit n l (fun _ => k) (failed q) := by
    intro l hl
    exact (hloop (.test { q with status := -1 })).within books_thrifty hl
  refine workloadRecvSmall_spends.bind fun r => ?_
  split
  swap
  · exact hfail _ (by omega)
  split
  · exact hfail _ (by omega)
  refine recvBulkMsg_spends.bind fun r' => ?_
  split
  swap
  · exact hfail _ (by omega)
  split
  · exact hfail _ (by omega)
  split
  · exact hfail _ (by omega)
  exact (dispatch_costs hw).bind fun q' => hloop (.scan q' (w+1))

theorem loop_costs (head : Head) :
    Costs p limit n (k+head.due p) (fun _ => k) (enter head) := by
  intro c t h
  refine Maintains.loop (E := listen (Party Nat Head Int)) (J := Spare limit)
    (I := fun (l : Head × (Nat → Counters)) t =>
      Books (Finset.range p.nworkers) p.encrypt limit (k+l.1.due p) l.2 t) ?_ n
    (l := (head, c)) h
  intro n hloop l t h
  refine ⟨trivial, ?_⟩
  obtain ⟨head, c⟩ := l
  have hloop : ∀ head : Head, Costs p limit n (k+head.due p) (fun _ => k) (enter head) :=
    fun head c t h => hloop (head, c) t h
  cases head with
  | scan q w => exact scan_costs hloop c t h
  | test q =>
    change Maintains _ _ _ _ n (masterLoop p (.test q) c) t
    rw [masterLoop]
    split
    · rename_i hgoes
      refine hloop (.scan q 0) c t ?_
      simpa only [Head.due, hgoes.2, if_true] using h
    · exact .ret (books_thrifty _ _ _ _ (Nat.le_add_right ..) h)

theorem masterRun_costs (run : Int32) :
    Costs p limit n (k+(2*p.nworkers+4*p.taskCount.toNat)) (fun _ => k) (masterRun p run) := by
  have hsum : k+(2*p.nworkers+4*p.taskCount.toNat) =
      k+p.nworkers*1+(startQueue run).due p+p.nworkers*1 := by
    rw [startQueue_due]
    omega
  rw [masterRun, hsum]
  refine (forWorkers_spends fun w hw l => workloadSendSmall_spends hw).bind fun _ => ?_
  refine (Affords.foldlM (m := fun _ q => k+p.nworkers*1+q.due p)
    (fun w rest hw q => dispatch_costs ?_) (startQueue run)).bind fun q => ?_
  · obtain ⟨before, hsplit⟩ := hw
    refine List.mem_range.mp ?_
    rw [hsplit]
    exact List.mem_append_right _ List.mem_cons_self
  refine ((loop_costs (.test q)).within books_thrifty
    (Nat.add_le_add_left (Head.due_test q) _)).bind fun status => ?_
  split
  · exact (Affords.pure status).within books_thrifty (Nat.le_add_right ..)
  · exact (forWorkers_spends fun w hw l => workloadSendSmall_spends hw).bind fun _ => .pure 0

theorem runs_length (numRuns : Int32) : (runs numRuns).length = numRuns.toInt.toNat := by
  rw [runs, List.length_map, List.length_range']

theorem runTaskqMaster_costs : Costs p limit n (k+p.messages) (fun _ => k) (runTaskqMaster p) := by
  have hworker : ∀ w ∈ List.range p.nworkers, w ∈ Finset.range p.nworkers :=
    fun w hw => Finset.mem_range.mpr (List.mem_range.mp hw)
  rw [Params.messages, ← runs_length]
  exact readyRuns_spends fun run l => masterRun_costs run

end Taskq
end DistributedEnclave.Npb
