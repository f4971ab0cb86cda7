import Mathlib.Algebra.BigOperators.Group.Finset.Basic
import Mathlib.Order.RelClasses
import DistributedEnclave.Npb.Service
import DistributedEnclave.Npb.TaskqDispatch

/-! Honest workers under the dispatcher: every task is answered, every run ends and every
worker is told so once. -/
namespace DistributedEnclave.Npb
open DistributedEnclave.Programs
namespace Taskq

section
variable (host : Host) (p : Params)

def nextRuns (rest : List Int32) (status : Int) : WorkerCode Int :=
  (if status ≠ 0 then pure status else untilFailure (workerRun host (startCmd p)) rest) >>=
    afterWorkload host

def working (run : Int32) (rest : List Int32) : WorkerCode Int :=
  enter (.tasks host (startCmd p) run) >>= nextRuns host p rest

abbrev taskqRuns (rest : List Int32) : WorkerCode Int :=
  remaining host (workerRun host (startCmd p)) rest

def workTask (run : Int32) (taskId : UInt64) : TaskqTask where
  command := taskqTaskWork
  run := run
  taskId := taskId
  iterations := p.iterations
  payloadBytes := p.payloadBytes

def answering (run : Int32) (rest : List Int32) (taskId : UInt64) : WorkerCode Int := do
  let task := workTask p run taskId
  let input := taskInput taskId run p.payloadBytes
  workloadSendSmall () (.taskqResult (taskResult host (startCmd p) task run input))
    tagTaskqResult p.encrypt
  sendBulkMsg () (.octets (taskOutput task run input)) tagTaskqOutput p.encrypt
  working host p run rest

end

structure Params.Admitted (p : Params) : Prop where
  workers : 0 < p.nworkers ∧ p.nworkers ≤ maxWorkers
  runs : 1 ≤ p.numRuns.toInt ∧ p.numRuns.toInt ≤ maxRuns
  tasks : 0 < p.taskCount.toNat
  bytes : taskqMinBytes ≤ p.payloadBytes ∧ p.payloadBytes ≤ taskqMaxBytes
  iterations : 0 < p.iterations.toNat

section
variable {host : Host} {p : Params}
  {body : (Party Nat Head Int).Loop → Prog (Party Nat Head Int) (Party Nat Head Int).Result}
  {I : (Party Nat Head Int).Loop → Sites → Prop}

theorem startCmd_encrypts : decide ((startCmd p).encryptData ≠ 0) = p.encrypt :=
  encrypts p.encrypt

theorem taskInput_size (taskId : UInt64) (run : Int32) (n : UInt32) :
    (Payload.octets (taskInput taskId run n)).size = n.toNat := by
  rw [Payload.size, taskInput, List.length_map, List.length_range]

theorem Params.Admitted.bulkFits (h : p.Admitted) : BulkFits p.encrypt p.payloadBytes.toNat := by
  have hle : p.payloadBytes.toNat ≤ 1048576 := h.bytes.2
  refine ⟨?_, fun _ => ?_⟩
  · simp only [intMax]
    omega
  · simp only [intMax, npub, abytes]
    omega

theorem working_settle (run : Int32) (rest : List Int32) (t : Unit → Counters) :
    (working host p run rest t).settle workerBody =
      ((taskLoop host (startCmd p) run >>= nextRuns host p rest) t).settle workerBody := by
  have hsettled : ∀ k : Option Payload → WorkerCode Int,
      ((workloadRecvSmall () sizeofTaskqTask tagTaskqTask ((startCmd p).encryptData ≠ 0) >>= k) t).settle
        workerBody =
      (workloadRecvSmall () sizeofTaskqTask tagTaskqTask ((startCmd p).encryptData ≠ 0) >>= k) t := by
    intro k
    rw [startCmd_encrypts]
    cases p.encrypt <;> rfl
  have hentered : (working host p run rest t).settle workerBody =
      (taskLoop host (startCmd p) run >>= nextRuns host p rest) t := rfl
  rw [hentered, taskLoop, bind_assoc, hsettled]

theorem answering_eq (run : Int32) (rest : List Int32) (taskId : UInt64) :
    answering host p run rest taskId = (do
      let task := workTask p run taskId
      let input := taskInput taskId run p.payloadBytes
      workloadSendSmall () (.taskqResult (taskResult host (startCmd p) task run input))
        tagTaskqResult p.encrypt
      sendBulkMsg () (.octets (taskOutput task run input)) tagTaskqOutput p.encrypt
      enter (.tasks host (startCmd p) run)) >>= nextRuns host p rest := by
  simp only [answering, bind_assoc]
  rfl

theorem sendTaskqWork_meets (hp : p.Admitted) {w : Nat} {run : Int32} {rest : List Int32}
    {taskId : UInt64} (hid : taskId < p.taskCount) :
    Meets body workerBody I w (sendTaskqWork p w run taskId) (working host p run rest)
      (fun _ => True) (fun _ => answering host p run rest taskId) := by
  refine Exchange.of_settle (working_settle run rest) ?_
  rw [taskLoop, bind_assoc, startCmd_encrypts]
  have hsize : (Payload.taskqTask (workTask p run taskId)).size = sizeofTaskqTask := rfl
  refine Exchange.bind (workloadSendSmall_meets hsize (by decide) _) ?_
  intro _ _
  have hwork : (workTask p run taskId).command ≠ taskqTaskEnd :=
    show taskqTaskWork ≠ taskqTaskEnd by decide
  have hvalid : ¬((workTask p run taskId).command ≠ taskqTaskWork ∨
      (workTask p run taskId).run ≠ run ∨ (workTask p run taskId).taskId ≥ (startCmd p).taskCount ∨
      (workTask p run taskId).payloadBytes ≠ (startCmd p).taskBytes ∨
      (workTask p run taskId).iterations ≠ (startCmd p).taskIters) := by
    simp [workTask, startCmd, UInt64.not_le, hid]
  simp only [if_neg hwork, if_neg hvalid]
  rw [answering_eq, bind_assoc]
  exact sendBulkMsg_meets (taskInput_size taskId run p.payloadBytes) hp.bulkFits _

theorem sendTaskqEnd_meets {w : Nat} {run : Int32} {rest : List Int32} :
    Meets body workerBody I w (sendTaskqEnd p w run) (working host p run rest)
      (fun _ => True) (fun _ => taskqRuns host p rest) := by
  refine Exchange.of_settle (working_settle run rest) ?_
  rw [taskLoop, bind_assoc, startCmd_encrypts]
  have hsize : (Payload.taskqTask ⟨taskqTaskEnd, run, UInt64.ofNat uint64Max, 0, 0, 0⟩).size =
      sizeofTaskqTask := rfl
  refine Exchange.goes (workloadSendSmall_meets hsize (by decide) _) fun _ _ => ⟨trivial, ?_⟩
  simp only [if_true, ne_eq, not_true_eq_false, if_false]
  rfl

theorem startRun_meets {w : Nat} {run : Int32} {rest : List Int32} :
    Meets body workerBody I w
      (workloadSendSmall w (.taskqControl ⟨taskqControlStart, run⟩) tagTaskqControl p.encrypt)
      (taskqRuns host p (run::rest)) (fun _ => True) (fun _ => working host p run rest) := by
  rw [taskqRuns, remaining, untilFailure, workerRun, bind_assoc, bind_assoc, startCmd_encrypts]
  have hsize : (Payload.taskqControl ⟨taskqControlStart, run⟩).size = sizeofTaskqControl := rfl
  refine Exchange.goes (workloadSendSmall_meets hsize (by decide) _) fun _ _ => ⟨trivial, ?_⟩
  simp only [ne_eq, not_true_eq_false, or_self, if_false]
  rfl

theorem serveCommand_taskq (hp : p.Admitted) (hbuild : host.Permits p.encrypt) :
    serveCommand host (startCmd p) =
      sendWorkloadReady workloadTaskq 1 p.payloadBytes.toUInt64 tagTaskqReady >>= fun _ =>
        taskqRuns host p (runs p.numRuns) := by
  have hvalid : ¬((startCmd p).taskBytes < taskqMinBytes ∨ (startCmd p).taskBytes > taskqMaxBytes ∨
      (startCmd p).taskCount = 0 ∨ (startCmd p).taskIters = 0) := by
    have htasks := hp.tasks
    have hiterations := hp.iterations
    simp only [startCmd, not_or, UInt32.not_lt, gt_iff_lt]
    refine ⟨hp.bytes.1, hp.bytes.2, ?_, ?_⟩
    · intro hzero
      simp [hzero] at htasks
    · intro hzero
      simp [hzero] at hiterations
  rw [serveCommand_start workloadTaskq rfl rfl hbuild.plain, if_neg (by decide),
    if_neg (by decide), if_neg (by decide), if_neg (by decide), if_neg (by decide), if_pos rfl,
    runTaskqWorkload, if_neg hvalid, bind_assoc]
  rfl

theorem sample_lt {n : UInt32} (hn : taskqMinBytes ≤ n) : ∀ index ∈ taskSamples n, index < n.toNat := by
  have hpos : 1 ≤ n.toNat := hn
  intro index hindex
  simp only [taskSamples, List.mem_cons, List.not_mem_nil, or_false] at hindex
  omega

theorem taskInput_get {taskId : UInt64} {run : Int32} {n : UInt32} {index : Nat}
    (h : index < n.toNat) :
    (taskInput taskId run n)[index]? = some (taskInputByte taskId run index) := by
  rw [taskInput, List.getElem?_map, List.getElem?_range h]
  rfl

theorem taskOutput_get {taskId : UInt64} {run : Int32} {index : Nat}
    (h : index < p.payloadBytes.toNat) :
    (taskOutput (workTask p run taskId) run (taskInput taskId run p.payloadBytes))[index]? =
      some (taskOutputByte (taskInputByte taskId run index)
        (iteratedToken (workTask p run taskId) run) taskId index) := by
  rw [taskOutput, List.getElem?_mapIdx, taskInput_get h]
  rfl

theorem referenceToken_eq (run : Int32) (taskId : UInt64) :
    referenceToken p run taskId = iteratedToken (workTask p run taskId) run :=
  linearMapApply_buildXorshiftJump ..

/-- The jump table yields what looping yields, for every count and every word, and so the
token that the master expects is the one the worker computes. -/
theorem jump_eq_iteration :
    (∀ n v : UInt64, linearMapApply (buildXorshiftJump n) v = xorshift64Step^[n.toNat] v) ∧
    ∀ (p : Params) (run : Int32) (taskId : UInt64),
      referenceToken p run taskId = iteratedToken (workTask p run taskId) run :=
  ⟨linearMapApply_buildXorshiftJump, fun _ run taskId => referenceToken_eq run taskId⟩

/-- The step permutes the words and keeps 0 apart, so that no token is 0 and no iteration makes
two tokens equal. -/
theorem tokens_kept_apart :
    Function.Bijective xorshift64Step ∧ (∀ value, xorshift64Step value = 0 ↔ value = 0) ∧
    (∀ (task : TaskqTask) (run : Int32), iteratedToken task run ≠ 0) ∧
    ∀ (iterations : UInt64) (task task' : TaskqTask) (run run' : Int32),
      iteratedToken { task with iterations := iterations } run =
          iteratedToken { task' with iterations := iterations } run' ↔
        taskInitialToken task.taskId run = taskInitialToken task'.taskId run' := by
  refine ⟨xorshift64Step_bijective, fun _ => xorshift64Step_eq_zero, ?_, ?_⟩
  · intro task run
    exact xorshift64Step_iterate_ne_zero (taskInitialToken_ne_zero task.taskId run) _
  · intro iterations task task' run run'
    exact (xorshift64Step_bijective.injective.iterate iterations.toNat).eq_iff

/-- The worker's own check succeeds. -/
theorem taskVerified_eq (hp : p.Admitted) (run : Int32) (taskId : UInt64) :
    taskVerified (startCmd p) (workTask p run taskId) run
      (taskInput taskId run p.payloadBytes) = 1 := by
  rw [taskVerified]
  have hinput : (taskSamples (startCmd p).taskBytes).all (fun index =>
      (taskInput taskId run p.payloadBytes)[index]? =
        some (taskInputByte (workTask p run taskId).taskId run index)) = true := by
    rw [List.all_eq_true]
    intro index hindex
    exact decide_eq_true (taskInput_get (sample_lt hp.bytes.1 index hindex))
  have houtput : (taskSamples (startCmd p).taskBytes).all (fun index =>
      (taskOutput (workTask p run taskId) run (taskInput taskId run p.payloadBytes))[index]? =
        some (taskOutputByte (taskInputByte (workTask p run taskId).taskId run index)
          (iteratedToken (workTask p run taskId) run) (workTask p run taskId).taskId index)) =
      true := by
    rw [List.all_eq_true]
    intro index hindex
    exact decide_eq_true (taskOutput_get (sample_lt hp.bytes.1 index hindex))
  simp only [hinput, houtput]
  rfl

theorem outputVerified_eq (hp : p.Admitted) (run : Int32) (taskId : UInt64) :
    outputVerified p run taskId (referenceToken p run taskId)
      (taskOutput (workTask p run taskId) run (taskInput taskId run p.payloadBytes)) = true := by
  rw [outputVerified, List.all_eq_true, referenceToken_eq]
  intro index hindex
  exact decide_eq_true (taskOutput_get (sample_lt hp.bytes.1 index hindex))

theorem taskOutput_size (run : Int32) (taskId : UInt64) :
    (Payload.octets (taskOutput (workTask p run taskId) run
      (taskInput taskId run p.payloadBytes))).size = p.payloadBytes.toNat := by
  rw [Payload.size, taskOutput, List.length_mapIdx]
  exact taskInput_size ..

/-- What a worker answers passes the dispatcher's checks. -/
theorem honest_answer (host : Host) (hp : p.Admitted) (q : Queue) (w : Nat) (rest : List Int32) :
    ∃ result output, answering host p q.run rest (UInt64.ofNat (q.assignedTask w)) =
        (workloadSendSmall () (.taskqResult result) tagTaskqResult p.encrypt >>= fun _ =>
          sendBulkMsg () (.octets output) tagTaskqOutput p.encrypt >>= fun _ =>
          working host p q.run rest) ∧
      resultValid p q w result = true ∧
      (Payload.octets output).size = p.payloadBytes.toNat ∧
      result.token = referenceToken p q.run result.taskId ∧
      outputVerified p q.run result.taskId (referenceToken p q.run result.taskId) output = true := by
  refine ⟨_, _, rfl, ?_, taskOutput_size .., (referenceToken_eq ..).symm, outputVerified_eq hp ..⟩
  simp only [resultValid, taskResult, taskVerified_eq hp, host.clock.isfinite,
    host.clock.nonneg]
  simp [workTask]

end

/-- The queue and the workers agree: a busy worker holds its task, an idle one waits, and none
but those in `pending` is idle while tasks are left. -/
structure Underway (hosts : Nat → Host) (p : Params) (rest : List Int32) (pending : List Nat) (q : Queue)
    (c : Nat → Counters) (e : Sites) : Prop where
  status : q.status = 0
  count : q.nextTask = q.completed + (q.held p.nworkers).length
  bound : q.nextTask ≤ p.taskCount.toNat
  assigned : ∀ v < p.nworkers, q.busy v = true → q.assignedTask v < p.taskCount.toNat
  idle : ∀ v < p.nworkers, v ∉ pending → q.busy v = false → q.nextTask = p.taskCount.toNat
  waits : ∀ v < p.nworkers, q.busy v = false →
    AboutTo (working (hosts v) p q.run rest) (c v) (e v)
  holds : ∀ v < p.nworkers, q.busy v = true →
    AboutTo (answering (hosts v) p q.run rest (UInt64.ofNat (q.assignedTask v))) (c v) (e v)

def InStep (hosts : Nat → Host) (p : Params) (l : Head × (Nat → Counters)) (e : Sites) : Prop :=
  ∃ rest, Underway hosts p rest [] l.1.queue l.2 e

abbrev Serves (hosts : Nat → Host) (p : Params) {A : Type} (Q : A → (Nat → Counters) → Sites → Prop)
    (x : MasterCode A) (c : Nat → Counters) (e : Sites) : Prop :=
  Ensures (rendezvous workers (Int × (Unit → Counters))) (masterBody p)
    (Matched workers (InStep hosts p)) RanOut (fun r e' => Q r.1 r.2 e') (x c) e

section
variable {hosts : Nat → Host} {p : Params} {rest : List Int32} {q : Queue} {c c' : Nat → Counters}
  {e e' : Sites}

/-- The other workers do not notice. -/
theorem aboutTo_same {w : Nat} (hframe : ∀ v, v ≠ w → c' v = c v ∧ e' v = e v) {v : Nat} (hv : v ≠ w)
    {x : WorkerCode Int} (hx : AboutTo x (c v) (e v)) : AboutTo x (c' v) (e' v) := by
  rw [(hframe v hv).1, (hframe v hv).2]
  exact hx

/-- The next task goes to worker `w`. -/
theorem Underway.assign {pending : List Nat} {w : Nat}
    (h : Underway hosts p rest (w::pending) q c e) (hw : w < p.nworkers) (hfree : q.busy w = false)
    (hnext : q.nextTask < p.taskCount.toNat) (hframe : ∀ v, v ≠ w → c' v = c v ∧ e' v = e v)
    (hholds : AboutTo (answering (hosts w) p q.run rest (UInt64.ofNat q.nextTask)) (c' w) (e' w)) :
    Underway hosts p rest pending (q.assign w) c' e' where
  status := h.status
  count := by
    have hlen := (q.held_assign hw hfree).length_eq
    have hcount := h.count
    rw [List.length_cons] at hlen
    simp only [Queue.assign] at hlen ⊢
    omega
  bound := hnext
  assigned := by
    intro v hv hbusy
    by_cases hvw : v = w
    · subst hvw
      simp only [Queue.assign, Function.update_self]
      exact hnext
    · rw [q.assign_busy_of_ne hvw] at hbusy
      simp only [Queue.assign, Function.update_of_ne hvw]
      exact h.assigned v hv hbusy
  idle := by
    intro v hv hpending hidle
    obtain ⟨hvw, hidle⟩ := q.idle_of_assign hidle
    have hfull := h.idle v hv (by simp [hvw, hpending]) hidle
    omega
  waits := by
    intro v hv hidle
    obtain ⟨hvw, hidle⟩ := q.idle_of_assign hidle
    exact aboutTo_same hframe hvw (h.waits v hv hidle)
  holds := by
    intro v hv hbusy
    by_cases hvw : v = w
    · subst hvw
      simp only [Queue.assign, Function.update_self]
      exact hholds
    · rw [q.assign_busy_of_ne hvw] at hbusy
      simp only [Queue.assign, Function.update_of_ne hvw]
      exact aboutTo_same hframe hvw (h.holds v hv hbusy)

/-- Worker `w` has answered and waits for more. -/
theorem Underway.complete {w : Nat} (h : Underway hosts p rest [] q c e) (hw : w < p.nworkers)
    (hbusy : q.busy w = true) (hframe : ∀ v, v ≠ w → c' v = c v ∧ e' v = e v)
    (hwaits : AboutTo (working (hosts w) p q.run rest) (c' w) (e' w)) :
    Underway hosts p rest [w] (q.complete w) c' e' where
  status := h.status
  count := by
    have hlen := (q.held_complete hw hbusy).length_eq
    have hcount := h.count
    rw [List.length_cons] at hlen
    simp only [Queue.complete] at hlen ⊢
    omega
  bound := h.bound
  assigned := by
    intro v hv hb
    exact h.assigned v hv (q.busy_of_complete hb).2
  idle := by
    intro v hv hpending hidle
    have hvw : v ≠ w := by simpa using hpending
    rw [q.complete_busy_of_ne hvw] at hidle
    exact h.idle v hv List.not_mem_nil hidle
  waits := by
    intro v hv hidle
    by_cases hvw : v = w
    · subst hvw
      exact hwaits
    · rw [q.complete_busy_of_ne hvw] at hidle
      exact aboutTo_same hframe hvw (h.waits v hv hidle)
  holds := by
    intro v hv hb
    obtain ⟨hvw, hb⟩ := q.busy_of_complete hb
    exact aboutTo_same hframe hvw (h.holds v hv hb)

/-- Nothing is left for worker `w`. -/
theorem Underway.none_left {pending : List Nat} {w : Nat}
    (h : Underway hosts p rest (w::pending) q c e) (hnext : ¬q.nextTask < p.taskCount.toNat) :
    Underway hosts p rest pending q c e where
  status := h.status
  count := h.count
  bound := h.bound
  assigned := h.assigned
  idle := by
    intro v _ _ _
    have := h.bound
    omega
  waits := h.waits
  holds := h.holds

theorem dispatch_serves (hp : p.Admitted) {pending : List Nat} {w : Nat}
    (h : Underway hosts p rest (w::pending) q c e) (hw : w < p.nworkers)
    (hfree : q.busy w = false) :
    Serves hosts p (fun q' c' e' => Underway hosts p rest pending q' c' e' ∧ q'.run = q.run ∧
      q'.completed = q.completed ∧ (∀ v, v ≠ w → q'.busy v = q.busy v) ∧
      ∀ v, v ≠ w → c' v = c v ∧ e' v = e v) (dispatch p q w) c e := by
  rw [Serves, dispatch]
  split
  · rename_i hnext
    have hid : UInt64.ofNat q.nextTask < p.taskCount := by
      rw [UInt64.lt_iff_toNat_lt, UInt64.toNat_ofNat_of_lt' (hnext.trans p.taskCount.toNat_lt)]
      exact hnext
    refine Exchange.code_bind (sendTaskqWork_meets hp hid) (h.waits w hw hfree) ?_
    intro _ c' e' _ hholds hframe
    exact .ret ⟨h.assign hw hfree hnext hframe hholds, rfl, rfl,
      fun v hv => q.assign_busy_of_ne hv, hframe⟩
  · rename_i hnext
    exact .ret ⟨h.none_left hnext, rfl, rfl, fun v _ => rfl, fun v _ => ⟨rfl, rfl⟩⟩

def patience (p : Params) (e : Sites) : Nat := ∑ v ∈ Finset.range p.nworkers, (e v).delay

theorem patience_miss {w : Nat} (hw : w < p.nworkers) (hother : ∀ v, v ≠ w → e' v = e v)
    (hdelay : (e w).delay = (e' w).delay + 1) : patience p e' < patience p e := by
  have hmem := Finset.mem_range.mpr hw
  have hrest : ∑ v ∈ (Finset.range p.nworkers).erase w, (e' v).delay =
      ∑ v ∈ (Finset.range p.nworkers).erase w, (e v).delay :=
    Finset.sum_congr rfl fun v hv => by rw [hother v (Finset.ne_of_mem_erase hv)]
  rw [patience, patience, ← Finset.add_sum_erase _ _ hmem, ← Finset.add_sum_erase _ _ hmem, hrest]
  omega

def busyFrom (p : Params) (q : Queue) (w : Nat) : Bool :=
  (List.range p.nworkers).any fun v => w ≤ v && q.busy v

def headsToPoll (p : Params) : Head → Nat
  | .test _ => p.nworkers+1
  | .scan q w => p.nworkers-w + if busyFrom p q w then 0 else p.nworkers+2

/-- What gets smaller from head to head: the tasks to complete, the probes that may miss, the
heads before a probe. -/
def variant (p : Params) (l : Head × (Nat → Counters)) (e : Sites) : Nat × Nat × Nat :=
  (p.taskCount.toNat-l.1.queue.completed, patience p e, headsToPoll p l.1)

abbrev Less : Nat × Nat × Nat → Nat × Nat × Nat → Prop :=
  Prod.Lex (· < ·) (Prod.Lex (· < ·) (· < ·))

theorem less_wf : WellFounded Less :=
  WellFounded.prod_lex wellFounded_lt (WellFounded.prod_lex wellFounded_lt wellFounded_lt)

theorem busyFrom_iff {w : Nat} : busyFrom p q w = true ↔ ∃ v < p.nworkers, w ≤ v ∧ q.busy v = true := by
  simp [busyFrom]

/-- While tasks are to be completed, someone is busy. -/
theorem Underway.someone_busy (hp : p.Admitted) (h : Underway hosts p rest [] q c e)
    (hleft : q.completed < p.taskCount.toNat) : busyFrom p q 0 = true := by
  rw [busyFrom_iff]
  by_contra hnone
  have hidle : ∀ v < p.nworkers, q.busy v = false := by
    intro v hv
    by_contra hbusy
    exact hnone ⟨v, hv, Nat.zero_le v, by simpa using hbusy⟩
  have hheld : q.held p.nworkers = [] := by
    rw [Queue.held, List.map_eq_nil_iff, List.filter_eq_nil_iff]
    intro v hv
    simp [hidle v (List.mem_range.mp hv)]
  have hcount := h.count
  have hfull := h.idle 0 hp.workers.1 List.not_mem_nil (hidle 0 hp.workers.1)
  rw [hheld, List.length_nil] at hcount
  omega

/-- When all tasks are completed, no one is. -/
theorem Underway.no_one_busy (h : Underway hosts p rest [] q c e)
    (hdone : ¬q.completed < p.taskCount.toNat) : ∀ v < p.nworkers, q.busy v = false := by
  intro v hv
  by_contra hbusy
  have hbusy : q.busy v = true := by simpa using hbusy
  have hcount := h.count
  have hbound := h.bound
  have hmem : q.assignedTask v ∈ q.held p.nworkers :=
    List.mem_map.mpr ⟨v, List.mem_filter.mpr ⟨List.mem_range.mpr hv, hbusy⟩, rfl⟩
  have := List.length_pos_of_mem hmem
  omega

/-- A worker that holds a task sends its result next, unless its nonces are used up. -/
theorem holds_next {run : Int32} {taskId : UInt64} {w : Nat} {s : Counters}
    (h : AboutTo (answering (hosts w) p run rest taskId) s (e w)) :
    ((∀ r, (e w).next workers ≠ .abort r) ∧
      (e w).Offers workers ⟨tagTaskqResult, 0, false⟩) ∨
      ((e w).next workers = .abort .nonceExhausted ∧ RanOut (some w) .nonceExhausted e) := by
  obtain ⟨hcarried, h⟩ := h
  have hsize : (Payload.taskqResult (taskResult (hosts w) (startCmd p) (workTask p run taskId) run
      (taskInput taskId run p.payloadBytes))).size ≤ secureMaxPlain :=
    show sizeofTaskqResult ≤ secureMaxPlain by decide
  rw [Site.Runs, answering] at h
  cases workloadSendSmall_begins hsize p.encrypt (fun _ =>
      sendBulkMsg () (.octets (taskOutput (workTask p run taskId) run
        (taskInput taskId run p.payloadBytes))) tagTaskqOutput p.encrypt >>= fun _ =>
      working (hosts w) p run rest) s.mirror with
  | inl hsend =>
    obtain ⟨m, next, hsend, htag⟩ := hsend
    refine .inl ⟨?_, (), m, next, ?_, htag⟩
    · intro r hr
      rw [h, hsend] at hr
      cases hr
    · rw [h, hsend]
      rfl
  | inr habort =>
    obtain ⟨hctr, habort⟩ := habort
    refine .inr ⟨?_, rfl, hcarried.received.symm.trans hctr⟩
    rw [h, habort]
    rfl

structure OnCourse (hosts : Nat → Host) (p : Params) (run : Int32) (rest : List Int32)
    (c₀ : Nat → Counters) (e₀ : Sites) (l : Head × (Nat → Counters)) (e : Sites) : Prop where
  underway : Underway hosts p rest [] l.1.queue l.2 e
  run_eq : l.1.queue.run = run
  frame : ∀ v, v ∉ List.range p.nworkers → l.2 v = c₀ v ∧ e v = e₀ v

def LoopEnds (hosts : Nat → Host) (p : Params) (run : Int32) (rest : List Int32) (c₀ : Nat → Counters)
    (e₀ : Sites) (status : Int) (c : Nat → Counters) (e : Sites) : Prop :=
  status = 0 ∧
    (∀ v ∈ List.range p.nworkers, AboutTo (working (hosts v) p run rest) (c v) (e v)) ∧
    ∀ v, v ∉ List.range p.nworkers → c v = c₀ v ∧ e v = e₀ v

/-- The miss of a probe leaves everything as it was but the delay. -/
theorem OnCourse.miss {run : Int32} {c₀ : Nat → Counters} {e₀ : Sites} {w d : Nat}
    (h : OnCourse hosts p run rest c₀ e₀ (.scan q w, c) e) (hw : w < p.nworkers) :
    OnCourse hosts p run rest c₀ e₀ (.scan q (w+1), c) (Function.update e w ((e w).miss d)) := by
  have habout : ∀ v (x : WorkerCode Int), AboutTo x (c v) (e v) →
      AboutTo x (c v) (Function.update e w ((e w).miss d) v) := by
    intro v x hx
    by_cases hv : v = w
    · subst hv
      rw [Function.update_self]
      exact ⟨⟨hx.1.sent, hx.1.received⟩, hx.2⟩
    · rw [Function.update_of_ne hv]
      exact hx
  obtain ⟨hunderway, hrun, hframe⟩ := h
  refine ⟨⟨hunderway.status, hunderway.count, hunderway.bound, hunderway.assigned, hunderway.idle,
    ?_, ?_⟩, hrun, ?_⟩
  · intro v hv hidle
    exact habout v _ (hunderway.waits v hv hidle)
  · intro v hv hbusy
    exact habout v _ (hunderway.holds v hv hbusy)
  · intro v hv
    have hne : v ≠ w := fun heq => hv (List.mem_range.mpr (heq ▸ hw))
    rw [Function.update_of_ne hne]
    exact hframe v hv

theorem busyFrom_skip {w : Nat} (hidle : q.busy w = false) :
    busyFrom p q (w+1) = busyFrom p q w := by
  rw [Bool.eq_iff_iff, busyFrom_iff, busyFrom_iff]
  constructor
  · intro hsome
    obtain ⟨v, hv, hle, hbusy⟩ := hsome
    exact ⟨v, hv, Nat.le_of_succ_le hle, hbusy⟩
  · intro hsome
    obtain ⟨v, hv, hle, hbusy⟩ := hsome
    refine ⟨v, hv, Nat.lt_of_le_of_ne hle ?_, hbusy⟩
    intro heq
    rw [← heq, hidle] at hbusy
    cases hbusy

theorem busyFrom_end {w : Nat} (hw : ¬w < p.nworkers) : busyFrom p q w = false := by
  rw [Bool.eq_false_iff]
  intro hsome
  obtain ⟨v, hv, hle, _⟩ := busyFrom_iff.mp hsome
  omega

section
variable {run : Int32} {c₀ : Nat → Counters} {e₀ : Sites}

abbrev Trusted (hosts : Nat → Host) (p : Params) (run : Int32) (rest : List Int32) (c₀ : Nat → Counters)
    (e₀ : Sites) (bound : Nat × Nat × Nat) : Prop :=
  ∀ l e, OnCourse hosts p run rest c₀ e₀ l e → Less (variant p l e) bound →
    Serves hosts p (LoopEnds hosts p run rest c₀ e₀) (enter l.1) l.2 e

/-- A probe that hits: the result is received and checked, and the next task goes out. -/
theorem collect_serves (hp : p.Admitted) {w : Nat}
    (h : OnCourse hosts p run rest c₀ e₀ (.scan q w, c) e) (hw : w < p.nworkers)
    (hbusy : q.busy w = true)
    (htrust : Trusted hosts p run rest c₀ e₀ (variant p (.scan q w, c) e)) :
    Serves hosts p (LoopEnds hosts p run rest c₀ e₀) (do
      match ← workloadRecvSmall w sizeofTaskqResult tagTaskqResult p.encrypt with
      | some (.taskqResult result) =>
        if !resultValid p q w result then failed q
        else
          match ← recvBulkMsg w p.payloadBytes.toNat tagTaskqOutput p.encrypt with
          | some (.octets output) =>
            if result.token ≠ referenceToken p q.run result.taskId then failed q
            else if !outputVerified p q.run result.taskId
              (referenceToken p q.run result.taskId) output then failed q
            else do
              let q ← dispatch p (q.complete w) w
              enter (.scan q (w+1))
          | _ => failed q
      | _ => failed q) c e := by
  obtain ⟨hunderway, hrun, hframe⟩ := h
  change Underway hosts p rest [] q c e at hunderway
  obtain ⟨result, output, hanswer, hvalid, houtput, htoken, hverified⟩ :=
    honest_answer (hosts w) hp q w rest
  have hholds := hunderway.holds w hw hbusy
  rw [hanswer] at hholds
  have hresult : (Payload.taskqResult result).size = sizeofTaskqResult := rfl
  refine Exchange.code_bind (workloadRecvSmall_meets hresult (by decide) _) hholds ?_
  intro r c₁ e₁ hr hafter₁ hframe₁
  subst hr
  simp only [hvalid, Bool.not_true, Bool.false_eq_true, if_false]
  refine Exchange.code_bind (recvBulkMsg_meets houtput hp.bulkFits _) hafter₁ ?_
  intro r c₂ e₂ hr hafter₂ hframe₂
  subst hr
  simp only [if_neg (not_not.mpr htoken), hverified, Bool.not_true, Bool.false_eq_true, if_false]
  have hframe₁₂ : ∀ v, v ≠ w → c₂ v = c v ∧ e₂ v = e v := by
    intro v hv
    rw [(hframe₂ v hv).1, (hframe₂ v hv).2]
    exact hframe₁ v hv
  have hcomplete := hunderway.complete hw hbusy hframe₁₂ hafter₂
  refine (dispatch_serves hp hcomplete hw (Function.update_self ..)).code_bind ?_
  intro q' c₃ e₃ hq'
  obtain ⟨hunderway', hrun', hcompleted', _, hframe₃⟩ := hq'
  refine htrust (.scan q' (w+1), c₃) e₃ ⟨hunderway', hrun'.trans hrun, ?_⟩ (.left _ _ ?_)
  · intro v hv
    have hne : v ≠ w := fun heq => hv (List.mem_range.mpr (heq ▸ hw))
    rw [(hframe₃ v hne).1, (hframe₃ v hne).2, (hframe₁₂ v hne).1, (hframe₁₂ v hne).2]
    exact hframe v hv
  · have hlen := (q.held_complete hw hbusy).length_eq
    have hcount := hunderway.count
    have hbound := hunderway.bound
    rw [List.length_cons] at hlen
    have hleft : q'.completed = q.completed+1 := hcompleted'
    simp only [Head.queue]
    omega

theorem scan_serves (hp : p.Admitted) {w : Nat}
    (h : OnCourse hosts p run rest c₀ e₀ (.scan q w, c) e)
    (htrust : Trusted hosts p run rest c₀ e₀ (variant p (.scan q w, c) e)) :
    Serves hosts p (LoopEnds hosts p run rest c₀ e₀) (scan p q w) c e := by
  rw [Serves, scan]
  by_cases hw : ¬w < p.nworkers
  · rw [if_neg hw]
    refine htrust (.test q, c) e ⟨h.underway, h.run_eq, h.frame⟩ (.right _ (.right _ ?_))
    simp only [headsToPoll, busyFrom_end hw, Bool.false_eq_true, if_false]
    omega
  have hw : w < p.nworkers := not_not.mp hw
  rw [if_pos hw]
  by_cases hbusy : !q.busy w
  · rw [if_pos hbusy]
    have hidle : q.busy w = false := by simpa using hbusy
    refine htrust (.scan q (w+1), c) e ⟨h.underway, h.run_eq, h.frame⟩ (.right _ (.right _ ?_))
    simp only [headsToPoll, busyFrom_skip hidle]
    omega
  rw [if_neg hbusy]
  have hbusy : q.busy w = true := by simpa using hbusy
  cases holds_next (h.underway.holds w hw hbusy) with
  | inr habort => exact Ensures.rendezvous_stopped (r := .nonceExhausted) rfl rfl habort.1 habort.2
  | inl hsends =>
    refine Ensures.rendezvous_poll hsends.1 hsends.2 trivial ?_ ?_
    · exact collect_serves hp h hw hbusy htrust
    · intro d hd
      refine htrust (.scan q (w+1), c) _ (h.miss hw) (.right _ (.left _ _ ?_))
      refine patience_miss hw ?_ ?_
      · intro v hv
        exact Function.update_of_ne hv ..
      · rw [Function.update_self]
        exact hd

/-- The loop of a run ends, with nothing failed and nothing left. -/
theorem loop_serves (hp : p.Admitted) {l : Head × (Nat → Counters)}
    (h : OnCourse hosts p run rest c₀ e₀ l e) :
    Serves hosts p (LoopEnds hosts p run rest c₀ e₀) (enter l.1) l.2 e := by
  refine Ensures.loop_variant (S := Party Nat Head Int) less_wf (variant p)
    (I := OnCourse hosts p run rest c₀ e₀) ?_ h
  intro l e h htrust
  obtain ⟨head, c⟩ := l
  refine ⟨⟨rest, h.underway⟩, ?_⟩
  cases head with
  | scan q w => exact scan_serves hp h htrust
  | test q =>
    change Serves hosts p (LoopEnds hosts p run rest c₀ e₀) (masterLoop p (.test q)) c e
    have hunderway : Underway hosts p rest [] q c e := h.underway
    rw [masterLoop]
    split
    · rename_i hgoes
      refine htrust (.scan q 0, c) e ⟨h.underway, h.run_eq, h.frame⟩ (.right _ (.right _ ?_))
      simp only [headsToPoll, hunderway.someone_busy hp hgoes.1, if_true]
      omega
    · rename_i hstop
      have hdone : ¬q.completed < p.taskCount.toNat := fun hlt => hstop ⟨hlt, hunderway.status⟩
      have hrun : q.run = run := h.run_eq
      refine .ret ⟨hunderway.status, ?_, h.frame⟩
      intro v hv
      have hv' := List.mem_range.mp hv
      have hwaits := hunderway.waits v hv' (hunderway.no_one_busy hdone v hv')
      rwa [hrun] at hwaits

theorem firstDispatch_serves (hp : p.Admitted) {pending : List Nat}
    (hpending : ∀ w ∈ pending, w < p.nworkers) (hnodup : pending.Nodup)
    (h : Underway hosts p rest pending q c e) (hfree : ∀ w ∈ pending, q.busy w = false) :
    Serves hosts p (fun q' c' e' => Underway hosts p rest [] q' c' e' ∧ q'.run = q.run ∧
      ∀ v, v ∉ pending → c' v = c v ∧ e' v = e v) (pending.foldlM (dispatch p) q) c e := by
  induction pending generalizing q c e with
  | nil => exact .ret ⟨h, rfl, fun v _ => ⟨rfl, rfl⟩⟩
  | cons w pending ih =>
    obtain ⟨hw, hnodup⟩ := List.nodup_cons.mp hnodup
    rw [List.foldlM_cons]
    refine (dispatch_serves hp h (hpending w List.mem_cons_self)
      (hfree w List.mem_cons_self)).code_bind ?_
    intro q' c' e' hq'
    obtain ⟨hunderway, hrun, _, hbusy, hframe⟩ := hq'
    refine (ih (fun v hv => hpending v (List.mem_cons_of_mem w hv)) hnodup hunderway ?_).mono ?_
    · intro v hv
      rw [hbusy v fun heq => hw (heq ▸ hv)]
      exact hfree v (List.mem_cons_of_mem w hv)
    · intro r e'' hr
      obtain ⟨hunderway', hrun', hframe'⟩ := hr
      refine ⟨hunderway', hrun'.trans hrun, ?_⟩
      intro v hv
      have hne : v ≠ w := fun heq => hv (heq ▸ List.mem_cons_self)
      have hmem : v ∉ pending := fun hmem => hv (List.mem_cons_of_mem w hmem)
      rw [(hframe' v hmem).1, (hframe' v hmem).2]
      exact hframe v hne

variable (hosts p) in
abbrev AllServed (x : MasterCode Int) (before after : Nat → WorkerCode Int) : Prop :=
  ServesAll (masterBody p) (InStep hosts p) p.nworkers x before (· = 0) after

theorem queue_serves (hp : p.Admitted) :
    AllServed hosts p (do
      let q ← (List.range p.nworkers).foldlM (dispatch p) (startQueue run)
      enter (.test q)) (fun w => working (hosts w) p run rest)
      (fun w => working (hosts w) p run rest) := by
  intro c e he
  have hstart : Underway hosts p rest (List.range p.nworkers) (startQueue run) c e := by
    refine ⟨rfl, ?_, Nat.zero_le _, ?_, ?_, ?_, ?_⟩
    · simp [startQueue, Queue.held]
    · intro v _ hbusy
      cases hbusy
    · intro v hv hpending _
      exact absurd (List.mem_range.mpr hv) hpending
    · intro v hv _
      exact he v (List.mem_range.mpr hv)
    · intro v _ hbusy
      cases hbusy
  refine (firstDispatch_serves hp (fun w hw => List.mem_range.mp hw) List.nodup_range hstart
    fun _ _ => rfl).code_bind ?_
  intro q c' e' hq
  exact loop_serves hp (l := (.test q, c')) ⟨hq.1, hq.2.1, hq.2.2⟩

theorem masterRun_serves (hp : p.Admitted) :
    AllServed hosts p (masterRun p run) (fun w => taskqRuns (hosts w) p (run::rest))
      (fun w => taskqRuns (hosts w) p rest) := by
  rw [masterRun]
  refine Exchanges.bind (S := Party Nat Head Int)
    (Exchanges.forEach List.nodup_range fun w _ => startRun_meets) ?_
  intro _ _
  rw [← bind_assoc]
  refine Exchanges.bind (queue_serves hp) ?_
  intro status hstatus
  subst hstatus
  simp only [ne_eq, not_true_eq_false, if_false]
  refine Exchanges.bind (S := Party Nat Head Int)
    (Exchanges.forEach List.nodup_range fun w _ => sendTaskqEnd_meets) ?_
  intro _ _
  exact Exchanges.pure (S := Party Nat Head Int) rfl fun _ _ _ _ hs => hs

/-- The whole workload ends with status 0, and the workers turn to the next command. -/
theorem runTaskqMaster_serves (hp : p.Admitted)
    (hbuild : ∀ w < p.nworkers, (hosts w).Permits p.encrypt) :
    AllServed hosts p (runTaskqMaster p) (fun w => enter (.commands (hosts w)))
      (fun w => enter (.commands (hosts w))) :=
  readyRuns_serve (fun w => workerRun (hosts w) (startCmd p))
    (fun w hw => serveCommand_taskq hp (hbuild w hw)) fun _ _ => masterRun_serves hp

end

end

end Taskq
end DistributedEnclave.Npb
