import DistributedEnclave.Npb.Kernels

/-! The dynamic task queue: `run_taskq_master` and `run_taskq_workload`. -/
namespace DistributedEnclave.Npb
open DistributedEnclave.Programs

def maxWorkers : Nat := 128
def maxRuns : Nat := 1000
def taskqMinBytes : UInt32 := 1
def taskqMaxBytes : UInt32 := 1048576
def taskqControlStart : Int32 := 1
def taskqTaskWork : Int32 := 1
def taskqTaskEnd : Int32 := 2

/-- The runs `1..num_runs` of a workload. -/
def runs (numRuns : Int32) : List Int32 :=
  (List.range' 1 numRuns.toInt.toNat).map Int32.ofNat

def taskInput (taskId : UInt64) (run : Int32) (payloadBytes : UInt32) : List UInt8 :=
  (List.range payloadBytes.toNat).map (taskInputByte taskId run)

def taskSamples (payloadBytes : UInt32) : List Nat :=
  [0, payloadBytes.toNat/2, payloadBytes.toNat-1]

namespace Taskq

structure Params where
  nworkers : Nat
  encrypt : Bool
  numRuns : Int32
  taskCount : UInt64
  payloadBytes : UInt32
  iterations : UInt64

structure Queue where
  run : Int32
  busy : Nat → Bool
  assignedTask : Nat → Nat
  nextTask : Nat
  completed : Nat
  status : Int

/-- The test of the `while` loop and the head of the `for` loop in it. -/
inductive Head where
  | test (q : Queue)
  | scan (q : Queue) (worker : Nat)

def Head.queue : Head → Queue
  | test q | scan q _ => q

end Taskq

open Taskq

abbrev MasterCode (A : Type) : Type := Code (Party Nat Head Int) Counters A

def waitForWorkloadReady (nworkers : Nat) (workload : Int32) (tag : Int32)
    (expectedCount : UInt64) : MasterCode Int :=
  untilFailure (fun worker => do
    match ← secureRecvMsg worker sizeofWorkloadReady tag with
    | some (.ready ready) =>
      if ready.workload ≠ workload ∨ ready.ok = 0 ∨ ready.elementCount ≠ expectedCount then
        pure (-1)
      else pure 0
    | _ => pure (-1)) (List.range nworkers)

namespace Taskq
variable (p : Params)

def sendTaskqWork (worker : Nat) (run : Int32) (taskId : UInt64) : MasterCode Unit := do
  let task : TaskqTask :=
    { command := taskqTaskWork
      run := run
      taskId := taskId
      iterations := p.iterations
      payloadBytes := p.payloadBytes }
  workloadSendSmall worker (.taskqTask task) tagTaskqTask p.encrypt
  sendBulkMsg worker (.octets (taskInput taskId run p.payloadBytes)) tagTaskqInput p.encrypt

def sendTaskqEnd (worker : Nat) (run : Int32) : MasterCode Unit :=
  let task : TaskqTask :=
    { command := taskqTaskEnd
      run := run
      taskId := UInt64.ofNat uint64Max
      iterations := 0
      payloadBytes := 0 }
  workloadSendSmall worker (.taskqTask task) tagTaskqTask p.encrypt

def Queue.assign (q : Queue) (worker : Nat) : Queue :=
  { q with
    assignedTask := Function.update q.assignedTask worker q.nextTask
    nextTask := q.nextTask+1
    busy := Function.update q.busy worker true }

def Queue.complete (q : Queue) (worker : Nat) : Queue :=
  { q with
    completed := q.completed+1
    busy := Function.update q.busy worker false }

/-- The dispatch that stands twice in the source: before the loop and after a result. -/
def dispatch (q : Queue) (worker : Nat) : MasterCode Queue :=
  if q.nextTask < p.taskCount.toNat then do
    sendTaskqWork p worker q.run (UInt64.ofNat q.nextTask)
    pure (q.assign worker)
  else pure q

def referenceToken (run : Int32) (taskId : UInt64) : UInt64 :=
  linearMapApply (buildXorshiftJump p.iterations) (taskInitialToken taskId run)

def outputVerified (run : Int32) (taskId token : UInt64) (output : List UInt8) : Bool :=
  (taskSamples p.payloadBytes).all (fun index =>
    output[index]? = some (taskOutputByte (taskInputByte taskId run index) token taskId index))

/-- The checks on a result before its output is received. -/
def resultValid (q : Queue) (worker : Nat) (result : TaskqResult) : Bool :=
  result.run = q.run && result.verified ≠ 0 &&
    result.taskId = UInt64.ofNat (q.assignedTask worker) &&
    result.payloadBytes = p.payloadBytes && result.computeMs.isfinite && !result.computeMs.lt 0

/-- `status = -1` and the `break` to the test of the `while` loop. -/
def failed (q : Queue) : MasterCode Int := enter (.test { q with status := -1 })

/-- One iteration of the `for` loop. -/
def scan (q : Queue) (worker : Nat) : MasterCode Int :=
  if worker < p.nworkers then
    if !q.busy worker then enter (.scan q (worker+1))
    else do
      let found ← mpiIprobe worker tagTaskqResult
      if !found then enter (.scan q (worker+1))
      else
        match ← workloadRecvSmall worker sizeofTaskqResult tagTaskqResult p.encrypt with
        | some (.taskqResult result) =>
          if !resultValid p q worker result then failed q
          else
            match ← recvBulkMsg worker p.payloadBytes.toNat tagTaskqOutput p.encrypt with
            | some (.octets output) =>
              if result.token ≠ referenceToken p q.run result.taskId then failed q
              else if !outputVerified p q.run result.taskId
                (referenceToken p q.run result.taskId) output then failed q
              else do
                let q ← dispatch p (q.complete worker) worker
                enter (.scan q (worker+1))
            | _ => failed q
        | _ => failed q
  else enter (.test q)

def masterLoop : Head → MasterCode Int
  | .test q =>
    if q.completed < p.taskCount.toNat ∧ q.status = 0 then enter (.scan q 0) else pure q.status
  | .scan q worker => scan p q worker

def masterBody (l : Head × (Nat → Counters)) :
    Prog (Party Nat Head Int) (Int × (Nat → Counters)) := masterLoop p l.1 l.2

def startQueue (run : Int32) : Queue where
  run := run
  busy _ := false
  assignedTask _ := 0
  nextTask := 0
  completed := 0
  status := 0

def masterRun (run : Int32) : MasterCode Int := do
  forEach (fun worker => workloadSendSmall worker (.taskqControl ⟨taskqControlStart, run⟩)
    tagTaskqControl p.encrypt) (List.range p.nworkers)
  let q ← (List.range p.nworkers).foldlM (dispatch p) (startQueue run)
  let status ← enter (.test q)
  if status ≠ 0 then pure status
  else do
    forEach (fun worker => sendTaskqEnd p worker run) (List.range p.nworkers)
    pure 0

def startCmd : NpbCmd where
  cmd := cmdNpbStart
  workload := workloadTaskq
  encryptData := if p.encrypt then 1 else 0
  numRuns := p.numRuns
  taskCount := p.taskCount
  taskBytes := p.payloadBytes
  taskIters := p.iterations

def runTaskqMaster : MasterCode Int := do
  forEach (fun worker => secureSendMsg worker (.cmd (startCmd p)) tagNpbCmd)
    (List.range p.nworkers)
  let ready ← waitForWorkloadReady p.nworkers workloadTaskq tagTaskqReady
    p.payloadBytes.toUInt64
  if ready ≠ 0 then pure (-1) else untilFailure (masterRun p) (runs p.numRuns)

end Taskq

/-- The head of the worker's command loop, and of the task loop of one run. Every worker keeps
its own machine. -/
inductive WorkerHead where
  | commands (host : Host)
  | tasks (host : Host) (cmd : NpbCmd) (run : Int32)

abbrev WorkerCode (A : Type) : Type := Code (Party Unit WorkerHead Int) Counters A

def sendWorkloadReady (workload ok : Int32) (elementCount : UInt64) (tag : Int32) :
    WorkerCode Unit :=
  secureSendMsg () (.ready ⟨workload, ok, elementCount⟩) tag

namespace Taskq
variable (host : Host)

def iteratedToken (task : TaskqTask) (run : Int32) : UInt64 :=
  xorshift64Step^[task.iterations.toNat] (taskInitialToken task.taskId run)

def taskOutput (task : TaskqTask) (run : Int32) (input : List UInt8) : List UInt8 :=
  input.mapIdx (fun i x => taskOutputByte x (iteratedToken task run) task.taskId i)

def taskVerified (cmd : NpbCmd) (task : TaskqTask) (run : Int32) (input : List UInt8) : Int32 :=
  let inputOk := (taskSamples cmd.taskBytes).all (fun index =>
    input[index]? = some (taskInputByte task.taskId run index))
  let outputOk := (taskSamples cmd.taskBytes).all (fun index =>
    (taskOutput task run input)[index]? = some (taskOutputByte
      (taskInputByte task.taskId run index) (iteratedToken task run) task.taskId index))
  if inputOk && outputOk then 1 else 0

def taskResult (cmd : NpbCmd) (task : TaskqTask) (run : Int32) (input : List UInt8) :
    TaskqResult where
  run := run
  verified := taskVerified cmd task run input
  taskId := task.taskId
  token := iteratedToken task run
  payloadBytes := task.payloadBytes
  computeMs := host.clock.ms (.taskq run task.taskId)

/-- One iteration of `while (1)`. -/
def taskLoop (cmd : NpbCmd) (run : Int32) : WorkerCode Int := do
  let encrypt := cmd.encryptData ≠ 0
  match ← workloadRecvSmall () sizeofTaskqTask tagTaskqTask encrypt with
  | some (.taskqTask task) =>
    if task.command = taskqTaskEnd then pure (if task.run ≠ run then -1 else 0)
    else if task.command ≠ taskqTaskWork ∨ task.run ≠ run ∨ task.taskId ≥ cmd.taskCount ∨
      task.payloadBytes ≠ cmd.taskBytes ∨ task.iterations ≠ cmd.taskIters then pure (-1)
    else
      match ← recvBulkMsg () cmd.taskBytes.toNat tagTaskqInput encrypt with
      | some (.octets input) => do
        workloadSendSmall () (.taskqResult (taskResult host cmd task run input))
          tagTaskqResult encrypt
        sendBulkMsg () (.octets (taskOutput task run input)) tagTaskqOutput encrypt
        enter (.tasks host cmd run)
      | _ => pure (-1)
  | _ => pure (-1)

def workerRun (cmd : NpbCmd) (run : Int32) : WorkerCode Int := do
  match ← workloadRecvSmall () sizeofTaskqControl tagTaskqControl (cmd.encryptData ≠ 0) with
  | some (.taskqControl control) =>
    if control.command ≠ taskqControlStart ∨ control.run ≠ run then pure (-1)
    else enter (.tasks host cmd run)
  | _ => pure (-1)

def runTaskqWorkload (cmd : NpbCmd) : WorkerCode Int :=
  if cmd.taskBytes < taskqMinBytes ∨ cmd.taskBytes > taskqMaxBytes ∨ cmd.taskCount = 0 ∨
    cmd.taskIters = 0 then do
    sendWorkloadReady workloadTaskq 0 0 tagTaskqReady
    pure (-1)
  else do
    sendWorkloadReady workloadTaskq 1 cmd.taskBytes.toUInt64 tagTaskqReady
    untilFailure (workerRun host cmd) (runs cmd.numRuns)

end Taskq

end DistributedEnclave.Npb
