import DistributedEnclave.Npb.Taskq

/-! The scripts of the other workloads and the main programs of both sides. -/
namespace DistributedEnclave.Npb
open DistributedEnclave.Programs

def streamMinMib : UInt32 := 1
def streamMaxMib : UInt32 := 128
def randomMinMib : UInt32 := 32
def randomMaxMib : UInt32 := 256
def vmapMinMib : UInt32 := 1
def vmapMaxMib : UInt32 := 128
def sizeofUint32 : Nat := 4

/-- The elements of a block whose size is given in MiB. -/
def elementCount (mib : UInt32) (size : Nat) : Nat := mib.toNat*mibBytes/size

/-- The arguments of the master and their defaults; as many workers enrol as are asked for. -/
structure Arguments where
  nworkers : Nat := 2
  numRuns : Int32 := 10
  encrypt : Bool := true
  workload : Int32 := workloadEp
  epN : Int64 := 67108864
  cgN : Nat := 14000
  cgNzpc : Nat := 11
  cgIters : Nat := 15
  streamArrayMib : UInt32 := 128
  streamWarmup : UInt32 := 2
  randomMib : UInt32 := 256
  randomAccesses : UInt64 := 50000000
  randomWarmupAccesses : UInt64 := 5000000
  vmapMib : UInt32 := 64
  taskCount : UInt64 := 0
  taskBytes : UInt32 := 64
  taskIters : UInt64 := 100000

section Master
variable (host : Host) (a : Arguments)

def Arguments.start (workload : Int32) : NpbCmd where
  cmd := cmdNpbStart
  workload := workload
  encryptData := if a.encrypt then 1 else 0
  numRuns := a.numRuns

def invalidTime (ms : Binary64) : Bool := !ms.isfinite || ms.lt 0

def epCmd : NpbCmd := { a.start workloadEp with epPairs := a.epN }

def epSeed (run : Int32) (worker : Nat) : Int64 := .ofInt (run.toInt*a.nworkers+worker)

def gatherEp (worker : Nat) : MasterCode Unit := do
  match ← workloadRecvSmall worker sizeofEpResult tagNpbEpResult a.encrypt with
  | some (.epResult result) =>
    if !epValid a.epN result then mpiAbort .fatal
    else
      match ← workloadRecvSmall worker sizeofDouble tagNpbTime a.encrypt with
      | some (.time ms) => if invalidTime ms then mpiAbort .fatal else pure ()
      | _ => mpiAbort .fatal
  | _ => mpiAbort .fatal

def epMasterRun (run : Int32) : MasterCode Unit := do
  forEach (fun worker => workloadSendSmall worker (.seed (epSeed a run worker)) tagNpbCmd a.encrypt)
    (List.range a.nworkers)
  forEach (gatherEp a) (List.range a.nworkers)

def runEpMaster : MasterCode Int := do
  forEach (fun worker => secureSendMsg worker (.cmd (epCmd a)) tagNpbCmd) (List.range a.nworkers)
  forEach (epMasterRun a) (runs a.numRuns)
  pure 0

def rowsPerWorker : Nat := a.cgN/a.nworkers

def rowStart (worker : Nat) : Nat := worker*rowsPerWorker a

def rowCount (worker : Nat) : Nat :=
  if worker = a.nworkers-1 then a.cgN-worker*rowsPerWorker a else rowsPerWorker a

def cgCmd (worker : Nat) : NpbCmd :=
  { a.start workloadCg with
    cgRows := .ofNat a.cgN
    cgRowStart := .ofNat (rowStart a worker)
    cgRowCount := .ofNat (rowCount a worker)
    cgN := .ofNat a.cgN
    cgNzpc := .ofNat a.cgNzpc
    cgIters := .ofNat a.cgIters }

/-- The row pointers of a worker's rows, counted from the first of them. -/
def localRowPtr (worker : Nat) : List Int32 :=
  let rowPtr := rowPtr a.cgN a.cgNzpc
  (List.range (rowCount a worker+1)).map (fun r =>
    rowPtr[rowStart a worker+r]?.getD 0 - rowPtr[rowStart a worker]?.getD 0)

def blockOf {α : Type} (worker : Nat) (l : List α) : List α :=
  let rowPtr := rowPtr a.cgN a.cgNzpc
  let first := (rowPtr[rowStart a worker]?.getD 0).toInt.toNat
  let last := (rowPtr[rowStart a worker+rowCount a worker]?.getD 0).toInt.toNat
  (l.drop first).take (last-first)

def startCg (worker : Nat) : MasterCode Unit := do
  secureSendMsg worker (.cmd (cgCmd a worker)) tagNpbCmd
  sendBulkMsg worker (.ints (localRowPtr a worker)) tagNpbCgMatrix a.encrypt
  sendBulkMsg worker (.ints (blockOf a worker (colIdx host a.cgN a.cgNzpc))) tagNpbCgMatrix
    a.encrypt
  sendBulkMsg worker (.doubles (blockOf a worker (val host a.cgN a.cgNzpc))) tagNpbCgMatrix
    a.encrypt

def gatherCg (y : List Binary64) (worker : Nat) : MasterCode (List Binary64) := do
  match ← recvBulkMsg worker (rowCount a worker*sizeofDouble) tagNpbCgY a.encrypt with
  | some (.doubles part) =>
    match ← workloadRecvSmall worker sizeofDouble tagNpbTime a.encrypt with
    | some (.time ms) =>
      if invalidTime ms then mpiAbort .fatal else pure (overwrite y (rowStart a worker) part)
    | _ => mpiAbort .fatal
  | _ => mpiAbort .fatal

def cgMasterIter (xy : List Binary64 × List Binary64) :
    MasterCode (List Binary64 × List Binary64) := do
  forEach (fun worker => sendBulkMsg worker (.doubles xy.1) tagNpbCgX a.encrypt)
    (List.range a.nworkers)
  let y ← (List.range a.nworkers).foldlM (gatherCg a) xy.2
  pure (normalized host xy.1 y, y)

def initialX : List Binary64 := List.replicate a.cgN (.ofRat 1 / .ofRat a.cgN)

/-- A run starts from the initial `x`; `y` is only written to. -/
def cgMasterRun (y : List Binary64) (_ : Int32) : MasterCode (List Binary64) := do
  let (_, y) ← (List.range a.cgIters).foldlM (fun xy _ => cgMasterIter host a xy) (initialX a, y)
  pure y

/-- `y` has not been initialised when the first run begins; its values are never used. -/
def runCgMaster : MasterCode Int :=
  if a.cgN = 0 ∨ a.cgNzpc = 0 ∨ a.cgN > intMax/a.cgNzpc then mpiAbort .fatal
  else do
    forEach (startCg host a) (List.range a.nworkers)
    let _ ← (runs a.numRuns).foldlM (cgMasterRun host a) (List.replicate a.cgN 0)
    pure 0

def streamCmd : NpbCmd :=
  { a.start workloadStream with
    streamArrayMib := a.streamArrayMib
    streamWarmup := a.streamWarmup }

def gatherStream (run : Int32) (worker : Nat) : MasterCode Int := do
  match ← workloadRecvSmall worker sizeofStreamResult tagStreamResult a.encrypt with
  | some (.streamResult result) =>
    if !streamValid (elementCount a.streamArrayMib sizeofDouble) run result then pure (-1)
    else pure 0
  | _ => pure (-1)

def streamMasterRun (run : Int32) : MasterCode Int := do
  forEach (fun worker => workloadSendSmall worker (.trigger { run := run }) tagStreamRun a.encrypt)
    (List.range a.nworkers)
  untilFailure (gatherStream a run) (List.range a.nworkers)

def runStreamMaster : MasterCode Int := do
  forEach (fun worker => secureSendMsg worker (.cmd (streamCmd a)) tagNpbCmd)
    (List.range a.nworkers)
  let ready ← waitForWorkloadReady a.nworkers workloadStream tagStreamReady
    (.ofNat (elementCount a.streamArrayMib sizeofDouble))
  if ready ≠ 0 then pure (-1) else untilFailure (streamMasterRun a) (runs a.numRuns)

def randomCmd : NpbCmd :=
  { a.start workloadRandom with
    randomMib := a.randomMib
    randomAccesses := a.randomAccesses
    randomWarmupAccesses := a.randomWarmupAccesses }

/-- The results of the workers, all of which have to report the token of the first. -/
def gatherRandom (run : Int32) : UInt32 → List Nat → MasterCode Int
  | _, [] => pure 0
  | expected, worker :: rest => do
    match ← workloadRecvSmall worker sizeofRandomResult tagRandomResult a.encrypt with
    | some (.randomResult result) =>
      if result.run ≠ run ∨ result.verified = 0 ∨ invalidTime result.computeMs ∨
        (worker > 0 ∧ result.finalToken ≠ expected) then pure (-1)
      else gatherRandom run (if worker = 0 then result.finalToken else expected) rest
    | _ => pure (-1)

def randomMasterRun (run : Int32) : MasterCode Int := do
  forEach (fun worker => workloadSendSmall worker (.trigger { run := run }) tagRandomRun a.encrypt)
    (List.range a.nworkers)
  gatherRandom a run 0 (List.range a.nworkers)

def runRandomMaster : MasterCode Int := do
  forEach (fun worker => secureSendMsg worker (.cmd (randomCmd a)) tagNpbCmd)
    (List.range a.nworkers)
  let ready ← waitForWorkloadReady a.nworkers workloadRandom tagRandomReady
    (.ofNat (elementCount a.randomMib sizeofUint32))
  if ready ≠ 0 then pure (-1) else untilFailure (randomMasterRun a) (runs a.numRuns)

def vmapCmd : NpbCmd := { a.start workloadVmap with vmapMib := a.vmapMib }

def gatherVmap (run : Int32) (worker : Nat) : MasterCode Int := do
  let n := elementCount a.vmapMib sizeofDouble
  match ← recvBulkMsg worker (a.vmapMib.toNat*mibBytes) tagVmapOutput a.encrypt with
  | some (.doubles output) =>
    match ← workloadRecvSmall worker sizeofVmapResult tagVmapResult a.encrypt with
    | some (.vmapResult result) =>
      if !vmapValid n run result then pure (-1)
      else if !samplesMatch (vmapInput n) output n then pure (-1)
      else pure 0
    | _ => pure (-1)
  | _ => pure (-1)

def vmapMasterRun (run : Int32) : MasterCode Int := do
  forEach (fun worker => sendBulkMsg worker
    (.doubles (vmapInput (elementCount a.vmapMib sizeofDouble))) tagVmapInput a.encrypt)
    (List.range a.nworkers)
  untilFailure (gatherVmap a run) (List.range a.nworkers)

def runVmapMaster : MasterCode Int :=
  if a.vmapMib.toNat*mibBytes%sizeofDouble ≠ 0 then pure (-1)
  else do
    forEach (fun worker => secureSendMsg worker (.cmd (vmapCmd a)) tagNpbCmd)
      (List.range a.nworkers)
    let ready ← waitForWorkloadReady a.nworkers workloadVmap tagVmapReady
      (.ofNat (elementCount a.vmapMib sizeofDouble))
    if ready ≠ 0 then pure (-1) else untilFailure (vmapMasterRun a) (runs a.numRuns)

/-- The arguments of `run_taskq_master`; a task count of 0 stands for 100 a worker. -/
def taskqParams : Taskq.Params where
  nworkers := a.nworkers
  encrypt := a.encrypt
  numRuns := a.numRuns
  taskCount := if a.taskCount = 0 then 100*.ofNat a.nworkers else a.taskCount
  payloadBytes := a.taskBytes
  iterations := a.taskIters

def runWorkload : MasterCode Int :=
  if a.workload = workloadEp then runEpMaster a
  else if a.workload = workloadCg then runCgMaster host a
  else if a.workload = workloadStream then runStreamMaster a
  else if a.workload = workloadRandom then runRandomMaster a
  else if a.workload = workloadVmap then runVmapMaster a
  else if a.workload = workloadTaskq then Taskq.runTaskqMaster (taskqParams a)
  else pure 0

/-- The benchmark phase and the shutdown of `main`. -/
def masterMain : MasterCode Unit := do
  let status ← runWorkload host a
  if status ≠ 0 then mpiAbort .fatal
  else
    forEach (fun worker => secureSendMsg worker (.cmd { cmd := cmdNpbDone }) tagNpbCmd)
      (List.range a.nworkers)

end Master

section Worker
variable (host : Host)

def epWorkerRun (cmd : NpbCmd) (run : Int32) : WorkerCode Int := do
  let encrypt := cmd.encryptData ≠ 0
  match ← workloadRecvSmall () sizeofSeed tagNpbCmd encrypt with
  | some (.seed seed) => do
    workloadSendSmall () (.epResult (epCompute host.libm cmd.epPairs seed)) tagNpbEpResult encrypt
    workloadSendSmall () (.time (host.clock.ms (.ep run))) tagNpbTime encrypt
    pure 0
  | _ => pure (-1)

def cgWorkerIter (cmd : NpbCmd) (rowPtr cols : List Int32) (vals : List Binary64) (run : Int32)
    (iter : Nat) : WorkerCode Int := do
  let encrypt := cmd.encryptData ≠ 0
  match ← recvBulkMsg () (cmd.cgN.toInt.toNat*sizeofDouble) tagNpbCgX encrypt with
  | some (.doubles x) => do
    let y := spmvKernel cmd.cgRowCount.toInt.toNat rowPtr cols vals x
    sendBulkMsg () (.doubles y) tagNpbCgY encrypt
    workloadSendSmall () (.time (host.clock.ms (.cg run iter))) tagNpbTime encrypt
    pure 0
  | _ => pure (-1)

/-- The branch of `main` up to `cg_done`; the status is -1 where `cg_failed` is set. -/
def runCgWorkload (cmd : NpbCmd) : WorkerCode Int := do
  let encrypt := cmd.encryptData ≠ 0
  let nrows := cmd.cgRowCount.toInt
  if nrows < 0 ∨ cmd.cgN.toInt ≤ 0 ∨ cmd.cgIters.toInt ≤ 0 ∨ cmd.numRuns.toInt ≤ 0 then pure (-1)
  else
    match ← recvBulkMsg () ((nrows.toNat+1)*sizeofInt) tagNpbCgMatrix encrypt with
    | some (.ints rowPtr) =>
      let nnz := (rowPtr[nrows.toNat]?.getD 0).toInt
      if nnz < 0 then pure (-1)
      else
        match ← recvBulkMsg () (nnz.toNat*sizeofInt) tagNpbCgMatrix encrypt with
        | some (.ints cols) =>
          match ← recvBulkMsg () (nnz.toNat*sizeofDouble) tagNpbCgMatrix encrypt with
          | some (.doubles vals) =>
            untilFailure (fun run => untilFailure (cgWorkerIter host cmd rowPtr cols vals run)
              (List.range cmd.cgIters.toInt.toNat)) (runs cmd.numRuns)
          | _ => pure (-1)
        | _ => pure (-1)
    | _ => pure (-1)

def streamWorkerRun (cmd : NpbCmd) (run : Int32) : WorkerCode Int := do
  match ← workloadRecvSmall () sizeofRunTrigger tagStreamRun (cmd.encryptData ≠ 0) with
  | some (.trigger trigger) =>
    if trigger.run ≠ run then pure (-1)
    else do
      workloadSendSmall () (.streamResult (streamResult host.clock
        (elementCount cmd.streamArrayMib sizeofDouble) run)) tagStreamResult (cmd.encryptData ≠ 0)
      pure 0
  | _ => pure (-1)

/-- The warm-up passes leave in `a` what every run leaves there. -/
def runStreamWorkload (cmd : NpbCmd) : WorkerCode Int :=
  if cmd.streamArrayMib < streamMinMib ∨ cmd.streamArrayMib > streamMaxMib ∨
    cmd.streamArrayMib.toNat*mibBytes%sizeofDouble ≠ 0 then do
    sendWorkloadReady workloadStream 0 0 tagStreamReady
    pure (-1)
  else do
    sendWorkloadReady workloadStream 1 (.ofNat (elementCount cmd.streamArrayMib sizeofDouble))
      tagStreamReady
    untilFailure (streamWorkerRun host cmd) (runs cmd.numRuns)

def randomWorkerRun (cmd : NpbCmd) (chase : Chase) (run : Int32) : WorkerCode Int := do
  match ← workloadRecvSmall () sizeofRunTrigger tagRandomRun (cmd.encryptData ≠ 0) with
  | some (.trigger trigger) =>
    if trigger.run ≠ run then pure (-1)
    else do
      workloadSendSmall () (.randomResult (randomResult host.clock chase cmd.randomAccesses run))
        tagRandomResult (cmd.encryptData ≠ 0)
      pure 0
  | _ => pure (-1)

def runRandomWorkload (cmd : NpbCmd) : WorkerCode Int :=
  let n := elementCount cmd.randomMib sizeofUint32
  if cmd.randomMib < randomMinMib ∨ cmd.randomMib > randomMaxMib ∨ cmd.randomAccesses = 0 ∨
    cmd.randomMib.toNat*mibBytes%sizeofUint32 ≠ 0 ∨ n = 0 ∨ n > 0xFFFFFFFF then do
    sendWorkloadReady workloadRandom 0 0 tagRandomReady
    pure (-1)
  else
    let chase := prepareChase n cmd.randomAccesses cmd.randomWarmupAccesses
    if chase.warmToken ≠ chase.expectedWarmToken then do
      sendWorkloadReady workloadRandom 0 0 tagRandomReady
      pure (-1)
    else do
      sendWorkloadReady workloadRandom 1 (.ofNat n) tagRandomReady
      untilFailure (randomWorkerRun host cmd chase) (runs cmd.numRuns)

def vmapWorkerRun (cmd : NpbCmd) (run : Int32) : WorkerCode Int := do
  let encrypt := cmd.encryptData ≠ 0
  match ← recvBulkMsg () (cmd.vmapMib.toNat*mibBytes) tagVmapInput encrypt with
  | some (.doubles input) => do
    sendBulkMsg () (.doubles (input.map vmapTransform)) tagVmapOutput encrypt
    workloadSendSmall () (.vmapResult (vmapResult host.clock
      (elementCount cmd.vmapMib sizeofDouble) run input)) tagVmapResult encrypt
    pure 0
  | _ => pure (-1)

def runVmapWorkload (cmd : NpbCmd) : WorkerCode Int :=
  if cmd.vmapMib < vmapMinMib ∨ cmd.vmapMib > vmapMaxMib ∨
    cmd.vmapMib.toNat*mibBytes%sizeofDouble ≠ 0 then do
    sendWorkloadReady workloadVmap 0 0 tagVmapReady
    pure (-1)
  else do
    sendWorkloadReady workloadVmap 1 (.ofNat (elementCount cmd.vmapMib sizeofDouble)) tagVmapReady
    untilFailure (vmapWorkerRun host cmd) (runs cmd.numRuns)

def afterWorkload (status : Int) : WorkerCode Int :=
  if status ≠ 0 then pure 0 else enter (.commands host)

def serveCommand (cmd : NpbCmd) : WorkerCode Int :=
  if cmd.cmd = cmdNpbDone then pure 0
  else if !host.skipAttestation ∧ cmd.cmd = cmdNpbStart ∧ cmd.encryptData = 0 then pure 0
  else if cmd.cmd = cmdNpbStart ∧ cmd.workload = workloadEp then do
    -- a seed that cannot be read ends the runs, not the command loop
    let _ ← untilFailure (epWorkerRun host cmd) (runs cmd.numRuns)
    enter (.commands host)
  else if cmd.cmd = cmdNpbStart ∧ cmd.workload = workloadCg then
    runCgWorkload host cmd >>= afterWorkload host
  else if cmd.cmd = cmdNpbStart ∧ cmd.workload = workloadStream then
    runStreamWorkload host cmd >>= afterWorkload host
  else if cmd.cmd = cmdNpbStart ∧ cmd.workload = workloadRandom then
    runRandomWorkload host cmd >>= afterWorkload host
  else if cmd.cmd = cmdNpbStart ∧ cmd.workload = workloadVmap then
    runVmapWorkload host cmd >>= afterWorkload host
  else if cmd.cmd = cmdNpbStart ∧ cmd.workload = workloadTaskq then
    Taskq.runTaskqWorkload host cmd >>= afterWorkload host
  else pure 0

def commandLoop : WorkerCode Int := do
  match ← secureRecvMsg () sizeofNpbCmd tagNpbCmd with
  | some (.cmd cmd) => serveCommand host cmd
  | _ => pure 0

def workerBody (l : WorkerHead × (Unit → Counters)) :
    Prog (Party Unit WorkerHead Int) (Int × (Unit → Counters)) :=
  match l.1 with
  | .commands host => commandLoop host l.2
  | .tasks host cmd run => Taskq.taskLoop host cmd run l.2

end Worker

end DistributedEnclave.Npb
