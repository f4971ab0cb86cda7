import DistributedEnclave.Bench.Channel

/-! The benchmark phase of the DGEMM programs: the sizes and runs of the master, the command loop
of the workers, and the shutdown. -/
namespace DistributedEnclave.Bench
open CheckedInts Npb Octets Programs

def maxSizes : Nat := 32
def maxResults : Nat := maxSizes*1000
def randMax : Int := 2147483647

/-- What a worker takes from its machine. The time measured may depend on the command, which is
the `served`-th, and on the run. -/
structure Host where
  ms : Nat → Int → Binary64
  isfinite : ∀ served run, (ms served run).isfinite = true
  nonneg : ∀ served run, (ms served run).lt 0 = false
  memory : Nat → Binary64
  allocates : Int → Bool

structure Arguments where
  target : Int := 2
  numRuns : Int := 10
  encrypt : Bool := true
  verify : Bool := false
  sizes : List Int := []
  csvFile : Bytes

structure BenchResult where
  matrixSize : Int
  numWorkers : Int
  encrypted : Bool
  run : Int
  tScatterMs : Binary64
  tComputeMaxMs : Binary64
  tGatherMs : Binary64
  tRoundMs : Binary64
  tCommMs : Binary64

/-- What the master takes from its machine: the values that `rand` returns after `srand`, the
three times taken in a run of a size, the heap, for which sizes it yields the matrices, and
whether the results file can be written. -/
structure Machine where
  rand : Int → Nat → Int
  wtime : Nat → Int → Binary64 × Binary64 × Binary64
  memory : Nat → Binary64
  allocates : Nat → Bool
  writes : List BenchResult → Bool

abbrev MasterCode (A : Type) : Type := Code (Party Nat Empty Unit) Counters A

abbrev WorkerCode (A : Type) : Type := Code (Party Unit (Host × Nat) Int) Counters A

/-- An `int` overflow or an access outside of an array is undefined; here it ends the job. -/
def checked {P L R A : Type} (x : Checked A) : Code (Party P L R) Counters A :=
  match x with
  | .ok a => pure a
  | .error _ => mpiAbort .fatal

def runsUpTo (numRuns : Int) : List Int := (List.range numRuns.toNat).map (fun (i : Nat) => i+1)

section Worker

def Host.allocateMatrix (host : Host) (elements : Int) : Option (List Binary64) :=
  if elements > (18446744073709551615 : Int)/8 then none
  else if host.allocates elements then some (table elements.toNat host.memory)
  else none

def workerStep (host : Host) (served : Nat) (cmd : BenchCmd) (aElems bElems : Int)
    (CBlock : List Binary64) (run : Int) : WorkerCode (List Binary64) := do
  let encrypt := cmd.encryptData ≠ 0
  match ← recvMatrix () aElems tagBenchA encrypt with
  | some (.doubles ABlock) =>
    match ← recvMatrix () bElems tagBenchB encrypt with
    | some (.doubles B) => do
      let CBlock ← checked (ppdpcDgemm ABlock B CBlock cmd.rowCount cmd.matrixSize cmd.matrixSize)
      sendMatrix () CBlock tagBenchC encrypt
      workloadSendSmall () (.time (host.ms served run)) tagBenchTime encrypt
      pure CBlock
    | _ => mpiAbort .fatal
  | _ => mpiAbort .fatal

/-- A command: the shutdown, a size, or one that is refused, which also ends the loop. -/
def serveCommand (host : Host) (served : Nat) (cmd : BenchCmd) : WorkerCode Int :=
  if cmd.cmd = cmdBenchDone then pure 0
  else if !validCmd cmd then pure 0
  else
    let aElems := sizeT (sizeT cmd.rowCount*sizeT cmd.matrixSize)
    let bElems := sizeT (sizeT cmd.matrixSize*sizeT cmd.matrixSize)
    match host.allocateMatrix aElems, host.allocateMatrix bElems, host.allocateMatrix aElems with
    | some _, some _, some CBlock => do
      let _ ← (runsUpTo cmd.numRuns).foldlM (workerStep host served cmd aElems bElems) CBlock
      enter (host, served+1)
    | _, _, _ => mpiAbort .fatal

def commandLoop (host : Host) (served : Nat) : WorkerCode Int := do
  match ← secureRecv () sizeofBenchCmd tagBenchCmd with
  | some (.octets l) => serveCommand host served (readBenchCmd l)
  | _ => pure 0

def workerBody (l : (Host × Nat) × (Unit → Counters)) :
    Prog (Party Unit (Host × Nat) Int) (Int × (Unit → Counters)) :=
  commandLoop l.1.1 l.1.2 l.2

end Worker

section Master
variable (machine : Machine) (a : Arguments) (nworkers : Nat)

/-- `(double)rand() / RAND_MAX * 2.0 - 1.0` -/
def randomEntry (value : Int) : Binary64 :=
  .ofRat value / .ofRat randMax * .ofRat 2 - .ofRat 1

/-- The entries of the two matrices are drawn in turn. -/
def Machine.matrixA (M : Int) (i : Nat) : Binary64 := randomEntry (machine.rand (42+M) (2*i))
def Machine.matrixB (M : Int) (i : Nat) : Binary64 := randomEntry (machine.rand (42+M) (2*i+1))

def sendCommand (M : Int) (w : Nat) : MasterCode Unit := do
  let cmd ← checked (benchCmd M nworkers a.encrypt a.numRuns w)
  secureSend w (.octets cmd.octets) tagBenchCmd

def scatter (M : Int) (A B : List Binary64) (w : Nat) : MasterCode Unit := do
  let cmd ← checked (benchCmd M nworkers a.encrypt a.numRuns w)
  let aElems ← checked (int (cmd.rowCount*M))
  let ABlock ← checked (region A (sizeT (sizeT cmd.rowStart*sizeT M)) aElems)
  sendMatrix w ABlock tagBenchA a.encrypt
  let whole ← checked (region B 0 (sizeT (sizeT M*sizeT M)))
  sendMatrix w whole tagBenchB a.encrypt

def gather (M : Int) (acc : List Binary64 × Binary64) (w : Nat) :
    MasterCode (List Binary64 × Binary64) := do
  let cmd ← checked (benchCmd M nworkers a.encrypt a.numRuns w)
  let cElems ← checked (int (cmd.rowCount*M))
  match ← recvMatrix w cElems tagBenchC a.encrypt with
  | some (.doubles CBlock) => do
    let C ← checked (storeRegion acc.1 (sizeT (sizeT cmd.rowStart*sizeT M)) CBlock)
    match ← workloadRecvSmall w sizeofDouble tagBenchTime a.encrypt with
    | some (.time ms) =>
      if !ms.isfinite || ms.lt 0 then mpiAbort .fatal
      else pure (C, if acc.2.lt ms then ms else acc.2)
    | _ => mpiAbort .fatal
  | _ => mpiAbort .fatal

/-- The record of a run; `times` are those before and after the scatter and after the gather. -/
def benchResult (M run : Int) (times : Binary64 × Binary64 × Binary64) (tComputeMax : Binary64) :
    BenchResult :=
  let tRound := (times.2.2-times.1)*.ofRat 1000
  { matrixSize := M
    numWorkers := nworkers
    encrypted := a.encrypt
    run := run
    tScatterMs := (times.2.1-times.1)*.ofRat 1000
    tComputeMaxMs := tComputeMax
    tGatherMs := (times.2.2-times.2.1)*.ofRat 1000
    tRoundMs := tRound
    tCommMs := tRound-tComputeMax }

/-- `g_results`, which takes no more than it has room for. -/
def storeResult (results : List BenchResult) (r : BenchResult) : List BenchResult :=
  if results.length < maxResults then results ++ [r] else results

def masterRun (si : Nat) (M : Int) (A B : List Binary64) (st : List Binary64 × List BenchResult)
    (run : Int) : MasterCode (List Binary64 × List BenchResult) := do
  forEach (scatter a nworkers M A B) (List.range nworkers)
  let (C, tComputeMax) ← (List.range nworkers).foldlM (gather a nworkers M) (st.1, 0)
  if a.verify && run = a.numRuns then checked (verifyAll M nworkers A B exceeds C) else pure ()
  pure (C, storeResult st.2 (benchResult a nworkers M run (machine.wtime si run) tComputeMax))

/-- All runs of the `si`-th size, which is passed over if its rows cannot be divided evenly or
there is no memory for its matrices. -/
def benchSize (results : List BenchResult) (size : Int × Nat) : MasterCode (List BenchResult) :=
  let M := size.1
  if M%nworkers ≠ 0 then pure results
  else if sizeT (sizeT M*sizeT M) > maxInt then pure results
  else if !machine.allocates size.2 then pure results
  else do
    let elems := (sizeT (sizeT M*sizeT M)).toNat
    let A := table elems (machine.matrixA M)
    let B := table elems (machine.matrixB M)
    forEach (sendCommand a nworkers M) (List.range nworkers)
    let (_, results) ← (runsUpTo a.numRuns).foldlM (masterRun machine a nworkers size.2 M A B)
      (table elems machine.memory, results)
    pure results

def doneCmd : BenchCmd where
  cmd := cmdBenchDone
  matrixSize := 0
  rowStart := 0
  rowCount := 0
  encryptData := 0
  numRuns := 0

def shutdown : MasterCode Unit :=
  forEach (fun w => secureSend w (.octets doneCmd.octets) tagBenchCmd) (List.range nworkers)

/-- `main` after the enrollment: its status and the results. Where workers are missing they are
only shut down. -/
def masterMain : MasterCode (Int × List BenchResult) :=
  if (nworkers : Int) ≠ a.target then do
    shutdown nworkers
    pure (1, [])
  else do
    let results ← a.sizes.zipIdx.foldlM (benchSize machine a nworkers) []
    shutdown nworkers
    pure (if machine.writes results then 0 else 1, results)

end Master

end DistributedEnclave.Bench
