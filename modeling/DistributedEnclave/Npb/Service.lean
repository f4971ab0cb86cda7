import DistributedEnclave.Npb.Benchmarks
import DistributedEnclave.Npb.Duality

/-! Honest workers under the scripts of the master: at every action of the one the other side
takes the matching one. -/
namespace DistributedEnclave.Npb
open DistributedEnclave.Programs
open Taskq (Head)

/-- What the argument checks of the master admit; as many workers have enrolled as were asked
for. -/
structure Arguments.Admitted (a : Arguments) : Prop where
  workers : 0 < a.nworkers ∧ a.nworkers ≤ maxWorkers
  runs : 1 ≤ a.numRuns.toInt ∧ a.numRuns.toInt ≤ maxRuns
  workload : a.workload ∈
    [workloadEp, workloadCg, workloadStream, workloadRandom, workloadVmap, workloadTaskq]
  epN : 1 ≤ a.epN.toInt ∧ a.epN.toInt*a.nworkers ≤ 2^63-1
  cgN : 0 < a.cgN ∧ a.cgN < intMax
  cgNzpc : 0 < a.cgNzpc ∧ a.cgN*a.cgNzpc ≤ intMax
  cgIters : 0 < a.cgIters ∧ a.cgIters ≤ intMax
  streamArrayMib : streamMinMib ≤ a.streamArrayMib ∧ a.streamArrayMib ≤ streamMaxMib
  randomMib : randomMinMib ≤ a.randomMib ∧ a.randomMib ≤ randomMaxMib
  randomAccesses : 0 < a.randomAccesses.toNat
  vmapMib : vmapMinMib ≤ a.vmapMib ∧ a.vmapMib ≤ vmapMaxMib
  taskBytes : taskqMinBytes ≤ a.taskBytes ∧ a.taskBytes ≤ taskqMaxBytes
  taskIters : 0 < a.taskIters.toNat

/-- The bulk messages of CG fit. Those of the other workloads always do. -/
structure Arguments.CgFits (a : Arguments) : Prop where
  vector : BulkFits a.encrypt (a.cgN*sizeofDouble)
  rowPtr : ∀ w < a.nworkers, BulkFits a.encrypt ((rowCount a w+1)*sizeofInt)
  vals : ∀ w < a.nworkers, BulkFits a.encrypt (rowCount a w*a.cgNzpc*sizeofDouble)

abbrev Sites : Type := Nat → Site (Party Unit WorkerHead Int) (Int × (Unit → Counters))

abbrev workers : Fabric (Party Nat Head Int) (Party Unit WorkerHead Int) :=
  fabric Head Int workerBody

theorem commands_settle (host : Host) (t : Unit → Counters) :
    ((enter (.commands host) : WorkerCode Int) t).settle workerBody =
      (commandLoop host t).settle workerBody := by
  change ((commandLoop host t).bind .ret) = _
  rw [Prog.bind_ret]
  rfl

/-- A worker serves plaintext commands only where it skips attestation. -/
def Host.Permits (host : Host) (encrypt : Bool) : Prop :=
  encrypt = false → host.skipAttestation = true

abbrev encryptFlag (encrypt : Bool) : Int32 := if encrypt then 1 else 0

theorem encrypts (encrypt : Bool) : decide (encryptFlag encrypt ≠ 0) = encrypt := by
  cases encrypt <;> rfl

theorem Host.Permits.plain {host : Host} {encrypt : Bool} (h : host.Permits encrypt)
    (hzero : encryptFlag encrypt = 0) : host.skipAttestation = true := by
  cases encrypt with
  | true => cases hzero
  | false => exact h rfl

/-- Every worker is about to read a command, at the other end of the master's counters, and may
serve what it will be asked for. -/
structure Attending (hosts : Nat → Host) (nworkers : Nat) (encrypt : Bool) (c : Nat → Counters)
    (e : Sites) : Prop where
  permits : ∀ w < nworkers, (hosts w).Permits encrypt
  ready : ∀ w ∈ List.range nworkers, (e w).Runs workers (enter (.commands (hosts w)) (c w).mirror)

/-- The counters also agree with what the channels have carried, and there are no others. -/
structure Accounted (hosts : Nat → Host) (nworkers : Nat) (encrypt : Bool) (c : Nat → Counters)
    (e : Sites) : Prop extends Attending hosts nworkers encrypt c e where
  carried : ∀ w ∈ List.range nworkers, Carried (c w) (e w)
  silent : ∀ w, nworkers ≤ w → (e w).taken = [] ∧ (e w).given = []

/-- Every channel has nonces for more than `n` messages in each direction. -/
def HasRoom (nworkers n : Nat) (c : Nat → Counters) : Prop :=
  ∀ w < nworkers, (c w).sendNonceCtr+n < uint64Max ∧ (c w).recvNonceCtr+n < uint64Max

theorem sealedCount_grown {l l' more : List Envelope} {n : Nat} (h : l' = l ++ more)
    (hn : more.length ≤ n) : sealedCount l' ≤ sealedCount l+n := by
  rw [h, sealedCount_append]
  exact Nat.add_le_add_left (List.countP_le_length.trans hn) _

/-- Within that number of messages no process runs out. -/
theorem Accounted.not_out {hosts : Nat → Host} {nworkers n : Nat} {encrypt : Bool}
    {c : Nat → Counters} {e e' : Sites} (he : Accounted hosts nworkers encrypt c e)
    (hpos : 0 < nworkers) (hroom : HasRoom nworkers n c)
    (hgrown : Grown (S := Party Nat Head Int) e e' n) (q : Option Nat) (r : Reason) :
    ¬RanOut q r e' := by
  have hsilent : ∀ l l' : List Envelope, l' = [] ++ l → l.length ≤ n →
      sealedCount l' < uint64Max := by
    intro l l' hl hn
    have hle := sealedCount_grown hl hn
    have hnil : sealedCount [] = 0 := rfl
    have := (hroom 0 hpos).1
    omega
  intro hout
  cases q with
  | none =>
    obtain ⟨_, w, hmax⟩ := hout
    obtain ⟨l, hl, hn⟩ := hgrown.taken w
    by_cases hw : w < nworkers
    · have hle := sealedCount_grown hl hn
      rw [← (he.carried w (List.mem_range.mpr hw)).sent] at hle
      have := (hroom w hw).1
      omega
    · have hw := Nat.not_lt.mp hw
      exact (hsilent l _ ((he.silent w hw).1 ▸ hl) hn).ne hmax
  | some w =>
    obtain ⟨_, hmax⟩ := hout
    obtain ⟨l, hl, hn⟩ := hgrown.given w
    by_cases hw : w < nworkers
    · have hle := sealedCount_grown hl hn
      rw [← (he.carried w (List.mem_range.mpr hw)).received] at hle
      have := (hroom w hw).2
      omega
    · have hw := Nat.not_lt.mp hw
      exact (hsilent l _ ((he.silent w hw).2 ▸ hl) hn).ne hmax

section
variable {host : Host} {cmd : NpbCmd}
  {body : (Party Nat Head Int).Loop → Prog (Party Nat Head Int) (Party Nat Head Int).Result}
  {I : (Party Nat Head Int).Loop → Sites → Prop}

abbrev AboutTo (x : WorkerCode Int) :
    Counters → Site (Party Unit WorkerHead Int) (Int × (Unit → Counters)) → Prop :=
  Stands workers Carried Counters.mirror x

variable (body I) in
abbrev ServesAll {A : Type} (n : Nat) (x : MasterCode A) (before : Nat → WorkerCode Int)
    (good : A → Prop) (after : Nat → WorkerCode Int) : Prop :=
  Exchanges workers body (Matched workers I) RanOut (List.range n)
    (fun w => AboutTo (before w)) x good (fun _ w => AboutTo (after w))

theorem command_meets {w : Nat} :
    Meets body workerBody I w (secureSendMsg w (.cmd cmd) tagNpbCmd) (enter (.commands host))
      (fun _ => True) (fun _ => serveCommand host cmd) := by
  refine Exchange.of_settle (commands_settle host) ?_
  have hsize : (Payload.cmd cmd).size = sizeofNpbCmd := rfl
  exact secureSendMsg_meets hsize (by decide) _

theorem serveCommand_done : serveCommand host { cmd := cmdNpbDone } = pure 0 := rfl

/-- A start command that the build of the worker does not rule out. -/
theorem serveCommand_start (workload : Int32) (hcmd : cmd.cmd = cmdNpbStart)
    (hworkload : cmd.workload = workload)
    (hplain : cmd.encryptData = 0 → host.skipAttestation = true) :
    serveCommand host cmd =
      if workload = workloadEp then do
        let _ ← untilFailure (epWorkerRun host cmd) (runs cmd.numRuns)
        enter (.commands host)
      else if workload = workloadCg then runCgWorkload host cmd >>= afterWorkload host
      else if workload = workloadStream then
        runStreamWorkload host cmd >>= afterWorkload host
      else if workload = workloadRandom then
        runRandomWorkload host cmd >>= afterWorkload host
      else if workload = workloadVmap then runVmapWorkload host cmd >>= afterWorkload host
      else if workload = workloadTaskq then
        Taskq.runTaskqWorkload host cmd >>= afterWorkload host
      else pure 0 := by
  have hdone : ¬cmdNpbStart = cmdNpbDone := by decide
  have hplain : ¬(¬host.skipAttestation = true ∧ cmd.encryptData = 0) := by
    intro ⟨hskip, hzero⟩
    exact hskip (hplain hzero)
  simp only [serveCommand, hcmd, hworkload, hdone, if_false, true_and]
  rw [if_neg]
  · simpa using hplain

/-- One round of the wait for the workers. -/
theorem waitForWorkloadReady_serves {n : Nat} {workload tag : Int32} {count : UInt64}
    {after : Nat → WorkerCode Int} :
    ServesAll body I n (waitForWorkloadReady n workload tag count)
      (fun w => sendWorkloadReady workload 1 count tag >>= fun _ => after w) (· = 0) after := by
  refine Exchanges.forPeers (S := Party Nat Head Int) List.nodup_range ?_
  intro w _
  have hsize : (Payload.ready ⟨workload, 1, count⟩).size = sizeofWorkloadReady := rfl
  refine Exchange.bind (secureRecvMsg_meets hsize (by decide) _) ?_
  intro r hr
  subst hr
  have hok : ¬((1 : Int32) = 0) := by decide
  simp only [ne_eq, not_true_eq_false, hok, or_self, if_false]
  exact Exchange.stay (S := Party Nat Head Int) rfl rfl

/-- Every worker is sent a command, on which it goes on as `after` says. -/
theorem commands_serve {n : Nat} {hosts : Nat → Host} {cmds : Nat → NpbCmd}
    {after : Nat → WorkerCode Int} (h : ∀ w < n, serveCommand (hosts w) (cmds w) = after w) :
    ServesAll body I n (forEach (fun w => secureSendMsg w (.cmd (cmds w)) tagNpbCmd) (List.range n))
      (fun w => enter (.commands (hosts w))) (fun _ => True) after := by
  refine Exchanges.forEach (S := Party Nat Head Int) List.nodup_range ?_
  intro w hw
  exact Exchange.goes command_meets fun _ _ => ⟨trivial, h w (List.mem_range.mp hw)⟩

/-- One run of a workload: every worker is given its input, then the master gathers. -/
theorem round_serves {A : Type} {n : Nat} {give : Nat → MasterCode Unit} {gather : MasterCode A}
    {before answer after : Nat → WorkerCode Int} {good : A → Prop}
    (hgive : ∀ w, Meets body workerBody I w (give w) (before w) (fun _ => True) fun _ => answer w)
    (hgather : ServesAll body I n gather answer good after) :
    ServesAll body I n (forEach give (List.range n) >>= fun _ => gather) before good after := by
  refine Exchanges.bind (S := Party Nat Head Int)
    (Exchanges.forEach List.nodup_range fun w _ => hgive w) ?_
  exact fun _ _ => hgather

section Ep
variable {a : Arguments} {hosts : Nat → Host}

def epRuns (host : Host) (a : Arguments) (rest : List Int32) : WorkerCode Int := do
  let _ ← untilFailure (epWorkerRun host (epCmd a)) rest
  enter (.commands host)

def epAnswer (host : Host) (a : Arguments) (run : Int32) (rest : List Int32) (seed : Int64) :
    WorkerCode Int := do
  workloadSendSmall () (.epResult (epCompute host.libm a.epN seed)) tagNpbEpResult a.encrypt
  workloadSendSmall () (.time (host.clock.ms (.ep run))) tagNpbTime a.encrypt
  epRuns host a rest

theorem epSeed_meets {w : Nat} {run : Int32} {rest : List Int32} :
    Meets body workerBody I w
      (workloadSendSmall w (.seed (epSeed a run w)) tagNpbCmd a.encrypt)
      (epRuns host a (run::rest)) (fun _ => True)
      (fun _ => epAnswer host a run rest (epSeed a run w)) := by
  have hencrypt : decide ((epCmd a).encryptData ≠ 0) = a.encrypt := encrypts a.encrypt
  rw [epRuns, untilFailure, epWorkerRun, bind_assoc, bind_assoc, hencrypt]
  have hsize : (Payload.seed (epSeed a run w)).size = sizeofSeed := rfl
  refine Exchange.goes (workloadSendSmall_meets hsize (by decide) _) fun _ _ => ⟨trivial, ?_⟩
  simp only [bind_assoc, pure_bind]
  rfl

theorem gatherEp_meets (ha : a.Admitted) {w : Nat} {run : Int32} {rest : List Int32} {seed : Int64} :
    Meets body workerBody I w (gatherEp a w) (epAnswer host a run rest seed) (fun _ => True)
      (fun _ => epRuns host a rest) := by
  have hpairs : 0 ≤ a.epN.toInt := by
    have := ha.epN.1
    omega
  have hresult : (Payload.epResult (epCompute host.libm a.epN seed)).size = sizeofEpResult := rfl
  refine Exchange.bind (workloadRecvSmall_meets hresult (by decide) _) ?_
  intro r hr
  subst hr
  simp only [epCompute_valid hpairs, Bool.not_true, Bool.false_eq_true, if_false]
  have htime : (Payload.time (host.clock.ms (.ep run))).size = sizeofDouble := rfl
  refine Exchange.bind (workloadRecvSmall_meets htime (by decide) _) ?_
  intro r hr
  subst hr
  simp only [invalidTime, host.clock.isfinite, host.clock.nonneg]
  exact Exchange.stay (S := Party Nat Head Int) trivial rfl

theorem epMasterRun_serves (ha : a.Admitted) {run : Int32} {rest : List Int32} :
    ServesAll body I a.nworkers (epMasterRun a run) (fun w => epRuns (hosts w) a (run::rest))
      (fun _ => True) (fun w => epRuns (hosts w) a rest) :=
  round_serves (fun _ => epSeed_meets)
    (Exchanges.forEach (S := Party Nat Head Int) List.nodup_range fun _ _ => gatherEp_meets ha)

theorem runEpMaster_serves (ha : a.Admitted)
    (hbuild : ∀ w < a.nworkers, (hosts w).Permits a.encrypt) :
    ServesAll body I a.nworkers (runEpMaster a) (fun w => enter (.commands (hosts w))) (· = 0)
      (fun w => enter (.commands (hosts w))) := by
  have hserve : ∀ w < a.nworkers, serveCommand (hosts w) (epCmd a) =
      epRuns (hosts w) a (runs a.numRuns) := by
    intro w hw
    rw [serveCommand_start workloadEp rfl rfl (hbuild w hw).plain]
    rfl
  have hruns : ServesAll body I a.nworkers (forEach (epMasterRun a) (runs a.numRuns))
      (fun w => epRuns (hosts w) a (runs a.numRuns)) (fun _ => True)
      (fun w => enter (.commands (hosts w))) :=
    Exchanges.forEachStage (S := Party Nat Head Int)
      (fun rest w => AboutTo (epRuns (hosts w) a rest))
      fun run rest _ => epMasterRun_serves ha
  rw [runEpMaster]
  refine Exchanges.bind (S := Party Nat Head Int) (commands_serve hserve) ?_
  intro _ _
  refine Exchanges.bind (S := Party Nat Head Int) hruns ?_
  intro _ _
  exact Exchanges.pure (S := Party Nat Head Int) rfl fun _ _ _ _ hs => hs

end Ep

def remaining (host : Host) (round : Int32 → WorkerCode Int) (rest : List Int32) :
    WorkerCode Int :=
  untilFailure round rest >>= afterWorkload host

/-- A worker whose runs begin with a trigger answers it. -/
theorem trigger_meets {w : Nat} {tag run : Int32} {rest : List Int32} {encrypt : Bool}
    {round : Int32 → WorkerCode Int} {answer : Option Payload → WorkerCode Int}
    {reply : WorkerCode Unit}
    (hround : round run = workloadRecvSmall () sizeofRunTrigger tag encrypt >>= answer)
    (hanswer : answer (some (.trigger { run := run })) = reply >>= fun _ => pure 0) :
    Meets body workerBody I w (workloadSendSmall w (.trigger { run := run }) tag encrypt)
      (remaining host round (run::rest)) (fun _ => True)
      (fun _ => reply >>= fun _ => remaining host round rest) := by
  rw [remaining, untilFailure, hround, bind_assoc, bind_assoc]
  have hsize : (Payload.trigger { run := run }).size = sizeofRunTrigger := rfl
  refine Exchange.goes (workloadSendSmall_meets hsize (by decide) _) fun _ _ => ⟨trivial, ?_⟩
  simp only [hanswer, bind_assoc, pure_bind]
  rfl

/-- A workload for which the workers report ready before they go through the runs. -/
theorem readyRuns_serve {n : Nat} {hosts : Nat → Host} {workload tag : Int32} {count : UInt64}
    {is : List Int32} {run : Int32 → MasterCode Int} (round : Nat → Int32 → WorkerCode Int)
    (hserve : ∀ w < n, serveCommand (hosts w) cmd =
      sendWorkloadReady workload 1 count tag >>= fun _ => remaining (hosts w) (round w) is)
    (hrun : ∀ i rest, ServesAll body I n (run i) (fun w => remaining (hosts w) (round w) (i::rest))
      (· = 0) (fun w => remaining (hosts w) (round w) rest)) :
    ServesAll body I n (do
      forEach (fun w => secureSendMsg w (.cmd cmd) tagNpbCmd) (List.range n)
      let ready ← waitForWorkloadReady n workload tag count
      if ready ≠ 0 then pure (-1) else untilFailure run is)
      (fun w => enter (.commands (hosts w))) (· = 0) (fun w => enter (.commands (hosts w))) := by
  have hruns : ServesAll body I n (untilFailure run is)
      (fun w => remaining (hosts w) (round w) is) (· = 0)
      (fun w => enter (.commands (hosts w))) :=
    Exchanges.schedule (S := Party Nat Head Int)
      (fun rest w => AboutTo (remaining (hosts w) (round w) rest))
      fun i rest _ => hrun i rest
  refine Exchanges.bind (S := Party Nat Head Int) (commands_serve hserve) ?_
  intro _ _
  refine Exchanges.bind (S := Party Nat Head Int) waitForWorkloadReady_serves ?_
  intro ready hready
  subst hready
  simp only [ne_eq, not_true_eq_false, if_false]
  exact hruns

section Stream
variable {a : Arguments} {hosts : Nat → Host}

abbrev streamRuns (host : Host) (a : Arguments) (rest : List Int32) : WorkerCode Int :=
  remaining host (streamWorkerRun host (streamCmd a)) rest

def streamAnswer (host : Host) (a : Arguments) (run : Int32) (rest : List Int32) :
    WorkerCode Int := do
  workloadSendSmall () (.streamResult (streamResult host.clock
    (elementCount a.streamArrayMib sizeofDouble) run)) tagStreamResult a.encrypt
  streamRuns host a rest

theorem streamTrigger_meets {w : Nat} {run : Int32} {rest : List Int32} :
    Meets body workerBody I w
      (workloadSendSmall w (.trigger { run := run }) tagStreamRun a.encrypt)
      (streamRuns host a (run::rest)) (fun _ => True) (fun _ => streamAnswer host a run rest) := by
  have hencrypt : decide ((streamCmd a).encryptData ≠ 0) = a.encrypt := encrypts a.encrypt
  refine trigger_meets (by rw [streamWorkerRun, hencrypt]) ?_
  simp only [ne_eq, not_true_eq_false, if_false]
  rfl

/-- The sum of the arrays is exact. -/
theorem Arguments.Admitted.stream_exact (ha : a.Admitted) :
    7*elementCount a.streamArrayMib sizeofDouble < 2^53 := by
  have hle : a.streamArrayMib.toNat ≤ 128 := ha.streamArrayMib.2
  simp only [elementCount, mibBytes, sizeofDouble]
  omega

theorem gatherStream_meets (ha : a.Admitted) {w : Nat} {run : Int32} {rest : List Int32} :
    Meets body workerBody I w (gatherStream a run w) (streamAnswer host a run rest) (· = 0)
      (fun _ => streamRuns host a rest) := by
  have hsize : (Payload.streamResult (streamResult host.clock
      (elementCount a.streamArrayMib sizeofDouble) run)).size = sizeofStreamResult := rfl
  refine Exchange.bind (workloadRecvSmall_meets hsize (by decide) _) ?_
  intro r hr
  subst hr
  simp only [streamResult_valid host.clock ha.stream_exact, Bool.not_true, Bool.false_eq_true,
    if_false]
  exact Exchange.stay (S := Party Nat Head Int) rfl rfl

theorem streamMasterRun_serves (ha : a.Admitted) {run : Int32} {rest : List Int32} :
    ServesAll body I a.nworkers (streamMasterRun a run)
      (fun w => streamRuns (hosts w) a (run::rest)) (· = 0)
      (fun w => streamRuns (hosts w) a rest) :=
  round_serves (fun _ => streamTrigger_meets)
    (Exchanges.forPeers (S := Party Nat Head Int) List.nodup_range fun _ _ => gatherStream_meets ha)

theorem serveCommand_stream (ha : a.Admitted) (hbuild : host.Permits a.encrypt) :
    serveCommand host (streamCmd a) =
      sendWorkloadReady workloadStream 1 (.ofNat (elementCount a.streamArrayMib sizeofDouble))
        tagStreamReady >>= fun _ => streamRuns host a (runs a.numRuns) := by
  have hvalid : ¬((streamCmd a).streamArrayMib < streamMinMib ∨
      (streamCmd a).streamArrayMib > streamMaxMib ∨
      (streamCmd a).streamArrayMib.toNat*mibBytes%sizeofDouble ≠ 0) := by
    simp only [streamCmd, not_or, UInt32.not_lt, gt_iff_lt, not_not]
    refine ⟨ha.streamArrayMib.1, ha.streamArrayMib.2, ?_⟩
    simp only [mibBytes, sizeofDouble]
    omega
  rw [serveCommand_start workloadStream rfl rfl hbuild.plain, if_neg (by decide),
    if_neg (by decide), if_pos rfl, runStreamWorkload, if_neg hvalid, bind_assoc]
  rfl

theorem runStreamMaster_serves (ha : a.Admitted)
    (hbuild : ∀ w < a.nworkers, (hosts w).Permits a.encrypt) :
    ServesAll body I a.nworkers (runStreamMaster a) (fun w => enter (.commands (hosts w))) (· = 0)
      (fun w => enter (.commands (hosts w))) :=
  readyRuns_serve (fun w => streamWorkerRun (hosts w) (streamCmd a))
    (fun w hw => serveCommand_stream ha (hbuild w hw)) fun _ _ => streamMasterRun_serves ha

end Stream

section Random
variable {a : Arguments} {hosts : Nat → Host}

abbrev chaseOf (a : Arguments) : Chase :=
  prepareChase (elementCount a.randomMib sizeofUint32) a.randomAccesses a.randomWarmupAccesses

abbrev randomRuns (host : Host) (a : Arguments) (rest : List Int32) : WorkerCode Int :=
  remaining host (randomWorkerRun host (randomCmd a) (chaseOf a)) rest

def randomAnswer (host : Host) (a : Arguments) (run : Int32) (rest : List Int32) :
    WorkerCode Int := do
  workloadSendSmall () (.randomResult (randomResult host.clock (chaseOf a) a.randomAccesses run))
    tagRandomResult a.encrypt
  randomRuns host a rest

theorem Arguments.Admitted.random_count (ha : a.Admitted) :
    0 < elementCount a.randomMib sizeofUint32 ∧
      elementCount a.randomMib sizeofUint32 ≤ 0xFFFFFFFF := by
  have hge : 32 ≤ a.randomMib.toNat := ha.randomMib.1
  have hle : a.randomMib.toNat ≤ 256 := ha.randomMib.2
  simp only [elementCount, mibBytes, sizeofUint32]
  omega

theorem randomTrigger_meets {w : Nat} {run : Int32} {rest : List Int32} :
    Meets body workerBody I w
      (workloadSendSmall w (.trigger { run := run }) tagRandomRun a.encrypt)
      (randomRuns host a (run::rest)) (fun _ => True) (fun _ => randomAnswer host a run rest) := by
  have hencrypt : decide ((randomCmd a).encryptData ≠ 0) = a.encrypt := encrypts a.encrypt
  refine trigger_meets (by rw [randomWorkerRun, hencrypt]) ?_
  simp only [ne_eq, not_true_eq_false, if_false]
  rfl

abbrev finalToken (a : Arguments) : UInt32 := .ofNat ((chaseOf a).final a.randomAccesses)

/-- All workers report the token of the first. -/
theorem gatherRandom_serves (ha : a.Admitted) {run : Int32} {rest : List Int32}
    {ps : List Nat} (hps : ps.Nodup) {expected : UInt32}
    (hexpected : ps.head? = some 0 ∨ expected = finalToken a) :
    Exchanges workers body (Matched workers I) RanOut ps
      (fun w => AboutTo (randomAnswer (hosts w) a run rest)) (gatherRandom a run expected ps)
      (· = 0) (fun _ w => AboutTo (randomRuns (hosts w) a rest)) := by
  induction ps generalizing expected with
  | nil => exact Exchanges.pure (S := Party Nat Head Int) rfl fun p hp => by cases hp
  | cons w ps ih =>
    obtain ⟨hw, hps⟩ := List.nodup_cons.mp hps
    have hsize : (Payload.randomResult (randomResult (hosts w).clock (chaseOf a) a.randomAccesses
        run)).size = sizeofRandomResult := rfl
    refine Exchanges.cons (S := Party Nat Head Int) hw
      (workloadRecvSmall_meets hsize (by decide) _) ?_
    intro r hr
    subst hr
    have hverified : (randomResult (hosts w).clock (chaseOf a) a.randomAccesses run).verified = 1 :=
      if_pos (prepareChase_expected ha.random_count.1 ..).2
    have hms : (randomResult (hosts w).clock (chaseOf a) a.randomAccesses run).computeMs =
        (hosts w).clock.ms (.random run) := rfl
    have htoken : w > 0 → finalToken a = expected := by
      intro hpos
      cases hexpected with
      | inl hhead => exact absurd (Option.some.inj hhead) hpos.ne'
      | inr heq => exact heq.symm
    have hvalid : ¬((randomResult (hosts w).clock (chaseOf a) a.randomAccesses run).run ≠ run ∨
        (randomResult (hosts w).clock (chaseOf a) a.randomAccesses run).verified = 0 ∨
        invalidTime (randomResult (hosts w).clock (chaseOf a) a.randomAccesses run).computeMs ∨
        (w > 0 ∧ (randomResult (hosts w).clock (chaseOf a) a.randomAccesses run).finalToken ≠
          expected)) := by
      rw [hverified, hms, invalidTime, (hosts w).clock.isfinite, (hosts w).clock.nonneg]
      simpa [randomResult] using htoken
    simp only
    rw [if_neg hvalid]
    refine ih hps (.inr ?_)
    split
    · rfl
    · rename_i hpos
      exact (htoken (Nat.pos_of_ne_zero hpos)).symm

theorem randomMasterRun_serves (ha : a.Admitted) {run : Int32} {rest : List Int32} :
    ServesAll body I a.nworkers (randomMasterRun a run)
      (fun w => randomRuns (hosts w) a (run::rest)) (· = 0)
      (fun w => randomRuns (hosts w) a rest) := by
  refine round_serves (fun _ => randomTrigger_meets)
    (gatherRandom_serves ha List.nodup_range (.inl ?_))
  rw [List.head?_range, if_neg ha.workers.1.ne']

theorem serveCommand_random (ha : a.Admitted) (hbuild : host.Permits a.encrypt) :
    serveCommand host (randomCmd a) =
      sendWorkloadReady workloadRandom 1 (.ofNat (elementCount a.randomMib sizeofUint32))
        tagRandomReady >>= fun _ => randomRuns host a (runs a.numRuns) := by
  have hvalid : ¬((randomCmd a).randomMib < randomMinMib ∨ (randomCmd a).randomMib > randomMaxMib ∨
      (randomCmd a).randomAccesses = 0 ∨ (randomCmd a).randomMib.toNat*mibBytes%sizeofUint32 ≠ 0 ∨
      elementCount (randomCmd a).randomMib sizeofUint32 = 0 ∨
      elementCount (randomCmd a).randomMib sizeofUint32 > 0xFFFFFFFF) := by
    have haccesses := ha.randomAccesses
    have hcount := ha.random_count
    simp only [randomCmd, not_or, UInt32.not_lt, gt_iff_lt, not_not, not_lt]
    refine ⟨ha.randomMib.1, ha.randomMib.2, ?_, ?_, hcount.1.ne', hcount.2⟩
    · intro hzero
      simp [hzero] at haccesses
    · simp only [mibBytes, sizeofUint32]
      omega
  have hwarm : ¬(chaseOf a).warmToken ≠ (chaseOf a).expectedWarmToken :=
    not_not.mpr (prepareChase_expected ha.random_count.1 ..).1
  rw [serveCommand_start workloadRandom rfl rfl hbuild.plain, if_neg (by decide),
    if_neg (by decide), if_neg (by decide), if_pos rfl, runRandomWorkload, if_neg hvalid]
  change (if (chaseOf a).warmToken ≠ (chaseOf a).expectedWarmToken then _ else _) >>= _ = _
  rw [if_neg hwarm, bind_assoc]
  rfl

theorem runRandomMaster_serves (ha : a.Admitted)
    (hbuild : ∀ w < a.nworkers, (hosts w).Permits a.encrypt) :
    ServesAll body I a.nworkers (runRandomMaster a) (fun w => enter (.commands (hosts w))) (· = 0)
      (fun w => enter (.commands (hosts w))) :=
  readyRuns_serve (fun w => randomWorkerRun (hosts w) (randomCmd a) (chaseOf a))
    (fun w hw => serveCommand_random ha (hbuild w hw)) fun _ _ => randomMasterRun_serves ha

end Random

section Vmap
variable {a : Arguments} {hosts : Nat → Host}

abbrev vmapVector (a : Arguments) : List Binary64 := vmapInput (elementCount a.vmapMib sizeofDouble)

abbrev vmapRuns (host : Host) (a : Arguments) (rest : List Int32) : WorkerCode Int :=
  remaining host (vmapWorkerRun host (vmapCmd a)) rest

def vmapAnswer (host : Host) (a : Arguments) (run : Int32) (rest : List Int32) :
    WorkerCode Int := do
  sendBulkMsg () (.doubles ((vmapVector a).map vmapTransform)) tagVmapOutput a.encrypt
  workloadSendSmall () (.vmapResult (vmapResult host.clock
    (elementCount a.vmapMib sizeofDouble) run (vmapVector a))) tagVmapResult a.encrypt
  vmapRuns host a rest

theorem vmapVector_size : (vmapVector a).length*sizeofDouble = a.vmapMib.toNat*mibBytes := by
  rw [vmapVector, vmapInput, List.length_map, List.length_range]
  simp only [elementCount, mibBytes, sizeofDouble]
  omega

theorem Arguments.Admitted.vmap_count (ha : a.Admitted) :
    0 < elementCount a.vmapMib sizeofDouble ∧
      128*elementCount a.vmapMib sizeofDouble < 2^53 := by
  have hge : 1 ≤ a.vmapMib.toNat := ha.vmapMib.1
  have hle : a.vmapMib.toNat ≤ 128 := ha.vmapMib.2
  simp only [elementCount, mibBytes, sizeofDouble]
  omega

theorem Arguments.Admitted.vmapFits (ha : a.Admitted) :
    BulkFits a.encrypt (a.vmapMib.toNat*mibBytes) := by
  have hle : a.vmapMib.toNat ≤ 128 := ha.vmapMib.2
  refine ⟨?_, fun _ => ?_⟩
  · simp only [intMax, mibBytes]
    omega
  · simp only [intMax, npub, abytes, mibBytes]
    omega

theorem vmapVector_meets (ha : a.Admitted) {w : Nat} {run : Int32} {rest : List Int32} :
    Meets body workerBody I w
      (sendBulkMsg w (.doubles (vmapVector a)) tagVmapInput a.encrypt)
      (vmapRuns host a (run::rest)) (fun _ => True) (fun _ => vmapAnswer host a run rest) := by
  have hencrypt : decide ((vmapCmd a).encryptData ≠ 0) = a.encrypt := encrypts a.encrypt
  rw [vmapRuns, remaining, untilFailure, vmapWorkerRun, bind_assoc, bind_assoc, hencrypt]
  have hsize : (Payload.doubles (vmapVector a)).size = a.vmapMib.toNat*mibBytes := vmapVector_size
  refine Exchange.goes (sendBulkMsg_meets hsize ha.vmapFits _) fun _ _ => ⟨trivial, ?_⟩
  simp only [bind_assoc, pure_bind]
  rfl

theorem gatherVmap_meets (ha : a.Admitted) {w : Nat} {run : Int32} {rest : List Int32} :
    Meets body workerBody I w (gatherVmap a run w) (vmapAnswer host a run rest) (· = 0)
      (fun _ => vmapRuns host a rest) := by
  have hcount := ha.vmap_count
  have houtput : (Payload.doubles ((vmapVector a).map vmapTransform)).size =
      a.vmapMib.toNat*mibBytes := by
    rw [Payload.size, List.length_map]
    exact vmapVector_size
  refine Exchange.bind (recvBulkMsg_meets houtput ha.vmapFits _) ?_
  intro r hr
  subst hr
  have hresult : (Payload.vmapResult (vmapResult host.clock (elementCount a.vmapMib sizeofDouble)
      run (vmapVector a))).size = sizeofVmapResult := rfl
  refine Exchange.bind (workloadRecvSmall_meets hresult (by decide) _) ?_
  intro r hr
  subst hr
  simp only [vmapResult_valid host.clock hcount.1 hcount.2, samplesMatch_map hcount.1,
    Bool.not_true, Bool.false_eq_true, if_false]
  exact Exchange.stay (S := Party Nat Head Int) rfl rfl

theorem vmapMasterRun_serves (ha : a.Admitted) {run : Int32} {rest : List Int32} :
    ServesAll body I a.nworkers (vmapMasterRun a run)
      (fun w => vmapRuns (hosts w) a (run::rest)) (· = 0)
      (fun w => vmapRuns (hosts w) a rest) :=
  round_serves (fun _ => vmapVector_meets ha)
    (Exchanges.forPeers (S := Party Nat Head Int) List.nodup_range fun _ _ => gatherVmap_meets ha)

theorem vmap_whole : a.vmapMib.toNat*mibBytes%sizeofDouble = 0 := by
  simp only [mibBytes, sizeofDouble]
  omega

theorem serveCommand_vmap (ha : a.Admitted) (hbuild : host.Permits a.encrypt) :
    serveCommand host (vmapCmd a) =
      sendWorkloadReady workloadVmap 1 (.ofNat (elementCount a.vmapMib sizeofDouble))
        tagVmapReady >>= fun _ => vmapRuns host a (runs a.numRuns) := by
  have hvalid : ¬((vmapCmd a).vmapMib < vmapMinMib ∨ (vmapCmd a).vmapMib > vmapMaxMib ∨
      (vmapCmd a).vmapMib.toNat*mibBytes%sizeofDouble ≠ 0) := by
    simp only [vmapCmd, not_or, UInt32.not_lt, gt_iff_lt, not_not]
    exact ⟨ha.vmapMib.1, ha.vmapMib.2, vmap_whole⟩
  rw [serveCommand_start workloadVmap rfl rfl hbuild.plain, if_neg (by decide),
    if_neg (by decide), if_neg (by decide), if_neg (by decide), if_pos rfl, runVmapWorkload,
    if_neg hvalid, bind_assoc]
  rfl

theorem runVmapMaster_serves (ha : a.Admitted)
    (hbuild : ∀ w < a.nworkers, (hosts w).Permits a.encrypt) :
    ServesAll body I a.nworkers (runVmapMaster a) (fun w => enter (.commands (hosts w))) (· = 0)
      (fun w => enter (.commands (hosts w))) := by
  rw [runVmapMaster, if_neg (not_not.mpr vmap_whole)]
  exact readyRuns_serve (fun w => vmapWorkerRun (hosts w) (vmapCmd a))
    (fun w hw => serveCommand_vmap ha (hbuild w hw)) fun _ _ => vmapMasterRun_serves ha

end Vmap

end

end DistributedEnclave.Npb
