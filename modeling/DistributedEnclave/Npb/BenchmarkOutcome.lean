import DistributedEnclave.Npb.CgService
import DistributedEnclave.Npb.JobCost
import DistributedEnclave.Npb.TaskqOutcome

/-! The master among honest workers, from the first command of the benchmark phase to the
shutdown: every message is the one its receiver waits for, and every run ends. -/
namespace DistributedEnclave.Npb
open DistributedEnclave.Programs
open Taskq (Head masterBody InStep idleHost servingSites servingSites_attend)

section
variable {machine : Host} {hosts : Nat → Host} {a : Arguments}

theorem Arguments.Admitted.taskq (ha : a.Admitted) : (taskqParams a).Admitted where
  workers := ha.workers
  runs := ha.runs
  tasks := by
    rw [taskqParams]
    split
    · have hworkers := ha.workers
      simp only [maxWorkers] at hworkers
      have hn : (UInt64.ofNat a.nworkers).toNat = a.nworkers :=
        UInt64.toNat_ofNat_of_lt' (by rw [UInt64.size]; omega)
      have hhundred : (100 : UInt64).toNat = 100 := rfl
      rw [UInt64.toNat_mul, hn, hhundred, Nat.mod_eq_of_lt (by omega)]
      omega
    · rename_i hcount
      exact Nat.pos_of_ne_zero fun hzero => hcount (UInt64.toNat_inj.mp hzero)
  bytes := ha.taskBytes
  iterations := ha.taskIters

variable (machine hosts a) in
abbrev AllServed {A : Type} (x : MasterCode A) (before : Nat → WorkerCode Int) (good : A → Prop)
    (after : Nat → WorkerCode Int) : Prop :=
  ServesAll (masterBody (taskqParams a)) (InStep hosts (taskqParams a)) a.nworkers x before good
    after

theorem runWorkload_serves (ha : a.Admitted) (hfits : a.workload = workloadCg → a.CgFits)
    (hbuild : ∀ w < a.nworkers, (hosts w).Permits a.encrypt) :
    AllServed hosts a (runWorkload machine a) (fun w => enter (.commands (hosts w))) (· = 0)
      (fun w => enter (.commands (hosts w))) := by
  have hworkload := ha.workload
  simp only [List.mem_cons, List.not_mem_nil, or_false] at hworkload
  obtain hep | hcg | hstream | hrandom | hvmap | htaskq := hworkload
  · rw [runWorkload, hep, if_pos rfl]
    exact runEpMaster_serves ha hbuild
  · rw [runWorkload, hcg, if_neg (by decide), if_pos rfl]
    exact runCgMaster_serves ha (hfits hcg) hbuild
  · rw [runWorkload, hstream, if_neg (by decide), if_neg (by decide), if_pos rfl]
    exact runStreamMaster_serves ha hbuild
  · rw [runWorkload, hrandom, if_neg (by decide), if_neg (by decide), if_neg (by decide),
      if_pos rfl]
    exact runRandomMaster_serves ha hbuild
  · rw [runWorkload, hvmap, if_neg (by decide), if_neg (by decide), if_neg (by decide),
      if_neg (by decide), if_pos rfl]
    exact runVmapMaster_serves ha hbuild
  · rw [runWorkload, htaskq, if_neg (by decide), if_neg (by decide), if_neg (by decide),
      if_neg (by decide), if_neg (by decide), if_pos rfl]
    exact Taskq.runTaskqMaster_serves ha.taskq hbuild

theorem masterMain_serves (machine : Host) (ha : a.Admitted) (hfits : a.workload = workloadCg → a.CgFits)
    (hbuild : ∀ w < a.nworkers, (hosts w).Permits a.encrypt) :
    AllServed hosts a (masterMain machine a) (fun w => enter (.commands (hosts w)))
      (fun _ => True) (fun _ => pure 0) := by
  rw [masterMain]
  refine Exchanges.bind (S := Party Nat Head Int) (runWorkload_serves ha hfits hbuild) ?_
  intro status hstatus
  subst hstatus
  simp only [ne_eq, not_true_eq_false, if_false]
  exact commands_serve fun _ _ => serveCommand_done

abbrev Reached (machine : Host) (a : Arguments) (c : Nat → Counters) (e : Sites)
    (x : Prog (Party Nat Head Int) (Unit × (Nat → Counters))) (e' : Sites) : Prop :=
  Steps (rendezvous workers (Int × (Unit → Counters))) (masterBody (taskqParams a))
    (masterMain machine a c, e) (x, e')

/-- Master and workers are through, at either end of the same counters; or a process has aborted
after its channel has used up the nonces; or some party can take a step, and if it is to send or
to receive, the other side waits for exactly that. -/
abbrev JobStatus (hosts : Nat → Host) (a : Arguments)
    (x : Prog (Party Nat Head Int) (Unit × (Nat → Counters))) (e : Sites) : Prop :=
  Status (rendezvous workers (Int × (Unit → Counters))) (masterBody (taskqParams a))
    (Matched workers (InStep hosts (taskqParams a))) RanOut
    (fun r e' => ∀ w ∈ List.range a.nworkers, (e' w).Runs workers (.ret (0, (r.2 w).mirror))) x e

def Stuck (a : Arguments) (x : Prog (Party Nat Head Int) (Unit × (Nat → Counters))) (e : Sites) :
    Prop :=
  ∀ s, ¬Step (rendezvous workers (Int × (Unit → Counters))) (masterBody (taskqParams a)) (x, e) s

structure Cooperate (machine : Host) (hosts : Nat → Host) (a : Arguments) (c : Nat → Counters)
    (e : Sites) : Prop where
  ends : Acc (fun s s' => Step (rendezvous workers (Int × (Unit → Counters)))
    (masterBody (taskqParams a)) s' s) (masterMain machine a c, e)
  status : ∀ x e', Reached machine a c e x e' → JobStatus hosts a x e'
  /-- With nonces for all messages no process aborts. -/
  returns : HasRoom a.nworkers a.messages c → ∀ x e', Reached machine a c e x e' →
    Stuck a x e' → ∃ c', x = .ret ((), c')

/-- No channel carries more than the messages of the job. -/
theorem Reached.grown {c : Nat → Counters} {e e' : Sites}
    {x : Prog (Party Nat Head Int) (Unit × (Nat → Counters))}
    (hroom : HasRoom a.nworkers a.messages c) (hsteps : Reached machine a c e x e') :
    Grown (S := Party Nat Head Int) e e' a.messages := by
  have hbooks : Books (Finset.range a.nworkers) a.encrypt a.messages (0+a.messages) c
      ([] : List MasterEvent) := by
    refine ⟨by rw [List.length_nil, Nat.zero_add, Nat.zero_add], fun _ => ⟨Nat.zero_le _, ?_⟩⟩
    intro w hw
    have := (hroom w (Finset.mem_range.mp hw)).1
    omega
  obtain ⟨t, hsteps⟩ := hsteps.traced []
  have hlen : t.length ≤ a.messages := Spare.steps
    (fun n => masterMain_spends (n := n) (k := 0) c [] hbooks) (Nat.zero_le _) hsteps.listened
  obtain ⟨n, hgrown, hn⟩ := hsteps.grown
  have hn : t.length = 0+n := hn
  exact hgrown.within (by omega)

theorem Accounted.ensures {c : Nat → Counters} {e : Sites} (machine : Host) (ha : a.Admitted)
    (hfits : a.workload = workloadCg → a.CgFits) (he : Accounted hosts a.nworkers a.encrypt c e) :
    Ensures (rendezvous workers (Int × (Unit → Counters))) (masterBody (taskqParams a))
      (Matched workers (InStep hosts (taskqParams a))) RanOut
      (fun r e' => ∀ w ∈ List.range a.nworkers, (e' w).Runs workers (.ret (0, (r.2 w).mirror)))
      (masterMain machine a c) e :=
  (masterMain_serves machine ha hfits he.permits c e
    fun w hw => ⟨he.carried w hw, he.ready w hw⟩).mono fun _ _ hr w hw => (hr.2.1 w hw).2

/-- Master and workers cooperate in every workload. -/
theorem benchmarks_cooperate (ha : a.Admitted) (hfits : a.workload = workloadCg → a.CgFits) :
    ∀ machine hosts c e, Accounted hosts a.nworkers a.encrypt c e →
      Cooperate machine hosts a c e := by
  intro machine hosts c e he
  have hjob := he.ensures machine ha hfits
  refine ⟨hjob.acc, fun x e' hsteps => (hjob.steps hsteps).status, ?_⟩
  intro hroom x e' hsteps hstuck
  have hout := he.not_out ha.workers.1 hroom (Reached.grown hroom hsteps)
  obtain ⟨⟨_, c'⟩, hx, _⟩ := (hjob.steps hsteps).status.returns hout hstuck
  exact ⟨c', hx⟩

end

/-- The defaults pass the checks. -/
theorem Arguments.default_admitted : ({} : Arguments).Admitted := by
  constructor <;> decide

theorem Arguments.default_fits : ({} : Arguments).CgFits := by
  constructor <;> decide

def streamJob : Arguments := { workload := workloadStream }

/-- Its 46 messages need no more nonces than there are. -/
theorem streamJob_cooperates :
    Cooperate idleHost (fun _ => idleHost) streamJob (fun _ => {}) servingSites ∧
      (∀ x e', Reached idleHost streamJob (fun _ => {}) servingSites x e' → Stuck streamJob x e' →
        ∃ c', x = .ret ((), c')) ∧
      ∃ c' e', Reached idleHost streamJob (fun _ => {}) servingSites (.ret ((), c')) e' := by
  have ha : streamJob.Admitted := by constructor <;> decide
  have hfits : streamJob.workload = workloadCg → streamJob.CgFits := fun h => absurd h (by decide)
  have h := benchmarks_cooperate ha hfits idleHost (fun _ => idleHost) (fun _ => {}) servingSites
    (servingSites_attend _)
  have hroom : HasRoom streamJob.nworkers streamJob.messages (fun _ => {}) := by
    have hfew : 0+streamJob.messages < uint64Max := by decide
    exact fun _ _ => ⟨hfew, hfew⟩
  refine ⟨h, h.returns hroom, ?_⟩
  obtain ⟨⟨x, e'⟩, hsteps, hstuck⟩ := exists_stuck h.ends
  obtain ⟨c', rfl⟩ := h.returns hroom x e' hsteps hstuck
  exact ⟨c', e', hsteps⟩

/-- The master has not returned and no one can take a step. -/
def Stalled (a : Arguments) (x : Prog (Party Nat Head Int) (Unit × (Nat → Counters))) (e : Sites) :
    Prop :=
  (∀ r, x ≠ .ret r) ∧ Stuck a x e

def longJob : Arguments where
  nworkers := 1
  numRuns := 1
  workload := workloadTaskq
  taskCount := UInt64.ofNat uint64Max
  taskBytes := 1
  taskIters := 1

theorem longJob_no_return {b : Unit × (Nat → Counters)} {e : Sites} :
    ¬Reached idleHost longJob (fun _ => {}) servingSites (.ret b) e := by
  intro hsteps
  obtain ⟨t, hsteps⟩ := hsteps.traced []
  obtain ⟨r, e₁, hworkload, hrest⟩ := Steps.of_bind (x := runWorkload idleHost longJob (fun _ => {}))
    (f := fun r => (if r.1 ≠ 0 then mpiAbort .fatal else
      forEach (fun worker => secureSendMsg worker (.cmd { cmd := cmdNpbDone }) tagNpbCmd)
        (List.range longJob.nworkers) : MasterCode Unit) r.2) hsteps
  obtain ⟨status, c⟩ := r
  by_cases hstatus : status ≠ 0
  · simp only [if_pos hstatus] at hrest
    cases hrest.cases_head with
    | inl heq => cases heq
    | inr hstep =>
      obtain ⟨s, hstep, _⟩ := hstep
      cases hstep
  · obtain rfl : status = 0 := not_not.mp hstatus
    have hparams : taskqParams longJob = Taskq.longQueue := rfl
    exact Taskq.longQueue_no_return (hparams ▸ hworkload.listened)

/-- Where a process has aborted the job, no one goes on. -/
theorem stalled_of_abort {a : Arguments} {e : Sites} {r : Reason}
    {x : Prog (Party Nat Head Int) (Unit × (Nat → Counters))}
    (h : (x = .abort r ∧ RanOut none r e) ∨ ∃ w, x.action.bind Action.peer = some w ∧
      (rendezvous workers (Int × (Unit → Counters))).stopped e w r ∧ RanOut (some w) r e) :
    Stalled a x e := by
  cases h with
  | inl habort =>
    obtain rfl := habort.1
    refine ⟨fun b hb => (by cases hb), fun s hstep => (by cases hstep)⟩
  | inr hstopped =>
    obtain ⟨w, hpeer, hstopped, _⟩ := hstopped
    cases ha : x.action with
    | none =>
      rw [ha] at hpeer
      cases hpeer
    | some action =>
      rw [ha] at hpeer
      refine ⟨?_, fun s hstep => hstep.not_stopped ha hpeer hstopped⟩
      intro b hb
      rw [hb] at ha
      cases ha

theorem longJob_stalls : ∃ x e', Reached idleHost longJob (fun _ => {}) servingSites x e' ∧
    Stalled longJob x e' := by
  have ha : longJob.Admitted := by constructor <;> decide
  have hfits : longJob.workload = workloadCg → longJob.CgFits := fun h => absurd h (by decide)
  have hjob := (servingSites_attend longJob.nworkers).ensures idleHost ha hfits
  obtain ⟨x, e', r, hsteps, hend⟩ := hjob.exists_abort fun b e' _ => longJob_no_return
  exact ⟨x, e', hsteps, stalled_of_abort hend⟩

def baselineHost : Host := { idleHost with skipAttestation := true }

def plainJob : Arguments := { nworkers := 1, encrypt := false }

theorem plainJob_stalls : ∃ x e', Reached baselineHost plainJob (fun _ => {}) servingSites x e' ∧
    Stalled plainJob x e' := by
  refine ⟨.send 0 ⟨tagNpbCmd, .plain (.seed (epSeed plainJob 1 0))⟩ _, _,
    .single (.send ⟨(), _, _, 0, rfl, rfl, rfl⟩), fun r hr => (by cases hr), ?_⟩
  intro s hstep
  cases hstep with
  | send he =>
    obtain ⟨u, q, rest, d, hnext, _⟩ := he
    cases hnext

/-- A job that runs out of nonces and one whose worker was built otherwise than the master. -/
theorem jobs_stall :
    (longJob.Admitted ∧ Accounted (fun _ => idleHost) longJob.nworkers longJob.encrypt
      (fun _ => {}) servingSites ∧
      ∃ x e', Reached idleHost longJob (fun _ => {}) servingSites x e' ∧ Stalled longJob x e') ∧
    (plainJob.Admitted ∧ baselineHost.Permits plainJob.encrypt ∧
      (∀ w, (servingSites w).Runs workers (enter (.commands idleHost) (Counters.mirror {}))) ∧
      ∃ x e', Reached baselineHost plainJob (fun _ => {}) servingSites x e' ∧
        Stalled plainJob x e') := by
  refine ⟨⟨?_, servingSites_attend _, longJob_stalls⟩, ?_, fun _ => rfl, fun _ => rfl,
    plainJob_stalls⟩
  · constructor <;> decide
  · constructor <;> decide

end DistributedEnclave.Npb
