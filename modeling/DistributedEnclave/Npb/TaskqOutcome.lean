import DistributedEnclave.Npb.TaskqCost
import DistributedEnclave.Npb.TaskqService

/-! What the workload comes to: every task is executed exactly once, and it ends with status 0
on every side unless a channel has carried as many messages as there are nonces. -/
namespace DistributedEnclave.Npb
open DistributedEnclave.Programs
namespace Taskq
variable {hosts : Nat → Host} {p : Params}

structure Queue.Tidy (p : Params) (q : Queue) : Prop where
  count : q.nextTask = q.completed + ((List.range p.nworkers).filter q.busy).length
  apart : ∀ v < p.nworkers, ∀ w < p.nworkers, q.busy v = true → q.busy w = true → v ≠ w →
    q.assignedTask v ≠ q.assignedTask w
  below : ∀ w < p.nworkers, q.busy w = true → q.assignedTask w < q.nextTask

theorem Queue.Inv.tidy {q : Queue} {t : List MasterEvent} {accepted : List (Nat × TaskqResult)}
    (h : q.Inv p t accepted) : q.Tidy p where
  count := by
    have hlen := h.partition.length_eq
    rw [List.length_append, List.length_map, List.length_range, ← h.completed, Queue.held,
      List.length_map] at hlen
    exact hlen.symm
  apart := by
    intro v hv w hw hbv hbw hne heq
    have hnodup : (q.held p.nworkers).Nodup :=
      (h.partition.nodup_iff.mpr List.nodup_range).of_append_right
    refine hne (List.inj_on_of_nodup_map hnodup ?_ ?_ heq)
    · exact List.mem_filter.mpr ⟨List.mem_range.mpr hv, hbv⟩
    · exact List.mem_filter.mpr ⟨List.mem_range.mpr hw, hbw⟩
  below := fun _ hw hbusy => h.lt_of_busy hw hbusy

def Once (t : List MasterEvent) : Prop := ∀ run, ((dispatched run t).map Prod.snd).Nodup

theorem Once.sent {t : List MasterEvent} {w : Nat} {m : Envelope} (hs : Once t)
    (hnew : AtHead p (.send w m) t) : Once (t ++ [.sent w m]) := by
  intro run
  rw [dispatched_append, List.map_append]
  cases hd : dispatchOf run (.sent w m) with
  | none => simpa [dispatched, hd] using hs run
  | some a =>
    have hone : dispatched run [.sent w m] = [a] := by simp [dispatched, hd]
    rw [hone]
    refine List.Nodup.append (hs run) (List.nodup_singleton a.2) ?_
    exact List.disjoint_singleton.mpr (hnew run a hd)

theorem Once.received {t : List MasterEvent} (w : Nat) (q : Posted) (m : Envelope) (hs : Once t) :
    Once (t ++ [.received w q m]) := by
  intro run
  have hnone : dispatched run [.received w q m] = [] := rfl
  rw [dispatched_append, hnone, List.append_nil]
  exact hs run

section
variable {A : Type} {Q : A → List MasterEvent → Prop}

theorem Once.step {s s' : Prog (Party Nat Head Int) A × (listen (Party Nat Head Int)).State}
    (h : Maintains (listen _) (masterBody p) (AtHead p) Q 1 s.1 s.2)
    (hstep : Step (listen _) (masterBody p) s s') (hs : Once s.2) : Once s'.2 := by
  cases hstep with
  | send ht =>
    obtain rfl := ht
    exact hs.sent h.1
  | recv ht =>
    obtain rfl := ht
    exact hs.received _ _ _
  | poll ht =>
    obtain rfl := ht
    exact hs
  | loop => exact hs

theorem Once.steps {s s' : Prog (Party Nat Head Int) A × (listen (Party Nat Head Int)).State}
    (h : ∀ n, Maintains (listen _) (masterBody p) (AtHead p) Q n s.1 s.2) (hs : Once s.2)
    (hsteps : Steps (listen _) (masterBody p) s s') : Once s'.2 := by
  induction hsteps with
  | refl => exact hs
  | tail hsteps hlast ih => exact ih.step (Maintains.steps h hsteps 1) hlast

end

abbrev AllServe (hosts : Nat → Host) (p : Params) (c : Nat → Counters) (e : Sites) : Prop :=
  Accounted hosts p.nworkers p.encrypt c e

abbrev Reaches (p : Params) (c : Nat → Counters)
    (x : Prog (Party Nat Head Int) (Int × (Nat → Counters))) (t : List MasterEvent) : Prop :=
  Steps (listen _) (masterBody p) (runTaskqMaster p c, []) (x, t)

/-- The dispatcher among honest workers; each probe may miss what is being sent any number of
times. -/
abbrev ReachesJointly (p : Params) (c : Nat → Counters) (e : Sites)
    (x : Prog (Party Nat Head Int) (Int × (Nat → Counters))) (e' : Sites) (t : List MasterEvent) :
    Prop :=
  Steps (rendezvous workers (Int × (Unit → Counters))).traced (masterBody p)
    (runTaskqMaster p c, (e, [])) (x, (e', t))

/-- The master has returned 0 and every worker reads the next command, or a process has aborted
after its channel has used up the nonces, or the next message is exactly the one that its
receiver waits for. -/
abbrev InOrder (hosts : Nat → Host) (p : Params)
    (x : Prog (Party Nat Head Int) (Int × (Nat → Counters))) (e : Sites) : Prop :=
  Status (rendezvous workers (Int × (Unit → Counters))) (masterBody p)
    (Matched workers (InStep hosts p)) RanOut
    (fun r e' => r.1 = 0 ∧ ∀ w ∈ List.range p.nworkers,
      (e' w).Runs workers (enter (.commands (hosts w)) (r.2 w).mirror)) x e

def AwaitsTask (s : Site (Party Unit WorkerHead Int) (Int × (Unit → Counters))) :
    Prop :=
  ∃ u q rest, s.next workers = .recv u q rest ∧ q.tag = tagTaskqTask

theorem working_awaits {s : Site (Party Unit WorkerHead Int) (Int × (Unit → Counters))}
    {host : Host} {run : Int32} {rest : List Int32} {t : Unit → Counters}
    (h : s.Runs workers (working host p run rest t)) : AwaitsTask s := by
  have hnext : s.next workers = _ := h.trans (working_settle run rest t)
  rw [taskLoop, bind_assoc, startCmd_encrypts] at hnext
  cases hencrypt : p.encrypt with
  | true =>
    rw [hencrypt] at hnext
    exact ⟨_, _, _, hnext, rfl⟩
  | false =>
    rw [hencrypt] at hnext
    exact ⟨_, _, _, hnext, rfl⟩

section
variable {c : Nat → Counters} {e e' : Sites} {t : List MasterEvent}
  {x : Prog (Party Nat Head Int) (Int × (Nat → Counters))}

theorem AllServe.ensures (hp : p.Admitted) (he : AllServe hosts p c e) :
    Ensures (rendezvous workers (Int × (Unit → Counters))) (masterBody p)
      (Matched workers (InStep hosts p)) RanOut
      (fun r e' => r.1 = 0 ∧ ∀ w ∈ List.range p.nworkers,
        (e' w).Runs workers (enter (.commands (hosts w)) (r.2 w).mirror)) (runTaskqMaster p c) e :=
  (runTaskqMaster_serves hp he.permits c e fun w hw => ⟨he.carried w hw, he.ready w hw⟩).mono
    fun _ _ h => ⟨h.1, fun w hw => (h.2.1 w hw).2⟩

/-- No channel carries more than the messages of the workload. -/
theorem AllServe.grown (hroom : HasRoom p.nworkers p.messages c)
    (hsteps : ReachesJointly p c e x e' t) :
    Grown (S := Party Nat Head Int) e e' p.messages := by
  have hbooks : Books (Finset.range p.nworkers) p.encrypt p.messages (0+p.messages) c
      ([] : List MasterEvent) := by
    refine ⟨by rw [List.length_nil, Nat.zero_add, Nat.zero_add], fun _ => ⟨Nat.zero_le _, ?_⟩⟩
    intro w hw
    have := (hroom w (Finset.mem_range.mp hw)).1
    omega
  have hlen : t.length ≤ p.messages := Spare.steps
    (fun n => runTaskqMaster_costs (n := n) (k := 0) c [] hbooks) (Nat.zero_le _) hsteps.listened
  obtain ⟨n, hgrown, hn⟩ := hsteps.grown
  have hn : t.length = 0+n := hn
  exact hgrown.within (by omega)

/-- With nonces for all messages nothing aborts, and a run that has come to its end has
returned 0. -/
theorem AllServe.returns (hp : p.Admitted) (he : AllServe hosts p c e)
    (hroom : HasRoom p.nworkers p.messages c) (hsteps : ReachesJointly p c e x e' t)
    (hstuck : ∀ s, ¬Step (rendezvous workers (Int × (Unit → Counters))).traced (masterBody p)
      (x, (e', t)) s) : ∃ c', x = .ret (0, c') := by
  have hout := he.not_out hp.workers.1 hroom (AllServe.grown hroom hsteps)
  have hends := (he.ensures hp).steps hsteps.untraced
  have hstuck' : ∀ s, ¬Step (rendezvous workers (Int × (Unit → Counters))) (masterBody p)
      (x, e') s := by
    intro s hstep
    obtain ⟨t', hstep⟩ := hstep.traced t
    exact hstuck _ hstep
  obtain ⟨⟨status, c'⟩, hx, hstatus, _⟩ := hends.status.returns hout hstuck'
  obtain rfl : status = 0 := hstatus
  exact ⟨c', hx⟩

theorem AllServe.in_order (hp : p.Admitted) (he : AllServe hosts p c e)
    (hsteps : ReachesJointly p c e x e' t) : InOrder hosts p x e' :=
  ((he.ensures hp).steps hsteps.untraced).status

theorem AllServe.in_step (hp : p.Admitted) (he : AllServe hosts p c e)
    (hsteps : ReachesJointly p c e x e' t) {l : Head × (Nat → Counters)}
    (hx : x.action = some (.loop l)) : InStep hosts p l e' := by
  cases he.in_order hp hsteps with
  | returned _ heq _ =>
    subst heq
    cases hx
  | aborted _ heq _ =>
    subst heq
    cases hx
  | stopped _ _ hpeer _ _ =>
    rw [hx] at hpeer
    cases hpeer
  | running _ ha hmatched _ =>
    obtain rfl := Option.some.inj (ha.symm.trans hx)
    exact hmatched

/-- Where the loop of a run ends, no worker is busy and nothing is in flight. -/
theorem AllServe.idle (hp : p.Admitted) (he : AllServe hosts p c e)
    (hsteps : ReachesJointly p c e x e' t) {q : Queue} {c' : Nat → Counters}
    (hx : x.action = some (.loop (.test q, c'))) (hdone : ¬q.completed < p.taskCount.toNat) :
    ∀ w < p.nworkers, q.busy w = false ∧ AwaitsTask (e' w) := by
  obtain ⟨rest, hunderway⟩ := he.in_step hp hsteps hx
  intro w hw
  have hidle := hunderway.no_one_busy hdone w hw
  exact ⟨hidle, working_awaits (hunderway.waits w hw hidle).2⟩

theorem AllServe.returned (hp : p.Admitted) (he : AllServe hosts p c e) {c' : Nat → Counters}
    {status : Int} (hsteps : ReachesJointly p c e (.ret (status, c')) e' t) :
    status = 0 ∧ ∀ w ∈ List.range p.nworkers,
      (e' w).Runs workers (enter (.commands (hosts w)) (c' w).mirror) := by
  cases he.in_order hp hsteps with
  | returned _ heq h =>
    cases heq
    exact h
  | aborted _ heq _ => cases heq
  | stopped _ _ hpeer _ _ => cases hpeer
  | running _ ha _ _ => cases ha

end

structure Dispatches (p : Params) : Prop where
  tidy : ∀ c x t, Reaches p c x t → ∀ l, x.action = some (.loop l) → l.1.queue.Tidy p
  once : ∀ c x t, Reaches p c x t → Once t
  run_served : ∀ run t₀, Fresh run t₀ → ∀ c c' t,
    Steps (listen _) (masterBody p) (masterRun p run c, t₀) (.ret (0, c'), t) →
    Served p run t ∧ ended run t = List.range p.nworkers ∧ ∀ run', run' ≠ run → SameRun run' t₀ t
  served : ∀ c c' t, Reaches p c (.ret (0, c')) t → ∀ run ∈ runs p.numRuns,
    Served p run t ∧ ended run t = List.range p.nworkers

/-- What honest workers add. -/
structure Completes (hosts : Nat → Host) (p : Params) (c : Nat → Counters) (e : Sites) : Prop where
  ends : Acc (fun s s' => Step (rendezvous workers (Int × (Unit → Counters))).traced
    (masterBody p) s' s) (runTaskqMaster p c, (e, []))
  in_order : ∀ x e' t, ReachesJointly p c e x e' t → InOrder hosts p x e'
  status : ∀ x e' t, ReachesJointly p c e x e' t → ∀ l, x.action = some (.loop l) →
    l.1.queue.status = 0
  idle : ∀ x e' t, ReachesJointly p c e x e' t → ∀ q c',
    x.action = some (.loop (.test q, c')) → ¬q.completed < p.taskCount.toNat →
    ∀ w < p.nworkers, q.busy w = false ∧ AwaitsTask (e' w)
  returns : HasRoom p.nworkers p.messages c → ∀ x e' t, ReachesJointly p c e x e' t →
    (∀ s, ¬Step (rendezvous workers (Int × (Unit → Counters))).traced (masterBody p)
      (x, (e', t)) s) → ∃ c', x = .ret (0, c')
  finished : ∀ status c' e' t, ReachesJointly p c e (.ret (status, c')) e' t →
    (status = 0 ∧ ∀ w ∈ List.range p.nworkers,
      (e' w).Runs workers (enter (.commands (hosts w)) (c' w).mirror)) ∧
    ∀ run ∈ runs p.numRuns, Served p run t ∧ ended run t = List.range p.nworkers

theorem dispatches : Dispatches p where
  tidy := by
    intro c x t hsteps l hx
    obtain ⟨accepted, hinv⟩ := Maintains.at_action (fun n => runTaskqMaster_keeps n c) hsteps hx
    exact hinv.tidy
  once := by
    intro c x t hsteps
    have hempty : Once [] := fun _ => List.nodup_nil
    exact Once.steps (fun n => runTaskqMaster_keeps n c) hempty hsteps
  run_served := by
    intro run t₀ hfresh c c' t hsteps
    exact Maintains.at_return (fun n => masterRun_keeps (n := n) (c := c) hfresh) hsteps rfl
  served := by
    intro c c' t hsteps
    exact Maintains.at_return (fun n => runTaskqMaster_keeps n c) hsteps rfl

theorem AllServe.completes (hp : p.Admitted) {c : Nat → Counters} {e : Sites}
    (he : AllServe hosts p c e) : Completes hosts p c e where
  ends := acc_traced (he.ensures hp).acc
  in_order := fun _ _ _ hsteps => he.in_order hp hsteps
  status := by
    intro x e' t hsteps l hx
    obtain ⟨rest, hunderway⟩ := he.in_step hp hsteps hx
    exact hunderway.status
  idle := fun _ _ _ hsteps _ _ hx hdone => he.idle hp hsteps hx hdone
  returns := fun hroom _ _ _ hsteps hstuck => he.returns hp hroom hsteps hstuck
  finished := by
    intro status c' e' t hsteps
    have hreturned := he.returned hp hsteps
    obtain rfl := hreturned.1
    exact ⟨hreturned, dispatches.served c c' t hsteps.listened⟩

/-- TASKQ executes every task exactly once. -/
theorem taskq_exactly_once (hp : p.Admitted) : Dispatches p ∧
    ∀ hosts c e, AllServe hosts p c e → Completes hosts p c e :=
  ⟨dispatches, fun _ _ _ he => he.completes hp⟩

def idleHost : Host where
  clock :=
    { ms := fun _ => 0
      isfinite := fun _ => rfl
      nonneg := fun _ => rfl }
  libm :=
    { log := fun _ => 0
      sqrt := fun _ => 0
      sin := fun _ => 0
      cos := fun _ => 0
      log_range := fun _ _ _ => ⟨0, rfl, by norm_num, le_refl 0⟩
      sqrt_range := fun _ _ _ => ⟨0, rfl, le_refl 0, by norm_num⟩
      sin_range := fun _ => ⟨0, rfl, by norm_num⟩
      cos_range := fun _ => ⟨0, rfl, by norm_num⟩ }
  rand _ := 0
  randMax := 1
  skipAttestation := false

def servingSites : Sites := fun _ =>
  { prog := enter (.commands idleHost) (Counters.mirror {}), delay := 0 }

theorem servingSites_attend (nworkers : Nat) :
    Accounted (fun _ => idleHost) nworkers true (fun _ => {}) servingSites where
  permits := fun _ _ hplain => by cases hplain
  ready := fun _ _ => rfl
  carried := fun _ _ => ⟨rfl, rfl⟩
  silent := fun _ _ => ⟨rfl, rfl⟩

def shortQueue : Params where
  nworkers := 3
  encrypt := true
  numRuns := 2
  taskCount := 5
  payloadBytes := 16
  iterations := 4

/-- Its 58 messages need no more nonces than there are. -/
theorem shortQueue_exactly_once : Dispatches shortQueue ∧
    Completes (fun _ => idleHost) shortQueue (fun _ => {}) servingSites ∧
    (∀ x e' t, ReachesJointly shortQueue (fun _ => {}) servingSites x e' t →
      (∀ s, ¬Step (rendezvous workers (Int × (Unit → Counters))).traced (masterBody shortQueue)
        (x, (e', t)) s) → ∃ c', x = .ret (0, c')) ∧
    ∃ c' e' t, ReachesJointly shortQueue (fun _ => {}) servingSites (.ret (0, c')) e' t := by
  have hp : shortQueue.Admitted := by constructor <;> decide
  have h := taskq_exactly_once hp
  have hdone := h.2 (fun _ => idleHost) (fun _ => {}) servingSites (servingSites_attend _)
  have hroom : HasRoom shortQueue.nworkers shortQueue.messages (fun _ => {}) := by
    have hfew : 0+shortQueue.messages < uint64Max := by decide
    exact fun _ _ => ⟨hfew, hfew⟩
  refine ⟨h.1, hdone, hdone.returns hroom, ?_⟩
  obtain ⟨⟨x, e', t⟩, hsteps, hstuck⟩ := exists_stuck hdone.ends
  obtain ⟨c', rfl⟩ := hdone.returns hroom x e' t hsteps hstuck
  exact ⟨c', e', t, hsteps⟩

/-- No message is both a task and the end of a run. -/
theorem sent_le (run : Int32) (t : List MasterEvent) :
    (dispatched run t).length + (ended run t).length ≤ (recipients t).length := by
  induction t with
  | nil => exact Nat.le_refl 0
  | cons event t ih =>
    cases event with
    | received _ _ _ => exact ih
    | sent w m =>
      have hcommand : taskqTaskWork ≠ taskqTaskEnd := by decide
      have hone : (dispatched run [.sent w m]).length + (ended run [.sent w m]).length ≤ 1 := by
        simp only [dispatched, ended, List.filterMap_cons, List.filterMap_nil, dispatchOf, endOf]
        grind
      have hsplit : t.cons (.sent w m) = [.sent w m] ++ t := rfl
      have hrecipients : recipients (t.cons (.sent w m)) = w :: recipients t := rfl
      rw [hrecipients, hsplit, dispatched_append, ended_append, List.length_append,
        List.length_append, List.length_cons]
      omega

/-- A run that has been served under encryption has cost a nonce for each task. -/
theorem served_le (hencrypt : p.encrypt = true) {c' : Nat → Counters} {t : List MasterEvent}
    (hsteps : Reaches p (fun _ => {}) (.ret (0, c')) t) {run : Int32} (hrun : run ∈ runs p.numRuns) :
    p.taskCount.toNat + p.nworkers ≤ p.nworkers*uint64Max := by
  obtain ⟨hserved, hended⟩ := Maintains.at_return (fun n => runTaskqMaster_keeps n _) hsteps rfl
    run hrun
  have hbooks : Books (Finset.range p.nworkers) p.encrypt (0+p.messages) (0+p.messages)
      (fun _ => {}) ([] : List MasterEvent) :=
    ⟨Nat.le_of_eq (Nat.zero_add _), fun _ => ⟨Nat.zero_le _, fun _ _ => Nat.zero_le _⟩⟩
  have hpaid := (Maintains.at_return
    (fun n => runTaskqMaster_costs (n := n) (k := 0) (fun _ => {}) [] hbooks) hsteps).paid hencrypt
  have htotal := hpaid.total
  have hsent := sent_le run t
  have hdispatched := congrArg List.length hserved.dispatched_once
  rw [List.length_map, List.length_range] at hdispatched
  rw [hdispatched, hended, List.length_range] at hsent
  rw [Finset.card_range] at htotal
  exact hsent.trans htotal

def longQueue : Params where
  nworkers := 1
  encrypt := true
  numRuns := 1
  taskCount := UInt64.ofNat uint64Max
  payloadBytes := 1
  iterations := 1

theorem longQueue_admitted : longQueue.Admitted := by
  constructor <;> decide

theorem longQueue_no_return {c' : Nat → Counters} {t : List MasterEvent} :
    ¬Reaches longQueue (fun _ => {}) (.ret (0, c')) t := by
  intro hsteps
  have hrun : 1 ∈ runs longQueue.numRuns := by decide
  have hle := served_le (p := longQueue) rfl hsteps hrun
  have htasks : longQueue.taskCount.toNat = uint64Max := by decide
  rw [htasks, longQueue, Nat.one_mul] at hle
  exact Nat.not_succ_le_self _ hle

def Aborts (x : Prog (Party Nat Head Int) (Int × (Nat → Counters))) (e : Sites) : Prop :=
  (x = .abort .nonceExhausted ∧ RanOut none .nonceExhausted e) ∨
    ∃ w, x.action.bind Action.peer = some w ∧
      (rendezvous workers (Int × (Unit → Counters))).stopped e w .nonceExhausted ∧
      RanOut (some w) .nonceExhausted e

theorem longQueue_runs_out : longQueue.Admitted ∧
    AllServe (fun _ => idleHost) longQueue (fun _ => {}) servingSites ∧
    ∃ x e' t, ReachesJointly longQueue (fun _ => {}) servingSites x e' t ∧ Aborts x e' := by
  have hserve : AllServe (fun _ => idleHost) longQueue (fun _ => {}) servingSites :=
    servingSites_attend _
  have hreturn : ∀ (r : Int × (Nat → Counters)) (e' : Sites),
      (r.1 = 0 ∧ ∀ w ∈ List.range longQueue.nworkers,
        (e' w).Runs workers (enter (.commands idleHost) (r.2 w).mirror)) →
      ¬Steps (rendezvous workers (Int × (Unit → Counters))) (masterBody longQueue)
        (runTaskqMaster longQueue (fun _ => {}), servingSites) (.ret r, e') := by
    intro r e' hr hsteps
    obtain ⟨status, c'⟩ := r
    obtain rfl : status = 0 := hr.1
    obtain ⟨t, hsteps⟩ := hsteps.traced []
    exact longQueue_no_return hsteps.listened
  obtain ⟨x, e', r, hsteps, hend⟩ := (hserve.ensures longQueue_admitted).exists_abort hreturn
  obtain ⟨t, hsteps⟩ := hsteps.traced []
  refine ⟨longQueue_admitted, hserve, x, e', t, hsteps, ?_⟩
  cases hend with
  | inl habort =>
    obtain ⟨hx, hout⟩ := habort
    obtain rfl := hout.1
    exact .inl ⟨hx, hout⟩
  | inr hstop =>
    obtain ⟨w, hpeer, hs, hout⟩ := hstop
    obtain rfl := hout.1
    exact .inr ⟨w, hpeer, hs, hout⟩

end Taskq
end DistributedEnclave.Npb
