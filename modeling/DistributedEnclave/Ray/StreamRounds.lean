import DistributedEnclave.Parties
import DistributedEnclave.Ray.StreamTriad
import DistributedEnclave.Transition

/-! The STREAM rounds of the Ray driver. Every task is pinned to a node, sets up its arrays, joins
the barrier, and measures when the barrier has opened; Ray starts the task again when its process
dies, and then the barrier has counted it already. No step loses a call of the barrier or a pass
of the Triad. -/
namespace DistributedEnclave.Ray
open Parties Transition Relation
variable {α ν : Type}

structure StreamBarrier where
  nParties : Nat
  arrived : Nat
  event : Bool

def StreamBarrier.init (nParties : Nat) : StreamBarrier := ⟨nParties, 0, false⟩

/-- `wait` up to where it awaits the event. -/
def StreamBarrier.wait (b : StreamBarrier) : StreamBarrier :=
  { b with
    arrived := b.arrived+1
    event := b.event || decide (b.nParties ≤ b.arrived+1) }

/-- The calls that an async actor runs at a time. -/
def maxConcurrency : Nat := 1000

/-- The actor has room for a call: the calls that it runs await the event. -/
def StreamBarrier.takes (b : StreamBarrier) : Bool := b.event || decide (b.arrived < maxConcurrency)

structure StreamParams (α : Type) where
  nElements : Nat
  alpha : α
  nWarmup : Nat
  measure : Nat
  chunkElems : Nat

/-- `t_elapsed_s`, `n_iters` and the checksum. -/
structure StreamResult (α : Type) where
  elapsed : Nat
  nIters : Nat
  checksum : Option α

/-- Where `remote_stream_triad` is. -/
inductive StreamStage (α : Type) where
  | submitted
  | warming (left : Nat) (arr : StreamArrays α)
  | calling (arr : StreamArrays α)
  | waiting (arr : StreamArrays α)
  | measuring (t0 nIters : Nat) (arr : StreamArrays α)
  | returned (result : StreamResult α)
  | failed

/-- A task, with the arrays that its last attempt began with and the `A` that each pass of its
timed loop has left. -/
structure StreamTask (ν α : Type) where
  node : ν
  retries : Nat
  stage : StreamStage α
  given : StreamArrays α := .fresh
  passes : List (List α) := []

/-- How often Ray starts a task again. -/
def maxRetries : Nat := 3

/-- Where `_once_stream_n` is. -/
inductive StreamDriver (α : Type) where
  | submitting | getting
  | finished (outs : List (StreamResult α))
  | raised

/-- A round: the barrier, what has come of the calls of attempts that died, the worker processes,
and the rounds that are still to come. -/
structure StreamRound (ν α : Type) where
  now : Nat
  processes : ν → StreamArrays α
  driver : StreamDriver α
  tasks : List (StreamTask ν α)
  barrier : StreamBarrier
  strayCalls : Nat
  goneArrivals : Nat
  pending : List Nat

def StreamRound.begin (now : Nat) (processes : ν → StreamArrays α) (nActive : Nat)
    (pending : List Nat) : StreamRound ν α :=
  ⟨now, processes, .submitting, [], .init nActive, 0, 0, pending⟩

def StreamStage.busy : StreamStage α → Bool
  | .warming .. | .calling _ | .waiting _ | .measuring .. => true
  | .submitted | .returned _ | .failed => false

def StreamStage.arrived : StreamStage α → Bool
  | .waiting _ | .measuring .. | .returned _ => true
  | .submitted | .warming .. | .calling _ | .failed => false

def StreamStage.passed : StreamStage α → Bool
  | .measuring .. | .returned _ => true
  | .submitted | .warming .. | .calling _ | .waiting _ | .failed => false

def StreamStage.result? : StreamStage α → Option (StreamResult α)
  | .returned result => some result
  | _ => none

def StreamTask.retry (task : StreamTask ν α) : StreamTask ν α :=
  match task.retries with
  | 0 => { task with stage := .failed }
  | r+1 => { task with retries := r, stage := .submitted }

def StreamTask.begin (p : StreamParams α) (task : StreamTask ν α) (arr : StreamArrays α) :
    StreamTask ν α :=
  { task with stage := .warming p.nWarmup arr, given := arr, passes := [] }

def StreamTask.iterate (p : StreamParams α) (now : Nat) (task : StreamTask ν α) (t0 nIters : Nat)
    (arr : StreamArrays α) : StreamTask ν α :=
  { task with
    stage := if p.measure ≤ now-t0 then .returned ⟨now-t0, nIters+1, arr.A[0]?⟩
      else .measuring t0 (nIters+1) arr
    passes := task.passes ++ [arr.A] }

def StreamRound.setTask (s : StreamRound ν α) (i : Nat) (task : StreamTask ν α) :
    StreamRound ν α :=
  { s with tasks := s.tasks.set i task }

variable [DecidableEq ν] in
def StreamRound.cpusBusy (s : StreamRound ν α) (node : ν) : Nat :=
  s.tasks.countP fun task => decide (task.node = node) && task.stage.busy

theorem retry_arrived (task : StreamTask ν α) : task.retry.stage.arrived = false := by
  rw [StreamTask.retry]
  split <;> rfl

theorem iterate_arrived (task : StreamTask ν α) (now t0 nIters : Nat) (arr : StreamArrays α) :
    (task.iterate p now t0 nIters arr).stage.arrived = true := by
  dsimp only [StreamTask.iterate]
  split <;> rfl

theorem busy_result {stage : StreamStage α} (h : stage.busy = true) : stage.result? = none := by
  cases stage with
  | returned r => cases h
  | _ => rfl

/-- The processes after one of them has gone on with other arrays, or has died. -/
theorem process_update [DecidableEq ν] {P : StreamArrays α → Prop} {n : Nat}
    {processes : ν → StreamArrays α} {node : ν} {arr : StreamArrays α}
    (h : ∀ node, (processes node).initN = n → P (processes node)) (harr : arr.initN = n → P arr) :
    ∀ node', (Function.update processes node arr node').initN = n →
      P (Function.update processes node arr node') := by
  intro node' hinit
  by_cases heq : node' = node
  · subst heq
    rw [Function.update_self] at hinit ⊢
    exact harr hinit
  · rw [Function.update_of_ne heq] at hinit ⊢
    exact h node' hinit

/-- A process that has run no task has no arrays. -/
theorem fresh_none {P : StreamArrays α → Prop} {n : Nat} (hpos : 0 < n) :
    (StreamArrays.fresh : StreamArrays α).initN = n → P .fresh := by
  intro h
  rw [← h] at hpos
  exact absurd hpos (Nat.lt_irrefl 0)

theorem arrived_of_result {stage : StreamStage α} (h : stage.result?.isSome = true) :
    stage.arrived = true := by
  cases stage with
  | returned r => rfl
  | _ => cases h

theorem arrived_of_passed {stage : StreamStage α} (h : stage.passed = true) :
    stage.arrived = true := by
  cases stage with
  | measuring t0 nIters arr => rfl
  | returned r => rfl
  | _ => cases h

theorem results_of_returned {tasks : List (StreamTask ν α)}
    (h : ∀ task ∈ tasks, task.stage.result?.isSome = true) :
    ∃ outs : List (StreamResult α), tasks.map (fun task => task.stage.result?) = outs.map some := by
  induction tasks with
  | nil => exact ⟨[], rfl⟩
  | cons task tasks ih =>
    obtain ⟨outs, houts⟩ := ih fun t ht => h t (List.mem_cons_of_mem task ht)
    obtain ⟨r, hr⟩ := Option.isSome_iff_exists.mp (h task List.mem_cons_self)
    refine ⟨r :: outs, ?_⟩
    rw [List.map_cons, List.map_cons, hr, houts]

theorem StreamBarrier.wait_event {b : StreamBarrier}
    (h : b.event = decide (b.nParties ≤ b.arrived)) :
    b.wait.event = decide (b.wait.nParties ≤ b.wait.arrived) := by
  rw [wait, h]
  by_cases hle : b.nParties ≤ b.arrived
  · rw [decide_eq_true hle, Bool.true_or, decide_eq_true (Nat.le_succ_of_le hle)]
  · rw [decide_eq_false hle, Bool.false_or]

theorem StreamBarrier.wait_mono {b : StreamBarrier} (h : b.event = true) : b.wait.event = true := by
  rw [wait, h, Bool.true_or]

/-- The rounds have no more workers than there are nodes and than the barrier serves. -/
def StreamRound.Fits (nodeIds : List ν) (s : StreamRound ν α) : Prop :=
  ∀ n ∈ s.barrier.nParties :: s.pending, n ≤ nodeIds.length ∧ n ≤ maxConcurrency

variable [Add α] [Mul α]

variable [DecidableEq ν] in
/-- The steps of the driver, the tasks, the barrier and Ray. -/
inductive StreamStep (p : StreamParams α) (nodeIds : List ν) (cpus : ν → Nat) :
    StreamRound ν α → StreamRound ν α → Prop
  | tick (s) : StreamStep p nodeIds cpus s { s with now := s.now+1 }
  | submit {s node} (hdriver : s.driver = .submitting) (hmore : s.tasks.length < s.barrier.nParties)
    (hnode : nodeIds[s.tasks.length]? = some node) :
    StreamStep p nodeIds cpus s
      { s with tasks := s.tasks ++ [{ node, retries := maxRetries, stage := .submitted }] }
  | indexError {s} (hdriver : s.driver = .submitting)
    (hmore : s.tasks.length < s.barrier.nParties) (hnode : nodeIds[s.tasks.length]? = none) :
    StreamStep p nodeIds cpus s { s with driver := .raised }
  | get {s} (hdriver : s.driver = .submitting) (hall : s.tasks.length = s.barrier.nParties) :
    StreamStep p nodeIds cpus s { s with driver := .getting }
  | finish {s outs} (hdriver : s.driver = .getting)
    (houts : s.tasks.map (fun task => task.stage.result?) = outs.map some) :
    StreamStep p nodeIds cpus s { s with driver := .finished outs }
  | raise {s task} (hdriver : s.driver = .getting) (hmem : task ∈ s.tasks)
    (hfailed : task.stage = .failed) : StreamStep p nodeIds cpus s { s with driver := .raised }
  | next {s outs nActive rest} (hdriver : s.driver = .finished outs)
    (hpending : s.pending = nActive :: rest) :
    StreamStep p nodeIds cpus s (.begin s.now s.processes nActive rest)
  | start {s i task cache} (B C A : List α) (hi : s.tasks[i]? = some task)
    (hstage : task.stage = .submitted) (hcpu : s.cpusBusy task.node < cpus task.node)
    (hcache : cache = s.processes task.node ∨ cache = .fresh) (hB : B.length = p.nElements)
    (hC : C.length = p.nElements) (hA : A.length = p.nElements) :
    StreamStep p nodeIds cpus s
      (s.setTask i (task.begin p (cache.prepare p.nElements p.alpha B C A)))
  | warm {s i task left arr} (hi : s.tasks[i]? = some task)
    (hstage : task.stage = .warming (left+1) arr) :
    StreamStep p nodeIds cpus s (s.setTask i
      { task with stage := .warming left (triad p.nElements p.alpha p.chunkElems arr) })
  | call {s i task arr} (hi : s.tasks[i]? = some task) (hstage : task.stage = .warming 0 arr) :
    StreamStep p nodeIds cpus s (s.setTask i { task with stage := .calling arr })
  | arrive {s i task arr} (hi : s.tasks[i]? = some task) (hstage : task.stage = .calling arr)
    (htakes : s.barrier.takes = true) :
    StreamStep p nodeIds cpus s
      { s.setTask i { task with stage := .waiting arr } with barrier := s.barrier.wait }
  | strayArrive {s} (hstray : 0 < s.strayCalls) (htakes : s.barrier.takes = true) :
    StreamStep p nodeIds cpus s { s with
      strayCalls := s.strayCalls-1, goneArrivals := s.goneArrivals+1, barrier := s.barrier.wait }
  | strayDrop {s} (hstray : 0 < s.strayCalls) :
    StreamStep p nodeIds cpus s { s with strayCalls := s.strayCalls-1 }
  | release {s i task arr} (hi : s.tasks[i]? = some task) (hstage : task.stage = .waiting arr)
    (hevent : s.barrier.event = true) :
    StreamStep p nodeIds cpus s (s.setTask i { task with stage := .measuring s.now 0 arr })
  | iterate {s i task t0 nIters arr} (hi : s.tasks[i]? = some task)
    (hstage : task.stage = .measuring t0 nIters arr) :
    StreamStep p nodeIds cpus s
      { s.setTask i (task.iterate p s.now t0 nIters
          (triad p.nElements p.alpha p.chunkElems arr)) with
        processes := Function.update s.processes task.node
          (triad p.nElements p.alpha p.chunkElems arr) }
  | die {s i task} (hi : s.tasks[i]? = some task) (hbusy : task.stage.busy = true) :
    StreamStep p nodeIds cpus s
      { s.setTask i task.retry with
        strayCalls := s.strayCalls + if task.stage matches .calling _ then 1 else 0
        goneArrivals := s.goneArrivals + if task.stage.arrived then 1 else 0
        processes := Function.update s.processes task.node .fresh }

structure StreamArrays.Keeps (given arr : StreamArrays α) : Prop where
  B : arr.B = given.B
  C : arr.C = given.C

theorem StreamArrays.Keeps.scaledSum {given arr : StreamArrays α} (h : given.Keeps arr)
    (alpha : α) : arr.scaledSum alpha = given.scaledSum alpha := by
  rw [StreamArrays.scaledSum, h.B, h.C]
  rfl

/-- There have been so many passes, and each has left the whole Triad of the arrays that the
attempt began with. -/
structure Triads (p : StreamParams α) (given : StreamArrays α) (passes : List (List α))
    (nIters : Nat) : Prop where
  sized : given.Sized p.nElements
  count : passes.length = nIters
  whole : ∀ A ∈ passes, A = given.scaledSum p.alpha

def StreamStage.Ok (p : StreamParams α) (given : StreamArrays α) (passes : List (List α)) :
    StreamStage α → Prop
  | .warming _ arr | .calling arr | .waiting arr =>
    arr.Sized p.nElements ∧ given.Keeps arr ∧ Triads p given passes 0
  | .measuring _ nIters arr =>
    arr.Sized p.nElements ∧ given.Keeps arr ∧ Triads p given passes nIters
  | .returned r => p.measure ≤ r.elapsed ∧ 0 < r.nIters ∧ Triads p given passes r.nIters ∧
      r.checksum = (given.scaledSum p.alpha)[0]?
  | .submitted | .failed => True

structure StreamTask.Sound (p : StreamParams α) (nodeIds : List ν) (event : Bool) (i : Nat)
    (task : StreamTask ν α) : Prop where
  node : nodeIds[i]? = some task.node
  passed : task.stage.passed = true → event = true
  stage : task.stage.Ok p task.given task.passes

structure StreamRound.Sound (p : StreamParams α) (nodeIds : List ν) (s : StreamRound ν α) :
    Prop where
  event : s.barrier.event = decide (s.barrier.nParties ≤ s.barrier.arrived)
  arrived : s.barrier.arrived = s.tasks.countP (·.stage.arrived) + s.goneArrivals
  within : s.tasks.length ≤ s.barrier.nParties
  task : ∀ i (task : StreamTask ν α), s.tasks[i]? = some task →
    task.Sound p nodeIds s.barrier.event i
  process : ∀ node, (s.processes node).initN = p.nElements →
    (s.processes node).Whole p.nElements p.alpha
  dispatched : s.driver = .getting → s.tasks.length = s.barrier.nParties
  finished : ∀ outs, s.driver = .finished outs → s.tasks.length = s.barrier.nParties ∧
    s.tasks.map (fun task => task.stage.result?) = outs.map some
  pending : ∀ nActive ∈ s.pending, 0 < nActive

section Sound
variable {p : StreamParams α} {nodeIds : List ν} {s s' : StreamRound ν α}

theorem StreamRound.Sound.begin (now : Nat) {processes : ν → StreamArrays α} {nActive : Nat}
    {pending : List Nat} (hprocess : ∀ node, (processes node).initN = p.nElements →
      (processes node).Whole p.nElements p.alpha) (hpos : 0 < nActive)
    (hpending : ∀ n ∈ pending, 0 < n) :
    (StreamRound.begin now processes nActive pending).Sound p nodeIds := by
  refine ⟨?_, rfl, Nat.zero_le _, ?_, hprocess, ?_, ?_, hpending⟩
  · exact (decide_eq_false (Nat.not_le.mpr hpos)).symm
  · intro i task hi
    cases hi
  · intro h
    cases h
  · intro outs h
    cases h

/-- A step of one task, with what it does to the barrier, keeps the round sound. -/
theorem StreamRound.Sound.move (h : s.Sound p nodeIds) {i : Nat} {task task' : StreamTask ν α}
    (hi : s.tasks[i]? = some task) (hresult : task.stage.result? = none)
    (htasks : s'.tasks = s.tasks.set i task') (hdriver : s'.driver = s.driver)
    (hpending : s'.pending = s.pending) (hparties : s'.barrier.nParties = s.barrier.nParties)
    (hevent : s'.barrier.event = decide (s'.barrier.nParties ≤ s'.barrier.arrived))
    (hmono : s.barrier.event = true → s'.barrier.event = true)
    (hcount : s'.barrier.arrived+s.goneArrivals + (if task.stage.arrived then 1 else 0) =
      s.barrier.arrived+s'.goneArrivals + if task'.stage.arrived then 1 else 0)
    (htask : task'.Sound p nodeIds s'.barrier.event i)
    (hprocess : ∀ node, (s'.processes node).initN = p.nElements →
      (s'.processes node).Whole p.nElements p.alpha) : s'.Sound p nodeIds := by
  have hadd := countP_set_add hi task' (fun task => task.stage.arrived)
  refine ⟨hevent, ?_, ?_, ?_, hprocess, ?_, ?_, ?_⟩
  · have harrived := h.arrived
    rw [htasks]
    omega
  · rw [htasks, List.length_set, hparties]
    exact h.within
  · intro j t hj
    rw [htasks] at hj
    refine forall_set (fun j t hj => ?_) htask hj
    have ht := h.task j t hj
    exact ⟨ht.node, fun hpassed => hmono (ht.passed hpassed), ht.stage⟩
  · intro hget
    rw [htasks, List.length_set, hparties]
    exact h.dispatched (hdriver ▸ hget)
  · intro outs hfinished
    obtain ⟨_, houts⟩ := h.finished outs (hdriver ▸ hfinished)
    have hget : (outs.map some)[i]? = some none := by
      rw [← houts, List.getElem?_map, hi, Option.map_some, hresult]
    obtain ⟨_, _, hnone⟩ := List.mem_map.mp (List.mem_of_getElem? hget)
    cases hnone
  · rw [hpending]
    exact h.pending

/-- A step that leaves the tasks and the barrier alone keeps the round sound. -/
theorem StreamRound.Sound.drive (h : s.Sound p nodeIds) {driver : StreamDriver α}
    (hdispatched : driver = .getting → s.tasks.length = s.barrier.nParties)
    (hfinished : ∀ outs, driver = .finished outs → s.tasks.length = s.barrier.nParties ∧
      s.tasks.map (fun task => task.stage.result?) = outs.map some) :
    { s with driver }.Sound p nodeIds :=
  ⟨h.event, h.arrived, h.within, h.task, h.process, hdispatched, hfinished, h.pending⟩

/-- A step of one task that the barrier does not see. -/
theorem StreamRound.Sound.setTask (h : s.Sound p nodeIds) {i : Nat} {task task' : StreamTask ν α}
    (hi : s.tasks[i]? = some task) (hresult : task.stage.result? = none)
    (hnode : task'.node = task.node) (harrived : task'.stage.arrived = task.stage.arrived)
    (hpassed : task'.stage.passed = true → s.barrier.event = true)
    (hstage : task'.stage.Ok p task'.given task'.passes) :
    (s.setTask i task').Sound p nodeIds := by
  refine h.move hi hresult rfl rfl rfl rfl h.event id ?_
    ⟨hnode.symm ▸ (h.task i task hi).node, hpassed, hstage⟩ h.process
  rw [harrived]
  rfl

theorem StreamTask.Sound.retry {event : Bool} {i : Nat} {task : StreamTask ν α}
    (h : task.Sound p nodeIds event i) : task.retry.Sound p nodeIds event i := by
  rw [StreamTask.retry]
  split
  all_goals exact ⟨h.node, fun hpassed => absurd hpassed Bool.false_ne_true, trivial⟩

/-- One more pass is one more Triad. -/
theorem Triads.next {given : StreamArrays α} {passes : List (List α)} {nIters : Nat}
    (h : Triads p given passes nIters) {A : List α} (hA : A = given.scaledSum p.alpha) :
    Triads p given (passes ++ [A]) (nIters+1) := by
  refine ⟨h.sized, ?_, ?_⟩
  · rw [List.length_append, h.count, List.length_singleton]
  · intro A' hmem
    cases List.mem_append.mp hmem with
    | inl hold => exact h.whole A' hold
    | inr hnew => exact (List.mem_singleton.mp hnew).trans hA

theorem StreamTask.Sound.iterate {event : Bool} {i : Nat} {task : StreamTask ν α}
    (h : task.Sound p nodeIds event i) {now t0 nIters : Nat} {arr : StreamArrays α}
    (hstage : task.stage = .measuring t0 nIters arr) (hchunk : 0 < p.chunkElems) :
    (task.iterate p now t0 nIters (triad p.nElements p.alpha p.chunkElems arr)).Sound p nodeIds
      event i := by
  obtain ⟨harr, hkeeps, htriads⟩ : (StreamStage.measuring t0 nIters arr).Ok p task.given
      task.passes := hstage ▸ h.stage
  have hevent : event = true := h.passed (by rw [hstage]; rfl)
  have hA : (triad p.nElements p.alpha p.chunkElems arr).A = task.given.scaledSum p.alpha := by
    rw [triad_eq harr hchunk]
    exact hkeeps.scaledSum p.alpha
  refine ⟨h.node, fun _ => hevent, ?_⟩
  dsimp only [StreamTask.iterate]
  split
  · rename_i helapsed
    exact ⟨helapsed, Nat.succ_pos nIters, htriads.next hA, congrArg (fun l => l[0]?) hA⟩
  · refine ⟨(harr.triad hchunk).toSized, ?_, htriads.next hA⟩
    rw [triad_eq harr hchunk]
    exact ⟨hkeeps.B, hkeeps.C⟩

/-- A step of a task that has not joined the barrier. -/
theorem StreamRound.Sound.setUp (h : s.Sound p nodeIds) {i : Nat} {task task' : StreamTask ν α}
    (hi : s.tasks[i]? = some task) (hnode : task'.node = task.node)
    (hold : task.stage.arrived = false) (hnew : task'.stage.arrived = false)
    (hstage : task'.stage.Ok p task'.given task'.passes) :
    (s.setTask i task').Sound p nodeIds := by
  refine h.setTask hi ?_ hnode (hnew.trans hold.symm) ?_ hstage
  · apply Option.not_isSome_iff_eq_none.mp
    intro hsome
    exact absurd (hold.symm.trans (arrived_of_result hsome)) Bool.false_ne_true
  · intro hpassed
    exact absurd (hnew.symm.trans (arrived_of_passed hpassed)) Bool.false_ne_true

variable [DecidableEq ν] {cpus : ν → Nat}

theorem StreamRound.Sound.step (h : s.Sound p nodeIds) (hpos : 0 < p.nElements)
    (hchunk : 0 < p.chunkElems) (hstep : StreamStep p nodeIds cpus s s') : s'.Sound p nodeIds := by
  cases hstep with
  | tick => exact ⟨h.event, h.arrived, h.within, h.task, h.process, h.dispatched, h.finished,
      h.pending⟩
  | @submit node hdriver hmore hnode =>
    refine ⟨h.event, ?_, ?_, ?_, h.process, ?_, ?_, h.pending⟩
    · rw [h.arrived, List.countP_append]
      rfl
    · rw [List.length_append]
      exact hmore
    · intro i task hi
      rw [List.getElem?_append] at hi
      split at hi
      · exact h.task i task hi
      · obtain ⟨hlt, heq⟩ := List.getElem?_eq_some_iff.mp hi
        have hi' : i = s.tasks.length := by
          rw [List.length_singleton] at hlt
          omega
        subst hi'
        rw [List.getElem_singleton] at heq
        subst heq
        exact ⟨hnode, fun hpassed => absurd hpassed Bool.false_ne_true, trivial⟩
    · intro hget
      exact absurd (hdriver.symm.trans hget) (by simp)
    · intro outs hfinished
      exact absurd (hdriver.symm.trans hfinished) (by simp)
  | indexError => exact h.drive (by simp) (by simp)
  | get hdriver hall => exact h.drive (fun _ => hall) (by simp)
  | finish hdriver houts =>
    refine h.drive (by simp) fun outs heq => ⟨h.dispatched hdriver, ?_⟩
    rw [← StreamDriver.finished.inj heq]
    exact houts
  | raise => exact h.drive (by simp) (by simp)
  | @next outs nActive rest hdriver hpending =>
    have hall := h.pending
    rw [hpending] at hall
    exact .begin _ h.process (hall nActive List.mem_cons_self)
      fun n hn => hall n (List.mem_cons_of_mem nActive hn)
  | @start i task cache B C A hi hstage hcpu hcache hB hC hA =>
    have hcached : cache.initN = p.nElements → cache.Whole p.nElements p.alpha := by
      cases hcache with
      | inl heq => exact heq ▸ h.process task.node
      | inr heq => exact heq ▸ fresh_none hpos
    have hwhole := StreamArrays.prepare_whole hcached hB hC hA
    exact h.setUp hi rfl (hstage ▸ rfl) rfl
      ⟨hwhole.toSized, ⟨rfl, rfl⟩, hwhole.toSized, rfl, fun A hmem => by cases hmem⟩
  | @warm i task left arr hi hstage =>
    obtain ⟨harr, hkeeps, htriads⟩ : (StreamStage.warming (left+1) arr).Ok p task.given
      task.passes := hstage ▸ (h.task i task hi).stage
    refine h.setUp hi rfl (hstage ▸ rfl) rfl ⟨(harr.triad hchunk).toSized, ?_, htriads⟩
    rw [triad_eq harr hchunk]
    exact ⟨hkeeps.B, hkeeps.C⟩
  | @call i task arr hi hstage =>
    have harr := (h.task i task hi).stage
    rw [hstage] at harr
    exact h.setUp hi rfl (hstage ▸ rfl) rfl harr
  | @arrive i task arr hi hstage htakes =>
    have harr := (h.task i task hi).stage
    rw [hstage] at harr
    refine h.move hi (hstage ▸ rfl) rfl rfl rfl rfl (StreamBarrier.wait_event h.event)
      StreamBarrier.wait_mono ?_ ⟨(h.task i task hi).node, ?_, harr⟩ h.process
    case refine_2 =>
      intro hpassed
      cases hpassed
    rw [hstage]
    change s.barrier.arrived+1+s.goneArrivals+0 = s.barrier.arrived+s.goneArrivals+1
    omega
  | strayArrive hstray htakes =>
    refine ⟨StreamBarrier.wait_event h.event, ?_, h.within, ?_, h.process, h.dispatched,
      h.finished, h.pending⟩
    · have harrived := h.arrived
      change s.barrier.arrived+1 = s.tasks.countP (·.stage.arrived)+(s.goneArrivals+1)
      omega
    · intro i task hi
      have ht := h.task i task hi
      exact ⟨ht.node, fun hpassed => StreamBarrier.wait_mono (ht.passed hpassed), ht.stage⟩
  | strayDrop => exact ⟨h.event, h.arrived, h.within, h.task, h.process, h.dispatched, h.finished,
      h.pending⟩
  | @release i task arr hi hstage hevent =>
    have harr := (h.task i task hi).stage
    rw [hstage] at harr
    exact h.setTask hi (hstage ▸ rfl) rfl (hstage ▸ rfl) (fun _ => hevent) harr
  | @iterate i task t0 nIters arr hi hstage =>
    have harr := (h.task i task hi).stage
    rw [hstage] at harr
    refine h.move hi (hstage ▸ rfl) rfl rfl rfl rfl h.event id ?_
      ((h.task i task hi).iterate hstage hchunk)
      (process_update h.process fun _ => harr.1.triad hchunk)
    rw [iterate_arrived, hstage]
    rfl
  | @die i task hi hbusy =>
    refine h.move hi (busy_result hbusy) rfl rfl rfl rfl h.event id ?_ (h.task i task hi).retry
      (process_update h.process (fresh_none hpos))
    rw [retry_arrived]
    exact Nat.add_assoc _ _ _

end Sound

end DistributedEnclave.Ray
