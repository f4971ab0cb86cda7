import DistributedEnclave.Ray.StreamRounds

/-! The STREAM rounds can always be brought to their end, and what they measure. -/
namespace DistributedEnclave.Ray
open Parties Transition Relation
variable {α ν : Type} [Add α] [Mul α]

section Progress
variable {p : StreamParams α} {nodeIds : List ν} {s s' : StreamRound ν α} {n : Nat}
  {pending : List Nat}

def StreamRound.At (i : Nat) (P : StreamStage α → Bool) (s : StreamRound ν α) : Prop :=
  ∃ task, s.tasks[i]? = some task ∧ P task.stage = true

structure StreamRound.Going (p : StreamParams α) (nodeIds : List ν) (n : Nat) (pending : List Nat)
    (s : StreamRound ν α) : Prop where
  sound : s.Sound p nodeIds
  driver : s.driver = .getting
  parties : s.barrier.nParties = n
  pending : s.pending = pending
  alive : ∀ (i : Nat) (task : StreamTask ν α), s.tasks[i]? = some task → task.stage ≠ .failed

theorem StreamRound.Going.length (h : s.Going p nodeIds n pending) : s.tasks.length = n :=
  (h.sound.dispatched h.driver).trans h.parties

theorem StreamRound.Going.get (h : s.Going p nodeIds n pending) {i : Nat} (hi : i < n) :
    ∃ task, s.tasks[i]? = some task :=
  ⟨_, List.getElem?_eq_getElem (h.length.symm ▸ hi)⟩

/-- A barrier that awaits no more callers than an actor serves has room for them. -/
theorem StreamRound.Going.takes (h : s.Going p nodeIds n pending) (hroom : n ≤ maxConcurrency) :
    s.barrier.takes = true := by
  rw [StreamBarrier.takes, h.sound.event, h.parties]
  by_cases hle : n ≤ s.barrier.arrived
  · rw [decide_eq_true hle, Bool.true_or]
  · rw [decide_eq_true (show s.barrier.arrived < maxConcurrency by omega), Bool.or_true]

/-- The barrier is open when all have arrived. -/
theorem StreamRound.Going.opened (h : s.Going p nodeIds n pending)
    (hall : ∀ i < n, s.At i StreamStage.arrived) : s.barrier.event = true := by
  have hcount : s.tasks.countP (fun task => task.stage.arrived) = s.tasks.length := by
    apply List.countP_eq_length.mpr
    intro task hmem
    obtain ⟨i, hi, rfl⟩ := List.getElem_of_mem hmem
    obtain ⟨task, htask, harrived⟩ := hall i (h.length ▸ hi)
    rw [List.getElem?_eq_getElem hi, Option.some.injEq] at htask
    exact htask ▸ harrived
  have harrived := h.sound.arrived
  rw [hcount, h.length] at harrived
  rw [h.sound.event, h.parties, decide_eq_true]
  omega

variable [DecidableEq ν] {cpus : ν → Nat}

def StreamRound.Takes (p : StreamParams α) (nodeIds : List ν) (cpus : ν → Nat) (n : Nat)
    (pending : List Nat) (i : Nat) (P : StreamStage α → Bool) (s : StreamRound ν α) : Prop :=
  ∃ s' task, ReflTransGen (StreamStep p nodeIds cpus) s s' ∧ s'.Going p nodeIds n pending ∧
    s'.tasks = s.tasks.set i task ∧ P task.stage = true

theorem StreamRound.Takes.head {i : Nat} {P : StreamStage α → Bool} {task : StreamTask ν α}
    (hstep : StreamStep p nodeIds cpus s s') (htasks : s'.tasks = s.tasks.set i task)
    (h : s'.Takes p nodeIds cpus n pending i P) : s.Takes p nodeIds cpus n pending i P := by
  obtain ⟨s'', task', hrun, hgoing, htasks', hP⟩ := h
  refine ⟨s'', task', ReflTransGen.head hstep hrun, hgoing, ?_, hP⟩
  rw [htasks', htasks, List.set_set]

section Moves
variable (hpos : 0 < p.nElements) (hchunk : 0 < p.chunkElems)
include hpos hchunk

theorem StreamRound.Going.move (h : s.Going p nodeIds n pending)
    (hstep : StreamStep p nodeIds cpus s s') {i : Nat} {task : StreamTask ν α}
    (htasks : s'.tasks = s.tasks.set i task) (hdriver : s'.driver = s.driver)
    (hparties : s'.barrier.nParties = s.barrier.nParties) (hpending : s'.pending = s.pending)
    (halive : task.stage ≠ .failed) : s'.Going p nodeIds n pending := by
  refine ⟨h.sound.step hpos hchunk hstep, hdriver.trans h.driver, hparties.trans h.parties,
    hpending.trans h.pending, fun j t hj => ?_⟩
  rw [htasks] at hj
  exact forall_set h.alive halive hj

theorem StreamRound.Takes.here {i : Nat} {P : StreamStage α → Bool} {task : StreamTask ν α}
    (h : s.Going p nodeIds n pending) (hstep : StreamStep p nodeIds cpus s s')
    (htasks : s'.tasks = s.tasks.set i task) (hdriver : s'.driver = s.driver)
    (hparties : s'.barrier.nParties = s.barrier.nParties) (hpending : s'.pending = s.pending)
    (halive : task.stage ≠ .failed) (hP : P task.stage = true) :
    s.Takes p nodeIds cpus n pending i P :=
  ⟨s', task, .single hstep,
    h.move hpos hchunk hstep htasks hdriver hparties hpending halive, htasks, hP⟩

section Arrival
variable (hroom : n ≤ maxConcurrency)
include hroom

theorem StreamRound.Going.calling_arrives (h : s.Going p nodeIds n pending) {i : Nat}
    {task : StreamTask ν α} {arr : StreamArrays α} (hi : s.tasks[i]? = some task)
    (hstage : task.stage = .calling arr) :
    s.Takes p nodeIds cpus n pending i StreamStage.arrived :=
  .here hpos hchunk h (.arrive hi hstage (h.takes hroom)) rfl rfl rfl rfl (by simp) rfl

theorem StreamRound.Going.warming_arrives (h : s.Going p nodeIds n pending) {i left : Nat}
    {task : StreamTask ν α} {arr : StreamArrays α} (hi : s.tasks[i]? = some task)
    (hstage : task.stage = .warming left arr) :
    s.Takes p nodeIds cpus n pending i StreamStage.arrived := by
  induction left generalizing s task arr with
  | zero =>
    have hstep : StreamStep p nodeIds cpus s _ := .call hi hstage
    refine .head hstep rfl ?_
    exact (h.move hpos hchunk hstep rfl rfl rfl rfl (by simp)).calling_arrives hpos hchunk hroom
      (get_set_self hi _) rfl
  | succ left ih =>
    have hstep : StreamStep p nodeIds cpus s _ := .warm hi hstage
    refine .head hstep rfl ?_
    exact ih (h.move hpos hchunk hstep rfl rfl rfl rfl (by simp)) (get_set_self hi _) rfl

variable (hnodup : nodeIds.Nodup) (hcpus : ∀ node ∈ nodeIds, 0 < cpus node)
include hnodup hcpus

omit hpos hchunk hroom in
/-- A task that has not begun finds the CPU of its node free, for no other task is pinned there. -/
theorem StreamRound.Going.cpu_free (h : s.Going p nodeIds n pending) {i : Nat}
    {task : StreamTask ν α} (hi : s.tasks[i]? = some task) (hstage : task.stage = .submitted) :
    s.cpusBusy task.node < cpus task.node := by
  have hnode := (h.sound.task i task hi).node
  have hnone : s.cpusBusy task.node = 0 := by
    apply List.countP_eq_zero.mpr
    intro other hmem hother
    rw [Bool.and_eq_true, decide_eq_true_eq] at hother
    obtain ⟨j, hj, rfl⟩ := List.getElem_of_mem hmem
    have hget := List.getElem?_eq_getElem hj
    have hother' := (h.sound.task j _ hget).node
    rw [hother.1, ← hnode] at hother'
    obtain ⟨hlt, _⟩ := List.getElem?_eq_some_iff.mp (hother'.trans hnode)
    have hij : j = i := (List.getElem?_inj hlt hnodup).mp hother'
    subst hij
    rw [Option.some.inj (hget.symm.trans hi), hstage] at hother
    exact absurd hother.2 Bool.false_ne_true
  rw [hnone]
  exact hcpus task.node (List.mem_of_getElem? hnode)

theorem StreamRound.Going.arrives (h : s.Going p nodeIds n pending) {i : Nat}
    {task : StreamTask ν α} (hi : s.tasks[i]? = some task)
    (harrived : task.stage.arrived = false) :
    s.Takes p nodeIds cpus n pending i StreamStage.arrived := by
  cases hstage : task.stage with
  | submitted =>
    have hstep : StreamStep p nodeIds cpus s _ :=
      .start (List.replicate p.nElements p.alpha) (List.replicate p.nElements p.alpha)
        (List.replicate p.nElements p.alpha) hi hstage (h.cpu_free hnodup hcpus hi hstage)
        (.inr rfl) List.length_replicate List.length_replicate List.length_replicate
    refine .head hstep rfl ?_
    exact (h.move hpos hchunk hstep rfl rfl rfl rfl (by simp [StreamTask.begin])).warming_arrives
      hpos hchunk hroom (get_set_self hi _) rfl
  | warming left arr => exact h.warming_arrives hpos hchunk hroom hi hstage
  | calling arr => exact h.calling_arrives hpos hchunk hroom hi hstage
  | failed => exact absurd hstage (h.alive i task hi)
  | waiting arr =>
    rw [hstage] at harrived
    cases harrived
  | measuring t0 nIters arr =>
    rw [hstage] at harrived
    cases harrived
  | returned r =>
    rw [hstage] at harrived
    cases harrived

/-- All tasks can join the barrier. -/
theorem StreamRound.Going.all_arrive (h : s.Going p nodeIds n pending) :
    ∃ s', ReflTransGen (StreamStep p nodeIds cpus) s s' ∧ s'.Going p nodeIds n pending ∧
      ∀ i < n, s'.At i StreamStage.arrived := by
  refine all_in_turn (I := StreamRound.Going p nodeIds n pending)
    (P := fun i => StreamRound.At i StreamStage.arrived) ?_ h
  intro i hi s hs
  obtain ⟨task, htask⟩ := hs.get hi
  by_cases harrived : task.stage.arrived = true
  · exact ⟨s, .refl, hs, ⟨task, htask, harrived⟩, fun j _ hj => hj⟩
  · obtain ⟨s', task', hrun, hgoing, htasks, hP⟩ := hs.arrives hpos hchunk hroom hnodup hcpus htask
      (Bool.eq_false_iff.mpr harrived)
    have hself : s'.tasks[i]? = some task' := htasks ▸ get_set_self htask task'
    refine ⟨s', hrun, hgoing, ⟨task', hself, hP⟩, fun j hj hold => ?_⟩
    by_cases heq : i = j
    · exact heq ▸ ⟨task', hself, hP⟩
    · rw [StreamRound.At, htasks, List.getElem?_set_ne heq]
      exact hold

end Arrival

omit hpos hchunk in
theorem StreamRound.ticks (s : StreamRound ν α) (k : Nat) :
    ReflTransGen (StreamStep p nodeIds cpus) s { s with now := s.now+k } := by
  induction k with
  | zero => exact .refl
  | succ k ih => exact ih.tail (.tick _)

omit hpos hchunk [DecidableEq ν] in
theorem StreamRound.Going.later (h : s.Going p nodeIds n pending) (k : Nat) :
    { s with now := s.now+k }.Going p nodeIds n pending :=
  ⟨⟨h.sound.event, h.sound.arrived, h.sound.within, h.sound.task, h.sound.process,
    h.sound.dispatched, h.sound.finished, h.sound.pending⟩, h.driver, h.parties, h.pending, h.alive⟩

theorem StreamRound.Going.measuring_returns (h : s.Going p nodeIds n pending) {i t0 nIters : Nat}
    {task : StreamTask ν α} {arr : StreamArrays α} (hi : s.tasks[i]? = some task)
    (hstage : task.stage = .measuring t0 nIters arr) :
    s.Takes p nodeIds cpus n pending i fun stage => stage.result?.isSome := by
  have helapsed : p.measure ≤ s.now+(t0+p.measure)-t0 := by omega
  have hreturn : ∀ arr, (task.iterate p (s.now+(t0+p.measure)) t0 nIters arr).stage =
      .returned ⟨s.now+(t0+p.measure)-t0, nIters+1, arr.A[0]?⟩ := by
    intro arr
    rw [StreamTask.iterate, if_pos helapsed]
  have hstep : StreamStep p nodeIds cpus { s with now := s.now+(t0+p.measure) } _ :=
    .iterate hi hstage
  obtain ⟨s', task', hrun, hgoing, htasks, hP⟩ : StreamRound.Takes p nodeIds cpus n pending i
      (fun stage => stage.result?.isSome) { s with now := s.now+(t0+p.measure) } := by
    refine .here hpos hchunk (h.later _) hstep rfl rfl rfl rfl ?_ ?_
    · rw [hreturn]
      simp
    · rw [hreturn]
      rfl
  exact ⟨s', task', (StreamRound.ticks s _).trans hrun, hgoing, htasks, hP⟩

theorem StreamRound.Going.returns (h : s.Going p nodeIds n pending)
    (hevent : s.barrier.event = true) {i : Nat} {task : StreamTask ν α}
    (hi : s.tasks[i]? = some task) (harrived : task.stage.arrived = true)
    (hresult : task.stage.result? = none) :
    s.Takes p nodeIds cpus n pending i fun stage => stage.result?.isSome := by
  cases hstage : task.stage with
  | waiting arr =>
    have hstep : StreamStep p nodeIds cpus s _ := .release hi hstage hevent
    refine .head hstep rfl ?_
    exact (h.move hpos hchunk hstep rfl rfl rfl rfl (by simp)).measuring_returns hpos hchunk
      (get_set_self hi _) rfl
  | measuring t0 nIters arr => exact h.measuring_returns hpos hchunk hi hstage
  | returned r =>
    rw [hstage] at hresult
    cases hresult
  | submitted =>
    rw [hstage] at harrived
    cases harrived
  | warming left arr =>
    rw [hstage] at harrived
    cases harrived
  | calling arr =>
    rw [hstage] at harrived
    cases harrived
  | failed => exact absurd hstage (h.alive i task hi)

/-- When all have joined the barrier, all can come back with a result. -/
theorem StreamRound.Going.all_return (h : s.Going p nodeIds n pending)
    (hall : ∀ i < n, s.At i StreamStage.arrived) :
    ∃ s', ReflTransGen (StreamStep p nodeIds cpus) s s' ∧ s'.Going p nodeIds n pending ∧
      ∀ i < n, s'.At i fun stage => stage.result?.isSome := by
  have hboth : ∃ s', ReflTransGen (StreamStep p nodeIds cpus) s s' ∧
      (s'.Going p nodeIds n pending ∧ ∀ i < n, s'.At i StreamStage.arrived) ∧
      ∀ i < n, s'.At i fun stage => stage.result?.isSome := by
    refine all_in_turn (I := fun s : StreamRound ν α => s.Going p nodeIds n pending ∧
        ∀ i < n, s.At i StreamStage.arrived)
      (P := fun i => StreamRound.At i fun stage => stage.result?.isSome) ?_ ⟨h, hall⟩
    intro i hi s hs
    obtain ⟨task, htask, harrived⟩ := hs.2 i hi
    by_cases hresult : task.stage.result? = none
    · obtain ⟨s', task', hrun, hgoing, htasks, hP⟩ :=
        hs.1.returns hpos hchunk (hs.1.opened hs.2) htask harrived hresult
      have hself : s'.tasks[i]? = some task' := htasks ▸ get_set_self htask task'
      have hkeep : ∀ Q : StreamStage α → Bool, Q task'.stage = true → ∀ j < n,
          s.At j Q → s'.At j Q := by
        intro Q hQ j hj hold
        by_cases heq : i = j
        · exact heq ▸ ⟨task', hself, hQ⟩
        · rw [StreamRound.At, htasks, List.getElem?_set_ne heq]
          exact hold
      exact ⟨s', hrun, ⟨hgoing, fun j hj => hkeep StreamStage.arrived (arrived_of_result hP) j hj
        (hs.2 j hj)⟩, ⟨task', hself, hP⟩, hkeep (fun stage => stage.result?.isSome) hP⟩
    · exact ⟨s, .refl, hs, ⟨task, htask, Option.isSome_iff_ne_none.mpr hresult⟩, fun j _ hj => hj⟩
  obtain ⟨s', hrun, hI, hP⟩ := hboth
  exact ⟨s', hrun, hI.1, hP⟩

/-- The driver can get the results of the round. -/
theorem StreamRound.Going.finishes (h : s.Going p nodeIds n pending) (hroom : n ≤ maxConcurrency)
    (hnodup : nodeIds.Nodup) (hcpus : ∀ node ∈ nodeIds, 0 < cpus node) :
    ∃ s' outs, ReflTransGen (StreamStep p nodeIds cpus) s s' ∧ s'.Sound p nodeIds ∧
      s'.driver = .finished outs ∧ s'.pending = pending := by
  obtain ⟨s₁, hrun₁, hgoing₁, harrived⟩ := h.all_arrive hpos hchunk hroom hnodup hcpus
  obtain ⟨s₂, hrun₂, hgoing₂, hreturned⟩ := hgoing₁.all_return hpos hchunk harrived
  obtain ⟨outs, houts⟩ : ∃ outs : List (StreamResult α),
      s₂.tasks.map (fun task => task.stage.result?) = outs.map some := by
    apply results_of_returned
    intro task hmem
    obtain ⟨i, hi, rfl⟩ := List.getElem_of_mem hmem
    obtain ⟨task, htask, hresult⟩ := hreturned i (hgoing₂.length ▸ hi)
    rw [List.getElem?_eq_getElem hi, Option.some.injEq] at htask
    exact htask ▸ hresult
  have hstep : StreamStep p nodeIds cpus s₂ _ := .finish hgoing₂.driver houts
  exact ⟨_, outs, (hrun₁.trans hrun₂).tail hstep, hgoing₂.sound.step hpos hchunk hstep, rfl,
    hgoing₂.pending⟩

/-- The driver can submit the tasks that are left, one for each of the first nodes. -/
theorem StreamRound.Sound.submits (h : s.Sound p nodeIds) (hdriver : s.driver = .submitting)
    (halive : ∀ (i : Nat) (task : StreamTask ν α), s.tasks[i]? = some task → task.stage ≠ .failed)
    (hnodes : s.barrier.nParties ≤ nodeIds.length) :
    ∃ s', ReflTransGen (StreamStep p nodeIds cpus) s s' ∧
      s'.Going p nodeIds s.barrier.nParties s.pending := by
  induction hleft : s.barrier.nParties-s.tasks.length generalizing s with
  | zero =>
    have hwithin := h.within
    have hstep : StreamStep p nodeIds cpus s _ := .get hdriver (by omega)
    exact ⟨_, .single hstep, h.step hpos hchunk hstep, rfl, rfl, rfl, halive⟩
  | succ left ih =>
    have hmore : s.tasks.length < s.barrier.nParties := by omega
    obtain ⟨node, hnode⟩ : ∃ node, nodeIds[s.tasks.length]? = some node :=
      ⟨_, List.getElem?_eq_getElem (Nat.lt_of_lt_of_le hmore hnodes)⟩
    have hstep : StreamStep p nodeIds cpus s _ := .submit hdriver hmore hnode
    let tasks : List (StreamTask ν α) :=
      s.tasks ++ [{ node, retries := maxRetries, stage := .submitted }]
    have hfewer : s.barrier.nParties-tasks.length = left := by
      rw [List.length_append, List.length_singleton]
      omega
    have halive' : ∀ (i : Nat) (task : StreamTask ν α), tasks[i]? = some task →
        task.stage ≠ .failed := by
      intro i task hi
      rw [List.getElem?_append] at hi
      split at hi
      · exact halive i task hi
      · rw [List.mem_singleton.mp (List.mem_of_getElem? hi)]
        simp
    obtain ⟨s', hrun, hgoing⟩ := ih (h.step hpos hchunk hstep) hdriver halive' hnodes hfewer
    exact ⟨s', ReflTransGen.head hstep hrun, hgoing⟩

omit hpos hchunk in
theorem StreamRound.Fits.step (h : s.Fits nodeIds) (hstep : StreamStep p nodeIds cpus s s') :
    s'.Fits nodeIds := by
  cases hstep with
  | next hdriver hpending =>
    intro n hn
    exact h n (List.mem_cons_of_mem _ (hpending ▸ hn))
  | _ => exact h

omit hpos hchunk in
theorem StreamRound.Fits.run (h : s.Fits nodeIds)
    (hrun : ReflTransGen (StreamStep p nodeIds cpus) s s') : s'.Fits nodeIds := by
  induction hrun with
  | refl => exact h
  | tail _ hstep ih => exact ih.step hstep

section Rounds
variable (hnodup : nodeIds.Nodup) (hcpus : ∀ node ∈ nodeIds, 0 < cpus node)
include hnodup hcpus

/-- From the end of a round on, the rounds that are left can be brought to theirs. -/
theorem StreamRound.Sound.rest_finishes (h : s.Sound p nodeIds) (hfits : s.Fits nodeIds)
    {outs : List (StreamResult α)} (hdriver : s.driver = .finished outs) :
    ∃ s' outs, ReflTransGen (StreamStep p nodeIds cpus) s s' ∧ s'.driver = .finished outs ∧
      s'.pending = [] := by
  induction hrest : s.pending generalizing s outs with
  | nil => exact ⟨s, outs, .refl, hdriver, hrest⟩
  | cons nActive rest ih =>
    have hnext : StreamStep p nodeIds cpus s _ := .next hdriver hrest
    have hsound := h.step hpos hchunk hnext
    obtain ⟨hnodes, hroom⟩ := hfits nActive (hrest ▸ List.mem_cons_of_mem _ List.mem_cons_self)
    have hnone : ∀ (i : Nat) (task : StreamTask ν α),
        ([] : List (StreamTask ν α))[i]? = some task → task.stage ≠ .failed := by
      intro i task hi
      cases hi
    obtain ⟨s₁, hrun₁, hgoing⟩ := hsound.submits hpos hchunk rfl hnone hnodes
    obtain ⟨s₂, outs₂, hrun₂, hsound₂, hfinished, hpending⟩ :=
      hgoing.finishes hpos hchunk hroom hnodup hcpus
    have hrun := ReflTransGen.head hnext (hrun₁.trans hrun₂)
    obtain ⟨s₃, outs₃, hrun₃, hend⟩ := ih hsound₂ (hfits.run hrun) hfinished hpending
    exact ⟨s₃, outs₃, hrun.trans hrun₃, hend⟩

theorem StreamRound.Going.completes (h : s.Going p nodeIds n pending) (hfits : s.Fits nodeIds) :
    ∃ s' outs, ReflTransGen (StreamStep p nodeIds cpus) s s' ∧ s'.driver = .finished outs ∧
      s'.pending = [] := by
  have hroom : n ≤ maxConcurrency := h.parties ▸ (hfits _ List.mem_cons_self).2
  obtain ⟨s₁, outs, hrun₁, hsound, hfinished, _⟩ := h.finishes hpos hchunk hroom hnodup hcpus
  obtain ⟨s₂, outs₂, hrun₂, hend⟩ :=
    hsound.rest_finishes hpos hchunk hnodup hcpus (hfits.run hrun₁) hfinished
  exact ⟨s₂, outs₂, hrun₁.trans hrun₂, hend⟩

/-- The rounds can be brought to their end from wherever no task has failed for good. -/
theorem StreamRound.Sound.completes (h : s.Sound p nodeIds) (hfits : s.Fits nodeIds)
    (hdriver : s.driver ≠ .raised)
    (halive : ∀ (i : Nat) (task : StreamTask ν α), s.tasks[i]? = some task →
      task.stage ≠ .failed) :
    ∃ s' outs, ReflTransGen (StreamStep p nodeIds cpus) s s' ∧ s'.driver = .finished outs ∧
      s'.pending = [] := by
  cases hstage : s.driver with
  | raised => exact absurd hstage hdriver
  | finished outs => exact h.rest_finishes hpos hchunk hnodup hcpus hfits hstage
  | getting =>
    have hgoing : s.Going p nodeIds s.barrier.nParties s.pending :=
      ⟨h, hstage, rfl, rfl, halive⟩
    exact hgoing.completes hpos hchunk hnodup hcpus hfits
  | submitting =>
    obtain ⟨s₁, hrun₁, hgoing⟩ :=
      h.submits hpos hchunk hstage halive (hfits _ List.mem_cons_self).1
    obtain ⟨s₂, outs, hrun₂, hend⟩ :=
      hgoing.completes hpos hchunk hnodup hcpus (hfits.run hrun₁)
    exact ⟨s₂, outs, hrun₁.trans hrun₂, hend⟩

end Rounds

end Moves

end Progress

section Rounds
variable [DecidableEq ν] {p : StreamParams α} {nodeIds : List ν} {cpus : ν → Nat}

/-- The first of the rounds begins, and no worker process has run a task. -/
def StreamRound.Initial (plan : List Nat) (s : StreamRound ν α) : Prop :=
  ∃ now nActive rest, plan = nActive :: rest ∧ s = .begin now (fun _ => .fresh) nActive rest

/-- A task is in its timed window only when the others have set up their arrays and joined the
barrier, but for as many as attempts have died after calling it; the results are of whole Triads
of the arrays that the tasks began with, as many as fit into the measuring time; and the rounds
cannot get stuck. -/
structure StreamRound.Measured (p : StreamParams α) (nodeIds : List ν) (cpus : ν → Nat)
    (s : StreamRound ν α) : Prop where
  together : ∀ task ∈ s.tasks, task.stage.passed = true →
    s.barrier.nParties ≤ s.tasks.countP (fun task => task.stage.arrived)+s.goneArrivals
  overlap : s.goneArrivals = 0 → ∀ task ∈ s.tasks, task.stage.passed = true →
    s.tasks.length = s.barrier.nParties ∧ ∀ other ∈ s.tasks, other.stage.arrived = true
  /-- Whatever `A` held, a pass in chunks leaves all of `alpha*C+B` in it. -/
  pass : ∀ arr : StreamArrays α, arr.Sized p.nElements →
    triad p.nElements p.alpha p.chunkElems arr = { arr with A := arr.scaledSum p.alpha }
  window : ∀ task ∈ s.tasks, ∀ t0 nIters arr, task.stage = .measuring t0 nIters arr →
    arr.Sized p.nElements ∧ task.given.Keeps arr ∧ Triads p task.given task.passes nIters
  results : ∀ outs, s.driver = .finished outs → outs.length = s.barrier.nParties ∧
    ∀ r ∈ outs, ∃ task ∈ s.tasks, task.stage = .returned r ∧ p.measure ≤ r.elapsed ∧
      0 < r.nIters ∧ Triads p task.given task.passes r.nIters ∧
      r.checksum = (task.given.scaledSum p.alpha)[0]?
  processes : ∀ node, (s.processes node).initN = p.nElements →
    (s.processes node).A = (s.processes node).scaledSum p.alpha
  completes : s.driver ≠ .raised → (∀ task ∈ s.tasks, task.stage ≠ .failed) →
    ∃ s' outs, ReflTransGen (StreamStep p nodeIds cpus) s s' ∧ s'.driver = .finished outs ∧
      s'.pending = []

omit [DecidableEq ν] in
theorem StreamRound.Sound.together {s : StreamRound ν α} (h : s.Sound p nodeIds)
    {task : StreamTask ν α} (hmem : task ∈ s.tasks) (hpassed : task.stage.passed = true) :
    s.barrier.nParties ≤ s.tasks.countP (fun task => task.stage.arrived)+s.goneArrivals := by
  obtain ⟨i, hi, rfl⟩ := List.getElem_of_mem hmem
  have hevent := (h.task i _ (List.getElem?_eq_getElem hi)).passed hpassed
  rw [h.event, decide_eq_true_eq, h.arrived] at hevent
  exact hevent

omit [DecidableEq ν] in
theorem StreamRound.Sound.overlap {s : StreamRound ν α} (h : s.Sound p nodeIds)
    (hgone : s.goneArrivals = 0) {task : StreamTask ν α} (hmem : task ∈ s.tasks)
    (hpassed : task.stage.passed = true) : s.tasks.length = s.barrier.nParties ∧
      ∀ other ∈ s.tasks, other.stage.arrived = true := by
  have htogether := h.together hmem hpassed
  have hwithin := h.within
  have hle : s.tasks.countP (fun task => task.stage.arrived) ≤ s.tasks.length :=
    List.countP_le_length
  rw [hgone, Nat.add_zero] at htogether
  exact ⟨by omega, List.countP_eq_length.mp (by omega)⟩

omit [DecidableEq ν] in
theorem StreamRound.Sound.stage {s : StreamRound ν α} (h : s.Sound p nodeIds)
    {task : StreamTask ν α} (hmem : task ∈ s.tasks) : task.stage.Ok p task.given task.passes := by
  obtain ⟨i, hi, rfl⟩ := List.getElem_of_mem hmem
  exact (h.task i _ (List.getElem?_eq_getElem hi)).stage

omit [Add α] [Mul α] in
theorem returned_of_result {stage : StreamStage α} {r : StreamResult α}
    (h : stage.result? = some r) : stage = .returned r := by
  cases stage with
  | returned r' => exact congrArg StreamStage.returned (Option.some.inj h)
  | _ => cases h

omit [DecidableEq ν] in
theorem StreamRound.Sound.results {s : StreamRound ν α} (h : s.Sound p nodeIds)
    {outs : List (StreamResult α)} (hdriver : s.driver = .finished outs) :
    outs.length = s.barrier.nParties ∧ ∀ r ∈ outs, ∃ task ∈ s.tasks, task.stage = .returned r ∧
      (StreamStage.returned r).Ok p task.given task.passes := by
  obtain ⟨hlength, houts⟩ := h.finished outs hdriver
  constructor
  · have hmap := congrArg List.length houts
    rw [List.length_map, List.length_map, hlength] at hmap
    exact hmap.symm
  · intro r hr
    obtain ⟨task, hmem, hresult⟩ := List.mem_map.mp (houts ▸ List.mem_map_of_mem hr)
    have hstage := returned_of_result hresult
    exact ⟨task, hmem, hstage, hstage ▸ h.stage hmem⟩

/-- On nodes that are different and have a CPU each, every round measures its workers together,
whatever the order of the steps, and can be brought to its end. -/
theorem stream_rounds_measured {plan : List Nat}
    (hplan : ∀ n ∈ plan, 0 < n ∧ n ≤ nodeIds.length ∧ n ≤ maxConcurrency)
    (hnodup : nodeIds.Nodup) (hcpus : ∀ node ∈ nodeIds, 0 < cpus node) (hpos : 0 < p.nElements)
    (hchunk : 0 < p.chunkElems) {s : StreamRound ν α}
    (h : Reachable (StreamRound.Initial plan) (StreamStep p nodeIds cpus) s) :
    s.Measured p nodeIds cpus := by
  have hsound : s.Sound p nodeIds := by
    refine h.invariant ?_ fun s s' hs hstep => hs.step hpos hchunk hstep
    intro s hs
    obtain ⟨now, nActive, rest, rfl, rfl⟩ := hs
    exact .begin now (fun _ => fresh_none hpos) (hplan nActive List.mem_cons_self).1
      fun n hn => (hplan n (List.mem_cons_of_mem nActive hn)).1
  have hfits : s.Fits nodeIds := by
    refine h.invariant ?_ fun s s' hs hstep => hs.step hstep
    intro s hs
    obtain ⟨now, nActive, rest, rfl, rfl⟩ := hs
    exact fun n hn => (hplan n hn).2
  refine ⟨fun task hmem => hsound.together hmem, fun hgone task hmem => hsound.overlap hgone hmem,
    fun arr harr => triad_eq harr hchunk, ?_, fun outs hdriver => hsound.results hdriver,
    fun node hinit => (hsound.process node hinit).whole, fun hdriver halive => ?_⟩
  · intro task hmem t0 nIters arr hstage
    have hok := hsound.stage hmem
    rw [hstage] at hok
    exact hok
  · exact hsound.completes hpos hchunk hnodup hcpus hfits hdriver
      fun i task hi => halive task (List.mem_of_getElem? hi)

end Rounds

def smallStream : StreamParams Int := ⟨3, 2, 1, 1, 2⟩

abbrev SmallReached (s : StreamRound Bool Int) : Prop :=
  Reachable (StreamRound.Initial [2, 1]) (StreamStep smallStream [false, true] fun _ => 1) s

/-- One worker is in its timed window and has made a pass, the other is behind the barrier; a
second pass each, when a second has passed, ends the round. -/
theorem smallStream_runs : ∃ s s', SmallReached s ∧ SmallReached s' ∧
    (∃ task ∈ s.tasks, ∃ t0 arr, task.stage = .measuring t0 1 arr) ∧
    s'.driver = .finished [⟨1, 2, some 9⟩, ⟨1, 2, some 5⟩] := by
  have hstart : SmallReached (.begin 0 (fun _ => .fresh) 2 [1]) := .start ⟨0, 2, [1], rfl, rfl⟩
  have hsubmitted := ((hstart.next (.submit rfl (by decide) rfl)).next
    (.submit rfl (by decide) rfl)).next (.get rfl rfl)
  have hfirst := (((hsubmitted.next (.start (i := 0) [1, 2, 3] [4, 5, 6] [0, 0, 0] rfl rfl
    (by decide) (.inr rfl) rfl rfl rfl)).next (.warm (i := 0) rfl rfl)).next
    (.call (i := 0) rfl rfl)).next (.arrive (i := 0) rfl rfl rfl)
  have hsecond := (((hfirst.next (.start (i := 1) [1, 1, 1] [2, 2, 2] [0, 0, 0] rfl rfl
    (by decide) (.inr rfl) rfl rfl rfl)).next (.warm (i := 1) rfl rfl)).next
    (.call (i := 1) rfl rfl)).next (.arrive (i := 1) rfl rfl rfl)
  have hwindow := (hsecond.next (.release (i := 0) rfl rfl rfl)).next (.iterate (i := 0) rfl rfl)
  have hboth := (hwindow.next (.release (i := 1) rfl rfl rfl)).next (.iterate (i := 1) rfl rfl)
  have hlast := ((hboth.next (.tick _)).next (.iterate (i := 0) rfl rfl)).next
    (.iterate (i := 1) rfl rfl)
  exact ⟨_, _, hwindow, hlast.next (.finish rfl rfl), ⟨_, List.mem_cons_self, _, _, rfl⟩, rfl⟩

theorem smallStream_measured : ∃ s s' : StreamRound Bool Int,
    s.Measured smallStream [false, true] (fun _ => 1) ∧
    s'.Measured smallStream [false, true] (fun _ => 1) ∧
    (∃ task ∈ s.tasks, ∃ t0 arr, task.stage = .measuring t0 1 arr) ∧
    s'.driver = .finished [⟨1, 2, some 9⟩, ⟨1, 2, some 5⟩] := by
  have hplan : ∀ n ∈ [2, 1], 0 < n ∧ n ≤ [false, true].length ∧ n ≤ maxConcurrency := by decide
  have hmeasured : ∀ s, SmallReached s → s.Measured smallStream [false, true] fun _ => 1 :=
    fun s hs => stream_rounds_measured hplan (by decide) (by decide) (by decide) (by decide) hs
  obtain ⟨s, s', hs, hs', hwindow, hfinished⟩ := smallStream_runs
  exact ⟨s, s', hmeasured s hs, hmeasured s' hs', hwindow, hfinished⟩

end DistributedEnclave.Ray
