import Mathlib.Data.List.Perm.Lattice
import Mathlib.Data.List.Nodup
import DistributedEnclave.Npb.Taskq

/-! Which tasks the dispatcher hands out and which results it accepts, whatever the workers
do. -/
namespace DistributedEnclave.Npb
open DistributedEnclave.Programs

abbrev MasterEvent : Type := Programs.Event (Party Nat Taskq.Head Int)

def dispatchOf (run : Int32) : MasterEvent → Option (Nat × UInt64)
  | .sent worker m =>
    match m.wire.payload with
    | .taskqTask task =>
      if task.command = taskqTaskWork ∧ task.run = run then some (worker, task.taskId) else none
    | _ => none
  | .received _ _ _ => none

def endOf (run : Int32) : MasterEvent → Option Nat
  | .sent worker m =>
    match m.wire.payload with
    | .taskqTask task =>
      if task.command = taskqTaskEnd ∧ task.run = run then some worker else none
    | _ => none
  | .received _ _ _ => none

def resultOf (run : Int32) : MasterEvent → Option (Nat × TaskqResult)
  | .received worker _ m =>
    match m.wire.payload with
    | .taskqResult result => if result.run = run then some (worker, result) else none
    | _ => none
  | .sent _ _ => none

def dispatched (run : Int32) (t : List MasterEvent) : List (Nat × UInt64) :=
  t.filterMap (dispatchOf run)

def ended (run : Int32) (t : List MasterEvent) : List Nat := t.filterMap (endOf run)

def results (run : Int32) (t : List MasterEvent) : List (Nat × TaskqResult) :=
  t.filterMap (resultOf run)

@[simp] theorem dispatched_append (run : Int32) (t t' : List MasterEvent) :
    dispatched run (t ++ t') = dispatched run t ++ dispatched run t' := List.filterMap_append

@[simp] theorem ended_append (run : Int32) (t t' : List MasterEvent) :
    ended run (t ++ t') = ended run t ++ ended run t' := List.filterMap_append

@[simp] theorem results_append (run : Int32) (t t' : List MasterEvent) :
    results run (t ++ t') = results run t ++ results run t' := List.filterMap_append

structure SameRun (run : Int32) (t t' : List MasterEvent) : Prop where
  dispatched : dispatched run t' = dispatched run t
  ended : ended run t' = ended run t
  results : results run t' = results run t

theorem SameRun.refl (run : Int32) (t : List MasterEvent) : SameRun run t t := ⟨rfl, rfl, rfl⟩

theorem SameRun.trans {run : Int32} {t t' t'' : List MasterEvent} (h : SameRun run t t')
    (h' : SameRun run t' t'') : SameRun run t t'' :=
  ⟨h'.dispatched.trans h.dispatched, h'.ended.trans h.ended, h'.results.trans h.results⟩

section
variable {run : Int32} {worker : Nat} {t t' : List MasterEvent}

theorem dispatchOf_other {m : Envelope} (h : ∀ task, m.wire.payload ≠ .taskqTask task) :
    dispatchOf run (.sent worker m) = none := by
  rw [dispatchOf]
  split
  · exact absurd ‹_› (h _)
  · rfl

theorem dispatchOf_task {m : Envelope} {task : TaskqTask} (h : m.wire.payload = .taskqTask task) :
    dispatchOf run (.sent worker m) =
      if task.command = taskqTaskWork ∧ task.run = run then some (worker, task.taskId) else none := by
  rw [dispatchOf, h]

theorem SentOne.other {data : Payload} (h : SentOne worker data t t')
    (hdata : ∀ task, data ≠ .taskqTask task) : SameRun run t t' := by
  obtain ⟨m, rfl, rfl⟩ := h
  have hd : dispatchOf run (.sent worker m) = none := dispatchOf_other hdata
  have he : endOf run (.sent worker m) = none := by
    rw [endOf]
    split
    · exact absurd ‹_› (hdata _)
    · rfl
  constructor
  · simp [dispatched, hd]
  · simp [ended, he]
  · simp [results, resultOf]

theorem SentOne.task {task : TaskqTask} (h : SentOne worker (.taskqTask task) t t') :
    dispatched run t' = dispatched run t ++
        (if task.command = taskqTaskWork ∧ task.run = run then [(worker, task.taskId)] else []) ∧
      ended run t' = ended run t ++
        (if task.command = taskqTaskEnd ∧ task.run = run then [worker] else []) ∧
      results run t' = results run t := by
  obtain ⟨m, hm, rfl⟩ := h
  have hd : dispatchOf run (.sent worker m) = _ := dispatchOf_task hm
  have he : endOf run (.sent worker m) =
      if task.command = taskqTaskEnd ∧ task.run = run then some worker else none := by
    rw [endOf, hm]
  refine ⟨?_, ?_, ?_⟩
  · rw [dispatched_append]
    split <;> simp_all [dispatched]
  · rw [ended_append]
    split <;> simp_all [ended]
  · simp [results, resultOf]

theorem ReceivedOne.sent {r : Option Payload} (h : ReceivedOne worker r t t') :
    dispatched run t' = dispatched run t ∧ ended run t' = ended run t := by
  cases h with
  | inl h =>
    rw [h.2]
    exact ⟨rfl, rfl⟩
  | inr h =>
    obtain ⟨q, m, rfl, _⟩ := h
    simp [dispatched, dispatchOf, ended, endOf]

theorem ReceivedOne.result {result : TaskqResult}
    (h : ReceivedOne worker (some (.taskqResult result)) t t') :
    results run t' = results run t ++ if result.run = run then [(worker, result)] else [] := by
  cases h with
  | inl h => cases h.1
  | inr h =>
    obtain ⟨q, m, rfl, hm⟩ := h
    have hr : resultOf run (.received worker q m) =
        if result.run = run then some (worker, result) else none := by
      rw [resultOf, hm _ rfl]
    rw [results_append]
    split <;> simp_all [results]

theorem ReceivedOne.other {data : Payload} (h : ReceivedOne worker (some data) t t')
    (hdata : ∀ result, data ≠ .taskqResult result) : SameRun run t t' where
  dispatched := h.sent.1
  ended := h.sent.2
  results := by
    cases h with
    | inl h => cases h.1
    | inr h =>
      obtain ⟨q, m, rfl, hm⟩ := h
      have hr : resultOf run (.received worker q m) = none := by
        rw [resultOf, hm _ rfl]
        split
        · exact absurd rfl (hdata _)
        · rfl
      simp [results, hr]

end

namespace Taskq
variable (p : Params)

def Queue.held (q : Queue) (nworkers : Nat) : List Nat :=
  ((List.range nworkers).filter q.busy).map q.assignedTask

theorem range_perm_cons {n w : Nat} (h : w < n) :
    ∃ rest, (List.range n).Perm (w :: rest) ∧ w ∉ rest := by
  refine ⟨(List.range n).erase w, List.perm_cons_erase (List.mem_range.mpr h), ?_⟩
  exact fun hmem => ((List.nodup_range.mem_erase_iff).mp hmem).1 rfl

theorem filter_update {rest : List Nat} {w : Nat} (hw : w ∉ rest) (f : Nat → Bool) (b : Bool) :
    rest.filter (Function.update f w b) = rest.filter f := by
  apply List.filter_congr
  intro v hv
  have hne : v ≠ w := fun heq => hw (heq ▸ hv)
  exact Function.update_of_ne hne ..

theorem Queue.assign_busy_of_ne (q : Queue) {v w : Nat} (h : v ≠ w) :
    (q.assign w).busy v = q.busy v := Function.update_of_ne h ..

theorem Queue.complete_busy_of_ne (q : Queue) {v w : Nat} (h : v ≠ w) :
    (q.complete w).busy v = q.busy v := Function.update_of_ne h ..

/-- Who is idle after an assignment is another worker, and was idle before. -/
theorem Queue.idle_of_assign (q : Queue) {v w : Nat} (h : (q.assign w).busy v = false) :
    v ≠ w ∧ q.busy v = false := by
  have hne : v ≠ w := by
    intro h
    subst h
    simp [Queue.assign] at h
  exact ⟨hne, (q.assign_busy_of_ne hne).symm.trans h⟩

theorem Queue.busy_of_complete (q : Queue) {v w : Nat} (h : (q.complete w).busy v = true) :
    v ≠ w ∧ q.busy v = true := by
  have hne : v ≠ w := by
    intro h
    subst h
    simp [Queue.complete] at h
  exact ⟨hne, (q.complete_busy_of_ne hne).symm.trans h⟩

theorem Queue.held_assign {q : Queue} {n w : Nat} (hw : w < n) (hfree : q.busy w = false) :
    ((q.assign w).held n).Perm (q.nextTask :: q.held n) := by
  obtain ⟨rest, hperm, hrest⟩ := range_perm_cons hw
  have hmap : (rest.filter q.busy).map (Function.update q.assignedTask w q.nextTask) =
      (rest.filter q.busy).map q.assignedTask := by
    apply List.map_congr_left
    intro v hv
    have hne : v ≠ w := fun heq => hrest (heq ▸ (List.mem_filter.mp hv).1)
    exact Function.update_of_ne hne ..
  have hafter := (hperm.filter (q.assign w).busy).map (q.assign w).assignedTask
  have hbefore := (hperm.filter q.busy).map q.assignedTask
  simp only [Queue.assign, List.filter_cons, Function.update_self, if_true, List.map_cons,
    filter_update hrest, hmap] at hafter
  simp only [List.filter_cons, hfree, Bool.false_eq_true, if_false] at hbefore
  exact hafter.trans (hbefore.symm.cons q.nextTask)

theorem Queue.held_complete {q : Queue} {n w : Nat} (hw : w < n) (hbusy : q.busy w = true) :
    (q.held n).Perm (q.assignedTask w :: (q.complete w).held n) := by
  obtain ⟨rest, hperm, hrest⟩ := range_perm_cons hw
  have hafter := (hperm.filter (q.complete w).busy).map (q.complete w).assignedTask
  have hbefore := (hperm.filter q.busy).map q.assignedTask
  simp only [Queue.complete, List.filter_cons, Function.update_self, Bool.false_eq_true, if_false,
    filter_update hrest] at hafter
  simp only [List.filter_cons, hbusy, if_true, List.map_cons] at hbefore
  exact hbefore.trans (hafter.symm.cons (q.assignedTask w))

/-- What the dispatcher keeps at every step of a run: the tasks accepted so far and those the
busy workers hold are together the tasks handed out, each once. -/
structure Queue.Inv (q : Queue) (t : List MasterEvent) (accepted : List (Nat × TaskqResult)) :
    Prop where
  bound : q.nextTask ≤ p.taskCount.toNat
  completed : q.completed = accepted.length
  partition : (accepted.map (fun a => a.2.taskId.toNat) ++ q.held p.nworkers).Perm
    (List.range q.nextTask)
  order : (dispatched q.run t).map (fun a => a.2.toNat) = List.range q.nextTask
  assigned : ∀ w < p.nworkers, q.busy w = true →
    (w, UInt64.ofNat (q.assignedTask w)) ∈ dispatched q.run t
  source : ∀ a ∈ accepted, (a.1, a.2.taskId) ∈ dispatched q.run t ∧
    a.2.token = xorshift64Step^[p.iterations.toNat] (taskInitialToken a.2.taskId q.run)
  received : q.status = 0 → results q.run t = accepted
  open_run : q.status = 0 → ended q.run t = []

variable {p}

theorem Queue.Inv.lt_of_busy {q : Queue} {t : List MasterEvent}
    {accepted : List (Nat × TaskqResult)} (h : q.Inv p t accepted) {w : Nat}
    (hw : w < p.nworkers) (hbusy : q.busy w = true) : q.assignedTask w < q.nextTask := by
  apply List.mem_range.mp
  apply h.partition.subset
  apply List.mem_append_right
  exact List.mem_map.mpr ⟨w, List.mem_filter.mpr ⟨List.mem_range.mpr hw, hbusy⟩, rfl⟩

theorem Queue.Inv.assign {q : Queue} {t t' : List MasterEvent}
    {accepted : List (Nat × TaskqResult)} (h : q.Inv p t accepted) {w : Nat}
    (hw : w < p.nworkers) (hfree : q.busy w = false) (hnext : q.nextTask < p.taskCount.toNat)
    (hd : dispatched q.run t' = dispatched q.run t ++ [(w, UInt64.ofNat q.nextTask)])
    (hr : results q.run t' = results q.run t) (he : ended q.run t' = ended q.run t) :
    (q.assign w).Inv p t' accepted where
  bound := hnext
  completed := h.completed
  partition := by
    have hperm := (q.held_assign hw hfree).append_left
      (accepted.map (fun a => a.2.taskId.toNat))
    refine hperm.trans (List.perm_middle.trans ?_)
    refine (h.partition.cons q.nextTask).trans ?_
    rw [Queue.assign, List.range_succ]
    exact (List.perm_append_singleton q.nextTask (List.range q.nextTask)).symm
  order := by
    have hlt : q.nextTask < 2^64 := hnext.trans p.taskCount.toNat_lt
    have hid : (UInt64.ofNat q.nextTask).toNat = q.nextTask := UInt64.toNat_ofNat_of_lt' hlt
    change (dispatched q.run t').map (fun a => a.2.toNat) = List.range (q.nextTask+1)
    rw [hd, List.map_append, h.order, List.range_succ, List.map_singleton, hid]
  assigned := by
    intro v hv hbusy
    change (v, UInt64.ofNat (Function.update q.assignedTask w q.nextTask v)) ∈ dispatched q.run t'
    rw [hd]
    by_cases heq : v = w
    · subst heq
      rw [Function.update_self]
      exact List.mem_append_right _ List.mem_cons_self
    · rw [Function.update_of_ne heq]
      refine List.mem_append_left _ (h.assigned v hv ?_)
      rwa [q.assign_busy_of_ne heq] at hbusy
  source := by
    intro a ha
    obtain ⟨hmem, htoken⟩ := h.source a ha
    refine ⟨?_, htoken⟩
    change (a.1, a.2.taskId) ∈ dispatched q.run t'
    rw [hd]
    exact List.mem_append_left _ hmem
  received := fun hs => hr.trans (h.received hs)
  open_run := fun hs => he.trans (h.open_run hs)

theorem Queue.Inv.complete {q : Queue} {t t' : List MasterEvent}
    {accepted : List (Nat × TaskqResult)} (h : q.Inv p t accepted) {w : Nat}
    {result : TaskqResult} (hw : w < p.nworkers) (hbusy : q.busy w = true)
    (hid : result.taskId = UInt64.ofNat (q.assignedTask w))
    (htoken : result.token =
      xorshift64Step^[p.iterations.toNat] (taskInitialToken result.taskId q.run))
    (hd : dispatched q.run t' = dispatched q.run t)
    (hr : results q.run t' = results q.run t ++ [(w, result)])
    (he : ended q.run t' = ended q.run t) :
    (q.complete w).Inv p t' (accepted ++ [(w, result)]) where
  bound := h.bound
  completed := by
    change q.completed+1 = _
    rw [h.completed, List.length_append, List.length_singleton]
  partition := by
    have hlt : q.assignedTask w < 2^64 :=
      (h.lt_of_busy hw hbusy).trans_le (h.bound.trans p.taskCount.toNat_lt.le)
    have htask : result.taskId.toNat = q.assignedTask w := by
      rw [hid]
      exact UInt64.toNat_ofNat_of_lt' hlt
    rw [List.map_append, List.map_singleton, List.append_assoc, htask]
    exact ((q.held_complete hw hbusy).symm.append_left _).trans h.partition
  order := by
    change (dispatched q.run t').map _ = _
    rw [hd]
    exact h.order
  assigned := by
    intro v hv hb
    change (v, UInt64.ofNat (q.assignedTask v)) ∈ dispatched q.run t'
    rw [hd]
    exact h.assigned v hv (q.busy_of_complete hb).2
  source := by
    intro a ha
    change (a.1, a.2.taskId) ∈ dispatched q.run t' ∧ _
    rw [hd]
    cases List.mem_append.mp ha with
    | inl ha => exact h.source a ha
    | inr ha =>
      obtain rfl := List.mem_singleton.mp ha
      refine ⟨?_, htoken⟩
      rw [hid]
      exact h.assigned w hw hbusy
  received := by
    intro hs
    change results q.run t' = _
    rw [hr, h.received hs]
  open_run := fun hs => he.trans (h.open_run hs)

/-- A failed check ends the run; what was handed out stays as it is. -/
theorem Queue.Inv.fail {q : Queue} {t t' : List MasterEvent}
    {accepted : List (Nat × TaskqResult)} (h : q.Inv p t accepted)
    (hd : dispatched q.run t' = dispatched q.run t) :
    ({ q with status := -1 } : Queue).Inv p t' accepted where
  bound := h.bound
  completed := h.completed
  partition := h.partition
  order := by rw [hd]; exact h.order
  assigned := by rw [hd]; exact h.assigned
  source := by rw [hd]; exact h.source
  received := fun hs => by cases hs
  open_run := fun hs => by cases hs

variable (p) in
def AtHead : Action (Party Nat Head Int) → List MasterEvent → Prop
  | .loop l, t => ∃ accepted, l.1.queue.Inv p t accepted
  | .send worker m, t => ∀ run, ∀ a ∈ dispatchOf run (.sent worker m),
    a.2 ∉ (dispatched run t).map Prod.snd
  | _, _ => True

theorem atHead_other {worker : Nat} {data : Payload} {t : List MasterEvent}
    (hdata : ∀ task, data ≠ .taskqTask task) (m : Envelope) (hm : m.wire.payload = data) :
    AtHead p (.send worker m) t := by
  intro run a ha
  rw [dispatchOf_other (hm ▸ hdata)] at ha
  cases ha

theorem atHead_task {worker : Nat} {task : TaskqTask} {t : List MasterEvent}
    (hnew : task.command = taskqTaskWork →
      task.taskId ∉ (dispatched task.run t).map Prod.snd) (m : Envelope)
    (hm : m.wire.payload = .taskqTask task) : AtHead p (.send worker m) t := by
  intro run a ha
  rw [dispatchOf_task hm] at ha
  split at ha
  · rename_i hwork
    obtain rfl := Option.some.inj ha
    obtain ⟨hcommand, rfl⟩ := hwork
    exact hnew hcommand
  · cases ha

variable (p) in
abbrev Keeps {A : Type} (Q : A → List MasterEvent → Prop) (n : Nat) (x : MasterCode A)
    (c : Nat → Counters) (t : List MasterEvent) : Prop :=
  Maintains (listen _) (masterBody p) (AtHead p) (fun r t' => Q r.1 t') n (x c) t

theorem sendTaskqWork_keeps {n worker : Nat} {run : Int32} {taskId : UInt64}
    {c : Nat → Counters} {t : List MasterEvent}
    (hnew : taskId ∉ (dispatched run t).map Prod.snd) :
    Keeps p (fun _ t' => dispatched run t' = dispatched run t ++ [(worker, taskId)] ∧
      ended run t' = ended run t ∧ results run t' = results run t ∧
      ∀ run', run' ≠ run → SameRun run' t t') n (sendTaskqWork p worker run taskId) c t := by
  rw [Keeps, sendTaskqWork]
  refine (workloadSendSmall_listen (atHead_task fun _ => hnew) _ _).code_bind ?_
  intro _ c' t₁ h₁
  refine (sendBulkMsg_listen (atHead_other fun task h => by cases h) _ _).mono ?_
  intro r t₂ h₂
  have hsame : ∀ run', SameRun run' t₁ t₂ := fun run' => h₂.other (fun task h => by cases h)
  refine ⟨?_, ?_, ?_, ?_⟩
  · rw [(hsame run).dispatched, h₁.task.1]
    simp
  · rw [(hsame run).ended, h₁.task.2.1]
    simp [taskqTaskWork, taskqTaskEnd]
  · rw [(hsame run).results, h₁.task.2.2]
  · intro run' hrun
    refine SameRun.trans ⟨?_, ?_, h₁.task.2.2⟩ (hsame run')
    · rw [h₁.task.1]
      simp [hrun.symm]
    · rw [h₁.task.2.1]
      simp [hrun.symm]

/-- The next task has not been handed out. -/
theorem Queue.Inv.next_new {q : Queue} {t : List MasterEvent} {accepted : List (Nat × TaskqResult)}
    (h : q.Inv p t accepted) (hnext : q.nextTask < p.taskCount.toNat) :
    UInt64.ofNat q.nextTask ∉ (dispatched q.run t).map Prod.snd := by
  intro hmem
  obtain ⟨a, ha, heq⟩ := List.mem_map.mp hmem
  have hid : a.2.toNat = q.nextTask := by
    rw [heq, UInt64.toNat_ofNat_of_lt' (hnext.trans p.taskCount.toNat_lt)]
  have hold : a.2.toNat ∈ (dispatched q.run t).map (fun a => a.2.toNat) :=
    List.mem_map.mpr ⟨a, ha, rfl⟩
  rw [h.order, hid] at hold
  exact Nat.lt_irrefl _ (List.mem_range.mp hold)

theorem dispatch_keeps {n worker : Nat} {q : Queue} {accepted : List (Nat × TaskqResult)}
    {c : Nat → Counters} {t : List MasterEvent} (h : q.Inv p t accepted)
    (hw : worker < p.nworkers) (hfree : q.busy worker = false) :
    Keeps p (fun q' t' => q'.Inv p t' accepted ∧ q'.run = q.run ∧ q'.status = q.status ∧
      (∀ v, v ≠ worker → q'.busy v = q.busy v) ∧ ∀ run', run' ≠ q.run → SameRun run' t t')
      n (dispatch p q worker) c t := by
  rw [Keeps, dispatch]
  split
  · rename_i hnext
    refine (sendTaskqWork_keeps (h.next_new hnext)).code_bind ?_
    intro _ c' t' ht
    obtain ⟨hd, he, hr, hsame⟩ := ht
    exact .ret ⟨h.assign hw hfree hnext hd hr he, rfl, rfl,
      fun v hv => q.assign_busy_of_ne hv, hsame⟩
  · exact .ret ⟨h, rfl, rfl, fun v _ => rfl, fun run' _ => SameRun.refl run' t⟩

structure Queue.InRun (p : Params) (run : Int32) (t₀ : List MasterEvent) (q : Queue)
    (t : List MasterEvent) : Prop where
  run_eq : q.run = run
  inv : ∃ accepted, q.Inv p t accepted
  frame : q.status = 0 → ∀ run', run' ≠ run → SameRun run' t₀ t

/-- Every task of the run was handed out once, and its result was accepted once, from the
worker that had it and with the token that iterating yields. -/
structure Served (p : Params) (run : Int32) (t : List MasterEvent) : Prop where
  dispatched_once : (dispatched run t).map (fun a => a.2.toNat) = List.range p.taskCount.toNat
  accepted_once : ((results run t).map (fun a => a.2.taskId.toNat)).Perm
    (List.range p.taskCount.toNat)
  accepted_from : ∀ a ∈ results run t, (a.1, a.2.taskId) ∈ dispatched run t
  token : ∀ a ∈ results run t,
    a.2.token = xorshift64Step^[p.iterations.toNat] (taskInitialToken a.2.taskId run)

theorem Served.same {run : Int32} {t t' : List MasterEvent} (h : Served p run t)
    (hd : dispatched run t' = dispatched run t) (hr : results run t' = results run t) :
    Served p run t' where
  dispatched_once := by rw [hd]; exact h.dispatched_once
  accepted_once := by rw [hr]; exact h.accepted_once
  accepted_from := by rw [hd, hr]; exact h.accepted_from
  token := by rw [hr]; exact h.token

/-- When all tasks are completed no worker is busy. -/
theorem Queue.Inv.served {q : Queue} {t : List MasterEvent} {accepted : List (Nat × TaskqResult)}
    (h : q.Inv p t accepted) (hstatus : q.status = 0)
    (hdone : p.taskCount.toNat ≤ q.completed) :
    Served p q.run t ∧ ended q.run t = [] ∧ q.held p.nworkers = [] := by
  have hlen := h.partition.length_eq
  rw [List.length_append, List.length_map, List.length_range, ← h.completed] at hlen
  have hbound := h.bound
  have hnext : q.nextTask = p.taskCount.toNat := by omega
  have hheld : q.held p.nworkers = [] := List.eq_nil_of_length_eq_zero (by omega)
  have hpart := h.partition
  rw [hheld, List.append_nil, hnext, ← h.received hstatus] at hpart
  refine ⟨⟨?_, hpart, ?_, ?_⟩, h.open_run hstatus, hheld⟩
  · rw [← hnext]
    exact h.order
  · intro a ha
    rw [h.received hstatus] at ha
    exact (h.source a ha).1
  · intro a ha
    rw [h.received hstatus] at ha
    exact (h.source a ha).2

def LoopPost (p : Params) (run : Int32) (t₀ : List MasterEvent) (status : Int)
    (t : List MasterEvent) : Prop :=
  status = 0 → Served p run t ∧ ended run t = [] ∧ ∀ run', run' ≠ run → SameRun run' t₀ t

theorem resultValid_run {q : Queue} {worker : Nat} {result : TaskqResult}
    (h : resultValid p q worker result = true) : result.run = q.run := by
  simp only [resultValid, Bool.and_eq_true, decide_eq_true_eq] at h
  exact h.1.1.1.1.1

theorem resultValid_taskId {q : Queue} {worker : Nat} {result : TaskqResult}
    (h : resultValid p q worker result = true) :
    result.taskId = UInt64.ofNat (q.assignedTask worker) := by
  simp only [resultValid, Bool.and_eq_true, decide_eq_true_eq] at h
  exact h.1.1.1.2

theorem failed_keeps {n : Nat} {run : Int32} {q : Queue} {c : Nat → Counters}
    {t₀ t t' : List MasterEvent}
    (hloop : ∀ l t, l.1.queue.InRun p run t₀ t → Maintains (listen _) (masterBody p) (AtHead p)
      (fun r t' => LoopPost p run t₀ r.1 t') n (.loop l .ret) t)
    (h : q.InRun p run t₀ t) (hd : dispatched q.run t' = dispatched q.run t) :
    Keeps p (LoopPost p run t₀) n (failed q) c t' := by
  obtain ⟨accepted, hinv⟩ := h.inv
  exact hloop (.test { q with status := -1 }, c) t'
    ⟨h.run_eq, ⟨accepted, hinv.fail hd⟩, fun hs => by cases hs⟩

/-- Accepting a result that passed the checks. -/
theorem Queue.InRun.complete {q : Queue} {worker : Nat} {run : Int32} {result : TaskqResult}
    {output : Payload} {t₀ t t₁ t₂ : List MasterEvent} (h : q.InRun p run t₀ t)
    (hw : worker < p.nworkers) (hbusy : q.busy worker = true)
    (hvalid : resultValid p q worker result = true)
    (htoken : result.token = referenceToken p q.run result.taskId)
    (h₁ : ReceivedOne worker (some (.taskqResult result)) t t₁)
    (h₂ : ReceivedOne worker (some output) t₁ t₂)
    (houtput : ∀ result, output ≠ .taskqResult result) :
    (q.complete worker).InRun p run t₀ t₂ := by
  have hrun : result.run = q.run := resultValid_run hvalid
  have hother : ∀ run', SameRun run' t₁ t₂ := fun run' => h₂.other houtput
  have htoken : result.token = xorshift64Step^[p.iterations.toNat]
      (taskInitialToken result.taskId q.run) := by
    rw [htoken, referenceToken, linearMapApply_buildXorshiftJump]
  obtain ⟨accepted, hinv⟩ := h.inv
  refine ⟨h.run_eq, ⟨accepted ++ [(worker, result)], ?_⟩, ?_⟩
  · refine hinv.complete hw hbusy (resultValid_taskId hvalid) htoken ?_ ?_ ?_
    · exact h₂.sent.1.trans h₁.sent.1
    · rw [(hother q.run).results, h₁.result, if_pos hrun]
    · exact h₂.sent.2.trans h₁.sent.2
  · intro hs run' hne
    refine ((h.frame hs run' hne).trans ⟨h₁.sent.1, h₁.sent.2, ?_⟩).trans (hother run')
    have hne : result.run ≠ run' := by
      rw [hrun, h.run_eq]
      exact hne.symm
    rw [h₁.result, if_neg hne, List.append_nil]

/-- Handing the next task to a worker that is free. -/
theorem Queue.InRun.dispatch_keeps {n worker : Nat} {run : Int32} {q : Queue}
    {c : Nat → Counters} {t₀ t : List MasterEvent} (h : q.InRun p run t₀ t)
    (hw : worker < p.nworkers) (hfree : q.busy worker = false) :
    Keeps p (fun q' t' => q'.InRun p run t₀ t') n (dispatch p q worker) c t := by
  obtain ⟨accepted, hinv⟩ := h.inv
  refine (Taskq.dispatch_keeps hinv hw hfree).mono ?_
  intro r t' h'
  obtain ⟨hinv', hrun', hstatus', _, hsame⟩ := h'
  refine ⟨hrun'.trans h.run_eq, ⟨accepted, hinv'⟩, ?_⟩
  intro hs run' hne
  refine (h.frame (hstatus'.symm.trans hs) run' hne).trans (hsame run' ?_)
  exact fun heq => hne (heq.trans h.run_eq)

theorem scan_keeps {n worker : Nat} {run : Int32} {q : Queue} {c : Nat → Counters}
    {t₀ t : List MasterEvent}
    (hloop : ∀ l t, l.1.queue.InRun p run t₀ t → Maintains (listen _) (masterBody p) (AtHead p)
      (fun r t' => LoopPost p run t₀ r.1 t') n (.loop l .ret) t)
    (h : q.InRun p run t₀ t) : Keeps p (LoopPost p run t₀) n (scan p q worker) c t := by
  rw [Keeps, scan]
  split
  swap
  · exact hloop (.test q, c) t h
  rename_i hw
  split
  · exact hloop (.scan q (worker+1), c) t h
  rename_i hbusy
  have hbusy : q.busy worker = true := by simpa using hbusy
  refine .poll trivial ?_
  intro found t₁ ht₁
  obtain rfl := ht₁
  cases found with
  | false => exact hloop (.scan q (worker+1), c) t₁ h
  | true =>
  refine (workloadRecvSmall_listen (fun _ => trivial) _ _ _).code_bind ?_
  intro r c₂ t₂ h₂
  have hfail := failed_keeps (n := n) (c := c₂) hloop h h₂.sent.1
  split
  swap
  · exact hfail
  rename_i result
  split
  · exact hfail
  rename_i hvalid
  refine (recvBulkMsg_listen (fun _ => trivial) _ _ _).code_bind ?_
  intro r' c₃ t₃ h₃
  have hfail₃ := failed_keeps (n := n) (c := c₃) hloop h (h₃.sent.1.trans h₂.sent.1)
  split
  swap
  · exact hfail₃
  rename_i output
  split
  · exact hfail₃
  rename_i htoken
  split
  · exact hfail₃
  have hvalid : resultValid p q worker result = true := by simpa using hvalid
  have hcomplete : (q.complete worker).InRun p run t₀ t₃ :=
    h.complete hw hbusy hvalid (not_not.mp htoken) h₂ h₃ (fun result h => by cases h)
  refine (hcomplete.dispatch_keeps hw (Function.update_self ..)).code_bind ?_
  intro q' c₄ t₄ h₄
  exact hloop (.scan q' (worker+1), c₄) t₄ h₄

/-- The loop of one run, from whatever head. -/
theorem loop_keeps {n : Nat} {run : Int32} {t₀ t : List MasterEvent} {l : Head × (Nat → Counters)}
    (h : l.1.queue.InRun p run t₀ t) :
    Maintains (listen _) (masterBody p) (AtHead p) (fun r t' => LoopPost p run t₀ r.1 t') n
      (.loop l .ret) t := by
  refine Maintains.loop (S := Party Nat Head Int)
    (I := fun (l : Head × (Nat → Counters)) t => l.1.queue.InRun p run t₀ t) ?_ n h
  intro n hloop l t h
  refine ⟨h.inv, ?_⟩
  obtain ⟨head, c⟩ := l
  cases head with
  | scan q worker => exact scan_keeps hloop h
  | test q =>
    change Maintains _ _ _ _ n (masterLoop p (.test q) c) t
    rw [masterLoop]
    split
    · exact hloop (.scan q 0, c) t h
    rename_i hstop
    change q.InRun p run t₀ t at h
    refine .ret ?_
    intro hstatus
    obtain ⟨accepted, hinv⟩ := h.inv
    have hdone : p.taskCount.toNat ≤ q.completed := by
      by_contra hlt
      exact hstop ⟨by omega, hstatus⟩
    obtain ⟨hserved, hended, _⟩ := hinv.served hstatus hdone
    have hrun : q.run = run := h.run_eq
    rw [hrun] at hserved hended
    exact ⟨hserved, hended, h.frame hstatus⟩

structure Fresh (run : Int32) (t : List MasterEvent) : Prop where
  dispatched : dispatched run t = []
  ended : ended run t = []
  results : results run t = []

theorem Fresh.same {run : Int32} {t t' : List MasterEvent} (h : Fresh run t)
    (hsame : SameRun run t t') : Fresh run t' :=
  ⟨hsame.dispatched.trans h.dispatched, hsame.ended.trans h.ended, hsame.results.trans h.results⟩

theorem startQueue_inv {run : Int32} {t : List MasterEvent} (h : Fresh run t) :
    (startQueue run).Inv p t [] where
  bound := Nat.zero_le _
  completed := rfl
  partition := by simp [startQueue, Queue.held]
  order := by
    change (dispatched run t).map _ = _
    rw [h.dispatched]
    rfl
  assigned := fun w _ hbusy => by cases hbusy
  source := fun a ha => by cases ha
  received := fun _ => h.results
  open_run := fun _ => h.ended

/-- A position in the list of all workers. -/
theorem range_suffix {n i : Nat} {before rest : List Nat} (h : List.range n = before ++ i :: rest) :
    i < n ∧ i ∉ rest := by
  have hnodup := List.nodup_range (n := n)
  rw [h] at hnodup
  refine ⟨?_, (List.nodup_cons.mp hnodup.of_append_right).1⟩
  apply List.mem_range.mp
  rw [h]
  exact List.mem_append_right _ List.mem_cons_self

structure FirstTasks (p : Params) (run : Int32) (t₀ : List MasterEvent) (rest : List Nat)
    (q : Queue) (t : List MasterEvent) : Prop where
  inv : q.Inv p t []
  run_eq : q.run = run
  free : ∀ v ∈ rest, q.busy v = false
  frame : ∀ run', run' ≠ run → SameRun run' t₀ t

theorem FirstTasks.next {n w : Nat} {run : Int32} {q : Queue} {rest : List Nat}
    {c : Nat → Counters} {t₀ t : List MasterEvent} (h : FirstTasks p run t₀ (w::rest) q t)
    (hw : w < p.nworkers) (hnot : w ∉ rest) :
    Keeps p (fun q' t' => FirstTasks p run t₀ rest q' t') n (dispatch p q w) c t := by
  refine (dispatch_keeps h.inv hw (h.free w List.mem_cons_self)).mono ?_
  intro r t' h'
  obtain ⟨hinv', hrun', _, hbusy', hsame⟩ := h'
  refine ⟨hinv', hrun'.trans h.run_eq, ?_, ?_⟩
  · intro v hv
    have hne : v ≠ w := fun heq => hnot (heq ▸ hv)
    rw [hbusy' v hne]
    exact h.free v (List.mem_cons_of_mem w hv)
  · intro run' hne
    exact (h.frame run' hne).trans (hsame run' (fun heq => hne (heq.trans h.run_eq)))

theorem firstDispatch_keeps {n : Nat} {run : Int32} {c : Nat → Counters}
    {t₀ t : List MasterEvent} (hfresh : Fresh run t)
    (hframe : ∀ run', run' ≠ run → SameRun run' t₀ t) :
    Keeps p (fun q t' => q.InRun p run t₀ t') n
      ((List.range p.nworkers).foldlM (dispatch p) (startQueue run)) c t := by
  suffices hfold : Keeps p (fun q t' => FirstTasks p run t₀ [] q t') n
      ((List.range p.nworkers).foldlM (dispatch p) (startQueue run)) c t from
    hfold.mono (fun r t' h => ⟨h.run_eq, ⟨[], h.inv⟩, fun _ => h.frame⟩)
  have hstart : FirstTasks p run t₀ (List.range p.nworkers) (startQueue run) t :=
    ⟨startQueue_inv hfresh, rfl, fun v _ => rfl, hframe⟩
  refine Maintains.foldlM (E := listen (Party Nat Head Int)) (I := FirstTasks p run t₀) ?_ hstart
  intro w rest hrest q c t h
  obtain ⟨before, hrest⟩ := hrest
  obtain ⟨hw, hnot⟩ := range_suffix hrest
  exact h.next hw hnot

structure EndsSent (p : Params) (run : Int32) (t₀ : List MasterEvent) (rest : List Nat)
    (t : List MasterEvent) : Prop where
  served : Served p run t
  ended : ended run t ++ rest = List.range p.nworkers
  frame : ∀ run', run' ≠ run → SameRun run' t₀ t

theorem EndsSent.next {w : Nat} {task : TaskqTask} {rest : List Nat}
    {t₀ t t' : List MasterEvent} (h : EndsSent p task.run t₀ (w::rest) t)
    (hcommand : task.command = taskqTaskEnd) (ht' : SentOne w (.taskqTask task) t t') :
    EndsSent p task.run t₀ rest t' := by
  have hwork : task.command ≠ taskqTaskWork := by
    rw [hcommand]
    decide
  refine ⟨h.served.same ?_ ht'.task.2.2, ?_, ?_⟩
  · rw [ht'.task.1]
    simp [hwork]
  · rw [ht'.task.2.1]
    simpa [hcommand] using h.ended
  · intro run' hne
    refine (h.frame run' hne).trans ⟨?_, ?_, ht'.task.2.2⟩
    · rw [ht'.task.1]
      simp [hne.symm]
    · rw [ht'.task.2.1]
      simp [hne.symm]

theorem sendEnds_keeps {n : Nat} {run : Int32} {c : Nat → Counters} {t₀ t : List MasterEvent}
    (h : Served p run t ∧ ended run t = [] ∧ ∀ run', run' ≠ run → SameRun run' t₀ t) :
    Keeps p (fun _ t' => Served p run t' ∧ ended run t' = List.range p.nworkers ∧
      ∀ run', run' ≠ run → SameRun run' t₀ t') n
      (forEach (fun worker => sendTaskqEnd p worker run) (List.range p.nworkers)) c t := by
  obtain ⟨hserved, hended, hframe⟩ := h
  suffices hloop : Keeps p (fun _ t' => EndsSent p run t₀ [] t') n
      (forEach (fun worker => sendTaskqEnd p worker run) (List.range p.nworkers)) c t by
    refine hloop.mono (fun r t' h' => ⟨h'.served, ?_, h'.frame⟩)
    rw [← h'.ended, List.append_nil]
  have hstart : EndsSent p run t₀ (List.range p.nworkers) t :=
    ⟨hserved, by rw [hended, List.nil_append], hframe⟩
  refine Maintains.forEach (E := listen (Party Nat Head Int)) (I := EndsSent p run t₀) ?_ hstart
  intro w rest _ c t h
  have hend : taskqTaskEnd ≠ taskqTaskWork := by decide
  refine (workloadSendSmall_listen (atHead_task fun h => absurd h hend) _ _).mono ?_
  intro r t' ht'
  exact h.next rfl ht'

theorem masterRun_keeps {n : Nat} {run : Int32} {c : Nat → Counters} {t₀ : List MasterEvent}
    (hfresh : Fresh run t₀) :
    Keeps p (fun status t' => status = 0 → Served p run t' ∧
      ended run t' = List.range p.nworkers ∧ ∀ run', run' ≠ run → SameRun run' t₀ t') n
      (masterRun p run) c t₀ := by
  rw [Keeps, masterRun]
  refine Maintains.code_bind (Maintains.forEach (I := fun _ t => ∀ run', SameRun run' t₀ t) ?_
    (fun run' => SameRun.refl run' t₀)) ?_
  · intro w rest _ c t ht
    refine (workloadSendSmall_listen (atHead_other fun task h => by cases h) _ _).mono ?_
    intro r t' ht' run'
    exact (ht run').trans (ht'.other (fun task h => by cases h))
  intro _ c₁ t₁ ht₁
  refine (firstDispatch_keeps (hfresh.same (ht₁ run)) (fun run' _ => ht₁ run')).code_bind ?_
  intro q c₂ t₂ hq
  refine Maintains.code_bind (loop_keeps (l := (.test q, c₂)) hq) ?_
  intro status c₃ t₃ hpost
  split
  · rename_i hne
    exact .ret (fun hzero => absurd hzero hne)
  · rename_i hzero
    refine (sendEnds_keeps (hpost (not_not.mp hzero))).code_bind ?_
    intro _ c₄ t₄ h
    exact .ret (fun _ => h)

end Taskq

theorem runs_nodup (numRuns : Int32) : (runs numRuns).Nodup := by
  refine List.Nodup.map_on ?_ List.nodup_range'
  intro a ha b hb h
  have hnum := numRuns.toInt_lt
  have ha := List.mem_range'_1.mp ha
  have hb := List.mem_range'_1.mp hb
  have heq := congrArg Int32.toInt h
  rw [Int32.toInt_ofNat_of_lt (by omega), Int32.toInt_ofNat_of_lt (by omega)] at heq
  exact_mod_cast heq

namespace Taskq
variable {p : Params}

structure ServedBefore (p : Params) (rest : List Int32) (t : List MasterEvent) : Prop where
  served : ∀ run ∈ runs p.numRuns, run ∉ rest → Served p run t ∧
    ended run t = List.range p.nworkers
  fresh : ∀ run ∈ rest, Fresh run t

theorem ServedBefore.next {run : Int32} {rest : List Int32} {t t' : List MasterEvent}
    (h : ServedBefore p (run::rest) t) (hnot : run ∉ rest) (hserved : Served p run t')
    (hended : ended run t' = List.range p.nworkers)
    (hframe : ∀ run', run' ≠ run → SameRun run' t t') : ServedBefore p rest t' where
  served := by
    intro run' hrun' hnot'
    by_cases heq : run' = run
    · subst heq
      exact ⟨hserved, hended⟩
    · have hnot'' : run' ∉ run::rest := List.not_mem_cons_of_ne_of_not_mem heq hnot'
      obtain ⟨hs, he⟩ := h.served run' hrun' hnot''
      have hsame := hframe run' heq
      exact ⟨hs.same hsame.dispatched hsame.results, hsame.ended.trans he⟩
  fresh := by
    intro run' hrun'
    have hne : run' ≠ run := fun heq => hnot (heq ▸ hrun')
    exact (h.fresh run' (List.mem_cons_of_mem run hrun')).same (hframe run' hne)

theorem masterRuns_keeps {n : Nat} {c : Nat → Counters} {t : List MasterEvent}
    (hfresh : ∀ run, Fresh run t) :
    Keeps p (fun status t' => status = 0 → ServedBefore p [] t') n
      (untilFailure (masterRun p) (runs p.numRuns)) c t := by
  have hstart : ServedBefore p (runs p.numRuns) t :=
    ⟨fun run hrun hnot => absurd hrun hnot, fun run _ => hfresh run⟩
  refine Maintains.untilFailure (E := listen (Party Nat Head Int)) (I := ServedBefore p) ?_ hstart
  intro run rest hrest c t ht
  obtain ⟨before, hrest⟩ := hrest
  have hnodup := runs_nodup p.numRuns
  rw [hrest] at hnodup
  have hnot : run ∉ rest := (List.nodup_cons.mp hnodup.of_append_right).1
  refine (masterRun_keeps (ht.fresh run List.mem_cons_self)).mono ?_
  intro r t' h hzero
  obtain ⟨hserved, hended, hframe⟩ := h hzero
  exact ht.next hnot hserved hended hframe

theorem runTaskqMaster_keeps (n : Nat) (c : Nat → Counters) :
    Keeps p (fun status t => status = 0 → ∀ run ∈ runs p.numRuns, Served p run t ∧
      ended run t = List.range p.nworkers) n (runTaskqMaster p) c [] := by
  rw [Keeps, runTaskqMaster]
  have hempty : ∀ run, Fresh run ([] : List MasterEvent) := fun run => ⟨rfl, rfl, rfl⟩
  refine Maintains.code_bind (Maintains.forEach (I := fun _ t => ∀ run, Fresh run t) ?_ hempty) ?_
  · intro w rest _ c t ht
    refine (secureSendMsg_listen (atHead_other fun task h => by cases h) _).mono ?_
    intro r t' ht' run
    exact (ht run).same (ht'.other (fun task h => by cases h))
  intro _ c₁ t₁ ht₁
  refine Maintains.code_bind (Maintains.untilFailure (I := fun _ t => ∀ run, Fresh run t) ?_ ht₁) ?_
  · intro w rest _ c t ht
    refine (secureRecvMsg_listen (fun _ => trivial) _ _).code_bind ?_
    intro r c' t' ht'
    split
    · split
      · exact .ret (fun hzero => by cases hzero)
      · refine .ret (fun _ run => (ht run).same (ht'.other (fun result h => by cases h)))
    · exact .ret (fun hzero => by cases hzero)
  intro ready c₂ t₂ ht₂
  split
  · exact .ret (fun hzero => by cases hzero)
  rename_i hready
  refine (masterRuns_keeps (ht₂ (not_not.mp hready))).mono ?_
  intro r t' h hzero run hrun
  exact (h hzero).served run hrun List.not_mem_nil

end Taskq

end DistributedEnclave.Npb
