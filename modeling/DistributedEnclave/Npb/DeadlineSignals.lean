import DistributedEnclave.AlarmClock
import DistributedEnclave.Npb.WaitScopes

/-! The wait deadlines one instruction at a time. SIGALRM is blocked while a scope is opened or
closed, and its timer may run out at any point. -/
namespace DistributedEnclave.Npb.Deadline
open Alarms Outcome Relation Timeouts Transition

/-- What the program is at: code of its own, or the next statement of `npb_wait_begin` or
`npb_wait_end`, with the signal mask that they put back. -/
inductive Point where
  | running
  | blockBegin (kind : Kind)
  | inspect (kind : Kind) (previousMask : Bool)
  | install (kind : Kind) (previousMask : Bool)
  | activate (kind : Kind) (previousMask : Bool)
  | count (kind : Kind) (previousMask : Bool)
  | arm (kind : Kind) (previousMask : Bool)
  | blockEnd
  | deactivate (previousMask : Bool)
  | disarm (previousMask : Bool)
  | restore (previousMask : Bool)
  | returning

/-- How the process may end: `_exit` with the code of a fault or of the deadline, or the default
action of SIGALRM. -/
inductive Ended where
  | fault (f : Fault)
  | timeout
  | killed

/-- The variables of `npb_timeout.c`, the alarm, the kinds of the open scopes and the time at
which the outermost of them was armed. -/
structure Execution where
  wait : Wait := {}
  alarm : Alarm := {}
  point : Point := .running
  ended : Option Ended := none
  scopes : List Kind := []
  since : Nat := 0

namespace Execution

def fault (s : Execution) (f : Fault) : Execution := { s with ended := some (.fault f) }

def configurationError (s : Execution) (message : String) : Execution :=
  s.fault (.configuration message)

/-- The delivery of the signal to what is installed for it, which may be `timeout_handler`. -/
def delivered (s : Execution) : Execution :=
  match s.wait.handler with
  | .default => { s with alarm := s.alarm.taken, ended := some .killed }
  | .timeout =>
    if s.wait.deadlineActive then { s with alarm := s.alarm.taken, ended := some .timeout }
    else { s with alarm := s.alarm.taken }
  | .other => { s with alarm := s.alarm.taken }

end Execution

/-- One statement. Every call on signals and timers may fail; `sigprocmask` returns after a signal
that it has unblocked. The timer counts `rate` units a second. -/
inductive Instruction (sys : Timeouts.System) (rate : Nat) : Execution → Execution → Prop
  | nestingOverflow {s} (hpoint : s.point = .running) (h : s.wait.waitDepth = uintMax) :
    Instruction _ _ s (s.configurationError "wait nesting overflow")
  | nested {s kind} (hpoint : s.point = .running) (h : s.wait.waitDepth ≠ 0)
    (hmax : s.wait.waitDepth ≠ uintMax) :
    Instruction _ _ s { s with
      wait := { s.wait with waitDepth := s.wait.waitDepth+1 }
      scopes := kind :: s.scopes }
  | misconfigured {s f} (hpoint : s.point = .running) (h : s.wait.waitDepth = 0)
    (hconfigure : configure sys s.wait = .error f) : Instruction _ _ s (s.fault f)
  | outermost {s kind w} (hpoint : s.point = .running) (h : s.wait.waitDepth = 0)
    (hconfigure : configure sys s.wait = .ok w) :
    Instruction _ _ s { s with wait := w, point := .blockBegin kind }
  | blockBegin {s kind} (hpoint : s.point = .blockBegin kind) :
    Instruction _ _ s
      { s with alarm := s.alarm.mask true, point := .inspect kind s.alarm.blocked }
  | notBlocked {s} (hpoint : (∃ kind, s.point = .blockBegin kind) ∨ s.point = .blockEnd) :
    Instruction _ _ s (s.configurationError "cannot block SIGALRM")
  | alreadyBlocked {s kind} (hpoint : s.point = .inspect kind true) :
    Instruction _ _ s (s.configurationError "SIGALRM was already blocked")
  | notInspected {s kind} (hpoint : s.point = .inspect kind false) :
    Instruction _ _ s (s.configurationError "cannot inspect existing timer")
  | inUse {s kind} (hpoint : s.point = .inspect kind false)
    (h : s.wait.handler = .other ∨ s.alarm.due ≠ none) :
    Instruction _ _ s (s.configurationError "SIGALRM or ITIMER_REAL is already in use")
  | inspected {s kind} (hpoint : s.point = .inspect kind false)
    (h : ¬(s.wait.handler = .other ∨ s.alarm.due ≠ none)) :
    Instruction _ _ s { s with point := .install kind false }
  | notInstalled {s kind b} (hpoint : s.point = .install kind b) :
    Instruction _ _ s (s.configurationError "cannot install SIGALRM handler")
  | installed {s kind b} (hpoint : s.point = .install kind b) :
    Instruction _ _ s
      { s with wait := { s.wait with handler := .timeout }, point := .activate kind b }
  | activate {s kind b} (hpoint : s.point = .activate kind b) :
    Instruction _ _ s
      { s with wait := { s.wait with deadlineActive := true }, point := .count kind b }
  | count {s kind b} (hpoint : s.point = .count kind b) :
    Instruction _ _ s { s with wait := { s.wait with waitDepth := 1 }, point := .arm kind b }
  | arm {s kind b} (hpoint : s.point = .arm kind b) :
    Instruction _ _ s { s with
      wait := { s.wait with timer := Timeouts.alarm (s.wait.waitLimits kind) }
      alarm := s.alarm.set
        ((Timeouts.alarm (s.wait.waitLimits kind)).map (fun n => s.alarm.clock+rate*n))
      point := .restore b
      scopes := kind :: s.scopes
      since := s.alarm.clock }
  | unbalanced {s} (hpoint : s.point = .running) (h : s.wait.waitDepth = 0) :
    Instruction _ _ s (s.configurationError "unbalanced wait scope")
  | unnested {s} (hpoint : s.point = .running) (h : s.wait.waitDepth ≠ 0)
    (hmore : s.wait.waitDepth-1 ≠ 0) :
    Instruction _ _ s { s with
      wait := { s.wait with waitDepth := s.wait.waitDepth-1 }
      scopes := s.scopes.tail }
  | last {s} (hpoint : s.point = .running) (h : s.wait.waitDepth ≠ 0)
    (hmore : s.wait.waitDepth-1 = 0) :
    Instruction _ _ s { s with
      wait := { s.wait with waitDepth := s.wait.waitDepth-1 }
      point := .blockEnd }
  | blockEnd {s} (hpoint : s.point = .blockEnd) :
    Instruction _ _ s
      { s with alarm := s.alarm.mask true, point := .deactivate s.alarm.blocked }
  | deactivate {s b} (hpoint : s.point = .deactivate b) :
    Instruction _ _ s
      { s with wait := { s.wait with deadlineActive := false }, point := .disarm b }
  | disarm {s b} (hpoint : s.point = .disarm b) :
    Instruction _ _ s { s with
      wait := { s.wait with timer := none }
      alarm := s.alarm.set none
      point := .restore b
      scopes := s.scopes.tail }
  | restored {s b} (hpoint : s.point = .restore b) :
    Instruction _ _ s { s with alarm := s.alarm.mask b, point := .returning }
  | notRestored {s b} (hpoint : s.point = .restore b) :
    Instruction _ _ s (s.configurationError "cannot restore signal mask")
  | returned {s} (hpoint : s.point = .returning) (h : ¬s.alarm.Raised) :
    Instruction _ _ s { s with point := .running }

inductive Happens : Execution → Execution → Prop
  | passes {s a} (hrun : s.ended = none) (h : Passes s.alarm a) :
    Happens s { s with alarm := a }
  | delivered {s} (hrun : s.ended = none) (h : s.alarm.Raised) : Happens s s.delivered

inductive Step (sys : Timeouts.System) (rate : Nat) : Execution → Execution → Prop
  | happens {s s'} (h : Happens s s') : Step _ _ s s'
  | instruction {s s'} (hrun : s.ended = none) (h : Instruction sys rate s s') : Step _ _ s s'

inductive ScopeCall (sys : Timeouts.System) : Wait × List Kind → Wait × List Kind → Prop
  | begin {signals : Signals} {kind w w' scopes} (h : npbWaitBegin sys signals kind w = .ok w') :
    ScopeCall _ (w, scopes) (w', kind :: scopes)
  | leave {signals : Signals} {w w' scopes} (h : npbWaitEnd signals w = .ok w') :
    ScopeCall _ (w, scopes) (w', scopes.tail)

variable {sys : Timeouts.System} {rate : Nat} {w w' : Wait} {scopes : List Kind} {a a' : Alarm}
  {kind : Kind} {since : Nat}

theorem ScopeCall.keeps {p : Wait × List Kind} (h : ReflTransGen (ScopeCall sys) ({}, []) p) :
    Keeps sys p.1 p.2 := by
  induction h with
  | refl => exact .initial
  | tail _ hcall ih =>
    cases hcall with
    | begin h => exact ih.enter h
    | leave h => exact ih.leave h

section Calls

def allGood : Signals := ⟨true, true, true, true⟩

theorem npbWaitBegin_nested (hdepth : w.waitDepth ≠ 0) (hmax : w.waitDepth ≠ uintMax) :
    npbWaitBegin sys allGood kind w = .ok { w with waitDepth := w.waitDepth+1 } := by
  rw [npbWaitBegin, if_pos hdepth, if_neg hmax]

theorem npbWaitBegin_outermost {w₁ : Wait} (hdepth : w.waitDepth = 0)
    (hconfigure : configure sys w = .ok w₁) (hblocked : sys.alarmBlocked = false)
    (hhandler : w₁.handler ≠ .other) (htimer : w₁.timer = none) :
    npbWaitBegin sys allGood kind w = .ok { w₁ with
      handler := .timeout
      deadlineActive := true
      waitDepth := 1
      timer := Timeouts.alarm (w₁.waitLimits kind) } := by
  have hfree : ¬(w₁.handler = .other ∨ w₁.timer ≠ none) :=
    not_or.mpr ⟨hhandler, not_not.mpr htimer⟩
  rw [npbWaitBegin, if_neg (not_not.mpr hdepth), hconfigure, ok_bind, if_neg (by simp [allGood]),
    if_neg (by simp [hblocked]), if_neg (by simp [allGood]), if_neg hfree,
    if_neg (by simp [allGood]), if_neg (by simp [allGood])]
  rfl

theorem npbWaitEnd_unnested (hdepth : w.waitDepth ≠ 0) (hmore : w.waitDepth-1 ≠ 0) :
    npbWaitEnd allGood w = .ok { w with waitDepth := w.waitDepth-1 } := by
  rw [npbWaitEnd, if_neg hdepth, if_pos hmore]

theorem npbWaitEnd_last (hdepth : w.waitDepth = 1) :
    npbWaitEnd allGood w =
      .ok { w with waitDepth := 0, deadlineActive := false, timer := none } := by
  simp [npbWaitEnd, hdepth, allGood]

/-- A setting that is refused is the only thing that is wrong with the configuration. -/
theorem configure_avoids {message : String}
    (h : message ≠ "PPDPC_ENROLL_TIMEOUT_SECONDS" ∧ message ≠ "PPDPC_IO_TIMEOUT_SECONDS" ∧
      message ≠ "PPDPC_SHUTDOWN_TIMEOUT_SECONDS") :
    Avoids (.configuration message) (configure sys w) := by
  have hsetting : ∀ kind, Avoids (.configuration message) (setting sys kind) := by
    intro kind heq
    cases kind with
    | enrollment => exact h.1 (Fault.configuration.inj (timeoutSetting_error heq))
    | io => exact h.2.1 (Fault.configuration.inj (timeoutSetting_error heq))
    | shutdown => exact h.2.2 (Fault.configuration.inj (timeoutSetting_error heq))
  refine .ite (fun _ => .ok _) fun _ => ?_
  refine .bind (hsetting _) fun _ _ => .bind (hsetting _) fun _ _ => ?_
  exact .bind (hsetting _) fun _ _ => .ok _

end Calls

/-- An open scope: its alarm cannot be lost, and it comes to the handler. -/
structure Open (sys : Timeouts.System) (rate : Nat) (w : Wait) (since : Nat) (a : Alarm) : Prop where
  handler : w.handler = .timeout
  unblocked : sys.alarmBlocked = false
  armed : ∀ n, w.timer = some n → a.Armed (since+rate*n)

theorem Open.alarm (h : Open sys rate w since a)
    (ha : ∀ t, a.Armed t → a'.Armed t) : Open sys rate w since a' :=
  ⟨h.handler, h.unblocked, fun n hn => ha _ (h.armed n hn)⟩

/-- Behind the last scope the signal may still be there, but the handler lets it pass. -/
structure Closed (sys : Timeouts.System) (w : Wait) (a : Alarm) : Prop where
  handler : w.handler = .timeout
  unblocked : sys.alarmBlocked = false
  off : a.due = none

structure Opening (sys : Timeouts.System) (scopes : List Kind) (a : Alarm) (previousMask : Bool) :
    Prop where
  scopes : scopes = []
  quiet : a.Quiet
  blocked : a.blocked = true
  previous : previousMask = false
  unblocked : sys.alarmBlocked = false

def Execution.At (sys : Timeouts.System) (rate : Nat) (w : Wait) (s : Execution) : Prop :=
  match s.point with
  | .running => s.wait = w ∧ s.alarm.blocked = sys.alarmBlocked ∧ (s.scopes = [] → s.alarm.Quiet) ∧
      (s.scopes ≠ [] → Open sys rate w s.since s.alarm)
  | .blockBegin _ => configure sys w = .ok s.wait ∧ s.scopes = [] ∧ s.alarm.Quiet ∧
      s.alarm.blocked = sys.alarmBlocked
  | .inspect _ b => configure sys w = .ok s.wait ∧ s.scopes = [] ∧ s.alarm.Quiet ∧
      s.alarm.blocked = true ∧ b = sys.alarmBlocked
  | .install _ b => configure sys w = .ok s.wait ∧ Opening sys s.scopes s.alarm b
  | .activate _ b => ∃ w₁, configure sys w = .ok w₁ ∧ s.wait = { w₁ with handler := .timeout } ∧
      Opening sys s.scopes s.alarm b
  | .count _ b => ∃ w₁, configure sys w = .ok w₁ ∧
      s.wait = { w₁ with handler := .timeout, deadlineActive := true } ∧ Opening sys s.scopes s.alarm b
  | .arm _ b => ∃ w₁, configure sys w = .ok w₁ ∧
      s.wait = { w₁ with handler := .timeout, deadlineActive := true, waitDepth := 1 } ∧
      Opening sys s.scopes s.alarm b
  | .blockEnd => w.waitDepth = 1 ∧ s.wait = { w with waitDepth := 0 } ∧
      s.alarm.blocked = false ∧ Open sys rate w s.since s.alarm
  | .deactivate b => w.waitDepth = 1 ∧ s.wait = { w with waitDepth := 0 } ∧
      s.alarm.blocked = true ∧ b = false ∧ Open sys rate w s.since s.alarm
  | .disarm b => w.waitDepth = 1 ∧ s.wait = { w with waitDepth := 0, deadlineActive := false } ∧
      s.alarm.blocked = true ∧ b = false ∧ w.handler = .timeout ∧ sys.alarmBlocked = false
  | .restore b => s.wait = w ∧ s.alarm.blocked = true ∧ b = false ∧
      (s.scopes = [] → Closed sys w s.alarm) ∧ (s.scopes ≠ [] → Open sys rate w s.since s.alarm)
  | .returning => s.wait = w ∧ s.alarm.blocked = false ∧
      (s.scopes = [] → Closed sys w s.alarm) ∧ (s.scopes ≠ [] → Open sys rate w s.since s.alarm)

def Execution.Expired (sys : Timeouts.System) (rate : Nat) (s : Execution) : Prop :=
  ∃ kind n, s.scopes.getLast? = some kind ∧ setting sys kind = .ok n ∧
    s.since+rate*n ≤ s.alarm.clock

/-- What a fault cannot be, or only where SIGALRM was blocked from the start. -/
structure Blameless (sys : Timeouts.System) (f : Fault) : Prop where
  used : f ≠ .configuration "SIGALRM or ITIMER_REAL is already in use"
  blocked : f = .configuration "SIGALRM was already blocked" → sys.alarmBlocked = true

def Execution.Inv (sys : Timeouts.System) (rate : Nat) (s : Execution) : Prop :=
  match s.ended with
  | none => ∃ w, ReflTransGen (ScopeCall sys) ({}, []) (w, s.scopes) ∧ s.At sys rate w
  | some .timeout => s.Expired sys rate
  | some .killed => False
  | some (.fault f) => Blameless sys f

section Steps
variable {s s' : Execution} {message : String}

theorem blameless (hused : message ≠ "SIGALRM or ITIMER_REAL is already in use")
    (hblocked : message ≠ "SIGALRM was already blocked") :
    Blameless sys (.configuration message) :=
  ⟨fun heq => hused (Fault.configuration.inj heq),
    fun heq => absurd (Fault.configuration.inj heq) hblocked⟩

/-- The time and the timer change nothing about where the execution stands. -/
theorem Execution.At.passes (h : s.At sys rate w) (hpasses : Passes s.alarm a) :
    { s with alarm := a }.At sys rate w := by
  have harmed : ∀ t, s.alarm.Armed t → a.Armed t := fun t ht => ht.passes hpasses
  have hopening : ∀ b, Opening sys s.scopes s.alarm b → Opening sys s.scopes a b := by
    intro b hb
    exact ⟨hb.scopes, hb.quiet.passes hpasses, hpasses.blocked.trans hb.blocked, hb.previous,
      hb.unblocked⟩
  have hclosed : Closed sys w s.alarm → Closed sys w a := by
    intro hc
    exact ⟨hc.handler, hc.unblocked, hpasses.off hc.off⟩
  cases hpoint : s.point with
  | running =>
    simp only [Execution.At, hpoint] at h ⊢
    obtain ⟨hw, hblocked, hquiet, hopen⟩ := h
    exact ⟨hw, hpasses.blocked.trans hblocked, fun hnil => (hquiet hnil).passes hpasses,
      fun hne => (hopen hne).alarm harmed⟩
  | blockBegin kind =>
    simp only [Execution.At, hpoint] at h ⊢
    obtain ⟨hw, hnil, hquiet, hblocked⟩ := h
    exact ⟨hw, hnil, hquiet.passes hpasses, hpasses.blocked.trans hblocked⟩
  | inspect kind b =>
    simp only [Execution.At, hpoint] at h ⊢
    obtain ⟨hw, hnil, hquiet, hblocked, hb⟩ := h
    exact ⟨hw, hnil, hquiet.passes hpasses, hpasses.blocked.trans hblocked, hb⟩
  | install kind b =>
    simp only [Execution.At, hpoint] at h ⊢
    exact ⟨h.1, hopening b h.2⟩
  | activate kind b =>
    simp only [Execution.At, hpoint] at h ⊢
    obtain ⟨w₁, hconfigure, hw, hb⟩ := h
    exact ⟨w₁, hconfigure, hw, hopening b hb⟩
  | count kind b =>
    simp only [Execution.At, hpoint] at h ⊢
    obtain ⟨w₁, hconfigure, hw, hb⟩ := h
    exact ⟨w₁, hconfigure, hw, hopening b hb⟩
  | arm kind b =>
    simp only [Execution.At, hpoint] at h ⊢
    obtain ⟨w₁, hconfigure, hw, hb⟩ := h
    exact ⟨w₁, hconfigure, hw, hopening b hb⟩
  | blockEnd =>
    simp only [Execution.At, hpoint] at h ⊢
    obtain ⟨hdepth, hw, hblocked, hopen⟩ := h
    exact ⟨hdepth, hw, hpasses.blocked.trans hblocked, hopen.alarm harmed⟩
  | deactivate b =>
    simp only [Execution.At, hpoint] at h ⊢
    obtain ⟨hdepth, hw, hblocked, hb, hopen⟩ := h
    exact ⟨hdepth, hw, hpasses.blocked.trans hblocked, hb, hopen.alarm harmed⟩
  | disarm b =>
    simp only [Execution.At, hpoint] at h ⊢
    obtain ⟨hdepth, hw, hblocked, hrest⟩ := h
    exact ⟨hdepth, hw, hpasses.blocked.trans hblocked, hrest⟩
  | restore b =>
    simp only [Execution.At, hpoint] at h ⊢
    obtain ⟨hw, hblocked, hb, hnil, hopen⟩ := h
    exact ⟨hw, hpasses.blocked.trans hblocked, hb, fun h => hclosed (hnil h),
      fun hne => (hopen hne).alarm harmed⟩
  | returning =>
    simp only [Execution.At, hpoint] at h ⊢
    obtain ⟨hw, hblocked, hnil, hopen⟩ := h
    exact ⟨hw, hpasses.blocked.trans hblocked, fun h => hclosed (hnil h),
      fun hne => (hopen hne).alarm harmed⟩

/-- The handler ends the process, and not before the limit has passed. -/
theorem Open.delivered (hopen : Open sys rate w s.since s.alarm) (hkeeps : Keeps sys w s.scopes)
    (hne : s.scopes ≠ []) (hhandler : s.wait.handler = w.handler)
    (hactive : s.wait.deadlineActive = w.deadlineActive) (hraised : s.alarm.Raised) :
    s.delivered.Inv sys rate := by
  have htimeout := hhandler.trans hopen.handler
  have hwaiting := hactive.trans (hkeeps.active.mpr hne)
  obtain ⟨n, hn, htimer⟩ := hkeeps.armed _ (List.getLast?_eq_some_getLast hne)
  have hlate := (hopen.armed n htimer).late hraised
  simp only [Execution.delivered, htimeout, hwaiting, if_true, Execution.Inv, Execution.Expired]
  exact ⟨_, n, List.getLast?_eq_some_getLast hne, hn, hlate⟩

theorem Execution.At.delivered (h : s.At sys rate w) (hrun : s.ended = none)
    (hreached : ReflTransGen (ScopeCall sys) ({}, []) (w, s.scopes)) (hraised : s.alarm.Raised) :
    s.delivered.Inv sys rate := by
  have hkeeps : Keeps sys w s.scopes := ScopeCall.keeps hreached
  have hblocked : s.alarm.blocked ≠ true := by
    rw [hraised.2]
    decide
  cases hpoint : s.point with
  | running =>
    simp only [Execution.At, hpoint] at h
    obtain ⟨hw, -, hquiet, hopen⟩ := h
    by_cases hnil : s.scopes = []
    · exact absurd hraised (hquiet hnil).not_raised
    · exact (hopen hnil).delivered hkeeps hnil (by rw [hw]) (by rw [hw]) hraised
  | blockBegin kind =>
    simp only [Execution.At, hpoint] at h
    exact absurd hraised h.2.2.1.not_raised
  | inspect kind b =>
    simp only [Execution.At, hpoint] at h
    exact absurd h.2.2.2.1 hblocked
  | install kind b =>
    simp only [Execution.At, hpoint] at h
    exact absurd h.2.blocked hblocked
  | activate kind b =>
    simp only [Execution.At, hpoint] at h
    obtain ⟨_, _, _, hb⟩ := h
    exact absurd hb.blocked hblocked
  | count kind b =>
    simp only [Execution.At, hpoint] at h
    obtain ⟨_, _, _, hb⟩ := h
    exact absurd hb.blocked hblocked
  | arm kind b =>
    simp only [Execution.At, hpoint] at h
    obtain ⟨_, _, _, hb⟩ := h
    exact absurd hb.blocked hblocked
  | blockEnd =>
    simp only [Execution.At, hpoint] at h
    obtain ⟨hdepth, hw, -, hopen⟩ := h
    have hne : s.scopes ≠ [] := hkeeps.nonempty.mp (by rw [hdepth]; decide)
    exact hopen.delivered hkeeps hne (by rw [hw]) (by rw [hw]) hraised
  | deactivate b =>
    simp only [Execution.At, hpoint] at h
    exact absurd h.2.2.1 hblocked
  | disarm b =>
    simp only [Execution.At, hpoint] at h
    exact absurd h.2.2.1 hblocked
  | restore b =>
    simp only [Execution.At, hpoint] at h
    exact absurd h.2.1 hblocked
  | returning =>
    simp only [Execution.At, hpoint] at h
    obtain ⟨hw, hunblocked, hclosed, hopen⟩ := h
    by_cases hnil : s.scopes = []
    · -- the alarm of a scope that is closed: the handler finds no deadline active
      have hinactive : s.wait.deadlineActive = false := by
        rw [hw]
        exact Bool.eq_false_iff.mpr fun hactive => hkeeps.active.mp hactive hnil
      have hhandler : s.wait.handler = .timeout := by
        rw [hw]
        exact (hclosed hnil).handler
      simp only [Execution.delivered, hhandler, hinactive, Bool.false_eq_true, if_false,
        Execution.Inv, hrun]
      refine ⟨w, hreached, ?_⟩
      simp only [Execution.At, hpoint]
      exact ⟨hw, hunblocked, fun _ => ⟨(hclosed hnil).handler, (hclosed hnil).unblocked,
        (hclosed hnil).off⟩, fun hne => absurd hnil hne⟩
    · exact (hopen hnil).delivered hkeeps hnil (by rw [hw]) (by rw [hw]) hraised

theorem Happens.inv (h : s.Inv sys rate) (hstep : Happens s s') : s'.Inv sys rate := by
  cases hstep with
  | passes hrun hpasses =>
    simp only [Execution.Inv, hrun] at h ⊢
    obtain ⟨w, hreached, hat⟩ := h
    exact ⟨w, hreached, hat.passes hpasses⟩
  | delivered hrun hraised =>
    simp only [Execution.Inv, hrun] at h
    obtain ⟨w, hreached, hat⟩ := h
    exact hat.delivered hrun hreached hraised

/-- Outside of all scopes the handler is none of the program's own, and no timer is set. -/
theorem configured_free (hkeeps : Keeps sys w []) {w₁ : Wait}
    (hconfigure : configure sys w = .ok w₁) :
    w₁.handler ≠ .other ∧ w₁.timer = none ∧
      ∀ kind, setting sys kind = .ok (w₁.waitLimits kind) := by
  obtain ⟨limits, rfl, hlimits⟩ := configure_ok hkeeps.limits hconfigure
  exact ⟨hkeeps.handler, hkeeps.disarmed rfl, hlimits⟩

theorem Instruction.inv (h : s.Inv sys rate) (hrun : s.ended = none)
    (hstep : Instruction sys rate s s') : s'.Inv sys rate := by
  simp only [Execution.Inv, hrun] at h
  obtain ⟨w, hreached, hat⟩ := h
  have hkeeps : Keeps sys w s.scopes := ScopeCall.keeps hreached
  cases hstep with
  | nestingOverflow hpoint hdepth => exact blameless (by decide) (by decide)
  | notBlocked hpoint => exact blameless (by decide) (by decide)
  | notInspected hpoint => exact blameless (by decide) (by decide)
  | notInstalled hpoint => exact blameless (by decide) (by decide)
  | unbalanced hpoint hdepth => exact blameless (by decide) (by decide)
  | notRestored hpoint => exact blameless (by decide) (by decide)
  | misconfigured hpoint hdepth hconfigure =>
    refine ⟨fun heq => ?_, fun heq => ?_⟩
    · subst heq
      exact absurd hconfigure (configure_avoids (by decide))
    · subst heq
      exact absurd hconfigure (configure_avoids (by decide))
  | alreadyBlocked hpoint =>
    simp only [Execution.At, hpoint] at hat
    exact ⟨fun heq => absurd (Fault.configuration.inj heq) (by decide),
      fun _ => hat.2.2.2.2.symm⟩
  | inUse hpoint hused =>
    simp only [Execution.At, hpoint] at hat
    obtain ⟨hconfigure, hnil, hquiet, -⟩ := hat
    rw [hnil] at hkeeps
    obtain ⟨hhandler, -⟩ := configured_free hkeeps hconfigure
    exact absurd hused (not_or.mpr ⟨hhandler, not_not.mpr hquiet.due⟩)
  | nested hpoint hdepth hmax =>
    simp only [Execution.At, hpoint] at hat
    obtain ⟨rfl, hblocked, -, hopen⟩ := hat
    have hne : s.scopes ≠ [] := hkeeps.nonempty.mp hdepth
    simp only [Execution.Inv, hrun, Execution.At, hpoint]
    refine ⟨_, hreached.tail (.begin (npbWaitBegin_nested hdepth hmax)), rfl, hblocked, nofun, ?_⟩
    exact fun _ => ⟨(hopen hne).handler, (hopen hne).unblocked, (hopen hne).armed⟩
  | outermost hpoint hdepth hconfigure =>
    simp only [Execution.At, hpoint] at hat
    obtain ⟨rfl, hblocked, hquiet, -⟩ := hat
    have hnil : s.scopes = [] := not_not.mp fun hne => hkeeps.nonempty.mpr hne hdepth
    simp only [Execution.Inv, hrun, Execution.At]
    exact ⟨s.wait, hreached, hconfigure, hnil, hquiet hnil, hblocked⟩
  | blockBegin hpoint =>
    simp only [Execution.At, hpoint] at hat
    obtain ⟨hconfigure, hnil, hquiet, hblocked⟩ := hat
    simp only [Execution.Inv, hrun, Execution.At]
    exact ⟨w, hreached, hconfigure, hnil, hquiet.mask true, rfl, hblocked⟩
  | inspected hpoint hfree =>
    simp only [Execution.At, hpoint] at hat
    obtain ⟨hconfigure, hnil, hquiet, hblocked, hb⟩ := hat
    simp only [Execution.Inv, hrun, Execution.At]
    exact ⟨w, hreached, hconfigure, hnil, hquiet, hblocked, rfl, hb.symm⟩
  | installed hpoint =>
    simp only [Execution.At, hpoint] at hat
    simp only [Execution.Inv, hrun, Execution.At]
    exact ⟨w, hreached, s.wait, hat.1, rfl, hat.2⟩
  | activate hpoint =>
    simp only [Execution.At, hpoint] at hat
    obtain ⟨w₁, hconfigure, hw, hopening⟩ := hat
    simp only [Execution.Inv, hrun, Execution.At]
    exact ⟨w, hreached, w₁, hconfigure, by rw [hw], hopening⟩
  | count hpoint =>
    simp only [Execution.At, hpoint] at hat
    obtain ⟨w₁, hconfigure, hw, hopening⟩ := hat
    simp only [Execution.Inv, hrun, Execution.At]
    exact ⟨w, hreached, w₁, hconfigure, by rw [hw], hopening⟩
  | @arm kind b hpoint =>
    simp only [Execution.At, hpoint] at hat
    obtain ⟨w₁, hconfigure, hw, hopening⟩ := hat
    have hdepth : w.waitDepth = 0 := by
      rw [hkeeps.depth, hopening.scopes]
      rfl
    rw [hopening.scopes] at hkeeps
    obtain ⟨hhandler, htimer, hlimits⟩ := configured_free hkeeps hconfigure
    have hset : Timeouts.alarm (w₁.waitLimits kind) = some (w₁.waitLimits kind) :=
      if_neg (setting_pos (hlimits kind))
    have hcall : ScopeCall sys (w, s.scopes) (_, kind :: s.scopes) :=
      .begin (npbWaitBegin_outermost hdepth hconfigure hopening.unblocked hhandler htimer)
    simp only [Execution.Inv, hrun, Execution.At, hw, hset, Option.map_some]
    refine ⟨_, hreached.tail hcall, by rw [hset], hopening.blocked, hopening.previous, nofun,
      fun _ => ⟨rfl, hopening.unblocked, ?_⟩⟩
    intro n hn
    rw [hset] at hn
    cases hn
    exact hopening.quiet.set _
  | unnested hpoint hdepth hmore =>
    simp only [Execution.At, hpoint] at hat
    obtain ⟨rfl, hblocked, -, hopen⟩ := hat
    have hne : s.scopes ≠ [] := hkeeps.nonempty.mp hdepth
    have hmany : s.scopes.tail ≠ [] := by
      intro htail
      have hlength := congrArg List.length htail
      rw [List.length_tail, ← hkeeps.depth] at hlength
      exact hmore hlength
    simp only [Execution.Inv, hrun, Execution.At, hpoint]
    refine ⟨_, hreached.tail (.leave (npbWaitEnd_unnested hdepth hmore)), rfl, hblocked,
      fun htail => absurd htail hmany, ?_⟩
    exact fun _ => ⟨(hopen hne).handler, (hopen hne).unblocked, (hopen hne).armed⟩
  | last hpoint hdepth hmore =>
    simp only [Execution.At, hpoint] at hat
    obtain ⟨rfl, hblocked, -, hopen⟩ := hat
    have hne : s.scopes ≠ [] := hkeeps.nonempty.mp hdepth
    simp only [Execution.Inv, hrun, Execution.At]
    refine ⟨s.wait, hreached, by omega, by rw [hmore], ?_, hopen hne⟩
    exact hblocked.trans (hopen hne).unblocked
  | blockEnd hpoint =>
    simp only [Execution.At, hpoint] at hat
    obtain ⟨hdepth, hw, hblocked, hopen⟩ := hat
    simp only [Execution.Inv, hrun, Execution.At]
    exact ⟨w, hreached, hdepth, hw, rfl, hblocked, hopen.alarm fun t ht => ht.mask true⟩
  | deactivate hpoint =>
    simp only [Execution.At, hpoint] at hat
    obtain ⟨hdepth, hw, hblocked, hb, hopen⟩ := hat
    simp only [Execution.Inv, hrun, Execution.At]
    exact ⟨w, hreached, hdepth, by rw [hw], hblocked, hb, hopen.handler, hopen.unblocked⟩
  | disarm hpoint =>
    simp only [Execution.At, hpoint] at hat
    obtain ⟨hdepth, hw, hblocked, hb, hhandler, hunblocked⟩ := hat
    have hlength : s.scopes.tail = [] := by
      refine List.eq_nil_of_length_eq_zero ?_
      rw [List.length_tail, ← hkeeps.depth, hdepth]
    simp only [Execution.Inv, hrun, Execution.At]
    refine ⟨_, hreached.tail (.leave (npbWaitEnd_last hdepth)), by rw [hw], hblocked, hb,
      fun _ => ⟨hhandler, hunblocked, rfl⟩, fun hne => absurd hlength hne⟩
  | restored hpoint =>
    simp only [Execution.At, hpoint] at hat
    obtain ⟨hw, -, rfl, hclosed, hopen⟩ := hat
    simp only [Execution.Inv, hrun, Execution.At]
    refine ⟨w, hreached, hw, rfl, fun hnil => ?_, fun hne => ?_⟩
    · exact ⟨(hclosed hnil).handler, (hclosed hnil).unblocked, (hclosed hnil).off⟩
    · exact (hopen hne).alarm fun t ht => ht.mask false
  | returned hpoint hraised =>
    simp only [Execution.At, hpoint] at hat
    obtain ⟨hw, hblocked, hclosed, hopen⟩ := hat
    have hpending : s.alarm.pending = false := by
      cases hp : s.alarm.pending with
      | false => rfl
      | true => exact absurd ⟨hp, hblocked⟩ hraised
    simp only [Execution.Inv, hrun, Execution.At]
    refine ⟨w, hreached, hw, ?_, fun hnil => ⟨(hclosed hnil).off, hpending⟩, hopen⟩
    by_cases hnil : s.scopes = []
    · exact hblocked.trans (hclosed hnil).unblocked.symm
    · exact hblocked.trans (hopen hnil).unblocked.symm

/-- Outside of the two functions the alarm of an open scope is on its way to the handler. -/
theorem Open.armed_running (hopen : Open sys rate w s.since s.alarm) (hkeeps : Keeps sys w s.scopes)
    (hw : s.wait = w) (hblocked : s.alarm.blocked = sys.alarmBlocked) {kind : Kind} {n : Nat}
    (hkind : s.scopes.getLast? = some kind) (hn : setting sys kind = .ok n) :
    s.alarm.Armed (s.since+rate*n) ∧ s.alarm.blocked = false ∧ s.wait.handler = .timeout ∧
      s.wait.deadlineActive = true := by
  have hne : s.scopes ≠ [] := by
    intro hnil
    rw [hnil] at hkind
    cases hkind
  obtain ⟨m, hm, htimer⟩ := hkeeps.armed kind hkind
  obtain rfl : n = m := Except.ok.inj (hn.symm.trans hm)
  exact ⟨hopen.armed n htimer, hblocked.trans hopen.unblocked, hw ▸ hopen.handler,
    hw ▸ hkeeps.active.mpr hne⟩

/-- From then on nothing else has to happen for the process to end. -/
theorem enforced_of_armed {n : Nat} (hrun : s.ended = none) (harmed : s.alarm.Armed n)
    (hblocked : s.alarm.blocked = false) (hhandler : s.wait.handler = .timeout)
    (hactive : s.wait.deadlineActive = true) (hlate : n ≤ s.alarm.clock) :
    ∃ s', ReflTransGen Happens s s' ∧ s'.ended = some .timeout := by
  obtain ⟨a, hpasses, hraised⟩ := harmed.raised hblocked hlate
  have hhappens : ReflTransGen Happens s { s with alarm := a } :=
    hpasses.lift (fun a => { s with alarm := a }) fun _ _ h => .passes hrun h
  refine ⟨_, hhappens.tail (.delivered hrun hraised), ?_⟩
  simp only [Execution.delivered, hhandler, hactive, if_true]

end Steps

/-- What the deadlines come to: the process is ended by one only when the limit of its outermost
scope has passed; while that scope is open its alarm is on its way, and comes to a handler that
ends the process; nothing of a scope is left behind it. -/
structure Kept (sys : Timeouts.System) (rate : Nat) (s : Execution) : Prop where
  notEarly : s.ended = some .timeout → s.Expired sys rate
  armed : s.ended = none → s.point = .running → ∀ kind n, s.scopes.getLast? = some kind →
    setting sys kind = .ok n → s.alarm.Armed (s.since+rate*n) ∧ s.alarm.blocked = false ∧
      s.wait.handler = .timeout ∧ s.wait.deadlineActive = true
  enforced : s.ended = none → s.point = .running → s.Expired sys rate →
    ∃ s', ReflTransGen Happens s s' ∧ s'.ended = some .timeout
  handled : s.ended ≠ some .killed
  closed : s.ended = none → s.point = .running → s.scopes = [] → s.alarm.Quiet
  calls : s.ended = none → s.point = .running →
    ReflTransGen (ScopeCall sys) ({}, []) (s.wait, s.scopes)
  faults : ∀ f, s.ended = some (.fault f) → Blameless sys f

abbrev Run (sys : Timeouts.System) (rate : Nat) (s : Execution) : Prop :=
  Reachable (· = { alarm := { blocked := sys.alarmBlocked } }) (Step sys rate) s

/-- The deadlines are kept whatever scopes a program opens and closes, wherever the timer runs out
between two of its instructions, and whenever the signal comes. -/
theorem deadlines_kept {sys : Timeouts.System} {rate : Nat} {s : Execution} (h : Run sys rate s) :
    Kept sys rate s := by
  have hinv : s.Inv sys rate := by
    refine h.invariant ?_ fun s s' hs hstep => ?_
    · intro s hs
      subst hs
      exact ⟨{}, .refl, rfl, rfl, fun _ => ⟨rfl, rfl⟩, fun hne => absurd rfl hne⟩
    · cases hstep with
      | happens hhappens => exact hhappens.inv hs
      | instruction hrun hinstruction => exact hinstruction.inv hs hrun
  have hrunning : s.ended = none → s.point = .running →
      ReflTransGen (ScopeCall sys) ({}, []) (s.wait, s.scopes) ∧
        s.alarm.blocked = sys.alarmBlocked ∧ (s.scopes = [] → s.alarm.Quiet) ∧
        (s.scopes ≠ [] → Open sys rate s.wait s.since s.alarm) := by
    intro hrun hpoint
    simp only [Execution.Inv, hrun, Execution.At, hpoint] at hinv
    obtain ⟨w, hreached, rfl, hrest⟩ := hinv
    exact ⟨hreached, hrest⟩
  have harmed : s.ended = none → s.point = .running → ∀ kind n, s.scopes.getLast? = some kind →
      setting sys kind = .ok n → s.alarm.Armed (s.since+rate*n) ∧ s.alarm.blocked = false ∧
        s.wait.handler = .timeout ∧ s.wait.deadlineActive = true := by
    intro hrun hpoint kind n hkind hn
    obtain ⟨hreached, hblocked, -, hopen⟩ := hrunning hrun hpoint
    have hne : s.scopes ≠ [] := by
      intro hnil
      rw [hnil] at hkind
      cases hkind
    exact (hopen hne).armed_running (ScopeCall.keeps hreached) rfl hblocked hkind hn
  refine ⟨fun hend => ?_, harmed, fun hrun hpoint hexpired => ?_, fun hend => ?_,
    fun hrun hpoint hnil => (hrunning hrun hpoint).2.2.1 hnil,
    fun hrun hpoint => (hrunning hrun hpoint).1, fun f hend => ?_⟩
  · simpa only [Execution.Inv, hend] using hinv
  · obtain ⟨kind, n, hkind, hn, hlate⟩ := hexpired
    obtain ⟨halarm, hblocked, hhandler, hactive⟩ := harmed hrun hpoint kind n hkind hn
    exact enforced_of_armed hrun halarm hblocked hhandler hactive hlate
  · simp only [Execution.Inv, hend] at hinv
  · simpa only [Execution.Inv, hend] using hinv

def shortSystem : Timeouts.System := ⟨fun _ => some (Cluster.chars "1"), false⟩

def shortWait : Wait where
  waitLimits
    | .enrollment => 1
    | .io => 1
    | .shutdown => 1
  configured := true

/-- A receive that takes longer than its second. -/
theorem io_deadline_kept : ∃ s : Execution, s.ended = some .timeout ∧ Kept shortSystem 1 s := by
  let armed : Wait := { shortWait with
    handler := .timeout, deadlineActive := true, waitDepth := 1, timer := some 1 }
  have hconfigure : configure shortSystem {} = .ok shortWait := by
    refine congrArg (fun limits => Except.ok
      ({ waitLimits := limits, configured := true } : Wait)) ?_
    funext kind
    cases kind with
    | enrollment => rfl
    | io => rfl
    | shutdown => rfl
  have hstart : Run shortSystem 1 {} := .start rfl
  have hopening : Run shortSystem 1 { wait := shortWait, point := .blockBegin .io } :=
    hstart.next (.instruction rfl (.outermost rfl rfl hconfigure))
  have hinstall : Run shortSystem 1
      { wait := shortWait, alarm := { blocked := true }, point := .install .io false } :=
    (hopening.next (.instruction rfl (.blockBegin rfl))).next
      (.instruction rfl (.inspected rfl (by simp [shortWait, Alarm.mask])))
  have harm : Run shortSystem 1
      { wait := { armed with timer := none }
        alarm := { blocked := true }
        point := .arm .io false } :=
    ((hinstall.next (.instruction rfl (.installed rfl))).next
      (.instruction rfl (.activate rfl))).next (.instruction rfl (.count rfl))
  have hreturning : Run shortSystem 1
      { wait := armed, alarm := { due := some 1 }, point := .returning, scopes := [.io] } :=
    (harm.next (.instruction rfl (.arm rfl))).next (.instruction rfl (.restored rfl))
  have hwaiting : Run shortSystem 1
      { wait := armed, alarm := { due := some 1, clock := 1 }, scopes := [.io] } :=
    (hreturning.next (.instruction rfl (.returned rfl (by simp [Alarm.Raised])))).next
      (.happens (.passes rfl (.tick _)))
  have hended := (hwaiting.next (.happens (.passes rfl (.expire rfl (Nat.le_refl 1))))).next
    (.happens (.delivered rfl ⟨rfl, rfl⟩))
  exact ⟨_, rfl, deadlines_kept hended⟩

end DistributedEnclave.Npb.Deadline
