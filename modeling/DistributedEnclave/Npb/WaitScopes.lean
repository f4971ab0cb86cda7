import DistributedEnclave.Npb.Timeouts
import DistributedEnclave.Scopes
import DistributedEnclave.Transition

/-! The wait deadlines of the master: the scopes of `npb_timeout.c` around everything that may
block, from the start of the process on. -/
namespace DistributedEnclave.Npb.Timeouts
open Octets Outcome Scopes Transition

/-- `enum npb_wait_kind` -/
inductive Kind where
  | enrollment | io | shutdown
  deriving DecidableEq

inductive Handler where
  | default | timeout | other
  deriving DecidableEq

/-- The state of `npb_timeout.c` and of the timer, which holds the seconds it was set to. -/
structure Wait where
  waitLimits : Kind → Nat := fun _ => 0
  waitDepth : Nat := 0
  configured : Bool := false
  deadlineActive : Bool := false
  timer : Option Nat := none
  handler : Handler := .default

/-- `getenv`, and whether SIGALRM was blocked before. -/
structure System where
  getenv : String → Option Bytes
  alarmBlocked : Bool

def setting (sys : System) : Kind → Except Fault Nat
  | .enrollment => timeoutSetting sys.getenv "PPDPC_ENROLL_TIMEOUT_SECONDS" 300
  | .io => timeoutSetting sys.getenv "PPDPC_IO_TIMEOUT_SECONDS" 600
  | .shutdown => timeoutSetting sys.getenv "PPDPC_SHUTDOWN_TIMEOUT_SECONDS" 60

def configure (sys : System) (w : Wait) : Except Fault Wait :=
  if w.configured then .ok w
  else do
    let enrollment ← setting sys .enrollment
    let io ← setting sys .io
    let shutdown ← setting sys .shutdown
    pure { w with
      waitLimits := fun
        | .enrollment => enrollment
        | .io => io
        | .shutdown => shutdown
      configured := true }

def alarm (seconds : Nat) : Option Nat := if seconds = 0 then none else some seconds

structure Signals where
  block : Bool
  inspect : Bool
  install : Bool
  restore : Bool

def npbWaitBegin (sys : System) (signals : Signals) (kind : Kind) (w : Wait) :
    Except Fault Wait :=
  if w.waitDepth ≠ 0 then
    if w.waitDepth = uintMax then .error (.configuration "wait nesting overflow")
    else .ok { w with waitDepth := w.waitDepth+1 }
  else do
    let w ← configure sys w
    if ¬signals.block then .error (.configuration "cannot block SIGALRM")
    else if sys.alarmBlocked then .error (.configuration "SIGALRM was already blocked")
    else if ¬signals.inspect then .error (.configuration "cannot inspect existing timer")
    else if w.handler = .other ∨ w.timer ≠ none then
      .error (.configuration "SIGALRM or ITIMER_REAL is already in use")
    else if ¬signals.install then .error (.configuration "cannot install SIGALRM handler")
    else if ¬signals.restore then .error (.configuration "cannot restore signal mask")
    else pure { w with
      handler := .timeout
      deadlineActive := true
      waitDepth := 1
      timer := alarm (w.waitLimits kind) }

def npbWaitEnd (signals : Signals) (w : Wait) : Except Fault Wait :=
  if w.waitDepth = 0 then .error (.configuration "unbalanced wait scope")
  else if w.waitDepth-1 ≠ 0 then .ok { w with waitDepth := w.waitDepth-1 }
  else if ¬signals.block then .error (.configuration "cannot block SIGALRM")
  else if ¬signals.restore then .error (.configuration "cannot restore signal mask")
  else .ok { w with waitDepth := w.waitDepth-1, deadlineActive := false, timer := none }

/-- The calls of the master that may block, and `MPI_Abort`. -/
inductive Call where
  | init | commGetErrhandler | commSetErrhandler | errhandlerFree | openPort | closePort
  | publishName | unpublishName | commAccept | barrier | send | recvExact | commDisconnect
  | finalize | verifySevSnpReport | errorString | abort

/-- The conditions of the enrollment that are settled without a call. -/
inductive Test where
  | serviceName | evidenceTooLarge | evidence | malloc | payload | attestOk | signDetached
  | sessionKeys | clientFinish
  deriving DecidableEq

inductive Exit where
  | fault (f : Fault)
  | aborted
  | timeout

abbrev Script (A : Type) : Type := Code Kind Call Test Unit A

def waitBegin (kind : Kind) : Script Unit := .enter kind (.ret ())
def waitEnd : Script Unit := .leave (.ret ())

def call (f : Call) : Script Bool := .call f .ret

def callIf (c : Bool) (f : Call) (other : Bool) : Script Bool := if c then call f else pure other

def test (t : Test) : Script Bool := .test t .ret

def dieMpi : Script Unit := do
  waitBegin .shutdown
  let _ ← call .errorString
  let _ ← call .abort
  .exit ()

def dieUnless (rc : Bool) : Script Unit := if !rc then dieMpi else pure ()

def mpiSendF : Script Unit := do
  waitBegin .io
  let rc ← call .send
  dieUnless rc
  waitEnd

def mpiRecvF : Script Unit := do
  waitBegin .io
  let rc ← call .recvExact
  dieUnless rc
  waitEnd

def npbMpiInit : Script Bool := do
  waitBegin .enrollment
  let result ← call .init
  waitEnd
  pure result

def npbMpiDisconnect : Script Bool := do
  waitBegin .shutdown
  let result ← call .commDisconnect
  waitEnd
  pure result

def npbMpiFinalize : Script Bool := do
  waitBegin .shutdown
  let result ← call .finalize
  waitEnd
  pure result

/-- `previous` says whether there is a handler to restore. -/
def restoreSelfHandler (previous result : Bool) : Script Bool :=
  if previous then do
    let restored ← call .commSetErrhandler
    let freed ← call .errhandlerFree
    pure (result && restored && freed)
  else pure result

/-- What follows the label `cleanup` of `bench_accept_worker`. -/
def cleanup (published opened previous result : Bool) : Script Bool := do
  let unpublished ← callIf published .unpublishName true
  let closed ← callIf opened .closePort true
  let result ← restoreSelfHandler previous (result && unpublished && closed)
  waitEnd
  pure result

def benchAcceptWorker : Script Bool := do
  let service ← test .serviceName
  if !service then pure false
  else do
    waitBegin .enrollment
    let got ← call .commGetErrhandler
    if !got then cleanup false false false false
    else do
      let set ← call .commSetErrhandler
      if !set then cleanup false false true false
      else do
        let opened ← call .openPort
        if !opened then cleanup false false true false
        else do
          let published ← call .publishName
          if !published then cleanup false true true false
          else do
            let accepted ← call .commAccept
            let handled ← callIf accepted .commSetErrhandler false
            let result ← callIf handled .barrier false
            cleanup true true true result

def reject : Script Unit := do
  let _ ← npbMpiDisconnect
  waitEnd

/-- A round from the key exchange on. -/
def keyExchange : Script Unit := do
  let signed ← test .signDetached
  if !signed then reject
  else do
    mpiSendF
    let keys ← test .sessionKeys
    if !keys then reject
    else do
      mpiRecvF
      let confirmed ← test .clientFinish
      if !confirmed then reject
      else do
        mpiSendF
        waitEnd

/-- A round from the evidence on, which is checked where the payload has passed. -/
def validate (evidence : Bool) : Script Unit := do
  let payload ← test .payload
  let _ ← callIf (payload && evidence) .verifySevSnpReport true
  mpiSendF
  let attestOk ← test .attestOk
  if !attestOk then reject else keyExchange

def round : Script Unit := do
  waitBegin .enrollment
  let rc ← benchAcceptWorker
  dieUnless rc
  mpiSendF
  mpiRecvF
  let tooLarge ← test .evidenceTooLarge
  if tooLarge then reject
  else do
    let evidence ← test .evidence
    if evidence then do
      let memory ← test .malloc
      if !memory then do
        let _ ← call .abort
        .exit ()
      else do
        mpiRecvF
        validate true
    else validate false

inductive Activity where
  | init | round | send | recv | disconnect | finalize
  deriving DecidableEq

namespace Activity

def kind : Activity → Kind
  | init | round => .enrollment
  | send | recv => .io
  | disconnect | finalize => .shutdown

def code : Activity → Script Unit
  | init => do
    let _ ← npbMpiInit
    pure ()
  | round => Timeouts.round
  | send => mpiSendF
  | recv => mpiRecvF
  | disconnect => do
    let _ ← npbMpiDisconnect
    pure ()
  | finalize => do
    let _ ← npbMpiFinalize
    pure ()

end Activity

section Rules
variable {A : Type} {k kind : Kind} {n : Nat}

theorem scoped_waitBegin {f : Unit → Script A} (hkind : n = 0 → kind = k)
    (h : Scoped k (f ()) (n+1)) : Scoped k (waitBegin kind >>= f) n := ⟨hkind, h⟩

/-- The last scope of a script is closed at its end. -/
theorem scoped_waitEnd (a : A) : Scoped k (waitEnd >>= fun _ => pure a) 1 :=
  ⟨0, rfl, rfl, fun _ => ⟨a, rfl⟩⟩

theorem scoped_last : Scoped k waitEnd 1 := scoped_waitEnd ()

theorem scoped_call {f : Call} {g : Bool → Script A} (h : ∀ b, Scoped k (g b) (n+1)) :
    Scoped k (call f >>= g) (n+1) := ⟨Nat.succ_pos n, h⟩

theorem scoped_test {t : Test} {g : Bool → Script A} (h : ∀ b, Scoped k (g b) n) :
    Scoped k (test t >>= g) n := h

theorem scoped_ite {c : Prop} [Decidable c] {x y : Script A} (hx : Scoped k x n)
    (hy : Scoped k y n) : Scoped k (if c then x else y) n := by
  split
  · exact hx
  · exact hy

theorem scoped_callIf {c other : Bool} {f : Call} {g : Bool → Script A}
    (h : ∀ b, Scoped k (g b) (n+1)) : Scoped k (callIf c f other >>= g) (n+1) := by
  cases c with
  | true => exact scoped_call h
  | false => exact h other

/-- `die_mpi` does not come back, so that it need not close its scope. -/
theorem scoped_dieUnless {f : Unit → Script A} (h : Scoped k (f ()) (n+1)) (rc : Bool) :
    Scoped k (dieUnless rc >>= f) (n+1) := by
  cases rc with
  | true => exact h
  | false =>
    refine ⟨fun hzero => (nomatch hzero), Nat.succ_pos _, fun _ => ⟨Nat.succ_pos _, fun _ => ?_⟩⟩
    trivial

theorem mpiSendF_scoped : Scoped .io mpiSendF 0 :=
  scoped_waitBegin (fun _ => rfl) (scoped_call (scoped_dieUnless scoped_last))

theorem mpiRecvF_scoped : Scoped .io mpiRecvF 0 :=
  scoped_waitBegin (fun _ => rfl) (scoped_call (scoped_dieUnless scoped_last))

/-- A call that has a scope of its own. -/
theorem scoped_single {f : Call} (g : Bool → A) :
    Scoped k (waitBegin k >>= fun _ => call f >>= fun b => waitEnd >>= fun _ => pure (g b)) 0 :=
  scoped_waitBegin (fun _ => rfl) (scoped_call fun b => scoped_waitEnd (g b))

theorem npbMpiDisconnect_scoped : Scoped .shutdown npbMpiDisconnect 0 :=
  scoped_single id

theorem restoreSelfHandler_scoped {g : Bool → Script A} (h : ∀ b, Scoped k (g b) (n+1))
    (previous result : Bool) : Scoped k (restoreSelfHandler previous result >>= g) (n+1) := by
  cases previous with
  | true => exact scoped_call fun _ => scoped_call fun _ => h _
  | false => exact h result

/-- Every path to the label `cleanup` is in one scope, which is closed there. -/
theorem cleanup_scoped (published opened previous result : Bool) :
    Scoped k (cleanup published opened previous result) 1 := by
  refine scoped_callIf fun unpublished => scoped_callIf fun closed => ?_
  refine restoreSelfHandler_scoped (fun result => ?_) _ _
  exact scoped_waitEnd result

theorem benchAcceptWorker_scoped : Scoped .enrollment benchAcceptWorker 0 := by
  refine scoped_test fun service => scoped_ite rfl ?_
  refine scoped_waitBegin (fun _ => rfl) (scoped_call fun got => ?_)
  refine scoped_ite (cleanup_scoped _ _ _ _) (scoped_call fun set => ?_)
  refine scoped_ite (cleanup_scoped _ _ _ _) (scoped_call fun opened => ?_)
  refine scoped_ite (cleanup_scoped _ _ _ _) (scoped_call fun published => ?_)
  refine scoped_ite (cleanup_scoped _ _ _ _) (scoped_call fun accepted => ?_)
  exact scoped_callIf fun _ => scoped_callIf fun _ => cleanup_scoped _ _ _ _

theorem reject_scoped : Scoped k reject 1 :=
  npbMpiDisconnect_scoped.bind_closed fun _ => scoped_last

theorem keyExchange_scoped : Scoped k keyExchange 1 := by
  refine scoped_test fun signed => scoped_ite reject_scoped ?_
  refine mpiSendF_scoped.bind_closed fun _ => scoped_test fun keys => ?_
  refine scoped_ite reject_scoped (mpiRecvF_scoped.bind_closed fun _ => ?_)
  refine scoped_test fun confirmed => scoped_ite reject_scoped ?_
  exact mpiSendF_scoped.bind_closed fun _ => scoped_last

theorem validate_scoped (evidence : Bool) : Scoped k (validate evidence) 1 := by
  refine scoped_test fun payload => scoped_callIf fun _ => ?_
  refine mpiSendF_scoped.bind_closed fun _ => scoped_test fun attestOk => ?_
  exact scoped_ite reject_scoped keyExchange_scoped

/-- Every path through a round closes the scope of the round. -/
theorem round_scoped : Scoped .enrollment round 0 := by
  refine scoped_waitBegin (fun _ => rfl) (benchAcceptWorker_scoped.bind_closed ?_)
  refine scoped_dieUnless (mpiSendF_scoped.bind_closed fun _ => ?_)
  refine mpiRecvF_scoped.bind_closed fun _ => scoped_test fun tooLarge => ?_
  refine scoped_ite reject_scoped (scoped_test fun evidence => ?_)
  refine scoped_ite (scoped_test fun memory => ?_) (validate_scoped false)
  refine scoped_ite (scoped_call fun _ => trivial) ?_
  exact mpiRecvF_scoped.bind_closed fun _ => validate_scoped true

theorem Activity.code_scoped (a : Activity) : Scoped a.kind a.code 0 := by
  cases a with
  | init => exact scoped_single fun _ => ()
  | round => exact round_scoped
  | send => exact mpiSendF_scoped
  | recv => exact mpiRecvF_scoped
  | disconnect => exact scoped_single fun _ => ()
  | finalize => exact scoped_single fun _ => ()

/-- The first thing that an activity does is to open its scope. -/
theorem Activity.code_begins (a : Activity) : ∃ rest, a.code = .enter a.kind rest := by
  cases a with
  | init => exact ⟨_, rfl⟩
  | round => exact ⟨_, rfl⟩
  | send => exact ⟨_, rfl⟩
  | recv => exact ⟨_, rfl⟩
  | disconnect => exact ⟨_, rfl⟩
  | finalize => exact ⟨_, rfl⟩

end Rules

inductive Place where
  | between (todo : List Activity)
  | inside (a : Activity) (x : Script Unit) (todo : List Activity)
  | exited (e : Exit)

/-- The process, with the kinds of the scopes that are open on record, the innermost first. -/
structure Process where
  place : Place
  wait : Wait
  scopes : List Kind

/-- The outcomes of calls and tests are arbitrary, and the alarm may go off at any time. -/
inductive Step (sys : System) : Process → Process → Prop
  | begin {a todo w s} : Step sys ⟨.between (a :: todo), w, s⟩ ⟨.inside a a.code todo, w, s⟩
  | finish {a todo w s} : Step sys ⟨.inside a (.ret ()) todo, w, s⟩ ⟨.between todo, w, s⟩
  | exit {a e todo w s} : Step sys ⟨.inside a (.exit e) todo, w, s⟩ ⟨.exited .aborted, w, s⟩
  | enter {a kind rest todo w w' s} {signals : Signals} : npbWaitBegin sys signals kind w = .ok w' →
      Step sys ⟨.inside a (.enter kind rest) todo, w, s⟩ ⟨.inside a rest todo, w', kind :: s⟩
  | enterFault {a kind rest todo w s f} {signals : Signals} :
      npbWaitBegin sys signals kind w = .error f →
      Step sys ⟨.inside a (.enter kind rest) todo, w, s⟩ ⟨.exited (.fault f), w, s⟩
  | leave {a rest todo w w' s} {signals : Signals} : npbWaitEnd signals w = .ok w' →
      Step sys ⟨.inside a (.leave rest) todo, w, s⟩ ⟨.inside a rest todo, w', s.tail⟩
  | leaveFault {a rest todo w s f} {signals : Signals} : npbWaitEnd signals w = .error f →
      Step sys ⟨.inside a (.leave rest) todo, w, s⟩ ⟨.exited (.fault f), w, s⟩
  | call {a f rest todo w s} (b : Bool) :
      Step sys ⟨.inside a (.call f rest) todo, w, s⟩ ⟨.inside a (rest b) todo, w, s⟩
  | test {a t rest todo w s} (b : Bool) :
      Step sys ⟨.inside a (.test t rest) todo, w, s⟩ ⟨.inside a (rest b) todo, w, s⟩
  | timeout {p w s n} : w.timer = some n → w.deadlineActive = true →
      Step sys ⟨p, w, s⟩ ⟨.exited .timeout, w, s⟩

abbrev Run (sys : System) (todo : List Activity) (p : Process) : Prop :=
  Reachable (fun p => p = ⟨.between todo, {}, []⟩) (Step sys) p

/-- What `main` goes through: as many rounds as workers are wanted, then the data plane. -/
def master (target : Nat) (operations : List Activity) : List Activity :=
  .init :: (List.replicate target .round ++ operations)

/-- The counter and the timer stand for the stack of open scopes: one is its height, the other
is set to the limit of its outermost scope. -/
structure Keeps (sys : System) (w : Wait) (scopes : List Kind) : Prop where
  depth : w.waitDepth = scopes.length
  armed : ∀ kind ∈ scopes.getLast?, ∃ n, setting sys kind = .ok n ∧ w.timer = some n
  disarmed : scopes = [] → w.timer = none
  active : w.deadlineActive = true ↔ scopes ≠ []
  handler : w.handler ≠ .other
  limits : w.configured = true → ∀ kind, setting sys kind = .ok (w.waitLimits kind)

section Keeps
variable {sys : System} {w w' : Wait} {scopes : List Kind} {kind : Kind} {signals : Signals}

theorem Keeps.initial : Keeps sys {} [] := by
  refine ⟨rfl, nofun, fun _ => rfl, ?_, nofun, nofun⟩
  exact ⟨nofun, fun h => absurd rfl h⟩

/-- A limit is a second at least, so that setting the alarm to it arms it. -/
theorem setting_pos {n : Nat} (h : setting sys kind = .ok n) : n ≠ 0 := by
  cases kind with
  | enrollment => exact timeoutSetting_pos (by decide) h
  | io => exact timeoutSetting_pos (by decide) h
  | shutdown => exact timeoutSetting_pos (by decide) h

theorem configure_ok (hlimits : w.configured = true → ∀ kind, setting sys kind =
    .ok (w.waitLimits kind)) (h : configure sys w = .ok w') :
    ∃ limits, w' = { w with waitLimits := limits, configured := true } ∧
      ∀ kind, setting sys kind = .ok (limits kind) := by
  rw [configure] at h
  split at h
  · rename_i hconfigured
    cases h
    exact ⟨w.waitLimits, by rw [← hconfigured], hlimits hconfigured⟩
  · obtain ⟨enrollment, hen, h⟩ := (bind_eq_ok _ _ _).mp h
    obtain ⟨io, hio, h⟩ := (bind_eq_ok _ _ _).mp h
    obtain ⟨shutdown, hsh, h⟩ := (bind_eq_ok _ _ _).mp h
    cases h
    refine ⟨_, rfl, fun kind => ?_⟩
    cases kind with
    | enrollment => exact hen
    | io => exact hio
    | shutdown => exact hsh

theorem Keeps.nonempty (h : Keeps sys w scopes) : w.waitDepth ≠ 0 ↔ scopes ≠ [] := by
  rw [h.depth, ne_eq, List.length_eq_zero_iff]

/-- A scope within others only raises the counter. -/
theorem Keeps.enter_nested (h : Keeps sys w scopes) (hne : scopes ≠ []) :
    Keeps sys { w with waitDepth := w.waitDepth+1 } (kind :: scopes) := by
  obtain ⟨outer, inner, rfl⟩ := List.exists_cons_of_ne_nil hne
  refine ⟨congrArg (·+1) h.depth, ?_, nofun, ?_, h.handler, h.limits⟩
  · rw [List.getLast?_cons_cons]
    exact h.armed
  · exact ⟨fun _ => nofun, fun _ => h.active.mpr nofun⟩

/-- The outermost scope sets the timer. -/
theorem Keeps.enter_outermost {limits : Kind → Nat}
    (hlimits : ∀ kind, setting sys kind = .ok (limits kind)) :
    Keeps sys { w with
      waitLimits := limits
      configured := true
      handler := .timeout
      deadlineActive := true
      waitDepth := 1
      timer := alarm (limits kind) } [kind] := by
  refine ⟨rfl, fun k hk => ?_, nofun, ⟨fun _ => nofun, fun _ => rfl⟩, nofun, fun _ => hlimits⟩
  cases hk
  exact ⟨limits kind, hlimits kind, if_neg (setting_pos (hlimits kind))⟩

theorem Keeps.enter (h : Keeps sys w scopes) (hbegin : npbWaitBegin sys signals kind w = .ok w') :
    Keeps sys w' (kind :: scopes) := by
  rw [npbWaitBegin] at hbegin
  split at hbegin
  · rename_i hdepth
    rw [guard_eq_ok] at hbegin
    cases hbegin.2
    exact h.enter_nested (h.nonempty.mp hdepth)
  · rename_i hdepth
    have hnil : scopes = [] := not_not.mp fun hne => hdepth (h.nonempty.mpr hne)
    obtain ⟨w₁, hconfigure, hguards⟩ := (bind_eq_ok _ _ _).mp hbegin
    obtain ⟨limits, rfl, hlimits⟩ := configure_ok h.limits hconfigure
    rw [guard_eq_ok, guard_eq_ok, guard_eq_ok, guard_eq_ok, guard_eq_ok, guard_eq_ok] at hguards
    cases hguards.2.2.2.2.2.2
    rw [hnil]
    exact .enter_outermost hlimits

theorem Keeps.leave (h : Keeps sys w scopes) (hend : npbWaitEnd signals w = .ok w') :
    Keeps sys w' scopes.tail := by
  rw [npbWaitEnd, guard_eq_ok] at hend
  obtain ⟨hdepth, hend⟩ := hend
  obtain ⟨inner, outer, rfl⟩ := List.exists_cons_of_ne_nil (h.nonempty.mp hdepth)
  have hlen : w.waitDepth-1 = outer.length := by rw [h.depth, List.length_cons, Nat.add_sub_cancel]
  split at hend
  · rename_i hmore
    cases hend
    have hne : outer ≠ [] := List.ne_nil_of_length_pos (by omega)
    obtain ⟨k, rest, rfl⟩ := List.exists_cons_of_ne_nil hne
    refine ⟨hlen, ?_, nofun, ⟨fun _ => nofun, fun _ => h.active.mpr nofun⟩, h.handler, h.limits⟩
    have harmed := h.armed
    rwa [List.getLast?_cons_cons] at harmed
  · rename_i hlast
    rw [guard_eq_ok, guard_eq_ok] at hend
    cases hend.2.2
    obtain rfl : outer = [] := List.eq_nil_of_length_eq_zero (by omega)
    refine ⟨hlen, nofun, fun _ => rfl, ⟨nofun, fun hne => absurd rfl hne⟩, h.handler, h.limits⟩

/-- With a scope open, closing one is not refused as unbalanced. -/
theorem Keeps.balanced (h : Keeps sys w scopes) (hne : scopes ≠ []) :
    npbWaitEnd signals w ≠ .error (.configuration "unbalanced wait scope") := by
  have hdepth := h.nonempty.mpr hne
  rw [npbWaitEnd, if_neg hdepth]
  split
  · exact nofun
  split
  · exact fun heq => absurd (Fault.configuration.inj (Except.error.inj heq)) (by decide)
  split
  · exact fun heq => absurd (Fault.configuration.inj (Except.error.inj heq)) (by decide)
  · exact nofun

/-- Opening a scope is never refused as unbalanced. -/
theorem npbWaitBegin_balanced :
    npbWaitBegin sys signals kind w ≠ .error (.configuration "unbalanced wait scope") := by
  have hsetting : ∀ kind, Avoids (.configuration "unbalanced wait scope") (setting sys kind) := by
    intro kind heq
    cases kind with
    | enrollment => exact absurd (Fault.configuration.inj (timeoutSetting_error heq)) (by decide)
    | io => exact absurd (Fault.configuration.inj (timeoutSetting_error heq)) (by decide)
    | shutdown => exact absurd (Fault.configuration.inj (timeoutSetting_error heq)) (by decide)
  have hother : ∀ message, message ≠ "unbalanced wait scope" →
      Avoids (.configuration "unbalanced wait scope")
        (.error (.configuration message) : Except Fault Wait) :=
    fun message hne => .error fun heq => hne (Fault.configuration.inj heq)
  have hconfigure : Avoids (.configuration "unbalanced wait scope") (configure sys w) :=
    .ite (fun _ => .ok _) fun _ => .bind (hsetting _) fun _ _ => .bind (hsetting _) fun _ _ =>
      .bind (hsetting _) fun _ _ => .ok _
  change Avoids (.configuration "unbalanced wait scope") (npbWaitBegin sys signals kind w)
  refine .ite (fun _ => .ite (fun _ => hother _ (by decide)) fun _ => .ok _) fun _ => ?_
  refine .bind hconfigure fun _ _ => .ite (fun _ => hother _ (by decide)) fun _ => ?_
  refine .ite (fun _ => hother _ (by decide)) fun _ => ?_
  refine .ite (fun _ => hother _ (by decide)) fun _ => ?_
  refine .ite (fun _ => hother _ (by decide)) fun _ => ?_
  refine .ite (fun _ => hother _ (by decide)) fun _ => ?_
  exact .ite (fun _ => hother _ (by decide)) fun _ => .ok _

end Keeps

def Place.Fits : Place → List Kind → Prop
  | between _, scopes => scopes = []
  | inside a x _, scopes => Within a.kind a.code x scopes
  | exited e, _ => e ≠ .fault (.configuration "unbalanced wait scope")

structure Sound (sys : System) (p : Process) : Prop where
  keeps : Keeps sys p.wait p.scopes
  fits : p.place.Fits p.scopes

section Sound
variable {sys : System} {todo : List Activity} {p p' : Process}

theorem Sound.step (h : Sound sys p) (hstep : Step sys p p') : Sound sys p' := by
  obtain ⟨hkeeps, hfits⟩ := h
  cases hstep with
  | @begin a todo w s =>
    obtain rfl : s = [] := hfits
    exact ⟨hkeeps, .start a.code_scoped a.code_begins⟩
  | finish => exact ⟨hkeeps, Within.ret hfits⟩
  | exit => exact ⟨hkeeps, nofun⟩
  | enter hbegin => exact ⟨hkeeps.enter hbegin, Within.enter hfits⟩
  | enterFault hbegin =>
    refine ⟨hkeeps, fun heq => ?_⟩
    cases heq
    exact npbWaitBegin_balanced hbegin
  | leave hend => exact ⟨hkeeps.leave hend, (Within.leave hfits).2⟩
  | leaveFault hend =>
    refine ⟨hkeeps, fun heq => ?_⟩
    cases heq
    exact hkeeps.balanced (Within.leave hfits).1 hend
  | call b => exact ⟨hkeeps, (Within.call hfits).2 b⟩
  | test b => exact ⟨hkeeps, Within.test hfits b⟩
  | timeout _ _ => exact ⟨hkeeps, nofun⟩

theorem sound_run (h : Run sys todo p) : Sound sys p := by
  refine h.invariant ?_ fun p p' hp hstep => hp.step hstep
  intro p hinitial
  subst hinitial
  exact ⟨.initial, rfl⟩

end Sound

/-- The deadlines in a state of the master. In an activity the limit is in force from its first
instruction to its last, throughout a round too. -/
structure Deadlines (sys : System) (p : Process) : Prop where
  depth : p.wait.waitDepth = p.scopes.length
  between : ∀ todo, p.place = .between todo → p.wait.waitDepth = 0
  balanced : p.place ≠ .exited (.fault (.configuration "unbalanced wait scope"))
  armed : (∃ n, p.wait.timer = some n) ↔ 0 < p.wait.waitDepth
  active : p.wait.deadlineActive = true ↔ 0 < p.wait.waitDepth
  limit : ∀ kind ∈ p.scopes.getLast?, ∃ n, setting sys kind = .ok n ∧ p.wait.timer = some n
  outermost : ∀ a x todo, p.place = .inside a x todo → ∀ kind ∈ p.scopes.getLast?, kind = a.kind
  throughout : ∀ a x todo, p.place = .inside a x todo → x ≠ a.code → x ≠ .ret () →
    p.scopes.getLast? = some a.kind ∧
      ∃ n, setting sys a.kind = .ok n ∧ p.wait.timer = some n
  covered : ∀ a f rest todo, p.place = .inside a (.call f rest) todo →
    p.scopes.getLast? = some a.kind

/-- The wait scopes stay balanced whatever the master goes through and whatever comes of it, and
every call that may block is under the limit of its round or of its operation. -/
theorem deadlines_balanced {sys : System} {todo : List Activity} {p : Process}
    (h : Run sys todo p) : Deadlines sys p := by
  obtain ⟨hkeeps, hfits⟩ := sound_run h
  have hopen : 0 < p.wait.waitDepth ↔ p.scopes ≠ [] := Nat.pos_iff_ne_zero.trans hkeeps.nonempty
  refine ⟨hkeeps.depth, ?_, ?_, ?_, hkeeps.active.trans hopen.symm, hkeeps.armed, ?_, ?_, ?_⟩
  · intro todo hplace
    rw [hplace] at hfits
    rw [hkeeps.depth, hfits]
    rfl
  · intro hplace
    rw [hplace] at hfits
    exact hfits rfl
  · rw [hopen]
    constructor
    · intro harmed hnil
      obtain ⟨n, htimer⟩ := harmed
      rw [hkeeps.disarmed hnil] at htimer
      cases htimer
    · intro hne
      obtain ⟨n, _, htimer⟩ := hkeeps.armed _ (List.getLast?_eq_some_getLast hne)
      exact ⟨n, htimer⟩
  · intro a x todo hplace
    rw [hplace] at hfits
    exact Within.outermost hfits
  · intro a x todo hplace hstart hend
    rw [hplace] at hfits
    have hne : p.scopes ≠ [] := by
      intro hnil
      cases Within.held hfits hnil with
      | inl horigin => exact hstart horigin
      | inr hret =>
        obtain ⟨_, hret⟩ := hret
        exact hend hret
    have hlast := Within.getLast hfits hne
    exact ⟨hlast, hkeeps.armed _ hlast⟩
  · intro a f rest todo hplace
    rw [hplace] at hfits
    exact Within.getLast hfits (Within.call hfits).1

def next (sys : System) (calls : Call → Bool) (tests : Test → Bool) : Process → Process
  | ⟨.between [], w, s⟩ => ⟨.between [], w, s⟩
  | ⟨.between (a :: todo), w, s⟩ => ⟨.inside a a.code todo, w, s⟩
  | ⟨.inside _ (.ret ()) todo, w, s⟩ => ⟨.between todo, w, s⟩
  | ⟨.inside _ (.exit _) _, w, s⟩ => ⟨.exited .aborted, w, s⟩
  | ⟨.inside a (.enter kind rest) todo, w, s⟩ =>
    match npbWaitBegin sys ⟨true, true, true, true⟩ kind w with
    | .ok w' => ⟨.inside a rest todo, w', kind :: s⟩
    | .error f => ⟨.exited (.fault f), w, s⟩
  | ⟨.inside a (.leave rest) todo, w, s⟩ =>
    match npbWaitEnd ⟨true, true, true, true⟩ w with
    | .ok w' => ⟨.inside a rest todo, w', s.tail⟩
    | .error f => ⟨.exited (.fault f), w, s⟩
  | ⟨.inside a (.call f rest) todo, w, s⟩ => ⟨.inside a (rest (calls f)) todo, w, s⟩
  | ⟨.inside a (.test t rest) todo, w, s⟩ => ⟨.inside a (rest (tests t)) todo, w, s⟩
  | ⟨.exited e, w, s⟩ => ⟨.exited e, w, s⟩

theorem Run.next {sys : System} {todo : List Activity} {p : Process} (h : Run sys todo p)
    (calls : Call → Bool) (tests : Test → Bool) :
    Run sys todo (Timeouts.next sys calls tests p) := by
  obtain ⟨place, w, s⟩ := p
  cases place with
  | between todo =>
    cases todo with
    | nil => exact h
    | cons a todo => exact Reachable.next h .begin
  | inside a x todo =>
    cases x with
    | ret _ => exact Reachable.next h .finish
    | exit e => exact Reachable.next h .exit
    | enter kind rest =>
      rw [Timeouts.next]
      split
      · rename_i hbegin
        exact Reachable.next h (.enter hbegin)
      · rename_i hbegin
        exact Reachable.next h (.enterFault hbegin)
    | leave rest =>
      rw [Timeouts.next]
      split
      · rename_i hend
        exact Reachable.next h (.leave hend)
      · rename_i hend
        exact Reachable.next h (.leaveFault hend)
    | call f rest => exact Reachable.next h (.call (calls f))
    | test t rest => exact Reachable.next h (.test (tests t))
  | exited e => exact h

def after (sys : System) (calls : Call → Bool) (tests : Test → Bool) (todo : List Activity) :
    Nat → Process
  | 0 => ⟨.between todo, {}, []⟩
  | n+1 => next sys calls tests (after sys calls tests todo n)

theorem after_run (sys : System) (calls : Call → Bool) (tests : Test → Bool)
    (todo : List Activity) (n : Nat) : Run sys todo (after sys calls tests todo n) := by
  induction n with
  | zero => exact .start rfl
  | succ n ih => exact Run.next ih calls tests

def plainSystem : System := ⟨fun _ => none, false⟩

/-- A master that has enrolled a worker, has sent it a message, has received one, and waits for
the connection to come to its end. -/
theorem disconnect_balanced : ∃ p, Run plainSystem (master 1 [.send, .recv, .disconnect]) p ∧
    (∃ rest, p.place = .inside .disconnect (.call .commDisconnect rest) []) ∧
    p.wait.timer = some 60 ∧ Deadlines plainSystem p := by
  have hrun := after_run plainSystem (fun _ => true) (fun t => decide (t ≠ .evidenceTooLarge))
    (master 1 [.send, .recv, .disconnect]) 65
  exact ⟨_, hrun, ⟨_, rfl⟩, rfl, deadlines_balanced hrun⟩

end DistributedEnclave.Npb.Timeouts
