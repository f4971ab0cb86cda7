import DistributedEnclave.Npb.Enrollment

/-! Which workers the enrollment phase stores: the trace a round must have left, the
invariant of the phase, and what reaches the data plane of an incomplete cluster. -/
namespace DistributedEnclave.Npb
open DistributedEnclave.Octets DistributedEnclave.Cluster DistributedEnclave.Transition
universe u v

structure Admission (Env : Type v) (β : Type u) where
  comm : Nat
  context : β
  hdr : EaAuthHdr β
  evidence : Bytes
  env : Env
  serverSk : β
  signature : β
  rawRx : β
  rawTx : β

namespace Admission
variable {Env : Type v} {β : Type u} (S : Sodium β) (a : Admission Env β)

def binding : β := a.hdr.payloadHdr.binder.binding

def transcriptHash : β :=
  computeKxTranscript S a.context a.hdr.clientPk (S.kxPublic a.serverSk) a.binding
    (hashEvidence S a.evidence)

def pending : Pending β where
  context := a.context
  hdr := a.hdr
  evidenceHash := hashEvidence S a.evidence
  serverPk := S.kxPublic a.serverSk
  transcriptHash := a.transcriptHash S
  trafficTx := deriveBoundKey S a.rawTx (a.transcriptHash S) "traffic:c2w"
  trafficRx := deriveBoundKey S a.rawRx (a.transcriptHash S) "traffic:w2c"
  confirmTx := deriveBoundKey S a.rawTx (a.transcriptHash S) "confirm:c2w"
  confirmRx := deriveBoundKey S a.rawRx (a.transcriptHash S) "confirm:w2c"

def slot : Slot β :=
  ⟨a.comm, (a.pending S).trafficTx, (a.pending S).trafficRx, a.transcriptHash S⟩

def clientFinish : β :=
  computeKeyConfirmation S (a.pending S).confirmRx (a.transcriptHash S) "worker"

def serverFinish : β :=
  computeKeyConfirmation S (a.pending S).confirmTx (a.transcriptHash S) "central-node"

def opening : List (Event Env β) :=
  [.sent (.eaRequest ⟨a.context, 1⟩), .received (.eaAuthHdr a.hdr),
    .received (.eaEvidenceData a.evidence), .reportChecked a.env a.evidence a.binding 0,
    .sent (.eaResult 1), .sent (.kxServerAuth (S.kxPublic a.serverSk) a.signature)]

def trace : List (Event Env β) :=
  a.opening S ++ [.received (.kxClientFinish (a.clientFinish S)),
    .sent (.kxServerFinish (a.serverFinish S))]

structure Valid (S : Sodium β) (verifyReport : Env → Bytes → β → Int) (ownerSignSk : β)
    (a : Admission Env β) : Prop where
  evidenceLen_pos : 0 < a.hdr.payloadHdr.evidenceLen.toNat
  evidenceLen_le : a.hdr.payloadHdr.evidenceLen.toNat ≤ maxReportLen
  evidence_length : a.evidence.length = a.hdr.payloadHdr.evidenceLen.toNat
  payload : PayloadAccepted eaPayloadVersion (eaAikPubHash S a.hdr.clientPk)
    (eaBindingValue S a.hdr.clientPk a.context) a.hdr.payloadHdr
  report : verifyReport a.env a.evidence a.binding = 0
  signed : S.signDetached ownerSignSk (a.transcriptHash S) = some a.signature
  keys : S.kxServerSessionKeys (S.kxPublic a.serverSk) a.serverSk a.hdr.clientPk =
    some (a.rawRx, a.rawTx)

end Admission

namespace Central
variable {Env : Type v} {β : Type u} (S : Sodium β)
  (verifyReport : Env → Bytes → β → Int) (ownerSignSk : β) (target : Nat)

/-- A slot is stored right after the trace of a valid admission with the slot's keys. -/
def Admitted (before : List (Event Env β)) : Event Env β → Prop
  | .stored _ slot => ∃ earlier a, before = earlier ++ Admission.trace S a ∧
      a.Valid S verifyReport ownerSignSk ∧ slot = a.slot S
  | _ => True

def Underway (round : Nat) : Phase β → List (Event Env β) → Prop
  | .awaitHeader context, t => t = [.sent (.eaRequest ⟨context, 1⟩)]
  | .awaitEvidence context hdr, t =>
    t = [.sent (.eaRequest ⟨context, 1⟩), .received (.eaAuthHdr hdr)] ∧
      0 < hdr.payloadHdr.evidenceLen.toNat ∧ hdr.payloadHdr.evidenceLen.toNat ≤ maxReportLen
  | .validate context hdr evidence, t =>
    (0 < hdr.payloadHdr.evidenceLen.toNat → t = [.sent (.eaRequest ⟨context, 1⟩),
      .received (.eaAuthHdr hdr), .received (.eaEvidenceData evidence)]) ∧
      evidence.length = hdr.payloadHdr.evidenceLen.toNat ∧
      hdr.payloadHdr.evidenceLen.toNat ≤ maxReportLen
  | .awaitFinish p, t => ∃ a : Admission Env β, a.Valid S verifyReport ownerSignSk ∧
      a.comm = round ∧ p = a.pending S ∧ t = a.opening S
  | _, _ => True

def InRound : Phase β → Prop
  | .awaitHeader _ | .awaitEvidence _ _ | .validate _ _ _ | .awaitFinish _ => True
  | _ => False

def Enrolling : Phase β → Prop
  | .accept => True
  | phase => InRound phase

def Quiet : Event Env β → Prop
  | .stored _ _ | .dataPlane _ _ => False
  | _ => True

def doneMessage : DataMessage := .command tagNpbCmd { cmd := cmdNpbDone }

structure Inv (c : Central Env β) : Prop where
  underway : ∃ earlier t, c.log = earlier ++ t ∧
    Underway S verifyReport ownerSignSk c.round c.phase t
  admitted : Justified (Admitted S verifyReport ownerSignSk) c.log
  slots : ∀ i slot, c.slots i = some slot ↔ .stored i slot ∈ c.log
  filled : ∀ i, (c.slots i).isSome ↔ i < c.nworkers
  nworkers_lt : c.nworkers < c.round
  round_le : c.round ≤ target+1
  round_le_of_inRound : InRound c.phase → c.round ≤ target
  no_data : Enrolling c.phase → ∀ w m, .dataPlane w m ∉ c.log
  data : ∀ w m, .dataPlane w m ∈ c.log →
    target < c.round ∧ (m = doneMessage ∨ c.nworkers = target)
  benchmark : c.phase = .benchmark → target < c.round ∧ c.nworkers = target
  partialDone : ∀ w, c.phase = .partialDone w → target < c.round

variable {S verifyReport ownerSignSk target}

theorem inv_initial : Inv S verifyReport ownerSignSk target (initial : Central Env β) where
  underway := ⟨[], [], rfl, trivial⟩
  admitted := .nil
  slots := by simp [initial]
  filled := by simp [initial]
  nworkers_lt := by simp [initial]
  round_le := by simp [initial]
  round_le_of_inRound := by simp [initial, InRound]
  no_data := by simp [initial]
  data := by simp [initial]
  benchmark := by simp [initial]
  partialDone := by simp [initial]

theorem InRound.enrolling {phase : Phase β} (h : InRound phase) : Enrolling phase := by
  cases phase <;> first | exact h | exact trivial

theorem Quiet.admitted {e : Event Env β} (h : Quiet e) (before : List (Event Env β)) :
    Admitted S verifyReport ownerSignSk before e := by
  cases e with
  | stored i slot => exact h.elim
  | _ => exact trivial

theorem record_record (c : Central Env β) (a b : List (Event Env β)) :
    (c.record a).record b = c.record (a ++ b) := by
  simp [record]

/-- Quiet events that lead to another phase of the enrollment. -/
theorem Inv.extend {c : Central Env β} (h : Inv S verifyReport ownerSignSk target c)
    (hin : Enrolling c.phase) {events : List (Event Env β)} (hq : ∀ e ∈ events, Quiet e)
    (phase : Phase β) {round : Nat} (hE : Enrolling phase) (hle : c.round ≤ round)
    (hround : round ≤ target+1) (hroundIn : InRound phase → round ≤ target)
    (hunder : ∃ earlier t, c.log ++ events = earlier ++ t ∧
      Underway S verifyReport ownerSignSk round phase t) :
    Inv S verifyReport ownerSignSk target
      ⟨round, phase, c.slots, c.nworkers, c.log ++ events⟩ := by
  have hstored : ∀ i slot, .stored i slot ∉ events := fun i slot he => hq _ he
  have hdata : ∀ w m, .dataPlane w m ∉ c.log ++ events := by
    intro w m he
    cases List.mem_append.mp he with
    | inl he => exact h.no_data hin w m he
    | inr he => exact hq _ he
  refine ⟨hunder, h.admitted.append fun e he => (hq e he).admitted, ?_, h.filled,
    h.nworkers_lt.trans_le hle, hround, hroundIn, fun _ => hdata,
    fun w m he => (hdata w m he).elim, ?_, ?_⟩
  · intro i slot
    rw [h.slots, List.mem_append]
    exact ⟨Or.inl, fun he => he.resolve_right (hstored i slot)⟩
  · intro hphase
    subst hphase
    exact hE.elim
  · intro w hphase
    subst hphase
    exact hE.elim

theorem Inv.close {c : Central Env β} (h : Inv S verifyReport ownerSignSk target c)
    (hin : InRound c.phase) {events : List (Event Env β)} (hq : ∀ e ∈ events, Quiet e) :
    Inv S verifyReport ownerSignSk target (c.record events).endRound :=
  have hle := h.round_le_of_inRound hin
  h.extend hin.enrolling hq .accept trivial (Nat.le_succ _) (Nat.succ_le_succ hle) False.elim
    ⟨c.log ++ events, [], by simp, trivial⟩

theorem Inv.advance {c : Central Env β} (h : Inv S verifyReport ownerSignSk target c)
    (hin : InRound c.phase) {events : List (Event Env β)} (hq : ∀ e ∈ events, Quiet e)
    (phase : Phase β) (hphase : InRound phase)
    (hunder : ∀ t, Underway S verifyReport ownerSignSk c.round c.phase t →
      Underway S verifyReport ownerSignSk c.round phase (t ++ events)) :
    Inv S verifyReport ownerSignSk target ((c.record events).enter phase) := by
  obtain ⟨earlier, t, hlog, ht⟩ := h.underway
  refine h.extend hin.enrolling hq phase hphase.enrolling le_rfl h.round_le
    (fun _ => h.round_le_of_inRound hin) ⟨earlier, t ++ events, ?_, hunder t ht⟩
  rw [hlog, List.append_assoc]

theorem Inv.abort {c : Central Env β} (h : Inv S verifyReport ownerSignSk target c) :
    Inv S verifyReport ownerSignSk target (c.enter .aborted) where
  underway := ⟨c.log, [], by simp [enter], trivial⟩
  admitted := h.admitted
  slots := h.slots
  filled := h.filled
  nworkers_lt := h.nworkers_lt
  round_le := h.round_le
  round_le_of_inRound := False.elim
  no_data := False.elim
  data := h.data
  benchmark := by simp [enter]
  partialDone := by simp [enter]

theorem Inv.beginRound {c : Central Env β} (h : Inv S verifyReport ownerSignSk target c)
    (hphase : c.phase = .accept) (hround : c.round ≤ target) (context : β) :
    Inv S verifyReport ownerSignSk target (c.beginRound context) := by
  have hq : ∀ e ∈ [.sent (.eaRequest ⟨context, 1⟩)], Quiet (e : Event Env β) := by
    intro e he
    obtain rfl := List.mem_singleton.mp he
    exact trivial
  exact h.extend (by rw [hphase]; exact trivial) hq (.awaitHeader context) trivial le_rfl
    h.round_le (fun _ => hround) ⟨c.log, _, rfl, rfl⟩

theorem Inv.onHeader {c : Central Env β} (h : Inv S verifyReport ownerSignSk target c)
    {context : β} (hphase : c.phase = .awaitHeader context) (hdr : EaAuthHdr β) :
    Inv S verifyReport ownerSignSk target (c.onHeader context hdr) := by
  have hin : InRound c.phase := by rw [hphase]; exact trivial
  have hq : ∀ e ∈ [.received (.eaAuthHdr hdr)], Quiet (e : Event Env β) := by
    intro e he
    obtain rfl := List.mem_singleton.mp he
    exact trivial
  simp only [Central.onHeader]
  split_ifs with hbig hpos
  · exact h.close hin hq
  · refine h.advance hin hq _ trivial ?_
    intro t ht
    rw [hphase] at ht
    exact ⟨by rw [show t = _ from ht]; rfl, hpos, Nat.le_of_not_gt hbig⟩
  · refine h.advance hin hq _ trivial ?_
    intro t _
    exact ⟨fun hp => (hpos hp).elim, (Nat.eq_zero_of_not_pos hpos).symm, Nat.le_of_not_gt hbig⟩

theorem Inv.onEvidence {c : Central Env β} (h : Inv S verifyReport ownerSignSk target c)
    {context : β} {hdr : EaAuthHdr β} (hphase : c.phase = .awaitEvidence context hdr)
    (evidence : Bytes) :
    Inv S verifyReport ownerSignSk target (c.onEvidence context hdr evidence) := by
  have hin : InRound c.phase := by rw [hphase]; exact trivial
  simp only [Central.onEvidence]
  split_ifs with hlen
  · exact h.abort
  · refine h.advance hin ?_ (.validate context hdr evidence) trivial ?_
    · intro e he
      obtain rfl := List.mem_singleton.mp he
      exact trivial
    · intro t ht
      rw [hphase] at ht
      obtain ⟨ht, _, hle⟩ := ht
      exact ⟨fun _ => by rw [ht]; rfl, not_not.mp hlen, hle⟩

section
variable [DecidableEq β]

/-- `attest_ok` is one only for an accepted payload whose report, not empty, was accepted. -/
theorem attestOk_ne_zero {context : β} {hdr : EaAuthHdr β} {evidence : Bytes} {env : Env}
    (h : attestOk S verifyReport context hdr evidence env ≠ 0) :
    payloadOk S context hdr = true ∧ 0 < hdr.payloadHdr.evidenceLen.toNat ∧
      verifyReport env evidence hdr.payloadHdr.binder.binding = 0 ∧
      attestOk S verifyReport context hdr evidence env = 1 := by
  simp only [attestOk] at h ⊢
  split_ifs at h ⊢ <;> simp_all

/-- The events up to the result of the attestation are a check of the report and the result. -/
theorem forall_checks {P : Event Env β → Prop} {context : β} {hdr : EaAuthHdr β} {evidence : Bytes}
    {env : Env} {ok : Int32}
    (hreport : ∀ env report reportData result, P (.reportChecked env report reportData result))
    (hresult : P (.sent (.eaResult ok))) :
    ∀ e ∈ reportCheck S verifyReport context hdr evidence env ++ [.sent (.eaResult ok)], P e := by
  refine List.forall_mem_append.mpr ⟨?_, List.forall_mem_singleton.mpr hresult⟩
  rw [reportCheck]
  split_ifs
  · exact List.forall_mem_singleton.mpr (hreport ..)
  · exact List.forall_mem_nil _

theorem Inv.onValidate {c : Central Env β} (h : Inv S verifyReport ownerSignSk target c)
    {context : β} {hdr : EaAuthHdr β} {evidence : Bytes}
    (hphase : c.phase = .validate context hdr evidence) (env : Env) (serverSk : β) :
    Inv S verifyReport ownerSignSk target
      (Central.onValidate S verifyReport ownerSignSk c context hdr evidence env serverSk) := by
  have hin : InRound c.phase := by rw [hphase]; exact trivial
  have hq : ∀ e ∈ reportCheck S verifyReport context hdr evidence env ++
      [.sent (.eaResult (attestOk S verifyReport context hdr evidence env))], Quiet e :=
    forall_checks (fun _ _ _ _ => trivial) trivial
  simp only [Central.onValidate]
  split_ifs with hok
  · exact h.close hin hq
  · obtain ⟨hpayload, hpos, hreport, hone⟩ := attestOk_ne_zero hok
    simp only [keyExchange]
    split
    · exact h.close hin hq
    · rename_i signature hsign
      have hq' : ∀ e ∈ (reportCheck S verifyReport context hdr evidence env ++
          [.sent (.eaResult (attestOk S verifyReport context hdr evidence env))]) ++
          [.sent (.kxServerAuth (S.kxPublic serverSk) signature)], Quiet e :=
        List.forall_mem_append.mpr ⟨hq, List.forall_mem_singleton.mpr trivial⟩
      split
      · have := h.close hin hq'
        rwa [← record_record] at this
      · rename_i rawRx rawTx hkeys
        rw [record_record]
        refine h.advance hin hq' _ trivial ?_
        intro t ht
        rw [hphase] at ht
        obtain ⟨ht, hlen, hle⟩ := ht
        refine ⟨⟨c.round, context, hdr, evidence, env, serverSk, signature, rawRx, rawTx⟩,
          ⟨hpos, hle, hlen, ?_, hreport, hsign, hkeys⟩, rfl, rfl, ?_⟩
        · rw [← verifyPayloadOf_eq_zero_iff]
          exact of_decide_eq_true hpayload
        · rw [ht hpos, reportCheck, if_pos ⟨hpayload, hpos⟩, hreport, hone]
          rfl

omit [DecidableEq β] in
/-- Storing the worker of a valid admission after its trace. -/
theorem Inv.store {c : Central Env β} (h : Inv S verifyReport ownerSignSk target c)
    (hin : InRound c.phase) {earlier : List (Event Env β)} {a : Admission Env β}
    (hlog : c.log = earlier ++ a.opening S) (ha : a.Valid S verifyReport ownerSignSk) :
    Inv S verifyReport ownerSignSk target
      (((c.record [.received (.kxClientFinish (a.clientFinish S)),
        .sent (.kxServerFinish (a.serverFinish S))]).store (a.slot S)).endRound) := by
  have hround := h.round_le_of_inRound hin
  have hnew : c.slots c.nworkers = none := by
    have := h.filled c.nworkers
    cases hs : c.slots c.nworkers with
    | none => rfl
    | some slot => simp [hs] at this
  have hno := h.no_data hin.enrolling
  refine ⟨⟨_, [], (List.append_nil _).symm, trivial⟩, ?_, ?_, ?_,
    Nat.succ_lt_succ h.nworkers_lt, Nat.succ_le_succ hround, False.elim, ?_, ?_, ?_, ?_⟩
  · refine (h.admitted.append ?_).concat ⟨earlier, a, ?_, ha, rfl⟩
    · intro e he before
      simp only [List.mem_cons, List.not_mem_nil, or_false] at he
      cases he with
      | inl he => subst he; exact trivial
      | inr he => subst he; exact trivial
    · simp only [hlog, Admission.trace, List.append_assoc]
  · intro i slot
    simp only [endRound, Central.store, record, List.mem_append, List.mem_cons,
      List.not_mem_nil, or_false, reduceCtorEq, Event.stored.injEq, ← h.slots]
    by_cases hi : i = c.nworkers
    · subst hi
      simp [hnew, eq_comm]
    · simp [hi]
  · intro i
    simp only [endRound, Central.store, record]
    by_cases hi : i = c.nworkers
    · subst hi
      simp
    · rw [Function.update_of_ne hi, h.filled]
      omega
  · intro _ w m he
    simp only [endRound, Central.store, record, List.mem_append, List.mem_cons,
      List.not_mem_nil, or_false, reduceCtorEq] at he
    exact hno w m he
  · intro w m he
    simp only [endRound, Central.store, record, List.mem_append, List.mem_cons,
      List.not_mem_nil, or_false, reduceCtorEq] at he
    exact (hno w m he).elim
  · simp [endRound]
  · simp [endRound]

theorem Inv.onFinish {c : Central Env β} (h : Inv S verifyReport ownerSignSk target c)
    {p : Pending β} (hphase : c.phase = .awaitFinish p) (clientFinish : β) :
    Inv S verifyReport ownerSignSk target (Central.onFinish S c p clientFinish) := by
  have hin : InRound c.phase := by rw [hphase]; exact trivial
  obtain ⟨earlier, t, hlog, hunder⟩ := h.underway
  rw [hphase] at hunder
  obtain ⟨a, ha, hcomm, rfl, rfl⟩ := hunder
  simp only [Central.onFinish]
  split_ifs with hfinish
  · refine h.close hin ?_
    intro e he
    obtain rfl := List.mem_singleton.mp he
    exact trivial
  · have hstore := h.store hin hlog ha
    obtain rfl := not_not.mp hfinish
    rw [record_record]
    have hslot : a.slot S = ⟨c.round, (a.pending S).trafficTx, (a.pending S).trafficRx,
        (a.pending S).transcriptHash⟩ := by rw [← hcomm]; rfl
    rw [hslot] at hstore
    exact hstore

omit [DecidableEq β] in
theorem Inv.afterRounds {c : Central Env β} (h : Inv S verifyReport ownerSignSk target c)
    (hphase : c.phase = .accept) (hround : target < c.round) :
    Inv S verifyReport ownerSignSk target (c.afterRounds target) := by
  have hno : ∀ w m, .dataPlane w m ∉ c.log := h.no_data (by rw [hphase]; exact trivial)
  simp only [Central.afterRounds]
  split_ifs with hn
  · exact ⟨⟨c.log, [], (List.append_nil _).symm, trivial⟩, h.admitted, h.slots, h.filled,
      h.nworkers_lt, h.round_le, False.elim, fun _ => hno, fun w m he => (hno w m he).elim,
      by simp [enter], fun _ _ => hround⟩
  · exact ⟨⟨c.log, [], (List.append_nil _).symm, trivial⟩, h.admitted, h.slots, h.filled,
      h.nworkers_lt, h.round_le, False.elim, fun _ => hno, fun w m he => (hno w m he).elim,
      fun _ => ⟨hround, not_not.mp hn⟩, by simp [enter]⟩

omit [DecidableEq β] in
/-- A message on the data plane after the rounds. -/
theorem Inv.dataPlane {c : Central Env β} (h : Inv S verifyReport ownerSignSk target c)
    (hround : target < c.round) {w : Nat} {m : DataMessage}
    (hm : m = doneMessage ∨ c.nworkers = target) (phase : Phase β) (hE : ¬Enrolling phase)
    (hunder : Underway S verifyReport ownerSignSk c.round phase ([] : List (Event Env β)))
    (hbench : phase = .benchmark → c.nworkers = target) :
    Inv S verifyReport ownerSignSk target ((c.record [.dataPlane w m]).enter phase) := by
  refine ⟨⟨_, [], (List.append_nil _).symm, hunder⟩, h.admitted.concat trivial, ?_, h.filled,
    h.nworkers_lt, h.round_le, fun hin => (hE hin.enrolling).elim, fun hE' => (hE hE').elim, ?_,
    fun hp => ⟨hround, hbench hp⟩, fun _ _ => hround⟩
  · intro i slot
    simp only [enter, record, List.mem_append, List.mem_singleton, reduceCtorEq, or_false]
    exact h.slots i slot
  · intro w' m' he
    simp only [enter, record, List.mem_append, List.mem_singleton, Event.dataPlane.injEq] at he
    cases he with
    | inl he => exact h.data w' m' he
    | inr he =>
      obtain ⟨_, rfl⟩ := he
      exact ⟨hround, hm⟩

theorem inv_step {c c' : Central Env β} {input : Input Env β}
    (h : Inv S verifyReport ownerSignSk target c)
    (hstep : Step S verifyReport ownerSignSk target c input c') :
    Inv S verifyReport ownerSignSk target c' := by
  cases hstep with
  | accept context hphase hround => exact h.beginRound hphase hround context
  | header hdr hphase => exact h.onHeader hphase hdr
  | evidence evidence hphase => exact h.onEvidence hphase evidence
  | validate env serverSk hphase => exact h.onValidate hphase env serverSk
  | finish clientFinish hphase => exact h.onFinish hphase clientFinish
  | enrolled hphase hround => exact h.afterRounds hphase hround
  | sendDone hphase =>
    have hround := h.partialDone _ hphase
    simp only [Central.sendDone]
    split_ifs with hw
    · exact h.dataPlane hround (.inl rfl) _ id trivial (by simp)
    · exact ⟨⟨c.log, [], (List.append_nil _).symm, trivial⟩, h.admitted, h.slots, h.filled,
        h.nworkers_lt, h.round_le, False.elim, False.elim, h.data, by simp [enter],
        by simp [enter]⟩
  | benchmark w m hphase =>
    obtain ⟨hround, hn⟩ := h.benchmark hphase
    have := h.dataPlane (w := w) (m := m) hround (.inr hn) .benchmark id trivial fun _ => hn
    rwa [← hphase] at this
  | abort => exact h.abort

theorem Run.inv {c : Central Env β} (h : Run S verifyReport ownerSignSk target c) :
    Inv S verifyReport ownerSignSk target c := by
  refine Reachable.invariant (I := Inv S verifyReport ownerSignSk target) ?_ ?_ h
  · intro c hc
    subst hc
    exact inv_initial
  · intro c c' hc hstep
    obtain ⟨input, hstep⟩ := hstep
    exact inv_step hc hstep

structure Stores (S : Sodium β) (verifyReport : Env → Bytes → β → Int) (ownerSignSk : β)
    (c c' : Central Env β) (input : Input Env β) (a : Admission Env β) : Prop where
  input_eq : input = .message (.kxClientFinish (a.clientFinish S))
  valid : a.Valid S verifyReport ownerSignSk
  opening : ∃ earlier, c.log = earlier ++ a.opening S
  log_eq : c'.log = c.log ++ [.received (.kxClientFinish (a.clientFinish S)),
    .sent (.kxServerFinish (a.serverFinish S)), .stored c.nworkers (a.slot S)]

def Effect (S : Sodium β) (verifyReport : Env → Bytes → β → Int) (ownerSignSk : β)
    (c c' : Central Env β) (input : Input Env β) : Event Env β → Prop
  | .sent (.eaRequest request) => input = .context request.context
  | .sent (.eaResult _) => True
  | .sent (.kxServerAuth serverPk signature) => ∃ env serverSk context clientPk binding evidenceHash,
      input = .validate env serverSk ∧ serverPk = S.kxPublic serverSk ∧
      S.signDetached ownerSignSk
        (computeKxTranscript S context clientPk serverPk binding evidenceHash) = some signature
  | .sent (.kxServerFinish finish) => ∃ a,
      Stores S verifyReport ownerSignSk c c' input a ∧ finish = a.serverFinish S
  | .sent _ => False
  | .stored i slot => ∃ a, Stores S verifyReport ownerSignSk c c' input a ∧
      i = c.nworkers ∧ slot = a.slot S
  | _ => True

section Effects
variable {c : Central Env β}

omit [DecidableEq β] in
theorem enter_effect (c : Central Env β) (phase : Phase β) (input : Input Env β) :
    ∃ events, (c.enter phase).log = c.log ++ events ∧
      ∀ e ∈ events, Effect S verifyReport ownerSignSk c (c.enter phase) input e :=
  ⟨[], (List.append_nil _).symm, List.forall_mem_nil _⟩

theorem onValidate_effect (c : Central Env β) (context : β) (hdr : EaAuthHdr β) (evidence : Bytes)
    (env : Env) (serverSk : β) :
    ∃ events, (c.onValidate S verifyReport ownerSignSk context hdr evidence env serverSk).log =
        c.log ++ events ∧
      ∀ e ∈ events, Effect S verifyReport ownerSignSk c
        (c.onValidate S verifyReport ownerSignSk context hdr evidence env serverSk)
        (.validate env serverSk) e := by
  have hchecks : ∀ c', ∀ e ∈ reportCheck S verifyReport context hdr evidence env ++
      [.sent (.eaResult (attestOk S verifyReport context hdr evidence env))],
      Effect S verifyReport ownerSignSk c c' (.validate env serverSk) e :=
    fun _ => forall_checks (fun _ _ _ _ => trivial) trivial
  simp only [Central.onValidate, keyExchange]
  split_ifs
  · exact ⟨_, rfl, hchecks _⟩
  split
  · exact ⟨_, rfl, hchecks _⟩
  rename_i signature hsign
  have hauth : ∀ c', ∀ e ∈ (reportCheck S verifyReport context hdr evidence env ++
      [.sent (.eaResult (attestOk S verifyReport context hdr evidence env))]) ++
      [.sent (.kxServerAuth (S.kxPublic serverSk) signature)],
      Effect S verifyReport ownerSignSk c c' (.validate env serverSk) e := by
    intro c'
    refine List.forall_mem_append.mpr ⟨hchecks c', List.forall_mem_singleton.mpr ?_⟩
    exact ⟨env, serverSk, _, _, _, _, rfl, rfl, hsign⟩
  rw [record_record]
  split <;> exact ⟨_, rfl, hauth _⟩

/-- The finish of a worker is answered, and the worker stored, on a valid admission. -/
theorem onFinish_effect (h : Inv S verifyReport ownerSignSk target c) {p : Pending β}
    (hphase : c.phase = .awaitFinish p) (clientFinish : β) :
    ∃ events, (c.onFinish S p clientFinish).log = c.log ++ events ∧
      ∀ e ∈ events, Effect S verifyReport ownerSignSk c (c.onFinish S p clientFinish)
        (.message (.kxClientFinish clientFinish)) e := by
  obtain ⟨earlier, t, hlog, hunder⟩ := h.underway
  rw [hphase] at hunder
  obtain ⟨a, ha, hcomm, rfl, rfl⟩ := hunder
  simp only [Central.onFinish]
  split_ifs with hfinish
  · exact ⟨_, rfl, by simp [Effect]⟩
  obtain rfl := not_not.mp hfinish
  have hslot : a.slot S = ⟨c.round, (a.pending S).trafficTx, (a.pending S).trafficRx,
    (a.pending S).transcriptHash⟩ := by rw [← hcomm]; rfl
  rw [record_record]
  refine ⟨_, List.append_assoc .., ?_⟩
  have hstores : Stores S verifyReport ownerSignSk c
      (((c.record [.received (.kxClientFinish (a.clientFinish S)),
        .sent (.kxServerFinish (a.serverFinish S))]).store (a.slot S)).endRound)
      (.message (.kxClientFinish (a.clientFinish S))) a :=
    ⟨rfl, ha, ⟨earlier, hlog⟩, List.append_assoc ..⟩
  intro e he
  simp only [List.cons_append, List.nil_append, List.mem_cons, List.not_mem_nil,
    or_false] at he
  rw [hslot] at hstores
  obtain he | he | he := he
  · subst he
    exact trivial
  · subst he
    exact ⟨a, hstores, rfl⟩
  · subst he
    exact ⟨a, hstores, rfl, hslot.symm⟩

end Effects

theorem Step.effect {c c' : Central Env β} {input : Input Env β}
    (h : Inv S verifyReport ownerSignSk target c)
    (hstep : Step S verifyReport ownerSignSk target c input c') :
    ∃ events, c'.log = c.log ++ events ∧
      ∀ e ∈ events, Effect S verifyReport ownerSignSk c c' input e := by
  cases hstep with
  | accept context _ _ => exact ⟨_, rfl, by simp [Effect]⟩
  | header hdr _ =>
    simp only [Central.onHeader]
    split_ifs <;> exact ⟨_, rfl, by simp [Effect]⟩
  | evidence evidence _ =>
    simp only [Central.onEvidence]
    split_ifs
    · exact enter_effect c _ _
    · exact ⟨_, rfl, by simp [Effect]⟩
  | validate env serverSk _ => exact onValidate_effect c ..
  | finish clientFinish hphase => exact onFinish_effect h hphase clientFinish
  | enrolled _ _ =>
    simp only [Central.afterRounds]
    split_ifs <;> exact enter_effect c _ _
  | sendDone _ =>
    simp only [Central.sendDone]
    split_ifs
    · exact ⟨_, rfl, by simp [Effect]⟩
    · exact enter_effect c _ _
  | benchmark w m _ => exact ⟨_, rfl, by simp [Effect]⟩
  | abort => exact enter_effect c _ _

/-- A filled slot is never touched again. -/
theorem Step.keeps_slots {c c' : Central Env β} {input : Input Env β}
    (h : Inv S verifyReport ownerSignSk target c)
    (hstep : Step S verifyReport ownerSignSk target c input c') {i : Nat} {slot : Slot β}
    (hs : c.slots i = some slot) : c'.slots i = some slot := by
  obtain ⟨events, hlog, _⟩ := hstep.effect h
  rw [h.slots] at hs
  rw [(inv_step h hstep).slots, hlog]
  exact List.mem_append_left events hs

theorem Run.keeps_slots {c c' : Central Env β} (h : Run S verifyReport ownerSignSk target c)
    (hrun : Relation.ReflTransGen
      (fun c c' => ∃ input, Step S verifyReport ownerSignSk target c input c') c c')
    {i : Nat} {slot : Slot β} (hs : c.slots i = some slot) : c'.slots i = some slot := by
  obtain ⟨c₀, h₀, hrun₀⟩ := h
  induction hrun with
  | refl => exact hs
  | tail hpre hlast ih =>
    obtain ⟨input, hlast⟩ := hlast
    exact hlast.keeps_slots (Run.inv ⟨c₀, h₀, hrun₀.trans hpre⟩) ih

/-- The enrollment of `main`: a slot is stored only after a valid admission in the same
round, the slots below `nworkers` are the filled ones and stay as they are, and a cluster
that is not complete after the last round gets no message but `CMD_NPB_DONE`. -/
theorem enrollment_admits_only_attested {S : Sodium Bytes} {ownerSignSk : Bytes} {target : Nat}
    {c : Central SnpHost Bytes} (h : Run S (verifySevSnpReport S) ownerSignSk target c) :
    (∀ before i slot after, c.log = before ++ .stored i slot :: after →
      ∃ earlier a, before = earlier ++ Admission.trace S a ∧
        a.Valid S (verifySevSnpReport S) ownerSignSk ∧ slot = a.slot S) ∧
    (∀ i slot, c.slots i = some slot ↔ .stored i slot ∈ c.log) ∧
    (∀ i, (c.slots i).isSome ↔ i < c.nworkers) ∧ c.nworkers ≤ target ∧
    (∀ c', Relation.ReflTransGen
        (fun c c' => ∃ input, Step S (verifySevSnpReport S) ownerSignSk target c input c') c c' →
      ∀ i slot, c.slots i = some slot → c'.slots i = some slot) ∧
    ∀ w m, .dataPlane w m ∈ c.log → target < c.round ∧
      (c.nworkers < target → m = .command tagNpbCmd { cmd := cmdNpbDone }) := by
  have hinv := h.inv
  have hle : c.nworkers ≤ target := by
    have := hinv.nworkers_lt
    have := hinv.round_le
    omega
  refine ⟨fun before i slot after hlog => hinv.admitted before _ after hlog, hinv.slots,
    hinv.filled, hle, fun c' hrun i slot hs => h.keeps_slots hrun hs, ?_⟩
  intro w m he
  obtain ⟨hround, hm⟩ := hinv.data w m he
  refine ⟨hround, fun hlt => ?_⟩
  cases hm with
  | inl hm => exact hm
  | inr hn => omega

end

section Sample

def sampleHost : SnpHost where
  getenv name :=
    if name = "SNP_EXPECTED_MEASUREMENT" then some (List.replicate 96 '0'.toUInt8)
    else if name = "SNP_EXPECTED_POLICY" then some (List.replicate 16 '0'.toUInt8)
    else none
  mkdtemp := some (chars "/tmp/ppdpc-snp-verify")
  writeReport _ := true
  realpath path := some path
  mkdir _ := true
  symlink _ _ := true
  statSize _ _ := some 1
  runProcess _ _ := 0

def sampleAdmission : Admission SnpHost Bytes where
  comm := 1
  context := [9]
  hdr := ⟨[7], ⟨2, eaMediaType, 480, ⟨[7], [7, 9], eaExporterLabel⟩⟩⟩
  evidence := List.replicate 480 0
  env := sampleHost
  serverSk := [5]
  signature := [3] ++ kxTranscriptDomain ++ [9, 7, 5, 7, 9] ++ List.replicate 480 0
  rawRx := [5, 7, 1]
  rawTx := [5, 7, 2]

def sampleHeader : Central SnpHost Bytes :=
  (initial.beginRound sampleAdmission.context).onHeader sampleAdmission.context sampleAdmission.hdr

def sampleEvidence : Central SnpHost Bytes :=
  sampleHeader.onEvidence sampleAdmission.context sampleAdmission.hdr sampleAdmission.evidence

def sampleValidate : Central SnpHost Bytes :=
  onValidate plainSodium (verifySevSnpReport plainSodium) [3] sampleEvidence
    sampleAdmission.context sampleAdmission.hdr sampleAdmission.evidence sampleHost
    sampleAdmission.serverSk

def sampleCentral : Central SnpHost Bytes :=
  onFinish plainSodium sampleValidate (sampleAdmission.pending plainSodium)
    (sampleAdmission.clientFinish plainSodium)

theorem sampleCentral_run :
    Run plainSodium (verifySevSnpReport plainSodium) [3] 1 sampleCentral := by
  have hheader : sampleHeader.phase =
      .awaitEvidence sampleAdmission.context sampleAdmission.hdr := by decide +kernel
  have hevidence : sampleEvidence.phase =
      .validate sampleAdmission.context sampleAdmission.hdr sampleAdmission.evidence := by
    decide +kernel
  have hvalidate : sampleValidate.phase = .awaitFinish (sampleAdmission.pending plainSodium) := by
    decide +kernel
  have hstart : Run plainSodium (verifySevSnpReport plainSodium) [3] 1 initial := .start rfl
  have hrun := hstart.next ⟨_, .accept sampleAdmission.context rfl le_rfl⟩
  have hrun := hrun.next ⟨_, .header sampleAdmission.hdr rfl⟩
  have hrun := hrun.next ⟨_, .evidence sampleAdmission.evidence hheader⟩
  have hrun := hrun.next ⟨_, .validate sampleHost sampleAdmission.serverSk hevidence⟩
  exact hrun.next ⟨_, .finish _ hvalidate⟩

theorem sampleCentral_admits :
    sampleCentral.slots 0 = some (sampleAdmission.slot plainSodium) ∧
    ∀ before i slot after, sampleCentral.log = before ++ .stored i slot :: after →
      ∃ earlier a, before = earlier ++ Admission.trace plainSodium a ∧
        a.Valid plainSodium (verifySevSnpReport plainSodium) [3] ∧ slot = a.slot plainSodium :=
  ⟨by decide +kernel, (enrollment_admits_only_attested sampleCentral_run).1⟩

end Sample

end Central
end DistributedEnclave.Npb
