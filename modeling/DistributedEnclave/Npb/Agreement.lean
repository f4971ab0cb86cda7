import DistributedEnclave.Npb.Admission
import DistributedEnclave.Npb.Handshake

/-! Key agreement of the handshake: an established worker shares context, transcript and
keys with a stored slot, and a stored slot of an honest worker with that worker. -/
namespace DistributedEnclave.Npb
open DistributedEnclave.Octets DistributedEnclave.Cluster DistributedEnclave.Symbolic
  DistributedEnclave.Transition
universe u v

section Terms
variable {N : Type u} [DecidableEq N] {weak : Term N → Bool}

theorem transcript_inj {c c' k k' p p' b b' e e' : Term N} :
    computeKxTranscript (symbolic weak) c k p b e = computeKxTranscript (symbolic weak) c' k' p' b' e' ↔
      c = c' ∧ k = k' ∧ p = p' ∧ b = b' ∧ e = e' := by
  simp [computeKxTranscript, symbolic, Term.tuple_inj]

theorem confirmation_inj {k k' t t' : Term N} {role role' : String}
    (h : computeKeyConfirmation (symbolic weak) k t role =
      computeKeyConfirmation (symbolic weak) k' t' role') :
    k = k' ∧ chars role = chars role' ∧ t = t' := by
  simpa [computeKeyConfirmation, symbolic, Term.tuple_inj] using h

theorem roles_ne : chars "central-node" ≠ chars "worker" := by decide

theorem deriveBoundKey_ne_confirmation {d : Direction} {c s t t' k u : Term N}
    {label label' role : String} :
    deriveBoundKey (symbolic weak) (.shared d c s) t label ≠
      computeKeyConfirmation (symbolic weak) (deriveBoundKey (symbolic weak) k u label') t' role := by
  simp [deriveBoundKey, computeKeyConfirmation, symbolic]

end Terms

namespace System
variable {Env : Type v} {W : Type u} [DecidableEq W] (weak : Term (Name W) → Bool)
  (verifyReport : Env → Bytes → Term (Name W) → Int) (target : Nat)

def StoredBy (c : Central Env (Term (Name W))) (i : Nat)
    (a : Admission Env (Term (Name W))) : Prop :=
  a.Valid (symbolic weak) verifyReport (.name .owner) ∧ ∃ earlier later,
    c.log = earlier ++ a.trace (symbolic weak) ++ .stored i (a.slot (symbolic weak)) :: later

def CentralSent (c : Central Env (Term (Name W))) : Message (Term (Name W)) → Prop
  | .eaRequest request => ∃ n, request.context = .name (.context n)
  | .eaResult _ => True
  | .kxServerAuth serverPk signature => ∃ n context clientPk binding evidenceHash,
      serverPk = .pub (.name (.server n)) ∧ signature = .sign (.name .owner)
        (computeKxTranscript (symbolic weak) context clientPk serverPk binding evidenceHash)
  | .kxServerFinish finish => ∃ i a, StoredBy weak verifyReport c i a ∧
      finish = a.serverFinish (symbolic weak)
  | _ => False

structure GoodAgreement (w : W) (g : Agreement (Term (Name W))) : Prop where
  clientPk : g.clientPk = .pub (.name (.client w))
  serverPk : ∃ n, g.serverPk = .pub (.name (.server n))
  keys : g = Worker.agreement (symbolic weak)
    ⟨g.context, g.clientPk, .name (.client w), g.binding, g.evidenceHash⟩ g.serverPk
    (.shared .toClient g.clientPk g.serverPk) (.shared .toServer g.clientPk g.serverPk)

def clientFinish (g : Agreement (Term (Name W))) : Term (Name W) :=
  computeKeyConfirmation (symbolic weak) g.confirmTx g.transcriptHash "worker"

def WorkerSent (w : W) (log : List (WorkerEvent (Term (Name W)))) :
    Message (Term (Name W)) → Prop
  | .eaAuthHdr hdr => ∃ context len, hdr = Worker.authHdr (symbolic weak) context
      (.pub (.name (.client w))) len
  | .eaEvidenceData _ => True
  | .kxClientFinish finish => ∃ g, .agreed g ∈ log ∧ finish = clientFinish weak g
  | _ => False

def LocalsOf (w : W) (log : List (WorkerEvent (Term (Name W)))) :
    WorkerPhase (Term (Name W)) → Prop
  | .awaitResult v | .awaitServerAuth v =>
    v.clientPk = .pub (.name (.client w)) ∧ v.clientSk = .name (.client w)
  | .awaitServerFinish g => .agreed g ∈ log
  | _ => True

structure WorkerInv (w : W) (wk : Worker (Term (Name W))) : Prop where
  sent : ∀ m, .sent m ∈ wk.log → WorkerSent weak w wk.log m
  locals : LocalsOf w wk.log wk.phase
  agreed : ∀ g, .agreed g ∈ wk.log → GoodAgreement weak w g
  established : ∀ g ses, .established g ses ∈ wk.log →
    .agreed g ∈ wk.log ∧ ses = ⟨g.trafficTx, g.trafficRx, g.transcriptHash⟩

structure Inv (s : System Env W) : Prop where
  central : Central.Inv (symbolic weak) verifyReport (.name .owner) target s.central
  centralSent : ∀ m, .sent m ∈ s.central.log → CentralSent weak verifyReport s.central m
  worker : ∀ w, WorkerInv weak w (s.workers w)
  established : ∀ w g ses, .established g ses ∈ (s.workers w).log →
    ∃ i a, StoredBy weak verifyReport s.central i a ∧
      a.transcriptHash (symbolic weak) = g.transcriptHash
  stored : ∀ i slot, .stored i slot ∈ s.central.log →
    ∀ w context serverPk binding evidenceHash,
      slot.channelBinding = computeKxTranscript (symbolic weak) context
        (.pub (.name (.client w))) serverPk binding evidenceHash →
      ∃ g, .agreed g ∈ (s.workers w).log ∧ g.transcriptHash = slot.channelBinding

variable {weak verifyReport target} {s : System Env W}

theorem inv_initial : Inv weak verifyReport target (initial : System Env W) where
  central := Central.inv_initial
  centralSent := by simp [initial, Central.initial]
  worker w := ⟨by simp [initial, Worker.initial], trivial, by simp [initial, Worker.initial],
    by simp [initial, Worker.initial]⟩
  established := by simp [initial, Worker.initial]
  stored := by simp [initial, Central.initial]

/-- Every cryptographic value on the wire, by the kind of its message. -/
theorem Inv.known (h : Inv weak verifyReport target s) {t : Term (Name W)}
    (ht : t ∈ s.knowledge) :
    (∃ n, t = .name (.context n)) ∨ (∃ sk, t = .pub sk) ∨ (∃ len x, t = .hash len x) ∨
    (∃ n context clientPk binding evidenceHash, t = .sign (.name .owner)
      (computeKxTranscript (symbolic weak) context clientPk (.pub (.name (.server n)))
        binding evidenceHash)) ∨
    (∃ i a, StoredBy weak verifyReport s.central i a ∧ t = a.serverFinish (symbolic weak)) ∨
    ∃ w g, .agreed g ∈ (s.workers w).log ∧ GoodAgreement weak w g ∧ t = clientFinish weak g := by
  obtain ⟨m, hsent, ht⟩ := ht
  cases hsent with
  | inl hsent =>
    have hm := h.centralSent m hsent
    cases m with
    | eaRequest request =>
      obtain rfl := List.mem_singleton.mp ht
      exact .inl hm
    | eaResult _ => exact (List.not_mem_nil ht).elim
    | kxServerAuth serverPk signature =>
      obtain ⟨n, context, clientPk, binding, evidenceHash, rfl, rfl⟩ := hm
      simp only [Message.terms, List.mem_cons, List.not_mem_nil, or_false] at ht
      cases ht with
      | inl ht => exact .inr (.inl ⟨_, ht⟩)
      | inr ht => exact .inr (.inr (.inr (.inl ⟨n, context, clientPk, binding, evidenceHash, ht⟩)))
    | kxServerFinish finish =>
      obtain ⟨i, a, hstored, rfl⟩ := hm
      obtain rfl := List.mem_singleton.mp ht
      exact .inr (.inr (.inr (.inr (.inl ⟨i, a, hstored, rfl⟩))))
    | eaAuthHdr _ => exact hm.elim
    | eaEvidenceData _ => exact hm.elim
    | kxClientFinish _ => exact hm.elim
  | inr hsent =>
    obtain ⟨w, hsent⟩ := hsent
    have hm := (h.worker w).sent m hsent
    cases m with
    | eaAuthHdr hdr =>
      obtain ⟨context, len, rfl⟩ := hm
      simp only [Message.terms, Worker.authHdr, List.mem_cons, List.not_mem_nil, or_false] at ht
      obtain ht | ht | ht := ht
      · exact .inr (.inl ⟨_, ht⟩)
      · exact .inr (.inr (.inl ⟨_, _, ht⟩))
      · exact .inr (.inr (.inl ⟨_, _, ht⟩))
    | eaEvidenceData _ => exact (List.not_mem_nil ht).elim
    | kxClientFinish finish =>
      obtain ⟨g, hg, rfl⟩ := hm
      obtain rfl := List.mem_singleton.mp ht
      exact .inr (.inr (.inr (.inr (.inr ⟨w, g, hg, (h.worker w).agreed g hg, rfl⟩))))
    | eaRequest _ => exact hm.elim
    | eaResult _ => exact hm.elim
    | kxServerAuth _ _ => exact hm.elim
    | kxServerFinish _ => exact hm.elim

theorem Inv.harmless (h : Inv weak verifyReport target s) :
    ∀ t ∈ s.knowledge, Harmless Name.IsSecret s.knowledge t := by
  intro t ht
  obtain ⟨n, rfl⟩ | ⟨sk, rfl⟩ | ⟨len, x, rfl⟩ | ⟨_, _, _, _, _, rfl⟩ | ⟨i, a, _, rfl⟩ |
    ⟨w, g, _, _, rfl⟩ := h.known ht
  · exact id
  · exact trivial
  · exact trivial
  · exact .inr ht
  · exact .inr ht
  · exact .inr ht

/-- A signature of the owner that arrives was made over a transcript with a fresh key. -/
theorem Inv.signature (h : Inv weak verifyReport target s) {t : Term (Name W)}
    (ht : Derives Name.IsSecret s.knowledge (.sign (.name .owner) t)) :
    ∃ n context clientPk binding evidenceHash,
      t = computeKxTranscript (symbolic weak) context clientPk (.pub (.name (.server n)))
        binding evidenceHash := by
  have hmade := ht.sign_made h.harmless trivial
  obtain ⟨_, heq⟩ | ⟨_, heq⟩ | ⟨_, _, heq⟩ | ⟨n, context, clientPk, binding, evidenceHash, heq⟩ |
    ⟨_, _, _, heq⟩ | ⟨_, _, _, _, heq⟩ := h.known hmade
  · cases heq
  · cases heq
  · cases heq
  · exact ⟨n, context, clientPk, binding, evidenceHash, (Term.sign.inj heq).2⟩
  · simp [Admission.serverFinish, computeKeyConfirmation, symbolic] at heq
  · simp [clientFinish, computeKeyConfirmation, symbolic] at heq

theorem Inv.confirmation_known (h : Inv weak verifyReport target s) {k t : Term (Name W)}
    {role : String} (hk : computeKeyConfirmation (symbolic weak) k t role ∈ s.knowledge) :
    (∃ i a, StoredBy weak verifyReport s.central i a ∧
      computeKeyConfirmation (symbolic weak) k t role = a.serverFinish (symbolic weak)) ∨
    ∃ w g, .agreed g ∈ (s.workers w).log ∧ GoodAgreement weak w g ∧
      computeKeyConfirmation (symbolic weak) k t role = clientFinish weak g := by
  obtain ⟨_, heq⟩ | ⟨_, heq⟩ | ⟨_, _, heq⟩ | ⟨_, _, _, _, _, heq⟩ | hstored | hagreed := h.known hk
  · simp [computeKeyConfirmation, symbolic] at heq
  · simp [computeKeyConfirmation, symbolic] at heq
  · simp [computeKeyConfirmation, symbolic] at heq
  · simp [computeKeyConfirmation, symbolic] at heq
  · exact .inl hstored
  · exact .inr hagreed

/-- A confirmation between a worker and a key pair of the central node that arrives was sent. -/
theorem Inv.confirmation (h : Inv weak verifyReport target s) {d : Direction} {w : W} {n : Nat}
    {t u : Term (Name W)} {label role : String}
    (hf : Derives Name.IsSecret s.knowledge (computeKeyConfirmation (symbolic weak)
      (deriveBoundKey (symbolic weak)
        (.shared d (.pub (.name (.client w))) (.pub (.name (.server n)))) u label) t role)) :
    (∃ i a, StoredBy weak verifyReport s.central i a ∧ chars role = chars "central-node" ∧
      t = a.transcriptHash (symbolic weak)) ∨
    ∃ w g, .agreed g ∈ (s.workers w).log ∧ GoodAgreement weak w g ∧
      chars role = chars "worker" ∧ t = g.transcriptHash := by
  have hkey : SharedKey Name.IsSecret s.knowledge (deriveBoundKey (symbolic weak)
      (.shared d (.pub (.name (.client w))) (.pub (.name (.server n)))) u label) := by
    refine ⟨d, .client w, .server n, _, trivial, trivial, rfl, fun hmade => ?_⟩
    obtain ⟨_, heq⟩ | ⟨_, heq⟩ | ⟨_, _, heq⟩ | ⟨_, _, _, _, _, heq⟩ | ⟨i, a, _, heq⟩ |
      ⟨w', g, _, hg, heq⟩ := h.known hmade
    · simp [deriveBoundKey, symbolic] at heq
    · simp [deriveBoundKey, symbolic] at heq
    · simp [deriveBoundKey, symbolic] at heq
    · simp [deriveBoundKey, symbolic] at heq
    · exact deriveBoundKey_ne_confirmation heq
    · rw [clientFinish, hg.keys] at heq
      exact deriveBoundKey_ne_confirmation heq
  have hmade := hf.mac_made h.harmless hkey
  cases h.confirmation_known hmade with
  | inl hstored =>
    obtain ⟨i, a, hstored, heq⟩ := hstored
    obtain ⟨_, hrole, ht⟩ := confirmation_inj heq
    exact .inl ⟨i, a, hstored, hrole, ht⟩
  | inr hagreed =>
    obtain ⟨w', g, hg, hgood, heq⟩ := hagreed
    obtain ⟨_, hrole, ht⟩ := confirmation_inj heq
    exact .inr ⟨w', g, hg, hgood, hrole, ht⟩

theorem StoredBy.mono {c c' : Central Env (Term (Name W))} {i : Nat}
    {a : Admission Env (Term (Name W))} (h : StoredBy weak verifyReport c i a)
    {events : List (Event Env (Term (Name W)))} (hlog : c'.log = c.log ++ events) :
    StoredBy weak verifyReport c' i a := by
  obtain ⟨hvalid, earlier, later, heq⟩ := h
  exact ⟨hvalid, earlier, later ++ events, by rw [hlog, heq]; simp⟩

theorem StoredBy.of_stores {c c' : Central Env (Term (Name W))}
    {input : Central.Input Env (Term (Name W))} {a : Admission Env (Term (Name W))}
    (h : Central.Stores (symbolic weak) verifyReport (.name .owner) c c' input a) :
    StoredBy weak verifyReport c' c.nworkers a := by
  obtain ⟨earlier, hopening⟩ := h.opening
  refine ⟨h.valid, earlier, [], ?_⟩
  rw [h.log_eq, hopening, Admission.trace]
  simp

theorem CentralSent.mono {c c' : Central Env (Term (Name W))} {m : Message (Term (Name W))}
    (h : CentralSent weak verifyReport c m) {events : List (Event Env (Term (Name W)))}
    (hlog : c'.log = c.log ++ events) : CentralSent weak verifyReport c' m := by
  cases m with
  | kxServerFinish finish =>
    obtain ⟨i, a, hstored, hfinish⟩ := h
    exact ⟨i, a, hstored.mono hlog, hfinish⟩
  | _ => exact h

theorem GoodAgreement.transcriptHash {w : W} {g : Agreement (Term (Name W))}
    (h : GoodAgreement weak w g) : g.transcriptHash =
      computeKxTranscript (symbolic weak) g.context g.clientPk g.serverPk g.binding g.evidenceHash :=
  congrArg Agreement.transcriptHash h.keys

/-- The key pair of a round is the fresh one, since the round has sent it. -/
theorem Inv.serverSk (h : Inv weak verifyReport target s) {a : Admission Env (Term (Name W))}
    {earlier later : List (Event Env (Term (Name W)))}
    (hlog : s.central.log = earlier ++ a.opening (symbolic weak) ++ later) :
    ∃ n, a.serverSk = .name (.server n) := by
  have hsent : .sent (.kxServerAuth ((symbolic weak).kxPublic a.serverSk) a.signature) ∈
      s.central.log := by
    rw [hlog]
    simp [Admission.opening]
  obtain ⟨n, _, _, _, _, hpk, _⟩ := h.centralSent _ hsent
  exact ⟨n, Term.pub.inj hpk⟩

/-- The raw keys of a valid admission. -/
theorem raw_keys {a : Admission Env (Term (Name W))}
    (h : a.Valid (symbolic weak) verifyReport (.name .owner)) :
    a.rawRx = .shared .toServer a.hdr.clientPk (.pub a.serverSk) ∧
      a.rawTx = .shared .toClient a.hdr.clientPk (.pub a.serverSk) := by
  have hkeys := h.keys
  simp only [symbolic] at hkeys
  split_ifs at hkeys
  rw [Option.some.injEq, Prod.mk.injEq] at hkeys
  exact ⟨hkeys.1.symm, hkeys.2.symm⟩

/-- The finish that lets the central node store an honest worker came from that worker. -/
theorem Inv.stores_agreed (h : Inv weak verifyReport target s)
    {input : Central.Input Env (Term (Name W))} (hadm : s.Admissible input)
    {c' : Central Env (Term (Name W))} {a : Admission Env (Term (Name W))}
    (hst : Central.Stores (symbolic weak) verifyReport (.name .owner) s.central c' input a)
    {w : W} (hclient : a.hdr.clientPk = .pub (.name (.client w))) :
    ∃ g, .agreed g ∈ (s.workers w).log ∧
      g.transcriptHash = a.transcriptHash (symbolic weak) := by
  obtain ⟨earlier, hopening⟩ := hst.opening
  have hlog : s.central.log = earlier ++ a.opening (symbolic weak) ++ [] := by
    rw [hopening, List.append_nil]
  obtain ⟨n, hsk⟩ := h.serverSk hlog
  have hfinish : Derives Name.IsSecret s.knowledge (a.clientFinish (symbolic weak)) := by
    rw [hst.input_eq] at hadm
    exact hadm _ (List.mem_singleton.mpr rfl)
  rw [Admission.clientFinish, Admission.pending, (raw_keys hst.valid).1, hclient, hsk] at hfinish
  cases h.confirmation hfinish with
  | inl hstored =>
    obtain ⟨_, _, _, hrole, _⟩ := hstored
    exact (roles_ne hrole.symm).elim
  | inr hagreed =>
    obtain ⟨w', g, hg, hgood, _, ht⟩ := hagreed
    have heq := ht
    rw [hgood.transcriptHash, Admission.transcriptHash, transcript_inj] at heq
    have hw : w = w' := by
      have := heq.2.1
      rw [hclient, hgood.clientPk] at this
      simpa using this
    subst hw
    exact ⟨g, hg, ht.symm⟩

theorem Inv.central_step (h : Inv weak verifyReport target s)
    {input : Central.Input Env (Term (Name W))} (hadm : s.Admissible input)
    {c' : Central Env (Term (Name W))}
    (hstep : Central.Step (symbolic weak) verifyReport (.name .owner) target s.central input c') :
    Inv weak verifyReport target { s with central := c' } := by
  obtain ⟨events, hlog, heffect⟩ := hstep.effect h.central
  refine ⟨Central.inv_step h.central hstep, ?_, h.worker, ?_, ?_⟩
  · intro m hm
    rw [hlog, List.mem_append] at hm
    cases hm with
    | inl hm => exact (h.centralSent m hm).mono hlog
    | inr hm =>
      have he := heffect _ hm
      cases m with
      | eaRequest request =>
        subst he
        exact ⟨_, hadm⟩
      | eaResult ok => exact trivial
      | kxServerAuth serverPk signature =>
        obtain ⟨env, serverSk, context, clientPk, binding, evidenceHash, rfl, rfl, hsign⟩ := he
        obtain rfl := show serverSk = .name (.server s.central.round) from hadm
        exact ⟨_, context, clientPk, binding, evidenceHash, rfl, (Option.some.inj hsign).symm⟩
      | kxServerFinish finish =>
        obtain ⟨a, hst, hfinish⟩ := he
        exact ⟨_, a, .of_stores hst, hfinish⟩
      | eaAuthHdr hdr => exact he.elim
      | eaEvidenceData evidence => exact he.elim
      | kxClientFinish finish => exact he.elim
  · intro w g ses hest
    obtain ⟨i, a, hstored, ht⟩ := h.established w g ses hest
    exact ⟨i, a, hstored.mono hlog, ht⟩
  · intro i slot hstored w context serverPk binding evidenceHash hbinding
    rw [hlog, List.mem_append] at hstored
    cases hstored with
    | inl hold => exact h.stored i slot hold w context serverPk binding evidenceHash hbinding
    | inr hnew =>
      obtain ⟨a, hst, _, rfl⟩ := heffect _ hnew
      have hclient := (transcript_inj.mp hbinding).2.1
      exact h.stores_agreed hadm hst hclient

theorem WorkerSent.mono {w : W} {log events : List (WorkerEvent (Term (Name W)))}
    {m : Message (Term (Name W))} (h : WorkerSent weak w log m) :
    WorkerSent weak w (log ++ events) m := by
  cases m with
  | kxClientFinish finish =>
    obtain ⟨g, hg, hfinish⟩ := h
    exact ⟨g, List.mem_append_left events hg, hfinish⟩
  | _ => exact h

theorem WorkerInv.extend {w : W} {wk : Worker (Term (Name W))} (h : WorkerInv weak w wk)
    {events : List (WorkerEvent (Term (Name W)))} {phase : WorkerPhase (Term (Name W))}
    (hsent : ∀ m, .sent m ∈ events → WorkerSent weak w (wk.log ++ events) m)
    (hlocals : LocalsOf w (wk.log ++ events) phase)
    (hagreed : ∀ g, .agreed g ∈ events → GoodAgreement weak w g)
    (hest : ∀ g ses, .established g ses ∈ events →
      .agreed g ∈ wk.log ∧ ses = ⟨g.trafficTx, g.trafficRx, g.transcriptHash⟩) :
    WorkerInv weak w ⟨phase, wk.log ++ events⟩ := by
  refine ⟨?_, hlocals, ?_, ?_⟩
  · intro m hm
    cases List.mem_append.mp hm with
    | inl hm => exact (h.sent m hm).mono
    | inr hm => exact hsent m hm
  · intro g hg
    cases List.mem_append.mp hg with
    | inl hg => exact h.agreed g hg
    | inr hg => exact hagreed g hg
  · intro g ses hg
    cases List.mem_append.mp hg with
    | inl hg =>
      obtain ⟨hin, hses⟩ := h.established g ses hg
      exact ⟨List.mem_append_left events hin, hses⟩
    | inr hg =>
      obtain ⟨hin, hses⟩ := hest g ses hg
      exact ⟨List.mem_append_left events hin, hses⟩

/-- What the worker has agreed on with a verified signature is good. -/
theorem Inv.goodAgreement (h : Inv weak verifyReport target s) {w : W}
    {v : Hello (Term (Name W))} (hpk : v.clientPk = .pub (.name (.client w)))
    (hsk : v.clientSk = .name (.client w)) {serverPk : Term (Name W)}
    (hsig : Derives Name.IsSecret s.knowledge (.sign (.name .owner)
      (computeKxTranscript (symbolic weak) v.context v.clientPk serverPk v.binding v.evidenceHash))) :
    GoodAgreement weak w (Worker.agreement (symbolic weak) v serverPk
      (.shared .toClient (.pub v.clientSk) serverPk) (.shared .toServer (.pub v.clientSk) serverPk)) := by
  obtain ⟨n, _, _, _, _, heq⟩ := h.signature hsig
  have hserver := (transcript_inj.mp heq).2.2.1
  refine ⟨hpk, ⟨n, hserver⟩, ?_⟩
  simp only [Worker.agreement, hpk, hsk]

/-- A worker that accepts the server's finish finds its transcript stored. -/
theorem Inv.finish_stored (h : Inv weak verifyReport target s) {w : W}
    {g : Agreement (Term (Name W))} (hg : GoodAgreement weak w g)
    (hf : Derives Name.IsSecret s.knowledge
      (computeKeyConfirmation (symbolic weak) g.confirmRx g.transcriptHash "central-node")) :
    ∃ i a, StoredBy weak verifyReport s.central i a ∧
      a.transcriptHash (symbolic weak) = g.transcriptHash := by
  obtain ⟨n, hserver⟩ := hg.serverPk
  have hconfirm : g.confirmRx = deriveBoundKey (symbolic weak)
      (.shared .toClient (.pub (.name (.client w))) (.pub (.name (.server n))))
      g.transcriptHash "confirm:c2w" := by
    rw [hg.transcriptHash, ← hg.clientPk, ← hserver]
    exact congrArg Agreement.confirmRx hg.keys
  rw [hconfirm] at hf
  cases h.confirmation hf with
  | inl hstored =>
    obtain ⟨i, a, hstored, _, ht⟩ := hstored
    exact ⟨i, a, hstored, ht.symm⟩
  | inr hagreed =>
    obtain ⟨_, _, _, _, hrole, _⟩ := hagreed
    exact (roles_ne hrole).elim

variable (weak verifyReport) in
def Advances (s : System Env W) (w : W) (w' : Worker (Term (Name W))) : Prop :=
  WorkerInv weak w w' ∧ ∃ events, w'.log = (s.workers w).log ++ events ∧
    ∀ g ses, .established g ses ∈ events → ∃ i a, StoredBy weak verifyReport s.central i a ∧
      a.transcriptHash (symbolic weak) = g.transcriptHash

section WorkerStep
variable {w : W}

/-- A step that only receives, into a phase whose claims on the locals hold. -/
theorem Inv.receives (h : Inv weak verifyReport target s) (m : Message (Term (Name W)))
    {phase : WorkerPhase (Term (Name W))}
    (hlocals : LocalsOf w ((s.workers w).log ++ [.received m]) phase) :
    Advances weak verifyReport s w (((s.workers w).record [.received m]).enter phase) :=
  ⟨(h.worker w).extend (by simp) hlocals (by simp) (by simp), _, rfl, by simp⟩

theorem Inv.onRequest (h : Inv weak verifyReport target s) (request : EaRequest (Term (Name W)))
    (report : Option Bytes) : Advances weak verifyReport s w
      ((s.workers w).onRequest (symbolic weak) request (.name (.client w)) report) := by
  simp only [Worker.onRequest]
  split
  · exact h.receives _ trivial
  · rename_i evidence _
    have hhello : ∀ log, LocalsOf w log (.awaitResult ⟨request.context,
        (symbolic weak).kxPublic (.name (.client w)), .name (.client w),
        eaBindingValue (symbolic weak) ((symbolic weak).kxPublic (.name (.client w)))
          request.context, hashEvidence (symbolic weak) evidence⟩) := fun _ => ⟨rfl, rfl⟩
    split_ifs
    · simp only [Worker.record, Worker.enter, List.append_assoc]
      refine ⟨(h.worker w).extend ?_ (hhello _) (by simp) (by simp), _, rfl, by simp⟩
      intro m hm
      simp only [List.cons_append, List.nil_append, List.mem_cons, List.not_mem_nil, or_false,
        reduceCtorEq, false_or, WorkerEvent.sent.injEq] at hm
      cases hm with
      | inl hm => subst hm; exact ⟨_, _, rfl⟩
      | inr hm => subst hm; exact trivial
    · simp only [Worker.record, Worker.enter, List.append_assoc]
      refine ⟨(h.worker w).extend ?_ (hhello _) (by simp) (by simp), _, rfl, by simp⟩
      intro m hm
      simp only [List.cons_append, List.nil_append, List.mem_cons, List.not_mem_nil, or_false,
        reduceCtorEq, false_or, WorkerEvent.sent.injEq] at hm
      subst hm
      exact ⟨_, _, rfl⟩

theorem Inv.onResult (h : Inv weak verifyReport target s) {v : Hello (Term (Name W))}
    (hphase : (s.workers w).phase = .awaitResult v) (attestOk : Int32) :
    Advances weak verifyReport s w ((s.workers w).onResult v attestOk) := by
  have hlocals := (h.worker w).locals
  rw [hphase] at hlocals
  simp only [Worker.onResult]
  split_ifs
  · exact h.receives _ trivial
  · exact h.receives _ hlocals

theorem Inv.onServerAuth (h : Inv weak verifyReport target s) {v : Hello (Term (Name W))}
    {serverPk signature : Term (Name W)} (hphase : (s.workers w).phase = .awaitServerAuth v)
    (hdel : s.Deliverable (.kxServerAuth serverPk signature)) :
    Advances weak verifyReport s w ((s.workers w).onServerAuth (symbolic weak)
      (.pub (.name .owner)) v serverPk signature) := by
  have hlocals := (h.worker w).locals
  rw [hphase] at hlocals
  obtain ⟨hpk, hsk⟩ := hlocals
  simp only [Worker.onServerAuth]
  split_ifs with hverify
  · split
    · exact h.receives _ trivial
    · rename_i rawRx rawTx hkeys
      have hsig := hdel signature (by simp [Message.terms])
      obtain rfl := of_decide_eq_true hverify
      have hgood := h.goodAgreement hpk hsk hsig
      simp only [symbolic] at hkeys
      split_ifs at hkeys
      obtain ⟨rfl, rfl⟩ := Prod.mk.inj (Option.some.inj hkeys)
      simp only [Worker.record, Worker.enter, List.append_assoc]
      refine ⟨(h.worker w).extend ?_ ?_ ?_ (by simp), _, rfl, by simp⟩
      · intro m hm
        simp only [List.cons_append, List.nil_append, List.mem_cons, List.not_mem_nil, or_false,
          reduceCtorEq, false_or, WorkerEvent.sent.injEq] at hm
        subst hm
        exact ⟨_, by simp, rfl⟩
      · exact List.mem_append_right _ (by simp)
      · intro g hg
        simp only [List.cons_append, List.nil_append, List.mem_cons, List.not_mem_nil, or_false,
          reduceCtorEq, false_or, WorkerEvent.agreed.injEq] at hg
        subst hg
        exact hgood
  · exact h.receives _ trivial

theorem Inv.onServerFinish (h : Inv weak verifyReport target s) {g : Agreement (Term (Name W))}
    {finish : Term (Name W)} (hphase : (s.workers w).phase = .awaitServerFinish g)
    (hdel : s.Deliverable (.kxServerFinish finish)) :
    Advances weak verifyReport s w ((s.workers w).onServerFinish (symbolic weak) g finish) := by
  have hlocals := (h.worker w).locals
  rw [hphase] at hlocals
  simp only [Worker.onServerFinish]
  split_ifs with hfinish
  · exact h.receives _ trivial
  · have hf := hdel finish (by simp [Message.terms])
    rw [not_not.mp hfinish] at hf
    have hstored := h.finish_stored ((h.worker w).agreed g hlocals) hf
    simp only [Worker.record, Worker.enter, List.append_assoc]
    refine ⟨(h.worker w).extend (by simp) trivial (by simp) ?_, _, rfl, ?_⟩
    · intro g' ses hest
      simp only [List.cons_append, List.nil_append, List.mem_cons, List.not_mem_nil, or_false,
        reduceCtorEq, false_or, WorkerEvent.established.injEq] at hest
      obtain ⟨rfl, rfl⟩ := hest
      exact ⟨hlocals, rfl⟩
    · intro g' ses hest
      simp only [List.cons_append, List.nil_append, List.mem_cons, List.not_mem_nil, or_false,
        reduceCtorEq, false_or, WorkerEvent.established.injEq] at hest
      obtain ⟨rfl, rfl⟩ := hest
      exact hstored

theorem Inv.worker_step (h : Inv weak verifyReport target s)
    {input : Option (Message (Term (Name W)))} (hdel : ∀ m, input = some m → s.Deliverable m)
    {w' : Worker (Term (Name W))}
    (hstep : Worker.Step (symbolic weak) (.pub (.name .owner)) (.name (.client w)) (s.workers w)
      input w') : Advances weak verifyReport s w w' := by
  cases hstep with
  | request request report _ => exact h.onRequest request report
  | result attestOk hphase => exact h.onResult hphase attestOk
  | serverAuth serverPk signature hphase => exact h.onServerAuth hphase (hdel _ rfl)
  | serverFinish finish hphase => exact h.onServerFinish hphase (hdel _ rfl)
  | abort =>
    have hw := h.worker w
    exact ⟨⟨hw.sent, trivial, hw.agreed, hw.established⟩, [], (List.append_nil _).symm, by simp⟩

end WorkerStep

theorem inv_step {s' : System Env W} (h : Inv weak verifyReport target s)
    (hstep : Step weak verifyReport target s s') : Inv weak verifyReport target s' := by
  cases hstep with
  | central input hadm hcentral => exact h.central_step hadm hcentral
  | @worker w' w input hdel hworker =>
    obtain ⟨hw, events, hlog, hest⟩ := h.worker_step hdel hworker
    refine ⟨h.central, h.centralSent, ?_, ?_, ?_⟩
    · intro x
      by_cases hx : x = w
      · subst hx
        rwa [setWorker_self]
      · rw [setWorker_ne s hx]
        exact h.worker x
    · intro x g ses hmem
      by_cases hx : x = w
      · subst hx
        rw [setWorker_self, hlog, List.mem_append] at hmem
        cases hmem with
        | inl hmem => exact h.established x g ses hmem
        | inr hmem => exact hest g ses hmem
      · rw [setWorker_ne s hx] at hmem
        exact h.established x g ses hmem
    · intro i slot hstored x context serverPk binding evidenceHash hbinding
      obtain ⟨g, hg, ht⟩ := h.stored i slot hstored x context serverPk binding evidenceHash hbinding
      refine ⟨g, ?_, ht⟩
      by_cases hx : x = w
      · subst hx
        rw [setWorker_self, hlog]
        exact List.mem_append_left events hg
      · rwa [setWorker_ne s hx]

theorem Run.inv (h : Run weak verifyReport target s) : Inv weak verifyReport target s := by
  refine Reachable.invariant (I := Inv weak verifyReport target) ?_ ?_ h
  · intro s hs
    subst hs
    exact inv_initial
  · intro s s' hs hstep
    exact inv_step hs hstep

variable (weak) in
/-- A worker and an admission of the central node that hold the same values and keys. -/
structure Agree (g : Agreement (Term (Name W))) (a : Admission Env (Term (Name W)))
    (slot : Slot (Term (Name W))) : Prop where
  context : g.context = a.context
  clientPk : g.clientPk = a.hdr.clientPk
  serverPk : g.serverPk = .pub a.serverSk
  binding : g.binding = a.binding
  evidenceHash : g.evidenceHash = hashEvidence (symbolic weak) a.evidence
  channelBinding : g.transcriptHash = slot.channelBinding
  toWorker : g.trafficRx = slot.wkey
  fromWorker : g.trafficTx = slot.wkeyRx

theorem GoodAgreement.agree {w : W} {g : Agreement (Term (Name W))} (hg : GoodAgreement weak w g)
    {a : Admission Env (Term (Name W))}
    (ha : a.Valid (symbolic weak) verifyReport (.name .owner))
    (ht : a.transcriptHash (symbolic weak) = g.transcriptHash) :
    Agree weak g a (a.slot (symbolic weak)) := by
  have heq := ht
  rw [hg.transcriptHash, Admission.transcriptHash, transcript_inj] at heq
  obtain ⟨hcontext, hclient, hserver, hbinding, hevidence⟩ := heq
  obtain ⟨hrx, htx⟩ := raw_keys ha
  have hserver' : g.serverPk = .pub a.serverSk := hserver.symm
  refine ⟨hcontext.symm, hclient.symm, hserver', hbinding.symm, hevidence.symm, ht.symm, ?_, ?_⟩
  · have hkey : g.trafficRx = deriveBoundKey (symbolic weak)
        (.shared .toClient g.clientPk g.serverPk) g.transcriptHash "traffic:c2w" := by
      rw [hg.transcriptHash]
      exact congrArg Agreement.trafficRx hg.keys
    rw [hkey, ← ht, hserver', ← hclient, ← htx]
    rfl
  · have hkey : g.trafficTx = deriveBoundKey (symbolic weak)
        (.shared .toServer g.clientPk g.serverPk) g.transcriptHash "traffic:w2c" := by
      rw [hg.transcriptHash]
      exact congrArg Agreement.trafficTx hg.keys
    rw [hkey, ← ht, hserver', ← hclient, ← hrx]
    rfl

/-- Key agreement in every reachable state: an established worker holds the values, the
channel binding and the two keys of a stored slot, and the worker behind a stored slot has
computed the values, the transcript and the keys of that slot. -/
theorem key_agreement (h : Run weak verifyReport target s) :
    (∀ w g ses, .established g ses ∈ (s.workers w).log →
      ∃ i slot a, s.central.slots i = some slot ∧ StoredBy weak verifyReport s.central i a ∧
        slot = a.slot (symbolic weak) ∧ Agree weak g a slot ∧
        ses.sessionKey = slot.wkeyRx ∧ ses.recvKey = slot.wkey ∧
        ses.channelBinding = slot.channelBinding) ∧
    (∀ i slot, s.central.slots i = some slot →
      ∃ a, StoredBy weak verifyReport s.central i a ∧ slot = a.slot (symbolic weak) ∧
        ∀ w, a.hdr.clientPk = .pub (.name (.client w)) →
          ∃ g, .agreed g ∈ (s.workers w).log ∧ Agree weak g a slot) := by
  have hinv := h.inv
  constructor
  · intro w g ses hest
    obtain ⟨i, a, hstored, ht⟩ := hinv.established w g ses hest
    obtain ⟨hagreed, rfl⟩ := (hinv.worker w).established g ses hest
    have hagree := ((hinv.worker w).agreed g hagreed).agree hstored.1 ht
    have hslot : s.central.slots i = some (a.slot (symbolic weak)) := by
      obtain ⟨_, earlier, later, hlog⟩ := hstored
      rw [hinv.central.slots, hlog]
      simp
    exact ⟨i, _, a, hslot, hstored, rfl, hagree, hagree.fromWorker, hagree.toWorker,
      hagree.channelBinding⟩
  · intro i slot hslot
    have hmem := (hinv.central.slots i slot).mp hslot
    obtain ⟨before, after, hlog⟩ := List.append_of_mem hmem
    obtain ⟨earlier, a, hbefore, hvalid, rfl⟩ := hinv.central.admitted before _ after hlog
    refine ⟨a, ⟨hvalid, earlier, after, by rw [hlog, hbefore]⟩, rfl, ?_⟩
    intro w hclient
    obtain ⟨g, hg, ht⟩ := hinv.stored i _ hmem w a.context ((symbolic weak).kxPublic a.serverSk)
      a.binding (hashEvidence (symbolic weak) a.evidence) (by rw [← hclient]; rfl)
    exact ⟨g, hg, ((hinv.worker w).agreed g hg).agree hvalid ht.symm⟩

omit [DecidableEq W] in
theorem deliverable_of_sent {m : Message (Term (Name W))} (h : s.Sent m) : s.Deliverable m :=
  fun _ ht => .known ⟨m, h, ht⟩

section Sample

abbrev sampleTerms : Sodium (Term (Name Unit)) := symbolic fun _ => false

def sampleReport : Unit → Bytes → Term (Name Unit) → Int := fun _ _ _ => 0

def sampleAgreed : Admission Unit (Term (Name Unit)) where
  comm := 1
  context := .name (.context 1)
  hdr := Worker.authHdr sampleTerms (.name (.context 1)) (.pub (.name (.client ()))) 1
  evidence := [1]
  env := ()
  serverSk := .name (.server 1)
  signature := .sign (.name .owner) (computeKxTranscript sampleTerms (.name (.context 1))
    (.pub (.name (.client ()))) (.pub (.name (.server 1)))
    (eaBindingValue sampleTerms (.pub (.name (.client ()))) (.name (.context 1)))
    (hashEvidence sampleTerms [1]))
  rawRx := .shared .toServer (.pub (.name (.client ()))) (.pub (.name (.server 1)))
  rawTx := .shared .toClient (.pub (.name (.client ()))) (.pub (.name (.server 1)))

def sampleHello : Hello (Term (Name Unit)) :=
  ⟨.name (.context 1), .pub (.name (.client ())), .name (.client ()), sampleAgreed.binding,
    hashEvidence sampleTerms [1]⟩

def sampleKeys : Agreement (Term (Name Unit)) :=
  Worker.agreement sampleTerms sampleHello (.pub (.name (.server 1))) sampleAgreed.rawTx
    sampleAgreed.rawRx

def centralBegun : Central Unit (Term (Name Unit)) :=
  Central.initial.beginRound sampleAgreed.context

def centralHeader : Central Unit (Term (Name Unit)) :=
  centralBegun.onHeader sampleAgreed.context sampleAgreed.hdr

def centralEvidence : Central Unit (Term (Name Unit)) :=
  centralHeader.onEvidence sampleAgreed.context sampleAgreed.hdr [1]

def centralValidated : Central Unit (Term (Name Unit)) :=
  Central.onValidate sampleTerms sampleReport (.name .owner) centralEvidence sampleAgreed.context
    sampleAgreed.hdr [1] () (.name (.server 1))

def centralStored : Central Unit (Term (Name Unit)) :=
  Central.onFinish sampleTerms centralValidated (sampleAgreed.pending sampleTerms)
    (sampleAgreed.clientFinish sampleTerms)

def workerHello : Worker (Term (Name Unit)) :=
  Worker.initial.onRequest sampleTerms ⟨sampleAgreed.context, 1⟩ (.name (.client ())) (some [1])

def workerAccepted : Worker (Term (Name Unit)) := workerHello.onResult sampleHello 1

def workerAgreed : Worker (Term (Name Unit)) :=
  workerAccepted.onServerAuth sampleTerms (.pub (.name .owner)) sampleHello
    (.pub (.name (.server 1))) sampleAgreed.signature

def workerEstablished : Worker (Term (Name Unit)) :=
  workerAgreed.onServerFinish sampleTerms sampleKeys (sampleAgreed.serverFinish sampleTerms)

abbrev SampleRun (c : Central Unit (Term (Name Unit))) (w : Worker (Term (Name Unit))) : Prop :=
  Run (fun _ => false) sampleReport 1 ⟨c, fun _ => w⟩

theorem sampleRun_central {c c' : Central Unit (Term (Name Unit))} {w : Worker (Term (Name Unit))}
    (h : SampleRun c w) (input : Central.Input Unit (Term (Name Unit)))
    (hadm : Admissible ⟨c, fun _ => w⟩ input)
    (hstep : Central.Step sampleTerms sampleReport (.name .owner) 1 c input c') : SampleRun c' w :=
  h.next (.central input hadm hstep)

theorem sampleRun_worker {c : Central Unit (Term (Name Unit))} {w w' : Worker (Term (Name Unit))}
    (h : SampleRun c w) (m : Message (Term (Name Unit))) (hsent : .sent m ∈ c.log)
    (hstep : Worker.Step sampleTerms (.pub (.name .owner)) (.name (.client ())) w (some m) w') :
    SampleRun c w' := by
  have hset : setWorker ⟨c, fun _ => w⟩ () w' = ⟨c, fun _ => w'⟩ := by
    simp only [setWorker, System.mk.injEq, true_and]
    funext x
    exact Function.update_self ..
  rw [SampleRun, ← hset]
  refine h.next (.worker () (some m) ?_ hstep)
  intro m' hm
  obtain rfl := Option.some.inj hm
  exact deliverable_of_sent (.inl hsent)

theorem sampleRun_complete : SampleRun centralStored workerEstablished := by
  let a := sampleAgreed
  have hheader : centralHeader.phase = .awaitEvidence a.context a.hdr := by decide +kernel
  have hevidence : centralEvidence.phase = .validate a.context a.hdr [1] := by decide +kernel
  have hvalidated : centralValidated.phase = .awaitFinish (a.pending sampleTerms) := by
    decide +kernel
  have hhello : workerHello.phase = .awaitResult sampleHello := by decide +kernel
  have haccepted : workerAccepted.phase = .awaitServerAuth sampleHello := by decide +kernel
  have hagreed : workerAgreed.phase = .awaitServerFinish sampleKeys := by decide +kernel
  have h : SampleRun .initial .initial := .start rfl
  have h : SampleRun centralBegun .initial :=
    sampleRun_central h (.context a.context) rfl (.accept _ rfl le_rfl)
  have h : SampleRun centralBegun workerHello :=
    sampleRun_worker h (.eaRequest ⟨a.context, 1⟩) (by decide +kernel) (.request _ _ rfl)
  have h : SampleRun centralHeader workerHello :=
    sampleRun_central h (.message (.eaAuthHdr a.hdr))
      (deliverable_of_sent (.inr ⟨(), by decide +kernel⟩)) (.header _ rfl)
  have h : SampleRun centralEvidence workerHello :=
    sampleRun_central h (.message (.eaEvidenceData [1]))
      (deliverable_of_sent (.inr ⟨(), by decide +kernel⟩)) (.evidence _ hheader)
  have h : SampleRun centralValidated workerHello :=
    sampleRun_central h (.validate () (.name (.server 1))) rfl (.validate _ _ hevidence)
  have h : SampleRun centralValidated workerAccepted :=
    sampleRun_worker h (.eaResult 1) (by decide +kernel) (.result _ hhello)
  have h : SampleRun centralValidated workerAgreed :=
    sampleRun_worker h (.kxServerAuth (.pub (.name (.server 1))) a.signature) (by decide +kernel)
      (.serverAuth _ _ haccepted)
  have h : SampleRun centralStored workerAgreed :=
    sampleRun_central h (.message (.kxClientFinish (a.clientFinish sampleTerms)))
      (deliverable_of_sent (.inr ⟨(), by decide +kernel⟩)) (.finish _ hvalidated)
  exact sampleRun_worker h (.kxServerFinish (a.serverFinish sampleTerms)) (by decide +kernel)
    (.serverFinish _ hagreed)

/-- The undisturbed handshake ends with an established worker and its slot. -/
theorem sampleRun_agrees :
    .established sampleKeys ⟨sampleKeys.trafficTx, sampleKeys.trafficRx,
      sampleKeys.transcriptHash⟩ ∈ workerEstablished.log ∧
    ∃ i slot, centralStored.slots i = some slot ∧ sampleKeys.trafficTx = slot.wkeyRx ∧
      sampleKeys.trafficRx = slot.wkey := by
  have hest : .established sampleKeys ⟨sampleKeys.trafficTx, sampleKeys.trafficRx,
      sampleKeys.transcriptHash⟩ ∈ workerEstablished.log := by decide +kernel
  obtain ⟨i, slot, _, hslot, _, _, _, hsession, hrecv, _⟩ :=
    (key_agreement sampleRun_complete).1 () _ _ hest
  exact ⟨hest, i, slot, hslot, hsession, hrecv⟩

end Sample

end System
end DistributedEnclave.Npb
