import DistributedEnclave.Attest.TaskProtocol

/-! The worker's half of the handshake, in `worker_attest.c`, the enrollment of workers that run it,
whatever peers connect before and after them, and the keys with which the task phase starts. -/
namespace DistributedEnclave.Attest
open Octets Cluster

/-- The guest of a worker: its build, whether `report_data.bin` can be written, how `snpguest` ends
and what can then be read from its output for this report data. -/
structure Guest where
  skipAttestation : Bool
  writeReportData : Bool
  system : Bytes → Status
  readReport : Bytes → Option Bytes

def reportCommand : Bytes :=
  chars "snpguest report attestation-report.bin report_data.bin > snpguest_report.log 2>&1"

/-- The length goes through an `int`; there is no block of a negative size. -/
def getSevSnpReport (guest : Guest) (reportData : Bytes) : Option Bytes :=
  if ¬guest.writeReportData then none
  else if guest.system reportCommand ≠ .exited 0 then none
  else
    match guest.readReport reportData with
    | none => none
    | some report =>
      let outLen := (report.length:Int).bmod (2^32)
      if report.length = 0 ∨ outLen < 0 then none else some (report.take outLen.toNat)

def fetchEvidence (guest : Guest) (req : EaRequest Bytes) (reportData : Bytes) : Option Bytes :=
  if guest.skipAttestation ∨ req.attestationOffer = 0 then some []
  else getSevSnpReport guest reportData

/-- `strncpy` into an array of 64 zeros, which keeps the last of them. -/
def charArray (text : Bytes) : Bytes :=
  text.take 63 ++ List.replicate (64-(text.take 63).length) 0

inductive HandshakeEnd where
  | aborted | rejected
  | ready (sessionKey : Bytes)
  deriving DecidableEq

section
variable (S : Sodium Bytes)

def workerReportData (context clientPk : Bytes) : Bytes :=
  eaDeriveReportData S (eaBinding S context clientPk)

def workerHdr (context clientPk evidence : Bytes) : EaAuthHdr Bytes where
  clientPk := clientPk
  payloadHdr :=
    { version := eaPayloadVersion
      mediaType := charArray eaMediaType
      evidenceLen := UInt32.ofNat evidence.length
      binder := ⟨eaAikPubHash S clientPk, eaBinding S context clientPk, charArray eaExporterLabel⟩ }

/-- From `TAG_EA_RESULT` on. -/
def workerEnd (clientSk : Bytes) (attestOk : Int32) (serverPk : Bytes) : HandshakeEnd :=
  if attestOk = 0 then .rejected
  else
    match S.kxClientSessionKeys (S.kxPublic clientSk) clientSk serverPk with
    | none => .aborted
    | some (rx, _) => .ready (appKey S rx)

structure Answers (guest : Guest) (clientSk : Bytes) (r : Round) : Prop where
  evidence : fetchEvidence guest ⟨r.context, 1⟩
    (workerReportData S r.context (S.kxPublic clientSk)) = some r.evidence
  hdr : r.hdr = workerHdr S r.context (S.kxPublic clientSk) r.evidence
  finished : r.finished =
    eaComputeFinished S r.context (S.kxPublic clientSk) r.hdr.payloadHdr r.evidence

def EvidencePasses (clientSk : Bytes) (r : Round) : Prop :=
  r.evidence ≠ [] → verifySevSnpReport r.host r.evidence
    (workerReportData S r.context (S.kxPublic clientSk)) = 0

end

theorem getSevSnpReport_length {guest : Guest} {reportData evidence : Bytes}
    (h : getSevSnpReport guest reportData = some evidence) : evidence.length < 2^31 := by
  rw [getSevSnpReport] at h
  split at h
  · cases h
  split at h
  · cases h
  split at h
  · cases h
  rename_i report _
  obtain ⟨-, heq⟩ := Option.ite_none_left_eq_some.mp h
  rw [← Option.some.inj heq]
  have hbound : (report.length:Int).bmod (2^32) < (2^32+1)/2 := Int.bmod_lt (by decide)
  rw [List.length_take]
  omega

theorem fetchEvidence_length {guest : Guest} {req : EaRequest Bytes} {reportData evidence : Bytes}
    (h : fetchEvidence guest req reportData = some evidence) : evidence.length < 2^31 := by
  rw [fetchEvidence] at h
  split at h
  · cases h
    decide
  · exact getSevSnpReport_length h

section Rounds
variable {S : Sodium Bytes} {guest : Guest} {clientSk : Bytes} {r : Round}

def workerRound (S : Sodium Bytes) (clientSk context evidence : Bytes) (host : Host)
    (serverSk : Bytes) (hlen : evidence.length < 2^31) : Round where
  context := context
  hdr := workerHdr S context (S.kxPublic clientSk) evidence
  evidence := evidence
  finished := eaComputeFinished S context (S.kxPublic clientSk)
    (workerHdr S context (S.kxPublic clientSk) evidence).payloadHdr evidence
  host := host
  serverSk := serverSk
  evidence_length := by
    have hword : evidence.length < 2^32 := by omega
    exact (UInt32.toNat_ofNat_of_lt' hword).symm

theorem workerRound_answers {context evidence serverSk : Bytes} {host : Host}
    (h : fetchEvidence guest ⟨context, 1⟩
      (workerReportData S context (S.kxPublic clientSk)) = some evidence) :
    Answers S guest clientSk
      (workerRound S clientSk context evidence host serverSk (fetchEvidence_length h)) :=
  ⟨h, rfl, rfl⟩

theorem Answers.clientPk (h : Answers S guest clientSk r) :
    r.hdr.clientPk = S.kxPublic clientSk := by
  rw [h.hdr]
  rfl

theorem Answers.payload (h : Answers S guest clientSk r) :
    eaVerifyPayload S r.hdr.payloadHdr r.context r.hdr.clientPk = 0 := by
  have hmedia : strncmp 64 (charArray eaMediaType) eaMediaType = 0 := by decide
  have hlabel : strncmp 64 (charArray eaExporterLabel) eaExporterLabel = 0 := by decide
  rw [h.hdr]
  exact verifyPayloadOf_eq_zero_iff.mpr ⟨rfl, hmedia, hlabel, rfl, rfl⟩

theorem Answers.attestOk_iff (h : Answers S guest clientSk r) :
    attestOk S r ≠ 0 ↔ EvidencePasses S clientSk r := by
  have hbinding : r.hdr.payloadHdr.binder.binding =
      eaBinding S r.context (S.kxPublic clientSk) := by
    rw [h.hdr]
    rfl
  have hfinished : eaComputeFinished S r.context r.hdr.clientPk r.hdr.payloadHdr r.evidence =
      r.finished := by rw [h.finished, h.clientPk]
  have hlen : 0 < r.hdr.payloadHdr.evidenceLen.toNat ↔ r.evidence ≠ [] := by
    rw [← r.evidence_length, List.length_pos_iff]
  rw [attestOk_ne_zero_iff, hlen, hbinding]
  exact ⟨fun hok => hok.2.2, fun hpass => ⟨h.payload, hfinished, hpass⟩⟩

theorem enrollRound_wkey (m : Master) (r : Round) : m.wkey <+: (enrollRound S m r).wkey := by
  rw [enrollRound]
  split
  · exact List.prefix_rfl
  dsimp only
  split
  · exact List.prefix_append _ _
  · exact List.prefix_rfl
  · exact List.prefix_rfl

theorem foldl_wkey (rounds : List Round) (m : Master) :
    m.wkey <+: (rounds.foldl (enrollRound S) m).wkey := by
  induction rounds generalizing m with
  | nil => exact List.prefix_rfl
  | cons r rounds ih => exact (enrollRound_wkey m r).trans (ih (enrollRound S m r))

variable {before after : List Round} {n : Nat} {key rx tx : Bytes}

theorem enrollRound_stored {m : Master} (hrun : m.aborted = false)
    (hstored : roundOutcome S m.wkey.length r = .stored key) :
    enrollRound S m r = ⟨m.wkey ++ [key], m.rounds ++ [(r, .stored key)], false⟩ := by
  simp only [enrollRound, hrun, hstored]
  rfl

/-- The slot of a worker is not given to another one. -/
theorem enrolled_key (hrun : (enrollment S before).aborted = false)
    (hstored : roundOutcome S (enrollment S before).wkey.length r = .stored key) :
    (enrollment S (before ++ r :: after)).wkey[(enrollment S before).wkey.length]? = some key := by
  have hall : enrollment S (before ++ r :: after) =
      after.foldl (enrollRound S) (enrollRound S (enrollment S before) r) := by
    rw [enrollment, List.foldl_append, List.foldl_cons]
    rfl
  obtain ⟨others, hothers⟩ := foldl_wkey after (enrollRound S (enrollment S before) r)
  rw [hall, ← hothers, enrollRound_stored hrun hstored, List.append_assoc,
    List.getElem?_append_right (Nat.le_refl _), Nat.sub_self]
  rfl

theorem Answers.fits (hfits : r.evidence.length ≤ maxReportLen) :
    ¬r.hdr.payloadHdr.evidenceLen.toNat > maxReportLen := by
  rw [← r.evidence_length]
  exact Nat.not_lt.mpr hfits

theorem Answers.ready {workerTx : Bytes} (h : Answers S guest clientSk r)
    (hclient : S.kxClientSessionKeys (S.kxPublic clientSk) clientSk (S.kxPublic r.serverSk) =
      some (rx, workerTx)) (hpass : EvidencePasses S clientSk r) :
    workerEnd S clientSk (attestOk S r) (S.kxPublic r.serverSk) = .ready (appKey S rx) := by
  rw [workerEnd, if_neg (h.attestOk_iff.mpr hpass), hclient]

theorem Answers.stored (h : Answers S guest clientSk r) (hfits : r.evidence.length ≤ maxReportLen)
    (hserver : S.kxServerSessionKeys (S.kxPublic r.serverSk) r.serverSk (S.kxPublic clientSk) =
      some (rx, tx)) (hroom : n < maxWorkers) (hpass : EvidencePasses S clientSk r) :
    roundOutcome S n r = .stored (appKey S tx) := by
  rw [roundOutcome, if_neg (Answers.fits hfits), if_neg (h.attestOk_iff.mpr hpass), h.clientPk,
    hserver]
  dsimp only
  rw [if_neg (Nat.not_le.mpr hroom)]

theorem Answers.refused (h : Answers S guest clientSk r) (hfail : ¬EvidencePasses S clientSk r) :
    attestOk S r = 0 := not_not.mp (mt h.attestOk_iff.mp hfail)

theorem Answers.rejected (h : Answers S guest clientSk r) (hfits : r.evidence.length ≤ maxReportLen)
    (hfail : ¬EvidencePasses S clientSk r) : roundOutcome S n r = .rejected := by
  rw [roundOutcome, if_neg (Answers.fits hfits), if_pos (h.refused hfail)]

/-- Whatever peers come before and after it, a worker whose evidence passes ends with the key of
its slot, and any other is rejected. -/
theorem honest_worker_enrolled {workerTx : Bytes} (h : Answers S guest clientSk r)
    (hfits : r.evidence.length ≤ maxReportLen)
    (hserver : S.kxServerSessionKeys (S.kxPublic r.serverSk) r.serverSk (S.kxPublic clientSk) =
      some (rx, tx))
    (hclient : S.kxClientSessionKeys (S.kxPublic clientSk) clientSk (S.kxPublic r.serverSk) =
      some (tx, workerTx))
    (hrun : (enrollment S before).aborted = false)
    (hroom : (enrollment S before).wkey.length < maxWorkers) :
    (EvidencePasses S clientSk r → ∃ key,
      (enrollment S (before ++ r :: after)).wkey[(enrollment S before).wkey.length]? = some key ∧
      (r, .stored key) ∈ (enrollment S (before ++ r :: after)).rounds ∧
      workerEnd S clientSk (attestOk S r) (S.kxPublic r.serverSk) = .ready key ∧
      (Attested S r ↔ r.evidence ≠ [])) ∧
    (¬EvidencePasses S clientSk r →
      (r, .rejected) ∈ (enrollment S (before ++ r :: after)).rounds ∧
      workerEnd S clientSk (attestOk S r) (S.kxPublic r.serverSk) = .rejected) := by
  constructor
  · intro hpass
    have hstored := h.stored hfits hserver hroom hpass
    have hmem := mem_rounds_iff.mpr ⟨before, after, rfl, hrun, hstored.symm⟩
    refine ⟨appKey S tx, enrolled_key hrun hstored, hmem, h.ready hclient hpass, ?_⟩
    rw [Attested, h.clientPk, List.length_pos_iff]
    exact ⟨And.left, fun hne => ⟨hne, hpass hne⟩⟩
  · intro hfail
    have hmem := mem_rounds_iff.mpr ⟨before, after, rfl, hrun, (h.rejected hfits hfail).symm⟩
    exact ⟨hmem, if_pos (h.refused hfail)⟩

end Rounds

def plainGuest : Guest where
  skipAttestation := false
  writeReportData := true
  system _ := .exited 0
  readReport reportData := some (reportData ++ [0x52])

def plainVerifier : Host := ⟨fun _ => none, true, fun _ => .exited 0⟩

theorem plain_fetch : fetchEvidence plainGuest ⟨[9], 1⟩ (workerReportData plainSodium [9] [7]) =
    some [7, 9, 0x52] := by
  decide +kernel

def plainRound (serverSk : Bytes) : Round :=
  workerRound plainSodium [7] [9] [7, 9, 0x52] plainVerifier serverSk
    (fetchEvidence_length plain_fetch)

theorem plainRound_answers (serverSk : Bytes) :
    Answers plainSodium plainGuest [7] (plainRound serverSk) := workerRound_answers plain_fetch

theorem plainRound_passes (serverSk : Bytes) :
    EvidencePasses plainSodium [7] (plainRound serverSk) := by
  have hreport : verifySevSnpReport plainVerifier [7, 9, 0x52]
      (workerReportData plainSodium [9] [7]) = 0 := by decide +kernel
  exact fun _ => hreport

theorem plainRound_fits (serverSk : Bytes) :
    (plainRound serverSk).evidence.length ≤ maxReportLen := by
  have hfits : ([7, 9, 0x52] : Bytes).length ≤ maxReportLen := by decide
  exact hfits

/-- It comes after a peer without evidence. -/
theorem plain_worker_enrolled : ∃ key,
    (enrollment plainSodium [bareRound, plainRound [5]]).wkey[1]? = some key ∧
    workerEnd plainSodium [7] (attestOk plainSodium (plainRound [5])) (plainSodium.kxPublic [5]) =
      .ready key ∧ Attested plainSodium (plainRound [5]) := by
  have hrun : (enrollment plainSodium [bareRound]).aborted = false := by decide +kernel
  have hslots : (enrollment plainSodium [bareRound]).wkey.length = 1 := by decide +kernel
  have hroom : (enrollment plainSodium [bareRound]).wkey.length < maxWorkers := by
    rw [hslots]
    decide
  obtain ⟨key, hslot, -, hend, hattested⟩ := (honest_worker_enrolled (plainRound_answers [5])
    (plainRound_fits [5]) rfl rfl hrun hroom).1 (plainRound_passes [5])
  rw [hslots] at hslot
  exact ⟨key, hslot, hend, hattested.mpr (List.cons_ne_nil _ _)⟩

section Secrets
variable {S : Sodium Bytes} {K : Secrets S} {rounds : List Round} {n : Nat}

def TurnedAway (S : Sodium Bytes) (r : Round) : Prop :=
  r.hdr.payloadHdr.evidenceLen.toNat > maxReportLen ∨ attestOk S r = 0

theorem TurnedAway.enrollRound_eq {m : Master} {r : Round} (h : TurnedAway S r)
    (hrun : m.aborted = false) :
    ∃ outcome, enrollRound S m r = ⟨m.wkey, m.rounds ++ [(r, outcome)], false⟩ := by
  by_cases hlen : r.hdr.payloadHdr.evidenceLen.toNat > maxReportLen
  · have hover : roundOutcome S m.wkey.length r = .oversized := by rw [roundOutcome, if_pos hlen]
    refine ⟨.oversized, ?_⟩
    simp only [enrollRound, hrun, hover]
    rfl
  · have hrejected : roundOutcome S m.wkey.length r = .rejected := by
      rw [roundOutcome, if_neg hlen, if_pos (h.resolve_left hlen)]
    refine ⟨.rejected, ?_⟩
    simp only [enrollRound, hrun, hrejected]
    rfl

/-- Rounds of `n` workers with the secrets of `K`, and of peers that are turned away. -/
inductive Enrolls (K : Secrets S) : List Round → Nat → Prop where
  | nil : Enrolls K [] 0
  | turnedAway {rounds : List Round} {n : Nat} {r : Round} (h : Enrolls K rounds n)
    (hturned : TurnedAway S r) : Enrolls K (rounds ++ [r]) n
  | worker {rounds : List Round} {n : Nat} {r : Round} {guest : Guest} (h : Enrolls K rounds n)
    (hanswers : Answers S guest (K.clientSk n) r) (hserver : r.serverSk = K.serverSk n)
    (hfits : r.evidence.length ≤ maxReportLen) (hpass : EvidencePasses S (K.clientSk n) r)
    (hroom : n < maxWorkers) : Enrolls K (rounds ++ [r]) (n+1)

def Shared (K : Secrets S) (m : Master) (i : Nat) : Prop :=
  ∃ r guest, Answers S guest (K.clientSk i) r ∧ (r, .stored (wkey K i)) ∈ m.rounds ∧
    workerEnd S (K.clientSk i) (attestOk S r) (S.kxPublic r.serverSk) = .ready (sessionKey K i)

theorem Shared.later {m m' : Master} {i : Nat} (h : Shared K m i)
    (hrounds : m.rounds ⊆ m'.rounds) : Shared K m' i := by
  obtain ⟨r, guest, hanswers, hmem, hend⟩ := h
  exact ⟨r, guest, hanswers, hrounds hmem, hend⟩

/-- The enrollment leaves the keys that the task phase starts with. -/
theorem enrolled_secrets (h : Enrolls K rounds n) : (enrollment S rounds).aborted = false ∧
    (enrollment S rounds).wkey = (List.range n).map (wkey K) ∧
    ∀ i < n, Shared K (enrollment S rounds) i := by
  induction h with
  | nil => exact ⟨rfl, rfl, nofun⟩
  | @turnedAway rounds n r h hturned ih =>
    obtain ⟨hrun, hkeys, hshared⟩ := ih
    obtain ⟨outcome, hround⟩ := hturned.enrollRound_eq hrun
    rw [enrollment_concat, hround]
    exact ⟨rfl, hkeys, fun i hi => (hshared i hi).later (List.subset_append_left _ _)⟩
  | @worker rounds n r guest h hanswers hserver hfits hpass hroom ih =>
    obtain ⟨hrun, hkeys, hshared⟩ := ih
    have hlen : (enrollment S rounds).wkey.length = n := by
      rw [hkeys, List.length_map, List.length_range]
    have hstored : roundOutcome S (enrollment S rounds).wkey.length r = .stored (wkey K n) := by
      rw [hlen]
      exact hanswers.stored hfits (hserver ▸ K.server n) hroom hpass
    rw [enrollment_concat, enrollRound_stored hrun hstored]
    refine ⟨rfl, ?_, fun i hi => ?_⟩
    · rw [hkeys, List.range_succ, List.map_append]
      rfl
    · cases Nat.lt_succ_iff_lt_or_eq.mp hi with
      | inl hlt => exact (hshared i hlt).later (List.subset_append_left _ _)
      | inr heq =>
        subst heq
        have hready := hanswers.ready (hserver ▸ K.client i) hpass
        exact ⟨r, guest, hanswers, List.mem_append_right _ List.mem_cons_self, hready⟩

end Secrets

def brokenRound : Round := { bareRound with finished := [] }

theorem plain_secrets_enrolled :
    (enrollment plainSodium [brokenRound, plainRound []]).aborted = false ∧
      (enrollment plainSodium [brokenRound, plainRound []]).wkey = [wkey plainSecrets 0] ∧
      Shared plainSecrets (enrollment plainSodium [brokenRound, plainRound []]) 0 := by
  have hbroken : TurnedAway plainSodium brokenRound := .inr (by decide +kernel)
  have hrounds : Enrolls plainSecrets [brokenRound, plainRound []] 1 :=
    .worker (.turnedAway .nil hbroken) (plainRound_answers []) rfl (plainRound_fits [])
      (plainRound_passes []) (by decide)
  obtain ⟨hrun, hkeys, hshared⟩ := enrolled_secrets hrounds
  exact ⟨hrun, hkeys, hshared 0 Nat.one_pos⟩

end DistributedEnclave.Attest
