import DistributedEnclave.Cluster.SnpReport
import Mathlib.Data.List.Induction

/-! The enrollment phase of `master_attest.c` in the build without `SKIP_ATTESTATION`, and
when the workers it stores have shown evidence. -/
namespace DistributedEnclave.Attest
open DistributedEnclave.Octets DistributedEnclave.Cluster

def bindingLen : Nat := 32
def reportDataSize : Nat := 64
def keyLen : Nat := 32
def eaPayloadVersion : UInt32 := 1
def snpReportTmp : Bytes := chars "snp_report.bin"
def cmdSize : Nat := 1024

section
variable (S : Sodium Bytes)

def eaExportAttestationValue (context : Bytes) : Bytes := S.generichash hashLen [context]

def eaAikPubHash (pubKey : Bytes) : Bytes := S.generichash hashLen [pubKey]

def eaBindingValue (pubKey exportedValue : Bytes) : Bytes :=
  S.generichash bindingLen [pubKey, exportedValue]

def eaBinding (context pubKey : Bytes) : Bytes :=
  eaBindingValue S pubKey (eaExportAttestationValue S context)

def eaDeriveReportData (binding : Bytes) : Bytes := S.generichash reportDataSize [binding]

def hdrOctets (hdr : EaPayloadHdr Bytes) : Bytes :=
  (beEncode 4 hdr.version.toNat).reverse ++ hdr.mediaType ++
    (beEncode 4 hdr.evidenceLen.toNat).reverse ++ hdr.binder.aikPubHash ++ hdr.binder.binding ++
    hdr.binder.exporterLabel

def eaComputeFinished (context pubKey : Bytes) (hdr : EaPayloadHdr Bytes) (evidence : Bytes) :
    Bytes :=
  S.generichash hashLen
    ([context, pubKey, hdrOctets hdr] ++ if evidence.length > 0 then [evidence] else [])

def eaVerifyPayload (hdr : EaPayloadHdr Bytes) (context pubKey : Bytes) : Int :=
  verifyPayloadOf eaPayloadVersion (eaAikPubHash S pubKey) (eaBinding S context pubKey) hdr

end

/-- How `system` ends: -1, killed, or an exit status. -/
inductive Status where
  | failed | killed
  | exited (code : Nat)
  deriving DecidableEq

structure Host where
  getenv : String → Option Bytes
  writeReport : Bool
  system : Bytes → Status

/-- Control characters and the characters ; & | $ backquote ' " ( ) braces < > !. -/
def unsafeChar (c : UInt8) : Bool :=
  c < 0x20 ∨ c ∈ [59, 38, 124, 36, 96, 39, 34, 40, 41, 123, 125, 60, 62, 33]

def sanitizePath (p : Bytes) : Int := if p.any unsafeChar then -1 else 0

def verifyCommand (certsDir expectedReportData : Bytes) : Bytes :=
  (chars "snpguest verify attestation " ++ certsDir ++ chars " " ++ snpReportTmp ++
    chars " --report-data 0x" ++ bytesToHex expectedReportData ++
    chars " > snpguest_verify.log 2>&1").take (cmdSize-1)

/-- The result of the command that fetches the certificate plays no part. -/
def verifySevSnpReport (host : Host) (report expectedReportData : Bytes) : Int :=
  if report.length = 0 then -1
  else if ¬host.writeReport then -1
  else
    let certsDir := ((host.getenv "SNP_CERTS_DIR").filter (· ≠ [])).getD (chars "certs")
    if sanitizePath certsDir ≠ 0 then -1
    else if host.system (verifyCommand certsDir expectedReportData) = .exited 0 then 0
    else -1

/-- What one round takes in. The buffer of the evidence has the length the header states. -/
structure Round where
  context : Bytes
  hdr : EaAuthHdr Bytes
  evidence : Bytes
  finished : Bytes
  host : Host
  serverSk : Bytes
  evidence_length : evidence.length = hdr.payloadHdr.evidenceLen.toNat

/-- How a round ends; `attest_ok` has been sent as 0 to a rejected worker, as 1 to a stored one. -/
inductive Outcome where
  | oversized | rejected | abort
  | stored (appKey : Bytes)
  deriving DecidableEq

structure Master where
  wkey : List Bytes
  rounds : List (Round × Outcome)
  aborted : Bool

section
variable (S : Sodium Bytes)

def attestOk (r : Round) : Int32 :=
  let ok : Int32 := if eaVerifyPayload S r.hdr.payloadHdr r.context r.hdr.clientPk ≠ 0 then 0 else 1
  let ok : Int32 :=
    if ok ≠ 0 then
      if eaComputeFinished S r.context r.hdr.clientPk r.hdr.payloadHdr r.evidence ≠ r.finished
      then 0 else ok
    else ok
  if ok ≠ 0 ∧ r.hdr.payloadHdr.evidenceLen.toNat > 0 then
    if verifySevSnpReport r.host r.evidence
      (eaDeriveReportData S r.hdr.payloadHdr.binder.binding) ≠ 0 then 0 else ok
  else ok

def appKey (secret : Bytes) : Bytes := S.generichash keyLen [secret, chars "app_key"]

def roundOutcome (nworkers : Nat) (r : Round) : Outcome :=
  if r.hdr.payloadHdr.evidenceLen.toNat > maxReportLen then .oversized
  else if attestOk S r = 0 then .rejected
  else
    match S.kxServerSessionKeys (S.kxPublic r.serverSk) r.serverSk r.hdr.clientPk with
    | none => .abort
    | some (_, tx) => if nworkers ≥ maxWorkers then .abort else .stored (appKey S tx)

def enrollRound (m : Master) (r : Round) : Master :=
  if m.aborted then m
  else
    let outcome := roundOutcome S m.wkey.length r
    let m := { m with rounds := m.rounds ++ [(r, outcome)] }
    match outcome with
    | .stored key => { m with wkey := m.wkey ++ [key] }
    | .abort => { m with aborted := true }
    | _ => m

def enrollment (rounds : List Round) : Master := rounds.foldl (enrollRound S) ⟨[], [], false⟩

/-- `verify_sev_snp_report` has accepted a non-empty evidence, with the report data of the
binding of this round's context and key. -/
def Attested (r : Round) : Prop :=
  0 < r.evidence.length ∧ verifySevSnpReport r.host r.evidence
    (eaDeriveReportData S (eaBinding S r.context r.hdr.clientPk)) = 0

structure EvidenceFree (r : Round) : Prop where
  evidenceLen : r.hdr.payloadHdr.evidenceLen.toNat = 0
  payload : eaVerifyPayload S r.hdr.payloadHdr r.context r.hdr.clientPk = 0
  finished : eaComputeFinished S r.context r.hdr.clientPk r.hdr.payloadHdr r.evidence = r.finished

structure StoresEvidenceFree (m : Master) (r : Round) : Prop where
  running : m.aborted = false
  room : m.wkey.length < maxWorkers
  keys : (S.kxServerSessionKeys (S.kxPublic r.serverSk) r.serverSk r.hdr.clientPk).isSome
  free : EvidenceFree S r

variable {S}

theorem attestOk_ne_zero_iff {r : Round} : attestOk S r ≠ 0 ↔
    eaVerifyPayload S r.hdr.payloadHdr r.context r.hdr.clientPk = 0 ∧
    eaComputeFinished S r.context r.hdr.clientPk r.hdr.payloadHdr r.evidence = r.finished ∧
    (0 < r.hdr.payloadHdr.evidenceLen.toNat → verifySevSnpReport r.host r.evidence
      (eaDeriveReportData S r.hdr.payloadHdr.binder.binding) = 0) := by
  simp only [attestOk]
  split_ifs <;> simp_all

theorem roundOutcome_stored_iff {n : Nat} {r : Round} :
    (∃ key, roundOutcome S n r = .stored key) ↔
      r.hdr.payloadHdr.evidenceLen.toNat ≤ maxReportLen ∧ attestOk S r ≠ 0 ∧ n < maxWorkers ∧
      (S.kxServerSessionKeys (S.kxPublic r.serverSk) r.serverSk r.hdr.clientPk).isSome := by
  simp only [roundOutcome]
  cases hkeys : S.kxServerSessionKeys (S.kxPublic r.serverSk) r.serverSk r.hdr.clientPk with
  | none =>
    split_ifs <;> simp
  | some keys =>
    simp only [Option.isSome_some, and_true]
    split_ifs with hlen hok hroom
    · simp only [exists_const, false_iff]
      exact fun h => hlen.not_ge h.1
    · simp [hok]
    · simp only [exists_const, false_iff]
      exact fun h => hroom.not_gt h.2.2
    · simp only [Outcome.stored.injEq, exists_eq', true_iff]
      exact ⟨Nat.le_of_not_gt hlen, hok, Nat.lt_of_not_le hroom⟩

theorem enrollment_concat (rounds : List Round) (r : Round) :
    enrollment S (rounds ++ [r]) = enrollRound S (enrollment S rounds) r := by
  simp [enrollment, List.foldl_append]

theorem enrollRound_rounds (m : Master) (r : Round) : (enrollRound S m r).rounds =
    if m.aborted then m.rounds else m.rounds ++ [(r, roundOutcome S m.wkey.length r)] := by
  simp only [enrollRound]
  split_ifs
  · rfl
  · split <;> rfl

/-- A round was run in the state its predecessors left, unless that was an abort. -/
theorem mem_rounds_iff {rounds : List Round} {r : Round} {o : Outcome} :
    (r, o) ∈ (enrollment S rounds).rounds ↔ ∃ before after, rounds = before ++ r :: after ∧
      (enrollment S before).aborted = false ∧
      o = roundOutcome S (enrollment S before).wkey.length r := by
  induction rounds using List.reverseRecOn with
  | nil => simp [enrollment]
  | append_singleton rounds x ih =>
    rw [enrollment_concat, enrollRound_rounds]
    constructor
    · intro hmem
      split_ifs at hmem with habort
      · obtain ⟨before, after, rfl, hrun, ho⟩ := ih.mp hmem
        exact ⟨before, after ++ [x], by simp, hrun, ho⟩
      · cases List.mem_append.mp hmem with
        | inl hmem =>
          obtain ⟨before, after, rfl, hrun, ho⟩ := ih.mp hmem
          exact ⟨before, after ++ [x], by simp, hrun, ho⟩
        | inr hmem =>
          obtain ⟨rfl, ho⟩ := Prod.mk.inj (List.mem_singleton.mp hmem)
          exact ⟨rounds, [], rfl, by simpa using habort, ho⟩
    · intro hex
      obtain ⟨before, after, heq, hrun, ho⟩ := hex
      cases List.eq_nil_or_concat after with
      | inl hnil =>
        subst hnil
        obtain ⟨rfl, hx⟩ := List.append_inj' heq rfl
        obtain rfl := List.singleton_inj.mp hx
        rw [if_neg (by simp [hrun]), ho]
        exact List.mem_append_right _ (List.mem_singleton.mpr rfl)
      | inr hcons =>
        obtain ⟨after, y, rfl⟩ := hcons
        rw [List.concat_eq_append, ← List.cons_append, ← List.append_assoc] at heq
        have hmem := ih.mpr ⟨before, after, (List.append_inj' heq rfl).1, hrun, ho⟩
        split_ifs
        · exact hmem
        · exact List.mem_append_left _ hmem

/-- A round the master stores is attested exactly when it is not free of evidence. -/
theorem stored_attested_iff {n : Nat} {r : Round} {key : Bytes}
    (h : roundOutcome S n r = .stored key) : Attested S r ↔ ¬EvidenceFree S r := by
  obtain ⟨_, hok, _, _⟩ := roundOutcome_stored_iff.mp ⟨key, h⟩
  obtain ⟨hpayload, hfinished, hreport⟩ := attestOk_ne_zero_iff.mp hok
  have hbinding := (verifyPayloadOf_eq_zero_iff.mp hpayload).binding_eq
  constructor
  · intro hattested hfree
    have := hattested.1
    rw [r.evidence_length, hfree.evidenceLen] at this
    exact Nat.lt_irrefl 0 this
  · intro hnot
    have hpos : 0 < r.hdr.payloadHdr.evidenceLen.toNat := by
      refine Nat.pos_of_ne_zero fun hzero => hnot ⟨hzero, hpayload, hfinished⟩
    refine ⟨by rwa [r.evidence_length], ?_⟩
    rw [hbinding]
    exact hreport hpos

/-- Every worker a run stores is attested exactly when no round of the run goes up to the
slot without evidence. -/
theorem enrolled_attested_iff (rounds : List Round) :
    (∀ r key, (r, .stored key) ∈ (enrollment S rounds).rounds → Attested S r) ↔
      ∀ before r after, rounds = before ++ r :: after →
        ¬StoresEvidenceFree S (enrollment S before) r := by
  constructor
  · intro hall before r after heq hstores
    have hok : attestOk S r ≠ 0 := by
      refine attestOk_ne_zero_iff.mpr ⟨hstores.free.payload, hstores.free.finished, ?_⟩
      intro hpos
      rw [hstores.free.evidenceLen] at hpos
      cases hpos
    obtain ⟨key, hkey⟩ := roundOutcome_stored_iff.mpr
      ⟨by rw [hstores.free.evidenceLen]; exact Nat.zero_le _, hok, hstores.room, hstores.keys⟩
    have hmem := mem_rounds_iff.mpr ⟨before, after, heq, hstores.running, hkey.symm⟩
    exact (stored_attested_iff hkey).mp (hall r key hmem) hstores.free
  · intro hnone r key hmem
    obtain ⟨before, after, heq, hrun, hkey⟩ := mem_rounds_iff.mp hmem
    obtain ⟨_, _, hroom, hkeys⟩ := roundOutcome_stored_iff.mp ⟨key, hkey.symm⟩
    exact (stored_attested_iff hkey.symm).mpr
      fun hfree => hnone before r after heq ⟨hrun, hroom, hkeys, hfree⟩

end

def bareRound : Round where
  context := [9]
  hdr := ⟨[7], 1, eaMediaType, 0, [7], [7, 9], eaExporterLabel⟩
  evidence := []
  finished := [9, 7] ++ [1, 0, 0, 0] ++ eaMediaType ++ [0, 0, 0, 0] ++ [7] ++ [7, 9] ++ eaExporterLabel
  host := ⟨fun _ => none, true, fun _ => .exited 1⟩
  serverSk := [5]
  evidence_length := rfl

theorem bareRound_stored_without_evidence :
    ¬∀ r key, (r, .stored key) ∈ (enrollment plainSodium [bareRound]).rounds →
      Attested plainSodium r := by
  intro hall
  have hstored : roundOutcome plainSodium 0 bareRound =
      .stored (appKey plainSodium [5, 7, 2]) := by decide +kernel
  have hmem : (bareRound, .stored (appKey plainSodium [5, 7, 2])) ∈
      (enrollment plainSodium [bareRound]).rounds :=
    mem_rounds_iff.mpr ⟨[], [], rfl, rfl, hstored.symm⟩
  exact absurd (hall _ _ hmem).1 (by decide)

end DistributedEnclave.Attest
