import DistributedEnclave.Atls.WorkerSettings
import DistributedEnclave.Chains
import DistributedEnclave.Cluster.SnpClaims
import DistributedEnclave.Outcome

/-! The launch measurement of a guest, the tool that computes it beforehand, and the verifier of the
head node that expects it. -/
namespace DistributedEnclave.Atls.Measurement
open Chains Cluster Octets Outcome

inductive SectionType where
  | snpSecMem | snpSecrets | cpuid | svsmCaa | snpKernelHashes | other (n : Nat)
  deriving DecidableEq

structure MetadataSection where
  gpa : UInt32
  size : UInt32
  type : SectionType

structure Machine where
  items : List MetadataSection
  ovmfHash : Bytes
  resetEIP : UInt32
  guestFeatures : UInt64
  vcpus : Int
  vcpuType : String

@[ext] structure Image where
  kernel : Bytes
  initrd : Bytes
  cmdline : Bytes
  deriving DecidableEq

structure SnpMeasure where
  Context : Type
  Vmsa : Type
  sha256 : Bytes → Bytes
  littleEndianBytes : Bytes → Bytes
  new : Bytes → Context
  updateZeroPages : Context → UInt64 → Nat → Except Nat Context
  updateSecretsPage : Context → UInt64 → Except Nat Context
  updateCpuidPage : Context → UInt64 → Except Nat Context
  updateNormalPages : Context → UInt64 → Bytes → Except Nat Context
  updateVmsaPage : Context → Bytes → Except Nat Context
  ld : Context → Bytes
  cpuSigs : String → Option UInt64
  newVmsa : UInt32 → UInt64 → UInt64 → Except Nat Vmsa
  pages : Vmsa → Int → Except Nat (List Bytes)

def tableHeaderGUID : String := "9438d606-4f22-4cc9-b479-a793d411fd21"
def kernelHashGUID : String := "4de79437-abd2-427f-b835-d5b172d2045b"
def initrdHashGUID : String := "44baf731-3a2f-4bd7-9af1-41e29169781d"
def cmdlineHashGUID : String := "97d02dd8-bd20-4c94-aa78-e7714d36ab2a"

def copied (n : Nat) (b : Bytes) : Bytes := (b ++ List.replicate n 0).take n

def putUint16LE (v : Nat) : Bytes := [UInt8.ofNat v, UInt8.ofNat (v/256)]

section Digest
variable (lib : SnpMeasure)

def guidLE (s : String) : Bytes :=
  copied 16 (lib.littleEndianBytes
    (copied 16 ((parsePairs ((chars s).filter (· ≠ '-'.toUInt8))).getD [])))

def entrySize : Nat := 50

def hashField (data : Bytes) : Bytes :=
  copied 32 (if data.length > 0 then lib.sha256 data else [])

def hashEntry (guidStr : String) (data : Bytes) : Bytes :=
  guidLE lib guidStr ++ putUint16LE entrySize ++ hashField lib data

inductive MeasureError where
  | hashesTooLarge | unhandledSection (type : SectionType) | update (code : Nat)
  | unknownVcpuType | buildVMSA (code : Nat) | vmsaPages (code : Nat) | updateVMSA (code : Nat)
  | unreadable (code : Nat) | needsKernel | unexpectedLength

/-- The command line as it is hashed, with its NUL. -/
def Image.cmdlineBytes (image : Image) : Bytes :=
  if image.cmdline ≠ [] then image.cmdline ++ [0] else []

def entries (image : Image) : Bytes :=
  hashEntry lib cmdlineHashGUID image.cmdlineBytes ++ hashEntry lib initrdHashGUID image.initrd ++
    hashEntry lib kernelHashGUID image.kernel

def blob (image : Image) : Bytes :=
  entries lib image ++ putUint16LE ((entries lib image).length+2+16) ++ guidLE lib tableHeaderGUID

def kernelHashesPage (image : Image) (pageSize : Nat) : Except MeasureError Bytes :=
  if (blob lib image).length > pageSize then .error .hashesTooLarge
  else .ok (List.replicate (pageSize - (blob lib image).length) 0 ++ blob lib image)

def hashesPage (image : Image) (size : Nat) : Except MeasureError Bytes :=
  if image.kernel.length > 0 then kernelHashesPage lib image size else .ok (List.replicate size 0)

/-- One round of the loop of `launchDigest`. -/
def measureSection (image : Image) (ctx : lib.Context) (desc : MetadataSection) :
    Except MeasureError lib.Context :=
  let gpa := UInt64.ofNat desc.gpa.toNat
  let size := desc.size.toNat
  match desc.type with
  | .snpSecMem => (lib.updateZeroPages ctx gpa size).mapError .update
  | .snpSecrets => (lib.updateSecretsPage ctx gpa).mapError .update
  | .cpuid => (lib.updateCpuidPage ctx gpa).mapError .update
  | .svsmCaa => (lib.updateZeroPages ctx gpa size).mapError .update
  | .snpKernelHashes => do
    let page ← hashesPage lib image size
    (lib.updateNormalPages ctx gpa page).mapError .update
  | .other n => .error (.unhandledSection (.other n))

def measureVMSA (ctx : lib.Context) (page : Bytes) : Except MeasureError lib.Context :=
  (lib.updateVmsaPage ctx page).mapError .updateVMSA

def vmsa (m : Machine) : Except MeasureError (List Bytes) :=
  match lib.cpuSigs m.vcpuType with
  | none => .error .unknownVcpuType
  | some cpuSig => do
    let vmsaObj ← (lib.newVmsa m.resetEIP m.guestFeatures cpuSig).mapError .buildVMSA
    (lib.pages vmsaObj m.vcpus).mapError .vmsaPages

def launchDigest (m : Machine) (image : Image) : Except MeasureError Bytes := do
  let ctx ← m.items.foldlM (measureSection lib image) (lib.new m.ovmfHash)
  let pages ← vmsa lib m
  let ctx ← pages.foldlM (measureVMSA lib) ctx
  pure (lib.ld ctx)

structure Flags where
  kernelPath : Bytes
  initrdPath : Bytes
  appendStr : Bytes

def readNamed (readFile : Bytes → Except Nat Bytes) (path : Bytes) : Except MeasureError Bytes :=
  if path ≠ [] then (readFile path).mapError .unreadable else .ok []

def readImage (readFile : Bytes → Except Nat Bytes) (flags : Flags) :
    Except MeasureError Image := do
  let kernelData ← readNamed readFile flags.kernelPath
  let initrdData ← readNamed readFile flags.initrdPath
  pure ⟨kernelData, initrdData, flags.appendStr⟩

/-- `main` of the tool, behind the reading of the firmware, and what it prints. -/
def computeMeasurement (m : Machine) (readFile : Bytes → Except Nat Bytes) (flags : Flags) :
    Except MeasureError Bytes := do
  let image ← readImage readFile flags
  if image.kernel.length = 0 ∧ (flags.initrdPath ≠ [] ∨ flags.appendStr ≠ []) then
    .error .needsKernel
  else
    let measurement ← launchDigest lib m image
    if measurement.length ≠ 48 then .error .unexpectedLength
    else .ok (bytesToHex measurement ++ [10])

end Digest

section Alike
variable {lib : SnpMeasure} {m : Machine} {image image' : Image}

@[simp] theorem copied_length (n : Nat) (b : Bytes) : (copied n b).length = n := by
  rw [copied, List.length_take, List.length_append, List.length_replicate]
  omega

@[simp] theorem guidLE_length (s : String) : (guidLE lib s).length = 16 := copied_length 16 _

@[simp] theorem hashField_length (data : Bytes) : (hashField lib data).length = 32 :=
  copied_length 32 _

@[simp] theorem hashEntry_length (guidStr : String) (data : Bytes) :
    (hashEntry lib guidStr data).length = entrySize := by
  simp [hashEntry, putUint16LE, entrySize]

theorem entries_length : (entries lib image).length = 150 := by
  simp [entries, entrySize]

theorem blob_length : (blob lib image).length = 168 := by
  simp [blob, entries_length, putUint16LE]

theorem hashEntry_inj {guidStr : String} {a b : Bytes}
    (h : hashEntry lib guidStr a = hashEntry lib guidStr b) : hashField lib a = hashField lib b :=
  List.append_cancel_left h

/-- The hashes that a blob holds. -/
theorem blob_inj (h : blob lib image = blob lib image') :
    hashField lib image.cmdlineBytes = hashField lib image'.cmdlineBytes ∧
      hashField lib image.initrd = hashField lib image'.initrd ∧
      hashField lib image.kernel = hashField lib image'.kernel := by
  rw [blob, blob, entries_length, entries_length] at h
  have hentries := List.append_cancel_right (List.append_cancel_right h)
  rw [entries, entries] at hentries
  obtain ⟨hfront, hkernel⟩ := List.append_inj' hentries (by simp)
  obtain ⟨hcmdline, hinitrd⟩ := List.append_inj' hfront (by simp)
  exact ⟨hashEntry_inj hcmdline, hashEntry_inj hinitrd, hashEntry_inj hkernel⟩

/-- A page of zeros holds no blob. -/
theorem blob_not_zeros {k n : Nat} : List.replicate k 0 ++ blob lib image ≠ List.replicate n 0 := by
  intro h
  have hmem : UInt8.ofNat 168 ∈ List.replicate k 0 ++ blob lib image := by
    rw [blob, entries_length, putUint16LE]
    simp
  rw [h] at hmem
  exact absurd (List.eq_of_mem_replicate hmem) (by decide)

/-- The guests boot the same, or both boot no kernel of ours. -/
def Image.Alike (image image' : Image) : Prop :=
  image.kernel = [] ∧ image'.kernel = [] ∨ image = image'

def Image.inputs (image image' : Image) : List (Bytes × Bytes) :=
  [(image.cmdlineBytes, image'.cmdlineBytes), (image.initrd, image'.initrd),
    (image.kernel, image'.kernel)]

theorem cmdlineBytes_inj (h : image.cmdlineBytes = image'.cmdlineBytes) :
    image.cmdline = image'.cmdline := by
  rw [Image.cmdlineBytes, Image.cmdlineBytes] at h
  split at h
  · split at h
    · exact List.append_cancel_right h
    · exact absurd h (by simp)
  · rename_i hempty
    split at h
    · exact absurd h (by simp)
    · rename_i hempty'
      rw [not_not.mp hempty, not_not.mp hempty']

/-- Equal pages are for guests that boot the same, or two inputs have one hash. -/
theorem hashesPage_alike {n : Nat} {p : Bytes} (h : hashesPage lib image n = .ok p)
    (h' : hashesPage lib image' n = .ok p) : image.Alike image' ∨
      ∃ a b, (a, b) ∈ image.inputs image' ∧ a ≠ b ∧ hashField lib a = hashField lib b := by
  have hblob : ∀ {image : Image}, image.kernel.length > 0 → hashesPage lib image n = .ok p →
      p = List.replicate (n-168) 0 ++ blob lib image := by
    intro image hkernel h
    rw [hashesPage, if_pos hkernel, kernelHashesPage, blob_length] at h
    split at h
    · cases h
    · exact (Except.ok.inj h).symm
  have hzeros : ∀ {image : Image}, ¬image.kernel.length > 0 → hashesPage lib image n = .ok p →
      p = List.replicate n 0 := by
    intro image hkernel h
    rw [hashesPage, if_neg hkernel] at h
    exact (Except.ok.inj h).symm
  have hempty : ∀ {image : Image}, ¬image.kernel.length > 0 → image.kernel = [] := by
    intro image hkernel
    exact List.eq_nil_of_length_eq_zero (by omega)
  by_cases hk : image.kernel.length > 0
  · by_cases hk' : image'.kernel.length > 0
    · have hpages := (hblob hk h).symm.trans (hblob hk' h')
      obtain ⟨hcmdline, hinitrd, hkernel⟩ := blob_inj (List.append_cancel_left hpages)
      by_cases hall : ∀ a b, (a, b) ∈ image.inputs image' → a = b
      · have hsame : image.cmdline = image'.cmdline :=
          cmdlineBytes_inj (hall _ _ List.mem_cons_self)
        have hsame' : image.initrd = image'.initrd := hall _ _ (by simp [Image.inputs])
        have hsame'' : image.kernel = image'.kernel := hall _ _ (by simp [Image.inputs])
        exact .inl (.inr (Image.ext hsame'' hsame' hsame))
      · push Not at hall
        obtain ⟨a, b, hmem, hne⟩ := hall
        refine .inr ⟨a, b, hmem, hne, ?_⟩
        simp only [Image.inputs, List.mem_cons, Prod.mk.injEq, List.not_mem_nil, or_false] at hmem
        obtain ⟨rfl, rfl⟩ | ⟨rfl, rfl⟩ | ⟨rfl, rfl⟩ := hmem
        · exact hcmdline
        · exact hinitrd
        · exact hkernel
    · exact absurd ((hblob hk h).symm.trans (hzeros hk' h')) blob_not_zeros
  · by_cases hk' : image'.kernel.length > 0
    · exact absurd ((hblob hk' h').symm.trans (hzeros hk h)) blob_not_zeros
    · exact .inl (.inl ⟨hempty hk, hempty hk'⟩)

structure Measured (lib : SnpMeasure) (m : Machine) (image : Image) (pages : List Bytes)
    (ctx last : lib.Context) : Prop where
  sections : m.items.foldlM (measureSection lib image) (lib.new m.ovmfHash) = .ok ctx
  saveAreas : vmsa lib m = .ok pages
  processors : pages.foldlM (measureVMSA lib) ctx = .ok last

theorem launchDigest_ok {digest : Bytes} : launchDigest lib m image = .ok digest ↔
    ∃ pages ctx last, Measured lib m image pages ctx last ∧ lib.ld last = digest := by
  simp only [launchDigest, bind_eq_ok, pure_eq_ok, Except.ok.injEq]
  constructor
  · intro h
    obtain ⟨ctx, hsections, pages, hpages, last, hlast, hdigest⟩ := h
    exact ⟨pages, ctx, last, ⟨hsections, hpages, hlast⟩, hdigest⟩
  · intro h
    obtain ⟨pages, ctx, last, ⟨hsections, hpages, hlast⟩, hdigest⟩ := h
    exact ⟨ctx, hsections, pages, hpages, last, hlast, hdigest⟩

/-- Two different inputs of the two computations that a hash has taken to one value. -/
inductive Collision (lib : SnpMeasure) (m : Machine) (image image' : Image) : Prop
  | data {a b} (hinputs : (a, b) ∈ image.inputs image') (hne : a ≠ b)
    (h : hashField lib a = hashField lib b)
  | update {x a a' b} (h : Merge (measureSection lib image) (measureSection lib image')
      (lib.new m.ovmfHash) (lib.new m.ovmfHash) m.items x a a' b) (hne : a ≠ a')
  | page {x a b p p'} (h : Merge (measureSection lib image) (measureSection lib image')
      (lib.new m.ovmfHash) (lib.new m.ovmfHash) m.items x a a b)
    (hpage : hashesPage lib image x.size.toNat = .ok p)
    (hpage' : hashesPage lib image' x.size.toNat = .ok p') (hne : p ≠ p')
  | processor {pages ctx ctx' last last' x a a' b} (h : Measured lib m image pages ctx last)
    (h' : Measured lib m image' pages ctx' last')
    (hmerge : Merge (measureVMSA lib) (measureVMSA lib) ctx ctx' pages x a a' b) (hne : a ≠ a')
  | digest {pages ctx ctx' last last'} (h : Measured lib m image pages ctx last)
    (h' : Measured lib m image' pages ctx' last') (hne : last ≠ last')
    (hld : lib.ld last = lib.ld last')

def Machine.MeasuresKernel (m : Machine) : Prop := ∃ x ∈ m.items, x.type = .snpKernelHashes

theorem measureSection_hashes {ctx b : lib.Context} {x : MetadataSection}
    (hx : x.type = .snpKernelHashes) (h : measureSection lib image ctx x = .ok b) :
    ∃ p, hashesPage lib image x.size.toNat = .ok p := by
  simp only [measureSection, hx, bind_eq_ok] at h
  obtain ⟨p, hp, _⟩ := h
  exact ⟨p, hp⟩

/-- One measurement is of one kernel with its initrd and command line, as far as no hash collides. -/
theorem alike_of_digest {digest : Bytes} (hm : m.MeasuresKernel)
    (h : launchDigest lib m image = .ok digest) (h' : launchDigest lib m image' = .ok digest) :
    image.Alike image' ∨ Collision lib m image image' := by
  obtain ⟨pages, ctx, last, hrun, hld⟩ := launchDigest_ok.mp h
  obtain ⟨pages', ctx', last', hrun', hld'⟩ := launchDigest_ok.mp h'
  have hpages : pages' = pages := Except.ok.inj (hrun'.saveAreas.symm.trans hrun.saveAreas)
  subst hpages
  by_cases hlast : last = last'
  · subst hlast
    cases alike_or_merge hrun.processors hrun'.processors with
    | inr hmerge =>
      obtain ⟨x, a, a', b, hmerge, hne⟩ := hmerge
      exact .inr (.processor hrun hrun' hmerge hne)
    | inl hsame =>
      obtain ⟨rfl, _⟩ := hsame
      cases alike_or_merge hrun.sections hrun'.sections with
      | inr hmerge =>
        obtain ⟨x, a, a', b, hmerge, hne⟩ := hmerge
        exact .inr (.update hmerge hne)
      | inl hsame =>
        obtain ⟨x, hx, htype⟩ := hm
        obtain ⟨a, b, hmerge⟩ := hsame.2 x hx
        obtain ⟨p, hp⟩ := measureSection_hashes htype hmerge.left
        obtain ⟨p', hp'⟩ := measureSection_hashes htype hmerge.right
        by_cases hpage : p = p'
        · subst hpage
          cases hashesPage_alike hp hp' with
          | inl halike => exact .inl halike
          | inr hdata =>
            obtain ⟨c, c', hmem, hne, hhash⟩ := hdata
            exact .inr (.data hmem hne hhash)
        · exact .inr (.page hmerge hp hp' hpage)
  · exact .inr (.digest hrun hrun' hlast (hld.trans hld'.symm))

theorem digest_of_alike (h : image.Alike image') :
    launchDigest lib m image = launchDigest lib m image' := by
  cases h with
  | inr heq => rw [heq]
  | inl hempty =>
    have hpage : hashesPage lib image = hashesPage lib image' := by
      funext n
      rw [hashesPage, hashesPage, hempty.1, hempty.2]
      rfl
    have hsection : measureSection lib image = measureSection lib image' := by
      funext ctx x
      rw [measureSection, measureSection, hpage]
    rw [launchDigest, launchDigest, hsection]

end Alike

section Verifier
open WorkerSettings

def decodeString (t : Text) : Option Bytes :=
  if t.all (fun c => c.toNat < 128) then parsePairs (t.map Char.toUInt8) else none

/-- `strings.EqualFold` for a text without letters that fold to others than their two cases. -/
def equalFold (t : Text) (s : String) : Bool := t.map Char.toLower = s.toList

structure SNPEvidenceVerifier where
  skipVerification : Bool
  allowDummy : Bool
  expectedMeasurement : Option Bytes

inductive ConfigError where
  | expectedMeasurement (m : Text)

/-- `expectedMeasurement` of `main` -/
def parseExpectedMeasurement (env : Text) : Except ConfigError (Option Bytes) :=
  let m := trimSpace env
  if m = [] then .ok none
  else
    match decodeString m with
    | none => .error (.expectedMeasurement m)
    | some b => if b.length ≠ 48 then .error (.expectedMeasurement m) else .ok (some b)

/-- The verifier that `main` of the head node sets up. -/
def SNPEvidenceVerifier.fromEnv (getenv : String → Text) :
    Except ConfigError SNPEvidenceVerifier := do
  let expected ← parseExpectedMeasurement (getenv "FORT_EXPECTED_MEASUREMENT")
  pure ⟨equalFold (getenv "FORT_SKIP_SNP_VERIFY") "true",
    equalFold (getenv "FORT_ALLOW_DUMMY") "true", expected⟩

structure Report where
  measurement : Bytes
  reportData : Bytes

structure ValidateOptions where
  reportData : Bytes
  smt : Bool
  measurement : Option Bytes

structure SevGuest where
  Attestation : Type
  unmarshal : Bytes → Except Nat Attestation
  getReport : Attestation → Option Report
  verify : Attestation → Except Nat Unit
  validate : Attestation → ValidateOptions → Except Nat Unit

inductive EvidenceError where
  | notAttestation (code : Nat) | noReport | signatureChain (code : Nat) | validation (code : Nat)

def SNPEvidenceVerifier.verifyEvidence (guest : SevGuest) (v : SNPEvidenceVerifier)
    (evidence expectedReportData : Bytes) : Except EvidenceError Unit :=
  match guest.unmarshal evidence with
  | .error code => if v.allowDummy then .ok () else .error (.notAttestation code)
  | .ok att =>
    match guest.getReport att with
    | none => .error .noReport
    | some _ => do
      if !v.skipVerification then (guest.verify att).mapError .signatureChain
      (guest.validate att ⟨expectedReportData, true, v.expectedMeasurement⟩).mapError .validation

/-- What the shell puts in the place of a command: its output without the newlines at the end. -/
def substituted (output : Bytes) : Text :=
  (output.reverse.dropWhile (· = 10)).reverse.map fun c => Char.ofNat c.toNat

variable {guest : SevGuest}

/-- `validate.SnpAttestation` compares the fields that are named; `permits` is what else it asks. -/
structure Validates (guest : SevGuest) (permits : guest.Attestation → Bool → Prop) : Prop where
  fields : ∀ att report opts, guest.getReport att = some report →
    (guest.validate att opts = .ok () ↔ report.reportData = opts.reportData ∧
      (∀ b, opts.measurement = some b → report.measurement = b) ∧ permits att opts.smt)

/-- Evidence with a report under AMD's keys for the connection at hand. -/
structure Presents (guest : SevGuest) (permits : guest.Attestation → Bool → Prop)
    (evidence reportData : Bytes) (att : guest.Attestation) (report : Report) : Prop where
  unmarshal : guest.unmarshal evidence = .ok att
  getReport : guest.getReport att = some report
  verify : guest.verify att = .ok ()
  reportData : report.reportData = reportData
  permits : permits att true

/-- A verifier without exceptions takes exactly the reports with the measurement it expects. -/
theorem verifyEvidence_ok {permits : guest.Attestation → Bool → Prop}
    (hvalidates : Validates guest permits) (m evidence reportData : Bytes) :
    SNPEvidenceVerifier.verifyEvidence guest ⟨false, false, some m⟩ evidence reportData = .ok () ↔
      ∃ att report, Presents guest permits evidence reportData att report ∧
        report.measurement = m := by
  rw [SNPEvidenceVerifier.verifyEvidence]
  constructor
  · intro h
    split at h
    · cases h
    · rename_i att hatt
      split at h
      · cases h
      · rename_i report hreport
        simp only [Bool.not_false, if_true, bind_eq_ok, mapError_ok] at h
        obtain ⟨_, hverify, hvalidate⟩ := h
        obtain ⟨hdata, hmeasurement, hpermits⟩ :=
          (hvalidates.fields att report _ hreport).mp hvalidate
        exact ⟨att, report, ⟨hatt, hreport, hverify, hdata, hpermits⟩, hmeasurement m rfl⟩
  · intro h
    obtain ⟨att, report, hpresents, hmeasurement⟩ := h
    have hvalidate : guest.validate att ⟨reportData, true, some m⟩ = .ok () := by
      refine (hvalidates.fields att report _ hpresents.getReport).mpr
        ⟨hpresents.reportData, fun b hb => ?_, hpresents.permits⟩
      rw [hmeasurement]
      exact Option.some.inj hb
    simp only [hpresents.unmarshal, hpresents.getReport, Bool.not_false, if_true, bind_eq_ok,
      mapError_ok]
    exact ⟨(), hpresents.verify, hvalidate⟩

theorem digit_char {c : UInt8} (h : Hex.isDigit c = true) : c ≠ 10 ∧
    isSpace (Char.ofNat c.toNat) = false ∧ Char.ofNat c.toNat ≠ '=' ∧
    (Char.ofNat c.toNat).toNat < 128 := by
  have hall : ∀ c, Hex.isDigit c = true → c ≠ 10 ∧ isSpace (Char.ofNat c.toNat) = false ∧
      Char.ofNat c.toNat ≠ '=' ∧ (Char.ofNat c.toNat).toNat < 128 :=
    Hex.forall_octet (by decide +kernel)
  exact hall c h

/-- The head node reads the measurement that the tool has printed. -/
theorem parseExpectedMeasurement_substituted {m : Bytes} (h : m.length = 48) :
    parseExpectedMeasurement (substituted (bytesToHex m ++ [10])) = .ok (some m) := by
  obtain ⟨hlength, hdigits⟩ := bytesToHex_denotes m
  have houtput : substituted (bytesToHex m ++ [10]) =
      (bytesToHex m).map fun c => Char.ofNat c.toNat := by
    have hstop : (bytesToHex m).reverse.dropWhile (· = 10) = (bytesToHex m).reverse := by
      rw [List.dropWhile_eq_self_iff]
      intro hpos heq
      have hmem : (bytesToHex m).reverse.get ⟨0, hpos⟩ ∈ (bytesToHex m).reverse :=
        List.get_mem _ _
      exact (digit_char (hdigits _ (List.mem_reverse.mp hmem))).1 (of_decide_eq_true heq)
    rw [substituted, List.reverse_append, List.reverse_singleton, List.singleton_append,
      List.dropWhile_cons_of_pos (by rfl), hstop, List.reverse_reverse]
  have hplain : PlainText ((bytesToHex m).map fun c => Char.ofNat c.toNat) := by
    intro c hc
    obtain ⟨d, hd, rfl⟩ := List.mem_map.mp hc
    exact ⟨(digit_char (hdigits d hd)).2.1, (digit_char (hdigits d hd)).2.2.1⟩
  have hne : (bytesToHex m).map (fun c => Char.ofNat c.toNat) ≠ [] := by
    intro hnil
    rw [List.map_eq_nil_iff.mp hnil, h] at hlength
    cases hlength
  have hascii : ((bytesToHex m).map fun c => Char.ofNat c.toNat).all (fun c => c.toNat < 128) =
      true := by
    rw [List.all_eq_true]
    intro c hc
    obtain ⟨d, hd, rfl⟩ := List.mem_map.mp hc
    exact decide_eq_true (digit_char (hdigits d hd)).2.2.2
  have hback : ((bytesToHex m).map fun c => Char.ofNat c.toNat).map Char.toUInt8 =
      bytesToHex m := by
    rw [List.map_map]
    exact (List.map_congr_left fun c _ => toUInt8_ofNat c).trans (List.map_id _)
  have hdecode : decodeString ((bytesToHex m).map fun c => Char.ofNat c.toNat) = some m := by
    rw [decodeString, if_pos hascii, hback, parsePairs_eq hlength hdigits, octets_bytesToHex]
  rw [houtput, parseExpectedMeasurement, trimSpace_plain hplain, if_neg hne, hdecode]
  exact if_neg (not_not.mpr h)

/-- A head node that expects what the tool has printed takes evidence only of guests that boot what
was measured, unless a hash collides, and takes the evidence of every such guest. -/
theorem only_measured_images {lib : SnpMeasure} {m : Machine}
    {readFile : Bytes → Except Nat Bytes} {flags : Flags} {image : Image} {output : Bytes}
    (hm : m.MeasuresKernel) (hread : readImage readFile flags = .ok image)
    (htool : computeMeasurement lib m readFile flags = .ok output) {getenv : String → Text}
    (hexpected : getenv "FORT_EXPECTED_MEASUREMENT" = substituted output)
    (hskip : equalFold (getenv "FORT_SKIP_SNP_VERIFY") "true" = false)
    (hdummy : equalFold (getenv "FORT_ALLOW_DUMMY") "true" = false)
    {permits : guest.Attestation → Bool → Prop} (hvalidates : Validates guest permits) :
    ∃ v, SNPEvidenceVerifier.fromEnv getenv = .ok v ∧ ∀ evidence reportData,
      (v.verifyEvidence guest evidence reportData = .ok () →
        ∃ att report, Presents guest permits evidence reportData att report ∧
          ∀ image', launchDigest lib m image' = .ok report.measurement →
            image.Alike image' ∨ Collision lib m image image') ∧
      ∀ att report image', Presents guest permits evidence reportData att report →
        launchDigest lib m image' = .ok report.measurement → image.Alike image' →
        v.verifyEvidence guest evidence reportData = .ok () := by
  rw [computeMeasurement, hread, ok_bind, guard_eq_ok] at htool
  simp only [bind_eq_ok, guard_eq_ok, not_not, Except.ok.injEq] at htool
  obtain ⟨_, measurement, hdigest, hlength, rfl⟩ := htool
  have hparsed := parseExpectedMeasurement_substituted hlength
  refine ⟨⟨false, false, some measurement⟩, ?_, fun evidence reportData => ⟨fun h => ?_, ?_⟩⟩
  · rw [SNPEvidenceVerifier.fromEnv, hexpected, hparsed, hskip, hdummy]
    rfl
  · obtain ⟨att, report, hpresents, hmeasurement⟩ := (verifyEvidence_ok hvalidates _ _ _).mp h
    refine ⟨att, report, hpresents, fun image' hdigest' => ?_⟩
    rw [hmeasurement] at hdigest'
    exact alike_of_digest hm hdigest hdigest'
  · intro att report image' hpresents hdigest' halike
    rw [← digest_of_alike halike, hdigest] at hdigest'
    exact (verifyEvidence_ok hvalidates _ _ _).mpr
      ⟨att, report, hpresents, (Except.ok.inj hdigest').symm⟩

def frontMeasure : SnpMeasure where
  Context := Bytes
  Vmsa := Unit
  sha256 b := b
  littleEndianBytes b := b
  new b := b
  updateZeroPages ctx _ _ := .ok ctx
  updateSecretsPage ctx _ := .ok ctx
  updateCpuidPage ctx _ := .ok ctx
  updateNormalPages ctx _ page := .ok (ctx ++ page)
  updateVmsaPage ctx page := .ok (ctx ++ page)
  ld ctx := copied 48 ((ctx.drop 18).take 32)
  cpuSigs _ := some 0
  newVmsa _ _ _ := .ok ()
  pages _ _ := .ok []

def smallMachine : Machine := ⟨[⟨0, 168, .snpKernelHashes⟩], [], 0, 1, 1, "EPYC-v4"⟩

def smallImage : Image := ⟨[0x4B], [], chars "rw"⟩

def smallFlags : Flags := ⟨chars "bzImage", [], chars "rw"⟩

def smallFiles (_ : Bytes) : Except Nat Bytes := .ok [0x4B]

def plainGuest : SevGuest where
  Attestation := Report
  unmarshal b := .ok ⟨copied 48 (chars "rw"), b⟩
  getReport att := some att
  verify _ := .ok ()
  validate att opts :=
    if att.reportData = opts.reportData ∧ ∀ b ∈ opts.measurement, att.measurement = b then .ok ()
    else .error 0

def smallEnv (name : String) : Text :=
  if name = "FORT_EXPECTED_MEASUREMENT" then
    substituted (bytesToHex (copied 48 (chars "rw")) ++ [10])
  else []

set_option maxRecDepth 4000 in
theorem small_image_taken : ∃ v, SNPEvidenceVerifier.fromEnv smallEnv = .ok v ∧
    v.verifyEvidence plainGuest [1] [1] = .ok () := by
  have hdigest : launchDigest frontMeasure smallMachine smallImage =
      .ok (copied 48 (chars "rw")) := rfl
  have hread : readImage smallFiles smallFlags = .ok smallImage := rfl
  have htool : computeMeasurement frontMeasure smallMachine smallFiles smallFlags =
      .ok (bytesToHex (copied 48 (chars "rw")) ++ [10]) := by
    have hlength : ¬(copied 48 (chars "rw")).length ≠ 48 := not_not.mpr (copied_length 48 _)
    rw [computeMeasurement, hread, ok_bind, if_neg (by decide), hdigest, ok_bind, if_neg hlength]
  have hexpected : smallEnv "FORT_EXPECTED_MEASUREMENT" =
      substituted (bytesToHex (copied 48 (chars "rw")) ++ [10]) := if_pos rfl
  have hvalidates : Validates plainGuest fun _ _ => True := by
    refine ⟨fun att report opts hreport => ?_⟩
    cases hreport
    change (if att.reportData = opts.reportData ∧ ∀ b ∈ opts.measurement, att.measurement = b
      then .ok () else .error 0 : Except Nat Unit) = .ok () ↔ _
    by_cases h : att.reportData = opts.reportData ∧ ∀ b ∈ opts.measurement, att.measurement = b
    · rw [if_pos h]
      exact iff_of_true rfl ⟨h.1, h.2, trivial⟩
    · rw [if_neg h]
      exact iff_of_false (by simp) fun hall => h ⟨hall.1, hall.2.1⟩
  obtain ⟨v, hv, hverifies⟩ := only_measured_images ⟨_, List.mem_cons_self, rfl⟩ hread htool
    hexpected (by decide) (by decide) hvalidates
  exact ⟨v, hv, (hverifies [1] [1]).2 ⟨copied 48 (chars "rw"), [1]⟩ _ smallImage
    ⟨rfl, rfl, rfl, rfl, trivial⟩ hdigest (.inr rfl)⟩

end Verifier

end DistributedEnclave.Atls.Measurement
