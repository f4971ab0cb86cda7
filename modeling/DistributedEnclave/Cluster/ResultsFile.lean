import DistributedEnclave.Cluster.Primitives
import DistributedEnclave.Stdio
import DistributedEnclave.Transition
import Mathlib.Data.Nat.Digits.Defs

/-! How the masters publish a file: it is written under another name and renamed when it is
whole. For the results every call is checked, for the port of the master only two are. -/
namespace DistributedEnclave.Cluster
open Files Octets Transition

def decimal (n : Nat) : Bytes := (Nat.digits 10 n).reverse.map (fun d => UInt8.ofNat (48+d))

theorem slash_notMem_decimal (n : Nat) : '/'.toUInt8 ∉ decimal n := by
  intro hmem
  obtain ⟨d, hd, heq⟩ := List.mem_map.mp hmem
  have hlt : d < 10 := Nat.digits_lt_base (by decide) (List.mem_reverse.mp hd)
  have hvalue := congrArg UInt8.toNat heq
  rw [UInt8.toNat_ofNat_of_lt' (by rw [UInt8.size]; omega)] at hvalue
  have hslash : '/'.toUInt8.toNat = 47 := by decide
  omega

section Results

def csvTmpSize : Nat := 4096

def tmpSuffix (pid : Nat) : Bytes := chars ".tmp." ++ decimal pid

def csvTmp (csvFile : Bytes) (pid : Nat) : Bytes := csvFile ++ tmpSuffix pid

inductive OutputStage where
  | naming
  | opening
  | printing (rest : List Bytes)
  | flushing
  | syncing
  | closing
  | renaming
  | removing
  | finalizing (outputOk : Bool)
  | returned (status : Nat)
  | ended (outputOk : Bool) (status : Nat)

@[simp] def OutputStage.replaced : OutputStage → Bool
  | .finalizing outputOk | .ended outputOk _ => outputOk
  | .returned status => status = 0
  | _ => false

structure Output (Dir : Type*) where
  fs : FileSystem (Dir × Bytes)
  stage : OutputStage := .naming
  csv : Option (Dir × Bytes) := none
  stream : Stream := {}
  outputError : Bool := false

variable {Dir : Type*} [DecidableEq Dir]

/-- One call of the output, or one `write` underneath it. Any call may fail, and
`npb_mpi_finalize` may end the process: with 124 when its deadline expires, with 2 when the
deadline cannot be set, or by MPI. -/
inductive OutputStep (lookup : Bytes → Option Dir) (follow : Dir × Bytes → Option (Dir × Bytes))
    (csvFile : Bytes) (pid : Nat) (lines : List Bytes) : Output Dir → Output Dir → Prop
  | tooLong {s} (hstage : s.stage = .naming) (h : csvTmpSize ≤ (csvTmp csvFile pid).length) :
    OutputStep _ _ _ _ _ s { s with stage := .finalizing false }
  | named {s} (hstage : s.stage = .naming) (h : (csvTmp csvFile pid).length < csvTmpSize) :
    OutputStep _ _ _ _ _ s { s with stage := .opening }
  | notOpened {s} (hstage : s.stage = .opening) :
    OutputStep _ _ _ _ _ s { s with stage := .finalizing false }
  | opened {s e fs} (hstage : s.stage = .opening)
    (h : openTruncate (entryOf lookup) follow s.fs (csvTmp csvFile pid) = some (e, fs)) :
    OutputStep _ _ _ _ _ s { s with fs := fs, stage := .printing lines, csv := some e }
  | write {s e fs stream} (hstage : (∃ rest, s.stage = .printing rest) ∨ s.stage = .flushing ∨
      s.stage = .closing) (hcsv : s.csv = some e) (h : Write e (s.fs, s.stream) (fs, stream)) :
    OutputStep _ _ _ _ _ s { s with fs := fs, stream := stream }
  | print {s line rest} (hstage : s.stage = .printing (line :: rest)) :
    OutputStep _ _ _ _ _ s { s with stage := .printing rest, stream := s.stream.print line }
  | printed {s} (hstage : s.stage = .printing []) :
    OutputStep _ _ _ _ _ s { s with stage := .flushing, outputError := s.stream.error }
  | flushed {s} (hstage : s.stage = .flushing) (hpending : s.stream.pending = [])
    (h : s.stream.error = s.outputError) :
    OutputStep _ _ _ _ _ s { s with stage := .syncing }
  | notFlushed {s} (hstage : s.stage = .flushing) (h : s.stream.error = true) :
    OutputStep _ _ _ _ _ s { s with stage := .syncing, outputError := true }
  | synced {s failed} (hstage : s.stage = .syncing) :
    OutputStep _ _ _ _ _ s { s with stage := .closing, outputError := s.outputError || failed }
  | closed {s failed} (hstage : s.stage = .closing) :
    OutputStep _ _ _ _ _ s { s with stage := .renaming, outputError := s.outputError || failed }
  | renamed {s old new} (hstage : s.stage = .renaming) (h : s.outputError = false)
    (hold : entryOf lookup (csvTmp csvFile pid) = some old)
    (hnew : entryOf lookup csvFile = some new) :
    OutputStep _ _ _ _ _ s { s with fs := rename s.fs old new, stage := .finalizing true }
  | notRenamed {s} (hstage : s.stage = .renaming) :
    OutputStep _ _ _ _ _ s { s with stage := .removing }
  | removed {s fs} (hstage : s.stage = .removing)
    (h : fs = s.fs ∨ fs = unlink (entryOf lookup) s.fs (csvTmp csvFile pid)) :
    OutputStep _ _ _ _ _ s { s with fs := fs, stage := .finalizing false }
  | finalized {s outputOk} (hstage : s.stage = .finalizing outputOk) :
    OutputStep _ _ _ _ _ s { s with stage := .returned (if outputOk then 0 else 1) }
  | ended {s outputOk status} (hstage : s.stage = .finalizing outputOk) (h : status ≠ 0) :
    OutputStep _ _ _ _ _ s { s with stage := .ended outputOk status }

variable {lookup : Bytes → Option Dir} {follow : Dir × Bytes → Option (Dir × Bytes)}
  {csvFile : Bytes} {pid : Nat} {lines : List Bytes} {fs₀ : FileSystem (Dir × Bytes)}
  {s s' : Output Dir}

def Output.Progress (lookup : Bytes → Option Dir) (csvFile : Bytes) (lines : List Bytes)
    (s : Output Dir) : Prop :=
  match s.stage with
  | .naming | .opening => s.stream.pending = [] ∧ s.stream.error = false
  | .printing rest => ∃ e printed, s.csv = some e ∧ printed ++ rest.flatten = lines.flatten ∧
      (s.stream.error = false → Holds e printed s.fs s.stream.pending)
  | .flushing => ∃ e, s.csv = some e ∧ (s.outputError = false → s.stream.error = false →
      Holds e lines.flatten s.fs s.stream.pending)
  | .syncing | .closing => ∃ e, s.csv = some e ∧ (s.outputError = false →
      s.fs e = some (.regular lines.flatten) ∧ s.stream.pending = [])
  | .renaming => ∃ e, s.csv = some e ∧ (s.outputError = false →
      s.fs e = some (.regular lines.flatten))
  | .removing => ∃ e, s.csv = some e
  | .finalizing _ | .returned _ | .ended _ _ => s.stage.replaced = true →
      ∃ c, entryOf lookup csvFile = some c ∧ s.fs c = some (.regular lines.flatten)

structure Output.Inv (lookup : Bytes → Option Dir) (csvFile : Bytes) (pid : Nat)
    (lines : List Bytes) (fs₀ : FileSystem (Dir × Bytes)) (s : Output Dir) : Prop where
  csv : ∀ e, s.csv = some e → entryOf lookup (csvTmp csvFile pid) = some e
  frame : ∀ e, entryOf lookup (csvTmp csvFile pid) ≠ some e →
    (s.stage.replaced = true → entryOf lookup csvFile ≠ some e) → s.fs e = fs₀ e
  unopened : s.stage = .naming ∨ s.stage = .opening → s.fs = fs₀
  progress : s.Progress lookup csvFile lines

omit [DecidableEq Dir] in
theorem csvTmp_ne {e c : Dir × Bytes} (he : entryOf lookup (csvTmp csvFile pid) = some e)
    (hc : entryOf lookup csvFile = some c) : e ≠ c := by
  refine entryOf_append_ne ?_ ?_ he hc
  · rw [tmpSuffix, List.mem_append, not_or]
    exact ⟨by decide, slash_notMem_decimal pid⟩
  · intro hnil
    exact absurd (List.append_eq_nil_iff.mp hnil).1 (by decide)

omit [DecidableEq Dir] in
/-- A call that leaves the files alone. -/
theorem Output.Inv.stay (h : s.Inv lookup csvFile pid lines fs₀) (hfs : s'.fs = s.fs)
    (hcsv : s'.csv = s.csv) (hrename : s.stage.replaced = true → s'.stage.replaced = true)
    (hunopened : s'.stage = .naming ∨ s'.stage = .opening → s.stage = .naming ∨ s.stage = .opening)
    (hprogress : s'.Progress lookup csvFile lines) : s'.Inv lookup csvFile pid lines fs₀ where
  csv e he := h.csv e (hcsv ▸ he)
  frame e he hcsvFile := by
    rw [hfs]
    exact h.frame e he fun hreplaced => hcsvFile (hrename hreplaced)
  unopened hstage := hfs.trans (h.unopened (hunopened hstage))
  progress := hprogress

theorem Output.Inv.open {e : Dir × Bytes} {fs : FileSystem (Dir × Bytes)}
    (hfile : ∀ e, entryOf lookup (csvTmp csvFile pid) = some e → ∀ kind, fs₀ e ≠ some (.other kind))
    (h : s.Inv lookup csvFile pid lines fs₀) (hstage : s.stage = .opening)
    (hopen : openTruncate (entryOf lookup) follow s.fs (csvTmp csvFile pid) = some (e, fs)) :
    { s with fs := fs, stage := .printing lines, csv := some e }.Inv lookup csvFile pid lines
      fs₀ := by
  rw [h.unopened (.inr hstage)] at hopen
  obtain ⟨hname, hfs⟩ := openTruncate_some hfile hopen
  dsimp only at hname hfs
  have hstream := h.progress
  simp only [Output.Progress, hstage] at hstream
  constructor
  · intro e' he'
    cases he'
    exact hname
  · intro e' he' _
    have hne : e' ≠ e := fun heq => he' (heq ▸ hname)
    change fs e' = fs₀ e'
    rw [hfs, place_of_ne hne]
  · intro hearly
    cases hearly with
    | inl hnaming => cases hnaming
    | inr hopening => cases hopening
  · refine ⟨e, [], rfl, rfl, fun _ => ⟨[], ?_, ?_⟩⟩
    · change fs e = _
      rw [hfs, place_self]
    · exact hstream.1

theorem Output.Inv.write {e : Dir × Bytes} {fs : FileSystem (Dir × Bytes)} {stream : Stream}
    (h : s.Inv lookup csvFile pid lines fs₀)
    (hstage : (∃ rest, s.stage = .printing rest) ∨ s.stage = .flushing ∨ s.stage = .closing)
    (hcsv : s.csv = some e) (hwrite : Write e (s.fs, s.stream) (fs, stream)) :
    { s with fs := fs, stream := stream }.Inv lookup csvFile pid lines fs₀ := by
  have hprogress := h.progress
  constructor
  · exact h.csv
  · intro e' he' hcsvFile
    have hne : e' ≠ e := fun heq => he' (heq ▸ h.csv e hcsv)
    exact (hwrite.frame hne).trans (h.frame e' he' hcsvFile)
  · intro hearly
    obtain ⟨rest, hrest⟩ | hflush | hclose := hstage
    · rw [hrest] at hearly
      exact absurd hearly (by simp)
    · rw [hflush] at hearly
      exact absurd hearly (by simp)
    · rw [hclose] at hearly
      exact absurd hearly (by simp)
  · obtain ⟨rest, hrest⟩ | hflush | hclose := hstage
    · simp only [Output.Progress, hrest] at hprogress ⊢
      obtain ⟨e', printed, he', hrest, hholds⟩ := hprogress
      cases hcsv.symm.trans he'
      exact ⟨e, printed, hcsv, hrest, Holds.write hwrite hholds⟩
    · simp only [Output.Progress, hflush] at hprogress ⊢
      obtain ⟨e', he', hholds⟩ := hprogress
      cases hcsv.symm.trans he'
      exact ⟨e, hcsv, fun houtput => Holds.write hwrite (hholds houtput)⟩
    · simp only [Output.Progress, hclose] at hprogress ⊢
      obtain ⟨e', he', hwhole⟩ := hprogress
      cases hcsv.symm.trans he'
      refine ⟨e, hcsv, fun houtput => ?_⟩
      obtain ⟨hfile, hpending⟩ := hwhole houtput
      obtain ⟨hsettled, hsame⟩ := hwrite.settled hpending
      exact ⟨hsame.trans hfile, hsettled⟩

theorem Output.Inv.next
    (hfile : ∀ e, entryOf lookup (csvTmp csvFile pid) = some e → ∀ kind, fs₀ e ≠ some (.other kind))
    (h : s.Inv lookup csvFile pid lines fs₀)
    (hstep : OutputStep lookup follow csvFile pid lines s s') :
    s'.Inv lookup csvFile pid lines fs₀ := by
  have hprogress := h.progress
  cases hstep with
  | tooLong hstage _ => exact h.stay rfl rfl (by simp [hstage]) (by simp) (fun hno => nomatch hno)
  | named hstage _ =>
    simp only [Output.Progress, hstage] at hprogress
    exact h.stay rfl rfl (by simp [hstage]) (fun _ => .inl hstage) hprogress
  | notOpened hstage =>
    exact h.stay rfl rfl (by simp [hstage]) (by simp) (fun hno => nomatch hno)
  | opened hstage hopen => exact h.open hfile hstage hopen
  | write hstage hcsv hwrite => exact h.write hstage hcsv hwrite
  | @print line rest hstage =>
    simp only [Output.Progress, hstage] at hprogress
    obtain ⟨e, printed, he, hrest, hholds⟩ := hprogress
    refine h.stay rfl rfl (by simp [hstage]) (by simp) ⟨e, printed ++ line, he, ?_, ?_⟩
    · rw [List.append_assoc]
      exact hrest
    · intro herror
      obtain ⟨contents, hcontents, hprinted⟩ := hholds herror
      refine ⟨contents, hcontents, ?_⟩
      rw [Stream.print, ← List.append_assoc, hprinted]
  | printed hstage =>
    simp only [Output.Progress, hstage, List.flatten_nil, List.append_nil] at hprogress
    obtain ⟨e, printed, he, rfl, hholds⟩ := hprogress
    exact h.stay rfl rfl (by simp [hstage]) (by simp) ⟨e, he, fun _ => hholds⟩
  | flushed hstage hpending herror =>
    simp only [Output.Progress, hstage] at hprogress
    obtain ⟨e, he, hholds⟩ := hprogress
    refine h.stay rfl rfl (by simp [hstage]) (by simp) ⟨e, he, fun houtput => ⟨?_, hpending⟩⟩
    obtain ⟨contents, hcontents, hprinted⟩ := hholds houtput (herror.trans houtput)
    rw [hpending, List.append_nil] at hprinted
    exact hprinted ▸ hcontents
  | notFlushed hstage herror =>
    simp only [Output.Progress, hstage] at hprogress
    obtain ⟨e, he, _⟩ := hprogress
    exact h.stay rfl rfl (by simp [hstage]) (by simp) ⟨e, he, fun houtput => by cases houtput⟩
  | synced hstage =>
    simp only [Output.Progress, hstage] at hprogress
    obtain ⟨e, he, hwhole⟩ := hprogress
    exact h.stay rfl rfl (by simp [hstage]) (by simp)
      ⟨e, he, fun houtput => hwhole (Bool.or_eq_false_iff.mp houtput).1⟩
  | closed hstage =>
    simp only [Output.Progress, hstage] at hprogress
    obtain ⟨e, he, hwhole⟩ := hprogress
    exact h.stay rfl rfl (by simp [hstage]) (by simp)
      ⟨e, he, fun houtput => (hwhole (Bool.or_eq_false_iff.mp houtput).1).1⟩
  | @renamed old new hstage herror hold hnew =>
    simp only [Output.Progress, hstage] at hprogress
    obtain ⟨e, he, hwhole⟩ := hprogress
    have hsame : old = e := Option.some.inj (hold.symm.trans (h.csv e he))
    subst hsame
    have hne := csvTmp_ne hold hnew
    constructor
    · exact h.csv
    · intro e' he' hcsvFile
      have hne' : e' ≠ old := fun heq => he' (heq ▸ hold)
      have hnew' : e' ≠ new := fun heq => hcsvFile rfl (heq ▸ hnew)
      refine (rename_other hne' hnew').trans (h.frame e' he' fun hreplaced => ?_)
      rw [hstage] at hreplaced
      cases hreplaced
    · simp
    · exact fun _ => ⟨new, hnew, (rename_new hne).trans (hwhole herror)⟩
  | notRenamed hstage =>
    simp only [Output.Progress, hstage] at hprogress
    obtain ⟨e, he, _⟩ := hprogress
    exact h.stay rfl rfl (by simp [hstage]) (by simp) ⟨e, he⟩
  | removed hstage hfs =>
    simp only [Output.Progress, hstage] at hprogress
    obtain ⟨e, he⟩ := hprogress
    have hname := h.csv e he
    constructor
    · exact h.csv
    · intro e' he' _
      have hbefore := h.frame e' he' fun hreplaced => by
        rw [hstage] at hreplaced
        cases hreplaced
      cases hfs with
      | inl hsame =>
        rw [← hbefore]
        exact congrFun hsame e'
      | inr hunlink =>
        have hne : e' ≠ e := fun heq => he' (heq ▸ hname)
        rw [← hbefore]
        refine (congrFun hunlink e').trans ?_
        simp only [unlink, hname]
        exact Function.update_of_ne hne ..
    · simp
    · exact fun hreplaced => by cases hreplaced
  | @finalized outputOk hstage =>
    simp only [Output.Progress, hstage] at hprogress
    have hsame : (OutputStage.returned (if outputOk then 0 else 1)).replaced = outputOk := by
      cases outputOk <;> rfl
    refine h.stay rfl rfl ?_ (by simp) fun hreplaced => hprogress (hsame ▸ hreplaced)
    rw [hstage]
    exact hsame.trans
  | @ended outputOk status hstage _ =>
    simp only [Output.Progress, hstage] at hprogress
    exact h.stay rfl rfl (by simp [hstage]) (by simp) hprogress

omit [DecidableEq Dir] in
theorem Output.Inv.replaced (h : s.Inv lookup csvFile pid lines fs₀)
    (hreplaced : s.stage.replaced = true) :
    ∃ c, entryOf lookup csvFile = some c ∧ s.fs c = some (.regular lines.flatten) := by
  have hprogress := h.progress
  rw [Output.Progress] at hprogress
  split at hprogress <;> simp_all

/-- What can be seen of the output at any instant: the results are there as a whole or not at
all, what `main` returns says which, and no other file is affected. -/
structure Published (lookup : Bytes → Option Dir) (csvFile : Bytes) (pid : Nat)
    (text : Bytes) (fs₀ : FileSystem (Dir × Bytes)) (s : Output Dir) : Prop where
  whole : ∀ c, entryOf lookup csvFile = some c →
    s.fs c = if s.stage.replaced then some (.regular text) else fs₀ c
  success : s.stage = .returned 0 →
    ∃ c, entryOf lookup csvFile = some c ∧ s.fs c = some (.regular text)
  failure : ∀ status c, s.stage = .returned status → status ≠ 0 →
    entryOf lookup csvFile = some c → s.fs c = fs₀ c
  kept : ∀ e, entryOf lookup csvFile ≠ some e → entryOf lookup (csvTmp csvFile pid) ≠ some e →
    s.fs e = fs₀ e

/-- The results are published all or nothing, whatever fails and whenever it is looked at. The
file is no link to another one. -/
theorem results_all_or_nothing (lookup : Bytes → Option Dir)
    (follow : Dir × Bytes → Option (Dir × Bytes)) (csvFile : Bytes) (pid : Nat)
    (lines : List Bytes) (fs₀ : FileSystem (Dir × Bytes))
    (hfile : ∀ e, entryOf lookup (csvTmp csvFile pid) = some e → ∀ kind, fs₀ e ≠ some (.other kind))
    (s : Output Dir)
    (h : Reachable (· = ({ fs := fs₀ } : Output Dir)) (OutputStep lookup follow csvFile pid lines)
      s) : Published lookup csvFile pid lines.flatten fs₀ s := by
  have hinv : s.Inv lookup csvFile pid lines fs₀ := by
    refine h.invariant ?_ fun s s' hs hstep => hs.next hfile hstep
    intro s hs
    subst hs
    exact ⟨fun e he => (by cases he), fun e _ _ => rfl, fun _ => rfl, rfl, rfl⟩
  have hbefore : ∀ c, entryOf lookup csvFile = some c → s.stage.replaced = false →
      s.fs c = fs₀ c := by
    intro c hc hrunning
    refine hinv.frame c (fun he => csvTmp_ne he hc rfl) fun hreplaced => ?_
    rw [hrunning] at hreplaced
    cases hreplaced
  have hafter := hinv.replaced
  refine ⟨fun c hc => ?_, fun hstage => hafter (by rw [hstage]; rfl), fun status c hstage hstatus
    hc => ?_, fun e hcsv htmp => hinv.frame e htmp fun _ => hcsv⟩
  · split
    · rename_i hreplaced
      obtain ⟨c', hc', hwhole⟩ := hafter hreplaced
      cases hc.symm.trans hc'
      exact hwhole
    · rename_i hrunning
      exact hbefore c hc (Bool.eq_false_iff.mpr hrunning)
  · refine hbefore c hc ?_
    rw [hstage]
    exact decide_eq_false hstatus

theorem oneLine_published : ∃ s : Output Unit, s.stage = .returned 0 ∧
    Published (fun _ => some ()) (chars "r.csv") 7 (chars "1,2\n") (fun _ => none) s := by
  refine ⟨_, ?_, results_all_or_nothing (fun _ => some ()) (fun _ => none) (chars "r.csv") 7
    [chars "1,2\n"] (fun _ => none) (fun _ _ _ => by simp) _ ⟨_, rfl,
      .tail (.tail (.tail (.tail (.tail (.tail (.tail (.tail (.tail (.tail .refl
        (.named rfl (by decide)))
        (.opened rfl rfl)) (.print rfl)) (.write (.inl ⟨_, rfl⟩) rfl (.wrote _ _ 4)))
        (.printed rfl)) (.flushed rfl rfl rfl)) (@OutputStep.synced _ _ _ _ _ _ _ _ false rfl))
        (@OutputStep.closed _ _ _ _ _ _ _ _ false rfl)) (.renamed rfl rfl rfl rfl))
        (.finalized rfl)⟩⟩
  rfl

end Results

section Port

/-- The file in which the master leaves its port. -/
def portFile : Bytes := chars "port.txt"

/-- The name that `write_port_file` gives the file first, cut to fit its buffer. -/
def portTmp (path : Bytes) : Bytes := (path ++ chars ".tmp").take 255

inductive PortStage where
  | opening
  | printing
  | closing
  | renaming
  | returned
  | exited

structure PortOutput (Dir : Type*) where
  fs : FileSystem (Dir × Bytes)
  stage : PortStage := .opening
  file : Option (Dir × Bytes) := none
  stream : Stream := {}

variable {Dir : Type*} [DecidableEq Dir]

/-- The calls of `write_port_file`, of which only the first and the last are checked. -/
inductive PortStep (lookup : Bytes → Option Dir) (follow : Dir × Bytes → Option (Dir × Bytes))
    (path portName : Bytes) : PortOutput Dir → PortOutput Dir → Prop
  | notOpened {s} (hstage : s.stage = .opening) : PortStep _ _ _ _ s { s with stage := .exited }
  | opened {s e fs} (hstage : s.stage = .opening)
    (h : openTruncate (entryOf lookup) follow s.fs (portTmp path) = some (e, fs)) :
    PortStep _ _ _ _ s { s with fs := fs, stage := .printing, file := some e }
  | print {s} (hstage : s.stage = .printing) :
    PortStep _ _ _ _ s
      { s with stage := .closing, stream := s.stream.print (portName ++ chars "\n") }
  | write {s e fs stream} (hstage : s.stage = .closing) (hfile : s.file = some e)
    (h : Write e (s.fs, s.stream) (fs, stream)) :
    PortStep _ _ _ _ s { s with fs := fs, stream := stream }
  | closed {s} (hstage : s.stage = .closing) (h : s.stream.pending = [] ∨ s.stream.error = true) :
    PortStep _ _ _ _ s { s with stage := .renaming }
  | renamed {s old new} (hstage : s.stage = .renaming)
    (hold : entryOf lookup (portTmp path) = some old) (hnew : entryOf lookup path = some new) :
    PortStep _ _ _ _ s { s with fs := rename s.fs old new, stage := .returned }
  | notRenamed {s} (hstage : s.stage = .renaming) : PortStep _ _ _ _ s { s with stage := .exited }

variable {lookup : Bytes → Option Dir} {follow : Dir × Bytes → Option (Dir × Bytes)}
  {path portName : Bytes} {fs₀ : FileSystem (Dir × Bytes)} {s s' : PortOutput Dir}

def PortOutput.Progress (lookup : Bytes → Option Dir) (path portName : Bytes)
    (s : PortOutput Dir) : Prop :=
  match s.stage with
  | .opening => s.stream.pending = []
  | .printing => ∃ e, s.file = some e ∧ (s.stream.error = false →
      Holds e [] s.fs s.stream.pending)
  | .closing => ∃ e, s.file = some e ∧ (s.stream.error = false →
      Holds e (portName ++ chars "\n") s.fs s.stream.pending)
  | .renaming => ∃ e, s.file = some e ∧ (s.stream.error = false →
      s.fs e = some (.regular (portName ++ chars "\n")))
  | .returned => s.stream.error = false → ∃ p, entryOf lookup path = some p ∧
      s.fs p = some (.regular (portName ++ chars "\n"))
  | .exited => True

structure PortOutput.Inv (lookup : Bytes → Option Dir) (path portName : Bytes)
    (fs₀ : FileSystem (Dir × Bytes)) (s : PortOutput Dir) : Prop where
  file : ∀ e, s.file = some e → entryOf lookup (portTmp path) = some e
  frame : ∀ e, entryOf lookup (portTmp path) ≠ some e →
    (s.stage = .returned → entryOf lookup path ≠ some e) → s.fs e = fs₀ e
  unopened : s.stage = .opening → s.fs = fs₀
  progress : s.Progress lookup path portName

omit [DecidableEq Dir] in
theorem portTmp_ne (hlength : path.length ≤ 251) {e p : Dir × Bytes}
    (he : entryOf lookup (portTmp path) = some e) (hp : entryOf lookup path = some p) : e ≠ p := by
  have hwhole : portTmp path = path ++ chars ".tmp" := by
    refine List.take_of_length_le ?_
    have hsuffix : (chars ".tmp").length = 4 := by decide
    rw [List.length_append, hsuffix]
    omega
  rw [hwhole] at he
  exact entryOf_append_ne (by decide) (by decide) he hp

omit [DecidableEq Dir] in
/-- A call that leaves the files alone. -/
theorem PortOutput.Inv.stay (h : s.Inv lookup path portName fs₀) (hfs : s'.fs = s.fs)
    (hfile : s'.file = s.file) (hrunning : s.stage ≠ .returned) (hopened : s'.stage ≠ .opening)
    (hprogress : s'.Progress lookup path portName) : s'.Inv lookup path portName fs₀ where
  file e he := h.file e (hfile ▸ he)
  frame e he _ := by
    rw [hfs]
    exact h.frame e he fun hreturned => absurd hreturned hrunning
  unopened hstage := absurd hstage hopened
  progress := hprogress

theorem PortOutput.Inv.open {e : Dir × Bytes} {fs : FileSystem (Dir × Bytes)}
    (hfile : ∀ e, entryOf lookup (portTmp path) = some e → ∀ kind, fs₀ e ≠ some (.other kind))
    (h : s.Inv lookup path portName fs₀) (hstage : s.stage = .opening)
    (hopen : openTruncate (entryOf lookup) follow s.fs (portTmp path) = some (e, fs)) :
    { s with fs := fs, stage := .printing, file := some e }.Inv lookup path portName fs₀ := by
  have hpending := h.progress
  simp only [PortOutput.Progress, hstage] at hpending
  rw [h.unopened hstage] at hopen
  obtain ⟨hname, hfs⟩ := openTruncate_some hfile hopen
  dsimp only at hname hfs
  constructor
  · intro e' he'
    cases he'
    exact hname
  · intro e' he' _
    have hne : e' ≠ e := fun heq => he' (heq ▸ hname)
    change fs e' = fs₀ e'
    rw [hfs, place_of_ne hne]
  · intro hearly
    cases hearly
  · refine ⟨e, rfl, fun _ => ⟨[], ?_, hpending⟩⟩
    change fs e = _
    rw [hfs, place_self]

theorem PortOutput.Inv.next (hlength : path.length ≤ 251)
    (hfile : ∀ e, entryOf lookup (portTmp path) = some e → ∀ kind, fs₀ e ≠ some (.other kind))
    (h : s.Inv lookup path portName fs₀) (hstep : PortStep lookup follow path portName s s') :
    s'.Inv lookup path portName fs₀ := by
  have hprogress := h.progress
  cases hstep with
  | notOpened hstage => exact h.stay rfl rfl (by simp [hstage]) (by simp) trivial
  | opened hstage hopen => exact h.open hfile hstage hopen
  | print hstage =>
    simp only [PortOutput.Progress, hstage] at hprogress
    obtain ⟨e, he, hholds⟩ := hprogress
    refine h.stay rfl rfl (by simp [hstage]) (by simp) ⟨e, he, fun herror => ?_⟩
    obtain ⟨contents, hcontents, hprinted⟩ := hholds herror
    refine ⟨contents, hcontents, ?_⟩
    rw [Stream.print, ← List.append_assoc, hprinted, List.nil_append]
  | @write e fs stream hstage he hwrite =>
    simp only [PortOutput.Progress, hstage] at hprogress
    obtain ⟨e', he', hholds⟩ := hprogress
    cases he.symm.trans he'
    constructor
    · exact h.file
    · intro e' he' hreturned
      have hne : e' ≠ e := fun heq => he' (heq ▸ h.file e he)
      exact (hwrite.frame hne).trans (h.frame e' he' hreturned)
    · simp [hstage]
    · simp only [PortOutput.Progress, hstage]
      exact ⟨e, he, Holds.write hwrite hholds⟩
  | closed hstage hclosed =>
    simp only [PortOutput.Progress, hstage] at hprogress
    obtain ⟨e, he, hholds⟩ := hprogress
    refine h.stay rfl rfl (by simp [hstage]) (by simp) ⟨e, he, fun herror => ?_⟩
    obtain ⟨contents, hcontents, hprinted⟩ := hholds herror
    cases hclosed with
    | inl hpending =>
      rw [hpending, List.append_nil] at hprinted
      exact hprinted ▸ hcontents
    | inr hfailed =>
      rw [hfailed] at herror
      cases herror
  | @renamed old new hstage hold hnew =>
    simp only [PortOutput.Progress, hstage] at hprogress
    obtain ⟨e, he, hwhole⟩ := hprogress
    have hsame : old = e := Option.some.inj (hold.symm.trans (h.file e he))
    subst hsame
    have hne := portTmp_ne hlength hold hnew
    constructor
    · exact h.file
    · intro e' he' hpath
      have hne' : e' ≠ old := fun heq => he' (heq ▸ hold)
      have hnew' : e' ≠ new := fun heq => hpath rfl (heq ▸ hnew)
      refine (rename_other hne' hnew').trans (h.frame e' he' fun hreturned => ?_)
      rw [hstage] at hreturned
      cases hreturned
    · simp
    · exact fun herror => ⟨new, hnew, (rename_new hne).trans (hwhole herror)⟩
  | notRenamed hstage => exact h.stay rfl rfl (by simp [hstage]) (by simp) trivial

/-- Whoever reads the port finds what was there before or the whole of it, unless a write has
failed. -/
theorem port_whole_unless_lost (lookup : Bytes → Option Dir)
    (follow : Dir × Bytes → Option (Dir × Bytes)) (path portName : Bytes)
    (hlength : path.length ≤ 251) (fs₀ : FileSystem (Dir × Bytes))
    (hfile : ∀ e, entryOf lookup (portTmp path) = some e → ∀ kind, fs₀ e ≠ some (.other kind))
    (s : PortOutput Dir)
    (h : Reachable (· = ({ fs := fs₀ } : PortOutput Dir)) (PortStep lookup follow path portName) s)
    (p : Dir × Bytes) (hp : entryOf lookup path = some p) :
    (s.stage ≠ .returned → s.fs p = fs₀ p) ∧
    (s.stage = .returned → s.stream.error = false →
      s.fs p = some (.regular (portName ++ chars "\n"))) := by
  have hinv : s.Inv lookup path portName fs₀ := by
    refine h.invariant ?_ fun s s' hs hstep => hs.next hlength hfile hstep
    intro s hs
    subst hs
    exact ⟨fun e he => (by cases he), fun e _ _ => rfl, fun _ => rfl, rfl⟩
  refine ⟨fun hrunning => ?_, fun hreturned herror => ?_⟩
  · exact hinv.frame p (fun he => portTmp_ne hlength he hp rfl) fun hreturned =>
      absurd hreturned hrunning
  · have hprogress := hinv.progress
    rw [PortOutput.Progress, hreturned] at hprogress
    obtain ⟨p', hp', hwhole⟩ := hprogress herror
    cases hp.symm.trans hp'
    exact hwhole

theorem port_published : ∃ s : PortOutput Unit, s.stage = .returned ∧
    s.fs ((), portFile) = some (.regular (chars "tcp\n")) := by
  let s : PortOutput Unit := ⟨rename (place (place (fun _ => none) ((), chars "port.txt.tmp") [])
    ((), chars "port.txt.tmp") (chars "tcp\n")) ((), chars "port.txt.tmp") ((), portFile),
    .returned, some ((), chars "port.txt.tmp"), {}⟩
  refine ⟨s, rfl, (port_whole_unless_lost (fun _ => some ()) (fun _ => none) portFile (chars "tcp")
    (by decide) (fun _ => none) (fun _ _ _ => by simp) s ⟨_, rfl, ?_⟩ ((), portFile) rfl).2 rfl
    rfl⟩
  exact .tail (.tail (.tail (.tail (.tail .refl (.opened rfl rfl)) (.print rfl))
    (.write rfl rfl (.wrote _ _ 4))) (.closed rfl (.inl rfl))) (.renamed rfl rfl rfl)

/-- The rename does not ask whether the write succeeded: a port may be published cut anywhere. -/
theorem cut_port_published (path portName : Bytes) (hlength : path.length ≤ 251) (n : Nat)
    (fs₀ : FileSystem (Dir × Bytes)) {e p : Dir × Bytes}
    (he : entryOf lookup (portTmp path) = some e) (hp : entryOf lookup path = some p)
    (hfile : ∀ kind, fs₀ e ≠ some (.other kind)) :
    ∃ s, Reachable (· = ({ fs := fs₀ } : PortOutput Dir)) (PortStep lookup follow path portName)
      s ∧ s.stage = .returned ∧ s.fs p = some (.regular ((portName ++ chars "\n").take n)) := by
  have hopen : openTruncate (entryOf lookup) follow fs₀ (portTmp path) =
      some (e, place fs₀ e []) := by
    simp only [openTruncate, he]
  refine ⟨_, ⟨_, rfl, .tail (.tail (.tail (.tail (.tail (.tail .refl (.opened rfl hopen))
    (.print rfl)) (.write rfl rfl (.wrote _ _ n))) (.write rfl rfl (.failed _ _ 0)))
    (.closed rfl (.inr rfl))) (.renamed rfl he hp)⟩, rfl, ?_⟩
  refine (rename_new (portTmp_ne hlength he hp)).trans ?_
  have hempty : place fs₀ e [] e = some (.regular []) := place_self e
  rw [append_regular hempty]
  exact place_self e

end Port

end DistributedEnclave.Cluster
