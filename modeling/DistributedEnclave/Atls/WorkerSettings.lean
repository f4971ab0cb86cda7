import DistributedEnclave.Fields

/-! The settings of a worker: the command line its virtual machine is launched with, and what the
client and the script that starts Ray read from it. -/
namespace DistributedEnclave.Atls.WorkerSettings
open Fields

abbrev Text := List Char

def text (s : String) : Text := s.toList

def isSpace (c : Char) : Bool :=
  [9, 10, 11, 12, 13, 32, 0x85, 0xA0, 0x1680, 0x2028, 0x2029, 0x202F, 0x205F, 0x3000].contains
    c.toNat || (0x2000 ≤ c.toNat && c.toNat ≤ 0x200A)

def trimSpace (s : Text) : Text := ((s.dropWhile isSpace).reverse.dropWhile isSpace).reverse

inductive SettingError where
  | invalidCmdline (value : Text)
  | invalidEnv (value : Text)
  deriving DecidableEq

structure Source where
  getenv : String → Text
  readFile : String → Except Nat Text

def kernelCmdlinePath : String := "/proc/cmdline"

/-- The map of the fields with a value; a later one replaces an earlier one. -/
def parseKernelCmdline (cmdline : Text) : Text → Option Text :=
  (fields isSpace cmdline).foldl (fun params field =>
    match cut ['='] field with
    | none => params
    | some (key, value) => Function.update params key (some value)) (fun _ => none)

def joinHostPort (host port : Text) : Text :=
  if ':' ∈ host then '[' :: host ++ text "]:" ++ port else host ++ ':' :: port

def verifierAddressFromSource (ip port : Text) : Option Text :=
  let ip := trimSpace ip
  let port := trimSpace port
  if ip = [] ∨ port = [] then none else some (joinHostPort ip port)

def defaultATLSAddr : Text := text "127.0.0.1:9443"

def resolveDialAddress (src : Source) : Text :=
  let addr := trimSpace (src.getenv "ATLS_ADDR")
  if addr ≠ [] then addr
  else
    match verifierAddressFromSource (src.getenv "VERIFIER_IP") (src.getenv "VERIFIER_PORT") with
    | some addr => addr
    | none =>
      match src.readFile kernelCmdlinePath with
      | .error _ => defaultATLSAddr
      | .ok cmdline =>
        let params := parseKernelCmdline cmdline
        (verifierAddressFromSource ((params (text "verifier_ip")).getD [])
          ((params (text "verifier_port")).getD [])).getD defaultATLSAddr

def parseBool (s : Text) : Option Bool :=
  if s ∈ ["1", "t", "T", "TRUE", "true", "True"].map text then some true
  else if s ∈ ["0", "f", "F", "FALSE", "false", "False"].map text then some false
  else none

def boolEnv (src : Source) (key : String) : Except SettingError Bool :=
  let value := trimSpace (src.getenv key)
  if value = [] then .ok false
  else
    match parseBool value with
    | some enabled => .ok enabled
    | none => .error (.invalidEnv value)

def atlsSnpAttestationParam : Text := text "atls_snp_attestation"

def resolveSEVSNPAttestation (src : Source) : Except SettingError Bool :=
  match src.readFile kernelCmdlinePath with
  | .error _ => boolEnv src "ATLS_USE_SEV_SNP_ATTESTATION"
  | .ok cmdline =>
    match parseKernelCmdline cmdline atlsSnpAttestationParam with
    | none => boolEnv src "ATLS_USE_SEV_SNP_ATTESTATION"
    | some v =>
      match parseBool v with
      | some enabled => .ok enabled
      | none => .error (.invalidCmdline v)

/-- `cmdline_param` of `ray_init.sh`, for the one line of the file: the second field of `awk`
between the places where the key occurs, up to its first space. -/
def cmdlineParam (key line : Text) : Text :=
  match cut (key ++ ['=']) line with
  | none => []
  | some (_, rest) => (upTo (key ++ ['=']) rest).takeWhile (· ≠ ' ')

structure Parameter where
  key : Text
  value : Option Text

def Parameter.field : Parameter → Text
  | ⟨key, none⟩ => key
  | ⟨key, some value⟩ => key ++ '=' :: value

/-- The variables that the launch scripts put into the command line of a worker. Those of Ray are
left out where they are empty. -/
structure Launch where
  confidential : Bool
  verifierIP : Text
  verifierPort : Text
  workerID : Text
  objectStoreMB : Text
  memoryThreshold : Text

def optional (key : String) (value : Text) : List Parameter :=
  if value = [] then [] else [⟨text key, some value⟩]

/-- The parameters of `-append` in `launch-fort-sev.sh`, and in `launch-fort-nosnp.sh` for a machine
that is not confidential. -/
def Launch.parameters (l : Launch) : List Parameter :=
  [⟨text "console", some (text "ttyS0")⟩, ⟨text "root", some (text "/dev/ram0")⟩,
    ⟨text "rw", none⟩, ⟨text "verifier_ip", some l.verifierIP⟩,
    ⟨text "verifier_port", some l.verifierPort⟩] ++
  (if l.confidential then [⟨text "atls_snp_attestation", some (text "true")⟩]
    else [⟨text "ray_worker_id", some l.workerID⟩,
      ⟨text "atls_snp_attestation", some (text "false")⟩]) ++
  optional "ray_object_store_mb" l.objectStoreMB ++ optional "ray_memory_threshold" l.memoryThreshold

def cmdline (ps : List Parameter) : Text := [' '].intercalate (ps.map Parameter.field)

def PlainText (t : Text) : Prop := ∀ c ∈ t, isSpace c = false ∧ c ≠ '='

structure Parameter.Plain (p : Parameter) : Prop where
  key : p.key ≠ []
  plainKey : PlainText p.key
  plainValue : ∀ v, p.value = some v → PlainText v

section Readers
variable {ps : List Parameter} {key v : Text} {p : Parameter}

theorem PlainText.eq_notMem {t : Text} (h : PlainText t) : '=' ∉ t := fun hmem =>
  (h '=' hmem).2 rfl

theorem PlainText.space_notMem {t : Text} (h : PlainText t) : ' ' ∉ t := by
  intro hmem
  exact absurd (h ' ' hmem).1 (by decide)

theorem Parameter.Plain.field_word (h : p.Plain) :
    p.field ≠ [] ∧ ∀ c ∈ p.field, isSpace c = false := by
  obtain ⟨key, value⟩ := p
  cases value with
  | none => exact ⟨h.key, fun c hc => (h.plainKey c hc).1⟩
  | some v =>
    refine ⟨by simp [Parameter.field], fun c hc => ?_⟩
    rw [Parameter.field, List.mem_append, List.mem_cons] at hc
    obtain hkey | rfl | hvalue := hc
    · exact (h.plainKey c hkey).1
    · decide
    · exact (h.plainValue v rfl c hvalue).1

theorem fields_cmdline (h : ∀ p ∈ ps, p.Plain) :
    fields isSpace (cmdline ps ++ ['\n']) = ps.map Parameter.field := by
  have hspace : isSpace ' ' = true := by decide
  have hwords := fields_intercalate hspace (ps.map Parameter.field) (by
    intro w hw
    obtain ⟨p, hp, rfl⟩ := List.mem_map.mp hw
    exact (h p hp).field_word)
  rw [fields_append _ _ (by decide), fields_nil, List.append_nil]
  exact hwords

theorem cut_field (h : p.Plain) :
    cut ['='] p.field = p.value.map (fun v => (p.key, v)) := by
  obtain ⟨key, value⟩ := p
  cases value with
  | none => exact cut_of_notMem (p := []) h.plainKey.eq_notMem
  | some v => exact cut_key h.plainKey.eq_notMem v

/-- A key is not found in the field of another one, unless that ends with it. -/
theorem Parameter.Plain.cut_other (h : p.Plain) (hkey : PlainText key) (hother : ¬key <:+ p.key) :
    cut (key ++ ['=']) p.field = none := by
  obtain ⟨k, value⟩ := p
  cases value with
  | none => exact cut_of_notMem h.plainKey.eq_notMem
  | some v =>
    exact cut_setting hkey.eq_notMem h.plainKey.eq_notMem (h.plainValue v rfl).eq_notMem hother

/-- The client takes the last value of a key. -/
theorem parseKernelCmdline_cmdline (h : ∀ p ∈ ps, p.Plain) (key : Text) :
    parseKernelCmdline (cmdline ps ++ ['\n']) key =
      ps.reverse.findSome? (fun p => if p.key = key then p.value else none) := by
  have hfold : ∀ (ps : List Parameter) (params : Text → Option Text), (∀ p ∈ ps, p.Plain) →
      (ps.map Parameter.field).foldl (fun params field =>
        match cut ['='] field with
        | none => params
        | some (key, value) => Function.update params key (some value)) params key =
      (ps.reverse.findSome? (fun p => if p.key = key then p.value else none)).or (params key) := by
    intro ps
    induction ps with
    | nil => exact fun params _ => rfl
    | cons p ps ih =>
      intro params hps
      have hp := cut_field (hps p List.mem_cons_self)
      rw [List.map_cons, List.foldl_cons, hp, ih _ fun p hp => hps p (List.mem_cons_of_mem _ hp),
        List.reverse_cons, List.findSome?_append, Option.or_assoc]
      congr 1
      obtain ⟨k, value⟩ := p
      cases value with
      | none => simp
      | some v =>
        by_cases hk : k = key
        · subst hk
          simp
        · simp [hk, Function.update_of_ne (Ne.symm hk)]
  rw [parseKernelCmdline, fields_cmdline h, hfold ps _ h, Option.or_none]

/-- The script finds the first value of a key, unless another key ends with that. -/
theorem cmdlineParam_cmdline {before after : List Parameter} (hkey : PlainText key)
    (hbefore : ∀ p ∈ before, p.Plain) (hother : ∀ k ∈ before.map Parameter.key, ¬key <:+ k)
    (hv : PlainText v) :
    cmdlineParam key (cmdline (before ++ ⟨key, some v⟩ :: after)) = v := by
  have hspace : ' ' ∉ key ++ ['='] := by
    rw [List.mem_append, List.mem_singleton, not_or]
    exact ⟨hkey.space_notMem, by decide⟩
  have hnone : ∀ w ∈ before.map Parameter.field, cut (key ++ ['=']) w = none := by
    intro w hw
    obtain ⟨⟨k, value⟩, hp, rfl⟩ := List.mem_map.mp hw
    exact (hbefore _ hp).cut_other hkey (hother k (List.mem_map.mpr ⟨_, hp, rfl⟩))
  obtain ⟨first, hfirst⟩ := cut_line hspace (before.map Parameter.field) hnone v
    (after.map Parameter.field)
  have hfield : Parameter.field ⟨key, some v⟩ = key ++ ['='] ++ v := by
    rw [Parameter.field, List.append_assoc, List.singleton_append]
  rw [cmdlineParam, cmdline, List.map_append, List.map_cons, hfield, hfirst]
  exact takeWhile_upTo hspace (cut_of_notMem hv.eq_notMem) hv.space_notMem _

theorem cmdlineParam_absent (hne : ps ≠ []) (hkey : PlainText key)
    (h : ∀ p ∈ ps, p.Plain) (hother : ∀ k ∈ ps.map Parameter.key, ¬key <:+ k) :
    cmdlineParam key (cmdline ps) = [] := by
  have hspace : ' ' ∉ key ++ ['='] := by
    rw [List.mem_append, List.mem_singleton, not_or]
    exact ⟨hkey.space_notMem, by decide⟩
  have hnone : cut (key ++ ['=']) (cmdline ps) = none := by
    refine cut_line_none hspace (by simpa using hne) fun w hw => ?_
    obtain ⟨⟨k, value⟩, hp, rfl⟩ := List.mem_map.mp hw
    exact (h _ hp).cut_other hkey (hother k (List.mem_map.mpr ⟨_, hp, rfl⟩))
  rw [cmdlineParam, hnone]

end Readers

/-- What the scripts are run with: texts that fit into a command line, and an address. -/
structure Launch.Plain (l : Launch) : Prop where
  ip : l.verifierIP ≠ []
  port : l.verifierPort ≠ []
  plainIP : PlainText l.verifierIP
  plainPort : PlainText l.verifierPort
  plainID : PlainText l.workerID
  plainStore : PlainText l.objectStoreMB
  plainThreshold : PlainText l.memoryThreshold

section Launched
variable {l : Launch}

theorem plain_text {s : String} (h : (text s).all (fun c => !isSpace c && c ≠ '=') = true) :
    PlainText (text s) := by
  intro c hc
  have hchar := List.all_eq_true.mp h c hc
  rw [Bool.and_eq_true, Bool.not_eq_true', decide_eq_true_eq] at hchar
  exact hchar

theorem plain_parameter {s : String} {v : Text} (hne : text s ≠ [])
    (h : (text s).all (fun c => !isSpace c && c ≠ '=') = true) (hv : PlainText v) :
    Parameter.Plain ⟨text s, some v⟩ := by
  refine ⟨hne, plain_text h, fun v' hv' => ?_⟩
  cases hv'
  exact hv

theorem optional_plain {s : String} {v : Text} (hne : text s ≠ [])
    (h : (text s).all (fun c => !isSpace c && c ≠ '=') = true) (hv : PlainText v) :
    ∀ p ∈ optional s v, p.Plain := by
  intro p hp
  rw [optional] at hp
  split at hp
  · cases hp
  · rw [List.mem_singleton] at hp
    exact hp ▸ plain_parameter hne h hv

theorem Launch.Plain.parameters (h : l.Plain) : ∀ p ∈ l.parameters, p.Plain := by
  have hfirst : ∀ p ∈ ([⟨text "console", some (text "ttyS0")⟩,
      ⟨text "root", some (text "/dev/ram0")⟩, ⟨text "rw", none⟩,
      ⟨text "verifier_ip", some l.verifierIP⟩, ⟨text "verifier_port", some l.verifierPort⟩] :
      List Parameter), p.Plain := by
    simp only [List.forall_mem_cons]
    refine ⟨plain_parameter (by decide) (by decide) (plain_text (by decide)),
      plain_parameter (by decide) (by decide) (plain_text (by decide)),
      ⟨by decide, plain_text (by decide), fun v hv => by cases hv⟩,
      plain_parameter (by decide) (by decide) h.plainIP,
      plain_parameter (by decide) (by decide) h.plainPort, fun p hp => by cases hp⟩
  have hmode : ∀ p ∈ (if l.confidential then
        [⟨text "atls_snp_attestation", some (text "true")⟩]
      else [⟨text "ray_worker_id", some l.workerID⟩,
        ⟨text "atls_snp_attestation", some (text "false")⟩] : List Parameter), p.Plain := by
    split
    · simp only [List.forall_mem_cons]
      exact ⟨plain_parameter (by decide) (by decide) (plain_text (by decide)),
        fun p hp => by cases hp⟩
    · simp only [List.forall_mem_cons]
      exact ⟨plain_parameter (by decide) (by decide) h.plainID,
        plain_parameter (by decide) (by decide) (plain_text (by decide)), fun p hp => by cases hp⟩
  intro p hp
  simp only [Launch.parameters, List.mem_append] at hp
  obtain ((hp | hp) | hp) | hp := hp
  · exact hfirst p hp
  · exact hmode p hp
  · exact optional_plain (by decide) (by decide) h.plainStore p hp
  · exact optional_plain (by decide) (by decide) h.plainThreshold p hp

theorem trimSpace_plain {t : Text} (h : PlainText t) : trimSpace t = t := by
  have hdrop : ∀ t : Text, PlainText t → t.dropWhile isSpace = t := by
    intro t ht
    cases t with
    | nil => rfl
    | cons c t =>
      refine List.dropWhile_cons_of_neg ?_
      rw [(ht c List.mem_cons_self).1]
      decide
  rw [trimSpace, hdrop t h, hdrop _ fun c hc => h c (List.mem_reverse.mp hc), List.reverse_reverse]

end Launched

/-- What the parts of a worker make of the command line it is launched with. -/
structure Launch.Read (l : Launch) (src : Source) : Prop where
  address : resolveDialAddress src = joinHostPort l.verifierIP l.verifierPort
  attestation : resolveSEVSNPAttestation src = .ok l.confidential
  headIP : cmdlineParam (text "verifier_ip") (cmdline l.parameters) = l.verifierIP
  workerID : cmdlineParam (text "ray_worker_id") (cmdline l.parameters) =
    if l.confidential then [] else l.workerID
  objectStore : cmdlineParam (text "ray_object_store_mb") (cmdline l.parameters) = l.objectStoreMB
  unset : ∀ key ∈ [text "ray_worker_ip", text "ray_memory_monitor_ms"],
    cmdlineParam key (cmdline l.parameters) = []

section Launched
variable {l : Launch}

def launchKeys : List Text :=
  ["console", "root", "rw", "verifier_ip", "verifier_port", "atls_snp_attestation",
    "ray_worker_id", "ray_object_store_mb", "ray_memory_threshold"].map text

theorem Launch.keys {p : Parameter} (hp : p ∈ l.parameters) : p.key ∈ launchKeys := by
  have hmem : ∀ s ∈ ["console", "root", "rw", "verifier_ip", "verifier_port",
      "atls_snp_attestation", "ray_worker_id", "ray_object_store_mb", "ray_memory_threshold"],
      text s ∈ launchKeys := fun s hs => List.mem_map_of_mem hs
  have hoptional : ∀ (s : String) (v : Text), p ∈ optional s v → p.key = text s := by
    intro s v hp
    rw [optional] at hp
    split at hp
    · cases hp
    · rw [List.mem_singleton] at hp
      rw [hp]
  simp only [Launch.parameters, List.mem_append] at hp
  obtain ((hp | hp) | hp) | hp := hp
  · simp only [List.mem_cons, List.not_mem_nil, or_false] at hp
    obtain rfl | rfl | rfl | rfl | rfl := hp
    · exact hmem "console" (by decide)
    · exact hmem "root" (by decide)
    · exact hmem "rw" (by decide)
    · exact hmem "verifier_ip" (by decide)
    · exact hmem "verifier_port" (by decide)
  · split at hp
    · rw [List.mem_singleton] at hp
      subst hp
      exact hmem "atls_snp_attestation" (by decide)
    · simp only [List.mem_cons, List.not_mem_nil, or_false] at hp
      obtain rfl | rfl := hp
      · exact hmem "ray_worker_id" (by decide)
      · exact hmem "atls_snp_attestation" (by decide)
  · exact hoptional _ _ hp ▸ hmem "ray_object_store_mb" (by decide)
  · exact hoptional _ _ hp ▸ hmem "ray_memory_threshold" (by decide)

/-- A value that the client finds. -/
theorem Launch.found (h : l.Plain) (key : String) :
    parseKernelCmdline (cmdline l.parameters ++ ['\n']) (text key) =
      l.parameters.reverse.findSome? (fun p => if p.key = text key then p.value else none) :=
  parseKernelCmdline_cmdline h.parameters (text key)

theorem Launch.address (h : l.Plain) :
    parseKernelCmdline (cmdline l.parameters ++ ['\n']) (text "verifier_ip") = some l.verifierIP ∧
    parseKernelCmdline (cmdline l.parameters ++ ['\n']) (text "verifier_port") =
      some l.verifierPort ∧
    parseKernelCmdline (cmdline l.parameters ++ ['\n']) atlsSnpAttestationParam =
      some (text (if l.confidential then "true" else "false")) := by
  rw [Launch.found h, Launch.found h, atlsSnpAttestationParam, Launch.found h]
  obtain ⟨confidential, ip, port, id, store, threshold⟩ := l
  cases confidential <;> by_cases hstore : store = [] <;> by_cases hthreshold : threshold = [] <;>
    simp [Launch.parameters, optional, hstore, hthreshold, text]

/-- A key that is left out. -/
theorem Launch.keys_erase (s : String) (h : ∀ p ∈ l.parameters, p.key ≠ text s) :
    ∀ k ∈ l.parameters.map Parameter.key, k ∈ launchKeys.erase (text s) := by
  intro k hk
  obtain ⟨p, hp, rfl⟩ := List.mem_map.mp hk
  exact (List.mem_erase_of_ne (h p hp)).mpr (Launch.keys hp)

/-- A value that the scripts find, behind parameters with other keys. -/
theorem Launch.value (h : l.Plain) {s : String} {v : Text}
    (before after : List Parameter) (hps : l.parameters = before ++ ⟨text s, some v⟩ :: after)
    (hkey : (text s).all (fun c => !isSpace c && c ≠ '=') = true)
    (hother : ∀ k ∈ before.map Parameter.key, ¬text s <:+ k) :
    cmdlineParam (text s) (cmdline l.parameters) = v := by
  have hmem : (⟨text s, some v⟩ : Parameter) ∈ l.parameters := by
    rw [hps]
    exact List.mem_append_right _ List.mem_cons_self
  rw [hps]
  refine cmdlineParam_cmdline (plain_text hkey) (fun p hp => h.parameters p ?_) hother
    ((h.parameters _ hmem).plainValue v rfl)
  rw [hps]
  exact List.mem_append_left _ hp

theorem Launch.absent (h : l.Plain) {key : Text} (hkey : PlainText key)
    (hother : ∀ k ∈ l.parameters.map Parameter.key, ¬key <:+ k) :
    cmdlineParam key (cmdline l.parameters) = [] := by
  refine cmdlineParam_absent ?_ hkey h.parameters hother
  simp [Launch.parameters]

theorem Launch.Plain.headIP (h : l.Plain) :
    cmdlineParam (text "verifier_ip") (cmdline l.parameters) = l.verifierIP := by
  refine Launch.value h [⟨text "console", some (text "ttyS0")⟩,
    ⟨text "root", some (text "/dev/ram0")⟩, ⟨text "rw", none⟩] _ rfl (by decide) ?_
  change ∀ k ∈ ["console", "root", "rw"].map text, ¬text "verifier_ip" <:+ k
  decide

def Launch.common (l : Launch) : List Parameter :=
  [⟨text "console", some (text "ttyS0")⟩, ⟨text "root", some (text "/dev/ram0")⟩,
    ⟨text "rw", none⟩, ⟨text "verifier_ip", some l.verifierIP⟩,
    ⟨text "verifier_port", some l.verifierPort⟩]

theorem Launch.Plain.workerID (h : l.Plain) :
    cmdlineParam (text "ray_worker_id") (cmdline l.parameters) =
      if l.confidential then [] else l.workerID := by
  cases hmode : l.confidential with
  | true =>
    have hleft : ∀ p ∈ l.parameters, p.key ≠ text "ray_worker_id" := by
      rw [Launch.parameters, hmode]
      by_cases hstore : l.objectStoreMB = [] <;> by_cases hthreshold : l.memoryThreshold = [] <;>
        simp [optional, hstore, hthreshold, text]
    have hother : ∀ k ∈ launchKeys.erase (text "ray_worker_id"), ¬text "ray_worker_id" <:+ k := by
      decide
    exact Launch.absent h (plain_text (by decide)) fun k hk =>
      hother k (Launch.keys_erase _ hleft k hk)
  | false =>
    refine Launch.value h l.common (⟨text "atls_snp_attestation", some (text "false")⟩ ::
      (optional "ray_object_store_mb" l.objectStoreMB ++
        optional "ray_memory_threshold" l.memoryThreshold)) ?_ (by decide) ?_
    · rw [Launch.parameters, hmode]
      simp [Launch.common]
    · change ∀ k ∈ ["console", "root", "rw", "verifier_ip", "verifier_port"].map text,
        ¬text "ray_worker_id" <:+ k
      decide

theorem Launch.Plain.objectStore (h : l.Plain) :
    cmdlineParam (text "ray_object_store_mb") (cmdline l.parameters) = l.objectStoreMB := by
  by_cases hstore : l.objectStoreMB = []
  · have hleft : ∀ p ∈ l.parameters, p.key ≠ text "ray_object_store_mb" := by
      rw [Launch.parameters]
      cases l.confidential <;> by_cases hthreshold : l.memoryThreshold = [] <;>
        simp [optional, hstore, hthreshold, text]
    have hother : ∀ k ∈ launchKeys.erase (text "ray_object_store_mb"),
        ¬text "ray_object_store_mb" <:+ k := by decide
    rw [hstore]
    exact Launch.absent h (plain_text (by decide)) fun k hk =>
      hother k (Launch.keys_erase _ hleft k hk)
  · refine Launch.value h (l.common ++ (if l.confidential then
        [⟨text "atls_snp_attestation", some (text "true")⟩]
      else [⟨text "ray_worker_id", some l.workerID⟩,
        ⟨text "atls_snp_attestation", some (text "false")⟩]))
      (optional "ray_memory_threshold" l.memoryThreshold) ?_ (by decide) ?_
    · simp [Launch.parameters, Launch.common, optional, hstore]
    · have hother : ∀ k ∈ ["console", "root", "rw", "verifier_ip", "verifier_port",
          "ray_worker_id", "atls_snp_attestation"].map text, ¬text "ray_object_store_mb" <:+ k := by
        decide
      intro k hk
      refine hother k ?_
      cases hmode : l.confidential with
      | true =>
        rw [hmode] at hk
        have hsome : ∀ k ∈ ["console", "root", "rw", "verifier_ip", "verifier_port",
            "atls_snp_attestation"].map text, k ∈ ["console", "root", "rw", "verifier_ip",
            "verifier_port", "ray_worker_id", "atls_snp_attestation"].map text := by decide
        exact hsome k hk
      | false =>
        rw [hmode] at hk
        exact hk

end Launched

/-- Every part of a worker reads what the worker was launched with, unless its environment names
another head node. -/
theorem launch_read (l : Launch) (h : l.Plain) (src : Source)
    (hfile : src.readFile kernelCmdlinePath = .ok (cmdline l.parameters ++ ['\n']))
    (haddr : trimSpace (src.getenv "ATLS_ADDR") = [])
    (henv : verifierAddressFromSource (src.getenv "VERIFIER_IP") (src.getenv "VERIFIER_PORT") =
      none) : l.Read src := by
  obtain ⟨hip, hport, hattestation⟩ := Launch.address h
  refine ⟨?_, ?_, h.headIP, h.workerID, h.objectStore, fun key hkey => ?_⟩
  · have hboth : verifierAddressFromSource l.verifierIP l.verifierPort =
        some (joinHostPort l.verifierIP l.verifierPort) := by
      rw [verifierAddressFromSource, trimSpace_plain h.plainIP, trimSpace_plain h.plainPort]
      exact if_neg (not_or.mpr ⟨h.ip, h.port⟩)
    simp only [resolveDialAddress, haddr, henv, hfile, hip, hport, hboth, Option.getD_some, ne_eq,
      not_true_eq_false, if_false]
  · simp only [resolveSEVSNPAttestation, hfile, hattestation]
    cases l.confidential <;> rfl
  · have hother : ∀ key ∈ [text "ray_worker_ip", text "ray_memory_monitor_ms"], PlainText key ∧
        ∀ k ∈ launchKeys, ¬key <:+ k := by
      intro key hkey
      simp only [List.mem_cons, List.not_mem_nil, or_false] at hkey
      obtain rfl | rfl := hkey
      · exact ⟨plain_text (by decide), by decide⟩
      · exact ⟨plain_text (by decide), by decide⟩
    obtain ⟨hplain, hsuffix⟩ := hother key hkey
    refine Launch.absent h hplain fun k hk => ?_
    obtain ⟨p, hp, rfl⟩ := List.mem_map.mp hk
    exact hsuffix _ (Launch.keys hp)

/-- A machine without SEV for the first worker. -/
theorem plain_launch_read : ∃ src : Source,
    resolveDialAddress src = text "192.168.100.1:9443" ∧
      resolveSEVSNPAttestation src = .ok false ∧
      cmdlineParam (text "verifier_ip") (cmdline (Launch.parameters
        ⟨false, text "192.168.100.1", text "9443", text "1", [], []⟩)) = text "192.168.100.1" := by
  let l : Launch := ⟨false, text "192.168.100.1", text "9443", text "1", [], []⟩
  have hread := launch_read l
    ⟨by decide, by decide, plain_text (by decide), plain_text (by decide), plain_text (by decide),
      fun c hc => (by cases hc), fun c hc => (by cases hc)⟩
    ⟨fun _ => [], fun _ => .ok (cmdline l.parameters ++ ['\n'])⟩ rfl rfl rfl
  exact ⟨_, hread.address, hread.attestation, hread.headIP⟩

end DistributedEnclave.Atls.WorkerSettings
