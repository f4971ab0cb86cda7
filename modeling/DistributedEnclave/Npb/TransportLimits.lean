import DistributedEnclave.Npb.BenchmarkOutcome
import DistributedEnclave.Npb.Options

/-! Which of the configurations that `main` admits have messages that the bulk functions
refuse. -/
namespace DistributedEnclave.Npb
open DistributedEnclave.Programs DistributedEnclave.Octets
open Cluster (chars)
open Taskq (Head masterBody InStep idleHost servingSites servingSites_attend)

def bulkLimit (encrypt : Bool) : Nat := if encrypt then intMax-npub-abytes else intMax

theorem bulkFits_iff {encrypt : Bool} {len : Nat} :
    BulkFits encrypt len ↔ len ≤ bulkLimit encrypt := by
  have hle : intMax-npub-abytes ≤ intMax := by decide
  cases encrypt with
  | true => exact ⟨fun h => h.2 rfl, fun h => ⟨h.trans hle, fun _ => h⟩⟩
  | false => exact ⟨fun h => h.1, fun h => ⟨h, fun hfalse => absurd hfalse (by decide)⟩⟩

def lastRows (a : Arguments) : Nat := a.cgN-(a.nworkers-1)*(a.cgN/a.nworkers)

/-- The vector of CG and the values of the largest block of rows can be sent. -/
structure Arguments.WithinLimits (a : Arguments) : Prop where
  vector : a.cgN*sizeofDouble ≤ bulkLimit a.encrypt
  block : lastRows a*a.cgNzpc*sizeofDouble ≤ bulkLimit a.encrypt

section Sizes
variable {a : Arguments} {w : Nat}

theorem rowCount_last : rowCount a (a.nworkers-1) = lastRows a := by
  rw [rowCount, if_pos rfl]
  rfl

theorem rowCount_le_last (ha : a.Admitted) : rowCount a w ≤ lastRows a := by
  by_cases hw : w = a.nworkers-1
  · rw [hw, rowCount_last]
  obtain ⟨n, hn⟩ := Nat.exists_eq_add_of_lt ha.workers.1
  have hmul := Nat.mul_div_le a.cgN a.nworkers
  rw [rowCount, if_neg hw, rowsPerWorker, lastRows]
  rw [Nat.zero_add] at hn
  rw [hn, Nat.add_mul, Nat.one_mul] at hmul
  rw [hn, Nat.add_sub_cancel]
  omega

/-- The pointers of a block are no longer than the vector. -/
theorem pointers_le (ha : a.Admitted) (hw : w < a.nworkers) :
    (rowCount a w+1)*sizeofInt ≤ a.cgN*sizeofDouble := by
  have hrows := rowCount_le hw
  have hcgN := ha.cgN.1
  simp only [sizeofInt, sizeofDouble]
  omega

theorem cgFits_iff (ha : a.Admitted) : a.CgFits ↔ a.WithinLimits := by
  refine ⟨fun h => ⟨bulkFits_iff.mp h.vector, ?_⟩, fun h => ⟨bulkFits_iff.mpr h.vector, ?_, ?_⟩⟩
  · have hlast : a.nworkers-1 < a.nworkers := Nat.sub_lt ha.workers.1 Nat.one_pos
    rw [← rowCount_last]
    exact bulkFits_iff.mp (h.vals _ hlast)
  · intro w hw
    exact bulkFits_iff.mpr ((pointers_le ha hw).trans h.vector)
  · intro w _
    have hle := Nat.mul_le_mul_right (a.cgNzpc*sizeofDouble) (rowCount_le_last (w := w) ha)
    rw [← Nat.mul_assoc, ← Nat.mul_assoc] at hle
    exact bulkFits_iff.mpr (hle.trans h.block)

end Sizes

section Sends
variable {L R L' R' D : Type}
  {body : (Party Nat L R).Loop → Prog (Party Nat L R) (Party Nat L R).Result}
  {work : (Party Unit L' R').Loop → Prog (Party Unit L' R') (Party Unit L' R').Result}
  {p len n : Nat} {data : Payload} {tag : Int32} {encrypt : Bool}

def SentAtMost (n : Nat) (c : Counters) : Prop := c.sendNonceCtr ≤ n

variable (body work) in
abbrev Passes (p n m : Nat) (x : Code (Party Nat L R) Counters Unit)
    (before after : Code (Party Unit L' R') Counters D) : Prop :=
  Leads (fabric L R work) body Counters.mirror p (SentAtMost n) (SentAtMost m) x before after

variable (body work) in
abbrev Refuses (p n : Nat) (x : Code (Party Nat L R) Counters Unit)
    (before : Code (Party Unit L' R') Counters D) : Prop :=
  Fails (fabric L R work) body Counters.mirror p (SentAtMost n) Reason.fatal x before

theorem sendSealed_passes (hlen : data.size = len) (hn : n < uint64Max)
    (k : Option Payload → Code (Party Unit L' R') Counters D) :
    Passes body work p n (n+1) (sendSealed p data tag) (recvSealed () len tag >>= k)
      (k (some data)) := by
  intro c e hc he
  obtain ⟨rest, hrecv, hrest⟩ := recvSealed_takes hlen _ k (c p).mirror
  have hnext : (e p).next (fabric L R work) = .recv () ⟨tag, len, true⟩ rest := by
    rw [Site.Runs, hrecv] at he
    exact he
  have hctr : (c p).sendNonceCtr ≠ uint64Max := (lt_of_le_of_lt hc hn).ne
  rw [sendSealed, if_neg hctr]
  refine ⟨_, _, .single (.send ⟨(), _, rest, 0, hnext, rfl, rfl⟩), ?_, ?_, ?_⟩
  · rw [Function.update_self]
    exact Nat.succ_le_succ hc
  · rw [Function.update_self]
    refine Site.update_runs (Site.take_runs _ _ _ _ (hrest.trans ?_))
    exact congrArg (k (some data)) (Counters.mirror_send (c p))
  · intro v hv
    exact ⟨Function.update_of_ne hv .., Function.update_of_ne hv ..⟩

theorem sendPlain_passes (hlen : data.size = len)
    (k : Option Payload → Code (Party Unit L' R') Counters D) :
    Passes body work p n (n+1) (sendPlain p data tag) (recvPlain () len tag >>= k)
      (k (some data)) := by
  intro c e hc he
  obtain ⟨rest, hrecv, hrest⟩ := recvPlain_takes hlen _ k (c p).mirror
  have hnext : (e p).next (fabric L R work) = .recv () ⟨tag, len, false⟩ rest := by
    rw [Site.Runs, hrecv] at he
    exact he
  refine ⟨_, _, .single (.send ⟨(), _, rest, 0, hnext, rfl, rfl⟩), Nat.le_succ_of_le hc, ?_, ?_⟩
  · exact Site.update_runs (Site.take_runs _ _ _ _ hrest)
  · intro v hv
    exact ⟨rfl, Function.update_of_ne hv ..⟩

theorem secureSendMsg_passes (hlen : data.size = len) (hsmall : len ≤ secureMaxPlain)
    (hn : n < uint64Max) (k : Option Payload → Code (Party Unit L' R') Counters D) :
    Passes body work p n (n+1) (secureSendMsg p data tag) (secureRecvMsg () len tag >>= k)
      (k (some data)) := by
  have hdata : ¬data.size > secureMaxPlain := Nat.not_lt.mpr (hlen.trans_le hsmall)
  rw [secureSendMsg, secureRecvMsg, if_neg hdata, if_neg (Nat.not_lt.mpr hsmall)]
  exact sendSealed_passes hlen hn k

theorem sendBulkMsg_passes (hlen : data.size = len) (hfits : BulkFits encrypt len)
    (hn : n < uint64Max) (k : Option Payload → Code (Party Unit L' R') Counters D) :
    Passes body work p n (n+1) (sendBulkMsg p data tag encrypt)
      (recvBulkMsg () len tag encrypt >>= k) (k (some data)) := by
  rw [sendBulkMsg, recvBulkMsg, hlen, if_neg (Nat.not_lt.mpr hfits.1),
    if_neg (Nat.not_lt.mpr hfits.1)]
  cases encrypt with
  | true =>
    have hsealed := Nat.not_lt.mpr (hfits.2 rfl)
    simp only [Bool.not_true, Bool.false_eq_true, if_false, gt_iff_lt, if_neg hsealed]
    exact sendSealed_passes hlen hn k
  | false => exact sendPlain_passes hlen k

/-- What does not fit is not sent at all. -/
theorem sendBulkMsg_refused (hfits : ¬BulkFits encrypt data.size) :
    (sendBulkMsg p data tag encrypt : Code (Party Nat L R) Counters Unit) = mpiAbort .fatal := by
  rw [sendBulkMsg]
  split
  · rfl
  rename_i hint
  cases encrypt with
  | false => exact absurd ⟨Nat.not_lt.mp hint, fun hfalse => absurd hfalse (by decide)⟩ hfits
  | true =>
    have hsealed : data.size > intMax-npub-abytes := by
      by_contra hle
      exact hfits ⟨Nat.not_lt.mp hint, fun _ => Nat.not_lt.mp hle⟩
    simp only [Bool.not_true, Bool.false_eq_true, if_false, if_pos hsealed]

theorem mpiAbort_refuses {before : Code (Party Unit L' R') Counters D} :
    Refuses body work p n (mpiAbort .fatal) before := fun _ e _ _ => ⟨e, .refl⟩

end Sends

section Start
variable {machine host : Host} {hosts : Nat → Host} {a : Arguments} {w : Nat}
  {body : (Party Nat Head Int).Loop → Prog (Party Nat Head Int) (Party Nat Head Int).Result}

theorem command_passes {cmd : NpbCmd} {n : Nat} (hn : n < uint64Max) :
    Passes body workerBody w n (n+1) (secureSendMsg w (.cmd cmd) tagNpbCmd)
      (enter (.commands host)) (serveCommand host cmd) := by
  refine Leads.of_settle (commands_settle host) ?_
  have hsize : (Payload.cmd cmd).size = sizeofNpbCmd := rfl
  exact secureSendMsg_passes hsize (by decide) hn _

variable (body) in
def Either (C : Prop) (w n m : Nat) (x : MasterCode Unit) (before after : WorkerCode Int) : Prop :=
  (C ∧ Passes body workerBody w n m x before after) ∨ Refuses body workerBody w n x before

theorem Either.after_passes {C : Prop} {n n' m : Nat} {x : MasterCode Unit}
    {f : Unit → MasterCode Unit} {before mid after : WorkerCode Int}
    (hx : Passes body workerBody w n n' x before mid) (hf : Either body C w n' m (f ()) mid after) :
    Either body C w n m (x >>= f) before after := by
  cases hf with
  | inl hpass => exact .inl ⟨hpass.1, hx.bind hpass.2⟩
  | inr hrefuse => exact .inr (hx.fails hrefuse)

theorem Either.mono {C C' : Prop} {n m : Nat} {x : MasterCode Unit} {before after : WorkerCode Int}
    (hx : Either body C w n m x before after) (h : C → C') :
    Either body C' w n m x before after :=
  hx.imp_left fun hpass => ⟨h hpass.1, hpass.2⟩

section Bulk
variable {data : Payload} {tag : Int32} {len n m : Nat} {encrypt : Bool}
  {k : Option Payload → WorkerCode Int}

/-- A bulk message that fits is received, and one that does not ends the job. -/
theorem sendBulkMsg_either {after : WorkerCode Int} (hlen : data.size = len) (hn : n < uint64Max)
    (hafter : k (some data) = after) :
    Either body (BulkFits encrypt len) w n (n+1) (sendBulkMsg w data tag encrypt)
      (recvBulkMsg () len tag encrypt >>= k) after := by
  subst hafter
  by_cases hfits : BulkFits encrypt len
  · exact .inl ⟨hfits, sendBulkMsg_passes hlen hfits hn k⟩
  · rw [sendBulkMsg_refused (by rwa [hlen])]
    exact .inr mpiAbort_refuses

theorem sendBulkMsg_then {C : Prop} {f : Unit → MasterCode Unit} {after : WorkerCode Int}
    (hlen : data.size = len) (hn : n < uint64Max)
    (h : Either body C w (n+1) m (f ()) (k (some data)) after) :
    Either body C w n m (sendBulkMsg w data tag encrypt >>= f)
      (recvBulkMsg () len tag encrypt >>= k) after := by
  have hsent : Either body (BulkFits encrypt len) w n (n+1) (sendBulkMsg w data tag encrypt)
      (recvBulkMsg () len tag encrypt >>= k) (k (some data)) := sendBulkMsg_either hlen hn rfl
  cases hsent with
  | inl hpass => exact .after_passes hpass.2 h
  | inr hrefuse => exact .inr hrefuse.bind

end Bulk

variable (machine host a w) in
/-- A worker is given its block, or the values of the block are too long for a message. -/
theorem startCg_either (ha : a.Admitted) (hw : w < a.nworkers) (hbuild : host.Permits a.encrypt) :
    Either body (BulkFits a.encrypt (rowCount a w*a.cgNzpc*sizeofDouble)) w 0 4
      (startCg machine a w) (enter (.commands host))
      (cgRuns machine host a w (runs a.numRuns)) := by
  have hencrypt : decide ((cgCmd a w).encryptData ≠ 0) = a.encrypt := encrypts a.encrypt
  have hiters : (cgCmd a w).cgIters.toInt.toNat = a.cgIters := toNat_ofNat ha.cgIters.2
  rw [startCg]
  refine .after_passes (command_passes (by decide)) ?_
  rw [serveCommand_start workloadCg rfl rfl hbuild.plain, if_neg (by decide), if_pos rfl,
    runCgWorkload, if_neg (cgCmd_valid ha hw), bind_assoc, hencrypt, cgCmd_rows ha hw]
  refine sendBulkMsg_then localRowPtr_size (by decide) ?_
  simp only [localRowPtr_last ha hw, if_neg (Int.not_lt.mpr (Int.natCast_nonneg _)),
    Int.toNat_natCast]
  rw [bind_assoc]
  refine sendBulkMsg_then (cols_size ha hw) (by decide) ?_
  rw [bind_assoc]
  refine sendBulkMsg_either (vals_size ha hw) (by decide) ?_
  simp only [hiters]
  rfl

end Start

section Master
variable {machine : Host} {hosts : Nat → Host} {a : Arguments} {x y : List Binary64}

theorem range_workers (ha : a.Admitted) :
    List.range a.nworkers = 0 :: (List.range (a.nworkers-1)).map Nat.succ := by
  rw [← List.range_succ_eq_map]
  congr 1
  have := ha.workers.1
  omega

/-- The first iteration begins with the vector. -/
theorem cgMasterIter_refused (ha : a.Admitted) (hnot : ¬BulkFits a.encrypt (a.cgN*sizeofDouble))
    (hx : x.length = a.cgN) : cgMasterIter machine a (x, y) = mpiAbort .fatal := by
  have hrefused : ¬BulkFits a.encrypt (Payload.doubles x).size := by rwa [Payload.size, hx]
  rw [cgMasterIter, range_workers ha, forEach, sendBulkMsg_refused hrefused]
  rfl

theorem cgMasterRun_refused (ha : a.Admitted) (hnot : ¬BulkFits a.encrypt (a.cgN*sizeofDouble))
    (run : Int32) : cgMasterRun machine a y run = mpiAbort .fatal := by
  obtain ⟨n, hn⟩ := Nat.exists_eq_succ_of_ne_zero ha.cgIters.1.ne'
  have hfirst : cgMasterIter machine a (initialX a, y) = mpiAbort .fatal :=
    cgMasterIter_refused ha hnot List.length_replicate
  rw [cgMasterRun, hn, List.range_succ_eq_map, List.foldlM_cons, hfirst]
  rfl

theorem runs_begin (ha : a.Admitted) : ∃ run rest, runs a.numRuns = run :: rest := by
  obtain ⟨n, hn⟩ : ∃ n, a.numRuns.toInt.toNat = n+1 := by
    refine Nat.exists_eq_succ_of_ne_zero ?_
    have := ha.runs.1
    omega
  rw [runs, hn, List.range'_succ, List.map_cons]
  exact ⟨_, _, rfl⟩

theorem cgRuns_refused (ha : a.Admitted) (hnot : ¬BulkFits a.encrypt (a.cgN*sizeofDouble)) :
    (runs a.numRuns).foldlM (cgMasterRun machine a) y = mpiAbort .fatal := by
  obtain ⟨run, rest, hruns⟩ := runs_begin ha
  rw [hruns, List.foldlM_cons, cgMasterRun_refused ha hnot]
  rfl

/-- Where a block is too long, its worker is not started; else the first vector is refused. -/
theorem runCgMaster_refused (machine : Host) (ha : a.Admitted) (hnot : ¬a.CgFits)
    (hbuild : ∀ w < a.nworkers, (hosts w).Permits a.encrypt) {c : Nat → Counters} {e : Sites}
    (he : ∀ w ∈ List.range a.nworkers, SentAtMost 0 (c w) ∧
      (e w).Runs workers (enter (.commands (hosts w)) (c w).mirror)) :
    ∃ e', Steps (rendezvous workers (Int × (Unit → Counters))) (masterBody (taskqParams a))
      (runCgMaster machine a c, e) (.abort .fatal, e') := by
  have heither : ∀ w ∈ List.range a.nworkers, Either (masterBody (taskqParams a))
      (BulkFits a.encrypt (rowCount a w*a.cgNzpc*sizeofDouble)) w 0 4 (startCg machine a w)
      (enter (.commands (hosts w))) (cgRuns machine (hosts w) a w (runs a.numRuns)) := by
    intro w hw
    have hlt := List.mem_range.mp hw
    exact startCg_either machine (hosts w) a w ha hlt (hbuild w hlt)
  rw [runCgMaster, if_neg ha.matrix]
  by_cases hblock : ∃ w ∈ List.range a.nworkers, Refuses (masterBody (taskqParams a)) workerBody w 0
      (startCg machine a w) (enter (.commands (hosts w)))
  · obtain ⟨w, hw, hrefuses⟩ := hblock
    obtain ⟨e', hsteps⟩ := Fails.forEach (S := Party Nat Head Int) (F := workers)
      List.nodup_range (fun w hw => (heither w hw).imp_left And.right) hw hrefuses c e he
    exact ⟨e', hsteps.bind _⟩
  have hpass : ∀ w ∈ List.range a.nworkers,
      BulkFits a.encrypt (rowCount a w*a.cgNzpc*sizeofDouble) ∧
        Passes (masterBody (taskqParams a)) workerBody w 0 4 (startCg machine a w)
          (enter (.commands (hosts w))) (cgRuns machine (hosts w) a w (runs a.numRuns)) :=
    fun w hw => (heither w hw).resolve_right fun hrefuses => hblock ⟨w, hw, hrefuses⟩
  have hvector : ¬BulkFits a.encrypt (a.cgN*sizeofDouble) := by
    intro hfits
    refine hnot ⟨hfits, fun w hw => ?_, fun w hw => (hpass w (List.mem_range.mpr hw)).1⟩
    exact bulkFits_iff.mpr ((pointers_le ha hw).trans (bulkFits_iff.mp hfits))
  obtain ⟨c₁, e₁, hsteps⟩ := Leads.forEach (S := Party Nat Head Int) (F := workers)
    List.nodup_range (fun w hw => (hpass w hw).2) c e he
  refine ⟨e₁, (hsteps.bind _).trans ?_⟩
  change Steps _ _ (((runs a.numRuns).foldlM (cgMasterRun machine a) (List.replicate a.cgN 0) >>=
    fun _ => pure 0 : MasterCode Int) c₁, e₁) _
  rw [cgRuns_refused ha hvector]
  exact .refl

theorem masterMain_refused (machine : Host) (ha : a.Admitted) (hcg : a.workload = workloadCg)
    (hnot : ¬a.CgFits) (hbuild : ∀ w < a.nworkers, (hosts w).Permits a.encrypt)
    {c : Nat → Counters} {e : Sites} (he : ∀ w ∈ List.range a.nworkers, SentAtMost 0 (c w) ∧
      (e w).Runs workers (enter (.commands (hosts w)) (c w).mirror)) :
    ∃ e', Reached machine a c e (.abort .fatal) e' := by
  obtain ⟨e', hsteps⟩ := runCgMaster_refused machine ha hnot hbuild he
  have hworkload : runWorkload machine a = runCgMaster machine a := by
    rw [runWorkload, hcg, if_neg (by decide), if_pos rfl]
  rw [← hworkload] at hsteps
  exact ⟨e', hsteps.bind _⟩

end Master

/-- The job has been aborted for another reason than a lack of nonces, by the master or by a
worker that the master turns to. -/
def Aborted (x : Prog (Party Nat Head Int) (Unit × (Nat → Counters))) (e : Sites) : Prop :=
  x = .abort .fatal ∨ ∃ w, x.action.bind Action.peer = some w ∧
    (rendezvous workers (Int × (Unit → Counters))).stopped e w .fatal

/-- Whoever enrols: no run of the benchmark phase ends in such an abort. -/
def Arguments.Runnable (a : Arguments) : Prop :=
  ∀ machine hosts c e, Attending hosts a.nworkers a.encrypt c e →
    ∀ x e', Reached machine a c e x e' → ¬Aborted x e'

def permissiveSites : Sites := fun _ =>
  { prog := enter (.commands baselineHost) (Counters.mirror {}), delay := 0 }

theorem permissiveSites_attend (nworkers : Nat) (encrypt : Bool) :
    Attending (fun _ => baselineHost) nworkers encrypt (fun _ => {}) permissiveSites where
  permits := fun _ _ _ => rfl
  ready := fun _ _ => rfl

section Runnable
variable {a : Arguments}

/-- A job whose runs only end for a lack of nonces is not aborted otherwise. -/
theorem not_aborted {J : Action (Party Nat Head Int) → Sites → Prop}
    {Q : Unit × (Nat → Counters) → Sites → Prop}
    {x : Prog (Party Nat Head Int) (Unit × (Nat → Counters))} {e : Sites}
    (h : Status (rendezvous workers (Int × (Unit → Counters))) (masterBody (taskqParams a)) J
      RanOut Q x e) : ¬Aborted x e := by
  intro hbad
  obtain rfl | ⟨w, hpeer, hstopped⟩ := hbad
  · cases h with
    | returned b hx _ => cases hx
    | aborted r hx hr =>
      cases hx
      cases hr.1
    | stopped p r hx _ _ => cases hx
    | running b hx _ _ => cases hx
  · cases h with
    | returned b hx _ =>
      subst hx
      cases hpeer
    | aborted r hx _ =>
      subst hx
      cases hpeer
    | stopped p r hx hs hr =>
      rw [hpeer] at hx
      cases hx
      -- the worker has ended for one reason only
      obtain ⟨r₁, hnext₁, rfl⟩ := hs
      obtain ⟨r₂, hnext₂, heq⟩ := hstopped
      rw [hnext₁] at hnext₂
      cases hnext₂
      rw [hr.1] at heq
      cases heq
    | running b hx _ next =>
      obtain ⟨s, hstep⟩ := next
      rw [hx] at hpeer
      exact hstep.not_stopped hx hpeer hstopped

def recorded (nworkers : Nat) (c : Nat → Counters) (e : Sites) : Sites := fun w =>
  let nonces := fun n => if w < nworkers then List.replicate n ⟨0, .sealed 0 (.octets [])⟩ else []
  { e w with
    taken := nonces (c w).sendNonceCtr
    given := nonces (c w).recvNonceCtr }

theorem recorded_accounted {hosts : Nat → Host} {nworkers : Nat} {encrypt : Bool}
    {c : Nat → Counters} {e : Sites} (he : Attending hosts nworkers encrypt c e) :
    Accounted hosts nworkers encrypt c (recorded nworkers c e) where
  permits := he.permits
  ready := he.ready
  carried := by
    intro w hw
    have hw := List.mem_range.mp hw
    constructor <;> simp [recorded, hw, sealedCount, List.countP_replicate, Wire.isSealed]
  silent := by
    intro w hw
    have hw := Nat.not_lt.mpr hw
    simp [recorded, hw]

/-- Whether a job aborts does not depend on the histories. -/
theorem Aborted.alike {x : Prog (Party Nat Head Int) (Unit × (Nat → Counters))} {e e' : Sites}
    (h : Aborted x e) (he : ∀ w, (e w).Alike (e' w)) : Aborted x e' := by
  obtain hx | ⟨w, hpeer, r, hnext, hr⟩ := h
  · exact .inl hx
  · exact .inr ⟨w, hpeer, r, ((he w).next).trans hnext, hr⟩

theorem runnable_of_fits (ha : a.Admitted) (hfits : a.workload = workloadCg → a.CgFits) :
    a.Runnable := by
  intro machine hosts c e he x e' hsteps hbad
  have hend := (recorded_accounted he).ensures machine ha hfits
  have halike : ∀ w, (e w).Alike (recorded a.nworkers c e w) := fun _ => ⟨rfl, rfl⟩
  obtain ⟨e₁, hsteps₁, he₁⟩ := hsteps.alike halike
  exact not_aborted (hend.steps hsteps₁).status (hbad.alike he₁)

theorem runnable_iff (ha : a.Admitted) :
    a.Runnable ↔ (a.workload = workloadCg → a.WithinLimits) := by
  refine ⟨fun h hcg => ?_, fun h => runnable_of_fits ha fun hcg => (cgFits_iff ha).mpr (h hcg)⟩
  by_contra hnot
  have hattend := permissiveSites_attend a.nworkers a.encrypt
  have hfits : ¬a.CgFits := fun hfits => hnot ((cgFits_iff ha).mp hfits)
  obtain ⟨e', hsteps⟩ := masterMain_refused idleHost ha hcg hfits hattend.permits
    (c := fun _ => {}) (fun w hw => ⟨Nat.le_refl 0, hattend.ready w hw⟩)
  exact h idleHost _ _ _ hattend _ e' hsteps (.inl rfl)

end Runnable

/-- The configurations that `main` admits can be run exactly where the messages of CG fit. -/
theorem configuration_runnable_iff {skipAttestation : Bool} {argv : List Bytes} {a : Arguments}
    (h : mainArguments skipAttestation argv = .ok a) :
    a.Runnable ↔ (a.workload = workloadCg → a.WithinLimits) :=
  runnable_iff (mainArguments_admitted h).1

def defaultMatrix : Arguments := { workload := workloadCg }

theorem defaultMatrix_runnable_iff :
    mainArguments false [chars "--workload", chars "cg"] = .ok defaultMatrix ∧
      (defaultMatrix.Runnable ↔ (defaultMatrix.workload = workloadCg → defaultMatrix.WithinLimits)) :=
  ⟨rfl, configuration_runnable_iff (show mainArguments false
    [chars "--workload", chars "cg"] = .ok defaultMatrix from rfl)⟩

def longVector : Arguments := { workload := workloadCg, cgN := 268435456, cgNzpc := 1 }

/-- The job is admitted, the workers attend, and the master aborts. -/
theorem longVector_aborts :
    mainArguments false [chars "--workload", chars "cg", chars "--cg-n", chars "268435456",
        chars "--cg-nzpc", chars "1"] = .ok longVector ∧
      Attending (fun _ => idleHost) longVector.nworkers longVector.encrypt (fun _ => {})
        servingSites ∧
      ∃ e', Reached idleHost longVector (fun _ => {}) servingSites (.abort .fatal) e' := by
  have ha : longVector.Admitted := by constructor <;> decide
  have hfits : ¬longVector.CgFits := fun hfits => absurd hfits.vector (by decide)
  have hattend := servingSites_attend longVector.nworkers
  exact ⟨rfl, hattend.toAttending, masterMain_refused idleHost ha rfl hfits hattend.permits
    (fun w hw => ⟨Nat.le_refl 0, hattend.ready w hw⟩)⟩

end DistributedEnclave.Npb
