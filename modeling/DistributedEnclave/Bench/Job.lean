import DistributedEnclave.Bench.Session

/-! The whole DGEMM job among honest workers: every run of master and workers comes to its end,
with the product of every size that divides evenly and a record of each of its runs. -/
namespace DistributedEnclave.Bench
open CheckedInts Npb Octets Outcome Programs

abbrev Sites : Type := Nat → Site (Party Unit (Host × Nat) Int) (Int × (Unit → Counters))

abbrev workers : Fabric (Party Nat Empty Unit) (Party Unit (Host × Nat) Int) :=
  fabric Empty Unit workerBody

def masterBody (l : (Party Nat Empty Unit).Loop) :
    Prog (Party Nat Empty Unit) (Party Nat Empty Unit).Result := l.1.elim

abbrev Awaited : Action (Party Nat Empty Unit) → Sites → Prop :=
  Matched workers fun l _ => l.1.elim

abbrev ServesAll {A : Type} (k : Nat)
    (K : Nat → Counters → Site (Party Unit (Host × Nat) Int) (Int × (Unit → Counters)) → Prop)
    (x : MasterCode A) (good : A → Prop)
    (K' : A → Nat → Counters → Site (Party Unit (Host × Nat) Int) (Int × (Unit → Counters)) →
      Prop) : Prop :=
  Exchanges workers masterBody Awaited (fun _ _ _ => False) (List.range k) K x good K'

abbrev ServesOne {A : Type} (p n : Nat) (x : MasterCode A) (before : WorkerCode Int)
    (good : A → Prop) (m : Nat) (after : A → WorkerCode Int) : Prop :=
  Serves masterBody workerBody (fun l _ => l.1.elim) p n x before good m after

abbrev About (n : Nat) (x : WorkerCode Int) (s : Counters)
    (site : Site (Party Unit (Host × Nat) Int) (Int × (Unit → Counters))) : Prop :=
  Ready Empty Unit workerBody n x s site

theorem checked_bind {P L R A B : Type} {x : Checked A} {y : A} (h : x = .ok y)
    (k : A → Code (Party P L R) Counters B) : (checked x >>= k) = k y := by
  rw [h, checked, pure_bind]

theorem flag_encrypts (encrypt : Bool) :
    decide ((if encrypt then (1 : Int) else 0) ≠ 0) = encrypt := by
  cases encrypt <;> rfl

theorem commands_settle (host : Host) (served : Nat) (t : Unit → Counters) :
    ((enter (host, served) : WorkerCode Int) t).settle workerBody =
      (commandLoop host served t).settle workerBody := by
  change ((commandLoop host served t).bind .ret).settle workerBody = _
  rw [Prog.bind_ret]

section Commands
variable {host : Host} {cmd : BenchCmd} {served p n : Nat}

theorem command_serves (hcmd : cmd.InRange) :
    ServesOne p (n+1) (secureSend p (.octets cmd.octets) tagBenchCmd) (enter (host, served))
      (fun _ => True) n (fun _ => serveCommand host served cmd) := by
  have hsize : (Payload.octets cmd.octets).size = sizeofBenchCmd := cmd.octets_length
  have hloop : ServesOne p (n+1) (secureSend p (.octets cmd.octets) tagBenchCmd)
      (commandLoop host served) (fun _ => True) n
      (fun _ => serveCommand host served (readBenchCmd cmd.octets)) :=
    secureSend_serves hsize (by decide) _
  rw [readBenchCmd_octets hcmd] at hloop
  refine Exchange.before (S := Party Nat Empty Unit) ?_ hloop
  intro s site hs
  exact ⟨hs.1, hs.2.trans (commands_settle host served s.mirror)⟩

theorem doneCmd_inRange : doneCmd.InRange := by
  simp [BenchCmd.InRange, BenchCmd.fields, doneCmd, cmdBenchDone, minInt, maxInt]

theorem serveCommand_done : serveCommand host served doneCmd = pure 0 := rfl

end Commands

section Size
variable {hosts : Nat → Host} {host : Host} {a : Arguments} {M k r w N n : Nat}

theorem rowsCmd_inRange (h : Fits M k r) (hw : w < k) (hN : N ≤ 1000) {encrypt : Bool} :
    (rowsCmd M r w encrypt N).InRange := by
  have hle := h.block_le hw
  have hdim := h.le
  have hflag : minInt ≤ (if encrypt then (1 : Int) else 0) ∧
      (if encrypt then (1 : Int) else 0) ≤ maxInt := by
    cases encrypt <;> decide
  simp only [BenchCmd.InRange, BenchCmd.fields, rowsCmd, List.mem_cons, List.not_mem_nil, or_false,
    forall_eq_or_imp, forall_eq]
  refine ⟨by decide, ?_, ?_, ?_, hflag, ?_⟩
  all_goals
    simp only [minInt, maxInt]
    omega

variable (host M r w N) in
def pending (encrypt : Bool) (served : Nat) (C : List Binary64) (rest : List Int) :
    WorkerCode Int := do
  let _ ← rest.foldlM (workerStep host served (rowsCmd M r w encrypt N) ((r*M : Nat) : Int)
    ((M*M : Nat) : Int)) C
  enter (host, served+1)

variable (host M r w N) in
def answer (encrypt : Bool) (served : Nat) (C : List Binary64) (run : Int) (rest : List Int) :
    WorkerCode Int := do
  sendMatrix () C tagBenchC encrypt
  workloadSendSmall () (.time (host.ms served run)) tagBenchTime encrypt
  pending host M r w N encrypt served C rest

theorem allocateMatrix_eq {c : Nat} (hhost : host.allocates c = true) (hc : c ≤ 67108864) :
    host.allocateMatrix c = some (table c host.memory) := by
  have hsmall : ¬(c : Int) > (18446744073709551615 : Int)/8 := by omega
  rw [Host.allocateMatrix, if_neg hsmall, if_pos hhost, Int.toNat_natCast]

/-- A command for a size takes the worker to its first run. -/
theorem serveCommand_rows (h : Fits M k r) (hw : w < k) (hruns : 0 < N) (hmax : N ≤ 1000)
    {encrypt : Bool} {served : Nat} (hhost : ∀ c ≤ M*M, host.allocates (c : Nat) = true) :
    serveCommand host served (rowsCmd M r w encrypt N) =
      pending host M r w N encrypt served (table (r*M) host.memory) (runsUpTo N) := by
  have helems := h.elems_le hw
  have hsize := h.size_le
  have hstart : ¬(rowsCmd M r w encrypt N).cmd = cmdBenchDone := by
    change ¬cmdBenchSize = cmdBenchDone
    decide
  have hA : sizeT (sizeT (rowsCmd M r w encrypt N).rowCount*
      sizeT (rowsCmd M r w encrypt N).matrixSize) = ((r*M : Nat) : Int) := h.elems h.rows_le
  have hB : sizeT (sizeT (rowsCmd M r w encrypt N).matrixSize*
      sizeT (rowsCmd M r w encrypt N).matrixSize) = ((M*M : Nat) : Int) := h.elems le_rfl
  rw [serveCommand, if_neg hstart, validCmd_rowsCmd h hw hruns hmax, if_neg (by decide), hA, hB]
  dsimp only
  have hrows : r*M ≤ M*M := Nat.mul_le_mul_right M h.rows_le
  rw [allocateMatrix_eq (hhost _ hrows) (by omega), allocateMatrix_eq (hhost _ le_rfl) hsize]
  rfl

section Matrices
variable {fa fb : Nat → Binary64}

abbrev blockRows (M r w : Nat) (fa : Nat → Binary64) : Nat → Binary64 := fun i => fa (w*r*M+i)

theorem scatter_eq (h : Fits M k r) (hw : w < k) (hN : a.numRuns = N) :
    scatter a k M (table (M*M) fa) (table (M*M) fb) w = (do
      sendMatrix w (table (r*M) (blockRows M r w fa)) tagBenchA a.encrypt
      sendMatrix w (table (M*M) fb) tagBenchB a.encrypt) := by
  have hle := h.block_le hw
  have hdim := h.le
  have hsize := h.size_le
  have helems := h.elems_le hw
  have hcount : int ((rowsCmd M r w a.encrypt N).rowCount*(M : Int)) = .ok ((r*M : Nat) : Int) :=
    int_mul (by simp only [maxInt]; omega)
  have hfirst : sizeT (sizeT (rowsCmd M r w a.encrypt N).rowStart*sizeT (M : Int)) =
      ((w*r*M : Nat) : Int) := h.elems (by omega)
  have hwhole : region (table (M*M) fb) 0 ((M*M : Nat) : Int) = .ok (table (M*M) fb) := by
    have hregion : region (table (M*M) fb) ((0 : Nat) : Int) ((M*M : Nat) : Int) = .ok _ :=
      region_table (by omega)
    refine hregion.trans (congrArg Except.ok (table_congr fun i _ => ?_))
    rw [Nat.zero_add]
  rw [scatter, hN, checked_bind (benchCmd_eq h hw), checked_bind hcount, hfirst,
    checked_bind (region_table helems), h.elems le_rfl, checked_bind hwhole]

/-- The worker has received its operands and computed its rows. -/
theorem scatter_serves (h : Fits M k r) (hw : w < k) (hN : a.numRuns = N) {served : Nat}
    {f : Nat → Binary64} {run : Int} {rest : List Int} :
    ServesOne w (n+2) (scatter a k M (table (M*M) fa) (table (M*M) fb) w)
      (pending host M r w N a.encrypt served (table (r*M) f) (run::rest)) (fun _ => True) n
      (fun _ => answer host M r w N a.encrypt served
        (table (r*M) (product (blockRows M r w fa) fb M M)) run rest) := by
  have hsize := h.size_le
  have helems := h.elems_le hw
  have hdim := h.le
  have hrows := h.rows_le
  have hencrypt : decide ((rowsCmd M r w a.encrypt N).encryptData ≠ 0) = a.encrypt :=
    flag_encrypts a.encrypt
  have hlimit : M*M ≤ matrixLimit := hsize.trans (by decide)
  have hkernel : ppdpcDgemm (table (r*M) (blockRows M r w fa)) (table (M*M) fb) (table (r*M) f)
      (rowsCmd M r w a.encrypt N).rowCount (rowsCmd M r w a.encrypt N).matrixSize
      (rowsCmd M r w a.encrypt N).matrixSize =
      .ok (table (r*M) (product (blockRows M r w fa) fb M M)) :=
    ppdpcDgemm_eq _ fb f h.pos h.pos (by simp only [maxInt]; omega)
      (by simp only [maxInt]; omega) (by simp only [maxInt]; omega) (by omega) (by omega) (by omega)
  rw [scatter_eq h hw hN, pending, List.foldlM_cons, workerStep, hencrypt]
  simp only [bind_assoc]
  refine Exchange.bind (S := Party Nat Empty Unit)
    (sendMatrix_serves (n := n+1) (table_length : _ = r*M) (by omega) _) ?_
  intro _ _
  simp only [bind_assoc]
  refine Exchange.after (S := Party Nat Empty Unit)
    (sendMatrix_serves (n := n) (table_length : _ = M*M) hlimit _) ?_
  intro _ _
  refine ⟨trivial, fun s site hs => ?_⟩
  simp only [bind_assoc, pure_bind, checked_bind hkernel] at hs
  exact hs

def Measured (ms : Binary64) : Prop := ms.isfinite = true ∧ ms.lt 0 = false

theorem zero_measured : Measured 0 :=
  ⟨rfl, show decide ((0 : ℚ) < 0) = false from decide_eq_false (lt_irrefl 0)⟩

theorem longest_measured {t ms : Binary64} (ht : Measured t) (hms : Measured ms) :
    Measured (if t.lt ms then ms else t) := by
  split
  · exact hms
  · exact ht

variable (fa fb) in
def Gathered (M r w : Nat) (acc : List Binary64 × Binary64) : Prop :=
  (∃ f, acc.1 = table (M*M) (upTo (product fa fb M M) f (w*r*M))) ∧ Measured acc.2

theorem gather_serves (h : Fits M k r) (hw : w < k) (hN : a.numRuns = N) {served : Nat}
    {run : Int} {rest : List Int} {acc : List Binary64 × Binary64}
    (hacc : Gathered fa fb M r w acc) :
    ServesOne w (n+2) (gather a k M acc w)
      (answer host M r w N a.encrypt served
        (table (r*M) (product (blockRows M r w fa) fb M M)) run rest)
      (Gathered fa fb M r (w+1)) n
      (fun _ => pending host M r w N a.encrypt served
        (table (r*M) (product (blockRows M r w fa) fb M M)) rest) := by
  obtain ⟨⟨f, hC⟩, ht⟩ := hacc
  have hle := h.block_le hw
  have hdim := h.le
  have hsize := h.size_le
  have helems := h.elems_le hw
  have hlimit : r*M ≤ matrixLimit := le_trans (show r*M ≤ 67108864 by omega) (by decide)
  have hcount : int ((rowsCmd M r w a.encrypt N).rowCount*(M : Int)) = .ok ((r*M : Nat) : Int) :=
    int_mul (by simp only [maxInt]; omega)
  have hfirst : sizeT (sizeT (rowsCmd M r w a.encrypt N).rowStart*sizeT (M : Int)) =
      ((w*r*M : Nat) : Int) := h.elems (by omega)
  have hpart : table (r*M) (product (blockRows M r w fa) fb M M) =
      table (r*M) (fun i => product fa fb M M (w*r*M+i)) :=
    table_congr fun i _ => product_block fa fb h.pos
  have hend : w*r*M+r*M = (w+1)*r*M := by rw [Nat.add_mul w 1 r, Nat.one_mul, Nat.add_mul]
  have hstore : storeRegion acc.1 ((w*r*M : Nat) : Int)
      (table (r*M) (product (blockRows M r w fa) fb M M)) =
      .ok (table (M*M) (upTo (product fa fb M M) f ((w+1)*r*M))) := by
    rw [hC, hpart, storeRegion_upTo helems, hend]
  rw [gather, hN, checked_bind (benchCmd_eq h hw), checked_bind hcount, hfirst]
  refine Exchange.bind (S := Party Nat Empty Unit)
    (recvMatrix_serves (n := n+1) (table_length : _ = r*M) hlimit _) ?_
  intro reply hreply
  subst hreply
  simp only [checked_bind hstore]
  have htime : (Payload.time (host.ms served run)).size = sizeofDouble := rfl
  refine Exchange.bind (S := Party Nat Empty Unit)
    (workloadRecvSmall_serves (n := n) htime (by decide) _) ?_
  intro reply hreply
  subst hreply
  simp only [host.isfinite, host.nonneg, Bool.not_true, Bool.or_self, Bool.false_eq_true, if_false]
  exact Exchange.pure (S := Party Nat Empty Unit)
    ⟨⟨f, rfl⟩, longest_measured ht ⟨host.isfinite _ _, host.nonneg _ _⟩⟩ fun _ _ hs => hs

variable (hosts a) in
def AtRuns (M r N n : Nat) (rest : List Int) (w : Nat) (s : Counters)
    (site : Site (Party Unit (Host × Nat) Int) (Int × (Unit → Counters))) : Prop :=
  ∃ served f, About n (pending (hosts w) M r w N a.encrypt served (table (r*M) f) rest) s site

variable (hosts a fa fb) in
def Answering (M r N n : Nat) (run : Int) (rest : List Int) (w : Nat) (s : Counters)
    (site : Site (Party Unit (Host × Nat) Int) (Int × (Unit → Counters))) : Prop :=
  ∃ served, About n (answer (hosts w) M r w N a.encrypt served
    (table (r*M) (product (blockRows M r w fa) fb M M)) run rest) s site

theorem range_split {before rest : List Nat} (h : List.range k = before ++ w :: rest) :
    w+1+rest.length = k := by
  have hlength := congrArg List.length h
  rw [List.length_range, List.length_append, List.length_cons] at hlength
  have hat : (List.range k)[before.length]? = some w := by
    rw [h, List.getElem?_append_right le_rfl, Nat.sub_self, List.getElem?_cons_zero]
  rw [List.getElem?_range (by omega)] at hat
  have hw := Option.some.inj hat
  omega

/-- One run of a size: the product is gathered, verified and recorded. -/
theorem masterRun_serves (h : Fits M k r) (hN : a.numRuns = N) {machine : Machine} {si : Nat}
    {run : Int} {rest : List Int} {st : List Binary64 × List BenchResult}
    (hst : ∃ f, st.1 = table (M*M) f) :
    ServesAll k (AtRuns hosts a M r N (n+4) (run::rest))
      (masterRun machine a k si M (table (M*M) fa) (table (M*M) fb) st run)
      (fun st' => st'.1 = table (M*M) (product fa fb M M) ∧ ∃ t, Measured t ∧
        st'.2 = storeResult st.2 (benchResult a k M run (machine.wtime si run) t))
      (fun _ => AtRuns hosts a M r N n rest) := by
  obtain ⟨f, hC⟩ := hst
  have hstart : Gathered fa fb M r (k-(List.range k).length) (st.1, 0) := by
    rw [List.length_range, Nat.sub_self]
    refine ⟨⟨f, ?_⟩, zero_measured⟩
    rw [Nat.zero_mul, Nat.zero_mul, upTo_zero]
    exact hC
  rw [masterRun]
  refine Exchanges.bind (S := Party Nat Empty Unit)
    (L := fun _ => Answering hosts a fa fb M r N (n+2) run rest)
    (Exchanges.forEach List.nodup_range fun w hw => ?_) ?_
  · refine Exchange.of_exists (S := Party Nat Empty Unit) fun served => ?_
    refine Exchange.of_exists (S := Party Nat Empty Unit) fun g => ?_
    refine Exchange.after (S := Party Nat Empty Unit)
      (scatter_serves h (List.mem_range.mp hw) hN (n := n+2)) ?_
    exact fun _ _ => ⟨trivial, fun s site hs => ⟨served, hs⟩⟩
  intro _ _
  refine Exchanges.bind (S := Party Nat Empty Unit)
    (L := fun _ => AtRuns hosts a M r N n rest)
    (Exchanges.foldPeers List.nodup_range
      (I := fun ps acc => Gathered fa fb M r (k-ps.length) acc) ?_ hstart) ?_
  · intro w ws hws acc hacc
    obtain ⟨before, hws⟩ := hws
    have hsplit := range_split hws
    have hnow : k-(w::ws).length = w := by
      rw [List.length_cons]
      omega
    have hthen : k-ws.length = w+1 := by omega
    rw [hnow] at hacc
    refine Exchange.of_exists (S := Party Nat Empty Unit) fun served => ?_
    refine Exchange.after (S := Party Nat Empty Unit)
      (gather_serves h (by omega) hN (n := n) hacc) ?_
    intro acc' hacc'
    rw [hthen]
    exact ⟨hacc', fun s site hs => ⟨served, _, hs⟩⟩
  intro acc hacc
  obtain ⟨C, t⟩ := acc
  obtain ⟨⟨g, hgathered⟩, hmeasured⟩ := hacc
  dsimp only at hgathered
  rw [List.length_nil, Nat.sub_zero, h.rows, table_upTo] at hgathered
  have hverified : verifyAll M k (table (M*M) fa) (table (M*M) fb) exceeds C = .ok () := by
    rw [hgathered]
    exact doubles_verified h fa fb
  have hdone : ServesAll k (AtRuns hosts a M r N n rest)
      (pure (C, storeResult st.2 (benchResult a k M run (machine.wtime si run) t)))
      (fun st' => st'.1 = table (M*M) (product fa fb M M) ∧ ∃ t, Measured t ∧
        st'.2 = storeResult st.2 (benchResult a k M run (machine.wtime si run) t))
      (fun _ => AtRuns hosts a M r N n rest) :=
    Exchanges.pure (S := Party Nat Empty Unit) ⟨hgathered, t, hmeasured, rfl⟩ fun _ _ _ _ hs => hs
  dsimp only
  split
  · rw [checked_bind hverified]
    exact hdone
  · exact hdone

end Matrices

end Size

structure Arguments.Admitted (a : Arguments) : Prop where
  target : 1 ≤ a.target ∧ a.target ≤ 128
  runs : 1 ≤ a.numRuns ∧ a.numRuns ≤ 1000
  count : a.sizes.length ≤ maxSizes
  sizes : ∀ M ∈ a.sizes, 1 ≤ M ∧ M ≤ maxBenchMatrixDim

section Records
variable {a : Arguments} {k : Nat}

structure BenchResult.Sound (a : Arguments) (k : Nat) (r : BenchResult) : Prop where
  workers : r.numWorkers = k
  encrypted : r.encrypted = a.encrypt
  measured : Measured r.tComputeMaxMs
  comm : r.tCommMs = r.tRoundMs-r.tComputeMaxMs

variable (a k) in
/-- The runs to be made: all those of each size that divides evenly and that there is memory for. -/
def planned (machine : Machine) (sizes : List (Int × Nat)) : List (Int × Int) :=
  (sizes.filter fun size => size.1%(k : Int) = 0 && machine.allocates size.2).flatMap
    (fun size => (runsUpTo a.numRuns).map (fun run => (size.1, run)))

variable (a k) in
structure Recorded (machine : Machine) (results : List BenchResult) (rest : List (Int × Int)) :
    Prop where
  runs : results.map (fun r => (r.matrixSize, r.run)) ++ rest = planned a k machine a.sizes.zipIdx
  sound : ∀ r ∈ results, r.Sound a k

theorem planned_length (machine : Machine) (sizes : List (Int × Nat)) :
    (planned a k machine sizes).length ≤ sizes.length*a.numRuns.toNat := by
  induction sizes with
  | nil => exact Nat.zero_le _
  | cons size sizes ih =>
    rw [planned] at ih ⊢
    rw [List.length_cons, Nat.add_mul, Nat.one_mul, List.filter_cons]
    split
    · rw [List.flatMap_cons, List.length_append, List.length_map, runsUpTo, List.length_map,
        List.length_range]
      rw [runsUpTo] at ih
      omega
    · omega

/-- There is room for every record. -/
theorem Recorded.next {machine : Machine} {results : List BenchResult} {rest : List (Int × Int)}
    {M run : Int} {times : Binary64 × Binary64 × Binary64} {t : Binary64} (ha : a.Admitted)
    (h : Recorded a k machine results ((M, run)::rest)) (ht : Measured t) :
    Recorded a k machine (storeResult results (benchResult a k M run times t)) rest := by
  have hplanned := planned_length (a := a) (k := k) machine a.sizes.zipIdx
  have hlength := congrArg List.length h.runs
  rw [List.length_append, List.length_map, List.length_cons] at hlength
  have hruns : a.numRuns.toNat ≤ 1000 := Int.toNat_le.mpr ha.runs.2
  have hmost : a.sizes.zipIdx.length*a.numRuns.toNat ≤ maxSizes*1000 := by
    rw [List.length_zipIdx]
    exact Nat.mul_le_mul ha.count hruns
  have hroom : results.length < maxResults :=
    Nat.lt_of_lt_of_le (by omega) (hplanned.trans hmost)
  rw [storeResult, if_pos hroom]
  constructor
  · rw [← h.runs, List.map_append, List.append_assoc]
    rfl
  · intro r hr
    cases List.mem_append.mp hr with
    | inl hold => exact h.sound r hold
    | inr hnew =>
      rw [List.mem_singleton.mp hnew]
      exact ⟨rfl, rfl, ht, rfl⟩

end Records

section Job
variable {hosts : Nat → Host} {a : Arguments} {k : Nat} {machine : Machine}

variable (hosts) in
def AtCommands (n w : Nat) (s : Counters)
    (site : Site (Party Unit (Host × Nat) Int) (Int × (Unit → Counters))) : Prop :=
  ∃ served, About n (enter (hosts w, served)) s site

/-- The workers have the memory that the commands of the job ask for. -/
def Roomy (hosts : Nat → Host) (k : Nat) (a : Arguments) : Prop :=
  ∀ w < k, ∀ M : Nat, (M : Int) ∈ a.sizes → ∀ c ≤ M*M, (hosts w).allocates (c : Nat) = true

def sizeCost (N : Nat) : Nat := 1+4*N

theorem sendCommand_serves {M r N n w : Nat} (h : Fits M k r) (hw : w < k) (hruns : 0 < N)
    (hmax : N ≤ 1000) (hN : a.numRuns = N) (hhosts : Roomy hosts k a)
    (hM : (M : Int) ∈ a.sizes) :
    Exchange workers masterBody Awaited (fun _ _ _ => False) w (AtCommands hosts (n+1) w)
      (sendCommand a k M w) (fun _ => True)
      (fun _ => AtRuns hosts a M r N n (runsUpTo N) w) := by
  refine Exchange.of_exists (S := Party Nat Empty Unit) fun served => ?_
  rw [sendCommand, hN, checked_bind (benchCmd_eq h hw)]
  refine Exchange.after (S := Party Nat Empty Unit)
    (command_serves (rowsCmd_inRange h hw hmax)) ?_
  intro _ _
  rw [serveCommand_rows h hw hruns hmax (hhosts w hw M hM)]
  exact ⟨trivial, fun s site hs => ⟨served, _, hs⟩⟩

/-- The runs of a size, from its first command to the next one. -/
theorem sizeRuns_serves {M r N n : Nat} {si : Nat} (h : Fits M k r) (ha : a.Admitted)
    (hN : a.numRuns = N) {fa fb f : Nat → Binary64} {results : List BenchResult}
    {rest : List (Int × Int)}
    (hresults : Recorded a k machine results
      ((runsUpTo a.numRuns).map (fun run => ((M : Int), run)) ++ rest)) :
    ServesAll k (AtRuns hosts a M r N (4*N+n) (runsUpTo N))
      ((runsUpTo a.numRuns).foldlM (masterRun machine a k si M (table (M*M) fa) (table (M*M) fb))
        (table (M*M) f, results))
      (fun st => Recorded a k machine st.2 rest) (fun _ => AtCommands hosts n) := by
  have hschedule : ServesAll k (AtRuns hosts a M r N (4*(runsUpTo N).length+n) (runsUpTo N))
      ((runsUpTo N).foldlM (masterRun machine a k si M (table (M*M) fa) (table (M*M) fb))
        (table (M*M) f, results))
      (fun st => (∃ g, st.1 = table (M*M) g) ∧
        Recorded a k machine st.2 (([] : List Int).map (fun run => ((M : Int), run)) ++ rest))
      (fun _ => AtRuns hosts a M r N (4*([] : List Int).length+n) []) := by
    refine Exchanges.foldSchedule (S := Party Nat Empty Unit)
      (I := fun runs (st : List Binary64 × List BenchResult) => (∃ g, st.1 = table (M*M) g) ∧
        Recorded a k machine st.2 (runs.map (fun run => ((M : Int), run)) ++ rest))
      (fun runs => AtRuns hosts a M r N (4*runs.length+n) runs) ?_ ⟨⟨f, rfl⟩, hN ▸ hresults⟩
    intro run runs _ st hst
    obtain ⟨hC, hrecorded⟩ := hst
    have hcost : 4*(run::runs).length+n = 4*runs.length+n+4 := by
      rw [List.length_cons]
      omega
    rw [hcost]
    refine Exchanges.after (S := Party Nat Empty Unit)
      (masterRun_serves h hN hC) ?_
    intro st' hst'
    obtain ⟨hproduct, t, ht, hstored⟩ := hst'
    refine ⟨⟨⟨_, hproduct⟩, ?_⟩, fun _ _ _ _ hs => hs⟩
    rw [hstored]
    exact hrecorded.next ha ht
  have hlength : (runsUpTo N).length = N := by
    rw [runsUpTo, List.length_map, List.length_range, Int.toNat_natCast]
  rw [hlength] at hschedule
  rw [hN]
  refine Exchanges.after (S := Party Nat Empty Unit) hschedule ?_
  intro st hst
  refine ⟨hst.2, fun w _ s site hs => ?_⟩
  obtain ⟨served, g, hroom, hrun⟩ := hs
  refine ⟨served+1, hroom.less (by omega), ?_⟩
  rwa [pending, List.foldlM_nil, pure_bind] at hrun

theorem planned_skips {size : Int × Nat} {sizes : List (Int × Nat)}
    (h : ¬(size.1%(k : Int) = 0 ∧ machine.allocates size.2 = true)) :
    planned a k machine (size::sizes) = planned a k machine sizes := by
  rw [planned, List.filter_cons_of_neg (by simpa using h)]
  rfl

theorem planned_makes {size : Int × Nat} {sizes : List (Int × Nat)}
    (hrows : size.1%(k : Int) = 0) (hmemory : machine.allocates size.2 = true) :
    planned a k machine (size::sizes) =
      (runsUpTo a.numRuns).map (fun run => (size.1, run)) ++ planned a k machine sizes := by
  rw [planned, List.filter_cons_of_pos (by simp [hrows, hmemory]), List.flatMap_cons]
  rfl

/-- A size, which is either passed over by both sides or taken through all its runs. -/
theorem benchSize_serves {N n : Nat} (ha : a.Admitted) (hN : a.numRuns = N)
    (hhosts : Roomy hosts k a) {size : Int × Nat} {sizes : List (Int × Nat)}
    (hmem : size.1 ∈ a.sizes) (hsize : 1 ≤ size.1 ∧ size.1 ≤ maxBenchMatrixDim)
    {results : List BenchResult}
    (hresults : Recorded a k machine results (planned a k machine (size::sizes))) :
    ServesAll k (AtCommands hosts (n+sizeCost N)) (benchSize machine a k results size)
      (fun results' => Recorded a k machine results' (planned a k machine sizes))
      (fun _ => AtCommands hosts n) := by
  have hskip : ¬(size.1%(k : Int) = 0 ∧ machine.allocates size.2 = true) →
      ServesAll k (AtCommands hosts (n+sizeCost N)) (pure results)
        (fun results' => Recorded a k machine results' (planned a k machine sizes))
        (fun _ => AtCommands hosts n) := by
    intro hnot
    refine Exchanges.pure (S := Party Nat Empty Unit) (planned_skips hnot ▸ hresults) ?_
    intro w _ s site hs
    obtain ⟨served, hroom, hrun⟩ := hs
    exact ⟨served, hroom.less (Nat.le_add_right _ _), hrun⟩
  obtain ⟨M, si⟩ := size
  obtain ⟨M, rfl⟩ := Int.eq_ofNat_of_zero_le (show 0 ≤ M by omega)
  rw [benchSize]
  by_cases hrows : (M : Int)%(k : Int) = 0
  swap
  · simp only [ne_eq, hrows, not_false_eq_true, if_true]
    exact hskip fun h => hrows h.1
  have hfits : Fits M k (M/k) := by
    refine Fits.of_dvd ?_ ?_ (Int.natCast_dvd_natCast.mp (Int.dvd_of_emod_eq_zero hrows))
    · dsimp only at hsize
      omega
    · exact Int.ofNat_le.mp hsize.2
  have hcount : ¬((M*M : Nat) : Int) > maxInt := by
    have := hfits.size_le
    simp only [maxInt]
    omega
  simp only [hrows, ne_eq, not_true_eq_false, if_false, hfits.elems le_rfl, hcount,
    Int.toNat_natCast]
  by_cases hmemory : machine.allocates si = true
  swap
  · simp only [hmemory, Bool.not_false, if_true]
    exact hskip fun h => hmemory h.2
  have hruns : 0 < N ∧ N ≤ 1000 := by
    have := ha.runs
    omega
  simp only [hmemory, Bool.not_true, Bool.false_eq_true, if_false]
  have hcost : n+sizeCost N = 4*N+n+1 := by
    rw [sizeCost]
    omega
  rw [hcost]
  refine Exchanges.bind (S := Party Nat Empty Unit)
    (L := fun _ => AtRuns hosts a M (M/k) N (4*N+n) (runsUpTo N))
    (Exchanges.forEach List.nodup_range fun w hw => sendCommand_serves hfits
      (List.mem_range.mp hw) hruns.1 hruns.2 hN hhosts hmem) ?_
  intro _ _
  rw [planned_makes hrows hmemory] at hresults
  refine Exchanges.bind (S := Party Nat Empty Unit) (sizeRuns_serves hfits ha hN hresults) ?_
  intro st hst
  exact Exchanges.pure (S := Party Nat Empty Unit) hst fun _ _ _ _ hs => hs

def jobCost (a : Arguments) : Nat := a.sizes.length*sizeCost a.numRuns.toNat+1

theorem shutdown_serves {n : Nat} :
    ServesAll k (AtCommands hosts (n+1)) (shutdown k) (fun _ => True)
      (fun _ _ => About n (pure 0)) := by
  refine Exchanges.forEach (S := Party Nat Empty Unit) List.nodup_range fun w hw => ?_
  refine Exchange.of_exists (S := Party Nat Empty Unit) fun served => ?_
  exact command_serves doneCmd_inRange

theorem sizes_serve (machine : Machine) (ha : a.Admitted) (hhosts : Roomy hosts k a) :
    ServesAll k (AtCommands hosts (jobCost a))
      (a.sizes.zipIdx.foldlM (benchSize machine a k) [])
      (fun results => Recorded a k machine results []) (fun _ => AtCommands hosts 1) := by
  have hnonneg : 0 ≤ a.numRuns := le_trans (by decide) ha.runs.1
  obtain ⟨N, hN⟩ := Int.eq_ofNat_of_zero_le hnonneg
  have hstart : Recorded a k machine [] (planned a k machine a.sizes.zipIdx) :=
    ⟨List.nil_append _, fun r hr => by cases hr⟩
  have hsizes : ServesAll k (AtCommands hosts (a.sizes.zipIdx.length*sizeCost N+1))
      (a.sizes.zipIdx.foldlM (benchSize machine a k) [])
      (fun results => Recorded a k machine results (planned a k machine []))
      (fun _ => AtCommands hosts (([] : List (Int × Nat)).length*sizeCost N+1)) := by
    refine Exchanges.foldSchedule (S := Party Nat Empty Unit)
      (I := fun sizes results => Recorded a k machine results (planned a k machine sizes))
      (fun sizes => AtCommands hosts (sizes.length*sizeCost N+1)) ?_ hstart
    intro size sizes hsizes results hresults
    obtain ⟨before, hsizes⟩ := hsizes
    have hcost : (size::sizes).length*sizeCost N+1 = sizes.length*sizeCost N+1+sizeCost N := by
      rw [List.length_cons, Nat.add_mul, Nat.one_mul]
      omega
    have hmem : size ∈ a.sizes.zipIdx := by
      rw [hsizes]
      exact List.mem_append_right _ List.mem_cons_self
    have hmem := List.fst_mem_of_mem_zipIdx hmem
    rw [hcost]
    exact benchSize_serves ha hN hhosts hmem (ha.sizes _ hmem) hresults
  rw [List.length_zipIdx, List.length_nil, Nat.zero_mul] at hsizes
  rw [jobCost, hN, Int.toNat_natCast]
  exact hsizes

/-- What the master ends with: status 1 and nothing where workers are missing, and else all
planned runs, with status 0 if the results file could be written. -/
structure Outcome (machine : Machine) (a : Arguments) (k : Nat) (r : Int × List BenchResult) :
    Prop where
  missing : (k : Int) ≠ a.target → r = (1, [])
  complete : (k : Int) = a.target → Recorded a k machine r.2 [] ∧
    r.1 = if machine.writes r.2 then 0 else 1

theorem masterMain_serves (machine : Machine) (ha : a.Admitted) (hhosts : Roomy hosts k a) :
    ServesAll k (AtCommands hosts (jobCost a)) (masterMain machine a k) (Outcome machine a k)
      (fun _ _ => About 0 (pure 0)) := by
  rw [masterMain]
  split
  · rename_i hmissing
    rw [jobCost]
    refine Exchanges.bind (S := Party Nat Empty Unit) shutdown_serves ?_
    intro _ _
    refine Exchanges.pure (S := Party Nat Empty Unit) ⟨fun _ => rfl, fun h => absurd h hmissing⟩ ?_
    exact fun _ _ s site hs => ⟨hs.1.less (Nat.zero_le _), hs.2⟩
  · rename_i hall
    refine Exchanges.bind (S := Party Nat Empty Unit) (sizes_serve machine ha hhosts) ?_
    intro results hresults
    refine Exchanges.bind (S := Party Nat Empty Unit) shutdown_serves ?_
    intro _ _
    exact Exchanges.pure (S := Party Nat Empty Unit) ⟨fun h => absurd h hall, fun _ => ⟨hresults, rfl⟩⟩
      fun _ _ _ _ hs => hs

end Job

end DistributedEnclave.Bench
