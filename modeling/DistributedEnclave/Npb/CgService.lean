import DistributedEnclave.Npb.Service

/-! The workload CG among honest workers: the rows are dealt out in blocks, and in every
iteration each worker is sent `x` and returns its rows of `y`. -/
namespace DistributedEnclave.Npb
open DistributedEnclave.Programs
open Taskq (Head)

section Blocks
variable {a : Arguments} {w : Nat}

/-- The blocks end within the matrix. -/
theorem rows_le (hw : w < a.nworkers) : rowStart a w+rowCount a w ≤ a.cgN := by
  have hstart : w*rowsPerWorker a ≤ a.cgN := by
    have hle := Nat.mul_div_le a.cgN a.nworkers
    exact (Nat.mul_le_mul_right _ hw.le).trans hle
  rw [rowStart, rowCount]
  split
  · omega
  · have hle := Nat.mul_div_le a.cgN a.nworkers
    have hnext : (w+1)*rowsPerWorker a ≤ a.cgN := (Nat.mul_le_mul_right _ hw).trans hle
    rw [Nat.add_mul, Nat.one_mul] at hnext
    exact hnext

theorem rowCount_le (hw : w < a.nworkers) : rowCount a w ≤ a.cgN :=
  (Nat.le_add_left _ _).trans (rows_le hw)

theorem rowPtr_get {n nzpc i : Nat} (hi : i ≤ n) :
    (rowPtr n nzpc)[i]?.getD 0 = Int32.ofNat (i*nzpc) := by
  rw [rowPtr, List.getElem?_map, List.getElem?_range (Nat.lt_succ_of_le hi)]
  rfl

theorem toNat_ofNat {n : Nat} (h : n ≤ intMax) : (Int32.ofNat n).toInt.toNat = n := by
  rw [Int32.toInt_ofNat_of_lt (by simp only [intMax] at h; omega)]
  rfl

theorem localRowPtr_get (hw : w < a.nworkers) {r : Nat} (hr : r ≤ rowCount a w) :
    (localRowPtr a w)[r]?.getD 0 = Int32.ofNat (r*a.cgNzpc) := by
  have hrows := rows_le hw
  rw [localRowPtr, List.getElem?_map, List.getElem?_range (Nat.lt_succ_of_le hr)]
  change (rowPtr a.cgN a.cgNzpc)[rowStart a w+r]?.getD 0 -
    (rowPtr a.cgN a.cgNzpc)[rowStart a w]?.getD 0 = _
  rw [rowPtr_get (by omega), rowPtr_get (by omega), Nat.add_mul, Int32.ofNat_add, Int32.add_comm,
    Int32.add_sub_cancel]

theorem localRowPtr_size : (Payload.ints (localRowPtr a w)).size = (rowCount a w+1)*sizeofInt := by
  rw [Payload.size, localRowPtr, List.length_map, List.length_range]

theorem blockOf_eq {α : Type} (ha : a.Admitted) (hw : w < a.nworkers) (l : List α) :
    blockOf a w l = (l.drop (rowStart a w*a.cgNzpc)).take (rowCount a w*a.cgNzpc) := by
  have hrows := rows_le hw
  have hfirst := Nat.mul_le_mul_right a.cgNzpc ((Nat.le_add_right _ _).trans hrows)
  have hlast := Nat.mul_le_mul_right a.cgNzpc hrows
  rw [blockOf, rowPtr_get ((Nat.le_add_right _ _).trans hrows), rowPtr_get hrows,
    toNat_ofNat (hfirst.trans ha.cgNzpc.2), toNat_ofNat (hlast.trans ha.cgNzpc.2), Nat.add_mul,
    Nat.add_sub_cancel_left]

theorem blockOf_length {α : Type} (ha : a.Admitted) (hw : w < a.nworkers) {l : List α}
    (hl : l.length = a.cgN*a.cgNzpc) : (blockOf a w l).length = rowCount a w*a.cgNzpc := by
  have hlast := Nat.mul_le_mul_right a.cgNzpc (rows_le hw)
  rw [blockOf_eq ha hw, List.length_take, List.length_drop, hl]
  rw [Nat.add_mul] at hlast
  omega

end Blocks

section Serve
variable {machine host : Host} {hosts : Nat → Host} {a : Arguments} {w : Nat} {run : Int32}
  {iter : Nat} {iters : List Nat} {rest : List Int32} {x y : List Binary64}
  {body : (Party Nat Head Int).Loop → Prog (Party Nat Head Int) (Party Nat Head Int).Result}
  {I : (Party Nat Head Int).Loop → Sites → Prop}

variable (machine host a w) in
abbrev cgIter (run : Int32) (iter : Nat) : WorkerCode Int :=
  cgWorkerIter host (cgCmd a w) (localRowPtr a w) (blockOf a w (colIdx machine a.cgN a.cgNzpc))
    (blockOf a w (val machine a.cgN a.cgNzpc)) run iter

variable (machine host a w) in
def cgRound (run : Int32) : WorkerCode Int :=
  untilFailure (cgIter machine host a w run) (List.range a.cgIters)

variable (machine host a w) in
abbrev cgRuns (rest : List Int32) : WorkerCode Int := remaining host (cgRound machine host a w) rest

variable (machine host a w) in
def cgIterations (run : Int32) (iters : List Nat) (rest : List Int32) : WorkerCode Int :=
  untilFailure (cgIter machine host a w run) iters >>= fun status =>
    (if status ≠ 0 then pure status else untilFailure (cgRound machine host a w) rest) >>=
      afterWorkload host

variable (machine a w) in
abbrev cgRows (x : List Binary64) : List Binary64 :=
  spmvKernel (rowCount a w) (localRowPtr a w) (blockOf a w (colIdx machine a.cgN a.cgNzpc))
    (blockOf a w (val machine a.cgN a.cgNzpc)) x

variable (machine host a w) in
def cgAnswer (run : Int32) (iter : Nat) (iters : List Nat) (rest : List Int32)
    (x : List Binary64) : WorkerCode Int := do
  sendBulkMsg () (.doubles (cgRows machine a w x)) tagNpbCgY a.encrypt
  workloadSendSmall () (.time (host.clock.ms (.cg run iter))) tagNpbTime a.encrypt
  cgIterations machine host a w run iters rest

theorem cgCmd_rows (ha : a.Admitted) (hw : w < a.nworkers) :
    (cgCmd a w).cgRowCount.toInt.toNat = rowCount a w :=
  toNat_ofNat ((rowCount_le hw).trans ha.cgN.2.le)

theorem cgVector_meets (ha : a.Admitted) (hfits : a.CgFits) (hw : w < a.nworkers)
    (hx : x.length = a.cgN) :
    Meets body workerBody I w (sendBulkMsg w (.doubles x) tagNpbCgX a.encrypt)
      (cgIterations machine host a w run (iter::iters) rest) (fun _ => True)
      (fun _ => cgAnswer machine host a w run iter iters rest x) := by
  have hencrypt : decide ((cgCmd a w).encryptData ≠ 0) = a.encrypt := encrypts a.encrypt
  have hn : (cgCmd a w).cgN.toInt.toNat = a.cgN := toNat_ofNat ha.cgN.2.le
  rw [cgIterations, untilFailure, cgIter, cgWorkerIter, bind_assoc, bind_assoc, hencrypt, hn]
  have hsize : (Payload.doubles x).size = a.cgN*sizeofDouble := by rw [Payload.size, hx]
  refine Exchange.goes (sendBulkMsg_meets hsize hfits.vector _) fun _ _ => ⟨trivial, ?_⟩
  simp only [bind_assoc, pure_bind, cgCmd_rows ha hw]
  rfl

theorem cgRows_length : (cgRows machine a w x).length = rowCount a w := by
  rw [cgRows, spmvKernel, List.length_map, List.length_range]

theorem Arguments.CgFits.rows (h : a.CgFits) (hw : w < a.nworkers) :
    BulkFits a.encrypt (rowCount a w*sizeofDouble) := by
  have hle := Nat.mul_le_mul_right sizeofDouble (rowCount_le hw)
  exact ⟨hle.trans h.vector.1, fun hencrypt => hle.trans (h.vector.2 hencrypt)⟩

theorem Arguments.CgFits.cols (h : a.CgFits) (hw : w < a.nworkers) :
    BulkFits a.encrypt (rowCount a w*a.cgNzpc*sizeofInt) := by
  have hle : rowCount a w*a.cgNzpc*sizeofInt ≤ rowCount a w*a.cgNzpc*sizeofDouble :=
    Nat.mul_le_mul_left _ (by decide)
  exact ⟨hle.trans (h.vals w hw).1, fun hencrypt => hle.trans ((h.vals w hw).2 hencrypt)⟩

theorem overwrite_length {start : Nat} {part : List Binary64} (h : start+part.length ≤ y.length) :
    (overwrite y start part).length = y.length := by
  rw [overwrite, List.length_append, List.length_append, List.length_take, List.length_drop]
  omega

theorem normalized_length (h : y.length = x.length) : (normalized host x y).length = x.length := by
  simp only [normalized]
  split
  · rw [List.length_map, h]
  · rfl

theorem gatherCg_meets (hfits : a.CgFits) (hw : w < a.nworkers) (hy : y.length = a.cgN) :
    Meets body workerBody I w (gatherCg a y w)
      (cgAnswer machine host a w run iter iters rest x) (fun y' => y'.length = a.cgN)
      (fun _ => cgIterations machine host a w run iters rest) := by
  have hrows : (Payload.doubles (cgRows machine a w x)).size = rowCount a w*sizeofDouble := by
    rw [Payload.size, cgRows_length]
  refine Exchange.bind (recvBulkMsg_meets hrows (hfits.rows hw) _) ?_
  intro r hr
  subst hr
  have htime : (Payload.time (host.clock.ms (.cg run iter))).size = sizeofDouble := rfl
  refine Exchange.bind (workloadRecvSmall_meets htime (by decide) _) ?_
  intro r hr
  subst hr
  simp only [invalidTime, host.clock.isfinite, host.clock.nonneg]
  refine Exchange.stay (S := Party Nat Head Int) ?_ rfl
  rw [overwrite_length, hy]
  rw [cgRows_length, hy]
  exact rows_le hw

def FullLength (a : Arguments) (xy : List Binary64 × List Binary64) : Prop :=
  xy.1.length = a.cgN ∧ xy.2.length = a.cgN

theorem cgMasterIter_serves (ha : a.Admitted) (hfits : a.CgFits)
    {xy : List Binary64 × List Binary64} (hxy : FullLength a xy) :
    ServesAll body I a.nworkers (cgMasterIter machine a xy)
      (fun w => cgIterations machine (hosts w) a w run (iter::iters) rest) (FullLength a)
      (fun w => cgIterations machine (hosts w) a w run iters rest) := by
  rw [cgMasterIter]
  refine Exchanges.bind (S := Party Nat Head Int) (Exchanges.forEach List.nodup_range fun w hw =>
    cgVector_meets ha hfits (List.mem_range.mp hw) hxy.1) ?_
  intro _ _
  have hgather : ServesAll body I a.nworkers ((List.range a.nworkers).foldlM (gatherCg a) xy.2)
      (fun w => cgAnswer machine (hosts w) a w run iter iters rest xy.1)
      (fun y => y.length = a.cgN) (fun w => cgIterations machine (hosts w) a w run iters rest) := by
    refine Exchanges.foldPeers (S := Party Nat Head Int)
      (I := fun (_ : List Nat) (y : List Binary64) => y.length = a.cgN) List.nodup_range ?_ hxy.2
    intro w others hw y hy
    have hmem : w ∈ List.range a.nworkers := by
      obtain ⟨before, hsplit⟩ := hw
      rw [hsplit]
      exact List.mem_append_right _ List.mem_cons_self
    exact gatherCg_meets hfits (List.mem_range.mp hmem) hy
  refine Exchanges.bind (S := Party Nat Head Int) hgather ?_
  intro y hy
  refine Exchanges.pure (S := Party Nat Head Int) ⟨?_, hy⟩ fun _ _ _ _ hs => hs
  exact (normalized_length (hy.trans hxy.1.symm)).trans hxy.1

theorem cgMasterRun_serves (ha : a.Admitted) (hfits : a.CgFits) (hy : y.length = a.cgN) :
    ServesAll body I a.nworkers (cgMasterRun machine a y run)
      (fun w => cgRuns machine (hosts w) a w (run::rest)) (fun y' => y'.length = a.cgN)
      (fun w => cgRuns machine (hosts w) a w rest) := by
  have hstart : FullLength a (initialX a, y) := ⟨List.length_replicate, hy⟩
  have hbegin : ∀ w, cgRuns machine (hosts w) a w (run::rest) =
      cgIterations machine (hosts w) a w run (List.range a.cgIters) rest := by
    intro w
    rw [cgRuns, remaining, untilFailure, bind_assoc]
    rfl
  have hiters : ServesAll body I a.nworkers
      ((List.range a.cgIters).foldlM (fun xy _ => cgMasterIter machine a xy) (initialX a, y))
      (fun w => cgIterations machine (hosts w) a w run (List.range a.cgIters) rest)
      (FullLength a) (fun w => cgRuns machine (hosts w) a w rest) :=
    Exchanges.foldSchedule (S := Party Nat Head Int) (I := fun _ xy => FullLength a xy)
      (fun iters w => AboutTo (cgIterations machine (hosts w) a w run iters rest))
      (fun _ _ _ _ hxy => cgMasterIter_serves ha hfits hxy) hstart
  rw [cgMasterRun]
  simp only [hbegin]
  refine Exchanges.bind (S := Party Nat Head Int) hiters ?_
  intro xy hxy
  exact Exchanges.pure (S := Party Nat Head Int) hxy.2 fun _ _ _ _ hs => hs

theorem cgCmd_valid (ha : a.Admitted) (hw : w < a.nworkers) :
    ¬((cgCmd a w).cgRowCount.toInt < 0 ∨ (cgCmd a w).cgN.toInt ≤ 0 ∨
      (cgCmd a w).cgIters.toInt ≤ 0 ∨ (cgCmd a w).numRuns.toInt ≤ 0) := by
  have hint : ∀ n ≤ intMax, (Int32.ofNat n).toInt = n := by
    intro n hn
    exact Int32.toInt_ofNat_of_lt (by simp only [intMax] at hn; omega)
  have hrows : (cgCmd a w).cgRowCount.toInt = rowCount a w :=
    hint _ ((rowCount_le hw).trans ha.cgN.2.le)
  have hn : (cgCmd a w).cgN.toInt = a.cgN := hint _ ha.cgN.2.le
  have hiters : (cgCmd a w).cgIters.toInt = a.cgIters := hint _ ha.cgIters.2
  have hruns : (cgCmd a w).numRuns.toInt = a.numRuns.toInt := rfl
  have hcgN := ha.cgN.1
  have hcgIters := ha.cgIters.1
  have hnumRuns := ha.runs.1
  rw [hrows, hn, hiters, hruns]
  omega

/-- The last row pointer of a block is the number of its entries. -/
theorem localRowPtr_last (ha : a.Admitted) (hw : w < a.nworkers) :
    ((localRowPtr a w)[rowCount a w]?.getD 0).toInt = (rowCount a w*a.cgNzpc : Nat) := by
  have hentries : rowCount a w*a.cgNzpc ≤ intMax :=
    (Nat.mul_le_mul_right _ (rowCount_le hw)).trans ha.cgNzpc.2
  rw [localRowPtr_get hw le_rfl]
  exact Int32.toInt_ofNat_of_lt (by simp only [intMax] at hentries; omega)

theorem cols_size (ha : a.Admitted) (hw : w < a.nworkers) :
    (Payload.ints (blockOf a w (colIdx machine a.cgN a.cgNzpc))).size =
      rowCount a w*a.cgNzpc*sizeofInt := by
  rw [Payload.size, blockOf_length ha hw (by rw [colIdx, List.length_map, List.length_range])]

theorem vals_size (ha : a.Admitted) (hw : w < a.nworkers) :
    (Payload.doubles (blockOf a w (val machine a.cgN a.cgNzpc))).size =
      rowCount a w*a.cgNzpc*sizeofDouble := by
  rw [Payload.size, blockOf_length ha hw (by rw [val, List.length_map, List.length_range])]

theorem startCg_meets (ha : a.Admitted) (hfits : a.CgFits) (hw : w < a.nworkers)
    (hbuild : host.Permits a.encrypt) :
    Meets body workerBody I w (startCg machine a w) (enter (.commands host)) (fun _ => True)
      (fun _ => cgRuns machine host a w (runs a.numRuns)) := by
  have hencrypt : decide ((cgCmd a w).encryptData ≠ 0) = a.encrypt := encrypts a.encrypt
  have hiters : (cgCmd a w).cgIters.toInt.toNat = a.cgIters := toNat_ofNat ha.cgIters.2
  rw [startCg]
  refine Exchange.bind command_meets ?_
  intro _ _
  rw [serveCommand_start workloadCg rfl rfl hbuild.plain, if_neg (by decide), if_pos rfl,
    runCgWorkload, if_neg (cgCmd_valid ha hw), bind_assoc, hencrypt, cgCmd_rows ha hw]
  refine Exchange.bind (sendBulkMsg_meets localRowPtr_size (hfits.rowPtr w hw) _) ?_
  intro _ _
  simp only [localRowPtr_last ha hw, if_neg (Int.not_lt.mpr (Int.natCast_nonneg _)),
    Int.toNat_natCast]
  rw [bind_assoc]
  refine Exchange.bind (sendBulkMsg_meets (cols_size ha hw) (hfits.cols hw) _) ?_
  intro _ _
  rw [bind_assoc]
  refine Exchange.goes (sendBulkMsg_meets (vals_size ha hw) (hfits.vals w hw) _) fun _ _ => ⟨trivial, ?_⟩
  simp only [hiters]
  rfl

theorem Arguments.Admitted.matrix (ha : a.Admitted) :
    ¬(a.cgN = 0 ∨ a.cgNzpc = 0 ∨ a.cgN > intMax/a.cgNzpc) := by
  have hcgN := ha.cgN.1
  have hcgNzpc := ha.cgNzpc.1
  have hle := (Nat.le_div_iff_mul_le hcgNzpc).mpr ha.cgNzpc.2
  omega

theorem runCgMaster_serves (ha : a.Admitted) (hfits : a.CgFits)
    (hbuild : ∀ w < a.nworkers, (hosts w).Permits a.encrypt) :
    ServesAll body I a.nworkers (runCgMaster machine a) (fun w => enter (.commands (hosts w)))
      (· = 0) (fun w => enter (.commands (hosts w))) := by
  have hruns : ServesAll body I a.nworkers
      ((runs a.numRuns).foldlM (cgMasterRun machine a) (List.replicate a.cgN 0))
      (fun w => cgRuns machine (hosts w) a w (runs a.numRuns)) (fun y => y.length = a.cgN)
      (fun w => enter (.commands (hosts w))) :=
    Exchanges.foldSchedule (S := Party Nat Head Int)
      (I := fun (_ : List Int32) (y : List Binary64) => y.length = a.cgN)
      (fun rest w => AboutTo (cgRuns machine (hosts w) a w rest))
      (fun _ _ _ _ hy => cgMasterRun_serves ha hfits hy) List.length_replicate
  rw [runCgMaster, if_neg ha.matrix]
  refine Exchanges.bind (S := Party Nat Head Int) (Exchanges.forEach List.nodup_range fun w hw =>
    startCg_meets ha hfits (List.mem_range.mp hw) (hbuild w (List.mem_range.mp hw))) ?_
  intro _ _
  refine Exchanges.bind (S := Party Nat Head Int) hruns ?_
  intro _ _
  exact Exchanges.pure (S := Party Nat Head Int) rfl fun _ _ _ _ hs => hs

end Serve

end DistributedEnclave.Npb
