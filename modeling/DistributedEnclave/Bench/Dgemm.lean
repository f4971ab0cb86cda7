import DistributedEnclave.Binary64
import DistributedEnclave.Blocks
import DistributedEnclave.CheckedInts

/-! The distributed matrix product of the benchmark and its verification, with the `int` and
`size_t` arithmetic and the array accesses of the programs, over any type of numbers. -/
namespace DistributedEnclave.Bench
open Blocks CheckedInts Outcome
variable {α : Type} [Zero α] [Add α] [Mul α]

def cmdBenchSize : Int := 1
def maxBenchMatrixDim : Int := 8192
def maxBenchRuns : Int := 1000
def maxRuns : Int := 1000
def npub : Int := 12
def abytes : Int := 16

/-- `(size_t)row * (size_t)n + column` -/
def index (row n column : Int) : Int := sizeT (sizeT (sizeT row*sizeT n)+sizeT column)

def ppdpcDgemm (a b c : List α) (rows innerDimension columns : Int) : Checked (List α) := do
  let bytes := sizeT (sizeT (sizeT rows*sizeT columns)*8)
  let c ← storeRegion c 0 (List.replicate (bytes/8).toNat 0)
  forBelow 0 rows (fun row => forBelow 0 innerDimension (fun inner c => do
    let value ← load a (index row innerDimension inner)
    forBelow 0 columns (fun column c => do
      let bk ← load b (index inner columns column)
      let old ← load c (index row columns column)
      store c (index row columns column) (old + value*bk)) c)) c

def expectedEntry (A B : List α) (M row j : Int) : Checked α :=
  forBelow 0 M (fun k expected => do
    let ak ← load A (index row M k)
    let bk ← load B (index k M j)
    pure (expected + ak*bk)) 0

/-- `rejects` is the comparison of an entry with the one expected. -/
def verifyRow (rejects : α → α → Bool) (A B C : List α) (M row : Int) : Checked Int :=
  forBelow 0 M (fun j status =>
    if status ≠ 0 then pure status
    else do
      let expected ← expectedEntry A B M row j
      let actual ← load C (index row M j)
      pure (if rejects expected actual then -1 else 0)) 0

structure BenchCmd where
  cmd : Int
  matrixSize : Int
  rowStart : Int
  rowCount : Int
  encryptData : Int
  numRuns : Int

def benchCmd (M nworkers : Int) (encrypt : Bool) (numRuns w : Int) : Checked BenchCmd := do
  let rowsPerWorker := M/nworkers
  let rowStart ← int (w*rowsPerWorker)
  pure { cmd := cmdBenchSize
         matrixSize := M
         rowStart := rowStart
         rowCount := rowsPerWorker
         encryptData := if encrypt then 1 else 0
         numRuns := numRuns }

def validCmd (cmd : BenchCmd) : Bool :=
  cmd.cmd = cmdBenchSize &&
    !(cmd.matrixSize ≤ 0 || cmd.matrixSize > maxBenchMatrixDim ||
      cmd.rowStart < 0 || cmd.rowCount ≤ 0 || cmd.rowCount > cmd.matrixSize ||
      cmd.rowStart > cmd.matrixSize-cmd.rowCount ||
      (cmd.encryptData ≠ 0 && cmd.encryptData ≠ 1) ||
      cmd.numRuns ≤ 0 || cmd.numRuns > maxBenchRuns ||
      sizeT (sizeT cmd.rowCount*sizeT cmd.matrixSize) > maxInt ||
      sizeT (sizeT cmd.matrixSize*sizeT cmd.matrixSize) > maxInt)

/-- `send_matrix` of `count` numbers, where the receiver awaits `expected` of them. -/
def transferMatrix (encrypt : Bool) (data : List α) (count expected : Int) : Checked (List α) :=
  let limit := (maxInt-npub-abytes)/8
  if encrypt ∧ (count < 0 ∨ count > limit) then .error .aborted
  else if expected < 0 ∨ (encrypt ∧ expected > limit) ∨ count ≠ expected then .error .aborted
  else region data 0 count

/-- One run of a worker; `memory` is what the array for the product holds before it. -/
def workerRun (memory : Nat → α) (encrypt : Bool) (cmd : BenchCmd) (ABlock B : List α)
    (aElems matElems : Int) : Checked (List α) :=
  if !validCmd cmd then .error .aborted
  else do
    let elems := sizeT (sizeT cmd.rowCount*sizeT cmd.matrixSize)
    let ABlock ← transferMatrix encrypt ABlock aElems elems
    let B ← transferMatrix encrypt B matElems (sizeT (sizeT cmd.matrixSize*sizeT cmd.matrixSize))
    ppdpcDgemm ABlock B (table elems.toNat memory) cmd.rowCount cmd.matrixSize cmd.matrixSize

section Master
variable (memory : Nat → α) (M nworkers : Int) (encrypt : Bool) (numRuns : Int) (A B : List α)

def gatherBlock (w : Int) (C : List α) : Checked (List α) := do
  let cmd ← benchCmd M nworkers encrypt numRuns w
  let elems ← int (cmd.rowCount*M)
  let first := sizeT (sizeT cmd.rowStart*sizeT M)
  let ABlock ← region A first elems
  let part ← workerRun memory encrypt cmd ABlock B elems (sizeT (sizeT M*sizeT M))
  let part ← transferMatrix encrypt part (sizeT (sizeT cmd.rowCount*sizeT M)) elems
  storeRegion C first part

/-- One run on matrices of size `M`, which is skipped when the rows do not divide evenly. -/
def benchRun (C : List α) : Checked (Option (List α)) :=
  if M%nworkers ≠ 0 then pure none
  else if sizeT (sizeT M*sizeT M) > maxInt then pure none
  else do
    let C ← forBelow 0 nworkers (gatherBlock memory M nworkers encrypt numRuns A B) C
    pure (some C)

/-- The verification after the last run, of one row of each worker. -/
def verifyAll (rejects : α → α → Bool) (C : List α) : Checked Unit :=
  forBelow 0 nworkers (fun w _ => do
    let rowsPerWorker := M/nworkers
    let row ← int ((← int (w*rowsPerWorker))+rowsPerWorker/2)
    let status ← verifyRow rejects A B C M row
    if status ≠ 0 then .error .aborted else pure ()) ()

end Master

section Index

theorem sizeT_mul {i n : Nat} (hi : i < 2^64) (hn : n < 2^64) (h : i*n < 2^64) :
    sizeT (sizeT i*sizeT n) = ((i*n : Nat) : Int) := by
  rw [sizeT_natCast hi, sizeT_natCast hn, ← Int.natCast_mul, sizeT_natCast h]

theorem index_eq {i n j : Nat} (hpos : 0 < n) (hn : n < 2^64) (h : i*n+j < 2^64) :
    index i n j = ((i*n+j : Nat) : Int) := by
  have hi : i ≤ i*n := Nat.le_mul_of_pos_right i hpos
  rw [index, sizeT_mul (by omega) hn (by omega), sizeT_natCast (show j < 2^64 by omega),
    ← Int.natCast_add, sizeT_natCast h]

theorem index_lt {i j rows columns : Nat} (hi : i < rows) (hj : j < columns) :
    i*columns+j < rows*columns := by
  have hle : (i+1)*columns ≤ rows*columns := Nat.mul_le_mul_right columns hi
  rw [Nat.add_mul, Nat.one_mul] at hle
  omega

theorem index_div {i j columns : Nat} (hj : j < columns) : (i*columns+j)/columns = i := by
  rw [Nat.mul_comm, Nat.mul_add_div (by omega), Nat.div_eq_of_lt hj, Nat.add_zero]

theorem index_mod {i j columns : Nat} (hj : j < columns) : (i*columns+j)%columns = j := by
  rw [Nat.mul_comm, Nat.mul_add_mod, Nat.mod_eq_of_lt hj]

end Index

section Kernel
variable (a b : Nat → α) (inner columns : Nat)

def dotTo (row column t : Nat) : α :=
  (List.range t).foldl (fun sum k => sum + a (row*inner+k)*b (k*columns+column)) 0

theorem dotTo_succ (row column t : Nat) :
    dotTo a b inner columns row column (t+1) =
      dotTo a b inner columns row column t + a (row*inner+t)*b (t*columns+column) := by
  rw [dotTo, List.range_succ, List.foldl_append]
  rfl

def product (i : Nat) : α := dotTo a b inner columns (i/columns) (i%columns) inner

/-- What the kernel has made of `c`: the rows before `row` are finished, the entries of `row` have
`k` products, and one more those before `column`. -/
def progress (row k column i : Nat) : α :=
  if i/columns < row then product a b inner columns i
  else if i/columns = row then
    dotTo a b inner columns row (i%columns) (if i%columns < column then k+1 else k)
  else 0

variable {inner columns} {rows : Nat}

theorem progress_start (i : Nat) : progress a b inner columns 0 0 0 i = 0 := by
  rw [progress, if_neg (Nat.not_lt_zero _)]
  split
  · rw [if_neg (Nat.not_lt_zero _)]
    rfl
  · rfl

theorem progress_column {row k column : Nat} (hcolumn : column < columns) :
    table (rows*columns) (Function.update (progress a b inner columns row k column)
      (row*columns+column) (dotTo a b inner columns row column (k+1))) =
      table (rows*columns) (progress a b inner columns row k (column+1)) := by
  refine table_congr fun i _ => ?_
  rw [Function.update_apply]
  split
  · rename_i heq
    rw [heq, progress, index_div hcolumn, index_mod hcolumn, if_neg (Nat.lt_irrefl row), if_pos rfl,
      if_pos (Nat.lt_succ_self column)]
  · rename_i hne
    rw [progress, progress]
    by_cases hi : i/columns = row
    · have hdecomp : i = row*columns+i%columns := by
        rw [← hi, Nat.mul_comm]
        exact (Nat.div_add_mod i columns).symm
      have hcolumn' : i%columns ≠ column := fun h => hne (h ▸ hdecomp)
      have hsame : i%columns < column ↔ i%columns < column+1 := by omega
      rw [if_congr hsame rfl rfl]
    · rw [if_neg hi, if_neg hi]

theorem progress_inner (hcolumns : 0 < columns) (row k : Nat) :
    progress a b inner columns row k columns = progress a b inner columns row (k+1) 0 := by
  funext i
  have hlt : i%columns < columns := Nat.mod_lt i hcolumns
  rw [progress, progress, if_pos hlt, if_neg (Nat.not_lt_zero _)]

theorem progress_row (row : Nat) :
    progress a b inner columns row inner 0 = progress a b inner columns (row+1) 0 0 := by
  funext i
  rw [progress, progress, if_neg (Nat.not_lt_zero _), if_neg (Nat.not_lt_zero _)]
  rcases Nat.lt_trichotomy (i/columns) row with hlt | heq | hgt
  · rw [if_pos hlt, if_pos (by omega)]
  · rw [if_neg (by omega), if_pos heq, if_pos (by omega), product, heq]
  · rw [if_neg (by omega), if_neg (by omega), if_neg (by omega)]
    split
    · rfl
    · rfl

theorem progress_end (hcolumns : 0 < columns) :
    table (rows*columns) (progress a b inner columns rows 0 0) =
      table (rows*columns) (product a b inner columns) := by
  refine table_congr fun i hi => if_pos ?_
  rw [Nat.div_lt_iff_lt_mul hcolumns]
  exact hi

/-- One product is added to an entry. -/
theorem column_step {row k column : Nat} (hrow : row < rows) (hk : k < inner)
    (hcolumn : column < columns) (hsize : columns < 2^64) (hb : inner*columns < 2^64)
    (hc : rows*columns < 2^64) :
    (do
      let bk ← load (table (inner*columns) b) (index k columns column)
      let old ← load (table (rows*columns) (progress a b inner columns row k column))
        (index row columns column)
      store (table (rows*columns) (progress a b inner columns row k column))
        (index row columns column) (old + a (row*inner+k)*bk)) =
      .ok (table (rows*columns) (progress a b inner columns row k (column+1))) := by
  have hbk := index_lt hk hcolumn
  have hck := index_lt hrow hcolumn
  have hold : progress a b inner columns row k column (row*columns+column) =
      dotTo a b inner columns row column k := by
    rw [progress, index_div hcolumn, index_mod hcolumn, if_neg (Nat.lt_irrefl row), if_pos rfl,
      if_neg (Nat.lt_irrefl column)]
  rw [index_eq (by omega) hsize (by omega), load_table hbk, ok_bind,
    index_eq (by omega) hsize (by omega), load_table hck, ok_bind, store_table hck, hold,
    ← dotTo_succ, progress_column a b hcolumn]

/-- The kernel computes the product, whatever `c` holds before. -/
theorem ppdpcDgemm_eq (c : Nat → α) (hinner : 0 < inner) (hcolumns : 0 < columns)
    (hrows : (rows : Int) ≤ maxInt) (hinnerMax : (inner : Int) ≤ maxInt)
    (hcolumnsMax : (columns : Int) ≤ maxInt) (ha : rows*inner < 2^64) (hb : inner*columns < 2^64)
    (hc : rows*columns*8 < 2^64) :
    ppdpcDgemm (table (rows*inner) a) (table (inner*columns) b) (table (rows*columns) c) rows inner
      columns = .ok (table (rows*columns) (product a b inner columns)) := by
  have hsize : columns < 2^64 := by
    simp only [maxInt] at hcolumnsMax
    omega
  have hsize' : inner < 2^64 := by
    simp only [maxInt] at hinnerMax
    omega
  have hrowsSize : rows < 2^64 := by
    simp only [maxInt] at hrows
    omega
  have hbytes : (sizeT (sizeT (sizeT rows*sizeT columns)*8)/8).toNat = rows*columns := by
    rw [sizeT_mul hrowsSize hsize (by omega)]
    have hwhole : sizeT (((rows*columns : Nat) : Int)*8) = ((rows*columns*8 : Nat) : Int) :=
      sizeT_natCast hc
    rw [hwhole]
    omega
  have hzero : storeRegion (table (rows*columns) c) 0 (List.replicate (rows*columns) 0) =
      .ok (table (rows*columns) (progress a b inner columns 0 0 0)) := by
    have hstore : storeRegion (table (rows*columns) c) ((0 : Nat) : Int)
        (table (rows*columns) (fun _ => (0 : α))) = .ok _ := storeRegion_table _ (by omega)
    rw [replicate_eq_table]
    refine hstore.trans (congrArg Except.ok (table_congr fun i hi => ?_))
    rw [if_pos (by omega), progress_start]
  rw [ppdpcDgemm, hbytes, hzero, ok_bind, ← progress_end a b hcolumns]
  refine forBelow_zero (fun t => table (rows*columns) (progress a b inner columns t 0 0)) hrows ?_
  intro row hrow
  rw [← progress_row a b]
  refine forBelow_zero (fun t => table (rows*columns) (progress a b inner columns row t 0))
    hinnerMax ?_
  intro k hk
  have hak := index_lt hrow hk
  rw [index_eq hinner hsize' (by omega), load_table hak, ok_bind, ← progress_inner a b hcolumns]
  refine forBelow_zero (fun t => table (rows*columns) (progress a b inner columns row k t))
    hcolumnsMax ?_
  intro column hcolumn
  exact column_step a b hrow hk hcolumn hsize hb (by omega)

end Kernel

section Distribution
variable {M k r w : Nat} {encrypt : Bool} {numRuns : Nat} (a b memory f : Nat → α)

/-- A size that the programs accept, whose rows divide evenly: `r` for each of `k` workers. -/
structure Fits (M k r : Nat) : Prop where
  pos : 0 < M
  le : M ≤ 8192
  rows : k*r = M

omit [Zero α] [Add α] [Mul α] in
theorem Fits.of_dvd (hpos : 0 < M) (hle : M ≤ 8192) (h : k ∣ M) : Fits M k (M/k) :=
  ⟨hpos, hle, Nat.mul_div_cancel' h⟩

theorem Fits.rows_pos (h : Fits M k r) : 0 < r := by
  rcases Nat.eq_zero_or_pos r with hr | hr
  · have hrows := h.rows
    have hpos := h.pos
    rw [hr, Nat.mul_zero] at hrows
    omega
  · exact hr

theorem Fits.workers_pos (h : Fits M k r) : 0 < k := by
  rcases Nat.eq_zero_or_pos k with hk | hk
  · have hrows := h.rows
    have hpos := h.pos
    rw [hk, Nat.zero_mul] at hrows
    omega
  · exact hk

theorem Fits.div (h : Fits M k r) : (M : Int)/(k : Int) = (r : Int) := by
  rw [← h.rows, Int.natCast_mul, Int.mul_ediv_cancel_left]
  have hk := h.workers_pos
  omega

/-- The rows of worker `w` are rows of the matrix. -/
theorem Fits.block_le (h : Fits M k r) (hw : w < k) : w*r+r ≤ M := by
  have hle : (w+1)*r ≤ k*r := Nat.mul_le_mul_right r hw
  rw [Nat.add_mul, Nat.one_mul, h.rows] at hle
  exact hle

theorem Fits.size_le (h : Fits M k r) : M*M ≤ 67108864 := Nat.mul_le_mul h.le h.le

theorem Fits.rows_le (h : Fits M k r) : r ≤ M := by
  rw [← h.rows]
  exact Nat.le_mul_of_pos_left r h.workers_pos

/-- The `size_t` product of the programs counts the elements of `c` rows. -/
theorem Fits.elems (h : Fits M k r) {c : Nat} (hc : c ≤ M) :
    sizeT (sizeT (c : Int)*sizeT (M : Int)) = ((c*M : Nat) : Int) := by
  have hdim := h.le
  have hsize := h.size_le
  have hrows : c*M ≤ M*M := Nat.mul_le_mul_right M hc
  exact sizeT_mul (by omega) (by omega) (by omega)

theorem Fits.elems_le (h : Fits M k r) (hw : w < k) : w*r*M+r*M ≤ M*M := by
  rw [← Nat.add_mul]
  exact Nat.mul_le_mul_right M (h.block_le hw)

variable (M r w encrypt numRuns) in
def rowsCmd : BenchCmd where
  cmd := cmdBenchSize
  matrixSize := M
  rowStart := ((w*r : Nat) : Int)
  rowCount := r
  encryptData := if encrypt then 1 else 0
  numRuns := numRuns

theorem benchCmd_eq (h : Fits M k r) (hw : w < k) :
    benchCmd M k encrypt numRuns w = .ok (rowsCmd M r w encrypt numRuns) := by
  have hle := h.block_le hw
  have hmax := h.le
  rw [benchCmd, h.div, int_mul (by simp only [maxInt]; omega)]
  rfl

theorem validCmd_rowsCmd (h : Fits M k r) (hw : w < k) (hruns : 0 < numRuns)
    (hmax : numRuns ≤ 1000) : validCmd (rowsCmd M r w encrypt numRuns) = true := by
  have hle := h.block_le hw
  have hpos := h.rows_pos
  have hdim := h.le
  have hsize := h.size_le
  have helems := h.elems_le hw
  have hrange : ¬((M : Int) ≤ 0 ∨ (M : Int) > maxBenchMatrixDim ∨ ((w*r : Nat) : Int) < 0 ∨
      (r : Int) ≤ 0 ∨ (r : Int) > M ∨ ((w*r : Nat) : Int) > (M : Int)-r ∨ (numRuns : Int) ≤ 0 ∨
      (numRuns : Int) > maxBenchRuns ∨ ((r*M : Nat) : Int) > maxInt ∨
      ((M*M : Nat) : Int) > maxInt) := by
    simp only [maxBenchMatrixDim, maxBenchRuns, maxInt]
    omega
  rw [validCmd, rowsCmd, h.elems h.rows_le, h.elems le_rfl]
  cases encrypt
  · simpa [not_or, and_assoc] using hrange
  · simpa [not_or, and_assoc] using hrange

omit [Zero α] [Add α] [Mul α] in
theorem transferMatrix_table {n : Nat} (hn : n ≤ 67108864) (f : Nat → α) :
    transferMatrix encrypt (table n f) n n = .ok (table n f) := by
  have hlimit : ¬((n : Int) < 0 ∨ (n : Int) > (maxInt-npub-abytes)/8) := by
    simp only [maxInt, npub, abytes]
    omega
  have hexpected : ¬((n : Int) < 0 ∨ (encrypt = true ∧ (n : Int) > (maxInt-npub-abytes)/8) ∨
      (n : Int) ≠ n) := by
    simp only [maxInt, npub, abytes]
    omega
  have hregion : region (table n f) ((0 : Nat) : Int) (n : Int) = .ok _ := region_table (by omega)
  rw [transferMatrix, if_neg fun hc => hlimit hc.2, if_neg hexpected]
  refine hregion.trans (congrArg Except.ok (table_congr fun i _ => ?_))
  rw [Nat.zero_add]

/-- Row `i` of the block that begins at row `s` is row `s+i` of the product. -/
theorem product_block {s i : Nat} (hM : 0 < M) :
    product (fun j => a (s*M+j)) b M M i = product a b M M (s*M+i) := by
  have hdiv : (s*M+i)/M = s+i/M := by
    rw [Nat.mul_comm, Nat.mul_add_div hM]
  have hmod : (s*M+i)%M = i%M := by
    rw [Nat.mul_comm, Nat.mul_add_mod]
  rw [product, product, hdiv, hmod, dotTo, dotTo]
  refine congrArg (fun g => List.foldl g 0 (List.range M)) (funext fun sum => funext fun k => ?_)
  rw [Nat.add_mul, Nat.add_assoc]

theorem workerRun_eq (h : Fits M k r) (hw : w < k) (hruns : 0 < numRuns) (hmax : numRuns ≤ 1000) :
    workerRun memory encrypt (rowsCmd M r w encrypt numRuns) (table (r*M) a) (table (M*M) b)
      ((r*M : Nat) : Int) ((M*M : Nat) : Int) = .ok (table (r*M) (product a b M M)) := by
  have hle := h.block_le hw
  have hdim := h.le
  have hsize := h.size_le
  have helems := h.elems_le hw
  have hvalid : validCmd (rowsCmd M r w encrypt numRuns) = true :=
    validCmd_rowsCmd h hw hruns hmax
  rw [workerRun, hvalid, if_neg (by decide)]
  simp only [rowsCmd, h.elems h.rows_le, h.elems le_rfl]
  rw [transferMatrix_table (by omega), ok_bind, transferMatrix_table hsize, ok_bind,
    Int.toNat_natCast]
  exact ppdpcDgemm_eq a b memory h.pos h.pos (by simp only [maxInt]; omega)
    (by simp only [maxInt]; omega) (by simp only [maxInt]; omega) (by omega) (by omega) (by omega)

/-- The rows of worker `w` reach their place in `C`. -/
theorem gatherBlock_eq (h : Fits M k r) (hw : w < k) (hruns : 0 < numRuns)
    (hmax : numRuns ≤ 1000) :
    gatherBlock memory M k encrypt numRuns (table (M*M) a) (table (M*M) b) w
        (table (M*M) (upTo (product a b M M) f (w*r*M))) =
      .ok (table (M*M) (upTo (product a b M M) f ((w+1)*r*M))) := by
  have hle := h.block_le hw
  have hdim := h.le
  have hsize := h.size_le
  have helems := h.elems_le hw
  have hfirst : sizeT (sizeT ((w*r : Nat) : Int)*sizeT (M : Int)) = ((w*r*M : Nat) : Int) :=
    h.elems (by omega)
  have hint : int ((r : Int)*(M : Int)) = .ok ((r*M : Nat) : Int) :=
    int_mul (by simp only [maxInt]; omega)
  have hpart : table (r*M) (product (fun i => a (w*r*M+i)) b M M) =
      table (r*M) (fun i => product a b M M (w*r*M+i)) :=
    table_congr fun i _ => product_block a b h.pos
  have hend : w*r*M+r*M = (w+1)*r*M := by rw [Nat.add_mul w 1 r, Nat.one_mul, Nat.add_mul]
  have hrun : workerRun memory encrypt (rowsCmd M r w encrypt numRuns)
      (table (r*M) (fun i => a (w*r*M+i))) (table (M*M) b) ((r*M : Nat) : Int)
      ((M*M : Nat) : Int) = .ok (table (r*M) (product (fun i => a (w*r*M+i)) b M M)) :=
    workerRun_eq _ b memory h hw hruns hmax
  rw [rowsCmd] at hrun
  rw [gatherBlock, benchCmd_eq h hw, ok_bind]
  simp only [rowsCmd, hint, ok_bind, hfirst, h.elems le_rfl, h.elems h.rows_le]
  rw [region_table helems, ok_bind, hrun, ok_bind, transferMatrix_table (by omega), ok_bind, hpart,
    storeRegion_upTo helems, hend]

theorem Fits.workers_le (h : Fits M k r) : k ≤ M := by
  rw [← h.rows]
  exact Nat.le_mul_of_pos_right k h.rows_pos

theorem benchRun_eq (h : Fits M k r) (hruns : 0 < numRuns) (hmax : numRuns ≤ 1000) :
    benchRun memory M k encrypt numRuns (table (M*M) a) (table (M*M) b) (table (M*M) f) =
      .ok (some (table (M*M) (product a b M M))) := by
  have hworkers := h.workers_le
  have hdim := h.le
  have hsize := h.size_le
  have hrem : ¬(M : Int)%(k : Int) ≠ 0 := by
    rw [not_not, ← h.rows, Int.natCast_mul, Int.mul_emod_right]
  have hcount : ¬((M*M : Nat) : Int) > maxInt := by
    simp only [maxInt]
    omega
  have hgather : forBelow 0 k (gatherBlock memory M k encrypt numRuns (table (M*M) a)
      (table (M*M) b)) (table (M*M) (upTo (product a b M M) f (0*r*M))) =
      .ok (table (M*M) (upTo (product a b M M) f (k*r*M))) :=
    forBelow_zero (fun t => table (M*M) (upTo (product a b M M) f (t*r*M)))
      (by simp only [maxInt]; omega) fun w hw => gatherBlock_eq a b memory f h hw hruns hmax
  rw [Nat.zero_mul, Nat.zero_mul, upTo_zero, h.rows, table_upTo] at hgather
  rw [benchRun, if_neg hrem, h.elems le_rfl, if_neg hcount, hgather]
  rfl

/-- The verification expects what the kernel computes. -/
theorem expectedEntry_eq (h : M ≤ 8192) {row j : Nat} (hrow : row < M) (hj : j < M) :
    expectedEntry (table (M*M) a) (table (M*M) b) M row j =
      .ok (product a b M M (row*M+j)) := by
  have hsize : M*M ≤ 67108864 := Nat.mul_le_mul h h
  rw [product, index_div hj, index_mod hj]
  refine forBelow_zero (fun t => dotTo a b M M row j t) (by simp only [maxInt]; omega) ?_
  intro k hk
  have hak := index_lt hrow hk
  have hbk := index_lt hk hj
  rw [index_eq (by omega) (by omega) (by omega), load_table hak, ok_bind,
    index_eq (by omega) (by omega) (by omega), load_table hbk, ok_bind, dotTo_succ]
  rfl

theorem verifyRow_eq (h : M ≤ 8192) {rejects : α → α → Bool} (hself : ∀ e, rejects e e = false)
    {row : Nat} (hrow : row < M) :
    verifyRow rejects (table (M*M) a) (table (M*M) b) (table (M*M) (product a b M M)) M row =
      .ok 0 := by
  have hsize : M*M ≤ 67108864 := Nat.mul_le_mul h h
  refine forBelow_zero (fun _ => 0) (by simp only [maxInt]; omega) ?_
  intro j hj
  have hcj := index_lt hrow hj
  rw [if_neg (by decide), expectedEntry_eq a b h hrow hj, ok_bind,
    index_eq (by omega) (by omega) (by omega), load_table hcj, ok_bind, hself]
  rfl

theorem verifyAll_eq (h : Fits M k r) {rejects : α → α → Bool}
    (hself : ∀ e, rejects e e = false) :
    verifyAll M k (table (M*M) a) (table (M*M) b) rejects (table (M*M) (product a b M M)) =
      .ok () := by
  have hworkers := h.workers_le
  have hdim := h.le
  refine forBelow_zero (fun _ => ()) (by simp only [maxInt]; omega) ?_
  intro w hw
  have hle := h.block_le hw
  have hpos := h.rows_pos
  have hrow : int (((w*r : Nat) : Int)+(r : Int)/2) = .ok ((w*r+r/2 : Nat) : Int) :=
    int_add (b := r/2) (by simp only [maxInt]; omega)
  have hfirst : int ((w : Int)*(r : Int)) = .ok ((w*r : Nat) : Int) :=
    int_mul (by simp only [maxInt]; omega)
  simp only [h.div, hfirst, ok_bind, hrow]
  rw [verifyRow_eq a b h.le hself (by omega)]
  rfl

/-- Honest workers compute the product that the verification expects, in any arithmetic. -/
theorem dgemm_verified (hpos : 0 < M) (hle : (M : Int) ≤ maxBenchMatrixDim) (hk : k ∣ M)
    (hruns : 0 < numRuns) (hmax : (numRuns : Int) ≤ maxRuns) (encrypt : Bool)
    {A B C : List α} (hA : A.length = M*M) (hB : B.length = M*M) (hC : C.length = M*M)
    (memory : Nat → α) :
    (∀ w < k, ∃ cmd, benchCmd M k encrypt numRuns w = .ok cmd ∧ validCmd cmd = true) ∧
    ∃ Z, benchRun memory M k encrypt numRuns A B C = .ok (some Z) ∧ Z.length = M*M ∧
      (∀ row < M, ∀ j < M, ∃ e, expectedEntry A B M row j = .ok e ∧ Z[row*M+j]? = some e) ∧
      ∀ rejects : α → α → Bool, (∀ e, rejects e e = false) →
        (∀ row < M, verifyRow rejects A B Z M row = .ok 0) ∧ verifyAll M k A B rejects Z = .ok () := by
  have hle : M ≤ 8192 := Int.ofNat_le.mp hle
  have hmax : numRuns ≤ 1000 := Int.ofNat_le.mp hmax
  have hfits := Fits.of_dvd hpos hle hk
  have : Inhabited α := ⟨0⟩
  obtain ⟨a, rfl⟩ := exists_table hA
  obtain ⟨b, rfl⟩ := exists_table hB
  obtain ⟨c, rfl⟩ := exists_table hC
  refine ⟨fun w hw => ⟨_, benchCmd_eq hfits hw, validCmd_rowsCmd hfits hw hruns hmax⟩, _,
    benchRun_eq _ _ memory _ hfits hruns hmax, table_length, ?_, ?_⟩
  · intro row hrow j hj
    exact ⟨_, expectedEntry_eq _ _ hle hrow hj, table_getElem? (index_lt hrow hj)⟩
  · intro rejects hself
    exact ⟨fun row hrow => verifyRow_eq _ _ hle hself hrow, verifyAll_eq _ _ hfits hself⟩

theorem fourRows_verified :
    ∃ Z, benchRun (fun _ => 9) 4 2 true 3 (List.range 16) (List.range 16) (List.replicate 16 5) =
      .ok (some Z) := by
  obtain ⟨_, Z, h, _⟩ := dgemm_verified (M := 4) (k := 2) (by decide) (by decide)
    (by decide) (show 0 < 3 by decide) (by decide) true (A := List.range 16) (B := List.range 16)
    (C := List.replicate 16 5) rfl rfl rfl (fun _ => 9)
  exact ⟨Z, h⟩

end Distribution

section Doubles

def exceeds (expected actual : Binary64) : Bool :=
  let diff := (expected-actual).fabs
  let scale := if (Binary64.ofRat 1).lt expected.fabs then expected.fabs else .ofRat 1
  (Binary64.ofRat (1/10^9)).lt (diff/scale)

/-- No value is rejected where it is expected; the difference of infinities is a NaN, which the
test lets pass. -/
theorem exceeds_self (e : Binary64) : exceeds e e = false := by
  obtain ⟨t, ht, hpos, _⟩ :=
    Binary64.round_between (q := 1/10^9) (n := 1) (by norm_num) (by norm_num) (by norm_num)
  have htolerance : Binary64.ofRat (1/10^9) = .finite t := ht
  have hone : Binary64.ofRat 1 = .finite 1 := by
    exact_mod_cast Binary64.ofRat_natCast (n := 1) (by norm_num)
  cases e with
  | nan => exact Binary64.lt_nan _
  | infinite negative =>
    have hdiff : (Binary64.infinite negative - .infinite negative).fabs = .nan := by
      cases negative <;> rfl
    rw [exceeds, hdiff]
    exact Binary64.lt_nan _
  | finite a =>
    have hscale : ∃ s, 1 ≤ s ∧ (if (Binary64.ofRat 1).lt (Binary64.finite a).fabs then
        (Binary64.finite a).fabs else .ofRat 1) = .finite s := by
      rw [hone]
      split
      · rename_i hlt
        exact ⟨|a|, (of_decide_eq_true hlt).le, rfl⟩
      · exact ⟨1, le_rfl, rfl⟩
    obtain ⟨s, hs, hscale⟩ := hscale
    have hquotient : (Binary64.finite 0).fabs / .finite s = .finite 0 := by
      change (if s = 0 then Binary64.nan else Binary64.round (|0|/s)) = _
      rw [if_neg (by linarith), abs_zero, zero_div]
      exact_mod_cast Binary64.round_natCast (n := 0) (by norm_num)
    have hdiff : Binary64.finite a - .finite a = .finite 0 := Binary64.sub_self_of_finite a
    simp only [exceeds]
    rw [hscale, hdiff, hquotient, htolerance]
    exact decide_eq_false (not_lt.mpr hpos)

theorem doubles_verified {M k r : Nat} (h : Fits M k r) (a b : Nat → Binary64) :
    verifyAll M k (table (M*M) a) (table (M*M) b) exceeds (table (M*M) (product a b M M)) =
      .ok () :=
  verifyAll_eq a b h exceeds_self

end Doubles

end DistributedEnclave.Bench
