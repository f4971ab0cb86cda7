import DistributedEnclave.Blocks
import DistributedEnclave.CheckedInts

/-! The sparse product of CG and its distribution over the workers, with the `int` arithmetic and
the array accesses of the programs, over any type of numbers. -/
namespace DistributedEnclave.Npb.CgPartition
open Blocks CheckedInts Outcome
variable {α : Type} [Zero α] [Add α] [Mul α]

def sizeMax : Int := 18446744073709551615

structure Csr (α : Type) where
  rowPtr : List Int
  colIdx : List Int
  val : List α

def spmvKernel (nrows : Int) (A : Csr α) (x y : List α) : Checked (List α) :=
  forBelow 0 nrows (fun i y => do
    let first ← load A.rowPtr i
    let last ← load A.rowPtr (← int (i+1))
    let sum ← forBelow first last (fun j sum => do
      let value ← load A.val j
      let xj ← load x (← load A.colIdx j)
      pure (sum + value*xj)) 0
    store y i sum) y

/-- One round of the inner loop of `generate_sparse_matrix`. -/
def fillEntry (n nzpc : Int) (rand : Nat → Nat) (entry : Nat → α) (i j : Int)
    (s : List Int × List α) : Checked (List Int × List α) := do
  let k ← int ((← int (i*nzpc))+j)
  let colIdx ← store s.1 k (rand k.toNat%n)
  let val ← store s.2 k (entry k.toNat)
  pure (colIdx, val)

section Source
variable (memory : Nat → α) (intMemory : Nat → Int)

/-- `rand` and `entry` are what the two calls of `rand` for each entry lead to, `memory` and
`intMemory` what an array holds before it is filled. -/
def generateSparseMatrix (n nzpc : Int) (rand : Nat → Nat) (entry : Nat → α) :
    Checked (Option (Csr α)) :=
  if n ≤ 0 ∨ nzpc ≤ 0 ∨ n > maxInt/nzpc ∨ n+1 > sizeMax/4 then pure none
  else do
    let nnz ← int (n*nzpc)
    if nnz > sizeMax/8 then pure none
    else
      let rowPtr ← forUpTo 0 n (fun i rowPtr => do store rowPtr i (← int (i*nzpc)))
        (table (n+1).toNat intMemory)
      let s ← forBelow 0 n (fun i => forBelow 0 nzpc (fillEntry n nzpc rand entry i))
        (table nnz.toNat intMemory, table nnz.toNat memory)
      pure (some { rowPtr := rowPtr, colIdx := s.1, val := s.2 })

/-- `row_starts[w]` and `row_counts_arr[w]` -/
def rowBlock (n nworkers w : Int) : Checked (Int × Int) := do
  let rowsPerWorker := n/nworkers
  let start ← int (w*rowsPerWorker)
  let lastWorker ← int (nworkers-1)
  let count ←
    if w = lastWorker then do int (n-(← int (w*rowsPerWorker))) else pure rowsPerWorker
  pure (start, count)

def rowBlocks (n nworkers : Int) : Checked (List (Int × Int)) :=
  forBelow 0 nworkers (fun w blocks => do pure (blocks ++ [← rowBlock n nworkers w])) []

/-- `local_rp`, allocated for `size` entries. -/
def localRowPtr (A : Csr α) (rs rc size : Int) : Checked (List Int) :=
  forUpTo 0 rc (fun r rowPtr => do
    let p ← load A.rowPtr (← int (rs+r))
    store rowPtr r (← int (p-(← load A.rowPtr rs)))) (table size.toNat intMemory)

def localMatrix (A : Csr α) (rs rc : Int) : Checked (Csr α) := do
  let last ← load A.rowPtr (← int (rs+rc))
  let first ← load A.rowPtr rs
  let nnz ← int (last-first)
  let size ← int (rc+1)
  let rowPtr ← localRowPtr intMemory A rs rc size
  let colIdx ← region A.colIdx first nnz
  let val ← region A.val first nnz
  pure { rowPtr := rowPtr, colIdx := colIdx, val := val }

/-- A message is refused unless it has the length that is expected. -/
def recvBulk {β : Type} (sent : List β) (count : Int) : Checked (List β) :=
  if (sent.length : Int) = count then .ok sent else .error .aborted

def workerProduct (nrows n : Int) (A : Csr α) (x : List α) : Checked (List α) :=
  if nrows < 0 ∨ n ≤ 0 then .error .aborted
  else do
    let rowPtr ← recvBulk A.rowPtr (← int (nrows+1))
    let nnz ← load rowPtr nrows
    if nnz < 0 then .error .aborted
    else
      let colIdx ← recvBulk A.colIdx nnz
      let val ← recvBulk A.val nnz
      let x ← recvBulk x n
      spmvKernel nrows { rowPtr := rowPtr, colIdx := colIdx, val := val } x
        (table nrows.toNat memory)

def productOf (n : Int) (A : Csr α) (blocks : List (Int × Int)) (x : List α) (w : Int)
    (y : List α) : Checked (List α) := do
  let block ← load blocks w
  let part ← workerProduct memory block.2 n (← localMatrix intMemory A block.1 block.2) x
  storeRegion y block.1 (← recvBulk part block.2)

def distributedProduct (n nworkers : Int) (A : Csr α) (x y : List α) : Checked (List α) := do
  let blocks ← rowBlocks n nworkers
  forBelow 0 nworkers (productOf memory intMemory n A blocks x) y

end Source

/-- A sparse matrix: row `i` has the entries from `ptr i` up to `ptr (i+1)`. -/
structure Sparse (α : Type) (n m : Nat) where
  ptr : Nat → Nat
  col : Nat → Nat
  value : Nat → α
  first : ptr 0 = 0
  mono : ∀ i < n, ptr i ≤ ptr (i+1)
  col_lt : ∀ j < ptr n, col j < m

namespace Sparse
variable {n m : Nat} (M : Sparse α n m)

def csr : Csr α where
  rowPtr := table (n+1) (fun i => (M.ptr i : Int))
  colIdx := table (M.ptr n) (fun j => (M.col j : Int))
  val := table (M.ptr n) M.value

def dot (x : Nat → α) (i : Nat) : α :=
  (List.range (M.ptr (i+1)-M.ptr i)).foldl
    (fun sum j => sum + M.value (M.ptr i+j)*x (M.col (M.ptr i+j))) 0

omit [Zero α] [Add α] [Mul α] in
theorem ptr_le {i : Nat} (hi : i ≤ n) : M.ptr i ≤ M.ptr n := Cuts.of_mono M.mono hi

omit [Zero α] [Add α] [Mul α] in
theorem ptr_mono {i k : Nat} (hik : i ≤ k) (hk : k ≤ n) : M.ptr i ≤ M.ptr k :=
  Cuts.of_mono (fun w hw => M.mono w (by omega)) hik

def rows (s c : Nat) (h : s+c ≤ n) : Sparse α c m where
  ptr r := M.ptr (s+r)-M.ptr s
  col j := M.col (M.ptr s+j)
  value j := M.value (M.ptr s+j)
  first := Nat.sub_self _
  mono i hi := Nat.sub_le_sub_right (M.mono (s+i) (by omega)) _
  col_lt j hj := M.col_lt _ (by
    have hle := M.ptr_le h
    have hfrom := M.ptr_mono (Nat.le_add_right s c) h
    omega)

theorem dot_rows {s c r : Nat} (h : s+c ≤ n) (hr : r < c) (x : Nat → α) :
    (M.rows s c h).dot x r = M.dot x (s+r) := by
  have hfrom := M.ptr_mono (Nat.le_add_right s r) (by omega)
  have hcount : M.ptr (s+(r+1))-M.ptr s-(M.ptr (s+r)-M.ptr s) = M.ptr (s+r+1)-M.ptr (s+r) := by
    rw [← Nat.add_assoc]
    omega
  have hentry : ∀ j, M.ptr s+(M.ptr (s+r)-M.ptr s+j) = M.ptr (s+r)+j := by omega
  simp only [dot, rows, hcount, hentry]

end Sparse

section Kernel
variable {n m : Nat}

theorem spmvKernel_eq (M : Sparse α n m) (hn : (n : Int) ≤ maxInt)
    (hnnz : (M.ptr n : Int) ≤ maxInt) (x f : Nat → α) :
    spmvKernel n M.csr (table m x) (table n f) = .ok (table n (M.dot x)) := by
  refine forBelow_fill _ hn ?_
  intro i hi f
  have hfirst : load M.csr.rowPtr i = .ok (M.ptr i : Int) := load_table (by omega)
  have hnext : int ((i : Int)+1) = .ok ((i+1 : Nat) : Int) := int_succ (by omega)
  have hlast : load M.csr.rowPtr ((i+1 : Nat) : Int) = .ok (M.ptr (i+1) : Int) :=
    load_table (by omega)
  have hend := M.ptr_le (show i+1 ≤ n by omega)
  have hsum : forBelow (M.ptr i) (M.ptr (i+1)) (fun j sum => do
      let value ← load M.csr.val j
      let xj ← load (table m x) (← load M.csr.colIdx j)
      pure (sum + value*xj)) 0 = .ok (M.dot x i) := by
    refine forBelow_trace (fun t => (List.range t).foldl
      (fun sum j => sum + M.value (M.ptr i+j)*x (M.col (M.ptr i+j))) 0) (M.mono i hi)
      (by omega) ?_
    intro t ht
    have hj : M.ptr i+t < M.ptr n := by omega
    have hval : load M.csr.val ((M.ptr i+t : Nat) : Int) = .ok (M.value (M.ptr i+t)) :=
      load_table hj
    have hcol : load M.csr.colIdx ((M.ptr i+t : Nat) : Int) = .ok (M.col (M.ptr i+t) : Int) :=
      load_table hj
    rw [hval, ok_bind, hcol, ok_bind, load_table (M.col_lt _ hj), ok_bind, List.range_succ,
      List.foldl_append]
    rfl
  rw [hfirst, ok_bind, hnext, ok_bind, hlast, ok_bind, hsum, ok_bind]

variable (memory : Nat → α) (intMemory : Nat → Int) (M : Sparse α n m) {s c : Nat}

omit [Zero α] [Add α] [Mul α] in
theorem localMatrix_eq (hn : (n : Int) < maxInt) (hnnz : (M.ptr n : Int) ≤ maxInt)
    (h : s+c ≤ n) : localMatrix intMemory M.csr s c = .ok (M.rows s c h).csr := by
  have hfrom := M.ptr_mono (Nat.le_add_right s c) h
  have hend := M.ptr_le h
  have hptr : ∀ i ≤ n, load M.csr.rowPtr (i : Int) = .ok (M.ptr i : Int) := fun i hi =>
    load_table (Nat.lt_succ_of_le hi)
  have hcol : region M.csr.colIdx (M.ptr s : Int) ((M.ptr (s+c)-M.ptr s : Nat) : Int) =
      .ok (M.rows s c h).csr.colIdx := region_table (by omega)
  have hval : region M.csr.val (M.ptr s : Int) ((M.ptr (s+c)-M.ptr s : Nat) : Int) =
      .ok (M.rows s c h).csr.val := region_table (by omega)
  have hrows : localRowPtr intMemory M.csr s c ((c+1 : Nat) : Int) =
      .ok (M.rows s c h).csr.rowPtr := by
    rw [localRowPtr, Int.toNat_natCast]
    refine forUpTo_fill _ (by omega) ?_
    intro r hr f
    have hle := M.ptr_mono (Nat.le_add_right s r) (by omega)
    have hbound := M.ptr_le (show s+r ≤ n by omega)
    rw [int_add (by omega), ok_bind, hptr _ (by omega), ok_bind, hptr s (by omega), ok_bind,
      int_sub hle (by omega), ok_bind]
    rfl
  rw [localMatrix, int_add (by omega), ok_bind, hptr _ h, ok_bind, hptr s (by omega), ok_bind,
    int_sub hfrom (by omega), ok_bind, int_succ (by omega), ok_bind, hrows, ok_bind, hcol, ok_bind,
    hval]
  rfl

omit [Zero α] [Add α] [Mul α] in
theorem recvBulk_table {k : Nat} (f : Nat → α) : recvBulk (table k f) (k : Int) = .ok (table k f) :=
  if_pos (by rw [table_length])

theorem workerProduct_eq (hn : (n : Int) < maxInt) (hnnz : (M.ptr n : Int) ≤ maxInt) (hm : 0 < m)
    (x : Nat → α) :
    workerProduct memory n m M.csr (table m x) = .ok (table n (M.dot x)) := by
  have hlast : load M.csr.rowPtr (n : Int) = .ok (M.ptr n : Int) := load_table (by omega)
  have hptr : recvBulk M.csr.rowPtr ((n+1 : Nat) : Int) = .ok M.csr.rowPtr := recvBulk_table _
  have hcol : recvBulk M.csr.colIdx (M.ptr n : Int) = .ok M.csr.colIdx := recvBulk_table _
  have hval : recvBulk M.csr.val (M.ptr n : Int) = .ok M.csr.val := recvBulk_table _
  rw [workerProduct, if_neg (by omega), int_succ (by omega), ok_bind, hptr, ok_bind, hlast, ok_bind,
    if_neg (by omega), hcol, ok_bind, hval, ok_bind, recvBulk_table, ok_bind, Int.toNat_natCast]
  exact spmvKernel_eq M (by omega) hnnz x memory

end Kernel

section Partition
variable {n k : Nat}

/-- Where the rows of worker `w` begin; the last worker has the rows that are left. -/
def rowCut (n k w : Nat) : Nat := if w < k then w*(n/k) else n

theorem rowCut_cuts (hk : 0 < k) : Cuts (rowCut n k) k n := by
  have hle : ∀ w ≤ k, w*(n/k) ≤ n := fun w hw =>
    (Nat.mul_le_mul_right _ hw).trans (Nat.mul_div_le n k)
  refine ⟨?_, ?_, if_neg (Nat.lt_irrefl k)⟩
  · rw [rowCut, if_pos hk, Nat.zero_mul]
  · intro w hw
    rw [rowCut, rowCut, if_pos hw]
    split
    · exact Nat.mul_le_mul_right _ (Nat.le_succ w)
    · exact hle w hw.le

theorem rowBlock_eq (hn : (n : Int) ≤ maxInt) (hk : (k : Int) ≤ maxInt) {w : Nat} (hw : w < k) :
    rowBlock n k w = .ok ((rowCut n k w : Int), ((rowCut n k (w+1)-rowCut n k w : Nat) : Int)) := by
  have hcuts := rowCut_cuts (n := n) (show 0 < k by omega)
  have hstart : rowCut n k w = w*(n/k) := if_pos hw
  have hle : w*(n/k) ≤ n := hstart ▸ hcuts.le hw.le
  have hmul : int ((w : Int)*((n : Int)/(k : Int))) = .ok ((w*(n/k) : Nat) : Int) :=
    int_mul (by omega)
  have hlast : int ((k : Int)-1) = .ok ((k-1 : Nat) : Int) := int_pred (by omega) hk
  rw [rowBlock, hmul, ok_bind, hlast, ok_bind, hstart]
  by_cases hend : w+1 = k
  · rw [if_pos (by omega), ok_bind, int_sub hle hn, ok_bind, rowCut, if_neg (by omega)]
    rfl
  · rw [if_neg (by omega), rowCut, if_pos (by omega), Nat.add_mul, Nat.one_mul,
      Nat.add_sub_cancel_left]
    rfl

theorem rowBlocks_eq (hn : (n : Int) ≤ maxInt) (hk : (k : Int) ≤ maxInt) :
    rowBlocks n k = .ok ((blocks (rowCut n k) k).map (fun b => ((b.1 : Int), (b.2 : Int)))) := by
  refine forBelow_zero (fun t => (blocks (rowCut n k) t).map (fun b => ((b.1 : Int), (b.2 : Int))))
    hk ?_
  intro w hw
  rw [rowBlock_eq hn hk hw, ok_bind, blocks, blocks, List.range_succ, List.map_append,
    List.map_append]
  rfl

end Partition

section Matrix
variable {n nzpc : Nat} (rand : Nat → Nat) {entry : Nat → α}
  (memory : Nat → α) (intMemory : Nat → Int)

def uniform (n nzpc : Nat) (rand : Nat → Nat) (entry : Nat → α) (hn : 0 < n) : Sparse α n n where
  ptr i := i*nzpc
  col j := rand j%n
  value := entry
  first := Nat.zero_mul nzpc
  mono i _ := Nat.mul_le_mul_right nzpc (Nat.le_succ i)
  col_lt _ _ := Nat.mod_lt _ hn

variable (n nzpc) (entry) in
def filledTo (k : Nat) : List Int × List α :=
  (table (n*nzpc) (upTo (fun j => ((rand j%n : Nat) : Int)) intMemory k),
    table (n*nzpc) (upTo entry memory k))

omit [Zero α] [Add α] [Mul α] in
theorem fillEntry_eq (hnnz : ((n*nzpc : Nat) : Int) ≤ maxInt) {i j : Nat} (hi : i < n)
    (hj : j < nzpc) :
    fillEntry n nzpc rand entry i j (filledTo n nzpc rand entry memory intMemory (i*nzpc+j)) =
      .ok (filledTo n nzpc rand entry memory intMemory (i*nzpc+(j+1))) := by
  have hrow : (i+1)*nzpc ≤ n*nzpc := Nat.mul_le_mul_right nzpc hi
  rw [Nat.add_mul, Nat.one_mul] at hrow
  have hcol := store_upTo (f := intMemory) (g := fun j => ((rand j%n : Nat) : Int))
    (show i*nzpc+j < n*nzpc by omega)
  have hval := store_upTo (f := memory) (g := entry) (show i*nzpc+j < n*nzpc by omega)
  have hrand : (rand (i*nzpc+j) : Int)%(n : Int) = ((rand (i*nzpc+j)%n : Nat) : Int) := rfl
  rw [fillEntry, int_mul (by omega), ok_bind, int_add (by omega), ok_bind, Int.toNat_natCast,
    hrand, filledTo, hcol, ok_bind, hval]
  rfl

omit [Zero α] [Add α] [Mul α] in
theorem fillEntries_eq (hmax : (n : Int) < maxInt)
    (hnnz : ((n*nzpc : Nat) : Int) ≤ maxInt) :
    forBelow 0 n (fun i => forBelow 0 nzpc (fillEntry n nzpc rand entry i))
      (table (n*nzpc) intMemory, table (n*nzpc) memory) =
      .ok (table (n*nzpc) (fun j => ((rand j%n : Nat) : Int)), table (n*nzpc) entry) := by
  have hwhole : forBelow 0 n (fun i => forBelow 0 nzpc (fillEntry n nzpc rand entry i))
      (filledTo n nzpc rand entry memory intMemory (0*nzpc)) =
      .ok (filledTo n nzpc rand entry memory intMemory (n*nzpc)) := by
    refine forBelow_zero (fun t => filledTo n nzpc rand entry memory intMemory (t*nzpc))
      (by omega) ?_
    intro i hi
    rw [Nat.add_mul, Nat.one_mul]
    refine forBelow_zero (fun u => filledTo n nzpc rand entry memory intMemory (i*nzpc+u)) ?_ ?_
    · have hle : nzpc ≤ n*nzpc := Nat.le_mul_of_pos_left nzpc (by omega)
      omega
    · exact fun j hj => fillEntry_eq rand memory intMemory hnnz hi hj
  simpa only [filledTo, Nat.zero_mul, upTo_zero, table_upTo] using hwhole

omit [Zero α] [Add α] [Mul α] in
theorem generateSparseMatrix_eq (hn : 0 < n) (hmax : (n : Int) < maxInt) (hnzpc : 0 < nzpc)
    (hnnz : ((n*nzpc : Nat) : Int) ≤ maxInt) :
    generateSparseMatrix memory intMemory n nzpc rand entry =
      .ok (some (uniform n nzpc rand entry hn).csr) := by
  have hquotient : (n : Int) ≤ maxInt/(nzpc : Int) :=
    (Int.le_ediv_iff_mul_le (by omega)).mpr hnnz
  have hvalid : ¬((n : Int) ≤ 0 ∨ (nzpc : Int) ≤ 0 ∨ (n : Int) > maxInt/nzpc ∨
      (n : Int)+1 > sizeMax/4) := by
    have hsize : maxInt < sizeMax/4 := by decide
    omega
  have hsize : ¬((n*nzpc : Nat) : Int) > sizeMax/8 := by
    have hsize : maxInt < sizeMax/8 := by decide
    omega
  have hptr : forUpTo 0 n (fun i rowPtr => do store rowPtr i (← int (i*nzpc)))
      (table (n+1) intMemory) = .ok (uniform n nzpc rand entry hn).csr.rowPtr := by
    refine forUpTo_fill _ hmax ?_
    intro i hi f
    have hrow : i*nzpc ≤ n*nzpc := Nat.mul_le_mul_right nzpc hi
    rw [int_mul (by omega)]
    rfl
  have hsize' : ((n : Int)+1).toNat = n+1 := by omega
  rw [generateSparseMatrix, if_neg hvalid, int_mul hnnz, ok_bind, if_neg hsize, hsize', hptr, ok_bind,
    Int.toNat_natCast, fillEntries_eq rand memory intMemory hmax hnnz]
  rfl

omit [Zero α] [Add α] [Mul α] in
/-- The loop over `row_ptr` counts past the largest `int`. -/
theorem generateSparseMatrix_overflows (rand : Nat → Nat) (entry memory : Nat → α)
    (intMemory : Nat → Int) (A : Option (Csr α)) :
    generateSparseMatrix memory intMemory maxInt 1 rand entry ≠ .ok A := by
  intro h
  rw [generateSparseMatrix, if_neg (by decide), bind_eq_ok] at h
  obtain ⟨nnz, hnnz, h⟩ := h
  have hval : nnz = maxInt := by
    cases hnnz
    rfl
  rw [hval, if_neg (by decide), bind_eq_ok] at h
  obtain ⟨rowPtr, hptr, _⟩ := h
  exact forUpTo_overflows (by decide) _ _ hptr

end Matrix

section Distribution
variable {n k : Nat} (M : Sparse α n n) (memory : Nat → α) (intMemory : Nat → Int)

theorem productOf_eq (hmax : (n : Int) < maxInt) (hn : 0 < n) (hnnz : (M.ptr n : Int) ≤ maxInt)
    {w : Nat} (hw : w < k) (x f : Nat → α) :
    productOf memory intMemory n M.csr
        ((blocks (rowCut n k) k).map (fun b => ((b.1 : Int), (b.2 : Int)))) (table n x) w
        (table n (upTo (M.dot x) f (rowCut n k w))) =
      .ok (table n (upTo (M.dot x) f (rowCut n k (w+1)))) := by
  have hcuts := rowCut_cuts (n := n) (show 0 < k by omega)
  have hend := hcuts.add_sub hw
  have hrows : rowCut n k w+(rowCut n k (w+1)-rowCut n k w) ≤ n :=
    hend.le.trans (hcuts.le hw)
  have hload : load ((blocks (rowCut n k) k).map (fun b => ((b.1 : Int), (b.2 : Int)))) (w : Int) =
      .ok ((rowCut n k w : Int), ((rowCut n k (w+1)-rowCut n k w : Nat) : Int)) := by
    refine load_natCast ?_
    rw [List.getElem?_map, blocks, List.getElem?_map, List.getElem?_range hw]
    rfl
  have hlocal : (((M.rows _ _ hrows).ptr (rowCut n k (w+1)-rowCut n k w) : Nat) : Int) ≤ maxInt := by
    have hle := M.ptr_le hrows
    have hsub : (M.rows _ _ hrows).ptr (rowCut n k (w+1)-rowCut n k w) ≤ M.ptr n :=
      (Nat.sub_le _ _).trans hle
    omega
  have hpart : table (rowCut n k (w+1)-rowCut n k w) ((M.rows _ _ hrows).dot x) =
      table (rowCut n k (w+1)-rowCut n k w) (fun i => M.dot x (rowCut n k w+i)) :=
    table_congr fun i hi => M.dot_rows hrows hi x
  rw [productOf, hload, ok_bind, localMatrix_eq intMemory M hmax hnnz hrows, ok_bind,
    workerProduct_eq memory _ (by omega) hlocal hn, ok_bind, recvBulk_table, ok_bind, hpart,
    storeRegion_upTo hrows, hend]

theorem distributedProduct_eq (hmax : (n : Int) < maxInt) (hn : 0 < n)
    (hnnz : (M.ptr n : Int) ≤ maxInt) (hk : 0 < k) (hkmax : (k : Int) ≤ maxInt)
    (x f : Nat → α) :
    distributedProduct memory intMemory n k M.csr (table n x) (table n f) =
      .ok (table n (M.dot x)) := by
  have hcuts := rowCut_cuts (n := n) hk
  have hloop : forBelow 0 k (productOf memory intMemory n M.csr
      ((blocks (rowCut n k) k).map (fun b => ((b.1 : Int), (b.2 : Int)))) (table n x))
      (table n (upTo (M.dot x) f (rowCut n k 0))) =
      .ok (table n (upTo (M.dot x) f (rowCut n k k))) :=
    forBelow_zero (fun t => table n (upTo (M.dot x) f (rowCut n k t))) hkmax fun w hw =>
      productOf_eq M memory intMemory hmax hn hnnz hw x f
  rw [hcuts.first, hcuts.last, upTo_zero, table_upTo] at hloop
  rw [distributedProduct, rowBlocks_eq (by omega) hkmax, ok_bind, hloop]

/-- The size that the program does not accept: it counts the rows past the largest `int`. -/
theorem largest_overflows :
    ¬∀ n nzpc : Nat, 0 < n → 0 < nzpc → ((n*nzpc : Nat) : Int) ≤ maxInt →
      ∃ A : Csr Nat, generateSparseMatrix (fun _ => 0) (fun _ => 0) n nzpc (fun _ => 0)
        (fun _ => 0) = .ok (some A) := by
  intro h
  obtain ⟨A, hA⟩ := h 2147483647 1 (by decide) (by decide) (by decide)
  exact generateSparseMatrix_overflows _ _ _ _ _ hA

end Distribution

end DistributedEnclave.Npb.CgPartition
