import DistributedEnclave.Npb.CgPartition

/-! The distribution of the sparse product in the Ray driver: the first workers have one row
more, when the rows do not divide evenly, and the blocks are concatenated. -/
namespace DistributedEnclave.Ray
open Blocks CheckedInts Npb.CgPartition
variable {α : Type} [Zero α] [Add α] [Mul α]

def rowProduct (x : List α) (row : List (Nat × α)) : α :=
  row.foldl (fun sum e => sum + e.2*x[e.1]?.getD 0) 0

/-- What the driver uses of scipy: the stored entries of the rows of a matrix, slices of rows,
and the product with a vector, which adds up the entries of each row in their order. -/
structure Scipy (α : Type) [Zero α] [Add α] [Mul α] where
  Matrix : Type
  rows : Matrix → List (List (Nat × α))
  slice : Matrix → Nat → Nat → Matrix
  csrMatvec : Matrix → List α → List α
  rows_slice : ∀ A i j, rows (slice A i j) = ((rows A).drop i).take (j-i)
  csrMatvec_rows : ∀ A x, csrMatvec A x = (rows A).map (rowProduct x)

def rowCounts (n nActive : Nat) : List Nat :=
  (List.range nActive).map (fun i => n/nActive + if i < n%nActive then 1 else 0)

def rowStarts (n nActive : Nat) : List Nat :=
  (List.range nActive).map (fun i => ((rowCounts n nActive).take i).sum)

section
variable (scipy : Scipy α)

/-- The row blocks that the actors hold. -/
def makeCgActors (A : scipy.Matrix) (n nActive : Nat) : List scipy.Matrix :=
  ((rowStarts n nActive).zip (rowCounts n nActive)).map (fun b => scipy.slice A b.1 (b.1+b.2))

/-- `np.concatenate` of what the actors return. -/
def distributedSpmv (A : scipy.Matrix) (n nActive : Nat) (x : List α) : List α :=
  (makeCgActors scipy A n nActive).flatMap (fun block => scipy.csrMatvec block x)

end

def rowCut (n k i : Nat) : Nat := i*(n/k)+min i (n%k)

section Partition
variable {n k : Nat}

theorem rowCut_succ (n k i : Nat) :
    rowCut n k (i+1) = rowCut n k i+(n/k + if i < n%k then 1 else 0) := by
  rw [rowCut, rowCut, Nat.add_mul, Nat.one_mul]
  split <;> omega

theorem rowCut_cuts (hk : 0 < k) : Cuts (rowCut n k) k n := by
  refine ⟨?_, ?_, ?_⟩
  · rw [rowCut, Nat.zero_mul, Nat.zero_min]
  · intro i _
    rw [rowCut_succ]
    exact Nat.le_add_right _ _
  · have hrem : n%k < k := Nat.mod_lt n hk
    rw [rowCut, Nat.min_eq_right hrem.le]
    exact Nat.div_add_mod n k

theorem sum_rowCounts (hk : 0 < k) {i : Nat} (hi : i ≤ k) :
    ((rowCounts n k).take i).sum = rowCut n k i := by
  induction i with
  | zero => rw [List.take_zero, (rowCut_cuts hk).first, List.sum_nil]
  | succ i ih =>
    have hget : (rowCounts n k)[i]? = some (n/k + if i < n%k then 1 else 0) := by
      rw [rowCounts, List.getElem?_map, List.getElem?_range (by omega)]
      rfl
    rw [List.take_add_one, hget, Option.toList_some, List.sum_append, List.sum_singleton,
      ih (by omega), rowCut_succ]

theorem actorRows_eq (hk : 0 < k) : (rowStarts n k).zip (rowCounts n k) = blocks (rowCut n k) k := by
  rw [rowStarts, rowCounts, List.zip_map', blocks]
  refine List.map_congr_left fun i hi => ?_
  rw [List.mem_range] at hi
  rw [← rowCounts, sum_rowCounts hk hi.le, rowCut_succ, Nat.add_sub_cancel_left]

end Partition

section Product
variable {n k : Nat} (scipy : Scipy α) (B : scipy.Matrix)

/-- The blocks of the product are the product of the blocks. -/
theorem distributedSpmv_eq (hk : 0 < k) (hB : (scipy.rows B).length = n) (x : List α) :
    distributedSpmv scipy B n k x = scipy.csrMatvec B x := by
  have hlen : ((scipy.rows B).map (rowProduct x)).length = n := by rw [List.length_map, hB]
  rw [distributedSpmv, makeCgActors, actorRows_eq hk, List.flatMap_map, scipy.csrMatvec_rows,
    ← (rowCut_cuts hk).concat hlen]
  refine congrArg (fun f => List.flatMap f _) (funext fun b => ?_)
  rw [scipy.csrMatvec_rows, scipy.rows_slice, Nat.add_sub_cancel_left, List.map_take, List.map_drop]

def rowEntries {m : Nat} (M : Sparse α n m) : List (List (Nat × α)) :=
  (List.range n).map (fun i =>
    (List.range (M.ptr (i+1)-M.ptr i)).map (fun j => (M.col (M.ptr i+j), M.value (M.ptr i+j))))

theorem rowProduct_eq {m : Nat} (M : Sparse α n m) (f : Nat → α) {i : Nat} (hi : i < n) :
    rowProduct (table m f) ((List.range (M.ptr (i+1)-M.ptr i)).map
      (fun j => (M.col (M.ptr i+j), M.value (M.ptr i+j)))) = M.dot f i := by
  rw [rowProduct, List.foldl_map, Sparse.dot]
  refine List.foldl_ext _ _ _ fun sum j hj => ?_
  have hend := M.ptr_le (show i+1 ≤ n by omega)
  have hlt : M.ptr i+j < M.ptr n := by
    rw [List.mem_range] at hj
    omega
  rw [table_getElem? (M.col_lt _ hlt), Option.getD_some]

/-- The product that the driver computes is the one of the kernel, where both have the same
matrix. -/
theorem spmvKernel_eq_csrMatvec (M : Sparse α n n) (hB : scipy.rows B = rowEntries M)
    (hn : (n : Int) ≤ maxInt) (hnnz : (M.ptr n : Int) ≤ maxInt) (f g : Nat → α) :
    spmvKernel n M.csr (table n f) (table n g) = .ok (scipy.csrMatvec B (table n f)) := by
  rw [spmvKernel_eq M hn hnnz, scipy.csrMatvec_rows, hB, rowEntries, List.map_map, table]
  congr 1
  exact List.map_congr_left fun i hi => (rowProduct_eq M f (List.mem_range.mp hi)).symm

end Product

section
variable {n nzpc k : Nat} {x y y' : List α}

/-- The blocks of both drivers cover the rows in order, and what is put together from them is the
product of the whole matrix. -/
theorem cg_distributed (hn : 0 < n) (hmax : (n : Int) < maxInt) (hnzpc : 0 < nzpc)
    (hnnz : ((n*nzpc : Nat) : Int) ≤ maxInt) (hk : 0 < k) (hkmax : (k : Int) ≤ maxInt)
    (rand : Nat → Nat) (entry memory : Nat → α) (intMemory : Nat → Int)
    (hx : x.length = n) (hy : y.length = n) (hy' : y'.length = n) (scipy : Scipy α) :
    (∃ M : Sparse α n n, ∃ z,
      generateSparseMatrix memory intMemory n nzpc rand entry = .ok (some M.csr) ∧
      spmvKernel n M.csr x y = .ok z ∧
      (∃ bs : List (Nat × Nat), rowBlocks n k = .ok (bs.map fun b => ((b.1 : Int), (b.2 : Int))) ∧
        bs.flatMap (fun b => List.range' b.1 b.2) = List.range n) ∧
      distributedProduct memory intMemory n k M.csr x y' = .ok z) ∧
    ((rowStarts n k).zip (rowCounts n k)).flatMap (fun b => List.range' b.1 b.2) = List.range n ∧
    (∀ B, (scipy.rows B).length = n → distributedSpmv scipy B n k x = scipy.csrMatvec B x) ∧
    ∀ (M : Sparse α n n) (B : scipy.Matrix), (M.ptr n : Int) ≤ maxInt →
      scipy.rows B = rowEntries M →
      spmvKernel n M.csr x y = .ok (distributedSpmv scipy B n k x) := by
  have : Inhabited α := ⟨0⟩
  obtain ⟨x, rfl⟩ := exists_table hx
  obtain ⟨y, rfl⟩ := exists_table hy
  obtain ⟨y', rfl⟩ := exists_table hy'
  refine ⟨⟨uniform n nzpc rand entry hn, _, generateSparseMatrix_eq rand memory intMemory hn hmax
    hnzpc hnnz, spmvKernel_eq _ (by omega) hnnz _ _, ⟨_, rowBlocks_eq (by omega) hkmax,
    (Npb.CgPartition.rowCut_cuts hk).cover⟩, distributedProduct_eq _ memory intMemory hmax hn hnnz
    hk hkmax _ _⟩, ?_, ?_, ?_⟩
  · rw [actorRows_eq hk]
    exact (rowCut_cuts hk).cover
  · exact fun B hB => distributedSpmv_eq scipy B hk hB _
  · intro M B hptr hB
    have hlen : (scipy.rows B).length = n := by
      rw [hB, rowEntries, List.length_map, List.length_range]
    rw [distributedSpmv_eq scipy B hk hlen]
    exact spmvKernel_eq_csrMatvec scipy B M hB (by omega) hptr _ _

def listScipy (α : Type) [Zero α] [Add α] [Mul α] : Scipy α where
  Matrix := List (List (Nat × α))
  rows A := A
  slice A i j := (A.drop i).take (j-i)
  csrMatvec A x := A.map (rowProduct x)
  rows_slice _ _ _ := rfl
  csrMatvec_rows _ _ := rfl

theorem twoRows_distributed :
    ∃ M : Sparse Nat 2 2, ∃ z, distributedProduct (fun _ => 7) (fun _ => 7) 2 3 M.csr [5, 6]
      [0, 0] = .ok z := by
  obtain ⟨⟨M, z, _, _, _, h⟩, _⟩ := cg_distributed (n := 2) (k := 3) (x := [5, 6]) (y := [0, 0])
    (by decide) (by decide) (show 0 < 1 by decide) (by decide) (by decide) (by decide) id id
    (fun _ => 7) (fun _ => 7) rfl rfl (show [0, 0].length = 2 from rfl) (listScipy Nat)
  exact ⟨M, z, h⟩

end

end DistributedEnclave.Ray
