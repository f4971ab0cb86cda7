import DistributedEnclave.Npb.CgPartition
import DistributedEnclave.Npb.CgService

/-! The vector that an iteration of the CG workload gathers is the product with the whole matrix. -/
namespace DistributedEnclave.Npb
open CheckedInts CgPartition Blocks

section
variable {machine : Host} {a : Arguments} {w : Nat}

variable (machine a) in
def cgMatrix (hn : 0 < a.cgN) : Sparse Binary64 a.cgN a.cgN :=
  uniform a.cgN a.cgNzpc (fun k => machine.rand (2*k))
    (fun k => .ofRat (machine.rand (2*k+1)) / .ofRat machine.randMax * .ofRat 2 - .ofRat 1) hn

theorem rowStart_eq (hw : w < a.nworkers) : rowStart a w = rowCut a.cgN a.nworkers w :=
  (if_pos hw).symm

theorem rowStart_add (hw : w < a.nworkers) :
    rowStart a w+rowCount a w = rowCut a.cgN a.nworkers (w+1) := by
  have hle := rows_le hw
  rw [rowStart, rowCount] at hle ⊢
  rw [rowCut]
  by_cases hlast : w = a.nworkers-1
  · rw [if_pos hlast] at hle ⊢
    rw [if_neg (by omega)]
    omega
  · rw [if_neg hlast, if_pos (by omega), Nat.add_mul, Nat.one_mul, rowsPerWorker]

theorem blockOf_get {β : Type} (ha : a.Admitted) (hw : w < a.nworkers) (l : List β) {i : Nat}
    (hi : i < rowCount a w*a.cgNzpc) : (blockOf a w l)[i]? = l[rowStart a w*a.cgNzpc+i]? := by
  rw [blockOf_eq ha hw, List.getElem?_take, if_pos hi, List.getElem?_drop]

/-- The entries of the matrix that a worker of the machine finds in its block. -/
theorem blockOf_val (ha : a.Admitted) (hw : w < a.nworkers) {k : Nat}
    (hk : k < rowCount a w*a.cgNzpc) :
    (blockOf a w (val machine a.cgN a.cgNzpc))[k]?.getD 0 =
      (cgMatrix machine a ha.cgN.1).value (rowStart a w*a.cgNzpc+k) := by
  have hrows := Nat.mul_le_mul_right a.cgNzpc (rows_le hw)
  rw [Nat.add_mul] at hrows
  rw [blockOf_get ha hw _ hk, val, List.getElem?_map, List.getElem?_range (by omega)]
  rfl

theorem blockOf_colIdx (ha : a.Admitted) (hw : w < a.nworkers) {k : Nat}
    (hk : k < rowCount a w*a.cgNzpc) :
    ((blockOf a w (colIdx machine a.cgN a.cgNzpc))[k]?.getD 0).toInt.toNat =
      (cgMatrix machine a ha.cgN.1).col (rowStart a w*a.cgNzpc+k) := by
  have hrows := Nat.mul_le_mul_right a.cgNzpc (rows_le hw)
  have hcol := Nat.mod_lt (machine.rand (2*(rowStart a w*a.cgNzpc+k))) ha.cgN.1
  rw [Nat.add_mul] at hrows
  rw [blockOf_get ha hw _ hk, colIdx, List.getElem?_map, List.getElem?_range (by omega)]
  exact toNat_ofNat (hcol.le.trans ha.cgN.2.le)

/-- The rows that a worker computes. -/
theorem cgRows_eq (ha : a.Admitted) (hw : w < a.nworkers) (x : Nat → Binary64) :
    cgRows machine a w (table a.cgN x) =
      table (rowCount a w) (fun r => (cgMatrix machine a ha.cgN.1).dot x (rowStart a w+r)) := by
  refine List.map_congr_left fun i hi => ?_
  rw [List.mem_range] at hi
  have hrows := rows_le hw
  have hblock : (i+1)*a.cgNzpc ≤ rowCount a w*a.cgNzpc := Nat.mul_le_mul_right _ hi
  have hmatrix := Nat.mul_le_mul_right a.cgNzpc (rowCount_le hw)
  have hnext := Nat.add_mul i 1 a.cgNzpc
  have hptr : (cgMatrix machine a ha.cgN.1).ptr (rowStart a w+i) =
      rowStart a w*a.cgNzpc+i*a.cgNzpc := Nat.add_mul _ _ _
  have hcount : (cgMatrix machine a ha.cgN.1).ptr (rowStart a w+i+1)-
      (cgMatrix machine a ha.cgN.1).ptr (rowStart a w+i) = (i+1)*a.cgNzpc-i*a.cgNzpc := by
    have hend : (cgMatrix machine a ha.cgN.1).ptr (rowStart a w+i+1) =
        rowStart a w*a.cgNzpc+(i+1)*a.cgNzpc := by
      rw [← Nat.add_mul]
      rfl
    rw [hend, hptr]
    omega
  rw [localRowPtr_get hw hi.le, localRowPtr_get hw hi,
    toNat_ofNat ((by omega : i*a.cgNzpc ≤ a.cgN*a.cgNzpc).trans ha.cgNzpc.2),
    toNat_ofNat ((hblock.trans hmatrix).trans ha.cgNzpc.2)]
  change List.foldl _ 0 (List.range' _ _) = _
  rw [List.range'_eq_map_range, List.foldl_map, Sparse.dot, hcount, hptr]
  refine List.foldl_ext _ _ _ fun sum j hj => ?_
  rw [List.mem_range] at hj
  have hk : i*a.cgNzpc+j < rowCount a w*a.cgNzpc := by omega
  have hcol := (cgMatrix machine a ha.cgN.1).col_lt (rowStart a w*a.cgNzpc+(i*a.cgNzpc+j))
    (lt_of_lt_of_le (by rw [Nat.add_mul]; omega) (Nat.mul_le_mul_right a.cgNzpc hrows))
  rw [blockOf_val ha hw hk, blockOf_colIdx ha hw hk, table_getElem? hcol, Option.getD_some,
    Nat.add_assoc]

/-- A block that fits is stored without a fault. -/
theorem storeRegion_overwrite {y part : List Binary64} {start : Nat}
    (h : start+part.length ≤ y.length) :
    storeRegion y (start : Int) part = .ok (overwrite y start part) :=
  if_pos ⟨Int.natCast_nonneg _, h⟩

/-- What the master has put together once the workers below `k` have answered. -/
theorem gathered_upTo (ha : a.Admitted) (x f : Nat → Binary64) {k : Nat} (hk : k ≤ a.nworkers) :
    (List.range k).foldl
        (fun y w => overwrite y (rowStart a w) (cgRows machine a w (table a.cgN x)))
        (table a.cgN f) =
      table a.cgN (upTo ((cgMatrix machine a ha.cgN.1).dot x) f (rowCut a.cgN a.nworkers k)) := by
  induction k with
  | zero =>
    rw [(rowCut_cuts ha.workers.1).first, upTo_zero]
    rfl
  | succ k ih =>
    have hw : k < a.nworkers := hk
    have hfits : rowStart a k+(table (rowCount a k) (fun r =>
        (cgMatrix machine a ha.cgN.1).dot x (rowStart a k+r))).length ≤
        (table a.cgN (upTo ((cgMatrix machine a ha.cgN.1).dot x) f (rowStart a k))).length := by
      rw [table_length, table_length]
      exact rows_le hw
    rw [List.range_succ, List.foldl_append, ih hw.le, List.foldl_cons, List.foldl_nil,
      cgRows_eq ha hw, ← rowStart_eq hw, ← rowStart_add hw]
    exact Except.ok.inj ((storeRegion_overwrite hfits).symm.trans (storeRegion_upTo (rows_le hw)))

/-- The workers of the protocol model compute what the loops over the `int` indices compute. -/
theorem gathered_distributed (ha : a.Admitted) (memory : Nat → Binary64) (intMemory : Nat → Int)
    (x f : Nat → Binary64) :
    distributedProduct memory intMemory a.cgN a.nworkers (cgMatrix machine a ha.cgN.1).csr
        (table a.cgN x) (table a.cgN f) =
      .ok ((List.range a.nworkers).foldl
        (fun y w => overwrite y (rowStart a w) (cgRows machine a w (table a.cgN x)))
        (table a.cgN f)) := by
  have hworkers := ha.workers
  have hcgN := ha.cgN
  have hentries := ha.cgNzpc.2
  simp only [maxWorkers] at hworkers
  simp only [intMax] at hcgN hentries
  have hnnz : ((cgMatrix machine a ha.cgN.1).ptr a.cgN : Int) ≤ maxInt := by
    change ((a.cgN*a.cgNzpc : Nat) : Int) ≤ 2147483647
    omega
  rw [gathered_upTo ha x f le_rfl, (rowCut_cuts ha.workers.1).last, table_upTo]
  exact distributedProduct_eq _ _ _ (by simp only [maxInt]; omega) ha.cgN.1 hnnz ha.workers.1
    (by simp only [maxInt]; omega) x f

end

end DistributedEnclave.Npb
