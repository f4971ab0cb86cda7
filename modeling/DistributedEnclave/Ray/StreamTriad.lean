import Mathlib.Data.List.Basic

/-! The Triad of the STREAM tasks: the arrays of a worker process, and the pass over them in
chunks. -/
namespace DistributedEnclave.Ray
variable {α : Type}

/-- What `out=A[i:]` leaves in an array. -/
def setSlice (A values : List α) (i : Nat) : List α :=
  A.take i ++ values ++ A.drop (i+values.length)

theorem setSlice_middle {front old back values : List α} {i : Nat} (hi : front.length = i)
    (h : values.length = old.length) :
    setSlice (front ++ (old ++ back)) values i = front ++ (values ++ back) := by
  have hdrop : (front ++ (old ++ back)).drop (i+values.length) = back := by
    rw [← List.append_assoc, h, ← hi, ← List.length_append, List.drop_left]
  rw [setSlice, hdrop, ← hi, List.take_left, List.append_assoc]

theorem setSlice_all {A values : List α} (h : values.length = A.length) :
    setSlice A values 0 = values := by
  have hall : setSlice ([] ++ (A ++ [])) values 0 = [] ++ (values ++ []) :=
    setSlice_middle rfl h
  rwa [List.append_nil, List.append_nil, List.nil_append, List.nil_append] at hall

/-- A slice of an array, which may reach behind its end. -/
theorem slice_middle {front old back : List α} {i k : Nat} (hi : front.length = i)
    (hle : old.length ≤ k) (hback : old.length < k → back = []) :
    ((front ++ (old ++ back)).drop i).take k = old := by
  rw [← hi, List.drop_left]
  rcases Nat.lt_or_eq_of_le hle with hlt | heq
  · rw [hback hlt, List.append_nil, List.take_of_length_le hle]
  · rw [← heq, List.take_left]

variable [Add α] [Mul α]

/-- `_stream_init_n`, `_stream_B`, `_stream_C` and `_stream_A` of a worker process. -/
structure StreamArrays (α : Type) where
  initN : Nat
  B : List α
  C : List α
  A : List α

def StreamArrays.fresh : StreamArrays α := ⟨0, [], [], []⟩

def triadChunk (alpha : α) (chunkElems : Nat) (arr : StreamArrays α) (i : Nat) : StreamArrays α :=
  let scaled := setSlice arr.A (((arr.C.drop i).take chunkElems).map (· * alpha)) i
  let added := ((scaled.drop i).take chunkElems).zipWith (· + ·) ((arr.B.drop i).take chunkElems)
  { arr with A := setSlice scaled added i }

/-- `triad`, with its `range(0, n_elements, chunk_elems)`. -/
def triad (n : Nat) (alpha : α) (chunkElems : Nat) (arr : StreamArrays α) : StreamArrays α :=
  (List.range' 0 ((n+chunkElems-1)/chunkElems) chunkElems).foldl (triadChunk alpha chunkElems) arr

/-- The arrays of a process at the beginning of a task; `B`, `C` and `A` are what it would be given
for new ones. -/
def StreamArrays.prepare (cache : StreamArrays α) (n : Nat) (alpha : α) (B C A : List α) :
    StreamArrays α :=
  if cache.initN ≠ n then
    let scaled := setSlice A (C.map (· * alpha)) 0
    ⟨n, B, C, setSlice scaled (scaled.zipWith (· + ·) B) 0⟩
  else cache

structure StreamArrays.Sized (n : Nat) (arr : StreamArrays α) : Prop where
  initN : arr.initN = n
  B : arr.B.length = n
  C : arr.C.length = n
  A : arr.A.length = n

def StreamArrays.scaledSum (alpha : α) (arr : StreamArrays α) : List α :=
  arr.C.zipWith (fun c b => c*alpha+b) arr.B

structure StreamArrays.Whole (n : Nat) (alpha : α) (arr : StreamArrays α) : Prop
    extends arr.Sized n where
  whole : arr.A = arr.scaledSum alpha

section Pass
variable {n chunkElems : Nat} {alpha : α} {arr : StreamArrays α}

theorem StreamArrays.Sized.length_scaledSum (h : arr.Sized n) :
    (arr.scaledSum alpha).length = n := by
  rw [scaledSum, List.length_zipWith, h.B, h.C, Nat.min_self]

/-- A chunk extends the front of the array that is done. -/
theorem triadChunk_front (h : arr.Sized n) {R : List α} (hR : R.length = n) {i : Nat} (hi : i ≤ n)
    (hA : arr.A = (arr.scaledSum alpha).take i ++ R.drop i) :
    triadChunk alpha chunkElems arr i = { arr with
      A := (arr.scaledSum alpha).take (i+chunkElems) ++ R.drop (i+chunkElems) } := by
  have hS : (arr.scaledSum alpha).length = n := h.length_scaledSum
  have hfront : ((arr.scaledSum alpha).take i).length = i :=
    List.length_take_of_le (hS.symm ▸ hi)
  have hold : ((R.drop i).take chunkElems).length = min chunkElems (n-i) := by
    rw [List.length_take, List.length_drop, hR]
  have hscaled : (((arr.C.drop i).take chunkElems).map (· * alpha)).length =
      min chunkElems (n-i) := by
    rw [List.length_map, List.length_take, List.length_drop, h.C]
  have hback : (((arr.C.drop i).take chunkElems).map (· * alpha)).length < chunkElems →
      R.drop (i+chunkElems) = [] := by
    intro hlt
    apply List.drop_eq_nil_of_le
    omega
  have hsplit : R.drop i = (R.drop i).take chunkElems ++ R.drop (i+chunkElems) := by
    rw [← List.drop_drop, List.take_append_drop]
  have hadded : (((arr.C.drop i).take chunkElems).map (· * alpha)).zipWith (· + ·)
      ((arr.B.drop i).take chunkElems) = ((arr.scaledSum alpha).drop i).take chunkElems := by
    rw [StreamArrays.scaledSum, List.drop_zipWith, List.take_zipWith, List.zipWith_map_left]
  have hlength : (((arr.scaledSum alpha).drop i).take chunkElems).length =
      (((arr.C.drop i).take chunkElems).map (· * alpha)).length := by
    rw [List.length_take, List.length_drop, hS, hscaled]
  rw [triadChunk, hA, hsplit, setSlice_middle hfront (hscaled.trans hold.symm),
    slice_middle hfront (hscaled ▸ Nat.min_le_left _ _) hback, hadded,
    setSlice_middle hfront hlength, List.take_add, List.append_assoc]

/-- After some chunks, so much of the array is done. -/
theorem foldl_triadChunk (h : arr.Sized n) (hchunk : 0 < chunkElems) {k : Nat}
    (hk : k ≤ (n+chunkElems-1)/chunkElems) :
    (List.range' 0 k chunkElems).foldl (triadChunk alpha chunkElems) arr = { arr with
      A := (arr.scaledSum alpha).take (chunkElems*k) ++ arr.A.drop (chunkElems*k) } := by
  induction k with
  | zero =>
    rw [Nat.mul_zero, List.take_zero, List.drop_zero, List.nil_append]
    rfl
  | succ k ih =>
    have hS : (arr.scaledSum alpha).length = n := h.length_scaledSum
    have hbefore : chunkElems*k ≤ n := by
      have hlt := (Nat.le_div_iff_mul_le hchunk).mp hk
      rw [Nat.mul_comm, Nat.mul_succ] at hlt
      omega
    have hsized : ({ arr with
        A := (arr.scaledSum alpha).take (chunkElems*k) ++ arr.A.drop (chunkElems*k) } :
        StreamArrays α).Sized n := by
      refine ⟨h.initN, h.B, h.C, ?_⟩
      rw [List.length_append, List.length_take, List.length_drop, hS, h.A]
      omega
    rw [List.range'_concat, List.foldl_append, ih (by omega), List.foldl_cons, List.foldl_nil,
      Nat.zero_add, triadChunk_front hsized h.A hbefore rfl, Nat.mul_succ]
    rfl

/-- One pass in chunks is the Triad of the whole arrays. -/
theorem triad_eq (h : arr.Sized n) (hchunk : 0 < chunkElems) :
    triad n alpha chunkElems arr = { arr with A := arr.scaledSum alpha } := by
  have hall : n ≤ chunkElems*((n+chunkElems-1)/chunkElems) := by
    have hlt := Nat.lt_mul_div_succ (n+chunkElems-1) hchunk
    rw [Nat.mul_succ] at hlt
    omega
  rw [triad, foldl_triadChunk h hchunk (Nat.le_refl _),
    List.take_of_length_le (h.length_scaledSum.symm ▸ hall),
    List.drop_eq_nil_of_le (h.A.symm ▸ hall), List.append_nil]

theorem StreamArrays.Sized.triad (h : arr.Sized n) (hchunk : 0 < chunkElems) :
    (triad n alpha chunkElems arr).Whole n alpha := by
  rw [triad_eq h hchunk]
  exact ⟨⟨h.initN, h.B, h.C, h.length_scaledSum⟩, rfl⟩

/-- A task has its arrays, those of the process when they are made for as many elements. -/
theorem StreamArrays.prepare_whole {cache : StreamArrays α} {B C A : List α}
    (hcache : cache.initN = n → cache.Whole n alpha) (hB : B.length = n) (hC : C.length = n)
    (hA : A.length = n) : (cache.prepare n alpha B C A).Whole n alpha := by
  rw [prepare]
  split
  · have hscaled : (C.map (· * alpha)).length = A.length := by rw [List.length_map, hC, hA]
    have hadded : ((C.map (· * alpha)).zipWith (· + ·) B).length = (C.map (· * alpha)).length := by
      rw [List.length_zipWith, List.length_map, hC, hB, Nat.min_self]
    have hsum : setSlice (setSlice A (C.map (· * alpha)) 0)
        ((setSlice A (C.map (· * alpha)) 0).zipWith (· + ·) B) 0 =
        C.zipWith (fun c b => c*alpha+b) B := by
      rw [setSlice_all hscaled, setSlice_all hadded, List.zipWith_map_left]
    refine ⟨⟨rfl, hB, hC, ?_⟩, hsum⟩
    change (setSlice _ _ 0).length = n
    rw [hsum, List.length_zipWith, hB, hC, Nat.min_self]
  · rename_i heq
    exact hcache (not_not.mp heq)

end Pass

end DistributedEnclave.Ray
