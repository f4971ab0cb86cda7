import DistributedEnclave.Links
import DistributedEnclave.Npb.Kernels

/-! The RANDOM workload in the integers of the worker: `uint32_t` entries and `size_t` positions.
Nothing is assumed of the values that the generator yields, nor of what the allocation of `links`
leaves in it. -/
namespace DistributedEnclave.Npb.RandomChase
open Links Set

/-- `order[i] = (uint32_t)i` -/
def identityOrder (i : Nat) : UInt32 := .ofNat i

/-- The loop that shuffles `order`, for `i` down to 1, with the coming values of the generator. -/
def shuffle : Nat → (Nat → UInt64) → (Nat → UInt32) → Nat → UInt32
  | 0, _, order => order
  | i+1, values, order =>
    let other := (values 0 % .ofNat (i+2)).toNat
    shuffle i (fun t => values (t+1))
      (Function.update (Function.update order (i+1) (order other)) other (order (i+1)))

def shuffledOrder (n : UInt64) (values : Nat → UInt64) : Nat → UInt32 :=
  shuffle (n.toNat-1) values identityOrder

/-- The loop that fills `links`, which is indexed by its own entries, and finds `zero_position`. -/
def linkOrder (n : UInt64) (order : Nat → UInt32) (links : UInt32 → UInt32) :
    (UInt32 → UInt32) × UInt64 :=
  (List.range n.toNat).foldl (fun s i =>
    let next := if i+1 = n.toNat then 0 else i+1
    (Function.update s.1 (order i) (order next), if order i = 0 then .ofNat i else s.2)) (links, 0)

/-- `token = links[token]`, `count` times. -/
def follow (links : UInt32 → UInt32) (count : UInt64) (token : UInt32) : UInt32 :=
  links^[count.toNat] token

def warmPosition (n zeroPosition warmup : UInt64) : UInt64 := (zeroPosition + warmup%n)%n

def finalPosition (n zeroPosition warmup accesses : UInt64) : UInt64 :=
  (warmPosition n zeroPosition warmup + accesses%n)%n

structure Chase where
  links : UInt32 → UInt32
  warmToken : UInt32
  expectedWarmToken : UInt32
  expectedFinalToken : UInt32

def prepareChase (n accesses warmup : UInt64) (values : Nat → UInt64) (memory : UInt32 → UInt32) :
    Chase :=
  let order := shuffledOrder n values
  let (links, zeroPosition) := linkOrder n order memory
  { links := links
    warmToken := follow links warmup 0
    expectedWarmToken := order (warmPosition n zeroPosition warmup).toNat
    expectedFinalToken := order (finalPosition n zeroPosition warmup accesses).toNat }

def Chase.ready (chase : Chase) (n : UInt64) : WorkloadReady :=
  if chase.warmToken ≠ chase.expectedWarmToken then
    { workload := workloadRandom, ok := 0, elementCount := 0 }
  else { workload := workloadRandom, ok := 1, elementCount := n }

def randomResult (clock : Clock) (chase : Chase) (accesses : UInt64) (run : Int32) :
    RandomResult :=
  let token := follow chase.links accesses chase.warmToken
  { run := run
    verified := if token = chase.expectedFinalToken then 1 else 0
    finalToken := token
    computeMs := clock.ms (.random run) }

section Order
variable {n i : Nat} {s : Set UInt32} {values : Nat → UInt64} {order : Nat → UInt32}

theorem identityOrder_bijOn (h : n ≤ 2^32) :
    BijOn identityOrder (Iio n) {a | a.toNat < n} := by
  have hval : ∀ i < n, (identityOrder i).toNat = i := fun i hi =>
    UInt32.toNat_ofNat_of_lt' (show i < 2^32 by omega)
  refine ⟨?_, ?_, ?_⟩
  · intro i hi
    change (identityOrder i).toNat < n
    rw [hval i hi]
    exact hi
  · intro i hi j hj heq
    rw [← hval i hi, ← hval j hj, heq]
  · intro a ha
    exact ⟨a.toNat, ha, UInt32.toNat_inj.mp (hval _ ha)⟩

theorem shuffle_bijOn (h : BijOn order (Iio n) s) (hi : i < n) :
    BijOn (shuffle i values order) (Iio n) s := by
  induction i generalizing values order with
  | zero => exact h
  | succ i ih =>
    rw [shuffle]
    have hother : (values 0 % .ofNat (i+2)).toNat < i+2 :=
      UInt64.toNat_mod_lt _ (by omega)
    exact ih (bijOn_exchange h hi (by omega)) (by omega)

theorem shuffledOrder_bijOn (values : Nat → UInt64) {n : UInt64} (hpos : 0 < n.toNat)
    (hmax : n.toNat ≤ 2^32) :
    BijOn (shuffledOrder n values) (Iio n.toNat) {a | a.toNat < n.toNat} :=
  shuffle_bijOn (identityOrder_bijOn hmax) (by omega)

theorem perm_of_bijOn (h : BijOn order (Iio n) {a | a.toNat < n}) :
    ((List.range n).map (fun i => (order i).toNat)).Perm (List.range n) := by
  have hnodup : ((List.range n).map (fun i => (order i).toNat)).Nodup := by
    refine List.nodup_range.map_on ?_
    intro i hi j hj heq
    exact h.injOn (List.mem_range.mp hi) (List.mem_range.mp hj) (UInt32.toNat_inj.mp heq)
  have hrange : (List.range n).map (fun i => (order i).toNat) ⊆ List.range n := by
    intro k hk
    obtain ⟨i, hi, rfl⟩ := List.mem_map.mp hk
    exact List.mem_range.mpr (h.mapsTo (List.mem_range.mp hi))
  exact (List.subperm_of_subset hnodup hrange).perm_of_length_le (by rw [List.length_map])

end Order

section Links
variable {n : UInt64} {order : Nat → UInt32} {memory : UInt32 → UInt32}

theorem linkOrder_links (order : Nat → UInt32) (memory : UInt32 → UInt32) :
    (linkOrder n order memory).1 = (List.range n.toNat).foldl (fun t i =>
      Function.update t (order i) (order (if i+1 = n.toNat then 0 else i+1))) memory :=
  (List.foldl_hom Prod.fst fun _ _ => rfl).symm

theorem linkOrder_next (h : InjOn order (Iio n.toNat)) {j : Nat} (hj : j < n.toNat) :
    (linkOrder n order memory).1 (order j) = order ((j+1)%n.toNat) := by
  rw [linkOrder_links, foldl_assign h le_rfl _ _ hj, next_index hj]

/-- The place of 0 does not depend on what `links` held. -/
theorem linkOrder_zero (order : Nat → UInt32) (memory : UInt32 → UInt32) :
    (linkOrder n order memory).2 =
      (List.range n.toNat).foldl (fun p i => if order i = 0 then .ofNat i else p) 0 :=
  (List.foldl_hom Prod.snd fun _ _ => rfl).symm

theorem linkOrder_place (h : InjOn order (Iio n.toNat)) {j : Nat} (hj : j < n.toNat)
    (hzero : order j = 0) : (linkOrder n order memory).2 = .ofNat j := by
  rw [linkOrder_zero, ← hzero]
  exact foldl_place h le_rfl _ _ hj

/-- A position is advanced by a count of accesses without overflow. -/
theorem position_toNat {position count : UInt64} (hmax : n.toNat ≤ 2^32)
    (h : position.toNat < n.toNat) :
    ((position + count%n)%n).toNat = (position.toNat+count.toNat)%n.toNat := by
  have hcount : count.toNat%n.toNat < n.toNat := Nat.mod_lt _ (by omega)
  rw [UInt64.toNat_mod, UInt64.toNat_add, UInt64.toNat_mod,
    Nat.mod_eq_of_lt (a := position.toNat+count.toNat%n.toNat) (by omega), Nat.add_mod_mod]

/-- Following the links from an entry leads to the one `count` places on. -/
theorem follow_order (h : InjOn order (Iio n.toNat)) (hmax : n.toNat ≤ 2^32) {position : UInt64}
    (hposition : position.toNat < n.toNat) (count : UInt64) :
    follow (linkOrder n order memory).1 count (order position.toNat) =
      order ((position + count%n)%n).toNat := by
  rw [follow, position_toNat hmax hposition]
  exact iterate_order (fun j hj => linkOrder_next h hj) hposition count.toNat

/-- The links lead through all entries before they return. -/
theorem linkOrder_tours (values : Nat → UInt64) (memory : UInt32 → UInt32) (hpos : 0 < n.toNat)
    (hmax : n.toNat ≤ 2^32) :
    Tours n.toNat {token | token.toNat < n.toNat}
      (linkOrder n (shuffledOrder n values) memory).1 :=
  have horder := shuffledOrder_bijOn values hpos hmax
  tours_of_order horder fun _ hj => linkOrder_next horder.injOn hj

theorem position_lt (hpos : 0 < n.toNat) (position : UInt64) : (position%n).toNat < n.toNat := by
  rw [UInt64.toNat_mod]
  exact Nat.mod_lt _ hpos

theorem finalPosition_toNat (hmax : n.toNat ≤ 2^32) {position : UInt64}
    (h : position.toNat < n.toNat) (warmup accesses : UInt64) :
    (finalPosition n position warmup accesses).toNat =
      ((position.toNat+warmup.toNat)%n.toNat+accesses.toNat)%n.toNat := by
  have hwarm : ((position + warmup%n)%n).toNat < n.toNat := position_lt (by omega) _
  rw [finalPosition, warmPosition, position_toNat hmax hwarm, position_toNat hmax h]

theorem order_zeroPosition (memory : UInt32 → UInt32)
    (h : BijOn order (Iio n.toNat) {a | a.toNat < n.toNat})
    (hpos : 0 < n.toNat) :
    (linkOrder n order memory).2.toNat < n.toNat ∧
      order (linkOrder n order memory).2.toNat = 0 := by
  obtain ⟨z, hz, hzero⟩ := h.surjOn (show (0 : UInt32).toNat < n.toNat from hpos)
  have hz' : z < n.toNat := hz
  have hplace : (linkOrder n order memory).2.toNat = z := by
    rw [linkOrder_place h.injOn hz hzero]
    exact UInt64.toNat_ofNat_of_lt' (hz'.trans n.toNat_lt)
  rw [hplace]
  exact ⟨hz, hzero⟩

end Links

section Worker
variable {n : UInt64} (values : Nat → UInt64) (memory : UInt32 → UInt32) (accesses warmup : UInt64)

/-- Both tokens are the entries at the positions that the worker works out. -/
theorem prepareChase_tokens (hpos : 0 < n.toNat) (hmax : n.toNat ≤ 2^32) :
    let chase := prepareChase n accesses warmup values memory
    chase.warmToken = chase.expectedWarmToken ∧
      follow chase.links accesses chase.warmToken = chase.expectedFinalToken := by
  have horder := shuffledOrder_bijOn values hpos hmax
  obtain ⟨hplace, hzero⟩ := order_zeroPosition memory horder hpos
  have hwarm : follow (linkOrder n (shuffledOrder n values) memory).1 warmup 0 =
      shuffledOrder n values (warmPosition n (linkOrder n (shuffledOrder n values) memory).2
        warmup).toNat := by
    rw [← hzero]
    exact follow_order horder.injOn hmax hplace warmup
  refine ⟨hwarm, ?_⟩
  simp only [prepareChase, hwarm]
  exact follow_order horder.injOn hmax (position_lt hpos _) accesses

theorem Chase.ready_ok {chase : Chase} (h : chase.warmToken = chase.expectedWarmToken)
    (n : UInt64) :
    chase.ready n = { workload := workloadRandom, ok := 1, elementCount := n } :=
  if_neg (not_not.mpr h)

variable (n) in
abbrev tables : (UInt32 → UInt32) × UInt64 := linkOrder n (shuffledOrder n values) memory

/-- The tables, the positions and the reports of a worker, whatever its generator yields. -/
theorem chase_exact (hpos : 0 < n.toNat) (hmax : n.toNat ≤ 0xFFFFFFFF) :
    ((List.range n.toNat).map (fun i => (shuffledOrder n values i).toNat)).Perm
        (List.range n.toNat) ∧
      Tours n.toNat {token | token.toNat < n.toNat} (tables n values memory).1 ∧
      follow (tables n values memory).1 warmup 0 =
        shuffledOrder n values (warmPosition n (tables n values memory).2 warmup).toNat ∧
      follow (tables n values memory).1 accesses (follow (tables n values memory).1 warmup 0) =
        shuffledOrder n values
          (finalPosition n (tables n values memory).2 warmup accesses).toNat ∧
      ((prepareChase n accesses warmup values memory).ready n).ok = 1 ∧
      ∀ clock run,
        (randomResult clock (prepareChase n accesses warmup values memory) accesses
          run).verified = 1 ∧
        ∀ memory' clock' run',
          (randomResult clock' (prepareChase n accesses warmup values memory') accesses
            run').finalToken =
          (randomResult clock (prepareChase n accesses warmup values memory) accesses
            run).finalToken := by
  have hmax' : n.toNat ≤ 2^32 := by omega
  have horder : BijOn (shuffledOrder n values) (Iio n.toNat) {a | a.toNat < n.toNat} :=
    shuffledOrder_bijOn values hpos hmax'
  obtain ⟨hwarm, hfinal⟩ := prepareChase_tokens values memory accesses warmup hpos hmax'
  refine ⟨perm_of_bijOn horder, linkOrder_tours values memory hpos hmax', hwarm, hfinal, ?_, ?_⟩
  · rw [Chase.ready_ok hwarm]
  · intro clock run
    refine ⟨if_pos hfinal, ?_⟩
    intro memory' clock' run'
    obtain ⟨_, hfinal'⟩ := prepareChase_tokens values memory' accesses warmup hpos hmax'
    calc follow (prepareChase n accesses warmup values memory').links accesses
          (prepareChase n accesses warmup values memory').warmToken
        = shuffledOrder n values
            (finalPosition n (tables n values memory').2 warmup accesses).toNat := hfinal'
      _ = shuffledOrder n values
            (finalPosition n (tables n values memory).2 warmup accesses).toNat := by
        rw [tables, linkOrder_zero, ← linkOrder_zero _ memory]
      _ = follow (prepareChase n accesses warmup values memory).links accesses
            (prepareChase n accesses warmup values memory).warmToken := hfinal.symm

theorem smallChase_ready :
    ((prepareChase 5 7 3 (fun t => .ofNat t) (fun _ => 9)).ready 5).ok = 1 :=
  (chase_exact (fun t => .ofNat t) (fun _ => 9) 7 3 (by decide) (by decide)).2.2.2.2.1

end Worker

section Worker
variable {n : Nat} (memory : UInt32 → UInt32) (accesses warmup : UInt64)

def generator (rng : UInt64) (t : Nat) : UInt64 := xorshift64Step^[t+1] rng

theorem shuffle_refines {i : Nat} {rng : UInt64} {order : Nat → UInt32} {order' : Nat → Nat}
    (h : ∀ k < n, (order k).toNat = order' k) (hi : i < n) (hn : n < 2^64) :
    ∀ k < n, (shuffle i (generator rng) order k).toNat = Npb.shuffle i rng order' k := by
  induction i generalizing rng order order' with
  | zero => exact h
  | succ i ih =>
    have hother : (generator rng 0 % .ofNat (i+2)).toNat = (xorshift64Step rng).toNat%(i+2) := by
      rw [UInt64.toNat_mod, UInt64.toNat_ofNat_of_lt' (show i+2 < 2^64 by omega)]
      rfl
    have hlt : (xorshift64Step rng).toNat%(i+2) < i+2 := Nat.mod_lt _ (by omega)
    refine ih ?_ (by omega)
    intro k hk
    rw [hother, exchange, Function.update_apply, Function.update_apply, Function.update_apply,
      Function.update_apply]
    split
    · exact h _ hi
    split
    · exact h _ (by omega)
    · exact h k hk

theorem shuffledOrder_refines (hpos : 0 < n) (hmax : n ≤ 2^32) :
    ∀ k < n, (shuffledOrder (.ofNat n) (generator 0x4d595df4d0f33173) k).toNat =
      randomOrder n k := by
  have hn : (UInt64.ofNat n).toNat = n := UInt64.toNat_ofNat_of_lt' (show n < 2^64 by omega)
  rw [shuffledOrder, hn, randomOrder]
  refine shuffle_refines ?_ (by omega) (by omega)
  intro k hk
  exact UInt32.toNat_ofNat_of_lt' (show k < 2^32 by omega)

theorem zeroPosition_refines (hpos : 0 < n) (hmax : n ≤ 2^32) :
    (linkOrder (.ofNat n) (shuffledOrder (.ofNat n) (generator 0x4d595df4d0f33173))
      memory).2.toNat = (Npb.linkOrder n (randomOrder n)).2 := by
  have hn : (UInt64.ofNat n).toNat = n := UInt64.toNat_ofNat_of_lt' (show n < 2^64 by omega)
  obtain ⟨hlt, hzero⟩ := order_zeroPosition memory
    (shuffledOrder_bijOn (generator 0x4d595df4d0f33173) (by rwa [hn]) (by rwa [hn]))
    (by rwa [hn])
  rw [hn] at hlt
  refine ((Npb.linkOrder_links (randomOrder_shuffled hpos)).2 _ hlt ?_).symm
  rw [← shuffledOrder_refines hpos hmax _ hlt, hzero]
  rfl

theorem expectedFinalToken_refines (hpos : 0 < n) (hmax : n ≤ 2^32) :
    (prepareChase (.ofNat n) accesses warmup (generator 0x4d595df4d0f33173)
      memory).expectedFinalToken.toNat = (Npb.prepareChase n accesses warmup).expectedFinalToken := by
  have hn : (UInt64.ofNat n).toNat = n := UInt64.toNat_ofNat_of_lt' (show n < 2^64 by omega)
  have hplace := zeroPosition_refines memory hpos hmax
  obtain ⟨hlt, _⟩ := order_zeroPosition memory
    (shuffledOrder_bijOn (generator 0x4d595df4d0f33173) (by rwa [hn]) (by rwa [hn]))
    (by rwa [hn])
  simp only [prepareChase, Npb.prepareChase]
  rw [finalPosition_toNat (by rwa [hn]) hlt, hplace, hn,
    shuffledOrder_refines hpos hmax _ (Nat.mod_lt _ hpos), Nat.add_mod_mod, Nat.add_mod_mod]

/-- What a worker reports here is what `Npb.randomResult` says it does. -/
theorem randomResult_refines (clock : Clock) (run : Int32) (hpos : 0 < n)
    (hmax : n ≤ 0xFFFFFFFF) :
    Npb.randomResult clock (Npb.prepareChase n accesses warmup) accesses run =
      randomResult clock (prepareChase (.ofNat n) accesses warmup (generator 0x4d595df4d0f33173)
        memory) accesses run := by
  have hmax' : n ≤ 2^32 := by omega
  have hn : (UInt64.ofNat n).toNat = n := UInt64.toNat_ofNat_of_lt' (show n < 2^64 by omega)
  obtain ⟨_, hfinal⟩ := prepareChase_tokens (generator 0x4d595df4d0f33173) memory accesses warmup
    (by rwa [hn]) (by rwa [hn])
  obtain ⟨_, hfinal'⟩ := Npb.prepareChase_expected hpos accesses warmup
  have htoken : UInt32.ofNat ((Npb.prepareChase n accesses warmup).final accesses) =
      follow (prepareChase (.ofNat n) accesses warmup (generator 0x4d595df4d0f33173) memory).links
        accesses (prepareChase (.ofNat n) accesses warmup (generator 0x4d595df4d0f33173)
          memory).warmToken := by
    rw [hfinal, hfinal', ← expectedFinalToken_refines memory accesses warmup hpos hmax',
      UInt32.ofNat_toNat]
  rw [Npb.randomResult, randomResult, htoken]
  simp only [hfinal, hfinal', if_true]

end Worker

end DistributedEnclave.Npb.RandomChase
