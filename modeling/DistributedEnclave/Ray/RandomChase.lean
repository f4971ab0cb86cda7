import DistributedEnclave.Npb.RandomChase
import Mathlib.Data.Fintype.EquivFin

/-! The RANDOM workload of the Ray driver. The shuffled array is itself the table of links, so
how much of it a chase reads is decided by the cycle of index 0. -/
namespace DistributedEnclave.Ray
open Links Set

/-- What `rng.shuffle` may leave in `np.arange(n_elements)`. -/
structure Shuffled (n : Nat) where
  arr : List Nat
  perm : arr.Perm (List.range n)

namespace Shuffled
variable {n : Nat} (a : Shuffled n)

theorem length_eq : a.arr.length = n := by rw [a.perm.length_eq, List.length_range]

theorem nodup : a.arr.Nodup := a.perm.nodup_iff.mpr List.nodup_range

/-- `pos = arr[pos]` -/
def access (pos : Fin n) : Fin n :=
  ⟨a.arr.get ⟨pos, a.length_eq.symm ▸ pos.isLt⟩,
    List.mem_range.mp (a.perm.mem_iff.mp (List.get_mem a.arr _))⟩

def chase (count : Nat) (pos : Fin n) : Fin n := a.access^[count] pos

def positions (count : Nat) (pos : Fin n) : List (Fin n) := List.iterate a.access pos count

end Shuffled

structure ChaseResult (n : Nat) where
  endPos : Fin n
  usedCKernel : Bool
  timed : List (Fin n)

/-- Without the compiled kernel the loop in Python makes fewer accesses. -/
def remoteRandomChase {n : Nat} (hn : 0 < n) (a : Shuffled n) (gcc : Bool)
    (nWarmup nMeasured : Nat) : ChaseResult n :=
  let warmup := if gcc then nWarmup else min nWarmup 500000
  let measured := if gcc then nMeasured else min nMeasured 5000000
  let pos := a.chase warmup ⟨0, hn⟩
  { endPos := a.chase measured pos
    usedCKernel := gcc
    timed := a.positions measured pos }

section
variable {n : Nat} (a : Shuffled n)

theorem Shuffled.access_injective : Function.Injective a.access := by
  intro i j h
  have hplace := a.nodup.injective_get (congrArg Fin.val h)
  exact Fin.ext (Fin.mk.inj hplace)

noncomputable def Shuffled.toPerm : Equiv.Perm (Fin n) :=
  Equiv.ofBijective a.access (Finite.injective_iff_bijective.mp a.access_injective)

theorem Shuffled.positions_eq (count : Nat) (pos : Fin n) :
    a.positions count pos = List.iterate a.toPerm pos count := rfl

/-- The timed accesses stay on the cycle of index 0, and read all of it when there are enough. -/
theorem mem_timed_iff (hn : 0 < n) (nWarmup : Nat) {nMeasured : Nat} (h : n ≤ nMeasured)
    (pos : Fin n) :
    pos ∈ (remoteRandomChase hn a true nWarmup nMeasured).timed ↔
      a.toPerm.SameCycle ⟨0, hn⟩ pos := by
  have hcard : Fintype.card (Fin n) ≤ nMeasured := by rwa [Fintype.card_fin]
  have hwarm : a.chase nWarmup ⟨0, hn⟩ = (a.toPerm^nWarmup) ⟨0, hn⟩ := by
    rw [← Equiv.Perm.iterate_eq_pow]
    rfl
  change pos ∈ a.positions nMeasured (a.chase nWarmup ⟨0, hn⟩) ↔ _
  rw [a.positions_eq, mem_iterate_iff_sameCycle hcard, hwarm, Equiv.Perm.sameCycle_pow_left]

/-- The first `n` positions differ exactly when the shuffle has left one cycle. -/
theorem chase_traverses_iff (hn : 0 < n) :
    (a.positions n ⟨0, hn⟩).Nodup ↔ a.toPerm.IsCycleOn univ := by
  have h : (List.iterate a.toPerm ⟨0, hn⟩ (Fintype.card (Fin n))).Nodup ↔
      a.toPerm.IsCycleOn univ := nodup_iterate_iff _
  rwa [Fintype.card_fin, ← a.positions_eq] at h

theorem threeCycle_traverses :
    (Shuffled.toPerm (⟨[1, 2, 0], by decide⟩ : Shuffled 3)).IsCycleOn univ :=
  (chase_traverses_iff _ (by decide)).mp (by decide)

/-- The shuffle may leave the array as it was, and then every access reads index 0. -/
theorem unmoved_stays :
    ¬∀ (n : Nat) (hn : 0 < n) (a : Shuffled n), (a.positions n ⟨0, hn⟩).Nodup :=
  fun h => absurd (h 2 (by decide) ⟨[0, 1], by decide⟩) (by decide)

/-- The table of the MPI worker, used as the array, is one cycle. -/
theorem linked_isCycleOn {n : UInt64} (hpos : 0 < n.toNat) (hmax : n.toNat ≤ 2^32)
    (values : Nat → UInt64) (memory : UInt32 → UInt32) (a : Shuffled n.toNat)
    (h : ∀ pos, (a.access pos).val = ((Npb.RandomChase.linkOrder n
      (Npb.RandomChase.shuffledOrder n values) memory).1 (.ofNat pos)).toNat) :
    a.toPerm.IsCycleOn univ := by
  have hsame : ∀ k, (a.access^[k] ⟨0, hpos⟩).val = ((Npb.RandomChase.linkOrder n
      (Npb.RandomChase.shuffledOrder n values) memory).1^[k] 0).toNat := by
    intro k
    induction k with
    | zero => rfl
    | succ k ih =>
      rw [Function.iterate_succ_apply', Function.iterate_succ_apply', h, ih, UInt32.ofNat_toNat]
  have hfrom : ∀ pos, a.toPerm.SameCycle ⟨0, hpos⟩ pos := by
    intro pos
    have hval : (UInt32.ofNat pos).toNat = pos :=
      UInt32.toNat_ofNat_of_lt' (show pos.val < 2^32 by omega)
    obtain ⟨k, _, hk⟩ := ((Npb.RandomChase.linkOrder_tours values memory hpos hmax).visits 0
      hpos (.ofNat pos)).mp (show (UInt32.ofNat pos).toNat < n.toNat by rw [hval]; exact pos.isLt)
    have hreach : a.access^[k] ⟨0, hpos⟩ = pos := Fin.ext (by rw [hsame, hk, hval])
    exact ⟨k, by rw [zpow_natCast, ← Equiv.Perm.iterate_eq_pow]; exact hreach⟩
  exact ⟨bijOn_univ.mpr a.toPerm.bijective, fun b _ c _ => (hfrom b).symm.trans (hfrom c)⟩

end

end DistributedEnclave.Ray
