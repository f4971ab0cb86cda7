import Mathlib.Data.List.Iterate
import Mathlib.Dynamics.PeriodicPts.Lemmas
import Mathlib.GroupTheory.Perm.Cycle.Basic

/-! Tables of links. Linking every entry of an ordering to the next one makes a table that leads
through all entries, and a permutation that is itself used as the table does so only when it is
one cycle. -/
namespace DistributedEnclave.Links
open Set
variable {α : Type*}

structure Tours (n : Nat) (s : Set α) (next : α → α) : Prop where
  visits : ∀ a ∈ s, ∀ b, b ∈ s ↔ ∃ k < n, next^[k] a = b
  returns : ∀ a ∈ s, next^[n] a = a
  no_sooner : ∀ a ∈ s, ∀ k < n, 0 < k → next^[k] a ≠ a

section Ordering
variable {n : Nat} {s : Set α} {order : Nat → α} {next : α → α}

/-- Exchanging two entries keeps an enumeration of `s`. -/
theorem bijOn_exchange {i j : Nat} (h : BijOn order (Iio n) s) (hi : i < n) (hj : j < n) :
    BijOn (Function.update (Function.update order i (order j)) j (order i)) (Iio n) s := by
  rw [← Equiv.comp_swap_eq_update j i order]
  exact h.comp (Equiv.swap_bijOn_self (iff_of_true hj hi))

/-- The index that follows `j` around a circle of `n`. -/
theorem next_index {j : Nat} (hj : j < n) : (if j+1 = n then 0 else j+1) = (j+1)%n := by
  split
  · rename_i heq
    rw [heq, Nat.mod_self]
  · exact (Nat.mod_eq_of_lt (by omega)).symm

variable [DecidableEq α]

/-- A loop that assigns a value to each entry leaves it there. -/
theorem foldl_assign {β : Type*} {m : Nat} (h : InjOn order (Iio n)) (hm : m ≤ n)
    (value : Nat → β) (table : α → β) {j : Nat} (hj : j < m) :
    (List.range m).foldl (fun t i => Function.update t (order i) (value i)) table (order j) =
      value j := by
  induction m with
  | zero => exact absurd hj (Nat.not_lt_zero j)
  | succ m ih =>
    rw [List.range_succ, List.foldl_append, List.foldl_cons, List.foldl_nil]
    by_cases heq : j = m
    · rw [heq, Function.update_self]
    · have hne : order j ≠ order m := fun he =>
        heq (h (show j < n by omega) (show m < n by omega) he)
      rw [Function.update_of_ne hne]
      exact ih (by omega) (by omega)

/-- A loop that notes where an entry is ends with its place. -/
theorem foldl_place {β : Type*} {m : Nat} (h : InjOn order (Iio n)) (hm : m ≤ n)
    (place : Nat → β) (start : β) {j : Nat} (hj : j < m) :
    (List.range m).foldl (fun p i => if order i = order j then place i else p) start = place j := by
  induction m with
  | zero => exact absurd hj (Nat.not_lt_zero j)
  | succ m ih =>
    rw [List.range_succ, List.foldl_append, List.foldl_cons, List.foldl_nil]
    by_cases heq : j = m
    · rw [heq, if_pos rfl]
    · have hne : order m ≠ order j := fun he =>
        heq (h (show m < n by omega) (show j < n by omega) he).symm
      rw [if_neg hne]
      exact ih (by omega) (by omega)

omit [DecidableEq α] in
/-- Following the links moves along the ordering. -/
theorem iterate_order (hnext : ∀ j < n, next (order j) = order ((j+1)%n)) {j : Nat} (hj : j < n)
    (k : Nat) : next^[k] (order j) = order ((j+k)%n) := by
  induction k with
  | zero => rw [Nat.add_zero, Nat.mod_eq_of_lt hj]; rfl
  | succ k ih =>
    rw [Function.iterate_succ_apply', ih, hnext _ (Nat.mod_lt _ (by omega)), Nat.mod_add_mod,
      Nat.add_assoc]

omit [DecidableEq α] in
theorem tours_of_order (h : BijOn order (Iio n) s)
    (hnext : ∀ j < n, next (order j) = order ((j+1)%n)) : Tours n s next := by
  refine ⟨?_, ?_, ?_⟩
  · intro a ha b
    obtain ⟨i, hi, rfl⟩ := h.surjOn ha
    have hi' : i < n := hi
    constructor
    · intro hb
      obtain ⟨j, hj, rfl⟩ := h.surjOn hb
      have hj' : j < n := hj
      refine ⟨(j+(n-i))%n, Nat.mod_lt _ (by omega), ?_⟩
      rw [iterate_order hnext hi', Nat.add_mod_mod]
      congr 1
      calc (i+(j+(n-i)))%n = (j+n)%n := by congr 1; omega
        _ = j := by rw [Nat.add_mod_right, Nat.mod_eq_of_lt hj']
    · intro h
      obtain ⟨k, _, rfl⟩ := h
      rw [iterate_order hnext hi']
      exact h.mapsTo (Nat.mod_lt _ (by omega))
  · intro a ha
    obtain ⟨i, hi, rfl⟩ := h.surjOn ha
    rw [iterate_order hnext hi, Nat.add_mod_right, Nat.mod_eq_of_lt hi]
  · intro a ha k hk hpos heq
    obtain ⟨i, hi, rfl⟩ := h.surjOn ha
    have hi' : i < n := hi
    rw [iterate_order hnext hi'] at heq
    have hplace : (i+k)%n = i := h.injOn (show (i+k)%n < n from Nat.mod_lt _ (by omega)) hi heq
    rcases lt_or_ge (i+k) n with hlt | hge
    · rw [Nat.mod_eq_of_lt hlt] at hplace
      omega
    · rw [Nat.mod_eq_sub_mod hge, Nat.mod_eq_of_lt (by omega)] at hplace
      omega

end Ordering

section Permutation
variable [Fintype α] {perm : Equiv.Perm α}

/-- Enough steps lead through all of the cycle they begin on. -/
theorem mem_iterate_iff_sameCycle {count : Nat} (h : Fintype.card α ≤ count) (a b : α) :
    b ∈ List.iterate perm a count ↔ perm.SameCycle a b := by
  rw [List.mem_iterate]
  constructor
  · intro h
    obtain ⟨k, _, rfl⟩ := h
    rw [Equiv.Perm.iterate_eq_pow]
    exact Equiv.Perm.sameCycle_pow_right.mpr (Equiv.Perm.SameCycle.refl perm a)
  · intro hcycle
    obtain ⟨k, hk⟩ := hcycle.exists_nat_pow_eq
    have hpos : 0 < Function.minimalPeriod perm a :=
      Function.minimalPeriod_pos_of_mem_periodicPts (perm.injective.mem_periodicPts a)
    have hcard : Function.minimalPeriod perm a ≤ Fintype.card α := Function.minimalPeriod_le_card
    refine ⟨k%Function.minimalPeriod perm a, ?_, ?_⟩
    · exact (Nat.mod_lt k hpos).trans_le (hcard.trans h)
    · rw [Function.iterate_mod_minimalPeriod_eq, Equiv.Perm.iterate_eq_pow, hk]

/-- The first elements on the way differ exactly when the permutation is one cycle. -/
theorem nodup_iterate_iff (a : α) :
    (List.iterate perm a (Fintype.card α)).Nodup ↔ perm.IsCycleOn univ := by
  classical
  constructor
  · intro hnodup
    have hall : (List.iterate perm a (Fintype.card α)).toFinset = Finset.univ := by
      rw [← Finset.card_eq_iff_eq_univ, List.toFinset_card_of_nodup hnodup, List.length_iterate]
    have hfrom : ∀ b, perm.SameCycle a b := by
      intro b
      rw [← mem_iterate_iff_sameCycle le_rfl, ← List.mem_toFinset, hall]
      exact Finset.mem_univ b
    exact ⟨bijOn_univ.mpr perm.bijective, fun b _ c _ => (hfrom b).symm.trans (hfrom c)⟩
  · intro hcycle
    have hcycle' : perm.IsCycleOn (Finset.univ : Finset α) := by rwa [Finset.coe_univ]
    rw [← List.range_map_iterate]
    refine List.nodup_range.map_on ?_
    intro j hj k hk heq
    rw [Equiv.Perm.iterate_eq_pow, Equiv.Perm.iterate_eq_pow,
      hcycle'.pow_apply_eq_pow_apply (Finset.mem_univ a), Finset.card_univ] at heq
    exact heq.eq_of_lt_of_lt (List.mem_range.mp hj) (List.mem_range.mp hk)

end Permutation

end DistributedEnclave.Links
