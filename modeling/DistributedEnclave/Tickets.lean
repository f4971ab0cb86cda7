import Mathlib.Algebra.Group.Int.Defs
import Mathlib.Data.List.Basic

/-! Numbers that threads draw from a shared counter, one each, by an atomic addition. -/
namespace DistributedEnclave.Tickets

/-- What has been drawn since the counter stood at `first`: `drawn` has one place for each thread. -/
structure Valid (first : Int) (counter : Int64) (drawn : List (Option Int64)) : Prop where
  total : counter.toInt = first+drawn.countP Option.isSome
  range : ∀ t : Int64, some t ∈ drawn → first < t.toInt ∧ t.toInt ≤ counter.toInt
  distinct : ∀ (i j : Nat) (t : Int64), drawn[i]? = some (some t) → drawn[j]? = some (some t) → i = j

variable {first : Int} {counter : Int64} {drawn : List (Option Int64)} {i : Nat}

theorem Valid.nil (h : counter.toInt = first) : Valid first counter [] where
  total := by
    rw [h]
    exact (Int.add_zero first).symm
  range t ht := by cases ht
  distinct i j t hi := by
    rw [List.getElem?_nil] at hi
    cases hi

/-- Another thread comes. -/
theorem Valid.arrive (h : Valid first counter drawn) : Valid first counter (drawn ++ [none]) := by
  have hold : ∀ (i : Nat) (t : Int64), (drawn ++ [none])[i]? = some (some t) →
      drawn[i]? = some (some t) := by
    intro i t hi
    rcases Nat.lt_or_ge i drawn.length with hlt | hge
    · rwa [List.getElem?_append_left hlt] at hi
    · rw [List.getElem?_append_right hge] at hi
      have hnone := List.mem_of_getElem? hi
      rw [List.mem_singleton] at hnone
      cases hnone
  refine ⟨?_, fun t ht => ?_, fun i j t hi hj => h.distinct i j t (hold i t hi) (hold j t hj)⟩
  · rw [List.countP_append]
    exact h.total
  · rw [List.mem_append, List.mem_singleton] at ht
    cases ht with
    | inl hmem => exact h.range t hmem
    | inr hnone => cases hnone

theorem toInt_succ (h : counter.toInt+1 < 2^63) (hpos : 0 ≤ counter.toInt) :
    (counter+1).toInt = counter.toInt+1 := by
  rw [Int64.toInt_add, Int64.toInt_one]
  exact Int.bmod_eq_of_le (by omega) (by omega)

/-- A thread draws its number, while the counter has one. -/
theorem Valid.draw (h : Valid first counter drawn) (hi : drawn[i]? = some none)
    (hfirst : 0 ≤ first) (hroom : first+drawn.length < 2^63) :
    Valid first (counter+1) (drawn.set i (some (counter+1))) := by
  obtain ⟨hlt, hget⟩ := List.getElem?_eq_some_iff.mp hi
  have hcount : drawn.countP Option.isSome < drawn.length := by
    refine Nat.lt_of_le_of_ne List.countP_le_length fun heq => ?_
    have hall := List.countP_eq_length.mp heq none (hget ▸ List.getElem_mem hlt)
    cases hall
  have hcounter := h.total
  have hnext : (counter+1).toInt = counter.toInt+1 := toInt_succ (by omega) (by omega)
  have hnew : (drawn.set i (some (counter+1))).countP Option.isSome =
      drawn.countP Option.isSome+1 := by
    rw [List.countP_set hlt, hget]
    rfl
  have hold : ∀ (j : Nat) (t : Int64), (drawn.set i (some (counter+1)))[j]? = some (some t) →
      j = i ∧ t = counter+1 ∨ j ≠ i ∧ drawn[j]? = some (some t) := by
    intro j t hj
    by_cases hji : j = i
    · subst hji
      rw [List.getElem?_set_self hlt] at hj
      exact .inl ⟨rfl, (Option.some.inj (Option.some.inj hj)).symm⟩
    · rw [List.getElem?_set_ne (Ne.symm hji)] at hj
      exact .inr ⟨hji, hj⟩
  have hfresh : ∀ j : Nat, drawn[j]? ≠ some (some (counter+1)) := by
    intro j hj
    have hrange := (h.range _ (List.mem_of_getElem? hj)).2
    omega
  refine ⟨by omega, fun t ht => ?_, fun j k t hj hk => ?_⟩
  · obtain ⟨j, hj⟩ := List.mem_iff_getElem?.mp ht
    cases hold j t hj with
    | inl hself =>
      rw [hself.2]
      omega
    | inr hother =>
      have hrange := h.range t (List.mem_of_getElem? hother.2)
      omega
  · cases hold j t hj with
    | inl hself =>
      cases hold k t hk with
      | inl hself' => rw [hself.1, hself'.1]
      | inr hother =>
        rw [hself.2] at hother
        exact absurd hother.2 (hfresh k)
    | inr hother =>
      cases hold k t hk with
      | inl hself' =>
        rw [hself'.2] at hother
        exact absurd hother.2 (hfresh j)
      | inr hother' => exact h.distinct j k t hother.2 hother'.2

end DistributedEnclave.Tickets
