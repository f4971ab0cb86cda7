import Mathlib.Data.List.Basic
import Mathlib.Data.List.Range

/-! Cutting a sequence into consecutive blocks, some of which may be empty. -/
namespace DistributedEnclave.Blocks
variable {α : Type} {cut : Nat → Nat} {k n : Nat}

structure Cuts (cut : Nat → Nat) (k n : Nat) : Prop where
  first : cut 0 = 0
  mono : ∀ w < k, cut w ≤ cut (w+1)
  last : cut k = n

def blocks (cut : Nat → Nat) (k : Nat) : List (Nat × Nat) :=
  (List.range k).map (fun w => (cut w, cut (w+1)-cut w))

theorem Cuts.of_mono {w : Nat} (h : ∀ w < k, cut w ≤ cut (w+1)) (hw : w ≤ k) : cut w ≤ cut k := by
  induction k with
  | zero => rw [Nat.le_zero.mp hw]
  | succ k ih =>
    rcases Nat.lt_or_ge w (k+1) with hlt | hge
    · exact (ih (fun w hw => h w (by omega)) (by omega)).trans (h k (by omega))
    · rw [Nat.le_antisymm hw hge]

theorem Cuts.le (h : Cuts cut k n) {w : Nat} (hw : w ≤ k) : cut w ≤ n :=
  h.last ▸ Cuts.of_mono h.mono hw

theorem Cuts.add_sub (h : Cuts cut k n) {w : Nat} (hw : w < k) :
    cut w+(cut (w+1)-cut w) = cut (w+1) :=
  Nat.add_sub_of_le (h.mono w hw)

/-- The blocks are disjoint, in order and cover the rows. -/
theorem Cuts.cover (h : Cuts cut k n) :
    (blocks cut k).flatMap (fun b => List.range' b.1 b.2) = List.range n := by
  have hpart : ∀ m ≤ k, (blocks cut m).flatMap (fun b => List.range' b.1 b.2) =
      List.range (cut m) := by
    intro m
    induction m with
    | zero =>
      intro _
      rw [h.first]
      rfl
    | succ m ih =>
      intro hm
      rw [blocks, List.range_succ, List.map_append, List.flatMap_append, ← blocks,
        ih (by omega), List.map_singleton, List.flatMap_singleton, List.range_eq_range',
        List.range_eq_range']
      have happend := List.range'_append_1 (s := 0) (m := cut m) (n := cut (m+1)-cut m)
      rwa [Nat.zero_add, h.add_sub (by omega)] at happend
  rw [← h.last]
  exact hpart k le_rfl

/-- The blocks of a sequence, one after the other, are the sequence. -/
theorem Cuts.concat (h : Cuts cut k n) {l : List α} (hl : l.length = n) :
    (blocks cut k).flatMap (fun b => (l.drop b.1).take b.2) = l := by
  have hpart : ∀ m ≤ k, (blocks cut m).flatMap (fun b => (l.drop b.1).take b.2) =
      l.take (cut m) := by
    intro m
    induction m with
    | zero =>
      intro _
      rw [h.first, List.take_zero]
      rfl
    | succ m ih =>
      intro hm
      rw [blocks, List.range_succ, List.map_append, List.flatMap_append, ← blocks,
        ih (by omega), List.map_singleton, List.flatMap_singleton, ← List.take_add,
        h.add_sub (by omega)]
  rw [hpart k le_rfl, h.last, ← hl, List.take_length]

end DistributedEnclave.Blocks
