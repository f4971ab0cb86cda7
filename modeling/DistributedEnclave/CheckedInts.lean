import DistributedEnclave.Outcome
import Mathlib.Algebra.GroupWithZero.Nat
import Mathlib.Algebra.Ring.Int.Defs
import Mathlib.Data.List.Basic
import Mathlib.Logic.Function.Basic

/-! Loops of C over values of type `int` and over arrays. An `int` that overflows and an access
outside of an array are failures, so what a loop returns it has worked out without either. -/
namespace DistributedEnclave.CheckedInts
open Outcome
variable {α σ : Type}

inductive Fault where
  | overflow | outOfBounds | aborted
  deriving DecidableEq, Repr

abbrev Checked (α : Type) : Type := Except Fault α

def minInt : Int := -2147483648
def maxInt : Int := 2147483647

def int (z : Int) : Checked Int :=
  if minInt ≤ z ∧ z ≤ maxInt then .ok z else .error .overflow

def minInt64 : Int := -9223372036854775808
def maxInt64 : Int := 9223372036854775807

def int64 (z : Int) : Checked Int :=
  if minInt64 ≤ z ∧ z ≤ maxInt64 then .ok z else .error .overflow

def sizeT (z : Int) : Int := z%18446744073709551616

def load (l : List α) (i : Int) : Checked α :=
  if i < 0 then .error .outOfBounds
  else
    match l[i.toNat]? with
    | some a => .ok a
    | none => .error .outOfBounds

def store (l : List α) (i : Int) (a : α) : Checked (List α) :=
  if 0 ≤ i ∧ i.toNat < l.length then .ok (l.set i.toNat a) else .error .outOfBounds

def region (l : List α) (start count : Int) : Checked (List α) :=
  if 0 ≤ start ∧ 0 ≤ count ∧ start.toNat+count.toNat ≤ l.length then
    .ok ((l.drop start.toNat).take count.toNat)
  else .error .outOfBounds

def storeRegion (l : List α) (start : Int) (part : List α) : Checked (List α) :=
  if 0 ≤ start ∧ start.toNat+part.length ≤ l.length then
    .ok (l.take start.toNat ++ part ++ l.drop (start.toNat+part.length))
  else .error .outOfBounds

def loop (body : Int → σ → Checked σ) : Nat → Int → σ → Checked σ
  | 0, _, s => .ok s
  | k+1, i, s => do
    let s ← body i s
    let i ← int (i+1)
    loop body k i s

/-- `for (int i = first; i < bound; i++)` -/
def forBelow (first bound : Int) (body : Int → σ → Checked σ) (s : σ) : Checked σ :=
  loop body (bound-first).toNat first s

/-- `for (int i = first; i <= last; i++)` -/
def forUpTo (first last : Int) (body : Int → σ → Checked σ) (s : σ) : Checked σ :=
  loop body (last+1-first).toNat first s

theorem int_ok {z : Int} (hmin : minInt ≤ z) (hmax : z ≤ maxInt) : int z = .ok z :=
  if_pos ⟨hmin, hmax⟩

theorem int64_ok {z : Int} (hmin : minInt64 ≤ z) (hmax : z ≤ maxInt64) : int64 z = .ok z :=
  if_pos ⟨hmin, hmax⟩

theorem int64_nonneg {z : Int} (hz : 0 ≤ z) (hmax : z ≤ maxInt64) : int64 z = .ok z :=
  int64_ok (by simp only [minInt64]; omega) hmax

theorem int_natCast {n : Nat} (h : (n : Int) ≤ maxInt) : int n = .ok (n : Int) :=
  int_ok (by simp only [minInt]; omega) h

theorem int_add {a b : Nat} (h : ((a+b : Nat) : Int) ≤ maxInt) :
    int ((a : Int)+b) = .ok ((a+b : Nat) : Int) := int_natCast h

theorem int_succ {a : Nat} (h : (a : Int) < maxInt) :
    int ((a : Int)+1) = .ok ((a+1 : Nat) : Int) := int_natCast (n := a+1) (by omega)

theorem int_sub {a b : Nat} (hle : b ≤ a) (h : (a : Int) ≤ maxInt) :
    int ((a : Int)-b) = .ok ((a-b : Nat) : Int) := by
  rw [← Int.ofNat_sub hle]
  exact int_natCast (by omega)

theorem int_pred {a : Nat} (hpos : 0 < a) (h : (a : Int) ≤ maxInt) :
    int ((a : Int)-1) = .ok ((a-1 : Nat) : Int) := int_sub (b := 1) hpos h

theorem int_mul {a b : Nat} (h : ((a*b : Nat) : Int) ≤ maxInt) :
    int ((a : Int)*b) = .ok ((a*b : Nat) : Int) := int_natCast h

theorem sizeT_natCast {n : Nat} (h : n < 2^64) : sizeT n = n := by
  rw [sizeT]
  omega

section Loops
variable {body : Int → σ → Checked σ}

/-- A loop goes through the states `g`, when each round takes it to the next of them. -/
theorem loop_trace {k : Nat} {first : Int} (g : Nat → σ) (hmin : minInt ≤ first)
    (hmax : first+k ≤ maxInt) (h : ∀ t < k, body (first+t) (g t) = .ok (g (t+1))) :
    loop body k first (g 0) = .ok (g k) := by
  induction k generalizing first g with
  | zero => rfl
  | succ k ih =>
    have hfirst : body first (g 0) = .ok (g 1) := by
      have h0 := h 0 (by omega)
      rwa [Nat.cast_zero, Int.add_zero] at h0
    have hnext : int (first+1) = .ok (first+1) := int_ok (by omega) (by push_cast at hmax; omega)
    rw [loop, hfirst, ok_bind, hnext, ok_bind]
    refine ih (fun t => g (t+1)) (by omega) (by push_cast at hmax; omega) ?_
    intro t ht
    have hstep := h (t+1) (by omega)
    rwa [Nat.cast_succ, Int.add_comm (t : Int) 1, ← Int.add_assoc] at hstep

/-- A loop that has to count past the largest `int` does not end. -/
theorem loop_overflows {k : Nat} {first : Int} (hfirst : first ≤ maxInt)
    (h : maxInt < first+k) (s s' : σ) : loop body k first s ≠ .ok s' := by
  induction k generalizing first s with
  | zero =>
    push_cast at h
    omega
  | succ k ih =>
    intro hloop
    rw [loop, bind_eq_ok] at hloop
    obtain ⟨s₁, _, hloop⟩ := hloop
    obtain ⟨i, hi, hloop⟩ := (bind_eq_ok _ _ _).mp hloop
    rw [int] at hi
    split at hi
    · rename_i hrange
      cases hi
      exact ih hrange.2 (by push_cast at h; omega) s₁ hloop
    · cases hi

theorem forBelow_trace {first bound : Nat} (g : Nat → σ) (hle : first ≤ bound)
    (hmax : (bound : Int) ≤ maxInt)
    (h : ∀ t < bound-first, body ((first+t : Nat) : Int) (g t) = .ok (g (t+1))) :
    forBelow first bound body (g 0) = .ok (g (bound-first)) := by
  have hrounds : ((bound : Int)-first).toNat = bound-first := by omega
  rw [forBelow, hrounds]
  refine loop_trace g (by simp only [minInt]; omega) (by omega) ?_
  intro t ht
  rw [← Nat.cast_add]
  exact h t ht

theorem forBelow_zero {n : Nat} (g : Nat → σ) (hmax : (n : Int) ≤ maxInt)
    (h : ∀ t < n, body (t : Int) (g t) = .ok (g (t+1))) :
    forBelow 0 n body (g 0) = .ok (g n) := by
  refine forBelow_trace g (Nat.zero_le n) hmax ?_
  intro t ht
  rw [Nat.zero_add]
  exact h t ht

theorem forUpTo_trace {last : Nat} (g : Nat → σ) (hmax : (last : Int) < maxInt)
    (h : ∀ t ≤ last, body (t : Int) (g t) = .ok (g (t+1))) :
    forUpTo 0 last body (g 0) = .ok (g (last+1)) := by
  have hrounds : ((last : Int)+1-0).toNat = last+1 := by omega
  rw [forUpTo, hrounds]
  refine loop_trace g (by simp only [minInt]; omega) (by push_cast; omega) ?_
  intro t ht
  rw [Int.zero_add]
  exact h t (by omega)

theorem forUpTo_overflows {first : Int} (h : first ≤ maxInt) (s s' : σ) :
    forUpTo first maxInt body s ≠ .ok s' :=
  loop_overflows h (by omega) s s'

end Loops

def table (n : Nat) (f : Nat → α) : List α := (List.range n).map f

section Tables
variable {n : Nat} {f : Nat → α}

@[simp] theorem table_length : (table n f).length = n := by
  rw [table, List.length_map, List.length_range]

theorem table_congr {g : Nat → α} (h : ∀ i < n, f i = g i) : table n f = table n g :=
  List.map_congr_left fun i hi => h i (List.mem_range.mp hi)

theorem table_getElem? {i : Nat} (h : i < n) : (table n f)[i]? = some (f i) := by
  rw [table, List.getElem?_map, List.getElem?_range h]
  rfl

theorem eq_table [Inhabited α] (l : List α) : l = table l.length (fun i => l[i]?.getD default) := by
  refine List.ext_getElem? fun i => ?_
  by_cases hi : i < l.length
  · rw [table_getElem? hi, List.getElem?_eq_getElem hi, Option.getD_some]
  · rw [List.getElem?_eq_none (by omega), List.getElem?_eq_none (by rw [table_length]; omega)]

theorem exists_table [Inhabited α] {l : List α} (h : l.length = n) : ∃ f, l = table n f := by
  rw [← h]
  exact ⟨_, eq_table l⟩

theorem replicate_eq_table (n : Nat) (a : α) : List.replicate n a = table n (fun _ => a) := by
  rw [table, List.map_const', List.length_range]

theorem load_natCast {l : List α} {i : Nat} {a : α} (h : l[i]? = some a) :
    load l (i : Int) = .ok a := by
  rw [load, if_neg (by omega), Int.toNat_natCast, h]

theorem load_table {i : Nat} (h : i < n) : load (table n f) (i : Int) = .ok (f i) :=
  load_natCast (table_getElem? h)

theorem store_table {i : Nat} (h : i < n) (a : α) :
    store (table n f) (i : Int) a = .ok (table n (Function.update f i a)) := by
  rw [store, if_pos ⟨by omega, by rw [table_length, Int.toNat_natCast]; exact h⟩]
  congr 1
  refine List.ext_getElem? fun j => ?_
  rw [Int.toNat_natCast, List.getElem?_set, table_length]
  by_cases hj : j < n
  · rw [table_getElem? hj, table_getElem? hj, Function.update_apply]
    by_cases hij : i = j
    · rw [if_pos hij, if_pos h, if_pos hij.symm]
    · rw [if_neg hij, if_neg fun heq => hij heq.symm]
  · rw [if_neg (by omega), List.getElem?_eq_none (by rw [table_length]; omega),
      List.getElem?_eq_none (by rw [table_length]; omega)]

theorem region_table {start count : Nat} (h : start+count ≤ n) :
    region (table n f) (start : Int) (count : Int) = .ok (table count (fun i => f (start+i))) := by
  rw [region, if_pos ⟨by omega, by omega, by rw [table_length]; omega⟩]
  congr 1
  refine List.ext_getElem? fun j => ?_
  rw [Int.toNat_natCast, Int.toNat_natCast, List.getElem?_take, List.getElem?_drop]
  by_cases hj : j < count
  · rw [if_pos hj, table_getElem? (by omega), table_getElem? hj]
  · rw [if_neg hj, List.getElem?_eq_none (by rw [table_length]; omega)]

theorem storeRegion_table {start count : Nat} (g : Nat → α) (h : start+count ≤ n) :
    storeRegion (table n f) (start : Int) (table count g) =
      .ok (table n (fun i => if start ≤ i ∧ i < start+count then g (i-start) else f i)) := by
  rw [storeRegion, if_pos ⟨by omega, by rw [table_length, table_length]; omega⟩]
  congr 1
  refine List.ext_getElem? fun j => ?_
  rw [Int.toNat_natCast, table_length]
  have htake : ((table n f).take start ++ table count g).length = start+count := by
    rw [List.length_append, List.length_take, table_length, table_length]
    omega
  by_cases hj : j < n
  · rw [table_getElem? hj]
    rcases lt_or_ge j start with hlt | hge
    · rw [if_neg (by omega), List.append_assoc,
        List.getElem?_append_left (by rw [List.length_take, table_length]; omega),
        List.getElem?_take, if_pos hlt, table_getElem? hj]
    rcases lt_or_ge j (start+count) with hlt | hge'
    · rw [if_pos ⟨hge, hlt⟩, List.getElem?_append_left (by omega),
        List.getElem?_append_right (by rw [List.length_take]; omega), List.length_take,
        table_length, table_getElem? (by omega)]
      congr 2
      omega
    · rw [if_neg (by omega), List.getElem?_append_right (by omega), htake, List.getElem?_drop,
        Nat.add_sub_of_le hge', table_getElem? hj]
  · rw [List.getElem?_eq_none, List.getElem?_eq_none (by rw [table_length]; omega)]
    rw [List.length_append, htake, List.length_drop, table_length]
    omega

def upTo (g f : Nat → α) (k : Nat) : Nat → α := fun i => if i < k then g i else f i

@[simp] theorem upTo_zero (g f : Nat → α) : upTo g f 0 = f :=
  funext fun i => if_neg (Nat.not_lt_zero i)

theorem table_upTo (g f : Nat → α) : table n (upTo g f n) = table n g :=
  table_congr fun _ hi => if_pos hi

theorem store_upTo {g : Nat → α} {k : Nat} (h : k < n) :
    store (table n (upTo g f k)) (k : Int) (g k) = .ok (table n (upTo g f (k+1))) := by
  rw [store_table h]
  congr 1
  refine table_congr fun i _ => ?_
  rw [Function.update_apply, upTo, upTo]
  by_cases hik : i = k
  · rw [if_pos hik, if_pos (by omega), hik]
  · rw [if_neg hik]
    exact if_congr (by omega) rfl rfl

theorem storeRegion_upTo {g : Nat → α} {k count : Nat} (h : k+count ≤ n) :
    storeRegion (table n (upTo g f k)) (k : Int) (table count (fun i => g (k+i))) =
      .ok (table n (upTo g f (k+count))) := by
  rw [storeRegion_table _ h]
  congr 1
  refine table_congr fun i _ => ?_
  rw [upTo, upTo]
  by_cases hik : k ≤ i ∧ i < k+count
  · rw [if_pos hik, if_pos hik.2, Nat.add_sub_of_le hik.1]
  · rw [if_neg hik]
    exact if_congr (by omega) rfl rfl

variable {body : Int → List α → Checked (List α)}

/-- A loop that stores the value `g i` at every index `i`. -/
theorem forBelow_fill (g : Nat → α) (hmax : (n : Int) ≤ maxInt)
    (h : ∀ i < n, ∀ f, body (i : Int) (table n f) = store (table n f) (i : Int) (g i)) :
    forBelow 0 n body (table n f) = .ok (table n g) := by
  have hloop : forBelow 0 n body (table n (upTo g f 0)) = .ok (table n (upTo g f n)) :=
    forBelow_zero (fun t => table n (upTo g f t)) hmax fun t ht => by
      rw [h t ht, store_upTo ht]
  rwa [upTo_zero, table_upTo] at hloop

theorem forUpTo_fill {last : Nat} (g : Nat → α) (hmax : (last : Int) < maxInt)
    (h : ∀ i ≤ last, ∀ f, body (i : Int) (table (last+1) f) =
      store (table (last+1) f) (i : Int) (g i)) :
    forUpTo 0 last body (table (last+1) f) = .ok (table (last+1) g) := by
  have hloop : forUpTo 0 last body (table (last+1) (upTo g f 0)) =
      .ok (table (last+1) (upTo g f (last+1))) :=
    forUpTo_trace (fun t => table (last+1) (upTo g f t)) hmax fun t ht => by
      rw [h t ht, store_upTo (by omega)]
  rwa [upTo_zero, table_upTo] at hloop

end Tables

end DistributedEnclave.CheckedInts
