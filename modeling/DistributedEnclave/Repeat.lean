import DistributedEnclave.Octets
import DistributedEnclave.Outcome
import Mathlib.Data.List.Forall2

/-! Reading one item after another until a buffer is used up. A step reports the
index of the next item together with the proof that it lies further on, so the
loop cannot stand still. -/
namespace DistributedEnclave.Repeat
open DistributedEnclave.Octets DistributedEnclave.Outcome
universe u
variable {ε α : Type}

structure Item (α : Type) (i : Nat) where
  value : α
  next : Nat
  lt : i < next

def parseAll (step : Bytes → (i : Nat) → Except ε (Item α i)) (b : Bytes) (i : Nat) :
    Except ε (List α) :=
  if _h : i < b.length then
    step b i >>= fun item =>
      have := item.lt
      parseAll step b item.next >>= fun items => .ok (item.value :: items)
  else .ok []
termination_by b.length-i

theorem parseAll_done (step : Bytes → (i : Nat) → Except ε (Item α i)) {b : Bytes} {i : Nat}
    (h : b.length ≤ i) : parseAll step b i = .ok [] := by
  rw [parseAll, dif_neg (by omega)]

theorem parseAll_step (step : Bytes → (i : Nat) → Except ε (Item α i)) {b : Bytes} {i : Nat}
    (h : i < b.length) :
    parseAll step b i = step b i >>= fun item =>
      parseAll step b item.next >>= fun items => .ok (item.value :: items) := by
  rw [parseAll, dif_pos h]

structure Reads (step : Bytes → (i : Nat) → Except ε (Item α i)) (enc : α → Bytes)
    (fits : α → Prop) : Prop where
  enc_ne_nil : ∀ a, enc a ≠ []
  sound : ∀ b i item, i < b.length → step b i = .ok item →
    fits item.value ∧ b.drop i = enc item.value ++ b.drop item.next
  complete : ∀ b i a t, fits a → b.drop i = enc a ++ t →
    ∃ item, step b i = .ok item ∧ item.value = a ∧ b.drop item.next = t

theorem lt_of_drop_ne_nil {b : Bytes} {i : Nat} (h : b.drop i ≠ []) : i < b.length := by
  by_contra hc
  exact h (List.drop_of_length_le (not_lt.mp hc))

section
variable {β : Type} {step : Bytes → (i : Nat) → Except ε (Item α i)} {enc : β → Bytes}
  {stands : β → α → Prop}

structure ReadsAs (step : Bytes → (i : Nat) → Except ε (Item α i)) (enc : β → Bytes)
    (stands : β → α → Prop) : Prop where
  enc_ne_nil : ∀ x, enc x ≠ []
  sound : ∀ b i item, i < b.length → step b i = .ok item →
    ∃ x, stands x item.value ∧ b.drop i = enc x ++ b.drop item.next
  complete : ∀ b i x a t, stands x a → b.drop i = enc x ++ t →
    ∃ item, step b i = .ok item ∧ item.value = a ∧ b.drop item.next = t

theorem ReadsAs.parseAll_sound (hr : ReadsAs step enc stands) (b : Bytes) (n i : Nat)
    (as : List α) (hn : b.length-i ≤ n) (h : parseAll step b i = .ok as) :
    ∃ xs, List.Forall₂ stands xs as ∧ b.drop i = xs.flatMap enc := by
  induction n generalizing i as with
  | zero =>
    rw [parseAll_done step (by omega)] at h
    cases h
    exact ⟨[], .nil, List.drop_of_length_le (by omega)⟩
  | succ n ih =>
    by_cases hi : i < b.length
    · rw [parseAll_step step hi, bind_eq_ok] at h
      obtain ⟨item, hstep, h⟩ := h
      rw [bind_eq_ok] at h
      obtain ⟨items, hitems, h⟩ := h
      cases h
      have hlt := item.lt
      obtain ⟨x, hx, hdrop⟩ := hr.sound b i item hi hstep
      obtain ⟨xs, hxs, hrest⟩ := ih _ _ (by omega) hitems
      exact ⟨x::xs, .cons hx hxs, by rw [List.flatMap_cons, ← hrest, hdrop]⟩
    · rw [parseAll_done step (by omega)] at h
      cases h
      exact ⟨[], .nil, List.drop_of_length_le (by omega)⟩

theorem ReadsAs.parseAll_complete (hr : ReadsAs step enc stands) (b : Bytes) (i : Nat)
    {xs : List β} {as : List α} (hall : List.Forall₂ stands xs as)
    (h : b.drop i = xs.flatMap enc) : parseAll step b i = .ok as := by
  induction hall generalizing i with
  | nil => exact parseAll_done step (List.drop_eq_nil_iff.mp h)
  | @cons x a xs as hx _ ih =>
    rw [List.flatMap_cons] at h
    have hi : i < b.length := by
      apply lt_of_drop_ne_nil
      rw [h]
      exact List.append_ne_nil_of_left_ne_nil (hr.enc_ne_nil x) _
    obtain ⟨item, hstep, rfl, hnext⟩ := hr.complete b i x a _ hx h
    rw [parseAll_step step hi, hstep, ok_bind, ih item.next hnext, ok_bind]

theorem ReadsAs.parseAll_ok (hr : ReadsAs step enc stands) (b : Bytes) (i : Nat) (as : List α) :
    parseAll step b i = .ok as ↔
      ∃ xs, List.Forall₂ stands xs as ∧ b.drop i = xs.flatMap enc :=
  ⟨hr.parseAll_sound b _ i as le_rfl, fun ⟨_, hall, h⟩ => hr.parseAll_complete b i hall h⟩

end

section
variable {step : Bytes → (i : Nat) → Except ε (Item α i)} {enc : α → Bytes} {fits : α → Prop}

theorem Reads.readsAs (hr : Reads step enc fits) :
    ReadsAs step enc fun x a => x = a ∧ fits a where
  enc_ne_nil := hr.enc_ne_nil
  sound b i item hi h := ⟨item.value, ⟨rfl, (hr.sound b i item hi h).1⟩,
    (hr.sound b i item hi h).2⟩
  complete b i x a t hx h := by
    obtain ⟨rfl, hfit⟩ := hx
    exact hr.complete b i x t hfit h

theorem forall₂_eq_and (xs as : List α) :
    List.Forall₂ (fun x a => x = a ∧ fits a) xs as ↔ xs = as ∧ ∀ a ∈ as, fits a := by
  constructor
  · intro h
    induction h with
    | nil => simp
    | cons hx _ ih =>
      obtain ⟨rfl, hall⟩ := ih
      obtain ⟨rfl, hfit⟩ := hx
      exact ⟨rfl, by simp [hfit]; exact hall⟩
  · intro h
    obtain ⟨rfl, hall⟩ := h
    exact List.forall₂_same.mpr fun a ha => ⟨rfl, hall a ha⟩

/-- The loop accepts exactly the concatenations of item images. -/
theorem Reads.parseAll_ok (hr : Reads step enc fits) (b : Bytes) (i : Nat) (as : List α) :
    parseAll step b i = .ok as ↔ (∀ a ∈ as, fits a) ∧ b.drop i = as.flatMap enc := by
  rw [hr.readsAs.parseAll_ok]
  constructor
  · intro h
    obtain ⟨xs, hall, h⟩ := h
    obtain ⟨rfl, hfits⟩ := (forall₂_eq_and xs as).mp hall
    exact ⟨hfits, h⟩
  · intro h
    obtain ⟨hfits, h⟩ := h
    exact ⟨as, (forall₂_eq_and as as).mpr ⟨rfl, hfits⟩, h⟩

end

section
variable {β : Type} {enc : β → Bytes} {fits : β → Prop}

/-- Images that are told from what follows them determine the list they are joined from. -/
theorem flatMap_inj (hne : ∀ x, enc x ≠ [])
    (hinj : ∀ x y s t, fits x → fits y → enc x ++ s = enc y ++ t → x = y ∧ s = t)
    {xs ys : List β} (hxs : ∀ x ∈ xs, fits x) (hys : ∀ y ∈ ys, fits y)
    (h : xs.flatMap enc = ys.flatMap enc) : xs = ys := by
  induction xs generalizing ys with
  | nil =>
    cases ys with
    | nil => rfl
    | cons y ys => exact absurd h.symm (List.append_ne_nil_of_left_ne_nil (hne y) _)
  | cons x xs ih =>
    cases ys with
    | nil => exact absurd h (List.append_ne_nil_of_left_ne_nil (hne x) _)
    | cons y ys =>
      obtain ⟨rfl, hrest⟩ := hinj x y _ _ (hxs x (by simp)) (hys y (by simp)) h
      rw [ih (fun z hz => hxs z (by simp [hz])) (fun z hz => hys z (by simp [hz])) hrest]

end

section
variable {step : Bytes → (i : Nat) → Except ε (Item α i)}

/-- What no step fails with from the indices that the loop can reach, the loop does not fail
with either. -/
theorem parseAll_avoids_of {e : ε} {b : Bytes} {P : Nat → Prop} (n i : Nat) (hn : b.length-i ≤ n)
    (hi : P i) (h : ∀ i, P i → i < b.length → Avoids e (step b i))
    (hnext : ∀ i item, P i → step b i = .ok item → P item.next) :
    Avoids e (parseAll step b i) := by
  induction n generalizing i with
  | zero =>
    rw [parseAll_done step (by omega)]
    exact .ok []
  | succ n ih =>
    by_cases hlt : i < b.length
    · rw [parseAll_step step hlt]
      refine .bind (h i hi hlt) fun item hitem => ?_
      have hadvance := item.lt
      exact .bind (ih item.next (by omega) (hnext i item hi hitem)) fun items _ => .ok _
    · rw [parseAll_done step (by omega)]
      exact .ok []

theorem parseAll_avoids {e : ε} {b : Bytes} (i : Nat)
    (h : ∀ i, i < b.length → Avoids e (step b i)) : Avoids e (parseAll step b i) :=
  parseAll_avoids_of (P := fun _ => True) _ i le_rfl trivial (fun i _ hi => h i hi)
    fun _ _ _ _ => trivial

end

end DistributedEnclave.Repeat
