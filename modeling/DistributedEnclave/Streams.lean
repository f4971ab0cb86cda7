import DistributedEnclave.Transition
import Mathlib.Logic.Function.Basic

/-! Ideal authenticated streams. An ideal AEAD opens exactly what a log of encryptions
holds; ideal streams deliver in order what the peer has sent, gapped ones may leave out
messages but never repeat or reorder them. -/
namespace DistributedEnclave.Streams
open DistributedEnclave.Transition
universe u

section Log
variable {K N A P C : Type u}

structure Sealed (K N A P C : Type u) where
  key : K
  nonce : N
  aad : A
  plain : P
  cipher : C

variable [DecidableEq K] [DecidableEq N] [DecidableEq A] [DecidableEq C]

/-- Decryption succeeds on the ciphertexts in the log, under the triple of their encryption. -/
def openSealed (log : List (Sealed K N A P C)) (k : K) (n : N) (a : A) (c : C) : Option P :=
  (log.find? fun r => r.key = k ∧ r.nonce = n ∧ r.aad = a ∧ r.cipher = c).map (·.plain)

theorem openSealed_eq_some {log : List (Sealed K N A P C)} {k : K} {n : N} {a : A} {c : C} {p : P}
    (h : openSealed log k n a c = some p) : ⟨k, n, a, p, c⟩ ∈ log := by
  rw [openSealed, Option.map_eq_some_iff] at h
  obtain ⟨r, hfind, rfl⟩ := h
  have hmem := List.mem_of_find?_eq_some hfind
  have hp := List.find?_some hfind
  simp only [decide_eq_true_eq] at hp
  obtain ⟨rfl, rfl, rfl, rfl⟩ := hp
  exact hmem

omit [DecidableEq K] [DecidableEq N] [DecidableEq A] [DecidableEq C]

def NonceRespecting (log : List (Sealed K N A P C)) : Prop :=
  log.Pairwise fun r r' => ¬(r.key = r'.key ∧ r.nonce = r'.nonce)

theorem NonceRespecting.concat {log : List (Sealed K N A P C)} (h : NonceRespecting log)
    {r : Sealed K N A P C} (hr : ∀ r' ∈ log, ¬(r'.key = r.key ∧ r'.nonce = r.nonce)) :
    NonceRespecting (log ++ [r]) := by
  rw [NonceRespecting, List.pairwise_append]
  refine ⟨h, List.pairwise_singleton .., ?_⟩
  intro r' hr' r'' hr''
  obtain rfl := List.mem_singleton.mp hr''
  exact hr r' hr'

end Log

section Ideal
variable {E M : Type u} [DecidableEq E] (peer : E → E)

structure Ideal (E M : Type u) where
  sent : E → List M
  accepted : E → List M

inductive Ideal.Step : Ideal E M → Ideal E M → Prop where
  | send (s : Ideal E M) (e : E) (m : M) :
    Step s { s with sent := Function.update s.sent e (s.sent e ++ [m]) }
  | accept (s : Ideal E M) (e : E) (m : M)
      (next : (s.sent (peer e))[(s.accepted e).length]? = some m) :
    Step s { s with accepted := Function.update s.accepted e (s.accepted e ++ [m]) }

def Ideal.Empty (s : Ideal E M) : Prop := ∀ e, s.sent e = [] ∧ s.accepted e = []

def Ideal.Ordered (s : Ideal E M) : Prop := ∀ e, s.accepted e <+: s.sent (peer e)

theorem concat_prefix_of_getElem? {l t : List M} {m : M} (h : l <+: t)
    (hm : t[l.length]? = some m) : l ++ [m] <+: t := by
  obtain ⟨r, rfl⟩ := h
  cases r with
  | nil => simp at hm
  | cons x r =>
    simp only [List.getElem?_append_right (Nat.le_refl _), Nat.sub_self, List.getElem?_cons_zero,
      Option.some.injEq] at hm
    subst hm
    exact ⟨r, by simp⟩

theorem Ideal.Step.ordered {s s' : Ideal E M} (h : s.Ordered peer) (hstep : Ideal.Step peer s s') :
    s'.Ordered peer := by
  intro e
  cases hstep with
  | send e' m =>
    by_cases he : peer e = e'
    · subst he
      simpa using (h e).trans (List.prefix_append ..)
    · simpa [Function.update_of_ne he] using h e
  | accept e' m next =>
    by_cases he : e = e'
    · subst he
      simpa using concat_prefix_of_getElem? (h e) next
    · simpa [Function.update_of_ne he] using h e

/-- Ideal streams lose nothing in the middle, duplicate nothing and keep the order. -/
theorem Ideal.reachable_ordered {s : Ideal E M} (h : Reachable Ideal.Empty (Ideal.Step peer) s) :
    s.Ordered peer := by
  refine Reachable.invariant (I := fun s => Ideal.Ordered peer s) ?_ ?_ h
  · intro s hs e
    rw [(hs e).2]
    exact List.nil_prefix
  · intro s s' hs hstep
    exact hstep.ordered peer hs

end Ideal

section Gapped
variable {M : Type u}

/-- A receiver that accepts any message whose number is not below the next one it expects:
what it has accepted, with the numbers, against what was sent. -/
structure Gapped (sent : List M) (accepted : List (Nat × M)) (next : Nat) : Prop where
  genuine : ∀ x ∈ accepted, sent[x.1]? = some x.2
  below : ∀ x ∈ accepted, x.1 < next
  increasing : accepted.Pairwise fun x y => x.1 < y.1

theorem Gapped.nil (sent : List M) (next : Nat) : Gapped sent [] next :=
  ⟨by simp, by simp, .nil⟩

theorem Gapped.send {sent : List M} {accepted : List (Nat × M)} {next : Nat}
    (h : Gapped sent accepted next) (m : M) : Gapped (sent ++ [m]) accepted next := by
  refine ⟨?_, h.below, h.increasing⟩
  intro x hx
  have hget := h.genuine x hx
  rwa [List.getElem?_append_left (List.getElem?_eq_some_iff.mp hget).1]

theorem Gapped.accept {sent : List M} {accepted : List (Nat × M)} {next : Nat}
    (h : Gapped sent accepted next) {c : Nat} {m : M} (hnext : next ≤ c)
    (hsent : sent[c]? = some m) : Gapped sent (accepted ++ [(c, m)]) (c+1) := by
  refine ⟨?_, ?_, ?_⟩
  · intro x hx
    cases List.mem_append.mp hx with
    | inl hx => exact h.genuine x hx
    | inr hx =>
      obtain rfl := List.mem_singleton.mp hx
      exact hsent
  · intro x hx
    cases List.mem_append.mp hx with
    | inl hx =>
      have := h.below x hx
      omega
    | inr hx =>
      obtain rfl := List.mem_singleton.mp hx
      exact Nat.lt_succ_self c
  · rw [List.pairwise_append]
    refine ⟨h.increasing, List.pairwise_singleton .., ?_⟩
    intro x hx y hy
    obtain rfl := List.mem_singleton.mp hy
    exact Nat.lt_of_lt_of_le (h.below x hx) hnext

theorem sublist_drop_of_increasing {sent : List M} {accepted : List (Nat × M)} {k : Nat}
    (hgenuine : ∀ x ∈ accepted, sent[x.1]? = some x.2)
    (hincreasing : accepted.Pairwise fun x y => x.1 < y.1) (hle : ∀ x ∈ accepted, k ≤ x.1) :
    List.Sublist (accepted.map (·.2)) (sent.drop k) := by
  induction accepted generalizing k with
  | nil => exact List.nil_sublist _
  | cons x accepted ih =>
    obtain ⟨hlater, hincreasing⟩ := List.pairwise_cons.mp hincreasing
    have hrest := ih (k := x.1+1) (fun y hy => hgenuine y (List.mem_cons_of_mem x hy)) hincreasing
      hlater
    have hhead := hgenuine x List.mem_cons_self
    have hdrop : sent.drop x.1 = x.2 :: sent.drop (x.1+1) := by
      obtain ⟨hlt, hget⟩ := List.getElem?_eq_some_iff.mp hhead
      rw [List.drop_eq_getElem_cons hlt, hget]
    have hcons : List.Sublist ((x::accepted).map (·.2)) (sent.drop x.1) := by
      rw [hdrop]
      exact hrest.cons_cons x.2
    exact hcons.trans (List.drop_sublist_drop_left sent (hle x List.mem_cons_self))

/-- A gapped stream repeats nothing and keeps the order. -/
theorem Gapped.sublist {sent : List M} {accepted : List (Nat × M)} {next : Nat}
    (h : Gapped sent accepted next) : List.Sublist (accepted.map (·.2)) sent :=
  sublist_drop_of_increasing (k := 0) h.genuine h.increasing fun _ _ => Nat.zero_le _

end Gapped
end DistributedEnclave.Streams
