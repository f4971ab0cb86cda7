import DistributedEnclave.Octets
import Mathlib.Data.Set.Basic

/-! Symbolic cryptography: terms over names, what an attacker derives from a set of terms,
and a closed set of terms that bounds it. Hashes, keyed hashes and signatures are free
constructors; a shared secret has a direction and belongs to two public keys. -/
namespace DistributedEnclave.Symbolic
open DistributedEnclave.Octets
universe u

inductive Direction where
  | toServer | toClient
  deriving DecidableEq

inductive Term (N : Type u) where
  | octets (b : Bytes)
  | name (n : N)
  | unit
  | pair (x y : Term N)
  | hash (len : Nat) (x : Term N)
  | mac (key x : Term N)
  | pub (sk : Term N)
  | shared (d : Direction) (client server : Term N)
  | sign (sk x : Term N)
  deriving DecidableEq

namespace Term
variable {N : Type u}

def tuple : List (Term N) → Term N
  | [] => .unit
  | x :: xs => .pair x (tuple xs)

theorem tuple_inj {xs ys : List (Term N)} : tuple xs = tuple ys ↔ xs = ys := by
  induction xs generalizing ys with
  | nil => cases ys <;> simp [tuple]
  | cons x xs ih =>
    cases ys with
    | nil => simp [tuple]
    | cons y ys => simp [tuple, ih]

end Term

section
variable {N : Type u} (isSecret : N → Prop)

inductive Derives (K : Set (Term N)) : Term N → Prop
  | known {t} : t ∈ K → Derives K t
  | octets (b) : Derives K (.octets b)
  | name {n} : ¬isSecret n → Derives K (.name n)
  | unit : Derives K .unit
  | pair {x y} : Derives K x → Derives K y → Derives K (.pair x y)
  | fst {x y} : Derives K (.pair x y) → Derives K x
  | snd {x y} : Derives K (.pair x y) → Derives K y
  | hash {x} (len) : Derives K x → Derives K (.hash len x)
  | mac {k x} : Derives K k → Derives K x → Derives K (.mac k x)
  | pub {sk} : Derives K sk → Derives K (.pub sk)
  | clientShared {sk server} (d) : Derives K sk → Derives K server →
      Derives K (.shared d (.pub sk) server)
  | serverShared {sk client} (d) : Derives K sk → Derives K client →
      Derives K (.shared d client (.pub sk))
  | sign {sk x} : Derives K sk → Derives K x → Derives K (.sign sk x)

/-- Terms that give nothing away: no secret name is open in them, no shared secret of two
secret keys, and a keyed hash or a signature under a key that is not harmless is one of
those `made` by its owner. -/
def Harmless (made : Set (Term N)) : Term N → Prop
  | .name n => ¬isSecret n
  | .pair x y => Harmless made x ∧ Harmless made y
  | .mac k x => Harmless made k ∨ .mac k x ∈ made
  | .shared _ client server =>
    ¬∃ m n, isSecret m ∧ isSecret n ∧ client = .pub (.name m) ∧ server = .pub (.name n)
  | .sign sk x => Harmless made sk ∨ .sign sk x ∈ made
  | _ => True

variable {isSecret} {made K : Set (Term N)}

/-- What the attacker derives from harmless terms is harmless. -/
theorem Derives.harmless (hK : ∀ t ∈ K, Harmless isSecret made t) {t : Term N}
    (h : Derives isSecret K t) : Harmless isSecret made t := by
  induction h with
  | known hmem => exact hK _ hmem
  | octets b => exact trivial
  | name hn => exact hn
  | unit => exact trivial
  | pair _ _ ihx ihy => exact ⟨ihx, ihy⟩
  | fst _ ih => exact ih.1
  | snd _ ih => exact ih.2
  | hash len _ _ => exact trivial
  | mac _ _ ihk _ => exact .inl ihk
  | pub _ _ => exact trivial
  | clientShared d _ _ ih _ =>
    intro hshared
    obtain ⟨m, n, hm, _, hclient, _⟩ := hshared
    obtain rfl := Term.pub.inj hclient
    exact ih hm
  | serverShared d _ _ ih _ =>
    intro hshared
    obtain ⟨m, n, _, hn, _, hserver⟩ := hshared
    obtain rfl := Term.pub.inj hserver
    exact ih hn
  | sign _ _ ihk _ => exact .inl ihk

/-- A signature under a secret name is derived only if it was made. -/
theorem Derives.sign_made (hK : ∀ t ∈ K, Harmless isSecret made t) {n : N} {x : Term N}
    (h : Derives isSecret K (.sign (.name n) x)) (hn : isSecret n) : .sign (.name n) x ∈ made :=
  (h.harmless hK).resolve_left fun hharmless => hharmless hn

def SharedKey (isSecret : N → Prop) (made : Set (Term N)) (k : Term N) : Prop :=
  ∃ d m n x, isSecret m ∧ isSecret n ∧
    k = .mac (.shared d (.pub (.name m)) (.pub (.name n))) x ∧ k ∉ made

/-- A keyed hash under such a key is derived only if it was made. -/
theorem Derives.mac_made (hK : ∀ t ∈ K, Harmless isSecret made t) {k x : Term N}
    (h : Derives isSecret K (.mac k x)) (hk : SharedKey isSecret made k) : .mac k x ∈ made := by
  obtain ⟨d, m, n, y, hm, hn, rfl, hnot⟩ := hk
  refine (h.harmless hK).resolve_left fun hharmless => ?_
  cases hharmless with
  | inl hshared => exact hshared ⟨m, n, hm, hn, rfl, rfl⟩
  | inr hmade => exact hnot hmade

end
end DistributedEnclave.Symbolic
