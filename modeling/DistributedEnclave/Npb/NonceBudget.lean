import Mathlib.Algebra.Order.BigOperators.Group.Finset
import DistributedEnclave.Budgets
import DistributedEnclave.Npb.Transfer

/-! What messages cost a process: each is one of those that a program may exchange, and under
encryption it takes a nonce, of which a channel has so many and no more. -/
namespace DistributedEnclave.Npb
open DistributedEnclave.Programs

section
variable {P L R : Type}

def recipient : Programs.Event (Party P L R) → Option P
  | .sent p _ => some p
  | .received _ _ _ => none

def recipients (t : List (Programs.Event (Party P L R))) : List P := t.filterMap recipient

@[simp] theorem recipients_sent (t : List (Programs.Event (Party P L R))) (p : P) (m : Envelope) :
    recipients (t ++ [.sent p m]) = recipients t ++ [p] := List.filterMap_append

@[simp] theorem recipients_received (t : List (Programs.Event (Party P L R))) (p : P)
    (q : Posted) (m : Envelope) : recipients (t ++ [.received p q m]) = recipients t := by
  simp [recipients, recipient]

variable (peers : Finset P)

structure Tally (c : P → Counters) (t : List (Programs.Event (Party P L R))) : Prop where
  paid : (recipients t).length ≤ ∑ p ∈ peers, (c p).sendNonceCtr
  limit : ∀ p ∈ peers, (c p).sendNonceCtr ≤ uint64Max

variable {peers}

theorem Tally.total {c : P → Counters} {t : List (Programs.Event (Party P L R))}
    (h : Tally peers c t) : (recipients t).length ≤ peers.card*uint64Max :=
  h.paid.trans (Finset.sum_le_card_nsmul peers _ _ h.limit)

variable (peers) in
structure Books (encrypt : Bool) (limit k : Nat) (c : P → Counters)
    (t : List (Programs.Event (Party P L R))) : Prop where
  spare : t.length+k ≤ limit
  paid : encrypt = true → Tally peers c t

theorem books_thrifty {encrypt : Bool} {limit : Nat} :
    Thrifty (listen (Party P L R)) (Books peers encrypt limit) :=
  fun _ _ _ _ hle h => ⟨(Nat.add_le_add_left hle _).trans h.spare, h.paid⟩

variable (peers) in
/-- For `n` steps the code stays within the limit, which leaves it `k` messages when it begins
and `m` when it ends. -/
abbrev Spends {A : Type} (encrypt : Bool) (limit : Nat)
    (body : (Party P L R).Loop → Prog (Party P L R) (Party P L R).Result) (n k : Nat) (m : A → Nat)
    (x : Code (Party P L R) Counters A) : Prop :=
  Affords (listen _) body (Spare limit) (Books peers encrypt limit) n k m x

variable {body : (Party P L R).Loop → Prog (Party P L R) (Party P L R).Result}
  {encrypt : Bool} {limit n k : Nat}

theorem mpiAbort_spends {A : Type} {m : A → Nat} {r : Reason} :
    Spends peers encrypt limit body n k m (mpiAbort (A := A) r) := fun _ _ _ => .abort

theorem mpiIprobe_spends {p : P} {tag : Int32} :
    Spends peers encrypt limit body n k (fun _ => k) (mpiIprobe p tag) := by
  intro c t h
  refine .poll trivial ?_
  intro found t' ht'
  exact .ret (ht' ▸ h)

variable [DecidableEq P] {p : P} {len : Nat} {data : Payload} {tag : Int32}

theorem Tally.send {c : P → Counters} {t : List (Programs.Event (Party P L R))}
    (h : Tally peers c t) (hp : p ∈ peers) (hctr : (c p).sendNonceCtr ≠ uint64Max) (m : Envelope) :
    Tally peers (Function.update c p { c p with sendNonceCtr := (c p).sendNonceCtr+1 })
      (t ++ [.sent p m]) where
  paid := by
    have hrest : ∑ q ∈ peers.erase p, (Function.update c p
        { c p with sendNonceCtr := (c p).sendNonceCtr+1 } q).sendNonceCtr =
        ∑ q ∈ peers.erase p, (c q).sendNonceCtr :=
      Finset.sum_congr rfl fun q hq => by rw [Function.update_of_ne (Finset.ne_of_mem_erase hq)]
    have hpaid := h.paid
    rw [← Finset.add_sum_erase _ _ hp] at hpaid
    rw [recipients_sent, List.length_append, ← Finset.add_sum_erase _ _ hp, hrest,
      Function.update_self, List.length_singleton]
    change (recipients t).length+1 ≤ (c p).sendNonceCtr+1+_
    omega
  limit := by
    intro q hq
    by_cases hqp : q = p
    · subst hqp
      rw [Function.update_self]
      exact Nat.succ_le_of_lt (lt_of_le_of_ne (h.limit q hq) hctr)
    · rw [Function.update_of_ne hqp]
      exact h.limit q hq

theorem Tally.recv {c : P → Counters} {t : List (Programs.Event (Party P L R))}
    (h : Tally peers c t) : Tally peers
      (Function.update c p { c p with recvNonceCtr := (c p).recvNonceCtr+1 }) t := by
  have hsame : ∀ q, (Function.update c p
      { c p with recvNonceCtr := (c p).recvNonceCtr+1 } q).sendNonceCtr = (c q).sendNonceCtr := by
    intro q
    by_cases hqp : q = p
    · subst hqp
      rw [Function.update_self]
    · rw [Function.update_of_ne hqp]
  constructor
  · simp only [hsame]
    exact h.paid
  · simp only [hsame]
    exact h.limit

omit [DecidableEq P] in
theorem Books.below {c : P → Counters} {t : List (Programs.Event (Party P L R))}
    (h : Books peers encrypt limit (k+1) c t) : t.length < limit := by
  have hspare := h.spare
  omega

omit [DecidableEq P] in
/-- One more message has been exchanged. -/
theorem Books.next {c : P → Counters} {t : List (Programs.Event (Party P L R))}
    (h : Books peers encrypt limit (k+1) c t) (event : Programs.Event (Party P L R)) :
    (t ++ [event]).length+k ≤ limit := by
  have hspare := h.spare
  rw [List.length_append, List.length_singleton]
  omega

theorem sendSealed_spends (hp : p ∈ peers) :
    Spends peers encrypt limit body n (k+1) (fun _ => k) (sendSealed p data tag) := by
  intro c t h
  rw [sendSealed]
  split
  · exact .abort
  · rename_i hctr
    refine .send h.below ?_
    intro t' ht'
    exact .ret (ht' ▸ ⟨h.next _, fun hencrypt => (h.paid hencrypt).send hp hctr _⟩)

omit [DecidableEq P] in
theorem sendPlain_spends (hplain : encrypt = false) :
    Spends peers encrypt limit body n (k+1) (fun _ => k) (sendPlain p data tag) := by
  intro c t h
  refine .send h.below ?_
  intro t' ht'
  exact .ret (ht' ▸ ⟨h.next _,
    fun hencrypt => absurd (hplain.symm.trans hencrypt) (by decide)⟩)

omit [DecidableEq P] in
/-- A message has been received. -/
theorem Books.received {c : P → Counters} {t : List (Programs.Event (Party P L R))}
    (h : Books peers encrypt limit (k+1) c t) (q : Posted) (m : Envelope) :
    Books peers encrypt limit k c (t ++ [.received p q m]) where
  spare := h.next _
  paid := by
    intro hencrypt
    have htally := h.paid hencrypt
    exact ⟨by rw [recipients_received]; exact htally.paid, htally.limit⟩

theorem recvSealed_spends :
    Spends peers encrypt limit body n (k+1) (fun _ => k) (recvSealed p len tag) := by
  intro c t h
  refine .recv h.below ?_
  intro m t' ht'
  have h' : Books peers encrypt limit k c t' := ht' ▸ h.received _ m
  split
  · exact .abort
  split
  · exact .ret h'
  · split
    · exact .ret h'
    · exact .ret ⟨h'.spare, fun hencrypt => (h'.paid hencrypt).recv⟩

omit [DecidableEq P] in
theorem recvPlain_spends :
    Spends peers encrypt limit body n (k+1) (fun _ => k) (recvPlain p len tag) := by
  intro c t h
  refine .recv h.below ?_
  intro m t' ht'
  have h' : Books peers encrypt limit k c t' := ht' ▸ h.received _ m
  split
  · exact .abort
  split
  · exact .ret h'
  · exact .ret h'

theorem secureSendMsg_spends (hp : p ∈ peers) :
    Spends peers encrypt limit body n (k+1) (fun _ => k) (secureSendMsg p data tag) := by
  rw [secureSendMsg]
  split
  · exact mpiAbort_spends
  · exact sendSealed_spends hp

theorem secureRecvMsg_spends :
    Spends peers encrypt limit body n (k+1) (fun _ => k) (secureRecvMsg p len tag) := by
  rw [secureRecvMsg]
  split
  · exact (Affords.pure none).within books_thrifty (Nat.le_succ k)
  · exact recvSealed_spends

theorem workloadSendSmall_spends (hp : p ∈ peers) :
    Spends peers encrypt limit body n (k+1) (fun _ => k)
      (workloadSendSmall p data tag encrypt) := by
  rw [workloadSendSmall]
  split
  · exact secureSendMsg_spends hp
  split
  · exact mpiAbort_spends
  · exact sendPlain_spends (by simpa using ‹¬encrypt = true›)

theorem workloadRecvSmall_spends :
    Spends peers encrypt limit body n (k+1) (fun _ => k)
      (workloadRecvSmall p len tag encrypt) := by
  rw [workloadRecvSmall]
  split
  · exact secureRecvMsg_spends
  split
  · exact (Affords.pure none).within books_thrifty (Nat.le_succ k)
  · exact recvPlain_spends

theorem sendBulkMsg_spends (hp : p ∈ peers) :
    Spends peers encrypt limit body n (k+1) (fun _ => k) (sendBulkMsg p data tag encrypt) := by
  rw [sendBulkMsg]
  split
  · exact mpiAbort_spends
  split
  · exact sendPlain_spends (by simpa using ‹(!encrypt) = true›)
  split
  · exact mpiAbort_spends
  · exact sendSealed_spends hp

theorem recvBulkMsg_spends :
    Spends peers encrypt limit body n (k+1) (fun _ => k) (recvBulkMsg p len tag encrypt) := by
  rw [recvBulkMsg]
  split
  · exact (Affords.pure none).within books_thrifty (Nat.le_succ k)
  split
  · exact recvPlain_spends
  split
  · exact (Affords.pure none).within books_thrifty (Nat.le_succ k)
  · exact recvSealed_spends

end

end DistributedEnclave.Npb
