import DistributedEnclave.Exchanges
import DistributedEnclave.Npb.Transfer

/-! Master and worker at either end of a channel: each transfer function of the one against
its counterpart of the other. A transfer succeeds unless the sender has used up its nonces. -/
namespace DistributedEnclave.Npb
open DistributedEnclave.Programs

section
variable {L R L' R' X : Type}

def fabric (L R : Type) (work : (Party Unit L' R').Loop → Prog (Party Unit L' R')
    (Party Unit L' R').Result) : Fabric (Party Nat L R) (Party Unit L' R') where
  body := work
  fits := Envelope.fits
  blame := id

/-- The message is exactly what the receive is for, whichever side is the master's. At the
heads of the master's loops `I` holds. -/
def Matched (F : Fabric (Party Nat L R) (Party Unit L' R'))
    (I : (Party Nat L R).Loop → (Nat → Site (Party Unit L' R') X) → Prop) :
    Action (Party Nat L R) → (Nat → Site (Party Unit L' R') X) → Prop
  | .send p m, e => ∃ u q rest, (e p).next F = .recv u q rest ∧ m.Exact q
  | .recv p q, e => ∃ u m rest, (e p).next F = .send u m rest ∧ m.Exact q
  | .poll _ _, _ => True
  | .loop l, e => I l e

end

theorem Counters.mirror_send (c : Counters) :
    Function.update c.mirror () { c.mirror () with recvNonceCtr := (c.mirror ()).recvNonceCtr+1 } =
      Counters.mirror { c with sendNonceCtr := c.sendNonceCtr+1 } := by
  funext u
  rfl

theorem Counters.mirror_recv (c : Counters) :
    Function.update c.mirror () { c.mirror () with sendNonceCtr := (c.mirror ()).sendNonceCtr+1 } =
      Counters.mirror { c with recvNonceCtr := c.recvNonceCtr+1 } := by
  funext u
  rfl

section
variable {P L R A : Type} [DecidableEq P] {p : P} {len : Nat} {data : Payload} {tag : Int32}

theorem sendSealed_sends {c : P → Counters} (hctr : (c p).sendNonceCtr ≠ uint64Max)
    (k : Unit → Code (Party P L R) Counters A) :
    (sendSealed p data tag >>= k) c = .send p ⟨tag, .sealed (c p).sendNonceCtr data⟩ (k ()
      (Function.update c p { c p with sendNonceCtr := (c p).sendNonceCtr+1 })) := by
  change (sendSealed p data tag c).bind _ = _
  rw [sendSealed, if_neg hctr]
  rfl

theorem sendSealed_exhausted {c : P → Counters} (hctr : (c p).sendNonceCtr = uint64Max)
    (k : Unit → Code (Party P L R) Counters A) :
    (sendSealed p data tag >>= k) c = .abort .nonceExhausted := by
  change (sendSealed p data tag c).bind _ = _
  rw [sendSealed, if_pos hctr]
  rfl

/-- A script that begins with a send is about to send, or has no nonce left. -/
theorem workloadSendSmall_begins (hsmall : data.size ≤ secureMaxPlain) (encrypt : Bool)
    (k : Unit → Code (Party P L R) Counters A) (c : P → Counters) :
    (∃ m rest, (workloadSendSmall p data tag encrypt >>= k) c = .send p m rest ∧ m.tag = tag) ∨
      ((c p).sendNonceCtr = uint64Max ∧
        (workloadSendSmall p data tag encrypt >>= k) c = .abort .nonceExhausted) := by
  rw [workloadSendSmall]
  cases encrypt with
  | true =>
    rw [if_pos rfl, secureSendMsg, if_neg (Nat.not_lt.mpr hsmall)]
    by_cases hctr : (c p).sendNonceCtr = uint64Max
    · exact .inr ⟨hctr, sendSealed_exhausted hctr k⟩
    · exact .inl ⟨_, _, sendSealed_sends hctr k, rfl⟩
  | false =>
    simp only [Bool.false_eq_true, if_false, if_neg (Nat.not_lt.mpr hsmall)]
    exact .inl ⟨_, _, rfl, rfl⟩

def TakesSealed (p : P) (len : Nat) (tag : Int32) (data : Payload)
    (recv : Code (Party P L R) Counters (Option Payload)) : Prop :=
  ∀ (A : Type) (k : Option Payload → Code (Party P L R) Counters A) (c : P → Counters), ∃ rest,
    (recv >>= k) c = .recv p ⟨tag, len, true⟩ rest ∧
      rest ⟨tag, .sealed (c p).recvNonceCtr data⟩ = k (some data)
        (Function.update c p { c p with recvNonceCtr := (c p).recvNonceCtr+1 })

def TakesPlain (p : P) (len : Nat) (tag : Int32) (data : Payload)
    (recv : Code (Party P L R) Counters (Option Payload)) : Prop :=
  ∀ (A : Type) (k : Option Payload → Code (Party P L R) Counters A) (c : P → Counters), ∃ rest,
    (recv >>= k) c = .recv p ⟨tag, len, false⟩ rest ∧ rest ⟨tag, .plain data⟩ = k (some data) c

theorem recvSealed_takes (hlen : data.size = len) :
    TakesSealed p len tag data (recvSealed p len tag : Code (Party P L R) Counters _) := by
  intro A k c
  refine ⟨_, rfl, ?_⟩
  simp only [Wire.length, hlen, ne_eq, not_true_eq_false, if_false]
  rfl

omit [DecidableEq P] in
theorem recvPlain_takes (hlen : data.size = len) :
    TakesPlain p len tag data (recvPlain p len tag : Code (Party P L R) Counters _) := by
  intro A k c
  refine ⟨_, rfl, ?_⟩
  simp only [Wire.length, hlen, ne_eq, not_true_eq_false, if_false]
  rfl

end

def sealedCount (l : List Envelope) : Nat := l.countP (·.wire.isSealed)

theorem sealedCount_append (l l' : List Envelope) :
    sealedCount (l ++ l') = sealedCount l+sealedCount l' := List.countP_append

section Ledger
variable {L' R' X : Type}

structure Carried (s : Counters) (site : Site (Party Unit L' R') X) : Prop where
  sent : s.sendNonceCtr = sealedCount site.taken
  received : s.recvNonceCtr = sealedCount site.given

/-- The end that aborts has no nonce left: its channel, or for the master one of its channels,
has carried a message under each. -/
def RanOut : Option Nat → Reason → (Nat → Site (Party Unit L' R') X) → Prop
  | none, r, e => r = .nonceExhausted ∧ ∃ w, sealedCount (e w).taken = uint64Max
  | some w, r, e => r = .nonceExhausted ∧ sealedCount (e w).given = uint64Max

/-- What becomes of the relation `K` between counters and site when the channel of `p` carries
a message, and which aborts it allows. -/
structure Ledger (Out : Option Nat → Reason → (Nat → Site (Party Unit L' R') X) → Prop) (p : Nat)
    (K K' : Counters → Site (Party Unit L' R') X → Prop) : Prop where
  exhausted : ∀ s e, K s (e p) → s.sendNonceCtr = uint64Max → Out none .nonceExhausted e
  peerExhausted : ∀ s e, K s (e p) → s.recvNonceCtr = uint64Max →
    Out (some p) .nonceExhausted e
  sent : ∀ s site m x d, K s site → m.wire.isSealed = true →
    K' { s with sendNonceCtr := s.sendNonceCtr+1 } (site.take m x d)
  received : ∀ s site m x d, K s site → m.wire.isSealed = true →
    K' { s with recvNonceCtr := s.recvNonceCtr+1 } (site.give m x d)
  sentPlain : ∀ s site m x d, K s site → m.wire.isSealed = false → K' s (site.take m x d)
  receivedPlain : ∀ s site m x d, K s site → m.wire.isSealed = false → K' s (site.give m x d)

theorem carried_ledger (p : Nat) :
    Ledger (RanOut : Option Nat → Reason → (Nat → Site (Party Unit L' R') X) → Prop) p Carried
      Carried := by
  have hone : ∀ (l : List Envelope) {m : Envelope}, m.wire.isSealed = true →
      sealedCount (l ++ [m]) = sealedCount l+1 := by
    intro l m hm
    rw [sealedCount_append, sealedCount, sealedCount, List.countP_singleton, if_pos hm]
  have hnone : ∀ (l : List Envelope) {m : Envelope}, m.wire.isSealed = false →
      sealedCount (l ++ [m]) = sealedCount l := by
    intro l m hm
    rw [sealedCount_append, sealedCount, sealedCount, List.countP_singleton, hm]
    rfl
  constructor
  · intro s e h hctr
    exact ⟨rfl, p, h.sent.symm.trans hctr⟩
  · intro s e h hctr
    exact ⟨rfl, h.received.symm.trans hctr⟩
  · intro s site m x d h hm
    exact ⟨by rw [h.sent]; exact (hone _ hm).symm, h.received⟩
  · intro s site m x d h hm
    exact ⟨h.sent, by rw [h.received]; exact (hone _ hm).symm⟩
  · intro s site m x d h hm
    exact ⟨h.sent.trans (hnone _ hm).symm, h.received⟩
  · intro s site m x d h hm
    exact ⟨h.sent, h.received.trans (hnone _ hm).symm⟩

end Ledger

section
variable {L R L' R' A D : Type}
  {body : (Party Nat L R).Loop → Prog (Party Nat L R) (Party Nat L R).Result}
  {work : (Party Unit L' R').Loop → Prog (Party Unit L' R') (Party Unit L' R').Result}
  {I : (Party Nat L R).Loop → (Nat → Site (Party Unit L' R') (D × (Unit → Counters))) → Prop}
  {p len : Nat} {data : Payload} {tag : Int32} {encrypt : Bool}

section Transfers
variable
  {Out : Option Nat → Reason → (Nat → Site (Party Unit L' R') (D × (Unit → Counters))) → Prop}
  {K K' : Counters → Site (Party Unit L' R') (D × (Unit → Counters)) → Prop}

variable (body work I Out) in
abbrev Transfers (p : Nat) (K : Counters → Site (Party Unit L' R') (D × (Unit → Counters)) → Prop)
    (x : Code (Party Nat L R) Counters A) (before : Code (Party Unit L' R') Counters D)
    (good : A → Prop)
    (K' : Counters → Site (Party Unit L' R') (D × (Unit → Counters)) → Prop)
    (after : A → Code (Party Unit L' R') Counters D) : Prop :=
  Exchange (fabric L R work) body (Matched (fabric L R work) I) Out p
    (Stands (fabric L R work) K Counters.mirror before) x good
    (fun a => Stands (fabric L R work) K' Counters.mirror (after a))

theorem sendSealed_transfers (hK : Ledger Out p K K') (hlen : data.size = len)
    {recv : Code (Party Unit L' R') Counters (Option Payload)}
    (hrecv : TakesSealed () len tag data recv)
    (k : Option Payload → Code (Party Unit L' R') Counters D) :
    Transfers body work I Out p K (sendSealed p data tag) (recv >>= k) (fun _ => True) K'
      (fun _ => k (some data)) := by
  intro c e he
  obtain ⟨hledger, hrun⟩ := he
  obtain ⟨rest, hbegin, hrest⟩ := hrecv _ k (c p).mirror
  have hnext : (e p).next (fabric L R work) = .recv () ⟨tag, len, true⟩ rest := by
    rw [Site.Runs, hbegin] at hrun
    exact hrun
  rw [sendSealed]
  split
  · exact .abort (hK.exhausted _ _ hledger ‹_›)
  refine Ensures.rendezvous_send hnext rfl ⟨(), _, rest, hnext, rfl, rfl, hlen⟩ ?_
  intro d
  refine .ret ⟨trivial, exchanged (S := Party Nat L R) ⟨hK.sent _ _ _ _ _ hledger rfl, ?_⟩⟩
  exact Site.take_runs _ _ _ _ (hrest.trans (congrArg (k (some data)) (c p).mirror_send))

theorem sendPlain_transfers (hK : Ledger Out p K K') (hlen : data.size = len)
    {recv : Code (Party Unit L' R') Counters (Option Payload)}
    (hrecv : TakesPlain () len tag data recv)
    (k : Option Payload → Code (Party Unit L' R') Counters D) :
    Transfers body work I Out p K (sendPlain p data tag) (recv >>= k) (fun _ => True) K'
      (fun _ => k (some data)) := by
  intro c e he
  obtain ⟨hledger, hrun⟩ := he
  obtain ⟨rest, hbegin, hrest⟩ := hrecv _ k (c p).mirror
  have hnext : (e p).next (fabric L R work) = .recv () ⟨tag, len, false⟩ rest := by
    rw [Site.Runs, hbegin] at hrun
    exact hrun
  refine Ensures.rendezvous_send hnext rfl ⟨(), _, rest, hnext, rfl, rfl, hlen⟩ ?_
  intro d
  exact .ret ⟨trivial, exchanged_site (S := Party Nat L R)
    ⟨hK.sentPlain _ _ _ _ _ hledger rfl, Site.take_runs _ _ _ _ hrest⟩⟩

theorem recvSealed_transfers (hK : Ledger Out p K K') (hlen : data.size = len)
    {recv : Code (Party Nat L R) Counters (Option Payload)}
    (hrecv : TakesSealed p len tag data recv)
    (k : Unit → Code (Party Unit L' R') Counters D) :
    Transfers body work I Out p K recv (sendSealed () data tag >>= k) (· = some data) K'
      (fun _ => k ()) := by
  intro c e he
  obtain ⟨hledger, hrun⟩ := he
  obtain ⟨rest, hbegin, hrest⟩ := hrecv _ pure c
  rw [bind_pure] at hbegin
  rw [hbegin]
  by_cases hctr : ((c p).mirror ()).sendNonceCtr = uint64Max
  · rw [Site.Runs, sendSealed_exhausted hctr] at hrun
    exact Ensures.rendezvous_stopped (r := .nonceExhausted) rfl rfl hrun
      (hK.peerExhausted _ _ hledger hctr)
  rw [Site.Runs, sendSealed_sends hctr] at hrun
  have hnext : (e p).next (fabric L R work) =
      .send () ⟨tag, .sealed (c p).recvNonceCtr data⟩ (k () (Function.update (c p).mirror ()
        { (c p).mirror () with sendNonceCtr := ((c p).mirror ()).sendNonceCtr+1 })) := hrun
  refine Ensures.rendezvous_recv hnext rfl ⟨(), _, _, hnext, rfl, rfl, hlen⟩ ?_
  intro d
  rw [hrest]
  refine .ret ⟨rfl, exchanged (S := Party Nat L R) ⟨hK.received _ _ _ _ _ hledger rfl, ?_⟩⟩
  exact Site.give_runs _ _ _ _ (congrArg (k ()) (c p).mirror_recv)

theorem recvPlain_transfers (hK : Ledger Out p K K') (hlen : data.size = len)
    {recv : Code (Party Nat L R) Counters (Option Payload)}
    (hrecv : TakesPlain p len tag data recv)
    (k : Unit → Code (Party Unit L' R') Counters D) :
    Transfers body work I Out p K recv (sendPlain () data tag >>= k) (· = some data) K'
      (fun _ => k ()) := by
  intro c e he
  obtain ⟨hledger, hrun⟩ := he
  obtain ⟨rest, hbegin, hrest⟩ := hrecv _ pure c
  rw [bind_pure] at hbegin
  rw [hbegin]
  have hnext : (e p).next (fabric L R work) =
      .send () ⟨tag, .plain data⟩ (k () (c p).mirror) := hrun
  refine Ensures.rendezvous_recv hnext rfl ⟨(), _, _, hnext, rfl, rfl, hlen⟩ ?_
  intro d
  rw [hrest]
  exact .ret ⟨rfl, exchanged_site (S := Party Nat L R)
    ⟨hK.receivedPlain _ _ _ _ _ hledger rfl, Site.give_runs _ _ _ _ rfl⟩⟩

section Small
variable {bound : Nat}

/-- A message of bounded length between the functions that check the bound first. -/
theorem secureSend_transfers (hK : Ledger Out p K K') (hlen : data.size = len) (hsmall : len ≤ bound)
    {recv : Code (Party Unit L' R') Counters (Option Payload)}
    (hrecv : TakesSealed () len tag data recv)
    (k : Option Payload → Code (Party Unit L' R') Counters D) :
    Transfers body work I Out p K
      (if data.size > bound then mpiAbort .fatal else sendSealed p data tag)
      ((if len > bound then pure none else recv) >>= k) (fun _ => True) K'
      (fun _ => k (some data)) := by
  rw [if_neg (Nat.not_lt.mpr (hlen.trans_le hsmall)), if_neg (Nat.not_lt.mpr hsmall)]
  exact sendSealed_transfers hK hlen hrecv k

theorem secureRecv_transfers (hK : Ledger Out p K K') (hlen : data.size = len) (hsmall : len ≤ bound)
    {recv : Code (Party Nat L R) Counters (Option Payload)}
    (hrecv : TakesSealed p len tag data recv)
    (k : Unit → Code (Party Unit L' R') Counters D) :
    Transfers body work I Out p K (if len > bound then pure none else recv)
      ((if data.size > bound then mpiAbort .fatal else sendSealed () data tag) >>= k)
      (· = some data) K' (fun _ => k ()) := by
  rw [if_neg (Nat.not_lt.mpr (hlen.trans_le hsmall)), if_neg (Nat.not_lt.mpr hsmall)]
  exact recvSealed_transfers hK hlen hrecv k

theorem smallSend_transfers (hK : Ledger Out p K K') (hlen : data.size = len) (hsmall : len ≤ bound)
    {recv recv' : Code (Party Unit L' R') Counters (Option Payload)}
    (hrecv : TakesSealed () len tag data recv) (hplain : TakesPlain () len tag data recv')
    (k : Option Payload → Code (Party Unit L' R') Counters D) :
    Transfers body work I Out p K
      (if encrypt then if data.size > bound then mpiAbort .fatal else sendSealed p data tag
        else if data.size > bound then mpiAbort .fatal else sendPlain p data tag)
      ((if encrypt then if len > bound then pure none else recv
        else if len > bound then pure none else recv') >>= k) (fun _ => True) K'
      (fun _ => k (some data)) := by
  cases encrypt with
  | true => exact secureSend_transfers hK hlen hsmall hrecv k
  | false =>
    have hdata : ¬data.size > bound := Nat.not_lt.mpr (hlen.trans_le hsmall)
    simp only [Bool.false_eq_true, if_false, if_neg hdata, if_neg (Nat.not_lt.mpr hsmall)]
    exact sendPlain_transfers hK hlen hplain k

theorem smallRecv_transfers (hK : Ledger Out p K K') (hlen : data.size = len) (hsmall : len ≤ bound)
    {recv recv' : Code (Party Nat L R) Counters (Option Payload)}
    (hrecv : TakesSealed p len tag data recv) (hplain : TakesPlain p len tag data recv')
    (k : Unit → Code (Party Unit L' R') Counters D) :
    Transfers body work I Out p K
      (if encrypt then if len > bound then pure none else recv
        else if len > bound then pure none else recv')
      ((if encrypt then if data.size > bound then mpiAbort .fatal else sendSealed () data tag
        else if data.size > bound then mpiAbort .fatal else sendPlain () data tag) >>= k)
      (· = some data) K' (fun _ => k ()) := by
  cases encrypt with
  | true => exact secureRecv_transfers hK hlen hsmall hrecv k
  | false =>
    have hdata : ¬data.size > bound := Nat.not_lt.mpr (hlen.trans_le hsmall)
    simp only [Bool.false_eq_true, if_false, if_neg hdata, if_neg (Nat.not_lt.mpr hsmall)]
    exact recvPlain_transfers hK hlen hplain k

end Small

end Transfers

variable (body work I) in
abbrev Meets (p : Nat) (x : Code (Party Nat L R) Counters A)
    (before : Code (Party Unit L' R') Counters D) (good : A → Prop)
    (after : A → Code (Party Unit L' R') Counters D) : Prop :=
  Transfers body work I RanOut p Carried x before good Carried after

theorem secureSendMsg_meets (hlen : data.size = len) (hsmall : len ≤ secureMaxPlain)
    (k : Option Payload → Code (Party Unit L' R') Counters D) :
    Meets body work I p (secureSendMsg p data tag) (secureRecvMsg () len tag >>= k)
      (fun _ => True) (fun _ => k (some data)) :=
  secureSend_transfers (carried_ledger p) hlen hsmall (recvSealed_takes hlen) k

theorem secureRecvMsg_meets (hlen : data.size = len) (hsmall : len ≤ secureMaxPlain)
    (k : Unit → Code (Party Unit L' R') Counters D) :
    Meets body work I p (secureRecvMsg p len tag) (secureSendMsg () data tag >>= k)
      (· = some data) (fun _ => k ()) :=
  secureRecv_transfers (carried_ledger p) hlen hsmall (recvSealed_takes hlen) k

theorem workloadSendSmall_meets (hlen : data.size = len) (hsmall : len ≤ secureMaxPlain)
    (k : Option Payload → Code (Party Unit L' R') Counters D) :
    Meets body work I p (workloadSendSmall p data tag encrypt)
      (workloadRecvSmall () len tag encrypt >>= k) (fun _ => True) (fun _ => k (some data)) :=
  smallSend_transfers (carried_ledger p) hlen hsmall (recvSealed_takes hlen)
    (recvPlain_takes hlen) k

theorem workloadRecvSmall_meets (hlen : data.size = len) (hsmall : len ≤ secureMaxPlain)
    (k : Unit → Code (Party Unit L' R') Counters D) :
    Meets body work I p (workloadRecvSmall p len tag encrypt)
      (workloadSendSmall () data tag encrypt >>= k) (· = some data) (fun _ => k ()) :=
  smallRecv_transfers (carried_ledger p) hlen hsmall (recvSealed_takes hlen)
    (recvPlain_takes hlen) k

def BulkFits (encrypt : Bool) (len : Nat) : Prop :=
  len ≤ intMax ∧ (encrypt = true → len ≤ intMax-npub-abytes)

instance (encrypt : Bool) (len : Nat) : Decidable (BulkFits encrypt len) :=
  inferInstanceAs (Decidable (_ ∧ _))

theorem sendBulkMsg_meets (hlen : data.size = len) (hfits : BulkFits encrypt len)
    (k : Option Payload → Code (Party Unit L' R') Counters D) :
    Meets body work I p (sendBulkMsg p data tag encrypt) (recvBulkMsg () len tag encrypt >>= k)
      (fun _ => True) (fun _ => k (some data)) := by
  rw [sendBulkMsg, recvBulkMsg, hlen, if_neg (Nat.not_lt.mpr hfits.1),
    if_neg (Nat.not_lt.mpr hfits.1)]
  cases encrypt with
  | true =>
    have hsealed := Nat.not_lt.mpr (hfits.2 rfl)
    simp only [Bool.not_true, Bool.false_eq_true, if_false, gt_iff_lt, if_neg hsealed]
    exact sendSealed_transfers (carried_ledger p) hlen (recvSealed_takes hlen) k
  | false => exact sendPlain_transfers (carried_ledger p) hlen (recvPlain_takes hlen) k

theorem recvBulkMsg_meets (hlen : data.size = len) (hfits : BulkFits encrypt len)
    (k : Unit → Code (Party Unit L' R') Counters D) :
    Meets body work I p (recvBulkMsg p len tag encrypt) (sendBulkMsg () data tag encrypt >>= k)
      (· = some data) (fun _ => k ()) := by
  rw [sendBulkMsg, recvBulkMsg, hlen, if_neg (Nat.not_lt.mpr hfits.1),
    if_neg (Nat.not_lt.mpr hfits.1)]
  cases encrypt with
  | true =>
    have hsealed := Nat.not_lt.mpr (hfits.2 rfl)
    simp only [Bool.not_true, Bool.false_eq_true, if_false, gt_iff_lt, if_neg hsealed]
    exact recvSealed_transfers (carried_ledger p) hlen (recvSealed_takes hlen) k
  | false => exact recvPlain_transfers (carried_ledger p) hlen (recvPlain_takes hlen) k

end

end DistributedEnclave.Npb
