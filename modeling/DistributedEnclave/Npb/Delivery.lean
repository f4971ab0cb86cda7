import DistributedEnclave.Npb.SecureChannel

/-! One master and any number of workers exchanging protected messages over a network
under the control of an adversary: every receive may be handed any bytes. The system
refines ideal streams, so what is accepted is a prefix of what was sent. -/
namespace DistributedEnclave.Npb
open DistributedEnclave.Octets DistributedEnclave.Streams DistributedEnclave.Transition

abbrev End (W : Type) := W × Side

def peer {W : Type} (e : End W) : End W := (e.1, e.2.other)

/-- The process an end belongs to; all central ends are one process. -/
def process {W : Type} (e : End W) : Option W :=
  match e.2 with
  | .central => none
  | .worker => some e.1

/-- What enrollment leaves behind: the key every end sends under, different for different
ends, and one channel binding for each worker. -/
structure Setup (W : Type) where
  key : End W → Bytes
  keyInjective : Function.Injective key
  binding : W → Bytes
  encrypt : Bytes → Bytes → Bytes → Bytes → Bytes

structure Net (W : Type) where
  sendCtr : End W → Nat
  recvCtr : End W → Nat
  sent : End W → List (Int32 × Bytes)
  accepted : End W → List (Int32 × Bytes)
  log : List Record
  down : Option W → Bool

section
variable {W : Type} [DecidableEq W]

def Net.Initial (n : Net W) : Prop :=
  (∀ e, n.sendCtr e = 0 ∧ n.recvCtr e = 0 ∧ n.sent e = [] ∧ n.accepted e = []) ∧ n.log = []

def Net.halt (n : Net W) (p : Option W) : Net W :=
  { n with down := Function.update n.down p true }

def Net.record (n : Net W) (r : Record) : Net W := { n with log := n.log ++ [r] }

def Net.pushSent (n : Net W) (e : End W) (m : Int32 × Bytes) : Net W :=
  { n with sent := Function.update n.sent e (n.sent e ++ [m]) }

def Net.bumpSend (n : Net W) (e : End W) : Net W :=
  { n with sendCtr := Function.update n.sendCtr e ((n.sendCtr e+1)%2^64) }

variable (cfg : Setup W)

/-- A send; `delivered` tells whether `MPI_Send` succeeds, since its failure aborts before
the counter moves. -/
def Net.send (n : Net W) (e : End W) (size : Size) (tag : Int32) (data : Bytes)
    (delivered : Bool) : Net W :=
  match sendOf cfg.encrypt e.2 size (cfg.key e) (cfg.binding e.1) (n.sendCtr e) data tag with
  | .abort none => n.halt (process e)
  | .abort (some r) => (n.record r).halt (process e)
  | .plain _ => n
  | .sent r _ =>
    let n' := (n.record r).pushSent e (tag, data)
    if delivered then n'.bumpSend e else n'.halt (process e)

def Net.receive (n : Net W) (e : End W) (size : Size) (tag : Int32) (len : Nat)
    (incoming : Bytes) : RecvResult :=
  recvOf (openSealed n.log) e.2 size (cfg.key (peer e)) (cfg.binding e.1) (n.recvCtr e) len tag
    incoming

def Net.recv (n : Net W) (e : End W) (size : Size) (tag : Int32) (len : Nat)
    (incoming : Bytes) : Net W :=
  match n.receive cfg e size tag len incoming with
  | .abort => n.halt (process e)
  | .rejected => n
  | .plain _ => n
  | .accepted p next => { n with
      recvCtr := Function.update n.recvCtr e next
      accepted := Function.update n.accepted e (n.accepted e ++ [(tag, p)]) }

inductive Net.Step : Net W → Net W → Prop where
  | send (n : Net W) (e : End W) (size : Size) (tag : Int32) (data : Bytes) (delivered : Bool)
      (up : n.down (process e) = false) : Step n (n.send cfg e size tag data delivered)
  | recv (n : Net W) (e : End W) (size : Size) (tag : Int32) (len : Nat) (incoming : Bytes)
      (up : n.down (process e) = false) : Step n (n.recv cfg e size tag len incoming)
  | crash (n : Net W) (p : Option W) : Step n (n.halt p)

abbrev Net.Reached (n : Net W) : Prop := Reachable Net.Initial (Net.Step cfg) n

def Setup.sealing (e : End W) (i : Nat) (m : Int32 × Bytes) : Record :=
  recordOf cfg.encrypt e.2 (cfg.key e) (cfg.binding e.1) i m

/-- Where a record in the log comes from: a message that was sent, or the last encryption
of a process that aborted because the ciphertext had a wrong length. -/
def Net.Logged (n : Net W) (r : Record) : Prop :=
  ∃ e i m, r = cfg.sealing e i m ∧ m.2.length ≤ intMax ∧
    ((n.sent e)[i]? = some m ∨
      (n.down (process e) = true ∧ i < 2^64 ∧ r.cipher.length ≠ m.2.length+abytes))

structure Net.Inv (n : Net W) : Prop where
  logged : ∀ r ∈ n.log, n.Logged cfg r
  bounded : ∀ e, (n.sent e).length ≤ uint64Max
  counted : ∀ e, n.down (process e) = false → n.sendCtr e = (n.sent e).length
  received : ∀ e, n.recvCtr e = (n.accepted e).length
  nonces : NonceRespecting n.log

variable {cfg}

omit [DecidableEq W] in
theorem Net.Inv.initial {n : Net W} (h : n.Initial) : n.Inv cfg where
  logged := by rw [h.2]; simp
  bounded e := by simp [(h.1 e).2.2.1]
  counted e _ := by simp [(h.1 e).1, (h.1 e).2.2.1]
  received e := by simp [(h.1 e).2.1, (h.1 e).2.2.2]
  nonces := by rw [h.2]; exact List.Pairwise.nil

theorem Net.down_halt {n : Net W} {p q : Option W} (h : (n.halt p).down q = false) :
    n.down q = false ∧ q ≠ p := by
  by_cases hq : q = p
  · subst hq
    simp [Net.halt] at h
  · exact ⟨by simpa [Net.halt, hq] using h, hq⟩

theorem Net.Logged.halt {n : Net W} {r : Record} (h : n.Logged cfg r) (p : Option W) :
    (n.halt p).Logged cfg r := by
  obtain ⟨e, i, m, hr, hlen, hsrc⟩ := h
  refine ⟨e, i, m, hr, hlen, ?_⟩
  cases hsrc with
  | inl hsent => exact .inl hsent
  | inr hbad =>
    obtain ⟨hdown, hrest⟩ := hbad
    refine .inr ⟨?_, hrest⟩
    by_cases hp : process e = p
    · simp [Net.halt, hp]
    · simpa [Net.halt, hp] using hdown

theorem Net.Inv.halt {n : Net W} (h : n.Inv cfg) (p : Option W) : (n.halt p).Inv cfg where
  logged r hr := (h.logged r hr).halt p
  bounded := h.bounded
  counted e he := h.counted e (Net.down_halt he).1
  received := h.received
  nonces := h.nonces

omit [DecidableEq W] in
theorem sealing_key {e e' : End W} {i i' : Nat} {m m' : Int32 × Bytes}
    (h : (cfg.sealing e i m).key = (cfg.sealing e' i' m').key) : e = e' := cfg.keyInjective h

theorem getElem?_lt {α : Type} {l : List α} {i : Nat} {a : α} (h : l[i]? = some a) :
    i < l.length := by
  obtain ⟨hi, _⟩ := List.getElem?_eq_some_iff.mp h
  exact hi

omit [DecidableEq W] in
/-- The next encryption of a running end uses a nonce that is new for its key. -/
theorem Net.Inv.fresh {n : Net W} (h : n.Inv cfg) {e : End W} (up : n.down (process e) = false)
    (m : Int32 × Bytes) :
    ∀ r ∈ n.log, ¬(r.key = (cfg.sealing e (n.sendCtr e) m).key ∧
      r.nonce = (cfg.sealing e (n.sendCtr e) m).nonce) := by
  intro r hr hsame
  obtain ⟨e', i, m', rfl, _, hsrc⟩ := h.logged r hr
  obtain rfl := sealing_key hsame.1
  have hb := h.bounded e'
  have hc := h.counted e' up
  have hmax : uint64Max < 2^64 := by decide
  cases hsrc with
  | inl hsent =>
    have hi := getElem?_lt hsent
    have := makeNonce_inj (by omega) (by omega) hsame.2
    omega
  | inr hbad =>
    rw [up] at hbad
    cases hbad.1

/-- Recording a sent message: the log and the sent list grow together. -/
theorem Net.Inv.push {n : Net W} (h : n.Inv cfg) {e : End W} (up : n.down (process e) = false)
    {m : Int32 × Bytes} (hctr : n.sendCtr e ≠ uint64Max) (hlen : m.2.length ≤ intMax) :
    let n' := (n.record (cfg.sealing e (n.sendCtr e) m)).pushSent e m
    (∀ r ∈ n'.log, n'.Logged cfg r) ∧ (∀ e, (n'.sent e).length ≤ uint64Max) ∧
      NonceRespecting n'.log := by
  intro n'
  have hc := h.counted e up
  have hgrow : ∀ (e' : End W) (i : Nat) (a : Int32 × Bytes),
      (n.sent e')[i]? = some a → (n'.sent e')[i]? = some a := by
    intro e' i a ha
    by_cases he : e' = e
    · subst he
      have hi := getElem?_lt ha
      simpa [n', Net.pushSent, Net.record, List.getElem?_append_left hi] using ha
    · simpa [n', Net.pushSent, Net.record, he] using ha
  refine ⟨?_, ?_, h.nonces.concat (h.fresh up m)⟩
  · intro r hr
    cases List.mem_append.mp hr with
    | inl hold =>
      obtain ⟨e', i, m', hr, hlen', hsrc⟩ := h.logged r hold
      refine ⟨e', i, m', hr, hlen', ?_⟩
      cases hsrc with
      | inl hsent => exact .inl (hgrow e' i m' hsent)
      | inr hbad => exact .inr hbad
    | inr hnew =>
      obtain rfl := List.mem_singleton.mp hnew
      refine ⟨e, n.sendCtr e, m, rfl, hlen, .inl ?_⟩
      simp [n', Net.pushSent, Net.record, hc]
  · intro e'
    have hb := h.bounded e'
    by_cases he : e' = e
    · subst he
      simp [n', Net.pushSent, Net.record]
      omega
    · simpa [n', Net.pushSent, Net.record, he] using hb

/-- An encryption of the wrong length is logged and its process aborts. -/
theorem Net.Inv.wasted {n : Net W} (h : n.Inv cfg) {e : End W} (up : n.down (process e) = false)
    {m : Int32 × Bytes} (hlen : m.2.length ≤ intMax)
    (hcipher : (cfg.sealing e (n.sendCtr e) m).cipher.length ≠ m.2.length+abytes) :
    ((n.record (cfg.sealing e (n.sendCtr e) m)).halt (process e)).Inv cfg where
  logged r hr := by
    cases List.mem_append.mp hr with
    | inl hold => exact (h.logged r hold).halt (process e)
    | inr hnew =>
      obtain rfl := List.mem_singleton.mp hnew
      have hb := h.bounded e
      have hc := h.counted e up
      have hmax : uint64Max < 2^64 := by decide
      refine ⟨e, n.sendCtr e, m, rfl, hlen, .inr ⟨by simp [Net.halt], ?_, hcipher⟩⟩
      omega
  bounded := h.bounded
  counted e' he' := h.counted e' (Net.down_halt he').1
  received := h.received
  nonces := h.nonces.concat (h.fresh up m)

/-- A message whose transmission fails stays logged as sent; the counter of the aborted
process lags behind. -/
theorem Net.Inv.undelivered {n : Net W} (h : n.Inv cfg) {e : End W}
    (up : n.down (process e) = false) {m : Int32 × Bytes} (hctr : n.sendCtr e ≠ uint64Max)
    (hlen : m.2.length ≤ intMax) :
    (((n.record (cfg.sealing e (n.sendCtr e) m)).pushSent e m).halt (process e)).Inv cfg := by
  obtain ⟨hlogged, hbounded, hnonces⟩ := h.push up hctr hlen
  constructor
  · exact fun r hr => (hlogged r hr).halt (process e)
  · exact hbounded
  · intro e' he'
    obtain ⟨hup, hne⟩ := Net.down_halt he'
    have hee : e' ≠ e := fun heq => hne (congrArg process heq)
    simpa [Net.halt, Net.pushSent, Net.record, hee] using h.counted e' hup
  · exact h.received
  · exact hnonces

theorem Net.Inv.delivered {n : Net W} (h : n.Inv cfg) {e : End W}
    (up : n.down (process e) = false) {m : Int32 × Bytes} (hctr : n.sendCtr e ≠ uint64Max)
    (hlen : m.2.length ≤ intMax) :
    (((n.record (cfg.sealing e (n.sendCtr e) m)).pushSent e m).bumpSend e).Inv cfg := by
  obtain ⟨hlogged, hbounded, hnonces⟩ := h.push up hctr hlen
  have hc := h.counted e up
  have hb := hbounded e
  constructor
  · exact hlogged
  · exact hbounded
  · intro e' he'
    by_cases hee : e' = e
    · subst hee
      simp only [Net.pushSent, Net.record, Function.update_self, List.length_append,
        List.length_singleton] at hb
      have hmax : uint64Max < 2^64 := by decide
      have hmod : (n.sendCtr e'+1)%2^64 = n.sendCtr e'+1 := Nat.mod_eq_of_lt (by omega)
      simp only [Net.bumpSend, Net.pushSent, Net.record, Function.update_self,
        List.length_append, List.length_singleton]
      rw [hmod, hc]
    · simpa [Net.bumpSend, Net.pushSent, Net.record, hee] using h.counted e' he'
  · exact h.received
  · exact hnonces

theorem Net.Inv.send {n : Net W} (h : n.Inv cfg) {e : End W} (up : n.down (process e) = false)
    (size : Size) (tag : Int32) (data : Bytes) (delivered : Bool) :
    (n.send cfg e size tag data delivered).Inv cfg := by
  rw [Net.send]
  rcases sendOf_cases cfg.encrypt e.2 size (cfg.key e) (cfg.binding e.1) (n.sendCtr e) data tag
    with hres | ⟨hctr, hlen, ⟨hcipher, hres⟩ | ⟨_, hres⟩⟩
  · rw [hres]
    exact h.halt _
  · rw [hres]
    exact h.wasted up (m := (tag, data)) hlen hcipher
  · rw [hres]
    cases delivered with
    | false => exact h.undelivered up hctr hlen
    | true => exact h.delivered up hctr hlen

omit [DecidableEq W] in
/-- An accepted message is the next one of the peer's stream. -/
theorem Net.Inv.accepts {n : Net W} (h : n.Inv cfg) {e : End W} {size : Size} {tag : Int32}
    {len next : Nat} {incoming p : Bytes}
    (hres : n.receive cfg e size tag len incoming = .accepted p next) :
    (n.sent (peer e))[(n.accepted e).length]? = some (tag, p) ∧
      next = (n.accepted e).length+1 := by
  obtain ⟨hlen, hin, hparse, hp, hnext, hopen⟩ := recvOf_accepted hres
  obtain ⟨e', i, m, hr, hmlen, hsrc⟩ := h.logged _ (openSealed_eq_some hopen)
  simp only [Setup.sealing, recordOf, Sealed.mk.injEq] at hr
  obtain ⟨hkey, hnonce, haad, hplain, hcipher⟩ := hr
  obtain rfl := cfg.keyInjective hkey
  have hmax : uint64Max < 2^64 := by decide
  have hint : intMax < 2^64 := by decide
  obtain ⟨htag, hml⟩ := buildAad_inj (by omega) (by omega) haad
  have hmem : m = (tag, p) := Prod.ext htag.symm hplain.symm
  have hsent : (n.sent (peer e))[i]? = some m := by
    cases hsrc with
    | inl hsent => exact hsent
    | inr hbad =>
      -- a ciphertext of a wrong length does not fit the length the receiver insists on
      exfalso
      apply hbad.2.2
      simp only [List.length_drop, hin]
      omega
  have hi := getElem?_lt hsent
  have hb := h.bounded (peer e)
  have hctr : i = n.recvCtr e := by
    rw [hnonce, parseNonce_makeNonce (by omega)] at hparse
    exact Option.some.inj hparse
  rw [h.received e] at hctr hnext
  subst hctr
  exact ⟨hmem ▸ hsent, by rw [hnext, Nat.mod_eq_of_lt (by omega)]⟩

theorem Net.Inv.recv {n : Net W} (h : n.Inv cfg) (e : End W) (size : Size) (tag : Int32)
    (len : Nat) (incoming : Bytes) : (n.recv cfg e size tag len incoming).Inv cfg := by
  rw [Net.recv]
  cases hres : n.receive cfg e size tag len incoming with
  | abort => exact h.halt _
  | rejected => exact h
  | plain data => exact h
  | accepted p next =>
    obtain ⟨_, hnext⟩ := h.accepts hres
    refine ⟨h.logged, h.bounded, h.counted, ?_, h.nonces⟩
    intro e'
    by_cases hee : e' = e
    · subst hee
      simp [hnext]
    · simpa [hee] using h.received e'

theorem Net.Reached.inv {n : Net W} (h : n.Reached cfg) : n.Inv cfg := by
  refine Reachable.invariant (I := fun n => n.Inv cfg) ?_ ?_ h
  · exact fun n hn => Net.Inv.initial hn
  intro n n' hn hstep
  cases hstep with
  | send e size tag data delivered up => exact hn.send up size tag data delivered
  | recv e size tag len incoming up => exact hn.recv e size tag len incoming
  | crash p => exact hn.halt p

def Net.ideal (n : Net W) : Ideal (End W) (Int32 × Bytes) := ⟨n.sent, n.accepted⟩

theorem Net.Inv.refines {n n' : Net W} (h : n.Inv cfg) (hstep : Net.Step cfg n n') :
    n'.ideal = n.ideal ∨ Ideal.Step peer n.ideal n'.ideal := by
  cases hstep with
  | crash p => exact .inl rfl
  | send e size tag data delivered up =>
    rw [Net.send]
    rcases sendOf_cases cfg.encrypt e.2 size (cfg.key e) (cfg.binding e.1) (n.sendCtr e) data tag
      with hres | ⟨_, _, ⟨_, hres⟩ | ⟨_, hres⟩⟩
    · rw [hres]
      exact .inl rfl
    · rw [hres]
      exact .inl rfl
    · rw [hres]
      refine .inr ?_
      cases delivered <;> exact Ideal.Step.send n.ideal e (tag, data)
  | recv e size tag len incoming up =>
    rw [Net.recv]
    cases hres : n.receive cfg e size tag len incoming with
    | abort => exact .inl rfl
    | rejected => exact .inl rfl
    | plain data => exact .inl rfl
    | accepted p next =>
      exact .inr (Ideal.Step.accept n.ideal e (tag, p) (h.accepts hres).1)

/-- Every run of the network is a run of ideal streams. -/
theorem Net.Reached.ideal {n : Net W} (h : n.Reached cfg) :
    Reachable Ideal.Empty (Ideal.Step peer) n.ideal :=
  Reachable.refine Net.ideal (fun _ hn => Net.Reached.inv hn)
    (fun _ hn e => (hn.1 e).2.2) (fun _ _ hI hstep => hI.refines hstep) h

/-- The data plane uses every nonce once for each key, delivers exactly the sent sequence
from its beginning, and does not move on a message it rejects. -/
theorem data_plane_delivers (n : Net W) (h : n.Reached cfg) :
    NonceRespecting n.log ∧ (∀ e, n.accepted e <+: n.sent (peer e)) ∧
      ∀ e size tag len incoming, n.receive cfg e size tag len incoming = .rejected →
        (n.recv cfg e size tag len incoming).recvCtr = n.recvCtr := by
  refine ⟨h.inv.nonces, Ideal.reachable_ordered peer h.ideal, ?_⟩
  intro e size tag len incoming hres
  rw [Net.recv, hres]

end

def sampleSetup : Setup Unit where
  key e := match e.2 with
    | .central => [1]
    | .worker => [2]
  keyInjective := by
    intro e e' h
    obtain ⟨_, s⟩ := e
    obtain ⟨_, s'⟩ := e'
    cases s <;> cases s' <;> simp_all
  binding _ := List.replicate hashLen 7
  encrypt _ _ _ plaintext := plaintext ++ List.replicate abytes 0

def startNet : Net Unit := ⟨fun _ => 0, fun _ => 0, fun _ => [], fun _ => [], [], fun _ => false⟩

def sampleNet : Net Unit :=
  (startNet.send sampleSetup ((), .central) .small 130 [5] true).recv sampleSetup
    ((), .worker) .small 130 1 (makeNonce 0 ++ ([5] ++ List.replicate abytes 0))

theorem sampleNet_reached : sampleNet.Reached sampleSetup := by
  have h₀ : startNet.Initial := ⟨fun _ => ⟨rfl, rfl, rfl, rfl⟩, rfl⟩
  have h₁ := (Reachable.start h₀).next
    (@Net.Step.send Unit _ sampleSetup startNet ((), .central) .small 130 [5] true rfl)
  exact h₁.next (Net.Step.recv _ ((), .worker) .small 130 1 _ (by decide))

theorem sampleNet_delivers :
    sampleNet.accepted ((), .worker) = [(130, [5])] ∧ NonceRespecting sampleNet.log ∧
      (∀ e, sampleNet.accepted e <+: sampleNet.sent (peer e)) ∧
      ∀ e size tag len incoming,
        sampleNet.receive sampleSetup e size tag len incoming = .rejected →
        (sampleNet.recv sampleSetup e size tag len incoming).recvCtr = sampleNet.recvCtr :=
  ⟨by decide, data_plane_delivers sampleNet sampleNet_reached⟩

end DistributedEnclave.Npb
