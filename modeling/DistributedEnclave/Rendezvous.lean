import Mathlib.Data.List.Nodup
import Mathlib.Logic.Function.Basic
import DistributedEnclave.Programs

/-! Peers that are programs themselves and meet a coordinator in blocking synchronous sends,
and how a run of the two can be built up. -/
namespace DistributedEnclave.Programs
variable {Msg Want : Type} {S T : Signature Msg Want} {A B D : Type}

/-- A peer: what it has still to do, how many more probes will miss the message it is sending,
and the messages that it has received and sent. -/
structure Site (T : Signature Msg Want) (D : Type) where
  prog : Prog T D
  delay : Nat
  taken : List Msg := []
  given : List Msg := []

def Site.take (s : Site T D) (m : Msg) (x : Prog T D) (delay : Nat) : Site T D :=
  ⟨x, delay, s.taken ++ [m], s.given⟩

def Site.give (s : Site T D) (m : Msg) (x : Prog T D) (delay : Nat) : Site T D :=
  ⟨x, delay, s.taken, s.given ++ [m]⟩

def Site.miss (s : Site T D) (delay : Nat) : Site T D := { s with delay := delay }

/-- What the peers have in common: their loops, which message a receive takes, and what it
means for the job that one of them aborts. -/
structure Fabric (S T : Signature Msg Want) where
  body : T.Loop → Prog T T.Result
  fits : Msg → Want → Prop
  blame : T.Reason → S.Reason

section
variable (F : Fabric S T)

def Site.next (s : Site T D) : Prog T D := s.prog.settle F.body

def Site.Runs (s : Site T D) (x : Prog T D) : Prop := s.next F = x.settle F.body

theorem Site.take_runs (s : Site T D) (m : Msg) {x y : Prog T D} (d : Nat) (h : x = y) :
    (s.take m x d).Runs F y := congrArg (Prog.settle F.body) h

theorem Site.give_runs (s : Site T D) (m : Msg) {x y : Prog T D} (d : Nat) (h : x = y) :
    (s.give m x d).Runs F y := congrArg (Prog.settle F.body) h

def Site.Offers (s : Site T D) (q : Want) : Prop :=
  ∃ u m rest, s.next F = .send u m rest ∧ F.fits m q

variable [DecidableEq S.Peer]

/-- Blocking synchronous sends. A probe finds the message of a peer after finitely many
misses, whose number is fixed when the peer turns to its next action. -/
def rendezvous (D : Type) : Env S where
  State := S.Peer → Site T D
  send e p m e' := ∃ u q rest d, (e p).next F = .recv u q rest ∧ F.fits m q ∧
    e' = Function.update e p ((e p).take m (rest m) d)
  recv e p q m e' := ∃ u rest d, (e p).next F = .send u m rest ∧ F.fits m q ∧
    e' = Function.update e p ((e p).give m rest d)
  poll e p q b e' := (∀ r, (e p).next F ≠ .abort r) ∧
    (((e p).Offers F q ∧ (e p).delay = 0 ∧ b = true ∧ e' = e) ∨
    ((e p).Offers F q ∧
      (∃ d, (e p).delay = d+1 ∧ e' = Function.update e p ((e p).miss d)) ∧ b = false) ∨
    (¬(e p).Offers F q ∧ b = false ∧ e' = e))
  stopped e p r := ∃ r', (e p).next F = .abort r' ∧ r = F.blame r'
  stopped_send := by
    intro e p r ⟨r', hr, _⟩ m e' ⟨u, q, rest, d, hnext, _⟩
    rw [hr] at hnext
    cases hnext
  stopped_recv := by
    intro e p r ⟨r', hr, _⟩ q m e' ⟨u, rest, d, hnext, _⟩
    rw [hr] at hnext
    cases hnext
  stopped_poll := by
    intro e p r ⟨r', hr, _⟩ q b e' h
    exact h.1 r' hr

end

section
variable [DecidableEq S.Peer] {F : Fabric S T} {body : S.Loop → Prog S S.Result}

theorem Site.update_runs {e : S.Peer → Site T D} {p : S.Peer} {s : Site T D} {x : Prog T D}
    (h : s.Runs F x) : (Function.update e p s p).Runs F x := by
  rwa [Function.update_self]

section Rules
variable {J : Action S → (S.Peer → Site T D) → Prop}
  {R : Option S.Peer → S.Reason → (S.Peer → Site T D) → Prop}
  {Q : A → (S.Peer → Site T D) → Prop}

theorem Ensures.rendezvous_send {p : S.Peer} {m : Msg} {rest : Prog S A}
    {e : S.Peer → Site T D} {u : T.Peer} {q : Want} {next : Msg → Prog T D}
    (hnext : (e p).next F = .recv u q next) (hfits : F.fits m q) (hJ : J (.send p m) e)
    (h : ∀ d, Ensures (rendezvous F D) body J R Q rest
      (Function.update e p ((e p).take m (next m) d))) :
    Ensures (rendezvous F D) body J R Q (.send p m rest) e := by
  refine .send hJ ⟨_, u, q, next, 0, hnext, hfits, rfl⟩ ?_
  intro e' he
  obtain ⟨u', q', next', d, hnext', _, rfl⟩ := he
  rw [hnext] at hnext'
  cases hnext'
  exact h d

theorem Ensures.rendezvous_recv {p : S.Peer} {q : Want} {rest : Msg → Prog S A}
    {e : S.Peer → Site T D} {u : T.Peer} {m : Msg} {next : Prog T D}
    (hnext : (e p).next F = .send u m next) (hfits : F.fits m q) (hJ : J (.recv p q) e)
    (h : ∀ d, Ensures (rendezvous F D) body J R Q (rest m)
      (Function.update e p ((e p).give m next d))) :
    Ensures (rendezvous F D) body J R Q (.recv p q rest) e := by
  refine .recv hJ ⟨m, _, u, next, 0, hnext, hfits, rfl⟩ ?_
  intro m' e' he
  obtain ⟨u', next', d, hnext', _, rfl⟩ := he
  rw [hnext] at hnext'
  cases hnext'
  exact h d

/-- A probe of a peer that is sending: it hits, or it misses and the delay goes down. -/
theorem Ensures.rendezvous_poll {p : S.Peer} {q : Want} {rest : Bool → Prog S A}
    {e : S.Peer → Site T D} (hlive : ∀ r, (e p).next F ≠ .abort r) (hoffer : (e p).Offers F q)
    (hJ : J (.poll p q) e)
    (hhit : Ensures (rendezvous F D) body J R Q (rest true) e)
    (hmiss : ∀ d, (e p).delay = d+1 →
      Ensures (rendezvous F D) body J R Q (rest false) (Function.update e p ((e p).miss d))) :
    Ensures (rendezvous F D) body J R Q (.poll p q rest) e := by
  refine .poll hJ ?_ ?_
  · cases hd : (e p).delay with
    | zero => exact ⟨true, e, hlive, .inl ⟨hoffer, hd, rfl, rfl⟩⟩
    | succ d => exact ⟨false, _, hlive, .inr (.inl ⟨hoffer, ⟨d, hd, rfl⟩, rfl⟩)⟩
  intro b e' he
  obtain ⟨_, ⟨_, _, rfl, rfl⟩ | ⟨_, ⟨d, hd, rfl⟩, rfl⟩ | ⟨hno, _, _⟩⟩ := he
  · exact hhit
  · exact hmiss d hd
  · exact absurd hoffer hno

/-- A peer that has aborted stops the coordinator that turns to it. -/
theorem Ensures.rendezvous_stopped {x : Prog S A} {a : Action S} {p : S.Peer}
    {e : S.Peer → Site T D} {r : T.Reason} (ha : x.action = some a) (hp : a.peer = some p)
    (hnext : (e p).next F = .abort r) (hr : R (some p) (F.blame r) e) :
    Ensures (rendezvous F D) body J R Q x e :=
  .stopped ha hp ⟨r, hnext, rfl⟩ hr

end Rules

section Traffic

structure Grown (e e' : S.Peer → Site T D) (n : Nat) : Prop where
  taken : ∀ p, ∃ l, (e' p).taken = (e p).taken ++ l ∧ l.length ≤ n
  given : ∀ p, ∃ l, (e' p).given = (e p).given ++ l ∧ l.length ≤ n

omit [DecidableEq S.Peer] in
theorem Grown.refl (e : S.Peer → Site T D) : Grown e e 0 where
  taken p := ⟨[], by rw [List.append_nil], Nat.le_refl 0⟩
  given p := ⟨[], by rw [List.append_nil], Nat.le_refl 0⟩

omit [DecidableEq S.Peer] in
theorem Grown.within {e e' : S.Peer → Site T D} {n m : Nat} (h : Grown e e' n) (hle : n ≤ m) :
    Grown e e' m where
  taken p := by
    obtain ⟨l, hl, hn⟩ := h.taken p
    exact ⟨l, hl, Nat.le_trans hn hle⟩
  given p := by
    obtain ⟨l, hl, hn⟩ := h.given p
    exact ⟨l, hl, Nat.le_trans hn hle⟩

omit [DecidableEq S.Peer] in
theorem Grown.trans {e e' e'' : S.Peer → Site T D} {n m : Nat} (h : Grown e e' n)
    (h' : Grown e' e'' m) : Grown e e'' (n+m) where
  taken p := by
    obtain ⟨l, hl, hn⟩ := h.taken p
    obtain ⟨l', hl', hm⟩ := h'.taken p
    refine ⟨l ++ l', by rw [hl', hl, List.append_assoc], ?_⟩
    rw [List.length_append]
    exact Nat.add_le_add hn hm
  given p := by
    obtain ⟨l, hl, hn⟩ := h.given p
    obtain ⟨l', hl', hm⟩ := h'.given p
    refine ⟨l ++ l', by rw [hl', hl, List.append_assoc], ?_⟩
    rw [List.length_append]
    exact Nat.add_le_add hn hm

/-- The site of one peer changes. -/
theorem Grown.update (e : S.Peer → Site T D) {p : S.Peer} {site : Site T D} {n : Nat}
    (htaken : ∃ l, site.taken = (e p).taken ++ l ∧ l.length ≤ n)
    (hgiven : ∃ l, site.given = (e p).given ++ l ∧ l.length ≤ n) :
    Grown e (Function.update e p site) n := by
  constructor
  · intro v
    by_cases hv : v = p
    · subst hv
      rwa [Function.update_self]
    · rw [Function.update_of_ne hv]
      exact ⟨[], by rw [List.append_nil], Nat.zero_le n⟩
  · intro v
    by_cases hv : v = p
    · subst hv
      rwa [Function.update_self]
    · rw [Function.update_of_ne hv]
      exact ⟨[], by rw [List.append_nil], Nat.zero_le n⟩

theorem Step.grown {s s' : Prog S A × (rendezvous F D).traced.State}
    (h : Step (rendezvous F D).traced body s s') :
    ∃ n, Grown s.2.1 s'.2.1 n ∧ s'.2.2.length = s.2.2.length+n := by
  cases h with
  | send h =>
    obtain ⟨⟨_, _, _, _, _, _, he⟩, ht⟩ := h
    refine ⟨1, ?_, ?_⟩
    · rw [he]
      exact Grown.update _ ⟨[_], rfl, Nat.le_refl 1⟩ ⟨[], (List.append_nil _).symm, Nat.zero_le 1⟩
    · rw [ht, List.length_append, List.length_singleton]
  | recv h =>
    obtain ⟨⟨_, _, _, _, _, he⟩, ht⟩ := h
    refine ⟨1, ?_, ?_⟩
    · rw [he]
      exact Grown.update _ ⟨[], (List.append_nil _).symm, Nat.zero_le 1⟩ ⟨[_], rfl, Nat.le_refl 1⟩
    · rw [ht, List.length_append, List.length_singleton]
  | poll h =>
    obtain ⟨⟨_, hpoll⟩, ht⟩ := h
    refine ⟨0, ?_, by rw [ht]; rfl⟩
    obtain ⟨_, _, _, he⟩ | ⟨_, ⟨d, _, he⟩, _⟩ | ⟨_, _, he⟩ := hpoll
    · rw [he]
      exact Grown.refl _
    · rw [he]
      exact Grown.update _ ⟨[], (List.append_nil _).symm, Nat.le_refl 0⟩
        ⟨[], (List.append_nil _).symm, Nat.le_refl 0⟩
    · rw [he]
      exact Grown.refl _
  | loop => exact ⟨0, Grown.refl _, rfl⟩

/-- A channel carries no more messages than the coordinator exchanges. -/
theorem Steps.grown {s s' : Prog S A × (rendezvous F D).traced.State}
    (h : Steps (rendezvous F D).traced body s s') :
    ∃ n, Grown s.2.1 s'.2.1 n ∧ s'.2.2.length = s.2.2.length+n := by
  induction h with
  | refl => exact ⟨0, Grown.refl _, rfl⟩
  | tail _ hlast ih =>
    obtain ⟨n, hn, hlen⟩ := ih
    obtain ⟨m, hm, hlen'⟩ := hlast.grown
    exact ⟨n+m, hn.trans hm, by rw [hlen', hlen, Nat.add_assoc]⟩

end Traffic

section Histories

structure Site.Alike (s s' : Site T D) : Prop where
  prog : s'.prog = s.prog
  delay : s'.delay = s.delay

omit [DecidableEq S.Peer] in
theorem Site.Alike.next {s s' : Site T D} (h : s.Alike s') : s'.next F = s.next F :=
  congrArg (Prog.settle F.body) h.prog

theorem alike_update {e e₁ : S.Peer → Site T D} (he : ∀ p, (e p).Alike (e₁ p)) (p : S.Peer)
    {s s₁ : Site T D} (hs : s.Alike s₁) (v : S.Peer) :
    (Function.update e p s v).Alike (Function.update e₁ p s₁ v) := by
  by_cases hv : v = p
  · subst hv
    rwa [Function.update_self, Function.update_self]
  · rw [Function.update_of_ne hv, Function.update_of_ne hv]
    exact he v

/-- No step depends on the histories. -/
theorem Step.alike {s s' : Prog S A × (rendezvous F D).State}
    (h : Step (rendezvous F D) body s s') {e : S.Peer → Site T D}
    (he : ∀ p, (s.2 p).Alike (e p)) :
    ∃ e', Step (rendezvous F D) body (s.1, e) (s'.1, e') ∧ ∀ p, (s'.2 p).Alike (e' p) := by
  cases h with
  | send h =>
    rename_i p m rest e₀ e₀'
    obtain ⟨u, q, next, d, hnext, hfits, rfl⟩ := h
    refine ⟨_, .send ⟨u, q, next, d, ((he p).next).trans hnext, hfits, rfl⟩, ?_⟩
    exact alike_update he p ⟨rfl, rfl⟩
  | recv h =>
    rename_i p q rest m e₀ e₀'
    obtain ⟨u, next, d, hnext, hfits, rfl⟩ := h
    refine ⟨_, .recv ⟨u, next, d, ((he p).next).trans hnext, hfits, rfl⟩, ?_⟩
    exact alike_update he p ⟨rfl, rfl⟩
  | poll h =>
    rename_i p q rest b e₀ e₀'
    obtain ⟨hlive, hpoll⟩ := h
    have hlive' : ∀ r, (e p).next F ≠ .abort r := fun r hr => hlive r ((he p).next.symm.trans hr)
    have hoffer : (e p).Offers F q ↔ (e₀ p).Offers F q := by
      simp only [Site.Offers, (he p).next]
    obtain ⟨ho, hd, rfl, rfl⟩ | ⟨ho, ⟨d, hd, rfl⟩, rfl⟩ | ⟨ho, rfl, rfl⟩ := hpoll
    · exact ⟨e, .poll ⟨hlive', .inl ⟨hoffer.mpr ho, (he p).delay.trans hd, rfl, rfl⟩⟩, he⟩
    · refine ⟨_, .poll ⟨hlive', .inr (.inl ⟨hoffer.mpr ho, ⟨d, (he p).delay.trans hd, rfl⟩,
        rfl⟩)⟩, ?_⟩
      exact alike_update he p ⟨(he p).prog, rfl⟩
    · exact ⟨e, .poll ⟨hlive', .inr (.inr ⟨fun h => ho (hoffer.mp h), rfl, rfl⟩)⟩, he⟩
  | loop => exact ⟨e, .loop, he⟩

theorem Steps.alike {s s' : Prog S A × (rendezvous F D).State}
    (h : Steps (rendezvous F D) body s s') {e : S.Peer → Site T D}
    (he : ∀ p, (s.2 p).Alike (e p)) :
    ∃ e', Steps (rendezvous F D) body (s.1, e) (s'.1, e') ∧ ∀ p, (s'.2 p).Alike (e' p) := by
  induction h with
  | refl => exact ⟨e, .refl, he⟩
  | tail _ hlast ih =>
    obtain ⟨e₁, hsteps, he₁⟩ := ih
    obtain ⟨e₂, hstep, he₂⟩ := hlast.alike he₁
    exact ⟨e₂, hsteps.tail hstep, he₂⟩

end Histories

section Leads
variable {σ τ : Type}

variable (F) (body) (mirror : σ → τ)

def Leads (p : S.Peer) (P P' : σ → Prop) (x : Code S σ Unit)
    (before after : StateT τ (Prog T) D) : Prop :=
  ∀ c e, P (c p) → (e p).Runs F (before (mirror (c p))) → ∃ c' e',
    Steps (rendezvous F (D × τ)) body (x c, e) (.ret ((), c'), e') ∧ P' (c' p) ∧
      (e' p).Runs F (after (mirror (c' p))) ∧ ∀ v, v ≠ p → c' v = c v ∧ e' v = e v

def Fails (p : S.Peer) (P : σ → Prop) (r : S.Reason) (x : Code S σ A)
    (before : StateT τ (Prog T) D) : Prop :=
  ∀ c e, P (c p) → (e p).Runs F (before (mirror (c p))) → ∃ e',
    Steps (rendezvous F (D × τ)) body (x c, e) (.abort r, e')

variable {F body mirror}

/-- A peer that stands at a loop may be taken to stand in it. -/
theorem Leads.of_settle {p : S.Peer} {P P' : σ → Prop} {x : Code S σ Unit}
    {before before' after : StateT τ (Prog T) D}
    (h : ∀ t, (before t).settle F.body = (before' t).settle F.body)
    (hx : Leads F body mirror p P P' x before' after) : Leads F body mirror p P P' x before after :=
  fun c e hc he => hx c e hc (he.trans (h _))

theorem Leads.bind {p : S.Peer} {P P' P'' : σ → Prop} {x : Code S σ Unit}
    {f : Unit → Code S σ Unit} {before mid after : StateT τ (Prog T) D}
    (hx : Leads F body mirror p P P' x before mid)
    (hf : Leads F body mirror p P' P'' (f ()) mid after) :
    Leads F body mirror p P P'' (x >>= f) before after := by
  intro c e hc he
  obtain ⟨c₁, e₁, hfirst, hc₁, he₁, hframe₁⟩ := hx c e hc he
  obtain ⟨c₂, e₂, hsecond, hc₂, he₂, hframe₂⟩ := hf c₁ e₁ hc₁ he₁
  refine ⟨c₂, e₂, (hfirst.bind _).trans hsecond, hc₂, he₂, fun v hv => ?_⟩
  rw [(hframe₂ v hv).1, (hframe₂ v hv).2]
  exact hframe₁ v hv

theorem Leads.fails {p : S.Peer} {P P' : σ → Prop} {r : S.Reason} {x : Code S σ Unit}
    {f : Unit → Code S σ A} {before mid : StateT τ (Prog T) D}
    (hx : Leads F body mirror p P P' x before mid)
    (hf : Fails F body mirror p P' r (f ()) mid) :
    Fails F body mirror p P r (x >>= f) before := by
  intro c e hc he
  obtain ⟨c₁, e₁, hfirst, hc₁, he₁, _⟩ := hx c e hc he
  obtain ⟨e₂, hsecond⟩ := hf c₁ e₁ hc₁ he₁
  exact ⟨e₂, (hfirst.bind _).trans hsecond⟩

theorem Fails.bind {p : S.Peer} {P : σ → Prop} {r : S.Reason} {x : Code S σ A}
    {f : A → Code S σ B} {before : StateT τ (Prog T) D}
    (hx : Fails F body mirror p P r x before) : Fails F body mirror p P r (x >>= f) before := by
  intro c e hc he
  obtain ⟨e', hsteps⟩ := hx c e hc he
  exact ⟨e', hsteps.bind _⟩

omit [DecidableEq S.Peer] in
/-- The peers other than the one a script has been run for are as they were. -/
theorem ready_of_frame {p : S.Peer} {ps : List S.Peer} {P : σ → Prop}
    {before : S.Peer → StateT τ (Prog T) D} {c c' : S.Peer → σ} {e e' : S.Peer → Site T (D × τ)}
    (hp : p ∉ ps) (hframe : ∀ v, v ≠ p → c' v = c v ∧ e' v = e v)
    (h : ∀ v ∈ p :: ps, P (c v) ∧ (e v).Runs F (before v (mirror (c v)))) :
    ∀ v ∈ ps, P (c' v) ∧ (e' v).Runs F (before v (mirror (c' v))) := by
  intro v hv
  have hne : v ≠ p := fun heq => hp (heq ▸ hv)
  rw [(hframe v hne).1, (hframe v hne).2]
  exact h v (List.mem_cons_of_mem p hv)

/-- Some run of a loop over the peers is through with all of them. -/
theorem Leads.forEach {ps : List S.Peer} (hps : ps.Nodup) {P P' : σ → Prop}
    {f : S.Peer → Code S σ Unit} {before after : S.Peer → StateT τ (Prog T) D}
    (h : ∀ p ∈ ps, Leads F body mirror p P P' (f p) (before p) (after p)) :
    ∀ c e, (∀ p ∈ ps, P (c p) ∧ (e p).Runs F (before p (mirror (c p)))) → ∃ c' e',
      Steps (rendezvous F (D × τ)) body (Programs.forEach f ps c, e) (.ret ((), c'), e') := by
  induction ps with
  | nil => exact fun c e _ => ⟨c, e, .refl⟩
  | cons p ps ih =>
    intro c e he
    obtain ⟨hp, hps⟩ := List.nodup_cons.mp hps
    obtain ⟨hc, hrun⟩ := he p List.mem_cons_self
    obtain ⟨c₁, e₁, hfirst, _, _, hframe⟩ := h p List.mem_cons_self c e hc hrun
    obtain ⟨c₂, e₂, hrest⟩ := ih hps (fun v hv => h v (List.mem_cons_of_mem p hv)) c₁ e₁
      (ready_of_frame hp hframe he)
    exact ⟨c₂, e₂, (hfirst.bind _).trans hrest⟩

/-- A loop over the peers can be aborted at the first of them for which its body can. -/
theorem Fails.forEach {ps : List S.Peer} (hps : ps.Nodup) {P P' : σ → Prop} {r : S.Reason}
    {f : S.Peer → Code S σ Unit} {before after : S.Peer → StateT τ (Prog T) D}
    (h : ∀ p ∈ ps, Leads F body mirror p P P' (f p) (before p) (after p) ∨
      Fails F body mirror p P r (f p) (before p))
    {p : S.Peer} (hp : p ∈ ps) (hfails : Fails F body mirror p P r (f p) (before p)) :
    ∀ c e, (∀ p ∈ ps, P (c p) ∧ (e p).Runs F (before p (mirror (c p)))) → ∃ e',
      Steps (rendezvous F (D × τ)) body (Programs.forEach f ps c, e) (.abort r, e') := by
  induction ps with
  | nil => cases hp
  | cons q ps ih =>
    intro c e he
    obtain ⟨hq, hps⟩ := List.nodup_cons.mp hps
    obtain ⟨hc, hrun⟩ := he q List.mem_cons_self
    have hnow : Fails F body mirror q P r (f q) (before q) → ∃ e',
        Steps (rendezvous F (D × τ)) body (Programs.forEach f (q :: ps) c, e) (.abort r, e') := by
      intro hfirst
      obtain ⟨e', hsteps⟩ := hfirst c e hc hrun
      exact ⟨e', hsteps.bind _⟩
    cases hp with
    | head => exact hnow hfails
    | tail _ hp =>
      cases h q List.mem_cons_self with
      | inr hfirst => exact hnow hfirst
      | inl hfirst =>
        obtain ⟨c₁, e₁, hsteps, _, _, hframe⟩ := hfirst c e hc hrun
        obtain ⟨e₂, hrest⟩ := ih hps (fun v hv => h v (List.mem_cons_of_mem q hv)) hp c₁ e₁
          (ready_of_frame hq hframe he)
        exact ⟨e₂, (hsteps.bind _).trans hrest⟩

end Leads
end

end DistributedEnclave.Programs
