import DistributedEnclave.Rendezvous

/-! What a coordinator and its peers bring to a script and where it leaves them. The two are seen
through a relation between what the coordinator keeps for a peer and the site of the peer, so that
a script may also need, and use up, some of what is kept. -/
namespace DistributedEnclave.Programs
variable {Msg Want : Type} {S T : Signature Msg Want} {A B D ι σ : Type} [DecidableEq S.Peer]

section
variable (F : Fabric S T) (body : S.Loop → Prog S S.Result)
  (J : Action S → (S.Peer → Site T D) → Prop)
  (R : Option S.Peer → S.Reason → (S.Peer → Site T D) → Prop)

/-- The script `x`, run where `K` holds of the peer `p`, ends where `K'` does and concerns no
other peer. -/
def Exchange (p : S.Peer) (K : σ → Site T D → Prop) (x : Code S σ A) (good : A → Prop)
    (K' : A → σ → Site T D → Prop) : Prop :=
  ∀ c e, K (c p) (e p) → Ensures (rendezvous F D) body J R (fun r e' => good r.1 ∧
    K' r.1 (r.2 p) (e' p) ∧ ∀ v, v ≠ p → r.2 v = c v ∧ e' v = e v) (x c) e

def Exchanges (ps : List S.Peer) (K : S.Peer → σ → Site T D → Prop) (x : Code S σ A)
    (good : A → Prop) (K' : A → S.Peer → σ → Site T D → Prop) : Prop :=
  ∀ c e, (∀ p ∈ ps, K p (c p) (e p)) → Ensures (rendezvous F D) body J R (fun r e' => good r.1 ∧
    (∀ p ∈ ps, K' r.1 p (r.2 p) (e' p)) ∧ ∀ v, v ∉ ps → r.2 v = c v ∧ e' v = e v) (x c) e

end

variable {F : Fabric S T} {body : S.Loop → Prog S S.Result}
  {J : Action S → (S.Peer → Site T D) → Prop}
  {R : Option S.Peer → S.Reason → (S.Peer → Site T D) → Prop}

/-- What is kept for one peer changes, and its site. -/
theorem exchanged {c : S.Peer → σ} {e : S.Peer → Site T D} {p : S.Peer} {s : σ} {site : Site T D}
    {K : σ → Site T D → Prop} (h : K s site) :
    K (Function.update c p s p) (Function.update e p site p) ∧
      ∀ v, v ≠ p → Function.update c p s v = c v ∧ Function.update e p site v = e v := by
  rw [Function.update_self, Function.update_self]
  exact ⟨h, fun v hv => ⟨Function.update_of_ne hv .., Function.update_of_ne hv ..⟩⟩

theorem exchanged_site {c : S.Peer → σ} {e : S.Peer → Site T D} {p : S.Peer} {site : Site T D}
    {K : σ → Site T D → Prop} (h : K (c p) site) :
    K (c p) (Function.update e p site p) ∧
      ∀ v, v ≠ p → c v = c v ∧ Function.update e p site v = e v := by
  rw [Function.update_self]
  exact ⟨h, fun v hv => ⟨rfl, Function.update_of_ne hv ..⟩⟩

theorem Exchange.pure {p : S.Peer} {a : A} {K : σ → Site T D → Prop} {good : A → Prop}
    {K' : A → σ → Site T D → Prop} (hgood : good a) (h : ∀ s site, K s site → K' a s site) :
    Exchange F body J R p K (Pure.pure a : Code S σ A) good K' :=
  fun _ _ he => .ret ⟨hgood, h _ _ he, fun _ _ => ⟨rfl, rfl⟩⟩

theorem Exchange.before {p : S.Peer} {x : Code S σ A} {K L : σ → Site T D → Prop}
    {good : A → Prop} {K' : A → σ → Site T D → Prop} (h : ∀ s site, K s site → L s site)
    (hx : Exchange F body J R p L x good K') : Exchange F body J R p K x good K' :=
  fun c e he => hx c e (h _ _ he)

theorem Exchange.after {p : S.Peer} {x : Code S σ A} {K : σ → Site T D → Prop}
    {good good' : A → Prop} {L K' : A → σ → Site T D → Prop}
    (hx : Exchange F body J R p K x good L)
    (h : ∀ a, good a → good' a ∧ ∀ s site, L a s site → K' a s site) :
    Exchange F body J R p K x good' K' := by
  intro c e he
  refine (hx c e he).mono ?_
  intro r e' hr
  obtain ⟨hgood', hafter⟩ := h r.1 hr.1
  exact ⟨hgood', hafter _ _ hr.2.1, hr.2.2⟩

/-- A peer that stands somewhere among several places. -/
theorem Exchange.of_exists {p : S.Peer} {x : Code S σ A} {K : ι → σ → Site T D → Prop}
    {good : A → Prop} {K' : A → σ → Site T D → Prop}
    (hx : ∀ i, Exchange F body J R p (K i) x good K') :
    Exchange F body J R p (fun s site => ∃ i, K i s site) x good K' := by
  intro c e he
  obtain ⟨i, hi⟩ := he
  exact hx i c e hi

theorem Exchange.bind {p : S.Peer} {x : Code S σ A} {f : A → Code S σ B}
    {K : σ → Site T D → Prop} {good : A → Prop} {L : A → σ → Site T D → Prop} {good' : B → Prop}
    {K' : B → σ → Site T D → Prop} (hx : Exchange F body J R p K x good L)
    (hf : ∀ a, good a → Exchange F body J R p (L a) (f a) good' K') :
    Exchange F body J R p K (x >>= f) good' K' := by
  intro c e he
  refine (hx c e he).bind ?_
  intro r e' hr
  obtain ⟨hgood, hmid, hframe⟩ := hr
  refine (hf r.1 hgood r.2 e' hmid).mono ?_
  intro r' e'' hr'
  obtain ⟨hgood', hafter, hframe'⟩ := hr'
  refine ⟨hgood', hafter, fun v hv => ?_⟩
  rw [(hframe' v hv).1, (hframe' v hv).2]
  exact hframe v hv

/-- The rest of the script goes on from where the two have met. -/
theorem Exchange.code_bind {p : S.Peer} {x : Code S σ A} {f : A → Code S σ B}
    {K : σ → Site T D → Prop} {good : A → Prop} {K' : A → σ → Site T D → Prop}
    {Q : B × (S.Peer → σ) → (S.Peer → Site T D) → Prop}
    (hx : Exchange F body J R p K x good K') {c : S.Peer → σ} {e : S.Peer → Site T D}
    (he : K (c p) (e p))
    (hf : ∀ a c' e', good a → K' a (c' p) (e' p) → (∀ v, v ≠ p → c' v = c v ∧ e' v = e v) →
      Ensures (rendezvous F D) body J R Q (f a c') e') :
    Ensures (rendezvous F D) body J R Q ((x >>= f) c) e :=
  (hx c e he).bind fun r e' hr => hf r.1 r.2 e' hr.1 hr.2.1 hr.2.2

theorem Exchanges.pure {ps : List S.Peer} {a : A} {K : S.Peer → σ → Site T D → Prop}
    {good : A → Prop} {K' : A → S.Peer → σ → Site T D → Prop} (hgood : good a)
    (h : ∀ p ∈ ps, ∀ s site, K p s site → K' a p s site) :
    Exchanges F body J R ps K (Pure.pure a : Code S σ A) good K' :=
  fun _ _ he => .ret ⟨hgood, fun p hp => h p hp _ _ (he p hp), fun _ _ => ⟨rfl, rfl⟩⟩

theorem Exchanges.bind {ps : List S.Peer} {x : Code S σ A} {f : A → Code S σ B}
    {K : S.Peer → σ → Site T D → Prop} {good : A → Prop} {L : A → S.Peer → σ → Site T D → Prop}
    {good' : B → Prop} {K' : B → S.Peer → σ → Site T D → Prop}
    (hx : Exchanges F body J R ps K x good L)
    (hf : ∀ a, good a → Exchanges F body J R ps (L a) (f a) good' K') :
    Exchanges F body J R ps K (x >>= f) good' K' := by
  intro c e he
  refine (hx c e he).bind ?_
  intro r e' hr
  obtain ⟨hgood, hmid, hframe⟩ := hr
  refine (hf r.1 hgood r.2 e' hmid).mono ?_
  intro r' e'' hr'
  obtain ⟨hgood', hafter, hframe'⟩ := hr'
  refine ⟨hgood', hafter, fun v hv => ?_⟩
  rw [(hframe' v hv).1, (hframe' v hv).2]
  exact hframe v hv

theorem Exchanges.after {ps : List S.Peer} {x : Code S σ A} {K : S.Peer → σ → Site T D → Prop}
    {good good' : A → Prop} {L K' : A → S.Peer → σ → Site T D → Prop}
    (hx : Exchanges F body J R ps K x good L)
    (h : ∀ a, good a → good' a ∧ ∀ p ∈ ps, ∀ s site, L a p s site → K' a p s site) :
    Exchanges F body J R ps K x good' K' := by
  intro c e he
  refine (hx c e he).mono ?_
  intro r e' hr
  obtain ⟨hgood', hafter⟩ := h r.1 hr.1
  exact ⟨hgood', fun p hp => hafter p hp _ _ (hr.2.1 p hp), hr.2.2⟩

/-- First a script for one peer, then one for the others. -/
theorem Exchanges.cons {p : S.Peer} {ps : List S.Peer} (hp : p ∉ ps) {x : Code S σ A}
    {f : A → Code S σ B} {K K' : S.Peer → σ → Site T D → Prop} {good : A → Prop}
    {good' : B → Prop} (hx : Exchange F body J R p (K p) x good (fun _ => K' p))
    (hf : ∀ a, good a → Exchanges F body J R ps K (f a) good' (fun _ => K')) :
    Exchanges F body J R (p :: ps) K (x >>= f) good' (fun _ => K') := by
  intro c e he
  refine (hx c e (he p List.mem_cons_self)).bind ?_
  intro r e' hr
  obtain ⟨hgood, hafter, hframe⟩ := hr
  have htail : ∀ v ∈ ps, K v (r.2 v) (e' v) := by
    intro v hv
    have hne : v ≠ p := fun heq => hp (heq ▸ hv)
    rw [(hframe v hne).1, (hframe v hne).2]
    exact he v (List.mem_cons_of_mem p hv)
  refine (hf r.1 hgood r.2 e' htail).mono ?_
  intro r' e'' hr'
  obtain ⟨hgood', hafter', hframe'⟩ := hr'
  refine ⟨hgood', ?_, ?_⟩
  · intro v hv
    cases List.mem_cons.mp hv with
    | inl heq =>
      subst heq
      rw [(hframe' v hp).1, (hframe' v hp).2]
      exact hafter
    | inr hmem => exact hafter' v hmem
  · intro v hv
    have hne : v ≠ p := fun heq => hv (heq ▸ List.mem_cons_self)
    have hmem : v ∉ ps := fun hmem => hv (List.mem_cons_of_mem p hmem)
    rw [(hframe' v hmem).1, (hframe' v hmem).2]
    exact hframe v hne

/-- A loop over the peers that carries a value which `I` holds of, given how many of the peers
are still to come. -/
theorem Exchanges.foldPeers {ps : List S.Peer} (hps : ps.Nodup) {I : List S.Peer → B → Prop}
    {f : B → S.Peer → Code S σ B} {K K' : S.Peer → σ → Site T D → Prop}
    (h : ∀ p rest, (∃ before, ps = before ++ p :: rest) → ∀ b, I (p :: rest) b →
      Exchange F body J R p (K p) (f b p) (I rest) (fun _ => K' p))
    {b : B} (hb : I ps b) :
    Exchanges F body J R ps K (ps.foldlM f b) (I []) (fun _ => K') := by
  induction ps generalizing b with
  | nil => exact Exchanges.pure hb fun p hp => by cases hp
  | cons p ps ih =>
    obtain ⟨hp, hps⟩ := List.nodup_cons.mp hps
    rw [List.foldlM_cons]
    refine Exchanges.cons hp (h p ps ⟨[], rfl⟩ b hb) ?_
    intro b' hb'
    refine ih hps ?_ hb'
    intro v rest hv
    obtain ⟨before, rfl⟩ := hv
    exact h v rest ⟨p :: before, rfl⟩

theorem Exchanges.forEach {ps : List S.Peer} (hps : ps.Nodup) {f : S.Peer → Code S σ Unit}
    {K K' : S.Peer → σ → Site T D → Prop}
    (h : ∀ p ∈ ps, Exchange F body J R p (K p) (f p) (fun _ => True) (fun _ => K' p)) :
    Exchanges F body J R ps K (Programs.forEach f ps) (fun _ => True) (fun _ => K') := by
  induction ps with
  | nil => exact Exchanges.pure trivial fun p hp => by cases hp
  | cons p ps ih =>
    obtain ⟨hp, hps⟩ := List.nodup_cons.mp hps
    exact Exchanges.cons hp (h p List.mem_cons_self) fun _ _ =>
      ih hps fun v hv => h v (List.mem_cons_of_mem p hv)

/-- A loop over the peers that ends with the first failure. -/
theorem Exchanges.forPeers {ps : List S.Peer} (hps : ps.Nodup) {f : S.Peer → Code S σ Int}
    {K K' : S.Peer → σ → Site T D → Prop}
    (h : ∀ p ∈ ps, Exchange F body J R p (K p) (f p) (· = 0) (fun _ => K' p)) :
    Exchanges F body J R ps K (untilFailure f ps) (· = 0) (fun _ => K') := by
  induction ps with
  | nil => exact Exchanges.pure rfl fun p hp => by cases hp
  | cons p ps ih =>
    obtain ⟨hp, hps⟩ := List.nodup_cons.mp hps
    refine Exchanges.cons hp (h p List.mem_cons_self) ?_
    intro status hstatus
    subst hstatus
    exact ih hps fun v hv => h v (List.mem_cons_of_mem p hv)

/-- A loop that takes the peers through the stages `K` of a shared schedule. -/
theorem Exchanges.schedule {ps : List S.Peer} {f : ι → Code S σ Int} {is : List ι}
    (K : List ι → S.Peer → σ → Site T D → Prop)
    (h : ∀ i rest, (∃ before, is = before ++ i :: rest) →
      Exchanges F body J R ps (K (i :: rest)) (f i) (· = 0) (fun _ => K rest)) :
    Exchanges F body J R ps (K is) (untilFailure f is) (· = 0) (fun _ => K []) := by
  induction is with
  | nil => exact Exchanges.pure rfl fun p _ s site hs => hs
  | cons i is ih =>
    refine Exchanges.bind (h i is ⟨[], rfl⟩) ?_
    intro status hstatus
    subst hstatus
    refine ih ?_
    intro j rest hj
    obtain ⟨before, rfl⟩ := hj
    exact h j rest ⟨i :: before, rfl⟩

theorem Exchanges.forEachStage {ps : List S.Peer} {f : ι → Code S σ Unit} {is : List ι}
    (K : List ι → S.Peer → σ → Site T D → Prop)
    (h : ∀ i rest, (∃ before, is = before ++ i :: rest) →
      Exchanges F body J R ps (K (i :: rest)) (f i) (fun _ => True) (fun _ => K rest)) :
    Exchanges F body J R ps (K is) (Programs.forEach f is) (fun _ => True) (fun _ => K []) := by
  rw [forEach_eq_untilFailure]
  refine Exchanges.bind (Exchanges.schedule K ?_) fun _ _ =>
    Exchanges.pure trivial fun _ _ _ _ hs => hs
  exact fun i rest hi => Exchanges.bind (h i rest hi) fun _ _ =>
    Exchanges.pure rfl fun _ _ _ _ hs => hs

/-- A loop that takes the peers through the stages `K` of a shared schedule and carries a value
which `I` holds of. -/
theorem Exchanges.foldSchedule {ps : List S.Peer} {I : List ι → B → Prop}
    {f : B → ι → Code S σ B} {is : List ι} (K : List ι → S.Peer → σ → Site T D → Prop)
    (h : ∀ i rest, (∃ before, is = before ++ i :: rest) → ∀ b, I (i :: rest) b →
      Exchanges F body J R ps (K (i :: rest)) (f b i) (I rest) (fun _ => K rest))
    {b : B} (hb : I is b) :
    Exchanges F body J R ps (K is) (is.foldlM f b) (I []) (fun _ => K []) := by
  induction is generalizing b with
  | nil => exact Exchanges.pure hb fun p _ s site hs => hs
  | cons i is ih =>
    rw [List.foldlM_cons]
    refine Exchanges.bind (h i is ⟨[], rfl⟩ b hb) ?_
    intro b' hb'
    refine ih ?_ hb'
    intro j rest hj
    obtain ⟨before, rfl⟩ := hj
    exact h j rest ⟨i :: before, rfl⟩

section Stands
variable {τ : Type}

variable (F) in
/-- The peer is about to run `x`, begun with what the coordinator keeps for it, and its site and
what is kept stand to each other as `L` says. -/
def Stands (L : σ → Site T (D × τ) → Prop) (mirror : σ → τ) (x : StateT τ (Prog T) D) (s : σ)
    (site : Site T (D × τ)) : Prop :=
  L s site ∧ site.Runs F (x (mirror s))

variable {J : Action S → (S.Peer → Site T (D × τ)) → Prop}
  {R : Option S.Peer → S.Reason → (S.Peer → Site T (D × τ)) → Prop}
  {L : σ → Site T (D × τ) → Prop} {mirror : σ → τ} {p : S.Peer}

theorem Exchange.stay {a : A} {before : StateT τ (Prog T) D} {good : A → Prop}
    {after : A → StateT τ (Prog T) D} (hgood : good a) (hafter : before = after a) :
    Exchange F body J R p (Stands F L mirror before) (Pure.pure a : Code S σ A) good
      (fun a => Stands F L mirror (after a)) :=
  Exchange.pure hgood fun _ _ h => hafter ▸ h

/-- A peer that stands at a loop may be taken to stand in it. -/
theorem Exchange.of_settle {x : Code S σ A} {before before' : StateT τ (Prog T) D}
    {good : A → Prop} {K' : A → σ → Site T (D × τ) → Prop}
    (h : ∀ t, (before t).settle F.body = (before' t).settle F.body)
    (hx : Exchange F body J R p (Stands F L mirror before') x good K') :
    Exchange F body J R p (Stands F L mirror before) x good K' :=
  Exchange.before (fun _ _ hs => ⟨hs.1, hs.2.trans (h _)⟩) hx

/-- What the peer goes on with may be written otherwise. -/
theorem Exchange.goes {x : Code S σ A} {K : σ → Site T (D × τ) → Prop} {good good' : A → Prop}
    {after after' : A → StateT τ (Prog T) D}
    (hx : Exchange F body J R p K x good (fun a => Stands F L mirror (after a)))
    (h : ∀ a, good a → good' a ∧ after a = after' a) :
    Exchange F body J R p K x good' (fun a => Stands F L mirror (after' a)) := by
  refine Exchange.after hx ?_
  intro a ha
  obtain ⟨hgood', hafter⟩ := h a ha
  exact ⟨hgood', fun s site hs => hafter ▸ hs⟩

end Stands

end DistributedEnclave.Programs
