import DistributedEnclave.Transition

/-! Sequential programs that exchange messages with peers, their runs in an environment, and
two logics over them: `Maintains` for every run, `Ensures` for runs that also have to end. -/
namespace DistributedEnclave.Programs

structure Signature (Msg Want : Type) where
  Peer : Type
  Loop : Type
  Result : Type
  Reason : Type

variable {Msg Want : Type}

/-- `loop l rest` runs the loop from its head `l` and goes on with what it returns. -/
inductive Prog (S : Signature Msg Want) (A : Type) : Type
  | ret (a : A)
  | abort (r : S.Reason)
  | send (p : S.Peer) (m : Msg) (rest : Prog S A)
  | recv (p : S.Peer) (q : Want) (rest : Msg → Prog S A)
  | poll (p : S.Peer) (q : Want) (rest : Bool → Prog S A)
  | loop (l : S.Loop) (rest : S.Result → Prog S A)

variable {S : Signature Msg Want} {A B C : Type}

namespace Prog

def bind (x : Prog S A) (f : A → Prog S B) : Prog S B :=
  match x with
  | ret a => f a
  | abort r => abort r
  | send p m rest => send p m (rest.bind f)
  | recv p q rest => recv p q (fun m => (rest m).bind f)
  | poll p q rest => poll p q (fun b => (rest b).bind f)
  | loop l rest => loop l (fun r => (rest r).bind f)

theorem bind_assoc (x : Prog S A) (f : A → Prog S B) (g : B → Prog S C) :
    (x.bind f).bind g = x.bind (fun a => (f a).bind g) := by
  induction x with
  | ret a => rfl
  | abort r => rfl
  | send p m rest ih => rw [bind, bind, bind, ih]
  | recv p q rest ih => simp only [bind, ih]
  | poll p q rest ih => simp only [bind, ih]
  | loop l rest ih => simp only [bind, ih]

theorem bind_ret (x : Prog S A) : x.bind ret = x := by
  induction x with
  | ret a => rfl
  | abort r => rfl
  | send p m rest ih => rw [bind, ih]
  | recv p q rest ih => simp only [bind, ih]
  | poll p q rest ih => simp only [bind, ih]
  | loop l rest ih => simp only [bind, ih]

instance : Monad (Prog S) where
  pure := ret
  bind := bind

instance : LawfulMonad (Prog S) := LawfulMonad.mk' (Prog S) bind_ret (fun _ _ => rfl) bind_assoc

def settle (body : S.Loop → Prog S S.Result) : Prog S A → Prog S A
  | loop l rest => (body l).bind rest
  | x => x

end Prog

abbrev Code (S : Signature Msg Want) (σ A : Type) : Type := StateT (S.Peer → σ) (Prog S) A

def untilFailure {σ ι : Type} (f : ι → Code S σ Int) : List ι → Code S σ Int
  | [] => pure 0
  | i :: is => do
    let status ← f i
    if status ≠ 0 then pure status else untilFailure f is

def forEach {σ ι : Type} (f : ι → Code S σ Unit) : List ι → Code S σ Unit
  | [] => pure ()
  | i :: is => do
    f i
    forEach f is

theorem forEach_eq_untilFailure {σ ι : Type} (f : ι → Code S σ Unit) (is : List ι) :
    forEach f is =
      untilFailure (fun i => f i >>= fun _ => pure 0) is >>= fun _ => pure () := by
  induction is with
  | nil => simp [forEach, untilFailure]
  | cons i is ih => simp [forEach, untilFailure, ih]

inductive Action (S : Signature Msg Want) : Type
  | send (p : S.Peer) (m : Msg)
  | recv (p : S.Peer) (q : Want)
  | poll (p : S.Peer) (q : Want)
  | loop (l : S.Loop)

def Action.peer : Action S → Option S.Peer
  | send p _ | recv p _ | poll p _ => some p
  | loop _ => none

def Prog.action : Prog S A → Option (Action S)
  | ret _ | abort _ => none
  | send p m _ => some (.send p m)
  | recv p q _ => some (.recv p q)
  | poll p q _ => some (.poll p q)
  | loop l _ => some (.loop l)

theorem Prog.action_bind {x : Prog S A} {f : A → Prog S B} {a : Action S}
    (h : x.action = some a) : (x.bind f).action = some a := by
  cases x with
  | ret _ => cases h
  | abort _ => cases h
  | send _ _ _ => exact h
  | recv _ _ _ => exact h
  | poll _ _ _ => exact h
  | loop _ _ => exact h

/-- How the peers answer. One that has aborted the job answers nothing. -/
structure Env (S : Signature Msg Want) where
  State : Type
  send : State → S.Peer → Msg → State → Prop
  recv : State → S.Peer → Want → Msg → State → Prop
  poll : State → S.Peer → Want → Bool → State → Prop
  stopped : State → S.Peer → S.Reason → Prop
  stopped_send : ∀ e p r, stopped e p r → ∀ m e', ¬send e p m e'
  stopped_recv : ∀ e p r, stopped e p r → ∀ q m e', ¬recv e p q m e'
  stopped_poll : ∀ e p r, stopped e p r → ∀ q b e', ¬poll e p q b e'

variable (E : Env S) (body : S.Loop → Prog S S.Result)

inductive Step : Prog S A × E.State → Prog S A × E.State → Prop
  | send {p m rest e e'} (h : E.send e p m e') : Step (.send p m rest, e) (rest, e')
  | recv {p q m rest e e'} (h : E.recv e p q m e') : Step (.recv p q rest, e) (rest m, e')
  | poll {p q b rest e e'} (h : E.poll e p q b e') : Step (.poll p q rest, e) (rest b, e')
  | loop {l rest e} : Step (.loop l rest, e) ((body l).bind rest, e)

variable {E body} in
/-- No one takes a step with a peer that has aborted the job. -/
theorem Step.not_stopped {x : Prog S A} {e : E.State} {s : Prog S A × E.State}
    (h : Step E body (x, e) s) {a : Action S} {p : S.Peer} {r : S.Reason} (ha : x.action = some a)
    (hp : a.peer = some p) : ¬E.stopped e p r := by
  intro hs
  cases h with
  | send he =>
    cases ha
    cases hp
    exact E.stopped_send _ _ _ hs _ _ he
  | recv he =>
    cases ha
    cases hp
    exact E.stopped_recv _ _ _ hs _ _ _ he
  | poll he =>
    cases ha
    cases hp
    exact E.stopped_poll _ _ _ hs _ _ _ he
  | loop =>
    cases ha
    cases hp

def Steps : Prog S A × E.State → Prog S A × E.State → Prop :=
  Relation.ReflTransGen (Step E body)

variable {E body} in
/-- A step of a program in sequence is one of its first part, until that has returned. -/
theorem Step.of_bind {x : Prog S A} {f : A → Prog S B} {e : E.State} {s : Prog S B × E.State}
    (h : Step E body (x.bind f, e) s) : (∃ a, x = .ret a) ∨
      ∃ x' e', Step E body (x, e) (x', e') ∧ s = (x'.bind f, e') := by
  cases x with
  | ret a => exact .inl ⟨a, rfl⟩
  | abort r => cases h
  | send p m rest =>
    cases h with
    | send he => exact .inr ⟨_, _, .send he, rfl⟩
  | recv p q rest =>
    cases h with
    | recv he => exact .inr ⟨_, _, .recv he, rfl⟩
  | poll p q rest =>
    cases h with
    | poll he => exact .inr ⟨_, _, .poll he, rfl⟩
  | loop l rest =>
    cases h with
    | loop => exact .inr ⟨_, _, .loop, by rw [Prog.bind_assoc]⟩

variable {E body} in
/-- A program in sequence returns after its first part has. -/
theorem Steps.of_bind {x : Prog S A} {f : A → Prog S B} {e e' : E.State} {b : B}
    (h : Steps E body (x.bind f, e) (.ret b, e')) :
    ∃ a e₁, Steps E body (x, e) (.ret a, e₁) ∧ Steps E body (f a, e₁) (.ret b, e') := by
  generalize hs : (x.bind f, e) = s at h
  induction h using Relation.ReflTransGen.head_induction_on generalizing x e with
  | refl =>
    cases x with
    | ret a => exact ⟨a, e, .refl, by rw [← hs]; exact .refl⟩
    | _ => cases hs
  | head hstep hrest ih =>
    subst hs
    cases hstep.of_bind with
    | inl hret =>
      obtain ⟨a, rfl⟩ := hret
      exact ⟨a, e, .refl, .head hstep hrest⟩
    | inr hfirst =>
      obtain ⟨x', e₂, hx, rfl⟩ := hfirst
      obtain ⟨a, e₁, hsteps, hafter⟩ := ih rfl
      exact ⟨a, e₁, .head hx hsteps, hafter⟩

variable {E body} in
theorem Step.bind {s s' : Prog S A × E.State} (f : A → Prog S B) (h : Step E body s s') :
    Step E body (s.1.bind f, s.2) (s'.1.bind f, s'.2) := by
  cases h with
  | send he => exact .send he
  | recv he => exact .recv he
  | poll he => exact .poll he
  | loop =>
    rw [Prog.bind_assoc]
    exact .loop

variable {E body} in
/-- What a program can do, it can do at the front of a sequence. -/
theorem Steps.bind {x x' : Prog S A} {e e' : E.State} (f : A → Prog S B)
    (h : Steps E body (x, e) (x', e')) : Steps E body (x.bind f, e) (x'.bind f, e') :=
  Relation.ReflTransGen.lift (fun s : Prog S A × E.State => (s.1.bind f, s.2))
    (fun _ _ hstep => Step.bind f hstep) (x, e) (x', e') h

section Maintains
variable (J : Action S → E.State → Prop) (Q : A → E.State → Prop)

/-- For `n` steps `J` holds at every action, and `Q` holds if the program returns. -/
def Maintains {A : Type} (Q : A → E.State → Prop) : Nat → Prog S A → E.State → Prop
  | 0, _, _ => True
  | _+1, .ret a, e => Q a e
  | _+1, .abort _, _ => True
  | n+1, .send p m rest, e => J (.send p m) e ∧ ∀ e', E.send e p m e' → Maintains Q n rest e'
  | n+1, .recv p q rest, e =>
    J (.recv p q) e ∧ ∀ m e', E.recv e p q m e' → Maintains Q n (rest m) e'
  | n+1, .poll p q rest, e =>
    J (.poll p q) e ∧ ∀ b e', E.poll e p q b e' → Maintains Q n (rest b) e'
  | n+1, .loop l rest, e => J (.loop l) e ∧ Maintains Q n ((body l).bind rest) e

variable {E body J Q}

theorem Maintains.less {n : Nat} {x : Prog S A} {e : E.State}
    (h : Maintains E body J Q (n+1) x e) : Maintains E body J Q n x e := by
  induction n generalizing x e with
  | zero => trivial
  | succ n ih =>
    cases x with
    | ret a => exact h
    | abort r => trivial
    | send p m rest => exact ⟨h.1, fun e' he => ih (h.2 e' he)⟩
    | recv p q rest => exact ⟨h.1, fun m e' he => ih (h.2 m e' he)⟩
    | poll p q rest => exact ⟨h.1, fun b e' he => ih (h.2 b e' he)⟩
    | loop l rest => exact ⟨h.1, ih h.2⟩

theorem Maintains.ret {n : Nat} {a : A} {e : E.State} (h : Q a e) :
    Maintains E body J Q n (.ret a) e := by
  cases n with
  | zero => trivial
  | succ n => exact h

theorem Maintains.abort {n : Nat} {r : S.Reason} {e : E.State} :
    Maintains E body J Q n (.abort r) e := by
  cases n <;> trivial

theorem Maintains.send {n : Nat} {p : S.Peer} {m : Msg} {rest : Prog S A} {e : E.State}
    (hJ : J (.send p m) e) (h : ∀ e', E.send e p m e' → Maintains E body J Q n rest e') :
    Maintains E body J Q n (.send p m rest) e := by
  cases n with
  | zero => trivial
  | succ n => exact ⟨hJ, fun e' he => (h e' he).less⟩

theorem Maintains.recv {n : Nat} {p : S.Peer} {q : Want} {rest : Msg → Prog S A} {e : E.State}
    (hJ : J (.recv p q) e)
    (h : ∀ m e', E.recv e p q m e' → Maintains E body J Q n (rest m) e') :
    Maintains E body J Q n (.recv p q rest) e := by
  cases n with
  | zero => trivial
  | succ n => exact ⟨hJ, fun m e' he => (h m e' he).less⟩

theorem Maintains.poll {n : Nat} {p : S.Peer} {q : Want} {rest : Bool → Prog S A} {e : E.State}
    (hJ : J (.poll p q) e)
    (h : ∀ b e', E.poll e p q b e' → Maintains E body J Q n (rest b) e') :
    Maintains E body J Q n (.poll p q rest) e := by
  cases n with
  | zero => trivial
  | succ n => exact ⟨hJ, fun b e' he => (h b e' he).less⟩

theorem Maintains.bind {Q' : B → E.State → Prop} {n : Nat} {x : Prog S A} {f : A → Prog S B}
    {e : E.State} (hx : Maintains E body J Q n x e)
    (hf : ∀ a e', Q a e' → Maintains E body J Q' n (f a) e') :
    Maintains E body J Q' n (x.bind f) e := by
  induction n generalizing x e with
  | zero => trivial
  | succ n ih =>
    have hless : ∀ a e', Q a e' → Maintains E body J Q' n (f a) e' :=
      fun a e' ha => (hf a e' ha).less
    cases x with
    | ret a => exact hf a e hx
    | abort r => trivial
    | send p m rest => exact ⟨hx.1, fun e' he => ih (hx.2 e' he) hless⟩
    | recv p q rest => exact ⟨hx.1, fun m e' he => ih (hx.2 m e' he) hless⟩
    | poll p q rest => exact ⟨hx.1, fun b e' he => ih (hx.2 b e' he) hless⟩
    | loop l rest =>
      refine ⟨hx.1, ?_⟩
      rw [← Prog.bind_assoc]
      exact ih hx.2 hless

theorem Maintains.mono {Q' : A → E.State → Prop} {n : Nat} {x : Prog S A} {e : E.State}
    (hx : Maintains E body J Q n x e) (h : ∀ a e', Q a e' → Q' a e') :
    Maintains E body J Q' n x e := by
  have := hx.bind (f := Prog.ret) (fun a e' ha => .ret (h a e' ha))
  rwa [Prog.bind_ret] at this

/-- A loop keeps its invariant if its body does while the loop is trusted to from the next
head on. -/
theorem Maintains.loop {I : S.Loop → E.State → Prop} {Q : S.Result → E.State → Prop}
    (h : ∀ n, (∀ l e, I l e → Maintains E body J Q n (.loop l .ret) e) →
      ∀ l e, I l e → J (.loop l) e ∧ Maintains E body J Q n (body l) e)
    (n : Nat) {l : S.Loop} {e : E.State} (hI : I l e) :
    Maintains E body J Q n (.loop l .ret) e := by
  induction n generalizing l e with
  | zero => trivial
  | succ n ih =>
    obtain ⟨hJ, hbody⟩ := h n (fun l e hI => ih hI) l e hI
    refine ⟨hJ, ?_⟩
    rwa [Prog.bind_ret]

section
variable {σ ι : Type}

theorem Maintains.code_bind {Q : A × (S.Peer → σ) → E.State → Prop}
    {Q' : B × (S.Peer → σ) → E.State → Prop} {n : Nat} {x : Code S σ A} {f : A → Code S σ B}
    {c : S.Peer → σ} {e : E.State} (hx : Maintains E body J Q n (x c) e)
    (hf : ∀ a c' e', Q (a, c') e' → Maintains E body J Q' n (f a c') e') :
    Maintains E body J Q' n ((x >>= f) c) e :=
  hx.bind (fun r e' hr => hf r.1 r.2 e' hr)

/-- What each body of the loop that returns 0 preserves is preserved by the loop. -/
theorem Maintains.untilFailure {I : List ι → E.State → Prop} {f : ι → Code S σ Int} {n : Nat}
    {is : List ι}
    (h : ∀ i rest, (∃ before, is = before ++ i :: rest) → ∀ c e, I (i :: rest) e →
      Maintains E body J (fun r e' => r.1 = 0 → I rest e') n (f i c) e)
    {c : S.Peer → σ} {e : E.State} (hI : I is e) :
    Maintains E body J (fun r e' => r.1 = 0 → I [] e') n (Programs.untilFailure f is c) e := by
  induction is generalizing c e with
  | nil =>
    exact .ret fun _ => hI
  | cons i is ih =>
    refine (h i is ⟨[], rfl⟩ c e hI).code_bind ?_
    intro status c' e' hnext
    by_cases hstatus : status = 0
    · subst hstatus
      refine ih ?_ (hnext rfl)
      intro j rest hj
      obtain ⟨before, rfl⟩ := hj
      exact h j rest ⟨i :: before, rfl⟩
    · simp only [ne_eq, hstatus, not_false_eq_true, if_true]
      exact .ret fun hzero => absurd hzero hstatus

theorem Maintains.forEach {I : List ι → E.State → Prop} {f : ι → Code S σ Unit} {n : Nat}
    {is : List ι}
    (h : ∀ i rest, (∃ before, is = before ++ i :: rest) → ∀ c e, I (i :: rest) e →
      Maintains E body J (fun _ e' => I rest e') n (f i c) e)
    {c : S.Peer → σ} {e : E.State} (hI : I is e) :
    Maintains E body J (fun _ e' => I [] e') n (Programs.forEach f is c) e := by
  induction is generalizing c e with
  | nil => exact .ret hI
  | cons i is ih =>
    refine (h i is ⟨[], rfl⟩ c e hI).code_bind ?_
    intro _ c' e' hnext
    refine ih ?_ hnext
    intro j rest hj
    obtain ⟨before, rfl⟩ := hj
    exact h j rest ⟨i :: before, rfl⟩

theorem Maintains.foldlM {I : List ι → B → E.State → Prop} {f : B → ι → Code S σ B} {n : Nat}
    {is : List ι}
    (h : ∀ i rest, (∃ before, is = before ++ i :: rest) → ∀ b c e, I (i :: rest) b e →
      Maintains E body J (fun r e' => I rest r.1 e') n (f b i c) e)
    {b : B} {c : S.Peer → σ} {e : E.State} (hI : I is b e) :
    Maintains E body J (fun r e' => I [] r.1 e') n (is.foldlM f b c) e := by
  induction is generalizing b c e with
  | nil => exact .ret hI
  | cons i is ih =>
    rw [List.foldlM_cons]
    refine (h i is ⟨[], rfl⟩ b c e hI).code_bind ?_
    intro b' c' e' hnext
    refine ih ?_ hnext
    intro j rest hj
    obtain ⟨before, rfl⟩ := hj
    exact h j rest ⟨i :: before, rfl⟩

end

theorem Maintains.step {n : Nat} {s s' : Prog S A × E.State}
    (h : Maintains E body J Q (n+1) s.1 s.2) (hstep : Step E body s s') :
    Maintains E body J Q n s'.1 s'.2 := by
  cases hstep with
  | send he => exact h.2 _ he
  | recv he => exact h.2 _ _ he
  | poll he => exact h.2 _ _ he
  | loop => exact h.2

theorem Maintains.steps {s s' : Prog S A × E.State}
    (h : ∀ n, Maintains E body J Q n s.1 s.2) (hsteps : Steps E body s s') (n : Nat) :
    Maintains E body J Q n s'.1 s'.2 := by
  induction hsteps generalizing n with
  | refl => exact h n
  | tail _ hlast ih => exact (ih (n+1)).step hlast

theorem Maintains.action {x : Prog S A} {e : E.State} (h : Maintains E body J Q 1 x e)
    {a : Action S} (ha : x.action = some a) : J a e := by
  cases x with
  | ret _ => cases ha
  | abort _ => cases ha
  | send _ _ _ => cases ha; exact h.1
  | recv _ _ _ => cases ha; exact h.1
  | poll _ _ _ => cases ha; exact h.1
  | loop _ _ => cases ha; exact h.1

/-- In every state of a run the assertion of the next action holds. -/
theorem Maintains.at_action {x x' : Prog S A} {e e' : E.State}
    (h : ∀ n, Maintains E body J Q n x e) (hsteps : Steps E body (x, e) (x', e'))
    {a : Action S} (ha : x'.action = some a) : J a e' :=
  Maintains.action (Maintains.steps h hsteps 1) ha

theorem Maintains.at_return {x : Prog S A} {e e' : E.State} {a : A}
    (h : ∀ n, Maintains E body J Q n x e) (hsteps : Steps E body (x, e) (.ret a, e')) :
    Q a e' :=
  Maintains.steps h hsteps 1

end Maintains

section Ensures

/-- Every run ends: with a result that meets `Q`, or in an abort that `R` allows in the state
where it comes, by the program (`none`) or by the peer it turns to. On the way `J` holds at every
action, and the environment can always answer. -/
inductive Ensures (J : Action S → E.State → Prop) (R : Option S.Peer → S.Reason → E.State → Prop)
    (Q : A → E.State → Prop) : Prog S A → E.State → Prop
  | ret {a e} (h : Q a e) : Ensures J R Q (.ret a) e
  | abort {r e} (h : R none r e) : Ensures J R Q (.abort r) e
  | stopped {x a p r e} (ha : x.action = some a) (hp : a.peer = some p)
      (hs : E.stopped e p r) (h : R (some p) r e) : Ensures J R Q x e
  | send {p m rest e} (hJ : J (.send p m) e) (hready : ∃ e', E.send e p m e')
      (h : ∀ e', E.send e p m e' → Ensures J R Q rest e') : Ensures J R Q (.send p m rest) e
  | recv {p q rest e} (hJ : J (.recv p q) e) (hready : ∃ m e', E.recv e p q m e')
      (h : ∀ m e', E.recv e p q m e' → Ensures J R Q (rest m) e') :
      Ensures J R Q (.recv p q rest) e
  | poll {p q rest e} (hJ : J (.poll p q) e) (hready : ∃ b e', E.poll e p q b e')
      (h : ∀ b e', E.poll e p q b e' → Ensures J R Q (rest b) e') :
      Ensures J R Q (.poll p q rest) e
  | loop {l rest e} (hJ : J (.loop l) e) (h : Ensures J R Q ((body l).bind rest) e) :
      Ensures J R Q (.loop l rest) e

variable {E body} {J : Action S → E.State → Prop}
  {R : Option S.Peer → S.Reason → E.State → Prop} {Q : A → E.State → Prop}

theorem Ensures.bind {Q' : B → E.State → Prop} {x : Prog S A} {f : A → Prog S B} {e : E.State}
    (hx : Ensures E body J R Q x e)
    (hf : ∀ a e', Q a e' → Ensures E body J R Q' (f a) e') :
    Ensures E body J R Q' (x.bind f) e := by
  induction hx with
  | ret h => exact hf _ _ h
  | abort h => exact .abort h
  | stopped ha hp hs h => exact .stopped (Prog.action_bind ha) hp hs h
  | send hJ hready _ ih => exact .send hJ hready ih
  | recv hJ hready _ ih => exact .recv hJ hready ih
  | poll hJ hready _ ih => exact .poll hJ hready ih
  | loop hJ _ ih =>
    rw [Prog.bind_assoc] at ih
    exact .loop hJ ih

theorem Ensures.mono {Q' : A → E.State → Prop} {x : Prog S A} {e : E.State}
    (hx : Ensures E body J R Q x e) (h : ∀ a e', Q a e' → Q' a e') :
    Ensures E body J R Q' x e := by
  have := hx.bind (f := Prog.ret) (fun a e' ha => .ret (h a e' ha))
  rwa [Prog.bind_ret] at this

theorem Ensures.code_bind {σ : Type} {Q : A × (S.Peer → σ) → E.State → Prop}
    {Q' : B × (S.Peer → σ) → E.State → Prop} {x : Code S σ A} {f : A → Code S σ B}
    {c : S.Peer → σ} {e : E.State} (hx : Ensures E body J R Q (x c) e)
    (hf : ∀ a c' e', Q (a, c') e' → Ensures E body J R Q' (f a c') e') :
    Ensures E body J R Q' ((x >>= f) c) e :=
  hx.bind (fun r e' hr => hf r.1 r.2 e' hr)

/-- A loop ends if its body does while the loop is trusted to from heads with a smaller
variant on. -/
theorem Ensures.loop_variant {V : Type} {lt : V → V → Prop} (hwf : WellFounded lt)
    {I : S.Loop → E.State → Prop} {Q : S.Result → E.State → Prop}
    (variant : S.Loop → E.State → V)
    (h : ∀ l e, I l e → (∀ l' e', I l' e' → lt (variant l' e') (variant l e) →
        Ensures E body J R Q (.loop l' .ret) e') →
      J (.loop l) e ∧ Ensures E body J R Q (body l) e)
    {l : S.Loop} {e : E.State} (hI : I l e) : Ensures E body J R Q (.loop l .ret) e := by
  induction hv : variant l e using hwf.induction generalizing l e with
  | h v ih =>
    subst hv
    obtain ⟨hJ, hbody⟩ := h l e hI (fun l' e' hI' hlt => ih _ hlt hI' rfl)
    refine .loop hJ ?_
    rwa [Prog.bind_ret]

theorem Ensures.step {s s' : Prog S A × E.State} (h : Ensures E body J R Q s.1 s.2)
    (hstep : Step E body s s') : Ensures E body J R Q s'.1 s'.2 := by
  obtain ⟨x, e⟩ := s
  cases h with
  | ret _ => cases hstep
  | abort _ => cases hstep
  | stopped ha hp hs _ => exact absurd hs (hstep.not_stopped ha hp)
  | send _ _ h =>
    cases hstep with
    | send he => exact h _ he
  | recv _ _ h =>
    cases hstep with
    | recv he => exact h _ _ he
  | poll _ _ h =>
    cases hstep with
    | poll he => exact h _ _ he
  | loop _ h =>
    cases hstep with
    | loop => exact h

theorem Ensures.steps {s s' : Prog S A × E.State} (h : Ensures E body J R Q s.1 s.2)
    (hsteps : Steps E body s s') : Ensures E body J R Q s'.1 s'.2 := by
  induction hsteps with
  | refl => exact h
  | tail _ hlast ih => exact ih.step hlast

variable (E body) in
inductive Status (J : Action S → E.State → Prop)
    (R : Option S.Peer → S.Reason → E.State → Prop) (Q : A → E.State → Prop) (x : Prog S A)
    (e : E.State) : Prop
  | returned (a : A) (hx : x = .ret a) (h : Q a e)
  | aborted (r : S.Reason) (hx : x = .abort r) (h : R none r e)
  | stopped (p : S.Peer) (r : S.Reason) (hx : x.action.bind Action.peer = some p)
      (hs : E.stopped e p r) (h : R (some p) r e)
  | running (a : Action S) (hx : x.action = some a) (h : J a e)
      (next : ∃ s, Step E body (x, e) s)

theorem Ensures.status {x : Prog S A} {e : E.State} (h : Ensures E body J R Q x e) :
    Status E body J R Q x e := by
  cases h with
  | ret h => exact .returned _ rfl h
  | abort h => exact .aborted _ rfl h
  | stopped ha hp hs h =>
    refine .stopped _ _ ?_ hs h
    rw [ha]
    exact hp
  | send hJ hready _ =>
    obtain ⟨e', he⟩ := hready
    exact .running _ rfl hJ ⟨_, .send he⟩
  | recv hJ hready _ =>
    obtain ⟨m, e', he⟩ := hready
    exact .running _ rfl hJ ⟨_, .recv he⟩
  | poll hJ hready _ =>
    obtain ⟨b, e', he⟩ := hready
    exact .running _ rfl hJ ⟨_, .poll he⟩
  | loop hJ _ => exact .running _ rfl hJ ⟨_, .loop⟩

/-- No run goes on for ever. -/
theorem Ensures.acc {x : Prog S A} {e : E.State} (h : Ensures E body J R Q x e) :
    Acc (fun s s' => Step E body s' s) (x, e) := by
  induction h with
  | ret _ => exact ⟨_, fun s hs => by cases hs⟩
  | abort _ => exact ⟨_, fun s hs => by cases hs⟩
  | stopped ha hp hs _ => exact ⟨_, fun s hstep => absurd hs (hstep.not_stopped ha hp)⟩
  | send _ _ _ ih =>
    refine ⟨_, fun s hstep => ?_⟩
    cases hstep with
    | send he => exact ih _ he
  | recv _ _ _ ih =>
    refine ⟨_, fun s hstep => ?_⟩
    cases hstep with
    | recv he => exact ih _ _ he
  | poll _ _ _ ih =>
    refine ⟨_, fun s hstep => ?_⟩
    cases hstep with
    | poll he => exact ih _ _ he
  | loop _ _ ih =>
    refine ⟨_, fun s hstep => ?_⟩
    cases hstep with
    | loop => exact ih

/-- A program that can take no step although no abort is allowed has returned. -/
theorem Status.returns {x : Prog S A} {e : E.State} (h : Status E body J R Q x e)
    (hR : ∀ p r, ¬R p r e) (hstuck : ∀ s, ¬Step E body (x, e) s) : ∃ a, x = .ret a ∧ Q a e := by
  cases h with
  | returned a hx hQ => exact ⟨a, hx, hQ⟩
  | aborted r _ hr => exact absurd hr (hR none r)
  | stopped p r _ _ hr => exact absurd hr (hR (some p) r)
  | running a _ _ next =>
    obtain ⟨s, hstep⟩ := next
    exact absurd hstep (hstuck s)

/-- Where every run ends, one can be run to its end. -/
theorem exists_stuck {s : Prog S A × E.State} (h : Acc (fun s s' => Step E body s' s) s) :
    ∃ s', Steps E body s s' ∧ ∀ s'', ¬Step E body s' s'' := by
  induction h with
  | intro s _ ih =>
    by_cases hstep : ∃ s', Step E body s s'
    · obtain ⟨s', hstep⟩ := hstep
      obtain ⟨s'', hsteps, hstuck⟩ := ih s' hstep
      exact ⟨s'', .head hstep hsteps, hstuck⟩
    · exact ⟨s, .refl, fun s' h => hstep ⟨s', h⟩⟩

/-- Some run comes to its end. -/
theorem Ensures.exists_end {x : Prog S A} {e : E.State} (h : Ensures E body J R Q x e) :
    ∃ x' e', Steps E body (x, e) (x', e') ∧ (x'.action = none ∨
      ∃ p r, x'.action.bind Action.peer = some p ∧ E.stopped e' p r) := by
  induction h with
  | ret _ => exact ⟨_, _, .refl, .inl rfl⟩
  | abort _ => exact ⟨_, _, .refl, .inl rfl⟩
  | stopped ha hp hs _ =>
    refine ⟨_, _, .refl, .inr ⟨_, _, ?_, hs⟩⟩
    rw [ha]
    exact hp
  | send _ hready _ ih =>
    obtain ⟨e', he⟩ := hready
    obtain ⟨x', e'', hsteps, hend⟩ := ih e' he
    exact ⟨x', e'', .head (.send he) hsteps, hend⟩
  | recv _ hready _ ih =>
    obtain ⟨m, e', he⟩ := hready
    obtain ⟨x', e'', hsteps, hend⟩ := ih m e' he
    exact ⟨x', e'', .head (.recv he) hsteps, hend⟩
  | poll _ hready _ ih =>
    obtain ⟨b, e', he⟩ := hready
    obtain ⟨x', e'', hsteps, hend⟩ := ih b e' he
    exact ⟨x', e'', .head (.poll he) hsteps, hend⟩
  | loop _ _ ih =>
    obtain ⟨x', e'', hsteps, hend⟩ := ih
    exact ⟨x', e'', .head .loop hsteps, hend⟩

/-- A program that cannot return is aborted. -/
theorem Ensures.exists_abort {x : Prog S A} {e : E.State} (h : Ensures E body J R Q x e)
    (hreturn : ∀ a e', Q a e' → ¬Steps E body (x, e) (.ret a, e')) :
    ∃ x' e' r, Steps E body (x, e) (x', e') ∧ ((x' = .abort r ∧ R none r e') ∨
      ∃ p, x'.action.bind Action.peer = some p ∧ E.stopped e' p r ∧ R (some p) r e') := by
  obtain ⟨x', e', hsteps, hend⟩ := h.exists_end
  cases (h.steps hsteps).status with
  | returned a heq hQ =>
    subst heq
    exact absurd hsteps (hreturn a e' hQ)
  | aborted r heq hr => exact ⟨x', e', r, hsteps, .inl ⟨heq, hr⟩⟩
  | stopped p r hpeer hs hr => exact ⟨x', e', r, hsteps, .inr ⟨p, hpeer, hs, hr⟩⟩
  | running a ha _ next =>
    obtain ⟨s, hstep⟩ := next
    cases hend with
    | inl hnone =>
      rw [ha] at hnone
      cases hnone
    | inr hstopped =>
      obtain ⟨p, r, hpeer, hs⟩ := hstopped
      rw [ha] at hpeer
      exact absurd hs (hstep.not_stopped ha hpeer)

end Ensures

section Traces

inductive Event (S : Signature Msg Want) : Type
  | sent (p : S.Peer) (m : Msg)
  | received (p : S.Peer) (q : Want) (m : Msg)

def listen (S : Signature Msg Want) : Env S where
  State := List (Event S)
  send t p m t' := t' = t ++ [.sent p m]
  recv t p q m t' := t' = t ++ [.received p q m]
  poll t _ _ _ t' := t' = t
  stopped _ _ _ := False
  stopped_send _ _ _ h := h.elim
  stopped_recv _ _ _ h := h.elim
  stopped_poll _ _ _ h := h.elim

variable (E : Env S) in
def Env.traced : Env S where
  State := E.State × List (Event S)
  send e p m e' := E.send e.1 p m e'.1 ∧ e'.2 = e.2 ++ [.sent p m]
  recv e p q m e' := E.recv e.1 p q m e'.1 ∧ e'.2 = e.2 ++ [.received p q m]
  poll e p q b e' := E.poll e.1 p q b e'.1 ∧ e'.2 = e.2
  stopped e p r := E.stopped e.1 p r
  stopped_send e p r h m e' hs := E.stopped_send e.1 p r h m e'.1 hs.1
  stopped_recv e p r h q m e' hs := E.stopped_recv e.1 p r h q m e'.1 hs.1
  stopped_poll e p r h q b e' hs := E.stopped_poll e.1 p r h q b e'.1 hs.1

variable {E : Env S} {body : S.Loop → Prog S S.Result}

theorem Step.untraced {s s' : Prog S A × E.traced.State} (h : Step E.traced body s s') :
    Step E body (s.1, s.2.1) (s'.1, s'.2.1) := by
  cases h with
  | send h => exact .send h.1
  | recv h => exact .recv h.1
  | poll h => exact .poll h.1
  | loop => exact .loop

theorem Step.listened {s s' : Prog S A × E.traced.State} (h : Step E.traced body s s') :
    Step (listen S) body (s.1, s.2.2) (s'.1, s'.2.2) := by
  cases h with
  | send h => exact .send h.2
  | recv h => exact .recv h.2
  | poll h => exact .poll h.2
  | loop => exact .loop

theorem Steps.untraced {s s' : Prog S A × E.traced.State} (h : Steps E.traced body s s') :
    Steps E body (s.1, s.2.1) (s'.1, s'.2.1) := by
  induction h with
  | refl => exact .refl
  | tail _ hlast ih => exact ih.tail hlast.untraced

/-- What the trace records is what one who knows nothing of the peers could have seen. -/
theorem Steps.listened {s s' : Prog S A × E.traced.State} (h : Steps E.traced body s s') :
    Steps (listen S) body (s.1, s.2.2) (s'.1, s'.2.2) := by
  induction h with
  | refl => exact .refl
  | tail _ hlast ih => exact ih.tail hlast.listened

theorem Step.traced {s s' : Prog S A × E.State} (h : Step E body s s') (t : List (Event S)) :
    ∃ t', Step E.traced body (s.1, s.2, t) (s'.1, s'.2, t') := by
  cases h with
  | send h => exact ⟨_, .send ⟨h, rfl⟩⟩
  | recv h => exact ⟨_, .recv ⟨h, rfl⟩⟩
  | poll h => exact ⟨_, .poll ⟨h, rfl⟩⟩
  | loop => exact ⟨t, .loop⟩

theorem Steps.traced {s s' : Prog S A × E.State} (h : Steps E body s s')
    (t : List (Event S)) : ∃ t', Steps E.traced body (s.1, s.2, t) (s'.1, s'.2, t') := by
  induction h with
  | refl => exact ⟨t, .refl⟩
  | tail _ hlast ih =>
    obtain ⟨t', ih⟩ := ih
    obtain ⟨t'', hlast⟩ := hlast.traced t'
    exact ⟨t'', ih.tail hlast⟩

theorem acc_traced {x : Prog S A} {e : E.traced.State}
    (h : Acc (fun s s' => Step E body s' s) (x, e.1)) :
    Acc (fun s s' => Step E.traced body s' s) (x, e) := by
  have hinv := InvImage.accessible (fun s : Prog S A × E.traced.State => (s.1, s.2.1))
    (a := (x, e)) h
  exact Subrelation.accessible (fun hstep => hstep.untraced) hinv

end Traces

end DistributedEnclave.Programs
