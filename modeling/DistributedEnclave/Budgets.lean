import DistributedEnclave.Programs

/-! Programs that spend a budget: what they keep as long as some of it is left, and how many
messages they exchange. -/
namespace DistributedEnclave.Programs
variable {Msg Want : Type} {S : Signature Msg Want} {A B σ ι : Type}

section Affords
variable (E : Env S) (body : S.Loop → Prog S S.Result) (J : Action S → E.State → Prop)
  (I : Nat → (S.Peer → σ) → E.State → Prop)

/-- For `n` steps the code, begun where `I` holds with a budget of `k`, keeps `J`, and where it
returns, as much of the budget is left as `m` says. -/
def Affords (n k : Nat) (m : A → Nat) (x : Code S σ A) : Prop :=
  ∀ c e, I k c e → Maintains E body J (fun r e' => I (m r.1) r.2 e') n (x c) e

def Thrifty : Prop := ∀ k m c e, m ≤ k → I k c e → I m c e

variable {E body J I} {n k : Nat}

theorem Affords.pure (a : A) : Affords E body J I n k (fun _ => k) (Pure.pure a : Code S σ A) :=
  fun _ _ h => .ret h

theorem Affords.leaves (m : A → Nat) (a : A) :
    Affords E body J I n (m a) m (Pure.pure a : Code S σ A) := fun _ _ h => .ret h

theorem Affords.bind {l : A → Nat} {m : B → Nat} {x : Code S σ A} {f : A → Code S σ B}
    (hx : Affords E body J I n k l x) (hf : ∀ a, Affords E body J I n (l a) m (f a)) :
    Affords E body J I n k m (x >>= f) :=
  fun c e h => (hx c e h).code_bind fun a c' e' h' => hf a c' e' h'

theorem Affords.within (hI : Thrifty E I) {l : Nat} {m : A → Nat} {x : Code S σ A}
    (hx : Affords E body J I n k m x) (hle : k ≤ l) : Affords E body J I n l m x :=
  fun c e h => hx c e (hI l k c e hle h)

/-- Every round of a loop costs `s` at most, and the loop may stop early. -/
theorem Affords.untilFailure (hI : Thrifty E I) {s : Nat} {f : ι → Code S σ Int} {is : List ι}
    (h : ∀ i ∈ is, ∀ k, Affords E body J I n (k+s) (fun _ => k) (f i)) :
    Affords E body J I n (k+is.length*s) (fun _ => k) (Programs.untilFailure f is) := by
  induction is with
  | nil =>
    rw [List.length_nil, Nat.zero_mul]
    exact .pure 0
  | cons i is ih =>
    rw [List.length_cons, Nat.succ_mul, ← Nat.add_assoc]
    refine (h i List.mem_cons_self _).bind ?_
    intro status
    split
    · exact (Affords.pure status).within hI (Nat.le_add_right ..)
    · exact ih fun j hj => h j (List.mem_cons_of_mem i hj)

theorem Affords.forEach (hI : Thrifty E I) {s : Nat} {f : ι → Code S σ Unit} {is : List ι}
    (h : ∀ i ∈ is, ∀ k, Affords E body J I n (k+s) (fun _ => k) (f i)) :
    Affords E body J I n (k+is.length*s) (fun _ => k) (Programs.forEach f is) := by
  rw [forEach_eq_untilFailure]
  refine Affords.bind (Affords.untilFailure hI ?_) fun _ => .pure ()
  exact fun i hi k => (h i hi k).bind fun _ => .pure 0

/-- A loop that carries a value, on which it depends what is left for the rounds to come. -/
theorem Affords.foldlM {m : List ι → B → Nat} {f : B → ι → Code S σ B} {is : List ι}
    (h : ∀ i rest, (∃ before, is = before ++ i :: rest) → ∀ b,
      Affords E body J I n (m (i :: rest) b) (m rest) (f b i)) (b : B) :
    Affords E body J I n (m is b) (m []) (is.foldlM f b) := by
  induction is generalizing b with
  | nil => exact .leaves _ b
  | cons i is ih =>
    rw [List.foldlM_cons]
    refine (h i is ⟨[], rfl⟩ b).bind ?_
    intro b'
    refine ih ?_ b'
    intro j rest hj
    obtain ⟨before, rfl⟩ := hj
    exact h j rest ⟨i :: before, rfl⟩

/-- A loop that carries a value and of which every round costs `s` at most. -/
theorem Affords.fold {s : Nat} {f : B → ι → Code S σ B} {is : List ι}
    (h : ∀ i ∈ is, ∀ b k, Affords E body J I n (k+s) (fun _ => k) (f b i)) (b : B) :
    Affords E body J I n (k+is.length*s) (fun _ => k) (is.foldlM f b) := by
  have hround : ∀ i rest, (∃ before, is = before ++ i :: rest) → ∀ b,
      Affords E body J I n (k+(i :: rest).length*s) (fun _ => k+rest.length*s) (f b i) := by
    intro i rest hrest b
    obtain ⟨before, rfl⟩ := hrest
    rw [List.length_cons, Nat.succ_mul, ← Nat.add_assoc]
    exact h i (List.mem_append_right _ List.mem_cons_self) b _
  have hfold := Affords.foldlM (m := fun rest _ => k+rest.length*s) hround b
  simpa only [List.length_nil, Nat.zero_mul, Nat.add_zero] using hfold

end Affords

section Lengths

def Spare (limit : Nat) : Action S → List (Event S) → Prop
  | .send _ _, t | .recv _ _, t => t.length < limit
  | _, _ => True

variable {body : S.Loop → Prog S S.Result} {limit : Nat} {Q : A → List (Event S) → Prop}

theorem Spare.step {s s' : Prog S A × (listen S).State}
    (h : Maintains (listen S) body (Spare limit) Q 1 s.1 s.2) (hstep : Step (listen S) body s s')
    (hs : s.2.length ≤ limit) : s'.2.length ≤ limit := by
  cases hstep with
  | send ht =>
    obtain rfl := ht
    exact Nat.le_trans (Nat.le_of_eq List.length_append) h.1
  | recv ht =>
    obtain rfl := ht
    exact Nat.le_trans (Nat.le_of_eq List.length_append) h.1
  | poll ht =>
    obtain rfl := ht
    exact hs
  | loop => exact hs

/-- No run goes over the limit. -/
theorem Spare.steps {s s' : Prog S A × (listen S).State}
    (h : ∀ n, Maintains (listen S) body (Spare limit) Q n s.1 s.2) (hs : s.2.length ≤ limit)
    (hsteps : Steps (listen S) body s s') : s'.2.length ≤ limit := by
  induction hsteps with
  | refl => exact hs
  | tail hsteps hlast ih => exact Spare.step (Maintains.steps h hsteps 1) hlast ih

end Lengths

end DistributedEnclave.Programs
