import DistributedEnclave.Ea.Frames
import DistributedEnclave.Ea.RoundTrip
import DistributedEnclave.OneShot

/-! Sessions. Every call on a session is cut at its one access to the set of used contexts,
so any interleaving of calls is a run of calls that each claim a context once. -/
namespace DistributedEnclave.Ea
open DistributedEnclave.Octets DistributedEnclave.Outcome DistributedEnclave.OneShot

inductive Call where
  | create (sg : Producer) (st : ConnectionState) (role : Role)
    (req : Option AuthenticatorRequest) (policy : Option SpontaneousAuthenticatorPolicy)
    (identity : Identity) (leafEntryExtensions : List Extension)
  | validate (st : ConnectionState) (role : Role) (req : Option AuthenticatorRequest)
    (policy : Option SpontaneousAuthenticatorPolicy) (attPolicy : Option VerificationPolicy)
    (authBytes : Bytes)

inductive Answer where
  | authenticator (authBytes : Bytes)
  | validation (res : ValidationResult)
  deriving DecidableEq, Repr

structure Deferred where
  context : Bytes
  finish : Run Answer

section
variable (lib : Library)

def Call.run : Call → Run Answer
  | .create sg st role req policy identity exts =>
    createAuthenticator lib sg st role req policy identity exts >>= fun authBytes =>
      pure (.authenticator authBytes)
  | .validate st role req policy attPolicy authBytes =>
    validateAuthenticator lib st role req policy attPolicy authBytes >>= fun res =>
      pure (.validation res)

def Call.prepare : Call → Run Deferred
  | .create sg st role req policy identity exts => do
    let (ctx, authBytes) ← liftM (createBytes lib sg st role req policy identity exts)
    pure ⟨ctx, pure (.authenticator authBytes)⟩
  | .validate st role req policy attPolicy authBytes => do
    let p ← prepareValidation lib st role req policy authBytes
    pure ⟨p.context, do
      let res ← finishValidation lib st attPolicy p
      pure (.validation res)⟩

theorem Call.run_cut (c : Call) :
    c.run lib = c.prepare lib >>= fun x => markContextUsed x.context >>= fun _ => x.finish := by
  cases c with
  | create =>
    simp only [Call.run, Call.prepare, createAuthenticator, bind_assoc, pure_bind]
  | validate =>
    simp only [Call.run, Call.prepare, validateAuthenticator_cut, bind_assoc, pure_bind]

/-- The context a call is about: that of its request, else the one it draws or reads. -/
def Call.HasContext : Call → Bytes → Prop
  | .create sg _ _ req _ _ _, ctx => ∃ r, creatorParts sg req = .ok r ∧ ctx = r.context
  | .validate _ _ (some r) _ _ _, ctx => ctx = r.context
  | .validate _ _ none _ _ authBytes, ctx =>
    ∃ cert cv fin, IsFull authBytes cert cv fin ∧ ctx = cert.context

theorem Call.HasContext.unique {c : Call} {ctx ctx' : Bytes} (h : c.HasContext ctx)
    (h' : c.HasContext ctx') : ctx = ctx' := by
  cases c with
  | create sg st role req policy identity exts =>
    obtain ⟨r, hr, rfl⟩ := h
    obtain ⟨r', hr', rfl⟩ := h'
    rw [hr] at hr'
    cases hr'
    rfl
  | validate st role req policy attPolicy authBytes =>
    cases req with
    | some r => exact Eq.trans h (Eq.symm h')
    | none =>
      obtain ⟨cert, cv, fin, hfull, rfl⟩ := h
      obtain ⟨cert', cv', fin', hfull', rfl⟩ := h'
      rw [(hfull.unique hfull').1]

def Answer.Carries (a : Answer) (ctx : Bytes) : Prop :=
  match a with
  | .authenticator authBytes => (∃ fin, IsFinishedOnly authBytes fin) ∨
      ∃ cert cv fin, IsFull authBytes cert cv fin ∧ cert.context = ctx
  | .validation res => res.context = ctx

theorem Prepares.hasContext {st : ConnectionState} {role : Role}
    {req : Option AuthenticatorRequest} {policy : Option SpontaneousAuthenticatorPolicy}
    {attPolicy : Option VerificationPolicy} {authBytes : Bytes} {d : Derived} {w w' : World}
    {p : Pending} (hd : derive st role req = .ok d)
    (h : Prepares lib d req policy authBytes w p w') :
    (Call.validate st role req policy attPolicy authBytes).HasContext p.context := by
  have hrequest := (derive_ok.mp hd).2.2
  cases req with
  | none =>
    cases h with
    | finished h => exact absurd h.requested (by simp)
    | zeroEntry h => exact ⟨_, _, _, h.isFull, rfl⟩
    | full h => exact ⟨_, _, _, h.isFull, rfl⟩
  | some r =>
    have hctx : d.request.context = r.context := (requestParts_some hrequest).2.2.1
    cases h with
    | finished h => exact hctx
    | zeroEntry h => exact (h.context rfl).trans hctx
    | full h => exact (h.context rfl).trans hctx

theorem finishValidation_context {st : ConnectionState} {attPolicy : Option VerificationPolicy}
    {p : Pending} {w w' : World} {res : ValidationResult}
    (h : exec (finishValidation lib st attPolicy p) w = (.ok res, w')) :
    res.context = p.context := by
  cases p with
  | empty context =>
    cases h
    rfl
  | full context chain leaf extracted =>
    cases (exec_attachAttestation_ok ..).mp h with
    | inl h => rw [h.2.1]; rfl
    | inr h =>
      obtain ⟨cmw, p, _, _, rfl, _⟩ := h
      rfl

theorem CreatedFull.carries {sg : Producer} {d : Derived} {req : Option AuthenticatorRequest}
    {policy : Option SpontaneousAuthenticatorPolicy} {identity : Identity}
    {exts : List Extension} {authBytes : Bytes} {priv : PrivateKey} {cert : CertificateMessage}
    {cv : CertificateVerifyMessage}
    (h : CreatedFull lib sg d req policy identity exts authBytes priv cert cv) :
    (Answer.authenticator authBytes).Carries d.request.context := by
  refine .inr ⟨cert, cv, _, h.isFull, ?_⟩
  rw [h.cert_eq]

/-- Before the session a call settles its context, after it the answer carries this one. -/
theorem Call.prepare_ok {c : Call} {w w' : World} {x : Deferred}
    (h : exec (c.prepare lib) w = (.ok x, w')) :
    c.HasContext x.context ∧ ∀ a w₁ w₂, exec x.finish w₁ = (.ok a, w₂) → a.Carries x.context := by
  cases c with
  | create sg st role req policy identity exts =>
    rw [Call.prepare, exec_lift_bind_ok] at h
    obtain ⟨⟨ctx, authBytes⟩, hcreate, h⟩ := h
    cases h
    obtain ⟨_, _, d, hd, rfl, hform⟩ := (createBytes_ok ..).mp hcreate
    refine ⟨⟨d.request, hd.request, rfl⟩, ?_⟩
    intro a w₁ w₂ hfinish
    cases hfinish
    cases hform with
    | inl hempty => exact .inl ⟨_, hempty.isFinished⟩
    | inr hfull =>
      obtain ⟨priv, cert, cv, hfull⟩ := hfull
      exact hfull.carries
  | validate st role req policy attPolicy authBytes =>
    rw [Call.prepare, exec_bind_ok] at h
    obtain ⟨p, w₀, hp, h⟩ := h
    cases h
    obtain ⟨d, hd, hprepares⟩ := (exec_prepareValidation_ok ..).mp hp
    refine ⟨hprepares.hasContext lib hd, ?_⟩
    intro a w₁ w₂ hfinish
    rw [exec_bind_ok] at hfinish
    obtain ⟨res, w₃, hres, hfinish⟩ := hfinish
    cases hfinish
    exact finishValidation_context lib hres

/-- Before the session a call leaves the set of used contexts alone. -/
theorem Call.prepare_session (c : Call) (session : Option (List Bytes)) :
    Preserves (fun w => w.session = session) (c.prepare lib) := by
  cases c with
  | create => exact .bind (.lift _) fun x => .pure _
  | validate st role req policy attPolicy authBytes =>
    refine .bind (prepareValidation_preserves lib st ?_ role req policy authBytes) fun p => .pure _
    exact fun w chain h => h

theorem Call.finish_session {c : Call} {w w' : World} {x : Deferred}
    (h : exec (c.prepare lib) w = (.ok x, w')) (session : Option (List Bytes)) :
    Preserves (fun w => w.session = session) x.finish := by
  cases c with
  | create sg st role req policy identity exts =>
    rw [Call.prepare, exec_lift_bind_ok] at h
    obtain ⟨y, _, h⟩ := h
    cases h
    exact .pure _
  | validate st role req policy attPolicy authBytes =>
    rw [Call.prepare, exec_bind_ok] at h
    obtain ⟨p, w₀, _, h⟩ := h
    cases h
    refine .bind (finishValidation_preserves lib st ?_ attPolicy p) fun res => .pure _
    exact fun w ev rs hw => hw

theorem markContextUsed_error {ctx : Bytes} {w w' : World} {e : Error}
    (h : exec (markContextUsed ctx) w = (.error e, w')) : w' = w ∧ e = .errContextReuse ∧
      ∃ used, w.session = some used ∧ ctx ∈ used := by
  rw [markContextUsed, exec_bind, exec_get] at h
  cases hs : w.session with
  | none =>
    simp only [hs] at h
    cases h
  | some used =>
    simp only [hs] at h
    by_cases hc : ctx ∈ used
    · rw [if_pos hc] at h
      cases h
      exact ⟨rfl, rfl, used, rfl, hc⟩
    · rw [if_neg hc] at h
      cases h

section
variable {ι : Type} [DecidableEq ι] (calls : ι → Call)

structure Joint (ι : Type) where
  world : World
  stage : ι → Stage Deferred Error Answer

def Joint.put (s : Joint ι) (w : World) (i : ι) (x : Stage Deferred Error Answer) : Joint ι :=
  ⟨w, Function.update s.stage i x⟩

/-- One call runs up to the session, through `markContextUsed`, which holds the mutex, or from
there to its end. Only the session is shared: of the rest of its world nothing is assumed. -/
inductive CallStep : Joint ι → Joint ι → Prop
  | prepare {s i w x w'} : s.stage i = .ready → w.session = s.world.session →
      exec ((calls i).prepare lib) w = (.ok x, w') → CallStep s (s.put w' i (.prepared x))
  | fail {s i w e w'} : s.stage i = .ready → w.session = s.world.session →
      exec ((calls i).prepare lib) w = (.error e, w') → CallStep s (s.put w' i (.failed e))
  | mark {s i x w u w'} : s.stage i = .prepared x → w.session = s.world.session →
      exec (markContextUsed x.context) w = (.ok u, w') → CallStep s (s.put w' i (.claimed x))
  | refuse {s i x w e w'} : s.stage i = .prepared x → w.session = s.world.session →
      exec (markContextUsed x.context) w = (.error e, w') → CallStep s (s.put w' i (.failed e))
  | finish {s i x w r w'} : s.stage i = .claimed x → w.session = s.world.session →
      exec x.finish w = (r, w') → CallStep s (s.put w' i (.returned x r))

def Joint.Start (s : Joint ι) : Prop := s.world.session.isSome ∧ ∀ i, s.stage i = .ready

abbrev Joint.Run (s : Joint ι) : Prop := Transition.Reachable Joint.Start (CallStep lib calls) s

def Call.Prepared (c : Call) : Stage Deferred Error Answer → Prop
  | .prepared x | .claimed x => ∃ w w', exec (c.prepare lib) w = (.ok x, w')
  | _ => True

structure Joint.Inv (s : Joint ι) : Prop where
  session : s.world.session.isSome
  prepared : ∀ i, (calls i).Prepared lib (s.stage i)

variable {calls}

theorem Joint.Inv.put {s : Joint ι} (hs : s.Inv lib calls) {w : World} {i : ι}
    {x : Stage Deferred Error Answer} (hsession : w.session.isSome)
    (hx : (calls i).Prepared lib x) : (s.put w i x).Inv lib calls := by
  refine ⟨hsession, ?_⟩
  intro j
  by_cases hj : j = i
  · subst hj
    simpa [Joint.put] using hx
  · simpa [Joint.put, hj] using hs.prepared j

omit [DecidableEq ι] in
theorem Joint.Inv.prepared_of {s : Joint ι} (hs : s.Inv lib calls) {i : ι} {x : Deferred}
    (h : s.stage i = .prepared x ∨ s.stage i = .claimed x) :
    ∃ w w', exec ((calls i).prepare lib) w = (.ok x, w') := by
  have hx := hs.prepared i
  cases h with
  | inl h => rwa [h] at hx
  | inr h => rwa [h] at hx

theorem Joint.Inv.step {s s' : Joint ι} (hs : s.Inv lib calls) (h : CallStep lib calls s s') :
    s'.Inv lib calls := by
  cases h with
  | @prepare i w x w' hstage hw hrun =>
    have hkeep := (calls i).prepare_session lib s.world.session w hw
    rw [hrun] at hkeep
    exact hs.put lib (hkeep ▸ hs.session) ⟨w, w', hrun⟩
  | @fail i w e w' hstage hw hrun =>
    have hkeep := (calls i).prepare_session lib s.world.session w hw
    rw [hrun] at hkeep
    exact hs.put lib (hkeep ▸ hs.session) trivial
  | mark hstage hw hrun =>
    obtain ⟨_, rfl⟩ := (exec_markContextUsed_ok ..).mp hrun
    refine hs.put lib ?_ (hs.prepared_of lib (.inl hstage))
    rw [World.markUsed, hw, Option.isSome_map]
    exact hs.session
  | refuse hstage hw hrun =>
    rw [(markContextUsed_error hrun).1]
    exact hs.put lib (hw ▸ hs.session) trivial
  | finish hstage hw hrun =>
    obtain ⟨_, _, hprep⟩ := hs.prepared_of lib (.inr hstage)
    have hkeep := Call.finish_session lib hprep s.world.session _ hw
    rw [hrun] at hkeep
    exact hs.put lib (hkeep ▸ hs.session) trivial

theorem Joint.Run.inv {s : Joint ι} (h : s.Run lib calls) : s.Inv lib calls := by
  refine Transition.Reachable.invariant (I := Joint.Inv lib calls) ?_
    (fun s s' hs hstep => hs.step lib hstep) h
  intro s hs
  refine ⟨hs.1, ?_⟩
  intro i
  rw [hs.2 i]
  exact trivial

def sessionProtocol (calls : ι → Call) : Protocol ι Bytes Deferred Error Answer where
  key := Deferred.context
  prepares i r := ∃ w, (exec ((calls i).prepare lib) w).1 = r
  finishes _ x r := ∃ w, (exec x.finish w).1 = r
  taken := .errContextReuse

def Joint.claims (s : Joint ι) : State ι Bytes Deferred Error Answer :=
  ⟨s.world.session.getD [], s.stage⟩

theorem Joint.claims_put (s : Joint ι) {w : World} (h : w.session = s.world.session) (i : ι)
    (x : Stage Deferred Error Answer) : (s.put w i x).claims = s.claims.setStage i x := by
  simp only [Joint.claims, Joint.put, State.setStage, h]

/-- `markContextUsed` is the atomic step that claims a context or is refused it. -/
theorem CallStep.claims {s s' : Joint ι} (hs : s.Inv lib calls) (h : CallStep lib calls s s') :
    Step (sessionProtocol lib calls) s.claims s'.claims := by
  obtain ⟨used, hused⟩ := Option.isSome_iff_exists.mp hs.session
  have hclaims : s.claims.used = used := by simp only [Joint.claims, hused, Option.getD_some]
  cases h with
  | @prepare i w x w' hstage hw hrun =>
    have hkeep := (calls i).prepare_session lib s.world.session w hw
    rw [hrun] at hkeep
    rw [s.claims_put hkeep]
    exact .prepare hstage ⟨w, by rw [hrun]⟩
  | @fail i w e w' hstage hw hrun =>
    have hkeep := (calls i).prepare_session lib s.world.session w hw
    rw [hrun] at hkeep
    rw [s.claims_put hkeep]
    exact .fail hstage ⟨w, by rw [hrun]⟩
  | @mark i x w u w' hstage hw hrun =>
    obtain ⟨hfresh, rfl⟩ := (exec_markContextUsed_ok ..).mp hrun
    have hfree : x.context ∉ s.claims.used := hclaims ▸ hfresh used (hw.trans hused)
    have hstep : Step (sessionProtocol lib calls) s.claims
        { s.claims.setStage i (.claimed x) with used := x.context::s.claims.used } :=
      .claim hstage hfree
    have hmarked : (s.put (w.markUsed x.context) i (.claimed x)).claims =
        { s.claims.setStage i (.claimed x) with used := x.context::s.claims.used } := by
      rw [hclaims]
      simp only [Joint.claims, Joint.put, World.markUsed, State.setStage, hw, hused,
        Option.map_some, Option.getD_some]
    rwa [hmarked]
  | @refuse i x w e w' hstage hw hrun =>
    obtain ⟨rfl, rfl, used', hsession, htaken⟩ := markContextUsed_error hrun
    cases hused.symm.trans (hw.symm.trans hsession)
    rw [s.claims_put hw]
    exact .refuse hstage (hclaims.symm ▸ htaken)
  | @finish i x w r w' hstage hw hrun =>
    obtain ⟨_, _, hprep⟩ := hs.prepared_of lib (.inr hstage)
    have hkeep := Call.finish_session lib hprep s.world.session w hw
    rw [hrun] at hkeep
    rw [s.claims_put hkeep]
    exact .finish hstage ⟨w, by rw [hrun]⟩

theorem Joint.Run.claims {s : Joint ι} (h : s.Run lib calls) :
    OneShot.Run (sessionProtocol lib calls) s.claims :=
  Transition.Reachable.refine Joint.claims (fun _ hs => Joint.Run.inv lib hs) (fun _ hs => hs.2)
    (fun _ _ hs hstep => .inr (hstep.claims lib hs)) h

/-- A whole call is one run of these steps, and other calls stay where they are. -/
theorem Call.steps (calls : ι → Call) {s : Joint ι} {i : ι} (hready : s.stage i = .ready)
    {w w' : World} (hw : w.session = s.world.session) {r : Except Error Answer}
    (h : exec ((calls i).run lib) w = (r, w')) :
    ∃ s', Relation.ReflTransGen (CallStep lib calls) s s' ∧ (s'.stage i).result = some r ∧
      s'.world = w' ∧ ∀ j, j ≠ i → s'.stage j = s.stage j := by
  have hput : ∀ (s : Joint ι) (w : World) x, (s.put w i x).stage i = x :=
    fun s w x => Function.update_self ..
  have hne : ∀ (s : Joint ι) (w : World) x j, j ≠ i → (s.put w i x).stage j = s.stage j :=
    fun s w x j hj => Function.update_of_ne hj ..
  rw [Call.run_cut, exec_bind] at h
  cases hrun : exec ((calls i).prepare lib) w with
  | mk r₁ w₁ =>
    rw [hrun] at h
    cases r₁ with
    | error e =>
      cases h
      exact ⟨_, .single (.fail hready hw hrun), by rw [hput]; rfl, rfl, hne _ _ _⟩
    | ok x =>
      have hprep : CallStep lib calls s (s.put w₁ i (.prepared x)) := .prepare hready hw hrun
      dsimp only at h
      rw [exec_bind] at h
      cases hmark : exec (markContextUsed x.context) w₁ with
      | mk r₂ w₂ =>
        rw [hmark] at h
        cases r₂ with
        | error e =>
          cases h
          refine ⟨_, .tail (.single hprep) (.refuse (hput ..) rfl hmark), ?_, rfl, ?_⟩
          · rw [hput]
            rfl
          · intro j hj
            rw [hne _ _ _ j hj, hne _ _ _ j hj]
        | ok u =>
          have hclaim : CallStep lib calls (s.put w₁ i (.prepared x))
              ((s.put w₁ i (.prepared x)).put w₂ i (.claimed x)) := .mark (hput ..) rfl hmark
          refine ⟨_, .tail (.tail (.single hprep) hclaim) (.finish (hput ..) rfl h), ?_, rfl, ?_⟩
          · rw [hput]
            rfl
          · intro j hj
            rw [hne _ _ _ j hj, hne _ _ _ j hj, hne _ _ _ j hj]

theorem returned_carries {s : Joint ι} (hrun : s.Run lib calls) {i : ι} {x : Deferred}
    {a : Answer} (h : s.stage i = .returned x (.ok a)) :
    (calls i).HasContext x.context ∧ a.Carries x.context := by
  obtain ⟨⟨w, hprep⟩, w₁, hfin⟩ := (hrun.claims lib).returned h
  obtain ⟨hctx, hcarries⟩ := Call.prepare_ok lib (Prod.ext hprep rfl :
    exec ((calls i).prepare lib) w = (.ok x, (exec ((calls i).prepare lib) w).2))
  exact ⟨hctx, hcarries a w₁ _ (Prod.ext hfin rfl)⟩

theorem result_ok {x : Stage Deferred Error Answer} {a : Answer} (h : x.result = some (.ok a)) :
    ∃ d, x = .returned d (.ok a) := by
  cases x with
  | returned d r =>
    cases h
    exact ⟨d, rfl⟩
  | _ => cases h

theorem Joint.Run.owner_unique {s : Joint ι} (hrun : s.Run lib calls) {i j : ι} {ctx : Bytes}
    {a b : Answer} (hi : (calls i).HasContext ctx) (hj : (calls j).HasContext ctx)
    (ha : (s.stage i).result = some (.ok a)) (hb : (s.stage j).result = some (.ok b)) :
    i = j := by
  obtain ⟨x, hx⟩ := result_ok ha
  obtain ⟨y, hy⟩ := result_ok hb
  have hxc := (returned_carries lib hrun hx).1.unique hi
  have hyc := (returned_carries lib hrun hy).1.unique hj
  exact (hrun.claims lib).unique hx hy (hxc.trans hyc.symm)

theorem Joint.Run.marked {s : Joint ι} (hrun : s.Run lib calls) {i : ι} {a : Answer}
    (h : (s.stage i).result = some (.ok a)) :
    ∃ ctx used, (calls i).HasContext ctx ∧ a.Carries ctx ∧ s.world.session = some used ∧
      ctx ∈ used := by
  obtain ⟨x, hx⟩ := result_ok h
  obtain ⟨used, hused⟩ := Option.isSome_iff_exists.mp (hrun.inv lib).session
  obtain ⟨hctx, hcarries⟩ := returned_carries lib hrun hx
  refine ⟨x.context, used, hctx, hcarries, hused, ?_⟩
  have hmem := (hrun.claims lib).inv.used i x.context (by
    rw [show s.claims.stage i = _ from hx]
    rfl)
  rwa [Joint.claims, hused] at hmem

/-- Every call is cut at `markContextUsed`, and a call that nothing disturbs is a run of the
three parts. However the parts of the calls on a session interleave, each successful call owns
its context: no other call about that context succeeds. -/
theorem context_used_once (calls : ι → Call) {s : Joint ι} (hrun : s.Run lib calls) :
    (∀ i, (calls i).run lib = (calls i).prepare lib >>= fun x =>
      markContextUsed x.context >>= fun _ => x.finish) ∧
    (∀ i w r w', s.stage i = .ready → w.session = s.world.session →
      exec ((calls i).run lib) w = (r, w') →
        ∃ s', Joint.Run lib calls s' ∧ (s'.stage i).result = some r ∧ s'.world = w' ∧
          ∀ j, j ≠ i → s'.stage j = s.stage j) ∧
    (∀ i a, (s.stage i).result = some (.ok a) → ∃ ctx used, (calls i).HasContext ctx ∧
      a.Carries ctx ∧ s.world.session = some used ∧ ctx ∈ used) ∧
    (∀ i j ctx a b, (calls i).HasContext ctx → (calls j).HasContext ctx →
      (s.stage i).result = some (.ok a) → (s.stage j).result = some (.ok b) → i = j) ∧
    ∀ i j ctx a r, i ≠ j → (calls i).HasContext ctx → (calls j).HasContext ctx →
      (s.stage i).result = some (.ok a) → (s.stage j).result = some r → ∃ e, r = .error e := by
  refine ⟨fun i => (calls i).run_cut lib, ?_, fun i a h => hrun.marked lib h,
    fun i j ctx a b hi hj ha hb => hrun.owner_unique lib hi hj ha hb, ?_⟩
  · intro i w r w' hready hw h
    obtain ⟨s', hsteps, hrest⟩ := Call.steps lib calls hready hw h
    obtain ⟨s₀, hstart, hpast⟩ := hrun
    exact ⟨s', ⟨s₀, hstart, hpast.trans hsteps⟩, hrest⟩
  · intro i j ctx a r hne hi hj ha hr
    cases r with
    | error e => exact ⟨e, rfl⟩
    | ok b => exact absurd (hrun.owner_unique lib hi hj ha hr) hne

end

end

def attestedCall (attPolicy : Option VerificationPolicy) : Call :=
  .validate sampleState .client (some sampleRequest) none attPolicy attestedBytes

def newSession : World := ⟨some [], none, [], []⟩

/-- Two calls validate the same bytes on one session, both are done with everything else when
the first one marks the context: the second one fails. -/
theorem attestedCall_once :
    ∃ s : Joint Bool, s.Run paddingLibrary (fun _ => attestedCall (some acceptingPolicy)) ∧
      (∃ a, (s.stage true).result = some (.ok a)) ∧
      ∃ e, (s.stage false).result = some (.error e) := by
  let calls : Bool → Call := fun _ => attestedCall (some acceptingPolicy)
  have hfirst : ∃ a, (exec ((calls true).run paddingLibrary) newSession).1 = .ok a :=
    ⟨.validation ⟨[0x2A], [sampleLeaf], [0xE1, 0xE2], some attestedPayload, false⟩,
      by decide +kernel⟩
  obtain ⟨a, ha⟩ := hfirst
  have hrun : exec ((calls true).run paddingLibrary) newSession = (.ok a, _) := Prod.ext ha rfl
  rw [Call.run_cut, exec_bind_ok] at hrun
  obtain ⟨x, w₁, hprep, hrun⟩ := hrun
  rw [exec_bind_ok] at hrun
  obtain ⟨u, w₂, hmark, hfin⟩ := hrun
  have hsession : w₁.session = some [] := by
    have hkeep := (calls true).prepare_session paddingLibrary (some []) newSession rfl
    rwa [hprep] at hkeep
  have hmarked : w₂.session = some [x.context] := by
    obtain ⟨_, rfl⟩ := (exec_markContextUsed_ok ..).mp hmark
    simp only [World.markUsed, hsession, Option.map_some]
  let s₀ : Joint Bool := ⟨newSession, fun _ => .ready⟩
  let s₁ := s₀.put w₁ true (.prepared x)
  let s₂ := s₁.put w₁ false (.prepared x)
  let s₃ := s₂.put w₂ true (.claimed x)
  let s₄ := s₃.put w₂ false (.failed .errContextReuse)
  have hsteps : Relation.ReflTransGen (CallStep paddingLibrary calls) s₀ s₄ := by
    refine .tail (.tail (.tail (.single ?_ : Relation.ReflTransGen _ s₀ s₁)
      (?_ : CallStep _ _ s₁ s₂)) (?_ : CallStep _ _ s₂ s₃)) ?_
    · exact .prepare rfl rfl hprep
    · exact .prepare rfl hsession.symm hprep
    · exact .mark rfl rfl hmark
    · refine .refuse rfl (w := w₂) rfl ?_
      rw [markContextUsed, exec_bind, exec_get]
      simp [hmarked]
  have hreach : Joint.Run paddingLibrary calls (s₄.put _ true (.returned x (.ok a))) :=
    ⟨s₀, ⟨rfl, fun _ => rfl⟩, hsteps.tail (.finish rfl rfl hfin)⟩
  obtain ⟨e, he⟩ := (context_used_once paddingLibrary calls hreach).2.2.2.2 true false [0x2A] a
    (.error .errContextReuse) (by decide) rfl rfl rfl rfl
  exact ⟨_, hreach, ⟨a, rfl⟩, e, by rw [← he]; rfl⟩

end DistributedEnclave.Ea
