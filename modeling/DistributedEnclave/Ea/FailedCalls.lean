import DistributedEnclave.Ea.Session

/-! What a call that fails has done to its session: it has marked its context only if it is a
validation that rejects the payload of an authenticator with nothing else against it. -/
namespace DistributedEnclave.Ea
open DistributedEnclave.Octets DistributedEnclave.Outcome

section
variable (lib : Library)

/-- A call that fails has failed before it marked its context, or after. -/
theorem Call.run_error {c : Call} {w w' : World} {e : Error}
    (h : exec (c.run lib) w = (.error e, w')) :
    w'.session = w.session ∨ ∃ x w₁, exec (c.prepare lib) w = (.ok x, w₁) ∧
      w₁.Fresh x.context ∧ exec x.finish (w₁.markUsed x.context) = (.error e, w') := by
  have hprep := c.prepare_session lib w.session w rfl
  rw [Call.run_cut, exec_bind] at h
  cases hrun : exec (c.prepare lib) w with
  | mk r w₁ =>
    rw [hrun] at h hprep
    cases r with
    | error e =>
      cases h
      exact .inl hprep
    | ok x =>
      dsimp only at h
      rw [exec_bind] at h
      cases hmark : exec (markContextUsed x.context) w₁ with
      | mk r w₂ =>
        rw [hmark] at h
        cases r with
        | error e =>
          cases h
          refine .inl (Eq.trans ?_ hprep)
          rw [(markContextUsed_error hmark).1]
        | ok u =>
          obtain ⟨hfresh, rfl⟩ := (exec_markContextUsed_ok ..).mp hmark
          exact .inr ⟨x, w₁, rfl, hfresh, h⟩

/-- The authenticator passes every check up to the session and then its payload is rejected. -/
def Call.RejectedLate : Call → World → Prop
  | .create .., _ => False
  | .validate st role req policy attPolicy authBytes, w =>
    w.session.isSome ∧ ∃ d cert cv fin chain leaf cmw, derive st role req = .ok d ∧
      ChecksEntries lib d req policy authBytes w cert cv fin (some cmw) chain leaf ∧
      ∀ p, ¬PayloadChecked lib st attPolicy cert.context leaf cmw p

theorem Call.rejectedLate_of_finish {c : Call} {w w₁ w' : World} {x : Deferred} {e : Error}
    (hprep : exec (c.prepare lib) w = (.ok x, w₁)) (hfresh : w₁.Fresh x.context)
    (hfin : exec x.finish (w₁.markUsed x.context) = (.error e, w')) :
    w'.session = w.session ∨ c.RejectedLate lib w := by
  have hsession := c.prepare_session lib w.session w rfl
  have hkeep := Call.finish_session lib hprep (w₁.markUsed x.context).session _ rfl
  rw [hprep] at hsession
  rw [hfin] at hkeep
  cases c with
  | create sg st role req policy identity exts =>
    rw [Call.prepare, exec_lift_bind_ok] at hprep
    obtain ⟨y, _, hprep⟩ := hprep
    cases hprep
    cases hfin
  | validate st role req policy attPolicy authBytes =>
    cases hs : w.session with
    | none =>
      rw [hs] at hsession
      rw [World.markUsed, show w₁.session = none from hsession] at hkeep
      exact .inl hkeep
    | some used =>
      rw [Call.prepare, exec_bind_ok] at hprep
      obtain ⟨p, w₀, hp, hprep⟩ := hprep
      cases hprep
      obtain ⟨d, hd, hprepares⟩ := (exec_prepareValidation_ok ..).mp hp
      refine .inr ⟨by rw [hs]; rfl, ?_⟩
      cases hprepares with
      | finished => cases hfin
      | zeroEntry => cases hfin
      | @full cert cv fin extracted chain leaf hchecks =>
        cases extracted with
        | none => cases hfin
        | some cmw =>
          have hbase := (ChecksEntries.freshIn lib).mpr ⟨hchecks, fresh_addChain.mp hfresh⟩
          refine ⟨d, cert, cv, fin, chain, leaf, cmw, hd, hbase, ?_⟩
          intro p hpayload
          have hok : exec (finishValidation lib st attPolicy (.full cert.context chain leaf
              (some cmw))) ((w.addChain chain).markUsed cert.context) = _ :=
            (exec_attachAttestation_ok lib st attPolicy cert.context chain leaf (some cmw) _ _
              _).mpr (.inr ⟨cmw, p, rfl, hpayload, rfl, rfl⟩)
          simp only [Pending.context, exec_bind, hok, exec_pure] at hfin
          cases hfin

theorem Call.RejectedLate.changes {c : Call} {w : World} (h : c.RejectedLate lib w) :
    ∃ e w', exec (c.run lib) w = (.error e, w') ∧ w'.session ≠ w.session := by
  cases c with
  | create => exact h.elim
  | validate st role req policy attPolicy authBytes =>
    obtain ⟨hsome, d, cert, cv, fin, chain, leaf, cmw, hd, hchecks, hrejected⟩ := h
    obtain ⟨used, hused⟩ := Option.isSome_iff_exists.mp hsome
    obtain ⟨hdetached, hfresh⟩ := (ChecksEntries.freshIn lib).mp hchecks
    have hprep := (exec_prepareValidation_ok lib st role req policy authBytes w _ _).mpr
      ⟨d, hd, .full hdetached⟩
    have hmark := (exec_markContextUsed_ok cert.context (w.addChain chain) _ ()).mpr
      ⟨fresh_addChain.mpr hfresh, rfl⟩
    have hkeep := finishValidation_preserves lib st
      (I := fun w' => w'.session = some (cert.context::used)) (fun _ _ _ h => h) attPolicy
      (.full cert.context chain leaf (some cmw)) ((w.addChain chain).markUsed cert.context)
      (by simp [World.markUsed, World.addChain, hused])
    cases hfin : exec (finishValidation lib st attPolicy
      (.full cert.context chain leaf (some cmw))) ((w.addChain chain).markUsed cert.context) with
    | mk r w' =>
      rw [hfin] at hkeep
      cases r with
      | ok res =>
        cases (exec_attachAttestation_ok lib st attPolicy cert.context chain leaf (some cmw) _ w'
          res).mp hfin with
        | inl hnone => cases hnone.1
        | inr hpayload =>
          obtain ⟨_, p, hcmw, hp, _⟩ := hpayload
          cases hcmw
          exact absurd hp (hrejected p)
      | error e =>
        refine ⟨e, w', ?_, ?_⟩
        · rw [Call.run, validateAuthenticator_cut]
          simp only [exec_bind, hprep, Pending.context, hmark, hfin]
        · rw [hkeep, hused]
          intro heq
          have hlen := congrArg List.length (Option.some.inj heq)
          simp at hlen

/-- A failed call leaves the set of used contexts as it was, unless it is a validation that
rejects the payload of an authenticator it has accepted otherwise. -/
theorem failed_call_keeps_session_iff (c : Call) (w : World) :
    (∀ e w', exec (c.run lib) w = (.error e, w') → w'.session = w.session) ↔
      ¬c.RejectedLate lib w := by
  constructor
  · intro h hlate
    obtain ⟨e, w', hrun, hne⟩ := hlate.changes
    exact hne (h e w' hrun)
  · intro hlate e w' hrun
    cases Call.run_error lib hrun with
    | inl hkeep => exact hkeep
    | inr hafter =>
      obtain ⟨x, w₁, hprep, hfresh, hfin⟩ := hafter
      exact (Call.rejectedLate_of_finish lib hprep hfresh hfin).resolve_right hlate

end

/-- Without a verifier for the evidence the call fails, and its context is marked. -/
theorem attestedCall_marks_and_fails :
    exec ((attestedCall none).run paddingLibrary) newSession =
        (.error .errEvidenceVerificationMissing, { newSession with session := some [[0x2A]] }) ∧
      ¬∀ e w', exec ((attestedCall none).run paddingLibrary) newSession = (.error e, w') →
        w'.session = newSession.session := by
  have hrun : exec ((attestedCall none).run paddingLibrary) newSession =
      (.error .errEvidenceVerificationMissing, { newSession with session := some [[0x2A]] }) := by
    decide +kernel
  refine ⟨hrun, ?_⟩
  intro h
  have := h _ _ hrun
  cases this

end DistributedEnclave.Ea
