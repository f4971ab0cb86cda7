import DistributedEnclave.Ea.Acceptance

/-! What a validation leaves alone in the world and what it depends on there. Before the
session it only adds certificates to a shared pool, after it it only logs verifier calls. -/
namespace DistributedEnclave.Ea
open DistributedEnclave.Octets DistributedEnclave.Outcome

theorem addChain_eq (opts : VerifyOptions) (chain : List Certificate) :
    { opts with intermediates := opts.intermediates.map fun _ =>
        chain.tail.foldl addCert (opts.intermediates.getD []) } = opts.shareChain chain := by
  rw [VerifyOptions.shareChain]
  cases opts.intermediates <;> rfl

section
variable (lib : Library) (st : ConnectionState) {R : World → World → Prop}

def Logs (f : World → World) : Prop :=
  ∀ w, ∃ ev rs, f w = { w with evidenceCalls := ev, resultsCalls := rs }

section
variable (hlog : ∀ f, Logs f → ∀ w w', R w w' → R (f w) (f w'))
include hlog

theorem verifyEvidenceStatement_respects (ctx : Bytes) (leaf : Certificate) (payload : Payload)
    (policy : VerificationPolicy) :
    Respects R (verifyEvidenceStatement lib ctx leaf payload policy) := by
  rw [verifyEvidenceStatement]
  cases policy.evidenceVerifier with
  | none => exact .ite (.throw _) (.pure _)
  | some verify =>
    refine .ite (.bind (.lift _) fun rd => .bind ?_ fun _ => .pure _) (.pure _)
    exact .bind (.modify (hlog _ fun w => ⟨_, w.resultsCalls, rfl⟩)) fun _ => .lift _

theorem verifyResultsStatement_respects (payload : Payload) (policy : VerificationPolicy) :
    Respects R (verifyResultsStatement payload policy) := by
  rw [verifyResultsStatement]
  cases policy.resultsVerifier with
  | none => exact .ite (.throw _) (.pure _)
  | some verify =>
    refine .ite (.bind ?_ fun _ => .pure _) (.pure _)
    exact .bind (.modify (hlog _ fun w => ⟨w.evidenceCalls, _, rfl⟩)) fun _ => .lift _

theorem finishValidation_respects (attPolicy : Option VerificationPolicy) (p : Pending) :
    Respects R (finishValidation lib st attPolicy p) := by
  cases p with
  | empty context => exact .pure _
  | full context chain leaf extracted =>
    cases extracted with
    | none => exact .pure _
    | some cmw =>
      refine .bind (.lift _) fun parsed => .bind ?_ fun _ => .pure _
      exact .bind (.lift _) fun _ =>
        .bind (verifyEvidenceStatement_respects lib hlog context leaf parsed _) fun _ =>
          .bind (verifyResultsStatement_respects hlog parsed _) fun _ =>
            .bind (.lift _) fun _ => .pure _

end

section
variable (hopts : ∀ w w', R w w' → w.verifyOpts = w'.verifyOpts)
  (hadd : ∀ w w' chain, R w w' → R (World.addChain w chain) (World.addChain w' chain))
include hopts hadd

theorem verifyChain_respects (chain : List Certificate) (leaf : Certificate) :
    Respects R (verifyChain lib chain leaf) := by
  intro w w' h
  have hsame := hopts w w' h
  rw [verifyChain, exec_bind, exec_bind, exec_get, exec_get]
  cases ho : w.verifyOpts with
  | none =>
    rw [ho] at hsame
    simpa only [ho, ← hsame, exec_pure, true_and] using h
  | some opts =>
    have hadded := hadd w w' chain h
    rw [ho] at hsame
    rw [World.addChain, World.addChain, ho, ← hsame, Option.map_some] at hadded
    simpa only [ho, ← hsame, exec_bind, exec_modify, exec_lift, addChain_eq, true_and] using hadded

theorem prepareValidation_respects (role : Role) (req : Option AuthenticatorRequest)
    (policy : Option SpontaneousAuthenticatorPolicy) (authBytes : Bytes) :
    Respects R (prepareValidation lib st role req policy authBytes) := by
  refine .bind (.lift _) fun d => .bind (.lift _) fun z => ?_
  refine .ite (.lift _) (.ite (.throw _) (.bind (.lift _) fun m => ?_))
  refine .ite (.throw _) (.ite (.pure _) ?_)
  exact .bind (.lift _) fun _ => .bind (.lift _) fun x =>
    .bind (verifyChain_respects lib hopts hadd x.1 x.2) fun _ => .pure _

end

section
variable {I : World → Prop}

theorem prepareValidation_preserves (hadd : ∀ w chain, I w → I (World.addChain w chain))
    (role : Role) (req : Option AuthenticatorRequest)
    (policy : Option SpontaneousAuthenticatorPolicy) (authBytes : Bytes) :
    Preserves I (prepareValidation lib st role req policy authBytes) := by
  refine preserves_iff.mpr (prepareValidation_respects lib st ?_ ?_ role req policy authBytes)
  · exact fun w w' h => congrArg World.verifyOpts h.1
  · exact fun w w' chain h => ⟨congrArg (World.addChain · chain) h.1, hadd w chain h.2⟩

theorem finishValidation_preserves
    (hlog : ∀ w ev rs, I w → I { w with evidenceCalls := ev, resultsCalls := rs })
    (attPolicy : Option VerificationPolicy) (p : Pending) :
    Preserves I (finishValidation lib st attPolicy p) := by
  refine preserves_iff.mpr (finishValidation_respects lib st ?_ attPolicy p)
  intro f hf w w' h
  obtain ⟨ev, rs, hw⟩ := hf w
  exact ⟨congrArg f h.1, hw ▸ hlog w ev rs h.2⟩

end

def SameInputs (w w' : World) : Prop := w.session = w'.session ∧ w.verifyOpts = w'.verifyOpts

theorem SameInputs.addChain {w w' : World} (h : SameInputs w w') (chain : List Certificate) :
    SameInputs (w.addChain chain) (w'.addChain chain) := by
  refine ⟨h.1, ?_⟩
  rw [World.addChain, World.addChain, h.2]

theorem SameInputs.logs {w w' : World} (h : SameInputs w w') {f : World → World} (hf : Logs f) :
    SameInputs (f w) (f w') := by
  obtain ⟨ev, rs, hw⟩ := hf w
  obtain ⟨ev', rs', hw'⟩ := hf w'
  rw [hw, hw']
  exact h

theorem markContextUsed_respects (ctx : Bytes) : Respects SameInputs (markContextUsed ctx) := by
  intro w w' h
  obtain ⟨hsession, hopts⟩ := h
  rw [markContextUsed, exec_bind, exec_bind, exec_get, exec_get]
  cases hs : w.session with
  | none =>
    rw [hs] at hsession
    simp only [hs, ← hsession, exec_pure, true_and]
    exact ⟨hs.trans hsession, hopts⟩
  | some used =>
    rw [hs] at hsession
    by_cases hc : ctx ∈ used
    · simp only [hs, ← hsession, if_pos hc, exec_throw, true_and]
      exact ⟨hs.trans hsession, hopts⟩
    · simp only [hs, ← hsession, if_neg hc, exec_modify, true_and]
      exact ⟨rfl, hopts⟩

/-- A verdict depends on the session and the verify options only. -/
theorem validateAuthenticator_respects (role : Role) (req : Option AuthenticatorRequest)
    (policy : Option SpontaneousAuthenticatorPolicy) (attPolicy : Option VerificationPolicy)
    (authBytes : Bytes) :
    Respects SameInputs
      (validateAuthenticator lib st role req policy attPolicy authBytes) := by
  rw [validateAuthenticator_cut]
  refine .bind (prepareValidation_respects lib st (fun _ _ h => h.2)
    (fun _ _ chain h => h.addChain chain) role req policy authBytes) fun p =>
      .bind (markContextUsed_respects p.context) fun _ => ?_
  exact finishValidation_respects lib st (fun _ hf _ _ h => h.logs hf) attPolicy p

end
end DistributedEnclave.Ea
