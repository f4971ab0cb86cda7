import DistributedEnclave.Ea.Authenticator

/-! The validator in phases. It touches the session once: before that it prepares what it
marks, after that it finishes. -/
namespace DistributedEnclave.Ea
open DistributedEnclave.Octets DistributedEnclave.Outcome

structure Derived where
  hsCtx : Bytes
  finishedKey : Bytes
  hash : Hash
  request : RequestParts
  deriving DecidableEq, Repr

def derive (st : ConnectionState) (role : Role) (req : Option AuthenticatorRequest) :
    Except Error Derived := do
  let (hsCtx, h) ← exportHandshakeContext st role
  let (fk, _) ← exportFinishedKey st role
  let r ← requestParts req
  .ok ⟨hsCtx, fk, h, r⟩

inductive Pending where
  | empty (context : Bytes)
  | full (context : Bytes) (chain : List Certificate) (leaf : Certificate)
    (extracted : Option Bytes)

def Pending.context : Pending → Bytes
  | .empty context | .full context _ _ _ => context

section
variable (lib : Library)

def prepareFinishedOnly (d : Derived) (req : Option AuthenticatorRequest)
    (firstHm : HandshakeMessage) (rest : Bytes) : Except Error Pending :=
  if req.isNone ∨ rest.length ≠ 0 then .error .errUnsupportedHandshakeType
  else do
    let (finMsg, _) ← unmarshalFinishedMessage (marshalRaw firstHm)
    let certBytes ← marshalCertificateMessage ⟨d.request.context, []⟩
    let th := hashConcat lib d.hash [d.hsCtx, d.request.bytes, certBytes]
    let expectedFin := hmacSum lib d.hash d.finishedKey th
    if !constantTimeEqual expectedFin finMsg.verifyData then .error .errFinishedMismatch
    else .ok (.empty d.request.context)

def prepareFull (d : Derived) (req : Option AuthenticatorRequest)
    (policy : Option SpontaneousAuthenticatorPolicy) (m : FullMessages) : Run Pending := do
  let extracted ← liftM (checkEntries req policy m.cert.entries)
  let (chain, leaf) ← liftM (checkFull lib d.hsCtx d.finishedKey d.hash req d.request m)
  verifyChain lib chain leaf
  pure (.full m.cert.context chain leaf extracted)

variable (st : ConnectionState)

/-- The validator up to the point where it marks the context. -/
def prepareValidation (role : Role) (req : Option AuthenticatorRequest)
    (policy : Option SpontaneousAuthenticatorPolicy) (authBytes : Bytes) : Run Pending := do
  let d ← liftM (derive st role req)
  let (firstHm, rest) ← liftM (unmarshalHandshakeMessage authBytes)
  if firstHm.type = handshakeTypeFinished then liftM (prepareFinishedOnly lib d req firstHm rest)
  else if firstHm.type ≠ handshakeTypeCertificate then throw .errUnsupportedHandshakeType
  else do
    let m ← liftM (splitMessages firstHm rest)
    if req.isSome ∧ m.cert.context ≠ d.request.context then throw .errContextMismatch
    else if m.cert.entries.length = 0 then pure (.empty m.cert.context)
    else prepareFull lib d req policy m

def finishValidation (attPolicy : Option VerificationPolicy) : Pending → Run ValidationResult
  | .full context chain leaf extracted =>
    attachAttestation lib st attPolicy context chain leaf extracted
  | .empty context => pure ⟨context, [], [], none, true⟩

theorem prepareFinishedOnly_cut (d : Derived) (req : Option AuthenticatorRequest)
    (firstHm : HandshakeMessage) (rest : Bytes) (attPolicy : Option VerificationPolicy) :
    validateFinishedOnly lib d.hsCtx d.finishedKey d.hash req d.request firstHm rest =
      (liftM (prepareFinishedOnly lib d req firstHm rest) : Run Pending) >>= fun p =>
        markContextUsed p.context >>= fun _ => finishValidation lib st attPolicy p := by
  rw [validateFinishedOnly, prepareFinishedOnly]
  by_cases hreq : req.isNone ∨ rest.length ≠ 0
  · rw [if_pos hreq, if_pos hreq]
    rfl
  rw [if_neg hreq, if_neg hreq, lift_bind, bind_assoc]
  refine bind_congr fun m => ?_
  rw [lift_bind, bind_assoc]
  refine bind_congr fun certBytes => ?_
  dsimp only
  split <;> rfl

/-- Without TLS 1.3 nothing can be derived. -/
theorem derive_version {role : Role} {req : Option AuthenticatorRequest}
    (h : st.version ≠ versionTLS13) : derive st role req = .error .errNotTLS13 := by
  rw [derive, exportHandshakeContext, exportWith, if_pos h]
  rfl

/-- The validator is cut at its one access to the session. -/
theorem validateAuthenticator_cut (role : Role) (req : Option AuthenticatorRequest)
    (policy : Option SpontaneousAuthenticatorPolicy) (attPolicy : Option VerificationPolicy)
    (authBytes : Bytes) :
    validateAuthenticator lib st role req policy attPolicy authBytes =
      prepareValidation lib st role req policy authBytes >>= fun p =>
        markContextUsed p.context >>= fun _ => finishValidation lib st attPolicy p := by
  rw [validateAuthenticator, prepareValidation]
  by_cases hv : st.version ≠ versionTLS13
  · rw [if_pos hv, derive_version st hv]
    rfl
  rw [if_neg hv, derive]
  simp only [lift_bind, bind_assoc]
  refine bind_congr fun x => bind_congr fun y => bind_congr fun r => ?_
  refine bind_congr fun z => ?_
  by_cases hfin : z.1.type = handshakeTypeFinished
  · simp only [if_pos hfin]
    exact prepareFinishedOnly_cut lib st ⟨x.1, y.1, x.2, r⟩ req z.1 z.2 attPolicy
  simp only [if_neg hfin]
  by_cases hcert : z.1.type ≠ handshakeTypeCertificate
  · rw [if_pos hcert, if_pos hcert, throw_bind]
  rw [if_neg hcert, if_neg hcert]
  simp only [bind_assoc]
  refine bind_congr fun m => ?_
  by_cases hctx : req.isSome ∧ m.cert.context ≠ r.context
  · rw [if_pos hctx, if_pos hctx, throw_bind]
  rw [if_neg hctx, if_neg hctx]
  by_cases hnil : m.cert.entries.length = 0
  · rw [if_pos hnil, if_pos hnil, pure_bind]
    rfl
  rw [if_neg hnil, if_neg hnil, prepareFull]
  simp only [bind_assoc, pure_bind]
  rfl

end
end DistributedEnclave.Ea
