import DistributedEnclave.Ea.Frames
import DistributedEnclave.Ea.RoundTrip

/-! Validations that share one verify options value, as all connections of a server do. The
options are copied for each call, the pool of intermediates behind them is not. -/
namespace DistributedEnclave.Ea
open DistributedEnclave.Octets DistributedEnclave.Outcome

structure Validation where
  st : ConnectionState
  role : Role
  req : Option AuthenticatorRequest
  policy : Option SpontaneousAuthenticatorPolicy
  attPolicy : Option VerificationPolicy
  authBytes : Bytes

def sharing (opts : Option VerifyOptions) : World := ⟨none, opts, [], []⟩

section
variable (lib : Library)

def Validation.run (v : Validation) : Run ValidationResult :=
  validateAuthenticator lib v.st v.role v.req v.policy v.attPolicy v.authBytes

def Validation.after (history : List Validation) (w : World) : World :=
  history.foldl (fun w v => (exec (v.run lib) w).2) w

/-- No history changes the verdict on any authenticator. -/
def Independent (opts : Option VerifyOptions) : Prop :=
  ∀ history v, (exec (Validation.run lib v) (Validation.after lib history (sharing opts))).1 =
    (exec (Validation.run lib v) (sharing opts)).1

/-- No certificate can be added: there is no verification, or a fresh pool for each call. -/
def PoolFree (opts : Option VerifyOptions) : Prop := ∀ o, opts = some o → o.intermediates = none

theorem shareChain_of_none {o : VerifyOptions} (h : o.intermediates = none)
    (chain : List Certificate) : o.shareChain chain = o := by
  cases o with
  | mk dnsName intermediates roots currentTime keyUsages maxComparisons =>
    cases h
    rfl

theorem PoolFree.addChain {opts : Option VerifyOptions} (h : PoolFree opts) {w : World}
    (hw : SameInputs w (sharing opts)) (chain : List Certificate) :
    SameInputs (w.addChain chain) (sharing opts) := by
  refine ⟨hw.1, ?_⟩
  have hopts : w.verifyOpts = opts := hw.2
  rw [World.addChain, hopts]
  cases opts with
  | none => rfl
  | some o => exact congrArg some (shareChain_of_none (h o rfl) chain)

theorem Validation.run_keeps {opts : Option VerifyOptions} (h : PoolFree opts) (v : Validation) :
    Preserves (fun w => SameInputs w (sharing opts)) (v.run lib) := by
  rw [Validation.run, validateAuthenticator_cut]
  refine .bind (prepareValidation_preserves lib v.st (fun w chain hw => h.addChain hw chain)
    v.role v.req v.policy v.authBytes) fun p => .bind ?_ fun _ =>
    finishValidation_preserves lib v.st (fun _ _ _ hw => hw) v.attPolicy p
  intro w hw
  rw [markContextUsed, exec_bind, exec_get]
  simpa only [show w.session = none from hw.1, exec_pure] using hw

theorem Validation.after_keeps {opts : Option VerifyOptions} (h : PoolFree opts)
    (history : List Validation) {w : World} (hw : SameInputs w (sharing opts)) :
    SameInputs (Validation.after lib history w) (sharing opts) := by
  induction history generalizing w with
  | nil => exact hw
  | cons v history ih => exact ih (v.run_keeps lib h w hw)

theorem PoolFree.independent {opts : Option VerifyOptions} (h : PoolFree opts) :
    Independent lib opts := by
  intro history v
  exact (validateAuthenticator_respects lib v.st v.role v.req v.policy v.attPolicy v.authBytes _ _
    (Validation.after_keeps lib h history ⟨rfl, rfl⟩)).1

structure ChainLeft (v : Validation) (w : World) (d : Derived) (cert : CertificateMessage)
    (cv : CertificateVerifyMessage) (fin : FinishedMessage) (chain : List Certificate)
    (leaf : Certificate) : Prop where
  derived : derive v.st v.role v.req = .ok d
  isFull : IsFull v.authBytes cert cv fin
  context : v.req.isSome → cert.context = d.request.context
  entries : ∃ leafEntry others, cert.entries = leafEntry::others ∧
    EntriesChecked v.req v.policy leafEntry others none
  checked : FullChecked lib d v.req cert cv fin chain leaf
  fresh : w.Fresh cert.context

theorem FullChecked.unique {d d' : Derived} {req : Option AuthenticatorRequest}
    {cert : CertificateMessage} {cv : CertificateVerifyMessage} {fin : FinishedMessage}
    {chain chain' : List Certificate} {leaf leaf' : Certificate}
    (h : FullChecked lib d req cert cv fin chain leaf)
    (h' : FullChecked lib d' req cert cv fin chain' leaf') : chain' = chain ∧ leaf' = leaf := by
  have hchain : chain' = chain := by
    have hparse := (parseChain_ok lib cert.entries chain).mpr h.parsed
    rw [(parseChain_ok lib cert.entries chain').mpr h'.parsed] at hparse
    exact Except.ok.inj hparse
  subst hchain
  obtain ⟨rest, hrest⟩ := h.leafFirst
  obtain ⟨rest', hrest'⟩ := h'.leafFirst
  rw [hrest] at hrest'
  exact ⟨rfl, (List.cons.inj hrest').1.symm⟩

variable {lib}

theorem ChainLeft.verdict {v : Validation} {w : World} {d : Derived} {cert : CertificateMessage}
    {cv : CertificateVerifyMessage} {fin : FinishedMessage} {chain : List Certificate}
    {leaf : Certificate} (h : ChainLeft lib v w d cert cv fin chain leaf) (res : ValidationResult)
    (w' : World) :
    exec (v.run lib) w = (.ok res, w') ↔ ChainTrusted lib w chain leaf ∧
      w' = w.afterFull cert chain ∧ res = ⟨cert.context, chain, [], none, false⟩ := by
  rw [Validation.run, exec_validateAuthenticator_ok]
  constructor
  · intro hrun
    obtain ⟨d', hd, hrun⟩ := hrun
    obtain ⟨fin', hrun⟩ | ⟨cert', cv', fin', hrun⟩ | ⟨cert', cv', fin', chain', leaf', hrun⟩ |
      ⟨cert', cv', fin', chain', leaf', cmw, p, hrun⟩ := hrun
    · exact (hrun.isFinished.not_isFull h.isFull).elim
    · obtain ⟨rfl, -, -⟩ := h.isFull.unique hrun.isFull
      obtain ⟨leafEntry, others, hentries, _⟩ := h.entries
      rw [hrun.noEntries] at hentries
      cases hentries
    · obtain ⟨rfl, rfl, rfl⟩ := h.isFull.unique hrun.isFull
      obtain ⟨rfl, rfl⟩ := h.checked.unique lib hrun.checked
      exact ⟨hrun.trusted, hrun.world, hrun.result⟩
    · obtain ⟨rfl, rfl, rfl⟩ := h.isFull.unique hrun.isFull
      obtain ⟨leafEntry, others, hentries, hchecked⟩ := h.entries
      obtain ⟨leafEntry', others', hentries', hchecked'⟩ := hrun.entries
      rw [hentries] at hentries'
      cases hentries'
      have hnone := hchecked.extracted
      rw [hchecked'.extracted] at hnone
      cases hnone
  · intro hrun
    obtain ⟨htrusted, hw, hres⟩ := hrun
    exact ⟨d, h.derived, .inr (.inr (.inl ⟨cert, cv, fin, chain, leaf,
      ⟨h.isFull, h.context, h.entries, h.checked, htrusted, h.fresh⟩, hw, hres⟩))⟩

end

def outsider (pool : List Certificate) : Certificate :=
  ⟨0::pool.flatMap (·.raw), [0x31], .ecdsa [0x31]⟩

theorem outsider_notMem (pool : List Certificate) : outsider pool ∉ pool := by
  intro h
  have hle : ∀ {p : List Certificate} {c}, c ∈ p → c.raw.length ≤ (p.flatMap (·.raw)).length := by
    intro p c hc
    induction p with
    | nil => cases hc
    | cons x p ih =>
      rw [List.flatMap_cons, List.length_append]
      cases hc with
      | head => omega
      | tail _ hc =>
        have := ih hc
        omega
  have := hle h
  simp [outsider] at this

def outsiderLibrary (pool : List Certificate) : Library :=
  { paddingLibrary with
    parseCertificate := fun der =>
      if der = [0x31] then .ok (outsider pool) else paddingLibrary.parseCertificate der
    verifyCertificate := fun _ opts =>
      if outsider pool ∈ opts.intermediates.getD [] then .ok () else .error 3 }

def chainBytes (ders : List Bytes) : Bytes :=
  encodeCertificate ⟨[0x2A], ders.map (⟨·, []⟩)⟩ ++
    (encodeCertificateVerify ⟨ecdsaWithP256AndSHA256, [0x01]⟩ ++
      encodeFinished ⟨padTo 32 [0x09]⟩)

def chainValidation (ders : List Bytes) : Validation :=
  ⟨sampleState, .client, some sampleRequest, none, none, chainBytes ders⟩

def sampleDerived : Derived :=
  ⟨padTo 32 [0x09], padTo 32 [0x09], .sha256, ⟨encodeRequest sampleRequest, [0x0403], [0x2A]⟩⟩

theorem derive_sample : derive sampleState .client (some sampleRequest) = .ok sampleDerived := by
  decide +kernel

theorem sampleDerived_mac (pool : List Certificate) (transcript : Bytes) :
    sampleDerived.mac (outsiderLibrary pool) transcript = padTo 32 [0x09] := by
  have hlen : (padTo 32 [0x09]).length = 32 := by decide
  show padTo 32 (padTo 32 [0x09] ++ _) = padTo 32 [0x09]
  rw [padTo, List.append_assoc]
  exact List.take_left' hlen

theorem plain_fits {ders : List Bytes} (h : ∀ der ∈ ders, der ≠ [] ∧ der.length ≤ 0xFFFFFF) :
    ∀ e ∈ ders.map (fun der => (⟨der, []⟩ : CertificateEntry)), e.Fits := by
  intro e he
  obtain ⟨der, hder, rfl⟩ := List.mem_map.mp he
  exact ⟨(h der hder).1, (h der hder).2, Nat.zero_le _⟩

theorem chainLeft (pool : List Certificate) (issuers : List Bytes) (chain : List Certificate)
    (hfits : (⟨[0x2A], ([0x30]::issuers).map (⟨·, []⟩)⟩ : CertificateMessage).Fits)
    (hparse : List.Forall₂ (fun der c => (outsiderLibrary pool).parseCertificate der = .ok c)
      issuers chain) (w : World) (hw : w.session = none) :
    ChainLeft (outsiderLibrary pool) (chainValidation ([0x30]::issuers)) w sampleDerived
      ⟨[0x2A], ([0x30]::issuers).map (⟨·, []⟩)⟩ ⟨ecdsaWithP256AndSHA256, [0x01]⟩
      ⟨padTo 32 [0x09]⟩ (sampleLeaf::chain) sampleLeaf := by
  have hplain : ∀ entry ∈ ([0x30]::issuers).map (fun der => (⟨der, []⟩ : CertificateEntry)),
      entry.extensions = [] := by
    intro entry hentry
    obtain ⟨der, _, rfl⟩ := List.mem_map.mp hentry
    rfl
  refine ⟨derive_sample, ⟨hfits, by decide, ⟨by decide, by decide⟩, rfl⟩, fun _ => rfl,
    ⟨⟨[0x30], []⟩, issuers.map (⟨·, []⟩), rfl, ?_, ?_, rfl⟩, ⟨?_, ⟨chain, rfl⟩, ?_, rfl, ?_⟩, ?_⟩
  · intro entry hentry e he
    rw [hplain entry (List.mem_cons_of_mem _ hentry)] at he
    cases he
  · intro entry hentry e he
    rw [hplain entry hentry] at he
    cases he
  · exact List.forall₂_map_left_iff.mpr (.cons rfl hparse)
  · exact fun _ => by decide
  · exact (sampleDerived_mac pool _).symm
  · intro used hused
    rw [hw] at hused
    cases hused

theorem outsider_trusted_iff {pool : List Certificate} {w : World} {o : VerifyOptions}
    (hw : w.verifyOpts = some o) (chain : List Certificate) (leaf : Certificate) :
    ChainTrusted (outsiderLibrary pool) w chain leaf ↔
      outsider pool ∈ chain.tail.foldl addCert (o.intermediates.getD []) := by
  have hverify : (outsiderLibrary pool).verifyCertificate leaf (o.withChain chain) = .ok () ↔
      outsider pool ∈ chain.tail.foldl addCert (o.intermediates.getD []) := by
    rw [outsiderLibrary, VerifyOptions.withChain]
    simp only [Option.getD_some]
    split <;> simp_all
  constructor
  · intro h
    exact hverify.mp (h o hw)
  · intro h opts hopts
    rw [hw] at hopts
    cases hopts
    exact hverify.mpr h

theorem mem_addCert (pool : List Certificate) (c : Certificate) : c ∈ addCert pool c := by
  rw [addCert]
  split
  · assumption
  · exact List.mem_append_right _ (List.mem_singleton.mpr rfl)

/-- With a pool of intermediates one authenticator makes another one acceptable. -/
theorem pool_not_independent {o : VerifyOptions} {pool : List Certificate}
    (hpool : o.intermediates = some pool) :
    ¬Independent (outsiderLibrary pool) (some o) := by
  intro h
  have hfirst := chainLeft pool [[0x31]] [outsider pool]
    ⟨by decide, plain_fits (by decide), by decide +kernel⟩ (.cons rfl .nil) (sharing (some o)) rfl
  have htrusted : ChainTrusted (outsiderLibrary pool) (sharing (some o))
      [sampleLeaf, outsider pool] sampleLeaf :=
    (outsider_trusted_iff rfl _ _).mpr (mem_addCert _ _)
  have hrun := (hfirst.verdict _ _).mpr ⟨htrusted, rfl, rfl⟩
  have hfits : (⟨[0x2A], [[0x30]].map (⟨·, []⟩)⟩ : CertificateMessage).Fits :=
    ⟨by decide, plain_fits (by decide), by decide +kernel⟩
  -- after the first authenticator the pool holds the outsider
  have hlater : ChainTrusted (outsiderLibrary pool) ((sharing (some o)).afterFull
      ⟨[0x2A], [[0x30], [0x31]].map (⟨·, []⟩)⟩ [sampleLeaf, outsider pool]) [sampleLeaf]
      sampleLeaf := by
    refine (outsider_trusted_iff rfl _ _).mpr ?_
    simp only [VerifyOptions.shareChain, hpool, Option.map_some, Option.getD_some]
    exact mem_addCert pool (outsider pool)
  have hsecond := ((chainLeft pool [] [] hfits .nil _ rfl).verdict _ _).mpr ⟨hlater, rfl, rfl⟩
  have hsame := h [chainValidation [[0x30], [0x31]]] (chainValidation [[0x30]])
  rw [Validation.after, List.foldl_cons, List.foldl_nil, hrun, hsecond] at hsame
  have hearly := (((chainLeft pool [] [] hfits .nil (sharing (some o)) rfl).verdict _
    (exec ((chainValidation [[0x30]]).run (outsiderLibrary pool)) (sharing (some o))).2).mp
    (Prod.ext hsame.symm rfl)).1
  rw [outsider_trusted_iff rfl, hpool] at hearly
  exact outsider_notMem pool hearly

/-- Validations with shared options do not influence each other exactly when no pool of
intermediates is shared. -/
theorem validations_independent_iff (opts : Option VerifyOptions) :
    (∀ lib, Independent lib opts) ↔ PoolFree opts := by
  constructor
  · intro h o ho
    subst ho
    cases hpool : o.intermediates with
    | none => rfl
    | some pool => exact absurd (h _) (pool_not_independent hpool)
  · intro h lib
    exact h.independent lib

def emptyPoolOptions : VerifyOptions := ⟨"", some [], none, 0, [], 0⟩

/-- The leaf alone is rejected, and accepted once its issuer has been seen in a chain. -/
theorem emptyPool_remembers :
    (exec ((chainValidation [[0x30]]).run (outsiderLibrary [])) (sharing emptyPoolOptions)).1 =
        .error (.library 3) ∧
      (exec ((chainValidation [[0x30]]).run (outsiderLibrary []))
        (Validation.after (outsiderLibrary []) [chainValidation [[0x30], [0x31]]]
          (sharing emptyPoolOptions))).1 = .ok ⟨[0x2A], [sampleLeaf], [], none, false⟩ ∧
      ¬Independent (outsiderLibrary []) emptyPoolOptions :=
  ⟨by decide +kernel, by decide +kernel, pool_not_independent rfl⟩

end DistributedEnclave.Ea
