import DistributedEnclave.Ea.Acceptance
import DistributedEnclave.Ea.RequestExtensions

/-! No byte string makes a parser panic. Every index and slice of the parsers is a checked
one here; each guard in front of it is what keeps it in range. -/
namespace DistributedEnclave.Ea
open DistributedEnclave.Octets DistributedEnclave.Outcome DistributedEnclave.Repeat

abbrev NoPanic {α : Type} (x : Except Error α) : Prop := Avoids .panic x

theorem index_noPanic {b : Bytes} {i : Nat} (h : i < b.length) : NoPanic (index b i) := by
  rw [index, List.getElem?_eq_getElem h]
  exact .ok _

theorem slice_noPanic {b : Bytes} {lo hi : Nat} (hlo : lo ≤ hi) (hhi : hi ≤ b.length) :
    NoPanic (slice b lo hi) := by
  rw [slice, if_pos ⟨hlo, hhi⟩]
  exact .ok _

theorem sliceFrom_noPanic {b : Bytes} {lo : Nat} (h : lo ≤ b.length) : NoPanic (sliceFrom b lo) :=
  slice_noPanic h le_rfl

theorem slice_length {b c : Bytes} {lo hi : Nat} (h : slice b lo hi = .ok c) :
    c.length = hi-lo := by
  rw [slice] at h
  split at h
  · cases h
    rw [List.length_take, List.length_drop]
    omega
  · cases h

theorem readUint16_noPanic {b : Bytes} (h : b.length = 2) : NoPanic (readUint16 b) := by
  obtain ⟨v, hv, _⟩ := readUint16_of_length h
  rw [hv]
  exact .ok v

theorem readUint24_noPanic {b : Bytes} (h : b.length = 3) : NoPanic (readUint24 b) := by
  obtain ⟨v, hv, _⟩ := readUint24_of_length h
  rw [hv]
  exact .ok v

/-- The octets between `lo` and `hi` are as many as a number has that is read from them. -/
theorem readUint16_bind_noPanic {β : Type} {b : Bytes} {lo hi : Nat} {f : UInt16 → Except Error β}
    (hlo : lo+2 = hi) (hhi : hi ≤ b.length) (hf : ∀ v, NoPanic (f v)) :
    NoPanic (slice b lo hi >>= fun c => readUint16 c >>= f) := by
  refine .bind (slice_noPanic (by omega) hhi) fun c hc => ?_
  exact .bind (readUint16_noPanic (by rw [slice_length hc]; omega)) fun v _ => hf v

theorem readUint24_bind_noPanic {β : Type} {b : Bytes} {lo hi : Nat} {f : UInt32 → Except Error β}
    (hlo : lo+3 = hi) (hhi : hi ≤ b.length) (hf : ∀ v, NoPanic (f v)) :
    NoPanic (slice b lo hi >>= fun c => readUint24 c >>= f) := by
  refine .bind (slice_noPanic (by omega) hhi) fun c hc => ?_
  exact .bind (readUint24_noPanic (by rw [slice_length hc]; omega)) fun v _ => hf v

theorem unmarshalHandshakeMessage_noPanic (b : Bytes) :
    NoPanic (unmarshalHandshakeMessage b) := by
  unfold unmarshalHandshakeMessage
  refine .ite (fun _ => .error (by decide)) fun h => ?_
  simp only [handshakeHeaderLen, not_lt] at h
  refine .bind (index_noPanic (by omega)) fun t _ => ?_
  refine readUint24_bind_noPanic rfl (by omega) fun len => ?_
  refine .ite (fun _ => .error (by decide)) fun _ => .ite (fun _ => .error (by decide)) fun hn => ?_
  simp only [handshakeHeaderLen, not_lt] at hn
  refine .bind (slice_noPanic (by omega) hn) fun body _ => ?_
  exact .bind (sliceFrom_noPanic hn) fun rest _ => .ok _

theorem extensionAt_noPanic {payload : Bytes} {i : Nat} (hi : i < payload.length) :
    NoPanic (extensionAt payload i) := by
  unfold extensionAt
  refine .ite (fun _ => .error (by decide)) fun h => ?_
  refine readUint16_bind_noPanic rfl (by omega) fun typ => ?_
  refine readUint16_bind_noPanic rfl (by omega) fun len => ?_
  refine .ite (fun _ => .error (by decide)) fun hl => ?_
  exact .bind (slice_noPanic (by omega) (by omega)) fun data _ => .ok _

theorem unmarshalExtensions_noPanic (b : Bytes) : NoPanic (unmarshalExtensions b) := by
  unfold unmarshalExtensions
  refine .ite (fun _ => .error (by decide)) fun h => ?_
  refine readUint16_bind_noPanic rfl (by omega) fun total => ?_
  refine .ite (fun _ => .error (by decide)) fun hn => ?_
  refine .bind (slice_noPanic (by omega) (by omega)) fun payload _ => ?_
  refine .bind (sliceFrom_noPanic (by omega)) fun rest _ => ?_
  exact .bind (parseAll_avoids 0 fun i hi => extensionAt_noPanic hi) fun exts _ => .ok _

theorem entryAt_noPanic {list : Bytes} {i : Nat} (hi : i < list.length) :
    NoPanic (entryAt list i) := by
  unfold entryAt
  refine .ite (fun _ => .error (by decide)) fun h => ?_
  refine readUint24_bind_noPanic rfl (by omega) fun len => ?_
  refine .ite (fun _ => .error (by decide)) fun hc => ?_
  refine .bind (slice_noPanic (by omega) (by omega)) fun certDER _ => ?_
  refine .bind (sliceFrom_noPanic (by omega)) fun tail _ => ?_
  exact .bind (unmarshalExtensions_noPanic tail) fun x _ => .ok _

theorem unmarshalCertificateBody_noPanic (body : Bytes) :
    NoPanic (unmarshalCertificateBody body) := by
  unfold unmarshalCertificateBody
  refine .ite (fun _ => .error (by decide)) fun h1 => ?_
  refine .bind (index_noPanic (by omega)) fun l _ => ?_
  refine .ite (fun _ => .error (by decide)) fun h => ?_
  refine .bind (slice_noPanic (by omega) (by omega)) fun ctx _ => ?_
  refine readUint24_bind_noPanic rfl (by omega) fun len => ?_
  refine .ite (fun _ => .error (by decide)) fun hn => ?_
  refine .bind (sliceFrom_noPanic (by omega)) fun list _ => ?_
  exact .bind (parseAll_avoids 0 fun i hi => entryAt_noPanic hi) fun entries _ => .ok _

theorem unmarshalCertificateMessage_noPanic (b : Bytes) :
    NoPanic (unmarshalCertificateMessage b) := by
  unfold unmarshalCertificateMessage
  refine .bind (unmarshalHandshakeMessage_noPanic b) fun x _ => ?_
  refine .ite (fun _ => .error (by decide)) fun _ => ?_
  exact .bind (unmarshalCertificateBody_noPanic _) fun m _ => .ok _

theorem unmarshalCertificateVerifyMessage_noPanic (b : Bytes) :
    NoPanic (unmarshalCertificateVerifyMessage b) := by
  unfold unmarshalCertificateVerifyMessage
  refine .bind (unmarshalHandshakeMessage_noPanic b) fun x _ => ?_
  refine .ite (fun _ => .error (by decide)) fun _ => .ite (fun _ => .error (by decide)) fun h => ?_
  refine readUint16_bind_noPanic rfl (by omega) fun alg => ?_
  refine readUint16_bind_noPanic rfl (by omega) fun len => ?_
  refine .ite (fun _ => .error (by decide)) fun hn => ?_
  exact .bind (sliceFrom_noPanic (by omega)) fun sig _ => .ok _

theorem unmarshalFinishedMessage_noPanic (b : Bytes) : NoPanic (unmarshalFinishedMessage b) := by
  unfold unmarshalFinishedMessage
  refine .bind (unmarshalHandshakeMessage_noPanic b) fun x _ => ?_
  exact .ite (fun _ => .error (by decide)) fun _ => .ok _

theorem unmarshalAuthenticatorRequest_noPanic (b : Bytes) :
    NoPanic (unmarshalAuthenticatorRequest b) := by
  unfold unmarshalAuthenticatorRequest
  refine .bind (unmarshalHandshakeMessage_noPanic b) fun x _ => ?_
  refine .ite (fun _ => .error (by decide)) fun _ => .ite (fun _ => .error (by decide)) fun h1 => ?_
  refine .bind (index_noPanic (by omega)) fun l _ => ?_
  refine .ite (fun _ => .error (by decide)) fun h => ?_
  refine .bind (slice_noPanic (by omega) (by omega)) fun ctx _ => ?_
  refine .bind (sliceFrom_noPanic (by omega)) fun tail _ => ?_
  refine .bind (unmarshalExtensions_noPanic tail) fun y _ => ?_
  exact .ite (fun _ => .error (by decide)) fun _ => .ok _

theorem extractCMW_noPanic (exts : List Extension) :
    NoPanic (extractCMWAttestationFromExtensions exts) := by
  induction exts with
  | nil => exact .ok _
  | cons e exts ih =>
    unfold extractCMWAttestationFromExtensions
    refine .ite (fun _ => ih) fun _ => .ite (fun _ => .error (by decide)) fun h => ?_
    refine readUint16_bind_noPanic rfl (by omega) fun len => ?_
    refine .ite (fun _ => .error (by decide)) fun _ => ?_
    exact .bind (sliceFrom_noPanic (by omega)) fun cmw _ => .ok _

/-- The loop reads two octets at a time from an even length, so it never stands on the last
octet alone. -/
theorem parseSchemes_noPanic {data : Bytes} (h : data.length%2 = 0) :
    NoPanic (parseAll schemeAt data 2) := by
  refine parseAll_avoids_of (P := fun off => off%2 = 0) _ 2 le_rfl rfl ?_ ?_
  · intro off heven hoff
    unfold schemeAt
    exact readUint16_bind_noPanic rfl (by omega) fun s => .ok _
  · intro off item heven hitem
    simp only [schemeAt, bind_eq_ok] at hitem
    obtain ⟨_, _, _, _, hitem⟩ := hitem
    cases hitem
    simp only
    omega

theorem parseSignatureSchemesExtension_noPanic (typ : UInt16) (exts : List Extension) :
    NoPanic (parseSignatureSchemesExtension typ exts) := by
  induction exts with
  | nil => exact .ok _
  | cons e exts ih =>
    unfold parseSignatureSchemesExtension
    refine .ite (fun _ => ih) fun _ => .ite (fun _ => .ok _) fun h => ?_
    refine readUint16_bind_noPanic rfl (by omega) fun len => .ite (fun _ => .ok _) fun hc => ?_
    exact .bind (parseSchemes_noPanic (by omega)) fun out _ => .ok _

theorem attempt_avoids {α : Type} {x : Except Error α} (h : NoPanic x) :
    Avoids (some .panic) (attempt x) := by
  cases x with
  | ok a => exact .ok a
  | error e => exact .error fun hc => h (congrArg Except.error (Option.some.inj hc))

theorem Attempt.result_noPanic {α : Type} {x : Attempt α} (h : Avoids (some .panic) x) :
    NoPanic x.result := by
  match x, h with
  | .ok a, _ => exact .ok _
  | .error none, _ => exact .ok _
  | .error (some e), h => exact .error fun hc => h (congrArg (Except.error ∘ some) hc)

/-- A checked access inside an attempt, given what it returns to the rest. -/
theorem attempt_bind_avoids {α β : Type} {x : Except Error α} {f : α → Attempt β}
    (hx : NoPanic x) (hf : ∀ a, x = .ok a → Avoids (some .panic) (f a)) :
    Avoids (some .panic) (attempt x >>= f) :=
  .bind (attempt_avoids hx) fun a ha => hf a ((attempt_eq_ok x a).mp ha)

theorem readUint16_attempt_avoids {β : Type} {b : Bytes} {lo hi : Nat} {f : UInt16 → Attempt β}
    (hlo : lo+2 = hi) (hhi : hi ≤ b.length) (hf : ∀ v, Avoids (some .panic) (f v)) :
    Avoids (some .panic) (attempt (slice b lo hi) >>= fun c => attempt (readUint16 c) >>= f) := by
  refine attempt_bind_avoids (slice_noPanic (by omega) hhi) fun c hc => ?_
  exact attempt_bind_avoids (readUint16_noPanic (by rw [slice_length hc]; omega)) fun v _ => hf v

theorem authorityAt_avoids {data : Bytes} {off : Nat} (hoff : off < data.length) :
    Avoids (some .panic) (authorityAt data off) := by
  unfold authorityAt
  refine .ite (fun _ => .error (by decide)) fun h => ?_
  refine readUint16_attempt_avoids rfl (by omega) fun len => ?_
  refine .ite (fun _ => .error (by decide)) fun hc => ?_
  exact attempt_bind_avoids (slice_noPanic (by omega) (by omega)) fun name _ => .ok _

theorem certificateAuthorities_noPanic (r : AuthenticatorRequest) :
    NoPanic r.certificateAuthorities := by
  unfold AuthenticatorRequest.certificateAuthorities
  split
  · exact .ok _
  · refine Attempt.result_noPanic ?_
    unfold parseAuthorities
    refine .ite (fun _ => .error (by decide)) fun h => ?_
    refine readUint16_attempt_avoids rfl (by omega) fun len => ?_
    refine .ite (fun _ => .error (by decide)) fun _ => ?_
    exact parseAll_avoids 2 fun off hoff => authorityAt_avoids hoff

section
variable (asn1Unmarshal : Bytes → Except Nat (List Nat × Bytes))

theorem filterAt_avoids {data : Bytes} {off : Nat} (hoff : off < data.length) :
    Avoids (some .panic) (filterAt asn1Unmarshal data off) := by
  unfold filterAt
  refine .ite (fun _ => .error (by decide)) fun h => ?_
  refine attempt_bind_avoids (index_noPanic hoff) fun len _ => ?_
  refine .ite (fun _ => .error (by decide)) fun hlen => ?_
  refine attempt_bind_avoids (slice_noPanic (by omega) (by omega)) fun rawOID _ => ?_
  split
  · exact .error (by decide)
  · refine .ite (fun _ => .error (by decide)) fun h2 => ?_
    refine readUint16_attempt_avoids rfl (by omega) fun valLen => ?_
    refine .ite (fun _ => .error (by decide)) fun _ => ?_
    exact attempt_bind_avoids (slice_noPanic (by omega) (by omega)) fun values _ => .ok _

theorem oidFilters_noPanic (r : AuthenticatorRequest) : NoPanic (r.oidFilters asn1Unmarshal) := by
  unfold AuthenticatorRequest.oidFilters
  split
  · exact .ok _
  · refine Attempt.result_noPanic ?_
    unfold parseFilters
    refine .ite (fun _ => .error (by decide)) fun h => ?_
    refine readUint16_attempt_avoids rfl (by omega) fun len => ?_
    refine .ite (fun _ => .error (by decide)) fun _ => ?_
    exact parseAll_avoids 2 fun off hoff => filterAt_avoids asn1Unmarshal hoff

end

theorem fromLibrary_noPanic {α : Type} (x : Except Nat α) : NoPanic (fromLibrary x) := by
  cases x with
  | ok a => exact .ok a
  | error code => exact .error fun hc => nomatch hc

theorem marshalHandshakeMessage_noPanic (m : HandshakeMessage) :
    NoPanic (marshalHandshakeMessage m) :=
  .ite (fun _ => .error (by decide)) fun _ => .ok _

theorem marshalExtensions_noPanic (exts : List Extension) : NoPanic (marshalExtensions exts) := by
  have hlen : ∀ n, NoPanic (extensionsPayloadLen exts n) := by
    induction exts with
    | nil => exact fun n => .ok n
    | cons e exts ih =>
      exact fun n => .ite (fun _ => .error (by decide)) fun _ =>
        .ite (fun _ => .error (by decide)) fun _ => ih _
  exact .bind (hlen 0) fun n _ => .ok _

theorem marshalCertificateMessage_noPanic (m : CertificateMessage) :
    NoPanic (marshalCertificateMessage m) := by
  have hentries : ∀ acc, NoPanic (marshalEntries m.entries acc) := by
    induction m.entries with
    | nil => exact fun acc => .ok acc
    | cons e entries ih =>
      refine fun acc => .bind ?_ fun entry _ => ih _
      exact .ite (fun _ => .error (by decide)) fun _ =>
        .bind (marshalExtensions_noPanic _) fun _ _ => .ok _
  exact .ite (fun _ => .error (by decide)) fun _ =>
    .bind (hentries []) fun _ _ => marshalHandshakeMessage_noPanic _

theorem marshalRequest_noPanic (r : AuthenticatorRequest) : NoPanic (marshalRequest r) :=
  .ite (fun _ => .error (by decide)) fun _ => .ite (fun _ => .error (by decide)) fun _ =>
    .bind (marshalExtensions_noPanic _) fun _ _ => marshalHandshakeMessage_noPanic _

theorem exportWith_noPanic (st : ConnectionState) (c s : String) (role : Role) :
    NoPanic (exportWith st c s role) := by
  unfold exportWith
  refine .ite (fun _ => .error (by decide)) fun _ => .bind ?_ fun h _ => ?_
  · unfold authenticatorHashTLS13
    exact .ite (fun _ => .ok _) fun _ => .ite (fun _ => .ok _) fun _ =>
      .error fun hc => nomatch hc
  · exact .bind (fromLibrary_noPanic _) fun out _ => .ok _

theorem requestParts_noPanic (req : Option AuthenticatorRequest) : NoPanic (requestParts req) := by
  unfold requestParts
  cases req with
  | none => exact .ok _
  | some r =>
    refine .bind (marshalRequest_noPanic r) fun bytes _ => ?_
    refine .bind (parseSignatureSchemesExtension_noPanic _ _) fun schemes _ => ?_
    cases schemes with
    | none => exact .error (by decide)
    | some offered => exact .ok _

theorem derive_noPanic (st : ConnectionState) (role : Role) (req : Option AuthenticatorRequest) :
    NoPanic (derive st role req) :=
  .bind (exportWith_noPanic _ _ _ _) fun _ _ => .bind (exportWith_noPanic _ _ _ _) fun _ _ =>
    .bind (requestParts_noPanic req) fun _ _ => .ok _

theorem splitMessages_noPanic (certHm : HandshakeMessage) (rest : Bytes) :
    NoPanic (splitMessages certHm rest) := by
  unfold splitMessages
  split
  · exact .error (by decide)
  · refine .ite (fun _ => .error (by decide)) fun _ => ?_
    split
    · exact .error (by decide)
    · refine .ite (fun _ => .error (by decide)) fun _ => ?_
      exact .bind (unmarshalCertificateMessage_noPanic _) fun _ _ =>
        .bind (unmarshalCertificateVerifyMessage_noPanic _) fun _ _ =>
          .bind (unmarshalFinishedMessage_noPanic _) fun _ _ => .ok _

theorem first_noPanic {α : Type} {l : List α} (h : l ≠ []) : NoPanic (first l) := by
  cases l with
  | nil => exact absurd rfl h
  | cons a t => exact .ok a

theorem validateCertificateEntryExtensions_noPanic (req : Option AuthenticatorRequest)
    (policy : Option SpontaneousAuthenticatorPolicy) (exts : List Extension) :
    NoPanic (validateCertificateEntryExtensions req policy exts) := by
  induction exts with
  | nil => exact .ok _
  | cons e exts ih =>
    unfold validateCertificateEntryExtensions
    exact .ite (fun _ => .ite (fun _ => .error (by decide)) fun _ => ih) fun _ =>
      .ite (fun _ => .error (by decide)) fun _ => ih

/-- With an entry there is a first one. -/
theorem checkEntries_noPanic (req : Option AuthenticatorRequest)
    (policy : Option SpontaneousAuthenticatorPolicy) {entries : List CertificateEntry}
    (hne : entries ≠ []) : NoPanic (checkEntries req policy entries) := by
  have hplace : ∀ i, NoPanic (placementFrom entries i) := by
    clear hne
    induction entries with
    | nil => exact fun i => .ok _
    | cons entry entries ih =>
      exact fun i => .ite (fun _ => .error (by decide)) fun _ => ih _
  have hvalid : NoPanic (validateEntries req policy entries) := by
    clear hne hplace
    induction entries with
    | nil => exact .ok _
    | cons entry entries ih =>
      exact .bind (validateCertificateEntryExtensions_noPanic _ _ _) fun _ _ => ih
  refine .bind (hplace 0) fun _ _ => .bind hvalid fun _ _ => ?_
  refine .bind (first_noPanic hne) fun leafEntry _ => .bind (extractCMW_noPanic _) fun x _ => ?_
  exact .ite (fun _ => .error (by decide)) fun _ => .ite (fun _ => .error (by decide)) fun _ =>
    .ok _

section
variable (lib : Library)

theorem verifyCertVerify_noPanic (pub : Key) (scheme : UInt16) (th sig : Bytes) :
    NoPanic (verifyCertVerify lib pub scheme th sig) := by
  unfold verifyCertVerify
  refine .bind ?_ fun info _ => ?_
  · unfold signatureSchemeInfo
    exact .ite (fun _ => .ok _) fun _ => .ite (fun _ => .ok _) fun _ =>
      .ite (fun _ => .ok _) fun _ => .error fun hc => nomatch hc
  · dsimp only
    split
    · exact .ite (fun _ => .error (by decide)) fun _ => .ok _
    · exact .ite (fun _ => .error (by decide)) fun _ => .ok _
    · exact .ite (fun _ => .error (by decide)) fun _ => .ok _
    · exact .error (by decide)

theorem parseChain_noPanic (entries : List CertificateEntry) :
    NoPanic (parseChain lib entries) := by
  induction entries with
  | nil => exact .ok _
  | cons e entries ih =>
    exact .bind (fromLibrary_noPanic _) fun c _ => .bind ih fun chain _ => .ok _

/-- A chain that was parsed has a certificate for every entry, hence a first one. -/
theorem checkFull_noPanic (hsCtx fk : Bytes) (h : Hash) (req : Option AuthenticatorRequest)
    (r : RequestParts) {m : FullMessages} (hne : m.cert.entries ≠ []) :
    NoPanic (checkFull lib hsCtx fk h req r m) := by
  refine .bind (parseChain_noPanic lib _) fun chain hchain => ?_
  have hlen := ((parseChain_ok lib _ chain).mp hchain).length_eq
  have hchain : chain ≠ [] := by
    intro h
    subst h
    exact hne (List.eq_nil_of_length_eq_zero hlen)
  refine .bind (first_noPanic hchain) fun leaf _ => ?_
  refine .ite (fun _ => .error (by decide)) fun _ => ?_
  refine .bind (verifyCertVerify_noPanic lib _ _ _ _) fun _ _ => ?_
  exact .ite (fun _ => .error (by decide)) fun _ => .ok _

theorem verifyChain_noPanic (chain : List Certificate) (leaf : Certificate) :
    RunAvoids .panic (verifyChain lib chain leaf) := by
  refine RunAvoids.bind .get fun w => ?_
  split
  · exact .pure _
  · exact .bind (.modify _) fun _ => .lift (fromLibrary_noPanic _)

theorem markContextUsed_noPanic (ctx : Bytes) : RunAvoids .panic (markContextUsed ctx) := by
  refine RunAvoids.bind .get fun w => ?_
  split
  · exact .pure _
  · exact .ite (fun _ => .throw (by decide)) fun _ => .modify _

variable (st : ConnectionState)

/-- The validator splits, parses and checks any byte string without a fault. -/
theorem prepareValidation_noPanic (role : Role) (req : Option AuthenticatorRequest)
    (policy : Option SpontaneousAuthenticatorPolicy) (authBytes : Bytes) :
    RunAvoids .panic (prepareValidation lib st role req policy authBytes) := by
  refine .lift_bind (derive_noPanic st role req) fun d _ => ?_
  refine .lift_bind (unmarshalHandshakeMessage_noPanic _) fun x _ => ?_
  refine .ite (fun _ => .lift ?_) fun _ => .ite (fun _ => .throw (by decide)) fun _ => ?_
  · exact .ite (fun _ => .error (by decide)) fun _ =>
      .bind (unmarshalFinishedMessage_noPanic _) fun _ _ =>
        .bind (marshalCertificateMessage_noPanic _) fun _ _ =>
          .ite (fun _ => .error (by decide)) fun _ => .ok _
  · refine .lift_bind (splitMessages_noPanic _ _) fun m _ => ?_
    refine .ite (fun _ => .throw (by decide)) fun _ => .ite (fun _ => .pure _) fun hne => ?_
    rw [List.length_eq_zero_iff] at hne
    exact .lift_bind (checkEntries_noPanic req policy hne) fun _ _ =>
      .lift_bind (checkFull_noPanic lib _ _ _ _ _ hne) fun x _ =>
        .bind (verifyChain_noPanic lib _ _) fun _ => .pure _

/-- A configured verifier, which is not code of the validator, panics on some input. -/
def VerificationPolicy.Panics (policy : VerificationPolicy) : Prop :=
  (∃ verify, policy.evidenceVerifier = some verify ∧
    ∃ evidence rd, verify evidence rd = .error .panic) ∨
  ∃ verify, policy.resultsVerifier = some verify ∧ ∃ results, verify results = .error .panic

theorem verifyPayload_noPanic (label : String) (ctx : Bytes) (leaf : Certificate) (p : Payload)
    {policy : VerificationPolicy} (h : ¬policy.Panics) :
    RunAvoids .panic (verifyPayload lib st label ctx leaf p policy) := by
  have hpub : NoPanic (publicKeyBytes lib leaf) :=
    .ite (fun _ => .ok _) fun _ => fromLibrary_noPanic _
  have hevidence : RunAvoids .panic (verifyEvidenceStatement lib ctx leaf p policy) := by
    unfold verifyEvidenceStatement
    split
    · rename_i verify hverify
      refine .ite (fun _ => ?_) fun _ => .pure _
      refine .lift_bind (.bind hpub fun _ _ => .ok _) fun rd _ => .bind ?_ fun _ => .pure _
      refine .bind (.modify _) fun _ => .lift fun hc => h (.inl ⟨verify, hverify, _, _, hc⟩)
    · exact .ite (fun _ => .throw (by decide)) fun _ => .pure _
  have hresults : RunAvoids .panic (verifyResultsStatement p policy) := by
    unfold verifyResultsStatement
    split
    · rename_i verify hverify
      refine .ite (fun _ => .bind ?_ fun _ => .pure _) fun _ => .pure _
      exact .bind (.modify _) fun _ => .lift fun hc => h (.inr ⟨verify, hverify, _, hc⟩)
    · exact .ite (fun _ => .throw (by decide)) fun _ => .pure _
  have hbinding : NoPanic (computeBinding lib st label ctx leaf) := by
    refine .bind (.ite (fun _ => .error (by decide)) fun _ => .bind ?_ fun h _ => ?_) fun x _ => ?_
    · unfold attestationHashTLS13
      exact .ite (fun _ => .ok _) fun _ => .ite (fun _ => .ok _) fun _ =>
        .error fun hc => nomatch hc
    · exact .bind (fromLibrary_noPanic _) fun out _ => .ok _
    · exact .bind hpub fun pub _ => .ok _
  have hbinder : NoPanic (verifyBinder lib st label ctx leaf p.binder) :=
    .bind hbinding fun b _ => .ite (fun _ => .error (by decide)) fun _ =>
      .ite (fun _ => .error (by decide)) fun _ => .ok _
  have hvalid : NoPanic p.validate :=
    .ite (fun _ => .error (by decide)) fun _ => .ite (fun _ => .error (by decide)) fun _ => .ok _
  exact .bind (.lift hvalid) fun _ => .bind hevidence fun _ => .bind hresults fun _ =>
    .bind (.lift hbinder) fun _ => .pure _

theorem finishValidation_noPanic (attPolicy : Option VerificationPolicy) (p : Pending)
    (h : ¬(attPolicy.getD ⟨none, none⟩).Panics) :
    RunAvoids .panic (finishValidation lib st attPolicy p) := by
  cases p with
  | empty context => exact .pure _
  | full context chain leaf extracted =>
    cases extracted with
    | none => exact .pure _
    | some cmw =>
      refine .lift_bind ?_ fun parsed _ => .bind (verifyPayload_noPanic lib st _ _ _ _ h) fun _ =>
        .pure _
      refine .ite (fun _ => .error (by decide)) fun _ => ?_
      split
      · exact .error (by decide)
      · refine .bind ?_ fun _ _ => .ok _
        exact .ite (fun _ => .error (by decide)) fun _ => .ite (fun _ => .error (by decide))
          fun _ => .ok _

end

/-- The parsers are total and never panic. The validator as a whole panics at most where a
verifier that the caller has configured does. -/
theorem parsers_noPanic :
    (∀ b, NoPanic (unmarshalHandshakeMessage b) ∧ NoPanic (unmarshalExtensions b) ∧
      NoPanic (unmarshalAuthenticatorRequest b) ∧ NoPanic (unmarshalCertificateMessage b) ∧
      NoPanic (unmarshalCertificateVerifyMessage b) ∧ NoPanic (unmarshalFinishedMessage b)) ∧
    (∀ exts, NoPanic (extractCMWAttestationFromExtensions exts)) ∧
    (∀ (r : AuthenticatorRequest) asn1Unmarshal, NoPanic r.signatureSchemes ∧
      NoPanic r.signatureSchemesCert ∧ NoPanic r.certificateAuthorities ∧
      NoPanic (r.oidFilters asn1Unmarshal)) ∧
    ∀ (lib : Library) (st : ConnectionState) role req policy authBytes,
      RunAvoids .panic (prepareValidation lib st role req policy authBytes) ∧
      ∀ attPolicy, (attPolicy.getD ⟨none, none⟩).Panics ∨
        RunAvoids .panic (validateAuthenticator lib st role req policy attPolicy authBytes) := by
  refine ⟨fun b => ⟨unmarshalHandshakeMessage_noPanic b, unmarshalExtensions_noPanic b,
      unmarshalAuthenticatorRequest_noPanic b, unmarshalCertificateMessage_noPanic b,
      unmarshalCertificateVerifyMessage_noPanic b, unmarshalFinishedMessage_noPanic b⟩,
    extractCMW_noPanic, fun r asn1Unmarshal => ⟨parseSignatureSchemesExtension_noPanic _ _,
      parseSignatureSchemesExtension_noPanic _ _, certificateAuthorities_noPanic r,
      oidFilters_noPanic asn1Unmarshal r⟩, ?_⟩
  intro lib st role req policy authBytes
  refine ⟨prepareValidation_noPanic lib st role req policy authBytes, fun attPolicy => ?_⟩
  by_cases h : (attPolicy.getD ⟨none, none⟩).Panics
  · exact .inl h
  · rw [validateAuthenticator_cut]
    exact .inr (.bind (prepareValidation_noPanic lib st role req policy authBytes) fun p =>
      .bind (markContextUsed_noPanic _) fun _ => finishValidation_noPanic lib st attPolicy p h)

end DistributedEnclave.Ea
