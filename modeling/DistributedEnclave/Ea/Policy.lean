import DistributedEnclave.Ea.Messages

/-! Signature-scheme lists, the CMW attestation extension and the rules about which
certificate extensions an authenticator may carry. -/
namespace DistributedEnclave.Ea
open DistributedEnclave.Octets DistributedEnclave.Outcome DistributedEnclave.Repeat

def signatureAlgorithmsExtensionType : UInt16 := 0x000d
def signatureAlgorithmsCertExtensionType : UInt16 := 0x0032
def cmwAttestationExtensionType : UInt16 := 0xFF00

/-- One round of the loop that reads the schemes of a signature-algorithms vector. -/
def schemeAt (data : Bytes) (off : Nat) : Except Error (Item UInt16 off) := do
  let b ← slice data off (off+2)
  let s ← readUint16 b
  .ok ⟨s, off+2, by omega⟩

/-- The first extension of type `typ` decides: `none` stands for the result `nil, false`. -/
def parseSignatureSchemesExtension (typ : UInt16) :
    List Extension → Except Error (Option (List UInt16))
  | [] => .ok none
  | e::exts =>
    if e.type ≠ typ then parseSignatureSchemesExtension typ exts
    else if e.data.length < 2 then .ok none
    else do
      let lenBytes ← slice e.data 0 2
      let len ← readUint16 lenBytes
      let vecLen := len.toNat
      if vecLen < 2 ∨ vecLen%2 ≠ 0 ∨ e.data.length ≠ 2+vecLen then .ok none
      else do
        let out ← parseAll schemeAt e.data 2
        .ok (some out)

def AuthenticatorRequest.signatureSchemes (r : AuthenticatorRequest) :
    Except Error (Option (List UInt16)) :=
  parseSignatureSchemesExtension signatureAlgorithmsExtensionType r.extensions

def AuthenticatorRequest.signatureSchemesCert (r : AuthenticatorRequest) :
    Except Error (Option (List UInt16)) :=
  parseSignatureSchemesExtension signatureAlgorithmsCertExtensionType r.extensions

def marshalSignatureSchemesExtension (typ : UInt16) (schemes : List UInt16) :
    Except Error Extension :=
  if schemes.length = 0 then .error .errInvalidLength
  else if schemes.length > 0x7fff then .error .errInvalidLength
  else .ok ⟨typ, putUint16 (UInt16.ofNat (2*schemes.length)) ++ schemes.flatMap putUint16⟩

def signatureAlgorithmsExtension (schemes : List UInt16) : Except Error Extension :=
  marshalSignatureSchemesExtension signatureAlgorithmsExtensionType schemes

def signatureAlgorithmsCertExtension (schemes : List UInt16) : Except Error Extension :=
  marshalSignatureSchemesExtension signatureAlgorithmsCertExtensionType schemes

def encodeScheme (s : UInt16) : Bytes := beEncode 2 s.toNat

/-- Two octets are one item, so an odd rest cannot be read to its end. -/
theorem schemeAt_reads : Reads schemeAt encodeScheme (fun _ => True) where
  enc_ne_nil s := by simp [encodeScheme, beEncode]
  sound data off item hoff h := by
    simp only [schemeAt, bind_eq_ok] at h
    obtain ⟨b, hb, s, hs, h⟩ := h
    cases h
    have h2 : off+2 ≤ data.length := by
      by_contra hc
      rw [slice, if_neg (by omega)] at hb
      cases hb
    rw [slice_ok h2] at hb
    cases hb
    have hlen : ((data.drop off).take 2).length = 2 := by
      rw [List.length_take, List.length_drop]; omega
    obtain ⟨v, hv, hvn⟩ := readUint16_of_length hlen
    cases hv.symm.trans hs
    refine ⟨trivial, ?_⟩
    simp only [encodeScheme, hvn, beEncode_of_length hlen, ← List.drop_drop,
      List.take_append_drop]
  complete data off s t _ h := by
    have hlen : data.length-off = 2+t.length := by
      have := congrArg List.length h
      simpa [encodeScheme] using this
    obtain ⟨v, hv, hvn⟩ := readUint16_of_length (beEncode_length 2 s.toNat)
    rw [beDecode_beEncode_of_lt s.toNat_lt] at hvn
    cases UInt16.toNat_inj.mp hvn
    have hsplit := @append_split (encodeScheme s) t 2 (beEncode_length 2 _)
    have hslice : slice data off (off+2) = .ok (encodeScheme s) := by
      rw [slice_ok (by omega), h, hsplit.1]
    refine ⟨⟨s, off+2, by omega⟩, ?_, rfl, ?_⟩
    · rw [schemeAt, hslice, ok_bind]
      exact congrArg (· >>= _) hv
    · rw [← List.drop_drop, h, hsplit.2]

theorem flatMap_encodeScheme_length (schemes : List UInt16) :
    (schemes.flatMap encodeScheme).length = 2*schemes.length := by
  induction schemes with
  | nil => rfl
  | cons s schemes ih =>
    rw [List.flatMap_cons, List.length_append, ih, List.length_cons, encodeScheme,
      beEncode_length]
    omega

/-- What `marshalSignatureSchemesExtension` writes is read back as the same schemes,
whatever other extensions stand around it. -/
theorem parseSignatureSchemesExtension_marshal {typ : UInt16} {schemes : List UInt16}
    {e : Extension} (h : marshalSignatureSchemesExtension typ schemes = .ok e)
    (before after : List Extension) (hbefore : ∀ x ∈ before, x.type ≠ typ) :
    parseSignatureSchemesExtension typ (before ++ e::after) = .ok (some schemes) := by
  simp only [marshalSignatureSchemesExtension, guard_eq_ok] at h
  obtain ⟨hne, hle, h⟩ := h
  cases h
  induction before with
  | cons x before ih =>
    rw [List.cons_append, parseSignatureSchemesExtension, if_pos (hbefore x (by simp))]
    exact ih fun y hy => hbefore y (by simp [hy])
  | nil =>
    have hput : schemes.flatMap putUint16 = schemes.flatMap encodeScheme :=
      congrArg (schemes.flatMap ·) (funext putUint16_eq)
    have hlen := flatMap_encodeScheme_length schemes
    obtain ⟨v, hv, hvn⟩ := readUint16_of_length (beEncode_length 2 (2*schemes.length))
    rw [beDecode_beEncode_of_lt (by omega)] at hvn
    have hdata : (beEncode 2 (2*schemes.length) ++ schemes.flatMap encodeScheme).length =
        2+2*schemes.length := by
      rw [List.length_append, beEncode_length, hlen]
    have hloop := (schemeAt_reads.parseAll_ok
      (beEncode 2 (2*schemes.length) ++ schemes.flatMap encodeScheme) 2 schemes).mpr
      ⟨fun _ _ => trivial, (append_split (beEncode_length 2 _)).2⟩
    rw [List.nil_append, parseSignatureSchemesExtension, if_neg (by simp)]
    simp only [hput, putUint16_ofNat (show 2*schemes.length ≤ 0xFFFF by omega), hdata,
      slice_zero (show 2 ≤ (beEncode 2 (2*schemes.length) ++
        schemes.flatMap encodeScheme).length by omega),
      (append_split (beEncode_length 2 _)).1, ok_bind, hv, hvn, hloop]
    rw [if_neg (by omega), if_neg (by omega)]

/-- A vector that is read holds at least one scheme. -/
theorem parseSignatureSchemesExtension_ne_nil {typ : UInt16} {exts : List Extension}
    {schemes : List UInt16} (h : parseSignatureSchemesExtension typ exts = .ok (some schemes)) :
    schemes ≠ [] := by
  induction exts with
  | nil => cases h
  | cons e exts ih =>
    rw [parseSignatureSchemesExtension] at h
    by_cases htype : e.type ≠ typ
    · rw [if_pos htype] at h
      exact ih h
    · rw [if_neg htype] at h
      split at h
      · cases h
      · simp only [bind_eq_ok] at h
        obtain ⟨lb, _, len, _, h⟩ := h
        split at h
        · cases h
        · rename_i hlen
          rw [bind_eq_ok] at h
          obtain ⟨out, hout, h⟩ := h
          cases h
          intro hnil
          have hdrop := ((schemeAt_reads.parseAll_ok e.data 2 schemes).mp hout).2
          rw [hnil, List.flatMap_nil, List.drop_eq_nil_iff] at hdrop
          omega

def cmwAttestationOfferExtension : Extension := ⟨cmwAttestationExtensionType, []⟩

def cmwAttestationDataExtension (cmw : Bytes) : Except Error Extension :=
  if cmw.length = 0 ∨ cmw.length > 0xFFFF then .error .errInvalidLength
  else .ok ⟨cmwAttestationExtensionType, putUint16 (UInt16.ofNat cmw.length) ++ cmw⟩

/-- The first CMW extension decides; `none` stands for the result `nil, false, nil`. -/
def extractCMWAttestationFromExtensions : List Extension → Except Error (Option Bytes)
  | [] => .ok none
  | e::exts =>
    if e.type ≠ cmwAttestationExtensionType then extractCMWAttestationFromExtensions exts
    else if e.data.length < 2 then .error .errInvalidLength
    else do
      let lenBytes ← slice e.data 0 2
      let len ← readUint16 lenBytes
      let l := len.toNat
      if l ≤ 0 ∨ l ≠ e.data.length-2 then .error .errInvalidLength
      else do
        let cmw ← sliceFrom e.data 2
        .ok (some cmw)

theorem extractCMW_eq_none (exts : List Extension) :
    extractCMWAttestationFromExtensions exts = .ok none ↔
      ∀ e ∈ exts, e.type ≠ cmwAttestationExtensionType := by
  induction exts with
  | nil => simp [extractCMWAttestationFromExtensions]
  | cons e exts ih =>
    rw [extractCMWAttestationFromExtensions, List.forall_mem_cons]
    by_cases hc : e.type ≠ cmwAttestationExtensionType
    · rw [if_pos hc, ih]
      exact ⟨fun h => ⟨hc, h⟩, And.right⟩
    · rw [if_neg hc]
      simp only [guard_eq_ok, bind_eq_ok]
      constructor
      · intro h
        obtain ⟨_, _, _, _, _, _, _, _, h⟩ := h
        cases h
      · exact fun h => absurd h.1 hc

theorem extractCMW_eq_some {exts : List Extension} {cmw : Bytes}
    (h : extractCMWAttestationFromExtensions exts = .ok (some cmw)) :
    ∃ e ∈ exts, e.type = cmwAttestationExtensionType ∧ cmw ≠ [] ∧
      e.data = beEncode 2 cmw.length ++ cmw := by
  induction exts with
  | nil => cases h
  | cons e exts ih =>
    rw [extractCMWAttestationFromExtensions] at h
    by_cases hc : e.type ≠ cmwAttestationExtensionType
    · rw [if_pos hc] at h
      obtain ⟨e', he', hrest⟩ := ih h
      exact ⟨e', List.mem_cons_of_mem _ he', hrest⟩
    · rw [if_neg hc] at h
      simp only [guard_eq_ok, bind_eq_ok] at h
      obtain ⟨h2, lb, hlb, len, hlen, hl, cmw', hcmw, h⟩ := h
      cases h
      obtain ⟨a, t, ht, ha⟩ := @exists_front e.data 2 (by omega)
      rw [ht] at hlb hcmw hl
      rw [slice_zero (by simp; omega), (append_split ha).1] at hlb
      rw [sliceFrom_append ha] at hcmw
      cases hlb
      cases hcmw
      obtain ⟨v, hv, hvn⟩ := readUint16_of_length ha
      cases hv.symm.trans hlen
      have hlt : cmw.length = beDecode lb := by
        simp [ha] at hl
        omega
      refine ⟨e, List.mem_cons_self .., not_not.mp hc, ?_, ?_⟩
      · intro h
        subst h
        simp at hlt
        omega
      · rw [ht, hlt, beEncode_of_length ha]

theorem extractCMW_append {before : List Extension}
    (h : ∀ x ∈ before, x.type ≠ cmwAttestationExtensionType) (exts : List Extension) :
    extractCMWAttestationFromExtensions (before ++ exts) =
      extractCMWAttestationFromExtensions exts := by
  induction before with
  | nil => rfl
  | cons x before ih =>
    rw [List.cons_append, extractCMWAttestationFromExtensions, if_pos (h x (by simp))]
    exact ih fun y hy => h y (List.mem_cons_of_mem _ hy)

theorem extractCMW_marshal {cmw : Bytes} {e : Extension}
    (h : cmwAttestationDataExtension cmw = .ok e) (after : List Extension) :
    extractCMWAttestationFromExtensions (e::after) = .ok (some cmw) := by
  simp only [cmwAttestationDataExtension, guard_eq_ok, not_or, not_lt] at h
  obtain ⟨⟨hne, hle⟩, h⟩ := h
  cases h
  obtain ⟨v, hv, hvn⟩ := readUint16_of_length (beEncode_length 2 cmw.length)
  rw [beDecode_beEncode_of_lt (by omega)] at hvn
  have hlen : (beEncode 2 cmw.length ++ cmw).length = 2+cmw.length := by simp
  rw [extractCMWAttestationFromExtensions, if_neg (by simp)]
  simp only [putUint16_ofNat hle, hlen, ok_bind, hv, hvn, sliceFrom_append (beEncode_length 2 _),
    slice_zero (show 2 ≤ (beEncode 2 cmw.length ++ cmw).length by omega),
    (append_split (beEncode_length 2 _)).1]
  rw [if_neg (by omega), if_neg (by omega)]

def placementFrom : List CertificateEntry → Nat → Except Error Unit
  | [], _ => .ok ()
  | entry::entries, i =>
    if i ≠ 0 ∧ entry.extensions.any (·.type == cmwAttestationExtensionType) then
      .error .errBadRequest
    else placementFrom entries (i+1)

def validateCMWAttestationPlacement (entries : List CertificateEntry) : Except Error Unit :=
  placementFrom entries 0

theorem placementFrom_succ_ok (entries : List CertificateEntry) (i : Nat) :
    placementFrom entries (i+1) = .ok () ↔
      ∀ entry ∈ entries, ∀ e ∈ entry.extensions, e.type ≠ cmwAttestationExtensionType := by
  induction entries generalizing i with
  | nil => simp [placementFrom]
  | cons entry entries ih =>
    rw [placementFrom, guard_eq_ok, ih, List.forall_mem_cons]
    simp

/-- Only the leaf entry may carry the CMW extension. -/
theorem validateCMWAttestationPlacement_ok (entries : List CertificateEntry) :
    validateCMWAttestationPlacement entries = .ok () ↔
      ∀ entry ∈ entries.tail, ∀ e ∈ entry.extensions,
        e.type ≠ cmwAttestationExtensionType := by
  cases entries with
  | nil => simp [validateCMWAttestationPlacement, placementFrom]
  | cons entry entries =>
    rw [validateCMWAttestationPlacement, placementFrom, guard_eq_ok, placementFrom_succ_ok]
    simp

structure SpontaneousAuthenticatorPolicy where
  allowedSignatureSchemes : List UInt16
  allowedCertificateExtensions : List UInt16
  deriving DecidableEq, Repr

def requestPermitsCertificateExtension (req : Option AuthenticatorRequest) (typ : UInt16) : Bool :=
  match req with
  | none => false
  | some r => r.extensions.any (·.type == typ)

def policyPermitsCertificateExtension (policy : Option SpontaneousAuthenticatorPolicy)
    (typ : UInt16) : Bool :=
  match policy with
  | none => false
  | some p => p.allowedCertificateExtensions.any (· == typ)

def policyPermitsSignatureScheme (policy : Option SpontaneousAuthenticatorPolicy)
    (scheme : UInt16) : Bool :=
  match policy with
  | none => true
  | some p => p.allowedSignatureSchemes.isEmpty || p.allowedSignatureSchemes.any (· == scheme)

def validateCertificateEntryExtensions (req : Option AuthenticatorRequest)
    (policy : Option SpontaneousAuthenticatorPolicy) : List Extension → Except Error Unit
  | [] => .ok ()
  | e::exts =>
    if req.isSome then
      if !requestPermitsCertificateExtension req e.type then .error .errBadRequest
      else validateCertificateEntryExtensions req policy exts
    else if !policyPermitsCertificateExtension policy e.type then .error .errBadRequest
    else validateCertificateEntryExtensions req policy exts

def Permits (req : Option AuthenticatorRequest) (policy : Option SpontaneousAuthenticatorPolicy)
    (typ : UInt16) : Prop :=
  match req with
  | some r => ∃ e ∈ r.extensions, e.type = typ
  | none => ∃ p, policy = some p ∧ typ ∈ p.allowedCertificateExtensions

theorem permits_iff (req : Option AuthenticatorRequest)
    (policy : Option SpontaneousAuthenticatorPolicy) (typ : UInt16) :
    Permits req policy typ ↔
      (if req.isSome then requestPermitsCertificateExtension req typ
        else policyPermitsCertificateExtension policy typ) = true := by
  cases req with
  | some r => simp [Permits, requestPermitsCertificateExtension]
  | none =>
    cases policy with
    | none => simp [Permits, policyPermitsCertificateExtension]
    | some p => simp [Permits, policyPermitsCertificateExtension]

theorem validateCertificateEntryExtensions_ok (req : Option AuthenticatorRequest)
    (policy : Option SpontaneousAuthenticatorPolicy) (exts : List Extension) :
    validateCertificateEntryExtensions req policy exts = .ok () ↔
      ∀ e ∈ exts, Permits req policy e.type := by
  induction exts with
  | nil => simp [validateCertificateEntryExtensions]
  | cons e exts ih =>
    rw [validateCertificateEntryExtensions, List.forall_mem_cons, permits_iff, ← ih]
    cases req.isSome <;> simp [guard_eq_ok]

end DistributedEnclave.Ea
