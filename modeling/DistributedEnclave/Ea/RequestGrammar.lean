import DistributedEnclave.Ea.RequestExtensions

/-! The grammar that each parser of a request extension is to accept, and where the code
accepts more: `OIDFilters` throws away what follows an object identifier in its field. -/
namespace DistributedEnclave.Ea
open DistributedEnclave.Octets DistributedEnclave.Outcome DistributedEnclave.Repeat

section
variable (asn1Unmarshal : Bytes → Except Nat (List Nat × Bytes))

/-- Whenever the data is a vector of filters whose OID fields start with an object identifier,
the identifier fills its field. -/
def OIDFieldsExact (data : Bytes) : Prop :=
  ∀ xs, (∀ x ∈ xs, x.Fits ∧ ∃ oid rest, asn1Unmarshal x.rawOID = .ok (oid, rest)) →
    IsVectorOf encodeFilterField xs data →
    ∀ x ∈ xs, ∀ oid rest, asn1Unmarshal x.rawOID = .ok (oid, rest) → rest = []

def DecodesFront (der : List Nat → Bytes → Prop) : Prop :=
  ∀ b oid rest, asn1Unmarshal b = .ok (oid, rest) ↔ ∃ d, der oid d ∧ b = d ++ rest

end

section
variable (der : List Nat → Bytes → Prop)

def FilterField.Is (x : FilterField) (f : OIDFilter) : Prop :=
  x.Fits ∧ f.values = x.values ∧ der f.oid x.rawOID

/-- The data of `oid_filters`: a list of filters. -/
def IsFilters (filters : List OIDFilter) (data : Bytes) : Prop :=
  ∃ xs, List.Forall₂ (fun x f => x.Is der f) xs filters ∧ IsVectorOf encodeFilterField xs data

variable {der} {asn1Unmarshal : Bytes → Except Nat (List Nat × Bytes)}

theorem DecodesFront.whole (h : DecodesFront asn1Unmarshal der) (oid : List Nat) (b : Bytes) :
    asn1Unmarshal b = .ok (oid, []) ↔ der oid b := by
  rw [h]
  constructor
  · intro h
    obtain ⟨d, hd, rfl⟩ := h
    rwa [List.append_nil]
  · exact fun hd => ⟨b, hd, (List.append_nil b).symm⟩

theorem FilterField.Is.readAs (h : DecodesFront asn1Unmarshal der) {x : FilterField}
    {f : OIDFilter} (hx : x.Is der f) : x.ReadAs asn1Unmarshal f :=
  ⟨hx.1, hx.2.1, [], (h.whole _ _).mpr hx.2.2⟩

theorem exists_filters {xs : List FilterField}
    (h : ∀ x ∈ xs, x.Fits ∧ ∃ oid rest, asn1Unmarshal x.rawOID = .ok (oid, rest)) :
    ∃ filters, List.Forall₂ (fun x f => x.ReadAs asn1Unmarshal f) xs filters := by
  induction xs with
  | nil => exact ⟨[], .nil⟩
  | cons x xs ih =>
    obtain ⟨hfit, oid, rest, hoid⟩ := h x (by simp)
    obtain ⟨filters, hfilters⟩ := ih fun y hy => h y (by simp [hy])
    exact ⟨⟨oid, x.values⟩::filters, .cons ⟨hfit, rfl, rest, hoid⟩ hfilters⟩

theorem forall₂_fields {stands : FilterField → OIDFilter → Prop} {P : FilterField → Prop}
    (hP : ∀ x f, stands x f → P x) {xs : List FilterField} {filters : List OIDFilter}
    (h : List.Forall₂ stands xs filters) : ∀ x ∈ xs, P x :=
  ((List.forall₂_and_left _ _).mp (h.imp fun x f hx => ⟨hP x f hx, hx⟩)).1

/-- The fields that a vector is joined from are determined by its data. -/
theorem vectorOf_fields_inj {xs ys : List FilterField} {data : Bytes} (hxs : ∀ x ∈ xs, x.Fits)
    (hys : ∀ y ∈ ys, y.Fits) (h : IsVectorOf encodeFilterField xs data)
    (h' : IsVectorOf encodeFilterField ys data) : xs = ys := by
  have hdrop := ((isVectorOf_iff ..).mp h).2.symm.trans ((isVectorOf_iff ..).mp h').2
  refine flatMap_inj (fun x => ?_) (fun x y s t hx hy => encodeFilterField_append_inj hx hy)
    hxs hys hdrop
  simp [encodeFilterField]

/-- The parser accepts exactly the grammar on exactly the data whose OID fields hold nothing
but an object identifier. -/
theorem parseFilters_exact_iff (h : DecodesFront asn1Unmarshal der) (data : Bytes) :
    (∀ filters, parseFilters asn1Unmarshal data = .ok filters ↔ IsFilters der filters data) ↔
      OIDFieldsExact asn1Unmarshal data := by
  simp only [parseFilters_ok]
  constructor
  · intro hall xs hxs hdata x hx oid rest hoid
    obtain ⟨filters, hfilters⟩ := exists_filters hxs
    obtain ⟨ys, hys, hdata'⟩ := (hall filters).mp ⟨xs, hfilters, hdata⟩
    have hfits := forall₂_fields (fun x _ (hx : x.Is der _) => hx.1) hys
    obtain rfl := vectorOf_fields_inj (fun x hx => (hxs x hx).1) hfits hdata hdata'
    obtain ⟨oid', hder⟩ := forall₂_fields (P := fun x => ∃ oid, der oid x.rawOID)
      (fun x f (hx : x.Is der f) => ⟨f.oid, hx.2.2⟩) hys x hx
    have heq := hoid.symm.trans ((h.whole _ _).mpr hder)
    simp only [Except.ok.injEq, Prod.mk.injEq] at heq
    exact heq.2
  · intro hexact filters
    constructor
    · intro h
      obtain ⟨xs, hxs, hdata⟩ := h
      have hread : ∀ x ∈ xs, x.Fits ∧ ∃ oid rest, asn1Unmarshal x.rawOID = .ok (oid, rest) :=
        forall₂_fields (fun x f (hx : x.ReadAs asn1Unmarshal f) => ⟨hx.1, f.oid, hx.2.2⟩) hxs
      have hnone := hexact xs hread hdata
      refine ⟨xs, ((List.forall₂_and_left _ _).mpr ⟨hnone, hxs⟩).imp ?_, hdata⟩
      intro x f hfield
      obtain ⟨hrest, hfit, hvalues, rest, hoid⟩ := hfield
      obtain rfl := hrest f.oid rest hoid
      exact ⟨hfit, hvalues, (h.whole _ _).mp hoid⟩
    · intro h
      obtain ⟨xs, hxs, hdata⟩ := h
      exact ⟨xs, hxs.imp fun _ _ hx => hx.readAs h, hdata⟩

end

/-- The data of a signature-schemes extension: a non-empty list of schemes. -/
def IsSchemes (schemes : List UInt16) (data : Bytes) : Prop :=
  schemes ≠ [] ∧ IsVectorOf encodeScheme schemes data

def FirstHas (typ : UInt16) (exts : List Extension) (is : Bytes → Prop) : Prop :=
  ∃ e, firstOfType typ exts = some e ∧ is e.data

theorem schemes_vector (data : Bytes) (schemes : List UInt16) (h2 : ¬data.length < 2) :
    (do
      let lenBytes ← slice data 0 2
      let len ← readUint16 lenBytes
      let vecLen := len.toNat
      if vecLen < 2 ∨ vecLen%2 ≠ 0 ∨ data.length ≠ 2+vecLen then .ok none
      else do
        let out ← parseAll schemeAt data 2
        .ok (some out)) = (.ok (some schemes) : Except Error (Option (List UInt16))) ↔
      IsSchemes schemes data := by
  obtain ⟨lb, total, hlb, htotal, hvec⟩ := exists_total h2
  have hlen : data.length = 2+(data.drop 2).length := by simp; omega
  simp only [hlb, htotal, ok_bind]
  constructor
  · intro h
    split at h
    · cases h
    · rename_i hc
      rw [bind_eq_ok] at h
      obtain ⟨out, hout, h⟩ := h
      cases h
      obtain ⟨_, hdrop⟩ := (schemeAt_reads.parseAll_ok data 2 schemes).mp hout
      refine ⟨?_, (isVectorOf_iff ..).mpr ⟨hvec.mp (by omega), hdrop⟩⟩
      intro h
      subst h
      rw [hdrop, List.flatMap_nil, List.length_nil] at hlen
      omega
  · intro h
    obtain ⟨hne, h⟩ := h
    obtain ⟨hdata, hdrop⟩ := (isVectorOf_iff ..).mp h
    have htot := hvec.mpr hdata
    have hsize := flatMap_encodeScheme_length schemes
    have hpos : 0 < schemes.length := List.length_pos_iff.mpr hne
    rw [hdrop] at hlen
    rw [if_neg (by omega),
      (schemeAt_reads.parseAll_ok data 2 schemes).mpr ⟨fun _ _ => trivial, hdrop⟩]
    rfl

theorem parseSignatureSchemesExtension_some (typ : UInt16) (exts : List Extension)
    (schemes : List UInt16) :
    parseSignatureSchemesExtension typ exts = .ok (some schemes) ↔
      FirstHas typ exts (IsSchemes schemes) := by
  induction exts with
  | nil => simp [parseSignatureSchemesExtension, FirstHas, firstOfType]
  | cons e exts ih =>
    rw [parseSignatureSchemesExtension]
    by_cases htype : e.type ≠ typ
    · rw [if_pos htype, ih]
      simp [FirstHas, firstOfType, htype]
    · rw [if_neg htype]
      have hfirst : firstOfType typ (e::exts) = some e := by
        simp [firstOfType, not_not.mp htype]
      have hhas : FirstHas typ (e::exts) (IsSchemes schemes) ↔ IsSchemes schemes e.data := by
        simp [FirstHas, hfirst]
      rw [hhas]
      by_cases h2 : e.data.length < 2
      · rw [if_pos h2]
        constructor
        · intro h
          cases h
        · intro h
          obtain ⟨_, _, hdata⟩ := h
          rw [hdata, encodeVector_length] at h2
          omega
      · rw [if_neg h2]
        exact schemes_vector e.data schemes h2

theorem certificateAuthorities_some (r : AuthenticatorRequest) (names : List Bytes) :
    r.certificateAuthorities = .ok (some names) ↔
      FirstHas certificateAuthoritiesExtensionType r.extensions (IsAuthorities names) := by
  rw [AuthenticatorRequest.certificateAuthorities, FirstHas]
  cases firstOfType certificateAuthoritiesExtensionType r.extensions with
  | none => simp
  | some e => simp [Attempt.result_some, parseAuthorities_ok]

/-- The parsers of the scheme lists and of the authorities accept exactly their grammar. The
parser of the OID filters does so exactly where no OID field has bytes behind its object
identifier. -/
theorem requestExtensions_exact {asn1Unmarshal : Bytes → Except Nat (List Nat × Bytes)}
    {der : List Nat → Bytes → Prop} (hasn1 : DecodesFront asn1Unmarshal der)
    (r : AuthenticatorRequest) :
    (∀ schemes, r.signatureSchemes = .ok (some schemes) ↔
      FirstHas signatureAlgorithmsExtensionType r.extensions (IsSchemes schemes)) ∧
    (∀ schemes, r.signatureSchemesCert = .ok (some schemes) ↔
      FirstHas signatureAlgorithmsCertExtensionType r.extensions (IsSchemes schemes)) ∧
    (∀ names, r.certificateAuthorities = .ok (some names) ↔
      FirstHas certificateAuthoritiesExtensionType r.extensions (IsAuthorities names)) ∧
    ((∀ filters, r.oidFilters asn1Unmarshal = .ok (some filters) ↔
        FirstHas oidFiltersExtensionType r.extensions (IsFilters der filters)) ↔
      ∀ e, firstOfType oidFiltersExtensionType r.extensions = some e →
        OIDFieldsExact asn1Unmarshal e.data) := by
  refine ⟨parseSignatureSchemesExtension_some _ _, parseSignatureSchemesExtension_some _ _,
    certificateAuthorities_some r, ?_⟩
  simp only [AuthenticatorRequest.oidFilters, FirstHas]
  cases firstOfType oidFiltersExtensionType r.extensions with
  | none => simp
  | some e =>
    simp only [Attempt.result_some, Option.some.injEq, exists_eq_left', forall_eq']
    exact parseFilters_exact_iff hasn1 e.data

def subidentifiers (acc : Nat) : Bytes → Option (List Nat)
  | [] => none
  | b::bs =>
    if acc = 0 ∧ b = 0x80 then none
    else if b ≥ 0x80 then subidentifiers (acc*128+(b.toNat-128)) bs
    else if bs = [] then some [acc*128+b.toNat]
    else (subidentifiers 0 bs).map ((acc*128+b.toNat) :: ·)

def objectIdentifier (content : Bytes) : Option (List Nat) :=
  match subidentifiers 0 content with
  | some (v::arcs) => some (if v < 80 then v/40 :: v%40 :: arcs else 2 :: (v-80) :: arcs)
  | _ => none

/-- The decoder for identifiers whose length takes one octet. -/
def unmarshalObjectIdentifier : Bytes → Except Nat (List Nat × Bytes)
  | tag::len::t =>
    if tag ≠ 0x06 ∨ len.toNat ≥ 0x80 ∨ len.toNat > t.length then .error 0
    else
      match objectIdentifier (t.take len.toNat) with
      | some oid => .ok (oid, t.drop len.toNat)
      | none => .error 0
  | _ => .error 0

def IsObjectIdentifier (oid : List Nat) (d : Bytes) : Prop :=
  ∃ len content, d = 0x06::len::content ∧ len.toNat < 0x80 ∧ content.length = len.toNat ∧
    objectIdentifier content = some oid

theorem unmarshalObjectIdentifier_front :
    DecodesFront unmarshalObjectIdentifier IsObjectIdentifier := by
  intro b oid rest
  constructor
  · intro h
    match b, h with
    | tag::len::t, h =>
      rw [unmarshalObjectIdentifier, guard_eq_ok] at h
      obtain ⟨hc, h⟩ := h
      simp only [ne_eq, not_or, not_not, not_le, not_lt] at hc
      obtain ⟨rfl, hlen, hle⟩ := hc
      split at h
      · rename_i oid' hoid
        cases h
        refine ⟨0x06::len::t.take len.toNat, ⟨len, _, rfl, hlen, ?_, hoid⟩, ?_⟩
        · rw [List.length_take]
          omega
        · rw [List.cons_append, List.cons_append, List.take_append_drop]
      · cases h
  · intro h
    obtain ⟨_, ⟨len, content, rfl, hlen, hcontent, hoid⟩, rfl⟩ := h
    have hc : ¬((0x06 : UInt8) ≠ 0x06 ∨ len.toNat ≥ 0x80 ∨ len.toNat > (content ++ rest).length) := by
      rw [List.length_append, hcontent]
      intro hc
      obtain hc | hc | hc := hc
      · exact hc rfl
      · omega
      · omega
    rw [List.cons_append, List.cons_append, unmarshalObjectIdentifier, if_neg hc,
      (append_split hcontent).1, (append_split hcontent).2, hoid]

def trailingOIDField : FilterField := ⟨[0x06, 0x03, 0x55, 0x04, 0x03, 0x00], [0x6F, 0x6B]⟩

def trailingOIDRequest : AuthenticatorRequest where
  type := handshakeTypeCertificateRequest
  context := [0x2A]
  extensions := [⟨signatureAlgorithmsExtensionType, [0x00, 0x02, 0x04, 0x03]⟩,
    ⟨oidFiltersExtensionType, encodeVector (encodeFilterField trailingOIDField)⟩]

theorem trailingOIDRequest_exact :
    FirstHas signatureAlgorithmsExtensionType trailingOIDRequest.extensions
      (IsSchemes [0x0403]) :=
  ((requestExtensions_exact unmarshalObjectIdentifier_front trailingOIDRequest).1 [0x0403]).mp
    (by decide +kernel)

/-- The filter is returned although its OID field is more than an object identifier. -/
theorem trailingOID_accepted :
    trailingOIDRequest.oidFilters unmarshalObjectIdentifier =
        .ok (some [⟨[2, 5, 4, 3], [0x6F, 0x6B]⟩]) ∧
      ¬∀ filters, trailingOIDRequest.oidFilters unmarshalObjectIdentifier = .ok (some filters) ↔
        FirstHas oidFiltersExtensionType trailingOIDRequest.extensions
          (IsFilters IsObjectIdentifier filters) := by
  have hrun : trailingOIDRequest.oidFilters unmarshalObjectIdentifier =
      .ok (some [⟨[2, 5, 4, 3], [0x6F, 0x6B]⟩]) := by decide +kernel
  refine ⟨hrun, fun hall => ?_⟩
  obtain ⟨e, he, xs, hxs, hdata⟩ := (hall _).mp hrun
  obtain rfl : ⟨oidFiltersExtensionType, encodeVector (encodeFilterField trailingOIDField)⟩ = e :=
    Option.some.inj he
  have hfits := forall₂_fields (fun x f (hx : x.Is IsObjectIdentifier f) => hx.1) hxs
  obtain rfl : [trailingOIDField] = xs := by
    refine vectorOf_fields_inj ?_ hfits ?_ hdata
    · intro x hx
      obtain rfl := List.mem_singleton.mp hx
      exact ⟨by decide, by decide, by decide⟩
    · exact ⟨by decide, by rw [List.flatMap_singleton]⟩
  obtain ⟨_, _, len, content, heq, _, hcontent, _⟩ := (List.forall₂_cons.mp hxs).1
  cases heq
  exact absurd hcontent (by decide)

end DistributedEnclave.Ea
