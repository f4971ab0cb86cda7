import DistributedEnclave.Ea.Policy

/-! The parsers of the request extensions `certificate_authorities` and `oid_filters`, with
the byte strings that each of them reads. -/
namespace DistributedEnclave.Ea
open DistributedEnclave.Octets DistributedEnclave.Outcome DistributedEnclave.Repeat

def certificateAuthoritiesExtensionType : UInt16 := 0x002f
def oidFiltersExtensionType : UInt16 := 0x0030

structure OIDFilter where
  oid : List Nat
  values : Bytes
  deriving DecidableEq, Repr

/-- A computation that may end with `return nil, false`, which is the failure `none`. -/
abbrev Attempt (α : Type) := Except (Option Error) α

def attempt {α : Type} (x : Except Error α) : Attempt α :=
  match x with
  | .ok a => .ok a
  | .error e => .error (some e)

def Attempt.result {α : Type} (x : Attempt α) : Except Error (Option α) :=
  match x with
  | .ok a => .ok (some a)
  | .error none => .ok none
  | .error (some e) => .error e

/-- One round of the loop of `CertificateAuthorities`. -/
def authorityAt (data : Bytes) (off : Nat) : Attempt (Item Bytes off) :=
  if data.length-off < 2 then .error none
  else do
    let lenBytes ← attempt (slice data off (off+2))
    let len ← attempt (readUint16 lenBytes)
    let l := len.toNat
    if l = 0 ∨ l > data.length-(off+2) then .error none
    else do
      let name ← attempt (slice data (off+2) (off+2+l))
      .ok ⟨name, off+2+l, by omega⟩

def parseAuthorities (data : Bytes) : Attempt (List Bytes) :=
  if data.length < 2 then .error none
  else do
    let totalBytes ← attempt (slice data 0 2)
    let totalLen ← attempt (readUint16 totalBytes)
    let total := totalLen.toNat
    if total < 3 ∨ data.length ≠ 2+total then .error none
    else parseAll authorityAt data 2

def firstOfType (typ : UInt16) (exts : List Extension) : Option Extension :=
  exts.find? (·.type == typ)

def AuthenticatorRequest.certificateAuthorities (r : AuthenticatorRequest) :
    Except Error (Option (List Bytes)) :=
  match firstOfType certificateAuthoritiesExtensionType r.extensions with
  | none => .ok none
  | some e => (parseAuthorities e.data).result

section
variable (asn1Unmarshal : Bytes → Except Nat (List Nat × Bytes))

/-- One round of the loop of `OIDFilters`. What `asn1.Unmarshal` leaves over is thrown away. -/
def filterAt (data : Bytes) (off : Nat) : Attempt (Item OIDFilter off) :=
  if data.length-off < 1 then .error none
  else do
    let len ← attempt (index data off)
    let oidLen := len.toNat
    if oidLen = 0 ∨ oidLen > data.length-(off+1) then .error none
    else do
      let rawOID ← attempt (slice data (off+1) (off+1+oidLen))
      match asn1Unmarshal rawOID with
      | .error _ => .error none
      | .ok (oid, _) =>
        if data.length-(off+1+oidLen) < 2 then .error none
        else do
          let valBytes ← attempt (slice data (off+1+oidLen) (off+1+oidLen+2))
          let valLenBytes ← attempt (readUint16 valBytes)
          let valLen := valLenBytes.toNat
          if valLen > data.length-(off+1+oidLen+2) then .error none
          else do
            let values ← attempt (slice data (off+1+oidLen+2) (off+1+oidLen+2+valLen))
            .ok ⟨⟨oid, values⟩, off+1+oidLen+2+valLen, by omega⟩

def parseFilters (data : Bytes) : Attempt (List OIDFilter) :=
  if data.length < 2 then .error none
  else do
    let totalBytes ← attempt (slice data 0 2)
    let totalLen ← attempt (readUint16 totalBytes)
    let total := totalLen.toNat
    if data.length ≠ 2+total then .error none
    else parseAll (filterAt asn1Unmarshal) data 2

def AuthenticatorRequest.oidFilters (r : AuthenticatorRequest) :
    Except Error (Option (List OIDFilter)) :=
  match firstOfType oidFiltersExtensionType r.extensions with
  | none => .ok none
  | some e => (parseFilters asn1Unmarshal e.data).result

end

theorem Attempt.result_some {α : Type} (x : Attempt α) (a : α) :
    x.result = .ok (some a) ↔ x = .ok a := by
  match x with
  | .ok b => simp [Attempt.result]
  | .error none => simp [Attempt.result]
  | .error (some e) => simp [Attempt.result]

@[simp] theorem attempt_ok {α : Type} (a : α) : attempt (.ok a : Except Error α) = .ok a := rfl

theorem attempt_eq_ok {α : Type} (x : Except Error α) (a : α) : attempt x = .ok a ↔ x = .ok a := by
  cases x <;> simp [attempt]

def encodeVector (payload : Bytes) : Bytes := beEncode 2 payload.length ++ payload

/-- The header of a 16-bit vector: it is read without fault, and it states the length of the
rest exactly when the data is the image of that rest. -/
theorem exists_total {data : Bytes} (h : ¬data.length < 2) :
    ∃ lenBytes total, slice data 0 2 = .ok lenBytes ∧ readUint16 lenBytes = .ok total ∧
      (data.length = 2+total.toNat ↔
        (data.drop 2).length ≤ 0xFFFF ∧ data = encodeVector (data.drop 2)) := by
  obtain ⟨lb, t, rfl, hlb⟩ := @exists_front data 2 (by omega)
  obtain ⟨total, htotal, hn⟩ := readUint16_of_length hlb
  have hlt : beDecode lb < 256^2 := by simpa [hlb] using beDecode_lt lb
  refine ⟨lb, total, by rw [slice_zero (by omega), (append_split hlb).1], htotal, ?_⟩
  rw [(append_split hlb).2, List.length_append, hlb, hn, encodeVector]
  constructor
  · intro hlen
    have heq : t.length = beDecode lb := by omega
    exact ⟨by omega, by rw [heq, beEncode_of_length hlb]⟩
  · intro h
    obtain ⟨hle, heq⟩ := h
    have hb : lb = beEncode 2 t.length := List.append_cancel_right heq
    rw [hb, beDecode_beEncode_of_lt (by omega)]

theorem encodeVector_drop (payload : Bytes) : (encodeVector payload).drop 2 = payload :=
  (append_split (beEncode_length 2 _)).2

theorem encodeVector_length (payload : Bytes) : (encodeVector payload).length = 2+payload.length := by
  simp [encodeVector]

def IsVectorOf {β : Type} (enc : β → Bytes) (xs : List β) (data : Bytes) : Prop :=
  (xs.flatMap enc).length ≤ 0xFFFF ∧ data = encodeVector (xs.flatMap enc)

theorem isVectorOf_iff {β : Type} (enc : β → Bytes) (xs : List β) (data : Bytes) :
    IsVectorOf enc xs data ↔ ((data.drop 2).length ≤ 0xFFFF ∧ data = encodeVector (data.drop 2)) ∧
      data.drop 2 = xs.flatMap enc := by
  constructor
  · intro h
    obtain ⟨hle, rfl⟩ := h
    rw [encodeVector_drop]
    exact ⟨⟨hle, rfl⟩, rfl⟩
  · intro h
    obtain ⟨⟨hle, hdata⟩, hdrop⟩ := h
    rw [hdrop] at hle hdata
    exact ⟨hle, hdata⟩

theorem slice_of_drop {b a t : Bytes} {lo n : Nat} (h : b.drop lo = a ++ t) (ha : a.length = n)
    (hlo : lo ≤ b.length) : slice b lo (lo+n) = .ok a ∧ b.drop (lo+n) = t := by
  have hlen := congrArg List.length h
  rw [List.length_drop, List.length_append, ha] at hlen
  rw [slice_ok (by omega), ← List.drop_drop, h, (append_split ha).1, (append_split ha).2]
  exact ⟨rfl, rfl⟩

def encodeAuthority (name : Bytes) : Bytes := encodeVector name

theorem authorityAt_header {data : Bytes} {off : Nat} {lb t : Bytes} (hlb : lb.length = 2)
    (h : data.drop off = lb ++ t) :
    authorityAt data off =
      if _hc : beDecode lb = 0 ∨ beDecode lb > t.length then .error none
      else .ok ⟨t.take (beDecode lb), off+2+beDecode lb, by omega⟩ := by
  have hlen : data.length-off = 2+t.length := by
    have := congrArg List.length h
    simpa [hlb] using this
  obtain ⟨hslice, hdrop⟩ := slice_of_drop h hlb (by omega)
  obtain ⟨v, hv, hvn⟩ := readUint16_of_length hlb
  rw [authorityAt, if_neg (by omega)]
  simp only [hslice, attempt_ok, ok_bind, hv, hvn]
  by_cases hc : beDecode lb = 0 ∨ beDecode lb > t.length
  · rw [if_pos (by omega), dif_pos hc]
  · rw [if_neg (by omega), dif_neg hc, slice_ok (by omega), hdrop]
    rfl

def AuthorityFits (name : Bytes) : Prop := name ≠ [] ∧ name.length ≤ 0xFFFF

theorem authorityAt_reads : Reads authorityAt encodeAuthority AuthorityFits where
  enc_ne_nil name := by simp [encodeAuthority, encodeVector, beEncode]
  sound data off item hoff h := by
    by_cases h2 : data.length-off < 2
    · rw [authorityAt, if_pos h2] at h
      cases h
    obtain ⟨lb, t, ht, hlb⟩ := @exists_front (data.drop off) 2 (by simp; omega)
    have hlt : beDecode lb < 256^2 := by simpa [hlb] using beDecode_lt lb
    rw [authorityAt_header hlb ht] at h
    split at h
    · cases h
    · rename_i hc
      cases h
      have hname : (t.take (beDecode lb)).length = beDecode lb := by
        rw [List.length_take]; omega
      refine ⟨⟨?_, by simp only [hname]; omega⟩, ?_⟩
      · intro hnil
        simp only at hnil
        rw [hnil, List.length_nil] at hname
        omega
      · simp only [encodeAuthority, encodeVector, hname, beEncode_of_length hlb]
        rw [← List.drop_drop, ← List.drop_drop, ht, (append_split hlb).2, List.append_assoc,
          List.take_append_drop]
  complete data off name t hfit h := by
    obtain ⟨hne, hle⟩ := hfit
    have hdec : beDecode (beEncode 2 name.length) = name.length :=
      beDecode_beEncode_of_lt (by omega)
    have hpos : 0 < name.length := List.length_pos_iff.mpr hne
    have hdrop : data.drop off = beEncode 2 name.length ++ (name ++ t) := by
      rw [h, encodeAuthority, encodeVector, List.append_assoc]
    have hstep := authorityAt_header (beEncode_length 2 _) hdrop
    rw [dif_neg (by rw [hdec]; simp; omega)] at hstep
    refine ⟨_, hstep, by simp only [hdec, List.take_left], ?_⟩
    simp only [hdec]
    rw [← List.drop_drop, ← List.drop_drop, hdrop, (append_split (beEncode_length 2 _)).2,
      List.drop_left]

theorem length_le_flatMap_length {β : Type} {enc : β → Bytes} {xs : List β} {x : β}
    (hx : x ∈ xs) : (enc x).length ≤ (xs.flatMap enc).length :=
  (List.sublist_flatten_of_mem (List.mem_map_of_mem hx)).length_le

/-- The data of `certificate_authorities`: a non-empty list of non-empty names. -/
def IsAuthorities (names : List Bytes) (data : Bytes) : Prop :=
  names ≠ [] ∧ (∀ name ∈ names, name ≠ []) ∧ IsVectorOf encodeAuthority names data

theorem IsAuthorities.fits {names : List Bytes} {data : Bytes} (h : IsAuthorities names data) :
    ∀ name ∈ names, AuthorityFits name := by
  intro name hname
  refine ⟨h.2.1 name hname, ?_⟩
  have hlen := @length_le_flatMap_length _ encodeAuthority _ _ hname
  have hle := h.2.2.1
  rw [encodeAuthority, encodeVector_length] at hlen
  omega

theorem parseAuthorities_ok (data : Bytes) (names : List Bytes) :
    parseAuthorities data = .ok names ↔ IsAuthorities names data := by
  by_cases h2 : data.length < 2
  · have hno : ¬IsAuthorities names data := by
      intro h
      obtain ⟨_, _, _, rfl⟩ := h
      rw [encodeVector_length] at h2
      omega
    simp [parseAuthorities, h2, hno]
  obtain ⟨lb, total, hlb, htotal, hvec⟩ := exists_total h2
  have hlen : data.length = 2+(data.drop 2).length := by simp; omega
  rw [parseAuthorities, if_neg h2]
  simp only [hlb, htotal, attempt_ok, ok_bind, guard_eq_ok, authorityAt_reads.parseAll_ok, not_or,
    not_not, hvec]
  constructor
  · intro h
    obtain ⟨⟨h3, hdata⟩, hfits, hdrop⟩ := h
    have htot : total.toNat = (data.drop 2).length := by
      have := hvec.mpr hdata
      omega
    refine ⟨?_, fun name hname => (hfits name hname).1,
      (isVectorOf_iff ..).mpr ⟨hdata, hdrop⟩⟩
    intro h
    subst h
    rw [hdrop, List.flatMap_nil, List.length_nil] at htot
    omega
  · intro h
    obtain ⟨hdata, hdrop⟩ := (isVectorOf_iff ..).mp h.2.2
    have htot : total.toNat = (data.drop 2).length := by
      have := hvec.mpr hdata
      omega
    refine ⟨⟨?_, hdata⟩, h.fits, hdrop⟩
    -- one name takes at least two length octets and one octet of its own
    obtain ⟨name, hname⟩ := List.exists_mem_of_ne_nil names h.1
    have hpos : 0 < name.length := List.length_pos_iff.mpr (h.fits name hname).1
    have hle := @length_le_flatMap_length _ encodeAuthority _ _ hname
    rw [encodeAuthority, encodeVector_length, ← hdrop] at hle
    omega

structure FilterField where
  rawOID : Bytes
  values : Bytes
  deriving DecidableEq, Repr

def encodeFilterField (x : FilterField) : Bytes :=
  UInt8.ofNat x.rawOID.length :: (x.rawOID ++ encodeVector x.values)

structure FilterField.Fits (x : FilterField) : Prop where
  nonempty : x.rawOID ≠ []
  rawOID : x.rawOID.length ≤ 0xFF
  values : x.values.length ≤ 0xFFFF

theorem FilterField.Fits.length {x : FilterField} (h : x.Fits) :
    (UInt8.ofNat x.rawOID.length).toNat = x.rawOID.length := by
  have := h.rawOID
  rw [UInt8.toNat_ofNat']
  omega

theorem encodeVector_append_inj {a a' t t' : Bytes} (ha : a.length ≤ 0xFFFF)
    (ha' : a'.length ≤ 0xFFFF) (h : encodeVector a ++ t = encodeVector a' ++ t') :
    a = a' ∧ t = t' := by
  rw [encodeVector, encodeVector, List.append_assoc, List.append_assoc] at h
  obtain ⟨hlen, h⟩ := List.append_inj h (by simp)
  exact List.append_inj h (beEncode_inj (by omega) (by omega) hlen)

theorem encodeFilterField_append_inj {x y : FilterField} {t t' : Bytes} (hx : x.Fits)
    (hy : y.Fits) (h : encodeFilterField x ++ t = encodeFilterField y ++ t') :
    x = y ∧ t = t' := by
  obtain ⟨rawOID, values⟩ := x
  obtain ⟨rawOID', values'⟩ := y
  simp only [encodeFilterField, List.cons_append, List.append_assoc, List.cons.injEq] at h
  obtain ⟨hhead, h⟩ := h
  have hlen : rawOID.length = rawOID'.length :=
    hx.length.symm.trans ((congrArg UInt8.toNat hhead).trans hy.length)
  obtain ⟨rfl, hvec⟩ := List.append_inj h hlen
  obtain ⟨rfl, rfl⟩ := @encodeVector_append_inj values values' t t' hx.values hy.values hvec
  exact ⟨rfl, rfl⟩

section
variable (asn1Unmarshal : Bytes → Except Nat (List Nat × Bytes))

/-- The filter that the code makes of a field: the OID field starts with the identifier. -/
def FilterField.ReadAs (x : FilterField) (f : OIDFilter) : Prop :=
  x.Fits ∧ f.values = x.values ∧ ∃ rest, asn1Unmarshal x.rawOID = .ok (f.oid, rest)

theorem index_of_drop {data t : Bytes} {off : Nat} {l : UInt8} (h : data.drop off = l :: t) :
    index data off = .ok l := by
  have hget : data[off]? = some l := by
    have := congrArg (·[0]?) h
    simpa using this
  simp [index, hget]

/-- A filter that is read is the image of a field, in front of what is left. -/
theorem filterAt_sound {data : Bytes} {off : Nat} {item : Item OIDFilter off}
    (hoff : off < data.length) (h : filterAt asn1Unmarshal data off = .ok item) :
    ∃ x : FilterField, x.ReadAs asn1Unmarshal item.value ∧
      data.drop off = encodeFilterField x ++ data.drop item.next := by
  obtain ⟨l, t, hd⟩ := List.exists_cons_of_length_pos
    (show 0 < (data.drop off).length by simp; omega)
  have hlen := congrArg List.length hd
  rw [List.length_drop, List.length_cons] at hlen
  have hd1 : data.drop (off+1) = t := by rw [← List.drop_drop, hd]; rfl
  rw [filterAt, if_neg (by omega)] at h
  simp only [index_of_drop hd, attempt_ok, ok_bind, guard_eq_ok, not_or, not_lt] at h
  obtain ⟨⟨hpos, hle⟩, h⟩ := h
  obtain ⟨rawOID, t1, rfl, hraw⟩ := @exists_front t l.toNat (by omega)
  obtain ⟨hs1, hd2⟩ := slice_of_drop hd1 hraw (by omega)
  rw [hs1, attempt_ok, ok_bind] at h
  rw [List.length_append, hraw] at hlen
  split at h
  · cases h
  rename_i oid rest hoid
  rw [guard_eq_ok] at h
  obtain ⟨h2, h⟩ := h
  obtain ⟨vb, t2, rfl, hvb⟩ := @exists_front t1 2 (by omega)
  obtain ⟨hs2, hd3⟩ := slice_of_drop hd2 hvb (by omega)
  obtain ⟨v, hv, hvn⟩ := readUint16_of_length hvb
  rw [List.length_append, hvb] at hlen
  simp only [hs2, hv, hvn, attempt_ok, ok_bind, guard_eq_ok, not_lt] at h
  obtain ⟨hvle, h⟩ := h
  obtain ⟨values, t3, rfl, hvalues⟩ := @exists_front t2 (beDecode vb) (by omega)
  obtain ⟨hs3, hd4⟩ := slice_of_drop hd3 hvalues (by omega)
  rw [hs3, attempt_ok, ok_bind] at h
  cases h
  have hlt : beDecode vb < 256^2 := by simpa [hvb] using beDecode_lt vb
  have hl := l.toNat_lt
  refine ⟨⟨rawOID, values⟩, ⟨⟨?_, by simp only [hraw]; omega, by simp only [hvalues]; omega⟩,
    rfl, rest, hoid⟩, ?_⟩
  · intro hnil
    simp only at hnil
    rw [hnil, List.length_nil] at hraw
    exact hpos hraw.symm
  · simp only [hd4, encodeFilterField, encodeVector, hraw, UInt8.ofNat_toNat, hvalues,
      beEncode_of_length hvb, hd, List.cons_append, List.append_assoc]

/-- The image of a field is read back, and no more. -/
theorem filterAt_complete {data t : Bytes} {off : Nat} {x : FilterField} {f : OIDFilter}
    (hx : x.ReadAs asn1Unmarshal f) (h : data.drop off = encodeFilterField x ++ t) :
    ∃ item, filterAt asn1Unmarshal data off = .ok item ∧ item.value = f ∧
      data.drop item.next = t := by
  obtain ⟨hfit, hvalues, rest, hoid⟩ := hx
  obtain ⟨oid, values⟩ := f
  obtain rfl := hvalues
  have hlen := congrArg List.length h
  rw [List.length_drop, List.length_append, encodeFilterField, List.length_cons,
    List.length_append, encodeVector_length] at hlen
  have hd1 : data.drop (off+1) =
      x.rawOID ++ (beEncode 2 x.values.length ++ (x.values ++ t)) := by
    rw [← List.drop_drop, h, encodeFilterField, encodeVector]
    simp
  have hpos : 0 < x.rawOID.length := List.length_pos_iff.mpr hfit.nonempty
  have hv2 := hfit.values
  obtain ⟨hs1, hd2⟩ := slice_of_drop hd1 rfl (by omega)
  obtain ⟨hs2, hd3⟩ := slice_of_drop hd2 (beEncode_length 2 _) (by omega)
  obtain ⟨hs3, hd4⟩ := slice_of_drop hd3 rfl (by omega)
  obtain ⟨v, hv, hvn⟩ := readUint16_of_length (beEncode_length 2 x.values.length)
  rw [beDecode_beEncode_of_lt (by omega)] at hvn
  rw [encodeFilterField, List.cons_append] at h
  refine ⟨⟨⟨oid, x.values⟩, off+1+x.rawOID.length+2+x.values.length, by omega⟩, ?_, rfl, hd4⟩
  rw [filterAt, if_neg (by omega)]
  simp only [index_of_drop h, attempt_ok, ok_bind, hfit.length]
  rw [if_neg (by omega)]
  simp only [hs1, attempt_ok, ok_bind, hoid]
  rw [if_neg (by omega)]
  simp only [hs2, attempt_ok, ok_bind, hv, hvn]
  rw [if_neg (by omega)]
  simp only [hs3, attempt_ok, ok_bind]

theorem filterAt_reads :
    ReadsAs (filterAt asn1Unmarshal) encodeFilterField fun x f => x.ReadAs asn1Unmarshal f where
  enc_ne_nil x := by simp [encodeFilterField]
  sound _ _ _ hoff h := filterAt_sound asn1Unmarshal hoff h
  complete _ _ _ _ _ hx h := filterAt_complete asn1Unmarshal hx h

theorem parseFilters_ok (data : Bytes) (filters : List OIDFilter) :
    parseFilters asn1Unmarshal data = .ok filters ↔
      ∃ xs, List.Forall₂ (fun x f => x.ReadAs asn1Unmarshal f) xs filters ∧
        IsVectorOf encodeFilterField xs data := by
  by_cases h2 : data.length < 2
  · have hno : ∀ xs, ¬IsVectorOf encodeFilterField xs data := by
      intro xs hxs
      obtain ⟨_, rfl⟩ := hxs
      rw [encodeVector_length] at h2
      omega
    simp [parseFilters, h2, hno]
  obtain ⟨lb, total, hlb, htotal, hvec⟩ := exists_total h2
  rw [parseFilters, if_neg h2]
  simp only [hlb, htotal, attempt_ok, ok_bind, guard_eq_ok, (filterAt_reads _).parseAll_ok,
    not_not, hvec, isVectorOf_iff]
  constructor
  · intro h
    obtain ⟨hdata, xs, hxs, hdrop⟩ := h
    exact ⟨xs, hxs, hdata, hdrop⟩
  · intro h
    obtain ⟨xs, hxs, hdata, hdrop⟩ := h
    exact ⟨hdata, xs, hxs, hdrop⟩

end
end DistributedEnclave.Ea
