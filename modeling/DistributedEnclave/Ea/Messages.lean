import DistributedEnclave.Ea.Wire

/-! The messages of an exported authenticator: Certificate, CertificateVerify, Finished
and the authenticator request. Each parser accepts exactly the wire images of the
messages that fit their length fields. -/
namespace DistributedEnclave.Ea
open DistributedEnclave.Octets DistributedEnclave.Outcome DistributedEnclave.Repeat

/-- `raw, _ := MarshalHandshakeMessage(hm)`, with the error thrown away. -/
def marshalRaw (hm : HandshakeMessage) : Bytes :=
  match marshalHandshakeMessage hm with
  | .ok raw => raw
  | .error _ => []

theorem marshalRaw_of_le {hm : HandshakeMessage} (h : hm.body.length ≤ 0xFFFFFF) :
    marshalRaw hm = encodeHandshake hm := by
  rw [marshalRaw, (marshalHandshakeMessage_ok hm _).mpr ⟨h, rfl⟩]

theorem slice_zero {b : Bytes} {n : Nat} (h : n ≤ b.length) : slice b 0 n = .ok (b.take n) := by
  have := @slice_ok b 0 n (by omega)
  simpa using this

theorem slice_append {a b c : Bytes} {lo hi : Nat} (ha : a.length = lo)
    (hb : hi = lo+b.length) : slice (a ++ (b ++ c)) lo hi = .ok b := by
  subst ha hb
  rw [slice_ok (by simp), List.drop_left, List.take_left]

theorem sliceFrom_append {a b : Bytes} {lo : Nat} (ha : a.length = lo) :
    sliceFrom (a ++ b) lo = .ok b := by
  subst ha
  rw [sliceFrom_ok (by simp), List.drop_left]

theorem readUint24_of_length {b : Bytes} (h : b.length = 3) :
    ∃ v, readUint24 b = .ok v ∧ v.toNat = beDecode b := by
  obtain ⟨x, y, z, rfl⟩ : ∃ x y z, b = [x,y,z] := by
    match b, h with
    | [x,y,z], _ => exact ⟨x, y, z, rfl⟩
  refine ⟨_, readUint24_cons x y z [], ?_⟩
  have hlt : beDecode [x,y,z] < 256^3 := beDecode_lt [x,y,z]
  rw [UInt32.toNat_ofNat']
  omega

theorem readUint16_of_length {b : Bytes} (h : b.length = 2) :
    ∃ v, readUint16 b = .ok v ∧ v.toNat = beDecode b := by
  obtain ⟨x, y, rfl⟩ : ∃ x y, b = [x,y] := by
    match b, h with
    | [x,y], _ => exact ⟨x, y, rfl⟩
  refine ⟨_, readUint16_cons x y [], ?_⟩
  have hlt : beDecode [x,y] < 256^2 := beDecode_lt [x,y]
  rw [UInt16.toNat_ofNat']
  omega

theorem beEncode_of_length {b : Bytes} {n : Nat} (h : b.length = n) :
    beEncode n (beDecode b) = b := by
  subst h
  exact beEncode_beDecode b

/-- A buffer long enough for a prefix of `n` octets is that prefix and a rest. -/
theorem exists_front {b : Bytes} {n : Nat} (h : n ≤ b.length) :
    ∃ a t, b = a ++ t ∧ a.length = n :=
  ⟨b.take n, b.drop n, (List.take_append_drop n b).symm, List.length_take_of_le h⟩

structure CertificateEntry where
  certDER : Bytes
  extensions : List Extension
  deriving DecidableEq, Repr

structure CertificateMessage where
  context : Bytes
  entries : List CertificateEntry
  deriving DecidableEq, Repr

def marshalEntry (e : CertificateEntry) : Except Error Bytes :=
  if e.certDER.length = 0 ∨ e.certDER.length > 0xFFFFFF then .error .errInvalidLength
  else do
    let extVec ← marshalExtensions e.extensions
    .ok (putUint24 (UInt32.ofNat e.certDER.length) ++ (e.certDER ++ extVec))

/-- The loop over the entries of `CertificateMessage.Marshal`. -/
def marshalEntries : List CertificateEntry → Bytes → Except Error Bytes
  | [], listPayload => .ok listPayload
  | e::entries, listPayload => do
    let entry ← marshalEntry e
    marshalEntries entries (listPayload ++ entry)

def marshalCertificateMessage (m : CertificateMessage) : Except Error Bytes :=
  if m.context.length > 255 then .error .errInvalidLength
  else do
    let listPayload ← marshalEntries m.entries []
    marshalHandshakeMessage ⟨handshakeTypeCertificate, UInt8.ofNat m.context.length ::
      (m.context ++ (putUint24 (UInt32.ofNat listPayload.length) ++ listPayload))⟩

/-- One round of the entry loop of `UnmarshalCertificateMessage`, at index `i`. -/
def entryAt (list : Bytes) (i : Nat) : Except Error (Item CertificateEntry i) :=
  if list.length-i < 3 then .error .errTruncated
  else do
    let lenBytes ← slice list i (i+3)
    let len ← readUint24 lenBytes
    let certLen := len.toNat
    if certLen ≤ 0 ∨ certLen > list.length-(i+3) then .error .errInvalidLength
    else do
      let certDER ← slice list (i+3) (i+3+certLen)
      let tail ← sliceFrom list (i+3+certLen)
      let (exts, leftover) ← unmarshalExtensions tail
      let consumed := tail.length-leftover.length
      .ok ⟨⟨certDER, exts⟩, i+3+certLen+consumed, by omega⟩

def unmarshalCertificateBody (body : Bytes) : Except Error CertificateMessage :=
  if body.length < 1 then .error .errTruncated
  else do
    let l ← index body 0
    let ctxLen := l.toNat
    if body.length < 1+ctxLen+3 then .error .errTruncated
    else do
      let ctx ← slice body 1 (1+ctxLen)
      let lenBytes ← slice body (1+ctxLen) (1+ctxLen+3)
      let len ← readUint24 lenBytes
      let listLen := len.toNat
      if body.length ≠ 1+ctxLen+3+listLen then .error .errInvalidLength
      else do
        let list ← sliceFrom body (1+ctxLen+3)
        let entries ← parseAll entryAt list 0
        .ok ⟨ctx, entries⟩

def unmarshalCertificateMessage (b : Bytes) : Except Error (CertificateMessage × Bytes) := do
  let (hm, rest) ← unmarshalHandshakeMessage b
  if rest.length ≠ 0 ∨ hm.type ≠ handshakeTypeCertificate then .error .errInvalidLength
  else do
    let m ← unmarshalCertificateBody hm.body
    .ok (m, marshalRaw hm)

def encodeEntry (e : CertificateEntry) : Bytes :=
  beEncode 3 e.certDER.length ++ (e.certDER ++ encodeExtensions e.extensions)

def encodeEntries (entries : List CertificateEntry) : Bytes := entries.flatMap encodeEntry

def encodeCertificateBody (m : CertificateMessage) : Bytes :=
  UInt8.ofNat m.context.length ::
    (m.context ++ (beEncode 3 (encodeEntries m.entries).length ++ encodeEntries m.entries))

def encodeCertificate (m : CertificateMessage) : Bytes :=
  encodeHandshake ⟨handshakeTypeCertificate, encodeCertificateBody m⟩

def CertificateEntry.Fits (e : CertificateEntry) : Prop :=
  e.certDER ≠ [] ∧ e.certDER.length ≤ 0xFFFFFF ∧ ExtensionsFit e.extensions

structure CertificateMessage.Fits (m : CertificateMessage) : Prop where
  context : m.context.length ≤ 255
  entries : ∀ e ∈ m.entries, e.Fits
  body : (encodeCertificateBody m).length ≤ 0xFFFFFF

theorem encodeExtensions_append_length (exts : List Extension) (t : Bytes) :
    (encodeExtensions exts ++ t).length-t.length = (encodeExtensions exts).length := by
  simp

theorem entryAt_header {list : Bytes} {i : Nat} {lb t : Bytes} (hlb : lb.length = 3)
    (h : list.drop i = lb ++ t) :
    entryAt list i =
      if _hc : beDecode lb = 0 ∨ beDecode lb > t.length then .error .errInvalidLength
      else unmarshalExtensions (t.drop (beDecode lb)) >>= fun r =>
        .ok ⟨⟨t.take (beDecode lb), r.1⟩,
          i+3+beDecode lb+((t.drop (beDecode lb)).length-r.2.length), by omega⟩ := by
  have hlen : list.length-i = 3+t.length := by
    have := congrArg List.length h
    simpa [hlb] using this
  have hdrop3 : list.drop (i+3) = t := by
    rw [← List.drop_drop, h]
    exact (append_split hlb).2
  obtain ⟨v, hv, hvn⟩ := readUint24_of_length hlb
  have hslice : slice list i (i+3) = .ok lb := by
    rw [slice_ok (by omega), h, (append_split hlb).1]
  rw [entryAt, if_neg (by omega)]
  simp only [hslice, ok_bind, hv, hvn, Nat.le_zero]
  by_cases hc : beDecode lb = 0 ∨ beDecode lb > t.length
  · rw [if_pos (by omega), dif_pos hc]
  · rw [if_neg (by omega), dif_neg hc, slice_ok (by omega), sliceFrom_ok (by omega),
      hdrop3, ← List.drop_drop, hdrop3]
    rfl

theorem entryAt_reads : Reads entryAt encodeEntry CertificateEntry.Fits where
  enc_ne_nil e := by simp [encodeEntry, beEncode]
  sound list i item hi h := by
    by_cases h3 : list.length-i < 3
    · rw [entryAt, if_pos h3] at h
      cases h
    obtain ⟨lb, t, ht, hlb⟩ := @exists_front (list.drop i) 3 (by simp; omega)
    have hlt : beDecode lb < 256^3 := by simpa [hlb] using beDecode_lt lb
    rw [entryAt_header hlb ht] at h
    split at h
    · cases h
    · rename_i hc
      rw [bind_eq_ok] at h
      obtain ⟨⟨exts, leftover⟩, hexts, h⟩ := h
      cases h
      obtain ⟨hfit, htail⟩ := (unmarshalExtensions_ok _ exts leftover).mp hexts
      have hder : (t.take (beDecode lb)).length = beDecode lb := by
        rw [List.length_take]; omega
      refine ⟨⟨?_, by simp only [hder]; omega, hfit⟩, ?_⟩
      · intro hnil
        simp only at hnil
        rw [hnil] at hder
        simp at hder
        omega
      have hnext : list.drop (i+3+beDecode lb+
          ((t.drop (beDecode lb)).length-leftover.length)) = leftover := by
        have h1 : list.drop (i+3+beDecode lb) = t.drop (beDecode lb) := by
          rw [← List.drop_drop, ← List.drop_drop, ht, (append_split hlb).2]
        rw [← List.drop_drop, h1, htail, encodeExtensions_append_length, List.drop_left]
      simp only [hnext, encodeEntry, hder, beEncode_of_length hlb]
      rw [List.append_assoc, List.append_assoc, ← htail, List.take_append_drop, ht]
  complete list i e t hfit h := by
    obtain ⟨hne, hle, hexts⟩ := hfit
    have hdec : beDecode (beEncode 3 e.certDER.length) = e.certDER.length :=
      beDecode_beEncode_of_lt (by omega)
    have hpos : 0 < e.certDER.length := List.length_pos_iff.mpr hne
    have hdrop : list.drop i = beEncode 3 e.certDER.length ++
        (e.certDER ++ (encodeExtensions e.extensions ++ t)) := by
      rw [h, encodeEntry]
      simp only [List.append_assoc]
    have hstep := entryAt_header (beEncode_length 3 _) hdrop
    have hparse := (unmarshalExtensions_ok (encodeExtensions e.extensions ++ t) _ t).mpr
      ⟨hexts, rfl⟩
    rw [dif_neg (by rw [hdec]; simp; omega)] at hstep
    simp only [hdec, List.drop_left, List.take_left, hparse, ok_bind] at hstep
    refine ⟨_, hstep, rfl, ?_⟩
    simp only [encodeExtensions_append_length]
    rw [← List.drop_drop, ← List.drop_drop, ← List.drop_drop, hdrop,
      (append_split (beEncode_length 3 _)).2, List.drop_left, List.drop_left]

/-- The entry parser accepts exactly the concatenations of entry images. -/
theorem parseEntries_ok (list : Bytes) (entries : List CertificateEntry) :
    parseAll entryAt list 0 = .ok entries ↔
      (∀ e ∈ entries, e.Fits) ∧ list = encodeEntries entries := by
  rw [entryAt_reads.parseAll_ok, List.drop_zero]
  rfl

theorem marshalEntry_ok (e : CertificateEntry) (bs : Bytes) :
    marshalEntry e = .ok bs ↔ e.Fits ∧ bs = encodeEntry e := by
  simp only [marshalEntry, guard_eq_ok, bind_eq_ok, marshalExtensions_ok, Except.ok.injEq,
    putUint24_eq, CertificateEntry.Fits, ← List.length_pos_iff]
  constructor
  · intro h
    obtain ⟨hc, extVec, ⟨hfit, rfl⟩, rfl⟩ := h
    exact ⟨⟨by omega, by omega, hfit⟩, rfl⟩
  · intro h
    obtain ⟨⟨hpos, hle, hfit⟩, rfl⟩ := h
    exact ⟨by omega, _, ⟨hfit, rfl⟩, rfl⟩

theorem marshalEntries_ok (entries : List CertificateEntry) (acc bs : Bytes) :
    marshalEntries entries acc = .ok bs ↔
      (∀ e ∈ entries, e.Fits) ∧ bs = acc ++ encodeEntries entries := by
  induction entries generalizing acc with
  | nil => simp [marshalEntries, encodeEntries, eq_comm]
  | cons e entries ih =>
    simp only [marshalEntries, bind_eq_ok, marshalEntry_ok, ih, encodeEntries,
      List.flatMap_cons, List.forall_mem_cons]
    constructor
    · intro h
      obtain ⟨_, ⟨hfit, rfl⟩, hall, rfl⟩ := h
      exact ⟨⟨hfit, hall⟩, List.append_assoc ..⟩
    · intro h
      obtain ⟨⟨hfit, hall⟩, rfl⟩ := h
      exact ⟨_, ⟨hfit, rfl⟩, hall, (List.append_assoc ..).symm⟩

theorem marshalCertificateMessage_ok (m : CertificateMessage) (bs : Bytes) :
    marshalCertificateMessage m = .ok bs ↔ m.Fits ∧ bs = encodeCertificate m := by
  simp only [marshalCertificateMessage, guard_eq_ok, bind_eq_ok, marshalEntries_ok,
    marshalHandshakeMessage_ok, putUint24_eq, List.nil_append]
  constructor
  · intro h
    obtain ⟨hctx, _, ⟨hall, rfl⟩, hbody, rfl⟩ := h
    exact ⟨⟨by omega, hall, hbody⟩, rfl⟩
  · intro h
    obtain ⟨hfit, rfl⟩ := h
    exact ⟨by have := hfit.context; omega, _, ⟨hfit.entries, rfl⟩, hfit.body, rfl⟩

theorem unmarshalCertificateBody_parts {l : UInt8} {ctx lb list : Bytes}
    (hctx : ctx.length = l.toNat) (hlb : lb.length = 3) :
    unmarshalCertificateBody (l::(ctx ++ (lb ++ list))) =
      if list.length ≠ beDecode lb then .error .errInvalidLength
      else parseAll entryAt list 0 >>= fun entries => .ok ⟨ctx, entries⟩ := by
  obtain ⟨v, hv, hvn⟩ := readUint24_of_length hlb
  have hlen : (l::(ctx ++ (lb ++ list))).length = 1+l.toNat+3+list.length := by
    simp [hctx, hlb]; omega
  have h1 : slice (l::(ctx ++ (lb ++ list))) 1 (1+l.toNat) = .ok ctx :=
    @slice_append [l] ctx (lb ++ list) _ _ rfl (by rw [hctx])
  have h2 : slice (l::(ctx ++ (lb ++ list))) (1+l.toNat) (1+l.toNat+3) = .ok lb := by
    have := @slice_append (l::ctx) lb list (1+l.toNat) (1+l.toNat+3)
      (by simp [hctx, Nat.add_comm]) (by rw [hlb])
    simpa using this
  have h3 : sliceFrom (l::(ctx ++ (lb ++ list))) (1+l.toNat+3) = .ok list := by
    have := @sliceFrom_append (l::(ctx ++ lb)) list (1+l.toNat+3) (by simp [hctx, hlb]; omega)
    simpa using this
  have h0 : index (l::(ctx ++ (lb ++ list))) 0 = .ok l := rfl
  rw [unmarshalCertificateBody, if_neg (by rw [hlen]; omega)]
  simp only [h0, h1, h2, h3, ok_bind, hv, hvn, hlen]
  rw [if_neg (by omega)]
  by_cases hc : list.length ≠ beDecode lb
  · rw [if_pos (by omega), if_pos hc]
  · rw [if_neg (by omega), if_neg hc]

theorem unmarshalCertificateBody_ok (body : Bytes) (m : CertificateMessage)
    (hb : body.length ≤ 0xFFFFFF) :
    unmarshalCertificateBody body = .ok m ↔ m.Fits ∧ body = encodeCertificateBody m := by
  constructor
  · intro h
    by_cases h1 : body.length < 1
    · rw [unmarshalCertificateBody, if_pos h1] at h
      cases h
    obtain ⟨l, t, rfl⟩ := List.exists_cons_of_length_pos (by omega : 0 < body.length)
    have h0 : index (l::t) 0 = .ok l := rfl
    by_cases h4 : (l::t).length < 1+l.toNat+3
    · rw [unmarshalCertificateBody, if_neg h1] at h
      simp only [h0, ok_bind, if_pos h4] at h
      cases h
    simp only [List.length_cons] at h4
    obtain ⟨ctx, t1, rfl, hctx⟩ := @exists_front t l.toNat (by omega)
    rw [List.length_append, hctx] at h4
    obtain ⟨lb, list, rfl, hlb⟩ := @exists_front t1 3 (by omega)
    rw [unmarshalCertificateBody_parts hctx hlb, guard_eq_ok, bind_eq_ok] at h
    obtain ⟨hc, entries, hentries, h⟩ := h
    cases h
    obtain ⟨hall, rfl⟩ := (parseEntries_ok list entries).mp hentries
    have himg : l::(ctx ++ (lb ++ encodeEntries entries)) =
        encodeCertificateBody ⟨ctx, entries⟩ := by
      simp only [encodeCertificateBody, not_not.mp hc, beEncode_of_length hlb, hctx,
        UInt8.ofNat_toNat]
    have hl := l.toNat_lt
    exact ⟨⟨by simp only [hctx]; omega, hall, himg ▸ hb⟩, himg⟩
  · intro h
    obtain ⟨hfit, rfl⟩ := h
    have hctx := hfit.context
    have hlist : (encodeEntries m.entries).length < 256^3 := by
      have := hfit.body
      simp [encodeCertificateBody] at this
      omega
    have hparse := (parseEntries_ok _ m.entries).mpr ⟨hfit.entries, rfl⟩
    rw [encodeCertificateBody, unmarshalCertificateBody_parts
      (by rw [UInt8.toNat_ofNat']; omega) (beEncode_length 3 _),
      beDecode_beEncode_of_lt hlist, if_neg (by simp), hparse, ok_bind]

/-- The Certificate parser accepts exactly the wire images, with nothing left over, and
gives back the bytes it was handed. -/
theorem unmarshalCertificateMessage_ok (b : Bytes) (m : CertificateMessage) (raw : Bytes) :
    unmarshalCertificateMessage b = .ok (m, raw) ↔
      m.Fits ∧ b = encodeCertificate m ∧ raw = b := by
  simp only [unmarshalCertificateMessage, bind_eq_ok, guard_eq_ok, Prod.exists,
    unmarshalHandshakeMessage_ok, Except.ok.injEq, Prod.mk.injEq, not_or, not_not,
    List.length_eq_zero_iff]
  constructor
  · intro h
    obtain ⟨⟨t, body⟩, rest, ⟨hle, rfl⟩, ⟨rfl, rfl⟩, m', hm, rfl, rfl⟩ := h
    obtain ⟨hfit, rfl⟩ := (unmarshalCertificateBody_ok body m' hle).mp hm
    rw [marshalRaw_of_le hle, List.append_nil]
    exact ⟨hfit, rfl, rfl⟩
  · intro h
    obtain ⟨hfit, rfl, rfl⟩ := h
    refine ⟨⟨handshakeTypeCertificate, encodeCertificateBody m⟩, [], ⟨hfit.body, ?_⟩,
      ⟨rfl, rfl⟩, m, (unmarshalCertificateBody_ok _ m hfit.body).mpr ⟨hfit, rfl⟩, rfl,
      marshalRaw_of_le hfit.body⟩
    rw [List.append_nil, encodeCertificate]

structure CertificateVerifyMessage where
  algorithm : UInt16
  signature : Bytes
  deriving DecidableEq, Repr

def marshalCertificateVerifyMessage (m : CertificateVerifyMessage) : Except Error Bytes :=
  if m.signature.length > 0xFFFF then .error .errInvalidLength
  else marshalHandshakeMessage ⟨handshakeTypeCertificateVerify, putUint16 m.algorithm ++
    (putUint16 (UInt16.ofNat m.signature.length) ++ m.signature)⟩

def unmarshalCertificateVerifyMessage (b : Bytes) :
    Except Error (CertificateVerifyMessage × Bytes) := do
  let (hm, rest) ← unmarshalHandshakeMessage b
  if rest.length ≠ 0 ∨ hm.type ≠ handshakeTypeCertificateVerify then .error .errInvalidLength
  else if hm.body.length < 4 then .error .errTruncated
  else do
    let algBytes ← slice hm.body 0 2
    let alg ← readUint16 algBytes
    let lenBytes ← slice hm.body 2 4
    let len ← readUint16 lenBytes
    let sigLen := len.toNat
    if hm.body.length ≠ 4+sigLen then .error .errInvalidLength
    else do
      let sig ← sliceFrom hm.body 4
      .ok (⟨alg, sig⟩, marshalRaw hm)

def encodeCertificateVerifyBody (m : CertificateVerifyMessage) : Bytes :=
  beEncode 2 m.algorithm.toNat ++ (beEncode 2 m.signature.length ++ m.signature)

def encodeCertificateVerify (m : CertificateVerifyMessage) : Bytes :=
  encodeHandshake ⟨handshakeTypeCertificateVerify, encodeCertificateVerifyBody m⟩

theorem marshalCertificateVerifyMessage_ok (m : CertificateVerifyMessage) (bs : Bytes) :
    marshalCertificateVerifyMessage m = .ok bs ↔
      m.signature.length ≤ 0xFFFF ∧ bs = encodeCertificateVerify m := by
  simp only [marshalCertificateVerifyMessage, guard_eq_ok, marshalHandshakeMessage_ok, not_lt]
  constructor
  · intro h
    obtain ⟨hle, _, rfl⟩ := h
    rw [putUint16_eq, putUint16_ofNat hle]
    exact ⟨hle, rfl⟩
  · intro h
    obtain ⟨hle, rfl⟩ := h
    rw [putUint16_eq, putUint16_ofNat hle]
    exact ⟨hle, by simp; omega, rfl⟩

theorem unmarshalCertificateVerifyMessage_ok (b : Bytes) (m : CertificateVerifyMessage)
    (raw : Bytes) :
    unmarshalCertificateVerifyMessage b = .ok (m, raw) ↔
      m.signature.length ≤ 0xFFFF ∧ b = encodeCertificateVerify m ∧ raw = b := by
  simp only [unmarshalCertificateVerifyMessage, bind_eq_ok, guard_eq_ok, Prod.exists,
    unmarshalHandshakeMessage_ok, not_or, not_not, List.length_eq_zero_iff]
  constructor
  · intro h
    obtain ⟨⟨t, body⟩, rest, ⟨hle, rfl⟩, ⟨rfl, rfl⟩, h4, h⟩ := h
    simp only at h4 h
    obtain ⟨ab, t1, rfl, hab⟩ := @exists_front body 2 (by omega)
    rw [List.length_append, hab] at h4
    obtain ⟨lb, sig, rfl, hlb⟩ := @exists_front t1 2 (by omega)
    obtain ⟨alg, halg, halgn⟩ := readUint16_of_length hab
    obtain ⟨len, hlen, hlenn⟩ := readUint16_of_length hlb
    have h02 : slice (ab ++ (lb ++ sig)) 0 2 = .ok ab := by
      rw [slice_zero (by simp; omega), (append_split hab).1]
    have h4' : sliceFrom (ab ++ (lb ++ sig)) 4 = .ok sig := by
      have := @sliceFrom_append (ab ++ lb) sig 4 (by simp [hab, hlb])
      simpa using this
    simp only [h02, slice_append hab (show 4 = 2+lb.length by rw [hlb]), h4', halg, hlen,
      Except.ok.injEq, exists_eq_left', hlenn, Prod.mk.injEq] at h
    obtain ⟨hc, rfl, rfl⟩ := h
    have hsig : sig.length = beDecode lb := by
      have : (ab ++ (lb ++ sig)).length = 4+sig.length := by simp [hab, hlb]; omega
      omega
    have hlt : beDecode lb < 256^2 := by simpa [hlb] using beDecode_lt lb
    refine ⟨by simp only; omega, ?_, ?_⟩
    · simp only [encodeCertificateVerify, encodeCertificateVerifyBody, halgn, hsig,
        beEncode_of_length hab, beEncode_of_length hlb, List.append_nil]
    · rw [marshalRaw_of_le hle, List.append_nil]
  · intro h
    obtain ⟨hle, rfl, rfl⟩ := h
    have hbody : (encodeCertificateVerifyBody m).length = 4+m.signature.length := by
      simp [encodeCertificateVerifyBody]; omega
    obtain ⟨alg, halg, halgn⟩ := readUint16_of_length (beEncode_length 2 m.algorithm.toNat)
    obtain ⟨len, hlen, hlenn⟩ := readUint16_of_length (beEncode_length 2 m.signature.length)
    rw [beDecode_beEncode_of_lt m.algorithm.toNat_lt] at halgn
    rw [beDecode_beEncode_of_lt (by omega)] at hlenn
    refine ⟨⟨handshakeTypeCertificateVerify, encodeCertificateVerifyBody m⟩, [],
      ⟨by simp only; omega, by rw [List.append_nil]; rfl⟩, ⟨rfl, rfl⟩, by simp only; omega,
      beEncode 2 m.algorithm.toNat, ?_, alg, halg, beEncode 2 m.signature.length, ?_, len, hlen,
      by simp only [hbody, hlenn], m.signature, ?_, ?_⟩
    · rw [slice_zero (by simp only; omega)]
      exact congrArg _ (append_split (beEncode_length 2 _)).1
    · exact slice_append (beEncode_length 2 _) (by rw [beEncode_length])
    · have := @sliceFrom_append (beEncode 2 m.algorithm.toNat ++ beEncode 2 m.signature.length)
        m.signature 4 (by simp)
      simpa [encodeCertificateVerifyBody] using this
    · rw [UInt16.toNat_inj.mp halgn, marshalRaw_of_le (by simp only; omega)]
      rfl

structure FinishedMessage where
  verifyData : Bytes
  deriving DecidableEq, Repr

def marshalFinishedMessage (m : FinishedMessage) : Except Error Bytes :=
  if m.verifyData.length = 0 then .error .errInvalidLength
  else marshalHandshakeMessage ⟨handshakeTypeFinished, m.verifyData⟩

def unmarshalFinishedMessage (b : Bytes) : Except Error (FinishedMessage × Bytes) := do
  let (hm, rest) ← unmarshalHandshakeMessage b
  if rest.length ≠ 0 ∨ hm.type ≠ handshakeTypeFinished ∨ hm.body.length = 0 then
    .error .errInvalidLength
  else .ok (⟨hm.body⟩, marshalRaw hm)

def encodeFinished (m : FinishedMessage) : Bytes :=
  encodeHandshake ⟨handshakeTypeFinished, m.verifyData⟩

def FinishedMessage.Fits (m : FinishedMessage) : Prop :=
  m.verifyData ≠ [] ∧ m.verifyData.length ≤ 0xFFFFFF

theorem marshalFinishedMessage_ok (m : FinishedMessage) (bs : Bytes) :
    marshalFinishedMessage m = .ok bs ↔ m.Fits ∧ bs = encodeFinished m := by
  simp only [marshalFinishedMessage, guard_eq_ok, marshalHandshakeMessage_ok,
    FinishedMessage.Fits, List.length_eq_zero_iff, and_assoc]
  rfl

theorem unmarshalFinishedMessage_ok (b : Bytes) (m : FinishedMessage) (raw : Bytes) :
    unmarshalFinishedMessage b = .ok (m, raw) ↔ m.Fits ∧ b = encodeFinished m ∧ raw = b := by
  simp only [unmarshalFinishedMessage, bind_eq_ok, guard_eq_ok, Prod.exists,
    unmarshalHandshakeMessage_ok, not_or, not_not, List.length_eq_zero_iff, Except.ok.injEq,
    Prod.mk.injEq]
  constructor
  · intro h
    obtain ⟨⟨t, body⟩, rest, ⟨hle, rfl⟩, ⟨rfl, rfl, hne⟩, rfl, rfl⟩ := h
    rw [marshalRaw_of_le hle, List.append_nil]
    exact ⟨⟨hne, hle⟩, rfl, rfl⟩
  · intro h
    obtain ⟨⟨hne, hle⟩, rfl, rfl⟩ := h
    exact ⟨⟨handshakeTypeFinished, m.verifyData⟩, [], ⟨hle, by rw [List.append_nil]; rfl⟩,
      ⟨rfl, rfl, hne⟩, rfl, marshalRaw_of_le hle⟩

structure AuthenticatorRequest where
  type : UInt8
  context : Bytes
  extensions : List Extension
  deriving DecidableEq, Repr

def marshalRequest (r : AuthenticatorRequest) : Except Error Bytes :=
  if r.type ≠ handshakeTypeCertificateRequest ∧ r.type ≠ handshakeTypeClientCertificateRequest then
    .error .errUnsupportedHandshakeType
  else if r.context.length > 255 then .error .errInvalidLength
  else do
    let extVec ← marshalExtensions r.extensions
    marshalHandshakeMessage ⟨r.type, UInt8.ofNat r.context.length :: (r.context ++ extVec)⟩

def unmarshalAuthenticatorRequest (b : Bytes) : Except Error (AuthenticatorRequest × Bytes) := do
  let (hm, rest) ← unmarshalHandshakeMessage b
  if hm.type ≠ handshakeTypeCertificateRequest ∧
      hm.type ≠ handshakeTypeClientCertificateRequest then .error .errUnsupportedHandshakeType
  else if hm.body.length < 1 then .error .errTruncated
  else do
    let l ← index hm.body 0
    let ctxLen := l.toNat
    if hm.body.length < 1+ctxLen then .error .errTruncated
    else do
      let ctx ← slice hm.body 1 (1+ctxLen)
      let tail ← sliceFrom hm.body (1+ctxLen)
      let (exts, leftover) ← unmarshalExtensions tail
      if leftover.length ≠ 0 then .error .errInvalidLength
      else .ok (⟨hm.type, ctx, exts⟩, rest)

def encodeRequest (r : AuthenticatorRequest) : Bytes :=
  encodeHandshake ⟨r.type, UInt8.ofNat r.context.length ::
    (r.context ++ encodeExtensions r.extensions)⟩

structure AuthenticatorRequest.Fits (r : AuthenticatorRequest) : Prop where
  type : r.type = handshakeTypeCertificateRequest ∨ r.type = handshakeTypeClientCertificateRequest
  context : r.context.length ≤ 255
  extensions : ExtensionsFit r.extensions

theorem AuthenticatorRequest.Fits.body {r : AuthenticatorRequest} (h : r.Fits) :
    (UInt8.ofNat r.context.length ::
      (r.context ++ encodeExtensions r.extensions)).length ≤ 0xFFFFFF := by
  have hctx := h.context
  have hexts := h.extensions
  unfold ExtensionsFit at hexts
  simp [encodeExtensions]
  omega

theorem marshalRequest_ok (r : AuthenticatorRequest) (bs : Bytes) :
    marshalRequest r = .ok bs ↔ r.Fits ∧ bs = encodeRequest r := by
  simp only [marshalRequest, guard_eq_ok, bind_eq_ok, marshalExtensions_ok,
    marshalHandshakeMessage_ok, not_and_or, not_not, not_lt]
  constructor
  · intro h
    obtain ⟨htype, hctx, _, ⟨hexts, rfl⟩, _, rfl⟩ := h
    exact ⟨⟨htype, hctx, hexts⟩, rfl⟩
  · intro h
    obtain ⟨hfit, rfl⟩ := h
    exact ⟨hfit.type, hfit.context, _, ⟨hfit.extensions, rfl⟩, hfit.body, rfl⟩

theorem unmarshalAuthenticatorRequest_ok (b : Bytes) (r : AuthenticatorRequest) (rest : Bytes) :
    unmarshalAuthenticatorRequest b = .ok (r, rest) ↔
      r.Fits ∧ b = encodeRequest r ++ rest := by
  simp only [unmarshalAuthenticatorRequest, bind_eq_ok, guard_eq_ok, Prod.exists,
    unmarshalHandshakeMessage_ok, not_and_or, not_not, not_lt, Except.ok.injEq, Prod.mk.injEq]
  constructor
  · intro h
    obtain ⟨⟨t, body⟩, rest', ⟨hle, rfl⟩, htype, h1, l, hl, hc, ctx, hctx, tail, htail, exts,
      leftover, hexts, hnil, rfl, rfl⟩ := h
    obtain ⟨l', t', rfl⟩ := List.exists_cons_of_length_pos h1
    cases hl
    simp only [List.length_cons] at hc
    obtain ⟨ctx', tail', rfl, hlen⟩ := @exists_front t' l.toNat (by omega)
    have h2 : slice (l::(ctx' ++ tail')) 1 (1+l.toNat) = .ok ctx' :=
      @slice_append [l] ctx' tail' _ _ rfl (by rw [hlen])
    have h3 : sliceFrom (l::(ctx' ++ tail')) (1+l.toNat) = .ok tail' :=
      @sliceFrom_append (l::ctx') tail' _ (by simp [hlen, Nat.add_comm])
    cases h2.symm.trans hctx
    cases h3.symm.trans htail
    obtain ⟨hfit, rfl⟩ := (unmarshalExtensions_ok _ exts leftover).mp hexts
    obtain rfl := List.length_eq_zero_iff.mp hnil
    have hl := l.toNat_lt
    refine ⟨⟨htype, by simp only [hlen]; omega, hfit⟩, ?_⟩
    simp only [encodeRequest, hlen, UInt8.ofNat_toNat, List.append_nil]
  · intro h
    obtain ⟨hfit, rfl⟩ := h
    have hctx := hfit.context
    have hl : (UInt8.ofNat r.context.length).toNat = r.context.length := by
      rw [UInt8.toNat_ofNat']; omega
    refine ⟨⟨r.type, _⟩, rest, ⟨hfit.body, rfl⟩, hfit.type, by simp, _, rfl, by simp [hl]; omega,
      r.context, ?_, encodeExtensions r.extensions, ?_, r.extensions, [], ?_, rfl, rfl, rfl⟩
    · exact @slice_append [UInt8.ofNat r.context.length] r.context _ _ _ rfl (by rw [hl])
    · exact @sliceFrom_append (UInt8.ofNat r.context.length::r.context) _ _
        (by simp [hl, Nat.add_comm])
    · rw [unmarshalExtensions_ok, List.append_nil]
      exact ⟨hfit.extensions, rfl⟩

end DistributedEnclave.Ea
