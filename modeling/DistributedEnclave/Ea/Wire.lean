import DistributedEnclave.Repeat

/-! Handshake messages and extension vectors of the exported-authenticator wire
format. Slices and indices are the checked ones: an access out of range is the
error `panic`, which no well-guarded parser may return. -/
namespace DistributedEnclave.Ea
open DistributedEnclave.Octets DistributedEnclave.Outcome DistributedEnclave.Repeat

/-- The error values of the packages `ea`, `attestation` and `atls`. Errors that come
out of the TLS, x509 and crypto libraries are `library`. -/
inductive Error where
  | errTruncated | errInvalidLength | errUnsupportedHandshakeType | errNotTLS13
  | errUnknownCipherSuite (suite : UInt16) | errContextReuse | errInvalidRole
  | errUnsupportedSignatureScheme | unsupportedSignatureScheme (scheme : UInt16)
  | errSignatureMismatch | errFinishedMismatch
  | errContextMismatch | errBadRequest | missingSignatureAlgorithms
  | attestationNotTLS13 | attestationUnknownCipherSuite (suite : UInt16)
  | errMalformedPayload | errMissingStatement | errMissingBinder
  | errAIKPubHashMismatch | errBindingMismatch
  | errEvidenceVerificationMissing | errResultsVerificationMissing
  | missingServerConfig | unexpectedFrameType (typ : UInt8) | invalidFrameType
  | unexpectedEOF
  | library (code : Nat)
  | panic
  deriving DecidableEq, Repr

def index (b : Bytes) (i : Nat) : Except Error UInt8 :=
  match b[i]? with
  | some x => .ok x
  | none => .error .panic

def slice (b : Bytes) (lo hi : Nat) : Except Error Bytes :=
  if lo ≤ hi ∧ hi ≤ b.length then .ok ((b.drop lo).take (hi-lo)) else .error .panic

def sliceFrom (b : Bytes) (lo : Nat) : Except Error Bytes := slice b lo b.length

theorem slice_ok {b : Bytes} {lo n : Nat} (h : lo+n ≤ b.length) :
    slice b lo (lo+n) = .ok ((b.drop lo).take n) := by
  have hc : lo ≤ lo+n ∧ lo+n ≤ b.length := ⟨by omega, h⟩
  simp only [slice, if_pos hc, Nat.add_sub_cancel_left]

theorem sliceFrom_ok {b : Bytes} {lo : Nat} (h : lo ≤ b.length) :
    sliceFrom b lo = .ok (b.drop lo) := by
  have hc : lo ≤ b.length ∧ b.length ≤ b.length := ⟨h, le_rfl⟩
  have hl : (b.drop lo).length ≤ b.length-lo := by simp
  simp only [sliceFrom, slice, if_pos hc, List.take_of_length_le hl]

def handshakeHeaderLen : Nat := 4

def handshakeTypeCertificate : UInt8 := 11
def handshakeTypeCertificateRequest : UInt8 := 13
def handshakeTypeCertificateVerify : UInt8 := 15
def handshakeTypeClientCertificateRequest : UInt8 := 17
def handshakeTypeFinished : UInt8 := 20

def putUint24 (v : UInt32) : Bytes := [(v >>> 16).toUInt8, (v >>> 8).toUInt8, v.toUInt8]

def readUint24 (src : Bytes) : Except Error UInt32 := do
  let a ← index src 0
  let b ← index src 1
  let c ← index src 2
  .ok ((a.toUInt32 <<< 16) ||| (b.toUInt32 <<< 8) ||| c.toUInt32)

def putUint16 (v : UInt16) : Bytes := [(v >>> 8).toUInt8, v.toUInt8]

def readUint16 (src : Bytes) : Except Error UInt16 := do
  let a ← index src 0
  let b ← index src 1
  .ok ((a.toUInt16 <<< 8) ||| b.toUInt16)

theorem putUint24_eq (v : Nat) : putUint24 (UInt32.ofNat v) = beEncode 3 v := by
  simp only [putUint24, beEncode, List.cons.injEq, and_true]
  refine ⟨?_, ?_, ?_⟩ <;> apply UInt8.toNat_inj.mp <;>
    simp [Nat.shiftRight_eq_div_pow] <;> omega

theorem putUint16_eq (v : UInt16) : putUint16 v = beEncode 2 v.toNat := by
  simp only [putUint16, beEncode, List.cons.injEq, and_true]
  refine ⟨?_, ?_⟩ <;> apply UInt8.toNat_inj.mp <;>
    simp [Nat.shiftRight_eq_div_pow]

theorem readUint24_cons (a b c : UInt8) (t : Bytes) :
    readUint24 (a::b::c::t) = .ok (UInt32.ofNat (beDecode [a,b,c])) := by
  have ha := a.toNat_lt
  have hb := b.toNat_lt
  have hc := c.toNat_lt
  have h : ((a.toUInt32 <<< 16) ||| (b.toUInt32 <<< 8) ||| c.toUInt32).toNat =
      a.toNat*65536+b.toNat*256+c.toNat := by
    simp only [UInt32.toNat_or, UInt32.toNat_shiftLeft, UInt8.toNat_toUInt32,
      Nat.shiftLeft_eq]
    have p16 : 2^(UInt32.toNat 16%32) = 65536 := rfl
    have p8 : 2^(UInt32.toNat 8%32) = 256 := rfl
    have e1 : a.toNat*2^(UInt32.toNat 16%32)%2^32 = (a.toNat*256)*2^8 := by rw [p16]; omega
    have e2 : b.toNat*2^(UInt32.toNat 8%32)%2^32 = b.toNat*2^8 := by rw [p8]; omega
    rw [e1, e2, ← Nat.shiftLeft_eq, ← Nat.shiftLeft_eq, ← Nat.shiftLeft_or_distrib,
      ← Nat.shiftLeft_add_eq_or_of_lt hc, Nat.shiftLeft_eq, show 256 = 2^8 from rfl,
      ← Nat.shiftLeft_eq a.toNat 8, ← Nat.shiftLeft_add_eq_or_of_lt hb, Nat.shiftLeft_eq,
      Nat.shiftLeft_eq]
    ring
  simp only [readUint24, index, List.getElem?_cons_zero, List.getElem?_cons_succ, ok_bind]
  congr 1
  apply UInt32.toNat_inj.mp
  rw [h]
  simp [beDecode]
  omega

theorem readUint16_cons (a b : UInt8) (t : Bytes) :
    readUint16 (a::b::t) = .ok (UInt16.ofNat (beDecode [a,b])) := by
  have ha := a.toNat_lt
  have hb := b.toNat_lt
  have h : ((a.toUInt16 <<< 8) ||| b.toUInt16).toNat = a.toNat*256+b.toNat := by
    simp only [UInt16.toNat_or, UInt16.toNat_shiftLeft, UInt8.toNat_toUInt16]
    have e1 : a.toNat <<< (UInt16.toNat 8%16)%2^16 = a.toNat <<< 8 := by
      have p8 : 2^(UInt16.toNat 8%16) = 256 := rfl
      rw [Nat.shiftLeft_eq, Nat.shiftLeft_eq, p8]; omega
    rw [e1, ← Nat.shiftLeft_add_eq_or_of_lt hb, Nat.shiftLeft_eq]
  simp only [readUint16, index, List.getElem?_cons_zero, List.getElem?_cons_succ, ok_bind]
  congr 1
  apply UInt16.toNat_inj.mp
  rw [h]
  simp [beDecode]
  omega

structure HandshakeMessage where
  type : UInt8
  body : Bytes
  deriving DecidableEq, Repr

def marshalHandshakeMessage (m : HandshakeMessage) : Except Error Bytes :=
  if m.body.length > 0xFFFFFF then .error .errInvalidLength
  else .ok (m.type :: putUint24 (UInt32.ofNat m.body.length) ++ m.body)

def unmarshalHandshakeMessage (b : Bytes) : Except Error (HandshakeMessage × Bytes) :=
  if b.length < handshakeHeaderLen then .error .errTruncated
  else do
    let t ← index b 0
    let lenBytes ← slice b 1 4
    let len ← readUint24 lenBytes
    let n := len.toNat
    if n > 0xFFFFFF then .error .errInvalidLength
    else if b.length < handshakeHeaderLen+n then .error .errTruncated
    else do
      let body ← slice b 4 (4+n)
      let rest ← sliceFrom b (4+n)
      .ok (⟨t, body⟩, rest)

def encodeHandshake (m : HandshakeMessage) : Bytes :=
  m.type :: (beEncode 3 m.body.length ++ m.body)

theorem marshalHandshakeMessage_ok (m : HandshakeMessage) (bs : Bytes) :
    marshalHandshakeMessage m = .ok bs ↔ m.body.length ≤ 0xFFFFFF ∧ bs = encodeHandshake m := by
  simp only [marshalHandshakeMessage, guard_eq_ok, putUint24_eq, Except.ok.injEq,
    encodeHandshake, List.cons_append, not_lt]
  exact and_congr_right fun _ => eq_comm

theorem exists_cons4 {b : Bytes} (h : 4 ≤ b.length) : ∃ w x y z t, b = w::x::y::z::t := by
  match b, h with
  | w::x::y::z::t, _ => exact ⟨w, x, y, z, t, rfl⟩

theorem unmarshalHandshakeMessage_cons (w x y z : UInt8) (t : Bytes) :
    unmarshalHandshakeMessage (w::x::y::z::t) =
      if t.length < beDecode [x,y,z] then .error .errTruncated
      else .ok (⟨w, t.take (beDecode [x,y,z])⟩, t.drop (beDecode [x,y,z])) := by
  have hlt : beDecode [x,y,z] < 256^3 := beDecode_lt [x,y,z]
  have hn : (UInt32.ofNat (beDecode [x,y,z])).toNat = beDecode [x,y,z] := by
    rw [UInt32.toNat_ofNat']; omega
  have hslice : slice (w::x::y::z::t) 1 4 = .ok [x,y,z] :=
    @slice_ok (w::x::y::z::t) 1 3 (by simp)
  have hindex : index (w::x::y::z::t) 0 = .ok w := rfl
  rw [unmarshalHandshakeMessage, if_neg (by simp [handshakeHeaderLen]), hindex, ok_bind, hslice,
    ok_bind, readUint24_cons, ok_bind]
  simp only [hn, handshakeHeaderLen, List.length_cons]
  rw [if_neg (by omega)]
  by_cases hc : t.length < beDecode [x,y,z]
  · rw [if_pos (by omega), if_pos hc]
  · rw [if_neg (by omega), if_neg hc, slice_ok (by simp; omega), sliceFrom_ok (by simp; omega)]
    simp [Nat.add_comm 4]

/-- A byte string parses as `m` followed by `rest` exactly when it is the wire image
of `m` followed by `rest`. -/
theorem unmarshalHandshakeMessage_ok (b : Bytes) (m : HandshakeMessage) (rest : Bytes) :
    unmarshalHandshakeMessage b = .ok (m, rest) ↔
      m.body.length ≤ 0xFFFFFF ∧ b = encodeHandshake m ++ rest := by
  constructor
  · intro h
    by_cases hlen : b.length < 4
    · rw [unmarshalHandshakeMessage, handshakeHeaderLen, if_pos hlen] at h
      cases h
    obtain ⟨w, x, y, z, t, rfl⟩ := exists_cons4 (not_lt.mp hlen)
    have hlt : beDecode [x,y,z] < 256^3 := beDecode_lt [x,y,z]
    rw [unmarshalHandshakeMessage_cons, guard_eq_ok] at h
    obtain ⟨hc, h⟩ := h
    cases h
    have hbody : (t.take (beDecode [x,y,z])).length = beDecode [x,y,z] := by
      rw [List.length_take]; omega
    refine ⟨by rw [hbody]; omega, ?_⟩
    have henc : beEncode 3 (beDecode [x,y,z]) = [x,y,z] := beEncode_beDecode [x,y,z]
    rw [encodeHandshake, hbody, henc, List.cons_append, List.append_assoc, List.take_append_drop]
    rfl
  · intro h
    obtain ⟨hfit, rfl⟩ := h
    obtain ⟨w, body⟩ := m
    have hdec : beDecode (beEncode 3 body.length) = body.length :=
      beDecode_beEncode_of_lt (by simp only at hfit; omega)
    obtain ⟨x, y, z, hxyz⟩ : ∃ x y z, beEncode 3 body.length = [x,y,z] := ⟨_, _, _, rfl⟩
    rw [hxyz] at hdec
    simp only [encodeHandshake, hxyz, List.cons_append, List.nil_append]
    rw [unmarshalHandshakeMessage_cons, hdec, if_neg (by simp), List.take_left, List.drop_left]

structure Extension where
  type : UInt16
  data : Bytes
  deriving DecidableEq, Repr

/-- The first loop of `MarshalExtensions`, which adds up the payload length. -/
def extensionsPayloadLen : List Extension → Nat → Except Error Nat
  | [], payloadLen => .ok payloadLen
  | e :: exts, payloadLen =>
    if e.data.length > 0xFFFF then .error .errInvalidLength
    else if payloadLen+(4+e.data.length) > 0xFFFF then .error .errInvalidLength
    else extensionsPayloadLen exts (payloadLen+(4+e.data.length))

def putExtension (e : Extension) : Bytes :=
  putUint16 e.type ++ putUint16 (UInt16.ofNat e.data.length) ++ e.data

def marshalExtensions (exts : List Extension) : Except Error Bytes := do
  let payloadLen ← extensionsPayloadLen exts 0
  .ok (putUint16 (UInt16.ofNat payloadLen) ++ exts.flatMap putExtension)

/-- One round of the loop of `UnmarshalExtensions`, at index `i` of the payload. -/
def extensionAt (payload : Bytes) (i : Nat) : Except Error (Item Extension i) :=
  if payload.length-i < 4 then .error .errTruncated
  else do
    let typBytes ← slice payload i (i+2)
    let typ ← readUint16 typBytes
    let lenBytes ← slice payload (i+2) (i+4)
    let len ← readUint16 lenBytes
    let l := len.toNat
    if l > payload.length-(i+4) then .error .errInvalidLength
    else do
      let data ← slice payload (i+4) (i+4+l)
      .ok ⟨⟨typ, data⟩, i+4+l, by omega⟩

def unmarshalExtensions (b : Bytes) : Except Error (List Extension × Bytes) :=
  if b.length < 2 then .error .errTruncated
  else do
    let totalBytes ← slice b 0 2
    let totalLen ← readUint16 totalBytes
    let total := totalLen.toNat
    if b.length < 2+total then .error .errTruncated
    else do
      let payload ← slice b 2 (2+total)
      let rest ← sliceFrom b (2+total)
      let exts ← parseAll extensionAt payload 0
      .ok (exts, rest)

def encodeExtension (e : Extension) : Bytes :=
  beEncode 2 e.type.toNat ++ (beEncode 2 e.data.length ++ e.data)

def encodeExtensionList (exts : List Extension) : Bytes := exts.flatMap encodeExtension

def encodeExtensions (exts : List Extension) : Bytes :=
  beEncode 2 (encodeExtensionList exts).length ++ encodeExtensionList exts

def ExtensionsFit (exts : List Extension) : Prop := (encodeExtensionList exts).length ≤ 0xFFFF

theorem encodeExtension_length (e : Extension) : (encodeExtension e).length = 4+e.data.length := by
  simp [encodeExtension]; omega

theorem encodeExtensionList_cons (e : Extension) (exts : List Extension) :
    encodeExtensionList (e::exts) = encodeExtension e ++ encodeExtensionList exts := rfl

theorem ExtensionsFit.data_le {exts : List Extension} (h : ExtensionsFit exts) :
    ∀ e ∈ exts, e.data.length ≤ 0xFFFF := by
  intro e he
  have hle : (encodeExtension e).length ≤ (encodeExtensionList exts).length :=
    (List.sublist_flatten_of_mem (List.mem_map_of_mem he)).length_le
  rw [encodeExtension_length] at hle
  unfold ExtensionsFit at h
  omega

theorem putUint16_ofNat {v : Nat} (h : v ≤ 0xFFFF) : putUint16 (UInt16.ofNat v) = beEncode 2 v := by
  rw [putUint16_eq, UInt16.toNat_ofNat', Nat.mod_eq_of_lt (by omega)]

theorem extensionsPayloadLen_ok (exts : List Extension) (k n : Nat) (hk : k ≤ 0xFFFF) :
    extensionsPayloadLen exts k = .ok n ↔
      n = k+(encodeExtensionList exts).length ∧ n ≤ 0xFFFF := by
  induction exts generalizing k with
  | nil =>
    simp only [extensionsPayloadLen, encodeExtensionList, List.flatMap_nil, List.length_nil,
      Except.ok.injEq]
    omega
  | cons e exts ih =>
    have hlen := encodeExtension_length e
    rw [extensionsPayloadLen, guard_eq_ok, guard_eq_ok, encodeExtensionList_cons,
      List.length_append, hlen]
    constructor
    · intro h
      obtain ⟨_, hfit, h⟩ := h
      rw [ih _ (by omega)] at h
      omega
    · intro h
      obtain ⟨hn, hle⟩ := h
      refine ⟨by omega, by omega, ?_⟩
      rw [ih _ (by omega)]
      omega

theorem putExtension_eq {e : Extension} (h : e.data.length ≤ 0xFFFF) :
    putExtension e = encodeExtension e := by
  rw [putExtension, encodeExtension, putUint16_eq, putUint16_ofNat h, List.append_assoc]

theorem flatMap_putExtension {exts : List Extension} (h : ∀ e ∈ exts, e.data.length ≤ 0xFFFF) :
    exts.flatMap putExtension = encodeExtensionList exts := by
  induction exts with
  | nil => rfl
  | cons e exts ih =>
    rw [List.flatMap_cons, putExtension_eq (h e (by simp)), ih fun e' he' => h e' (by simp [he']),
      encodeExtensionList_cons]

theorem marshalExtensions_ok (exts : List Extension) (bs : Bytes) :
    marshalExtensions exts = .ok bs ↔ ExtensionsFit exts ∧ bs = encodeExtensions exts := by
  simp only [marshalExtensions, bind_eq_ok, extensionsPayloadLen_ok exts 0 _ (by omega),
    Except.ok.injEq, Nat.zero_add]
  constructor
  · intro h
    obtain ⟨n, ⟨rfl, hfit⟩, rfl⟩ := h
    refine ⟨hfit, ?_⟩
    rw [flatMap_putExtension (ExtensionsFit.data_le hfit), putUint16_ofNat hfit, encodeExtensions]
  · intro h
    obtain ⟨hfit, rfl⟩ := h
    refine ⟨_, ⟨rfl, hfit⟩, ?_⟩
    rw [flatMap_putExtension (ExtensionsFit.data_le hfit), putUint16_ofNat hfit, encodeExtensions]

theorem extensionAt_header {payload : Bytes} {i : Nat} {w x y z : UInt8} {t : Bytes}
    (h : payload.drop i = w::x::y::z::t) :
    extensionAt payload i =
      if beDecode [y,z] > t.length then .error .errInvalidLength
      else .ok ⟨⟨UInt16.ofNat (beDecode [w,x]), t.take (beDecode [y,z])⟩,
        i+4+beDecode [y,z], by omega⟩ := by
  have hlen : payload.length-i = t.length+4 := by
    have := congrArg List.length h
    simpa using this
  have hdrop2 : payload.drop (i+2) = y::z::t := by rw [← List.drop_drop, h]; rfl
  have hdrop4 : payload.drop (i+4) = t := by rw [← List.drop_drop, h]; rfl
  have htyp : slice payload i (i+2) = .ok [w,x] := by
    rw [slice_ok (by omega), h]; rfl
  have hl : slice payload (i+2) (i+4) = .ok [y,z] := by
    have := @slice_ok payload (i+2) 2 (by omega)
    rw [hdrop2] at this
    exact this
  have hlt : beDecode [y,z] < 256^2 := beDecode_lt [y,z]
  have hn : (UInt16.ofNat (beDecode [y,z])).toNat = beDecode [y,z] := by
    rw [UInt16.toNat_ofNat']; omega
  rw [extensionAt, if_neg (by omega)]
  simp only [htyp, hl, ok_bind, readUint16_cons, hn]
  by_cases hc : beDecode [y,z] > t.length
  · rw [if_pos (by omega), if_pos hc]
  · rw [if_neg (by omega), if_neg hc, slice_ok (by omega), hdrop4]
    rfl

theorem extensionAt_reads :
    Reads extensionAt encodeExtension (fun e => e.data.length ≤ 0xFFFF) where
  enc_ne_nil e := by simp [encodeExtension, beEncode]
  sound payload i item hi h := by
    by_cases h4 : payload.length-i < 4
    · rw [extensionAt, if_pos h4] at h
      cases h
    obtain ⟨w, x, y, z, t, ht⟩ := exists_cons4 (b := payload.drop i) (by simp; omega)
    rw [extensionAt_header ht, guard_eq_ok] at h
    obtain ⟨hc, h⟩ := h
    cases h
    have hlt : beDecode [y,z] < 256^2 := beDecode_lt [y,z]
    have hwx : beDecode [w,x] < 256^2 := beDecode_lt [w,x]
    have hdata : (t.take (beDecode [y,z])).length = beDecode [y,z] := by
      rw [List.length_take]; omega
    refine ⟨by simp only [hdata]; omega, ?_⟩
    have hdrop : payload.drop (i+4+beDecode [y,z]) = t.drop (beDecode [y,z]) := by
      rw [← List.drop_drop, ← List.drop_drop, ht]; rfl
    have htype : (UInt16.ofNat (beDecode [w,x])).toNat = beDecode [w,x] := by
      rw [UInt16.toNat_ofNat']; omega
    have hew : beEncode 2 (beDecode [w,x]) = [w,x] := beEncode_beDecode [w,x]
    have hey : beEncode 2 (beDecode [y,z]) = [y,z] := beEncode_beDecode [y,z]
    simp only [hdrop, encodeExtension, htype, hdata, hew, hey, ht, List.cons_append,
      List.nil_append, List.take_append_drop]
  complete payload i e t hfit h := by
    have hdt : beDecode (beEncode 2 e.type.toNat) = e.type.toNat :=
      beDecode_beEncode_of_lt e.type.toNat_lt
    have hdl : beDecode (beEncode 2 e.data.length) = e.data.length :=
      beDecode_beEncode_of_lt (by omega)
    obtain ⟨w, x, hwx⟩ : ∃ w x, beEncode 2 e.type.toNat = [w,x] := ⟨_, _, rfl⟩
    obtain ⟨y, z, hyz⟩ : ∃ y z, beEncode 2 e.data.length = [y,z] := ⟨_, _, rfl⟩
    have hdrop : payload.drop i = w::x::y::z::(e.data ++ t) := by
      rw [h, encodeExtension, hwx, hyz]; simp
    rw [hwx] at hdt
    rw [hyz] at hdl
    have hstep := extensionAt_header hdrop
    rw [if_neg (by rw [hdl]; simp)] at hstep
    refine ⟨_, hstep, ?_, ?_⟩
    · simp only [hdt, hdl, UInt16.ofNat_toNat, List.take_left]
    · simp only [hdl]
      rw [← List.drop_drop, ← List.drop_drop, hdrop]
      exact List.drop_left

/-- The extension-block parser accepts exactly the wire images, and what follows a
block is returned untouched. -/
theorem unmarshalExtensions_cons (y z : UInt8) (t : Bytes) (exts : List Extension)
    (rest : Bytes) :
    unmarshalExtensions (y::z::t) = .ok (exts, rest) ↔
      beDecode [y,z] ≤ t.length ∧ parseAll extensionAt (t.take (beDecode [y,z])) 0 = .ok exts ∧
        rest = t.drop (beDecode [y,z]) := by
  have hlen : ¬(y::z::t).length < 2 := by simp
  have hlt : beDecode [y,z] < 256^2 := beDecode_lt [y,z]
  have hn : (UInt16.ofNat (beDecode [y,z])).toNat = beDecode [y,z] := by
    rw [UInt16.toNat_ofNat']
    omega
  have hslice : slice (y::z::t) 0 2 = .ok [y,z] := @slice_ok (y::z::t) 0 2 (by simp)
  simp only [unmarshalExtensions, if_neg hlen, hslice, ok_bind, readUint16_cons, hn, guard_eq_ok]
  have hiff : ¬(y::z::t).length < 2+beDecode [y,z] ↔ beDecode [y,z] ≤ t.length := by
    simp only [List.length_cons]
    omega
  rw [hiff]
  refine and_congr_right fun hle => ?_
  have hfit : 2+beDecode [y,z] ≤ (y::z::t).length := not_lt.mp (hiff.mpr hle)
  have hpay : ((y::z::t).drop 2).take (beDecode [y,z]) = t.take (beDecode [y,z]) := rfl
  have hrest : (y::z::t).drop (2+beDecode [y,z]) = t.drop (beDecode [y,z]) := by
    rw [← List.drop_drop]
    rfl
  rw [slice_ok hfit, sliceFrom_ok hfit, hpay, hrest]
  simp only [ok_bind, bind_eq_ok, Except.ok.injEq, Prod.mk.injEq]
  constructor
  · intro h
    obtain ⟨es, hloop, rfl, hrest⟩ := h
    exact ⟨hloop, hrest.symm⟩
  · exact fun h => ⟨exts, h.1, rfl, h.2.symm⟩

/-- The announced length is that of the encoding exactly when the octets are cut there. -/
theorem eq_encodeExtensions {y z : UInt8} {t rest : Bytes} {exts : List Extension}
    (hfit : ExtensionsFit exts) :
    y::z::t = encodeExtensions exts ++ rest ↔
      beDecode [y,z] ≤ t.length ∧ t.take (beDecode [y,z]) = encodeExtensionList exts ∧
        rest = t.drop (beDecode [y,z]) := by
  have hdec : beDecode (beEncode 2 (encodeExtensionList exts).length) =
      (encodeExtensionList exts).length := by
    apply beDecode_beEncode_of_lt
    unfold ExtensionsFit at hfit
    omega
  rw [encodeExtensions]
  constructor
  · intro hb
    obtain ⟨y', z', hyz⟩ : ∃ y z, beEncode 2 (encodeExtensionList exts).length = [y,z] :=
      ⟨_, _, rfl⟩
    rw [hyz] at hb hdec
    simp only [List.cons_append, List.nil_append, List.cons.injEq] at hb
    obtain ⟨rfl, rfl, rfl⟩ := hb
    rw [hdec, List.take_left, List.drop_left, List.length_append]
    exact ⟨Nat.le_add_right _ _, rfl, rfl⟩
  · intro h
    obtain ⟨hle, htake, rfl⟩ := h
    have hl : (encodeExtensionList exts).length = beDecode [y,z] := by
      rw [← htake, List.length_take, min_eq_left hle]
    have hyz : beEncode 2 (beDecode [y,z]) = [y,z] := beEncode_beDecode [y,z]
    rw [hl, hyz, ← htake, List.append_assoc, List.take_append_drop]
    rfl

theorem unmarshalExtensions_ok (b : Bytes) (exts : List Extension) (rest : Bytes) :
    unmarshalExtensions b = .ok (exts, rest) ↔
      ExtensionsFit exts ∧ b = encodeExtensions exts ++ rest := by
  by_cases hlen : b.length < 2
  · have hfalse : b ≠ encodeExtensions exts ++ rest := by
      intro hb
      have := congrArg List.length hb
      simp [encodeExtensions] at this
      omega
    simp [unmarshalExtensions, hlen, hfalse]
  obtain ⟨y, z, t, rfl⟩ : ∃ y z t, b = y::z::t := by
    match b, hlen with
    | y::z::t, _ => exact ⟨y, z, t, rfl⟩
    | [_], hlen => simp at hlen
    | [], hlen => simp at hlen
  rw [unmarshalExtensions_cons, extensionAt_reads.parseAll_ok, List.drop_zero,
    ← encodeExtensionList]
  constructor
  · intro h
    obtain ⟨hle, ⟨_, htake⟩, hrest⟩ := h
    have hfit : ExtensionsFit exts := by
      have hlt : beDecode [y,z] < 256^2 := beDecode_lt [y,z]
      rw [ExtensionsFit, ← htake, List.length_take]
      omega
    exact ⟨hfit, (eq_encodeExtensions hfit).mpr ⟨hle, htake, hrest⟩⟩
  · intro h
    obtain ⟨hfit, hb⟩ := h
    obtain ⟨hle, htake, hrest⟩ := (eq_encodeExtensions hfit).mp hb
    exact ⟨hle, ⟨hfit.data_le, htake⟩, hrest⟩

end DistributedEnclave.Ea
