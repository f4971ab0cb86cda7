import DistributedEnclave.Atls.Server
import DistributedEnclave.Ea.Creation
import DistributedEnclave.Pieces

/-! Frames over a stream that takes and delivers its octets in pieces. Whatever the pieces,
the octets on the stream are those of the frames, and a reader takes one frame and no octet
of what follows it. -/
namespace DistributedEnclave.Atls.Framing
open DistributedEnclave.Octets DistributedEnclave.Outcome DistributedEnclave.Pieces
open DistributedEnclave.Ea

inductive FrameError where
  | read (e : Shortfall) | invalidFrameType | panic
  deriving DecidableEq, Repr

def writeFrame {ε : Type} (grant : Nat → Grant ε) (typ : UInt8) (payload : Bytes) :
    Effect ε (Sink UInt8) Unit := do
  writeAll grant (typ::beEncode 4 payload.length)
  if payload.length = 0 then pure () else writeAll grant payload

def readFrame : Effect FrameError (Source UInt8) (UInt8 × Bytes) := do
  let header ← readFull .read 5
  match header with
  | [] => throw .panic
  | typ::lenBytes =>
    if typ = 0 then throw .invalidFrameType
    else do
      let payload ← readFull .read (beDecode lenBytes)
      pure (typ, payload)

/-- A frame that the reader can return: a type other than 0 and a length of 32 bits. -/
structure Frame where
  typ : UInt8
  payload : Bytes
  typ_ne : typ ≠ 0
  payload_lt : payload.length < 2^32

def Frame.image (f : Frame) : Bytes := Atls.writeFrame f.typ f.payload

def Frame.value (f : Frame) : UInt8 × Bytes := (f.typ, f.payload)

theorem Frame.image_length (f : Frame) : f.image.length = 5+f.payload.length := by
  simp [image, Atls.writeFrame]
  omega

theorem exec_writeFrame {ε : Type} {grant : Nat → Grant ε}
    (hgrant : ∀ k, ∃ n, grant k = .accept n) (typ : UInt8) (payload : Bytes) (s : Sink UInt8) :
    ∃ s', exec (writeFrame grant typ payload) s = (.ok (), s') ∧
      s'.written = s.written ++ Atls.writeFrame typ payload := by
  obtain ⟨s1, hrun1, hwritten1⟩ := writeAll_ok hgrant (typ::beEncode 4 payload.length) s
  rw [writeFrame, exec_bind, hrun1]
  by_cases hnil : payload.length = 0
  · refine ⟨s1, by simp only [if_pos hnil, exec_pure], ?_⟩
    rw [hwritten1, Atls.writeFrame, List.eq_nil_of_length_eq_zero hnil, List.append_nil]
  · obtain ⟨s2, hrun2, hwritten2⟩ := writeAll_ok hgrant payload s1
    refine ⟨s2, by simp only [if_neg hnil, hrun2], ?_⟩
    rw [hwritten2, hwritten1, List.append_assoc]
    rfl

/-- The reader of a whole stream behind a complete header. -/
theorem readFrame_header {typ : UInt8} {lb : Bytes} (hlb : lb.length = 4) (t : Bytes) :
    Atls.readFrame (typ::lb ++ t) =
      if typ = 0 then .error .invalidFrameType
      else if t.length < beDecode lb then .error .unexpectedEOF
      else .ok (typ, t.take (beDecode lb), t.drop (beDecode lb)) := by
  have hheader : slice (typ::lb ++ t) 0 5 = .ok (typ::lb) :=
    @slice_append [] (typ::lb) t 0 5 rfl (by simp [hlb])
  have hbody : sliceFrom (typ::lb ++ t) 5 = .ok t := sliceFrom_append (by simp [hlb])
  have hindex : index (typ::lb) 0 = .ok typ := rfl
  have hlenBytes : slice (typ::lb) 1 5 = .ok lb := by
    have := @slice_append [typ] lb [] 1 5 rfl (by rw [hlb])
    simpa using this
  rw [Atls.readFrame, if_neg (by simp [hlb])]
  simp only [hheader, hindex, hlenBytes, hbody, ok_bind]
  by_cases htyp : typ = 0
  · rw [if_pos htyp, if_pos htyp]
  · rw [if_neg htyp, if_neg htyp]
    by_cases ht : t.length < beDecode lb
    · rw [if_pos ht, if_pos ht]
    · rw [if_neg ht, if_neg ht, slice_zero (by omega), sliceFrom_ok (by omega)]
      rfl

/-- The reader of a stream in pieces does what the reader of a whole stream does on the octets
that are there. -/
theorem exec_readFrame (s : Source UInt8) :
    match Atls.readFrame s.unread with
    | .ok (typ, payload, rest) =>
      ∃ s', exec readFrame s = (.ok (typ, payload), s') ∧ s'.unread = rest
    | .error _ => ∃ e s', exec readFrame s = (.error e, s') := by
  by_cases h5 : s.unread.length < 5
  · obtain ⟨e, s1, hrun⟩ := readFull_short FrameError.read h5
    rw [Atls.readFrame, if_pos h5]
    exact ⟨e, s1, by rw [readFrame, exec_bind, hrun]⟩
  obtain ⟨header, t, ht, hheader⟩ := @exists_front s.unread 5 (by omega)
  obtain ⟨typ, lb, rfl⟩ := List.exists_cons_of_length_pos (show 0 < header.length by omega)
  have hlb : lb.length = 4 := by simpa using hheader
  obtain ⟨s1, hrun1, hrest1⟩ := readFull_ok FrameError.read (show 5 ≤ s.unread.length by omega)
  rw [ht, (append_split hheader).1] at hrun1
  rw [ht, (append_split hheader).2] at hrest1
  rw [ht, readFrame_header hlb, readFrame, exec_bind, hrun1]
  by_cases htyp : typ = 0
  · simp only [if_pos htyp]
    exact ⟨_, s1, rfl⟩
  simp only [if_neg htyp]
  rw [exec_bind]
  by_cases hshort : t.length < beDecode lb
  · obtain ⟨e, s2, hrun2⟩ := readFull_short FrameError.read
      (show s1.unread.length < beDecode lb by rw [hrest1]; exact hshort)
    simp only [if_pos hshort, hrun2]
    exact ⟨e, s2, rfl⟩
  · obtain ⟨s2, hrun2, hrest2⟩ := readFull_ok FrameError.read
      (show beDecode lb ≤ s1.unread.length by rw [hrest1]; omega)
    rw [hrest1] at hrun2 hrest2
    simp only [if_neg hshort, hrun2]
    exact ⟨s2, rfl, hrest2⟩

theorem exec_readFrame_ok {f : Frame} {s : Source UInt8} {rest : Bytes}
    (h : s.unread = f.image ++ rest) :
    ∃ s', exec readFrame s = (.ok f.value, s') ∧ s'.unread = rest := by
  have hread := exec_readFrame s
  rw [h, Frame.image, readFrame_writeFrame f.typ_ne (by have := f.payload_lt; omega)] at hread
  exact hread

/-- A stream that ends inside a frame yields an error. -/
theorem exec_readFrame_cut {f : Frame} {s : Source UInt8} {k : Nat} (hk : k < f.image.length)
    (h : s.unread = f.image.take k) : ∃ e s', exec readFrame s = (.error e, s') := by
  have hread := exec_readFrame s
  have herror : ∃ e, Atls.readFrame (f.image.take k) = .error e := by
    by_cases h5 : k < 5
    · rw [Atls.readFrame, if_pos (by rw [List.length_take]; omega)]
      exact ⟨_, rfl⟩
    · have himage : f.image.take k =
          f.typ::beEncode 4 f.payload.length ++ f.payload.take (k-5) := by
        obtain ⟨j, rfl⟩ : ∃ j, k = 5+j := ⟨k-5, by omega⟩
        have hsplit : f.image = (f.typ::beEncode 4 f.payload.length) ++ f.payload := rfl
        rw [hsplit, List.take_append, List.take_of_length_le (by simp)]
        simp
      have hdec : beDecode (beEncode 4 f.payload.length) = f.payload.length :=
        beDecode_beEncode_of_lt f.payload_lt
      rw [f.image_length] at hk
      rw [himage, readFrame_header (beEncode_length 4 _), if_neg f.typ_ne, hdec,
        if_pos (by rw [List.length_take]; omega)]
      exact ⟨_, rfl⟩
  obtain ⟨e, he⟩ := herror
  rw [h, he] at hread
  exact hread

def writeFrames {ε : Type} (grant : Nat → Grant ε) : List Frame → Effect ε (Sink UInt8) Unit
  | [] => pure ()
  | f::fs => do
    writeFrame grant f.typ f.payload
    writeFrames grant fs

def readFrames : Nat → Effect FrameError (Source UInt8) (List (UInt8 × Bytes))
  | 0 => pure []
  | n+1 => do
    let f ← readFrame
    let fs ← readFrames n
    pure (f::fs)

theorem exec_writeFrames {ε : Type} {grant : Nat → Grant ε}
    (hgrant : ∀ k, ∃ n, grant k = .accept n) (frames : List Frame) (s : Sink UInt8) :
    ∃ s', exec (writeFrames grant frames) s = (.ok (), s') ∧
      s'.written = s.written ++ frames.flatMap Frame.image := by
  induction frames generalizing s with
  | nil => exact ⟨s, rfl, by simp⟩
  | cons f fs ih =>
    obtain ⟨s1, hrun1, hwritten1⟩ := exec_writeFrame hgrant f.typ f.payload s
    obtain ⟨s2, hrun2, hwritten2⟩ := ih s1
    refine ⟨s2, by rw [writeFrames, exec_bind, hrun1]; exact hrun2, ?_⟩
    rw [hwritten2, hwritten1, List.append_assoc]
    rfl

theorem exec_readFrames (frames : List Frame) {s : Source UInt8} {rest : Bytes}
    (h : s.unread = frames.flatMap Frame.image ++ rest) :
    ∃ s', exec (readFrames frames.length) s = (.ok (frames.map Frame.value), s') ∧
      s'.unread = rest := by
  induction frames generalizing s with
  | nil => exact ⟨s, rfl, h⟩
  | cons f fs ih =>
    rw [List.flatMap_cons, List.append_assoc] at h
    obtain ⟨s1, hrun1, hrest1⟩ := exec_readFrame_ok h
    obtain ⟨s2, hrun2, hrest2⟩ := ih hrest1
    refine ⟨s2, ?_, hrest2⟩
    rw [List.length_cons, readFrames, exec_bind, hrun1]
    simp only [exec_bind, hrun2]
    rfl

theorem encodeHandshake_length (m : HandshakeMessage) :
    (encodeHandshake m).length = 4+m.body.length := by
  simp [encodeHandshake]
  omega

theorem marshalRequest_lt {r : AuthenticatorRequest} {bs : Bytes}
    (h : marshalRequest r = .ok bs) : bs.length < 2^32 := by
  obtain ⟨hfit, rfl⟩ := (marshalRequest_ok r bs).mp h
  have hbody := hfit.body
  rw [encodeRequest, encodeHandshake_length]
  simp only
  omega

theorem createAuthenticator_lt {lib : Library} {sg : Producer} {st : ConnectionState}
    {role : Role} {req : Option AuthenticatorRequest}
    {policy : Option SpontaneousAuthenticatorPolicy} {identity : Identity}
    {exts : List Extension} {w w' : World} {authBytes : Bytes}
    (h : exec (createAuthenticator lib sg st role req policy identity exts) w =
      (.ok authBytes, w')) : authBytes.length < 2^32 := by
  obtain ⟨ctx, hbytes, _⟩ := (exec_createAuthenticator_ok ..).mp h
  obtain ⟨_, _, d, _, _, hform⟩ := (createBytes_ok ..).mp hbytes
  rcases hform with hempty | ⟨priv, cert, cv, hfull⟩
  · have hfin := hempty.isFinished.finFits.2
    rw [hempty.isFinished.bytes, encodeFinished, encodeHandshake_length]
    simp only at hfin ⊢
    omega
  · have hcert := hfull.isFull.certFits.body
    have hcv := encodeCertificateVerifyBody_le hfull.isFull.cvFits
    have hfin := hfull.isFull.finFits.2
    have h1 := encodeHandshake_length ⟨handshakeTypeCertificate, encodeCertificateBody cert⟩
    have h2 := encodeHandshake_length
      ⟨handshakeTypeCertificateVerify, encodeCertificateVerifyBody cv⟩
    have h3 := encodeHandshake_length
      ⟨handshakeTypeFinished, d.mac lib (encodeCertificate cert ++ encodeCertificateVerify cv)⟩
    rw [hfull.isFull.bytes, List.length_append, List.length_append]
    simp only [encodeCertificate, encodeCertificateVerify, encodeFinished] at h1 h2 h3 hfin ⊢
    omega

/-- Frames are read as they were written, in order, and what was written after them stays
unread, however the writer and the reader cut the stream into pieces. A stream that ends inside
a frame yields the frames before it and then an error. Every request and every authenticator
fits a frame. -/
theorem frames_preserved :
    (∀ {ε : Type} (grant : Nat → Grant ε), (∀ k, ∃ n, grant k = .accept n) →
      ∀ (frames : List Frame) (trailing : Bytes), ∃ sink,
        exec (do
          writeFrames grant frames
          writeAll grant trailing) ⟨[], 0⟩ = (.ok (), sink) ∧
        (∀ source : Source UInt8, source.unread = sink.written →
          ∃ source', exec (readFrames frames.length) source =
              (.ok (frames.map Frame.value), source') ∧ source'.unread = trailing) ∧
        ∀ before f after, frames = before ++ f::after → ∀ k < f.image.length,
          ∀ source : Source UInt8,
            source.unread = sink.written.take ((before.flatMap Frame.image).length+k) →
            ∃ source' e source'', exec (readFrames before.length) source =
                (.ok (before.map Frame.value), source') ∧
              exec readFrame source' = (.error e, source'')) ∧
    (∀ r bs, marshalRequest r = .ok bs → bs.length < 2^32) ∧
    ∀ lib sg st role req policy identity exts w w' authBytes,
      exec (createAuthenticator lib sg st role req policy identity exts) w = (.ok authBytes, w') →
      authBytes.length < 2^32 := by
  refine ⟨?_, fun _ _ h => marshalRequest_lt h, fun _ _ _ _ _ _ _ _ _ _ _ h =>
    createAuthenticator_lt h⟩
  intro ε grant hgrant frames trailing
  obtain ⟨s1, hrun1, hwritten1⟩ := exec_writeFrames hgrant frames ⟨[], 0⟩
  obtain ⟨s2, hrun2, hwritten2⟩ := writeAll_ok hgrant trailing s1
  rw [hwritten1, List.nil_append] at hwritten2
  refine ⟨s2, by rw [exec_bind, hrun1]; exact hrun2, ?_, ?_⟩
  · intro source hsource
    rw [hwritten2] at hsource
    exact exec_readFrames frames hsource
  · intro before f after hframes k hk source hsource
    subst hframes
    have hcut : source.unread = before.flatMap Frame.image ++ f.image.take k := by
      rw [hsource, hwritten2, List.flatMap_append, List.flatMap_cons, List.append_assoc,
        List.append_assoc, List.take_length_add_append, List.take_append_of_le_length hk.le]
    obtain ⟨source', hread, hrest⟩ := exec_readFrames before hcut
    obtain ⟨e, source'', hfail⟩ := exec_readFrame_cut hk hrest
    exact ⟨source', e, source'', hread, hfail⟩

def requestFrame : Frame := ⟨frameTypeRequest, [0x0D, 0x00], by decide, by decide⟩

def oneByOne : Nat → Grant Nat := fun _ => .accept 1

theorem requestFrame_preserved :
    ∃ sink, exec (do
        writeFrames oneByOne [requestFrame]
        writeAll oneByOne [0x43, 0x53, 0x52]) ⟨[], 0⟩ = (.ok (), sink) ∧
      ∀ source : Source UInt8, source.unread = sink.written →
        ∃ source', exec (readFrames 1) source = (.ok [(1, [0x0D, 0x00])], source') ∧
          source'.unread = [0x43, 0x53, 0x52] := by
  obtain ⟨sink, hrun, hread, _⟩ := frames_preserved.1 oneByOne (fun _ => ⟨1, rfl⟩)
    [requestFrame] [0x43, 0x53, 0x52]
  exact ⟨sink, hrun, hread⟩

end DistributedEnclave.Atls.Framing
