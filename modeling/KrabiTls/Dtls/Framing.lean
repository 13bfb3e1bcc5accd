import KrabiTls.Features
import KrabiTls.Lib.Except
import KrabiTls.Lib.Layout

/-! Plaintext framing: the epoch-0 record header and the 12-byte handshake header. -/
namespace KrabiTls.Dtls
open Lib

def dtls12LegacyVersion : Nat := 0xFEFD
def dtls13Version : Nat := 0xFEFC
def plaintextHeaderLen : Nat := 13
def hsHeaderLen : Nat := 12

inductive FramingError where
  | bufferTooSmall
  | truncated
  | fieldTooLarge
  deriving DecidableEq, Repr

/-- One byte of the loop in `read_u48`. -/
def shiftIn (v : UInt64) (byte : UInt8) : UInt64 := v <<< 8 ||| byte.toUInt64

def readU48 (b : Bytes) : UInt64 := (b.take 6).foldl shiftIn 0

/-- `write_u24` into `out[off..]`: the low bytes of a `u32` that has no others. -/
def writeU24 (out : Bytes) (off v : Nat) : Except FramingError Bytes := do
  ensure (v ≤ 0xFFFFFF) .fieldTooLarge
  pure (overwrite out off ((toBe 4 v).drop 1))

/-- `write_u48` into `out[off..]`: the low bytes of a `u64`, whatever the others are. -/
def writeU48 (out : Bytes) (off v : Nat) : Bytes :=
  overwrite out off ((toBe 8 v).drop 2)

theorem shiftIn_toNat {v : UInt64} (byte : UInt8) (h : v.toNat < 2 ^ 56) :
    (shiftIn v byte).toNat = v.toNat * 256 + byte.toNat := by
  have hbyte : byte.toNat < 2 ^ 8 := byte.toNat_lt
  have hshift : (v <<< 8).toNat = v.toNat <<< 8 := by
    have hfits : v.toNat * 2 ^ 8 < 2 ^ 64 := by omega
    rw [UInt64.toNat_shiftLeft, Nat.shiftLeft_eq, Nat.shiftLeft_eq]
    exact Nat.mod_eq_of_lt hfits
  rw [shiftIn, UInt64.toNat_or, hshift, UInt8.toNat_toUInt64, ← Nat.shiftLeft_add_eq_or_of_lt hbyte,
    Nat.shiftLeft_eq]

theorem foldl_shiftIn_toNat {b : Bytes} (h : b.length ≤ 8) :
    (b.foldl shiftIn 0).toNat = ofBe b := by
  induction b using List.reverseRecOn with
  | nil => rfl
  | append_singleton b x ih =>
    rw [List.length_append, List.length_singleton] at h
    have hb := ih (by omega)
    have hlt : ofBe b < 256 ^ 7 := ofBe_lt_of_length_le (by omega)
    rw [List.foldl_append, List.foldl_cons, List.foldl_nil, shiftIn_toNat x (by rw [hb]; exact hlt),
      hb, ofBe_append_singleton]

/-- The shifts of `read_u48` lose nothing. -/
theorem readU48_toNat (b : Bytes) : (readU48 b).toNat = ofBe (b.take 6) :=
  foldl_shiftIn_toNat (by rw [List.length_take]; omega)

theorem writeU24_eq (out : Bytes) (off v : Nat) :
    writeU24 out off v =
      ensure (v ≤ 0xFFFFFF) .fieldTooLarge >>= fun _ => .ok (overwrite out off (toBe 3 v)) := by
  rw [← drop_toBe 1 3 v]
  rfl

theorem writeU24_bind {α : Type} (out : Bytes) (off v : Nat) (k : Bytes → Except FramingError α) :
    writeU24 out off v >>= k =
      ensure (v ≤ 0xFFFFFF) .fieldTooLarge >>= fun _ => k (overwrite out off (toBe 3 v)) := by
  rw [writeU24_eq, bind_assoc]
  rfl

theorem writeU48_eq (out : Bytes) (off v : Nat) : writeU48 out off v = overwrite out off (toBe 6 v) := by
  rw [writeU48, drop_toBe 2 6 v]

/-- A `DTLSPlaintext` record. -/
structure PlaintextRecord where
  contentType : UInt8
  epoch : Nat
  seq : Nat
  fragment : Bytes
  deriving DecidableEq, Repr

namespace PlaintextRecord

variable {rec : PlaintextRecord}

/-- The record at the start of `buf` and the offset of the next one. -/
def parse (buf : Bytes) : Except FramingError (PlaintextRecord × Nat) :=
  if buf.length < plaintextHeaderLen then .error .truncated
  else
    let stop := plaintextHeaderLen + ofBe (slice buf 11 13)
    if buf.length < stop then .error .truncated
    else .ok (⟨buf.headD 0, ofBe (slice buf 3 5), (readU48 (slice buf 5 11)).toNat,
      slice buf plaintextHeaderLen stop⟩, stop)

/-- The record is written into an output of `outLen` bytes. -/
def write (rec : PlaintextRecord) (outLen : Nat) : Except FramingError Bytes := do
  ensure (rec.fragment.length ≤ 0xFFFF) .fieldTooLarge
  ensure (plaintextHeaderLen + rec.fragment.length ≤ outLen) .bufferTooSmall
  pure ([rec.contentType] ++ toBe 2 dtls12LegacyVersion ++ toBe 2 rec.epoch ++ toBe 6 rec.seq ++
    toBe 2 rec.fragment.length ++ rec.fragment)

/-- `write` on the output buffer itself: the record slice, and the buffer as the call leaves it. -/
def writeInto (rec : PlaintextRecord) (out : Bytes) : Except FramingError (Bytes × Bytes) := do
  let total := plaintextHeaderLen + rec.fragment.length
  ensure (rec.fragment.length ≤ 0xFFFF) .fieldTooLarge
  ensure (total ≤ out.length) .bufferTooSmall
  let out := overwrite out 0 [rec.contentType]
  let out := overwrite out 1 (toBe 2 dtls12LegacyVersion)
  let out := overwrite out 3 (toBe 2 rec.epoch)
  let out := writeU48 out 5 rec.seq
  let out := overwrite out 11 (toBe 2 rec.fragment.length)
  let out := overwrite out plaintextHeaderLen rec.fragment
  pure (out.take total, out)

def fields (rec : PlaintextRecord) : List Bytes :=
  [[rec.contentType], toBe 2 dtls12LegacyVersion, toBe 2 rec.epoch, toBe 6 rec.seq,
    toBe 2 rec.fragment.length, rec.fragment]

theorem parse_eq_ok {buf : Bytes} {stop : Nat} : parse buf = .ok (rec, stop) ↔
      stop = 13 + ofBe (slice buf 11 13) ∧ stop ≤ buf.length ∧
        rec = ⟨buf.headD 0, ofBe (slice buf 3 5), ofBe (slice buf 5 11), slice buf 13 stop⟩ := by
  have hseq : (readU48 (slice buf 5 11)).toNat = ofBe (slice buf 5 11) := by
    rw [readU48_toNat, List.take_of_length_le (by rw [slice_length]; omega)]
  unfold parse plaintextHeaderLen
  rw [hseq]
  constructor
  · intro h
    split at h
    · cases h
    · dsimp only at h
      split at h
      · cases h
      · rename_i hstop
        cases h
        exact ⟨rfl, by omega, rfl⟩
  · rintro ⟨rfl, hstop, rfl⟩
    rw [if_neg (by omega), if_neg (by omega)]

theorem fields_length (rec : PlaintextRecord) :
    rec.fields.flatten.length = plaintextHeaderLen + rec.fragment.length := by
  simp only [fields, List.flatten_cons, List.flatten_nil, List.length_append, toBe_length,
    List.length_singleton, List.length_nil, plaintextHeaderLen]
  omega

theorem write_eq (rec : PlaintextRecord) (outLen : Nat) :
    rec.write outLen =
      ensure (rec.fragment.length ≤ 0xFFFF) .fieldTooLarge >>= fun _ =>
        ensure (plaintextHeaderLen + rec.fragment.length ≤ outLen) .bufferTooSmall >>= fun _ =>
          .ok rec.fields.flatten := by
  simp only [write, fields, List.flatten_cons, List.flatten_nil, List.append_nil, List.append_assoc]
  rfl

theorem writeInto_eq (rec : PlaintextRecord) (out : Bytes) :
    rec.writeInto out =
      (rec.write out.length).map fun bytes => (bytes, bytes ++ out.drop bytes.length) := by
  rw [write_eq, map_ensure_bind]
  refine ensure_bind_congr fun _ => ?_
  rw [map_ensure_bind]
  refine ensure_bind_congr fun hroom => ?_
  dsimp only
  rw [writeU48_eq]
  show Except.ok ((overwriteAll out 0 rec.fields).take _, overwriteAll out 0 rec.fields) = _
  rw [overwriteAll_zero (by rw [fields_length]; exact hroom), List.take_left' (fields_length rec)]
  rfl

/-- What is read back from a written record: each number to the width of its field. -/
theorem parse_flatten_fields (h : rec.fragment.length ≤ 0xFFFF) (rest : Bytes) :
    parse (rec.fields.flatten ++ rest) =
      .ok (⟨rec.contentType, rec.epoch % 2 ^ 16, rec.seq % 2 ^ 48, rec.fragment⟩,
        rec.fields.flatten.length) := by
  have hread := fieldsAt_flatten rec.fields rest
  generalize hbuf : rec.fields.flatten ++ rest = buf at hread
  simp only [fields, List.map_cons, List.map_nil, List.length_singleton, toBe_length, fieldsAt,
    Nat.reduceAdd, List.cons.injEq, and_true] at hread
  obtain ⟨-, -, hepoch, hseq, hlen, hfragment⟩ := hread
  have htype : buf.headD 0 = rec.contentType := by
    rw [← hbuf]
    rfl
  have hstop : ofBe (slice buf 11 13) = rec.fragment.length := by
    rw [hlen, ofBe_toBe, Nat.mod_eq_of_lt (by omega)]
  rw [parse_eq_ok]
  refine ⟨?_, ?_, ?_⟩
  · rw [hstop, fields_length, plaintextHeaderLen]
  · rw [← hbuf, List.length_append]
    omega
  · rw [fields_length, plaintextHeaderLen, htype, hfragment, hepoch, hseq]
    simp only [ofBe_toBe, Nat.reducePow]

theorem writeInto_eq_ok {out bytes out' : Bytes} : rec.writeInto out = .ok (bytes, out') ↔
      rec.fragment.length ≤ 0xFFFF ∧ plaintextHeaderLen + rec.fragment.length ≤ out.length ∧
        bytes = rec.fields.flatten ∧ out' = bytes ++ out.drop bytes.length := by
  simp only [writeInto_eq, map_eq_ok, write_eq, bind_eq_ok, ensure_eq_ok, Except.ok.injEq,
    Prod.mk.injEq, exists_and_left, exists_const]
  constructor
  · rintro ⟨bytes, ⟨hfragment, hroom, rfl⟩, rfl, rfl⟩
    exact ⟨hfragment, hroom, rfl, rfl⟩
  · rintro ⟨hfragment, hroom, rfl, rfl⟩
    exact ⟨_, ⟨hfragment, hroom, rfl⟩, rfl, rfl⟩

/-- Whatever `write` returns is read back, in front of anything. -/
def RoundTrips (rec : PlaintextRecord) (out : Bytes) : Prop :=
  ∀ bytes out', rec.writeInto out = .ok (bytes, out') →
    ∀ rest, parse (bytes ++ rest) = .ok (rec, bytes.length)

/-- A record that is written at all has a sequence number of 48 bits. -/
def SeqFits (rec : PlaintextRecord) (out : Bytes) : Prop :=
  rec.fragment.length ≤ 0xFFFF → plaintextHeaderLen + rec.fragment.length ≤ out.length →
    rec.seq < 2 ^ 48

theorem roundTrips_iff_seqFits (out : Bytes) (hepoch : rec.epoch < 2 ^ 16) :
    rec.RoundTrips out ↔ rec.SeqFits out := by
  constructor
  · intro h hfragment hroom
    have hparse := h _ _ (writeInto_eq_ok.mpr ⟨hfragment, hroom, rfl, rfl⟩) []
    rw [parse_flatten_fields hfragment, Except.ok.injEq, Prod.mk.injEq] at hparse
    have hseq : rec.seq % 2 ^ 48 = rec.seq := congrArg PlaintextRecord.seq hparse.1
    rw [← hseq]
    exact Nat.mod_lt _ (by decide)
  · intro h bytes out' hwrite rest
    obtain ⟨hfragment, hroom, rfl, -⟩ := writeInto_eq_ok.mp hwrite
    rw [parse_flatten_fields hfragment, Nat.mod_eq_of_lt hepoch,
      Nat.mod_eq_of_lt (h hfragment hroom)]

end PlaintextRecord

/-- The header of a handshake message or of one of its fragments. -/
structure HandshakeHeader where
  msgType : UInt8
  length : Nat
  messageSeq : Nat
  fragmentOffset : Nat
  fragmentLength : Nat
  deriving DecidableEq, Repr

namespace HandshakeHeader

def parse (buf : Bytes) : Except FramingError HandshakeHeader :=
  if buf.length < hsHeaderLen then .error .truncated
  else .ok ⟨buf.headD 0, ofBe (slice buf 1 4), ofBe (slice buf 4 6), ofBe (slice buf 6 9),
    ofBe (slice buf 9 12)⟩

def write (h : HandshakeHeader) (outLen : Nat) : Except FramingError Bytes := do
  ensure (hsHeaderLen ≤ outLen) .bufferTooSmall
  ensure (h.length ≤ 0xFFFFFF) .fieldTooLarge
  ensure (h.fragmentOffset ≤ 0xFFFFFF) .fieldTooLarge
  ensure (h.fragmentLength ≤ 0xFFFFFF) .fieldTooLarge
  pure ([h.msgType] ++ toBe 3 h.length ++ toBe 2 h.messageSeq ++ toBe 3 h.fragmentOffset ++
    toBe 3 h.fragmentLength)

/-- `write` on the output buffer itself, as the call leaves it. -/
def writeInto (h : HandshakeHeader) (out : Bytes) : Except FramingError Bytes := do
  ensure (hsHeaderLen ≤ out.length) .bufferTooSmall
  let out := overwrite out 0 [h.msgType]
  let out ← writeU24 out 1 h.length
  let out := overwrite out 4 (toBe 2 h.messageSeq)
  let out ← writeU24 out 6 h.fragmentOffset
  writeU24 out 9 h.fragmentLength

def fields (h : HandshakeHeader) : List Bytes :=
  [[h.msgType], toBe 3 h.length, toBe 2 h.messageSeq, toBe 3 h.fragmentOffset,
    toBe 3 h.fragmentLength]

theorem parse_eq_ok {buf : Bytes} {h : HandshakeHeader} :
    parse buf = .ok h ↔ 12 ≤ buf.length ∧ h = ⟨buf.headD 0, ofBe (slice buf 1 4),
      ofBe (slice buf 4 6), ofBe (slice buf 6 9), ofBe (slice buf 9 12)⟩ := by
  unfold parse hsHeaderLen
  constructor
  · intro h
    split at h
    · cases h
    · cases h
      exact ⟨by omega, rfl⟩
  · rintro ⟨hlen, rfl⟩
    rw [if_neg (by omega)]

theorem fields_length (h : HandshakeHeader) : h.fields.flatten.length = hsHeaderLen := by
  simp only [fields, List.flatten_cons, List.flatten_nil, List.length_append, toBe_length,
    List.length_singleton, List.length_nil, hsHeaderLen]

theorem write_eq (h : HandshakeHeader) (outLen : Nat) :
    h.write outLen =
      ensure (hsHeaderLen ≤ outLen) .bufferTooSmall >>= fun _ =>
        ensure (h.length ≤ 0xFFFFFF) .fieldTooLarge >>= fun _ =>
          ensure (h.fragmentOffset ≤ 0xFFFFFF) .fieldTooLarge >>= fun _ =>
            ensure (h.fragmentLength ≤ 0xFFFFFF) .fieldTooLarge >>= fun _ =>
              .ok h.fields.flatten := by
  simp only [write, fields, List.flatten_cons, List.flatten_nil, List.append_nil, List.append_assoc]
  rfl

theorem writeInto_eq (h : HandshakeHeader) (out : Bytes) :
    h.writeInto out = (h.write out.length).map fun bytes => bytes ++ out.drop bytes.length := by
  rw [write_eq, map_ensure_bind]
  refine ensure_bind_congr fun hroom => ?_
  rw [map_ensure_bind, writeU24_bind]
  refine ensure_bind_congr fun _ => ?_
  rw [map_ensure_bind, writeU24_bind]
  refine ensure_bind_congr fun _ => ?_
  rw [map_ensure_bind, writeU24_eq]
  refine ensure_bind_congr fun _ => ?_
  show Except.ok (overwriteAll out 0 h.fields) = _
  rw [overwriteAll_zero (by rw [fields_length]; exact hroom)]
  rfl

theorem parse_flatten_fields (h : HandshakeHeader) (rest : Bytes) :
    parse (h.fields.flatten ++ rest) =
      .ok ⟨h.msgType, h.length % 2 ^ 24, h.messageSeq % 2 ^ 16, h.fragmentOffset % 2 ^ 24,
        h.fragmentLength % 2 ^ 24⟩ := by
  have hread := fieldsAt_flatten h.fields rest
  generalize hbuf : h.fields.flatten ++ rest = buf at hread
  simp only [fields, List.map_cons, List.map_nil, List.length_singleton, toBe_length, fieldsAt,
    Nat.reduceAdd, List.cons.injEq, and_true] at hread
  obtain ⟨-, hlength, hseq, hoffset, hfragment⟩ := hread
  have htype : buf.headD 0 = h.msgType := by
    rw [← hbuf]
    rfl
  have hlen : 12 ≤ buf.length := by
    rw [← hbuf, List.length_append, fields_length, hsHeaderLen]
    omega
  rw [parse_eq_ok]
  refine ⟨hlen, ?_⟩
  rw [htype, hlength, hseq, hoffset, hfragment]
  simp only [ofBe_toBe, Nat.reducePow]

/-- A buffer that `write` has accepted is read back as the header. -/
def RoundTrips (h : HandshakeHeader) (out : Bytes) : Prop :=
  ∀ out', h.writeInto out = .ok out' → parse out' = .ok h

theorem roundTrips {h : HandshakeHeader} (out : Bytes) (hseq : h.messageSeq < 2 ^ 16) :
    h.RoundTrips out := by
  intro out' hwrite
  rw [writeInto_eq, map_eq_ok] at hwrite
  obtain ⟨bytes, hbytes, rfl⟩ := hwrite
  simp only [write_eq, bind_eq_ok, ensure_eq_ok, Except.ok.injEq, exists_and_left,
    exists_const] at hbytes
  obtain ⟨-, hlength, hoffset, hfragment, rfl⟩ := hbytes
  rw [parse_flatten_fields, Nat.mod_eq_of_lt (by omega), Nat.mod_eq_of_lt hseq,
    Nat.mod_eq_of_lt (by omega), Nat.mod_eq_of_lt (by omega)]

end HandshakeHeader

/-- Records and headers are read back as they were written exactly where the record's sequence
number fits its 48 bits, which `write` does not check; the fields of a header it does. -/
theorem framing_roundTrips_iff (contentType : UInt8) (epoch : UInt16) (seq : UInt64)
    (fragment out : Bytes) (msgType : UInt8) (length : UInt32) (messageSeq : UInt16)
    (fragmentOffset fragmentLength : UInt32) (headerOut : Bytes) :
    (PlaintextRecord.RoundTrips ⟨contentType, epoch.toNat, seq.toNat, fragment⟩ out ∧
      HandshakeHeader.RoundTrips ⟨msgType, length.toNat, messageSeq.toNat, fragmentOffset.toNat,
        fragmentLength.toNat⟩ headerOut) ↔
      PlaintextRecord.SeqFits ⟨contentType, epoch.toNat, seq.toNat, fragment⟩ out := by
  rw [PlaintextRecord.roundTrips_iff_seqFits out epoch.toNat_lt]
  exact and_iff_left (HandshakeHeader.roundTrips headerOut messageSeq.toNat_lt)

/-- The first sequence number that does not fit is written, and read back as zero. -/
theorem plaintextRecord_wraps_seq :
    let written : PlaintextRecord :=
      ⟨ctHandshake, (0 : UInt16).toNat, (0x1000000000000 : UInt64).toNat, [0xAA]⟩
    let bytes : Bytes := [22, 0xFE, 0xFD, 0, 0, 0, 0, 0, 0, 0, 0, 0, 1, 0xAA]
    written.writeInto (List.replicate 14 0) = .ok (bytes, bytes) ∧
      PlaintextRecord.parse bytes = .ok (⟨ctHandshake, 0, 0, [0xAA]⟩, 14) ∧
      ¬ written.RoundTrips (List.replicate 14 0) := by
  intro written bytes
  have hwrite : written.writeInto (List.replicate 14 0) = .ok (bytes, bytes) := by
    decide +kernel
  have hparse : PlaintextRecord.parse bytes = .ok (⟨ctHandshake, 0, 0, [0xAA]⟩, 14) := by
    decide +kernel
  refine ⟨hwrite, hparse, fun h => ?_⟩
  have hback := h bytes bytes hwrite []
  rw [List.append_nil, hparse, Except.ok.injEq, Prod.mk.injEq] at hback
  exact absurd (congrArg PlaintextRecord.seq hback.1) (by decide)

end KrabiTls.Dtls
