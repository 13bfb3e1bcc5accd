import Mathlib.Data.Int.ModEq
import Mathlib.Data.Nat.Dist
import KrabiTls.Aead

/-! The DTLS 1.3 record layer: the unified header, record-number encryption, sealing and opening. -/
namespace KrabiTls.Dtls
open Lib

variable {expected : Nat}

def unifiedHdrFixed : UInt8 := 0b00100000
def unifiedHdrFixedMask : UInt8 := 0b11100000
def hdrCidPresent : UInt8 := 0b00010000
def hdrSeq16Bit : UInt8 := 0b00001000
def hdrLengthPresent : UInt8 := 0b00000100
def hdrEpochLow2 : UInt8 := 0b00000011
def snSampleLen : Nat := 16

inductive SeqNumLen where
  | one
  | two
  deriving DecidableEq, Repr

def SeqNumLen.bytes : SeqNumLen → Nat
  | .one => 1
  | .two => 2

def SeqNumLen.bits : SeqNumLen → Nat
  | .one => 8
  | .two => 16

structure SealHeader where
  epoch : Nat
  seq : Nat
  seqLen : SeqNumLen
  cid : Option Bytes

inductive DtlsRecordError where
  | bufferTooSmall (needed got : Nat)
  | recordTooLarge
  | badHeader
  | truncated
  | cidMismatch
  | ciphertextTooShort
  | aead
  | innerPlaintext
  deriving DecidableEq, Repr

/-- The block primitive of each suite, keyed with the `sn_key`: the record-number mask of a
ciphertext sample. -/
structure Masker where
  mask : (s : CipherSuite) → (snKey : Block s.keyLen) → (sample : Block 16) → Block 16

/-- Per-epoch key material: the AEAD keys and the record-number key. -/
structure EpochKeys where
  keys : RecordKeys
  snKey : Block keys.suite.keyLen

def SealHeader.cidLen (hdr : SealHeader) : Nat :=
  (hdr.cid.map List.length).getD 0

def SealHeader.headerLen (hdr : SealHeader) : Nat :=
  1 + hdr.cidLen + hdr.seqLen.bytes + 2

theorem SealHeader.header_length (hdr : SealHeader) (first : UInt8) (bodyLen : Nat) :
    (first :: hdr.cid.getD [] ++ toBe hdr.seqLen.bytes hdr.seq ++ toBe 2 bodyLen).length =
      hdr.headerLen := by
  cases hcid : hdr.cid <;> simp [headerLen, cidLen, hcid] <;> omega

def SealHeader.firstByte (hdr : SealHeader) : UInt8 :=
  unifiedHdrFixed ||| hdrLengthPresent ||| (UInt8.ofNat hdr.epoch &&& hdrEpochLow2) |||
    (if hdr.cid.isSome then hdrCidPresent else 0) |||
    (if hdr.seqLen = .two then hdrSeq16Bit else 0)

/-- `XOR` the record-number mask into the sequence-number bytes. -/
def EpochKeys.maskSeq (m : Masker) (k : EpochKeys) (sample : Block 16) (seqBytes : Bytes) : Bytes :=
  xorBytes seqBytes (m.mask k.keys.suite k.snKey sample).val

/-- Seal `content` into a record of at most `outLen` bytes. The AAD is the header with the
cleartext sequence number; the number is masked afterwards. -/
def EpochKeys.seal (a : AeadBackend) (m : Masker) (k : EpochKeys) (hdr : SealHeader)
    (content : Bytes) (contentType : UInt8) (outLen : Nat) : Except DtlsRecordError Bytes :=
  let innerLen := content.length + 1
  let bodyLen := innerLen + aeadTagLen
  let total := hdr.headerLen + bodyLen
  if bodyLen > 0xFFFF then .error .recordTooLarge
  else if outLen < total then .error (.bufferTooSmall total outLen)
  else
    let front := hdr.firstByte :: hdr.cid.getD []
    let seqBytes := toBe hdr.seqLen.bytes hdr.seq
    let lenBytes := toBe 2 bodyLen
    match hseal : k.keys.sealInPlace a (front ++ seqBytes ++ lenBytes) hdr.seq
        (content ++ [contentType]) with
    | .error _ => .error .aead
    | .ok (ciphertext, tag) =>
        let sample : Block 16 := ⟨(ciphertext ++ tag).take 16, by
          have hlen := RecordKeys.sealInPlace_length hseal
          simp [hlen.2]⟩
        .ok (front ++ k.maskSeq m sample seqBytes ++ lenBytes ++ ciphertext ++ tag)

/-- With an AEAD that seals every input, only the two size checks can refuse a record. -/
theorem EpochKeys.seal_isOk_iff {a : AeadBackend} (htotal : a.Total) (m : Masker) (k : EpochKeys)
    {hdr : SealHeader} (hhdr : hdr.headerLen ≤ 2 ^ 16) (content : Bytes) (contentType : UInt8)
    (outLen : Nat) :
    (∃ record, k.seal a m hdr content contentType outLen = .ok record) ↔
      content.length + 17 ≤ 0xFFFF ∧ hdr.headerLen + (content.length + 17) ≤ outLen := by
  have htag : aeadTagLen = 16 := rfl
  unfold EpochKeys.seal
  dsimp only
  split
  · simp; omega
  · split
    · simp; omega
    · split
      · rename_i hseal
        have haad := hdr.header_length hdr.firstByte (content.length + 1 + aeadTagLen)
        have hinner : (content ++ [contentType]).length ≤ 2 ^ 16 := by simp; omega
        obtain ⟨sealed, hok⟩ := RecordKeys.sealInPlace_total htotal k.keys hdr.seq
          (haad ▸ hhdr) hinner
        rw [hok] at hseal
        cases hseal
      · simp; omega

/-- The number congruent to `wireLow` that is closest to `expected`, among the candidate in the
block of `expected` and its two neighbours. -/
def reconstructSeq (wireLow bits expected : Nat) : Nat :=
  let step := 2 ^ bits
  let dist (n : Nat) := (n - expected) + (expected - n)
  let candidate := expected - expected % step + wireLow % step
  let up := candidate + step
  let best := if up < 2 ^ 64 ∧ dist up < dist candidate then up else candidate
  if step ≤ candidate ∧ dist (candidate - step) < dist best then candidate - step else best

theorem reconstructSeq_eq {bits seq : Nat} (hbits : 0 < bits) (hseq : seq < 2 ^ 64)
    (hlow : seq < expected + 2 ^ (bits - 1)) (hhigh : expected < seq + 2 ^ (bits - 1)) :
    reconstructSeq (seq % 2 ^ bits) bits expected = seq := by
  obtain ⟨n, rfl⟩ : ∃ n, bits = n + 1 := ⟨bits - 1, by omega⟩
  have hstep : 2 ^ (n + 1) = 2 * 2 ^ n := Nat.pow_succ'
  rw [Nat.add_sub_cancel] at hlow hhigh
  unfold reconstructSeq
  simp only [Nat.mod_mod]
  generalize 2 ^ (n + 1) = step at hstep
  generalize 2 ^ n = half at hstep hlow hhigh
  -- both numbers by their block of length `step` and their place in it
  have hq := Nat.div_add_mod seq step
  have hr := Nat.mod_lt seq (show 0 < step by omega)
  have hq' := Nat.div_add_mod expected step
  have hr' := Nat.mod_lt expected (show 0 < step by omega)
  generalize seq % step = r at hq hr ⊢
  generalize expected % step = r' at hq' hr' ⊢
  generalize hb : seq / step = b at hq
  generalize hb' : expected / step = b' at hq'
  have hcases : b = b' ∨ b = b' + 1 ∨ b' = b + 1 := by
    rcases Nat.lt_trichotomy b b' with hlt | heq | hlt
    · refine .inr (.inr ?_)
      by_contra hne
      have := Nat.mul_le_mul_left step (show b + 2 ≤ b' by omega)
      rw [Nat.mul_add] at this
      omega
    · exact .inl heq
    · refine .inr (.inl ?_)
      by_contra hne
      have := Nat.mul_le_mul_left step (show b' + 2 ≤ b by omega)
      rw [Nat.mul_add] at this
      omega
  rcases hcases with rfl | rfl | rfl
  · split <;> split <;> omega
  · rw [Nat.mul_add, Nat.mul_one] at hq
    split <;> split <;> omega
  · rw [Nat.mul_add, Nat.mul_one] at hq'
    split <;> split <;> omega

/-- A decrypted record; `recordLen` is its length on the wire. -/
structure Opened where
  epochLow2 : UInt8
  seq : Nat
  contentType : UInt8
  content : Bytes
  recordLen : Nat
  deriving DecidableEq, Repr

/-- The AEAD and the inner plaintext, once the header is read. -/
def EpochKeys.openBody (a : AeadBackend) (k : EpochKeys) (epochLow2 : UInt8) (seq recordLen : Nat)
    (header ciphertext : Bytes) (tag : Block 16) : Except DtlsRecordError Opened := do
  let inner ← (k.keys.openInPlace a header seq ciphertext tag).mapError fun _ => .aead
  let (content, contentType) ← (splitInnerPlaintext inner).mapError fun _ => .innerPlaintext
  pure { epochLow2, seq, contentType, content, recordLen }

/-- Open the record at the front of `record`. What the call leaves in its buffer is not read again. -/
def EpochKeys.openRecord (a : AeadBackend) (m : Masker) (k : EpochKeys) (cidLen expectedSeq : Nat)
    (record : Bytes) : Except DtlsRecordError Opened := do
  ensure (record ≠ []) .truncated
  let first := record.headD 0
  ensure (first &&& unifiedHdrFixedMask = unifiedHdrFixed) .badHeader
  ensure (first &&& hdrCidPresent ≠ 0 ↔ cidLen > 0) .cidMismatch
  let seqLen : SeqNumLen := if first &&& hdrSeq16Bit ≠ 0 then .two else .one
  let lengthPresent : Bool := first &&& hdrLengthPresent ≠ 0
  let seqPos := 1 + cidLen
  let lenPos := seqPos + seqLen.bytes
  let headerLen := lenPos + if lengthPresent then 2 else 0
  ensure (headerLen ≤ record.length) .truncated
  let bodyLen :=
    if lengthPresent then ofBe (slice record lenPos (lenPos + 2)) else record.length - headerLen
  let bodyEnd := headerLen + bodyLen
  ensure (bodyEnd ≤ record.length ∧ snSampleLen ≤ bodyLen ∧ aeadTagLen + 1 ≤ bodyLen)
    .ciphertextTooShort
  let sample := (Block.zeros 16).overwrite 0 (slice record headerLen (headerLen + snSampleLen))
  let seqBytes := k.maskSeq m sample (slice record seqPos lenPos)
  let seq := reconstructSeq (ofBe seqBytes) seqLen.bits expectedSeq
  let header := record.take seqPos ++ seqBytes ++ slice record lenPos headerLen
  let innerLen := bodyLen - aeadTagLen
  let tag := (Block.zeros 16).overwrite 0 (slice record (headerLen + innerLen) bodyEnd)
  k.openBody a (first &&& hdrEpochLow2) seq bodyEnd header
    (slice record headerLen (headerLen + innerLen)) tag

theorem SealHeader.firstByte_flags (hdr : SealHeader) :
    hdr.firstByte &&& unifiedHdrFixedMask = unifiedHdrFixed ∧
    (hdr.firstByte &&& hdrCidPresent ≠ 0 ↔ hdr.cid.isSome) ∧
    (hdr.firstByte &&& hdrSeq16Bit ≠ 0 ↔ hdr.seqLen = .two) ∧
    hdr.firstByte &&& hdrLengthPresent ≠ 0 ∧
    hdr.firstByte &&& hdrEpochLow2 = UInt8.ofNat hdr.epoch &&& hdrEpochLow2 := by
  unfold firstByte
  generalize UInt8.ofNat hdr.epoch = e
  generalize hdr.cid.isSome = cid
  generalize hdr.seqLen = len
  obtain ⟨bits⟩ := e
  cases len <;> cases cid <;> (revert bits; decide +kernel)

/-- The header with the cleartext sequence number: the additional data of the AEAD. -/
def SealHeader.aad (hdr : SealHeader) (bodyLen : Nat) : Bytes :=
  hdr.firstByte :: hdr.cid.getD [] ++ toBe hdr.seqLen.bytes hdr.seq ++ toBe 2 bodyLen

theorem EpochKeys.maskSeq_length (m : Masker) (k : EpochKeys) (sample : Block 16) {seqBytes : Bytes}
    (h : seqBytes.length ≤ 16) : (k.maskSeq m sample seqBytes).length = seqBytes.length := by
  rw [maskSeq, xorBytes_length, (m.mask k.keys.suite k.snKey sample).property]
  omega

theorem EpochKeys.maskSeq_maskSeq (m : Masker) (k : EpochKeys) (sample : Block 16) {seqBytes : Bytes}
    (h : seqBytes.length ≤ 16) : k.maskSeq m sample (k.maskSeq m sample seqBytes) = seqBytes :=
  xorBytes_xorBytes (by rwa [(m.mask k.keys.suite k.snKey sample).property])

theorem reconstructSeq_lt (wireLow : Nat) (n : SeqNumLen) (h : expected < 2 ^ 64) :
    reconstructSeq wireLow n.bits expected < 2 ^ 64 := by
  have hlow := Nat.mod_lt wireLow (show 0 < 2 ^ n.bits from Nat.two_pow_pos _)
  unfold reconstructSeq
  dsimp only
  have hcandidate : expected - expected % 2 ^ n.bits + wireLow % 2 ^ n.bits < 2 ^ 64 := by
    cases n <;> simp only [SeqNumLen.bits] at hlow ⊢ <;> omega
  split <;> split <;> omega

/-- The result is the best of the candidate in the block of `expected` and those of its neighbours
that are `u64` values. -/
theorem reconstructSeq_best {wireLow bits candidate : Nat}
    (hcandidate : candidate = expected - expected % 2 ^ bits + wireLow % 2 ^ bits) :
    (reconstructSeq wireLow bits expected = candidate ∨
        reconstructSeq wireLow bits expected = candidate + 2 ^ bits ∨
        reconstructSeq wireLow bits expected + 2 ^ bits = candidate) ∧
      Nat.dist (reconstructSeq wireLow bits expected) expected ≤ Nat.dist candidate expected ∧
      (candidate + 2 ^ bits < 2 ^ 64 →
        Nat.dist (reconstructSeq wireLow bits expected) expected ≤
          Nat.dist (candidate + 2 ^ bits) expected) ∧
      (2 ^ bits ≤ candidate →
        Nat.dist (reconstructSeq wireLow bits expected) expected ≤
          Nat.dist (candidate - 2 ^ bits) expected) := by
  have hresult : reconstructSeq wireLow bits expected =
      let best := if candidate + 2 ^ bits < 2 ^ 64 ∧
        Nat.dist (candidate + 2 ^ bits) expected < Nat.dist candidate expected
        then candidate + 2 ^ bits else candidate
      if 2 ^ bits ≤ candidate ∧ Nat.dist (candidate - 2 ^ bits) expected < Nat.dist best expected
        then candidate - 2 ^ bits else best := by
    rw [hcandidate]
    rfl
  rw [hresult]
  dsimp only
  generalize 2 ^ bits = step
  by_cases hup : candidate + step < 2 ^ 64 ∧
      Nat.dist (candidate + step) expected < Nat.dist candidate expected
  · rw [if_pos hup]
    split <;> omega
  · rw [if_neg hup]
    split <;> omega

/-- The number reconstructed is congruent to what was received, and no `u64` value that is so lies
closer to the one expected. -/
theorem reconstructSeq_nearest (wireLow expected : UInt64) (n : SeqNumLen) :
    reconstructSeq wireLow.toNat n.bits expected.toNat < 2 ^ 64 ∧
      reconstructSeq wireLow.toNat n.bits expected.toNat ≡ wireLow.toNat [MOD 2 ^ n.bits] ∧
      ∀ seq : UInt64, seq.toNat ≡ wireLow.toNat [MOD 2 ^ n.bits] →
        Nat.dist (reconstructSeq wireLow.toNat n.bits expected.toNat) expected.toNat ≤
          Nat.dist seq.toNat expected.toNat := by
  refine ⟨reconstructSeq_lt _ n expected.toNat_lt, ?_⟩
  have hstep : 0 < 2 ^ n.bits := Nat.two_pow_pos _
  -- the candidate by its block, which is that of `expected`, and its place in it
  have hblock := Nat.div_add_mod expected.toNat (2 ^ n.bits)
  have hplace := Nat.mod_lt expected.toNat hstep
  have hlow := Nat.mod_lt wireLow.toNat hstep
  obtain ⟨hresult, hsame, hup, hdown⟩ := reconstructSeq_best
    (show 2 ^ n.bits * (expected.toNat / 2 ^ n.bits) + wireLow.toNat % 2 ^ n.bits =
      expected.toNat - expected.toNat % 2 ^ n.bits + wireLow.toNat % 2 ^ n.bits by omega)
  constructor
  · show _ % _ = _
    rcases hresult with hr | hr | hr
    · rw [hr, Nat.mul_add_mod, Nat.mod_mod]
    · rw [hr, Nat.add_mod_right, Nat.mul_add_mod, Nat.mod_mod]
    · rw [← Nat.add_mod_right, hr, Nat.mul_add_mod, Nat.mod_mod]
  · intro seq hseq
    have hlt := seq.toNat_lt
    have hq := Nat.div_add_mod seq.toNat (2 ^ n.bits)
    rw [show seq.toNat % 2 ^ n.bits = wireLow.toNat % 2 ^ n.bits from hseq] at hq
    generalize reconstructSeq wireLow.toNat n.bits expected.toNat = result at *
    generalize 2 ^ n.bits = step at *
    -- a number in an earlier block is farther than `down`, one in a later block farther than `up`
    rcases Nat.lt_trichotomy (seq.toNat / step) (expected.toNat / step) with hless | heq | hmore
    · have hmul := Nat.mul_le_mul_left step (Nat.succ_le_of_lt hless)
      rw [Nat.mul_succ] at hmul
      refine (hdown (by omega)).trans ?_
      unfold Nat.dist
      omega
    · rw [← hq, heq]
      exact hsame
    · have hmul := Nat.mul_le_mul_left step (Nat.succ_le_of_lt hmore)
      rw [Nat.mul_succ] at hmul
      refine (hup (by omega)).trans ?_
      unfold Nat.dist
      omega

theorem SeqNumLen.bytes_le (n : SeqNumLen) : n.bytes ≤ 16 := by
  cases n <;> decide

theorem SeqNumLen.pow_bytes (n : SeqNumLen) : 256 ^ n.bytes = 2 ^ n.bits := by
  cases n <;> rfl

section Sealed
variable {a : AeadBackend} {m : Masker} {k : EpochKeys} {hdr : SealHeader} {content record : Bytes}
  {contentType : UInt8} {outLen : Nat}
variable {cidLen : Nat}

theorem EpochKeys.seal_eq_ok (h : k.seal a m hdr content contentType outLen = .ok record) :
    content.length + 17 ≤ 0xFFFF ∧ ∃ ciphertext tag : Bytes, ∃ sample : Block 16,
      k.keys.sealInPlace a (hdr.aad (content.length + 17)) hdr.seq (content ++ [contentType]) =
        .ok (ciphertext, tag) ∧
      sample.val = (ciphertext ++ tag).take 16 ∧
      record = hdr.firstByte :: hdr.cid.getD [] ++
        k.maskSeq m sample (toBe hdr.seqLen.bytes hdr.seq) ++ toBe 2 (content.length + 17) ++
        ciphertext ++ tag := by
  unfold EpochKeys.seal at h
  dsimp only at h
  split at h
  · cases h
  · rename_i hbody
    split at h
    · cases h
    · split at h
      · cases h
      · rename_i ciphertext tag hseal
        cases h
        simp only [aeadTagLen] at hbody
        exact ⟨by omega, ciphertext, tag, _, hseal, rfl, rfl⟩

/-- The receiver of a sealed record decrypts the body that was sealed, under the number it
reconstructs. -/
theorem EpochKeys.openRecord_of_seal (h : k.seal a m hdr content contentType outLen = .ok record)
    (hcid : hdr.cidLen = cidLen) (hsome : hdr.cid.isSome ↔ cidLen > 0)
    (expectedSeq : Nat) (more : Bytes) :
    ∃ ciphertext : Bytes, ∃ tag : Block 16,
      k.keys.sealInPlace a (hdr.aad (content.length + 17)) hdr.seq (content ++ [contentType]) =
        .ok (ciphertext, tag.val) ∧
      k.openRecord a m cidLen expectedSeq (record ++ more) =
        k.openBody a (UInt8.ofNat hdr.epoch &&& hdrEpochLow2)
          (reconstructSeq (hdr.seq % 2 ^ hdr.seqLen.bits) hdr.seqLen.bits expectedSeq) record.length
          (hdr.aad (content.length + 17)) ciphertext tag := by
  obtain ⟨hlen, ciphertext, tag, sample, hseal, hsample, hrecord⟩ := seal_eq_ok h
  obtain ⟨hct, htag⟩ := RecordKeys.sealInPlace_length hseal
  rw [List.length_append, List.length_singleton] at hct
  obtain ⟨hfixed, hcidBit, hseqBit, hlenBit, hepoch⟩ := hdr.firstByte_flags
  have hseqBytes := toBe_length hdr.seqLen.bytes hdr.seq
  have hshort : (toBe hdr.seqLen.bytes hdr.seq).length ≤ 16 := by
    rw [hseqBytes]
    exact hdr.seqLen.bytes_le
  have hmasked := (k.maskSeq_length m sample hshort).trans hseqBytes
  generalize hmaskedDef : k.maskSeq m sample (toBe hdr.seqLen.bytes hdr.seq) = masked at hmasked hrecord
  have hlenBytes := toBe_length 2 (content.length + 17)
  have hfront : (hdr.firstByte :: hdr.cid.getD []).length = 1 + cidLen := by
    rw [← hcid, SealHeader.cidLen]
    cases hdr.cid <;> simp
    omega
  refine ⟨ciphertext, ⟨tag, htag⟩, hseal, ?_⟩
  generalize hfrontDef : hdr.firstByte :: hdr.cid.getD [] = front at hfront hrecord
  have hhead : (record ++ more).headD 0 = hdr.firstByte := by
    rw [hrecord, ← hfrontDef]
    rfl
  have htotal : record.length = 1 + cidLen + hdr.seqLen.bytes + 2 + (content.length + 17) := by
    rw [hrecord]
    simp only [List.length_append, hfront, hmasked, hlenBytes, hct, htag]
    omega
  -- the pieces of the record, where the receiver looks for them
  have hassoc : record ++ more = front ++ (masked ++ (toBe 2 (content.length + 17) ++
      (ciphertext ++ (tag ++ more)))) := by
    rw [hrecord]
    simp only [List.append_assoc]
  have hdropSeq : (record ++ more).drop (1 + cidLen) = masked ++ (toBe 2 (content.length + 17) ++
      (ciphertext ++ (tag ++ more))) := by
    rw [hassoc, List.drop_left' hfront]
  have hdropLen : (record ++ more).drop (1 + cidLen + hdr.seqLen.bytes) =
      toBe 2 (content.length + 17) ++ (ciphertext ++ (tag ++ more)) := by
    rw [← List.drop_drop, hdropSeq, List.drop_left' hmasked]
  have hdropBody : (record ++ more).drop (1 + cidLen + hdr.seqLen.bytes + 2) =
      ciphertext ++ (tag ++ more) := by
    rw [← List.drop_drop, hdropLen, List.drop_left' hlenBytes]
  have hdropTag : (record ++ more).drop (1 + cidLen + hdr.seqLen.bytes + 2 + (content.length + 1)) =
      tag ++ more := by
    rw [← List.drop_drop, hdropBody, List.drop_left' hct]
  have hmore : (record ++ more).length = record.length + more.length := List.length_append
  have hbodyLen : ofBe (slice (record ++ more) (1 + cidLen + hdr.seqLen.bytes)
      (1 + cidLen + hdr.seqLen.bytes + 2)) = content.length + 17 := by
    rw [slice, hdropLen, Nat.add_sub_cancel_left, List.take_left' hlenBytes, ofBe_toBe]
    exact Nat.mod_eq_of_lt (by omega)
  have hsampleEq : (Block.zeros 16).overwrite 0 (slice (record ++ more)
      (1 + cidLen + hdr.seqLen.bytes + 2) (1 + cidLen + hdr.seqLen.bytes + 2 + 16)) = sample := by
    have hslice : slice (record ++ more) (1 + cidLen + hdr.seqLen.bytes + 2)
        (1 + cidLen + hdr.seqLen.bytes + 2 + 16) = sample.val := by
      rw [slice, hdropBody, Nat.add_sub_cancel_left, hsample, ← List.append_assoc,
        List.take_append_of_le_length]
      rw [List.length_append, hct, htag]
      omega
    exact Subtype.ext (by rw [hslice, Block.zeros_overwrite_val sample.property])
  have hunmask : k.maskSeq m sample (slice (record ++ more) (1 + cidLen)
      (1 + cidLen + hdr.seqLen.bytes)) = toBe hdr.seqLen.bytes hdr.seq := by
    rw [slice, hdropSeq, Nat.add_sub_cancel_left, List.take_left' hmasked, ← hmaskedDef,
      k.maskSeq_maskSeq m sample hshort]
  have hheader : (record ++ more).take (1 + cidLen) ++ toBe hdr.seqLen.bytes hdr.seq ++
      slice (record ++ more) (1 + cidLen + hdr.seqLen.bytes) (1 + cidLen + hdr.seqLen.bytes + 2) =
      hdr.aad (content.length + 17) := by
    rw [slice, hdropLen, Nat.add_sub_cancel_left, List.take_left' hlenBytes, hassoc,
      List.take_left' hfront, ← hfrontDef, SealHeader.aad]
  have hcipher : slice (record ++ more) (1 + cidLen + hdr.seqLen.bytes + 2)
      (1 + cidLen + hdr.seqLen.bytes + 2 + (content.length + 1)) = ciphertext := by
    rw [slice, hdropBody, Nat.add_sub_cancel_left, List.take_left' hct]
  have htagEq : (Block.zeros 16).overwrite 0 (slice (record ++ more)
      (1 + cidLen + hdr.seqLen.bytes + 2 + (content.length + 1))
      (1 + cidLen + hdr.seqLen.bytes + 2 + (content.length + 17))) = ⟨tag, htag⟩ := by
    have hslice : slice (record ++ more) (1 + cidLen + hdr.seqLen.bytes + 2 + (content.length + 1))
        (1 + cidLen + hdr.seqLen.bytes + 2 + (content.length + 17)) = tag := by
      rw [slice, hdropTag]
      exact List.take_left' (by omega)
    exact Subtype.ext (by rw [hslice, Block.zeros_overwrite_val htag])
  have hwire : ofBe (toBe hdr.seqLen.bytes hdr.seq) = hdr.seq % 2 ^ hdr.seqLen.bits := by
    rw [ofBe_toBe, SeqNumLen.pow_bytes]
  have hseqLen : (if hdr.firstByte &&& hdrSeq16Bit ≠ 0 then SeqNumLen.two else .one) = hdr.seqLen := by
    rw [if_congr hseqBit rfl rfl]
    cases hdr.seqLen <;> rfl
  have hne : record ++ more ≠ [] := by
    rw [← List.length_pos_iff]
    omega
  have hinner : content.length + 17 - aeadTagLen = content.length + 1 := rfl
  have hfits : 1 + cidLen + hdr.seqLen.bytes + 2 + (content.length + 17) ≤ (record ++ more).length ∧
      snSampleLen ≤ content.length + 17 ∧ aeadTagLen + 1 ≤ content.length + 17 := by
    simp only [snSampleLen, aeadTagLen]
    omega
  unfold openRecord
  simp only [hhead, hseqLen, hlenBit, ne_eq, not_false_eq_true, decide_true, if_true, hbodyLen]
  rw [ensure, if_pos hne, ensure, if_pos hfixed, ensure, if_pos (hcidBit.trans hsome), ensure,
    if_pos (by omega), ensure, if_pos hfits]
  simp only [hinner, snSampleLen, hsampleEq, hunmask, hwire, hheader, hcipher, htagEq, hepoch]
  rw [← htotal]
  rfl

theorem EpochKeys.openRecord_seal (hcorrect : a.Correct)
    (h : k.seal a m hdr content contentType outLen = .ok record) (htype : contentType ≠ 0)
    (hcontent : content.length ≤ tlsPlaintextMax) (hcid : hdr.cidLen = cidLen)
    (hsome : hdr.cid.isSome ↔ cidLen > 0) {expectedSeq : Nat}
    (hseq : reconstructSeq (hdr.seq % 2 ^ hdr.seqLen.bits) hdr.seqLen.bits expectedSeq = hdr.seq)
    (more : Bytes) :
    k.openRecord a m cidLen expectedSeq (record ++ more) =
      .ok { epochLow2 := UInt8.ofNat hdr.epoch &&& hdrEpochLow2, seq := hdr.seq, contentType, content,
            recordLen := record.length } := by
  obtain ⟨ciphertext, tag, hseal, hopen⟩ := openRecord_of_seal h hcid hsome expectedSeq more
  rw [hopen, hseq, openBody, RecordKeys.openInPlace_sealInPlace hcorrect hseal]
  show ((splitInnerPlaintext (content ++ [contentType])).mapError _ >>= _) = _
  rw [splitInnerPlaintext_append htype hcontent]
  rfl

theorem EpochKeys.openRecord_seal_error (hbound : a.NonceBound)
    (h : k.seal a m hdr content contentType outLen = .ok record)
    (hcid : hdr.cidLen = cidLen) (hsome : hdr.cid.isSome ↔ cidLen > 0) {expectedSeq : Nat}
    (hexpected : expectedSeq < 2 ^ 64) (hlt : hdr.seq < 2 ^ 64)
    (hseq : reconstructSeq (hdr.seq % 2 ^ hdr.seqLen.bits) hdr.seqLen.bits expectedSeq ≠ hdr.seq)
    (more : Bytes) : k.openRecord a m cidLen expectedSeq (record ++ more) = .error .aead := by
  obtain ⟨ciphertext, tag, hseal, hopen⟩ := openRecord_of_seal h hcid hsome expectedSeq more
  have hrejected := RecordKeys.openInPlace_sealInPlace_error hbound hlt
    (reconstructSeq_lt (hdr.seq % 2 ^ hdr.seqLen.bits) hdr.seqLen hexpected) hseq.symm hseal
    (hdr.aad (content.length + 17))
  rw [hopen, openBody, hrejected]
  rfl

/-- Whatever stands behind it in the datagram, a sealed record opens to what was sealed under any
hint less than half the range of its sequence field away. -/
theorem EpochKeys.openRecord_seal_of_hint (hcorrect : a.Correct)
    (h : k.seal a m hdr content contentType outLen = .ok record) (hseq : hdr.seq < 2 ^ 64)
    (hcid : ∀ cid ∈ hdr.cid, cid ≠ []) (hcontent : content.length ≤ 2 ^ 14) (htype : contentType ≠ 0)
    {hint : Nat} (hlow : hdr.seq < hint + 2 ^ (hdr.seqLen.bits - 1))
    (hhigh : hint < hdr.seq + 2 ^ (hdr.seqLen.bits - 1)) (more : Bytes) :
    k.openRecord a m hdr.cidLen hint (record ++ more) =
      .ok { epochLow2 := UInt8.ofNat hdr.epoch &&& hdrEpochLow2, seq := hdr.seq, contentType, content,
            recordLen := record.length } := by
  have hsome : hdr.cid.isSome ↔ hdr.cidLen > 0 := by
    unfold SealHeader.cidLen
    cases hdrCid : hdr.cid with
    | none => simp
    | some cid => simpa [List.length_pos_iff] using hcid cid hdrCid
  have hbits : 0 < hdr.seqLen.bits := by cases hdr.seqLen <;> decide
  exact openRecord_seal hcorrect h htype hcontent rfl hsome
    (reconstructSeq_eq hbits hseq hlow hhigh) more

end Sealed

def EpochKeys.zeros : EpochKeys := ⟨⟨.aes128GcmSha256, Block.zeros 16, Block.zeros 12⟩, Block.zeros 16⟩

/-- A record with a connection id and an 8-bit sequence field, 100 numbers ahead of the hint. -/
theorem EpochKeys.openRecord_seal_ahead :
    ∃ record, zeros.seal AeadBackend.clear ⟨fun _ _ sample => sample⟩ ⟨3, 300, .one, some [7, 8]⟩ [1, 2]
        ctApplicationData 64 = .ok record ∧
      zeros.openRecord AeadBackend.clear ⟨fun _ _ sample => sample⟩ 2 200 (record ++ [9]) =
        .ok ⟨3, 300, ctApplicationData, [1, 2], record.length⟩ := by
  have hheader : (⟨3, 300, .one, some [7, 8]⟩ : SealHeader).headerLen ≤ 2 ^ 16 := by decide
  obtain ⟨record, hseal⟩ := (seal_isOk_iff AeadBackend.clear_total ⟨fun _ _ sample => sample⟩ zeros
    hheader [1, 2] ctApplicationData 64).mpr (by decide)
  exact ⟨record, hseal, openRecord_seal_of_hint AeadBackend.clear_correct hseal (by decide)
    (by decide) (by decide) (by decide) (by decide) (by decide) [9]⟩

end KrabiTls.Dtls
