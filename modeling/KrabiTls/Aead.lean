import KrabiTls.Features
import KrabiTls.Hkdf
import KrabiTls.Lib.Except

/-! The TLS 1.3 record layer: the per-record nonce, sealing and opening of one record. -/
namespace KrabiTls
open Lib

inductive EncryptError where
  | bufferTooSmall (needed got : Nat)
  | recordTooLarge
  | aeadFailed
  deriving DecidableEq, Repr

inductive DecryptError where
  | truncated
  | recordTooLarge
  | trailingBytes
  | unexpectedContentType (contentType : UInt8)
  | unexpectedLegacyVersion (version : Nat)
  | aeadFailed
  | emptyInnerPlaintext
  deriving DecidableEq, Repr

/-- `iv` XOR the sequence number, big-endian and left-padded. -/
def aeadNonce (iv : AeadIv) (seq : Nat) : Block 12 :=
  ⟨iv.val.take 4 ++ xorBytes (iv.val.drop 4) (toBe 8 seq), by simp [iv.property]⟩

theorem aeadNonce_injOn {iv : AeadIv} {seq seq' : Nat} (hseq : seq < 2 ^ 64)
    (hseq' : seq' < 2 ^ 64) (h : aeadNonce iv seq = aeadNonce iv seq') : seq = seq' := by
  have hbytes : xorBytes (iv.val.drop 4) (toBe 8 seq) = xorBytes (iv.val.drop 4) (toBe 8 seq') :=
    List.append_cancel_left (congrArg Subtype.val h)
  have hbe : toBe 8 seq = toBe 8 seq' :=
    xorBytes_right_cancel (by simp [iv.property]) (by simp) hbytes
  exact toBe_injOn (by omega) (by omega) hbe

theorem aeadNonce_mod (iv : AeadIv) (seq : Nat) : aeadNonce iv (seq % 2 ^ 64) = aeadNonce iv seq := by
  have hseq : toBe 8 (seq % 2 ^ 64) = toBe 8 seq := toBe_mod 8 seq
  simp only [aeadNonce, hseq]

structure RecordKeys where
  suite : CipherSuite
  key : Block suite.keyLen
  iv : AeadIv

namespace RecordKeys

variable {a : AeadBackend} {aad buf ciphertext : Bytes} {keys : RecordKeys} {seq : Nat}

def derive (h : HkdfSha256) (suite : CipherSuite) (trafficSecret : Secret) :
    Except HkdfLabelError RecordKeys := do
  let (key, iv) ← h.trafficKeys suite.keyLen trafficSecret
  pure ⟨suite, key, iv⟩

/-- Seal `buf` in place; the result is the ciphertext and the tag. -/
def sealInPlace (a : AeadBackend) (keys : RecordKeys) (aad : Bytes) (seq : Nat) (buf : Bytes) :
    Except AeadError (Bytes × Bytes) := do
  let (ciphertext, tag) ← a.encrypt keys.suite keys.key (aeadNonce keys.iv seq) aad buf
  pure (ciphertext.val, tag.val)

def openInPlace (a : AeadBackend) (keys : RecordKeys) (aad : Bytes) (seq : Nat) (buf : Bytes)
    (tag : Block 16) : Except AeadError Bytes := do
  let plaintext ← a.decrypt keys.suite keys.key (aeadNonce keys.iv seq) aad buf tag
  pure plaintext.val

theorem sealInPlace_length {tag : Bytes}
    (h : keys.sealInPlace a aad seq buf = .ok (ciphertext, tag)) :
    ciphertext.length = buf.length ∧ tag.length = 16 := by
  obtain ⟨⟨c, t⟩, _, hout⟩ := bind_eq_ok.mp h
  cases hout
  exact ⟨c.property, t.property⟩

theorem sealInPlace_total (htotal : a.Total) (keys : RecordKeys) (seq : Nat)
    (haad : aad.length ≤ 2 ^ 16) (hbuf : buf.length ≤ 2 ^ 16) :
    ∃ sealed, keys.sealInPlace a aad seq buf = .ok sealed := by
  obtain ⟨sealed, hok⟩ := htotal keys.suite keys.key (aeadNonce keys.iv seq) aad buf haad hbuf
  exact ⟨(sealed.1.val, sealed.2.val), by rw [sealInPlace, hok]; rfl⟩

theorem openInPlace_length {plaintext : Bytes} {tag : Block 16}
    (h : keys.openInPlace a aad seq buf tag = .ok plaintext) :
    plaintext.length = buf.length := by
  obtain ⟨p, _, hout⟩ := bind_eq_ok.mp h
  cases hout
  exact p.property

theorem encrypt_of_sealInPlace {tag : Block 16}
    (h : keys.sealInPlace a aad seq buf = .ok (ciphertext, tag.val)) :
    ∃ c, c.val = ciphertext ∧
      a.encrypt keys.suite keys.key (aeadNonce keys.iv seq) aad buf = .ok (c, tag) := by
  obtain ⟨⟨c, t⟩, henc, hout⟩ := bind_eq_ok.mp h
  simp only [pure, Except.pure, Except.ok.injEq, Prod.mk.injEq] at hout
  obtain rfl : t = tag := Subtype.ext hout.2
  exact ⟨c, hout.1, henc⟩

theorem openInPlace_sealInPlace (hcorrect : a.Correct) {tag : Block 16}
    (h : keys.sealInPlace a aad seq buf = .ok (ciphertext, tag.val)) :
    keys.openInPlace a aad seq ciphertext tag = .ok buf := by
  obtain ⟨c, rfl, henc⟩ := encrypt_of_sealInPlace h
  have hdec := hcorrect _ _ _ _ _ _ henc
  unfold openInPlace
  cases hres : a.decrypt keys.suite keys.key (aeadNonce keys.iv seq) aad c.val tag with
  | error e => rw [hres] at hdec; cases hdec
  | ok p => rw [hres] at hdec; exact hdec

theorem openInPlace_sealInPlace_error (hbound : a.NonceBound) {tag : Block 16} {seq' : Nat}
    (hseq : seq < 2 ^ 64) (hseq' : seq' < 2 ^ 64) (hne : seq ≠ seq')
    (h : keys.sealInPlace a aad seq buf = .ok (ciphertext, tag.val)) (aad' : Bytes) :
    keys.openInPlace a aad' seq' ciphertext tag = .error .aeadError := by
  obtain ⟨c, rfl, henc⟩ := encrypt_of_sealInPlace h
  have hnonce : aeadNonce keys.iv seq' ≠ aeadNonce keys.iv seq := fun heq =>
    hne (aeadNonce_injOn hseq' hseq heq).symm
  rw [openInPlace, hbound _ _ _ _ _ _ henc _ aad' hnonce]
  rfl

/-- The five header bytes of a protected record with a body of `bodyLen` bytes. -/
def recordHeader (bodyLen : Nat) : Bytes :=
  ctApplicationData :: toBe 2 legacyVersion ++ toBe 2 bodyLen

/-- Seal one inner plaintext as a record at the front of a buffer of `outLen` bytes. The result is
the record, and the bytes the call leaves at the front of the buffer. -/
def encryptRecord (a : AeadBackend) (keys : RecordKeys) (content : Bytes) (contentType : UInt8)
    (seq outLen : Nat) : Except EncryptError Bytes × Bytes :=
  if content.length > tlsPlaintextMax then (.error .recordTooLarge, [])
  else
    let innerLen := content.length + 1
    let cipherBodyLen := innerLen + aeadTagLen
    let totalLen := cipherBodyLen + 5
    if cipherBodyLen > tlsCiphertextMax then (.error .recordTooLarge, [])
    else if outLen < totalLen then (.error (.bufferTooSmall totalLen outLen), [])
    else
      let aad := recordHeader cipherBodyLen
      let inner := content ++ [contentType]
      match keys.sealInPlace a aad seq inner with
      | .error _ => (.error .aeadFailed, aad ++ inner)
      | .ok (ciphertext, tag) => (.ok (aad ++ ciphertext ++ tag), aad ++ ciphertext ++ tag)

@[simp] theorem recordHeader_length (bodyLen : Nat) : (recordHeader bodyLen).length = 5 := by
  simp [recordHeader]

/-- A sealed record: within the size limits, the header with the sealed inner plaintext. -/
theorem encryptRecord_eq_ok {content record dirty : Bytes} {contentType : UInt8} {outLen : Nat}
    (h : keys.encryptRecord a content contentType seq outLen = (.ok record, dirty)) :
    dirty = record ∧ content.length ≤ tlsPlaintextMax ∧ record.length = content.length + 22 ∧
      record.length ≤ outLen ∧ ∃ ciphertext tag,
        keys.sealInPlace a (recordHeader (content.length + 17)) seq (content ++ [contentType]) =
          .ok (ciphertext, tag) ∧
        record = recordHeader (content.length + 17) ++ ciphertext ++ tag := by
  unfold encryptRecord at h
  split at h
  · cases h
  · dsimp only at h
    split at h
    · cases h
    · split at h
      · cases h
      · rename_i hlen
        split at h
        · cases h
        · rename_i ciphertext tag hseal
          cases h
          obtain ⟨hct, htag⟩ := sealInPlace_length hseal
          have hrecord : (recordHeader (content.length + 1 + aeadTagLen) ++ ciphertext ++
              tag).length = content.length + 22 := by
            simp only [List.length_append, recordHeader_length, hct, htag, List.length_singleton]
            omega
          refine ⟨rfl, by omega, hrecord, ?_, ciphertext, tag, hseal, rfl⟩
          rw [hrecord]
          simp only [aeadTagLen] at hlen
          omega

/-- Open one record in place. On success the inner plaintext is `record[5..5 + n]`; a record whose
tag does not verify has its ciphertext wiped. -/
def decryptRecordInplace (a : AeadBackend) (keys : RecordKeys) (record : Bytes) (seq : Nat) :
    Except DecryptError Nat × Bytes :=
  if record.length < 5 then (.error .truncated, record)
  else
    let contentType := record.headD 0
    if contentType ≠ ctApplicationData then (.error (.unexpectedContentType contentType), record)
    else if ofBe (slice record 1 3) ≠ legacyVersion then
      (.error (.unexpectedLegacyVersion (ofBe (slice record 1 3))), record)
    else
      let bodyLen := ofBe (slice record 3 5)
      if bodyLen > tlsCiphertextMax then (.error .recordTooLarge, record)
      else if record.length < 5 + bodyLen then (.error .truncated, record)
      else if hlen : record.length ≠ 5 + bodyLen then (.error .trailingBytes, record)
      else if hbody : bodyLen < aeadTagLen then (.error .truncated, record)
      else
        let ctLen := bodyLen - aeadTagLen
        let header := record.take 5
        let ciphertext := slice record 5 (5 + ctLen)
        let tag : Block 16 := ⟨record.drop (5 + ctLen), by
          have htag : aeadTagLen = 16 := rfl
          rw [List.length_drop]
          omega⟩
        match keys.openInPlace a header seq ciphertext tag with
        | .ok plaintext => (.ok ctLen, header ++ plaintext ++ tag.val)
        | .error _ => (.error .aeadFailed, header ++ List.replicate ctLen 0 ++ tag.val)

@[simp] theorem decryptRecordInplace_length (a : AeadBackend) (keys : RecordKeys) (record : Bytes)
    (seq : Nat) : (keys.decryptRecordInplace a record seq).2.length = record.length := by
  unfold decryptRecordInplace
  dsimp only
  repeat (split; · rfl)
  rename_i hlen hbody
  simp only [ne_eq, not_not, aeadTagLen, not_lt] at hlen hbody
  split
  · rename_i hopen
    have hplain := openInPlace_length hopen
    simp only [slice_length] at hplain
    simp only [List.length_append, hplain, List.length_take, List.length_drop, aeadTagLen]
    omega
  · simp only [List.length_append, List.length_replicate, List.length_take, List.length_drop,
      aeadTagLen]
    omega

theorem encryptRecord_total (htotal : a.Total) (keys : RecordKeys) {content : Bytes}
    (contentType : UInt8) (seq : Nat) {outLen : Nat} (hcontent : content.length ≤ tlsPlaintextMax)
    (hout : content.length + 22 ≤ outLen) :
    ∃ record, keys.encryptRecord a content contentType seq outLen = (.ok record, record) := by
  simp only [tlsPlaintextMax] at hcontent
  obtain ⟨⟨ciphertext, tag⟩, hseal⟩ := sealInPlace_total htotal keys seq
    (show (recordHeader (content.length + 1 + aeadTagLen)).length ≤ 2 ^ 16 by simp)
    (show (content ++ [contentType]).length ≤ 2 ^ 16 by simp; omega)
  refine ⟨recordHeader (content.length + 1 + aeadTagLen) ++ ciphertext ++ tag, ?_⟩
  unfold encryptRecord
  rw [if_neg (by simp only [tlsPlaintextMax]; omega)]
  dsimp only
  rw [if_neg (by simp only [aeadTagLen, tlsCiphertextMax]; omega),
    if_neg (by simp only [aeadTagLen]; omega), hseal]

/-- The record made of a whole inner plaintext, padding included: the header, and what is sealed
under it. -/
def sealInner (a : AeadBackend) (keys : RecordKeys) (inner : Bytes) (seq : Nat) :
    Except AeadError Bytes := do
  let header := recordHeader (inner.length + aeadTagLen)
  let (ciphertext, tag) ← keys.sealInPlace a header seq inner
  pure (header ++ ciphertext ++ tag)

section Inner
variable {a : AeadBackend} {keys : RecordKeys} {inner record : Bytes} {seq : Nat}
  (h : keys.sealInner a inner seq = .ok record)
include h

theorem sealInner_eq_ok : record.length = inner.length + 21 ∧ ∃ ciphertext tag,
    keys.sealInPlace a (recordHeader (inner.length + aeadTagLen)) seq inner = .ok (ciphertext, tag) ∧
      record = recordHeader (inner.length + aeadTagLen) ++ ciphertext ++ tag := by
  obtain ⟨⟨ciphertext, tag⟩, hseal, hout⟩ := bind_eq_ok.mp h
  cases hout
  obtain ⟨hct, htag⟩ := sealInPlace_length hseal
  refine ⟨?_, ciphertext, tag, hseal, rfl⟩
  rw [List.length_append, List.length_append, recordHeader_length, hct, htag]
  omega

theorem sealInner_header (hlen : inner.length + aeadTagLen < 2 ^ 16) (more : Bytes) :
    (record ++ more).headD 0 = ctApplicationData ∧ ofBe (slice (record ++ more) 1 3) = legacyVersion ∧
      ofBe (slice (record ++ more) 3 5) = inner.length + aeadTagLen := by
  obtain ⟨-, ciphertext, tag, -, rfl⟩ := sealInner_eq_ok h
  have hversion : (toBe 2 legacyVersion).length = 2 := toBe_length _ _
  have hbody : (toBe 2 (inner.length + aeadTagLen)).length = 2 := toBe_length _ _
  refine ⟨rfl, ?_, ?_⟩
  · simp only [recordHeader, slice, List.cons_append, List.append_assoc, List.drop_succ_cons,
      List.drop_zero, List.take_left' hversion]
    rfl
  · simp only [recordHeader, slice, List.cons_append, List.append_assoc, List.drop_succ_cons,
      List.drop_left' hversion, List.take_left' hbody, ofBe_toBe]
    exact Nat.mod_eq_of_lt hlen

/-- A record opens under the keys and the number it was sealed with. -/
theorem decryptRecordInplace_sealInner (hcorrect : a.Correct)
    (hlen : inner.length + aeadTagLen ≤ tlsCiphertextMax) :
    ∃ opened, keys.decryptRecordInplace a record seq = (.ok inner.length, opened) ∧
      slice opened 5 (5 + inner.length) = inner := by
  have hmax : tlsCiphertextMax < 2 ^ 16 := by decide
  obtain ⟨htype, hversion, hlength⟩ := sealInner_header h (by omega) []
  rw [List.append_nil] at htype hversion hlength
  obtain ⟨hrecordLen, ciphertext, tag, hseal, hrecord⟩ := sealInner_eq_ok h
  obtain ⟨hct, htag⟩ := sealInPlace_length hseal
  have hheader := recordHeader_length (inner.length + aeadTagLen)
  have htake : record.take 5 = recordHeader (inner.length + aeadTagLen) := by
    rw [hrecord, List.append_assoc, List.take_left' hheader]
  have hslice : slice record 5 (5 + inner.length) = ciphertext := by
    rw [hrecord, slice, List.append_assoc, List.drop_left' hheader, Nat.add_sub_cancel_left,
      List.take_left' hct]
  have hdrop : record.drop (5 + inner.length) = tag := by
    rw [hrecord, List.drop_left']
    rw [List.length_append, hheader, hct]
  have hopen : keys.openInPlace a (recordHeader (inner.length + aeadTagLen)) seq ciphertext ⟨tag, htag⟩ =
      .ok inner := openInPlace_sealInPlace hcorrect hseal
  have hbody : inner.length + aeadTagLen - aeadTagLen = inner.length := Nat.add_sub_cancel _ _
  refine ⟨record.take 5 ++ inner ++ tag, ?_, ?_⟩
  · unfold decryptRecordInplace
    rw [if_neg (by omega)]
    dsimp only
    rw [if_neg (not_not_intro htype), if_neg (not_not_intro hversion), if_neg (by omega),
      if_neg (by simp only [hlength, aeadTagLen]; omega),
      dif_neg (by simp only [hlength, aeadTagLen]; omega), dif_neg (by omega)]
    simp only [hlength, hbody, htake, hslice, hdrop, hopen]
  · rw [htake, slice, List.append_assoc, List.drop_left' hheader, Nat.add_sub_cancel_left,
      List.take_left' rfl]

end Inner

section Sealed
variable {a : AeadBackend} {keys : RecordKeys} {content record dirty : Bytes} {contentType : UInt8}
  {seq outLen : Nat} (h : keys.encryptRecord a content contentType seq outLen = (.ok record, dirty))
include h

/-- Our own records have no padding. -/
theorem sealInner_of_encryptRecord : keys.sealInner a (content ++ [contentType]) seq = .ok record := by
  obtain ⟨-, -, -, -, ciphertext, tag, hseal, hrecord⟩ := encryptRecord_eq_ok h
  have hinner : (content ++ [contentType]).length + aeadTagLen = content.length + 17 := by
    rw [List.length_append, List.length_singleton]
    rfl
  rw [sealInner, hinner, hseal, hrecord]
  rfl

theorem encryptRecord_header (more : Bytes) : (record ++ more).headD 0 = ctApplicationData ∧
    ofBe (slice (record ++ more) 1 3) = legacyVersion ∧
    ofBe (slice (record ++ more) 3 5) = content.length + 17 := by
  obtain ⟨-, hcontent, -⟩ := encryptRecord_eq_ok h
  simp only [tlsPlaintextMax] at hcontent
  have hinner : (content ++ [contentType]).length + aeadTagLen = content.length + 17 := by
    rw [List.length_append, List.length_singleton]
    rfl
  have hheader := sealInner_header (sealInner_of_encryptRecord h) (by omega) more
  rwa [hinner] at hheader

theorem decryptRecordInplace_encryptRecord (hcorrect : a.Correct) :
    ∃ opened, keys.decryptRecordInplace a record seq = (.ok (content.length + 1), opened) ∧
      slice opened 5 (5 + (content.length + 1)) = content ++ [contentType] := by
  obtain ⟨-, hcontent, -⟩ := encryptRecord_eq_ok h
  simp only [tlsPlaintextMax] at hcontent
  have hinner : (content ++ [contentType]).length = content.length + 1 := by
    rw [List.length_append, List.length_singleton]
  have hopened := decryptRecordInplace_sealInner (sealInner_of_encryptRecord h) hcorrect (by
    simp only [hinner, aeadTagLen, tlsCiphertextMax]; omega)
  rwa [hinner] at hopened

end Sealed

end RecordKeys

variable {contentType : UInt8} {content inner : Bytes}

/-- The scan for the last nonzero byte: `(index + 1, that byte)`, `(0, 0)` if there is none. -/
def scanContentType (inner : Bytes) : Nat × UInt8 :=
  (inner.foldl (fun (i, last) b => (i + 1, if b ≠ 0 then (i + 1, b) else last)) (0, (0, 0))).2

def splitInnerPlaintext (inner : Bytes) : Except DecryptError (Bytes × UInt8) :=
  if inner.length > tlsCiphertextMax then .error .recordTooLarge
  else
    let (stop, contentType) := scanContentType inner
    if stop = 0 then .error .emptyInnerPlaintext
    else if stop - 1 > tlsPlaintextMax then .error .recordTooLarge
    else .ok (inner.take (stop - 1), contentType)

theorem scanContentType_append (content : Bytes) (h : contentType ≠ 0) :
    scanContentType (content ++ [contentType]) = (content.length + 1, contentType) := by
  have hcount (l : Bytes) (s : Nat × (Nat × UInt8)) :
      (l.foldl (fun (i, last) b => (i + 1, if b ≠ 0 then (i + 1, b) else last)) s).1 =
        s.1 + l.length := by
    induction l generalizing s with
    | nil => rfl
    | cons b l ih =>
      rw [List.foldl_cons, ih, List.length_cons]
      simp only [Nat.add_assoc, Nat.add_comm 1]
  simp only [scanContentType, List.foldl_append, List.foldl_cons, List.foldl_nil, if_pos h, hcount,
    Nat.zero_add]

theorem scanContentType_append_zero (inner : Bytes) :
    scanContentType (inner ++ [0]) = scanContentType inner := by
  simp [scanContentType]

/-- The scan finds the last byte in front of the zero padding. -/
theorem scanContentType_split (h : (scanContentType inner).1 ≠ 0) :
    ∃ content pad, inner = content ++ [(scanContentType inner).2] ++ List.replicate pad 0 ∧
      (scanContentType inner).1 = content.length + 1 := by
  induction inner using List.reverseRecOn with
  | nil => exact absurd rfl h
  | append_singleton inner b ih =>
    by_cases hb : b = 0
    · subst hb
      rw [scanContentType_append_zero] at h ⊢
      obtain ⟨content, pad, hinner, hstop⟩ := ih h
      refine ⟨content, pad + 1, ?_, hstop⟩
      conv_lhs => rw [hinner]
      rw [List.replicate_succ', List.append_assoc]
    · rw [scanContentType_append inner hb]
      exact ⟨inner, 0, (List.append_nil _).symm, rfl⟩

/-- The inner plaintext is the content, its type and zero padding. -/
theorem splitInnerPlaintext_eq_ok (h : splitInnerPlaintext inner = .ok (content, contentType)) :
    ∃ pad, inner = content ++ [contentType] ++ List.replicate pad 0 := by
  unfold splitInnerPlaintext at h
  split at h
  · cases h
  · dsimp only at h
    split at h
    · cases h
    · rename_i hstop
      split at h
      · cases h
      · cases h
        obtain ⟨content, pad, hinner, hlen⟩ := scanContentType_split hstop
        refine ⟨pad, ?_⟩
        have htake : inner.take ((scanContentType inner).1 - 1) = content := by
          rw [hlen, Nat.add_sub_cancel]
          conv_lhs => rw [hinner, List.append_assoc]
          exact List.take_left' rfl
        rw [htake]
        exact hinner

theorem scanContentType_padded (inner : Bytes) (pad : Nat) :
    scanContentType (inner ++ List.replicate pad 0) = scanContentType inner := by
  induction pad with
  | zero => rw [List.replicate_zero, List.append_nil]
  | succ pad ih => rw [List.replicate_succ', ← List.append_assoc, scanContentType_append_zero, ih]

theorem splitInnerPlaintext_padded {pad : Nat} (h : contentType ≠ 0)
    (hlen : content.length ≤ tlsPlaintextMax)
    (hinner : content.length + 1 + pad ≤ tlsCiphertextMax) :
    splitInnerPlaintext (content ++ [contentType] ++ List.replicate pad 0) =
      .ok (content, contentType) := by
  unfold splitInnerPlaintext
  rw [if_neg (by simp only [List.length_append, List.length_singleton, List.length_replicate]; omega),
    scanContentType_padded, scanContentType_append content h]
  dsimp only
  rw [if_neg (by omega), if_neg (by omega), Nat.add_sub_cancel, List.append_assoc, List.take_left' rfl]

theorem splitInnerPlaintext_append (h : contentType ≠ 0) (hlen : content.length ≤ tlsPlaintextMax) :
    splitInnerPlaintext (content ++ [contentType]) = .ok (content, contentType) := by
  have hmax : tlsPlaintextMax + 1 ≤ tlsCiphertextMax := by decide
  have hsplit := splitInnerPlaintext_padded h hlen (show content.length + 1 + 0 ≤ tlsCiphertextMax by omega)
  rwa [List.replicate_zero, List.append_nil] at hsplit

theorem scanContentType_le (inner : Bytes) : (scanContentType inner).1 ≤ inner.length := by
  induction inner using List.reverseRecOn with
  | nil => exact Nat.le_refl 0
  | append_singleton inner b ih =>
    rw [List.length_append]
    by_cases hb : b = 0
    · subst hb
      rw [scanContentType_append_zero]
      omega
    · rw [scanContentType_append inner hb]
      exact Nat.le_refl _

theorem scanContentType_eq_zero (h : ∀ b ∈ inner, b = 0) : scanContentType inner = (0, 0) := by
  have hzeros : inner = List.replicate inner.length 0 := List.eq_replicate_iff.mpr ⟨rfl, h⟩
  rw [hzeros, ← List.nil_append (List.replicate _ _), scanContentType_padded]
  rfl

theorem scanContentType_eq_last {e : Nat} {b : UInt8} (hb : inner[e]? = some b) (hne : b ≠ 0)
    (hlast : ∀ b' ∈ inner.drop (e + 1), b' = 0) :
    scanContentType inner = (e + 1, b) := by
  obtain ⟨hlt, rfl⟩ := List.getElem?_eq_some_iff.mp hb
  have hsplit : inner = inner.take e ++ [inner[e]] ++ List.replicate (inner.drop (e + 1)).length 0 := by
    rw [← List.eq_replicate_iff.mpr ⟨rfl, hlast⟩, List.append_assoc, List.singleton_append,
      List.getElem_cons_drop, List.take_append_drop]
  have hlen : (inner.take e).length = e := List.length_take_of_le hlt.le
  conv_lhs => rw [hsplit]
  rw [scanContentType_padded, scanContentType_append _ hne, hlen]

namespace BranchFree

/-- `conditional_select` of the `subtle` crate. -/
def conditionalSelect {α : Type} (a b : α) (choice : Bool) : α := if choice then b else a

/-- The locals of the scan. -/
structure Scan where
  lastNonzeroPlusOne : UInt32
  contentType : UInt8

def Scan.visit (s : Scan) (item : UInt8 × Nat) : Scan :=
  let (b, i) := item
  let isNonzero := !(b == 0)
  { lastNonzeroPlusOne := conditionalSelect s.lastNonzeroPlusOne (UInt32.ofNat (i + 1)) isNonzero
    contentType := conditionalSelect s.contentType b isNonzero }

/-- `split_inner_plaintext` as it is written: every byte is visited, and selects. -/
def splitInnerPlaintext (inner : Bytes) : Except DecryptError (Bytes × UInt8) :=
  if inner.length > tlsCiphertextMax then .error .recordTooLarge
  else
    let s := inner.zipIdx.foldl Scan.visit ⟨0, 0⟩
    let stop := s.lastNonzeroPlusOne.toNat
    if stop = 0 then .error .emptyInnerPlaintext
    else if stop - 1 > tlsPlaintextMax then .error .recordTooLarge
    else .ok (inner.take (stop - 1), s.contentType)

/-- The index does not overflow, so the selection keeps the last byte that is not zero. -/
theorem foldl_visit (inner : Bytes) (h : inner.length < 2 ^ 32) :
    inner.zipIdx.foldl Scan.visit ⟨0, 0⟩ =
      ⟨UInt32.ofNat (scanContentType inner).1, (scanContentType inner).2⟩ := by
  induction inner using List.reverseRecOn with
  | nil => rfl
  | append_singleton inner b ih =>
    rw [List.length_append, List.length_singleton] at h
    rw [List.zipIdx_append, List.foldl_append, ih (by omega)]
    by_cases hb : b = 0
    · subst hb
      rw [scanContentType_append_zero]
      rfl
    · rw [scanContentType_append inner hb]
      simp [Scan.visit, conditionalSelect, hb]

theorem splitInnerPlaintext_eq (inner : Bytes) :
    splitInnerPlaintext inner = KrabiTls.splitInnerPlaintext inner := by
  unfold splitInnerPlaintext KrabiTls.splitInnerPlaintext
  have hmax : tlsCiphertextMax < 2 ^ 32 := by decide
  by_cases hlen : inner.length > tlsCiphertextMax
  · rw [if_pos hlen, if_pos hlen]
  · have hstop := scanContentType_le inner
    rw [if_neg hlen, if_neg hlen, foldl_visit inner (by omega)]
    dsimp only
    rw [UInt32.toNat_ofNat_of_lt' (by simp only [UInt32.size]; omega)]

/-- The scan over all bytes finds what a scan from the end does: the last byte that is not zero. -/
theorem splitInnerPlaintext_last (inner : Bytes) :
    (tlsCiphertextMax < inner.length →
        splitInnerPlaintext inner = .error .recordTooLarge) ∧
      (inner.length ≤ tlsCiphertextMax → (∀ b ∈ inner, b = 0) →
        splitInnerPlaintext inner = .error .emptyInnerPlaintext) ∧
      (inner.length ≤ tlsCiphertextMax → ∀ e b, inner[e]? = some b → b ≠ 0 →
        (∀ b' ∈ inner.drop (e + 1), b' = 0) →
        splitInnerPlaintext inner =
          if e ≤ 2 ^ 14 then .ok (inner.take e, b) else .error .recordTooLarge) := by
  rw [splitInnerPlaintext_eq]
  unfold KrabiTls.splitInnerPlaintext
  refine ⟨?_, ?_, ?_⟩
  · intro hlen
    rw [if_pos hlen]
  · intro hlen hzero
    rw [if_neg (by omega), scanContentType_eq_zero hzero]
    rfl
  · intro hlen e b hb hne hlast
    rw [if_neg (by omega), scanContentType_eq_last hb hne hlast]
    dsimp only
    rw [if_neg (by omega), Nat.add_sub_cancel]
    by_cases he : e ≤ 2 ^ 14
    · rw [if_pos he, if_neg (by simp only [tlsPlaintextMax]; omega)]
    · rw [if_neg he, if_pos (by simp only [tlsPlaintextMax]; omega)]

end BranchFree

namespace RecordKeys

variable {a : AeadBackend} {content record : Bytes} {contentType : UInt8} {keys : RecordKeys}

/-- What a receiver makes of one record: the length of the inner plaintext, the content and its
type. -/
def readRecord (a : AeadBackend) (keys : RecordKeys) (record : Bytes) (seq : Nat) :
    Except DecryptError (Nat × Bytes × UInt8) := do
  let innerLen ← (keys.decryptRecordInplace a record seq).1
  let (content, contentType) ← splitInnerPlaintext
    (slice (keys.decryptRecordInplace a record seq).2 5 (5 + innerLen))
  pure (innerLen, content, contentType)

/-- The number of a record counts modulo the size of its counter. -/
theorem readRecord_mod (a : AeadBackend) (keys : RecordKeys) (record : Bytes) (seq : Nat) :
    keys.readRecord a record (seq % 2 ^ 64) = keys.readRecord a record seq := by
  simp only [readRecord, decryptRecordInplace, openInPlace, aeadNonce_mod]

theorem readRecord_encryptRecord {dirty : Bytes} {seq outLen : Nat} (hcorrect : a.Correct)
    (hct : contentType ≠ 0)
    (h : keys.encryptRecord a content contentType seq outLen = (.ok record, dirty)) :
    keys.readRecord a record seq = .ok (content.length + 1, content, contentType) := by
  obtain ⟨-, hcontent, -⟩ := encryptRecord_eq_ok h
  obtain ⟨opened, hdec, hslice⟩ := decryptRecordInplace_encryptRecord h hcorrect
  rw [readRecord, hdec]
  dsimp only
  refine bind_eq_ok.mpr ⟨_, rfl, ?_⟩
  rw [hslice]
  exact bind_eq_ok.mpr ⟨_, splitInnerPlaintext_append hct hcontent, rfl⟩

/-- A receiver that has come to `seq` reads `contents` from `records`, each of one type and within its
limit. -/
structure ReadsBack (a : AeadBackend) (keys : RecordKeys) (contentType : UInt8) (seq limit : Nat)
    (records contents : List Bytes) : Prop where
  reads : records.mapIdx (fun i record => keys.readRecord a record (seq + i)) =
    contents.map fun content => .ok (content.length + 1, content, contentType)
  within : ∀ content ∈ contents, content.length + 1 ≤ limit

theorem readsBack_nil (a : AeadBackend) (keys : RecordKeys) (contentType : UInt8) (seq limit : Nat) :
    keys.ReadsBack a contentType seq limit [] [] := ⟨rfl, nofun⟩

theorem ReadsBack.concat {seq limit : Nat} {records contents : List Bytes}
    (h : keys.ReadsBack a contentType seq limit records contents)
    (hread : keys.readRecord a record (seq + records.length) =
      .ok (content.length + 1, content, contentType))
    (hlimit : content.length + 1 ≤ limit) :
    keys.ReadsBack a contentType seq limit (records ++ [record]) (contents ++ [content]) := by
  constructor
  · rw [List.mapIdx_append, h.reads, List.map_append]
    simp only [List.map_singleton, List.mapIdx_cons, List.mapIdx_nil, Nat.zero_add, hread]
  · rw [List.forall_mem_append]
    exact ⟨h.within, by simpa using hlimit⟩

theorem ReadsBack.cons {seq limit : Nat} {records contents : List Bytes}
    (hread : keys.readRecord a record seq = .ok (content.length + 1, content, contentType))
    (hlimit : content.length + 1 ≤ limit)
    (h : keys.ReadsBack a contentType ((seq + 1) % 2 ^ 64) limit records contents) :
    keys.ReadsBack a contentType seq limit (record :: records) (content :: contents) := by
  have hnext (i : Nat) (record : Bytes) :
      keys.readRecord a record (seq + (i + 1)) = keys.readRecord a record ((seq + 1) % 2 ^ 64 + i) := by
    rw [← readRecord_mod, ← readRecord_mod a keys record ((seq + 1) % 2 ^ 64 + i), Nat.mod_add_mod,
      Nat.add_assoc, Nat.add_comm 1 i]
  constructor
  · rw [List.mapIdx_cons, List.map_cons, ← h.reads, Nat.add_zero, hread]
    simp only [hnext]
  · rw [List.forall_mem_cons]
    exact ⟨hlimit, h.within⟩

end RecordKeys

end KrabiTls
