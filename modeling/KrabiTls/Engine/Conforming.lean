import KrabiTls.Engine.Framing

/-! Records of a peer that keeps to the advertised limit, with any amount of padding. -/
namespace KrabiTls
open Lib

/-- The inner plaintext of a record: content, type and zero padding. -/
def innerPlaintext (content : Bytes) (contentType : UInt8) (pad : Nat) : Bytes :=
  content ++ [contentType] ++ List.replicate pad 0

theorem innerPlaintext_length (content : Bytes) (contentType : UInt8) (pad : Nat) :
    (innerPlaintext content contentType pad).length = content.length + 1 + pad := by
  simp only [innerPlaintext, List.length_append, List.length_singleton, List.length_replicate]

theorem frame_sealInner {a : AeadBackend} {keys : RecordKeys} {inner record : Bytes} {seq capacity : Nat}
    (h : keys.sealInner a inner seq = .ok record) (hlen : inner.length + aeadTagLen < 2 ^ 16)
    (hfits : record.length ≤ capacity) (more : Bytes) :
    frame capacity (record ++ more) = .record record more := by
  obtain ⟨-, -, hlength⟩ := RecordKeys.sealInner_header h hlen more
  obtain ⟨hrecord, -⟩ := RecordKeys.sealInner_eq_ok h
  have hwhole : tlsHeader + (inner.length + aeadTagLen) = record.length := by
    simp only [tlsHeader, aeadTagLen]
    omega
  rw [frame_eq_record_iff, hlength, hwhole, List.length_append]
  exact ⟨by omega, by omega, List.take_left' rfl, List.drop_left' rfl⟩

namespace Core
variable {cfg : ClientConfig} {sz : Sizes} {c : Core cfg sz} {conn : AppData}

/-- The state right after a record was opened, before it is judged. -/
def openedWith (c : Core cfg sz) (conn : AppData) (r : OpenedRecord) : Core cfg sz :=
  { c with
    state := .app { conn with seqIn := (conn.seqIn + 1) % 2 ^ 64 }
    history.opened := c.history.opened ++ [r] }

/-- A record sealed with the current keys and number opens to its content, whatever its padding. -/
theorem decryptDataRecord_sealInner (hcorrect : cfg.aead.Correct) (hstate : c.state = .app conn)
    {content record : Bytes} {contentType : UInt8} {pad : Nat}
    (hseal : conn.sApKeys.sealInner cfg.aead (innerPlaintext content contentType pad) conn.seqIn =
      .ok record)
    (hct : contentType ≠ 0) (hlen : content.length + 1 + pad ≤ protoMaxInnerPlaintext) :
    ∃ buf, c.decryptDataRecord record = (.ok (content, contentType), buf,
        c.openedWith conn ⟨c.history.recvGen, conn.seqIn, record, content, contentType⟩) ∧
      slice buf 5 (5 + content.length) = content := by
  have hinnerLen := innerPlaintext_length content contentType pad
  simp only [protoMaxInnerPlaintext] at hlen
  obtain ⟨buf, hdec, hslice⟩ := RecordKeys.decryptRecordInplace_sealInner hseal hcorrect
    (by simp only [aeadTagLen, tlsCiphertextMax]; omega)
  have hsplit : splitInnerPlaintext (innerPlaintext content contentType pad) =
      .ok (content, contentType) :=
    splitInnerPlaintext_padded hct (by simp only [tlsPlaintextMax]; omega)
      (by simp only [tlsCiphertextMax]; omega)
  have hcontent : slice buf 5 (5 + content.length) = content := by
    have htake : (slice buf 5 (5 + (innerPlaintext content contentType pad).length)).take
        content.length = slice buf 5 (5 + content.length) := take_slice (by omega)
    rw [← htake, hslice, innerPlaintext, List.append_assoc, List.take_left' rfl]
  have hopen : conn.decryptRecordInplace cfg record = (.ok (content.length, contentType), buf,
      { conn with seqIn := (conn.seqIn + 1) % 2 ^ 64 }) := by
    unfold AppData.decryptRecordInplace
    simp only [hdec, hslice, hsplit]
  refine ⟨buf, ?_, hcontent⟩
  simp only [decryptDataRecord, hstate, hopen, hcontent, openedWith]

end Core

namespace Engine
variable {cfg : ClientConfig} {sz : Sizes}

/-- The advertised limit leaves room in the buffer for the largest record that keeps to it. -/
theorem defaultOurRecvLimit_fits {recv : Nat} (h : cfg.features.minRecv ≤ recv) :
    (defaultOurRecvLimit recv : Nat) + recordOverhead ≤ recv := by
  have hmin : minRecordSizeLimit + recordOverhead ≤ recv := (le_max_right _ _).trans h
  simp only [defaultOurRecvLimit, minRecordSizeLimit, recordOverhead, tlsHeader, aeadTagLen,
    protoMaxInnerPlaintext] at hmin ⊢
  omega

/-- A record that keeps to the advertised limit is framed wherever it stands in the buffer, passes
the size checks and opens to its content; what becomes of it is decided by that content alone. -/
theorem conforming_record_accepted (e : Engine cfg sz) (conn : AppData) (content : Bytes)
    (contentType : UInt8) (pad : Nat) (record more : Bytes) (hcorrect : cfg.aead.Correct)
    (hrecv : cfg.features.minRecv ≤ sz.recv) (hstate : e.core.state = .app conn)
    (hlimit : e.core.ourRecvLimit = defaultOurRecvLimit sz.recv) (hordered : e.recv.Ordered sz.recv)
    (hparked : e.recv.plaintextParked = false) (hct : contentType ≠ 0)
    (hlen : content.length + 1 + pad ≤ (defaultOurRecvLimit sz.recv : Nat))
    (hseal : conn.sApKeys.sealInner cfg.aead (innerPlaintext content contentType pad) conn.seqIn =
      .ok record)
    (hbuffered : e.buffered = record ++ more) :
    let start := e.recv.nextRecord
    let stop := e.recv.nextRecord + record.length
    let opened := e.core.openedWith conn
      ⟨e.core.history.recvGen, conn.seqIn, record, content, contentType⟩
    e.frameOneRecord = (.ok (.record start stop ctApplicationData), e) ∧
      slice e.recvRecord.val start stop = record ∧
      ∃ buf, e.core.decryptDataRecord record = (.ok (content, contentType), buf, opened) ∧
        slice buf 5 (5 + content.length) = content ∧
        e.core.dispatchDataRecordInner ctApplicationData record =
          ⟨(opened.handleInnerContent content contentType).1, buf, true,
            (opened.handleInnerContent content contentType).2⟩ := by
  intro start stop opened
  have hinnerLen := innerPlaintext_length content contentType pad
  have hfits := defaultOurRecvLimit_fits hrecv
  have hmax := (defaultOurRecvLimit sz.recv).property.2
  obtain ⟨hrecordLen, -⟩ := RecordKeys.sealInner_eq_ok hseal
  obtain ⟨hhead, -⟩ := RecordKeys.sealInner_header hseal
    (by simp only [aeadTagLen, protoMaxInnerPlaintext] at hmax ⊢; omega) []
  rw [List.append_nil] at hhead
  have hframe : frame sz.recv e.buffered = .record record more := by
    rw [hbuffered]
    apply frame_sealInner hseal
    · simp only [aeadTagLen, protoMaxInnerPlaintext] at hmax ⊢
      omega
    · simp only [recordOverhead, tlsHeader, aeadTagLen] at hfits
      omega
  have hfound := frameOneRecord_eq_frame hordered hparked
  rw [hframe] at hfound
  obtain ⟨stop', hstart, hstop, hone, hslice, -⟩ := hfound
  have hstop' : stop' = stop := by
    have hlength := congrArg List.length hslice
    have hfilled := hordered.filled
    rw [slice_length_of_le (by rw [e.recvRecord.property]; omega)] at hlength
    simp only [tlsHeader] at hstart
    omega
  rw [hstop', hhead] at hone
  rw [hstop'] at hslice
  obtain ⟨buf, hdec, hcontent⟩ := Core.decryptDataRecord_sealInner hcorrect hstate hseal hct
    (hlen.trans hmax)
  refine ⟨hone, hslice, buf, hdec, hcontent, ?_⟩
  unfold Core.dispatchDataRecordInner
  rw [if_neg (not_not_intro rfl), if_neg (by
    rw [hlimit]; simp only [tlsHeader, aeadTagLen]; omega), hdec]

end Engine

namespace Sample

def appData : AppData :=
  let keys : RecordKeys := ⟨.aes128GcmSha256, Block.zeros _, Block.zeros _⟩
  ⟨.aes128GcmSha256, keys, keys, Block.zeros _, Block.zeros _, 0, 7⟩

/-- Two bytes of application data with three bytes of padding. -/
def paddedRecord : Bytes :=
  (appData.sApKeys.sealInner .clear (innerPlaintext [1, 2] ctApplicationData 3) appData.seqIn).toOption.getD
    []

/-- An engine with the record behind bytes that are already consumed, and a header behind it. -/
def receivedPadded : Engine .sample sizes :=
  { Engine.new (Block.zeros _) ((Block.zeros _).overwrite 40 (paddedRecord ++ [ctApplicationData, 3, 3]))
      (.app appData) (Engine.defaultOurRecvLimit sizes.recv) .default with
    recv := { nextRecord := 40, filled := 70 } }

end Sample

theorem conforming_record_padded :
    Sample.receivedPadded.frameOneRecord =
        (.ok (.record 40 (40 + Sample.paddedRecord.length) ctApplicationData), Sample.receivedPadded) ∧
      ∃ buf c, Sample.receivedPadded.core.decryptDataRecord Sample.paddedRecord =
        (.ok ([1, 2], ctApplicationData), buf, c) := by
  obtain ⟨hframe, -, buf, hdec, -⟩ := Engine.conforming_record_accepted Sample.receivedPadded
    Sample.appData [1, 2] ctApplicationData 3 Sample.paddedRecord [ctApplicationData, 3, 3]
    AeadBackend.clear_correct (by decide) rfl rfl ⟨by decide, by decide, by decide, by decide⟩ rfl
    (by decide) (by decide) (toOption_eq_some.mp (by decide +kernel)) (by decide +kernel)
  exact ⟨hframe, buf, _, hdec⟩

end KrabiTls
