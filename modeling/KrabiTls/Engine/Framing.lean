import KrabiTls.Engine.Steps

/-! The receive buffer as a byte stream: what is buffered and not yet framed, what is parked, and
that framing, compaction and in-place opening act on these alone. -/
namespace KrabiTls
open Lib

/-- `0 ≤ plain_start ≤ plain_end ≤ next_record ≤ filled ≤ RECV`. -/
structure RecvState.Ordered (capacity : Nat) (r : RecvState) : Prop where
  plain : r.plainStart ≤ r.plainEnd
  parked : r.plainEnd ≤ r.nextRecord
  next : r.nextRecord ≤ r.filled
  filled : r.filled ≤ capacity

/-- The verdict of `frame_one_record` on a byte stream. -/
inductive Frame where
  | need
  | tooLarge (got : Nat)
  | record (record rest : Bytes)
  deriving DecidableEq, Repr

/-- The first record of a byte stream, with buffer space for `capacity` bytes. -/
def frame (capacity : Nat) (input : Bytes) : Frame :=
  if input.length < tlsHeader then .need
  else
    let lengthField := ofBe (slice input 3 5)
    if lengthField > capacity - tlsHeader then .tooLarge lengthField
    else if input.length < tlsHeader + lengthField then .need
    else .record (input.take (tlsHeader + lengthField)) (input.drop (tlsHeader + lengthField))

section Frame
variable {capacity : Nat} {input more : Bytes}
variable {record rest : Bytes}

theorem frame_eq_tooLarge {got : Nat} : frame capacity input = .tooLarge got ↔
    tlsHeader ≤ input.length ∧ got = ofBe (slice input 3 5) ∧ capacity - tlsHeader < got := by
  unfold frame
  dsimp only
  split
  next hshort => simp only [reduceCtorEq, false_iff]; omega
  next hlen =>
    split
    next hlarge => simp only [Frame.tooLarge.injEq]; omega
    next hsmall => split <;> simp only [reduceCtorEq, false_iff] <;> omega

theorem frame_eq_record_iff : frame capacity input = .record record rest ↔
    ofBe (slice input 3 5) ≤ capacity - tlsHeader ∧
      tlsHeader + ofBe (slice input 3 5) ≤ input.length ∧
        input.take (tlsHeader + ofBe (slice input 3 5)) = record ∧
          input.drop (tlsHeader + ofBe (slice input 3 5)) = rest := by
  unfold frame
  dsimp only
  split
  next hshort => simp only [reduceCtorEq, false_iff]; omega
  next hlen =>
    split
    next hlarge => simp only [reduceCtorEq, false_iff]; omega
    next hsmall =>
      split
      next hpart => simp only [reduceCtorEq, false_iff]; omega
      next hwhole =>
        simp only [Frame.record.injEq, not_lt.mp hsmall, not_lt.mp hwhole, true_and]

/-- Bytes that arrive later do not change a verdict. -/
theorem frame_append_tooLarge {got : Nat} (h : frame capacity input = .tooLarge got) :
    frame capacity (input ++ more) = .tooLarge got := by
  obtain ⟨hlen, hgot, hcap⟩ := frame_eq_tooLarge.mp h
  have hfield : slice (input ++ more) 3 5 = slice input 3 5 := slice_append_left hlen
  refine frame_eq_tooLarge.mpr ⟨by rw [List.length_append]; omega, ?_, hcap⟩
  rwa [hfield]

theorem frame_append_record (h : frame capacity input = .record record rest) :
    frame capacity (input ++ more) = .record record (rest ++ more) := by
  obtain ⟨hcap, hlen, rfl, rfl⟩ := frame_eq_record_iff.mp h
  have hfield : slice (input ++ more) 3 5 = slice input 3 5 :=
    slice_append_left (by simp only [tlsHeader] at hlen; omega)
  rw [frame_eq_record_iff, hfield]
  exact ⟨hcap, by rw [List.length_append]; omega, List.take_append_of_le_length hlen,
    List.drop_append_of_le_length hlen⟩

theorem frame_eq_record (h : frame capacity input = .record record rest) :
    input = record ++ rest ∧ tlsHeader ≤ record.length := by
  obtain ⟨-, hlen, rfl, rfl⟩ := frame_eq_record_iff.mp h
  refine ⟨(List.take_append_drop _ _).symm, ?_⟩
  rw [List.length_take]
  omega

theorem frame_rest_lt (h : frame capacity input = .record record rest) :
    rest.length < input.length := by
  obtain ⟨rfl, hlen⟩ := frame_eq_record h
  simp only [List.length_append, tlsHeader] at hlen ⊢
  omega

end Frame

namespace Core
variable {cfg : ClientConfig} {sz : Sizes} {c : Core cfg sz}

theorem handleInnerContent_eq_ok {c' : Core cfg sz} {content parked : Bytes} {ct : UInt8}
    (h : c.handleInnerContent content ct = (.ok parked, c')) :
    parked = if ct = ctApplicationData then content else [] := by
  unfold handleInnerContent at h
  split at h
  · cases h
  · split at h
    · rename_i hct
      cases h
      rw [if_pos hct]
    · rename_i hct
      rw [if_neg hct]
      repeat' split at h
      all_goals try cases h
      all_goals try rfl
      · rename_i result _ _
        cases result with
        | error e => cases h
        | ok u => cases h; rfl

/-- Accepted application data stands behind the header of the opened record. -/
theorem dispatchDataRecord_content {outerType : UInt8} {record content : Bytes}
    (h : (c.dispatchDataRecord outerType record).result = .ok content) :
    (c.dispatchDataRecord outerType record).consumed = true ∧
      (content = [] ∨
        slice (c.dispatchDataRecord outerType record).record 5 (5 + content.length) = content) := by
  rcases c.dispatchDataRecord_cases outerType record with
    ⟨err, herr, -⟩ | ⟨inner, ct, opened, -, hopen, hconsumed, ⟨err, -, herr, -⟩ | ⟨parked, hinner, hok⟩⟩
  · rw [herr] at h; cases h
  · rw [herr] at h; cases h
  · rw [hok] at h
    cases h
    refine ⟨hconsumed, ?_⟩
    obtain hparked := handleInnerContent_eq_ok hinner
    split at hparked
    · right
      subst hparked
      unfold decryptDataRecord at hopen
      split at hopen
      · split at hopen
        · cases hopen
        · cases hopen
          exact slice_slice_length _ _ _
      · cases hopen
    · exact .inl hparked

end Core

namespace Engine
variable {cfg : ClientConfig} {sz : Sizes} {e : Engine cfg sz}

def buffered (e : Engine cfg sz) : Bytes :=
  slice e.recvRecord.val e.recv.nextRecord e.recv.filled

/-- The opened application data that has not been read yet. -/
def parked (e : Engine cfg sz) : Bytes :=
  slice e.recvRecord.val e.recv.plainStart e.recv.plainEnd

theorem parked_eq_nil (h : e.recv.plaintextParked = false) : e.parked = [] := by
  have hle : e.recv.plainEnd - e.recv.plainStart = 0 := by
    have := of_decide_eq_false h
    omega
  simp [parked, slice, hle]

theorem buffered_length (h : e.recv.Ordered sz.recv) :
    e.buffered.length = e.recv.filled - e.recv.nextRecord :=
  slice_length_of_le (by rw [e.recvRecord.property]; exact h.filled)

theorem parked_length (h : e.recv.Ordered sz.recv) :
    e.parked.length = e.recv.plainEnd - e.recv.plainStart :=
  slice_length_of_le (by
    rw [e.recvRecord.property]
    exact h.parked.trans (h.next.trans h.filled))

/-- `frame_one_record` is `frame` on the buffered bytes. -/
theorem frameOneRecord_eq_frame (h : e.recv.Ordered sz.recv)
    (hparked : e.recv.plaintextParked = false) :
    match frame sz.recv e.buffered with
    | .need => e.frameOneRecord = (.ok .need, e.compactRecv)
    | .tooLarge got => e.frameOneRecord = (.error (.recordTooLarge e.core.ourRecvLimit got), e)
    | .record record rest => ∃ stop, e.recv.nextRecord + tlsHeader ≤ stop ∧ stop ≤ e.recv.filled ∧
        e.frameOneRecord = (.ok (.record e.recv.nextRecord stop (record.headD 0)), e) ∧
        slice e.recvRecord.val e.recv.nextRecord stop = record ∧
        slice e.recvRecord.val stop e.recv.filled = rest := by
  have hlen := buffered_length h
  have hnext := h.next
  unfold frameOneRecord frame
  simp only [hparked, hlen]
  by_cases hheader : e.recv.filled - e.recv.nextRecord < tlsHeader
  · simp [hheader]
  · have hfield : slice e.buffered 3 5 =
        slice e.recvRecord.val (e.recv.nextRecord + 3) (e.recv.nextRecord + 5) :=
      slice_slice (by simp only [tlsHeader] at hheader; omega)
    simp only [hheader, if_false, hfield, Bool.false_eq_true]
    generalize hbody : ofBe (slice e.recvRecord.val (e.recv.nextRecord + 3)
      (e.recv.nextRecord + 5)) = bodyLen
    by_cases hcap : bodyLen > sz.recv - tlsHeader
    · simp [hcap]
    · by_cases hstop : e.recv.filled < e.recv.nextRecord + tlsHeader + bodyLen
      · have hstop' : e.recv.filled - e.recv.nextRecord < tlsHeader + bodyLen := by omega
        simp [hcap, hstop, hstop']
      · have hstop' : ¬ e.recv.filled - e.recv.nextRecord < tlsHeader + bodyLen := by omega
        simp only [hcap, hstop, hstop', if_false]
        have htake : e.buffered.take (tlsHeader + bodyLen) = slice e.recvRecord.val
            e.recv.nextRecord (e.recv.nextRecord + tlsHeader + bodyLen) := by
          rw [buffered, take_slice (by omega), Nat.add_assoc]
        have hdrop : e.buffered.drop (tlsHeader + bodyLen) = slice e.recvRecord.val
            (e.recv.nextRecord + tlsHeader + bodyLen) e.recv.filled := by
          rw [buffered, drop_slice, Nat.add_assoc]
        refine ⟨e.recv.nextRecord + tlsHeader + bodyLen, by omega, by omega, ?_, htake.symm,
          hdrop.symm⟩
        have hhead : (e.buffered.take (tlsHeader + bodyLen)).headD 0 =
            (e.recvRecord.val.drop e.recv.nextRecord).headD 0 := by
          rw [htake, slice]
          cases e.recvRecord.val.drop e.recv.nextRecord with
          | nil => simp
          | cons x xs =>
            rw [show e.recv.nextRecord + tlsHeader + bodyLen - e.recv.nextRecord =
              4 + bodyLen + 1 by simp only [tlsHeader]; omega]
            rfl
        rw [hhead]

section Inversion
variable {e' : Engine cfg sz} (h : e.recv.Ordered sz.recv)
  (hparked : e.recv.plaintextParked = false)
include h hparked

theorem frame_of_need (hf : e.frameOneRecord = (.ok .need, e')) :
    frame sz.recv e.buffered = .need := by
  have hframe := frameOneRecord_eq_frame h hparked
  cases hcase : frame sz.recv e.buffered with
  | need => rfl
  | tooLarge got => rw [hcase, hf] at hframe; cases hframe
  | record record rest =>
    rw [hcase, hf] at hframe
    obtain ⟨_, _, _, heq, _⟩ := hframe
    cases heq

theorem frame_of_error {err : HandshakeError} (hf : e.frameOneRecord = (.error err, e')) :
    ∃ got, frame sz.recv e.buffered = .tooLarge got ∧
      err = .recordTooLarge e.core.ourRecvLimit got := by
  have hframe := frameOneRecord_eq_frame h hparked
  cases hcase : frame sz.recv e.buffered with
  | need => rw [hcase, hf] at hframe; cases hframe
  | tooLarge got => rw [hcase, hf] at hframe; cases hframe; exact ⟨got, rfl, rfl⟩
  | record record rest =>
    rw [hcase, hf] at hframe
    obtain ⟨_, _, _, heq, _⟩ := hframe
    cases heq

theorem frame_of_record {start stop : Nat} {outerType : UInt8}
    (hf : e.frameOneRecord = (.ok (.record start stop outerType), e')) :
    ∃ record rest, frame sz.recv e.buffered = .record record rest ∧ start = e.recv.nextRecord ∧
      start + tlsHeader ≤ stop ∧ stop ≤ e.recv.filled ∧ outerType = record.headD 0 ∧
      slice e.recvRecord.val start stop = record ∧
      slice e.recvRecord.val stop e.recv.filled = rest := by
  have hframe := frameOneRecord_eq_frame h hparked
  cases hcase : frame sz.recv e.buffered with
  | need => rw [hcase, hf] at hframe; cases hframe
  | tooLarge got => rw [hcase, hf] at hframe; cases hframe
  | record record rest =>
    rw [hcase, hf] at hframe
    obtain ⟨stop', hstart, hstop, heq, hrecord, hrest⟩ := hframe
    cases heq
    exact ⟨record, rest, rfl, rfl, hstart, hstop, rfl, hrecord, hrest⟩

end Inversion

variable {stop : Nat} {outerType : UInt8}

theorem compactRecv_ordered (h : e.recv.Ordered sz.recv) : e.compactRecv.recv.Ordered sz.recv := by
  unfold compactRecv
  split
  · exact h
  · exact ⟨Nat.le_refl _, Nat.le_refl _, Nat.zero_le _, (Nat.sub_le _ _).trans h.filled⟩

theorem compactRecv_buffered (h : e.recv.Ordered sz.recv) : e.compactRecv.buffered = e.buffered := by
  unfold compactRecv
  split
  · rfl
  · have hlen := buffered_length h
    have hnext := h.next
    have hfilled := h.filled
    have hsize := e.recvRecord.property
    have hself : slice (overwrite e.recvRecord.val 0 e.buffered) 0 (0 + e.buffered.length) =
        e.buffered := slice_overwrite_self (by omega)
    rw [Nat.zero_add, hlen] at hself
    exact hself

theorem compactRecv_filled (h : e.recv.Ordered sz.recv) :
    e.compactRecv.recv.filled = e.buffered.length := by
  rw [buffered_length h]
  unfold compactRecv
  split
  · rename_i hzero
    rw [hzero, Nat.sub_zero]
  · rfl

/-- An engine that asks for bytes has room for some. -/
theorem compactRecv_room (h : e.recv.Ordered sz.recv) (hparked : e.recv.plaintextParked = false)
    (hcapacity : tlsHeader ≤ sz.recv) (hneed : frame sz.recv e.buffered = .need) :
    0 < e.compactRecv.recvBufferLen := by
  have hshort : e.buffered.length < sz.recv := by
    unfold frame at hneed
    split at hneed
    · omega
    · dsimp only at hneed
      split at hneed
      · cases hneed
      · split at hneed
        · omega
        · cases hneed
  rw [recvBufferLen, compactRecv_parked hparked, compactRecv_filled h]
  simp only [Bool.false_eq_true, if_false]
  omega

/-- Reading `chunk` into the receive buffer appends it to the unframed bytes. -/
theorem advance_fill (h : e.recv.Ordered sz.recv) (chunk : Bytes)
    (hchunk : chunk.length ≤ e.recvBufferLen) (hpos : 0 < chunk.length) :
    ∃ e', (e.fill chunk).advance chunk.length = (.ok (), e') ∧ e'.core = e.core ∧
      e'.recv.Ordered sz.recv ∧ e'.buffered = e.buffered ++ chunk ∧
      e'.recv.plaintextParked = false := by
  have hparked : e.recv.plaintextParked = false := by
    by_contra hp
    rw [recvBufferLen, if_pos (by simpa using hp)] at hchunk
    omega
  simp only [recvBufferLen, hparked, Bool.false_eq_true, if_false] at hchunk
  have htake : chunk.take e.recvBufferLen = chunk := by
    rw [recvBufferLen, hparked]
    exact List.take_of_length_le hchunk
  have hfilled := h.filled
  have hsize := e.recvRecord.property
  refine ⟨{ e.fill chunk with recv.filled := e.recv.filled + chunk.length }, ?_, rfl, ?_, ?_,
    hparked⟩
  · unfold advance
    rw [if_neg (by omega), if_neg (by simp [fill, hparked]), if_neg (by simp only [fill]; omega)]
    rfl
  · exact ⟨h.plain, h.parked, h.next.trans (Nat.le_add_right _ _), by simp only; omega⟩
  · simp only [buffered, fill, Block.overwrite, htake]
    exact slice_overwrite_append h.next (by omega)

theorem readApp_parked (h : e.recv.Ordered sz.recv) (outLen : Nat) :
    (e.readApp outLen).1 ++ (e.readApp outLen).2.parked = e.parked ∧
      (e.readApp outLen).2.recv.Ordered sz.recv ∧
      (e.readApp outLen).2.parked.length = e.parked.length - outLen := by
  have hplain := h.plain
  have hord : (e.readApp outLen).2.recv.Ordered sz.recv :=
    ⟨by simp only [readApp]; omega, h.parked, h.next, h.filled⟩
  have hsplit : e.parked = slice e.recvRecord.val e.recv.plainStart (e.recv.plainStart +
      min (e.recv.plainEnd - e.recv.plainStart) outLen) ++ (e.readApp outLen).2.parked :=
    slice_split (by omega) (by omega)
  refine ⟨hsplit.symm, hord, ?_⟩
  rw [parked_length h, parked_length hord]
  simp only [readApp]
  omega

/-- The unframed bytes behind a record that was overwritten in place. -/
theorem slice_behind_record (h : e.recv.Ordered sz.recv) {start : Nat} {data : Bytes}
    (hstart : start ≤ stop) (hstop : stop ≤ e.recv.filled) (hdata : data.length = stop - start) :
    slice (e.recvRecord.overwrite start data).val stop e.recv.filled =
      slice e.recvRecord.val stop e.recv.filled := by
  have hfilled := h.filled
  have hsize := e.recvRecord.property
  exact slice_overwrite_behind (by omega) (by omega)

/-- An accepted data record leaves its content parked and the bytes behind it buffered. -/
theorem dispatchDataRecord_accepted (h : e.recv.Ordered sz.recv)
    (hparked : e.recv.plaintextParked = false) {content : Bytes}
    (hstart : e.recv.nextRecord + tlsHeader ≤ stop) (hstop : stop ≤ e.recv.filled)
    (hok : (e.core.dispatchDataRecord outerType
      (slice e.recvRecord.val e.recv.nextRecord stop)).result = .ok content) :
    ∃ e', e.dispatchDataRecord e.recv.nextRecord stop outerType = (.ok (), e') ∧
      e'.core = (e.core.dispatchDataRecord outerType
        (slice e.recvRecord.val e.recv.nextRecord stop)).core ∧
      e'.recv.Ordered sz.recv ∧ e'.buffered = slice e.recvRecord.val stop e.recv.filled ∧
      e'.parked = content := by
  obtain ⟨hconsumed, hcontent⟩ := Core.dispatchDataRecord_content hok
  have hreclen := e.core.dispatchDataRecord_length outerType
    (slice e.recvRecord.val e.recv.nextRecord stop)
  have hfilled := h.filled
  have hsize := e.recvRecord.property
  rw [slice_length_of_le (by omega)] at hreclen
  unfold dispatchDataRecord
  generalize hd : e.core.dispatchDataRecord outerType
    (slice e.recvRecord.val e.recv.nextRecord stop) = d at hok hconsumed hcontent hreclen ⊢
  simp only [tlsHeader] at hstart ⊢
  have hbehind := slice_behind_record h (by omega) hstop hreclen
  have hplain := h.plain
  have hpark := h.parked
  have hnext := h.next
  cases content with
  | nil =>
    refine ⟨_, by rw [hok], rfl, ?_, ?_, ?_⟩
    · simp only [hconsumed, if_true]
      exact ⟨hplain, by simp only; omega, hstop, hfilled⟩
    · simp only [buffered, hconsumed, if_true]
      exact hbehind
    · exact parked_eq_nil hparked
  | cons x xs =>
    have hslice := hcontent.resolve_left (by simp)
    have hlen : 5 + (x :: xs).length ≤ d.record.length := by
      have := congrArg List.length hslice
      rw [slice_length] at this
      simp only [List.length_cons] at this ⊢
      omega
    refine ⟨_, by rw [hok], rfl, ?_, ?_, ?_⟩
    · simp only [hconsumed, if_true]
      exact ⟨Nat.le_add_right _ _, by simp only; omega, hstop, hfilled⟩
    · simp only [buffered, hconsumed, if_true]
      exact hbehind
    · simp only [parked]
      rw [Nat.add_assoc]
      exact (slice_overwrite_within hlen (by omega)).trans hslice

theorem dispatchDataRecord_refused (h : e.recv.Ordered sz.recv) {err : HandshakeError}
    (hstart : e.recv.nextRecord ≤ stop) (hstop : stop ≤ e.recv.filled)
    (herr : (e.core.dispatchDataRecord outerType
      (slice e.recvRecord.val e.recv.nextRecord stop)).result = .error err) :
    ∃ e', e.dispatchDataRecord e.recv.nextRecord stop outerType = (.error err, e') ∧
      e'.core = (e.core.dispatchDataRecord outerType
        (slice e.recvRecord.val e.recv.nextRecord stop)).core ∧ e'.recv.Ordered sz.recv := by
  unfold dispatchDataRecord
  dsimp only
  refine ⟨_, by rw [herr], rfl, ?_⟩
  have hpark := h.parked
  refine ⟨h.plain, ?_, ?_, h.filled⟩
  · dsimp only
    split <;> omega
  · dsimp only
    split
    · exact hstop
    · exact h.next

theorem stepLoop_ordered {handshake : Bool} {dispatch : Dispatch cfg sz} {hd : Consumes dispatch}
    (hdispatch : ∀ e stop outerType, e.recv.Ordered sz.recv → e.Quiet →
      e.recv.nextRecord + tlsHeader ≤ stop → stop ≤ e.recv.filled →
      (dispatch e e.recv.nextRecord stop outerType).2.recv.Ordered sz.recv)
    (h : e.recv.Ordered sz.recv) :
    ((stepLoop handshake dispatch hd).run e).2.recv.Ordered sz.recv := by
  refine stepLoop_keeps (fun e => e.recv.Ordered sz.recv) ?_ ?_ hdispatch h
  · intro e event e' hord hevent
    rw [idleEvent_recv hevent]
    exact hord
  · exact fun e hord _ => compactRecv_ordered hord

theorem dispatchDataRecord_ordered (e : Engine cfg sz) (stop : Nat) (outerType : UInt8)
    (h : e.recv.Ordered sz.recv) (hparked : e.recv.plaintextParked = false)
    (hstart : e.recv.nextRecord + tlsHeader ≤ stop) (hstop : stop ≤ e.recv.filled) :
    (e.dispatchDataRecord e.recv.nextRecord stop outerType).2.recv.Ordered sz.recv := by
  cases hres : (e.core.dispatchDataRecord outerType
      (slice e.recvRecord.val e.recv.nextRecord stop)).result with
  | error err =>
    obtain ⟨e', heq, -, hord⟩ := dispatchDataRecord_refused h (by omega) hstop hres
    rw [heq]
    exact hord
  | ok content =>
    obtain ⟨e', heq, -, hord, -⟩ := dispatchDataRecord_accepted h hparked hstart hstop hres
    rw [heq]
    exact hord

/-- A data record that counts as consumed leaves the bytes behind it buffered, accepted or not. -/
theorem dispatchDataRecord_consumed (h : e.recv.Ordered sz.recv)
    (hstart : e.recv.nextRecord ≤ stop) (hstop : stop ≤ e.recv.filled)
    (hconsumed : (e.core.dispatchDataRecord outerType
      (slice e.recvRecord.val e.recv.nextRecord stop)).consumed = true) :
    let d := e.core.dispatchDataRecord outerType (slice e.recvRecord.val e.recv.nextRecord stop)
    let r := e.dispatchDataRecord e.recv.nextRecord stop outerType
    r.1 = d.result.map (fun _ => ()) ∧ r.2.core = d.core ∧
      r.2.buffered = slice e.recvRecord.val stop e.recv.filled := by
  have hreclen := e.core.dispatchDataRecord_length outerType
    (slice e.recvRecord.val e.recv.nextRecord stop)
  rw [slice_length_of_le (by rw [e.recvRecord.property]; exact hstop.trans h.filled)] at hreclen
  have hbehind := slice_behind_record h hstart hstop hreclen
  unfold dispatchDataRecord
  generalize e.core.dispatchDataRecord outerType (slice e.recvRecord.val e.recv.nextRecord stop) = d
    at hconsumed hbehind ⊢
  simp only [hconsumed, if_true]
  rcases d.result with err | (_ | ⟨x, xs⟩) <;> exact ⟨rfl, rfl, hbehind⟩

theorem dispatchHandshakeRecord_ordered (params : ClientParams cfg) (e : Engine cfg sz) (stop : Nat)
    (outerType : UInt8) (h : e.recv.Ordered sz.recv)
    (hstart : e.recv.nextRecord + tlsHeader ≤ stop) (hstop : stop ≤ e.recv.filled) :
    (e.dispatchHandshakeRecord params e.recv.nextRecord stop outerType).2.recv.Ordered sz.recv := by
  have hrecv := e.handleHandshakeRecord_recv params e.recv.nextRecord stop outerType
  have hpark := h.parked
  unfold dispatchHandshakeRecord
  split <;> rename_i e₁ heq <;> rw [heq] at hrecv <;> dsimp only at hrecv ⊢
  · rw [hrecv]
    exact h
  · rw [hrecv]
    exact ⟨h.plain, by dsimp only; omega, hstop, h.filled⟩

theorem call_ordered {e : Engine cfg sz} (h : e.recv.Ordered sz.recv) (call : Call cfg) :
    (e.call call).2.recv.Ordered sz.recv := by
  cases call with
  | stepHandshake params =>
    exact stepLoop_ordered (fun e stop outerType hord _ =>
      dispatchHandshakeRecord_ordered params e stop outerType hord) h
  | step =>
    exact stepLoop_ordered (fun e stop outerType hord hquiet =>
      dispatchDataRecord_ordered e stop outerType hord hquiet.not_parked) h
  | advance n =>
    obtain ⟨filled, heq, hle, hcap⟩ := e.advance_eq n
    simp only [Engine.call, Prod.map, heq]
    exact ⟨h.plain, h.parked, h.next.trans hle, hcap h.filled⟩
  | readApp outLen => exact (readApp_parked h outLen).2.1
  | fill | writeApp | markSent | markTerminal | close => exact h

end Engine

end KrabiTls
