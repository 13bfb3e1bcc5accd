import KrabiTls.Lib.Bits
import KrabiTls.Lib.Bytes
import KrabiTls.Lib.Except
import KrabiTls.Lib.Loop

/-! The body of an ACK record: the numbers of the records received. -/
namespace KrabiTls.Dtls
open Lib

variable {out : Bytes}

inductive AckError where
  | bufferTooSmall
  | tooMany
  | malformed
  deriving DecidableEq, Repr

def recordNumberLen : Nat := 16

/-- `count_ones`. -/
def countOnes (seqs : BitVec 128) : Nat :=
  (List.range 128).countP seqs.getLsbD

theorem countOnes_le (seqs : BitVec 128) : countOnes seqs ≤ 128 := by
  have h := List.countP_le_length (p := seqs.getLsbD) (l := List.range 128)
  rwa [List.length_range] at h

/-- The entries written for the set bits, lowest first: what is left of the bitmap, the offset and
the output. -/
def ackBitmapLoop (epoch : Nat) : Loop Bytes (BitVec 128 × Nat × Bytes) where
  body st :=
    let (bits, p, out) := st
    if bits ≠ 0 then
      .again (bits &&& (bits - 1), p + recordNumberLen,
        overwrite out p (toBe 8 epoch ++ toBe 8 bits.ctz.toNat))
    else .leave out
  variant st := st.1.toNat
  decreases st t h := by
    dsimp only at h
    split at h
    · rename_i hne
      cases h
      have hle : (st.1 &&& (st.1 - 1)).toNat ≤ (st.1 - 1).toNat := by
        rw [BitVec.toNat_and]
        exact Nat.and_le_right
      have hpos : 0 < st.1.toNat := Nat.pos_of_ne_zero fun h => hne (BitVec.eq_of_toNat_eq h)
      have hsub : (st.1 - 1).toNat < st.1.toNat := by
        rw [BitVec.toNat_sub_of_le (by rw [BitVec.le_def]; exact hpos)]
        exact Nat.sub_lt hpos (by decide)
      exact Nat.lt_of_le_of_lt hle hsub
    · cases h

/-- `write_ack_bitmap`: the length of the body, and the output it is at the front of. -/
def writeAckBitmap (epoch : Nat) (seqs : BitVec 128) (out : Bytes) : Except AckError (Nat × Bytes) := do
  let listLen := countOnes seqs * recordNumberLen
  let total := 2 + listLen
  ensure (total ≤ out.length) .bufferTooSmall
  pure (total, (ackBitmapLoop epoch).run (seqs, 2, overwrite out 0 (toBe 2 listLen)))

def encodeRecordNumber (r : Nat × Nat) : Bytes := toBe 8 r.1 ++ toBe 8 r.2

/-- The entries, from the offset `p` on. -/
def writeAckEntries : List (Nat × Nat) → Nat → Bytes → Bytes
  | [], _, out => out
  | r :: records, p, out =>
      writeAckEntries records (p + recordNumberLen) (overwrite out p (encodeRecordNumber r))

/-- `write_ack`: the length of the body, and the output it is at the front of. -/
def writeAck (records : List (Nat × Nat)) (out : Bytes) : Except AckError (Nat × Bytes) := do
  -- a product that overflowed would exceed the limit as well
  let listLen := records.length * recordNumberLen
  ensure (listLen ≤ 0xFFFF) .tooMany
  let total := 2 + listLen
  ensure (total ≤ out.length) .bufferTooSmall
  pure (total, writeAckEntries records 2 (overwrite out 0 (toBe 2 listLen)))

/-- The iterator over the entries of a body. -/
structure AckRecords where
  entries : Bytes
  pos : Nat

def parseAck (body : Bytes) : Except AckError AckRecords := do
  ensure (2 ≤ body.length) .malformed
  let listLen := ofBe (slice body 0 2)
  ensure (2 + listLen ≤ body.length) .malformed
  let entries := slice body 2 (2 + listLen)
  ensure (entries.length % recordNumberLen = 0) .malformed
  pure ⟨entries, 0⟩

def AckRecords.next (r : AckRecords) : Option ((Nat × Nat) × AckRecords) :=
  if r.pos + recordNumberLen ≤ r.entries.length then
    some ((ofBe (slice r.entries r.pos (r.pos + 8)),
        ofBe (slice r.entries (r.pos + 8) (r.pos + recordNumberLen))),
      { r with pos := r.pos + recordNumberLen })
  else none

def AckRecords.collectLoop : Loop (List (Nat × Nat)) (AckRecords × List (Nat × Nat)) where
  body st :=
    match st.1.next with
    | none => .leave st.2
    | some (record, r) => .again (r, st.2 ++ [record])
  variant st := st.1.entries.length - st.1.pos
  decreases st t h := by
    split at h
    · cases h
    · rename_i hnext
      cases h
      unfold next at hnext
      split at hnext
      · cases hnext
        simp only [recordNumberLen] at *
        omega
      · cases hnext

def AckRecords.collect (r : AckRecords) : List (Nat × Nat) := collectLoop.run (r, [])

/-- The body that acknowledges `records`. -/
def ackBody (records : List (Nat × Nat)) : Bytes :=
  toBe 2 (records.length * recordNumberLen) ++ records.flatMap encodeRecordNumber

theorem encodeRecordNumber_length (r : Nat × Nat) : (encodeRecordNumber r).length = recordNumberLen := by
  simp [encodeRecordNumber, recordNumberLen]

theorem encodeRecordNumbers_length (records : List (Nat × Nat)) :
    (records.flatMap encodeRecordNumber).length = records.length * recordNumberLen := by
  simp [List.length_flatMap, encodeRecordNumber_length]

theorem ackBody_length (records : List (Nat × Nat)) :
    (ackBody records).length = 2 + records.length * recordNumberLen := by
  rw [ackBody, List.length_append, toBe_length, encodeRecordNumbers_length]

theorem writeAckEntries_eq (records : List (Nat × Nat)) {p : Nat}
    (h : p + records.length * recordNumberLen ≤ out.length) :
    writeAckEntries records p out = overwrite out p (records.flatMap encodeRecordNumber) := by
  induction records generalizing p out with
  | nil => rw [writeAckEntries, List.flatMap_nil, overwrite_nil]
  | cons r records ih =>
    rw [List.length_cons, Nat.succ_mul] at h
    have hlen := encodeRecordNumber_length r
    rw [writeAckEntries, ih (by rw [overwrite_length]; omega), ← hlen,
      overwrite_overwrite_append, List.flatMap_cons]
    rw [hlen, encodeRecordNumbers_length]
    omega

/-- Both writers put the same body at the front of the output. -/
theorem writeAckEntries_body (records : List (Nat × Nat))
    (h : (ackBody records).length ≤ out.length) :
    writeAckEntries records 2 (overwrite out 0 (toBe 2 (records.length * recordNumberLen))) =
      ackBody records ++ out.drop (ackBody records).length := by
  have hlen := ackBody_length records
  have htwo : (toBe 2 (records.length * recordNumberLen)).length = 2 := toBe_length _ _
  have happend : overwrite (overwrite out 0 (toBe 2 (records.length * recordNumberLen)))
      (0 + (toBe 2 (records.length * recordNumberLen)).length) (records.flatMap encodeRecordNumber) =
        overwrite out 0 (ackBody records) :=
    overwrite_overwrite_append (by rw [htwo, encodeRecordNumbers_length]; omega)
  rw [htwo, Nat.zero_add] at happend
  rw [writeAckEntries_eq records (by rw [overwrite_length]; omega), happend,
    overwrite_eq (by omega), List.take_zero, List.nil_append, Nat.zero_add]

theorem ackBitmapLoop_run (epoch : Nat) (bits : BitVec 128) (p : Nat) (out : Bytes) :
    (ackBitmapLoop epoch).run (bits, p, out) =
      writeAckEntries ((setBits bits).map fun seq => (epoch, seq)) p out := by
  induction hset : setBits bits generalizing bits p out with
  | nil =>
    have hzero : bits = 0 := by
      by_contra hne
      rw [setBits_of_ne_zero hne] at hset
      cases hset
    exact Loop.run_of_leave (if_neg (not_not_intro hzero))
  | cons seq seqs ih =>
    have hne : bits ≠ 0#128 := by
      rintro rfl
      rw [setBits_zero] at hset
      cases hset
    rw [setBits_of_ne_zero hne] at hset
    injection hset with hseq hrest
    rw [Loop.run_of_again (if_pos hne), ih _ _ _ hrest, hseq]
    rfl

theorem countOnes_eq (seqs : BitVec 128) : countOnes seqs = (setBits seqs).length :=
  List.countP_eq_length_filter

theorem AckRecords.next_append {r : Nat × Nat} (front rest : Bytes) (hepoch : r.1 < 2 ^ 64)
    (hseq : r.2 < 2 ^ 64) :
    AckRecords.next ⟨front ++ encodeRecordNumber r ++ rest, front.length⟩ =
      some (r, ⟨front ++ encodeRecordNumber r ++ rest, (front ++ encodeRecordNumber r).length⟩) := by
  have hlen : (front ++ encodeRecordNumber r).length = front.length + recordNumberLen := by
    rw [List.length_append, encodeRecordNumber_length]
  have hfirst : slice (front ++ encodeRecordNumber r) front.length (front.length + 8) = toBe 8 r.1 := by
    rw [slice, List.drop_left, Nat.add_sub_cancel_left, encodeRecordNumber,
      List.take_left' (toBe_length _ _)]
  have hsecond : slice (front ++ encodeRecordNumber r) (front.length + 8)
      (front.length + recordNumberLen) = toBe 8 r.2 := by
    rw [slice, encodeRecordNumber, ← List.append_assoc, List.drop_left' (by simp),
      List.take_of_length_le (by simp only [toBe_length, recordNumberLen]; omega)]
  have hbounds : front.length + 8 ≤ (front ++ encodeRecordNumber r).length := by
    rw [hlen, recordNumberLen]
    omega
  unfold AckRecords.next
  rw [if_pos (by simp only [List.length_append, encodeRecordNumber_length]; omega),
    slice_append_left hbounds, slice_append_left (Nat.le_of_eq hlen.symm), hfirst, hsecond, ofBe_toBe,
    ofBe_toBe, Nat.mod_eq_of_lt (show r.1 < 256 ^ 8 from hepoch),
    Nat.mod_eq_of_lt (show r.2 < 256 ^ 8 from hseq), hlen]

/-- From the offset of the entries on, the iterator yields them all. -/
theorem collectLoop_run (records : List (Nat × Nat)) (front : Bytes) (acc : List (Nat × Nat))
    (h : ∀ r ∈ records, r.1 < 2 ^ 64 ∧ r.2 < 2 ^ 64) :
    AckRecords.collectLoop.run
      (⟨front ++ records.flatMap encodeRecordNumber, front.length⟩, acc) = acc ++ records := by
  induction records generalizing front acc with
  | nil =>
    rw [List.append_nil]
    exact Loop.run_of_leave (by simp [AckRecords.collectLoop, AckRecords.next, recordNumberLen])
  | cons r records ih =>
    obtain ⟨⟨hepoch, hseq⟩, hrest⟩ := List.forall_mem_cons.mp h
    have hnext := AckRecords.next_append front (records.flatMap encodeRecordNumber) hepoch hseq
    rw [List.flatMap_cons, ← List.append_assoc, Loop.run_of_again
      (by simp only [AckRecords.collectLoop, hnext]; rfl), ih _ _ hrest, List.append_assoc,
      List.singleton_append]

theorem parseAck_ackBody {records : List (Nat × Nat)}
    (hlen : records.length * recordNumberLen ≤ 0xFFFF)
    (h : ∀ r ∈ records, r.1 < 2 ^ 64 ∧ r.2 < 2 ^ 64) :
    (parseAck (ackBody records)).map AckRecords.collect = .ok records := by
  have htwo : (toBe 2 (records.length * recordNumberLen)).length = 2 := toBe_length _ _
  have hbody := ackBody_length records
  have hfront : ofBe (slice (ackBody records) 0 2) = records.length * recordNumberLen := by
    rw [slice, List.drop_zero, ackBody, List.take_left' htwo, ofBe_toBe]
    exact Nat.mod_eq_of_lt (Nat.lt_succ_of_le hlen)
  have hentries : slice (ackBody records) 2 (2 + records.length * recordNumberLen) =
      records.flatMap encodeRecordNumber := by
    rw [slice, ackBody, List.drop_left' htwo, Nat.add_sub_cancel_left]
    exact List.take_of_length_le (Nat.le_of_eq (encodeRecordNumbers_length records))
  rw [map_eq_ok]
  refine ⟨⟨records.flatMap encodeRecordNumber, 0⟩, ?_, collectLoop_run records [] [] h⟩
  simp only [parseAck, bind_eq_ok, ensure_eq_ok, pure_eq_ok, hfront, hentries,
    encodeRecordNumbers_length]
  exact ⟨(), by omega, (), by omega, (), Nat.mul_mod_left _ _, trivial⟩

theorem writeAck_eq {records : List (Nat × Nat)} (hlen : records.length * recordNumberLen ≤ 0xFFFF)
    (hout : (ackBody records).length ≤ out.length) :
    writeAck records out =
      .ok ((ackBody records).length, ackBody records ++ out.drop (ackBody records).length) := by
  simp only [writeAck, bind_eq_ok, ensure_eq_ok, pure_eq_ok, writeAckEntries_body records hout]
  rw [ackBody_length] at hout ⊢
  exact ⟨(), hlen, (), hout, rfl⟩

/-- The ACK of a bitmap is that of the records whose bits are set, lowest first: it fits into every
buffer that is large enough for it, what is behind it in the buffer stays, and it is parsed back to
these records. -/
theorem writeAckBitmap_eq (epoch : UInt64) (seqs : BitVec 128) (out : Bytes) :
    let records := (setBits seqs).map fun seq => (epoch.toNat, seq)
    let total := 2 + 16 * countOnes seqs
    (total ≤ out.length → ∃ written,
        writeAckBitmap epoch.toNat seqs out = .ok (total, written) ∧
        writeAck records out = .ok (total, written) ∧
        written.length = out.length ∧ written.drop total = out.drop total ∧
        (parseAck (written.take total)).map AckRecords.collect = .ok records) ∧
      (out.length < total → writeAckBitmap epoch.toNat seqs out = .error .bufferTooSmall) := by
  intro records total
  have hcount := countOnes_le seqs
  have hrecords : records.length = countOnes seqs := by rw [List.length_map, countOnes_eq]
  have htotal : (ackBody records).length = total := by
    rw [ackBody_length, hrecords, Nat.mul_comm]
    rfl
  have hwrite : writeAckBitmap epoch.toNat seqs out =
      (ensure (total ≤ out.length) .bufferTooSmall >>= fun _ => pure (total,
        writeAckEntries records 2 (overwrite out 0 (toBe 2 (records.length * recordNumberLen))))) := by
    rw [hrecords, ← ackBitmapLoop_run, writeAckBitmap, Nat.mul_comm]
    rfl
  constructor
  · intro hout
    have hlen : records.length * recordNumberLen ≤ 0xFFFF := by
      rw [hrecords, recordNumberLen]
      omega
    have hvalues : ∀ r ∈ records, r.1 < 2 ^ 64 ∧ r.2 < 2 ^ 64 := by
      intro r hr
      obtain ⟨seq, hseq, rfl⟩ := List.mem_map.mp hr
      have hbit : seq < 128 := BitVec.lt_of_getLsbD (mem_setBits.mp hseq)
      exact ⟨epoch.toNat_lt, by dsimp only; omega⟩
    refine ⟨ackBody records ++ out.drop total, ?_, ?_, ?_, ?_, ?_⟩
    · simp only [hwrite, bind_eq_ok, ensure_eq_ok, pure_eq_ok]
      exact ⟨(), hout, by rw [writeAckEntries_body records (by omega), htotal]⟩
    · rw [writeAck_eq hlen (by omega), htotal]
    · rw [List.length_append, List.length_drop]
      omega
    · exact List.drop_left' htotal
    · rw [List.take_left' htotal]
      exact parseAck_ackBody hlen hvalues
  · intro hout
    rw [hwrite, ensure, if_neg (by omega)]
    rfl

end KrabiTls.Dtls
