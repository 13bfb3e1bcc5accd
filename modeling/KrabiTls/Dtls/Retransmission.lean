import KrabiTls.Dtls.Epoch2

/-! Which records of a retransmitted or reordered server flight are opened under their number. -/
namespace KrabiTls.Dtls
open Lib

/-- An epoch-2 record as a server seals it. The content type ends the padding of the inner plaintext,
so it is not zero; an empty connection id is not put into the header. -/
structure FlightRecord (a : AeadBackend) (m : Masker) (k : EpochKeys) (cid : Option Bytes) where
  seq : Nat
  seqLen : SeqNumLen
  contentType : UInt8
  content : Bytes
  wire : Bytes
  seq_lt : seq < 2 ^ 64
  type_ne_zero : contentType ≠ 0
  content_le : content.length ≤ tlsPlaintextMax
  cid_ne_nil : ∀ id ∈ cid, id ≠ []
  sealed : ∃ outLen, k.seal a m ⟨2, seq, seqLen, cid⟩ content contentType outLen = .ok wire

variable {a : AeadBackend} {m : Masker} {k : EpochKeys} {cid : Option Bytes} {ε : Type}

def cidLength (cid : Option Bytes) : Nat := (cid.map List.length).getD 0

namespace FlightRecord

variable {rs : List (FlightRecord a m k cid)} {usizeBits : Nat}
variable {count : Nat}

def wires (rs : List (FlightRecord a m k cid)) : Bytes := rs.flatMap wire

/-- What the client gets from the record if it opens it under its number. -/
def opened (r : FlightRecord a m k cid) : Opened :=
  ⟨2, r.seq, r.contentType, r.content, r.wire.length⟩

/-- The number is less than half the range of the sequence field away from `n`. -/
def Near (r : FlightRecord a m k cid) (n : Nat) : Prop :=
  r.seq < n + 2 ^ (r.seqLen.bits - 1) ∧ n < r.seq + 2 ^ (r.seqLen.bits - 1)

instance (r : FlightRecord a m k cid) (n : Nat) : Decidable (r.Near n) :=
  inferInstanceAs (Decidable (_ ∧ _))

theorem cid_isSome_iff (r : FlightRecord a m k cid) : cid.isSome ↔ cidLength cid > 0 := by
  cases hcid : cid with
  | none => simp [cidLength]
  | some id => simpa [cidLength, List.length_pos_iff] using r.cid_ne_nil id hcid

theorem nextRecord_wire (hcorrect : a.Correct) (r : FlightRecord a m k cid) {hint : Nat}
    (hnear : r.Near hint) (more : Bytes) :
    Epoch2.nextRecord a m k (cidLength cid) hint (r.wire ++ more) = some r.opened := by
  obtain ⟨outLen, hseal⟩ := r.sealed
  obtain ⟨_, ciphertext, tag, sample, _, _, hwire⟩ := EpochKeys.seal_eq_ok hseal
  have hbits : 0 < r.seqLen.bits := by cases r.seqLen <;> decide
  have hopen := EpochKeys.openRecord_seal hcorrect hseal r.type_ne_zero r.content_le rfl
    r.cid_isSome_iff (reconstructSeq_eq hbits r.seq_lt hnear.1 hnear.2) more
  have hcipher : isCiphertextRecord (⟨2, r.seq, r.seqLen, cid⟩ : SealHeader).firstByte = true :=
    decide_eq_true (SealHeader.firstByte_flags _).1
  have hlen : r.wire.length ≠ 0 := by
    rw [hwire]
    simp
  obtain ⟨tail, hcons⟩ : ∃ tail, r.wire ++ more =
      (⟨2, r.seq, r.seqLen, cid⟩ : SealHeader).firstByte :: tail := by
    rw [hwire]
    exact ⟨_, rfl⟩
  change k.openRecord a m (cidLength cid) hint (r.wire ++ more) = _ at hopen
  rw [hcons] at hopen ⊢
  rw [Epoch2.nextRecord, if_pos hcipher, hopen]
  dsimp only
  rw [if_neg hlen]
  rfl

/-- Every record is near the number of records in front of it, copies included, and its number is
one that a `usize` holds. -/
def InReach (usizeBits : Nat) (count : Nat) : List (FlightRecord a m k cid) → Prop
  | [] => True
  | r :: rs => count + 1 < 2 ^ 64 ∧ r.Near count ∧ r.seq < 2 ^ usizeBits ∧ InReach usizeBits (count + 1) rs

instance decInReach (usizeBits : Nat) :
    (count : Nat) → (rs : List (FlightRecord a m k cid)) → Decidable (InReach usizeBits count rs)
  | _, [] => inferInstanceAs (Decidable True)
  | count, _ :: rs =>
      have := decInReach usizeBits (count + 1) rs
      inferInstanceAs (Decidable (_ ∧ _ ∧ _ ∧ _))

theorem inReach_append {more : List (FlightRecord a m k cid)} :
    InReach usizeBits count (rs ++ more) ↔
      InReach usizeBits count rs ∧ InReach usizeBits (count + rs.length) more := by
  induction rs generalizing count with
  | nil => simp [InReach]
  | cons r rs ih =>
    simp only [List.cons_append, InReach, ih, and_assoc, List.length_cons, Nat.add_assoc,
      Nat.add_comm 1]

theorem InReach.count_lt (h : InReach usizeBits count rs) (hcount : count < 2 ^ 64) :
    count + rs.length < 2 ^ 64 := by
  induction rs generalizing count with
  | nil => exact hcount
  | cons r rs ih =>
    have := ih h.2.2.2 h.1
    rw [List.length_cons]
    omega

theorem openedRecords_wires (hcorrect : a.Correct) (hreach : InReach usizeBits count rs) :
    Epoch2.openedRecords a m k (cidLength cid) count (wires rs) = rs.map opened := by
  induction rs generalizing count with
  | nil => rfl
  | cons r rs ih =>
    obtain ⟨hcount, hnear, -, hrest⟩ := hreach
    have hnext := r.nextRecord_wire hcorrect hnear (wires rs)
    have hdrop : (r.wire ++ wires rs).drop r.opened.recordLen = wires rs := List.drop_left
    rw [wires, List.flatMap_cons, ← wires, Epoch2.openedRecords_of_some hnext, hdrop,
      Nat.mod_eq_of_lt hcount, ih hrest, List.map_cons]

end FlightRecord

def onePast (seqs : List Nat) : Nat :=
  seqs.foldr (fun seq n => max n (seq + 1)) 0

namespace Epoch2
open FlightRecord
variable {usizeBits : Nat}

theorem getLsbD_noteAcked (s : Epoch2) {seq i : Nat} (hseq : seq < 2 ^ usizeBits) (hi : i < 128) :
    (s.noteAcked usizeBits seq).acked.getLsbD i = true ↔ s.acked.getLsbD i = true ∨ i = seq := by
  unfold noteAcked maxAckRecords
  rw [Nat.mod_eq_of_lt hseq]
  split
  · rename_i hlow
    have hbit : (1#128 <<< (seq % 128)).getLsbD i = true ↔ i = seq := by
      simp only [BitVec.getLsbD_shiftLeft, BitVec.getLsbD_one, Nat.mod_eq_of_lt hlow]
      simp
      omega
    rw [BitVec.getLsbD_or, Bool.or_eq_true, hbit]
  · simp
    omega

/-- Absorbing records counts them and notes their numbers. -/
theorem absorb_records {rs : List (FlightRecord a m k cid)} {s s' : Epoch2}
    (hreach : InReach usizeBits s.nextSeq rs)
    (h : (rs.map opened).foldlM (absorb (ε := ε) usizeBits) s = .ok s') :
    s'.nextSeq = s.nextSeq + rs.length ∧
      ∀ i < 128, s'.acked.getLsbD i = true ↔ s.acked.getLsbD i = true ∨ i ∈ rs.map FlightRecord.seq := by
  induction rs generalizing s with
  | nil =>
    cases h
    exact ⟨rfl, by simp⟩
  | cons r rs ih =>
    obtain ⟨hcount, -, hsize, hrest⟩ := hreach
    rw [List.map_cons, List.foldlM_cons] at h
    obtain ⟨t, habsorb, h⟩ := bind_eq_ok.mp h
    obtain ⟨hseq, hacked⟩ := absorb_eq_ok habsorb
    rw [Nat.mod_eq_of_lt hcount] at hseq
    obtain ⟨hseq', hacked'⟩ := ih (hseq ▸ hrest) h
    refine ⟨by rw [hseq', hseq, List.length_cons]; omega, ?_⟩
    intro i hi
    have hnoted := getLsbD_noteAcked s (show r.opened.seq < 2 ^ usizeBits from hsize) hi
    rw [hacked' i hi, hacked, hnoted, List.map_cons, List.mem_cons, or_assoc]
    rfl

/-- The records authenticated along a run of datagrams. -/
def openedAll (a : AeadBackend) (m : Masker) (k : EpochKeys) (cidLen hint : Nat) :
    List Bytes → List Opened
  | [] => []
  | d :: ds =>
      let opened := openedRecords a m k cidLen hint d
      opened ++ openedAll a m k cidLen ((hint + opened.length) % 2 ^ 64) ds

/-- Along every run of calls that succeed: a record near one past the highest number authenticated so
far is opened under its number, and the bitmap has the numbers below 128 that were authenticated. -/
structure Survives (usizeBits : Nat) (arena : Bytes) (datagrams : List (List (FlightRecord a m k cid))) :
    Prop where
  opens : ∀ front d back s s', datagrams = front ++ d :: back →
    (start arena).feedAll (ε := Unit) a m usizeBits k (cidLength cid) (front.map wires) = .ok s →
    s.feed (ε := Unit) a m usizeBits k (cidLength cid) (wires d) = .ok s' →
    ∀ pre r post, d = pre ++ r :: post →
      r.Near (onePast ((openedAll a m k (cidLength cid) 0 (front.map wires) ++
        (openedRecords a m k (cidLength cid) s.nextSeq (wires d)).take pre.length).map Opened.seq)) →
      (openedRecords a m k (cidLength cid) s.nextSeq (wires d))[pre.length]? = some r.opened
  acked : ∀ front back s, datagrams = front ++ back →
    (start arena).feedAll (ε := Unit) a m usizeBits k (cidLength cid) (front.map wires) = .ok s →
    ∀ i < 128, s.acked.getLsbD i = true ↔
      i ∈ (openedAll a m k (cidLength cid) 0 (front.map wires)).map Opened.seq

/-- A run over records in reach opens all of them. -/
theorem feedAll_records (hcorrect : a.Correct) {ds : List (List (FlightRecord a m k cid))}
    {s s' : Epoch2} (hreach : InReach usizeBits s.nextSeq ds.flatten) (hlt : s.nextSeq < 2 ^ 64)
    (h : s.feedAll (ε := ε) a m usizeBits k (cidLength cid) (ds.map wires) = .ok s') :
    s'.nextSeq = s.nextSeq + ds.flatten.length ∧
      openedAll a m k (cidLength cid) s.nextSeq (ds.map wires) = ds.flatten.map opened ∧
      ∀ i < 128, s'.acked.getLsbD i = true ↔
        s.acked.getLsbD i = true ∨ i ∈ ds.flatten.map FlightRecord.seq := by
  induction ds generalizing s with
  | nil =>
    cases h
    exact ⟨rfl, rfl, by simp⟩
  | cons d ds ih =>
    rw [List.flatten_cons] at hreach
    obtain ⟨hd, hds⟩ := inReach_append.mp hreach
    have hopened := openedRecords_wires hcorrect hd
    rw [feedAll, List.map_cons, List.foldlM_cons] at h
    obtain ⟨t, hfeed, h⟩ := bind_eq_ok.mp h
    rw [feed_eq, hopened] at hfeed
    obtain ⟨hseq, hacked⟩ := absorb_records hd hfeed
    have hcount := hd.count_lt hlt
    obtain ⟨hseq', hall, hacked'⟩ := ih (hseq ▸ hds) (hseq ▸ hcount) h
    refine ⟨?_, ?_, ?_⟩
    · rw [hseq', hseq, List.flatten_cons, List.length_append, Nat.add_assoc]
    · rw [List.map_cons, openedAll, hopened, List.length_map, Nat.mod_eq_of_lt hcount, ← hseq, hall, List.flatten_cons,
        List.map_append]
    · intro i hi
      rw [hacked' i hi, hacked i hi, List.flatten_cons, List.map_append, List.mem_append, or_assoc]

/-- The flight survives reordering and duplication if every record is near the number of records that
arrived before it. -/
theorem survives_of_inReach (hcorrect : a.Correct) {datagrams : List (List (FlightRecord a m k cid))}
    (hreach : InReach usizeBits 0 datagrams.flatten) (arena : Bytes) :
    Survives usizeBits arena datagrams where
  opens := by
    rintro front d back s s' rfl hfront - pre r post rfl -
    rw [List.flatten_append, List.flatten_cons, inReach_append, inReach_append] at hreach
    obtain ⟨hfrontReach, hd, -⟩ := hreach
    obtain ⟨hseq, -, -⟩ := feedAll_records (s := start arena) hcorrect hfrontReach
      (Nat.two_pow_pos 64) hfront
    have hopened := openedRecords_wires hcorrect hd
    rw [show s.nextSeq = 0 + front.flatten.length from hseq, hopened, List.map_append, List.map_cons,
      List.getElem?_append_right (by simp)]
    simp
  acked := by
    rintro front back s rfl hfront i hi
    rw [List.flatten_append, inReach_append] at hreach
    obtain ⟨-, hall, hacked⟩ :=
      feedAll_records (s := start arena) hcorrect hreach.1 (Nat.two_pow_pos 64) hfront
    rw [hacked i hi, show openedAll a m k (cidLength cid) 0 (front.map wires) = _ from hall]
    simp [start, opened]

end Epoch2

namespace Sample

abbrev EeRecord := FlightRecord AeadBackend.clear DtlsClient.sampleMasker EpochKeys.zeros none

theorem ctHandshake_ne_zero : ctHandshake ≠ 0 := by decide

/-- An `EncryptedExtensions` without a body, in a record with an 8-bit sequence field. -/
def eeRecord (seq : Nat) (hseq : seq < 2 ^ 64) : EeRecord where
  seq := seq
  seqLen := .one
  contentType := ctHandshake
  content := [hsEncryptedExtensions, 0, 0, 0, 0, 1, 0, 0, 0, 0, 0, 0]
  wire := (EpochKeys.zeros.seal AeadBackend.clear DtlsClient.sampleMasker ⟨2, seq, .one, none⟩
    [hsEncryptedExtensions, 0, 0, 0, 0, 1, 0, 0, 0, 0, 0, 0] ctHandshake 64).toOption.getD []
  seq_lt := hseq
  type_ne_zero := ctHandshake_ne_zero
  content_le := by decide
  cid_ne_nil := by simp
  sealed := by
    have hheader : (⟨2, seq, .one, none⟩ : SealHeader).headerLen = 4 := rfl
    obtain ⟨wire, hwire⟩ := (EpochKeys.seal_isOk_iff AeadBackend.clear_total DtlsClient.sampleMasker
      EpochKeys.zeros (by rw [hheader]; decide)
      [hsEncryptedExtensions, 0, 0, 0, 0, 1, 0, 0, 0, 0, 0, 0] ctHandshake 64).mpr
        ⟨by decide, by rw [hheader]; decide⟩
    exact ⟨64, by rw [hwire]; rfl⟩

/-- Three retransmissions of one message, 100 record numbers apart. -/
def sparse : List (List EeRecord) :=
  [[eeRecord 100 (by decide)], [eeRecord 200 (by decide)], [eeRecord 300 (by decide)]]

theorem zero_lt_seq : 0 < 2 ^ 64 := by decide

theorem one_lt_seq : 1 < 2 ^ 64 := by decide

def swapped : List (List EeRecord) :=
  [[eeRecord 1 one_lt_seq, eeRecord 0 zero_lt_seq], [eeRecord 1 one_lt_seq]]

end Sample

namespace Epoch2
open KrabiTls.Dtls.Sample FlightRecord

/-- The third record is 99 past the second, but the hint is 2. -/
theorem not_survives_sparse : ¬ Survives 64 [] sparse := by
  intro hsurvives
  let front : List (List EeRecord) := [[eeRecord 100 (by decide)], [eeRecord 200 (by decide)]]
  cases hfront : (start []).feedAll (ε := Unit) AeadBackend.clear DtlsClient.sampleMasker 64
      EpochKeys.zeros 0 (front.map wires) with
  | error e =>
    have hok : ((start []).feedAll (ε := Unit) AeadBackend.clear DtlsClient.sampleMasker 64
        EpochKeys.zeros 0 (front.map wires)).toBool = true := by decide +kernel
    rw [hfront] at hok
    cases hok
  | ok s =>
    have hseq : some s.nextSeq = some 2 := by
      rw [show some s.nextSeq = (Except.ok s : Except (DtlsClientError Unit) Epoch2).toOption.map nextSeq
        from rfl, ← hfront]
      decide +kernel
    have hnone : openedRecords AeadBackend.clear DtlsClient.sampleMasker EpochKeys.zeros 0 s.nextSeq
        (wires [eeRecord 300 (by decide)]) = [] := by
      rw [Option.some.inj hseq]
      decide +kernel
    have hfeed : s.feed (ε := Unit) AeadBackend.clear DtlsClient.sampleMasker 64 EpochKeys.zeros 0
        (wires [eeRecord 300 (by decide)]) = .ok s := by
      rw [feed_eq, hnone]
      rfl
    have hopened := hsurvives.opens front [eeRecord 300 (by decide)] [] s s rfl hfront hfeed []
      (eeRecord 300 (by decide)) [] rfl (by
        rw [List.length_nil, List.take_zero, List.append_nil]
        decide +kernel)
    change (openedRecords AeadBackend.clear DtlsClient.sampleMasker EpochKeys.zeros 0 s.nextSeq
      (wires [eeRecord 300 (by decide)]))[0]? = _ at hopened
    rw [hnone] at hopened
    cases hopened

theorem survives_swapped : Survives 64 [] swapped := by
  have hreach : InReach 64 0 swapped.flatten := by decide +kernel
  exact survives_of_inReach AeadBackend.clear_correct hreach []

end Epoch2

end KrabiTls.Dtls
