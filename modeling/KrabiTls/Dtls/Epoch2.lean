import KrabiTls.Dtls.Framing
import KrabiTls.Dtls.Reassembly
import KrabiTls.Dtls.Recv

/-! The epoch-2 records of the server's flight, on their way into the reassembler. -/
namespace KrabiTls.Dtls
open Lib

def maxFlightMsgs : Nat := 8
def maxMsgFrags : Nat := 16
def maxAckRecords : Nat := 128

/-- The variables of `connect` that `feed_epoch2_records` writes: the reassembler with its arena, the
hint for the next record number, and the numbers to acknowledge. -/
structure Epoch2 where
  reasm : Reassembler maxFlightMsgs maxMsgFrags
  arena : Bytes
  nextSeq : Nat
  acked : BitVec 128

variable {ε : Type} (a : AeadBackend) (m : Masker) (usizeBits : Nat) (serverKeys : EpochKeys)
  (cidLen : Nat)

namespace Epoch2

def start (arena : Bytes) : Epoch2 := ⟨.new, arena, 0, 0⟩

/-- The handshake fragment at the front of `content`, and what is behind it. -/
def pushFragment (s : Epoch2) (content : Bytes) : Except (DtlsClientError ε) (Bytes × Epoch2) := do
  let hh ← (HandshakeHeader.parse content).mapError fun _ => .protocol
  let stop := hsHeaderLen + hh.fragmentLength
  ensure (stop ≤ content.length) .protocol
  let (reasm, arena) ← (s.reasm.push s.arena hh.msgType hh.messageSeq hh.length hh.fragmentOffset
    (slice content hsHeaderLen stop)).mapError fun _ => .protocol
  pure (content.drop stop, { s with reasm, arena })

theorem pushFragment_eq_ok {s s' : Epoch2} {content rest : Bytes}
    (h : s.pushFragment (ε := ε) content = .ok (rest, s')) :
    rest.length < content.length ∧ s'.nextSeq = s.nextSeq ∧ s'.acked = s.acked := by
  simp only [pushFragment, bind_eq_ok, mapError_eq_ok, ensure_eq_ok, HandshakeHeader.parse_eq_ok] at h
  obtain ⟨hh, ⟨hlen, -⟩, _, -, _, -, h⟩ := h
  cases h
  refine ⟨?_, rfl, rfl⟩
  rw [List.length_drop, hsHeaderLen]
  omega

/-- The walk over the coalesced fragments of one record. -/
def fragmentLoop : Loop (Except (DtlsClientError ε) Epoch2) (Bytes × Epoch2) where
  body st :=
    if hsHeaderLen ≤ st.1.length then
      match st.2.pushFragment st.1 with
      | .error e => .leave (.error e)
      | .ok st => .again st
    else .leave (.ok st.2)
  variant st := st.1.length
  decreases st t h := by
    split at h
    · split at h
      · cases h
      · rename_i hpush
        cases h
        exact (pushFragment_eq_ok hpush).1
    · cases h

/-- The shift takes its distance modulo the width of the bitmap. -/
def noteAcked (s : Epoch2) (seq : Nat) : Epoch2 :=
  if seq % 2 ^ usizeBits < maxAckRecords then
    { s with acked := s.acked ||| 1#128 <<< (seq % 128) }
  else s

def bumpSeq (s : Epoch2) : Epoch2 := { s with nextSeq := (s.nextSeq + 1) % 2 ^ 64 }

/-- What is done with an authenticated record. -/
def absorb (s : Epoch2) (opened : Opened) : Except (DtlsClientError ε) Epoch2 :=
  let s := s.noteAcked usizeBits opened.seq
  if opened.contentType = ctHandshake then (fragmentLoop.run (opened.content, s)).map bumpSeq
  else .ok s.bumpSeq

/-- The record at the front of `rest`, unless the walk over the datagram ends here. -/
def nextRecord (hint : Nat) (rest : Bytes) : Option Opened :=
  match rest with
  | [] => none
  | first :: _ =>
      if isCiphertextRecord first then
        match serverKeys.openRecord a m cidLen hint rest with
        | .error _ => none
        | .ok opened => if opened.recordLen = 0 then none else some opened
      else none

theorem nextRecord_length {hint : Nat} {rest : Bytes} {opened : Opened}
    (h : nextRecord a m serverKeys cidLen hint rest = some opened) :
    (rest.drop opened.recordLen).length < rest.length := by
  unfold nextRecord at h
  repeat' split at h
  all_goals cases h
  simp only [List.length_drop, List.length_cons]
  omega

def feedLoop : Loop (Except (DtlsClientError ε) Epoch2) (Bytes × Epoch2) where
  body st :=
    match nextRecord a m serverKeys cidLen st.2.nextSeq st.1 with
    | none => .leave (.ok st.2)
    | some opened =>
        match st.2.absorb usizeBits opened with
        | .error e => .leave (.error e)
        | .ok s => .again (st.1.drop opened.recordLen, s)
  variant st := st.1.length
  decreases st t h := by
    split at h
    · cases h
    · rename_i hnext
      split at h
      · cases h
      · cases h
        exact nextRecord_length a m serverKeys cidLen hnext

/-- `feed_epoch2_records`; after an error `connect` returns. -/
def feed (s : Epoch2) (records : Bytes) : Except (DtlsClientError ε) Epoch2 :=
  (feedLoop a m usizeBits serverKeys cidLen).run (records, s)

def feedAll (s : Epoch2) (datagrams : List Bytes) : Except (DtlsClientError ε) Epoch2 :=
  datagrams.foldlM (feed a m usizeBits serverKeys cidLen) s

def openedWithin : (fuel hint : Nat) → Bytes → List Opened
  | 0, _, _ => []
  | fuel + 1, hint, rest =>
      match nextRecord a m serverKeys cidLen hint rest with
      | none => []
      | some opened =>
          opened :: openedWithin fuel ((hint + 1) % 2 ^ 64) (rest.drop opened.recordLen)

/-- The records of a datagram that are authenticated, if the first is opened with `hint`. -/
def openedRecords (hint : Nat) (rest : Bytes) : List Opened :=
  openedWithin a m serverKeys cidLen rest.length hint rest

end Epoch2

namespace Epoch2
variable {a m usizeBits serverKeys cidLen}
variable {hint : Nat} {rest : Bytes}

theorem openedWithin_congr {fuel fuel' : Nat} (h : rest.length ≤ fuel) (h' : rest.length ≤ fuel') :
    openedWithin a m serverKeys cidLen fuel hint rest =
      openedWithin a m serverKeys cidLen fuel' hint rest := by
  induction fuel generalizing fuel' hint rest with
  | zero =>
    have hnil : rest = [] := List.length_eq_zero_iff.mp (by omega)
    subst hnil
    cases fuel' <;> rfl
  | succ fuel ih =>
    cases fuel' with
    | zero =>
      have hnil : rest = [] := List.length_eq_zero_iff.mp (by omega)
      subst hnil
      rfl
    | succ fuel' =>
      unfold openedWithin
      cases hnext : nextRecord a m serverKeys cidLen hint rest with
      | none => rfl
      | some opened =>
        have hlen := nextRecord_length a m serverKeys cidLen hnext
        dsimp only
        rw [ih (by omega) (show _ ≤ fuel' by omega)]

theorem openedRecords_of_none (h : nextRecord a m serverKeys cidLen hint rest = none) :
    openedRecords a m serverKeys cidLen hint rest = [] := by
  unfold openedRecords
  cases rest.length with
  | zero => rfl
  | succ n => rw [openedWithin, h]

theorem openedRecords_of_some {opened : Opened}
    (h : nextRecord a m serverKeys cidLen hint rest = some opened) :
    openedRecords a m serverKeys cidLen hint rest = opened ::
      openedRecords a m serverKeys cidLen ((hint + 1) % 2 ^ 64) (rest.drop opened.recordLen) := by
  have hlen := nextRecord_length a m serverKeys cidLen h
  obtain ⟨n, hn⟩ : ∃ n, rest.length = n + 1 := ⟨rest.length - 1, by omega⟩
  conv => lhs; unfold openedRecords
  rw [hn, openedWithin, h]
  dsimp only
  rw [openedRecords, openedWithin_congr (by omega) (Nat.le_refl _)]

theorem fragmentLoop_run {s s' : Epoch2} {content : Bytes}
    (h : fragmentLoop.run (content, s) = (.ok s' : Except (DtlsClientError ε) Epoch2)) :
    s'.nextSeq = s.nextSeq ∧ s'.acked = s.acked := by
  revert h
  refine Loop.run_induct (l := fragmentLoop) (fun st => st.2.nextSeq = s.nextSeq ∧ st.2.acked = s.acked)
    (fun r => r = .ok s' → s'.nextSeq = s.nextSeq ∧ s'.acked = s.acked) ?_ ?_ _ ⟨rfl, rfl⟩
  · rintro ⟨rest, t⟩ ⟨rest', t'⟩ ⟨hseq, hacked⟩ hbody
    dsimp only [fragmentLoop] at hbody
    split at hbody
    · split at hbody
      · cases hbody
      · rename_i hpush
        cases hbody
        obtain ⟨-, hseq', hacked'⟩ := pushFragment_eq_ok hpush
        exact ⟨hseq'.trans hseq, hacked'.trans hacked⟩
    · cases hbody
  · rintro ⟨rest, t⟩ r hinv hbody hr
    dsimp only [fragmentLoop] at hbody
    split at hbody
    · split at hbody <;> cases hbody
      cases hr
    · cases hbody
      cases hr
      exact hinv

theorem absorb_eq_ok {s s' : Epoch2} {opened : Opened}
    (h : s.absorb (ε := ε) usizeBits opened = .ok s') :
    s'.nextSeq = (s.nextSeq + 1) % 2 ^ 64 ∧ s'.acked = (s.noteAcked usizeBits opened.seq).acked := by
  have hnote : (s.noteAcked usizeBits opened.seq).nextSeq = s.nextSeq := by
    unfold noteAcked
    split <;> rfl
  unfold absorb at h
  dsimp only at h
  split at h
  · obtain ⟨t, hrun, rfl⟩ := map_eq_ok.mp h
    obtain ⟨hseq, hacked⟩ := fragmentLoop_run hrun
    exact ⟨by rw [bumpSeq, hseq, hnote], hacked⟩
  · cases h
    exact ⟨by rw [bumpSeq, hnote], rfl⟩

/-- Feeding a datagram is absorbing the records it opens to, one after the other. -/
theorem feed_eq (s : Epoch2) (records : Bytes) :
    s.feed (ε := ε) a m usizeBits serverKeys cidLen records =
      (openedRecords a m serverKeys cidLen s.nextSeq records).foldlM (absorb usizeBits) s := by
  induction hn : records.length using Nat.strongRecOn generalizing records s with
  | _ n ih =>
    cases hnext : nextRecord a m serverKeys cidLen s.nextSeq records with
    | none =>
      have hleave : (feedLoop (ε := ε) a m usizeBits serverKeys cidLen).body (records, s) =
          .leave (.ok s) := by
        simp only [feedLoop, hnext]
      rw [openedRecords_of_none hnext, feed, Loop.run_of_leave hleave]
      rfl
    | some opened =>
      rw [openedRecords_of_some hnext, List.foldlM_cons]
      cases habsorb : s.absorb (ε := ε) usizeBits opened with
      | error e =>
        have hleave : (feedLoop (ε := ε) a m usizeBits serverKeys cidLen).body (records, s) =
            .leave (.error e) := by
          simp only [feedLoop, hnext, habsorb]
        rw [feed, Loop.run_of_leave hleave]
        rfl
      | ok s' =>
        have hlen := nextRecord_length a m serverKeys cidLen hnext
        have hagain : (feedLoop (ε := ε) a m usizeBits serverKeys cidLen).body (records, s) =
            .again (records.drop opened.recordLen, s') := by
          simp only [feedLoop, hnext, habsorb]
        rw [feed, Loop.run_of_again hagain, ← (absorb_eq_ok habsorb).1]
        exact ih _ (hn ▸ hlen) s' _ rfl

end Epoch2

end KrabiTls.Dtls
