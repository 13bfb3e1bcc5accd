import KrabiTls.Messages
import KrabiTls.Reassembler

/-! The two walks over the server's flight: the one that finds where it ends as records come in, and
the parser of the whole. -/
namespace KrabiTls
open Lib

/-- Messages up to a first `Finished`. -/
inductive FlightMessages : List Message → Prop where
  | finished (fin : Message) (h : fin.msgType = hsFinished) : FlightMessages [fin]
  | cons (m : Message) (msgs : List Message) (h : m.msgType ≠ hsFinished)
      (later : FlightMessages msgs) : FlightMessages (m :: msgs)

theorem FlightMessages.append {front msgs : List Message} (hfront : ∀ m ∈ front, m.msgType ≠ hsFinished)
    (h : FlightMessages msgs) : FlightMessages (front ++ msgs) := by
  induction front with
  | nil => exact h
  | cons m front ih =>
    rw [List.forall_mem_cons] at hfront
    exact .cons m _ hfront.1 (ih hfront.2)

namespace ServerFlightReassembler
variable {n : Nat}

/-- Where the walk ends, there is a `Finished` behind messages of other types. -/
theorem flightEndLoop_eq_some {buf : Bytes} {stop : Nat} (h : flightEndLoop.run (buf, 0) = some stop) :
    ∃ msgs, FlightMessages msgs ∧ buf.take stop = msgs.flatMap Message.encode := by
  revert h
  refine Loop.run_induct (l := flightEndLoop)
    (fun s => ∃ front : List Message, (∀ m ∈ front, m.msgType ≠ hsFinished) ∧
      buf = front.flatMap Message.encode ++ s.1 ∧ s.2 = (front.flatMap Message.encode).length)
    (fun r => r = some stop → _) ?_ ?_ _ ⟨[], by simp, rfl, rfl⟩
  · rintro ⟨rest, off⟩ t ⟨front, hfront, hbuf, hoff⟩ hbody
    dsimp only [flightEndLoop] at hbody hbuf hoff
    split at hbody
    · cases hbody
    · rename_i msg hmsg
      obtain ⟨m, hrest, hmsg⟩ := nextMsg_eq_ok hmsg
      split at hbody
      · cases hbody
      · rename_i htype
        cases hbody
        rw [hmsg] at htype ⊢
        refine ⟨front ++ [m], ?_, ?_, ?_⟩
        · simpa [or_imp, forall_and] using ⟨hfront, htype⟩
        · rw [hbuf, hrest, List.flatMap_append, List.flatMap_singleton, List.append_assoc]
        · rw [hoff, List.flatMap_append, List.flatMap_singleton, List.length_append]
  · rintro ⟨rest, off⟩ r ⟨front, hfront, hbuf, hoff⟩ hbody hr
    dsimp only [flightEndLoop] at hbody hbuf hoff
    split at hbody
    · cases hbody
      cases hr
    · rename_i msg hmsg
      obtain ⟨m, hrest, hmsg⟩ := nextMsg_eq_ok hmsg
      split at hbody
      · rename_i htype
        cases hbody
        cases hr
        rw [hmsg] at htype ⊢
        refine ⟨front ++ [m], (FlightMessages.finished m htype).append hfront, ?_⟩
        rw [hbuf, hrest, hoff, List.flatMap_append, List.flatMap_singleton, ← List.append_assoc]
        exact List.take_left' List.length_append
      · cases hbody

theorem flightBytes_eq_some {r : ServerFlightReassembler n} {bytes : Bytes}
    (h : r.flightBytes = some bytes) :
    ∃ msgs, FlightMessages msgs ∧ bytes = msgs.flatMap Message.encode := by
  obtain ⟨stop, hstop, rfl⟩ := Option.map_eq_some_iff.mp h
  exact flightEndLoop_eq_some hstop

/-- Pushes one after the other, up to the first overflow. -/
def pushAll (r : ServerFlightReassembler n) (chunks : List Bytes) :
    Except ReassemblyError (ServerFlightReassembler n) :=
  chunks.foldlM pushContent r

theorem pushAll_buf {r r' : ServerFlightReassembler n} {chunks : List Bytes}
    (h : r.pushAll chunks = .ok r') : r'.buf = r.buf ++ chunks.flatten := by
  induction chunks generalizing r with
  | nil =>
    cases h
    exact (List.append_nil _).symm
  | cons chunk chunks ih =>
    rw [pushAll, List.foldlM_cons] at h
    obtain ⟨r₁, hpush, h⟩ := bind_eq_ok.mp h
    unfold pushContent at hpush
    split at hpush
    · cases hpush
      rw [ih h, List.flatten_cons, List.append_assoc]
    · cases hpush

end ServerFlightReassembler

theorem expectMsg_encode (expected : UInt8) (m : Message) (rest : Bytes) :
    expectMsg expected (m.encode ++ rest) =
      if m.msgType = expected then .ok ⟨m.msgType, m.body, m.encode, rest⟩
      else .error (.unexpectedHandshakeType expected m.msgType) := by
  rw [expectMsg, nextMsg_encode]
  rfl

def Message.types (msgs : List Message) : List UInt8 :=
  msgs.map Message.msgType

/-- A parse succeeds if `P` holds, and stops at an unexpected message if not. -/
def ParsesIff {α : Type} (x : Except FlightError α) (P : Prop) : Prop :=
  ((∃ v, x = .ok v) ∧ P) ∨ ((∃ expected got, x = .error (.unexpectedHandshakeType expected got)) ∧ ¬ P)

namespace ParsesIff
variable {α : Type} {x : Except FlightError α} {P Q : Prop}

theorem congr (h : ParsesIff x P) (hPQ : P ↔ Q) : ParsesIff x Q := by
  rwa [ParsesIff, ← hPQ]

theorem ok (v : α) (hP : P) : ParsesIff (.ok v) P :=
  .inl ⟨⟨v, rfl⟩, hP⟩

theorem unexpected (expected got : UInt8) (hP : ¬ P) :
    ParsesIff (.error (.unexpectedHandshakeType expected got) : Except FlightError α) P :=
  .inr ⟨⟨expected, got, rfl⟩, hP⟩

end ParsesIff

namespace FlightMessages
variable {α : Type} {msgs : List Message} {P : List UInt8 → Prop}

theorem parse_expect {expected : UInt8} {k : HsMsg → Except FlightError α} (h : FlightMessages msgs)
    (hne : expected ≠ hsFinished)
    (hk : ∀ (m : Message) (later : List Message), FlightMessages later →
      ParsesIff (k ⟨expected, m.body, m.encode, later.flatMap Message.encode⟩)
        (P (Message.types later))) :
    ParsesIff (expectMsg expected (msgs.flatMap Message.encode) >>= k)
      (∃ ts, Message.types msgs = expected :: ts ∧ P ts) := by
  cases h with
  | finished fin hfin =>
    have hother : fin.msgType ≠ expected := by rw [hfin]; exact hne.symm
    rw [List.flatMap_cons, expectMsg_encode, if_neg hother]
    exact .unexpected _ _ (by simp [Message.types, hother])
  | cons m later hm hlater =>
    rw [List.flatMap_cons, expectMsg_encode]
    split
    · rename_i htype
      have hrest := hk m later hlater
      rw [← htype] at hrest
      exact hrest.congr (by simp [Message.types, htype])
    · rename_i htype
      exact .unexpected _ _ (by simp [Message.types, htype])

theorem parse_finished {mk : HsMsg → α} (h : FlightMessages msgs) :
    ParsesIff (expectMsg hsFinished (msgs.flatMap Message.encode) >>= fun fin =>
      if fin.rest ≠ [] then .error .trailingBytes else .ok (mk fin))
      (Message.types msgs = [hsFinished]) := by
  cases h with
  | finished fin hfin =>
    rw [List.flatMap_cons, expectMsg_encode, if_pos hfin]
    exact .ok _ (by simp [Message.types, hfin])
  | cons m later hm hlater =>
    rw [List.flatMap_cons, expectMsg_encode, if_neg hm]
    exact .unexpected _ _ (by simp [Message.types, hm])

theorem parse_certRequest {k : Option Bytes × Bytes → Except FlightError α} (h : FlightMessages msgs)
    (hP : ∀ ts, ¬ P (hsCertificateRequest :: ts))
    (hk : ∀ found later, FlightMessages later →
      ParsesIff (k (found, later.flatMap Message.encode)) (P (Message.types later))) :
    ParsesIff (takeCertRequest (msgs.flatMap Message.encode) >>= k)
      (P (Message.types msgs) ∨
        ∃ ts, Message.types msgs = hsCertificateRequest :: ts ∧ P ts) := by
  have htake (m : Message) (rest : Bytes) : takeCertRequest (m.encode ++ rest) =
      if m.msgType = hsCertificateRequest then .ok (some m.encode, rest)
      else .ok (none, m.encode ++ rest) := by
    rw [takeCertRequest, nextMsg_encode]
    rfl
  cases h with
  | finished fin hfin =>
    have hother : fin.msgType ≠ hsCertificateRequest := by rw [hfin]; decide
    have hrest := hk none [fin] (.finished fin hfin)
    rw [List.flatMap_cons] at hrest ⊢
    rw [htake, if_neg hother]
    exact hrest.congr (by simp [Message.types, hother])
  | cons m later hm hlater =>
    rw [List.flatMap_cons, htake]
    split
    · rename_i htype
      exact (hk (some m.encode) later hlater).congr (by simp [Message.types, htype, hP])
    · rename_i htype
      have hrest := hk none (m :: later) (.cons m later hm hlater)
      rw [List.flatMap_cons] at hrest
      exact hrest.congr (by simp [Message.types, htype])

/-- The types of a flight that is accepted. -/
def Accepted (ts : List UInt8) : Prop :=
  ts = [hsEncryptedExtensions, hsCertificate, hsCertificateVerify, hsFinished] ∨
    ts = [hsEncryptedExtensions, hsCertificateRequest, hsCertificate, hsCertificateVerify, hsFinished]

theorem parse (h : FlightMessages msgs) :
    ParsesIff (parseServerFlight (msgs.flatMap Message.encode)) (Accepted (Message.types msgs)) := by
  refine (h.parse_expect (P := fun ts =>
    ts = [hsCertificate, hsCertificateVerify, hsFinished] ∨
      ∃ ts', ts = hsCertificateRequest :: ts' ∧
        ts' = [hsCertificate, hsCertificateVerify, hsFinished]) (by decide) ?_).congr
    (by simp [Accepted, and_or_left, exists_or])
  intro ee later hlater
  refine hlater.parse_certRequest (P := fun ts =>
    ts = [hsCertificate, hsCertificateVerify, hsFinished]) (by simp; decide) ?_
  intro found later hlater
  refine (hlater.parse_expect (P := fun ts => ts = [hsCertificateVerify, hsFinished]) (by decide)
    ?_).congr (by simp)
  intro cert later hlater
  refine (hlater.parse_expect (P := fun ts => ts = [hsFinished]) (by decide) ?_).congr (by simp)
  intro cv later hlater
  exact hlater.parse_finished

end FlightMessages

namespace ServerFlightReassembler
variable {n : Nat}

/-- However the records cut the flight, its bytes are those through the first `Finished`, later
records do not change them, and the parser only ever stops at a message of a type it does not
expect: what it accepts is covered by the views, byte for byte. -/
theorem reassembled_flight_parses (chunks : List Bytes) (r : ServerFlightReassembler n)
    (hpush : new.pushAll chunks = .ok r) :
    (∀ (n' : Nat) (chunks' : List Bytes) (r' : ServerFlightReassembler n'),
      new.pushAll chunks' = .ok r' → chunks'.flatten = chunks.flatten →
        r'.flightBytes = r.flightBytes) ∧
    ∀ bytes, r.flightBytes = some bytes →
      (∀ later r', r.pushAll later = .ok r' → r'.flightBytes = some bytes) ∧
      ((∃ flight, parseServerFlight bytes = .ok flight) ∨
        ∃ expected got,
          parseServerFlight bytes = .error (.unexpectedHandshakeType expected got)) ∧
      (∃! msgs : List Message, bytes = msgs.flatMap Message.encode) ∧
      (∀ msgs : List Message, bytes = msgs.flatMap Message.encode →
        ((∃ flight, parseServerFlight bytes = .ok flight) ↔
          Message.types msgs = [hsEncryptedExtensions, hsCertificate, hsCertificateVerify, hsFinished] ∨
          Message.types msgs = [hsEncryptedExtensions, hsCertificateRequest, hsCertificate,
            hsCertificateVerify, hsFinished])) ∧
      ∀ flight, parseServerFlight bytes = .ok flight →
        flight.eeFull ++ flight.certRequestFull.getD [] ++ flight.certFull ++ flight.cvFull ++
          flight.finFull = bytes := by
  constructor
  · intro n' chunks' r' hpush' hflatten
    rw [flightBytes, flightBytes, flightEndOffset, flightEndOffset, pushAll_buf hpush,
      pushAll_buf hpush', hflatten]
    rfl
  · intro bytes hbytes
    obtain ⟨msgs, hmsgs, hsplit⟩ := flightBytes_eq_some hbytes
    have hparse := hmsgs.parse
    rw [← hsplit] at hparse
    refine ⟨fun later r' hlater => flightBytes_append hbytes (pushAll_buf hlater), ?_, ?_, ?_, ?_⟩
    · rcases hparse with ⟨hok, -⟩ | ⟨herr, -⟩
      · exact .inl hok
      · exact .inr herr
    · exact ⟨msgs, hsplit, fun msgs' hmsgs' => Message.flatMap_encode_inj (hmsgs'.symm.trans hsplit)⟩
    · intro msgs' hmsgs'
      obtain rfl := Message.flatMap_encode_inj (hmsgs'.symm.trans hsplit)
      rcases hparse with ⟨hok, hacc⟩ | ⟨⟨expected, got, herr⟩, hnot⟩
      · exact ⟨fun _ => hacc, fun _ => hok⟩
      · refine ⟨?_, fun hacc => absurd hacc hnot⟩
        rintro ⟨flight, hok⟩
        rw [herr] at hok
        cases hok
    · intro flight hflight
      exact (parseServerFlight_framed hflight).bytes.symm

/-- Four empty messages in three records, with the start of a ticket behind them. -/
theorem reassembled_split_flight :
    ∃ r : ServerFlightReassembler 32,
      new.pushAll [[8, 0, 0], [0, 11, 0, 0, 0, 15, 0, 0], [0, 20, 0, 0, 0, 4]] = .ok r ∧
      r.flightBytes = some [8, 0, 0, 0, 11, 0, 0, 0, 15, 0, 0, 0, 20, 0, 0, 0] ∧
      ∀ later r', r.pushAll later = .ok r' →
        r'.flightBytes = some [8, 0, 0, 0, 11, 0, 0, 0, 15, 0, 0, 0, 20, 0, 0, 0] := by
  let r : ServerFlightReassembler 32 :=
    ⟨[8, 0, 0, 0, 11, 0, 0, 0, 15, 0, 0, 0, 20, 0, 0, 0, 4], by decide⟩
  have hpush : new.pushAll [[8, 0, 0], [0, 11, 0, 0, 0, 15, 0, 0], [0, 20, 0, 0, 0, 4]] = .ok r := rfl
  have hbytes : r.flightBytes = some [8, 0, 0, 0, 11, 0, 0, 0, 15, 0, 0, 0, 20, 0, 0, 0] := by
    decide +kernel
  exact ⟨r, hpush, hbytes, ((reassembled_flight_parses _ r hpush).2 _ hbytes).1⟩

end ServerFlightReassembler

end KrabiTls
