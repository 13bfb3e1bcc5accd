import Mathlib.Data.Prod.Lex
import KrabiTls.Engine.Auth
import KrabiTls.Engine.PostHandshake
import KrabiTls.Engine.Session
import KrabiTls.Lib.Positions
import KrabiTls.Link.Basic

/-! The data phase under an attacker who decides on every byte the engine receives. As long as no
record is forged, the engine opens the records of the server in order and without gaps, whatever else
it is fed, and hands on nothing but their application data. -/
namespace KrabiTls
open Lib

/-- What is in a record. -/
structure RecordContent where
  content : Bytes
  contentType : UInt8
  deriving DecidableEq, Repr

def OpenedRecord.inner (r : OpenedRecord) : RecordContent := ⟨r.content, r.contentType⟩

/-- The application data of the records that a server sends. -/
def appStream (log : List RecordContent) : Bytes :=
  log.flatMap fun r => if r.contentType = ctApplicationData then r.content else []

theorem appContents_eq (opened : List OpenedRecord) :
    Core.appContents opened = appStream (opened.map OpenedRecord.inner) := by
  rw [Core.appContents, appStream, List.flatMap_map]
  rfl

theorem appStream_of_front {front log : List RecordContent} (h : front <+: log) :
    appStream front <+: appStream log := by
  obtain ⟨rest, rfl⟩ := h
  rw [appStream, appStream, List.flatMap_append]
  exact List.prefix_append _ _

/-- The reassembler has taken in `s`, with the key updates `flags`. -/
structure PostHandshakeReasm.Reads (ph : PostHandshakeReasm) (s : List MarkedByte) (flags : List Bool) :
    Prop where
  carried : ph.Carried
  reading : ∀ tail, readPostHandshake (s ++ tail) =
    ⟨flags ++ (ph.resume tail).updates, (ph.resume tail).ending⟩

namespace PostHandshakeReasm
variable {ph ph' : PostHandshakeReasm} {s : List MarkedByte} {flags : List Bool}

theorem reads_nil : Reads {} [] [] where
  carried := carried_empty
  reading tail := by
    rw [resume_empty]
    rfl

theorem Reads.updates (h : ph.Reads s flags) : (readPostHandshake s).updates = flags := by
  have hreading := h.reading []
  rw [List.append_nil, h.carried.resume_nil] at hreading
  rw [hreading, List.append_nil]

theorem Reads.goesOn (h : ph.Reads s flags) {record : Bytes}
    (hfeed : feedLoop.run (ph, record) = (.ok none, ph')) :
    ph'.Reads (s ++ markRecord record) flags := by
  have hwalks := feedLoop_walks h.carried record
  rw [hfeed] at hwalks
  refine ⟨hwalks.1, fun tail => ?_⟩
  rw [List.append_assoc, h.reading]
  exact congrArg (fun r : PostHandshakeReading => (⟨flags ++ r.updates, r.ending⟩ : PostHandshakeReading))
    (hwalks.2 tail)

theorem Reads.update (h : ph.Reads s flags) {record : Bytes} {flag : Bool}
    (hfeed : feedLoop.run (ph, record) = (.ok (some flag), ph')) :
    ph'.Reads (s ++ markRecord record) (flags ++ [flag]) := by
  have hwalks := feedLoop_walks h.carried record
  rw [hfeed] at hwalks
  obtain ⟨rfl, hreading⟩ := hwalks
  refine ⟨carried_empty, fun tail => ?_⟩
  have htail : ph.resume (markRecord record ++ tail) = (readPostHandshake tail).update flag :=
    hreading tail
  rw [List.append_assoc, h.reading, htail, resume_empty, PostHandshakeReading.update,
    List.append_assoc]
  rfl

end PostHandshakeReasm

/-- Where a sender is: the generation of its keys, the number of its next record, and the handshake
bytes it has sent under application keys. -/
structure SendPosition where
  gen : Nat := 0
  seq : Nat := 0
  handshake : List MarkedByte := []

namespace SendPosition

/-- The handshake bytes behind a record. -/
def handshakeWith (s : SendPosition) (r : RecordContent) : List MarkedByte :=
  if r.contentType = ctHandshake then s.handshake ++ markRecord r.content else s.handshake

/-- Every record takes a number. The one that ends with a `KeyUpdate` is the last of its
generation. -/
def next (s : SendPosition) (r : RecordContent) : SendPosition :=
  if s.gen < (readPostHandshake (s.handshakeWith r)).updates.length then
    ⟨(readPostHandshake (s.handshakeWith r)).updates.length, 0, s.handshakeWith r⟩
  else ⟨s.gen, s.seq + 1, s.handshakeWith r⟩

/-- The generation and number of the next record. -/
def pos (s : SendPosition) : Nat ×ₗ Nat := toLex (s.gen, s.seq)

def after (log : List RecordContent) : SendPosition := log.foldl next {}

theorem pos_lt_next (s : SendPosition) (r : RecordContent) : s.pos < (s.next r).pos := by
  rw [pos, pos, Prod.Lex.toLex_lt_toLex, next]
  split
  · rename_i hlt
    exact .inl hlt
  · exact .inr ⟨rfl, Nat.lt_succ_self _⟩

theorem after_append (log : List RecordContent) (r : RecordContent) :
    after (log ++ [r]) = (after log).next r := by
  rw [after, List.foldl_append]
  rfl

/-- No generation has more records than were sent. -/
theorem after_seq_le (log : List RecordContent) : (after log).seq ≤ log.length := by
  induction log using List.reverseRecOn with
  | nil => exact Nat.le_refl 0
  | append_singleton log r ih =>
    rw [after_append, List.length_append, next]
    split
    · exact Nat.zero_le _
    · exact Nat.succ_le_succ ih

end SendPosition

/-- The records of a server, each with its generation and number. -/
def numbered (log : List RecordContent) : List ((Nat ×ₗ Nat) × RecordContent) :=
  placed SendPosition.next SendPosition.pos {} log

/-- The keys of a direction after `n` key updates. -/
def Half.generation (cfg : ClientConfig) (h : Half) : Nat → Except ConnectionError Half
  | 0 => .ok h
  | n + 1 => do
      let h ← h.generation cfg n
      h.rotate cfg

/-- `r` opens under the keys of its generation, with its number. -/
def OpenedRecord.OpensUnder (cfg : ClientConfig) (start : Half) (r : OpenedRecord) : Prop :=
  ∃ half, start.generation cfg r.gen = .ok half ∧
    { half with seq := r.seq }.openRecord cfg r.record = .ok r

namespace Core
variable {cfg : ClientConfig} {sz : Sizes} {c c' : Core cfg sz} {conn conn' : AppData} {start : Half}

/-- The receive direction has the keys and the number with which a sender goes on that has sent
`log`. -/
structure Counts (cfg : ClientConfig) (start : Half) (log : List RecordContent) (half : Half) (ph : PostHandshakeReasm) :
    Prop where
  gen : half.gen = (SendPosition.after log).gen
  seq : half.seq = (SendPosition.after log).seq % 2 ^ 64
  keys : start.generation cfg half.gen = .ok { half with seq := 0 }
  reads : ∃ flags, flags.length = half.gen ∧ ph.Reads (SendPosition.after log).handshake flags

/-- Every record was opened at the position a sender of those before it is at. -/
structure Numbered (start : Half) (c : Core cfg sz) : Prop where
  opened : ∀ front r rest, c.history.opened = front ++ r :: rest →
    r.gen = (SendPosition.after (front.map OpenedRecord.inner)).gen ∧
      r.seq = (SendPosition.after (front.map OpenedRecord.inner)).seq % 2 ^ 64
  opens : ∀ r ∈ c.history.opened, r.OpensUnder cfg start
  phase : c.closed = true ∨ ∃ conn, c.state = .app conn ∧
    Counts cfg start (c.history.opened.map OpenedRecord.inner) (c.recvHalf conn) c.ph

/-- Before the data phase. -/
structure Unopened (c : Core cfg sz) : Prop where
  opened : c.history.opened = []
  recvGen : c.history.recvGen = 0
  ph : c.ph = {}
  not_app : ∀ conn, c.state ≠ .app conn

def Accounted (c : Core cfg sz) : Prop := c.Unopened ∨ ∃ start, c.Numbered start

namespace Counts
variable {log : List RecordContent} {half half' : Half} {ph ph' : PostHandshakeReasm}
  {r : RecordContent} (h : Counts cfg start log half ph)
include h

theorem bump {flags : List Bool} (hlen : flags.length = half.gen)
    (hreads : ph'.Reads ((SendPosition.after log).handshakeWith r) flags) :
    Counts cfg start (log ++ [r]) half.bump ph' := by
  have hsame : (SendPosition.after log).next r =
      ⟨(SendPosition.after log).gen, (SendPosition.after log).seq + 1,
        (SendPosition.after log).handshakeWith r⟩ := by
    rw [SendPosition.next, hreads.updates, hlen, h.gen, if_neg (Nat.lt_irrefl _)]
  have hseq := h.seq
  refine ⟨?_, ?_, h.keys, flags, hlen, ?_⟩
  · rw [SendPosition.after_append, hsame]
    exact h.gen
  · rw [SendPosition.after_append, hsame]
    simp only [Half.bump]
    omega
  · rw [SendPosition.after_append, hsame]
    exact hreads

theorem other (hct : r.contentType ≠ ctHandshake) :
    Counts cfg start (log ++ [r]) half.bump ph := by
  obtain ⟨flags, hlen, hreads⟩ := h.reads
  refine h.bump hlen ?_
  rwa [SendPosition.handshakeWith, if_neg hct]

theorem goesOn (hct : r.contentType = ctHandshake)
    (hfeed : PostHandshakeReasm.feedLoop.run (ph, r.content) = (.ok none, ph')) :
    Counts cfg start (log ++ [r]) half.bump ph' := by
  obtain ⟨flags, hlen, hreads⟩ := h.reads
  refine h.bump hlen ?_
  rw [SendPosition.handshakeWith, if_pos hct]
  exact hreads.goesOn hfeed

theorem update (hct : r.contentType = ctHandshake) {flag : Bool}
    (hfeed : PostHandshakeReasm.feedLoop.run (ph, r.content) = (.ok (some flag), ph'))
    (hrotate : half.rotate cfg = .ok half') :
    Counts cfg start (log ++ [r]) half' ph' := by
  obtain ⟨flags, hlen, hreads⟩ := h.reads
  have hreads' : ph'.Reads ((SendPosition.after log).handshakeWith r) (flags ++ [flag]) := by
    rw [SendPosition.handshakeWith, if_pos hct]
    exact hreads.update hfeed
  have hcount : (flags ++ [flag]).length = half.gen + 1 := by
    rw [List.length_append, hlen, List.length_singleton]
  have hnext : (SendPosition.after log).next r =
      ⟨half.gen + 1, 0, (SendPosition.after log).handshakeWith r⟩ := by
    rw [SendPosition.next, hreads'.updates, hcount, ← h.gen, if_pos (Nat.lt_succ_self _)]
  obtain ⟨secret, keys, hkeys, rfl⟩ := Half.rotate_eq_ok hrotate
  refine ⟨?_, ?_, ?_, flags ++ [flag], hcount, ?_⟩
  · rw [SendPosition.after_append, hnext]
  · rw [SendPosition.after_append, hnext, Nat.zero_mod]
  · -- the rotation does not look at the number
    simp only [Half.generation, h.keys, bind, Except.bind, Half.rotate, hkeys]
    rfl
  · rw [SendPosition.after_append, hnext]
    exact hreads'

end Counts

theorem rotate_of_applyRecvKeyUpdate (c : Core cfg sz)
    (h : conn.applyRecvKeyUpdate cfg = .ok conn') :
    (c.recvHalf conn).rotate cfg = .ok { c.recvHalf conn' with gen := c.history.recvGen + 1 } := by
  obtain ⟨next, keys, hnext, rfl⟩ := AppData.applyRecvKeyUpdate_eq_ok cfg h
  simp only [Half.rotate, recvHalf, hnext]
  rfl

/-- What the engine opens, the receive direction opens. -/
theorem decryptDataRecord_openRecord {record record' content : Bytes} {ct : UInt8}
    (hstate : c.state = .app conn)
    (h : c.decryptDataRecord record = (.ok (content, ct), record', c')) :
    (c.recvHalf conn).openRecord cfg record =
      .ok ⟨c.history.recvGen, conn.seqIn, record, content, ct⟩ := by
  simp only [decryptDataRecord, hstate, AppData.decryptRecordInplace] at h
  simp only [Half.openRecord, recvHalf]
  rcases hdec : conn.sApKeys.decryptRecordInplace cfg.aead record conn.seqIn with ⟨_ | innerLen, buf⟩
  · simp only [hdec] at h
    cases h
  · rcases hsplit : splitInnerPlaintext (slice buf 5 (5 + innerLen)) with _ | ⟨inner, ct'⟩
    · simp only [hdec, hsplit] at h
      cases h
    · simp only [hdec, hsplit] at h
      cases h
      obtain ⟨pad, hinner⟩ := splitInnerPlaintext_eq_ok hsplit
      have hle : inner.length ≤ innerLen := by
        have hlen := congrArg List.length hinner
        rw [slice_length] at hlen
        simp only [List.length_append, List.length_singleton] at hlen
        omega
      have htake : (slice record' 5 (5 + innerLen)).take inner.length =
          slice record' 5 (5 + inner.length) := take_slice (by omega)
      simp only [hsplit]
      rw [← htake, hinner, List.append_assoc, List.take_left' rfl]

theorem ctApplicationData_ne_ctHandshake : ctApplicationData ≠ ctHandshake := by decide

theorem Counts.accepts {log : List RecordContent} {half : Half} {ph : PostHandshakeReasm}
    {content parked : Bytes} {ct : UInt8} (h : Counts cfg start log half ph)
    (haccepts : c.Accepts content ct parked c') (hstate : c.state = .app conn)
    (hbump : c.recvHalf conn = half.bump) (hph : c.ph = ph) :
    c'.closed = true ∨ ∃ conn', c'.state = .app conn' ∧
      Counts cfg start (log ++ [⟨content, ct⟩]) (c'.recvHalf conn') c'.ph := by
  subst hph
  -- the number plays no part in a rotation
  have hrotated {conn' : AppData} (hnext : conn.applyRecvKeyUpdate cfg = .ok conn') :
      half.rotate cfg = .ok { c.recvHalf conn' with gen := c.history.recvGen + 1 } := by
    have hrotate := rotate_of_applyRecvKeyUpdate c hnext
    rw [hbump] at hrotate
    exact hrotate
  cases haccepts with
  | appData hph =>
    refine .inr ⟨conn, hstate, ?_⟩
    rw [hbump]
    exact h.other ctApplicationData_ne_ctHandshake
  | closeNotify hph halert => exact .inl rfl
  | goesOn hfeed =>
    refine .inr ⟨conn, hstate, ?_⟩
    have hgoesOn := h.goesOn (r := ⟨content, ctHandshake⟩) rfl hfeed
    rw [← hbump] at hgoesOn
    exact hgoesOn
  | keyUpdate hfeed hstate' hnext =>
    rw [hstate] at hstate'
    cases hstate'
    exact .inr ⟨_, rfl, h.update (r := ⟨content, ctHandshake⟩) rfl hfeed (hrotated hnext)⟩
  | keyUpdateRequested hfeed hstate' hnext hseal hrotate =>
    rw [hstate] at hstate'
    cases hstate'
    obtain ⟨-, rfl, rfl⟩ := sealRecord_eq_ok _ hseal
    obtain ⟨secret, keys, -, rfl⟩ := AppData.applySendKeyUpdate_eq_ok cfg hrotate
    have hrotated := hrotated hnext
    exact .inr ⟨_, rfl, h.update (r := ⟨content, ctHandshake⟩) rfl hfeed hrotated⟩

namespace Numbered
variable (h : c.Numbered start)
include h

theorem counts (hidle : c.Idle) (hstate : c.state = .app conn) :
    Counts cfg start (c.history.opened.map OpenedRecord.inner) (c.recvHalf conn) c.ph := by
  obtain hclosed | ⟨conn', hstate', hcounts⟩ := h.phase
  · rw [hidle.not_closed] at hclosed
    cases hclosed
  · rw [hstate] at hstate'
    cases hstate'
    exact hcounts

theorem snoc {r : OpenedRecord} (hcounts : Counts cfg start
      (c.history.opened.map OpenedRecord.inner) (c.recvHalf conn) c.ph)
    (hopen : (c.recvHalf conn).openRecord cfg r.record = .ok r)
    (hgen : r.gen = c.history.recvGen) (hseq : r.seq = conn.seqIn) :
    (∀ front x rest, c.history.opened ++ [r] = front ++ x :: rest →
      x.gen = (SendPosition.after (front.map OpenedRecord.inner)).gen ∧
        x.seq = (SendPosition.after (front.map OpenedRecord.inner)).seq % 2 ^ 64) ∧
      ∀ x ∈ c.history.opened ++ [r], x.OpensUnder cfg start := by
  refine ⟨fun front x rest heq => ?_, fun x hx => ?_⟩
  · rcases List.eq_nil_or_concat rest with rfl | ⟨rest', y, rfl⟩
    · obtain ⟨rfl, hlast⟩ := List.append_inj' heq rfl
      cases hlast
      rw [hgen, hseq]
      exact ⟨hcounts.gen, hcounts.seq⟩
    · rw [List.concat_eq_append, ← List.cons_append, ← List.append_assoc] at heq
      exact h.opened front x rest' (List.append_inj' heq rfl).1
  · rcases List.mem_append.mp hx with hold | hnew
    · exact h.opens x hold
    · cases List.mem_singleton.mp hnew
      refine ⟨_, by rw [hgen]; exact hcounts.keys, ?_⟩
      rw [hseq]
      exact hopen

theorem dispatch (hidle : c.Idle) (outerType : UInt8) (record : Bytes) :
    (c.dispatchDataRecord outerType record).core.Numbered start := by
  have hcases := c.dispatchDataRecord_cases outerType record
  generalize c.dispatchDataRecord outerType record = d at hcases ⊢
  rcases hcases with ⟨err, -, -, hcore⟩ | ⟨content, ct, opened, -, hopen, -, hinner⟩
  · rw [hcore]
    exact ⟨h.opened, h.opens, .inl rfl⟩
  · obtain ⟨conn, hstate, hopened⟩ := decryptDataRecord_eq_ok hopen
    have hcounts := h.counts hidle hstate
    have hhalf := decryptDataRecord_openRecord hstate hopen
    obtain ⟨hpositions, hkeys⟩ :=
      h.snoc (r := ⟨c.history.recvGen, conn.seqIn, record, content, ct⟩) hcounts hhalf rfl rfl
    have hkeep : (opened.handleInnerContent content ct).2.history.opened =
        c.history.opened ++ [⟨c.history.recvGen, conn.seqIn, record, content, ct⟩] := by
      rw [handleInnerContent_opened, hopened]
    rcases hinner with ⟨err, -, -, hcore⟩ | ⟨parked, hinner, -⟩
    · rw [hcore]
      exact ⟨hkeep ▸ hpositions, hkeep ▸ hkeys, .inl rfl⟩
    · rw [hinner] at hkeep
      refine ⟨hkeep ▸ hpositions, hkeep ▸ hkeys, ?_⟩
      have haccepts := handleInnerContent_accepts hinner
      rw [hkeep, List.map_append]
      subst hopened
      exact hcounts.accepts haccepts rfl rfl rfl

/-- A step that leaves the opened records and the receive direction alone, or closes the engine. -/
theorem congr (hopened : c'.history.opened = c.history.opened)
    (hphase : c'.closed = true ∨ c'.closed = c.closed ∧ c'.ph = c.ph ∧
      ∀ conn, c.state = .app conn → ∃ conn', c'.state = .app conn' ∧
        c'.recvHalf conn' = c.recvHalf conn) : c'.Numbered start := by
  refine ⟨hopened ▸ h.opened, hopened ▸ h.opens, ?_⟩
  rcases hphase with hclosed | ⟨hclosed, hph, hstate⟩
  · exact .inl hclosed
  · refine h.phase.imp (fun h => hclosed.trans h) ?_
    rintro ⟨conn, happ, hcounts⟩
    obtain ⟨conn', happ', hhalf⟩ := hstate conn happ
    refine ⟨conn', happ', ?_⟩
    rw [hopened, hhalf, hph]
    exact hcounts

theorem app_of_idle (hidle : c.Idle) : ∃ conn, c.state = .app conn := by
  obtain hclosed | ⟨conn, hstate, -⟩ := h.phase
  · rw [hidle.not_closed] at hclosed
    cases hclosed
  · exact ⟨conn, hstate⟩

end Numbered

variable {call : Call cfg}

/-- Only `step` opens records, and nothing opens a closed engine again. -/
theorem Step.opened_eq (hno : call ≠ .step) (hstep : Step call c c') :
    c'.history.opened = c.history.opened ∧ (c.closed = true → c'.closed = true) := by
  cases hstep with
  | serverHello | fed | peerLimit | flightRejected | flightFailed | flightQueued | handshakeDone
    | sealFailed =>
    exact ⟨rfl, id⟩
  | serverHelloFailed | closedEarly | terminal => exact ⟨rfl, fun _ => rfl⟩
  | wrote _ _ hseal =>
    obtain ⟨-, rfl, rfl⟩ := sealRecord_eq_ok _ hseal
    exact ⟨rfl, id⟩
  | closing _ _ hseal =>
    obtain ⟨-, rfl, rfl⟩ := sealRecord_eq_ok _ hseal
    exact ⟨rfl, fun _ => rfl⟩
  | acked =>
    obtain ⟨_, _, _, _, hsent⟩ := c.markSent_eq _
    rw [hsent]
    exact ⟨rfl, id⟩
  | _ => exact absurd rfl hno

theorem Numbered.step (h : c.Numbered start) (hno : call ≠ .step) (hstep : Step call c c') :
    c'.Numbered start := by
  have hopened := (hstep.opened_eq hno).1
  -- the handshake is over
  have hover (hidle : c.Idle) (hstate : ∀ conn, c.state ≠ .app conn) : c'.Numbered start := by
    obtain ⟨conn, happ⟩ := h.app_of_idle hidle
    exact absurd happ (hstate conn)
  cases hstep with
  | serverHello hidle hstate | serverHelloFailed hidle hstate | fed hidle hstate
    | flightRejected hidle hstate => exact hover hidle (by simp [hstate])
  | flightFailed _ hidle haccepted | flightQueued _ hidle haccepted =>
    exact hover hidle (by simp [haccepted.state])
  | peerLimit | handshakeDone | sealFailed =>
    exact h.congr hopened (.inr ⟨rfl, rfl, fun conn happ => ⟨conn, happ, rfl⟩⟩)
  | closedEarly | terminal => exact h.congr hopened (.inl rfl)
  | wrote _ hstate hseal =>
    obtain ⟨-, rfl, rfl⟩ := sealRecord_eq_ok _ hseal
    refine h.congr hopened (.inr ⟨rfl, rfl, fun conn happ => ⟨_, rfl, ?_⟩⟩)
    rw [hstate] at happ
    cases happ
    rfl
  | closing _ _ hseal => exact h.congr hopened (.inl rfl)
  | acked =>
    obtain ⟨_, _, _, _, hsent⟩ := c.markSent_eq _
    rw [hsent] at hopened ⊢
    exact h.congr hopened (.inr ⟨rfl, rfl, fun conn happ => ⟨conn, happ, rfl⟩⟩)
  | _ => exact absurd rfl hno

/-- The application keys are installed with both directions at their first record. -/
theorem Unopened.step (h : c.Unopened) (hno : call ≠ .step) (hstep : Step call c c') :
    c'.Accounted := by
  have hsame (hrecvGen : c'.history.recvGen = c.history.recvGen) (hph : c'.ph = c.ph)
      (hstate : ∀ conn, c'.state ≠ .app conn) : c'.Accounted :=
    .inl ⟨(hstep.opened_eq hno).1.trans h.opened, hrecvGen.trans h.recvGen, hph.trans h.ph, hstate⟩
  cases hstep with
  | serverHello | serverHelloFailed | fed | flightRejected | flightFailed | terminal =>
    exact hsame rfl rfl (by simp [sealedFlight, markTerminal])
  | peerLimit | handshakeDone | closedEarly => exact hsame rfl rfl h.not_app
  | @flightQueued _ _ _ _ _ _ _ app _ _ _ hflight =>
    refine .inr ⟨c.recvHalf app, ?_, ?_, .inr ⟨app, rfl, ?_⟩⟩
    · intro front r rest heq
      simp [sealedFlight, installApp, h.opened] at heq
    · intro r hr
      simp [sealedFlight, installApp, h.opened] at hr
    · obtain ⟨⟨_, happ⟩, -⟩ := clientFlight_eq_ok c hflight
      have hseq := (ServerFlightDone.appKeys_eq_ok cfg happ).2.1
      simp only [sealedFlight, installApp, recvHalf, h.opened, h.recvGen, h.ph, hseq]
      exact ⟨rfl, rfl, rfl, [], rfl, PostHandshakeReasm.reads_nil⟩
  | sealFailed _ hstate | wrote _ hstate | closing _ hstate => exact absurd hstate (h.not_app _)
  | acked =>
    obtain ⟨_, _, _, _, hsent⟩ := c.markSent_eq _
    rw [hsent] at hsame ⊢
    exact hsame rfl rfl h.not_app
  | _ => exact absurd rfl hno

theorem Accounted.step (h : c.Accounted) (hno : call ≠ .step) (hstep : Step call c c') :
    c'.Accounted := by
  rcases h with h | ⟨start, h⟩
  · exact h.step hno hstep
  · exact .inr ⟨start, h.step hno hstep⟩

theorem Accounted.dispatch (h : c.Accounted) (hidle : c.Idle) (outerType : UInt8) (record : Bytes) :
    (c.dispatchDataRecord outerType record).core.Accounted := by
  rcases h with h | ⟨start, h⟩
  · rcases c.dispatchDataRecord_cases outerType record with
      ⟨err, -, -, hcore⟩ | ⟨content, ct, opened, -, hopen, -⟩
    · rw [hcore]
      exact .inl ⟨h.opened, h.recvGen, h.ph, h.not_app⟩
    · obtain ⟨conn, hstate, -⟩ := decryptDataRecord_eq_ok hopen
      exact absurd hstate (h.not_app conn)
  · exact .inr ⟨start, h.dispatch hidle outerType record⟩

/-- `handed` is what the opened records have given the caller. A record that is refused after it was
opened gives nothing, and is the last. -/
structure Handed (handed : Bytes) (c : Core cfg sz) : Prop where
  accounted : c.Accounted
  front : handed <+: appContents c.history.opened
  all : c.closed = false → handed = appContents c.history.opened

theorem Handed.step {handed : Bytes} (h : c.Handed handed) (hno : call ≠ .step)
    (hstep : Step call c c') : c'.Handed handed := by
  obtain ⟨hopened, hclosed⟩ := hstep.opened_eq hno
  refine ⟨h.accounted.step hno hstep, by rw [hopened]; exact h.front, fun hopen => ?_⟩
  rw [hopened]
  refine h.all (Bool.eq_false_iff.mpr fun hc => ?_)
  rw [hclosed hc] at hopen
  cases hopen

theorem dispatchDataRecord_closed {outerType : UInt8} {record : Bytes} {err : HandshakeError}
    (h : (c.dispatchDataRecord outerType record).result = .error err) :
    (c.dispatchDataRecord outerType record).core.closed = true := by
  rcases c.dispatchDataRecord_cases outerType record with
    ⟨_, -, -, hcore⟩ | ⟨_, _, _, -, -, -, ⟨_, -, -, hcore⟩ | ⟨_, -, hok⟩⟩
  · rw [hcore]
    rfl
  · rw [hcore]
    rfl
  · rw [hok] at h
    cases h

/-- A data record hands on what it leaves to read. -/
theorem Handed.dispatch {handed : Bytes} (h : c.Handed handed) (hidle : c.Idle) (outerType : UInt8)
    (record : Bytes) :
    (c.dispatchDataRecord outerType record).core.Handed
      (handed ++ (c.dispatchDataRecord outerType record).result.toOption.getD []) := by
  have haccounted := h.accounted.dispatch hidle outerType record
  have hall := h.all hidle.not_closed
  rcases c.dispatchDataRecord_opened outerType record with
    ⟨content, hok, happ⟩ | ⟨err, herr, happ⟩ | ⟨herr, r, hopened, -⟩
  · rw [hok]
    have hcontent : handed ++ content = _ := hall ▸ happ.symm
    exact ⟨haccounted, hcontent ▸ List.prefix_rfl, fun _ => hcontent⟩
  · rw [herr]
    simp only [Except.toOption, Option.getD_none, List.append_nil]
    exact ⟨haccounted, happ ▸ h.front, fun _ => hall.trans happ.symm⟩
  · have hclosed := dispatchDataRecord_closed herr
    rw [herr]
    simp only [Except.toOption, Option.getD_none, List.append_nil]
    refine ⟨haccounted, ?_, fun hopen => ?_⟩
    · rw [hopened, appContents_append, hall]
      exact List.prefix_append _ _
    · rw [hclosed] at hopen
      cases hopen

end Core

def Output.bytes : Output → Bytes
  | .read data => data
  | _ => []

namespace Engine
variable {cfg : ClientConfig} {sz : Sizes} {e e' : Engine cfg sz} {delivered : Bytes}

def received (e : Engine cfg sz) : List (Call cfg) → Bytes
  | [] => []
  | call :: rest => (e.call call).1.bytes ++ (e.call call).2.received rest

/-- What the caller has read and what is parked for it are what the opened records have given. -/
structure Delivers (delivered : Bytes) (e : Engine cfg sz) : Prop where
  ordered : e.recv.Ordered sz.recv
  handed : e.core.Handed (delivered ++ e.parked)

theorem idleEvent_parked {handshake : Bool} {event : EngineEvent}
    (h : e.idleEvent handshake = some (event, e')) : e'.parked = e.parked := by
  obtain ⟨_, rfl⟩ := idleEvent_eq h
  rfl

theorem stepHandshake_parked (e : Engine cfg sz) (params : ClientParams cfg) :
    (e.stepHandshake params).2.parked = e.parked := by
  refine stepLoop_keeps (fun e' => e'.parked = e.parked) ?_ ?_ ?_ rfl
  · exact fun e₁ event e₂ hinv hevent => (idleEvent_parked hevent).trans hinv
  · intro e₁ hinv hquiet
    rw [← hinv, parked_eq_nil hquiet.not_parked]
    exact parked_eq_nil (compactRecv_parked hquiet.not_parked)
  · intro e₁ stop outerType hinv hquiet _ _
    rw [← hinv, parked_eq_nil hquiet.not_parked]
    exact parked_eq_nil
      ((e₁.dispatchHandshakeRecord_parked params _ stop outerType).trans hquiet.not_parked)

/-- `recv_buffer()` has no room while plaintext is parked. -/
theorem fill_parked (e : Engine cfg sz) (data : Bytes) : (e.fill data).parked = e.parked := by
  cases hparked : e.recv.plaintextParked with
  | false =>
    rw [parked_eq_nil hparked]
    exact parked_eq_nil hparked
  | true =>
    have hroom : e.recvBufferLen = 0 := by simp [recvBufferLen, hparked]
    simp only [parked, fill, hroom, List.take_zero, Block.overwrite, overwrite_nil]

theorem advance_parked (e : Engine cfg sz) (n : Nat) : (e.advance n).2.parked = e.parked := by
  obtain ⟨_, heq, -⟩ := e.advance_eq n
  rw [heq]
  rfl

theorem Delivers.dispatch (e : Engine cfg sz) (stop : Nat) (outerType : UInt8)
    (h : e.Delivers delivered) (hquiet : e.Quiet) (hstart : e.recv.nextRecord + tlsHeader ≤ stop)
    (hstop : stop ≤ e.recv.filled) :
    (e.dispatchDataRecord e.recv.nextRecord stop outerType).2.Delivers delivered := by
  have hhanded := h.handed.dispatch hquiet.idle outerType
    (slice e.recvRecord.val e.recv.nextRecord stop)
  rw [parked_eq_nil hquiet.not_parked, List.append_nil] at hhanded
  cases hres : (e.core.dispatchDataRecord outerType
      (slice e.recvRecord.val e.recv.nextRecord stop)).result with
  | error err =>
    obtain ⟨e', heq, hcore, hord⟩ :=
      dispatchDataRecord_refused h.ordered ((Nat.le_add_right _ _).trans hstart) hstop hres
    have hparked := dispatchDataRecord_eq_error heq
    rw [hquiet.not_parked] at hparked
    rw [hres, ← hcore] at hhanded
    rw [heq]
    refine ⟨hord, ?_⟩
    rw [parked_eq_nil hparked]
    exact hhanded
  | ok content =>
    obtain ⟨e', heq, hcore, hord, -, hparked⟩ :=
      dispatchDataRecord_accepted h.ordered hquiet.not_parked hstart hstop hres
    rw [hres, ← hcore] at hhanded
    rw [heq]
    refine ⟨hord, ?_⟩
    rw [hparked]
    exact hhanded

theorem Delivers.step (h : e.Delivers delivered) : e.step.2.Delivers delivered := by
  refine stepLoop_keeps (Delivers delivered) ?_ ?_ Delivers.dispatch h
  · intro e₁ event e₂ hinv hevent
    rw [idleEvent_data hevent]
    exact hinv
  · intro e₁ hinv hquiet
    have hparked := hquiet.not_parked
    refine ⟨compactRecv_ordered hinv.ordered, ?_⟩
    rw [compactRecv_core, parked_eq_nil (compactRecv_parked hparked), ← parked_eq_nil hparked]
    exact hinv.handed

/-- Every call but `step` and `readApp` leaves what the caller is given as it is. -/
theorem Delivers.other (h : e.Delivers delivered) {call : Call cfg} (hcall : call ≠ .step)
    (hparked : (e.call call).2.parked = e.parked) (hbytes : (e.call call).1.bytes = []) :
    (e.call call).2.Delivers (delivered ++ (e.call call).1.bytes) := by
  refine ⟨call_ordered h.ordered call, ?_⟩
  rw [hparked, hbytes, List.append_nil]
  exact invariant_of_steps (Core.Handed _) (fun _ _ hinv hstep => hinv.step hcall hstep)
    (e.call_steps call) h.handed

theorem Delivers.call (h : e.Delivers delivered) (call : Call cfg) :
    (e.call call).2.Delivers (delivered ++ (e.call call).1.bytes) := by
  cases call with
  | step =>
    have hbytes : (e.call .step).1.bytes = [] := rfl
    rw [hbytes, List.append_nil]
    exact h.step
  | readApp outLen =>
    obtain ⟨hread, hord, -⟩ := readApp_parked h.ordered outLen
    refine ⟨hord, ?_⟩
    have hhanded := h.handed
    rw [← hread, ← List.append_assoc] at hhanded
    exact hhanded
  | stepHandshake params => exact h.other (by simp) (e.stepHandshake_parked params) rfl
  | fill data => exact h.other (by simp) (e.fill_parked data) rfl
  | advance n => exact h.other (by simp) (e.advance_parked n) rfl
  | writeApp | markSent | markTerminal | close => exact h.other (by simp) rfl rfl

theorem Delivers.after (h : e.Delivers delivered) (calls : List (Call cfg)) :
    (e.after calls).Delivers (delivered ++ e.received calls) := by
  induction calls generalizing e delivered with
  | nil =>
    rw [received, List.append_nil]
    exact h
  | cons call rest ih =>
    rw [received, ← List.append_assoc]
    exact ih (h.call call)

theorem delivers_new (first : WaitServerHello cfg) (sendRecord : Block sz.send)
    (recvRecord : Block sz.recv) (ourRecvLimit peerRecvLimit : RecordSizeLimit) :
    (Engine.new sendRecord recvRecord (.waitServerHello first) ourRecvLimit peerRecvLimit).Delivers
      [] where
  ordered := ⟨Nat.le_refl _, Nat.le_refl _, Nat.le_refl _, Nat.zero_le _⟩
  handed := by
    have hnil : (Engine.new sendRecord recvRecord (.waitServerHello first) ourRecvLimit
        peerRecvLimit).parked = [] := parked_eq_nil rfl
    rw [hnil]
    exact ⟨.inl ⟨rfl, rfl, rfl, by simp [Engine.new]⟩, List.prefix_rfl, fun _ => rfl⟩

end Engine

/-- Records that were opened at the positions of a sender, and are among those of `log`, are the
first ones of `log`. -/
theorem Core.Numbered.inner_prefix {cfg : ClientConfig} {sz : Sizes} {c : Core cfg sz} {start : Half}
    (h : c.Numbered start) {log : List RecordContent} (hlog : log.length < 2 ^ 64)
    (hgenuine : ∀ r ∈ c.history.opened, (toLex (r.gen, r.seq), r.inner) ∈ numbered log) :
    c.history.opened.map OpenedRecord.inner <+: log := by
  suffices hpre : (c.history.opened.map fun r => (toLex (r.gen, r.seq), r.inner)).map Prod.snd <+:
      log by
    rw [List.map_map] at hpre
    exact hpre
  refine prefix_of_placed (s := {}) SendPosition.pos_lt_next ?_ ?_
  · intro front x rest heq hfront
    obtain ⟨front', tail, hopened, rfl, htail⟩ := List.map_eq_append_iff.mp heq
    obtain ⟨r, rest', rfl, rfl, -⟩ := List.map_eq_cons_iff.mp htail
    obtain ⟨hgen, hseq⟩ := h.opened front' r rest' hopened
    rw [List.map_map] at hfront ⊢
    -- the number has not wrapped, since the sender is still within `log`
    have hle := SendPosition.after_seq_le (front'.map OpenedRecord.inner)
    have hlen := hfront.length_le
    rw [List.length_map] at hle hlen
    rw [Nat.mod_eq_of_lt (by omega)] at hseq
    show toLex (r.gen, r.seq) = (SendPosition.after (front'.map OpenedRecord.inner)).pos
    rw [hgen, hseq, SendPosition.pos]
  · intro x hx
    obtain ⟨r, hr, rfl⟩ := List.mem_map.mp hx
    exact hgenuine r hr

namespace Engine
variable {cfg : ClientConfig} {sz : Sizes}

/-- Whatever an engine is fed from its first state on, and in whatever order it is called: as long as
no record is forged, that is, every record it opens in the data phase has the content that the server
sealed under those keys with that number, it has opened the first records of the server, each once and
in order, across all key updates; what the caller has read is a front part of the server's application
data, and nothing of the opened records is lost while the engine is not closed. -/
theorem received_prefix_of_genuine (first : WaitServerHello cfg) (sendRecord : Block sz.send)
    (recvRecord : Block sz.recv) (ourRecvLimit peerRecvLimit : RecordSizeLimit)
    (calls : List (Call cfg)) (log : List RecordContent) (hlog : log.length < 2 ^ 64)
    (hgenuine : ∀ r ∈ ((Engine.new sendRecord recvRecord (.waitServerHello first) ourRecvLimit
      peerRecvLimit).after calls).core.history.opened,
      (toLex (r.gen, r.seq), r.inner) ∈ numbered log) :
    let e₀ := Engine.new sendRecord recvRecord (.waitServerHello first) ourRecvLimit peerRecvLimit
    let e := e₀.after calls
    let opened := e.core.history.opened
    (opened ≠ [] → ∃ start, ∀ r ∈ opened, r.OpensUnder cfg start) ∧
      opened.map OpenedRecord.inner <+: log ∧
      e₀.received calls ++ e.parked <+: appStream log ∧
      (e.core.closed = false →
        e₀.received calls ++ e.parked = appStream (opened.map OpenedRecord.inner)) := by
  intro e₀ e opened
  have hdelivers : e.Delivers (e₀.received calls) :=
    (delivers_new first sendRecord recvRecord ourRecvLimit peerRecvLimit).after calls
  have hfront := hdelivers.handed.front
  have hall := hdelivers.handed.all
  rw [appContents_eq] at hfront hall
  rcases hdelivers.handed.accounted with hnone | ⟨start, hnumbered⟩
  · have hnil : opened = [] := hnone.opened
    have hread : e₀.received calls ++ e.parked = [] := by
      rw [hnone.opened] at hfront
      exact List.prefix_nil.mp hfront
    refine ⟨fun hne => absurd hnil hne, ?_, ?_, hall⟩
    · rw [hnil]
      exact List.nil_prefix
    · rw [hread]
      exact List.nil_prefix
  · have hpre := hnumbered.inner_prefix hlog hgenuine
    exact ⟨fun _ => ⟨start, hnumbered.opens⟩, hpre, hfront.trans (appStream_of_front hpre), hall⟩

end Engine

namespace Sample

/-- The records of a server that updates its keys. The last one is never delivered. -/
def integrityLog : List RecordContent :=
  [⟨[1, 2], ctApplicationData⟩, ⟨AppData.keyUpdateMsg false, ctHandshake⟩, ⟨[3, 4], ctApplicationData⟩,
    ⟨[5], ctApplicationData⟩]

theorem numbered_integrityLog : numbered integrityLog =
    [(toLex (0, 0), ⟨[1, 2], ctApplicationData⟩),
      (toLex (0, 1), ⟨AppData.keyUpdateMsg false, ctHandshake⟩),
      (toLex (1, 0), ⟨[3, 4], ctApplicationData⟩), (toLex (1, 1), ⟨[5], ctApplicationData⟩)] := by
  have happ : ctApplicationData ≠ ctHandshake := by decide
  have hnone : readPostHandshake [] = ⟨[], .between⟩ := by simp [readPostHandshake]
  have hlen : ofBe [0, 0, 1] = 1 := by decide
  have htype : hsKeyUpdate ≠ hsNewSessionTicket := by decide
  have hupdate : readPostHandshake (markRecord (AppData.keyUpdateMsg false)) = ⟨[false], .between⟩ := by
    simp [AppData.keyUpdateMsg, markRecord, readPostHandshake, PostHandshakeReading.update, hlen, htype]
  simp [numbered, integrityLog, placed, SendPosition.next, SendPosition.pos,
    SendPosition.handshakeWith, happ, hupdate, hnone]

/-- A handshake, the first two records, the third under the new keys, and the first once more. -/
def integrityCalls : List (Call .sample) :=
  let hello := serverRecord ((engine sizes).after handshake) 0 [1, 2] ctApplicationData
  let update := serverRecord ((engine sizes).after handshake) 1 (AppData.keyUpdateMsg false) ctHandshake
  let begun := handshake ++
    [.fill (hello ++ update), .advance (hello ++ update).length, .step, .readApp 9, .step]
  let more := serverRecord ((engine sizes).after begun) 0 [3, 4] ctApplicationData
  begun ++ [.fill (more ++ hello), .advance (more ++ hello).length, .step, .readApp 9, .step]

end Sample

namespace Engine

theorem received_prefix_of_genuine_replay :
    let e₀ := Sample.engine Sample.sizes
    let e := e₀.after Sample.integrityCalls
    e₀.received Sample.integrityCalls = [1, 2, 3, 4] ∧ e.core.closed = true ∧
      e.core.history.opened.map OpenedRecord.inner <+: Sample.integrityLog := by
  have hopened : ((Sample.engine Sample.sizes).after Sample.integrityCalls).core.history.opened.map
      (fun r => (r.gen, r.seq, r.inner)) =
      [(0, 0, ⟨[1, 2], ctApplicationData⟩), (0, 1, ⟨AppData.keyUpdateMsg false, ctHandshake⟩),
        (1, 0, ⟨[3, 4], ctApplicationData⟩)] := by decide +kernel
  have hpre := received_prefix_of_genuine Sample.conn (Block.zeros Sample.sizes.send)
    (Block.zeros Sample.sizes.recv) (defaultOurRecvLimit Sample.sizes.recv) .default
    Sample.integrityCalls Sample.integrityLog (by decide)
  rw [← Sample.engine_eq Sample.sizes] at hpre
  dsimp only at hpre ⊢
  refine ⟨by decide +kernel, by decide +kernel, (hpre fun r hr => ?_).2.1⟩
  have hmem : (r.gen, r.seq, r.inner) ∈ _ := hopened ▸ List.mem_map_of_mem hr
  rw [Sample.numbered_integrityLog]
  simp only [List.mem_cons, Prod.mk.injEq, List.not_mem_nil, or_false] at hmem
  rcases hmem with ⟨h₁, h₂, h₃⟩ | ⟨h₁, h₂, h₃⟩ | ⟨h₁, h₂, h₃⟩ <;> simp [h₁, h₂, h₃]

end Engine

end KrabiTls
