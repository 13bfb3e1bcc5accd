import KrabiTls.Engine.Basic
import KrabiTls.Lib.Loop

/-! What a call can do to the protocol state, as atomic steps. Every invariant of the engine is
proved step by step and carried over to the calls by `Engine.call_steps`. -/
namespace KrabiTls
open Lib Relation

namespace Core
variable {cfg : ClientConfig} {sz : Sizes}

/-- Nothing to send, not closed: the condition under which a step loop looks at a record. -/
structure Idle (c : Core cfg sz) : Prop where
  not_pending : c.isSendPending = false
  not_closed : c.closed = false

/-- The checks of `finalize_and_finish` up to the verified server flight. -/
structure FlightAccepted (c : Core cfg sz) (params : ClientParams cfg) (conn : WaitServerFlight)
    (accepted : Accepted cfg) (done : ServerFlightDone) : Prop where
  state : c.state = .waitFlight conn
  accept : c.acceptFlight params = .ok accepted
  finalize : conn.finalizeServerFlight cfg c.reassembler accepted.prepared accepted.leafView =
    .ok done

/-- The peer's limit is the one in the flight that is being answered, if that has one. -/
def LimitRead (c : Core cfg sz) : Prop :=
  ∃ found, c.peerLimit = .ok found ∧ c.peerRecvLimit = found.getD c.peerRecvLimit

/-- One step of a call. -/
inductive Step : Call cfg → Core cfg sz → Core cfg sz → Prop where
  | serverHello {c conn record next params} (hidle : c.Idle)
      (hstate : c.state = .waitServerHello conn) (hread : conn.readServerHello record = .ok next) :
      Step (.stepHandshake params) c { c with state := .waitFlight next }
  | serverHelloFailed {c conn params} (hidle : c.Idle) (hstate : c.state = .waitServerHello conn) :
      Step (.stepHandshake params) c { c with state := .closed, closed := true }
  | fed {c conn params} (hidle : c.Idle) (hstate : c.state = .waitFlight conn) (record : Bytes) :
      Step (.stepHandshake params) c { c with
        state := .waitFlight (conn.feedServerRecordInplace cfg record c.reassembler).conn
        reassembler := (conn.feedServerRecordInplace cfg record c.reassembler).reassembler }
  | peerLimit {c params} {found : Option RecordSizeLimit} (hidle : c.Idle) (limit : RecordSizeLimit)
      (hfound : c.peerLimit = .ok found) (hlimit : limit = found.getD c.peerRecvLimit) :
      Step (.stepHandshake params) c { c with peerRecvLimit := limit }
  | flightRejected {c conn params} (hidle : c.Idle) (hstate : c.state = .waitFlight conn) :
      Step (.stepHandshake params) c { c with state := .closed }
  | flightFailed {c params conn accepted done n} (scratch : Block n) (hidle : c.Idle)
      (haccepted : c.FlightAccepted params conn accepted done) (hlimit : c.LimitRead) :
      Step (.stepHandshake params) c ({ c with state := .closed }.sealedFlight
        (c.clientFlight params accepted.certRequest done scratch).1)
  | flightQueued {c params conn accepted done n record app} (scratch : Block n) (hidle : c.Idle)
      (haccepted : c.FlightAccepted params conn accepted done)
      (hflight : (c.clientFlight params accepted.certRequest done scratch).1.result =
        .ok (record, app)) (hlimit : c.LimitRead) :
      Step (.stepHandshake params) c (({ c with state := .closed }.sealedFlight
        (c.clientFlight params accepted.certRequest done scratch).1).installApp record.length app
          (accepted.auth params conn))
  | handshakeDone {c params} (hpending : c.isSendPending = false)
      (hdone : c.pendingHandshakeDone = true) (hacked : c.handshakeFinishedPendingAck = false) :
      Step (.stepHandshake params) c { c with pendingHandshakeDone := false }
  | opened {c conn} (hidle : c.Idle) (hstate : c.state = .app conn) (record content : Bytes)
      (ct : UInt8) :
      Step .step c { c with
        state := .app { conn with seqIn := (conn.seqIn + 1) % 2 ^ 64 }
        history.opened := c.history.opened ++
          [⟨c.history.recvGen, conn.seqIn, record, content, ct⟩] }
  | closeNotify {c} {r : OpenedRecord} {rest : Bytes} (hidle : c.Idle)
      (hlast : r ∈ c.history.opened) (hct : r.contentType = ctAlert)
      (halert : r.content = 1 :: 0 :: rest) : Step .step c { c with closed := true }
  | rejected {c} (e : HandshakeError) : Step .step c (c.reject e)
  | postHandshake {c} (hidle : c.Idle) (ph : PostHandshakeReasm) : Step .step c { c with ph }
  | rotatedRecv {c conn conn'} (hidle : c.Idle) (hstate : c.state = .app conn)
      (hnext : conn.applyRecvKeyUpdate cfg = .ok conn') : Step .step c (c.rotatedRecv conn')
  | sealFailed {call c conn} (hidle : c.Idle) (hstate : c.state = .app conn) (dirty : Bytes) :
      Step call c { c with sendRecord := c.sendRecord.overwrite 0 dirty }
  | answerFailed {c conn record conn' c'} (hidle : c.Idle) (hstate : c.state = .app conn)
      (hseal : c.sealRecord conn (AppData.keyUpdateMsg false) ctHandshake =
        (.ok (record, conn'), c')) : Step .step c c'
  | answered {c conn record conn' conn'' c'} (hidle : c.Idle) (hstate : c.state = .app conn)
      (hseal : c.sealRecord conn (AppData.keyUpdateMsg false) ctHandshake =
        (.ok (record, conn'), c')) (hnext : conn'.applySendKeyUpdate cfg = .ok conn'') :
      Step .step c ((c'.rotatedSend conn'').queue record)
  | wrote {c conn content record conn' c' plaintext} (hidle : c.Idle) (hstate : c.state = .app conn)
      (hseal : c.sealRecord conn content ctApplicationData = (.ok (record, conn'), c'))
      (hcontent : content.length ≤ c.sendChunkLimit) :
      Step (.writeApp plaintext) c (c'.queue record)
  | closing {c conn record conn' c'} (hidle : c.Idle) (hstate : c.state = .app conn)
      (hseal : c.sealRecord conn closeNotifyAlert ctAlert = (.ok (record, conn'), c')) :
      Step .close c { c'.queue record with closed := true }
  | closedEarly {c} (hidle : c.Idle) (hstate : ∀ conn, c.state ≠ .app conn) :
      Step .close c { c with closed := true }
  | acked {c n} (hle : c.sendAcked + n ≤ c.sendPendingLen) : Step (.markSent n) c (c.markSent n).2
  | terminal {c} : Step .markTerminal c c.markTerminal

abbrev Steps (call : Call cfg) : Core cfg sz → Core cfg sz → Prop := ReflTransGen (Step call)

variable {call : Call cfg} {c : Core cfg sz}

theorem handleServerHello_steps (hidle : c.Idle) (params : ClientParams cfg)
    (outerType : UInt8) (record : Bytes) :
    Steps (.stepHandshake params) c (c.handleServerHello outerType record).2 := by
  unfold handleServerHello
  split
  · exact .refl
  · split
    · rename_i conn hstate
      split
      · exact .single (.serverHelloFailed hidle hstate)
      · rename_i next hread
        exact .single (.serverHello hidle hstate hread)
    · exact .refl

theorem feedFlightRecord_steps (hidle : c.Idle) (params : ClientParams cfg) (record : Bytes) :
    Steps (.stepHandshake params) c (c.feedFlightRecord record).2.2 := by
  unfold feedFlightRecord
  split
  · exact .refl
  · split
    · rename_i conn hstate
      exact .single (.fed hidle hstate record)
    · exact .refl

theorem feedFlightRecord_idle (hidle : c.Idle) (record : Bytes) :
    (c.feedFlightRecord record).2.2.Idle := by
  unfold feedFlightRecord
  split
  · exact hidle
  · split
    · exact ⟨hidle.not_pending, hidle.not_closed⟩
    · exact hidle

theorem finishFlight_steps (hidle : c.Idle) (params : ClientParams cfg) (hlimit : c.LimitRead) {n : Nat}
    (scratch : Block n) : Steps (.stepHandshake params) c (c.finishFlight params scratch).2.2 := by
  unfold finishFlight
  split
  · exact .refl
  · rename_i accepted haccept
    split
    · rename_i conn hstate
      split
      · exact .single (.flightRejected hidle hstate)
      · rename_i done hfinal
        have haccepted : c.FlightAccepted params conn accepted done := ⟨hstate, haccept, hfinal⟩
        dsimp only
        split
        · exact .single (.flightFailed scratch hidle haccepted hlimit)
        · rename_i record app hflight
          exact .single (.flightQueued scratch hidle haccepted hflight hlimit)
    · exact .refl

theorem finalizeAndFinish_steps (hidle : c.Idle) (params : ClientParams cfg) {n : Nat}
    (scratch : Block n) : Steps (.stepHandshake params) c (c.finalizeAndFinish params scratch).2.2 := by
  unfold finalizeAndFinish
  split
  · exact .refl
  · rename_i found hfound
    have hidle' : Idle { c with peerRecvLimit := found.getD c.peerRecvLimit } :=
      ⟨hidle.not_pending, hidle.not_closed⟩
    have hlimit : LimitRead { c with peerRecvLimit := found.getD c.peerRecvLimit } :=
      ⟨found, hfound, by cases found <;> rfl⟩
    exact .head (.peerLimit hidle _ hfound rfl) (finishFlight_steps hidle' params hlimit scratch)

theorem answerKeyUpdate_steps {conn : AppData} (hidle : c.Idle) (hstate : c.state = .app conn) :
    Steps .step c (c.answerKeyUpdate conn).2 := by
  rw [answerKeyUpdate_eq]
  split
  · rename_i hseal
    obtain ⟨dirty, hdirty⟩ := sealRecord_eq_error c hseal
    exact hdirty ▸ .single (.sealFailed hidle hstate dirty)
  · rename_i hseal
    split
    · exact .single (.answerFailed hidle hstate hseal)
    · rename_i hnext
      exact .single (.answered hidle hstate hseal hnext)

theorem processKeyUpdate_steps (hidle : c.Idle) (updateRequested : Bool) :
    Steps .step c (c.processKeyUpdate updateRequested).2 := by
  unfold processKeyUpdate
  split
  · rename_i conn hstate
    split
    · exact .refl
    · rename_i conn' hnext
      refine .head (.rotatedRecv hidle hstate hnext) ?_
      dsimp only
      split
      · exact .refl
      · exact answerKeyUpdate_steps ⟨hidle.not_pending, hidle.not_closed⟩ rfl
  · exact .refl

theorem feedPostHandshake_steps (hidle : c.Idle) (content : Bytes) :
    Steps .step c (c.feedPostHandshake content).2 := by
  unfold feedPostHandshake
  dsimp only
  refine .head (.postHandshake hidle (PostHandshakeReasm.feedLoop.run (c.ph, content)).2) ?_
  split
  · exact .refl
  · exact .refl
  · have hidle' : Idle { c with ph := (PostHandshakeReasm.feedLoop.run (c.ph, content)).2 } :=
      ⟨hidle.not_pending, hidle.not_closed⟩
    exact processKeyUpdate_steps hidle' _

theorem handleInnerContent_steps (hidle : c.Idle) {r : OpenedRecord}
    (hr : r ∈ c.history.opened) : Steps .step c (c.handleInnerContent r.content r.contentType).2 := by
  unfold handleInnerContent
  split
  · exact .refl
  · split
    · exact .refl
    · split
      · rename_i hct
        split
        · rename_i level description rest halert
          split
          · rename_i hnotify
            obtain ⟨rfl, rfl⟩ := hnotify
            exact .single (.closeNotify hidle hr hct halert)
          · exact .refl
        · exact .refl
      · split
        · exact feedPostHandshake_steps hidle r.content
        · exact .refl

/-- An opened record leaves the connection one receive number further and is noted. -/
theorem decryptDataRecord_eq_ok {record record' content : Bytes} {ct : UInt8} {c' : Core cfg sz}
    (h : c.decryptDataRecord record = (.ok (content, ct), record', c')) :
    ∃ conn, c.state = .app conn ∧
      c' = { c with
        state := .app { conn with seqIn := (conn.seqIn + 1) % 2 ^ 64 }
        history.opened := c.history.opened ++
          [⟨c.history.recvGen, conn.seqIn, record, content, ct⟩] } := by
  unfold decryptDataRecord at h
  split at h
  · rename_i conn hstate
    refine ⟨conn, hstate, ?_⟩
    split at h
    · cases h
    · rename_i contentLen ct' record'' conn' hopen
      have hconn : conn' = { conn with seqIn := (conn.seqIn + 1) % 2 ^ 64 } := by
        unfold AppData.decryptRecordInplace at hopen
        dsimp only at hopen
        split at hopen
        · cases hopen
        · split at hopen <;> cases hopen
          rfl
      cases h
      rw [hconn]
  · cases h

theorem dispatchDataRecord_steps (hidle : c.Idle) (outerType : UInt8) (record : Bytes) :
    Steps .step c (c.dispatchDataRecord outerType record).core := by
  rcases c.dispatchDataRecord_cases outerType record with
    ⟨err, -, -, hcore⟩ | ⟨content, ct, opened, -, hopen, -, hinner⟩
  · rw [hcore]
    exact .single (.rejected err)
  · obtain ⟨conn, hstate, hopened⟩ := decryptDataRecord_eq_ok hopen
    have hsteps : Steps .step c (opened.handleInnerContent content ct).2 := by
      rw [hopened]
      refine .head (.opened hidle hstate record content ct) ?_
      refine handleInnerContent_steps (r := ⟨c.history.recvGen, conn.seqIn, record, content, ct⟩) ?_ ?_
      · exact ⟨hidle.not_pending, hidle.not_closed⟩
      · exact List.mem_concat_self
    rcases hinner with ⟨err, -, -, hcore⟩ | ⟨parked, hok, -⟩
    · rw [hcore]
      exact hsteps.tail (.rejected err)
    · rw [hok] at hsteps
      exact hsteps

theorem writeApp_steps (plaintext : Bytes) : Steps (.writeApp plaintext) c (c.writeApp plaintext).2 := by
  unfold writeApp
  split
  · exact .refl
  · rename_i hclosed
    split
    · exact .refl
    · rename_i hpending
      have hidle : c.Idle := ⟨by simpa using hpending, by simpa using hclosed⟩
      split
      · rename_i conn hstate
        dsimp only
        split
        · exact .refl
        · split
          · rename_i hseal
            obtain ⟨dirty, hdirty⟩ := sealRecord_eq_error c hseal
            exact hdirty ▸ .single (.sealFailed hidle hstate dirty)
          · rename_i hseal
            exact .single (.wrote hidle hstate hseal (by simp))
      · exact .refl

theorem markSent_steps (n : Nat) : Steps (.markSent n) c (c.markSent n).2 := by
  by_cases h : c.sendAcked + n ≤ c.sendPendingLen
  · exact .single (.acked h)
  · rw [markSent, if_pos (by omega)]

theorem close_steps : Steps .close c c.close.2 := by
  unfold close
  split
  · exact .refl
  · rename_i hclosed
    split
    · exact .refl
    · rename_i hpending
      have hidle : c.Idle := ⟨by simpa using hpending, by simpa using hclosed⟩
      split
      · rename_i conn hstate
        split
        · rename_i hseal
          obtain ⟨dirty, hdirty⟩ := sealRecord_eq_error c hseal
          exact hdirty ▸ .single (.sealFailed hidle hstate dirty)
        · rename_i hseal
          exact .single (.closing hidle hstate hseal)
      · rename_i hstate
        exact .single (.closedEarly hidle hstate)

end Core

namespace Engine
variable {cfg : ClientConfig} {sz : Sizes} {call : Call cfg}

/-- What holds when a step loop turns to the receive buffer. -/
structure Quiet (e : Engine cfg sz) : Prop where
  idle : e.core.Idle
  not_parked : e.recv.plaintextParked = false

theorem quiet_of_idleEvent {e : Engine cfg sz} {handshake : Bool}
    (h : e.idleEvent handshake = none) : e.Quiet := by
  unfold idleEvent at h
  split at h
  · cases h
  · split at h
    · cases h
    · split at h
      · cases h
      · split at h
        · cases h
        · simp_all only [Bool.not_eq_true]
          exact ⟨⟨by assumption, by assumption⟩, by assumption⟩

theorem frameOneRecord_cases (e : Engine cfg sz) (hparked : e.recv.plaintextParked = false) :
    e.frameOneRecord = (.ok .need, e.compactRecv) ∨
    (∃ got, got > sz.recv - tlsHeader ∧
      got = ofBe (slice e.recvRecord.val (e.recv.nextRecord + 3) (e.recv.nextRecord + 5)) ∧
      tlsHeader ≤ e.recv.filled - e.recv.nextRecord ∧
      e.frameOneRecord = (.error (.recordTooLarge e.core.ourRecvLimit got), e)) ∨
    ∃ stop outerType, e.frameOneRecord = (.ok (.record e.recv.nextRecord stop outerType), e) := by
  unfold frameOneRecord
  rw [hparked]
  dsimp only
  split
  · contradiction
  · split
    · exact .inl rfl
    · split
      · exact .inr (.inl ⟨_, by assumption, rfl, by omega, rfl⟩)
      · split
        · exact .inl rfl
        · exact .inr (.inr ⟨_, _, rfl⟩)

section StepLoop
variable {handshake : Bool} {dispatch : Dispatch cfg sz} {hd : Consumes dispatch}

/-- The rule of the step loops: what holds before the first record and is kept by every record
handled holds where the loop is left. -/
theorem stepLoop_rule (inv : Engine cfg sz → Prop)
    (post : Except HandshakeError EngineEvent × Engine cfg sz → Prop)
    (hevent : ∀ e event e', inv e → e.idleEvent handshake = some (event, e') → post (.ok event, e'))
    (hneed : ∀ e, inv e → e.idleEvent handshake = none →
      e.frameOneRecord = (.ok .need, e.compactRecv) → post (.ok .recv, e.compactRecv))
    (hframe : ∀ e err, inv e → e.idleEvent handshake = none →
      e.frameOneRecord = (.error err, e) → post (.error err, e))
    (hfail : ∀ e start stop outerType err e', inv e → e.idleEvent handshake = none →
      e.frameOneRecord = (.ok (.record start stop outerType), e) →
      dispatch e start stop outerType = (.error err, e') → post (.error err, e'))
    (hagain : ∀ e start stop outerType e', inv e → e.idleEvent handshake = none →
      e.frameOneRecord = (.ok (.record start stop outerType), e) →
      dispatch e start stop outerType = (.ok (), e') → inv e')
    (e : Engine cfg sz) (he : inv e) : post ((stepLoop handshake dispatch hd).run e) := by
  refine Loop.run_induct inv post ?_ ?_ e he
  · intro e e' hinv hbody
    dsimp only [stepLoop] at hbody
    split at hbody
    · cases hbody
    · rename_i hidle
      split at hbody
      · cases hbody
      · cases hbody
      · rename_i hf
        obtain ⟨rfl, -⟩ := frameOneRecord_eq_record hf
        split at hbody
        · cases hbody
        · rename_i hok
          cases hbody
          exact hagain _ _ _ _ _ hinv hidle hf hok
  · intro e r hinv hbody
    dsimp only [stepLoop] at hbody
    split at hbody
    · rename_i hidle
      cases hbody
      exact hevent _ _ _ hinv hidle
    · rename_i hidle
      have hquiet := quiet_of_idleEvent hidle
      rcases e.frameOneRecord_cases hquiet.not_parked with hf | ⟨got, -, -, -, hf⟩ | ⟨stop, t, hf⟩
      · rw [hf] at hbody
        cases hbody
        exact hneed _ hinv hidle hf
      · rw [hf] at hbody
        cases hbody
        exact hframe _ _ hinv hidle hf
      · rw [hf] at hbody
        dsimp only at hbody
        split at hbody
        · rename_i herr
          cases hbody
          exact hfail _ _ _ _ _ _ hinv hidle hf herr
        · cases hbody

/-- What every part of a step loop keeps, the loop keeps. -/
theorem stepLoop_keeps (inv : Engine cfg sz → Prop)
    (hevent : ∀ e event e', inv e → e.idleEvent handshake = some (event, e') → inv e')
    (hneed : ∀ e, inv e → e.Quiet → inv e.compactRecv)
    (hdispatch : ∀ e stop outerType, inv e → e.Quiet → e.recv.nextRecord + tlsHeader ≤ stop →
      stop ≤ e.recv.filled → inv (dispatch e e.recv.nextRecord stop outerType).2)
    {e : Engine cfg sz} (he : inv e) : inv ((stepLoop handshake dispatch hd).run e).2 := by
  have hrecord (e : Engine cfg sz) (start stop : Nat) (outerType : UInt8) (hinv : inv e)
      (hidle : e.idleEvent handshake = none)
      (hf : e.frameOneRecord = (.ok (.record start stop outerType), e)) :
      inv (dispatch e start stop outerType).2 := by
    obtain ⟨-, rfl, hstart, hstop, -⟩ := frameOneRecord_eq_record hf
    exact hdispatch e stop outerType hinv (quiet_of_idleEvent hidle) hstart hstop
  refine stepLoop_rule inv (fun r => inv r.2) hevent ?_ ?_ ?_ ?_ e he
  · exact fun e hinv hidle _ => hneed e hinv (quiet_of_idleEvent hidle)
  · exact fun e err hinv _ _ => hinv
  · intro e start stop outerType err e' hinv hidle hf herr
    have := hrecord e start stop outerType hinv hidle hf
    rwa [herr] at this
  · intro e start stop outerType e' hinv hidle hf hok
    have := hrecord e start stop outerType hinv hidle hf
    rwa [hok] at this

end StepLoop

variable {e e' : Engine cfg sz} {event : EngineEvent} {handshake : Bool}

@[simp] theorem compactRecv_core (e : Engine cfg sz) : e.compactRecv.core = e.core := by
  unfold compactRecv
  split <;> rfl

theorem compactRecv_parked (h : e.recv.plaintextParked = false) :
    e.compactRecv.recv.plaintextParked = false := by
  unfold compactRecv
  split
  · exact h
  · rfl

theorem idleEvent_eq (h : e.idleEvent handshake = some (event, e')) :
    ∃ done, e' = { e with core.pendingHandshakeDone := done } := by
  unfold idleEvent at h
  repeat' split at h
  all_goals cases h
  all_goals exact ⟨_, rfl⟩

theorem idleEvent_recv (h : e.idleEvent handshake = some (event, e')) : e'.recv = e.recv := by
  obtain ⟨_, rfl⟩ := idleEvent_eq h
  rfl

/-- The data phase has no event of its own to take back. -/
theorem idleEvent_data (h : e.idleEvent false = some (event, e')) : e' = e := by
  unfold idleEvent at h
  repeat' split at h
  all_goals cases h
  all_goals first | rfl | simp_all

theorem idleEvent_steps (hcall : handshake = true → ∃ params, call = .stepHandshake params)
    (h : e.idleEvent handshake = some (event, e')) : Core.Steps call e.core e'.core := by
  unfold idleEvent at h
  split at h
  · cases h; exact .refl
  · rename_i hpending
    split at h
    · rename_i hdone
      cases h
      obtain ⟨params, rfl⟩ := hcall hdone.1
      exact .single (.handshakeDone (by simpa using hpending) hdone.2.1 (by simpa using hdone.2.2))
    · split at h
      · cases h; exact .refl
      · split at h
        · cases h; exact .refl
        · cases h

theorem stepLoop_steps {dispatch : Dispatch cfg sz} {hd : Consumes dispatch}
    (hcall : handshake = true → ∃ params, call = .stepHandshake params)
    (hdispatch : ∀ e start stop outerType, e.Quiet →
      Core.Steps call e.core (dispatch e start stop outerType).2.core) (e : Engine cfg sz) :
    Core.Steps call e.core ((stepLoop handshake dispatch hd).run e).2.core := by
  refine stepLoop_keeps (fun e' => Core.Steps call e.core e'.core) ?_ ?_ ?_ .refl
  · exact fun e₁ event e₂ hinv hevent => hinv.trans (idleEvent_steps hcall hevent)
  · intro e₁ hinv _
    simpa using hinv
  · exact fun e₁ stop outerType hinv hquiet _ _ => hinv.trans (hdispatch e₁ _ stop outerType hquiet)

theorem dispatchHandshakeRecord_steps (params : ClientParams cfg) (e : Engine cfg sz)
    (start stop : Nat) (outerType : UInt8) (hquiet : e.Quiet) :
    Core.Steps (.stepHandshake params) e.core
      (e.dispatchHandshakeRecord params start stop outerType).2.core := by
  have hhandle : Core.Steps (.stepHandshake params) e.core
      (e.handleHandshakeRecord params start stop outerType).2.core := by
    unfold handleHandshakeRecord
    split
    · exact Core.handleServerHello_steps hquiet.idle params _ _
    · unfold handleFlightRecord
      dsimp only
      have hfeed : Core.Steps (.stepHandshake params) _ _ :=
        Core.feedFlightRecord_steps hquiet.idle params (slice e.recvRecord.val start stop)
      have hidle := Core.feedFlightRecord_idle hquiet.idle (slice e.recvRecord.val start stop)
      split
      · exact hfeed
      · exact hfeed
      · exact hfeed.trans (Core.finalizeAndFinish_steps hidle params _)
    · exact .refl
    · exact .refl
  unfold dispatchHandshakeRecord
  split <;> rename_i heq <;> rw [heq] at hhandle <;> exact hhandle

theorem dispatchDataRecord_steps (e : Engine cfg sz) (start stop : Nat) (outerType : UInt8)
    (hquiet : e.Quiet) : Core.Steps .step e.core (e.dispatchDataRecord start stop outerType).2.core := by
  have hsteps : Core.Steps .step _ _ :=
    Core.dispatchDataRecord_steps hquiet.idle outerType (slice e.recvRecord.val start stop)
  unfold dispatchDataRecord
  dsimp only
  split <;> exact hsteps

/-- Every call acts on the protocol state by atomic steps. -/
theorem call_steps (e : Engine cfg sz) (call : Call cfg) :
    Core.Steps call e.core (e.call call).2.core := by
  cases call with
  | stepHandshake params =>
    exact stepLoop_steps (fun _ => ⟨params, rfl⟩) (dispatchHandshakeRecord_steps params) e
  | step => exact stepLoop_steps (by simp) dispatchDataRecord_steps e
  | fill data => exact .refl
  | advance n =>
    obtain ⟨filled, heq, -⟩ := e.advance_eq n
    simp only [Engine.call, Prod.map, heq]
    exact .refl
  | readApp outLen => exact .refl
  | writeApp plaintext => exact Core.writeApp_steps plaintext
  | markSent n => exact Core.markSent_steps n
  | markTerminal => exact .single .terminal
  | close => exact Core.close_steps

/-- An invariant of the allowed calls. -/
def Keeps (allowed : Call cfg → Prop) (inv : Engine cfg sz → Prop) : Prop :=
  ∀ e call, allowed call → inv e → inv (e.call call).2

/-- What every step preserves, every call preserves. -/
theorem keeps_of_step {allowed : Call cfg → Prop} {inv : Core cfg sz → Prop}
    (h : ∀ call c c', allowed call → inv c → Core.Step call c c' → inv c') :
    Keeps allowed (inv ·.core) :=
  fun e call hcall hinv => invariant_of_steps inv (fun c c' => h call c c' hcall) (e.call_steps call) hinv

theorem after_induct {inv : Core cfg sz → Prop} (h : ∀ call c c', inv c → Core.Step call c c' → inv c')
    (e : Engine cfg sz) (calls : List (Call cfg)) (hinv : inv e.core) : inv (e.after calls).core := by
  induction calls generalizing e with
  | nil => exact hinv
  | cons call rest ih => exact ih _ (invariant_of_steps inv (h call) (e.call_steps call) hinv)

end Engine

end KrabiTls
