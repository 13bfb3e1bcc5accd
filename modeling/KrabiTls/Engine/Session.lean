import KrabiTls.Engine.Framing
import KrabiTls.Engine.Sending

/-! The engine without a receive buffer: a session takes the server's bytes as one stream, opens
record after record and acknowledges its own sends at once. It is what every way of driving the
engine amounts to when there is no client authentication. -/
namespace KrabiTls
open Lib

namespace Core
variable {cfg : ClientConfig} {sz : Sizes} (c : Core cfg sz)

/-- A handshake record without a buffer to build a client flight in. -/
def handleHandshakeRecord (params : ClientParams cfg) (outerType : UInt8) (record : Bytes) :
    Except HandshakeError Unit × Core cfg sz :=
  match c.state with
  | .waitServerHello _ => c.handleServerHello outerType record
  | .waitFlight _ =>
      let (result, _, c) := c.feedFlightRecord record
      match result with
      | .error err => (.error err, c)
      | .ok .pending => (.ok (), c)
      | .ok .ready =>
          let (result, _, c) := c.finalizeAndFinish params (Block.zeros 0)
          (result, c)
  | .app _ => (.error (.internal .handshakeStepInDataPhase), c)
  | .closed => (.error (.internal .handshakeStepWrongState), c)

variable {params : ClientParams cfg}

/-- A policy that answers no `CertificateRequest` never touches the scratch buffer. -/
theorem finalizeAndFinish_scratch (hno : params.clientAuth.acceptCertRequest = false) {n : Nat}
    (scratch : Block n) :
    c.finalizeAndFinish params scratch =
      ((c.finalizeAndFinish params (Block.zeros 0)).1, scratch,
        (c.finalizeAndFinish params (Block.zeros 0)).2.2) := by
  have hfinish (c : Core cfg sz) : c.finishFlight params scratch =
      ((c.finishFlight params (Block.zeros 0)).1, scratch,
        (c.finishFlight params (Block.zeros 0)).2.2) := by
    unfold finishFlight
    cases haccept : c.acceptFlight params with
    | error e => rfl
    | ok accepted =>
      have hnone : accepted.certRequest = none := by
        have hreq := (acceptFlight_checked c haccept).certRequest
        unfold certRequest at hreq
        split at hreq
        · exact (Except.ok.inj hreq).symm
        · rw [hno] at hreq
          cases hreq
      dsimp only
      split
      · split
        · rfl
        · simp only [clientFlight, hnone]
          split <;> rfl
      · rfl
  unfold finalizeAndFinish
  split
  · rfl
  · exact hfinish _

theorem sealRecord_opened (conn : AppData) (content : Bytes) (ct : UInt8) :
    (c.sealRecord conn content ct).2.history.opened = c.history.opened := by
  unfold sealRecord noteSealed
  dsimp only
  split <;> rfl

theorem handleInnerContent_opened (content : Bytes) (ct : UInt8) :
    (c.handleInnerContent content ct).2.history.opened = c.history.opened := by
  have hanswer (c : Core cfg sz) (conn : AppData) :
      (c.answerKeyUpdate conn).2.history.opened = c.history.opened := by
    have hseal := c.sealRecord_opened conn (AppData.keyUpdateMsg false) ctHandshake
    rw [answerKeyUpdate_eq]
    split <;> rename_i heq <;> rw [heq] at hseal
    · exact hseal
    · split <;> exact hseal
  have hprocess (c : Core cfg sz) (updateRequested : Bool) :
      (c.processKeyUpdate updateRequested).2.history.opened = c.history.opened := by
    unfold processKeyUpdate
    split
    · split
      · rfl
      · dsimp only
        split
        · rfl
        · exact hanswer _ _
    · rfl
  have hfeed : (c.feedPostHandshake content).2.history.opened = c.history.opened := by
    unfold feedPostHandshake
    dsimp only
    split
    · rfl
    · rfl
    · exact hprocess _ _
  unfold handleInnerContent
  dsimp only
  repeat' split
  all_goals first | rfl | exact hfeed

theorem handleHandshakeRecord_opened (params : ClientParams cfg) (outerType : UInt8) (record : Bytes) :
    (c.handleHandshakeRecord params outerType record).2.history.opened = c.history.opened := by
  have hfinish (c : Core cfg sz) : (c.finishFlight params (Block.zeros 0)).2.2.history.opened =
      c.history.opened := by
    unfold finishFlight
    repeat' split
    all_goals rfl
  have hfeed : (c.feedFlightRecord record).2.2.history.opened = c.history.opened := by
    unfold feedFlightRecord
    repeat' split
    all_goals rfl
  unfold handleHandshakeRecord
  split
  · unfold handleServerHello
    repeat' split
    all_goals rfl
  · dsimp only
    split
    · exact hfeed
    · exact hfeed
    · unfold finalizeAndFinish
      split
      · exact hfeed
      · exact (hfinish _).trans hfeed
  · rfl
  · rfl

def appContents (opened : List OpenedRecord) : Bytes :=
  opened.flatMap fun r => if r.contentType = ctApplicationData then r.content else []

theorem appContents_append (opened : List OpenedRecord) (r : OpenedRecord) :
    appContents (opened ++ [r]) =
      appContents opened ++ if r.contentType = ctApplicationData then r.content else [] := by
  simp [appContents]

/-- A data record hands on its application data, unless it was not opened or stands between the
fragments of a post-handshake message. -/
theorem dispatchDataRecord_opened (outerType : UInt8) (record : Bytes) :
    let d := c.dispatchDataRecord outerType record
    (∃ content, d.result = .ok content ∧
      appContents d.core.history.opened = appContents c.history.opened ++ content) ∨
    (∃ err, d.result = .error err ∧
      appContents d.core.history.opened = appContents c.history.opened) ∨
    (d.result = .error .interleavedPostHandshake ∧
      ∃ r, d.core.history.opened = c.history.opened ++ [r] ∧ r.contentType = ctApplicationData) := by
  intro d
  rcases c.dispatchDataRecord_cases outerType record with
    ⟨err, herr, -, hcore⟩ | ⟨content, ct, opened, -, hopen, -, hinner⟩
  · exact .inr (.inl ⟨err, herr, by rw [hcore]; rfl⟩)
  · obtain ⟨conn, -, hopened⟩ := decryptDataRecord_eq_ok hopen
    have hkeep := opened.handleInnerContent_opened content ct
    rcases hinner with ⟨err, hinner, herr, hcore⟩ | ⟨parked, hinner, hok⟩
    · have hlast : d.core.history.opened = c.history.opened ++
          [⟨c.history.recvGen, conn.seqIn, record, content, ct⟩] := by
        rw [hcore]
        exact hkeep.trans (by rw [hopened])
      by_cases hct : ct = ctApplicationData
      · refine .inr (.inr ⟨?_, _, hlast, hct⟩)
        unfold handleInnerContent at hinner
        split at hinner
        · cases hinner
          exact herr
        · cases hinner
      · refine .inr (.inl ⟨err, herr, ?_⟩)
        rw [hlast, appContents_append, if_neg hct, List.append_nil]
    · rw [hinner] at hkeep
      refine .inl ⟨parked, hok, ?_⟩
      rw [hkeep, hopened, appContents_append, handleInnerContent_eq_ok hinner]

end Core

namespace Engine
variable {cfg : ClientConfig} {sz : Sizes} {e : Engine cfg sz} {params : ClientParams cfg}

/-- The engine's handler is the session's, with the record opened in place. -/
theorem handleHandshakeRecord_eq (hno : params.clientAuth.acceptCertRequest = false)
    {start stop : Nat} (hstart : start ≤ stop) (hstop : stop ≤ sz.recv) (outerType : UInt8) :
    ∃ data, data.length = stop - start ∧
      e.handleHandshakeRecord params start stop outerType =
        ((e.core.handleHandshakeRecord params outerType (slice e.recvRecord.val start stop)).1,
          { e with
            core := (e.core.handleHandshakeRecord params outerType
              (slice e.recvRecord.val start stop)).2
            recvRecord := e.recvRecord.overwrite start data }) := by
  have hsize := e.recvRecord.property
  have hlen : (slice e.recvRecord.val start stop).length = stop - start :=
    slice_length_of_le (by omega)
  have hself : e.recvRecord.overwrite start (slice e.recvRecord.val start stop) = e.recvRecord :=
    Subtype.ext (overwrite_slice_self hstart (by omega))
  unfold handleHandshakeRecord Core.handleHandshakeRecord
  cases hstate : e.core.state with
  | waitServerHello conn | app conn | closed => exact ⟨_, hlen, by rw [hself]⟩
  | waitFlight conn =>
    have hfed := e.core.feedFlightRecord_length (slice e.recvRecord.val start stop)
    refine ⟨_, hfed.trans hlen, ?_⟩
    unfold handleFlightRecord
    dsimp only
    rcases (e.core.feedFlightRecord (slice e.recvRecord.val start stop)).1 with err | ⟨_ | _⟩
    · rfl
    · rfl
    · dsimp only
      rw [Core.finalizeAndFinish_scratch _ hno]

/-- An accepted handshake record leaves the bytes behind it buffered and nothing parked. -/
theorem dispatchHandshakeRecord_eq (hno : params.clientAuth.acceptCertRequest = false)
    (h : e.recv.Ordered sz.recv) (hparked : e.recv.plaintextParked = false) {stop : Nat}
    (hstart : e.recv.nextRecord ≤ stop) (hstop : stop ≤ e.recv.filled) (outerType : UInt8) :
    ∃ e', e.dispatchHandshakeRecord params e.recv.nextRecord stop outerType =
        ((e.core.handleHandshakeRecord params outerType
          (slice e.recvRecord.val e.recv.nextRecord stop)).1, e') ∧
      e'.core = (e.core.handleHandshakeRecord params outerType
        (slice e.recvRecord.val e.recv.nextRecord stop)).2 ∧
      e'.recv.Ordered sz.recv ∧ e'.parked = [] ∧
      ((e.core.handleHandshakeRecord params outerType
        (slice e.recvRecord.val e.recv.nextRecord stop)).1 = .ok () →
        e'.buffered = slice e.recvRecord.val stop e.recv.filled) := by
  obtain ⟨data, hdata, heq⟩ := e.handleHandshakeRecord_eq hno hstart (hstop.trans h.filled) outerType
  have hbehind := slice_behind_record h hstart hstop hdata
  unfold dispatchHandshakeRecord
  rw [heq]
  have hpark := h.parked
  cases (e.core.handleHandshakeRecord params outerType
      (slice e.recvRecord.val e.recv.nextRecord stop)).1 with
  | error err => exact ⟨_, rfl, rfl, h, parked_eq_nil hparked, by simp⟩
  | ok u =>
    exact ⟨_, rfl, rfl, ⟨h.plain, hpark.trans hstart, hstop, h.filled⟩, parked_eq_nil hparked,
      fun _ => hbehind⟩

end Engine

structure Session (cfg : ClientConfig) (sz : Sizes) where
  dataPhase : Bool
  core : Core cfg sz
  input : Bytes
  delivered : Bytes

/-- How a session ends: whether the handshake came through, the protocol state with all records to
send, the application bytes, and the last report. -/
structure Outcome (cfg : ClientConfig) (sz : Sizes) where
  dataPhase : Bool
  core : Core cfg sz
  delivered : Bytes
  result : Except HandshakeError EngineEvent

/-- The bytes delivered are the application data of the opened records, except for a last record
that was refused because it stands between the fragments of a post-handshake message. -/
def Outcome.Delivers {cfg : ClientConfig} {sz : Sizes} (o : Outcome cfg sz) : Prop :=
  o.delivered = Core.appContents o.core.history.opened ∨
    o.result = .error .interleavedPostHandshake ∧ ∃ opened r,
      o.core.history.opened = opened ++ [r] ∧ r.contentType = ctApplicationData ∧
      o.delivered = Core.appContents opened

namespace Session
variable {cfg : ClientConfig} {sz : Sizes}

/-- Open one record; the result is the application data in it. -/
def handle (params : ClientParams cfg) (dataPhase : Bool) (core : Core cfg sz) (record : Bytes) :
    Except HandshakeError Bytes × Core cfg sz :=
  if dataPhase then
    let d := core.dispatchDataRecord (record.headD 0) record
    (d.result, d.core)
  else
    let (result, core) := core.handleHandshakeRecord params (record.headD 0) record
    (result.map fun _ => [], core)

def handshakeOver (dataPhase : Bool) (core : Core cfg sz) : Bool :=
  !dataPhase && core.pendingHandshakeDone && !core.handshakeFinishedPendingAck

def loop (params : ClientParams cfg) : Loop (Outcome cfg sz) (Session cfg sz) where
  body s :=
    if s.core.isSendPending then .again { s with core := s.core.settle }
    else if handshakeOver s.dataPhase s.core then
      .again { s with dataPhase := true, core.pendingHandshakeDone := false }
    else if s.core.closed then .leave ⟨s.dataPhase, s.core, s.delivered, .ok .closed⟩
    else
      match frame sz.recv s.input with
      | .need => .leave ⟨s.dataPhase, s.core, s.delivered, .ok .recv⟩
      | .tooLarge got =>
          .leave ⟨s.dataPhase, s.core, s.delivered,
            .error (.recordTooLarge s.core.ourRecvLimit got)⟩
      | .record record rest =>
          match handle params s.dataPhase s.core record with
          | (.error err, core) => .leave ⟨s.dataPhase, core, s.delivered, .error err⟩
          | (.ok content, core) =>
              .again { s with core, input := rest, delivered := s.delivered ++ content }
  variant s :=
    s.input.length + (if s.dataPhase then 0 else 1) + (if s.core.isSendPending then 1 else 0)
  decreases s t h := by
    split at h
    · rename_i hpending
      cases h
      simp [Core.settle_not_pending hpending, hpending]
    · split at h
      · rename_i hover
        cases h
        simp only [handshakeOver, Bool.and_eq_true, Bool.not_eq_true'] at hover
        simp [hover.1.1, Core.isSendPending]
      · split at h
        · cases h
        · split at h
          · cases h
          · cases h
          · rename_i hframe
            obtain ⟨hinput, hlen⟩ := frame_eq_record hframe
            split at h
            · cases h
            · cases h
              rw [hinput, List.length_append]
              simp only [tlsHeader] at hlen
              dsimp only
              split <;> split <;> omega

def run (params : ClientParams cfg) (s : Session cfg sz) : Outcome cfg sz :=
  (loop params).run s

section Run
variable {params : ClientParams cfg} {s : Session cfg sz}

theorem run_settle (h : s.core.isSendPending = true) :
    s.run params = { s with core := s.core.settle }.run params :=
  Loop.run_of_again (by simp [loop, h])

theorem run_over (hpending : s.core.isSendPending = false)
    (h : handshakeOver s.dataPhase s.core = true) :
    s.run params = { s with dataPhase := true, core.pendingHandshakeDone := false }.run params :=
  Loop.run_of_again (by simp [loop, hpending, h])

theorem run_closed (hpending : s.core.isSendPending = false)
    (hover : handshakeOver s.dataPhase s.core = false) (h : s.core.closed = true) :
    s.run params = ⟨s.dataPhase, s.core, s.delivered, .ok .closed⟩ :=
  Loop.run_of_leave (by simp [loop, hpending, hover, h])

theorem run_markSent {n : Nat} (hpending : s.core.isSendPending = true)
    (hn : n ≤ s.core.sendPendingLen - s.core.sendAcked) :
    { s with core := (s.core.markSent n).2 }.run params = s.run params := by
  rw [run_settle hpending]
  rcases Nat.lt_or_eq_of_le hn with hlt | rfl
  · have hstill : (s.core.markSent n).2.isSendPending = true := by
      unfold Core.markSent
      rw [if_neg (by omega)]
      dsimp only
      rw [if_neg (by omega)]
      exact decide_eq_true (by simp only; omega)
    rw [run_settle hstill, Core.settle_markSent hlt]
  · rfl

variable (hidle : s.core.Idle) (hover : handshakeOver s.dataPhase s.core = false)
include hidle hover

theorem run_need (h : frame sz.recv s.input = .need) :
    s.run params = ⟨s.dataPhase, s.core, s.delivered, .ok .recv⟩ :=
  Loop.run_of_leave (by simp [loop, hidle.not_pending, hidle.not_closed, hover, h])

theorem run_tooLarge {got : Nat} (h : frame sz.recv s.input = .tooLarge got) :
    s.run params = ⟨s.dataPhase, s.core, s.delivered,
      .error (.recordTooLarge s.core.ourRecvLimit got)⟩ :=
  Loop.run_of_leave (by simp [loop, hidle.not_pending, hidle.not_closed, hover, h])

theorem run_refused {record rest : Bytes} {err : HandshakeError} {core : Core cfg sz}
    (h : frame sz.recv s.input = .record record rest)
    (herr : handle params s.dataPhase s.core record = (.error err, core)) :
    s.run params = ⟨s.dataPhase, core, s.delivered, .error err⟩ :=
  Loop.run_of_leave (by simp [loop, hidle.not_pending, hidle.not_closed, hover, h, herr])

theorem run_record {record rest content : Bytes} {core : Core cfg sz}
    (h : frame sz.recv s.input = .record record rest)
    (hok : handle params s.dataPhase s.core record = (.ok content, core)) :
    s.run params =
      { s with core, input := rest, delivered := s.delivered ++ content }.run params :=
  Loop.run_of_again (by simp [loop, hidle.not_pending, hidle.not_closed, hover, h, hok])

end Run

theorem handle_opened (params : ClientParams cfg) (dataPhase : Bool) (core : Core cfg sz)
    (record : Bytes) :
    let r := handle params dataPhase core record
    (∃ content, r.1 = .ok content ∧
      Core.appContents r.2.history.opened = Core.appContents core.history.opened ++ content) ∨
    (∃ err, r.1 = .error err ∧
      Core.appContents r.2.history.opened = Core.appContents core.history.opened) ∨
    (r.1 = .error .interleavedPostHandshake ∧ ∃ last,
      r.2.history.opened = core.history.opened ++ [last] ∧
      last.contentType = ctApplicationData) := by
  cases dataPhase with
  | true => exact core.dispatchDataRecord_opened (record.headD 0) record
  | false =>
    have hkeep := core.handleHandshakeRecord_opened params (record.headD 0) record
    unfold handle
    generalize core.handleHandshakeRecord params (record.headD 0) record = r at hkeep ⊢
    obtain ⟨_ | _, core'⟩ := r
    · exact .inr (.inl ⟨_, rfl, congrArg Core.appContents hkeep⟩)
    · exact .inl ⟨[], rfl, (congrArg Core.appContents hkeep).trans (List.append_nil _).symm⟩

theorem run_delivers {params : ClientParams cfg} {s : Session cfg sz}
    (h : s.delivered = Core.appContents s.core.history.opened) : (s.run params).Delivers := by
  refine Loop.run_induct (fun s : Session cfg sz =>
    s.delivered = Core.appContents s.core.history.opened) Outcome.Delivers ?_ ?_ s h
  · intro s t h hbody
    dsimp only [loop] at hbody
    split at hbody
    · cases hbody
      simp only [Core.settle, Core.markSent]
      repeat' split
      all_goals exact h
    · split at hbody
      · cases hbody
        exact h
      · split at hbody
        · cases hbody
        · split at hbody
          · cases hbody
          · cases hbody
          · rename_i record rest _
            have hhandle := handle_opened params s.dataPhase s.core record
            split at hbody
            · cases hbody
            · rename_i content core heq
              cases hbody
              rw [heq] at hhandle
              rcases hhandle with ⟨content', hok, happ⟩ | ⟨err, herr, -⟩ | ⟨herr, -⟩
              · cases hok
                rw [happ, ← h]
              · cases herr
              · cases herr
  · intro s o h hbody
    dsimp only [loop] at hbody
    split at hbody
    · cases hbody
    · split at hbody
      · cases hbody
      · split at hbody
        · cases hbody
          exact .inl h
        · split at hbody
          · cases hbody
            exact .inl h
          · cases hbody
            exact .inl h
          · rename_i record rest _
            have hhandle := handle_opened params s.dataPhase s.core record
            split at hbody
            · rename_i err core heq
              cases hbody
              rw [heq] at hhandle
              rcases hhandle with ⟨content, hok, -⟩ | ⟨err', -, happ⟩ | ⟨herr, last, hlast, hct⟩
              · cases hok
              · exact .inl (h.trans happ.symm)
              · cases herr
                exact .inr ⟨rfl, _, last, hlast, hct, h⟩
            · cases hbody

end Session

end KrabiTls
