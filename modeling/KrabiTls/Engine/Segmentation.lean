import KrabiTls.Engine.Session
import KrabiTls.Engine.Auth

/-! Segmentation independence: however the server's bytes are split into reads, the application
data into `read_app` calls and the sends into acknowledgements, the engine ends as the session on
the whole stream does. -/
namespace KrabiTls
open Lib

namespace Engine
variable {cfg : ClientConfig} {sz : Sizes}
variable {e : Engine cfg sz} {dataPhase : Bool}

/-- The session that the engine still has before it, with `unread` bytes to come. -/
def session (dataPhase : Bool) (unread delivered : Bytes) (e : Engine cfg sz) : Session cfg sz :=
  ⟨dataPhase, e.core, e.buffered ++ unread, delivered ++ e.parked⟩

/-- What is left to be worked off apart from unread bytes. -/
def backlog (e : Engine cfg sz) : Nat :=
  (sz.send + sz.recv) * e.buffered.length + (e.core.sendPendingLen - e.core.sendAcked) +
    e.parked.length

/-- The invariant of the engine between the calls of a driver. -/
structure Sound (e : Engine cfg sz) : Prop where
  ordered : e.recv.Ordered sz.recv
  sendWf : e.core.SendWf

/-- What an event says about the engine that reports it. -/
def Reports (dataPhase : Bool) (e : Engine cfg sz) : EngineEvent → Prop
  | .send n => e.core.isSendPending = true ∧ n = e.core.sendPendingLen - e.core.sendAcked
  | .recv => e.Quiet ∧ Session.handshakeOver dataPhase e.core = false ∧
      frame sz.recv e.buffered = .need ∧ 0 < e.recvBufferLen
  | .appData => e.recv.plaintextParked = true
  | .handshakeDone => dataPhase = true
  | .closed => e.core.isSendPending = false ∧ Session.handshakeOver dataPhase e.core = false ∧
      e.recv.plaintextParked = false ∧ e.core.closed = true

/-- A dispatch function that handles records as a session does. -/
def Handles (params : ClientParams cfg) (dataPhase : Bool) (dispatch : Dispatch cfg sz) : Prop :=
  ∀ e stop record, e.recv.Ordered sz.recv → e.recv.plaintextParked = false →
    e.recv.nextRecord + tlsHeader ≤ stop → stop ≤ e.recv.filled →
    slice e.recvRecord.val e.recv.nextRecord stop = record →
    ∃ e', e'.core = (Session.handle params dataPhase e.core record).2 ∧ e'.recv.Ordered sz.recv ∧
      ((∃ err, (Session.handle params dataPhase e.core record).1 = .error err ∧
          dispatch e e.recv.nextRecord stop (record.headD 0) = (.error err, e')) ∨
        ∃ content, (Session.handle params dataPhase e.core record).1 = .ok content ∧
          dispatch e e.recv.nextRecord stop (record.headD 0) = (.ok (), e') ∧
          e'.buffered = slice e.recvRecord.val stop e.recv.filled ∧ e'.parked = content)

theorem handles_data (params : ClientParams cfg) :
    Handles params true (fun e : Engine cfg sz => e.dispatchDataRecord) := by
  intro e stop record hord hparked hstart hstop hrecord
  subst hrecord
  unfold Session.handle
  simp only [if_true]
  cases hres : (e.core.dispatchDataRecord ((slice e.recvRecord.val e.recv.nextRecord stop).headD 0)
      (slice e.recvRecord.val e.recv.nextRecord stop)).result with
  | error err =>
    obtain ⟨e', heq, hcore, hord'⟩ := dispatchDataRecord_refused hord (by omega) hstop hres
    exact ⟨e', hcore, hord', .inl ⟨err, rfl, heq⟩⟩
  | ok content =>
    obtain ⟨e', heq, hcore, hord', hbuf, hpark⟩ :=
      dispatchDataRecord_accepted hord hparked hstart hstop hres
    exact ⟨e', hcore, hord', .inr ⟨content, rfl, heq, hbuf, hpark⟩⟩

theorem handles_handshake {params : ClientParams cfg}
    (hno : params.clientAuth.acceptCertRequest = false) :
    Handles params false (fun e : Engine cfg sz => e.dispatchHandshakeRecord params) := by
  intro e stop record hord hparked hstart hstop hrecord
  subst hrecord
  obtain ⟨e', heq, hcore, hord', hpark, hbuf⟩ := dispatchHandshakeRecord_eq hno hord hparked
    (by omega) hstop ((slice e.recvRecord.val e.recv.nextRecord stop).headD 0)
  refine ⟨e', hcore, hord', ?_⟩
  unfold Session.handle
  simp only [Bool.false_eq_true, if_false]
  cases hres : (e.core.handleHandshakeRecord params
      ((slice e.recvRecord.val e.recv.nextRecord stop).headD 0)
      (slice e.recvRecord.val e.recv.nextRecord stop)).1 with
  | error err => exact .inl ⟨err, rfl, by rw [heq, hres]⟩
  | ok u => exact .inr ⟨[], rfl, by rw [heq, hres], hbuf hres, hpark⟩

theorem backlog_le {e' : Engine cfg sz} (hsound : e'.Sound)
    (hlt : e'.buffered.length < e.buffered.length) : e'.backlog ≤ e.backlog := by
  have hsend := hsound.sendWf.fits
  have hparked : e'.parked.length ≤ sz.recv := by
    rw [parked_length hsound.ordered]
    have := hsound.ordered.parked
    have := hsound.ordered.next
    have := hsound.ordered.filled
    omega
  have hmul : (sz.send + sz.recv) * (e'.buffered.length + 1) ≤
      (sz.send + sz.recv) * e.buffered.length := Nat.mul_le_mul_left _ hlt
  rw [Nat.mul_add, Nat.mul_one] at hmul
  unfold backlog
  omega

/-- An event that is due before any record is looked at. -/
theorem idleEvent_reports {e' : Engine cfg sz} {event : EngineEvent}
    (h : e.idleEvent (!dataPhase) = some (event, e')) (params : ClientParams cfg)
    (unread delivered : Bytes) :
    e'.recv = e.recv ∧ e'.recvRecord = e.recvRecord ∧
      e'.core.sendPendingLen = e.core.sendPendingLen ∧ e'.core.sendAcked = e.core.sendAcked ∧
      Reports (dataPhase || event = .handshakeDone) e' event ∧
      (e.session dataPhase unread delivered).run params =
        (e'.session (dataPhase || event = .handshakeDone) unread delivered).run params := by
  unfold idleEvent at h
  split at h
  · rename_i hpending
    cases h
    exact ⟨rfl, rfl, rfl, rfl, ⟨hpending, rfl⟩, by simp⟩
  · rename_i hpending
    simp only [Bool.not_eq_true] at hpending
    split at h
    · rename_i hover
      cases h
      have hover' : Session.handshakeOver dataPhase e.core = true := by
        simpa [Session.handshakeOver, and_assoc] using hover
      refine ⟨rfl, rfl, rfl, rfl, by simp [Reports], ?_⟩
      rw [Session.run_over hpending hover']
      simp [session, buffered, parked]
    · rename_i hover
      have hover' : Session.handshakeOver dataPhase e.core = false := by
        rw [Bool.eq_false_iff]
        simpa [Session.handshakeOver, and_assoc] using hover
      split at h
      · rename_i hparked
        cases h
        exact ⟨rfl, rfl, rfl, rfl, hparked, by simp⟩
      · rename_i hparked
        split at h
        · rename_i hclosed
          cases h
          exact ⟨rfl, rfl, rfl, rfl, ⟨hpending, by simpa using hover', by simpa using hparked,
            hclosed⟩, by simp⟩
        · cases h

/-- What a step loop returns, compared with the session before it. -/
def Reported (params : ClientParams cfg) (dataPhase : Bool) (unread delivered : Bytes)
    (e : Engine cfg sz) (r : Except HandshakeError EngineEvent × Engine cfg sz) : Prop :=
  r.2.Sound ∧
    match r.1 with
    | .error err => (e.session dataPhase unread delivered).run params =
        ⟨dataPhase, r.2.core, delivered, .error err⟩
    | .ok event => (event = .handshakeDone → dataPhase = false) ∧ r.2.backlog ≤ e.backlog ∧
        Reports (dataPhase || event = .handshakeDone) r.2 event ∧
        (e.session dataPhase unread delivered).run params =
          (r.2.session (dataPhase || event = .handshakeDone) unread delivered).run params

theorem handshakeOver_of_idleEvent (h : e.idleEvent (!dataPhase) = none) :
    Session.handshakeOver dataPhase e.core = false := by
  unfold idleEvent at h
  split at h
  · cases h
  · split at h
    · cases h
    · rename_i hover
      rw [Bool.eq_false_iff]
      simpa [Session.handshakeOver, and_assoc] using hover

/-- A step loop goes through the session of the bytes it has. -/
theorem stepLoop_reported {params : ClientParams cfg} {dispatch : Dispatch cfg sz}
    {hd : Consumes dispatch} {call : Call cfg}
    (hhandles : Handles params dataPhase dispatch)
    (hsteps : ∀ e start stop outerType, e.Quiet →
      Core.Steps call e.core (dispatch e start stop outerType).2.core)
    (hcapacity : tlsHeader ≤ sz.recv) (unread delivered : Bytes)
    (hsound : e.Sound) :
    Reported params dataPhase unread delivered e ((stepLoop (!dataPhase) dispatch hd).run e) := by
  refine stepLoop_rule
    (fun e' => e'.Sound ∧ e'.backlog ≤ e.backlog ∧ (e.session dataPhase unread delivered).run params =
      (e'.session dataPhase unread delivered).run params)
    (Reported params dataPhase unread delivered e) ?_ ?_ ?_ ?_ ?_ e ⟨hsound, Nat.le_refl _, rfl⟩
  · rintro e₁ event e₂ ⟨hs, hback, hrun⟩ hevent
    obtain ⟨hrecv, hrec, hlen, hack, hrep, hsame⟩ :=
      idleEvent_reports hevent params unread delivered
    refine ⟨⟨by rw [hrecv]; exact hs.ordered, ?_⟩, ?_, ?_, hrep, hrun.trans hsame⟩
    · exact ⟨by rw [hlen, hack]; exact hs.sendWf.acked, by rw [hlen]; exact hs.sendWf.fits⟩
    · rintro rfl
      simpa using (idleEvent_eq_handshakeDone hevent).1
    · simpa only [backlog, buffered, parked, hrecv, hrec, hlen, hack] using hback
  · rintro e₁ ⟨hs, hback, hrun⟩ hidle hneed
    have hquiet := quiet_of_idleEvent hidle
    have hparked := compactRecv_parked hquiet.not_parked
    have hframe := frame_of_need hs.ordered hquiet.not_parked hneed
    have hbuf := compactRecv_buffered hs.ordered
    have hroom := compactRecv_room hs.ordered hquiet.not_parked hcapacity hframe
    refine ⟨⟨compactRecv_ordered hs.ordered, by simpa using hs.sendWf⟩, by rintro ⟨⟩, ?_,
      ⟨⟨by simpa using hquiet.idle, hparked⟩, ?_, by rw [hbuf]; exact hframe, hroom⟩, ?_⟩
    · simpa [backlog, hbuf, parked_eq_nil hparked, parked_eq_nil hquiet.not_parked] using hback
    · simpa using handshakeOver_of_idleEvent hidle
    · rw [hrun]
      simp [session, hbuf, parked_eq_nil hparked, parked_eq_nil hquiet.not_parked]
  · rintro e₁ err ⟨hs, -, hrun⟩ hidle herr
    have hquiet := quiet_of_idleEvent hidle
    obtain ⟨got, hframe, rfl⟩ := frame_of_error hs.ordered hquiet.not_parked herr
    refine ⟨hs, ?_⟩
    rw [hrun, Session.run_tooLarge hquiet.idle (handshakeOver_of_idleEvent hidle)
      (frame_append_tooLarge hframe)]
    simp [session, parked_eq_nil hquiet.not_parked]
  · rintro e₁ start stop t err e₂ ⟨hs, -, hrun⟩ hidle hrec herr
    have hquiet := quiet_of_idleEvent hidle
    obtain ⟨record, rest, hframe, rfl, hstart, hstop, rfl, hrecord, -⟩ :=
      frame_of_record hs.ordered hquiet.not_parked hrec
    have hsteps₁ := hsteps e₁ e₁.recv.nextRecord stop (record.headD 0) hquiet
    obtain ⟨e', hcore, hord, ⟨err', hhandle, heq⟩ | ⟨content, -, heq, -⟩⟩ :=
      hhandles e₁ stop record hs.ordered hquiet.not_parked hstart hstop hrecord
    · rw [herr] at heq hsteps₁
      cases heq
      refine ⟨⟨hord, hs.sendWf.steps hsteps₁⟩, ?_⟩
      rw [hrun, Session.run_refused hquiet.idle (handshakeOver_of_idleEvent hidle)
        (frame_append_record hframe) (Prod.ext hhandle hcore.symm)]
      simp [session, parked_eq_nil hquiet.not_parked]
    · rw [herr] at heq
      cases heq
  · rintro e₁ start stop t e₂ ⟨hs, hback, hrun⟩ hidle hrec hok
    have hquiet := quiet_of_idleEvent hidle
    obtain ⟨record, rest, hframe, rfl, hstart, hstop, rfl, hrecord, hrest⟩ :=
      frame_of_record hs.ordered hquiet.not_parked hrec
    have hsteps₁ := hsteps e₁ e₁.recv.nextRecord stop (record.headD 0) hquiet
    obtain ⟨e', hcore, hord, ⟨err', -, heq⟩ | ⟨content, hhandle, heq, hbuf, hpark⟩⟩ :=
      hhandles e₁ stop record hs.ordered hquiet.not_parked hstart hstop hrecord
    · rw [hok] at heq
      cases heq
    · rw [hok] at heq hsteps₁
      cases heq
      have hsound₂ : e₂.Sound := ⟨hord, hs.sendWf.steps hsteps₁⟩
      refine ⟨hsound₂, (backlog_le hsound₂ ?_).trans hback, ?_⟩
      · obtain ⟨hinput, hlen⟩ := frame_eq_record hframe
        rw [hinput, hbuf, hrest, List.length_append]
        simp only [tlsHeader] at hlen
        omega
      · rw [hrun, Session.run_record hquiet.idle (handshakeOver_of_idleEvent hidle)
          (frame_append_record hframe) (Prod.ext hhandle hcore.symm)]
        simp [session, parked_eq_nil hquiet.not_parked, hbuf, hrest, hpark]

end Engine

/-- A caller that drives an engine: the bytes the server has sent and the caller has not read, and
the report it has not answered yet. -/
structure Driver (cfg : ClientConfig) (sz : Sizes) where
  engine : Engine cfg sz
  unread : Bytes
  dataPhase : Bool := false
  delivered : Bytes := []
  report : Option (Except HandshakeError EngineEvent) := none

namespace Driver
variable {cfg : ClientConfig} {sz : Sizes}

/-- A size between 1 and `limit` of the environment's choice. -/
def clamp (choice limit : Nat) : Nat := max 1 (min choice limit)

/-- Ask the engine what to do next, as `connect` does and then `read`. -/
def step (params : ClientParams cfg) (d : Driver cfg sz) : Driver cfg sz :=
  let (result, engine) := if d.dataPhase then d.engine.step else d.engine.stepHandshake params
  { d with
    engine
    dataPhase := d.dataPhase || result.toOption = some .handshakeDone
    report := some result }

def answer (d : Driver cfg sz) (r : Except HandshakeError Unit × Engine cfg sz) : Driver cfg sz :=
  { d with
    engine := r.2
    report := match r.1 with
      | .ok () => none
      | .error err => some (.error err) }

/-- Do what the engine asks for: the environment chooses how much is sent, read or taken. -/
def respond (choice : Nat) (d : Driver cfg sz) : EngineEvent → Driver cfg sz
  | .send n => d.answer (d.engine.markSent (clamp choice n))
  | .recv =>
      let chunk := d.unread.take (clamp choice (min d.engine.recvBufferLen d.unread.length))
      { d.answer ((d.engine.fill chunk).advance chunk.length) with
        unread := d.unread.drop chunk.length }
  | .appData =>
      let (data, engine) := d.engine.readApp (max 1 choice)
      { d with engine, delivered := d.delivered ++ data, report := none }
  | .handshakeDone => { d with report := none }
  | .closed => d

/-- The engine is closed, failed, or waits for bytes that do not come. -/
def finished (d : Driver cfg sz) : Bool :=
  match d.report with
  | some (.error _) => true
  | some (.ok .closed) => true
  | some (.ok .recv) => d.unread.isEmpty
  | _ => false

def next (params : ClientParams cfg) (d : Driver cfg sz) (choice : Nat) : Driver cfg sz :=
  if d.finished then d
  else
    match d.report with
    | none => d.step params
    | some (.ok event) => d.respond choice event
    | some (.error _) => d

def drive (params : ClientParams cfg) (d : Driver cfg sz) (choices : List Nat) : Driver cfg sz :=
  choices.foldl (next params) d

def outcome (d : Driver cfg sz) : Outcome cfg sz :=
  ⟨d.dataPhase, d.engine.core, d.delivered, d.report.getD (.ok .recv)⟩

def session (d : Driver cfg sz) : Session cfg sz :=
  d.engine.session d.dataPhase d.unread d.delivered

/-- What is left to drive, in the number of calls it may take. -/
def fuel (d : Driver cfg sz) : Nat :=
  2 * ((sz.send + sz.recv + 1) * d.unread.length + d.engine.backlog +
    (if d.dataPhase then 0 else 1)) +
  match d.report with
  | none => 1
  | some (.ok .handshakeDone) => 2
  | some _ => 0

structure Inv (d : Driver cfg sz) : Prop where
  sound : d.engine.Sound
  report : ∀ event, d.report = some (.ok event) → d.engine.Reports d.dataPhase event

/-- Where the driver is headed: after an error there is nothing left to do. -/
def value (params : ClientParams cfg) (d : Driver cfg sz) : Outcome cfg sz :=
  match d.report with
  | some (.error _) => d.outcome
  | _ => d.session.run params

variable {params : ClientParams cfg} {d : Driver cfg sz}

/-- A finished driver has arrived. -/
theorem outcome_eq_value (h : d.Inv) (hfin : d.finished = true) : d.outcome = d.value params := by
  unfold finished at hfin
  cases hreport : d.report with
  | none => simp [hreport] at hfin
  | some r =>
    cases r with
    | error err => simp [value, hreport]
    | ok event =>
      rw [hreport] at hfin
      have hrep := h.report event hreport
      cases event with
      | closed =>
        obtain ⟨hpending, hover, hparked, hclosed⟩ := hrep
        have hrun : d.session.run params = _ := Session.run_closed hpending hover hclosed
        simp only [value, hreport, hrun]
        simp [outcome, hreport, session, Engine.session, Engine.parked_eq_nil hparked]
      | recv =>
        obtain ⟨hquiet, hover, hneed, -⟩ := hrep
        have hunread : d.unread = [] := by simpa using hfin
        have hframe : frame sz.recv d.session.input = .need := by
          simpa [session, Engine.session, hunread] using hneed
        have hrun : d.session.run params = _ := Session.run_need hquiet.idle hover hframe
        simp only [value, hreport, hrun]
        simp [outcome, hreport, session, Engine.session, Engine.parked_eq_nil hquiet.not_parked]
      | _ => simp at hfin

/-- One call of the driver: the invariant is kept, it heads where it headed, and there is less left
to do. -/
structure Advances (params : ClientParams cfg) (d d' : Driver cfg sz) : Prop where
  inv : d'.Inv
  value : d'.value params = d.value params
  fuel : d'.finished = true ∨ d'.fuel < d.fuel

theorem step_advances (hno : params.clientAuth.acceptCertRequest = false)
    (hcapacity : tlsHeader ≤ sz.recv) (h : d.Inv) (hreport : d.report = none) :
    Advances params d (d.step params) := by
  have hreported : Engine.Reported params d.dataPhase d.unread d.delivered d.engine
      (if d.dataPhase then d.engine.step else d.engine.stepHandshake params) := by
    cases hphase : d.dataPhase with
    | true =>
      exact Engine.stepLoop_reported (Engine.handles_data params) Engine.dispatchDataRecord_steps
        hcapacity _ _ h.sound
    | false =>
      exact Engine.stepLoop_reported (Engine.handles_handshake hno)
        (Engine.dispatchHandshakeRecord_steps params) hcapacity _ _ h.sound
  unfold step
  generalize (if d.dataPhase then d.engine.step else d.engine.stepHandshake params) = r
    at hreported ⊢
  obtain ⟨result, engine⟩ := r
  obtain ⟨hsound, hresult⟩ := hreported
  cases result with
  | error err =>
    refine ⟨⟨hsound, by simp⟩, ?_, .inl rfl⟩
    simp only at hresult
    simp only [value, hreport, session]
    rw [hresult]
    simp [outcome, Except.toOption]
  | ok event =>
    obtain ⟨hdone, hback, hrep, hrun⟩ := hresult
    refine ⟨⟨hsound, ?_⟩, ?_, .inr ?_⟩
    · intro event' heq
      cases heq
      simpa [Except.toOption] using hrep
    · simp only [value, hreport, session, Except.toOption, Option.some.injEq]
      exact hrun.symm
    · dsimp only at hback
      by_cases hover : event = .handshakeDone
      · simp [fuel, hreport, Except.toOption, hover, hdone hover]
        omega
      · simp [fuel, hreport, Except.toOption, hover]
        omega

theorem clamp_bounds (choice : Nat) {limit : Nat} (h : 0 < limit) :
    0 < clamp choice limit ∧ clamp choice limit ≤ limit := by
  unfold clamp
  omega

theorem respond_send_advances (h : d.Inv) {n choice : Nat} (hreport : d.report = some (.ok (.send n))) :
    Advances params d (d.respond choice (.send n)) := by
  obtain ⟨hpending, hn⟩ := h.report _ hreport
  have hlt : d.engine.core.sendAcked < d.engine.core.sendPendingLen := of_decide_eq_true hpending
  obtain ⟨hpos, hle⟩ : 0 < clamp choice n ∧ clamp choice n ≤ n := clamp_bounds choice (by omega)
  generalize hk : clamp choice n = k at hpos hle
  have hok : (d.engine.core.markSent k).1 = .ok () := by
    unfold Core.markSent
    rw [if_neg (by omega)]
    dsimp only
    split <;> rfl
  have hless : (d.engine.core.markSent k).2.sendPendingLen -
      (d.engine.core.markSent k).2.sendAcked < n := by
    unfold Core.markSent
    rw [if_neg (by omega)]
    dsimp only
    split <;> simp only <;> omega
  simp only [respond, hk, answer, Engine.markSent, Engine.withCore, hok]
  refine ⟨⟨⟨h.sound.ordered, h.sound.sendWf.markSent k⟩, by simp⟩, ?_, .inr ?_⟩
  · have hrun : _ = d.session.run params := Session.run_markSent (n := k) hpending (hle.trans_eq hn)
    simp only [value, hreport]
    exact hrun
  · simp only [fuel, hreport, Engine.backlog, Engine.buffered, Engine.parked]
    omega

theorem respond_recv_advances (h : d.Inv) {choice : Nat} (hreport : d.report = some (.ok .recv))
    (hfin : d.finished = false) : Advances params d (d.respond choice .recv) := by
  obtain ⟨hquiet, -, -, hroom⟩ := h.report _ hreport
  have hunread : 0 < d.unread.length := by
    simp only [finished, hreport, List.isEmpty_eq_false_iff] at hfin
    exact List.length_pos_iff.mpr hfin
  obtain ⟨hpos, hle⟩ := clamp_bounds choice
    (show 0 < min d.engine.recvBufferLen d.unread.length by omega)
  generalize hn : clamp choice (min d.engine.recvBufferLen d.unread.length) = n at hpos hle
  have hlen : (d.unread.take n).length = n := by rw [List.length_take]; omega
  obtain ⟨e', hadv, hcore, hord, hbuf, hparked⟩ := Engine.advance_fill h.sound.ordered
    (d.unread.take n) (by omega) (by omega)
  have hpark := Engine.parked_eq_nil hparked
  have hpark₀ := Engine.parked_eq_nil hquiet.not_parked
  simp only [respond, hn, answer, hadv]
  refine ⟨⟨⟨hord, hcore ▸ h.sound.sendWf⟩, by simp⟩, ?_, .inr ?_⟩
  · simp only [value, hreport, session, Engine.session, hcore, hbuf, hpark, hpark₀, hlen]
    rw [List.append_assoc, List.take_append_drop]
  · simp only [fuel, hreport, Engine.backlog, hbuf, hpark, hpark₀, hcore, hlen, List.length_append,
      List.length_drop, List.length_nil]
    -- the bytes read move from the unread ones to the cheaper buffered ones
    have hunread : (sz.send + sz.recv + 1) * d.unread.length =
        (sz.send + sz.recv + 1) * (d.unread.length - n) + ((sz.send + sz.recv) * n + n) := by
      rw [← Nat.succ_mul, ← Nat.mul_add]
      congr 1
      omega
    have hbuffered := Nat.mul_add (sz.send + sz.recv) d.engine.buffered.length n
    omega

theorem respond_appData_advances (h : d.Inv) {choice : Nat}
    (hreport : d.report = some (.ok .appData)) :
    Advances params d (d.respond choice .appData) := by
  have hparked : d.engine.recv.plaintextParked = true := h.report _ hreport
  have hlt : d.engine.recv.plainStart < d.engine.recv.plainEnd := of_decide_eq_true hparked
  obtain ⟨hsplit, hord, hlen⟩ := Engine.readApp_parked h.sound.ordered (max 1 choice)
  have hpos : 0 < d.engine.parked.length := by
    rw [Engine.parked_length h.sound.ordered]
    omega
  simp only [respond]
  refine ⟨⟨⟨hord, h.sound.sendWf⟩, by simp⟩, ?_, .inr ?_⟩
  · simp only [value, hreport, session, Engine.session, List.append_assoc, hsplit]
    rfl
  · have hless : (d.engine.readApp (max 1 choice)).2.backlog < d.engine.backlog := by
      unfold Engine.backlog
      rw [hlen]
      simp only [Engine.readApp, Engine.buffered]
      omega
    simp only [fuel, hreport]
    omega

theorem next_advances (hno : params.clientAuth.acceptCertRequest = false)
    (hcapacity : tlsHeader ≤ sz.recv) (h : d.Inv) (choice : Nat) :
    Advances params d (d.next params choice) := by
  unfold next
  split
  · rename_i hfin
    exact ⟨h, rfl, .inl hfin⟩
  · rename_i hfin
    simp only [Bool.not_eq_true] at hfin
    cases hreport : d.report with
    | none => exact step_advances hno hcapacity h hreport
    | some r =>
      cases r with
      | error err => simp [finished, hreport] at hfin
      | ok event =>
        cases event with
        | send n => exact respond_send_advances h hreport
        | recv => exact respond_recv_advances h hreport hfin
        | appData => exact respond_appData_advances h hreport
        | closed => simp [finished, hreport] at hfin
        | handshakeDone =>
          refine ⟨⟨h.sound, by simp [respond]⟩, ?_, .inr ?_⟩
          · simp only [respond, value, hreport]
            rfl
          · simp only [fuel, respond, hreport]
            exact Nat.add_lt_add_left (by decide) _

theorem drive_inv (params : ClientParams cfg) (hno : params.clientAuth.acceptCertRequest = false)
    (hcapacity : tlsHeader ≤ sz.recv) (h : d.Inv) (choices : List Nat) :
    (d.drive params choices).Inv ∧ (d.drive params choices).value params = d.value params ∧
      ((d.drive params choices).finished = true ∨
        (d.drive params choices).fuel + choices.length ≤ d.fuel) := by
  induction choices generalizing d with
  | nil => exact ⟨h, rfl, .inr (Nat.le_refl _)⟩
  | cons choice rest ih =>
    have hnext := next_advances hno hcapacity h choice
    obtain ⟨hinv, hvalue, hfuel⟩ := ih hnext.inv
    refine ⟨hinv, hvalue.trans hnext.value, ?_⟩
    rcases hnext.fuel with hfin | hlt
    · -- a finished driver stays as it is
      have hstay : (d.next params choice).drive params rest = d.next params choice := by
        clear * - hfin
        induction rest with
        | nil => rfl
        | cons c cs ih =>
          have hsame : (d.next params choice).next params c = d.next params choice := by
            conv_lhs => rw [next, if_pos hfin]
          rw [drive, List.foldl_cons, hsame]
          exact ih
      left
      have hdrive : d.drive params (choice :: rest) = (d.next params choice).drive params rest := rfl
      rw [hdrive, hstay]
      exact hfin
    · refine hfuel.imp_right fun hle => ?_
      have hdrive : d.drive params (choice :: rest) = (d.next params choice).drive params rest := rfl
      rw [hdrive, List.length_cons]
      omega

def start (first : WaitServerHello cfg) (sendRecord : Block sz.send) (recvRecord : Block sz.recv)
    (ourRecvLimit peerRecvLimit : RecordSizeLimit) (stream : Bytes) : Driver cfg sz where
  engine := .new sendRecord recvRecord (.waitServerHello first) ourRecvLimit peerRecvLimit
  unread := stream

/-- Without client authentication, all ways to drive the engine over a stream come to an end, and
they end alike; on the way the cursors stay in order and bytes are only asked for when there is
room. -/
theorem drive_segmentation (first : WaitServerHello cfg) (sendRecord : Block sz.send)
    (recvRecord : Block sz.recv) (ourRecvLimit peerRecvLimit : RecordSizeLimit) (stream : Bytes)
    (hostname : Bytes) (verifyChain : List Bytes → Option (PreparedVerifier cfg.verifiers))
    (hrecv : cfg.features.minRecv ≤ sz.recv) :
    let d := start first sendRecord recvRecord ourRecvLimit peerRecvLimit stream
    let params : ClientParams cfg := ⟨hostname, verifyChain, noClientAuth⟩
    ∃ (outcome : Outcome cfg sz) (calls : Nat), outcome.Delivers ∧ ∀ choices : List Nat,
      (calls ≤ choices.length → (d.drive params choices).finished = true ∧
        (d.drive params choices).outcome = outcome) ∧
      (d.drive params choices).engine.recv.Ordered sz.recv ∧
      ((d.drive params choices).report = some (.ok .recv) →
        0 < (d.drive params choices).engine.recvBufferLen) := by
  intro d params
  have hcapacity : tlsHeader ≤ sz.recv := by
    unfold Features.minRecv at hrecv
    simp only [minRecordSizeLimit, recordOverhead, tlsHeader, aeadTagLen] at hrecv ⊢
    omega
  have hinv : d.Inv := ⟨⟨⟨Nat.le_refl _, Nat.le_refl _, Nat.le_refl _, Nat.zero_le _⟩,
    ⟨Nat.le_refl _, Nat.zero_le _⟩⟩, by simp [d, start]⟩
  refine ⟨d.value params, d.fuel + 1, ?_, fun choices => ?_⟩
  · refine Session.run_delivers ?_
    simp [session, Engine.session, d, start, Engine.new, Engine.parked, slice_self,
      Core.appContents]
  · obtain ⟨hinv', hvalue, hfuel⟩ := drive_inv params rfl hcapacity hinv choices
    refine ⟨fun hcalls => ?_, hinv'.sound.ordered, fun hreport => (hinv'.report _ hreport).2.2.2⟩
    have hfin := hfuel.resolve_right (by omega)
    exact ⟨hfin, (outcome_eq_value hinv' hfin).trans hvalue⟩

/-- The server's side of the sample handshake, followed by data-phase records. -/
def sampleStream (records : List (Bytes × UInt8)) : Bytes :=
  let e := (Sample.engine Sample.sizes).after Sample.handshake
  Sample.serverHello ++ (Sample.serverFlight []).toOption.getD [] ++
    (records.zipIdx.map fun ((content, ct), seq) => Sample.serverRecord e seq content ct).flatten

def sampleStart (records : List (Bytes × UInt8)) : Driver .sample Sample.sizes :=
  start Sample.conn (Block.zeros _) (Block.zeros _) (Engine.defaultOurRecvLimit Sample.sizes.recv)
    .default (sampleStream records)

/-- Driven in steps of 100 bytes and in steps of 20, the same comes out. -/
theorem drive_segmentation_sample :
    let d := sampleStart [(ascii "hello", ctApplicationData)]
    (∃ (outcome : Outcome .sample Sample.sizes) (calls : Nat), outcome.Delivers ∧
      ∀ choices : List Nat,
        (calls ≤ choices.length → (d.drive Sample.params choices).finished = true ∧
          (d.drive Sample.params choices).outcome = outcome) ∧
        (d.drive Sample.params choices).engine.recv.Ordered Sample.sizes.recv ∧
        ((d.drive Sample.params choices).report = some (.ok .recv) →
          0 < (d.drive Sample.params choices).engine.recvBufferLen)) ∧
    (d.drive Sample.params (List.replicate 40 100)).delivered = ascii "hello" ∧
    (d.drive Sample.params (List.replicate 60 20)).delivered = ascii "hello" := by
  refine ⟨drive_segmentation Sample.conn _ _ _ _ _ _ _ (by decide), ?_, ?_⟩ <;> decide +kernel

/-- Application data between the fragments of a post-handshake message is opened and refused. -/
theorem drive_interleaved :
    let d := (sampleStart [([hsNewSessionTicket], ctHandshake),
      (ascii "x", ctApplicationData)]).drive Sample.params (List.replicate 40 512)
    d.finished = true ∧ d.delivered = [] ∧
      Core.appContents d.engine.core.history.opened = ascii "x" := by
  decide +kernel

end Driver

end KrabiTls
