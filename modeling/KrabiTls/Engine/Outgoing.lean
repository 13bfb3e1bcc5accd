import KrabiTls.Engine.Sending
import KrabiTls.Engine.Records

/-! The records on their way out in the data phase: every record sealed under the application keys
has been sent, except for the one in the send buffer. -/
namespace KrabiTls
open Lib

namespace Core
variable {cfg : ClientConfig} {sz : Sizes} {c c' : Core cfg sz}
variable {conn conn' : AppData} {content record : Bytes}
variable {ct : UInt8}

def appSealed (c : Core cfg sz) : List SealedRecord :=
  (c.history.sealed.filter (·.1 ≠ .handshake)).map Prod.snd

def outgoing (c : Core cfg sz) : List Bytes :=
  if c.isSendPending then [slice c.sendRecord.val 0 c.sendPendingLen] else []

/-- In the data phase, `sent` are the records sent, and the rest is in the send buffer. -/
structure SendLog (sent : List Bytes) (c : Core cfg sz) : Prop where
  app : ∃ conn, c.state = .app conn
  sendWf : c.SendWf
  log : c.appSealed.map SealedRecord.record = sent ++ c.outgoing

variable {sent : List Bytes}

theorem SendLog.congr (h : c.SendLog sent) (happ : ∃ conn, c'.state = .app conn)
    (hsealed : c'.history.sealed = c.history.sealed) (hrecord : c'.sendRecord = c.sendRecord)
    (hlen : c'.sendPendingLen = c.sendPendingLen) (hacked : c'.sendAcked = c.sendAcked) :
    c'.SendLog sent := by
  refine ⟨happ, ⟨by rw [hlen, hacked]; exact h.sendWf.acked, by rw [hlen]; exact h.sendWf.fits⟩, ?_⟩
  rw [appSealed, outgoing, isSendPending, hsealed, hrecord, hlen, hacked]
  exact h.log

theorem outgoing_nil (h : c.isSendPending = false) : c.outgoing = [] := by simp [outgoing, h]

theorem outgoing_queue (hseal : c.sealRecord conn content ct = (.ok (record, conn'), c')) :
    (c'.queue record).outgoing = [record] := by
  obtain ⟨henc, -, rfl⟩ := sealRecord_eq_ok c hseal
  obtain ⟨-, -, hlen, hfits, -⟩ := RecordKeys.encryptRecord_eq_ok henc
  have hself : slice (overwrite c.sendRecord.val 0 record) 0 (0 + record.length) = record :=
    slice_overwrite_self (by rw [c.sendRecord.property]; omega)
  rw [Nat.zero_add] at hself
  have hpos : 0 < record.length := by omega
  simp [Core.queue, outgoing, isSendPending, Block.overwrite, hself, hpos]

theorem SendLog.queue (h : c.SendLog sent) (hpending : c.isSendPending = false)
    (hseal : c.sealRecord conn content ct = (.ok (record, conn'), c')) :
    (c'.queue record).SendLog sent ∧ (c'.queue record).appSealed =
      c.appSealed ++ [⟨conn.seqOut, ct, content, record⟩] := by
  have hwf := sealRecord_sendWf hseal
  have hout := outgoing_queue hseal
  obtain ⟨-, -, hc'⟩ := sealRecord_eq_ok c hseal
  have hsealed : (c'.queue record).appSealed =
      c.appSealed ++ [⟨conn.seqOut, ct, content, record⟩] := by
    simp [Core.queue, appSealed, hc']
  refine ⟨⟨⟨conn', by rw [hc']; rfl⟩, hwf, ?_⟩, hsealed⟩
  rw [hsealed, hout, List.map_append, h.log, outgoing_nil hpending, List.append_nil]
  rfl

theorem SendLog.opened (h : c.SendLog sent) {record record' content : Bytes} {ct : UInt8}
    (hopen : c.decryptDataRecord record = (.ok (content, ct), record', c')) :
    c'.SendLog sent ∧ c'.isSendPending = c.isSendPending := by
  obtain ⟨conn, -, rfl⟩ := decryptDataRecord_eq_ok hopen
  exact ⟨h.congr ⟨_, rfl⟩ rfl rfl rfl rfl, rfl⟩

/-- Records that are accepted seal nothing but answers to key updates. -/
theorem SendLog.accepts (h : c.SendLog sent) (hpending : c.isSendPending = false)
    {content parked : Bytes} {ct : UInt8} (haccepts : c.Accepts content ct parked c') :
    c'.SendLog sent := by
  cases haccepts with
  | appData => exact h
  | closeNotify | goesOn => exact h.congr h.app rfl rfl rfl rfl
  | keyUpdate => exact h.congr ⟨_, rfl⟩ rfl rfl rfl rfl
  | @keyUpdateRequested ph conn conn' conn₁ conn₂ record c₁ _ _ _ hseal =>
    have hrotated : ({ c with ph }.rotatedRecv conn').SendLog sent :=
      h.congr ⟨_, rfl⟩ rfl rfl rfl rfl
    exact (hrotated.queue hpending hseal).1.congr ⟨_, rfl⟩ rfl rfl rfl rfl

theorem sendBytes_eq_drop (c : Core cfg sz) :
    c.sendBytes = (slice c.sendRecord.val 0 c.sendPendingLen).drop c.sendAcked := by
  unfold sendBytes
  split
  · rename_i hzero
    simp [hzero, slice]
  · rw [drop_slice, Nat.zero_add]

theorem SendWf.sendBytes_length (h : c.SendWf) :
    c.sendBytes.length = c.sendPendingLen - c.sendAcked := by
  rw [sendBytes_eq_drop, List.length_drop,
    slice_length_of_le (by rw [c.sendRecord.property]; exact h.fits)]
  omega

theorem SendWf.sendBytes_eq_nil (h : c.SendWf) : c.sendBytes = [] ↔ c.isSendPending = false := by
  rw [← List.length_eq_zero_iff, h.sendBytes_length]
  simp only [isSendPending, decide_eq_false_iff_not]
  omega

theorem SendWf.markSent_sendBytes (h : c.SendWf) (hpending : c.isSendPending = true) :
    (c.markSent c.sendBytes.length).2 = { c with
      sendPendingLen := 0, sendAcked := 0, handshakeFinishedPendingAck := false
      history.acked := c.history.acked + c.sendBytes.length } := by
  have hlt : c.sendAcked < c.sendPendingLen := of_decide_eq_true hpending
  have hlen := h.sendBytes_length
  unfold Core.markSent
  rw [if_neg (by omega)]
  dsimp only
  rw [if_pos (by omega)]

theorem SendLog.allSent (h : c.SendLog sent) (hpending : c.isSendPending = true) :
    (c.markSent c.sendBytes.length).2.SendLog (sent ++ c.outgoing) ∧
      (c.markSent c.sendBytes.length).2.sendAcked = 0 ∧
      (c.markSent c.sendBytes.length).2.isSendPending = false := by
  rw [h.sendWf.markSent_sendBytes hpending]
  exact ⟨⟨h.app, ⟨Nat.le_refl _, Nat.zero_le _⟩, by simpa [outgoing, isSendPending, appSealed]
    using h.log⟩, rfl, rfl⟩

/-- The `close_notify` alerts sealed so far. -/
def closeNotifies (c : Core cfg sz) : Nat :=
  c.history.sealed.countP fun p => p.2.contentType = ctAlert ∧ p.2.content = closeNotifyAlert

theorem closeNotifies_sealRecord
    (hseal : c.sealRecord conn content ct = (.ok (record, conn'), c')) :
    c'.closeNotifies = c.closeNotifies + if ct = ctAlert ∧ content = closeNotifyAlert then 1 else 0 := by
  obtain ⟨-, -, rfl⟩ := sealRecord_eq_ok c hseal
  simp [closeNotifies, List.countP_append, List.countP_cons]

theorem closeNotifies_sealedFlight {α : Type} {s : Sealing α} (hs : FlightRecords s.sealed) :
    (c.sealedFlight s).closeNotifies = c.closeNotifies := by
  have hnone : (s.sealed.map ((.handshake, ·) : SealedRecord → SendGen × SealedRecord)).countP
      (fun p => p.2.contentType = ctAlert ∧ p.2.content = closeNotifyAlert) = 0 := by
    rw [List.countP_eq_zero]
    intro p hp
    obtain ⟨r, hr, rfl⟩ := List.mem_map.mp hp
    have hct := hs.types r hr
    simp only [hct, decide_eq_true_eq]
    exact fun h => absurd h.1 (by decide)
  simp only [closeNotifies, sealedFlight, List.countP_append, hnone, Nat.add_zero]

/-- Nothing but `close` seals a `close_notify`. -/
theorem Step.closeNotifies {call : Call cfg} (hclose : call ≠ .close) (hstep : Step call c c') :
    c'.closeNotifies = c.closeNotifies := by
  cases hstep with
  | flightFailed scratch | flightQueued scratch =>
    exact closeNotifies_sealedFlight (clientFlight_records c _ _ _ scratch)
  | answerFailed _ _ hseal | answered _ _ hseal =>
    have hcount := closeNotifies_sealRecord hseal
    rwa [if_neg (by decide), Nat.add_zero] at hcount
  | wrote _ _ hseal =>
    have hcount := closeNotifies_sealRecord hseal
    rwa [if_neg fun h => absurd h.1 (by decide), Nat.add_zero] at hcount
  | acked =>
    obtain ⟨_, _, _, _, heq⟩ := c.markSent_eq _
    rw [heq]
    rfl
  | closing | closedEarly => exact absurd rfl hclose
  | _ => rfl

end Core

namespace Engine
variable {cfg : ClientConfig} {sz : Sizes} {e e' : Engine cfg sz} {sent : List Bytes}

/-- A step sends nothing and loses nothing. -/
theorem step_sendLog {event : EngineEvent} (h : e.core.SendLog sent)
    (hstep : e.step = (.ok event, e')) : e'.core.SendLog sent := by
  have hrule : e.step.1.isOk = true → e.step.2.core.SendLog sent := by
    refine stepLoop_rule (fun e => e.core.SendLog sent)
      (fun r => r.1.isOk = true → r.2.core.SendLog sent) ?_ ?_ ?_ ?_ ?_ e h
    · intro e event e' h hevent _
      rw [idleEvent_data hevent]
      exact h
    · intro e h _ _ _
      simpa using h
    · exact fun _ _ _ _ _ => nofun
    · exact fun _ _ _ _ _ _ _ _ _ _ => nofun
    · intro e start stop outerType e' h hidle _ hok
      obtain ⟨content, ct, parked, record, opened, hopen, haccepts⟩ := dispatchDataRecord_accepts hok
      have hpending := (quiet_of_idleEvent hidle).idle.not_pending
      obtain ⟨hopened, hsame⟩ := h.opened hopen
      exact hopened.accepts (hsame.trans hpending) haccepts
  rw [hstep] at hrule
  exact hrule rfl

end Engine

end KrabiTls
