import KrabiTls.Engine.Steps
import KrabiTls.Lib.Loop

/-! The send buffer: what is pending lies within it, and acknowledging it in parts is acknowledging
it at once. -/
namespace KrabiTls
open Lib

namespace Core
variable {cfg : ClientConfig} {sz : Sizes} {call : Call cfg}
variable {c : Core cfg sz}

/-- The pending record lies within the send buffer. -/
structure SendWf (c : Core cfg sz) : Prop where
  acked : c.sendAcked ≤ c.sendPendingLen
  fits : c.sendPendingLen ≤ sz.send

theorem SendWf.markSent (h : c.SendWf) (n : Nat) : (c.markSent n).2.SendWf := by
  unfold Core.markSent
  split
  · exact h
  · dsimp only
    split
    · exact ⟨Nat.le_refl 0, Nat.zero_le _⟩
    · exact ⟨by simp only; omega, h.fits⟩

theorem sealRecord_sendWf {c' : Core cfg sz} {conn conn' : AppData} {content record : Bytes}
    {ct : UInt8} (hseal : c.sealRecord conn content ct = (.ok (record, conn'), c')) :
    (c'.queue record).SendWf := by
  obtain ⟨henc, -, rfl⟩ := sealRecord_eq_ok c hseal
  obtain ⟨-, -, -, hfits, -⟩ := RecordKeys.encryptRecord_eq_ok henc
  exact ⟨Nat.zero_le _, hfits⟩

theorem SendWf.step {c c' : Core cfg sz} (h : c.SendWf) (hstep : Step call c c') : c'.SendWf := by
  cases hstep with
  | flightQueued scratch _ _ hflight =>
    exact ⟨Nat.zero_le _, (clientFlight_eq_ok c hflight).2.fits⟩
  | answerFailed _ _ hseal =>
    obtain ⟨-, rfl, rfl⟩ := sealRecord_eq_ok c hseal
    exact ⟨h.acked, h.fits⟩
  | answered _ _ hseal _ | wrote _ _ hseal | closing _ _ hseal =>
    have hwf := sealRecord_sendWf hseal
    exact ⟨hwf.acked, hwf.fits⟩
  | acked hle => exact h.markSent _
  | terminal => exact ⟨Nat.le_refl 0, Nat.zero_le _⟩
  | _ => exact ⟨h.acked, h.fits⟩

theorem SendWf.steps {c' : Core cfg sz} (h : c.SendWf) (hsteps : Steps call c c') : c'.SendWf :=
  invariant_of_steps _ (fun _ _ h => h.step) hsteps h

def settle (c : Core cfg sz) : Core cfg sz :=
  (c.markSent (c.sendPendingLen - c.sendAcked)).2

theorem settle_not_pending (h : c.isSendPending = true) : c.settle.isSendPending = false := by
  have hlt : c.sendAcked < c.sendPendingLen := of_decide_eq_true h
  unfold settle markSent
  rw [if_neg (by omega)]
  dsimp only
  rw [if_pos (by omega)]
  rfl

/-- A partial acknowledgement leaves the same to settle. -/
theorem settle_markSent {n : Nat} (h : n < c.sendPendingLen - c.sendAcked) :
    (c.markSent n).2.settle = c.settle := by
  have hmark : c.markSent n = (.ok (), { c with
      sendAcked := c.sendAcked + n, history.acked := c.history.acked + n }) := by
    unfold markSent
    rw [if_neg (by omega)]
    dsimp only
    rw [if_neg (by omega)]
  have hsum : c.sendAcked + n + (c.sendPendingLen - (c.sendAcked + n)) = c.sendPendingLen := by omega
  have hsum' : c.sendAcked + (c.sendPendingLen - c.sendAcked) = c.sendPendingLen := by omega
  have hacked : c.history.acked + n + (c.sendPendingLen - (c.sendAcked + n)) =
      c.history.acked + (c.sendPendingLen - c.sendAcked) := by omega
  rw [hmark]
  simp [settle, markSent, hsum, hsum', hacked]

end Core

end KrabiTls
