import KrabiTls.Engine.Framing
import KrabiTls.Engine.Auth

/-! Why an engine is closed: in the data phase, because the peer has sent `close_notify`, a record
was rejected, a send failed, or the caller has closed it. -/
namespace KrabiTls
open Lib

/-- A warning alert with the description `close_notify`. -/
def OpenedRecord.IsCloseNotify (r : OpenedRecord) : Prop :=
  r.contentType = ctAlert ∧ r.content.take 2 = closeNotifyAlert

instance (r : OpenedRecord) : Decidable r.IsCloseNotify := inferInstanceAs (Decidable (_ ∧ _))

namespace Core
variable {cfg : ClientConfig} {sz : Sizes} {call : Call cfg} {c c' : Core cfg sz}

/-- An authenticated `close_notify` of the peer has been opened. -/
def Received (c : Core cfg sz) : Prop := ∃ r ∈ c.history.opened, r.IsCloseNotify

instance (c : Core cfg sz) : Decidable c.Received := inferInstanceAs (Decidable (∃ r ∈ _, _))

/-- A record was rejected or a send failed. -/
def Failed (c : Core cfg sz) : Prop := c.history.rejected ≠ [] ∨ c.history.terminal = true

instance (c : Core cfg sz) : Decidable c.Failed := inferInstanceAs (Decidable (_ ∨ _))

structure CloseInv (c : Core cfg sz) : Prop where
  cause : c.closed = true → c.Received ∨ c.Failed
  failed : c.Failed → c.closed = true

theorem CloseInv.congr (h : c.CloseInv) (hclosed : c'.closed = c.closed)
    (hopened : c.history.opened ⊆ c'.history.opened)
    (hrejected : c'.history.rejected = c.history.rejected)
    (hterminal : c'.history.terminal = c.history.terminal) : c'.CloseInv := by
  have hfailed : c'.Failed ↔ c.Failed := by rw [Failed, Failed, hrejected, hterminal]
  refine ⟨fun hc => ?_, fun hf => ?_⟩
  · rcases h.cause (hclosed ▸ hc) with ⟨r, hr, hnotify⟩ | hf
    · exact .inl ⟨r, hopened hr, hnotify⟩
    · exact .inr (hfailed.mpr hf)
  · rw [hclosed]
    exact h.failed (hfailed.mp hf)

theorem CloseInv.step (hdata : call.isData = true) (h : c.CloseInv) (hstep : Step call c c') :
    c'.CloseInv := by
  cases hstep with
  | opened => exact h.congr rfl (List.subset_append_left _ _) rfl rfl
  | closeNotify _ hr hct halert =>
    exact ⟨fun _ => .inl ⟨_, hr, hct, by rw [halert]; rfl⟩, fun _ => rfl⟩
  | rejected e => exact ⟨fun _ => .inr (.inl (by simp [reject])), fun _ => rfl⟩
  | answerFailed _ _ hseal | answered _ _ hseal _ | wrote _ _ hseal =>
    obtain ⟨-, rfl, rfl⟩ := sealRecord_eq_ok c hseal
    exact h.congr rfl (List.Subset.refl _) rfl rfl
  | acked hle =>
    obtain ⟨_, _, _, _, heq⟩ := c.markSent_eq _
    rw [heq]
    exact h.congr rfl (List.Subset.refl _) rfl rfl
  | terminal => exact ⟨fun _ => .inr (.inr rfl), fun _ => rfl⟩
  | postHandshake | rotatedRecv | sealFailed => exact h.congr rfl (List.Subset.refl _) rfl rfl
  | _ => cases hdata

theorem Step.failed_iff (hno : call ≠ .step) (hterminal : call ≠ .markTerminal)
    (hstep : Step call c c') : c'.Failed ↔ c.Failed := by
  cases hstep with
  | rejected | opened | answerFailed | answered => exact absurd rfl hno
  | terminal => exact absurd rfl hterminal
  | wrote _ _ hseal | closing _ _ hseal =>
    obtain ⟨-, rfl, rfl⟩ := sealRecord_eq_ok c hseal
    exact Iff.rfl
  | acked =>
    obtain ⟨_, _, _, _, heq⟩ := c.markSent_eq _
    rw [heq]
    exact Iff.rfl
  | _ => exact Iff.rfl

/-- What holds of an engine on which nothing but handshake calls were made. -/
structure Handshaking (c : Core cfg sz) : Prop where
  closed : c.closed = true ∨ c.history.terminal = true → c.state = .closed
  done : c.pendingHandshakeDone = true → ∃ conn, c.state = .app conn
  rejected : c.history.rejected = []
  opened : c.history.opened = []
  sealed : ∀ p ∈ c.history.sealed, p.1 = .handshake ∧ p.2.contentType = ctHandshake

theorem handshaking_new (sendRecord : Block sz.send) (recvRecord : Block sz.recv)
    (first : WaitServerHello cfg) (ourRecvLimit peerRecvLimit : RecordSizeLimit) :
    (Engine.new sendRecord recvRecord (.waitServerHello first) ourRecvLimit
      peerRecvLimit).core.Handshaking :=
  ⟨by simp [Engine.new], nofun, rfl, rfl, nofun⟩

theorem Handshaking.not_done (h : c.Handshaking) (hstate : ∀ conn, c.state ≠ .app conn) :
    c.pendingHandshakeDone = false := by
  by_contra hdone
  obtain ⟨conn, happ⟩ := h.done (by simpa using hdone)
  exact hstate conn happ

/-- Before the flight is accepted, the state may change as long as the flags do not. -/
theorem Handshaking.not_closed (h : c.Handshaking) (hstate : c.state ≠ .closed) :
    ¬ (c.closed = true ∨ c.history.terminal = true) := fun hc => hstate (h.closed hc)

theorem Handshaking.sealedFlight_types (h : c.Handshaking) {α : Type} {s : Sealing α}
    (hs : FlightRecords s.sealed) : ∀ p ∈ (c.sealedFlight s).history.sealed,
      p.1 = .handshake ∧ p.2.contentType = ctHandshake := by
  intro p hp
  simp only [Core.sealedFlight, List.mem_append, List.mem_map] at hp
  rcases hp with hp | ⟨r, hr, rfl⟩
  · exact h.sealed p hp
  · exact ⟨rfl, hs.types r hr⟩

theorem Handshaking.step (hcall : call.isHandshake = true) (h : c.Handshaking)
    (hstep : Step call c c') : c'.Handshaking := by
  cases hstep with
  | serverHello _ hstate | fed _ hstate =>
    have hdone := h.not_done (by simp [hstate])
    exact ⟨fun hc => absurd hc (h.not_closed (by simp [hstate])), by simp [hdone], h.rejected,
      h.opened, h.sealed⟩
  | serverHelloFailed _ hstate | flightRejected _ hstate =>
    have hdone := h.not_done (by simp [hstate])
    exact ⟨fun _ => rfl, by simp [hdone], h.rejected, h.opened, h.sealed⟩
  | flightFailed scratch _ haccepted =>
    have hdone := h.not_done (by simp [haccepted.state])
    exact ⟨fun _ => rfl, by simp [sealedFlight, hdone], h.rejected, h.opened,
      h.sealedFlight_types (clientFlight_records c _ _ _ scratch)⟩
  | flightQueued scratch _ haccepted =>
    exact ⟨fun hc => absurd hc (h.not_closed (by simp [haccepted.state])), fun _ => ⟨_, rfl⟩,
      h.rejected, h.opened, h.sealedFlight_types (clientFlight_records c _ _ _ scratch)⟩
  | peerLimit | sealFailed => exact ⟨h.closed, h.done, h.rejected, h.opened, h.sealed⟩
  | handshakeDone => exact ⟨h.closed, by rintro ⟨⟩, h.rejected, h.opened, h.sealed⟩
  | acked hle =>
    obtain ⟨_, _, _, _, heq⟩ := c.markSent_eq _
    rw [heq]
    exact ⟨h.closed, h.done, h.rejected, h.opened, h.sealed⟩
  | terminal => exact ⟨fun _ => rfl, by rintro ⟨⟩, h.rejected, h.opened, h.sealed⟩
  | _ => cases hcall

end Core

namespace Engine
variable {cfg : ClientConfig} {sz : Sizes}

theorem call_failed_iff (e : Engine cfg sz) (call : Call cfg) (hstep : call ≠ .step)
    (hterminal : call ≠ .markTerminal) : (e.call call).2.core.Failed ↔ e.core.Failed := by
  have hsteps := e.call_steps call
  generalize (e.call call).2.core = c at hsteps ⊢
  induction hsteps with
  | refl => exact Iff.rfl
  | tail _ h ih => exact (h.failed_iff hstep hterminal).trans ih

/-- The end of the handshake finds the engine open, with nothing to send. -/
theorem stepHandshake_done {e e' : Engine cfg sz} {params : ClientParams cfg}
    (h : e.core.Handshaking) (hstep : e.stepHandshake params = (.ok .handshakeDone, e')) :
    (∃ conn, e'.core.state = .app conn) ∧ e'.core.isSendPending = false := by
  have hrule : ∀ r, r = e.stepHandshake params → r.1 = .ok .handshakeDone →
      (∃ conn, r.2.core.state = .app conn) ∧ r.2.core.isSendPending = false := by
    rintro _ rfl
    refine stepLoop_rule (fun e => e.core.Handshaking) (fun r => r.1 = .ok .handshakeDone →
      (∃ conn, r.2.core.state = .app conn) ∧ r.2.core.isSendPending = false) ?_ ?_ ?_ ?_ ?_ e h
    · rintro e event e' h hevent ⟨⟩
      obtain ⟨-, hpending, hdone, hacked⟩ := idleEvent_eq_handshakeDone hevent
      simp only [idleEvent, hpending, hdone, hacked] at hevent
      cases hevent
      exact ⟨h.done hdone, hpending⟩
    · exact fun _ _ _ _ => nofun
    · exact fun _ _ _ _ _ => nofun
    · exact fun _ _ _ _ _ _ _ _ _ _ => nofun
    · intro e start stop outerType e' h hidle _ hok
      have hsteps :=
        dispatchHandshakeRecord_steps params e start stop outerType (quiet_of_idleEvent hidle)
      rw [hok] at hsteps
      exact invariant_of_steps _ (fun _ _ h => h.step rfl) hsteps h
  have := hrule _ rfl
  rw [hstep] at this
  exact this rfl

end Engine

end KrabiTls
