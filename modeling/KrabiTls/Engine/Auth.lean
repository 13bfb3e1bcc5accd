import KrabiTls.Engine.Steps
import KrabiTls.Lib.Loop

/-! What has been checked by the time the engine reports the end of the handshake, application data
or an accepted write. -/
namespace KrabiTls
open Lib

/-- Every check of the server passed on this data: `first` is the connection that sent the
`ClientHello`, `r` holds the received flight. -/
structure AuthRecord.Valid {cfg : ClientConfig} {n : Nat} (first : WaitServerHello cfg)
    (r : ServerFlightReassembler n) (maxChain : Nat) (a : AuthRecord cfg) : Prop where
  hello : ∃ record conn, first.readServerHello record = .ok conn ∧
    a.transcript = conn.transcript ∧ a.sHsTs = conn.sHsTs
  received : ∃ bytes, r.flightBytes = some bytes ∧ parseServerFlight bytes = .ok a.flight
  chain : extractChain maxChain a.flight.certBody = .ok a.chain
  trusted : a.params.verifyChain a.chain = some a.prepared
  leaf : ∃ der, a.chain.head? = some der ∧ cfg.certParser der = .ok a.leafView
  matched : a.prepared.matchesCert a.leafView = true
  hostname : verifyHostname cfg.features a.leafView a.params.hostname = .ok ()
  verified : FlightVerified cfg.features cfg.hkdf a.transcript a.flight a.sHsTs a.prepared

inductive AuthPhase (cfg : ClientConfig) where
  | waitServerHello (conn : WaitServerHello cfg)
  | waitFlight (transcript : TranscriptHash) (sHsTs : Secret)
  | app
  | closed

@[simp] def EngineState.authPhase {cfg : ClientConfig} : EngineState cfg → AuthPhase cfg
  | .waitServerHello conn => .waitServerHello conn
  | .waitFlight conn => .waitFlight conn.transcript conn.sHsTs
  | .app _ => .app
  | .closed => .closed

/-- The part of the protocol state the order of the handshake is about. -/
structure AuthView (cfg : ClientConfig) (n : Nat) where
  phase : AuthPhase cfg
  reassembler : ServerFlightReassembler n
  authenticated : List (AuthRecord cfg)
  flightLen : Nat
  acked : Nat
  sendPendingLen : Nat
  sendAcked : Nat
  pendingHandshakeDone : Bool
  handshakeFinishedPendingAck : Bool

/-- Either the client flight is acknowledged, or it is what is being sent. -/
def AuthView.FlightSent {cfg : ClientConfig} {n : Nat} (v : AuthView cfg n) : Prop :=
  v.flightLen ≤ v.acked ∨
    v.acked = v.sendAcked ∧ v.flightLen = v.sendPendingLen ∧ v.handshakeFinishedPendingAck = true

structure AuthView.Inv {cfg : ClientConfig} {n : Nat} (first : WaitServerHello cfg)
    (allowed : Call cfg → Prop) (maxChain : Nat) (v : AuthView cfg n) : Prop where
  hello : ∀ conn, v.phase = .waitServerHello conn → conn = first ∧ v.authenticated = []
  flight : ∀ transcript sHsTs, v.phase = .waitFlight transcript sHsTs → v.authenticated = [] ∧
    ∃ record conn, first.readServerHello record = .ok conn ∧ transcript = conn.transcript ∧
      sHsTs = conn.sHsTs
  app : v.phase = .app → v.authenticated ≠ [] ∧ v.FlightSent
  done : v.pendingHandshakeDone = true → v.phase = .app
  valid : ∀ a ∈ v.authenticated, allowed (.stepHandshake a.params) ∧ a.Valid first v.reassembler maxChain

namespace Core
variable {cfg : ClientConfig} {sz : Sizes} {allowed : Call cfg → Prop}
  {first : WaitServerHello cfg}
variable {c c' : Core cfg sz}

def authView (c : Core cfg sz) : AuthView cfg sz.flight where
  phase := c.state.authPhase
  reassembler := c.reassembler
  authenticated := c.history.authenticated
  flightLen := c.history.flightLen
  acked := c.history.acked
  sendPendingLen := c.sendPendingLen
  sendAcked := c.sendAcked
  pendingHandshakeDone := c.pendingHandshakeDone
  handshakeFinishedPendingAck := c.handshakeFinishedPendingAck

/-- The invariant of the handshake order. -/
abbrev AuthInv (first : WaitServerHello cfg) (allowed : Call cfg → Prop) (c : Core cfg sz) :
    Prop :=
  c.authView.Inv first allowed sz.maxChain

/-- A flight that gets past `finalize_server_flight` has passed every check. -/
theorem FlightAccepted.valid {c : Core cfg sz} {params : ClientParams cfg}
    {conn : WaitServerFlight} {accepted : Accepted cfg} {done : ServerFlightDone}
    (h : c.FlightAccepted params conn accepted done)
    (hhello : ∃ record conn', first.readServerHello record = .ok conn' ∧
      conn.transcript = conn'.transcript ∧ conn.sHsTs = conn'.sHsTs) :
    (accepted.auth params conn).Valid first c.reassembler sz.maxChain := by
  have hchecked := acceptFlight_checked c h.accept
  obtain ⟨bytes, hbytes, hflight⟩ := hchecked.received
  obtain ⟨-, bytes', flight, owned, hbytes', hflight', hverified, -⟩ :=
    (WaitServerFlight.finalizeServerFlight_eq_ok cfg).mp h.finalize
  -- both look at the same reassembled bytes, so at the same messages
  obtain rfl : bytes' = bytes := by rw [hbytes'] at hbytes; exact Option.some.inj hbytes
  obtain rfl : flight = accepted.flight := by rw [hflight'] at hflight; exact Except.ok.inj hflight
  exact ⟨hhello, hchecked.received, hchecked.chain, hchecked.trusted, hchecked.leaf,
    hchecked.matched, hchecked.hostname, hverified⟩

theorem not_pending_flightLen (hpending : c.isSendPending = false) (hsent : c.authView.FlightSent) :
    c.history.flightLen ≤ c.history.acked := by
  rcases hsent with hle | ⟨hacked, hlen, -⟩
  · exact hle
  · have hle : c.sendPendingLen ≤ c.sendAcked := by simpa [isSendPending] using hpending
    exact (le_of_eq_of_le hlen hle).trans_eq hacked.symm

theorem AuthInv.not_done (hinv : c.AuthInv first allowed) (hphase : c.authView.phase ≠ .app) :
    c.pendingHandshakeDone = false := by
  by_contra h
  exact hphase (hinv.done (by simpa [authView] using h))

theorem AuthInv.stop (hinv : c.AuthInv first allowed) (hphase : c'.state = .closed)
    (hdone : c'.pendingHandshakeDone = false)
    (hauth : c'.history.authenticated = c.history.authenticated)
    (hreasm : c'.reassembler = c.reassembler) : c'.AuthInv first allowed := by
  have hclosed : c'.authView.phase = .closed := by simp [authView, hphase]
  refine ⟨by simp [hclosed], by simp [hclosed], by simp [hclosed], ?_, ?_⟩
  · intro h
    simp [authView, hdone] at h
  · simp only [authView, hauth, hreasm]
    exact hinv.valid

/-- In the application phase, a change of what is being sent keeps the invariant if the client
flight is done with. -/
theorem AuthInv.app_step (hinv : c.AuthInv first allowed) (hphase : c.authView.phase = .app)
    (hphase' : c'.authView.phase = .app)
    (hauth : c'.history.authenticated = c.history.authenticated)
    (hreasm : c'.reassembler = c.reassembler) (hsent : c'.authView.FlightSent) :
    c'.AuthInv first allowed := by
  refine ⟨by simp [hphase'], by simp [hphase'], fun _ => ⟨?_, hsent⟩, fun _ => hphase', ?_⟩
  · simp only [authView, hauth]
    exact (hinv.app hphase).1
  · simp only [authView, hauth, hreasm]
    exact hinv.valid

theorem AuthInv.queued {c c' : Core cfg sz} {conn conn' : AppData} {content record : Bytes}
    {ct : UInt8} (hinv : c.AuthInv first allowed) (hidle : c.Idle) (hstate : c.state = .app conn)
    (hseal : c.sealRecord conn content ct = (.ok (record, conn'), c')) :
    (c'.queue record).AuthInv first allowed := by
  have hphase : c.authView.phase = .app := by simp [authView, hstate]
  have hacked := not_pending_flightLen hidle.not_pending (hinv.app hphase).2
  obtain ⟨-, rfl, rfl⟩ := sealRecord_eq_ok c hseal
  exact hinv.app_step hphase rfl rfl rfl (.inl hacked)

theorem AuthInv.acked {n : Nat} (hinv : c.AuthInv first allowed)
    (hle : c.sendAcked + n ≤ c.sendPendingLen) : (c.markSent n).2.AuthInv first allowed := by
  have hsame : (c.markSent n).2.state = c.state ∧ (c.markSent n).2.reassembler = c.reassembler ∧
      (c.markSent n).2.history.authenticated = c.history.authenticated ∧
      (c.markSent n).2.pendingHandshakeDone = c.pendingHandshakeDone := by
    unfold markSent
    split
    · exact ⟨rfl, rfl, rfl, rfl⟩
    · dsimp only
      split <;> exact ⟨rfl, rfl, rfl, rfl⟩
  obtain ⟨hstate, hreasm, hauth, hdone⟩ := hsame
  have hphase : (c.markSent n).2.authView.phase = c.authView.phase := by simp [authView, hstate]
  by_cases happ : c.authView.phase = .app
  · refine hinv.app_step happ (hphase.trans happ) hauth hreasm ?_
    unfold markSent
    rw [if_neg (by omega)]
    rcases (hinv.app happ).2 with hdone | ⟨hacked, hlen, hflag⟩
    · have : c.history.flightLen ≤ c.history.acked + n := Nat.le_add_right_of_le hdone
      dsimp only
      split <;> exact .inl this
    · simp only [authView] at hacked hlen hflag
      dsimp only
      split
      · exact .inl (show c.history.flightLen ≤ c.history.acked + n by omega)
      · exact .inr ⟨show c.history.acked + n = c.sendAcked + n by omega, hlen, hflag⟩
  · refine ⟨?_, ?_, ?_, ?_, ?_⟩
    · rw [hphase]
      simpa only [authView, hauth] using hinv.hello
    · rw [hphase]
      simpa only [authView, hauth] using hinv.flight
    · rw [hphase]
      exact fun h => absurd h happ
    · rw [hphase]
      simpa only [authView, hdone] using hinv.done
    · simpa only [authView, hauth, hreasm] using hinv.valid

theorem feedServerRecordInplace_keys (cfg : ClientConfig) (conn : WaitServerFlight) (record : Bytes)
    (r : ServerFlightReassembler sz.flight) :
    (conn.feedServerRecordInplace cfg record r).conn.transcript = conn.transcript ∧
      (conn.feedServerRecordInplace cfg record r).conn.sHsTs = conn.sHsTs := by
  rcases conn.feedServerRecordInplace_cases cfg record r with
    ⟨hconn, -⟩ | ⟨_, _, _, _, -, -, -, hconn, -⟩ <;>
  · rw [hconn]
    exact ⟨rfl, rfl⟩

theorem AuthInv.step {c c' : Core cfg sz} (hcall : allowed call) (hinv : c.AuthInv first allowed)
    (hstep : Step call c c') : c'.AuthInv first allowed := by
  cases hstep with
  | @serverHello _ conn record next _ _ hstate hread =>
    obtain ⟨rfl, hnone⟩ := hinv.hello conn (by simp [authView, hstate])
    refine ⟨by simp [authView], ?_, by simp [authView], ?_, hinv.valid⟩
    · intro transcript sHsTs h
      simp only [authView, EngineState.authPhase, AuthPhase.waitFlight.injEq] at h
      exact ⟨hnone, record, next, hread, h.1.symm, h.2.symm⟩
    · have hnot := hinv.not_done (by simp [authView, hstate])
      simp [authView, hnot]
  | serverHelloFailed _ hstate | flightRejected _ hstate =>
    exact hinv.stop rfl (hinv.not_done (by simp [authView, hstate])) rfl rfl
  | @fed _ conn _ _ hstate record =>
    obtain ⟨htranscript, hkeys⟩ := feedServerRecordInplace_keys cfg conn record c.reassembler
    obtain ⟨hnone, hhello⟩ := hinv.flight _ _ (show c.authView.phase = _ by rw [authView, hstate]; rfl)
    refine ⟨by simp [authView], ?_, by simp [authView], ?_, ?_⟩
    · intro transcript sHsTs h
      simp only [authView, EngineState.authPhase, AuthPhase.waitFlight.injEq] at h
      rw [← h.1, ← h.2, htranscript, hkeys]
      exact ⟨hnone, hhello⟩
    · have hnot := hinv.not_done (by simp [authView, hstate])
      simp [authView, hnot]
    · intro a ha
      have hmem : a ∈ c.authView.authenticated := ha
      simp [hnone] at hmem
  | flightFailed scratch _ haccepted =>
    exact hinv.stop rfl (hinv.not_done (by simp [authView, haccepted.state])) rfl rfl
  | @flightQueued _ params conn accepted done n record app scratch _ haccepted _ =>
    obtain ⟨hnone, hhello⟩ := hinv.flight _ _
      (show c.authView.phase = _ by rw [authView, haccepted.state]; rfl)
    have hauth : c.history.authenticated = [] := hnone
    refine ⟨by simp [authView, installApp], by simp [authView, installApp], fun _ => ⟨?_, ?_⟩,
      fun _ => rfl, ?_⟩
    · simp [authView, installApp]
    · exact .inr ⟨rfl, rfl, rfl⟩
    · intro a ha
      simp only [authView, installApp, sealedFlight, hauth, List.nil_append,
        List.mem_singleton] at ha
      subst ha
      exact ⟨hcall, haccepted.valid hhello⟩
  | handshakeDone _ _ _ => exact ⟨hinv.hello, hinv.flight, hinv.app, by simp [authView], hinv.valid⟩
  | peerLimit | closeNotify | rejected | postHandshake | sealFailed | closedEarly => exact hinv
  | opened _ hstate | rotatedRecv _ hstate =>
    have hphase : c.authView.phase = .app := by simp [authView, hstate]
    exact hinv.app_step hphase rfl rfl rfl (hinv.app hphase).2
  | answerFailed _ hstate hseal =>
    have hphase : c.authView.phase = .app := by simp [authView, hstate]
    obtain ⟨-, rfl, rfl⟩ := sealRecord_eq_ok c hseal
    exact hinv.app_step hphase rfl rfl rfl (hinv.app hphase).2
  | answered hidle hstate hseal _ =>
    have hqueued := hinv.queued hidle hstate hseal
    obtain ⟨-, rfl, rfl⟩ := sealRecord_eq_ok c hseal
    exact hqueued.app_step rfl rfl rfl rfl (hqueued.app rfl).2
  | wrote hidle hstate hseal => exact hinv.queued hidle hstate hseal
  | closing hidle hstate hseal =>
    have hqueued := hinv.queued hidle hstate hseal
    exact hqueued
  | acked hle => exact hinv.acked hle
  | terminal => exact hinv.stop rfl rfl rfl rfl

theorem AuthInv.steps (hcall : allowed call) (hinv : c.AuthInv first allowed)
    (hsteps : Steps call c c') : c'.AuthInv first allowed :=
  invariant_of_steps _ (fun _ _ h => h.step hcall) hsteps hinv

theorem Step.authenticated_ne_nil (hstep : Step call c c') (hne : c.history.authenticated ≠ []) :
    c'.history.authenticated ≠ [] := by
  cases hstep with
  | flightQueued => simp [installApp]
  | answerFailed _ _ hseal | answered _ _ hseal _ | wrote _ _ hseal | closing _ _ hseal =>
    obtain ⟨-, rfl, rfl⟩ := sealRecord_eq_ok c hseal
    exact hne
  | @acked _ n hle =>
    unfold markSent
    rw [if_neg (by omega)]
    dsimp only
    split <;> exact hne
  | _ => exact hne

theorem Steps.authenticated_ne_nil (hsteps : Steps call c c') (hne : c.history.authenticated ≠ []) :
    c'.history.authenticated ≠ [] := by
  induction hsteps with
  | refl => exact hne
  | tail _ hstep ih => exact hstep.authenticated_ne_nil ih

/-- A handshake record that ends the handshake leaves the acknowledgement of the flight open. -/
theorem finalizeAndFinish_done (hdone : c.pendingHandshakeDone = false) (params : ClientParams cfg)
    {n : Nat} (scratch : Block n)
    (h : (c.finalizeAndFinish params scratch).2.2.pendingHandshakeDone = true) :
    (c.finalizeAndFinish params scratch).2.2.handshakeFinishedPendingAck = true := by
  unfold finalizeAndFinish finishFlight at h ⊢
  split at h
  · simp [hdone] at h
  · split at h
    · simp [hdone] at h
    · split at h
      · split at h
        · simp [hdone] at h
        · dsimp only at h ⊢
          split at h
          · simp [sealedFlight, hdone] at h
          · rename_i hresult
            simp_all [installApp]
      · simp [hdone] at h

end Core

namespace Engine
variable {cfg : ClientConfig} {sz : Sizes} {allowed : Call cfg → Prop}
  {first : WaitServerHello cfg}
variable {e e' : Engine cfg sz} {outerType : UInt8}
variable {start stop : Nat}

theorem idleEvent_eq_appData {handshake : Bool} (h : e.idleEvent handshake = some (.appData, e')) :
    e.recv.plaintextParked = true := by
  unfold idleEvent at h
  repeat' split at h
  all_goals cases h
  assumption

theorem idleEvent_eq_handshakeDone {handshake : Bool}
    (h : e.idleEvent handshake = some (.handshakeDone, e')) :
    handshake = true ∧ e.core.isSendPending = false ∧ e.core.pendingHandshakeDone = true ∧
      e.core.handshakeFinishedPendingAck = false := by
  unfold idleEvent at h
  repeat' split at h
  all_goals cases h
  rename_i hpending hdone
  exact ⟨hdone.1, by simpa using hpending, hdone.2.1, by simpa using hdone.2.2⟩

theorem dispatchDataRecord_eq_ok (h : e.dispatchDataRecord start stop outerType = (.ok (), e')) :
    ∃ conn, e.core.state = .app conn := by
  rcases e.core.dispatchDataRecord_cases outerType (slice e.recvRecord.val start stop) with
    ⟨err, herr, -⟩ | ⟨_, _, _, _, hopen, -⟩
  · simp [dispatchDataRecord, herr] at h
  · obtain ⟨conn, hstate, -⟩ := Core.decryptDataRecord_eq_ok hopen
    exact ⟨conn, hstate⟩

theorem dispatchDataRecord_eq_error {err : HandshakeError}
    (h : e.dispatchDataRecord start stop outerType = (.error err, e')) :
    e'.recv.plaintextParked = e.recv.plaintextParked := by
  unfold dispatchDataRecord at h
  dsimp only at h
  split at h <;> cases h
  rfl

theorem step_ne_handshakeDone (e : Engine cfg sz) : e.step.1 ≠ .ok .handshakeDone := by
  refine stepLoop_rule (fun _ => True) (fun r => r.1 ≠ .ok .handshakeDone) ?_ ?_ ?_ ?_ ?_ e trivial
  · rintro e₁ event e₂ - hevent ⟨⟩
    exact absurd (idleEvent_eq_handshakeDone hevent).1 Bool.false_ne_true
  · rintro e₁ - - - ⟨⟩
  · rintro e₁ err - - - ⟨⟩
  · rintro e₁ start stop t err e₂ - - - - ⟨⟩
  · intros
    trivial

/-- Plaintext comes out of `step` only if it was parked or the handshake was over before. -/
theorem step_appData (e : Engine cfg sz)
    (h : e.step.1 = .ok .appData ∨ e.step.2.recv.plaintextParked = true) :
    e.recv.plaintextParked = true ∨ ∃ conn, e.core.state = .app conn := by
  revert h
  refine stepLoop_rule (fun e' => e' = e ∨ ∃ conn, e.core.state = .app conn)
    (fun r => r.1 = .ok .appData ∨ r.2.recv.plaintextParked = true →
      e.recv.plaintextParked = true ∨ ∃ conn, e.core.state = .app conn) ?_ ?_ ?_ ?_ ?_ e (.inl rfl)
  · rintro e₁ event e₂ (rfl | happ) hevent h
    · rcases h with h | h
      · cases h
        exact .inl (idleEvent_eq_appData hevent)
      · exact .inl (idleEvent_recv hevent ▸ h)
    · exact .inr happ
  · rintro e₁ - hidle - h
    simp [compactRecv_parked (quiet_of_idleEvent hidle).not_parked] at h
  · rintro e₁ err - hidle - h
    simp [(quiet_of_idleEvent hidle).not_parked] at h
  · rintro e₁ start stop t err e₂ - hidle - herr h
    simp [dispatchDataRecord_eq_error herr, (quiet_of_idleEvent hidle).not_parked] at h
  · rintro e₁ start stop t e₂ (rfl | happ) - - hok
    · exact .inr (dispatchDataRecord_eq_ok hok)
    · exact .inr happ

theorem handleHandshakeRecord_done (params : ClientParams cfg) (start stop : Nat)
    (outerType : UInt8) (hdone : e.core.pendingHandshakeDone = false)
    (h : (e.handleHandshakeRecord params start stop outerType).2.core.pendingHandshakeDone = true) :
    (e.handleHandshakeRecord params start stop outerType).2.core.handshakeFinishedPendingAck =
      true := by
  unfold handleHandshakeRecord at h ⊢
  split at h
  · have hkeep : (e.core.handleServerHello outerType
        (slice e.recvRecord.val start stop)).2.pendingHandshakeDone = false := by
      unfold Core.handleServerHello
      repeat' split
      all_goals exact hdone
    simp [hkeep] at h
  · have hkeep : (e.core.feedFlightRecord
        (slice e.recvRecord.val start stop)).2.2.pendingHandshakeDone = false := by
      unfold Core.feedFlightRecord
      repeat' split
      all_goals exact hdone
    unfold handleFlightRecord at h ⊢
    dsimp only at h ⊢
    split at h
    · simp [hkeep] at h
    · simp [hkeep] at h
    · exact Core.finalizeAndFinish_done hkeep params _ h
  · simp [hdone] at h
  · simp [hdone] at h

/-- A record is only handled in the handshake phase while the handshake is not over, and one that
ends it leaves its report to a later call. -/
theorem dispatchHandshakeRecord_done {params : ClientParams cfg}
    (hinv : e.core.AuthInv first allowed)
    (h : e.dispatchHandshakeRecord params start stop outerType = (.ok (), e'))
    (hdone : e'.core.pendingHandshakeDone = true) :
    e'.core.handshakeFinishedPendingAck = true := by
  have happ : e.core.authView.phase ≠ .app := by
    intro hphase
    cases hstate : e.core.state with
    | app conn => simp [dispatchHandshakeRecord, handleHandshakeRecord, hstate] at h
    | _ => simp [Core.authView, hstate] at hphase
  have hhandle := handleHandshakeRecord_done params start stop outerType (hinv.not_done happ)
  unfold dispatchHandshakeRecord at h
  split at h
  · cases h
  · rename_i hok
    cases h
    rw [hok] at hhandle
    exact hhandle hdone

theorem dispatchHandshakeRecord_parked (e : Engine cfg sz) (params : ClientParams cfg)
    (start stop : Nat) (outerType : UInt8) :
    (e.dispatchHandshakeRecord params start stop outerType).2.recv.plaintextParked =
      e.recv.plaintextParked := by
  have hrecv := e.handleHandshakeRecord_recv params start stop outerType
  unfold dispatchHandshakeRecord
  split <;> rename_i heq <;> rw [heq] at hrecv
  · exact congrArg RecvState.plaintextParked hrecv
  · have hparked : _ = e.recv.plaintextParked := congrArg RecvState.plaintextParked hrecv
    exact hparked

/-- What `step_handshake` reports was so before the call. -/
theorem stepHandshake_reports {params : ClientParams cfg} (hcall : allowed (.stepHandshake params))
    (hinv : e.core.AuthInv first allowed) :
    ((e.stepHandshake params).1 = .ok .handshakeDone → e.core.isSendPending = false ∧
      e.core.pendingHandshakeDone = true) ∧
    ((e.stepHandshake params).1 = .ok .appData ∨
      (e.stepHandshake params).2.recv.plaintextParked = true → e.recv.plaintextParked = true) := by
  refine stepLoop_rule
    (fun e' => e'.core.AuthInv first allowed ∧
      e'.recv.plaintextParked = e.recv.plaintextParked ∧
      (e' = e ∨ (e'.core.pendingHandshakeDone = true → e'.core.handshakeFinishedPendingAck = true)))
    (fun r => (r.1 = .ok .handshakeDone → e.core.isSendPending = false ∧
        e.core.pendingHandshakeDone = true) ∧
      (r.1 = .ok .appData ∨ r.2.recv.plaintextParked = true → e.recv.plaintextParked = true))
    ?_ ?_ ?_ ?_ ?_ e ⟨hinv, rfl, .inl rfl⟩
  · rintro e₁ event e₂ ⟨-, hparked, hsame⟩ hevent
    refine ⟨?_, ?_⟩
    · rintro ⟨⟩
      obtain ⟨-, hpending, hdone, hacked⟩ := idleEvent_eq_handshakeDone hevent
      rcases hsame with rfl | hflag
      · exact ⟨hpending, hdone⟩
      · simp [hflag hdone] at hacked
    · rintro (h | h)
      · cases h
        exact hparked ▸ idleEvent_eq_appData hevent
      · exact hparked ▸ idleEvent_recv hevent ▸ h
  · rintro e₁ - hidle -
    simp [compactRecv_parked (quiet_of_idleEvent hidle).not_parked]
  · rintro e₁ err - hidle -
    simp [(quiet_of_idleEvent hidle).not_parked]
  · rintro e₁ start stop t err e₂ - hidle - herr
    have hparked := e₁.dispatchHandshakeRecord_parked params start stop t
    rw [herr, (quiet_of_idleEvent hidle).not_parked] at hparked
    simp [hparked]
  · rintro e₁ start stop t e₂ ⟨hinv₁, hparked, -⟩ hidle - hok
    have hsteps := dispatchHandshakeRecord_steps params e₁ start stop t (quiet_of_idleEvent hidle)
    have hparked' := e₁.dispatchHandshakeRecord_parked params start stop t
    rw [hok] at hsteps hparked'
    exact ⟨hinv₁.steps hcall hsteps, hparked'.trans hparked,
      .inr (dispatchHandshakeRecord_done hinv₁ hok)⟩

theorem writeApp_eq_ok {c : Core cfg sz} {plaintext : Bytes} {n : Nat}
    (h : (c.writeApp plaintext).1 = .ok n) :
    c.isSendPending = false ∧ ∃ conn, c.state = .app conn := by
  unfold Core.writeApp at h
  split at h
  · cases h
  · split at h
    · cases h
    · rename_i hpending
      split at h
      · rename_i conn hstate
        exact ⟨by simpa using hpending, conn, hstate⟩
      · cases h

/-- The invariant of the engine: parked plaintext is that of an authenticated server. -/
structure AuthInv (first : WaitServerHello cfg) (allowed : Call cfg → Prop)
    (e : Engine cfg sz) : Prop where
  core : e.core.AuthInv first allowed
  parked : e.recv.plaintextParked = true → e.core.history.authenticated ≠ []

theorem AuthInv.app (hinv : e.AuthInv first allowed) {conn : AppData}
    (hstate : e.core.state = .app conn) :
    e.core.history.authenticated ≠ [] ∧ e.core.authView.FlightSent :=
  hinv.core.app (by simp [Core.authView, hstate])

theorem AuthInv.call {e : Engine cfg sz} (hinv : e.AuthInv first allowed) {call : Call cfg}
    (hcall : allowed call) :
    (e.call call).2.AuthInv first allowed := by
  have hsteps := e.call_steps call
  refine ⟨hinv.core.steps hcall hsteps, fun hparked => ?_⟩
  refine hsteps.authenticated_ne_nil ?_
  cases call with
  | stepHandshake params =>
    exact hinv.parked ((stepHandshake_reports hcall hinv.core).2 (.inr hparked))
  | step =>
    rcases e.step_appData (.inr hparked) with h | ⟨conn, hstate⟩
    · exact hinv.parked h
    · exact (hinv.app hstate).1
  | readApp outLen =>
    have hlt : e.recv.plainStart + min (e.recv.plainEnd - e.recv.plainStart) outLen <
        e.recv.plainEnd := of_decide_eq_true hparked
    have hle : e.recv.plainStart < e.recv.plainEnd := by omega
    exact hinv.parked (by simpa [RecvState.plaintextParked] using hle)
  | advance n =>
    refine hinv.parked ?_
    obtain ⟨_, heq, -⟩ := e.advance_eq n
    simp only [Engine.call, Prod.map, heq] at hparked
    exact hparked
  | _ => exact hinv.parked hparked

theorem AuthInv.after {e : Engine cfg sz} (hinv : e.AuthInv first allowed) (calls : List (Call cfg))
    (hcalls : ∀ call ∈ calls, allowed call) :
    (e.after calls).AuthInv first allowed := by
  induction calls generalizing e with
  | nil => exact hinv
  | cons call rest ih =>
    obtain ⟨hcall, hrest⟩ := List.forall_mem_cons.mp hcalls
    exact ih (hinv.call hcall) hrest

theorem authInv_new (first : WaitServerHello cfg) (sendRecord : Block sz.send)
    (recvRecord : Block sz.recv) (ourRecvLimit peerRecvLimit : RecordSizeLimit) :
    (Engine.new sendRecord recvRecord (.waitServerHello first) ourRecvLimit
      peerRecvLimit).AuthInv first allowed := by
  refine ⟨⟨?_, ?_, ?_, ?_, ?_⟩, ?_⟩ <;> simp [Engine.new, Core.authView, RecvState.plaintextParked]

/-- The state before a call that reports the end of the handshake, an accepted write or data. -/
theorem AuthInv.report {e : Engine cfg sz} (hinv : e.AuthInv first allowed) {next : Call cfg}
    (hnext : allowed next) :
    ((e.call next).1 = .event (.ok .handshakeDone) ∨ (∃ n, (e.call next).1 = .wrote (.ok n)) →
      e.core.isSendPending = false ∧ e.core.authView.phase = .app) ∧
    ((e.call next).1 = .event (.ok .appData) → e.core.history.authenticated ≠ []) := by
  cases next with
  | stepHandshake params =>
    obtain ⟨hdone, hdata⟩ := stepHandshake_reports hnext hinv.core
    refine ⟨?_, ?_⟩
    · rintro (h | ⟨n, h⟩)
      · obtain ⟨hpending, hflag⟩ := hdone (Output.event.inj h)
        exact ⟨hpending, hinv.core.done hflag⟩
      · cases h
    · intro h
      exact hinv.parked (hdata (.inl (Output.event.inj h)))
  | step =>
    refine ⟨?_, ?_⟩
    · rintro (h | ⟨n, h⟩)
      · exact absurd (Output.event.inj h) e.step_ne_handshakeDone
      · cases h
    · intro h
      rcases e.step_appData (.inl (Output.event.inj h)) with h | ⟨conn, hstate⟩
      · exact hinv.parked h
      · exact (hinv.app hstate).1
  | writeApp plaintext =>
    refine ⟨?_, by rintro ⟨⟩⟩
    rintro (h | ⟨n, h⟩)
    · cases h
    · obtain ⟨hpending, conn, hstate⟩ := writeApp_eq_ok (Output.wrote.inj h)
      exact ⟨hpending, by simp [Core.authView, hstate]⟩
  | _ => exact ⟨by rintro (⟨⟨⟩⟩ | ⟨n, ⟨⟩⟩), by rintro ⟨⟩⟩

/-- Under such a report there is an authentication. What the call reports may hang on parameters it was
passed itself, so its invariant allows more than the one that says whose parameters were used. -/
theorem AuthInv.authenticated_of_report {allowed' : Call cfg → Prop}
    {next : Call cfg} (hinv : e.AuthInv first allowed) (hinv' : e.AuthInv first allowed')
    (hnext : allowed' next)
    (hout : (e.call next).1 = .event (.ok .handshakeDone) ∨ (e.call next).1 = .event (.ok .appData) ∨
      ∃ n, (e.call next).1 = .wrote (.ok n)) :
    ∃ a ∈ e.core.history.authenticated, allowed (.stepHandshake a.params) ∧
      a.Valid first e.core.reassembler sz.maxChain := by
  have hreport := hinv'.report hnext
  have hne : e.core.history.authenticated ≠ [] := by
    rcases hout with hdone | hdata | hwrote
    · exact (hinv.core.app (hreport.1 (.inl hdone)).2).1
    · exact hreport.2 hdata
    · exact (hinv.core.app (hreport.1 (.inr hwrote)).2).1
  obtain ⟨a, ha⟩ := List.exists_mem_of_ne_nil _ hne
  exact ⟨a, ha, hinv.core.valid a ha⟩

/-- In every run from the first state, the end of the handshake, application data and an accepted
write are only reported after the server has passed every check under parameters the caller passed;
the end of the handshake and an accepted write, moreover, only after the whole client flight has
been acknowledged. -/
theorem reports_authenticated (first : WaitServerHello cfg) (sendRecord : Block sz.send)
    (recvRecord : Block sz.recv) (ourRecvLimit peerRecvLimit : RecordSizeLimit)
    (calls : List (Call cfg)) (next : Call cfg) :
    let e := (Engine.new sendRecord recvRecord (.waitServerHello first) ourRecvLimit
      peerRecvLimit).after calls
    let out := (e.call next).1
    let finished := out = .event (.ok .handshakeDone) ∨ ∃ n > 0, out = .wrote (.ok n)
    (finished ∨ out = .event (.ok .appData) →
      ∃ a ∈ e.core.history.authenticated, .stepHandshake a.params ∈ calls ∧
        a.Valid first e.core.reassembler sz.maxChain) ∧
    (finished → e.core.history.flightLen ≤ e.core.history.acked) := by
  intro e out finished
  have hinv (allowed : Call cfg → Prop) (h : ∀ call ∈ calls, allowed call) :
      e.AuthInv first allowed :=
    (authInv_new first sendRecord recvRecord ourRecvLimit peerRecvLimit).after calls h
  have hcalls := hinv (· ∈ calls) fun _ h => h
  have hnext := hinv (· ∈ next :: calls) fun _ h => List.mem_cons_of_mem _ h
  refine ⟨fun h => ?_, fun h => ?_⟩
  · refine hcalls.authenticated_of_report hnext List.mem_cons_self ?_
    rcases h with (hdone | ⟨n, -, hwrote⟩) | hdata
    · exact .inl hdone
    · exact .inr (.inr ⟨n, hwrote⟩)
    · exact .inr (.inl hdata)
  · have hpast : e.core.isSendPending = false ∧ e.core.authView.phase = .app := by
      rcases h with hdone | ⟨n, -, hwrote⟩
      · exact (hnext.report List.mem_cons_self).1 (.inl hdone)
      · exact (hnext.report List.mem_cons_self).1 (.inr ⟨n, hwrote⟩)
    exact Core.not_pending_flightLen hpast.1 (hcalls.core.app hpast.2).2

theorem reports_authenticated_sample :
    let e := (Sample.engine Sample.sizes).after Sample.handshake.dropLast
    (∃ a ∈ e.core.history.authenticated, .stepHandshake a.params ∈ Sample.handshake.dropLast ∧
        a.Valid Sample.conn e.core.reassembler Sample.sizes.maxChain) ∧
      e.core.history.flightLen ≤ e.core.history.acked := by
  have hreports := reports_authenticated Sample.conn (Block.zeros Sample.sizes.send)
    (Block.zeros Sample.sizes.recv) (defaultOurRecvLimit Sample.sizes.recv) .default
    Sample.handshake.dropLast (.stepHandshake Sample.params)
  rw [← Sample.engine_eq Sample.sizes] at hreports
  have hout : (((Sample.engine Sample.sizes).after Sample.handshake.dropLast).call
      (.stepHandshake Sample.params)).1 = .event (.ok .handshakeDone) := by
    decide +kernel
  dsimp only at hreports ⊢
  exact ⟨hreports.1 (.inl (.inl hout)), hreports.2 (.inl hout)⟩

end Engine

end KrabiTls
