import KrabiTls.Engine.Framing
import KrabiTls.Engine.Auth

/-! Fatal errors: after a step that rejects a record, the engine seals, queues and delivers nothing. -/
namespace KrabiTls
open Lib

/-- Record by record, no header in `input` announces more than the buffer holds. -/
def sizedLoop (capacity : Nat) : Loop Bool Bytes where
  body input :=
    match frame capacity input with
    | .need => .leave true
    | .tooLarge _ => .leave false
    | .record _ rest => .again rest
  variant := List.length
  decreases input rest h := by
    split at h
    · cases h
    · cases h
    · rename_i hframe
      cases h
      exact frame_rest_lt hframe

def wellSized (capacity : Nat) (input : Bytes) : Bool := (sizedLoop capacity).run input

theorem wellSized_of_tooLarge {capacity got : Nat} {input : Bytes}
    (h : frame capacity input = .tooLarge got) : wellSized capacity input = false :=
  Loop.run_of_leave (by simp only [sizedLoop, h])

theorem wellSized_of_record {capacity : Nat} {input record rest : Bytes}
    (h : frame capacity input = .record record rest) :
    wellSized capacity input = wellSized capacity rest :=
  Loop.run_of_again (by simp only [sizedLoop, h])

namespace Core
variable {cfg : ClientConfig} {sz : Sizes} {call : Call cfg} {c c' : Core cfg sz}
variable {err : HandshakeError}

theorem answerKeyUpdate_error_pending {conn : AppData}
    (h : c.answerKeyUpdate conn = (.error err, c')) : c'.isSendPending = c.isSendPending := by
  rw [answerKeyUpdate_eq] at h
  split at h
  · rename_i hseal
    cases h
    obtain ⟨_, rfl⟩ := sealRecord_eq_error c hseal
    rfl
  · rename_i hseal
    split at h
    · cases h
      obtain ⟨-, -, rfl⟩ := sealRecord_eq_ok c hseal
      rfl
    · cases h

theorem feedPostHandshake_error_pending {content : Bytes}
    (h : c.feedPostHandshake content = (.error err, c')) : c'.isSendPending = c.isSendPending := by
  unfold feedPostHandshake processKeyUpdate at h
  dsimp only at h
  split at h
  · cases h; rfl
  · cases h
  · split at h
    · split at h
      · cases h; rfl
      · split at h
        · cases h
        · have hpending := answerKeyUpdate_error_pending h
          exact hpending
    · cases h; rfl

theorem handleInnerContent_error_pending {content : Bytes} {ct : UInt8}
    (h : (c.handleInnerContent content ct).1 = .error err) :
    (c.handleInnerContent content ct).2.isSendPending = c.isSendPending := by
  unfold handleInnerContent at h ⊢
  split
  · rfl
  · split
    · rfl
    · split
      · split
        · split <;> rfl
        · rfl
      · split
        · rename_i hph happ halert hct
          rw [if_neg hph, if_neg happ, if_neg halert, if_pos hct] at h
          rcases hfeed : c.feedPostHandshake content with ⟨err' | _, c₁⟩
          · exact feedPostHandshake_error_pending hfeed
          · rw [hfeed] at h
            cases h
        · rfl

theorem dispatchDataRecord_error {outerType : UInt8} {record : Bytes}
    (h : (c.dispatchDataRecord outerType record).result = .error err) :
    (c.dispatchDataRecord outerType record).core.closed = true ∧
      (c.dispatchDataRecord outerType record).core.isSendPending = c.isSendPending := by
  rcases c.dispatchDataRecord_cases outerType record with
    ⟨err, -, -, hcore⟩ | ⟨content, ct, opened, -, hopen, -, ⟨err, herr, -, hcore⟩ | ⟨_, -, hres⟩⟩
  · rw [hcore]
    exact ⟨rfl, rfl⟩
  · rw [hcore]
    obtain ⟨conn, -, rfl⟩ := decryptDataRecord_eq_ok hopen
    exact ⟨rfl, handleInnerContent_error_pending herr⟩
  · rw [h] at hres
    cases hres

/-- Closed, with nothing to send; `sealed` is all that was ever sealed. -/
structure Dead (sealed : List (SendGen × SealedRecord)) (c : Core cfg sz) : Prop where
  closed : c.closed = true
  not_pending : c.isSendPending = false
  sealed : c.history.sealed = sealed

theorem Dead.not_idle {sealed : List (SendGen × SealedRecord)} (h : c.Dead sealed) : ¬ c.Idle := by
  intro hidle
  have := hidle.not_closed
  rw [h.closed] at this
  cases this

theorem markSent_not_pending (h : c.isSendPending = false) (n : Nat) :
    (c.markSent n).2.isSendPending = false := by
  have hle : c.sendPendingLen ≤ c.sendAcked := by simpa [isSendPending] using h
  unfold markSent
  split
  · exact h
  · dsimp only
    split
    · rfl
    · simp only [isSendPending, decide_eq_false_iff_not]
      omega

theorem Dead.step {sealed : List (SendGen × SealedRecord)} (h : c.Dead sealed)
    (hstep : Step call c c') : c'.Dead sealed := by
  cases hstep with
  | handshakeDone => exact ⟨h.closed, h.not_pending, h.sealed⟩
  | rejected => exact ⟨rfl, h.not_pending, h.sealed⟩
  | terminal => exact ⟨rfl, rfl, h.sealed⟩
  | @acked _ n hle =>
    have hpending := markSent_not_pending h.not_pending n
    obtain ⟨_, _, _, _, heq⟩ := c.markSent_eq n
    rw [heq] at hpending ⊢
    exact ⟨h.closed, hpending, h.sealed⟩
  | _ => exact absurd (by assumption) h.not_idle

end Core

namespace Engine
variable {cfg : ClientConfig} {sz : Sizes} {e e' : Engine cfg sz}

/-- A dead engine holds no application data to read either. -/
structure Dead (sealed : List (SendGen × SealedRecord)) (e : Engine cfg sz) : Prop where
  core : e.core.Dead sealed
  not_parked : e.recv.plaintextParked = false

variable {sealed : List (SendGen × SealedRecord)}

theorem Dead.stepLoop_recv (h : e.Dead sealed) {handshake : Bool} {dispatch : Dispatch cfg sz}
    {hd : Consumes dispatch} : ((stepLoop handshake dispatch hd).run e).2.recv = e.recv := by
  cases hevent : e.idleEvent handshake with
  | none => exact absurd (quiet_of_idleEvent hevent).idle h.core.not_idle
  | some r =>
    rw [Loop.run_of_leave (r := (.ok r.1, r.2)) (by simp [stepLoop, hevent])]
    exact idleEvent_recv hevent

theorem Dead.call (h : e.Dead sealed) (call : Call cfg) : (e.call call).2.Dead sealed := by
  have hsteps := e.call_steps call
  refine ⟨invariant_of_steps _ (fun _ _ h => h.step) hsteps h.core, ?_⟩
  have hparked : ¬ e.recv.plainStart < e.recv.plainEnd := of_decide_eq_false h.not_parked
  cases call with
  | stepHandshake params =>
    have hrecv : (e.stepHandshake params).2.recv = e.recv := h.stepLoop_recv
    simpa [Engine.call, hrecv] using h.not_parked
  | step =>
    have hrecv : e.step.2.recv = e.recv := h.stepLoop_recv
    simpa [Engine.call, hrecv] using h.not_parked
  | advance n =>
    obtain ⟨_, heq, -⟩ := e.advance_eq n
    simp only [Engine.call, Prod.map, heq]
    exact h.not_parked
  | readApp outLen =>
    refine decide_eq_false ?_
    simp only [Engine.call, readApp, Prod.map, id]
    omega
  | fill | writeApp | markSent | markTerminal | close => exact h.not_parked

theorem Dead.after (h : e.Dead sealed) (calls : List (Call cfg)) : (e.after calls).Dead sealed := by
  induction calls generalizing e with
  | nil => exact h
  | cons call calls ih => exact ih (h.call call)

theorem ordered_after (h : e.recv.Ordered sz.recv) (calls : List (Call cfg)) :
    (e.after calls).recv.Ordered sz.recv := by
  induction calls generalizing e with
  | nil => exact h
  | cons call calls ih => exact ih (e.call_ordered h call)

/-- A step that fails on records of proper size kills the engine. -/
theorem step_error_dead {err : HandshakeError} (hord : e.recv.Ordered sz.recv)
    (hsized : wellSized sz.recv e.buffered = true) (hstep : e.step = (.error err, e')) :
    e'.Dead e'.core.history.sealed := by
  have hrule : ∀ err, e.step.1 = .error err → e.step.2.Dead e.step.2.core.history.sealed := by
    refine stepLoop_rule
      (fun e => e.recv.Ordered sz.recv ∧ wellSized sz.recv e.buffered = true)
      (fun r => ∀ err, r.1 = .error err → r.2.Dead r.2.core.history.sealed) ?_ ?_ ?_ ?_ ?_ e
      ⟨hord, hsized⟩
    · exact fun _ _ _ _ _ _ => nofun
    · exact fun _ _ _ _ _ => nofun
    · rintro e err ⟨hord, hsized⟩ hidle hframe
      obtain ⟨got, hlarge, -⟩ := frame_of_error hord (quiet_of_idleEvent hidle).not_parked hframe
      rw [wellSized_of_tooLarge hlarge] at hsized
      cases hsized
    · rintro e start stop outerType err e' ⟨hord, -⟩ hidle hframe hfail - -
      have hquiet := quiet_of_idleEvent hidle
      obtain ⟨-, rfl, hstart, hstop, -⟩ := frameOneRecord_eq_record hframe
      cases hres : (e.core.dispatchDataRecord outerType
          (slice e.recvRecord.val e.recv.nextRecord stop)).result with
      | ok content =>
        obtain ⟨e₁, heq, -⟩ :=
          dispatchDataRecord_accepted hord hquiet.not_parked hstart hstop hres
        rw [hfail] at heq
        cases heq
      | error err' =>
        obtain ⟨hclosed, hpending⟩ := Core.dispatchDataRecord_error hres
        obtain ⟨e₁, heq, hcore, -⟩ := dispatchDataRecord_refused hord (by omega) hstop hres
        have hparked := dispatchDataRecord_eq_error hfail
        rw [hfail] at heq
        cases heq
        refine ⟨⟨?_, ?_, rfl⟩, hparked.trans hquiet.not_parked⟩
        · rw [hcore, hclosed]
        · rw [hcore, hpending, hquiet.idle.not_pending]
    · rintro e start stop outerType e' ⟨hord, hsized⟩ hidle hframe hok
      have hquiet := quiet_of_idleEvent hidle
      obtain ⟨record, rest, hrec, rfl, hstart, hstop, -, -, hrest⟩ :=
        frame_of_record hord hquiet.not_parked hframe
      cases hres : (e.core.dispatchDataRecord outerType
          (slice e.recvRecord.val e.recv.nextRecord stop)).result with
      | error err' =>
        obtain ⟨e₁, heq, -⟩ := dispatchDataRecord_refused hord (by omega) hstop hres
        rw [hok] at heq
        cases heq
      | ok content =>
        obtain ⟨e₁, heq, -, hord₁, hbuf, -⟩ :=
          dispatchDataRecord_accepted hord hquiet.not_parked hstart hstop hres
        rw [hok] at heq
        cases heq
        refine ⟨hord₁, ?_⟩
        rw [hbuf, hrest, ← wellSized_of_record hrec, hsized]
  rw [hstep] at hrule
  exact hrule err rfl

/-- In every run: once a step fails on buffered records none of which announces more than the
buffer holds, every later write is refused, nothing more is sealed or queued, and no more
application data is delivered. -/
theorem step_error_terminal (first : WaitServerHello cfg) (sendRecord : Block sz.send)
    (recvRecord : Block sz.recv) (ourRecvLimit peerRecvLimit : RecordSizeLimit)
    (calls : List (Call cfg)) :
    let e := (Engine.new sendRecord recvRecord (.waitServerHello first) ourRecvLimit
      peerRecvLimit).after calls
    wellSized sz.recv e.buffered = true → ∀ err e', e.step = (.error err, e') → ∀ later,
      let e'' := e'.after later
      (∀ plaintext, (e''.call (.writeApp plaintext)).1 = .wrote (.error .closed)) ∧
      e''.core.history.sealed = e'.core.history.sealed ∧ e''.core.isSendPending = false ∧
      ∀ outLen, (e''.call (.readApp outLen)).1 = .read [] := by
  intro e hsized err e' hstep later e''
  have hord : e.recv.Ordered sz.recv :=
    ordered_after ⟨Nat.le_refl _, Nat.le_refl _, Nat.le_refl _, Nat.zero_le _⟩ calls
  have hdead : e''.Dead e'.core.history.sealed := (step_error_dead hord hsized hstep).after later
  refine ⟨fun plaintext => ?_, hdead.core.sealed, hdead.core.not_pending, fun outLen => ?_⟩
  · simp [Engine.call, writeApp, withCore, Core.writeApp, hdead.core.closed]
  · have hnone : ¬ e''.recv.plainStart < e''.recv.plainEnd := of_decide_eq_false hdead.not_parked
    have hzero : e''.recv.plainEnd - e''.recv.plainStart = 0 := by omega
    simp [Engine.call, readApp, hzero, slice]

theorem step_error_terminal_sample :
    let e := (Sample.engine Sample.sizes).after
      (Sample.handshake ++ [.fill [ctAlert, 3, 3, 0, 2, 1, 0], .advance 7])
    ∃ e', e.step = (.error (.connection (.unknownContentType ctAlert)), e') ∧
      ((e'.after [.step, .close]).call (.writeApp (ascii "x"))).1 = .wrote (.error .closed) := by
  have hsized : wellSized Sample.sizes.recv ((Sample.engine Sample.sizes).after
      (Sample.handshake ++ [.fill [ctAlert, 3, 3, 0, 2, 1, 0], .advance 7])).buffered = true := by
    decide +kernel
  have hstep : ((Sample.engine Sample.sizes).after (Sample.handshake ++
      [.fill [ctAlert, 3, 3, 0, 2, 1, 0], .advance 7])).step.1 =
        .error (.connection (.unknownContentType ctAlert)) := by
    decide +kernel
  have hterminal := step_error_terminal Sample.conn (Block.zeros Sample.sizes.send)
    (Block.zeros Sample.sizes.recv) (defaultOurRecvLimit Sample.sizes.recv) .default
    (Sample.handshake ++ [.fill [ctAlert, 3, 3, 0, 2, 1, 0], .advance 7])
  rw [← Sample.engine_eq Sample.sizes] at hterminal
  dsimp only at hterminal ⊢
  generalize (Sample.engine Sample.sizes).after
    (Sample.handshake ++ [.fill [ctAlert, 3, 3, 0, 2, 1, 0], .advance 7]) = e at *
  have heq : e.step = (.error (.connection (.unknownContentType ctAlert)), e.step.2) := by
    rw [← hstep]
  exact ⟨e.step.2, heq, (hterminal hsized _ _ heq [.step, .close]).1 (ascii "x")⟩

/-- A header that announces more than the buffer holds fails the step and leaves the engine open. -/
theorem step_error_not_terminal :
    let e := (Sample.engine Sample.sizes).after
      (Sample.handshake ++ [.fill [ctApplicationData, 3, 3, 255, 255], .advance 5])
    (e.call .step).1 = .event (.error (.recordTooLarge 491 65535)) ∧
      ((e.call .step).2.call (.writeApp (ascii "x"))).1 = .wrote (.ok 1) := by
  decide +kernel

end Engine

end KrabiTls
