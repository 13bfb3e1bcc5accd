import KrabiTls.Stream.Truncation
import KrabiTls.Engine.Outgoing
import KrabiTls.Engine.Terminal

/-! Closing a stream: which records are handed to the transport, and how many of them are
`close_notify` alerts. -/
namespace KrabiTls
open Lib

namespace Core
variable {cfg : ClientConfig} {sz : Sizes} {call : Call cfg} {c c' : Core cfg sz}

/-- Only acknowledgements move the cursor of the pending send. -/
theorem Step.sendAcked (hcalls : ∀ n, call ≠ .markSent n) (hstep : Step call c c')
    (h : c.isSendPending = true → c.sendAcked = 0) :
    c'.isSendPending = true → c'.sendAcked = 0 := by
  cases hstep with
  | answerFailed _ _ hseal =>
    obtain ⟨-, -, rfl⟩ := sealRecord_eq_ok c hseal
    exact h
  | acked => exact absurd rfl (hcalls _)
  | flightQueued | answered | wrote | closing | terminal => exact fun _ => rfl
  | _ => exact h

theorem outgoing_of_unacked (hpending : c.isSendPending = true) (hacked : c.sendAcked = 0) :
    c.outgoing = [c.sendBytes] := by
  rw [outgoing, if_pos hpending, sendBytes_eq_drop, hacked, List.drop_zero]

theorem sendBytes_of_not_pending (h : c.isSendPending = false) : c.sendBytes = [] := by
  have hle : c.sendPendingLen ≤ c.sendAcked := by simpa [isSendPending] using h
  unfold sendBytes
  split
  · rfl
  · simp [slice, Nat.sub_eq_zero_of_le hle]

theorem writeApp_sendLog {sent : List Bytes} {buf : Bytes} {n : Nat} (h : c.SendLog sent)
    (hwrite : c.writeApp buf = (.ok n, c')) : c'.SendLog sent := by
  unfold writeApp at hwrite
  split at hwrite
  · cases hwrite
  · split at hwrite
    · cases hwrite
    · rename_i hpending
      split at hwrite
      · dsimp only at hwrite
        split at hwrite
        · cases hwrite
          exact h
        · split at hwrite
          · cases hwrite
          · rename_i hseal
            cases hwrite
            exact (h.queue (by simpa using hpending) hseal).1
      · cases hwrite

/-- Closing an open engine with nothing to send seals and queues a `close_notify`. -/
theorem close_sendLog {sent : List Bytes} (h : c.SendLog sent) (hopen : c.isClosed = false)
    (hpending : c.isSendPending = false) (hclose : c.close = (.ok (), c')) :
    c'.SendLog sent ∧ c'.sendAcked = 0 ∧ c'.closed = true ∧
      c'.closeNotifies = c.closeNotifies + 1 := by
  have hclosed : c.closed = false := by
    simp only [isClosed, Bool.or_eq_false_iff] at hopen
    exact hopen.1
  obtain ⟨conn, happ⟩ := h.app
  unfold close at hclose
  rw [hclosed, hpending, happ] at hclose
  simp only [Bool.false_eq_true, if_false] at hclose
  split at hclose
  · cases hclose
  · rename_i hseal
    cases hclose
    have hcount := closeNotifies_sealRecord hseal
    rw [if_pos ⟨rfl, rfl⟩] at hcount
    have hqueued := (h.queue hpending hseal).1
    exact ⟨hqueued.congr hqueued.app rfl rfl rfl rfl, rfl, rfl, hcount⟩

end Core

theorem Engine.advance_core {cfg : ClientConfig} {sz : Sizes} (e : Engine cfg sz) (n : Nat) :
    (e.advance n).2.core = e.core := by
  obtain ⟨_, heq, -⟩ := e.advance_eq n
  rw [heq]

namespace TlsStream
variable {cfg : ClientConfig} {sz : Sizes} {ε : Type}
open Program

theorem Received.core {s s' : TlsStream cfg sz ε} (h : s.Received s') :
    s'.engine.core = s.engine.core := by
  obtain ⟨data, heng | ⟨n, heng⟩⟩ := h.engine
  · rw [heng]
    rfl
  · rw [heng, Engine.advance_core]
    rfl

theorem Handed.pending {s s' : TlsStream cfg sz ε} (h : s.Handed s') :
    s.engine.core.isSendPending = true := by
  by_contra hpending
  exact h.nonempty (Core.sendBytes_of_not_pending (Bool.not_eq_true _ ▸ hpending))

/-- Every record sealed since `connect`, which had handed over `base`, is handed over one by one;
`count` of those sealed are `close_notify` alerts. -/
structure Flow (base : List Bytes) (count : Nat) (s : TlsStream cfg sz ε) : Prop where
  log : ∃ sent, s.engine.core.SendLog sent ∧ s.transport.handed = base ++ sent
  acked : s.engine.core.isSendPending = true → s.engine.core.sendAcked = 0
  count : s.engine.core.closeNotifies = count

variable {base : List Bytes} {count : Nat}

theorem Fresh.flow {s : TlsStream cfg sz ε} (h : s.Fresh) : s.Flow s.transport.handed 0 := by
  have hsealed := h.handshaking.sealed
  have hnone : s.engine.core.appSealed = [] := by
    rw [Core.appSealed, List.map_eq_nil_iff, List.filter_eq_nil_iff]
    intro p hp
    simp [(hsealed p hp).1]
  refine ⟨⟨[], ⟨h.app, h.sendWf, ?_⟩, by simp⟩, by simp [h.not_pending], ?_⟩
  · rw [hnone, Core.outgoing_nil h.not_pending]
    rfl
  · rw [Core.closeNotifies, List.countP_eq_zero]
    intro p hp
    rw [(hsealed p hp).2]
    simp [ctHandshake, ctAlert]

theorem Flow.sent {s s' : TlsStream cfg sz ε} (h : s.Flow base count) (hhanded : s.Handed s')
    (heng : s'.engine = (s.engine.markSent s.engine.core.sendBytes.length).2) :
    s'.Flow base count := by
  obtain ⟨sent, hlog, hbase⟩ := h.log
  have hpending := hhanded.pending
  obtain ⟨hsent, hacked, -⟩ := hlog.allSent hpending
  have hcore : s'.engine.core = (s.engine.core.markSent s.engine.core.sendBytes.length).2 := by
    rw [heng]
    rfl
  have hout := Core.outgoing_of_unacked hpending (h.acked hpending)
  refine ⟨⟨sent ++ s.engine.core.outgoing, hcore ▸ hsent, ?_⟩, fun _ => hcore ▸ hacked, ?_⟩
  · rw [hhanded.handed, hbase, hout, List.append_assoc]
  · rw [hcore, ← h.count]
    obtain ⟨_, _, _, _, heq⟩ := s.engine.core.markSent_eq s.engine.core.sendBytes.length
    rw [heq]
    rfl

theorem flow_guards : Guards (·.isApp = true) (Flow base count : TlsStream cfg sz ε → Prop)
    (fun _ => True) := by
  refine ⟨fun _ _ => trivial, ?_, fun _ _ _ _ => trivial, fun _ _ h => h.sent,
    fun _ _ _ _ _ => trivial, ?_⟩
  · intro s call hcall h hok
    obtain ⟨sent, hlog, hbase⟩ := h.log
    have hsteps := s.engine.call_steps call
    have hacked : (s.engine.call call).2.core.isSendPending = true →
        (s.engine.call call).2.core.sendAcked = 0 := by
      refine invariant_of_steps (fun c => c.isSendPending = true → c.sendAcked = 0)
        (fun _ _ h hstep => hstep.sendAcked ?_ h) hsteps h.acked
      rintro n rfl
      cases hcall
    have hcount : (s.engine.call call).2.core.closeNotifies = count := by
      refine invariant_of_steps (·.closeNotifies = count)
        (fun _ _ h hstep => (hstep.closeNotifies ?_).trans h) hsteps h.count
      rintro rfl
      cases hcall
    refine ⟨⟨sent, ?_, hbase⟩, hacked, hcount⟩
    cases call with
    | step =>
      rcases hstep : s.engine.step with ⟨_ | event, e⟩
      · simp [Engine.call, hstep, Output.isOk, Except.isOk, Except.toBool] at hok
      · simpa [Engine.call, hstep] using Engine.step_sendLog hlog hstep
    | readApp => exact hlog
    | writeApp buf =>
      rcases hwrite : s.engine.core.writeApp buf with ⟨_ | n, c⟩
      · simp [Engine.call, Engine.writeApp, Engine.withCore, hwrite, Output.isOk, Except.isOk,
          Except.toBool] at hok
      · simpa [Engine.call, Engine.writeApp, Engine.withCore, hwrite] using
          Core.writeApp_sendLog hlog hwrite
    | _ => cases hcall
  · intro s s' h hrec
    obtain ⟨sent, hlog, hbase⟩ := h.log
    have hcore := hrec.core
    exact ⟨⟨sent, hcore ▸ hlog, hrec.handed.trans hbase⟩, hcore ▸ h.acked, hcore ▸ h.count⟩

/-- Draining sends what is pending and leaves the engine as open as it was. -/
theorem drain_flow {closed : Bool} :
    Triple (fun s : TlsStream cfg sz ε => s.Flow base count ∧ s.engine.core.isClosed = closed)
      drainPendingSend (fun _ s => (s.Flow base count ∧ s.engine.core.isClosed = closed) ∧
        s.engine.core.isSendPending = false) (fun _ _ => True) := by
  refine drainPendingSend_triple _ (.of_forall fun s hs => ?_)
  refine (driveOneSendStep_spec s).mono (fun _ h => h) ?_ fun _ _ _ => trivial
  rintro _ s' ⟨hhanded, heng⟩
  refine ⟨hs.1.1.sent hhanded heng, ?_⟩
  obtain ⟨_, _, _, _, heq⟩ := s.engine.core.markSent_eq s.engine.core.sendBytes.length
  rw [heng, ← hs.1.2]
  simp [Engine.markSent, Engine.withCore, heq, Core.isClosed]

/-- `close` on an open engine hands over one `close_notify`; on a closed one, none. -/
theorem close_flow {closed : Bool} :
    Triple (fun s : TlsStream cfg sz ε => s.Flow base 0 ∧ s.engine.core.isClosed = closed) close
      (fun _ s => s.Flow base (if closed then 0 else 1) ∧ s.engine.core.isClosed = true ∧
        s.engine.core.isSendPending = false) (fun _ _ => True) := by
  refine .bind _ drain_flow fun _ => .bind (fun b s => b = closed ∧ (s.Flow base 0 ∧
    s.engine.core.isClosed = closed) ∧ s.engine.core.isSendPending = false) ?_ fun b => ?_
  · intro s hs r s' hexec
    cases hexec
    exact ⟨hs.1.2, hs⟩
  · cases b with
    | true =>
      refine .pure fun s hs => ?_
      obtain ⟨rfl, ⟨hflow, hclosed⟩, hpending⟩ := hs
      exact ⟨hflow, hclosed, hpending⟩
    | false =>
      refine .bind (fun _ s => closed = false ∧ s.Flow base 1 ∧ s.engine.core.isClosed = true) ?_
        fun _ => ?_
      · refine onEngine_triple ?_ fun _ _ _ _ _ => trivial
        rintro s ⟨⟩ e ⟨rfl, ⟨hflow, hopen⟩, hpending⟩ hclose
        obtain ⟨sent, hlog, hbase⟩ := hflow.log
        simp only [Engine.close, Engine.withCore, Prod.mk.injEq] at hclose
        obtain ⟨hok, rfl⟩ := hclose
        obtain ⟨hlog', hacked, hclosed, hcount⟩ :=
          Core.close_sendLog hlog hopen hpending (Prod.ext hok rfl)
        refine ⟨rfl, ⟨⟨sent, hlog', hbase⟩, fun _ => hacked, ?_⟩, ?_⟩
        · rw [hcount, hflow.count]
        · simp [Core.isClosed, hclosed]
      · intro s hs r s' hexec
        obtain ⟨rfl, hflow⟩ := hs
        have hdrain := drain_flow s hflow r s' hexec
        cases r with
        | ok _ => exact ⟨hdrain.1.1, hdrain.1.2, hdrain.2⟩
        | error _ => trivial

theorem exec_close_of_call {s s' : TlsStream cfg sz ε}
    (h : (call .close).exec s = some (.ok .done, s')) : close.exec s = some (.ok (), s') := by
  rw [call, exec_bind] at h
  split at h
  · cases h
  · cases h
  · rename_i hexec
    cases h
    exact hexec

/-- A dead engine hands over nothing more. -/
theorem dead_guards {sealed : List (SendGen × SealedRecord)} {handed : List Bytes} :
    Guards (fun _ => True) (fun s => s.engine.core.Dead sealed ∧ s.transport.handed = handed)
      (fun s : TlsStream cfg sz ε => s.engine.core.Dead sealed ∧ s.transport.handed = handed) := by
  have hcall (s : TlsStream cfg sz ε) (call : Call cfg) (h : s.engine.core.Dead sealed) :
      (s.engine.call call).2.core.Dead sealed :=
    invariant_of_steps _ (fun _ _ h => h.step) (s.engine.call_steps call) h
  have hnone {s s' : TlsStream cfg sz ε} (h : s.engine.core.Dead sealed) (hh : s.Handed s') :
      False := Bool.eq_false_iff.mp h.not_pending hh.pending
  refine ⟨fun _ h => h, ?_, ?_, ?_, ?_, ?_⟩
  · exact fun s call _ h _ => ⟨hcall s call h.1, h.2⟩
  · exact fun s call _ h => ⟨hcall s call h.1, h.2⟩
  · exact fun s s' h hh _ => (hnone h.1 hh).elim
  · exact fun s s' h hh _ => (hnone h.1 hh).elim
  · exact fun s s' h hrec => ⟨hrec.core ▸ h.1, hrec.handed.trans h.2⟩

/-- In every run without errors up to the end of the first `close`, the records sealed since
`connect` have all been handed to the transport, in order and once; later calls hand over nothing.
One of them is a `close_notify` exactly if the engine was still open when `close` was called. -/
theorem close_closeNotify {s₀ s₁ s₂ s₃ : TlsStream cfg sz ε} (hest : s₀.Established)
    {before after : List StreamCall} (hbefore : .close ∉ before)
    {replies later : List (Except (ConnectError ε) StreamReply)}
    (hrun : s₀.run before = some (replies, s₁)) (hok : ∀ r ∈ replies, r.isOk = true)
    (hclose : (call .close).exec s₁ = some (.ok .done, s₂)) (hafter : s₂.run after = some (later, s₃)) :
    s₃.transport.handed =
        s₀.transport.handed ++ s₃.engine.core.appSealed.map SealedRecord.record ∧
      s₃.transport.handed = s₂.transport.handed ∧
      (s₃.engine.core.closeNotifies = 1 ↔ s₁.engine.core.isClosed = false) := by
  have hflow : s₁.Flow s₀.transport.handed 0 :=
    flow_guards.run (fun _ h => h) (fun h => absurd h hbefore) hrun (.inr hok) hest.fresh.flow
  obtain ⟨⟨⟨sent, hlog, hhanded⟩, -, hcount⟩, hclosed, hpending⟩ :=
    close_flow.ok ⟨hflow, rfl⟩ (exec_close_of_call hclose)
  have hdead : s₂.engine.core.Dead s₂.engine.core.history.sealed := by
    obtain ⟨conn, happ⟩ := hlog.app
    exact ⟨by simpa [Core.isClosed, happ] using hclosed, hpending, rfl⟩
  obtain ⟨hdead₃, hsame⟩ := dead_guards.run (fun _ _ => trivial) (fun _ => trivial) hafter
    (.inl fun _ h => h) ⟨hdead, rfl⟩
  have hrecords : s₃.engine.core.appSealed = s₂.engine.core.appSealed := by
    rw [Core.appSealed, hdead₃.sealed, Core.appSealed]
  refine ⟨?_, hsame, ?_⟩
  · rw [hsame, hhanded, hrecords, hlog.log, Core.outgoing_nil hpending, List.append_nil]
  · have hcount₃ : s₃.engine.core.closeNotifies = s₂.engine.core.closeNotifies := by
      rw [Core.closeNotifies, hdead₃.sealed, Core.closeNotifies]
    rw [hcount₃, hcount]
    cases s₁.engine.core.isClosed <;> simp

theorem close_closeNotify_sample :
    ∃ s₀ s₁ s₂ s₃ : TlsStream .sample Sample.sizes Unit, s₀.Established ∧
      s₀.run [.read 16, .writeAll (ascii "x")] = some ([.ok (.data (ascii "hi")), .ok .done], s₁) ∧
      (call .close).exec s₁ = some (.ok .done, s₂) ∧ s₂.run [.close] = some ([.ok .done], s₃) ∧
      s₃.transport.handed = s₂.transport.handed ∧ s₃.engine.core.closeNotifies = 1 := by
  have hsession : (Sample.session (Sample.records [(ascii "hi", ctApplicationData)])
      [.read 16, .writeAll (ascii "x")]).any (fun r =>
        r.1 = [.ok (.data (ascii "hi")), .ok .done] ∧ r.2.engine.core.isClosed = false ∧
          ((call .close).exec r.2).any (fun r => r.1 = .ok .done ∧
            (r.2.run [.close]).any (·.1 = [.ok .done]))) = true := by
    decide +kernel
  obtain ⟨⟨replies, s₁⟩, hsome, hcheck⟩ := (Option.any_eq_true _ _).mp hsession
  simp only [decide_eq_true_eq] at hcheck
  obtain ⟨rfl, hopen, hclose⟩ := hcheck
  obtain ⟨⟨reply, s₂⟩, hexec, hcheck⟩ := (Option.any_eq_true _ _).mp hclose
  simp only [decide_eq_true_eq] at hcheck
  obtain ⟨rfl, hafter⟩ := hcheck
  obtain ⟨⟨later, s₃⟩, hrest, hlater⟩ := (Option.any_eq_true _ _).mp hafter
  simp only [decide_eq_true_eq] at hlater
  subst hlater
  obtain ⟨s₀, hest, hrun⟩ := Sample.session_eq_some hsome
  obtain ⟨-, hsame, hcount⟩ := close_closeNotify hest (by decide) hrun (by decide) hexec hrest
  exact ⟨s₀, s₁, s₂, s₃, hest, hrun, hexec, hrest, hsame, hcount.mpr hopen⟩

/-- A peer that closes first is not answered: nothing but the `ClientHello` and the client flight
is ever handed to the transport. -/
theorem close_after_peer :
    ∃ s₀ s : TlsStream .sample Sample.sizes Unit, s₀.Established ∧
      s₀.run [.read 16, .close] = some ([.ok (.data []), .ok .done], s) ∧
      s.transport.handed.length = 2 ∧ s.engine.core.closeNotifies = 0 := by
  have hsession : (Sample.session (Sample.records [(closeNotifyAlert, ctAlert)])
      [.read 16, .close]).any (fun r => r.1 = [.ok (.data []), .ok .done] ∧
        r.2.transport.handed.length = 2 ∧ r.2.engine.core.closeNotifies = 0) = true := by
    decide +kernel
  obtain ⟨⟨replies, s⟩, hsome, hcheck⟩ := (Option.any_eq_true _ _).mp hsession
  simp only [decide_eq_true_eq] at hcheck
  obtain ⟨rfl, hhanded, hcount⟩ := hcheck
  obtain ⟨s₀, hest, hrun⟩ := Sample.session_eq_some hsome
  exact ⟨s₀, s, hest, hrun, hhanded, hcount⟩

end TlsStream

end KrabiTls
