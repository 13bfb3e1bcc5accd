import KrabiTls.Stream.Calls
import KrabiTls.Engine.Closing
import KrabiTls.Engine.Records
import KrabiTls.Engine.Sending

/-! The end of the stream: which reads without data follow a `close_notify` of the peer. -/
namespace KrabiTls
open Lib

namespace TlsStream
variable {cfg : ClientConfig} {sz : Sizes} {ε : Type}
open Program

/-- The state in which `connect` leaves the engine. -/
structure Fresh (s : TlsStream cfg sz ε) : Prop where
  handshaking : s.engine.core.Handshaking
  app : ∃ conn, s.engine.core.state = .app conn
  not_pending : s.engine.core.isSendPending = false
  sendWf : s.engine.core.SendWf
  ordered : s.engine.recv.Ordered sz.recv

/-- The invariant of `connect`. -/
structure Connecting (e : Engine cfg sz) : Prop where
  handshaking : e.core.Handshaking
  sendWf : e.core.SendWf
  ordered : e.recv.Ordered sz.recv

theorem connecting_keeps :
    Engine.Keeps (·.isHandshake = true) (Connecting : Engine cfg sz → Prop) := by
  intro e call hcall h
  refine ⟨?_, ?_, e.call_ordered h.ordered call⟩
  · exact Engine.keeps_of_step (fun _ _ _ hcall h => h.step hcall) e call hcall h.handshaking
  · exact h.sendWf.steps (e.call_steps call)

theorem driveHandshake_fresh (params : ClientParams cfg) :
    Triple (fun s : TlsStream cfg sz ε => Connecting s.engine) (driveHandshake params)
      (fun _ s => s.Fresh) (fun _ _ => True) := by
  have hguards : Guards (·.isHandshake = true) (Connecting ·.engine)
      (fun s : TlsStream cfg sz ε => Connecting s.engine) :=
    guards_of_keeps connecting_keeps (by rintro (_ | _) h <;> first | exact h | cases h)
  refine ioLoop_triple _ (.bind (fun event s => Connecting s.engine ∧
    (event = .handshakeDone → s.Fresh)) (onEngine_triple ?_ ?_) fun event => ?_)
  · intro s event e hs hstep
    have hinv := connecting_keeps s.engine (.stepHandshake params) rfl hs
    simp only [Engine.call, Prod.map, id] at hinv
    rw [hstep] at hinv
    refine ⟨hinv, ?_⟩
    rintro rfl
    obtain ⟨happ, hpending⟩ := Engine.stepHandshake_done hs.handshaking hstep
    exact ⟨hinv.handshaking, happ, hpending, hinv.sendWf, hinv.ordered⟩
  · exact fun _ _ _ _ _ => trivial
  · cases event with
    | send =>
      exact .bind _ (hguards.driveOneSendStep.mono (fun _ hs => hs.1) (fun _ _ hs => hs)
        fun _ _ _ => trivial) fun _ => .pure fun _ hs => hs
    | recv =>
      exact .bind _ (hguards.driveOneRecvStep.mono (fun _ hs => hs.1) (fun _ _ hs => hs)
        fun _ _ _ => trivial) fun _ => .pure fun _ hs => hs
    | handshakeDone => exact .pure fun _ hs => hs.2 rfl
    | appData | closed => exact .throw fun _ _ => trivial

theorem Established.fresh {s : TlsStream cfg sz ε} (h : s.Established) : s.Fresh := by
  obtain ⟨first, sendRecord, recvRecord, ourRecvLimit, transport, params, ch, hconnect⟩ := h
  have htriple : Triple (fun s : TlsStream cfg sz ε => Connecting s.engine) (connect params ch)
      (fun _ s => s.Fresh) (fun _ _ => True) := by
    refine .bind (fun _ s => Connecting s.engine) ?_ fun _ => driveHandshake_fresh params
    intro s hs r s' hexec
    simp only [exec_ofFun] at hexec
    split at hexec
    · cases hexec
    · cases hexec
      split
      · exact hs
      · trivial
  exact htriple.ok ⟨Core.handshaking_new _ _ _ _ _, ⟨Nat.le_refl _, Nat.zero_le _⟩,
    ⟨Nat.le_refl _, Nat.le_refl _, Nat.le_refl _, Nat.zero_le _⟩⟩ hconnect

theorem Fresh.not_closed {s : TlsStream cfg sz ε} (h : s.Fresh) :
    ¬ (s.engine.core.closed = true ∨ s.engine.core.history.terminal = true) := by
  obtain ⟨conn, happ⟩ := h.app
  exact h.handshaking.not_closed (by simp [happ])

theorem Fresh.closeInv {s : TlsStream cfg sz ε} (h : s.Fresh) : s.engine.core.CloseInv := by
  have hopen := h.not_closed
  refine ⟨fun hc => absurd (.inl hc) hopen, ?_⟩
  rintro (hrej | hterm)
  · exact absurd h.handshaking.rejected hrej
  · exact absurd (.inr hterm) hopen

end TlsStream

namespace Engine
variable {cfg : ClientConfig} {sz : Sizes}

/-- A step that reports an event has rejected nothing. -/
theorem step_ok_failed {e e' : Engine cfg sz} {event : EngineEvent} (h : e.step = (.ok event, e')) :
    e'.core.Failed ↔ e.core.Failed := by
  have hrule : e.step.1.isOk = true → (e.step.2.core.Failed ↔ e.core.Failed) := by
    refine stepLoop_rule (fun e' => e'.core.Failed ↔ e.core.Failed)
      (fun r => r.1.isOk = true → (r.2.core.Failed ↔ e.core.Failed)) ?_ ?_ ?_ ?_ ?_ e Iff.rfl
    · intro e₁ event e₂ hinv hevent _
      rw [idleEvent_data hevent]
      exact hinv
    · intro e₁ hinv _ _ _
      simpa using hinv
    · exact fun _ _ _ _ _ => nofun
    · exact fun _ _ _ _ _ _ _ _ _ _ => nofun
    · intro e₁ start stop outerType e₂ hinv _ _ hok
      obtain ⟨content, ct, parked, record, opened, hopen, haccepts⟩ := dispatchDataRecord_accepts hok
      obtain ⟨hrej, hterm⟩ := haccepts.rejected
      obtain ⟨conn, -, rfl⟩ := Core.decryptDataRecord_eq_ok hopen
      rw [← hinv, Core.Failed, hrej, hterm]
      rfl
  rw [h] at hrule
  exact hrule rfl

end Engine

namespace TlsStream
variable {cfg : ClientConfig} {sz : Sizes} {ε : Type}
open Program

/-- What holds of a stream that has not been closed by the caller. -/
def Unclosed (e : Engine cfg sz) : Prop := e.core.CloseInv ∧ e.recv.Ordered sz.recv

theorem unclosed_keeps : Engine.Keeps (·.isData = true) (Unclosed : Engine cfg sz → Prop) :=
  fun e call hcall h =>
    ⟨Engine.keeps_of_step (fun _ _ _ hcall h => h.step hcall) e call hcall h.1,
      e.call_ordered h.2 call⟩

theorem unclosed_guards :
    Guards (·.isApp = true) (fun s : TlsStream cfg sz ε => Unclosed s.engine ∧ ¬ s.engine.core.Failed)
      (Unclosed ·.engine) := by
  have hguards : Guards (·.isData = true) (Unclosed ·.engine)
      (fun s : TlsStream cfg sz ε => Unclosed s.engine) :=
    guards_of_keeps unclosed_keeps fun call h => by simp [Call.isData, h]
  have hdata (call : Call cfg) (h : call.isApp = true) : call.isData = true := by simp [Call.isData, h]
  refine ⟨fun _ h => h.1, ?_, ?_, ?_, ?_, ?_⟩
  · rintro s call hcall ⟨hs, hfailed⟩ hok
    refine ⟨hguards.called s call (hdata call hcall) hs hok, ?_⟩
    cases call with
    | step =>
      rcases hstep : s.engine.step with ⟨_ | event, e⟩
      · simp [Engine.call, hstep, Output.isOk, Except.isOk, Except.toBool] at hok
      · simpa [Engine.call, hstep, Engine.step_ok_failed hstep] using hfailed
    | readApp outLen => exact mt (s.engine.call_failed_iff (.readApp outLen) (by simp) (by simp)).mp hfailed
    | writeApp buf => exact mt (s.engine.call_failed_iff (.writeApp buf) (by simp) (by simp)).mp hfailed
    | _ => cases hcall
  · exact fun s call hcall hs => hguards.failed s call (hdata call hcall) hs.1
  · rintro s s' ⟨hs, hfailed⟩ hhanded heng
    refine ⟨hguards.sent s s' hs hhanded heng, ?_⟩
    rw [heng]
    exact mt (s.engine.call_failed_iff (.markSent _) (by simp) (by simp)).mp hfailed
  · exact fun s s' hs hhanded heng => hguards.broken s s' hs.1 hhanded heng
  · rintro s s' ⟨hs, hfailed⟩ hrec
    refine ⟨hguards.received s s' hs hrec, ?_⟩
    obtain ⟨data, heng | ⟨n, heng⟩⟩ := hrec.engine
    · rw [heng]
      exact hfailed
    · rw [heng]
      exact mt ((s.engine.fill data).call_failed_iff (.advance n) (by simp) (by simp)).mp hfailed

theorem ReadFrom.closed {good : TlsStream cfg sz ε → Prop} {outLen : Nat} {s : TlsStream cfg sz ε}
    (hpos : 0 < outLen) (hgood : ∀ s, good s → s.engine.recv.Ordered sz.recv)
    (h : ReadFrom good outLen [] s) : s.engine.core.closed = true := by
  rcases h with ⟨-, hclosed⟩ | ⟨s₀, hs₀, hparked, hread⟩
  · exact hclosed
  · obtain ⟨hdata, -, hlen⟩ := Engine.readApp_parked (hgood s₀ hs₀) outLen
    have hsome := Engine.parked_length (hgood s₀ hs₀)
    have hlt : s₀.engine.recv.plainStart < s₀.engine.recv.plainEnd := of_decide_eq_true hparked
    rw [hread, List.nil_append] at hdata
    rw [hread, hdata] at hlen
    omega

theorem call_end {c : StreamCall} (hreads : c.reads = true) :
    Triple (fun s : TlsStream cfg sz ε => Unclosed s.engine ∧ ¬ s.engine.core.Failed) (call c)
      (fun r s => (Unclosed s.engine ∧ ¬ s.engine.core.Failed) ∧
        (r = .data [] → s.engine.core.closed = true)) (fun _ s => Unclosed s.engine) := by
  have hguards : Guards (·.isApp = true) _ (fun s : TlsStream cfg sz ε => Unclosed s.engine) :=
    unclosed_guards
  cases c with
  | read outLen =>
    have hpos : 0 < outLen := of_decide_eq_true hreads
    refine .bind _ (hguards.read (fun _ h => h) hpos) fun data => .pure fun s hs => ⟨hs.1, ?_⟩
    rintro ⟨⟩
    exact hs.2.closed hpos fun _ h => h.1.2
  | tryRead outLen =>
    have hpos : 0 < outLen := of_decide_eq_true hreads
    refine .bind _ (hguards.tryRead (fun _ h => h) hpos) fun r => ?_
    cases r with
    | none => exact .pure fun s hs => ⟨hs.1, nofun⟩
    | some data =>
      refine .pure fun s hs => ⟨hs.1, ?_⟩
      rintro ⟨⟩
      exact (hs.2 [] rfl).closed hpos fun _ h => h.1.2
  | writeAll | close => cases hreads

theorem exec_call_of_closed {c : StreamCall} (hreads : c.reads = true) {s : TlsStream cfg sz ε}
    (hpending : s.engine.core.isSendPending = false)
    (hparked : s.engine.recv.plaintextParked = false) (hclosed : s.engine.core.closed = true) :
    (call c).exec s = some (.ok (.data []), s) := by
  have hstep := step_of_closed hpending hparked hclosed
  cases c with
  | read outLen =>
    have hread : (read outLen).exec s = some (.ok [], s) := by
      unfold read
      rw [if_neg (of_decide_eq_true hreads : 0 < outLen).ne']
      refine exec_ioLoop_of_leave ?_
      simp [readPass, exec_bind, onEngine, hstep, mapError_ok]
    rw [call, exec_bind, hread]
    rfl
  | tryRead outLen =>
    have hread : (tryRead outLen).exec s = some (.ok (some []), s) := by
      unfold tryRead
      rw [if_neg (of_decide_eq_true hreads : 0 < outLen).ne']
      refine exec_ioLoop_of_leave ?_
      simp [tryReadPass, exec_bind, onEngine, hstep, mapError_ok]
    rw [call, exec_bind, hread]
    rfl
  | writeAll | close => cases hreads

/-- In every run without a local `close`, a read that ends the stream has met the peer's
`close_notify`, unless a record was rejected or a send failed before it. After that every read
ends the stream once there is nothing left to send or to read, whatever the peer has sent. -/
theorem read_end_received {s₀ s : TlsStream cfg sz ε} (hest : s₀.Established)
    {calls : List StreamCall} (hclose : .close ∉ calls)
    {replies : List (Except (ConnectError ε) StreamReply)} (hrun : s₀.run calls = some (replies, s))
    {c : StreamCall} (hreads : c.reads = true) :
    (¬ s.engine.core.Failed → ∀ s', (call c).exec s = some (.ok (.data []), s') →
      s'.engine.core.Received) ∧
    (s.engine.core.Failed → s.engine.core.isSendPending = false →
      s.engine.recv.plaintextParked = false → (call c).exec s = some (.ok (.data []), s)) := by
  have hs : Unclosed s.engine := by
    refine (guards_of_keeps unclosed_keeps fun call h => ?_ : Guards (·.isData = true) _
      (fun s : TlsStream cfg sz ε => Unclosed s.engine)).run (fun call h => ?_)
      (fun h => absurd h hclose) hrun (.inl fun _ h => h) ⟨hest.fresh.closeInv, hest.fresh.ordered⟩
    · simp [Call.isData, h]
    · simp [Call.isData, h]
  refine ⟨fun hfailed s' hexec => ?_, fun hfailed hpending hparked => ?_⟩
  · obtain ⟨⟨hinv, hfailed'⟩, hclosed⟩ := (call_end hreads).ok ⟨hs, hfailed⟩ hexec
    exact (hinv.1.cause (hclosed rfl)).resolve_right hfailed'
  · exact exec_call_of_closed hreads hpending hparked (hs.1.failed hfailed)

end TlsStream

namespace Sample

/-- A transport to a server that goes on with `reads` after its flight. -/
def transport (reads : List Bytes) : Transport Unit where
  reads := (serverHello :: ((serverFlight []).toOption.getD []) :: reads).map
    fun data => (.ok data.length, data)
  writes := List.replicate 4 (.ok ())

def clientHello : Bytes := [ctHandshake]

/-- The records the server seals first in the data phase. -/
def records (contents : List (Bytes × UInt8)) : List Bytes :=
  contents.mapIdx fun seq c =>
    serverRecord ((engine sizes).after handshake) seq c.1 c.2

/-- Connect to the server that goes on with `reads`, then make the calls. -/
def session (reads : List Bytes) (calls : List StreamCall) :
    Option (List (Except (ConnectError Unit) StreamReply) × TlsStream .sample sizes Unit) :=
  match (TlsStream.connect params clientHello).exec ⟨engine sizes, transport reads⟩ with
  | some (.ok (), s) => s.run calls
  | _ => none

theorem session_eq_some {reads : List Bytes} {calls : List StreamCall}
    {r : List (Except (ConnectError Unit) StreamReply) × TlsStream .sample sizes Unit}
    (h : session reads calls = some r) :
    ∃ s₀ : TlsStream .sample sizes Unit, s₀.Established ∧ s₀.run calls = some r := by
  unfold session at h
  split at h
  · rename_i s₀ hconnect
    exact ⟨s₀, ⟨_, _, _, _, _, _, _, hconnect⟩, h⟩
  · cases h

end Sample

namespace TlsStream
open Program

theorem read_end_received_sample :
    ∃ s₀ s s' : TlsStream .sample Sample.sizes Unit, s₀.Established ∧
      s₀.run [.read 16] = some ([.ok (.data (ascii "hi"))], s) ∧
      (call (.read 16)).exec s = some (.ok (.data []), s') ∧ s'.engine.core.Received := by
  have hsession : (Sample.session [(Sample.records [(ascii "hi", ctApplicationData),
      (closeNotifyAlert, ctAlert)]).flatten] [.read 16]).any (fun r =>
        r.1 = [.ok (.data (ascii "hi"))] ∧ ¬ r.2.engine.core.Failed ∧
          ((call (.read 16)).exec r.2).any (·.1 = .ok (.data []))) = true := by
    decide +kernel
  obtain ⟨⟨replies, s⟩, hsome, hcheck⟩ := (Option.any_eq_true _ _).mp hsession
  simp only [decide_eq_true_eq] at hcheck
  obtain ⟨rfl, hfailed, hread⟩ := hcheck
  obtain ⟨⟨reply, s'⟩, hexec, hreply⟩ := (Option.any_eq_true _ _).mp hread
  simp only [decide_eq_true_eq] at hreply
  subst hreply
  obtain ⟨s₀, hest, hrun⟩ := Sample.session_eq_some hsome
  exact ⟨s₀, s, s', hest, hrun, hexec,
    (read_end_received hest (by simp) hrun (by rfl)).1 hfailed s' hexec⟩

/-- An alert that is not even encrypted ends the stream for good: the read that meets it fails,
and the next one reports the end of the data. -/
theorem read_end_unauthenticated :
    ∃ s₀ s : TlsStream .sample Sample.sizes Unit, s₀.Established ∧
      s₀.run [.read 16, .read 16] =
        some ([.error (.handshake (.connection (.unknownContentType ctAlert))), .ok (.data [])], s) ∧
      ¬ s.engine.core.Received := by
  have hsession : (Sample.session [[ctAlert, 3, 3, 0, 2, 1, 0]] [.read 16, .read 16]).any (fun r =>
        r.1 = [.error (.handshake (.connection (.unknownContentType ctAlert))), .ok (.data [])] ∧
          ¬ r.2.engine.core.Received) = true := by
    decide +kernel
  obtain ⟨⟨replies, s⟩, hsome, hcheck⟩ := (Option.any_eq_true _ _).mp hsession
  simp only [decide_eq_true_eq] at hcheck
  obtain ⟨rfl, hnone⟩ := hcheck
  obtain ⟨s₀, hest, hrun⟩ := Sample.session_eq_some hsome
  exact ⟨s₀, s, hest, hrun, hnone⟩

end TlsStream

end KrabiTls
