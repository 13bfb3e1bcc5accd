import KrabiTls.Lib.Layout
import KrabiTls.Stream.CloseNotify
import KrabiTls.Stream.Construction

/-! Writing to a stream: behind the record that was pending, `write_all` hands over records from
which the peer reads back the buffer. -/
namespace KrabiTls
open Lib

namespace Core
variable {cfg : ClientConfig} {sz : Sizes} {call : Call cfg} {c c' : Core cfg sz}

/-- After the handshake, what is pending is a whole record, and an engine that is not closed has the
application keys. -/
structure Streaming (c : Core cfg sz) : Prop where
  sendWf : c.SendWf
  whole : c.isSendPending = true → c.sendAcked = 0
  app : c.isClosed = false → ∃ conn, c.state = .app conn

theorem Step.app (hcalls : ∀ params, call ≠ .stepHandshake params) (hstep : Step call c c')
    (h : c.isClosed = false → ∃ conn, c.state = .app conn) :
    c'.isClosed = false → ∃ conn, c'.state = .app conn := by
  cases hstep with
  | answerFailed _ _ hseal | wrote _ _ hseal =>
    obtain ⟨-, -, rfl⟩ := sealRecord_eq_ok c hseal
    exact fun _ => ⟨_, rfl⟩
  | opened | rotatedRecv | answered => exact fun _ => ⟨_, rfl⟩
  | postHandshake | sealFailed => exact h
  | acked =>
    obtain ⟨_, _, _, _, heq⟩ := c.markSent_eq _
    rw [heq]
    exact h
  | closeNotify | rejected | closing | closedEarly | terminal =>
    intro hopen
    simp [isClosed, reject, markTerminal] at hopen
  | _ => exact absurd rfl (hcalls _)

theorem Streaming.steps (hsends : ∀ n, call ≠ .markSent n)
    (hcalls : ∀ params, call ≠ .stepHandshake params) (h : c.Streaming) (hsteps : Steps call c c') :
    c'.Streaming :=
  ⟨h.sendWf.steps hsteps,
    invariant_of_steps (fun c => c.isSendPending = true → c.sendAcked = 0)
      (fun _ _ h hstep => hstep.sendAcked hsends h) hsteps h.whole,
    invariant_of_steps (fun c => c.isClosed = false → ∃ conn, c.state = .app conn)
      (fun _ _ h hstep => hstep.app hcalls h) hsteps h.app⟩

theorem Streaming.sent (h : c.Streaming) (hpending : c.isSendPending = true) :
    (c.markSent c.sendBytes.length).2.Streaming := by
  rw [h.sendWf.markSent_sendBytes hpending]
  exact ⟨⟨Nat.le_refl _, Nat.zero_le _⟩, nofun, h.app⟩

theorem Streaming.outgoing_eq (h : c.Streaming) (hpending : c.isSendPending = true) :
    c.outgoing = [c.sendBytes] :=
  outgoing_of_unacked hpending (h.whole hpending)

/-- A chunk is not empty, and with its overhead it fits the send buffer and the limits of the
protocol and of the peer. -/
theorem sendChunkLimit_bounds (hsend : minSendStandard ≤ sz.send) (c : Core cfg sz) :
    0 < c.sendChunkLimit ∧ c.sendChunkLimit + 22 ≤ sz.send ∧ c.sendChunkLimit ≤ tlsPlaintextMax ∧
      c.sendChunkLimit + 1 ≤ c.peerRecvLimit := by
  have hlimit := c.peerRecvLimit.property
  have hmin : minSendStandard = 58 := by decide
  simp only [minRecordSizeLimit, sendChunkLimit, protoMaxInnerPlaintext, recordOverhead, tlsHeader,
    aeadTagLen, tlsPlaintextMax] at hlimit ⊢
  omega

/-- The engine takes application data under the keys of `conn`. -/
structure Writable (c : Core cfg sz) (conn : AppData) : Prop where
  streaming : c.Streaming
  state : c.state = .app conn
  not_closed : c.closed = false

theorem Streaming.writable (h : c.Streaming) (hopen : c.isClosed = false) :
    ∃ conn, c.Writable conn := by
  obtain ⟨conn, happ⟩ := h.app hopen
  simp only [isClosed, Bool.or_eq_false_iff] at hopen
  exact ⟨conn, h, happ, hopen.1⟩

/-- `write_app` takes a chunk off the front of the rest and queues the record it is sealed in. -/
theorem Writable.writeApp (htotal : cfg.aead.Total) (hsend : minSendStandard ≤ sz.send)
    {conn : AppData} (h : c.Writable conn) (hpending : c.isSendPending = false) {rest : Bytes}
    (hne : rest ≠ []) :
    ∃ record c', c.writeApp rest = (.ok (rest.take c.sendChunkLimit).length, c') ∧
      conn.cApKeys.encryptRecord cfg.aead (rest.take c.sendChunkLimit) ctApplicationData conn.seqOut
        sz.send = (.ok record, record) ∧
      c'.Writable { conn with seqOut := (conn.seqOut + 1) % 2 ^ 64 } ∧ c'.outgoing = [record] ∧
      c'.peerRecvLimit = c.peerRecvLimit := by
  obtain ⟨hpos, hroom, hmax, -⟩ := sendChunkLimit_bounds hsend c
  have hchunk : rest.take c.sendChunkLimit ≠ [] := by
    simp only [ne_eq, List.take_eq_nil_iff, not_or]
    exact ⟨by omega, hne⟩
  have hlen : (rest.take c.sendChunkLimit).length ≤ c.sendChunkLimit := List.length_take_le _ _
  obtain ⟨record, conn', c', hseal⟩ := c.sealRecord_total htotal conn ctApplicationData
    (hlen.trans hmax) (show (rest.take c.sendChunkLimit).length + 22 ≤ sz.send by omega)
  obtain ⟨henc, rfl, hc'⟩ := sealRecord_eq_ok c hseal
  have hstate : (c'.queue record).state =
      .app { conn with seqOut := (conn.seqOut + 1) % 2 ^ 64 } := by
    rw [hc']
    rfl
  refine ⟨record, c'.queue record, ?_, henc,
    ⟨⟨sealRecord_sendWf hseal, fun _ => rfl, fun _ => ⟨_, hstate⟩⟩, hstate, ?_⟩, outgoing_queue hseal, ?_⟩
  · unfold Core.writeApp
    rw [if_neg (by simp [h.not_closed]), if_neg (by simp [hpending]), h.state]
    dsimp only
    rw [if_neg hchunk, hseal]
  · rw [hc']
    exact h.not_closed
  · rw [hc']
    rfl

theorem Writable.sent {conn : AppData} (h : c.Writable conn) (hpending : c.isSendPending = true) :
    (c.markSent c.sendBytes.length).2.Writable conn ∧
      (c.markSent c.sendBytes.length).2.isSendPending = false ∧
      (c.markSent c.sendBytes.length).2.peerRecvLimit = c.peerRecvLimit := by
  have hsent := h.streaming.sent hpending
  rw [h.streaming.sendWf.markSent_sendBytes hpending] at hsent ⊢
  exact ⟨⟨hsent, h.state, h.not_closed⟩, rfl, rfl⟩

end Core

namespace Transport
variable {ε : Type} {t : Transport ε} {n : Nat}

/-- The next `n` writes succeed. -/
def Accepts (t : Transport ε) (n : Nat) : Prop := List.replicate n (.ok ()) <+: t.writes

theorem Accepts.writeAll (h : t.Accepts (n + 1)) (buf : Bytes) :
    ∃ t', t.writeAll buf = some (.ok (), t') ∧ t'.handed = t.handed ++ [buf] ∧ t'.Accepts n := by
  obtain ⟨more, hwrites⟩ := h
  refine ⟨{ t with writes := List.replicate n (.ok ()) ++ more, handed := t.handed ++ [buf] }, ?_, rfl,
    more, rfl⟩
  unfold Transport.writeAll
  rw [← hwrites]
  rfl

end Transport

namespace TlsStream
variable {cfg : ClientConfig} {sz : Sizes} {ε : Type} {s s' : TlsStream cfg sz ε}
open Program

variable {conn : AppData}

theorem streaming_guards : Guards (fun call => call.isApp = true ∨ call = .close)
    (fun s : TlsStream cfg sz ε => s.engine.core.Streaming) (·.engine.core.Streaming) := by
  have hcalled (s : TlsStream cfg sz ε) (call : Call cfg) (hcall : call.isApp = true ∨ call = .close)
      (h : s.engine.core.Streaming) : (s.engine.call call).2.core.Streaming := by
    refine h.steps ?_ ?_ (s.engine.call_steps call)
    · rintro n rfl
      simp [Call.isApp] at hcall
    · rintro params rfl
      simp [Call.isApp] at hcall
  refine ⟨fun _ h => h, fun s call hcall h _ => hcalled s call hcall h, hcalled, ?_, ?_, ?_⟩
  · intro s s' h hhanded heng
    rw [heng]
    exact h.sent hhanded.pending
  · intro s s' h _ heng
    rw [heng]
    exact ⟨⟨Nat.le_refl _, Nat.zero_le _⟩, nofun, nofun⟩
  · intro s s' h hrec
    rw [hrec.core]
    exact h

theorem Fresh.streaming (h : s.Fresh) : s.engine.core.Streaming :=
  ⟨h.sendWf, by simp [h.not_pending], fun _ => h.app⟩

/-- The state of an engine with nothing left to send, `handed` over and `n` writes to go. -/
structure Drained (conn : AppData) (limit : RecordSizeLimit) (handed : List Bytes) (n : Nat)
    (s : TlsStream cfg sz ε) : Prop where
  writable : s.engine.core.Writable conn
  not_pending : s.engine.core.isSendPending = false
  limit : s.engine.core.peerRecvLimit = limit
  handed : s.transport.handed = handed
  accepts : s.transport.Accepts n

theorem exec_driveOneSendStep {n : Nat} (h : s.engine.core.Writable conn)
    (hpending : s.engine.core.isSendPending = true) (haccepts : s.transport.Accepts (n + 1)) :
    ∃ s', driveOneSendStep.exec s = some (.ok (), s') ∧
      s'.Drained conn s.engine.core.peerRecvLimit
        (s.transport.handed ++ s.engine.core.outgoing) n := by
  have hne : s.engine.core.sendBytes ≠ [] := by
    rw [Ne, h.streaming.sendWf.sendBytes_eq_nil, hpending]
    decide
  obtain ⟨t, hwrite, hhanded, hrest⟩ := haccepts.writeAll s.engine.core.sendBytes
  have hmark : (s.engine.markSent s.engine.core.sendBytes.length).1 = .ok () := markSent_sendBytes hne
  obtain ⟨hwritable, hnone, hlimit⟩ := h.sent hpending
  refine ⟨⟨(s.engine.markSent s.engine.core.sendBytes.length).2, t⟩, ?_, hwritable, hnone, hlimit, ?_,
    hrest⟩
  · simp only [driveOneSendStep, exec_ofFun, if_neg hne, hwrite, onEngine, hmark, mapError_ok]
  · rw [hhanded, h.streaming.outgoing_eq hpending]

theorem exec_drainPendingSend {n : Nat} (h : s.engine.core.Writable conn)
    (haccepts : s.transport.Accepts (s.engine.core.outgoing.length + n)) :
    ∃ s', drainPendingSend.exec s = some (.ok (), s') ∧
      s'.Drained conn s.engine.core.peerRecvLimit
        (s.transport.handed ++ s.engine.core.outgoing) n := by
  cases hpending : s.engine.core.isSendPending with
  | false =>
    have hnone := Core.outgoing_nil hpending
    rw [hnone] at haccepts ⊢
    refine ⟨s, ?_, h, hpending, rfl, (List.append_nil _).symm, by simpa using haccepts⟩
    simp only [drainPendingSend, exec_bind, isSendPending, exec_ofFun, hpending]
    rfl
  | true =>
    rw [h.streaming.outgoing_eq hpending, List.length_singleton, Nat.add_comm] at haccepts
    obtain ⟨s', hsend, hdrained⟩ := exec_driveOneSendStep h hpending haccepts
    refine ⟨s', ?_, hdrained⟩
    have hpass : drainPass.exec s = some (.ok (.leave ()), s') := by
      simp only [drainPass, exec_bind, onEngine, exec_ofFun, step_of_pending hpending, mapError_ok,
        hsend, isSendPending, hdrained.not_pending]
      rfl
    simp only [drainPendingSend, exec_bind, isSendPending, exec_ofFun, hpending]
    exact exec_ioLoop_of_leave (h := fun _ => drainPass_progress) hpass

/-- The passes of the loop of `write_all` over a buffer, up to its end. Each makes one call of
`write_app` on what is left, which takes a number of bytes off it: at least one, at most all. -/
inductive Passes : TlsStream cfg sz ε → Bytes → List Nat → TlsStream cfg sz ε → Prop
  | done (s : TlsStream cfg sz ε) : Passes s [] [] s
  | pass {s t u s' rest n ns e} (hne : rest ≠ []) (hdrain : drainPendingSend.exec s = some (.ok (), t))
      (hwrite : t.engine.writeApp rest = (.ok n, e)) (hpos : 1 ≤ n) (hle : n ≤ rest.length)
      (hdrain' : drainPendingSend.exec { t with engine := e } = some (.ok (), u))
      (hpasses : Passes u (rest.drop n) ns s') : Passes s rest (n :: ns) s'

theorem Passes.exec_writeAll {buf : Bytes} {ns : List Nat} (h : s.Passes buf ns s') :
    (writeAll buf).exec s = some (.ok (), s') := by
  induction h with
  | done s =>
    rw [writeAll, exec_loop]
    rfl
  | @pass s t u s' rest n ns e hne hdrain hwrite hpos _ hdrain' _ ih =>
    have hpass : (writePass rest).exec s = some (.ok (.again (rest.drop n)), u) := by
      obtain ⟨n, rfl⟩ := Nat.exists_eq_add_of_le' hpos
      rw [writePass, if_neg hne, exec_bind, hdrain]
      simp only [exec_bind, writeApp, exec_ofFun, hwrite, hdrain']
      rfl
    rw [writeAll, exec_loop]
    dsimp only
    rw [hpass]
    exact ih

/-- `write_all` delivers `buf`: behind the record that was pending it hands over `records`, one for
each call of `write_app`, and the peer reads them as application data, `contents`, that make up
`buf`. -/
structure Delivers (s : TlsStream cfg sz ε) (conn : AppData) (buf : Bytes)
    (records contents : List Bytes) (s' : TlsStream cfg sz ε) : Prop where
  passes : s.Passes buf (contents.map List.length) s'
  handed : s'.transport.handed =
    s.transport.handed ++ (if buf = [] then [] else s.engine.core.outgoing) ++ records
  reads : conn.cApKeys.ReadsBack cfg.aead ctApplicationData conn.seqOut s.engine.core.peerRecvLimit
    records contents
  nonempty : ∀ content ∈ contents, content ≠ []
  whole : contents.flatten = buf

/-- One pass: what was pending goes out, then the next chunk in a record of its own. -/
theorem exec_pass (htotal : cfg.aead.Total) (hsend : minSendStandard ≤ sz.send) {buf : Bytes}
    {n : Nat} (h : s.engine.core.Writable conn)
    (haccepts : s.transport.Accepts (s.engine.core.outgoing.length + (n + 1))) (hne : buf ≠ []) :
    ∃ record t e u, drainPendingSend.exec s = some (.ok (), t) ∧
      t.engine.writeApp buf = (.ok (buf.take s.engine.core.sendChunkLimit).length, e) ∧
      drainPendingSend.exec { t with engine := e } = some (.ok (), u) ∧
      conn.cApKeys.encryptRecord cfg.aead (buf.take s.engine.core.sendChunkLimit) ctApplicationData
        conn.seqOut sz.send = (.ok record, record) ∧
      u.Drained { conn with seqOut := (conn.seqOut + 1) % 2 ^ 64 } s.engine.core.peerRecvLimit
        (s.transport.handed ++ s.engine.core.outgoing ++ [record]) n := by
  obtain ⟨t, hdrain, ht⟩ := exec_drainPendingSend h haccepts
  obtain ⟨record, c, hwrite, henc, hc, hout, hlimit⟩ :=
    ht.writable.writeApp htotal hsend ht.not_pending hne
  have hchunk : t.engine.core.sendChunkLimit = s.engine.core.sendChunkLimit := by
    rw [Core.sendChunkLimit, ht.limit, Core.sendChunkLimit]
  rw [hchunk] at hwrite henc
  have hwrote : t.engine.writeApp buf =
      (.ok (buf.take s.engine.core.sendChunkLimit).length, { t.engine with core := c }) := by
    rw [Engine.writeApp, hwrite]
    rfl
  have haccepts' : t.transport.Accepts (c.outgoing.length + n) := by
    rw [hout, List.length_singleton, Nat.add_comm]
    exact ht.accepts
  obtain ⟨u, hdrain', hu⟩ := exec_drainPendingSend
    (s := { t with engine := { t.engine with core := c } }) hc haccepts'
  refine ⟨record, t, _, u, hdrain, hwrote, hdrain', henc, ?_⟩
  dsimp only at hu
  rwa [hlimit, ht.limit, hout, ht.handed] at hu

theorem exists_delivers (htotal : cfg.aead.Total) (hcorrect : cfg.aead.Correct)
    (hsend : minSendStandard ≤ sz.send) (buf : Bytes)
    (h : s.engine.core.Writable conn)
    (haccepts : s.transport.Accepts
      (s.engine.core.outgoing.length + buf.length ⌈/⌉ s.engine.core.sendChunkLimit)) :
    ∃ records contents s', s.Delivers conn buf records contents s' := by
  induction hlen : buf.length using Nat.strong_induction_on generalizing buf s conn with
  | _ len ih =>
    by_cases hne : buf = []
    · subst hne
      exact ⟨[], [], s, .done s, by simp, RecordKeys.readsBack_nil .., nofun, rfl⟩
    · obtain ⟨hpos, -, -, hpeer⟩ := Core.sendChunkLimit_bounds hsend s.engine.core
      have hbuf := List.length_pos_iff.mpr hne
      rw [ceilDiv_step hpos hbuf] at haccepts
      obtain ⟨record, t, e, u, hdrain, hwrite, hdrain', henc, hu⟩ :=
        exec_pass htotal hsend h haccepts hne
      have hlimit : u.engine.core.sendChunkLimit = s.engine.core.sendChunkLimit := by
        rw [Core.sendChunkLimit, hu.limit, Core.sendChunkLimit]
      generalize s.engine.core.sendChunkLimit = limit at *
      have hcontent : (buf.take limit).length = min limit buf.length := List.length_take
      have hrest : buf.drop (buf.take limit).length = buf.drop limit := by
        rw [hcontent]
        rcases le_total limit buf.length with hle | hle
        · rw [min_eq_left hle]
        · rw [min_eq_right hle, List.drop_length, List.drop_eq_nil_of_le hle]
      obtain ⟨records, contents, s', hd⟩ := ih (buf.drop limit).length
        (by rw [List.length_drop]; omega) (buf.drop limit) hu.writable
        (by
          rw [Core.outgoing_nil hu.not_pending, hlimit, List.length_nil, Nat.zero_add,
            List.length_drop]
          exact hu.accepts) rfl
      refine ⟨record :: records, buf.take limit :: contents, s', ?_, ?_, ?_, ?_, ?_⟩
      · refine .pass hne hdrain hwrite (by omega) (by omega) hdrain' ?_
        rw [hrest]
        exact hd.passes
      · rw [hd.handed, hu.handed, Core.outgoing_nil hu.not_pending, ite_self, if_neg hne]
        simp
      · refine .cons (RecordKeys.readRecord_encryptRecord hcorrect (by decide) henc) (by omega) ?_
        rw [← hu.limit]
        exact hd.reads
      · rw [List.forall_mem_cons]
        exact ⟨List.ne_nil_of_length_pos (by omega), hd.nonempty⟩
      · rw [List.flatten_cons, hd.whole, List.take_append_drop]

/-- On an established stream that is not closed, after any calls, `write_all` returns and delivers
its buffer: whatever limit the peer has set, with buffers of the sizes that `connect` accepts, and a
transport that takes the record that is pending and one for each chunk. -/
theorem writeAll_delivers (htotal : cfg.aead.Total) (hcorrect : cfg.aead.Correct)
    {params : ConnectParams cfg} (hparams : validateConstruction params sz = .ok ())
    {s₀ s : TlsStream cfg sz ε} (hest : s₀.Established) {calls : List StreamCall}
    {replies : List (Except (ConnectError ε) StreamReply)} (hrun : s₀.run calls = some (replies, s))
    (hopen : s.engine.core.isClosed = false) (buf : Bytes)
    (haccepts : s.transport.Accepts
      (s.engine.core.outgoing.length + buf.length ⌈/⌉ s.engine.core.sendChunkLimit)) :
    ∃ conn records contents s', s.engine.core.state = .app conn ∧
      (writeAll buf).exec s = some (.ok (), s') ∧ s.Delivers conn buf records contents s' := by
  have hstreaming : s.engine.core.Streaming :=
    streaming_guards.run (fun _ h => .inl h) (fun _ => .inr rfl) hrun (.inl fun _ h => h)
      hest.fresh.streaming
  obtain ⟨conn, hwritable⟩ := hstreaming.writable hopen
  obtain ⟨records, contents, s', hd⟩ :=
    exists_delivers htotal hcorrect (validateConstruction_send hparams) buf hwritable haccepts
  exact ⟨conn, records, contents, s', hwritable.state, hd.passes.exec_writeAll, hd⟩

theorem writeAll_delivers_two_records :
    ∃ (s₀ s s' : TlsStream .sample Sample.sizes Unit) (conn : AppData) (records contents : List Bytes),
      s₀.Established ∧ s₀.run [.read 16] = some ([.ok (.data (ascii "hi"))], s) ∧
      s.engine.core.isClosed = false ∧
      (writeAll (List.replicate 107 7)).exec s = some (.ok (), s') ∧
      s.Delivers conn (List.replicate 107 7) records contents s' := by
  have hsession : (Sample.session (Sample.records [(ascii "hi", ctApplicationData)]) [.read 16]).any
      (fun r => r.1 = [.ok (.data (ascii "hi"))] ∧ r.2.engine.core.isClosed = false ∧
        r.2.engine.core.outgoing = [] ∧ r.2.engine.core.sendChunkLimit = 106 ∧
        List.replicate 2 (.ok ()) <+: r.2.transport.writes) = true := by
    decide +kernel
  obtain ⟨⟨replies, s⟩, hsome, hcheck⟩ := (Option.any_eq_true _ _).mp hsession
  simp only [decide_eq_true_eq] at hcheck
  obtain ⟨rfl, hopen, hnone, hlimit, haccepts⟩ := hcheck
  obtain ⟨s₀, hest, hrun⟩ := Sample.session_eq_some hsome
  obtain ⟨conn, records, contents, s', -, hexec, hd⟩ := writeAll_delivers AeadBackend.clear_total
    AeadBackend.clear_correct (show validateConstruction Sample.compatParams Sample.sizes = .ok () by
      decide) hest hrun hopen (List.replicate 107 7) (by rw [hnone, hlimit]; exact haccepts)
  exact ⟨s₀, s, s', conn, records, contents, hest, hrun, hopen, hexec, hd⟩

end TlsStream

end KrabiTls
