import KrabiTls.Engine.Auth
import KrabiTls.Engine.Framing
import KrabiTls.Engine.Transcript

/-! The bytes that arrive in a run of calls, and the records of the handshake as their first pieces:
what is hashed is what stands on the wire. -/
namespace KrabiTls
open Lib Relation

variable {cfg : ClientConfig}

/-- A refused hello reads no record of the handshake. -/
theorem Core.handleServerHello_cases {sz : Sizes} {c : Core cfg sz} {conn : WaitServerHello cfg}
    (hstate : c.state = .waitServerHello conn) (outerType : UInt8) (record : Bytes) :
    (∃ err c', c.handleServerHello outerType record = (.error err, c') ∧
      HandshakeView.Step c.handshakeView c'.handshakeView) ∨
    ∃ next, conn.readServerHello record = .ok next ∧
      c.handleServerHello outerType record = (.ok (), { c with state := .waitFlight next }) := by
  unfold handleServerHello
  split
  · exact .inl ⟨_, _, rfl, .stay⟩
  · rw [hstate]
    dsimp only
    split
    · exact .inl ⟨_, _, rfl, .stop rfl⟩
    · rename_i next hread
      exact .inr ⟨next, hread, rfl⟩

theorem Core.feedFlightRecord_view {sz : Sizes} {c : Core cfg sz} {first : WaitServerHello cfg}
    {clientHello : Bytes} {taken : List Bytes} (hview : c.handshakeView.Inv first clientHello taken)
    (record : Bytes) :
    let fed := c.feedFlightRecord record
    fed.2.2.handshakeView.Inv first clientHello
      (taken ++ if fed.1.isOk then [record] else []) := by
  have hrefused : c.handshakeView.Inv first clientHello (taken ++ []) := by rwa [List.append_nil]
  unfold feedFlightRecord
  split
  · exact hrefused
  · split
    · rename_i conn hstate
      have hfed := hview.feed (congrArg EngineState.handshakePhase hstate) record
      dsimp only [handshakeView] at hfed ⊢
      cases hresult : (conn.feedServerRecordInplace cfg record c.reassembler).result with
      | error err => rw [hresult] at hfed; exact hfed
      | ok step => rw [hresult] at hfed; exact hfed
    · exact hrefused

/-- Outside the data phase a data record is turned away as it came. -/
theorem Core.dispatchDataRecord_unopened {sz : Sizes} {c : Core cfg sz}
    (happ : ∀ conn, c.state ≠ .app conn) (outerType : UInt8) (record : Bytes) :
    (c.dispatchDataRecord outerType record).record = record ∧
      (c.dispatchDataRecord outerType record).consumed = false := by
  have hopen : c.decryptDataRecord record =
      (.error (.internal .handshakeStepWrongState), record, c) := by
    unfold decryptDataRecord
    split
    · rename_i conn hstate
      exact absurd hstate (happ conn)
    · rfl
  unfold dispatchDataRecord dispatchDataRecordInner
  rw [hopen]
  dsimp only
  split_ifs <;> exact ⟨rfl, rfl⟩

namespace Engine
variable {cfg : ClientConfig} {sz : Sizes} {e e' : Engine cfg sz}

/-- The bytes a call adds to the receive buffer: those the caller has put there when it calls
`advance`. -/
def arrival (e : Engine cfg sz) : Call cfg → Bytes
  | .advance n => slice e.recvRecord.val e.recv.filled (e.advance n).2.recv.filled
  | _ => []

def arrived (e : Engine cfg sz) : List (Call cfg) → Bytes
  | [] => []
  | call :: rest => e.arrival call ++ (e.call call).2.arrived rest

/-- A call of `step_handshake` does not fail. -/
def handshakeCallOk (e : Engine cfg sz) : Call cfg → Bool
  | .stepHandshake params => (e.stepHandshake params).1.isOk
  | _ => true

/-- No `step_handshake` of the run fails. -/
def handshakeOk (e : Engine cfg sz) : List (Call cfg) → Bool
  | [] => true
  | call :: rest => e.handshakeCallOk call && (e.call call).2.handshakeOk rest

theorem step_buffered (h : e.recv.Ordered sz.recv) (happ : ∀ conn, e.core.state ≠ .app conn) :
    e.step.2.buffered = e.buffered := by
  refine stepLoop_rule (· = e) (fun r => r.2.buffered = e.buffered) ?_ ?_ ?_ ?_ ?_ e rfl
  · rintro _ event e' rfl hevent
    rw [idleEvent_data hevent]
  · rintro _ rfl - -
    exact compactRecv_buffered h
  · rintro _ err rfl - -
    rfl
  · rintro e₁ start stop outerType err e' heq - hf herr
    subst heq
    obtain ⟨-, rfl, hstart, hstop, -⟩ := frameOneRecord_eq_record hf
    obtain ⟨hrecord, hconsumed⟩ := Core.dispatchDataRecord_unopened happ outerType
      (slice e₁.recvRecord.val e₁.recv.nextRecord stop)
    have hsame : overwrite e₁.recvRecord.val e₁.recv.nextRecord
        (slice e₁.recvRecord.val e₁.recv.nextRecord stop) = e₁.recvRecord.val :=
      overwrite_slice_self ((Nat.le_add_right _ _).trans hstart)
        (by rw [e₁.recvRecord.property]; exact hstop.trans h.filled)
    unfold dispatchDataRecord at herr
    simp only [hrecord, hconsumed] at herr
    split at herr <;> cases herr
    simp only [buffered, Block.overwrite, hsame]
    rfl
  · rintro _ start stop outerType e' rfl - - hok
    obtain ⟨conn, hstate⟩ := dispatchDataRecord_eq_ok hok
    exact absurd hstate (happ conn)

/-- While the handshake reads records, every other call leaves what is buffered as it is and adds
what arrives. -/
theorem call_buffered (h : e.recv.Ordered sz.recv) (call : Call cfg)
    (hno : ∀ params, call ≠ .stepHandshake params)
    (hreading : e.core.state.handshakePhase.reading = true) :
    (e.call call).2.buffered = e.buffered ++ e.arrival call := by
  cases call with
  | stepHandshake params => exact absurd rfl (hno params)
  | step =>
    have happ (conn : AppData) (hstate : e.core.state = .app conn) : False := by
      simp [hstate] at hreading
    exact (step_buffered h happ).trans (List.append_nil _).symm
  | fill data =>
    have hsize := e.recvRecord.property
    have hfilled := h.filled
    have hlen : (data.take e.recvBufferLen).length ≤ sz.recv - e.recv.filled := by
      rw [List.length_take, recvBufferLen]
      split <;> omega
    have hfront : (e.fill data).buffered = e.buffered :=
      slice_overwrite_front (Nat.le_refl _) (by omega)
    exact hfront.trans (List.append_nil _).symm
  | advance n =>
    obtain ⟨filled, heq, hle, -⟩ := e.advance_eq n
    simp only [Engine.call, Prod.map, arrival, heq]
    exact slice_split h.next hle
  | readApp | writeApp | markSent | markTerminal | close => exact (List.append_nil _).symm

/-- What a record of the handshake does: `more` is the record if it is taken. -/
theorem dispatchHandshakeRecord_takes {first : WaitServerHello cfg} {clientHello : Bytes}
    {taken : List Bytes} (hfirst : first.transcript = ⟨hsMessage hsClientHello clientHello⟩)
    (hordered : e.recv.Ordered sz.recv) (hview : e.core.handshakeView.Inv first clientHello taken)
    (hreading : e.core.state.handshakePhase.reading = true) (params : ClientParams cfg) {stop : Nat}
    (outerType : UInt8) (hstart : e.recv.nextRecord + tlsHeader ≤ stop)
    (hstop : stop ≤ e.recv.filled) :
    let r := e.dispatchHandshakeRecord params e.recv.nextRecord stop outerType
    ∃ more, r.2.core.handshakeView.Inv first clientHello (taken ++ more) ∧
      (taken = [] → more.length ≤ 1) ∧
      (taken = [] ∨ r.1 = .ok () → ∃ rest, e.buffered = more.flatten ++ rest ∧
        (r.2.core.state.handshakePhase.reading = true → r.2.buffered = rest)) := by
  have hbuffered : e.buffered = [slice e.recvRecord.val e.recv.nextRecord stop].flatten ++
      slice e.recvRecord.val stop e.recv.filled := by
    rw [List.flatten_singleton]
    exact slice_split ((Nat.le_add_right _ _).trans hstart) hstop
  unfold dispatchHandshakeRecord handleHandshakeRecord
  cases hstate : e.core.state with
  | waitServerHello conn =>
    have hphase : e.core.handshakeView.phase = .hello conn :=
      congrArg EngineState.handshakePhase hstate
    obtain ⟨rfl, -⟩ := hview.hello conn hphase
    dsimp only
    rcases Core.handleServerHello_cases hstate outerType
      (slice e.recvRecord.val e.recv.nextRecord stop) with ⟨err, c', heq, hstep⟩ | ⟨next, hread, heq⟩
    · rw [heq]
      exact ⟨[], hview.step hstep, fun _ => Nat.zero_le 1, fun _ => ⟨e.buffered, rfl, fun _ => rfl⟩⟩
    · rw [heq]
      exact ⟨_, hview.readHello hfirst hphase hread, fun _ => Nat.le_refl 1,
        fun _ => ⟨_, hbuffered, fun _ => rfl⟩⟩
  | waitFlight conn =>
    have hphase : e.core.handshakeView.phase = .flight conn :=
      congrArg EngineState.handshakePhase hstate
    obtain ⟨-, -, -, -, _, _, _, rfl, -⟩ := hview.flight conn hphase
    have hfed := Core.feedFlightRecord_view hview
      (slice e.recvRecord.val e.recv.nextRecord stop)
    have hlen := e.core.feedFlightRecord_length (slice e.recvRecord.val e.recv.nextRecord stop)
    rw [slice_length_of_le (by rw [e.recvRecord.property]; exact hstop.trans hordered.filled)] at hlen
    dsimp only [handleFlightRecord] at hfed ⊢
    generalize e.core.feedFlightRecord (slice e.recvRecord.val e.recv.nextRecord stop) = fed
      at hfed hlen ⊢
    rcases fed with ⟨err | _ | _, record, core⟩
    · exact ⟨[], hfed, nofun, nofun⟩
    · exact ⟨_, hfed, nofun, fun _ => ⟨_, hbuffered, fun _ =>
        slice_behind_record hordered ((Nat.le_add_right _ _).trans hstart) hstop hlen⟩⟩
    · obtain ⟨hstep, hover⟩ := core.finalizeAndFinish_view params
        (e.recvRecord.overwrite e.recv.nextRecord record)
      dsimp only
      generalize core.finalizeAndFinish params (e.recvRecord.overwrite e.recv.nextRecord record) =
        finished at hstep hover ⊢
      rcases finished with ⟨err | _, recvRecord, core'⟩
      · exact ⟨_, hfed.step hstep, nofun, nofun⟩
      · refine ⟨_, hfed.step hstep, nofun, fun _ => ⟨_, hbuffered, fun hreading => ?_⟩⟩
        rw [hover rfl] at hreading
        cases hreading
  | app | closed => simp [hstate] at hreading

/-- The records of the handshake that were read are the first bytes that arrived, and what is buffered
follows them. After a failed `step_handshake` (`ok` does not hold) that is said of the first alone:
a refused record of the flight may have been opened in place, and is framed again. -/
structure Took (first : WaitServerHello cfg) (clientHello arrived : Bytes) (ok : Prop)
    (e : Engine cfg sz) (taken : List Bytes) : Prop where
  ordered : e.recv.Ordered sz.recv
  view : e.core.handshakeView.Inv first clientHello taken
  buffered : taken = [] ∨ ok → e.core.state.handshakePhase.reading = true →
    arrived = taken.flatten ++ e.buffered
  hello : (taken.take 1).flatten <+: arrived
  all : ok → taken.flatten <+: arrived

namespace Took
variable {first : WaitServerHello cfg} {clientHello arrived : Bytes} {ok ok' : Prop}
  {taken : List Bytes}

theorem mono (h : Took first clientHello arrived ok e taken) (himp : ok' → ok) :
    Took first clientHello arrived ok' e taken :=
  { h with
    buffered := fun hok => h.buffered (hok.imp_right himp)
    all := fun hok => h.all (himp hok) }

theorem quiet (h : Took first clientHello arrived ok e taken) {more : Bytes}
    (hordered : e'.recv.Ordered sz.recv)
    (hview : ReflTransGen HandshakeView.Step e.core.handshakeView e'.core.handshakeView)
    (hbuffered : e.core.state.handshakePhase.reading = true → e'.buffered = e.buffered ++ more) :
    Took first clientHello (arrived ++ more) ok e' taken where
  ordered := hordered
  view := invariant_of_steps _ (fun _ _ hinv => hinv.step) hview h.view
  buffered hok hreading := by
    have hsame : e'.core.handshakeView = e.core.handshakeView :=
      HandshakeView.eq_of_reading hview hreading
    have hreading' : e.core.state.handshakePhase.reading = true := by
      have hphase : e'.core.state.handshakePhase = e.core.state.handshakePhase :=
        congrArg HandshakeView.phase hsame
      rwa [← hphase]
    rw [hbuffered hreading', h.buffered hok hreading', List.append_assoc]
  hello := h.hello.trans (List.prefix_append _ _)
  all hok := (h.all hok).trans (List.prefix_append _ _)

theorem extend (h : Took first clientHello arrived ok e taken) {more : List Bytes}
    (hreading : e.core.state.handshakePhase.reading = true) (hordered : e'.recv.Ordered sz.recv)
    (hview : e'.core.handshakeView.Inv first clientHello (taken ++ more))
    (hone : taken = [] → more.length ≤ 1)
    (hmore : taken = [] ∨ ok' → ∃ rest, e.buffered = more.flatten ++ rest ∧
      (e'.core.state.handshakePhase.reading = true → e'.buffered = rest)) :
    Took first clientHello arrived (ok ∧ ok') e' (taken ++ more) := by
  have harrived (hok : taken = [] ∨ ok ∧ ok') : ∃ rest, arrived = (taken ++ more).flatten ++ rest ∧
      (e'.core.state.handshakePhase.reading = true → e'.buffered = rest) := by
    obtain ⟨rest, hbuffered, hrest⟩ := hmore (hok.imp_right And.right)
    refine ⟨rest, ?_, hrest⟩
    rw [h.buffered (hok.imp_right And.left) hreading, hbuffered, List.flatten_append,
      List.append_assoc]
  refine ⟨hordered, hview, fun hok hreading' => ?_, ?_, fun hok => ?_⟩
  · obtain ⟨rest, heq, hrest⟩ := harrived (hok.imp_left fun hnil => (List.append_eq_nil_iff.mp hnil).1)
    rw [heq, hrest hreading']
  · cases taken with
    | nil =>
      obtain ⟨rest, heq, -⟩ := harrived (.inl rfl)
      rw [heq, List.nil_append, List.take_of_length_le (hone rfl)]
      exact List.prefix_append _ _
    | cons hello records => exact h.hello
  · obtain ⟨rest, heq, -⟩ := harrived (.inr hok)
    rw [heq]
    exact List.prefix_append _ _

theorem record (hfirst : first.transcript = ⟨hsMessage hsClientHello clientHello⟩)
    (h : Took first clientHello arrived ok e taken) (params : ClientParams cfg) {start stop : Nat}
    {outerType : UInt8} (hf : e.frameOneRecord = (.ok (.record start stop outerType), e)) :
    let r := e.dispatchHandshakeRecord params start stop outerType
    ∃ taken', Took first clientHello arrived (ok ∧ r.1 = .ok ()) r.2 taken' := by
  intro r
  obtain ⟨-, rfl, hstart, hstop, -⟩ := frameOneRecord_eq_record hf
  by_cases hreading : e.core.state.handshakePhase.reading = true
  · obtain ⟨more, hview, hone, hmore⟩ :=
      dispatchHandshakeRecord_takes hfirst h.ordered h.view hreading params outerType hstart hstop
    have hordered := dispatchHandshakeRecord_ordered params e stop outerType h.ordered hstart hstop
    exact ⟨_, h.extend hreading hordered hview hone hmore⟩
  · have hsame : r.2 = e := by
      unfold r dispatchHandshakeRecord handleHandshakeRecord
      cases hstate : e.core.state with
      | waitServerHello | waitFlight => simp [hstate] at hreading
      | app | closed => rfl
    rw [hsame]
    exact ⟨taken, h.mono And.left⟩

theorem stepHandshake (hfirst : first.transcript = ⟨hsMessage hsClientHello clientHello⟩)
    (h : Took first clientHello arrived ok e taken) (params : ClientParams cfg) :
    ∃ taken', Took first clientHello arrived (ok ∧ (e.stepHandshake params).1.isOk = true)
      (e.stepHandshake params).2 taken' := by
  refine stepLoop_rule (fun e => ∃ taken, Took first clientHello arrived ok e taken)
    (fun r => ∃ taken, Took first clientHello arrived (ok ∧ r.1.isOk = true) r.2 taken)
    ?_ ?_ ?_ ?_ ?_ e ⟨taken, h⟩
  · rintro e event e' ⟨taken, h⟩ hevent
    obtain ⟨_, rfl⟩ := idleEvent_eq hevent
    exact ⟨taken, { h.mono And.left with }⟩
  · rintro e ⟨taken, h⟩ - -
    have hcompact : Took first clientHello (arrived ++ []) ok e.compactRecv taken :=
      h.quiet (compactRecv_ordered h.ordered) (by rw [compactRecv_core])
        fun _ => by rw [compactRecv_buffered h.ordered, List.append_nil]
    rw [List.append_nil] at hcompact
    exact ⟨taken, hcompact.mono And.left⟩
  · rintro e err ⟨taken, h⟩ - -
    exact ⟨taken, h.mono And.left⟩
  · rintro e start stop outerType err e' ⟨taken, h⟩ - hf herr
    obtain ⟨taken', h'⟩ := h.record hfirst params hf
    rw [herr] at h'
    exact ⟨taken', h'.mono fun hok => ⟨hok.1, nomatch hok.2⟩⟩
  · rintro e start stop outerType e' ⟨taken, h⟩ - hf hok
    obtain ⟨taken', h'⟩ := h.record hfirst params hf
    rw [hok] at h'
    exact ⟨taken', h'.mono fun hok => ⟨hok, rfl⟩⟩

theorem call (hfirst : first.transcript = ⟨hsMessage hsClientHello clientHello⟩)
    (h : Took first clientHello arrived ok e taken) (call : Call cfg) :
    ∃ taken', Took first clientHello (arrived ++ e.arrival call)
      (ok ∧ e.handshakeCallOk call = true) (e.call call).2 taken' := by
  by_cases hstep : ∃ params, call = .stepHandshake params
  · obtain ⟨params, rfl⟩ := hstep
    obtain ⟨taken', h'⟩ := h.stepHandshake hfirst params
    have hnil : arrived ++ e.arrival (.stepHandshake params) = arrived := List.append_nil arrived
    rw [hnil]
    exact ⟨taken', h'⟩
  · have hno (params : ClientParams cfg) : call ≠ .stepHandshake params := fun heq => hstep ⟨_, heq⟩
    have hview := simulation_of_steps (fun _ _ hstep => ReflTransGen.single
      (Core.Step.handshakeView hno hstep)) (e.call_steps call)
    exact ⟨taken, (h.quiet (call_ordered h.ordered call) hview
      (call_buffered h.ordered call hno)).mono And.left⟩

theorem after (hfirst : first.transcript = ⟨hsMessage hsClientHello clientHello⟩)
    (h : Took first clientHello arrived ok e taken) (calls : List (Call cfg)) :
    ∃ taken', Took first clientHello (arrived ++ e.arrived calls)
      (ok ∧ e.handshakeOk calls = true) (e.after calls) taken' := by
  induction calls generalizing e arrived ok taken with
  | nil => exact ⟨taken, by simpa [Engine.arrived, handshakeOk, Engine.after] using h⟩
  | cons call rest ih =>
    obtain ⟨taken', h'⟩ := h.call hfirst call
    obtain ⟨taken'', h''⟩ := ih h'
    refine ⟨taken'', ?_⟩
    rw [Engine.arrived, handshakeOk, Bool.and_eq_true, ← List.append_assoc, ← and_assoc]
    exact h''

end Took

/-- In every run that reaches the data phase, whatever the records the server flight came in, each
hash of the handshake was taken over exactly the messages that were exchanged before it. The record
of the `ServerHello` is what arrives first; unless a `step_handshake` failed on the way, the records of
the flight follow it on the wire, one after the other. -/
theorem after_transcript {init : Init cfg} {outLen : Nat}
    {primaryPub : Block cfg.features.primaryPubLen} {opts : ClientHelloOptions cfg.features}
    {chRecord : Bytes} {first : WaitServerHello cfg}
    (hhello : init.writeClientHelloWith outLen primaryPub opts = .ok (chRecord, first))
    (sendRecord : Block sz.send) (recvRecord : Block sz.recv)
    (ourRecvLimit peerRecvLimit : RecordSizeLimit) (calls : List (Call cfg)) {conn : AppData}
    (happ : ((Engine.new sendRecord recvRecord (.waitServerHello first) ourRecvLimit
      peerRecvLimit).after calls).core.state = .app conn) :
    ∃ (log : HandshakeLog cfg) (c₀ s₀ : Secret), chRecord = helloRecord hsClientHello log.clientHello ∧
      let start := Engine.new sendRecord recvRecord (.waitServerHello first) ourRecvLimit peerRecvLimit
      let core := (start.after calls).core
      log.Exact first core.handshakeSealed c₀ s₀ ∧ core.history.authenticated = [log.auth] ∧
        UpdatedBy cfg.hkdf c₀ core.history.sendGen conn.cApTs ∧
        UpdatedBy cfg.hkdf s₀ core.history.recvGen conn.sApTs ∧
        helloRecord hsServerHello log.serverHello <+: start.arrived calls ∧
        (start.handshakeOk calls = true →
          helloRecord hsServerHello log.serverHello ++ log.records.flatten <+: start.arrived calls) := by
  obtain ⟨body, hrecord, hfirst⟩ := Init.writeClientHelloWith_eq_ok hhello
  have hnew : Took first body [] True (Engine.new sendRecord recvRecord (.waitServerHello first)
      ourRecvLimit peerRecvLimit) [] := by
    refine ⟨⟨Nat.le_refl _, Nat.le_refl _, Nat.le_refl _, Nat.zero_le _⟩, ⟨?_, nofun, nofun⟩,
      fun _ _ => (slice_self _ _).symm, List.prefix_rfl, fun _ => List.prefix_rfl⟩
    rintro _ ⟨⟩
    exact ⟨rfl, rfl, rfl, rfl, rfl, rfl, rfl⟩
  obtain ⟨taken, h⟩ := hnew.after hfirst calls
  obtain ⟨log, c₀, s₀, hlog, rfl, hexact, hauth, hsend, hrecv⟩ :=
    h.view.app conn.cApTs conn.sApTs (by simp [Core.handshakeView, happ])
  refine ⟨log, c₀, s₀, ?_, hexact, hauth, hsend, hrecv, ?_, fun hok => h.all ⟨trivial, hok⟩⟩
  · rw [hlog]
    exact hrecord
  · simpa [HandshakeLog.taken] using h.hello

end Engine

def EngineState.appData {cfg : ClientConfig} : EngineState cfg → Option AppData
  | .app conn => some conn
  | _ => none

theorem EngineState.appData_eq_some {cfg : ClientConfig} {state : EngineState cfg} {conn : AppData}
    (h : state.appData = some conn) : state = .app conn := by
  cases state with
  | app conn' => exact congrArg _ (Option.some.inj h)
  | _ => cases h

namespace Sample

def init : Init .sample := ⟨Block.zeros 32, fun _ => ()⟩

def helloOptions : ClientHelloOptions Features.standard :=
  ⟨some (ascii "a"), none, none, some [ascii "h2"], .default, none, none, by simp⟩

/-- A server that asks for a certificate and sends its flight in two records with a
`change_cipher_spec` between them. -/
def splitReply (first : WaitServerHello .sample) : Except ConnectionError Bytes := do
  let conn ← first.readServerHello serverHello
  let flight ← flightMessages conn certificateRequest
  let front ← sealFlight conn 0 (flight.take 50)
  let back ← sealFlight conn 1 (flight.drop 50)
  pure (serverHello ++ front ++ [ctChangeCipherSpec, 3, 3, 0, 1, 1] ++ back)

def authParams : ClientParams .sample :=
  let auth : ClientAuth Features.standard := ⟨[1], sigSchemeEd25519, fun _ => .ok ⟨[5], by decide⟩⟩
  { params with clientAuth := withClientAuth auth }

def splitCalls (first : WaitServerHello .sample) : List (Call .sample) :=
  let reply := (splitReply first).toOption.getD []
  [.fill reply, .advance reply.length, .stepHandshake authParams]

end Sample

namespace Engine

theorem after_transcript_split :
    ∃ chRecord first conn,
      Sample.init.writeClientHelloWith 768 (Block.zeros 32) Sample.helloOptions =
        .ok (chRecord, first) ∧
      let start := Engine.new (Block.zeros Sample.sizes.send) (Block.zeros Sample.sizes.recv)
        (.waitServerHello first) .default .default
      let calls := Sample.splitCalls first
      let core := (start.after calls).core
      core.state = .app conn ∧ start.handshakeOk calls = true ∧
        ∃ (log : HandshakeLog .sample) (c₀ s₀ : Secret),
          chRecord = helloRecord hsClientHello log.clientHello ∧
          log.Exact first core.handshakeSealed c₀ s₀ ∧ core.handshakeSealed ≠ [] ∧
          helloRecord hsServerHello log.serverHello ++ log.records.flatten <+: start.arrived calls := by
  have hrun : (Sample.init.writeClientHelloWith 768 (Block.zeros 32)
      Sample.helloOptions).toOption.any (fun hello =>
        let start := Engine.new (Block.zeros Sample.sizes.send) (Block.zeros Sample.sizes.recv)
          (.waitServerHello hello.2) .default .default
        let calls := Sample.splitCalls hello.2
        let core := (start.after calls).core
        core.state.appData.isSome && !core.handshakeSealed.isEmpty && start.handshakeOk calls) =
          true := by
    decide +kernel
  obtain ⟨⟨chRecord, first⟩, hhello, hrun⟩ := (Option.any_eq_true _ _).mp hrun
  rw [toOption_eq_some] at hhello
  simp only [Bool.and_eq_true, Bool.not_eq_true', List.isEmpty_eq_false_iff] at hrun
  obtain ⟨⟨happ, hsealed⟩, hok⟩ := hrun
  obtain ⟨conn, hconn⟩ := Option.isSome_iff_exists.mp happ
  have hconn := EngineState.appData_eq_some hconn
  obtain ⟨log, c₀, s₀, hrecord, hexact, -, -, -, -, hwire⟩ := after_transcript hhello (Block.zeros _)
    (Block.zeros _) .default .default (Sample.splitCalls first) hconn
  exact ⟨chRecord, first, conn, hhello, hconn, hok, log, c₀, s₀, hrecord, hexact, hsealed, hwire hok⟩

end Engine

end KrabiTls
