import KrabiTls.Engine.Core

/-! The engine: the receive buffer with its cursors, record framing, and the two step loops. -/
namespace KrabiTls
open Lib

structure RecvState where
  filled : Nat := 0
  plainStart : Nat := 0
  plainEnd : Nat := 0
  nextRecord : Nat := 0
  deriving DecidableEq, Repr

def RecvState.plaintextParked (r : RecvState) : Bool := r.plainStart < r.plainEnd

inductive EngineEvent where
  | send (remaining : Nat)
  | recv
  | appData
  | handshakeDone
  | closed
  deriving DecidableEq, Repr

inductive Framed where
  | record (start stop : Nat) (outerType : UInt8)
  | need
  deriving DecidableEq, Repr

structure Engine (cfg : ClientConfig) (sz : Sizes) where
  core : Core cfg sz
  recvRecord : Block sz.recv
  recv : RecvState

namespace Engine
variable {cfg : ClientConfig} {sz : Sizes} (e : Engine cfg sz)

def defaultOurRecvLimit (recv : Nat) : RecordSizeLimit :=
  ⟨max minRecordSizeLimit (min (recv - recordOverhead) protoMaxInnerPlaintext), by
    simp only [minRecordSizeLimit, protoMaxInnerPlaintext]; omega⟩

/-- `TlsEngine::new` on a reused scratch: only the reassembler is cleared. -/
def new (sendRecord : Block sz.send) (recvRecord : Block sz.recv) (initState : EngineState cfg)
    (ourRecvLimit peerRecvLimit : RecordSizeLimit) : Engine cfg sz where
  core := {
    state := initState, reassembler := .new, sendRecord, sendPendingLen := 0, sendAcked := 0
    pendingHandshakeDone := false, handshakeFinishedPendingAck := false, closed := false
    ourRecvLimit, peerRecvLimit, ph := {}, history := {} }
  recvRecord
  recv := {}

/-- Move the unconsumed tail to the front of the buffer. -/
def compactRecv : Engine cfg sz :=
  if e.recv.nextRecord = 0 then e
  else
    { e with
      recvRecord := e.recvRecord.overwrite 0 (slice e.recvRecord.val e.recv.nextRecord e.recv.filled)
      recv := { filled := e.recv.filled - e.recv.nextRecord } }

def frameOneRecord : Except HandshakeError Framed × Engine cfg sz :=
  if e.recv.plaintextParked then (.error (.internal .frameWithParkedPlaintext), e)
  else
    let start := e.recv.nextRecord
    if e.recv.filled - start < tlsHeader then (.ok .need, e.compactRecv)
    else
      let lengthField := ofBe (slice e.recvRecord.val (start + 3) (start + 5))
      if lengthField > sz.recv - tlsHeader then
        (.error (.recordTooLarge e.core.ourRecvLimit lengthField), e)
      else
        let stop := start + tlsHeader + lengthField
        if e.recv.filled < stop then (.ok .need, e.compactRecv)
        else (.ok (.record start stop ((e.recvRecord.val.drop start).headD 0)), e)

/-- `handle_flight_record`: the record is opened in place; a complete flight is finalized. -/
def handleFlightRecord (params : ClientParams cfg) (start stop : Nat) :
    Except HandshakeError Unit × Engine cfg sz :=
  let (result, record, core) := e.core.feedFlightRecord (slice e.recvRecord.val start stop)
  let e := { e with core, recvRecord := e.recvRecord.overwrite start record }
  match result with
  | .error err => (.error err, e)
  | .ok .pending => (.ok (), e)
  | .ok .ready =>
      let (result, recvRecord, core) := e.core.finalizeAndFinish params e.recvRecord
      (result, { e with core, recvRecord })

/-- The handler of the current handshake state. -/
def handleHandshakeRecord (params : ClientParams cfg) (start stop : Nat) (outerType : UInt8) :
    Except HandshakeError Unit × Engine cfg sz :=
  match e.core.state with
  | .waitServerHello _ =>
      let (result, core) := e.core.handleServerHello outerType (slice e.recvRecord.val start stop)
      (result, { e with core })
  | .waitFlight _ => e.handleFlightRecord params start stop
  | .app _ => (.error (.internal .handshakeStepInDataPhase), e)
  | .closed => (.error (.internal .handshakeStepWrongState), e)

def dispatchHandshakeRecord (params : ClientParams cfg) (start stop : Nat) (outerType : UInt8) :
    Except HandshakeError Unit × Engine cfg sz :=
  match e.handleHandshakeRecord params start stop outerType with
  | (.error err, e) => (.error err, e)
  | (.ok (), e) => (.ok (), { e with recv.nextRecord := stop })

def dispatchDataRecord (start stop : Nat) (outerType : UInt8) :
    Except HandshakeError Unit × Engine cfg sz :=
  let d := e.core.dispatchDataRecord outerType (slice e.recvRecord.val start stop)
  let e := { e with
    core := d.core
    recvRecord := e.recvRecord.overwrite start d.record
    recv.nextRecord := if d.consumed then stop else e.recv.nextRecord }
  match d.result with
  | .error err => (.error err, e)
  | .ok [] => (.ok (), e)
  | .ok content =>
      (.ok (), { e with
        recv.plainStart := start + tlsHeader
        recv.plainEnd := start + tlsHeader + content.length })

/-- What both step loops return before they look at the buffer. Only the handshake loop reports the
end of the handshake. -/
def idleEvent (handshake : Bool) : Option (EngineEvent × Engine cfg sz) :=
  if e.core.isSendPending then some (.send (e.core.sendPendingLen - e.core.sendAcked), e)
  else if handshake ∧ e.core.pendingHandshakeDone ∧ ¬ e.core.handshakeFinishedPendingAck then
    some (.handshakeDone, { e with core.pendingHandshakeDone := false })
  else if e.recv.plaintextParked then some (.appData, e)
  else if e.core.closed then some (.closed, e)
  else none

theorem frameOneRecord_eq_record {e e' : Engine cfg sz} {start stop : Nat} {outerType : UInt8}
    (h : e.frameOneRecord = (.ok (.record start stop outerType), e')) :
    e' = e ∧ start = e.recv.nextRecord ∧ start + tlsHeader ≤ stop ∧ stop ≤ e.recv.filled ∧
      stop = start + tlsHeader + ofBe (slice e.recvRecord.val (start + 3) (start + 5)) ∧
      outerType = (e.recvRecord.val.drop start).headD 0 := by
  unfold frameOneRecord at h
  split at h
  · cases h
  · dsimp only at h
    split at h
    · cases h
    · split at h
      · cases h
      · split at h
        · cases h
        · cases h
          exact ⟨rfl, rfl, by omega, by omega, rfl, rfl⟩

/-- A dispatch function: handle the record `recv_record[start..stop]`. -/
abbrev Dispatch (cfg : ClientConfig) (sz : Sizes) :=
  Engine cfg sz → (start stop : Nat) → (outerType : UInt8) →
    Except HandshakeError Unit × Engine cfg sz

/-- A record handled without error is consumed. -/
def Consumes (dispatch : Dispatch cfg sz) : Prop :=
  ∀ e start stop outerType e', dispatch e start stop outerType = (.ok (), e') →
    e'.recv.filled = e.recv.filled ∧ e'.recv.nextRecord = stop

/-- The step loop of a phase: record after record until there is an event to return. -/
def stepLoop (handshake : Bool) (dispatch : Dispatch cfg sz) (hd : Consumes dispatch) :
    Loop (Except HandshakeError EngineEvent × Engine cfg sz) (Engine cfg sz) where
  body e :=
    match e.idleEvent handshake with
    | some (event, e) => .leave (.ok event, e)
    | none =>
        match e.frameOneRecord with
        | (.error err, e) => .leave (.error err, e)
        | (.ok .need, e) => .leave (.ok .recv, e)
        | (.ok (.record start stop outerType), e) =>
            match dispatch e start stop outerType with
            | (.error err, e) => .leave (.error err, e)
            | (.ok (), e) => .again e
  variant e := e.recv.filled - e.recv.nextRecord
  decreases e e' h := by
    split at h
    · cases h
    · split at h
      · cases h
      · cases h
      · rename_i hframe
        obtain ⟨rfl, hstart, hlen, hstop, -⟩ := frameOneRecord_eq_record hframe
        split at h
        · cases h
        · rename_i hok
          cases h
          obtain ⟨hfilled, hnext⟩ := hd _ _ _ _ _ hok
          simp only [tlsHeader] at hlen
          omega

theorem handleHandshakeRecord_recv (params : ClientParams cfg) (start stop : Nat)
    (outerType : UInt8) : (e.handleHandshakeRecord params start stop outerType).2.recv = e.recv := by
  unfold handleHandshakeRecord
  split
  · rfl
  · unfold handleFlightRecord
    dsimp only
    split <;> rfl
  · rfl
  · rfl

theorem dispatchHandshakeRecord_consumes (params : ClientParams cfg) :
    Consumes (fun e : Engine cfg sz => e.dispatchHandshakeRecord params) := by
  intro e start stop outerType e' h
  have hrecv := e.handleHandshakeRecord_recv params start stop outerType
  dsimp only [dispatchHandshakeRecord] at h
  split at h
  · cases h
  · rename_i e₁ heq
    cases h
    rw [heq] at hrecv
    have hfilled : e₁.recv.filled = e.recv.filled := congrArg RecvState.filled hrecv
    exact ⟨hfilled, rfl⟩

theorem dispatchDataRecord_consumes :
    Consumes (fun e : Engine cfg sz => e.dispatchDataRecord) := by
  intro e start stop outerType e' h
  unfold dispatchDataRecord at h
  rcases e.core.dispatchDataRecord_cases outerType (slice e.recvRecord.val start stop) with
    ⟨err, herr, -⟩ | ⟨_, _, _, _, _, hconsumed, ⟨err, -, herr, -⟩ | ⟨parked, -, hok⟩⟩
  · simp [herr] at h
  · simp [herr] at h
  · simp only [hok, hconsumed, if_true] at h
    split at h <;> cases h <;> exact ⟨rfl, rfl⟩

/-- Drive the handshake phase to the next event. -/
def stepHandshake (params : ClientParams cfg) : Except HandshakeError EngineEvent × Engine cfg sz :=
  (stepLoop true (fun e => e.dispatchHandshakeRecord params)
    (dispatchHandshakeRecord_consumes params)).run e

/-- Drive the data phase to the next event. -/
def step : Except HandshakeError EngineEvent × Engine cfg sz :=
  (stepLoop false (fun e => e.dispatchDataRecord) dispatchDataRecord_consumes).run e

/-- The length of `recv_buffer()`. -/
def recvBufferLen : Nat :=
  if e.recv.plaintextParked then 0 else sz.recv - e.recv.filled

/-- The caller writes to the front of `recv_buffer()`. -/
def fill (data : Bytes) : Engine cfg sz :=
  { e with recvRecord := e.recvRecord.overwrite e.recv.filled (data.take e.recvBufferLen) }

def advance (n : Nat) : Except HandshakeError Unit × Engine cfg sz :=
  if n = 0 then (.ok (), e)
  else if e.recv.plaintextParked then (.error (.internal .advanceWhileParked), e)
  else if e.recv.filled + n > sz.recv then (.error .advanceTooLarge, e)
  else (.ok (), { e with recv.filled := e.recv.filled + n })

theorem advance_eq (n : Nat) : ∃ filled, (e.advance n).2 = { e with recv.filled := filled } ∧
    e.recv.filled ≤ filled ∧ (e.recv.filled ≤ sz.recv → filled ≤ sz.recv) := by
  unfold advance
  repeat' split
  rotate_left 3
  · exact ⟨e.recv.filled + n, rfl, by omega, by omega⟩
  all_goals exact ⟨e.recv.filled, rfl, Nat.le_refl _, id⟩

/-- Drain parked plaintext into a buffer of `outLen` bytes. -/
def readApp (outLen : Nat) : Bytes × Engine cfg sz :=
  let n := min (e.recv.plainEnd - e.recv.plainStart) outLen
  (slice e.recvRecord.val e.recv.plainStart (e.recv.plainStart + n),
    { e with recv.plainStart := e.recv.plainStart + n })

def withCore {α : Type} (r : α × Core cfg sz) : α × Engine cfg sz :=
  (r.1, { e with core := r.2 })

def writeApp (plaintext : Bytes) := e.withCore (e.core.writeApp plaintext)
def markSent (n : Nat) := e.withCore (e.core.markSent n)
def markTerminal : Engine cfg sz := { e with core := e.core.markTerminal }
def close := e.withCore e.core.close

end Engine

/-- The calls a wrapper can make. -/
inductive Call (cfg : ClientConfig) where
  | stepHandshake (params : ClientParams cfg)
  | step
  | fill (data : Bytes)
  | advance (n : Nat)
  | readApp (outLen : Nat)
  | writeApp (plaintext : Bytes)
  | markSent (n : Nat)
  | markTerminal
  | close

namespace Call
variable {cfg : ClientConfig}

def isTransport : Call cfg → Bool
  | .fill _ | .advance _ | .markSent _ | .markTerminal => true
  | _ => false

/-- The calls of `connect`. -/
def isHandshake : Call cfg → Bool
  | .stepHandshake _ => true
  | call => call.isTransport

def isApp : Call cfg → Bool
  | .step | .readApp _ | .writeApp _ => true
  | _ => false

/-- The calls of `read`, `try_read` and `write_all`. -/
def isData (call : Call cfg) : Bool := call.isApp || call.isTransport

end Call

inductive Output where
  | event (result : Except HandshakeError EngineEvent)
  | unit (result : Except HandshakeError Unit)
  | read (data : Bytes)
  | wrote (result : Except WriteAppError Nat)
  deriving DecidableEq

def Output.isOk : Output → Bool
  | .event result => result.isOk
  | .unit result => result.isOk
  | .read _ => true
  | .wrote result => result.isOk

namespace Engine
variable {cfg : ClientConfig} {sz : Sizes}

def call (e : Engine cfg sz) : Call cfg → Output × Engine cfg sz
  | .stepHandshake params => (e.stepHandshake params).map .event id
  | .step => e.step.map .event id
  | .fill data => (.unit (.ok ()), e.fill data)
  | .advance n => (e.advance n).map .unit id
  | .readApp outLen => (e.readApp outLen).map .read id
  | .writeApp plaintext => (e.writeApp plaintext).map .wrote id
  | .markSent n => (e.markSent n).map .unit id
  | .markTerminal => (.unit (.ok ()), e.markTerminal)
  | .close => e.close.map .unit id

def after (e : Engine cfg sz) (calls : List (Call cfg)) : Engine cfg sz :=
  calls.foldl (fun e call => (e.call call).2) e

end Engine

/-! One handshake of the sample configuration, from the server's side. -/
namespace Sample

def conn : WaitServerHello .sample where
  transcript := .new
  sessionId := none
  secret _ := ()
  advertised := .default

def params : ClientParams .sample where
  hostname := ascii "a"
  verifyChain chain := chain.head?.map fun leaf => .ed25519 (leaf.take 32)
  clientAuth := noClientAuth

def sizes : Sizes := ⟨512, 512, 128, 4⟩

def engine (sz : Sizes) : Engine .sample sz :=
  .new (Block.zeros _) (Block.zeros _) (.waitServerHello conn) (Engine.defaultOurRecvLimit sz.recv)
    .default

theorem engine_eq (sz : Sizes) : engine sz = .new (Block.zeros _) (Block.zeros _)
    (.waitServerHello conn) (Engine.defaultOurRecvLimit sz.recv) .default := rfl

def serverHello : Bytes :=
  let body := toBe 2 legacyVersion ++ List.replicate 32 7 ++ [0] ++ toBe 2 cipherAes128GcmSha256 ++
    [0, 0, 46] ++ [0, 43, 0, 2, 3, 4] ++ [0, 51, 0, 36, 0, 0x1D, 0, 32] ++ List.replicate 32 9
  [ctHandshake, 3, 3] ++ toBe 2 (body.length + 4) ++ hsMessage hsServerHello body

/-- The connection the server shares with the client after its `ServerHello`. -/
def flightConn : Except ConnectionError WaitServerFlight := conn.readServerHello serverHello

/-- The messages from `EncryptedExtensions` to `Finished`, where `extra` may stand between the first
two. -/
def flightMessages (conn : WaitServerFlight) (extra : Bytes) : Except ConnectionError Bytes := do
  let der := List.replicate 32 0 ++ [0x82, 1] ++ ascii "a"
  let ee := hsMessage hsEncryptedExtensions [0, 0]
  let cert := hsMessage hsCertificate
    ([0] ++ toBe 3 (der.length + 5) ++ toBe 3 der.length ++ der ++ [0, 0])
  let t := ((conn.transcript.update ee).update extra).update cert
  let th ← (t.snapshot .sample).mapError .transcript
  let content := certificateVerifyContent "TLS 1.3, server CertificateVerify" th
  let cv := hsMessage hsCertificateVerify
    (toBe 2 sigSchemeEd25519 ++ toBe 2 64 ++ List.replicate 64 (digest content))
  let th ← ((t.update cv).snapshot .sample).mapError .transcript
  let mac ← (HkdfSha256.sample.finishedMac conn.sHsTs th).mapError .hkdf
  pure (ee ++ extra ++ cert ++ cv ++ hsMessage hsFinished mac.val)

def sealFlight (conn : WaitServerFlight) (seq : Nat) (content : Bytes) :
    Except ConnectionError Bytes :=
  (conn.sHsKeys.encryptRecord .clear content ctHandshake seq tlsCiphertextMax).1.mapError .encrypt

def serverFlight (extra : Bytes) : Except ConnectionError Bytes := do
  let conn ← flightConn
  let flight ← flightMessages conn extra
  sealFlight conn 0 flight

def certificateRequest : Bytes :=
  hsMessage hsCertificateRequest ([0] ++ toBe 2 8 ++ [0, 13, 0, 4, 0, 2] ++ toBe 2 sigSchemeEd25519)

/-- The calls that bring the sample engine to the data phase. -/
def handshake : List (Call .sample) :=
  let flight := (serverFlight []).toOption.getD []
  [.fill serverHello, .advance serverHello.length, .stepHandshake params, .fill flight,
    .advance flight.length, .stepHandshake params, .markSent clientFinishedLen,
    .stepHandshake params]

def serverRecord (e : Engine .sample sz) (seq : Nat) (content : Bytes) (contentType : UInt8) :
    Bytes :=
  match e.core.state with
  | .app conn =>
      (conn.sApKeys.encryptRecord .clear content contentType seq tlsCiphertextMax).1.toOption.getD []
  | _ => []

end Sample

end KrabiTls
