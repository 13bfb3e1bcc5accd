import KrabiTls.Connection
import KrabiTls.Identity

/-! The engine's protocol state apart from its receive buffer, and what one record, one write or one
acknowledgement does to it. `History` is a history variable: no function reads it. -/
namespace KrabiTls
open Lib

inductive InternalError where
  | frameWithParkedPlaintext
  | handshakeStepInDataPhase
  | handshakeStepWrongState
  | serverHelloWrongState
  | flightWrongState
  | finalizeWrongState
  | advanceWhileParked
  | markSentTooLarge
  | handshakeDoneInDataPhase
  | writeAppZeroProgress
  | writeBeforeHandshake
  | drainStateInconsistent
  | recvBufferEmptyOnRecvEvent
  | appDataDuringDriveHandshake
  deriving DecidableEq, Repr

inductive HandshakeError where
  | connection (e : ConnectionError)
  | identity (e : IdentityError)
  | recordTooLarge (limit got : Nat)
  | invalidRecordSizeLimit (limit : Nat)
  | advanceTooLarge
  | busy
  | postHandshakeNotSupported
  | malformedKeyUpdate
  | interleavedPostHandshake
  | internal (e : InternalError)
  | strategyRejected
  | strategyPubkeyMismatch
  deriving DecidableEq, Repr

inductive WriteAppError where
  | closed
  | busy
  | notReady
  | other (e : HandshakeError)
  deriving DecidableEq, Repr

def minRecordSizeLimit : Nat := 64
def protoMaxInnerPlaintext : Nat := 16385
def recordOverhead : Nat := tlsHeader + aeadTagLen

/-- The wire size of a `ServerHello` of the supported profile. -/
def Features.serverHelloRecordLen (f : Features) : Nat :=
  if f.mlkem then 95 + mlkem768CtBytes else 95

/-- `MIN_RECV`: room for the `ServerHello` and for a record at the smallest legal limit. -/
def Features.minRecv (f : Features) : Nat :=
  max f.serverHelloRecordLen (minRecordSizeLimit + recordOverhead)

/-- `MIN_SEND_STANDARD`: room for the largest record the engine makes by itself. -/
def minSendStandard : Nat :=
  max (max clientFinishedLen (tlsHeader + aeadTagLen + 2 + 1)) (tlsHeader + aeadTagLen + 1 + 1)

/-- A validated `record_size_limit`. -/
abbrev RecordSizeLimit :=
  { n : Nat // minRecordSizeLimit ≤ n ∧ n ≤ protoMaxInnerPlaintext }

def RecordSizeLimit.default : RecordSizeLimit := ⟨protoMaxInnerPlaintext, by decide⟩

def RecordSizeLimit.tryFrom (value : Nat) : Option RecordSizeLimit :=
  if h : minRecordSizeLimit ≤ value ∧ value ≤ protoMaxInnerPlaintext then some ⟨value, h⟩ else none

structure Sizes where
  flight : Nat
  recv : Nat
  send : Nat
  maxChain : Nat

/-- The caller's policy: hostname, verify strategy, client authentication. -/
structure ClientParams (cfg : ClientConfig) where
  hostname : Bytes
  verifyChain : List Bytes → Option (PreparedVerifier cfg.verifiers)
  clientAuth : ClientAuthPolicy

inductive EngineState (cfg : ClientConfig) where
  | waitServerHello (conn : WaitServerHello cfg)
  | waitFlight (conn : WaitServerFlight)
  | app (conn : AppData)
  | closed

/-- Staged bytes of an incomplete post-handshake header, and the rest of a skipped body. -/
structure PostHandshakeReasm where
  stage : Bytes := []
  skipRemaining : Nat := 0
  deriving DecidableEq, Repr

def PostHandshakeReasm.inProgress (ph : PostHandshakeReasm) : Bool :=
  ph.stage ≠ [] ∨ ph.skipRemaining ≠ 0

/-- The client traffic secrets a record can be sealed under. -/
inductive SendGen where
  | handshake
  | application (updates : Nat)
  deriving DecidableEq, Repr

/-- A data-phase record that was opened: the receive generation and number it was opened with, the
record as received, and what was inside. -/
structure OpenedRecord where
  gen : Nat
  seq : Nat
  record : Bytes
  content : Bytes
  contentType : UInt8
  deriving DecidableEq, Repr

/-- The inputs of the checks a server flight has passed. -/
structure AuthRecord (cfg : ClientConfig) where
  params : ClientParams cfg
  flight : ServerFlightView
  chain : List Bytes
  prepared : PreparedVerifier cfg.verifiers
  leafView : CertView
  transcript : TranscriptHash
  sHsTs : Secret

structure History (cfg : ClientConfig) where
  sealed : List (SendGen × SealedRecord) := []
  opened : List OpenedRecord := []
  authenticated : List (AuthRecord cfg) := []
  flightLen : Nat := 0
  /-- bytes acknowledged since the client flight was queued -/
  acked : Nat := 0
  sendGen : Nat := 0
  recvGen : Nat := 0
  rejected : List HandshakeError := []
  terminal : Bool := false

structure Core (cfg : ClientConfig) (sz : Sizes) where
  state : EngineState cfg
  reassembler : ServerFlightReassembler sz.flight
  sendRecord : Block sz.send
  sendPendingLen : Nat
  sendAcked : Nat
  pendingHandshakeDone : Bool
  handshakeFinishedPendingAck : Bool
  closed : Bool
  ourRecvLimit : RecordSizeLimit
  peerRecvLimit : RecordSizeLimit
  ph : PostHandshakeReasm
  history : History cfg

namespace Core
variable {cfg : ClientConfig} {sz : Sizes} (c : Core cfg sz)

def isSendPending : Bool := c.sendPendingLen > c.sendAcked

def isClosed : Bool :=
  c.closed || match c.state with
    | .closed => true
    | _ => false

def sendBytes : Bytes :=
  if c.sendPendingLen = 0 then [] else slice c.sendRecord.val c.sendAcked c.sendPendingLen

def handleServerHello (outerType : UInt8) (record : Bytes) :
    Except HandshakeError Unit × Core cfg sz :=
  if outerType ≠ ctHandshake then
    (.error (.connection (.decrypt (.unexpectedContentType outerType))), c)
  else
    match c.state with
    | .waitServerHello conn =>
        match conn.readServerHello record with
        | .error e => (.error (.connection e), { c with state := .closed, closed := true })
        | .ok next => (.ok (), { c with state := .waitFlight next })
    | _ => (.error (.internal .serverHelloWrongState), c)

/-- The part of `handle_flight_record` in front of `finalize_and_finish`. -/
def feedFlightRecord (record : Bytes) : Except HandshakeError FlightStep × Bytes × Core cfg sz :=
  if record.headD 0 = ctApplicationData ∧ record.length - tlsHeader > c.ourRecvLimit + aeadTagLen then
    (.error (.recordTooLarge c.ourRecvLimit (record.length - tlsHeader)), record, c)
  else
    match c.state with
    | .waitFlight conn =>
        let fed := conn.feedServerRecordInplace cfg record c.reassembler
        (fed.result.mapError .connection, fed.record,
          { c with state := .waitFlight fed.conn, reassembler := fed.reassembler })
    | _ => (.error (.internal .flightWrongState), record, c)

theorem feedFlightRecord_length (record : Bytes) :
    (c.feedFlightRecord record).2.1.length = record.length := by
  unfold feedFlightRecord
  repeat' split
  · rfl
  · exact WaitServerFlight.feedServerRecordInplace_length _ _ _ _
  · rfl

/-- The peer's `record_size_limit`, checked against the legal range. -/
def peerLimit : Except HandshakeError (Option RecordSizeLimit) :=
  match c.reassembler.peekEeRecordSizeLimit with
  | .error e => .error (.connection (.flight e))
  | .ok none => .ok none
  | .ok (some limit) =>
      match RecordSizeLimit.tryFrom limit with
      | none => .error (.invalidRecordSizeLimit limit)
      | some limit => .ok (some limit)

/-- The context and scheme list of a `CertificateRequest`, if the policy answers one. -/
def certRequest (policy : ClientAuthPolicy) (flight : ServerFlightView) :
    Except HandshakeError (Option (Bytes × Bytes)) :=
  match flight.certRequestFull with
  | none => .ok none
  | some creq =>
      if policy.acceptCertRequest then do
        let ctx ← (certificateRequestContext creq).mapError (.connection <| .flight ·)
        let sigAlgs ← (certificateRequestSigAlgs creq).mapError (.connection <| .flight ·)
        pure (some (ctx, sigAlgs))
      else .error (.connection (.clientAuth .certificateRequested))

/-- What the checks in front of `finalize_server_flight` hand on. -/
structure Accepted (cfg : ClientConfig) where
  flight : ServerFlightView
  certRequest : Option (Bytes × Bytes)
  chain : List Bytes
  prepared : PreparedVerifier cfg.verifiers
  leafView : CertView

def Accepted.auth (accepted : Accepted cfg) (params : ClientParams cfg) (conn : WaitServerFlight) :
    AuthRecord cfg where
  params
  flight := accepted.flight
  chain := accepted.chain
  prepared := accepted.prepared
  leafView := accepted.leafView
  transcript := conn.transcript
  sHsTs := conn.sHsTs

/-- Trust and identity: the strategy's verdict on the chain, its verifier against the leaf, the
leaf against the hostname. -/
def acceptFlight (params : ClientParams cfg) : Except HandshakeError (Accepted cfg) :=
  match c.reassembler.flightBytes with
  | none => .error (.connection .incompleteFlight)
  | some bytes => do
      let flight ← (parseServerFlight bytes).mapError (.connection <| .flight ·)
      let certRequest ← certRequest params.clientAuth flight
      let chain ← (extractChain sz.maxChain flight.certBody).mapError (.connection <| .flight ·)
      match params.verifyChain chain with
      | none => .error .strategyRejected
      | some prepared =>
          match chain.head? with
          | none => .error (.connection (.flight .truncated))
          | some leafDer => do
              let leafView ← (cfg.certParser leafDer).mapError
                (.connection <| .flight <| .badCert ·)
              if ¬ prepared.matchesCert leafView then .error .strategyPubkeyMismatch
              else do
                (verifyHostname cfg.features leafView params.hostname).mapError .identity
                pure { flight, certRequest, chain, prepared, leafView }

structure Accepted.Checked (params : ClientParams cfg) (accepted : Accepted cfg) : Prop where
  received : ∃ bytes, c.reassembler.flightBytes = some bytes ∧
    parseServerFlight bytes = .ok accepted.flight
  certRequest : Core.certRequest params.clientAuth accepted.flight = .ok accepted.certRequest
  chain : extractChain sz.maxChain accepted.flight.certBody = .ok accepted.chain
  trusted : params.verifyChain accepted.chain = some accepted.prepared
  leaf : ∃ der, accepted.chain.head? = some der ∧ cfg.certParser der = .ok accepted.leafView
  matched : accepted.prepared.matchesCert accepted.leafView = true
  hostname : verifyHostname cfg.features accepted.leafView params.hostname = .ok ()

theorem acceptFlight_checked {params : ClientParams cfg} {accepted : Accepted cfg}
    (h : c.acceptFlight params = .ok accepted) : accepted.Checked c params := by
  unfold acceptFlight at h
  split at h
  · cases h
  · rename_i bytes hbytes
    simp only [bind_eq_ok, mapError_eq_ok] at h
    obtain ⟨flight, hflight, certRequest, hrequest, chain, hchain, h⟩ := h
    split at h
    · cases h
    · rename_i prepared hprepared
      split at h
      · cases h
      · rename_i der hder
        simp only [bind_eq_ok, mapError_eq_ok] at h
        obtain ⟨leafView, hleaf, h⟩ := h
        split at h
        · cases h
        · rename_i hmatch
          simp only [bind_eq_ok, mapError_eq_ok] at h
          obtain ⟨⟨⟩, hhost, h⟩ := h
          cases h
          exact ⟨⟨bytes, hbytes, hflight⟩, hrequest, hchain, hprepared, ⟨der, hder, hleaf⟩,
            by simpa using hmatch, hhost⟩

/-- Note what was sealed under the handshake secret; its bytes stand at the front of the send
buffer. -/
def sealedFlight {α : Type} (s : Sealing α) : Core cfg sz :=
  { c with
    sendRecord := c.sendRecord.overwrite 0 s.written
    history.sealed := c.history.sealed ++ s.sealed.map (.handshake, ·) }

/-- The installation of the application state with the client flight queued. -/
def installApp (flightLen : Nat) (app : AppData) (auth : AuthRecord cfg) : Core cfg sz :=
  { c with
    state := .app app
    sendPendingLen := flightLen
    sendAcked := 0
    pendingHandshakeDone := true
    handshakeFinishedPendingAck := true
    history.authenticated := c.history.authenticated ++ [auth]
    history.flightLen := flightLen
    history.acked := 0 }

/-- The client flight: with a `CertificateRequest` to answer, the policy builds its plaintext in
`scratch`. -/
def clientFlight (params : ClientParams cfg) (certRequest : Option (Bytes × Bytes))
    (done : ServerFlightDone) {n : Nat} (scratch : Block n) : Sealing (Bytes × AppData) × Block n :=
  match certRequest with
  | some (ctx, sigAlgs) =>
      done.finishHandshakeWithPolicy cfg params.clientAuth ctx sigAlgs c.peerRecvLimit scratch sz.send
  | none => (done.finishHandshake cfg sz.send, scratch)

/-- What holds of no record, of the chunks of a flight under the handshake keys and of a `Finished`
under them holds of the client flight. -/
theorem clientFlight_induct (P : List SealedRecord → Prop) (params : ClientParams cfg)
    (certRequest : Option (Bytes × Bytes)) (done : ServerFlightDone) {n : Nat} (scratch : Block n)
    (hnone : P [])
    (hchunks : ∀ keys plaintext, RecordKeys.derive cfg.hkdf done.suite done.cHsTs = .ok keys →
      P (encryptHandshakeFlight cfg.aead keys plaintext c.peerRecvLimit sz.send).sealed)
    (hfinished : ∀ keys msg record dirty th,
      RecordKeys.derive cfg.hkdf done.suite done.cHsTs = .ok keys →
      buildFinishedPlaintext cfg.hkdf done.cHsTs th = .ok msg →
      keys.encryptRecord cfg.aead msg ctHandshake 0 sz.send = (.ok record, dirty) →
      P [⟨0, ctHandshake, msg, record⟩]) :
    P (c.clientFlight params certRequest done scratch).1.sealed := by
  unfold clientFlight
  split
  · unfold ServerFlightDone.finishHandshakeWithPolicy
    split
    · exact hnone
    · dsimp only
      split
      · exact hnone
      · split
        · exact hnone
        · rename_i keys hkeys
          split <;> exact hchunks keys _ hkeys
  · unfold ServerFlightDone.finishHandshake
    split
    · exact hnone
    · split
      · exact hnone
      · rename_i hparts
        simp only [clientFinishedParts, bind_eq_ok, mapError_eq_ok] at hparts
        obtain ⟨_, hmsg, _, hkeys, hparts⟩ := hparts
        cases hparts
        dsimp only
        split
        · exact hnone
        · rename_i hrecord
          exact hfinished _ _ _ _ _ hkeys hmsg (Prod.ext hrecord rfl)

theorem clientFlight_records (params : ClientParams cfg) (certRequest : Option (Bytes × Bytes))
    (done : ServerFlightDone) {n : Nat} (scratch : Block n) :
    FlightRecords (c.clientFlight params certRequest done scratch).1.sealed :=
  c.clientFlight_induct FlightRecords params certRequest done scratch flightRecords_nil
    (fun _ _ _ => encryptHandshakeFlight_records _ _ _ _ _)
    fun _ _ _ _ _ _ _ _ => ⟨(consecutive_nil _).append rfl, by simp⟩

theorem clientFlight_eq_ok {params : ClientParams cfg} {certRequest : Option (Bytes × Bytes)}
    {done : ServerFlightDone} {n : Nat} {scratch : Block n} {record : Bytes} {app : AppData}
    (h : (c.clientFlight params certRequest done scratch).1.result = .ok (record, app)) :
    (∃ th, done.appKeys cfg th = .ok app) ∧
      (c.clientFlight params certRequest done scratch).1.Wrote record sz.send := by
  unfold clientFlight at h ⊢
  split at h
  · exact ServerFlightDone.finishHandshakeWithPolicy_eq_ok cfg h
  · exact ServerFlightDone.finishHandshake_eq_ok cfg h

/-- Trust and identity checks, then `finalize_server_flight`, then the client flight. `scratch` is
the receive buffer. -/
def finishFlight (params : ClientParams cfg) {n : Nat} (scratch : Block n) :
    Except HandshakeError Unit × Block n × Core cfg sz :=
  match c.acceptFlight params with
  | .error e => (.error e, scratch, c)
  | .ok accepted =>
      match c.state with
      | .waitFlight conn =>
          -- `mem::replace` leaves the terminal state behind until the flight is sealed
          match conn.finalizeServerFlight cfg c.reassembler accepted.prepared accepted.leafView with
          | .error e => (.error (.connection e), scratch, { c with state := .closed })
          | .ok done =>
              let (flight, scratch) := c.clientFlight params accepted.certRequest done scratch
              let c := { c with state := .closed }.sealedFlight flight
              match flight.result with
              | .error e => (.error (.connection e), scratch, c)
              | .ok (record, app) =>
                  (.ok (), scratch, c.installApp record.length app (accepted.auth params conn))
      | _ => (.error (.internal .finalizeWrongState), scratch, c)

/-- `finalize_and_finish`: the peer's record size limit is taken over before any check. -/
def finalizeAndFinish (params : ClientParams cfg) {n : Nat} (scratch : Block n) :
    Except HandshakeError Unit × Block n × Core cfg sz :=
  match c.peerLimit with
  | .error e => (.error e, scratch, c)
  | .ok limit =>
      { c with peerRecvLimit := limit.getD c.peerRecvLimit }.finishFlight params scratch

def noteSealed (conn : AppData) (content : Bytes) (contentType : UInt8)
    (sealing : Except ConnectionError Bytes × Bytes × AppData) :
    Except ConnectionError (Bytes × AppData) × Core cfg sz :=
  let (record, dirty, conn') := sealing
  let c := { c with sendRecord := c.sendRecord.overwrite 0 dirty }
  match record with
  | .error e => (.error e, c)
  | .ok record =>
      (.ok (record, conn'),
        { c with
          state := .app conn'
          history.sealed := c.history.sealed ++
            [(.application c.history.sendGen, ⟨conn.seqOut, contentType, content, record⟩)] })

/-- Seal one record under the current application send keys into the send buffer. -/
def sealRecord (conn : AppData) (content : Bytes) (contentType : UInt8) :
    Except ConnectionError (Bytes × AppData) × Core cfg sz :=
  c.noteSealed conn content contentType (conn.encryptRecord cfg content contentType sz.send)

theorem sealRecord_eq_ok {conn conn' : AppData} {content record : Bytes} {contentType : UInt8}
    {c' : Core cfg sz} (h : c.sealRecord conn content contentType = (.ok (record, conn'), c')) :
    conn.cApKeys.encryptRecord cfg.aead content contentType conn.seqOut sz.send =
        (.ok record, record) ∧
      conn' = { conn with seqOut := (conn.seqOut + 1) % 2 ^ 64 } ∧
      c' = { c with
        sendRecord := c.sendRecord.overwrite 0 record
        state := .app conn'
        history.sealed := c.history.sealed ++
          [(.application c.history.sendGen, ⟨conn.seqOut, contentType, content, record⟩)] } := by
  unfold sealRecord noteSealed at h
  rcases henc : conn.encryptRecord cfg content contentType sz.send with ⟨r, dirty, conn₁⟩
  rw [henc] at h
  cases r with
  | error e => cases h
  | ok r =>
    cases h
    obtain ⟨hrec, rfl⟩ := AppData.encryptRecord_eq_ok cfg henc
    obtain ⟨rfl, -⟩ := RecordKeys.encryptRecord_eq_ok hrec
    exact ⟨hrec, rfl, rfl⟩

theorem sealRecord_eq_error {conn : AppData} {content : Bytes} {contentType : UInt8}
    {err : ConnectionError} {c' : Core cfg sz}
    (h : c.sealRecord conn content contentType = (.error err, c')) :
    ∃ dirty, c' = { c with sendRecord := c.sendRecord.overwrite 0 dirty } := by
  unfold sealRecord noteSealed at h
  rcases henc : conn.encryptRecord cfg content contentType sz.send with ⟨r, dirty, conn₁⟩
  rw [henc] at h
  cases r with
  | error e => cases h; exact ⟨dirty, rfl⟩
  | ok r => cases h

theorem sealRecord_total (htotal : cfg.aead.Total) (conn : AppData) {content : Bytes}
    (contentType : UInt8) (hcontent : content.length ≤ tlsPlaintextMax)
    (hroom : content.length + 22 ≤ sz.send) :
    ∃ record conn' c', c.sealRecord conn content contentType = (.ok (record, conn'), c') := by
  obtain ⟨record, henc⟩ :=
    RecordKeys.encryptRecord_total htotal conn.cApKeys contentType conn.seqOut hcontent hroom
  unfold sealRecord noteSealed AppData.encryptRecord
  simp only [henc]
  exact ⟨_, _, _, rfl⟩

/-- The record at the front of the send buffer becomes the pending send. -/
def queue (record : Bytes) : Core cfg sz :=
  { c with sendPendingLen := record.length, sendAcked := 0 }

def rotatedRecv (conn : AppData) : Core cfg sz :=
  { c with state := .app conn, history.recvGen := c.history.recvGen + 1 }

def rotatedSend (conn : AppData) : Core cfg sz :=
  { c with state := .app conn, history.sendGen := c.history.sendGen + 1 }

/-- Answer a requested update: our `KeyUpdate` goes out under the current send keys, which then
rotate. -/
def answerKeyUpdate (conn : AppData) : Except HandshakeError Unit × Core cfg sz :=
  match c.noteSealed conn (AppData.keyUpdateMsg false) ctHandshake
      (conn.encryptKeyUpdate cfg false sz.send) with
  | (.error e, c) => (.error (.connection e), c)
  | (.ok (record, conn), c) =>
      match conn.applySendKeyUpdate cfg with
      | .error e => (.error (.connection e), c)
      | .ok conn => (.ok (), (c.rotatedSend conn).queue record)

theorem answerKeyUpdate_eq (conn : AppData) : c.answerKeyUpdate conn =
    match c.sealRecord conn (AppData.keyUpdateMsg false) ctHandshake with
    | (.error e, c) => (.error (.connection e), c)
    | (.ok (record, conn), c) =>
        match conn.applySendKeyUpdate cfg with
        | .error e => (.error (.connection e), c)
        | .ok conn => (.ok (), (c.rotatedSend conn).queue record) := rfl

def processKeyUpdate (updateRequested : Bool) : Except HandshakeError Unit × Core cfg sz :=
  match c.state with
  | .app conn =>
      match conn.applyRecvKeyUpdate cfg with
      | .error e => (.error (.connection e), c)
      | .ok conn =>
          let c := c.rotatedRecv conn
          if ¬ updateRequested then (.ok (), c) else c.answerKeyUpdate conn
  | _ => (.error (.internal .handshakeStepWrongState), c)

end Core

namespace PostHandshakeReasm

/-- Stage bytes of the content until `upTo` are there. -/
def fill (ph : PostHandshakeReasm) (upTo : Nat) (rest : Bytes) : PostHandshakeReasm × Bytes :=
  ({ ph with stage := ph.stage ++ rest.take (upTo - ph.stage.length) },
    rest.drop (upTo - ph.stage.length))

def skip (ph : PostHandshakeReasm) (rest : Bytes) : PostHandshakeReasm × Bytes :=
  ({ ph with skipRemaining := ph.skipRemaining - rest.length }, rest.drop ph.skipRemaining)

/-- A staged `KeyUpdate` header: its body byte must be the last of the record. -/
def takeKeyUpdate (ph : PostHandshakeReasm) (rest : Bytes) :
    Except HandshakeError (Option Bool) × PostHandshakeReasm :=
  if ofBe (slice ph.stage 1 4) ≠ 1 then (.error .malformedKeyUpdate, ph)
  else
    let (ph, rest) := ph.fill 5 rest
    if ph.stage.length < 5 then (.ok none, ph)
    else if rest ≠ [] then (.error .malformedKeyUpdate, ph)
    else
      match ph.stage.drop 4 with
      | [0] => (.ok (some false), { ph with stage := [] })
      | [1] => (.ok (some true), { ph with stage := [] })
      | _ => (.error .malformedKeyUpdate, ph)

/-- The walk over the handshake messages of one record's content, up to a complete `KeyUpdate`,
whose `update_requested` is the result. -/
def feedLoop : Loop (Except HandshakeError (Option Bool) × PostHandshakeReasm)
    (PostHandshakeReasm × Bytes) where
  body s :=
    let (ph, rest) := s.1.skip s.2
    if ph.skipRemaining > 0 then .leave (.ok none, ph)
    else
      let (ph, rest) := ph.fill 4 rest
      if ph.stage.length < 4 then .leave (.ok none, ph)
      else if ph.stage.headD 0 = hsNewSessionTicket then
        let ph : PostHandshakeReasm := { stage := [], skipRemaining := ofBe (slice ph.stage 1 4) }
        let (ph, rest) := ph.skip rest
        if ph.skipRemaining > 0 then .leave (.ok none, ph) else .again (ph, rest)
      else if ph.stage.headD 0 = hsKeyUpdate then .leave (ph.takeKeyUpdate rest)
      else .leave (.error .postHandshakeNotSupported, ph)
  variant s := s.2.length + s.1.stage.length
  decreases s t h := by
    dsimp only [skip, fill] at h
    split at h
    · cases h
    · split at h
      · cases h
      · rename_i hstage
        split at h
        · split at h
          · cases h
          · cases h
            simp only [List.length_append, List.length_take, List.length_drop, List.length_nil]
              at hstage ⊢
            omega
        · split at h <;> cases h

end PostHandshakeReasm

namespace Core
variable {cfg : ClientConfig} {sz : Sizes} (c : Core cfg sz)

def feedPostHandshake (content : Bytes) : Except HandshakeError Unit × Core cfg sz :=
  let (result, ph) := PostHandshakeReasm.feedLoop.run (c.ph, content)
  let c := { c with ph }
  match result with
  | .error e => (.error e, c)
  | .ok none => (.ok (), c)
  | .ok (some updateRequested) => c.processKeyUpdate updateRequested

/-- Dispatch on the inner content type; the result is the application data to park. -/
def handleInnerContent (content : Bytes) (innerCt : UInt8) :
    Except HandshakeError Bytes × Core cfg sz :=
  if innerCt ≠ ctHandshake ∧ c.ph.inProgress then (.error .interleavedPostHandshake, c)
  else if innerCt = ctApplicationData then (.ok content, c)
  else if innerCt = ctAlert then
    match content with
    | level :: description :: _ =>
        if level = 1 ∧ description = 0 then (.ok [], { c with closed := true })
        else (.error (.connection (.alert level description)), c)
    | _ => (.error (.connection (.decrypt .truncated)), c)
  else if innerCt = ctHandshake then
    let (result, c) := c.feedPostHandshake content
    (result.map fun _ => [], c)
  else (.error (.connection (.unknownContentType innerCt)), c)

/-- What a data-phase record leaves behind: the application data to park, the record's bytes in the
receive buffer, and whether the record counts as consumed. -/
structure DataRecord (cfg : ClientConfig) (sz : Sizes) where
  result : Except HandshakeError Bytes
  record : Bytes
  consumed : Bool
  core : Core cfg sz

/-- `decrypt_current_data_record`, with the opened record noted. -/
def decryptDataRecord (record : Bytes) :
    Except HandshakeError (Bytes × UInt8) × Bytes × Core cfg sz :=
  match c.state with
  | .app conn =>
      match conn.decryptRecordInplace cfg record with
      | (.error e, record, _) => (.error (.connection e), record, c)
      | (.ok (contentLen, ct), record', conn') =>
          let content := slice record' 5 (5 + contentLen)
          (.ok (content, ct), record',
            { c with
              state := .app conn'
              history.opened := c.history.opened ++
                [⟨c.history.recvGen, conn.seqIn, record, content, ct⟩] })
  | _ => (.error (.internal .handshakeStepWrongState), record, c)

theorem decryptDataRecord_length (record : Bytes) :
    (c.decryptDataRecord record).2.1.length = record.length := by
  unfold decryptDataRecord
  split
  · rename_i conn _
    have hlen := AppData.decryptRecordInplace_length cfg conn record
    split <;> rename_i heq <;> rw [heq] at hlen <;> exact hlen
  · rfl

def dispatchDataRecordInner (outerType : UInt8) (record : Bytes) : DataRecord cfg sz :=
  if outerType ≠ ctApplicationData then
    ⟨.error (.connection (.unknownContentType outerType)), record, false, c⟩
  else if record.length - tlsHeader > c.ourRecvLimit + aeadTagLen then
    ⟨.error (.recordTooLarge c.ourRecvLimit (record.length - tlsHeader)), record, false, c⟩
  else
    match c.decryptDataRecord record with
    | (.error e, record, c) => ⟨.error e, record, false, c⟩
    | (.ok (content, innerCt), record, c) =>
        let (result, c) := c.handleInnerContent content innerCt
        ⟨result, record, true, c⟩

def reject (e : HandshakeError) : Core cfg sz :=
  { c with closed := true, history.rejected := c.history.rejected ++ [e] }

/-- Every error of a data-phase record closes the engine. -/
def dispatchDataRecord (outerType : UInt8) (record : Bytes) : DataRecord cfg sz :=
  let d := c.dispatchDataRecordInner outerType record
  match d.result with
  | .ok _ => d
  | .error e => { d with core := d.core.reject e }

theorem decryptDataRecord_error {record record' : Bytes} {err : HandshakeError}
    {c' : Core cfg sz} (h : c.decryptDataRecord record = (.error err, record', c')) : c' = c := by
  unfold decryptDataRecord at h
  split at h
  · split at h
    · cases h; rfl
    · cases h
  · cases h; rfl

theorem dispatchDataRecord_length (outerType : UInt8) (record : Bytes) :
    (c.dispatchDataRecord outerType record).record.length = record.length := by
  have hinner : (c.dispatchDataRecordInner outerType record).record.length = record.length := by
    have hlen := c.decryptDataRecord_length record
    unfold dispatchDataRecordInner
    split
    · rfl
    · split
      · rfl
      · split <;> rename_i heq <;> rw [heq] at hlen <;> exact hlen
  unfold dispatchDataRecord
  dsimp only
  split <;> exact hinner

/-- A data-phase record is turned away unopened, or opened and then judged by its content. -/
theorem dispatchDataRecord_cases (outerType : UInt8) (record : Bytes) :
    let d := c.dispatchDataRecord outerType record
    (∃ err, d.result = .error err ∧ d.consumed = false ∧ d.core = c.reject err) ∨
    ∃ content ct opened, outerType = ctApplicationData ∧
      c.decryptDataRecord record = (.ok (content, ct), d.record, opened) ∧ d.consumed = true ∧
      ((∃ err, (opened.handleInnerContent content ct).1 = .error err ∧ d.result = .error err ∧
          d.core = (opened.handleInnerContent content ct).2.reject err) ∨
        ∃ parked, opened.handleInnerContent content ct = (.ok parked, d.core) ∧
          d.result = .ok parked) := by
  intro d
  by_cases houter : outerType = ctApplicationData
  swap
  · left
    simp [d, dispatchDataRecord, dispatchDataRecordInner, houter]
  by_cases hlen : record.length - tlsHeader > c.ourRecvLimit + aeadTagLen
  · left
    simp [d, dispatchDataRecord, dispatchDataRecordInner, houter, hlen]
  rcases hdec : c.decryptDataRecord record with ⟨_ | ⟨content, ct⟩, record', opened⟩
  · left
    obtain rfl := decryptDataRecord_error c hdec
    simp [d, dispatchDataRecord, dispatchDataRecordInner, houter, hlen, hdec]
  · right
    refine ⟨content, ct, opened, houter, ?_⟩
    rcases hinner : opened.handleInnerContent content ct with ⟨_ | parked, c'⟩ <;>
      simp [d, dispatchDataRecord, dispatchDataRecordInner, houter, hlen, hdec, hinner]

/-- The plaintext cap of one record: the peer's limit, the send buffer, the protocol maximum. -/
def sendChunkLimit : Nat :=
  min (min ((c.peerRecvLimit : Nat) - 1) (sz.send - (recordOverhead + 1)))
    (protoMaxInnerPlaintext - 1)

def writeApp (plaintext : Bytes) : Except WriteAppError Nat × Core cfg sz :=
  if c.closed then (.error .closed, c)
  else if c.isSendPending then (.error .busy, c)
  else
    match c.state with
    | .app conn =>
        let chunk := plaintext.take c.sendChunkLimit
        if chunk = [] then (.ok 0, c)
        else
          match c.sealRecord conn chunk ctApplicationData with
          | (.error e, c) => (.error (.other (.connection e)), c)
          | (.ok (record, _), c) => (.ok chunk.length, c.queue record)
    | _ => (.error .notReady, c)

def markSent (n : Nat) : Except HandshakeError Unit × Core cfg sz :=
  if c.sendAcked + n > c.sendPendingLen then (.error (.internal .markSentTooLarge), c)
  else
    let c := { c with sendAcked := c.sendAcked + n, history.acked := c.history.acked + n }
    if c.sendAcked = c.sendPendingLen then
      (.ok (), { c with
        sendPendingLen := 0, sendAcked := 0, handshakeFinishedPendingAck := false })
    else (.ok (), c)

/-- An acknowledgement touches the cursors of the pending send only. -/
theorem markSent_eq (n : Nat) : ∃ pendingLen acked finished sent, (c.markSent n).2 = { c with
    sendPendingLen := pendingLen, sendAcked := acked, handshakeFinishedPendingAck := finished
    history.acked := sent } := by
  unfold markSent
  split
  · exact ⟨_, _, _, _, rfl⟩
  · dsimp only
    split <;> exact ⟨_, _, _, _, rfl⟩

def markTerminal : Core cfg sz :=
  { c with
    state := .closed
    closed := true
    sendPendingLen := 0
    sendAcked := 0
    handshakeFinishedPendingAck := false
    pendingHandshakeDone := false
    history.terminal := true }

def close : Except HandshakeError Unit × Core cfg sz :=
  if c.closed then (.ok (), c)
  else if c.isSendPending then (.error .busy, c)
  else
    match c.state with
    | .app conn =>
        match c.sealRecord conn closeNotifyAlert ctAlert with
        | (.error e, c) => (.error (.connection e), c)
        | (.ok (record, _), c) => (.ok (), { c.queue record with closed := true })
    | _ => (.ok (), { c with closed := true })

end Core

end KrabiTls
