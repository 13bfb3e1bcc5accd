import KrabiTls.Connection
import KrabiTls.Dtls.Ack
import KrabiTls.Dtls.ClientHello
import KrabiTls.Dtls.EncryptedExtensions
import KrabiTls.Dtls.Epoch2
import KrabiTls.Dtls.Keys
import KrabiTls.Identity
import KrabiTls.Trust.Strategy

/-! `DtlsClient::connect`: the handshake over a datagram transport. -/
namespace KrabiTls.Dtls
open Lib

def maxFlightAttempts : Nat := 5
def maxFlightDatagrams : Nat := 256
def maxAckBodyLen : Nat := 2 + maxAckRecords * recordNumberLen
def maxAckSealOverhead : Nat := 1 + maxCidLen + 2 + 2 + 1 + aeadTagLen
def ctAck : UInt8 := 26

/-- The `message_hash` header in front of the hash that stands for the first `ClientHello`. -/
def hrrMessageHashHeader : Bytes := [0xFE, 0x00, 0x00, 0x20]

/-- The backends of a DTLS connection and the one suite it speaks. -/
structure DtlsConfig extends ClientConfig where
  suite : CipherSuite
  masker : Masker
  maxChain : Nat

/-- The arguments of `connect`. `generated` is what the key exchange makes of the caller's RNG; of the
flight buffer only the length matters. -/
structure ConnectArgs (cfg : DtlsConfig) where
  verifyChain : List Bytes → Option (PreparedVerifier cfg.verifiers)
  hostname : Option Bytes
  clientCid : Option Bytes
  generated : Option (cfg.kx.Secret .x25519 × Bytes)
  clientRandom : Block 32
  flightBufLen : Nat
  reasmBuf : Bytes

structure Established extends DtlsClient, DtlsReceiver

section Transport
variable {ε : Type}

abbrev Driver (ε α : Type) := Program (DtlsClientError ε) (DatagramTransport ε) α

def sendDatagram (datagram : Bytes) : Driver ε Unit :=
  .ofFun fun t => (t.send datagram).map fun (reply, t) => (reply.mapError .transport, t)

def recvDatagram : Driver ε (Option Datagram) :=
  .ofFun fun t => t.recv.map fun (reply, t) => (reply.mapError .transport, t)

/-- Wait for the reply to `flight`, which was sent `attempts` times, and send it again at each
timeout. -/
def awaitBody (flight : Bytes) (maxAttempts : Nat) :
    Program.Body (DtlsClientError ε) (DatagramTransport ε) Nat Datagram where
  pass attempts := do
    match ← recvDatagram with
    | some reply => pure (.leave reply)
    | none =>
        if attempts ≥ maxAttempts then throw .timeout
        else do
          sendDatagram flight
          pure (.again (attempts + 1))
  variant attempts _ := maxAttempts - attempts
  decreases attempts t attempts' t' h := by
    obtain ⟨reply, t₁, -, h⟩ := Program.exec_bind_eq_ok.mp h
    split at h
    · cases h
    · split at h
      · cases h
      · obtain ⟨_, t₂, -, h⟩ := Program.exec_bind_eq_ok.mp h
        cases h
        omega

def sendFlightAwaitReply (flight : Bytes) (maxAttempts : Nat) : Driver ε Datagram := do
  sendDatagram flight
  .loop (awaitBody flight maxAttempts) 1

end Transport

variable {ε : Type} {cfg : DtlsConfig} (args : ConnectArgs cfg)

/-- What the exchange of hellos leaves: the transcript in front of the `ServerHello`, the datagram it
came in, the last `ClientHello` flight and the number of the client's next message. -/
structure HelloExchange where
  transcript : TranscriptHash
  reply : Datagram
  retransmit : Bytes
  clientFinMsgSeq : Nat

/-- A `ClientHello` body, written into an array of 512 bytes. -/
def clientHello (pubKey : Block 32) (cookie : Option Bytes) : Except (DtlsClientError ε) Bytes := do
  let (n, buf) ← (writeClientHello cfg.features args.clientRandom pubKey cfg.suite.id none cookie
    args.clientCid (Block.zeros 512).val).mapError fun _ => .bufferTooSmall
  pure (buf.take n)

def chDgramLen : Nat := hsHeaderLen + 512 + 16

/-- Send the first `ClientHello` and, if a `HelloRetryRequest` comes back, the second one. -/
def helloExchange (pubKey : Block 32) : Driver ε HelloExchange := do
  let ch1 ← .ofExcept (clientHello args pubKey none)
  let ch1Rec ← .ofExcept (buildClientHelloRecord ch1 0 0 chDgramLen)
  let first ← sendFlightAwaitReply ch1Rec maxFlightAttempts
  let (firstBody, _, _) ← .ofExcept (parseHelloBody first.val)
  match ← .ofExcept ((parseServerHello firstBody).mapError fun _ => .handshake) with
  | .retry selectedSuite cookie => do
      .ofExcept (ensure (selectedSuite = cfg.suite.id) .handshake)
      .ofExcept (ensure (cookie.length ≤ 256) .bufferTooSmall)
      let ch1Hash ← .ofExcept (((TranscriptHash.new.update (hsMessage hsClientHello ch1)).snapshot
        cfg.hkdf).mapError fun _ => .keySchedule)
      let transcript := ((TranscriptHash.new.update hrrMessageHashHeader).update ch1Hash.val).update
        (hsMessage hsServerHello firstBody)
      let ch2 ← .ofExcept (clientHello args pubKey (some cookie))
      let ch2Rec ← .ofExcept (buildClientHelloRecord ch2 1 1 chDgramLen)
      let reply ← sendFlightAwaitReply ch2Rec maxFlightAttempts
      pure {
        transcript := transcript.update (hsMessage hsClientHello ch2)
        reply, retransmit := ch2Rec, clientFinMsgSeq := 2 }
  | .hello _ _ _ =>
      pure {
        transcript := TranscriptHash.new.update (hsMessage hsClientHello ch1)
        reply := first, retransmit := ch1Rec, clientFinMsgSeq := 1 }

/-- The negotiated connection ids: the length of ours, and the server's with its length. -/
def negotiateCid (clientCid serverCid : Option Bytes) :
    Except (DtlsClientError ε) (Nat × Block 20 × Nat) :=
  match clientCid, serverCid with
  | some ourCid, some theirCid => do
      ensure (theirCid.length ≤ maxCidLen) .handshake
      pure (ourCid.length, (Block.zeros 20).overwrite 0 theirCid, theirCid.length)
  | _, _ => pure (0, Block.zeros 20, 0)

/-- What `connect` keeps of the `ServerHello` and its datagram. -/
structure ServerHelloRead where
  transcript : TranscriptHash
  share : Block 32
  baseSeq : Nat
  recvCidLen : Nat
  sendCid : Block 20
  sendCidLen : Nat
  trailing : Bytes

def readServerHello (x : HelloExchange) : Except (DtlsClientError ε) ServerHelloRead := do
  let (shBody, shSeq, shTrailing) ← parseHelloBody x.reply.val
  let kind ← (parseServerHello shBody).mapError fun _ => .handshake
  match kind with
  | .retry _ _ => .error .handshake
  | .hello selectedSuite share serverCid => do
      ensure (selectedSuite = cfg.suite.id) .handshake
      let (recvCidLen, sendCid, sendCidLen) ← negotiateCid args.clientCid serverCid
      pure {
        transcript := x.transcript.update (hsMessage hsServerHello shBody)
        share, baseSeq := (shSeq + 1) % 2 ^ 16, recvCidLen, sendCid, sendCidLen
        trailing := x.reply.val.drop (x.reply.val.length - shTrailing) }

def ServerHelloRead.cid (sh : ServerHelloRead) : Option Bytes :=
  if sh.sendCidLen > 0 then some (sh.sendCid.val.take sh.sendCidLen) else none

def handshakeKeys (secret : cfg.kx.Secret .x25519) (sh : ServerHelloRead) :
    Except (DtlsClientError ε) HandshakeKeys := do
  let ikm ← okOr .keySchedule (cfg.kx.derive .x25519 secret sh.share.val)
  if h : ikm.length = 32 then do
    let thChSh ← (sh.transcript.snapshot cfg.hkdf).mapError fun _ => .keySchedule
    (deriveHandshakeKeys cfg.hkdf cfg.suite ⟨ikm, h⟩ thChSh).mapError fun _ => .keySchedule
  else .error .keySchedule

/-- The part of a datagram with epoch-2 records: all of it, or what follows a plaintext record. Any
other datagram is skipped. -/
def epoch2Part (datagram : Bytes) : Option Bytes :=
  match datagram with
  | [] => none
  | first :: _ =>
      if isCiphertextRecord first then some datagram
      else
        match parseHelloBody (ε := Unit) datagram with
        | .error _ => none
        | .ok (_, _, trailing) => some (datagram.drop (datagram.length - trailing))

/-- The loop variables while the server's flight comes in. -/
structure Collecting where
  datagrams : Nat
  resendsLeft : Nat
  epoch2 : Epoch2

variable (cfg) in
/-- One pass of the loop that collects the flight. An empty datagram has nothing to feed, whatever
its buffer still holds. -/
def collectBody (serverKeys : EpochKeys) (sh : ServerHelloRead) (retransmit : Bytes) :
    Program.Body (DtlsClientError ε) (DatagramTransport ε) Collecting Epoch2 where
  pass c := do
    if c.epoch2.reasm.flightComplete sh.baseSeq hsFinished then pure (.leave c.epoch2)
    else if c.datagrams ≥ maxFlightDatagrams then throw .timeout
    else
      match ← recvDatagram with
      | none =>
          if c.resendsLeft = 0 then throw .timeout
          else do
            sendDatagram retransmit
            pure (.again { c with datagrams := c.datagrams + 1, resendsLeft := c.resendsLeft - 1 })
      | some datagram =>
          match epoch2Part datagram.val with
          | none => pure (.again { c with datagrams := c.datagrams + 1 })
          | some part => do
              let epoch2 ← .ofExcept (c.epoch2.feed cfg.aead cfg.masker cfg.features.usizeBits serverKeys
                sh.recvCidLen part)
              pure (.again { c with datagrams := c.datagrams + 1, epoch2 })
  variant c _ := maxFlightDatagrams - c.datagrams
  decreases c t c' t' h := by
    split at h
    · cases h
    · split at h
      · cases h
      · obtain ⟨reply, t₁, -, h⟩ := Program.exec_bind_eq_ok.mp h
        split at h
        · split at h
          · cases h
          · obtain ⟨_, t₂, -, h⟩ := Program.exec_bind_eq_ok.mp h
            cases h
            dsimp only
            omega
        · split at h
          · cases h
            dsimp only
            omega
          · obtain ⟨_, t₂, -, h⟩ := Program.exec_bind_eq_ok.mp h
            cases h
            dsimp only
            omega

/-- Collect the server's flight, beginning with what came behind the `ServerHello`. -/
def collectFlight (serverKeys : EpochKeys) (sh : ServerHelloRead) (retransmit : Bytes) :
    Driver ε Epoch2 := do
  let start := Epoch2.start args.reasmBuf
  let epoch2 ← .ofExcept (if sh.trailing ≠ [] then
      start.feed cfg.aead cfg.masker cfg.features.usizeBits serverKeys sh.recvCidLen sh.trailing
    else pure start)
  .loop (collectBody cfg serverKeys sh retransmit) ⟨0, maxFlightAttempts - 1, epoch2⟩

/-- The body of the first message of the flight. -/
def eeBody (flight : ServerFlightView) : Bytes := flight.eeFull.drop 4

/-- A flight that the strategy and the identity checks have accepted. -/
structure Trusted (cfg : DtlsConfig) where
  flight : ServerFlightView
  peerRecordLimit : Option Nat
  chain : List Bytes
  prepared : PreparedVerifier cfg.verifiers
  leafView : CertView

def trustFlight (epoch2 : Epoch2) : Except (DtlsClientError ε) (Trusted cfg) := do
  let bytes ← (epoch2.reasm.serializeFlight epoch2.arena args.flightBufLen).mapError fun _ => .protocol
  let flight ← (parseServerFlight bytes).mapError fun _ => .protocol
  let peerRecordLimit ← (parseEeRecordSizeLimit (eeBody flight)).mapError fun _ => .handshake
  let chain ← (extractChain cfg.maxChain flight.certBody).mapError fun _ => .protocol
  let prepared ← okOr .strategyRejected (args.verifyChain chain)
  let leafDer ← okOr .protocol chain.head?
  let leafView ← (cfg.certParser leafDer).mapError fun _ => .protocol
  ensure (prepared.matchesCert leafView = true) .pubkeyMismatch
  match args.hostname with
  | some host => (verifyHostname cfg.features leafView host).mapError fun _ => .hostnameMismatch
  | none => pure ()
  pure { flight, peerRecordLimit, chain, prepared, leafView }

/-- `CertificateVerify` and the server's `Finished`; the result is the hash through the `Finished`. -/
def authenticateFlight (transcript : TranscriptHash) (serverHsTs : Secret) (trusted : Trusted cfg) :
    Except (DtlsClientError ε) TranscriptDigest := do
  let thAfterCert ← ((transcript.throughCert trusted.flight).snapshot cfg.hkdf).mapError
    fun _ => .keySchedule
  (verifyCertificateVerifyWithPrepared cfg.features trusted.prepared thAfterCert
    trusted.flight.cvBody).mapError fun _ => .certVerify
  let thAfterCv ← ((transcript.throughCv trusted.flight).snapshot cfg.hkdf).mapError
    fun _ => .keySchedule
  let expectedFin ← (cfg.hkdf.dtlsFinishedMac serverHsTs thAfterCv).mapError fun _ => .keySchedule
  ensure (trusted.flight.finBody = expectedFin.val) .certVerify
  ((transcript.throughFin trusted.flight).snapshot cfg.hkdf).mapError fun _ => .keySchedule

variable (cfg) in
/-- The record of the client's `Finished`. -/
def sealFinished (hk : HandshakeKeys) (cid : Option Bytes) (messageSeq : Nat)
    (thServerFin : TranscriptDigest) : Except (DtlsClientError ε) Bytes := do
  let finData ← (cfg.hkdf.dtlsFinishedMac hk.clientHsTs thServerFin).mapError fun _ => .keySchedule
  let finMsg ← writeHsMsg (hsHeaderLen + 48) hsFinished messageSeq finData.val
  let sealed ← (hk.client.seal cfg.aead cfg.masker ⟨2, 0, .two, cid⟩ finMsg ctHandshake 128).mapError
    fun _ => .protocol
  ensure (sealed.length ≤ 128) .bufferTooSmall
  pure sealed

variable (cfg) in
/-- The record that acknowledges the flight. -/
def sealAck (hk : HandshakeKeys) (cid : Option Bytes) (acked : BitVec 128) :
    Except (DtlsClientError ε) Bytes := do
  let (ackLen, ackBody) ← (writeAckBitmap 2 acked (Block.zeros maxAckBodyLen).val).mapError
    fun _ => .bufferTooSmall
  (hk.client.seal cfg.aead cfg.masker ⟨2, 1, .two, cid⟩ (ackBody.take ackLen) ctAck
    (maxAckBodyLen + maxAckSealOverhead)).mapError fun _ => .protocol

variable (cfg) in
/-- The epoch-3 keys of both directions. -/
def applicationKeys (hsSecret : Secret) (thServerFin : TranscriptDigest) :
    Except (DtlsClientError ε) (EpochKeys × EpochKeys) := do
  let master ← (cfg.hkdf.dtlsMasterSecret hsSecret).mapError fun _ => .keySchedule
  let (clientSecret, serverSecret) ←
    (cfg.hkdf.dtlsApplicationTrafficSecrets master thServerFin).mapError fun _ => .keySchedule
  let client ← (EpochKeys.derive cfg.hkdf cfg.suite clientSecret).mapError fun _ => .keySchedule
  let server ← (EpochKeys.derive cfg.hkdf cfg.suite serverSecret).mapError fun _ => .keySchedule
  pure (client, server)

variable (cfg) in
/-- The client's `Finished`, the acknowledgement, and the client for the application phase. -/
def finishConnect (hk : HandshakeKeys) (sh : ServerHelloRead) (messageSeq : Nat) (epoch2 : Epoch2)
    (peerRecordLimit : Option Nat) (thServerFin : TranscriptDigest) : Driver ε Established := do
  let finRec ← .ofExcept (sealFinished cfg hk sh.cid messageSeq thServerFin)
  sendDatagram finRec
  let ackRec ← .ofExcept (sealAck cfg hk sh.cid epoch2.acked)
  sendDatagram ackRec
  let (clientApp, serverApp) ← .ofExcept (applicationKeys cfg hk.hsSecret thServerFin)
  pure {
    clientApp, sendSeq := 0, sendCid := sh.sendCid, sendCidLen := sh.sendCidLen, peerRecordLimit
    serverApp, recvHint := 0, serverReplay := .new, finFlight := finRec
    finResendsLeft := maxFlightAttempts, recvCidLen := sh.recvCidLen, recvStash := [] }

def generateShare : Except (DtlsClientError ε) (cfg.kx.Secret .x25519 × Block 32) := do
  let (secret, share) ← okOr .rng args.generated
  if h : share.length = 32 then pure (secret, ⟨share, h⟩) else .error .rng

def connect : Driver ε Established := do
  let (secret, pubKey) ← .ofExcept (generateShare args)
  let x ← helloExchange args pubKey
  let sh ← .ofExcept (readServerHello args x)
  let hk ← .ofExcept (handshakeKeys secret sh)
  let epoch2 ← collectFlight args hk.server sh x.retransmit
  let trusted ← .ofExcept (trustFlight args epoch2)
  let thServerFin ← .ofExcept (authenticateFlight sh.transcript hk.serverHsTs trusted)
  finishConnect cfg hk sh x.clientFinMsgSeq epoch2 trusted.peerRecordLimit thServerFin

end KrabiTls.Dtls
