import KrabiTls.Engine.Conforming
import KrabiTls.Link.Basic
import KrabiTls.ServerFlight.Credentials
import KrabiTls.ServerHello.Grammar

/-! A TLS 1.3 server without resumption and client authentication: the keys it derives, the records
it answers a `ClientHello` with, and the reply it expects. -/
namespace KrabiTls
open Lib

/-- The group whose secret a share of a named group meets. -/
def Features.kxGroup (f : Features) (group : Nat) : KxGroup :=
  if f.p256Kx ∧ group = namedGroupSecp256r1 then .p256
  else if f.mlkem then .x25519MlKem768
  else .x25519

/-- What a server brings to a handshake. `ikm` is what its key exchange makes of the client's share. -/
structure Server extends Credentials where
  hello : ServerHelloMessage
  suite : CipherSuite
  ikm : Bytes

/-- The secrets of the handshake, with the keys of the client's reply and of the server's flight. -/
structure HandshakeSecrets where
  hs : Secret
  cHsTs : Secret
  sHsTs : Secret
  cHsKeys : RecordKeys
  sHsKeys : RecordKeys

/-- What a server has after its side of the handshake: its flight, the `Finished` it expects, and its
ends of the two directions. -/
structure Negotiated extends HandshakeSecrets where
  messages : List Message
  clientFinished : Block 32
  send : Half
  recv : Half

namespace Server
variable (s : Server)

variable (cfg : ClientConfig) (clientHello : Bytes)

/-- The transcript through the `ServerHello`. -/
def hellos : Bytes := clientHello ++ hsMessage hsServerHello s.hello.body

def handshakeSecrets : Option HandshakeSecrets := do
  let th ← (cfg.hkdf.hash (s.hellos clientHello)).toOption
  let hs ← (cfg.hkdf.handshakeSecret s.ikm).toOption
  let (cHsTs, sHsTs) ← (cfg.hkdf.handshakeTrafficSecrets hs th).toOption
  let cHsKeys ← (RecordKeys.derive cfg.hkdf s.suite cHsTs).toOption
  let sHsKeys ← (RecordKeys.derive cfg.hkdf s.suite sHsTs).toOption
  pure { hs, cHsTs, sHsTs, cHsKeys, sHsKeys }

/-- The key schedule and the flight, for a server that got `clientHello`. -/
def negotiate : Option Negotiated := do
  let secrets ← s.handshakeSecrets cfg clientHello
  let (thCert, mac) ← s.authenticate cfg.hkdf (cfg.hkdf.finishedMac secrets.sHsTs) (s.hellos clientHello)
  let messages := s.messages thCert mac
  let thFin ← (cfg.hkdf.hash (s.hellos clientHello ++ messages.flatMap Message.encode)).toOption
  let clientFinished ← (cfg.hkdf.finishedMac secrets.cHsTs thFin).toOption
  let ms ← (cfg.hkdf.masterSecret secrets.hs).toOption
  let (cApTs, sApTs) ← (cfg.hkdf.applicationTrafficSecrets ms thFin).toOption
  let cApKeys ← (RecordKeys.derive cfg.hkdf s.suite cApTs).toOption
  let sApKeys ← (RecordKeys.derive cfg.hkdf s.suite sApTs).toOption
  pure {
    secrets with
    messages, clientFinished
    send := ⟨s.suite, sApTs, sApKeys, 0, 0⟩, recv := ⟨s.suite, cApTs, cApKeys, 0, 0⟩ }

variable {cfg clientHello} {s} {n : Negotiated}

/-- What a server has derived. -/
structure Derives (s : Server) (cfg : ClientConfig) (clientHello : Bytes) (n : Negotiated) : Prop where
  hs : cfg.hkdf.handshakeSecret s.ikm = .ok n.hs
  traffic : ∃ th, cfg.hkdf.hash (s.hellos clientHello) = .ok th ∧
    cfg.hkdf.handshakeTrafficSecrets n.hs th = .ok (n.cHsTs, n.sHsTs)
  cHsKeys : RecordKeys.derive cfg.hkdf s.suite n.cHsTs = .ok n.cHsKeys
  sHsKeys : RecordKeys.derive cfg.hkdf s.suite n.sHsTs = .ok n.sHsKeys
  flight : ∃ thCert thCv mac, s.Signs cfg.hkdf (cfg.hkdf.finishedMac n.sHsTs) (s.hellos clientHello)
    thCert thCv mac ∧ n.messages = s.messages thCert mac
  app : ∃ thFin ms,
    cfg.hkdf.hash (s.hellos clientHello ++ n.messages.flatMap Message.encode) = .ok thFin ∧
    cfg.hkdf.finishedMac n.cHsTs thFin = .ok n.clientFinished ∧ cfg.hkdf.masterSecret n.hs = .ok ms ∧
    cfg.hkdf.applicationTrafficSecrets ms thFin = .ok (n.recv.secret, n.send.secret) ∧
    RecordKeys.derive cfg.hkdf s.suite n.recv.secret = .ok n.recv.keys ∧
    RecordKeys.derive cfg.hkdf s.suite n.send.secret = .ok n.send.keys
  send : n.send = ⟨s.suite, n.send.secret, n.send.keys, 0, 0⟩
  recv : n.recv = ⟨s.suite, n.recv.secret, n.recv.keys, 0, 0⟩

theorem negotiate_derives (h : s.negotiate cfg clientHello = some n) : s.Derives cfg clientHello n := by
  simp only [negotiate, handshakeSecrets, Option.bind_eq_bind, Option.bind_eq_some_iff,
    toOption_eq_some] at h
  obtain ⟨secrets, ⟨th, hth, hs, hhs, ⟨cHsTs, sHsTs⟩, htraffic, cHsKeys, hcHsKeys, sHsKeys, hsHsKeys,
    hsecrets⟩, ⟨thCert, mac⟩, hflight, thFin, hthFin, clientFinished, hclient, ms, hms, ⟨cApTs, sApTs⟩,
    happ, cApKeys, hcApKeys, sApKeys, hsApKeys, hn⟩ := h
  cases hsecrets
  cases hn
  obtain ⟨thCv, hsigns⟩ := Credentials.authenticate_eq_some hflight
  exact ⟨hhs, ⟨th, hth, htraffic⟩, hcHsKeys, hsHsKeys, ⟨thCert, thCv, mac, hsigns, rfl⟩,
    ⟨thFin, ms, hthFin, hclient, hms, happ, hcApKeys, hsApKeys⟩, rfl, rfl⟩

end Server

/-- A record of the server's flight: a fragment with padding behind it, or a `change_cipher_spec`
for the sake of middleboxes. -/
inductive FlightPart where
  | changeCipherSpec
  | fragment (content : Bytes) (pad : Nat)

namespace FlightPart

def content : FlightPart → Bytes
  | changeCipherSpec => []
  | fragment content _ => content

/-- The length of the inner plaintext, which the client's limit is about. -/
def innerLen : FlightPart → Nat
  | changeCipherSpec => 0
  | fragment content pad => content.length + 1 + pad

def changeCipherSpecRecord : Bytes :=
  ctChangeCipherSpec :: (toBe 2 legacyVersion ++ prefixed 2 [1])

/-- The records of a flight, sealed from number `seq` on. -/
def sealAll (a : AeadBackend) (keys : RecordKeys) : (seq : Nat) → List FlightPart → Option Bytes
  | _, [] => some []
  | seq, changeCipherSpec :: parts => do
      let rest ← sealAll a keys seq parts
      pure (changeCipherSpecRecord ++ rest)
  | seq, fragment content pad :: parts => do
      let record ← (keys.sealInner a (innerPlaintext content ctHandshake pad) seq).toOption
      let rest ← sealAll a keys ((seq + 1) % 2 ^ 64) parts
      pure (record ++ rest)

end FlightPart

namespace Peer
variable (cfg : ClientConfig) (limit : Nat)

/-- The records of the data phase, one for each thing to be sent, if it can be. -/
def emitAll (p : Peer) : List PeerSend → Bytes × Peer
  | [] => ([], p)
  | s :: sends =>
      match p.emit cfg limit s with
      | .error _ => emitAll p sends
      | .ok (r, p) => (r.record ++ (emitAll p sends).1, (emitAll p sends).2)

def takeAll (p : Peer) (records : List Bytes) : Peer :=
  records.foldl (take cfg) p

end Peer

end KrabiTls
