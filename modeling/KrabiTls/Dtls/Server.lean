import KrabiTls.Dtls.Capacity
import KrabiTls.Dtls.ClientHello.Grammar
import KrabiTls.Dtls.Connect
import KrabiTls.Dtls.Retransmission
import KrabiTls.Dtls.ServerHello.Grammar
import KrabiTls.ServerFlight.Credentials

/-! A DTLS 1.3 server without resumption and client authentication: the hellos it sends, the keys it
derives, the records it puts its flight into and the datagrams they come in. -/
namespace KrabiTls.Dtls
open Lib

/-- A `HelloRetryRequest` for a cookie. -/
structure Retry where
  hello : StrictHello
  cookie : Vec UInt8 256

/-- What a server brings to a handshake. `ikm` is what its key exchange makes of the client's share;
the connection id is the one it wants on the client's records. -/
structure Server extends Credentials where
  hello : StrictHello
  share : Block 32
  cid : Option Bytes
  ikm : Block 32
  retry : Option Retry
  seq_lt : ofBe hello.messageSeq.val + 4 < 2 ^ 16

section Flight
variable (s : Credentials)

theorem eeBody_pos : 0 < s.eeBody.length := by
  rw [Credentials.eeBody, prefixed_length]
  omega

theorem eeBody_lt : s.eeBody.length < 2 ^ 24 := prefixed_lt s.extensions_lt

theorem certificate_encode_pos : 0 < s.certificate.encode.length := by
  rw [CertificateBody.encode, List.length_append, prefixed_length]
  omega

theorem Signed.encode_pos (signed : Signed) : 0 < signed.encode.length := by
  rw [signed.encode_length]
  omega

theorem mac_pos (mac : Block 32) : 0 < mac.val.length := by
  rw [mac.property]
  decide

/-- The messages in front of the `Finished`. -/
def flightFront (th : TranscriptDigest) : List Message :=
  let signed := s.sign (certificateVerifyContent "TLS 1.3, server CertificateVerify" th)
  [⟨hsEncryptedExtensions, s.eeBody, eeBody_pos s, eeBody_lt s⟩,
    ⟨hsCertificate, s.certificate.encode, certificate_encode_pos s, s.certificate_lt⟩,
    ⟨hsCertificateVerify, signed.encode, Signed.encode_pos signed, signed.encode_lt⟩]

theorem flightFront_type (th : TranscriptDigest) : ∀ m ∈ flightFront s th, m.msgType ≠ hsFinished := by
  simp only [flightFront, List.forall_mem_cons]
  decide

/-- The flight of the server, numbered from behind its hello. -/
def Server.flight (s : Server) (th : TranscriptDigest) (mac : Block 32) : Flight hsFinished where
  base := ofBe s.hello.messageSeq.val + 1
  front := flightFront s.toCredentials th
  last := ⟨hsFinished, mac.val, mac_pos mac, mac_length_lt mac⟩
  seqs := s.seq_lt
  front_type := flightFront_type s.toCredentials th
  last_type := rfl

theorem Server.flight_bytes (s : Server) (th : TranscriptDigest) (mac : Block 32) :
    (s.flight th mac).bytes = (s.messages th mac).flatMap KrabiTls.Message.encode := rfl

end Flight

/-- What a server has after its side of the handshake: the transcript of the hellos, the keys of
epoch 2, what its flight was signed and finished with, the `Finished` it expects, and the keys of
epoch 3. -/
structure Negotiated where
  hellos : Bytes
  keys : HandshakeKeys
  signedHash : TranscriptDigest
  finished : Block 32
  clientFinished : Block 32
  clientApp : EpochKeys
  serverApp : EpochKeys

namespace Server
variable (s : Server) (cfg : DtlsConfig) (clientHello : Option Bytes → Bytes)

/-- The transcript of the hellos; `clientHello` gives the body the client has sent, without a cookie
or with one. -/
def hellos : Option Bytes :=
  match s.retry with
  | none => some (hsMessage hsClientHello (clientHello none) ++ hsMessage hsServerHello s.hello.body)
  | some retry => do
      let ch1Hash ← (cfg.hkdf.hash (hsMessage hsClientHello (clientHello none))).toOption
      pure (hrrMessageHashHeader ++ ch1Hash.val ++ hsMessage hsServerHello retry.hello.body ++
        hsMessage hsClientHello (clientHello (some retry.cookie.val)) ++
        hsMessage hsServerHello s.hello.body)

def negotiate : Option Negotiated := do
  let hellos ← s.hellos cfg clientHello
  let th ← (cfg.hkdf.hash hellos).toOption
  let keys ← (deriveHandshakeKeys cfg.hkdf cfg.suite s.ikm th).toOption
  let (signedHash, finished) ← s.authenticate cfg.hkdf (cfg.hkdf.dtlsFinishedMac keys.serverHsTs) hellos
  let thFin ← (cfg.hkdf.hash
    (hellos ++ (s.messages signedHash finished).flatMap KrabiTls.Message.encode)).toOption
  let clientFinished ← (cfg.hkdf.dtlsFinishedMac keys.clientHsTs thFin).toOption
  let master ← (cfg.hkdf.dtlsMasterSecret keys.hsSecret).toOption
  let (clientSecret, serverSecret) ← (cfg.hkdf.dtlsApplicationTrafficSecrets master thFin).toOption
  let clientApp ← (EpochKeys.derive cfg.hkdf cfg.suite clientSecret).toOption
  let serverApp ← (EpochKeys.derive cfg.hkdf cfg.suite serverSecret).toOption
  pure { hellos, keys, signedHash, finished, clientFinished, clientApp, serverApp }

variable {s cfg clientHello} {n : Negotiated}

/-- What a server has derived. -/
structure Derives (s : Server) (cfg : DtlsConfig) (clientHello : Option Bytes → Bytes) (n : Negotiated) :
    Prop where
  hellos : s.hellos cfg clientHello = some n.hellos
  keys : ∃ th, cfg.hkdf.hash n.hellos = .ok th ∧
    deriveHandshakeKeys cfg.hkdf cfg.suite s.ikm th = .ok n.keys
  signs : ∃ thCv, s.Signs cfg.hkdf (cfg.hkdf.dtlsFinishedMac n.keys.serverHsTs) n.hellos n.signedHash thCv
    n.finished
  app : ∃ thFin master clientSecret serverSecret, cfg.hkdf.hash
      (n.hellos ++ (s.messages n.signedHash n.finished).flatMap KrabiTls.Message.encode) = .ok thFin ∧
    cfg.hkdf.dtlsFinishedMac n.keys.clientHsTs thFin = .ok n.clientFinished ∧
    cfg.hkdf.dtlsMasterSecret n.keys.hsSecret = .ok master ∧
    cfg.hkdf.dtlsApplicationTrafficSecrets master thFin = .ok (clientSecret, serverSecret) ∧
    EpochKeys.derive cfg.hkdf cfg.suite clientSecret = .ok n.clientApp ∧
    EpochKeys.derive cfg.hkdf cfg.suite serverSecret = .ok n.serverApp

theorem negotiate_derives (h : s.negotiate cfg clientHello = some n) : s.Derives cfg clientHello n := by
  simp only [negotiate, Option.bind_eq_bind, Option.bind_eq_some_iff, toOption_eq_some] at h
  obtain ⟨hellos, hhellos, th, hth, keys, hkeys, ⟨signedHash, finished⟩, hsigns, thFin, hthFin,
    clientFinished, hclient, master, hmaster, ⟨clientSecret, serverSecret⟩, hsecrets, clientApp, hclientApp,
    serverApp, hserverApp, hn⟩ := h
  cases hn
  exact ⟨hhellos, ⟨th, hth, hkeys⟩, Credentials.authenticate_eq_some hsigns, thFin, master, clientSecret,
    serverSecret, hthFin, hclient, hmaster, hsecrets, hclientApp, hserverApp⟩

def flightOf (s : Server) (n : Negotiated) : Flight hsFinished := s.flight n.signedHash n.finished

end Server

def Flight.Fragment.encode {finishedType : UInt8} {fl : Flight finishedType} (f : fl.Fragment) : Bytes :=
  let msg := fl.message f.index
  (HandshakeHeader.fields ⟨msg.msgType, msg.body.length, fl.base + f.index, f.start,
    f.stop - f.start⟩).flatten ++ f.data

/-- An epoch-2 record with fragments of the flight, or of a content type that the handshake does not
look at. -/
structure FragmentRecord (a : AeadBackend) (m : Masker) (k : EpochKeys) (cid : Option Bytes)
    (fl : Flight hsFinished) extends FlightRecord a m k cid where
  fragments : List fl.Fragment
  carries : contentType = ctHandshake → content = fragments.flatMap Flight.Fragment.encode
  silent : contentType ≠ ctHandshake → fragments = []

/-- What a datagram brings behind its plaintext records: records of the server, and then bytes that
do not open, in whatever order records were lost, sent again and mixed with those of others. -/
structure Burst (a : AeadBackend) (m : Masker) (k : EpochKeys) (cid : Option Bytes)
    (fl : Flight hsFinished) where
  records : List (FragmentRecord a m k cid fl)
  junk : Bytes
  dead : ∀ hint, Epoch2.nextRecord a m k (cidLength cid) hint junk = none

namespace Burst
variable {a : AeadBackend} {m : Masker} {k : EpochKeys} {cid : Option Bytes} {fl : Flight hsFinished}

def bytes (b : Burst a m k cid fl) : Bytes :=
  FlightRecord.wires (b.records.map FragmentRecord.toFlightRecord) ++ b.junk

end Burst

/-- A datagram while the client waits for the flight: with a burst, or of a kind that is skipped. -/
structure Arrival (a : AeadBackend) (m : Masker) (k : EpochKeys) (cid : Option Bytes)
    (fl : Flight hsFinished) extends Burst a m k cid fl where
  datagram : Datagram
  part : epoch2Part datagram.val = some toBurst.bytes ∨ epoch2Part datagram.val = none ∧ records = []

end KrabiTls.Dtls
