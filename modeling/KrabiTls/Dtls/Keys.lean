import KrabiTls.Dtls.Record
import KrabiTls.Hkdf

/-! The DTLS 1.3 key schedule: the TLS one under the label prefix `dtls13`. -/
namespace KrabiTls
open Lib

namespace HkdfSha256
variable (h : HkdfSha256)

def dtlsDeriveSecret (secret : Secret) (label : String) (transcriptHash : TranscriptDigest) :
    Except HkdfLabelError Secret :=
  h.dtlsExpandLabel secret (ascii label) transcriptHash.val 32

def dtlsHandshakeSecret (dhe : Bytes) : Except HkdfLabelError Secret := do
  let salt ← h.dtlsDeriveSecret (← h.earlySecret) "derived" emptyTranscriptHash
  (h.extract salt.val dhe).mapError .backend

def dtlsHandshakeTrafficSecrets (hs : Secret) (transcriptHashChSh : TranscriptDigest) :
    Except HkdfLabelError (Secret × Secret) := do
  let client ← h.dtlsDeriveSecret hs "c hs traffic" transcriptHashChSh
  let server ← h.dtlsDeriveSecret hs "s hs traffic" transcriptHashChSh
  pure (client, server)

def dtlsTrafficKeys (n : Nat) (trafficSecret : Secret) :
    Except HkdfLabelError (Block n × AeadIv) := do
  let key ← h.dtlsExpandLabel trafficSecret (ascii "key") [] n
  let iv ← h.dtlsExpandLabel trafficSecret (ascii "iv") [] 12
  pure (key, iv)

def snKey (n : Nat) (trafficSecret : Secret) : Except HkdfLabelError (Block n) :=
  h.dtlsExpandLabel trafficSecret (ascii "sn") [] n

def dtlsFinishedMac (trafficSecret : Secret) (transcriptHash : TranscriptDigest) :
    Except HkdfLabelError (Block 32) := do
  let finishedKey ← h.dtlsExpandLabel trafficSecret (ascii "finished") [] 32
  (h.extract finishedKey.val transcriptHash.val).mapError .backend

def dtlsMasterSecret (handshakeSecret : Secret) : Except HkdfLabelError Secret := do
  let salt ← h.dtlsDeriveSecret handshakeSecret "derived" emptyTranscriptHash
  (h.extract salt.val (Block.zeros 32).val).mapError .backend

def dtlsApplicationTrafficSecrets (masterSecret : Secret)
    (transcriptHashThroughServerFinished : TranscriptDigest) :
    Except HkdfLabelError (Secret × Secret) := do
  let client ← h.dtlsDeriveSecret masterSecret "c ap traffic" transcriptHashThroughServerFinished
  let server ← h.dtlsDeriveSecret masterSecret "s ap traffic" transcriptHashThroughServerFinished
  pure (client, server)

end HkdfSha256

namespace Dtls

def EpochKeys.derive (h : HkdfSha256) (suite : CipherSuite) (trafficSecret : Secret) :
    Except HkdfLabelError EpochKeys := do
  let (key, iv) ← h.dtlsTrafficKeys suite.keyLen trafficSecret
  let snKey ← h.snKey suite.keyLen trafficSecret
  pure ⟨⟨suite, key, iv⟩, snKey⟩

inductive KeyScheduleError where
  | dhAllZero
  | hkdf
  deriving DecidableEq, Repr

/-- The epoch-2 keys, and the secrets kept for the `Finished` MACs and the later epochs. -/
structure HandshakeKeys where
  client : EpochKeys
  server : EpochKeys
  clientHsTs : Secret
  serverHsTs : Secret
  hsSecret : Secret

def deriveHandshakeKeys (h : HkdfSha256) (suite : CipherSuite) (sharedSecret : Block 32)
    (transcriptHashChSh : TranscriptDigest) : Except KeyScheduleError HandshakeKeys := do
  ensure (sharedSecret ≠ Block.zeros 32) .dhAllZero
  let hsSecret ← (h.dtlsHandshakeSecret sharedSecret.val).mapError fun _ => .hkdf
  let (clientHsTs, serverHsTs) ←
    (h.dtlsHandshakeTrafficSecrets hsSecret transcriptHashChSh).mapError fun _ => .hkdf
  let client ← (EpochKeys.derive h suite clientHsTs).mapError fun _ => .hkdf
  let server ← (EpochKeys.derive h suite serverHsTs).mapError fun _ => .hkdf
  pure { client, server, clientHsTs, serverHsTs, hsSecret }

end Dtls

end KrabiTls
