import KrabiTls.Aead
import KrabiTls.Features
import KrabiTls.ServerFlight

/-! The client's second flight: an optional `Certificate` and `CertificateVerify`, and `Finished`. -/
namespace KrabiTls
open Lib

inductive ClientFinishedError where
  | encrypt (e : EncryptError)
  | hkdf (e : HkdfLabelError)
  deriving DecidableEq, Repr

inductive ClientAuthError where
  | clientAuthError
  deriving DecidableEq, Repr

inductive ClientAuthFlightError where
  | bufferTooSmall
  | sign (e : ClientAuthError)
  | finished (e : ClientFinishedError)
  | transcript (e : TranscriptError)
  | certificateRequested
  | noMutualSignatureAlgorithm
  | emptyCertificate
  | certificateTooLong
  | contextTooLong
  deriving DecidableEq, Repr

def buildFinishedPlaintext (h : HkdfSha256) (cHsTrafficSecret : Secret)
    (transcriptHash : TranscriptDigest) : Except ClientFinishedError Bytes := do
  let verifyData ← (h.finishedMac cHsTrafficSecret transcriptHash).mapError .hkdf
  pure ([hsFinished, 0x00, 0x00, 0x20] ++ verifyData.val)

/-- The client `Finished` message and the keys it goes out under. -/
def clientFinishedParts (h : HkdfSha256) (suite : CipherSuite) (cHsTrafficSecret : Secret)
    (transcriptHash : TranscriptDigest) : Except ClientFinishedError (Bytes × RecordKeys) := do
  let finishedMsg ← buildFinishedPlaintext h cHsTrafficSecret transcriptHash
  let keys ← (RecordKeys.derive h suite cHsTrafficSecret).mapError .hkdf
  pure (finishedMsg, keys)

def clientFinishedLen : Nat := 58

def Features.maxClientCertDer (f : Features) : Nat :=
  if f.rsa4096 then 1536 else if f.rsa3072 then 1280 else 1024

def Features.maxClientSigLen (f : Features) : Nat :=
  if f.rsa4096 then 512 else if f.rsa3072 then 384 else if f.rsa then 256 else 112

theorem Features.le_maxClientSigLen (f : Features) : 112 ≤ f.maxClientSigLen := by
  unfold maxClientSigLen
  grind

/-- A caller-supplied signer. A connection signs at most once, so the draws from its RNG are part
of the function; the bound is the capacity of `ClientSignature`. -/
structure ClientAuth (f : Features) where
  certDer : Bytes
  scheme : Nat
  sign : Bytes → Except ClientAuthError { sig : Bytes // sig.length ≤ f.maxClientSigLen }

/-- A handshake message: type, 24-bit length, body. -/
def hsMessage (msgType : UInt8) (body : Bytes) : Bytes :=
  msgType :: toBe 3 body.length ++ body

def buildClientCertificate (f : Features) (certDer certRequestContext : Bytes) :
    Except ClientAuthFlightError Bytes :=
  if certDer = [] then .error .emptyCertificate
  else if certDer.length > f.maxClientCertDer then .error .certificateTooLong
  else if certRequestContext.length > 255 then .error .contextTooLong
  else .ok (hsMessage hsCertificate (toBe 1 certRequestContext.length ++ certRequestContext ++
    toBe 3 (3 + certDer.length + 2) ++ toBe 3 certDer.length ++ certDer ++ [0x00, 0x00]))

def buildClientEmptyCertificate (certRequestContext : Bytes) : Except ClientAuthFlightError Bytes :=
  if certRequestContext.length > 255 then .error .contextTooLong
  else .ok (hsMessage hsCertificate (toBe 1 certRequestContext.length ++ certRequestContext ++
    [0, 0, 0]))

def buildClientCertificateVerify {f : Features} (auth : ClientAuth f)
    (transcriptHash : TranscriptDigest) : Except ClientAuthFlightError Bytes := do
  let sig ← (auth.sign
    (certificateVerifyContent "TLS 1.3, client CertificateVerify" transcriptHash)).mapError .sign
  pure (hsMessage hsCertificateVerify (toBe 2 auth.scheme ++ toBe 2 sig.val.length ++ sig.val))

/-- The plaintext written to the front of the scratch buffer so far, and the transcript over it. -/
structure FlightWriter where
  transcript : TranscriptHash
  written : Bytes

namespace FlightWriter

/-- Write one message behind the others; the scratch holds `cap` bytes. -/
def push (w : FlightWriter) (cap : Nat) (msg : Bytes) : Except ClientAuthFlightError FlightWriter :=
  if w.written.length + msg.length ≤ cap then
    .ok ⟨w.transcript.update msg, w.written ++ msg⟩
  else .error .bufferTooSmall

/-- Build and write message after message. A failure leaves what was written before it. -/
def build (cap : Nat) : List (TranscriptHash → Except ClientAuthFlightError Bytes) → FlightWriter →
    Except ClientAuthFlightError Unit × FlightWriter
  | [], w => (.ok (), w)
  | stage :: rest, w =>
      match stage w.transcript >>= w.push cap with
      | .error e => (.error e, w)
      | .ok w' => build cap rest w'

end FlightWriter

/-- `append_finished`: the MAC covers the transcript so far. -/
def finishedStage (h : HkdfSha256) (cHsTrafficSecret : Secret) (t : TranscriptHash) :
    Except ClientAuthFlightError Bytes := do
  let th ← (t.snapshot h).mapError .transcript
  (buildFinishedPlaintext h cHsTrafficSecret th).mapError .finished

def certificateVerifyStage (h : HkdfSha256) {f : Features} (auth : ClientAuth f)
    (t : TranscriptHash) : Except ClientAuthFlightError Bytes := do
  let th ← (t.snapshot h).mapError .transcript
  buildClientCertificateVerify auth th

/-- The arguments of `build_flight` that come from the connection. -/
structure FlightRequest where
  certRequestContext : Bytes
  certRequestSigAlgs : Bytes
  cHsTrafficSecret : Secret
  transcript : TranscriptHash

/-- A compile-time client-authentication policy. `buildFlight` returns the flight plaintext and the
scratch buffer after the call. -/
structure ClientAuthPolicy where
  acceptCertRequest : Bool
  maxFlightLen : Nat
  buildFlight : HkdfSha256 → FlightRequest → {n : Nat} → (out : Block n) →
    Except ClientAuthFlightError Bytes × Block n

/-- Build the stages' messages at the front of `out`. -/
def FlightRequest.buildStages (req : FlightRequest)
    (stages : List (TranscriptHash → Except ClientAuthFlightError Bytes)) {n : Nat}
    (out : Block n) : Except ClientAuthFlightError Bytes × Block n :=
  let (result, w) := FlightWriter.build n stages ⟨req.transcript, []⟩
  (result.map fun _ => w.written, out.overwrite 0 w.written)

/-- Is the scheme among the concatenated 16-bit code points? -/
def sigAlgsOffer : (list : Bytes) → (scheme : Nat) → Bool
  | [], _ => false
  | [_], _ => false
  | a :: b :: rest, scheme =>
      (ofBe [a, b] = scheme ∧ rest.length % 2 = 0) ∨ sigAlgsOffer rest scheme

def noClientAuth : ClientAuthPolicy where
  acceptCertRequest := false
  maxFlightLen := 0
  buildFlight _ _ _ out := (.error .certificateRequested, out)

def declineStages (h : HkdfSha256) (req : FlightRequest) :
    List (TranscriptHash → Except ClientAuthFlightError Bytes) :=
  [fun _ => buildClientEmptyCertificate req.certRequestContext, finishedStage h req.cHsTrafficSecret]

def withClientAuthStages (h : HkdfSha256) (req : FlightRequest) {f : Features}
    (auth : ClientAuth f) : List (TranscriptHash → Except ClientAuthFlightError Bytes) :=
  [fun _ => buildClientCertificate f auth.certDer req.certRequestContext,
    certificateVerifyStage h auth, finishedStage h req.cHsTrafficSecret]

def declineClientAuth : ClientAuthPolicy where
  acceptCertRequest := true
  maxFlightLen := 4 + (1 + 255 + 3) + 36
  buildFlight h req _ out := req.buildStages (declineStages h req) out

def withClientAuth {f : Features} (auth : ClientAuth f) : ClientAuthPolicy where
  acceptCertRequest := true
  maxFlightLen := (4 + (1 + 255 + 3 + 3 + 2) + f.maxClientCertDer) + (4 + 4 + f.maxClientSigLen) + 36
  buildFlight h req _ out :=
    if ¬ sigAlgsOffer req.certRequestSigAlgs auth.scheme then
      (.error .noMutualSignatureAlgorithm, out)
    else req.buildStages (withClientAuthStages h req auth) out

end KrabiTls
