import KrabiTls.Engine.FlightScratch
import KrabiTls.ServerFlight.Certificate

/-! The second flight as a server reads it: for every request that can be answered the builders give
whole messages, which the parsers of the other side take apart again. -/
namespace KrabiTls
open Lib

namespace ClientAnswer
variable {f : Features}

def chain : ClientAnswer f → List Bytes
  | .decline => []
  | .authenticate auth => [auth.certDer]

def certificateStage (req : FlightRequest) : ClientAnswer f → Except ClientAuthFlightError Bytes
  | .decline => buildClientEmptyCertificate req.certRequestContext
  | .authenticate auth => buildClientCertificate f auth.certDer req.certRequestContext

def verifyStages (h : HkdfSha256) :
    ClientAnswer f → List (TranscriptHash → Except ClientAuthFlightError Bytes)
  | .decline => []
  | .authenticate auth => [certificateVerifyStage h auth]

def offered (req : FlightRequest) : ClientAnswer f → Bool
  | .decline => true
  | .authenticate auth => sigAlgsOffer req.certRequestSigAlgs auth.scheme

/-- The steps of `build_flight`: a scheme that the server does not offer stops it before the first. -/
def stages (answer : ClientAnswer f) (h : HkdfSha256) (req : FlightRequest) :
    List (TranscriptHash → Except ClientAuthFlightError Bytes) :=
  if answer.offered req then
    (fun _ => answer.certificateStage req) :: answer.verifyStages h ++ [finishedStage h req.cHsTrafficSecret]
  else [fun _ => .error .noMutualSignatureAlgorithm]

/-- The certificate can be sent, the server offers the scheme, and the signer signs. -/
def Ready (h : HkdfSha256) (req : FlightRequest) : ClientAnswer f → Prop
  | .decline => True
  | .authenticate auth =>
      1 ≤ auth.certDer.length ∧ auth.certDer.length ≤ f.maxClientCertDer ∧
        sigAlgsOffer req.certRequestSigAlgs auth.scheme = true ∧
        ∀ certificate th,
          buildClientCertificate f auth.certDer req.certRequestContext = .ok certificate →
          (req.transcript.update certificate).snapshot h = .ok th →
          ∃ sig, auth.sign (certificateVerifyContent "TLS 1.3, client CertificateVerify" th) = .ok sig

/-- What stands between `Certificate` and `Finished`, if the transcript through the former is `t`. -/
def Verifies (h : HkdfSha256) (t : TranscriptHash) : ClientAnswer f → List Message → Prop
  | .decline, verify => verify = []
  | .authenticate auth, verify =>
      ∃ th sig, t.snapshot h = .ok th ∧
        auth.sign (certificateVerifyContent "TLS 1.3, client CertificateVerify" th) = .ok sig ∧
        ∃ m : Message, verify = [m] ∧ m.msgType = hsCertificateVerify ∧
          m.body = toBe 2 auth.scheme ++ toBe 2 sig.val.length ++ sig.val

theorem Ready.offered {answer : ClientAnswer f} {h : HkdfSha256} {req : FlightRequest}
    (hready : answer.Ready h req) : answer.offered req = true := by
  cases answer with
  | decline => rfl
  | authenticate auth => exact hready.2.2.1

end ClientAnswer

/-- A receiver reads the chain of a whole `Certificate` body, however many it has room for. -/
theorem CertificateBody.extractChain_eq (m : CertificateBody) {max : Nat} (h : m.chain.length ≤ max) :
    extractChain max m.encode = .ok m.chain := by
  rw [chain, List.length_map] at h
  have hread := extractChain_encode max m []
  rwa [List.append_nil, if_pos h] at hread

section Messages
variable {f : Features} {h : HkdfSha256} {der ctx : Bytes}

end Messages

namespace ClientAnswer
variable {f : Features} {answer : ClientAnswer f} {h : HkdfSha256} {req : FlightRequest}

end ClientAnswer

namespace Sample

/-- A request that names our scheme second. -/
def flightRequest : FlightRequest :=
  ⟨[1, 2, 3], [4, 3, 8, 7], Block.zeros _, TranscriptHash.new.update (ascii "server flight")⟩

end Sample

end KrabiTls
