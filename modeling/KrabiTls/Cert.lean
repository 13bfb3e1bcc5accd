import KrabiTls.Traits

/-! Parsed certificates and the verifier backends that check signatures under their keys. -/
namespace KrabiTls
open Lib

inductive RsaCertSigAlg where
  | pkcs1v15Sha256
  | pssSha256
  deriving DecidableEq, Repr

inductive CertParseError where
  | malformed
  | unhandledCriticalExtension
  | wrongPubkeyLength
  | wrongSignatureLength
  | bitStringHasUnusedBits
  | trailingBytes
  | wrongAlgorithmOid
  | algorithmHasParameters
  | signatureAlgorithmMismatch
  | unsupportedCertVersion
  | badRsaPubkey
  | unsupportedRsaKeySize
  | wrongMlDsaPubkeyLength
  | wrongEcdsaPubkey
  deriving DecidableEq, Repr

/-- The subject key of a parsed certificate. -/
inductive CertKey where
  | ed25519 (pubkey : Block 32)
  | rsa (modulus : Bytes) (exponent : Nat)
  | mlDsa (pubkey : Bytes)
  | ecdsaP256 (pubkey : Bytes)
  | ecdsaP384 (pubkey : Bytes)
  deriving DecidableEq, Repr

/-- `CertView`: the variant is the constructor of `key`, the other fields are common to all. -/
structure CertView where
  tbs : Bytes
  signature : Bytes
  key : CertKey
  outerSigAlg : Option RsaCertSigAlg
  san : Option Bytes
  validityDer : Bytes
  deriving DecidableEq, Repr

/-- What makes a certificate eligible as an issuer. The default is that of a certificate without
the extensions. -/
structure CaConstraints where
  isCa : Bool := false
  pathLen : Option UInt32 := none
  keyCertSign : Option Bool := none
  deriving DecidableEq, Repr

structure CertParser where
  parse : Bytes → Except CertParseError CertView
  parseCaConstraints : Bytes → Except CertParseError CaConstraints
  /-- the whole `SubjectPublicKeyInfo` -/
  spkiDer : Bytes → Except CertParseError Bytes

/-- The key of every certificate that parses can be pinned. -/
def CertParser.SpkiTotal (c : CertParser) : Prop :=
  ∀ der view, c.parse der = .ok view → ∃ spki, c.spkiDer der = .ok spki

inductive SigAlgo where
  | ed25519
  | rsa
  | mlDsa
  | ecdsaP256
  | ecdsaP384
  deriving DecidableEq, Repr

/-- `VerifierBackend`: for each algorithm the prepared verifiers, their check of a signature and
the comparison of their key material. -/
structure VerifierBackend where
  Verifier : SigAlgo → Type
  verifyEd25519 : Verifier .ed25519 → (msg : Bytes) → (sig : Block 64) → Bool
  verifyRsa : Verifier .rsa → (msg : Bytes) → RsaCertSigAlg → (sig : Bytes) → Bool
  verifyMlDsa : Verifier .mlDsa → (msg sig : Bytes) → Bool
  verifyEcdsaP256 : Verifier .ecdsaP256 → (msg sig : Bytes) → Bool
  verifyEcdsaP384 : Verifier .ecdsaP384 → (msg sig : Bytes) → Bool
  matchesEd25519 : Verifier .ed25519 → Block 32 → Bool
  matchesRsa : Verifier .rsa → (modulus : Bytes) → (exponent : Nat) → Bool
  matchesMlDsa : Verifier .mlDsa → Bytes → Bool
  matchesEcdsaP256 : Verifier .ecdsaP256 → Block 65 → Bool
  matchesEcdsaP384 : Verifier .ecdsaP384 → Block 97 → Bool

/-- Verifiers that hold their key and accept the stand-in digest as Ed25519 signature. -/
def VerifierBackend.sample : VerifierBackend where
  Verifier _ := Bytes
  verifyEd25519 _ msg sig := sig.val = List.replicate 64 (digest msg)
  verifyRsa _ msg _ sig := sig = [digest msg]
  verifyMlDsa _ msg sig := sig = [digest msg]
  verifyEcdsaP256 _ msg sig := sig = [digest msg]
  verifyEcdsaP384 _ msg sig := sig = [digest msg]
  matchesEd25519 v pubkey := v = pubkey.val
  matchesRsa v modulus _ := v = modulus
  matchesMlDsa v pubkey := v = pubkey
  matchesEcdsaP256 v pubkey := v = pubkey.val
  matchesEcdsaP384 v pubkey := v = pubkey.val

inductive PreparedVerifier (p : VerifierBackend) where
  | ed25519 (v : p.Verifier .ed25519)
  | rsa (v : p.Verifier .rsa)
  | mlDsa (v : p.Verifier .mlDsa)
  | ecdsaP256 (v : p.Verifier .ecdsaP256)
  | ecdsaP384 (v : p.Verifier .ecdsaP384)

/-- Does the prepared verifier belong to the certificate's subject key? -/
def PreparedVerifier.matchesCert {p : VerifierBackend} (prepared : PreparedVerifier p)
    (view : CertView) : Bool :=
  match prepared, view.key with
  | .ed25519 v, .ed25519 pubkey => p.matchesEd25519 v pubkey
  | .rsa v, .rsa modulus exponent => p.matchesRsa v modulus exponent
  | .mlDsa v, .mlDsa pubkey => p.matchesMlDsa v pubkey
  | .ecdsaP256 v, .ecdsaP256 pubkey =>
      if h : pubkey.length = 65 then p.matchesEcdsaP256 v ⟨pubkey, h⟩ else false
  | .ecdsaP384 v, .ecdsaP384 pubkey =>
      if h : pubkey.length = 97 then p.matchesEcdsaP384 v ⟨pubkey, h⟩ else false
  | _, _ => false

end KrabiTls
