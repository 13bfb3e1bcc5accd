import KrabiTls.Cert
import KrabiTls.Features
import KrabiTls.Lib.Except

/-! What the two certificate parsers have in common: the parts of a decoded certificate, and the
view that is made of them once the key's algorithm is known. -/
namespace KrabiTls
open Lib

/-! Object identifiers, as encoded arcs. -/

def ed25519Oid : Bytes := [0x2B, 0x65, 0x70]
def mlDsa44Oid : Bytes := [0x60, 0x86, 0x48, 0x01, 0x65, 0x03, 0x04, 0x03, 0x11]
def mlDsa65Oid : Bytes := [0x60, 0x86, 0x48, 0x01, 0x65, 0x03, 0x04, 0x03, 0x12]
def mlDsa87Oid : Bytes := [0x60, 0x86, 0x48, 0x01, 0x65, 0x03, 0x04, 0x03, 0x13]
def ecPublicKeyOid : Bytes := [0x2A, 0x86, 0x48, 0xCE, 0x3D, 0x02, 0x01]
def secp256r1Oid : Bytes := [0x2A, 0x86, 0x48, 0xCE, 0x3D, 0x03, 0x01, 0x07]
def secp384r1Oid : Bytes := [0x2B, 0x81, 0x04, 0x00, 0x22]
def sanOid : Bytes := [0x55, 0x1D, 0x11]
def basicConstraintsOid : Bytes := [0x55, 0x1D, 0x13]
def keyUsageOid : Bytes := [0x55, 0x1D, 0x0F]
def rsaEncryptionOid : Bytes := [0x2A, 0x86, 0x48, 0x86, 0xF7, 0x0D, 0x01, 0x01, 0x01]
def sha256WithRsaOid : Bytes := [0x2A, 0x86, 0x48, 0x86, 0xF7, 0x0D, 0x01, 0x01, 0x0B]
def rsassaPssOid : Bytes := [0x2A, 0x86, 0x48, 0x86, 0xF7, 0x0D, 0x01, 0x01, 0x0A]
def x509V3 : UInt8 := 2

inductive SpkiKind where
  | ed25519
  | rsa
  /-- with the length the parameter set requires of the key -/
  | mlDsa (pkLen : Nat)
  | ecdsaP256
  | ecdsaP384
  deriving DecidableEq, Repr

def mlDsa44PkBytes : Nat := 1312
def mlDsa65PkBytes : Nat := 1952
def mlDsa87PkBytes : Nat := 2592
def p256Sec1Len : Nat := 65
def p384Sec1Len : Nat := 97

/-- The fields of a certificate as they are cut out of the input. -/
structure CertParts where
  tbs : Bytes
  outerSigAlg : Bytes
  signature : Bytes
  validityDer : Bytes
  spkiAlg : Bytes
  pk : Bytes
  san : Option Bytes

/-- Reject anything but a SEC1 uncompressed point of `expectLen` bytes. -/
def ecSec1Point (pk : Bytes) (expectLen : Nat) : Except CertParseError Unit :=
  if pk.length ≠ expectLen ∨ pk.head? ≠ some 0x04 then .error .wrongEcdsaPubkey else .ok ()

def Features.rsaModulusOk (f : Features) (len : Nat) : Bool :=
  (f.rsa1024 && len == 128) || len == 256 || (f.rsa3072 && len == 384) || (f.rsa4096 && len == 512)

/-- The functions in which the parsers differ. -/
structure SpkiParser where
  classifySpkiAlgorithm : Bytes → Except CertParseError SpkiKind
  classifyRsaOuterSigAlg : Bytes → Except CertParseError (Option RsaCertSigAlg)
  parseRsaPubkey : Bytes → Except CertParseError (Bytes × Nat)

/-- The last part of `parse`: the key by its algorithm. -/
def CertParts.view (f : Features) (p : SpkiParser) (parts : CertParts) :
    Except CertParseError CertView := do
  let certView (key : CertKey) (outerSigAlg : Option RsaCertSigAlg) : CertView :=
    ⟨parts.tbs, parts.signature, key, outerSigAlg, parts.san, parts.validityDer⟩
  let ecSigAlg := if f.rsa then p.classifyRsaOuterSigAlg parts.outerSigAlg else .ok none
  match ← p.classifySpkiAlgorithm parts.spkiAlg with
  | .ed25519 =>
      if h : parts.pk.length = 32 then do
        ensure (parts.signature.length = 64) .wrongSignatureLength
        pure (certView (.ed25519 ⟨parts.pk, h⟩) none)
      else .error .wrongPubkeyLength
  | .rsa => do
      let (modulus, exponent) ← p.parseRsaPubkey parts.pk
      let outerSigAlg ← p.classifyRsaOuterSigAlg parts.outerSigAlg
      pure (certView (.rsa modulus exponent) outerSigAlg)
  | .mlDsa pkLen => do
      ensure (parts.pk.length = pkLen) .wrongMlDsaPubkeyLength
      pure (certView (.mlDsa parts.pk) none)
  | .ecdsaP256 => do
      ecSec1Point parts.pk p256Sec1Len
      pure (certView (.ecdsaP256 parts.pk) (← ecSigAlg))
  | .ecdsaP384 => do
      ecSec1Point parts.pk p384Sec1Len
      pure (certView (.ecdsaP384 parts.pk) (← ecSigAlg))

/-- The key that is read from the content of a BIT STRING as one of the given kind. -/
inductive SpkiKind.KeyOf (p : SpkiParser) (pk : Bytes) : SpkiKind → CertKey → Prop
  | ed25519 (h : pk.length = 32) : KeyOf p pk .ed25519 (.ed25519 ⟨pk, h⟩)
  | rsa {modulus : Bytes} {exponent : Nat} (h : p.parseRsaPubkey pk = .ok (modulus, exponent)) :
      KeyOf p pk .rsa (.rsa modulus exponent)
  | mlDsa : KeyOf p pk (.mlDsa pk.length) (.mlDsa pk)
  | ecdsaP256 (h : ecSec1Point pk p256Sec1Len = .ok ()) : KeyOf p pk .ecdsaP256 (.ecdsaP256 pk)
  | ecdsaP384 (h : ecSec1Point pk p384Sec1Len = .ok ()) : KeyOf p pk .ecdsaP384 (.ecdsaP384 pk)

theorem CertParts.view_eq_ok {f : Features} {p : SpkiParser} {parts : CertParts} {view : CertView}
    (h : parts.view f p = .ok view) :
    ∃ kind key outerSigAlg, p.classifySpkiAlgorithm parts.spkiAlg = .ok kind ∧
      kind.KeyOf p parts.pk key ∧
      view = ⟨parts.tbs, parts.signature, key, outerSigAlg, parts.san, parts.validityDer⟩ := by
  obtain ⟨kind, hkind, h⟩ := bind_eq_ok.mp h
  cases kind with
  | ed25519 =>
    dsimp only at h
    split at h
    · rename_i hlen
      obtain ⟨-, -, hout⟩ := bind_eq_ok.mp h
      cases hout
      exact ⟨_, _, _, hkind, .ed25519 hlen, rfl⟩
    · cases h
  | rsa =>
    simp only [bind_eq_ok] at h
    obtain ⟨⟨modulus, exponent⟩, hrsa, outer, -, hout⟩ := h
    cases hout
    exact ⟨_, _, _, hkind, .rsa hrsa, rfl⟩
  | mlDsa pkLen =>
    simp only [bind_eq_ok, ensure_eq_ok] at h
    obtain ⟨-, rfl, hout⟩ := h
    cases hout
    exact ⟨_, _, _, hkind, .mlDsa, rfl⟩
  | ecdsaP256 =>
    simp only [bind_eq_ok] at h
    obtain ⟨_, hpoint, outer, -, hout⟩ := h
    cases hout
    exact ⟨_, _, _, hkind, .ecdsaP256 hpoint, rfl⟩
  | ecdsaP384 =>
    simp only [bind_eq_ok] at h
    obtain ⟨_, hpoint, outer, -, hout⟩ := h
    cases hout
    exact ⟨_, _, _, hkind, .ecdsaP384 hpoint, rfl⟩

/-- The classification by the algorithm's OID, which `rest` follows. The readers of the parameters
differ: `nullParams` requires an explicit NULL, `curve` is the OID of a named curve. -/
def SpkiKind.ofOid (f : Features) (oid rest : Bytes) (nullParams : Except CertParseError Unit)
    (curve : Except CertParseError Bytes) : Except CertParseError SpkiKind :=
  if oid = ed25519Oid then do
    ensure (rest = []) .algorithmHasParameters
    pure .ed25519
  else if f.rsa ∧ oid = rsaEncryptionOid then do
    nullParams
    pure .rsa
  else if f.mldsa ∧ (oid = mlDsa44Oid ∨ oid = mlDsa65Oid ∨ oid = mlDsa87Oid) then do
    ensure (rest = []) .algorithmHasParameters
    pure (.mlDsa (if oid = mlDsa44Oid then mlDsa44PkBytes
      else if oid = mlDsa65Oid then mlDsa65PkBytes else mlDsa87PkBytes))
  else if f.ecdsa ∧ oid = ecPublicKeyOid then do
    let curve ← curve
    if curve = secp256r1Oid then pure .ecdsaP256
    else if curve = secp384r1Oid then pure .ecdsaP384
    else .error .wrongAlgorithmOid
  else .error .wrongAlgorithmOid

/-- The leading zero of a positive DER integer is not a part of its magnitude. -/
def stripSignZero : Bytes → Bytes
  | 0x00 :: x :: rest => if x &&& 0x80 ≠ 0 then x :: rest else 0x00 :: x :: rest
  | b => b

/-- The checks of `parse_rsa_pubkey` on the modulus, as a DER integer. -/
def rsaModulus (f : Features) (raw : Bytes) : Except CertParseError Bytes :=
  let modulus := stripSignZero raw
  if modulus = [] ∨ modulus.headD 0 = 0 then .error .badRsaPubkey
  else if ¬ f.rsaModulusOk modulus.length then .error .unsupportedRsaKeySize
  else .ok modulus

/-- The checks on the exponent, as a DER integer. -/
def rsaExponent (raw : Bytes) : Except CertParseError Nat :=
  let bytes := stripSignZero raw
  if bytes = [] ∨ bytes.length > 4 ∨ bytes.headD 0 = 0 then .error .badRsaPubkey
  else
    let exponent := ofBe bytes
    if exponent < 3 ∨ exponent % 2 = 0 then .error .badRsaPubkey else .ok exponent

def derTrue (value : Bytes) : Bool := value.headD 0 ≠ 0

/-- `keyCertSign` is bit 5 of the key usage, behind the count of unused bits. -/
def keyCertSignBit (bitString : Bytes) : Bool := bitString.getD 1 0 &&& 0x04 ≠ 0

/-- A DER integer that must not be negative, as `u32`. -/
def intToU32 (bytes : Bytes) : Except CertParseError UInt32 :=
  if bytes.headD 0 &&& 0x80 ≠ 0 then .error .malformed
  else
    let sig := if bytes.head? = some 0 then bytes.drop 1 else bytes
    if sig.length > 4 then .error .malformed else .ok (UInt32.ofNat (ofBe sig))

/-- What one extension adds to the CA constraints; the readers of the two recognized ones differ.
An unrecognized critical extension is an error. -/
def CaConstraints.extend (out : CaConstraints) (oid value : Bytes) (critical : Bool)
    (basicConstraints : CaConstraints → Bytes → Except CertParseError CaConstraints)
    (keyUsage : Bytes → Except CertParseError Bool) : Except CertParseError CaConstraints :=
  if oid = basicConstraintsOid then basicConstraints out value
  else if oid = keyUsageOid then do
    let certSign ← keyUsage value
    pure { out with keyCertSign := some certSign }
  else if critical then .error .unhandledCriticalExtension
  else .ok out

end KrabiTls
