import KrabiTls.Cert.KeySizes
import KrabiTls.Trust.Strategy

/-! Links between certificates of different key families: which children of RSA and ECDSA issuers are
parsed and verified. -/
namespace KrabiTls
open Lib

section Parser
variable (d : DerCrate) (certDer : Bool) (f : Features)

/-- `parse` of the enabled parser, up to the classification of the key. -/
def enabledCertParts : Bytes → Except CertParseError CertParts :=
  if certDer then DerCert.parts d else TlvCert.parts f

def enabledSpkiParser : SpkiParser :=
  if certDer then DerCert.spkiParser d f else TlvCert.spkiParser f

theorem enabledCertParser_eq (der : Bytes) : enabledCertParser d certDer f der =
    (enabledCertParts d certDer f der >>= fun parts => parts.view f (enabledSpkiParser d certDer f)) := by
  cases certDer <;> rfl

end Parser

/-- The content of the BIT STRING is a key of this kind. -/
def SpkiKind.Holds (s : SpkiParser) (pk : Bytes) : SpkiKind → Prop
  | .ed25519 => pk.length = 32
  | .rsa => ∃ modulus exponent, s.parseRsaPubkey pk = .ok (modulus, exponent)
  | .mlDsa pkLen => pk.length = pkLen
  | .ecdsaP256 => pk.length = p256Sec1Len ∧ pk.head? = some 0x04
  | .ecdsaP384 => pk.length = p384Sec1Len ∧ pk.head? = some 0x04

/-- The signature over the TBSCertificate verifies under the key of an issuer, with the padding that
the signature algorithm names or with the hash that goes with the curve. -/
inductive SignedBy (p : SigVerifierProvider) (s : SpkiParser) (parts : CertParts) : CertKey → Prop
  | rsa {modulus : Bytes} {exponent : Nat} {alg : RsaCertSigAlg} {v : p.Verifier .rsa}
      (halg : s.classifyRsaOuterSigAlg parts.outerSigAlg = .ok (some alg))
      (hprepare : p.prepareRsa modulus exponent = some v)
      (hverify : p.verifyRsa v parts.tbs alg parts.signature = true) :
      SignedBy p s parts (.rsa modulus exponent)
  | ecdsaP256 {pubkey : Block 65} {v : p.Verifier .ecdsaP256}
      (halg : s.classifyRsaOuterSigAlg parts.outerSigAlg = .ok none)
      (hprepare : p.prepareEcdsaP256 pubkey = some v)
      (hverify : p.verifyEcdsaP256 v parts.tbs parts.signature = true) :
      SignedBy p s parts (.ecdsaP256 pubkey.val)
  | ecdsaP384 {pubkey : Block 97} {v : p.Verifier .ecdsaP384}
      (halg : s.classifyRsaOuterSigAlg parts.outerSigAlg = .ok none)
      (hprepare : p.prepareEcdsaP384 pubkey = some v)
      (hverify : p.verifyEcdsaP384 v parts.tbs parts.signature = true) :
      SignedBy p s parts (.ecdsaP384 pubkey.val)

/-- A certificate with a key that the build supports, and an issuer that has signed it. -/
structure Issued (d : DerCrate) (certDer : Bool) (f : Features) (p : SigVerifierProvider) (der : Bytes)
    (parts : CertParts) (kind : SpkiKind) (issuer : CertKey) : Prop where
  read : enabledCertParts d certDer f der = .ok parts
  classified : (enabledSpkiParser d certDer f).classifySpkiAlgorithm parts.spkiAlg = .ok kind
  holds : kind.Holds (enabledSpkiParser d certDer f) parts.pk
  signed : SignedBy p (enabledSpkiParser d certDer f) parts issuer

def CertKey.isRsa : CertKey → Bool
  | .rsa _ _ => true
  | _ => false

/-- What the code asks of the subject's key beside the signature: that of an Ed25519 subject must
have the length of an Ed25519 signature, and an RSA issuer's padding is known for RSA and ECDSA
subjects only. -/
def LinkKept (kind : SpkiKind) (signature : Bytes) (issuer : CertKey) : Prop :=
  match kind with
  | .ed25519 => signature.length = 64 ∧ issuer.isRsa = false
  | .mlDsa _ => issuer.isRsa = false
  | .rsa | .ecdsaP256 | .ecdsaP384 => True

section Link
variable {d : DerCrate} {certDer : Bool} {f : Features} {p : SigVerifierProvider} {der : Bytes}
  {parts : CertParts} {kind : SpkiKind} {issuer : CertKey}

theorem SignedBy.outerSigAlg {s : SpkiParser} (h : SignedBy p s parts issuer) :
    ∃ alg, s.classifyRsaOuterSigAlg parts.outerSigAlg = .ok alg := by
  cases h with
  | rsa halg _ _ | ecdsaP256 halg _ _ | ecdsaP384 halg _ _ => exact ⟨_, halg⟩

/-- The padding in the view of a subject of this kind. -/
def SpkiKind.linkSigAlg (alg : Option RsaCertSigAlg) : SpkiKind → Except LinkErr RsaCertSigAlg
  | .ed25519 | .mlDsa _ => .error .unknownLinkSigAlg
  | .rsa | .ecdsaP256 | .ecdsaP384 => okOr .unknownLinkSigAlg alg

theorem ecSec1Point_ok {pk : Bytes} {len : Nat} (h : pk.length = len ∧ pk.head? = some 0x04) :
    ecSec1Point pk len = .ok () :=
  if_neg (by simp [h.1, h.2])

section View
variable {s : SpkiParser} {alg : Option RsaCertSigAlg}

theorem CertParts.view_ok (hrsa : f.rsa = true)
    (hkind : s.classifySpkiAlgorithm parts.spkiAlg = .ok kind) (hholds : kind.Holds s parts.pk)
    (halg : s.classifyRsaOuterSigAlg parts.outerSigAlg = .ok alg)
    (hlen : kind = .ed25519 → parts.signature.length = 64) :
    ∃ view, parts.view f s = .ok view ∧ view.tbs = parts.tbs ∧ view.signature = parts.signature ∧
      view.linkSigAlg = kind.linkSigAlg alg := by
  unfold CertParts.view
  simp only [hkind, hrsa, halg, if_true, bind, Except.bind]
  cases kind with
  | ed25519 =>
    have hpk : parts.pk.length = 32 := hholds
    dsimp only
    rw [dif_pos hpk, ensure, if_pos (hlen rfl)]
    exact ⟨_, rfl, rfl, rfl, rfl⟩
  | rsa =>
    obtain ⟨modulus, exponent, hkey⟩ := hholds
    rw [hkey]
    exact ⟨_, rfl, rfl, rfl, rfl⟩
  | mlDsa pkLen =>
    have hpk : parts.pk.length = pkLen := hholds
    dsimp only
    rw [ensure, if_pos hpk]
    exact ⟨_, rfl, rfl, rfl, rfl⟩
  | ecdsaP256 | ecdsaP384 =>
    rw [ecSec1Point_ok hholds]
    exact ⟨_, rfl, rfl, rfl, rfl⟩

/-- An Ed25519 subject must have a signature of 64 bytes, whoever signed it. -/
theorem CertParts.view_wrongSignatureLength
    (hkind : s.classifySpkiAlgorithm parts.spkiAlg = .ok .ed25519) (hholds : parts.pk.length = 32)
    (hlen : parts.signature.length ≠ 64) : parts.view f s = .error .wrongSignatureLength := by
  unfold CertParts.view
  simp only [hkind, bind, Except.bind]
  rw [dif_pos hholds, ensure, if_neg hlen]

end View

/-- For the subjects whose views have no padding, an RSA issuer cannot be verified. -/
theorem SignedBy.verifyLink_iff {s : SpkiParser} (h : SignedBy p s parts issuer)
    {alg : Option RsaCertSigAlg} (halg : s.classifyRsaOuterSigAlg parts.outerSigAlg = .ok alg)
    {child parent : CertView} (hparent : parent.key = issuer) (htbs : child.tbs = parts.tbs)
    (hsig : child.signature = parts.signature) (hpadding : child.linkSigAlg = kind.linkSigAlg alg) :
    verifyLink p child parent = .ok () ↔
      (issuer.isRsa = true → kind = .rsa ∨ kind = .ecdsaP256 ∨ kind = .ecdsaP384) := by
  unfold KrabiTls.verifyLink
  rw [hparent, htbs, hsig, hpadding]
  cases h with
  | rsa halg' hprepare hverify =>
    obtain rfl := Except.ok.inj (halg.symm.trans halg')
    simp only [hprepare, okOr, linkVerdict, bind, Except.bind, CertKey.isRsa]
    cases kind <;> simp [SpkiKind.linkSigAlg, okOr, hverify]
  | @ecdsaP256 pubkey v halg' hprepare hverify | @ecdsaP384 pubkey v halg' hprepare hverify =>
    simp [pubkey.property, hprepare, hverify, okOr, linkVerdict, CertKey.isRsa, bind, Except.bind]

end Link

namespace Sample

variable {kind : SpkiKind}

def linkFeatures : Features :=
  { Features.standard with
    rsa := true, mldsa := true, ecdsa := true
    rsaPssOnly_rsa := rsaFeatures.rsaPssOnly_rsa, rsa1024_rsa := rsaFeatures.rsa1024_rsa
    rsa3072_rsa := rsaFeatures.rsa3072_rsa, rsa4096_rsa := by simp }

/-- Verifiers that take as many copies of the stand-in digest as the signatures of RSA-2048 and of
P-256 have bytes. -/
def linkProvider : SigVerifierProvider :=
  { SigVerifierProvider.keyed with
    verifyRsa := fun _ msg _ sig => sig = List.replicate 256 (digest msg)
    verifyEcdsaP256 := fun _ msg sig => sig = List.replicate 71 (digest msg) }

def issuedCert (spkiAlg pk sigAlg : Bytes) (sigLen : Nat) : Bytes :=
  issued spkiAlg pk sigAlg [] fun tbs => List.replicate sigLen (digest tbs)

def ecdsaWithSha256 : Bytes :=
  derTlv tagSequence (derTlv tagOid [0x2A, 0x86, 0x48, 0xCE, 0x3D, 0x04, 0x03, 0x02])

def mlDsa44Alg : Bytes := derTlv tagSequence (derTlv tagOid mlDsa44Oid)
def p256Alg : Bytes := derTlv tagSequence (derTlv tagOid ecPublicKeyOid ++ derTlv tagOid secp256r1Oid)

def ed25519UnderRsa : Bytes := issuedCert ed25519Alg (List.replicate 32 5) sha256WithRsa 256
def ed25519UnderEcdsa : Bytes := issuedCert ed25519Alg (List.replicate 32 5) ecdsaWithSha256 71
def mlDsaUnderRsa : Bytes := issuedCert mlDsa44Alg (List.replicate 1312 5) sha256WithRsa 256
def ecdsaUnderRsa : Bytes := issuedCert p256Alg (0x04 :: List.replicate 64 5) sha256WithRsa 256

def issuerView (key : CertKey) : CertView := ⟨[], [], key, none, none, []⟩

def rsaIssuer : CertView := issuerView (.rsa (0xC1 :: List.replicate 255 1) 65537)
def p256Key : Block 65 := ⟨0x04 :: List.replicate 64 3, by simp⟩
def p256Issuer : CertView := issuerView (.ecdsaP256 p256Key.val)

/-- What an issuer of such a certificate has seen to, to be evaluated. -/
def issuedChecks (der : Bytes) (kind : SpkiKind) (alg : Option RsaCertSigAlg)
    (verify : Bytes → Bytes → Bool) : Bool :=
  (TlvCert.parts linkFeatures der).toOption.any fun parts =>
    (TlvCert.classifySpkiAlgorithm linkFeatures parts.spkiAlg).toOption = some kind ∧
    (TlvCert.classifyRsaOuterSigAlg linkFeatures parts.outerSigAlg).toOption = some alg ∧
    (kind = .ed25519 ∧ parts.pk.length = 32 ∨ kind = .mlDsa parts.pk.length ∨
      kind = .ecdsaP256 ∧ parts.pk.length = 65 ∧ parts.pk.head? = some 0x04) ∧
    verify parts.tbs parts.signature

theorem issued_of_checks {der : Bytes} {alg : Option RsaCertSigAlg}
    {verify : Bytes → Bytes → Bool} (h : issuedChecks der kind alg verify = true) {issuer : CertKey}
    (hsigned : ∀ parts, TlvCert.classifyRsaOuterSigAlg linkFeatures parts.outerSigAlg = .ok alg →
      verify parts.tbs parts.signature = true →
      SignedBy linkProvider (TlvCert.spkiParser linkFeatures) parts issuer) :
    ∃ parts, Issued .absent false linkFeatures linkProvider der parts kind issuer := by
  obtain ⟨parts, hparts, hchecks⟩ := (Option.any_eq_true _ _).mp h
  obtain ⟨hkind, halg, hholds, hverify⟩ := of_decide_eq_true hchecks
  refine ⟨parts, toOption_eq_some.mp hparts, toOption_eq_some.mp hkind, ?_,
    hsigned parts (toOption_eq_some.mp halg) hverify⟩
  obtain ⟨rfl, hpk⟩ | rfl | ⟨rfl, hpk⟩ := hholds
  · exact hpk
  · exact rfl
  · exact hpk

theorem issued_rsa {der : Bytes}
    (h : issuedChecks der kind (some .pkcs1v15Sha256) (fun tbs sig => sig = List.replicate 256 (digest tbs)) =
      true) : ∃ parts, Issued .absent false linkFeatures linkProvider der parts kind rsaIssuer.key :=
  issued_of_checks h fun _ halg hverify => .rsa halg rfl hverify

theorem issued_ecdsa {der : Bytes}
    (h : issuedChecks der kind none (fun tbs sig => sig = List.replicate 71 (digest tbs)) = true) :
    ∃ parts, Issued .absent false linkFeatures linkProvider der parts kind p256Issuer.key :=
  issued_of_checks h fun _ halg hverify => .ecdsaP256 halg rfl hverify

end Sample

section Link
variable {d : DerCrate} {certDer : Bool} {f : Features} {p : SigVerifierProvider} {der : Bytes}
  {parts : CertParts} {kind : SpkiKind}

/-- Of the certificates that an RSA or ECDSA issuer has signed, the code accepts those whose subject
key does not stand in the way. -/
theorem verifyLink_issued_iff (hrsa : f.rsa = true) {parent : CertView}
    (h : Issued d certDer f p der parts kind parent.key) :
    (∃ child, enabledCertParser d certDer f der = .ok child ∧ verifyLink p child parent = .ok ()) ↔
      LinkKept kind parts.signature parent.key := by
  obtain ⟨alg, halg⟩ := h.signed.outerSigAlg
  rw [enabledCertParser_eq, h.read]
  dsimp only [bind, Except.bind]
  by_cases hlen : kind = .ed25519 → parts.signature.length = 64
  · obtain ⟨view, hview, htbs, hsig, hpadding⟩ := CertParts.view_ok hrsa h.classified h.holds halg hlen
    rw [hview]
    have hunique : (∃ child, Except.ok view = (Except.ok child : Except CertParseError CertView) ∧
        verifyLink p child parent = .ok ()) ↔ verifyLink p view parent = .ok () := by
      simp
    rw [hunique, h.signed.verifyLink_iff halg rfl htbs hsig hpadding]
    cases kind <;> simp_all [LinkKept]
  · obtain ⟨rfl, hwrong⟩ := Classical.not_imp.mp hlen
    rw [CertParts.view_wrongSignatureLength h.classified h.holds hwrong]
    exact iff_of_false (by simp) fun hkept => hwrong hkept.1

/-- An ECDSA certificate of an RSA issuer. -/
theorem verifyLink_issued_ecdsaUnderRsa :
    (∃ parts, Issued .absent false Sample.linkFeatures Sample.linkProvider Sample.ecdsaUnderRsa parts
      .ecdsaP256 Sample.rsaIssuer.key) ∧
    ∃ child, enabledCertParser .absent false Sample.linkFeatures Sample.ecdsaUnderRsa = .ok child ∧
      verifyLink Sample.linkProvider child Sample.rsaIssuer = .ok () := by
  obtain ⟨parts, h⟩ : ∃ parts, Issued .absent false Sample.linkFeatures Sample.linkProvider
      Sample.ecdsaUnderRsa parts .ecdsaP256 Sample.rsaIssuer.key :=
    Sample.issued_rsa (by decide +kernel)
  exact ⟨⟨parts, h⟩, (verifyLink_issued_iff rfl h).mpr trivial⟩

/-- An Ed25519 certificate is not parsed under an RSA or ECDSA issuer, and an ML-DSA certificate does
not verify under an RSA issuer, although the signatures are good. -/
theorem verifyLink_refuses_families :
    (∃ parts, Issued .absent false Sample.linkFeatures Sample.linkProvider Sample.ed25519UnderRsa parts
      .ed25519 Sample.rsaIssuer.key) ∧
    enabledCertParser .absent false Sample.linkFeatures Sample.ed25519UnderRsa =
      .error .wrongSignatureLength ∧
    (∃ parts, Issued .absent false Sample.linkFeatures Sample.linkProvider Sample.ed25519UnderEcdsa
      parts .ed25519 Sample.p256Issuer.key) ∧
    enabledCertParser .absent false Sample.linkFeatures Sample.ed25519UnderEcdsa =
      .error .wrongSignatureLength ∧
    (∃ parts, Issued .absent false Sample.linkFeatures Sample.linkProvider Sample.mlDsaUnderRsa parts
      (.mlDsa 1312) Sample.rsaIssuer.key) ∧
    ∃ child, enabledCertParser .absent false Sample.linkFeatures Sample.mlDsaUnderRsa = .ok child ∧
      verifyLink Sample.linkProvider child Sample.rsaIssuer = .error .unknownLinkSigAlg := by
  refine ⟨Sample.issued_rsa (by decide +kernel), by decide +kernel,
    Sample.issued_ecdsa (by decide +kernel), by decide +kernel, Sample.issued_rsa (by decide +kernel), ?_⟩
  have hmlDsa : (TlvCert.parse Sample.linkFeatures Sample.mlDsaUnderRsa).toOption.any (fun child =>
      verifyLink Sample.linkProvider child Sample.rsaIssuer = .error .unknownLinkSigAlg) = true := by
    decide +kernel
  obtain ⟨child, hchild, hlink⟩ := (Option.any_eq_true _ _).mp hmlDsa
  exact ⟨child, toOption_eq_some.mp hchild, of_decide_eq_true hlink⟩

end Link

end KrabiTls
