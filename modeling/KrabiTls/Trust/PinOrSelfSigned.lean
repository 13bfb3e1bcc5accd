import KrabiTls.EcdsaSig
import KrabiTls.Trust.Links

/-! Trust in a pinned key or in a self-signed certificate (`pin_or_self_signed.rs`), and the bundled
ML-DSA and ECDSA verifiers that the check of a self-signature calls (`mldsa_verify.rs`,
`ecdsa_verify.rs`). -/
namespace KrabiTls
open Lib

/-- The parameter sets of FIPS 204. -/
inductive MlDsaParams where
  | mlDsa44
  | mlDsa65
  | mlDsa87
  deriving DecidableEq, Repr

namespace MlDsaParams

def pkBytes : MlDsaParams → Nat
  | mlDsa44 => mlDsa44PkBytes
  | mlDsa65 => mlDsa65PkBytes
  | mlDsa87 => mlDsa87PkBytes

def sigBytes : MlDsaParams → Nat
  | mlDsa44 => 2420
  | mlDsa65 => 3309
  | mlDsa87 => 4627

end MlDsaParams

/-- What the bundled verifiers take from `krabipqc`, `krabiecdsa` and `sha2`. -/
structure BundledCrates where
  mlDsaVerify : (params : MlDsaParams) → Block params.pkBytes → (msg : Bytes) →
    Block params.sigBytes → Bool
  sha256 : Bytes → Block 32
  sha384 : Bytes → Block 48
  verifyPrehashP256 : Block 65 → (prehash rs : Bytes) → Bool
  verifyPrehashP384 : Block 97 → (prehash rs : Bytes) → Bool

structure MlDsaVerifierKey where
  params : MlDsaParams
  pk : Block params.pkBytes

/-- The parameter set is chosen from the length of the key. -/
def MlDsaVerifierKey.new (pubkey : Bytes) : Option MlDsaVerifierKey :=
  if h : pubkey.length = mlDsa44PkBytes then some ⟨.mlDsa44, pubkey, h⟩
  else if h : pubkey.length = mlDsa65PkBytes then some ⟨.mlDsa65, pubkey, h⟩
  else if h : pubkey.length = mlDsa87PkBytes then some ⟨.mlDsa87, pubkey, h⟩
  else none

/-- A signature of another length than that of the parameter set does not verify. -/
def MlDsaVerifierKey.verify (b : BundledCrates) (key : MlDsaVerifierKey) (msg signature : Bytes) :
    Bool :=
  if h : signature.length = key.params.sigBytes then
    b.mlDsaVerify key.params key.pk msg ⟨signature, h⟩
  else false

/-- `verify_p256` and `verify_p384`, by the width of a coordinate and the length of `r || s`. -/
def verifyEcdsa {n : Nat} (verifyPrehash : Block n → Bytes → Bytes → Bool) (eb rsLen : Nat)
    (pubkeySec1 prehash derSig : Bytes) : Bool :=
  if h : pubkeySec1.length = n then
    (EcdsaSig.derSigToP1363 derSig eb rsLen).any (verifyPrehash ⟨pubkeySec1, h⟩ prehash)
  else false

inductive PinnedPubkeyOwned where
  | ed25519 (pubkey : Block 32)
  | rsa (modulus : Vec UInt8 256) (exponent : UInt32)
  | mlDsa (pubkey : Vec UInt8 2592)
  | ecdsaP256 (pubkey : Block 65)
  | ecdsaP384 (pubkey : Block 97)
  deriving DecidableEq

/-- `PinOrSelfSigned`, by its `Mode`. -/
inductive PinOrSelfSigned where
  | pinned (pin : PinnedPubkeyOwned)
  | selfSigned
  deriving DecidableEq

inductive PinOrSelfSignedError where
  | multiCertChain
  | pinMismatch
  | pinAlgorithmMismatch
  | selfSignatureInvalid
  | rsaVerifierInvalid
  | mlDsaVerifierInvalid
  | unknownSigAlg
  deriving DecidableEq, Repr

def ctEqPin (pubkey pin : Bytes) : Except PinOrSelfSignedError Unit :=
  if pubkey.length = pin.length ∧ pubkey = pin then .ok () else .error .pinMismatch

def verifyPin (leaf : CertView) (pin : PinnedPubkeyOwned) : Except PinOrSelfSignedError Unit :=
  match leaf.key, pin with
  | .ed25519 pubkey, .ed25519 expected =>
      if pubkey = expected then .ok () else .error .pinMismatch
  | .rsa modulus exponent, .rsa pm pe =>
      if modulus.length ≠ pm.val.length then .error .pinMismatch
      else if modulus = pm.val ∧ exponent = pe.toNat then .ok ()
      else .error .pinMismatch
  | .mlDsa pubkey, .mlDsa pin =>
      if pubkey.length ≠ pin.val.length then .error .pinMismatch
      else if pubkey = pin.val then .ok ()
      else .error .pinMismatch
  | .ecdsaP256 pubkey, .ecdsaP256 pin => ctEqPin pubkey pin.val
  | .ecdsaP384 pubkey, .ecdsaP384 pin => ctEqPin pubkey pin.val
  | _, _ => .error .pinAlgorithmMismatch

def PinnedPubkeyOwned.key : PinnedPubkeyOwned → CertKey
  | .ed25519 pubkey => .ed25519 pubkey
  | .rsa modulus exponent => .rsa modulus.val exponent.toNat
  | .mlDsa pubkey => .mlDsa pubkey.val
  | .ecdsaP256 pubkey => .ecdsaP256 pubkey.val
  | .ecdsaP384 pubkey => .ecdsaP384 pubkey.val

theorem ctEqPin_ok_iff {pubkey pin : Bytes} : ctEqPin pubkey pin = .ok () ↔ pubkey = pin := by
  unfold ctEqPin
  by_cases h : pubkey = pin
  · simp [h]
  · simp [h]

theorem verifyPin_ok_iff {leaf : CertView} {pin : PinnedPubkeyOwned} :
    verifyPin leaf pin = .ok () ↔ leaf.key = pin.key := by
  unfold verifyPin PinnedPubkeyOwned.key
  generalize leaf.key = key
  cases key <;> cases pin <;> simp only [reduceCtorEq, ctEqPin_ok_iff]
  case ed25519.ed25519 pubkey expected => simp
  -- the lengths are compared first where the keys may differ in length
  case rsa.rsa modulus exponent pm pe =>
    by_cases hmodulus : modulus = pm.val
    · simp [hmodulus]
    · simp [hmodulus]
  case mlDsa.mlDsa pubkey pin =>
    by_cases hpubkey : pubkey = pin.val
    · simp [hpubkey]
    · simp [hpubkey]
  all_goals simp

namespace BundledCrates
variable (b : BundledCrates)

def verifyP256 (pubkeySec1 prehash derSig : Bytes) : Bool :=
  verifyEcdsa b.verifyPrehashP256 32 64 pubkeySec1 prehash derSig

def verifyP384 (pubkeySec1 prehash derSig : Bytes) : Bool :=
  verifyEcdsa b.verifyPrehashP384 48 96 pubkeySec1 prehash derSig

/-- The backend `RustCrypto` as far as its ML-DSA and ECDSA providers go, beside the Ed25519 and RSA
providers of another. -/
def rustCrypto (p : SigVerifierProvider) : SigVerifierProvider where
  Verifier
    | .ed25519 => p.Verifier .ed25519
    | .rsa => p.Verifier .rsa
    | .mlDsa => MlDsaVerifierKey
    | .ecdsaP256 => Block 65
    | .ecdsaP384 => Block 97
  verifyEd25519 := p.verifyEd25519
  verifyRsa := p.verifyRsa
  verifyMlDsa := MlDsaVerifierKey.verify b
  verifyEcdsaP256 key msg sig := b.verifyP256 key.val (b.sha256 msg).val sig
  verifyEcdsaP384 key msg sig := b.verifyP384 key.val (b.sha384 msg).val sig
  matchesEd25519 := p.matchesEd25519
  matchesRsa := p.matchesRsa
  matchesMlDsa key candidate := key.pk.val.length = candidate.length ∧ key.pk.val = candidate
  matchesEcdsaP256 key candidate := key = candidate
  matchesEcdsaP384 key candidate := key = candidate
  prepareEd25519 := p.prepareEd25519
  prepareRsa := p.prepareRsa
  prepareMlDsa := MlDsaVerifierKey.new
  prepareEcdsaP256 := some
  prepareEcdsaP384 := some

end BundledCrates

section SelfSig
variable (b : BundledCrates) (p : SigVerifierProvider)

def selfVerdict (verified : Bool) : Except PinOrSelfSignedError Unit :=
  if verified then .ok () else .error .selfSignatureInvalid

/-- Only the Ed25519 and RSA arms ask the backend for a verifier. -/
def verifySelfSig (leaf : CertView) : Except PinOrSelfSignedError Unit :=
  match leaf.key with
  | .ed25519 pubkey => do
      let v ← okOr .selfSignatureInvalid (p.prepareEd25519 pubkey)
      if h : leaf.signature.length = 64 then
        selfVerdict (p.verifyEd25519 v leaf.tbs ⟨leaf.signature, h⟩)
      else .error .selfSignatureInvalid
  | .rsa modulus exponent => do
      let alg ← okOr .unknownSigAlg leaf.outerSigAlg
      let v ← okOr .rsaVerifierInvalid (p.prepareRsa modulus exponent)
      selfVerdict (p.verifyRsa v leaf.tbs alg leaf.signature)
  | .mlDsa pubkey => do
      let v ← okOr .mlDsaVerifierInvalid (MlDsaVerifierKey.new pubkey)
      selfVerdict (v.verify b leaf.tbs leaf.signature)
  | .ecdsaP256 pubkey => selfVerdict (b.verifyP256 pubkey (b.sha256 leaf.tbs).val leaf.signature)
  | .ecdsaP384 pubkey => selfVerdict (b.verifyP384 pubkey (b.sha384 leaf.tbs).val leaf.signature)

namespace PinOrSelfSigned

def anchorsAtLeaf : PinOrSelfSigned → Bool
  | .pinned _ => true
  | .selfSigned => false

def acceptChain (s : PinOrSelfSigned) (chain : List CertView) : Except PinOrSelfSignedError Unit := do
  let leaf ← okOr .multiCertChain chain.head?
  match s with
  | .pinned pin => verifyPin leaf pin
  | .selfSigned =>
      if chain.length ≠ 1 then .error .multiCertChain
      else verifySelfSig b p leaf

end PinOrSelfSigned
end SelfSig

section SelfSig
variable {b : BundledCrates} {p : SigVerifierProvider}

theorem PinOrSelfSigned.acceptChain_pinned_iff {pin : PinnedPubkeyOwned} {chain : List CertView} :
    (PinOrSelfSigned.pinned pin).acceptChain b p chain = .ok () ↔
      ∃ leaf rest, chain = leaf :: rest ∧ leaf.key = pin.key := by
  cases chain with
  | nil => simp [acceptChain, okOr, bind, Except.bind]
  | cons leaf rest => simp [acceptChain, okOr, bind, Except.bind, verifyPin_ok_iff]

theorem PinOrSelfSigned.acceptChain_selfSigned_iff {chain : List CertView} :
    PinOrSelfSigned.selfSigned.acceptChain b p chain = .ok () ↔
      ∃ leaf, chain = [leaf] ∧ verifySelfSig b p leaf = .ok () := by
  cases chain with
  | nil => simp [acceptChain, okOr, bind, Except.bind]
  | cons leaf rest => cases rest <;> simp [acceptChain, okOr, bind, Except.bind]

theorem linkVerdict_ok {verified : Bool} : linkVerdict verified = .ok () ↔ verified = true := by
  cases verified <;> simp [linkVerdict]

theorem selfVerdict_ok {verified : Bool} : selfVerdict verified = .ok () ↔ verified = true := by
  cases verified <;> simp [selfVerdict]

/-- A self-signature is checked as a link is under a backend with the bundled ML-DSA and ECDSA
verifiers. -/
theorem verifySelfSig_iff_rustCrypto {leaf : CertView} :
    verifySelfSig b p leaf = .ok () ↔ verifyLink (b.rustCrypto p) leaf leaf = .ok () := by
  unfold verifySelfSig verifyLink CertView.linkSigAlg
  generalize leaf.key = key
  cases key with
  | ed25519 pubkey =>
    simp only [bind_eq_ok, okOr_eq_ok]
    refine exists_congr fun v => and_congr_right fun _ => ?_
    split
    · rw [selfVerdict_ok, linkVerdict_ok]
      exact Iff.rfl
    · simp
  | rsa modulus exponent | mlDsa pubkey =>
    simp only [bind_eq_ok, okOr_eq_ok, selfVerdict_ok, linkVerdict_ok]
    exact Iff.rfl
  | ecdsaP256 pubkey =>
    rw [selfVerdict_ok]
    dsimp only
    split
    case isTrue h => simp [okOr, linkVerdict_ok, BundledCrates.rustCrypto, bind, Except.bind]
    case isFalse h => simp [BundledCrates.verifyP256, verifyEcdsa, h]
  | ecdsaP384 pubkey =>
    rw [selfVerdict_ok]
    dsimp only
    split
    case isTrue h => simp [okOr, linkVerdict_ok, BundledCrates.rustCrypto, bind, Except.bind]
    case isFalse h => simp [BundledCrates.verifyP384, verifyEcdsa, h]

end SelfSig

def ecdsaVerdict {n : Nat} {V : Type} (prepare : Block n → Option V)
    (verify : V → Bytes → Bytes → Bool) (pubkey msg sig : Bytes) : Bool :=
  if h : pubkey.length = n then (prepare ⟨pubkey, h⟩).any (verify · msg sig) else false

namespace SigVerifierProvider
variable (p : SigVerifierProvider)

/-- What the provider for ML-DSA says of a signature, a key that it does not prepare being a no. -/
def mlDsaVerdict (pubkey msg sig : Bytes) : Bool :=
  (p.prepareMlDsa pubkey).any (p.verifyMlDsa · msg sig)

def ecdsaP256Verdict : Bytes → Bytes → Bytes → Bool :=
  ecdsaVerdict p.prepareEcdsaP256 p.verifyEcdsaP256

def ecdsaP384Verdict : Bytes → Bytes → Bytes → Bool :=
  ecdsaVerdict p.prepareEcdsaP384 p.verifyEcdsaP384

end SigVerifierProvider

/-- The provider for the family of the key and the bundled verifier say the same of the leaf. For an
Ed25519 or RSA key nothing is asked. -/
def BundledCrates.SameVerdict (b : BundledCrates) (p : SigVerifierProvider) (leaf : CertView) : Prop :=
  match leaf.key with
  | .ed25519 _ | .rsa _ _ => True
  | .mlDsa pubkey => p.mlDsaVerdict pubkey leaf.tbs leaf.signature =
      (b.rustCrypto p).mlDsaVerdict pubkey leaf.tbs leaf.signature
  | .ecdsaP256 pubkey => p.ecdsaP256Verdict pubkey leaf.tbs leaf.signature =
      (b.rustCrypto p).ecdsaP256Verdict pubkey leaf.tbs leaf.signature
  | .ecdsaP384 pubkey => p.ecdsaP384Verdict pubkey leaf.tbs leaf.signature =
      (b.rustCrypto p).ecdsaP384Verdict pubkey leaf.tbs leaf.signature

section Verdicts
variable {p : SigVerifierProvider} {child parent : CertView} {pubkey : Bytes}

theorem verifyLink_mlDsa_iff (h : parent.key = .mlDsa pubkey) :
    verifyLink p child parent = .ok () ↔ p.mlDsaVerdict pubkey child.tbs child.signature = true := by
  simp only [verifyLink, h, bind_eq_ok, okOr_eq_ok, linkVerdict_ok, SigVerifierProvider.mlDsaVerdict,
    Option.any_eq_true]

theorem ecdsaVerdict_iff {n : Nat} {V : Type} {prepare : Block n → Option V}
    {verify : V → Bytes → Bytes → Bool} {msg sig : Bytes} {e : LinkErr} :
    (if h : pubkey.length = n then do
      let v ← okOr e (prepare ⟨pubkey, h⟩)
      linkVerdict (verify v msg sig)
    else .error e) = .ok () ↔ ecdsaVerdict prepare verify pubkey msg sig = true := by
  unfold ecdsaVerdict
  split
  · simp only [bind_eq_ok, okOr_eq_ok, linkVerdict_ok, Option.any_eq_true]
  · simp

theorem verifyLink_ecdsaP256_iff (h : parent.key = .ecdsaP256 pubkey) :
    verifyLink p child parent = .ok () ↔
      p.ecdsaP256Verdict pubkey child.tbs child.signature = true := by
  unfold verifyLink
  rw [h]
  exact ecdsaVerdict_iff

theorem verifyLink_ecdsaP384_iff (h : parent.key = .ecdsaP384 pubkey) :
    verifyLink p child parent = .ok () ↔
      p.ecdsaP384Verdict pubkey child.tbs child.signature = true := by
  unfold verifyLink
  rw [h]
  exact ecdsaVerdict_iff

end Verdicts

/-- The self-signature and the link from the leaf to itself are accepted together where the backend
and the bundled verifiers say the same. -/
theorem verifySelfSig_iff_verifyLink (b : BundledCrates) (p : SigVerifierProvider) (leaf : CertView) :
    (verifySelfSig b p leaf = .ok () ↔ verifyLink p leaf leaf = .ok ()) ↔ b.SameVerdict p leaf := by
  rw [verifySelfSig_iff_rustCrypto]
  unfold BundledCrates.SameVerdict
  cases hkey : leaf.key with
  | ed25519 pubkey | rsa modulus exponent =>
    refine iff_of_true ?_ trivial
    unfold verifyLink
    rw [hkey]
    exact Iff.rfl
  | mlDsa pubkey =>
    rw [verifyLink_mlDsa_iff hkey, verifyLink_mlDsa_iff hkey]
    exact (eq_comm.trans Bool.eq_iff_iff).symm
  | ecdsaP256 pubkey =>
    rw [verifyLink_ecdsaP256_iff hkey, verifyLink_ecdsaP256_iff hkey]
    exact (eq_comm.trans Bool.eq_iff_iff).symm
  | ecdsaP384 pubkey =>
    rw [verifyLink_ecdsaP384_iff hkey, verifyLink_ecdsaP384_iff hkey]
    exact (eq_comm.trans Bool.eq_iff_iff).symm

namespace Sample

/-- Stand-ins: an ML-DSA signature repeats the digest of the message, `r || s` repeats the key. -/
def crates : BundledCrates where
  mlDsaVerify params _ msg sig := sig.val = List.replicate params.sigBytes (digest msg)
  sha256 msg := ⟨List.replicate 32 (digest msg), length_replicate_digest msg⟩
  sha384 msg := ⟨List.replicate 48 (digest msg), List.length_replicate⟩
  verifyPrehashP256 key _ rs := rs = key.val.tail
  verifyPrehashP384 key _ rs := rs = key.val.tail

/-- A backend whose ML-DSA and ECDSA verifiers reject everything. -/
def alwaysReject : SigVerifierProvider :=
  { SigVerifierProvider.keyed with
    verifyMlDsa := fun _ _ _ => false
    verifyEcdsaP256 := fun _ _ _ => false
    verifyEcdsaP384 := fun _ _ _ => false }

def selfSignedMlDsa : Bytes := issuedCert mlDsa44Alg (List.replicate 1312 5) mlDsa44Alg 2420

def selfSignedP256 : CertView :=
  ⟨[0x30, 0x00], EcdsaSig.signature (List.replicate 32 5) (List.replicate 32 5),
    .ecdsaP256 (0x04 :: List.replicate 64 5), none, none, []⟩

end Sample

/-- The self-signed mode accepts what the backend rejects, of an ML-DSA and of a P-256 key. -/
theorem verifySelfSig_bypasses_backend :
    (∃ leaf, enabledCertParser .absent false Sample.linkFeatures Sample.selfSignedMlDsa = .ok leaf ∧
      verifySelfSig Sample.crates Sample.alwaysReject leaf = .ok () ∧
      verifyLink Sample.alwaysReject leaf leaf = .error .linkSignatureInvalid) ∧
    verifySelfSig Sample.crates Sample.alwaysReject Sample.selfSignedP256 = .ok () ∧
    verifyLink Sample.alwaysReject Sample.selfSignedP256 Sample.selfSignedP256 =
      .error .linkSignatureInvalid := by
  refine ⟨?_, by decide +kernel, by decide +kernel⟩
  have hmlDsa : (TlvCert.parse Sample.linkFeatures Sample.selfSignedMlDsa).toOption.any (fun leaf =>
      verifySelfSig Sample.crates Sample.alwaysReject leaf = .ok () ∧
      verifyLink Sample.alwaysReject leaf leaf = .error .linkSignatureInvalid) = true := by
    decide +kernel
  obtain ⟨leaf, hleaf, hchecks⟩ := (Option.any_eq_true _ _).mp hmlDsa
  exact ⟨leaf, toOption_eq_some.mp hleaf, of_decide_eq_true hchecks⟩

end KrabiTls
