import KrabiTls.Cert

/-! What the chain-validation strategies share (`verify_strategy.rs`): the preparation of verifiers
and the check of one certificate's signature under another's key. -/
namespace KrabiTls
open Lib

/-- A backend with its `prepare` functions. -/
structure SigVerifierProvider extends VerifierBackend where
  prepareEd25519 : Block 32 → Option (Verifier .ed25519)
  prepareRsa : (modulus : Bytes) → (exponent : Nat) → Option (Verifier .rsa)
  prepareMlDsa : Bytes → Option (Verifier .mlDsa)
  prepareEcdsaP256 : Block 65 → Option (Verifier .ecdsaP256)
  prepareEcdsaP384 : Block 97 → Option (Verifier .ecdsaP384)

/-- The sample backend, with every key prepared as it is. -/
def SigVerifierProvider.sample : SigVerifierProvider :=
  { VerifierBackend.sample with
    prepareEd25519 := fun pubkey => some pubkey.val
    prepareRsa := fun modulus _ => some modulus
    prepareMlDsa := some
    prepareEcdsaP256 := fun pubkey => some pubkey.val
    prepareEcdsaP384 := fun pubkey => some pubkey.val }

/-- Verifiers under which a signature is the stand-in digest of the key and the message. -/
def SigVerifierProvider.keyed : SigVerifierProvider :=
  { SigVerifierProvider.sample with
    verifyEd25519 := fun (key : Bytes) msg sig =>
      sig.val = List.replicate 64 (digest (key ++ msg)) }

inductive PrepareLeafErr where
  | ed25519
  | rsa
  | mlDsa
  | ecdsa
  deriving DecidableEq, Repr

inductive LinkErr where
  | linkSignatureInvalid
  | unknownLinkSigAlg
  | rsaVerifierInvalid
  | mlDsaVerifierInvalid
  deriving DecidableEq, Repr

inductive ValidityRejected where
  | validityRejected
  deriving DecidableEq, Repr

/-- `Clock`: the check of a certificate's validity window. -/
abbrev Clock := CertView → Except ValidityRejected Unit

def noClock : Clock := fun _ => .ok ()

/-- `ok_or`. -/
def okOr {ε α : Type} (e : ε) : Option α → Except ε α
  | none => .error e
  | some a => .ok a

theorem okOr_eq_ok {ε α : Type} {e : ε} {x : Option α} {a : α} :
    okOr e x = .ok a ↔ x = some a := by
  cases x <;> simp [okOr]

section Verifiers
variable (p : SigVerifierProvider)

def prepareLeaf (leaf : CertView) : Except PrepareLeafErr (PreparedVerifier p.toVerifierBackend) :=
  match leaf.key with
  | .ed25519 pubkey => (okOr .ed25519 (p.prepareEd25519 pubkey)).map .ed25519
  | .rsa modulus exponent => (okOr .rsa (p.prepareRsa modulus exponent)).map .rsa
  | .mlDsa pubkey => (okOr .mlDsa (p.prepareMlDsa pubkey)).map .mlDsa
  | .ecdsaP256 pubkey =>
      if h : pubkey.length = 65 then
        (okOr .ecdsa (p.prepareEcdsaP256 ⟨pubkey, h⟩)).map .ecdsaP256
      else .error .ecdsa
  | .ecdsaP384 pubkey =>
      if h : pubkey.length = 97 then
        (okOr .ecdsa (p.prepareEcdsaP384 ⟨pubkey, h⟩)).map .ecdsaP384
      else .error .ecdsa

def linkVerdict (verified : Bool) : Except LinkErr Unit :=
  if verified then .ok () else .error .linkSignatureInvalid

/-- The RSA padding a child names. Only the variants with an `outer_sig_alg` have one. -/
def CertView.linkSigAlg (child : CertView) : Except LinkErr RsaCertSigAlg :=
  match child.key with
  | .rsa _ _ | .ecdsaP256 _ | .ecdsaP384 _ => okOr .unknownLinkSigAlg child.outerSigAlg
  | .ed25519 _ | .mlDsa _ => .error .unknownLinkSigAlg

/-- The signature of `child` under the key of `parent`. -/
def verifyLink (child parent : CertView) : Except LinkErr Unit :=
  match parent.key with
  | .ed25519 pubkey => do
      let v ← okOr .linkSignatureInvalid (p.prepareEd25519 pubkey)
      if h : child.signature.length = 64 then
        linkVerdict (p.verifyEd25519 v child.tbs ⟨child.signature, h⟩)
      else .error .linkSignatureInvalid
  | .mlDsa pubkey => do
      let v ← okOr .mlDsaVerifierInvalid (p.prepareMlDsa pubkey)
      linkVerdict (p.verifyMlDsa v child.tbs child.signature)
  | .rsa modulus exponent => do
      let alg ← child.linkSigAlg
      let v ← okOr .rsaVerifierInvalid (p.prepareRsa modulus exponent)
      linkVerdict (p.verifyRsa v child.tbs alg child.signature)
  | .ecdsaP256 pubkey =>
      -- the curve of the issuer fixes the hash
      if h : pubkey.length = 65 then do
        let v ← okOr .linkSignatureInvalid (p.prepareEcdsaP256 ⟨pubkey, h⟩)
        linkVerdict (p.verifyEcdsaP256 v child.tbs child.signature)
      else .error .linkSignatureInvalid
  | .ecdsaP384 pubkey =>
      if h : pubkey.length = 97 then do
        let v ← okOr .linkSignatureInvalid (p.prepareEcdsaP384 ⟨pubkey, h⟩)
        linkVerdict (p.verifyEcdsaP384 v child.tbs child.signature)
      else .error .linkSignatureInvalid

end Verifiers

end KrabiTls
