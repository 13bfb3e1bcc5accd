import KrabiTls.Lib.Bytes

/-! The third-party primitives behind the crate's backend traits: SHA-256/HKDF and the record
AEADs. They are parameters; the array lengths the trait signatures fix are carried by the types. -/
namespace KrabiTls
open Lib

abbrev Secret := Block 32
abbrev TranscriptDigest := Block 32
abbrev AeadIv := Block 12

inductive HkdfBackendError where
  | failed
  deriving DecidableEq, Repr

inductive HkdfExpandError where
  | outputTooLong
  | invalidPrk
  | backend (e : HkdfBackendError)
  deriving DecidableEq, Repr

/-- `HkdfSha256`. `hash` is the snapshot of a hasher fed with the given bytes. -/
structure HkdfSha256 where
  hash : Bytes → Except HkdfBackendError (Block 32)
  extract : (salt ikm : Bytes) → Except HkdfBackendError (Block 32)
  expand : (prk : Block 32) → (info : Bytes) → (len : Nat) → Except HkdfExpandError (Block len)

/-- A stand-in digest for evaluating the model. -/
def digest (b : Bytes) : UInt8 := b.foldl (· + ·) 0

theorem length_replicate_digest (b : Bytes) : (List.replicate 32 (digest b)).length = 32 :=
  List.length_replicate

def HkdfSha256.sample : HkdfSha256 where
  hash b := .ok ⟨List.replicate 32 (digest b), length_replicate_digest b⟩
  extract salt ikm := .ok ⟨List.replicate 32 (digest salt + digest ikm), by simp⟩
  expand prk info len := .ok ⟨List.replicate len (digest prk.val + digest info), by simp⟩

/-- `HKDF-Expand` fails only on outputs of more than 255 hash lengths. -/
def HkdfSha256.Total (h : HkdfSha256) : Prop :=
  ∀ prk info len, len ≤ 255 * 32 → ∃ okm, h.expand prk info len = .ok okm

theorem HkdfSha256.sample_total : HkdfSha256.sample.Total := by
  intro prk info len _
  exact ⟨_, rfl⟩

inductive CipherSuite where
  | aes128GcmSha256
  | chaCha20Poly1305Sha256
  deriving DecidableEq, Repr

def CipherSuite.id : CipherSuite → Nat
  | .aes128GcmSha256 => 0x1301
  | .chaCha20Poly1305Sha256 => 0x1303

def CipherSuite.keyLen : CipherSuite → Nat
  | .aes128GcmSha256 => 16
  | .chaCha20Poly1305Sha256 => 32

inductive AeadError where
  | aeadError
  deriving DecidableEq, Repr

/-- `AeadBackend`: the detached in-place AEAD of each suite. -/
structure AeadBackend where
  encrypt : (s : CipherSuite) → (key : Block s.keyLen) → (nonce : Block 12) → (aad buf : Bytes) →
    Except AeadError (Block buf.length × Block 16)
  decrypt : (s : CipherSuite) → (key : Block s.keyLen) → (nonce : Block 12) → (aad buf : Bytes) →
    (tag : Block 16) → Except AeadError (Block buf.length)

/-- The AEAD seals every input of record size. The ciphers reject only inputs beyond their message
limits, which lie far above it. -/
def AeadBackend.Total (a : AeadBackend) : Prop :=
  ∀ s key nonce aad buf, aad.length ≤ 2 ^ 16 → buf.length ≤ 2 ^ 16 →
    ∃ sealed, a.encrypt s key nonce aad buf = .ok sealed

/-- Opening inverts sealing. -/
def AeadBackend.Correct (a : AeadBackend) : Prop :=
  ∀ s key nonce aad buf sealed, a.encrypt s key nonce aad buf = .ok sealed →
    (a.decrypt s key nonce aad sealed.1.val sealed.2).map Subtype.val = .ok buf

/-- Under another nonce a sealed text is rejected. -/
def AeadBackend.NonceBound (a : AeadBackend) : Prop :=
  ∀ s key nonce aad buf sealed, a.encrypt s key nonce aad buf = .ok sealed →
    ∀ nonce' aad', nonce' ≠ nonce → a.decrypt s key nonce' aad' sealed.1.val sealed.2 = .error .aeadError

/-- An executable AEAD for evaluating the model: the text in clear, tagged with its nonce. -/
def AeadBackend.clear : AeadBackend where
  encrypt _ _ nonce _ buf := .ok (⟨buf, rfl⟩, ⟨nonce.val ++ [0, 0, 0, 0], by simp [nonce.property]⟩)
  decrypt _ _ nonce _ buf tag :=
    if tag.val = nonce.val ++ [0, 0, 0, 0] then .ok ⟨buf, rfl⟩ else .error .aeadError

theorem AeadBackend.clear_total : AeadBackend.clear.Total := by
  intro s key nonce aad buf _ _
  exact ⟨_, rfl⟩

theorem AeadBackend.clear_correct : AeadBackend.clear.Correct := by
  intro s key nonce aad buf sealed h
  cases h
  simp [clear, Except.map]

theorem AeadBackend.clear_nonceBound : AeadBackend.clear.NonceBound := by
  intro s key nonce aad buf sealed h nonce' aad' hne
  cases h
  have htag : nonce.val ++ [0, 0, 0, 0] ≠ nonce'.val ++ [0, 0, 0, 0] := fun heq =>
    hne (Subtype.ext (List.append_cancel_right heq)).symm
  simp [clear, htag]

end KrabiTls
