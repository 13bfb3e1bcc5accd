import Mathlib.Algebra.Order.Ring.Nat

/-! The wire constants, and the cargo features and the target a build is compiled for. -/
namespace KrabiTls

def ctChangeCipherSpec : UInt8 := 0x14
def ctAlert : UInt8 := 21
def ctHandshake : UInt8 := 22
def ctApplicationData : UInt8 := 23

def closeNotifyAlert : List UInt8 := [0x01, 0x00]

def legacyVersion : Nat := 0x0303
def tls13 : Nat := 0x0304
def legacySessionIdLen : Nat := 32

def hsServerHello : UInt8 := 2
def hsNewSessionTicket : UInt8 := 4
def hsEncryptedExtensions : UInt8 := 8
def hsCertificate : UInt8 := 11
def hsCertificateRequest : UInt8 := 13
def hsCertificateVerify : UInt8 := 15
def hsFinished : UInt8 := 20
def hsKeyUpdate : UInt8 := 24

def cipherAes128GcmSha256 : Nat := 0x1301
def cipherChaCha20Poly1305Sha256 : Nat := 0x1303

def sigSchemeEd25519 : Nat := 0x0807
def sigSchemeEcdsaP256 : Nat := 0x0403
def sigSchemeEcdsaP384 : Nat := 0x0503
def sigSchemeRsaPssRsaeSha256 : Nat := 0x0804
def sigSchemeMlDsa44 : Nat := 0x0904
def sigSchemeMlDsa65 : Nat := 0x0905
def sigSchemeMlDsa87 : Nat := 0x0906

def extSignatureAlgorithms : Nat := 13
def extRecordSizeLimit : Nat := 28

/-- The caps on `TLSPlaintext.length` and `TLSCiphertext.length`. -/
def tlsPlaintextMax : Nat := 2 ^ 14
def tlsCiphertextMax : Nat := 2 ^ 14 + 256

def aeadTagLen : Nat := 16
def tlsHeader : Nat := 5

/-- A feature set. The fields of type `Prop` are the implications the manifest and the crate's
compile-time guards enforce. -/
structure Features where
  cipherAes : Bool
  chacha20 : Bool
  x25519Kx : Bool
  p256Kx : Bool
  mlkem : Bool
  rsa : Bool
  rsaPssOnly : Bool
  rsa1024 : Bool
  rsa3072 : Bool
  rsa4096 : Bool
  mldsa : Bool
  ecdsa : Bool
  ipHost : Bool
  usizeBits : Nat
  some_cipher : cipherAes ∨ chacha20
  some_kx : x25519Kx ∨ p256Kx
  mlkem_x25519 : mlkem → x25519Kx
  rsaPssOnly_rsa : rsaPssOnly → rsa
  rsa1024_rsa : rsa1024 → rsa
  rsa3072_rsa : rsa3072 → rsa
  rsa4096_rsa : rsa4096 → rsa
  usizeBits_mem : usizeBits = 16 ∨ usizeBits = 32 ∨ usizeBits = 64

/-- `cert-der`, `cipher-aes`, `x25519-kx` on a 64-bit target. -/
def Features.standard : Features where
  cipherAes := true
  chacha20 := false
  x25519Kx := true
  p256Kx := false
  mlkem := false
  rsa := false
  rsaPssOnly := false
  rsa1024 := false
  rsa3072 := false
  rsa4096 := false
  mldsa := false
  ecdsa := false
  ipHost := false
  usizeBits := 64
  some_cipher := .inl rfl
  some_kx := .inl rfl
  mlkem_x25519 := by simp
  rsaPssOnly_rsa := by simp
  rsa1024_rsa := by simp
  rsa3072_rsa := by simp
  rsa4096_rsa := by simp
  usizeBits_mem := .inr (.inr rfl)

theorem Features.sixteen_mem : 16 = 16 ∨ 16 = 32 ∨ 16 = 64 := .inl rfl

end KrabiTls
