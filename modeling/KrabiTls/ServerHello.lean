import KrabiTls.Features
import KrabiTls.Lib.Bytes
import KrabiTls.Lib.Except
import KrabiTls.Lib.Loop

/-! Parsing of the plaintext `ServerHello` record. -/
namespace KrabiTls
open Lib

inductive ParseError where
  | truncated
  | unexpectedContentType (contentType : UInt8)
  | unexpectedHandshakeType (hsType : UInt8)
  | unexpectedLegacyVersion (version : Nat)
  | unsupportedCipherSuite (suite : Nat)
  | unexpectedCompressionMethod (method : UInt8)
  | badSupportedVersions
  | badKeyShare
  | trailingBytes
  | lengthMismatch
  | unknownExtension (extType : Nat)
  | duplicateExtension (extType : Nat)
  | unexpectedSessionIdEcho
  | helloRetryRequested
  | downgradeDetected
  | dhAllZero
  deriving DecidableEq, Repr

/-- The unread rest of the input. -/
abbrev Reader := Bytes

namespace Reader

variable {r rest : Reader}

def take (r : Reader) (n : Nat) : Except ParseError (Bytes × Reader) :=
  if r.length < n then .error .truncated else .ok (List.take n r, r.drop n)

def u8 (r : Reader) : Except ParseError (UInt8 × Reader) := do
  let (b, r) ← take r 1
  pure (b.headD 0, r)

/-- A big-endian integer of `n` bytes. -/
def uint (r : Reader) (n : Nat) : Except ParseError (Nat × Reader) := do
  let (b, r) ← take r n
  pure (ofBe b, r)

/-- A byte vector behind a length prefix of `n` bytes. -/
def vec (r : Reader) (n : Nat) : Except ParseError (Bytes × Reader) := do
  let (len, r) ← uint r n
  take r len

theorem take_length {n : Nat} {b : Bytes} (h : take r n = .ok (b, rest)) :
    b.length = n ∧ r.length = n + rest.length := by
  unfold take at h
  split at h
  · cases h
  · cases h
    simp only [List.length_take, List.length_drop]
    omega

theorem uint_length {n v : Nat} (h : uint r n = .ok (v, rest)) : r.length = n + rest.length := by
  obtain ⟨⟨b, r'⟩, htake, hout⟩ := bind_eq_ok.mp h
  cases hout
  exact (take_length htake).2

theorem vec_length {n : Nat} {b : Bytes} (h : vec r n = .ok (b, rest)) :
    r.length = n + b.length + rest.length := by
  obtain ⟨⟨len, r'⟩, huint, htake⟩ := bind_eq_ok.mp h
  have hlen := uint_length huint
  have hb := take_length htake
  omega

end Reader

def namedGroupX25519 : Nat := 0x001D
def namedGroupSecp256r1 : Nat := 0x0017
def namedGroupX25519MlKem768 : Nat := 0x11EC

def extSupportedVersions : Nat := 43
def extKeyShare : Nat := 51

def mlkem768CtBytes : Nat := 1088
def p256ShareBytes : Nat := 65

def hrrRandom : Bytes :=
  [0xCF, 0x21, 0xAD, 0x74, 0xE5, 0x9A, 0x61, 0x11, 0xBE, 0x1D, 0x8C, 0x02, 0x1E, 0x65, 0xB8,
    0x91, 0xC2, 0xA2, 0x11, 0x16, 0x7A, 0xBB, 0x8C, 0x5E, 0x07, 0x9E, 0x09, 0xE2, 0xC8, 0xA8,
    0x33, 0x9C]

def downgradeTls12 : Bytes := [0x44, 0x4F, 0x57, 0x4E, 0x47, 0x52, 0x44, 0x01]
def downgradeTls11OrBelow : Bytes := [0x44, 0x4F, 0x57, 0x4E, 0x47, 0x52, 0x44, 0x00]

def Features.keyShareGroup (f : Features) : Nat :=
  if f.mlkem then namedGroupX25519MlKem768
  else if f.x25519Kx then namedGroupX25519
  else namedGroupSecp256r1

structure ServerHelloView where
  random : Bytes
  sessionIdEcho : Bytes
  cipherSuite : Nat
  selectedVersion : Nat
  selectedGroup : Nat
  x25519Share : Option Bytes
  hybridShare : Option Bytes
  p256Share : Option Bytes
  deriving DecidableEq, Repr

/-- What the extension walk has collected so far. -/
structure HelloExtensions where
  selectedVersion : Option Nat := none
  selectedGroup : Option Nat := none
  x25519Share : Option Bytes := none
  hybridShare : Option Bytes := none
  p256Share : Option Bytes := none
  deriving DecidableEq, Repr

/-- `key.try_into()` into an array of `n` bytes. -/
def shareOfLen (key : Bytes) (n : Nat) : Except ParseError Bytes :=
  if key.length = n then .ok key else .error .badKeyShare

/-- The share of one `KeyShareEntry`, by group. -/
def HelloExtensions.addShare (f : Features) (x : HelloExtensions) (group : Nat) (key : Bytes) :
    Except ParseError HelloExtensions :=
  if group = f.keyShareGroup then
    if f.mlkem then do
      if key.length < mlkem768CtBytes then throw .badKeyShare
      let point ← shareOfLen (key.drop mlkem768CtBytes) 32
      pure { x with x25519Share := some point, hybridShare := some key }
    else if f.x25519Kx then do
      let point ← shareOfLen key 32
      pure { x with x25519Share := some point }
    else do
      let point ← shareOfLen key p256ShareBytes
      pure { x with p256Share := some point }
  else if f.p256Kx ∧ f.x25519Kx ∧ group = namedGroupSecp256r1 then do
    let point ← shareOfLen key p256ShareBytes
    pure { x with p256Share := some point }
  else .error .badKeyShare

/-- One extension of the `ServerHello`. -/
def HelloExtensions.add (f : Features) (x : HelloExtensions) (extType : Nat) (extData : Bytes) :
    Except ParseError HelloExtensions :=
  if extType = extSupportedVersions then
    if x.selectedVersion.isSome then .error (.duplicateExtension extType)
    else if extData.length ≠ 2 then .error .badSupportedVersions
    else if ofBe extData ≠ tls13 then .error .badSupportedVersions
    else .ok { x with selectedVersion := some (ofBe extData) }
  else if extType = extKeyShare then
    if x.selectedGroup.isSome then .error (.duplicateExtension extType)
    else do
      let (group, kr) ← Reader.uint extData 2
      let (key, kr) ← Reader.vec kr 2
      if kr ≠ [] then throw .badKeyShare
      let x ← x.addShare f group key
      pure { x with selectedGroup := some group }
  else .error (.unknownExtension extType)

/-- The next extension of the block, `none` at its end. -/
def nextExtension (r : Reader) : Except ParseError (Option (Nat × Bytes × Reader)) :=
  if r = [] then .ok none
  else do
    let (extType, r) ← Reader.uint r 2
    let (extData, r) ← Reader.vec r 2
    pure (some (extType, extData, r))

theorem nextExtension_length {r rest : Reader} {extType : Nat} {extData : Bytes}
    (h : nextExtension r = .ok (some (extType, extData, rest))) :
    r.length = 4 + extData.length + rest.length := by
  unfold nextExtension at h
  split at h
  · cases h
  · obtain ⟨⟨t, r₁⟩, htype, h⟩ := bind_eq_ok.mp h
    obtain ⟨⟨d, r₂⟩, hdata, h⟩ := bind_eq_ok.mp h
    cases h
    have h₁ := Reader.uint_length htype
    have h₂ := Reader.vec_length hdata
    omega

/-- The walk over the extension block. -/
def helloExtensionLoop (f : Features) :
    Loop (Except ParseError HelloExtensions) (Reader × HelloExtensions) where
  body s :=
    match nextExtension s.1 with
    | .error e => .leave (.error e)
    | .ok none => .leave (.ok s.2)
    | .ok (some (extType, extData, rest)) =>
        match s.2.add f extType extData with
        | .error e => .leave (.error e)
        | .ok x => .again (rest, x)
  variant s := s.1.length
  decreases s t h := by
    split at h
    · cases h
    · cases h
    · rename_i hnext
      split at h
      · cases h
      · cases h
        have hlen := nextExtension_length hnext
        dsimp only
        omega

def parseServerHello (f : Features) (input : Bytes) : Except ParseError ServerHelloView := do
  let (contentType, r) ← Reader.u8 input
  if contentType ≠ ctHandshake then throw (.unexpectedContentType contentType)
  let (recordVersion, r) ← Reader.uint r 2
  if recordVersion ≠ legacyVersion then throw (.unexpectedLegacyVersion recordVersion)
  let (recordBody, r) ← Reader.vec r 2
  if r ≠ [] then throw .trailingBytes
  let (hsType, hr) ← Reader.u8 recordBody
  if hsType ≠ hsServerHello then throw (.unexpectedHandshakeType hsType)
  let (hsBody, hr) ← Reader.vec hr 3
  if hr ≠ [] then throw .lengthMismatch
  let (version, b) ← Reader.uint hsBody 2
  if version ≠ legacyVersion then throw (.unexpectedLegacyVersion version)
  let (random, b) ← Reader.take b 32
  if random = hrrRandom then throw .helloRetryRequested
  if random.drop 24 = downgradeTls12 ∨ random.drop 24 = downgradeTls11OrBelow then
    throw .downgradeDetected
  let (sessionIdEcho, b) ← Reader.vec b 1
  if sessionIdEcho.length > legacySessionIdLen then throw .unexpectedSessionIdEcho
  let (cipherSuite, b) ← Reader.uint b 2
  if ¬ (cipherSuite = cipherAes128GcmSha256 ∨
      f.chacha20 ∧ cipherSuite = cipherChaCha20Poly1305Sha256) then
    throw (.unsupportedCipherSuite cipherSuite)
  let (compression, b) ← Reader.u8 b
  if compression ≠ 0 then throw (.unexpectedCompressionMethod compression)
  let (extBody, b) ← Reader.vec b 2
  if b ≠ [] then throw .trailingBytes
  let x ← (helloExtensionLoop f).run (extBody, {})
  let some selectedGroup := x.selectedGroup | throw .badKeyShare
  if f.x25519Kx ∧ selectedGroup = f.keyShareGroup ∧ x.x25519Share = none then throw .badKeyShare
  if ¬ f.x25519Kx ∧ selectedGroup = f.keyShareGroup ∧ x.p256Share = none then throw .badKeyShare
  let some selectedVersion := x.selectedVersion | throw .badSupportedVersions
  pure {
    random, sessionIdEcho, cipherSuite, selectedVersion, selectedGroup
    x25519Share := x.x25519Share
    hybridShare := x.hybridShare
    p256Share := x.p256Share }

end KrabiTls
