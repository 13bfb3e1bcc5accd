import KrabiTls.ClientFlight
import KrabiTls.Lib.Writer
import KrabiTls.ServerHello

/-! The `ClientHello` sizer and writer. -/
namespace KrabiTls
open Lib

inductive ClientHelloError where
  | hostnameTooLong
  | messageTooLong
  | integerOverflow
  | recordSizeLimitOutOfRange
  | alpnNameLen
  | missingMlKemKeyShare
  | missingP256KeyShare
  | write
  deriving DecidableEq, Repr

inductive SuiteList where
  | default
  | aesOnly
  | chaChaOnly
  deriving DecidableEq, Repr

def hsClientHello : UInt8 := 1

def extServerName : Nat := 0
def extSupportedGroups : Nat := 10
def extAlpn : Nat := 16
def sniNameTypeHostName : UInt8 := 0
def mlkem768EkBytes : Nat := 1184

namespace Features
variable (f : Features)

/-- P-256 is offered behind the primary group. -/
def secondGroup : Bool := f.p256Kx && f.x25519Kx

def supportedGroupsCount : Nat := f.x25519Kx.toNat + f.p256Kx.toNat

def sigSchemeCount : Nat := 1 + f.rsa.toNat + 3 * f.mldsa.toNat + 2 * f.ecdsa.toNat

def primaryPubLen : Nat := if f.x25519Kx then 32 else p256ShareBytes

def keyShareKeyLen : Nat := if f.mlkem then mlkem768EkBytes + 32 else f.primaryPubLen

def p256KxEntryLen : Nat := if f.secondGroup then 4 + 65 else 0

def keyShareListLen : Nat := 4 + f.keyShareKeyLen + f.p256KxEntryLen

def cipherSuitesCount : Nat := f.cipherAes.toNat + f.chacha20.toNat

/-- `CH_EXTENSIONS_FIXED_TOTAL`: versions, groups, signature algorithms and key shares. -/
def extensionsFixedTotal : Nat :=
  (4 + 3) + (4 + 2 + 2 * f.supportedGroupsCount) + (4 + 2 + 2 * f.sigSchemeCount) +
    (4 + (2 + f.keyShareListLen))

def chScratch : Nat := if f.mlkem then 2048 else 768

end Features

structure ClientHelloOptions (f : Features) where
  hostname : Option Bytes
  recordSizeLimit : Option Nat
  sessionId : Option (Block 32)
  alpn : Option (List Bytes)
  suites : SuiteList
  mlkemEk : Option (Block mlkem768EkBytes)
  p256Pub : Option (Block p256ShareBytes)
  /-- the narrowed lists exist only with their feature -/
  suites_enabled : (suites = .aesOnly → f.cipherAes) ∧ (suites = .chaChaOnly → f.chacha20)

def sniExtTotal (hostnameLen : Nat) : Nat := 9 + hostnameLen

/-- The names of an ALPN list, each behind its length byte. -/
def alpnNamesLen (protocols : List Bytes) : Nat :=
  (protocols.map fun name => 1 + name.length).sum

def alpnExtTotal : Option (List Bytes) → Nat
  | none => 0
  | some protocols => 4 + 2 + alpnNamesLen protocols

namespace ClientHelloOptions
variable {f : Features} (opts : ClientHelloOptions f)

def nSuites : Nat :=
  match opts.suites with
  | .default => f.cipherSuitesCount
  | .aesOnly => 1
  | .chaChaOnly => 1

def extensionsTotal : Nat :=
  f.extensionsFixedTotal + (opts.hostname.elim 0 fun h => sniExtTotal h.length) +
    (if opts.recordSizeLimit.isSome then 4 + 2 else 0) + alpnExtTotal opts.alpn

def bodyLen : Nat :=
  2 + 32 + (1 + if opts.sessionId.isSome then legacySessionIdLen else 0) + (2 + 2 * opts.nSuites) +
    (1 + 1) + 2 + opts.extensionsTotal

/-- `client_hello_len_with`, in the target's `usize`. -/
def clientHelloLenWith : Nat := (5 + 4 + opts.bodyLen) % 2 ^ f.usizeBits

def advertiseChacha : Bool := f.chacha20 && (opts.suites != .aesOnly)

def advertiseAes : Bool := f.cipherAes && !(f.chacha20 && opts.suites == .chaChaOnly)

def offeredSuites : List Nat :=
  (if opts.advertiseChacha then [cipherChaCha20Poly1305Sha256] else []) ++
    if opts.advertiseAes then [cipherAes128GcmSha256] else []

end ClientHelloOptions

/-- `write_u24`: a length above 24 bits is refused. -/
def writeU24 (n : Nat) : Except ClientHelloError Bytes :=
  if n > 0xFFFFFF then .error .integerOverflow else .ok (toBe 3 n)

namespace ClientHelloOptions
variable {f : Features} (random : Block 32) (primaryPub : Block f.primaryPubLen)
  (opts : ClientHelloOptions f)

def helloFields : Bytes :=
  toBe 2 legacyVersion ++ random.val ++
    (match opts.sessionId with
      | none => [0]
      | some id => toBe 1 legacySessionIdLen ++ id.val) ++
    toBe 2 (2 * opts.nSuites) ++
    (if opts.advertiseChacha then toBe 2 cipherChaCha20Poly1305Sha256 else []) ++
    (if opts.advertiseAes then toBe 2 cipherAes128GcmSha256 else []) ++ [1, 0]

variable (f) in
/-- `supported_versions`, `supported_groups` and `signature_algorithms`. -/
def fixedExtensions : Bytes :=
  toBe 2 extSupportedVersions ++ toBe 2 3 ++ [2] ++ toBe 2 tls13 ++
    toBe 2 extSupportedGroups ++ toBe 2 (2 + 2 * f.supportedGroupsCount) ++
    toBe 2 (2 * f.supportedGroupsCount) ++ toBe 2 f.keyShareGroup ++
    (if f.secondGroup then toBe 2 namedGroupSecp256r1 else []) ++
    toBe 2 extSignatureAlgorithms ++ toBe 2 (2 + 2 * f.sigSchemeCount) ++
    toBe 2 (2 * f.sigSchemeCount) ++ toBe 2 sigSchemeEd25519 ++
    (if f.ecdsa then toBe 2 sigSchemeEcdsaP256 ++ toBe 2 sigSchemeEcdsaP384 else []) ++
    (if f.rsa then toBe 2 sigSchemeRsaPssRsaeSha256 else []) ++
    (if f.mldsa then toBe 2 sigSchemeMlDsa44 ++ toBe 2 sigSchemeMlDsa65 ++ toBe 2 sigSchemeMlDsa87
      else [])

def serverName (hostname : Bytes) : Bytes :=
  toBe 2 extServerName ++ toBe 2 (2 + (1 + 2 + hostname.length)) ++
    toBe 2 (1 + 2 + hostname.length) ++ [sniNameTypeHostName] ++ toBe 2 hostname.length ++ hostname

def recordSizeLimitExt (value : Nat) : Bytes :=
  toBe 2 extRecordSizeLimit ++ toBe 2 2 ++ toBe 2 value

def alpnNames (protocols : List Bytes) : Bytes :=
  (protocols.map fun name => toBe 1 name.length ++ name).flatten

def alpnExt (protocols : List Bytes) : Bytes :=
  toBe 2 extAlpn ++ toBe 2 (2 + alpnNamesLen protocols) ++ toBe 2 (alpnNamesLen protocols) ++
    alpnNames protocols

/-- The key shares: under `mlkem` the encapsulation key stands in front of the X25519 point. -/
def keyShareWrites : List (Except ClientHelloError Bytes) :=
  [.ok (toBe 2 extKeyShare ++ toBe 2 (2 + f.keyShareListLen) ++ toBe 2 f.keyShareListLen ++
    toBe 2 f.keyShareGroup ++ toBe 2 f.keyShareKeyLen)] ++
  (if f.mlkem then [opts.mlkemEk.elim (.error .missingMlKemKeyShare) (.ok ·.val)] else []) ++
  [.ok primaryPub.val] ++
  (if f.secondGroup then
    [.ok (toBe 2 namedGroupSecp256r1 ++ toBe 2 p256ShareBytes),
      opts.p256Pub.elim (.error .missingP256KeyShare) (.ok ·.val)]
  else [])

def bodyWrites : List (Except ClientHelloError Bytes) :=
  [.ok (opts.helloFields random ++ toBe 2 opts.extensionsTotal ++ fixedExtensions f ++
    opts.hostname.elim [] serverName ++ opts.recordSizeLimit.elim [] recordSizeLimitExt ++
    opts.alpn.elim [] alpnExt)] ++
  opts.keyShareWrites primaryPub

/-- Everything the writer emits: the record header, the handshake header, the body. -/
def writes : List (Except ClientHelloError Bytes) :=
  .ok ([ctHandshake] ++ toBe 2 legacyVersion ++ toBe 2 (4 + opts.bodyLen) ++ [hsClientHello]) ::
    writeU24 (opts.bodyLen % 2 ^ f.usizeBits % 2 ^ 32) :: opts.bodyWrites random primaryPub

end ClientHelloOptions

/-- `write_client_hello_with` into a writer with room for `room` bytes: the length it reports, and
the bytes written. -/
def writeClientHelloWith {f : Features} (room : Nat) (random : Block 32)
    (primaryPub : Block f.primaryPubLen) (opts : ClientHelloOptions f) :
    Except ClientHelloError (Nat × Bytes) := do
  ensure ((opts.hostname.getD []).length ≤ 0xFFFF) .hostnameTooLong
  ensure (opts.recordSizeLimit.all fun limit => 64 ≤ limit ∧ limit ≤ 16385)
    .recordSizeLimitOutOfRange
  ensure (opts.alpn.all fun protocols =>
    protocols ≠ [] ∧ protocols.all fun name => name ≠ [] ∧ name.length ≤ 255) .alpnNameLen
  ensure (opts.clientHelloLenWith ≤ 5 + tlsPlaintextMax) .messageTooLong
  let out ← writeAll .write room (opts.writes random primaryPub)
  pure (opts.clientHelloLenWith, out)

namespace ClientHelloOptions
variable {f : Features} {opts : ClientHelloOptions f}

theorem helloFields_length (random : Block 32) :
    (opts.helloFields random).length =
      2 + 32 + (1 + if opts.sessionId.isSome then legacySessionIdLen else 0) + (2 + 2 * opts.nSuites) +
        (1 + 1) := by
  have hrandom := random.property
  have hsession : (match opts.sessionId with
      | none => [0]
      | some id => toBe 1 legacySessionIdLen ++ id.val).length =
      1 + if opts.sessionId.isSome then legacySessionIdLen else 0 := by
    cases opts.sessionId with
    | none => rfl
    | some id => simp [id.property, legacySessionIdLen]
  have hsuites : (if opts.advertiseChacha then toBe 2 cipherChaCha20Poly1305Sha256 else []).length +
      (if opts.advertiseAes then toBe 2 cipherAes128GcmSha256 else []).length = 2 * opts.nSuites := by
    obtain ⟨haes, hchacha⟩ := opts.suites_enabled
    have hsome := f.some_cipher
    unfold advertiseChacha advertiseAes nSuites Features.cipherSuitesCount
    revert haes hchacha hsome
    cases opts.suites <;> cases f.cipherAes <;> cases f.chacha20 <;> simp
  simp only [helloFields, List.length_append, toBe_length, hrandom, hsession, List.length_cons,
    List.length_nil]
  omega

theorem fixedExtensions_length :
    (fixedExtensions f).length =
      (4 + 3) + (4 + 2 + 2 * f.supportedGroupsCount) + (4 + 2 + 2 * f.sigSchemeCount) := by
  have hgroups : (if f.secondGroup then toBe 2 namedGroupSecp256r1 else []).length + 2 =
      2 * f.supportedGroupsCount := by
    have hsome := f.some_kx
    unfold Features.secondGroup Features.supportedGroupsCount
    revert hsome
    cases f.p256Kx <;> cases f.x25519Kx <;> simp
  have hecdsa : (if f.ecdsa then toBe 2 sigSchemeEcdsaP256 ++ toBe 2 sigSchemeEcdsaP384
      else []).length = 4 * f.ecdsa.toNat := by
    cases f.ecdsa <;> simp
  have hrsa : (if f.rsa then toBe 2 sigSchemeRsaPssRsaeSha256 else []).length = 2 * f.rsa.toNat := by
    cases f.rsa <;> simp
  have hmldsa : (if f.mldsa then toBe 2 sigSchemeMlDsa44 ++ toBe 2 sigSchemeMlDsa65 ++
      toBe 2 sigSchemeMlDsa87 else []).length = 6 * f.mldsa.toNat := by
    cases f.mldsa <;> simp
  simp only [fixedExtensions, List.length_append, toBe_length, hecdsa, hrsa, hmldsa, List.length_cons,
    List.length_nil, Features.sigSchemeCount]
  omega

theorem alpnNames_length (protocols : List Bytes) :
    (alpnNames protocols).length = alpnNamesLen protocols := by
  simp [alpnNames, alpnNamesLen, Function.comp_def]

theorem optionalExtensions_length :
    (opts.hostname.elim [] serverName).length + (opts.recordSizeLimit.elim [] recordSizeLimitExt).length +
      (opts.alpn.elim [] alpnExt).length =
    (opts.hostname.elim 0 fun h => sniExtTotal h.length) +
      (if opts.recordSizeLimit.isSome then 4 + 2 else 0) + alpnExtTotal opts.alpn := by
  have hname : (opts.hostname.elim [] serverName).length =
      opts.hostname.elim 0 fun h => sniExtTotal h.length := by
    cases opts.hostname with
    | none => rfl
    | some h =>
      simp only [Option.elim_some, serverName, sniExtTotal, List.length_append, toBe_length,
        List.length_cons, List.length_nil]
  have hlimit : (opts.recordSizeLimit.elim [] recordSizeLimitExt).length =
      if opts.recordSizeLimit.isSome then 4 + 2 else 0 := by
    cases opts.recordSizeLimit <;> simp [recordSizeLimitExt]
  have halpn : (opts.alpn.elim [] alpnExt).length = alpnExtTotal opts.alpn := by
    cases opts.alpn with
    | none => rfl
    | some protocols =>
      simp only [Option.elim_some, alpnExt, alpnExtTotal, List.length_append, toBe_length,
        alpnNames_length]
  rw [hname, hlimit, halpn]

theorem keyShareWrites_length {primaryPub : Block f.primaryPubLen} {written : List Bytes}
    (h : opts.keyShareWrites primaryPub = written.map .ok) :
    written.flatten.length = 4 + (2 + f.keyShareListLen) := by
  have hok : ∀ w ∈ opts.keyShareWrites primaryPub, ∃ b, w = .ok b := by
    rw [h]
    simp
  -- a share the build needs and does not get is an error among the writes
  have hek : f.mlkem → ∃ ek, opts.mlkemEk = some ek := by
    intro hmlkem
    obtain ⟨b, hb⟩ := hok (opts.mlkemEk.elim (.error .missingMlKemKeyShare) (.ok ·.val))
      (by simp [keyShareWrites, hmlkem])
    cases hshare : opts.mlkemEk with
    | none => simp [hshare] at hb
    | some ek => exact ⟨ek, rfl⟩
  have hpoint : f.secondGroup → ∃ point, opts.p256Pub = some point := by
    intro hsecond
    obtain ⟨b, hb⟩ := hok (opts.p256Pub.elim (.error .missingP256KeyShare) (.ok ·.val))
      (by simp [keyShareWrites, hsecond])
    cases hshare : opts.p256Pub with
    | none => simp [hshare] at hb
    | some point => exact ⟨point, rfl⟩
  have hekSize : ((if f.mlkem then
      [opts.mlkemEk.elim (.error ClientHelloError.missingMlKemKeyShare) (.ok ·.val)]
      else []).map writeSize).sum + f.primaryPubLen = f.keyShareKeyLen := by
    unfold Features.keyShareKeyLen
    split
    · rename_i hmlkem
      obtain ⟨ek, hek⟩ := hek hmlkem
      simp [hek, ek.property, Features.primaryPubLen, f.mlkem_x25519 hmlkem]
    · simp
  have hpointSize : ((if f.secondGroup then [.ok (toBe 2 namedGroupSecp256r1 ++ toBe 2 p256ShareBytes),
      opts.p256Pub.elim (.error ClientHelloError.missingP256KeyShare) (.ok ·.val)]
      else []).map writeSize).sum = f.p256KxEntryLen := by
    unfold Features.p256KxEntryLen
    split
    · rename_i hsecond
      obtain ⟨point, hpoint⟩ := hpoint hsecond
      simp only [hpoint, Option.elim_some, List.map_cons, List.map_nil, List.sum_cons, List.sum_nil,
        writeSize_ok, List.length_append, toBe_length, point.property]
      rfl
    · rfl
  rw [length_flatten_of_writes h]
  simp only [keyShareWrites, List.map_append, List.sum_append, hpointSize, List.map_cons,
    List.map_nil, List.sum_cons, List.sum_nil, writeSize_ok, List.length_append, toBe_length,
    primaryPub.property, Features.keyShareListLen]
  omega

theorem bodyWrites_length {random : Block 32} {primaryPub : Block f.primaryPubLen}
    {written : List Bytes} (h : opts.bodyWrites random primaryPub = written.map .ok) :
    written.flatten.length = opts.bodyLen := by
  obtain ⟨front, written, rfl, hfront, hshares⟩ := List.map_eq_append_iff.mp h.symm
  obtain ⟨fields, front, rfl, hfields, hnil⟩ := List.map_eq_cons_iff.mp hfront
  obtain rfl := List.map_eq_nil_iff.mp hnil
  cases hfields
  have hshareLen := keyShareWrites_length hshares.symm
  have hfieldsLen := opts.helloFields_length random
  have hfixed := fixedExtensions_length (f := f)
  have hoptional := opts.optionalExtensions_length
  simp only [List.flatten_append, List.flatten_cons, List.flatten_nil, List.append_nil,
    List.length_append, hshareLen, hfieldsLen, hfixed, toBe_length, bodyLen, extensionsTotal,
    Features.extensionsFixedTotal]
  omega

end ClientHelloOptions

/-- A record header, then one handshake message: the shape of a plaintext hello on the wire. -/
def helloRecord (msgType : UInt8) (body : Bytes) : Bytes :=
  [ctHandshake] ++ toBe 2 legacyVersion ++ toBe 2 (4 + body.length) ++ hsMessage msgType body

theorem helloRecord_length (msgType : UInt8) (body : Bytes) :
    (helloRecord msgType body).length = 5 + 4 + body.length := by
  simp only [helloRecord, hsMessage, List.length_append, List.length_cons, List.length_nil, toBe_length]
  omega

theorem TranscriptHash.updateRecord_helloRecord (t : TranscriptHash) (msgType : UInt8) {body : Bytes}
    (hlen : 4 + body.length < 2 ^ 16) :
    t.updateRecord (helloRecord msgType body) = .ok (t.update (hsMessage msgType body)) := by
  have hlength := helloRecord_length msgType body
  have hmsg : (hsMessage msgType body).length = 4 + body.length := by
    simp only [hsMessage, List.length_append, List.length_cons, toBe_length]
  have hfront : slice (helloRecord msgType body) 3 5 = toBe 2 (4 + body.length) := rfl
  have hrest : (helloRecord msgType body).drop 5 = hsMessage msgType body := rfl
  have hvalue : ofBe (toBe 2 (4 + body.length)) = 4 + body.length := by
    rw [ofBe_toBe]
    exact Nat.mod_eq_of_lt hlen
  unfold updateRecord
  rw [if_neg (by omega), hfront, hvalue]
  dsimp only
  rw [if_neg (by omega), slice, hrest, List.take_of_length_le (by omega)]

/-- What a writer with less than 2^16 bytes of room was given is one `ClientHello` record, and its
length is the one reported. -/
theorem writeClientHelloWith_eq_ok {f : Features} {room n : Nat} {random : Block 32}
    {primaryPub : Block f.primaryPubLen} {opts : ClientHelloOptions f} {out : Bytes}
    (hroom : room < 2 ^ 16)
    (h : writeClientHelloWith room random primaryPub opts = .ok (n, out)) :
    n = out.length ∧ out.length ≤ room ∧
      ∃ body, out = helloRecord hsClientHello body ∧ 5 + 4 + body.length = out.length := by
  simp only [writeClientHelloWith, bind_eq_ok] at h
  obtain ⟨_, -, _, -, _, -, _, -, out', hwrites, hout⟩ := h
  cases hout
  obtain ⟨written, hmap, rfl, hfits⟩ := writeAll_eq_ok.mp hwrites
  obtain ⟨header, written, rfl, hheader, hrest⟩ := List.map_eq_cons_iff.mp hmap.symm
  obtain ⟨len, written, rfl, hlen, hbody⟩ := List.map_eq_cons_iff.mp hrest
  cases hheader
  have hbodyLen := opts.bodyWrites_length hbody.symm
  have husize : 2 ^ 16 ≤ 2 ^ f.usizeBits := by
    rcases f.usizeBits_mem with h | h | h <;> rw [h] <;> decide
  have htotal : opts.bodyLen < 2 ^ 16 := by
    simp only [List.flatten_cons, List.length_append] at hfits
    omega
  have hu32 : opts.bodyLen % 2 ^ f.usizeBits % 2 ^ 32 = opts.bodyLen := by
    rw [Nat.mod_eq_of_lt (a := opts.bodyLen) (by omega)]
    exact Nat.mod_eq_of_lt (by omega)
  rw [hu32, writeU24, if_neg (by omega)] at hlen
  cases hlen
  have hrecord : (([ctHandshake] ++ toBe 2 legacyVersion ++ toBe 2 (4 + opts.bodyLen) ++
      [hsClientHello]) :: toBe 3 opts.bodyLen :: written).flatten =
      helloRecord hsClientHello written.flatten := by
    simp [helloRecord, hsMessage, hbodyLen]
  rw [hrecord] at hfits ⊢
  have hlength := helloRecord_length hsClientHello written.flatten
  refine ⟨?_, hfits, written.flatten, rfl, hlength.symm⟩
  rw [hlength, hbodyLen, ClientHelloOptions.clientHelloLenWith]
  exact Nat.mod_eq_of_lt (by omega)

end KrabiTls
