import KrabiTls.ClientHello
import KrabiTls.Dtls.Client
import KrabiTls.Dtls.Framing
import KrabiTls.Dtls.ServerHello

/-! The `ClientHello` flights. -/
namespace KrabiTls.Dtls
open Lib

def maxCidLen : Nat := 20

/-- The advertised `record_size_limit`: what a datagram holds behind the widest header and the tag. -/
def recordSizeLimit : Nat := maxDatagram - (1 + maxCidLen + 2 + 2) - aeadTagLen

inductive ClientHelloError where
  | bufferTooSmall
  | cidTooLong
  deriving DecidableEq, Repr

/-- A write position in a buffer. A write that does not fit leaves both alone and is remembered. -/
structure Cursor where
  buf : Bytes
  pos : Nat := 0
  overflow : Bool := false

namespace Cursor

def put (c : Cursor) (bytes : Bytes) : Cursor :=
  if c.pos + bytes.length ≤ c.buf.length then
    { c with buf := overwrite c.buf c.pos bytes, pos := c.pos + bytes.length }
  else { c with overflow := true }

def u8 (c : Cursor) (v : Nat) : Cursor := c.put (toBe 1 v)

def u16 (c : Cursor) (v : Nat) : Cursor := c.put (toBe 2 v)

def u16s (c : Cursor) (vs : List Nat) : Cursor := vs.foldl u16 c

def patchU16 (c : Cursor) (at' v : Nat) : Cursor :=
  if at' + 2 ≤ c.buf.length then { c with buf := overwrite c.buf at' (toBe 2 v) } else c

end Cursor

def helloFields (random : Block 32) (cipherSuite : Nat) (sessionId : Option (Block 32)) (c : Cursor) :
    Cursor :=
  let c := (c.u16 dtls12LegacyVersion).put random.val
  let c := match sessionId with
    | some id => (c.u8 legacySessionIdLen).put id.val
    | none => c.u8 0
  -- the legacy cookie is empty
  let c := c.u8 0
  let c := (c.u16 2).u16 cipherSuite
  (c.u8 1).u8 0

def signatureAlgorithms (f : Features) (c : Cursor) : Cursor :=
  let c := c.u16 extSignatureAlgorithms
  let extLenAt := c.pos
  let c := c.u16 0
  let listLenAt := c.pos
  let c := c.u16 0
  let start := c.pos
  let c := c.u16 sigSchemeEd25519
  let c := if f.ecdsa then (c.u16 sigSchemeEcdsaP256).u16 sigSchemeEcdsaP384 else c
  let c := if f.rsa then c.u16 sigSchemeRsaPssRsaeSha256 else c
  let listLen := c.pos - start
  (c.patchU16 listLenAt listLen).patchU16 extLenAt (listLen + 2)

def helloExtensions (f : Features) (x25519Pub : Block 32) (cookie clientCid : Option Bytes)
    (c : Cursor) : Cursor :=
  let c := ((c.u16s [extSupportedVersions, 3]).u8 2).u16 dtls13Version
  let c := c.u16s [extSupportedGroups, 4, 2, namedGroupX25519]
  let c := c.u16s [extRecordSizeLimit, 2, recordSizeLimit]
  let c := signatureAlgorithms f c
  let c := (c.u16s [extKeyShare, 2 + 2 + 2 + 32, 2 + 2 + 32, namedGroupX25519, 32]).put x25519Pub.val
  let c := match clientCid with
    | some cid => ((c.u16s [extConnectionId, 1 + cid.length]).u8 cid.length).put cid
    | none => c
  match cookie with
  | some cookie => (c.u16s [extCookie, 2 + cookie.length, cookie.length]).put cookie
  | none => c

/-- `write_client_hello`: the length of the body, and the output it is at the front of. A connection
id that is too long is refused whether or not an earlier field has overflowed. -/
def writeClientHello (f : Features) (random x25519Pub : Block 32) (cipherSuite : Nat)
    (sessionId : Option (Block 32)) (cookie clientCid : Option Bytes) (out : Bytes) :
    Except ClientHelloError (Nat × Bytes) := do
  let c := helloFields random cipherSuite sessionId { buf := out }
  let extLenAt := c.pos
  let c := c.u16 0
  let extStart := c.pos
  ensure (clientCid.all (·.length ≤ maxCidLen)) .cidTooLong
  let c := helloExtensions f x25519Pub cookie clientCid c
  let c := c.patchU16 extLenAt (c.pos - extStart)
  ensure (c.overflow = false) .bufferTooSmall
  pure (c.pos, c.buf)

variable {ε : Type}

/-- An unfragmented handshake message in an output of `outLen` bytes. -/
def writeHsMsg (outLen : Nat) (msgType : UInt8) (messageSeq : Nat) (body : Bytes) :
    Except (DtlsClientError ε) Bytes := do
  let header ← (HandshakeHeader.write ⟨msgType, body.length, messageSeq, 0, body.length⟩ outLen).mapError
    fun _ => .bufferTooSmall
  ensure (hsHeaderLen + body.length ≤ outLen) .bufferTooSmall
  pure (header ++ body)

/-- The record of a `ClientHello`, in a datagram buffer of `outLen` bytes. -/
def buildClientHelloRecord (body : Bytes) (messageSeq recordSeq outLen : Nat) :
    Except (DtlsClientError ε) Bytes := do
  let msg ← writeHsMsg (hsHeaderLen + 512) hsClientHello messageSeq body
  (PlaintextRecord.write ⟨ctHandshake, 0, recordSeq, msg⟩ outLen).mapError fun _ => .bufferTooSmall

end KrabiTls.Dtls
