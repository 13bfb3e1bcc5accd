import KrabiTls.Cert
import KrabiTls.Features
import KrabiTls.Lib.Except
import KrabiTls.Lib.Loop
import KrabiTls.Tlv

/-! The match of a hostname against a certificate's SubjectAltName. -/
namespace KrabiTls
open Lib

inductive IdentityError where
  | noSan
  | hostnameMismatch
  | malformedSan
  deriving DecidableEq, Repr

def dnsNameTag : UInt8 := tagCtxPrimitive 2
def ipAddressTag : UInt8 := tagCtxPrimitive 7

/-- Walk the entries with the given tag until one satisfies `p`. An undecodable TLV, or an
`iPAddress` of a length other than 4 or 16, ends the walk with an error. -/
def sanEntryLoop (usizeBits : Nat) (targetTag : UInt8) (p : Bytes → Bool) :
    Loop (Except IdentityError Unit) Bytes where
  body rest :=
    if rest = [] then .leave (.error .hostnameMismatch)
    else
      match readTlv usizeBits rest with
      | none => .leave (.error .malformedSan)
      | some t =>
          if t.tag ≠ targetTag then .again t.rest
          else if targetTag = ipAddressTag ∧ t.body.length ≠ 4 ∧ t.body.length ≠ 16 then
            .leave (.error .malformedSan)
          else if p t.body then .leave (.ok ())
          else .again t.rest
  variant rest := rest.length
  decreases s t h := by
    split at h
    · cases h
    · split at h
      · cases h
      · rename_i htlv
        have hlen := readTlv_rest_length htlv
        split at h
        · cases h; exact hlen
        · split at h
          · cases h
          · split at h
            · cases h
            · cases h; exact hlen

def isAsciiDigit (b : UInt8) : Bool := 0x30 ≤ b ∧ b ≤ 0x39

/-- `[`, a `:` anywhere, or digits and dots only with at least one dot. -/
def looksLikeIpLiteral (hostname : Bytes) : Bool :=
  hostname.head? = some 0x5B ∨ hostname.contains 0x3A ∨
    (hostname.all (fun b => b = 0x2E ∨ isAsciiDigit b) ∧ hostname.contains 0x2E)

def toAsciiLowercase (b : UInt8) : UInt8 :=
  if 0x41 ≤ b ∧ b ≤ 0x5A then b + 0x20 else b

def asciiEqIgnoreCase (a b : Bytes) : Bool :=
  a.map toAsciiLowercase = b.map toAsciiLowercase

def dnsNameMatches (pattern hostname : Bytes) : Bool :=
  if pattern.take 2 = [0x2A, 0x2E] then
    let suffix := pattern.drop 2
    if suffix = [] ∨ suffix.contains 0x2A then false
    else if hostname.length ≤ suffix.length + 1 then false
    else
      let splitAt := hostname.length - suffix.length
      let labelWithDot := hostname.take splitAt
      let label := labelWithDot.dropLast
      asciiEqIgnoreCase (hostname.drop splitAt) suffix ∧ labelWithDot.getLast? = some 0x2E ∧
        label ≠ [] ∧ ¬ label.contains 0x2E
  else if pattern.contains 0x2A then false
  else asciiEqIgnoreCase pattern hostname

/-! The standard library's address parser. -/

def hexDigit (b : UInt8) : Option Nat :=
  if isAsciiDigit b then some (b.toNat - 0x30)
  else if 0x61 ≤ b ∧ b ≤ 0x66 then some (b.toNat - 0x61 + 10)
  else if 0x41 ≤ b ∧ b ≤ 0x46 then some (b.toNat - 0x41 + 10)
  else none

def digit (radix : Nat) (b : UInt8) : Option Nat :=
  (hexDigit b).filter (· < radix)

/-- A number of at most `maxDigits` digits that does not exceed `max`. -/
def readNumber (radix maxDigits : Nat) (allowZeroPrefix : Bool) (max : Nat) (s : Bytes) :
    Option (Nat × Bytes) :=
  let digits := s.takeWhile fun b => (digit radix b).isSome
  let value := digits.foldl (fun acc b => acc * radix + (digit radix b).getD 0) 0
  if digits = [] ∨ digits.length > maxDigits ∨ value > max then none
  else if ¬ allowZeroPrefix ∧ digits.head? = some 0x30 ∧ digits.length > 1 then none
  else some (value, s.drop digits.length)

def readGivenChar (c : UInt8) : Bytes → Option Bytes
  | b :: rest => if b = c then some rest else none
  | [] => none

/-- In front of every item but the first stands the separator. -/
def readSeparator (sep : UInt8) (index : Nat) (s : Bytes) : Option Bytes :=
  if index > 0 then readGivenChar sep s else some s

def readIpv4Addr (s : Bytes) : Option (Bytes × Bytes) := do
  let (a, s) ← readNumber 10 3 false 255 s
  let (b, s) ← readNumber 10 3 false 255 (← readGivenChar 0x2E s)
  let (c, s) ← readNumber 10 3 false 255 (← readGivenChar 0x2E s)
  let (d, s) ← readNumber 10 3 false 255 (← readGivenChar 0x2E s)
  pure ([a, b, c, d].map UInt8.ofNat, s)

/-- Up to `left` groups from group `index` on: the octets read, whether an embedded IPv4 address
ended them, and the rest. -/
def readGroups : (left index : Nat) → Bytes → Bytes × Bool × Bytes
  | 0, _, s => ([], false, s)
  | left + 1, index, s =>
      match (if left > 0 then readSeparator 0x3A index s >>= readIpv4Addr else none) with
      | some (octets, rest) => (octets, true, rest)
      | none =>
          match readSeparator 0x3A index s >>= readNumber 16 4 true 0xFFFF with
          | none => ([], false, s)
          | some (group, rest) =>
              let (octets, ipv4, rest) := readGroups left (index + 1) rest
              (toBe 2 group ++ octets, ipv4, rest)

def readIpv6Addr (s : Bytes) : Option (Bytes × Bytes) :=
  let (head, headIpv4, rest) := readGroups 8 0 s
  if head.length = 16 then some (head, rest)
  else if headIpv4 then none
  else do
    let rest ← readGivenChar 0x3A (← readGivenChar 0x3A rest)
    let (tail, _, rest) := readGroups (8 - (head.length / 2 + 1)) 0 rest
    pure (head ++ List.replicate (16 - head.length - tail.length) 0 ++ tail, rest)

def parseIpv4 (s : Bytes) : Option Bytes :=
  if s.length > 15 then none
  else (readIpv4Addr s).bind fun (octets, rest) => if rest = [] then some octets else none

def parseIpv6 (s : Bytes) : Option Bytes :=
  (readIpv6Addr s).bind fun (octets, rest) => if rest = [] then some octets else none

/-- Strip one pair of brackets, if both are there. -/
def unbracket (hostname : Bytes) : Bytes :=
  if hostname.head? = some 0x5B ∧ hostname.length ≥ 2 ∧ hostname.getLast? = some 0x5D then
    (hostname.drop 1).dropLast
  else hostname

def verifyHostname (f : Features) (certView : CertView) (hostname : Bytes) :
    Except IdentityError Unit :=
  match certView.san with
  | none => .error .noSan
  | some san =>
      if looksLikeIpLiteral hostname then
        if f.ipHost then
          match parseIpv4 (unbracket hostname), parseIpv6 (unbracket hostname) with
          | some octets, _ => (sanEntryLoop f.usizeBits ipAddressTag (· = octets)).run san
          | none, some octets => (sanEntryLoop f.usizeBits ipAddressTag (· = octets)).run san
          | none, none => .error .hostnameMismatch
        else .error .hostnameMismatch
      else (sanEntryLoop f.usizeBits dnsNameTag (dnsNameMatches · hostname)).run san

end KrabiTls
