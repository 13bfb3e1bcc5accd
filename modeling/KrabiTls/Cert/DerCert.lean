import KrabiTls.Cert.Spki
import KrabiTls.Lib.Loop

/-! The certificate parser on top of the `der` crate (`der_cert.rs`). The crate is a parameter. -/
namespace KrabiTls
open Lib

inductive DerTag where
  | boolean
  | integer
  | bitString
  | octetString
  | null
  | sequence
  | contextSpecific (constructed : Bool) (number : Nat)
  | other (tag : UInt8)
  deriving DecidableEq, Repr

structure AnyRef where
  tag : DerTag
  value : Bytes
  deriving DecidableEq, Repr

/-- The functions of the `der` crate that are used. A reader is the input that is left; what a
function leaves is shorter than what it was given. -/
structure DerCrate where
  /-- the check of `SliceReader::new` on the input's length -/
  readerOk : Bytes → Bool
  peek : Bytes → Option DerTag
  /-- `AnyRef::decode` -/
  any : Bytes → Option (AnyRef × Bytes)
  /-- `AnyRef::try_from`: one value that is the whole input -/
  anyFrom : Bytes → Option AnyRef
  tlvBytes : Bytes → Option (Bytes × Bytes)
  /-- `BitStringRef::decode`: the number of unused bits, the content -/
  bitString : Bytes → Option (Nat × Bytes × Bytes)
  /-- `ObjectIdentifier::decode`: the encoded arcs -/
  oid : Bytes → Option (Bytes × Bytes)
  any_rest : ∀ {r v rest}, any r = some (v, rest) → rest.length < r.length
  tlvBytes_rest : ∀ {r tlv rest}, tlvBytes r = some (tlv, rest) → rest.length < r.length

/-- A crate that decodes nothing, for the builds without it. -/
def DerCrate.absent : DerCrate where
  readerOk _ := false
  peek _ := none
  any _ := none
  anyFrom _ := none
  tlvBytes _ := none
  bitString _ := none
  oid _ := none
  any_rest := nofun
  tlvBytes_rest := nofun

namespace DerCert

variable (d : DerCrate)

/-- Every error of the crate is reported as malformed. -/
def mapErr {α : Type} : Option α → Except CertParseError α
  | none => .error .malformed
  | some a => .ok a

/-- `SliceReader::new`. -/
def reader (bytes : Bytes) : Except CertParseError Bytes := do
  ensure (d.readerOk bytes) .malformed
  pure bytes

/-- A value that must have the given tag and be the whole input; the result is a reader of its
content. -/
def readSequence (bytes : Bytes) : Except CertParseError Bytes := do
  let any ← mapErr (d.anyFrom bytes)
  ensure (any.tag = .sequence) .malformed
  reader d any.value

structure Extension where
  oid : Bytes
  value : Bytes

/-- `critical BOOLEAN DEFAULT FALSE` is skipped. -/
def skipCritical (extR : Bytes) : Except CertParseError Bytes := do
  let tag ← mapErr (d.peek extR)
  if tag = .boolean then (mapErr (d.tlvBytes extR)).map Prod.snd else .ok extR

/-- The next `Extension` of an `Extensions` block, and what follows it. -/
def takeExtension (extsR : Bytes) : Except CertParseError (Extension × Bytes) := do
  let (ext, rest) ← mapErr (d.any extsR)
  ensure (ext.tag = .sequence) .malformed
  let extR ← reader d ext.value
  let (oid, extR) ← mapErr (d.oid extR)
  let extR ← skipCritical d extR
  let (value, _) ← mapErr (d.any extR)
  ensure (value.tag = .octetString) .malformed
  pure (⟨oid, value.value⟩, rest)

theorem mapErr_eq_ok {α : Type} {o : Option α} {a : α} : mapErr o = .ok a ↔ o = some a := by
  cases o <;> simp [mapErr]

theorem takeExtension_rest_length {extsR rest : Bytes} {ext : Extension}
    (h : takeExtension d extsR = .ok (ext, rest)) : rest.length < extsR.length := by
  simp only [takeExtension, bind_eq_ok, mapErr_eq_ok] at h
  obtain ⟨⟨v, rest'⟩, hany, _, _, _, _, ⟨_, _⟩, _, _, _, ⟨_, _⟩, _, _, _, hout⟩ := h
  cases hout
  exact d.any_rest hany

/-- The walk over the `Extensions` for the SubjectAltName. -/
def sanLoop : Loop (Except CertParseError (Option Bytes)) Bytes where
  body extsR :=
    if extsR = [] then .leave (.ok none)
    else
      match takeExtension d extsR with
      | .error e => .leave (.error e)
      | .ok (ext, rest) =>
          if ext.oid = sanOid then
            .leave do
              let san ← mapErr (d.anyFrom ext.value)
              ensure (san.tag = .sequence) .malformed
              pure (some san.value)
          else .again rest
  variant extsR := extsR.length
  decreases s t h := by
    split at h
    · cases h
    · split at h
      · cases h
      · rename_i hext
        split at h
        · cases h
        · cases h
          exact takeExtension_rest_length d hext

/-- `walk_extensions_for_san`: the fields behind the key, up to the `Extensions` block. -/
def walkExtensionsForSan : Loop (Except CertParseError (Option Bytes)) Bytes where
  body tbsR :=
    if tbsR = [] then .leave (.ok none)
    else
      match mapErr (d.peek tbsR) with
      | .error e => .leave (.error e)
      | .ok (.contextSpecific true 3) =>
          .leave do
            let (extsExplicit, _) ← mapErr (d.any tbsR)
            let extsR ← readSequence d extsExplicit.value
            (sanLoop d).run extsR
      | .ok _ =>
          -- unique identifiers, and unknown trailing fields
          match d.tlvBytes tbsR with
          | none => .leave (.error .malformed)
          | some (_, rest) => .again rest
  variant tbsR := tbsR.length
  decreases s t h := by
    split at h
    · cases h
    · split at h
      · cases h
      · cases h
      · split at h
        · cases h
        · rename_i htlv
          cases h
          exact d.tlvBytes_rest htlv

def requireExplicitNullParams (r : Bytes) : Except CertParseError Unit := do
  ensure (r ≠ []) .algorithmHasParameters
  let (any, rest) ← mapErr (d.any r)
  ensure (any.tag = .null ∧ any.value = []) .algorithmHasParameters
  ensure (rest = []) .algorithmHasParameters

def classifySpkiAlgorithm (f : Features) (algIdBytes : Bytes) : Except CertParseError SpkiKind := do
  let r ← readSequence d algIdBytes
  let (oid, rest) ← mapErr (d.oid r)
  SpkiKind.ofOid f oid rest (requireExplicitNullParams d rest) do
    let (curve, rest) ← mapErr (d.oid rest)
    ensure (rest = []) .algorithmHasParameters
    pure curve

def classifyRsaOuterSigAlg (f : Features) (algIdBytes : Bytes) :
    Except CertParseError (Option RsaCertSigAlg) := do
  let r ← readSequence d algIdBytes
  let (oid, rest) ← mapErr (d.oid r)
  if ¬ f.rsaPssOnly ∧ oid = sha256WithRsaOid then do
    requireExplicitNullParams d rest
    pure (some .pkcs1v15Sha256)
  else if oid = rsassaPssOid then do
    if rest ≠ [] then do
      let (_, rest) ← mapErr (d.any rest)
      ensure (rest = []) .malformed
      pure (some .pssSha256)
    else pure (some .pssSha256)
  else pure none

/-- An INTEGER of an `RSAPublicKey`, and what follows it. -/
def takeRsaInteger (r : Bytes) : Except CertParseError (Bytes × Bytes) := do
  let (any, rest) ← (mapErr (d.any r)).mapError fun _ => .badRsaPubkey
  ensure (any.tag = .integer) .badRsaPubkey
  pure (any.value, rest)

def parseRsaPubkey (f : Features) (bitString : Bytes) : Except CertParseError (Bytes × Nat) := do
  let r ← (readSequence d bitString).mapError fun _ => .badRsaPubkey
  let (modulusRaw, r) ← takeRsaInteger d r
  let modulus ← rsaModulus f modulusRaw
  let (exponentRaw, r) ← takeRsaInteger d r
  let exponent ← rsaExponent exponentRaw
  ensure (r = []) .badRsaPubkey
  pure (modulus, exponent)

/-- A BIT STRING that is the last thing in its reader. -/
def lastBitString (r : Bytes) : Except CertParseError Bytes := do
  let (unused, content, rest) ← mapErr (d.bitString r)
  ensure (rest = []) .trailingBytes
  ensure (unused = 0) .bitStringHasUnusedBits
  pure content

/-- The version field: this client takes version 3 certificates only. -/
def takeVersion (tbsR : Bytes) : Except CertParseError Bytes := do
  let firstTag ← mapErr (d.peek tbsR)
  ensure (firstTag = .contextSpecific true 0) .unsupportedCertVersion
  let (version, rest) ← mapErr (d.any tbsR)
  let vr ← reader d version.value
  let (int, vrRest) ← mapErr (d.any vr)
  ensure (int.tag = .integer ∧ int.value.length = 1) .malformed
  ensure (int.value.headD 0 = x509V3) .unsupportedCertVersion
  ensure (vrRest = []) .malformed
  pure rest

/-- The `TBSCertificate`, from the version on. -/
def tbsParts (tbs outerSigAlg signature tbsR : Bytes) : Except CertParseError CertParts := do
  let tbsR ← takeVersion d tbsR
  let (_, tbsR) ← mapErr (d.tlvBytes tbsR)
  let (tbsSigAlg, tbsR) ← mapErr (d.tlvBytes tbsR)
  ensure (tbsSigAlg = outerSigAlg) .signatureAlgorithmMismatch
  let (_, tbsR) ← mapErr (d.tlvBytes tbsR)
  let (validityDer, tbsR) ← mapErr (d.tlvBytes tbsR)
  let (_, tbsR) ← mapErr (d.tlvBytes tbsR)
  let (spki, tbsR) ← mapErr (d.tlvBytes tbsR)
  let spkiR ← readSequence d spki
  let (spkiAlg, spkiR) ← mapErr (d.tlvBytes spkiR)
  let pk ← lastBitString d spkiR
  let san ← (walkExtensionsForSan d).run tbsR
  pure { tbs, outerSigAlg, signature, validityDer, spkiAlg, pk, san }

/-- `parse` up to the classification of the key. -/
def parts (certDer : Bytes) : Except CertParseError CertParts := do
  let body ← readSequence d certDer
  let (tbs, body) ← mapErr (d.tlvBytes body)
  let (outerSigAlg, body) ← mapErr (d.tlvBytes body)
  let signature ← lastBitString d body
  let tbsR ← readSequence d tbs
  tbsParts d tbs outerSigAlg signature tbsR

def spkiParser (f : Features) : SpkiParser where
  classifySpkiAlgorithm := classifySpkiAlgorithm d f
  classifyRsaOuterSigAlg := classifyRsaOuterSigAlg d f
  parseRsaPubkey := parseRsaPubkey d f

def parse (f : Features) (certDer : Bytes) : Except CertParseError CertView := do
  let parts ← parts d certDer
  parts.view f (spkiParser d f)

/-! Issuer eligibility and the key to pin. -/

/-- `for _ in 0..n { tlv_bytes()? }`. -/
def skipTlvs : Nat → Bytes → Except CertParseError Bytes
  | 0, tbsR => .ok tbsR
  | n + 1, tbsR => do
      let (_, tbsR) ← mapErr (d.tlvBytes tbsR)
      skipTlvs n tbsR

/-- The fields of the TBSCertificate behind the optional version. -/
def tbsFields (certDer : Bytes) : Except CertParseError Bytes := do
  let body ← readSequence d certDer
  let (tbs, _) ← mapErr (d.tlvBytes body)
  let tbsR ← readSequence d tbs
  let tag ← mapErr (d.peek tbsR)
  if tag = .contextSpecific true 0 then (mapErr (d.tlvBytes tbsR)).map Prod.snd else .ok tbsR

def spkiDer (certDer : Bytes) : Except CertParseError Bytes := do
  let tbsR ← tbsFields d certDer
  -- serial, signature, issuer, validity, subject
  let tbsR ← skipTlvs d 5 tbsR
  let (spki, _) ← mapErr (d.tlvBytes tbsR)
  pure spki

def extensionsReader (certDer : Bytes) : Except CertParseError Bytes := do
  let tbsR ← tbsFields d certDer
  skipTlvs d 6 tbsR

/-- `critical BOOLEAN DEFAULT FALSE`, and what follows it. -/
def takeCritical (extR : Bytes) : Except CertParseError (Bool × Bytes) := do
  let tag ← mapErr (d.peek extR)
  if tag = .boolean then (mapErr (d.any extR)).map fun (b, rest) => (derTrue b.value, rest)
  else .ok (false, extR)

/-- The INTEGER of a BasicConstraints, if it is next. -/
def takePathLen (r : Bytes) : Except CertParseError (Option UInt32) :=
  if r = [] then .ok none
  else do
    let tag ← mapErr (d.peek r)
    if tag = .integer then do
      let (int, _) ← mapErr (d.any r)
      let pathLen ← intToU32 int.value
      pure (some pathLen)
    else pure none

/-- A field the extension does not have is left as it is. -/
def parseBasicConstraints (out : CaConstraints) (bytes : Bytes) :
    Except CertParseError CaConstraints := do
  let body ← readSequence d bytes
  let (isCa, r) ← if body = [] then .ok (out.isCa, []) else do
    let tag ← mapErr (d.peek body)
    if tag = .boolean then (mapErr (d.any body)).map fun (b, rest) => (derTrue b.value, rest)
    else .ok (out.isCa, body)
  let pathLen ← takePathLen d r
  pure { out with isCa, pathLen := pathLen <|> out.pathLen }

def keyUsageCertSign (bytes : Bytes) : Except CertParseError Bool := do
  let bs ← mapErr (d.anyFrom bytes)
  ensure (bs.tag = .bitString) .malformed
  pure (keyCertSignBit bs.value)

/-- One extension: what it makes of the constraints, and what follows it. -/
def takeCaExtension (out : CaConstraints) (extsR : Bytes) :
    Except CertParseError (CaConstraints × Bytes) := do
  let (ext, rest) ← mapErr (d.any extsR)
  ensure (ext.tag = .sequence) .malformed
  let extR ← reader d ext.value
  let (oid, extR) ← mapErr (d.oid extR)
  let (critical, extR) ← takeCritical d extR
  let (value, _) ← mapErr (d.any extR)
  ensure (value.tag = .octetString) .malformed
  let out ← out.extend oid value.value critical (parseBasicConstraints d) (keyUsageCertSign d)
  pure (out, rest)

theorem takeCaExtension_rest_length {out out' : CaConstraints} {extsR rest : Bytes}
    (h : takeCaExtension d out extsR = .ok (out', rest)) : rest.length < extsR.length := by
  simp only [takeCaExtension, bind_eq_ok, mapErr_eq_ok] at h
  obtain ⟨⟨v, rest'⟩, hany, _, _, _, _, ⟨_, _⟩, _, ⟨_, _⟩, _, ⟨_, _⟩, _, _, _, _, _, hout⟩ := h
  cases hout
  exact d.any_rest hany

/-- The walk over the `Extensions` for basicConstraints and keyUsage. -/
def caLoop : Loop (Except CertParseError CaConstraints) (CaConstraints × Bytes) where
  body s :=
    if s.2 = [] then .leave (.ok s.1)
    else
      match takeCaExtension d s.1 s.2 with
      | .error e => .leave (.error e)
      | .ok next => .again next
  variant s := s.2.length
  decreases s t h := by
    split at h
    · cases h
    · split at h
      · cases h
      · rename_i hext
        cases h
        exact takeCaExtension_rest_length d hext

def walkExtensionsForCa : Loop (Except CertParseError CaConstraints) Bytes where
  body tbsR :=
    if tbsR = [] then .leave (.ok {})
    else
      match mapErr (d.peek tbsR) with
      | .error e => .leave (.error e)
      | .ok (.contextSpecific true 3) =>
          .leave do
            let (extsExplicit, _) ← mapErr (d.any tbsR)
            let extsR ← readSequence d extsExplicit.value
            (caLoop d).run ({}, extsR)
      | .ok _ =>
          match d.tlvBytes tbsR with
          | none => .leave (.error .malformed)
          | some (_, rest) => .again rest
  variant tbsR := tbsR.length
  decreases s t h := by
    split at h
    · cases h
    · split at h
      · cases h
      · cases h
      · split at h
        · cases h
        · rename_i htlv
          cases h
          exact d.tlvBytes_rest htlv

def parseCaConstraints (certDer : Bytes) : Except CertParseError CaConstraints := do
  let tbsR ← extensionsReader d certDer
  (walkExtensionsForCa d).run tbsR

end DerCert

end KrabiTls
