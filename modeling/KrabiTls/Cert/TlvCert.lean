import KrabiTls.Cert.Spki
import KrabiTls.Lib.Loop
import KrabiTls.Tlv

/-! The certificate parser on top of the in-tree DER walker (`tlv_cert.rs`). -/
namespace KrabiTls.TlvCert
open Lib

section Walker
variable (f : Features)
variable {cursor : Bytes}

/-- The next TLV; what follows it is `rest`. -/
def takeTlv (cursor : Bytes) : Except CertParseError Tlv :=
  match readTlv f.usizeBits cursor with
  | none => .error .malformed
  | some t => .ok t

def readExpected (cursor : Bytes) (expectedTag : UInt8) : Except CertParseError Tlv := do
  let t ← takeTlv f cursor
  ensure (t.tag = expectedTag) .malformed
  pure t

/-- The bytes of a TLV at the front of `cursor`, header included. -/
def fullTlv (cursor : Bytes) (t : Tlv) : Bytes :=
  cursor.take (t.headerLen + t.body.length)

/-- The content of a BIT STRING without unused bits, and what follows it. -/
def takeBitString (cursor : Bytes) : Except CertParseError (Bytes × Bytes) := do
  let t ← readExpected f cursor tagBitString
  match t.body with
  | [] => .error .malformed
  | unused :: content =>
      ensure (unused = 0) .bitStringHasUnusedBits
      pure (content, t.rest)

def peekTag : Bytes → Except CertParseError UInt8
  | [] => .error .malformed
  | tag :: _ => .ok tag

structure Extension where
  oid : Bytes
  value : Bytes

/-- `critical BOOLEAN DEFAULT FALSE` is skipped. -/
def skipCritical (extR : Bytes) : Except CertParseError Bytes := do
  let tag ← peekTag extR
  if tag = tagBoolean then (takeTlv f extR).map Tlv.rest else .ok extR

/-- The next `Extension` of an `Extensions` block, and what follows it. -/
def takeExtension (extsR : Bytes) : Except CertParseError (Extension × Bytes) := do
  let ext ← readExpected f extsR tagSequence
  let oid ← readExpected f ext.body tagOid
  let extR ← skipCritical f oid.rest
  let value ← readExpected f extR tagOctetString
  pure (⟨oid.body, value.body⟩, ext.rest)

theorem takeTlv_eq_ok {t : Tlv} (h : takeTlv f cursor = .ok t) :
    readTlv f.usizeBits cursor = some t := by
  unfold takeTlv at h
  split at h
  · cases h
  · rename_i hread
    cases h
    exact hread

theorem takeTlv_of_readExpected {tag : UInt8} {t : Tlv} (h : readExpected f cursor tag = .ok t) :
    takeTlv f cursor = .ok t := by
  obtain ⟨t', htake, h⟩ := bind_eq_ok.mp h
  obtain ⟨-, -, hout⟩ := bind_eq_ok.mp h
  cases hout
  exact htake

theorem readExpected_eq_ok {tag : UInt8} {t : Tlv} (h : readExpected f cursor tag = .ok t) :
    readTlv f.usizeBits cursor = some t :=
  takeTlv_eq_ok f (takeTlv_of_readExpected f h)

theorem takeExtension_rest_length {extsR rest : Bytes} {ext : Extension}
    (h : takeExtension f extsR = .ok (ext, rest)) : rest.length < extsR.length := by
  simp only [takeExtension, bind_eq_ok] at h
  obtain ⟨t, ht, _, _, _, _, _, _, hout⟩ := h
  cases hout
  exact readTlv_rest_length (readExpected_eq_ok f ht)

/-- The walk over the `Extensions` for the SubjectAltName. -/
def sanLoop : Loop (Except CertParseError (Option Bytes)) Bytes where
  body extsR :=
    if extsR = [] then .leave (.ok none)
    else
      match takeExtension f extsR with
      | .error e => .leave (.error e)
      | .ok (ext, rest) =>
          if ext.oid = sanOid then
            .leave ((readExpected f ext.value tagSequence).map fun san => some san.body)
          else .again rest
  variant extsR := extsR.length
  decreases s t h := by
    split at h
    · cases h
    · split at h
      · cases h
      · rename_i hext
        split at h
        · cases h
        · cases h
          exact takeExtension_rest_length f hext

/-- `walk_extensions_for_san`: the fields behind the key, up to the `Extensions` block. -/
def walkExtensionsForSan : Loop (Except CertParseError (Option Bytes)) Bytes where
  body tbsR :=
    match tbsR with
    | [] => .leave (.ok none)
    | tag :: _ =>
        if tag = tagCtxConstructed 3 then
          .leave do
            let extsExplicit ← takeTlv f tbsR
            let extsSeq ← readExpected f extsExplicit.body tagSequence
            (sanLoop f).run extsSeq.body
        else
          -- unique identifiers, and unknown trailing fields
          match takeTlv f tbsR with
          | .error e => .leave (.error e)
          | .ok t => .again t.rest
  variant tbsR := tbsR.length
  decreases s t h := by
    split at h
    · cases h
    · split at h
      · cases h
      · split at h
        · cases h
        · rename_i htake
          cases h
          exact readTlv_rest_length (takeTlv_eq_ok f htake)

/-- `rsaEncryption` parameters must be an explicit NULL. -/
def requireExplicitNullParams (r : Bytes) : Except CertParseError Unit := do
  ensure (r ≠ []) .algorithmHasParameters
  let null ← takeTlv f r
  ensure (null.tag = tagNull ∧ null.body = []) .algorithmHasParameters
  ensure (null.rest = []) .algorithmHasParameters

def classifySpkiAlgorithm (algIdBytes : Bytes) : Except CertParseError SpkiKind := do
  let outer ← readExpected f algIdBytes tagSequence
  let oid ← readExpected f outer.body tagOid
  SpkiKind.ofOid f oid.body oid.rest (requireExplicitNullParams f oid.rest) do
    let curve ← takeTlv f oid.rest
    ensure (curve.tag = tagOid ∧ curve.rest = []) .algorithmHasParameters
    pure curve.body

def classifyRsaOuterSigAlg (algIdBytes : Bytes) : Except CertParseError (Option RsaCertSigAlg) := do
  let outer ← readExpected f algIdBytes tagSequence
  let oid ← readExpected f outer.body tagOid
  if ¬ f.rsaPssOnly ∧ oid.body = sha256WithRsaOid then do
    requireExplicitNullParams f oid.rest
    pure (some .pkcs1v15Sha256)
  else if oid.body = rsassaPssOid then do
    -- parameters may be absent; if present, one TLV
    if oid.rest ≠ [] then do
      let params ← takeTlv f oid.rest
      ensure (params.rest = []) .malformed
      pure (some .pssSha256)
    else pure (some .pssSha256)
  else pure none

/-- A TLV of an `RSAPublicKey`. -/
def takeRsaTlv (cursor : Bytes) (expectedTag : UInt8) : Except CertParseError Tlv := do
  let t ← (takeTlv f cursor).mapError fun _ => .badRsaPubkey
  ensure (t.tag = expectedTag) .badRsaPubkey
  pure t

def parseRsaPubkey (bitString : Bytes) : Except CertParseError (Bytes × Nat) := do
  let outer ← takeRsaTlv f bitString tagSequence
  let modulusTlv ← takeRsaTlv f outer.body tagInteger
  let modulus ← rsaModulus f modulusTlv.body
  let exponentTlv ← takeRsaTlv f modulusTlv.rest tagInteger
  let exponent ← rsaExponent exponentTlv.body
  ensure (exponentTlv.rest = []) .badRsaPubkey
  pure (modulus, exponent)

/-- The version field: this client takes version 3 certificates only. -/
def takeVersion (tbsR : Bytes) : Except CertParseError Bytes := do
  let firstTag ← peekTag tbsR
  ensure (firstTag = tagCtxConstructed 0) .unsupportedCertVersion
  let version ← takeTlv f tbsR
  let int ← readExpected f version.body tagInteger
  ensure (int.body.length = 1) .malformed
  ensure (int.body.headD 0 = x509V3) .unsupportedCertVersion
  ensure (int.rest = []) .malformed
  pure version.rest

/-- `parse` up to the classification of the key. -/
def parts (certDer : Bytes) : Except CertParseError CertParts := do
  let outer ← readExpected f certDer tagSequence
  let tbs ← readExpected f outer.body tagSequence
  let outerAlg ← readExpected f tbs.rest tagSequence
  let outerSigAlg := fullTlv tbs.rest outerAlg
  let (signature, rest) ← takeBitString f outerAlg.rest
  ensure (rest = []) .trailingBytes
  let tbsR ← takeVersion f tbs.body
  let serial ← readExpected f tbsR tagInteger
  let tbsAlg ← readExpected f serial.rest tagSequence
  ensure (fullTlv serial.rest tbsAlg = outerSigAlg) .signatureAlgorithmMismatch
  let issuer ← readExpected f tbsAlg.rest tagSequence
  let validity ← readExpected f issuer.rest tagSequence
  let subject ← readExpected f validity.rest tagSequence
  let spki ← readExpected f subject.rest tagSequence
  let spkiAlg ← takeTlv f spki.body
  let (pk, spkiRest) ← takeBitString f spkiAlg.rest
  ensure (spkiRest = []) .trailingBytes
  let san ← (walkExtensionsForSan f).run spki.rest
  pure {
    tbs := fullTlv outer.body tbs
    outerSigAlg
    signature
    validityDer := fullTlv issuer.rest validity
    spkiAlg := fullTlv spki.body spkiAlg
    pk
    san }

def spkiParser : SpkiParser where
  classifySpkiAlgorithm := classifySpkiAlgorithm f
  classifyRsaOuterSigAlg := classifyRsaOuterSigAlg f
  parseRsaPubkey := parseRsaPubkey f

def parse (certDer : Bytes) : Except CertParseError CertView := do
  let parts ← parts f certDer
  parts.view f (spkiParser f)

/-! Issuer eligibility and the key to pin. -/

/-- `for _ in 0..n { take_tlv(..)? }`. -/
def skipTlvs : Nat → Bytes → Except CertParseError Bytes
  | 0, tbsR => .ok tbsR
  | n + 1, tbsR => do
      let t ← takeTlv f tbsR
      skipTlvs n t.rest

/-- The fields of the TBSCertificate behind the optional version. -/
def tbsFields (certDer : Bytes) : Except CertParseError Bytes := do
  let outer ← readExpected f certDer tagSequence
  let tbs ← readExpected f outer.body tagSequence
  let tag ← peekTag tbs.body
  if tag = tagCtxConstructed 0 then (takeTlv f tbs.body).map Tlv.rest else .ok tbs.body

def spkiDer (certDer : Bytes) : Except CertParseError Bytes := do
  let tbsR ← tbsFields f certDer
  -- serial, signature, issuer, validity, subject
  let tbsR ← skipTlvs f 5 tbsR
  let spki ← takeTlv f tbsR
  pure (fullTlv tbsR spki)

def extensionsSlice (certDer : Bytes) : Except CertParseError Bytes := do
  let tbsR ← tbsFields f certDer
  skipTlvs f 6 tbsR

/-- `critical BOOLEAN DEFAULT FALSE`, and what follows it. -/
def takeCritical (extR : Bytes) : Except CertParseError (Bool × Bytes) := do
  let tag ← peekTag extR
  if tag = tagBoolean then (takeTlv f extR).map fun b => (derTrue b.body, b.rest)
  else .ok (false, extR)

def takePathLen (r : Bytes) : Except CertParseError (Option UInt32) :=
  if r.head? = some tagInteger then do
    let int ← takeTlv f r
    let pathLen ← intToU32 int.body
    pure (some pathLen)
  else .ok none

/-- A field the extension does not have is left as it is. -/
def parseBasicConstraints (out : CaConstraints) (bytes : Bytes) :
    Except CertParseError CaConstraints := do
  let seq ← readExpected f bytes tagSequence
  ensure (seq.rest = []) .malformed
  let (isCa, r) ←
    if seq.body.head? = some tagBoolean then
      (takeTlv f seq.body).map fun b => (derTrue b.body, b.rest)
    else .ok (out.isCa, seq.body)
  let pathLen ← takePathLen f r
  pure { out with isCa, pathLen := pathLen <|> out.pathLen }

def keyUsageCertSign (bytes : Bytes) : Except CertParseError Bool := do
  let bs ← readExpected f bytes tagBitString
  ensure (bs.rest = []) .malformed
  pure (keyCertSignBit bs.body)

/-- One extension: what it makes of the constraints, and what follows it. -/
def takeCaExtension (out : CaConstraints) (extsR : Bytes) :
    Except CertParseError (CaConstraints × Bytes) := do
  let ext ← readExpected f extsR tagSequence
  let oid ← readExpected f ext.body tagOid
  let (critical, extR) ← takeCritical f oid.rest
  let value ← readExpected f extR tagOctetString
  let out ← out.extend oid.body value.body critical (parseBasicConstraints f) (keyUsageCertSign f)
  pure (out, ext.rest)

theorem takeCaExtension_rest_length {out out' : CaConstraints} {extsR rest : Bytes}
    (h : takeCaExtension f out extsR = .ok (out', rest)) : rest.length < extsR.length := by
  simp only [takeCaExtension, bind_eq_ok] at h
  obtain ⟨t, ht, _, _, ⟨_, _⟩, _, _, _, _, _, hout⟩ := h
  cases hout
  exact readTlv_rest_length (readExpected_eq_ok f ht)

/-- The walk over the `Extensions` for basicConstraints and keyUsage. -/
def caLoop : Loop (Except CertParseError CaConstraints) (CaConstraints × Bytes) where
  body s :=
    if s.2 = [] then .leave (.ok s.1)
    else
      match takeCaExtension f s.1 s.2 with
      | .error e => .leave (.error e)
      | .ok next => .again next
  variant s := s.2.length
  decreases s t h := by
    split at h
    · cases h
    · split at h
      · cases h
      · rename_i hext
        cases h
        exact takeCaExtension_rest_length f hext

def walkExtensionsForCa : Loop (Except CertParseError CaConstraints) Bytes where
  body tbsR :=
    match tbsR with
    | [] => .leave (.ok {})
    | tag :: _ =>
        if tag = tagCtxConstructed 3 then
          .leave do
            let extsExplicit ← takeTlv f tbsR
            let extsSeq ← readExpected f extsExplicit.body tagSequence
            (caLoop f).run ({}, extsSeq.body)
        else
          match takeTlv f tbsR with
          | .error e => .leave (.error e)
          | .ok t => .again t.rest
  variant tbsR := tbsR.length
  decreases s t h := by
    split at h
    · cases h
    · split at h
      · cases h
      · split at h
        · cases h
        · rename_i htake
          cases h
          exact readTlv_rest_length (takeTlv_eq_ok f htake)

def parseCaConstraints (certDer : Bytes) : Except CertParseError CaConstraints := do
  let tbsR ← extensionsSlice f certDer
  (walkExtensionsForCa f).run tbsR

def certParser : CertParser where
  parse := parse f
  parseCaConstraints := parseCaConstraints f
  spkiDer := spkiDer f

theorem takeVersion_eq_ok {tbsR rest : Bytes} (h : takeVersion f tbsR = .ok rest) :
    peekTag tbsR = .ok (tagCtxConstructed 0) ∧ ∃ t, takeTlv f tbsR = .ok t ∧ t.rest = rest := by
  simp only [takeVersion, bind_eq_ok, ensure_eq_ok] at h
  obtain ⟨tag, hpeek, _, rfl, version, hversion, _, _, _, _, _, _, _, _, hrest⟩ := h
  cases hrest
  exact ⟨hpeek, version, hversion, rfl⟩

end Walker

end KrabiTls.TlvCert

namespace KrabiTls.Sample
open Lib

def ed25519Alg : Bytes := derTlv tagSequence (derTlv tagOid ed25519Oid)
def sha256WithRsa : Bytes := derTlv tagSequence (derTlv tagOid sha256WithRsaOid ++ derTlv tagNull [])

/-- A version 3 certificate; `serial` and `extensions` are encoded, `sign` makes the signature. -/
def v3Certificate (serial sigAlg subject spkiAlg pk extensions : Bytes) (sign : Bytes → Bytes) : Bytes :=
  let spki := derTlv tagSequence (spkiAlg ++ derTlv tagBitString (0 :: pk))
  let tbs := derTlv tagSequence (derTlv (tagCtxConstructed 0) (derTlv tagInteger [x509V3]) ++
    serial ++ sigAlg ++ derTlv tagSequence [] ++ derTlv tagSequence [] ++
    derTlv tagSequence subject ++ spki ++ extensions)
  derTlv tagSequence (tbs ++ sigAlg ++ derTlv tagBitString (0 :: sign tbs))

/-- A certificate with the given subject key, signature algorithm and extensions. -/
def issued (spkiAlg pk sigAlg extensions : Bytes) (sign : Bytes → Bytes) : Bytes :=
  v3Certificate (derTlv tagInteger [1]) sigAlg [] spkiAlg pk extensions sign

end KrabiTls.Sample
