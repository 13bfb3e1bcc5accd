import KrabiTls.Cert.Fields
import KrabiTls.Lib.Audit

/-! The walk both certificate parsers make. The checks only one of them makes are left open. -/
namespace KrabiTls
open Lib

/-- The length octets a DER length takes behind the first one. -/
def lengthOctets (n : Nat) : Nat :=
  if n < 0x80 then 0 else if n < 2 ^ 8 then 1 else if n < 2 ^ 16 then 2 else if n < 2 ^ 24 then 3
  else 4

/-- The length is encoded in as few octets as possible. A `usize` of 16 bits does not hold a length
of three octets, and the in-tree reader drops its high bits. -/
def Tlv.MinimalLength (t : Tlv) : Prop := t.headerLen = 2 + lengthOctets t.body.length

instance (t : Tlv) : Decidable t.MinimalLength :=
  inferInstanceAs (Decidable (t.headerLen = 2 + lengthOctets t.body.length))

/-- A check that one of the parsers makes and the other does not. -/
inductive Demand where
  /-- a field of the certificate has the tag its type prescribes -/
  | fieldTag (tag expected : UInt8)
  /-- nothing is behind a value that is to be the whole of its input -/
  | nothingBehind (rest : Bytes)
  | minimalLength (t : Tlv)
  /-- the arcs of an object identifier are well encoded -/
  | oidArcs (oid : Bytes)
  deriving DecidableEq

/-- The checks of `tlv_cert.rs`. -/
def Demand.InTree : Demand → Prop
  | .fieldTag tag expected => tag = expected
  | .nothingBehind _ | .minimalLength _ | .oidArcs _ => True

/-- The checks of `der_cert.rs`; `arcsOk` is what the crate requires of an object identifier. -/
def Demand.InDer (arcsOk : Bytes → Bool) : Demand → Prop
  | .fieldTag _ _ => True
  | .nothingBehind rest => rest = []
  | .minimalLength t => t.MinimalLength
  | .oidArcs oid => arcsOk oid = true

instance : DecidablePred Demand.InTree := fun d => by
  cases d <;> unfold Demand.InTree <;> infer_instance

instance (arcsOk : Bytes → Bool) : DecidablePred (Demand.InDer arcsOk) := fun d => by
  cases d <;> unfold Demand.InDer <;> infer_instance

namespace CertWalk
open Audit

variable (f : Features)

def read (r : Bytes) : Audit Demand Tlv :=
  match readTlv f.usizeBits r with
  | none => fail
  | some t => do
      leaveOpen (.minimalLength t)
      pure t

/-- A value whose tag both parsers check. -/
def readTag (r : Bytes) (tag : UInt8) : Audit Demand Tlv := do
  let t ← read f r
  check (t.tag = tag)
  pure t

/-- A value that is to be the whole of its input. -/
def readWhole (r : Bytes) (tag : UInt8) : Audit Demand Tlv := do
  let t ← readTag f r tag
  leaveOpen (.nothingBehind t.rest)
  pure t

/-- A field that is carried along or passed over. -/
def readField (r : Bytes) (expected : UInt8) : Audit Demand Tlv := do
  let t ← read f r
  leaveOpen (.fieldTag t.tag expected)
  pure t

def readOid (r : Bytes) : Audit Demand Tlv := do
  let t ← readTag f r tagOid
  leaveOpen (.oidArcs t.body)
  pure t

section Rules
variable {f} {met : Demand → Prop} {r : Bytes} {t : Tlv}
variable {tag : UInt8}

theorem yields_read :
    Yields met (read f r) t ↔ readTlv f.usizeBits r = some t ∧ met (.minimalLength t) := by
  unfold read
  cases readTlv f.usizeBits r with
  | none => simp [yields_fail]
  | some t' =>
    simp only [yields_bind, yields_leaveOpen, yields_pure, Option.some.injEq]
    constructor
    · rintro ⟨-, hmet, rfl⟩
      exact ⟨rfl, hmet⟩
    · rintro ⟨rfl, hmet⟩
      exact ⟨(), hmet, rfl⟩

theorem yields_readTag :
    Yields met (readTag f r tag) t ↔ Yields met (read f r) t ∧ t.tag = tag := by
  rw [readTag, yields_guarded, yields_check]

theorem yields_readWhole : Yields met (readWhole f r tag) t ↔
      Yields met (readTag f r tag) t ∧ met (.nothingBehind t.rest) := by
  rw [readWhole, yields_guarded, yields_leaveOpen]

theorem yields_readField {expected : UInt8} :
    Yields met (readField f r expected) t ↔
      Yields met (read f r) t ∧ met (.fieldTag t.tag expected) := by
  rw [readField, yields_guarded, yields_leaveOpen]

theorem yields_readOid :
    Yields met (readOid f r) t ↔ Yields met (readTag f r tagOid) t ∧ met (.oidArcs t.body) := by
  rw [readOid, yields_guarded, yields_leaveOpen]

theorem readTag_bind {β : Type} {k : Tlv → Audit Demand β} :
    readTag f r tag >>= k = read f r >>= fun t => check (t.tag = tag) >>= fun _ => k t := by
  simp only [readTag, bind_assoc, pure_bind]

theorem rest_length_of_yields_read (h : Yields met (read f r) t) : t.rest.length < r.length :=
  readTlv_rest_length (yields_read.mp h).1

end Rules

/-- The content of a BIT STRING without unused bits that is the last thing in its input. -/
def lastBitString (r : Bytes) : Audit Demand Bytes := do
  let t ← readTag f r tagBitString
  check (t.rest = [] ∧ t.body.head? = some 0)
  pure t.body.tail

theorem yields_lastBitString {met : Demand → Prop} {r content : Bytes} :
    Yields met (lastBitString f r) content ↔
      ∃ t, Yields met (readTag f r tagBitString) t ∧ t.rest = [] ∧ t.body = 0 :: content := by
  simp only [lastBitString, yields_bind, yields_check, yields_pure]
  refine exists_congr fun t => and_congr_right fun _ => ?_
  cases t.body <;> simp [and_assoc]

def version (tbsR : Bytes) : Audit Demand Bytes := do
  let version ← readTag f tbsR (tagCtxConstructed 0)
  let int ← readTag f version.body tagInteger
  check (int.body = [x509V3] ∧ int.rest = [])
  pure version.rest

structure Extension where
  oid : Bytes
  critical : Bool
  value : Bytes

/-- `critical BOOLEAN DEFAULT FALSE`, and what follows it. -/
def critical (extR : Bytes) : Audit Demand (Bool × Bytes) := do
  check (extR ≠ [])
  if extR.head? = some tagBoolean then do
    let b ← read f extR
    pure (derTrue b.body, b.rest)
  else pure (false, extR)

def extension (extsR : Bytes) : Audit Demand (Extension × Bytes) := do
  let ext ← readTag f extsR tagSequence
  let oid ← readOid f ext.body
  let (critical, extR) ← critical f oid.rest
  let value ← readTag f extR tagOctetString
  pure (⟨oid.body, critical, value.body⟩, ext.rest)

def nullParams (r : Bytes) : Audit Demand Unit := do
  let null ← readTag f r tagNull
  check (null.body = [] ∧ null.rest = [])

/-- The named curve of an EC key, which is the last thing in its input. -/
def namedCurve (r : Bytes) : Audit Demand Bytes := do
  let curve ← readOid f r
  check (curve.rest = [])
  pure curve.body

/-- The classification by the algorithm's OID; `null` and `curve` read the parameters. -/
def kindOfOid (oid rest : Bytes) (null : Audit Demand Unit) (curve : Audit Demand Bytes) :
    Audit Demand SpkiKind :=
  if f.rsa ∧ oid = rsaEncryptionOid then
    null >>= fun _ => ofExcept (SpkiKind.ofOid f oid rest (.ok ()) (.ok []))
  else if f.ecdsa ∧ oid = ecPublicKeyOid then
    curve >>= fun curve => ofExcept (SpkiKind.ofOid f oid rest (.ok ()) (.ok curve))
  else ofExcept (SpkiKind.ofOid f oid rest (.ok ()) (.ok []))

def spkiKind (algIdBytes : Bytes) : Audit Demand SpkiKind := do
  let outer ← readWhole f algIdBytes tagSequence
  let oid ← readOid f outer.body
  kindOfOid f oid.body oid.rest (nullParams f oid.rest) (namedCurve f oid.rest)

def rsaOuterSigAlg (algIdBytes : Bytes) : Audit Demand (Option RsaCertSigAlg) := do
  let outer ← readWhole f algIdBytes tagSequence
  let oid ← readOid f outer.body
  if ¬ f.rsaPssOnly ∧ oid.body = sha256WithRsaOid then do
    nullParams f oid.rest
    pure (some .pkcs1v15Sha256)
  else if oid.body = rsassaPssOid then
    if oid.rest ≠ [] then do
      let params ← read f oid.rest
      check (params.rest = [])
      pure (some .pssSha256)
    else pure (some .pssSha256)
  else pure none

def rsaPubkey (bitString : Bytes) : Audit Demand (Bytes × Nat) := do
  let outer ← readWhole f bitString tagSequence
  let modulusTlv ← readTag f outer.body tagInteger
  let modulus ← ofExcept (rsaModulus f modulusTlv.body)
  let exponentTlv ← readTag f modulusTlv.rest tagInteger
  let exponent ← ofExcept (rsaExponent exponentTlv.body)
  check (exponentTlv.rest = [])
  pure (modulus, exponent)

/-- The key by its algorithm: the shared last part of `parse`, with what the parsers read for it. -/
def view (parts : CertParts) : Audit Demand CertView := do
  let kind ← spkiKind f parts.spkiAlg
  let viewOf (outerSigAlg : Option RsaCertSigAlg) (rsa : Bytes × Nat) : Audit Demand CertView :=
    ofExcept (parts.view f ⟨fun _ => .ok kind, fun _ => .ok outerSigAlg, fun _ => .ok rsa⟩)
  match kind with
  | .rsa => do
      let rsa ← rsaPubkey f parts.pk
      let outerSigAlg ← rsaOuterSigAlg f parts.outerSigAlg
      viewOf outerSigAlg rsa
  | .ecdsaP256 | .ecdsaP384 =>
      if f.rsa then do
        let outerSigAlg ← rsaOuterSigAlg f parts.outerSigAlg
        viewOf outerSigAlg ([], 0)
      else viewOf none ([], 0)
  | .ed25519 | .mlDsa _ => viewOf none ([], 0)

/-- The fields behind the key, up to the `Extensions` block. -/
def tail {α : Type} (absent : α) (found : Bytes → Audit Demand α) : Walk Demand α Bytes where
  body tbsR :=
    if tbsR = [] then pure (.leave absent)
    else do
      let t ← read f tbsR
      if t.tag = tagCtxConstructed 3 then do
        let exts ← readWhole f t.body tagSequence
        let a ← found exts.body
        pure (.leave a)
      else pure (.again t.rest)
  variant tbsR := tbsR.length
  decreases s t h := by
    split at h
    · exact nomatch yields_pure.mp h
    · obtain ⟨field, hread, h⟩ := yields_bind.mp h
      split at h
      · obtain ⟨exts, -, h⟩ := yields_bind.mp h
        obtain ⟨a, -, h⟩ := yields_bind.mp h
        exact nomatch yields_pure.mp h
      · cases yields_pure.mp h
        exact rest_length_of_yields_read hread

theorem extension_rest_length {met : Demand → Prop} {extsR rest : Bytes} {ext : Extension}
    (h : Yields met (extension f extsR) (ext, rest)) : rest.length < extsR.length := by
  simp only [extension, yields_bind, yields_pure] at h
  obtain ⟨t, hread, _, _, ⟨_, _⟩, _, _, _, hout⟩ := h
  cases hout
  exact rest_length_of_yields_read (yields_readTag.mp hread).1

/-- The walk over the `Extensions` for the SubjectAltName. -/
def sanEntries : Walk Demand (Option Bytes) Bytes where
  body extsR :=
    if extsR = [] then pure (.leave none)
    else do
      let (ext, rest) ← extension f extsR
      if ext.oid = sanOid then do
        let san ← readWhole f ext.value tagSequence
        pure (.leave (some san.body))
      else pure (.again rest)
  variant extsR := extsR.length
  decreases s t h := by
    split at h
    · exact nomatch yields_pure.mp h
    · obtain ⟨⟨ext, rest⟩, hext, h⟩ := yields_bind.mp h
      dsimp only at h
      split at h
      · obtain ⟨san, -, h⟩ := yields_bind.mp h
        exact nomatch yields_pure.mp h
      · cases yields_pure.mp h
        exact extension_rest_length f hext

/-- The fields of the TBSCertificate, whose encoding is `tbs` and content `tbsR`. -/
def tbsParts (tbs outerSigAlg signature tbsR : Bytes) : Audit Demand CertParts := do
  let tbsR ← version f tbsR
  let serial ← readField f tbsR tagInteger
  let tbsAlg ← readField f serial.rest tagSequence
  check (TlvCert.fullTlv serial.rest tbsAlg = outerSigAlg)
  let issuer ← readField f tbsAlg.rest tagSequence
  let validity ← readField f issuer.rest tagSequence
  let subject ← readField f validity.rest tagSequence
  let spki ← readTag f subject.rest tagSequence
  let spkiAlg ← read f spki.body
  let pk ← lastBitString f spkiAlg.rest
  let san ← (tail f none (sanEntries f).run).run spki.rest
  pure {
    tbs, outerSigAlg, signature
    validityDer := TlvCert.fullTlv issuer.rest validity
    spkiAlg := TlvCert.fullTlv spki.body spkiAlg
    pk, san }

def parts (certDer : Bytes) : Audit Demand CertParts := do
  let outer ← readWhole f certDer tagSequence
  let tbs ← readTag f outer.body tagSequence
  let outerAlg ← readField f tbs.rest tagSequence
  let signature ← lastBitString f outerAlg.rest
  tbsParts f (TlvCert.fullTlv outer.body tbs) (TlvCert.fullTlv tbs.rest outerAlg) signature tbs.body

def parse (certDer : Bytes) : Audit Demand CertView := do
  let parts ← parts f certDer
  view f parts

/-! Issuer eligibility and the key to pin. -/

def skipTlvs : Nat → Bytes → Audit Demand Bytes
  | 0, tbsR => pure tbsR
  | n + 1, tbsR => do
      let t ← read f tbsR
      skipTlvs n t.rest

/-- The fields of the TBSCertificate behind the optional version. -/
def tbsFields (certDer : Bytes) : Audit Demand Bytes := do
  let outer ← readWhole f certDer tagSequence
  let tbs ← readTag f outer.body tagSequence
  check (tbs.body ≠ [])
  if tbs.body.head? = some (tagCtxConstructed 0) then do
    let version ← read f tbs.body
    pure version.rest
  else pure tbs.body

def spkiDer (certDer : Bytes) : Audit Demand Bytes := do
  let tbsR ← tbsFields f certDer
  let tbsR ← skipTlvs f 5 tbsR
  let spki ← read f tbsR
  pure (TlvCert.fullTlv tbsR spki)

def extensionsSlice (certDer : Bytes) : Audit Demand Bytes := do
  let tbsR ← tbsFields f certDer
  skipTlvs f 6 tbsR

def pathLen (r : Bytes) : Audit Demand (Option UInt32) :=
  if r.head? = some tagInteger then do
    let int ← read f r
    let pathLen ← ofExcept (intToU32 int.body)
    pure (some pathLen)
  else pure none

def caFlag (default : Bool) (r : Bytes) : Audit Demand (Bool × Bytes) :=
  if r.head? = some tagBoolean then do
    let b ← read f r
    pure (derTrue b.body, b.rest)
  else pure (default, r)

def basicConstraints (out : CaConstraints) (bytes : Bytes) : Audit Demand CaConstraints := do
  let seq ← readTag f bytes tagSequence
  check (seq.rest = [])
  let (isCa, r) ← caFlag f out.isCa seq.body
  let pathLen ← pathLen f r
  pure { out with isCa, pathLen := pathLen <|> out.pathLen }

def keyUsage (bytes : Bytes) : Audit Demand Bool := do
  let bs ← readTag f bytes tagBitString
  check (bs.rest = [])
  pure (keyCertSignBit bs.body)

def extend (out : CaConstraints) (ext : Extension) : Audit Demand CaConstraints :=
  if ext.oid = basicConstraintsOid then basicConstraints f out ext.value
  else if ext.oid = keyUsageOid then do
    let certSign ← keyUsage f ext.value
    pure { out with keyCertSign := some certSign }
  else if ext.critical then fail
  else pure out

/-- The walk over the `Extensions` for basicConstraints and keyUsage. -/
def caEntries : Walk Demand CaConstraints (CaConstraints × Bytes) where
  body s :=
    if s.2 = [] then pure (.leave s.1)
    else do
      let (ext, rest) ← extension f s.2
      let out ← extend f s.1 ext
      pure (.again (out, rest))
  variant s := s.2.length
  decreases s t h := by
    split at h
    · exact nomatch yields_pure.mp h
    · obtain ⟨⟨ext, rest⟩, hext, h⟩ := yields_bind.mp h
      obtain ⟨out, -, h⟩ := yields_bind.mp h
      cases yields_pure.mp h
      exact extension_rest_length f hext

def caConstraints (certDer : Bytes) : Audit Demand CaConstraints := do
  let tbsR ← extensionsSlice f certDer
  (tail f {} fun extsR => (caEntries f).run ({}, extsR)).run tbsR

/-! What the two parsers share is realized as its parts are. -/
section Shared
variable {f} {met : Demand → Prop}

theorem ofOid_realizes {oid rest : Bytes} {null : Except CertParseError Unit}
    {curve : Except CertParseError Bytes} {null' : Audit Demand Unit} {curve' : Audit Demand Bytes}
    (hnull : Realizes met null null') (hcurve : Realizes met curve curve') :
    Realizes met (SpkiKind.ofOid f oid rest null curve) (kindOfOid f oid rest null' curve') := by
  unfold kindOfOid
  by_cases hrsa : f.rsa ∧ oid = rsaEncryptionOid
  · have hofOid (null : Except CertParseError Unit) (curve : Except CertParseError Bytes) :
        SpkiKind.ofOid f oid rest null curve = null >>= fun _ => .ok .rsa := by
      rw [SpkiKind.ofOid, if_neg (by rw [hrsa.2]; decide), if_pos hrsa]
      rfl
    rw [if_pos hrsa, hofOid, hofOid]
    exact hnull.bind fun _ => .ofExcept _
  · rw [if_neg hrsa]
    by_cases hec : f.ecdsa ∧ oid = ecPublicKeyOid
    · have hofOid (null : Except CertParseError Unit) (curve : Except CertParseError Bytes) :
          SpkiKind.ofOid f oid rest null curve = curve >>= fun curve =>
            if curve = secp256r1Oid then pure .ecdsaP256
            else if curve = secp384r1Oid then pure .ecdsaP384
            else .error .wrongAlgorithmOid := by
        rw [SpkiKind.ofOid, if_neg (by rw [hec.2]; decide), if_neg hrsa,
          if_neg (fun h => absurd (hec.2 ▸ h.2) (by decide)), if_pos hec]
      simp only [if_pos hec, hofOid]
      exact hcurve.bind fun _ => .ofExcept _
    · have hofOid : SpkiKind.ofOid f oid rest null curve =
          SpkiKind.ofOid f oid rest (.ok ()) (.ok []) := by
        simp only [SpkiKind.ofOid, if_neg hrsa, if_neg hec]
      rw [if_neg hec, hofOid]
      exact .ofExcept _

/-- The parsers check the point of an EC key before they classify the outer algorithm. -/
theorem ecKey_realizes {point : Except CertParseError Unit}
    {outer : Except CertParseError (Option RsaCertSigAlg)}
    {outer' : Audit Demand (Option RsaCertSigAlg)} {certView : Option RsaCertSigAlg → CertView}
    (houter : Realizes met outer outer') :
    Realizes met (point >>= fun _ => (if f.rsa then outer else .ok none) >>= fun outerSigAlg =>
        .ok (certView outerSigAlg))
      (if f.rsa then outer' >>= fun outerSigAlg => ofExcept (point >>= fun _ =>
          (if f.rsa then .ok outerSigAlg else .ok none) >>= fun outerSigAlg =>
            .ok (certView outerSigAlg))
        else ofExcept (point >>= fun _ => (if f.rsa then .ok none else .ok none) >>=
          fun outerSigAlg => .ok (certView outerSigAlg))) := by
  by_cases hrsa : f.rsa = true
  · intro view
    simp only [if_pos hrsa, bind_eq_ok, yields_bind, yields_ofExcept, ← houter _, Except.ok.injEq,
      exists_eq_left']
    constructor
    · rintro ⟨u, hpoint, outerSigAlg, houterSigAlg, hview⟩
      exact ⟨outerSigAlg, houterSigAlg, u, hpoint, hview⟩
    · rintro ⟨outerSigAlg, houterSigAlg, u, hpoint, hview⟩
      exact ⟨u, hpoint, outerSigAlg, houterSigAlg, hview⟩
  · simp only [if_neg hrsa]
    exact .ofExcept _

theorem view_realizes {p : SpkiParser} {parts : CertParts}
    (hkind : ∀ r, Realizes met (p.classifySpkiAlgorithm r) (spkiKind f r))
    (houter : ∀ r, Realizes met (p.classifyRsaOuterSigAlg r) (rsaOuterSigAlg f r))
    (hrsa : ∀ r, Realizes met (p.parseRsaPubkey r) (rsaPubkey f r)) :
    Realizes met (parts.view f p) (view f parts) := by
  refine (hkind _).bind fun kind => ?_
  cases kind with
  | ed25519 => exact .ofExcept _
  | mlDsa pkLen => exact .ofExcept _
  | rsa => exact (hrsa _).bind fun rsa => (houter _).bind fun outerSigAlg => .ofExcept _
  | ecdsaP256 => exact ecKey_realizes (houter _)
  | ecdsaP384 => exact ecKey_realizes (houter _)

theorem extend_realizes {out : CaConstraints} {ext : Extension}
    {basic : CaConstraints → Bytes → Except CertParseError CaConstraints}
    {usage : Bytes → Except CertParseError Bool}
    (hbasic : ∀ out r, Realizes met (basic out r) (basicConstraints f out r))
    (husage : ∀ r, Realizes met (usage r) (keyUsage f r)) :
    Realizes met (out.extend ext.oid ext.value ext.critical basic usage) (extend f out ext) :=
  .ite (fun _ => hbasic _ _) fun _ => .ite (fun _ => (husage _).bind fun _ => .pure _) fun _ =>
    .ite (fun _ => .error _) fun _ => .pure _

/-- A pass of the walk for the CA constraints, from what it makes of one extension. -/
theorem caPass_realizes {m : Except CertParseError (CaConstraints × Bytes)} {out : CaConstraints}
    {r : Bytes} (hm : Realizes met m (extension f r >>= fun next => extend f out next.1 >>=
      fun out => pure (out, next.2))) :
    Realizes met (m.map Pass.again) (extension f r >>= fun next => extend f out next.1 >>=
      fun out => pure (.again (out, next.2) : Pass CaConstraints _)) := by
  have hassoc : (extension f r >>= fun next => extend f out next.1 >>= fun out =>
      pure (.again (out, next.2) : Pass CaConstraints _)) =
      (extension f r >>= fun next => extend f out next.1 >>= fun out => pure (out, next.2)) >>=
        fun next => pure (.again next) := by
    simp only [bind_assoc, pure_bind]
  rw [hassoc]
  exact hm.map

end Shared

/-! `tlv_cert.rs`. -/
section InTree
variable {f} {r : Bytes}
variable {tag : UInt8} {out : CaConstraints}

theorem inTree_read : Realizes Demand.InTree (TlvCert.takeTlv f r) (read f r) := by
  intro t
  rw [yields_read, and_iff_left (show Demand.InTree (.minimalLength t) from trivial)]
  unfold TlvCert.takeTlv
  cases readTlv f.usizeBits r <;> simp

theorem inTree_readTag : Realizes Demand.InTree (TlvCert.readExpected f r tag) (readTag f r tag) :=
  inTree_read.bind fun t => Realizes.ensure.bind fun _ => .pure t

theorem inTree_readWhole :
    Realizes Demand.InTree (TlvCert.readExpected f r tag) (readWhole f r tag) := by
  intro t
  rw [yields_readWhole, and_iff_left (show Demand.InTree (.nothingBehind t.rest) from trivial)]
  exact inTree_readTag t

theorem inTree_readField :
    Realizes Demand.InTree (TlvCert.readExpected f r tag) (readField f r tag) := by
  refine inTree_read.bind fun t => Realizes.bind ?_ fun _ => .pure t
  exact .ensure_open (show Demand.InTree (.fieldTag t.tag tag) ↔ t.tag = tag from Iff.rfl)

theorem inTree_readOid :
    Realizes Demand.InTree (TlvCert.readExpected f r tagOid) (readOid f r) := by
  intro t
  rw [yields_readOid, and_iff_left (show Demand.InTree (.oidArcs t.body) from trivial)]
  exact inTree_readTag t

theorem readExpected_eq_ok_iff {t : Tlv} :
    TlvCert.readExpected f r tag = .ok t ↔ TlvCert.takeTlv f r = .ok t ∧ t.tag = tag := by
  rw [inTree_readTag t, yields_readTag, ← inTree_read t]

theorem peekTag_of_takeTlv {t : Tlv} (h : TlvCert.takeTlv f r = .ok t) :
    TlvCert.peekTag r = .ok t.tag := by
  have hhead := (readTlv_eq_some (TlvCert.takeTlv_eq_ok f h)).1
  cases r with
  | nil => cases hhead
  | cons tag rest =>
    cases hhead
    rfl

theorem takeBitString_eq_ok {content rest : Bytes} :
    TlvCert.takeBitString f r = .ok (content, rest) ↔
      ∃ t, TlvCert.readExpected f r tagBitString = .ok t ∧ t.body = 0 :: content ∧ t.rest = rest := by
  unfold TlvCert.takeBitString
  rw [bind_eq_ok]
  refine exists_congr fun t => and_congr_right fun _ => ?_
  cases t.body with
  | nil => simp
  | cons unused content' =>
    simp only [bind_eq_ok, ensure_eq_ok, pure, Except.pure, Except.ok.injEq, Prod.mk.injEq,
      List.cons.injEq]
    constructor
    · rintro ⟨-, hunused, hcontent, hrest⟩
      exact ⟨⟨hunused, hcontent⟩, hrest⟩
    · rintro ⟨⟨hunused, hcontent⟩, hrest⟩
      exact ⟨(), hunused, hcontent, hrest⟩

theorem inTree_lastBitString {β : Type} {k : Bytes × Bytes → Except CertParseError β}
    {k' : Bytes → Audit Demand β} (hk : ∀ content rest,
      Realizes Demand.InTree (k (content, rest)) (check (rest = []) >>= fun _ => k' content)) :
    Realizes Demand.InTree (TlvCert.takeBitString f r >>= k) (lastBitString f r >>= k') := by
  intro b
  simp only [bind_eq_ok, yields_bind, Prod.exists, yields_lastBitString, takeBitString_eq_ok,
    hk _ _ b, ← inTree_readTag _, yields_check]
  constructor
  · rintro ⟨content, rest, ⟨t, hread, hbody, rfl⟩, -, hrest, hyields⟩
    exact ⟨content, ⟨t, hread, hrest, hbody⟩, hyields⟩
  · rintro ⟨content, ⟨t, hread, hrest, hbody⟩, hyields⟩
    exact ⟨content, t.rest, ⟨t, hread, hbody, rfl⟩, (), hrest, hyields⟩

theorem inTree_version : Realizes Demand.InTree (TlvCert.takeVersion f r) (version f r) := by
  intro rest
  simp only [TlvCert.takeVersion, version, bind_eq_ok, ensure_eq_ok, yields_bind, yields_check,
    yields_pure, ← inTree_readTag _, pure_eq_ok, readExpected_eq_ok_iff]
  constructor
  · rintro ⟨tag, hpeek, -, rfl, t, hread, int, hint, -, hlen, -, hvalue, -, hrest, rfl⟩
    have htag := Except.ok.inj ((peekTag_of_takeTlv hread).symm.trans hpeek)
    have hbody : int.body = [x509V3] := by
      obtain ⟨b, hb⟩ := List.length_eq_one_iff.mp hlen
      rw [hb] at hvalue ⊢
      exact congrArg (· :: []) hvalue
    exact ⟨t, ⟨hread, htag⟩, int, hint, (), ⟨hbody, hrest⟩, rfl⟩
  · rintro ⟨t, ⟨hread, htag⟩, int, hint, -, ⟨hbody, hrest⟩, rfl⟩
    exact ⟨t.tag, peekTag_of_takeTlv hread, (), htag, t, hread, int, hint, (), by rw [hbody]; rfl, (),
      by rw [hbody]; rfl, (), hrest, rfl⟩

theorem inTree_critical : Realizes Demand.InTree (TlvCert.takeCritical f r) (critical f r) := by
  cases r with
  | nil => exact fun a => iff_of_false nofun fun h => (yields_check_bind.mp h).1 rfl
  | cons tag rest =>
    intro a
    have hpeek : TlvCert.takeCritical f (tag :: rest) =
        if tag = tagBoolean then (TlvCert.takeTlv f (tag :: rest)).map fun b => (derTrue b.body, b.rest)
        else .ok (false, tag :: rest) := rfl
    rw [hpeek, critical, yields_check_bind, and_iff_right (List.cons_ne_nil _ _)]
    simp only [List.head?_cons, Option.some.injEq]
    exact Realizes.ite (fun _ => inTree_read.map) (fun _ => .pure _) a

theorem inTree_nullParams :
    Realizes Demand.InTree (TlvCert.requireExplicitNullParams f r) (nullParams f r) := by
  intro u
  simp only [TlvCert.requireExplicitNullParams, nullParams, bind_eq_ok, ensure_eq_ok, yields_bind,
    yields_check, ← inTree_readTag _, readExpected_eq_ok_iff]
  constructor
  · rintro ⟨-, -, null, hread, -, ⟨htag, hbody⟩, hrest⟩
    exact ⟨null, ⟨hread, htag⟩, hbody, hrest⟩
  · rintro ⟨null, ⟨hread, htag⟩, hbody, hrest⟩
    have hne : r ≠ [] := by
      rintro rfl
      cases hread
    exact ⟨(), hne, null, hread, (), ⟨htag, hbody⟩, hrest⟩

theorem inTree_namedCurve : Realizes Demand.InTree (do
    let curve ← TlvCert.takeTlv f r
    ensure (curve.tag = tagOid ∧ curve.rest = []) .algorithmHasParameters
    pure curve.body) (namedCurve f r) := by
  intro curve
  simp only [namedCurve, bind_eq_ok, ensure_eq_ok, yields_bind, yields_check, yields_pure,
    ← inTree_readOid _, readExpected_eq_ok_iff, pure_eq_ok]
  constructor
  · rintro ⟨t, hread, -, ⟨htag, hrest⟩, rfl⟩
    exact ⟨t, ⟨hread, htag⟩, (), hrest, rfl⟩
  · rintro ⟨t, ⟨hread, htag⟩, -, hrest, rfl⟩
    exact ⟨t, hread, (), ⟨htag, hrest⟩, rfl⟩

theorem inTree_spkiKind :
    Realizes Demand.InTree (TlvCert.classifySpkiAlgorithm f r) (spkiKind f r) :=
  inTree_readWhole.bind fun _ => inTree_readOid.bind fun _ =>
    ofOid_realizes inTree_nullParams inTree_namedCurve

theorem inTree_rsaOuterSigAlg :
    Realizes Demand.InTree (TlvCert.classifyRsaOuterSigAlg f r) (rsaOuterSigAlg f r) := by
  refine inTree_readWhole.bind fun outer => inTree_readOid.bind fun oid => ?_
  refine .ite (fun _ => inTree_nullParams.bind fun _ => .pure _) fun _ => ?_
  refine .ite (fun _ => ?_) fun _ => .pure _
  exact .ite (fun _ => inTree_read.bind fun params => Realizes.ensure.bind fun _ => .pure _)
    fun _ => .pure _

theorem inTree_rsaTag : Realizes Demand.InTree (TlvCert.takeRsaTlv f r tag) (readTag f r tag) :=
  inTree_read.mapError.bind fun t => Realizes.ensure.bind fun _ => .pure t

theorem inTree_rsaPubkey :
    Realizes Demand.InTree (TlvCert.parseRsaPubkey f r) (rsaPubkey f r) := by
  have houter : Realizes Demand.InTree (TlvCert.takeRsaTlv f r tagSequence)
      (readWhole f r tagSequence) := by
    intro t
    rw [yields_readWhole, and_iff_left (show Demand.InTree (.nothingBehind t.rest) from trivial)]
    exact inTree_rsaTag t
  exact houter.bind fun outer => inTree_rsaTag.bind fun modulusTlv => (Realizes.ofExcept _).bind
    fun modulus => inTree_rsaTag.bind fun exponentTlv => (Realizes.ofExcept _).bind fun exponent =>
    Realizes.ensure.bind fun _ => .pure _

theorem inTree_view {parts : CertParts} :
    Realizes Demand.InTree (parts.view f (TlvCert.spkiParser f)) (view f parts) :=
  view_realizes (fun _ => inTree_spkiKind) (fun _ => inTree_rsaOuterSigAlg) fun _ => inTree_rsaPubkey

theorem skipCritical_eq : TlvCert.skipCritical f r = (TlvCert.takeCritical f r).map Prod.snd := by
  cases r with
  | nil => rfl
  | cons tag rest =>
    by_cases htag : tag = tagBoolean
    · simp only [TlvCert.skipCritical, TlvCert.takeCritical, TlvCert.peekTag, bind, Except.bind,
        if_pos htag]
      cases TlvCert.takeTlv f (tag :: rest) <;> rfl
    · simp only [TlvCert.skipCritical, TlvCert.takeCritical, TlvCert.peekTag, bind, Except.bind,
        if_neg htag]
      rfl

theorem takeExtension_eq_ok {ext : TlvCert.Extension} {rest : Bytes} :
    TlvCert.takeExtension f r = .ok (ext, rest) ↔ ∃ ext',
      Yields Demand.InTree (extension f r) (ext', rest) ∧ ext.oid = ext'.oid ∧
        ext.value = ext'.value := by
  simp only [TlvCert.takeExtension, extension, skipCritical_eq, bind_eq_ok, map_eq_ok, yields_bind,
    yields_pure, pure_eq_ok, ← inTree_readTag _, ← inTree_readOid _, ← inTree_critical _,
    Prod.exists, Prod.mk.injEq]
  constructor
  · rintro ⟨t, ht, oid, hoid, extR, ⟨critical, _, hcritical, rfl⟩, value, hvalue, rfl, rfl⟩
    exact ⟨_, ⟨t, ht, oid, hoid, critical, _, hcritical, value, hvalue, rfl, rfl⟩, rfl, rfl⟩
  · rintro ⟨ext', ⟨t, ht, oid, hoid, critical, extR, hcritical, value, hvalue, rfl, rfl⟩, hoid', hvalue'⟩
    obtain ⟨extOid, extValue⟩ := ext
    obtain rfl : extOid = oid.body := hoid'
    obtain rfl : extValue = value.body := hvalue'
    exact ⟨t, ht, oid, hoid, extR, ⟨critical, _, hcritical, rfl⟩, value, hvalue, rfl, rfl⟩

theorem sanLoop_result {extsR : Bytes} : ((TlvCert.sanLoop f).body extsR).result =
    if extsR = [] then .ok (.leave none)
    else TlvCert.takeExtension f extsR >>= fun next =>
      if next.1.oid = sanOid then
        (TlvCert.readExpected f next.1.value tagSequence).map fun san => .leave (some san.body)
      else .ok (.again next.2) := by
  by_cases hnil : extsR = []
  · simp only [TlvCert.sanLoop, if_pos hnil]
    rfl
  · simp only [TlvCert.sanLoop, if_neg hnil]
    cases TlvCert.takeExtension f extsR with
    | error e => rfl
    | ok next =>
      by_cases hoid : next.1.oid = sanOid
      · simp only [bind, Except.bind, if_pos hoid]
        cases TlvCert.readExpected f next.1.value tagSequence <;> rfl
      · simp only [bind, Except.bind, if_neg hoid]
        rfl

theorem inTree_san : Realizes Demand.InTree ((TlvCert.sanLoop f).run r) ((sanEntries f).run r) := by
  refine Walk.realizes_run (fun extsR => ?_) r
  rw [sanLoop_result]
  refine .ite (fun _ => .pure _) fun _ pass => ?_
  have hnext (ext : Extension) (rest : Bytes) : Realizes Demand.InTree
      (if ext.oid = sanOid then
        (TlvCert.readExpected f ext.value tagSequence).map fun san => Pass.leave (some san.body)
      else .ok (.again rest))
      (if ext.oid = sanOid then
        readWhole f ext.value tagSequence >>= fun san => pure (Pass.leave (some san.body))
      else pure (.again rest)) :=
    .ite (fun _ => inTree_readWhole.map) fun _ => .pure _
  rw [bind_eq_ok, yields_bind]
  constructor
  · rintro ⟨⟨ext, rest⟩, hext, hpass⟩
    obtain ⟨ext', hyields, hoid, hvalue⟩ := takeExtension_eq_ok.mp hext
    dsimp only at hpass
    rw [hoid, hvalue] at hpass
    exact ⟨(ext', rest), hyields, (hnext ext' rest pass).mp hpass⟩
  · rintro ⟨⟨ext', rest⟩, hyields, hpass⟩
    exact ⟨(⟨ext'.oid, ext'.value⟩, rest), takeExtension_eq_ok.mpr ⟨ext', hyields, rfl, rfl⟩,
      (hnext ext' rest pass).mpr hpass⟩

/-- The two walks over the fields behind the key differ in what they do with the extensions. -/
theorem inTree_tail {α : Type} {p : Loop (Except CertParseError α) Bytes} {absent : α}
    {found : Bytes → Except CertParseError α} {found' : Bytes → Audit Demand α}
    (hbody : ∀ tbsR, p.body tbsR = match tbsR with
      | [] => .leave (.ok absent)
      | tag :: _ =>
          if tag = tagCtxConstructed 3 then .leave do
            let extsExplicit ← TlvCert.takeTlv f tbsR
            let extsSeq ← TlvCert.readExpected f extsExplicit.body tagSequence
            found extsSeq.body
          else match TlvCert.takeTlv f tbsR with
            | .error e => .leave (.error e)
            | .ok t => .again t.rest)
    (hfound : ∀ extsR, Realizes Demand.InTree (found extsR) (found' extsR)) (tbsR : Bytes) :
    Realizes Demand.InTree (p.run tbsR) ((tail f absent found').run tbsR) := by
  refine Walk.realizes_run (fun tbsR => ?_) tbsR
  have hresult : (p.body tbsR).result = if tbsR = [] then .ok (.leave absent)
      else TlvCert.takeTlv f tbsR >>= fun t =>
        if t.tag = tagCtxConstructed 3 then
          TlvCert.readExpected f t.body tagSequence >>= fun exts =>
            found exts.body >>= fun a => .ok (.leave a)
        else .ok (.again t.rest) := by
    rw [hbody]
    cases tbsR with
    | nil => rfl
    | cons tag rest =>
      rw [if_neg (List.cons_ne_nil _ _)]
      dsimp only
      cases htake : TlvCert.takeTlv f (tag :: rest) with
      | error e => by_cases htag : tag = tagCtxConstructed 3 <;> simp [htag] <;> rfl
      | ok t =>
        have hpeek := peekTag_of_takeTlv htake
        obtain rfl : tag = t.tag := Except.ok.inj hpeek
        by_cases htag : t.tag = tagCtxConstructed 3
        · simp only [if_pos htag, bind, Except.bind]
          cases TlvCert.readExpected f t.body tagSequence with
          | error e => rfl
          | ok exts =>
            dsimp only
            cases found exts.body <;> rfl
        · simp only [if_neg htag, bind, Except.bind]
          rfl
  rw [hresult]
  refine .ite (fun _ => .pure _) fun _ => inTree_read.bind fun t => ?_
  exact .ite (fun _ => inTree_readWhole.bind fun exts => (hfound _).bind fun a => .pure _)
    fun _ => .pure _

theorem inTree_parts : Realizes Demand.InTree (TlvCert.parts f r) (parts f r) := by
  refine inTree_readWhole.bind fun outer => inTree_readTag.bind fun tbs =>
    inTree_readField.bind fun outerAlg => ?_
  refine inTree_lastBitString fun signature _ => Realizes.ensure.bind fun _ => ?_
  refine inTree_version.bind fun tbsR => inTree_readField.bind fun serial =>
    inTree_readField.bind fun tbsAlg => Realizes.ensure.bind fun _ => ?_
  refine inTree_readField.bind fun issuer => inTree_readField.bind fun validity =>
    inTree_readField.bind fun subject => inTree_readTag.bind fun spki =>
    inTree_read.bind fun spkiAlg => ?_
  refine inTree_lastBitString fun pk _ => Realizes.ensure.bind fun _ =>
    Realizes.bind ?_ fun san => .pure _
  exact inTree_tail (fun tbsR => by cases tbsR <;> rfl) (fun _ => inTree_san) _

theorem inTree_parse : Realizes Demand.InTree (TlvCert.parse f r) (parse f r) :=
  inTree_parts.bind fun _ => inTree_view

theorem inTree_skipTlvs (n : Nat) :
    Realizes Demand.InTree (TlvCert.skipTlvs f n r) (skipTlvs f n r) := by
  induction n generalizing r with
  | zero => exact .pure r
  | succ n ih => exact inTree_read.bind fun t => ih

theorem inTree_tbsFields : Realizes Demand.InTree (TlvCert.tbsFields f r) (tbsFields f r) := by
  refine inTree_readWhole.bind fun outer => inTree_readTag.bind fun tbs => ?_
  cases tbs.body with
  | nil => exact fun a => iff_of_false nofun fun h => (yields_check_bind.mp h).1 rfl
  | cons tag rest =>
    intro a
    rw [yields_check_bind, and_iff_right (List.cons_ne_nil _ _)]
    simp only [List.head?_cons, Option.some.injEq]
    exact Realizes.ite (fun _ => inTree_read.map) (fun _ => .pure _) a

theorem inTree_spkiDer : Realizes Demand.InTree (TlvCert.spkiDer f r) (spkiDer f r) :=
  inTree_tbsFields.bind fun _ => (inTree_skipTlvs 5).bind fun _ => inTree_read.bind fun _ => .pure _

theorem inTree_pathLen : Realizes Demand.InTree (TlvCert.takePathLen f r) (pathLen f r) :=
  .ite (fun _ => inTree_read.bind fun _ => (Realizes.ofExcept _).bind fun _ => .pure _) fun _ => .pure _

theorem inTree_basicConstraints :
    Realizes Demand.InTree (TlvCert.parseBasicConstraints f out r) (basicConstraints f out r) := by
  refine inTree_readTag.bind fun seq => Realizes.ensure.bind fun _ => ?_
  by_cases hflag : seq.body.head? = some tagBoolean
  · simp only [caFlag, if_pos hflag]
    exact inTree_read.map.bind fun _ => inTree_pathLen.bind fun _ => .pure _
  · simp only [caFlag, if_neg hflag]
    exact (Realizes.pure _).bind fun _ => inTree_pathLen.bind fun _ => .pure _

theorem inTree_keyUsage :
    Realizes Demand.InTree (TlvCert.keyUsageCertSign f r) (keyUsage f r) :=
  inTree_readTag.bind fun _ => Realizes.ensure.bind fun _ => .pure _

theorem inTree_caExtension :
    Realizes Demand.InTree (TlvCert.takeCaExtension f out r) (extension f r >>= fun next =>
      extend f out next.1 >>= fun out => pure (out, next.2)) := by
  intro a
  simp only [TlvCert.takeCaExtension, extension, bind_eq_ok, yields_bind, yields_pure, pure_eq_ok,
    ← inTree_readTag _, ← inTree_readOid _, ← inTree_critical _, Prod.exists, Prod.mk.injEq]
  constructor
  · rintro ⟨t, ht, oid, hoid, critical, extR, hcritical, value, hvalue, out', hextend, rfl⟩
    exact ⟨⟨oid.body, critical, value.body⟩, t.rest, ⟨t, ht, oid, hoid, critical, extR, hcritical, value,
      hvalue, rfl, rfl⟩, out', (extend_realizes (fun _ _ => inTree_basicConstraints)
      (fun _ => inTree_keyUsage) out').mp hextend, rfl⟩
  · rintro ⟨_, _, ⟨t, ht, oid, hoid, critical, extR, hcritical, value, hvalue, rfl, rfl⟩, out', hextend,
      rfl⟩
    exact ⟨t, ht, oid, hoid, critical, extR, hcritical, value, hvalue, out',
      (extend_realizes (fun _ _ => inTree_basicConstraints) (fun _ => inTree_keyUsage) out').mpr hextend,
      rfl⟩

theorem inTree_ca :
    Realizes Demand.InTree ((TlvCert.caLoop f).run (out, r)) ((caEntries f).run (out, r)) := by
  refine Walk.realizes_run (fun s => ?_) (out, r)
  have hresult : ((TlvCert.caLoop f).body s).result = if s.2 = [] then .ok (.leave s.1)
      else (TlvCert.takeCaExtension f s.1 s.2).map .again := by
    by_cases hnil : s.2 = []
    · simp only [TlvCert.caLoop, if_pos hnil]
      rfl
    · simp only [TlvCert.caLoop, if_neg hnil]
      cases TlvCert.takeCaExtension f s.1 s.2 <;> rfl
  rw [hresult]
  exact .ite (fun _ => .pure _) fun _ => caPass_realizes inTree_caExtension

theorem inTree_caConstraints :
    Realizes Demand.InTree (TlvCert.parseCaConstraints f r) (caConstraints f r) := by
  refine (inTree_tbsFields.bind fun _ => inTree_skipTlvs 6).bind fun tbsR => ?_
  exact inTree_tail (fun tbsR => by cases tbsR <;> rfl) (fun _ => inTree_ca) tbsR

end InTree

end CertWalk

end KrabiTls
