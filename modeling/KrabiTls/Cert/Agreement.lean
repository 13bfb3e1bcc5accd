import KrabiTls.Cert.DerCert
import KrabiTls.Cert.Walk

/-! The two certificate parsers side by side. -/
namespace KrabiTls
open Lib

def DerTag.ofByte (b : UInt8) : DerTag :=
  if b = tagBoolean then .boolean
  else if b = tagInteger then .integer
  else if b = tagBitString then .bitString
  else if b = tagOctetString then .octetString
  else if b = tagNull then .null
  else if b = tagSequence then .sequence
  else if b &&& 0xC0 = 0x80 then .contextSpecific (b &&& 0x20 ≠ 0) (b &&& 0x1F).toNat
  else .other b

def DerTag.toByte : DerTag → UInt8
  | .boolean => tagBoolean
  | .integer => tagInteger
  | .bitString => tagBitString
  | .octetString => tagOctetString
  | .null => tagNull
  | .sequence => tagSequence
  | .contextSpecific constructed number => (if constructed then 0xA0 else 0x80) ||| UInt8.ofNat number
  | .other b => b

theorem DerTag.toByte_ofByte (b : UInt8) : (ofByte b).toByte = b := by
  have hall : ∀ n : Fin 256, (ofByte (UInt8.ofFin n)).toByte = UInt8.ofFin n := by decide +kernel
  exact hall b.toFin

theorem DerTag.ofByte_inj {b b' : UInt8} : ofByte b = ofByte b' ↔ b = b' := by
  constructor
  · intro h
    rw [← toByte_ofByte b, ← toByte_ofByte b', h]
  · rintro rfl
    rfl

/-- The value at the front of a byte string, if its length is minimally encoded. -/
def canonicalTlv (usizeBits : Nat) (r : Bytes) : Option Tlv :=
  (readTlv usizeBits r).filter fun t => t.MinimalLength

theorem canonicalTlv_eq_some {usizeBits : Nat} {r : Bytes} {t : Tlv} :
    canonicalTlv usizeBits r = some t ↔ readTlv usizeBits r = some t ∧ t.MinimalLength := by
  simp [canonicalTlv, Option.filter_eq_some_iff]

/-- The bits of a BIT STRING: the number of unused ones, the content. -/
def bitStringContent (t : Tlv) : Option (Nat × Bytes × Bytes) :=
  match t.body with
  | [] => none
  | unused :: content =>
      if t.tag = tagBitString ∧ unused.toNat < 8 ∧ (unused = 0 ∨ content ≠ []) then
        some (unused.toNat, content, t.rest)
      else none

/-- The crate decodes values with a tag of one byte and a definite, minimally encoded length.
`arcsOk` is its check on the arcs of an object identifier. -/
structure DerCrate.Canonical (d : DerCrate) (usizeBits : Nat) (arcsOk : Bytes → Bool) : Prop where
  readerOk : ∀ {r t}, canonicalTlv usizeBits r = some t → d.readerOk t.body = true
  peek : ∀ r, d.peek r = r.head?.map .ofByte
  any : ∀ r, d.any r = (canonicalTlv usizeBits r).map fun t => (⟨.ofByte t.tag, t.body⟩, t.rest)
  anyFrom : ∀ r, d.anyFrom r =
    ((canonicalTlv usizeBits r).filter (·.rest = [])).map fun t => ⟨.ofByte t.tag, t.body⟩
  tlvBytes : ∀ r, d.tlvBytes r =
    (canonicalTlv usizeBits r).map fun t => (TlvCert.fullTlv r t, t.rest)
  bitString : ∀ r, d.bitString r = (canonicalTlv usizeBits r).bind bitStringContent
  oid : ∀ r, d.oid r = ((canonicalTlv usizeBits r).filter fun t => t.tag = tagOid ∧ arcsOk t.body).map
    fun t => (t.body, t.rest)

theorem DerCert.parts_eq (d : DerCrate) (certDer : Bytes) :
    parts d certDer = readSequence d certDer >>= fun body => mapErr (d.tlvBytes body) >>= fun tbs =>
      mapErr (d.tlvBytes tbs.2) >>= fun outerSigAlg => lastBitString d outerSigAlg.2 >>= fun signature =>
        readSequence d tbs.1 >>= fun tbsR => tbsParts d tbs.1 outerSigAlg.1 signature tbsR := rfl

namespace CertWalk
open Audit DerCert

variable {f : Features} {d : DerCrate} {arcsOk : Bytes → Bool} {r : Bytes} {β : Type}

theorem inDer_read {t : Tlv} :
    Yields (Demand.InDer arcsOk) (read f r) t ↔ canonicalTlv f.usizeBits r = some t := by
  rw [yields_read, canonicalTlv_eq_some]
  exact Iff.rfl

/-- The encoding of a value is a value that is the whole of its input. -/
theorem canonicalTlv_fullTlv {t : Tlv} (h : canonicalTlv f.usizeBits r = some t) :
    canonicalTlv f.usizeBits (TlvCert.fullTlv r t) = some { t with rest := [] } := by
  obtain ⟨hread, hminimal⟩ := canonicalTlv_eq_some.mp h
  obtain ⟨-, -, -, -, hcongr⟩ := readTlv_eq_some hread
  have hwhole := hcongr []
  rw [List.append_nil] at hwhole
  exact canonicalTlv_eq_some.mpr ⟨hwhole, hminimal⟩

theorem derSanLoop_result {extsR : Bytes} : ((DerCert.sanLoop d).body extsR).result =
    if extsR = [] then .ok (.leave none)
    else DerCert.takeExtension d extsR >>= fun next =>
      if next.1.oid = sanOid then
        mapErr (d.anyFrom next.1.value) >>= fun san => ensure (san.tag = .sequence) .malformed >>=
          fun _ => .ok (.leave (some san.value))
      else .ok (.again next.2) := by
  by_cases hnil : extsR = []
  · simp only [DerCert.sanLoop, if_pos hnil]
    rfl
  · simp only [DerCert.sanLoop, if_neg hnil]
    cases DerCert.takeExtension d extsR with
    | error e => rfl
    | ok next =>
      by_cases hoid : next.1.oid = sanOid
      · simp only [bind, Except.bind, if_pos hoid]
        cases d.anyFrom next.1.value with
        | none => rfl
        | some san =>
          dsimp only [mapErr]
          cases ensure (san.tag = .sequence) CertParseError.malformed <;> rfl
      · simp only [bind, Except.bind, if_neg hoid]
        rfl

section InDer
variable (hd : d.Canonical f.usizeBits arcsOk)
variable {k' : Tlv → Audit Demand β} {k : Bytes × Bytes → Except CertParseError β} {rest : Bytes}
  {out : CaConstraints}
include hd

theorem inDer_any {k : AnyRef × Bytes → Except CertParseError β}
    (hk : ∀ t, Realizes (Demand.InDer arcsOk) (k (⟨.ofByte t.tag, t.body⟩, t.rest)) (k' t)) :
    Realizes (Demand.InDer arcsOk) (mapErr (d.any r) >>= k) (read f r >>= k') := by
  intro b
  simp only [bind_eq_ok, mapErr_eq_ok, hd.any, Option.map_eq_some_iff, yields_bind, inDer_read,
    ← hk _ b]
  constructor
  · rintro ⟨_, ⟨t, ht, rfl⟩, hb⟩
    exact ⟨t, ht, hb⟩
  · rintro ⟨t, ht, hb⟩
    exact ⟨_, ⟨t, ht, rfl⟩, hb⟩

theorem inDer_tlvBytes (hk : ∀ t, canonicalTlv f.usizeBits r = some t →
      Realizes (Demand.InDer arcsOk) (k (TlvCert.fullTlv r t, t.rest)) (k' t)) :
    Realizes (Demand.InDer arcsOk) (mapErr (d.tlvBytes r) >>= k) (read f r >>= k') := by
  intro b
  simp only [bind_eq_ok, mapErr_eq_ok, hd.tlvBytes, Option.map_eq_some_iff, yields_bind, inDer_read]
  constructor
  · rintro ⟨_, ⟨t, ht, rfl⟩, hb⟩
    exact ⟨t, ht, (hk t ht b).mp hb⟩
  · rintro ⟨t, ht, hb⟩
    exact ⟨_, ⟨t, ht, rfl⟩, (hk t ht b).mpr hb⟩

theorem inDer_field {expected : UInt8} (hk : ∀ t, canonicalTlv f.usizeBits r = some t →
      Realizes (Demand.InDer arcsOk) (k (TlvCert.fullTlv r t, t.rest)) (k' t)) :
    Realizes (Demand.InDer arcsOk) (mapErr (d.tlvBytes r) >>= k) (readField f r expected >>= k') := by
  have hfield : readField f r expected >>= k' =
      read f r >>= fun t => leaveOpen (.fieldTag t.tag expected) >>= fun _ => k' t := by
    simp only [readField, bind_assoc, pure_bind]
  rw [hfield]
  refine inDer_tlvBytes hd fun t ht b => ?_
  rw [hk t ht b, yields_bind]
  constructor
  · exact fun h => ⟨(), yields_leaveOpen.mpr trivial, h⟩
  · rintro ⟨_, _, h⟩
    exact h

theorem anyFrom_eq_ok {v : AnyRef} : mapErr (d.anyFrom r) = .ok v ↔
    ∃ t, canonicalTlv f.usizeBits r = some t ∧ t.rest = [] ∧ v = ⟨.ofByte t.tag, t.body⟩ := by
  simp only [mapErr_eq_ok, hd.anyFrom, Option.map_eq_some_iff, Option.filter_eq_some_iff,
    decide_eq_true_eq]
  constructor
  · rintro ⟨t, ⟨ht, hrest⟩, rfl⟩
    exact ⟨t, ht, hrest, rfl⟩
  · rintro ⟨t, ht, hrest, rfl⟩
    exact ⟨t, ⟨ht, hrest⟩, rfl⟩

theorem readSequence_eq_ok {body : Bytes} : readSequence d r = .ok body ↔
    ∃ t, canonicalTlv f.usizeBits r = some t ∧ t.rest = [] ∧ t.tag = tagSequence ∧ t.body = body := by
  have hsequence : DerTag.sequence = .ofByte tagSequence := rfl
  simp only [readSequence, reader, bind_eq_ok, anyFrom_eq_ok hd, ensure_eq_ok, pure_eq_ok]
  constructor
  · rintro ⟨_, ⟨t, ht, hrest, rfl⟩, -, htag, -, -, rfl⟩
    exact ⟨t, ht, hrest, DerTag.ofByte_inj.mp (hsequence ▸ htag), rfl⟩
  · rintro ⟨t, ht, hrest, htag, rfl⟩
    exact ⟨_, ⟨t, ht, hrest, rfl⟩, (), by rw [htag, hsequence], (), hd.readerOk ht, rfl⟩

theorem inDer_sequence {k : Bytes → Except CertParseError β}
    (hk : ∀ t, Realizes (Demand.InDer arcsOk) (k t.body) (k' t)) :
    Realizes (Demand.InDer arcsOk) (readSequence d r >>= k) (readWhole f r tagSequence >>= k') := by
  intro b
  simp only [bind_eq_ok, yields_bind, readSequence_eq_ok hd, yields_readWhole, yields_readTag,
    inDer_read]
  constructor
  · rintro ⟨_, ⟨t, ht, hrest, htag, rfl⟩, hb⟩
    exact ⟨t, ⟨⟨ht, htag⟩, hrest⟩, (hk t b).mp hb⟩
  · rintro ⟨t, ⟨⟨ht, htag⟩, hrest⟩, hb⟩
    exact ⟨_, ⟨t, ht, hrest, htag, rfl⟩, (hk t b).mpr hb⟩

theorem oid_eq_ok {oid : Bytes} : mapErr (d.oid r) = .ok (oid, rest) ↔
    ∃ t, Yields (Demand.InDer arcsOk) (readOid f r) t ∧ oid = t.body ∧ rest = t.rest := by
  simp only [mapErr_eq_ok, hd.oid, Option.map_eq_some_iff, Option.filter_eq_some_iff,
    decide_eq_true_eq, yields_readOid, yields_readTag, inDer_read]
  constructor
  · rintro ⟨t, ⟨ht, htag, harcs⟩, heq⟩
    cases heq
    exact ⟨t, ⟨⟨ht, htag⟩, harcs⟩, rfl, rfl⟩
  · rintro ⟨t, ⟨⟨ht, htag⟩, harcs⟩, rfl, rfl⟩
    exact ⟨t, ⟨ht, htag, harcs⟩, rfl⟩

theorem inDer_oid (hk : ∀ t, Realizes (Demand.InDer arcsOk) (k (t.body, t.rest)) (k' t)) :
    Realizes (Demand.InDer arcsOk) (mapErr (d.oid r) >>= k) (readOid f r >>= k') := by
  intro b
  simp only [bind_eq_ok, Prod.exists, oid_eq_ok hd, yields_bind]
  constructor
  · rintro ⟨_, _, ⟨t, ht, rfl, rfl⟩, hb⟩
    exact ⟨t, ht, (hk t b).mp hb⟩
  · rintro ⟨t, ht, hb⟩
    exact ⟨_, _, ⟨t, ht, rfl, rfl⟩, (hk t b).mpr hb⟩

theorem inDer_lastBitString :
    Realizes (Demand.InDer arcsOk) (DerCert.lastBitString d r) (CertWalk.lastBitString f r) := by
  intro content
  simp only [DerCert.lastBitString, bind_eq_ok, mapErr_eq_ok, hd.bitString, Option.bind_eq_some_iff,
    ensure_eq_ok, pure_eq_ok, yields_lastBitString, yields_readTag, inDer_read, Prod.exists]
  constructor
  · rintro ⟨unused, _, rest, ⟨t, ht, hbits⟩, -, rfl, -, rfl, rfl⟩
    unfold bitStringContent at hbits
    split at hbits
    · cases hbits
    · rename_i unused content hbody
      split at hbits
      · rename_i hvalid
        obtain ⟨hunused, rfl, hrest⟩ : unused.toNat = 0 ∧ content = _ ∧ t.rest = [] := by
          simpa using hbits
        have hzero : unused = 0 := UInt8.toNat_inj.mp hunused
        exact ⟨t, ⟨ht, hvalid.1⟩, hrest, hzero ▸ hbody⟩
      · cases hbits
  · rintro ⟨t, ⟨ht, htag⟩, hrest, hbody⟩
    refine ⟨0, content, [], ⟨t, ht, ?_⟩, (), rfl, (), rfl, rfl⟩
    unfold bitStringContent
    rw [hbody]
    dsimp only
    rw [if_pos ⟨htag, by decide, .inl rfl⟩, hrest]
    rfl

theorem any_eq_ok {v : AnyRef} : mapErr (d.any r) = .ok (v, rest) ↔
    ∃ t, canonicalTlv f.usizeBits r = some t ∧ v = ⟨.ofByte t.tag, t.body⟩ ∧ rest = t.rest := by
  rw [mapErr_eq_ok, hd.any, Option.map_eq_some_iff]
  constructor
  · rintro ⟨t, ht, heq⟩
    cases heq
    exact ⟨t, ht, rfl, rfl⟩
  · rintro ⟨t, ht, rfl, rfl⟩
    exact ⟨t, ht, rfl⟩

theorem peek_of_canonicalTlv {t : Tlv} (h : canonicalTlv f.usizeBits r = some t) :
    mapErr (d.peek r) = .ok (.ofByte t.tag) := by
  rw [hd.peek, (readTlv_eq_some (canonicalTlv_eq_some.mp h).1).1]
  rfl

theorem inDer_version :
    Realizes (Demand.InDer arcsOk) (DerCert.takeVersion d r) (CertWalk.version f r) := by
  have hctx : DerTag.contextSpecific true 0 = .ofByte (tagCtxConstructed 0) := by decide
  have hinteger : DerTag.integer = .ofByte tagInteger := rfl
  intro rest
  simp only [DerCert.takeVersion, CertWalk.version, reader, bind_eq_ok, ensure_eq_ok, pure_eq_ok,
    yields_bind, yields_check, yields_pure, yields_readTag, inDer_read, Prod.exists, any_eq_ok hd]
  constructor
  · rintro ⟨_, hpeek, -, rfl, _, _, ⟨t, ht, rfl, rfl⟩, _, ⟨-, -, rfl⟩, _, _, ⟨int, hint, rfl, rfl⟩, -,
      ⟨hintTag, hlen⟩, -, hvalue, -, hrest, rfl⟩
    have htag : t.tag = tagCtxConstructed 0 := DerTag.ofByte_inj.mp
      (Except.ok.inj ((peek_of_canonicalTlv hd ht).symm.trans (hctx ▸ hpeek)))
    have hbody : int.body = [x509V3] := by
      obtain ⟨b, hb⟩ : ∃ b, int.body = [b] := List.length_eq_one_iff.mp hlen
      dsimp only at hvalue
      rw [hb] at hvalue ⊢
      exact congrArg (· :: []) hvalue
    exact ⟨t, ⟨ht, htag⟩, int, ⟨hint, DerTag.ofByte_inj.mp (hinteger ▸ hintTag)⟩, (), ⟨hbody, hrest⟩, rfl⟩
  · rintro ⟨t, ⟨ht, htag⟩, int, ⟨hint, hintTag⟩, -, ⟨hbody, hrest⟩, rfl⟩
    exact ⟨_, peek_of_canonicalTlv hd ht, (), by rw [htag, hctx], _, _, ⟨t, ht, rfl, rfl⟩, _,
      ⟨(), hd.readerOk ht, rfl⟩, _, _, ⟨int, hint, rfl, rfl⟩, (),
      ⟨by rw [hintTag, hinteger], by rw [hbody]; rfl⟩, (), by rw [hbody]; rfl, (), hrest, rfl⟩

theorem inDer_peek (tag : UInt8) {m m' : Except CertParseError β} {w w' : Audit Demand β}
    (hm : Realizes (Demand.InDer arcsOk) m w) (hm' : Realizes (Demand.InDer arcsOk) m' w') :
    Realizes (Demand.InDer arcsOk)
      (mapErr (d.peek r) >>= fun next => if next = .ofByte tag then m else m')
      (check (r ≠ []) >>= fun _ => if r.head? = some tag then w else w') := by
  rw [hd.peek]
  cases r with
  | nil => exact fun a => iff_of_false nofun fun h => (yields_check_bind.mp h).1 rfl
  | cons first rest =>
    intro a
    rw [yields_check_bind, and_iff_right (List.cons_ne_nil _ _)]
    simp only [List.head?_cons, Option.map_some, mapErr, bind, Except.bind, DerTag.ofByte_inj,
      Option.some.injEq]
    exact Realizes.ite (fun _ => hm) (fun _ => hm') a

theorem inDer_critical :
    Realizes (Demand.InDer arcsOk) (DerCert.takeCritical d r) (CertWalk.critical f r) := by
  refine inDer_peek hd tagBoolean ?_ (.pure _)
  rw [map_eq_bind]
  exact inDer_any hd fun t => .pure (derTrue t.body, t.rest)

theorem skipCritical_eq_ok : DerCert.skipCritical d r = .ok rest ↔
    ∃ critical, DerCert.takeCritical d r = .ok (critical, rest) := by
  simp only [DerCert.skipCritical, DerCert.takeCritical, bind_eq_ok]
  rw [exists_comm]
  refine exists_congr fun tag => ?_
  rw [exists_and_left]
  refine and_congr_right fun _ => ?_
  split
  · simp only [map_eq_ok, mapErr_eq_ok, hd.any, hd.tlvBytes, Option.map_eq_some_iff]
    constructor
    · rintro ⟨_, ⟨t, ht, rfl⟩, rfl⟩
      exact ⟨_, _, ⟨t, ht, rfl⟩, rfl⟩
    · rintro ⟨_, _, ⟨t, ht, rfl⟩, heq⟩
      cases heq
      exact ⟨_, ⟨t, ht, rfl⟩, rfl⟩
  · constructor
    · rintro ⟨⟩
      exact ⟨false, rfl⟩
    · rintro ⟨_, ⟨⟩⟩
      rfl

theorem derTakeExtension_eq_ok {ext : DerCert.Extension} :
    DerCert.takeExtension d r = .ok (ext, rest) ↔ ∃ ext',
      Yields (Demand.InDer arcsOk) (extension f r) (ext', rest) ∧ ext.oid = ext'.oid ∧
        ext.value = ext'.value := by
  have hsequence : DerTag.sequence = .ofByte tagSequence := rfl
  have hoctets : DerTag.octetString = .ofByte tagOctetString := rfl
  simp only [DerCert.takeExtension, extension, reader, bind_eq_ok, ensure_eq_ok, yields_bind,
    yields_pure, pure_eq_ok, Prod.exists, any_eq_ok hd, oid_eq_ok hd, skipCritical_eq_ok hd,
    ← inDer_critical hd _, yields_readTag, inDer_read, Prod.mk.injEq]
  constructor
  · rintro ⟨_, _, ⟨t, ht, rfl, rfl⟩, -, htag, _, ⟨-, -, rfl⟩, _, _, ⟨oid, hoid, rfl, rfl⟩, extR,
      ⟨critical, hcritical⟩, _, _, ⟨value, hvalue, rfl, rfl⟩, -, hvalueTag, rfl, rfl⟩
    exact ⟨_, ⟨t, ⟨ht, DerTag.ofByte_inj.mp (hsequence ▸ htag)⟩, oid, hoid, critical, extR, hcritical,
      value, ⟨hvalue, DerTag.ofByte_inj.mp (hoctets ▸ hvalueTag)⟩, rfl, rfl⟩, rfl, rfl⟩
  · rintro ⟨_, ⟨t, ⟨ht, htag⟩, oid, hoid, critical, extR, hcritical, value, ⟨hvalue, hvalueTag⟩, rfl,
      rfl⟩, hoid', hvalue'⟩
    obtain ⟨extOid, extValue⟩ := ext
    obtain rfl : extOid = oid.body := hoid'
    obtain rfl : extValue = value.body := hvalue'
    exact ⟨_, _, ⟨t, ht, rfl, rfl⟩, (), by rw [htag, hsequence], _, ⟨(), hd.readerOk ht, rfl⟩, _, _,
      ⟨oid, hoid, rfl, rfl⟩, extR, ⟨critical, hcritical⟩, _, _, ⟨value, hvalue, rfl, rfl⟩, (),
      by rw [hvalueTag, hoctets], rfl, rfl⟩

/-- The SubjectAltName is a SEQUENCE that is the whole of the extension's value. -/
theorem inDer_sanValue {γ : Type} {g : Bytes → γ} : Realizes (Demand.InDer arcsOk)
    (mapErr (d.anyFrom r) >>= fun san => ensure (san.tag = .sequence) .malformed >>=
      fun _ => .ok (g san.value))
    (readWhole f r tagSequence >>= fun san => pure (g san.body)) := by
  have hsequence : DerTag.sequence = .ofByte tagSequence := rfl
  intro a
  simp only [bind_eq_ok, ensure_eq_ok, anyFrom_eq_ok hd, yields_bind, yields_pure, yields_readWhole,
    yields_readTag, inDer_read, Except.ok.injEq]
  constructor
  · rintro ⟨_, ⟨t, ht, hrest, rfl⟩, -, htag, rfl⟩
    exact ⟨t, ⟨⟨ht, DerTag.ofByte_inj.mp (hsequence ▸ htag)⟩, hrest⟩, rfl⟩
  · rintro ⟨t, ⟨⟨ht, htag⟩, hrest⟩, rfl⟩
    exact ⟨_, ⟨t, ht, hrest, rfl⟩, (), by rw [htag, hsequence], rfl⟩

theorem inDer_san :
    Realizes (Demand.InDer arcsOk) ((DerCert.sanLoop d).run r) ((sanEntries f).run r) := by
  refine Walk.realizes_run (fun extsR => ?_) r
  rw [derSanLoop_result]
  refine .ite (fun _ => .pure _) fun _ pass => ?_
  have hnext (ext : Extension) (rest : Bytes) : Realizes (Demand.InDer arcsOk)
      (if ext.oid = sanOid then
        mapErr (d.anyFrom ext.value) >>= fun san => ensure (san.tag = .sequence) .malformed >>=
          fun _ => .ok (Pass.leave (some san.value))
      else .ok (.again rest))
      (if ext.oid = sanOid then
        readWhole f ext.value tagSequence >>= fun san => pure (Pass.leave (some san.body))
      else pure (.again rest)) :=
    .ite (fun _ => inDer_sanValue hd (g := fun names => Pass.leave (some names))) fun _ => .pure _
  rw [bind_eq_ok, yields_bind]
  constructor
  · rintro ⟨⟨ext, rest⟩, hext, hpass⟩
    obtain ⟨ext', hyields, hoid, hvalue⟩ := (derTakeExtension_eq_ok hd).mp hext
    dsimp only at hpass
    rw [hoid, hvalue] at hpass
    exact ⟨(ext', rest), hyields, (hnext ext' rest pass).mp hpass⟩
  · rintro ⟨⟨ext', rest⟩, hyields, hpass⟩
    exact ⟨(⟨ext'.oid, ext'.value⟩, rest), (derTakeExtension_eq_ok hd).mpr ⟨ext', hyields, rfl, rfl⟩,
      (hnext ext' rest pass).mpr hpass⟩

theorem inDer_nullParams : Realizes (Demand.InDer arcsOk) (DerCert.requireExplicitNullParams d r)
    (nullParams f r) := by
  have hnull : DerTag.null = .ofByte tagNull := rfl
  intro u
  simp only [DerCert.requireExplicitNullParams, nullParams, bind_eq_ok, ensure_eq_ok, yields_bind,
    yields_check, yields_readTag, inDer_read, Prod.exists, any_eq_ok hd]
  constructor
  · rintro ⟨-, -, _, _, ⟨null, hread, rfl, rfl⟩, -, ⟨htag, hbody⟩, hrest⟩
    exact ⟨null, ⟨hread, DerTag.ofByte_inj.mp (hnull ▸ htag)⟩, hbody, hrest⟩
  · rintro ⟨null, ⟨hread, htag⟩, hbody, hrest⟩
    have hne : r ≠ [] := by
      rintro rfl
      cases hread
    exact ⟨(), hne, _, _, ⟨null, hread, rfl, rfl⟩, (), ⟨by rw [htag, hnull], hbody⟩, hrest⟩

theorem inDer_spkiKind :
    Realizes (Demand.InDer arcsOk) (DerCert.classifySpkiAlgorithm d f r) (spkiKind f r) := by
  refine inDer_sequence hd fun outer => inDer_oid hd fun oid => ?_
  refine ofOid_realizes (inDer_nullParams hd) ?_
  exact inDer_oid hd fun curve => Realizes.ensure.bind fun _ => .pure _

theorem inDer_rsaOuterSigAlg :
    Realizes (Demand.InDer arcsOk) (DerCert.classifyRsaOuterSigAlg d f r) (rsaOuterSigAlg f r) := by
  refine inDer_sequence hd fun outer => inDer_oid hd fun oid => ?_
  refine .ite (fun _ => (inDer_nullParams hd).bind fun _ => .pure _) fun _ => ?_
  refine .ite (fun _ => ?_) fun _ => .pure _
  exact .ite (fun _ => inDer_any hd fun params => Realizes.ensure.bind fun _ => .pure _)
    fun _ => .pure _

theorem inDer_rsaInteger (hk : ∀ t, Realizes (Demand.InDer arcsOk) (k (t.body, t.rest)) (k' t)) :
    Realizes (Demand.InDer arcsOk) (DerCert.takeRsaInteger d r >>= k)
      (readTag f r tagInteger >>= k') := by
  have hinteger : DerTag.integer = .ofByte tagInteger := rfl
  intro b
  simp only [DerCert.takeRsaInteger, bind_eq_ok, mapError_eq_ok, ensure_eq_ok, pure_eq_ok,
    Prod.exists, any_eq_ok hd, yields_bind, yields_readTag, inDer_read, Prod.mk.injEq]
  constructor
  · rintro ⟨_, _, ⟨_, _, ⟨t, ht, rfl, rfl⟩, -, htag, rfl, rfl⟩, hb⟩
    exact ⟨t, ⟨ht, DerTag.ofByte_inj.mp (hinteger ▸ htag)⟩, (hk t b).mp hb⟩
  · rintro ⟨t, ⟨ht, htag⟩, hb⟩
    exact ⟨_, _, ⟨_, _, ⟨t, ht, rfl, rfl⟩, (), by rw [htag, hinteger], rfl, rfl⟩, (hk t b).mpr hb⟩

theorem inDer_rsaPubkey :
    Realizes (Demand.InDer arcsOk) (DerCert.parseRsaPubkey d f r) (rsaPubkey f r) := by
  have houter {k : Bytes → Except CertParseError (Bytes × Nat)} {k' : Tlv → Audit Demand (Bytes × Nat)}
      (hk : ∀ t, Realizes (Demand.InDer arcsOk) (k t.body) (k' t)) :
      Realizes (Demand.InDer arcsOk)
        ((readSequence d r).mapError (fun _ => CertParseError.badRsaPubkey) >>= k)
        (readWhole f r tagSequence >>= k') := by
    intro b
    rw [← inDer_sequence hd hk b]
    simp only [bind_eq_ok, mapError_eq_ok]
  refine houter fun outer => inDer_rsaInteger hd fun modulusTlv => ?_
  refine (Realizes.ofExcept _).bind fun modulus => inDer_rsaInteger hd fun exponentTlv => ?_
  exact (Realizes.ofExcept _).bind fun exponent => Realizes.ensure.bind fun _ => .pure _

theorem inDer_view {parts : CertParts} :
    Realizes (Demand.InDer arcsOk) (parts.view f (DerCert.spkiParser d f)) (view f parts) :=
  view_realizes (fun _ => inDer_spkiKind hd) (fun _ => inDer_rsaOuterSigAlg hd)
    fun _ => inDer_rsaPubkey hd

/-- The two walks over the fields behind the key differ in what they do with the extensions. -/
theorem inDer_tail {α : Type} {p : Loop (Except CertParseError α) Bytes} {absent : α}
    {found : Bytes → Except CertParseError α} {found' : Bytes → Audit Demand α}
    (hbody : ∀ tbsR, p.body tbsR =
      if tbsR = [] then .leave (.ok absent)
      else
        match mapErr (d.peek tbsR) with
        | .error e => .leave (.error e)
        | .ok (.contextSpecific true 3) => .leave do
            let (extsExplicit, _) ← mapErr (d.any tbsR)
            let extsR ← readSequence d extsExplicit.value
            found extsR
        | .ok _ =>
            match d.tlvBytes tbsR with
            | none => .leave (.error .malformed)
            | some (_, rest) => .again rest)
    (hfound : ∀ extsR, Realizes (Demand.InDer arcsOk) (found extsR) (found' extsR)) (tbsR : Bytes) :
    Realizes (Demand.InDer arcsOk) (p.run tbsR) ((tail f absent found').run tbsR) := by
  have hctx : DerTag.ofByte (tagCtxConstructed 3) = .contextSpecific true 3 := by decide
  refine Walk.realizes_run (fun tbsR => ?_) tbsR
  have hresult : (p.body tbsR).result = if tbsR = [] then .ok (.leave absent)
      else mapErr (d.any tbsR) >>= fun x =>
        if x.1.tag = .ofByte (tagCtxConstructed 3) then
          readSequence d x.1.value >>= fun extsR => found extsR >>= fun a => .ok (.leave a)
        else .ok (.again x.2) := by
    rw [hbody]
    cases tbsR with
    | nil => rfl
    | cons tag rest =>
      have hpeek : mapErr (d.peek (tag :: rest)) = .ok (.ofByte tag) := by rw [hd.peek]; rfl
      have hfirst (t : Tlv) (ht : canonicalTlv f.usizeBits (tag :: rest) = some t) : t.tag = tag :=
        (Option.some.inj (readTlv_eq_some (canonicalTlv_eq_some.mp ht).1).1).symm
      rw [if_neg (List.cons_ne_nil _ _), if_neg (List.cons_ne_nil _ _), hpeek, hd.any]
      split
      · rename_i heq
        cases heq
      · rename_i heq
        have htag : tag = tagCtxConstructed 3 :=
          DerTag.ofByte_inj.mp ((Except.ok.inj heq).trans hctx.symm)
        cases hcanonical : canonicalTlv f.usizeBits (tag :: rest) with
        | none => rfl
        | some t =>
          simp only [Option.map_some, mapErr, bind, Except.bind,
            if_pos (congrArg DerTag.ofByte ((hfirst t hcanonical).trans htag))]
          cases readSequence d t.body with
          | error e => rfl
          | ok extsR =>
            dsimp only
            cases found extsR <;> rfl
      · rename_i hother heq
        have htag : tag ≠ tagCtxConstructed 3 := by
          rintro rfl
          exact hother (Except.ok.inj heq ▸ hctx)
        rw [hd.tlvBytes]
        cases hcanonical : canonicalTlv f.usizeBits (tag :: rest) with
        | none => rfl
        | some t =>
          have hne : DerTag.ofByte t.tag ≠ .ofByte (tagCtxConstructed 3) := by
            rw [hfirst t hcanonical]
            exact fun h => htag (DerTag.ofByte_inj.mp h)
          simp only [Option.map_some, mapErr, bind, Except.bind, if_neg hne]
          rfl
  rw [hresult]
  refine .ite (fun _ => .pure _) fun _ => inDer_any hd fun t => ?_
  simp only [DerTag.ofByte_inj]
  refine .ite (fun _ => ?_) fun _ => .pure _
  exact inDer_sequence hd fun exts => (hfound _).bind fun a => .pure _

theorem inDer_skipTlvs (n : Nat) :
    Realizes (Demand.InDer arcsOk) (DerCert.skipTlvs d n r) (CertWalk.skipTlvs f n r) := by
  induction n generalizing r with
  | zero => exact .pure r
  | succ n ih => exact inDer_tlvBytes hd fun t _ => ih

/-- The TBSCertificate and the key are read a second time, from their own encodings. -/
theorem readSequence_fullTlv {t : Tlv} {body : Bytes} (h : canonicalTlv f.usizeBits r = some t) :
    readSequence d (TlvCert.fullTlv r t) = .ok body ↔ t.tag = tagSequence ∧ t.body = body := by
  rw [readSequence_eq_ok hd, canonicalTlv_fullTlv h]
  constructor
  · rintro ⟨t', ht', -, htag, hbody⟩
    cases ht'
    exact ⟨htag, hbody⟩
  · rintro ⟨htag, hbody⟩
    exact ⟨_, rfl, rfl, htag, hbody⟩

theorem inDer_again {k : Bytes → Except CertParseError β} {k' : Audit Demand β} {t : Tlv}
    (h : canonicalTlv f.usizeBits r = some t) (hk : Realizes (Demand.InDer arcsOk) (k t.body) k') :
    Realizes (Demand.InDer arcsOk) (readSequence d (TlvCert.fullTlv r t) >>= k)
      (check (t.tag = tagSequence) >>= fun _ => k') := by
  intro b
  rw [yields_check_bind, bind_eq_ok, ← hk b]
  simp only [readSequence_fullTlv hd h]
  constructor
  · rintro ⟨_, ⟨htag, rfl⟩, hb⟩
    exact ⟨htag, hb⟩
  · rintro ⟨htag, hb⟩
    exact ⟨_, ⟨htag, rfl⟩, hb⟩

theorem inDer_tbsParts {tbs outerSigAlg signature : Bytes} :
    Realizes (Demand.InDer arcsOk) (DerCert.tbsParts d tbs outerSigAlg signature r)
      (CertWalk.tbsParts f tbs outerSigAlg signature r) := by
  refine (inDer_version hd).bind fun tbsR => inDer_field hd fun serial _ => ?_
  refine inDer_field hd fun tbsAlg _ => Realizes.ensure.bind fun _ => ?_
  refine inDer_field hd fun issuer _ => inDer_field hd fun validity _ => ?_
  refine inDer_field hd fun subject _ => ?_
  rw [readTag_bind]
  refine inDer_tlvBytes hd fun spki hspki => inDer_again hd hspki ?_
  refine inDer_tlvBytes hd fun spkiAlg _ => (inDer_lastBitString hd).bind fun pk => ?_
  refine Realizes.bind ?_ fun san => .pure _
  exact inDer_tail hd (fun _ => rfl) (fun _ => inDer_san hd) _

theorem inDer_parts : Realizes (Demand.InDer arcsOk) (DerCert.parts d r) (CertWalk.parts f r) := by
  rw [DerCert.parts_eq]
  refine inDer_sequence hd fun outer => ?_
  rw [readTag_bind]
  refine inDer_tlvBytes hd fun tbs htbs => ?_
  -- the tag of the TBSCertificate is checked after the signature was read
  intro a
  rw [yields_check_bind]
  by_cases htag : tbs.tag = tagSequence
  · have hread : readSequence d (TlvCert.fullTlv outer.body tbs) = .ok tbs.body :=
      (readSequence_fullTlv hd htbs).mpr ⟨htag, rfl⟩
    rw [and_iff_right htag, hread]
    refine inDer_field hd (fun outerAlg _ => ?_) a
    exact (inDer_lastBitString hd).bind fun signature => inDer_tbsParts hd
  · refine iff_of_false ?_ fun h => htag h.1
    simp only [bind_eq_ok, readSequence_fullTlv hd htbs]
    rintro ⟨_, -, _, -, _, ⟨hsequence, -⟩, -⟩
    exact htag hsequence

theorem inDer_parse : Realizes (Demand.InDer arcsOk) (DerCert.parse d f r) (CertWalk.parse f r) :=
  (inDer_parts hd).bind fun _ => inDer_view hd

theorem inDer_tbsFields :
    Realizes (Demand.InDer arcsOk) (DerCert.tbsFields d r) (CertWalk.tbsFields f r) := by
  refine inDer_sequence hd fun outer => ?_
  rw [readTag_bind]
  refine inDer_tlvBytes hd fun tbs htbs => inDer_again hd htbs ?_
  have hctx : DerTag.contextSpecific true 0 = .ofByte (tagCtxConstructed 0) := by decide
  rw [hctx]
  refine inDer_peek hd _ ?_ (.pure _)
  rw [map_eq_bind]
  exact inDer_tlvBytes hd fun version _ => .pure _

theorem inDer_spkiDer :
    Realizes (Demand.InDer arcsOk) (DerCert.spkiDer d r) (CertWalk.spkiDer f r) :=
  (inDer_tbsFields hd).bind fun _ => (inDer_skipTlvs hd 5).bind fun _ =>
    inDer_tlvBytes hd fun _ _ => .pure _

theorem inDer_keyUsage :
    Realizes (Demand.InDer arcsOk) (DerCert.keyUsageCertSign d r) (keyUsage f r) := by
  have hbits : DerTag.bitString = .ofByte tagBitString := rfl
  intro certSign
  simp only [DerCert.keyUsageCertSign, keyUsage, bind_eq_ok, ensure_eq_ok, pure_eq_ok,
    anyFrom_eq_ok hd, yields_bind, yields_check, yields_pure, yields_readTag, inDer_read]
  constructor
  · rintro ⟨_, ⟨t, ht, hrest, rfl⟩, -, htag, rfl⟩
    exact ⟨t, ⟨ht, DerTag.ofByte_inj.mp (hbits ▸ htag)⟩, (), hrest, rfl⟩
  · rintro ⟨t, ⟨ht, htag⟩, -, hrest, rfl⟩
    exact ⟨_, ⟨t, ht, hrest, rfl⟩, (), by rw [htag, hbits], rfl⟩

/-- A look at the next tag that is not an error at the end of the input. -/
theorem inDer_peekOrEnd (tag : UInt8) {m m' : Except CertParseError β} {w w' : Audit Demand β}
    (hm : Realizes (Demand.InDer arcsOk) m w) (hm' : Realizes (Demand.InDer arcsOk) m' w') :
    Realizes (Demand.InDer arcsOk)
      (if r = [] then m' else mapErr (d.peek r) >>= fun next => if next = .ofByte tag then m else m')
      (if r.head? = some tag then w else w') := by
  by_cases hnil : r = []
  · rw [if_pos hnil, hnil]
    exact hm'
  · rw [if_neg hnil]
    intro a
    rw [inDer_peek hd tag hm hm' a, yields_check_bind, and_iff_right hnil]

theorem inDer_pathLen : Realizes (Demand.InDer arcsOk) (DerCert.takePathLen d r) (pathLen f r) := by
  refine inDer_peekOrEnd hd tagInteger ?_ (.pure _)
  exact inDer_any hd fun int => (Realizes.ofExcept _).bind fun pathLen => .pure _

/-- A SEQUENCE behind which both parsers allow nothing. -/
theorem inDer_exact {k : Bytes → Except CertParseError β}
    (hk : ∀ t, Realizes (Demand.InDer arcsOk) (k t.body) (k' t)) :
    Realizes (Demand.InDer arcsOk) (readSequence d r >>= k)
      (readTag f r tagSequence >>= fun t => check (t.rest = []) >>= fun _ => k' t) := by
  intro b
  simp only [bind_eq_ok, yields_bind, readSequence_eq_ok hd, yields_check, yields_readTag, inDer_read]
  constructor
  · rintro ⟨_, ⟨t, ht, hrest, htag, rfl⟩, hb⟩
    exact ⟨t, ⟨ht, htag⟩, (), hrest, (hk t b).mp hb⟩
  · rintro ⟨t, ⟨ht, htag⟩, -, hrest, hb⟩
    exact ⟨_, ⟨t, ht, hrest, htag, rfl⟩, (hk t b).mpr hb⟩

theorem inDer_caFlag {default : Bool} {k : Bool × Bytes → Except CertParseError β}
    {k' : Bool × Bytes → Audit Demand β} (hk : ∀ x, Realizes (Demand.InDer arcsOk) (k x) (k' x)) :
    Realizes (Demand.InDer arcsOk)
      (if r = [] then .ok (default, []) >>= k
      else mapErr (d.peek r) >>= fun tag =>
        if tag = .boolean then
          (mapErr (d.any r)).map (fun x => (derTrue x.1.value, x.2)) >>= k
        else .ok (default, r) >>= k) (caFlag f default r >>= k') := by
  have hflag : Realizes (Demand.InDer arcsOk)
      ((mapErr (d.any r)).map (fun x => (derTrue x.1.value, x.2)) >>= k)
      ((read f r >>= fun b => pure (derTrue b.body, b.rest)) >>= k') := by
    rw [map_eq_bind]
    exact (inDer_any hd fun t => .pure (derTrue t.body, t.rest)).bind hk
  have hnone : Realizes (Demand.InDer arcsOk) (.ok (default, r) >>= k) (pure (default, r) >>= k') :=
    (Realizes.pure _).bind hk
  have hwalk : caFlag f default r >>= k' = if r.head? = some tagBoolean then
      (read f r >>= fun b => pure (derTrue b.body, b.rest)) >>= k' else pure (default, r) >>= k' := by
    unfold caFlag
    split <;> rfl
  have hend : (if r = [] then (.ok (default, []) : Except CertParseError _) >>= k
      else mapErr (d.peek r) >>= fun tag =>
        if tag = .boolean then
          (mapErr (d.any r)).map (fun x => (derTrue x.1.value, x.2)) >>= k
        else .ok (default, r) >>= k) =
      if r = [] then .ok (default, r) >>= k
      else mapErr (d.peek r) >>= fun tag =>
        if tag = .ofByte tagBoolean then
          (mapErr (d.any r)).map (fun x => (derTrue x.1.value, x.2)) >>= k
        else .ok (default, r) >>= k := by
    by_cases hnil : r = []
    · rw [if_pos hnil, if_pos hnil, hnil]
    · rw [if_neg hnil, if_neg hnil]
      rfl
  rw [hend, hwalk]
  exact inDer_peekOrEnd hd tagBoolean hflag hnone

theorem inDer_basicConstraints : Realizes (Demand.InDer arcsOk)
    (DerCert.parseBasicConstraints d out r) (basicConstraints f out r) := by
  refine inDer_exact hd fun seq => ?_
  exact inDer_caFlag hd fun x => (inDer_pathLen hd).bind fun pathLen => .pure _

theorem inDer_caExtension :
    Realizes (Demand.InDer arcsOk) (DerCert.takeCaExtension d out r) (extension f r >>= fun next =>
      extend f out next.1 >>= fun out => pure (out, next.2)) := by
  have hsequence : DerTag.sequence = .ofByte tagSequence := rfl
  have hoctets : DerTag.octetString = .ofByte tagOctetString := rfl
  have hextend (ext : Extension) : Realizes (Demand.InDer arcsOk)
      (out.extend ext.oid ext.value ext.critical (DerCert.parseBasicConstraints d)
        (DerCert.keyUsageCertSign d)) (extend f out ext) :=
    extend_realizes (fun _ _ => inDer_basicConstraints hd) (fun _ => inDer_keyUsage hd)
  intro a
  simp only [DerCert.takeCaExtension, extension, reader, bind_eq_ok, ensure_eq_ok, yields_bind,
    yields_pure, pure_eq_ok, Prod.exists, any_eq_ok hd, oid_eq_ok hd, ← inDer_critical hd _,
    yields_readTag, inDer_read, Prod.mk.injEq]
  constructor
  · rintro ⟨_, _, ⟨t, ht, rfl, rfl⟩, -, htag, _, ⟨-, -, rfl⟩, _, _, ⟨oid, hoid, rfl, rfl⟩, critical, extR,
      hcritical, _, _, ⟨value, hvalue, rfl, rfl⟩, -, hvalueTag, out', hout, rfl⟩
    exact ⟨⟨oid.body, critical, value.body⟩, t.rest, ⟨t, ⟨ht, DerTag.ofByte_inj.mp (hsequence ▸ htag)⟩,
      oid, hoid, critical, extR, hcritical, value,
      ⟨hvalue, DerTag.ofByte_inj.mp (hoctets ▸ hvalueTag)⟩, rfl, rfl⟩, out', (hextend _ out').mp hout, rfl⟩
  · rintro ⟨_, _, ⟨t, ⟨ht, htag⟩, oid, hoid, critical, extR, hcritical, value, ⟨hvalue, hvalueTag⟩, rfl,
      rfl⟩, out', hout, rfl⟩
    exact ⟨_, _, ⟨t, ht, rfl, rfl⟩, (), by rw [htag, hsequence], _, ⟨(), hd.readerOk ht, rfl⟩, _, _,
      ⟨oid, hoid, rfl, rfl⟩, critical, extR, hcritical, _, _, ⟨value, hvalue, rfl, rfl⟩, (),
      by rw [hvalueTag, hoctets], out', (hextend _ out').mpr hout, rfl⟩

theorem inDer_ca :
    Realizes (Demand.InDer arcsOk) ((DerCert.caLoop d).run (out, r)) ((caEntries f).run (out, r)) := by
  refine Walk.realizes_run (fun s => ?_) (out, r)
  have hresult : ((DerCert.caLoop d).body s).result = if s.2 = [] then .ok (.leave s.1)
      else (DerCert.takeCaExtension d s.1 s.2).map .again := by
    by_cases hnil : s.2 = []
    · simp only [DerCert.caLoop, if_pos hnil]
      rfl
    · simp only [DerCert.caLoop, if_neg hnil]
      cases DerCert.takeCaExtension d s.1 s.2 <;> rfl
  rw [hresult]
  exact .ite (fun _ => .pure _) fun _ => caPass_realizes (inDer_caExtension hd)

theorem inDer_caConstraints :
    Realizes (Demand.InDer arcsOk) (DerCert.parseCaConstraints d r) (caConstraints f r) := by
  refine ((inDer_tbsFields hd).bind fun _ => inDer_skipTlvs hd 6).bind fun tbsR => ?_
  exact inDer_tail hd (fun _ => rfl) (fun _ => inDer_ca hd) tbsR

end InDer

/-- `spki_der` reads no more than `parse` has read. -/
theorem spkiDer_of_parse {met : Demand → Prop} {view : CertView}
    (h : Yields met (CertWalk.parse f r) view) : ∃ spki, Yields met (CertWalk.spkiDer f r) spki := by
  simp only [CertWalk.parse, CertWalk.parts, CertWalk.tbsParts, CertWalk.version, yields_bind,
    yields_readField, yields_readTag] at h
  obtain ⟨_, ⟨outer, houter, tbs, ⟨htbs, htbsTag⟩, _, _, _, _, _, ⟨version, ⟨hversion, hversionTag⟩, _, _, _,
    _, hrest⟩, serial, ⟨hserial, _⟩, tbsAlg, ⟨htbsAlg, _⟩, _, _, issuer, ⟨hissuer, _⟩, validity,
    ⟨hvalidity, _⟩, subject, ⟨hsubject, _⟩, spki, ⟨hspki, _⟩, _⟩, _⟩ := h
  obtain rfl := yields_pure.mp hrest
  have hhead : tbs.body.head? = some (tagCtxConstructed 0) := by
    rw [(readTlv_eq_some (yields_read.mp hversion).1).1, hversionTag]
  have hne : tbs.body ≠ [] := by
    intro hnil
    rw [hnil] at hhead
    cases hhead
  have hfields : Yields met (CertWalk.tbsFields f r) version.rest := by
    refine yields_bind.mpr ⟨outer, houter, yields_bind.mpr ⟨tbs, yields_readTag.mpr ⟨htbs, htbsTag⟩, ?_⟩⟩
    rw [yields_check_bind, if_pos hhead]
    exact ⟨hne, yields_bind.mpr ⟨version, hversion, yields_pure.mpr rfl⟩⟩
  have hskip : Yields met (CertWalk.skipTlvs f 5 version.rest) subject.rest := by
    simp only [CertWalk.skipTlvs, yields_bind, yields_pure]
    exact ⟨serial, hserial, tbsAlg, htbsAlg, issuer, hissuer, validity, hvalidity, subject, hsubject, rfl⟩
  exact ⟨_, yields_bind.mpr ⟨_, hfields, yields_bind.mpr ⟨_, hskip, yields_bind.mpr
    ⟨spki, hspki, yields_pure.mpr rfl⟩⟩⟩⟩

/-- The checks that only one of the parsers makes do not decide about the input: where it passes the
checks both make, it passes those of one parser if and only if it passes those of the other. For the
CA constraints this is asked of certificates that are accepted. -/
def ReadAlike (f : Features) (arcsOk : Bytes → Bool) (certDer : Bytes) : Prop :=
  Uniform Demand.InTree (Demand.InDer arcsOk) (CertWalk.parse f certDer) ∧
    ((∃ view, Yields Demand.InTree (CertWalk.parse f certDer) view) →
      Uniform Demand.InTree (Demand.InDer arcsOk) (caConstraints f certDer))

end CertWalk

/-- The parsers reject the input or make the same of it. -/
structure CertBackendsAgree (f : Features) (d : DerCrate) (certDer : Bytes) : Prop where
  parse : (TlvCert.parse f certDer).toOption = (DerCert.parse d f certDer).toOption
  spkiDer : ∀ view, TlvCert.parse f certDer = .ok view →
    (TlvCert.spkiDer f certDer).toOption = (DerCert.spkiDer d certDer).toOption
  caConstraints : ∀ view, TlvCert.parse f certDer = .ok view →
    (TlvCert.parseCaConstraints f certDer).toOption = (DerCert.parseCaConstraints d certDer).toOption

open Audit CertWalk in
/-- The parsers agree where their own checks do not decide, and only there. -/
theorem certBackends_agree_iff {f : Features} {d : DerCrate} {arcsOk : Bytes → Bool}
    (hd : d.Canonical f.usizeBits arcsOk) (certDer : Bytes) :
    CertBackendsAgree f d certDer ↔ ReadAlike f arcsOk certDer := by
  have hparse := toOption_eq_iff (inTree_parse (f := f) (r := certDer)) (inDer_parse hd)
  have hca := toOption_eq_iff (inTree_caConstraints (f := f) (r := certDer)) (inDer_caConstraints hd)
  constructor
  · intro h
    refine ⟨hparse.mp h.parse, ?_⟩
    rintro ⟨view, hview⟩
    exact hca.mp (h.caConstraints view ((inTree_parse view).mpr hview))
  · rintro ⟨huniform, huniformCa⟩
    have hagree := hparse.mpr huniform
    refine ⟨hagree, ?_, ?_⟩
    · intro view hview
      have hview' : DerCert.parse d f certDer = .ok view := by
        rw [← toOption_eq_some, ← hagree, hview]
        rfl
      obtain ⟨spki, hspki⟩ := spkiDer_of_parse ((inTree_parse view).mp hview)
      obtain ⟨spki', hspki'⟩ := spkiDer_of_parse ((inDer_parse hd view).mp hview')
      obtain ⟨ds, hds, -⟩ := id hspki
      obtain ⟨ds', hds', -⟩ := id hspki'
      cases hds.symm.trans hds'
      rw [(inTree_spkiDer spki).mpr hspki, (inDer_spkiDer hd spki).mpr hspki']
    · intro view hview
      exact hca.mpr (huniformCa ⟨view, (inTree_parse view).mp hview⟩)

namespace Sample

/-- Subidentifiers are complete and do not begin with a zero digit. -/
def subidentifiersOk : (first : Bool) → Bytes → Bool
  | first, [] => first
  | first, b :: rest => !(first && b == 0x80) && subidentifiersOk (b &&& 0x80 == 0) rest

def arcsOk (oid : Bytes) : Bool := oid ≠ [] && oid.length ≤ 39 && subidentifiersOk true oid

def derCrate (usizeBits : Nat) : DerCrate where
  readerOk _ := true
  peek r := r.head?.map .ofByte
  any r := (canonicalTlv usizeBits r).map fun t => (⟨.ofByte t.tag, t.body⟩, t.rest)
  anyFrom r := ((canonicalTlv usizeBits r).filter (·.rest = [])).map fun t => ⟨.ofByte t.tag, t.body⟩
  tlvBytes r := (canonicalTlv usizeBits r).map fun t => (TlvCert.fullTlv r t, t.rest)
  bitString r := (canonicalTlv usizeBits r).bind bitStringContent
  oid r := ((canonicalTlv usizeBits r).filter fun t => t.tag = tagOid ∧ arcsOk t.body).map
    fun t => (t.body, t.rest)
  any_rest h := by
    obtain ⟨t, ht, heq⟩ := Option.map_eq_some_iff.mp h
    cases heq
    exact readTlv_rest_length (canonicalTlv_eq_some.mp ht).1
  tlvBytes_rest h := by
    obtain ⟨t, ht, heq⟩ := Option.map_eq_some_iff.mp h
    cases heq
    exact readTlv_rest_length (canonicalTlv_eq_some.mp ht).1

theorem derCrate_canonical (usizeBits : Nat) : (derCrate usizeBits).Canonical usizeBits arcsOk where
  readerOk _ := rfl
  peek _ := rfl
  any _ := rfl
  anyFrom _ := rfl
  tlvBytes _ := rfl
  bitString _ := rfl
  oid _ := rfl

/-- A certificate whose serial number is an OCTET STRING. -/
def octetSerialCert : Bytes := serialCert (derTlv tagOctetString [1]) sanExtension

end Sample

/-- The parsers agree on a certificate with a name. -/
theorem certBackends_agree_named : CertBackendsAgree .standard (Sample.derCrate 64) Sample.namedCert :=
  (certBackends_agree_iff (Sample.derCrate_canonical 64) Sample.namedCert).mpr
    ⟨by decide +kernel, fun _ => by decide +kernel⟩

/-- One byte behind a certificate is passed over by `tlv_cert.rs` and an error for `der_cert.rs`; the
tag of a serial number is checked by the first only. -/
theorem certBackends_disagree :
    (TlvCert.parse .standard (Sample.namedCert ++ [0])).isOk = true ∧
      DerCert.parse (Sample.derCrate 64) .standard (Sample.namedCert ++ [0]) = .error .malformed ∧
      TlvCert.parse .standard Sample.octetSerialCert = .error .malformed ∧
      (DerCert.parse (Sample.derCrate 64) .standard Sample.octetSerialCert).isOk = true := by
  decide +kernel

end KrabiTls
