import KrabiTls.Cert.TlvCert

/-! The fields of a certificate as consecutive encodings, and where the in-tree parser and the two
functions that walk the certificate again find them. -/
namespace KrabiTls
open Lib

def Element (usizeBits : Nat) (tag : UInt8) (body bytes : Bytes) : Prop :=
  ∃ headerLen, readTlv usizeBits bytes = some ⟨tag, headerLen, body, []⟩

theorem Element.of_readTlv {usizeBits : Nat} {buf : Bytes} {t : Tlv}
    (h : readTlv usizeBits buf = some t) :
    Element usizeBits t.tag t.body (TlvCert.fullTlv buf t) ∧
      buf = TlvCert.fullTlv buf t ++ t.rest := by
  obtain ⟨-, -, -, hrest, hcongr⟩ := readTlv_eq_some h
  have hwhole := hcongr []
  rw [List.append_nil] at hwhole
  refine ⟨⟨t.headerLen, hwhole⟩, ?_⟩
  rw [hrest]
  exact (List.take_append_drop _ _).symm

namespace Element
variable {usizeBits : Nat} {tag : UInt8} {body bytes : Bytes}

/-- An encoding is read the same in front of anything. -/
theorem readTlv_append (h : Element usizeBits tag body bytes) (rest : Bytes) :
    ∃ t, readTlv usizeBits (bytes ++ rest) = some t ∧ t.tag = tag ∧ t.body = body ∧
      t.rest = rest ∧ TlvCert.fullTlv (bytes ++ rest) t = bytes := by
  obtain ⟨headerLen, hread⟩ := h
  obtain ⟨-, -, hfits, hrest, hcongr⟩ := readTlv_eq_some hread
  dsimp only at hfits hrest hcongr
  have hlen : headerLen + body.length = bytes.length :=
    Nat.le_antisymm hfits (List.drop_eq_nil_iff.mp hrest.symm)
  have happend := hcongr rest
  rw [hlen, List.take_length] at happend
  refine ⟨_, happend, rfl, rfl, rfl, ?_⟩
  unfold TlvCert.fullTlv
  rw [hlen]
  exact List.take_left

/-- Where an encoding ends is determined by its bytes. -/
theorem append_inj {tag' : UInt8} {body' bytes' rest rest' : Bytes}
    (h : Element usizeBits tag body bytes) (h' : Element usizeBits tag' body' bytes')
    (heq : bytes ++ rest = bytes' ++ rest') : bytes = bytes' ∧ rest = rest' := by
  obtain ⟨t, hread, -, -, hrest, hfull⟩ := h.readTlv_append rest
  obtain ⟨t', hread', -, -, hrest', hfull'⟩ := h'.readTlv_append rest'
  have ht : t = t' := Option.some.inj (hread.symm.trans (heq ▸ hread'))
  constructor
  · rw [← hfull, ← hfull', ht, heq]
  · rw [← hrest, ← hrest', ht]

theorem body_unique {tag' : UInt8} {body' : Bytes} (h : Element usizeBits tag body bytes)
    (h' : Element usizeBits tag' body' bytes) : body = body' := by
  obtain ⟨headerLen, hread⟩ := h
  obtain ⟨headerLen', hread'⟩ := h'
  exact congrArg Tlv.body (Option.some.inj (hread.symm.trans hread'))

end Element

/-- The public key of a view is what `content` encodes. -/
def CertKey.ReadFrom (f : Features) (content : Bytes) : CertKey → Prop
  | .ed25519 pubkey => pubkey.val = content
  | .rsa modulus exponent => TlvCert.parseRsaPubkey f content = .ok (modulus, exponent)
  | .mlDsa pubkey => pubkey = content
  | .ecdsaP256 pubkey => pubkey = content
  | .ecdsaP384 pubkey => pubkey = content

theorem CertParts.view_key {f : Features} {parts : CertParts} {view : CertView}
    (h : parts.view f (TlvCert.spkiParser f) = .ok view) : view.key.ReadFrom f parts.pk := by
  obtain ⟨kind, key, _, -, hkey, rfl⟩ := CertParts.view_eq_ok h
  cases hkey with
  | rsa hrsa => exact hrsa
  | ed25519 | mlDsa | ecdsaP256 | ecdsaP384 => rfl

theorem CertParts.view_fields {f : Features} {p : SpkiParser} {parts : CertParts} {view : CertView}
    (h : parts.view f p = .ok view) :
    view.tbs = parts.tbs ∧ view.san = parts.san ∧ view.validityDer = parts.validityDer := by
  obtain ⟨_, _, _, -, -, rfl⟩ := CertParts.view_eq_ok h
  exact ⟨rfl, rfl, rfl⟩

/-- The encodings of the fields of a TBSCertificate; `tail` is what is behind the key. -/
structure TbsFields where
  version : Bytes
  serial : Bytes
  signature : Bytes
  issuer : Bytes
  validity : Bytes
  subject : Bytes
  spki : Bytes
  tail : Bytes
  deriving DecidableEq

namespace TbsFields

def content (t : TbsFields) : Bytes :=
  t.version ++ (t.serial ++ (t.signature ++ (t.issuer ++ (t.validity ++ (t.subject ++
    (t.spki ++ t.tail))))))

/-- The fields are those the view was made from: the signed bytes consist of them, the key is the
content of the BIT STRING in `spki`, and the SubjectAltName is what the search of `tail` finds. -/
structure Of (f : Features) (view : CertView) (t : TbsFields) : Prop where
  tbs : Element f.usizeBits tagSequence t.content view.tbs
  version : ∃ body, Element f.usizeBits (tagCtxConstructed 0) body t.version
  serial : ∃ body, Element f.usizeBits tagInteger body t.serial
  signature : ∃ body, Element f.usizeBits tagSequence body t.signature
  issuer : ∃ body, Element f.usizeBits tagSequence body t.issuer
  validity : ∃ body, Element f.usizeBits tagSequence body t.validity
  subject : ∃ body, Element f.usizeBits tagSequence body t.subject
  spki : ∃ alg key bitString, Element f.usizeBits tagSequence (alg ++ bitString) t.spki ∧
    (∃ tag body, Element f.usizeBits tag body alg) ∧
    Element f.usizeBits tagBitString (0 :: key) bitString ∧ view.key.ReadFrom f key
  validityDer : view.validityDer = t.validity
  san : (TlvCert.walkExtensionsForSan f).run t.tail = .ok view.san

/-- The signed bytes can be cut in one way only. -/
theorem Of.unique {f : Features} {view : CertView} {t t' : TbsFields} (h : t.Of f view)
    (h' : t'.Of f view) : t = t' := by
  obtain ⟨_, hversion⟩ := h.version
  obtain ⟨_, hversion'⟩ := h'.version
  obtain ⟨_, hserial⟩ := h.serial
  obtain ⟨_, hserial'⟩ := h'.serial
  obtain ⟨_, hsignature⟩ := h.signature
  obtain ⟨_, hsignature'⟩ := h'.signature
  obtain ⟨_, hissuer⟩ := h.issuer
  obtain ⟨_, hissuer'⟩ := h'.issuer
  obtain ⟨_, hvalidity⟩ := h.validity
  obtain ⟨_, hvalidity'⟩ := h'.validity
  obtain ⟨_, hsubject⟩ := h.subject
  obtain ⟨_, hsubject'⟩ := h'.subject
  obtain ⟨_, _, _, hspki, -⟩ := h.spki
  obtain ⟨_, _, _, hspki', -⟩ := h'.spki
  have hcontent : t.content = t'.content := h.tbs.body_unique h'.tbs
  obtain ⟨h1, hrest⟩ := hversion.append_inj hversion' hcontent
  obtain ⟨h2, hrest⟩ := hserial.append_inj hserial' hrest
  obtain ⟨h3, hrest⟩ := hsignature.append_inj hsignature' hrest
  obtain ⟨h4, hrest⟩ := hissuer.append_inj hissuer' hrest
  obtain ⟨h5, hrest⟩ := hvalidity.append_inj hvalidity' hrest
  obtain ⟨h6, hrest⟩ := hsubject.append_inj hsubject' hrest
  obtain ⟨h7, h8⟩ := hspki.append_inj hspki' hrest
  cases t
  cases t'
  simp only at h1 h2 h3 h4 h5 h6 h7 h8
  simp only [h1, h2, h3, h4, h5, h6, h7, h8]

end TbsFields

namespace TlvCert
variable {f : Features}

theorem readExpected_element {cursor : Bytes} {tag : UInt8} {t : Tlv}
    (h : readExpected f cursor tag = .ok t) :
    Element f.usizeBits tag t.body (fullTlv cursor t) ∧ cursor = fullTlv cursor t ++ t.rest := by
  obtain ⟨t', htake, h⟩ := bind_eq_ok.mp h
  obtain ⟨_, htag, hout⟩ := bind_eq_ok.mp h
  cases hout
  rw [← ensure_eq_ok.mp htag]
  exact Element.of_readTlv (takeTlv_eq_ok f htake)

theorem takeBitString_element {cursor content rest : Bytes}
    (h : takeBitString f cursor = .ok (content, rest)) :
    ∃ bitString, Element f.usizeBits tagBitString (0 :: content) bitString ∧
      cursor = bitString ++ rest := by
  obtain ⟨t, hread, h⟩ := bind_eq_ok.mp h
  split at h
  · cases h
  · rename_i unused content' hbody
    obtain ⟨_, hunused, hout⟩ := bind_eq_ok.mp h
    cases hout
    have helement := readExpected_element hread
    rw [hbody, ensure_eq_ok.mp hunused] at helement
    exact ⟨_, helement⟩

theorem takeVersion_element {tbsR rest : Bytes} (h : takeVersion f tbsR = .ok rest) :
    ∃ version body, Element f.usizeBits (tagCtxConstructed 0) body version ∧
      tbsR = version ++ rest := by
  obtain ⟨hpeek, t, htake, rfl⟩ := takeVersion_eq_ok f h
  have hread := takeTlv_eq_ok f htake
  have htag : t.tag = tagCtxConstructed 0 := by
    have hhead := (readTlv_eq_some hread).1
    cases tbsR with
    | nil => cases hhead
    | cons tag rest =>
      cases hhead
      exact Except.ok.inj hpeek
  have helement := Element.of_readTlv hread
  rw [htag] at helement
  exact ⟨_, _, helement⟩

/-- What `parse` has read of an accepted certificate, and that `spki_der` and `extensions_slice`
come to the same places. -/
theorem parts_fields {der : Bytes} {parts' : CertParts} (h : parts f der = .ok parts') :
    ∃ t : TbsFields, Element f.usizeBits tagSequence t.content parts'.tbs ∧
      (∃ body, Element f.usizeBits (tagCtxConstructed 0) body t.version) ∧
      (∃ body, Element f.usizeBits tagInteger body t.serial) ∧
      (∃ body, Element f.usizeBits tagSequence body t.signature) ∧
      (∃ body, Element f.usizeBits tagSequence body t.issuer) ∧
      (∃ body, Element f.usizeBits tagSequence body t.validity) ∧
      (∃ body, Element f.usizeBits tagSequence body t.subject) ∧
      (∃ alg bitString, Element f.usizeBits tagSequence (alg ++ bitString) t.spki ∧
        (∃ tag body, Element f.usizeBits tag body alg) ∧
        Element f.usizeBits tagBitString (0 :: parts'.pk) bitString) ∧
      parts'.validityDer = t.validity ∧
      (walkExtensionsForSan f).run t.tail = .ok parts'.san ∧
      spkiDer f der = .ok t.spki ∧ extensionsSlice f der = .ok t.tail := by
  simp only [parts, bind_eq_ok, ensure_eq_ok] at h
  obtain ⟨outer, houter, tbs, htbs, _, _, ⟨_, _⟩, _, _, _, tbsR, hversion, serial, hserial, tbsAlg,
    htbsAlg, _, _, issuer, hissuer, validity, hvalidity, subject, hsubject, spki, hspki, spkiAlg,
    hspkiAlg, ⟨pk, spkiRest⟩, hpk, _, rfl, san, hsan, hout⟩ := h
  cases hout
  obtain ⟨hpeek, versionTlv, htakeVersion, hrest⟩ := takeVersion_eq_ok f hversion
  have hfields : tbsFields f der = .ok tbsR := by
    simp only [tbsFields, houter, htbs, hpeek, htakeVersion, bind, Except.bind, Except.map, if_true,
      hrest]
  have hskip (n : Nat) : skipTlvs f (n + 5) tbsR = skipTlvs f n subject.rest := by
    simp only [skipTlvs, takeTlv_of_readExpected f hserial, takeTlv_of_readExpected f htbsAlg,
      takeTlv_of_readExpected f hissuer, takeTlv_of_readExpected f hvalidity,
      takeTlv_of_readExpected f hsubject, bind, Except.bind]
  obtain ⟨version, _, heVersion, hcutVersion⟩ := takeVersion_element hversion
  obtain ⟨heTbs, -⟩ := readExpected_element htbs
  obtain ⟨heSerial, hcutSerial⟩ := readExpected_element hserial
  obtain ⟨heAlg, hcutAlg⟩ := readExpected_element htbsAlg
  obtain ⟨heIssuer, hcutIssuer⟩ := readExpected_element hissuer
  obtain ⟨heValidity, hcutValidity⟩ := readExpected_element hvalidity
  obtain ⟨heSubject, hcutSubject⟩ := readExpected_element hsubject
  obtain ⟨heSpki, hcutSpki⟩ := readExpected_element hspki
  obtain ⟨heSpkiAlg, hcutSpkiAlg⟩ := Element.of_readTlv (takeTlv_eq_ok f hspkiAlg)
  obtain ⟨bitString, heBits, hcutBits⟩ := takeBitString_element hpk
  let t : TbsFields := {
    version, serial := fullTlv tbsR serial, signature := fullTlv serial.rest tbsAlg
    issuer := fullTlv tbsAlg.rest issuer, validity := fullTlv issuer.rest validity
    subject := fullTlv validity.rest subject, spki := fullTlv subject.rest spki, tail := spki.rest }
  have hcontent : t.content = tbs.body := by
    unfold TbsFields.content
    rw [← hcutSpki, ← hcutSubject, ← hcutValidity, ← hcutIssuer, ← hcutAlg, ← hcutSerial,
      ← hcutVersion]
  refine ⟨t, hcontent ▸ heTbs, ⟨_, heVersion⟩, ⟨_, heSerial⟩, ⟨_, heAlg⟩, ⟨_, heIssuer⟩,
    ⟨_, heValidity⟩, ⟨_, heSubject⟩, ⟨fullTlv spki.body spkiAlg, bitString, ?_, ⟨_, _, heSpkiAlg⟩,
    heBits⟩, rfl, hsan, ?_, ?_⟩
  · rw [List.append_nil] at hcutBits
    rw [← hcutBits, ← hcutSpkiAlg]
    exact heSpki
  · have hfive : skipTlvs f 5 tbsR = .ok subject.rest := hskip 0
    simp only [spkiDer, hfields, hfive, takeTlv_of_readExpected f hspki, bind, Except.bind, pure,
      Except.pure, t]
  · have hone : skipTlvs f 1 subject.rest = .ok spki.rest := by
      simp only [skipTlvs, takeTlv_of_readExpected f hspki, bind, Except.bind]
    have hsix : skipTlvs f 6 tbsR = .ok spki.rest := (hskip 1).trans hone
    simp only [extensionsSlice, hfields, hsix, bind, Except.bind, t]

/-- `spki_der` reads the fields `parse` has read, with fewer checks. -/
theorem certParser_spkiTotal (f : Features) : (certParser f).SpkiTotal := by
  intro der view hparse
  obtain ⟨parts', hparts, -⟩ := bind_eq_ok.mp hparse
  obtain ⟨t, _, _, _, _, _, _, _, _, _, _, hspki, -⟩ := parts_fields hparts
  exact ⟨t.spki, hspki⟩

end TlvCert

namespace Sample

/-- An Ed25519 certificate with the given serial number and extensions, both encoded, and a subject
of more than 127 bytes. -/
def serialCert (serial extensions : Bytes) : Bytes :=
  v3Certificate serial ed25519Alg (List.replicate 130 7) ed25519Alg (List.replicate 32 5)
    (derTlv (tagCtxConstructed 3) (derTlv tagSequence extensions)) fun _ => List.replicate 64 9

/-- A SubjectAltName with the name `a`. -/
def sanExtension : Bytes :=
  derTlv tagSequence (derTlv tagOid sanOid ++
    derTlv tagOctetString (derTlv tagSequence (derTlv (tagCtxPrimitive 2) [0x61])))

def namedCert : Bytes := serialCert (derTlv tagInteger [1]) sanExtension

end Sample

namespace TlvCert

variable {f : Features}

/-- An accepted certificate has one layout, and the functions that walk it again find the fields
`parse` has used. -/
theorem parse_fields {der : Bytes} {view : CertView} (h : parse f der = .ok view) :
    ∃ t : TbsFields, t.Of f view ∧ (∀ t', TbsFields.Of f view t' → t' = t) ∧
      spkiDer f der = .ok t.spki ∧ extensionsSlice f der = .ok t.tail ∧
      parseCaConstraints f der = (walkExtensionsForCa f).run t.tail := by
  obtain ⟨parts', hparts, hview⟩ := bind_eq_ok.mp h
  obtain ⟨htbs, hsan, hvalidity⟩ := CertParts.view_fields hview
  have hkey := CertParts.view_key hview
  obtain ⟨t, heTbs, heVersion, heSerial, heSignature, heIssuer, heValidity, heSubject,
    ⟨alg, bitString, heSpki, heAlg, heBits⟩, hvalidity', hsan', hspki, htail⟩ := parts_fields hparts
  have hof : t.Of f view := {
    tbs := htbs ▸ heTbs
    version := heVersion, serial := heSerial, signature := heSignature, issuer := heIssuer
    validity := heValidity, subject := heSubject
    spki := ⟨alg, _, bitString, heSpki, heAlg, heBits, hkey⟩
    validityDer := hvalidity.trans hvalidity'
    san := hsan ▸ hsan' }
  refine ⟨t, hof, fun t' ht' => ht'.unique hof, hspki, htail, ?_⟩
  simp only [parseCaConstraints, htail, bind, Except.bind]

/-- A certificate with a name, and with a length of two octets in its subject. -/
theorem parse_fields_named : ∃ view, parse .standard Sample.namedCert = .ok view ∧
    view.san = some [0x82, 1, 0x61] ∧
    ∃ t : TbsFields, t.Of .standard view ∧ (∀ t', TbsFields.Of .standard view t' → t' = t) ∧
      spkiDer .standard Sample.namedCert = .ok t.spki ∧
      extensionsSlice .standard Sample.namedCert = .ok t.tail ∧
      parseCaConstraints .standard Sample.namedCert = (walkExtensionsForCa .standard).run t.tail := by
  have hparse : (parse .standard Sample.namedCert).toOption.any
      (fun view => view.san = some [0x82, 1, 0x61]) = true := by decide +kernel
  obtain ⟨view, hview, hsan⟩ := (Option.any_eq_true _ _).mp hparse
  have hok := toOption_eq_some.mp hview
  exact ⟨view, hok, of_decide_eq_true hsan, parse_fields hok⟩

end TlvCert

end KrabiTls
