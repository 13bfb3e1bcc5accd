import KrabiTls.Cert.DerCert
import KrabiTls.Cert.TlvCert
import KrabiTls.Connection

/-! The sizes of the keys the certificate parsers accept, against the storage the verified key is
copied into at the end of `finalize_server_flight`. -/
namespace KrabiTls
open Lib

variable {f : Features}

/-- The certificate parser of a build: `cert-der` selects the one on top of the `der` crate. -/
def enabledCertParser (d : DerCrate) (certDer : Bool) (f : Features) :
    Bytes → Except CertParseError CertView :=
  if certDer then DerCert.parse d f else TlvCert.parse f

/-- The key sizes the parsers admit. -/
def CertKey.Sized (f : Features) : CertKey → Prop
  | .ed25519 _ => True
  | .rsa modulus _ => f.rsaModulusOk modulus.length
  | .mlDsa pk => pk.length ≤ mlDsa87PkBytes
  | .ecdsaP256 pk => pk.length = p256Sec1Len
  | .ecdsaP384 pk => pk.length = p384Sec1Len

structure SpkiParser.Sized (f : Features) (p : SpkiParser) : Prop where
  mlDsa : ∀ {alg pkLen}, p.classifySpkiAlgorithm alg = .ok (.mlDsa pkLen) → pkLen ≤ mlDsa87PkBytes
  rsa : ∀ {pk modulus exponent}, p.parseRsaPubkey pk = .ok (modulus, exponent) →
    f.rsaModulusOk modulus.length

theorem rsaModulus_eq_ok {raw modulus : Bytes} (h : rsaModulus f raw = .ok modulus) :
    f.rsaModulusOk modulus.length := by
  unfold rsaModulus at h
  dsimp only at h
  split at h
  · cases h
  · split at h
    · cases h
    · rename_i hok
      cases h
      simpa using hok

theorem ecSec1Point_eq_ok {pk : Bytes} {expectLen : Nat} {u : Unit}
    (h : ecSec1Point pk expectLen = .ok u) : pk.length = expectLen := by
  unfold ecSec1Point at h
  split at h
  · cases h
  · rename_i hok
    by_contra hne
    exact hok (.inl hne)

theorem CertParts.view_sized {p : SpkiParser} (hp : p.Sized f) {parts : CertParts} {v : CertView}
    (h : parts.view f p = .ok v) : v.key.Sized f := by
  obtain ⟨kind, key, _, hkind, hkey, rfl⟩ := CertParts.view_eq_ok h
  cases hkey with
  | ed25519 => trivial
  | rsa hrsa => exact hp.rsa hrsa
  | mlDsa => exact hp.mlDsa hkind
  | ecdsaP256 hpoint => exact ecSec1Point_eq_ok hpoint
  | ecdsaP384 hpoint => exact ecSec1Point_eq_ok hpoint

theorem SpkiKind.ofOid_mlDsa {oid rest : Bytes} {nullParams : Except CertParseError Unit}
    {curve : Except CertParseError Bytes} {pkLen : Nat}
    (h : SpkiKind.ofOid f oid rest nullParams curve = .ok (.mlDsa pkLen)) :
    pkLen ≤ mlDsa87PkBytes := by
  unfold ofOid at h
  split at h
  · simp [bind_eq_ok, pure, Except.pure] at h
  · split at h
    · simp [bind_eq_ok, pure, Except.pure] at h
    · split at h
      · obtain ⟨-, -, hout⟩ := bind_eq_ok.mp h
        cases hout
        split
        · decide
        · split <;> decide
      · split at h
        · obtain ⟨curve, -, h⟩ := bind_eq_ok.mp h
          split at h
          · cases h
          · split at h <;> cases h
        · cases h

theorem TlvCert.spkiParser_sized (f : Features) : (TlvCert.spkiParser f).Sized f where
  mlDsa h := by
    simp only [TlvCert.spkiParser, TlvCert.classifySpkiAlgorithm, bind_eq_ok] at h
    obtain ⟨_, -, _, -, h⟩ := h
    exact SpkiKind.ofOid_mlDsa h
  rsa {pk modulus exponent} h := by
    simp only [TlvCert.spkiParser, TlvCert.parseRsaPubkey, bind_eq_ok] at h
    obtain ⟨_, -, _, -, modulus, hmodulus, _, -, exponent, -, -, -, hout⟩ := h
    cases hout
    exact rsaModulus_eq_ok hmodulus

theorem DerCert.spkiParser_sized (d : DerCrate) (f : Features) : (DerCert.spkiParser d f).Sized f where
  mlDsa h := by
    simp only [DerCert.spkiParser, DerCert.classifySpkiAlgorithm, bind_eq_ok] at h
    obtain ⟨_, -, ⟨_, _⟩, -, h⟩ := h
    exact SpkiKind.ofOid_mlDsa h
  rsa {pk modulus exponent} h := by
    simp only [DerCert.spkiParser, DerCert.parseRsaPubkey, bind_eq_ok] at h
    obtain ⟨_, -, ⟨_, _⟩, -, modulus, hmodulus, ⟨_, _⟩, -, exponent, -, -, -, hout⟩ := h
    cases hout
    exact rsaModulus_eq_ok hmodulus

/-- Every key of a parsed certificate has one of the admitted sizes. -/
theorem enabledCertParser_sized {d : DerCrate} {certDer : Bool} {der : Bytes} {v : CertView}
    (h : enabledCertParser d certDer f der = .ok v) : v.key.Sized f := by
  unfold enabledCertParser at h
  split at h
  · obtain ⟨parts, -, hview⟩ := bind_eq_ok.mp h
    exact CertParts.view_sized (DerCert.spkiParser_sized d f) hview
  · obtain ⟨parts, -, hview⟩ := bind_eq_ok.mp h
    exact CertParts.view_sized (TlvCert.spkiParser_sized f) hview

def CertKey.wideRsa : CertKey → Bool
  | .rsa modulus _ => modulus.length > 256
  | _ => false

theorem ServerPubkeyOwned.fromView_eq_ok {key : CertKey} (h : key.Sized f) :
    (∃ owned, ServerPubkeyOwned.fromView key = .ok owned) ↔ key.wideRsa = false := by
  cases key with
  | ed25519 pk => exact ⟨fun _ => rfl, fun _ => ⟨_, rfl⟩⟩
  | rsa modulus exponent =>
    by_cases hlen : modulus.length ≤ 256
    · simp [fromView, CertKey.wideRsa, hlen]
    · simp [fromView, CertKey.wideRsa, hlen]
  | mlDsa pk => simp [fromView, CertKey.wideRsa, show pk.length ≤ 2592 from h]
  | ecdsaP256 pk => simp [fromView, CertKey.wideRsa, show pk.length = 65 from h]
  | ecdsaP384 pk => simp [fromView, CertKey.wideRsa, show pk.length = 97 from h]

/-- The server passes every check: its leaf is parsed and matches the prepared verifier, the flight
is complete, and its `CertificateVerify` and `Finished` verify. -/
structure WaitServerFlight.Passes (cfg : ClientConfig) (d : DerCrate) (certDer : Bool) {n : Nat}
    (c : WaitServerFlight) (r : ServerFlightReassembler n) (prepared : PreparedVerifier cfg.verifiers)
    (leafDer : Bytes) (leafView : CertView) : Prop where
  leaf : enabledCertParser d certDer cfg.features leafDer = .ok leafView
  matched : prepared.matchesCert leafView = true
  verified : ∃ bytes flight, r.flightBytes = some bytes ∧ parseServerFlight bytes = .ok flight ∧
    FlightVerified cfg.features cfg.hkdf c.transcript flight c.sHsTs prepared

namespace Sample

def rsaFeatures : Features :=
  { Features.standard with
    rsa := true, rsa4096 := true
    rsaPssOnly_rsa := by simp, rsa1024_rsa := by simp, rsa3072_rsa := by simp
    rsa4096_rsa := by simp }

def rsaConfig : ClientConfig :=
  { ClientConfig.sample with features := rsaFeatures, certParser := TlvCert.parse rsaFeatures }

def rsaModulusBytes (width : Nat) : Bytes := 0xC1 :: List.replicate (width - 1) 1

/-- A certificate with an RSA key of `width` bytes. -/
def rsaCert (width : Nat) : Bytes :=
  let key := derTlv tagSequence
    (derTlv tagInteger (0 :: rsaModulusBytes width) ++ derTlv tagInteger [1, 0, 1])
  issued (derTlv tagSequence (derTlv tagOid rsaEncryptionOid ++ derTlv tagNull [])) key sha256WithRsa []
    fun _ => [7]

def rsaConn : WaitServerFlight where
  transcript := .new
  suite := .aes128GcmSha256
  hs := Block.zeros 32
  cHsTs := Block.zeros 32
  sHsTs := Block.zeros 32
  sHsKeys := ⟨.aes128GcmSha256, Block.zeros 16, Block.zeros 12⟩
  seqIn := 0

def rsaFlight (width : Nat) : Bytes :=
  let der := rsaCert width
  let ee := hsMessage hsEncryptedExtensions [0, 0]
  let cert := hsMessage hsCertificate
    ([0] ++ toBe 3 (der.length + 5) ++ toBe 3 der.length ++ der ++ [0, 0])
  let th : TranscriptDigest := ⟨List.replicate 32 (digest (ee ++ cert)), by simp⟩
  let cv := hsMessage hsCertificateVerify (toBe 2 sigSchemeRsaPssRsaeSha256 ++ toBe 2 1 ++
    [digest (certificateVerifyContent "TLS 1.3, server CertificateVerify" th)])
  let th : TranscriptDigest := ⟨List.replicate 32 (digest (ee ++ cert ++ cv)), by simp⟩
  let mac := ((HkdfSha256.sample.finishedMac rsaConn.sHsTs th).toOption.getD (Block.zeros 32)).val
  ee ++ cert ++ cv ++ hsMessage hsFinished mac

def rsaPrepared (width : Nat) : PreparedVerifier rsaConfig.verifiers :=
  .rsa (rsaModulusBytes width)

def rsaReassembler (width : Nat) : ServerFlightReassembler (rsaFlight width).length :=
  ⟨rsaFlight width, Nat.le_refl _⟩

def rsaChecks (width : Nat) : Bool :=
  (TlvCert.parse rsaFeatures (rsaCert width)).toOption.any fun leafView =>
    (rsaPrepared width).matchesCert leafView ∧
      (rsaReassembler width).flightBytes = some (rsaFlight width) ∧
      (verifyServerFlight rsaFeatures .sample rsaConn.transcript (rsaFlight width) rsaConn.sHsTs
        (rsaPrepared width) leafView).isOk ∧
      leafView.key.wideRsa = decide (width > 256)

theorem passes_of_rsaChecks {width : Nat} (h : rsaChecks width = true) (d : DerCrate) :
    ∃ leafView, rsaConn.Passes rsaConfig d false (rsaReassembler width) (rsaPrepared width)
      (rsaCert width) leafView ∧ leafView.key.wideRsa = decide (width > 256) := by
  obtain ⟨leafView, hleaf, hchecks⟩ := (Option.any_eq_true _ _).mp h
  simp only [decide_eq_true_eq] at hchecks
  obtain ⟨hmatch, hbytes, hverify, hwide⟩ := hchecks
  have hparse : enabledCertParser d false rsaFeatures (rsaCert width) = .ok leafView :=
    toOption_eq_some.mp hleaf
  obtain ⟨⟨key, t⟩, hok⟩ : ∃ out, verifyServerFlight rsaFeatures .sample rsaConn.transcript
      (rsaFlight width) rsaConn.sHsTs (rsaPrepared width) leafView = .ok out := by
    cases hres : verifyServerFlight rsaFeatures .sample rsaConn.transcript (rsaFlight width)
        rsaConn.sHsTs (rsaPrepared width) leafView with
    | error e => rw [hres] at hverify; cases hverify
    | ok out => exact ⟨out, rfl⟩
  obtain ⟨flight, hflight, hverified, -⟩ := verifyServerFlight_eq_ok.mp hok
  exact ⟨leafView, ⟨hparse, hmatch, _, flight, hbytes, hflight, hverified⟩, hwide⟩

end Sample

namespace WaitServerFlight

/-- A server that passes every check is accepted, unless its leaf has a wide RSA key. -/
theorem finalizeServerFlight_complete {cfg : ClientConfig} {d : DerCrate} {certDer : Bool} {n : Nat}
    {c : WaitServerFlight} {r : ServerFlightReassembler n}
    {prepared : PreparedVerifier cfg.verifiers} {leafDer : Bytes} {leafView : CertView}
    (h : c.Passes cfg d certDer r prepared leafDer leafView) :
    (∃ done, c.finalizeServerFlight cfg r prepared leafView = .ok done) ↔
      leafView.key.wideRsa = false := by
  rw [← ServerPubkeyOwned.fromView_eq_ok (enabledCertParser_sized h.leaf)]
  constructor
  · rintro ⟨done, hdone⟩
    obtain ⟨-, _, _, owned, -, -, -, howned, -⟩ := (finalizeServerFlight_eq_ok cfg).mp hdone
    exact ⟨owned, howned⟩
  · rintro ⟨owned, howned⟩
    obtain ⟨bytes, flight, hbytes, hflight, hverified⟩ := h.verified
    exact ⟨_, (finalizeServerFlight_eq_ok cfg).mpr
      ⟨h.matched, bytes, flight, owned, hbytes, hflight, hverified, howned, rfl⟩⟩

/-- A server with a 2048-bit key is accepted. -/
theorem finalizeServerFlight_complete_rsa2048 : ∃ leafView,
    Sample.rsaConn.Passes Sample.rsaConfig .absent false (Sample.rsaReassembler 256)
      (Sample.rsaPrepared 256) (Sample.rsaCert 256) leafView ∧
    ∃ done, Sample.rsaConn.finalizeServerFlight Sample.rsaConfig (Sample.rsaReassembler 256)
      (Sample.rsaPrepared 256) leafView = .ok done := by
  obtain ⟨leafView, hpasses, hwide⟩ :=
    Sample.passes_of_rsaChecks (show Sample.rsaChecks 256 = true by decide +kernel) .absent
  exact ⟨leafView, hpasses, (finalizeServerFlight_complete hpasses).mpr hwide⟩

/-- A server with a 4096-bit key passes every check of a build that takes such keys, and is rejected
by the copy of its key. -/
theorem finalizeServerFlight_wideRsa : ∃ leafView,
    Sample.rsaConn.Passes Sample.rsaConfig .absent false (Sample.rsaReassembler 512)
      (Sample.rsaPrepared 512) (Sample.rsaCert 512) leafView ∧
    ¬ ∃ done, Sample.rsaConn.finalizeServerFlight Sample.rsaConfig (Sample.rsaReassembler 512)
      (Sample.rsaPrepared 512) leafView = .ok done := by
  obtain ⟨leafView, hpasses, hwide⟩ :=
    Sample.passes_of_rsaChecks (show Sample.rsaChecks 512 = true by decide +kernel) .absent
  refine ⟨leafView, hpasses, ?_⟩
  rintro ⟨done, hdone⟩
  obtain ⟨-, _, _, owned, -, -, -, howned, -⟩ :=
    (finalizeServerFlight_eq_ok Sample.rsaConfig).mp hdone
  have hnarrow :=
    (ServerPubkeyOwned.fromView_eq_ok (enabledCertParser_sized hpasses.leaf)).mp ⟨owned, howned⟩
  exact absurd (hnarrow.symm.trans hwide) (by decide)

end WaitServerFlight

end KrabiTls
