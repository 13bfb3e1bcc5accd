import KrabiTls.Dtls.EncryptedExtensions
import KrabiTls.ServerFlight.Certificate
import KrabiTls.ServerFlight.Reassembly

/-! The flight of a server that shows a certificate and asks for none, as TLS and DTLS have it. -/
namespace KrabiTls
open Lib

/-- What a server authenticates with: the extensions it encrypts, its certificate, and its signature
for a content. -/
structure Credentials where
  extensions : List Entry
  extensions_lt : (extensions.flatMap Entry.encode).length < 2 ^ 16
  certificate : CertificateBody
  certificate_lt : certificate.encode.length < 2 ^ 24
  sign : Bytes → Signed

theorem prefixed_lt {block : Bytes} (h : block.length < 2 ^ 16) : (prefixed 2 block).length < 2 ^ 24 := by
  rw [prefixed_length]
  omega

theorem mac_length_lt (mac : Block 32) : mac.val.length < 2 ^ 24 := by
  rw [mac.property]
  decide

namespace Credentials

def finished (mac : Block 32) : Message :=
  ⟨hsFinished, mac.val, mac_length_lt mac⟩

variable (s : Credentials)

def eeBody : Bytes := prefixed 2 (s.extensions.flatMap Entry.encode)

def encryptedExtensions : Message :=
  ⟨hsEncryptedExtensions, s.eeBody, prefixed_lt s.extensions_lt⟩

def certificateMsg : Message :=
  ⟨hsCertificate, s.certificate.encode, s.certificate_lt⟩

def certificateVerify (th : TranscriptDigest) : Message :=
  let body := s.sign (certificateVerifyContent "TLS 1.3, server CertificateVerify" th)
  ⟨hsCertificateVerify, body.encode, body.encode_lt⟩

/-- The messages of the flight, by the hash that is signed and the MAC of the `Finished`. -/
def messages (th : TranscriptDigest) (mac : Block 32) : List Message :=
  [s.encryptedExtensions, s.certificateMsg, s.certificateVerify th, finished mac]

/-- The transcript through the `Certificate`. -/
def throughCertificate (hellos : Bytes) : Bytes :=
  hellos ++ s.encryptedExtensions.encode ++ s.certificateMsg.encode

section Flight
variable (hkdf : HkdfSha256) (finishedMac : TranscriptDigest → Except HkdfLabelError (Block 32))
  (hellos : Bytes)

/-- The hash to be signed and the MAC of the `Finished`, for a transcript of hellos. -/
def authenticate : Option (TranscriptDigest × Block 32) := do
  let thCert ← (hkdf.hash (s.throughCertificate hellos)).toOption
  let thCv ← (hkdf.hash (s.throughCertificate hellos ++ (s.certificateVerify thCert).encode)).toOption
  let mac ← (finishedMac thCv).toOption
  pure (thCert, mac)

/-- The hashes a flight is made with. -/
structure Signs (thCert thCv : TranscriptDigest) (mac : Block 32) : Prop where
  cert : hkdf.hash (s.throughCertificate hellos) = .ok thCert
  cv : hkdf.hash (s.throughCertificate hellos ++ (s.certificateVerify thCert).encode) = .ok thCv
  fin : finishedMac thCv = .ok mac

variable {s hkdf finishedMac hellos}

theorem authenticate_eq_some {thCert : TranscriptDigest} {mac : Block 32}
    (h : s.authenticate hkdf finishedMac hellos = some (thCert, mac)) :
    ∃ thCv, s.Signs hkdf finishedMac hellos thCert thCv mac := by
  simp only [authenticate, Option.bind_eq_bind, Option.bind_eq_some_iff, toOption_eq_some] at h
  obtain ⟨thCert, hthCert, thCv, hthCv, mac, hmac, ⟨⟩⟩ := h
  exact ⟨thCv, hthCert, hthCv, hmac⟩

end Flight

variable {s} (th : TranscriptDigest) (mac : Block 32)

theorem flightMessages_messages : FlightMessages (s.messages th mac) := by
  have hee : hsEncryptedExtensions ≠ hsFinished := by decide
  have hcert : hsCertificate ≠ hsFinished := by decide
  have hcv : hsCertificateVerify ≠ hsFinished := by decide
  exact .cons _ _ hee (.cons _ _ hcert (.cons _ _ hcv (.finished _ rfl)))

variable (s) in
def view : ServerFlightView :=
  ⟨s.encryptedExtensions.encode, none, s.certificateMsg.encode, s.certificate.encode,
    (s.certificateVerify th).encode, (s.certificateVerify th).body, (finished mac).encode, mac.val⟩

theorem parseServerFlight_messages :
    parseServerFlight ((s.messages th mac).flatMap Message.encode) = .ok (s.view th mac) := by
  have htake (rest : Bytes) : takeCertRequest (s.certificateMsg.encode ++ rest) =
      .ok (none, s.certificateMsg.encode ++ rest) := by
    have hother : s.certificateMsg.msgType ≠ hsCertificateRequest :=
      show hsCertificate ≠ hsCertificateRequest by decide
    rw [takeCertRequest, nextMsg_encode]
    exact bind_eq_ok.mpr ⟨_, rfl, if_neg hother⟩
  have hlast := (expectMsg_encode hsFinished (finished mac) []).trans (if_pos rfl)
  rw [List.append_nil] at hlast
  simp only [messages, List.flatMap_cons, List.flatMap_nil, List.append_nil]
  unfold parseServerFlight
  refine bind_eq_ok.mpr ⟨_, (expectMsg_encode _ s.encryptedExtensions _).trans (if_pos rfl), ?_⟩
  refine bind_eq_ok.mpr ⟨_, htake _, ?_⟩
  refine bind_eq_ok.mpr ⟨_, (expectMsg_encode _ s.certificateMsg _).trans (if_pos rfl), ?_⟩
  refine bind_eq_ok.mpr ⟨_, (expectMsg_encode _ (s.certificateVerify th) _).trans (if_pos rfl), ?_⟩
  exact bind_eq_ok.mpr ⟨_, hlast, rfl⟩

variable (hellos : Bytes)

theorem throughCert_view :
    TranscriptHash.throughCert ⟨hellos⟩ (s.view th mac) = ⟨s.throughCertificate hellos⟩ := by
  simp [TranscriptHash.throughCert, TranscriptHash.update, view, throughCertificate]

theorem throughCv_view : TranscriptHash.throughCv ⟨hellos⟩ (s.view th mac) =
    ⟨s.throughCertificate hellos ++ (s.certificateVerify th).encode⟩ := by
  rw [TranscriptHash.throughCv, throughCert_view]
  rfl

theorem throughFin_view : TranscriptHash.throughFin ⟨hellos⟩ (s.view th mac) =
    ⟨hellos ++ (s.messages th mac).flatMap Message.encode⟩ := by
  rw [TranscriptHash.throughFin, throughCv_view]
  simp [TranscriptHash.update, throughCertificate, messages, view]

variable (s)

/-- The length in front of the extensions is theirs, so all of them are read. -/
theorem eeEntries_eeBody :
    s.eeBody.length = 2 + ofBe (s.eeBody.take 2) ∧ Dtls.eeEntries s.eeBody = (s.extensions, []) := by
  have hdrop : s.eeBody.drop 0 = prefixed 2 (s.extensions.flatMap Entry.encode) ++ [] :=
    (List.append_nil _).symm
  have hlen : ofBe (s.eeBody.take 2) = (s.extensions.flatMap Entry.encode).length := by
    rw [take_eq_slice]
    exact slice_prefixed_length hdrop s.extensions_lt
  have hdata := slice_prefixed_data hdrop
  rw [Nat.zero_add] at hdata
  have hnil : Entry.next [] = none := Entry.next_eq_none_of_short (by decide)
  have hsplit := Entry.split_encode s.extensions hnil
  rw [List.append_nil] at hsplit
  rw [hlen, Dtls.eeEntries, hlen, hdata, hsplit]
  exact ⟨prefixed_length _ _, rfl⟩

/-- What a client asks of the certificate: the strategy has prepared a verifier for the key of the
leaf, the leaf names the host, and its key checks what the server signs. -/
structure Authenticates (cfg : ClientConfig)
    (verifyChain : List Bytes → Option (PreparedVerifier cfg.verifiers)) (hostname : Option Bytes)
    (prepared : PreparedVerifier cfg.verifiers) (leaf : CertView) : Prop where
  trusted : verifyChain s.certificate.chain = some prepared
  parsed : ∃ der, s.certificate.chain.head? = some der ∧ cfg.certParser der = .ok leaf
  matched : prepared.matchesCert leaf = true
  hostname : ∀ host ∈ hostname, verifyHostname cfg.features leaf host = .ok ()
  signs : ∀ th, CertificateVerified cfg.features prepared th (s.certificateVerify th).body

end Credentials

namespace Sample

def leafDer : Bytes := List.replicate 32 0 ++ [0x82, 1] ++ ascii "a"

theorem leafDer_lt : leafDer.length < 2 ^ 24 := by decide

theorem noExtensions_lt : ([] : Bytes).length < 2 ^ 16 := by decide

def entries : List CertificateEntry := [⟨leafDer, [], leafDer_lt, noExtensions_lt⟩]

theorem entries_lt : (entries.flatMap CertificateEntry.encode).length < 2 ^ 24 := by decide

def certificate : CertificateBody where
  context := []
  entries := entries
  context_lt := Nat.zero_lt_succ _
  list_lt := entries_lt

theorem certificate_lt : certificate.encode.length < 2 ^ 24 := by decide

theorem signature_lt (content : Bytes) : (List.replicate 64 (digest content)).length < 2 ^ 16 := by
  rw [List.length_replicate]
  decide

/-- A certificate with the sample key in front, and the sample signatures. -/
def credentials : Credentials where
  extensions := []
  extensions_lt := noExtensions_lt
  certificate := certificate
  certificate_lt := certificate_lt
  sign content := ⟨sigSchemeEd25519, List.replicate 64 (digest content), signature_lt content⟩

theorem verifies_credentials (v : Bytes) (th : TranscriptDigest) :
    CertificateVerified .standard (.ed25519 v : PreparedVerifier .sample) th
      (credentials.certificateVerify th).body :=
  ⟨_, rfl, .ed25519 ⟨_, List.length_replicate⟩ (decide_eq_true rfl)⟩

def leaf : CertView :=
  ⟨leafDer, [], .ed25519 (Block.zeros 32), none, some [0x82, 1, 0x61], []⟩

theorem certParser_leafDer : ClientConfig.sample.certParser leafDer = .ok leaf := by
  have hder : 32 ≤ leafDer.length := by decide
  simp only [ClientConfig.sample, dif_pos hder]
  rfl

end Sample

end KrabiTls
