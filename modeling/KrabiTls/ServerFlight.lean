import KrabiTls.Cert
import KrabiTls.Features
import KrabiTls.Hkdf
import KrabiTls.Lib.Except
import KrabiTls.Lib.Loop
import KrabiTls.Lib.Prefixed

/-! Parsing and verification of the encrypted server flight. -/
namespace KrabiTls
open Lib

variable {buf : Bytes} {msg : HsMsg}

inductive FlightError where
  | truncated
  | trailingBytes
  | unexpectedHandshakeType (expected got : UInt8)
  | badCert (e : CertParseError)
  | certSelfSignatureInvalid
  | unexpectedSignatureScheme (scheme : Nat)
  | wrongSignatureLength
  | certVerifyInvalid
  | finishedWrongLength
  | finishedMacInvalid
  | hkdfLabel (e : HkdfLabelError)
  | transcript (e : TranscriptError)
  | internalEncoding
  | duplicateExtension (extType : Nat)
  | certChainTooLong
  deriving DecidableEq, Repr

/-- One framed handshake message at the front of the input. -/
structure HsMsg where
  msgType : UInt8
  body : Bytes
  full : Bytes
  rest : Bytes
  deriving DecidableEq, Repr

def nextMsg (buf : Bytes) : Except FlightError HsMsg :=
  if buf.length < 4 then .error .truncated
  else
    let len := ofBe (slice buf 1 4)
    if len > buf.length - 4 then .error .truncated
    else .ok ⟨buf.headD 0, slice buf 4 (4 + len), buf.take (4 + len), buf.drop (4 + len)⟩

theorem nextMsg_cut (h : nextMsg buf = .ok msg) :
    ∃ len, ofBe (slice buf 1 4) = len ∧ 4 + len ≤ buf.length ∧
      msg = ⟨buf.headD 0, slice buf 4 (4 + len), buf.take (4 + len), buf.drop (4 + len)⟩ := by
  unfold nextMsg at h
  split at h
  · cases h
  · dsimp only at h
    split at h
    · cases h
    · cases h
      exact ⟨_, rfl, by omega, rfl⟩

theorem nextMsg_rest_length (h : nextMsg buf = .ok msg) : msg.rest.length < buf.length := by
  obtain ⟨len, -, hfits, rfl⟩ := nextMsg_cut h
  rw [List.length_drop]
  omega

theorem nextMsg_full_length (h : nextMsg buf = .ok msg) :
    buf.length = msg.full.length + msg.rest.length := by
  obtain ⟨len, -, -, rfl⟩ := nextMsg_cut h
  rw [← List.length_append, List.take_append_drop]

theorem nextMsg_append (h : nextMsg buf = .ok msg) (more : Bytes) :
    nextMsg (buf ++ more) = .ok { msg with rest := msg.rest ++ more } := by
  obtain ⟨len, hlen, hfits, rfl⟩ := nextMsg_cut h
  have hlen' : ofBe (slice (buf ++ more) 1 4) = len := by
    rw [slice_append_left (by omega), hlen]
  have hhead : (buf ++ more).headD 0 = buf.headD 0 := by
    cases buf with
    | nil => simp at hfits
    | cons b rest => rfl
  have hlength : (buf ++ more).length = buf.length + more.length := List.length_append
  unfold nextMsg
  rw [if_neg (by omega)]
  dsimp only
  rw [hlen', if_neg (by omega), hhead, slice_append_left (by omega),
    List.take_append_of_le_length (by omega), List.drop_append_of_le_length (by omega)]

/-- The next message, which must have the given type. -/
def expectMsg (expected : UInt8) (buf : Bytes) : Except FlightError HsMsg := do
  let msg ← nextMsg buf
  if msg.msgType = expected then .ok msg
  else .error (.unexpectedHandshakeType expected msg.msgType)

structure ServerFlightView where
  eeFull : Bytes
  certRequestFull : Option Bytes
  certFull : Bytes
  certBody : Bytes
  cvFull : Bytes
  cvBody : Bytes
  finFull : Bytes
  finBody : Bytes
  deriving DecidableEq, Repr

/-- An optional `CertificateRequest` and the unread input behind it. -/
def takeCertRequest (buf : Bytes) : Except FlightError (Option Bytes × Bytes) := do
  let msg ← nextMsg buf
  if msg.msgType = hsCertificateRequest then .ok (some msg.full, msg.rest) else .ok (none, buf)

def parseServerFlight (content : Bytes) : Except FlightError ServerFlightView := do
  let ee ← expectMsg hsEncryptedExtensions content
  let (certRequestFull, rest) ← takeCertRequest ee.rest
  let cert ← expectMsg hsCertificate rest
  let cv ← expectMsg hsCertificateVerify cert.rest
  let fin ← expectMsg hsFinished cv.rest
  if fin.rest ≠ [] then .error .trailingBytes
  else .ok {
    eeFull := ee.full, certRequestFull
    certFull := cert.full, certBody := cert.body
    cvFull := cv.full, cvBody := cv.body
    finFull := fin.full, finBody := fin.body }

/-- `certificate_request_context` and the extension block of a framed `CertificateRequest`. -/
def certRequestParts (creqFull : Bytes) : Except FlightError (Bytes × Bytes) :=
  if creqFull.head? ≠ some hsCertificateRequest then
    .error (.unexpectedHandshakeType hsCertificateRequest (creqFull.headD 0))
  else if creqFull.length < 4 then .error .truncated
  else
    let body := creqFull.drop 4
    if body = [] then .error .truncated
    else
      let ctxEnd := 1 + (body.headD 0).toNat
      if body.length < ctxEnd then .error .truncated
      else if body.length < ctxEnd + 2 then .error .truncated
      else
        let extLen := ofBe (slice body ctxEnd (ctxEnd + 2))
        let exts := body.drop (ctxEnd + 2)
        if exts.length < extLen then .error .truncated
        else if exts.length > extLen then .error .trailingBytes
        else .ok (slice body 1 ctxEnd, exts)

def certificateRequestContext (creqFull : Bytes) : Except FlightError Bytes :=
  (certRequestParts creqFull).map Prod.fst

/-- The scheme list inside a `signature_algorithms` extension. -/
def sigAlgsOfExtension (data : Bytes) : Except FlightError Bytes :=
  if data.length < 2 then .error .truncated
  else
    let llen := ofBe (data.take 2)
    if llen ≠ data.length - 2 ∨ llen < 2 ∨ llen % 2 ≠ 0 then .error .truncated
    else .ok (data.drop 2)

/-- The walk to the first `signature_algorithms` extension; without one the offer is empty. -/
def sigAlgsLoop : Loop (Except FlightError Bytes) Bytes where
  body exts :=
    if exts.length < 4 then .leave (if exts = [] then .ok [] else .error .truncated)
    else
      let dlen := ofBe (slice exts 2 4)
      if dlen > exts.length - 4 then .leave (.error .truncated)
      else if ofBe (exts.take 2) = extSignatureAlgorithms then
        .leave (sigAlgsOfExtension (slice exts 4 (4 + dlen)))
      else .again (exts.drop (4 + dlen))
  variant exts := exts.length
  decreases s t h := by
    split at h
    · cases h
    · dsimp only at h
      split at h
      · cases h
      · split at h
        · cases h
        · cases h
          simp only [List.length_drop]
          omega

def certificateRequestSigAlgs (creqFull : Bytes) : Except FlightError Bytes := do
  let (_, exts) ← certRequestParts creqFull
  sigAlgsLoop.run exts

/-- The walk over the `CertificateEntry` list: the unread rest and the chain so far. -/
def chainLoop (max : Nat) : Loop (Except FlightError (List Bytes)) (Bytes × List Bytes) where
  body s :=
    let (list, chain) := s
    if list = [] then .leave (.ok chain)
    else if list.length < 3 then .leave (.error .truncated)
    else
      let certEnd := 3 + ofBe (list.take 3)
      if list.length < certEnd + 2 then .leave (.error .truncated)
      else if chain.length ≥ max then .leave (.error .certChainTooLong)
      else
        let extsLen := ofBe (slice list certEnd (certEnd + 2))
        if list.length - certEnd - 2 < extsLen then .leave (.error .truncated)
        else .again (list.drop (certEnd + 2 + extsLen), chain ++ [slice list 3 certEnd])
  variant s := s.1.length
  decreases s t h := by
    dsimp only at h
    split at h
    · cases h
    · split at h
      · cases h
      · split at h
        · cases h
        · split at h
          · cases h
          · split at h
            · cases h
            · cases h
              simp only [List.length_drop]
              omega

/-- The certificates of a `Certificate` body in wire order, the leaf first. -/
def extractChain (max : Nat) (certBody : Bytes) : Except FlightError (List Bytes) :=
  if certBody = [] then .error .truncated
  else
    let afterCtx := 1 + (certBody.headD 0).toNat
    if certBody.length < afterCtx + 3 then .error .truncated
    else
      let listLen := ofBe (slice certBody afterCtx (afterCtx + 3))
      let listStart := afterCtx + 3
      if listLen > certBody.length - listStart then .error .truncated
      else (chainLoop max).run (slice certBody listStart (listStart + listLen), [])

/-- What `CertificateVerify` signs: 64 spaces, the context string, a zero byte and the hash. -/
def certificateVerifyContent (context : String) (transcriptHash : TranscriptDigest) : Bytes :=
  List.replicate 64 0x20 ++ ascii context ++ [0] ++ transcriptHash.val

def mldsaSigBytes (scheme : Nat) : Nat :=
  if scheme = sigSchemeMlDsa44 then 2420
  else if scheme = sigSchemeMlDsa65 then 3309
  else 4627

/-- The `(scheme, prepared)` match: a scheme the build lacks or that does not fit the key fails. -/
def verifyScheme (f : Features) {p : VerifierBackend} (prepared : PreparedVerifier p)
    (scheme : Nat) (signed sig : Bytes) : Except FlightError Unit :=
  let check (ok : Bool) : Except FlightError Unit := if ok then .ok () else .error .certVerifyInvalid
  match prepared with
  | .ed25519 v =>
      if scheme = sigSchemeEd25519 then
        if h : sig.length = 64 then check (p.verifyEd25519 v signed ⟨sig, h⟩)
        else .error .wrongSignatureLength
      else .error (.unexpectedSignatureScheme scheme)
  | .rsa v =>
      if f.rsa ∧ scheme = sigSchemeRsaPssRsaeSha256 then check (p.verifyRsa v signed .pssSha256 sig)
      else .error (.unexpectedSignatureScheme scheme)
  | .mlDsa v =>
      if f.mldsa ∧ (scheme = sigSchemeMlDsa44 ∨ scheme = sigSchemeMlDsa65 ∨
          scheme = sigSchemeMlDsa87) then
        if sig.length ≠ mldsaSigBytes scheme then .error (.unexpectedSignatureScheme scheme)
        else check (p.verifyMlDsa v signed sig)
      else .error (.unexpectedSignatureScheme scheme)
  | .ecdsaP256 v =>
      if f.ecdsa ∧ scheme = sigSchemeEcdsaP256 then check (p.verifyEcdsaP256 v signed sig)
      else .error (.unexpectedSignatureScheme scheme)
  | .ecdsaP384 v =>
      if f.ecdsa ∧ scheme = sigSchemeEcdsaP384 then check (p.verifyEcdsaP384 v signed sig)
      else .error (.unexpectedSignatureScheme scheme)

def verifyCertificateVerifyWithPrepared (f : Features) {p : VerifierBackend}
    (prepared : PreparedVerifier p) (transcriptHash : TranscriptDigest) (cvBody : Bytes) :
    Except FlightError Unit :=
  if cvBody.length < 4 then .error .truncated
  else if cvBody.length - 4 ≠ ofBe (slice cvBody 2 4) then .error .trailingBytes
  else verifyScheme f prepared (ofBe (cvBody.take 2))
    (certificateVerifyContent "TLS 1.3, server CertificateVerify" transcriptHash) (cvBody.drop 4)

/-- The body of a `CertificateVerify`. -/
structure Signed where
  scheme : Nat
  signature : Bytes
  signature_lt : signature.length < 2 ^ 16

namespace Signed

def encode (s : Signed) : Bytes := toBe 2 s.scheme ++ prefixed 2 s.signature

theorem encode_length (s : Signed) : s.encode.length = 4 + s.signature.length := by
  simp only [encode, List.length_append, toBe_length, prefixed_length]
  omega

theorem encode_lt (s : Signed) : s.encode.length < 2 ^ 24 := by
  have hlt := s.signature_lt
  rw [s.encode_length]
  omega

theorem exists_encode {body : Bytes} (hshort : 4 ≤ body.length)
    (hlen : body.length - 4 = ofBe (slice body 2 4)) :
    ∃ s : Signed, body = s.encode ∧ s.scheme = ofBe (body.take 2) ∧ s.signature = body.drop 4 := by
  have hlt : ofBe (slice body 2 4) < 256 ^ 2 :=
    ofBe_lt_of_length_le (slice_length_of_le hshort).le
  refine ⟨⟨ofBe (body.take 2), body.drop 4, by rw [List.length_drop]; omega⟩, ?_, rfl, rfl⟩
  have hscheme : toBe 2 (ofBe (body.take 2)) = body.take 2 :=
    toBe_ofBe_of_length (by rw [List.length_take]; omega)
  have hfield : toBe 2 (body.drop 4).length = slice body 2 4 := by
    rw [List.length_drop, hlen]
    exact toBe_ofBe_of_length (slice_length_of_le hshort)
  have hdrop : body.drop 2 = slice body 2 4 ++ body.drop 4 := by
    have hcut := List.take_append_drop 2 (body.drop 2)
    rw [List.drop_drop] at hcut
    exact hcut.symm
  rw [encode, prefixed]
  dsimp only
  rw [hscheme, hfield, ← hdrop, List.take_append_drop]

end Signed

variable {p : VerifierBackend}
variable {f : Features} {prepared : PreparedVerifier p}

/-- The provider takes `signature` for a signature over `content` by the prepared key. The scheme is
one that the build has for a key of that kind. -/
inductive PreparedVerifier.Verifies (f : Features) {p : VerifierBackend} (content : Bytes) :
    PreparedVerifier p → (scheme : Nat) → (signature : Bytes) → Prop
  | ed25519 {v} (signature : Block 64) (h : p.verifyEd25519 v content signature = true) :
      Verifies f content (.ed25519 v) sigSchemeEd25519 signature.val
  | rsa {v signature} (hbuild : f.rsa = true) (h : p.verifyRsa v content .pssSha256 signature = true) :
      Verifies f content (.rsa v) sigSchemeRsaPssRsaeSha256 signature
  | mlDsa {v scheme signature} (hbuild : f.mldsa = true)
      (hscheme : scheme = sigSchemeMlDsa44 ∨ scheme = sigSchemeMlDsa65 ∨ scheme = sigSchemeMlDsa87)
      (hlen : signature.length = mldsaSigBytes scheme) (h : p.verifyMlDsa v content signature = true) :
      Verifies f content (.mlDsa v) scheme signature
  | ecdsaP256 {v signature} (hbuild : f.ecdsa = true)
      (h : p.verifyEcdsaP256 v content signature = true) :
      Verifies f content (.ecdsaP256 v) sigSchemeEcdsaP256 signature
  | ecdsaP384 {v signature} (hbuild : f.ecdsa = true)
      (h : p.verifyEcdsaP384 v content signature = true) :
      Verifies f content (.ecdsaP384 v) sigSchemeEcdsaP384 signature

theorem PreparedVerifier.Verifies.scheme_lt {content : Bytes} {scheme : Nat} {signature : Bytes}
    (h : prepared.Verifies f content scheme signature) : scheme < 256 ^ 2 := by
  cases h with
  | mlDsa _ hscheme => rcases hscheme with rfl | rfl | rfl <;> decide
  | _ => decide

theorem verifyScheme_eq_ok {scheme : Nat} {content signature : Bytes} :
    verifyScheme f prepared scheme content signature = .ok () ↔
      prepared.Verifies f content scheme signature := by
  constructor
  · intro h
    cases prepared with
    | ed25519 v =>
      simp only [verifyScheme] at h
      split_ifs at h with hscheme hlen hok
      exact hscheme ▸ .ed25519 ⟨signature, hlen⟩ hok
    | rsa v =>
      simp only [verifyScheme] at h
      split_ifs at h with hscheme hok
      exact hscheme.2 ▸ .rsa hscheme.1 hok
    | mlDsa v =>
      simp only [verifyScheme] at h
      split_ifs at h with hscheme hlen hok
      exact .mlDsa hscheme.1 hscheme.2 (not_not.mp hlen) hok
    | ecdsaP256 v =>
      simp only [verifyScheme] at h
      split_ifs at h with hscheme hok
      exact hscheme.2 ▸ .ecdsaP256 hscheme.1 hok
    | ecdsaP384 v =>
      simp only [verifyScheme] at h
      split_ifs at h with hscheme hok
      exact hscheme.2 ▸ .ecdsaP384 hscheme.1 hok
  · rintro (⟨signature, h⟩ | ⟨hbuild, h⟩ | ⟨hbuild, hscheme, hlen, h⟩ | ⟨hbuild, h⟩ | ⟨hbuild, h⟩)
    · simp [verifyScheme, signature.property, h]
    all_goals simp [verifyScheme, *]

/-- The body of a `CertificateVerify` is a signature over 64 spaces, the context string, a zero byte
and the hash. -/
def CertificateVerified (f : Features) {p : VerifierBackend} (prepared : PreparedVerifier p)
    (transcriptHash : TranscriptDigest) (cvBody : Bytes) : Prop :=
  ∃ signed : Signed, cvBody = signed.encode ∧
    prepared.Verifies f (certificateVerifyContent "TLS 1.3, server CertificateVerify" transcriptHash)
      signed.scheme signed.signature

theorem verifyCertificateVerifyWithPrepared_eq_ok {transcriptHash : TranscriptDigest} {cvBody : Bytes} :
    verifyCertificateVerifyWithPrepared f prepared transcriptHash cvBody = .ok () ↔
      CertificateVerified f prepared transcriptHash cvBody := by
  unfold verifyCertificateVerifyWithPrepared
  constructor
  · intro h
    split_ifs at h with hshort hlen
    obtain ⟨signed, hbody, hscheme, hsignature⟩ :=
      Signed.exists_encode (not_lt.mp hshort) (not_not.mp hlen)
    rw [← hscheme, ← hsignature] at h
    exact ⟨signed, hbody, verifyScheme_eq_ok.mp h⟩
  · rintro ⟨signed, rfl, hverifies⟩
    have hlen := signed.encode_length
    have hlt := signed.signature_lt
    have htake : ofBe (signed.encode.take 2) = signed.scheme := by
      rw [Signed.encode, List.take_left' (toBe_length 2 _), ofBe_toBe, 
        Nat.mod_eq_of_lt hverifies.scheme_lt]
    have hprefixed : signed.encode.drop 2 = prefixed 2 signed.signature ++ [] := by
      rw [Signed.encode, List.drop_left' (toBe_length 2 _), List.append_nil]
    have hfield : ofBe (slice signed.encode 2 4) = signed.signature.length :=
      slice_prefixed_length hprefixed hlt
    have hdrop : signed.encode.drop 4 = signed.signature := by
      rw [Signed.encode, prefixed, ← List.append_assoc, List.drop_left' (by simp)]
    rw [if_neg (by omega), if_neg (by omega), htake, hdrop]
    exact verifyScheme_eq_ok.mpr hverifies

def verifyServerFinished (h : HkdfSha256) (sHsTrafficSecret : Secret)
    (transcriptHash : TranscriptDigest) (finishedBody : Bytes) : Except FlightError Unit :=
  if finishedBody.length ≠ 32 then .error .finishedWrongLength
  else do
    let expected ← (h.finishedMac sHsTrafficSecret transcriptHash).mapError .hkdfLabel
    if expected.val = finishedBody then .ok () else .error .finishedMacInvalid

theorem verifyServerFinished_eq_ok {h : HkdfSha256} {s : Secret} {th : TranscriptDigest} {body : Bytes} :
    verifyServerFinished h s th body = .ok () ↔ ∃ mac, h.finishedMac s th = .ok mac ∧ body = mac.val := by
  unfold verifyServerFinished
  constructor
  · intro hok
    split at hok
    · cases hok
    · simp only [bind_eq_ok, mapError_eq_ok] at hok
      obtain ⟨mac, hmac, hok⟩ := hok
      split_ifs at hok with heq
      exact ⟨mac, hmac, heq.symm⟩
  · rintro ⟨mac, hmac, rfl⟩
    rw [if_neg (not_not_intro mac.property)]
    exact bind_eq_ok.mpr ⟨mac, mapError_eq_ok.mpr hmac, if_pos rfl⟩

namespace TranscriptHash

/-- The transcript with the flight's messages through `Certificate`. -/
def throughCert (t : TranscriptHash) (flight : ServerFlightView) : TranscriptHash :=
  ((t.update flight.eeFull).update (flight.certRequestFull.getD [])).update flight.certFull

def throughCv (t : TranscriptHash) (flight : ServerFlightView) : TranscriptHash :=
  (t.throughCert flight).update flight.cvFull

def throughFin (t : TranscriptHash) (flight : ServerFlightView) : TranscriptHash :=
  (t.throughCv flight).update flight.finFull

end TranscriptHash

/-- `CertificateVerify` and `Finished` against the transcript; the result is the server's key and
the transcript through the server `Finished`. -/
def verifyServerFlight (f : Features) (h : HkdfSha256) {p : VerifierBackend} (t : TranscriptHash)
    (plaintext : Bytes) (sHsTrafficSecret : Secret) (prepared : PreparedVerifier p)
    (leafView : CertView) : Except FlightError (CertKey × TranscriptHash) := do
  let flight ← parseServerFlight plaintext
  let thAfterCert ← ((t.throughCert flight).snapshot h).mapError .transcript
  verifyCertificateVerifyWithPrepared f prepared thAfterCert flight.cvBody
  let thAfterCv ← ((t.throughCv flight).snapshot h).mapError .transcript
  verifyServerFinished h sHsTrafficSecret thAfterCv flight.finBody
  pure (leafView.key, t.throughFin flight)

/-- What the flight checks of an accepted server flight have established. -/
structure FlightVerified (f : Features) (h : HkdfSha256) {p : VerifierBackend} (t : TranscriptHash)
    (flight : ServerFlightView) (sHsTrafficSecret : Secret) (prepared : PreparedVerifier p) :
    Prop where
  certificateVerify : ∃ thAfterCert, (t.throughCert flight).snapshot h = .ok thAfterCert ∧
    CertificateVerified f prepared thAfterCert flight.cvBody
  finished : ∃ thAfterCv mac, (t.throughCv flight).snapshot h = .ok thAfterCv ∧
    h.finishedMac sHsTrafficSecret thAfterCv = .ok mac ∧ flight.finBody = mac.val

theorem verifyServerFlight_eq_ok {f : Features} {h : HkdfSha256} {p : VerifierBackend}
    {t t' : TranscriptHash} {plaintext : Bytes} {s : Secret} {prepared : PreparedVerifier p}
    {leafView : CertView} {key : CertKey} :
    verifyServerFlight f h t plaintext s prepared leafView = .ok (key, t') ↔
      ∃ flight, parseServerFlight plaintext = .ok flight ∧
        FlightVerified f h t flight s prepared ∧ key = leafView.key ∧ t' = t.throughFin flight := by
  simp only [verifyServerFlight, bind_eq_ok, mapError_eq_ok]
  constructor
  · rintro ⟨flight, hparse, thCert, hthCert, ⟨⟩, hcv, thCv, hthCv, ⟨⟩, hfin, hout⟩
    cases hout
    obtain ⟨mac, hmac, hfin⟩ := verifyServerFinished_eq_ok.mp hfin
    rw [verifyCertificateVerifyWithPrepared_eq_ok] at hcv
    exact ⟨flight, hparse, ⟨⟨thCert, hthCert, hcv⟩, ⟨thCv, mac, hthCv, hmac, hfin⟩⟩, rfl, rfl⟩
  · rintro ⟨flight, hparse, ⟨⟨thCert, hthCert, hcv⟩, ⟨thCv, mac, hthCv, hmac, hfin⟩⟩, rfl, rfl⟩
    exact ⟨flight, hparse, thCert, hthCert, (), verifyCertificateVerifyWithPrepared_eq_ok.mpr hcv,
      thCv, hthCv, (), verifyServerFinished_eq_ok.mpr ⟨mac, hmac, hfin⟩, rfl⟩

end KrabiTls
