import KrabiTls.ClientHello
import KrabiTls.Lib.Numbered
import KrabiTls.Reassembler
import KrabiTls.ServerHello

/-! The typestate connection: from the sent `ClientHello` to the application data phase. The states
follow the source's type parameters; the negotiated suite is a field. -/
namespace KrabiTls
open Lib

inductive ConnectionError where
  | clientHello (e : ClientHelloError)
  | parse (e : ParseError)
  | hkdf (e : HkdfLabelError)
  | flight (e : FlightError)
  | decrypt (e : DecryptError)
  | encrypt (e : EncryptError)
  | transcript (e : TranscriptError)
  | reassembly (e : ReassemblyError)
  | clientFinished (e : ClientFinishedError)
  | clientAuth (e : ClientAuthFlightError)
  | incompleteFlight
  | unexpectedSuite (selectedId : Nat)
  | alert (level description : UInt8)
  | unknownContentType (contentType : UInt8)
  deriving DecidableEq, Repr

inductive KxGroup where
  | x25519
  | p256
  | x25519MlKem768
  deriving DecidableEq, Repr

/-- `KxBackend`: the ephemeral secrets of each group and the derivation of the shared secret. -/
structure KxBackend where
  Secret : KxGroup → Type
  derive : (g : KxGroup) → Secret g → (serverShare : Bytes) → Option Bytes

/-- `ClientConfig`: the backends a connection is wired to, and the build's features. -/
structure ClientConfig where
  features : Features
  hkdf : HkdfSha256
  aead : AeadBackend
  kx : KxBackend
  verifiers : VerifierBackend
  certParser : Bytes → Except CertParseError CertView

/-- A certificate of the sample configuration is a 32-byte key followed by its SAN block. -/
def ClientConfig.sample : ClientConfig where
  features := .standard
  hkdf := .sample
  aead := .clear
  kx := { Secret := fun _ => Unit, derive := fun _ _ share => some share }
  verifiers := .sample
  certParser der :=
    if h : 32 ≤ der.length then
      .ok ⟨der, [], .ed25519 ⟨der.take 32, by simp [h]⟩, none, some (der.drop 32), []⟩
    else .error .malformed

variable (cfg : ClientConfig)

structure Init where
  clientRandom : Block 32
  secret : (g : KxGroup) → cfg.kx.Secret g

structure WaitServerHello where
  transcript : TranscriptHash
  sessionId : Option (Block 32)
  secret : (g : KxGroup) → cfg.kx.Secret g
  advertised : SuiteList

structure WaitServerFlight where
  transcript : TranscriptHash
  suite : CipherSuite
  hs : Secret
  cHsTs : Secret
  sHsTs : Secret
  sHsKeys : RecordKeys
  seqIn : Nat

/-- The key of the verified leaf, copied into fixed-capacity storage. -/
inductive ServerPubkeyOwned where
  | ed25519 (pubkey : Block 32)
  | rsa (modulus : { b : Bytes // b.length ≤ 256 }) (exponent : Nat)
  | mlDsa (pubkey : { b : Bytes // b.length ≤ 2592 })
  | ecdsaP256 (pubkey : Block 65)
  | ecdsaP384 (pubkey : Block 97)
  deriving DecidableEq, Repr

def ServerPubkeyOwned.fromView : CertKey → Except FlightError ServerPubkeyOwned
  | .ed25519 pk => .ok (.ed25519 pk)
  | .rsa modulus exponent =>
      if h : modulus.length ≤ 256 then .ok (.rsa ⟨modulus, h⟩ exponent) else .error .internalEncoding
  | .mlDsa pk =>
      if h : pk.length ≤ 2592 then .ok (.mlDsa ⟨pk, h⟩) else .error .internalEncoding
  | .ecdsaP256 pk =>
      if h : pk.length = 65 then .ok (.ecdsaP256 ⟨pk, h⟩) else .error .internalEncoding
  | .ecdsaP384 pk =>
      if h : pk.length = 97 then .ok (.ecdsaP384 ⟨pk, h⟩) else .error .internalEncoding

structure ServerFlightDone where
  transcript : TranscriptHash
  suite : CipherSuite
  hs : Secret
  cHsTs : Secret
  serverPubkey : ServerPubkeyOwned

inductive FlightStep where
  | pending
  | ready
  deriving DecidableEq, Repr

/-- The suite a selected code point stands for, if the build has it and we advertised it. -/
def advertisedSuite (f : Features) (advertised : SuiteList) (cipherSuite : Nat) :
    Option CipherSuite :=
  if f.cipherAes ∧ cipherSuite = cipherAes128GcmSha256 then
    if f.chacha20 ∧ advertised = .chaChaOnly then none else some .aes128GcmSha256
  else if f.chacha20 ∧ cipherSuite = cipherChaCha20Poly1305Sha256 then
    if advertised = .aesOnly then none else some .chaCha20Poly1305Sha256
  else none

namespace Init
variable {cfg}

/-- A scratch that is too small is a message that is too long. -/
def scratchError : ClientHelloError → ConnectionError
  | .write => .clientHello .messageTooLong
  | e => .clientHello e

/-- `write_client_hello_with` into an output with room for `outLen` bytes: the record, and the
connection that waits for its answer. The record is built in a scratch array first. -/
def writeClientHelloWith (c : Init cfg) (outLen : Nat)
    (primaryPub : Block cfg.features.primaryPubLen) (opts : ClientHelloOptions cfg.features) :
    Except ConnectionError (Bytes × WaitServerHello cfg) := do
  let (n, written) ← (KrabiTls.writeClientHelloWith cfg.features.chScratch c.clientRandom primaryPub
    opts).mapError scratchError
  let chBytes := ((Block.zeros cfg.features.chScratch).overwrite 0 written).val.take n
  ensure (chBytes.length ≤ outLen) (.clientHello .write)
  let transcript ← (TranscriptHash.new.updateRecord chBytes).mapError .transcript
  pure (chBytes,
    { transcript, sessionId := opts.sessionId, secret := c.secret, advertised := opts.suites })

/-- What is sent is one `ClientHello` record, and the transcript is its body. -/
theorem writeClientHelloWith_eq_ok {c : Init cfg} {outLen : Nat}
    {primaryPub : Block cfg.features.primaryPubLen} {opts : ClientHelloOptions cfg.features}
    {record : Bytes} {conn : WaitServerHello cfg}
    (h : c.writeClientHelloWith outLen primaryPub opts = .ok (record, conn)) :
    ∃ body, record = helloRecord hsClientHello body ∧
      conn.transcript = ⟨hsMessage hsClientHello body⟩ := by
  simp only [writeClientHelloWith, bind_eq_ok, mapError_eq_ok, ensure_eq_ok] at h
  obtain ⟨⟨n, written⟩, hwrite, _, -, transcript, hupdate, hout⟩ := h
  have hroom : cfg.features.chScratch < 2 ^ 16 := by
    unfold Features.chScratch
    split <;> decide
  obtain ⟨hn, hfits, body, hrecord, hlen⟩ := KrabiTls.writeClientHelloWith_eq_ok hroom hwrite
  have hscratch : ((Block.zeros cfg.features.chScratch).overwrite 0 written).val.take n = written := by
    have hself : slice (overwrite (Block.zeros cfg.features.chScratch).val 0 written) 0
        (0 + written.length) = written :=
      slice_overwrite_self (by rw [(Block.zeros _).property]; omega)
    rw [hn]
    simpa [slice, Block.overwrite] using hself
  cases hout
  rw [hscratch] at hupdate ⊢
  refine ⟨body, hrecord, ?_⟩
  rw [hrecord, TranscriptHash.updateRecord_helloRecord _ _ (by omega)] at hupdate
  cases hupdate
  rfl

end Init

namespace WaitServerHello
variable {cfg}

/-- The group whose secret meets the server's share, and that share. -/
def serverShare (f : Features) (sh : ServerHelloView) : Option (KxGroup × Bytes) :=
  if f.p256Kx ∧ sh.selectedGroup = namedGroupSecp256r1 then
    sh.p256Share.map (.p256, ·)
  else if ¬ f.x25519Kx then none
  else if f.mlkem then sh.hybridShare.map (.x25519MlKem768, ·)
  else sh.x25519Share.map (.x25519, ·)

def sharedSecret (c : WaitServerHello cfg) (sh : ServerHelloView) : Except ConnectionError Bytes :=
  match serverShare cfg.features sh with
  | none => .error (.parse .badKeyShare)
  | some (group, share) =>
      match cfg.kx.derive group (c.secret group) share with
      | none => .error (.parse .dhAllZero)
      | some ikm => .ok ikm

/-- `read_server_hello_with_backend`. -/
def readServerHello (c : WaitServerHello cfg) (shRecord : Bytes) :
    Except ConnectionError WaitServerFlight := do
  let sh ← (parseServerHello cfg.features shRecord).mapError .parse
  if sh.sessionIdEcho ≠ (c.sessionId.map Subtype.val).getD [] then
    .error (.parse .unexpectedSessionIdEcho)
  else
    match advertisedSuite cfg.features c.advertised sh.cipherSuite with
    | none => .error (.unexpectedSuite sh.cipherSuite)
    | some suite => do
        let ikm ← c.sharedSecret sh
        let transcript ← (c.transcript.updateRecord shRecord).mapError .transcript
        let thChSh ← (transcript.snapshot cfg.hkdf).mapError .transcript
        let hs ← (cfg.hkdf.handshakeSecret ikm).mapError .hkdf
        let (cHsTs, sHsTs) ← (cfg.hkdf.handshakeTrafficSecrets hs thChSh).mapError .hkdf
        let sHsKeys ← (RecordKeys.derive cfg.hkdf suite sHsTs).mapError .hkdf
        pure { transcript, suite, hs, cHsTs, sHsTs, sHsKeys, seqIn := 0 }

end WaitServerHello

/-- What one call on the connection leaves behind: its result, the record buffer, the connection
and the reassembler. -/
structure FeedResult (n : Nat) where
  result : Except ConnectionError FlightStep
  record : Bytes
  conn : WaitServerFlight
  reassembler : ServerFlightReassembler n

namespace WaitServerFlight
variable {n : Nat}

def flightStep (r : ServerFlightReassembler n) : FlightStep :=
  if r.isComplete then .ready else .pending

/-- `feed_server_record_inplace`: a `change_cipher_spec` is dropped, a protected record is opened
in place and its handshake content appended. -/
def feedServerRecordInplace (c : WaitServerFlight) (record : Bytes)
    (r : ServerFlightReassembler n) : FeedResult n :=
  match record with
  | [] => ⟨.error (.decrypt .truncated), record, c, r⟩
  | outerType :: _ =>
      if outerType = ctChangeCipherSpec then ⟨.ok (flightStep r), record, c, r⟩
      else if outerType = ctApplicationData then
        let (opened, record) := c.sHsKeys.decryptRecordInplace cfg.aead record c.seqIn
        match opened with
        | .error e => ⟨.error (.decrypt e), record, c, r⟩
        | .ok innerLen =>
            match splitInnerPlaintext (slice record 5 (5 + innerLen)) with
            | .error e => ⟨.error (.decrypt e), record, c, r⟩
            | .ok (content, innerCt) =>
                if innerCt ≠ ctHandshake then
                  ⟨.error (.decrypt (.unexpectedContentType innerCt)), record, c, r⟩
                else
                  match r.pushContent content with
                  | .error e => ⟨.error (.reassembly e), record, c, r⟩
                  | .ok r =>
                      ⟨.ok (flightStep r), record, { c with seqIn := (c.seqIn + 1) % 2 ^ 64 }, r⟩
      else ⟨.error (.decrypt (.unexpectedContentType outerType)), record, c, r⟩

theorem feedServerRecordInplace_length (c : WaitServerFlight) (record : Bytes)
    (r : ServerFlightReassembler n) :
    (c.feedServerRecordInplace cfg record r).record.length = record.length := by
  have hlen := RecordKeys.decryptRecordInplace_length cfg.aead c.sHsKeys record c.seqIn
  unfold feedServerRecordInplace
  split
  · rfl
  · split
    · rfl
    · split
      · generalize RecordKeys.decryptRecordInplace _ _ _ _ = opened at hlen ⊢
        dsimp only
        repeat' split
        all_goals exact hlen
      · rfl

/-- A refused record and a `change_cipher_spec` leave connection and reassembler alone; a protected
record that is taken adds its content. -/
theorem feedServerRecordInplace_cases (c : WaitServerFlight) (record : Bytes)
    (r : ServerFlightReassembler n) :
    let fed := c.feedServerRecordInplace cfg record r
    (fed.conn = c ∧ fed.reassembler = r ∧
      (fed.result.isOk = true → record.head? = some ctChangeCipherSpec)) ∨
    ∃ innerLen opened content pad, record.head? = some ctApplicationData ∧
      c.sHsKeys.decryptRecordInplace cfg.aead record c.seqIn = (.ok innerLen, opened) ∧
      slice opened 5 (5 + innerLen) = content ++ [ctHandshake] ++ List.replicate pad 0 ∧
      fed.conn = { c with seqIn := (c.seqIn + 1) % 2 ^ 64 } ∧
      fed.reassembler.buf = r.buf ++ content ∧ fed.result.isOk = true := by
  intro fed
  unfold fed feedServerRecordInplace
  split
  · exact .inl ⟨rfl, rfl, by rintro ⟨⟩⟩
  · rename_i outerType rest
    split
    · rename_i htype
      exact .inl ⟨rfl, rfl, fun _ => congrArg some htype⟩
    · split
      · rename_i htype
        rcases hopen : c.sHsKeys.decryptRecordInplace cfg.aead (outerType :: rest) c.seqIn with
          ⟨opened, record'⟩
        dsimp only
        split
        · exact .inl ⟨rfl, rfl, by rintro ⟨⟩⟩
        · split
          · exact .inl ⟨rfl, rfl, by rintro ⟨⟩⟩
          · rename_i content innerCt hsplit
            split
            · exact .inl ⟨rfl, rfl, by rintro ⟨⟩⟩
            · rename_i hct
              obtain ⟨pad, hinner⟩ := splitInnerPlaintext_eq_ok hsplit
              rw [not_not.mp hct] at hinner
              unfold ServerFlightReassembler.pushContent
              by_cases hfits : r.buf.length + content.length ≤ n
              · rw [dif_pos hfits]
                exact .inr ⟨_, _, content, pad, congrArg some htype, rfl, hinner, rfl, rfl, rfl⟩
              · rw [dif_neg hfits]
                exact .inl ⟨rfl, rfl, by rintro ⟨⟩⟩
      · exact .inl ⟨rfl, rfl, by rintro ⟨⟩⟩

def finalizeServerFlight (c : WaitServerFlight) (r : ServerFlightReassembler n)
    (prepared : PreparedVerifier cfg.verifiers) (leafView : CertView) :
    Except ConnectionError ServerFlightDone :=
  if ¬ prepared.matchesCert leafView then .error (.flight .certVerifyInvalid)
  else
    match r.flightBytes with
    | none => .error .incompleteFlight
    | some plaintext => do
        let (key, transcript) ← (verifyServerFlight cfg.features cfg.hkdf c.transcript plaintext
          c.sHsTs prepared leafView).mapError .flight
        let serverPubkey ← (ServerPubkeyOwned.fromView key).mapError .flight
        pure ⟨transcript, c.suite, c.hs, c.cHsTs, serverPubkey⟩

/-- The flight is accepted if it passes the checks and the server's key can be copied. -/
theorem finalizeServerFlight_eq_ok {c : WaitServerFlight} {r : ServerFlightReassembler n}
    {prepared : PreparedVerifier cfg.verifiers} {leafView : CertView} {done : ServerFlightDone} :
    c.finalizeServerFlight cfg r prepared leafView = .ok done ↔
      prepared.matchesCert leafView = true ∧ ∃ bytes flight owned, r.flightBytes = some bytes ∧
        parseServerFlight bytes = .ok flight ∧
        FlightVerified cfg.features cfg.hkdf c.transcript flight c.sHsTs prepared ∧
        ServerPubkeyOwned.fromView leafView.key = .ok owned ∧
        done = ⟨c.transcript.throughFin flight, c.suite, c.hs, c.cHsTs, owned⟩ := by
  unfold finalizeServerFlight
  by_cases hmatch : prepared.matchesCert leafView = true
  swap
  · simp [hmatch]
  simp only [hmatch, not_true_eq_false, if_false, true_and]
  cases hbytes : r.flightBytes with
  | none => simp
  | some bytes =>
    simp only [bind_eq_ok, mapError_eq_ok, Option.some.injEq]
    constructor
    · rintro ⟨⟨key, transcript⟩, hverify, owned, howned, hout⟩
      obtain ⟨flight, hparse, hverified, rfl, rfl⟩ := verifyServerFlight_eq_ok.mp hverify
      cases hout
      exact ⟨bytes, flight, owned, rfl, hparse, hverified, howned, rfl⟩
    · rintro ⟨_, flight, owned, rfl, hparse, hverified, howned, rfl⟩
      exact ⟨_, verifyServerFlight_eq_ok.mpr ⟨flight, hparse, hverified, rfl, rfl⟩, owned, howned,
        rfl⟩

end WaitServerFlight

/-- A record as it was sealed: the sequence number, the inner content and the wire bytes. -/
structure SealedRecord where
  seq : Nat
  contentType : UInt8
  content : Bytes
  record : Bytes
  deriving DecidableEq, Repr

structure AppData where
  suite : CipherSuite
  cApKeys : RecordKeys
  sApKeys : RecordKeys
  cApTs : Secret
  sApTs : Secret
  seqOut : Nat
  seqIn : Nat

/-- The state of the loop over the chunks of a flight: the unread plaintext, the chunk index, the
bytes written and what was sealed so far. -/
structure FlightChunks where
  rest : Bytes
  index : Nat
  written : Bytes
  sealed : List SealedRecord

/-- A result together with the bytes the call leaves at the front of the output buffer and the
records it sealed. -/
structure Sealing (α : Type) where
  result : Except ConnectionError α
  written : Bytes
  sealed : List SealedRecord

/-- The output buffer starts with the records sealed, end to end. -/
structure Sealing.Wrote {α : Type} (s : Sealing α) (record : Bytes) (outLen : Nat) : Prop where
  written : s.written = record
  records : (s.sealed.map SealedRecord.record).flatten = record
  fits : record.length ≤ outLen

/-- One chunk per pass, sealed behind the records before it under its index. -/
def flightChunkLoop (a : AeadBackend) (keys : RecordKeys) (maxChunk : Nat) (hpos : 0 < maxChunk)
    (outLen : Nat) : Loop (Sealing Bytes) FlightChunks where
  body s :=
    if s.rest = [] then .leave ⟨.ok s.written, s.written, s.sealed⟩
    else
      let chunk := s.rest.take maxChunk
      let (record, dirty) := keys.encryptRecord a chunk ctHandshake (s.index % 2 ^ 64)
        (outLen - s.written.length)
      match record with
      | .error e => .leave ⟨.error (.encrypt e), s.written ++ dirty, s.sealed⟩
      | .ok record =>
          .again ⟨s.rest.drop maxChunk, s.index + 1, s.written ++ record,
            s.sealed ++ [⟨s.index % 2 ^ 64, ctHandshake, chunk, record⟩]⟩
  variant s := s.rest.length
  decreases s t h := by
    split at h
    · cases h
    · rename_i hrest
      dsimp only at h
      split at h
      · cases h
      · cases h
        have := List.length_pos_iff.mpr hrest
        simp only [List.length_drop]
        omega

/-- Seal the flight as handshake records whose inner plaintext fits the peer's limit. -/
def encryptHandshakeFlight (a : AeadBackend) (keys : RecordKeys) (plaintext : Bytes)
    (peerRsl outLen : Nat) : Sealing Bytes :=
  (flightChunkLoop a keys (max (peerRsl - 1) 1) (by omega) outLen).run ⟨plaintext, 0, [], []⟩

/-- The records of a flight are handshake records with the numbers 0, 1, 2, ... -/
structure FlightRecords (sealed : List SealedRecord) : Prop where
  seqs : Consecutive (2 ^ 64) (sealed.map SealedRecord.seq)
  types : ∀ r ∈ sealed, r.contentType = ctHandshake

theorem flightRecords_nil : FlightRecords [] := ⟨consecutive_nil _, nofun⟩

/-- What every sealed chunk preserves and both ways out establish holds of the flight. -/
theorem encryptHandshakeFlight_induct {a : AeadBackend} {keys : RecordKeys} {plaintext : Bytes}
    {peerRsl outLen : Nat} (inv : FlightChunks → Prop) (post : Sealing Bytes → Prop)
    (hstart : inv ⟨plaintext, 0, [], []⟩)
    (hchunk : ∀ s record dirty, inv s → s.rest ≠ [] →
      keys.encryptRecord a (s.rest.take (max (peerRsl - 1) 1)) ctHandshake (s.index % 2 ^ 64)
        (outLen - s.written.length) = (.ok record, dirty) →
      inv ⟨s.rest.drop (max (peerRsl - 1) 1), s.index + 1, s.written ++ record, s.sealed ++
        [⟨s.index % 2 ^ 64, ctHandshake, s.rest.take (max (peerRsl - 1) 1), record⟩]⟩)
    (hdone : ∀ s, inv s → s.rest = [] → post ⟨.ok s.written, s.written, s.sealed⟩)
    (hfail : ∀ s e dirty, inv s → s.rest ≠ [] →
      keys.encryptRecord a (s.rest.take (max (peerRsl - 1) 1)) ctHandshake (s.index % 2 ^ 64)
        (outLen - s.written.length) = (.error e, dirty) →
      post ⟨.error (.encrypt e), s.written ++ dirty, s.sealed⟩) :
    post (encryptHandshakeFlight a keys plaintext peerRsl outLen) := by
  refine Loop.run_induct (l := flightChunkLoop a keys (max (peerRsl - 1) 1) (by omega) outLen)
    inv post ?_ ?_ _ hstart
  · intro s t hs hbody
    dsimp only [flightChunkLoop] at hbody
    split at hbody
    · cases hbody
    · rename_i hrest
      split at hbody
      · cases hbody
      · rename_i record hrecord
        cases hbody
        exact hchunk s record _ hs hrest (Prod.ext hrecord rfl)
  · intro s r hs hbody
    dsimp only [flightChunkLoop] at hbody
    split at hbody
    · rename_i hrest
      cases hbody
      exact hdone s hs hrest
    · rename_i hrest
      split at hbody
      · rename_i e herror
        cases hbody
        exact hfail s e _ hs hrest (Prod.ext herror rfl)
      · cases hbody

theorem encryptHandshakeFlight_records (a : AeadBackend) (keys : RecordKeys) (plaintext : Bytes)
    (peerRsl outLen : Nat) :
    FlightRecords (encryptHandshakeFlight a keys plaintext peerRsl outLen).sealed := by
  refine encryptHandshakeFlight_induct
    (fun s => s.sealed.length = s.index ∧ FlightRecords s.sealed) (fun r => FlightRecords r.sealed)
    ⟨rfl, flightRecords_nil⟩ ?_ (fun s hs _ => hs.2) fun s e dirty hs _ _ => hs.2
  rintro s record dirty ⟨hlen, hseqs⟩ - -
  refine ⟨by simp [hlen], ?_, ?_⟩
  · rw [List.map_append]
    exact hseqs.seqs.append (by simp [hlen])
  · rw [List.forall_mem_append]
    exact ⟨hseqs.types, by simp⟩

theorem encryptHandshakeFlight_wrote {a : AeadBackend} {keys : RecordKeys} {plaintext record : Bytes}
    {peerRsl outLen : Nat}
    (h : (encryptHandshakeFlight a keys plaintext peerRsl outLen).result = .ok record) :
    (encryptHandshakeFlight a keys plaintext peerRsl outLen).Wrote record outLen := by
  revert h
  refine encryptHandshakeFlight_induct
    (fun s => (s.sealed.map SealedRecord.record).flatten = s.written ∧ s.written.length ≤ outLen)
    (fun r => r.result = .ok record → r.Wrote record outLen) ⟨rfl, Nat.zero_le _⟩ ?_ ?_ nofun
  · rintro s record' dirty ⟨hrecords, hfits⟩ - hrecord
    obtain ⟨-, -, -, hlen, -⟩ := RecordKeys.encryptRecord_eq_ok hrecord
    refine ⟨by simp [hrecords], ?_⟩
    simp only [List.length_append]
    omega
  · rintro s ⟨hrecords, hfits⟩ - ⟨⟩
    exact ⟨rfl, hrecords, hfits⟩

namespace ServerFlightDone

variable {app : AppData} {d : ServerFlightDone} {record : Bytes}
variable {outLen : Nat}

/-- The application keys, bound to the transcript through the server `Finished`. -/
def appKeys (cfg : ClientConfig) (d : ServerFlightDone) (thThroughSfin : TranscriptDigest) :
    Except ConnectionError AppData := do
  let ms ← (cfg.hkdf.masterSecret d.hs).mapError .hkdf
  let (cApTs, sApTs) ← (cfg.hkdf.applicationTrafficSecrets ms thThroughSfin).mapError .hkdf
  let cApKeys ← (RecordKeys.derive cfg.hkdf d.suite cApTs).mapError .hkdf
  let sApKeys ← (RecordKeys.derive cfg.hkdf d.suite sApTs).mapError .hkdf
  pure { suite := d.suite, cApKeys, sApKeys, cApTs, sApTs, seqOut := 0, seqIn := 0 }

/-- Seal the client `Finished` first (`build_client_finished`), then derive the application keys. -/
def finishHandshake (cfg : ClientConfig) (d : ServerFlightDone) (outLen : Nat) :
    Sealing (Bytes × AppData) :=
  match d.transcript.snapshot cfg.hkdf with
  | .error e => ⟨.error (.transcript e), [], []⟩
  | .ok th =>
      match clientFinishedParts cfg.hkdf d.suite d.cHsTs th with
      | .error e => ⟨.error (.clientFinished e), [], []⟩
      | .ok (finishedMsg, keys) =>
          let (record, dirty) := keys.encryptRecord cfg.aead finishedMsg ctHandshake 0 outLen
          match record with
          | .error e => ⟨.error (.clientFinished (.encrypt e)), dirty, []⟩
          | .ok record =>
              ⟨(d.appKeys cfg th).map (record, ·), dirty, [⟨0, ctHandshake, finishedMsg, record⟩]⟩

/-- The client-auth flight: the policy builds its plaintext in `flightScratch`, which is returned
as the call leaves it. -/
def finishHandshakeWithPolicy (cfg : ClientConfig) (d : ServerFlightDone)
    (policy : ClientAuthPolicy) (certRequestContext certRequestSigAlgs : Bytes)
    (peerRecordSizeLimit : Nat) {n : Nat} (flightScratch : Block n) (outLen : Nat) :
    Sealing (Bytes × AppData) × Block n :=
  match d.transcript.snapshot cfg.hkdf with
  | .error e => (⟨.error (.transcript e), [], []⟩, flightScratch)
  | .ok thThroughSfin =>
      let (plaintext, flightScratch) := policy.buildFlight cfg.hkdf
        ⟨certRequestContext, certRequestSigAlgs, d.cHsTs, d.transcript⟩ flightScratch
      match plaintext with
      | .error e => (⟨.error (.clientAuth e), [], []⟩, flightScratch)
      | .ok plaintext =>
          match RecordKeys.derive cfg.hkdf d.suite d.cHsTs with
          | .error e => (⟨.error (.hkdf e), [], []⟩, flightScratch)
          | .ok keys =>
              let flight :=
                encryptHandshakeFlight cfg.aead keys plaintext peerRecordSizeLimit outLen
              match flight.result with
              | .error e => (⟨.error e, flight.written, flight.sealed⟩, flightScratch)
              | .ok record =>
                  (⟨(d.appKeys cfg thThroughSfin).map (record, ·), flight.written, flight.sealed⟩,
                    flightScratch)

theorem finishHandshake_eq_ok (h : (d.finishHandshake cfg outLen).result = .ok (record, app)) :
    (∃ th, d.appKeys cfg th = .ok app) ∧ (d.finishHandshake cfg outLen).Wrote record outLen := by
  unfold finishHandshake at h ⊢
  split at h
  · cases h
  · split at h
    · cases h
    · dsimp only at h ⊢
      split at h
      · cases h
      · rename_i record' hrecord
        obtain ⟨hdirty, -, -, hlen, -⟩ := RecordKeys.encryptRecord_eq_ok (Prod.ext hrecord rfl)
        obtain ⟨app', happ, hout⟩ := map_eq_ok.mp h
        cases hout
        exact ⟨⟨_, happ⟩, hdirty, by simp, hlen⟩

/-- What a finished handshake has gone through: the policy's plaintext is sealed in a flight, and the
application keys come from the transcript up to the server's `Finished`. -/
theorem finishHandshakeWithPolicy_parts {policy : ClientAuthPolicy}
    {ctx sigAlgs : Bytes} {limit n : Nat} {scratch : Block n}
    (h : (d.finishHandshakeWithPolicy cfg policy ctx sigAlgs limit scratch outLen).1.result =
      .ok (record, app)) :
    ∃ th plaintext scratch' keys, d.transcript.snapshot cfg.hkdf = .ok th ∧
      policy.buildFlight cfg.hkdf ⟨ctx, sigAlgs, d.cHsTs, d.transcript⟩ scratch =
        (.ok plaintext, scratch') ∧
      (encryptHandshakeFlight cfg.aead keys plaintext limit outLen).result = .ok record ∧
      d.appKeys cfg th = .ok app ∧
      (d.finishHandshakeWithPolicy cfg policy ctx sigAlgs limit scratch outLen).1 =
        ⟨.ok (record, app), (encryptHandshakeFlight cfg.aead keys plaintext limit outLen).written,
          (encryptHandshakeFlight cfg.aead keys plaintext limit outLen).sealed⟩ := by
  unfold finishHandshakeWithPolicy at h ⊢
  split at h
  · cases h
  · rename_i th hth
    rcases hbuild : policy.buildFlight cfg.hkdf ⟨ctx, sigAlgs, d.cHsTs, d.transcript⟩ scratch with
      ⟨plaintext, scratch'⟩
    rw [hbuild] at h
    dsimp only at h ⊢
    split at h
    · cases h
    · split at h
      · cases h
      · split at h
        · cases h
        · rename_i hflight
          obtain ⟨app', happ, hout⟩ := map_eq_ok.mp h
          cases hout
          exact ⟨th, _, scratch', _, hth, rfl, hflight, happ, by rw [happ]; rfl⟩

theorem finishHandshakeWithPolicy_eq_ok {policy : ClientAuthPolicy}
    {ctx sigAlgs : Bytes} {limit n : Nat} {scratch : Block n}
    (h : (d.finishHandshakeWithPolicy cfg policy ctx sigAlgs limit scratch outLen).1.result =
      .ok (record, app)) :
    (∃ th, d.appKeys cfg th = .ok app) ∧
      (d.finishHandshakeWithPolicy cfg policy ctx sigAlgs limit scratch outLen).1.Wrote record
        outLen := by
  obtain ⟨th, _, _, _, -, -, hflight, happ, heq⟩ := finishHandshakeWithPolicy_parts cfg h
  have hwrote := encryptHandshakeFlight_wrote hflight
  rw [heq]
  exact ⟨⟨th, happ⟩, hwrote.written, hwrote.records, hwrote.fits⟩

theorem appKeys_eq_ok {th : TranscriptDigest} (h : d.appKeys cfg th = .ok app) :
    app.seqOut = 0 ∧ app.seqIn = 0 ∧ app.suite = d.suite ∧
      RecordKeys.derive cfg.hkdf d.suite app.cApTs = .ok app.cApKeys := by
  simp only [appKeys, bind_eq_ok, mapError_eq_ok] at h
  obtain ⟨_, _, ⟨_, _⟩, _, _, hkeys, _, _, hout⟩ := h
  cases hout
  exact ⟨rfl, rfl, rfl, hkeys⟩

end ServerFlightDone

namespace AppData

variable {c c' : AppData}

/-- Seal under the current send keys; the counter moves on with the record. The second component
is what the call leaves at the front of the output buffer. -/
def encryptRecord (c : AppData) (content : Bytes) (contentType : UInt8) (outLen : Nat) :
    Except ConnectionError Bytes × Bytes × AppData :=
  let (record, dirty) := c.cApKeys.encryptRecord cfg.aead content contentType c.seqOut outLen
  match record with
  | .error e => (.error (.encrypt e), dirty, c)
  | .ok record => (.ok record, dirty, { c with seqOut := (c.seqOut + 1) % 2 ^ 64 })

/-- Open in place: the content is `record[5..5 + content_len]`. -/
def decryptRecordInplace (c : AppData) (record : Bytes) :
    Except ConnectionError (Nat × UInt8) × Bytes × AppData :=
  let (opened, record) := c.sApKeys.decryptRecordInplace cfg.aead record c.seqIn
  match opened with
  | .error e => (.error (.decrypt e), record, c)
  | .ok innerLen =>
      match splitInnerPlaintext (slice record 5 (5 + innerLen)) with
      | .error e => (.error (.decrypt e), record, c)
      | .ok (content, ct) =>
          (.ok (content.length, ct), record, { c with seqIn := (c.seqIn + 1) % 2 ^ 64 })

theorem decryptRecordInplace_length (c : AppData) (record : Bytes) :
    (c.decryptRecordInplace cfg record).2.1.length = record.length := by
  have hlen := RecordKeys.decryptRecordInplace_length cfg.aead c.sApKeys record c.seqIn
  unfold decryptRecordInplace
  dsimp only
  repeat' split
  all_goals exact hlen

def keyUpdateMsg (requestUpdate : Bool) : Bytes :=
  [hsKeyUpdate, 0x00, 0x00, 0x01, if requestUpdate then 1 else 0]

def encryptKeyUpdate (c : AppData) (requestUpdate : Bool) (outLen : Nat) :
    Except ConnectionError Bytes × Bytes × AppData :=
  c.encryptRecord cfg (keyUpdateMsg requestUpdate) ctHandshake outLen

/-- The next generation of a traffic secret and its keys. -/
def nextKeys (suite : CipherSuite) (secret : Secret) : Except ConnectionError (Secret × RecordKeys) :=
  do
  let next ← (cfg.hkdf.nextApplicationTrafficSecret secret).mapError .hkdf
  let keys ← (RecordKeys.derive cfg.hkdf suite next).mapError .hkdf
  pure (next, keys)

def applyRecvKeyUpdate (c : AppData) : Except ConnectionError AppData := do
  let (next, keys) ← nextKeys cfg c.suite c.sApTs
  pure { c with sApKeys := keys, sApTs := next, seqIn := 0 }

def applySendKeyUpdate (c : AppData) : Except ConnectionError AppData := do
  let (next, keys) ← nextKeys cfg c.suite c.cApTs
  pure { c with cApKeys := keys, cApTs := next, seqOut := 0 }

/-- Sealing moves the send counter on and changes nothing else. -/
theorem encryptRecord_eq_ok {content record dirty : Bytes} {contentType : UInt8} {outLen : Nat}
    (h : c.encryptRecord cfg content contentType outLen = (.ok record, dirty, c')) :
    c.cApKeys.encryptRecord cfg.aead content contentType c.seqOut outLen = (.ok record, dirty) ∧
      c' = { c with seqOut := (c.seqOut + 1) % 2 ^ 64 } := by
  unfold encryptRecord at h
  rcases hrec : c.cApKeys.encryptRecord cfg.aead content contentType c.seqOut outLen with ⟨r, d⟩
  rw [hrec] at h
  dsimp only at h
  split at h
  · cases h
  · cases h
    exact ⟨rfl, rfl⟩

theorem nextKeys_eq_ok {suite : CipherSuite} {secret next : Secret} {keys : RecordKeys} :
    nextKeys cfg suite secret = .ok (next, keys) ↔
      cfg.hkdf.nextApplicationTrafficSecret secret = .ok next ∧
        RecordKeys.derive cfg.hkdf suite next = .ok keys := by
  simp only [nextKeys, bind_eq_ok, mapError_eq_ok]
  constructor
  · rintro ⟨_, hnext, _, hkeys, hout⟩
    cases hout
    exact ⟨hnext, hkeys⟩
  · rintro ⟨hnext, hkeys⟩
    exact ⟨next, hnext, keys, hkeys, rfl⟩

theorem nextKeys_total (htotal : cfg.hkdf.Total) (suite : CipherSuite) (secret : Secret) :
    ∃ next keys, nextKeys cfg suite secret = .ok (next, keys) := by
  have hkey : suite.keyLen ≤ 32 := by cases suite <;> decide
  obtain ⟨next, hnext⟩ := HkdfSha256.hkdfExpandLabel_total htotal secret (ascii "traffic upd") 32
    (by decide) (by decide)
  obtain ⟨key, hkey⟩ := HkdfSha256.hkdfExpandLabel_total htotal next (ascii "key") suite.keyLen
    (by decide) hkey
  obtain ⟨iv, hiv⟩ := HkdfSha256.hkdfExpandLabel_total htotal next (ascii "iv") 12 (by decide)
    (by decide)
  refine ⟨next, ⟨suite, key, iv⟩, (nextKeys_eq_ok cfg).mpr ⟨hnext, ?_⟩⟩
  simp only [RecordKeys.derive, HkdfSha256.trafficKeys, bind_eq_ok]
  exact ⟨(key, iv), ⟨key, hkey, iv, hiv, rfl⟩, rfl⟩

theorem applyRecvKeyUpdate_eq_ok (h : c.applyRecvKeyUpdate cfg = .ok c') :
    ∃ next keys, nextKeys cfg c.suite c.sApTs = .ok (next, keys) ∧
      c' = { c with sApKeys := keys, sApTs := next, seqIn := 0 } := by
  obtain ⟨⟨next, keys⟩, hnext, hout⟩ := bind_eq_ok.mp h
  cases hout
  exact ⟨next, keys, hnext, rfl⟩

theorem applySendKeyUpdate_eq_ok (h : c.applySendKeyUpdate cfg = .ok c') :
    ∃ next keys, nextKeys cfg c.suite c.cApTs = .ok (next, keys) ∧
      c' = { c with cApKeys := keys, cApTs := next, seqOut := 0 } := by
  obtain ⟨⟨next, keys⟩, hnext, hout⟩ := bind_eq_ok.mp h
  cases hout
  exact ⟨next, keys, hnext, rfl⟩

end AppData

/-- A traffic secret and its successor after `n` updates. -/
inductive UpdatedBy (h : HkdfSha256) (secret : Secret) : Nat → Secret → Prop where
  | zero : UpdatedBy h secret 0 secret
  | succ {n s next} (hs : UpdatedBy h secret n s)
      (hnext : h.nextApplicationTrafficSecret s = .ok next) : UpdatedBy h secret (n + 1) next

end KrabiTls
