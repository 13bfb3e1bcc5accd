import KrabiTls.Engine.Steps
import KrabiTls.Messages

/-! The handshake transcript over whole runs. The abstract machine `HandshakeView` keeps what the
hashed string is made of: the hellos, the reassembled flight, and what the client seals in reply. -/
namespace KrabiTls
open Lib Relation

/-- The records taken for the server flight, in order, the next sequence number, and the handshake
bytes they carry. A `change_cipher_spec` carries none; of a protected record, only the content
counts, without header, content type and padding. -/
inductive CarriedBy (a : AeadBackend) (keys : RecordKeys) : List Bytes → Nat → Bytes → Prop where
  | nil : CarriedBy a keys [] 0 []
  | changeCipherSpec {records seq bytes record} (h : CarriedBy a keys records seq bytes)
      (htype : record.head? = some ctChangeCipherSpec) :
      CarriedBy a keys (records ++ [record]) seq bytes
  | opened {records seq bytes record innerLen opened content pad}
      (h : CarriedBy a keys records seq bytes) (htype : record.head? = some ctApplicationData)
      (hopen : keys.decryptRecordInplace a record seq = (.ok innerLen, opened))
      (hinner : slice opened 5 (5 + innerLen) = content ++ [ctHandshake] ++ List.replicate pad 0) :
      CarriedBy a keys (records ++ [record]) ((seq + 1) % 2 ^ 64) (bytes ++ content)

namespace WaitServerFlight
variable {cfg : ClientConfig} {n : Nat}

/-- One record: refused, it leaves connection and reassembler alone; taken, it extends what the
records carry. -/
theorem feedServerRecordInplace_carried {c : WaitServerFlight} {r : ServerFlightReassembler n}
    {records : List Bytes} (h : CarriedBy cfg.aead c.sHsKeys records c.seqIn r.buf) (record : Bytes) :
    let fed := c.feedServerRecordInplace cfg record r
    ∃ seqIn, fed.conn = { c with seqIn } ∧ CarriedBy cfg.aead c.sHsKeys
      (records ++ if fed.result.isOk then [record] else []) seqIn fed.reassembler.buf := by
  intro fed
  rcases c.feedServerRecordInplace_cases cfg record r with
    ⟨hconn, hreasm, hccs⟩ | ⟨innerLen, opened, content, pad, htype, hopen, hinner, hconn, hbuf, hok⟩
  · refine ⟨c.seqIn, hconn, ?_⟩
    rw [hreasm]
    split
    · rename_i hok
      exact h.changeCipherSpec (hccs hok)
    · rwa [List.append_nil]
  · refine ⟨_, hconn, ?_⟩
    rw [hbuf, if_pos hok]
    exact h.opened htype hopen hinner

end WaitServerFlight

/-- The bodies of the messages the client sends in its second flight. -/
structure ClientMessages where
  certificate : Option Bytes
  certificateVerify : Option Bytes
  finished : Bytes

namespace ClientMessages

def certificateMsg (m : ClientMessages) : Bytes := m.certificate.elim [] (hsMessage hsCertificate)

def certificateVerifyMsg (m : ClientMessages) : Bytes :=
  m.certificateVerify.elim [] (hsMessage hsCertificateVerify)

def bytes (m : ClientMessages) : Bytes :=
  m.certificateMsg ++ m.certificateVerifyMsg ++ hsMessage hsFinished m.finished

/-- The messages were made over the transcript `t` through the server `Finished`. -/
structure MadeOver (h : HkdfSha256) (policy : ClientAuthPolicy) (cHsTs : Secret) (t : Bytes)
    (m : ClientMessages) : Prop where
  certificateVerify : ∀ body ∈ m.certificateVerify, m.certificate.isSome = true ∧
    ∃ (f : Features) (auth : ClientAuth f), policy = withClientAuth auth ∧
      ∃ th sig, h.hash (t ++ m.certificateMsg) = .ok th ∧
        auth.sign (certificateVerifyContent "TLS 1.3, client CertificateVerify" th) = .ok sig ∧
        body = toBe 2 auth.scheme ++ toBe 2 sig.val.length ++ sig.val
  finished : ∃ th mac, h.hash (t ++ m.certificateMsg ++ m.certificateVerifyMsg) = .ok th ∧
    h.finishedMac cHsTs th = .ok mac ∧ m.finished = mac.val

end ClientMessages

variable {h : HkdfSha256} {t : TranscriptHash} {msg plaintext : Bytes}

/-- The policies of the crate. -/
inductive ClientAuthPolicy.BuiltIn : ClientAuthPolicy → Prop where
  | refuse : BuiltIn noClientAuth
  | decline : BuiltIn declineClientAuth
  | withAuth {f : Features} (auth : ClientAuth f) : BuiltIn (withClientAuth auth)

theorem TranscriptHash.snapshot_eq_ok {th : TranscriptDigest} :
    t.snapshot h = .ok th ↔ h.hash t.fed = .ok th :=
  mapError_eq_ok

theorem FlightWriter.build_cons_eq_ok {cap : Nat} {w w' : FlightWriter}
    {stage : TranscriptHash → Except ClientAuthFlightError Bytes}
    {rest : List (TranscriptHash → Except ClientAuthFlightError Bytes)}
    (h : FlightWriter.build cap (stage :: rest) w = (.ok (), w')) :
    ∃ msg, stage w.transcript = .ok msg ∧
      FlightWriter.build cap rest ⟨w.transcript.update msg, w.written ++ msg⟩ = (.ok (), w') := by
  unfold FlightWriter.build at h
  split at h
  · cases h
  · rename_i w₁ hpush
    obtain ⟨msg, hstage, hpush⟩ := bind_eq_ok.mp hpush
    unfold FlightWriter.push at hpush
    split at hpush
    · cases hpush
      exact ⟨msg, hstage, h⟩
    · cases hpush

theorem buildFinishedPlaintext_eq_ok {cHsTs : Secret} {th : TranscriptDigest}
    (hmsg : buildFinishedPlaintext h cHsTs th = .ok msg) :
    ∃ mac, h.finishedMac cHsTs th = .ok mac ∧ msg = hsMessage hsFinished mac.val := by
  obtain ⟨mac, hmac, hout⟩ := bind_eq_ok.mp hmsg
  cases hout
  refine ⟨mac, mapError_eq_ok.mp hmac, ?_⟩
  have hlen : toBe 3 mac.val.length = [0x00, 0x00, 0x20] := by rw [mac.property]; rfl
  rw [hsMessage, hlen, List.cons_append]

theorem finishedStage_eq_ok {cHsTs : Secret} (hmsg : finishedStage h cHsTs t = .ok msg) :
    ∃ th mac, h.hash t.fed = .ok th ∧ h.finishedMac cHsTs th = .ok mac ∧
      msg = hsMessage hsFinished mac.val := by
  obtain ⟨th, hth, hmsg⟩ := bind_eq_ok.mp hmsg
  obtain ⟨mac, hmac, hout⟩ := buildFinishedPlaintext_eq_ok (mapError_eq_ok.mp hmsg)
  exact ⟨th, mac, TranscriptHash.snapshot_eq_ok.mp (mapError_eq_ok.mp hth), hmac, hout⟩

theorem certificateVerifyStage_eq_ok {f : Features} {auth : ClientAuth f}
    (hmsg : certificateVerifyStage h auth t = .ok msg) :
    ∃ th sig, h.hash t.fed = .ok th ∧
      auth.sign (certificateVerifyContent "TLS 1.3, client CertificateVerify" th) = .ok sig ∧
      msg = hsMessage hsCertificateVerify
        (toBe 2 auth.scheme ++ toBe 2 sig.val.length ++ sig.val) := by
  obtain ⟨th, hth, hmsg⟩ := bind_eq_ok.mp hmsg
  obtain ⟨sig, hsig, hout⟩ := bind_eq_ok.mp hmsg
  cases hout
  exact ⟨th, sig, TranscriptHash.snapshot_eq_ok.mp (mapError_eq_ok.mp hth), mapError_eq_ok.mp hsig,
    rfl⟩

theorem buildClientEmptyCertificate_eq_ok {ctx : Bytes}
    (h : buildClientEmptyCertificate ctx = .ok msg) : ∃ body, msg = hsMessage hsCertificate body := by
  unfold buildClientEmptyCertificate at h
  split at h
  · cases h
  · cases h
    exact ⟨_, rfl⟩

theorem buildClientCertificate_eq_ok {f : Features} {certDer ctx : Bytes}
    (h : buildClientCertificate f certDer ctx = .ok msg) :
    ∃ body, msg = hsMessage hsCertificate body := by
  unfold buildClientCertificate at h
  repeat (split at h; · cases h)
  cases h
  exact ⟨_, rfl⟩

theorem buildStages_eq_ok {req : FlightRequest} {n : Nat} {out out' : Block n}
    {stages : List (TranscriptHash → Except ClientAuthFlightError Bytes)}
    (h : req.buildStages stages out = (.ok plaintext, out')) :
    ∃ w, FlightWriter.build n stages ⟨req.transcript, []⟩ = (.ok (), w) ∧ plaintext = w.written := by
  unfold FlightRequest.buildStages at h
  rcases hbuild : FlightWriter.build n stages ⟨req.transcript, []⟩ with ⟨result, w⟩
  rw [hbuild] at h
  obtain ⟨⟨⟩, hresult, hout⟩ := map_eq_ok.mp (congrArg Prod.fst h)
  exact ⟨w, by rw [hresult], hout.symm⟩

/-- The flight a policy of the crate builds is its messages, each made over what stands in front of
it. -/
theorem ClientAuthPolicy.BuiltIn.buildFlight_eq_ok {policy : ClientAuthPolicy}
    (hpolicy : policy.BuiltIn) {req : FlightRequest} {n : Nat} {out out' : Block n}
    (hbuild : policy.buildFlight h req out = (.ok plaintext, out')) :
    ∃ m : ClientMessages, plaintext = m.bytes ∧ m.certificate.isSome = true ∧
      m.MadeOver h policy req.cHsTrafficSecret req.transcript.fed := by
  cases hpolicy with
  | refuse => cases hbuild
  | decline =>
    change req.buildStages (declineStages h req) out = _ at hbuild
    obtain ⟨w, hw, rfl⟩ := buildStages_eq_ok hbuild
    obtain ⟨cert, hcert, hw⟩ := FlightWriter.build_cons_eq_ok hw
    obtain ⟨fin, hfin, hw⟩ := FlightWriter.build_cons_eq_ok hw
    cases hw
    obtain ⟨certBody, rfl⟩ := buildClientEmptyCertificate_eq_ok hcert
    obtain ⟨th, mac, hth, hmac, rfl⟩ := finishedStage_eq_ok hfin
    refine ⟨⟨some certBody, none, mac.val⟩, ?_, rfl, by simp, ?_⟩
    · simp [ClientMessages.bytes, ClientMessages.certificateMsg, ClientMessages.certificateVerifyMsg]
    · exact ⟨th, mac, by simpa [ClientMessages.certificateMsg, ClientMessages.certificateVerifyMsg,
        TranscriptHash.update] using hth, hmac, rfl⟩
  | withAuth auth =>
    unfold withClientAuth at hbuild
    dsimp only at hbuild
    split at hbuild
    · cases hbuild
    · obtain ⟨w, hw, rfl⟩ := buildStages_eq_ok hbuild
      obtain ⟨cert, hcert, hw⟩ := FlightWriter.build_cons_eq_ok hw
      obtain ⟨cv, hcv, hw⟩ := FlightWriter.build_cons_eq_ok hw
      obtain ⟨fin, hfin, hw⟩ := FlightWriter.build_cons_eq_ok hw
      cases hw
      obtain ⟨certBody, rfl⟩ := buildClientCertificate_eq_ok hcert
      obtain ⟨thCert, sig, hthCert, hsig, rfl⟩ := certificateVerifyStage_eq_ok hcv
      obtain ⟨th, mac, hth, hmac, rfl⟩ := finishedStage_eq_ok hfin
      refine ⟨⟨some certBody, some (toBe 2 auth.scheme ++ toBe 2 sig.val.length ++ sig.val), mac.val⟩,
        ?_, rfl, ?_, ?_⟩
      · simp [ClientMessages.bytes, ClientMessages.certificateMsg,
          ClientMessages.certificateVerifyMsg]
      · rintro body ⟨⟩
        exact ⟨rfl, _, auth, rfl, thCert, sig, hthCert, hsig, rfl⟩
      · exact ⟨th, mac, hth, hmac, rfl⟩

/-- The contents of the records of a flight are the flight, cut into chunks. -/
theorem encryptHandshakeFlight_contents {a : AeadBackend} {keys : RecordKeys}
    {record : Bytes} {peerRsl outLen : Nat}
    (h : (encryptHandshakeFlight a keys plaintext peerRsl outLen).result = .ok record) :
    ((encryptHandshakeFlight a keys plaintext peerRsl outLen).sealed.map
      SealedRecord.content).flatten = plaintext := by
  revert h
  refine encryptHandshakeFlight_induct
    (fun s => (s.sealed.map SealedRecord.content).flatten ++ s.rest = plaintext)
    (fun r => r.result = .ok record → (r.sealed.map SealedRecord.content).flatten = plaintext)
    rfl ?_ ?_ nofun
  · intro s record' dirty hcontents _ _
    simpa using hcontents
  · intro s hcontents hrest _
    rwa [hrest, List.append_nil] at hcontents

/-- The application secrets come from the hash of `t`. -/
def SecretsFrom (cfg : ClientConfig) (hs : Secret) (t : Bytes) (cApTs sApTs : Secret) : Prop :=
  ∃ th ms, cfg.hkdf.hash t = .ok th ∧ cfg.hkdf.masterSecret hs = .ok ms ∧
    cfg.hkdf.applicationTrafficSecrets ms th = .ok (cApTs, sApTs)

/-- The client's side of a handshake that was finished over the transcript `t`: the records sealed
under the handshake secret and the application secrets. -/
structure FinishedOver (cfg : ClientConfig) (policy : ClientAuthPolicy) (requested : Bool)
    (done : ServerFlightDone) (sealed : List SealedRecord) (app : AppData) : Prop where
  secrets : SecretsFrom cfg done.hs done.transcript.fed app.cApTs app.sApTs
  messages : (requested = true → policy.BuiltIn) →
    ∃ m : ClientMessages, (sealed.map SealedRecord.content).flatten = m.bytes ∧
      m.certificate.isSome = requested ∧
      m.MadeOver cfg.hkdf policy done.cHsTs done.transcript.fed

namespace ServerFlightDone
variable {cfg : ClientConfig} {d : ServerFlightDone}
variable {app : AppData}

theorem appKeys_secrets {th : TranscriptDigest} (hth : cfg.hkdf.hash d.transcript.fed = .ok th)
    (h : d.appKeys cfg th = .ok app) :
    SecretsFrom cfg d.hs d.transcript.fed app.cApTs app.sApTs := by
  simp only [appKeys, bind_eq_ok, mapError_eq_ok] at h
  obtain ⟨ms, hms, ⟨cApTs, sApTs⟩, hsecrets, _, _, _, _, hout⟩ := h
  cases hout
  exact ⟨th, ms, hth, hms, hsecrets⟩

theorem finishHandshake_finished {outLen : Nat} {record : Bytes} (policy : ClientAuthPolicy)
    (h : (d.finishHandshake cfg outLen).result = .ok (record, app)) :
    FinishedOver cfg policy false d (d.finishHandshake cfg outLen).sealed app := by
  unfold finishHandshake at h ⊢
  split at h
  · cases h
  · rename_i th hth
    rw [TranscriptHash.snapshot_eq_ok] at hth
    split at h
    · cases h
    · rename_i finishedMsg keys hparts
      dsimp only at h ⊢
      split at h
      · cases h
      · obtain ⟨app', happ, hout⟩ := map_eq_ok.mp h
        cases hout
        simp only [clientFinishedParts, bind_eq_ok] at hparts
        obtain ⟨msg, hmsg, _, _, hparts⟩ := hparts
        cases hparts
        obtain ⟨mac, hmac, rfl⟩ := buildFinishedPlaintext_eq_ok hmsg
        refine ⟨appKeys_secrets hth happ, fun _ =>
          ⟨⟨none, none, mac.val⟩, ?_, rfl, by simp, th, mac, ?_, hmac, rfl⟩⟩
        · simp [ClientMessages.bytes, ClientMessages.certificateMsg,
            ClientMessages.certificateVerifyMsg]
        · simpa [ClientMessages.certificateMsg, ClientMessages.certificateVerifyMsg] using hth

theorem finishHandshakeWithPolicy_finished {policy : ClientAuthPolicy} {ctx sigAlgs : Bytes}
    {limit n outLen : Nat} {scratch : Block n} {record : Bytes}
    (h : (d.finishHandshakeWithPolicy cfg policy ctx sigAlgs limit scratch outLen).1.result =
      .ok (record, app)) :
    FinishedOver cfg policy true d
      (d.finishHandshakeWithPolicy cfg policy ctx sigAlgs limit scratch outLen).1.sealed app := by
  obtain ⟨th, plaintext, scratch', keys, hth, hbuild, hflight, happ, heq⟩ :=
    finishHandshakeWithPolicy_parts cfg h
  rw [heq]
  refine ⟨appKeys_secrets (TranscriptHash.snapshot_eq_ok.mp hth) happ, fun hpolicy => ?_⟩
  obtain ⟨m, hbytes, hcert, hmade⟩ := (hpolicy rfl).buildFlight_eq_ok hbuild
  have hcontents := encryptHandshakeFlight_contents hflight
  exact ⟨m, hcontents.trans hbytes, hcert, hmade⟩

end ServerFlightDone

/-- The state of the handshake, and in the data phase the current traffic secrets. -/
inductive HandshakePhase (cfg : ClientConfig) where
  | hello (conn : WaitServerHello cfg)
  | flight (conn : WaitServerFlight)
  | app (cApTs sApTs : Secret)
  | over

/-- The records of the handshake are still being read. -/
@[simp] def HandshakePhase.reading {cfg : ClientConfig} : HandshakePhase cfg → Bool
  | .hello _ | .flight _ => true
  | _ => false

structure HandshakeView (cfg : ClientConfig) (n : Nat) where
  phase : HandshakePhase cfg
  reassembler : ServerFlightReassembler n
  sealed : List SealedRecord
  sendGen : Nat
  recvGen : Nat
  authenticated : List (AuthRecord cfg)

namespace HandshakeView
variable {cfg : ClientConfig} {n : Nat}

/-- What `finalize_and_finish` has checked and made when the handshake is over. -/
structure Finished (v : HandshakeView cfg n) (conn : WaitServerFlight) (done : ServerFlightDone)
    (auth : AuthRecord cfg) (sealed : List SealedRecord) (app : AppData) : Prop where
  phase : v.phase = .flight conn
  received : ∃ bytes, v.reassembler.flightBytes = some bytes ∧
    parseServerFlight bytes = .ok auth.flight
  verified : FlightVerified cfg.features cfg.hkdf conn.transcript auth.flight conn.sHsTs auth.prepared
  transcript : done.transcript = conn.transcript.throughFin auth.flight
  secrets : done.hs = conn.hs ∧ done.cHsTs = conn.cHsTs
  client : FinishedOver cfg auth.params.clientAuth auth.flight.certRequestFull.isSome done sealed app

/-- A step that reads no record of the handshake. -/
inductive Step : HandshakeView cfg n → HandshakeView cfg n → Prop where
  | stay {v} : Step v v
  | stop {v v'} (hphase : v'.phase = .over) : Step v v'
  | finish {v conn done auth sealed app} (h : Finished v conn done auth sealed app) :
      Step v { v with
        phase := .app app.cApTs app.sApTs
        sealed := v.sealed ++ sealed
        authenticated := v.authenticated ++ [auth] }
  | rotateSend {v cApTs sApTs next} (hphase : v.phase = .app cApTs sApTs)
      (hnext : cfg.hkdf.nextApplicationTrafficSecret cApTs = .ok next) :
      Step v { v with phase := .app next sApTs, sendGen := v.sendGen + 1 }
  | rotateRecv {v cApTs sApTs next} (hphase : v.phase = .app cApTs sApTs)
      (hnext : cfg.hkdf.nextApplicationTrafficSecret sApTs = .ok next) :
      Step v { v with phase := .app cApTs next, recvGen := v.recvGen + 1 }

end HandshakeView

/-- The messages of a handshake: the bodies of the two hellos, the connection they led to, the
records of the server flight, and what the server flight was checked with. -/
structure HandshakeLog (cfg : ClientConfig) where
  clientHello : Bytes
  serverHello : Bytes
  keyed : WaitServerFlight
  records : List Bytes
  auth : AuthRecord cfg

namespace HandshakeLog
variable {cfg : ClientConfig} (log : HandshakeLog cfg)

def throughServerHello : Bytes :=
  hsMessage hsClientHello log.clientHello ++ hsMessage hsServerHello log.serverHello

def throughCertificate : Bytes :=
  log.throughServerHello ++ log.auth.flight.eeFull ++ log.auth.flight.certRequestFull.getD [] ++
    log.auth.flight.certFull

def throughCertificateVerify : Bytes := log.throughCertificate ++ log.auth.flight.cvFull

def throughFinished : Bytes := log.throughCertificateVerify ++ log.auth.flight.finFull

def taken : List Bytes := helloRecord hsServerHello log.serverHello :: log.records

/-- Every hash of the handshake was taken over exactly the messages exchanged. -/
structure Exact (first : WaitServerHello cfg) (sealed : List SealedRecord) (cApTs sApTs : Secret) :
    Prop where
  serverHello : first.readServerHello (helloRecord hsServerHello log.serverHello) = .ok log.keyed
  received : ∃ seq bytes rest, CarriedBy cfg.aead log.keyed.sHsKeys log.records seq (bytes ++ rest) ∧
    log.auth.flight.FramedIn bytes
  certificateVerify : ∃ th, cfg.hkdf.hash log.throughCertificate = .ok th ∧
    CertificateVerified cfg.features log.auth.prepared th log.auth.flight.cvBody
  finished : ∃ th mac, cfg.hkdf.hash log.throughCertificateVerify = .ok th ∧
    cfg.hkdf.finishedMac log.keyed.sHsTs th = .ok mac ∧ log.auth.flight.finBody = mac.val
  secrets : SecretsFrom cfg log.keyed.hs log.throughFinished cApTs sApTs
  /-- a request is answered by the policy; without one there is only `Finished` -/
  client : (log.auth.flight.certRequestFull.isSome = true → log.auth.params.clientAuth.BuiltIn) →
    ∃ m : ClientMessages, (sealed.map SealedRecord.content).flatten = m.bytes ∧
      m.certificate.isSome = log.auth.flight.certRequestFull.isSome ∧
      m.MadeOver cfg.hkdf log.auth.params.clientAuth log.keyed.cHsTs log.throughFinished

end HandshakeLog

namespace HandshakeView
variable {cfg : ClientConfig} {n : Nat}

/-- What the hashed string is made of, by phase; `taken` are the records read so far. -/
structure Inv (first : WaitServerHello cfg) (clientHello : Bytes) (taken : List Bytes)
    (v : HandshakeView cfg n) : Prop where
  hello : ∀ conn, v.phase = .hello conn → taken = [] ∧ conn = first ∧ v.reassembler.buf = [] ∧
    v.sealed = [] ∧ v.sendGen = 0 ∧ v.recvGen = 0 ∧ v.authenticated = []
  flight : ∀ conn, v.phase = .flight conn → v.sealed = [] ∧ v.sendGen = 0 ∧ v.recvGen = 0 ∧
    v.authenticated = [] ∧ ∃ serverHello keyed records,
      taken = helloRecord hsServerHello serverHello :: records ∧
      first.readServerHello (helloRecord hsServerHello serverHello) = .ok keyed ∧
      keyed.transcript.fed =
        hsMessage hsClientHello clientHello ++ hsMessage hsServerHello serverHello ∧
      conn = { keyed with seqIn := conn.seqIn } ∧
      CarriedBy cfg.aead keyed.sHsKeys records conn.seqIn v.reassembler.buf
  app : ∀ cApTs sApTs, v.phase = .app cApTs sApTs → ∃ (log : HandshakeLog cfg) (c₀ s₀ : Secret),
    log.clientHello = clientHello ∧ taken = log.taken ∧ log.Exact first v.sealed c₀ s₀ ∧
    v.authenticated = [log.auth] ∧ UpdatedBy cfg.hkdf c₀ v.sendGen cApTs ∧
    UpdatedBy cfg.hkdf s₀ v.recvGen sApTs

variable {first : WaitServerHello cfg} {clientHello : Bytes} {taken : List Bytes}
  {v v' : HandshakeView cfg n}

theorem readServerHello_transcript {record : Bytes}
    {next : WaitServerFlight} (h : first.readServerHello record = .ok next) :
    ∃ body, record = helloRecord hsServerHello body ∧
      next.transcript.fed = first.transcript.fed ++ hsMessage hsServerHello body ∧ next.seqIn = 0 := by
  obtain ⟨sh, hparse, h⟩ := bind_eq_ok.mp h
  obtain ⟨body, rfl, hlen⟩ := parseServerHello_framed (mapError_eq_ok.mp hparse)
  split at h
  · cases h
  · split at h
    · cases h
    · simp only [bind_eq_ok, mapError_eq_ok] at h
      obtain ⟨_, _, transcript, hupdate, _, _, _, _, _, _, _, _, hout⟩ := h
      rw [TranscriptHash.updateRecord_helloRecord _ _ hlen] at hupdate
      cases hupdate
      cases hout
      exact ⟨body, rfl, rfl, rfl⟩

theorem flightBytes_split {r : ServerFlightReassembler n} {bytes : Bytes}
    (h : r.flightBytes = some bytes) : ∃ rest, r.buf = bytes ++ rest := by
  obtain ⟨stop, -, rfl⟩ := Option.map_eq_some_iff.mp h
  exact ⟨r.buf.drop stop, (List.take_append_drop _ _).symm⟩

/-- A finished handshake: the checks of the server flight and the client's reply were made over the
hellos followed by the flight's messages. -/
theorem Inv.finish (hinv : v.Inv first clientHello taken) {conn : WaitServerFlight}
    {sealed : List SealedRecord} {app : AppData} {done : ServerFlightDone} {auth : AuthRecord cfg}
    (h : v.Finished conn done auth sealed app) :
    ∃ log : HandshakeLog cfg, log.clientHello = clientHello ∧ taken = log.taken ∧ log.auth = auth ∧
      log.Exact first sealed app.cApTs app.sApTs := by
  obtain ⟨-, -, -, -, serverHello, keyed, records, htaken, hread, hfed, hconn, hcarried⟩ :=
    hinv.flight conn h.phase
  obtain ⟨bytes, hreceived, hparse⟩ := h.received
  obtain ⟨rest, hbuf⟩ := flightBytes_split hreceived
  have hmessages := h.client.messages
  have hdone := h.transcript
  obtain ⟨hhs, hcHsTs⟩ := h.secrets
  obtain ⟨thCert, hthCert, hcv⟩ := h.verified.certificateVerify
  obtain ⟨thCv, mac, hthCv, hmac, hfin⟩ := h.verified.finished
  rw [TranscriptHash.snapshot_eq_ok] at hthCert hthCv
  -- the connection differs from the one the hellos led to only in its sequence number
  have htranscript : conn.transcript = keyed.transcript := by rw [hconn]
  have hkeys : conn.sHsTs = keyed.sHsTs ∧ conn.hs = keyed.hs ∧ conn.cHsTs = keyed.cHsTs := by
    rw [hconn]
    exact ⟨rfl, rfl, rfl⟩
  have hsecrets := h.client.secrets
  rw [hhs, hdone, htranscript, hkeys.2.1] at hsecrets
  rw [hcHsTs, hdone, htranscript, hkeys.2.2] at hmessages
  rw [htranscript] at hthCert hthCv
  rw [hkeys.1] at hmac
  let log : HandshakeLog cfg := ⟨clientHello, serverHello, keyed, records, auth⟩
  have hcertificate : (keyed.transcript.throughCert auth.flight).fed = log.throughCertificate := by
    simp only [TranscriptHash.throughCert, TranscriptHash.update, hfed]
    rfl
  have hcertificateVerify : (keyed.transcript.throughCv auth.flight).fed =
      log.throughCertificateVerify := by
    simp only [TranscriptHash.throughCv, TranscriptHash.update, hcertificate]
    rfl
  have hthroughFinished : (keyed.transcript.throughFin auth.flight).fed = log.throughFinished := by
    simp only [TranscriptHash.throughFin, TranscriptHash.update, hcertificateVerify]
    rfl
  rw [hcertificate] at hthCert
  rw [hcertificateVerify] at hthCv
  rw [hthroughFinished] at hsecrets hmessages
  rw [hbuf] at hcarried
  exact ⟨log, rfl, htaken, rfl, {
    serverHello := hread
    received := ⟨_, bytes, rest, hcarried, parseServerFlight_framed hparse⟩
    certificateVerify := ⟨thCert, hthCert, hcv⟩
    finished := ⟨thCv, mac, hthCv, hmac, hfin⟩
    secrets := hsecrets
    client := hmessages }⟩

theorem Inv.readHello (hfirst : first.transcript = ⟨hsMessage hsClientHello clientHello⟩)
    (hinv : v.Inv first clientHello taken) {conn : WaitServerHello cfg} {record : Bytes}
    {next : WaitServerFlight} (hphase : v.phase = .hello conn)
    (hread : conn.readServerHello record = .ok next) :
    { v with phase := .flight next }.Inv first clientHello [record] := by
  obtain ⟨-, rfl, hbuf, hsealed, hsend, hrecv, hauth⟩ := hinv.hello conn hphase
  obtain ⟨body, rfl, hfed, hseq⟩ := readServerHello_transcript hread
  refine ⟨nofun, ?_, nofun⟩
  rintro conn ⟨⟩
  refine ⟨hsealed, hsend, hrecv, hauth, body, next, [], rfl, hread, ?_, rfl, ?_⟩
  · rw [hfed, hfirst]
  · rw [hseq, hbuf]
    exact .nil

/-- A record of the server flight is fed, and counts if it is not refused. -/
theorem Inv.feed (hinv : v.Inv first clientHello taken) {conn : WaitServerFlight}
    (hphase : v.phase = .flight conn) (record : Bytes) :
    let fed := conn.feedServerRecordInplace cfg record v.reassembler
    { v with phase := .flight fed.conn, reassembler := fed.reassembler }.Inv first clientHello
      (taken ++ if fed.result.isOk then [record] else []) := by
  intro fed
  obtain ⟨hsealed, hsend, hrecv, hauth, serverHello, keyed, records, htaken, hread, hfed, hconn,
    hcarried⟩ := hinv.flight conn hphase
  have hkeys : conn.sHsKeys = keyed.sHsKeys := by rw [hconn]
  rw [← hkeys] at hcarried
  obtain ⟨seqIn, hconn', hcarried'⟩ :=
    WaitServerFlight.feedServerRecordInplace_carried hcarried record
  refine ⟨nofun, ?_, nofun⟩
  rintro _ ⟨⟩
  refine ⟨hsealed, hsend, hrecv, hauth, serverHello, keyed,
    records ++ if fed.result.isOk then [record] else [], ?_, hread, hfed, ?_, ?_⟩
  · rw [htaken, List.cons_append]
  · rw [hconn', hconn]
  · rw [hconn', ← hkeys]
    exact hcarried'

theorem Inv.step (hinv : v.Inv first clientHello taken) (hstep : Step v v') :
    v'.Inv first clientHello taken := by
  cases hstep with
  | stay => exact hinv
  | stop hphase => exact ⟨by simp [hphase], by simp [hphase], by simp [hphase]⟩
  | @finish conn done auth sealed app h =>
    obtain ⟨hsealed, hsend, hrecv, hauth, -⟩ := hinv.flight conn h.phase
    obtain ⟨log, hlog, htaken, hlogAuth, hexact⟩ := hinv.finish h
    refine ⟨nofun, nofun, ?_⟩
    rintro _ _ ⟨⟩
    refine ⟨log, app.cApTs, app.sApTs, hlog, htaken, ?_, ?_, ?_, ?_⟩
    · rw [hsealed]
      exact hexact
    · rw [hauth, hlogAuth]
      rfl
    · rw [hsend]
      exact .zero
    · rw [hrecv]
      exact .zero
  | rotateSend hphase hnext =>
    obtain ⟨log, c₀, s₀, hlog, htaken, hexact, hauth, hsend, hrecv⟩ := hinv.app _ _ hphase
    refine ⟨nofun, nofun, ?_⟩
    rintro _ _ ⟨⟩
    exact ⟨log, c₀, s₀, hlog, htaken, hexact, hauth, hsend.succ hnext, hrecv⟩
  | rotateRecv hphase hnext =>
    obtain ⟨log, c₀, s₀, hlog, htaken, hexact, hauth, hsend, hrecv⟩ := hinv.app _ _ hphase
    refine ⟨nofun, nofun, ?_⟩
    rintro _ _ ⟨⟩
    exact ⟨log, c₀, s₀, hlog, htaken, hexact, hauth, hsend, hrecv.succ hnext⟩

/-- Before the handshake is over, steps that read no record change nothing. -/
theorem eq_of_reading (hsteps : ReflTransGen Step v v') (hreading : v'.phase.reading = true) :
    v' = v := by
  induction hsteps with
  | refl => rfl
  | tail _ hstep ih =>
    cases hstep with
    | stay => exact ih hreading
    | stop hphase => simp [hphase] at hreading
    | finish | rotateSend | rotateRecv => cases hreading

end HandshakeView

@[simp] def EngineState.handshakePhase {cfg : ClientConfig} : EngineState cfg → HandshakePhase cfg
  | .waitServerHello conn => .hello conn
  | .waitFlight conn => .flight conn
  | .app conn => .app conn.cApTs conn.sApTs
  | .closed => .over

namespace Core
variable {cfg : ClientConfig} {sz : Sizes} {allowed : Call cfg → Prop}
variable {c : Core cfg sz} {record : Bytes}
variable {n : Nat}

def handshakeSealed (c : Core cfg sz) : List SealedRecord :=
  c.history.sealed.filterMap fun s => if s.1 = .handshake then some s.2 else none

def handshakeView (c : Core cfg sz) : HandshakeView cfg sz.flight where
  phase := c.state.handshakePhase
  reassembler := c.reassembler
  sealed := c.handshakeSealed
  sendGen := c.history.sendGen
  recvGen := c.history.recvGen
  authenticated := c.history.authenticated

theorem certRequest_isSome {policy : ClientAuthPolicy} {flight : ServerFlightView}
    {request : Option (Bytes × Bytes)} (h : certRequest policy flight = .ok request) :
    request.isSome = flight.certRequestFull.isSome := by
  unfold certRequest at h
  cases hrequest : flight.certRequestFull with
  | none =>
    rw [hrequest] at h
    cases h
    rfl
  | some creq =>
    rw [hrequest] at h
    dsimp only at h
    split at h
    · simp only [bind_eq_ok] at h
      obtain ⟨_, _, _, _, hout⟩ := h
      cases hout
      rfl
    · cases h

theorem clientFlight_finished {params : ClientParams cfg} {certRequest : Option (Bytes × Bytes)}
    {done : ServerFlightDone} {scratch : Block n} {app : AppData}
    (h : (c.clientFlight params certRequest done scratch).1.result = .ok (record, app)) :
    FinishedOver cfg params.clientAuth certRequest.isSome done
      (c.clientFlight params certRequest done scratch).1.sealed app := by
  unfold clientFlight at h ⊢
  split at h
  · exact ServerFlightDone.finishHandshakeWithPolicy_finished h
  · exact ServerFlightDone.finishHandshake_finished params.clientAuth h

/-- The step that queues the client flight finishes the handshake. -/
theorem FlightAccepted.handshakeView {params : ClientParams cfg}
    {conn : WaitServerFlight} {accepted : Accepted cfg} {done : ServerFlightDone}
    (h : c.FlightAccepted params conn accepted done) {scratch : Block n}
    {app : AppData}
    (hflight : (c.clientFlight params accepted.certRequest done scratch).1.result = .ok (record, app)) :
    HandshakeView.Step c.handshakeView
      { c.handshakeView with
        phase := .app app.cApTs app.sApTs
        sealed := c.handshakeSealed ++ (c.clientFlight params accepted.certRequest done scratch).1.sealed
        authenticated := c.history.authenticated ++ [accepted.auth params conn] } := by
  have hchecked := acceptFlight_checked c h.accept
  obtain ⟨bytes, hbytes, hparse⟩ := hchecked.received
  obtain ⟨-, bytes', flight, owned, hbytes', hparse', hverified, -, hdone⟩ :=
    (WaitServerFlight.finalizeServerFlight_eq_ok cfg).mp h.finalize
  obtain rfl : bytes' = bytes := by rw [hbytes'] at hbytes; exact Option.some.inj hbytes
  obtain rfl : flight = accepted.flight := by rw [hparse'] at hparse; exact Except.ok.inj hparse
  have hfinished := clientFlight_finished hflight
  rw [certRequest_isSome hchecked.certRequest] at hfinished
  exact .finish {
    phase := congrArg EngineState.handshakePhase h.state
    received := ⟨bytes', hbytes', hparse'⟩
    verified := hverified
    transcript := congrArg ServerFlightDone.transcript hdone
    secrets := ⟨congrArg ServerFlightDone.hs hdone, congrArg ServerFlightDone.cHsTs hdone⟩
    client := hfinished }

/-- The end of the handshake, which reads no record; without an error it is over. -/
theorem finishFlight_view (c : Core cfg sz) (params : ClientParams cfg) (scratch : Block n) :
    let finished := c.finishFlight params scratch
    HandshakeView.Step c.handshakeView finished.2.2.handshakeView ∧
      (finished.1 = .ok () → finished.2.2.state.handshakePhase.reading = false) := by
  unfold finishFlight
  split
  · exact ⟨.stay, nofun⟩
  · rename_i accepted haccept
    split
    · rename_i conn hstate
      split
      · exact ⟨.stop rfl, nofun⟩
      · rename_i done hfinal
        dsimp only
        split
        · exact ⟨.stop rfl, nofun⟩
        · rename_i record app hflight
          have hstep := FlightAccepted.handshakeView ⟨hstate, haccept, hfinal⟩ hflight
          refine ⟨?_, fun _ => rfl⟩
          simpa [Core.handshakeView, handshakeSealed, sealedFlight, installApp, Function.comp_def]
            using hstep
    · exact ⟨.stay, nofun⟩

theorem finalizeAndFinish_view (c : Core cfg sz) (params : ClientParams cfg) (scratch : Block n) :
    let finished := c.finalizeAndFinish params scratch
    HandshakeView.Step c.handshakeView finished.2.2.handshakeView ∧
      (finished.1 = .ok () → finished.2.2.state.handshakePhase.reading = false) := by
  unfold finalizeAndFinish
  split
  · exact ⟨.stay, nofun⟩
  · rename_i limit _
    exact finishFlight_view { c with peerRecvLimit := limit.getD c.peerRecvLimit } params scratch

theorem handshakeView_sealed {c' : Core cfg sz} {conn conn' : AppData} {content : Bytes}
    {ct : UInt8} (hstate : c.state = .app conn)
    (hseal : c.sealRecord conn content ct = (.ok (record, conn'), c')) :
    c'.handshakeView = c.handshakeView := by
  obtain ⟨-, rfl, rfl⟩ := sealRecord_eq_ok c hseal
  simp [handshakeView, handshakeSealed, hstate]

/-- The abstraction to the transcript simulates every step outside `step_handshake`. -/
theorem Step.handshakeView {call : Call cfg} (hno : ∀ params, call ≠ .stepHandshake params)
    {c' : Core cfg sz} (h : Step call c c') : HandshakeView.Step c.handshakeView c'.handshakeView := by
  cases h with
  | opened _ hstate => simpa [Core.handshakeView, handshakeSealed, hstate] using .stay
  | closeNotify | rejected | postHandshake | sealFailed | closedEarly => exact .stay
  | rotatedRecv _ hstate hnext =>
    obtain ⟨next, keys, hkeys, rfl⟩ := AppData.applyRecvKeyUpdate_eq_ok cfg hnext
    exact .rotateRecv (congrArg EngineState.handshakePhase hstate)
      ((AppData.nextKeys_eq_ok cfg).mp hkeys).1
  | answerFailed _ hstate hseal =>
    rw [handshakeView_sealed hstate hseal]
    exact .stay
  | answered _ hstate hseal hnext =>
    obtain ⟨next, keys, hkeys, rfl⟩ := AppData.applySendKeyUpdate_eq_ok cfg hnext
    rw [← handshakeView_sealed hstate hseal]
    obtain ⟨-, rfl, rfl⟩ := sealRecord_eq_ok c hseal
    exact .rotateSend rfl ((AppData.nextKeys_eq_ok cfg).mp hkeys).1
  | wrote _ hstate hseal | closing _ hstate hseal =>
    rw [← handshakeView_sealed hstate hseal]
    exact .stay
  | acked _ =>
    obtain ⟨_, _, _, _, heq⟩ := markSent_eq c _
    rw [heq]
    exact .stay
  | terminal => exact .stop rfl
  | _ => exact absurd rfl (hno _)

end Core

end KrabiTls
