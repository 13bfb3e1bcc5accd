import KrabiTls.ClientFlight.Building
import KrabiTls.Dtls.EncryptedExtensions
import KrabiTls.Engine.Segmentation
import KrabiTls.Link.Receiving
import KrabiTls.Link.Server
import KrabiTls.ServerFlight.Reassembly

/-! The handshake of the client with a server that follows the protocol, on the stream of the server's
bytes. -/
namespace KrabiTls
open Lib

theorem frame_plaintext {capacity : Nat} (ct : UInt8) (body : Bytes) (hbody : body.length < 2 ^ 16)
    (hfits : tlsHeader + body.length ≤ capacity) (more : Bytes) :
    frame capacity ((ct :: (toBe 2 legacyVersion ++ prefixed 2 body)) ++ more) =
      .record (ct :: (toBe 2 legacyVersion ++ prefixed 2 body)) more := by
  have hdrop : ((ct :: (toBe 2 legacyVersion ++ prefixed 2 body)) ++ more).drop 3 =
      prefixed 2 body ++ more := rfl
  have hlen := slice_prefixed_length hdrop hbody
  have hwhole : (ct :: (toBe 2 legacyVersion ++ prefixed 2 body)).length = tlsHeader + body.length := by
    simp [tlsHeader]
    omega
  rw [frame_eq_record_iff, hlen, ← hwhole, List.length_append]
  exact ⟨by omega, by omega, List.take_left' rfl, List.drop_left' rfl⟩

namespace ServerHelloMessage
variable {m : ServerHelloMessage} {f : Features}

theorem record_eq_helloRecord (m : ServerHelloMessage) : m.record = helloRecord hsServerHello m.body := by
  rw [helloRecord, record, prefixed, hsMessage, List.length_cons, prefixed_length, prefixed,
    Nat.add_comm 3, Nat.add_assoc, Nat.add_comm _ 4]
  simp only [List.append_assoc, List.cons_append, List.nil_append]

theorem Conforms.body_lt (h : m.Conforms f) : 4 + m.body.length < 2 ^ 16 := by
  have hshare := f.serverShareLen_lt m.group
  have hid := h.sessionId
  rw [← h.key] at hshare
  rw [m.body_length]
  omega

/-- The share of a hello meets the secret of its group. -/
theorem Conforms.serverShare_view (h : m.Conforms f) :
    WaitServerHello.serverShare f (m.view f) = some (f.kxGroup m.group, m.key) := by
  have hgroup := h.group
  have hkx := f.some_kx
  have hmlkem := f.mlkem_x25519
  unfold WaitServerHello.serverShare Features.kxGroup view
  unfold Features.Offers Features.secondGroup at hgroup
  by_cases hprimary : m.group = f.keyShareGroup
  · cases hm : f.mlkem <;> cases hx : f.x25519Kx <;> cases hp : f.p256Kx <;>
      simp_all [Features.keyShareGroup] <;> decide
  · simp_all

end ServerHelloMessage

section Suits
variable {cfg : ClientConfig}

/-- What the client asks of a server. -/
structure Server.Suits (s : Server) (first : WaitServerHello cfg) (params : ClientParams cfg)
    (maxChain : Nat) : Prop where
  hello : s.hello.Conforms cfg.features
  sessionId : s.hello.sessionId = (first.sessionId.map Subtype.val).getD []
  suite : advertisedSuite cfg.features first.advertised s.hello.suite = some s.suite
  secret : cfg.kx.derive (cfg.features.kxGroup s.hello.group)
    (first.secret (cfg.features.kxGroup s.hello.group)) s.hello.key = some s.ikm
  limits : ∃ found, Dtls.OnlyLimit (s.extensions, []) none found ∧
    ∀ limit ∈ found, (RecordSizeLimit.tryFrom limit).isSome
  chain : s.certificate.chain.length ≤ maxChain
  leaf : ∃ prepared leaf owned, s.Authenticates cfg params.verifyChain (some params.hostname) prepared leaf ∧
    ServerPubkeyOwned.fromView leaf.key = .ok owned

variable {s : Server} {first : WaitServerHello cfg} {params : ClientParams cfg} {maxChain : Nat}
  {n : Negotiated}

/-- The connection once the `ServerHello` is read. -/
def Server.waiting (s : Server) (n : Negotiated) (clientHello : Bytes) (seqIn : Nat) : WaitServerFlight :=
  ⟨⟨s.hellos clientHello⟩, s.suite, n.hs, n.cHsTs, n.sHsTs, n.sHsKeys, seqIn⟩

theorem Server.Suits.readServerHello (h : s.Suits first params maxChain)
    (hn : s.Derives cfg first.transcript.fed n) :
    first.readServerHello s.hello.record = .ok (s.waiting n first.transcript.fed 0) := by
  obtain ⟨th, hth, htraffic⟩ := hn.traffic
  have hshared : first.sharedSecret (s.hello.view cfg.features) = .ok s.ikm := by
    simp only [WaitServerHello.sharedSecret, h.hello.serverShare_view, h.secret]
  have hupdate : first.transcript.updateRecord s.hello.record =
      .ok ⟨s.hellos first.transcript.fed⟩ := by
    rw [s.hello.record_eq_helloRecord, TranscriptHash.updateRecord_helloRecord _ _ h.hello.body_lt]
    rfl
  have hsnapshot : TranscriptHash.snapshot ⟨s.hellos first.transcript.fed⟩ cfg.hkdf = .ok th :=
    mapError_eq_ok.mpr hth
  have hsession : ¬ (s.hello.view cfg.features).sessionIdEcho ≠
      (first.sessionId.map Subtype.val).getD [] := not_not_intro h.sessionId
  have hsuite : advertisedSuite cfg.features first.advertised (s.hello.view cfg.features).cipherSuite =
      some s.suite := h.suite
  unfold WaitServerHello.readServerHello
  refine bind_eq_ok.mpr ⟨_, mapError_eq_ok.mpr (ServerHelloMessage.parseServerHello_record h.hello), ?_⟩
  rw [if_neg hsession, hsuite]
  refine bind_eq_ok.mpr ⟨_, hshared, bind_eq_ok.mpr ⟨_, mapError_eq_ok.mpr hupdate,
    bind_eq_ok.mpr ⟨_, mapError_eq_ok.mpr hsnapshot, bind_eq_ok.mpr ⟨_, mapError_eq_ok.mpr hn.hs,
    bind_eq_ok.mpr ⟨_, mapError_eq_ok.mpr htraffic, bind_eq_ok.mpr ⟨_, mapError_eq_ok.mpr hn.sHsKeys,
    rfl⟩⟩⟩⟩⟩⟩

end Suits

namespace ServerFlightReassembler

/-- The walk over whole messages ends behind the first `Finished`. -/
theorem flightEndLoop_messages {msgs : List Message} (h : FlightMessages msgs) (off : Nat) :
    flightEndLoop.run (msgs.flatMap Message.encode, off) =
      some (off + (msgs.flatMap Message.encode).length) := by
  induction h generalizing off with
  | finished fin hfin =>
    refine Loop.run_of_leave ?_
    simp only [flightEndLoop, List.flatMap_cons, nextMsg_encode, hfin, if_true]
    rw [List.flatMap_nil, List.append_nil]
  | cons m msgs hm _ ih =>
    have hagain : flightEndLoop.body ((m :: msgs).flatMap Message.encode, off) =
        .again (msgs.flatMap Message.encode, off + m.encode.length) := by
      simp only [flightEndLoop, List.flatMap_cons, nextMsg_encode, if_neg hm]
    rw [Loop.run_of_again hagain, ih, List.flatMap_cons, List.length_append, Nat.add_assoc]

variable {n : Nat} {r : ServerFlightReassembler n} {msgs : List Message}

theorem flightBytes_messages (h : FlightMessages msgs) (hbuf : r.buf = msgs.flatMap Message.encode) :
    r.flightBytes = some r.buf := by
  have hend : r.flightEndOffset = some r.buf.length := by
    rw [flightEndOffset, hbuf, flightEndLoop_messages h, Nat.zero_add]
  rw [flightBytes, hend, Option.map_some, List.take_length]

/-- As long as bytes are missing, the flight is not complete. -/
theorem isComplete_front (h : FlightMessages msgs) {missing : Bytes} (hne : missing ≠ [])
    (hbuf : r.buf ++ missing = msgs.flatMap Message.encode) : r.isComplete = false := by
  rw [isComplete, Option.isSome_eq_false_iff, Option.isNone_iff_eq_none, flightEndOffset]
  by_contra hfound
  obtain ⟨stop, hstop⟩ := Option.ne_none_iff_exists'.mp hfound
  obtain ⟨hwhole, hle⟩ := flightEndLoop_append hstop missing
  rw [hbuf, flightEndLoop_messages h, Option.some.injEq, ← hbuf, List.length_append] at hwhole
  have hpos := List.length_pos_iff.mpr hne
  omega

end ServerFlightReassembler

namespace FlightPart

/-- The messages of the flight are cut into fragments, with a last one that is not empty, and every
record keeps to the client's limit. -/
structure Cuts (parts : List FlightPart) (msgs : List Message) (limit : Nat) : Prop where
  contents : parts.flatMap content = msgs.flatMap Message.encode
  last : ∃ front content pad, parts = front ++ [fragment content pad] ∧ content ≠ []
  fits : ∀ part ∈ parts, part.innerLen ≤ limit

end FlightPart

namespace Core
variable {cfg : ClientConfig} {sz : Sizes} {c : Core cfg sz} {conn : WaitServerFlight}

/-- A client that collects the flight, at a place in it. -/
def collecting (c : Core cfg sz) (conn : WaitServerFlight) (r : ServerFlightReassembler sz.flight) :
    Core cfg sz :=
  { c with state := .waitFlight conn, reassembler := r }

theorem collecting_self (h : c.state = .waitFlight conn) : c.collecting conn c.reassembler = c := by
  cases c
  simp only at h
  simp only [collecting, h]

theorem feedFlightRecord_changeCipherSpec (h : c.state = .waitFlight conn) :
    c.feedFlightRecord FlightPart.changeCipherSpecRecord =
      (.ok (WaitServerFlight.flightStep c.reassembler), FlightPart.changeCipherSpecRecord, c) := by
  have hself := collecting_self h
  unfold feedFlightRecord
  rw [if_neg fun hct => absurd hct.1 (by decide), h]
  exact Prod.ext rfl (Prod.ext rfl hself)

/-- A fragment of the flight is opened under the current number and appended. -/
theorem feedFlightRecord_fragment (hcorrect : cfg.aead.Correct) (hstate : c.state = .waitFlight conn)
    {content record : Bytes} {pad : Nat}
    (hseal : conn.sHsKeys.sealInner cfg.aead (innerPlaintext content ctHandshake pad) conn.seqIn =
      .ok record)
    (hlimit : content.length + 1 + pad ≤ c.ourRecvLimit)
    (hroom : c.reassembler.buf.length + content.length ≤ sz.flight) :
    ∃ buf r, r.buf = c.reassembler.buf ++ content ∧ c.feedFlightRecord record =
      (.ok (WaitServerFlight.flightStep r), buf,
        c.collecting { conn with seqIn := (conn.seqIn + 1) % 2 ^ 64 } r) := by
  have hinnerLen := innerPlaintext_length content ctHandshake pad
  have hmax := c.ourRecvLimit.property.2
  simp only [protoMaxInnerPlaintext] at hmax
  obtain ⟨buf, hdec, hslice⟩ := RecordKeys.decryptRecordInplace_sealInner hseal hcorrect
    (by simp only [aeadTagLen, tlsCiphertextMax]; omega)
  have hsplit : splitInnerPlaintext (innerPlaintext content ctHandshake pad) =
      .ok (content, ctHandshake) :=
    splitInnerPlaintext_padded (by decide) (by simp only [tlsPlaintextMax]; omega)
      (by simp only [tlsCiphertextMax]; omega)
  obtain ⟨hlen, -⟩ := RecordKeys.sealInner_eq_ok hseal
  obtain ⟨hhead, -⟩ := RecordKeys.sealInner_header hseal (by simp only [aeadTagLen]; omega) []
  rw [List.append_nil] at hhead
  have hpush : c.reassembler.pushContent content =
      .ok ⟨c.reassembler.buf ++ content, by rw [List.length_append]; exact hroom⟩ := dif_pos hroom
  refine ⟨buf, ⟨c.reassembler.buf ++ content, by rw [List.length_append]; exact hroom⟩, rfl, ?_⟩
  have hfits : ¬ (record.headD 0 = ctApplicationData ∧
      record.length - tlsHeader > c.ourRecvLimit + aeadTagLen) := by
    simp only [tlsHeader, aeadTagLen]
    omega
  unfold feedFlightRecord
  rw [if_neg hfits, hstate]
  cases record with
  | nil => simp at hlen
  | cons outerType rest =>
    obtain rfl : outerType = ctApplicationData := hhead
    have hother : ctApplicationData ≠ ctChangeCipherSpec := by decide
    simp only [WaitServerFlight.feedServerRecordInplace, if_neg hother, if_true, hdec, hslice, hsplit,
      ne_eq, not_true_eq_false, if_false, hpush, mapError_ok, collecting]

end Core

/-- The connection with the server's ends of the two directions. -/
def Negotiated.appData (n : Negotiated) : AppData :=
  ⟨n.send.suite, n.recv.keys, n.send.keys, n.recv.secret, n.send.secret, 0, 0⟩

namespace Server.Derives
variable {cfg : ClientConfig} {s : Server} {clientHello : Bytes} {n : Negotiated}
  (h : s.Derives cfg clientHello n)
include h

theorem flightMessages : FlightMessages n.messages := by
  obtain ⟨thCert, thCv, mac, -, hmade⟩ := h.flight
  rw [hmade]
  exact Credentials.flightMessages_messages thCert mac

/-- The server's flight passes the checks on signature and MAC. -/
theorem flight_verified {prepared : PreparedVerifier cfg.verifiers}
    (hsigns : ∀ th, CertificateVerified cfg.features prepared th (s.certificateVerify th).body) :
    ∃ flight, parseServerFlight (n.messages.flatMap Message.encode) = .ok flight ∧
      flight.certRequestFull = none ∧ flight.certBody = s.certificate.encode ∧
      FlightVerified cfg.features cfg.hkdf ⟨s.hellos clientHello⟩ flight n.sHsTs prepared ∧
      TranscriptHash.throughFin ⟨s.hellos clientHello⟩ flight =
        ⟨s.hellos clientHello ++ n.messages.flatMap Message.encode⟩ := by
  obtain ⟨thCert, thCv, mac, hhashes, hmade⟩ := h.flight
  rw [hmade]
  refine ⟨_, Credentials.parseServerFlight_messages thCert mac, rfl, rfl,
    ⟨⟨thCert, ?_, hsigns thCert⟩, thCv, mac, ?_, hhashes.fin, rfl⟩, Credentials.throughFin_view thCert mac _⟩
  · rw [Credentials.throughCert_view]
    exact mapError_eq_ok.mpr hhashes.cert
  · rw [Credentials.throughCv_view]
    exact mapError_eq_ok.mpr hhashes.cv

/-- The client's `Finished` and its application keys are the ones the server has. -/
theorem finishHandshake (htotal : cfg.aead.Total) {outLen : Nat} (hout : minSendStandard ≤ outLen)
    (owned : ServerPubkeyOwned) :
    ∃ record, n.cHsKeys.encryptRecord cfg.aead (Credentials.finished n.clientFinished).encode ctHandshake 0 outLen =
        (.ok record, record) ∧
      ServerFlightDone.finishHandshake cfg ⟨⟨s.hellos clientHello ++ n.messages.flatMap Message.encode⟩,
        s.suite, n.hs, n.cHsTs, owned⟩ outLen = ⟨.ok (record, n.appData), record,
          [⟨0, ctHandshake, (Credentials.finished n.clientFinished).encode, record⟩]⟩ := by
  obtain ⟨thFin, ms, hthFin, hfinished, hms, happ, hrecv, hsend⟩ := h.app
  have hlen : (Credentials.finished n.clientFinished).encode.length = 36 := by
    rw [Message.encode_length]
    exact congrArg (4 + ·) n.clientFinished.property
  obtain ⟨record, hseal⟩ := RecordKeys.encryptRecord_total htotal n.cHsKeys ctHandshake 0
    (show (Credentials.finished n.clientFinished).encode.length ≤ tlsPlaintextMax by rw [hlen]; decide)
    (show (Credentials.finished n.clientFinished).encode.length + 22 ≤ outLen by
      rw [hlen]; exact Nat.le_trans (by decide) hout)
  have hmsg : [hsFinished, 0x00, 0x00, 0x20] ++ n.clientFinished.val =
      (Credentials.finished n.clientFinished).encode := by
    have hwidth : toBe 3 n.clientFinished.val.length = [0x00, 0x00, 0x20] := by
      rw [n.clientFinished.property]
      decide
    rw [Message.encode, hsMessage, Credentials.finished, hwidth]
  have hparts : clientFinishedParts cfg.hkdf s.suite n.cHsTs thFin =
      .ok ((Credentials.finished n.clientFinished).encode, n.cHsKeys) := by
    refine bind_eq_ok.mpr ⟨_, bind_eq_ok.mpr ⟨_, mapError_eq_ok.mpr hfinished, rfl⟩, ?_⟩
    exact bind_eq_ok.mpr ⟨_, mapError_eq_ok.mpr h.cHsKeys, by rw [hmsg]; rfl⟩
  have hsuite : s.suite = n.send.suite := by rw [h.send]
  have hkeys (t : TranscriptHash) : ServerFlightDone.appKeys cfg ⟨t, s.suite, n.hs, n.cHsTs, owned⟩ thFin =
      .ok n.appData := by
    refine bind_eq_ok.mpr ⟨_, mapError_eq_ok.mpr hms, bind_eq_ok.mpr ⟨_, mapError_eq_ok.mpr happ, ?_⟩⟩
    refine bind_eq_ok.mpr ⟨_, mapError_eq_ok.mpr hrecv, bind_eq_ok.mpr ⟨_, mapError_eq_ok.mpr hsend, ?_⟩⟩
    rw [Negotiated.appData, ← hsuite]
    rfl
  have hsnapshot : TranscriptHash.snapshot
      ⟨s.hellos clientHello ++ n.messages.flatMap Message.encode⟩ cfg.hkdf = .ok thFin :=
    mapError_eq_ok.mpr hthFin
  refine ⟨record, hseal, ?_⟩
  simp only [ServerFlightDone.finishHandshake, hsnapshot, hparts, hseal, hkeys]
  rfl

end Server.Derives

namespace Core
variable {cfg : ClientConfig} {sz : Sizes} {c : Core cfg sz} {s : Server} {clientHello : Bytes}
  {n : Negotiated} {first : WaitServerHello cfg} {params : ClientParams cfg}

/-- The state once the client's `Finished` is queued. -/
def established (c : Core cfg sz) (n : Negotiated) (limit : RecordSizeLimit) (record : Bytes)
    (auth : AuthRecord cfg) : Core cfg sz :=
  ({ c with peerRecvLimit := limit, state := .closed }.sealedFlight
    (⟨.ok (record, n.appData), record, [⟨0, ctHandshake, (Credentials.finished n.clientFinished).encode,
      record⟩]⟩ : Sealing (Bytes × AppData))).installApp record.length n.appData auth

section Flight
variable (hn : s.Derives cfg clientHello n) (hsuits : s.Suits first params sz.maxChain)
  (hbuf : c.reassembler.buf = n.messages.flatMap Message.encode)
include hn hsuits hbuf

theorem peerLimit_server : ∃ limit, c.peerLimit = .ok limit := by
  obtain ⟨found, honly, hlegal⟩ := hsuits.limits
  obtain ⟨thCert, thCv, mac, -, hmade⟩ := hn.flight
  have hflight := ServerFlightReassembler.flightBytes_messages hn.flightMessages hbuf
  have hnext := nextMsg_encode s.encryptedExtensions
    ([s.certificateMsg, s.certificateVerify thCert, Credentials.finished mac].flatMap Message.encode)
  rw [← List.flatMap_cons, ← Credentials.messages, ← hmade, ← hbuf] at hnext
  have hstarts : Dtls.StartsWithEe c.reassembler s.eeBody := ⟨_, _, hflight, hnext, rfl, rfl⟩
  obtain ⟨hlen, hentries⟩ := s.eeEntries_eeBody
  have hpeek := (Dtls.peekEeRecordSizeLimit_eq_ok hstarts found).mpr ⟨hlen, by rw [hentries]; exact honly⟩
  unfold peerLimit
  rw [hpeek]
  cases found with
  | none => exact ⟨_, rfl⟩
  | some limit =>
    obtain ⟨limit', hlimit⟩ := Option.isSome_iff_exists.mp (hlegal limit rfl)
    simp only [hlimit]
    exact ⟨_, rfl⟩

theorem acceptFlight_server {prepared : PreparedVerifier cfg.verifiers} {leaf : CertView}
    (hleaf : s.Authenticates cfg params.verifyChain (some params.hostname) prepared leaf) :
    ∃ accepted, c.acceptFlight params = .ok accepted ∧ accepted.certRequest = none ∧
      accepted.prepared = prepared ∧ accepted.leafView = leaf := by
  obtain ⟨flight, hparse, hnone, hbody, -⟩ := hn.flight_verified hleaf.signs
  obtain ⟨der, hder, hparsed⟩ := hleaf.parsed
  have hflight := ServerFlightReassembler.flightBytes_messages hn.flightMessages hbuf
  rw [hbuf] at hflight
  have hrequest : certRequest params.clientAuth flight = .ok none := by rw [certRequest, hnone]
  have hchain : extractChain sz.maxChain flight.certBody = .ok s.certificate.chain := by
    rw [hbody]
    exact s.certificate.extractChain_eq hsuits.chain
  refine ⟨⟨flight, none, s.certificate.chain, prepared, leaf⟩, ?_, rfl, rfl, rfl⟩
  unfold acceptFlight
  rw [hflight]
  refine bind_eq_ok.mpr ⟨_, mapError_eq_ok.mpr hparse, bind_eq_ok.mpr ⟨_, hrequest,
    bind_eq_ok.mpr ⟨_, mapError_eq_ok.mpr hchain, ?_⟩⟩⟩
  rw [hleaf.trusted, hder]
  refine bind_eq_ok.mpr ⟨_, mapError_eq_ok.mpr hparsed, ?_⟩
  rw [if_neg (not_not_intro hleaf.matched)]
  exact bind_eq_ok.mpr ⟨_, mapError_eq_ok.mpr (hleaf.hostname _ rfl), rfl⟩

/-- The complete flight of the server is accepted and answered with the `Finished` it expects. -/
theorem finalizeAndFinish_server (htotal : cfg.aead.Total) (hsend : minSendStandard ≤ sz.send)
    {seqIn : Nat} (hstate : c.state = .waitFlight (s.waiting n clientHello seqIn)) :
    ∃ limit record auth, n.cHsKeys.encryptRecord cfg.aead (Credentials.finished n.clientFinished).encode
        ctHandshake 0 sz.send = (.ok record, record) ∧
      c.finalizeAndFinish params (Block.zeros 0) =
        (.ok (), Block.zeros 0, c.established n limit record auth) := by
  obtain ⟨prepared, leaf, owned, hleaf, howned⟩ := hsuits.leaf
  obtain ⟨limit, hlimit⟩ := peerLimit_server hn hsuits hbuf
  obtain ⟨flight, hparse, -, -, hverified, hthrough⟩ := hn.flight_verified hleaf.signs
  obtain ⟨record, hseal, hfinish⟩ := hn.finishHandshake htotal hsend owned
  let c' : Core cfg sz := { c with peerRecvLimit := limit.getD c.peerRecvLimit }
  obtain ⟨accepted, haccept, hnone, hprepared, hview⟩ :=
    acceptFlight_server (c := c') hn hsuits hbuf hleaf
  have hflight := ServerFlightReassembler.flightBytes_messages hn.flightMessages hbuf
  rw [hbuf] at hflight
  have hfinal : (s.waiting n clientHello seqIn).finalizeServerFlight cfg c.reassembler accepted.prepared
      accepted.leafView = .ok ⟨⟨s.hellos clientHello ++ n.messages.flatMap Message.encode⟩, s.suite, n.hs,
        n.cHsTs, owned⟩ := by
    rw [hprepared, hview]
    exact WaitServerFlight.finalizeServerFlight_eq_ok cfg |>.mpr ⟨hleaf.matched, _, flight, owned, hflight,
      hparse, hverified, howned, by rw [← hthrough]; rfl⟩
  refine ⟨limit.getD c.peerRecvLimit, record, accepted.auth params (s.waiting n clientHello seqIn), hseal,
    ?_⟩
  have hstate' : c'.state = .waitFlight (s.waiting n clientHello seqIn) := hstate
  have hanswer : c'.finishFlight params (Block.zeros 0) = (.ok (), Block.zeros 0,
      c.established n (limit.getD c.peerRecvLimit) record
        (accepted.auth params (s.waiting n clientHello seqIn))) := by
    simp only [finishFlight, haccept, hstate']
    rw [show c'.reassembler = c.reassembler from rfl, hfinal]
    simp only [clientFlight, hnone, hfinish]
    rfl
  unfold finalizeAndFinish
  rw [hlimit]
  exact hanswer

end Flight

end Core

namespace Session
variable {cfg : ClientConfig} {sz : Sizes} {params : ClientParams cfg} {s : Session cfg sz}

/-- The session of a handshake that goes on with the next record. -/
structure Awaits (s : Session cfg sz) : Prop where
  phase : s.dataPhase = false
  idle : s.core.Idle
  notDone : s.core.pendingHandshakeDone = false

theorem Awaits.run_record (h : s.Awaits) {record rest : Bytes} {core : Core cfg sz}
    (hframe : frame sz.recv s.input = .record record rest)
    (hok : s.core.handleHandshakeRecord params (record.headD 0) record = (.ok (), core)) :
    s.run params = { s with core, input := rest }.run params := by
  have hover : handshakeOver s.dataPhase s.core = false := by simp [handshakeOver, h.notDone]
  have hhandle : handle params s.dataPhase s.core record = (.ok [], core) := by
    simp only [handle, h.phase, Bool.false_eq_true, if_false, hok]
    rfl
  rw [Session.run_record h.idle hover hframe hhandle, List.append_nil]

theorem run_hello {server : Server} {first : WaitServerHello cfg} {n : Negotiated} {rest : Bytes}
    (h : s.Awaits) (hstate : s.core.state = .waitServerHello first)
    (hsuits : server.Suits first params sz.maxChain) (hn : server.Derives cfg first.transcript.fed n)
    (hinput : s.input = server.hello.record ++ rest) (hfits : server.hello.record.length ≤ sz.recv) :
    s.run params = { s with
      core := { s.core with state := .waitFlight (server.waiting n first.transcript.fed 0) }
      input := rest }.run params := by
  have hbody := hsuits.hello.body_lt
  have hframe : frame sz.recv s.input = .record server.hello.record rest := by
    rw [hinput]
    refine frame_plaintext ctHandshake (hsServerHello :: prefixed 3 server.hello.body) ?_ ?_ rest
    · rw [List.length_cons, prefixed_length]
      omega
    · rw [ServerHelloMessage.record_length] at hfits
      rw [List.length_cons, prefixed_length, ServerHelloMessage.body_length]
      simp only [tlsHeader]
      omega
  refine h.run_record hframe ?_
  unfold Core.handleHandshakeRecord
  rw [hstate]
  have hread := hsuits.readServerHello hn
  have hct : ¬ server.hello.record.headD 0 ≠ ctHandshake := not_not_intro rfl
  simp only [Core.handleServerHello, if_neg hct, hstate, hread]

section Flight
variable {conn : WaitServerFlight} {msgs : List Message} {last bytes more : Bytes} {pad : Nat}

variable (params) in
theorem handleHandshakeRecord_pending {c : Core cfg sz} (hstate : c.state = .waitFlight conn)
    {record buf : Bytes} {r : ServerFlightReassembler sz.flight} {conn' : WaitServerFlight}
    (hmsgs : FlightMessages msgs) {missing : Bytes} (hne : missing ≠ [])
    (hbuf : r.buf ++ missing = msgs.flatMap Message.encode)
    (hfeed : c.feedFlightRecord record =
      (.ok (WaitServerFlight.flightStep r), buf, c.collecting conn' r)) (ct : UInt8) :
    c.handleHandshakeRecord params ct record = (.ok (), c.collecting conn' r) := by
  have hpending : WaitServerFlight.flightStep r = .pending := by
    rw [WaitServerFlight.flightStep, ServerFlightReassembler.isComplete_front hmsgs hne hbuf]
    rfl
  simp only [Core.handleHandshakeRecord, hstate, hfeed, hpending]

variable (params) in
theorem run_fragments (hcorrect : cfg.aead.Correct) (hmsgs : FlightMessages msgs) (hlast : last ≠ [])
    (hroom : (msgs.flatMap Message.encode).length ≤ sz.flight) (front : List FlightPart)
    (h : s.Awaits) (hstate : s.core.state = .waitFlight conn)
    (hrecv : (s.core.ourRecvLimit : Nat) + recordOverhead ≤ sz.recv)
    (hseal : FlightPart.sealAll cfg.aead conn.sHsKeys conn.seqIn (front ++ [.fragment last pad]) =
      some bytes)
    (hinput : s.input = bytes ++ more)
    (hcontents : s.core.reassembler.buf ++ (front.flatMap FlightPart.content ++ last) =
      msgs.flatMap Message.encode)
    (hfits : ∀ part ∈ front, part.innerLen ≤ s.core.ourRecvLimit) :
    ∃ seqIn record r, r.buf = s.core.reassembler.buf ++ front.flatMap FlightPart.content ∧
      conn.sHsKeys.sealInner cfg.aead (innerPlaintext last ctHandshake pad) seqIn = .ok record ∧
      s.run params = { s with
        core := s.core.collecting { conn with seqIn } r
        input := record ++ more }.run params := by
  simp only [recordOverhead, tlsHeader, aeadTagLen] at hrecv
  have hmax := s.core.ourRecvLimit.property
  simp only [minRecordSizeLimit, protoMaxInnerPlaintext] at hmax
  induction front generalizing s conn bytes with
  | nil =>
    simp only [List.nil_append, FlightPart.sealAll, Option.bind_eq_bind, Option.bind_eq_some_iff,
      toOption_eq_some] at hseal
    obtain ⟨record, hrecord, _, ⟨⟩, ⟨⟩⟩ := hseal
    refine ⟨conn.seqIn, record, s.core.reassembler, (List.append_nil _).symm, hrecord, ?_⟩
    rw [List.append_nil] at hinput
    rw [Core.collecting_self hstate, ← hinput]
  | cons part front ih =>
    rw [List.forall_mem_cons] at hfits
    rw [List.flatMap_cons] at hcontents
    have hne : front.flatMap FlightPart.content ++ last ≠ [] := by simp [hlast]
    cases part with
    | changeCipherSpec =>
      simp only [List.cons_append, FlightPart.sealAll, Option.bind_eq_bind, Option.bind_eq_some_iff]
        at hseal
      obtain ⟨rest, hrest, ⟨⟩⟩ := hseal
      rw [List.append_assoc] at hinput
      have hframe : frame sz.recv s.input =
          .record FlightPart.changeCipherSpecRecord (rest ++ more) := by
        rw [hinput]
        exact frame_plaintext ctChangeCipherSpec _ (by decide)
          (by simp only [tlsHeader, List.length_singleton]; omega) _
      have hself := Core.collecting_self hstate
      have hhandle := handleHandshakeRecord_pending params hstate hmsgs hne hcontents
        (by rw [hself]; exact Core.feedFlightRecord_changeCipherSpec hstate)
        (FlightPart.changeCipherSpecRecord.headD 0)
      rw [hself] at hhandle
      obtain ⟨seqIn, record, r, hbuf, hrecord, hrun⟩ := ih
        (s := { s with input := rest ++ more }) ⟨h.phase, h.idle, h.notDone⟩ hstate hrecv hrest rfl
        hcontents hfits.2 hmax
      exact ⟨seqIn, record, r, hbuf, hrecord, (h.run_record hframe hhandle).trans hrun⟩
    | fragment content pad' =>
      simp only [List.cons_append, FlightPart.sealAll, Option.bind_eq_bind, Option.bind_eq_some_iff,
        toOption_eq_some] at hseal
      obtain ⟨record₁, hrecord₁, rest, hrest, ⟨⟩⟩ := hseal
      rw [List.append_assoc] at hinput
      have hlimit : content.length + 1 + pad' ≤ s.core.ourRecvLimit := hfits.1
      have hinnerLen := innerPlaintext_length content ctHandshake pad'
      obtain ⟨hlen, -⟩ := RecordKeys.sealInner_eq_ok hrecord₁
      have hframe : frame sz.recv s.input = .record record₁ (rest ++ more) := by
        rw [hinput]
        exact frame_sealInner hrecord₁ (by simp only [aeadTagLen]; omega) (by omega) _
      have hsum := congrArg List.length hcontents
      simp only [List.length_append, FlightPart.content] at hsum
      obtain ⟨buf, r₁, hbuf₁, hfeed⟩ := Core.feedFlightRecord_fragment hcorrect hstate hrecord₁ hlimit
        (by omega)
      have hcontents₁ : r₁.buf ++ (front.flatMap FlightPart.content ++ last) =
          msgs.flatMap Message.encode := by
        rw [hbuf₁, ← hcontents]
        simp [FlightPart.content]
      have hhandle := handleHandshakeRecord_pending params hstate hmsgs hne hcontents₁ hfeed
        (record₁.headD 0)
      obtain ⟨seqIn, record, r, hbuf, hrecord, hrun⟩ := ih
        (s := { s with
          core := s.core.collecting { conn with seqIn := (conn.seqIn + 1) % 2 ^ 64 } r₁
          input := rest ++ more })
        ⟨h.phase, ⟨h.idle.not_pending, h.idle.not_closed⟩, h.notDone⟩ rfl hrecv hrest rfl hcontents₁
        hfits.2 hmax
      refine ⟨seqIn, record, r, ?_, hrecord, (h.run_record hframe hhandle).trans hrun⟩
      rw [hbuf, Core.collecting, hbuf₁]
      simp [FlightPart.content]

/-- With the last record the flight is complete, and the client's `Finished` is queued. -/
theorem run_flight {server : Server} {clientHello : Bytes} {n : Negotiated} {first : WaitServerHello cfg}
    {parts : List FlightPart} (hcorrect : cfg.aead.Correct) (htotal : cfg.aead.Total)
    (hn : server.Derives cfg clientHello n) (hsuits : server.Suits first params sz.maxChain)
    (hcuts : FlightPart.Cuts parts n.messages s.core.ourRecvLimit)
    (hroom : (n.messages.flatMap Message.encode).length ≤ sz.flight)
    (hrecv : (s.core.ourRecvLimit : Nat) + recordOverhead ≤ sz.recv) (hsend : minSendStandard ≤ sz.send)
    (h : s.Awaits) (hstate : s.core.state = .waitFlight (server.waiting n clientHello 0))
    (hempty : s.core.reassembler.buf = [])
    (hseal : FlightPart.sealAll cfg.aead n.sHsKeys 0 parts = some bytes)
    (hinput : s.input = bytes ++ more) :
    ∃ conn r limit record auth, n.cHsKeys.encryptRecord cfg.aead
        (Credentials.finished n.clientFinished).encode ctHandshake 0 sz.send = (.ok record, record) ∧
      s.run params = { s with
        core := (s.core.collecting conn r).established n limit record auth
        input := more }.run params := by
  obtain ⟨front, last, pad, rfl, hlast⟩ := hcuts.last
  have hfits := hcuts.fits
  rw [List.forall_mem_append, List.forall_mem_singleton] at hfits
  have hcontents := hcuts.contents
  rw [List.flatMap_append, List.flatMap_singleton] at hcontents
  obtain ⟨seqIn, record, r, hbuf, hrecord, hrun⟩ := run_fragments params hcorrect
    hn.flightMessages hlast hroom front h hstate hrecv hseal hinput
    (by rw [hempty]; exact hcontents) hfits.1
  rw [hempty, List.nil_append] at hbuf
  let c := s.core.collecting (server.waiting n clientHello seqIn) r
  let next := server.waiting n clientHello ((seqIn + 1) % 2 ^ 64)
  have hlimit : last.length + 1 + pad ≤ s.core.ourRecvLimit := hfits.2
  have hsum := congrArg List.length hcontents
  simp only [List.length_append, FlightPart.content] at hsum
  obtain ⟨buf, r', hbuf', hfeed⟩ := Core.feedFlightRecord_fragment (c := c) hcorrect rfl hrecord hlimit
    (by simp only [c, Core.collecting]; rw [hbuf]; omega)
  replace hfeed : c.feedFlightRecord record =
      (.ok (WaitServerFlight.flightStep r'), buf, c.collecting next r') := hfeed
  have hwhole : r'.buf = n.messages.flatMap Message.encode := by
    rw [hbuf', ← hcontents]
    exact congrArg (· ++ last) hbuf
  have hready : WaitServerFlight.flightStep r' = .ready := by
    have hbytes := ServerFlightReassembler.flightBytes_messages hn.flightMessages hwhole
    obtain ⟨stop, hstop, -⟩ := Option.map_eq_some_iff.mp hbytes
    simp [WaitServerFlight.flightStep, ServerFlightReassembler.isComplete, hstop]
  obtain ⟨limit, finished, auth, hfinished, hanswer⟩ := Core.finalizeAndFinish_server
    (c := c.collecting next r') hn hsuits hwhole htotal hsend rfl
  have hinnerLen := innerPlaintext_length last ctHandshake pad
  have hmax := s.core.ourRecvLimit.property.2
  simp only [protoMaxInnerPlaintext] at hmax
  simp only [recordOverhead, tlsHeader, aeadTagLen] at hrecv
  obtain ⟨hlen, -⟩ := RecordKeys.sealInner_eq_ok hrecord
  have hframe : frame sz.recv (record ++ more) = .record record more :=
    frame_sealInner hrecord (by simp only [aeadTagLen]; omega) (by omega) more
  have hhandle : c.handleHandshakeRecord params (record.headD 0) record =
      (.ok (), (c.collecting next r').established n limit finished auth) := by
    have hwait : c.state = .waitFlight (server.waiting n clientHello seqIn) := rfl
    simp only [Core.handleHandshakeRecord, hwait, hfeed, hready, hanswer]
  have hawaits : Awaits { s with core := c, input := record ++ more } :=
    ⟨h.phase, ⟨h.idle.not_pending, h.idle.not_closed⟩, h.notDone⟩
  exact ⟨next, r', limit, finished, auth, hfinished, hrun.trans (hawaits.run_record hframe hhandle)⟩

end Flight

end Session

namespace Core
variable {cfg : ClientConfig} {sz : Sizes} {c : Core cfg sz}

theorem settle_eq (h : c.isSendPending = true) : c.settle = { c with
    sendPendingLen := 0
    sendAcked := 0
    handshakeFinishedPendingAck := false
    history.acked := c.history.acked + (c.sendPendingLen - c.sendAcked) } := by
  have hlt : c.sendAcked < c.sendPendingLen := of_decide_eq_true h
  have hsum : c.sendAcked + (c.sendPendingLen - c.sendAcked) = c.sendPendingLen := by omega
  unfold settle markSent
  rw [hsum, if_neg (Nat.lt_irrefl _)]
  dsimp only
  rw [if_pos rfl]

/-- The client at the start of its data phase, with the server's ends of the two directions. -/
structure Established (c : Core cfg sz) (n : Negotiated) (limit : RecordSizeLimit) (finished : Bytes) :
    Prop where
  state : c.state = .app n.appData
  idle : c.Idle
  sendWf : c.SendWf
  ph : c.ph = {}
  limit : c.ourRecvLimit = limit
  opened : c.history.opened = []
  sealed : c.history.sealed =
    [(.handshake, ⟨0, ctHandshake, (Credentials.finished n.clientFinished).encode, finished⟩)]
  gens : c.history.recvGen = 0 ∧ c.history.sendGen = 0

end Core

namespace Session
variable {cfg : ClientConfig} {sz : Sizes} {params : ClientParams cfg} {s : Session cfg sz}

/-- From the `ServerHello` to the end of the handshake. -/
theorem run_handshake {server : Server} {first : WaitServerHello cfg} {n : Negotiated}
    {parts : List FlightPart} {bytes more : Bytes} (hcorrect : cfg.aead.Correct) (htotal : cfg.aead.Total)
    (hn : server.Derives cfg first.transcript.fed n) (hsuits : server.Suits first params sz.maxChain)
    (hcuts : FlightPart.Cuts parts n.messages s.core.ourRecvLimit)
    (hhello : server.hello.record.length ≤ sz.recv)
    (hroom : (n.messages.flatMap Message.encode).length ≤ sz.flight)
    (hrecv : (s.core.ourRecvLimit : Nat) + recordOverhead ≤ sz.recv) (hsend : minSendStandard ≤ sz.send)
    (h : s.Awaits) (hstate : s.core.state = .waitServerHello first)
    (hempty : s.core.reassembler.buf = []) (hph : s.core.ph = {}) (hhistory : s.core.history = {})
    (hseal : FlightPart.sealAll cfg.aead n.sHsKeys 0 parts = some bytes)
    (hinput : s.input = server.hello.record ++ (bytes ++ more)) :
    ∃ c finished, n.cHsKeys.encryptRecord cfg.aead (Credentials.finished n.clientFinished).encode ctHandshake
        0 sz.send = (.ok finished, finished) ∧
      c.Established n s.core.ourRecvLimit finished ∧
      s.run params = { s with dataPhase := true, core := c, input := more }.run params := by
  have hrunHello := run_hello h hstate hsuits hn hinput hhello
  let c₀ : Core cfg sz := { s.core with state := .waitFlight (server.waiting n first.transcript.fed 0) }
  have hawaits : Awaits { s with core := c₀, input := bytes ++ more } :=
    ⟨h.phase, ⟨h.idle.not_pending, h.idle.not_closed⟩, h.notDone⟩
  obtain ⟨conn, r, limit, finished, auth, hfinished, hrunFlight⟩ := run_flight
    (s := { s with core := c₀, input := bytes ++ more }) hcorrect htotal hn hsuits hcuts hroom hrecv hsend
    hawaits rfl hempty hseal rfl
  obtain ⟨-, -, hlen, hfits, -⟩ := RecordKeys.encryptRecord_eq_ok hfinished
  generalize hc : c₀.collecting conn r = c at hrunFlight
  have hpending : (c.established n limit finished auth).isSendPending = true :=
    decide_eq_true (show finished.length > 0 by omega)
  have hsettle := Core.settle_eq hpending
  rw [hrunHello, hrunFlight, run_settle hpending]
  generalize hc' : (c.established n limit finished auth).settle = c' at hsettle ⊢
  have hidle : c'.Idle := by
    rw [hsettle]
    refine ⟨by simp [Core.isSendPending], ?_⟩
    rw [← hc]
    exact h.idle.not_closed
  have hover : handshakeOver s.dataPhase c' = true := by
    rw [hsettle, h.phase]
    rfl
  rw [run_over hidle.not_pending hover]
  refine ⟨{ c' with pendingHandshakeDone := false }, finished, hfinished, ?_, rfl⟩
  have hsealed : c'.history.sealed =
      [(.handshake, ⟨0, ctHandshake, (Credentials.finished n.clientFinished).encode, finished⟩)] := by
    rw [hsettle, ← hc]
    simpa [Core.established, Core.installApp, Core.sealedFlight, Core.collecting] using
      congrArg History.sealed hhistory
  rw [hsettle, ← hc] at hsealed ⊢
  refine ⟨rfl, ⟨?_, h.idle.not_closed⟩, ⟨Nat.le_refl _, Nat.zero_le _⟩, hph, rfl, ?_, hsealed, ?_⟩
  · simp [Core.isSendPending]
  · exact congrArg History.opened hhistory
  · exact ⟨congrArg History.recvGen hhistory, congrArg History.sendGen hhistory⟩

end Session

end KrabiTls
