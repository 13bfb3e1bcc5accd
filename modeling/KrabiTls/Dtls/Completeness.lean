import KrabiTls.ClientFlight.Building
import KrabiTls.Dtls.ExactlyOnce
import KrabiTls.Dtls.Greeting
import KrabiTls.Dtls.RecordLimit

/-! `connect` with a server that follows the protocol: whatever the network does to the datagrams
within the client's budget, both sides end up with the same keys. -/
namespace KrabiTls.Dtls
open Lib

variable {ε : Type} {cfg : DtlsConfig}

/-- What the client asks of a server. -/
structure Server.Suits (s : Server) (args : ConnectArgs cfg) (secret : cfg.kx.Secret .x25519)
    (pubKey : Block 32) (limit : Option Nat) : Prop extends s.Answers args where
  generated : args.generated = some (secret, pubKey.val)
  shared : cfg.kx.derive .x25519 secret s.share.val = some s.ikm.val
  limit : FirstLimit (s.extensions, []) limit
  chain : s.certificate.chain.length ≤ cfg.maxChain
  leaf : ∃ prepared leaf, s.Authenticates cfg.toClientConfig args.verifyChain args.hostname prepared leaf

/-- The records to the client, under the keys of the handshake. -/
abbrev FlightBurst (args : ConnectArgs cfg) (s : Server) (n : Negotiated) :=
  Burst cfg.aead cfg.masker n.keys.server (agreedCid args.clientCid s.cid) (s.flightOf n)

abbrev FlightReply (args : ConnectArgs cfg) (s : Server) (n : Negotiated) :=
  Reply cfg n.keys.server (agreedCid args.clientCid s.cid) (s.flightOf n)

/-- What the network may do to the flight: `first` comes behind the `ServerHello`, `replies` are what
the transport hands out afterwards. Records may be lost, come twice and out of order, as long as
every byte of the flight comes, the client has room for the fragments it gets, and its budgets of
datagrams and timeouts last. -/
structure Delivered (args : ConnectArgs cfg) (s : Server) (n : Negotiated) (first : FlightBurst args s n)
    (replies : List (FlightReply args s n)) : Prop where
  budget : replies.length ≤ maxFlightDatagrams
  resends : timeouts replies < maxFlightAttempts
  fits : (s.flightOf n).Fits maxFlightMsgs maxMsgFrags args.reasmBuf.length
    ((first.records ++ arrived replies).flatMap FragmentRecord.fragments)
  reach : FlightRecord.InReach cfg.features.usizeBits 0
    ((first.records ++ arrived replies).map FragmentRecord.toFlightRecord)
  covered : (s.flightOf n).CoveredBy ((first.records ++ arrived replies).flatMap FragmentRecord.fragments)
  room : (s.flightOf n).bytes.length ≤ args.flightBufLen

section Seal
variable {a : AeadBackend} {m : Masker} {k : EpochKeys} {content record : Bytes} {contentType : UInt8}

theorem EpochKeys.seal_length {hdr : SealHeader} {outLen : Nat}
    (h : k.seal a m hdr content contentType outLen = .ok record) :
    record.length = hdr.headerLen + (content.length + 17) := by
  obtain ⟨-, ciphertext, tag, sample, hseal, -, rfl⟩ := seal_eq_ok h
  obtain ⟨hcipher, htag⟩ := RecordKeys.sealInPlace_length hseal
  have hmask := maskSeq_length m k sample
    (show (toBe hdr.seqLen.bytes hdr.seq).length ≤ 16 by rw [toBe_length]; exact hdr.seqLen.bytes_le)
  rw [List.length_append] at hcipher
  simp only [List.length_append, List.length_cons, toBe_length, hmask, hcipher, htag,
    SealHeader.headerLen, SealHeader.cidLen, List.length_nil]
  cases hdr.cid <;> simp <;> omega

/-- The server opens the record to this content, whichever of the first numbers it expects. -/
def Reads (a : AeadBackend) (m : Masker) (k : EpochKeys) (cid : Option Bytes) (seq : Nat)
    (contentType : UInt8) (content record : Bytes) : Prop :=
  ∀ hint < 2 ^ 15, k.openRecord a m (cidLength cid) hint record =
    .ok ⟨2, seq, contentType, content, record.length⟩

/-- With room for it, a record of epoch 2 is sealed, and the server reads it. -/
theorem EpochKeys.seal_reads (hcorrect : a.Correct) (htotal : a.Total) (m : Masker) (k : EpochKeys)
    {cid : Option Bytes} (hcid : ∀ id ∈ cid, id ≠ [] ∧ id.length ≤ maxCidLen) {seq : Nat} (hseq : seq < 2 ^ 15)
    (htype : contentType ≠ 0) (hcontent : content.length ≤ tlsPlaintextMax) {outLen : Nat}
    (hroom : content.length + 42 ≤ outLen) :
    ∃ record, k.seal a m ⟨2, seq, .two, cid⟩ content contentType outLen = .ok record ∧
      record.length ≤ outLen ∧ Reads a m k cid seq contentType content record := by
  have hlen : cidLength cid ≤ 20 := by
    cases hid : cid with
    | none => exact Nat.zero_le _
    | some id => exact (hcid id hid).2
  have hsome : cid.isSome ↔ cidLength cid > 0 := by
    cases hid : cid with
    | none => simp [cidLength]
    | some id => simpa [cidLength, List.length_pos_iff] using (hcid id hid).1
  have hheader : SealHeader.headerLen ⟨2, seq, .two, cid⟩ = 1 + cidLength cid + 2 + 2 := rfl
  have hmax : tlsPlaintextMax = 2 ^ 14 := rfl
  have hsmall : SealHeader.headerLen ⟨2, seq, .two, cid⟩ ≤ 2 ^ 16 := by omega
  obtain ⟨record, hseal⟩ := (EpochKeys.seal_isOk_iff htotal m k hsmall content contentType outLen).mpr
    ⟨by omega, by omega⟩
  refine ⟨record, hseal, ?_, ?_⟩
  · rw [EpochKeys.seal_length hseal]
    omega
  · intro hint hhint
    have hnumber : reconstructSeq (seq % 2 ^ 16) 16 hint = seq :=
      reconstructSeq_eq (by decide) (by omega) (by omega) (by omega)
    have hopen := EpochKeys.openRecord_seal hcorrect hseal htype hcontent rfl hsome hnumber []
    rw [List.append_nil, show UInt8.ofNat 2 &&& hdrEpochLow2 = 2 by decide] at hopen
    exact hopen

end Seal

theorem agreedCid_fits {wanted : Option Bytes} (other : Option Bytes)
    (h : ∀ cid ∈ wanted, cid.length ≤ maxCidLen) :
    ∀ id ∈ agreedCid wanted other, id ≠ [] ∧ id.length ≤ maxCidLen := by
  intro id hid
  cases wanted with
  | none => cases hid
  | some cid =>
    cases other with
    | none => cases hid
    | some _ =>
      simp only [agreedCid, Option.mem_def] at hid
      split at hid
      · cases hid
      · rename_i hne
        cases hid
        exact ⟨hne, h _ rfl⟩

/-- The ACK of a bitmap that is read back: the numbers of the bits, as records of epoch 2. -/
theorem writeAckBitmap_body (acked : BitVec 128) : ∃ records : List (Nat × Nat),
    (∃ written, writeAckBitmap 2 acked (Block.zeros maxAckBodyLen).val =
      .ok ((ackBody records).length, ackBody records ++ written)) ∧
    (ackBody records).length ≤ maxAckBodyLen ∧
    (parseAck (ackBody records)).map AckRecords.collect = .ok records ∧
    ∀ r, r ∈ records ↔ r.1 = 2 ∧ acked.getLsbD r.2 = true := by
  have hcount := countOnes_le acked
  have hrecords : ((setBits acked).map fun seq => (2, seq)).length = countOnes acked := by
    rw [List.length_map, countOnes_eq]
  have hbody := ackBody_length ((setBits acked).map fun seq => (2, seq))
  have hcap : (Block.zeros maxAckBodyLen).val.length = 2 + 128 * 16 := (Block.zeros maxAckBodyLen).property
  rw [hrecords, recordNumberLen] at hbody
  refine ⟨(setBits acked).map fun seq => (2, seq), ⟨(Block.zeros maxAckBodyLen).val.drop
    (ackBody ((setBits acked).map fun seq => (2, seq))).length, ?_⟩, ?_, ?_, ?_⟩
  · rw [← writeAckEntries_body _ (by omega), ← ackBitmapLoop_run, hrecords]
    refine bind_eq_ok.mpr ⟨(), ensure_eq_ok.mpr (by rw [recordNumberLen]; omega), ?_⟩
    rw [hbody]
    rfl
  · exact Nat.le_trans (Nat.le_of_eq hbody) (by rw [maxAckBodyLen, maxAckRecords, recordNumberLen]; omega)
  · refine parseAck_ackBody (by rw [hrecords, recordNumberLen]; omega) ?_
    intro r hr
    obtain ⟨seq, hseq, rfl⟩ := List.mem_map.mp hr
    have hbit : seq < 128 := BitVec.lt_of_getLsbD (mem_setBits.mp hseq)
    exact ⟨show 2 < 2 ^ 64 by decide, show seq < 2 ^ 64 by omega⟩
  · rintro ⟨epoch, seq⟩
    simp only [List.mem_map, mem_setBits, Prod.mk.injEq]
    constructor
    · rintro ⟨_, hbit, rfl, rfl⟩
      exact ⟨rfl, hbit⟩
    · rintro ⟨rfl, hbit⟩
      exact ⟨seq, hbit, rfl, rfl⟩

section Server
variable {s : Server} {args : ConnectArgs cfg} {n : Negotiated} {hello : Option Bytes → Bytes}
  {trailing : Bytes} {sh : ServerHelloRead}

theorem handshakeKeys_server {secret : cfg.kx.Secret .x25519}
    (hshared : cfg.kx.derive .x25519 secret s.share.val = some s.ikm.val) (hn : s.Derives cfg hello n)
    (hread : HelloRead s args n.hellos trailing sh) :
    handshakeKeys (ε := ε) secret sh = .ok n.keys := by
  obtain ⟨th, hth, hkeys⟩ := hn.keys
  unfold handshakeKeys
  rw [hread.share, hread.transcript]
  refine bind_eq_ok.mpr ⟨_, okOr_eq_ok.mpr hshared, ?_⟩
  rw [dif_pos s.ikm.property]
  exact bind_eq_ok.mpr ⟨th, mapError_eq_ok.mpr (mapError_eq_ok.mpr hth), mapError_eq_ok.mpr hkeys⟩

/-- As soon as what was handed out covers the flight, the client has it. -/
theorem collectFlight_delivered (hcorrect : cfg.aead.Correct) {first : FlightBurst args s n}
    {replies : List (FlightReply args s n)} (hdelivered : Delivered args s n first replies)
    (hread : HelloRead s args n.hellos first.bytes sh) {t : DatagramTransport ε}
    {later : List (Except ε (Option Datagram))} (hrecvs : t.recvs = handedOut replies ++ later) {sends : Nat}
    (hwilling : t.Willing (maxFlightAttempts - 1 + sends)) (retransmit : Bytes) :
    ∃ front back epoch2 t', replies = front ++ back ∧
      (collectFlight args n.keys.server sh retransmit).exec t = some (.ok epoch2, t') ∧
      epoch2.Taken args.reasmBuf (first.records ++ arrived front) ∧
      (s.flightOf n).CoveredBy ((first.records ++ arrived front).flatMap FragmentRecord.fragments) ∧
      t'.recvs = handedOut back ++ later ∧ t'.Willing sends := by
  have hreach := hdelivered.reach
  rw [List.map_append, FlightRecord.inReach_append, Nat.zero_add, List.length_map] at hreach
  obtain ⟨epoch2, hfeed, htaken⟩ := (Epoch2.taken_start args.reasmBuf).feed (ε := ε) hcorrect first
    (Epoch2.fits_front hdelivered.fits) hreach.1
  rw [List.nil_append] at htaken
  have hstart : (if sh.trailing ≠ [] then (Epoch2.start args.reasmBuf).feed cfg.aead cfg.masker
        cfg.features.usizeBits n.keys.server sh.recvCidLen sh.trailing
      else pure (Epoch2.start args.reasmBuf) : Except (DtlsClientError ε) Epoch2) = .ok epoch2 := by
    rw [hread.trailing, hread.recvCidLen]
    split
    · exact hfeed
    · rename_i hempty
      rw [not_not.mp hempty, Epoch2.feed_eq, Epoch2.openedRecords_of_none rfl] at hfeed
      exact hfeed
  have hresends := hdelivered.resends
  obtain ⟨front, back, last, t', hsplit, hloop, hdone⟩ := collectBody_exec hcorrect retransmit
    hread.recvCidLen hread.baseSeq replies (c := ⟨0, maxFlightAttempts - 1, epoch2⟩) (n := sends) htaken hrecvs
    (by rw [Nat.zero_add]; exact hdelivered.budget) (by dsimp only; omega) (hwilling.mono (by omega))
    hdelivered.fits hreach.2 hdelivered.covered
  exact ⟨front, back, last, t', hsplit, Program.exec_bind_eq_ok.mpr
    ⟨epoch2, t, Program.exec_ofExcept_eq_ok.mpr ⟨hstart, rfl⟩, hloop⟩, hdone⟩

theorem trustFlight_server {secret : cfg.kx.Secret .x25519} {pubKey : Block 32} {limit : Option Nat}
    (hsuits : s.Suits args secret pubKey limit) (hroom : (s.flightOf n).bytes.length ≤ args.flightBufLen)
    {rs : List (FragmentRecord cfg.aead cfg.masker n.keys.server (agreedCid args.clientCid s.cid)
      (s.flightOf n))} {epoch2 : Epoch2} (htaken : epoch2.Taken args.reasmBuf rs)
    (hcovered : (s.flightOf n).CoveredBy (rs.flatMap FragmentRecord.fragments))
    {prepared : PreparedVerifier cfg.verifiers} {leaf : CertView}
    (hleaf : s.Authenticates cfg.toClientConfig args.verifyChain args.hostname prepared leaf) :
    trustFlight (ε := ε) args epoch2 = .ok ⟨s.view n.signedHash n.finished, limit, s.certificate.chain,
      prepared, leaf⟩ := by
  have hbytes := (Flight.Assembles.of_pushAll htaken.pushed).serializeFlight_eq hcovered hroom
  obtain ⟨der, hder, hparsed⟩ := hleaf.parsed
  obtain ⟨hlen, hentries⟩ := s.eeEntries_eeBody
  have hbody : eeBody (s.view n.signedHash n.finished) = s.eeBody := rfl
  have hlimit : parseEeRecordSizeLimit (eeBody (s.view n.signedHash n.finished)) = .ok limit := by
    rw [hbody, parseEeRecordSizeLimit_eq_ok, hentries]
    exact ⟨Nat.le_of_eq hlen.symm, hsuits.limit⟩
  unfold trustFlight
  rw [hbytes]
  refine bind_eq_ok.mpr ⟨_, rfl, ?_⟩
  rw [Server.flightOf, Server.flight_bytes]
  refine bind_eq_ok.mpr ⟨_, mapError_eq_ok.mpr (Credentials.parseServerFlight_messages _ _), ?_⟩
  refine bind_eq_ok.mpr ⟨_, mapError_eq_ok.mpr hlimit, ?_⟩
  refine bind_eq_ok.mpr ⟨_, mapError_eq_ok.mpr (s.certificate.extractChain_eq hsuits.chain), ?_⟩
  refine bind_eq_ok.mpr ⟨_, okOr_eq_ok.mpr hleaf.trusted, ?_⟩
  refine bind_eq_ok.mpr ⟨_, okOr_eq_ok.mpr hder, ?_⟩
  refine bind_eq_ok.mpr ⟨_, mapError_eq_ok.mpr hparsed, ?_⟩
  refine bind_eq_ok.mpr ⟨(), ensure_eq_ok.mpr hleaf.matched, ?_⟩
  cases hhost : args.hostname with
  | none => rfl
  | some host => exact bind_eq_ok.mpr ⟨(), mapError_eq_ok.mpr (hleaf.hostname host hhost), rfl⟩

theorem authenticateFlight_server (limit : Option Nat) (hn : s.Derives cfg hello n)
    {prepared : PreparedVerifier cfg.verifiers} {leaf : CertView}
    (hleaf : s.Authenticates cfg.toClientConfig args.verifyChain args.hostname prepared leaf)
    {thFin : TranscriptDigest} (hthFin : cfg.hkdf.hash
      (n.hellos ++ (s.messages n.signedHash n.finished).flatMap KrabiTls.Message.encode) = .ok thFin) :
    authenticateFlight (ε := ε) ⟨n.hellos⟩ n.keys.serverHsTs ⟨s.view n.signedHash n.finished, limit,
      s.certificate.chain, prepared, leaf⟩ = .ok thFin := by
  obtain ⟨thCv, hsigns⟩ := hn.signs
  unfold authenticateFlight
  rw [Credentials.throughCert_view, Credentials.throughCv_view, Credentials.throughFin_view]
  refine bind_eq_ok.mpr ⟨_, mapError_eq_ok.mpr (mapError_eq_ok.mpr hsigns.cert), ?_⟩
  refine bind_eq_ok.mpr ⟨(), mapError_eq_ok.mpr
    (verifyCertificateVerifyWithPrepared_eq_ok.mpr (hleaf.signs n.signedHash)), ?_⟩
  refine bind_eq_ok.mpr ⟨_, mapError_eq_ok.mpr (mapError_eq_ok.mpr hsigns.cv), ?_⟩
  refine bind_eq_ok.mpr ⟨_, mapError_eq_ok.mpr hsigns.fin, ?_⟩
  exact bind_eq_ok.mpr ⟨(), ensure_eq_ok.mpr rfl, mapError_eq_ok.mpr (mapError_eq_ok.mpr hthFin)⟩

end Server

/-- The client's `Finished`, whole behind its header. -/
def finishedMessage (messageSeq : Nat) (mac : Block 32) : Bytes :=
  (HandshakeHeader.fields ⟨hsFinished, 32, messageSeq, 0, 32⟩).flatten ++ mac.val

section Answer
variable (hcorrect : cfg.aead.Correct) (htotal : cfg.aead.Total) (hk : HandshakeKeys) {cid : Option Bytes}
  (hcid : ∀ id ∈ cid, id ≠ [] ∧ id.length ≤ maxCidLen)
include hcorrect htotal hcid

theorem sealFinished_reads (messageSeq : Nat) {th : TranscriptDigest} {mac : Block 32}
    (hmac : cfg.hkdf.dtlsFinishedMac hk.clientHsTs th = .ok mac) :
    ∃ fin, sealFinished (ε := ε) cfg hk cid messageSeq th = .ok fin ∧
      Reads cfg.aead cfg.masker hk.client cid 0 ctHandshake (finishedMessage messageSeq mac) fin := by
  have hmsg : writeHsMsg (ε := ε) (hsHeaderLen + 48) hsFinished messageSeq mac.val =
      .ok (finishedMessage messageSeq mac) := by
    have hroom : hsHeaderLen + mac.val.length ≤ hsHeaderLen + 48 := by
      rw [mac.property]
      decide
    have hwrite := writeHsMsg_eq (ε := ε) hsFinished messageSeq hroom (mac_length_lt mac)
    rwa [mac.property] at hwrite
  have hlen : (finishedMessage messageSeq mac).length = 44 := by
    rw [finishedMessage, List.length_append, HandshakeHeader.fields_length, mac.property]
    rfl
  obtain ⟨fin, hseal, hfits, hreads⟩ := EpochKeys.seal_reads hcorrect htotal cfg.masker hk.client hcid
    (show 0 < 2 ^ 15 by decide) (show ctHandshake ≠ 0 by decide)
    (show (finishedMessage messageSeq mac).length ≤ tlsPlaintextMax by rw [hlen]; decide)
    (show (finishedMessage messageSeq mac).length + 42 ≤ 128 by rw [hlen]; decide)
  refine ⟨fin, bind_eq_ok.mpr ⟨mac, mapError_eq_ok.mpr hmac, bind_eq_ok.mpr ⟨_, hmsg, ?_⟩⟩, hreads⟩
  exact bind_eq_ok.mpr ⟨fin, mapError_eq_ok.mpr hseal, bind_eq_ok.mpr ⟨(), ensure_eq_ok.mpr hfits, rfl⟩⟩

/-- The records that an ACK names. -/
def Acknowledges (body : Bytes) (acked : Nat × Nat → Prop) : Prop :=
  ∃ records, (parseAck body).map AckRecords.collect = .ok records ∧ ∀ r, r ∈ records ↔ acked r

theorem sealAck_reads (acked : BitVec 128) : ∃ ack body, sealAck (ε := ε) cfg hk cid acked = .ok ack ∧
    Reads cfg.aead cfg.masker hk.client cid 1 ctAck body ack ∧
    Acknowledges body fun r => r.1 = 2 ∧ acked.getLsbD r.2 = true := by
  obtain ⟨records, ⟨written, hwrite⟩, hlen, hparse, hrecords⟩ := writeAckBitmap_body acked
  have hmax : maxAckBodyLen + 42 = maxAckBodyLen + maxAckSealOverhead := rfl
  obtain ⟨ack, hseal, -, hreads⟩ := EpochKeys.seal_reads hcorrect htotal cfg.masker hk.client hcid
    (show 1 < 2 ^ 15 by decide) (show ctAck ≠ 0 by decide) (Nat.le_trans hlen (by decide))
    (Nat.le_trans (Nat.add_le_add_right hlen 42) (Nat.le_of_eq hmax))
  refine ⟨ack, ackBody records, bind_eq_ok.mpr ⟨_, mapError_eq_ok.mpr hwrite, ?_⟩, hreads, records, hparse,
    hrecords⟩
  dsimp only
  rw [List.take_left]
  exact mapError_eq_ok.mpr hseal

end Answer

/-- Both sides after the handshake, the client having taken the records `rs`: they have the same keys
and connection ids, the client has neither sent nor received application data, and its last two
datagrams are the `Finished` that the server expects and an ACK for the records of `rs` that the
bitmap has room for. -/
structure Agreed (args : ConnectArgs cfg) (s : Server) (n : Negotiated) (limit : Option Nat)
    (rs : List (FragmentRecord cfg.aead cfg.masker n.keys.server (agreedCid args.clientCid s.cid)
      (s.flightOf n))) (client : Established) (t : DatagramTransport ε) : Prop where
  clientApp : client.clientApp = n.clientApp
  sendSeq : client.sendSeq = 0
  sendCid : client.sealHeader.cid = agreedCid s.cid args.clientCid
  limit : client.peerRecordLimit = limit
  receiver : client.toDtlsReceiver.Fresh n.serverApp (agreedCid args.clientCid s.cid)
  finished : Reads cfg.aead cfg.masker n.keys.client (agreedCid s.cid args.clientCid) 0 ctHandshake
    (finishedMessage s.finishedSeq n.clientFinished) client.finFlight
  sent : ∃ before ack body, t.sent = before ++ [client.finFlight, ack] ∧
    Reads cfg.aead cfg.masker n.keys.client (agreedCid s.cid args.clientCid) 1 ctAck body ack ∧
    Acknowledges body fun r => r.1 = 2 ∧ r.2 < 128 ∧ r.2 ∈ rs.map (·.seq)

section Connect
variable {s : Server} {args : ConnectArgs cfg} {n : Negotiated} {hello : Option Bytes → Bytes}
  {limit : Option Nat}

theorem finishConnect_agreed (hcorrect : cfg.aead.Correct) (htotal : cfg.aead.Total)
    (hanswers : s.Answers args) (hn : s.Derives cfg hello n) {trailing : Bytes} {sh : ServerHelloRead}
    (hread : HelloRead s args n.hellos trailing sh) {thFin : TranscriptDigest} (hthFin : cfg.hkdf.hash
      (n.hellos ++ (s.messages n.signedHash n.finished).flatMap KrabiTls.Message.encode) = .ok thFin)
    {rs : List (FragmentRecord cfg.aead cfg.masker n.keys.server (agreedCid args.clientCid s.cid)
      (s.flightOf n))} {epoch2 : Epoch2} (htaken : epoch2.Taken args.reasmBuf rs)
    {t : DatagramTransport ε} (hwilling : t.Willing 2) :
    ∃ client t', (finishConnect cfg n.keys sh s.finishedSeq epoch2 limit thFin).exec t =
        some (.ok client, t') ∧ t'.recvs = t.recvs ∧ Agreed args s n limit rs client t' := by
  obtain ⟨_, master, clientSecret, serverSecret, hsame, hmac, hmaster, hsecrets, hclientApp, hserverApp⟩ :=
    hn.app
  cases hthFin.symm.trans hsame
  have hcid := agreedCid_fits args.clientCid hanswers.cid
  obtain ⟨fin, hfin, hfinReads⟩ := sealFinished_reads (ε := ε) hcorrect htotal n.keys hcid s.finishedSeq hmac
  obtain ⟨ack, body, hack, hackReads, records, hparse, hrecords⟩ :=
    sealAck_reads (ε := ε) hcorrect htotal n.keys hcid epoch2.acked
  obtain ⟨t₁, hsend₁, hwilling₁, hrecvs₁, hsent₁⟩ := sendDatagram_willing hwilling fin
  obtain ⟨t₂, hsend₂, -, hrecvs₂, hsent₂⟩ := sendDatagram_willing hwilling₁ ack
  have happ : applicationKeys (ε := ε) cfg n.keys.hsSecret thFin = .ok (n.clientApp, n.serverApp) := by
    refine bind_eq_ok.mpr ⟨_, mapError_eq_ok.mpr hmaster, bind_eq_ok.mpr ⟨_, mapError_eq_ok.mpr hsecrets, ?_⟩⟩
    exact bind_eq_ok.mpr ⟨_, mapError_eq_ok.mpr hclientApp,
      bind_eq_ok.mpr ⟨_, mapError_eq_ok.mpr hserverApp, rfl⟩⟩
  have hours : ∀ id ∈ agreedCid args.clientCid s.cid, id ≠ [] ∧ id.length ≤ maxCidLen :=
    agreedCid_fits s.cid hanswers.clientCid
  have hsome : (agreedCid args.clientCid s.cid).isSome ↔ sh.recvCidLen > 0 := by
    rw [hread.recvCidLen]
    cases hid : agreedCid args.clientCid s.cid with
    | none => simp [cidLength]
    | some id => simpa [cidLength, List.length_pos_iff] using (hours id hid).1
  let client : Established := {
    clientApp := n.clientApp, sendSeq := 0, sendCid := sh.sendCid, sendCidLen := sh.sendCidLen
    peerRecordLimit := limit, serverApp := n.serverApp, recvHint := 0, serverReplay := .new
    finFlight := fin, finResendsLeft := maxFlightAttempts, recvCidLen := sh.recvCidLen, recvStash := [] }
  refine ⟨client, t₂, ?_, hrecvs₂.trans hrecvs₁, rfl, rfl, hread.cid, rfl,
    ⟨rfl, hread.recvCidLen.symm, hsome, rfl, rfl, rfl⟩, hfinReads, t.sent, ack, body, ?_, hackReads, records,
    hparse, ?_⟩
  · unfold finishConnect
    rw [hread.cid]
    refine Program.exec_bind_eq_ok.mpr ⟨fin, t, Program.exec_ofExcept_eq_ok.mpr ⟨hfin, rfl⟩, ?_⟩
    refine Program.exec_bind_eq_ok.mpr ⟨(), t₁, hsend₁, ?_⟩
    refine Program.exec_bind_eq_ok.mpr ⟨ack, t₁, Program.exec_ofExcept_eq_ok.mpr ⟨hack, rfl⟩, ?_⟩
    refine Program.exec_bind_eq_ok.mpr ⟨(), t₂, hsend₂, ?_⟩
    exact Program.exec_bind_eq_ok.mpr ⟨_, t₂, Program.exec_ofExcept_eq_ok.mpr ⟨happ, rfl⟩, rfl⟩
  · rw [hsent₂, hsent₁, List.append_assoc, List.singleton_append]
  · intro r
    rw [hrecords]
    constructor
    · rintro ⟨hepoch, hbit⟩
      have hlt : r.2 < 128 := BitVec.lt_of_getLsbD hbit
      exact ⟨hepoch, hlt, (htaken.acked r.2 hlt).mp hbit⟩
    · rintro ⟨hepoch, hlt, hmem⟩
      exact ⟨hepoch, (htaken.acked r.2 hlt).mpr hmem⟩

/-- Against every server that follows the protocol, with a cookie exchange or without one, `connect`
returns a client that agrees with it. It does so as soon as the whole flight has come, and leaves the
replies it did not need with the transport. -/
theorem connect_server_agrees (hcorrect : cfg.aead.Correct) (htotal : cfg.aead.Total)
    {secret : cfg.kx.Secret .x25519} {pubKey : Block 32} (hsuits : s.Suits args secret pubKey limit)
    (hn : s.negotiate cfg (args.offered pubKey) = some n) {first : FlightBurst args s n}
    {replies : List (FlightReply args s n)} (hdelivered : Delivered args s n first replies)
    {greeting later : List (Except ε (Option Datagram))} (hgreets : s.Greets first.bytes greeting)
    {t : DatagramTransport ε} (hrecvs : t.recvs = greeting ++ handedOut replies ++ later)
    (hwilling : t.Willing (3 * maxFlightAttempts + 1)) :
    ∃ front back client t', replies = front ++ back ∧ (connect args).exec t = some (.ok client, t') ∧
      t'.recvs = handedOut back ++ later ∧
      Agreed args s n limit (first.records ++ arrived front) client t' := by
  have hderives := Server.negotiate_derives hn
  obtain ⟨prepared, leaf, hleaf⟩ := hsuits.leaf
  obtain ⟨thFin, _, _, _, hthFin, -⟩ := hderives.app
  have hgenerate : generateShare (ε := ε) args = .ok (secret, pubKey) := by
    refine bind_eq_ok.mpr ⟨_, okOr_eq_ok.mpr hsuits.generated, ?_⟩
    exact dif_pos pubKey.property
  rw [List.append_assoc] at hrecvs
  obtain ⟨x, t₁, hexchange, hgreeted, hwilling₁, hrecvs₁⟩ := helloExchange_exec (n := maxFlightAttempts - 1 + 2)
    hsuits.toAnswers hderives.hellos hgreets (hwilling.mono (by decide)) hrecvs
  obtain ⟨sh, hsh, hread⟩ := readServerHello_greeted (ε := ε) hsuits.toAnswers hgreeted
  obtain ⟨front, back, epoch2, t₂, hsplit, hcollect, htaken, hcovered, hrecvs₂, hwilling₂⟩ :=
    collectFlight_delivered hcorrect hdelivered hread hrecvs₁ hwilling₁ x.retransmit
  have htrust := trustFlight_server (ε := ε) hsuits hdelivered.room htaken hcovered hleaf
  have hauthentic := authenticateFlight_server (ε := ε) limit hderives hleaf hthFin
  obtain ⟨client, t₃, hfinish, hrecvs₃, hagreed⟩ := finishConnect_agreed hcorrect htotal hsuits.toAnswers
    hderives hread hthFin htaken hwilling₂
  refine ⟨front, back, client, t₃, hsplit, ?_, hrecvs₃.trans hrecvs₂, hagreed⟩
  refine Program.exec_bind_eq_ok.mpr ⟨_, t, Program.exec_ofExcept_eq_ok.mpr ⟨hgenerate, rfl⟩, ?_⟩
  refine Program.exec_bind_eq_ok.mpr ⟨x, t₁, hexchange, ?_⟩
  refine Program.exec_bind_eq_ok.mpr ⟨sh, t₁, Program.exec_ofExcept_eq_ok.mpr ⟨hsh, rfl⟩, ?_⟩
  refine Program.exec_bind_eq_ok.mpr ⟨n.keys, t₁, Program.exec_ofExcept_eq_ok.mpr
    ⟨handshakeKeys_server hsuits.shared hderives hread, rfl⟩, ?_⟩
  refine Program.exec_bind_eq_ok.mpr ⟨epoch2, t₂, hcollect, ?_⟩
  refine Program.exec_bind_eq_ok.mpr ⟨_, t₂, Program.exec_ofExcept_eq_ok.mpr ⟨htrust, rfl⟩, ?_⟩
  rw [hread.transcript, hgreeted.messageSeq]
  exact Program.exec_bind_eq_ok.mpr ⟨thFin, t₂, Program.exec_ofExcept_eq_ok.mpr ⟨hauthentic, rfl⟩, hfinish⟩

end Connect

namespace Sample

variable {n : Negotiated}

def cidArgs : ConnectArgs dtlsConfig := { connectArgs with clientCid := some [9] }

def serverShare : Block 32 := (Block.zeros 32).overwrite 0 [5]

theorem extension_tags : extSupportedVersions < 2 ^ 16 ∧ extCookie < 2 ^ 16 ∧ extConnectionId < 2 ^ 16 ∧
    extKeyShare < 2 ^ 16 := by decide

theorem extension_data : (toBe 2 dtls13Version).length < 2 ^ 16 ∧ (prefixed 2 [1, 2, 3]).length < 2 ^ 16 ∧
    (prefixed 1 [7, 7]).length < 2 ^ 16 ∧
    (toBe 2 namedGroupX25519 ++ prefixed 2 serverShare.val).length < 2 ^ 16 := by decide

def versionEntry : Entry := ⟨extSupportedVersions, toBe 2 dtls13Version, extension_tags.1, extension_data.1⟩

def cookieEntry : Entry := ⟨extCookie, prefixed 2 [1, 2, 3], extension_tags.2.1, extension_data.2.1⟩

def cidEntry : Entry := ⟨extConnectionId, prefixed 1 [7, 7], extension_tags.2.2.1, extension_data.2.2.1⟩

def shareEntry : Entry := ⟨extKeyShare, toBe 2 namedGroupX25519 ++ prefixed 2 serverShare.val,
  extension_tags.2.2.2, extension_data.2.2.2⟩

theorem retry_fits : 52 + ([versionEntry, cookieEntry].flatMap Entry.encode).length < 2 ^ 16 := by decide

theorem retry_nodup : ([versionEntry, cookieEntry].map Entry.tag).Nodup := by decide

theorem hello_fits : 52 + ([versionEntry, shareEntry, cidEntry].flatMap Entry.encode).length < 2 ^ 16 := by
  decide

theorem hello_nodup : ([versionEntry, shareEntry, cidEntry].map Entry.tag).Nodup := by decide

theorem version_first (entries : List Entry) : ∃ e ∈ versionEntry :: entries,
    e.tag = extSupportedVersions ∧ e.data = toBe 2 dtls13Version :=
  ⟨versionEntry, List.mem_cons_self, rfl, rfl⟩

theorem hrrRandom_length : hrrRandom.length = 32 := rfl

def suiteBytes : Block 2 := (Block.zeros 2).overwrite 0 (toBe 2 cipherAes128GcmSha256)

def retryHello : StrictHello where
  recordVersion := Block.zeros 2
  recordSeq := Block.zeros 6
  messageSeq := Block.zeros 2
  random := ⟨hrrRandom, hrrRandom_length⟩
  suite := suiteBytes
  extensions := [versionEntry, cookieEntry]
  fits := retry_fits
  nodup := retry_nodup
  version := version_first _

def hello : StrictHello where
  recordVersion := Block.zeros 2
  recordSeq := Block.zeros 6
  messageSeq := (Block.zeros 2).overwrite 0 [0, 1]
  random := Block.zeros 32
  suite := suiteBytes
  extensions := [versionEntry, shareEntry, cidEntry]
  fits := hello_fits
  nodup := hello_nodup
  version := version_first _

theorem hello_seq_lt : ofBe hello.messageSeq.val + 4 < 2 ^ 16 := by decide

theorem cookie_length : [1, 2, 3].length ≤ 256 := by decide

/-- A server that asks for a cookie and has a connection id. -/
def server : Server where
  toCredentials := KrabiTls.Sample.credentials
  hello := hello
  share := serverShare
  cid := some [7, 7]
  ikm := serverShare
  retry := some ⟨retryHello, ⟨[1, 2, 3], cookie_length⟩⟩
  seq_lt := hello_seq_lt

def share : Block 32 := ⟨List.replicate 32 5, random_length⟩

theorem retryHello_said : retryHello.Says { cookie := some [1, 2, 3] } where
  entries := by decide
  present tag h := by
    by_cases hcookie : tag = extCookie
    · rw [hcookie]
      decide
    · simp [HelloExtensions.data, hcookie] at h
  cid_lt := by simp

theorem hello_said : hello.Says { keyShare := some serverShare, serverCid := some [7, 7] } where
  entries := by decide
  present tag h := by
    by_cases hcid : tag = extConnectionId
    · rw [hcid]
      decide
    · by_cases hshare : tag = extKeyShare
      · rw [hshare]
        decide
      · simp [HelloExtensions.data, hcid, hshare] at h
  cid_lt := by simp

theorem server_suits : server.Suits cidArgs () share none where
  clientCid := by simp [cidArgs, maxCidLen]
  cid := by simp [server, maxCidLen]
  hello := hello_said
  random := by decide
  suite := by decide
  retry := by
    rintro _ ⟨⟩
    exact ⟨retryHello_said, rfl, by decide⟩
  generated := rfl
  shared := rfl
  limit := show [].length < 4 ∧ none = none by decide
  chain := by decide
  leaf := ⟨.ed25519 (KrabiTls.Sample.leafDer.take 32), KrabiTls.Sample.leaf, {
    trusted := rfl
    parsed := ⟨KrabiTls.Sample.leafDer, rfl, KrabiTls.Sample.certParser_leafDer⟩
    matched := by decide
    hostname := by rintro _ ⟨⟩
    signs := KrabiTls.Sample.verifies_credentials _ }⟩

theorem flight_lengths (n : Negotiated) :
    (server.flightOf n).messages.map (·.body.length) = [2, 44, 68, 32] := by
  have hsigned (content : Bytes) : (server.sign content).encode.length = 68 := by
    rw [Signed.encode_length]
    exact congrArg (4 + ·) List.length_replicate
  have hfront : (server.flightOf n).messages.map (·.body.length) =
      [2, 44, (server.sign (certificateVerifyContent "TLS 1.3, server CertificateVerify"
        n.signedHash)).encode.length, n.finished.val.length] := rfl
  rw [hfront, hsigned, n.finished.property]

theorem flight_count (n : Negotiated) : (server.flightOf n).messages.length = 4 := rfl

theorem message_short (n : Negotiated) (k : Fin (server.flightOf n).messages.length) :
    (server.flightOf n).messages[k].body.length ≤ 68 := by
  have hmem : (server.flightOf n).messages[k].body.length ∈
      (server.flightOf n).messages.map (·.body.length) := List.mem_map_of_mem (List.getElem_mem _)
  rw [flight_lengths] at hmem
  revert hmem
  generalize List.length _ = len
  simp only [List.mem_cons, List.not_mem_nil, or_false]
  omega

def whole {fl : Flight hsFinished} (k : Fin fl.messages.length) : fl.Fragment :=
  ⟨k, 0, fl.messages[k].body.length, Nat.zero_le _, Nat.le_refl _⟩

abbrev Sealed (n : Negotiated) := FragmentRecord dtlsConfig.aead dtlsConfig.masker n.keys.server
  (agreedCid cidArgs.clientCid server.cid) (server.flightOf n)

theorem exists_sealed (n : Negotiated) {seq : Nat} (k : Fin (server.flightOf n).messages.length)
    (hseq : seq < 2 ^ 15) : ∃ r : Sealed n, r.seq = seq ∧ r.seqLen = .two ∧ r.fragments = [whole k] ∧
      r.wire.length ≤ 128 ∧ ∃ first tail, r.wire = first :: tail ∧ isCiphertextRecord first = true := by
  have hcid := agreedCid_fits server.cid server_suits.clientCid
  have hshort : (whole k).encode.length + 42 ≤ 128 := by
    have hbody := message_short n k
    rw [Flight.Fragment.encode, List.length_append, HandshakeHeader.fields_length, Flight.Fragment.data_length]
    simp only [whole, hsHeaderLen]
    omega
  have hcontent : (whole k).encode.length ≤ tlsPlaintextMax :=
    Nat.le_trans (show (whole k).encode.length ≤ 128 by omega) (by decide)
  obtain ⟨wire, hseal, hwire, -⟩ := EpochKeys.seal_reads
    (show dtlsConfig.aead.Correct from AeadBackend.clear_correct) AeadBackend.clear_total dtlsConfig.masker
    n.keys.server hcid hseq ctHandshake_ne_zero hcontent hshort
  obtain ⟨-, ciphertext, tag, sample, -, -, hparts⟩ := EpochKeys.seal_eq_ok hseal
  refine ⟨⟨⟨seq, .two, ctHandshake, (whole k).encode, wire, by omega, ctHandshake_ne_zero, hcontent,
    fun id hid => (hcid id hid).1, ⟨128, hseal⟩⟩, [whole k], ?_, ?_⟩, rfl, rfl, rfl, hwire, _, _, hparts, ?_⟩
  · intro
    rw [List.flatMap_singleton]
  · exact fun h => absurd rfl h
  · exact decide_eq_true (SealHeader.firstByte_flags _).1

theorem negotiate_isSome : (server.negotiate dtlsConfig (cidArgs.offered share)).isSome = true := by
  decide +kernel

def burst {n : Negotiated} (records : List (Sealed n)) : FlightBurst cidArgs server n :=
  ⟨records, [], fun _ => rfl⟩

theorem epoch2Part_burst {r : Sealed n} (rs : List (Sealed n))
    (h : ∃ first tail, r.wire = first :: tail ∧ isCiphertextRecord first = true) :
    epoch2Part (burst (r :: rs)).bytes = some (burst (r :: rs)).bytes := by
  obtain ⟨first, tail, hwire, hfirst⟩ := h
  have hbytes : (burst (r :: rs)).bytes =
      r.wire ++ FlightRecord.wires (rs.map FragmentRecord.toFlightRecord) ++ [] := rfl
  rw [hbytes, hwire, List.cons_append, List.cons_append, epoch2Part, if_pos hfirst]

theorem coveredBy_whole {fl : Flight hsFinished} {frags : List fl.Fragment}
    (h : ∀ k, whole k ∈ frags) : fl.CoveredBy frags :=
  fun k i hi => ⟨whole k, h k, rfl, Nat.zero_le i, hi⟩

theorem starts_length_le {fl : Flight hsFinished} (frags : List fl.Fragment) (k : Fin fl.messages.length) :
    (fl.starts frags k).length ≤ frags.length := by
  refine (List.dedup_sublist _).length_le.trans ?_
  rw [List.length_map]
  exact List.length_filter_le _ _

theorem inReach_map {record : Fin 4 → Sealed n} (hseq : ∀ k, (record k).seq = k.val)
    (hlen : ∀ k, (record k).seqLen = .two) (order : List (Fin 4)) (count : Nat)
    (hcount : count + order.length ≤ 16) :
    FlightRecord.InReach 64 count ((order.map record).map FragmentRecord.toFlightRecord) := by
  induction order generalizing count with
  | nil => trivial
  | cons k order ih =>
    rw [List.length_cons] at hcount
    have hk := k.isLt
    have hnear : (record k).Near count := by
      rw [FlightRecord.Near, hseq, hlen, SeqNumLen.bits]
      omega
    exact ⟨by omega, hnear, by rw [hseq]; omega, ih (count + 1) (by omega)⟩

/-- The records of the flight in any order, some behind the hello and the others after a timeout. -/
theorem delivered {n : Negotiated} {record : Fin 4 → Sealed n} (hseq : ∀ k, (record k).seq = k.val)
    (hlen : ∀ k, (record k).seqLen = .two)
    (hfrags : ∀ k, (record k).fragments = [whole (Fin.cast (flight_count n).symm k)])
    (early late : List (Fin 4)) (hall : ∀ k, k ∈ early ++ late) (hfew : (early ++ late).length ≤ 16)
    {arrival : Arrival dtlsConfig.aead dtlsConfig.masker n.keys.server
      (agreedCid cidArgs.clientCid server.cid) (server.flightOf n)}
    (harrival : arrival.records = late.map record) :
    Delivered cidArgs server n (burst (early.map record)) [none, some arrival] := by
  have hrecords : (burst (early.map record)).records ++ arrived [none, some arrival] =
      (early ++ late).map record := by
    simp [burst, arrived, harrival]
  have hwhole : ((early ++ late).map record).flatMap FragmentRecord.fragments =
      (early ++ late).map fun k => whole (Fin.cast (flight_count n).symm k) := by
    rw [List.flatMap_map, List.map_eq_flatMap]
    simp only [hfrags]
  have hlengths := flight_lengths n
  refine ⟨?_, ?_, ⟨?_, ?_, ?_⟩, ?_, ?_, ?_⟩
  · simp [maxFlightDatagrams]
  · simp [timeouts, maxFlightAttempts]
  · rw [flight_count]
    decide
  · rw [hlengths, show cidArgs.reasmBuf.length = 512 from List.length_replicate]
    decide
  · intro k
    rw [hrecords, hwhole]
    exact (starts_length_le _ k).trans (by rwa [List.length_map])
  · rw [hrecords]
    exact inReach_map hseq hlen (early ++ late) 0 (by rwa [Nat.zero_add])
  · rw [hrecords, hwhole]
    refine coveredBy_whole fun k => List.mem_map.mpr ⟨Fin.cast (flight_count n) k, hall _, rfl⟩
  · have hsum : ((server.flightOf n).messages.map fun m => 4 + m.body.length) =
        ((server.flightOf n).messages.map (·.body.length)).map (4 + ·) := by
      rw [List.map_map]
      rfl
    simp only [Flight.bytes, List.length_flatMap, hsMessage_length]
    rw [hsum, hlengths]
    decide

theorem burst_length {records : List (Sealed n)} (h : ∀ r ∈ records, r.wire.length ≤ 128) :
    (burst records).bytes.length ≤ 128 * records.length := by
  have hbytes : (burst records).bytes = records.flatMap (·.wire) := by
    simp [Burst.bytes, burst, FlightRecord.wires, List.flatMap_map]
  rw [hbytes, List.length_flatMap]
  clear hbytes
  induction records with
  | nil => exact Nat.le_refl 0
  | cons r records ih =>
    obtain ⟨hr, hrest⟩ := List.forall_mem_cons.mp h
    have hsum := ih hrest
    rw [List.map_cons, List.sum_cons, List.length_cons]
    omega

end Sample

theorem connect_server_agrees_sample : ∃ (n : Negotiated) (first : FlightBurst Sample.cidArgs Sample.server n)
    (replies : List (FlightReply Sample.cidArgs Sample.server n)) (t t' : DatagramTransport Unit)
    (client : Established) (taken : List (Sample.Sealed n)),
      Sample.server.negotiate Sample.dtlsConfig (Sample.cidArgs.offered Sample.share) = some n ∧
      (first.records ++ arrived replies).map (·.seq) = [1, 3, 0, 2] ∧ timeouts replies = 1 ∧
      (connect Sample.cidArgs).exec t = some (.ok client, t') ∧
      Agreed Sample.cidArgs Sample.server n none taken client t' := by
  obtain ⟨n, hn⟩ := Option.isSome_iff_exists.mp Sample.negotiate_isSome
  have hexists (k : Fin 4) := Sample.exists_sealed n (Fin.cast (Sample.flight_count n).symm k)
    (show k.val < 2 ^ 15 by omega)
  choose record hseq hlen hfrags hwire hfirst using hexists
  have hburst (order : List (Fin 4)) :
      (Sample.burst (order.map record)).bytes.length ≤ 128 * order.length := by
    rw [← List.length_map (f := record)]
    exact Sample.burst_length (List.forall_mem_map.mpr fun k _ => hwire k)
  have hlate : (Sample.burst ([3, 0, 2].map record)).bytes.length ≤ maxDatagram :=
    Nat.le_trans (hburst [3, 0, 2]) (by decide)
  have hearly : (Sample.hello.encode ++ (Sample.burst ([1].map record)).bytes).length ≤ maxDatagram := by
    rw [List.length_append]
    exact Nat.le_trans (Nat.add_le_add_left (hburst [1]) _) (by decide +kernel)
  have hretry : (Sample.retryHello.encode ++ []).length ≤ maxDatagram := by decide +kernel
  let arrival : Arrival Sample.dtlsConfig.aead Sample.dtlsConfig.masker n.keys.server
      (agreedCid Sample.cidArgs.clientCid Sample.server.cid) (Sample.server.flightOf n) :=
    ⟨Sample.burst ([3, 0, 2].map record), ⟨_, hlate⟩, .inl (Sample.epoch2Part_burst _ (hfirst 3))⟩
  have hdelivered : Delivered Sample.cidArgs Sample.server n (Sample.burst ([1].map record))
      [none, some arrival] :=
    Sample.delivered hseq hlen hfrags [1] [3, 0, 2] (by decide) (by decide) rfl
  let t : DatagramTransport Unit := {
    sends := List.replicate 16 (.ok ())
    recvs := [.ok none, .ok (some ⟨_, hretry⟩), .ok (some ⟨_, hearly⟩)] ++ handedOut [none, some arrival] ++ [] }
  have hgreets : Sample.server.Greets (Sample.burst ([1].map record)).bytes
      [.ok none, .ok (some ⟨_, hretry⟩), (.ok (some ⟨_, hearly⟩) : Except Unit (Option Datagram))] :=
    ⟨[], [.ok none, .ok (some ⟨_, hretry⟩)], [.ok (some ⟨_, hearly⟩)], rfl,
      ⟨1, by decide, ⟨_, hretry⟩, rfl, rfl⟩, ⟨0, by decide, ⟨_, hearly⟩, rfl, rfl⟩⟩
  obtain ⟨front, back, client, t', -, hexec, -, hagreed⟩ := connect_server_agrees (t := t)
    AeadBackend.clear_correct AeadBackend.clear_total Sample.server_suits hn hdelivered hgreets rfl ⟨[], rfl⟩
  refine ⟨n, Sample.burst ([1].map record), [none, some arrival], t, t', client, _, hn, ?_, rfl, hexec, hagreed⟩
  show [(record 1).seq, (record 3).seq, (record 0).seq, (record 2).seq] = [1, 3, 0, 2]
  rw [hseq, hseq, hseq, hseq]
  rfl

end KrabiTls.Dtls
