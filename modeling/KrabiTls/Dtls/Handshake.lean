import KrabiTls.Dtls.Connect

/-! What a handshake that succeeds has checked. -/
namespace KrabiTls.Dtls
open Lib

variable {ε : Type} {cfg : DtlsConfig} {args : ConnectArgs cfg}

section Transport
variable {t t' : DatagramTransport ε}

theorem sendDatagram_eq_ok {datagram : Bytes} {u : Unit}
    (h : (sendDatagram datagram).exec t = some (.ok u, t')) :
    t'.sent = t.sent ++ [datagram] ∧ t'.recvs = t.recvs := by
  simp only [sendDatagram, Program.exec_ofFun, DatagramTransport.send, Option.map_eq_some_iff] at h
  obtain ⟨⟨reply, t₁⟩, hsend, h⟩ := h
  split at hsend
  · cases hsend
  · cases hsend
    cases (Prod.mk.inj h).2
    exact ⟨rfl, rfl⟩

theorem recvDatagram_eq_ok {reply : Option Datagram}
    (h : recvDatagram.exec t = some (.ok reply, t')) :
    t'.sent = t.sent ∧ t.recvs = .ok reply :: t'.recvs := by
  simp only [recvDatagram, Program.exec_ofFun, DatagramTransport.recv, Option.map_eq_some_iff] at h
  obtain ⟨⟨r, t₁⟩, hrecv, h⟩ := h
  split at hrecv
  · cases hrecv
  · rename_i hrecvs
    cases hrecv
    obtain ⟨hreply, rfl⟩ := Prod.mk.inj h
    have hr := mapError_eq_ok.mp hreply
    exact ⟨rfl, hr ▸ hrecvs⟩

/-- `reply` came in after some timeouts, at each of which `flight` was sent once more. -/
def Answered (flight : Bytes) (t : DatagramTransport ε) (reply : Datagram) (t' : DatagramTransport ε) :
    Prop :=
  ∃ timeouts, t.recvs = List.replicate timeouts (.ok none) ++ .ok (some reply) :: t'.recvs ∧
    t'.sent = t.sent ++ List.replicate (timeouts + 1) flight

theorem sendFlightAwaitReply_answered {flight : Bytes} {maxAttempts : Nat} {reply : Datagram}
    (h : (sendFlightAwaitReply flight maxAttempts).exec t = some (.ok reply, t')) :
    Answered flight t reply t' := by
  obtain ⟨_, t₁, hsend, h⟩ := Program.exec_bind_eq_ok.mp h
  obtain ⟨hsent, hrecvs⟩ := sendDatagram_eq_ok hsend
  -- after `n` timeouts the flight was sent `n + 1` times
  let waiting (s : DatagramTransport ε) : Prop :=
    ∃ n, t.recvs = List.replicate n (.ok none) ++ s.recvs ∧
      s.sent = t.sent ++ List.replicate (n + 1) flight
  suffices hloop : Program.Triple waiting (.loop (awaitBody flight maxAttempts) 1) (Answered flight t)
      fun _ _ => True from hloop.ok ⟨0, hrecvs.symm, hsent⟩ h
  refine .loop (fun _ => waiting) ?_ 1
  rintro attempts s ⟨n, hn, hs⟩ (_ | r) s' hpass
  · trivial
  · obtain ⟨reply, s₁, hrecv, hpass⟩ := Program.exec_bind_eq_ok.mp hpass
    obtain ⟨hsent₁, hrecvs₁⟩ := recvDatagram_eq_ok hrecv
    split at hpass
    · cases hpass
      exact ⟨n, by rw [hn, hrecvs₁], hsent₁.trans hs⟩
    · split at hpass
      · cases hpass
      · obtain ⟨_, s₂, hsend₂, hpass⟩ := Program.exec_bind_eq_ok.mp hpass
        obtain ⟨hsent₂, hrecvs₂⟩ := sendDatagram_eq_ok hsend₂
        cases hpass
        refine ⟨n + 1, ?_, ?_⟩
        · rw [hn, hrecvs₁, hrecvs₂, List.replicate_succ', List.append_assoc]
          rfl
        · rw [hsent₂, hsent₁, hs, List.append_assoc, ← List.replicate_succ']

end Transport

/-- The hellos of a run and the transcript they make: the first `ClientHello` and the `ServerHello`, or,
if a `HelloRetryRequest` came back, its hash, the request, the second `ClientHello` and the
`ServerHello`. Every message is in the form with a 4-byte header. -/
inductive Hellos (args : ConnectArgs cfg) (t : DatagramTransport ε) :
    (transcript : Bytes) → (reply : Datagram) → (t' : DatagramTransport ε) → Prop
  | direct {secret : cfg.kx.Secret .x25519} {pubKey share : Block 32} {ch1 ch1Rec shBody : Bytes}
      {reply : Datagram} {seq trailing suite : Nat} {cid : Option Bytes} {t' : DatagramTransport ε}
      (generated : generateShare (ε := ε) args = .ok (secret, pubKey))
      (ch1_written : clientHello (ε := ε) args pubKey none = .ok ch1)
      (ch1_framed : buildClientHelloRecord (ε := ε) ch1 0 0 chDgramLen = .ok ch1Rec)
      (answered : Answered ch1Rec t reply t')
      (framed : parseHelloBody (ε := ε) reply.val = .ok (shBody, seq, trailing))
      (hello : parseServerHello shBody = .ok (.hello suite share cid)) :
      Hellos args t (hsMessage hsClientHello ch1 ++ hsMessage hsServerHello shBody) reply t'
  | retry {secret : cfg.kx.Secret .x25519} {pubKey share : Block 32}
      {ch1 ch1Rec hrrBody cookie ch2 ch2Rec shBody : Bytes} {ch1Hash : TranscriptDigest}
      {first reply : Datagram} {seq trailing suite seq' trailing' suite' : Nat} {cid : Option Bytes}
      {t₁ t' : DatagramTransport ε}
      (generated : generateShare (ε := ε) args = .ok (secret, pubKey))
      (ch1_written : clientHello (ε := ε) args pubKey none = .ok ch1)
      (ch1_framed : buildClientHelloRecord (ε := ε) ch1 0 0 chDgramLen = .ok ch1Rec)
      (ch1_answered : Answered ch1Rec t first t₁)
      (hrr_framed : parseHelloBody (ε := ε) first.val = .ok (hrrBody, seq, trailing))
      (hrr : parseServerHello hrrBody = .ok (.retry suite cookie))
      (ch1_hash : cfg.hkdf.hash (hsMessage hsClientHello ch1) = .ok ch1Hash)
      (ch2_written : clientHello (ε := ε) args pubKey (some cookie) = .ok ch2)
      (ch2_framed : buildClientHelloRecord (ε := ε) ch2 1 1 chDgramLen = .ok ch2Rec)
      (ch2_answered : Answered ch2Rec t₁ reply t')
      (framed : parseHelloBody (ε := ε) reply.val = .ok (shBody, seq', trailing'))
      (hello : parseServerHello shBody = .ok (.hello suite' share cid)) :
      Hellos args t (hrrMessageHashHeader ++ ch1Hash.val ++ hsMessage hsServerHello hrrBody ++
        hsMessage hsClientHello ch2 ++ hsMessage hsServerHello shBody) reply t'

theorem hellos_of_exchange {secret : cfg.kx.Secret .x25519} {pubKey : Block 32} {x : HelloExchange}
    {sh : ServerHelloRead} {t t' : DatagramTransport ε}
    (hgen : generateShare (ε := ε) args = .ok (secret, pubKey))
    (h : (helloExchange args pubKey).exec t = some (.ok x, t'))
    (hsh : readServerHello (ε := ε) args x = .ok sh) :
    Hellos args t sh.transcript.fed x.reply t' := by
  simp only [readServerHello, bind_eq_ok, mapError_eq_ok] at hsh
  obtain ⟨⟨shBody, shSeq, shTrailing⟩, hbody, kind, hkind, hsh⟩ := hsh
  split at hsh
  · cases hsh
  · simp only [bind_eq_ok] at hsh
    obtain ⟨_, -, ⟨recvCidLen, sendCid, sendCidLen⟩, -, hsh⟩ := hsh
    cases hsh
    simp only [helloExchange, Program.exec_bind_eq_ok, Program.exec_ofExcept_eq_ok] at h
    obtain ⟨ch1, _, ⟨hch1, rfl⟩, ch1Rec, _, ⟨hrec1, rfl⟩, first, t₁, hanswer, ⟨firstBody, seq, trailing⟩,
      _, ⟨hfirst, rfl⟩, kind, _, ⟨hkind₁, rfl⟩, h⟩ := h
    have hkind₁ := mapError_eq_ok.mp hkind₁
    split at h
    · simp only [Program.exec_bind_eq_ok, Program.exec_ofExcept_eq_ok, mapError_eq_ok,
        TranscriptHash.snapshot] at h
      obtain ⟨_, _, ⟨-, rfl⟩, _, _, ⟨-, rfl⟩, ch1Hash, _, ⟨hhash, rfl⟩, ch2, _, ⟨hch2, rfl⟩, ch2Rec, _,
        ⟨hrec2, rfl⟩, reply, t₂, hanswer₂, h⟩ := h
      cases h
      exact .retry hgen hch1 hrec1 (sendFlightAwaitReply_answered hanswer) hfirst hkind₁ hhash hch2 hrec2
        (sendFlightAwaitReply_answered hanswer₂) hbody hkind
    · cases h
      exact .direct hgen hch1 hrec1 (sendFlightAwaitReply_answered hanswer) hbody hkind

/-- The epoch-2 parts of the datagrams among some replies. -/
def epoch2Parts (replies : List (Option Datagram)) : List Bytes :=
  replies.filterMap fun reply => reply.bind fun datagram => epoch2Part datagram.val

/-- The reassembler after the records that came behind the `ServerHello` and in later datagrams. -/
def Collected (args : ConnectArgs cfg) (serverKeys : EpochKeys) (sh : ServerHelloRead)
    (t t' : DatagramTransport ε) (epoch2 : Epoch2) : Prop :=
  ∃ replies : List (Option Datagram), t.recvs = replies.map .ok ++ t'.recvs ∧
    (Epoch2.start args.reasmBuf).feedAll (ε := ε) cfg.aead cfg.masker cfg.features.usizeBits serverKeys
      sh.recvCidLen (sh.trailing :: epoch2Parts replies) = .ok epoch2

theorem Epoch2.feedAll_concat {a : AeadBackend} {m : Masker} {usizeBits cidLen : Nat} {k : EpochKeys}
    {s s' s'' : Epoch2} {datagrams : List Bytes} {last : Bytes}
    (h : s.feedAll (ε := ε) a m usizeBits k cidLen datagrams = .ok s')
    (hlast : s'.feed (ε := ε) a m usizeBits k cidLen last = .ok s'') :
    s.feedAll (ε := ε) a m usizeBits k cidLen (datagrams ++ [last]) = .ok s'' := by
  rw [feedAll, List.foldlM_append, bind_eq_ok]
  exact ⟨s', h, by rw [List.foldlM_cons, hlast]; rfl⟩

theorem collectFlight_collected {serverKeys : EpochKeys} {sh : ServerHelloRead} {retransmit : Bytes}
    {t t' : DatagramTransport ε} {epoch2 : Epoch2}
    (h : (collectFlight args serverKeys sh retransmit).exec t = some (.ok epoch2, t')) :
    Collected args serverKeys sh t t' epoch2 ∧
      epoch2.reasm.flightComplete sh.baseSeq hsFinished = true := by
  simp only [collectFlight, Program.exec_bind_eq_ok, Program.exec_ofExcept_eq_ok] at h
  obtain ⟨first, _, ⟨hfirst, rfl⟩, h⟩ := h
  have hstart : Collected args serverKeys sh t t first := by
    refine ⟨[], rfl, ?_⟩
    show List.foldlM _ _ [sh.trailing] = _
    rw [List.foldlM_cons, bind_eq_ok]
    split at hfirst
    · exact ⟨first, hfirst, rfl⟩
    · rename_i htrailing
      cases hfirst
      rw [not_not.mp htrailing]
      exact ⟨_, Epoch2.feed_eq _ _, rfl⟩
  suffices hloop : Program.Triple (fun s => Collected args serverKeys sh t s first)
      (.loop (collectBody cfg serverKeys sh retransmit) ⟨0, maxFlightAttempts - 1, first⟩)
      (fun epoch2 s => Collected args serverKeys sh t s epoch2 ∧
        epoch2.reasm.flightComplete sh.baseSeq hsFinished = true) (fun _ _ => True) from
    hloop.ok hstart h
  refine Program.Triple.loop (fun (c : Collecting) s => Collected args serverKeys sh t s c.epoch2) ?_
    ⟨0, maxFlightAttempts - 1, first⟩
  rintro c s ⟨replies, hreplies, hfed⟩ (_ | r) s' hpass
  · trivial
  · dsimp only [collectBody] at hpass
    split at hpass
    · rename_i hcomplete
      cases hpass
      exact ⟨⟨replies, hreplies, hfed⟩, hcomplete⟩
    · split at hpass
      · cases hpass
      · obtain ⟨reply, s₁, hrecv, hpass⟩ := Program.exec_bind_eq_ok.mp hpass
        obtain ⟨-, hrecvs₁⟩ := recvDatagram_eq_ok hrecv
        have hnext : t.recvs = (replies ++ [reply]).map .ok ++ s₁.recvs := by
          rw [hreplies, hrecvs₁]
          simp
        split at hpass
        · split at hpass
          · cases hpass
          · obtain ⟨_, s₂, hsend, hpass⟩ := Program.exec_bind_eq_ok.mp hpass
            obtain ⟨-, hrecvs₂⟩ := sendDatagram_eq_ok hsend
            cases hpass
            refine ⟨replies ++ [none], by rw [hnext, hrecvs₂], ?_⟩
            simpa [epoch2Parts] using hfed
        · rename_i datagram
          split at hpass
          · rename_i hpart
            cases hpass
            refine ⟨replies ++ [some datagram], hnext, ?_⟩
            simpa [epoch2Parts, hpart] using hfed
          · rename_i part hpart
            simp only [Program.exec_bind_eq_ok, Program.exec_ofExcept_eq_ok] at hpass
            obtain ⟨epoch2', _, ⟨hfeed, rfl⟩, hpass⟩ := hpass
            cases hpass
            refine ⟨replies ++ [some datagram], hnext, ?_⟩
            have hparts : epoch2Parts (replies ++ [some datagram]) = epoch2Parts replies ++ [part] := by
              simp [epoch2Parts, hpart]
            rw [hparts]
            exact Epoch2.feedAll_concat hfed hfeed

structure HandshakeRun (cfg : DtlsConfig) where
  transcript : Bytes
  sh : ServerHelloRead
  keys : HandshakeKeys
  epoch2 : Epoch2
  flight : ServerFlightView
  chain : List Bytes
  prepared : PreparedVerifier cfg.verifiers
  leafView : CertView

namespace HandshakeRun
variable (run : HandshakeRun cfg)

/-- The transcript extended by the flight through `Certificate`, `CertificateVerify`, `Finished`. -/
def throughCert : Bytes :=
  run.transcript ++ run.flight.eeFull ++ run.flight.certRequestFull.getD [] ++ run.flight.certFull

def throughCv : Bytes := run.throughCert ++ run.flight.cvFull

def throughFin : Bytes := run.throughCv ++ run.flight.finFull

/-- Everything that stands between the hellos and a client that carries data. -/
structure Sound (args : ConnectArgs cfg) (t : DatagramTransport ε) (client : Established) : Prop where
  hellos : ∃ x t₁ t₂, Hellos args t run.transcript x.reply t₁ ∧
    readServerHello (ε := ε) args x = .ok run.sh ∧
    Collected args run.keys.server run.sh t₁ t₂ run.epoch2
  complete : run.epoch2.reasm.flightComplete run.sh.baseSeq hsFinished = true
  received : ∃ bytes, run.epoch2.reasm.serializeFlight run.epoch2.arena args.flightBufLen = .ok bytes ∧
    parseServerFlight bytes = .ok run.flight
  chain : extractChain cfg.maxChain run.flight.certBody = .ok run.chain
  trusted : args.verifyChain run.chain = some run.prepared
  leaf : ∃ der, run.chain.head? = some der ∧ cfg.certParser der = .ok run.leafView
  matched : run.prepared.matchesCert run.leafView = true
  hostname : ∀ host ∈ args.hostname, verifyHostname cfg.features run.leafView host = .ok ()
  keys : ∃ secret pubKey ikm th, generateShare (ε := ε) args = .ok (secret, pubKey) ∧
    cfg.kx.derive .x25519 secret run.sh.share.val = some ikm.val ∧
    cfg.hkdf.hash run.transcript = .ok th ∧
    deriveHandshakeKeys cfg.hkdf cfg.suite ikm th = .ok run.keys
  certificateVerify : ∃ th, cfg.hkdf.hash run.throughCert = .ok th ∧
    CertificateVerified cfg.features run.prepared th run.flight.cvBody
  finished : ∃ th mac, cfg.hkdf.hash run.throughCv = .ok th ∧
    cfg.hkdf.dtlsFinishedMac run.keys.serverHsTs th = .ok mac ∧ run.flight.finBody = mac.val
  epoch3 : ∃ th master clientSecret serverSecret, cfg.hkdf.hash run.throughFin = .ok th ∧
    cfg.hkdf.dtlsMasterSecret run.keys.hsSecret = .ok master ∧
    cfg.hkdf.dtlsApplicationTrafficSecrets master th = .ok (clientSecret, serverSecret) ∧
    EpochKeys.derive cfg.hkdf cfg.suite clientSecret = .ok client.clientApp ∧
    EpochKeys.derive cfg.hkdf cfg.suite serverSecret = .ok client.serverApp

end HandshakeRun

theorem handshakeKeys_eq_ok {secret : cfg.kx.Secret .x25519} {sh : ServerHelloRead}
    {keys : HandshakeKeys} (h : handshakeKeys (ε := ε) secret sh = .ok keys) :
    ∃ (ikm : Block 32) (th : TranscriptDigest), cfg.kx.derive .x25519 secret sh.share.val = some ikm.val ∧
      cfg.hkdf.hash sh.transcript.fed = .ok th ∧
      deriveHandshakeKeys cfg.hkdf cfg.suite ikm th = .ok keys := by
  simp only [handshakeKeys, bind_eq_ok, okOr_eq_ok] at h
  obtain ⟨ikm, hikm, h⟩ := h
  split at h
  · rename_i hlen
    simp only [bind_eq_ok, mapError_eq_ok, TranscriptHash.snapshot] at h
    obtain ⟨th, hth, hkeys⟩ := h
    exact ⟨⟨ikm, hlen⟩, th, hikm, hth, hkeys⟩
  · cases h

/-- What the strategy and the identity checks have established. -/
structure Trusted.Checked (args : ConnectArgs cfg) (epoch2 : Epoch2) (trusted : Trusted cfg) : Prop where
  received : ∃ bytes, epoch2.reasm.serializeFlight epoch2.arena args.flightBufLen = .ok bytes ∧
    parseServerFlight bytes = .ok trusted.flight
  limit : parseEeRecordSizeLimit (eeBody trusted.flight) = .ok trusted.peerRecordLimit
  chain : extractChain cfg.maxChain trusted.flight.certBody = .ok trusted.chain
  accepted : args.verifyChain trusted.chain = some trusted.prepared
  leaf : ∃ der, trusted.chain.head? = some der ∧ cfg.certParser der = .ok trusted.leafView
  matched : trusted.prepared.matchesCert trusted.leafView = true
  hostname : ∀ host ∈ args.hostname, verifyHostname cfg.features trusted.leafView host = .ok ()

theorem trustFlight_checked {epoch2 : Epoch2} {trusted : Trusted cfg}
    (h : trustFlight (ε := ε) args epoch2 = .ok trusted) : trusted.Checked args epoch2 := by
  simp only [trustFlight, bind_eq_ok, mapError_eq_ok, okOr_eq_ok, ensure_eq_ok] at h
  obtain ⟨bytes, hbytes, flight, hflight, limit, hlimit, chain, hchain, prepared, hprepared, der, hder,
    leafView, hleaf, _, hmatched, h⟩ := h
  cases hhost : args.hostname with
  | none =>
    rw [hhost] at h
    cases h
    exact ⟨⟨bytes, hbytes, hflight⟩, hlimit, hchain, hprepared, ⟨der, hder, hleaf⟩, hmatched, by simp [hhost]⟩
  | some host =>
    simp only [hhost, bind_eq_ok, mapError_eq_ok] at h
    obtain ⟨⟨⟩, hname, h⟩ := h
    cases h
    exact ⟨⟨bytes, hbytes, hflight⟩, hlimit, hchain, hprepared, ⟨der, hder, hleaf⟩, hmatched, by simpa [hhost]⟩

/-- Whatever the transport does, `connect` returns a client only after every check. -/
theorem connect_sound {t t' : DatagramTransport ε} {client : Established}
    (h : (connect args).exec t = some (.ok client, t')) :
    ∃ run : HandshakeRun cfg, run.Sound args t client := by
  simp only [connect, Program.exec_bind_eq_ok, Program.exec_ofExcept_eq_ok] at h
  obtain ⟨⟨secret, pubKey⟩, _, ⟨hgen, rfl⟩, x, t₁, hx, sh, _, ⟨hsh, rfl⟩, keys, _, ⟨hkeys, rfl⟩, epoch2, t₂,
    hcollect, trusted, _, ⟨htrusted, rfl⟩, thServerFin, _, ⟨hauth, rfl⟩, hfinish⟩ := h
  obtain ⟨hcollected, hcomplete⟩ := collectFlight_collected hcollect
  obtain ⟨ikm, thChSh, hikm, hthChSh, hderive⟩ := handshakeKeys_eq_ok hkeys
  have hchecked := trustFlight_checked htrusted
  simp only [authenticateFlight, bind_eq_ok, mapError_eq_ok, ensure_eq_ok, TranscriptHash.snapshot] at hauth
  obtain ⟨thCert, hthCert, ⟨⟩, hcv, thCv, hthCv, mac, hmac, _, hfin, hthFin⟩ := hauth
  simp only [finishConnect, Program.exec_bind_eq_ok, Program.exec_ofExcept_eq_ok] at hfinish
  obtain ⟨finRec, _, ⟨-, rfl⟩, _, t₃, -, ackRec, _, ⟨-, rfl⟩, _, t₄, -, ⟨clientApp, serverApp⟩, _, ⟨happ, rfl⟩,
    hclient⟩ := hfinish
  cases hclient
  simp only [applicationKeys, bind_eq_ok, mapError_eq_ok] at happ
  obtain ⟨master, hmaster, ⟨clientSecret, serverSecret⟩, hsecrets, _, hclientApp, _, hserverApp, happ⟩ := happ
  cases happ
  exact ⟨⟨sh.transcript.fed, sh, keys, epoch2, trusted.flight, trusted.chain, trusted.prepared,
      trusted.leafView⟩, {
    hellos := ⟨x, t₁, t₂, hellos_of_exchange hgen hx hsh, hsh, hcollected⟩
    complete := hcomplete
    received := hchecked.received
    chain := hchecked.chain
    trusted := hchecked.accepted
    leaf := hchecked.leaf
    matched := hchecked.matched
    hostname := hchecked.hostname
    keys := ⟨secret, pubKey, ikm, thChSh, hgen, hikm, hthChSh, hderive⟩
    certificateVerify := ⟨thCert, hthCert, verifyCertificateVerifyWithPrepared_eq_ok.mp hcv⟩
    finished := ⟨thCv, mac, hthCv, hmac, hfin⟩
    epoch3 := ⟨thServerFin, master, clientSecret, serverSecret, hthFin, hmaster, hsecrets, hclientApp,
      hserverApp⟩ }⟩

namespace Sample

def dtlsConfig : DtlsConfig where
  toClientConfig := .sample
  suite := .aes128GcmSha256
  masker := DtlsClient.sampleMasker
  maxChain := 2

/-- The strategy trusts the key at the front of the leaf. -/
def connectArgs : ConnectArgs dtlsConfig where
  verifyChain chain := chain.head?.map fun leaf => .ed25519 (leaf.take 32)
  hostname := none
  clientCid := none
  generated := some ((), List.replicate 32 5)
  clientRandom := Block.zeros 32
  flightBufLen := 512
  reasmBuf := List.replicate 512 0

theorem random_length : (List.replicate 32 (5 : UInt8)).length = 32 := rfl

def ch1 : Bytes :=
  (clientHello (ε := Unit) connectArgs ⟨List.replicate 32 5, random_length⟩ none).toOption.getD []

/-- The transcript of a handshake whose first reply is `sampleHello`. -/
def helloTranscript : Bytes := hsMessage hsClientHello ch1 ++ hsMessage hsServerHello sampleHello

def hashOf (b : Bytes) : TranscriptDigest := ⟨List.replicate 32 (digest b), length_replicate_digest b⟩

def handshakeKeys? (transcript : Bytes) : Option HandshakeKeys :=
  (deriveHandshakeKeys .sample .aes128GcmSha256 ⟨List.replicate 32 9, rfl⟩ (hashOf transcript)).toOption

def certificate : Bytes := [0, 0, 0, 37, 0, 0, 32] ++ List.replicate 32 3 ++ [0, 0]

/-- The messages of the server's flight after `transcript`, made with the keys `hk`. -/
def serverFlight (eeBody transcript : Bytes) (hk : HandshakeKeys) : List Bytes :=
  let ee := hsMessage hsEncryptedExtensions eeBody
  let cert := hsMessage hsCertificate certificate
  let content := certificateVerifyContent "TLS 1.3, server CertificateVerify"
    (hashOf (transcript ++ ee ++ cert))
  let cv := hsMessage hsCertificateVerify
    (toBe 2 sigSchemeEd25519 ++ toBe 2 64 ++ List.replicate 64 (digest content))
  let mac := (HkdfSha256.sample.dtlsFinishedMac hk.serverHsTs
    (hashOf (transcript ++ ee ++ cert ++ cv))).toOption.getD (Block.zeros 32)
  [ee, cert, cv, hsMessage hsFinished mac.val]

def flightRecordWire (hk : HandshakeKeys) (seq : Nat) (msg : Bytes) : Bytes :=
  let fragment := msg.take 4 ++ toBe 2 (seq + 1) ++ toBe 3 0 ++ slice msg 1 4 ++ msg.drop 4
  (hk.server.seal .clear DtlsClient.sampleMasker ⟨2, seq, .two, none⟩ fragment ctHandshake
    512).toOption.getD []

def flightAfter (eeBody transcript : Bytes) : Bytes :=
  match handshakeKeys? transcript with
  | none => []
  | some hk =>
      ((serverFlight eeBody transcript hk).zipIdx.map fun (msg, seq) =>
        flightRecordWire hk seq msg).flatten

def flightDatagram : Bytes := flightAfter [0, 0] helloTranscript

def asDatagram (bytes : Bytes) : Datagram := ⟨bytes.take maxDatagram, by simp⟩

/-- A server that answers at once, and takes what it is sent. -/
def answering (replies : List Bytes) : DatagramTransport Unit where
  sends := List.replicate 16 (.ok ())
  recvs := replies.map fun reply => .ok (some (asDatagram reply))

theorem answering_returns : ∃ client t', (connect connectArgs).exec
    (answering [sampleHelloDatagram, flightDatagram]) = some (.ok client, t') ∧
      client.peerRecordLimit = none := by
  have hreturns : ((connect connectArgs).exec (answering [sampleHelloDatagram, flightDatagram])).any
      (fun (r, _) => r.toOption.any fun client => client.peerRecordLimit = none) = true := by
    decide +kernel
  obtain ⟨⟨r, t'⟩, hexec, hreturned⟩ := (Option.any_eq_true _ _).mp hreturns
  obtain ⟨client, hclient, hnone⟩ := (Option.any_eq_true _ _).mp hreturned
  obtain rfl := toOption_eq_some.mp hclient
  exact ⟨client, t', hexec, of_decide_eq_true hnone⟩

end Sample

theorem connect_sound_sample :
    ∃ (client : Established) (run : HandshakeRun Sample.dtlsConfig),
      run.Sound Sample.connectArgs (Sample.answering [sampleHelloDatagram, Sample.flightDatagram])
        client := by
  obtain ⟨client, t', hexec, -⟩ := Sample.answering_returns
  exact ⟨client, connect_sound hexec⟩

end KrabiTls.Dtls
