import KrabiTls.Dtls.Collecting

/-! The exchange of hellos with a server, with a `HelloRetryRequest` or without one. -/
namespace KrabiTls.Dtls
open Lib

variable {ε : Type} {cfg : DtlsConfig}

/-- The body of the `ClientHello`, with a cookie or without one. -/
def ConnectArgs.offered (args : ConnectArgs cfg) (pubKey : Block 32) (cookie : Option Bytes) : Bytes :=
  (helloMessage cfg.features args.clientRandom pubKey cfg.suite.id none cookie args.clientCid).body

theorem writeHsMsg_eq {outLen : Nat} (msgType : UInt8) (messageSeq : Nat) {body : Bytes}
    (hfits : hsHeaderLen + body.length ≤ outLen) (hlt : body.length < 2 ^ 24) :
    writeHsMsg (ε := ε) outLen msgType messageSeq body =
      .ok ((HandshakeHeader.fields ⟨msgType, body.length, messageSeq, 0, body.length⟩).flatten ++ body) := by
  have hheader : HandshakeHeader.write ⟨msgType, body.length, messageSeq, 0, body.length⟩ outLen =
      .ok (HandshakeHeader.fields ⟨msgType, body.length, messageSeq, 0, body.length⟩).flatten := by
    rw [HandshakeHeader.write_eq]
    simp only [bind_eq_ok, ensure_eq_ok]
    exact ⟨(), by omega, (), by omega, (), by omega, (), by omega, trivial⟩
  exact bind_eq_ok.mpr ⟨_, mapError_eq_ok.mpr hheader, bind_eq_ok.mpr ⟨(), ensure_eq_ok.mpr hfits, rfl⟩⟩

theorem PlaintextRecord.write_of_fits (rec : PlaintextRecord) {outLen : Nat}
    (hshort : rec.fragment.length ≤ 0xFFFF) (hroom : plaintextHeaderLen + rec.fragment.length ≤ outLen) :
    rec.write outLen = .ok rec.fields.flatten := by
  rw [write_eq]
  exact bind_eq_ok.mpr ⟨(), ensure_eq_ok.mpr hshort, bind_eq_ok.mpr ⟨(), ensure_eq_ok.mpr hroom, rfl⟩⟩

section Offer
variable {args : ConnectArgs cfg} (hcid : ∀ cid ∈ args.clientCid, cid.length ≤ maxCidLen)
  (pubKey : Block 32) {cookie : Option Bytes} (hcookie : ∀ value ∈ cookie, value.length ≤ 256)
include hcid hcookie

theorem offered_length : (args.offered pubKey cookie).length ≤ 512 := by
  have hblock : (helloMessage cfg.features args.clientRandom pubKey cfg.suite.id none cookie
      args.clientCid).block.length ≤ 364 :=
    helloMessage_block_length cfg.features args.clientRandom pubKey none hcookie hcid
  have hfront : (helloMessage cfg.features args.clientRandom pubKey cfg.suite.id none cookie
      args.clientCid).front.length = 42 := by
    simp [HelloFields.front, helloMessage, args.clientRandom.property, codePoints, prefixed_length]
  rw [ConnectArgs.offered, HelloFields.body, List.length_append, prefixed_length, hfront]
  omega

theorem clientHello_eq : clientHello (ε := ε) args pubKey cookie = .ok (args.offered pubKey cookie) := by
  have hlen := offered_length hcid pubKey hcookie
  have hshort : args.clientCid.all (·.length ≤ maxCidLen) = true := by
    cases hargs : args.clientCid with
    | none => rfl
    | some cid => exact decide_eq_true (hcid cid hargs)
  have hroom : (args.offered pubKey cookie).length ≤ (Block.zeros 512).val.length := by
    rw [(Block.zeros 512).property]
    exact hlen
  have hwrite : writeClientHello cfg.features args.clientRandom pubKey cfg.suite.id none cookie
      args.clientCid (Block.zeros 512).val = .ok ((args.offered pubKey cookie).length,
        args.offered pubKey cookie ++ (Block.zeros 512).val.drop (args.offered pubKey cookie).length) := by
    rw [writeClientHello_eq]
    exact (if_pos hshort).trans (if_pos hroom)
  refine bind_eq_ok.mpr ⟨_, mapError_eq_ok.mpr hwrite, ?_⟩
  exact congrArg Except.ok List.take_left

theorem buildClientHelloRecord_isOk (messageSeq recordSeq : Nat) : ∃ record, buildClientHelloRecord (ε := ε)
    (args.offered pubKey cookie) messageSeq recordSeq chDgramLen = .ok record := by
  have hlen := offered_length hcid pubKey hcookie
  have hmsg := writeHsMsg_eq (ε := ε) hsClientHello messageSeq
    (Nat.add_le_add_left hlen hsHeaderLen) (by omega)
  generalize hout : (HandshakeHeader.fields _).flatten ++ args.offered pubKey cookie = msg at hmsg
  have hmsgLen : msg.length ≤ hsHeaderLen + 512 := by
    rw [← hout, List.length_append, HandshakeHeader.fields_length]
    exact Nat.add_le_add_left hlen hsHeaderLen
  have hwrite := PlaintextRecord.write_of_fits ⟨ctHandshake, 0, recordSeq, msg⟩
    (Nat.le_trans hmsgLen (by decide))
    (show plaintextHeaderLen + msg.length ≤ chDgramLen from
      Nat.le_trans (Nat.add_le_add_left hmsgLen _) (by decide))
  exact ⟨_, bind_eq_ok.mpr ⟨msg, hmsg, mapError_eq_ok.mpr hwrite⟩⟩

end Offer

/-- The connection id on the records to one side: the one this side wants, if both use ids and it is
not empty. -/
def agreedCid (wanted other : Option Bytes) : Option Bytes :=
  match wanted, other with
  | some cid, some _ => if cid = [] then none else some cid
  | _, _ => none

theorem cidLength_agreedCid (cid other : Bytes) : cidLength (agreedCid (some cid) (some other)) = cid.length := by
  unfold agreedCid
  dsimp only
  split
  · rename_i hcid
    rw [hcid]
    rfl
  · rfl

theorem negotiateCid_eq (clientCid : Option Bytes) {serverCid : Option Bytes}
    (h : ∀ cid ∈ serverCid, cid.length ≤ maxCidLen) :
    ∃ sendCid sendCidLen, negotiateCid (ε := ε) clientCid serverCid =
        .ok (cidLength (agreedCid clientCid serverCid), sendCid, sendCidLen) ∧
      (if sendCidLen > 0 then some (sendCid.val.take sendCidLen) else none) =
        agreedCid serverCid clientCid := by
  cases clientCid with
  | none =>
    have hnone : agreedCid serverCid none = none := by cases serverCid <;> rfl
    exact ⟨Block.zeros 20, 0, rfl, hnone.symm⟩
  | some ours =>
    cases serverCid with
    | none => exact ⟨Block.zeros 20, 0, rfl, rfl⟩
    | some theirs =>
      have hlen : theirs.length ≤ maxCidLen := h theirs rfl
      have hfront := Block.slice_overwrite_front (Block.zeros 20) hlen
      refine ⟨(Block.zeros 20).overwrite 0 theirs, theirs.length, ?_, ?_⟩
      · rw [cidLength_agreedCid]
        exact bind_eq_ok.mpr ⟨(), ensure_eq_ok.mpr hlen, rfl⟩
      · rw [take_eq_slice, hfront]
        cases theirs with
        | nil => rfl
        | cons x xs => exact if_pos (Nat.zero_lt_succ _)

/-- What the client asks of the hellos. -/
structure Server.Answers (s : Server) (args : ConnectArgs cfg) : Prop where
  clientCid : ∀ cid ∈ args.clientCid, cid.length ≤ maxCidLen
  cid : ∀ cid ∈ s.cid, cid.length ≤ maxCidLen
  hello : s.hello.Says { keyShare := some s.share, serverCid := s.cid }
  random : s.hello.random.val ≠ hrrRandom
  suite : ofBe s.hello.suite.val = cfg.suite.id
  retry : ∀ retry ∈ s.retry, retry.hello.Says { cookie := some retry.cookie.val } ∧
    retry.hello.random.val = hrrRandom ∧ ofBe retry.hello.suite.val = cfg.suite.id

/-- The hello is handed out, at the front of a datagram, after fewer timeouts than there are
attempts. -/
def StrictHello.Comes (msg : StrictHello) (trailing : Bytes) (recvs : List (Except ε (Option Datagram))) :
    Prop :=
  ∃ timeouts < maxFlightAttempts, ∃ datagram : Datagram, datagram.val = msg.encode ++ trailing ∧
    recvs = List.replicate timeouts (.ok none) ++ [.ok (some datagram)]

/-- The hellos of the server are handed out, the last one in front of `trailing`. -/
def Server.Greets (s : Server) (trailing : Bytes) (recvs : List (Except ε (Option Datagram))) : Prop :=
  match s.retry with
  | none => s.hello.Comes trailing recvs
  | some retry => ∃ ignored first second, recvs = first ++ second ∧ retry.hello.Comes ignored first ∧
      s.hello.Comes trailing second

/-- The number of the client's `Finished`, behind one hello or two. -/
def Server.finishedSeq (s : Server) : Nat := if s.retry.isSome then 2 else 1

/-- What the exchange of hellos leaves. -/
structure Greeted (s : Server) (hellos trailing : Bytes) (x : HelloExchange) : Prop where
  reply : x.reply.val = s.hello.encode ++ trailing
  transcript : x.transcript.update (hsMessage hsServerHello s.hello.body) = ⟨hellos⟩
  messageSeq : x.clientFinMsgSeq = s.finishedSeq

section Exchange
variable {s : Server} {args : ConnectArgs cfg} {trailing hellos : Bytes}
  {recvs later : List (Except ε (Option Datagram))} {n : Nat} {t : DatagramTransport ε}

theorem sendFlightAwaitReply_comes {msg : StrictHello} (flight : Bytes) (hcomes : msg.Comes trailing recvs)
    (hwilling : t.Willing (maxFlightAttempts + n)) (hrecvs : t.recvs = recvs ++ later) :
    ∃ reply t', (sendFlightAwaitReply flight maxFlightAttempts).exec t = some (.ok reply, t') ∧
      reply.val = msg.encode ++ trailing ∧ t'.Willing n ∧ t'.recvs = later := by
  obtain ⟨timeouts, hfew, reply, hreply, rfl⟩ := hcomes
  rw [List.append_assoc] at hrecvs
  obtain ⟨t', hexec, hwilling', hrecvs'⟩ := sendFlightAwaitReply_exec flight hfew
    (hwilling.mono (show timeouts + 1 + n ≤ maxFlightAttempts + n by omega)) hrecvs
  exact ⟨reply, t', hexec, hreply, hwilling', hrecvs'⟩

theorem helloExchange_exec (hanswers : s.Answers args) {pubKey : Block 32}
    (hhellos : s.hellos cfg (args.offered pubKey) = some hellos) (hgreets : s.Greets trailing recvs)
    (hwilling : t.Willing (2 * maxFlightAttempts + n)) (hrecvs : t.recvs = recvs ++ later) :
    ∃ x t', (helloExchange args pubKey).exec t = some (.ok x, t') ∧ Greeted s hellos trailing x ∧
      t'.Willing n ∧ t'.recvs = later := by
  have hcid := hanswers.clientCid
  have hnone : ∀ value ∈ (none : Option Bytes), value.length ≤ 256 := by simp
  obtain ⟨ch1Rec, hch1⟩ := buildClientHelloRecord_isOk (ε := ε) hcid pubKey hnone 0 0
  cases hretry : s.retry with
  | none =>
    simp only [Server.Greets, hretry] at hgreets
    simp only [Server.hellos, hretry, Option.some.injEq] at hhellos
    obtain ⟨reply, t₁, hexec, hreply, hwilling₁, hrecvs₁⟩ := sendFlightAwaitReply_comes ch1Rec hgreets
      (hwilling.mono (show maxFlightAttempts + n ≤ 2 * maxFlightAttempts + n by omega)) hrecvs
    have hkind := hanswers.hello.parseServerHello
    rw [if_neg hanswers.random] at hkind
    refine ⟨⟨TranscriptHash.new.update (hsMessage hsClientHello (args.offered pubKey none)), reply, ch1Rec, 1⟩,
      t₁, ?_, ⟨hreply, ?_, ?_⟩, hwilling₁, hrecvs₁⟩
    · refine Program.exec_bind_eq_ok.mpr
        ⟨_, t, Program.exec_ofExcept_eq_ok.mpr ⟨clientHello_eq hcid pubKey hnone, rfl⟩, ?_⟩
      refine Program.exec_bind_eq_ok.mpr ⟨_, t, Program.exec_ofExcept_eq_ok.mpr ⟨hch1, rfl⟩, ?_⟩
      refine Program.exec_bind_eq_ok.mpr ⟨_, t₁, hexec, ?_⟩
      rw [hreply, s.hello.parseHelloBody_encode]
      refine Program.exec_bind_eq_ok.mpr ⟨_, t₁, Program.exec_ofExcept_eq_ok.mpr ⟨rfl, rfl⟩, ?_⟩
      exact Program.exec_bind_eq_ok.mpr
        ⟨_, t₁, Program.exec_ofExcept_eq_ok.mpr ⟨mapError_eq_ok.mpr hkind, rfl⟩, rfl⟩
    · rw [← hhellos]
      simp [TranscriptHash.update, TranscriptHash.new]
    · simp [Server.finishedSeq, hretry]
  | some retry =>
    simp only [Server.Greets, hretry] at hgreets
    simp only [Server.hellos, hretry, Option.bind_eq_bind, Option.bind_eq_some_iff, toOption_eq_some,
      Option.pure_def, Option.some.injEq] at hhellos
    obtain ⟨ch1Hash, hch1Hash, hhellos⟩ := hhellos
    obtain ⟨ignored, first, second, rfl, hfirst, hsecond⟩ := hgreets
    obtain ⟨hsaid, hrandom, hsuite⟩ := hanswers.retry retry hretry
    rw [List.append_assoc] at hrecvs
    rw [Nat.two_mul, Nat.add_assoc] at hwilling
    obtain ⟨reply₁, t₁, hexec₁, hreply₁, hwilling₁, hrecvs₁⟩ :=
      sendFlightAwaitReply_comes ch1Rec hfirst hwilling hrecvs
    have hcookie : ∀ value ∈ some retry.cookie.val, value.length ≤ 256 := by
      rintro _ ⟨⟩
      exact retry.cookie.property
    obtain ⟨ch2Rec, hch2⟩ := buildClientHelloRecord_isOk (ε := ε) hcid pubKey hcookie 1 1
    obtain ⟨reply, t₂, hexec, hreply, hwilling₂, hrecvs₂⟩ :=
      sendFlightAwaitReply_comes ch2Rec hsecond hwilling₁ hrecvs₁
    have hkind := hsaid.parseServerHello
    rw [if_pos hrandom] at hkind
    let transcript := ((TranscriptHash.new.update hrrMessageHashHeader).update ch1Hash.val).update
      (hsMessage hsServerHello retry.hello.body)
    refine ⟨⟨transcript.update (hsMessage hsClientHello (args.offered pubKey (some retry.cookie.val))),
      reply, ch2Rec, 2⟩, t₂, ?_, ⟨hreply, ?_, ?_⟩, hwilling₂, hrecvs₂⟩
    · refine Program.exec_bind_eq_ok.mpr
        ⟨_, t, Program.exec_ofExcept_eq_ok.mpr ⟨clientHello_eq hcid pubKey hnone, rfl⟩, ?_⟩
      refine Program.exec_bind_eq_ok.mpr ⟨_, t, Program.exec_ofExcept_eq_ok.mpr ⟨hch1, rfl⟩, ?_⟩
      refine Program.exec_bind_eq_ok.mpr ⟨_, t₁, hexec₁, ?_⟩
      rw [hreply₁, retry.hello.parseHelloBody_encode]
      refine Program.exec_bind_eq_ok.mpr ⟨_, t₁, Program.exec_ofExcept_eq_ok.mpr ⟨rfl, rfl⟩, ?_⟩
      refine Program.exec_bind_eq_ok.mpr
        ⟨_, t₁, Program.exec_ofExcept_eq_ok.mpr ⟨mapError_eq_ok.mpr hkind, rfl⟩, ?_⟩
      refine Program.exec_bind_eq_ok.mpr
        ⟨(), t₁, Program.exec_ofExcept_eq_ok.mpr ⟨ensure_eq_ok.mpr hsuite, rfl⟩, ?_⟩
      refine Program.exec_bind_eq_ok.mpr
        ⟨(), t₁, Program.exec_ofExcept_eq_ok.mpr ⟨ensure_eq_ok.mpr retry.cookie.property, rfl⟩, ?_⟩
      refine Program.exec_bind_eq_ok.mpr ⟨ch1Hash, t₁, Program.exec_ofExcept_eq_ok.mpr
        ⟨mapError_eq_ok.mpr (mapError_eq_ok.mpr hch1Hash), rfl⟩, ?_⟩
      refine Program.exec_bind_eq_ok.mpr
        ⟨_, t₁, Program.exec_ofExcept_eq_ok.mpr ⟨clientHello_eq hcid pubKey hcookie, rfl⟩, ?_⟩
      refine Program.exec_bind_eq_ok.mpr ⟨_, t₁, Program.exec_ofExcept_eq_ok.mpr ⟨hch2, rfl⟩, ?_⟩
      exact Program.exec_bind_eq_ok.mpr ⟨_, t₂, hexec, rfl⟩
    · rw [← hhellos]
      simp [transcript, TranscriptHash.update, TranscriptHash.new]
    · simp [Server.finishedSeq, hretry]

/-- What `connect` goes on with after the `ServerHello`. -/
structure HelloRead (s : Server) (args : ConnectArgs cfg) (hellos trailing : Bytes) (sh : ServerHelloRead) :
    Prop where
  transcript : sh.transcript = ⟨hellos⟩
  share : sh.share = s.share
  baseSeq : sh.baseSeq = ofBe s.hello.messageSeq.val + 1
  recvCidLen : sh.recvCidLen = cidLength (agreedCid args.clientCid s.cid)
  cid : sh.cid = agreedCid s.cid args.clientCid
  trailing : sh.trailing = trailing

theorem readServerHello_greeted (hanswers : s.Answers args) {x : HelloExchange}
    (h : Greeted s hellos trailing x) :
    ∃ sh, readServerHello (ε := ε) args x = .ok sh ∧ HelloRead s args hellos trailing sh := by
  have hkind := hanswers.hello.parseServerHello
  rw [if_neg hanswers.random] at hkind
  obtain ⟨sendCid, sendCidLen, hnegotiate, hsendCid⟩ :=
    negotiateCid_eq (ε := ε) args.clientCid hanswers.cid
  have hbase : (ofBe s.hello.messageSeq.val + 1) % 2 ^ 16 = ofBe s.hello.messageSeq.val + 1 := by
    have hlt := s.seq_lt
    exact Nat.mod_eq_of_lt (by omega)
  refine ⟨⟨⟨hellos⟩, s.share, ofBe s.hello.messageSeq.val + 1, cidLength (agreedCid args.clientCid s.cid),
    sendCid, sendCidLen, trailing⟩, ?_, ⟨rfl, rfl, rfl, rfl, hsendCid, rfl⟩⟩
  unfold readServerHello
  rw [h.reply]
  refine bind_eq_ok.mpr ⟨_, s.hello.parseHelloBody_encode trailing, ?_⟩
  refine bind_eq_ok.mpr ⟨_, mapError_eq_ok.mpr hkind, ?_⟩
  refine bind_eq_ok.mpr ⟨(), ensure_eq_ok.mpr hanswers.suite, ?_⟩
  refine bind_eq_ok.mpr ⟨_, hnegotiate, ?_⟩
  rw [h.transcript, hbase, List.length_append, Nat.add_sub_cancel, List.drop_left]
  rfl

end Exchange

end KrabiTls.Dtls
