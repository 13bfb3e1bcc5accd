import KrabiTls.Link.Handshake

/-! The client against a server that follows the protocol: whatever such a server chooses, and however
its bytes are cut into records and the records into reads, the handshake comes through. -/
namespace KrabiTls
open Lib

namespace Core
variable {cfg : ClientConfig} {sz : Sizes} {c : Core cfg sz}

def handshakeLog (c : Core cfg sz) : List SealedRecord :=
  c.history.sealed.filterMap fun s => if s.1 = .handshake then some s.2 else none

theorem sealRecord_handshakeLog {conn conn' : AppData} {content record : Bytes} {ct : UInt8}
    {c' : Core cfg sz} (h : c.sealRecord conn content ct = (.ok (record, conn'), c')) :
    c'.handshakeLog = c.handshakeLog := by
  obtain ⟨-, -, rfl⟩ := sealRecord_eq_ok c h
  simp [handshakeLog]

/-- No step of the data phase seals under the handshake keys. -/
theorem Step.handshakeLog {c' : Core cfg sz} (h : Step .step c c') :
    c'.handshakeLog = c.handshakeLog := by
  cases h with
  | answerFailed _ _ hseal | answered _ _ hseal =>
    have hlog := sealRecord_handshakeLog hseal
    exact hlog
  | _ => rfl

theorem dispatchDataRecord_handshakeLog (hidle : c.Idle) (ct : UInt8) (record : Bytes) :
    (c.dispatchDataRecord ct record).core.handshakeLog = c.handshakeLog :=
  invariant_of_steps (fun c' => c'.handshakeLog = c.handshakeLog)
    (fun _ _ h hstep => hstep.handshakeLog.trans h) (dispatchDataRecord_steps hidle ct record) rfl

end Core

namespace Session
variable {cfg : ClientConfig} {sz : Sizes} {params : ClientParams cfg} {s : Session cfg sz}

variable (params) in
/-- A session that has something to send goes on as one that has not. -/
theorem run_idle (hwf : s.core.SendWf) (hopen : s.core.closed = false) :
    ∃ c, s.run params = { s with core := c }.run params ∧ c.Idle ∧ c.SendWf ∧ c.state = s.core.state ∧
      c.ph = s.core.ph ∧ c.ourRecvLimit = s.core.ourRecvLimit ∧
      c.history = { s.core.history with acked := c.history.acked } := by
  cases hpending : s.core.isSendPending with
  | false => exact ⟨s.core, rfl, ⟨hpending, hopen⟩, hwf, rfl, rfl, rfl, rfl⟩
  | true =>
    have hsettle := Core.settle_eq hpending
    refine ⟨s.core.settle, run_settle hpending, ⟨Core.settle_not_pending hpending, ?_⟩, ?_, ?_⟩ <;>
      rw [hsettle]
    · exact hopen
    · exact ⟨Nat.le_refl _, Nat.zero_le _⟩
    · exact ⟨rfl, rfl, rfl, rfl⟩

end Session

namespace UpdateScan

theorem foldl_next_interleaved (log : List OpenedRecord) {s : UpdateScan} (h : s.interleaved = true) :
    (log.foldl next s).interleaved = true := by
  induction log generalizing s with
  | nil => exact h
  | cons r log ih =>
    refine ih ?_
    unfold next
    split
    · dsimp only
      split <;> exact h
    · simp [h]

end UpdateScan

/-- What has become of a client once it has taken the records `log` of the peer. -/
structure Core.TakesAll {cfg : ClientConfig} {sz : Sizes} (c : Core cfg sz) (conn : AppData)
    (log : List OpenedRecord) (half : Half) (answers : Nat) (c' : Core cfg sz) (conn' : AppData) :
    Prop where
  state : c'.state = .app conn'
  recv : c'.recvHalf conn' = half
  opened : c'.history.opened = c.history.opened ++ log
  handshakeLog : c'.handshakeLog = c.handshakeLog
  sent : ∃ sent, c'.sentLog = c.sentLog ++ sent ∧ sent.length = answers ∧
    Emits (Up cfg) (c.sendHalf conn) sent (c'.sendHalf conn')

namespace Session
variable {cfg : ClientConfig} {sz : Sizes} {params : ClientParams cfg}

variable (params) in
/-- The records of the data phase are taken one by one, each under the keys and the number it was
sealed with. -/
theorem run_data (hcorrect : cfg.aead.Correct) (htotal : cfg.aead.Total) (hhkdf : cfg.hkdf.Total)
    (hsend : 27 ≤ sz.send) {limit : RecordSizeLimit} (hrecv : (limit : Nat) + recordOverhead ≤ sz.recv)
    {state final : Half × Bool × Nat} {log : List OpenedRecord}
    (hemits : Emits (Down cfg limit) state log final) {s : Session cfg sz} {conn : AppData}
    {scan : UpdateScan} (hphase : s.dataPhase = true) (hstate : s.core.state = .app conn)
    (hopen : s.core.closed = false) (hwf : s.core.SendWf) (hlimit : s.core.ourRecvLimit = limit)
    (hhalf : s.core.recvHalf conn = state.1)
    (hph : s.core.ph = ⟨(AppData.keyUpdateMsg state.2.1).take state.2.2, 0⟩) (hstaged : state.2.2 < 5)
    (hscan : scan.staged = s.core.ph.stage) (hinput : s.input = log.flatMap OpenedRecord.record)
    (hfresh : (log.foldl UpdateScan.next scan).interleaved = false) :
    ∃ c conn' delivered answers, s.run params = ⟨true, c, delivered, .ok .recv⟩ ∧
      (log.foldl UpdateScan.next scan).requests = scan.requests + answers ∧
      s.core.TakesAll conn log final.1 answers c conn' := by
  induction hemits generalizing s conn scan with
  | nil state =>
    obtain ⟨c, hrun, hidle, -, hstate', -, -, hhistory⟩ := run_idle params hwf hopen
    have hneed : frame sz.recv s.input = .need := by rw [hinput]; rfl
    have hover : handshakeOver s.dataPhase c = false := by simp [handshakeOver, hphase]
    refine ⟨c, conn, s.delivered, 0, ?_, rfl, hstate'.trans hstate, ?_, ?_, ?_, [], ?_, rfl, ?_⟩
    · rw [hrun, run_need (s := { s with core := c }) hidle hover hneed, hphase]
    · rw [← hhalf, Core.recvHalf, hhistory]
      rfl
    · rw [hhistory, List.append_nil]
    · rw [Core.handshakeLog, hhistory]
      rfl
    · rw [Core.sentLog, hhistory, List.append_nil]
      rfl
    · rw [Core.sendHalf, Core.sendHalf, hhistory]
      exact .nil _
  | @cons state next final r log hdown hemits ih =>
    obtain ⟨c, hrun, hidle, hwf', hstate', hph', hlimit', hhistory⟩ :=
      run_idle params hwf hopen
    obtain ⟨half, requested, staged⟩ := state
    have hover : handshakeOver s.dataPhase c = false := by simp [handshakeOver, hphase]
    have hsame : c.recvHalf conn = half := by
      rw [← show s.core.recvHalf conn = half from hhalf, Core.recvHalf, hhistory]
      rfl
    subst hsame
    have hlimit₁ : c.ourRecvLimit = limit := hlimit'.trans hlimit
    rw [← hlimit₁] at hdown
    obtain ⟨hsealed, hlen⟩ := hdown.sealed c.ourRecvLimit.property.1
    obtain ⟨hrecordLen, -⟩ := hsealed.record_length
    simp only [recordOverhead, tlsHeader, aeadTagLen] at hrecv
    rw [List.flatMap_cons] at hinput
    have hframe : frame sz.recv s.input = .record r.record (log.flatMap OpenedRecord.record) := by
      rw [hinput]
      exact hsealed.frame (by rw [hlimit₁] at hlen; omega) _
    have hhead := hsealed.headD []
    rw [List.append_nil] at hhead
    obtain ⟨conn', sent, refused, -, htakes, hresult⟩ := Core.dispatchDataRecord_down
      (hph'.trans hph) hcorrect htotal hhkdf hsend (hstate'.trans hstate) hidle.not_pending hwf' hstaged
      hdown
    have hnext := htakes.scan scan (by rw [hscan, hph'])
    rw [List.foldl_cons] at hfresh ⊢
    have hkeep : refused = false := by
      by_contra hrefused
      have hbad := UpdateScan.foldl_next_interleaved log (s := scan.next r)
        (by rw [hnext]; simp [hrefused])
      rw [hfresh] at hbad
      cases hbad
    subst hkeep
    obtain ⟨parked, hparked⟩ := hresult
    have hhandle : handle params s.dataPhase c r.record =
        (.ok parked, (c.dispatchDataRecord ctApplicationData r.record).core) := by
      simp only [handle, hphase, if_true, hhead, hparked]
    have hlog := Core.dispatchDataRecord_handshakeLog hidle ctApplicationData r.record
    generalize (c.dispatchDataRecord ctApplicationData r.record).core = c'
      at htakes hhandle hlog hnext
    obtain ⟨c'', conn'', delivered, answers, hrun', hrequests, hall⟩ := ih
      (s := { s with
        core := c', input := log.flatMap OpenedRecord.record, delivered := s.delivered ++ parked })
      hphase htakes.state (htakes.closed.trans (by rw [hidle.not_closed]; rfl)) htakes.sends.sendWf
      (htakes.limit.trans hlimit₁) htakes.recv htakes.ph htakes.staged (by rw [hnext]) rfl hfresh
    obtain ⟨sent', hsent', hanswers, hup⟩ := hall.sent
    refine ⟨c'', conn'', delivered, sent.length + answers, ?_, ?_, hall.state, hall.recv, ?_, ?_,
      sent ++ sent', ?_, ?_, ?_⟩
    · rw [hrun, Session.run_record (s := { s with core := c }) hidle hover hframe hhandle]
      exact hrun'
    · rw [hrequests, hnext, Nat.add_assoc]
    · rw [hall.opened, htakes.opened, hhistory, List.append_assoc]
      rfl
    · rw [hall.handshakeLog, hlog, Core.handshakeLog, hhistory]
      rfl
    · rw [hsent', htakes.sends.log, Core.sentLog, hhistory, List.append_assoc]
      rfl
    · rw [List.length_append, hanswers]
    · have hhalf' : c.sendHalf conn = s.core.sendHalf conn := by
        rw [Core.sendHalf, hhistory]
        rfl
      rw [← hhalf']
      exact htakes.sends.emits.append hup

end Session

namespace Peer
variable {cfg : ClientConfig} {limit : Nat} {p : Peer}

variable (cfg limit) in
theorem emitAll_emits (hstaged : p.staged < 5) (sends : List PeerSend) :
    let after := (p.emitAll cfg limit sends).2
    ∃ log, (p.emitAll cfg limit sends).1 = log.flatMap OpenedRecord.record ∧
      Emits (Down cfg limit) (p.send, p.requested, p.staged) log
        (after.send, after.requested, after.staged) ∧
      after = { p with
        send := after.send, requested := after.requested, staged := after.staged
        sealed := p.sealed ++ log } := by
  induction sends generalizing p with
  | nil => exact ⟨[], rfl, .nil _, by rw [List.append_nil]; rfl⟩
  | cons s sends ih =>
    unfold emitAll
    split
    · exact ih hstaged
    · rename_i r p' hemit
      obtain ⟨state, rfl, hstaged', hdown⟩ := emit_eq_ok hstaged hemit
      obtain ⟨log, hbytes, hemits, hafter⟩ := ih (p := p.logged r state) hstaged'
      refine ⟨r :: log, by rw [hbytes, List.flatMap_cons], .cons hdown hemits, ?_⟩
      dsimp only at hafter ⊢
      rw [hafter]
      simp [logged]

/-- What moved the client's direction on, record by record, moves the peer's end of it on, too. -/
theorem takeAll_eq (hcorrect : cfg.aead.Correct) {sent : List OpenedRecord} {recv : Half}
    (h : Emits (Up cfg) p.recv sent recv) :
    p.takeAll cfg (sent.map OpenedRecord.record) = { p with recv, opened := p.opened ++ sent } := by
  generalize hstart : p.recv = start at h
  induction h generalizing p with
  | nil => rw [← hstart, List.append_nil]; rfl
  | @cons _ next _ r sent hup _ ih =>
    subst hstart
    rw [List.map_cons, takeAll, List.foldl_cons, take_eq hcorrect hup]
    refine (ih (p := { p with recv := next, opened := p.opened ++ [r] }) rfl).trans ?_
    rw [List.append_assoc, List.singleton_append]

end Peer

namespace Negotiated
variable (n : Negotiated)

def peer : Peer := { send := n.send, recv := n.recv }

/-- The keys for the client's `Finished`. -/
def finishedHalf : Half := ⟨n.send.suite, n.cHsTs, n.cHsKeys, 0, 0⟩

/-- The two ends of a connection agree, when nothing is on its way: the client has opened what the
server sealed and has its keys, the server opens the `Finished` it expects and every answer, and has
the client's keys then. -/
structure Agrees {cfg : ClientConfig} {sz : Sizes} (n : Negotiated) (peer : Peer) (c : Core cfg sz)
    (conn : AppData) : Prop where
  state : c.state = .app conn
  opened : c.history.opened = peer.sealed
  recv : c.recvHalf conn = peer.send
  finished : ∃ r, c.handshakeLog = [r] ∧ n.finishedHalf.openRecord cfg r.record =
    .ok ⟨0, 0, r.record, (Credentials.finished n.clientFinished).encode, ctHandshake⟩
  taken : peer.takeAll cfg (c.sentLog.map OpenedRecord.record) =
    { peer with recv := c.sendHalf conn, opened := c.sentLog }
  answered : c.sentLog.length = (UpdateScan.of peer.sealed).requests

end Negotiated

/-- The buffers have room for the server's hello and flight, for records at the advertised limit and
for the records the engine makes by itself. -/
structure Sizes.Admits (sz : Sizes) (server : Server) (n : Negotiated) (limit : RecordSizeLimit) :
    Prop where
  hello : server.hello.record.length ≤ sz.recv
  flight : (n.messages.flatMap Message.encode).length ≤ sz.flight
  recv : (limit : Nat) + recordOverhead ≤ sz.recv
  send : minSendStandard ≤ sz.send

namespace Driver
variable {cfg : ClientConfig} {sz : Sizes}

/-- With a server that follows the protocol, every way to drive the engine comes through the handshake
and takes all that the server sends, and the two ends agree. -/
theorem drive_server_completes (first : WaitServerHello cfg) (params : ClientParams cfg)
    (sendRecord : Block sz.send) (recvRecord : Block sz.recv) (ourRecvLimit peerRecvLimit : RecordSizeLimit)
    (server : Server) (n : Negotiated) (parts : List FlightPart) (flight : Bytes) (sends : List PeerSend)
    (hcorrect : cfg.aead.Correct) (htotal : cfg.aead.Total) (hhkdf : cfg.hkdf.Total)
    (hno : params.clientAuth.acceptCertRequest = false)
    (hsuits : server.Suits first params sz.maxChain)
    (hnegotiate : server.negotiate cfg first.transcript.fed = some n)
    (hcuts : FlightPart.Cuts parts n.messages ourRecvLimit)
    (hseal : FlightPart.sealAll cfg.aead n.sHsKeys 0 parts = some flight)
    (hadmits : sz.Admits server n ourRecvLimit)
    (hscan : (UpdateScan.of (n.peer.emitAll cfg ourRecvLimit sends).2.sealed).interleaved = false) :
    let peer := (n.peer.emitAll cfg ourRecvLimit sends).2
    let d := start first sendRecord recvRecord ourRecvLimit peerRecvLimit
      (server.hello.record ++ (flight ++ (n.peer.emitAll cfg ourRecvLimit sends).1))
    ∃ (core : Core cfg sz) (conn : AppData) (calls : Nat), n.Agrees peer core conn ∧
      ∀ choices : List Nat, calls ≤ choices.length → (d.drive params choices).finished = true ∧
        (d.drive params choices).outcome =
          ⟨true, core, Core.appContents peer.sealed, .ok .recv⟩ := by
  intro peer d
  have hn := Server.negotiate_derives hnegotiate
  obtain ⟨log, hbytes, hemits, hpeer⟩ := Peer.emitAll_emits cfg ourRecvLimit
    (p := n.peer) (Nat.zero_lt_succ 4) sends
  have hlog : peer.sealed = log := by rw [show peer = _ from hpeer]; rfl
  have hinv : d.Inv := ⟨⟨⟨Nat.le_refl _, Nat.le_refl _, Nat.le_refl _, Nat.zero_le _⟩,
    ⟨Nat.le_refl _, Nat.zero_le _⟩⟩, by simp [d, start]⟩
  have hsession : d.session = ⟨false, d.engine.core, server.hello.record ++ (flight ++
      log.flatMap OpenedRecord.record), []⟩ := by
    simp [d, start, session, Engine.session, Engine.new, Engine.parked, Engine.buffered, slice_self, hbytes]
  obtain ⟨c, finished, hfinished, hestablished, hrun⟩ := Session.run_handshake (s := d.session) hcorrect
    htotal hn hsuits hcuts hadmits.hello hadmits.flight hadmits.recv hadmits.send
    ⟨rfl, ⟨rfl, rfl⟩, rfl⟩ rfl rfl rfl rfl hseal (by rw [hsession])
  have hhalves : c.recvHalf n.appData = n.send ∧ c.sendHalf n.appData = n.recv := by
    obtain ⟨hrecvGen, hsendGen⟩ := hestablished.gens
    have hsuite : n.send.suite = server.suite := by rw [hn.send]
    rw [Core.recvHalf, Core.sendHalf, hrecvGen, hsendGen, hn.send, hn.recv]
    simp [Negotiated.appData, hsuite]
  have hfresh : (log.foldl UpdateScan.next {}).interleaved = false := by rwa [← hlog]
  obtain ⟨core, conn, delivered, answers, hrun', hrequests, hall⟩ := Session.run_data params
    hcorrect htotal hhkdf (Nat.le_trans (by decide) hadmits.send) hadmits.recv hemits
    (s := { d.session with dataPhase := true, core := c, input := log.flatMap OpenedRecord.record })
    rfl hestablished.state hestablished.idle.not_closed hestablished.sendWf
    hestablished.limit hhalves.1 hestablished.ph (Nat.zero_lt_succ 4)
    (congrArg PostHandshakeReasm.stage hestablished.ph).symm rfl hfresh
  have hvalue : d.value params = ⟨true, core, delivered, .ok .recv⟩ := hrun.trans hrun'
  obtain ⟨sent, hsent, hanswers, hup⟩ := hall.sent
  have hnone : c.sentLog = [] := by rw [Core.sentLog, hestablished.sealed]; rfl
  rw [hnone, List.nil_append] at hsent
  have hopened : core.history.opened = peer.sealed := by
    rw [hall.opened, hestablished.opened, List.nil_append, hlog]
  have hdelivered : delivered = Core.appContents peer.sealed := by
    have hdelivers : (d.session.run params).Delivers := Session.run_delivers (by rw [hsession]; rfl)
    rw [show d.session.run params = _ from hvalue] at hdelivers
    rcases hdelivers with hdelivers | ⟨herror, -⟩
    · rw [← hopened]
      exact hdelivers
    · cases herror
  refine ⟨core, conn, d.fuel + 1, ⟨hall.state, hopened, hall.recv, ?_, ?_, ?_⟩, ?_⟩
  · have hsealed : n.finishedHalf.Sealed cfg ⟨0, 0, finished, (Credentials.finished n.clientFinished).encode,
        ctHandshake⟩ := ⟨rfl, rfl, _, hfinished⟩
    have hct : ctHandshake ≠ 0 := by decide
    refine ⟨⟨0, ctHandshake, (Credentials.finished n.clientFinished).encode, finished⟩, ?_,
      hsealed.openRecord_eq hcorrect hct⟩
    rw [hall.handshakeLog, Core.handshakeLog, hestablished.sealed]
    rfl
  · have hrecv : peer.recv = n.recv ∧ peer.opened = [] := by rw [show peer = _ from hpeer]; exact ⟨rfl, rfl⟩
    rw [hhalves.2, ← hrecv.1] at hup
    rw [hsent, Peer.takeAll_eq hcorrect hup, hrecv.2, List.nil_append]
  · rw [hsent, hanswers, hlog]
    exact (Nat.zero_add _).symm.trans hrequests.symm
  · intro choices hcalls
    have hcapacity : tlsHeader ≤ sz.recv := by
      have := hadmits.recv
      simp only [recordOverhead] at this
      omega
    obtain ⟨hinv', hvalue', hfuel⟩ := drive_inv params hno hcapacity hinv choices
    have hfin := hfuel.resolve_right (by omega)
    rw [outcome_eq_value hinv' hfin, hvalue', hvalue, hdelivered]
    exact ⟨hfin, rfl⟩

end Driver

namespace Sample

def server : Server where
  toCredentials := credentials
  hello := ⟨Block.zeros 32, [], cipherAes128GcmSha256, namedGroupX25519, List.replicate 32 9, false⟩
  suite := .aes128GcmSha256
  ikm := List.replicate 32 9

theorem server_authenticates : server.Authenticates .sample params.verifyChain (some params.hostname)
    (.ed25519 (leafDer.take 32)) leaf where
  trusted := rfl
  parsed := ⟨leafDer, rfl, certParser_leafDer⟩
  matched := by decide
  hostname := by simp only [Option.mem_some_iff, forall_eq']; decide
  signs := verifies_credentials _

theorem server_suits : server.Suits conn params sizes.maxChain where
  hello := ⟨by decide, by decide, by decide, by decide, .inl rfl, by decide⟩
  sessionId := rfl
  suite := by decide
  secret := rfl
  limits := ⟨none, ⟨rfl, nofun, rfl⟩, nofun⟩
  chain := by decide
  leaf := ⟨_, _, _, server_authenticates, rfl⟩

/-- The flight in two fragments, with padding and a `change_cipher_spec` between them. -/
def flightParts (n : Negotiated) : List FlightPart :=
  let bytes := n.messages.flatMap Message.encode
  [.fragment (bytes.take 100) 3, .changeCipherSpec, .fragment (bytes.drop 100) 0]

/-- A `KeyUpdate` in two fragments, which asks for an answer, and application data. -/
def dataSends : List PeerSend := [.fragment true 2, .fragment true 5, .app (ascii "hi")]

def serverSends (n : Negotiated) : Bytes × Peer :=
  n.peer.emitAll .sample (Engine.defaultOurRecvLimit sizes.recv) dataSends

/-- What the sample server needs to be true of what it derives. -/
def runsThrough (n : Negotiated) : Bool :=
  let len := (n.messages.flatMap Message.encode).length
  100 < len && len ≤ 500 && (FlightPart.sealAll .clear n.sHsKeys 0 (flightParts n)).isSome &&
    !(UpdateScan.of (serverSends n).2.sealed).interleaved &&
    Core.appContents (serverSends n).2.sealed = ascii "hi" &&
    (UpdateScan.of (serverSends n).2.sealed).requests = 1

theorem server_runsThrough :
    (server.negotiate .sample conn.transcript.fed).any runsThrough = true := by
  decide +kernel

theorem flightParts_cuts {n : Negotiated}
    (hlong : 100 < (n.messages.flatMap Message.encode).length)
    (hshort : (n.messages.flatMap Message.encode).length ≤ 500) :
    FlightPart.Cuts (flightParts n) n.messages (Engine.defaultOurRecvLimit sizes.recv) := by
  generalize hbytes : n.messages.flatMap Message.encode = bytes at hlong hshort
  have hlimit : (Engine.defaultOurRecvLimit sizes.recv : Nat) = 491 := by decide
  rw [flightParts, hbytes, hlimit]
  refine ⟨?_, ⟨[.fragment (bytes.take 100) 3, .changeCipherSpec], _, 0, rfl, ?_⟩, ?_⟩
  · simp [FlightPart.content, hbytes]
  · exact List.ne_nil_of_length_pos (by rw [List.length_drop]; omega)
  · simp [FlightPart.innerLen]
    omega

end Sample

/-- The sample handshake, then a `KeyUpdate` that is answered and data under the new keys. -/
theorem Driver.drive_server_completes_sample :
    ∃ (n : Negotiated) (flight : Bytes) (core : Core .sample Sample.sizes) (conn : AppData) (calls : Nat),
      Sample.server.negotiate .sample Sample.conn.transcript.fed = some n ∧
      FlightPart.sealAll .clear n.sHsKeys 0 (Sample.flightParts n) = some flight ∧
      n.Agrees (Sample.serverSends n).2 core conn ∧ core.sentLog.length = 1 ∧
      ∀ choices : List Nat, calls ≤ choices.length →
        ((start Sample.conn (Block.zeros _) (Block.zeros _) (Engine.defaultOurRecvLimit Sample.sizes.recv)
          .default (Sample.server.hello.record ++ (flight ++ (Sample.serverSends n).1))).drive
            Sample.params choices).outcome = ⟨true, core, ascii "hi", .ok .recv⟩ := by
  obtain ⟨n, hn, hruns⟩ := (Option.any_eq_true _ _).mp Sample.server_runsThrough
  simp only [Sample.runsThrough, Bool.and_eq_true, decide_eq_true_eq, Bool.not_eq_true',
    Option.isSome_iff_exists] at hruns
  obtain ⟨⟨⟨⟨⟨hlong, hshort⟩, flight, hseal⟩, hscan⟩, hdata⟩, hrequests⟩ := hruns
  obtain ⟨core, conn, calls, hagrees, hdrive⟩ := drive_server_completes Sample.conn Sample.params
    (Block.zeros _) (Block.zeros _) (Engine.defaultOurRecvLimit Sample.sizes.recv) .default Sample.server n
    (Sample.flightParts n) flight Sample.dataSends AeadBackend.clear_correct AeadBackend.clear_total
    HkdfSha256.sample_total rfl Sample.server_suits hn (Sample.flightParts_cuts hlong hshort) hseal
    ⟨by decide, Nat.le_trans hshort (by decide), by decide, by decide⟩ hscan
  refine ⟨n, flight, core, conn, calls, hn, hseal, hagrees, hagrees.answered.trans hrequests, ?_⟩
  intro choices hcalls
  rw [← hdata]
  exact (hdrive choices hcalls).2

end KrabiTls
