import KrabiTls.Link.Receiving

/-! Key updates in both directions: in every interleaving, each end opens the records of the other
with the generation and number they were sealed with. -/
namespace KrabiTls
open Lib

namespace Core
variable {cfg : ClientConfig} {sz : Sizes} {c : Core cfg sz} {conn : AppData}

/-- A write seals and queues at most one record, and touches the send side only. -/
theorem writeApp_queues (hstate : c.state = .app conn) (hwf : c.SendWf) (plaintext : Bytes) :
    ∃ conn' sent, c.Queues conn sent (c.writeApp plaintext).2 conn' ∧
      (c.writeApp plaintext).2.state = .app conn' ∧
      (c.writeApp plaintext).2.recvHalf conn' = c.recvHalf conn ∧
      (c.writeApp plaintext).2.ph = c.ph ∧ (c.writeApp plaintext).2.closed = c.closed ∧
      (c.writeApp plaintext).2.history.opened = c.history.opened ∧
      (c.writeApp plaintext).2.ourRecvLimit = c.ourRecvLimit ∧
      ∀ u ∈ sent, u.contentType = ctApplicationData := by
  have hsame : c.Queues conn [] c conn := queues_nil hwf rfl rfl rfl rfl rfl
  unfold writeApp
  split
  · exact ⟨conn, [], hsame, hstate, rfl, rfl, rfl, rfl, rfl, nofun⟩
  · split
    · exact ⟨conn, [], hsame, hstate, rfl, rfl, rfl, rfl, rfl, nofun⟩
    · rename_i hpending
      rw [Bool.not_eq_true] at hpending
      simp only [hstate]
      split
      · exact ⟨conn, [], hsame, hstate, rfl, rfl, rfl, rfl, rfl, nofun⟩
      · split
        · rename_i c' hseal
          obtain ⟨dirty, rfl⟩ := sealRecord_eq_error c hseal
          -- the buffer is written to, but nothing of it is pending
          have hwf' : ({ c with sendRecord := c.sendRecord.overwrite 0 dirty } : Core cfg sz).SendWf :=
            ⟨hwf.acked, hwf.fits⟩
          refine ⟨conn, [], ⟨(List.append_nil _).symm, .nil _, ?_, hwf'⟩, hstate, rfl, rfl, rfl, rfl,
            rfl, nofun⟩
          rw [hwf'.sendBytes_eq_nil.mpr hpending, hwf.sendBytes_eq_nil.mpr hpending]
          rfl
        · rename_i record conn' c' hseal
          obtain ⟨hsealed, hlog, hbytes, hwf'⟩ := sealRecord_queue hwf hpending hseal
          obtain ⟨-, hconn', hc'⟩ := sealRecord_eq_ok c hseal
          refine ⟨conn', [_], ⟨hlog, .single ?_, ?_, hwf'⟩, ?_, ?_, ?_, ?_, ?_, ?_, ?_⟩
          · subst hc' hconn'
            exact .app hsealed rfl
          · rw [List.flatMap_singleton]
            exact hbytes
          · rw [hc']
            rfl
          · subst hc' hconn'
            rfl
          · rw [hc']
            rfl
          · rw [hc']
            rfl
          · rw [hc']
            rfl
          · rw [hc']
            rfl
          · intro u hu
            rw [List.mem_singleton.mp hu]

/-- An acknowledgement takes bytes off the front of the pending record. -/
theorem markSent_sendBytes (hwf : c.SendWf) {n : Nat} (hn : n ≤ c.sendBytes.length) :
    (c.markSent n).2.sendBytes = c.sendBytes.drop n := by
  have hlen := hwf.sendBytes_length
  have hacked := hwf.acked
  have hfits := hwf.fits
  unfold markSent
  rw [if_neg (by omega)]
  dsimp only
  split
  · rw [List.drop_of_length_le (by omega)]
    rfl
  · rw [sendBytes_eq_drop, sendBytes_eq_drop, List.drop_drop]

theorem updatesSent_answers {c' : Core cfg sz} {sent : List OpenedRecord}
    (hlog : c'.sentLog = c.sentLog ++ sent)
    (hsent : ∀ u ∈ sent, u.contentType = ctHandshake ∧ u.content = AppData.keyUpdateMsg false) :
    c'.updatesSent.length = c.updatesSent.length + sent.length ∧
      ∀ m ∈ c'.updatesSent, m ∈ c.updatesSent ∨ m = AppData.keyUpdateMsg false := by
  have hall : sent.filter (·.contentType = ctHandshake) = sent :=
    List.filter_eq_self.mpr fun u hu => decide_eq_true (hsent u hu).1
  have hupdates : c'.updatesSent = c.updatesSent ++ sent.map OpenedRecord.content := by
    rw [updatesSent, hlog, List.filter_append, hall, List.map_append, updatesSent]
  rw [hupdates]
  refine ⟨by rw [List.length_append, List.length_map], ?_⟩
  intro m hm
  rcases List.mem_append.mp hm with hold | hnew
  · exact .inl hold
  · obtain ⟨u, hu, rfl⟩ := List.mem_map.mp hnew
    exact .inr (hsent u hu).2

theorem updatesSent_app {c' : Core cfg sz} {sent : List OpenedRecord}
    (hlog : c'.sentLog = c.sentLog ++ sent) (hsent : ∀ u ∈ sent, u.contentType = ctApplicationData) :
    c'.updatesSent = c.updatesSent := by
  have hnone : sent.filter (·.contentType = ctHandshake) = [] := by
    rw [List.filter_eq_nil_iff]
    intro u hu
    simp [hsent u hu, ctApplicationData, ctHandshake]
  rw [updatesSent, hlog, List.filter_append, hnone, List.append_nil, updatesSent]

end Core

namespace Link
variable {cfg : ClientConfig} {sz : Sizes}

/-- Both directions are in step. The engine has closed only if it refused application data between
the fragments of a `KeyUpdate`. -/
structure Sync (l : Link cfg sz) (conn : AppData) (requested : Bool) (staged : Nat) : Prop where
  state : l.engine.core.state = .app conn
  sendWf : l.engine.core.SendWf
  ordered : l.engine.recv.Ordered sz.recv
  limit : (l.engine.core.ourRecvLimit : Nat) + recordOverhead ≤ sz.recv
  ph : l.engine.core.ph = ⟨(AppData.keyUpdateMsg requested).take staged, 0⟩
  staged_lt : staged < 5
  peerStaged : l.peer.staged < 5
  down : InFlight (Down cfg l.engine.core.ourRecvLimit) OpenedRecord.record
    (l.engine.core.recvHalf conn, requested, staged) l.engine.core.history.opened
    (l.peer.send, l.peer.requested, l.peer.staged) l.peer.sealed (l.engine.buffered ++ l.down)
  up : InFlight (Up cfg) OpenedRecord.record l.peer.recv l.peer.opened
    (l.engine.core.sendHalf conn) l.engine.core.sentLog (l.up ++ l.engine.core.sendBytes)
  flushed : l.flushed ++ l.engine.core.sendBytes =
    l.engine.core.sentLog.flatMap OpenedRecord.record
  scan : UpdateScan.of l.engine.core.history.opened = ⟨l.engine.core.ph.stage,
    l.engine.core.updatesSent.length, l.engine.core.closed⟩
  answers : ∀ m ∈ l.engine.core.updatesSent, m = AppData.keyUpdateMsg false
  errors : l.errors = if l.engine.core.closed then [.interleavedPostHandshake] else []
  failed : l.peer.failed = []

variable {l : Link cfg sz} {conn : AppData} {requested : Bool} {staged : Nat}

/-- What the engine frames next is the peer's next record, sealed with the keys the engine has. -/
theorem Sync.frame_cases (h : l.Sync conn requested staged) :
    frame sz.recv l.engine.buffered = .need ∨ ∃ r next rest,
      Down cfg l.engine.core.ourRecvLimit (l.engine.core.recvHalf conn, requested, staged) r next ∧
      frame sz.recv l.engine.buffered = .record r.record rest ∧
      InFlight (Down cfg l.engine.core.ourRecvLimit) OpenedRecord.record next
        (l.engine.core.history.opened ++ [r]) (l.peer.send, l.peer.requested, l.peer.staged)
        l.peer.sealed (rest ++ l.down) := by
  by_cases hempty : l.engine.buffered ++ l.down = []
  · left
    rw [(List.append_eq_nil_iff.mp hempty).1]
    rfl
  · obtain ⟨r, next, bytes, hdown, hbytes, hrest⟩ := h.down.next hempty
    obtain ⟨hsealed, hlen⟩ := hdown.sealed l.engine.core.ourRecvLimit.property.1
    have hlimit := h.limit
    simp only [recordOverhead, tlsHeader, aeadTagLen] at hlimit
    have hwhole : frame sz.recv (l.engine.buffered ++ l.down) = .record r.record bytes := by
      rw [hbytes]
      exact hsealed.frame (by rw [hsealed.record_length.1]; omega) bytes
    cases hframe : frame sz.recv l.engine.buffered with
    | need => exact .inl rfl
    | tooLarge got =>
      rw [frame_append_tooLarge hframe] at hwhole
      cases hwhole
    | record record rest =>
      rw [frame_append_record hframe] at hwhole
      cases hwhole
      exact .inr ⟨r, next, rest, hdown, rfl, hrest⟩

def errorsOf {α : Type} : Except HandshakeError α → List HandshakeError
  | .ok _ => []
  | .error e => [e]

/-- What the engine queues extends both the channel to the peer and the log behind it. -/
theorem Sync.queued (h : l.Sync conn requested staged) {c' : Core cfg sz} {conn' : AppData}
    {sent : List OpenedRecord} (hqueues : l.engine.core.Queues conn sent c' conn') :
    InFlight (Up cfg) OpenedRecord.record l.peer.recv l.peer.opened (c'.sendHalf conn') c'.sentLog
        (l.up ++ c'.sendBytes) ∧
      l.flushed ++ c'.sendBytes = c'.sentLog.flatMap OpenedRecord.record := by
  rw [hqueues.log, hqueues.bytes]
  refine ⟨?_, ?_⟩
  · rw [← List.append_assoc]
    exact h.up.emits hqueues.emits
  · rw [← List.append_assoc, h.flushed, List.flatMap_append]

/-- Bytes that move between the channel and the receive buffer change nothing. -/
theorem Sync.moved (h : l.Sync conn requested staged) {e : Engine cfg sz} {down : Bytes}
    (hcore : e.core = l.engine.core) (hordered : e.recv.Ordered sz.recv)
    (hbytes : e.buffered ++ down = l.engine.buffered ++ l.down) :
    { l with engine := e, down }.Sync conn requested staged := by
  obtain ⟨core, recvRecord, recv⟩ := e
  subst hcore
  exact { h with ordered := hordered, down := by rw [hbytes]; exact h.down }

section Dispatch
variable (hcorrect : cfg.aead.Correct) (htotal : cfg.aead.Total) (hhkdf : cfg.hkdf.Total)
  (hsend : 27 ≤ sz.send)
include hcorrect htotal hhkdf hsend

theorem Sync.dispatch (h : l.Sync conn requested staged) (hquiet : l.engine.Quiet)
    {start stop : Nat} {outerType : UInt8}
    (hf : l.engine.frameOneRecord = (.ok (.record start stop outerType), l.engine)) :
    let r := l.engine.dispatchDataRecord start stop outerType
    ∃ conn' requested' staged',
      { l with engine := r.2, errors := l.errors ++ errorsOf r.1 }.Sync conn' requested' staged' := by
  obtain ⟨record, rest, hframe, rfl, hstart, hstop, rfl, hrecord, hrest⟩ :=
    Engine.frame_of_record h.ordered hquiet.not_parked hf
  obtain hneed | ⟨r, next, rest', hdown, hframe', hflight⟩ := h.frame_cases
  · rw [hframe] at hneed
    cases hneed
  rw [hframe] at hframe'
  cases hframe'
  have hopen := hquiet.idle.not_closed
  obtain ⟨hsealed, -⟩ := hdown.sealed l.engine.core.ourRecvLimit.property.1
  have htype : r.record.headD 0 = ctApplicationData := by
    have := hsealed.headD []
    rwa [List.append_nil] at this
  obtain ⟨conn', sent, refused, hconsumed, htakes, hresult⟩ := Core.dispatchDataRecord_down h.ph
    hcorrect htotal hhkdf hsend h.state hquiet.idle.not_pending h.sendWf h.staged_lt hdown
  rw [← hrecord] at hconsumed htakes hresult
  rw [htype]
  have hordered := Engine.dispatchDataRecord_ordered l.engine stop ctApplicationData h.ordered
    hquiet.not_parked hstart hstop
  obtain ⟨hone, hcore, hbuffered⟩ := Engine.dispatchDataRecord_consumed h.ordered
    ((Nat.le_add_right _ _).trans hstart) hstop hconsumed
  have hscan := htakes.scan _ (congrArg UpdateScan.staged h.scan)
  obtain ⟨hcount, hmem⟩ := Core.updatesSent_answers htakes.sends.log htakes.answers
  have hclosed := htakes.closed
  rw [hopen, Bool.false_or] at hclosed
  obtain ⟨hup, hflushed⟩ := h.queued htakes.sends
  rw [← hcore] at htakes hscan hcount hmem hclosed hup hflushed
  refine ⟨conn', next.2.1, next.2.2, htakes.state, htakes.sends.sendWf, hordered, ?_, htakes.ph,
    htakes.staged, h.peerStaged, ?_, hup, hflushed, ?_, ?_, ?_, h.failed⟩
  · rw [htakes.limit]
    exact h.limit
  · rw [htakes.limit, htakes.recv, htakes.opened, hbuffered, hrest]
    exact hflight
  · rw [htakes.opened, UpdateScan.of_append, hscan, hclosed, hcount]
    simp only [h.scan, hopen, Bool.false_or]
  · intro m hm
    exact (hmem m hm).elim (h.answers m) id
  · rw [h.errors, hopen, hone, hclosed]
    cases refused with
    | false =>
      obtain ⟨parked, hok⟩ := hresult
      rw [hok]
      rfl
    | true =>
      rw [if_pos rfl] at hresult
      rw [hresult]
      rfl

/-- A step keeps both directions in step, through all the records it takes. -/
theorem Sync.step (h : l.Sync conn requested staged) :
    ∃ conn' requested' staged', l.step.Sync conn' requested' staged' := by
  have hrule : ∃ conn' requested' staged', { l with
      engine := l.engine.step.2
      errors := l.errors ++ errorsOf l.engine.step.1 }.Sync conn' requested' staged' := by
    refine Engine.stepLoop_rule
      (fun e => ∃ conn' requested' staged', { l with engine := e }.Sync conn' requested' staged')
      (fun r => ∃ conn' requested' staged', { l with
        engine := r.2, errors := l.errors ++ errorsOf r.1 }.Sync conn' requested' staged')
      ?_ ?_ ?_ ?_ ?_ l.engine ⟨conn, requested, staged, h⟩
    · intro e event e' hsync hevent
      rw [Engine.idleEvent_data hevent, errorsOf, List.append_nil]
      exact hsync
    · rintro e ⟨conn', requested', staged', hsync⟩ - -
      have hsame := hsync.moved e.compactRecv_core (Engine.compactRecv_ordered hsync.ordered)
        (congrArg (· ++ l.down) (Engine.compactRecv_buffered hsync.ordered))
      rw [errorsOf, List.append_nil]
      exact ⟨conn', requested', staged', hsame⟩
    · rintro e err ⟨conn', requested', staged', hsync⟩ hidle hf
      have hquiet := Engine.quiet_of_idleEvent hidle
      obtain ⟨got, htooLarge, -⟩ := Engine.frame_of_error hsync.ordered hquiet.not_parked hf
      obtain hneed | ⟨r, next, rest, -, hrecord, -⟩ := hsync.frame_cases
      · cases hneed.symm.trans htooLarge
      · cases hrecord.symm.trans htooLarge
    · rintro e start stop outerType err e' ⟨conn', requested', staged', hsync⟩ hidle hf herr
      have hnext := hsync.dispatch hcorrect htotal hhkdf hsend (Engine.quiet_of_idleEvent hidle) hf
      rwa [herr] at hnext
    · rintro e start stop outerType e' ⟨conn', requested', staged', hsync⟩ hidle hf hok
      have hnext := hsync.dispatch hcorrect htotal hhkdf hsend (Engine.quiet_of_idleEvent hidle) hf
      simp only [hok, errorsOf, List.append_nil] at hnext
      exact hnext
  unfold Link.step
  rcases hstep : l.engine.step with ⟨err | event, e⟩
  · rwa [hstep] at hrule
  · rwa [hstep, errorsOf, List.append_nil] at hrule

end Dispatch

theorem Sync.peerSend (h : l.Sync conn requested staged) (s : PeerSend) :
    (l.peerSend s).Sync conn requested staged := by
  unfold Link.peerSend
  split
  · exact h
  · rename_i r peer hemit
    obtain ⟨state, rfl, hlt, hdown⟩ := Peer.emit_eq_ok h.peerStaged hemit
    refine { h with peerStaged := hlt, down := ?_ }
    have hmore := h.down.emits (.single hdown)
    rwa [List.flatMap_singleton, List.append_assoc] at hmore

theorem Sync.peerTake (hcorrect : cfg.aead.Correct) (h : l.Sync conn requested staged) :
    l.peerTake.Sync conn requested staged := by
  unfold Link.peerTake
  by_cases hempty : l.up ++ l.engine.core.sendBytes = []
  · rw [(List.append_eq_nil_iff.mp hempty).1]
    exact h
  · obtain ⟨r, recv, bytes, hup, hbytes, hrest⟩ := h.up.next hempty
    have hsealed : l.peer.recv.Sealed cfg r := by
      cases hup <;> assumption
    have hwhole : frame (tlsHeader + tlsCiphertextMax) (l.up ++ l.engine.core.sendBytes) =
        .record r.record bytes := by
      obtain ⟨hlen, hcontent⟩ := hsealed.record_length
      rw [hbytes]
      refine hsealed.frame ?_ bytes
      simp only [tlsPlaintextMax] at hcontent
      simp only [tlsHeader, tlsCiphertextMax]
      omega
    cases hframe : frame (tlsHeader + tlsCiphertextMax) l.up with
    | need => exact h
    | tooLarge got =>
      rw [frame_append_tooLarge hframe] at hwhole
      cases hwhole
    | record record rest =>
      rw [frame_append_record hframe] at hwhole
      cases hwhole
      dsimp only
      rw [Peer.take_eq hcorrect hup]
      exact { h with up := hrest }

theorem Sync.deliver (h : l.Sync conn requested staged) (n : Nat) :
    (l.deliver n).Sync conn requested staged := by
  unfold Link.deliver
  dsimp only
  have hsplit := take_append_drop_length l.down (min n l.engine.recvBufferLen)
  have hroom : (l.down.take (min n l.engine.recvBufferLen)).length ≤ l.engine.recvBufferLen := by
    rw [List.length_take]
    omega
  generalize l.down.take (min n l.engine.recvBufferLen) = chunk at hsplit hroom
  rcases Nat.eq_zero_or_pos chunk.length with hzero | hpos
  · have hnil := List.length_eq_zero_iff.mp hzero
    have hfill : l.engine.fill chunk = l.engine := by
      simp [Engine.fill, hnil, Block.overwrite, overwrite_nil]
    rw [hfill, hzero]
    exact h
  · obtain ⟨e, hadvance, hcore, hordered, hbuffered, -⟩ :=
      Engine.advance_fill h.ordered chunk hroom hpos
    rw [hadvance]
    exact h.moved hcore hordered (by rw [hbuffered, List.append_assoc, hsplit])

theorem Sync.flush (h : l.Sync conn requested staged) (n : Nat) :
    (l.flush n).Sync conn requested staged := by
  have hdrop := Core.markSent_sendBytes h.sendWf
    (show (l.engine.core.sendBytes.take n).length ≤ _ from List.length_take_le' n _)
  have hsplit := take_append_drop_length l.engine.core.sendBytes n
  have hwf := h.sendWf.markSent (l.engine.core.sendBytes.take n).length
  unfold Link.flush
  dsimp only [Engine.markSent, Engine.withCore]
  generalize l.engine.core.sendBytes.take n = chunk at hdrop hsplit hwf
  have hbytes : chunk ++ (l.engine.core.markSent chunk.length).2.sendBytes =
      l.engine.core.sendBytes := by rw [hdrop, hsplit]
  obtain ⟨pendingLen, acked, finished, sent, heq⟩ := l.engine.core.markSent_eq chunk.length
  rw [heq] at hbytes hwf ⊢
  refine { h with sendWf := hwf, up := ?_, flushed := ?_ }
  · dsimp only
    rw [List.append_assoc, hbytes]
    exact h.up
  · dsimp only
    rw [List.append_assoc, hbytes]
    exact h.flushed

theorem Sync.writeApp (h : l.Sync conn requested staged) (plaintext : Bytes) :
    ∃ conn', { l with engine := (l.engine.writeApp plaintext).2 }.Sync conn' requested staged := by
  obtain ⟨conn', sent, hqueues, hstate, hrecv, hph, hclosed, hopened, hlimit, hsent⟩ :=
    Core.writeApp_queues h.state h.sendWf plaintext
  obtain ⟨hup, hflushed⟩ := h.queued hqueues
  have hupdates := Core.updatesSent_app hqueues.log hsent
  refine ⟨conn', ?_⟩
  dsimp only [Engine.writeApp, Engine.withCore]
  generalize (l.engine.core.writeApp plaintext).2 = c at *
  refine ⟨hstate, hqueues.sendWf, h.ordered, ?_, hph.trans h.ph, h.staged_lt, h.peerStaged, ?_, hup,
    hflushed, ?_, ?_, ?_, h.failed⟩
  · rw [hlimit]
    exact h.limit
  · rw [hlimit, hrecv, hopened]
    exact h.down
  · rw [hopened, h.scan, hph, hupdates, hclosed]
  · rw [hupdates]
    exact h.answers
  · rw [hclosed]
    exact h.errors

theorem early_sends (e : Engine cfg sz) (conn : AppData) (early : List PeerSend) :
    let l := early.foldl Link.peerSend (fresh e conn)
    ∃ send requested staged sealed, l = { fresh e conn with
        peer := { send, recv := e.core.sendHalf conn, requested, staged, sealed }, down := l.down } ∧
      staged < 5 ∧
      InFlight (Down cfg e.core.ourRecvLimit) OpenedRecord.record (e.core.recvHalf conn, false, 0) []
        (send, requested, staged) sealed l.down := by
  refine List.foldlRecOn early Link.peerSend (motive := fun l => ∃ send requested staged sealed,
    l = { fresh e conn with
      peer := { send, recv := e.core.sendHalf conn, requested, staged, sealed }, down := l.down } ∧
    staged < 5 ∧ InFlight (Down cfg e.core.ourRecvLimit) OpenedRecord.record
      (e.core.recvHalf conn, false, 0) [] (send, requested, staged) sealed l.down) ?_ ?_
  · exact ⟨_, _, _, _, rfl, Nat.zero_lt_succ 4, inFlight_refl _ _⟩
  · rintro l ⟨send, requested, staged, sealed, heq, hlt, hflight⟩ s -
    unfold Link.peerSend
    split
    · exact ⟨send, requested, staged, sealed, heq, hlt, hflight⟩
    · rename_i r peer hemit
      rw [heq] at hemit
      obtain ⟨state, rfl, hlt', hdown⟩ := Peer.emit_eq_ok hlt hemit
      refine ⟨state.1, state.2.1, state.2.2, sealed ++ [r], by rw [heq]; rfl, hlt', ?_⟩
      have hmore := hflight.emits (.single hdown)
      rwa [List.flatMap_singleton] at hmore

theorem sync_start {e : Engine cfg sz} {conn : AppData} {early : List PeerSend}
    (h : e.DataStart conn early) : (start e conn early).Sync conn false 0 := by
  obtain ⟨send, requested, staged, sealed, heq, hlt, hflight⟩ := early_sends e conn early
  obtain ⟨rest, hrest⟩ := h.buffered
  have hbytes : e.core.sendBytes = [] := h.sendWf.sendBytes_eq_nil.mpr h.idle.not_pending
  have hdrop : e.buffered ++ (early.foldl Link.peerSend (fresh e conn)).down.drop e.buffered.length =
      (early.foldl Link.peerSend (fresh e conn)).down := by
    rw [← hrest, List.drop_left' rfl]
  unfold start
  generalize early.foldl Link.peerSend (fresh e conn) = l at heq hflight hdrop
  dsimp only
  rw [heq]
  refine ⟨h.state, h.sendWf, h.ordered, h.limit, h.ph, Nat.zero_lt_succ 4, hlt, ?_, ?_, ?_, ?_, ?_,
    ?_, rfl⟩
  · simp only [fresh, h.opened, hdrop]
    exact hflight
  · simp only [fresh, h.sentLog, hbytes]
    exact inFlight_refl _ _
  · simp [fresh, h.sentLog, hbytes]
  · simp [fresh, h.opened, h.ph, h.idle.not_closed, Core.updatesSent, h.sentLog, UpdateScan.of]
  · simp [fresh, Core.updatesSent, h.sentLog]
  · simp [fresh, h.idle.not_closed]

section Run
variable (hcorrect : cfg.aead.Correct) (htotal : cfg.aead.Total) (hhkdf : cfg.hkdf.Total)
  (hsend : minSendStandard ≤ sz.send)
include hcorrect htotal hhkdf hsend

theorem Sync.act (h : l.Sync conn requested staged) (action : Action) :
    ∃ conn' requested' staged', (l.act action).Sync conn' requested' staged' := by
  cases action with
  | peerSend s => exact ⟨conn, requested, staged, h.peerSend s⟩
  | peerTake => exact ⟨conn, requested, staged, h.peerTake hcorrect⟩
  | deliver n => exact ⟨conn, requested, staged, h.deliver n⟩
  | step => exact h.step hcorrect htotal hhkdf (le_trans (by decide) hsend)
  | readApp outLen =>
    exact ⟨conn, requested, staged, h.moved rfl (Engine.readApp_parked h.ordered outLen).2.1 rfl⟩
  | writeApp plaintext =>
    obtain ⟨conn', hsync⟩ := h.writeApp plaintext
    exact ⟨conn', requested, staged, hsync⟩
  | flush n => exact ⟨conn, requested, staged, h.flush n⟩

theorem Sync.run (h : l.Sync conn requested staged) (actions : List Action) :
    ∃ conn' requested' staged', (l.run actions).Sync conn' requested' staged' := by
  induction actions generalizing l conn requested staged with
  | nil => exact ⟨conn, requested, staged, h⟩
  | cons action actions ih =>
    obtain ⟨conn', requested', staged', hsync⟩ := h.act hcorrect htotal hhkdf hsend action
    exact ih hsync

/-- In every interleaving of peer records, reads, steps, writes and partial sends: what the engine
has opened is what the peer sealed, up to some point, with the same generations and numbers, and
conversely; nothing failed to open, and only application data between the fragments of a
`KeyUpdate` is refused; every completed request is answered by one `KeyUpdate`; and the bytes sent
and those pending are the records the engine sealed. -/
theorem keyUpdates_synchronised {e : Engine cfg sz} {conn : AppData} {early : List PeerSend}
    (hstart : e.DataStart conn early) (actions : List Action) :
    let l := (start e conn early).run actions
    let opened := UpdateScan.of l.engine.core.history.opened
    l.engine.core.history.opened <+: l.peer.sealed ∧ l.peer.opened <+: l.engine.core.sentLog ∧
      l.peer.failed = [] ∧
      l.errors = (if opened.interleaved then [.interleavedPostHandshake] else []) ∧
      l.engine.core.updatesSent = List.replicate opened.requests (AppData.keyUpdateMsg false) ∧
      l.flushed ++ l.engine.core.sendBytes = l.engine.core.sentLog.flatMap OpenedRecord.record := by
  intro l opened
  obtain ⟨conn', requested', staged', hsync⟩ :=
    (sync_start hstart).run hcorrect htotal hhkdf hsend actions
  have hscan : opened = _ := hsync.scan
  refine ⟨hsync.down.taken_prefix, hsync.up.taken_prefix, hsync.failed, ?_, ?_, hsync.flushed⟩
  · rw [hscan]
    exact hsync.errors
  · rw [hscan]
    exact List.eq_replicate_of_mem hsync.answers

end Run

/-- A request in two fragments and application data behind it, answered in two partial sends. -/
theorem keyUpdates_synchronised_sample : ∃ e conn, Sample.dataPhase = some (e, conn) ∧
    e.DataStart conn [] ∧
    let l := (start e conn []).run Sample.updateActions
    l.engine.core.history.opened.length = 3 ∧ l.engine.core.history.opened <+: l.peer.sealed ∧
      l.engine.core.updatesSent = [AppData.keyUpdateMsg false] ∧ l.peer.opened.length = 1 := by
  have hany : (Sample.dataPhase.any fun (e, conn) =>
      let l := (start e conn []).run Sample.updateActions
      decide (e.core.isSendPending = false ∧ e.core.closed = false ∧
        e.core.sendAcked ≤ e.core.sendPendingLen ∧ e.core.sendPendingLen ≤ Sample.sizes.send ∧
        e.recv.plainStart ≤ e.recv.plainEnd ∧ e.recv.plainEnd ≤ e.recv.nextRecord ∧
        e.recv.nextRecord ≤ e.recv.filled ∧ e.recv.filled ≤ Sample.sizes.recv ∧ e.core.ph = {} ∧
        (e.core.ourRecvLimit : Nat) + recordOverhead ≤ Sample.sizes.recv ∧
        e.core.history.opened = [] ∧ e.core.sentLog = [] ∧ e.buffered = [] ∧
        l.engine.core.history.opened.length = 3 ∧
        (UpdateScan.of l.engine.core.history.opened).requests = 1 ∧
        l.peer.opened.length = 1)) = true := by
    decide +kernel
  obtain ⟨⟨e, conn⟩, hdata, hchecks⟩ := (Option.any_eq_true _ _).mp hany
  simp only [decide_eq_true_eq] at hchecks
  obtain ⟨hpending, hclosed, hacked, hfits, hplain, hparked, hnext, hfilled, hph, hlimit, hopened,
    hsent, hbuffered, hthree, hone, htaken⟩ := hchecks
  have hstart : e.DataStart conn [] := ⟨Sample.dataPhase_state hdata, ⟨hpending, hclosed⟩,
    ⟨hacked, hfits⟩, ⟨hplain, hparked, hnext, hfilled⟩, hph, hlimit, hopened, hsent, by
      rw [hbuffered]
      exact List.nil_prefix⟩
  obtain ⟨hfront, -, -, -, hupdates, -⟩ := keyUpdates_synchronised AeadBackend.clear_correct
    AeadBackend.clear_total HkdfSha256.sample_total (by decide) hstart Sample.updateActions
  rw [hone] at hupdates
  exact ⟨e, conn, hdata, hstart, hthree, hfront, hupdates, htaken⟩

end Link

end KrabiTls
