import KrabiTls.Engine.Conforming
import KrabiTls.Link.Basic

/-! What the engine does with the records of the peer. -/
namespace KrabiTls
open Lib

/-- The fragments of a `KeyUpdate` are staged until it is complete. -/
theorem feedLoop_keyUpdate (requested : Bool) (staged : Fin 5) (stop : Fin 6)
    (h : staged.val < stop.val) :
    PostHandshakeReasm.feedLoop.run (⟨(AppData.keyUpdateMsg requested).take staged, 0⟩,
        slice (AppData.keyUpdateMsg requested) staged stop) =
      if stop.val = 5 then (.ok (some requested), {})
      else (.ok none, ⟨(AppData.keyUpdateMsg requested).take stop, 0⟩) := by
  revert requested staged stop
  decide

namespace Core
variable {cfg : ClientConfig} {sz : Sizes}
variable {requested' : Bool}

/-- The records `sent` are sealed on the way from one state to another, and are pending. -/
structure Queues (c : Core cfg sz) (conn : AppData) (sent : List OpenedRecord) (c' : Core cfg sz)
    (conn' : AppData) : Prop where
  log : c'.sentLog = c.sentLog ++ sent
  emits : Emits (Up cfg) (c.sendHalf conn) sent (c'.sendHalf conn')
  bytes : c'.sendBytes = c.sendBytes ++ sent.flatMap OpenedRecord.record
  sendWf : c'.SendWf

/-- The record `r` is taken from the peer, whose direction it moves on to `next`; `sent` answers
it. -/
structure Takes (c : Core cfg sz) (conn : AppData) (r : OpenedRecord) (next : Half × Bool × Nat)
    (refused : Bool) (sent : List OpenedRecord) (c' : Core cfg sz) (conn' : AppData) : Prop where
  state : c'.state = .app conn'
  limit : c'.ourRecvLimit = c.ourRecvLimit
  opened : c'.history.opened = c.history.opened ++ [r]
  recv : c'.recvHalf conn' = next.1
  ph : c'.ph = ⟨(AppData.keyUpdateMsg next.2.1).take next.2.2, 0⟩
  staged : next.2.2 < 5
  scan : ∀ s : UpdateScan, s.staged = c.ph.stage →
    s.next r = ⟨c'.ph.stage, s.requests + sent.length, s.interleaved || refused⟩
  closed : c'.closed = (c.closed || refused)
  sends : c.Queues conn sent c' conn'
  answers : ∀ u ∈ sent, u.contentType = ctHandshake ∧ u.content = AppData.keyUpdateMsg false

variable {c c' : Core cfg sz} {conn conn' : AppData}

theorem queues_nil (hwf : c.SendWf) (hhalf : c'.sendHalf conn' = c.sendHalf conn)
    (hsealed : c'.history.sealed = c.history.sealed) (hrecord : c'.sendRecord = c.sendRecord)
    (hlen : c'.sendPendingLen = c.sendPendingLen) (hacked : c'.sendAcked = c.sendAcked) :
    c.Queues conn [] c' conn' where
  log := by rw [sentLog, hsealed, List.append_nil, sentLog]
  emits := by rw [hhalf]; exact .nil _
  bytes := by
    rw [sendBytes, hrecord, hlen, hacked, List.flatMap_nil, List.append_nil, sendBytes]
  sendWf := ⟨by rw [hlen, hacked]; exact hwf.acked, by rw [hlen]; exact hwf.fits⟩

theorem sealRecord_queue (hwf : c.SendWf) (hpending : c.isSendPending = false) {content record : Bytes}
    {ct : UInt8} (hseal : c.sealRecord conn content ct = (.ok (record, conn'), c')) :
    let r : OpenedRecord := ⟨c.history.sendGen, conn.seqOut, record, content, ct⟩
    (c.sendHalf conn).Sealed cfg r ∧ (c'.queue record).sentLog = c.sentLog ++ [r] ∧
      (c'.queue record).sendBytes = c.sendBytes ++ record ∧ (c'.queue record).SendWf := by
  have hwf' := sealRecord_sendWf hseal
  obtain ⟨henc, -, rfl⟩ := sealRecord_eq_ok c hseal
  obtain ⟨-, -, hlen, hfits, -⟩ := RecordKeys.encryptRecord_eq_ok henc
  refine ⟨⟨rfl, rfl, _, henc⟩, by simp [sentLog, Core.queue], ?_, hwf'⟩
  have hself : slice (overwrite c.sendRecord.val 0 record) 0 (0 + record.length) = record :=
    slice_overwrite_self (by rw [c.sendRecord.property]; omega)
  rw [Nat.zero_add] at hself
  rw [hwf.sendBytes_eq_nil.mpr hpending, List.nil_append, sendBytes_eq_drop]
  exact hself

theorem decryptDataRecord_sealed (hcorrect : cfg.aead.Correct) (hstate : c.state = .app conn)
    {r : OpenedRecord} (hsealed : (c.recvHalf conn).Sealed cfg r) (hct : r.contentType ≠ 0) :
    ∃ buf, c.decryptDataRecord r.record =
      (.ok (r.content, r.contentType), buf, c.openedWith conn r) := by
  obtain ⟨outLen, henc⟩ := hsealed.record
  have hinner : innerPlaintext r.content r.contentType 0 = r.content ++ [r.contentType] :=
    List.append_nil _
  have hlen := hsealed.record_length.2
  simp only [tlsPlaintextMax] at hlen
  obtain ⟨buf, hdec, -⟩ := decryptDataRecord_sealInner hcorrect hstate
    (by rw [hinner]; exact RecordKeys.sealInner_of_encryptRecord henc) hct
    (by simp only [protoMaxInnerPlaintext]; omega)
  have hr : (⟨c.history.recvGen, conn.seqIn, r.record, r.content, r.contentType⟩ : OpenedRecord) =
      r := by
    have hgen := hsealed.gen
    have hseq := hsealed.seq
    cases r
    simp_all [recvHalf]
  exact ⟨buf, by rw [hdec, hr]⟩

/-- A record of the peer that is within the limit is judged by its content. -/
theorem dispatchDataRecord_sealed (hcorrect : cfg.aead.Correct) (hstate : c.state = .app conn)
    {r : OpenedRecord} (hsealed : (c.recvHalf conn).Sealed cfg r) (hct : r.contentType ≠ 0)
    (hlimit : r.content.length + 1 ≤ c.ourRecvLimit) :
    ∃ buf, c.dispatchDataRecord ctApplicationData r.record =
      match (c.openedWith conn r).handleInnerContent r.content r.contentType with
      | (.ok parked, c') => ⟨.ok parked, buf, true, c'⟩
      | (.error e, c') => ⟨.error e, buf, true, c'.reject e⟩ := by
  obtain ⟨buf, hdec⟩ := decryptDataRecord_sealed hcorrect hstate hsealed hct
  obtain ⟨hlen, -⟩ := hsealed.record_length
  have hfits : ¬ r.record.length - tlsHeader > c.ourRecvLimit + aeadTagLen := by
    simp only [tlsHeader, aeadTagLen]
    omega
  refine ⟨buf, ?_⟩
  unfold dispatchDataRecord dispatchDataRecordInner
  rw [if_neg (by simp), if_neg hfits, hdec]
  rcases hinner : (c.openedWith conn r).handleInnerContent r.content r.contentType with
    ⟨_ | parked, c'⟩ <;> simp only [hinner]

/-- The staged bytes of a `KeyUpdate`, under the name of the one that goes on. -/
theorem keyUpdateMsg_take_eq {requested : Bool} {staged : Nat}
    (hsame : staged = 0 ∨ requested' = requested) :
    (AppData.keyUpdateMsg requested).take staged = (AppData.keyUpdateMsg requested').take staged := by
  rcases hsame with rfl | rfl <;> rfl

theorem applyRecvKeyUpdate_of_rotate {half : Half}
    (h : (c.recvHalf conn).rotate cfg = .ok half) (seqIn : Nat) :
    ∃ conn', ({ conn with seqIn } : AppData).applyRecvKeyUpdate cfg = .ok conn' ∧
      ⟨conn'.suite, conn'.sApTs, conn'.sApKeys, conn'.seqIn, c.history.recvGen + 1⟩ = half ∧
      c.sendHalf conn' = c.sendHalf conn := by
  obtain ⟨secret, keys, hnext, rfl⟩ := Half.rotate_eq_ok h
  refine ⟨{ conn with sApKeys := keys, sApTs := secret, seqIn := 0 }, ?_, rfl, rfl⟩
  simp only [recvHalf] at hnext
  simp only [AppData.applyRecvKeyUpdate, hnext]
  rfl

/-- A requested update is answered by a `KeyUpdate` under the current send keys, which rotate. -/
theorem answerKeyUpdate_queues (htotal : cfg.aead.Total) (hhkdf : cfg.hkdf.Total)
    (hsend : 27 ≤ sz.send) (hwf : c.SendWf) (hpending : c.isSendPending = false) (conn : AppData) :
    ∃ c' conn' u, c.answerKeyUpdate conn = (.ok (), c') ∧ c.Queues conn [u] c' conn' ∧
      u.contentType = ctHandshake ∧ u.content = AppData.keyUpdateMsg false ∧
      c'.state = .app conn' ∧ c'.ourRecvLimit = c.ourRecvLimit ∧
      c'.history.opened = c.history.opened ∧ c'.recvHalf conn' = c.recvHalf conn ∧ c'.ph = c.ph ∧
      c'.closed = c.closed := by
  obtain ⟨record, conn₁, c₁, hseal⟩ := c.sealRecord_total htotal conn ctHandshake
    (show (AppData.keyUpdateMsg false).length ≤ tlsPlaintextMax by decide)
    (show (AppData.keyUpdateMsg false).length + 22 ≤ sz.send from hsend)
  obtain ⟨hsealed, hlog, hbytes, hwf'⟩ := sealRecord_queue hwf hpending hseal
  obtain ⟨-, hconn₁, hc₁⟩ := sealRecord_eq_ok c hseal
  obtain ⟨secret, keys, hnext⟩ := AppData.nextKeys_total cfg hhkdf conn.suite conn.cApTs
  have hrotate : (c.sendHalf conn).rotate cfg = .ok
      ⟨conn.suite, secret, keys, 0, c.history.sendGen + 1⟩ := by
    simp only [Half.rotate, sendHalf, hnext]
    rfl
  obtain ⟨conn', hanswer, hconn'⟩ : ∃ conn', conn₁.applySendKeyUpdate cfg = .ok conn' ∧
      conn' = { conn with cApKeys := keys, cApTs := secret, seqOut := 0 } := by
    simp only [AppData.applySendKeyUpdate, hconn₁, hnext]
    exact ⟨_, rfl, rfl⟩
  refine ⟨(c₁.rotatedSend conn').queue record, conn', _, ?_, ⟨hlog, .single ?_, ?_, ?_⟩, rfl, rfl,
    rfl, ?_, ?_, ?_, ?_, ?_⟩
  · simp only [answerKeyUpdate_eq, hseal, hanswer]
  · rw [hconn']
    subst hc₁
    exact .update hsealed rfl rfl hrotate
  · rw [List.flatMap_singleton]
    exact hbytes
  · exact ⟨hwf'.acked, hwf'.fits⟩
  all_goals subst hc₁ hconn'; rfl

variable {requested : Bool} {staged : Nat} {r : OpenedRecord}
  (hph : c.ph = ⟨(AppData.keyUpdateMsg requested).take staged, 0⟩)
include hph

theorem inProgress_keyUpdate : c.ph.inProgress = decide (staged ≠ 0) := by
  rw [hph]
  cases staged with
  | zero => rfl
  | succ n => simp [PostHandshakeReasm.inProgress, AppData.keyUpdateMsg]

/-- Application data is handed on, unless it stands between the fragments of a `KeyUpdate`. -/
theorem handleInnerContent_app (hct : r.contentType = ctApplicationData) :
    (c.openedWith conn r).handleInnerContent r.content r.contentType =
      if staged ≠ 0 then (.error .interleavedPostHandshake, c.openedWith conn r)
      else (.ok r.content, c.openedWith conn r) := by
  have hprogress : (c.openedWith conn r).ph.inProgress = decide (staged ≠ 0) :=
    inProgress_keyUpdate hph
  unfold handleInnerContent
  by_cases hzero : staged = 0
  · rw [if_neg (by simp [hprogress, hzero]), if_pos hct, if_neg (not_not_intro hzero)]
  · rw [if_pos ⟨by rw [hct]; decide, by simp [hprogress, hzero]⟩, if_pos hzero]

theorem handleInnerContent_handshake {stop : Nat} (hct : r.contentType = ctHandshake)
    (hsame : staged = 0 ∨ requested' = requested) (hlt : staged < stop) (hstop : stop ≤ 5)
    (hcontent : r.content = slice (AppData.keyUpdateMsg requested') staged stop) :
    (c.openedWith conn r).handleInnerContent r.content r.contentType =
      if stop = 5 then
        let (result, c') := { c.openedWith conn r with ph := {} }.processKeyUpdate requested'
        (result.map fun _ => [], c')
      else (.ok [], { c.openedWith conn r with
        ph := ⟨(AppData.keyUpdateMsg requested').take stop, 0⟩ }) := by
  have hfeed := feedLoop_keyUpdate requested' ⟨staged, by omega⟩ ⟨stop, by omega⟩ hlt
  simp only at hfeed
  have hph' : (c.openedWith conn r).ph = ⟨(AppData.keyUpdateMsg requested').take staged, 0⟩ := by
    rw [← keyUpdateMsg_take_eq hsame]
    exact hph
  unfold handleInnerContent
  rw [if_neg (fun h => h.1 hct), if_neg (by rw [hct]; decide), if_neg (by rw [hct]; decide),
    if_pos hct, feedPostHandshake, hph', hcontent, hfeed]
  by_cases hfull : stop = 5
  · rw [if_pos hfull, if_pos hfull]
  · rw [if_neg hfull, if_neg hfull]
    rfl

omit hph in
theorem next_fragment {s : UpdateScan} {stop : Nat}
    (hs : s.staged = (AppData.keyUpdateMsg requested).take staged)
    (hct : r.contentType = ctHandshake) (hsame : staged = 0 ∨ requested' = requested)
    (hlt : staged < stop) (hstop : stop ≤ 5)
    (hcontent : r.content = slice (AppData.keyUpdateMsg requested') staged stop) :
    s.next r = if stop = 5 then ⟨[], s.requests + (if requested' then 1 else 0), s.interleaved⟩
      else ⟨(AppData.keyUpdateMsg requested').take stop, s.requests, s.interleaved⟩ := by
  have hsofar : s.staged ++ r.content = (AppData.keyUpdateMsg requested').take stop := by
    rw [hs, keyUpdateMsg_take_eq hsame, hcontent, slice, ← List.take_add, Nat.add_sub_cancel' hlt.le]
  have hlen : ((AppData.keyUpdateMsg requested').take stop).length = stop := by
    rw [List.length_take]
    exact Nat.min_eq_left hstop
  unfold UpdateScan.next
  rw [if_pos hct]
  simp only [hsofar, hlen]
  by_cases hfull : stop = 5
  · subst hfull
    cases requested' <;> rfl
  · rw [if_pos (by omega), if_neg hfull]

section Takes
variable (hwf : c.SendWf) (hstaged : staged < 5)
include hwf hstaged

theorem takes_app (hct : r.contentType = ctApplicationData) (hzero : staged = 0) :
    c.Takes conn r ((c.recvHalf conn).bump, requested, staged) false [] (c.openedWith conn r)
      { conn with seqIn := (conn.seqIn + 1) % 2 ^ 64 } where
  state := rfl
  limit := rfl
  opened := rfl
  recv := rfl
  ph := hph
  staged := hstaged
  scan := by
    intro s hs
    have hnone : s.staged = [] := by rw [hs, hph, hzero]; rfl
    rw [UpdateScan.next, if_neg (by rw [hct]; decide)]
    simp [openedWith, ← hs, hnone]
  closed := (Bool.or_false _).symm
  sends := queues_nil hwf rfl rfl rfl rfl rfl
  answers := nofun

theorem takes_interleaved (hct : r.contentType = ctApplicationData) (hzero : staged ≠ 0)
    (e : HandshakeError) :
    c.Takes conn r ((c.recvHalf conn).bump, requested, staged) true []
      ((c.openedWith conn r).reject e) { conn with seqIn := (conn.seqIn + 1) % 2 ^ 64 } where
  state := rfl
  limit := rfl
  opened := rfl
  recv := rfl
  ph := hph
  staged := hstaged
  scan := by
    intro s hs
    have hsome : s.staged ≠ [] := by
      rw [hs, hph]
      simpa [AppData.keyUpdateMsg] using hzero
    rw [UpdateScan.next, if_neg (by rw [hct]; decide)]
    simp [openedWith, reject, ← hs, hsome]
  closed := (Bool.or_true _).symm
  sends := queues_nil hwf rfl rfl rfl rfl rfl
  answers := nofun

omit hstaged in
theorem takes_fragment {requested' : Bool} {stop : Nat} (hct : r.contentType = ctHandshake)
    (hsame : staged = 0 ∨ requested' = requested) (hlt : staged < stop) (hstop : stop < 5)
    (hcontent : r.content = slice (AppData.keyUpdateMsg requested') staged stop) :
    c.Takes conn r ((c.recvHalf conn).bump, requested', stop) false []
      { c.openedWith conn r with ph := ⟨(AppData.keyUpdateMsg requested').take stop, 0⟩ }
      { conn with seqIn := (conn.seqIn + 1) % 2 ^ 64 } where
  state := rfl
  limit := rfl
  opened := rfl
  recv := rfl
  ph := rfl
  staged := hstop
  scan := by
    intro s hs
    rw [hph] at hs
    rw [next_fragment hs hct hsame hlt hstop.le hcontent, if_neg (by omega)]
    simp
  closed := (Bool.or_false _).symm
  sends := queues_nil hwf rfl rfl rfl rfl rfl
  answers := nofun

/-- A complete `KeyUpdate` rotates the receive keys, and is answered if it asks for that. -/
theorem takes_update (htotal : cfg.aead.Total) (hhkdf : cfg.hkdf.Total) (hsend : 27 ≤ sz.send)
    (hpending : c.isSendPending = false) {requested' : Bool} {half : Half}
    (hct : r.contentType = ctHandshake) (hsame : staged = 0 ∨ requested' = requested)
    (hcontent : r.content = slice (AppData.keyUpdateMsg requested') staged 5)
    (hrotate : (c.recvHalf conn).rotate cfg = .ok half) :
    ∃ c' conn' sent, { c.openedWith conn r with ph := {} }.processKeyUpdate requested' =
        (.ok (), c') ∧ c.Takes conn r (half, requested', 0) false sent c' conn' := by
  obtain ⟨conn₁, happly, hhalf, hsendHalf⟩ :=
    applyRecvKeyUpdate_of_rotate hrotate ((conn.seqIn + 1) % 2 ^ 64)
  let c₁ : Core cfg sz := { c.openedWith conn r with ph := {} }.rotatedRecv conn₁
  have hscan (s : UpdateScan) (hs : s.staged = c.ph.stage) :
      s.next r = ⟨[], s.requests + (if requested' then 1 else 0), s.interleaved⟩ := by
    rw [hph] at hs
    rw [next_fragment hs hct hsame hstaged (Nat.le_refl 5) hcontent, if_pos rfl]
  have hprocess : { c.openedWith conn r with ph := {} }.processKeyUpdate requested' =
      if ¬ requested' then (.ok (), c₁) else c₁.answerKeyUpdate conn₁ := by
    simp only [processKeyUpdate, openedWith, happly]
    rfl
  cases requested' with
  | false =>
    exact ⟨c₁, conn₁, [], hprocess, rfl, rfl, rfl, hhalf, rfl, Nat.zero_lt_succ 4,
      fun s hs => (hscan s hs).trans (by simp [c₁, rotatedRecv]), (Bool.or_false _).symm,
      queues_nil hwf hsendHalf rfl rfl rfl rfl, List.forall_mem_nil _⟩
  | true =>
    have hwf₁ : c₁.SendWf := ⟨hwf.acked, hwf.fits⟩
    have hsame₁ : c.Queues conn [] c₁ conn₁ := queues_nil hwf hsendHalf rfl rfl rfl rfl
    obtain ⟨c', conn', u, hanswer, hqueues, huct, hucontent, hstate, hlimit, hopened, hrecv, hph',
      hclosed⟩ := answerKeyUpdate_queues htotal hhkdf hsend hwf₁ hpending conn₁
    refine ⟨c', conn', [u], hprocess.trans hanswer, hstate, hlimit, hopened, hrecv.trans hhalf, hph',
      Nat.zero_lt_succ 4, ?_, ?_, ?_, ?_⟩
    · intro s hs
      rw [hscan s hs, hph']
      simp [c₁, rotatedRecv]
    · rw [hclosed, Bool.or_false]
      rfl
    · refine ⟨?_, ?_, ?_, hqueues.sendWf⟩
      · rw [hqueues.log, hsame₁.log, List.append_nil]
      · exact hsame₁.emits.append hqueues.emits
      · rw [hqueues.bytes, hsame₁.bytes]
        simp
    · intro v hv
      rw [List.mem_singleton.mp hv]
      exact ⟨huct, hucontent⟩

end Takes

/-- Every record of the peer is opened with the generation and number it was sealed with. The only
one to be refused is application data between the fragments of a `KeyUpdate`. -/
theorem dispatchDataRecord_down (hcorrect : cfg.aead.Correct) (htotal : cfg.aead.Total)
    (hhkdf : cfg.hkdf.Total) (hsend : 27 ≤ sz.send) (hstate : c.state = .app conn)
    (hpending : c.isSendPending = false) (hwf : c.SendWf) (hstaged : staged < 5)
    {next : Half × Bool × Nat}
    (hdown : Down cfg c.ourRecvLimit (c.recvHalf conn, requested, staged) r next) :
    let d := c.dispatchDataRecord ctApplicationData r.record
    ∃ conn' sent refused, d.consumed = true ∧ c.Takes conn r next refused sent d.core conn' ∧
      if refused then d.result = .error .interleavedPostHandshake
      else ∃ parked, d.result = .ok parked := by
  have hlimit := c.ourRecvLimit.property.1
  simp only [minRecordSizeLimit] at hlimit
  have hpiece {requested' : Bool} {stop : Nat} (hstop : stop ≤ 5)
      (hcontent : r.content = slice (AppData.keyUpdateMsg requested') staged stop) :
      r.content.length + 1 ≤ c.ourRecvLimit := by
    rw [hcontent, slice_length]
    omega
  cases hdown with
  | app hsealed hct hlen =>
    obtain ⟨buf, hdispatch⟩ := dispatchDataRecord_sealed hcorrect hstate hsealed
      (by rw [hct]; decide) hlen
    rw [handleInnerContent_app hph hct] at hdispatch
    by_cases hzero : staged = 0
    · rw [if_neg (not_not_intro hzero)] at hdispatch
      rw [hdispatch]
      exact ⟨_, [], false, rfl, takes_app hph hwf hstaged hct hzero, _, rfl⟩
    · rw [if_pos hzero] at hdispatch
      rw [hdispatch]
      exact ⟨_, [], true, rfl, takes_interleaved hph hwf hstaged hct hzero _, rfl⟩
  | fragment hsealed hct hsame hlt hstop hcontent =>
    obtain ⟨buf, hdispatch⟩ := dispatchDataRecord_sealed hcorrect hstate hsealed
      (by rw [hct]; decide) (hpiece hstop.le hcontent)
    rw [handleInnerContent_handshake hph hct hsame hlt hstop.le hcontent, if_neg (by omega)]
      at hdispatch
    rw [hdispatch]
    exact ⟨_, [], false, rfl, takes_fragment hph hwf hct hsame hlt hstop hcontent, _, rfl⟩
  | update hsealed hct hsame hlt hcontent hrotate =>
    obtain ⟨buf, hdispatch⟩ := dispatchDataRecord_sealed hcorrect hstate hsealed
      (by rw [hct]; decide) (hpiece (Nat.le_refl 5) hcontent)
    obtain ⟨c', conn', sent, hprocess, htakes⟩ := takes_update hph hwf hstaged htotal hhkdf hsend
      hpending hct hsame hcontent hrotate
    rw [handleInnerContent_handshake hph hct hsame hlt (Nat.le_refl 5) hcontent, if_pos rfl, hprocess]
      at hdispatch
    rw [hdispatch]
    exact ⟨conn', sent, false, rfl, htakes, _, rfl⟩

end Core

end KrabiTls
