import KrabiTls.Dtls.Handshake
import KrabiTls.Dtls.Server

/-! How the client takes a server's flight from datagrams that are lost, sent again, reordered and
mixed with others. -/
namespace KrabiTls.Dtls
open Lib

variable {ε : Type} {fl : Flight hsFinished}

theorem Flight.pushAll_concat {maxMsgs maxFrags : Nat} {arena arena' arena'' : Bytes}
    {frags : List fl.Fragment} {f : fl.Fragment} {r r' : Reassembler maxMsgs maxFrags}
    (h : fl.pushAll arena frags = .ok (r, arena'))
    (hlast : fl.pushAll arena (frags ++ [f]) = .ok (r', arena'')) :
    r.push arena' fl.messages[f.index].msgType (fl.base + f.index) fl.messages[f.index].body.length
      f.start f.data = .ok (r', arena'') := by
  rw [pushAll, List.foldlM_append] at hlast
  obtain ⟨_, hfrags, hpush⟩ := bind_eq_ok.mp hlast
  cases h.symm.trans hfrags
  simpa only [List.foldlM_cons, List.foldlM_nil, bind_pure] using hpush

namespace Epoch2

theorem pushFragment_encode {s : Epoch2} (f : fl.Fragment) (rest : Bytes)
    {reasm : Reassembler maxFlightMsgs maxMsgFrags} {arena : Bytes}
    (hpush : s.reasm.push s.arena fl.messages[f.index].msgType (fl.base + f.index)
      fl.messages[f.index].body.length f.start f.data = .ok (reasm, arena)) :
    s.pushFragment (ε := ε) (f.encode ++ rest) = .ok (rest, { s with reasm, arena }) := by
  have hindex : f.index.val < fl.front.length + 1 := fl.messages_length ▸ f.index.isLt
  have hseqs := fl.seqs
  have hbound := fl.messages[f.index].bound
  have hordered := f.ordered
  have hwithin := f.within
  have hdata := f.data_length
  let header : HandshakeHeader := ⟨fl.messages[f.index].msgType, fl.messages[f.index].body.length,
    fl.base + f.index, f.start, f.stop - f.start⟩
  have hencode : f.encode ++ rest = header.fields.flatten ++ (f.data ++ rest) := by
    rw [Flight.Fragment.encode, List.append_assoc]
  have hparse : HandshakeHeader.parse (f.encode ++ rest) = .ok header := by
    rw [hencode, HandshakeHeader.parse_flatten_fields]
    simp only [header]
    rw [Nat.mod_eq_of_lt hbound, Nat.mod_eq_of_lt (by omega), Nat.mod_eq_of_lt (by omega),
      Nat.mod_eq_of_lt (by omega)]
  have hfront := header.fields_length
  have hlen : (f.encode ++ rest).length = hsHeaderLen + (f.stop - f.start) + rest.length := by
    rw [hencode, List.length_append, List.length_append, hfront, hdata]
    omega
  have hslice : slice (f.encode ++ rest) hsHeaderLen (hsHeaderLen + (f.stop - f.start)) = f.data := by
    rw [slice, hencode, List.drop_left' hfront, Nat.add_sub_cancel_left, List.take_left' hdata]
  have hdrop : (f.encode ++ rest).drop (hsHeaderLen + (f.stop - f.start)) = rest := by
    rw [← List.drop_drop, hencode, List.drop_left' hfront, List.drop_left' hdata]
  unfold pushFragment
  refine bind_eq_ok.mpr ⟨header, mapError_eq_ok.mpr hparse, bind_eq_ok.mpr ⟨(), ensure_eq_ok.mpr ?_, ?_⟩⟩
  · rw [hlen]
    exact Nat.le_add_right _ _
  · rw [hslice, hdrop]
    exact bind_eq_ok.mpr ⟨_, mapError_eq_ok.mpr hpush, rfl⟩

theorem fragmentLoop_encode {s : Epoch2} {arena : Bytes} {done : List fl.Fragment}
    (hs : fl.pushAll arena done = .ok (s.reasm, s.arena)) (frags : List fl.Fragment)
    (hall : fl.Fits maxFlightMsgs maxMsgFrags arena.length (done ++ frags)) :
    ∃ s' : Epoch2, fragmentLoop.run (frags.flatMap Flight.Fragment.encode, s) =
        (.ok s' : Except (DtlsClientError ε) Epoch2) ∧
      fl.pushAll arena (done ++ frags) = .ok (s'.reasm, s'.arena) := by
  induction frags generalizing s done with
  | nil =>
    have hleave : (fragmentLoop (ε := ε)).body ([], s) = .leave (.ok s) := by
      simp [fragmentLoop, hsHeaderLen]
    exact ⟨s, Loop.run_of_leave hleave, by rwa [List.append_nil]⟩
  | cons f frags ih =>
    rw [List.append_cons] at hall ⊢
    obtain ⟨r, arena', hnext, -, -⟩ :=
      Flight.pushAll_isOk (hall.mono (List.subset_append_left (done ++ [f]) frags))
    have hpush := pushFragment_encode (ε := ε) f (frags.flatMap Flight.Fragment.encode)
      (Flight.pushAll_concat hs hnext)
    have hagain : (fragmentLoop (ε := ε)).body ((f :: frags).flatMap Flight.Fragment.encode, s) =
        .again (frags.flatMap Flight.Fragment.encode, { s with reasm := r, arena := arena' }) := by
      have hguard : hsHeaderLen ≤ (f.encode ++ frags.flatMap Flight.Fragment.encode).length := by
        rw [List.length_append, Flight.Fragment.encode, List.length_append, HandshakeHeader.fields_length]
        omega
      simp only [fragmentLoop, List.flatMap_cons, if_pos hguard, hpush]
    obtain ⟨s', hrun, hpushed⟩ := ih (s := { s with reasm := r, arena := arena' }) hnext hall
    exact ⟨s', (Loop.run_of_again hagain).trans hrun, hpushed⟩

variable {a : AeadBackend} {m : Masker} {k : EpochKeys} {cid : Option Bytes} {usizeBits : Nat}
  {arena : Bytes} {rs : List (FragmentRecord a m k cid fl)} {s : Epoch2}

theorem fits_front {arenaLen : Nat} {more : List (FragmentRecord a m k cid fl)}
    (h : fl.Fits maxFlightMsgs maxMsgFrags arenaLen ((rs ++ more).flatMap FragmentRecord.fragments)) :
    fl.Fits maxFlightMsgs maxMsgFrags arenaLen (rs.flatMap FragmentRecord.fragments) := by
  rw [List.flatMap_append] at h
  exact h.mono (List.subset_append_left _ _)

/-- The client's state once it has opened the records `rs`: their fragments are in the reassembler,
and their numbers in the bitmap. -/
structure Taken (arena : Bytes) (rs : List (FragmentRecord a m k cid fl)) (s : Epoch2) : Prop where
  pushed : fl.pushAll arena (rs.flatMap FragmentRecord.fragments) = .ok (s.reasm, s.arena)
  count : s.nextSeq = rs.length
  acked : ∀ i < 128, s.acked.getLsbD i = true ↔ i ∈ rs.map (·.seq)

theorem taken_start (arena : Bytes) :
    Taken arena ([] : List (FragmentRecord a m k cid fl)) (start arena) where
  pushed := rfl
  count := rfl
  acked := by simp [start]

theorem Taken.absorb (h : Taken arena rs s) {r : FragmentRecord a m k cid fl}
    (hfits : fl.Fits maxFlightMsgs maxMsgFrags arena.length
      ((rs ++ [r]).flatMap FragmentRecord.fragments))
    (hseq : r.seq < 2 ^ usizeBits) (hcount : rs.length + 1 < 2 ^ 64) :
    ∃ s', s.absorb (ε := ε) usizeBits r.opened = .ok s' ∧ Taken arena (rs ++ [r]) s' := by
  rw [List.flatMap_append, List.flatMap_singleton] at hfits
  have hnoted : fl.pushAll arena (rs.flatMap FragmentRecord.fragments) =
      .ok ((s.noteAcked usizeBits r.seq).reasm, (s.noteAcked usizeBits r.seq).arena) := by
    rw [h.pushed, noteAcked]
    split <;> rfl
  have hdone : ∃ s', s.absorb (ε := ε) usizeBits r.opened = .ok s' ∧
      fl.pushAll arena ((rs ++ [r]).flatMap FragmentRecord.fragments) = .ok (s'.reasm, s'.arena) := by
    rw [List.flatMap_append, List.flatMap_singleton]
    by_cases htype : r.contentType = ctHandshake
    · obtain ⟨s', hrun, hpushed⟩ := fragmentLoop_encode (ε := ε) hnoted r.fragments hfits
      refine ⟨s'.bumpSeq, ?_, hpushed⟩
      rw [Epoch2.absorb, if_pos (show r.opened.contentType = ctHandshake from htype)]
      exact map_eq_ok.mpr ⟨s', by rw [← r.carries htype] at hrun; exact hrun, rfl⟩
    · refine ⟨(s.noteAcked usizeBits r.seq).bumpSeq, if_neg htype, ?_⟩
      rw [r.silent htype, List.append_nil]
      exact hnoted
  obtain ⟨s', habsorb, hpushed⟩ := hdone
  obtain ⟨hnext, hacked⟩ := absorb_eq_ok habsorb
  refine ⟨s', habsorb, hpushed, ?_, ?_⟩
  · rw [hnext, h.count, Nat.mod_eq_of_lt hcount, List.length_append, List.length_singleton]
  · intro i hi
    rw [hacked, getLsbD_noteAcked s (show r.opened.seq < 2 ^ usizeBits from hseq) hi, h.acked i hi,
      List.map_append, List.mem_append, List.map_singleton, List.mem_singleton]
    rfl

theorem Taken.absorbAll (h : Taken arena rs s) (more : List (FragmentRecord a m k cid fl))
    (hfits : fl.Fits maxFlightMsgs maxMsgFrags arena.length
      ((rs ++ more).flatMap FragmentRecord.fragments))
    (hreach : FlightRecord.InReach usizeBits rs.length (more.map FragmentRecord.toFlightRecord)) :
    ∃ s', (more.map fun r => r.opened).foldlM (Epoch2.absorb (ε := ε) usizeBits) s = .ok s' ∧
      Taken arena (rs ++ more) s' := by
  induction more generalizing rs s with
  | nil => exact ⟨s, rfl, by rwa [List.append_nil]⟩
  | cons r more ih =>
    obtain ⟨hcount, -, hseq, hrest⟩ := hreach
    rw [List.append_cons] at hfits ⊢
    obtain ⟨s', habsorb, htaken⟩ := h.absorb (ε := ε) (fits_front hfits) hseq hcount
    have hlen : (rs ++ [r]).length = rs.length + 1 := by simp
    obtain ⟨s'', hfold, htaken'⟩ := ih htaken hfits (hlen ▸ hrest)
    refine ⟨s'', ?_, htaken'⟩
    rw [List.map_cons, List.foldlM_cons]
    exact bind_eq_ok.mpr ⟨s', habsorb, hfold⟩

/-- Bytes that do not open end the walk over a datagram. -/
theorem openedRecords_wires_append (hcorrect : a.Correct) {junk : Bytes}
    (hdead : ∀ hint, nextRecord a m k (cidLength cid) hint junk = none)
    {rs : List (FlightRecord a m k cid)} {count : Nat}
    (hreach : FlightRecord.InReach usizeBits count rs) :
    openedRecords a m k (cidLength cid) count (FlightRecord.wires rs ++ junk) =
      rs.map FlightRecord.opened := by
  induction rs generalizing count with
  | nil => exact openedRecords_of_none (hdead count)
  | cons r rs ih =>
    obtain ⟨hcount, hnear, -, hrest⟩ := hreach
    have hnext := r.nextRecord_wire hcorrect hnear (FlightRecord.wires rs ++ junk)
    have hdrop : (r.wire ++ (FlightRecord.wires rs ++ junk)).drop r.opened.recordLen =
        FlightRecord.wires rs ++ junk := List.drop_left
    rw [FlightRecord.wires, List.flatMap_cons, ← FlightRecord.wires, List.append_assoc,
      openedRecords_of_some hnext, hdrop, Nat.mod_eq_of_lt hcount, ih hrest, List.map_cons]

theorem Taken.feed (hcorrect : a.Correct) (h : Taken arena rs s) (b : Burst a m k cid fl)
    (hfits : fl.Fits maxFlightMsgs maxMsgFrags arena.length
      ((rs ++ b.records).flatMap FragmentRecord.fragments))
    (hreach : FlightRecord.InReach usizeBits rs.length (b.records.map FragmentRecord.toFlightRecord)) :
    ∃ s', s.feed (ε := ε) a m usizeBits k (cidLength cid) b.bytes = .ok s' ∧
      Taken arena (rs ++ b.records) s' := by
  obtain ⟨s', hfold, htaken⟩ := h.absorbAll (ε := ε) b.records hfits hreach
  refine ⟨s', ?_, htaken⟩
  rw [feed_eq, Burst.bytes, h.count, openedRecords_wires_append hcorrect b.dead hreach, List.map_map]
  exact hfold

/-- The flight is complete once its bytes have all come, and is then read back. -/
theorem Taken.flightComplete_iff (h : Taken arena rs s) :
    s.reasm.flightComplete fl.base hsFinished = true ↔
      fl.CoveredBy (rs.flatMap FragmentRecord.fragments) :=
  (Flight.Assembles.of_pushAll h.pushed).flightComplete_iff

end Epoch2

variable {t : DatagramTransport ε}

/-- The next `n` sends succeed. -/
def DatagramTransport.Willing (n : Nat) (t : DatagramTransport ε) : Prop :=
  ∃ more, t.sends = List.replicate n (.ok ()) ++ more

theorem DatagramTransport.Willing.mono {n n' : Nat} (h : t.Willing n) (hle : n' ≤ n) :
    t.Willing n' := by
  obtain ⟨more, hsends⟩ := h
  refine ⟨List.replicate (n - n') (.ok ()) ++ more, ?_⟩
  rw [hsends, ← List.append_assoc, List.replicate_append_replicate, Nat.add_sub_cancel' hle]

theorem sendDatagram_willing {n : Nat} (h : t.Willing (n + 1)) (datagram : Bytes) :
    ∃ t', (sendDatagram datagram).exec t = some (.ok (), t') ∧ t'.Willing n ∧
      t'.recvs = t.recvs ∧ t'.sent = t.sent ++ [datagram] := by
  obtain ⟨more, hsends⟩ := h
  refine ⟨{ t with sends := List.replicate n (.ok ()) ++ more, sent := t.sent ++ [datagram] }, ?_,
    ⟨more, rfl⟩, rfl, rfl⟩
  rw [List.replicate_succ, List.cons_append] at hsends
  simp only [sendDatagram, Program.exec_ofFun, DatagramTransport.send, hsends]
  rfl

theorem recvDatagram_exec {reply : Option Datagram} {recvs : List (Except ε (Option Datagram))}
    (h : t.recvs = .ok reply :: recvs) :
    recvDatagram.exec t = some (.ok reply, { t with recvs }) := by
  simp only [recvDatagram, Program.exec_ofFun, DatagramTransport.recv, h]
  rfl

section Await
variable (flight : Bytes) {maxAttempts timeouts n : Nat} {t : DatagramTransport ε} {reply : Datagram}
  {recvs : List (Except ε (Option Datagram))}

theorem awaitBody_exec (attempts : Nat) (hleft : attempts + timeouts ≤ maxAttempts)
    (hwilling : t.Willing (timeouts + n))
    (hrecvs : t.recvs = List.replicate timeouts (.ok none) ++ .ok (some reply) :: recvs) :
    ∃ t', (Program.loop (awaitBody flight maxAttempts) attempts).exec t = some (.ok reply, t') ∧
      t'.Willing n ∧ t'.recvs = recvs := by
  induction timeouts generalizing attempts t with
  | zero =>
    rw [Nat.zero_add] at hwilling
    refine ⟨{ t with recvs }, ?_, hwilling, rfl⟩
    have hpass : ((awaitBody flight maxAttempts).pass attempts).exec t =
        some (.ok (.leave reply), { t with recvs }) :=
      Program.exec_bind_eq_ok.mpr ⟨_, _, recvDatagram_exec hrecvs, rfl⟩
    rw [Program.exec_loop, hpass]
  | succ timeouts ih =>
    rw [List.replicate_succ, List.cons_append] at hrecvs
    rw [Nat.add_right_comm] at hwilling
    let t₁ : DatagramTransport ε := { t with
      recvs := List.replicate timeouts (.ok none) ++ .ok (some reply) :: recvs }
    obtain ⟨t₂, hsend, hwilling₂, hrecvs₂, -⟩ := sendDatagram_willing (t := t₁) hwilling flight
    have hpass : ((awaitBody flight maxAttempts).pass attempts).exec t =
        some (.ok (.again (attempts + 1)), t₂) := by
      refine Program.exec_bind_eq_ok.mpr ⟨none, t₁, recvDatagram_exec hrecvs, ?_⟩
      dsimp only
      rw [if_neg (by omega)]
      exact Program.exec_bind_eq_ok.mpr ⟨(), t₂, hsend, rfl⟩
    rw [Program.exec_loop, hpass]
    exact ih (attempts + 1) (by omega) hwilling₂ hrecvs₂

/-- A reply comes within the attempts, and at each timeout before it the flight is sent again. -/
theorem sendFlightAwaitReply_exec (hfew : timeouts < maxAttempts)
    (hwilling : t.Willing (timeouts + 1 + n))
    (hrecvs : t.recvs = List.replicate timeouts (.ok none) ++ .ok (some reply) :: recvs) :
    ∃ t', (sendFlightAwaitReply flight maxAttempts).exec t = some (.ok reply, t') ∧ t'.Willing n ∧
      t'.recvs = recvs := by
  rw [Nat.add_right_comm] at hwilling
  obtain ⟨t₁, hsend, hwilling₁, hrecvs₁, -⟩ := sendDatagram_willing hwilling flight
  obtain ⟨t₂, hrun, hdone⟩ := awaitBody_exec flight 1 (show 1 + timeouts ≤ maxAttempts by omega) hwilling₁
    (hrecvs₁.trans hrecvs)
  exact ⟨t₂, Program.exec_bind_eq_ok.mpr ⟨(), t₁, hsend, hrun⟩, hdone⟩

end Await

section Collect
variable {cfg : DtlsConfig} {k : EpochKeys} {cid : Option Bytes}

/-- What the transport hands out: a datagram, or a timeout. -/
abbrev Reply (cfg : DtlsConfig) (k : EpochKeys) (cid : Option Bytes) (fl : Flight hsFinished) :=
  Option (Arrival cfg.aead cfg.masker k cid fl)

def arrived (replies : List (Reply cfg k cid fl)) : List (FragmentRecord cfg.aead cfg.masker k cid fl) :=
  replies.flatMap fun reply => (reply.map fun arrival => arrival.records).getD []

def timeouts (replies : List (Reply cfg k cid fl)) : Nat := replies.countP Option.isNone

def handedOut (replies : List (Reply cfg k cid fl)) : List (Except ε (Option Datagram)) :=
  replies.map fun reply => .ok (reply.map Arrival.datagram)

theorem arrived_cons (reply : Reply cfg k cid fl) (replies : List (Reply cfg k cid fl)) :
    arrived (reply :: replies) = (reply.map fun arrival => arrival.records).getD [] ++ arrived replies := rfl

/-- As soon as the replies have brought the whole flight, the loop is left with it. -/
theorem collectBody_exec (hcorrect : cfg.aead.Correct) {sh : ServerHelloRead} (retransmit : Bytes)
    {arena : Bytes} (hcid : sh.recvCidLen = cidLength cid) (hbase : sh.baseSeq = fl.base)
    (replies : List (Reply cfg k cid fl)) {later : List (Except ε (Option Datagram))} {n : Nat}
    {c : Collecting} {t : DatagramTransport ε} {done : List (FragmentRecord cfg.aead cfg.masker k cid fl)}
    (htaken : c.epoch2.Taken arena done) (hrecvs : t.recvs = handedOut replies ++ later)
    (hbudget : c.datagrams + replies.length ≤ maxFlightDatagrams)
    (hresends : timeouts replies ≤ c.resendsLeft) (hwilling : t.Willing (timeouts replies + n))
    (hfits : fl.Fits maxFlightMsgs maxMsgFrags arena.length
      ((done ++ arrived replies).flatMap FragmentRecord.fragments))
    (hreach : FlightRecord.InReach cfg.features.usizeBits done.length
      ((arrived replies).map FragmentRecord.toFlightRecord))
    (hcovered : fl.CoveredBy ((done ++ arrived replies).flatMap FragmentRecord.fragments)) :
    ∃ front back epoch2 t', replies = front ++ back ∧
      (Program.loop (collectBody cfg k sh retransmit) c).exec t = some (.ok epoch2, t') ∧
      epoch2.Taken arena (done ++ arrived front) ∧
      fl.CoveredBy ((done ++ arrived front).flatMap FragmentRecord.fragments) ∧
      t'.recvs = handedOut back ++ later ∧ t'.Willing n := by
  induction replies generalizing c t done with
  | nil =>
    refine ⟨[], [], c.epoch2, t, rfl, ?_, ?_, hcovered, hrecvs, by simpa [timeouts] using hwilling⟩
    · have hcomplete : c.epoch2.reasm.flightComplete sh.baseSeq hsFinished = true := by
        rw [hbase, htaken.flightComplete_iff]
        simpa [arrived] using hcovered
      rw [Program.exec_loop]
      simp only [collectBody, hcomplete, if_true, Program.exec_pure]
    · simpa [arrived] using htaken
  | cons reply replies ih =>
    by_cases hcomplete : c.epoch2.reasm.flightComplete sh.baseSeq hsFinished = true
    · refine ⟨[], reply :: replies, c.epoch2, t, rfl, ?_, ?_, ?_, hrecvs, ?_⟩
      · rw [Program.exec_loop]
        simp only [collectBody, hcomplete, if_true, Program.exec_pure]
      · simpa [arrived] using htaken
      · rw [hbase, htaken.flightComplete_iff] at hcomplete
        simpa [arrived] using hcomplete
      · exact hwilling.mono (Nat.le_add_left _ _)
    · have hmore : ¬ c.datagrams ≥ maxFlightDatagrams := by
        rw [List.length_cons] at hbudget
        omega
      rw [List.length_cons] at hbudget
      rw [handedOut, List.map_cons, List.cons_append, ← handedOut] at hrecvs
      let t₁ : DatagramTransport ε := { t with recvs := handedOut replies ++ later }
      have hrecv := recvDatagram_exec hrecvs
      cases reply with
      | none =>
        have hcount : timeouts (none :: replies) = timeouts replies + 1 := by simp [timeouts]
        rw [hcount] at hresends hwilling
        rw [Nat.add_right_comm] at hwilling
        obtain ⟨t₂, hsend, hwilling₂, hrecvs₂, -⟩ :=
          sendDatagram_willing (t := t₁) hwilling retransmit
        let c' : Collecting := { c with datagrams := c.datagrams + 1, resendsLeft := c.resendsLeft - 1 }
        have hpass : ((collectBody cfg k sh retransmit).pass c).exec t = some (.ok (.again c'), t₂) := by
          simp only [collectBody]
          rw [if_neg hcomplete, if_neg hmore]
          refine Program.exec_bind_eq_ok.mpr ⟨none, t₁, hrecv, ?_⟩
          dsimp only
          rw [if_neg (by omega)]
          exact Program.exec_bind_eq_ok.mpr ⟨(), t₂, hsend, rfl⟩
        obtain ⟨front, back, epoch2, t', rfl, hrun, hdone⟩ := ih (c := c') htaken hrecvs₂
          (by simp only [c']; omega) (by simp only [c']; omega) hwilling₂ hfits hreach hcovered
        refine ⟨none :: front, back, epoch2, t', rfl, ?_, hdone⟩
        rw [Program.exec_loop, hpass]
        exact hrun
      | some arrival =>
        have hcount : timeouts (some arrival :: replies) = timeouts replies := by simp [timeouts]
        rw [hcount] at hresends hwilling
        have hsplit : done ++ arrived (some arrival :: replies) =
            done ++ arrival.records ++ arrived replies := by
          rw [arrived_cons, Option.map_some, Option.getD_some, List.append_assoc]
        rw [hsplit] at hfits hcovered
        rw [arrived_cons, Option.map_some, Option.getD_some, List.map_append,
          FlightRecord.inReach_append, List.length_map, ← List.length_append] at hreach
        obtain ⟨epoch2, hfeed, htaken'⟩ :=
          htaken.feed (ε := ε) hcorrect arrival.toBurst (Epoch2.fits_front hfits) hreach.1
        rw [← hcid] at hfeed
        -- a skipped datagram has no records, so that the state is the old one
        have hpass : ∃ next : Epoch2, next.Taken arena (done ++ arrival.records) ∧
            ((collectBody cfg k sh retransmit).pass c).exec t =
              some (.ok (.again { c with datagrams := c.datagrams + 1, epoch2 := next }), t₁) := by
          simp only [collectBody]
          rw [if_neg hcomplete, if_neg hmore]
          rcases arrival.part with hpart | ⟨hpart, hnone⟩
          · refine ⟨epoch2, htaken', Program.exec_bind_eq_ok.mpr ⟨_, t₁, hrecv, ?_⟩⟩
            simp only [Option.map_some, hpart]
            exact Program.exec_bind_eq_ok.mpr
              ⟨epoch2, t₁, Program.exec_ofExcept_eq_ok.mpr ⟨hfeed, rfl⟩, rfl⟩
          · refine ⟨c.epoch2, by rwa [hnone, List.append_nil],
              Program.exec_bind_eq_ok.mpr ⟨_, t₁, hrecv, ?_⟩⟩
            simp only [Option.map_some, hpart]
            rfl
        obtain ⟨next, hnext, hpass⟩ := hpass
        obtain ⟨front, back, epoch2', t', rfl, hrun, hdone, hcov, hrest⟩ :=
          ih (c := { c with datagrams := c.datagrams + 1, epoch2 := next }) (t := t₁) hnext rfl
            (by dsimp only; omega) hresends hwilling hfits hreach.2 hcovered
        refine ⟨some arrival :: front, back, epoch2', t', rfl, ?_, ?_, ?_, hrest⟩
        · rw [Program.exec_loop, hpass]
          exact hrun
        · rw [arrived_cons, Option.map_some, Option.getD_some, ← List.append_assoc]
          exact hdone
        · rw [arrived_cons, Option.map_some, Option.getD_some, ← List.append_assoc]
          exact hcov

end Collect

end KrabiTls.Dtls
