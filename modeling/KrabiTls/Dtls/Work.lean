import KrabiTls.Dtls.Handshake
import Mathlib.Logic.Relation

/-! How much `connect` and `recv` send and receive, whatever the transport answers. -/
namespace KrabiTls.Dtls
open Lib

variable {ε α β : Type}

/-- Between two states of the transport `out` was sent and `reads` replies were received. -/
structure Spends (t t' : DatagramTransport ε) (out : List Bytes) (reads : Nat) : Prop where
  sent : t'.sent = t.sent ++ out
  sends : t'.sends = t.sends.drop out.length
  recvs : t'.recvs = t.recvs.drop reads

theorem Spends.refl (t : DatagramTransport ε) : Spends t t [] 0 := ⟨by simp, by simp, by simp⟩

theorem Spends.trans {t₁ t₂ t₃ : DatagramTransport ε} {sent more : List Bytes} {recvs moreRecvs : Nat}
    (h : Spends t₁ t₂ sent recvs) (h' : Spends t₂ t₃ more moreRecvs) :
    Spends t₁ t₃ (sent ++ more) (recvs + moreRecvs) where
  sent := by rw [h'.sent, h.sent, List.append_assoc]
  sends := by rw [h'.sends, h.sends, List.drop_drop, List.length_append]
  recvs := by rw [h'.recvs, h.recvs, List.drop_drop]

/-- Given `maxSends` and `maxRecvs` replies, a driver returns. However it ends, it has used no more
of them, `log` holds of what it sent, and `post` of what it returned. -/
structure Within (m : Driver ε α) (maxSends maxRecvs : Nat) (log : List Bytes → Prop)
    (post : α → Prop) : Prop where
  returns : ∀ t : DatagramTransport ε, maxSends ≤ t.sends.length → maxRecvs ≤ t.recvs.length →
    ∃ r, m.exec t = some r
  spends : ∀ t r t', m.exec t = some (r, t') → ∃ sent recvs, Spends t t' sent recvs ∧
    sent.length ≤ maxSends ∧ recvs ≤ maxRecvs ∧ log sent ∧ ∀ a, r = .ok a → post a

def Only (P : Bytes → Prop) (sent : List Bytes) : Prop := ∀ d ∈ sent, P d

theorem Only.nil {P : Bytes → Prop} : Only P [] := List.forall_mem_nil P

theorem Only.singleton {P : Bytes → Prop} {d : Bytes} (h : P d) : Only P [d] := List.forall_mem_singleton.mpr h

namespace Within

variable {m : Driver ε α} {f : α → Driver ε β} {s s' r r' : Nat} {log log' whole : List Bytes → Prop}
  {mid post' : α → Prop} {post : β → Prop}

theorem mono (h : Within m s r log mid) (hs : s ≤ s') (hr : r ≤ r')
    (hlog : ∀ sent, log sent → log' sent) (hpost : ∀ a, mid a → post' a) :
    Within m s' r' log' post' where
  returns t hsends hrecvs := h.returns t (hs.trans hsends) (hr.trans hrecvs)
  spends t result t' hexec := by
    obtain ⟨sent, recvs, hspends, hsent, hrecvs, hl, hp⟩ := h.spends t result t' hexec
    exact ⟨sent, recvs, hspends, hsent.trans hs, hrecvs.trans hr, hlog _ hl,
      fun a ha => hpost a (hp a ha)⟩

/-- The number of datagrams sent can be read off the log. -/
theorem bounded (h : Within m s r log mid) :
    Within m s r (fun sent => sent.length ≤ s ∧ log sent) mid where
  returns := h.returns
  spends t result t' hexec := by
    obtain ⟨sent, recvs, hspends, hsent, hrecvs, hlog, hpost⟩ := h.spends t result t' hexec
    exact ⟨sent, recvs, hspends, hsent, hrecvs, ⟨hsent, hlog⟩, hpost⟩

/-- The budgets of two parts add up; the first part may be the last if it fails. -/
theorem bind (hm : Within m s r log mid) (hf : ∀ a, mid a → Within (f a) s' r' log' post)
    (hfail : ∀ sent, log sent → whole sent)
    (hboth : ∀ sent more, log sent → log' more → whole (sent ++ more)) :
    Within (m >>= f) (s + s') (r + r') whole post where
  returns t hsends hrecvs := by
    obtain ⟨⟨result, t₁⟩, hexec⟩ := hm.returns t (by omega) (by omega)
    obtain ⟨sent, recvs, hspends, hsent, hrecv, _, hmid⟩ := hm.spends t result t₁ hexec
    rw [Program.exec_bind, hexec]
    cases result with
    | error e => exact ⟨_, rfl⟩
    | ok a =>
      refine (hf a (hmid a rfl)).returns t₁ ?_ ?_
      · rw [hspends.sends, List.length_drop]
        omega
      · rw [hspends.recvs, List.length_drop]
        omega
  spends t result t' hexec := by
    rw [Program.exec_bind] at hexec
    split at hexec
    · cases hexec
    · rename_i e t₁ hfirst
      cases hexec
      obtain ⟨sent, recvs, hspends, hsent, hrecv, hlog, _⟩ := hm.spends _ _ _ hfirst
      exact ⟨sent, recvs, hspends, by omega, by omega, hfail _ hlog, fun _ h => nomatch h⟩
    · rename_i a t₁ hfirst
      obtain ⟨sent, recvs, hspends, hsent, hrecv, hlog, hmid⟩ := hm.spends _ _ _ hfirst
      obtain ⟨more, moreRecvs, hspends', hmore, hrecv', hlog', hpost⟩ :=
        (hf a (hmid a rfl)).spends _ _ _ hexec
      refine ⟨sent ++ more, recvs + moreRecvs, hspends.trans hspends', ?_, by omega,
        hboth _ _ hlog hlog', hpost⟩
      rw [List.length_append]
      omega

theorem ofExcept {x : Except (DtlsClientError ε) β} (hlog : log [])
    (hpost : ∀ b, x = .ok b → post b) : Within (.ofExcept x : Driver ε β) 0 0 log post where
  returns t _ _ := ⟨_, rfl⟩
  spends t result t' hexec := by
    cases hexec
    exact ⟨[], 0, .refl t, le_rfl, le_rfl, hlog, hpost⟩

theorem pure {b : β} (hlog : log []) (hpost : post b) :
    Within (Pure.pure b : Driver ε β) s r log post :=
  (ofExcept (x := .ok b) hlog (fun _ h => Except.ok.inj h ▸ hpost)).mono (Nat.zero_le s)
    (Nat.zero_le r) (fun _ => id) (fun _ => id)

theorem throw {e : DtlsClientError ε} (hlog : log []) :
    Within (MonadExcept.throw e : Driver ε β) s r log post :=
  (ofExcept (x := .error e) hlog (fun _ h => nomatch h)).mono (Nat.zero_le s)
    (Nat.zero_le r) (fun _ => id) (fun _ => id)

theorem sendDatagram {d : Bytes} (hlog : log [d]) :
    Within (ε := ε) (sendDatagram d) 1 0 log fun _ => True where
  returns t hsends _ := by
    obtain ⟨sends, recvs, sent⟩ := t
    cases sends with
    | nil => cases hsends
    | cons reply sends => exact ⟨_, rfl⟩
  spends t result t' hexec := by
    obtain ⟨sends, recvs, sent⟩ := t
    cases sends with
    | nil => cases hexec
    | cons reply sends =>
      cases hexec
      exact ⟨[d], 0, ⟨rfl, rfl, rfl⟩, le_rfl, le_rfl, hlog, fun _ _ => trivial⟩

theorem recvDatagram (hlog : log []) : Within (ε := ε) recvDatagram 0 1 log fun _ => True where
  returns t _ hrecvs := by
    obtain ⟨sends, recvs, sent⟩ := t
    cases recvs with
    | nil => cases hrecvs
    | cons reply recvs => exact ⟨_, rfl⟩
  spends t result t' hexec := by
    obtain ⟨sends, recvs, sent⟩ := t
    cases recvs with
    | nil => cases hexec
    | cons reply recvs =>
      cases hexec
      exact ⟨[], 1, ⟨by simp, rfl, rfl⟩, le_rfl, le_rfl, hlog, fun _ _ => trivial⟩

theorem bind_each {P : Bytes → Prop} {sends recvs : Nat}
    (hm : Within m s r (Only P) mid)
    (hf : ∀ a, mid a → Within (f a) s' r' (Only P) post)
    (hsends : s + s' ≤ sends) (hrecvs : r + r' ≤ recvs) :
    Within (m >>= f) sends recvs (Only P) post := by
  refine (hm.bind hf (fun _ => id) ?_).mono hsends hrecvs (fun _ => id) (fun _ => id)
  intro sent more hsent hmore
  exact List.forall_mem_append.mpr ⟨hsent, hmore⟩

theorem ofExcept_bind {x : Except (DtlsClientError ε) α} (hlog : log [])
    (hf : ∀ a, x = .ok a → Within (f a) s r log post) :
    Within (.ofExcept x >>= f : Driver ε β) s r log post := by
  cases x with
  | error e => exact (throw (e := e) hlog : Within (MonadExcept.throw e : Driver ε β) s r log post)
  | ok a => exact hf a rfl

section Flights
variable {P : Bytes → Prop} {flight : Bytes}

theorem await (hflight : P flight) {maxAttempts attempts left : Nat}
    (hleft : attempts + left = maxAttempts) :
    Within (ε := ε) (.loop (awaitBody flight maxAttempts) attempts) left (left + 1)
      (Only P) fun _ => True := by
  induction left generalizing attempts with
  | zero =>
    rw [Program.loop_eq]
    simp only [awaitBody, bind_assoc]
    refine bind_each (recvDatagram .nil) (fun reply _ => ?_) (Nat.add_zero 0).le
      (show 1 + 0 ≤ 0 + 1 from le_rfl)
    cases reply with
    | some reply => exact pure .nil trivial
    | none =>
      have hdone : attempts ≥ maxAttempts := by omega
      simp only [if_pos hdone]
      exact throw .nil
  | succ left ih =>
    rw [Program.loop_eq]
    simp only [awaitBody, bind_assoc]
    refine bind_each (recvDatagram .nil) (fun reply _ => ?_) (Nat.zero_add (left + 1)).le
      (Nat.add_comm 1 (left + 1)).le
    cases reply with
    | some reply => exact pure .nil trivial
    | none =>
      have hmore : ¬ attempts ≥ maxAttempts := by omega
      simp only [if_neg hmore, bind_assoc, pure_bind]
      exact bind_each (sendDatagram (.singleton hflight)) (fun _ _ => ih (by omega))
        (Nat.add_comm 1 left).le (Nat.zero_add (left + 1)).le

theorem sendFlightAwaitReply (hflight : P flight) :
    Within (ε := ε) (sendFlightAwaitReply flight maxFlightAttempts) maxFlightAttempts
      maxFlightAttempts (Only P) fun _ => True :=
  bind_each (sendDatagram (.singleton hflight)) (fun _ _ => 
    await hflight (show 1 + 4 = maxFlightAttempts from rfl)) le_rfl le_rfl

end Flights

end Within

variable {cfg : DtlsConfig} (args : ConnectArgs cfg)

/-- The datagram is the record of a `ClientHello`. -/
def IsClientHelloRecord (ε : Type) (d : Bytes) : Prop :=
  ∃ body messageSeq recordSeq,
    buildClientHelloRecord (ε := ε) body messageSeq recordSeq chDgramLen = .ok d

theorem helloExchange_within (pubKey : Block 32) :
    Within (helloExchange (ε := ε) args pubKey) (2 * maxFlightAttempts) (2 * maxFlightAttempts)
      (Only (IsClientHelloRecord ε)) fun x => IsClientHelloRecord ε x.retransmit := by
  refine .ofExcept_bind .nil fun ch1 _ => .ofExcept_bind .nil fun ch1Rec hch1Rec => ?_
  have hhello : IsClientHelloRecord ε ch1Rec := ⟨_, _, _, hch1Rec⟩
  refine .bind_each (.sendFlightAwaitReply hhello) (fun first _ => ?_)
    (Nat.two_mul maxFlightAttempts).ge (Nat.two_mul maxFlightAttempts).ge
  refine .ofExcept_bind .nil fun parsed _ => .ofExcept_bind .nil fun kind _ => ?_
  cases kind with
  | hello suite share cid => exact .pure .nil hhello
  | retry suite cookie =>
    refine .ofExcept_bind .nil fun _ _ => .ofExcept_bind .nil fun _ _ =>
      .ofExcept_bind .nil fun ch1Hash _ => .ofExcept_bind .nil fun ch2 _ =>
      .ofExcept_bind .nil fun ch2Rec hch2Rec => ?_
    have hsecond : IsClientHelloRecord ε ch2Rec := ⟨_, _, _, hch2Rec⟩
    exact .bind_each (.sendFlightAwaitReply hsecond) (fun reply _ => .pure .nil hsecond)
      (show maxFlightAttempts + 0 ≤ maxFlightAttempts from le_rfl)
      (show maxFlightAttempts + 0 ≤ maxFlightAttempts from le_rfl)

variable {serverKeys : EpochKeys} {sh : ServerHelloRead} {retransmit : Bytes}

theorem collect_within (hhello : IsClientHelloRecord ε retransmit) {left : Nat} {c : Collecting}
    (hleft : c.datagrams + left = maxFlightDatagrams) :
    Within (ε := ε) (.loop (collectBody cfg serverKeys sh retransmit) c) c.resendsLeft left
      (Only (IsClientHelloRecord ε)) fun _ => True := by
  induction left generalizing c with
  | zero =>
    have hdone : c.datagrams ≥ maxFlightDatagrams := by omega
    rw [Program.loop_eq]
    by_cases hcomplete : c.epoch2.reasm.flightComplete sh.baseSeq hsFinished = true
    · simp only [collectBody, if_pos hcomplete]
      exact .pure .nil trivial
    · simp only [collectBody, if_neg hcomplete, if_pos hdone]
      exact .throw .nil
  | succ left ih =>
    have hmore : ¬ c.datagrams ≥ maxFlightDatagrams := by omega
    rw [Program.loop_eq]
    by_cases hcomplete : c.epoch2.reasm.flightComplete sh.baseSeq hsFinished = true
    · simp only [collectBody, if_pos hcomplete]
      exact .pure .nil trivial
    · simp only [collectBody, if_neg hcomplete, if_neg hmore, bind_assoc]
      refine .bind_each (.recvDatagram .nil) (fun reply _ => ?_) (Nat.zero_add c.resendsLeft).le
        (Nat.add_comm 1 left).le
      cases reply with
      | none =>
        by_cases hempty : c.resendsLeft = 0
        · simp only [if_pos hempty]
          exact .throw .nil
        · simp only [if_neg hempty, bind_assoc, pure_bind]
          exact .bind_each (.sendDatagram (.singleton hhello))
            (fun _ _ => ih (c := { c with datagrams := _, resendsLeft := _ })
              (show c.datagrams + 1 + left = _ by omega))
            (show 1 + (c.resendsLeft - 1) ≤ c.resendsLeft by omega) (Nat.zero_add left).le
      | some datagram =>
        dsimp only
        split
        · simp only [pure_bind]
          exact ih (c := { c with datagrams := _ }) (show c.datagrams + 1 + left = _ by omega)
        · simp only [bind_assoc, pure_bind]
          exact .ofExcept_bind .nil fun epoch2 _ =>
            ih (c := { c with datagrams := _, epoch2 }) (show c.datagrams + 1 + left = _ by omega)

theorem collectFlight_within (hhello : IsClientHelloRecord ε retransmit) :
    Within (ε := ε) (collectFlight args serverKeys sh retransmit) (maxFlightAttempts - 1)
      maxFlightDatagrams (Only (IsClientHelloRecord ε)) fun _ => True :=
  .ofExcept_bind .nil fun _ _ => collect_within hhello (Nat.zero_add maxFlightDatagrams)

/-- The datagram is the record of a `Finished` of the client. -/
def IsFinishedRecord (ε : Type) (cfg : DtlsConfig) (d : Bytes) : Prop :=
  ∃ hk cid messageSeq thServerFin,
    sealFinished (ε := ε) cfg hk cid messageSeq thServerFin = .ok d

def IsAckRecord (ε : Type) (cfg : DtlsConfig) (d : Bytes) : Prop :=
  ∃ hk cid acked, sealAck (ε := ε) cfg hk cid acked = .ok d

/-- What `connect` has once the flight is authenticated. -/
structure Authenticated (cfg : DtlsConfig) where
  keys : HandshakeKeys
  sh : ServerHelloRead
  messageSeq : Nat
  epoch2 : Epoch2
  trusted : Trusted cfg
  thServerFin : TranscriptDigest

/-- `connect` up to the point at which the server is authenticated. -/
def authenticated : Driver ε (Authenticated cfg) := do
  let (secret, pubKey) ← .ofExcept (generateShare args)
  let x ← helloExchange args pubKey
  let sh ← .ofExcept (readServerHello args x)
  let hk ← .ofExcept (handshakeKeys secret sh)
  let epoch2 ← collectFlight args hk.server sh x.retransmit
  let trusted ← .ofExcept (trustFlight args epoch2)
  let thServerFin ← .ofExcept (authenticateFlight sh.transcript hk.serverHsTs trusted)
  pure ⟨hk, sh, x.clientFinMsgSeq, epoch2, trusted, thServerFin⟩

theorem connect_eq : connect (ε := ε) args = authenticated args >>= fun v =>
    finishConnect cfg v.keys v.sh v.messageSeq v.epoch2 v.trusted.peerRecordLimit v.thServerFin := by
  simp only [connect, authenticated, bind_assoc, pure_bind]

theorem authenticated_within :
    Within (authenticated (ε := ε) args) (3 * maxFlightAttempts - 1)
      (2 * maxFlightAttempts + maxFlightDatagrams) (Only (IsClientHelloRecord ε))
      fun v => trustFlight (ε := ε) args v.epoch2 = .ok v.trusted := by
  refine .ofExcept_bind .nil fun secret _ => ?_
  refine .bind_each (helloExchange_within args _) (fun x hhello => ?_)
    (show 2 * maxFlightAttempts + (maxFlightAttempts - 1) ≤ _ from le_rfl) le_rfl
  refine .ofExcept_bind .nil fun sh _ => .ofExcept_bind .nil fun hk _ => ?_
  refine .bind_each (collectFlight_within args hhello) (fun epoch2 _ => ?_)
    (Nat.add_zero _).le (Nat.add_zero _).le
  exact .ofExcept_bind .nil fun trusted htrusted => .ofExcept_bind .nil fun thServerFin _ =>
    .pure .nil htrusted

/-- The client fresh from the handshake. -/
structure Established.Fresh (client : Established) (limit : Option Nat) : Prop where
  resends : client.finResendsLeft = maxFlightAttempts
  unseen : client.serverReplay.seenAny = false
  limit_eq : client.peerRecordLimit = limit

/-- The end of the handshake sends the `Finished` and the acknowledgement. -/
theorem finishConnect_within {hk : HandshakeKeys} {sh : ServerHelloRead} {messageSeq : Nat}
    {epoch2 : Epoch2} {limit : Option Nat} {thServerFin : TranscriptDigest} {log : List Bytes → Prop}
    (hnil : log [])
    (hfin : ∀ finRec, sealFinished (ε := ε) cfg hk sh.cid messageSeq thServerFin = .ok finRec →
      log [finRec])
    (hack : ∀ finRec ackRec, sealFinished (ε := ε) cfg hk sh.cid messageSeq thServerFin = .ok finRec →
      sealAck (ε := ε) cfg hk sh.cid epoch2.acked = .ok ackRec → log [finRec, ackRec]) :
    Within (ε := ε) (finishConnect cfg hk sh messageSeq epoch2 limit thServerFin) 2 0 log
      (Established.Fresh · limit) := by
  refine .ofExcept_bind hnil fun finRec hfinRec => ?_
  have hsendFin : Within (ε := ε) (sendDatagram finRec) 1 0 (· = [finRec]) fun _ => True :=
    .sendDatagram rfl
  refine hsendFin.bind (fun _ _ =>
    (?_ : Within _ 1 0 (fun sent => log (finRec :: sent)) (Established.Fresh · limit))) ?_ ?_
  · refine .ofExcept_bind (hfin finRec hfinRec) fun ackRec hackRec => ?_
    have hsendAck : Within (ε := ε) (sendDatagram ackRec) 1 0 (· = [ackRec]) fun _ => True :=
      .sendDatagram rfl
    refine hsendAck.bind (fun _ _ => (?_ : Within _ 0 0 (· = []) (Established.Fresh · limit))) ?_ ?_
    · exact .ofExcept_bind rfl fun keys _ => .pure rfl ⟨rfl, rfl, rfl⟩
    · rintro _ rfl
      exact hack finRec ackRec hfinRec hackRec
    · rintro _ _ rfl rfl
      exact hack finRec ackRec hfinRec hackRec
  · rintro _ rfl
    exact hfin finRec hfinRec
  · rintro _ more rfl hmore
    exact hmore

def AtMostOne (P : Bytes → Prop) (sent : List Bytes) : Prop := sent.length ≤ 1 ∧ Only P sent

theorem AtMostOne.nil {P : Bytes → Prop} : AtMostOne P [] := ⟨Nat.zero_le 1, .nil⟩

theorem AtMostOne.singleton {P : Bytes → Prop} {d : Bytes} (h : P d) : AtMostOne P [d] :=
  ⟨le_rfl, .singleton h⟩

/-- At most `maxHellos` records of `ClientHello`s, at most one `Finished`, and at most one
acknowledgement after it. -/
def HandshakeLog (ε : Type) (cfg : DtlsConfig) (maxHellos : Nat) (sent : List Bytes) : Prop :=
  ∃ hellos finished acks, sent = hellos ++ (finished ++ acks) ∧ hellos.length ≤ maxHellos ∧
    Only (IsClientHelloRecord ε) hellos ∧ AtMostOne (IsFinishedRecord ε cfg) finished ∧
    AtMostOne (IsAckRecord ε cfg) acks

theorem connect_within :
    Within (connect (ε := ε) args) (3 * maxFlightAttempts - 1 + 2)
      (2 * maxFlightAttempts + maxFlightDatagrams)
      (HandshakeLog ε cfg (3 * maxFlightAttempts - 1)) fun client => ∃ limit, client.Fresh limit := by
  rw [connect_eq]
  refine (authenticated_within args).bounded.bind (fun v _ =>
    (?_ : Within _ 2 0 (HandshakeLog ε cfg 0)
      fun (client : Established) => ∃ limit, client.Fresh limit)) ?_ ?_
  · refine (finishConnect_within ?_ ?_ ?_).mono le_rfl le_rfl
      (fun _ => id) fun client hfresh => ⟨_, hfresh⟩
    · exact ⟨[], [], [], rfl, le_rfl, .nil, .nil, .nil⟩
    · intro finRec hfin
      exact ⟨[], [finRec], [], rfl, le_rfl, .nil, .singleton ⟨_, _, _, _, hfin⟩, .nil⟩
    · intro finRec ackRec hfin hack
      exact ⟨[], [finRec], [ackRec], rfl, le_rfl, .nil, .singleton ⟨_, _, _, _, hfin⟩,
        .singleton ⟨_, _, _, hack⟩⟩
  · rintro hellos ⟨hlen, hhellos⟩
    exact ⟨hellos, [], [], (List.append_nil hellos).symm, hlen, hhellos, .nil, .nil⟩
  · rintro sent _ ⟨hlen, hsent⟩ ⟨hellos, finished, acks, rfl, hnone, _, hfin, hack⟩
    rw [List.eq_nil_of_length_eq_zero (Nat.le_zero.mp hnone)]
    exact ⟨sent, finished, acks, rfl, hlen, hsent, hfin, hack⟩

section Resends
variable {a : AeadBackend} {m : Masker}

/-- The budget for resending the `Finished` is untouched, or an epoch-3 record has ended it. -/
structure DtlsReceiver.Keeps (c c' : DtlsReceiver) : Prop where
  finFlight : c'.finFlight = c.finFlight
  budget : (c'.serverReplay.seenAny = c.serverReplay.seenAny ∧ c'.finResendsLeft = c.finResendsLeft) ∨
    (c'.serverReplay.seenAny = true ∧ c'.finResendsLeft = 0)

theorem ReplayWindow.mark_seenAny (w : ReplayWindow) (seq : Nat) : (w.mark seq).seenAny = true := by
  grind [ReplayWindow.mark]

namespace DtlsReceiver

theorem Keeps.refl (c : DtlsReceiver) : c.Keeps c := ⟨rfl, .inl ⟨rfl, rfl⟩⟩

theorem Keeps.trans {c₁ c₂ c₃ : DtlsReceiver} (h : c₁.Keeps c₂) (h' : c₂.Keeps c₃) : c₁.Keeps c₃ where
  finFlight := h'.finFlight.trans h.finFlight
  budget := by
    obtain ⟨hseen, hleft⟩ | hended := h'.budget
    · rw [hseen, hleft]
      exact h.budget
    · exact .inr hended

theorem Keeps.acceptSeq {c c' : DtlsReceiver} (h : c.Keeps c') (seq : Nat) : c.Keeps (c'.acceptSeq seq) :=
  ⟨h.finFlight, .inr ⟨c'.serverReplay.mark_seenAny seq, rfl⟩⟩

theorem Keeps.seenAny {c c' : DtlsReceiver} (h : c.Keeps c') (hseen : c.serverReplay.seenAny = true) :
    c'.serverReplay.seenAny = true := by
  obtain ⟨hsame, -⟩ | ⟨hended, -⟩ := h.budget
  · exact hsame.trans hseen
  · exact hended

theorem walkLoop_keeps (st : Bool × Bytes × DtlsReceiver) : st.2.2.Keeps ((walkLoop a m).run st).2 := by
  refine Loop.run_induct (l := walkLoop a m) (fun t => st.2.2.Keeps t.2.2) (fun r => st.2.2.Keeps r.2)
    ?_ ?_ _ (.refl _)
  · rintro ⟨atHead, rest, c'⟩ t hkeeps h
    dsimp only [walkLoop] at h
    repeat' split at h
    all_goals cases h
    · exact hkeeps
    · exact hkeeps.acceptSeq _
  · rintro ⟨atHead, rest, c'⟩ r hkeeps h
    dsimp only [walkLoop] at h
    repeat' split at h
    all_goals cases h
    all_goals first | exact hkeeps | exact hkeeps.acceptSeq _

theorem walk_keeps (c : DtlsReceiver) (datagram : Bytes) : c.Keeps (c.walk a m datagram).2 :=
  walkLoop_keeps (true, datagram, c)

/-- The walk stands in front of an epoch-3 record that authenticates and that the window accepts. -/
def newRecord (a : AeadBackend) (m : Masker) : Bool × Bytes × DtlsReceiver → Bool
  | (_, [], _) => false
  | (atHead, first :: tail, c) =>
      isCiphertextRecord first && !(atHead && first &&& 0b11 = 0b10) &&
        (c.serverApp.openRecord a m c.recvCidLen c.recvHint (first :: tail)).toOption.any fun opened =>
          opened.recordLen ≠ 0 && c.serverReplay.accepts opened.seq

/-- The walk comes to such a record. -/
inductive Accepts (a : AeadBackend) (m : Masker) : Bool × Bytes × DtlsReceiver → Prop
  | here {st} (h : newRecord a m st = true) : Accepts a m st
  | later {st st'} (hagain : (walkLoop a m).body st = .again st') (h : Accepts a m st') : Accepts a m st

theorem Accepts.seenAny {st : Bool × Bytes × DtlsReceiver} (h : Accepts a m st) :
    ((walkLoop a m).run st).2.serverReplay.seenAny = true := by
  induction h with
  | @here st h =>
    obtain ⟨atHead, _ | ⟨first, tail⟩, c⟩ := st
    · cases h
    · simp only [newRecord, Bool.and_eq_true, Option.any_eq_true, Bool.not_eq_true',
        decide_eq_true_eq, Bool.and_eq_false_imp, decide_eq_false_iff_not] at h
      obtain ⟨⟨hcipher, hepoch⟩, opened, hopen, hlen, hnew⟩ := h
      have hbody := walkLoop_body a m (Eq.refl (first :: tail)) hcipher (by simpa using hepoch) c
      rw [toOption_eq_some.mp hopen] at hbody
      dsimp only at hbody
      rw [if_neg hlen, if_neg (not_not_intro hnew)] at hbody
      split at hbody
      · rw [Loop.run_of_leave hbody]
        exact c.serverReplay.mark_seenAny opened.seq
      · rw [Loop.run_of_again hbody]
        exact (walkLoop_keeps _).seenAny (c.serverReplay.mark_seenAny opened.seq)
  | later hagain _ ih => rwa [Loop.run_of_again hagain]

end DtlsReceiver

namespace DtlsLink

variable {s s' : DtlsLink ε}

/-- One pass of a `recv` call. -/
def RecvStep (a : AeadBackend) (m : Masker) (s s' : DtlsLink ε) : Prop :=
  ∃ bufLen r, (recvPass a m bufLen).exec s = some (r, s')

theorem nextInput_keeps {reply : Except ε (Option Bytes)} (h : s.nextInput = some (reply, s')) :
    s.client.Keeps s'.client ∧ s'.transport.sent = s.transport.sent := by
  unfold nextInput at h
  split at h
  · cases h
    exact ⟨⟨rfl, .inl ⟨rfl, rfl⟩⟩, rfl⟩
  · simp only [Option.map_eq_some_iff, DatagramTransport.recv] at h
    obtain ⟨⟨r, t⟩, hrecv, hret⟩ := h
    split at hrecv
    · cases hrecv
    · cases hrecv
      cases hret
      exact ⟨.refl _, rfl⟩

/-- What a pass does to the budget: it keeps it and sends nothing, or spends one resend. -/
theorem recvStep_cases (h : RecvStep a m s s') :
    (s.client.Keeps s'.client ∧ s'.transport.sent = s.transport.sent) ∨
    (s.client.finResendsLeft = s'.client.finResendsLeft + 1 ∧
      s'.client.finFlight = s.client.finFlight ∧
      s'.client.serverReplay.seenAny = s.client.serverReplay.seenAny ∧
      s'.transport.sent = s.transport.sent ++ [s.client.finFlight]) := by
  obtain ⟨bufLen, r, h⟩ := h
  rw [recvPass, Program.exec_ofFun] at h
  split at h
  · cases h
  · rename_i hnext
    cases h
    exact .inl (nextInput_keeps hnext)
  · rename_i hnext
    cases h
    exact .inl (nextInput_keeps hnext)
  · rename_i datagram s₁ hnext
    obtain ⟨hkeeps, hsent⟩ := nextInput_keeps hnext
    have hwalk := hkeeps.trans (s₁.client.walk_keeps (a := a) (m := m) datagram)
    generalize s₁.client.walk a m datagram = walked at h hwalk
    obtain ⟨walked, client⟩ := walked
    dsimp only at h hwalk
    split at h
    · cases h
      exact .inl ⟨hwalk, hsent⟩
    · simp only [Option.map_eq_some_iff] at h
      obtain ⟨⟨reply, s₂⟩, hresend, hret⟩ := h
      cases (Prod.mk.inj hret).2
      obtain ⟨-, rfl⟩ | ⟨hleft, sends, rfl⟩ := resendFinished_eq_some hresend
      · exact .inl ⟨hwalk, hsent⟩
      · -- the budget is not empty, so no record has ended it
        obtain ⟨hseen, hsame⟩ | ⟨-, hzero⟩ := hwalk.budget
        · refine .inr ⟨?_, hwalk.finFlight, hseen, ?_⟩
          · show s.client.finResendsLeft = client.finResendsLeft - 1 + 1
            dsimp only at hleft
            omega
          · rw [hsent, hwalk.finFlight]
        · dsimp only at hleft
          omega
    · split at h
      · cases h
        exact .inl ⟨hwalk, hsent⟩
      · cases h
        exact .inl ⟨⟨hwalk.finFlight, hwalk.budget⟩, hsent⟩

/-- A pass that accepts an epoch-3 record. -/
def RecvAccepts (a : AeadBackend) (m : Masker) (s s' : DtlsLink ε) : Prop :=
  RecvStep a m s s' ∧ ∃ datagram s₁, s.nextInput = some (.ok (some datagram), s₁) ∧
    DtlsReceiver.Accepts a m (true, datagram, s₁.client)

theorem RecvAccepts.seenAny (h : RecvAccepts a m s s') : s'.client.serverReplay.seenAny = true := by
  obtain ⟨⟨bufLen, r, hpass⟩, datagram, s₁, hnext, haccepts⟩ := h
  have hseen : (s₁.client.walk a m datagram).2.serverReplay.seenAny = true := haccepts.seenAny
  rw [recvPass, Program.exec_ofFun, hnext] at hpass
  dsimp only at hpass
  split at hpass
  · cases hpass
    exact hseen
  · simp only [Option.map_eq_some_iff] at hpass
    obtain ⟨⟨reply, s₂⟩, hresend, hret⟩ := hpass
    cases (Prod.mk.inj hret).2
    obtain ⟨-, rfl⟩ | ⟨-, sends, rfl⟩ := resendFinished_eq_some hresend <;> exact hseen
  · split at hpass <;> cases hpass <;> exact hseen

def Receives (a : AeadBackend) (m : Masker) : DtlsLink ε → DtlsLink ε → Prop :=
  Relation.ReflTransGen (RecvStep a m)

theorem receives_of_recv {bufLen : Nat} {r : Except (DtlsClientError ε) (Option Bytes)}
    (h : (recv a m bufLen).exec s = some (r, s')) :
    Receives a m s s' := by
  have hpasses : Program.Triple (Receives a m s) (recv a m bufLen) (fun _ => Receives a m s)
      (fun _ => Receives a m s) := by
    refine Program.Triple.loop (fun _ => Receives a m s) (fun _ => ?_) ()
    intro s₁ hs₁ r₁ s₂ hpass
    have hs₂ : Receives a m s s₂ := Relation.ReflTransGen.tail hs₁ ⟨bufLen, r₁, hpass⟩
    rcases r₁ with _ | _ | _ <;> exact hs₂
  cases r with
  | ok x => exact hpasses.ok .refl h
  | error e => exact hpasses.error .refl h

theorem receives_of_recvAll {bufLens : List Nat}
    {results : List (Except (DtlsClientError ε) (Option Bytes))}
    (h : recvAll a m s bufLens = some (results, s')) : Receives a m s s' := by
  induction bufLens generalizing s results with
  | nil =>
    cases h
    exact .refl
  | cons bufLen rest ih =>
    rw [recvAll] at h
    split at h
    · cases h
    · rename_i r s₁ hrecv
      obtain ⟨⟨later, s₂⟩, hrest, hret⟩ := Option.map_eq_some_iff.mp h
      cases hret
      exact (receives_of_recv hrecv).trans (ih hrest)

theorem Receives.resends (h : Receives a m s s') :
    ∃ n, s'.transport.sent = s.transport.sent ++ List.replicate n s.client.finFlight ∧
      n + s'.client.finResendsLeft ≤ s.client.finResendsLeft ∧
      s'.client.finFlight = s.client.finFlight := by
  induction h with
  | refl => exact ⟨0, by simp, by omega, rfl⟩
  | tail _ hstep ih =>
    obtain ⟨n, hsent, hpaid, hflight⟩ := ih
    obtain ⟨hkeeps, hsame⟩ | ⟨hspent, hflight', _, hmore⟩ := recvStep_cases hstep
    · refine ⟨n, hsame.trans hsent, ?_, hkeeps.finFlight.trans hflight⟩
      obtain ⟨-, hleft⟩ | ⟨-, hleft⟩ := hkeeps.budget <;> omega
    · refine ⟨n + 1, ?_, by omega, hflight'.trans hflight⟩
      rw [hmore, hsent, hflight, List.append_assoc, ← List.replicate_succ']

/-- Once an epoch-3 record was accepted there is no budget left. -/
def Confirmed (s : DtlsLink ε) : Prop :=
  s.client.serverReplay.seenAny = true → s.client.finResendsLeft = 0

theorem Receives.confirmed {s s' : DtlsLink ε} (h : Receives a m s s') (hs : s.Confirmed) :
    s'.Confirmed := by
  induction h with
  | refl => exact hs
  | tail _ hstep ih =>
    intro hseen
    obtain ⟨hkeeps, _⟩ | ⟨hspent, _, hsame, _⟩ := recvStep_cases hstep
    · obtain ⟨hold, hleft⟩ | ⟨-, hzero⟩ := hkeeps.budget
      · rw [hleft]
        exact ih (hold ▸ hseen)
      · exact hzero
    · have hzero := ih (hsame ▸ hseen)
      omega

end DtlsLink

end Resends

/-- `connect` returns once it has been given as many replies as this, and what it did fits the
budget. On the client it returned, the passes of any `recv` calls resend the `Finished` a bounded
number of times, and not in or after a pass that accepts an epoch-3 record. -/
theorem connect_bounded (t : DatagramTransport ε) :
    (3 * maxFlightAttempts - 1 + 2 ≤ t.sends.length →
      2 * maxFlightAttempts + maxFlightDatagrams ≤ t.recvs.length →
      ∃ r, (connect args).exec t = some r) ∧
    ∀ r t', (connect args).exec t = some (r, t') →
      (∃ hellos finished acks reads, Spends t t' (hellos ++ (finished ++ acks)) reads ∧
        hellos.length ≤ 3 * maxFlightAttempts - 1 ∧ Only (IsClientHelloRecord ε) hellos ∧
        AtMostOne (IsFinishedRecord ε cfg) finished ∧ AtMostOne (IsAckRecord ε cfg) acks ∧
        reads ≤ 2 * maxFlightAttempts + maxFlightDatagrams) ∧
      ∀ client, r = .ok client → ∀ start : DtlsLink ε, start.client = client.toDtlsReceiver →
        (∀ bufLens results s, DtlsLink.recvAll cfg.aead cfg.masker start bufLens = some (results, s) →
          DtlsLink.Receives cfg.aead cfg.masker start s) ∧
        ∀ s, DtlsLink.Receives cfg.aead cfg.masker start s →
          (∃ n ≤ maxFlightAttempts,
            s.transport.sent = start.transport.sent ++ List.replicate n client.finFlight) ∧
          ∀ s₁, DtlsLink.RecvAccepts cfg.aead cfg.masker s s₁ →
            ∀ s', DtlsLink.Receives cfg.aead cfg.masker s₁ s' →
              s'.transport.sent = s.transport.sent := by
  have hwithin := connect_within (ε := ε) args
  refine ⟨hwithin.returns t, fun r t' hexec => ?_⟩
  obtain ⟨_, reads, hspends, _, hreads, ⟨hellos, finished, acks, rfl, hlen, hhellos, hfin, hack⟩,
    hfresh⟩ := hwithin.spends t r t' hexec
  refine ⟨⟨hellos, finished, acks, reads, hspends, hlen, hhellos, hfin, hack, hreads⟩, ?_⟩
  intro client hclient start hstart
  obtain ⟨_, hresends, hunseen, _⟩ := hfresh client hclient
  refine ⟨fun bufLens results s => DtlsLink.receives_of_recvAll, fun s hrun => ⟨?_, ?_⟩⟩
  · obtain ⟨n, hsent, hpaid, _⟩ := hrun.resends
    rw [hstart] at hsent hpaid
    exact ⟨n, by omega, hsent⟩
  · intro s₁ haccepts s' hmore
    have hfresh : start.Confirmed := fun h => absurd ((hstart ▸ hunseen).symm.trans h) (by decide)
    have hzero : s₁.client.finResendsLeft = 0 :=
      DtlsLink.Receives.confirmed (hrun.tail haccepts.1) hfresh haccepts.seenAny
    obtain ⟨n, hsent, hpaid, _⟩ := hmore.resends
    obtain rfl : n = 0 := by omega
    rw [hsent, List.replicate_zero, List.append_nil]
    obtain ⟨-, hsame⟩ | ⟨hspent, _, hseen, _⟩ := DtlsLink.recvStep_cases haccepts.1
    · exact hsame
    · have := hrun.confirmed hfresh (hseen ▸ haccepts.seenAny)
      omega

namespace Sample

def silent : DatagramTransport Unit where
  sends := List.replicate 16 (.ok ())
  recvs := List.replicate 266 (.ok none)

/-- The server asks for the `Finished`, sends a record, and asks once more. -/
def asking (client : Established) : DatagramTransport Unit where
  sends := [.ok (), .ok ()]
  recvs :=
    let record := (client.serverApp.seal .clear DtlsClient.sampleMasker ⟨3, 0, .two, none⟩ [1, 2]
      ctApplicationData 64).toOption.getD []
    [.ok (some (asDatagram [0b00101110])), .ok (some (asDatagram record)),
      .ok (some (asDatagram [0b00101110])), .ok none]

def askedLink (client : Established) : DtlsLink Unit := ⟨client.toDtlsReceiver, asking client⟩

/-- Two passes of a call of `recv` and a second call, with the states between them and after them. -/
def passes (client : Established) : Option (DtlsLink Unit × DtlsLink Unit × DtlsLink Unit) := do
  let pass := DtlsLink.recvPass dtlsConfig.aead dtlsConfig.masker 64
  let (_, s) ← pass.exec (askedLink client)
  let (_, s₁) ← pass.exec s
  let (_, s') ← DtlsLink.recvAll dtlsConfig.aead dtlsConfig.masker s₁ [64]
  pure (s, s₁, s')

end Sample

theorem connect_bounded_sample :
    (∃ r, (connect Sample.connectArgs).exec Sample.silent = some r) ∧
    ∃ client s s₁ s', Sample.passes client = some (s, s₁, s') ∧
      (∃ n ≤ maxFlightAttempts, s.transport.sent = List.replicate n client.finFlight) ∧
      DtlsLink.RecvAccepts Sample.dtlsConfig.aead Sample.dtlsConfig.masker s s₁ ∧
      s'.transport.sent = s.transport.sent := by
  have hbounded := connect_bounded Sample.connectArgs
    (Sample.answering [sampleHelloDatagram, Sample.flightDatagram])
  have hreturns : ((connect Sample.connectArgs).exec
      (Sample.answering [sampleHelloDatagram, Sample.flightDatagram])).any (fun out =>
        out.1.toOption.any fun client => (Sample.passes client).any fun links =>
          links.1.nextInput.any fun next => next.1.toOption.any fun datagram => datagram.any fun bytes =>
            DtlsReceiver.newRecord Sample.dtlsConfig.aead Sample.dtlsConfig.masker
              (true, bytes, next.2.client)) = true := by
    decide +kernel
  obtain ⟨⟨_ | client, t'⟩, hexec, hpasses⟩ := (Option.any_eq_true _ _).mp hreturns
  · cases hpasses
  simp only [Option.any_eq_true] at hpasses
  obtain ⟨_, ⟨⟩, _, hpasses, ⟨reply, s₂⟩, hnext, datagram, hreply, bytes, rfl, hnew⟩ := hpasses
  obtain rfl := toOption_eq_some.mp hreply
  obtain ⟨-, hrun⟩ := (hbounded.2 _ _ hexec).2 client rfl (Sample.askedLink client) rfl
  have hsplit := hpasses
  simp only [Sample.passes, Option.bind_eq_bind, Option.bind_eq_some_iff] at hsplit
  obtain ⟨⟨r, s⟩, hfirst, ⟨r₁, s₁⟩, hsecond, ⟨results, s'⟩, hcall, hret⟩ := hsplit
  cases hret
  have hreach := hrun s (.single ⟨64, r, hfirst⟩)
  have haccepts : DtlsLink.RecvAccepts _ _ s s₁ := ⟨⟨64, r₁, hsecond⟩, bytes, s₂, hnext, .here hnew⟩
  exact ⟨(connect_bounded Sample.connectArgs Sample.silent).1 (by decide) (by decide +kernel), client, s,
    s₁, s', hpasses, hreach.1, haccepts, hreach.2 s₁ haccepts s' (DtlsLink.receives_of_recvAll hcall)⟩

end KrabiTls.Dtls
