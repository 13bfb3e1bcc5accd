import KrabiTls.Dtls.EncryptedExtensions
import KrabiTls.Engine.Steps

/-! No record the engine seals is larger than the server's `record_size_limit` allows. -/
namespace KrabiTls
open Lib

/-- The inner plaintext, content and content type, keeps to the limit. -/
structure SealedRecord.Within (limit : Nat) (r : SealedRecord) : Prop where
  wire : r.record.length = tlsHeader + (r.content.length + 1) + aeadTagLen
  inner : r.content.length + 1 ≤ limit

theorem encryptRecord_within {a : AeadBackend} {keys : RecordKeys} {content record dirty : Bytes}
    {contentType : UInt8} {seq outLen limit : Nat}
    (h : keys.encryptRecord a content contentType seq outLen = (.ok record, dirty))
    (hlimit : content.length + 1 ≤ limit) :
    SealedRecord.Within limit ⟨seq, contentType, content, record⟩ := by
  obtain ⟨-, -, hlen, -⟩ := RecordKeys.encryptRecord_eq_ok h
  refine ⟨?_, hlimit⟩
  simp only [hlen, tlsHeader, aeadTagLen]
  omega

theorem encryptHandshakeFlight_within (a : AeadBackend) (keys : RecordKeys) (plaintext : Bytes)
    {peerRsl : Nat} (outLen : Nat) (hlimit : 2 ≤ peerRsl) :
    ∀ r ∈ (encryptHandshakeFlight a keys plaintext peerRsl outLen).sealed, r.Within peerRsl := by
  refine encryptHandshakeFlight_induct (fun s => ∀ r ∈ s.sealed, r.Within peerRsl)
    (fun r => ∀ s ∈ r.sealed, s.Within peerRsl) nofun ?_ (fun s hs _ => hs) fun s e dirty hs _ _ => hs
  intro s record dirty hwithin _ hrecord
  rw [List.forall_mem_append]
  refine ⟨hwithin, ?_⟩
  rintro _ (_ | ⟨_, ⟨⟩⟩)
  refine encryptRecord_within hrecord ?_
  rw [List.length_take]
  omega

theorem buildFinishedPlaintext_length {h : HkdfSha256} {cHsTs : Secret} {th : TranscriptDigest}
    {msg : Bytes} (hmsg : buildFinishedPlaintext h cHsTs th = .ok msg) : msg.length = 36 := by
  obtain ⟨mac, -, hout⟩ := bind_eq_ok.mp hmsg
  cases hout
  simp [mac.property]

namespace Core
variable {cfg : ClientConfig} {sz : Sizes} {call : Call cfg} {c : Core cfg sz}

/-- What the server's flight allows: the one `record_size_limit` among the extensions of its
`EncryptedExtensions`, the protocol's maximum without one. -/
def Advertised (c : Core cfg sz) (limit : Nat) : Prop :=
  ∃ eeBody found, Dtls.StartsWithEe c.reassembler eeBody ∧
    Dtls.OnlyLimit (Dtls.eeEntries eeBody) none found ∧ limit = found.getD protoMaxInnerPlaintext

theorem Advertised.unique {limit limit' : Nat} (h : c.Advertised limit) (h' : c.Advertised limit') :
    limit = limit' := by
  obtain ⟨_, found, ⟨bytes, msg, hbytes, hmsg, -, rfl⟩, ⟨-, -, hfound⟩, rfl⟩ := h
  obtain ⟨_, found', ⟨bytes', msg', hbytes', hmsg', -, rfl⟩, ⟨-, -, hfound'⟩, rfl⟩ := h'
  cases hbytes.symm.trans hbytes'
  cases hmsg.symm.trans hmsg'
  have hsame := hfound.symm.trans hfound'
  cases found <;> cases found' <;> cases hsame <;> rfl

/-- The record keeps to what the server's flight allows. -/
def Allows (c : Core cfg sz) (r : SealedRecord) : Prop := ∃ limit, c.Advertised limit ∧ r.Within limit

theorem advertised_of_peerLimit {found : Option RecordSizeLimit} (h : c.peerLimit = .ok found) :
    c.Advertised (found.elim protoMaxInnerPlaintext Subtype.val) := by
  obtain ⟨x, hpeek, hlimit⟩ : ∃ x, c.reassembler.peekEeRecordSizeLimit = .ok x ∧
      found.map Subtype.val = x := by
    unfold peerLimit at h
    split at h
    · cases h
    · rename_i hpeek
      cases h
      exact ⟨none, hpeek, rfl⟩
    · rename_i limit hpeek
      refine ⟨some limit, hpeek, ?_⟩
      split at h
      · cases h
      · rename_i valid hvalid
        cases h
        unfold RecordSizeLimit.tryFrom at hvalid
        split at hvalid <;> cases hvalid
        rfl
  obtain ⟨eeBody, hstarts⟩ := Dtls.startsWithEe_of_peek hpeek
  refine ⟨eeBody, x, hstarts, ((Dtls.peekEeRecordSizeLimit_eq_ok hstarts x).mp hpeek).2, ?_⟩
  subst hlimit
  cases found <;> rfl

/-- A limit that was read from a flight stays the flight's limit as the reassembler fills. -/
theorem peerLimit_append {c' : Core cfg sz} {limit : RecordSizeLimit} {more : Bytes}
    (h : c.peerLimit = .ok (some limit)) (hbuf : c'.reassembler.buf = c.reassembler.buf ++ more) :
    c'.peerLimit = .ok (some limit) := by
  cases hbytes : c.reassembler.flightBytes with
  | none =>
    simp [peerLimit, ServerFlightReassembler.peekEeRecordSizeLimit, hbytes] at h
  | some bytes =>
    have hbytes' := ServerFlightReassembler.flightBytes_append hbytes hbuf
    unfold peerLimit ServerFlightReassembler.peekEeRecordSizeLimit at h ⊢
    rw [hbytes] at h
    rw [hbytes']
    exact h

/-- The client flight keeps to the peer's limit, however it is made. -/
theorem clientFlight_within (params : ClientParams cfg) (certRequest : Option (Bytes × Bytes))
    (done : ServerFlightDone) {n : Nat} (scratch : Block n) :
    ∀ r ∈ (c.clientFlight params certRequest done scratch).1.sealed, r.Within c.peerRecvLimit := by
  have hlimit := c.peerRecvLimit.property
  simp only [minRecordSizeLimit] at hlimit
  refine c.clientFlight_induct (fun records => ∀ r ∈ records, r.Within c.peerRecvLimit) params certRequest
    done scratch nofun (fun _ _ _ => encryptHandshakeFlight_within _ _ _ _ (by omega)) ?_
  rintro keys msg record dirty th - hmsg hrecord _ (_ | ⟨_, ⟨⟩⟩)
  refine encryptRecord_within hrecord ?_
  rw [buildFinishedPlaintext_length hmsg]
  omega

/-- What is queued is whole records, end to end, and they keep to the limit. -/
def Queued (c : Core cfg sz) : Prop :=
  ∃ records : List SealedRecord,
    slice c.sendRecord.val 0 c.sendPendingLen = (records.map SealedRecord.record).flatten ∧
    ∀ r ∈ records, c.Allows r

/-- The peer's limit is the protocol's maximum or was read from the flight; in the data phase it is
what the server allows. -/
structure LimitInv (c : Core cfg sz) : Prop where
  known : (c.peerRecvLimit : Nat) = protoMaxInnerPlaintext ∨ c.peerLimit = .ok (some c.peerRecvLimit)
  hello : ∀ conn, c.state = .waitServerHello conn → c.history.sealed = []
  flight : ∀ conn, c.state = .waitFlight conn → c.history.sealed = []
  app : ∀ conn, c.state = .app conn → c.Advertised c.peerRecvLimit
  within : ∀ s ∈ c.history.sealed, c.Allows s.2
  queued : c.isSendPending = true → c.Queued

theorem LimitInv.limitRead (hinv : c.LimitInv) (h : c.LimitRead) :
    c.Advertised c.peerRecvLimit := by
  obtain ⟨found, hfound, hlimit⟩ := h
  have hallowed := advertised_of_peerLimit hfound
  cases found with
  | some limit => exact hlimit ▸ hallowed
  | none =>
    rcases hinv.known with hmax | hread
    · rwa [hmax]
    · rw [hread] at hfound
      cases hfound

theorem Idle.queued {c' : Core cfg sz} (hidle : c.Idle) (hlen : c'.sendPendingLen = c.sendPendingLen)
    (hacked : c'.sendAcked = c.sendAcked) : c'.isSendPending = true → c'.Queued := by
  have hpending := hidle.not_pending
  rw [isSendPending] at hpending ⊢
  rw [hlen, hacked, hpending]
  nofun

theorem LimitInv.sealed {c' : Core cfg sz} {conn conn' : AppData} {content record : Bytes} {ct : UInt8}
    (hinv : c.LimitInv) (hidle : c.Idle) (hstate : c.state = .app conn)
    (hseal : c.sealRecord conn content ct = (.ok (record, conn'), c'))
    (hcontent : content.length + 1 ≤ c.peerRecvLimit) : c'.LimitInv ∧ (c'.queue record).LimitInv := by
  obtain ⟨henc, -, rfl⟩ := sealRecord_eq_ok c hseal
  have happ := hinv.app conn hstate
  have hrecord : c.Allows ⟨conn.seqOut, ct, content, record⟩ :=
    ⟨_, happ, encryptRecord_within henc hcontent⟩
  have hwithin : ∀ s ∈ c.history.sealed ++
      [(SendGen.application c.history.sendGen, ⟨conn.seqOut, ct, content, record⟩)],
      c.Allows s.2 := by
    simp only [List.mem_append, List.mem_singleton]
    rintro s (hs | rfl)
    · exact hinv.within s hs
    · exact hrecord
  refine ⟨⟨hinv.known, nofun, nofun, fun _ _ => happ, hwithin, hidle.queued rfl rfl⟩,
    hinv.known, nofun, nofun, fun _ _ => happ, hwithin, fun _ => ?_⟩
  obtain ⟨-, -, -, hfits, -⟩ := RecordKeys.encryptRecord_eq_ok henc
  refine ⟨[⟨conn.seqOut, ct, content, record⟩], ?_, ?_⟩
  · simpa [queue] using c.sendRecord.slice_overwrite_front hfits
  · rintro _ (_ | ⟨_, ⟨⟩⟩)
    exact hrecord

theorem LimitInv.clientFlight (hinv : c.LimitInv) (hread : c.LimitRead) (params : ClientParams cfg)
    (certRequest : Option (Bytes × Bytes)) (done : ServerFlightDone) {n : Nat} (scratch : Block n) :
    (∀ r ∈ (c.clientFlight params certRequest done scratch).1.sealed, c.Allows r) ∧
      ∀ s ∈ c.history.sealed ++
        (c.clientFlight params certRequest done scratch).1.sealed.map (SendGen.handshake, ·),
        c.Allows s.2 := by
  have hflight : ∀ r ∈ (c.clientFlight params certRequest done scratch).1.sealed, c.Allows r :=
    fun r hr => ⟨_, hinv.limitRead hread, c.clientFlight_within params certRequest done scratch r hr⟩
  refine ⟨hflight, ?_⟩
  simp only [List.mem_append, List.mem_map]
  rintro s (hs | ⟨r, hr, rfl⟩)
  · exact hinv.within s hs
  · exact hflight r hr

theorem LimitInv.step {c' : Core cfg sz} (hinv : c.LimitInv) (hstep : Step call c c') :
    c'.LimitInv := by
  have hlimit := c.peerRecvLimit.property
  simp only [minRecordSizeLimit] at hlimit
  cases hstep with
  | serverHello _ hstate _ =>
    exact ⟨hinv.known, nofun, fun _ _ => hinv.hello _ hstate, nofun, hinv.within, hinv.queued⟩
  | serverHelloFailed | flightRejected => exact ⟨hinv.known, nofun, nofun, nofun, hinv.within, hinv.queued⟩
  | @fed _ conn _ hidle hstate record =>
    have hnone := hinv.flight conn hstate
    obtain ⟨more, hbuf⟩ : ∃ more,
        (conn.feedServerRecordInplace cfg record c.reassembler).reassembler.buf =
          c.reassembler.buf ++ more := by
      rcases conn.feedServerRecordInplace_cases cfg record c.reassembler with
        ⟨-, hreasm, -⟩ | ⟨_, _, content, _, _, _, _, _, hbuf, _⟩
      · exact ⟨[], by rw [hreasm, List.append_nil]⟩
      · exact ⟨content, hbuf⟩
    refine ⟨hinv.known.imp_right fun h => peerLimit_append h hbuf, nofun, fun _ _ => hnone, nofun, ?_,
      hidle.queued rfl rfl⟩
    rw [hnone]
    nofun
  | @peerLimit _ _ found _ limit hfound hread =>
    have hallowed := advertised_of_peerLimit hfound
    cases found with
    | none =>
      obtain rfl : limit = c.peerRecvLimit := hread
      exact hinv
    | some l =>
      obtain rfl : limit = l := hread
      exact ⟨.inr hfound, hinv.hello, hinv.flight, fun _ _ => hallowed, hinv.within, hinv.queued⟩
  | flightFailed scratch hidle _ hread =>
    exact ⟨hinv.known, nofun, nofun, nofun, (hinv.clientFlight hread _ _ _ scratch).2,
      hidle.queued rfl rfl⟩
  | flightQueued scratch _ _ hflight hread =>
    obtain ⟨hrecords, hwithin⟩ := hinv.clientFlight hread _ _ _ scratch
    refine ⟨hinv.known, nofun, nofun, fun _ _ => hinv.limitRead hread, hwithin, fun _ =>
      ⟨_, ?_, hrecords⟩⟩
    have hwrote := (clientFlight_eq_ok c hflight).2
    rw [hwrote.records]
    simp only [installApp, sealedFlight, hwrote.written]
    exact c.sendRecord.slice_overwrite_front hwrote.fits
  | opened _ hstate | rotatedRecv _ hstate =>
    exact ⟨hinv.known, nofun, nofun, fun _ _ => hinv.app _ hstate, hinv.within, hinv.queued⟩
  | sealFailed hidle =>
    exact ⟨hinv.known, hinv.hello, hinv.flight, hinv.app, hinv.within, hidle.queued rfl rfl⟩
  | answerFailed hidle hstate hseal =>
    exact (hinv.sealed hidle hstate hseal (by simp [AppData.keyUpdateMsg]; omega)).1
  | answered hidle hstate hseal _ =>
    have hinv' := (hinv.sealed hidle hstate hseal (by simp [AppData.keyUpdateMsg]; omega)).2
    obtain ⟨-, rfl, rfl⟩ := sealRecord_eq_ok c hseal
    exact ⟨hinv'.known, nofun, nofun, fun _ _ => hinv'.app _ rfl, hinv'.within, hinv'.queued⟩
  | wrote hidle hstate hseal hcontent =>
    have hchunk : c.sendChunkLimit ≤ (c.peerRecvLimit : Nat) - 1 := by
      unfold sendChunkLimit
      omega
    exact (hinv.sealed hidle hstate hseal (by omega)).2
  | closing hidle hstate hseal =>
    have hinv' := (hinv.sealed hidle hstate hseal (by simp [closeNotifyAlert]; omega)).2
    exact ⟨hinv'.known, hinv'.hello, hinv'.flight, hinv'.app, hinv'.within, hinv'.queued⟩
  | acked hle =>
    unfold markSent
    rw [if_neg (by omega)]
    dsimp only
    split
    · exact ⟨hinv.known, hinv.hello, hinv.flight, hinv.app, hinv.within, nofun⟩
    · refine ⟨hinv.known, hinv.hello, hinv.flight, hinv.app, hinv.within, fun hpending => ?_⟩
      apply hinv.queued
      simp only [isSendPending, decide_eq_true_eq] at hpending ⊢
      omega
  | terminal => exact ⟨hinv.known, nofun, nofun, nofun, hinv.within, nofun⟩
  | _ => exact ⟨hinv.known, hinv.hello, hinv.flight, hinv.app, hinv.within, hinv.queued⟩

end Core

namespace Engine
variable {cfg : ClientConfig} {sz : Sizes}

/-- In every run, every record the engine seals, and everything it has queued, keeps to the limit in
the server's `EncryptedExtensions`. -/
theorem after_within (first : WaitServerHello cfg) (sendRecord : Block sz.send)
    (recvRecord : Block sz.recv) (ourRecvLimit : RecordSizeLimit) (calls : List (Call cfg)) :
    let core := ((Engine.new sendRecord recvRecord (.waitServerHello first) ourRecvLimit
      .default).after calls).core
    (∀ s ∈ core.history.sealed, core.Allows s.2) ∧
      (core.isSendPending = true → core.Queued) := by
  intro core
  have hnew : (Engine.new sendRecord recvRecord (.waitServerHello first) ourRecvLimit
      .default).core.LimitInv := ⟨.inl rfl, fun _ _ => rfl, nofun, nofun, nofun, nofun⟩
  have hinv := after_induct (fun _ _ _ hinv hstep => Core.LimitInv.step hinv hstep) _ calls hnew
  exact ⟨hinv.within, hinv.queued⟩

end Engine

end KrabiTls
