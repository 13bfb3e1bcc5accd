import KrabiTls.Engine.FlightScratch
import KrabiTls.Lib.Lockstep

/-! A reused scratch: two engines that differ only in bytes of their buffers that no cursor covers
give the same results for good, so nothing a connection does shows what an earlier one left. -/
namespace KrabiTls
open Lib

namespace Core
variable {cfg : ClientConfig} {sz : Sizes} {c c' : Core cfg sz}

/-- The cores differ in the send buffer only, and there behind its first `k` bytes. -/
def AlikeTo (k : Nat) (c c' : Core cfg sz) : Prop :=
  ∃ b, c' = { c with sendRecord := b } ∧ c.sendRecord.AgreeTo k b

/-- No pending byte tells the cores apart. -/
def Alike (c c' : Core cfg sz) : Prop := c.AlikeTo c.sendPendingLen c'

theorem Alike.sendBytes_eq (h : c.Alike c') : c.sendBytes = c'.sendBytes := by
  obtain ⟨b, rfl, hb⟩ := h
  unfold sendBytes
  split_ifs
  · rfl
  · exact hb.slice_eq _ (Nat.le_refl _)

theorem handleServerHello_alike (h : c.Alike c') (outerType : UInt8) (record : Bytes) :
    Lockstep Alike (c.handleServerHello outerType record)
      (c'.handleServerHello outerType record) := by
  obtain ⟨b, rfl, hb⟩ := h
  unfold handleServerHello
  split_ifs
  · exact ⟨rfl, b, rfl, hb⟩
  · obtain ⟨state⟩ := c
    cases state with
    | waitServerHello conn =>
      dsimp only
      cases conn.readServerHello record <;> exact ⟨rfl, b, rfl, hb⟩
    | waitFlight | app | closed => exact ⟨rfl, b, rfl, hb⟩

theorem feedFlightRecord_alike (h : c.Alike c') (record : Bytes) :
    (c.feedFlightRecord record).1 = (c'.feedFlightRecord record).1 ∧
      Lockstep Alike (c.feedFlightRecord record).2 (c'.feedFlightRecord record).2 := by
  obtain ⟨b, rfl, hb⟩ := h
  unfold feedFlightRecord
  split_ifs
  · exact ⟨rfl, rfl, b, rfl, hb⟩
  · obtain ⟨state⟩ := c
    cases state <;> exact ⟨rfl, rfl, b, rfl, hb⟩

/-- A sealed record stands in both send buffers; a failed one leaves the same debris. -/
theorem sealRecord_alike (h : c.Alike c') (conn : AppData) (content : Bytes) (contentType : UInt8) :
    (∃ err d d', c.sealRecord conn content contentType = (.error err, d) ∧
        c'.sealRecord conn content contentType = (.error err, d') ∧ d.Alike d') ∨
      ∃ record conn' d d', c.sealRecord conn content contentType = (.ok (record, conn'), d) ∧
        c'.sealRecord conn content contentType = (.ok (record, conn'), d') ∧ d.Alike d' ∧
        d.AlikeTo record.length d' := by
  obtain ⟨b, rfl, hb⟩ := h
  unfold sealRecord noteSealed
  dsimp only
  rcases henc : conn.encryptRecord cfg content contentType sz.send with ⟨record, dirty, conn₁⟩
  have hwrite := hb.overwrite (Nat.zero_le _) dirty
  cases record with
  | error err =>
    exact .inl ⟨err, _, _, rfl, rfl, _, rfl, hwrite.mono (Nat.le_max_left _ _)⟩
  | ok record =>
    obtain ⟨hrec, -⟩ := AppData.encryptRecord_eq_ok cfg henc
    obtain ⟨rfl, -⟩ := RecordKeys.encryptRecord_eq_ok hrec
    exact .inr ⟨_, _, _, _, rfl, rfl, ⟨_, rfl, hwrite.mono (Nat.le_max_left _ _)⟩,
      _, rfl, hwrite.mono (by omega)⟩

theorem AlikeTo.queue {record : Bytes} (h : c.AlikeTo record.length c') :
    (c.queue record).Alike (c'.queue record) := by
  obtain ⟨b, rfl, hb⟩ := h
  exact ⟨b, rfl, hb⟩

theorem answerKeyUpdate_alike (h : c.Alike c') (conn : AppData) :
    Lockstep Alike (c.answerKeyUpdate conn) (c'.answerKeyUpdate conn) := by
  rw [answerKeyUpdate_eq, answerKeyUpdate_eq]
  rcases sealRecord_alike h conn (AppData.keyUpdateMsg false) ctHandshake with
    ⟨err, d, d', hseal, hseal', hd⟩ | ⟨record, conn', d, d', hseal, hseal', hd, hrecord⟩
  · rw [hseal, hseal']
    exact ⟨rfl, hd⟩
  · rw [hseal, hseal']
    dsimp only
    cases conn'.applySendKeyUpdate cfg with
    | error err => exact ⟨rfl, hd⟩
    | ok conn'' =>
      obtain ⟨b, rfl, hb⟩ := hrecord
      exact ⟨rfl, b, rfl, hb⟩

theorem processKeyUpdate_alike (h : c.Alike c') (updateRequested : Bool) :
    Lockstep Alike (c.processKeyUpdate updateRequested) (c'.processKeyUpdate updateRequested) := by
  obtain ⟨b, rfl, hb⟩ := h
  unfold processKeyUpdate
  obtain ⟨state⟩ := c
  cases state with
  | app conn =>
    dsimp only
    cases conn.applyRecvKeyUpdate cfg with
    | error err => exact ⟨rfl, b, rfl, hb⟩
    | ok conn' =>
      cases updateRequested with
      | false => exact ⟨rfl, b, rfl, hb⟩
      | true =>
        apply answerKeyUpdate_alike
        exact ⟨b, rfl, hb⟩
  | waitServerHello | waitFlight | closed => exact ⟨rfl, b, rfl, hb⟩

theorem feedPostHandshake_alike (h : c.Alike c') (content : Bytes) :
    Lockstep Alike (c.feedPostHandshake content) (c'.feedPostHandshake content) := by
  obtain ⟨b, rfl, hb⟩ := h
  unfold feedPostHandshake
  dsimp only
  rcases PostHandshakeReasm.feedLoop.run (c.ph, content) with ⟨_ | _ | updateRequested, ph⟩
  · exact ⟨rfl, b, rfl, hb⟩
  · exact ⟨rfl, b, rfl, hb⟩
  · apply processKeyUpdate_alike
    exact ⟨b, rfl, hb⟩

theorem handleInnerContent_alike (h : c.Alike c') (content : Bytes) (innerCt : UInt8) :
    Lockstep Alike (c.handleInnerContent content innerCt)
      (c'.handleInnerContent content innerCt) := by
  obtain ⟨hresult, hstate⟩ := feedPostHandshake_alike h content
  obtain ⟨b, rfl, hb⟩ := h
  unfold handleInnerContent
  dsimp only
  split_ifs
  · exact ⟨rfl, b, rfl, hb⟩
  · exact ⟨rfl, b, rfl, hb⟩
  · rcases content with _ | ⟨level, _ | ⟨description, rest⟩⟩
    · exact ⟨rfl, b, rfl, hb⟩
    · exact ⟨rfl, b, rfl, hb⟩
    · dsimp only
      split_ifs <;> exact ⟨rfl, b, rfl, hb⟩
  · exact ⟨congrArg (Except.map fun _ => []) hresult, hstate⟩
  · exact ⟨rfl, b, rfl, hb⟩

theorem decryptDataRecord_alike (h : c.Alike c') (record : Bytes) :
    (c.decryptDataRecord record).1 = (c'.decryptDataRecord record).1 ∧
      Lockstep Alike (c.decryptDataRecord record).2 (c'.decryptDataRecord record).2 := by
  obtain ⟨b, rfl, hb⟩ := h
  unfold decryptDataRecord
  obtain ⟨state⟩ := c
  cases state with
  | app conn =>
    dsimp only
    rcases conn.decryptRecordInplace cfg record with ⟨_ | ⟨contentLen, ct⟩, record', conn'⟩ <;>
      exact ⟨rfl, rfl, b, rfl, hb⟩
  | waitServerHello | waitFlight | closed => exact ⟨rfl, rfl, b, rfl, hb⟩

structure DataRecord.Alike (d d' : DataRecord cfg sz) : Prop where
  result : d.result = d'.result
  record : d.record = d'.record
  consumed : d.consumed = d'.consumed
  core : d.core.Alike d'.core

theorem dispatchDataRecordInner_alike (h : c.Alike c') (outerType : UInt8) (record : Bytes) :
    (c.dispatchDataRecordInner outerType record).Alike
      (c'.dispatchDataRecordInner outerType record) := by
  obtain ⟨hresult, hrecord, hstate⟩ := decryptDataRecord_alike h record
  have hlimit : c'.ourRecvLimit = c.ourRecvLimit := by
    obtain ⟨b, rfl, -⟩ := h
    rfl
  unfold dispatchDataRecordInner
  rw [hlimit]
  split_ifs
  · exact ⟨rfl, rfl, rfl, h⟩
  · exact ⟨rfl, rfl, rfl, h⟩
  · rcases hopen : c.decryptDataRecord record with ⟨result, opened, d⟩
    rcases hopen' : c'.decryptDataRecord record with ⟨result', opened', d'⟩
    rw [hopen, hopen'] at hresult hrecord hstate
    dsimp only at hresult hrecord hstate
    subst hresult hrecord
    rcases result with err | ⟨content, innerCt⟩
    · exact ⟨rfl, rfl, rfl, hstate⟩
    · obtain ⟨hinner, hcore⟩ := handleInnerContent_alike hstate content innerCt
      exact ⟨hinner, rfl, rfl, hcore⟩

theorem dispatchDataRecord_alike (h : c.Alike c') (outerType : UInt8) (record : Bytes) :
    (c.dispatchDataRecord outerType record).Alike (c'.dispatchDataRecord outerType record) := by
  obtain ⟨hresult, hrecord, hconsumed, hcore⟩ := dispatchDataRecordInner_alike h outerType record
  unfold dispatchDataRecord
  generalize c.dispatchDataRecordInner outerType record = d at hresult hrecord hconsumed hcore
  generalize c'.dispatchDataRecordInner outerType record = d' at hresult hrecord hconsumed hcore
  obtain ⟨result, opened, consumed, core⟩ := d
  obtain ⟨result', opened', consumed', core'⟩ := d'
  dsimp only at hresult hrecord hconsumed hcore ⊢
  subst hresult hrecord hconsumed
  cases result with
  | ok content => exact ⟨rfl, rfl, rfl, hcore⟩
  | error err =>
    obtain ⟨b, rfl, hb⟩ := hcore
    exact ⟨rfl, rfl, rfl, b, rfl, hb⟩

theorem writeApp_alike (h : c.Alike c') (plaintext : Bytes) :
    Lockstep Alike (c.writeApp plaintext) (c'.writeApp plaintext) := by
  have hseal (conn : AppData) (chunk : Bytes) := sealRecord_alike h conn chunk ctApplicationData
  obtain ⟨b, rfl, hb⟩ := h
  unfold writeApp isSendPending sendChunkLimit
  dsimp only
  split_ifs
  · exact ⟨rfl, b, rfl, hb⟩
  · exact ⟨rfl, b, rfl, hb⟩
  · obtain ⟨state⟩ := c
    cases state <;> exact ⟨rfl, b, rfl, hb⟩
  · obtain ⟨state⟩ := c
    cases state with
    | app conn =>
      dsimp only
      rcases hseal conn _ with
        ⟨err, d, d', heq, heq', hd⟩ | ⟨record, conn', d, d', heq, heq', hd, hrecord⟩
      · rw [heq, heq']
        exact ⟨rfl, hd⟩
      · rw [heq, heq']
        exact ⟨rfl, hrecord.queue⟩
    | waitServerHello | waitFlight | closed => exact ⟨rfl, b, rfl, hb⟩

theorem close_alike (h : c.Alike c') : Lockstep Alike c.close c'.close := by
  have hseal (conn : AppData) := sealRecord_alike h conn closeNotifyAlert ctAlert
  obtain ⟨b, rfl, hb⟩ := h
  unfold close isSendPending
  dsimp only
  split_ifs
  · exact ⟨rfl, b, rfl, hb⟩
  · exact ⟨rfl, b, rfl, hb⟩
  · obtain ⟨state⟩ := c
    cases state with
    | app conn =>
      dsimp only
      rcases hseal conn with
        ⟨err, d, d', heq, heq', hd⟩ | ⟨record, conn', d, d', heq, heq', hd, hrecord⟩
      · rw [heq, heq']
        exact ⟨rfl, hd⟩
      · rw [heq, heq']
        obtain ⟨b, rfl, hb⟩ := hrecord
        exact ⟨rfl, b, rfl, hb⟩
    | waitServerHello | waitFlight | closed => exact ⟨rfl, b, rfl, hb⟩

theorem markSent_alike (h : c.Alike c') (n : Nat) :
    Lockstep Alike (c.markSent n) (c'.markSent n) := by
  obtain ⟨b, rfl, hb⟩ := h
  unfold markSent
  dsimp only
  split_ifs
  · exact ⟨rfl, b, rfl, hb⟩
  · exact ⟨rfl, b, rfl, .zero _ _⟩
  · exact ⟨rfl, b, rfl, hb⟩

theorem markTerminal_alike (h : c.Alike c') : c.markTerminal.Alike c'.markTerminal := by
  obtain ⟨b, rfl, -⟩ := h
  exact ⟨b, rfl, .zero _ _⟩

end Core

/-- The policy's answer does not depend on the buffer it is built in, of which it overwrites the
front. -/
def ClientAuthPolicy.WritesOnly (policy : ClientAuthPolicy) : Prop :=
  ∀ h req n, ∃ result written, ∀ out : Block n,
    policy.buildFlight h req out = (result, out.overwrite 0 written)

/-- The implementations of `ClientAuthSign`. The trait's method is declared over types that the
crate keeps to itself, so there are no others. -/
inductive ClientAuthImpl (f : Features) where
  | silent
  | answering (answer : ClientAnswer f)

namespace ClientAuthImpl
variable {f : Features}

def policy : ClientAuthImpl f → ClientAuthPolicy
  | .silent => noClientAuth
  | .answering answer => answer.policy

theorem policy_writesOnly (impl : ClientAuthImpl f) : impl.policy.WritesOnly := by
  intro h req n
  cases impl with
  | silent => exact ⟨_, [], fun out => congrArg _ (Subtype.ext (overwrite_nil _ _).symm)⟩
  | answering answer =>
    cases answer with
    | decline => exact ⟨_, _, fun _ => rfl⟩
    | authenticate auth =>
      by_cases hoffer : sigAlgsOffer req.certRequestSigAlgs auth.scheme = true
      · simp only [policy, ClientAnswer.policy, withClientAuth, hoffer, not_true_eq_false, if_false]
        exact ⟨_, _, fun _ => rfl⟩
      · refine ⟨.error .noMutualSignatureAlgorithm, [], fun out => ?_⟩
        simp only [policy, ClientAnswer.policy, withClientAuth, hoffer]
        exact congrArg _ (Subtype.ext (overwrite_nil _ _).symm)

end ClientAuthImpl

theorem ServerFlightDone.finishHandshakeWithPolicy_writesOnly (cfg : ClientConfig)
    (done : ServerFlightDone) {policy : ClientAuthPolicy} (h : policy.WritesOnly)
    (ctx sigAlgs : Bytes) (limit n outLen : Nat) :
    ∃ flight written, ∀ out : Block n,
      done.finishHandshakeWithPolicy cfg policy ctx sigAlgs limit out outLen =
        (flight, out.overwrite 0 written) := by
  unfold finishHandshakeWithPolicy
  cases done.transcript.snapshot cfg.hkdf with
  | error err => exact ⟨_, [], fun out => Prod.ext rfl (Subtype.ext (overwrite_nil _ _).symm)⟩
  | ok th =>
    obtain ⟨result, written, hbuild⟩ := h cfg.hkdf ⟨ctx, sigAlgs, done.cHsTs, done.transcript⟩ n
    simp only [hbuild]
    cases result with
    | error err => exact ⟨_, _, fun _ => rfl⟩
    | ok plaintext =>
      dsimp only
      cases RecordKeys.derive cfg.hkdf done.suite done.cHsTs with
      | error err => exact ⟨_, _, fun _ => rfl⟩
      | ok keys =>
        dsimp only
        cases (encryptHandshakeFlight cfg.aead keys plaintext limit outLen).result <;>
          exact ⟨_, _, fun _ => rfl⟩

namespace Core
variable {cfg : ClientConfig} {sz : Sizes} {c c' : Core cfg sz}
variable {params : ClientParams cfg}

/-- The client flight does not depend on what the receive buffer holds. -/
theorem clientFlight_writesOnly (c : Core cfg sz) (h : params.clientAuth.WritesOnly)
    (certRequest : Option (Bytes × Bytes)) (done : ServerFlightDone) (n : Nat) :
    ∃ flight written, ∀ out : Block n,
      c.clientFlight params certRequest done out = (flight, out.overwrite 0 written) := by
  unfold clientFlight
  cases certRequest with
  | none => exact ⟨_, [], fun out => Prod.ext rfl (Subtype.ext (overwrite_nil _ _).symm)⟩
  | some request => exact done.finishHandshakeWithPolicy_writesOnly cfg h _ _ _ _ _

/-- Equal results, buffers that agree to `k`, cores alike. -/
structure FlightAlike {n : Nat} (k : Nat)
    (r r' : Except HandshakeError Unit × Block n × Core cfg sz) : Prop where
  result : r.1 = r'.1
  scratch : r.2.1.AgreeTo k r'.2.1
  core : r.2.2.Alike r'.2.2

theorem finishFlight_alike (h : c.Alike c') (hpolicy : params.clientAuth.WritesOnly) {n k : Nat}
    {s s' : Block n} (hs : s.AgreeTo k s') :
    FlightAlike k (c.finishFlight params s) (c'.finishFlight params s') := by
  obtain ⟨b, rfl, hb⟩ := h
  have haccept : { c with sendRecord := b }.acceptFlight params = c.acceptFlight params := rfl
  have hclient (certRequest) (done) : { c with sendRecord := b }.clientFlight params certRequest done s' =
    c.clientFlight params certRequest done s' := rfl
  unfold finishFlight
  simp only [haccept, hclient]
  cases c.acceptFlight params with
  | error err => exact ⟨rfl, hs, b, rfl, hb⟩
  | ok accepted =>
    cases hstate : c.state with
    | waitFlight conn =>
      dsimp only
      cases conn.finalizeServerFlight cfg c.reassembler accepted.prepared accepted.leafView with
      | error err => exact ⟨rfl, hs, b, rfl, hb⟩
      | ok done =>
        obtain ⟨flight, written, hflight⟩ :=
          c.clientFlight_writesOnly hpolicy accepted.certRequest done n
        have hscratch := (hs.overwrite (Nat.zero_le k) written).mono (Nat.le_max_left _ _)
        have hsend := hb.overwrite (Nat.zero_le _) flight.written
        have hok {record app} (hres : flight.result = .ok (record, app)) :
            flight.written = record := by
          have := (c.clientFlight_eq_ok (h := by rw [hflight s]; exact hres)).2.written
          rwa [hflight s] at this
        simp only [hflight]
        cases hres : flight.result with
        | error err => exact ⟨rfl, hscratch, _, rfl, hsend.mono (Nat.le_max_left _ _)⟩
        | ok out =>
          have hlen : out.1.length = flight.written.length := by rw [hok hres]
          exact ⟨rfl, hscratch, _, rfl, hsend.mono (by dsimp only [installApp]; omega)⟩
    | waitServerHello | app | closed =>
      dsimp only
      exact ⟨rfl, hs, b, by rw [← hstate], hb⟩

theorem finalizeAndFinish_alike (h : c.Alike c') (hpolicy : params.clientAuth.WritesOnly)
    {n k : Nat} {s s' : Block n} (hs : s.AgreeTo k s') :
    FlightAlike k (c.finalizeAndFinish params s) (c'.finalizeAndFinish params s') := by
  obtain ⟨b, rfl, hb⟩ := h
  have hlimit : { c with sendRecord := b }.peerLimit = c.peerLimit := rfl
  unfold finalizeAndFinish
  rw [hlimit]
  cases c.peerLimit with
  | error err => exact ⟨rfl, hs, b, rfl, hb⟩
  | ok limit =>
    apply finishFlight_alike _ hpolicy hs
    exact ⟨b, rfl, hb⟩

end Core

namespace Engine
variable {cfg : ClientConfig} {sz : Sizes} {e e' : Engine cfg sz}

/-- The same cursors, and no difference in the bytes they cover. -/
structure Alike (e e' : Engine cfg sz) : Prop where
  core : e.core.Alike e'.core
  received : e.recvRecord.AgreeTo e.recv.filled e'.recvRecord
  recv : e'.recv = e.recv
  ordered : e.recv.Ordered sz.recv

theorem compactRecv_alike (h : e.Alike e') : e.compactRecv.Alike e'.compactRecv := by
  have hslice := h.received.slice_eq e.recv.nextRecord (Nat.le_refl _)
  refine ⟨?_, ?_, ?_, compactRecv_ordered h.ordered⟩ <;> unfold compactRecv <;> rw [h.recv] <;> split_ifs
  · exact h.core
  · exact h.core
  · exact h.received
  · dsimp only
    rw [← hslice]
    exact (h.received.overwrite (Nat.zero_le _) _).mono (by omega)
  · exact h.recv
  · rfl

theorem frameOneRecord_alike (h : e.Alike e') :
    Lockstep Alike e.frameOneRecord e'.frameOneRecord := by
  have hlimit : e'.core.ourRecvLimit = e.core.ourRecvLimit := by
    obtain ⟨b, hcore, -⟩ := h.core
    rw [hcore]
  have hcompact := compactRecv_alike h
  unfold frameOneRecord
  rw [h.recv, hlimit]
  by_cases hheader : e.recv.filled - e.recv.nextRecord < tlsHeader
  · simp only [hheader, if_true]
    split_ifs
    · exact ⟨rfl, h⟩
    · exact ⟨rfl, hcompact⟩
  · have hnext : e.recv.nextRecord + 5 ≤ e.recv.filled := by
      simp only [tlsHeader] at hheader
      omega
    have hfield := h.received.slice_eq (e.recv.nextRecord + 3) hnext
    have hhead := h.received.headD_drop_eq (Nat.lt_of_lt_of_le (Nat.lt_add_of_pos_right (by decide)) hnext) 0
    dsimp only
    rw [← hfield, ← hhead]
    split_ifs
    · exact ⟨rfl, h⟩
    · exact ⟨rfl, h⟩
    · exact ⟨rfl, hcompact⟩
    · exact ⟨rfl, h⟩

section Record
variable {start stop : Nat} (hstart : start ≤ e.recv.filled) (hstop : stop ≤ e.recv.filled)
include hstart hstop

theorem handleFlightRecord_alike (h : e.Alike e') {params : ClientParams cfg}
    (hpolicy : params.clientAuth.WritesOnly) :
    Lockstep Alike (e.handleFlightRecord params start stop)
      (e'.handleFlightRecord params start stop) := by
  have hslice := h.received.slice_eq start hstop
  obtain ⟨hresult, hrecord, hcore⟩ :=
    Core.feedFlightRecord_alike h.core (slice e.recvRecord.val start stop)
  unfold handleFlightRecord
  rw [← hslice]
  rcases hfed : e.core.feedFlightRecord (slice e.recvRecord.val start stop) with ⟨result, record, core⟩
  rcases hfed' : e'.core.feedFlightRecord (slice e.recvRecord.val start stop) with ⟨result', record', core'⟩
  rw [hfed, hfed'] at hresult hrecord hcore
  dsimp only at hresult hrecord hcore ⊢
  subst hresult hrecord
  have hreceived := (h.received.overwrite hstart record).mono (Nat.le_max_left _ _)
  rcases result with err | _ | _
  · exact ⟨rfl, hcore, hreceived, h.recv, h.ordered⟩
  · exact ⟨rfl, hcore, hreceived, h.recv, h.ordered⟩
  · obtain ⟨hresult, hscratch, hcore⟩ := Core.finalizeAndFinish_alike hcore hpolicy hreceived
    exact ⟨hresult, hcore, hscratch, h.recv, h.ordered⟩

theorem handleHandshakeRecord_alike (h : e.Alike e') {params : ClientParams cfg}
    (hpolicy : params.clientAuth.WritesOnly) (outerType : UInt8) :
    Lockstep Alike (e.handleHandshakeRecord params start stop outerType)
      (e'.handleHandshakeRecord params start stop outerType) := by
  have hslice := h.received.slice_eq start hstop
  have hstate : e'.core.state = e.core.state := by
    obtain ⟨b, hcore, -⟩ := h.core
    rw [hcore]
  unfold handleHandshakeRecord
  rw [hstate, ← hslice]
  split
  · obtain ⟨hresult, hcore⟩ :=
      Core.handleServerHello_alike h.core outerType (slice e.recvRecord.val start stop)
    exact ⟨hresult, hcore, h.received, h.recv, h.ordered⟩
  · exact handleFlightRecord_alike hstart hstop h hpolicy
  · exact ⟨rfl, h⟩
  · exact ⟨rfl, h⟩

end Record

def DispatchAlike (dispatch : Dispatch cfg sz) : Prop :=
  ∀ {e e'} stop outerType, e.Alike e' → e.recv.plaintextParked = false →
    e.recv.nextRecord + tlsHeader ≤ stop → stop ≤ e.recv.filled →
    Lockstep Alike (dispatch e e.recv.nextRecord stop outerType)
      (dispatch e' e.recv.nextRecord stop outerType)

theorem dispatchHandshakeRecord_alike {params : ClientParams cfg}
    (hpolicy : params.clientAuth.WritesOnly) :
    DispatchAlike (fun e : Engine cfg sz => e.dispatchHandshakeRecord params) := by
  intro e e' stop outerType h _ hstart hstop
  have hordered := dispatchHandshakeRecord_ordered params e stop outerType h.ordered hstart hstop
  have hfilled := (Nat.le_add_right _ _).trans (hstart.trans hstop)
  obtain ⟨hresult, hcore, hreceived, hrecv, -⟩ :=
    handleHandshakeRecord_alike hfilled hstop h hpolicy outerType
  dsimp only [dispatchHandshakeRecord] at hordered ⊢
  rcases hhandle : e.handleHandshakeRecord params e.recv.nextRecord stop outerType with ⟨result, d⟩
  rcases hhandle' : e'.handleHandshakeRecord params e.recv.nextRecord stop outerType with ⟨result', d'⟩
  rw [hhandle, hhandle'] at hresult hcore hreceived hrecv
  rw [hhandle] at hordered
  dsimp only at hresult hcore hreceived hrecv
  subst hresult
  cases result with
  | error err => exact ⟨rfl, hcore, hreceived, hrecv, hordered⟩
  | ok u => exact ⟨rfl, hcore, hreceived, by dsimp only; rw [hrecv], hordered⟩

theorem dispatchDataRecord_alike :
    DispatchAlike (fun e : Engine cfg sz => e.dispatchDataRecord) := by
  intro e e' stop outerType h hparked hstart hstop
  have hordered := dispatchDataRecord_ordered e stop outerType h.ordered hparked hstart hstop
  have hfilled := (Nat.le_add_right _ _).trans (hstart.trans hstop)
  have hslice := h.received.slice_eq e.recv.nextRecord hstop
  obtain ⟨hresult, hrecord, hconsumed, hcore⟩ := Core.dispatchDataRecord_alike h.core outerType
    (slice e.recvRecord.val e.recv.nextRecord stop)
  dsimp only [dispatchDataRecord] at hordered ⊢
  rw [← hslice, h.recv]
  generalize e.core.dispatchDataRecord outerType _ = d at hresult hrecord hconsumed hcore hordered ⊢
  generalize e'.core.dispatchDataRecord outerType _ = d' at hresult hrecord hconsumed hcore ⊢
  obtain ⟨result, record, consumed, core⟩ := d
  obtain ⟨result', record', consumed', core'⟩ := d'
  dsimp only at hresult hrecord hconsumed hcore hordered ⊢
  subst hresult hrecord hconsumed
  have hreceived := (h.received.overwrite hfilled record).mono (Nat.le_max_left _ _)
  rcases result with err | _ | _ <;> exact ⟨rfl, hcore, hreceived, rfl, hordered⟩

theorem idleEvent_alike (h : e.Alike e') (handshake : Bool) :
    (e.idleEvent handshake = none ∧ e'.idleEvent handshake = none) ∨
      ∃ event d d', e.idleEvent handshake = some (event, d) ∧
        e'.idleEvent handshake = some (event, d') ∧ d.Alike d' := by
  obtain ⟨core, recvRecord, recv⟩ := e
  obtain ⟨core', recvRecord', recv'⟩ := e'
  obtain ⟨⟨b, hcore, hb⟩, hreceived, hrecv, hordered⟩ := h
  dsimp only at hcore hb hrecv
  subst hcore hrecv
  unfold idleEvent Core.isSendPending
  dsimp only
  split_ifs
  · exact .inr ⟨_, _, _, rfl, rfl, ⟨b, rfl, hb⟩, hreceived, rfl, hordered⟩
  · exact .inr ⟨_, _, _, rfl, rfl, ⟨b, rfl, hb⟩, hreceived, rfl, hordered⟩
  · exact .inr ⟨_, _, _, rfl, rfl, ⟨b, rfl, hb⟩, hreceived, rfl, hordered⟩
  · exact .inr ⟨_, _, _, rfl, rfl, ⟨b, rfl, hb⟩, hreceived, rfl, hordered⟩
  · exact .inl ⟨rfl, rfl⟩

theorem stepLoop_alike {handshake : Bool} {dispatch : Dispatch cfg sz} {hd : Consumes dispatch}
    (hdispatch : DispatchAlike dispatch) (h : e.Alike e') :
    Lockstep Alike ((stepLoop handshake dispatch hd).run e)
      ((stepLoop handshake dispatch hd).run e') := by
  refine Loop.run_rel (R := Alike) ?_ h
  intro e e' h
  dsimp only [stepLoop]
  rcases idleEvent_alike h handshake with ⟨hidle, hidle'⟩ | ⟨event, d, d', hevent, hevent', hd⟩
  · obtain ⟨hresult, hstate⟩ := frameOneRecord_alike h
    rw [hidle, hidle']
    dsimp only
    rcases hframe : e.frameOneRecord with ⟨result, d⟩
    rcases hframe' : e'.frameOneRecord with ⟨result', d'⟩
    rw [hframe, hframe'] at hresult hstate
    dsimp only at hresult hstate
    subst hresult
    rcases result with err | ⟨start, stop, outerType⟩ | _
    · exact .leave ⟨rfl, hstate⟩
    · obtain ⟨rfl, rfl, hlen, hstop, -⟩ := frameOneRecord_eq_record hframe
      obtain ⟨hresult, hnext⟩ := hdispatch stop outerType hstate
        (quiet_of_idleEvent hidle).not_parked hlen hstop
      dsimp only
      rcases hdisp : dispatch d d.recv.nextRecord stop outerType with ⟨result, f⟩
      rcases hdisp' : dispatch d' d.recv.nextRecord stop outerType with ⟨result', f'⟩
      rw [hdisp, hdisp'] at hresult hnext
      dsimp only at hresult hnext
      subst hresult
      cases result with
      | error err => exact .leave ⟨rfl, hnext⟩
      | ok u => exact .again hnext
    · exact .leave ⟨rfl, hstate⟩
  · rw [hevent, hevent']
    exact .leave ⟨rfl, hd⟩

theorem readApp_alike (h : e.Alike e') (outLen : Nat) :
    Lockstep Alike (e.readApp outLen) (e'.readApp outLen) := by
  have hordered := (readApp_parked h.ordered outLen).2.1
  have hplain := h.ordered.plain
  have hlive := h.ordered.parked.trans h.ordered.next
  have hstop : e.recv.plainStart + min (e.recv.plainEnd - e.recv.plainStart) outLen ≤
      e.recv.filled := by
    omega
  have hslice := h.received.slice_eq e.recv.plainStart hstop
  unfold readApp at hordered ⊢
  rw [h.recv]
  exact ⟨hslice, h.core, h.received, rfl, hordered⟩

theorem advance_fill_alike (h : e.Alike e') (data : Bytes) :
    Lockstep Alike ((e.fill data).advance data.length) ((e'.fill data).advance data.length) := by
  have hordered : ((e.fill data).advance data.length).2.recv.Ordered sz.recv :=
    call_ordered (e := e.fill data) h.ordered (.advance data.length)
  have hwritten := h.received.overwrite (Nat.le_refl _) (data.take e.recvBufferLen)
  have hkeep := hwritten.mono (Nat.le_max_left _ _)
  have hlen : e'.recvBufferLen = e.recvBufferLen := by unfold recvBufferLen; rw [h.recv]
  unfold advance fill at hordered ⊢
  rw [hlen, h.recv]
  dsimp only at hordered ⊢
  split_ifs at hordered ⊢ with hzero hparked hlarge
  · exact ⟨rfl, h.core, hkeep, rfl, hordered⟩
  · exact ⟨rfl, h.core, hkeep, rfl, hordered⟩
  · exact ⟨rfl, h.core, hkeep, rfl, hordered⟩
  · have hroom : (data.take e.recvBufferLen).length = data.length := by
      rw [recvBufferLen, if_neg hparked, List.length_take]
      omega
    exact ⟨rfl, h.core, hwritten.mono (by dsimp only; omega), rfl, hordered⟩

end Engine

/-- The parameters of `connect`, with the crate's own client authentication. -/
structure HandshakeParams (cfg : ClientConfig) where
  hostname : Bytes
  verifyChain : List Bytes → Option (PreparedVerifier cfg.verifiers)
  clientAuth : ClientAuthImpl cfg.features

def HandshakeParams.toClientParams {cfg : ClientConfig} (params : HandshakeParams cfg) :
    ClientParams cfg where
  hostname := params.hostname
  verifyChain := params.verifyChain
  clientAuth := params.clientAuth.policy

/-- The operations of a wrapper. What it receives it writes to the receive buffer and advances
over. -/
inductive Operation (cfg : ClientConfig) where
  | stepHandshake (params : HandshakeParams cfg)
  | step
  | receive (data : Bytes)
  | readApp (outLen : Nat)
  | writeApp (plaintext : Bytes)
  | markSent (n : Nat)
  | markTerminal
  | close

def Operation.calls {cfg : ClientConfig} : Operation cfg → List (Call cfg)
  | .stepHandshake params => [.stepHandshake params.toClientParams]
  | .step => [.step]
  | .receive data => [.fill data, .advance data.length]
  | .readApp outLen => [.readApp outLen]
  | .writeApp plaintext => [.writeApp plaintext]
  | .markSent n => [.markSent n]
  | .markTerminal => [.markTerminal]
  | .close => [.close]

/-- What a wrapper sees of an operation: its results, then `send_bytes()`, the length of
`recv_buffer()` and `is_closed()`. -/
structure Observation where
  outputs : List Output
  sendBytes : Bytes
  recvBufferLen : Nat
  closed : Bool
  deriving DecidableEq

namespace Engine
variable {cfg : ClientConfig} {sz : Sizes} {e e' : Engine cfg sz}

def perform (e : Engine cfg sz) (op : Operation cfg) : Observation × Engine cfg sz :=
  let next := e.after op.calls
  (⟨trace call e op.calls, next.core.sendBytes, next.recvBufferLen, next.core.isClosed⟩, next)

theorem Alike.observation_eq (h : e.Alike e') {outputs outputs' : List Output}
    (houtputs : outputs = outputs') :
    (⟨outputs, e.core.sendBytes, e.recvBufferLen, e.core.isClosed⟩ : Observation) =
      ⟨outputs', e'.core.sendBytes, e'.recvBufferLen, e'.core.isClosed⟩ := by
  have hlen : e'.recvBufferLen = e.recvBufferLen := by unfold recvBufferLen; rw [h.recv]
  have hclosed : e'.core.isClosed = e.core.isClosed := by
    obtain ⟨b, hcore, -⟩ := h.core
    rw [hcore]
    rfl
  rw [houtputs, h.core.sendBytes_eq, hlen, hclosed]

theorem perform_alike_of_call {op : Operation cfg} {c : Call cfg} (hcalls : op.calls = [c])
    {α : Type} {r r' : α × Engine cfg sz} {f : α → Output} (hcall : e.call c = r.map f id)
    (hcall' : e'.call c = r'.map f id) (h : Lockstep Alike r r') :
    Lockstep Alike (e.perform op) (e'.perform op) := by
  have hresult : (e.call c).1 = (e'.call c).1 := by
    rw [hcall, hcall']
    exact congrArg f h.result
  have hstate : (e.call c).2.Alike (e'.call c).2 := by
    rw [hcall, hcall']
    exact h.state
  unfold perform
  rw [hcalls]
  exact ⟨hstate.observation_eq (by simp only [trace, hresult]), hstate⟩

/-- Every operation has the same result on engines that are alike, and leaves them alike. -/
theorem perform_alike (h : e.Alike e') (op : Operation cfg) :
    Lockstep Alike (e.perform op) (e'.perform op) := by
  have hcore {α : Type} {r r' : α × Core cfg sz} (hr : Lockstep Core.Alike r r') :
      Lockstep Alike (e.withCore r) (e'.withCore r') :=
    ⟨hr.result, hr.state, h.received, h.recv, h.ordered⟩
  cases op with
  | stepHandshake params =>
    exact perform_alike_of_call rfl rfl rfl
      (stepLoop_alike (dispatchHandshakeRecord_alike params.clientAuth.policy_writesOnly) h)
  | step => exact perform_alike_of_call rfl rfl rfl (stepLoop_alike dispatchDataRecord_alike h)
  | receive data =>
    obtain ⟨hresult, hstate⟩ := advance_fill_alike h data
    refine ⟨hstate.observation_eq ?_, hstate⟩
    simp only [Operation.calls, trace, call, Prod.map, hresult]
  | readApp outLen => exact perform_alike_of_call rfl rfl rfl (readApp_alike h outLen)
  | writeApp plaintext =>
    exact perform_alike_of_call rfl rfl rfl (hcore (Core.writeApp_alike h.core plaintext))
  | markSent n => exact perform_alike_of_call rfl rfl rfl (hcore (Core.markSent_alike h.core n))
  | markTerminal =>
    have hstate : e.markTerminal.Alike e'.markTerminal :=
      ⟨Core.markTerminal_alike h.core, h.received, h.recv, h.ordered⟩
    exact ⟨hstate.observation_eq rfl, hstate⟩
  | close => exact perform_alike_of_call rfl rfl rfl (hcore (Core.close_alike h.core))

/-- What a wrapper sees of a connection. -/
def observations (e : Engine cfg sz) (ops : List (Operation cfg)) : List Observation :=
  trace perform e ops

end Engine

structure Scratch (f : Features) (sz : Sizes) where
  reassembler : ServerFlightReassembler sz.flight
  recvRecord : Block sz.recv
  sendRecord : Block sz.send
  ch : Block f.chScratch

def ServerFlightReassembler.clear {n : Nat} (_ : ServerFlightReassembler n) :
    ServerFlightReassembler n :=
  ⟨[], Nat.zero_le _⟩

namespace Scratch
variable {cfg : ClientConfig} {sz : Sizes}

/-- The start of `connect`: the hello is written to `ch` and sent from there. -/
def sendClientHello (scratch : Scratch cfg.features sz) (init : Init cfg)
    (primaryPub : Block cfg.features.primaryPubLen) (opts : ClientHelloOptions cfg.features) :
    Except ConnectionError (Bytes × WaitServerHello cfg) × Scratch cfg.features sz :=
  match init.writeClientHelloWith cfg.features.chScratch primaryPub opts with
  | .error err => (.error err, scratch)
  | .ok (record, waitSh) =>
      let ch := scratch.ch.overwrite 0 record
      (.ok (slice ch.val 0 record.length, waitSh), { scratch with ch })

theorem sendClientHello_fst (scratch : Scratch cfg.features sz) (init : Init cfg)
    (primaryPub : Block cfg.features.primaryPubLen) (opts : ClientHelloOptions cfg.features) :
    (scratch.sendClientHello init primaryPub opts).1 =
      init.writeClientHelloWith cfg.features.chScratch primaryPub opts := by
  unfold sendClientHello
  cases hwrite : init.writeClientHelloWith cfg.features.chScratch primaryPub opts with
  | error err => rfl
  | ok out =>
    have hfits : out.1.length ≤ cfg.features.chScratch := by
      simp only [Init.writeClientHelloWith, bind_eq_ok, ensure_eq_ok] at hwrite
      obtain ⟨_, -, _, hlen, _, -, hout⟩ := hwrite
      cases hout
      exact hlen
    dsimp only
    rw [Block.slice_overwrite_front _ hfits]

/-- `TlsEngine::new`: of what the scratch holds, only the buffered flight is dropped. -/
def engine (scratch : Scratch cfg.features sz) (initState : EngineState cfg)
    (ourRecvLimit peerRecvLimit : RecordSizeLimit) : Engine cfg sz :=
  { Engine.new scratch.sendRecord scratch.recvRecord initState ourRecvLimit peerRecvLimit with
    core.reassembler := scratch.reassembler.clear }

/-- A connection behaves the same on every scratch: it sends the same hello, and whatever is done
with its engine shows the same results. -/
theorem reuse_observations_eq (scratch scratch' : Scratch cfg.features sz) :
    (∀ init primaryPub opts, (scratch.sendClientHello init primaryPub opts).1 =
        (scratch'.sendClientHello init primaryPub opts).1) ∧
      ∀ (initState : EngineState cfg) (ourRecvLimit peerRecvLimit : RecordSizeLimit)
        (ops : List (Operation cfg)),
        (scratch.engine initState ourRecvLimit peerRecvLimit).observations ops =
          (scratch'.engine initState ourRecvLimit peerRecvLimit).observations ops := by
  constructor
  · intro init primaryPub opts
    rw [sendClientHello_fst, sendClientHello_fst]
  · intro initState ourRecvLimit peerRecvLimit ops
    refine trace_eq_of_lockstep (fun _ _ op h => Engine.perform_alike h op) ops ?_
    -- at the start no cursor covers a byte of either buffer
    exact ⟨⟨_, rfl, .zero _ _⟩, .zero _ _, rfl,
      ⟨Nat.le_refl _, Nat.le_refl _, Nat.le_refl _, Nat.zero_le _⟩⟩

end Scratch

end KrabiTls
