import KrabiTls.Dtls.Record

/-! The datagram transport, and sending application data on an established DTLS connection. -/
namespace KrabiTls.Dtls
open Lib

def maxDatagram : Nat := 2048

/-- What the transport has put into a receive buffer. -/
abbrev Datagram := { d : Bytes // d.length ≤ maxDatagram }

/-- A transport, by the replies it is going to give; a call for which there is no reply does not
return. `sent` has the datagrams passed to `send`. -/
structure DatagramTransport (ε : Type) where
  sends : List (Except ε Unit) := []
  recvs : List (Except ε (Option Datagram)) := []
  sent : List Bytes := []

namespace DatagramTransport
variable {ε : Type} (t : DatagramTransport ε)

def send (datagram : Bytes) : Option (Except ε Unit × DatagramTransport ε) :=
  match t.sends with
  | [] => none
  | reply :: sends => some (reply, { t with sends, sent := t.sent ++ [datagram] })

def recv : Option (Except ε (Option Datagram) × DatagramTransport ε) :=
  match t.recvs with
  | [] => none
  | reply :: recvs => some (reply, { t with recvs })

end DatagramTransport

inductive DtlsClientError (ε : Type) where
  | transport (e : ε)
  | timeout
  | protocol
  | handshake
  | keySchedule
  | rng
  | bufferTooSmall
  | strategyRejected
  | pubkeyMismatch
  | hostnameMismatch
  | certVerify
  | recordSizeLimit
  deriving DecidableEq, Repr

/-- The sending half of the client after the handshake. -/
structure DtlsClient where
  clientApp : EpochKeys
  sendSeq : Nat
  sendCid : Block 20
  sendCidLen : Nat
  peerRecordLimit : Option Nat

variable {ε : Type}

/-- One call of `send`: its arguments and the transport's answer, should it be asked. -/
structure SendCall (ε : Type) where
  payload : Bytes
  outLen : Nat
  answer : Except ε Unit

/-- A payload sealed under the epoch-3 client key and handed to the transport. -/
structure SealedPayload where
  seq : Nat
  nonce : Block 12
  payload : Bytes
  deriving DecidableEq, Repr

namespace DtlsClient
variable (a : AeadBackend) (m : Masker)

def sealHeader (c : DtlsClient) : SealHeader where
  epoch := 3
  seq := c.sendSeq
  seqLen := .two
  cid := if c.sendCidLen > 0 then some (c.sendCid.val.take c.sendCidLen) else none

/-- The part of `send` in front of the transport: the datagram it hands over. -/
def sealPayload (c : DtlsClient) (call : SendCall ε) : Except (DtlsClientError ε) Bytes :=
  if c.peerRecordLimit.any (call.payload.length + 1 > ·) then .error .recordSizeLimit
  else (c.clientApp.seal a m c.sealHeader call.payload ctApplicationData call.outLen).mapError
    fun _ => .bufferTooSmall

def bumpSeq (c : DtlsClient) : DtlsClient :=
  { c with sendSeq := (c.sendSeq + 1) % 2 ^ 64 }

/-- `send_seq` moves on only once the transport has taken the datagram. -/
def send (c : DtlsClient) (call : SendCall ε) : Except (DtlsClientError ε) Unit × DtlsClient :=
  match c.sealPayload a m call with
  | .error e => (.error e, c)
  | .ok _ =>
      match call.answer with
      | .error e => (.error (.transport e), c)
      | .ok () => (.ok (), c.bumpSeq)

def sealedPayload (c : DtlsClient) (payload : Bytes) : SealedPayload :=
  ⟨c.sendSeq, aeadNonce c.clientApp.keys.iv c.sendSeq, payload⟩

/-- Everything a run of `send` calls seals, in order. -/
def history (c : DtlsClient) : List (SendCall ε) → List SealedPayload
  | [] => []
  | call :: rest =>
      match c.sealPayload a m call with
      | .error _ => (c.send a m call).2.history rest
      | .ok _ => c.sealedPayload call.payload :: (c.send a m call).2.history rest

/-- The size checks in front of the AEAD accept the call. -/
def Fits (c : DtlsClient) (call : SendCall ε) : Prop :=
  c.peerRecordLimit.any (call.payload.length + 1 > ·) = false ∧
    call.payload.length + 17 ≤ 0xFFFF ∧
    c.sealHeader.headerLen + (call.payload.length + 17) ≤ call.outLen

instance (c : DtlsClient) (call : SendCall ε) : Decidable (c.Fits call) :=
  inferInstanceAs (Decidable (_ ∧ _ ∧ _))

/-- While the transport has not confirmed the payload it was last handed (`unconfirmed`), every call
that reaches the AEAD carries that payload again. -/
def RetriesRepeat (c : DtlsClient) : Option Bytes → List (SendCall ε) → Prop
  | _, [] => True
  | unconfirmed, call :: rest =>
      if c.Fits call then
        (∀ p ∈ unconfirmed, call.payload = p) ∧
          c.RetriesRepeat (if call.answer.toBool then none else some call.payload) rest
      else c.RetriesRepeat unconfirmed rest

end DtlsClient

/-- No sequence number, and no nonce, is used for two different payloads. -/
def NonceUnique (sealed : List SealedPayload) : Prop :=
  ∀ x ∈ sealed, ∀ y ∈ sealed, x.seq = y.seq ∨ x.nonce = y.nonce → x.payload = y.payload

namespace DtlsClient
variable {a : AeadBackend} {m : Masker}
variable {c : DtlsClient}

theorem sealHeader_headerLen_le (c : DtlsClient) : c.sealHeader.headerLen ≤ 2 ^ 16 := by
  simp only [SealHeader.headerLen, SealHeader.cidLen, sealHeader, SeqNumLen.bytes]
  split
  · simp [c.sendCid.property]; omega
  · simp

theorem sealPayload_isOk_iff (htotal : a.Total) (m : Masker) (c : DtlsClient) (call : SendCall ε) :
    (∃ datagram, c.sealPayload a m call = .ok datagram) ↔ c.Fits call := by
  have hseal := EpochKeys.seal_isOk_iff htotal m c.clientApp c.sealHeader_headerLen_le call.payload
    ctApplicationData call.outLen
  unfold sealPayload Fits
  rw [← hseal]
  cases c.peerRecordLimit.any (call.payload.length + 1 > ·) with
  | true => simp
  | false => simp [mapError_eq_ok]

theorem history_cons_of_fits (htotal : a.Total) {call : SendCall ε} (hfits : c.Fits call)
    (rest : List (SendCall ε)) :
    c.history a m (call :: rest) = c.sealedPayload call.payload ::
      (if call.answer.toBool then c.bumpSeq else c).history a m rest := by
  obtain ⟨datagram, hok⟩ := (sealPayload_isOk_iff htotal m c call).mpr hfits
  cases hans : call.answer with
  | error e => simp [history, send, hok, hans, Except.toBool]
  | ok u => simp [history, send, hok, hans, Except.toBool]

theorem history_cons_of_not_fits (htotal : a.Total) {call : SendCall ε} (hfits : ¬ c.Fits call)
    (rest : List (SendCall ε)) :
    c.history a m (call :: rest) = c.history a m rest := by
  cases hres : c.sealPayload a m call with
  | error e => simp [history, send, hres]
  | ok datagram => exact absurd ((sealPayload_isOk_iff htotal m c call).mp ⟨datagram, hres⟩) hfits

@[simp] theorem fits_bumpSeq (c : DtlsClient) (call : SendCall ε) :
    c.bumpSeq.Fits call ↔ c.Fits call := Iff.rfl

theorem retriesRepeat_bumpSeq (c : DtlsClient) (unconfirmed : Option Bytes)
    (calls : List (SendCall ε)) :
    c.bumpSeq.RetriesRepeat unconfirmed calls ↔ c.RetriesRepeat unconfirmed calls := by
  induction calls generalizing unconfirmed with
  | nil => rfl
  | cons call rest ih => simp only [RetriesRepeat, fits_bumpSeq, ih]

/-- Until the counter wraps, a run seals under the number it starts at or a later one. -/
theorem sendSeq_le_of_mem_history (htotal : a.Total) {calls : List (SendCall ε)}
    (hwrap : c.sendSeq + calls.length ≤ 2 ^ 64) {x : SealedPayload} (hx : x ∈ c.history a m calls) :
    c.sendSeq ≤ x.seq ∧ x.seq < 2 ^ 64 ∧ x.nonce = aeadNonce c.clientApp.keys.iv x.seq := by
  induction calls generalizing c with
  | nil => simp [history] at hx
  | cons call rest ih =>
    simp only [List.length_cons] at hwrap
    by_cases hfits : c.Fits call
    · rw [history_cons_of_fits htotal hfits] at hx
      rcases List.mem_cons.mp hx with rfl | hx
      · exact ⟨Nat.le_refl _, by simp only [sealedPayload]; omega, rfl⟩
      · cases hans : call.answer.toBool with
        | false =>
          simp only [hans] at hx
          exact ih (by omega) hx
        | true =>
          simp only [hans, if_true] at hx
          by_cases hlast : rest = []
          · subst hlast
            simp [history] at hx
          · have hpos := List.length_pos_iff.mpr hlast
            have hseq : c.bumpSeq.sendSeq = c.sendSeq + 1 := Nat.mod_eq_of_lt (by omega)
            have hrest := ih (by omega) hx
            exact ⟨by omega, hrest.2⟩
    · rw [history_cons_of_not_fits htotal hfits] at hx
      exact ih (by omega) hx

/-- What a run may seal after the transport was handed `unconfirmed` under number `seq`. -/
def Consistent (unconfirmed : Option Bytes) (seq : Nat) (sealed : List SealedPayload) : Prop :=
  (∀ x ∈ sealed, ∀ y ∈ sealed, x.seq = y.seq → x.payload = y.payload) ∧
    ∀ p ∈ unconfirmed, ∀ x ∈ sealed, x.seq = seq → x.payload = p

theorem consistent_cons_of_retry (unconfirmed : Option Bytes) (x : SealedPayload)
    (sealed : List SealedPayload) :
    Consistent unconfirmed x.seq (x :: sealed) ↔
      (∀ p ∈ unconfirmed, x.payload = p) ∧ Consistent (some x.payload) x.seq sealed := by
  constructor
  · rintro ⟨hunique, hpending⟩
    refine ⟨fun p hp => hpending p hp x (by simp) rfl, ?_, ?_⟩
    · intro y hy z hz
      exact hunique y (by simp [hy]) z (by simp [hz])
    · intro p hp y hy hseq
      rw [← Option.some.inj hp]
      exact hunique y (by simp [hy]) x (by simp) hseq
  · rintro ⟨hfirst, hunique, hpending⟩
    have hx : ∀ y ∈ x :: sealed, y.seq = x.seq → y.payload = x.payload := by
      intro y hy hseq
      rcases List.mem_cons.mp hy with hyx | hy
      · rw [hyx]
      · exact hpending x.payload rfl y hy hseq
    refine ⟨?_, ?_⟩
    · intro y hy z hz hseq
      by_cases hyx : y.seq = x.seq
      · rw [hx y hy hyx, hx z hz (hseq ▸ hyx)]
      · have hzx : z.seq ≠ x.seq := hseq ▸ hyx
        have hy' : y ∈ sealed := List.mem_of_ne_of_mem (fun h => hyx (h ▸ rfl)) hy
        have hz' : z ∈ sealed := List.mem_of_ne_of_mem (fun h => hzx (h ▸ rfl)) hz
        exact hunique y hy' z hz' hseq
    · intro p hp y hy hseq
      rw [hx y hy hseq]
      exact hfirst p hp

theorem consistent_cons_of_confirmed (unconfirmed : Option Bytes) {x : SealedPayload}
    {sealed : List SealedPayload} (hlater : ∀ y ∈ sealed, x.seq < y.seq) (seq : Nat) :
    Consistent unconfirmed x.seq (x :: sealed) ↔
      (∀ p ∈ unconfirmed, x.payload = p) ∧ Consistent none seq sealed := by
  have hnone : Consistent (some x.payload) x.seq sealed ↔ Consistent none seq sealed := by
    constructor
    · rintro ⟨hunique, _⟩
      exact ⟨hunique, by simp⟩
    · rintro ⟨hunique, _⟩
      refine ⟨hunique, fun p _ y hy hseq => ?_⟩
      have := hlater y hy
      omega
  rw [consistent_cons_of_retry, hnone]

/-- Before the counter wraps, a run's seals are consistent exactly when its retries repeat. -/
theorem consistent_history_iff (htotal : a.Total) {calls : List (SendCall ε)}
    (hwrap : c.sendSeq + calls.length ≤ 2 ^ 64) (unconfirmed : Option Bytes) :
    Consistent unconfirmed c.sendSeq (c.history a m calls) ↔ c.RetriesRepeat unconfirmed calls := by
  induction calls generalizing c unconfirmed with
  | nil => simp [history, RetriesRepeat, Consistent]
  | cons call rest ih =>
    simp only [List.length_cons] at hwrap
    by_cases hfits : c.Fits call
    · rw [history_cons_of_fits htotal hfits, RetriesRepeat, if_pos hfits]
      cases hans : call.answer.toBool with
      | false =>
        rw [← ih (by omega)]
        exact consistent_cons_of_retry unconfirmed (c.sealedPayload call.payload) _
      | true =>
        simp only [if_true]
        by_cases hlast : rest = []
        · subst hlast
          simp [history, sealedPayload, RetriesRepeat, Consistent]
        · have hpos := List.length_pos_iff.mpr hlast
          have hseq : c.bumpSeq.sendSeq = c.sendSeq + 1 := Nat.mod_eq_of_lt (by omega)
          have hlater : ∀ y ∈ c.bumpSeq.history a m rest, c.sendSeq < y.seq := by
            intro y hy
            have := (sendSeq_le_of_mem_history htotal (by omega) hy).1
            omega
          rw [← retriesRepeat_bumpSeq, ← ih (by omega)]
          exact consistent_cons_of_confirmed unconfirmed
            (x := c.sealedPayload call.payload) hlater _
    · rw [history_cons_of_not_fits htotal hfits, RetriesRepeat, if_neg hfits]
      exact ih (by omega) unconfirmed

/-- On a fresh connection and below `2 ^ 64` sends, no sequence number and no nonce is used for two
payloads exactly when every call after a transport error repeats the payload of that error. -/
theorem history_nonceUnique_iff (htotal : a.Total) {c : DtlsClient} (hfresh : c.sendSeq = 0)
    (calls : List (SendCall ε)) (hwrap : calls.length ≤ 2 ^ 64) :
    NonceUnique (c.history a m calls) ↔ c.RetriesRepeat none calls := by
  rw [← consistent_history_iff htotal (by omega)]
  constructor
  · intro hunique
    exact ⟨fun x hx y hy hseq => hunique x hx y hy (.inl hseq), by simp⟩
  · rintro ⟨hunique, _⟩ x hx y hy (hseq | hnonce)
    · exact hunique x hx y hy hseq
    · obtain ⟨_, hxlt, hxn⟩ := sendSeq_le_of_mem_history htotal (by omega) hx
      obtain ⟨_, hylt, hyn⟩ := sendSeq_le_of_mem_history htotal (by omega) hy
      rw [hxn, hyn] at hnonce
      exact hunique x hx y hy (aeadNonce_injOn hxlt hylt hnonce)

/-- A client fresh from the handshake, with all-zero keys and no connection id. -/
def sample : DtlsClient where
  clientApp := ⟨⟨.aes128GcmSha256, Block.zeros 16, Block.zeros 12⟩, Block.zeros 16⟩
  sendSeq := 0
  sendCid := Block.zeros 20
  sendCidLen := 0
  peerRecordLimit := none

def sampleMasker : Masker where
  mask _ _ sample := sample

/-- A transport error on the first call: the second payload goes out under the same nonce. -/
theorem history_reuses_nonce :
    ¬ NonceUnique (sample.history AeadBackend.clear sampleMasker
      [⟨[1], 64, .error "link down"⟩, ⟨[2], 64, .ok ()⟩]) := by
  intro hunique
  have hpayload := hunique (sample.sealedPayload [1]) (by decide) (sample.sealedPayload [2])
    (by decide) (.inl rfl)
  exact absurd hpayload (by decide)

theorem history_nonceUnique_of_retry :
    NonceUnique (sample.history AeadBackend.clear sampleMasker
      [⟨[1], 64, .error "link down"⟩, ⟨[1], 64, .ok ()⟩, ⟨[2], 64, .ok ()⟩]) :=
  (history_nonceUnique_iff AeadBackend.clear_total rfl _ (by decide)).mpr (by
    simp [RetriesRepeat, Fits, sample, sealHeader, SealHeader.headerLen, SealHeader.cidLen,
      SeqNumLen.bytes, Except.toBool])

end DtlsClient

end KrabiTls.Dtls
