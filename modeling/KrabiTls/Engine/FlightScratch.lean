import KrabiTls.Engine.Framing
import KrabiTls.Messages

/-! The client-auth flight is built at the front of the receive buffer, where bytes that the server
sent behind its `Finished` may stand. They survive exactly if the flight ends in front of them. -/
namespace KrabiTls
open Lib

/-- The two policies that answer a `CertificateRequest`. -/
inductive ClientAnswer (f : Features) where
  | decline
  | authenticate (auth : ClientAuth f)

/-- The signature over the transcript `t`; empty if there is none. -/
def ClientAuth.signature {f : Features} (h : HkdfSha256) (auth : ClientAuth f) (t : TranscriptHash) :
    Bytes :=
  match t.snapshot h with
  | .error _ => []
  | .ok th =>
      match auth.sign (certificateVerifyContent "TLS 1.3, client CertificateVerify" th) with
      | .error _ => []
      | .ok sig => sig.val

namespace ClientAnswer
variable {f : Features}

def policy : ClientAnswer f → ClientAuthPolicy
  | .decline => declineClientAuth
  | .authenticate auth => withClientAuth auth

/-- The length of the flight: `Certificate`, `CertificateVerify` unless declined, `Finished`. -/
def flightLen (h : HkdfSha256) (req : FlightRequest) : ClientAnswer f → Nat
  | .decline => 8 + req.certRequestContext.length + 36
  | .authenticate auth =>
      let certificate := (buildClientCertificate f auth.certDer req.certRequestContext).toOption.getD []
      13 + req.certRequestContext.length + auth.certDer.length +
        (8 + (auth.signature h (req.transcript.update certificate)).length) + 36

end ClientAnswer

variable {msg : Bytes}

theorem buildClientEmptyCertificate_length {ctx : Bytes}
    (h : buildClientEmptyCertificate ctx = .ok msg) : msg.length = 8 + ctx.length := by
  unfold buildClientEmptyCertificate at h
  split at h
  · cases h
  · cases h
    simp only [hsMessage_length, List.length_append, toBe_length, List.length_cons, List.length_nil]
    omega

theorem buildClientCertificate_length {f : Features} {der ctx : Bytes}
    (h : buildClientCertificate f der ctx = .ok msg) : msg.length = 13 + ctx.length + der.length := by
  unfold buildClientCertificate at h
  repeat' split at h
  all_goals cases h
  simp only [hsMessage_length, List.length_append, toBe_length, List.length_cons, List.length_nil]
  omega

theorem certificateVerifyStage_length {h : HkdfSha256} {f : Features} {auth : ClientAuth f}
    {t : TranscriptHash} (hok : certificateVerifyStage h auth t = .ok msg) :
    msg.length = 8 + (auth.signature h t).length := by
  simp only [certificateVerifyStage, buildClientCertificateVerify, bind_eq_ok, mapError_eq_ok] at hok
  obtain ⟨th, hth, sig, hsig, hout⟩ := hok
  cases hout
  simp only [ClientAuth.signature, hth, hsig, hsMessage_length, List.length_append, toBe_length]
  omega

theorem finishedStage_length {h : HkdfSha256} {secret : Secret} {t : TranscriptHash}
    (hok : finishedStage h secret t = .ok msg) : msg.length = 36 := by
  simp only [finishedStage, buildFinishedPlaintext, bind_eq_ok, mapError_eq_ok] at hok
  obtain ⟨th, -, verifyData, -, hout⟩ := hok
  cases hout
  simp [verifyData.property]

namespace FlightWriter
variable {cap : Nat} {stage : TranscriptHash → Except ClientAuthFlightError Bytes}
  {rest : List (TranscriptHash → Except ClientAuthFlightError Bytes)} {w : FlightWriter}

/-- A stage stops the flight, or its message is written and the rest of the stages follow. -/
theorem build_cons (cap : Nat) (stage : TranscriptHash → Except ClientAuthFlightError Bytes)
    (rest : List (TranscriptHash → Except ClientAuthFlightError Bytes)) (w : FlightWriter) :
    (∃ err, build cap (stage :: rest) w = (.error err, w)) ∨
      ∃ msg, stage w.transcript = .ok msg ∧ w.written.length + msg.length ≤ cap ∧
        build cap (stage :: rest) w =
          build cap rest ⟨w.transcript.update msg, w.written ++ msg⟩ := by
  rw [build]
  cases hstage : stage w.transcript with
  | error err => exact .inl ⟨err, rfl⟩
  | ok msg =>
    by_cases hfits : w.written.length + msg.length ≤ cap
    · exact .inr ⟨msg, rfl, hfits, by simp [bind, Except.bind, push, hfits]⟩
    · exact .inl ⟨.bufferTooSmall, by simp [bind, Except.bind, push, hfits]⟩

theorem build_nil (cap : Nat) (w : FlightWriter) : build cap [] w = (.ok (), w) := rfl

end FlightWriter

/-- What building a flight puts at the front of the buffer: at most `len` bytes, and all of them
if it succeeds. -/
def Builds (len n : Nat) (r : Except ClientAuthFlightError Unit × FlightWriter) : Prop :=
  r.2.written.length ≤ n ∧ r.2.written.length ≤ len ∧ (r.1 = .ok () → r.2.written.length = len)

theorem declineStages_builds (h : HkdfSha256) (req : FlightRequest) (n : Nat) :
    Builds (8 + req.certRequestContext.length + 36) n
      (FlightWriter.build n (declineStages h req) ⟨req.transcript, []⟩) := by
  unfold declineStages
  rcases FlightWriter.build_cons n _ _ ⟨req.transcript, []⟩ with ⟨err, heq⟩ | ⟨cert, hcert, hfit, heq⟩
  · rw [heq]
    exact ⟨Nat.zero_le _, Nat.zero_le _, nofun⟩
  · have hlen := buildClientEmptyCertificate_length hcert
    rw [heq]
    simp only [List.nil_append, List.length_nil] at hfit ⊢
    rcases FlightWriter.build_cons n (finishedStage h req.cHsTrafficSecret) []
      ⟨req.transcript.update cert, cert⟩ with ⟨err, heq⟩ | ⟨fin, hfin, hfit', heq⟩
    · rw [heq]
      exact ⟨by simp only; omega, by simp only; omega, nofun⟩
    · have hlen' := finishedStage_length hfin
      rw [heq, FlightWriter.build_nil]
      simp only [Builds, List.length_append] at hfit' ⊢
      omega

theorem withClientAuthStages_builds (h : HkdfSha256) (req : FlightRequest) {f : Features}
    (auth : ClientAuth f) (n : Nat) :
    Builds ((ClientAnswer.authenticate auth).flightLen h req) n
      (FlightWriter.build n (withClientAuthStages h req auth) ⟨req.transcript, []⟩) := by
  unfold withClientAuthStages ClientAnswer.flightLen
  dsimp only
  rcases FlightWriter.build_cons n _ _ ⟨req.transcript, []⟩ with ⟨err, heq⟩ | ⟨cert, hcert, hfit, heq⟩
  · rw [heq]
    exact ⟨Nat.zero_le _, Nat.zero_le _, by rintro ⟨⟩⟩
  · have hlen := buildClientCertificate_length hcert
    rw [heq, hcert]
    simp only [List.nil_append, List.length_nil, Except.toOption, Option.getD_some] at hfit ⊢
    rcases FlightWriter.build_cons n (certificateVerifyStage h auth)
      [finishedStage h req.cHsTrafficSecret] ⟨req.transcript.update cert, cert⟩ with
      ⟨err, heq⟩ | ⟨cv, hcv, hfit', heq⟩
    · rw [heq]
      exact ⟨by simp only; omega, by simp only; omega, by rintro ⟨⟩⟩
    · dsimp only at hcv
      have hlen' := certificateVerifyStage_length hcv
      rw [heq]
      rcases FlightWriter.build_cons n (finishedStage h req.cHsTrafficSecret) []
        ⟨(req.transcript.update cert).update cv, cert ++ cv⟩ with
        ⟨err, heq⟩ | ⟨fin, hfin, hfit'', heq⟩
      · rw [heq]
        simp only [Builds, List.length_append] at hfit' ⊢
        exact ⟨by omega, by omega, by rintro ⟨⟩⟩
      · have hlen'' := finishedStage_length hfin
        rw [heq, FlightWriter.build_nil]
        simp only [Builds, List.length_append] at hfit' hfit'' ⊢
        omega

/-- `build_flight` writes the flight over the front of its scratch buffer. -/
theorem ClientAnswer.buildFlight_eq {f : Features} (answer : ClientAnswer f) (h : HkdfSha256)
    (req : FlightRequest) (n : Nat) :
    ∃ written : Bytes, written.length ≤ n ∧ written.length ≤ answer.flightLen h req ∧
      ∀ out : Block n, (answer.policy.buildFlight h req out).2 = out.overwrite 0 written ∧
        ∀ plaintext, (answer.policy.buildFlight h req out).1 = .ok plaintext →
          written.length = answer.flightLen h req := by
  have hstages {len : Nat} {stages : List (TranscriptHash → Except ClientAuthFlightError Bytes)}
      (hbuilds : Builds len n (FlightWriter.build n stages ⟨req.transcript, []⟩)) :
      ∃ written : Bytes, written.length ≤ n ∧ written.length ≤ len ∧
        ∀ out : Block n, (req.buildStages stages out).2 = out.overwrite 0 written ∧
          ∀ plaintext, (req.buildStages stages out).1 = .ok plaintext → written.length = len := by
    obtain ⟨hn, hlen, hok⟩ := hbuilds
    refine ⟨_, hn, hlen, fun out => ⟨rfl, fun plaintext hplain => hok ?_⟩⟩
    obtain ⟨⟨⟩, hres, -⟩ := map_eq_ok.mp hplain
    exact hres
  cases answer with
  | decline => exact hstages (declineStages_builds h req n)
  | authenticate auth =>
    unfold policy withClientAuth
    dsimp only
    by_cases hoffer : sigAlgsOffer req.certRequestSigAlgs auth.scheme = true
    · simp only [hoffer, not_true_eq_false, if_false]
      exact hstages (withClientAuthStages_builds h req auth n)
    · refine ⟨[], Nat.zero_le _, Nat.zero_le _, fun out => ?_⟩
      simp only [hoffer]
      exact ⟨Subtype.ext (overwrite_nil _ _).symm, nofun⟩

namespace Core
variable {cfg : ClientConfig} {sz : Sizes} {c : Core cfg sz}
variable {accepted : Accepted cfg} {params : ClientParams cfg}

/-- What a complete server flight asks the client for. -/
def flightRequest (c : Core cfg sz) : Option FlightRequest :=
  match c.state with
  | .waitFlight conn => do
      let bytes ← c.reassembler.flightBytes
      let flight ← (parseServerFlight bytes).toOption
      let creq ← flight.certRequestFull
      let ctx ← (certificateRequestContext creq).toOption
      let sigAlgs ← (certificateRequestSigAlgs creq).toOption
      pure ⟨ctx, sigAlgs, conn.cHsTs, conn.transcript.throughFin flight⟩
  | _ => none

theorem FlightAccepted.flightRequest {conn : WaitServerFlight} {done : ServerFlightDone}
    (h : c.FlightAccepted params conn accepted done) {ctx sigAlgs : Bytes}
    (hreq : accepted.certRequest = some (ctx, sigAlgs)) :
    c.flightRequest = some ⟨ctx, sigAlgs, done.cHsTs, done.transcript⟩ := by
  have hchecked := acceptFlight_checked c h.accept
  obtain ⟨bytes, hbytes, hflight⟩ := hchecked.received
  obtain ⟨-, bytes', flight, owned, hbytes', hflight', -, -, rfl⟩ :=
    (WaitServerFlight.finalizeServerFlight_eq_ok cfg).mp h.finalize
  obtain rfl : bytes' = bytes := by rw [hbytes'] at hbytes; exact Option.some.inj hbytes
  obtain rfl : flight = accepted.flight := by rw [hflight'] at hflight; exact Except.ok.inj hflight
  have hrequest := hchecked.certRequest
  rw [hreq] at hrequest
  unfold certRequest at hrequest
  split at hrequest
  · cases hrequest
  · rename_i creq hcreq
    split at hrequest
    · simp only [bind_eq_ok, mapError_eq_ok] at hrequest
      obtain ⟨ctx', hctx, sigAlgs', hsig, hout⟩ := hrequest
      cases hout
      simp [Core.flightRequest, h.state, hbytes', hflight', hcreq, hctx, hsig, Except.toOption]
    · cases hrequest

/-- What the call puts at the front of its scratch buffer of `n` bytes. -/
structure Writes (answer : ClientAnswer cfg.features) (c : Core cfg sz) (n : Nat) (written : Bytes)
    (call : Block n → Except HandshakeError Unit × Block n × Core cfg sz) : Prop where
  fits : written.length ≤ n
  scratch : ∀ out, (call out).2.1 = out.overwrite 0 written
  bounded : written = [] ∨ ∃ req, c.flightRequest = some req ∧
    written.length ≤ answer.flightLen cfg.hkdf req
  complete : ∀ out, (call out).1 = .ok () → ∀ req, c.flightRequest = some req →
    written.length = answer.flightLen cfg.hkdf req

theorem writes_nothing {answer : ClientAnswer cfg.features} {n : Nat}
    {call : Block n → Except HandshakeError Unit × Block n × Core cfg sz}
    (hkeep : ∀ out, (call out).2.1 = out)
    (hnone : ∀ out, (call out).1 = .ok () → c.flightRequest = none) : Writes answer c n [] call := by
  refine ⟨Nat.zero_le _, fun out => ?_, .inl rfl, fun out hok req hreq => ?_⟩
  · rw [hkeep]
    exact Subtype.ext (overwrite_nil _ _).symm
  · rw [hnone out hok] at hreq
    cases hreq

theorem flightRequest_eq_none (haccept : c.acceptFlight params = .ok accepted)
    (hpolicy : params.clientAuth.acceptCertRequest = true) (hnone : accepted.certRequest = none) :
    c.flightRequest = none := by
  have hchecked := acceptFlight_checked c haccept
  obtain ⟨bytes, hbytes, hflight⟩ := hchecked.received
  have hrequest := hchecked.certRequest
  rw [hnone] at hrequest
  have hcreq : accepted.flight.certRequestFull = none := by
    unfold certRequest at hrequest
    split at hrequest
    · assumption
    · simp only [hpolicy, if_true, bind_eq_ok, mapError_eq_ok] at hrequest
      obtain ⟨_, _, _, _, hout⟩ := hrequest
      cases hout
  unfold flightRequest
  split
  · simp [hbytes, hflight, Except.toOption, hcreq]
  · rfl

theorem finishHandshakeWithPolicy_writes (answer : ClientAnswer cfg.features) (done : ServerFlightDone)
    (ctx sigAlgs : Bytes) (limit n outLen : Nat) :
    ∃ written : Bytes, written.length ≤ n ∧
      written.length ≤ answer.flightLen cfg.hkdf ⟨ctx, sigAlgs, done.cHsTs, done.transcript⟩ ∧
      ∀ out : Block n,
        (done.finishHandshakeWithPolicy cfg answer.policy ctx sigAlgs limit out outLen).2 =
          out.overwrite 0 written ∧
        ∀ r, (done.finishHandshakeWithPolicy cfg answer.policy ctx sigAlgs limit out
            outLen).1.result = .ok r →
          written.length = answer.flightLen cfg.hkdf ⟨ctx, sigAlgs, done.cHsTs, done.transcript⟩ := by
  unfold ServerFlightDone.finishHandshakeWithPolicy
  cases done.transcript.snapshot cfg.hkdf with
  | error err =>
    exact ⟨[], Nat.zero_le _, Nat.zero_le _, fun out =>
      ⟨Subtype.ext (overwrite_nil _ _).symm, nofun⟩⟩
  | ok th =>
    obtain ⟨written, hn, hlen, hbuild⟩ :=
      answer.buildFlight_eq cfg.hkdf ⟨ctx, sigAlgs, done.cHsTs, done.transcript⟩ n
    refine ⟨written, hn, hlen, fun out => ?_⟩
    obtain ⟨hout, hok⟩ := hbuild out
    dsimp only
    split
    · exact ⟨hout, nofun⟩
    · rename_i plaintext hplain
      split
      · exact ⟨hout, nofun⟩
      · split
        · exact ⟨hout, nofun⟩
        · exact ⟨hout, fun _ _ => hok plaintext hplain⟩

theorem finishFlight_of_accepted {conn : WaitServerFlight} {done : ServerFlightDone}
    (h : c.FlightAccepted params conn accepted done) {n : Nat} (out : Block n) :
    (c.finishFlight params out).2.1 = (c.clientFlight params accepted.certRequest done out).2 ∧
      ((c.finishFlight params out).1 = .ok () →
        ∃ r, (c.clientFlight params accepted.certRequest done out).1.result = .ok r) := by
  unfold finishFlight
  simp only [h.accept, h.state, h.finalize]
  split
  · exact ⟨rfl, nofun⟩
  · rename_i r hres
    exact ⟨rfl, fun _ => ⟨_, hres⟩⟩

theorem finishFlight_writes (answer : ClientAnswer cfg.features) (c : Core cfg sz)
    (hpolicy : params.clientAuth = answer.policy) (n : Nat) :
    ∃ written, Writes answer c n written (c.finishFlight params) := by
  cases haccept : c.acceptFlight params with
  | error err =>
    exact ⟨[], writes_nothing (by simp [finishFlight, haccept]) (by simp [finishFlight, haccept])⟩
  | ok accepted =>
    cases hstate : c.state with
    | waitFlight conn =>
      cases hfinal : conn.finalizeServerFlight cfg c.reassembler accepted.prepared
          accepted.leafView with
      | error err =>
        exact ⟨[], writes_nothing (by simp [finishFlight, haccept, hstate, hfinal])
          (by simp [finishFlight, haccept, hstate, hfinal])⟩
      | ok done =>
        have haccepted : c.FlightAccepted params conn accepted done := ⟨hstate, haccept, hfinal⟩
        cases hreq : accepted.certRequest with
        | none =>
          refine ⟨[], writes_nothing (fun out => ?_) fun out _ => ?_⟩
          · rw [(finishFlight_of_accepted haccepted out).1, hreq]
            rfl
          · refine flightRequest_eq_none haccept ?_ hreq
            rw [hpolicy]
            cases answer <;> rfl
        | some request =>
          obtain ⟨ctx, sigAlgs⟩ := request
          have hrequest := haccepted.flightRequest hreq
          obtain ⟨written, hn, hlen, hwrites⟩ := finishHandshakeWithPolicy_writes answer done ctx
            sigAlgs c.peerRecvLimit n sz.send
          refine ⟨written, hn, fun out => ?_, .inr ⟨_, hrequest, hlen⟩, fun out hok req hreq' => ?_⟩
          · rw [(finishFlight_of_accepted haccepted out).1, hreq]
            simp only [clientFlight, hpolicy]
            exact (hwrites out).1
          · obtain ⟨r, hr⟩ := (finishFlight_of_accepted haccepted out).2 hok
            rw [hreq] at hr
            simp only [clientFlight, hpolicy] at hr
            rw [hrequest] at hreq'
            cases hreq'
            exact (hwrites out).2 r hr
    | _ =>
      exact ⟨[], writes_nothing (by simp [finishFlight, haccept, hstate])
        (by simp [finishFlight, haccept, hstate])⟩

/-- The bytes behind the record that completes the server flight are kept, whatever they are. -/
def KeepsTail (c : Core cfg sz) (params : ClientParams cfg) (stop : Nat) : Prop :=
  ∀ (recvRecord : Block sz.recv) (filled : Nat), stop ≤ filled → filled ≤ sz.recv →
    slice (c.finalizeAndFinish params recvRecord).2.1.val stop filled =
      slice recvRecord.val stop filled

theorem KeepsTail.buffered {c : Core cfg sz} {params : ClientParams cfg} {stop : Nat}
    (hkeeps : c.KeepsTail params stop) {e e' : Engine cfg sz} {record : Bytes} {outerType : UInt8}
    (h : e.recv.Ordered sz.recv) (hstart : e.recv.nextRecord ≤ stop) (hstop : stop ≤ e.recv.filled)
    (hfeed : e.core.feedFlightRecord (slice e.recvRecord.val e.recv.nextRecord stop) =
      (.ok .ready, record, c))
    (hok : e.dispatchHandshakeRecord params e.recv.nextRecord stop outerType = (.ok (), e'))
    (hstate : ∃ conn, e.core.state = .waitFlight conn) :
    e'.buffered = slice e.recvRecord.val stop e.recv.filled := by
  obtain ⟨conn, hstate⟩ := hstate
  have hlen : record.length = stop - e.recv.nextRecord := by
    have hfed := e.core.feedFlightRecord_length (slice e.recvRecord.val e.recv.nextRecord stop)
    have hfilled := h.filled
    have hsize := e.recvRecord.property
    rw [hfeed, slice_length_of_le (by omega)] at hfed
    exact hfed
  have hbehind := Engine.slice_behind_record h hstart hstop hlen
  have htail := hkeeps (e.recvRecord.overwrite e.recv.nextRecord record) e.recv.filled hstop h.filled
  simp only [Engine.dispatchHandshakeRecord, Engine.handleHandshakeRecord, hstate,
    Engine.handleFlightRecord, hfeed] at hok
  split at hok
  · cases hok
  · rename_i heq
    cases hok
    obtain ⟨-, rfl⟩ := Prod.mk.inj heq
    exact htail.trans hbehind

/-- A client-auth flight that ends in front of `stop` leaves the bytes from there on alone, and they
are framed as received; a flight that is sent leaves them alone only then. -/
theorem finalizeAndFinish_keepsTail (c : Core cfg sz) (answer : ClientAnswer cfg.features)
    (hostname : Bytes) (verifyChain : List Bytes → Option (PreparedVerifier cfg.verifiers))
    (stop : Nat) :
    let params : ClientParams cfg := ⟨hostname, verifyChain, answer.policy⟩
    let fitsInFront := ∀ req, c.flightRequest = some req → answer.flightLen cfg.hkdf req ≤ stop
    (fitsInFront → c.KeepsTail params stop) ∧
    ((c.finalizeAndFinish params (Block.zeros sz.recv)).1 = .ok () →
      (c.KeepsTail params stop ↔ fitsInFront)) ∧
    (c.KeepsTail params stop → ∀ (e e' : Engine cfg sz) (record : Bytes) (outerType : UInt8),
      e.recv.Ordered sz.recv → e.recv.nextRecord ≤ stop → stop ≤ e.recv.filled →
      (∃ conn, e.core.state = .waitFlight conn) →
      e.core.feedFlightRecord (slice e.recvRecord.val e.recv.nextRecord stop) =
        (.ok .ready, record, c) →
      e.dispatchHandshakeRecord params e.recv.nextRecord stop outerType = (.ok (), e') →
      e'.buffered = slice e.recvRecord.val stop e.recv.filled) := by
  intro params fitsInFront
  obtain ⟨written, hwrites⟩ : ∃ written, Writes answer c sz.recv written
      (c.finalizeAndFinish params) := by
    unfold finalizeAndFinish
    split
    · exact ⟨[], writes_nothing (fun _ => rfl) nofun⟩
    · obtain ⟨written, hwrites⟩ := finishFlight_writes answer _ (rfl : params.clientAuth = _) sz.recv
      exact ⟨written, hwrites.fits, hwrites.scratch, hwrites.bounded, hwrites.complete⟩
  have hkeeps : c.KeepsTail params stop ↔ written.length ≤ stop := by
    unfold KeepsTail
    simp only [hwrites.scratch]
    exact overwrite_keeps_tail_iff hwrites.fits
  have hsufficient : fitsInFront → c.KeepsTail params stop := by
    intro hfits
    rw [hkeeps]
    rcases hwrites.bounded with rfl | ⟨req, hreq, hlen⟩
    · exact Nat.zero_le _
    · exact hlen.trans (hfits req hreq)
  refine ⟨hsufficient, fun hok => ⟨fun hkept req hreq => ?_, hsufficient⟩, ?_⟩
  · rw [← hwrites.complete _ hok req hreq]
    exact hkeeps.mp hkept
  · intro hkept e e' record outerType hord hstart hstop hstate hfeed hdispatch
    exact hkept.buffered hord hstart hstop hfeed hdispatch hstate

end Core

namespace Sample

def authSizes : Sizes := ⟨512, 2560, 2560, 4⟩

def flightRecord : Bytes := (serverFlight certificateRequest).toOption.getD []

/-- The engine that has read the `ServerHello`. -/
def waiting : Engine .sample authSizes :=
  (engine authSizes).after
    [.fill serverHello, .advance serverHello.length, .stepHandshake params, .stepHandshake params]

/-- The protocol state when the server flight is complete. -/
def complete : Core .sample authSizes := (waiting.core.feedFlightRecord flightRecord).2.2

def signer : ClientAuth Features.standard where
  certDer := List.replicate 300 1
  scheme := sigSchemeEd25519
  sign content := .ok ⟨List.replicate 64 (digest content), by simp; decide⟩

def answering (answer : ClientAnswer Features.standard) : ClientParams .sample :=
  ⟨params.hostname, params.verifyChain, answer.policy⟩

/-- The data phase after a handshake whose last record came together with application data. -/
def coalesced (answer : ClientAnswer Features.standard) : Engine .sample authSizes :=
  let alone := waiting.after
    [.fill flightRecord, .advance flightRecord.length, .stepHandshake (answering answer)]
  let received := flightRecord ++ serverRecord alone 0 (ascii "hello") ctApplicationData
  waiting.after [.fill received, .advance received.length, .stepHandshake (answering answer),
    .markSent alone.core.sendPendingLen, .stepHandshake (answering answer)]

end Sample

namespace Core

/-- Declining takes 44 bytes in front of the 199 of the server's record: what came with it stays. -/
theorem finalizeAndFinish_keepsTail_decline :
    Sample.complete.KeepsTail (Sample.answering .decline) Sample.flightRecord.length ∧
      (Sample.coalesced .decline).step.1 = .ok .appData := by
  refine ⟨(finalizeAndFinish_keepsTail Sample.complete .decline _ _ _).1 fun req hreq => ?_,
    by decide +kernel⟩
  have hlen : Sample.complete.flightRequest.all
      (fun req => (ClientAnswer.decline : ClientAnswer Features.standard).flightLen .sample req ≤
        Sample.flightRecord.length) = true := by
    decide +kernel
  rw [hreq] at hlen
  simp only [Option.all_some, decide_eq_true_eq] at hlen
  exact hlen

/-- A certificate of 300 bytes makes a flight of 421, which is written over what came with the
server's record: the application data is not found. -/
theorem finalizeAndFinish_overwrites_tail :
    let params := Sample.answering (.authenticate Sample.signer)
    (Sample.complete.finalizeAndFinish params (Block.zeros Sample.authSizes.recv)).1 = .ok () ∧
      ¬ Sample.complete.KeepsTail params Sample.flightRecord.length ∧
      (Sample.coalesced (.authenticate Sample.signer)).step.1 = .ok .recv := by
  refine ⟨by decide +kernel, fun hkeeps => ?_, by decide +kernel⟩
  have hlost := hkeeps (Block.zeros _) (Sample.flightRecord.length + 1) (Nat.le_add_right _ _)
    (by decide +kernel)
  exact absurd hlost (by decide +kernel)

end Core

end KrabiTls
