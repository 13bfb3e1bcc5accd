import KrabiTls.Stream

/-! Runs of calls on a stream. What the engine's calls preserve, the calls on the stream preserve. -/
namespace KrabiTls
open Lib

inductive StreamCall where
  | read (outLen : Nat)
  | tryRead (outLen : Nat)
  | writeAll (buf : Bytes)
  | close
  deriving DecidableEq, Repr

/-- A read into a buffer that is not empty. -/
def StreamCall.reads : StreamCall → Bool
  | .read outLen | .tryRead outLen => 0 < outLen
  | _ => false

/-- What a call returns: data read (`Ok(n)`, `Ok(Some(n))`), `Ok(None)` or `Ok(())`. -/
inductive StreamReply where
  | data (bytes : Bytes)
  | notYet
  | done
  deriving DecidableEq, Repr

namespace TlsStream
variable {cfg : ClientConfig} {sz : Sizes} {ε α : Type}

def call : StreamCall → M cfg sz ε StreamReply
  | .read outLen => do return .data (← read outLen)
  | .tryRead outLen => do
      match ← tryRead outLen with
      | some data => pure (.data data)
      | none => pure .notYet
  | .writeAll buf => do writeAll buf; pure .done
  | .close => do close; pure .done

/-- A run of calls that all return; a failed call is followed by the next one. -/
def run (s : TlsStream cfg sz ε) :
    List StreamCall → Option (List (Except (ConnectError ε) StreamReply) × TlsStream cfg sz ε)
  | [] => some ([], s)
  | c :: calls =>
      match (call c).exec s with
      | none => none
      | some (reply, s) =>
          match s.run calls with
          | none => none
          | some (replies, s) => some (reply :: replies, s)

/-- An invariant that programs keep as long as they succeed, and what is left when one fails. -/
structure Guards (allowed : Call cfg → Prop) (good bad : TlsStream cfg sz ε → Prop) : Prop where
  weaken : ∀ s, good s → bad s
  called : ∀ s call, allowed call → good s → (s.engine.call call).1.isOk = true →
    good { s with engine := (s.engine.call call).2 }
  failed : ∀ s call, allowed call → good s → bad { s with engine := (s.engine.call call).2 }
  sent : ∀ s s', good s → s.Handed s' →
    s'.engine = (s.engine.markSent s.engine.core.sendBytes.length).2 → good s'
  broken : ∀ s s', good s → s.Handed s' → s'.engine = s.engine.markTerminal → bad s'
  received : ∀ s s', good s → s.Received s' → good s'

/-- An invariant of the engine is one of the stream. -/
theorem guards_of_keeps {allowed : Call cfg → Prop} {inv : Engine cfg sz → Prop}
    (hkeeps : Engine.Keeps allowed inv)
    (htransport : ∀ call : Call cfg, call.isTransport = true → allowed call) :
    Guards allowed (inv ·.engine) (fun s : TlsStream cfg sz ε => inv s.engine) where
  weaken _ h := h
  called s call hcall h _ := hkeeps s.engine call hcall h
  failed s call hcall h := hkeeps s.engine call hcall h
  sent s s' h _ heng := by
    rw [heng]
    exact hkeeps _ (.markSent _) (htransport _ rfl) h
  broken s s' h _ heng := by
    rw [heng]
    exact hkeeps _ .markTerminal (htransport _ rfl) h
  received s s' h hrec := by
    obtain ⟨data, heng⟩ := hrec.engine
    have hfill : inv (s.engine.fill data) := hkeeps _ (.fill data) (htransport _ rfl) h
    rcases heng with heng | ⟨n, heng⟩
    · rw [heng]
      exact hfill
    · rw [heng]
      exact hkeeps _ (.advance n) (htransport _ rfl) hfill

/-- The engine reports what is the case. -/
theorem step_reports (e : Engine cfg sz) :
    (e.step.1 = .ok .closed → e.step.2.core.closed = true) ∧
      (e.step.1 = .ok .appData → e.step.2.recv.plaintextParked = true) := by
  refine Engine.stepLoop_rule (fun _ => True) (fun r =>
    (r.1 = .ok .closed → r.2.core.closed = true) ∧
      (r.1 = .ok .appData → r.2.recv.plaintextParked = true)) ?_ ?_ ?_ ?_ ?_ e trivial
  · intro e event e' _ hevent
    unfold Engine.idleEvent at hevent
    repeat' split at hevent
    all_goals cases hevent
    all_goals simp_all
  · exact fun _ _ _ _ => ⟨nofun, nofun⟩
  · exact fun _ _ _ _ _ => ⟨nofun, nofun⟩
  · exact fun _ _ _ _ _ _ _ _ _ _ => ⟨nofun, nofun⟩
  · exact fun _ _ _ _ _ _ _ _ _ => trivial

/-- Where data read comes from: there was some parked, or the engine is closed and there is none. -/
def ReadFrom (good : TlsStream cfg sz ε → Prop) (outLen : Nat) (data : Bytes)
    (s : TlsStream cfg sz ε) : Prop :=
  data = [] ∧ s.engine.core.closed = true ∨
    ∃ s₀, good s₀ ∧ s₀.engine.recv.plaintextParked = true ∧
      s₀.engine.readApp outLen = (data, s.engine)

namespace Guards
open Program
variable {allowed : Call cfg → Prop} {good bad : TlsStream cfg sz ε → Prop}
  (h : Guards allowed good bad)
include h

theorem driveOneSendStep :
    Triple good driveOneSendStep (fun _ => good) (fun _ => bad) := by
  refine .of_forall fun s hs => (driveOneSendStep_spec s).mono (fun _ h => h) ?_ ?_
  · rintro _ s' ⟨hhanded, heng⟩
    exact h.sent s s' hs hhanded heng
  · rintro _ s' (rfl | ⟨hhanded, heng⟩)
    · exact h.weaken _ hs
    · exact h.broken s s' hs hhanded heng

theorem receiving {α : Type} {step : M cfg sz ε α}
    (hstep : ∀ s, Triple (· = s) step (fun _ s' => s.Received s')
      (fun _ s' => s' = s ∨ s.Received s')) :
    Triple good step (fun _ => good) (fun _ => bad) := by
  refine .of_forall fun s hs => (hstep s).mono (fun _ h => h) ?_ ?_
  · exact fun _ s' hrec => h.received s s' hs hrec
  · rintro _ s' (rfl | hrec)
    · exact h.weaken _ hs
    · exact h.weaken _ (h.received s s' hs hrec)

theorem driveOneRecvStep : Triple good driveOneRecvStep (fun _ => good) (fun _ => bad) :=
  h.receiving driveOneRecvStep_spec

theorem driveOneRecvStepNb : Triple good driveOneRecvStepNb (fun _ => good) (fun _ => bad) :=
  h.receiving driveOneRecvStepNb_spec

theorem drainPendingSend :
    Triple good drainPendingSend (fun _ s => good s ∧ s.engine.core.isSendPending = false)
      (fun _ => bad) :=
  drainPendingSend_triple _ (h.driveOneSendStep.mono (fun _ hs => hs.1) (fun _ _ h => h)
    fun _ _ h => h)

theorem onEngine {f : Engine cfg sz → Except HandshakeError α × Engine cfg sz} {call : Call cfg}
    (hcall : allowed call) (heng : ∀ e, (e.call call).2 = (f e).2)
    (hok : ∀ e, (e.call call).1.isOk = (f e).1.isOk) :
    Triple good (onEngine f) (fun _ => good) (fun _ => bad) := by
  refine onEngine_triple (fun s a e hs hf => ?_) fun s err e hs hf => ?_
  · have := h.called s call hcall hs (by rw [hok, hf]; rfl)
    rwa [heng, hf] at this
  · have := h.failed s call hcall hs
    rwa [heng, hf] at this

theorem close (hclose : allowed .close) : Triple good close
    (fun _ s => good s ∧ s.engine.core.isSendPending = false) (fun _ => bad) := by
  refine .bind _ h.drainPendingSend fun _ => .bind
    (fun _ s => good s ∧ s.engine.core.isSendPending = false) ?_ fun closed => ?_
  · intro s hs r s' hexec
    cases hexec
    exact hs
  · split
    · exact .pure fun _ hs => hs
    · refine .bind (fun _ => good) ((h.onEngine hclose (fun _ => rfl) fun _ => rfl).mono
        (fun _ hs => hs.1) (fun _ _ hs => hs) fun _ _ hs => hs) fun _ => h.drainPendingSend

section Data
variable (hdata : ∀ call : Call cfg, call.isApp = true → allowed call)
include hdata

theorem step :
    Triple good (TlsStream.onEngine (·.step))
      (fun event s => good s ∧ (event = .closed → s.engine.core.closed = true) ∧
        (event = .appData → s.engine.recv.plaintextParked = true)) (fun _ => bad) := by
  refine onEngine_triple (fun s event e hs hstep => ?_) fun s err e hs hstep => ?_
  · have hgood := h.called s .step (hdata _ rfl) hs (by simp [Engine.call, hstep]; rfl)
    have hrep := step_reports s.engine
    simp only [Engine.call, Prod.map, id] at hgood
    rw [hstep] at hgood hrep
    exact ⟨hgood, fun h => hrep.1 (by rw [h]), fun h => hrep.2 (by rw [h])⟩
  · have hbad := h.failed s .step (hdata _ rfl) hs
    simp only [Engine.call, Prod.map, id] at hbad
    rwa [hstep] at hbad

theorem readApp (outLen : Nat) :
    Triple (fun s => good s ∧ s.engine.recv.plaintextParked = true) (readApp outLen)
      (fun data s => good s ∧ ReadFrom good outLen data s) (fun _ => bad) := by
  rintro s ⟨hs, hparked⟩ r s' hexec
  cases hexec
  exact ⟨h.called s (.readApp outLen) (hdata _ rfl) hs rfl, .inr ⟨s, hs, hparked, rfl⟩⟩

theorem read {outLen : Nat} (hpos : 0 < outLen) :
    Triple good (read outLen) (fun data s => good s ∧ ReadFrom good outLen data s)
      (fun _ => bad) := by
  unfold TlsStream.read
  rw [if_neg hpos.ne']
  refine ioLoop_triple _ (.bind _ (h.step hdata) fun event => ?_)
  cases event with
  | send =>
    refine .bind (fun _ => good) (h.driveOneSendStep.mono (fun _ hs => hs.1) (fun _ _ hs => hs)
      fun _ _ hs => hs) fun _ => .pure fun _ hs => hs
  | recv =>
    refine .bind (fun _ => good) (h.driveOneRecvStep.mono (fun _ hs => hs.1) (fun _ _ hs => hs)
      fun _ _ hs => hs) fun _ => .pure fun _ hs => hs
  | appData =>
    refine .bind _ ((h.readApp hdata outLen).mono (fun _ hs => ⟨hs.1, hs.2.2 rfl⟩)
      (fun _ _ hs => hs) fun _ _ hs => hs) fun _ => .pure fun _ hs => hs
  | handshakeDone => exact .throw fun s hs => h.weaken s hs.1
  | closed => exact .pure fun _ hs => ⟨hs.1, .inl ⟨rfl, hs.2.1 rfl⟩⟩

theorem tryRead {outLen : Nat} (hpos : 0 < outLen) :
    Triple good (tryRead outLen)
      (fun r s => good s ∧ ∀ data, r = some data → ReadFrom good outLen data s) (fun _ => bad) := by
  unfold TlsStream.tryRead
  rw [if_neg hpos.ne']
  refine ioLoop_triple _ (.bind _ (h.step hdata) fun event => ?_)
  cases event with
  | send =>
    refine .bind (fun _ => good) (h.driveOneSendStep.mono (fun _ hs => hs.1) (fun _ _ hs => hs)
      fun _ _ hs => hs) fun _ => .pure fun _ hs => hs
  | recv =>
    refine .bind (fun _ => good) (h.driveOneRecvStepNb.mono (fun _ hs => hs.1) (fun _ _ hs => hs)
      fun _ _ hs => hs) fun progress => ?_
    cases progress with
    | fed => exact .pure fun _ hs => hs
    | wouldBlock => exact .pure fun _ hs => ⟨hs, nofun⟩
    | eof => exact .throw fun s hs => h.weaken s hs
  | appData =>
    refine .bind _ ((h.readApp hdata outLen).mono (fun _ hs => ⟨hs.1, hs.2.2 rfl⟩)
      (fun _ _ hs => hs) fun _ _ hs => hs) fun data => .pure fun _ hs => ⟨hs.1, ?_⟩
    rintro _ ⟨⟩
    exact hs.2
  | handshakeDone => exact .throw fun s hs => h.weaken s hs.1
  | closed =>
    refine .pure fun _ hs => ⟨hs.1, ?_⟩
    rintro _ ⟨⟩
    exact .inl ⟨rfl, hs.2.1 rfl⟩

theorem writeApp (buf : Bytes) :
    Triple (fun s => good s ∧ s.engine.core.isSendPending = false) (writeApp buf)
      (fun r s => match r with
        | .ok _ => good s
        | .error e => bad s ∧ e ≠ .busy) (fun _ => bad) := by
  rintro s ⟨hs, hpending⟩ r s' hexec
  cases hexec
  have hgood := h.called s (.writeApp buf) (hdata _ rfl) hs
  have hbad := h.failed s (.writeApp buf) (hdata _ rfl) hs
  have hbusy := writeApp_ne_busy hpending buf
  simp only [Engine.call, Prod.map, id, Engine.writeApp, Engine.withCore, Output.isOk] at hgood hbad ⊢
  cases hres : (s.engine.core.writeApp buf).1 with
  | ok n => exact hgood (by rw [hres]; rfl)
  | error e => exact ⟨hbad, fun he => hbusy (by rw [hres, he])⟩

theorem writeAll (buf : Bytes) : Triple good (writeAll buf) (fun _ => good) (fun _ => bad) := by
  have hdrain : Triple good TlsStream.drainPendingSend (fun _ => good) (fun _ => bad) :=
    h.drainPendingSend.mono (fun _ hs => hs) (fun _ _ hs => hs.1) fun _ _ hs => hs
  refine Triple.loop (fun _ => good) (fun buf => ?_) buf
  show Triple _ (writePass buf) _ _
  unfold writePass
  split
  · exact .pure fun _ hs => hs
  · refine .bind _ h.drainPendingSend fun _ => .bind _ (h.writeApp hdata buf) fun r => ?_
    cases r with
    | ok n =>
      cases n with
      | zero => exact .throw fun s hs => h.weaken s hs
      | succ n => exact .bind _ hdrain fun _ => .pure fun _ hs => hs
    | error e =>
      cases e with
      | busy => exact fun _ hs => absurd rfl hs.2
      | closed | notReady | other => exact .throw fun _ hs => hs.1

theorem call (c : StreamCall) (hclose : c = .close → allowed .close) :
    Triple good (call c) (fun _ => good) (fun _ => bad) := by
  cases c with
  | read outLen =>
    refine .bind (fun _ => good) ?_ fun _ => .pure fun _ hs => hs
    rcases outLen.eq_zero_or_pos with rfl | hpos
    · exact .pure fun _ hs => hs
    · exact (h.read hdata hpos).mono (fun _ hs => hs) (fun _ _ hs => hs.1) fun _ _ hs => hs
  | tryRead outLen =>
    refine .bind (fun _ => good) ?_ fun r => by cases r <;> exact .pure fun _ hs => hs
    rcases outLen.eq_zero_or_pos with rfl | hpos
    · exact .pure fun _ hs => hs
    · exact (h.tryRead hdata hpos).mono (fun _ hs => hs) (fun _ _ hs => hs.1) fun _ _ hs => hs
  | writeAll buf => exact .bind _ (h.writeAll hdata buf) fun _ => .pure fun _ hs => hs
  | close => exact .bind _ (h.close (hclose rfl)) fun _ => .pure fun _ hs => hs.1

/-- A run keeps the invariant as long as its calls do. -/
theorem run {calls : List StreamCall} (hclose : .close ∈ calls → allowed .close)
    {s s' : TlsStream cfg sz ε} {replies : List (Except (ConnectError ε) StreamReply)}
    (hrun : s.run calls = some (replies, s'))
    (hok : (∀ s, bad s → good s) ∨ ∀ r ∈ replies, r.isOk = true) (hs : good s) : good s' := by
  induction calls generalizing s replies with
  | nil => cases hrun; exact hs
  | cons c calls ih =>
    rw [TlsStream.run] at hrun
    split at hrun
    · cases hrun
    · rename_i reply s₁ hcall
      split at hrun
      · cases hrun
      · rename_i replies₁ s₂ hrest
        cases hrun
        have hone := h.call hdata c fun hc => hclose (by simp [hc])
        refine ih (fun hc => hclose (List.mem_cons_of_mem c hc)) hrest ?_ ?_
        · exact hok.imp (fun hb => hb) fun hr r hmem => hr r (List.mem_cons_of_mem _ hmem)
        · cases reply with
          | ok _ => exact hone.ok hs hcall
          | error e =>
            rcases hok with hb | hr
            · exact hb _ (hone.error hs hcall)
            · cases hr (.error e) (by simp)

end Data

end Guards

/-- A stream that `connect` has returned. -/
def Established (s : TlsStream cfg sz ε) : Prop :=
  ∃ first sendRecord recvRecord ourRecvLimit transport params ch,
    (connect params ch).exec ⟨.new sendRecord recvRecord (.waitServerHello first) ourRecvLimit
      .default, transport⟩ = some (.ok (), s)

end TlsStream

end KrabiTls
