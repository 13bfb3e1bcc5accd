import KrabiTls.Engine.Auth
import KrabiTls.Lib.Program

/-! The blocking wrapper: an engine and a transport, driven to the result of each call. -/
namespace KrabiTls
open Lib

inductive ConnectError (ε : Type) where
  | io (e : ε)
  | unexpectedEof
  | closed
  | handshake (e : HandshakeError)
  deriving DecidableEq, Repr

/-- A transport, by the replies it is going to give: of a read the result and what it puts into the
buffer. A call for which there is no reply does not return. `handed` has the buffers passed to
`write_all`. -/
structure Transport (ε : Type) where
  reads : List (Except ε Nat × Bytes) := []
  readsNb : List (Except ε (Option Nat) × Bytes) := []
  writes : List (Except ε Unit) := []
  handed : List Bytes := []

namespace Transport
variable {ε : Type} (t : Transport ε)

def replies : Nat := t.reads.length + t.readsNb.length + t.writes.length

def read : Option ((Except ε Nat × Bytes) × Transport ε) :=
  match t.reads with
  | [] => none
  | reply :: reads => some (reply, { t with reads })

def readNb : Option ((Except ε (Option Nat) × Bytes) × Transport ε) :=
  match t.readsNb with
  | [] => none
  | reply :: readsNb => some (reply, { t with readsNb })

def writeAll (buf : Bytes) : Option (Except ε Unit × Transport ε) :=
  match t.writes with
  | [] => none
  | reply :: writes => some (reply, { t with writes, handed := t.handed ++ [buf] })

end Transport

structure TlsStream (cfg : ClientConfig) (sz : Sizes) (ε : Type) where
  engine : Engine cfg sz
  transport : Transport ε

namespace TlsStream
variable {cfg : ClientConfig} {sz : Sizes} {ε α : Type}

abbrev M (cfg : ClientConfig) (sz : Sizes) (ε : Type) :=
  Program (ConnectError ε) (TlsStream cfg sz ε)

/-- A fallible call of the engine, as `?` passes its error on. -/
def onEngine (f : Engine cfg sz → Except HandshakeError α × Engine cfg sz) : M cfg sz ε α :=
  .ofFun fun s => some ((f s.engine).1.mapError .handshake, { s with engine := (f s.engine).2 })

def readApp (outLen : Nat) : M cfg sz ε Bytes :=
  .ofFun fun s =>
    some (.ok (s.engine.readApp outLen).1, { s with engine := (s.engine.readApp outLen).2 })

def isSendPending : M cfg sz ε Bool := .ofFun fun s => some (.ok s.engine.core.isSendPending, s)

def isClosed : M cfg sz ε Bool := .ofFun fun s => some (.ok s.engine.core.isClosed, s)

def internal (e : InternalError) : M cfg sz ε α := throw (.handshake (.internal e))

def driveOneSendStep : M cfg sz ε Unit :=
  .ofFun fun s =>
    let bytes := s.engine.core.sendBytes
    if bytes = [] then (internal .drainStateInconsistent).exec s
    else
      match s.transport.writeAll bytes with
      | none => none
      | some (.error e, transport) => some (.error (.io e), ⟨s.engine.markTerminal, transport⟩)
      | some (.ok (), transport) => (onEngine (·.markSent bytes.length)).exec { s with transport }

def driveOneRecvStep : M cfg sz ε Unit :=
  .ofFun fun s =>
    if s.engine.recvBufferLen = 0 then (internal .recvBufferEmptyOnRecvEvent).exec s
    else
      match s.transport.read with
      | none => none
      | some ((n, data), transport) =>
          let s : TlsStream cfg sz ε := ⟨s.engine.fill data, transport⟩
          match n with
          | .error e => some (.error (.io e), s)
          | .ok 0 => some (.error .unexpectedEof, s)
          | .ok n => (onEngine (·.advance n)).exec s

inductive RecvProgress where
  | fed
  | wouldBlock
  | eof

def driveOneRecvStepNb : M cfg sz ε RecvProgress :=
  .ofFun fun s =>
    if s.engine.recvBufferLen = 0 then (internal .recvBufferEmptyOnRecvEvent).exec s
    else
      match s.transport.readNb with
      | none => none
      | some ((n, data), transport) =>
          let s : TlsStream cfg sz ε := ⟨s.engine.fill data, transport⟩
          match n with
          | .error e => some (.error (.io e), s)
          | .ok none => some (.ok .wouldBlock, s)
          | .ok (some 0) => some (.ok .eof, s)
          | .ok (some n) => (do onEngine (·.advance n); pure .fed : M cfg sz ε _).exec s

section Rules
open Program

variable {t t' : Transport ε}

theorem onEngine_triple {pre : TlsStream cfg sz ε → Prop} {post : α → TlsStream cfg sz ε → Prop}
    {fail : ConnectError ε → TlsStream cfg sz ε → Prop}
    {f : Engine cfg sz → Except HandshakeError α × Engine cfg sz}
    (hok : ∀ s a e, pre s → f s.engine = (.ok a, e) → post a { s with engine := e })
    (herr : ∀ s err e, pre s → f s.engine = (.error err, e) →
      fail (.handshake err) { s with engine := e }) : Triple pre (onEngine f) post fail := by
  intro s hs r s' h
  simp only [onEngine, exec_ofFun] at h
  rcases hf : f s.engine with ⟨_ | a, e⟩
  · rw [hf] at h
    cases h
    exact herr s _ e hs hf
  · rw [hf] at h
    cases h
    exact hok s a e hs hf

theorem markSent_sendBytes {c : Core cfg sz} (h : c.sendBytes ≠ []) :
    (c.markSent c.sendBytes.length).1 = .ok () := by
  have hle : c.sendAcked + c.sendBytes.length ≤ c.sendPendingLen := by
    have hpos := List.length_pos_iff.mpr h
    unfold Core.sendBytes at hpos ⊢
    split at hpos
    · cases hpos
    · rename_i hlen
      rw [if_neg hlen]
      simp only [slice, List.length_take, List.length_drop] at hpos ⊢
      omega
  unfold Core.markSent
  rw [if_neg (by omega)]
  dsimp only
  split <;> rfl

/-- One call of `write_all` with everything that is pending. -/
structure Handed (s s' : TlsStream cfg sz ε) : Prop where
  nonempty : s.engine.core.sendBytes ≠ []
  handed : s'.transport.handed = s.transport.handed ++ [s.engine.core.sendBytes]
  replies : s'.transport.replies < s.transport.replies

/-- One call of `read` or `read_nb`: bytes are put into the buffer and may be acknowledged. -/
structure Received (s s' : TlsStream cfg sz ε) : Prop where
  engine : ∃ data, s'.engine = s.engine.fill data ∨ ∃ n, s'.engine = ((s.engine.fill data).advance n).2
  handed : s'.transport.handed = s.transport.handed
  replies : s'.transport.replies < s.transport.replies

theorem writeAll_handed {buf : Bytes} {r : Except ε Unit} (h : t.writeAll buf = some (r, t')) :
    t'.handed = t.handed ++ [buf] ∧ t'.replies < t.replies := by
  unfold Transport.writeAll at h
  split at h
  · cases h
  · rename_i hwrites
    cases h
    simp [Transport.replies, hwrites]

theorem driveOneSendStep_spec (s : TlsStream cfg sz ε) :
    Triple (· = s) driveOneSendStep
      (fun _ s' => s.Handed s' ∧
        s'.engine = (s.engine.markSent s.engine.core.sendBytes.length).2)
      (fun _ s' => s' = s ∨ s.Handed s' ∧ s'.engine = s.engine.markTerminal) := by
  rintro s rfl r s' h
  simp only [driveOneSendStep, exec_ofFun] at h
  split at h
  · cases h
    exact .inl rfl
  · rename_i hne
    split at h
    · cases h
    · rename_i hwrite
      cases h
      obtain ⟨hhanded, hreplies⟩ := writeAll_handed hwrite
      exact .inr ⟨⟨hne, hhanded, hreplies⟩, rfl⟩
    · rename_i transport hwrite
      have hmark : (s.engine.markSent s.engine.core.sendBytes.length).1 = .ok () :=
        markSent_sendBytes hne
      simp only [onEngine, exec_ofFun, hmark, mapError_ok] at h
      cases h
      obtain ⟨hhanded, hreplies⟩ := writeAll_handed hwrite
      exact ⟨⟨hne, hhanded, hreplies⟩, rfl⟩

theorem read_handed {reply : Except ε Nat × Bytes} (h : t.read = some (reply, t')) :
    t'.handed = t.handed ∧ t'.replies < t.replies := by
  unfold Transport.read at h
  split at h
  · cases h
  · rename_i hreads
    cases h
    simp [Transport.replies, hreads]

theorem readNb_handed {reply : Except ε (Option Nat) × Bytes} (h : t.readNb = some (reply, t')) :
    t'.handed = t.handed ∧ t'.replies < t.replies := by
  unfold Transport.readNb at h
  split at h
  · cases h
  · rename_i hreads
    cases h
    simp [Transport.replies, hreads]

/-- What was read is in the buffer, whether or not it is acknowledged. -/
theorem Received.fill {s : TlsStream cfg sz ε} {data : Bytes} {transport : Transport ε}
    (h : transport.handed = s.transport.handed ∧ transport.replies < s.transport.replies) :
    s.Received ⟨s.engine.fill data, transport⟩ :=
  ⟨⟨data, .inl rfl⟩, h.1, h.2⟩

theorem Received.advance {s : TlsStream cfg sz ε} {data : Bytes} {transport : Transport ε}
    (h : transport.handed = s.transport.handed ∧ transport.replies < s.transport.replies) (n : Nat) :
    s.Received ⟨((s.engine.fill data).advance n).2, transport⟩ :=
  ⟨⟨data, .inr ⟨n, rfl⟩⟩, h.1, h.2⟩

theorem driveOneRecvStep_spec (s : TlsStream cfg sz ε) :
    Triple (· = s) driveOneRecvStep (fun _ s' => s.Received s')
      (fun _ s' => s' = s ∨ s.Received s') := by
  rintro s rfl r s' h
  simp only [driveOneRecvStep, exec_ofFun] at h
  split at h
  · cases h
    exact .inl rfl
  · split at h
    · cases h
    · rename_i n data transport hread
      have hhanded := read_handed hread
      split at h
      · cases h
        exact .inr (.fill hhanded)
      · cases h
        exact .inr (.fill hhanded)
      · rename_i n _
        simp only [onEngine, exec_ofFun] at h
        have hrec : s.Received ⟨((s.engine.fill data).advance n).2, transport⟩ :=
          .advance hhanded n
        cases h
        cases (s.engine.fill data).advance n |>.1 with
        | ok _ => exact hrec
        | error _ => exact .inr hrec

theorem driveOneRecvStepNb_spec (s : TlsStream cfg sz ε) :
    Triple (· = s) driveOneRecvStepNb (fun _ s' => s.Received s')
      (fun _ s' => s' = s ∨ s.Received s') := by
  rintro s rfl r s' h
  simp only [driveOneRecvStepNb, exec_ofFun] at h
  split at h
  · cases h
    exact .inl rfl
  · split at h
    · cases h
    · rename_i n data transport hread
      have hhanded := readNb_handed hread
      split at h
      · cases h
        exact .inr (.fill hhanded)
      · cases h
        exact .fill hhanded
      · cases h
        exact .fill hhanded
      · rename_i n _
        have hrec : s.Received ⟨((s.engine.fill data).advance n).2, transport⟩ :=
          .advance hhanded n
        simp only [exec_bind, onEngine, exec_ofFun] at h
        rcases hadv : (s.engine.fill data).advance n with ⟨_ | _, e⟩
        · rw [hadv] at h hrec
          cases h
          exact .inr hrec
        · rw [hadv] at h hrec
          cases h
          exact hrec

/-- The variant of the loops over the transport: a pass that goes on has used up a reply. -/
def Progress (n : Nat) : Pass α Unit → TlsStream cfg sz ε → Prop :=
  Program.Outcome (fun _ _ => True) fun _ s => s.transport.replies < n

variable {n : Nat}

theorem onEngine_replies (f : Engine cfg sz → Except HandshakeError α × Engine cfg sz) :
    Triple (·.transport.replies ≤ n) (onEngine f : M cfg sz ε α)
      (fun _ s => s.transport.replies ≤ n) (fun _ _ => True) :=
  onEngine_triple (fun _ _ _ h _ => h) fun _ _ _ _ _ => trivial

theorem sendAgain_progress :
    Triple (·.transport.replies ≤ n)
      (do driveOneSendStep; pure (.again ()) : M cfg sz ε (Pass α Unit)) (Progress n)
      (fun _ _ => True) := by
  refine .bind (fun _ s => s.transport.replies < n) (.of_forall fun s hs => ?_) fun _ => ?_
  · exact (driveOneSendStep_spec s).mono (fun _ h => h)
      (fun _ s' h => lt_of_lt_of_le h.1.replies hs) fun _ _ _ => trivial
  · exact .pure fun _ h => h

theorem recvAgain_progress :
    Triple (·.transport.replies ≤ n)
      (do driveOneRecvStep; pure (.again ()) : M cfg sz ε (Pass α Unit)) (Progress n)
      (fun _ _ => True) := by
  refine .bind (fun _ s => s.transport.replies < n) (.of_forall fun s hs => ?_) fun _ => ?_
  · exact (driveOneRecvStep_spec s).mono (fun _ h => h)
      (fun _ s' h => lt_of_lt_of_le h.replies hs) fun _ _ _ => trivial
  · exact .pure fun _ h => h

theorem leave_progress {m : M cfg sz ε α} {pre : TlsStream cfg sz ε → Prop} :
    Triple pre (do return .leave (← m) : M cfg sz ε (Pass α Unit)) (Progress n)
      (fun _ _ => True) :=
  .bind (fun _ _ => True) (fun _ _ r _ _ => by cases r <;> trivial) fun _ => .pure fun _ _ => trivial

end Rules

/-- The body of the loop of `drive_handshake`. -/
def handshakePass (params : ClientParams cfg) : M cfg sz ε (Pass Unit Unit) := do
  match ← onEngine (·.stepHandshake params) with
  | .handshakeDone => pure (.leave ())
  | .send _ => driveOneSendStep; pure (.again ())
  | .recv => driveOneRecvStep; pure (.again ())
  | .appData => internal .appDataDuringDriveHandshake
  | .closed => throw .closed

def readPass (outLen : Nat) : M cfg sz ε (Pass Bytes Unit) := do
  match ← onEngine (·.step) with
  | .send _ => driveOneSendStep; pure (.again ())
  | .recv => driveOneRecvStep; pure (.again ())
  | .appData => return .leave (← readApp outLen)
  | .handshakeDone => internal .handshakeDoneInDataPhase
  | .closed => pure (.leave [])

def tryReadPass (outLen : Nat) : M cfg sz ε (Pass (Option Bytes) Unit) := do
  match ← onEngine (·.step) with
  | .send _ => driveOneSendStep; pure (.again ())
  | .recv =>
      match ← driveOneRecvStepNb with
      | .fed => pure (.again ())
      | .wouldBlock => pure (.leave none)
      | .eof => throw .unexpectedEof
  | .appData => return .leave (some (← readApp outLen))
  | .handshakeDone => internal .handshakeDoneInDataPhase
  | .closed => pure (.leave (some []))

def drainPass : M cfg sz ε (Pass Unit Unit) := do
  match ← onEngine (·.step) with
  | .send _ =>
      driveOneSendStep
      if ← isSendPending then pure (.again ()) else pure (.leave ())
  | .appData => pure (.leave ())
  | .closed => throw .closed
  | .handshakeDone => pure (.again ())
  | .recv => internal .drainStateInconsistent

section Loops
open Program
variable {n outLen : Nat}

theorem handshakePass_progress (params : ClientParams cfg) :
    Triple (·.transport.replies ≤ n) (handshakePass params : M cfg sz ε _) (Progress n)
      (fun _ _ => True) := by
  refine .bind (fun _ s => s.transport.replies ≤ n) (onEngine_replies _) fun event => ?_
  cases event with
  | send => exact sendAgain_progress
  | recv => exact recvAgain_progress
  | handshakeDone => exact .pure fun _ _ => trivial
  | appData | closed => exact .throw fun _ _ => trivial

theorem readPass_progress :
    Triple (·.transport.replies ≤ n) (readPass outLen : M cfg sz ε _) (Progress n)
      (fun _ _ => True) := by
  refine .bind (fun _ s => s.transport.replies ≤ n) (onEngine_replies _) fun event => ?_
  cases event with
  | send => exact sendAgain_progress
  | recv => exact recvAgain_progress
  | appData => exact leave_progress
  | handshakeDone => exact .throw fun _ _ => trivial
  | closed => exact .pure fun _ _ => trivial

theorem tryReadPass_progress :
    Triple (·.transport.replies ≤ n) (tryReadPass outLen : M cfg sz ε _) (Progress n)
      (fun _ _ => True) := by
  refine .bind (fun _ s => s.transport.replies ≤ n) (onEngine_replies _) fun event => ?_
  cases event with
  | send => exact sendAgain_progress
  | recv =>
    refine .bind (fun _ s => s.transport.replies < n) (.of_forall fun s hs => ?_) fun progress => ?_
    · exact (driveOneRecvStepNb_spec s).mono (fun _ h => h)
        (fun _ s' h => lt_of_lt_of_le h.replies hs) fun _ _ _ => trivial
    · cases progress with
      | fed => exact .pure fun _ h => h
      | wouldBlock => exact .pure fun _ _ => trivial
      | eof => exact .throw fun _ _ => trivial
  | appData =>
    exact .bind (fun _ _ => True) (fun _ _ r _ _ => by cases r <;> trivial)
      fun _ => .pure fun _ _ => trivial
  | handshakeDone => exact .throw fun _ _ => trivial
  | closed => exact .pure fun _ _ => trivial

theorem isSendPending_triple {pre : TlsStream cfg sz ε → Prop}
    {fail : ConnectError ε → TlsStream cfg sz ε → Prop} :
    Triple pre isSendPending (fun b s => pre s ∧ s.engine.core.isSendPending = b) fail := by
  intro s hs r s' h
  cases h
  exact ⟨hs, rfl⟩

theorem drainPass_progress :
    Triple (·.transport.replies ≤ n) (drainPass : M cfg sz ε _) (Progress n) (fun _ _ => True) := by
  refine .bind (fun event s => event ≠ .handshakeDone ∧ s.transport.replies ≤ n)
    (onEngine_triple (fun s event e hs h => ⟨?_, hs⟩) fun _ _ _ _ _ => trivial) fun event => ?_
  · rintro rfl
    exact s.engine.step_ne_handshakeDone (by rw [h])
  · cases event with
    | send =>
      refine .bind (fun _ s => s.transport.replies < n) (.of_forall fun s hs => ?_) fun _ => ?_
      · exact (driveOneSendStep_spec s).mono (fun _ h => h)
          (fun _ s' h => lt_of_lt_of_le h.1.replies hs.2) fun _ _ _ => trivial
      · refine .bind _ isSendPending_triple fun pending => ?_
        cases pending with
        | true => exact .pure fun _ h => h.1
        | false => exact .pure fun _ _ => trivial
    | appData => exact .pure fun _ _ => trivial
    | handshakeDone => exact fun s hs => absurd rfl hs.1
    | recv | closed => exact .throw fun _ _ => trivial

def ioLoop (pass : M cfg sz ε (Pass α Unit))
    (h : ∀ n, Triple (·.transport.replies ≤ n) pass (Progress n) (fun _ _ => True)) :
    M cfg sz ε α :=
  loop
    { pass := fun _ => pass
      variant := fun _ s => s.transport.replies
      decreases := fun _ s _ _ hexec => (h _).ok (Nat.le_refl s.transport.replies) hexec } ()

end Loops

def driveHandshake (params : ClientParams cfg) : M cfg sz ε Unit :=
  ioLoop (handshakePass params) fun _ => handshakePass_progress params

/-- Read application data; no data is the end of the stream. -/
def read (outLen : Nat) : M cfg sz ε Bytes :=
  if outLen = 0 then pure [] else ioLoop (readPass outLen) fun _ => readPass_progress

def tryRead (outLen : Nat) : M cfg sz ε (Option Bytes) :=
  if outLen = 0 then pure (some []) else ioLoop (tryReadPass outLen) fun _ => tryReadPass_progress

def drainPendingSend : M cfg sz ε Unit := do
  if ← isSendPending then ioLoop drainPass fun _ => drainPass_progress

theorem step_of_pending {e : Engine cfg sz} (h : e.core.isSendPending = true) :
    e.step = (.ok (.send (e.core.sendPendingLen - e.core.sendAcked)), e) := by
  refine Loop.run_of_leave ?_
  simp [Engine.stepLoop, Engine.idleEvent, h]

theorem step_of_closed {e : Engine cfg sz} (hpending : e.core.isSendPending = false)
    (hparked : e.recv.plaintextParked = false) (hclosed : e.core.closed = true) :
    e.step = (.ok .closed, e) := by
  refine Loop.run_of_leave ?_
  simp [Engine.stepLoop, Engine.idleEvent, hpending, hparked, hclosed]

section Drain
open Program
variable {post : Unit → TlsStream cfg sz ε → Prop} {fail : ConnectError ε → TlsStream cfg sz ε → Prop}

/-- The rule of loops over the replies of the transport. -/
theorem ioLoop_triple {pass : M cfg sz ε (Pass α Unit)} {post : α → TlsStream cfg sz ε → Prop}
    {h : ∀ n, Triple (·.transport.replies ≤ n) pass (Progress n) (fun _ _ => True)}
    (inv : TlsStream cfg sz ε → Prop)
    (hpass : Triple inv pass (Program.Outcome post fun _ => inv) fail) :
    Triple inv (ioLoop pass h) post fail :=
  Triple.loop (fun _ => inv) (fun _ => hpass) ()

theorem exec_ioLoop_of_leave {pass : M cfg sz ε (Pass α Unit)}
    {h : ∀ n, Triple (·.transport.replies ≤ n) pass (Progress n) (fun _ _ => True)}
    {s s' : TlsStream cfg sz ε} {a : α} (hpass : pass.exec s = some (.ok (.leave a), s')) :
    (ioLoop pass h).exec s = some (.ok a, s') := by
  refine Loop.run_of_leave ?_
  simp only [Body.toLoop, hpass]

theorem drainPendingSend_triple (inv : TlsStream cfg sz ε → Prop)
    (hsend : Triple (fun s => inv s ∧ s.engine.core.isSendPending = true) driveOneSendStep
      (fun _ => inv) fail) :
    Triple inv drainPendingSend (fun _ s => inv s ∧ s.engine.core.isSendPending = false) fail := by
  refine .bind _ isSendPending_triple fun pending => ?_
  cases pending with
  | false => exact .pure fun _ h => h
  | true =>
    refine ioLoop_triple (h := fun _ => drainPass_progress) _ (.bind
      (fun event s => (∃ n, event = .send n) ∧ inv s ∧ s.engine.core.isSendPending = true)
      (onEngine_triple ?_ ?_) fun event => ?_)
    · intro s event e hs hstep
      rw [step_of_pending hs.2] at hstep
      cases hstep
      exact ⟨⟨_, rfl⟩, hs⟩
    · intro s err e hs hstep
      rw [step_of_pending hs.2] at hstep
      cases hstep
    · cases event with
      | send =>
        refine .bind (fun _ => inv) (hsend.mono (fun _ h => h.2) (fun _ _ h => h) fun _ _ h => h)
          fun _ => .bind _ isSendPending_triple fun pending => ?_
        cases pending <;> exact .pure fun _ h => h
      | _ =>
        intro s hs
        obtain ⟨n, hn⟩ := hs.1
        cases hn

end Drain

def writeApp (buf : Bytes) : M cfg sz ε (Except WriteAppError Nat) :=
  .ofFun fun s => some (.ok (s.engine.writeApp buf).1, { s with engine := (s.engine.writeApp buf).2 })

/-- The body of the loop of `write_all`, over what is left of the buffer. -/
def writePass (buf : Bytes) : M cfg sz ε (Pass Unit Bytes) :=
  if buf = [] then pure (.leave ())
  else do
    drainPendingSend
    match ← writeApp buf with
    | .ok 0 => internal .writeAppZeroProgress
    | .ok n => drainPendingSend; pure (.again (buf.drop n))
    | .error .closed => throw .closed
    | .error .busy => drainPendingSend; pure (.again buf)
    | .error .notReady => internal .writeBeforeHandshake
    | .error (.other e) => throw (.handshake e)

theorem writeApp_ne_busy {c : Core cfg sz} (h : c.isSendPending = false) (buf : Bytes) :
    (c.writeApp buf).1 ≠ .error .busy := by
  unfold Core.writeApp
  rw [h]
  dsimp only
  repeat' split
  all_goals simp_all

section Write
open Program

theorem writePass_progress (buf : Bytes) :
    Triple (fun _ => True) (writePass buf : M cfg sz ε _)
      (Program.Outcome (fun _ _ => True) fun rest _ => rest.length < buf.length) (fun _ _ => True) := by
  have hsend {pre : TlsStream cfg sz ε → Prop} : Triple pre driveOneSendStep
      (fun _ _ => True) (fun _ _ => True) := fun _ _ r _ _ => by cases r <;> trivial
  have hdrain := drainPendingSend_triple (fun _ : TlsStream cfg sz ε => True) hsend
  unfold writePass
  split
  · exact .pure fun _ _ => trivial
  · rename_i hne
    refine .bind _ hdrain fun _ => .bind (fun r _ => r ≠ .error .busy) ?_ fun r => ?_
    · intro s hs r s' h
      cases h
      exact writeApp_ne_busy hs.2 buf
    · split
      · exact .throw fun _ _ => trivial
      · rename_i n hpos
        refine .bind (fun _ _ => True) ?_ fun _ => .pure fun _ _ => ?_
        · exact hdrain.mono (fun _ _ => trivial) (fun _ _ _ => trivial) fun _ _ _ => trivial
        · have := List.length_pos_iff.mpr hne
          have := Nat.pos_of_ne_zero hpos
          show (buf.drop n).length < buf.length
          rw [List.length_drop]
          omega
      · exact .throw fun _ _ => trivial
      · exact fun _ hs => absurd rfl hs
      · exact .throw fun _ _ => trivial
      · exact .throw fun _ _ => trivial

end Write

def writeAll (buf : Bytes) : M cfg sz ε Unit :=
  Program.loop
    { pass := writePass
      variant := fun buf _ => buf.length
      decreases := fun buf _ _ _ hexec => (writePass_progress buf).ok trivial hexec } buf

def close : M cfg sz ε Unit := do
  drainPendingSend
  if ← isClosed then pure ()
  else
    onEngine (·.close)
    drainPendingSend

/-- `connect` from the transmission of the `ClientHello` on. -/
def connect (params : ClientParams cfg) (ch : Bytes) : M cfg sz ε Unit := do
  .ofFun fun s =>
    match s.transport.writeAll ch with
    | none => none
    | some (r, transport) => some (r.mapError .io, { s with transport })
  driveHandshake params

end TlsStream

end KrabiTls
