import KrabiTls.Dtls.Client
import KrabiTls.Dtls.Replay
import KrabiTls.Lib.Program

/-! Receiving application data on an established DTLS connection. -/
namespace KrabiTls.Dtls
open Lib

/-- The top three bits of a unified header are `001`. -/
def isCiphertextRecord (first : UInt8) : Bool :=
  first &&& 0xE0 = 0x20

/-- The receiving half of the client after the handshake; `finFlight` and `recvStash` are the filled
parts of their arrays. -/
structure DtlsReceiver where
  serverApp : EpochKeys
  recvHint : Nat
  serverReplay : ReplayWindow
  finFlight : Bytes
  finResendsLeft : Nat
  recvCidLen : Nat
  recvStash : Bytes

/-- What ends the walk over the records of a datagram. -/
inductive Walked where
  | ended
  | finishedWanted
  | delivered (content rest : Bytes)

namespace DtlsReceiver
variable (a : AeadBackend) (m : Masker)

def withStash (c : DtlsReceiver) (stash : Bytes) : DtlsReceiver := { c with recvStash := stash }

/-- An authenticated record that the window accepts. -/
def acceptSeq (c : DtlsReceiver) (seq : Nat) : DtlsReceiver :=
  { c with
    serverReplay := c.serverReplay.mark seq
    recvHint := max c.recvHint ((seq + 1) % 2 ^ 64)
    finResendsLeft := 0 }

/-- The walk over the records of a datagram: whether `pos` is still `0`, the unread rest, and the
client. -/
def walkLoop : Loop (Walked × DtlsReceiver) (Bool × Bytes × DtlsReceiver) where
  body st :=
    let (atHead, rest, c) := st
    match rest with
    | [] => .leave (.ended, c)
    | first :: _ =>
        if ¬ isCiphertextRecord first then .leave (.ended, c)
        -- a leading epoch-2 record: the server missed the client's `Finished`
        else if atHead ∧ first &&& 0b11 = 0b10 then .leave (.finishedWanted, c)
        else
          match c.serverApp.openRecord a m c.recvCidLen c.recvHint rest with
          | .error _ => .leave (.ended, c)
          | .ok opened =>
              if opened.recordLen = 0 then .leave (.ended, c)
              else if ¬ c.serverReplay.accepts opened.seq then
                .again (false, rest.drop opened.recordLen, c)
              else if opened.contentType = ctApplicationData then
                .leave (.delivered opened.content (rest.drop opened.recordLen), c.acceptSeq opened.seq)
              else .again (false, rest.drop opened.recordLen, c.acceptSeq opened.seq)
  variant st := st.2.1.length
  decreases st t h := by
    obtain ⟨atHead, rest, c⟩ := st
    dsimp only at h
    split at h
    · cases h
    · repeat' split at h
      all_goals cases h
      all_goals simp only [List.length_drop, List.length_cons]
      all_goals omega

theorem walkLoop_body {atHead : Bool} {first : UInt8} {rest tail : Bytes} (hrest : rest = first :: tail)
    (hcipher : isCiphertextRecord first = true) (hepoch : ¬ (atHead = true ∧ first &&& 0b11 = 0b10))
    (c : DtlsReceiver) :
    (walkLoop a m).body (atHead, rest, c) =
      match c.serverApp.openRecord a m c.recvCidLen c.recvHint rest with
      | .error _ => .leave (.ended, c)
      | .ok opened =>
          if opened.recordLen = 0 then .leave (.ended, c)
          else if ¬ c.serverReplay.accepts opened.seq then
            .again (false, rest.drop opened.recordLen, c)
          else if opened.contentType = ctApplicationData then
            .leave (.delivered opened.content (rest.drop opened.recordLen), c.acceptSeq opened.seq)
          else .again (false, rest.drop opened.recordLen, c.acceptSeq opened.seq) := by
  subst hrest
  simp only [walkLoop]
  rw [if_neg (not_not_intro hcipher), if_neg hepoch]

def walk (c : DtlsReceiver) (datagram : Bytes) : Walked × DtlsReceiver :=
  (walkLoop a m).run (true, datagram, c)

/-- The walk touches the window, the hint and the resend budget only. -/
theorem walk_recvStash (c : DtlsReceiver) (datagram : Bytes) :
    (c.walk a m datagram).2.recvStash = c.recvStash := by
  refine Loop.run_induct (l := walkLoop a m) (fun st => st.2.2.recvStash = c.recvStash)
    (fun r => r.2.recvStash = c.recvStash) ?_ ?_ _ rfl
  · rintro ⟨atHead, rest, c'⟩ t hstash h
    dsimp only [walkLoop] at h
    repeat' split at h
    all_goals cases h
    all_goals exact hstash
  · rintro ⟨atHead, rest, c'⟩ r hstash h
    dsimp only [walkLoop] at h
    repeat' split at h
    all_goals cases h
    all_goals exact hstash

end DtlsReceiver

structure DtlsLink (ε : Type) where
  client : DtlsReceiver
  transport : DatagramTransport ε

namespace DtlsLink
variable {ε : Type} (a : AeadBackend) (m : Masker)
variable {s s' : DtlsLink ε}

/-- The bytes to walk next: what is stashed of an earlier datagram, or a new one. -/
def nextInput (s : DtlsLink ε) : Option (Except ε (Option Bytes) × DtlsLink ε) :=
  if s.client.recvStash ≠ [] then
    some (.ok (some s.client.recvStash), { s with client := s.client.withStash [] })
  else
    s.transport.recv.map fun (reply, transport) =>
      (reply.map (·.map Subtype.val), { s with transport })

def resendFinished (s : DtlsLink ε) : Option (Except ε Unit × DtlsLink ε) :=
  if s.client.finResendsLeft > 0 then
    (s.transport.send s.client.finFlight).map fun (reply, transport) =>
      (reply, { client := { s.client with finResendsLeft := s.client.finResendsLeft - 1 }, transport })
  else some (.ok (), s)

/-- One pass of the outer loop of `recv`. -/
def recvPass (bufLen : Nat) : Program (DtlsClientError ε) (DtlsLink ε) (Pass (Option Bytes) Unit) :=
  .ofFun fun s =>
    match s.nextInput with
    | none => none
    | some (.error e, s) => some (.error (.transport e), s)
    | some (.ok none, s) => some (.ok (.leave none), s)
    | some (.ok (some datagram), s) =>
        let (walked, client) := s.client.walk a m datagram
        let s := { s with client }
        match walked with
        | .ended => some (.ok (.again ()), s)
        | .finishedWanted =>
            s.resendFinished.map fun (reply, s) =>
              (reply.map (fun _ => .again ()) |>.mapError .transport, s)
        | .delivered content rest =>
            if content.length > bufLen then some (.error .bufferTooSmall, s)
            else some (.ok (.leave (some content)), { s with client := s.client.withStash rest })

/-- How many more times a call can find something to walk. -/
def inputs (s : DtlsLink ε) : Nat :=
  s.transport.recvs.length + if s.client.recvStash = [] then 0 else 1

theorem nextInput_inputs {reply : Except ε (Option Bytes)} (h : s.nextInput = some (reply, s')) :
    s'.client.recvStash = [] ∧ s'.inputs < s.inputs := by
  unfold nextInput at h
  split at h
  · rename_i hstash
    cases h
    simp [inputs, hstash, DtlsReceiver.withStash]
  · rename_i hstash
    rw [ne_eq, not_not] at hstash
    simp only [Option.map_eq_some_iff, DatagramTransport.recv] at h
    obtain ⟨⟨r, t⟩, hrecv, hret⟩ := h
    split at hrecv
    · cases hrecv
    · rename_i hrecvs
      cases hrecv
      cases hret
      simp [inputs, hstash, hrecvs]

theorem resendFinished_eq_some {reply : Except ε Unit} (h : s.resendFinished = some (reply, s')) :
    (s.client.finResendsLeft = 0 ∧ s' = s) ∨ 0 < s.client.finResendsLeft ∧ ∃ sends, s' =
      { client := { s.client with finResendsLeft := s.client.finResendsLeft - 1 }
        transport := { s.transport with sends, sent := s.transport.sent ++ [s.client.finFlight] } } := by
  unfold resendFinished at h
  split at h
  · rename_i hleft
    simp only [Option.map_eq_some_iff, DatagramTransport.send] at h
    obtain ⟨⟨r, t⟩, hsend, hret⟩ := h
    split at hsend
    · cases hsend
    · cases hsend
      cases hret
      exact .inr ⟨hleft, _, rfl⟩
  · rename_i hleft
    cases h
    exact .inl ⟨Nat.eq_zero_of_not_pos hleft, rfl⟩

theorem resendFinished_inputs {reply : Except ε Unit} (h : s.resendFinished = some (reply, s')) :
    s'.inputs = s.inputs := by
  obtain ⟨-, rfl⟩ | ⟨-, sends, rfl⟩ := resendFinished_eq_some h <;> rfl

def recvBody (bufLen : Nat) :
    Program.Body (DtlsClientError ε) (DtlsLink ε) Unit (Option Bytes) where
  pass _ := recvPass a m bufLen
  variant _ s := s.inputs
  decreases _ s _ s' h := by
    rw [recvPass, Program.exec_ofFun] at h
    split at h
    · cases h
    · cases h
    · cases h
    · rename_i datagram s₁ hnext
      obtain ⟨hstash, hlt⟩ := nextInput_inputs hnext
      have hwalk := s₁.client.walk_recvStash a m datagram
      generalize s₁.client.walk a m datagram = walked at h hwalk
      obtain ⟨walked, client⟩ := walked
      have hsame : (⟨client, s₁.transport⟩ : DtlsLink ε).inputs = s₁.inputs := by
        simp only at hwalk
        simp only [inputs, hwalk]
      dsimp only at h
      split at h
      · cases h
        exact hsame ▸ hlt
      · simp only [Option.map_eq_some_iff] at h
        obtain ⟨⟨reply, s₂⟩, hresend, hret⟩ := h
        cases (Prod.mk.inj hret).2
        rw [resendFinished_inputs hresend]
        exact hsame ▸ hlt
      · split at h <;> cases h

/-- The next application payload, if it fits `bufLen` bytes; nothing if the transport has timed
out. -/
def recv (bufLen : Nat) : Program (DtlsClientError ε) (DtlsLink ε) (Option Bytes) :=
  .loop (recvBody a m bufLen) ()

/-- A run of `recv` calls, by the lengths of their buffers: what they return, and the state after
them. -/
def recvAll (s : DtlsLink ε) :
    List Nat → Option (List (Except (DtlsClientError ε) (Option Bytes)) × DtlsLink ε)
  | [] => some ([], s)
  | bufLen :: rest =>
      match (recv a m bufLen).exec s with
      | none => none
      | some (result, s) => (recvAll s rest).map fun (results, s) => (result :: results, s)

end DtlsLink

end KrabiTls.Dtls
