import KrabiTls.ServerFlight

/-! Multi-record reassembly of the server flight. -/
namespace KrabiTls
open Lib

inductive ReassemblyError where
  | overflow
  deriving DecidableEq, Repr

/-- The buffered inner-handshake bytes; the structure carries the capacity bound. -/
structure ServerFlightReassembler (n : Nat) where
  buf : Bytes
  fits : buf.length ≤ n

/-- The walk over whole messages to the first `Finished`: the unread rest and the offset so far. -/
def flightEndLoop : Loop (Option Nat) (Bytes × Nat) where
  body s :=
    match nextMsg s.1 with
    | .error _ => .leave none
    | .ok msg =>
        if msg.msgType = hsFinished then .leave (some (s.2 + msg.full.length))
        else .again (msg.rest, s.2 + msg.full.length)
  variant s := s.1.length
  decreases s t h := by
    split at h
    · cases h
    · rename_i msg hmsg
      split at h
      · cases h
      · cases h
        exact nextMsg_rest_length hmsg

/-- The walk over the extensions of `EncryptedExtensions`: the unread rest and the limit found. -/
def recordSizeLimitLoop : Loop (Except FlightError (Option Nat)) (Bytes × Option Nat) where
  body s :=
    let (rest, found) := s
    if rest = [] then .leave (.ok found)
    else if rest.length < 4 then .leave (.error .truncated)
    else
      let extType := ofBe (rest.take 2)
      let extLen := ofBe (slice rest 2 4)
      if rest.length < 4 + extLen then .leave (.error .truncated)
      else if extType = extRecordSizeLimit then
        if extLen ≠ 2 then .leave (.error .truncated)
        else if found.isSome then .leave (.error (.duplicateExtension extType))
        else .again (rest.drop (4 + extLen), some (ofBe (slice rest 4 6)))
      else .again (rest.drop (4 + extLen), found)
  variant s := s.1.length
  decreases s t h := by
    dsimp only at h
    split at h
    · cases h
    · split at h
      · cases h
      · split at h
        · cases h
        · split at h
          · split at h
            · cases h
            · split at h
              · cases h
              · cases h
                simp only [List.length_drop]
                omega
          · cases h
            simp only [List.length_drop]
            omega

namespace ServerFlightReassembler
variable {n : Nat}

def new : ServerFlightReassembler n := ⟨[], Nat.zero_le _⟩

def pushContent (r : ServerFlightReassembler n) (content : Bytes) :
    Except ReassemblyError (ServerFlightReassembler n) :=
  if h : r.buf.length + content.length ≤ n then
    .ok ⟨r.buf ++ content, by rw [List.length_append]; exact h⟩
  else .error .overflow

def flightEndOffset (r : ServerFlightReassembler n) : Option Nat :=
  flightEndLoop.run (r.buf, 0)

def isComplete (r : ServerFlightReassembler n) : Bool :=
  r.flightEndOffset.isSome

/-- The buffered bytes through the first `Finished`. -/
def flightBytes (r : ServerFlightReassembler n) : Option Bytes :=
  r.flightEndOffset.map r.buf.take

/-- The end of the flight is found at the same place when more bytes come in behind it. -/
theorem flightEndLoop_append {buf : Bytes} {off stop : Nat}
    (h : flightEndLoop.run (buf, off) = some stop) (more : Bytes) :
    flightEndLoop.run (buf ++ more, off) = some stop ∧ stop ≤ off + buf.length := by
  revert h
  refine Loop.run_induct (l := flightEndLoop)
    (fun s => flightEndLoop.run (buf ++ more, off) = flightEndLoop.run (s.1 ++ more, s.2) ∧
      s.2 + s.1.length = off + buf.length)
    (fun r => r = some stop →
      flightEndLoop.run (buf ++ more, off) = some stop ∧ stop ≤ off + buf.length) ?_ ?_ _ ⟨rfl, rfl⟩
  · rintro ⟨rest, at'⟩ t ⟨hrun, hlen⟩ hbody
    dsimp only [flightEndLoop] at hbody
    split at hbody
    · cases hbody
    · rename_i msg hmsg
      split at hbody
      · cases hbody
      · rename_i htype
        cases hbody
        have hsplit := nextMsg_full_length hmsg
        dsimp only at hlen hsplit ⊢
        refine ⟨hrun.trans (Loop.run_of_again ?_), by omega⟩
        simp only [flightEndLoop, nextMsg_append hmsg more, if_neg htype]
  · rintro ⟨rest, at'⟩ r ⟨hrun, hlen⟩ hbody hr
    dsimp only [flightEndLoop] at hbody
    split at hbody
    · cases hbody
      cases hr
    · rename_i msg hmsg
      split at hbody
      · rename_i htype
        cases hbody
        cases hr
        have hsplit := nextMsg_full_length hmsg
        dsimp only at hlen hsplit
        refine ⟨hrun.trans (Loop.run_of_leave ?_), by omega⟩
        simp only [flightEndLoop, nextMsg_append hmsg more, if_pos htype]
      · cases hbody

theorem flightBytes_append {r r' : ServerFlightReassembler n} {bytes more : Bytes}
    (h : r.flightBytes = some bytes) (hbuf : r'.buf = r.buf ++ more) :
    r'.flightBytes = some bytes := by
  obtain ⟨stop, hstop, rfl⟩ := Option.map_eq_some_iff.mp h
  obtain ⟨hstop', hle⟩ := flightEndLoop_append hstop more
  refine Option.map_eq_some_iff.mpr ⟨stop, by rw [flightEndOffset, hbuf]; exact hstop', ?_⟩
  rw [hbuf]
  exact List.take_append_of_le_length (by omega)

/-- The peer's `record_size_limit`, if its `EncryptedExtensions` carry one. -/
def peekEeRecordSizeLimit (r : ServerFlightReassembler n) : Except FlightError (Option Nat) :=
  match r.flightBytes with
  | none => .error .truncated
  | some buf =>
      if buf.length < 4 then .error .truncated
      else if buf.headD 0 ≠ hsEncryptedExtensions then
        .error (.unexpectedHandshakeType hsEncryptedExtensions (buf.headD 0))
      else
        let eeBodyLen := ofBe (slice buf 1 4)
        if buf.length < 4 + eeBodyLen then .error .truncated
        else
          let eeBody := slice buf 4 (4 + eeBodyLen)
          if eeBody.length < 2 then .error .truncated
          else if eeBody.length ≠ 2 + ofBe (eeBody.take 2) then .error .truncated
          else recordSizeLimitLoop.run (eeBody.drop 2, none)

end ServerFlightReassembler

end KrabiTls
