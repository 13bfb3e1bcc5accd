import KrabiTls.Engine.Outgoing
import KrabiTls.Engine.Framing
import KrabiTls.Lib.Channel

/-! A peer of the engine in the data phase. It seals every `KeyUpdate` under its current send keys
and then rotates them, and rotates its receive keys on every `KeyUpdate` it takes. -/
namespace KrabiTls
open Lib

/-- One direction of a connection, as one of its ends sees it. -/
structure Half where
  suite : CipherSuite
  secret : Secret
  keys : RecordKeys
  seq : Nat
  gen : Nat

namespace Half
variable (cfg : ClientConfig) (h : Half)

def bump : Half := { h with seq := (h.seq + 1) % 2 ^ 64 }

def rotate : Except ConnectionError Half := do
  let (secret, keys) ← AppData.nextKeys cfg h.suite h.secret
  pure { h with secret, keys, seq := 0, gen := h.gen + 1 }

/-- `r` was sealed with the current keys, generation and number. -/
structure Sealed (r : OpenedRecord) : Prop where
  gen : r.gen = h.gen
  seq : r.seq = h.seq
  record : ∃ outLen, h.keys.encryptRecord cfg.aead r.content r.contentType h.seq outLen =
    (.ok r.record, r.record)

def sealRecord (content : Bytes) (contentType : UInt8) : Except ConnectionError OpenedRecord :=
  match (h.keys.encryptRecord cfg.aead content contentType h.seq (tlsHeader + tlsCiphertextMax)).1 with
  | .error e => .error (.encrypt e)
  | .ok record => .ok ⟨h.gen, h.seq, record, content, contentType⟩

def openRecord (record : Bytes) : Except ConnectionError OpenedRecord :=
  let (opened, buf) := h.keys.decryptRecordInplace cfg.aead record h.seq
  match opened with
  | .error e => .error (.decrypt e)
  | .ok innerLen =>
      match splitInnerPlaintext (slice buf 5 (5 + innerLen)) with
      | .error e => .error (.decrypt e)
      | .ok (content, contentType) => .ok ⟨h.gen, h.seq, record, content, contentType⟩

variable {cfg h}

theorem sealRecord_eq_ok {content : Bytes} {contentType : UInt8} {r : OpenedRecord}
    (hseal : h.sealRecord cfg content contentType = .ok r) :
    h.Sealed cfg r ∧ r.content = content ∧ r.contentType = contentType := by
  unfold sealRecord at hseal
  rcases henc : h.keys.encryptRecord cfg.aead content contentType h.seq
    (tlsHeader + tlsCiphertextMax) with ⟨_ | record, dirty⟩
  · rw [henc] at hseal
    cases hseal
  · rw [henc] at hseal
    cases hseal
    obtain ⟨hdirty, -⟩ := RecordKeys.encryptRecord_eq_ok henc
    rw [hdirty] at henc
    exact ⟨⟨rfl, rfl, _, henc⟩, rfl, rfl⟩

theorem rotate_eq_ok {h' : Half} (hrotate : h.rotate cfg = .ok h') :
    ∃ secret keys, AppData.nextKeys cfg h.suite h.secret = .ok (secret, keys) ∧
      h' = { h with secret, keys, seq := 0, gen := h.gen + 1 } := by
  obtain ⟨⟨secret, keys⟩, hnext, hout⟩ := bind_eq_ok.mp hrotate
  cases hout
  exact ⟨secret, keys, hnext, rfl⟩

namespace Sealed
variable {r : OpenedRecord} (hsealed : h.Sealed cfg r)
include hsealed

theorem record_length : r.record.length = r.content.length + 22 ∧
    r.content.length ≤ tlsPlaintextMax := by
  obtain ⟨outLen, henc⟩ := hsealed.record
  obtain ⟨-, hcontent, hlen, -⟩ := RecordKeys.encryptRecord_eq_ok henc
  exact ⟨hlen, hcontent⟩

theorem headD (more : Bytes) : (r.record ++ more).headD 0 = ctApplicationData := by
  obtain ⟨outLen, henc⟩ := hsealed.record
  exact (RecordKeys.encryptRecord_header henc more).1

theorem frame {capacity : Nat} (hfits : r.record.length ≤ capacity) (more : Bytes) :
    KrabiTls.frame capacity (r.record ++ more) = .record r.record more := by
  obtain ⟨outLen, henc⟩ := hsealed.record
  obtain ⟨-, -, hlength⟩ := RecordKeys.encryptRecord_header henc more
  obtain ⟨hlen, -⟩ := hsealed.record_length
  have hwhole : tlsHeader + (r.content.length + 17) = r.record.length := by
    simp only [tlsHeader]
    omega
  unfold KrabiTls.frame
  rw [if_neg (by simp only [List.length_append, tlsHeader]; omega)]
  simp only [hlength]
  rw [if_neg (by simp only [tlsHeader]; omega), hwhole, if_neg (by simp), List.take_left' rfl,
    List.drop_left' rfl]

/-- What is sealed with the keys and the number of one end opens with those of the other. -/
theorem open_eq (hcorrect : cfg.aead.Correct) (hct : r.contentType ≠ 0) :
    ∃ buf, h.keys.decryptRecordInplace cfg.aead r.record h.seq = (.ok (r.content.length + 1), buf) ∧
      slice buf 5 (5 + (r.content.length + 1)) = r.content ++ [r.contentType] ∧
      splitInnerPlaintext (r.content ++ [r.contentType]) = .ok (r.content, r.contentType) := by
  obtain ⟨outLen, henc⟩ := hsealed.record
  obtain ⟨buf, hdec, hslice⟩ := RecordKeys.decryptRecordInplace_encryptRecord henc hcorrect
  exact ⟨buf, hdec, hslice, splitInnerPlaintext_append hct hsealed.record_length.2⟩

theorem openRecord_eq (hcorrect : cfg.aead.Correct) (hct : r.contentType ≠ 0) :
    h.openRecord cfg r.record = .ok r := by
  obtain ⟨buf, hdec, hslice, hsplit⟩ := hsealed.open_eq hcorrect hct
  have hgen := hsealed.gen
  have hseq := hsealed.seq
  unfold openRecord
  rw [hdec]
  simp only [hslice, hsplit, ← hgen, ← hseq]

end Sealed

end Half

/-- How the peer's send direction moves on with a record. Next to the keys it has the `KeyUpdate`
that is under way, and how many of its bytes are out. -/
inductive Down (cfg : ClientConfig) (limit : Nat) :
    Half × Bool × Nat → OpenedRecord → Half × Bool × Nat → Prop where
  | app {h : Half} {requested : Bool} {staged : Nat} {r : OpenedRecord} (hsealed : h.Sealed cfg r)
      (hct : r.contentType = ctApplicationData) (hlimit : r.content.length + 1 ≤ limit) :
      Down cfg limit (h, requested, staged) r (h.bump, requested, staged)
  | fragment {h : Half} {requested requested' : Bool} {staged stop : Nat} {r : OpenedRecord}
      (hsealed : h.Sealed cfg r) (hct : r.contentType = ctHandshake)
      (hsame : staged = 0 ∨ requested' = requested) (hlt : staged < stop) (hstop : stop < 5)
      (hcontent : r.content = slice (AppData.keyUpdateMsg requested') staged stop) :
      Down cfg limit (h, requested, staged) r (h.bump, requested', stop)
  | update {h h' : Half} {requested requested' : Bool} {staged : Nat} {r : OpenedRecord}
      (hsealed : h.Sealed cfg r) (hct : r.contentType = ctHandshake)
      (hsame : staged = 0 ∨ requested' = requested) (hlt : staged < 5)
      (hcontent : r.content = slice (AppData.keyUpdateMsg requested') staged 5)
      (hrotate : h.rotate cfg = .ok h') :
      Down cfg limit (h, requested, staged) r (h', requested', 0)

theorem Down.sealed {cfg : ClientConfig} {limit : Nat} {h : Half} {requested : Bool} {staged : Nat}
    {r : OpenedRecord} {next : Half × Bool × Nat} (hlimit : minRecordSizeLimit ≤ limit)
    (hdown : Down cfg limit (h, requested, staged) r next) :
    h.Sealed cfg r ∧ r.content.length + 1 ≤ limit := by
  have hmsg (requested : Bool) : (AppData.keyUpdateMsg requested).length = 5 := rfl
  simp only [minRecordSizeLimit] at hlimit
  cases hdown with
  | app hsealed _ hlen => exact ⟨hsealed, hlen⟩
  | fragment hsealed _ _ _ _ hcontent | update hsealed _ _ _ hcontent =>
    refine ⟨hsealed, ?_⟩
    rw [hcontent, slice_length, hmsg]
    omega

/-- How the client's send direction moves on with a record. -/
inductive Up (cfg : ClientConfig) : Half → OpenedRecord → Half → Prop where
  | app {h : Half} {r : OpenedRecord} (hsealed : h.Sealed cfg r)
      (hct : r.contentType = ctApplicationData) : Up cfg h r h.bump
  | update {h h' : Half} {r : OpenedRecord} (hsealed : h.Sealed cfg r)
      (hct : r.contentType = ctHandshake) (hcontent : r.content = AppData.keyUpdateMsg false)
      (hrotate : h.rotate cfg = .ok h') : Up cfg h r h'

structure Peer where
  send : Half
  recv : Half
  requested : Bool := false
  staged : Nat := 0
  sealed : List OpenedRecord := []
  opened : List OpenedRecord := []
  failed : List ConnectionError := []

/-- What the peer may put on the wire: application data, or the next bytes of a `KeyUpdate`. A
fragment starts a `KeyUpdate` unless one is under way. -/
inductive PeerSend where
  | app (content : Bytes)
  | fragment (requested : Bool) (len : Nat)

namespace Peer
variable (cfg : ClientConfig) (limit : Nat) (p : Peer)

def logged (r : OpenedRecord) (state : Half × Bool × Nat) : Peer :=
  { p with
    send := state.1, requested := state.2.1, staged := state.2.2, sealed := p.sealed ++ [r] }

/-- Seal what is to be sent, within the record size limit the client has advertised. -/
def emit : PeerSend → Except ConnectionError (OpenedRecord × Peer)
  | .app content =>
      if content.length + 1 > limit then .error (.encrypt .recordTooLarge)
      else do
        let r ← p.send.sealRecord cfg content ctApplicationData
        pure (r, p.logged r (p.send.bump, p.requested, p.staged))
  | .fragment requested len => do
      let requested := if p.staged = 0 then requested else p.requested
      let stop := min 5 (p.staged + max 1 len)
      let r ← p.send.sealRecord cfg (slice (AppData.keyUpdateMsg requested) p.staged stop) ctHandshake
      if stop < 5 then pure (r, p.logged r (p.send.bump, requested, stop))
      else
        let send ← p.send.rotate cfg
        pure (r, p.logged r (send, requested, 0))

/-- Open a record of the client. -/
def take (record : Bytes) : Peer :=
  match p.recv.openRecord cfg record with
  | .error e => { p with failed := p.failed ++ [e] }
  | .ok r =>
      if r.contentType = ctHandshake ∧
          (r.content = AppData.keyUpdateMsg false ∨ r.content = AppData.keyUpdateMsg true) then
        match p.recv.rotate cfg with
        | .error e => { p with failed := p.failed ++ [e] }
        | .ok recv => { p with recv, opened := p.opened ++ [r] }
      else { p with recv := p.recv.bump, opened := p.opened ++ [r] }

variable {cfg limit p}

theorem emit_eq_ok {s : PeerSend} {r : OpenedRecord} {p' : Peer} (hstaged : p.staged < 5)
    (h : p.emit cfg limit s = .ok (r, p')) :
    ∃ state, p' = p.logged r state ∧ state.2.2 < 5 ∧
      Down cfg limit (p.send, p.requested, p.staged) r state := by
  cases s with
  | app content =>
    dsimp only [emit] at h
    split at h
    · cases h
    · rename_i hlimit
      obtain ⟨r, hseal, hout⟩ := bind_eq_ok.mp h
      cases hout
      obtain ⟨hsealed, hcontent, hct⟩ := Half.sealRecord_eq_ok hseal
      exact ⟨_, rfl, hstaged, .app hsealed hct (by rw [hcontent]; omega)⟩
  | fragment requested len =>
    simp only [emit, bind_eq_ok] at h
    obtain ⟨r, hseal, h⟩ := h
    obtain ⟨hsealed, hcontent, hct⟩ := Half.sealRecord_eq_ok hseal
    have hsame : p.staged = 0 ∨ (if p.staged = 0 then requested else p.requested) = p.requested := by
      by_cases hzero : p.staged = 0
      · exact .inl hzero
      · exact .inr (if_neg hzero)
    split at h
    · rename_i hstop
      cases h
      exact ⟨_, rfl, hstop, .fragment hsealed hct hsame (by omega) hstop hcontent⟩
    · rename_i hstop
      obtain ⟨send, hrotate, hout⟩ := bind_eq_ok.mp h
      cases hout
      have hlast : min 5 (p.staged + max 1 len) = 5 := by omega
      rw [hlast] at hcontent
      exact ⟨_, rfl, Nat.zero_lt_succ 4, .update hsealed hct hsame hstaged hcontent hrotate⟩

/-- A record that moved the client's direction on moves the peer's end of it on, too. -/
theorem take_eq (hcorrect : cfg.aead.Correct) {r : OpenedRecord} {recv : Half}
    (h : Up cfg p.recv r recv) :
    p.take cfg r.record = { p with recv, opened := p.opened ++ [r] } := by
  unfold take
  cases h with
  | app hsealed hct =>
    rw [hsealed.openRecord_eq hcorrect (by rw [hct]; decide)]
    simp only [hct]
    rw [if_neg fun h => absurd h.1 (by decide)]
  | update hsealed hct hcontent hrotate =>
    rw [hsealed.openRecord_eq hcorrect (by rw [hct]; decide)]
    simp only [hct, hcontent, hrotate, true_or, and_self, if_true]

end Peer

end KrabiTls
