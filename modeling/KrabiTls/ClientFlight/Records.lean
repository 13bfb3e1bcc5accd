import KrabiTls.Lib.Layout
import KrabiTls.Engine.Conforming
import KrabiTls.Stream.Construction

/-! The records of the client's flight: they fit the send buffer at every legal limit, and a receiver
reads the flight back from them. -/
namespace KrabiTls
open Lib

/-- The wire size of `n` bytes in records of at most `maxChunk` bytes of content. -/
def flightWireLen (maxChunk n : Nat) : Nat := n + (n ⌈/⌉ maxChunk) * (recordOverhead + 1)

theorem flightWireLen_step {maxChunk n : Nat} (hmax : 0 < maxChunk) (hn : 0 < n) :
    flightWireLen maxChunk n =
      (min maxChunk n + (recordOverhead + 1)) + flightWireLen maxChunk (n - maxChunk) := by
  rw [flightWireLen, flightWireLen, ceilDiv_step hmax hn, Nat.succ_mul]
  omega

/-- The floor is computed for the smallest legal limit; a larger limit or a shorter flight needs no
more. -/
theorem flightWireLen_le_floor {maxFlight maxChunk n : Nat} (hpos : 0 < maxFlight)
    (hchunk : minRecordSizeLimit - 1 ≤ maxChunk) (hn : n ≤ maxFlight) :
    flightWireLen maxChunk n ≤ clientAuthSendFloor maxFlight := by
  have hrecords : n ⌈/⌉ maxChunk ≤ maxFlight ⌈/⌉ (minRecordSizeLimit - 1) :=
    ceilDiv_le_ceilDiv (by decide) hchunk hn
  rw [clientAuthSendFloor, if_neg (by omega)]
  dsimp only
  rw [← Nat.ceilDiv_eq_add_pred_div, flightWireLen]
  exact Nat.add_le_add hn (Nat.mul_le_mul_right _ hrecords)

/-- What the loop has done so far: the records in the buffer read back, in order, to the plaintext it
has taken, and the rest fits behind them. -/
structure FlightChunks.Readable (a : AeadBackend) (keys : RecordKeys) (plaintext : Bytes)
    (limit outLen : Nat) (s : FlightChunks) : Prop where
  room : s.written.length + flightWireLen (limit - 1) s.rest.length ≤ outLen
  plaintext : (s.sealed.map SealedRecord.content).flatten ++ s.rest = plaintext
  written : (s.sealed.map SealedRecord.record).flatten = s.written
  index : s.index = s.sealed.length
  readsBack : keys.ReadsBack a ctHandshake 0 limit (s.sealed.map SealedRecord.record)
    (s.sealed.map SealedRecord.content)

section Flight
variable {a : AeadBackend} {keys : RecordKeys} {plaintext : Bytes} {limit outLen : Nat}
  {s : FlightChunks}

theorem FlightChunks.Readable.encryptRecord (htotal : a.Total)
    (hlimit : minRecordSizeLimit ≤ limit ∧ limit ≤ protoMaxInnerPlaintext)
    (h : s.Readable a keys plaintext limit outLen) (hrest : s.rest ≠ []) :
    ∃ record, keys.encryptRecord a (s.rest.take (limit - 1)) ctHandshake (s.index % 2 ^ 64)
      (outLen - s.written.length) = (.ok record, record) := by
  simp only [minRecordSizeLimit, protoMaxInnerPlaintext] at hlimit
  have hroom := h.room
  rw [flightWireLen_step (by omega) (List.length_pos_iff.mpr hrest)] at hroom
  simp only [recordOverhead, tlsHeader, aeadTagLen] at hroom
  apply RecordKeys.encryptRecord_total htotal
  · simp only [List.length_take, tlsPlaintextMax]
    omega
  · rw [List.length_take]
    omega

theorem FlightChunks.Readable.next (hcorrect : a.Correct)
    (hlimit : minRecordSizeLimit ≤ limit ∧ limit ≤ protoMaxInnerPlaintext)
    (h : s.Readable a keys plaintext limit outLen) (hrest : s.rest ≠ []) {record dirty : Bytes}
    (henc : keys.encryptRecord a (s.rest.take (limit - 1)) ctHandshake (s.index % 2 ^ 64)
      (outLen - s.written.length) = (.ok record, dirty)) :
    FlightChunks.Readable a keys plaintext limit outLen
      ⟨s.rest.drop (limit - 1), s.index + 1, s.written ++ record,
        s.sealed ++ [⟨s.index % 2 ^ 64, ctHandshake, s.rest.take (limit - 1), record⟩]⟩ := by
  simp only [minRecordSizeLimit, protoMaxInnerPlaintext] at hlimit
  have hroom := h.room
  rw [flightWireLen_step (by omega) (List.length_pos_iff.mpr hrest)] at hroom
  simp only [recordOverhead, tlsHeader, aeadTagLen] at hroom
  obtain ⟨-, -, hlen, -⟩ := RecordKeys.encryptRecord_eq_ok henc
  rw [List.length_take] at hlen
  refine ⟨?_, ?_, ?_, ?_, ?_⟩
  · simp only [List.length_append, List.length_drop]
    omega
  · rw [List.map_append, List.flatten_append, List.map_singleton, List.flatten_singleton,
      List.append_assoc, List.take_append_drop]
    exact h.plaintext
  · rw [List.map_append, List.flatten_append, List.map_singleton, List.flatten_singleton, h.written]
  · rw [List.length_append, List.length_singleton, h.index]
  · rw [List.map_append, List.map_append]
    refine h.readsBack.concat ?_ ?_
    · rw [Nat.zero_add, List.length_map, ← h.index, ← RecordKeys.readRecord_mod]
      exact RecordKeys.readRecord_encryptRecord hcorrect (by decide) henc
    · rw [List.length_take]
      omega

end Flight

/-- A flight of at most `maxFlight` bytes fits a buffer of the size that `connect` asks for, whatever
limit the peer has set, and reads back from its records. -/
theorem encryptHandshakeFlight_readable (a : AeadBackend) (keys : RecordKeys) (plaintext : Bytes)
    (maxFlight limit outLen : Nat) (htotal : a.Total) (hcorrect : a.Correct) (hpos : 0 < maxFlight)
    (hlen : plaintext.length ≤ maxFlight) (hlimit : 64 ≤ limit ∧ limit ≤ 16385)
    (hout : clientAuthSendFloor maxFlight ≤ outLen) :
    ∃ records contents : List Bytes,
      (encryptHandshakeFlight a keys plaintext limit outLen).result = .ok records.flatten ∧
      keys.ReadsBack a ctHandshake 0 limit records contents ∧ contents.flatten = plaintext := by
  have hchunk : max (limit - 1) 1 = limit - 1 := by omega
  have hroom := flightWireLen_le_floor hpos (show minRecordSizeLimit - 1 ≤ limit - 1 by
    simp only [minRecordSizeLimit]; omega) hlen
  refine encryptHandshakeFlight_induct (FlightChunks.Readable a keys plaintext limit outLen)
    (fun flight => ∃ records contents : List Bytes, flight.result = .ok records.flatten ∧
      keys.ReadsBack a ctHandshake 0 limit records contents ∧ contents.flatten = plaintext)
    ⟨by simpa using hroom.trans hout, rfl, rfl, rfl, RecordKeys.readsBack_nil ..⟩ ?_ ?_ ?_
  · intro s record dirty h hrest henc
    rw [hchunk] at henc ⊢
    exact h.next hcorrect hlimit hrest henc
  · intro s h hrest
    have hplaintext := h.plaintext
    rw [hrest, List.append_nil] at hplaintext
    exact ⟨_, _, by rw [h.written], h.readsBack, hplaintext⟩
  · intro s e dirty h hrest henc
    obtain ⟨record, hok⟩ := h.encryptRecord htotal hlimit hrest
    rw [hchunk, hok] at henc
    cases henc

/-- Seventy bytes at the smallest limit: two records, in a buffer of exactly their size. -/
theorem encryptHandshakeFlight_two_records :
    ∃ records contents : List Bytes,
      (encryptHandshakeFlight .clear Sample.appData.cApKeys (List.replicate 70 7) 64 114).result =
        .ok records.flatten ∧
      Sample.appData.cApKeys.ReadsBack .clear ctHandshake 0 64 records contents ∧
      contents.flatten = List.replicate 70 7 :=
  encryptHandshakeFlight_readable .clear Sample.appData.cApKeys (List.replicate 70 7) 70 64 114
    AeadBackend.clear_total AeadBackend.clear_correct (by decide) (by decide) (by decide) (by decide)

end KrabiTls
