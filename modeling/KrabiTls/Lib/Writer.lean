import KrabiTls.Lib.Bytes
import KrabiTls.Lib.Except

/-! Writing piece after piece into a buffer. -/
namespace KrabiTls.Lib
variable {ε : Type}

/-- Write the pieces into `room` bytes. A piece that cannot be made, or that does not fit, ends the
writing with its error. -/
def writeAll (full : ε) (room : Nat) : List (Except ε Bytes) → Except ε Bytes
  | [] => .ok []
  | piece :: rest => do
      let bytes ← piece
      if bytes.length > room then .error full
      else do
        let out ← writeAll full (room - bytes.length) rest
        pure (bytes ++ out)

theorem writeAll_eq_ok {full : ε} {room : Nat} {pieces : List (Except ε Bytes)} {out : Bytes} :
    writeAll full room pieces = .ok out ↔
      ∃ written : List Bytes, pieces = written.map .ok ∧ out = written.flatten ∧ out.length ≤ room := by
  induction pieces generalizing room out with
  | nil =>
    constructor
    · rintro ⟨⟩
      exact ⟨[], rfl, rfl, Nat.zero_le _⟩
    · rintro ⟨written, hmap, rfl, -⟩
      obtain rfl := List.map_eq_nil_iff.mp hmap.symm
      rfl
  | cons piece rest ih =>
    simp only [writeAll, bind_eq_ok]
    constructor
    · rintro ⟨bytes, rfl, h⟩
      split at h
      · cases h
      · obtain ⟨out', hrest, hout⟩ := bind_eq_ok.mp h
        cases hout
        obtain ⟨written, rfl, rfl, hroom⟩ := ih.mp hrest
        refine ⟨bytes :: written, rfl, rfl, ?_⟩
        rw [List.length_append]
        omega
    · rintro ⟨written, hmap, rfl, hroom⟩
      obtain ⟨bytes, written, rfl, rfl, rfl⟩ := List.map_eq_cons_iff.mp hmap.symm
      rw [List.flatten_cons, List.length_append] at hroom
      refine ⟨bytes, rfl, ?_⟩
      rw [if_neg (by omega)]
      exact bind_eq_ok.mpr ⟨_, ih.mpr ⟨written, rfl, rfl, by omega⟩, rfl⟩

/-- Pieces that can be made fail only for want of room. -/
theorem writeAll_map_ok (full : ε) (room : Nat) (written : List Bytes) :
    writeAll full room (written.map .ok) =
      if written.flatten.length ≤ room then .ok written.flatten else .error full := by
  induction written generalizing room with
  | nil => rfl
  | cons piece written ih =>
    rw [List.map_cons, writeAll, List.flatten_cons, List.length_append]
    dsimp only [bind, Except.bind]
    by_cases hpiece : piece.length > room
    · rw [if_pos hpiece, if_neg (by omega)]
    · rw [if_neg hpiece, ih]
      by_cases hrest : written.flatten.length ≤ room - piece.length
      · rw [if_pos hrest, if_pos (by omega)]
        rfl
      · rw [if_neg hrest, if_neg (by omega)]

/-- The bytes of a write; none if it failed. -/
def writeSize (piece : Except ε Bytes) : Nat := (piece.toOption.getD []).length

@[simp] theorem writeSize_ok (bytes : Bytes) : writeSize (.ok bytes : Except ε Bytes) = bytes.length :=
  rfl

theorem length_flatten_of_writes {pieces : List (Except ε Bytes)} {written : List Bytes}
    (h : pieces = written.map .ok) : written.flatten.length = (pieces.map writeSize).sum := by
  rw [h, List.length_flatten, List.map_map]
  rfl

end KrabiTls.Lib
