import KrabiTls.Lib.Bytes
import Mathlib.Algebra.Order.Floor.Div

/-! Byte strings made of consecutive fields of given widths, read and written in place; and how many
pieces of at most `m` elements a string of `n` elements is cut into, `n ⌈/⌉ m`. -/
namespace KrabiTls.Lib

/-- The consecutive fields of the given widths from `start` on. -/
def fieldsAt (buf : Bytes) (start : Nat) : List Nat → List Bytes
  | [] => []
  | width :: widths => slice buf start (start + width) :: fieldsAt buf (start + width) widths

theorem flatten_fieldsAt (buf : Bytes) (start : Nat) (widths : List Nat) :
    (fieldsAt buf start widths).flatten = slice buf start (start + widths.sum) := by
  induction widths generalizing start with
  | nil => simp [fieldsAt, slice_self]
  | cons width widths ih =>
    rw [fieldsAt, List.flatten_cons, ih, List.sum_cons, ← Nat.add_assoc,
      ← slice_split (by omega) (by omega)]

/-- Fields written one after the other are read back. -/
theorem fieldsAt_append (front : Bytes) (fields : List Bytes) (rest : Bytes) :
    fieldsAt (front ++ (fields.flatten ++ rest)) front.length (fields.map List.length) = fields := by
  induction fields generalizing front with
  | nil => rfl
  | cons field fields ih =>
    have hnext := ih (front ++ field)
    rw [List.map_cons, fieldsAt, List.flatten_cons]
    simp only [List.append_assoc, List.length_append] at hnext ⊢
    rw [hnext]
    simp [slice]

theorem fieldsAt_flatten (fields : List Bytes) (rest : Bytes) :
    fieldsAt (fields.flatten ++ rest) 0 (fields.map List.length) = fields :=
  fieldsAt_append [] fields rest

theorem flatten_fieldsAt_append_drop (buf : Bytes) (widths : List Nat) :
    (fieldsAt buf 0 widths).flatten ++ buf.drop widths.sum = buf := by
  rw [flatten_fieldsAt]
  simp [slice]

/-- Write the fields one after the other from `off` on. -/
def overwriteAll (buf : Bytes) (off : Nat) : List Bytes → Bytes
  | [] => buf
  | field :: fields => overwriteAll (overwrite buf off field) (off + field.length) fields

theorem overwriteAll_eq {buf : Bytes} {off : Nat} {fields : List Bytes}
    (h : off + fields.flatten.length ≤ buf.length) :
    overwriteAll buf off fields = overwrite buf off fields.flatten := by
  induction fields generalizing buf off with
  | nil => rw [overwriteAll, List.flatten_nil, overwrite_nil]
  | cons field fields ih =>
    rw [List.flatten_cons, List.length_append] at h
    rw [overwriteAll, ih (by rw [overwrite_length]; omega), overwrite_overwrite_append h,
      List.flatten_cons]

/-- Fields written from the front on take the place of as many bytes. -/
theorem overwriteAll_zero {buf : Bytes} {fields : List Bytes}
    (h : fields.flatten.length ≤ buf.length) :
    overwriteAll buf 0 fields = fields.flatten ++ buf.drop fields.flatten.length := by
  rw [overwriteAll_eq (by omega), overwrite_eq (by omega), List.take_zero, List.nil_append,
    Nat.zero_add]

variable {m n : Nat}

theorem ceilDiv_step (hm : 0 < m) (hn : 0 < n) : n ⌈/⌉ m = (n - m) ⌈/⌉ m + 1 := by
  apply le_antisymm
  · have hrest : n - m ≤ m * ((n - m) ⌈/⌉ m) := (ceilDiv_le_iff_le_mul hm).mp le_rfl
    rw [ceilDiv_le_iff_le_mul hm, Nat.mul_succ]
    omega
  · have hwhole : n ≤ m * (n ⌈/⌉ m) := (ceilDiv_le_iff_le_mul hm).mp le_rfl
    obtain ⟨k, hk⟩ : ∃ k, n ⌈/⌉ m = k + 1 := by
      refine Nat.exists_eq_succ_of_ne_zero fun hzero => ?_
      rw [hzero] at hwhole
      omega
    rw [hk, Nat.mul_succ] at hwhole
    rw [hk, Nat.succ_le_succ_iff, ceilDiv_le_iff_le_mul hm]
    omega

/-- Less to cut, or larger pieces, does not make more of them. -/
theorem ceilDiv_le_ceilDiv {m' n' : Nat} (hm : 0 < m) (hmm : m ≤ m') (hnn : n' ≤ n) :
    n' ⌈/⌉ m' ≤ n ⌈/⌉ m := by
  have hwhole : n ≤ m * (n ⌈/⌉ m) := (ceilDiv_le_iff_le_mul hm).mp le_rfl
  rw [ceilDiv_le_iff_le_mul (hm.trans_le hmm)]
  exact hnn.trans (hwhole.trans (Nat.mul_le_mul_right _ hmm))

end KrabiTls.Lib
