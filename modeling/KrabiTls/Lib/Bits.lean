import Mathlib.Data.Nat.Bitwise
import Mathlib.Data.List.Basic

/-! The set bits of a word, in ascending order, and the loop that clears the lowest one. -/
namespace KrabiTls.Lib
variable {w : Nat}
variable {x : BitVec w}

def setBits (x : BitVec w) : List Nat := (List.range w).filter x.getLsbD

theorem mem_setBits {i : Nat} : i ∈ setBits x ↔ x.getLsbD i = true := by
  rw [setBits, List.mem_filter, List.mem_range]
  exact ⟨And.right, fun h => ⟨BitVec.lt_of_getLsbD h, h⟩⟩

@[simp] theorem setBits_zero : setBits (0#w) = [] := by
  simp [setBits]

theorem ctz_lt (h : x ≠ 0#w) : x.ctz.toNat < w :=
  BitVec.lt_of_getLsbD (BitVec.getLsbD_true_ctz_of_ne_zero h)

/-- A word by its lowest set bit and what is above it. -/
theorem toNat_eq_ctz (h : x ≠ 0#w) :
    ∃ high, x.toNat = 2 ^ (x.ctz.toNat + 1) * high + 2 ^ x.ctz.toNat := by
  have hbelow : x.toNat % 2 ^ x.ctz.toNat = 0 := by
    apply Nat.eq_of_testBit_eq
    intro i
    rw [Nat.testBit_mod_two_pow, BitVec.testBit_toNat, Nat.zero_testBit]
    by_cases hi : i < x.ctz.toNat
    · rw [BitVec.getLsbD_false_of_lt_ctz hi, Bool.and_false]
    · rw [decide_eq_false hi, Bool.false_and]
  have hbit : x.toNat % 2 ^ (x.ctz.toNat + 1) = 2 ^ x.ctz.toNat := by
    rw [Nat.mod_pow_succ, hbelow, ← Nat.toNat_testBit, BitVec.testBit_toNat,
      BitVec.getLsbD_true_ctz_of_ne_zero h, Bool.toNat_true, Nat.mul_one, Nat.zero_add]
  refine ⟨x.toNat / 2 ^ (x.ctz.toNat + 1), ?_⟩
  conv_lhs => rw [← Nat.div_add_mod x.toNat (2 ^ (x.ctz.toNat + 1)), hbit]

theorem toNat_sub_one (h : x ≠ 0#w) : (x - 1).toNat = x.toNat - 1 := by
  have hone : (1 : BitVec w).toNat = 1 := BitVec.toNat_one (Nat.zero_lt_of_lt (ctz_lt h))
  have hpos : 0 < x.toNat := Nat.pos_of_ne_zero fun hzero => h (BitVec.eq_of_toNat_eq hzero)
  rw [BitVec.toNat_sub_of_le (by rw [BitVec.le_def, hone]; exact hpos), hone]

/-- `x & (x - 1)` clears the lowest set bit. -/
theorem getLsbD_and_sub_one (h : x ≠ 0#w) (i : Nat) :
    (x &&& (x - 1)).getLsbD i = (x.getLsbD i && decide (i ≠ x.ctz.toNat)) := by
  obtain ⟨high, hx⟩ := toNat_eq_ctz h
  have hpow : 2 ^ x.ctz.toNat < 2 ^ (x.ctz.toNat + 1) := Nat.pow_lt_pow_right (by decide) (by omega)
  have hpos : 0 < 2 ^ x.ctz.toNat := Nat.two_pow_pos _
  have hsub : (x - 1).toNat = 2 ^ (x.ctz.toNat + 1) * high + (2 ^ x.ctz.toNat - 1) := by
    rw [toNat_sub_one h, hx]
    omega
  rw [BitVec.getLsbD_and, ← BitVec.testBit_toNat, ← BitVec.testBit_toNat, hsub, hx,
    Nat.testBit_two_pow_mul_add _ hpow, Nat.testBit_two_pow_mul_add _ (by omega)]
  by_cases hi : i < x.ctz.toNat + 1
  · -- below and at the lowest bit, one of the two words has no bit
    simp only [if_pos hi, Nat.testBit_two_pow, Nat.testBit_two_pow_sub_one, ← Bool.decide_and,
      decide_eq_decide]
    omega
  · rw [if_neg hi, if_neg hi, Bool.and_self, decide_eq_true (by omega), Bool.and_true]

theorem setBits_of_ne_zero (h : x ≠ 0#w) : setBits x = x.ctz.toNat :: setBits (x &&& (x - 1)) := by
  have hlow := ctz_lt h
  have hrange : List.range w =
      List.range x.ctz.toNat ++ x.ctz.toNat :: List.range' (x.ctz.toNat + 1) (w - x.ctz.toNat - 1) := by
    have happend := List.range'_append_1 (s := 0) (m := x.ctz.toNat) (n := w - x.ctz.toNat - 1 + 1)
    rw [Nat.zero_add, List.range'_succ, show x.ctz.toNat + (w - x.ctz.toNat - 1 + 1) = w by omega]
      at happend
    rw [List.range_eq_range', List.range_eq_range', happend]
  have hbelow (y : BitVec w) (hy : ∀ i < x.ctz.toNat, y.getLsbD i = false) :
      (List.range x.ctz.toNat).filter y.getLsbD = [] := by
    rw [List.filter_eq_nil_iff]
    intro i hi
    rw [hy i (List.mem_range.mp hi)]
    decide
  have habove : (List.range' (x.ctz.toNat + 1) (w - x.ctz.toNat - 1)).filter x.getLsbD =
      (List.range' (x.ctz.toNat + 1) (w - x.ctz.toNat - 1)).filter (x &&& (x - 1)).getLsbD := by
    apply List.filter_congr
    intro i hi
    have := (List.mem_range'_1.mp hi).1
    rw [getLsbD_and_sub_one h, decide_eq_true (by omega), Bool.and_true]
  have hx := hbelow x fun i hi => BitVec.getLsbD_false_of_lt_ctz hi
  have hcleared := hbelow (x &&& (x - 1)) fun i hi => by
    rw [getLsbD_and_sub_one h, BitVec.getLsbD_false_of_lt_ctz hi, Bool.false_and]
  have hself : (x &&& (x - 1)).getLsbD x.ctz.toNat = false := by
    rw [getLsbD_and_sub_one h, decide_eq_false (not_not_intro rfl), Bool.and_false]
  rw [setBits, setBits, hrange, List.filter_append, List.filter_append, hx, hcleared,
    List.filter_cons_of_pos (BitVec.getLsbD_true_ctz_of_ne_zero h),
    List.filter_cons_of_neg (by rw [hself]; decide), habove, List.nil_append, List.nil_append]

end KrabiTls.Lib
