import Mathlib.Data.List.Basic
import Mathlib.Data.List.Induction
import Mathlib.Algebra.Order.Ring.Nat

/-! Byte strings, big-endian integers, and in-place writes into fixed buffers. -/
namespace KrabiTls.Lib

variable {b buf data : Bytes} {n off start stop : Nat}

abbrev Bytes := List UInt8

/-- A fixed-size array: a byte string that carries its length. -/
abbrev Block (n : Nat) := { b : Bytes // b.length = n }

def Block.zeros (n : Nat) : Block n :=
  ⟨List.replicate n 0, List.length_replicate⟩

/-- The `n` low-order bytes of `v`, most significant first. -/
def toBe : Nat → Nat → Bytes
  | 0, _ => []
  | n + 1, v => toBe n (v / 256) ++ [UInt8.ofNat v]

def ofBe (b : Bytes) : Nat :=
  b.foldl (fun acc x => acc * 256 + x.toNat) 0

@[simp] theorem toBe_length (n v : Nat) : (toBe n v).length = n := by
  induction n generalizing v with
  | zero => rfl
  | succ n ih => simp [toBe, ih]

@[simp] theorem ofBe_append_singleton (b : Bytes) (x : UInt8) :
    ofBe (b ++ [x]) = ofBe b * 256 + x.toNat := by
  simp [ofBe]

theorem ofBe_toBe (n v : Nat) : ofBe (toBe n v) = v % 256 ^ n := by
  induction n generalizing v with
  | zero => simp [toBe, ofBe, Nat.mod_one]
  | succ n ih =>
    have hbyte : (UInt8.ofNat v).toNat = v % 256 := UInt8.toNat_ofNat'
    rw [toBe, ofBe_append_singleton, ih, hbyte, Nat.pow_succ, Nat.mul_comm (256 ^ n), Nat.mod_mul]
    omega

theorem ofBe_lt (b : Bytes) : ofBe b < 256 ^ b.length := by
  induction b using List.reverseRecOn with
  | nil => decide
  | append_singleton b x ih =>
    have hx := x.toNat_lt
    rw [ofBe_append_singleton, List.length_append, List.length_singleton, Nat.pow_succ]
    omega

theorem toBe_ofBe (b : Bytes) : toBe b.length (ofBe b) = b := by
  induction b using List.reverseRecOn with
  | nil => rfl
  | append_singleton b x ih =>
    have hx := x.toNat_lt
    have hdiv : (ofBe b * 256 + x.toNat) / 256 = ofBe b := by omega
    have hbyte : UInt8.ofNat (ofBe b * 256 + x.toNat) = x := by
      apply UInt8.toNat_inj.mp
      rw [UInt8.toNat_ofNat']
      omega
    rw [ofBe_append_singleton, List.length_append, List.length_singleton, toBe, hdiv, ih, hbyte]

theorem ofBe_lt_of_length_le (h : b.length ≤ n) : ofBe b < 256 ^ n :=
  lt_of_lt_of_le (ofBe_lt b) (Nat.pow_le_pow_right (by decide) h)

theorem toBe_ofBe_of_length (h : b.length = n) : toBe n (ofBe b) = b :=
  h ▸ toBe_ofBe b

theorem toBe_injOn {v w : Nat} (hv : v < 256 ^ n) (hw : w < 256 ^ n) (h : toBe n v = toBe n w) :
    v = w := by
  have hofBe := congrArg ofBe h
  rwa [ofBe_toBe, ofBe_toBe, Nat.mod_eq_of_lt hv, Nat.mod_eq_of_lt hw] at hofBe

theorem toBe_mod (n v : Nat) : toBe n (v % 256 ^ n) = toBe n v := by
  rw [← ofBe_toBe, toBe_ofBe_of_length (toBe_length n v)]

theorem toBe_add (k n v : Nat) : toBe (k + n) v = toBe k (v / 256 ^ n) ++ toBe n v := by
  induction n generalizing v with
  | zero => simp [toBe]
  | succ n ih =>
    rw [← Nat.add_assoc, toBe, ih, toBe, Nat.div_div_eq_div_mul, ← Nat.pow_succ', List.append_assoc]

/-- The low-order bytes of a wider number. -/
theorem drop_toBe (k n v : Nat) : (toBe (k + n) v).drop k = toBe n v := by
  rw [toBe_add, List.drop_left' (toBe_length _ _)]

def xorBytes (a b : Bytes) : Bytes :=
  List.zipWith (· ^^^ ·) a b

@[simp] theorem xorBytes_length (a b : Bytes) :
    (xorBytes a b).length = min a.length b.length := by
  simp [xorBytes]

theorem xorBytes_right_cancel {a c : Bytes} (hb : b.length ≤ a.length) (hbc : b.length = c.length)
    (h : xorBytes a b = xorBytes a c) : b = c := by
  induction a generalizing b c with
  | nil => simp_all
  | cons x xs ih =>
    cases b with
    | nil => exact (List.length_eq_zero_iff.mp hbc.symm).symm
    | cons y ys =>
      cases c with
      | nil => simp at hbc
      | cons z zs =>
        simp only [xorBytes, List.zipWith_cons_cons, List.cons.injEq, UInt8.xor_right_inj] at h
        simp only [List.length_cons, Nat.add_le_add_iff_right, Nat.add_right_cancel_iff] at hb hbc
        rw [h.1, ih hb hbc h.2]

theorem xorBytes_xorBytes {a m : Bytes} (h : a.length ≤ m.length) :
    xorBytes (xorBytes a m) m = a := by
  induction a generalizing m with
  | nil => simp [xorBytes]
  | cons x xs ih =>
    cases m with
    | nil => simp at h
    | cons y ys =>
      simp only [List.length_cons, Nat.add_le_add_iff_right] at h
      have hrest := ih h
      simp only [xorBytes, List.zipWith_cons_cons] at hrest ⊢
      rw [hrest, UInt8.xor_assoc, UInt8.xor_self, UInt8.xor_zero]

/-- `buf[start..stop]`. -/
def slice (buf : Bytes) (start stop : Nat) : Bytes :=
  (buf.drop start).take (stop - start)

@[simp] theorem slice_length (buf : Bytes) (start stop : Nat) :
    (slice buf start stop).length = min (stop - start) (buf.length - start) := by
  simp [slice]

theorem slice_length_of_le (h : stop ≤ buf.length) :
    (slice buf start stop).length = stop - start := by
  rw [slice_length]
  omega

/-- Copy `data` over `buf[off..off + data.length]`; the buffer keeps its length. -/
def overwrite (buf : Bytes) (off : Nat) (data : Bytes) : Bytes :=
  (buf.take off ++ data ++ buf.drop (off + data.length)).take buf.length

@[simp] theorem overwrite_length (buf : Bytes) (off : Nat) (data : Bytes) :
    (overwrite buf off data).length = buf.length := by
  simp only [overwrite, List.length_take, List.length_append, List.length_drop]
  omega

def Block.overwrite (buf : Block n) (off : Nat) (data : Bytes) : Block n :=
  ⟨Lib.overwrite buf.val off data, by rw [overwrite_length, buf.property]⟩

theorem overwrite_eq (h : off + data.length ≤ buf.length) :
    overwrite buf off data = buf.take off ++ data ++ buf.drop (off + data.length) := by
  unfold overwrite
  apply List.take_of_length_le
  simp only [List.length_append, List.length_take, List.length_drop]
  omega

theorem drop_overwrite {k : Nat} (h : off + data.length ≤ k)
    (hbuf : off + data.length ≤ buf.length) : (overwrite buf off data).drop k = buf.drop k := by
  have hlen : (buf.take off ++ data).length = off + data.length := by
    simp only [List.length_append, List.length_take]
    omega
  rw [overwrite_eq hbuf, List.drop_append, List.drop_of_length_le (by omega), hlen, List.drop_drop,
    List.nil_append]
  congr 1
  omega

theorem take_overwrite {k : Nat} (h : k ≤ off) (hbuf : off + data.length ≤ buf.length) :
    (overwrite buf off data).take k = buf.take k := by
  rw [overwrite_eq hbuf, List.append_assoc, List.take_append_of_le_length (by simp; omega),
    List.take_take, Nat.min_eq_left h]

theorem slice_overwrite_self (hbuf : off + data.length ≤ buf.length) :
    slice (overwrite buf off data) off (off + data.length) = data := by
  have hoff : (buf.take off).length = off := by
    rw [List.length_take]
    omega
  rw [overwrite_eq hbuf, slice, List.append_assoc, List.drop_append, hoff,
    List.drop_of_length_le (by omega), Nat.sub_self, List.nil_append, List.drop_zero,
    Nat.add_sub_cancel_left, List.take_left']
  rfl

theorem Block.slice_overwrite_front (buf : Block n) (h : data.length ≤ n) :
    slice (buf.overwrite 0 data).val 0 data.length = data := by
  have hself : slice (Lib.overwrite buf.val 0 data) 0 (0 + data.length) = data :=
    slice_overwrite_self (by rw [buf.property]; omega)
  rwa [Nat.zero_add] at hself

theorem Block.zeros_overwrite_val (h : data.length = n) :
    ((Block.zeros n).overwrite 0 data).val = data := by
  have hfront := Block.slice_overwrite_front (Block.zeros n) (Nat.le_of_eq h)
  have hlen := ((Block.zeros n).overwrite 0 data).property
  rw [slice, List.drop_zero, Nat.sub_zero, List.take_of_length_le (by omega)] at hfront
  exact hfront

theorem slice_overwrite_behind (h : off + data.length ≤ start) (hbuf : off + data.length ≤ buf.length) :
    slice (overwrite buf off data) start stop = slice buf start stop := by
  rw [slice, drop_overwrite h hbuf, slice]

theorem slice_overwrite_within (hstop : stop ≤ data.length) (hbuf : off + data.length ≤ buf.length) :
    slice (overwrite buf off data) (off + start) (off + stop) = slice data start stop := by
  have hoff : (buf.take off).length = off := by rw [List.length_take]; omega
  rw [overwrite_eq hbuf, slice, slice, List.append_assoc, ← List.drop_drop, List.drop_left' hoff,
    List.drop_append, List.take_append_of_le_length]
  · congr 1
    omega
  · rw [List.length_drop]
    omega

theorem slice_split {mid : Nat} (h₁ : start ≤ mid) (h₂ : mid ≤ stop) :
    slice buf start stop = slice buf start mid ++ slice buf mid stop := by
  have hlen : stop - start = (mid - start) + (stop - mid) := by omega
  rw [slice, slice, slice, hlen, List.take_add, List.drop_drop, Nat.add_sub_cancel' h₁]

/-- A slice is determined by its start and its length. -/
theorem slice_slice_length (buf : Bytes) (start stop : Nat) :
    slice buf start (start + (slice buf start stop).length) = slice buf start stop := by
  rw [slice_length, slice, slice, Nat.add_sub_cancel_left, ← List.take_eq_take_iff.mpr]
  simp

theorem slice_self (buf : Bytes) (start : Nat) : slice buf start start = [] := by
  simp [slice]

theorem take_slice (h : start + n ≤ stop) :
    (slice buf start stop).take n = slice buf start (start + n) := by
  rw [slice, slice, List.take_take, Nat.min_eq_left (by omega), Nat.add_sub_cancel_left]

theorem drop_slice (buf : Bytes) (start stop n : Nat) :
    (slice buf start stop).drop n = slice buf (start + n) stop := by
  rw [slice, slice, List.drop_take, List.drop_drop, Nat.sub_sub]

theorem slice_append_left {more : Bytes} (h : stop ≤ buf.length) :
    slice (buf ++ more) start stop = slice buf start stop := by
  rw [slice, slice, ← List.drop_take, ← List.drop_take, List.take_append_of_le_length h]

theorem slice_slice {a b : Nat} (h : start + b ≤ stop) :
    slice (slice buf start stop) a b = slice buf (start + a) (start + b) := by
  rw [slice, slice, slice, List.drop_take, List.take_take, List.drop_drop]
  congr 1
  omega

theorem slice_overwrite_front (h : stop ≤ off) (hbuf : off + data.length ≤ buf.length) :
    slice (overwrite buf off data) start stop = slice buf start stop := by
  rw [slice, slice, ← List.drop_take, ← List.drop_take, take_overwrite h hbuf]

/-- Data written behind a slice extends it. -/
theorem slice_overwrite_append (h : start ≤ off) (hbuf : off + data.length ≤ buf.length) :
    slice (overwrite buf off data) start (off + data.length) = slice buf start off ++ data := by
  rw [slice_split h (Nat.le_add_right _ _), slice_overwrite_self hbuf,
    slice_overwrite_front (Nat.le_refl _) hbuf]

theorem overwrite_slice_self (h : start ≤ stop) (hbuf : stop ≤ buf.length) :
    overwrite buf start (slice buf start stop) = buf := by
  have hlen : (slice buf start stop).length = stop - start := slice_length_of_le hbuf
  have hfront : buf.take start ++ slice buf start stop = buf.take stop := by
    conv_rhs => rw [← Nat.add_sub_cancel' h, List.take_add]
    rfl
  rw [overwrite_eq (by omega), hlen, Nat.add_sub_cancel' h, hfront, List.take_append_drop]

theorem overwrite_overwrite_append {a : Bytes} (h : off + (a.length + b.length) ≤ buf.length) :
    overwrite (overwrite buf off a) (off + a.length) b = overwrite buf off (a ++ b) := by
  have hfront : (overwrite buf off a).take (off + a.length) = buf.take off ++ a := by
    rw [overwrite_eq (by omega)]
    apply List.take_left'
    rw [List.length_append, List.length_take]
    omega
  rw [overwrite_eq (by rw [overwrite_length]; omega), hfront, drop_overwrite (by omega) (by omega),
    overwrite_eq (by rw [List.length_append]; exact h), List.append_assoc, List.append_assoc,
    List.append_assoc, List.append_assoc, List.length_append, Nat.add_assoc]

theorem overwrite_nil (buf : Bytes) (off : Nat) : overwrite buf off [] = buf := by
  simp [overwrite]

theorem getElem?_slice {i : Nat} (h : start + i < stop) :
    (slice buf start stop)[i]? = buf[start + i]? := by
  rw [slice, List.getElem?_take_of_lt (by omega), List.getElem?_drop]

theorem getElem?_overwrite_within {i : Nat} (hbuf : off + data.length ≤ buf.length)
    (h : i < data.length) :
    (overwrite buf off data)[off + i]? = data[i]? := by
  have hself := congrArg (·[i]?) (slice_overwrite_self hbuf)
  rwa [getElem?_slice (by omega)] at hself

theorem getElem?_overwrite_outside {i : Nat} (hbuf : off + data.length ≤ buf.length)
    (h : i < off ∨ off + data.length ≤ i) :
    (overwrite buf off data)[i]? = buf[i]? := by
  rcases h with h | h
  · have htake := congrArg (·[i]?) (take_overwrite (Nat.le_refl off) hbuf)
    rwa [List.getElem?_take_of_lt h, List.getElem?_take_of_lt h] at htake
  · have hdrop := congrArg (·[0]?) (drop_overwrite h hbuf)
    rwa [List.getElem?_drop, List.getElem?_drop, Nat.add_zero] at hdrop

theorem take_append_drop_length {α : Type} (l : List α) (n : Nat) :
    l.take n ++ l.drop (l.take n).length = l := by
  rcases Nat.le_total n l.length with hle | hle
  · rw [List.length_take, Nat.min_eq_left hle, List.take_append_drop]
  · rw [List.take_of_length_le hle, List.drop_length, List.append_nil]

/-- A write at the front leaves the bytes from `stop` on alone, whatever they are, if and only if
it ends there. -/
theorem overwrite_keeps_tail_iff (hdata : data.length ≤ n) :
    (∀ (buf : Block n) (filled : Nat), stop ≤ filled → filled ≤ n →
      slice (buf.overwrite 0 data).val stop filled = slice buf.val stop filled) ↔
    data.length ≤ stop := by
  constructor
  · intro hkeeps
    by_contra hlt
    rw [Nat.not_le] at hlt
    -- a buffer that holds another byte where the write puts `data[stop]`
    let other : Block n := ⟨List.replicate n (data[stop] + 1), List.length_replicate⟩
    have hsame := hkeeps other (stop + 1) (Nat.le_succ _) (by omega)
    have hwrite : slice (overwrite other.val 0 data) (0 + stop) (0 + (stop + 1)) =
        slice data stop (stop + 1) :=
      slice_overwrite_within (by omega) (by rw [other.property]; omega)
    rw [Nat.zero_add, Nat.zero_add] at hwrite
    have hbyte : slice data stop (stop + 1) = [data[stop]] := by
      simp [slice, List.take_one, hlt]
    have hother : slice other.val stop (stop + 1) = [data[stop] + 1] := by
      have hone : min 1 (n - stop) = 1 := by omega
      simp [slice, other, hone]
    have heq := hbyte.symm.trans (hwrite.symm.trans (hsame.trans hother))
    simp at heq
  · intro hle buf filled _ _
    exact slice_overwrite_behind (by omega) (by rw [buf.property]; omega)

end KrabiTls.Lib
