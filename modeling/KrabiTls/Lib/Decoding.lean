import KrabiTls.Lib.Prefixed
import Mathlib.Algebra.Order.BigOperators.Group.List

/-! Readers that take a value from the front of a byte string, and that they take back what was
written. -/
namespace KrabiTls.Lib
variable {α : Type}

def takeBytes (n : Nat) (buf : Bytes) : Option (Bytes × Bytes) :=
  if n ≤ buf.length then some (buf.take n, buf.drop n) else none

def takeUint (n : Nat) (buf : Bytes) : Option (Nat × Bytes) := do
  let (bytes, rest) ← takeBytes n buf
  pure (ofBe bytes, rest)

/-- A string behind its length in `n` bytes. -/
def takePrefixed (n : Nat) (buf : Bytes) : Option (Bytes × Bytes) := do
  let (len, rest) ← takeUint n buf
  takeBytes len rest

def takeTagged (buf : Bytes) : Option ((Nat × Bytes) × Bytes) := do
  let (tag, rest) ← takeUint 2 buf
  let (data, rest) ← takePrefixed 2 rest
  pure ((tag, data), rest)

def tagged (e : Nat × Bytes) : Bytes := toBe 2 e.1 ++ prefixed 2 e.2

theorem tagged_mk (tag : Nat) (data : Bytes) :
    tagged (tag, data) = toBe 2 tag ++ (toBe 2 data.length ++ data) := rfl

theorem tagged_length (e : Nat × Bytes) : (tagged e).length = 4 + e.2.length := by
  simp only [tagged, List.length_append, toBe_length, prefixed_length]
  omega

theorem tagged_ne_nil (e : Nat × Bytes) : tagged e ≠ [] :=
  List.ne_nil_of_length_pos (by rw [tagged_length]; omega)

/-- One value and nothing behind it. -/
def whole (item : Bytes → Option (α × Bytes)) (buf : Bytes) : Option α := do
  let (a, rest) ← item buf
  if rest = [] then some a else none

/-- A value that is known beforehand. -/
def expect [DecidableEq α] (item : Bytes → Option (α × Bytes)) (value : α) (buf : Bytes) :
    Option Bytes := do
  let (a, rest) ← item buf
  if a = value then some rest else none

def readManyWithin (item : Bytes → Option (α × Bytes)) : (fuel : Nat) → Bytes → Option (List α)
  | 0, buf => if buf = [] then some [] else none
  | fuel + 1, buf =>
      if buf = [] then some []
      else do
        let (a, rest) ← item buf
        let as ← readManyWithin item fuel rest
        pure (a :: as)

def readMany (item : Bytes → Option (α × Bytes)) (buf : Bytes) : Option (List α) :=
  readManyWithin item buf.length buf

section Append
variable {n : Nat} (rest : Bytes)

theorem takeBytes_append {b : Bytes} (h : b.length = n) : takeBytes n (b ++ rest) = some (b, rest) := by
  rw [takeBytes, if_pos (by rw [List.length_append]; omega), List.take_left' h, List.drop_left' h]

theorem takeUint_append {v : Nat} (h : v < 256 ^ n) : takeUint n (toBe n v ++ rest) = some (v, rest) := by
  rw [takeUint, takeBytes_append rest (toBe_length n v)]
  simp [ofBe_toBe, Nat.mod_eq_of_lt h]

theorem takePrefixed_append {data : Bytes} (h : data.length < 256 ^ n) :
    takePrefixed n (prefixed n data ++ rest) = some (data, rest) := by
  rw [takePrefixed, prefixed, List.append_assoc, takeUint_append _ h]
  exact takeBytes_append rest rfl

theorem takeTagged_append {e : Nat × Bytes} (htag : e.1 < 2 ^ 16) (hdata : e.2.length < 2 ^ 16) :
    takeTagged (tagged e ++ rest) = some (e, rest) := by
  rw [takeTagged, tagged, List.append_assoc, takeUint_append _ htag]
  dsimp only [Option.bind_eq_bind, Option.bind_some]
  rw [takePrefixed_append rest hdata]
  rfl

variable {rest} in
theorem takeBytes_eq_some_iff {b buf : Bytes} :
    takeBytes n buf = some (b, rest) ↔ b.length = n ∧ buf = b ++ rest := by
  constructor
  · intro h
    obtain ⟨hlen, heq⟩ := Option.ite_none_right_eq_some.mp h
    cases heq
    exact ⟨List.length_take_of_le hlen, (List.take_append_drop n buf).symm⟩
  · rintro ⟨hlen, rfl⟩
    exact takeBytes_append rest hlen

variable {rest} in
theorem takeUint_eq_some_iff {v : Nat} {buf : Bytes} :
    takeUint n buf = some (v, rest) ↔ v < 256 ^ n ∧ buf = toBe n v ++ rest := by
  constructor
  · intro h
    obtain ⟨⟨b, rest'⟩, hb, heq⟩ := Option.bind_eq_some_iff.mp h
    cases heq
    obtain ⟨rfl, rfl⟩ := takeBytes_eq_some_iff.mp hb
    exact ⟨ofBe_lt b, by rw [toBe_ofBe]⟩
  · rintro ⟨hv, rfl⟩
    exact takeUint_append rest hv

end Append

variable {item : Bytes → Option (α × Bytes)}
variable {as : List α}

theorem whole_eq_some {buf : Bytes} {a : α} (h : item (buf ++ []) = some (a, [])) :
    whole item buf = some a := by
  rw [List.append_nil] at h
  simp [whole, h]

theorem whole_prefixed {n : Nat} {data : Bytes} (h : data.length < 256 ^ n) :
    whole (takePrefixed n) (prefixed n data) = some data :=
  whole_eq_some (takePrefixed_append [] h)

theorem expect_eq_some [DecidableEq α] {buf rest : Bytes} {a : α} (h : item buf = some (a, rest)) :
    expect item a buf = some rest := by
  simp [expect, h]

theorem length_le_flatMap (encode : α → Bytes) {a : α} (h : a ∈ as) :
    (encode a).length ≤ (as.flatMap encode).length := by
  rw [List.length_flatMap]
  exact List.le_sum_of_mem (List.mem_map_of_mem h)

theorem readManyWithin_flatMap {encode : α → Bytes}
    (hitem : ∀ a ∈ as, ∀ rest, item (encode a ++ rest) = some (a, rest))
    (hne : ∀ a ∈ as, encode a ≠ []) {fuel : Nat} (hfuel : as.length ≤ fuel) :
    readManyWithin item fuel (as.flatMap encode) = some as := by
  induction as generalizing fuel with
  | nil => cases fuel <;> rfl
  | cons a as ih =>
    cases fuel with
    | zero => simp at hfuel
    | succ fuel =>
      have hcons : (a :: as).flatMap encode ≠ [] := by
        rw [List.flatMap_cons]
        exact List.append_ne_nil_of_left_ne_nil (hne a List.mem_cons_self) _
      rw [readManyWithin, if_neg hcons, List.flatMap_cons, hitem a List.mem_cons_self]
      have hrest := ih (fun b hb => hitem b (List.mem_cons_of_mem a hb))
        (fun b hb => hne b (List.mem_cons_of_mem a hb)) (Nat.le_of_succ_le_succ hfuel)
      simp [hrest]

theorem readMany_flatMap {encode : α → Bytes}
    (hitem : ∀ a ∈ as, ∀ rest, item (encode a ++ rest) = some (a, rest))
    (hne : ∀ a ∈ as, encode a ≠ []) : readMany item (as.flatMap encode) = some as := by
  refine readManyWithin_flatMap hitem hne ?_
  have hone : ∀ k ∈ as.map fun a => (encode a).length, 1 ≤ k := by
    intro k hk
    obtain ⟨a, ha, rfl⟩ := List.mem_map.mp hk
    exact List.length_pos_iff.mpr (hne a ha)
  have hlen := List.length_le_sum_of_one_le _ hone
  rwa [List.length_map, ← List.length_flatMap] at hlen

end KrabiTls.Lib
