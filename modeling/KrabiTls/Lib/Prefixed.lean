import KrabiTls.Lib.Bytes
import Mathlib.Data.Nat.Digits.Lemmas

/-! Byte strings behind their own length, and readers that find them at an offset; and the canonical
lengths of DER, the short form up to 127, else the number of octets and then the length in as few
octets as it takes. -/
namespace KrabiTls.Lib

/-- `data` behind its length in `n` bytes. -/
def prefixed (n : Nat) (data : Bytes) : Bytes :=
  toBe n data.length ++ data

@[simp] theorem prefixed_length (n : Nat) (data : Bytes) :
    (prefixed n data).length = n + data.length := by
  simp [prefixed]

theorem slice_drop (buf : Bytes) (k start stop : Nat) :
    slice (buf.drop k) start stop = slice buf (k + start) (k + stop) := by
  rw [slice, slice, List.drop_drop, Nat.add_sub_add_left]

theorem take_eq_slice (buf : Bytes) (k : Nat) : buf.take k = slice buf 0 k := by
  simp [slice]

theorem ofBe_take_one (buf : Bytes) : ofBe (buf.take 1) = (buf.headD 0).toNat := by
  cases buf with
  | nil => rfl
  | cons b rest => simp [ofBe]

section Reading
variable {n start : Nat} {buf : Bytes}

/-- The length that a reader finds is one the `n` bytes can hold. -/
theorem prefixed_slice_lt (h : start + n + ofBe (slice buf start (start + n)) ≤ buf.length) :
    (slice buf (start + n) (start + n + ofBe (slice buf start (start + n)))).length < 256 ^ n := by
  rw [slice_length_of_le h, Nat.add_sub_cancel_left]
  exact ofBe_lt_of_length_le (by rw [slice_length]; omega)

/-- What a reader cuts out at `start` is the string behind its length, and the rest. -/
theorem prefixed_slice (h : start + n + ofBe (slice buf start (start + n)) ≤ buf.length) :
    buf.drop start =
      prefixed n (slice buf (start + n) (start + n + ofBe (slice buf start (start + n)))) ++
        buf.drop (start + n + ofBe (slice buf start (start + n))) := by
  have hlen : toBe n (ofBe (slice buf start (start + n))) = slice buf start (start + n) :=
    toBe_ofBe_of_length (by rw [slice_length_of_le (by omega)]; omega)
  rw [prefixed, slice_length_of_le h, Nat.add_sub_cancel_left, hlen,
    ← slice_split (by omega) (by omega), slice]
  conv_lhs => rw [← List.take_append_drop (n + ofBe (slice buf start (start + n))) (buf.drop start)]
  rw [List.drop_drop]
  congr 2 <;> omega

variable {data rest : Bytes}

theorem slice_prefixed_length (hbuf : buf.drop start = prefixed n data ++ rest)
    (hdata : data.length < 256 ^ n) : ofBe (slice buf start (start + n)) = data.length := by
  rw [slice, hbuf, Nat.add_sub_cancel_left, prefixed, List.append_assoc,
    List.take_left' (toBe_length _ _), ofBe_toBe, Nat.mod_eq_of_lt hdata]

theorem slice_prefixed_data (hbuf : buf.drop start = prefixed n data ++ rest) :
    slice buf (start + n) (start + n + data.length) = data := by
  rw [Nat.add_assoc, ← slice_drop, hbuf, slice, prefixed, List.append_assoc,
    List.drop_left' (toBe_length _ _), Nat.add_sub_cancel_left, List.take_left' rfl]

theorem drop_prefixed (hbuf : buf.drop start = prefixed n data ++ rest) :
    buf.drop (start + n + data.length) = rest := by
  rw [Nat.add_assoc, ← List.drop_drop, hbuf, List.drop_left' (prefixed_length _ _)]

theorem prefixed_append_inj {data' rest' : Bytes} (hdata : data.length < 256 ^ n)
    (hdata' : data'.length < 256 ^ n) (h : prefixed n data ++ rest = prefixed n data' ++ rest') :
    data = data' ∧ rest = rest' := by
  simp only [prefixed, List.append_assoc] at h
  obtain ⟨hlen, h⟩ := List.append_inj h (by rw [toBe_length, toBe_length])
  exact List.append_inj h (toBe_injOn hdata hdata' hlen)

end Reading

section OneByteLength
variable {buf data rest : Bytes}

/-- A string at the front behind a length of one byte, which the reader takes as a byte. -/
theorem prefixed_one_front (h : 1 + (buf.headD 0).toNat ≤ buf.length) :
    (slice buf 1 (1 + (buf.headD 0).toNat)).length < 256 ∧
      buf = prefixed 1 (slice buf 1 (1 + (buf.headD 0).toNat)) ++
        buf.drop (1 + (buf.headD 0).toNat) := by
  have hlen : ofBe (slice buf 0 (0 + 1)) = (buf.headD 0).toNat := by
    rw [Nat.zero_add, ← take_eq_slice, ofBe_take_one]
  have hfits : 0 + 1 + ofBe (slice buf 0 (0 + 1)) ≤ buf.length := by omega
  have hlt := prefixed_slice_lt hfits
  have hslice := prefixed_slice hfits
  rw [hlen, Nat.zero_add] at hlt hslice
  exact ⟨hlt, hslice⟩

theorem headD_prefixed_one (hbuf : buf = prefixed 1 data ++ rest) (hdata : data.length < 256) :
    (buf.headD 0).toNat = data.length := by
  have hlen : ofBe (slice buf 0 (0 + 1)) = data.length := slice_prefixed_length hbuf hdata
  rwa [Nat.zero_add, ← take_eq_slice, ofBe_take_one] at hlen

theorem slice_prefixed_one (hbuf : buf = prefixed 1 data ++ rest) :
    slice buf 1 (1 + data.length) = data := by
  have hdata : slice buf (0 + 1) (0 + 1 + data.length) = data := slice_prefixed_data hbuf
  rwa [Nat.zero_add] at hdata

theorem drop_prefixed_one (hbuf : buf = prefixed 1 data ++ rest) :
    buf.drop (1 + data.length) = rest := by
  have hdrop : buf.drop (0 + 1 + data.length) = rest := drop_prefixed hbuf
  rwa [Nat.zero_add] at hdrop

end OneByteLength

/-- A number, big-endian, in as few bytes as it takes. -/
def minBytes (n : Nat) : Bytes := ((Nat.digits 256 n).map UInt8.ofNat).reverse

theorem ofBe_eq_ofDigits (b : Bytes) : ofBe b = Nat.ofDigits 256 (b.reverse.map UInt8.toNat) := by
  induction b using List.reverseRecOn with
  | nil => rfl
  | append_singleton b x ih =>
    rw [ofBe_append_singleton, List.reverse_concat, List.map_cons, Nat.ofDigits_cons, ← ih]
    omega

theorem ofBe_minBytes (n : Nat) : ofBe (minBytes n) = n := by
  have hmap : ((Nat.digits 256 n).map UInt8.ofNat).map UInt8.toNat = Nat.digits 256 n := by
    rw [List.map_map]
    conv_rhs => rw [← List.map_id (Nat.digits 256 n)]
    apply List.map_congr_left
    intro d hd
    exact UInt8.toNat_ofNat_of_lt' (Nat.digits_lt_base (by decide) hd)
  rw [ofBe_eq_ofDigits, minBytes, List.reverse_reverse, hmap, Nat.ofDigits_digits]

/-- A number without a leading zero is written in as few bytes as it takes. -/
theorem minBytes_ofBe {b : Bytes} (h : b.head? ≠ some 0) : minBytes (ofBe b) = b := by
  have hdigits : Nat.digits 256 (ofBe b) = b.reverse.map UInt8.toNat := by
    rw [ofBe_eq_ofDigits]
    apply Nat.digits_ofDigits 256 (by decide)
    · intro d hd
      obtain ⟨x, -, rfl⟩ := List.mem_map.mp hd
      exact x.toNat_lt
    · intro hne hlast
      cases b with
      | nil => exact hne rfl
      | cons x b =>
        rw [List.getLast_map, List.getLast_reverse] at hlast
        exact h (congrArg some (UInt8.toNat_inj.mp hlast))
  rw [minBytes, hdigits, List.map_map]
  conv_rhs => rw [← b.reverse_reverse, ← List.map_id b.reverse]
  congr 1
  apply List.map_congr_left
  intro x _
  exact UInt8.ofNat_toNat

theorem highBit_eq_zero_iff (b : UInt8) : b &&& 0x80 = 0 ↔ b.toNat < 0x80 := by
  have hall : ∀ n < 256, (UInt8.ofNat n &&& 0x80 = 0 ↔ (UInt8.ofNat n).toNat < 0x80) := by
    decide +kernel
  have hb := hall b.toNat b.toNat_lt
  rwa [UInt8.ofNat_toNat] at hb

/-- The length octets of a body of `n` bytes. -/
def derLength (n : Nat) : Bytes :=
  if n < 0x80 then [UInt8.ofNat n]
  else UInt8.ofNat (0x80 + (minBytes n).length) :: minBytes n

end KrabiTls.Lib
