import KrabiTls.Lib.Prefixed
import Mathlib.Data.List.Nodup

/-! Sequences of tagged entries: a 2-byte tag, a 2-byte length and that many bytes. -/
namespace KrabiTls.Lib

structure Entry where
  tag : Nat
  data : Bytes
  tag_lt : tag < 2 ^ 16
  data_lt : data.length < 2 ^ 16
  deriving DecidableEq

namespace Entry

variable {buf rest : Bytes} {e : Entry}

def encode (e : Entry) : Bytes :=
  toBe 2 e.tag ++ toBe 2 e.data.length ++ e.data

theorem encode_eq (e : Entry) : e.encode = toBe 2 e.tag ++ prefixed 2 e.data :=
  List.append_assoc _ _ _

theorem encode_length (e : Entry) : e.encode.length = 4 + e.data.length := by
  simp [encode]
  omega

/-- The entry at the front of a byte string and what is behind it, if a whole entry is there. -/
def next (buf : Bytes) : Option (Entry × Bytes) :=
  if h : 4 + ofBe (slice buf 2 4) ≤ buf.length then
    some (⟨ofBe (buf.take 2), slice buf 4 (4 + ofBe (slice buf 2 4)),
      ofBe_lt_of_length_le (n := 2) (by simp), by
        rw [slice_length_of_le h, Nat.add_sub_cancel_left]
        exact ofBe_lt_of_length_le (n := 2) (by simp)⟩,
      buf.drop (4 + ofBe (slice buf 2 4)))
  else none

theorem next_eq_some (h : next buf = some (e, rest)) : buf = e.encode ++ rest := by
  unfold next at h
  split at h
  · rename_i hfits
    cases h
    have htag : toBe 2 (ofBe (buf.take 2)) = buf.take 2 :=
      toBe_ofBe_of_length (by rw [List.length_take]; omega)
    have hlen : toBe 2 (ofBe (slice buf 2 4)) = slice buf 2 4 :=
      toBe_ofBe_of_length (slice_length_of_le (by omega))
    have hdata : (slice buf 4 (4 + ofBe (slice buf 2 4))).length = ofBe (slice buf 2 4) := by
      rw [slice_length_of_le hfits, Nat.add_sub_cancel_left]
    have htake : buf.take 2 ++ slice buf 2 4 ++ slice buf 4 (4 + ofBe (slice buf 2 4)) =
        buf.take (4 + ofBe (slice buf 2 4)) := by
      have hzero (k : Nat) : buf.take k = slice buf 0 k := by simp [slice]
      rw [hzero, hzero, ← slice_split (by omega) (by omega), ← slice_split (by omega) (by omega)]
    rw [encode, hdata, htag, hlen, htake, List.take_append_drop]
  · cases h

theorem next_encode (e : Entry) (rest : Bytes) : next (e.encode ++ rest) = some (e, rest) := by
  have hlen : ofBe (slice (e.encode ++ rest) 2 4) = e.data.length := by
    have hslice : slice (e.encode ++ rest) 2 4 = toBe 2 e.data.length := by
      simp [encode, slice]
    rw [hslice, ofBe_toBe]
    exact Nat.mod_eq_of_lt e.data_lt
  have htag : ofBe ((e.encode ++ rest).take 2) = e.tag := by
    have htake : (e.encode ++ rest).take 2 = toBe 2 e.tag := by simp [encode]
    rw [htake, ofBe_toBe]
    exact Nat.mod_eq_of_lt e.tag_lt
  have hdata : slice (e.encode ++ rest) 4 (4 + e.data.length) = e.data := by
    simp [encode, slice, List.drop_append, List.take_append]
  have hrest : (e.encode ++ rest).drop (4 + e.data.length) = rest := by
    rw [← encode_length]
    exact List.drop_left
  unfold next
  rw [dif_pos (by rw [hlen, List.length_append, encode_length]; omega)]
  simp only [hlen, htag, hdata, hrest]

theorem next_eq_none : next buf = none ↔ buf.length < 4 + ofBe (slice buf 2 4) := by
  unfold next
  split <;> simp <;> omega

/-- The parts of the entry, as a reader that looks at offsets has them. -/
theorem next_parts (h : next buf = some (e, rest)) :
    4 + ofBe (slice buf 2 4) ≤ buf.length ∧ e.tag = ofBe (buf.take 2) ∧
      e.data.length = ofBe (slice buf 2 4) ∧ e.data = slice buf 4 (4 + ofBe (slice buf 2 4)) ∧
      rest = buf.drop (4 + ofBe (slice buf 2 4)) := by
  unfold next at h
  split at h
  · rename_i hfits
    cases h
    exact ⟨hfits, rfl, by rw [slice_length_of_le hfits, Nat.add_sub_cancel_left], rfl, rfl⟩
  · cases h

theorem next_eq_none_of_short (h : buf.length < 4) : next buf = none :=
  dif_neg (by omega)

theorem next_rest_length (h : next buf = some (e, rest)) : rest.length < buf.length := by
  rw [next_eq_some h, List.length_append, encode_length]
  omega

def splitWithin : (fuel : Nat) → Bytes → List Entry × Bytes
  | 0, buf => ([], buf)
  | fuel + 1, buf =>
      match next buf with
      | none => ([], buf)
      | some (e, rest) => (e :: (splitWithin fuel rest).1, (splitWithin fuel rest).2)

/-- The whole entries at the front of a byte string, and the bytes at which no entry starts. -/
def split (buf : Bytes) : List Entry × Bytes :=
  splitWithin (buf.length + 1) buf

theorem splitWithin_congr {fuel fuel' : Nat} (h : buf.length < fuel) (h' : buf.length < fuel') :
    splitWithin fuel buf = splitWithin fuel' buf := by
  induction fuel generalizing fuel' buf with
  | zero => omega
  | succ fuel ih =>
    cases fuel' with
    | zero => omega
    | succ fuel' =>
      unfold splitWithin
      cases hnext : next buf with
      | none => rfl
      | some found =>
        have hrest := next_rest_length hnext
        have hih := ih (show found.2.length < fuel by omega) (show found.2.length < fuel' by omega)
        dsimp only
        rw [hih]

theorem split_of_none (h : next buf = none) : split buf = ([], buf) := by
  simp [split, splitWithin, h]

theorem split_of_some (h : next buf = some (e, rest)) :
    split buf = (e :: (split rest).1, (split rest).2) := by
  have hrest := next_rest_length h
  have hfuel : splitWithin buf.length rest = split rest := splitWithin_congr hrest (by omega)
  conv => lhs; unfold split splitWithin
  rw [h]
  dsimp only
  rw [hfuel]

theorem split_induct {motive : Bytes → Prop} (none : ∀ buf, next buf = none → motive buf)
    (some : ∀ buf e rest, next buf = some (e, rest) → motive rest → motive buf) (buf : Bytes) :
    motive buf := by
  induction hn : buf.length using Nat.strongRecOn generalizing buf with
  | _ n ih =>
    cases hnext : next buf with
    | none => exact none buf hnext
    | some found => exact some buf _ _ hnext (ih _ (hn ▸ next_rest_length hnext) _ rfl)

/-- Nothing is lost or read twice. -/
theorem split_join (buf : Bytes) : (split buf).1.flatMap encode ++ (split buf).2 = buf := by
  induction buf using split_induct with
  | none buf h => simp [split_of_none h]
  | some buf e rest h ih =>
    rw [split_of_some h, List.flatMap_cons, List.append_assoc, ih, ← next_eq_some h]

theorem split_encode (entries : List Entry) {tail : Bytes} (h : next tail = none) :
    split (entries.flatMap encode ++ tail) = (entries, tail) := by
  induction entries with
  | nil => exact split_of_none h
  | cons e entries ih =>
    rw [List.flatMap_cons, List.append_assoc, split_of_some (next_encode e _), ih]

theorem next_split_tail (buf : Bytes) : next (split buf).2 = none := by
  induction buf using split_induct with
  | none buf h => rw [split_of_none h, h]
  | some buf e rest h ih => rwa [split_of_some h]

/-- Without repeated tags the order does not decide which entry a tag stands for. -/
theorem find?_tag_perm {entries entries' : List Entry} (tag : Nat) (h : entries'.Perm entries)
    (hnodup : (entries.map Entry.tag).Nodup) :
    entries'.find? (fun e => e.tag = tag) = entries.find? (fun e => e.tag = tag) := by
  have hunique {l : List Entry} (hl : (l.map Entry.tag).Nodup) (e : Entry) :
      l.find? (fun e => e.tag = tag) = some e ↔ e ∈ l ∧ e.tag = tag := by
    constructor
    · intro hfind
      exact ⟨List.mem_of_find?_eq_some hfind, by simpa using List.find?_some hfind⟩
    · rintro ⟨hmem, htag⟩
      have hsome : (l.find? (fun e => e.tag = tag)).isSome :=
        List.find?_isSome.mpr ⟨e, hmem, decide_eq_true htag⟩
      obtain ⟨found, hfound⟩ := Option.isSome_iff_exists.mp hsome
      have hfoundTag : found.tag = e.tag := by simpa [htag] using List.find?_some hfound
      rw [hfound, List.inj_on_of_nodup_map hl (List.mem_of_find?_eq_some hfound) hmem hfoundTag]
  ext e
  rw [hunique hnodup, hunique ((h.map Entry.tag).nodup_iff.mpr hnodup), h.mem_iff]

end Entry

end KrabiTls.Lib
