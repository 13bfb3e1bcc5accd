import KrabiTls.Lib.Bytes

/-! The DER walker: one tag, length and value at the front of a byte string. -/
namespace KrabiTls
open Lib

variable {usizeBits : Nat}

structure Tlv where
  tag : UInt8
  headerLen : Nat
  body : Bytes
  rest : Bytes
  deriving DecidableEq, Repr

/-- The long-form length octets, folded in a `usize` of the given width: the shift drops high
bits. -/
def longFormLength (usizeBits : Nat) (octets : Bytes) : Nat :=
  octets.foldl (fun len b => len * 256 % 2 ^ usizeBits + b.toNat) 0

/-- The length field: the length of the header, and the length of the body. -/
def tlvLength (usizeBits : Nat) (lenFirst : UInt8) (afterLen : Bytes) : Option (Nat × Nat) :=
  if lenFirst &&& 0x80 = 0 then some (2, lenFirst.toNat)
  else
    let n := (lenFirst &&& 0x7F).toNat
    if n = 0 ∨ n > 4 then none
    else if afterLen.length < n then none
    else
      let len := longFormLength usizeBits (afterLen.take n)
      if len < 0x80 ∨ afterLen.headD 0 = 0 then none else some (2 + n, len)

/-- Decode one TLV at the start of `buf`. -/
def readTlv (usizeBits : Nat) (buf : Bytes) : Option Tlv :=
  match buf with
  | [] => none
  | tag :: afterTag =>
      if tag &&& 0x1F = 0x1F then none
      else
        match afterTag with
        | [] => none
        | lenFirst :: afterLen =>
            match tlvLength usizeBits lenFirst afterLen with
            | none => none
            | some (headerLen, bodyLen) =>
                let stop := headerLen + bodyLen
                if stop ≥ 2 ^ usizeBits ∨ buf.length < stop then none
                else some ⟨tag, headerLen, slice buf headerLen stop, buf.drop stop⟩

theorem readTlv_cons (usizeBits : Nat) (tag lenFirst : UInt8) (afterLen : Bytes) :
    readTlv usizeBits (tag :: lenFirst :: afterLen) =
      if tag &&& 0x1F = 0x1F then none
      else
        match tlvLength usizeBits lenFirst afterLen with
        | none => none
        | some (headerLen, bodyLen) =>
            let stop := headerLen + bodyLen
            if stop ≥ 2 ^ usizeBits ∨ afterLen.length + 2 < stop then none
            else some ⟨tag, headerLen, slice (tag :: lenFirst :: afterLen) headerLen stop,
              (tag :: lenFirst :: afterLen).drop stop⟩ := rfl

/-- The length field reads the octets it announces and no others. -/
theorem tlvLength_congr {headerLen bodyLen : Nat} {lenFirst : UInt8} {afterLen : Bytes}
    (h : tlvLength usizeBits lenFirst afterLen = some (headerLen, bodyLen)) :
    2 ≤ headerLen ∧ headerLen ≤ afterLen.length + 2 ∧
      ∀ after', after'.take (headerLen - 2) = afterLen.take (headerLen - 2) →
        tlvLength usizeBits lenFirst after' = some (headerLen, bodyLen) := by
  unfold tlvLength at h
  split at h
  · rename_i hshort
    cases h
    exact ⟨Nat.le_refl _, by omega, fun _ _ => if_pos hshort⟩
  · rename_i hlong
    dsimp only at h
    split at h
    · cases h
    · split at h
      · cases h
      · split at h
        · cases h
        · rename_i hcount hfits hminimal
          cases h
          refine ⟨by omega, by omega, ?_⟩
          intro after' htake
          rw [Nat.add_sub_cancel_left] at htake
          have hlen := congrArg List.length htake
          rw [List.length_take, List.length_take] at hlen
          have hhead : after'.headD 0 = afterLen.headD 0 := by
            have hget := congrArg (List.headD · 0) htake
            simp only [List.headD_eq_head?_getD, List.head?_take] at hget ⊢
            rwa [if_neg (by omega), if_neg (by omega)] at hget
          unfold tlvLength
          rw [if_neg hlong]
          dsimp only
          rw [if_neg hcount, if_neg (by omega), htake, hhead, if_neg hminimal]

theorem readTlv_parts {buf : Bytes} {t : Tlv} (h : readTlv usizeBits buf = some t) :
    ∃ lenFirst afterLen, buf = t.tag :: lenFirst :: afterLen ∧ t.tag &&& 0x1F ≠ 0x1F ∧
      tlvLength usizeBits lenFirst afterLen = some (t.headerLen, t.body.length) ∧
      t.headerLen + t.body.length < 2 ^ usizeBits ∧ t.headerLen + t.body.length ≤ buf.length ∧
      t.body = slice buf t.headerLen (t.headerLen + t.body.length) ∧
      t.rest = buf.drop (t.headerLen + t.body.length) := by
  match buf with
  | [] => cases h
  | [tag] =>
    simp only [readTlv] at h
    split at h <;> cases h
  | tag :: lenFirst :: afterLen =>
    rw [readTlv_cons] at h
    split at h
    · cases h
    · rename_i htag
      split at h
      · cases h
      · rename_i headerLen bodyLen hlength
        dsimp only at h
        split at h
        · cases h
        · rename_i hbound
          cases h
          have hbody : (slice (tag :: lenFirst :: afterLen) headerLen (headerLen + bodyLen)).length =
              bodyLen := by
            rw [slice_length_of_le (by simp only [List.length_cons]; omega), Nat.add_sub_cancel_left]
          refine ⟨lenFirst, afterLen, rfl, htag, ?_⟩
          dsimp only
          rw [hbody]
          exact ⟨hlength, by omega, by simp only [List.length_cons]; omega, rfl, rfl⟩

/-- A TLV begins with its tag; the bytes of header and body determine how it is read, whatever is
behind them. -/
theorem readTlv_eq_some {buf : Bytes} {t : Tlv} (h : readTlv usizeBits buf = some t) :
    buf.head? = some t.tag ∧ 2 ≤ t.headerLen ∧ t.headerLen + t.body.length ≤ buf.length ∧
      t.rest = buf.drop (t.headerLen + t.body.length) ∧
      ∀ rest, readTlv usizeBits (buf.take (t.headerLen + t.body.length) ++ rest) =
        some { t with rest } := by
  obtain ⟨lenFirst, afterLen, rfl, htag, hlength, hbound, hfits, hbody, hrest⟩ := readTlv_parts h
  obtain ⟨hmin, -, hcongr⟩ := tlvLength_congr hlength
  refine ⟨rfl, hmin, hfits, hrest, ?_⟩
  intro rest
  obtain ⟨k, hk⟩ : ∃ k, t.headerLen + t.body.length = k + 1 + 1 :=
    ⟨t.headerLen + t.body.length - 2, by omega⟩
  have hklen : k ≤ afterLen.length := by
    simp only [List.length_cons] at hfits
    omega
  have hcut : (t.tag :: lenFirst :: afterLen).take (t.headerLen + t.body.length) ++ rest =
      t.tag :: lenFirst :: (afterLen.take k ++ rest) := by
    rw [hk, List.take_succ_cons, List.take_succ_cons, List.cons_append, List.cons_append]
  have htake : (afterLen.take k ++ rest).take (t.headerLen - 2) =
      afterLen.take (t.headerLen - 2) := by
    rw [List.take_append_of_le_length (by rw [List.length_take]; omega), List.take_take,
      Nat.min_eq_left (by omega)]
  have hlen : (t.tag :: lenFirst :: afterLen.take k).length = t.headerLen + t.body.length := by
    simp only [List.length_cons, List.length_take]
    omega
  have hwhole : t.tag :: lenFirst :: (afterLen.take k ++ rest) =
      (t.tag :: lenFirst :: afterLen.take k) ++ rest := rfl
  have hslice : slice (t.tag :: lenFirst :: afterLen.take k) t.headerLen
      (t.headerLen + t.body.length) = t.body := by
    have hsplit : t.tag :: lenFirst :: afterLen =
        (t.tag :: lenFirst :: afterLen.take k) ++ afterLen.drop k := by
      rw [List.cons_append, List.cons_append, List.take_append_drop]
    rw [hsplit, slice_append_left (by omega)] at hbody
    exact hbody.symm
  rw [hcut, readTlv_cons, if_neg htag, hcongr _ htake]
  dsimp only
  rw [if_neg (by simp only [List.length_append, List.length_take]; omega), hwhole,
    slice_append_left (by omega), List.drop_left' hlen, hslice]

theorem readTlv_rest_length {buf : Bytes} {t : Tlv} (h : readTlv usizeBits buf = some t) :
    t.rest.length < buf.length := by
  obtain ⟨-, hheader, hfits, hrest, -⟩ := readTlv_eq_some h
  rw [hrest, List.length_drop]
  omega

def tagBoolean : UInt8 := 0x01
def tagInteger : UInt8 := 0x02
def tagBitString : UInt8 := 0x03
def tagOctetString : UInt8 := 0x04
def tagNull : UInt8 := 0x05
def tagOid : UInt8 := 0x06
def tagSequence : UInt8 := 0x30
def tagCtxConstructed (n : UInt8) : UInt8 := 0xA0 ||| (n &&& 0x1F)
def tagCtxPrimitive (n : UInt8) : UInt8 := 0x80 ||| (n &&& 0x1F)

namespace Sample

def derTlv (tag : UInt8) (body : Bytes) : Bytes :=
  if body.length < 128 then tag :: UInt8.ofNat body.length :: body
  else if body.length < 256 then tag :: 0x81 :: UInt8.ofNat body.length :: body
  else tag :: 0x82 :: toBe 2 body.length ++ body

end Sample

end KrabiTls
