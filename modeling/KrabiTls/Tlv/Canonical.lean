import KrabiTls.Features
import KrabiTls.Lib.Prefixed
import KrabiTls.Tlv

/-! What the DER walker accepts: canonical DER, except that on a 16-bit target a length of three or
four octets loses its high bits. -/
namespace KrabiTls
open Lib

variable {usizeBits : Nat} {first : UInt8}

/-- `buf` begins with `t`, encoded as DER prescribes. -/
structure Tlv.IsDer (t : Tlv) (buf : Bytes) : Prop where
  lowTag : t.tag &&& 0x1F ≠ 0x1F
  bytes : buf = t.tag :: (derLength t.body.length ++ (t.body ++ t.rest))
  headerLen : t.headerLen = 1 + (derLength t.body.length).length

/-- The octets of a long-form length behind the first one, as the walker takes them. -/
structure LengthOctets (first : UInt8) (octets : Bytes) : Prop where
  count : first.toNat = 0x80 + octets.length
  nonempty : octets ≠ []
  few : octets.length ≤ 4
  minimal : octets.head? ≠ some 0

theorem longFormLength_eq (hw : 8 ≤ usizeBits) (octets : Bytes) :
    longFormLength usizeBits octets = ofBe octets % 2 ^ usizeBits := by
  obtain ⟨k, rfl⟩ := Nat.exists_eq_add_of_le hw
  rw [Nat.pow_add, show 2 ^ 8 = 256 from rfl]
  induction octets using List.reverseRecOn with
  | nil => simp [longFormLength, ofBe]
  | append_singleton octets b ih =>
    have hb := b.toNat_lt
    have hfold : longFormLength (8 + k) (octets ++ [b]) =
        longFormLength (8 + k) octets * 256 % 2 ^ (8 + k) + b.toNat := by
      simp [longFormLength]
    rw [hfold, ih, ofBe_append_singleton, Nat.pow_add, show 2 ^ 8 = 256 from rfl, Nat.mod_mul_mod,
      Nat.mul_comm (ofBe octets) 256, Nat.mul_mod_mul_left, Nat.mod_mul]
    have hdiv : (256 * ofBe octets + b.toNat) / 256 = ofBe octets := by omega
    rw [hdiv]
    omega

theorem long_count (first : UInt8) : (first &&& 0x7F).toNat = first.toNat % 0x80 := by
  rw [UInt8.toNat_and]
  exact Nat.and_two_pow_sub_one_eq_mod _ 7

theorem tlvLength_eq_some_iff {headerLen bodyLen : Nat} {after : Bytes} (hw : 8 ≤ usizeBits) :
    tlvLength usizeBits first after = some (headerLen, bodyLen) ↔
      first.toNat < 0x80 ∧ headerLen = 2 ∧ bodyLen = first.toNat ∨
      ∃ octets rest, after = octets ++ rest ∧ LengthOctets first octets ∧
        headerLen = 2 + octets.length ∧ bodyLen = ofBe octets % 2 ^ usizeBits ∧ 0x80 ≤ bodyLen := by
  have hfirst := first.toNat_lt
  constructor
  · intro h
    simp only [tlvLength, highBit_eq_zero_iff, long_count, longFormLength_eq hw] at h
    split at h
    · rename_i hshort
      cases h
      exact .inl ⟨hshort, rfl, rfl⟩
    · split at h
      · cases h
      · split at h
        · cases h
        · split at h
          · cases h
          · rename_i hlong hcount hfits hminimal
            cases h
            have hlen : (after.take (first.toNat % 0x80)).length = first.toNat % 0x80 :=
              List.length_take_of_le (by omega)
            refine .inr ⟨after.take (first.toNat % 0x80), after.drop (first.toNat % 0x80),
              (List.take_append_drop _ _).symm, ⟨by omega, ?_, by omega, ?_⟩, by omega, rfl, by omega⟩
            · exact List.ne_nil_of_length_pos (by omega)
            · rw [List.head?_take, if_neg (by omega)]
              intro hzero
              exact hminimal (.inr (by simp [List.headD_eq_head?_getD, hzero]))
  · rintro (⟨hshort, rfl, rfl⟩ | ⟨octets, rest, rfl, hoctets, rfl, rfl, hmin⟩)
    · rw [tlvLength, if_pos ((highBit_eq_zero_iff first).mpr hshort)]
    · have hcount := hoctets.count
      have hfew := hoctets.few
      have hpos := List.length_pos_iff.mpr hoctets.nonempty
      have hn : (first &&& 0x7F).toNat = octets.length := by
        rw [long_count]
        omega
      have hhead : (octets ++ rest).headD 0 ≠ 0 := by
        cases octets with
        | nil => exact absurd rfl hoctets.nonempty
        | cons b octets => exact fun hzero => hoctets.minimal (congrArg some hzero)
      rw [tlvLength, if_neg (by rw [highBit_eq_zero_iff]; omega)]
      dsimp only
      rw [hn, if_neg (by omega), if_neg (by rw [List.length_append]; omega), List.take_left,
        longFormLength_eq hw, if_neg (not_or.mpr ⟨by omega, hhead⟩)]

/-- What the walker reads: a low tag, and a length in short form or in octets of which it keeps what
fits a `usize`. -/
theorem readTlv_eq_some_iff {buf : Bytes} {t : Tlv} (hw : 8 ≤ usizeBits) :
    readTlv usizeBits buf = some t ↔
      ∃ first octets, buf = t.tag :: first :: (octets ++ (t.body ++ t.rest)) ∧
        t.headerLen = 2 + octets.length ∧ t.tag &&& 0x1F ≠ 0x1F ∧
        t.headerLen + t.body.length < 2 ^ usizeBits ∧
        (octets = [] ∧ first.toNat = t.body.length ∧ t.body.length < 0x80 ∨
          LengthOctets first octets ∧ t.body.length = ofBe octets % 2 ^ usizeBits ∧
            0x80 ≤ t.body.length) := by
  constructor
  · intro h
    obtain ⟨first, after, rfl, htag, hlength, hbound, -, hbody, hrest⟩ := readTlv_parts h
    have hafter : (t.tag :: first :: after).drop t.headerLen = t.body ++ t.rest := by
      calc (t.tag :: first :: after).drop t.headerLen
          = slice (t.tag :: first :: after) t.headerLen (t.headerLen + t.body.length) ++
              (t.tag :: first :: after).drop (t.headerLen + t.body.length) := by
            rw [slice, Nat.add_sub_cancel_left, ← List.drop_drop, List.take_append_drop]
        _ = t.body ++ t.rest := by rw [← hbody, ← hrest]
    rcases (tlvLength_eq_some_iff hw).mp hlength with
      ⟨hshort, hheader, hlen⟩ | ⟨octets, rest, rfl, hoctets, hheader, hlen, hmin⟩
    · rw [hheader] at hafter
      exact ⟨first, [], by rw [List.nil_append, ← hafter]; rfl, hheader, htag, hbound,
        .inl ⟨rfl, hlen.symm, hlen ▸ hshort⟩⟩
    · rw [hheader, Nat.add_comm 2, List.drop_succ_cons, List.drop_succ_cons, List.drop_left] at hafter
      exact ⟨first, octets, by rw [hafter], hheader, htag, hbound, .inr ⟨hoctets, hlen, hmin⟩⟩
  · rintro ⟨first, octets, rfl, hheader, htag, hbound, hlength⟩
    have htlv : tlvLength usizeBits first (octets ++ (t.body ++ t.rest)) =
        some (t.headerLen, t.body.length) := by
      rw [tlvLength_eq_some_iff hw]
      rcases hlength with ⟨rfl, hfirst, hshort⟩ | ⟨hoctets, hlen, hmin⟩
      · exact .inl ⟨by omega, hheader, hfirst.symm⟩
      · exact .inr ⟨octets, _, rfl, hoctets, hheader, hlen, hmin⟩
    have hwhole : t.tag :: first :: (octets ++ (t.body ++ t.rest)) =
        (t.tag :: first :: octets) ++ (t.body ++ t.rest) := rfl
    have hfront : (t.tag :: first :: octets).length = t.headerLen := by
      simp only [List.length_cons]
      omega
    rw [readTlv_cons, if_neg htag, htlv]
    dsimp only
    rw [if_neg (by simp only [List.length_append]; omega), hwhole, slice, ← List.drop_drop,
      List.drop_left' hfront, Nat.add_sub_cancel_left, List.take_left, List.drop_left]

/-- The length that `buf` announces in long form is kept: it fits a `usize`, or what is left of it
is refused as too short for its form or as more than there is. -/
def KeepsLength (usizeBits : Nat) (buf : Bytes) : Prop :=
  ∀ tag first octets rest, buf = tag :: first :: (octets ++ rest) → tag &&& 0x1F ≠ 0x1F →
    LengthOctets first octets →
    ofBe octets < 2 ^ usizeBits ∨ ofBe octets % 2 ^ usizeBits < 0x80 ∨
      min buf.length (2 ^ usizeBits - 1) < 2 + octets.length + ofBe octets % 2 ^ usizeBits

theorem Tlv.isDer_of_short {t : Tlv} (htag : t.tag &&& 0x1F ≠ 0x1F) (hheader : t.headerLen = 2)
    (hfirst : first.toNat = t.body.length) (hshort : t.body.length < 0x80) :
    t.IsDer (t.tag :: first :: (t.body ++ t.rest)) := by
  have hlength : derLength t.body.length = [first] := by
    rw [derLength, if_pos hshort, ← hfirst, UInt8.ofNat_toNat]
  exact ⟨htag, by rw [hlength]; rfl, by rw [hlength, hheader]; rfl⟩

theorem Tlv.isDer_of_octets {t : Tlv} {octets : Bytes} (htag : t.tag &&& 0x1F ≠ 0x1F)
    (hheader : t.headerLen = 2 + octets.length) (hoctets : LengthOctets first octets)
    (hlen : t.body.length = ofBe octets) (hmin : 0x80 ≤ t.body.length) :
    t.IsDer (t.tag :: first :: (octets ++ (t.body ++ t.rest))) := by
  have hlength : derLength t.body.length = first :: octets := by
    rw [derLength, if_neg (by omega), hlen, minBytes_ofBe hoctets.minimal, ← hoctets.count,
      UInt8.ofNat_toNat]
  exact ⟨htag, by rw [hlength]; rfl, by rw [hlength, hheader, List.length_cons]; omega⟩

/-- The walker decodes canonical DER exactly where the announced length is kept. -/
theorem readTlv_isDer_iff (f : Features) (buf : Bytes) :
    (∀ t, readTlv f.usizeBits buf = some t → t.IsDer buf) ↔ KeepsLength f.usizeBits buf := by
  have hw : 8 ≤ f.usizeBits := by
    rcases f.usizeBits_mem with h | h | h <;> omega
  constructor
  · intro hder tag first octets rest hbuf htag hoctets
    by_contra hkeeps
    push Not at hkeeps
    obtain ⟨hlarge, hmin, hfits⟩ := hkeeps
    have hlen : buf.length = 2 + octets.length + rest.length := by
      rw [hbuf]
      simp only [List.length_cons, List.length_append]
      omega
    generalize hkept : ofBe octets % 2 ^ f.usizeBits = kept at *
    have hbody : (rest.take kept).length = kept := List.length_take_of_le (by omega)
    have hread : readTlv f.usizeBits buf =
        some ⟨tag, 2 + octets.length, rest.take kept, rest.drop kept⟩ := by
      rw [readTlv_eq_some_iff hw]
      refine ⟨first, octets, by rw [List.take_append_drop]; exact hbuf, rfl, htag, ?_,
        .inr ⟨hoctets, by rw [hbody, hkept], by rw [hbody]; exact hmin⟩⟩
      have := Nat.two_pow_pos f.usizeBits
      dsimp only
      omega
    have hisDer := hder _ hread
    -- the header has the canonical length, so the octets are those of the shorter body
    have hheader := hisDer.headerLen
    have hbytes := hisDer.bytes
    simp only [hbody, derLength, if_neg (Nat.not_lt.mpr hmin), List.length_cons,
      List.take_append_drop] at hheader hbytes
    rw [hbuf] at hbytes
    simp only [List.cons_append, List.cons.injEq, true_and] at hbytes
    have hsame := (List.append_inj hbytes.2 (by omega)).1
    have hvalue := ofBe_minBytes kept
    rw [← hsame] at hvalue
    have := Nat.mod_lt (ofBe octets) (Nat.two_pow_pos f.usizeBits)
    omega
  · intro hkeeps t ht
    obtain ⟨first, octets, rfl, hheader, htag, hbound, hlength⟩ := (readTlv_eq_some_iff hw).mp ht
    rcases hlength with ⟨rfl, hfirst, hshort⟩ | ⟨hoctets, hlen, hmin⟩
    · exact Tlv.isDer_of_short htag hheader hfirst hshort
    · refine Tlv.isDer_of_octets htag hheader hoctets ?_ hmin
      rcases hkeeps _ _ _ _ rfl htag hoctets with hfits | hrefused | hrefused
      · rw [hlen, Nat.mod_eq_of_lt hfits]
      · omega
      · simp only [List.length_cons, List.length_append] at hrefused
        omega

namespace Sample

/-- A value with a length of three octets, 65664, of which a 16-bit `usize` keeps 128. -/
def cutLength : Bytes := 0x04 :: 0x83 :: 0x01 :: 0x00 :: 0x80 :: List.replicate 128 0xAB

end Sample

theorem readTlv_cutLength :
    readTlv 16 Sample.cutLength = some ⟨0x04, 5, List.replicate 128 0xAB, []⟩ ∧
      ¬ ∀ t, readTlv 16 Sample.cutLength = some t → t.IsDer Sample.cutLength := by
  have hread : readTlv 16 Sample.cutLength = some ⟨0x04, 5, List.replicate 128 0xAB, []⟩ := by
    decide +kernel
  refine ⟨hread, fun hder => ?_⟩
  have hheader := (hder _ hread).headerLen
  simp [derLength, minBytes] at hheader

end KrabiTls
