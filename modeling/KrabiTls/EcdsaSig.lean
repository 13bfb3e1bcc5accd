import KrabiTls.ClientFlight
import KrabiTls.Lib.Decoding
import KrabiTls.Lib.Vec

/-! The two encodings of an ECDSA signature: a DER `SEQUENCE` of two integers on the wire, and the
halves side by side. -/
namespace KrabiTls.EcdsaSig
open Lib

variable {b v : Bytes} {curve : Curve}

inductive Curve where
  | p256
  | p384
  deriving DecidableEq, Repr

def Curve.elementBytes : Curve → Nat
  | .p256 => 32
  | .p384 => 48

/-- The length of a value, in one of the three forms that are known, and what is behind it. -/
def readLength (p : Bytes) : Option (Nat × Bytes) := do
  let (n, p) ← takeUint 1 p
  if n < 0x80 then some (n, p)
  else if n = 0x81 then do
    let (n, p) ← takeUint 1 p
    if 0x80 ≤ n then some (n, p) else none
  else if n = 0x82 then do
    let (n, p) ← takeUint 2 p
    if n < 0x100 then none else some (n, p)
  else none

def readTlv (p : Bytes) (tag : UInt8) : Option (Bytes × Bytes) := do
  let (found, p) ← takeBytes 1 p
  if found ≠ [tag] then none
  else do
    let (len, p) ← readLength p
    takeBytes len p

/-- A positive, minimally encoded DER integer, padded on the left to `width` bytes. -/
def intToPadded (v : Bytes) (width : Nat) : Option Bytes :=
  if v = [] ∨ v.headD 0 &&& 0x80 ≠ 0 then none
  else if v.length > 1 ∧ v.headD 0 = 0 ∧ v.getD 1 0 &&& 0x80 = 0 then none
  else
    let val := if v.length > 1 ∧ v.headD 0 = 0 then v.drop 1 else v
    if width < val.length then none
    else some (List.replicate (width - val.length) 0 ++ val)

/-- Decode `SEQUENCE { r, s }` into an output of `outLen` bytes: `r || s`. -/
def derSigToP1363 (der : Bytes) (eb outLen : Nat) : Option Bytes :=
  if outLen ≠ 2 * eb then none
  else do
    let (body, outer) ← readTlv der 0x30
    if outer ≠ [] then none
    else do
      let (r, body) ← readTlv body 0x02
      let (s, body) ← readTlv body 0x02
      if body ≠ [] then none
      else do
        let r ← intToPadded r eb
        let s ← intToPadded s (outLen - eb)
        pure (r ++ s)

/-- `while v.len() > 1 && v[0] == 0 { v = &v[1..] }`. -/
def stripZeros : Bytes → Bytes
  | 0 :: x :: rest => stripZeros (x :: rest)
  | v => v

variable {capacity : Nat}

/-- Append a big-endian scalar half as a minimal DER integer. -/
def derInt (bytes : Bytes) (out : Vec UInt8 capacity) : Option (Vec UInt8 capacity) := do
  let v := stripZeros bytes
  let pad := v.headD 0 &&& 0x80 ≠ 0
  let out ← out.push 0x02
  let out ← out.push (UInt8.ofNat (v.length + if pad then 1 else 0))
  let out ← if pad then out.push 0x00 else some out
  out.extend v

def derEcdsaSig (r s : Bytes) : Option (Vec UInt8 capacity) := do
  let body : Vec UInt8 capacity ← derInt r .empty
  let body ← derInt s body
  let out : Vec UInt8 capacity ← Vec.empty.push 0x30
  let out ← out.push (UInt8.ofNat body.val.length)
  out.extend body.val

/-! ### Integers -/

/-- The content of the DER integer of a magnitude: a leading byte of `0x80` and more would be read
as a sign. -/
def signed (val : Bytes) : Bytes := if val.headD 0 &&& 0x80 ≠ 0 then 0 :: val else val

/-- No zero in front, except for zero itself. -/
structure Minimal (val : Bytes) : Prop where
  nonempty : val ≠ []
  head : 1 < val.length → val.headD 0 ≠ 0

theorem headD_ne_zero_of_high {val : Bytes} (h : val.headD 0 &&& 0x80 ≠ 0) : val.headD 0 ≠ 0 := by
  intro hzero
  rw [hzero] at h
  exact h rfl

/-- The integers accepted are those of magnitudes that fit, without a zero in front. -/
theorem intToPadded_eq_some_iff {width : Nat} :
    intToPadded v width = some b ↔ ∃ val, Minimal val ∧ val.length ≤ width ∧ v = signed val ∧
      b = List.replicate (width - val.length) 0 ++ val := by
  constructor
  · intro h
    unfold intToPadded at h
    split at h
    · cases h
    · rename_i hsign
      obtain ⟨hne, hlow⟩ := not_or.mp hsign
      rw [ne_eq, not_not] at hlow
      split at h
      · cases h
      · rename_i hredundant
        dsimp only at h
        by_cases hzero : v.length > 1 ∧ v.headD 0 = 0
        · -- the zero in front clears the sign of the byte behind it
          rw [if_pos hzero, Option.ite_none_left_eq_some, Option.some.injEq] at h
          match v with
          | x :: y :: rest =>
            obtain rfl : x = 0 := hzero.2
            have hhigh : y &&& 0x80 ≠ 0 := fun hy => hredundant ⟨hzero.1, rfl, hy⟩
            refine ⟨y :: rest, ⟨List.cons_ne_nil _ _, fun _ => headD_ne_zero_of_high hhigh⟩,
              Nat.le_of_not_lt h.1, (if_pos hhigh).symm, h.2.symm⟩
        · rw [if_neg hzero, Option.ite_none_left_eq_some, Option.some.injEq] at h
          exact ⟨v, ⟨hne, fun hlen hhead => hzero ⟨hlen, hhead⟩⟩, Nat.le_of_not_lt h.1,
            (if_neg (not_not_intro hlow)).symm, h.2.symm⟩
  · rintro ⟨val, hval, hfits, rfl, rfl⟩
    obtain ⟨x, rest, rfl⟩ := List.exists_cons_of_ne_nil hval.nonempty
    by_cases hhigh : (x :: rest).headD 0 &&& 0x80 ≠ 0
    · have hlong : (0 :: x :: rest).length > 1 ∧ (0 :: x :: rest).headD 0 = 0 := ⟨by simp, rfl⟩
      rw [signed, if_pos hhigh, intToPadded, if_neg (by simp), if_neg (by simpa using hhigh)]
      dsimp only
      rw [if_pos hlong, List.drop_one, List.tail_cons, if_neg (Nat.not_lt.mpr hfits)]
    · have hshort : ¬((x :: rest).length > 1 ∧ (x :: rest).headD 0 = 0) :=
        fun h => hval.head h.1 h.2
      rw [signed, if_neg hhigh, intToPadded, if_neg (by simpa using hhigh),
        if_neg (fun h => hval.head h.1 h.2.1)]
      dsimp only
      rw [if_neg hshort, if_neg (Nat.not_lt.mpr hfits)]

theorem stripZeros_eq (b : Bytes) : ∃ k, b = List.replicate k 0 ++ stripZeros b := by
  fun_induction stripZeros b with
  | case1 x rest ih =>
    obtain ⟨k, hk⟩ := ih
    exact ⟨k + 1, by rw [List.replicate_succ, List.cons_append, ← hk]⟩
  | case2 v => exact ⟨0, rfl⟩

theorem stripZeros_ne_nil (h : b ≠ []) : stripZeros b ≠ [] := by
  fun_induction stripZeros b with
  | case1 x rest ih => exact ih (List.cons_ne_nil _ _)
  | case2 v => exact h

theorem stripZeros_minimal (h : b ≠ []) : Minimal (stripZeros b) := by
  refine ⟨stripZeros_ne_nil h, ?_⟩
  fun_induction stripZeros b with
  | case1 x rest ih => exact ih (List.cons_ne_nil _ _)
  | case2 v hv =>
    intro hlen hzero
    match v with
    | [] => simp at hlen
    | [x] => simp at hlen
    | x :: y :: rest => exact hv y rest (by rw [show x = 0 from hzero])

theorem Minimal.stripZeros_replicate (h : Minimal v) (k : Nat) :
    stripZeros (List.replicate k 0 ++ v) = v := by
  induction k with
  | zero =>
    show stripZeros v = v
    fun_cases stripZeros v with
    | case1 x rest => exact absurd rfl (h.head (by simp))
    | case2 => rfl
  | succ k ih =>
    obtain ⟨x, rest, hrest⟩ := List.exists_cons_of_ne_nil
      (show List.replicate k 0 ++ v ≠ [] from List.append_ne_nil_of_right_ne_nil _ h.nonempty)
    rw [List.replicate_succ, List.cons_append, hrest, stripZeros, ← hrest, ih]

/-- A string of bytes is what an integer is padded to exactly if it is the integer's magnitude. -/
theorem intToPadded_iff {width : Nat} (hwidth : 0 < width) :
    intToPadded v width = some b ↔ b.length = width ∧ v = signed (stripZeros b) := by
  rw [intToPadded_eq_some_iff]
  constructor
  · rintro ⟨val, hval, hfits, rfl, rfl⟩
    refine ⟨by rw [List.length_append, List.length_replicate]; omega, ?_⟩
    rw [hval.stripZeros_replicate]
  · rintro ⟨hlen, rfl⟩
    obtain ⟨k, hk⟩ := stripZeros_eq b
    have hlength : b.length = k + (stripZeros b).length := by
      conv_lhs => rw [hk]
      rw [List.length_append, List.length_replicate]
    refine ⟨stripZeros b, stripZeros_minimal (List.ne_nil_of_length_pos (by omega)), by omega, rfl, ?_⟩
    rw [← hlen, hlength, Nat.add_sub_cancel]
    exact hk

/-! ### Values -/

/-- A value behind its tag and its length in one byte. -/
def element (tag : UInt8) (v : Bytes) : Bytes := tag :: UInt8.ofNat v.length :: v

theorem element_length (tag : UInt8) (v : Bytes) : (element tag v).length = v.length + 2 := rfl

theorem element_append (tag : UInt8) (v rest : Bytes) :
    element tag v ++ rest = [tag] ++ (toBe 1 v.length ++ (v ++ rest)) := rfl

theorem readLength_iff {p rest : Bytes} {n : Nat} (h : n < 0x80) :
    readLength p = some (n, rest) ↔ p = toBe 1 n ++ rest := by
  constructor
  · intro hread
    obtain ⟨⟨first, p'⟩, hfirst, hread⟩ := Option.bind_eq_some_iff.mp hread
    dsimp only at hread
    split at hread
    · cases hread
      exact (takeUint_eq_some_iff.mp hfirst).2
    · -- the long forms are for lengths from 0x80 on only
      split at hread
      · obtain ⟨⟨m, p''⟩, -, hread⟩ := Option.bind_eq_some_iff.mp hread
        obtain ⟨hm, heq⟩ := Option.ite_none_right_eq_some.mp hread
        cases heq
        omega
      · split at hread
        · obtain ⟨⟨m, p''⟩, -, hread⟩ := Option.bind_eq_some_iff.mp hread
          obtain ⟨hm, heq⟩ := Option.ite_none_left_eq_some.mp hread
          cases heq
          omega
        · cases hread
  · rintro rfl
    rw [readLength, takeUint_append rest (by omega)]
    exact if_pos h

theorem readTlv_iff {p rest : Bytes} {tag : UInt8} (h : v.length < 0x80) :
    readTlv p tag = some (v, rest) ↔ p = element tag v ++ rest := by
  constructor
  · intro htlv
    obtain ⟨⟨found, p'⟩, hfound, hread⟩ := Option.bind_eq_some_iff.mp htlv
    obtain ⟨htag, hread⟩ := Option.ite_none_left_eq_some.mp hread
    obtain ⟨-, rfl⟩ := takeBytes_eq_some_iff.mp hfound
    obtain ⟨⟨len, p''⟩, hlen, hv⟩ := Option.bind_eq_some_iff.mp hread
    obtain ⟨rfl, rfl⟩ := takeBytes_eq_some_iff.mp hv
    obtain rfl := (readLength_iff h).mp hlen
    rw [not_not.mp htag, element_append]
  · rintro rfl
    rw [readTlv, element_append, takeBytes_append (n := 1) _ rfl]
    dsimp only [Option.bind_eq_bind, Option.bind_some]
    rw [if_neg (not_not_intro rfl), (readLength_iff h).mpr rfl]
    exact takeBytes_append rest rfl

/-- `r` and `s` as DER integers. -/
def integer (b : Bytes) : Bytes := element 0x02 (signed (stripZeros b))

theorem derInt_eq (bytes : Bytes) (out : Vec UInt8 capacity) :
    derInt bytes out = Vec.ofList? (out.val ++ integer bytes) := by
  unfold derInt integer signed
  dsimp only
  generalize stripZeros bytes = v
  refine Vec.ofList?_bind (by simp [element_length]) fun tagged htagged => ?_
  refine Vec.ofList?_bind (by simp [element_length, htagged]) fun counted hcounted => ?_
  by_cases hpad : v.headD 0 &&& 0x80 ≠ 0
  · rw [if_pos hpad] at hcounted
    rw [if_pos hpad, if_pos hpad]
    refine Vec.ofList?_bind (by simp [element_length, htagged, hcounted]) fun cleared hcleared => ?_
    rw [Vec.extend, hcleared, hcounted, htagged]
    simp only [List.append_assoc, List.singleton_append]
    rfl
  · rw [if_neg hpad] at hcounted
    rw [if_neg hpad, if_neg hpad]
    show Vec.extend counted v = _
    rw [Vec.extend, hcounted, htagged]
    simp only [List.append_assoc, List.singleton_append]
    rfl

theorem derEcdsaSig_eq (r s : Bytes) :
    (derEcdsaSig r s : Option (Vec UInt8 capacity)) =
      Vec.ofList? (element 0x30 (integer r ++ integer s)) := by
  unfold derEcdsaSig
  rw [derInt_eq]
  refine Vec.ofList?_bind (by simp [element_length]; omega) fun first hfirst => ?_
  rw [derInt_eq, hfirst]
  refine Vec.ofList?_bind (by simp [element_length]) fun body hbody => ?_
  refine Vec.ofList?_bind (by simp [element_length]) fun tagged htagged => ?_
  refine Vec.ofList?_bind (by simp [element_length, htagged]) fun counted hcounted => ?_
  rw [Vec.extend, hcounted, htagged, hbody]
  rfl

/-! ### Signatures -/

/-- The DER text of the signature with the halves `r` and `s`. -/
def signature (r s : Bytes) : Bytes := element 0x30 (integer r ++ integer s)

theorem stripZeros_length_le (b : Bytes) : (stripZeros b).length ≤ b.length := by
  obtain ⟨k, hk⟩ := stripZeros_eq b
  conv_rhs => rw [hk]
  rw [List.length_append]
  exact Nat.le_add_left _ _

theorem signed_stripZeros_length_le (b : Bytes) :
    (signed (stripZeros b)).length ≤ b.length + 1 := by
  have hstrip := stripZeros_length_le b
  unfold signed
  split
  · exact Nat.succ_le_succ hstrip
  · exact Nat.le_succ_of_le hstrip

theorem Curve.elementBytes_le (curve : Curve) : curve.elementBytes ≤ 48 := by
  cases curve <;> decide

theorem Curve.elementBytes_pos (curve : Curve) : 0 < curve.elementBytes := by
  cases curve <;> decide

theorem signed_stripZeros_short (h : b.length = curve.elementBytes) :
    (signed (stripZeros b)).length ≤ 49 := by
  have hlen := signed_stripZeros_length_le b
  have heb := curve.elementBytes_le
  omega

theorem integers_length_le {r s : Bytes} (hr : r.length = curve.elementBytes)
    (hs : s.length = curve.elementBytes) : (integer r ++ integer s).length ≤ 102 := by
  have hrshort := signed_stripZeros_short hr
  have hsshort := signed_stripZeros_short hs
  rw [List.length_append, integer, integer, element_length, element_length]
  omega

/-- What the decoder accepts are the texts of the signatures. -/
theorem derSigToP1363_iff {der rs : Bytes} :
    derSigToP1363 der curve.elementBytes (2 * curve.elementBytes) = some rs ↔
      ∃ r s : Block curve.elementBytes, der = signature r.val s.val ∧ rs = r.val ++ s.val := by
  have hpos := curve.elementBytes_pos
  have hhalf : 2 * curve.elementBytes - curve.elementBytes = curve.elementBytes := by omega
  rw [derSigToP1363, if_neg (not_not_intro rfl), hhalf]
  constructor
  · intro h
    obtain ⟨⟨body, outer⟩, hbody, h⟩ := Option.bind_eq_some_iff.mp h
    obtain ⟨houter, h⟩ := Option.ite_none_left_eq_some.mp h
    obtain ⟨⟨v, body'⟩, hv, h⟩ := Option.bind_eq_some_iff.mp h
    obtain ⟨⟨w, body''⟩, hw, h⟩ := Option.bind_eq_some_iff.mp h
    obtain ⟨hend, h⟩ := Option.ite_none_left_eq_some.mp h
    obtain ⟨r, hr, h⟩ := Option.bind_eq_some_iff.mp h
    obtain ⟨s, hs, h⟩ := Option.bind_eq_some_iff.mp h
    cases h
    obtain ⟨hrlen, rfl⟩ := (intToPadded_iff hpos).mp hr
    obtain ⟨hslen, rfl⟩ := (intToPadded_iff hpos).mp hs
    have hrshort := signed_stripZeros_short hrlen
    have hsshort := signed_stripZeros_short hslen
    have hbodylen := integers_length_le hrlen hslen
    rw [not_not] at houter hend
    subst houter hend
    -- the halves are short, so that the lengths of all three values are in the one-byte form
    obtain rfl := (readTlv_iff (by omega)).mp hw
    obtain rfl := (readTlv_iff (by omega)).mp hv
    rw [List.append_nil] at hbody
    obtain rfl := (readTlv_iff (Nat.lt_of_le_of_lt hbodylen (by decide))).mp hbody
    exact ⟨⟨r, hrlen⟩, ⟨s, hslen⟩, List.append_nil _, rfl⟩
  · rintro ⟨r, s, rfl, rfl⟩
    have hrshort := signed_stripZeros_short r.property
    have hsshort := signed_stripZeros_short s.property
    have hbodylen := integers_length_le r.property s.property
    have hbody : readTlv (signature r.val s.val) 0x30 = some (integer r.val ++ integer s.val, []) :=
      (readTlv_iff (Nat.lt_of_le_of_lt hbodylen (by decide))).mpr (List.append_nil _).symm
    have hv : readTlv (integer r.val ++ integer s.val) 0x02 =
        some (signed (stripZeros r.val), integer s.val) :=
      (readTlv_iff (by omega)).mpr rfl
    have hw : readTlv (integer s.val) 0x02 = some (signed (stripZeros s.val), []) :=
      (readTlv_iff (by omega)).mpr (List.append_nil _).symm
    simp [hbody, hv, hw, (intToPadded_iff hpos).mpr ⟨r.property, rfl⟩,
      (intToPadded_iff hpos).mpr ⟨s.property, rfl⟩]

theorem exists_derEcdsaSig (f : Features) (r s : Block curve.elementBytes) :
    ∃ sig : Vec UInt8 f.maxClientSigLen,
      derEcdsaSig r.val s.val = some sig ∧ sig.val = signature r.val s.val := by
  have hfits : (signature r.val s.val).length ≤ f.maxClientSigLen := by
    have hbody := integers_length_le r.property s.property
    have hroom := f.le_maxClientSigLen
    rw [signature, element_length]
    omega
  refine ⟨⟨signature r.val s.val, hfits⟩, ?_, rfl⟩
  rw [derEcdsaSig_eq]
  exact Vec.ofList?_eq_some.mpr rfl

/-- Writing and reading ECDSA signatures are inverse to each other: every pair of halves comes back,
and every text that is read is the one that is written for its halves. -/
theorem derSigToP1363_bijective (f : Features) (curve : Curve) :
    let eb := curve.elementBytes
    let decode := fun der => derSigToP1363 der eb (2 * eb)
    let encode := fun r s : Bytes => (derEcdsaSig r s : Option (Vec UInt8 f.maxClientSigLen))
    (∀ r s : Block eb, ∃ sig, encode r.val s.val = some sig ∧ decode sig.val = some (r.val ++ s.val)) ∧
    (∀ der rs, decode der = some rs → ∃ (r s : Block eb) (sig : _), rs = r.val ++ s.val ∧
      encode r.val s.val = some sig ∧ sig.val = der) ∧
    (∀ der der' rs, decode der = some rs → decode der' = some rs → der = der') := by
  intro eb decode encode
  refine ⟨fun r s => ?_, fun der rs h => ?_, fun der der' rs h h' => ?_⟩
  · obtain ⟨sig, hsig, hval⟩ := exists_derEcdsaSig f r s
    exact ⟨sig, hsig, derSigToP1363_iff.mpr ⟨r, s, hval, rfl⟩⟩
  · obtain ⟨r, s, rfl, rfl⟩ := derSigToP1363_iff.mp h
    obtain ⟨sig, hsig, hval⟩ := exists_derEcdsaSig f r s
    exact ⟨r, s, sig, rfl, hsig, hval⟩
  · obtain ⟨r, s, rfl, rfl⟩ := derSigToP1363_iff.mp h
    obtain ⟨r', s', rfl, hrs⟩ := derSigToP1363_iff.mp h'
    obtain ⟨hr, hs⟩ := List.append_inj hrs (r.property.trans r'.property.symm)
    rw [hr, hs]

end KrabiTls.EcdsaSig
