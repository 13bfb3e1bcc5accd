import KrabiTls.Hkdf
import KrabiTls.Lib.Decoding
import KrabiTls.Lib.Except
import KrabiTls.Lib.Vec

/-! The `HkdfLabel` that a derivation passes to the backend: how it is pushed together, and what it
determines. -/
namespace KrabiTls
open Lib

/-- `push_bytes`, which leaves what fitted in the vector when it fails. -/
def pushBytes {n : Nat} (bytes : Bytes) : PushM UInt8 n Unit := PushM.pushAll bytes

/-- The pushes of `hkdf_expand_label_prefixed`. -/
def pushHkdfLabel (labelPrefix label context : Bytes) (len : Nat) :
    PushM UInt8 hkdfLabelMax Unit := do
  pushBytes (toBe 2 len)
  pushBytes (toBe 1 (labelPrefix.length + label.length))
  pushBytes labelPrefix
  pushBytes label
  pushBytes (toBe 1 context.length)
  pushBytes context

/-- The `info` as the pushes leave it; one that is cut off does not get past them. -/
def encodeHkdfLabel (labelPrefix label context : Bytes) (len : Nat) :
    Except HkdfLabelError (Vec UInt8 hkdfLabelMax) :=
  match (pushHkdfLabel labelPrefix label context len).exec Vec.empty with
  | (.ok (), info) => .ok info
  | (.error _, _) => .error .encodedTooLong

/-- What `hkdf_expand_label_prefixed` does before it calls `expand`: the `info` of that call. -/
def hkdfLabelInfo (labelPrefix label context : Bytes) (len : Nat) :
    Except HkdfLabelError (Vec UInt8 hkdfLabelMax) := do
  ensure (len ≤ 0xFFFF) .outputTooLong
  ensure (labelPrefix.length + label.length ≤ 0xFF) .labelTooLong
  ensure (context.length ≤ 0xFF) .contextTooLong
  encodeHkdfLabel labelPrefix label context len

/-- The `HkdfLabel` structure: the output length, then the full label and the context, each behind
its own length. -/
def hkdfLabel (labelPrefix label context : Bytes) (len : Nat) : Bytes :=
  toBe 2 len ++ (prefixed 1 (labelPrefix ++ label) ++ prefixed 1 context)

/-- The output length, the full label and the context of an `HkdfLabel`. -/
def readHkdfLabel (info : Bytes) : Option (Nat × Bytes × Bytes) := do
  let (len, rest) ← takeUint 2 info
  let (fullLabel, rest) ← takePrefixed 1 rest
  let context ← whole (takePrefixed 1) rest
  pure (len, fullLabel, context)

section Info
variable {labelPrefix label context : Bytes} {len : Nat} {info : Vec UInt8 hkdfLabelMax}

theorem hkdfLabel_length : (hkdfLabel labelPrefix label context len).length =
    4 + labelPrefix.length + label.length + context.length := by
  simp only [hkdfLabel, List.length_append, toBe_length, prefixed_length]
  omega

theorem hkdfLabel_eq : hkdfLabel labelPrefix label context len =
    toBe 2 len ++ toBe 1 (labelPrefix.length + label.length) ++ labelPrefix ++ label ++
      toBe 1 context.length ++ context := by
  simp only [hkdfLabel, prefixed, List.length_append, List.append_assoc]

theorem pushHkdfLabel_eq :
    pushHkdfLabel labelPrefix label context len =
      pushBytes (hkdfLabel labelPrefix label context len) := by
  simp only [pushHkdfLabel, pushBytes, PushM.pushAll_append, hkdfLabel_eq, List.append_assoc]

/-- The pushes make the whole structure or fail. -/
theorem encodeHkdfLabel_eq :
    encodeHkdfLabel labelPrefix label context len =
      match Vec.ofList? (hkdfLabel labelPrefix label context len) with
      | some info => .ok info
      | none => .error .encodedTooLong := by
  unfold encodeHkdfLabel
  rw [pushHkdfLabel_eq]
  cases hfits : (Vec.ofList? (hkdfLabel labelPrefix label context len) :
      Option (Vec UInt8 hkdfLabelMax)) with
  | some info =>
    have hinfo := Vec.ofList?_eq_some.mp hfits
    rw [pushBytes, PushM.exec_pushAll (w := info) (by rw [hinfo]; rfl)]
  | none =>
    have hlong := Vec.ofList?_eq_none.mp hfits
    have hfull := PushM.exec_pushAll_full (v := (Vec.empty : Vec UInt8 hkdfLabelMax))
      (l := hkdfLabel labelPrefix label context len) (by simpa using hlong)
    rw [pushBytes]
    generalize PushM.exec _ _ = left at hfull
    obtain ⟨outcome, info⟩ := left
    cases hfull
    rfl

theorem encodeHkdfLabel_eq_ok :
    encodeHkdfLabel labelPrefix label context len = .ok info ↔
      info.val = hkdfLabel labelPrefix label context len := by
  rw [encodeHkdfLabel_eq, ← Vec.ofList?_eq_some]
  cases Vec.ofList? (hkdfLabel labelPrefix label context len) with
  | some info' => simp
  | none => simp

theorem encodeHkdfLabel_eq_error {e : HkdfLabelError} :
    encodeHkdfLabel labelPrefix label context len = .error e ↔
      e = .encodedTooLong ∧
        hkdfLabelMax < 4 + labelPrefix.length + label.length + context.length := by
  rw [encodeHkdfLabel_eq, ← hkdfLabel_length, ← Vec.ofList?_eq_none]
  cases Vec.ofList? (hkdfLabel labelPrefix label context len) with
  | some info' => simp
  | none => simp [eq_comm]

theorem encodeHkdfLabel_bind {α : Type} (k : Bytes → Except HkdfLabelError α) :
    (encodeHkdfLabel labelPrefix label context len >>= fun info => k info.val) =
      if (hkdfLabel labelPrefix label context len).length ≤ hkdfLabelMax then
        k (hkdfLabel labelPrefix label context len)
      else .error .encodedTooLong := by
  rw [encodeHkdfLabel_eq]
  unfold Vec.ofList?
  by_cases hfits : (hkdfLabel labelPrefix label context len).length ≤ hkdfLabelMax
  · rw [dif_pos hfits, if_pos hfits]
    rfl
  · rw [dif_neg hfits, if_neg hfits]
    rfl

/-- The `info` of a call that reaches the backend is the whole structure. -/
theorem hkdfLabelInfo_eq_ok :
    hkdfLabelInfo labelPrefix label context len = .ok info ↔
      len ≤ 0xFFFF ∧ labelPrefix.length + label.length ≤ 0xFF ∧ context.length ≤ 0xFF ∧
        info.val = hkdfLabel labelPrefix label context len := by
  simp only [hkdfLabelInfo, bind_eq_ok, ensure_eq_ok, encodeHkdfLabel_eq_ok, exists_and_left,
    exists_const]

theorem hkdfLabelInfo_eq_encodedTooLong :
    hkdfLabelInfo labelPrefix label context len = .error .encodedTooLong ↔
      len ≤ 0xFFFF ∧ labelPrefix.length + label.length ≤ 0xFF ∧ context.length ≤ 0xFF ∧
        hkdfLabelMax < 4 + labelPrefix.length + label.length + context.length := by
  simp only [hkdfLabelInfo, ensure_bind_eq_error, encodeHkdfLabel_eq_error, reduceCtorEq, and_false,
    false_or, true_and]

theorem readHkdfLabel_hkdfLabel (hlen : len ≤ 0xFFFF)
    (hlabel : labelPrefix.length + label.length ≤ 0xFF) (hcontext : context.length ≤ 0xFF) :
    readHkdfLabel (hkdfLabel labelPrefix label context len) =
      some (len, labelPrefix ++ label, context) := by
  have hfull : (labelPrefix ++ label).length < 256 ^ 1 := by
    rw [List.length_append]
    omega
  rw [readHkdfLabel, hkdfLabel, takeUint_append _ (by omega)]
  dsimp only [Option.bind_eq_bind, Option.bind_some]
  rw [takePrefixed_append _ hfull]
  dsimp only [Option.bind_some]
  rw [whole_prefixed (by omega)]
  rfl

end Info

/-- Every derivation is its `info`, or the error in front of it, and then the backend's `expand`. -/
theorem HkdfSha256.hkdfExpandLabelPrefixed_eq (h : HkdfSha256) (labelPrefix : Bytes)
    (secret : Secret) (label context : Bytes) (len : Nat) :
    h.hkdfExpandLabelPrefixed labelPrefix secret label context len =
      hkdfLabelInfo labelPrefix label context len >>= fun info =>
        (h.expand secret info.val len).mapError .expand := by
  unfold hkdfExpandLabelPrefixed hkdfLabelInfo
  simp only [bind_assoc]
  simp only [ensure_bind,
    encodeHkdfLabel_bind fun info => (h.expand secret info len).mapError .expand, gt_iff_lt,
    ← not_le, ite_not, ← hkdfLabel_eq]

/-- Whose labels are expanded. -/
inductive LabelProtocol where
  | tls
  | dtls
  deriving DecidableEq, Repr

namespace LabelProtocol

def labelPrefix : LabelProtocol → Bytes
  | tls => ascii "tls13 "
  | dtls => ascii "dtls13"

def expandLabel (p : LabelProtocol) (h : HkdfSha256) :
    Secret → Bytes → Bytes → (len : Nat) → Except HkdfLabelError (Block len) :=
  match p with
  | tls => h.hkdfExpandLabel
  | dtls => h.dtlsExpandLabel

/-- The `info` of the protocol's derivations. -/
def info (p : LabelProtocol) :
    Bytes → Bytes → Nat → Except HkdfLabelError (Vec UInt8 hkdfLabelMax) :=
  hkdfLabelInfo p.labelPrefix

theorem labelPrefix_length (p : LabelProtocol) : p.labelPrefix.length = 6 := by
  cases p <;> decide

theorem labelPrefix_injective : Function.Injective labelPrefix := by
  intro p p' h
  revert h
  cases p <;> cases p' <;> decide

theorem expandLabel_eq (p : LabelProtocol) (h : HkdfSha256) (secret : Secret)
    (label context : Bytes) (len : Nat) :
    p.expandLabel h secret label context len =
      p.info label context len >>= fun info => (h.expand secret info.val len).mapError .expand := by
  cases p <;> exact h.hkdfExpandLabelPrefixed_eq _ secret label context len

theorem info_injective {p p' : LabelProtocol} {label label' context context' : Bytes}
    {len len' : Nat} {info : Vec UInt8 hkdfLabelMax} (h : p.info label context len = .ok info)
    (h' : p'.info label' context' len' = .ok info) :
    p = p' ∧ len = len' ∧ label = label' ∧ context = context' := by
  obtain ⟨hlen, hlabel, hcontext, hinfo⟩ := hkdfLabelInfo_eq_ok.mp h
  obtain ⟨hlen', hlabel', hcontext', hinfo'⟩ := hkdfLabelInfo_eq_ok.mp h'
  have hread := readHkdfLabel_hkdfLabel hlen hlabel hcontext
  rw [← hinfo, hinfo', readHkdfLabel_hkdfLabel hlen' hlabel' hcontext'] at hread
  simp only [Option.some_inj, Prod.mk.injEq] at hread
  obtain ⟨rfl, hfull, rfl⟩ := hread
  -- The prefixes have one length, so the full label splits in one way only.
  obtain ⟨hp, rfl⟩ := List.append_inj hfull (by rw [labelPrefix_length, labelPrefix_length])
  exact ⟨labelPrefix_injective hp.symm, rfl, rfl, rfl⟩

theorem expandLabel_eq_encodedTooLong {p : LabelProtocol} {h : HkdfSha256} {secret : Secret}
    {label context : Bytes} {len : Nat} :
    p.expandLabel h secret label context len = .error .encodedTooLong ↔
      p.info label context len = .error .encodedTooLong := by
  rw [expandLabel_eq]
  cases hinfo : p.info label context len with
  | error e => simp [bind, Except.bind]
  | ok info =>
    -- What the backend refuses comes out as `expand`.
    show (h.expand secret info.val len).mapError _ = _ ↔ _
    cases h.expand secret info.val len with
    | error e => constructor <;> rintro ⟨⟩
    | ok okm => constructor <;> rintro ⟨⟩

/-- Whatever the backend, a derivation hands it the whole `HkdfLabel`, and no two protocols, output
lengths, labels or contexts share one; only a label that is too long for the buffer as a whole is
`encodedTooLong`. -/
theorem expandLabel_separates :
    (∀ (p : LabelProtocol) (h : HkdfSha256) (secret : Secret) (label context : Bytes) (len : Nat),
      p.expandLabel h secret label context len =
        p.info label context len >>= fun info =>
          (h.expand secret info.val len).mapError .expand) ∧
    (∀ (p p' : LabelProtocol) (label label' context context' : Bytes) (len len' : Nat)
      (info info' : Vec UInt8 hkdfLabelMax), p.info label context len = .ok info →
      p'.info label' context' len' = .ok info' → info.val = info'.val →
        p = p' ∧ len = len' ∧ label = label' ∧ context = context') ∧
    (∀ (p : LabelProtocol) (label context : Bytes) (len : Nat) (info : Vec UInt8 hkdfLabelMax),
      p.info label context len = .ok info →
        info.val = hkdfLabel p.labelPrefix label context len) ∧
    ∀ (p : LabelProtocol) (h : HkdfSha256) (secret : Secret) (label context : Bytes) (len : Nat),
      p.expandLabel h secret label context len = .error .encodedTooLong ↔
        (len ≤ 0xFFFF ∧ 6 + label.length ≤ 0xFF ∧ context.length ≤ 0xFF) ∧
          hkdfLabelMax < 10 + label.length + context.length := by
  refine ⟨expandLabel_eq, ?_, ?_, ?_⟩
  · intro p p' label label' context context' len len' info info' h h' hinfo
    obtain rfl := Subtype.ext hinfo
    exact info_injective h h'
  · intro p label context len info h
    exact (hkdfLabelInfo_eq_ok.mp h).2.2.2
  · intro p h secret label context len
    rw [expandLabel_eq_encodedTooLong, info, hkdfLabelInfo_eq_encodedTooLong, labelPrefix_length]
    simp only [and_assoc, Nat.reduceAdd]

example : (tls.info (ascii "key") [] 16).map Subtype.val =
    .ok ([0, 16, 9] ++ ascii "tls13 key" ++ [0]) := by
  decide +kernel

end LabelProtocol

end KrabiTls
