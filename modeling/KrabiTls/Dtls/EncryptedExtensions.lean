import KrabiTls.Dtls.ServerHello
import KrabiTls.Engine.Core

/-! The server's `record_size_limit`, as the two clients read it. -/
namespace KrabiTls.Dtls
open Lib

/-- The walk over the extension block: the unread rest. -/
def recordSizeLimitLoop : Loop (Except ParseError (Option Nat)) Bytes where
  body rest :=
    if 4 ≤ rest.length then
      let extLen := ofBe (slice rest 2 4)
      if rest.length < 4 + extLen then .leave (.error .malformed)
      else
        let data := slice rest 4 (4 + extLen)
        if ofBe (rest.take 2) = extRecordSizeLimit then
          if data.length ≠ 2 then .leave (.error .malformed)
          else if ofBe data < 64 then .leave (.error .malformed)
          else .leave (.ok (some (ofBe data)))
        else .again (rest.drop (4 + extLen))
    else .leave (.ok none)
  variant rest := rest.length
  decreases s t h := by
    split at h
    · dsimp only at h
      split at h
      · cases h
      · split at h
        · split at h
          · cases h
          · split at h <;> cases h
        · cases h
          simp only [List.length_drop]
          omega
    · cases h

/-- `parse_ee_record_size_limit`. -/
def parseEeRecordSizeLimit (eeBody : Bytes) : Except ParseError (Option Nat) := do
  let extLen ← readU16 eeBody 0
  let exts ← getRange eeBody 2 (2 + extLen)
  recordSizeLimitLoop.run exts

/-- The extension block of an `EncryptedExtensions` body: its whole extensions and what is left. -/
def eeEntries (eeBody : Bytes) : List Entry × Bytes :=
  Entry.split (slice eeBody 2 (2 + ofBe (eeBody.take 2)))

/-- The limit of the first `record_size_limit` among the extensions. -/
def FirstLimit (block : List Entry × Bytes) (x : Option Nat) : Prop :=
  match block.1.find? (·.tag = extRecordSizeLimit) with
  | none => block.2.length < 4 ∧ x = none
  | some e => e.data.length = 2 ∧ 64 ≤ ofBe e.data ∧ x = some (ofBe e.data)

theorem recordSizeLimitLoop_eq_ok (buf : Bytes) (x : Option Nat) :
    recordSizeLimitLoop.run buf = .ok x ↔ FirstLimit (Entry.split buf) x := by
  induction buf using Entry.split_induct with
  | none buf h =>
    have hlen := Entry.next_eq_none.mp h
    rw [Entry.split_of_none h]
    by_cases hshort : buf.length < 4
    · have hleave : recordSizeLimitLoop.body buf = .leave (.ok none) := if_neg (by omega)
      rw [Loop.run_of_leave hleave]
      simp [FirstLimit, hshort, eq_comm]
    · have hleave : recordSizeLimitLoop.body buf = .leave (.error .malformed) := by
        simp only [recordSizeLimitLoop, if_pos (Nat.le_of_not_lt hshort), if_pos hlen]
      rw [Loop.run_of_leave hleave]
      simp [FirstLimit, hshort]
  | some buf e rest h ih =>
    obtain ⟨hfits, htag, hlen, hdata, hrest⟩ := Entry.next_parts h
    rw [Entry.split_of_some h]
    by_cases hlimit : e.tag = extRecordSizeLimit
    · have hleave : recordSizeLimitLoop.body buf =
          if e.data.length ≠ 2 then .leave (.error .malformed)
          else if ofBe e.data < 64 then .leave (.error .malformed)
          else .leave (.ok (some (ofBe e.data))) := by
        simp only [recordSizeLimitLoop, ← hdata, ← htag, if_pos hlimit]
        rw [if_pos (by omega), if_neg (by omega)]
      have hfind : FirstLimit (e :: (Entry.split rest).1, (Entry.split rest).2) x ↔
          e.data.length = 2 ∧ 64 ≤ ofBe e.data ∧ x = some (ofBe e.data) := by
        simp [FirstLimit, hlimit]
      rw [hfind]
      split at hleave
      · rename_i hwidth
        rw [Loop.run_of_leave hleave]
        simp [hwidth]
      · split at hleave
        · rename_i hlow
          rw [Loop.run_of_leave hleave]
          simp [Nat.not_le_of_lt hlow]
        · rename_i hwidth hlow
          rw [Loop.run_of_leave hleave]
          simp [not_not.mp hwidth, Nat.le_of_not_lt hlow, eq_comm]
    · have hagain : recordSizeLimitLoop.body buf = .again rest := by
        simp only [recordSizeLimitLoop, ← htag, if_neg hlimit, hrest]
        rw [if_pos (by omega), if_neg (by omega)]
      rw [Loop.run_of_again hagain, ih]
      simp [FirstLimit, hlimit]

theorem parseEeRecordSizeLimit_eq_ok (eeBody : Bytes) (x : Option Nat) :
    parseEeRecordSizeLimit eeBody = .ok x ↔
      2 + ofBe (eeBody.take 2) ≤ eeBody.length ∧ FirstLimit (eeEntries eeBody) x := by
  simp only [parseEeRecordSizeLimit, readU16, bind_eq_ok, map_eq_ok, getRange_eq_ok]
  constructor
  · rintro ⟨_, ⟨_, ⟨_, rfl⟩, rfl⟩, _, ⟨hfits, rfl⟩, hrun⟩
    exact ⟨hfits, (recordSizeLimitLoop_eq_ok _ _).mp hrun⟩
  · rintro ⟨hfits, hfirst⟩
    exact ⟨_, ⟨_, ⟨by omega, rfl⟩, rfl⟩, _, ⟨hfits, rfl⟩, (recordSizeLimitLoop_eq_ok _ _).mpr hfirst⟩

def limits (entries : List Entry) : List Nat :=
  (entries.filter (·.tag = extRecordSizeLimit)).map (ofBe ·.data)

/-- What the TLS client's walk asks of the whole block. -/
def OnlyLimit (block : List Entry × Bytes) (found x : Option Nat) : Prop :=
  block.2 = [] ∧ (∀ e ∈ block.1, e.tag = extRecordSizeLimit → e.data.length = 2) ∧
    found.toList ++ limits block.1 = x.toList

theorem tlsRecordSizeLimitLoop_eq_ok (buf : Bytes) (found x : Option Nat) :
    KrabiTls.recordSizeLimitLoop.run (buf, found) = .ok x ↔ OnlyLimit (Entry.split buf) found x := by
  induction buf using Entry.split_induct generalizing found with
  | none buf h =>
    have hlen := Entry.next_eq_none.mp h
    rw [Entry.split_of_none h]
    by_cases hnil : buf = []
    · have hleave : KrabiTls.recordSizeLimitLoop.body (buf, found) = .leave (.ok found) := if_pos hnil
      rw [Loop.run_of_leave hleave]
      cases found <;> cases x <;> simp [OnlyLimit, limits, hnil]
    · have hleave : KrabiTls.recordSizeLimitLoop.body (buf, found) = .leave (.error .truncated) := by
        simp only [KrabiTls.recordSizeLimitLoop, if_neg hnil, if_pos hlen, ite_self]
      rw [Loop.run_of_leave hleave]
      simp [OnlyLimit, hnil]
  | some buf e rest h ih =>
    obtain ⟨hfits, htag, hlen, hdata, hrest⟩ := Entry.next_parts h
    have hnil : buf ≠ [] := by
      rintro rfl
      simp at hfits
    rw [Entry.split_of_some h]
    by_cases hlimit : e.tag = extRecordSizeLimit
    · by_cases hwidth : e.data.length = 2
      · have hvalue : slice buf 4 6 = e.data := by rw [hdata, ← hlen, hwidth]
        cases found with
        | some limit =>
          have hleave : KrabiTls.recordSizeLimitLoop.body (buf, some limit) =
              .leave (.error (.duplicateExtension e.tag)) := by
            simp only [KrabiTls.recordSizeLimitLoop, if_neg hnil, ← htag, if_pos hlimit, ← hlen, hwidth]
            rw [if_neg (by omega), if_neg (by omega)]
            simp
          rw [Loop.run_of_leave hleave]
          cases x <;> simp [OnlyLimit, limits, hlimit]
        | none =>
          have hagain : KrabiTls.recordSizeLimitLoop.body (buf, none) =
              .again (rest, some (ofBe e.data)) := by
            simp only [KrabiTls.recordSizeLimitLoop, if_neg hnil, ← htag, if_pos hlimit, hvalue]
            rw [if_neg (by omega), if_neg (by omega), if_neg (by omega), hrest]
            simp
          rw [Loop.run_of_again hagain, ih]
          simp [OnlyLimit, limits, hlimit, hwidth]
      · have hleave : KrabiTls.recordSizeLimitLoop.body (buf, found) = .leave (.error .truncated) := by
          simp only [KrabiTls.recordSizeLimitLoop, if_neg hnil, ← htag, if_pos hlimit, ← hlen,
            if_pos (show e.data.length ≠ 2 from hwidth), ite_self]
        rw [Loop.run_of_leave hleave]
        simp [OnlyLimit, hlimit, hwidth]
    · have hagain : KrabiTls.recordSizeLimitLoop.body (buf, found) = .again (rest, found) := by
        simp only [KrabiTls.recordSizeLimitLoop, if_neg hnil, ← htag, if_neg hlimit, hrest]
        rw [if_neg (by omega), if_neg (by omega)]
      rw [Loop.run_of_again hagain, ih]
      simp [OnlyLimit, limits, hlimit]

/-- The complete flight starts with an `EncryptedExtensions` message of this body. -/
def StartsWithEe {n : Nat} (r : ServerFlightReassembler n) (eeBody : Bytes) : Prop :=
  ∃ bytes msg, r.flightBytes = some bytes ∧ nextMsg bytes = .ok msg ∧
    msg.msgType = hsEncryptedExtensions ∧ msg.body = eeBody

theorem peekEeRecordSizeLimit_eq_ok {n : Nat} {r : ServerFlightReassembler n} {eeBody : Bytes}
    (h : StartsWithEe r eeBody) (x : Option Nat) :
    r.peekEeRecordSizeLimit = .ok x ↔
      eeBody.length = 2 + ofBe (eeBody.take 2) ∧ OnlyLimit (eeEntries eeBody) none x := by
  obtain ⟨bytes, msg, hflight, hnext, htype, rfl⟩ := h
  obtain ⟨len, rfl, hfits, rfl⟩ := nextMsg_cut hnext
  have hshort : ¬ bytes.length < 4 := by omega
  dsimp only at htype ⊢
  unfold ServerFlightReassembler.peekEeRecordSizeLimit
  rw [hflight]
  dsimp only
  rw [if_neg hshort, if_neg (not_not.mpr htype), if_neg (by omega)]
  generalize slice bytes 4 (4 + ofBe (slice bytes 1 4)) = eeBody
  by_cases hexact : eeBody.length = 2 + ofBe (eeBody.take 2)
  · have hblock : slice eeBody 2 (2 + ofBe (eeBody.take 2)) = eeBody.drop 2 := by
      rw [← hexact, slice]
      exact List.take_of_length_le (by simp)
    rw [if_neg (by omega), if_neg (not_not.mpr hexact), tlsRecordSizeLimitLoop_eq_ok, eeEntries,
      hblock]
    simp [hexact]
  · rw [if_pos hexact, ite_self]
    simp [hexact]

theorem startsWithEe_of_peek {n : Nat} {r : ServerFlightReassembler n} {x : Option Nat}
    (h : r.peekEeRecordSizeLimit = .ok x) : ∃ eeBody, StartsWithEe r eeBody := by
  unfold ServerFlightReassembler.peekEeRecordSizeLimit at h
  split at h
  · cases h
  · rename_i bytes hflight
    iterate 2 (split at h; · cases h)
    rename_i hlen htype
    dsimp only at h
    split at h
    · cases h
    · have hnext : nextMsg bytes = .ok _ := (if_neg hlen).trans (if_neg (by omega))
      exact ⟨_, bytes, _, hflight, hnext, not_not.mp htype, rfl⟩

/-- The block ends with the body and with its last extension, and holds one limit at most, which is
within the range of the TLS client. Asked only of a body whose block fits, and either has no limit and
at most three bytes behind its extensions, or a first limit of two bytes and of at least 64. -/
def ReadAlike (eeBody : Bytes) : Prop :=
  2 + ofBe (eeBody.take 2) ≤ eeBody.length →
    match (eeEntries eeBody).1.find? (·.tag = extRecordSizeLimit) with
    | none => (eeEntries eeBody).2.length < 4 →
        eeBody.length = 2 + ofBe (eeBody.take 2) ∧ (eeEntries eeBody).2 = []
    | some e => e.data.length = 2 → 64 ≤ ofBe e.data →
        eeBody.length = 2 + ofBe (eeBody.take 2) ∧ (eeEntries eeBody).2 = [] ∧
          ((eeEntries eeBody).1.filter (·.tag = extRecordSizeLimit)).length ≤ 1 ∧
          ofBe e.data ≤ protoMaxInnerPlaintext

/-- The TLS client wants every byte of the block read and one limit at most. -/
theorem onlyLimit_iff {block : List Entry × Bytes} {x : Option Nat} :
    OnlyLimit block none x ↔ block.2 = [] ∧
      (block.1.filter (·.tag = extRecordSizeLimit)).length ≤ 1 ∧
      match block.1.find? (·.tag = extRecordSizeLimit) with
      | none => x = none
      | some e => e.data.length = 2 ∧ x = some (ofBe e.data) := by
  rw [← List.head?_filter]
  have hmem (e : Entry) : e ∈ block.1.filter (·.tag = extRecordSizeLimit) ↔
      e ∈ block.1 ∧ e.tag = extRecordSizeLimit := by simp
  have hwidth : (∀ e ∈ block.1, e.tag = extRecordSizeLimit → e.data.length = 2) ↔
      ∀ e ∈ block.1.filter (·.tag = extRecordSizeLimit), e.data.length = 2 := by
    simp only [hmem, and_imp]
  simp only [OnlyLimit, limits, hwidth]
  generalize block.1.filter (·.tag = extRecordSizeLimit) = found
  rcases found with _ | ⟨e, _ | ⟨e', found⟩⟩
  · cases x <;> simp
  · cases x <;> simp [eq_comm (a := ofBe e.data)]
  · cases x <;> simp

theorem tryFrom_isSome (limit : Nat) : (RecordSizeLimit.tryFrom limit).isSome ↔
    64 ≤ limit ∧ limit ≤ protoMaxInnerPlaintext := by
  unfold RecordSizeLimit.tryFrom minRecordSizeLimit
  split
  · rename_i hrange
    exact iff_of_true rfl hrange
  · rename_i hrange
    exact iff_of_false (by simp) hrange

/-- Both clients take the same limit from an `EncryptedExtensions` body, or none from either, exactly
when the body is one they read alike. -/
theorem parseEeRecordSizeLimit_agrees_iff {n : Nat} {r : ServerFlightReassembler n} {eeBody : Bytes}
    (h : StartsWithEe r eeBody) :
    (∀ x, parseEeRecordSizeLimit eeBody = .ok x ↔
      r.peekEeRecordSizeLimit = .ok x ∧ ∀ limit ∈ x, (RecordSizeLimit.tryFrom limit).isSome) ↔
    ReadAlike eeBody := by
  simp only [parseEeRecordSizeLimit_eq_ok, peekEeRecordSizeLimit_eq_ok h, onlyLimit_iff,
    tryFrom_isSome, FirstLimit, ReadAlike]
  have hfilter : (eeEntries eeBody).1.find? (·.tag = extRecordSizeLimit) = none →
      ((eeEntries eeBody).1.filter (·.tag = extRecordSizeLimit)).length ≤ 1 := by
    rw [← List.head?_filter, List.head?_eq_none_iff]
    intro hnil
    simp [hnil]
  cases hfind : (eeEntries eeBody).1.find? (·.tag = extRecordSizeLimit) with
  | none =>
    have hone := hfilter hfind
    constructor
    · intro hagree hfits htail
      obtain ⟨⟨hexact, hnil, -⟩, -⟩ := (hagree none).mp ⟨hfits, htail, rfl⟩
      exact ⟨hexact, hnil⟩
    · intro halike x
      constructor
      · rintro ⟨hfits, htail, rfl⟩
        obtain ⟨hexact, hnil⟩ := halike hfits htail
        exact ⟨⟨hexact, hnil, hone, rfl⟩, by simp⟩
      · rintro ⟨⟨hexact, hnil, -, rfl⟩, -⟩
        exact ⟨Nat.le_of_eq hexact.symm, by rw [hnil]; decide, rfl⟩
  | some e =>
    constructor
    · intro hagree hfits hwidth hlow
      obtain ⟨⟨hexact, hnil, hone, -⟩, hrange⟩ :=
        (hagree (some (ofBe e.data))).mp ⟨hfits, hwidth, hlow, rfl⟩
      exact ⟨hexact, hnil, hone, (hrange _ rfl).2⟩
    · intro halike x
      constructor
      · rintro ⟨hfits, hwidth, hlow, rfl⟩
        obtain ⟨hexact, hnil, hone, hhigh⟩ := halike hfits hwidth hlow
        refine ⟨⟨hexact, hnil, hone, hwidth, rfl⟩, ?_⟩
        rintro limit ⟨⟩
        exact ⟨hlow, hhigh⟩
      · rintro ⟨⟨hexact, hnil, hone, hwidth, rfl⟩, hrange⟩
        exact ⟨Nat.le_of_eq hexact.symm, hwidth, (hrange _ rfl).1, rfl⟩

/-- A flight of an `EncryptedExtensions` of the given body and an empty `Finished`. -/
def shortFlight (eeBody : Bytes) : ServerFlightReassembler 64 :=
  (ServerFlightReassembler.new.pushContent ([hsEncryptedExtensions] ++ toBe 3 eeBody.length ++ eeBody ++
    [hsFinished] ++ toBe 3 0)).toOption.getD .new

def twoLimits : Bytes := [0, 12] ++ [0, 28, 0, 2, 0x40, 0] ++ [0, 28, 0, 2, 1, 0]

theorem parseEeRecordSizeLimit_twoLimits :
    parseEeRecordSizeLimit twoLimits = .ok (some 16384) ∧
      StartsWithEe (shortFlight twoLimits) twoLimits ∧
      (shortFlight twoLimits).peekEeRecordSizeLimit = .error (.duplicateExtension extRecordSizeLimit) :=
  ⟨by decide +kernel,
    ⟨(shortFlight twoLimits).buf, ⟨hsEncryptedExtensions, twoLimits, (shortFlight twoLimits).buf.take 18,
      (shortFlight twoLimits).buf.drop 18⟩, by decide +kernel, by decide +kernel, rfl, rfl⟩,
    by decide +kernel⟩

theorem parseEeRecordSizeLimit_agrees_one :
    StartsWithEe (shortFlight [0, 6, 0, 28, 0, 2, 0x40, 0]) [0, 6, 0, 28, 0, 2, 0x40, 0] ∧
    ∀ x, parseEeRecordSizeLimit [0, 6, 0, 28, 0, 2, 0x40, 0] = .ok x ↔
      (shortFlight [0, 6, 0, 28, 0, 2, 0x40, 0]).peekEeRecordSizeLimit = .ok x ∧
        ∀ limit ∈ x, (RecordSizeLimit.tryFrom limit).isSome := by
  let eeBody : Bytes := [0, 6, 0, 28, 0, 2, 0x40, 0]
  have hstarts : StartsWithEe (shortFlight eeBody) eeBody :=
    ⟨(shortFlight eeBody).buf, ⟨hsEncryptedExtensions, eeBody, (shortFlight eeBody).buf.take 12,
      (shortFlight eeBody).buf.drop 12⟩, by decide +kernel, by decide +kernel, rfl, rfl⟩
  refine ⟨hstarts, (parseEeRecordSizeLimit_agrees_iff hstarts).mpr ?_⟩
  intro _ _ _
  decide +kernel

end KrabiTls.Dtls
