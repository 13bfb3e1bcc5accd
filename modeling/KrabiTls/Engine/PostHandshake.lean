import KrabiTls.Engine.Core

/-! Post-handshake messages as a reader of the whole byte string sees them. How the string is cut into
records matters in one place only: the last byte of a `KeyUpdate` must end its record. -/
namespace KrabiTls
open Lib

/-- A byte of the string, and whether it is the last of its record. -/
abbrev MarkedByte := UInt8 × Bool

def markRecord : Bytes → List MarkedByte
  | [] => []
  | [b] => [(b, true)]
  | b :: b' :: rest => (b, false) :: markRecord (b' :: rest)

/-- The string that the records carry; an empty record leaves no trace in it. -/
def markRecords (records : List Bytes) : List MarkedByte :=
  records.flatMap markRecord

@[simp] theorem markRecord_length (record : Bytes) : (markRecord record).length = record.length := by
  fun_induction markRecord record <;> simp_all

theorem drop_markRecord (record : Bytes) (n : Nat) :
    (markRecord record).drop n = markRecord (record.drop n) := by
  fun_induction markRecord record generalizing n with
  | case1 => simp [markRecord]
  | case2 b => cases n <;> simp [markRecord]
  | case3 b b' rest ih =>
    cases n with
    | zero => rfl
    | succ n => exact ih n

theorem take_markRecord (record : Bytes) (n : Nat) :
    ((markRecord record).take n).map Prod.fst = record.take n := by
  fun_induction markRecord record generalizing n with
  | case1 => simp
  | case2 b => cases n <;> simp
  | case3 b b' rest ih => cases n <;> simp_all

/-- Where the string ends: between two messages, inside one, or at the first refused message. -/
inductive Ending where
  | between
  | inside
  | failed (e : HandshakeError)
  deriving DecidableEq

/-- The `update_requested` flags of the key updates, and the ending. -/
structure PostHandshakeReading where
  updates : List Bool
  ending : Ending
  deriving DecidableEq

namespace PostHandshakeReading

def fail (e : HandshakeError) : PostHandshakeReading := ⟨[], .failed e⟩

def inside : PostHandshakeReading := ⟨[], .inside⟩

def update (flag : Bool) (r : PostHandshakeReading) : PostHandshakeReading :=
  { r with updates := flag :: r.updates }

end PostHandshakeReading

open PostHandshakeReading in
/-- The reference reader: message after message from the front of the string. -/
def readPostHandshake : List MarkedByte → PostHandshakeReading
  | [] => ⟨[], .between⟩
  | (msgType, _) :: (len₁, _) :: (len₂, _) :: (len₃, _) :: body =>
      let bodyLen := ofBe [len₁, len₂, len₃]
      if msgType = hsNewSessionTicket then
        if body.length < bodyLen then inside else readPostHandshake (body.drop bodyLen)
      else if msgType = hsKeyUpdate then
        if bodyLen ≠ 1 then fail .malformedKeyUpdate
        else
          match body with
          | [] => inside
          | (_, false) :: _ => fail .malformedKeyUpdate
          | (flag, true) :: rest =>
              if flag = 0 then (readPostHandshake rest).update false
              else if flag = 1 then (readPostHandshake rest).update true
              else fail .malformedKeyUpdate
      else fail .postHandshakeNotSupported
  | _ => inside
termination_by s => s.length
decreasing_by
  all_goals
    simp only [List.length_cons, List.length_drop]
    omega

open PostHandshakeReading in
/-- The reading of a string whose first bytes are split off as `header`; if that is shorter than a
header, the string ends with it. -/
def readMessage (header : Bytes) (body : List MarkedByte) : PostHandshakeReading :=
  if header = [] then ⟨[], .between⟩
  else if header.length < 4 then inside
  else if header.headD 0 = hsNewSessionTicket then
    if body.length < ofBe (slice header 1 4) then inside
    else readPostHandshake (body.drop (ofBe (slice header 1 4)))
  else if header.headD 0 = hsKeyUpdate then
    if ofBe (slice header 1 4) ≠ 1 then fail .malformedKeyUpdate
    else
      match body with
      | [] => inside
      | (_, false) :: _ => fail .malformedKeyUpdate
      | (flag, true) :: rest =>
          if flag = 0 then (readPostHandshake rest).update false
          else if flag = 1 then (readPostHandshake rest).update true
          else fail .malformedKeyUpdate
  else fail .postHandshakeNotSupported

theorem readPostHandshake_eq (s : List MarkedByte) :
    readPostHandshake s = readMessage ((s.take 4).map Prod.fst) (s.drop 4) := by
  rcases s with _ | ⟨⟨a, _⟩, _ | ⟨⟨b, _⟩, _ | ⟨⟨c, _⟩, _ | ⟨⟨d, _⟩, body⟩⟩⟩⟩
  · simp [readPostHandshake, readMessage]
  · simp [readPostHandshake, readMessage]
  · simp [readPostHandshake, readMessage]
  · simp [readPostHandshake, readMessage]
  · simp only [List.take_succ_cons, List.take_zero, List.map_cons, List.map_nil, List.drop_succ_cons,
      List.drop_zero, readMessage]
    rw [if_neg (by simp), if_neg (by simp), readPostHandshake.eq_def]
    rfl

/-- The reading that goes on with `s` behind what the reassembler has taken in. -/
def PostHandshakeReasm.resume (ph : PostHandshakeReasm) (s : List MarkedByte) : PostHandshakeReading :=
  if s.length < ph.skipRemaining then .inside
  else
    let rest := s.drop ph.skipRemaining
    readMessage (ph.stage ++ (rest.take (4 - ph.stage.length)).map Prod.fst)
      (rest.drop (4 - ph.stage.length))

namespace PostHandshakeReasm

variable {ph : PostHandshakeReasm} {rest : Bytes}

/-- What the reassembler carries from record to record. -/
structure Carried (ph : PostHandshakeReasm) : Prop where
  oneOf : ph.skipRemaining = 0 ∨ ph.stage = []
  bound : ph.stage.length ≤ 4
  keyUpdate : ph.stage.length = 4 → ph.stage.headD 0 = hsKeyUpdate ∧ ofBe (slice ph.stage 1 4) = 1

theorem carried_empty : Carried {} := ⟨.inl rfl, by decide, nofun⟩

theorem resume_empty (s : List MarkedByte) : resume {} s = readPostHandshake s := by
  rw [resume, if_neg (Nat.not_lt_zero _), readPostHandshake_eq]
  rfl

/-- Skipping does not change the reading. -/
theorem resume_skip (ph : PostHandshakeReasm) (rest : Bytes) (tail : List MarkedByte) :
    ph.resume (markRecord rest ++ tail) =
      (ph.skip rest).1.resume (markRecord (ph.skip rest).2 ++ tail) := by
  simp only [skip, resume, List.length_append, markRecord_length, List.length_drop]
  rcases Nat.le_total rest.length ph.skipRemaining with hle | hle
  · -- the record ends inside the skipped body
    have hdrop : (markRecord rest ++ tail).drop ph.skipRemaining =
        tail.drop (ph.skipRemaining - rest.length) := by
      rw [List.drop_append, drop_markRecord, List.drop_eq_nil_of_le hle, markRecord_length]
      rfl
    rw [hdrop, List.drop_eq_nil_of_le hle, markRecord, List.nil_append]
    congr 1
    simp only [eq_iff_iff]
    omega
  · have hdrop : (markRecord rest ++ tail).drop ph.skipRemaining =
        markRecord (rest.drop ph.skipRemaining) ++ tail := by
      rw [List.drop_append_of_le_length (by rwa [markRecord_length]), drop_markRecord]
    rw [hdrop, Nat.sub_eq_zero_of_le hle, List.drop_zero, if_neg (by omega), if_neg (by omega)]

theorem resume_fill (hskip : ph.skipRemaining = 0) (rest : Bytes) (tail : List MarkedByte) :
    ph.resume (markRecord rest ++ tail) =
      (ph.fill 4 rest).1.resume (markRecord (ph.fill 4 rest).2 ++ tail) := by
  simp only [fill, resume, hskip, Nat.not_lt_zero, if_false, List.drop_zero]
  have hmissing : 4 - (ph.stage ++ rest.take (4 - ph.stage.length)).length =
      4 - ph.stage.length - rest.length := by
    rw [List.length_append, List.length_take]
    omega
  rw [hmissing]
  generalize 4 - ph.stage.length = missing
  rcases Nat.le_total rest.length missing with hle | hle
  · -- all of the record is staged
    have htake : ((markRecord rest).take missing).map Prod.fst = rest := by
      rw [take_markRecord, List.take_of_length_le hle]
    have hdrop : (markRecord rest).drop missing = [] := by
      rw [drop_markRecord, List.drop_eq_nil_of_le hle, markRecord]
    rw [List.take_append, List.drop_append, List.map_append, htake, hdrop, markRecord_length,
      List.take_of_length_le hle, List.drop_eq_nil_of_le hle, markRecord, List.nil_append,
      List.nil_append, List.append_assoc]
  · have hlen : missing ≤ (markRecord rest).length := by rwa [markRecord_length]
    rw [List.take_append_of_le_length hlen, List.drop_append_of_le_length hlen, take_markRecord,
      drop_markRecord, Nat.sub_eq_zero_of_le hle, List.take_zero, List.map_nil, List.append_nil,
      List.drop_zero]

theorem resume_header (hskip : ph.skipRemaining = 0) (hlen : ph.stage.length = 4)
    (s : List MarkedByte) : ph.resume s = readMessage ph.stage s := by
  simp [resume, hskip, hlen]

theorem readMessage_ticket {header : Bytes} (hlen : header.length = 4)
    (htype : header.headD 0 = hsNewSessionTicket) (s : List MarkedByte) :
    readMessage header s = resume ⟨[], ofBe (slice header 1 4)⟩ s := by
  have hne : header ≠ [] := List.ne_nil_of_length_pos (by omega)
  rw [readMessage.eq_def, if_neg hne, if_neg (by omega), if_pos htype, resume]
  split
  · rfl
  · rw [readPostHandshake_eq]
    rfl

/-- The outcome of a walk, as the reading has it, whatever comes in later records. -/
def Walks (reading : List MarkedByte → PostHandshakeReading) :
    Except HandshakeError (Option Bool) × PostHandshakeReasm → Prop
  | (.ok none, ph) => ph.Carried ∧ ∀ tail, reading tail = ph.resume tail
  | (.ok (some flag), ph) => ph = {} ∧ ∀ tail, reading tail = (readPostHandshake tail).update flag
  | (.error e, _) => ∀ tail, reading tail = .fail e

/-- A staged header of a `KeyUpdate`: the byte behind it decides. -/
theorem readMessage_keyUpdate {header : Bytes} (hlen : header.length = 4)
    (htype : header.headD 0 = hsKeyUpdate) (s : List MarkedByte) :
    readMessage header s =
      if ofBe (slice header 1 4) ≠ 1 then .fail .malformedKeyUpdate
      else
        match s with
        | [] => .inside
        | (_, false) :: _ => .fail .malformedKeyUpdate
        | (flag, true) :: rest =>
            if flag = 0 then (readPostHandshake rest).update false
            else if flag = 1 then (readPostHandshake rest).update true
            else .fail .malformedKeyUpdate := by
  have hne : header ≠ [] := List.ne_nil_of_length_pos (by omega)
  have hticket : header.headD 0 ≠ hsNewSessionTicket := by
    rw [htype]
    decide
  rw [readMessage.eq_def, if_neg hne, if_neg (by omega), if_neg hticket, if_pos htype]

theorem takeKeyUpdate_walks (hskip : ph.skipRemaining = 0) (hlen : ph.stage.length = 4)
    (htype : ph.stage.headD 0 = hsKeyUpdate) (rest : Bytes) :
    Walks (fun tail => readMessage ph.stage (markRecord rest ++ tail)) (ph.takeKeyUpdate rest) := by
  unfold takeKeyUpdate
  by_cases hone : ofBe (slice ph.stage 1 4) = 1
  · rw [if_neg (not_not_intro hone)]
    dsimp only [fill]
    rw [hlen]
    rcases rest with _ | ⟨b, _ | ⟨b', more⟩⟩
    · -- the flag is not there yet
      rw [List.take_nil, List.append_nil, if_pos (show ph.stage.length < 5 by omega)]
      exact ⟨⟨.inl hskip, hlen.le, fun _ => ⟨htype, hone⟩⟩, fun tail => (resume_header hskip hlen tail).symm⟩
    · -- the flag ends the record
      have hdrop : (ph.stage ++ [b]).drop 4 = [b] := List.drop_left' hlen
      have hread (tail : List MarkedByte) : readMessage ph.stage (markRecord [b] ++ tail) =
          if b = 0 then (readPostHandshake tail).update false
          else if b = 1 then (readPostHandshake tail).update true
          else .fail .malformedKeyUpdate := by
        rw [readMessage_keyUpdate hlen htype, if_neg (not_not_intro hone)]
        rfl
      have htake : [b].take (5 - 4) = [b] := rfl
      rw [htake, if_neg (by simp [hlen]), if_neg (by simp), hdrop]
      split
      · rename_i hflag
        cases hflag
        exact ⟨by rw [hskip], hread⟩
      · rename_i hflag
        cases hflag
        exact ⟨by rw [hskip], hread⟩
      · rename_i hzero hone'
        intro tail
        dsimp only
        rw [hread, if_neg (fun h => hzero (by rw [h])), if_neg (fun h => hone' (by rw [h]))]
    · rw [if_neg (by simp [hlen]), if_pos (by simp)]
      intro tail
      dsimp only
      rw [readMessage_keyUpdate hlen htype, if_neg (not_not_intro hone)]
      rfl
  · rw [if_pos hone]
    intro tail
    dsimp only
    rw [readMessage_keyUpdate hlen htype, if_pos hone]

theorem Carried.skip (h : ph.Carried) (rest : Bytes) : (ph.skip rest).1.Carried := by
  refine ⟨h.oneOf.imp_left fun hzero => ?_, h.bound, h.keyUpdate⟩
  simp only [PostHandshakeReasm.skip, hzero, Nat.zero_sub]

theorem skip_pending (h : (ph.skip rest).1.skipRemaining > 0) : (ph.skip rest).2 = [] := by
  simp only [skip] at h ⊢
  exact List.drop_eq_nil_of_le (by omega)

theorem fill_short {upTo : Nat} (h : (ph.fill upTo rest).1.stage.length < upTo) :
    (ph.fill upTo rest).2 = [] := by
  simp only [fill, List.length_append, List.length_take] at h ⊢
  exact List.drop_eq_nil_of_le (by omega)

theorem fill_full {upTo : Nat} (hbound : ph.stage.length ≤ upTo)
    (h : ¬ (ph.fill upTo rest).1.stage.length < upTo) : (ph.fill upTo rest).1.stage.length = upTo := by
  simp only [fill, List.length_append, List.length_take] at h ⊢
  omega

/-- A skip that does not end in this record leaves the walk. -/
theorem walks_skipping (h : ph.Carried) (hpending : (ph.skip rest).1.skipRemaining > 0) :
    Walks (fun tail => ph.resume (markRecord rest ++ tail)) (.ok none, (ph.skip rest).1) := by
  refine ⟨h.skip rest, fun tail => ?_⟩
  dsimp only
  rw [resume_skip, skip_pending hpending]
  rfl

/-- What a pass does to the reading. -/
def Passes (reading : List MarkedByte → PostHandshakeReading) :
    Pass (Except HandshakeError (Option Bool) × PostHandshakeReasm) (PostHandshakeReasm × Bytes) → Prop
  | .again t => t.1.Carried ∧ ∀ tail, reading tail = t.1.resume (markRecord t.2 ++ tail)
  | .leave r => Walks reading r

theorem feedLoop_passes (hcarried : ph.Carried) (rest : Bytes) :
    Passes (fun tail => ph.resume (markRecord rest ++ tail)) (feedLoop.body (ph, rest)) := by
  dsimp only [feedLoop]
  split
  · exact walks_skipping hcarried ‹_›
  rename_i hskip
  replace hskip : (ph.skip rest).1.skipRemaining = 0 := by omega
  have hcarried := hcarried.skip rest
  rw [funext (resume_skip ph rest)]
  generalize ph.skip rest = skipped at *
  obtain ⟨ph, rest⟩ := skipped
  dsimp only at *
  rw [funext (resume_fill hskip rest)]
  split
  · rename_i hshort
    refine ⟨⟨.inl hskip, by omega, fun hlen => by omega⟩, fun tail => ?_⟩
    dsimp only
    rw [fill_short hshort]
    rfl
  rename_i hfull
  have hlen := fill_full hcarried.bound hfull
  replace hskip : (ph.fill 4 rest).1.skipRemaining = 0 := hskip
  generalize ph.fill 4 rest = filled at *
  obtain ⟨ph, rest⟩ := filled
  dsimp only at *
  rw [funext fun tail => resume_header hskip hlen (markRecord rest ++ tail)]
  split
  · rename_i htype
    rw [funext fun tail => readMessage_ticket hlen htype (markRecord rest ++ tail)]
    have hticket : Carried ⟨[], ofBe (slice ph.stage 1 4)⟩ := ⟨.inr rfl, Nat.zero_le _, nofun⟩
    split
    · exact walks_skipping hticket ‹_›
    · exact ⟨hticket.skip rest, resume_skip _ rest⟩
  · split
    · rename_i htype
      exact takeKeyUpdate_walks hskip hlen htype rest
    · intro tail
      rename_i hticket hupdate
      have hne : ph.stage ≠ [] := List.ne_nil_of_length_pos (by omega)
      dsimp only
      rw [readMessage.eq_def, if_neg hne, if_neg (by omega), if_neg hticket, if_neg hupdate]

/-- What one record does to the reading. -/
theorem feedLoop_walks (hcarried : ph.Carried) (record : Bytes) :
    Walks (fun tail => ph.resume (markRecord record ++ tail)) (feedLoop.run (ph, record)) := by
  refine Loop.run_induct (l := feedLoop)
    (fun s => s.1.Carried ∧ ∀ tail, ph.resume (markRecord record ++ tail) =
      s.1.resume (markRecord s.2 ++ tail)) (Walks fun tail => ph.resume (markRecord record ++ tail))
    ?_ ?_ (ph, record) ⟨hcarried, fun _ => rfl⟩
  · rintro ⟨ph', rest⟩ t ⟨hs, hreading⟩ hbody
    have hpass := feedLoop_passes hs rest
    rw [hbody] at hpass
    exact ⟨hpass.1, fun tail => (hreading tail).trans (hpass.2 tail)⟩
  · rintro ⟨ph', rest⟩ r ⟨hs, hreading⟩ hbody
    have hpass := feedLoop_passes hs rest
    rw [hbody] at hpass
    rw [funext hreading]
    exact hpass

/-- At the end of the string the reassembler is inside a message exactly if the reader is. -/
theorem Carried.resume_nil (h : ph.Carried) :
    ph.resume [] = ⟨[], if ph.inProgress then .inside else .between⟩ := by
  rw [resume, List.length_nil]
  by_cases hskip : 0 < ph.skipRemaining
  · rw [if_pos hskip, if_pos (by simp [inProgress]; omega)]
    rfl
  · rw [if_neg hskip, List.drop_nil]
    dsimp only
    rw [List.take_nil, List.map_nil, List.append_nil, List.drop_nil, readMessage.eq_def]
    by_cases hstage : ph.stage = []
    · rw [if_pos hstage, if_neg (by simp [inProgress, hstage]; omega)]
    · have hin : ph.inProgress = true := by simp [inProgress, hstage]
      rw [if_neg hstage, if_pos hin]
      by_cases hshort : ph.stage.length < 4
      · rw [if_pos hshort]
        rfl
      · obtain ⟨htype, hone⟩ := h.keyUpdate (Nat.le_antisymm h.bound (by omega))
        have hticket : ph.stage.headD 0 ≠ hsNewSessionTicket := by
          rw [htype]
          decide
        rw [if_neg hshort, if_neg hticket, if_pos htype, if_neg (not_not_intro hone)]
        rfl

end PostHandshakeReasm

namespace Core
variable {cfg : ClientConfig} {sz : Sizes}

/-- `feed_post_handshake` with one record's content after the other, up to the first error. -/
def feedRecords (c : Core cfg sz) : List Bytes → Except HandshakeError Unit × Core cfg sz
  | [] => (.ok (), c)
  | record :: records =>
      match c.feedPostHandshake record with
      | (.error e, c) => (.error e, c)
      | (.ok (), c) => c.feedRecords records

/-- The effect of a reading: its key updates, one after the other, and then its error. -/
def process (c : Core cfg sz) : List Bool → Ending → Except HandshakeError Unit × Core cfg sz
  | [], .failed e => (.error e, c)
  | [], _ => (.ok (), c)
  | flag :: flags, ending =>
      match c.processKeyUpdate flag with
      | (.error e, c) => (.error e, c)
      | (.ok (), c) => c.process flags ending

section Staged
variable (c : Core cfg sz) (ph : PostHandshakeReasm)

theorem sealRecord_staged (conn : AppData) (content : Bytes) (contentType : UInt8) :
    ({ c with ph } : Core cfg sz).sealRecord conn content contentType =
      ((c.sealRecord conn content contentType).1,
        { (c.sealRecord conn content contentType).2 with ph }) := by
  unfold sealRecord noteSealed
  rcases conn.encryptRecord cfg content contentType sz.send with ⟨_ | _, _, _⟩ <;> rfl

theorem answerKeyUpdate_staged (conn : AppData) :
    ({ c with ph } : Core cfg sz).answerKeyUpdate conn =
      ((c.answerKeyUpdate conn).1, { (c.answerKeyUpdate conn).2 with ph }) := by
  rw [answerKeyUpdate_eq, answerKeyUpdate_eq]
  rw [sealRecord_staged]
  rcases c.sealRecord conn (AppData.keyUpdateMsg false) ctHandshake with ⟨_ | ⟨_, conn'⟩, _⟩
  · rfl
  · dsimp only
    cases conn'.applySendKeyUpdate cfg <;> rfl

theorem processKeyUpdate_staged (flag : Bool) :
    ({ c with ph } : Core cfg sz).processKeyUpdate flag =
      ((c.processKeyUpdate flag).1, { (c.processKeyUpdate flag).2 with ph }) := by
  unfold processKeyUpdate
  dsimp only
  split
  · rename_i conn _
    cases conn.applyRecvKeyUpdate cfg with
    | error e => rfl
    | ok conn =>
      dsimp only
      split
      · rfl
      · exact answerKeyUpdate_staged (c.rotatedRecv conn) ph conn
  · rfl

theorem process_staged (flags : List Bool) (ending : Ending) :
    ({ c with ph } : Core cfg sz).process flags ending =
      ((c.process flags ending).1, { (c.process flags ending).2 with ph }) := by
  induction flags generalizing c with
  | nil => cases ending <;> rfl
  | cons flag flags ih =>
    rw [process, process, processKeyUpdate_staged]
    rcases c.processKeyUpdate flag with ⟨_ | _, c'⟩
    · rfl
    · exact ih c'

end Staged

variable {c : Core cfg sz}

/-- The records have the effect of the reading, and leave the reassembler inside a message exactly if the
reading ends inside one. -/
structure Follows (c : Core cfg sz) (reading : PostHandshakeReading)
    (outcome : Except HandshakeError Unit × Core cfg sz) : Prop where
  result : outcome.1 = (c.process reading.updates reading.ending).1
  state : { outcome.2 with ph := {} } = { (c.process reading.updates reading.ending).2 with ph := {} }
  inProgress : outcome.1 = .ok () → (outcome.2.ph.inProgress = true ↔ reading.ending = .inside)

theorem Follows.unstage {ph : PostHandshakeReasm} {reading : PostHandshakeReading}
    {outcome : Except HandshakeError Unit × Core cfg sz}
    (h : ({ c with ph } : Core cfg sz).Follows reading outcome) : c.Follows reading outcome := by
  have hprocess := process_staged c ph reading.updates reading.ending
  refine ⟨?_, ?_, h.inProgress⟩
  · rw [h.result, hprocess]
  · rw [h.state, hprocess]

/-- A key update first, and then what follows the reading of the rest. -/
theorem follows_update {reading : PostHandshakeReading} {ph : PostHandshakeReasm}
    {next : Core cfg sz → Except HandshakeError Unit × Core cfg sz} (flag : Bool)
    (hnext : ∀ c' : Core cfg sz, c'.Follows reading (next { c' with ph })) :
    c.Follows (reading.update flag)
      (match ((c.processKeyUpdate flag).1, ({ (c.processKeyUpdate flag).2 with ph } : Core cfg sz)) with
      | (.error e, c) => (.error e, c)
      | (.ok (), c) => next c) := by
  have hprocess : c.process (reading.update flag).updates (reading.update flag).ending =
      match c.processKeyUpdate flag with
      | (.error e, c) => (.error e, c)
      | (.ok (), c) => c.process reading.updates reading.ending := rfl
  rcases hupdate : c.processKeyUpdate flag with ⟨e | _, c'⟩
  · rw [hupdate] at hprocess
    exact ⟨by rw [hprocess], by rw [hprocess], nofun⟩
  · rw [hupdate] at hprocess
    obtain ⟨hresult, hstate, hin⟩ := hnext c'
    exact ⟨by rw [hprocess]; exact hresult, by rw [hprocess]; exact hstate, hin⟩

theorem feedRecords_follows (hcarried : c.ph.Carried) (records : List Bytes) :
    c.Follows (c.ph.resume (markRecords records)) (c.feedRecords records) := by
  induction records generalizing c with
  | nil =>
    rw [markRecords, List.flatMap_nil, hcarried.resume_nil, feedRecords]
    cases hin : c.ph.inProgress with
    | false => exact ⟨rfl, rfl, fun _ => by simp [hin]⟩
    | true => exact ⟨rfl, rfl, fun _ => by simp [hin]⟩
  | cons record records ih =>
    have hwalks := PostHandshakeReasm.feedLoop_walks hcarried record
    have hsplit : markRecords (record :: records) = markRecord record ++ markRecords records :=
      List.flatMap_cons
    rw [hsplit, feedRecords, feedPostHandshake]
    generalize PostHandshakeReasm.feedLoop.run (c.ph, record) = outcome at hwalks ⊢
    rcases outcome with ⟨e | _ | flag, ph⟩
    · have hreading : c.ph.resume (markRecord record ++ markRecords records) = .fail e := hwalks _
      rw [hreading]
      exact ⟨rfl, rfl, nofun⟩
    · have hreading : c.ph.resume (markRecord record ++ markRecords records) =
        ph.resume (markRecords records) := hwalks.2 _
      rw [hreading]
      exact (ih (c := { c with ph }) hwalks.1).unstage
    · obtain ⟨rfl, hreading⟩ := hwalks
      have hreading : c.ph.resume (markRecord record ++ markRecords records) =
        (readPostHandshake (markRecords records)).update flag := hreading _
      rw [hreading]
      dsimp only
      rw [processKeyUpdate_staged]
      exact follows_update flag fun c' => PostHandshakeReasm.resume_empty _ ▸
        (ih (c := { c' with ph := {} }) PostHandshakeReasm.carried_empty).unstage

theorem handleInnerContent_interleaved (c : Core cfg sz) (content : Bytes) {contentType : UInt8}
    (hct : contentType ≠ ctHandshake) :
    (c.handleInnerContent content contentType).1 = .error .interleavedPostHandshake ↔
      c.ph.inProgress = true := by
  unfold handleInnerContent
  by_cases hin : c.ph.inProgress = true
  · rw [if_pos ⟨hct, hin⟩]
    exact iff_of_true rfl hin
  · rw [if_neg (fun h => hin h.2)]
    refine iff_of_false (fun h => ?_) hin
    repeat' split at h
    all_goals cases h

theorem handleInnerContent_applicationData (c : Core cfg sz) (content : Bytes) :
    (c.handleInnerContent content ctApplicationData).1 = .ok content ↔ ¬ c.ph.inProgress = true := by
  unfold handleInnerContent
  by_cases hin : c.ph.inProgress = true
  · rw [if_pos ⟨by decide, hin⟩]
    exact iff_of_false nofun (not_not_intro hin)
  · rw [if_neg (fun h => hin h.2), if_pos rfl]
    exact iff_of_true rfl hin

/-- However the byte string is cut into records, feeding them has the effect of reading it as a whole:
the same key updates in the same order, and the same error. Records of other types are refused exactly
while the string ends inside a message. -/
theorem feedRecords_reads (c : Core cfg sz) (records : List Bytes) :
    let reading := readPostHandshake (markRecords records)
    let fed := ({ c with ph := {} } : Core cfg sz).feedRecords records
    fed.1 = (c.process reading.updates reading.ending).1 ∧
      { fed.2 with ph := {} } =
        ({ (c.process reading.updates reading.ending).2 with ph := {} } : Core cfg sz) ∧
      (fed.1 = .ok () →
        (fed.2.ph.inProgress = true ↔ reading.ending = .inside) ∧
        (∀ content contentType, contentType ≠ ctHandshake →
          ((fed.2.handleInnerContent content contentType).1 = .error .interleavedPostHandshake ↔
            reading.ending = .inside)) ∧
        ∀ content, (fed.2.handleInnerContent content ctApplicationData).1 = .ok content ↔
          reading.ending ≠ .inside) := by
  have hfollows := (feedRecords_follows (c := { c with ph := {} }) PostHandshakeReasm.carried_empty
    records).unstage
  rw [PostHandshakeReasm.resume_empty] at hfollows
  refine ⟨hfollows.result, hfollows.state, fun hok => ?_⟩
  have hin := hfollows.inProgress hok
  refine ⟨hin, fun content contentType hct => ?_, fun content => ?_⟩
  · exact (handleInnerContent_interleaved _ content hct).trans hin
  · exact (handleInnerContent_applicationData _ content).trans (not_congr hin)

end Core

end KrabiTls
