import Mathlib.Data.List.MinMax
import KrabiTls.ClientFlight
import KrabiTls.Lib.Intervals
import KrabiTls.Lib.Vec

/-! Reassembly of fragmented handshake messages in a caller-supplied arena. -/
namespace KrabiTls.Dtls
open Lib

inductive ReasmError where
  | tooManyMessages
  | tooManyFragments
  | arenaFull
  | badFragment
  | inconsistent
  deriving DecidableEq, Repr

/-- One message: its region of the arena and the byte ranges received. -/
structure Slot (maxFrags : Nat) where
  seq : Nat
  msgType : UInt8
  len : Nat
  off : Nat
  ranges : Vec (Nat × Nat) maxFrags

variable {maxMsgs maxFrags : Nat}

def Slot.isComplete (s : Slot maxFrags) : Bool :=
  s.ranges.val.head? = some (0, s.len) && s.ranges.val.length = 1

/-- The locals of the merge: the new interval, grown by what it absorbed, and the list built. -/
structure Merge (maxFrags : Nat) where
  lo : Nat
  hi : Nat
  merged : Vec (Nat × Nat) maxFrags
  placed : Bool

def Merge.push (m : Merge maxFrags) (r : Nat × Nat) : Except ReasmError (Merge maxFrags) :=
  match m.merged.push r with
  | none => .error .tooManyFragments
  | some merged => .ok { m with merged }

def Merge.place (m : Merge maxFrags) : Except ReasmError (Merge maxFrags) :=
  if m.placed then pure m
  else do
    let m ← m.push (m.lo, m.hi)
    pure { m with placed := true }

def Merge.visit (m : Merge maxFrags) (r : Nat × Nat) : Except ReasmError (Merge maxFrags) :=
  if r.2 < m.lo then m.push r
  else if m.hi < r.1 then do
    let m ← m.place
    m.push r
  else pure { m with lo := min m.lo r.1, hi := max m.hi r.2 }

def Merge.visitAll (m : Merge maxFrags) (ranges : List (Nat × Nat)) :
    Except ReasmError (Vec (Nat × Nat) maxFrags) := do
  let m ← ranges.foldlM Merge.visit m
  let m ← m.place
  pure m.merged

def Slot.addRange (s : Slot maxFrags) (start stop : Nat) : Except ReasmError (Slot maxFrags) :=
  if start ≥ stop then .ok s
  else do
    let ranges ← Merge.visitAll ⟨start, stop, .empty, false⟩ s.ranges.val
    pure { s with ranges }

/-- `add_range` on a slot that goes on to be used: the ranges are assigned at the end. -/
def Slot.addRangeInPlace (s : Slot maxFrags) (start stop : Nat) :
    Except ReasmError Unit × Slot maxFrags :=
  match s.addRange start stop with
  | .error e => (.error e, s)
  | .ok s => (.ok (), s)

def Slot.addRanges (s : Slot maxFrags) :
    List (Nat × Nat) → List (Except ReasmError Unit) × Slot maxFrags
  | [] => ([], s)
  | (start, stop) :: calls =>
      let (result, s) := s.addRangeInPlace start stop
      let (results, s) := s.addRanges calls
      (result :: results, s)

structure Reassembler (maxMsgs maxFrags : Nat) where
  slots : Vec (Slot maxFrags) maxMsgs
  used : Nat

def Reassembler.new : Reassembler maxMsgs maxFrags where
  slots := .empty
  used := 0

/-- The slot of `seq` and its index; a message seen for the first time gets the next region. -/
def Reassembler.slotFor (r : Reassembler maxMsgs maxFrags) (arenaLen : Nat) (msgType : UInt8)
    (seq msgLen : Nat) : Except ReasmError (Reassembler maxMsgs maxFrags × Slot maxFrags × Nat) :=
  match r.slots.val.zipIdx.find? (·.1.seq = seq) with
  | some (s, i) => do
      ensure (s.msgType = msgType ∧ s.len = msgLen) .inconsistent
      pure (r, s, i)
  | none => do
      -- an addition that overflowed would exceed every arena
      ensure (r.used + msgLen ≤ arenaLen) .arenaFull
      let s : Slot maxFrags := { seq, msgType, len := msgLen, off := r.used, ranges := .empty }
      match r.slots.push s with
      | none => .error .tooManyMessages
      | some slots => pure ({ slots, used := r.used + msgLen }, s, r.slots.val.length)

/-- Insert one fragment. After an error the caller drops the reassembler. -/
def Reassembler.push (r : Reassembler maxMsgs maxFrags) (arena : Bytes) (msgType : UInt8)
    (seq msgLen fragOff : Nat) (frag : Bytes) :
    Except ReasmError (Reassembler maxMsgs maxFrags × Bytes) := do
  ensure (fragOff + frag.length ≤ msgLen) .badFragment
  let (r, s, i) ← r.slotFor arena.length msgType seq msgLen
  let s' ← s.addRange (fragOff % 2 ^ 32) ((fragOff + frag.length) % 2 ^ 32)
  pure ({ r with slots := r.slots.set i s' }, overwrite arena (s.off + fragOff) frag)

def Reassembler.flightComplete (r : Reassembler maxMsgs maxFrags) (baseSeq : Nat)
    (finishedType : UInt8) : Bool :=
  match r.slots.val.find? fun s => s.msgType = finishedType && s.isComplete with
  | none => false
  | some fin =>
      if fin.seq < baseSeq then false
      else (List.range' baseSeq (fin.seq + 1 - baseSeq)).all fun seq =>
        r.slots.val.any fun s => s.seq = seq && s.isComplete

/-- The slot with the smallest number behind `prev`. -/
def Reassembler.nextSlot (r : Reassembler maxMsgs maxFrags) (prev : Option Nat) :
    Option (Slot maxFrags) :=
  (r.slots.val.filter fun s => prev.all (· < s.seq)).argmin Slot.seq

variable {s : Slot maxFrags}

theorem Reassembler.mem_of_nextSlot {r : Reassembler maxMsgs maxFrags} {prev : Option Nat}
    (h : r.nextSlot prev = some s) :
    s ∈ r.slots.val ∧ prev.all (· < s.seq) = true :=
  List.mem_filter.mp (List.argmin_mem h)

theorem Reassembler.filter_after_nextSlot {r : Reassembler maxMsgs maxFrags} {prev : Option Nat}
    (h : r.nextSlot prev = some s) :
    (r.slots.val.filter fun t => (some s.seq).all (· < t.seq)).length <
      (r.slots.val.filter fun t => prev.all (· < t.seq)).length := by
  obtain ⟨hmem, hprev⟩ := mem_of_nextSlot h
  have hsub : r.slots.val.filter (fun t => (some s.seq).all (· < t.seq)) =
      (r.slots.val.filter fun t => prev.all (· < t.seq)).filter
        fun t => (some s.seq).all (· < t.seq) := by
    rw [List.filter_filter]
    apply List.filter_congr
    intro t _
    cases prev with
    | none => simp
    | some p =>
      simp only [Option.all_some, decide_eq_true_eq] at hprev
      simp only [Option.all_some, Bool.eq_self_and, decide_eq_true_eq]
      omega
  rw [hsub]
  apply List.length_filter_lt_length_iff_exists.mpr
  exact ⟨s, List.mem_filter.mpr ⟨hmem, hprev⟩, by simp⟩

/-- The walk over the slots by ascending number: the last one visited and the bytes written. -/
def Reassembler.serializeLoop (r : Reassembler maxMsgs maxFrags) (arena : Bytes) (outLen : Nat) :
    Loop (Except ReasmError Bytes) (Option Nat × Bytes) where
  body st :=
    match r.nextSlot st.1 with
    | none => .leave (.ok st.2)
    | some s =>
        if ¬ s.isComplete then .again (some s.seq, st.2)
        else if outLen < st.2.length + (4 + s.len) then .leave (.error .arenaFull)
        else .again (some s.seq,
          st.2 ++ (s.msgType :: toBe 3 s.len ++ slice arena s.off (s.off + s.len)))
  variant st := (r.slots.val.filter fun s => st.1.all (· < s.seq)).length
  decreases st t h := by
    split at h
    · cases h
    · rename_i s hnext
      split at h
      · cases h
        exact filter_after_nextSlot hnext
      · split at h
        · cases h
        · cases h
          exact filter_after_nextSlot hnext

/-- The assembled messages in ascending order, each as type, 24-bit length and body. -/
def Reassembler.serializeFlight (r : Reassembler maxMsgs maxFrags) (arena : Bytes) (outLen : Nat) :
    Except ReasmError Bytes :=
  (r.serializeLoop arena outLen).run (none, [])

/-! ### The merge -/

theorem Merge.push_bind (m : Merge maxFrags) (r : Nat × Nat)
    (k : Merge maxFrags → Except ReasmError (Vec (Nat × Nat) maxFrags))
    (tail : List (Nat × Nat))
    (hk : ∀ merged : Vec (Nat × Nat) maxFrags, merged.val = m.merged.val ++ [r] →
      k { m with merged } = (Vec.ofList? (merged.val ++ tail)).elim (.error .tooManyFragments) .ok) :
    m.push r >>= k =
      (Vec.ofList? (m.merged.val ++ r :: tail)).elim (.error .tooManyFragments) .ok := by
  unfold Merge.push
  split
  · rename_i hfull
    have hlen := Vec.ofList?_eq_none.mp hfull
    have hfull' : (Vec.ofList? (m.merged.val ++ r :: tail) : Option (Vec _ maxFrags)) = none := by
      apply Vec.ofList?_eq_none.mpr
      simp only [List.length_append, List.length_cons, List.length_nil] at hlen ⊢
      omega
    rw [hfull']
    rfl
  · rename_i merged hpush
    have hval := Vec.push_eq_some.mp hpush
    have hrest := hk merged hval
    rw [hval, List.append_assoc, List.singleton_append] at hrest
    exact hrest

theorem Merge.visitAll_cons (m : Merge maxFrags) (r : Nat × Nat) (rest : List (Nat × Nat)) :
    m.visitAll (r :: rest) = m.visit r >>= fun m => m.visitAll rest := by
  rw [visitAll, List.foldlM_cons, bind_assoc]
  rfl

theorem Merge.visitAll_placed (m : Merge maxFrags) (hplaced : m.placed = true)
    (rest : List (Nat × Nat)) (hrest : ∀ r ∈ rest, m.hi < r.1) :
    m.visitAll rest =
      (Vec.ofList? (m.merged.val ++ rest)).elim (.error .tooManyFragments) .ok := by
  induction rest generalizing m with
  | nil =>
    have hself : Vec.ofList? (m.merged.val ++ []) = some m.merged := by
      rw [Vec.ofList?_eq_some, List.append_nil]
    rw [hself]
    simp [visitAll, place, hplaced]
    rfl
  | cons r rest ih =>
    obtain ⟨hr, hrest⟩ := List.forall_mem_cons.mp hrest
    have hvisit : m.visit r = m.push r := by
      simp [visit, place, hplaced, hr]
    rw [visitAll_cons, hvisit]
    exact m.push_bind r _ rest fun merged _ => ih { m with merged } hplaced hrest

/-- Over a separated list the merge is the insertion of the interval, up to the capacity. -/
theorem Merge.visitAll_eq (m : Merge maxFrags) (hplaced : m.placed = false)
    (rest : List (Nat × Nat)) (hrest : Separated rest) :
    m.visitAll rest = (Vec.ofList? (m.merged.val ++ insertInterval m.lo m.hi rest)).elim
      (.error .tooManyFragments) .ok := by
  induction rest generalizing m with
  | nil =>
    have hvisit : m.visitAll [] = m.push (m.lo, m.hi) >>= fun m => pure m.merged := by
      simp [visitAll, place, hplaced]
    rw [hvisit, insertInterval]
    apply m.push_bind
    intro merged _
    have hself : Vec.ofList? (merged.val ++ []) = some merged := by
      rw [Vec.ofList?_eq_some, List.append_nil]
    rw [hself]
    rfl
  | cons r rest ih =>
    obtain ⟨hr, hfirst, hrest⟩ := separated_cons.mp hrest
    rw [visitAll_cons, insertInterval]
    unfold visit
    split
    · exact m.push_bind r _ _ fun merged _ => ih { m with merged } hplaced hrest
    · split
      · -- from here on every interval lies behind the one just placed
        rename_i hbehind
        have hplace : m.place = m.push (m.lo, m.hi) >>= fun m => pure { m with placed := true } := by
          simp [place, hplaced]
        rw [hplace, bind_assoc, bind_assoc]
        apply m.push_bind
        intro merged _
        apply Merge.push_bind
        intro merged' _
        apply visitAll_placed _ rfl
        intro b hb
        exact hbehind.trans (hr.trans (hfirst b hb))
      · exact ih { m with lo := min m.lo r.1, hi := max m.hi r.2 } hplaced hrest

theorem Slot.addRange_eq (hsep : Separated s.ranges.val) {start stop : Nat} (hlt : start < stop) :
    s.addRange start stop = (Vec.ofList? (insertInterval start stop s.ranges.val)).elim
      (.error .tooManyFragments) fun ranges => .ok { s with ranges } := by
  rw [addRange, if_neg (by omega), Merge.visitAll_eq _ rfl _ hsep, Vec.empty_val, List.nil_append]
  cases (Vec.ofList? (insertInterval start stop s.ranges.val) : Option (Vec _ maxFrags)) <;> rfl

theorem Slot.addRange_spec {s' : Slot maxFrags} {start stop : Nat} (hsep : Separated s.ranges.val)
    (h : s.addRange start stop = .ok s') :
    ∃ ranges, s' = { s with ranges } ∧ Separated ranges.val ∧
      covered ranges.val = covered s.ranges.val ∪ Set.Ico start stop := by
  by_cases hlt : start < stop
  · rw [addRange_eq hsep hlt] at h
    cases hlist : (Vec.ofList? (insertInterval start stop s.ranges.val) : Option (Vec _ maxFrags)) with
    | none =>
      rw [hlist] at h
      cases h
    | some ranges =>
      rw [hlist] at h
      cases h
      have hval := Vec.ofList?_eq_some.mp hlist
      exact ⟨ranges, rfl, hval ▸ hsep.insertInterval hlt, hval ▸ covered_insertInterval _ _ _⟩
  · rw [addRange, if_pos (by omega)] at h
    cases h
    exact ⟨s.ranges, rfl, hsep, by simp [Set.Ico_eq_empty hlt]⟩

theorem Slot.isComplete_iff (hsep : Separated s.ranges.val) (hlen : 0 < s.len) :
    s.isComplete = true ↔ covered s.ranges.val = Set.Ico 0 s.len := by
  rw [hsep.covered_eq_Ico_iff hlen]
  simp only [isComplete, Bool.and_eq_true, decide_eq_true_eq]
  constructor
  · rintro ⟨hhead, hone⟩
    obtain ⟨x, hx⟩ := List.length_eq_one_iff.mp hone
    simp_all
  · intro h
    simp [h]

/-! ### Calls of `add_range` -/

/-- The separated list of the new union is what is stored, if there is room for it. -/
theorem Slot.addRangeInPlace_eq (hsep : Separated s.ranges.val) (start stop : Nat) :
    ∃ canonical, Separated canonical ∧
      covered canonical = covered s.ranges.val ∪ Set.Ico start stop ∧
      s.addRangeInPlace start stop =
        if h : canonical.length ≤ maxFrags then (.ok (), { s with ranges := ⟨canonical, h⟩ })
        else (.error .tooManyFragments, s) := by
  by_cases hlt : start < stop
  · refine ⟨insertInterval start stop s.ranges.val, hsep.insertInterval hlt,
      covered_insertInterval _ _ _, ?_⟩
    rw [addRangeInPlace, addRange, if_neg (by omega), Merge.visitAll_eq _ rfl _ hsep, Vec.empty_val,
      List.nil_append, Vec.ofList?]
    by_cases hfits : (insertInterval start stop s.ranges.val).length ≤ maxFrags
    · rw [dif_pos hfits, dif_pos hfits]
      rfl
    · rw [dif_neg hfits, dif_neg hfits]
      rfl
  · refine ⟨s.ranges.val, hsep, by simp [Set.Ico_eq_empty hlt], ?_⟩
    rw [addRangeInPlace, addRange, if_pos (by omega), dif_pos s.ranges.property]

def succeeded (calls : List (Nat × Nat)) (results : List (Except ReasmError Unit)) :
    List (Nat × Nat) :=
  ((calls.zip results).filter (·.2.isOk)).map Prod.fst

@[simp] theorem succeeded_ok (r : Nat × Nat) (calls : List (Nat × Nat))
    (results : List (Except ReasmError Unit)) :
    succeeded (r :: calls) (.ok () :: results) = r :: succeeded calls results := rfl

@[simp] theorem succeeded_error (r : Nat × Nat) (e : ReasmError) (calls : List (Nat × Nat))
    (results : List (Except ReasmError Unit)) :
    succeeded (r :: calls) (.error e :: results) = succeeded calls results := rfl

theorem Slot.addRanges_covered (hsep : Separated s.ranges.val) (calls : List (Nat × Nat)) :
    Separated (s.addRanges calls).2.ranges.val ∧
      covered (s.addRanges calls).2.ranges.val =
        covered s.ranges.val ∪ covered (succeeded calls (s.addRanges calls).1) := by
  induction calls generalizing s with
  | nil => exact ⟨hsep, by simp [addRanges, succeeded]⟩
  | cons r calls ih =>
    obtain ⟨canonical, hcanonical, hcovered, hadd⟩ := addRangeInPlace_eq hsep r.1 r.2
    simp only [addRanges, hadd]
    split
    · obtain ⟨hsep', hcovered'⟩ :=
        ih (s := { s with ranges := ⟨canonical, by assumption⟩ }) hcanonical
      refine ⟨hsep', ?_⟩
      rw [hcovered', succeeded_ok, covered_cons, hcovered, Set.union_assoc]
    · obtain ⟨hsep', hcovered'⟩ := ih hsep
      refine ⟨hsep', ?_⟩
      rw [hcovered', succeeded_error]

/-- After any calls on an empty list, the ranges stored are the separated list of what the calls
that succeeded have added. The next call fails if and only if the separated list of the new union
is too long, and then it changes nothing. -/
theorem Slot.addRanges_canonical (s : Slot maxFrags) (calls : List (Nat × Nat)) :
    let run := ({ s with ranges := .empty } : Slot maxFrags).addRanges calls
    Separated run.2.ranges.val ∧
      covered run.2.ranges.val = covered (succeeded calls run.1) ∧
      ∀ start stop, ∃ canonical,
        (∀ ranges, Separated ranges ∧
            covered ranges = covered run.2.ranges.val ∪ Set.Ico start stop ↔ ranges = canonical) ∧
          ((run.2.addRangeInPlace start stop).1 = .error .tooManyFragments ↔
            maxFrags < canonical.length) ∧
          ∀ e, (run.2.addRangeInPlace start stop).1 = .error e →
            e = .tooManyFragments ∧ (run.2.addRangeInPlace start stop).2 = run.2 := by
  intro run
  obtain ⟨hsep, hcovered⟩ :=
    addRanges_covered (s := { s with ranges := .empty }) Separated.nil calls
  refine ⟨hsep, by simpa using hcovered, fun start stop => ?_⟩
  obtain ⟨canonical, hcanonical, hunion, hadd⟩ := addRangeInPlace_eq hsep start stop
  refine ⟨canonical, fun ranges => ⟨?_, ?_⟩, ?_⟩
  · rintro ⟨hranges, heq⟩
    exact hranges.ext hcanonical (heq.trans hunion.symm)
  · rintro rfl
    exact ⟨hcanonical, hunion⟩
  · rw [hadd]
    split
    · exact ⟨⟨nofun, fun hlt => by omega⟩, nofun⟩
    · refine ⟨⟨fun _ => by omega, fun _ => rfl⟩, ?_⟩
      rintro _ ⟨⟩
      exact ⟨rfl, rfl⟩

end KrabiTls.Dtls
