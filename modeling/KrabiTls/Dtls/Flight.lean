import KrabiTls.Dtls.Reassembly

/-! What a reassembler makes of the fragments of a flight. -/
namespace KrabiTls.Dtls
open Lib
variable {maxMsgs maxFrags : Nat}

structure Message where
  msgType : UInt8
  body : Bytes
  nonempty : 0 < body.length
  bound : body.length < 2 ^ 24

/-- The messages of a flight, numbered from `base` on; only the last is of the finished type. -/
structure Flight (finishedType : UInt8) where
  base : Nat
  front : List Message
  last : Message
  seqs : base + front.length < 2 ^ 16
  front_type : ∀ m ∈ front, m.msgType ≠ finishedType
  last_type : last.msgType = finishedType

namespace Flight
variable {finishedType : UInt8} (fl : Flight finishedType)

def messages : List Message := fl.front ++ [fl.last]

theorem messages_length : fl.messages.length = fl.front.length + 1 := by
  simp [messages]

abbrev message (k : Fin fl.messages.length) : Message := fl.messages[k]

def bytes : Bytes := fl.messages.flatMap fun m => hsMessage m.msgType m.body

/-- A fragment of one of the messages, empty if `start = stop`. -/
structure Fragment where
  index : Fin fl.messages.length
  start : Nat
  stop : Nat
  ordered : start ≤ stop
  within : stop ≤ fl.messages[index].body.length

variable {fl}

def Fragment.data (f : fl.Fragment) : Bytes :=
  slice fl.messages[f.index].body f.start f.stop

theorem Fragment.data_length (f : fl.Fragment) : f.data.length = f.stop - f.start :=
  slice_length_of_le f.within

variable (fl)

def pushAll (arena : Bytes) (frags : List fl.Fragment) :
    Except ReasmError (Reassembler maxMsgs maxFrags × Bytes) :=
  frags.foldlM (fun (r, arena) f =>
    r.push arena fl.messages[f.index].msgType (fl.base + f.index) fl.messages[f.index].body.length
      f.start f.data) (.new, arena)

/-- The positions of message `k` that the fragments cover. -/
def received (frags : List fl.Fragment) (k : Fin fl.messages.length) : Set Nat :=
  { i | ∃ f ∈ frags, f.index = k ∧ i ∈ Set.Ico f.start f.stop }

def CoveredBy (frags : List fl.Fragment) : Prop :=
  ∀ k, ∀ i < fl.messages[k].body.length, i ∈ fl.received frags k

instance (frags : List fl.Fragment) : Decidable (fl.CoveredBy frags) :=
  inferInstanceAs (Decidable (∀ k : Fin fl.messages.length, ∀ i < fl.messages[k].body.length,
    ∃ f ∈ frags, f.index = k ∧ f.start ≤ i ∧ i < f.stop))

theorem received_append_self (frags : List fl.Fragment) (f : fl.Fragment) :
    fl.received (frags ++ [f]) f.index = fl.received frags f.index ∪ Set.Ico f.start f.stop := by
  ext i
  simp [received, or_and_right, exists_or]

theorem received_append_other (frags : List fl.Fragment) {f : fl.Fragment}
    {k : Fin fl.messages.length} (h : f.index ≠ k) :
    fl.received (frags ++ [f]) k = fl.received frags k := by
  ext i
  simp [received, or_and_right, exists_or, h]

theorem received_subset (frags : List fl.Fragment) (k : Fin fl.messages.length) :
    fl.received frags k ⊆ Set.Ico 0 fl.messages[k].body.length := by
  rintro i ⟨f, _, rfl, _, hlt⟩
  exact ⟨Nat.zero_le _, hlt.trans_le f.within⟩

variable {fl} in
theorem CoveredBy.mono {frags more : List fl.Fragment} (h : fl.CoveredBy frags)
    (hsub : frags ⊆ more) : fl.CoveredBy more := by
  intro k i hi
  obtain ⟨f, hmem, hf⟩ := h k i hi
  exact ⟨f, hsub hmem, hf⟩

end Flight

/-- The slot holds the positions `received` of message `m`. -/
structure Slot.Holds (s : Slot maxFrags) (seq : Nat) (m : Message) (received : Set Nat)
    (arena : Bytes) : Prop where
  seq_eq : s.seq = seq
  type_eq : s.msgType = m.msgType
  len_eq : s.len = m.body.length
  separated : Separated s.ranges.val
  covered_eq : covered s.ranges.val = received
  bytes : ∀ i ∈ received, arena[s.off + i]? = m.body[i]?

def Slot.region (s : Slot maxFrags) : Nat × Nat × Nat := (s.seq, s.off, s.len)

/-- What the pushes so far have left in the reassembler and the arena: one slot for every message
seen, in regions that do not overlap. -/
structure Flight.Assembles {finishedType : UInt8} (fl : Flight finishedType)
    (pushed : List fl.Fragment) (r : Reassembler maxMsgs maxFrags) (arena : Bytes) : Prop where
  slots : ∀ s ∈ r.slots.val, ∃ k : Fin fl.messages.length,
    s.Holds (fl.base + k) fl.messages[k] (fl.received pushed k) arena
  present : ∀ f ∈ pushed, ∃ s ∈ r.slots.val, s.seq = fl.base + f.index
  apart : (r.slots.val.map Slot.region).Pairwise fun a b => a.1 ≠ b.1 ∧ a.2.1 + a.2.2 ≤ b.2.1
  within : ∀ g ∈ r.slots.val.map Slot.region, g.2.1 + g.2.2 ≤ r.used
  used : r.used ≤ arena.length

theorem Reassembler.slotFor_cases {r r' : Reassembler maxMsgs maxFrags} {arenaLen seq msgLen i : Nat}
    {msgType : UInt8} {s : Slot maxFrags}
    (h : r.slotFor arenaLen msgType seq msgLen = .ok (r', s, i)) :
    (r' = r ∧ r.slots.val[i]? = some s ∧ s.seq = seq ∧ s.msgType = msgType ∧ s.len = msgLen) ∨
    ((∀ t ∈ r.slots.val, t.seq ≠ seq) ∧ r.used + msgLen ≤ arenaLen ∧
      s = { seq, msgType, len := msgLen, off := r.used, ranges := .empty } ∧
      i = r.slots.val.length ∧ r'.slots.val = r.slots.val ++ [s] ∧ r'.used = r.used + msgLen) := by
  unfold slotFor at h
  split at h
  · rename_i s₀ i₀ hfind
    obtain ⟨_, hsame, hret⟩ := bind_eq_ok.mp h
    cases hret
    have hmem := List.mem_zipIdx_iff_getElem?.mp (List.mem_of_find?_eq_some hfind)
    have hseq := List.find?_some hfind
    obtain ⟨htype, hlen⟩ := ensure_eq_ok.mp hsame
    exact .inl ⟨rfl, hmem, by simpa using hseq, htype, hlen⟩
  · rename_i hfind
    obtain ⟨_, hroom, hret⟩ := bind_eq_ok.mp h
    have hfresh : ∀ t ∈ r.slots.val, t.seq ≠ seq := by
      intro t ht
      obtain ⟨j, hj⟩ := List.mem_iff_getElem?.mp ht
      simpa using List.find?_eq_none.mp hfind (t, j) (List.mem_zipIdx_iff_getElem?.mpr hj)
    dsimp only at hret
    split at hret
    · cases hret
    · rename_i slots hpush
      cases hret
      exact .inr ⟨hfresh, ensure_eq_ok.mp hroom, rfl, rfl, Vec.push_eq_some.mp hpush, rfl⟩

namespace Flight.Assembles
variable {finishedType : UInt8} {fl : Flight finishedType} {pushed : List fl.Fragment}
  {r r' : Reassembler maxMsgs maxFrags} {arena : Bytes}
variable {s : Slot maxFrags}

theorem new (arena : Bytes) : fl.Assembles [] (.new : Reassembler maxMsgs maxFrags) arena where
  slots := by simp [Reassembler.new]
  present := by simp
  apart := by simp [Reassembler.new]
  within := by simp [Reassembler.new]
  used := Nat.zero_le _

theorem allocate (h : fl.Assembles pushed r arena) (k : Fin fl.messages.length)
    (hfresh : ∀ t ∈ r.slots.val, t.seq ≠ fl.base + k)
    (hroom : r.used + fl.messages[k].body.length ≤ arena.length)
    (hs : s = { seq := fl.base + k, msgType := fl.messages[k].msgType,
                len := fl.messages[k].body.length, off := r.used, ranges := .empty })
    (hslots : r'.slots.val = r.slots.val ++ [s])
    (hused : r'.used = r.used + fl.messages[k].body.length) : fl.Assembles pushed r' arena := by
  subst hs
  have hnone : fl.received pushed k = ∅ := by
    apply Set.eq_empty_of_forall_notMem
    rintro i ⟨f, hmem, rfl, _⟩
    obtain ⟨t, ht, hseq⟩ := h.present f hmem
    exact hfresh t ht hseq
  have hregions (g : Nat × Nat × Nat) (hg : g ∈ r.slots.val.map Slot.region) :
      g.1 ≠ fl.base + k ∧ g.2.1 + g.2.2 ≤ r.used := by
    refine ⟨?_, h.within g hg⟩
    obtain ⟨t, ht, rfl⟩ := List.mem_map.mp hg
    exact hfresh t ht
  refine ⟨?_, ?_, ?_, ?_, by omega⟩
  · intro t ht
    rw [hslots, List.mem_append, List.mem_singleton] at ht
    rcases ht with ht | rfl
    · exact h.slots t ht
    · exact ⟨k, rfl, rfl, rfl, .nil, by simp [hnone], by simp [hnone]⟩
  · intro f hf
    obtain ⟨t, ht, hseq⟩ := h.present f hf
    exact ⟨t, hslots ▸ List.mem_append_left _ ht, hseq⟩
  · rw [hslots, List.map_append, List.pairwise_append]
    refine ⟨h.apart, List.pairwise_singleton _ _, ?_⟩
    intro a ha b hb
    rw [List.map_singleton, List.mem_singleton] at hb
    subst hb
    exact hregions a ha
  · rw [hslots, List.map_append, hused]
    intro g hg
    rcases List.mem_append.mp hg with hg | hg
    · have := (hregions g hg).2
      omega
    · rw [List.map_singleton, List.mem_singleton] at hg
      subst hg
      exact Nat.le_refl _

theorem disjoint (h : fl.Assembles pushed r arena) {i j : Nat} {t : Slot maxFrags}
    (hs : r.slots.val[i]? = some s) (ht : r.slots.val[j]? = some t) (hij : i ≠ j) :
    s.seq ≠ t.seq ∧ (s.off + s.len ≤ t.off ∨ t.off + t.len ≤ s.off) := by
  obtain ⟨hi, rfl⟩ := List.getElem?_eq_some_iff.mp hs
  obtain ⟨hj, rfl⟩ := List.getElem?_eq_some_iff.mp ht
  have hapart := List.pairwise_iff_getElem.mp h.apart
  simp only [List.length_map, List.getElem_map, Slot.region] at hapart
  rcases Nat.lt_or_gt_of_ne hij with hlt | hlt
  · have := hapart i j hi hj hlt
    exact ⟨this.1, .inl this.2⟩
  · have := hapart j i hj hi hlt
    exact ⟨this.1.symm, .inr this.2⟩

theorem write (h : fl.Assembles pushed r arena) (f : fl.Fragment) {i : Nat} {s s' : Slot maxFrags}
    (hs : r.slots.val[i]? = some s) (hseq : s.seq = fl.base + f.index)
    (hadd : s.addRange f.start f.stop = .ok s') :
    fl.Assembles (pushed ++ [f]) { r with slots := r.slots.set i s' }
      (overwrite arena (s.off + f.start) f.data) := by
  have hmem := List.mem_of_getElem? hs
  obtain ⟨k, hholds⟩ := h.slots s hmem
  obtain rfl : f.index = k := by
    have := hholds.seq_eq
    apply Fin.ext
    omega
  obtain ⟨ranges, rfl, hsep, hcov⟩ := Slot.addRange_spec hholds.separated hadd
  have hlen := f.data_length
  have hf := f.ordered
  have hf' := f.within
  have hlen_eq := hholds.len_eq
  have hregion := h.within s.region (List.mem_map_of_mem hmem)
  have hused := h.used
  simp only [Slot.region] at hregion
  have hbuf : s.off + f.start + f.data.length ≤ arena.length := by omega
  have hset : (r.slots.set i { s with ranges }).val.map Slot.region = r.slots.val.map Slot.region := by
    obtain ⟨hi, hget⟩ := List.getElem?_eq_some_iff.mp hs
    have hi' : i < (r.slots.val.map Slot.region).length := by rwa [List.length_map]
    have hself : (r.slots.val.map Slot.region)[i] = Slot.region { s with ranges } := by
      rw [List.getElem_map, hget]
      rfl
    rw [Vec.set_val, List.map_set, ← hself, List.set_getElem_self]
  refine ⟨?_, ?_, hset ▸ h.apart, hset ▸ h.within, by rwa [overwrite_length]⟩
  · intro t ht
    obtain ⟨j, hj⟩ := List.mem_iff_getElem?.mp ht
    rw [Vec.set_val, List.getElem?_set] at hj
    split at hj
    · split at hj
      · cases hj
        refine ⟨f.index, hholds.seq_eq, hholds.type_eq, hholds.len_eq, hsep, ?_, ?_⟩
        · rw [hcov, hholds.covered_eq, fl.received_append_self]
        · intro p hp
          rw [fl.received_append_self] at hp
          dsimp only
          by_cases hin : p ∈ Set.Ico f.start f.stop
          · obtain ⟨hlo, hhi⟩ := hin
            have hpos : s.off + p = s.off + f.start + (p - f.start) := by omega
            rw [hpos, getElem?_overwrite_within hbuf (by omega), Fragment.data,
              getElem?_slice (by omega), Nat.add_sub_cancel' hlo]
          · rw [getElem?_overwrite_outside hbuf]
            · exact hholds.bytes p (hp.resolve_right hin)
            · rw [Set.mem_Ico] at hin
              omega
      · cases hj
    · rename_i hij
      obtain ⟨k, hother⟩ := h.slots t (List.mem_of_getElem? hj)
      obtain ⟨hne, hdisj⟩ := h.disjoint hs hj hij
      have hk : f.index ≠ k := by
        rintro rfl
        exact hne (hseq.trans hother.seq_eq.symm)
      refine ⟨k, hother.seq_eq, hother.type_eq, hother.len_eq, hother.separated, ?_, ?_⟩
      · rw [hother.covered_eq, fl.received_append_other _ hk]
      · intro p hp
        rw [fl.received_append_other _ hk] at hp
        have hp' := (fl.received_subset pushed k hp).2
        have hlen' := hother.len_eq
        rw [getElem?_overwrite_outside hbuf (by omega)]
        exact hother.bytes p hp
  · intro g hg
    obtain ⟨t, ht, htseq⟩ : ∃ t ∈ r.slots.val, t.seq = fl.base + g.index := by
      rcases List.mem_append.mp hg with hg | hg
      · exact h.present g hg
      · obtain rfl := List.mem_singleton.mp hg
        exact ⟨s, hmem, hseq⟩
    have hreg : t.region ∈ (r.slots.set i { s with ranges }).val.map Slot.region :=
      hset ▸ List.mem_map_of_mem ht
    obtain ⟨t', ht', heq⟩ := List.mem_map.mp hreg
    exact ⟨t', ht', (congrArg Prod.fst heq).trans htseq⟩

theorem push (h : fl.Assembles pushed r arena) (f : fl.Fragment) {arena' : Bytes}
    (hpush : r.push arena fl.messages[f.index].msgType (fl.base + f.index)
      fl.messages[f.index].body.length f.start f.data = .ok (r', arena')) :
    fl.Assembles (pushed ++ [f]) r' arena' := by
  obtain ⟨_, _, hpush⟩ := bind_eq_ok.mp hpush
  obtain ⟨⟨r₁, s, i⟩, hslot, hpush⟩ := bind_eq_ok.mp hpush
  obtain ⟨s', hadd, hret⟩ := bind_eq_ok.mp hpush
  cases hret
  -- the offsets of a message fit 32 bits
  have hbound := fl.messages[f.index].bound
  have hf := f.ordered
  have hf' := f.within
  have hdata := f.data_length
  have hstop : f.start + f.data.length = f.stop := by omega
  rw [hstop, Nat.mod_eq_of_lt (a := f.start) (by omega), Nat.mod_eq_of_lt (a := f.stop) (by omega)] at hadd
  rcases Reassembler.slotFor_cases hslot with
    ⟨rfl, hget, hseq, _, _⟩ | ⟨hfresh, hroom, hs, rfl, hslots, hused⟩
  · exact h.write f hget hseq hadd
  · have hget : r₁.slots.val[r.slots.val.length]? = some s := by
      rw [hslots]
      simp
    have hseq : s.seq = fl.base + f.index := by rw [hs]
    exact (h.allocate f.index hfresh hroom hs hslots hused).write f hget hseq hadd

theorem of_pushAll {frags : List fl.Fragment} {arena' : Bytes}
    (h : fl.pushAll arena frags = .ok (r, arena')) : fl.Assembles frags r arena' := by
  induction frags using List.reverseRecOn generalizing r arena' with
  | nil =>
    cases h
    exact new arena
  | append_singleton frags f ih =>
    rw [pushAll, List.foldlM_append] at h
    obtain ⟨⟨r₁, arena₁⟩, hfrags, hlast⟩ := bind_eq_ok.mp h
    simp only [List.foldlM_cons, List.foldlM_nil, bind_pure] at hlast
    exact (ih hfrags).push f hlast

theorem isComplete_iff {seq : Nat} {m : Message} {received : Set Nat}
    (hs : s.Holds seq m received arena) :
    s.isComplete = true ↔ received = Set.Ico 0 m.body.length := by
  rw [Slot.isComplete_iff hs.separated (hs.len_eq ▸ m.nonempty), hs.covered_eq, hs.len_eq]

theorem complete_iff_exists (h : fl.Assembles pushed r arena) (k : Fin fl.messages.length) :
    (∃ s ∈ r.slots.val, s.seq = fl.base + k ∧ s.isComplete = true) ↔
      fl.received pushed k = Set.Ico 0 fl.messages[k].body.length := by
  constructor
  · rintro ⟨s, hmem, hseq, hcomplete⟩
    obtain ⟨k', hs⟩ := h.slots s hmem
    obtain rfl : k = k' := by
      have := hs.seq_eq
      apply Fin.ext
      omega
    exact (isComplete_iff hs).mp hcomplete
  · intro hall
    -- the first byte was pushed, so there is a slot
    have hfirst : 0 ∈ fl.received pushed k := by
      rw [hall]
      exact ⟨Nat.le_refl _, fl.messages[k].nonempty⟩
    obtain ⟨f, hf, rfl, _⟩ := hfirst
    obtain ⟨s, hmem, hseq⟩ := h.present f hf
    obtain ⟨k', hs⟩ := h.slots s hmem
    obtain rfl : f.index = k' := by
      have := hs.seq_eq
      apply Fin.ext
      omega
    exact ⟨s, hmem, hseq, (isComplete_iff hs).mpr hall⟩

theorem coveredBy_iff (h : fl.Assembles pushed r arena) :
    fl.CoveredBy pushed ↔
      ∀ k : Fin fl.messages.length, ∃ s ∈ r.slots.val, s.seq = fl.base + k ∧ s.isComplete = true := by
  simp only [h.complete_iff_exists]
  constructor
  · intro hall k
    apply Set.Subset.antisymm (fl.received_subset pushed k)
    intro i hi
    exact hall k i hi.2
  · intro hall k i hi
    rw [hall k]
    exact ⟨Nat.zero_le _, hi⟩

/-- A slot of the finished type is the slot of the last message. -/
theorem seq_of_finishedType (h : fl.Assembles pushed r arena) (hmem : s ∈ r.slots.val) :
    s.msgType = finishedType ↔ s.seq = fl.base + fl.front.length := by
  obtain ⟨k, hs⟩ := h.slots s hmem
  have hk : k.val < fl.front.length + 1 := fl.messages_length ▸ k.isLt
  rw [hs.type_eq, hs.seq_eq, Nat.add_left_cancel_iff]
  constructor
  · intro htype
    by_contra hne
    have hlt : k.val < fl.front.length := by omega
    have hget : fl.messages[k] = fl.front[k.val] := List.getElem_append_left hlt
    exact fl.front_type _ (List.getElem_mem hlt) (hget ▸ htype)
  · intro heq
    have hlast : fl.messages[k.val]? = some fl.last := by
      rw [heq, messages, List.getElem?_concat_length]
    have hget : fl.messages[k] = fl.last := (List.getElem?_eq_some_iff.mp hlast).2
    rw [hget]
    exact fl.last_type

theorem flightComplete_iff (h : fl.Assembles pushed r arena) :
    r.flightComplete fl.base finishedType = true ↔ fl.CoveredBy pushed := by
  have hlen := fl.messages_length
  rw [h.coveredBy_iff]
  unfold Reassembler.flightComplete
  split
  · rename_i hfind
    rw [Bool.false_eq_true, false_iff]
    intro hall
    obtain ⟨s, hmem, hseq, hcomplete⟩ := hall ⟨fl.front.length, by omega⟩
    have := List.find?_eq_none.mp hfind s hmem
    simp [(h.seq_of_finishedType hmem).mpr hseq, hcomplete] at this
  · rename_i fin hfind
    have hmem := List.mem_of_find?_eq_some hfind
    have hfin := List.find?_some hfind
    simp only [Bool.and_eq_true, decide_eq_true_eq] at hfin
    have hseq := (h.seq_of_finishedType hmem).mp hfin.1
    rw [if_neg (by omega)]
    simp only [List.all_eq_true, List.mem_range'_1, List.any_eq_true, Bool.and_eq_true,
      decide_eq_true_eq]
    constructor
    · intro hall k
      exact hall (fl.base + k) ⟨Nat.le_add_right _ _, by omega⟩
    · rintro hall seq ⟨hlo, hhi⟩
      obtain ⟨s, hs⟩ := hall ⟨seq - fl.base, by omega⟩
      exact ⟨s, by simpa [Nat.add_sub_cancel' hlo] using hs⟩

theorem slice_eq_body {seq : Nat} {m : Message}
    (hs : s.Holds seq m (Set.Ico 0 m.body.length) arena) :
    slice arena s.off (s.off + s.len) = m.body := by
  have hlen := hs.len_eq
  apply List.ext_getElem?
  intro i
  by_cases hi : i < m.body.length
  · rw [getElem?_slice (by omega)]
    exact hs.bytes i ⟨Nat.zero_le _, hi⟩
  · rw [List.getElem?_eq_none, List.getElem?_eq_none (by omega)]
    rw [slice_length]
    omega

/-- Once message `k` is complete, it is the next one behind the messages in front of it. -/
theorem nextSlot_eq (h : fl.Assembles pushed r arena) (k : Fin fl.messages.length)
    (hcomplete : fl.received pushed k = Set.Ico 0 fl.messages[k].body.length) {prev : Option Nat}
    (hprev : ∀ j, prev.all (· < fl.base + j) = true ↔ k ≤ j) :
    ∃ s, r.nextSlot prev = some s ∧
      s.Holds (fl.base + k) fl.messages[k] (Set.Ico 0 fl.messages[k].body.length) arena := by
  obtain ⟨t, ht, htseq, _⟩ := (h.complete_iff_exists k).mpr hcomplete
  have htmem : t ∈ r.slots.val.filter fun s => prev.all (· < s.seq) :=
    List.mem_filter.mpr ⟨ht, by rw [htseq]; exact (hprev k).mpr (Nat.le_refl _)⟩
  cases hnext : r.nextSlot prev with
  | none =>
    rw [Reassembler.nextSlot, List.argmin_eq_none] at hnext
    rw [hnext] at htmem
    cases htmem
  | some s =>
    obtain ⟨hmem, hbehind⟩ := Reassembler.mem_of_nextSlot hnext
    have hle : s.seq ≤ t.seq := List.le_of_mem_argmin htmem hnext
    obtain ⟨k', hs⟩ := h.slots s hmem
    rw [hs.seq_eq] at hbehind
    have hge := (hprev k').mp hbehind
    obtain rfl : k = k' := by
      have := hs.seq_eq
      apply Fin.ext
      omega
    exact ⟨s, rfl, hcomplete ▸ hs⟩

theorem serializeLoop_run (h : fl.Assembles pushed r arena) {outLen : Nat}
    (hout : fl.bytes.length ≤ outLen)
    (hall : ∀ k, fl.received pushed k = Set.Ico 0 fl.messages[k].body.length) (n k : Nat)
    (hn : k + n = fl.messages.length) {prev : Option Nat}
    (hprev : ∀ j, prev.all (· < fl.base + j) = true ↔ k ≤ j) :
    (r.serializeLoop arena outLen).run
      (prev, (fl.messages.take k).flatMap fun m => hsMessage m.msgType m.body) = .ok fl.bytes := by
  induction n generalizing k prev with
  | zero =>
    have hnone : r.nextSlot prev = none := by
      rw [Reassembler.nextSlot, List.argmin_eq_none, List.filter_eq_nil_iff]
      intro s hs
      obtain ⟨j, hj⟩ := h.slots s hs
      rw [hj.seq_eq, hprev]
      omega
    apply Loop.run_of_leave
    simp only [Reassembler.serializeLoop, hnone]
    rw [List.take_of_length_le (by omega), bytes]
  | succ n ih =>
    have hk : k < fl.messages.length := by omega
    obtain ⟨s, hnext, hs⟩ := h.nextSlot_eq ⟨k, hk⟩ (hall _) hprev
    have htake : (fl.messages.take (k + 1)).flatMap (fun m => hsMessage m.msgType m.body) =
        ((fl.messages.take k).flatMap fun m => hsMessage m.msgType m.body) ++
          (s.msgType :: toBe 3 s.len ++ slice arena s.off (s.off + s.len)) := by
      rw [slice_eq_body hs, hs.type_eq, hs.len_eq, List.take_succ_eq_append_getElem hk,
        List.flatMap_append, List.flatMap_singleton]
      rfl
    have hfits : ((fl.messages.take k).flatMap fun m => hsMessage m.msgType m.body).length +
        (4 + s.len) ≤ outLen := by
      have hsplit : fl.bytes = ((fl.messages.take (k + 1)).flatMap fun m => hsMessage m.msgType m.body) ++
          (fl.messages.drop (k + 1)).flatMap fun m => hsMessage m.msgType m.body := by
        rw [← List.flatMap_append, List.take_append_drop, bytes]
      have hlen := congrArg List.length hsplit
      rw [htake, slice_eq_body hs] at hlen
      simp only [List.length_append, List.length_cons, toBe_length, ← hs.len_eq] at hlen
      omega
    have hpass : (r.serializeLoop arena outLen).body
        (prev, (fl.messages.take k).flatMap fun m => hsMessage m.msgType m.body) =
        .again (some s.seq, (fl.messages.take (k + 1)).flatMap fun m => hsMessage m.msgType m.body) := by
      have hcomplete := (isComplete_iff hs).mpr rfl
      simp only [Reassembler.serializeLoop, hnext, hcomplete, not_true_eq_false, if_false,
        if_neg (Nat.not_lt.mpr hfits), htake]
    rw [Loop.run_of_again hpass]
    apply ih (k + 1) (by omega)
    intro j
    simp only [Option.all_some, hs.seq_eq, decide_eq_true_eq]
    omega

theorem serializeFlight_eq (h : fl.Assembles pushed r arena) (hall : fl.CoveredBy pushed)
    {outLen : Nat} (hout : fl.bytes.length ≤ outLen) :
    r.serializeFlight arena outLen = .ok fl.bytes := by
  have hcomplete := h.coveredBy_iff.mp hall
  exact h.serializeLoop_run hout (fun k => (h.complete_iff_exists k).mp (hcomplete k))
    fl.messages.length 0 (Nat.zero_add _) (by simp)

end Flight.Assembles

theorem Flight.pushAll_prefix {finishedType : UInt8} {fl : Flight finishedType} {arena : Bytes}
    {frags early : List fl.Fragment} {last : Reassembler maxMsgs maxFrags × Bytes}
    (h : fl.pushAll arena frags = .ok last) (hearly : early <+: frags) :
    ∃ r arena', fl.pushAll arena early = .ok ((r : Reassembler maxMsgs maxFrags), arena') := by
  obtain ⟨rest, rfl⟩ := hearly
  rw [pushAll, List.foldlM_append] at h
  obtain ⟨⟨r, arena'⟩, hok, _⟩ := bind_eq_ok.mp h
  exact ⟨r, arena', hok⟩

/-- Whatever order, overlaps and duplicates the fragments arrive in: the flight is complete as soon
as every byte was pushed, and from then on its messages are read back in order. -/
theorem Flight.reassembled {finishedType : UInt8} (fl : Flight finishedType) {arena : Bytes}
    {frags early later : List fl.Fragment} {last : Reassembler maxMsgs maxFrags × Bytes}
    (hok : fl.pushAll arena frags = .ok last) (hearly : early <+: later) (hlater : later <+: frags) :
    ∃ r₁ arena₁ r₂ arena₂,
      fl.pushAll arena early = .ok ((r₁ : Reassembler maxMsgs maxFrags), arena₁) ∧
      fl.pushAll arena later = .ok ((r₂ : Reassembler maxMsgs maxFrags), arena₂) ∧
      (r₁.flightComplete fl.base finishedType = true ↔ fl.CoveredBy early) ∧
      (fl.CoveredBy early → ∀ outLen, fl.bytes.length ≤ outLen →
        r₂.serializeFlight arena₂ outLen = .ok fl.bytes) := by
  obtain ⟨r₂, arena₂, hsecond⟩ := Flight.pushAll_prefix hok hlater
  obtain ⟨r₁, arena₁, hfirst⟩ := Flight.pushAll_prefix hsecond hearly
  refine ⟨r₁, arena₁, r₂, arena₂, hfirst, hsecond, (Assembles.of_pushAll hfirst).flightComplete_iff, ?_⟩
  intro hall outLen hout
  exact (Assembles.of_pushAll hsecond).serializeFlight_eq (hall.mono hearly.subset) hout

namespace Sample

/-- A message of three bytes and a `Finished` of two. -/
def flight : Flight hsFinished where
  base := 1
  front := [⟨hsEncryptedExtensions, [1, 2, 3], by decide, by decide⟩]
  last := ⟨hsFinished, [8, 9], by decide, by decide⟩
  seqs := by decide
  front_type := by decide
  last_type := rfl

/-- The `Finished` first, then an empty fragment, and two fragments that overlap. -/
def fragments : List flight.Fragment :=
  [⟨⟨1, by decide⟩, 0, 2, by decide, by decide⟩, ⟨⟨0, by decide⟩, 3, 3, by decide, by decide⟩,
    ⟨⟨0, by decide⟩, 1, 3, by decide, by decide⟩, ⟨⟨0, by decide⟩, 0, 2, by decide, by decide⟩]

end Sample

theorem Flight.reassembled_sample :
    ∃ r arena, Sample.flight.pushAll (List.replicate 8 0) Sample.fragments =
        .ok ((r : Reassembler 2 2), arena) ∧
      r.flightComplete 1 hsFinished = true ∧
      r.serializeFlight arena 13 = .ok Sample.flight.bytes := by
  obtain ⟨last, hlast, _⟩ :
      ∃ last, (Sample.flight.pushAll (List.replicate 8 0) Sample.fragments :
        Except ReasmError (Reassembler 2 2 × Bytes)).toOption = some last ∧ true :=
    (Option.any_eq_true _ _).mp (by decide +kernel)
  obtain ⟨r, arena, r₂, arena₂, hok, hok₂, hcomplete, hbytes⟩ :=
    Sample.flight.reassembled (toOption_eq_some.mp hlast) (List.prefix_refl _) (List.prefix_refl _)
  have hall : Sample.flight.CoveredBy Sample.fragments := by decide
  cases hok.symm.trans hok₂
  exact ⟨r, arena, hok, hcomplete.mpr hall, hbytes hall 13 (by decide)⟩

end KrabiTls.Dtls
