import Mathlib.Algebra.Order.BigOperators.Group.List
import KrabiTls.Dtls.Flight

/-! How much room the reassembler needs for a flight, whatever order its fragments come in. -/
namespace KrabiTls.Dtls
open Lib
variable {maxMsgs maxFrags : Nat}

/-- The regions of the slots fill the arena without a gap. -/
def Reassembler.Packed (r : Reassembler maxMsgs maxFrags) : Prop :=
  r.used = (r.slots.val.map Slot.len).sum

theorem Slot.addRange_len {s s' : Slot maxFrags} {start stop : Nat}
    (h : s.addRange start stop = .ok s') : s'.len = s.len := by
  unfold addRange at h
  split at h
  · cases h
    rfl
  · obtain ⟨ranges, -, hret⟩ := bind_eq_ok.mp h
    cases hret
    rfl

theorem Reassembler.Packed.push {r r' : Reassembler maxMsgs maxFrags} {arena arena' frag : Bytes}
    {msgType : UInt8} {seq msgLen fragOff : Nat} (hpacked : r.Packed)
    (h : r.push arena msgType seq msgLen fragOff frag = .ok (r', arena')) :
    r'.Packed ∧ arena'.length = arena.length := by
  obtain ⟨_, -, h⟩ := bind_eq_ok.mp h
  obtain ⟨⟨r₁, s, i⟩, hslot, h⟩ := bind_eq_ok.mp h
  obtain ⟨s', hadd, hret⟩ := bind_eq_ok.mp h
  cases hret
  have hslots : r₁.Packed ∧ r₁.slots.val[i]? = some s := by
    rcases slotFor_cases hslot with ⟨rfl, hget, -⟩ | ⟨-, -, rfl, rfl, hslots, hused⟩
    · exact ⟨hpacked, hget⟩
    · rw [Packed, hused, hslots, hpacked]
      simp
  obtain ⟨hi, hget⟩ := List.getElem?_eq_some_iff.mp hslots.2
  refine ⟨?_, overwrite_length _ _ _⟩
  have hsame : (r₁.slots.val.map Slot.len).set i s'.len = r₁.slots.val.map Slot.len := by
    have hi' : i < (r₁.slots.val.map Slot.len).length := by rwa [List.length_map]
    have hlen : s'.len = (r₁.slots.val.map Slot.len)[i] := by
      rw [Slot.addRange_len hadd, List.getElem_map, hget]
    rw [hlen, List.set_getElem_self]
  rw [Packed, Vec.set_val, List.map_set, hsame]
  exact hslots.1

namespace Flight
variable {finishedType : UInt8} (fl : Flight finishedType)

/-- The offsets at which the fragments of message `k` start, each once. -/
def starts (frags : List fl.Fragment) (k : Fin fl.messages.length) : List Nat :=
  ((frags.filter (·.index = k)).map Fragment.start).dedup

/-- There is a slot for every message, room for all bodies, and in every slot an interval for each
place where a fragment starts. -/
structure Fits (maxMsgs maxFrags arenaLen : Nat) (frags : List fl.Fragment) : Prop where
  slots : fl.messages.length ≤ maxMsgs
  arena : (fl.messages.map (·.body.length)).sum ≤ arenaLen
  ranges : ∀ k, (fl.starts frags k).length ≤ maxFrags

variable {fl}

theorem Fits.mono {arenaLen : Nat} {frags more : List fl.Fragment}
    (h : fl.Fits maxMsgs maxFrags arenaLen more) (hsub : frags ⊆ more) :
    fl.Fits maxMsgs maxFrags arenaLen frags where
  slots := h.slots
  arena := h.arena
  ranges := by
    intro k
    have hstarts : fl.starts frags k ⊆ fl.starts more k := by
      intro start hstart
      simp only [starts, List.mem_dedup, List.mem_map, List.mem_filter] at hstart ⊢
      obtain ⟨f, ⟨hmem, hindex⟩, rfl⟩ := hstart
      exact ⟨f, ⟨hsub hmem, hindex⟩, rfl⟩
    exact ((List.nodup_dedup _).subperm hstarts).length_le.trans (h.ranges k)

/-- The positions received of a message, as those of the fragments' intervals. -/
theorem received_eq_covered (frags : List fl.Fragment) (k : Fin fl.messages.length) :
    fl.received frags k =
      covered ((frags.filter (·.index = k)).map fun f => (f.start, f.stop)) := by
  ext i
  simp only [received, covered, Set.mem_ofPred_eq, List.mem_map, List.mem_filter, decide_eq_true_eq]
  constructor
  · rintro ⟨f, hmem, hindex, hi⟩
    exact ⟨_, ⟨f, ⟨hmem, hindex⟩, rfl⟩, hi⟩
  · rintro ⟨_, ⟨f, ⟨hmem, hindex⟩, rfl⟩, hi⟩
    exact ⟨f, hmem, hindex, hi⟩

namespace Assembles
variable {pushed : List fl.Fragment} {r : Reassembler maxMsgs maxFrags} {arena : Bytes}

/-- As long as a message has no slot, there is room for it. -/
theorem room (h : fl.Assembles pushed r arena) (hpacked : r.Packed) {k : Fin fl.messages.length}
    (hfresh : ∀ t ∈ r.slots.val, t.seq ≠ fl.base + k) :
    r.used + (fl.message k).body.length ≤ (fl.messages.map (·.body.length)).sum ∧
      r.slots.val.length < fl.messages.length := by
  -- the messages that have a slot, and `k`, are different ones
  let lenAt (i : Nat) : Nat := (fl.messages[i]?.map (·.body.length)).getD 0
  let indices := r.slots.val.map (·.seq - fl.base)
  have hslot (s : Slot maxFrags) (hs : s ∈ r.slots.val) :
      s.seq - fl.base < fl.messages.length ∧ fl.base ≤ s.seq ∧ s.len = lenAt (s.seq - fl.base) := by
    obtain ⟨j, hj⟩ := h.slots s hs
    have hseq : s.seq - fl.base = j := by rw [hj.seq_eq, Nat.add_sub_cancel_left]
    refine ⟨hseq ▸ j.isLt, hj.seq_eq ▸ Nat.le_add_right _ _, ?_⟩
    rw [hj.len_eq, hseq]
    simp [lenAt]
  have hnodup : (k.val :: indices).Nodup := by
    rw [List.nodup_cons]
    constructor
    · intro hmem
      obtain ⟨s, hs, heq⟩ := List.mem_map.mp hmem
      have hge := (hslot s hs).2.1
      exact hfresh s hs (by omega)
    · rw [List.nodup_iff_pairwise_ne, List.pairwise_map]
      have hapart := List.pairwise_map.mp h.apart
      refine hapart.imp_of_mem fun ha hb hne heq => hne.1 ?_
      have hge := (hslot _ ha).2.1
      have hge' := (hslot _ hb).2.1
      simp only [Slot.region]
      omega
  have hsubset : k.val :: indices ⊆ List.range fl.messages.length := by
    intro i hi
    rw [List.mem_range]
    rcases List.mem_cons.mp hi with rfl | hi
    · exact k.isLt
    · obtain ⟨s, hs, rfl⟩ := List.mem_map.mp hi
      exact (hslot s hs).1
  obtain ⟨among, hperm, hsublist⟩ := hnodup.subperm hsubset
  have hall : (List.range fl.messages.length).map lenAt = fl.messages.map (·.body.length) := by
    apply List.ext_getElem
    · simp
    · intro i hi hi'
      simp [lenAt, List.getElem?_eq_getElem (show i < fl.messages.length by simpa using hi')]
  have hused : (indices.map lenAt).sum = r.used := by
    rw [hpacked, List.map_map]
    exact congrArg List.sum (List.map_congr_left fun s hs => ((hslot s hs).2.2).symm)
  have hk : lenAt k = (fl.message k).body.length := by simp [lenAt]
  have hsum : ((k.val :: indices).map lenAt).sum ≤ ((List.range fl.messages.length).map lenAt).sum := by
    rw [← (hperm.map lenAt).sum_eq]
    exact (hsublist.map lenAt).sum_le_sum fun _ _ => Nat.zero_le _
  have hlength := hperm.length_eq ▸ hsublist.length_le
  rw [hall, List.map_cons, List.sum_cons, hused, hk] at hsum
  simp only [List.length_cons, List.length_range, indices, List.length_map] at hlength
  exact ⟨by omega, by omega⟩

theorem slotFor_isOk (h : fl.Assembles pushed r arena) (hpacked : r.Packed)
    (hslots : fl.messages.length ≤ maxMsgs)
    (harena : (fl.messages.map (·.body.length)).sum ≤ arena.length) (k : Fin fl.messages.length) :
    ∃ r' s i, r.slotFor arena.length (fl.message k).msgType (fl.base + k)
      (fl.message k).body.length = .ok (r', s, i) := by
  unfold Reassembler.slotFor
  split
  · rename_i s i hfind
    have hmem := List.fst_mem_of_mem_zipIdx (List.mem_of_find?_eq_some hfind)
    have hseq : s.seq = fl.base + k := by simpa using List.find?_some hfind
    obtain ⟨j, hj⟩ := h.slots s hmem
    obtain rfl : k = j := by
      have := hj.seq_eq
      apply Fin.ext
      omega
    exact ⟨r, s, i, bind_eq_ok.mpr ⟨(), ensure_eq_ok.mpr ⟨hj.type_eq, hj.len_eq⟩, rfl⟩⟩
  · rename_i hfind
    have hfresh : ∀ t ∈ r.slots.val, t.seq ≠ fl.base + k := by
      intro t ht
      obtain ⟨j, hj⟩ := List.mem_iff_getElem?.mp ht
      simpa using List.find?_eq_none.mp hfind (t, j) (List.mem_zipIdx_iff_getElem?.mpr hj)
    obtain ⟨hroom, hlt⟩ := h.room hpacked hfresh
    let s : Slot maxFrags := {
      seq := fl.base + k, msgType := (fl.message k).msgType
      len := (fl.message k).body.length, off := r.used, ranges := .empty }
    let slots : Vec (Slot maxFrags) maxMsgs := ⟨r.slots.val ++ [s], by
      rw [List.length_append, List.length_singleton]; omega⟩
    have hpush : r.slots.push s = some slots := Vec.push_eq_some.mpr rfl
    refine ⟨⟨slots, r.used + (fl.message k).body.length⟩, s, r.slots.val.length,
      bind_eq_ok.mpr ⟨(), ensure_eq_ok.mpr (by omega), ?_⟩⟩
    dsimp only
    rw [hpush]
    rfl

/-- There is room for the intervals of a message, wherever the next fragment falls. -/
theorem addRange_isOk {s : Slot maxFrags} {f : fl.Fragment} {seq : Nat}
    (hs : s.Holds seq (fl.message f.index) (fl.received pushed f.index) arena)
    (hranges : (fl.starts (pushed ++ [f]) f.index).length ≤ maxFrags) :
    ∃ s', s.addRange f.start f.stop = .ok s' := by
  by_cases hlt : f.start < f.stop
  · have hsep := hs.separated.insertInterval hlt
    have hcovered : covered (insertInterval f.start f.stop s.ranges.val) =
        covered (((pushed ++ [f]).filter (·.index = f.index)).map fun f => (f.start, f.stop)) := by
      rw [covered_insertInterval, hs.covered_eq, ← fl.received_append_self, received_eq_covered]
    have hle := hsep.length_le hcovered
    rw [List.map_map] at hle
    rw [Slot.addRange_eq hs.separated hlt, Vec.ofList?, dif_pos (hle.trans hranges)]
    exact ⟨_, rfl⟩
  · exact ⟨s, if_pos (Nat.le_of_not_lt hlt)⟩

theorem push_isOk (h : fl.Assembles pushed r arena) (hpacked : r.Packed) {f : fl.Fragment}
    (hfits : fl.Fits maxMsgs maxFrags arena.length (pushed ++ [f])) :
    ∃ r' arena', r.push arena (fl.message f.index).msgType (fl.base + f.index)
      (fl.message f.index).body.length f.start f.data = .ok (r', arena') := by
  obtain ⟨r', s, i, hslot⟩ := h.slotFor_isOk hpacked hfits.slots hfits.arena f.index
  have hbound := (fl.message f.index).bound
  have hordered := f.ordered
  have hwithin : f.stop ≤ (fl.message f.index).body.length := f.within
  have hdata := f.data_length
  have hholds : s.Holds (fl.base + f.index) (fl.message f.index) (fl.received pushed f.index) arena := by
    rcases Reassembler.slotFor_cases hslot with
      ⟨rfl, hget, hseq, -, -⟩ | ⟨hfresh, hroom, hs, rfl, hslots, hused⟩
    · obtain ⟨j, hj⟩ := h.slots s (List.mem_of_getElem? hget)
      obtain rfl : f.index = j := by
        have := hj.seq_eq
        apply Fin.ext
        omega
      exact hj
    · obtain ⟨j, hj⟩ := (h.allocate f.index hfresh hroom hs hslots hused).slots s (by simp [hslots])
      obtain rfl : f.index = j := by
        have hseq : s.seq = fl.base + f.index := by rw [hs]
        have := hj.seq_eq
        apply Fin.ext
        omega
      exact hj
  obtain ⟨s', hadd⟩ := addRange_isOk hholds (hfits.ranges f.index)
  have hstop : (f.start + f.data.length) % 2 ^ 32 = f.stop := by
    rw [hdata, Nat.mod_eq_of_lt (by omega)]
    omega
  rw [← Nat.mod_eq_of_lt (show f.start < 2 ^ 32 by omega), ← hstop] at hadd
  exact ⟨_, _, bind_eq_ok.mpr ⟨(), ensure_eq_ok.mpr (by omega),
    bind_eq_ok.mpr ⟨_, hslot, bind_eq_ok.mpr ⟨_, hadd, rfl⟩⟩⟩⟩

end Assembles

/-- Fragments that fit are all taken, in any order, with overlaps and duplicates. -/
theorem pushAll_isOk {arena : Bytes} {frags : List fl.Fragment}
    (hfits : fl.Fits maxMsgs maxFrags arena.length frags) :
    ∃ r arena', fl.pushAll arena frags = .ok ((r : Reassembler maxMsgs maxFrags), arena') ∧
      r.Packed ∧ arena'.length = arena.length := by
  induction frags using List.reverseRecOn with
  | nil => exact ⟨.new, arena, rfl, rfl, rfl⟩
  | append_singleton frags f ih =>
    obtain ⟨r, arena', hfrags, hpacked, hlen⟩ := ih (hfits.mono (List.subset_append_left _ _))
    rw [← hlen] at hfits
    obtain ⟨r', arena'', hpush⟩ := (Assembles.of_pushAll hfrags).push_isOk hpacked hfits
    obtain ⟨hpacked', hlen'⟩ := hpacked.push hpush
    refine ⟨r', arena'', ?_, hpacked', hlen'.trans hlen⟩
    rw [pushAll, List.foldlM_append]
    refine bind_eq_ok.mpr ⟨_, hfrags, ?_⟩
    simpa only [List.foldlM_cons, List.foldlM_nil, bind_pure] using hpush

end Flight

end KrabiTls.Dtls
