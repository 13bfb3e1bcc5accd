import Mathlib.Data.List.Dedup
import Mathlib.Data.List.Perm.Subperm
import Mathlib.Order.Interval.Set.LinearOrder

/-! Finite unions of half-open intervals, kept sorted and apart. -/
namespace KrabiTls.Lib
variable {α : Type} [LinearOrder α]

/-- The points of the intervals of a list. -/
def covered (ranges : List (α × α)) : Set α :=
  { i | ∃ r ∈ ranges, i ∈ Set.Ico r.1 r.2 }

@[simp] theorem covered_nil : covered ([] : List (α × α)) = ∅ := by
  simp [covered]

@[simp] theorem covered_cons (r : α × α) (rest : List (α × α)) :
    covered (r :: rest) = Set.Ico r.1 r.2 ∪ covered rest := by
  ext i
  simp [covered]

/-- No interval is empty, they ascend, and two neighbours do not touch. -/
structure Separated (ranges : List (α × α)) : Prop where
  nonempty : ∀ r ∈ ranges, r.1 < r.2
  gaps : ranges.Pairwise fun a b => a.2 < b.1

theorem Separated.nil : Separated ([] : List (α × α)) :=
  ⟨by simp, .nil⟩

theorem separated_cons {r : α × α} {rest : List (α × α)} :
    Separated (r :: rest) ↔ r.1 < r.2 ∧ (∀ b ∈ rest, r.2 < b.1) ∧ Separated rest := by
  constructor
  · intro h
    have hgaps := List.pairwise_cons.mp h.gaps
    exact ⟨h.nonempty r List.mem_cons_self, hgaps.1,
      fun b hb => h.nonempty b (List.mem_cons_of_mem _ hb), hgaps.2⟩
  · rintro ⟨hr, hfirst, hrest⟩
    exact ⟨List.forall_mem_cons.mpr ⟨hr, hrest.nonempty⟩, List.pairwise_cons.mpr ⟨hfirst, hrest.gaps⟩⟩

/-- Add `[lo, hi)`: it absorbs every interval that it overlaps or touches. -/
def insertInterval (lo hi : α) : List (α × α) → List (α × α)
  | [] => [(lo, hi)]
  | r :: rest =>
      if r.2 < lo then r :: insertInterval lo hi rest
      else if hi < r.1 then (lo, hi) :: r :: rest
      else insertInterval (min lo r.1) (max hi r.2) rest

theorem covered_insertInterval (lo hi : α) (ranges : List (α × α)) :
    covered (insertInterval lo hi ranges) = covered ranges ∪ Set.Ico lo hi := by
  fun_induction insertInterval lo hi ranges with
  | case1 lo hi => simp
  | case2 lo hi r rest _ ih => rw [covered_cons, ih, covered_cons, Set.union_assoc]
  | case3 lo hi r rest => rw [covered_cons, Set.union_comm]
  | case4 lo hi r rest hlo hhi ih =>
    -- the two intervals meet, so their hull is their union
    have hhull := Set.Ico_union_Ico' (not_lt.mp hhi) (not_lt.mp hlo)
    rw [ih, covered_cons, ← hhull, Set.union_comm (Set.Ico lo hi), ← Set.union_assoc,
      Set.union_comm (covered rest)]

theorem lt_insertInterval {x lo hi : α} {ranges : List (α × α)} (hlo : x < lo)
    (hranges : ∀ r ∈ ranges, x < r.1) : ∀ r ∈ insertInterval lo hi ranges, x < r.1 := by
  fun_induction insertInterval lo hi ranges with
  | case1 lo hi => simpa using hlo
  | case2 lo hi r rest _ ih =>
    obtain ⟨hr, hrest⟩ := List.forall_mem_cons.mp hranges
    exact List.forall_mem_cons.mpr ⟨hr, ih hlo hrest⟩
  | case3 lo hi r rest => exact List.forall_mem_cons.mpr ⟨hlo, hranges⟩
  | case4 lo hi r rest _ _ ih =>
    obtain ⟨hr, hrest⟩ := List.forall_mem_cons.mp hranges
    exact ih (lt_min hlo hr) hrest

theorem Separated.insertInterval {lo hi : α} {ranges : List (α × α)} (h : Separated ranges)
    (hlt : lo < hi) : Separated (insertInterval lo hi ranges) := by
  fun_induction Lib.insertInterval lo hi ranges with
  | case1 lo hi => exact ⟨by simpa using hlt, List.pairwise_singleton _ _⟩
  | case2 lo hi r rest hbefore ih =>
    obtain ⟨hr, hfirst, hrest⟩ := separated_cons.mp h
    exact separated_cons.mpr ⟨hr, lt_insertInterval hbefore hfirst, ih hrest hlt⟩
  | case3 lo hi r rest _ hbehind =>
    obtain ⟨hr, hfirst, _⟩ := separated_cons.mp h
    refine separated_cons.mpr ⟨hlt, List.forall_mem_cons.mpr ⟨hbehind, ?_⟩, h⟩
    intro b hb
    exact hbehind.trans (hr.trans (hfirst b hb))
  | case4 lo hi r rest _ _ ih =>
    exact ih (separated_cons.mp h).2.2 ((min_le_left _ _).trans_lt (hlt.trans_le (le_max_left _ _)))

section First
variable {r : α × α} {rest : List (α × α)} (h : Separated (r :: rest))
include h

/-- The points of the later intervals are those behind the first one. -/
theorem Separated.mem_rest_iff {i : α} :
    i ∈ covered rest ↔ i ∈ covered (r :: rest) ∧ r.2 < i := by
  obtain ⟨-, hfirst, -⟩ := separated_cons.mp h
  rw [covered_cons]
  constructor
  · rintro ⟨r', hmem, hle, hlt⟩
    exact ⟨.inr ⟨r', hmem, hle, hlt⟩, (hfirst r' hmem).trans_le hle⟩
  · rintro ⟨hi | hi, hlt⟩
    · exact absurd hi.2 (not_lt.mpr hlt.le)
    · exact hi

theorem Separated.first_le {i : α} (hi : i ∈ covered (r :: rest)) : r.1 ≤ i := by
  obtain ⟨hr, -, -⟩ := separated_cons.mp h
  by_cases hlt : r.2 < i
  · exact (hr.trans hlt).le
  · have hrest : i ∉ covered rest := fun hrest => hlt (h.mem_rest_iff.mp hrest).2
    rw [covered_cons] at hi
    exact (hi.resolve_right hrest).1

theorem Separated.stop_not_mem : r.2 ∉ covered (r :: rest) := by
  rw [covered_cons]
  rintro (hi | hi)
  · exact lt_irrefl _ hi.2
  · exact lt_irrefl _ (h.mem_rest_iff.mp hi).2

end First

variable {ranges : List (α × α)}

/-- A set of points has one separated list of intervals at most. -/
theorem Separated.ext {a b : List (α × α)} (ha : Separated a) (hb : Separated b)
    (hcovered : covered a = covered b) : a = b := by
  have hfront {r : α × α} {rest : List (α × α)} (h : Separated (r :: rest)) :
      r.1 ∈ covered (r :: rest) := ⟨r, by simp, le_refl _, h.nonempty r (by simp)⟩
  induction a generalizing b with
  | nil =>
    cases b with
    | nil => rfl
    | cons r' rest' =>
      have hmem := hcovered ▸ hfront hb
      simp at hmem
  | cons r rest ih =>
    cases b with
    | nil =>
      have hmem := hcovered ▸ hfront ha
      simp at hmem
    | cons r' rest' =>
      have hiff (i : α) : i ∈ covered (r :: rest) ↔ i ∈ covered (r' :: rest') := by rw [hcovered]
      have hstart : r.1 = r'.1 :=
        le_antisymm (ha.first_le ((hiff _).mpr (hfront hb))) (hb.first_le ((hiff _).mp (hfront ha)))
      -- the end of either interval is not covered, so it does not lie within the other one
      have hstop : r.2 = r'.2 := by
        apply le_antisymm
        · by_contra hlt
          refine hb.stop_not_mem ((hiff _).mp ⟨r, by simp, ?_, not_le.mp hlt⟩)
          exact hstart ▸ (hb.nonempty r' (by simp)).le
        · by_contra hlt
          refine ha.stop_not_mem ((hiff _).mpr ⟨r', by simp, ?_, not_le.mp hlt⟩)
          exact hstart ▸ (ha.nonempty r (by simp)).le
      obtain rfl : r = r' := Prod.ext hstart hstop
      rw [ih (separated_cons.mp ha).2.2 (separated_cons.mp hb).2.2 (Set.ext fun i => ?_)]
      rw [ha.mem_rest_iff, hb.mem_rest_iff, hcovered]

/-- A separated list has one interval if it covers one. -/
theorem Separated.covered_eq_Ico_iff (h : Separated ranges) {a b : α} (hab : a < b) :
    covered ranges = Set.Ico a b ↔ ranges = [(a, b)] := by
  have hone : covered [(a, b)] = Set.Ico a b := by simp
  constructor
  · intro heq
    exact h.ext ⟨by simpa using hab, List.pairwise_singleton _ _⟩ (heq.trans hone.symm)
  · rintro rfl
    exact hone

/-- Where an interval of a separated list ends, nothing is covered. -/
theorem Separated.stop_not_covered (h : Separated ranges) {r : α × α} (hr : r ∈ ranges) :
    r.2 ∉ covered ranges := by
  induction ranges with
  | nil => cases hr
  | cons first rest ih =>
    obtain ⟨-, hfirst, hrest⟩ := separated_cons.mp h
    rcases List.mem_cons.mp hr with rfl | hr
    · exact h.stop_not_mem
    · rw [covered_cons]
      rintro (hi | hi)
      · exact lt_asymm hi.2 ((hfirst r hr).trans (hrest.nonempty r hr))
      · exact ih hrest hr hi

/-- Of two intervals of a separated list, the one that starts first ends before the other starts. -/
theorem Separated.before {ranges : List (α × α)} (h : Separated ranges) {a b : α × α}
    (ha : a ∈ ranges) (hb : b ∈ ranges) (hlt : a.1 < b.1) : a.2 < b.1 := by
  induction ranges with
  | nil => cases ha
  | cons first rest ih =>
    obtain ⟨hfirst, hgaps, hrest⟩ := separated_cons.mp h
    rcases List.mem_cons.mp ha with rfl | ha'
    · rcases List.mem_cons.mp hb with rfl | hb'
      · exact absurd hlt (lt_irrefl _)
      · exact hgaps b hb'
    · rcases List.mem_cons.mp hb with rfl | hb'
      · exact absurd (hlt.trans hfirst) (lt_asymm (hgaps a ha'))
      · exact ih hrest ha' hb'

/-- A separated list starts its intervals where some of the pieces start that it was made of. -/
theorem Separated.start_mem {pieces : List (α × α)} (h : Separated ranges)
    (hcovered : covered ranges = covered pieces) {r : α × α} (hr : r ∈ ranges) :
    r.1 ∈ pieces.map Prod.fst := by
  have hstart : r.1 ∈ covered pieces := hcovered ▸ ⟨r, hr, le_refl _, h.nonempty r hr⟩
  obtain ⟨p, hp, hle, hlt⟩ := hstart
  rcases hle.eq_or_lt with heq | hless
  · exact heq ▸ List.mem_map_of_mem hp
  · -- the interval that holds the start of the piece would end within the piece
    have hfront : p.1 ∈ covered ranges := hcovered ▸ ⟨p, hp, le_refl _, hless.trans hlt⟩
    obtain ⟨r', hr', hle', hlt'⟩ := hfront
    have hend := h.before hr' hr (hle'.trans_lt hless)
    have hin : r'.2 ∈ covered ranges := hcovered ▸ ⟨p, hp, hlt'.le, hend.trans hlt⟩
    exact absurd hin (h.stop_not_covered hr')

/-- A separated list has no more intervals than there are places where a piece starts. -/
theorem Separated.length_le {pieces : List (α × α)} (h : Separated ranges)
    (hcovered : covered ranges = covered pieces) :
    ranges.length ≤ (pieces.map Prod.fst).dedup.length := by
  have hnodup : (ranges.map Prod.fst).Nodup := by
    rw [List.nodup_iff_pairwise_ne, List.pairwise_map]
    refine h.gaps.imp_of_mem fun ha _ hgap heq => ?_
    exact lt_asymm hgap (heq ▸ h.nonempty _ ha)
  have hsubset : ranges.map Prod.fst ⊆ (pieces.map Prod.fst).dedup := by
    intro start hstart
    obtain ⟨r, hr, rfl⟩ := List.mem_map.mp hstart
    exact List.mem_dedup.mpr (h.start_mem hcovered hr)
  have hle := (hnodup.subperm hsubset).length_le
  rwa [List.length_map] at hle

end KrabiTls.Lib
