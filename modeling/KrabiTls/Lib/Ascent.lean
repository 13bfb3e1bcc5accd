/-! Climbing a list from its first element until a goal is reached. -/
namespace KrabiTls.Lib

/-- The conditions of a climb: `stand` on every element it comes to, `rung i` on the step up from
height `i`. It ends at a `goal`, or at the top where `summit` holds. -/
structure Ascent (α : Type) where
  stand : α → Prop
  rung : Nat → α → α → Prop
  goal : α → Prop
  summit : Nat → α → Prop

namespace Ascent
variable {α : Type} {a : Ascent α}

def Climbs (a : Ascent α) : Nat → List α → Prop
  | _, [] => False
  | i, [x] => a.stand x ∧ (a.goal x ∨ a.summit i x)
  | i, x :: y :: above => a.stand x ∧ (a.goal x ∨ a.rung i x y ∧ a.Climbs (i + 1) (y :: above))

/-- A climb that ends at height `i + k`. -/
structure EndsAt (a : Ascent α) (i : Nat) (xs : List α) (k : Nat) (hk : k < xs.length) : Prop where
  stands : ∀ (j : Nat) (_ : j ≤ k), a.stand xs[j]
  rungs : ∀ (j : Nat) (_ : j < k), a.rung (i + j) xs[j] xs[j + 1]
  ends : a.goal xs[k] ∨ k + 1 = xs.length ∧ a.summit (i + k) xs[k]

theorem endsAt_succ {i k : Nat} {x y : α} {above : List α} (hk : k < (y :: above).length) :
    a.EndsAt i (x :: y :: above) (k + 1) (Nat.succ_lt_succ hk) ↔
      a.stand x ∧ a.rung i x y ∧ a.EndsAt (i + 1) (y :: above) k hk := by
  have hshift : ∀ j, i + (j + 1) = i + 1 + j := by omega
  have hends : (a.goal (y :: above)[k] ∨ k + 1 + 1 = (x :: y :: above).length ∧
      a.summit (i + (k + 1)) (y :: above)[k]) ↔
      (a.goal (y :: above)[k] ∨ k + 1 = (y :: above).length ∧
        a.summit (i + 1 + k) (y :: above)[k]) := by
    rw [hshift, List.length_cons, Nat.add_right_cancel_iff]
  constructor
  · intro h
    refine ⟨h.stands 0 (Nat.zero_le _), h.rungs 0 (Nat.succ_pos _), ?_, ?_, ?_⟩
    · intro j hj
      exact h.stands (j + 1) (Nat.succ_le_succ hj)
    · intro j hj
      rw [← hshift]
      exact h.rungs (j + 1) (Nat.succ_lt_succ hj)
    · exact hends.mp h.ends
  · rintro ⟨hstand, hrung, h⟩
    refine ⟨?_, ?_, ?_⟩
    · intro j hj
      cases j with
      | zero => exact hstand
      | succ j => exact h.stands j (Nat.le_of_succ_le_succ hj)
    · intro j hj
      cases j with
      | zero => exact hrung
      | succ j =>
        rw [hshift]
        exact h.rungs j (Nat.lt_of_succ_lt_succ hj)
    · exact hends.mpr h.ends

theorem endsAt_zero {i : Nat} {x : α} {above : List α} :
    a.EndsAt i (x :: above) 0 (Nat.succ_pos _) ↔
      a.stand x ∧ (a.goal x ∨ above = [] ∧ a.summit i x) := by
  constructor
  · intro h
    exact ⟨h.stands 0 (Nat.le_refl _), by simpa [eq_comm] using h.ends⟩
  · rintro ⟨hstand, hends⟩
    refine ⟨?_, fun j hj => absurd hj (Nat.not_lt_zero _), by simpa [eq_comm] using hends⟩
    intro j hj
    obtain rfl := Nat.le_zero.mp hj
    exact hstand

theorem climbs_iff {i : Nat} {xs : List α} :
    a.Climbs i xs ↔ ∃ k, ∃ hk : k < xs.length, a.EndsAt i xs k hk := by
  match xs with
  | [] => simp [Climbs]
  | [x] =>
    constructor
    · intro h
      exact ⟨0, Nat.one_pos, endsAt_zero.mpr (by simpa [Climbs] using h)⟩
    · rintro ⟨k, hk, h⟩
      obtain rfl : k = 0 := by simpa using hk
      simpa [Climbs] using endsAt_zero.mp h
  | x :: y :: above =>
    have ih : a.Climbs (i + 1) (y :: above) ↔ _ := climbs_iff
    constructor
    · rintro ⟨hstand, hgoal | ⟨hrung, hrest⟩⟩
      · exact ⟨0, Nat.succ_pos _, endsAt_zero.mpr ⟨hstand, .inl hgoal⟩⟩
      · obtain ⟨k, hk, hends⟩ := ih.mp hrest
        exact ⟨k + 1, Nat.succ_lt_succ hk, (endsAt_succ hk).mpr ⟨hstand, hrung, hends⟩⟩
    · rintro ⟨k, hk, h⟩
      cases k with
      | zero =>
        obtain ⟨hstand, hgoal | ⟨habove, -⟩⟩ := endsAt_zero.mp h
        · exact ⟨hstand, .inl hgoal⟩
        · cases habove
      | succ k =>
        have hk' : k < (y :: above).length := Nat.lt_of_succ_lt_succ hk
        obtain ⟨hstand, hrung, hends⟩ := (endsAt_succ hk').mp h
        exact ⟨hstand, .inr ⟨hrung, ih.mpr ⟨k, hk', hends⟩⟩⟩

/-- A climb without a goal goes through the whole list; one more element on top of it decides
where the longer climb ends. -/
theorem Climbs.concat_iff {i : Nat} {xs : List α} {y : α} (h : a.Climbs i xs)
    (hgoal : ∀ x ∈ xs, ¬ a.goal x)
    (hrung : ∀ x ∈ xs.getLast?, a.rung (i + (xs.length - 1)) x y) :
    a.Climbs i (xs ++ [y]) ↔ a.Climbs (i + xs.length) [y] := by
  match xs with
  | [] => exact h.elim
  | [x] =>
    have hx : ¬ a.goal x := hgoal x (by simp)
    have hstep : a.rung i x y := hrung x (by simp)
    constructor
    · rintro ⟨-, hend | ⟨-, hend⟩⟩
      · exact absurd hend hx
      · exact hend
    · intro hend
      exact ⟨h.1, .inr ⟨hstep, hend⟩⟩
  | x :: x' :: above =>
    obtain ⟨hstand, hend | ⟨hstep, hrest⟩⟩ := h
    · exact absurd hend (hgoal x (by simp))
    · have hgoal' : ∀ z ∈ x' :: above, ¬ a.goal z := fun z hz => hgoal z (List.mem_cons_of_mem x hz)
      have hrung' : ∀ z ∈ (x' :: above).getLast?,
          a.rung (i + 1 + ((x' :: above).length - 1)) z y := by
        intro z hz
        have hz' := hrung z (by simpa [List.getLast?_cons] using hz)
        have hi : i + ((x :: x' :: above).length - 1) = i + 1 + ((x' :: above).length - 1) := by
          simp only [List.length_cons]
          omega
        exact hi ▸ hz'
      have ih := hrest.concat_iff hgoal' hrung'
      have hi : i + (x :: x' :: above).length = i + 1 + (x' :: above).length := by
        simp only [List.length_cons]
        omega
      rw [hi, ← ih]
      constructor
      · rintro ⟨-, hend | ⟨-, hend⟩⟩
        · exact absurd hend (hgoal x (by simp))
        · exact hend
      · intro hend
        exact ⟨hstand, .inr ⟨hstep, hend⟩⟩

end Ascent

end KrabiTls.Lib
