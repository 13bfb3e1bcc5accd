import Mathlib.Order.Interval.Set.OrdConnected

/-! Conditions that change with time, by the number of stretches in which they hold. -/
namespace KrabiTls.Lib
open Set

variable {τ : Type} [Preorder τ]

/-- `P` holds during at most `n` stretches of time. They may overlap. -/
def Stretches (n : Nat) (P : τ → Prop) : Prop :=
  ∃ ws : List (Set τ), ws.length ≤ n ∧ (∀ w ∈ ws, w.OrdConnected) ∧ ∀ t, P t ↔ ∃ w ∈ ws, t ∈ w

namespace Stretches
variable {n m : Nat} {P Q : τ → Prop}

theorem mono (h : Stretches n P) (hle : n ≤ m) : Stretches m P := by
  obtain ⟨ws, hlen, hws⟩ := h
  exact ⟨ws, hlen.trans hle, hws⟩

theorem congr (h : Stretches n P) (hiff : ∀ t, Q t ↔ P t) : Stretches n Q := by
  obtain ⟨ws, hlen, hconn, hws⟩ := h
  exact ⟨ws, hlen, hconn, fun t => (hiff t).trans (hws t)⟩

theorem of_never (h : ∀ t, ¬ P t) : Stretches n P :=
  ⟨[], Nat.zero_le _, by simp, by simpa using h⟩

theorem of_ordConnected (h : {t | P t}.OrdConnected) : Stretches 1 P :=
  ⟨[{t | P t}], Nat.le_refl _, by simpa using h, by simp⟩

/-- One stretch has no gaps. -/
theorem ordConnected (h : Stretches 1 P) : {t | P t}.OrdConnected := by
  obtain ⟨ws, hlen, hconn, hws⟩ := h
  match ws with
  | [] =>
    have hempty : {t | P t} = ∅ := by
      ext t
      simp [hws t]
    rw [hempty]
    exact ordConnected_empty
  | [w] =>
    have hw : {t | P t} = w := by
      ext t
      simp [hws t]
    rw [hw]
    exact hconn w (by simp)
  | _ :: _ :: _ =>
    simp only [List.length_cons] at hlen
    omega

/-- A further condition that holds during one stretch cuts each of the others. -/
theorem inter (h : Stretches n P) (hQ : {t | Q t}.OrdConnected) : Stretches n fun t => Q t ∧ P t := by
  obtain ⟨ws, hlen, hconn, hws⟩ := h
  refine ⟨ws.map ({t | Q t} ∩ ·), by rwa [List.length_map], ?_, fun t => ?_⟩
  · intro cut hmem
    obtain ⟨w, hw, rfl⟩ := List.mem_map.mp hmem
    exact hQ.inter (hconn w hw)
  · constructor
    · rintro ⟨hq, hp⟩
      obtain ⟨w, hw, ht⟩ := (hws t).mp hp
      exact ⟨_, List.mem_map_of_mem hw, hq, ht⟩
    · rintro ⟨cut, hmem, ht⟩
      obtain ⟨w, hw, rfl⟩ := List.mem_map.mp hmem
      exact ⟨ht.1, (hws t).mpr ⟨w, hw, ht.2⟩⟩

/-- One stretch for each way in which the condition can hold. -/
theorem exists_mem {α : Type} {l : List α} {R : α → τ → Prop}
    (h : ∀ a ∈ l, {t | R a t}.OrdConnected) : Stretches l.length fun t => ∃ a ∈ l, R a t := by
  refine ⟨l.map fun a => {t | R a t}, by rw [List.length_map], ?_, fun t => ?_⟩
  · intro w hw
    obtain ⟨a, ha, rfl⟩ := List.mem_map.mp hw
    exact h a ha
  · simp

end Stretches

end KrabiTls.Lib
