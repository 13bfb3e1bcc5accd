import Mathlib.Data.List.Nodup
import Mathlib.Data.List.Range

/-! Logs of `(generation, number)` pairs in which each generation counts 0, 1, 2, ... modulo `m`. -/
namespace KrabiTls.Lib

def Consecutive (m : Nat) (l : List Nat) : Prop :=
  l = (List.range l.length).map (· % m)

theorem consecutive_nil (m : Nat) : Consecutive m [] := rfl

theorem Consecutive.append {m n : Nat} {l : List Nat} (h : Consecutive m l)
    (hn : n = l.length % m) : Consecutive m (l ++ [n]) := by
  unfold Consecutive at h ⊢
  conv_lhs => rw [h, hn]
  simp [List.range_succ]

theorem Consecutive.nodup {m : Nat} {l : List Nat} (h : Consecutive m l) (hle : l.length ≤ m) :
    l.Nodup := by
  rw [h]
  refine List.Nodup.map_on ?_ List.nodup_range
  intro i hi j hj hij
  rw [List.mem_range] at hi hj
  rwa [Nat.mod_eq_of_lt (by omega), Nat.mod_eq_of_lt (by omega)] at hij

variable {γ : Type} [DecidableEq γ]

def numbers (g : γ) (log : List (γ × Nat)) : List Nat :=
  (log.filter (·.1 = g)).map Prod.snd

def Numbered (m : Nat) (log : List (γ × Nat)) : Prop :=
  ∀ g, Consecutive m (numbers g log)

@[simp] theorem numbers_nil (g : γ) : numbers g [] = [] := rfl

@[simp] theorem numbers_append (g : γ) (log log' : List (γ × Nat)) :
    numbers g (log ++ log') = numbers g log ++ numbers g log' := by
  simp [numbers]

@[simp] theorem numbers_singleton_self (g : γ) (n : Nat) : numbers g [(g, n)] = [n] := by
  simp [numbers]

theorem numbers_length_le (g : γ) (log : List (γ × Nat)) :
    (numbers g log).length ≤ log.length := by
  rw [numbers, List.length_map]
  exact List.length_filter_le _ _

theorem numbers_singleton_of_ne {g g' : γ} (h : g' ≠ g) (n : Nat) : numbers g [(g', n)] = [] := by
  simp [numbers, h]

@[simp] theorem numbers_block_self (g : γ) (l : List Nat) : numbers g (l.map (g, ·)) = l := by
  simp [numbers, List.filter_map, Function.comp_def]

theorem numbers_block_of_ne {g g' : γ} (h : g' ≠ g) (l : List Nat) :
    numbers g (l.map (g', ·)) = [] := by
  simp [numbers, List.filter_map, Function.comp_def, h]

theorem numbered_nil (m : Nat) : Numbered m ([] : List (γ × Nat)) := fun _ => consecutive_nil m

theorem numbered_block {m : Nat} {l : List Nat} (g : γ)
    (h : Consecutive m l) : Numbered m (l.map (g, ·)) := by
  intro g'
  by_cases hg : g = g'
  · subst hg
    simpa using h
  · rw [numbers_block_of_ne hg]
    exact consecutive_nil m

theorem Numbered.append {m : Nat} {log : List (γ × Nat)} (h : Numbered m log) {g : γ} {n : Nat}
    (hn : n = (numbers g log).length % m) : Numbered m (log ++ [(g, n)]) := by
  intro g'
  by_cases hg : g = g'
  · subst hg
    rw [numbers_append, numbers_singleton_self]
    exact (h g).append hn
  · simpa [numbers_singleton_of_ne hg] using h g'

theorem nodup_of_numbers {log : List (γ × Nat)} (h : ∀ g, (numbers g log).Nodup) : log.Nodup := by
  induction log with
  | nil => exact List.nodup_nil
  | cons x rest ih =>
    have hx := h x.1
    simp only [numbers, List.filter_cons, decide_true, if_true, List.map_cons,
      List.nodup_cons] at hx
    refine List.nodup_cons.mpr ⟨fun hmem => hx.1 ?_, ih fun g => ?_⟩
    · exact List.mem_map.mpr ⟨x, List.mem_filter.mpr ⟨hmem, by simp⟩, rfl⟩
    · exact (h g).sublist (((List.sublist_cons_self x rest).filter _).map _)

/-- While no generation is used more than `m` times, no pair repeats. -/
theorem Numbered.nodup {m : Nat} {log : List (γ × Nat)} (h : Numbered m log)
    (hle : ∀ g, (numbers g log).length ≤ m) : log.Nodup :=
  nodup_of_numbers fun g => (h g).nodup (hle g)

end KrabiTls.Lib
