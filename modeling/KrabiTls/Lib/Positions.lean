import Mathlib.Data.List.Induction
import Mathlib.Order.Basic

/-! Messages at positions. A sender in state `s` puts its next message at the position `pos s`, and
what it has put there decides on its next state. A receiver that counts along finds the positions
from the messages it takes; if it takes nothing at a position but what the sender put there, it takes
the sender's messages from the first on, without gaps. -/
namespace KrabiTls.Lib

section Positions
variable {σ μ π : Type} (next : σ → μ → σ) (pos : σ → π)

def placed : σ → List μ → List (π × μ)
  | _, [] => []
  | s, m :: ms => (pos s, m) :: placed (next s m) ms

theorem placed_append (s : σ) (ms more : List μ) :
    placed next pos s (ms ++ more) =
      placed next pos s ms ++ placed next pos (ms.foldl next s) more := by
  induction ms generalizing s with
  | nil => rfl
  | cons m ms ih => simp only [List.cons_append, placed, ih, List.foldl_cons]

variable [Preorder π] {next pos}

section Ascending
variable (hlt : ∀ s m, pos s < pos (next s m))
include hlt

theorem pos_le_foldl (s : σ) (ms : List μ) : pos s ≤ pos (ms.foldl next s) := by
  induction ms generalizing s with
  | nil => exact le_rfl
  | cons m ms ih => exact (hlt s m).le.trans (ih (next s m))

/-- The positions ascend from the one of the first state to below the one of the last. -/
theorem placed_bounds {s : σ} {ms : List μ} {x : π × μ} (hx : x ∈ placed next pos s ms) :
    pos s ≤ x.1 ∧ x.1 < pos (ms.foldl next s) := by
  induction ms generalizing s with
  | nil => cases hx
  | cons m ms ih =>
    rcases List.mem_cons.mp hx with rfl | hx
    · exact ⟨le_rfl, (hlt s m).trans_le (pos_le_foldl hlt (next s m) ms)⟩
    · exact ⟨(hlt s m).le.trans (ih hx).1, (ih hx).2⟩

/-- At the position of a state there is the message that was sent in it, if any. -/
theorem eq_of_mem_placed {s : σ} {ms : List μ} {m : μ} (h : (pos s, m) ∈ placed next pos s ms) :
    ∃ rest, ms = m :: rest := by
  cases ms with
  | nil => cases h
  | cons m' rest =>
    rcases List.mem_cons.mp h with heq | hlater
    · cases heq
      exact ⟨rest, rfl⟩
    · exact absurd (hlt s m') (placed_bounds hlt hlater).1.not_gt

/-- What is taken at positions is what was sent, up to some point. The receiver need only have
counted right as long as that is so. -/
theorem prefix_of_placed {s : σ} {sent : List μ} {taken : List (π × μ)}
    (hcount : ∀ front x rest, taken = front ++ x :: rest → front.map Prod.snd <+: sent →
      x.1 = pos ((front.map Prod.snd).foldl next s))
    (hgenuine : ∀ x ∈ taken, x ∈ placed next pos s sent) : taken.map Prod.snd <+: sent := by
  induction taken using List.reverseRecOn with
  | nil => exact List.nil_prefix
  | append_singleton front x ih =>
    have hfront : front.map Prod.snd <+: sent := by
      refine ih (fun front' y rest heq => ?_) fun y hy => hgenuine y (List.mem_append_left _ hy)
      exact hcount front' y (rest ++ [x]) (by rw [heq, List.append_assoc, List.cons_append])
    obtain ⟨rest, hsent⟩ := hfront
    have hpos := hcount front x [] rfl ⟨rest, hsent⟩
    have hmem := hgenuine x (List.mem_append_right _ List.mem_cons_self)
    rw [← hsent, placed_append] at hmem
    rcases List.mem_append.mp hmem with hbefore | hhere
    · -- a position that was used before is below the current one
      have hbelow := (placed_bounds hlt hbefore).2
      rw [hpos] at hbelow
      exact absurd hbelow (lt_irrefl _)
    · obtain ⟨p, m⟩ := x
      cases hpos
      obtain ⟨later, rfl⟩ := eq_of_mem_placed hlt hhere
      exact ⟨later, by simp [← hsent]⟩

end Ascending

end Positions

end KrabiTls.Lib
