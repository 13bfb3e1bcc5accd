import Mathlib.Logic.Relation

/-! `loop { .. }` with a variant: one pass of the body either leaves the loop or yields a state of
smaller measure. Recursion is on a bound of the measure, so the loop evaluates in the kernel. Below
the loops, the runs of a transition system. -/
namespace KrabiTls.Lib

/-- The result of one pass over a loop body. -/
inductive Pass (ρ σ : Type) where
  | leave (result : ρ)
  | again (state : σ)

variable {ρ σ : Type}

/-- A loop body together with the variant that makes it terminate. -/
structure Loop (ρ σ : Type) where
  body : σ → Pass ρ σ
  variant : σ → Nat
  decreases : ∀ s t, body s = .again t → variant t < variant s

def Loop.runWithin (l : Loop ρ σ) : (n : Nat) → (s : σ) → l.variant s < n → ρ
  | 0, _, h => absurd h (Nat.not_lt_zero _)
  | n + 1, s, h =>
      match hbody : l.body s with
      | .leave r => r
      | .again t => l.runWithin n t (by have := l.decreases s t hbody; omega)

def Loop.run (l : Loop ρ σ) (s : σ) : ρ :=
  l.runWithin (l.variant s + 1) s (Nat.lt_succ_self _)

theorem Loop.runWithin_congr (l : Loop ρ σ) (n m : Nat) (s : σ) (hn : l.variant s < n)
    (hm : l.variant s < m) : l.runWithin n s hn = l.runWithin m s hm := by
  induction n generalizing m s with
  | zero => exact absurd hn (Nat.not_lt_zero _)
  | succ n ih =>
    cases m with
    | zero => exact absurd hm (Nat.not_lt_zero _)
    | succ m =>
      unfold runWithin
      split
      · rfl
      · apply ih

variable {l : Loop ρ σ}

theorem Loop.run_of_leave {s : σ} {r : ρ} (h : l.body s = .leave r) : l.run s = r := by
  unfold run runWithin
  split
  · next hbody => rw [h] at hbody; cases hbody; rfl
  · next hbody => rw [h] at hbody; cases hbody

theorem Loop.run_of_again {s t : σ} (h : l.body s = .again t) : l.run s = l.run t := by
  conv => lhs; unfold run runWithin
  split
  · next hbody => rw [h] at hbody; cases hbody
  · next hbody => rw [h] at hbody; cases hbody; apply runWithin_congr

/-- What every pass preserves and every exit establishes holds of the loop's result. -/
theorem Loop.run_induct (inv : σ → Prop) (post : ρ → Prop)
    (hagain : ∀ s t, inv s → l.body s = .again t → inv t)
    (hleave : ∀ s r, inv s → l.body s = .leave r → post r) (s : σ) (hs : inv s) :
    post (l.run s) := by
  induction hn : l.variant s using Nat.strongRecOn generalizing s with
  | _ n ih =>
    cases hbody : l.body s with
    | leave r => rw [run_of_leave hbody]; exact hleave s r hs hbody
    | again t =>
      rw [run_of_again hbody]
      exact ih _ (hn ▸ l.decreases s t hbody) t (hagain s t hs hbody) rfl

open Relation

/-- What every step preserves, every run preserves. -/
theorem invariant_of_steps {σ : Type} {Step : σ → σ → Prop} (inv : σ → Prop)
    (hstep : ∀ s t, inv s → Step s t → inv t) {s t : σ} (hrun : ReflTransGen Step s t)
    (hs : inv s) : inv t := by
  induction hrun with
  | refl => exact hs
  | tail _ h ih => exact hstep _ _ ih h

/-- A simulation of every step by a run simulates every run. -/
theorem simulation_of_steps {σ τ : Type} {Step : σ → σ → Prop} {Abs : τ → τ → Prop} {f : σ → τ}
    (hstep : ∀ s t, Step s t → ReflTransGen Abs (f s) (f t)) {s t : σ}
    (hrun : ReflTransGen Step s t) : ReflTransGen Abs (f s) (f t) := by
  induction hrun with
  | refl => exact .refl
  | tail _ h ih => exact ih.trans (hstep _ _ h)

end KrabiTls.Lib
