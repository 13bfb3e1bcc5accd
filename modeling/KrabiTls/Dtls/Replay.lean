import Mathlib.Data.List.Basic
import Mathlib.Data.List.Induction

/-! The anti-replay window over record sequence numbers. -/
namespace KrabiTls.Dtls

/-- Bit `i` of the bitmap marks `highest - i` as seen. -/
structure ReplayWindow where
  highest : Nat
  seenAny : Bool
  bitmap : BitVec 64
  deriving DecidableEq, Repr

namespace ReplayWindow

def window : Nat := 64

def new : ReplayWindow where
  highest := 0
  seenAny := false
  bitmap := 0

def accepts (w : ReplayWindow) (seq : Nat) : Bool :=
  if ¬ w.seenAny ∨ seq > w.highest then true
  else
    let delta := w.highest - seq
    if delta ≥ window then false else w.bitmap &&& (1#64 <<< delta) = 0#64

def mark (w : ReplayWindow) (seq : Nat) : ReplayWindow :=
  if ¬ w.seenAny then { highest := seq, seenAny := true, bitmap := 1#64 }
  else if seq > w.highest then
    let shift := seq - w.highest
    { w with
      bitmap := (if shift ≥ window then 0#64 else w.bitmap <<< shift) ||| 1#64
      highest := seq }
  else
    let delta := w.highest - seq
    if delta < window then { w with bitmap := w.bitmap ||| 1#64 <<< delta } else w

/-- The window after the numbers `marked` were marked, in any order. -/
structure Tracks (w : ReplayWindow) (marked : List Nat) : Prop where
  seenAny : w.seenAny = true ↔ marked ≠ []
  highest_mem : marked ≠ [] → w.highest ∈ marked
  le_highest : ∀ x ∈ marked, x ≤ w.highest
  bit : ∀ i < window, w.bitmap.getLsbD i = true ↔ ∃ x ∈ marked, x + i = w.highest

theorem Tracks.new : ReplayWindow.new.Tracks [] where
  seenAny := by simp [ReplayWindow.new]
  highest_mem := by simp
  le_highest := by simp
  bit := by simp [ReplayWindow.new]

theorem getLsbD_one_shiftLeft {i delta : Nat} (hi : i < window) :
    (1#64 <<< delta).getLsbD i = true ↔ i = delta := by
  simp only [window] at hi
  simp only [BitVec.getLsbD_shiftLeft, BitVec.getLsbD_one]
  simp
  omega

theorem and_one_shiftLeft_eq_zero {b : BitVec 64} {delta : Nat} (hdelta : delta < window) :
    b &&& (1#64 <<< delta) = 0#64 ↔ b.getLsbD delta = false := by
  have hself := (getLsbD_one_shiftLeft hdelta).mpr rfl
  constructor
  · intro h
    have hbit := congrArg (·.getLsbD delta) h
    simpa [hself] using hbit
  · intro h
    apply BitVec.eq_of_getLsbD_eq
    intro i hi
    rw [BitVec.getLsbD_and, BitVec.getLsbD_zero]
    by_cases heq : i = delta
    · rw [heq, h, Bool.false_and]
    · have hother := mt (getLsbD_one_shiftLeft hi).mp heq
      rw [Bool.not_eq_true] at hother
      rw [hother, Bool.and_false]

variable {w : ReplayWindow} {marked : List Nat}

/-- A number is accepted if none was marked, if it is ahead of all of them, or if it lies inside the
window and was not marked. -/
theorem Tracks.accepts_iff (h : w.Tracks marked) (seq : Nat) :
    w.accepts seq = true ↔
      marked = [] ∨ w.highest < seq ∨ seq ∉ marked ∧ w.highest - seq < window := by
  unfold accepts
  by_cases hany : marked = []
  · have hseen : w.seenAny = false := by
      rw [← Bool.not_eq_true, h.seenAny]
      exact not_not_intro hany
    simp [hseen, hany]
  · have hseen := h.seenAny.mpr hany
    by_cases hhigh : w.highest < seq
    · simp [hhigh]
    · rw [if_neg (by simp [hseen, hhigh])]
      dsimp only
      split
      · simp [hany, hhigh]
        omega
      · rename_i hdelta
        rw [Nat.not_le] at hdelta
        have hbit : w.bitmap.getLsbD (w.highest - seq) = true ↔ seq ∈ marked := by
          rw [h.bit _ hdelta]
          constructor
          · rintro ⟨x, hx, heq⟩
            obtain rfl : x = seq := by
              have := h.le_highest x hx
              omega
            exact hx
          · intro hmem
            exact ⟨seq, hmem, by omega⟩
        rw [decide_eq_true_iff, and_one_shiftLeft_eq_zero hdelta, ← Bool.not_eq_true, hbit]
        simp [hany, hhigh, hdelta]

theorem Tracks.mark (h : w.Tracks marked) (seq : Nat) : (w.mark seq).Tracks (seq :: marked) := by
  unfold ReplayWindow.mark
  by_cases hany : marked = []
  · subst hany
    have hseen : w.seenAny = false := by
      rw [← Bool.not_eq_true, h.seenAny]
      simp
    rw [if_pos (by simp [hseen])]
    refine ⟨by simp, by simp, by simp, ?_⟩
    intro i _
    simp [BitVec.getLsbD_one]
  · have hseen := h.seenAny.mpr hany
    have hmem := h.highest_mem hany
    rw [if_neg (by simp [hseen])]
    split
    · rename_i hhigh
      refine ⟨by simp [hseen], by simp, ?_, ?_⟩
      · intro x hx
        rcases List.mem_cons.mp hx with rfl | hx
        · exact Nat.le_refl _
        · exact Nat.le_trans (h.le_highest x hx) (Nat.le_of_lt hhigh)
      · intro i hi
        dsimp only
        -- an older number moves up by the distance to the new highest
        have hold : (if seq - w.highest ≥ window then 0#64 else
              w.bitmap <<< (seq - w.highest)).getLsbD i = true ↔ ∃ x ∈ marked, x + i = seq := by
          by_cases hshift : seq - w.highest ≤ i
          · have hmoved (x : Nat) : x + (i - (seq - w.highest)) = w.highest ↔ x + i = seq := by
              omega
            rw [if_neg (by omega), BitVec.getLsbD_shiftLeft]
            simp only [show i < 64 from hi, decide_true, Bool.true_and, Nat.not_lt.mpr hshift,
              decide_false, Bool.not_false, h.bit (i - (seq - w.highest)) (by omega), hmoved]
          · have hnone : ¬ ∃ x ∈ marked, x + i = seq := by
              rintro ⟨x, hx, heq⟩
              have := h.le_highest x hx
              omega
            simp only [hnone, iff_false, Bool.not_eq_true]
            split
            · simp
            · rw [BitVec.getLsbD_shiftLeft]
              simp [Nat.lt_of_not_le hshift]
        rw [BitVec.getLsbD_or, Bool.or_eq_true, hold, or_comm]
        simp [BitVec.getLsbD_one]
    · rename_i hhigh
      have hle : ∀ x ∈ seq :: marked, x ≤ w.highest := by
        intro x hx
        rcases List.mem_cons.mp hx with rfl | hx
        · omega
        · exact h.le_highest x hx
      dsimp only
      split
      · refine ⟨by simp [hseen], fun _ => List.mem_cons_of_mem _ hmem, hle, ?_⟩
        intro i hi
        have hnew : i = w.highest - seq ↔ seq + i = w.highest := by omega
        rw [BitVec.getLsbD_or, Bool.or_eq_true, h.bit i hi, getLsbD_one_shiftLeft hi, hnew, or_comm]
        simp
      · rename_i hdelta
        refine ⟨by simp [hseen], fun _ => List.mem_cons_of_mem _ hmem, hle, ?_⟩
        intro i hi
        have hold : seq + i ≠ w.highest := by omega
        rw [h.bit i hi]
        simp [hold]

theorem Tracks.of_mem_iff {marked' : List Nat} (h : w.Tracks marked)
    (hmem : ∀ x, x ∈ marked ↔ x ∈ marked') : w.Tracks marked' := by
  have hnil : marked = [] ↔ marked' = [] := by
    simp only [List.eq_nil_iff_forall_not_mem, hmem]
  refine ⟨h.seenAny.trans (not_congr hnil), ?_, ?_, ?_⟩
  · intro hne
    exact (hmem _).mp (h.highest_mem (mt hnil.mp hne))
  · intro x hx
    exact h.le_highest x ((hmem x).mpr hx)
  · intro i hi
    simp only [h.bit i hi, hmem]

def marks (seqs : List Nat) : ReplayWindow := seqs.foldl mark new

theorem tracks_marks (seqs : List Nat) : (marks seqs).Tracks seqs := by
  induction seqs using List.reverseRecOn with
  | nil => exact .new
  | append_singleton seqs seq ih =>
    have hstep : marks (seqs ++ [seq]) = (marks seqs).mark seq := by
      rw [marks, List.foldl_append]
      rfl
    rw [hstep]
    exact (ih.mark seq).of_mem_iff (by simp [or_comm])

theorem Tracks.highest_eq (h : w.Tracks marked) (hany : marked ≠ []) :
    w.highest = marked.foldr max 0 := by
  have hbound : ∀ l : List Nat, ∀ x ∈ l, x ≤ l.foldr max 0 := by
    intro l
    induction l with
    | nil => simp
    | cons y l ih =>
      intro x hx
      rcases List.mem_cons.mp hx with rfl | hx
      · exact Nat.le_max_left _ _
      · exact Nat.le_trans (ih x hx) (Nat.le_max_right _ _)
  have hleast : ∀ l : List Nat, (∀ x ∈ l, x ≤ w.highest) → l.foldr max 0 ≤ w.highest := by
    intro l hl
    induction l with
    | nil => exact Nat.zero_le _
    | cons y l ih =>
      obtain ⟨hy, hl⟩ := List.forall_mem_cons.mp hl
      exact Nat.max_le.mpr ⟨hy, ih hl⟩
  exact Nat.le_antisymm (hbound marked _ (h.highest_mem hany)) (hleast marked h.le_highest)

/-- After any sequence of marks the window accepts exactly what the set of marked numbers says, so
a marked number is never accepted again. -/
theorem accepts_marks (seqs : List Nat) (seq : Nat) :
    ((marks seqs).accepts seq = true ↔
      seqs = [] ∨ seqs.foldr max 0 < seq ∨ seq ∉ seqs ∧ seqs.foldr max 0 - seq < 64) ∧
    (seq ∈ seqs → (marks seqs).accepts seq = false) := by
  have htracks := tracks_marks seqs
  have hiff := htracks.accepts_iff seq
  refine ⟨?_, ?_⟩
  · rw [hiff]
    by_cases hany : seqs = []
    · simp [hany]
    · rw [htracks.highest_eq hany]
      rfl
  · intro hmem
    rw [← Bool.not_eq_true, hiff]
    rintro (rfl | hhigh | ⟨hnew, _⟩)
    · cases hmem
    · have := htracks.le_highest seq hmem
      omega
    · exact hnew hmem

end ReplayWindow

end KrabiTls.Dtls
