import KrabiTls.Lib.Bytes
import KrabiTls.Lib.Loop

/-! Two runs side by side: related states that step with equal results stay related, so that no
result tells them apart. -/
namespace KrabiTls.Lib
variable {α ι ρ σ : Type}

/-- Equal results, related states. -/
structure Lockstep (R : σ → σ → Prop) (r r' : α × σ) : Prop where
  result : r.1 = r'.1
  state : R r.2 r'.2

def trace (step : σ → ι → α × σ) : σ → List ι → List α
  | _, [] => []
  | s, i :: rest => (step s i).1 :: trace step (step s i).2 rest

theorem trace_eq_of_lockstep {step : σ → ι → α × σ} {R : σ → σ → Prop}
    (hstep : ∀ s s' i, R s s' → Lockstep R (step s i) (step s' i)) (inputs : List ι) {s s' : σ}
    (h : R s s') : trace step s inputs = trace step s' inputs := by
  induction inputs generalizing s s' with
  | nil => rfl
  | cons i rest ih =>
    obtain ⟨hresult, hstate⟩ := hstep s s' i h
    rw [trace, trace, hresult, ih hstate]

/-- The same pass over a loop body, up to related results and states. -/
inductive Pass.Rel (Q : ρ → ρ → Prop) (R : σ → σ → Prop) : Pass ρ σ → Pass ρ σ → Prop where
  | leave {r r' : ρ} (h : Q r r') : Rel Q R (.leave r) (.leave r')
  | again {s s' : σ} (h : R s s') : Rel Q R (.again s) (.again s')

/-- Loops whose passes go alike end alike. -/
theorem Loop.run_rel {l : Loop ρ σ} {Q : ρ → ρ → Prop} {R : σ → σ → Prop}
    (hbody : ∀ s s', R s s' → Pass.Rel Q R (l.body s) (l.body s')) {s s' : σ} (h : R s s') :
    Q (l.run s) (l.run s') := by
  induction hn : l.variant s using Nat.strongRecOn generalizing s s' with
  | _ n ih =>
    have hpass := hbody s s' h
    generalize hs : l.body s = pass at hpass
    generalize hs' : l.body s' = pass' at hpass
    cases hpass with
    | leave hleave => rwa [run_of_leave hs, run_of_leave hs']
    | again hagain =>
      rw [run_of_again hs, run_of_again hs']
      exact ih _ (hn ▸ l.decreases s _ hs) hagain rfl

/-! Buffers that agree at the front. -/

/-- The first `k` bytes are the same. -/
def Block.AgreeTo {n : Nat} (k : Nat) (b b' : Block n) : Prop :=
  ∀ i < k, b.val[i]? = b'.val[i]?

namespace Block.AgreeTo
variable {n k : Nat} {b b' : Block n}

theorem mono {m : Nat} (h : AgreeTo k b b') (hle : m ≤ k) : AgreeTo m b b' :=
  fun i hi => h i (Nat.lt_of_lt_of_le hi hle)

theorem zero (b b' : Block n) : AgreeTo 0 b b' := fun _ h => absurd h (Nat.not_lt_zero _)

theorem slice_eq (h : AgreeTo k b b') (start : Nat) {stop : Nat} (hstop : stop ≤ k) :
    slice b.val start stop = slice b'.val start stop := by
  apply List.ext_getElem?
  intro i
  by_cases hi : start + i < stop
  · rw [getElem?_slice hi, getElem?_slice hi]
    exact h _ (by omega)
  · rw [List.getElem?_eq_none (by simp; omega), List.getElem?_eq_none (by simp; omega)]

theorem headD_drop_eq (h : AgreeTo k b b') {start : Nat} (hstart : start < k) (x : UInt8) :
    (b.val.drop start).headD x = (b'.val.drop start).headD x := by
  rw [List.headD_eq_head?_getD, List.headD_eq_head?_getD, List.head?_drop, List.head?_drop,
    h start hstart]

end Block.AgreeTo

theorem getElem?_overwrite (buf data : Bytes) (off i : Nat) :
    (overwrite buf off data)[i]? =
      if i < buf.length ∧ off ≤ i ∧ i < off + data.length then data[i - off]? else buf[i]? := by
  unfold overwrite
  by_cases hlen : i < buf.length
  · rw [List.getElem?_take_of_lt hlen, List.getElem?_append, List.getElem?_append]
    simp only [List.length_append, List.length_take, List.getElem?_take, List.getElem?_drop]
    rcases Nat.lt_or_ge i off with hoff | hoff
    · rw [if_pos (by omega), if_pos (by omega), if_pos hoff, if_neg (by omega)]
    · rcases Nat.lt_or_ge i (off + data.length) with hin | hout
      · rw [if_pos (by omega), if_neg (by omega), if_pos ⟨hlen, hoff, hin⟩]
        congr 1
        omega
      · rw [if_neg (by omega), if_neg (by omega)]
        congr 1
        omega
  · rw [List.getElem?_eq_none (by rw [List.length_take]; omega), if_neg (by omega),
      List.getElem?_eq_none (by omega)]

/-- The same write extends the agreement to its end. -/
theorem Block.AgreeTo.overwrite {n k off : Nat} {b b' : Block n} (h : AgreeTo k b b')
    (hoff : off ≤ k) (data : Bytes) :
    AgreeTo (max k (off + data.length)) (b.overwrite off data) (b'.overwrite off data) := by
  intro i hi
  have hb := b.property
  have hb' := b'.property
  simp only [Block.overwrite, getElem?_overwrite, hb, hb']
  split
  · rfl
  · rename_i hout
    rcases Nat.lt_or_ge i k with hk | hk
    · exact h i hk
    · rw [List.getElem?_eq_none (by omega), List.getElem?_eq_none (by omega)]

end KrabiTls.Lib
