import KrabiTls.Lib.Bytes

/-! A first-in first-out channel between a sender and a receiver that keep the same kind of state.
The sender's state moves on with every message; a receiver that makes the same moves in the same
order is in the sender's old state when it takes a message. -/
namespace KrabiTls.Lib

section Channel
variable {σ μ : Type} (Emit : σ → μ → σ → Prop)

/-- The messages a sender emits on its way from one state to another. -/
inductive Emits : σ → List μ → σ → Prop where
  | nil (s : σ) : Emits s [] s
  | cons {s t u : σ} {m : μ} {ms : List μ} (h : Emit s m t) (hrest : Emits t ms u) :
      Emits s (m :: ms) u

variable {Emit}

theorem Emits.single {s t : σ} {m : μ} (h : Emit s m t) : Emits Emit s [m] t :=
  .cons h (.nil t)

theorem Emits.append {s t u : σ} {ms ns : List μ} (h : Emits Emit s ms t) (hmore : Emits Emit t ns u) :
    Emits Emit s (ms ++ ns) u := by
  induction h with
  | nil s => exact hmore
  | cons h _ ih => exact .cons h (ih hmore)

/-- A receiver in state `r` has taken the messages `taken`; the rest of the sender's `log` is on
its way as `bytes`. -/
structure InFlight (Emit : σ → μ → σ → Prop) (wire : μ → Bytes) (r : σ) (taken : List μ) (s : σ)
    (log : List μ) (bytes : Bytes) : Prop where
  rest : ∃ rest, log = taken ++ rest ∧ Emits Emit r rest s ∧ bytes = rest.flatMap wire

variable {wire : μ → Bytes} {r s : σ} {taken log : List μ} {bytes : Bytes}

theorem inFlight_refl (s : σ) (log : List μ) : InFlight Emit wire s log s log [] :=
  ⟨⟨[], (List.append_nil _).symm, .nil s, rfl⟩⟩

namespace InFlight

theorem taken_prefix (h : InFlight Emit wire r taken s log bytes) : taken <+: log := by
  obtain ⟨rest, hlog, -⟩ := h.rest
  exact ⟨rest, hlog.symm⟩

theorem emits (h : InFlight Emit wire r taken s log bytes) {ms : List μ} {s' : σ}
    (hemits : Emits Emit s ms s') :
    InFlight Emit wire r taken s' (log ++ ms) (bytes ++ ms.flatMap wire) := by
  obtain ⟨rest, hlog, hrest, hbytes⟩ := h.rest
  refine ⟨rest ++ ms, ?_, hrest.append hemits, ?_⟩
  · rw [hlog, List.append_assoc]
  · rw [hbytes, List.flatMap_append]

/-- While there are bytes on the way, the receiver is in the state in which the first of them were
sent, and stays in step with the sender when it takes them. -/
theorem next (h : InFlight Emit wire r taken s log bytes) (hbytes : bytes ≠ []) :
    ∃ m r' bytes', Emit r m r' ∧ bytes = wire m ++ bytes' ∧
      InFlight Emit wire r' (taken ++ [m]) s log bytes' := by
  obtain ⟨rest, hlog, hrest, hwire⟩ := h.rest
  cases hrest with
  | nil => exact absurd hwire hbytes
  | @cons _ t _ m ms hemit hrest =>
    refine ⟨m, t, ms.flatMap wire, hemit, hwire, ⟨ms, ?_, hrest, rfl⟩⟩
    rw [hlog, List.append_assoc]
    rfl

end InFlight

end Channel

end KrabiTls.Lib
