/-! Peeling `Except` computations apart. -/
namespace KrabiTls.Lib

variable {e : ε} {p : Prop} {x : Except ε α} {k : Unit → Except ε α} {f : ε → ε'}

/-- Early return with an error. -/
def ensure (p : Prop) [Decidable p] (e : ε) : Except ε Unit :=
  if p then .ok () else .error e

theorem ensure_eq_ok [Decidable p] {u : Unit} : ensure p e = .ok u ↔ p := by
  unfold ensure
  split <;> simp_all

theorem bind_eq_ok {f : α → Except ε β} {b : β} :
    x >>= f = .ok b ↔ ∃ a, x = .ok a ∧ f a = .ok b := by
  cases x with
  | error e => simp [bind, Except.bind]
  | ok a => simp [bind, Except.bind]

theorem ensure_bind [Decidable p] : ensure p e >>= k = if p then k () else .error e := by
  unfold ensure
  split <;> rfl

theorem map_ensure_bind [Decidable p] {f : α → β} :
    (ensure p e >>= k).map f = ensure p e >>= fun u => (k u).map f := by
  unfold ensure
  split <;> rfl

/-- What follows a check may rely on it. -/
theorem ensure_bind_congr [Decidable p] {k' : Unit → Except ε α} (h : p → k () = k' ()) :
    ensure p e >>= k = ensure p e >>= k' := by
  rw [ensure_bind, ensure_bind]
  split
  next hp => exact h hp
  next => rfl

theorem ensure_bind_eq_error [Decidable p] {e' : ε} :
    ensure p e >>= k = .error e' ↔ ¬ p ∧ e' = e ∨ p ∧ k () = .error e' := by
  unfold ensure
  split <;> simp_all [bind, Except.bind, eq_comm]

theorem pure_eq_ok {a b : α} : (pure a : Except ε α) = .ok b ↔ a = b := by
  simp [pure, Except.pure]

theorem mapError_ok {a : α} : (Except.ok a).mapError f = .ok a := rfl

theorem mapError_error : (Except.error e : Except ε α).mapError f = .error (f e) := rfl

theorem mapError_eq_ok {a : α} : x.mapError f = .ok a ↔ x = .ok a := by
  cases x with
  | error e => simp only [mapError_error, reduceCtorEq]
  | ok b => simp only [mapError_ok, Except.ok.injEq]

theorem map_eq_ok {f : α → β} {b : β} : x.map f = .ok b ↔ ∃ a, x = .ok a ∧ f a = b := by
  cases x <;> simp [Except.map]

theorem map_eq_bind {f : α → β} : x.map f = x >>= fun a => .ok (f a) := by
  cases x <;> rfl

/-- An early `throw` was not taken; `k` is the rest of the `do` block. -/
theorem throwIf_eq_ok {c : Prop} [Decidable c] {k : PUnit → Except ε α} {a : α} :
    (if c then throw e >>= k else k ⟨⟩) = .ok a ↔ ¬ c ∧ k ⟨⟩ = .ok a := by
  split
  · simp_all [throw, throwThe, MonadExceptOf.throw, bind, Except.bind]
  · simp_all

theorem toOption_eq_some {a : α} : x.toOption = some a ↔ x = .ok a := by
  cases x <;> simp [Except.toOption]

end KrabiTls.Lib
