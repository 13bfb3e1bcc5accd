import KrabiTls.Lib.Loop

/-! Programs that keep their state when they fail and may wait forever, with rules of pre- and
postconditions. -/
namespace KrabiTls.Lib

variable {ε σ α β : Type}

/-- A program over a state: it fails, returns, or does not come back. -/
abbrev Program (ε σ : Type) := ExceptT ε (StateT σ Option)

namespace Program

variable {m : Program ε σ α}

def exec (m : Program ε σ α) (s : σ) : Option (Except ε α × σ) := (ExceptT.run m).run s

/-- A program by its effect. -/
def ofFun (f : σ → Option (Except ε α × σ)) : Program ε σ α := ExceptT.mk f

@[simp] theorem exec_ofFun (f : σ → Option (Except ε α × σ)) (s : σ) : (ofFun f).exec s = f s := rfl

@[simp] theorem exec_pure (a : α) (s : σ) : (pure a : Program ε σ α).exec s = some (.ok a, s) := rfl

@[simp] theorem exec_throw (e : ε) (s : σ) :
    (throw e : Program ε σ α).exec s = some (.error e, s) := rfl

/-- A computation that does not touch the state. -/
def ofExcept (x : Except ε α) : Program ε σ α := ofFun fun s => some (x, s)

@[simp] theorem exec_ofExcept (x : Except ε α) (s : σ) :
    (ofExcept x : Program ε σ α).exec s = some (x, s) := rfl

theorem exec_bind (m : Program ε σ α) (f : α → Program ε σ β) (s : σ) :
    (m >>= f).exec s = match m.exec s with
      | none => none
      | some (.error e, s) => some (.error e, s)
      | some (.ok a, s) => (f a).exec s := by
  show Option.bind (m.exec s) _ = _
  rcases m.exec s with _ | ⟨_ | a, s'⟩ <;> rfl

theorem exec_bind_eq_ok {f : α → Program ε σ β} {s s' : σ} {b : β} :
    (m >>= f).exec s = some (.ok b, s') ↔
      ∃ a t, m.exec s = some (.ok a, t) ∧ (f a).exec t = some (.ok b, s') := by
  rw [exec_bind]
  rcases m.exec s with _ | ⟨_ | a, t⟩ <;> simp [and_assoc]

theorem exec_ofExcept_eq_ok {x : Except ε α} {s s' : σ} {a : α} :
    (ofExcept x : Program ε σ α).exec s = some (.ok a, s') ↔ x = .ok a ∧ s = s' := by
  simp

/-- Whenever `m` ends from a state in `pre`, it returns within `post` or fails within `fail`. -/
def Triple (pre : σ → Prop) (m : Program ε σ α) (post : α → σ → Prop) (fail : ε → σ → Prop) : Prop :=
  ∀ s, pre s → ∀ r s', m.exec s = some (r, s') →
    match r with
    | .ok a => post a s'
    | .error e => fail e s'

variable {pre pre' : σ → Prop} {post post' : α → σ → Prop} {fail fail' : ε → σ → Prop}

theorem Triple.ok (h : Triple pre m post fail) {s s' : σ} {a : α} (hs : pre s)
    (hm : m.exec s = some (.ok a, s')) : post a s' := h s hs _ _ hm

theorem Triple.error {m : Program ε σ α} (h : Triple pre m post fail) {s s' : σ} {e : ε}
    (hs : pre s) (hm : m.exec s = some (.error e, s')) : fail e s' := h s hs _ _ hm

theorem Triple.mono (h : Triple pre m post fail) (hpre : ∀ s, pre' s → pre s)
    (hpost : ∀ a s, post a s → post' a s) (hfail : ∀ e s, fail e s → fail' e s) :
    Triple pre' m post' fail' := by
  intro s hs r s' hm
  have hr := h s (hpre s hs) r s' hm
  cases r with
  | ok a => exact hpost a s' hr
  | error e => exact hfail e s' hr

theorem Triple.of_forall (h : ∀ s, pre s → Triple (· = s) m post fail) :
    Triple pre m post fail := fun s hs => h s hs s rfl

theorem Triple.pure {a : α} (h : ∀ s, pre s → post a s) :
    Triple pre (Pure.pure a : Program ε σ α) post fail := by
  intro s hs r s' hm
  cases hm
  exact h s hs

theorem Triple.throw {e : ε} (h : ∀ s, pre s → fail e s) :
    Triple pre (MonadExcept.throw e : Program ε σ α) post fail := by
  intro s hs r s' hm
  cases hm
  exact h s hs

theorem Triple.bind {f : α → Program ε σ β} {last : β → σ → Prop} (mid : α → σ → Prop)
    (hm : Triple pre m mid fail) (hf : ∀ a, Triple (mid a) (f a) last fail) :
    Triple pre (m >>= f) last fail := by
  intro s hs r s' h
  rw [exec_bind] at h
  split at h
  · cases h
  · rename_i heq
    cases h
    exact hm s hs _ _ heq
  · rename_i heq
    exact hf _ _ (hm s hs _ _ heq) r s' h

/-- A loop over a variable whose body says whether it is left, with a variant. -/
structure Body (ε σ β α : Type) where
  pass : β → Program ε σ (Pass α β)
  variant : β → σ → Nat
  decreases : ∀ b s b' s', (pass b).exec s = some (.ok (.again b'), s') →
    variant b' s' < variant b s

def Body.toLoop (body : Body ε σ β α) : Loop (Option (Except ε α × σ)) (β × σ) where
  body x :=
    match (body.pass x.1).exec x.2 with
    | none => .leave none
    | some (.error e, s) => .leave (some (.error e, s))
    | some (.ok (.leave a), s) => .leave (some (.ok a, s))
    | some (.ok (.again b), s) => .again (b, s)
  variant x := body.variant x.1 x.2
  decreases x y h := by
    split at h
    · cases h
    · cases h
    · cases h
    · rename_i heq
      cases h
      exact body.decreases _ _ _ _ heq

def loop (body : Body ε σ β α) (b : β) : Program ε σ α := ofFun fun s => body.toLoop.run (b, s)

theorem exec_loop (body : Body ε σ β α) (b : β) (s : σ) :
    (loop body b).exec s = match (body.pass b).exec s with
      | none => none
      | some (.error e, s) => some (.error e, s)
      | some (.ok (.leave a), s) => some (.ok a, s)
      | some (.ok (.again b), s) => (loop body b).exec s := by
  rcases hpass : (body.pass b).exec s with _ | ⟨_ | a | b', s'⟩
  · exact Loop.run_of_leave (by simp only [Body.toLoop, hpass])
  · exact Loop.run_of_leave (by simp only [Body.toLoop, hpass])
  · exact Loop.run_of_leave (by simp only [Body.toLoop, hpass])
  · have hagain : body.toLoop.body (b, s) = .again (b', s') := by simp only [Body.toLoop, hpass]
    exact Loop.run_of_again hagain

theorem ext {m' : Program ε σ α} (h : ∀ s, m.exec s = m'.exec s) : m = m' := funext h

theorem loop_eq (body : Body ε σ β α) (b : β) :
    loop body b = body.pass b >>= fun
      | .leave a => pure a
      | .again b => loop body b := by
  apply ext
  intro s
  rw [exec_loop, exec_bind]
  rcases (body.pass b).exec s with _ | ⟨_ | a | b', s'⟩ <;> rfl

/-- What a pass establishes: the postcondition of the loop, or its invariant again. -/
def Outcome (post : α → σ → Prop) (inv : β → σ → Prop) : Pass α β → σ → Prop
  | .leave a, s => post a s
  | .again b, s => inv b s

theorem Triple.loop {body : Body ε σ β α} (inv : β → σ → Prop)
    (hpass : ∀ b, Triple (inv b) (body.pass b) (Outcome post inv) fail) (b : β) :
    Triple (inv b) (Program.loop body b) post fail := by
  intro s hs
  refine Loop.run_induct (l := body.toLoop) (fun x => inv x.1 x.2)
    (fun o => ∀ r s', o = some (r, s') → match r with
      | .ok a => post a s'
      | .error e => fail e s') ?_ ?_ (b, s) hs
  · intro x y hinv h
    dsimp only [Body.toLoop] at h
    split at h
    · cases h
    · cases h
    · cases h
    · rename_i heq
      cases h
      exact (hpass _).ok hinv heq
  · intro x o hinv h r s' ho
    subst ho
    dsimp only [Body.toLoop] at h
    split at h
    · cases h
    · rename_i heq
      cases h
      exact (hpass _).error hinv heq
    · rename_i heq
      cases h
      exact (hpass _).ok hinv heq
    · cases h

end Program

end KrabiTls.Lib
