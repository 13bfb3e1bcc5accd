import KrabiTls.Lib.Except
import KrabiTls.Lib.Loop

/-! Computations that leave checks open. Programs that do the same work with different checks are
each compared with one such computation, and through it with one another. -/
namespace KrabiTls.Lib

/-- The outcome of a pass; an error leaves the loop. -/
def Pass.result {ε α σ : Type} : Pass (Except ε α) σ → Except ε (Pass α σ)
  | .leave (.error e) => .error e
  | .leave (.ok a) => .ok (.leave a)
  | .again t => .ok (.again t)

/-- A result together with the checks that were left open on the way, or a failure. -/
def Audit (δ α : Type) : Type := Option (α × List δ)

namespace Audit
variable {δ α β : Type} {ε ε' : Type}

def fail : Audit δ α := none

/-- A check that is made. -/
def check (p : Prop) [Decidable p] : Audit δ Unit := if p then some ((), []) else none

/-- A check that is left open. -/
def leaveOpen (d : δ) : Audit δ Unit := some ((), [d])

def ofExcept : Except ε α → Audit δ α
  | .error _ => none
  | .ok a => some (a, [])

instance : Monad (Audit δ) where
  pure a := some (a, [])
  bind w k :=
    match w with
    | none => none
    | some (a, ds) =>
        match k a with
        | none => none
        | some (b, es) => some (b, ds ++ es)

instance : LawfulMonad (Audit δ) := LawfulMonad.mk' (Audit δ)
  (by
    intro α w
    cases w with
    | none => rfl
    | some found => exact congrArg (fun ds => some (found.1, ds)) (List.append_nil _))
  (by
    intro α β a k
    cases hk : k a <;> simp only [bind, pure, hk, List.nil_append] <;> rfl)
  (by
    intro α β γ w k k'
    cases w with
    | none => rfl
    | some found =>
      cases hk : k found.1 with
      | none => simp only [bind, hk]; rfl
      | some next =>
        cases hk' : k' next.1 <;> simp only [bind, hk, hk', List.append_assoc] <;> rfl)

/-- The result of a program that makes those of the open checks that `met` describes. -/
def Yields (met : δ → Prop) (w : Audit δ α) (a : α) : Prop :=
  ∃ ds, w = some (a, ds) ∧ ∀ d ∈ ds, met d

section Rules
variable {met : δ → Prop}
variable {a : α}

theorem yields_some {b : α} {ds : List δ} :
    Yields met (some (a, ds)) b ↔ a = b ∧ ∀ d ∈ ds, met d := by
  constructor
  · rintro ⟨ds', heq, hmet⟩
    cases heq
    exact ⟨rfl, hmet⟩
  · rintro ⟨rfl, hmet⟩
    exact ⟨ds, rfl, hmet⟩

theorem yields_fail : Yields met (fail : Audit δ α) a ↔ False :=
  iff_false_intro fun ⟨_, heq, _⟩ => nomatch heq

theorem yields_pure {b : α} : Yields met (pure a : Audit δ α) b ↔ a = b :=
  yields_some.trans (and_iff_left nofun)

theorem yields_bind {w : Audit δ α} {k : α → Audit δ β} {b : β} :
    Yields met (w >>= k) b ↔ ∃ a, Yields met w a ∧ Yields met (k a) b := by
  constructor
  · rintro ⟨ds, heq, hmet⟩
    cases w with
    | none => cases heq
    | some found =>
      obtain ⟨a, ds₁⟩ := found
      cases hk : k a with
      | none =>
        simp only [bind, hk] at heq
        cases heq
      | some found =>
        obtain ⟨b', ds₂⟩ := found
        simp only [bind, hk] at heq
        cases heq
        exact ⟨a, ⟨ds₁, rfl, fun d hd => hmet d (List.mem_append_left _ hd)⟩,
          ⟨ds₂, hk, fun d hd => hmet d (List.mem_append_right _ hd)⟩⟩
  · rintro ⟨a, ⟨ds₁, rfl, hmet₁⟩, ds₂, hk, hmet₂⟩
    refine ⟨ds₁ ++ ds₂, by simp only [bind, hk]; rfl, ?_⟩
    intro d hd
    exact (List.mem_append.mp hd).elim (hmet₁ d) (hmet₂ d)

theorem yields_check {p : Prop} [Decidable p] {u : Unit} :
    Yields met (check p : Audit δ Unit) u ↔ p := by
  by_cases hp : p
  · exact iff_of_true ⟨[], if_pos hp, nofun⟩ hp
  · refine iff_of_false ?_ hp
    rintro ⟨ds, heq, -⟩
    exact nomatch (if_neg hp).symm.trans heq

theorem yields_check_bind {p : Prop} [Decidable p] {k : Unit → Audit δ α} :
    Yields met (check p >>= k) a ↔ p ∧ Yields met (k ()) a := by
  rw [yields_bind]
  constructor
  · rintro ⟨u, hp, h⟩
    exact ⟨yields_check.mp hp, h⟩
  · rintro ⟨hp, h⟩
    exact ⟨(), yields_check.mpr hp, h⟩

theorem yields_leaveOpen {d : δ} {u : Unit} : Yields met (leaveOpen d) u ↔ met d := by
  simp [leaveOpen, yields_some]

/-- A value that is read, looked at and returned. -/
theorem yields_guarded {w : Audit δ α} {k : α → Audit δ Unit} :
    Yields met (w >>= fun a => k a >>= fun _ => pure a) a ↔
      Yields met w a ∧ Yields met (k a) () := by
  simp only [yields_bind, yields_pure]
  constructor
  · rintro ⟨_, hread, _, hlook, rfl⟩
    exact ⟨hread, hlook⟩
  · rintro ⟨hread, hlook⟩
    exact ⟨a, hread, (), hlook, rfl⟩

theorem yields_ofExcept {m : Except ε α} : Yields met (ofExcept m : Audit δ α) a ↔ m = .ok a := by
  cases m with
  | error e => exact iff_of_false (fun ⟨_, heq, _⟩ => nomatch heq) nofun
  | ok b => simp [ofExcept, yields_some]

end Rules

/-- The program yields what the computation yields when `met` describes its checks. -/
def Realizes (met : δ → Prop) (m : Except ε α) (w : Audit δ α) : Prop :=
  ∀ a, m = .ok a ↔ w.Yields met a

namespace Realizes
variable {met : δ → Prop} {m : Except ε α} {w : Audit δ α}
variable {p : Prop}

theorem pure (a : α) : Realizes met (.ok a : Except ε α) (pure a) := by
  intro b
  rw [yields_pure]
  simp

theorem bind {k : α → Except ε β} {k' : α → Audit δ β} (hm : Realizes met m w)
    (hk : ∀ a, Realizes met (k a) (k' a)) : Realizes met (m >>= k) (w >>= k') := by
  intro b
  rw [bind_eq_ok, yields_bind]
  exact exists_congr fun a => and_congr (hm a) (hk a b)

theorem map {g : α → β} (hm : Realizes met m w) :
    Realizes met (m.map g) (w >>= fun a => (Pure.pure (g a) : Audit δ β)) := by
  intro b
  rw [map_eq_ok, yields_bind]
  exact exists_congr fun a => and_congr (hm a) yields_pure.symm

theorem mapError {g : ε → ε'} (hm : Realizes met m w) : Realizes met (m.mapError g) w :=
  fun a => mapError_eq_ok.trans (hm a)

theorem ofExcept (m : Except ε α) : Realizes met m (ofExcept m) :=
  fun _ => yields_ofExcept.symm

theorem error (e : ε) : Realizes met (.error e : Except ε α) fail :=
  fun _ => iff_of_false nofun yields_fail.mp

theorem ensure_iff {q : Prop} [Decidable p] [Decidable q] {e : ε} (h : p ↔ q) :
    Realizes met (Lib.ensure p e) (check q) :=
  fun _ => ensure_eq_ok.trans (h.trans yields_check.symm)

theorem ensure [Decidable p] {e : ε} : Realizes met (Lib.ensure p e) (check p) :=
  ensure_iff Iff.rfl

theorem ensure_open [Decidable p] {e : ε} {d : δ} (h : met d ↔ p) :
    Realizes met (Lib.ensure p e) (leaveOpen d) :=
  fun _ => ensure_eq_ok.trans (h.symm.trans yields_leaveOpen.symm)

theorem ite {c : Prop} [Decidable c] {m' : Except ε α} {w' : Audit δ α} (h : c → Realizes met m w)
    (h' : ¬ c → Realizes met m' w') :
    Realizes met (if c then m else m') (if c then w else w') := by
  by_cases hc : c
  · rw [if_pos hc, if_pos hc]
    exact h hc
  · rw [if_neg hc, if_neg hc]
    exact h' hc

end Realizes

/-- Two programs, with the checks `p` and `q`, accept or reject the input alike. -/
def Uniform (p q : δ → Prop) (w : Audit δ α) : Prop :=
  ∀ a ds, w = some (a, ds) → ((∀ d ∈ ds, p d) ↔ ∀ d ∈ ds, q d)

instance {p q : δ → Prop} [DecidablePred p] [DecidablePred q] :
    (w : Audit δ α) → Decidable (Uniform p q w)
  | none => isTrue nofun
  | some (_, ds) => decidable_of_iff ((∀ d ∈ ds, p d) ↔ ∀ d ∈ ds, q d)
      ⟨fun h _ _ heq => by cases heq; exact h, fun h => h _ _ rfl⟩

/-- Programs that yield what the computation yields agree where it is uniform, and only there. -/
theorem toOption_eq_iff {p q : δ → Prop} {w : Audit δ α} {m : Except ε α} {m' : Except ε' α}
    (hm : Realizes p m w) (hm' : Realizes q m' w) :
    m.toOption = m'.toOption ↔ w.Uniform p q := by
  have hresult (a : α) : m.toOption = some a ↔ w.Yields p a := toOption_eq_some.trans (hm a)
  have hresult' (a : α) : m'.toOption = some a ↔ w.Yields q a := toOption_eq_some.trans (hm' a)
  constructor
  · rintro heq a ds rfl
    have hboth : Yields p (some (a, ds)) a ↔ Yields q (some (a, ds)) a := by
      rw [← hresult, ← hresult', heq]
    simpa [yields_some] using hboth
  · intro huniform
    refine Option.ext fun a => ?_
    rw [hresult, hresult']
    exact exists_congr fun ds => and_congr_right fun heq => huniform a ds heq

/-- A loop whose passes leave checks open. -/
structure Walk (δ α σ : Type) where
  body : σ → Audit δ (Pass α σ)
  variant : σ → Nat
  decreases : ∀ s t, Yields (fun _ => True) (body s) (.again t) → variant t < variant s

namespace Walk
variable {σ : Type} {met : δ → Prop}

def runWithin (l : Walk δ α σ) : Nat → σ → Audit δ α
  | 0, _ => none
  | n + 1, s => do
      match ← l.body s with
      | .leave a => pure a
      | .again t => l.runWithin n t

def run (l : Walk δ α σ) (s : σ) : Audit δ α := l.runWithin (l.variant s + 1) s

theorem runWithin_succ {l : Walk δ α σ} {n : Nat} {s : σ} {a : α} :
    Yields met (l.runWithin (n + 1) s) a ↔ Yields met (l.body s) (.leave a) ∨
      ∃ t, Yields met (l.body s) (.again t) ∧ Yields met (l.runWithin n t) a := by
  rw [runWithin, yields_bind]
  constructor
  · rintro ⟨pass, hbody, hnext⟩
    cases pass with
    | leave b =>
      obtain rfl := yields_pure.mp hnext
      exact .inl hbody
    | again t => exact .inr ⟨t, hbody, hnext⟩
  · rintro (hbody | ⟨t, hbody, hnext⟩)
    · exact ⟨_, hbody, yields_pure.mpr rfl⟩
    · exact ⟨_, hbody, hnext⟩

/-- A program's loop realizes the walk if each of its passes does. -/
theorem realizes_run {l : Walk δ α σ} {p : Loop (Except ε α) σ}
    (hbody : ∀ s, Realizes met (p.body s).result (l.body s)) (s : σ) :
    Realizes met (p.run s) (l.run s) := by
  intro a
  suffices hfuel : ∀ n s, l.variant s < n → (p.run s = .ok a ↔ Yields met (l.runWithin n s) a) from
    hfuel _ s (Nat.lt_succ_self _)
  intro n
  induction n with
  | zero => exact fun s h => absurd h (Nat.not_lt_zero _)
  | succ n ih =>
    intro s hn
    have hpass := hbody s
    rw [runWithin_succ, ← hpass]
    simp only [← hpass _]
    cases hcase : p.body s with
    | leave r =>
      rw [Loop.run_of_leave hcase]
      cases r <;> simp [Pass.result]
    | again t =>
      have hyields := (hpass (.again t)).mp (by rw [hcase]; rfl)
      have hless : l.variant t < n := by
        obtain ⟨ds, hds, -⟩ := hyields
        have := l.decreases s t ⟨ds, hds, fun _ _ => trivial⟩
        omega
      rw [Loop.run_of_again hcase, ih t hless]
      simp [Pass.result]

end Walk

end Audit

end KrabiTls.Lib
