import Mathlib.Data.List.Basic

/-! Vectors of a fixed capacity, and code that fills them. -/
namespace KrabiTls.Lib
variable {α : Type} {n : Nat}

/-- A list of at most `n` elements. -/
abbrev Vec (α : Type) (n : Nat) := { l : List α // l.length ≤ n }

namespace Vec

def empty : Vec α n := ⟨[], Nat.zero_le _⟩

@[simp] theorem empty_val : (empty : Vec α n).val = [] := rfl

def ofList? (l : List α) : Option (Vec α n) :=
  if h : l.length ≤ n then some ⟨l, h⟩ else none

theorem ofList?_eq_some {l : List α} {v : Vec α n} : ofList? l = some v ↔ v.val = l := by
  unfold ofList?
  split
  · rw [Option.some_inj, Subtype.ext_iff, eq_comm]
  · rename_i hlen
    constructor
    · rintro ⟨⟩
    · rintro rfl
      exact absurd v.property hlen

theorem ofList?_eq_none {l : List α} : (ofList? l : Option (Vec α n)) = none ↔ n < l.length := by
  simp [ofList?]

def push (v : Vec α n) (x : α) : Option (Vec α n) :=
  ofList? (v.val ++ [x])

theorem push_eq_some {v w : Vec α n} {x : α} : v.push x = some w ↔ w.val = v.val ++ [x] :=
  ofList?_eq_some

def extend (v : Vec α n) (data : List α) : Option (Vec α n) :=
  ofList? (v.val ++ data)

/-- A list that is built up through one that fits. -/
theorem ofList?_bind {l l' : List α} {k : Vec α n → Option (Vec α n)} (hle : l.length ≤ l'.length)
    (hk : ∀ v : Vec α n, v.val = l → k v = ofList? l') : (ofList? l >>= k) = ofList? l' := by
  by_cases hfits : l.length ≤ n
  · rw [ofList?_eq_some.mpr (show (⟨l, hfits⟩ : Vec α n).val = l from rfl)]
    exact hk ⟨l, hfits⟩ rfl
  · rw [ofList?_eq_none.mpr (by omega), ofList?_eq_none.mpr (by omega)]
    rfl

def set (v : Vec α n) (i : Nat) (x : α) : Vec α n :=
  ⟨v.val.set i x, by rw [List.length_set]; exact v.property⟩

@[simp] theorem set_val (v : Vec α n) (i : Nat) (x : α) : (v.set i x).val = v.val.set i x := rfl

end Vec

/-- The vector has no room left. -/
structure CapacityError where
  deriving DecidableEq, Repr

/-- Code that appends to a vector of fixed capacity and stops where it is full. -/
abbrev PushM (α : Type) (n : Nat) := ExceptT CapacityError (StateM (Vec α n))

namespace PushM

def push (x : α) : PushM α n Unit := do
  match (← get).push x with
  | some v => set v
  | none => throw ⟨⟩

/-- Element after element; those in front of the one without room stay in the vector. -/
def pushAll (l : List α) : PushM α n Unit := forM l push

/-- The outcome, and the vector as the code leaves it. -/
def exec (m : PushM α n Unit) (v : Vec α n) : Except CapacityError Unit × Vec α n :=
  Id.run (m.run.run v)

theorem pushAll_append (l l' : List α) :
    (do pushAll l; pushAll l' : PushM α n Unit) = pushAll (l ++ l') :=
  List.forM_append.symm

theorem exec_push {x : α} {v w : Vec α n} (h : v.push x = some w) (k : Unit → PushM α n Unit) :
    exec (push x >>= k) v = exec (k ()) w := by
  show exec ((match v.push x with | some v => set v | none => throw ⟨⟩) >>= k) v = _
  rw [h]
  rfl

theorem exec_push_full {x : α} {v : Vec α n} (h : v.push x = none) (k : Unit → PushM α n Unit) :
    exec (push x >>= k) v = (.error ⟨⟩, v) := by
  show exec ((match v.push x with | some v => set v | none => throw ⟨⟩) >>= k) v = _
  rw [h]
  rfl

theorem exec_pushAll {l : List α} {v w : Vec α n} (h : w.val = v.val ++ l) :
    exec (pushAll l) v = (.ok (), w) := by
  induction l generalizing v with
  | nil =>
    rw [List.append_nil] at h
    rw [Subtype.ext h]
    rfl
  | cons x l ih =>
    have hroom : (v.val ++ [x]).length ≤ n := by
      have hw := w.property
      rw [h] at hw
      simp only [List.length_append, List.length_cons, List.length_nil] at hw ⊢
      omega
    have hpush : v.push x = some ⟨v.val ++ [x], hroom⟩ := Vec.push_eq_some.mpr rfl
    show exec (push x >>= fun _ => pushAll l) v = _
    rw [exec_push hpush]
    exact ih (by rw [h, List.append_assoc]; rfl)

theorem exec_pushAll_full {l : List α} {v : Vec α n} (h : n < v.val.length + l.length) :
    (exec (pushAll l) v).1 = .error ⟨⟩ := by
  induction l generalizing v with
  | nil =>
    have hv := v.property
    rw [List.length_nil] at h
    omega
  | cons x l ih =>
    show (exec (push x >>= fun _ => pushAll l) v).1 = _
    cases hpush : v.push x with
    | none => rw [exec_push_full hpush]
    | some w =>
      rw [exec_push hpush]
      apply ih
      rw [Vec.push_eq_some.mp hpush, List.length_append, List.length_singleton]
      rw [List.length_cons] at h
      omega

end PushM

end KrabiTls.Lib
