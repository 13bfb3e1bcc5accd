import KrabiTls.Lib.Stretches
import KrabiTls.Trust.PathValidation

/-! The check of a certificate's validity window (`identity.rs`), and the times at which a ledger of
anchors accepts a chain. The `der` crate is a parameter. -/
namespace KrabiTls
open Lib

inductive TimeTag where
  | utcTime
  | generalizedTime
  | other
  deriving DecidableEq, Repr

/-- The functions of the `der` crate that are used. A reader is the input that is left; a time is in
seconds since the Unix epoch. -/
structure DerTimeCrate where
  /-- the check of `SliceReader::new` on the input's length -/
  readerOk : Bytes → Bool
  /-- the content of a `SEQUENCE` and what follows it -/
  sequence : Bytes → Option (Bytes × Bytes)
  /-- `Tag::peek` -/
  peek : Bytes → Option TimeTag
  utcTime : Bytes → Option (UInt64 × Bytes)
  generalizedTime : Bytes → Option (UInt64 × Bytes)

inductive ValidityError where
  | notYetValid (notBefore now : Nat)
  | expired (notAfter now : Nat)
  | malformed
  deriving DecidableEq, Repr

section Validity
variable (d : DerTimeCrate)

def decodeTimeToUnix (r : Bytes) : Option (UInt64 × Bytes) := do
  match ← d.peek r with
  | .utcTime => d.utcTime r
  | .generalizedTime => d.generalizedTime r
  | .other => none

/-- Two times and nothing else, in a sequence that is the whole input. -/
def parseValidityDer (derBytes : Bytes) : Except ValidityError (Nat × Nat) :=
  okOr .malformed do
    guard (d.readerOk derBytes)
    let (inner, outer) ← d.sequence derBytes
    let (nb, inner) ← decodeTimeToUnix d inner
    let (na, inner) ← decodeTimeToUnix d inner
    guard (inner = [])
    guard (outer = [])
    pure (nb.toNat, na.toNat)

def verifyValidity (certView : CertView) (now : Nat) : Except ValidityError Unit := do
  let (notBefore, notAfter) ← parseValidityDer d certView.validityDer
  if now < notBefore then .error (.notYetValid notBefore now)
  else if now > notAfter then .error (.expired notAfter now)
  else .ok ()

/-- `Clocked`. -/
def clocked (now : Nat) : Clock := fun leaf =>
  (verifyValidity d leaf now).mapError fun _ => .validityRejected

/-- A certificate passes at the times of its window, with both ends. -/
theorem clocked_eq_ok {now : Nat} {view : CertView} :
    clocked d now view = .ok () ↔ ∃ notBefore notAfter,
      parseValidityDer d view.validityDer = .ok (notBefore, notAfter) ∧
        notBefore ≤ now ∧ now ≤ notAfter := by
  simp only [clocked, mapError_eq_ok, verifyValidity, bind_eq_ok, Prod.exists]
  refine exists_congr fun notBefore => exists_congr fun notAfter => and_congr_right fun _ => ?_
  split
  · simp
    omega
  · split
    · simp
      omega
    · simp
      omega

/-- The times at which all of some certificates pass are those between two. -/
theorem exists_window (views : List CertView) :
    ∃ lo hi, ∀ now, (∀ view ∈ views, clocked d now view = .ok ()) ↔ lo ≤ now ∧ now ≤ hi ∨ views = [] := by
  induction views with
  | nil => exact ⟨0, 0, by simp⟩
  | cons view views ih =>
    obtain ⟨lo, hi, hrest⟩ := ih
    cases hparse : parseValidityDer d view.validityDer with
    | error e =>
      -- a window that cannot be read is empty
      refine ⟨1, 0, fun now => ?_⟩
      have hnever : clocked d now view ≠ .ok () := by
        rw [ne_eq, clocked_eq_ok]
        simp [hparse]
      simp only [List.forall_mem_cons, hnever, false_and, reduceCtorEq, or_false, false_iff]
      omega
    | ok window =>
      obtain ⟨notBefore, notAfter⟩ := window
      have hview (now : Nat) : clocked d now view = .ok () ↔ notBefore ≤ now ∧ now ≤ notAfter := by
        rw [clocked_eq_ok]
        simp [hparse]
      by_cases hnil : views = []
      · refine ⟨notBefore, notAfter, fun now => ?_⟩
        simp [hnil, hview]
      · refine ⟨max notBefore lo, min notAfter hi, fun now => ?_⟩
        simp only [List.forall_mem_cons, hview, hrest, hnil, or_false, reduceCtorEq]
        omega

theorem clocked_ordConnected (view : CertView) :
    {now | clocked d now view = .ok ()}.OrdConnected := by
  cases hparse : parseValidityDer d view.validityDer with
  | error e =>
    have hempty : {now | clocked d now view = .ok ()} = ∅ := by
      ext now
      simp [clocked_eq_ok, hparse]
    rw [hempty]
    exact Set.ordConnected_empty
  | ok window =>
    obtain ⟨notBefore, notAfter⟩ := window
    have hwindow : {now | clocked d now view = .ok ()} = Set.Icc notBefore notAfter := by
      ext now
      simp [clocked_eq_ok, hparse]
    rw [hwindow]
    exact Set.ordConnected_Icc

end Validity

namespace PinnedRoots
variable {d : DerTimeCrate} {usizeBits : Nat} {p : SigVerifierProvider} {s : PinnedRoots}

def atTime (d : DerTimeCrate) (s : PinnedRoots) (now : Nat) : PinnedRoots :=
  { s with clock := clocked d now }

def certOf : Anchor → Option Bytes
  | .cert der => some der
  | _ => none

def storedCerts (s : PinnedRoots) : List Bytes := s.anchors.filterMap certOf

theorem mem_storedCerts {der : Bytes} : der ∈ s.storedCerts ↔ .cert der ∈ s.anchors := by
  rw [storedCerts, List.mem_filterMap]
  constructor
  · rintro ⟨anchor, hanchor, hder⟩
    cases anchor with
    | cert der' =>
      cases hder
      exact hanchor
    | fingerprint fp => cases hder
    | spkiFingerprint fp => cases hder
  · exact fun h => ⟨_, h, rfl⟩

theorem checkValidityOf_ordConnected (cert : Bytes) (view : CertView) :
    {now | (s.atTime d now).checkValidityOf cert view = .ok ()}.OrdConnected := by
  simp only [checkValidityOf_eq_ok]
  by_cases hexempt : s.enforceAnchorExpiry = true ∨ .cert cert ∉ s.anchors
  · have hsame : {now | (s.atTime d now).enforceAnchorExpiry = true ∨
        .cert cert ∉ (s.atTime d now).anchors → (s.atTime d now).clock view = .ok ()} =
        {now | clocked d now view = .ok ()} :=
      Set.ext fun now => forall_prop_of_true hexempt
    rw [hsame]
    exact clocked_ordConnected d view
  · have hall : {now | (s.atTime d now).enforceAnchorExpiry = true ∨
        .cert cert ∉ (s.atTime d now).anchors → (s.atTime d now).clock view = .ok ()} = Set.univ :=
      Set.eq_univ_of_forall fun now h => absurd h hexempt
    rw [hall]
    exact Set.ordConnected_univ

/-- A certificate can be stood on during one stretch of time. -/
theorem stand_ordConnected (cert : Bytes) :
    {now | ((s.atTime d now).ascent usizeBits p).stand cert}.OrdConnected := by
  cases hparse : s.parser.parse cert with
  | error e =>
    have hempty : {now | ((s.atTime d now).ascent usizeBits p).stand cert} = ∅ := by
      ext now
      simp [ascent, atTime, hparse]
    rw [hempty]
    exact Set.ordConnected_empty
  | ok view =>
    have hstand : {now | ((s.atTime d now).ascent usizeBits p).stand cert} =
        {now | ∃ pinned, s.anchorMatches cert = .ok pinned} ∩
          {now | (s.atTime d now).checkValidityOf cert view = .ok ()} := by
      ext now
      have hview : (s.atTime d now).parser.parse cert = .ok view := hparse
      simp only [ascent, Set.mem_ofPred_eq, Set.mem_inter_iff, hview, Except.ok.injEq,
        exists_eq_left']
      exact Iff.rfl
    rw [hstand]
    refine Set.OrdConnected.inter ⟨fun _ h _ _ _ _ => h⟩ (checkValidityOf_ordConnected cert view)

/-- A certificate of the ledger vouches for the top of the chain during one stretch of time, and at
any time if the ledger's certificates are exempt. -/
theorem vouches_ordConnected (i : Nat) (anchorDer cert : Bytes) :
    {now | (s.atTime d now).Vouches usizeBits p i anchorDer cert}.OrdConnected := by
  constructor
  rintro t₁ ⟨hmem, child, anchorView, hchild, hanchor, hca, hlink, hvalid₁⟩ t₂
    ⟨-, child', anchorView', hchild', hanchor', -, -, hvalid₂⟩ now hnow
  obtain rfl : anchorView = anchorView' := Except.ok.inj (hanchor.symm.trans hanchor')
  have hvalid := (checkValidityOf_ordConnected anchorDer anchorView).out hvalid₁ hvalid₂ hnow
  exact ⟨hmem, child, anchorView, hchild, hanchor, hca, hlink, hvalid⟩

theorem summit_stretches (i : Nat) (cert : Bytes) :
    Stretches s.storedCerts.length fun now =>
      ((s.atTime d now).ascent usizeBits p).summit i cert := by
  have hvouches : Stretches s.storedCerts.length fun now => ∃ anchorDer ∈ s.storedCerts,
      (s.atTime d now).Vouches usizeBits p i anchorDer cert :=
    .exists_mem fun anchorDer _ => vouches_ordConnected i anchorDer cert
  refine hvouches.congr fun now => ?_
  constructor
  · rintro ⟨anchorDer, hvouches⟩
    exact ⟨anchorDer, mem_storedCerts.mpr hvouches.1, hvouches⟩
  · rintro ⟨anchorDer, -, hvouches⟩
    exact ⟨anchorDer, hvouches⟩

/-- Certificates of the ledger that are exempt vouch at all times or never. -/
theorem summit_exempt (hexempt : s.enforceAnchorExpiry = false) (i : Nat) (cert : Bytes) :
    Stretches 1 fun now => ((s.atTime d now).ascent usizeBits p).summit i cert := by
  refine .of_ordConnected ⟨?_⟩
  rintro t₁ ⟨anchorDer, hmem, child, anchorView, hchild, hanchor, hca, hlink, -⟩ t₂ _ now _
  refine ⟨anchorDer, hmem, child, anchorView, hchild, hanchor, hca, hlink, ?_⟩
  rw [checkValidityOf_eq_ok]
  rintro (henforced | hnew)
  · rw [show (s.atTime d now).enforceAnchorExpiry = false from hexempt] at henforced
    cases henforced
  · exact absurd hmem hnew

/-- A climb holds during as many stretches as its last step. -/
theorem climbs_stretches {n : Nat} (hn : 1 ≤ n) (hsummit : ∀ i cert, Stretches n fun now =>
      ((s.atTime d now).ascent usizeBits p).summit i cert) (i : Nat) (certs : List Bytes) :
    Stretches n fun now => ((s.atTime d now).ascent usizeBits p).Climbs i certs := by
  have hgoal {cert : Bytes} {rest : Nat → Prop} (hrest : Stretches n rest) :
      Stretches n fun now => (s.ascent usizeBits p).goal cert ∨ rest now := by
    by_cases hgoal : (s.ascent usizeBits p).goal cert
    · refine (Stretches.of_ordConnected ?_).mono hn
      have hall : {now | (s.ascent usizeBits p).goal cert ∨ rest now} = Set.univ :=
        Set.eq_univ_of_forall fun _ => .inl hgoal
      rw [hall]
      exact Set.ordConnected_univ
    · exact hrest.congr fun now => or_iff_right hgoal
  match certs with
  | [] => exact .of_never fun _ h => h
  | [cert] => exact (hgoal (hsummit i cert)).inter (stand_ordConnected cert)
  | cert :: next :: above =>
    have hrest := climbs_stretches hn hsummit (i + 1) (next :: above)
    refine Stretches.inter (hgoal ?_) (stand_ordConnected cert)
    by_cases hrung : (s.ascent usizeBits p).rung i cert next
    · exact hrest.congr fun now => and_iff_right hrung
    · exact .of_never fun now h => hrung h.1

/-- The times at which a chain is accepted: at most as many stretches as the ledger has certificates,
one of them at least; and a single one, without gaps, if those certificates are exempt from the check
of their own windows, as they are by default. -/
theorem accepts_stretches (d : DerTimeCrate) (usizeBits : Nat) (p : SigVerifierProvider)
    (s : PinnedRoots) (certs : List Bytes) :
    Stretches (max 1 s.storedCerts.length)
        (fun now => (s.atTime d now).Accepts usizeBits p certs) ∧
      (s.enforceAnchorExpiry = false →
        {now | (s.atTime d now).Accepts usizeBits p certs}.OrdConnected) := by
  have hfrom {n : Nat} (hn : 1 ≤ n) (hsummit : ∀ i cert, Stretches n fun now =>
      ((s.atTime d now).ascent usizeBits p).summit i cert) :
      Stretches n fun now => (s.atTime d now).Accepts usizeBits p certs := by
    have hclimbs := climbs_stretches hn hsummit 0 certs
    by_cases hfixed : certs.length ≤ s.cap ∧ s.LeafPrepares p certs
    · refine hclimbs.congr fun now => accepts_iff.trans ?_
      exact ⟨fun h => h.2.2, fun h => ⟨hfixed.1, hfixed.2, h⟩⟩
    · refine .of_never fun now h => hfixed ?_
      obtain ⟨hcap, hleaf, -⟩ := accepts_iff.mp h
      exact ⟨hcap, hleaf⟩
  refine ⟨hfrom (Nat.le_max_left _ _) fun i cert =>
    (summit_stretches i cert).mono (Nat.le_max_right _ _), fun hexempt => ?_⟩
  exact (hfrom (Nat.le_refl 1) (summit_exempt hexempt)).ordConnected

end PinnedRoots

end KrabiTls
