import KrabiTls.Lib.Ascent
import KrabiTls.Lib.Except
import KrabiTls.Trust.Strategy

/-! The strategy that walks a presented chain up to a pinned anchor (`pinned_roots.rs`). -/
namespace KrabiTls
open Lib

inductive Anchor where
  | fingerprint (fp : Block 32)
  | spkiFingerprint (fp : Block 32)
  | cert (der : Bytes)
  deriving DecidableEq, Repr

def Anchor.isSpkiFingerprint : Anchor → Bool
  | .spkiFingerprint _ => true
  | _ => false

inductive PinnedRootsError where
  | emptyChain
  | chainTooLong
  | parse (e : CertParseError)
  | linkSignatureInvalid
  | unknownLinkSigAlg
  | rsaVerifierInvalid
  | mlDsaVerifierInvalid
  | issuerNotCa
  | issuerKeyUsageForbidsCertSign
  | pathLenExceeded
  | untrustedRoot
  | validity
  | leafVerifierInvalid
  deriving DecidableEq, Repr

def PinnedRootsError.ofLinkErr : LinkErr → PinnedRootsError
  | .linkSignatureInvalid => .linkSignatureInvalid
  | .unknownLinkSigAlg => .unknownLinkSigAlg
  | .rsaVerifierInvalid => .rsaVerifierInvalid
  | .mlDsaVerifierInvalid => .mlDsaVerifierInvalid

/-- `PinnedRoots`, with its type parameters and the hash of the `sha2` crate as fields. -/
structure PinnedRoots where
  anchors : List Anchor
  clock : Clock
  enforceAnchorExpiry : Bool
  parser : CertParser
  cap : Nat
  sha256 : Bytes → Block 32

/-- Where the walk ends: at a pinned certificate, or at the top of the chain. -/
inductive Reached where
  | pinned
  | top (child : CertView) (i : Nat)

namespace PinnedRoots
variable (usizeBits : Nat) (p : SigVerifierProvider) (s : PinnedRoots)
variable {child : CertView}
variable {cert : Bytes}

/-- The key is hashed only where the ledger has a pin of that kind. -/
def anchorMatches (certDer : Bytes) : Except PinnedRootsError Bool :=
  if .fingerprint (s.sha256 certDer) ∈ s.anchors then .ok true
  else if s.anchors.any Anchor.isSpkiFingerprint then do
    let spki ← (s.parser.spkiDer certDer).mapError .parse
    pure (.spkiFingerprint (s.sha256 spki) ∈ s.anchors)
  else .ok false

def isStoredCertAnchor (certDer : Bytes) : Bool := .cert certDer ∈ s.anchors

def checkValidityOf (certDer : Bytes) (view : CertView) : Except PinnedRootsError Unit :=
  if s.enforceAnchorExpiry ∨ ¬ s.isStoredCertAnchor certDer then
    (s.clock view).mapError fun _ => .validity
  else .ok ()

/-- The comparison is made in `usize`, into which the path length is cast. -/
def requireIssuerCa (issuerDer : Bytes) (intermediatesBelow : Nat) :
    Except PinnedRootsError Unit := do
  let ca ← (s.parser.parseCaConstraints issuerDer).mapError .parse
  if ¬ ca.isCa then .error .issuerNotCa
  else if ca.keyCertSign = some false then .error .issuerKeyUsageForbidsCertSign
  else
    match ca.pathLen with
    | none => .ok ()
    | some pathLen =>
        if pathLen.toNat % 2 ^ usizeBits < intermediatesBelow then .error .pathLenExceeded
        else .ok ()

/-- The walk from certificate `i`, whose view is `child`, through the certificates above it. -/
def walk : (above : List Bytes) → (cert : Bytes) → (child : CertView) → (i : Nat) →
    Except PinnedRootsError Reached
  | [], cert, child, i => do
      let pinned ← s.anchorMatches cert
      s.checkValidityOf cert child
      pure (if pinned then .pinned else .top child i)
  | next :: above, cert, child, i => do
      let pinned ← s.anchorMatches cert
      s.checkValidityOf cert child
      if pinned then pure .pinned
      else do
        let parent ← (s.parser.parse next).mapError .parse
        (verifyLink p child parent).mapError .ofLinkErr
        s.requireIssuerCa usizeBits next i
        walk above next parent (i + 1)

/-- Does a stored certificate vouch for the top of the chain? Every failure counts as no. -/
def vouches (child : CertView) (i : Nat) : Anchor → Bool
  | .cert anchorDer =>
      match s.parser.parse anchorDer with
      | .error _ => false
      | .ok anchorView =>
          (s.requireIssuerCa usizeBits anchorDer i).isOk && (verifyLink p child anchorView).isOk &&
            (s.checkValidityOf anchorDer anchorView).isOk
  | _ => false

/-- What `verify_chain` makes of the walk's end. -/
def anchored : Reached → Except PinnedRootsError Unit
  | .pinned => .ok ()
  | .top child i =>
      if s.anchors.any (s.vouches usizeBits p child i) then .ok () else .error .untrustedRoot

def verifyChain (certs : List Bytes) :
    Except PinnedRootsError (PreparedVerifier p.toVerifierBackend) :=
  match certs with
  | [] => .error .emptyChain
  | leaf :: above =>
      if certs.length > s.cap then .error .chainTooLong
      else do
        let leafView ← (s.parser.parse leaf).mapError .parse
        let reached ← s.walk usizeBits p above leaf leafView 0
        s.anchored usizeBits p reached
        (prepareLeaf p leafView).mapError fun _ => .leafVerifierInvalid

def Accepts (certs : List Bytes) : Prop :=
  ∃ prepared, s.verifyChain usizeBits p certs = .ok prepared

instance (certs : List Bytes) : Decidable (s.Accepts usizeBits p certs) :=
  match h : s.verifyChain usizeBits p certs with
  | .ok prepared => .isTrue ⟨prepared, h⟩
  | .error _ => .isFalse (by rintro ⟨_, hok⟩; rw [h] at hok; cases hok)

/-- A stored certificate passes as issuer of the one at height `i`. -/
def Vouches (i : Nat) (anchorDer certDer : Bytes) : Prop :=
  .cert anchorDer ∈ s.anchors ∧ ∃ child anchorView, s.parser.parse certDer = .ok child ∧
    s.parser.parse anchorDer = .ok anchorView ∧ s.requireIssuerCa usizeBits anchorDer i = .ok () ∧
    verifyLink p child anchorView = .ok () ∧ s.checkValidityOf anchorDer anchorView = .ok ()

def ascent : Ascent Bytes where
  stand cert := (∃ pinned, s.anchorMatches cert = .ok pinned) ∧
    ∃ view, s.parser.parse cert = .ok view ∧ s.checkValidityOf cert view = .ok ()
  rung i cert next := ∃ child parent, s.parser.parse cert = .ok child ∧
    s.parser.parse next = .ok parent ∧ verifyLink p child parent = .ok () ∧
    s.requireIssuerCa usizeBits next i = .ok ()
  goal cert := s.anchorMatches cert = .ok true
  summit i cert := ∃ anchorDer, s.Vouches usizeBits p i anchorDer cert

variable {usizeBits p s}

theorem isOk_iff {ε : Type} {x : Except ε Unit} : x.isOk = true ↔ x = .ok () := by
  cases x <;> simp [Except.isOk, Except.toBool]

theorem any_vouches_iff {i : Nat} (hchild : s.parser.parse cert = .ok child) :
    s.anchors.any (s.vouches usizeBits p child i) = true ↔
      ∃ anchorDer, s.Vouches usizeBits p i anchorDer cert := by
  rw [List.any_eq_true]
  constructor
  · rintro ⟨anchor, hmem, hv⟩
    unfold vouches at hv
    split at hv
    · rename_i anchorDer
      split at hv
      · cases hv
      · rename_i anchorView hview
        simp only [Bool.and_eq_true, isOk_iff] at hv
        exact ⟨anchorDer, hmem, child, anchorView, hchild, hview, hv.1.1, hv.1.2, hv.2⟩
    · cases hv
  · rintro ⟨anchorDer, hmem, child', anchorView, hchild', hview, hca, hlink, hvalid⟩
    obtain rfl : child = child' := by rw [hchild] at hchild'; cases hchild'; rfl
    refine ⟨.cert anchorDer, hmem, ?_⟩
    simp only [vouches, hview, Bool.and_eq_true, isOk_iff]
    exact ⟨⟨hca, hlink⟩, hvalid⟩

theorem anchored_top_iff {i : Nat} (hchild : s.parser.parse cert = .ok child) :
    s.anchored usizeBits p (.top child i) = .ok () ↔
      ∃ anchorDer, s.Vouches usizeBits p i anchorDer cert := by
  rw [← any_vouches_iff hchild]
  unfold anchored
  split <;> simp_all

/-- The walk and the search of the ledger together are the climb. -/
theorem walk_anchored_iff {i : Nat} {above : List Bytes}
    (hchild : s.parser.parse cert = .ok child) :
    (∃ reached, s.walk usizeBits p above cert child i = .ok reached ∧
      s.anchored usizeBits p reached = .ok ()) ↔
      (s.ascent usizeBits p).Climbs i (cert :: above) := by
  have hstand : (s.ascent usizeBits p).stand cert ↔
      (∃ pinned, s.anchorMatches cert = .ok pinned) ∧ s.checkValidityOf cert child = .ok () := by
    simp [ascent, hchild]
  induction above generalizing cert child i with
  | nil =>
    simp only [Ascent.Climbs, hstand, walk, bind_eq_ok]
    constructor
    · rintro ⟨reached, ⟨pinned, hpinned, _, hvalid, hreached⟩, hanchored⟩
      refine ⟨⟨⟨pinned, hpinned⟩, hvalid⟩, ?_⟩
      cases hreached
      cases pinned with
      | true => exact .inl hpinned
      | false => exact .inr ((anchored_top_iff hchild).mp hanchored)
    · rintro ⟨⟨⟨pinned, hpinned⟩, hvalid⟩, hend⟩
      refine ⟨_, ⟨pinned, hpinned, (), hvalid, rfl⟩, ?_⟩
      cases pinned with
      | true => rfl
      | false =>
        rcases hend with hgoal | hsummit
        · rw [show s.anchorMatches cert = .ok true from hgoal] at hpinned
          cases hpinned
        · exact (anchored_top_iff hchild).mpr hsummit
  | cons next above ih =>
    simp only [Ascent.Climbs, hstand, walk, bind_eq_ok]
    constructor
    · rintro ⟨reached, ⟨pinned, hpinned, _, hvalid, hreached⟩, hanchored⟩
      refine ⟨⟨⟨pinned, hpinned⟩, hvalid⟩, ?_⟩
      cases pinned with
      | true => exact .inl hpinned
      | false =>
        simp only [Bool.false_eq_true, if_false, bind_eq_ok, mapError_eq_ok] at hreached
        obtain ⟨parent, hparent, _, hlink, _, hca, hwalk⟩ := hreached
        refine .inr ⟨⟨child, parent, hchild, hparent, hlink, hca⟩, ?_⟩
        exact (ih hparent (by simp [ascent, hparent])).mp ⟨reached, hwalk, hanchored⟩
    · rintro ⟨⟨⟨pinned, hpinned⟩, hvalid⟩, hend⟩
      cases pinned with
      | true => exact ⟨.pinned, ⟨true, hpinned, (), hvalid, rfl⟩, rfl⟩
      | false =>
        rcases hend with hgoal | ⟨⟨child', parent, hchild', hparent, hlink, hca⟩, hrest⟩
        · rw [show s.anchorMatches cert = .ok true from hgoal] at hpinned
          cases hpinned
        · obtain rfl : child = child' := by rw [hchild] at hchild'; cases hchild'; rfl
          obtain ⟨reached, hwalk, hanchored⟩ := (ih hparent (by simp [ascent, hparent])).mpr hrest
          refine ⟨reached, ⟨false, hpinned, (), hvalid, ?_⟩, hanchored⟩
          simp only [Bool.false_eq_true, if_false, bind_eq_ok, mapError_eq_ok]
          exact ⟨parent, hparent, (), hlink, (), hca, hwalk⟩

def LeafPrepares (p : SigVerifierProvider) (s : PinnedRoots) (certs : List Bytes) : Prop :=
  ∃ leaf ∈ certs.head?, ∃ view prepared, s.parser.parse leaf = .ok view ∧
    prepareLeaf p view = .ok prepared

theorem accepts_iff {certs : List Bytes} :
    s.Accepts usizeBits p certs ↔ certs.length ≤ s.cap ∧ s.LeafPrepares p certs ∧
      (s.ascent usizeBits p).Climbs 0 certs := by
  cases certs with
  | nil => simp [Accepts, verifyChain, LeafPrepares]
  | cons leaf above =>
    have hhead : s.LeafPrepares p (leaf :: above) ↔ ∃ view prepared,
        s.parser.parse leaf = .ok view ∧ prepareLeaf p view = .ok prepared := by
      simp [LeafPrepares]
    rw [hhead]
    by_cases hcap : (leaf :: above).length > s.cap
    · constructor
      · rintro ⟨prepared, h⟩
        simp only [verifyChain, hcap, if_true] at h
        cases h
      · rintro ⟨hle, -⟩
        exact absurd hle (Nat.not_le.mpr hcap)
    · simp only [Accepts, verifyChain, hcap, if_false, bind_eq_ok, mapError_eq_ok]
      constructor
      · rintro ⟨prepared, view, hview, reached, hwalk, _, hanchored, hprepared⟩
        exact ⟨Nat.not_lt.mp hcap, ⟨view, prepared, hview, hprepared⟩,
          (walk_anchored_iff hview).mp ⟨reached, hwalk, hanchored⟩⟩
      · rintro ⟨-, ⟨view, prepared, hview, hprepared⟩, hclimb⟩
        obtain ⟨reached, hwalk, hanchored⟩ := (walk_anchored_iff hview).mpr hclimb
        exact ⟨prepared, view, hview, reached, hwalk, (), hanchored, hprepared⟩

end PinnedRoots

end KrabiTls
