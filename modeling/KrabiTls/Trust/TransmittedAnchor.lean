import KrabiTls.Trust.PathValidation

/-! A chain that is accepted without its stored anchor, presented again with the anchor on top. -/
namespace KrabiTls
open Lib

namespace PinnedRoots
variable {usizeBits : Nat} {p : SigVerifierProvider} {s : PinnedRoots}
variable {anchorDer cert : Bytes}

/-- The chain is accepted because a stored certificate vouches for its top: no pin ends the walk
before. -/
structure VouchedBy (usizeBits : Nat) (p : SigVerifierProvider) (s : PinnedRoots)
    (anchorDer : Bytes) (certs : List Bytes) : Prop where
  accepts : s.Accepts usizeBits p certs
  unpinned : ∀ cert ∈ certs, s.anchorMatches cert ≠ .ok true
  vouched : ∀ top ∈ certs.getLast?, s.Vouches usizeBits p (certs.length - 1) anchorDer top

theorem VouchedBy.ne_nil {certs : List Bytes} (h : s.VouchedBy usizeBits p anchorDer certs) :
    certs ≠ [] := by
  rintro rfl
  exact (accepts_iff.mp h.accepts).2.2

/-- The stored issuer of a certificate is a rung above it. -/
theorem Vouches.rung {i : Nat} (h : s.Vouches usizeBits p i anchorDer cert) :
    (s.ascent usizeBits p).rung i cert anchorDer := by
  obtain ⟨-, child, view, hchild, hview, hca, hlink, -⟩ := h
  exact ⟨child, view, hchild, hview, hlink, hca⟩

/-- The climb that ends on the anchor itself. -/
theorem Vouches.climbs_iff {i j : Nat} (h : s.Vouches usizeBits p i anchorDer cert) :
    (s.ascent usizeBits p).Climbs j [anchorDer] ↔ s.anchorMatches anchorDer = .ok true ∨
      s.anchorMatches anchorDer = .ok false ∧
        ∃ issuerDer, s.Vouches usizeBits p j issuerDer anchorDer := by
  obtain ⟨-, _, view, -, hview, -, -, hvalid⟩ := h
  constructor
  · rintro ⟨⟨⟨pinned, hpinned⟩, -⟩, hend⟩
    cases pinned with
    | true => exact .inl hpinned
    | false => exact hend.imp_right fun hsummit => ⟨hpinned, hsummit⟩
  · rintro (hpinned | ⟨hpinned, hsummit⟩)
    · exact ⟨⟨⟨true, hpinned⟩, view, hview, hvalid⟩, .inl hpinned⟩
    · exact ⟨⟨⟨false, hpinned⟩, view, hview, hvalid⟩, .inr hsummit⟩

theorem leafPrepares_concat {certs : List Bytes} (hne : certs ≠ []) :
    s.LeafPrepares p (certs ++ [cert]) ↔ s.LeafPrepares p certs := by
  obtain ⟨leaf, above, rfl⟩ := List.exists_cons_of_ne_nil hne
  simp [LeafPrepares]

/-- The anchor may be transmitted where it is pinned by a fingerprint as well, or has an issuer in
the ledger with room for one intermediate more. A self-signed anchor is its own issuer. -/
theorem accepts_transmitted_iff {anchorDer : Bytes} {certs : List Bytes}
    (h : s.VouchedBy usizeBits p anchorDer certs) (hcap : (certs ++ [anchorDer]).length ≤ s.cap) :
    s.Accepts usizeBits p (certs ++ [anchorDer]) ↔ s.anchorMatches anchorDer = .ok true ∨
      s.anchorMatches anchorDer = .ok false ∧
        ∃ issuerDer, s.Vouches usizeBits p certs.length issuerDer anchorDer := by
  obtain ⟨-, hleaf, hclimbs⟩ := accepts_iff.mp h.accepts
  have hrung : ∀ top ∈ certs.getLast?,
      (s.ascent usizeBits p).rung (0 + (certs.length - 1)) top anchorDer := by
    intro top htop
    rw [Nat.zero_add]
    exact (h.vouched top htop).rung
  obtain ⟨top, htop⟩ : ∃ top, top ∈ certs.getLast? :=
    ⟨certs.getLast h.ne_nil, List.getLast?_eq_some_getLast h.ne_nil⟩
  rw [accepts_iff, leafPrepares_concat h.ne_nil, hclimbs.concat_iff h.unpinned hrung, Nat.zero_add,
    (h.vouched top htop).climbs_iff]
  constructor
  · rintro ⟨-, -, hend⟩
    exact hend
  · intro hend
    exact ⟨hcap, hleaf, hend⟩

end PinnedRoots

namespace Sample

/-- A root that certifies itself, one that is certified elsewhere, and one without room. -/
def selfSignedRoot : Bytes := edCert 3 3 (caExtension [])
def crossSignedRoot : Bytes := edCert 3 9 (caExtension [])
def tightRoot : Bytes := edCert 3 3 (caExtension [0])

def leafChain : List Bytes := [edCert 1 3 []]

end Sample

namespace PinnedRoots

/-- With one stored certificate and no pins, it is the anchor that vouches. -/
theorem vouchedBy_leafChain {root : Bytes}
    (haccepts : (Sample.roots .standard [.cert root]).Accepts 64 .keyed Sample.leafChain) :
    (Sample.roots .standard [.cert root]).VouchedBy 64 .keyed root Sample.leafChain := by
  have hunpinned : ∀ cert, (Sample.roots .standard [.cert root]).anchorMatches cert = .ok false := by
    intro cert
    simp [anchorMatches, Sample.roots, Anchor.isSpkiFingerprint]
  refine ⟨haccepts, fun cert _ => by simp [hunpinned], ?_⟩
  intro top htop
  obtain rfl : Sample.edCert 1 3 [] = top := by simpa [Sample.leafChain] using htop
  obtain ⟨-, -, -, hgoal | ⟨anchorDer, hvouches⟩⟩ := accepts_iff.mp haccepts
  · have hpinned := (hunpinned (Sample.edCert 1 3 [])).symm.trans hgoal
    cases hpinned
  · obtain rfl : anchorDer = root := by simpa [Sample.roots] using hvouches.1
    exact hvouches

/-- A self-signed root without path length may be sent along. -/
theorem accepts_transmitted_selfSigned :
    (Sample.roots .standard [.cert Sample.selfSignedRoot]).Accepts 64 .keyed
      (Sample.leafChain ++ [Sample.selfSignedRoot]) := by
  have hvouched := vouchedBy_leafChain
    (show (Sample.roots .standard [.cert Sample.selfSignedRoot]).Accepts 64 .keyed
      Sample.leafChain by decide +kernel)
  have hcap : (Sample.leafChain ++ [Sample.selfSignedRoot]).length ≤ 8 := by simp [Sample.leafChain]
  refine (accepts_transmitted_iff hvouched hcap).mpr (.inr ⟨by decide +kernel, ?_⟩)
  -- the root's own check as an issuer at height 1
  obtain ⟨view, hview, hany⟩ := (Option.any_eq_true
    (fun view => (Sample.roots .standard [.cert Sample.selfSignedRoot]).anchors.any
      ((Sample.roots .standard [.cert Sample.selfSignedRoot]).vouches 64 .keyed view
        Sample.leafChain.length))
    ((Sample.roots .standard [.cert Sample.selfSignedRoot]).parser.parse
      Sample.selfSignedRoot).toOption).mp (by decide +kernel)
  exact (any_vouches_iff (toOption_eq_some.mp hview)).mp hany

/-- A root that another authority has signed, or whose path length leaves no room for itself below,
makes a chain unacceptable by being sent along. -/
theorem not_accepts_transmitted :
    ((Sample.roots .standard [.cert Sample.crossSignedRoot]).VouchedBy 64 .keyed
        Sample.crossSignedRoot Sample.leafChain ∧
      ¬ (Sample.roots .standard [.cert Sample.crossSignedRoot]).Accepts 64 .keyed
        (Sample.leafChain ++ [Sample.crossSignedRoot])) ∧
    ((Sample.roots .standard [.cert Sample.tightRoot]).VouchedBy 64 .keyed
        Sample.tightRoot Sample.leafChain ∧
      ¬ (Sample.roots .standard [.cert Sample.tightRoot]).Accepts 64 .keyed
        (Sample.leafChain ++ [Sample.tightRoot])) := by
  refine ⟨⟨vouchedBy_leafChain ?_, ?_⟩, vouchedBy_leafChain ?_, ?_⟩
  · decide +kernel
  · decide +kernel
  · decide +kernel
  · decide +kernel

end PinnedRoots

end KrabiTls
