import KrabiTls.Cert.Fields
import KrabiTls.Trust.PinnedRoots

/-! `verify_chain` against path validation: a statement about certificates and the set of anchors,
without a walk. -/
namespace KrabiTls
open Lib

namespace PinnedRoots
variable (p : SigVerifierProvider) (s : PinnedRoots)
variable {cert : Bytes}

/-- The certificate parses, and is inside its validity window unless it is exempt. -/
def TimeValid (cert : Bytes) : Prop :=
  ∃ view, s.parser.parse cert = .ok view ∧
    (s.enforceAnchorExpiry = true ∨ .cert cert ∉ s.anchors → s.clock view = .ok ())

/-- The signature on `cert` verifies under the key of `issuer`. -/
def SignedBy (cert issuer : Bytes) : Prop :=
  ∃ child parent, s.parser.parse cert = .ok child ∧ s.parser.parse issuer = .ok parent ∧
    verifyLink p child parent = .ok ()

/-- The certificate may issue with `below` intermediates beneath it. -/
def MayIssue (cert : Bytes) (below : Nat) : Prop :=
  ∃ ca, s.parser.parseCaConstraints cert = .ok ca ∧ ca.isCa = true ∧
    ca.keyCertSign ≠ some false ∧ ∀ pathLen ∈ ca.pathLen, below ≤ pathLen.toNat

/-- The certificate, or its key, is pinned by a fingerprint. -/
def Pinned (cert : Bytes) : Prop :=
  .fingerprint (s.sha256 cert) ∈ s.anchors ∨
    ∃ spki, s.parser.spkiDer cert = .ok spki ∧ .spkiFingerprint (s.sha256 spki) ∈ s.anchors

/-- A certificate of the ledger is the issuer of the last presented one, at height `i`. -/
def StoredIssuer (i : Nat) (cert : Bytes) : Prop :=
  ∃ anchorDer, .cert anchorDer ∈ s.anchors ∧ s.MayIssue anchorDer i ∧
    s.SignedBy p cert anchorDer ∧ s.TimeValid anchorDer

/-- The chain is trusted by its `k`-th certificate. -/
structure TrustedAt (certs : List Bytes) (k : Nat) (hk : k < certs.length) : Prop where
  valid : ∀ (i : Nat) (_ : i ≤ k), s.TimeValid certs[i]
  issued : ∀ (i : Nat) (_ : i < k), s.SignedBy p certs[i] certs[i + 1] ∧ s.MayIssue certs[i + 1] i
  trusted : s.Pinned certs[k] ∨ k = certs.length - 1 ∧ s.StoredIssuer p k certs[k]

def PathValid (certs : List Bytes) : Prop :=
  1 ≤ certs.length ∧ certs.length ≤ s.cap ∧ s.LeafPrepares p certs ∧
    ∃ k, ∃ hk : k < certs.length, s.TrustedAt p certs k hk

/-- The path length of every certificate that may be asked to issue is below the range of `usize`. -/
def PathLensFit (usizeBits : Nat) (certs : List Bytes) : Prop :=
  ∀ cert, cert ∈ certs.tail ∨ .cert cert ∈ s.anchors →
    ∀ ca, s.parser.parseCaConstraints cert = .ok ca →
      ∀ pathLen ∈ ca.pathLen, pathLen.toNat < 2 ^ usizeBits

/-- `verify_chain` is path validation on this chain, and blind to order and repetition in the
ledger. -/
def ValidatesPath (usizeBits : Nat) (certs : List Bytes) : Prop :=
  (s.Accepts usizeBits p certs ↔ s.PathValid p certs) ∧
    ∀ anchors : List Anchor, (∀ a, a ∈ anchors ↔ a ∈ s.anchors) →
      ({ s with anchors }.Accepts usizeBits p certs ↔ s.Accepts usizeBits p certs)

variable {p s} {usizeBits : Nat} {certs : List Bytes}

/-- 32 bits hold every path length. -/
theorem pathLensFit_of_le (hbits : 32 ≤ usizeBits) : s.PathLensFit usizeBits certs :=
  fun _ _ _ _ pathLen _ =>
    Nat.lt_of_lt_of_le pathLen.toNat_lt (Nat.pow_le_pow_right Nat.two_pos hbits)

theorem checkValidityOf_eq_ok {view : CertView} : s.checkValidityOf cert view = .ok () ↔
      (s.enforceAnchorExpiry = true ∨ .cert cert ∉ s.anchors → s.clock view = .ok ()) := by
  unfold checkValidityOf isStoredCertAnchor
  split
  · rename_i h
    rw [mapError_eq_ok]
    simp_all
  · rename_i h
    simp_all

theorem timeValid_iff : s.TimeValid cert ↔
      ∃ view, s.parser.parse cert = .ok view ∧ s.checkValidityOf cert view = .ok () := by
  simp only [TimeValid, checkValidityOf_eq_ok]

theorem requireIssuerCa_eq_ok {below : Nat} : s.requireIssuerCa usizeBits cert below = .ok () ↔
      ∃ ca, s.parser.parseCaConstraints cert = .ok ca ∧ ca.isCa = true ∧
        ca.keyCertSign ≠ some false ∧
        ∀ pathLen ∈ ca.pathLen, below ≤ pathLen.toNat % 2 ^ usizeBits := by
  simp only [requireIssuerCa, bind_eq_ok, mapError_eq_ok]
  refine exists_congr fun ca => and_congr_right fun _ => ?_
  cases ca with
  | mk isCa pathLen keyCertSign =>
    cases isCa
    · simp
    · by_cases hsign : keyCertSign = some false
      · simp [hsign]
      · cases pathLen with
        | none => simp [hsign]
        | some pathLen =>
          simp only [not_true, if_false, hsign, Option.mem_def, Option.some.injEq, forall_eq',
            ne_eq, not_false_eq_true, true_and]
          split <;> simp_all

/-- The cast to `usize` can only lower a path length. -/
theorem MayIssue.of_requireIssuerCa {below : Nat}
    (h : s.requireIssuerCa usizeBits cert below = .ok ()) : s.MayIssue cert below := by
  obtain ⟨ca, hca, hisCa, hsign, hlen⟩ := requireIssuerCa_eq_ok.mp h
  exact ⟨ca, hca, hisCa, hsign, fun pathLen hmem => (hlen pathLen hmem).trans (Nat.mod_le _ _)⟩

theorem MayIssue.requireIssuerCa {below : Nat} (h : s.MayIssue cert below)
    (hfits : s.PathLensFit usizeBits certs) (hmem : cert ∈ certs.tail ∨ .cert cert ∈ s.anchors) :
    s.requireIssuerCa usizeBits cert below = .ok () := by
  obtain ⟨ca, hca, hisCa, hsign, hlen⟩ := h
  refine requireIssuerCa_eq_ok.mpr ⟨ca, hca, hisCa, hsign, fun pathLen hpath => ?_⟩
  rw [Nat.mod_eq_of_lt (hfits cert hmem ca hca pathLen hpath)]
  exact hlen pathLen hpath

theorem Pinned.of_anchorMatches (h : s.anchorMatches cert = .ok true) : s.Pinned cert := by
  unfold anchorMatches at h
  split at h
  · exact .inl (by assumption)
  · split at h
    · simp only [bind_eq_ok, mapError_eq_ok] at h
      obtain ⟨spki, hspki, hmem⟩ := h
      exact .inr ⟨spki, hspki, of_decide_eq_true (Except.ok.inj hmem)⟩
    · cases h

/-- With a parser that finds the key of every certificate it parses, the match of the pins does not
fail. -/
theorem anchorMatches_of_parse (hspki : s.parser.SpkiTotal) {view : CertView}
    (hview : s.parser.parse cert = .ok view) :
    ∃ pinned, s.anchorMatches cert = .ok pinned ∧ (s.Pinned cert → pinned = true) := by
  obtain ⟨spki, hspki⟩ := hspki cert view hview
  unfold anchorMatches Pinned
  split
  · exact ⟨true, rfl, fun _ => rfl⟩
  · rename_i hfp
    split
    · refine ⟨decide (.spkiFingerprint (s.sha256 spki) ∈ s.anchors), ?_, by simp [hfp, hspki]⟩
      simp only [hspki, mapError_ok, bind, Except.bind, pure, Except.pure]
    · rename_i hany
      refine ⟨false, rfl, ?_⟩
      rintro (hmem | ⟨_, -, hmem⟩)
      · exact absurd hmem hfp
      · exact absurd (List.any_eq_true.mpr ⟨_, hmem, rfl⟩) hany

/-- Whatever the width of `usize` and the parser, the walk only ends at a certificate by which the
chain is trusted. -/
theorem TrustedAt.of_endsAt {k : Nat} {hk : k < certs.length}
    (h : (s.ascent usizeBits p).EndsAt 0 certs k hk) : s.TrustedAt p certs k hk := by
  refine ⟨fun i hi => timeValid_iff.mpr (h.stands i hi).2, ?_, ?_⟩
  · intro i hi
    obtain ⟨child, parent, hchild, hparent, hlink, hca⟩ := h.rungs i hi
    rw [Nat.zero_add] at hca
    exact ⟨⟨child, parent, hchild, hparent, hlink⟩, .of_requireIssuerCa hca⟩
  · rcases h.ends with hgoal | ⟨hlast, anchorDer, hmem, child, view, hchild, hview, hca, hlink, hvalid⟩
    · exact .inl (.of_anchorMatches hgoal)
    · rw [Nat.zero_add] at hca
      exact .inr ⟨by omega, anchorDer, hmem, .of_requireIssuerCa hca,
        ⟨child, view, hchild, hview, hlink⟩, timeValid_iff.mpr ⟨view, hview, hvalid⟩⟩

theorem TrustedAt.endsAt {k : Nat} {hk : k < certs.length} (h : s.TrustedAt p certs k hk)
    (hspki : s.parser.SpkiTotal) (hfits : s.PathLensFit usizeBits certs) :
    (s.ascent usizeBits p).EndsAt 0 certs k hk := by
  refine ⟨?_, ?_, ?_⟩
  · intro i hi
    obtain ⟨view, hview, hvalid⟩ := timeValid_iff.mp (h.valid i hi)
    obtain ⟨pinned, hpinned, -⟩ := anchorMatches_of_parse hspki hview
    exact ⟨⟨pinned, hpinned⟩, view, hview, hvalid⟩
  · intro i hi
    obtain ⟨⟨child, parent, hchild, hparent, hlink⟩, hca⟩ := h.issued i hi
    have hmem : certs[i + 1] ∈ certs.tail := by
      rw [← List.getElem_tail (by rw [List.length_tail]; omega)]
      exact List.getElem_mem _
    rw [Nat.zero_add]
    exact ⟨child, parent, hchild, hparent, hlink, hca.requireIssuerCa hfits (.inl hmem)⟩
  · rcases h.trusted with hpinned | ⟨hlast, anchorDer, hmem, hca, hsigned, hvalid⟩
    · obtain ⟨view, hview, -⟩ := h.valid k (Nat.le_refl k)
      obtain ⟨pinned, hmatch, htrue⟩ := anchorMatches_of_parse hspki hview
      rw [htrue hpinned] at hmatch
      exact .inl hmatch
    · obtain ⟨child, parent, hchild, hparent, hlink⟩ := hsigned
      obtain ⟨view, hview, hvalid⟩ := timeValid_iff.mp hvalid
      obtain rfl : parent = view := by rw [hparent] at hview; exact Except.ok.inj hview
      rw [Nat.zero_add]
      exact .inr ⟨by omega, anchorDer, hmem, child, parent, hchild, hparent,
        hca.requireIssuerCa hfits (.inr hmem), hlink, hvalid⟩

theorem pathValid_of_accepts (h : s.Accepts usizeBits p certs) : s.PathValid p certs := by
  obtain ⟨hcap, hleaf, hclimbs⟩ := accepts_iff.mp h
  obtain ⟨k, hk, hends⟩ := Ascent.climbs_iff.mp hclimbs
  exact ⟨Nat.lt_of_le_of_lt (Nat.zero_le k) hk, hcap, hleaf, k, hk, .of_endsAt hends⟩

/-- Where the path lengths fit a `usize`, the walk accepts the valid paths. -/
theorem accepts_iff_pathValid (hspki : s.parser.SpkiTotal) (hfits : s.PathLensFit usizeBits certs) :
    s.Accepts usizeBits p certs ↔ s.PathValid p certs := by
  constructor
  · exact pathValid_of_accepts
  · rintro ⟨-, hcap, hleaf, k, hk, h⟩
    exact accepts_iff.mpr ⟨hcap, hleaf, Ascent.climbs_iff.mpr ⟨k, hk, h.endsAt hspki hfits⟩⟩

/-! Only the set of anchors matters. -/

section Ledger
variable {anchors : List Anchor} {cert : Bytes}

theorem TimeValid.of_mem_iff (h : ∀ a, a ∈ anchors ↔ a ∈ s.anchors) (hvalid : s.TimeValid cert) :
    { s with anchors }.TimeValid cert := by
  simpa only [TimeValid, h] using hvalid

theorem Pinned.of_mem_iff (h : ∀ a, a ∈ anchors ↔ a ∈ s.anchors) (hpinned : s.Pinned cert) :
    { s with anchors }.Pinned cert := by
  simpa only [Pinned, h] using hpinned

theorem StoredIssuer.of_mem_iff (h : ∀ a, a ∈ anchors ↔ a ∈ s.anchors) {i : Nat}
    (hstored : s.StoredIssuer p i cert) : { s with anchors }.StoredIssuer p i cert := by
  obtain ⟨anchorDer, hmem, hissue, hsigned, hvalid⟩ := hstored
  exact ⟨anchorDer, (h _).mpr hmem, hissue, hsigned, hvalid.of_mem_iff h⟩

theorem PathValid.of_mem_iff (h : ∀ a, a ∈ anchors ↔ a ∈ s.anchors)
    (hpath : s.PathValid p certs) : { s with anchors }.PathValid p certs := by
  obtain ⟨hpos, hcap, hleaf, k, hk, ht⟩ := hpath
  refine ⟨hpos, hcap, hleaf, k, hk, ?_, ht.issued, ?_⟩
  · intro i hi
    exact (ht.valid i hi).of_mem_iff h
  · exact ht.trusted.imp (·.of_mem_iff h) (And.imp_right (·.of_mem_iff h))

theorem validatesPath (hspki : s.parser.SpkiTotal) (hfits : s.PathLensFit usizeBits certs) :
    s.ValidatesPath p usizeBits certs := by
  refine ⟨accepts_iff_pathValid hspki hfits, fun anchors h => ?_⟩
  have hspki' : { s with anchors }.parser.SpkiTotal := hspki
  have hfits' : { s with anchors }.PathLensFit usizeBits certs :=
    fun cert hmem => hfits cert (hmem.imp_right (h _).mp)
  rw [accepts_iff_pathValid hspki hfits, accepts_iff_pathValid hspki' hfits']
  constructor
  · intro hpath
    exact PathValid.of_mem_iff (s := { s with anchors }) (fun a => (h a).symm) hpath
  · intro hpath
    exact hpath.of_mem_iff h

end Ledger

end PinnedRoots

namespace Sample

/-- The basic constraints of a CA with the given path length, as DER integer. -/
def caExtension (pathLen : Bytes) : Bytes :=
  let basicConstraints := derTlv tagSequence (derTlv tagBoolean [0xFF] ++
    (if pathLen = [] then [] else derTlv tagInteger pathLen))
  derTlv (tagCtxConstructed 3) (derTlv tagSequence (derTlv tagSequence
    (derTlv tagOid basicConstraintsOid ++ derTlv tagOctetString basicConstraints)))

/-- A certificate for an Ed25519 key of equal bytes, signed with another. -/
def edCert (key signer : UInt8) (extensions : Bytes) : Bytes :=
  issued ed25519Alg (List.replicate 32 key) ed25519Alg extensions fun tbs =>
    List.replicate 64 (digest (List.replicate 32 signer ++ tbs))

def roots (f : Features) (anchors : List Anchor) : PinnedRoots where
  anchors
  clock := noClock
  enforceAnchorExpiry := false
  parser := TlvCert.certParser f
  cap := 8
  sha256 b := ⟨List.replicate 32 (digest b), length_replicate_digest b⟩

def narrow : Features := { Features.standard with usizeBits := 16, usizeBits_mem := Features.sixteen_mem }

def wideRoot : Bytes := edCert 3 3 (caExtension [1, 0, 0])

def pathChain : List Bytes := [edCert 1 2 [], edCert 2 3 (caExtension [])]

end Sample

namespace PinnedRoots

theorem narrow_pathValid : (Sample.roots Sample.narrow [.cert Sample.wideRoot]).PathValid .keyed
    Sample.pathChain := by
  -- path validation does not depend on the width of `usize`, so a wide one can decide it
  have haccepts : (Sample.roots Sample.narrow [.cert Sample.wideRoot]).Accepts 32 .keyed
      Sample.pathChain := by decide +kernel
  exact pathValid_of_accepts haccepts

theorem narrow_not_accepts : ¬ (Sample.roots Sample.narrow [.cert Sample.wideRoot]).Accepts 16
    .keyed Sample.pathChain := by
  decide +kernel

/-- On a 16-bit target the path length 65536 is read as 0, and a valid path is rejected. -/
theorem verifyChain_pathLen_cast :
    let s := Sample.roots Sample.narrow [.cert Sample.wideRoot]
    s.parser.SpkiTotal ∧ s.PathValid .keyed Sample.pathChain ∧
      ¬ s.Accepts Sample.narrow.usizeBits .keyed Sample.pathChain :=
  ⟨TlvCert.certParser_spkiTotal _, narrow_pathValid, narrow_not_accepts⟩

/-- `verify_chain` is path validation on exactly the targets whose `usize` holds every path length.
On the others it is so on every chain with path lengths in range. -/
theorem verifyChain_iff_pathValid (f : Features) :
    ((∀ (p : SigVerifierProvider) (s : PinnedRoots), s.parser.SpkiTotal → ∀ certs : List Bytes,
      s.ValidatesPath p f.usizeBits certs) ↔ 32 ≤ f.usizeBits) ∧
    ∀ (p : SigVerifierProvider) (s : PinnedRoots), s.parser.SpkiTotal → ∀ certs : List Bytes,
      s.PathLensFit f.usizeBits certs → s.ValidatesPath p f.usizeBits certs := by
  refine ⟨⟨?_, ?_⟩, fun p s hspki certs hfits => validatesPath hspki hfits⟩
  · intro hexact
    by_contra hnarrow
    have hbits : f.usizeBits = 16 := by
      have := f.usizeBits_mem
      omega
    rw [hbits] at hexact
    obtain ⟨haccepts, -⟩ := hexact .keyed (Sample.roots Sample.narrow [.cert Sample.wideRoot])
      (TlvCert.certParser_spkiTotal _) Sample.pathChain
    exact narrow_not_accepts (haccepts.mpr narrow_pathValid)
  · intro hbits p s hspki certs
    exact validatesPath hspki (pathLensFit_of_le hbits)

end PinnedRoots

end KrabiTls
