import Mathlib.Data.List.Chain
import KrabiTls.Trust.Validity

/-! The strategy that leaves a trust decision nothing but the question whether the chain ends at an
acceptable root (`SafeStrategy` in `verify_strategy.rs`). -/
namespace KrabiTls
open Lib

/-- `TrustRootDecision`. -/
structure TrustRootDecision (TE : Type) where
  anchorsAtLeaf : Bool
  acceptChain : List CertView → Except TE Unit

inductive SafeStrategyError (TE : Type) where
  | parse (e : CertParseError)
  | chainTooLong
  | emptyChain
  | linkSignatureInvalid
  | ed25519VerifierInvalid
  | unknownLinkSigAlg
  | rsaVerifierInvalid
  | mlDsaVerifierInvalid
  | ecdsaVerifierInvalid
  | decision (e : TE)
  | validity
  deriving DecidableEq, Repr

namespace SafeStrategyError
variable {TE : Type}

def ofPrepareLeafErr : PrepareLeafErr → SafeStrategyError TE
  | .ed25519 => .ed25519VerifierInvalid
  | .rsa => .rsaVerifierInvalid
  | .mlDsa => .mlDsaVerifierInvalid
  | .ecdsa => .ecdsaVerifierInvalid

def ofLinkErr : LinkErr → SafeStrategyError TE
  | .linkSignatureInvalid => .linkSignatureInvalid
  | .unknownLinkSigAlg => .unknownLinkSigAlg
  | .rsaVerifierInvalid => .rsaVerifierInvalid
  | .mlDsaVerifierInvalid => .mlDsaVerifierInvalid

end SafeStrategyError

def safeStrategyChainCap : Nat := 8

/-- `SafeStrategy`, with its type parameters as fields. -/
structure SafeStrategy (TE : Type) where
  decision : TrustRootDecision TE
  clock : Clock
  parser : Bytes → Except CertParseError CertView

namespace SafeStrategy
variable {TE : Type} (p : SigVerifierProvider) (s : SafeStrategy TE)
variable {certs : List Bytes} {views : List CertView}
  {prepared : PreparedVerifier p.toVerifierBackend}
variable {u : Unit}

/-- The loop over the certificates to parse; `views` holds those before. -/
def parseViews (views : List CertView) : List Bytes → Except (SafeStrategyError TE) (List CertView)
  | [] => .ok views
  | certDer :: rest => do
      let view ← (s.parser certDer).mapError .parse
      ensure (views.length < safeStrategyChainCap) .chainTooLong
      parseViews (views ++ [view]) rest

/-- Each certificate under the key of the next. -/
def verifyLinks : List CertView → Except (SafeStrategyError TE) Unit
  | [] => .ok ()
  | [_] => .ok ()
  | child :: parent :: rest => do
      (verifyLink p child parent).mapError .ofLinkErr
      verifyLinks (parent :: rest)

def checkValidity : List CertView → Except (SafeStrategyError TE) Unit
  | [] => .ok ()
  | cert :: rest => do
      (s.clock cert).mapError fun _ => .validity
      checkValidity rest

/-- The certificates that count: those above the leaf are opaque to a decision about the leaf. -/
def toParse (certs : List Bytes) : List Bytes :=
  if s.decision.anchorsAtLeaf then certs.take 1 else certs

def checkLinks (views : List CertView) : Except (SafeStrategyError TE) Unit :=
  if s.decision.anchorsAtLeaf then .ok () else verifyLinks p views

/-- The scope of the validity check is that of the parsing. -/
def checkClock (views : List CertView) : Except (SafeStrategyError TE) Unit :=
  if s.decision.anchorsAtLeaf then s.checkValidity (views.take 1) else s.checkValidity views

def verifyChain (certs : List Bytes) :
    Except (SafeStrategyError TE) (PreparedVerifier p.toVerifierBackend) := do
  ensure (certs ≠ []) .emptyChain
  ensure (certs.length ≤ safeStrategyChainCap) .chainTooLong
  let views ← s.parseViews [] (s.toParse certs)
  s.checkLinks p views
  (s.decision.acceptChain views).mapError .decision
  s.checkClock views
  -- `views[0]`: the chain is not empty
  let leaf ← okOr .emptyChain views.head?
  (prepareLeaf p leaf).mapError .ofPrepareLeafErr

variable {p s}

theorem parseViews_eq_ok {out : List CertView} :
    s.parseViews views certs = .ok out ↔ ∃ more, out = views ++ more ∧
      List.Forall₂ (fun der view => s.parser der = .ok view) certs more ∧
      (certs ≠ [] → out.length ≤ safeStrategyChainCap) := by
  induction certs generalizing views with
  | nil =>
    simp only [parseViews, Except.ok.injEq, ne_eq, not_true_eq_false, false_implies, and_true]
    constructor
    · rintro rfl
      exact ⟨[], (List.append_nil _).symm, .nil⟩
    · rintro ⟨more, rfl, hmore⟩
      cases hmore
      exact (List.append_nil _).symm
  | cons der rest ih =>
    simp only [parseViews, bind_eq_ok, mapError_eq_ok, ensure_eq_ok, ih]
    constructor
    · rintro ⟨view, hview, _, hroom, more, rfl, hmore, hlen⟩
      refine ⟨view :: more, by simp, .cons hview hmore, fun _ => ?_⟩
      cases hmore with
      | nil => simpa using Nat.succ_le_of_lt hroom
      | cons => exact hlen (by simp)
    · rintro ⟨more, rfl, hmore, hlen⟩
      cases hmore with
      | cons hview hmore =>
        have hlen := hlen (by simp)
        refine ⟨_, hview, (), ?_, _, by simp, hmore, fun _ => hlen⟩
        simp only [List.length_append, List.length_cons] at hlen
        omega

theorem verifyLinks_eq_ok : (verifyLinks p views : Except (SafeStrategyError TE) Unit) = .ok u ↔
      views.IsChain fun child parent => verifyLink p child parent = .ok () := by
  induction views using verifyLinks.induct with
  | case1 => simp [verifyLinks]
  | case2 => simp [verifyLinks]
  | case3 child parent rest ih =>
    simp only [verifyLinks, bind_eq_ok, mapError_eq_ok, ih, List.isChain_cons_cons,
      Unique.exists_iff]

theorem checkValidity_eq_ok :
    s.checkValidity views = .ok u ↔ ∀ view ∈ views, s.clock view = .ok () := by
  induction views with
  | nil => simp [checkValidity]
  | cons view views ih =>
    simp only [checkValidity, bind_eq_ok, mapError_eq_ok, ih, List.forall_mem_cons,
      Unique.exists_iff]

/-- What a strategy has checked apart from the clock; `views` are the certificates that count. -/
structure Trusts (p : SigVerifierProvider) (s : SafeStrategy TE) (certs : List Bytes)
    (views : List CertView) (prepared : PreparedVerifier p.toVerifierBackend) : Prop where
  nonempty : certs ≠ []
  short : certs.length ≤ safeStrategyChainCap
  parsed : List.Forall₂ (fun der view => s.parser der = .ok view) (s.toParse certs) views
  linked : s.decision.anchorsAtLeaf = false →
    views.IsChain fun child parent => verifyLink p child parent = .ok ()
  accepted : s.decision.acceptChain views = .ok ()
  prepared : ∃ leaf ∈ views.head?, prepareLeaf p leaf = .ok prepared

theorem checkLinks_eq_ok : s.checkLinks p views = .ok u ↔ (s.decision.anchorsAtLeaf = false →
      views.IsChain fun child parent => verifyLink p child parent = .ok ()) := by
  unfold checkLinks
  split
  · rename_i hleaf
    simp [hleaf]
  · rename_i hall
    simp [hall, verifyLinks_eq_ok]

theorem toParse_length_le (certs : List Bytes) : (s.toParse certs).length ≤ certs.length := by
  unfold toParse
  split
  · exact List.length_take_le' _ _
  · exact Nat.le_refl _

theorem checkClock_eq_ok
    (hparsed : List.Forall₂ (fun der view => s.parser der = .ok view) (s.toParse certs) views) :
    s.checkClock views = .ok u ↔ ∀ view ∈ views, s.clock view = .ok () := by
  unfold checkClock
  split
  · rename_i hleaf
    have hlen : views.length ≤ 1 := by
      rw [← hparsed.length_eq, toParse, if_pos hleaf]
      exact List.length_take_le _ _
    rw [checkValidity_eq_ok, List.take_of_length_le hlen]
  · exact checkValidity_eq_ok

theorem verifyChain_eq_ok : s.verifyChain p certs = .ok prepared ↔
      ∃ views, s.Trusts p certs views prepared ∧ ∀ view ∈ views, s.clock view = .ok () := by
  simp only [verifyChain, bind_eq_ok, ensure_eq_ok, parseViews_eq_ok, mapError_eq_ok, okOr_eq_ok,
    checkLinks_eq_ok, List.nil_append]
  constructor
  · rintro ⟨_, hne, _, hshort, views, ⟨_, rfl, hparsed, -⟩, _, hlinks, _, haccept, _, hclock, leaf,
      hleaf, hprepared⟩
    exact ⟨views, ⟨hne, hshort, hparsed, hlinks, haccept, leaf, hleaf, hprepared⟩,
      (checkClock_eq_ok hparsed).mp hclock⟩
  · rintro ⟨views, h, hclock⟩
    obtain ⟨leaf, hleaf, hprepared⟩ := h.prepared
    have hlen : views.length ≤ safeStrategyChainCap :=
      h.parsed.length_eq ▸ (toParse_length_le certs).trans h.short
    exact ⟨(), h.nonempty, (), h.short, views, ⟨views, rfl, h.parsed, fun _ => hlen⟩, (), h.linked,
      (), h.accepted, (), (checkClock_eq_ok h.parsed).mpr hclock, leaf, hleaf, hprepared⟩

theorem Trusts.views_ne_nil (h : s.Trusts p certs views prepared) : views ≠ [] := by
  rintro rfl
  obtain ⟨leaf, hleaf, -⟩ := h.prepared
  cases hleaf

def withClock (s : SafeStrategy TE) (clock : Clock) : SafeStrategy TE := { s with clock }

theorem trusts_withClock {clock : Clock} :
    (s.withClock clock).Trusts p certs views prepared ↔ s.Trusts p certs views prepared :=
  ⟨fun h => ⟨h.nonempty, h.short, h.parsed, h.linked, h.accepted, h.prepared⟩,
    fun h => ⟨h.nonempty, h.short, h.parsed, h.linked, h.accepted, h.prepared⟩⟩

theorem Trusts.views_unique {views' : List CertView}
    {prepared' : PreparedVerifier p.toVerifierBackend} (h : s.Trusts p certs views prepared)
    (h' : s.Trusts p certs views' prepared') : views = views' := by
  have hunique : Relator.RightUnique fun der view => s.parser der = .ok view := by
    intro der view view' hview hview'
    rw [hview] at hview'
    exact Except.ok.inj hview'
  exact List.right_unique_forall₂' hunique h.parsed h'.parsed

/-- The certificate can be read, and its validity window has `now` in it. -/
def InWindow (d : DerTimeCrate) (s : SafeStrategy TE) (now : Nat) (der : Bytes) : Prop :=
  ∃ view notBefore notAfter, s.parser der = .ok view ∧
    parseValidityDer d view.validityDer = .ok (notBefore, notAfter) ∧
    notBefore ≤ now ∧ now ≤ notAfter

theorem inWindow_iff {d : DerTimeCrate} {now : Nat} {ders : List Bytes}
    (hparsed : List.Forall₂ (fun der view => s.parser der = .ok view) ders views) :
    (∀ view ∈ views, clocked d now view = .ok ()) ↔ ∀ der ∈ ders, s.InWindow d now der := by
  induction hparsed with
  | nil => simp
  | cons hview _ ih =>
    rw [List.forall_mem_cons, List.forall_mem_cons, ih, clocked_eq_ok]
    simp only [InWindow, hview, Except.ok.injEq, exists_and_left, exists_eq_left']

/-- Whatever the decision, a clock adds nothing but an interval of time. At every moment the strategy
returns what it returns without a clock, or an error; it returns it at the moments that lie in the
windows of all certificates that count, so from some moment on and until some moment. -/
theorem verifyChain_clocked_iff (d : DerTimeCrate) (p : SigVerifierProvider) (s : SafeStrategy TE)
    (certs : List Bytes) :
    (∀ now prepared, (s.withClock (clocked d now)).verifyChain p certs = .ok prepared ↔
      (s.withClock noClock).verifyChain p certs = .ok prepared ∧
        ∀ der ∈ s.toParse certs, s.InWindow d now der) ∧
    ∃ lo hi, ∀ now, (∃ prepared, (s.withClock (clocked d now)).verifyChain p certs = .ok prepared) ↔
      (∃ prepared, (s.withClock noClock).verifyChain p certs = .ok prepared) ∧ lo ≤ now ∧ now ≤ hi := by
  have hclocked (now : Nat) (prepared : PreparedVerifier p.toVerifierBackend) :
      (s.withClock (clocked d now)).verifyChain p certs = .ok prepared ↔
        ∃ views, s.Trusts p certs views prepared ∧ ∀ view ∈ views, clocked d now view = .ok () := by
    simp only [verifyChain_eq_ok, trusts_withClock]
    rfl
  have hfree (prepared : PreparedVerifier p.toVerifierBackend) :
      (s.withClock noClock).verifyChain p certs = .ok prepared ↔
        ∃ views, s.Trusts p certs views prepared := by
    simp only [verifyChain_eq_ok, trusts_withClock]
    exact exists_congr fun views => and_iff_left fun _ _ => rfl
  constructor
  · intro now prepared
    rw [hclocked, hfree]
    constructor
    · rintro ⟨views, h, hvalid⟩
      exact ⟨⟨views, h⟩, (inWindow_iff h.parsed).mp hvalid⟩
    · rintro ⟨⟨views, h⟩, hvalid⟩
      exact ⟨views, h, (inWindow_iff h.parsed).mpr hvalid⟩
  · simp only [hclocked, hfree]
    by_cases hsome : ∃ prepared views, s.Trusts p certs views prepared
    · obtain ⟨prepared₀, views, htrusts⟩ := hsome
      obtain ⟨lo, hi, hwindow⟩ := exists_window d views
      refine ⟨lo, hi, fun now => ?_⟩
      have hclock := (hwindow now).trans (or_iff_left htrusts.views_ne_nil)
      constructor
      · rintro ⟨prepared, views', h, hvalid⟩
        obtain rfl := htrusts.views_unique h
        exact ⟨⟨prepared, views, h⟩, hclock.mp hvalid⟩
      · rintro ⟨⟨prepared, views', h⟩, hnow⟩
        obtain rfl := htrusts.views_unique h
        exact ⟨prepared, views, h, hclock.mpr hnow⟩
    · refine ⟨0, 0, fun now => ?_⟩
      constructor
      · rintro ⟨prepared, views, h, -⟩
        exact absurd ⟨prepared, views, h⟩ hsome
      · rintro ⟨haccepts, -⟩
        exact absurd haccepts hsome

end SafeStrategy

end KrabiTls
