import KrabiTls.Engine.Auth
import KrabiTls.Trust.PathValidation
import KrabiTls.Trust.PinOrSelfSigned
import KrabiTls.Trust.SafeStrategy

/-! What a session of the engine rests on under the strategies of the crate: whatever it is sent, the
server has signed the handshake with the pinned key, with the key of a certificate that signs itself,
or with that of a leaf with a path to a pinned root. -/
namespace KrabiTls
open Lib

/-- The strategies of the crate. -/
inductive TrustStrategy where
  | leaf (mode : PinOrSelfSigned) (clock : Clock) (parser : Bytes → Except CertParseError CertView)
  | roots (roots : PinnedRoots)

namespace TrustStrategy
variable (b : BundledCrates) (p : SigVerifierProvider)

/-- `SafeStrategy<PinOrSelfSigned, _, _>`. -/
def safe (mode : PinOrSelfSigned) (clock : Clock) (parser : Bytes → Except CertParseError CertView) :
    SafeStrategy PinOrSelfSignedError :=
  ⟨⟨mode.anchorsAtLeaf, mode.acceptChain b p⟩, clock, parser⟩

/-- What the engine has of `verify_chain`: to it, all errors are one. -/
def verifyChain (usizeBits : Nat) (certs : List Bytes) :
    TrustStrategy → Option (PreparedVerifier p.toVerifierBackend)
  | .leaf mode clock parser => ((safe b p mode clock parser).verifyChain p certs).toOption
  | .roots s => (s.verifyChain usizeBits p certs).toOption

def parse (der : Bytes) : TrustStrategy → Except CertParseError CertView
  | .leaf _ _ parser => parser der
  | .roots s => s.parser.parse der

/-- What speaks for a chain that begins with `leaf`. -/
def Grounds (certs : List Bytes) (leaf : CertView) : TrustStrategy → Prop
  | .leaf (.pinned pin) clock _ => leaf.key = pin.key ∧ clock leaf = .ok ()
  | .leaf .selfSigned clock _ => certs.length = 1 ∧ verifySelfSig b p leaf = .ok () ∧ clock leaf = .ok ()
  | .roots s => s.PathValid p certs

variable {b p} {usizeBits : Nat} {certs : List Bytes} {prepared : PreparedVerifier p.toVerifierBackend}

/-- `prepared` is the verifier of the chain's leaf, for which `t` has its grounds. -/
structure Vouches (b : BundledCrates) (p : SigVerifierProvider) (t : TrustStrategy) (certs : List Bytes)
    (prepared : PreparedVerifier p.toVerifierBackend) (der : Bytes) (leaf : CertView) : Prop where
  head : certs.head? = some der
  parsed : t.parse der = .ok leaf
  prepared : prepareLeaf p leaf = .ok prepared
  grounds : t.Grounds b p certs leaf

theorem vouches_pinned {pin : PinnedPubkeyOwned} {clock : Clock}
    {parser : Bytes → Except CertParseError CertView}
    (h : (safe b p (.pinned pin) clock parser).verifyChain p certs = .ok prepared) :
    ∃ der leaf, Vouches b p (.leaf (.pinned pin) clock parser) certs prepared der leaf := by
  obtain ⟨views, htrusts, hclock⟩ := SafeStrategy.verifyChain_eq_ok.mp h
  obtain ⟨leaf, rest, rfl, hkey⟩ :=
    (PinOrSelfSigned.acceptChain_pinned_iff (b := b) (p := p)).mp htrusts.accepted
  obtain ⟨_, ⟨⟩, hprepared⟩ := htrusts.prepared
  have hparsed := htrusts.parsed
  -- the certificates above the leaf are not looked at
  have htake : (safe b p (.pinned pin) clock parser).toParse certs = certs.take 1 := rfl
  rw [htake] at hparsed
  cases certs with
  | nil => cases hparsed
  | cons der above =>
    rw [List.take_succ_cons] at hparsed
    cases hparsed with
    | cons hleaf _ => exact ⟨der, leaf, rfl, hleaf, hprepared, hkey, hclock leaf List.mem_cons_self⟩

theorem vouches_selfSigned {clock : Clock} {parser : Bytes → Except CertParseError CertView}
    (h : (safe b p .selfSigned clock parser).verifyChain p certs = .ok prepared) :
    ∃ der leaf, Vouches b p (.leaf .selfSigned clock parser) certs prepared der leaf := by
  obtain ⟨views, htrusts, hclock⟩ := SafeStrategy.verifyChain_eq_ok.mp h
  obtain ⟨leaf, rfl, hself⟩ := PinOrSelfSigned.acceptChain_selfSigned_iff.mp htrusts.accepted
  obtain ⟨_, ⟨⟩, hprepared⟩ := htrusts.prepared
  have hparsed : List.Forall₂ (fun der view => parser der = .ok view) certs [leaf] := htrusts.parsed
  cases hparsed with
  | cons hleaf hrest =>
    cases hrest
    exact ⟨_, leaf, rfl, hleaf, hprepared, rfl, hself, hclock leaf List.mem_cons_self⟩

theorem vouches_roots {s : PinnedRoots}
    (h : s.verifyChain usizeBits p certs = .ok prepared) :
    ∃ der leaf, Vouches b p (.roots s) certs prepared der leaf := by
  have hpath : s.PathValid p certs := PinnedRoots.pathValid_of_accepts ⟨prepared, h⟩
  cases certs with
  | nil => cases h
  | cons der above =>
    simp only [PinnedRoots.verifyChain] at h
    split at h
    · cases h
    · simp only [bind_eq_ok, mapError_eq_ok] at h
      obtain ⟨leaf, hleaf, _, -, _, -, hprepared⟩ := h
      exact ⟨der, leaf, rfl, hleaf, hprepared, hpath⟩

theorem vouches_of_verifyChain {t : TrustStrategy}
    (h : t.verifyChain b p usizeBits certs = some prepared) :
    ∃ der leaf, Vouches b p t certs prepared der leaf := by
  cases t with
  | leaf mode clock parser =>
    cases mode with
    | pinned pin => exact vouches_pinned (toOption_eq_some.mp h)
    | selfSigned => exact vouches_selfSigned (toOption_eq_some.mp h)
  | roots s => exact vouches_roots (toOption_eq_some.mp h)

end TrustStrategy

def ClientConfig.withProvider (cfg : ClientConfig) (p : SigVerifierProvider) : ClientConfig :=
  { cfg with verifiers := p.toVerifierBackend }

namespace Engine
variable {sz : Sizes}

/-- In every run in which the caller passes one of the strategies, whatever the engine is fed: the end
of the handshake, application data and an accepted write are reported only after the server's
`CertificateVerify` has passed, over this handshake, under the verifier of a leaf that the strategy has
grounds for. A pin settles the key, whatever else the server presents. -/
theorem reports_trusted (cfg : ClientConfig) (b : BundledCrates) (p : SigVerifierProvider)
    (t : TrustStrategy) (first : WaitServerHello (cfg.withProvider p)) (sendRecord : Block sz.send)
    (recvRecord : Block sz.recv) (ourRecvLimit peerRecvLimit : RecordSizeLimit)
    (calls : List (Call (cfg.withProvider p))) (next : Call (cfg.withProvider p))
    (hparams : ∀ params, .stepHandshake params ∈ calls →
      params.verifyChain = (t.verifyChain b p cfg.features.usizeBits ·)) :
    let e := (Engine.new sendRecord recvRecord (.waitServerHello first) ourRecvLimit
      peerRecvLimit).after calls
    let out := (e.call next).1
    out = .event (.ok .handshakeDone) ∨ out = .event (.ok .appData) ∨ (∃ n, out = .wrote (.ok n)) →
      ∃ a ∈ e.core.history.authenticated, a.Valid first e.core.reassembler sz.maxChain ∧
        ∃ der leaf, t.Vouches b p a.chain a.prepared der leaf := by
  intro e out hout
  have hinv (allowed : Call (cfg.withProvider p) → Prop) (h : ∀ call ∈ calls, allowed call) :
      e.AuthInv first allowed :=
    (authInv_new first sendRecord recvRecord ourRecvLimit peerRecvLimit).after calls h
  obtain ⟨a, ha, hcalled, hvalid⟩ := (hinv (· ∈ calls) fun _ h => h).authenticated_of_report
    (hinv (· ∈ next :: calls) fun _ h => List.mem_cons_of_mem _ h) List.mem_cons_self hout
  have htrusted := hvalid.trusted
  rw [hparams a.params hcalled] at htrusted
  exact ⟨a, ha, hvalid, TrustStrategy.vouches_of_verifyChain htrusted⟩

end Engine

namespace Sample

def pin : TrustStrategy :=
  .leaf (.pinned (.ed25519 (Block.zeros 32))) noClock ClientConfig.sample.certParser

def pinnedParams : ClientParams (.withProvider .sample .sample) :=
  { params with
    verifyChain := (pin.verifyChain crates .sample ClientConfig.sample.features.usizeBits ·) }

def pinnedHandshake : List (Call (.withProvider .sample .sample)) :=
  let flight := (serverFlight []).toOption.getD []
  [.fill serverHello, .advance serverHello.length, .stepHandshake pinnedParams, .fill flight,
    .advance flight.length, .stepHandshake pinnedParams, .markSent clientFinishedLen]

theorem pinnedHandshake_params {ps : ClientParams (.withProvider .sample .sample)}
    (h : .stepHandshake ps ∈ pinnedHandshake) : ps = pinnedParams := by
  simpa [pinnedHandshake] using h

def pinnedConn : WaitServerHello (.withProvider .sample .sample) := conn

def pinnedEngine : Engine (.withProvider .sample .sample) sizes :=
  .new (Block.zeros sizes.send) (Block.zeros sizes.recv) (.waitServerHello pinnedConn)
    (Engine.defaultOurRecvLimit sizes.recv) .default

theorem pinnedEngine_eq : pinnedEngine = .new (Block.zeros sizes.send) (Block.zeros sizes.recv)
    (.waitServerHello pinnedConn) (Engine.defaultOurRecvLimit sizes.recv) .default := rfl

end Sample

namespace Engine

theorem reports_trusted_pinned :
    let e := Sample.pinnedEngine.after Sample.pinnedHandshake
    (e.call (.stepHandshake Sample.pinnedParams)).1 = .event (.ok .handshakeDone) ∧
      ∃ a ∈ e.core.history.authenticated, ∃ leaf, leaf.key = .ed25519 (Block.zeros 32) ∧
        prepareLeaf .sample leaf = .ok a.prepared := by
  have hreports := reports_trusted ClientConfig.sample Sample.crates .sample Sample.pin
    Sample.pinnedConn (Block.zeros Sample.sizes.send) (Block.zeros Sample.sizes.recv)
    (defaultOurRecvLimit Sample.sizes.recv) .default Sample.pinnedHandshake
    (.stepHandshake Sample.pinnedParams) (fun _ hmem => Sample.pinnedHandshake_params hmem ▸ rfl)
  rw [← Sample.pinnedEngine_eq] at hreports
  have hout : ((Sample.pinnedEngine.after Sample.pinnedHandshake).call
      (.stepHandshake Sample.pinnedParams)).1 = .event (.ok .handshakeDone) := by
    decide +kernel
  obtain ⟨a, ha, -, der, leaf, hvouches⟩ := hreports (.inl hout)
  exact ⟨hout, a, ha, leaf, hvouches.grounds.1, hvouches.prepared⟩

end Engine

end KrabiTls
