import KrabiTls.Engine.Steps
import KrabiTls.Lib.Numbered
import KrabiTls.Lib.Loop

/-! The engine never seals two records under one pair of send generation and sequence number, and
each generation is sealed under the update of the one before it. The abstract machine `SendView` keeps
only the sending half of the connection, the generation and the records sealed. -/
namespace KrabiTls
open Lib Relation

/-- The record is sealed with the keys of the traffic secret. -/
def SealedRecord.Under (cfg : ClientConfig) (suite : CipherSuite) (secret : Secret)
    (r : SealedRecord) : Prop :=
  ∃ keys outLen dirty, RecordKeys.derive cfg.hkdf suite secret = .ok keys ∧
    keys.encryptRecord cfg.aead r.content r.contentType r.seq outLen = (.ok r.record, dirty)

/-- The traffic secret of a generation: that of the handshake, or the first one for application data
after so many updates. -/
inductive SendGen.HasSecret (h : HkdfSha256) (handshake first : Secret) : SendGen → Secret → Prop where
  | handshake : HasSecret h handshake first .handshake handshake
  | application {n secret} (hupdated : UpdatedBy h first n secret) :
      HasSecret h handshake first (.application n) secret

/-- Every record is sealed under the secret of its generation. -/
def SealedUnder (cfg : ClientConfig) (suite : CipherSuite) (handshake first : Secret)
    (log : List (SendGen × SealedRecord)) : Prop :=
  ∀ s ∈ log, ∃ secret, s.1.HasSecret cfg.hkdf handshake first secret ∧ s.2.Under cfg suite secret

structure SendHalf where
  suite : CipherSuite
  keys : RecordKeys
  secret : Secret
  seq : Nat

inductive SendPhase where
  | before
  | sealing (half : SendHalf)
  | over

structure SendView where
  phase : SendPhase
  gen : Nat
  log : List (SendGen × SealedRecord)

namespace SendView

/-- The pairs of generation and sequence number used for sealing. -/
def pairs (v : SendView) : List (SendGen × Nat) := v.log.map fun s => (s.1, s.2.seq)

inductive Step (cfg : ClientConfig) : SendView → SendView → Prop where
  | stay {v} : Step cfg v v
  | stop {v} : Step cfg v { v with phase := .over }
  | flight {v phase suite handshake} {records : List SealedRecord} (hbefore : v.phase = .before)
      (hphase : phase = .over ∨ ∃ keys first, RecordKeys.derive cfg.hkdf suite first = .ok keys ∧
        phase = .sealing ⟨suite, keys, first, 0⟩)
      (hseqs : Consecutive (2 ^ 64) (records.map SealedRecord.seq))
      (hunder : ∀ r ∈ records, r.Under cfg suite handshake) :
      Step cfg v { v with phase, log := v.log ++ records.map (.handshake, ·) }
  | number {v half content contentType record outLen} (hphase : v.phase = .sealing half)
      (hseal : half.keys.encryptRecord cfg.aead content contentType half.seq outLen =
        (.ok record, record)) :
      Step cfg v { v with
        phase := .sealing { half with seq := (half.seq + 1) % 2 ^ 64 }
        log := v.log ++ [(.application v.gen, ⟨half.seq, contentType, content, record⟩)] }
  | rotate {v half next keys} (hphase : v.phase = .sealing half)
      (hnext : AppData.nextKeys cfg half.suite half.secret = .ok (next, keys)) :
      Step cfg v { v with
        phase := .sealing { half with keys, secret := next, seq := 0 }
        gen := v.gen + 1 }

structure Inv (cfg : ClientConfig) (v : SendView) : Prop where
  numbered : Numbered (2 ^ 64) v.pairs
  before : v.phase = .before → v.log = [] ∧ v.gen = 0
  current : ∀ half, v.phase = .sealing half →
    half.seq = (numbers (.application v.gen) v.pairs).length % 2 ^ 64
  later : ∀ g, v.gen < g → numbers (.application g) v.pairs = []
  keyed : ∃ suite handshake first, SealedUnder cfg suite handshake first v.log ∧
    ∀ half, v.phase = .sealing half → half.suite = suite ∧
      RecordKeys.derive cfg.hkdf suite half.secret = .ok half.keys ∧
      UpdatedBy cfg.hkdf first v.gen half.secret

variable {cfg : ClientConfig} {v v' : SendView}

/-- The flight goes out under the handshake secret, and the first application secret comes with it. -/
theorem Inv.flight (hinv : v.Inv cfg) {phase : SendPhase} {suite : CipherSuite} {handshake : Secret}
    {records : List SealedRecord} (hbefore : v.phase = .before)
    (hphase : phase = .over ∨ ∃ keys first, RecordKeys.derive cfg.hkdf suite first = .ok keys ∧
      phase = .sealing ⟨suite, keys, first, 0⟩)
    (hseqs : Consecutive (2 ^ 64) (records.map SealedRecord.seq))
    (hunder : ∀ r ∈ records, r.Under cfg suite handshake) :
    Inv cfg { v with phase, log := v.log ++ records.map (.handshake, ·) } := by
  obtain ⟨hlog, hgen⟩ := hinv.before hbefore
  have hpairs : pairs { v with phase, log := v.log ++ records.map (.handshake, ·) } =
      (records.map SealedRecord.seq).map (SendGen.handshake, ·) := by simp [pairs, hlog]
  have hother (g : Nat) : numbers (.application g)
      ((records.map SealedRecord.seq).map (SendGen.handshake, ·)) = [] :=
    numbers_block_of_ne (by simp) _
  have hsealed (first : Secret) : SealedUnder cfg suite handshake first
      (v.log ++ records.map (SendGen.handshake, ·)) := by
    rw [hlog, List.nil_append]
    rintro _ hs
    obtain ⟨r, hr, rfl⟩ := List.mem_map.mp hs
    exact ⟨handshake, .handshake, hunder r hr⟩
  refine ⟨hpairs ▸ numbered_block _ hseqs, ?_, ?_, fun g _ => hpairs ▸ hother g, ?_⟩
  · rcases hphase with rfl | ⟨_, _, _, rfl⟩ <;> nofun
  · intro half hhalf
    rw [hpairs, hother]
    rcases hphase with rfl | ⟨_, _, _, rfl⟩ <;> cases hhalf
    rfl
  · rcases hphase with rfl | ⟨keys, first, hkeys, rfl⟩
    · exact ⟨suite, handshake, handshake, hsealed handshake, nofun⟩
    · refine ⟨suite, handshake, first, hsealed first, ?_⟩
      rintro _ ⟨⟩
      dsimp only
      rw [hgen]
      exact ⟨rfl, hkeys, .zero⟩

theorem Inv.step (hinv : v.Inv cfg) (hstep : Step cfg v v') : v'.Inv cfg := by
  cases hstep with
  | stay => exact hinv
  | stop =>
    obtain ⟨suite, handshake, first, hsealed, -⟩ := hinv.keyed
    exact ⟨hinv.numbered, by simp, by simp, hinv.later, suite, handshake, first, hsealed, by simp⟩
  | flight hbefore hphase hseqs hunder => exact hinv.flight hbefore hphase hseqs hunder
  | @number half content contentType record outLen hphase hseal =>
    have hseq := hinv.current half hphase
    have hpairs (phase : SendPhase) : pairs { v with phase, log := v.log ++
        [(.application v.gen, ⟨half.seq, contentType, content, record⟩)] } =
        v.pairs ++ [(.application v.gen, half.seq)] := by simp [pairs]
    refine ⟨hpairs _ ▸ hinv.numbered.append hseq, by simp, ?_, ?_, ?_⟩
    · rintro _ ⟨⟩
      rw [hpairs]
      simp [hseq]
    · intro g hg
      rw [hpairs, numbers_append, hinv.later g hg, List.nil_append]
      have hne : v.gen ≠ g := by dsimp only at hg; omega
      exact numbers_singleton_of_ne (by simpa using hne) half.seq
    · obtain ⟨suite, handshake, first, hsealed, hhalf⟩ := hinv.keyed
      obtain ⟨hsuite, hkeys, hupdated⟩ := hhalf half hphase
      refine ⟨suite, handshake, first, List.forall_mem_append.mpr ⟨hsealed, ?_⟩, ?_⟩
      · rintro _ (_ | ⟨_, ⟨⟩⟩)
        exact ⟨half.secret, .application hupdated, half.keys, outLen, record, hkeys, hseal⟩
      · rintro _ ⟨⟩
        exact ⟨hsuite, hkeys, hupdated⟩
  | @rotate half next keys hphase hnext =>
    refine ⟨hinv.numbered, by simp, ?_, fun g hg => hinv.later g (by simp at hg; omega), ?_⟩
    · rintro _ ⟨⟩
      show 0 = (numbers (.application (v.gen + 1)) v.pairs).length % 2 ^ 64
      rw [hinv.later (v.gen + 1) (by omega)]
      rfl
    · obtain ⟨suite, handshake, first, hsealed, hhalf⟩ := hinv.keyed
      obtain ⟨rfl, -, hupdated⟩ := hhalf half hphase
      obtain ⟨hsecret, hkeys⟩ := (AppData.nextKeys_eq_ok cfg).mp hnext
      refine ⟨half.suite, handshake, first, hsealed, ?_⟩
      rintro _ ⟨⟩
      exact ⟨rfl, hkeys, .succ hupdated hsecret⟩

end SendView

def AppData.sendHalf (c : AppData) : SendHalf := ⟨c.suite, c.cApKeys, c.cApTs, c.seqOut⟩

@[simp] def EngineState.sendPhase {cfg : ClientConfig} : EngineState cfg → SendPhase
  | .waitServerHello _ => .before
  | .waitFlight _ => .before
  | .app conn => .sealing conn.sendHalf
  | .closed => .over

namespace Core
variable {cfg : ClientConfig} {sz : Sizes}
variable {c c' : Core cfg sz}

/-- The pairs of generation and sequence number used for sealing. -/
def sealedPairs (c : Core cfg sz) : List (SendGen × Nat) :=
  c.history.sealed.map fun s => (s.1, s.2.seq)

def sendView (c : Core cfg sz) : SendView :=
  ⟨c.state.sendPhase, c.history.sendGen, c.history.sealed⟩

theorem markSent_sendView (c : Core cfg sz) (n : Nat) : (c.markSent n).2.sendView = c.sendView := by
  unfold markSent
  split
  · rfl
  · dsimp only
    split <;> rfl

theorem sendView_sealed {conn conn' : AppData} {content record : Bytes} {ct : UInt8}
    (hstate : c.state = .app conn)
    (hseal : c.sealRecord conn content ct = (.ok (record, conn'), c')) :
    SendView.Step cfg c.sendView c'.sendView := by
  obtain ⟨hrecord, rfl, rfl⟩ := sealRecord_eq_ok c hseal
  have hphase : c.sendView.phase = .sealing conn.sendHalf := by simp [sendView, hstate]
  exact SendView.Step.number hphase hrecord

theorem encryptHandshakeFlight_under {suite : CipherSuite} {secret : Secret} {keys : RecordKeys}
    (hkeys : RecordKeys.derive cfg.hkdf suite secret = .ok keys) (plaintext : Bytes)
    (peerRsl outLen : Nat) :
    ∀ r ∈ (encryptHandshakeFlight cfg.aead keys plaintext peerRsl outLen).sealed,
      r.Under cfg suite secret := by
  refine encryptHandshakeFlight_induct (fun s => ∀ r ∈ s.sealed, r.Under cfg suite secret)
    (fun out => ∀ r ∈ out.sealed, r.Under cfg suite secret) nofun ?_ (fun s hs _ => hs)
    fun s e dirty hs _ _ => hs
  intro s record dirty hs _ hrecord
  rw [List.forall_mem_append]
  refine ⟨hs, ?_⟩
  rintro _ (_ | ⟨_, ⟨⟩⟩)
  exact ⟨keys, _, dirty, hkeys, hrecord⟩

/-- The client flight as a step of the abstract machine. -/
theorem sendView_flight {params : ClientParams cfg}
    {certRequest : Option (Bytes × Bytes)} {done : ServerFlightDone} {n : Nat} {scratch : Block n}
    {phase : SendPhase} (hbefore : c.sendView.phase = .before)
    (hphase : phase = .over ∨ ∃ keys first,
      RecordKeys.derive cfg.hkdf done.suite first = .ok keys ∧
        phase = .sealing ⟨done.suite, keys, first, 0⟩) :
    SendView.Step cfg c.sendView { c.sendView with
      phase
      log := c.history.sealed ++
        (c.clientFlight params certRequest done scratch).1.sealed.map (SendGen.handshake, ·) } := by
  have hunder := c.clientFlight_induct (fun records => ∀ r ∈ records, r.Under cfg done.suite done.cHsTs)
    params certRequest done scratch nofun (fun _ _ hkeys => encryptHandshakeFlight_under hkeys _ _ _) (by
      rintro keys msg record dirty th hkeys - hrecord _ (_ | ⟨_, ⟨⟩⟩)
      exact ⟨keys, _, dirty, hkeys, hrecord⟩)
  exact .flight hbefore hphase (c.clientFlight_records params certRequest done scratch).seqs hunder

/-- The abstraction to the sending half simulates every step. -/
theorem Step.sendView {call : Call cfg} (h : Step call c c') :
    ReflTransGen (SendView.Step cfg) c.sendView c'.sendView := by
  cases h with
  | serverHello _ hstate | fed _ hstate | opened _ hstate =>
    exact .single (by simpa [Core.sendView, hstate] using .stay)
  | flightFailed _ _ haccepted =>
    exact .single (sendView_flight (by simp [Core.sendView, haccepted.state]) (.inl rfl))
  | @flightQueued _ _ _ _ _ _ _ app _ _ haccepted hflight =>
    obtain ⟨⟨_, happ⟩, -⟩ := clientFlight_eq_ok c hflight
    obtain ⟨hseq, -, hsuite, hkeys⟩ := ServerFlightDone.appKeys_eq_ok cfg happ
    refine .single (sendView_flight (by simp [Core.sendView, haccepted.state])
      (.inr ⟨app.cApKeys, app.cApTs, hkeys, ?_⟩))
    rw [← hsuite, ← hseq]
    rfl
  | rotatedRecv _ hstate hnext =>
    obtain ⟨_, _, _, rfl⟩ := AppData.applyRecvKeyUpdate_eq_ok cfg hnext
    exact .single (by simpa [Core.sendView, rotatedRecv, hstate] using .stay)
  | answerFailed _ hstate hseal => exact .single (sendView_sealed hstate hseal)
  | answered _ hstate hseal hnext =>
    obtain ⟨next, keys, hkeys, rfl⟩ := AppData.applySendKeyUpdate_eq_ok cfg hnext
    refine .tail (.single (sendView_sealed hstate hseal)) ?_
    obtain ⟨-, rfl, rfl⟩ := sealRecord_eq_ok c hseal
    exact @SendView.Step.rotate _ _ (AppData.sendHalf _) _ _ rfl hkeys
  | wrote _ hstate hseal | closing _ hstate hseal =>
    have hstep := sendView_sealed hstate hseal
    exact .single hstep
  | acked _ => rw [markSent_sendView]
  | serverHelloFailed | flightRejected | terminal => exact .single .stop
  | peerLimit | handshakeDone | closeNotify | rejected | postHandshake | sealFailed | closedEarly =>
    exact .single .stay

theorem Step.sendView_inv {call : Call cfg} (hinv : c.sendView.Inv cfg) (h : Step call c c') :
    c'.sendView.Inv cfg :=
  invariant_of_steps _ (fun _ _ hinv hstep => hinv.step hstep) h.sendView hinv

end Core

namespace Engine
variable {cfg : ClientConfig} {sz : Sizes}

/-- Nothing sealed yet: a new engine, or one that still waits for the rest of the server flight. -/
structure Fresh (e : Engine cfg sz) : Prop where
  history : e.core.history = {}
  not_app : ∀ conn, e.core.state ≠ .app conn

theorem fresh_sample (sz : Sizes) : (Sample.engine sz).Fresh :=
  ⟨rfl, by intro conn h; cases h⟩

theorem Fresh.sendView_inv {e : Engine cfg sz} (h : e.Fresh) : e.core.sendView.Inv cfg := by
  have hlog : e.core.sendView.log = [] := by simp [Core.sendView, h.history]
  have hpairs : e.core.sendView.pairs = [] := by simp [SendView.pairs, hlog]
  have hphase (half : SendHalf) : e.core.sendView.phase ≠ .sealing half := by
    cases hstate : e.core.state with
    | app conn => exact absurd hstate (h.not_app conn)
    | _ => simp [Core.sendView, hstate]
  refine ⟨hpairs ▸ numbered_nil _, fun _ => ⟨hlog, ?_⟩, fun half hhalf => absurd hhalf (hphase half),
    fun g _ => by simp [hpairs], .aes128GcmSha256, .zeros 32, .zeros 32, ?_,
    fun half hhalf => absurd hhalf (hphase half)⟩
  · simp [Core.sendView, h.history]
  · rw [hlog]
    exact List.forall_mem_nil _

/-- In every run, as long as no generation seals `2 ^ 64` records, no two records are sealed under
the same generation and sequence number; and there is a first application secret such that
generation `n` is sealed under its `n`-fold update. -/
theorem sealedPairs_nodup {e : Engine cfg sz} (hfresh : e.Fresh) (calls : List (Call cfg))
    (hcount : ∀ g, (numbers g (e.after calls).core.sealedPairs).length < 2 ^ 64) :
    (e.after calls).core.sealedPairs.Nodup ∧ ∃ suite handshake first,
      SealedUnder cfg suite handshake first (e.after calls).core.history.sealed := by
  have hinv := e.after_induct (fun _ _ _ => Core.Step.sendView_inv) calls hfresh.sendView_inv
  obtain ⟨suite, handshake, first, hsealed, -⟩ := hinv.keyed
  exact ⟨hinv.numbered.nodup fun g => Nat.le_of_lt (hcount g), suite, handshake, first, hsealed⟩

/-- A handshake, a write, and a requested key update with its answer and another write. -/
theorem sealedPairs_nodup_keyUpdate :
    let e := (Sample.engine Sample.sizes).after Sample.handshake
    let update := Sample.serverRecord e 0 (AppData.keyUpdateMsg true) ctHandshake
    let calls := Sample.handshake ++ [.writeApp [1], .markSent 23, .fill update,
      .advance update.length, .step, .markSent 27, .writeApp [2]]
    let log := ((Sample.engine Sample.sizes).after calls).core.sealedPairs
    log.Nodup ∧ log = [(.handshake, 0), (.application 0, 0), (.application 0, 1),
      (.application 1, 0)] := by
  intro e update calls log
  have hlog : log = [(.handshake, 0), (.application 0, 0), (.application 0, 1),
      (.application 1, 0)] := by decide +kernel
  refine ⟨(sealedPairs_nodup (fresh_sample _) calls fun g => ?_).1, hlog⟩
  calc (numbers g log).length
      ≤ log.length := numbers_length_le g log
    _ = 4 := congrArg List.length hlog
    _ < 2 ^ 64 := by decide

end Engine

end KrabiTls
