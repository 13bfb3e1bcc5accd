import KrabiTls.Engine.Framing
import KrabiTls.ServerHello.Grammar

/-! The checks in front of a handshake, and the `ServerHello` the receive buffer has to hold. -/
namespace KrabiTls
open Lib

inductive ConfigError where
  | hostnameTooLong
  | bufferTooSmall (needed got : Nat)
  deriving DecidableEq, Repr

def facadeHostnameMax : Nat := 255

/-- `client_auth_send_floor`: room for a client flight in records of the smallest legal limit. -/
def clientAuthSendFloor (maxFlight : Nat) : Nat :=
  if maxFlight = 0 then 0
  else
    let perRecord := minRecordSizeLimit - 1
    let records := (maxFlight + perRecord - 1) / perRecord
    maxFlight + records * (recordOverhead + 1)

/-- The parameters with the option that `connect` reads itself. -/
structure ConnectParams (cfg : ClientConfig) extends ClientParams cfg where
  middleboxCompat : Bool

variable {cfg : ClientConfig}

/-- `validate_construction`, for buffers of `sz.recv` and `sz.send` bytes. -/
def validateConstruction (params : ConnectParams cfg) (sz : Sizes) : Except ConfigError Unit := do
  ensure (params.hostname.length ≤ facadeHostnameMax) .hostnameTooLong
  ensure (cfg.features.minRecv ≤ sz.recv) (.bufferTooSmall cfg.features.minRecv sz.recv)
  ensure (minSendStandard ≤ sz.send) (.bufferTooSmall minSendStandard sz.send)
  if params.clientAuth.maxFlightLen > 0 then
    let needed := clientAuthSendFloor params.clientAuth.maxFlightLen
    ensure (needed ≤ sz.send) (.bufferTooSmall needed sz.send)
    ensure (params.clientAuth.maxFlightLen ≤ sz.recv)
      (.bufferTooSmall params.clientAuth.maxFlightLen sz.recv)

/-- The `legacy_session_id` that `connect` sends, if it has drawn `id`. -/
def ConnectParams.sessionId (params : ConnectParams cfg) (id : Block 32) : Option (Block 32) :=
  if params.middleboxCompat then some id else none

/-- The size of an accepted `ServerHello` is fixed by the session id and the group. -/
theorem parseServerHello_length {f : Features} {record : Bytes} {sh : ServerHelloView}
    (h : parseServerHello f record = .ok sh) :
    f.Offers sh.selectedGroup ∧
      record.length = 63 + sh.sessionIdEcho.length + f.serverShareLen sh.selectedGroup := by
  obtain ⟨m, hconforms, rfl, rfl⟩ := parseServerHello_eq_ok_iff.mp h
  refine ⟨hconforms.group, ?_⟩
  rw [m.record_length, hconforms.key]
  rfl

/-- A `ServerHello` that answers with a share of `group`. -/
def plainHello (sessionId : Bytes) (group : Nat) (key : Bytes) : ServerHelloMessage where
  random := ⟨List.replicate 32 7, List.length_replicate⟩
  sessionId
  suite := cipherAes128GcmSha256
  group
  key
  shareFirst := false

theorem plainHello_conforms {f : Features} {sessionId key : Bytes} {group : Nat}
    (hoffers : f.Offers group) (hkey : key.length = f.serverShareLen group)
    (hid : sessionId.length ≤ legacySessionIdLen) : (plainHello sessionId group key).Conforms f := by
  have hrandom : List.replicate 32 7 ≠ hrrRandom ∧ (List.replicate 32 7).drop 24 ≠ downgradeTls12 ∧
      (List.replicate 32 7).drop 24 ≠ downgradeTls11OrBelow := by
    decide
  exact ⟨hrandom.1, hrandom.2, hid, .inl rfl, hoffers, hkey⟩

namespace Features
variable (f : Features)

/-- The length of the longest share a server can answer with. -/
def longestShare : Nat :=
  max (f.serverShareLen f.keyShareGroup) (if f.secondGroup then p256ShareBytes else 0)

variable {f}

theorem keyShareGroup_ne (h : f.secondGroup = true) : namedGroupSecp256r1 ≠ f.keyShareGroup := by
  have hx25519 := (Bool.and_eq_true_iff.mp h).2
  unfold keyShareGroup
  rw [if_pos hx25519]
  split <;> decide

theorem serverShareLen_le {group : Nat} (h : f.Offers group) : f.serverShareLen group ≤ f.longestShare := by
  obtain rfl | ⟨hsecond, rfl⟩ := h
  · exact le_max_left _ _
  · rw [serverShareLen, if_neg (keyShareGroup_ne hsecond), longestShare, if_pos hsecond]
    exact le_max_right _ _

theorem exists_longestShare (f : Features) :
    ∃ group, f.Offers group ∧ f.serverShareLen group = f.longestShare := by
  by_cases hlonger : f.serverShareLen f.keyShareGroup < (if f.secondGroup then p256ShareBytes else 0)
  · have hsecond : f.secondGroup = true := by
      by_contra hno
      rw [if_neg hno] at hlonger
      cases hlonger
    refine ⟨namedGroupSecp256r1, .inr ⟨hsecond, rfl⟩, ?_⟩
    rw [longestShare, max_eq_right hlonger.le, if_pos hsecond, serverShareLen,
      if_neg (keyShareGroup_ne hsecond)]
  · exact ⟨f.keyShareGroup, .inl rfl, (max_eq_left (not_lt.mp hlonger)).symm⟩

end Features

/-- The longest `ServerHello` that can answer the client. -/
def ConnectParams.longestHello (params : ConnectParams cfg) : Nat :=
  63 + (if params.middleboxCompat then legacySessionIdLen else 0) + cfg.features.longestShare

/-- Every `ServerHello` that is accepted and echoes our session id has room in the receive buffer,
and is never too large for `frame_one_record` once its header is there. -/
def HelloFits (params : ConnectParams cfg) (sz : Sizes) : Prop :=
  ∀ (id : Block 32) (record : Bytes) (sh : ServerHelloView),
    parseServerHello cfg.features record = .ok sh →
    sh.sessionIdEcho = ((params.sessionId id).map Subtype.val).getD [] →
    record.length ≤ sz.recv ∧
      ∀ e : Engine cfg sz, e.recv.Ordered sz.recv → e.recv.plaintextParked = false →
        record.take tlsHeader <+: e.buffered → ∀ err e', e.frameOneRecord ≠ (.error err, e')

theorem ConnectParams.sessionId_length (params : ConnectParams cfg) (id : Block 32) :
    (((params.sessionId id).map Subtype.val).getD []).length =
      if params.middleboxCompat then legacySessionIdLen else 0 := by
  unfold sessionId
  split
  · exact id.property
  · rfl

/-- The header of a record that fits announces no more than the buffer holds. -/
theorem frame_helloRecord_ne_tooLarge {capacity got : Nat} {body input : Bytes}
    (hbound : 4 + body.length < 2 ^ 16) (hfits : 9 + body.length ≤ capacity)
    (hheader : (helloRecord hsServerHello body).take tlsHeader <+: input) :
    frame capacity input ≠ .tooLarge got := by
  obtain ⟨more, rfl⟩ := hheader
  have htake : (helloRecord hsServerHello body).take tlsHeader =
      [ctHandshake] ++ toBe 2 legacyVersion ++ toBe 2 (4 + body.length) := List.take_left' rfl
  have hfield : slice ([ctHandshake] ++ toBe 2 legacyVersion ++ toBe 2 (4 + body.length) ++ more) 3 5 =
      toBe 2 (4 + body.length) := by
    have hfront : ([ctHandshake] ++ toBe 2 legacyVersion).length = 3 := rfl
    rw [List.append_assoc, slice, List.drop_left' hfront]
    exact List.take_left' (toBe_length 2 _)
  have hlen : ofBe (toBe 2 (4 + body.length)) = 4 + body.length := by
    rw [ofBe_toBe]
    exact Nat.mod_eq_of_lt (by omega)
  rw [htake, frame, hfield, hlen]
  intro hframe
  split at hframe
  · cases hframe
  · rw [if_neg (by simp only [tlsHeader]; omega)] at hframe
    split at hframe <;> cases hframe

theorem helloFits_iff {params : ConnectParams cfg} {sz : Sizes} :
    HelloFits params sz ↔ params.longestHello ≤ sz.recv := by
  constructor
  · intro h
    obtain ⟨group, hoffers, hlongest⟩ := cfg.features.exists_longestShare
    let hello := plainHello (((params.sessionId (Block.zeros 32)).map Subtype.val).getD []) group
      (List.replicate cfg.features.longestShare 9)
    have hid : hello.sessionId.length = if params.middleboxCompat then legacySessionIdLen else 0 :=
      params.sessionId_length _
    have hkey : hello.key.length = cfg.features.longestShare := List.length_replicate
    have hconforms : hello.Conforms cfg.features :=
      plainHello_conforms hoffers (hkey.trans hlongest.symm)
        (by rw [params.sessionId_length]; split <;> decide)
    have hfits := (h _ _ _ (hello.parseServerHello_record hconforms) rfl).1
    rw [hello.record_length, hid, hkey] at hfits
    unfold ConnectParams.longestHello
    omega
  · intro h id record sh hparse hecho
    obtain ⟨hoffers, hlen⟩ := parseServerHello_length hparse
    have hshare := Features.serverShareLen_le hoffers
    rw [hecho, params.sessionId_length] at hlen
    have hfits : record.length ≤ sz.recv := by
      unfold ConnectParams.longestHello at h
      omega
    refine ⟨hfits, ?_⟩
    intro e hordered hparked hheader err e' hframe
    obtain ⟨got, hframe, -⟩ := Engine.frame_of_error hordered hparked hframe
    obtain ⟨body, rfl, hbound⟩ := parseServerHello_framed hparse
    rw [helloRecord_length] at hfits
    exact frame_helloRecord_ne_tooLarge hbound (by omega) hheader hframe

theorem validateConstruction_recv {params : ConnectParams cfg} {sz : Sizes}
    (h : validateConstruction params sz = .ok ()) : cfg.features.serverHelloRecordLen ≤ sz.recv := by
  simp only [validateConstruction, bind_eq_ok, ensure_eq_ok] at h
  obtain ⟨_, -, _, hrecv, -⟩ := h
  exact (le_max_left _ _).trans hrecv

theorem validateConstruction_send {params : ConnectParams cfg} {sz : Sizes}
    (h : validateConstruction params sz = .ok ()) : minSendStandard ≤ sz.send := by
  simp only [validateConstruction, bind_eq_ok, ensure_eq_ok] at h
  obtain ⟨_, -, _, -, _, hsend, -⟩ := h
  exact hsend

/-- Buffers that pass the checks hold every `ServerHello` unless we send a session id or offer a
group with a longer share, and the buffer is not large enough for that. -/
theorem validateConstruction_helloFits_iff {params : ConnectParams cfg} {sz : Sizes}
    (h : validateConstruction params sz = .ok ()) :
    HelloFits params sz ↔
      (params.middleboxCompat = true ∨
          63 + cfg.features.longestShare > cfg.features.serverHelloRecordLen →
        params.longestHello ≤ sz.recv) := by
  rw [helloFits_iff]
  constructor
  · exact fun hfits _ => hfits
  · intro hfits
    have hrecv := validateConstruction_recv h
    by_cases hdefault : params.middleboxCompat = true ∨
        63 + cfg.features.longestShare > cfg.features.serverHelloRecordLen
    · exact hfits hdefault
    · obtain ⟨hcompat, hshare⟩ := not_or.mp hdefault
      rw [ConnectParams.longestHello, if_neg hcompat]
      omega

namespace Sample

/-- The sample parameters in middlebox-compatibility mode. -/
def compatParams : ConnectParams .sample := { params with middleboxCompat := true }

def smallest : Sizes := ⟨512, 95, 58, 4⟩

def sessionId : Block 32 := ⟨List.replicate 32 1, rfl⟩

/-- A `ServerHello` that echoes the session id. -/
def echoHello : Bytes :=
  (plainHello sessionId.val namedGroupX25519 (List.replicate 32 9)).record

/-- The step of a client that has sent the session id and received `echoHello`, as far as its buffer
goes. -/
def echoed (sz : Sizes) : Except HandshakeError EngineEvent × Engine .sample sz :=
  let waiting : Engine .sample sz := .new (Block.zeros _) (Block.zeros _)
    (.waitServerHello { conn with sessionId := some sessionId }) (Engine.defaultOurRecvLimit sz.recv)
    .default
  (waiting.after [.fill echoHello, .advance (min sz.recv echoHello.length)]).stepHandshake
    compatParams.toClientParams

end Sample

theorem echoHello_tooLarge :
    validateConstruction Sample.compatParams Sample.smallest = .ok () ∧
      Sample.compatParams.sessionId Sample.sessionId = some Sample.sessionId ∧
      (parseServerHello Features.standard Sample.echoHello).toOption.map (·.sessionIdEcho) =
        some Sample.sessionId.val ∧
      (Sample.echoed Sample.smallest).1 = .error (.recordTooLarge 74 122) ∧
      (Sample.echoed { Sample.smallest with recv := 127 }).1 = .ok .recv := by
  refine ⟨by decide, rfl, by decide +kernel, by decide +kernel, by decide +kernel⟩

theorem helloFits_compat :
    HelloFits Sample.compatParams { Sample.smallest with recv := 127 } :=
  (validateConstruction_helloFits_iff (by decide)).mpr fun _ => by decide

end KrabiTls
