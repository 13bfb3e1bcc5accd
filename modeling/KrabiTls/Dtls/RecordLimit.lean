import KrabiTls.Dtls.Work

/-! The size of the protected records a client sends, against the limit of its peer. -/
namespace KrabiTls.Dtls
open Lib

variable {ε : Type} {cfg : DtlsConfig} {args : ConnectArgs cfg}
variable {messageSeq : Nat} {hk : HandshakeKeys} {limit : Option Nat}

/-- The longest inner plaintext a peer with this `record_size_limit` has to take. -/
def innerCap (limit : Option Nat) : Nat := min (limit.getD (2 ^ 14 + 1)) (2 ^ 14 + 1)

/-- The content fits with its type byte. -/
def WithinCap (limit : Option Nat) (content : Bytes) : Prop := content.length + 1 ≤ innerCap limit

/-- The datagram is a record that protects the content. -/
def Protects (cfg : DtlsConfig) (content datagram : Bytes) : Prop :=
  ∃ (k : EpochKeys) (hdr : SealHeader) (contentType : UInt8) (outLen : Nat),
    k.seal cfg.aead cfg.masker hdr content contentType outLen = .ok datagram

theorem writeHsMsg_length {outLen : Nat} {msgType : UInt8} {body msg : Bytes}
    (h : writeHsMsg (ε := ε) outLen msgType messageSeq body = .ok msg) :
    msg.length = hsHeaderLen + body.length := by
  simp only [writeHsMsg, HandshakeHeader.write, bind_eq_ok, mapError_eq_ok, ensure_eq_ok] at h
  obtain ⟨header, ⟨_, -, _, -, _, -, _, -, hheader⟩, _, -, h⟩ := h
  cases hheader
  cases h
  simp [hsHeaderLen]
  omega

theorem sealFinished_protects {cid : Option Bytes} {thServerFin : TranscriptDigest} {finRec : Bytes}
    (h : sealFinished (ε := ε) cfg hk cid messageSeq thServerFin = .ok finRec) :
    ∃ content, Protects cfg content finRec ∧ content.length = 44 := by
  simp only [sealFinished, bind_eq_ok, mapError_eq_ok, ensure_eq_ok] at h
  obtain ⟨mac, -, content, hcontent, _, hseal, _, -, h⟩ := h
  cases h
  refine ⟨content, ⟨_, _, _, _, hseal⟩, ?_⟩
  rw [writeHsMsg_length hcontent, mac.property]
  rfl

theorem ackBitmapLoop_length (epoch : Nat) (st : BitVec 128 × Nat × Bytes) :
    ((ackBitmapLoop epoch).run st).length = st.2.2.length := by
  refine Loop.run_induct (l := ackBitmapLoop epoch) (fun s => s.2.2.length = st.2.2.length)
    (fun out => out.length = st.2.2.length) ?_ ?_ st rfl
  · rintro ⟨bits, p, out⟩ s hlen h
    dsimp only [ackBitmapLoop] at h
    split at h
    · cases h
      rwa [overwrite_length]
    · cases h
  · rintro ⟨bits, p, out⟩ out' hlen h
    dsimp only [ackBitmapLoop] at h
    split at h
    · cases h
    · cases h
      exact hlen

theorem sealAck_protects {cid : Option Bytes} {acked : BitVec 128} {ackRec : Bytes}
    (h : sealAck (ε := ε) cfg hk cid acked = .ok ackRec) :
    ∃ content, Protects cfg content ackRec ∧ content.length = 2 + 16 * countOnes acked := by
  simp only [sealAck, writeAckBitmap, bind_eq_ok, mapError_eq_ok, ensure_eq_ok] at h
  obtain ⟨⟨ackLen, ackBody⟩, ⟨_, hfits, hwritten⟩, hseal⟩ := h
  cases hwritten
  refine ⟨_, ⟨_, _, _, _, hseal⟩, ?_⟩
  rw [List.length_take, ackBitmapLoop_length, overwrite_length, Nat.min_eq_left hfits, recordNumberLen]
  omega

/-- The contents of the protected records of a handshake that acknowledges `count` records: nothing,
the `Finished`, or the `Finished` and the acknowledgement. -/
inductive HandshakeContents (count : Nat) : List Bytes → Prop
  | none : HandshakeContents count []
  | finished {fin : Bytes} (hfin : fin.length = 44) : HandshakeContents count [fin]
  | acked {fin ack : Bytes} (hfin : fin.length = 44) (hack : ack.length = 2 + 16 * count) :
      HandshakeContents count [fin, ack]

theorem finishConnect_protects {sh : ServerHelloRead} {epoch2 : Epoch2}
    {thServerFin : TranscriptDigest} :
    Within (ε := ε) (finishConnect cfg hk sh messageSeq epoch2 limit thServerFin) 2 0
      (fun sent => ∃ contents, List.Forall₂ (Protects cfg) contents sent ∧
        HandshakeContents (countOnes epoch2.acked) contents)
      (Established.Fresh · limit) := by
  refine finishConnect_within ⟨[], .nil, .none⟩ ?_ ?_
  · intro finRec hfin
    obtain ⟨fin, hprotects, hlen⟩ := sealFinished_protects hfin
    exact ⟨[fin], .cons hprotects .nil, .finished hlen⟩
  · intro finRec ackRec hfin hack
    obtain ⟨fin, hprotects, hlen⟩ := sealFinished_protects hfin
    obtain ⟨ack, hprotects', hlen'⟩ := sealAck_protects hack
    exact ⟨[fin, ack], .cons hprotects (.cons hprotects' .nil), .acked hlen hlen'⟩

/-- A `Finished` fits every limit that is accepted, an acknowledgement only if it is short enough. -/
theorem HandshakeContents.withinCap_iff {count : Nat} {contents : List Bytes}
    (h : HandshakeContents count contents) (hlimit : ∀ l ∈ limit, 64 ≤ l) :
    (∀ content ∈ contents, WithinCap limit content) ↔
      (contents.length = 2 → 16 * count + 3 ≤ innerCap limit) := by
  have hcap : 64 ≤ innerCap limit := by
    cases limit with
    | none => decide
    | some l =>
      have hl := hlimit l rfl
      simp only [innerCap, Option.getD_some]
      omega
  cases h with
  | none => simp
  | finished hfin =>
    simp only [List.forall_mem_singleton, WithinCap, hfin, List.length_singleton]
    omega
  | @acked fin ack hfin hack =>
    unfold WithinCap
    constructor
    · intro h _
      have hfits := h ack (by simp)
      omega
    · intro h content hmem
      have hfits := h rfl
      obtain rfl | rfl : content = fin ∨ content = ack := by simpa using hmem
      · omega
      · omega

/-- The payloads a run of `send` calls protects are those that pass the size checks. -/
theorem DtlsClient.mem_history_iff {a : AeadBackend} {m : Masker} (htotal : a.Total) (c : DtlsClient)
    (calls : List (SendCall ε)) (payload : Bytes) :
    payload ∈ (c.history a m calls).map (·.payload) ↔
      ∃ call ∈ calls, c.Fits call ∧ call.payload = payload := by
  induction calls generalizing c with
  | nil => simp [history]
  | cons call rest ih =>
    by_cases hfits : c.Fits call
    · rw [history_cons_of_fits htotal hfits, List.map_cons, List.mem_cons, ih]
      have hsame : ∀ call' : SendCall ε,
          (if call.answer.toBool then c.bumpSeq else c).Fits call' ↔ c.Fits call' := by
        intro call'
        split
        · exact fits_bumpSeq c call'
        · rfl
      simp only [hsame, List.exists_mem_cons_iff, hfits, true_and, sealedPayload,
        eq_comm (a := payload)]
    · rw [history_cons_of_not_fits htotal hfits, ih]
      simp [hfits]

/-- The contents of the application records that the client sends after the handshake. -/
def applicationContents (cfg : DtlsConfig) (calls : List (SendCall ε)) :
    Except (DtlsClientError ε) Established → List Bytes
  | .ok client => (client.toDtlsClient.history cfg.aead cfg.masker calls).map (·.payload)
  | .error _ => []

theorem withinCap_of_fits_iff {c : DtlsClient} {call : SendCall ε} (h : c.Fits call) :
    WithinCap c.peerRecordLimit call.payload ↔ call.payload.length ≤ 2 ^ 14 := by
  obtain ⟨hlimit, -⟩ := h
  unfold WithinCap innerCap
  cases hl : c.peerRecordLimit with
  | none =>
    simp only [Option.getD_none]
    omega
  | some l =>
    simp only [hl, Option.any_some, decide_eq_false_iff_not] at hlimit
    simp only [Option.getD_some]
    omega

theorem applicationContents_withinCap_iff (htotal : cfg.aead.Total)
    {r : Except (DtlsClientError ε) Established}
    (hr : ∀ client, r = .ok client → client.Fresh limit) (calls : List (SendCall ε)) :
    (∀ content ∈ applicationContents cfg calls r, WithinCap limit content) ↔
      ∀ client, r = .ok client → ∀ call ∈ calls, client.Fits call → call.payload.length ≤ 2 ^ 14 := by
  cases r with
  | error e => simp [applicationContents]
  | ok client =>
    have hlimit := (hr client rfl).limit_eq
    simp only [applicationContents, DtlsClient.mem_history_iff htotal]
    constructor
    · rintro h _ ⟨⟩ call hcall hfits
      exact (withinCap_of_fits_iff hfits).mp (hlimit ▸ h _ ⟨call, hcall, hfits, rfl⟩)
    · rintro h _ ⟨call, hcall, hfits, rfl⟩
      exact hlimit ▸ (withinCap_of_fits_iff hfits).mpr (h client rfl call hcall hfits)

theorem FirstLimit.le {block : List Entry × Bytes} {x : Option Nat} (h : FirstLimit block x) :
    ∀ l ∈ x, 64 ≤ l := by
  unfold FirstLimit at h
  rintro l rfl
  split at h
  · cases h.2
  · obtain ⟨-, hle, hl⟩ := h
    cases hl
    exact hle

theorem FirstLimit.unique {block : List Entry × Bytes} {x y : Option Nat} (hx : FirstLimit block x)
    (hy : FirstLimit block y) : x = y := by
  unfold FirstLimit at hx hy
  cases hfind : block.1.find? (·.tag = extRecordSizeLimit) with
  | none =>
    rw [hfind] at hx hy
    exact hx.2.trans hy.2.symm
  | some e =>
    rw [hfind] at hx hy
    exact hx.2.2.trans hy.2.2.symm

theorem authenticated_firstLimit {t t₁ : DatagramTransport ε} {v : Authenticated cfg}
    (hv : (authenticated args).exec t = some (.ok v, t₁)) :
    FirstLimit (eeEntries (eeBody v.trusted.flight)) v.trusted.peerRecordLimit := by
  obtain ⟨_, _, _, _, _, _, htrusted⟩ := (authenticated_within args).spends _ _ _ hv
  exact ((parseEeRecordSizeLimit_eq_ok _ _).mp (trustFlight_checked (htrusted v rfl)).limit).2

/-- After the server's flight is authenticated, every protected record of a connection fits the limit
in its `EncryptedExtensions` if and only if the acknowledgement, should it be sent, is short enough
for the number of records it lists, and no payload that passes the checks of `send` is longer than
`2 ^ 14`. -/
theorem connect_withinCap_iff (htotal : cfg.aead.Total) {t t₁ t' : DatagramTransport ε}
    {v : Authenticated cfg} {r : Except (DtlsClientError ε) Established}
    (hv : (authenticated args).exec t = some (.ok v, t₁))
    (h : (connect args).exec t = some (r, t')) (calls : List (SendCall ε)) :
    ∃ limit contents datagrams, FirstLimit (eeEntries (eeBody v.trusted.flight)) limit ∧
      t'.sent = t₁.sent ++ datagrams ∧ List.Forall₂ (Protects cfg) contents datagrams ∧
      ((∀ content ∈ contents ++ applicationContents cfg calls r, WithinCap limit content) ↔
        (contents.length = 2 → 16 * countOnes v.epoch2.acked + 3 ≤ innerCap limit) ∧
        ∀ client, r = .ok client → ∀ call ∈ calls, client.Fits call →
          call.payload.length ≤ 2 ^ 14) := by
  have hfirst := authenticated_firstLimit hv
  rw [connect_eq, Program.exec_bind, hv] at h
  obtain ⟨datagrams, _, hspends, _, _, ⟨contents, hprotects, hcontents⟩, hfresh⟩ :=
    finishConnect_protects.spends _ _ _ h
  refine ⟨_, contents, datagrams, hfirst, hspends.sent, hprotects, ?_⟩
  rw [List.forall_mem_append, hcontents.withinCap_iff hfirst.le,
    applicationContents_withinCap_iff htotal hfresh]

namespace Sample

/-- The body of an `EncryptedExtensions` that asks for a limit of 64. -/
def limit64 : Bytes := [0, 6, 0, 28, 0, 2, 0, 64]

/-- The server's flight comes in four records, the first of which asks for the limit. -/
def limited : DatagramTransport Unit :=
  answering [sampleHelloDatagram, flightAfter limit64 helloTranscript]

def fourAcked : Bytes :=
  toBe 2 64 ++ (List.range 4).flatMap fun seq => toBe 8 2 ++ toBe 8 seq

def fourAckedRecord : Option Bytes := do
  let hk ← handshakeKeys? helloTranscript
  (hk.client.seal dtlsConfig.aead dtlsConfig.masker ⟨2, 1, .two, none⟩ fourAcked ctAck 2085).toOption

theorem fourAckedRecord_protects {datagram : Bytes} (h : fourAckedRecord = some datagram) :
    Protects dtlsConfig fourAcked datagram := by
  simp only [fourAckedRecord, Option.bind_eq_bind, Option.bind_eq_some_iff] at h
  obtain ⟨hk, -, hseal⟩ := h
  exact ⟨hk.client, ⟨2, 1, .two, none⟩, ctAck, 2085, toOption_eq_some.mp hseal⟩

end Sample

theorem connect_exceeds_cap :
    FirstLimit (eeEntries Sample.limit64) (some 64) ∧
    ∃ client t' datagram, (connect Sample.connectArgs).exec Sample.limited = some (.ok client, t') ∧
      client.peerRecordLimit = some 64 ∧ t'.sent.getLast? = some datagram ∧
      Protects Sample.dtlsConfig Sample.fourAcked datagram ∧
      ¬ WithinCap (some 64) Sample.fourAcked := by
  have hfirst := ((parseEeRecordSizeLimit_eq_ok Sample.limit64 (some 64)).mp (by decide +kernel)).2
  have hrun : ((connect Sample.connectArgs).exec Sample.limited).any (fun out =>
      (out.1.toOption.any fun client => client.peerRecordLimit = some 64) &&
        Sample.fourAckedRecord.any fun datagram => out.2.sent.getLast? = some datagram) = true := by
    decide +kernel
  obtain ⟨⟨r, t'⟩, hexec, hboth⟩ := (Option.any_eq_true _ _).mp hrun
  obtain ⟨hreturned, hsent⟩ := Bool.and_eq_true_iff.mp hboth
  obtain ⟨client, hclient, hlimit⟩ := (Option.any_eq_true _ _).mp hreturned
  obtain ⟨datagram, hrecord, hlast⟩ := (Option.any_eq_true _ _).mp hsent
  obtain rfl := toOption_eq_some.mp hclient
  exact ⟨hfirst, client, t', datagram, hexec, of_decide_eq_true hlimit, of_decide_eq_true hlast,
    Sample.fourAckedRecord_protects hrecord, by unfold WithinCap; decide⟩

theorem connect_withinCap_sample :
    ∃ (client : Established) (t₁ t' : DatagramTransport Unit) (contents datagrams : List Bytes),
      (connect Sample.connectArgs).exec
        (Sample.answering [sampleHelloDatagram, Sample.flightDatagram]) = some (.ok client, t') ∧
      t'.sent = t₁.sent ++ datagrams ∧ List.Forall₂ (Protects Sample.dtlsConfig) contents datagrams ∧
      ∀ content ∈ contents ++ applicationContents (ε := Unit) Sample.dtlsConfig [⟨[1, 2], 64, .ok ()⟩]
        (.ok client), WithinCap none content := by
  obtain ⟨client, t', hexec, hnone⟩ := Sample.answering_returns
  have hsplit := hexec
  rw [connect_eq, Program.exec_bind_eq_ok] at hsplit
  obtain ⟨v, t₁, hv, hfinish⟩ := hsplit
  obtain ⟨_, _, _, _, _, _, hfresh⟩ := finishConnect_protects.spends _ _ _ hfinish
  obtain ⟨limit, contents, datagrams, hfirst, hsent, hprotects, hiff⟩ := connect_withinCap_iff
    AeadBackend.clear_total hv hexec [⟨[1, 2], 64, .ok ()⟩]
  obtain rfl : limit = none :=
    hfirst.unique (hnone ▸ (hfresh client rfl).limit_eq ▸ authenticated_firstLimit hv)
  refine ⟨client, t₁, t', contents, datagrams, hexec, hsent, hprotects, hiff.mpr ⟨fun _ => ?_, ?_⟩⟩
  · have hcount := countOnes_le v.epoch2.acked
    have hcap : innerCap none = 16385 := rfl
    omega
  · rintro _ _ call hcall _
    obtain rfl := List.mem_singleton.mp hcall
    decide

end KrabiTls.Dtls
