import KrabiTls.Dtls.Recv

/-! What `recv` delivers of the records a server seals. -/
namespace KrabiTls.Dtls
open Lib

/-- An epoch-3 record as a server seals it, with a two-byte sequence field. The content type ends the
padding of the inner plaintext, so it is not zero. -/
structure ServerRecord (a : AeadBackend) (m : Masker) (k : EpochKeys) (cid : Option Bytes) where
  seq : Nat
  contentType : UInt8
  content : Bytes
  wire : Bytes
  seq_lt : seq < 2 ^ 64
  type_ne_zero : contentType ≠ 0
  sealed : ∃ outLen, k.seal a m ⟨3, seq, .two, cid⟩ content contentType outLen = .ok wire
  deriving DecidableEq

variable {a : AeadBackend} {m : Masker} {k : EpochKeys} {cid : Option Bytes}

namespace ServerRecord

def wires (rs : List (ServerRecord a m k cid)) : Bytes := rs.flatMap wire

@[simp] theorem wires_nil : wires ([] : List (ServerRecord a m k cid)) = [] := rfl

@[simp] theorem wires_cons (r : ServerRecord a m k cid) (rs : List (ServerRecord a m k cid)) :
    wires (r :: rs) = r.wire ++ wires rs := rfl

theorem wire_eq_cons (r : ServerRecord a m k cid) :
    ∃ tail, r.wire = (⟨3, r.seq, .two, cid⟩ : SealHeader).firstByte :: tail := by
  obtain ⟨outLen, hseal⟩ := r.sealed
  obtain ⟨_, ciphertext, tag, sample, _, _, hwire⟩ := EpochKeys.seal_eq_ok hseal
  exact ⟨_, hwire⟩

theorem content_length_lt (r : ServerRecord a m k cid) : r.content.length < r.wire.length := by
  obtain ⟨outLen, hseal⟩ := r.sealed
  obtain ⟨_, ciphertext, tag, sample, hcipher, _, hwire⟩ := EpochKeys.seal_eq_ok hseal
  have hlen := (RecordKeys.sealInPlace_length hcipher).1
  rw [hwire]
  simp only [List.length_append, List.length_cons, List.length_nil] at hlen ⊢
  omega

theorem wires_eq_nil_iff {rs : List (ServerRecord a m k cid)} : wires rs = [] ↔ rs = [] := by
  cases rs with
  | nil => simp
  | cons r rs =>
    have hlen := r.content_length_lt
    have hne : r.wire ≠ [] := List.length_pos_iff.mp (by omega)
    simp [hne]

theorem content_length_le_wires {rs : List (ServerRecord a m k cid)} {r : ServerRecord a m k cid}
    (h : r ∈ rs) : r.content.length ≤ (wires rs).length := by
  have hwire : r.wire.length ≤ (wires rs).length :=
    (List.sublist_flatten_of_mem (List.mem_map_of_mem h)).length_le
  have := r.content_length_lt
  omega

end ServerRecord

namespace DtlsReceiver
open ServerRecord

variable {c : DtlsReceiver}

/-- The client holds the keys of the records and has negotiated their connection id. -/
structure Reads (c : DtlsReceiver) (k : EpochKeys) (cid : Option Bytes) : Prop where
  serverApp : c.serverApp = k
  cidLen : (cid.map List.length).getD 0 = c.recvCidLen
  cid_some : cid.isSome ↔ c.recvCidLen > 0
  hint_lt : c.recvHint < 2 ^ 64

theorem Reads.acceptSeq (h : c.Reads k cid) (seq : Nat) : (c.acceptSeq seq).Reads k cid where
  serverApp := h.serverApp
  cidLen := h.cidLen
  cid_some := h.cid_some
  hint_lt := max_lt h.hint_lt (Nat.mod_lt _ (by decide))

theorem Reads.withStash (h : c.Reads k cid) (stash : Bytes) : (c.withStash stash).Reads k cid :=
  ⟨h.serverApp, h.cidLen, h.cid_some, h.hint_lt⟩

/-- The walk, record by record: the next application payload with the records behind it. -/
def nextPayload (c : DtlsReceiver) :
    List (ServerRecord a m k cid) → Option (Bytes × List (ServerRecord a m k cid)) × DtlsReceiver
  | [] => (none, c)
  | r :: rs =>
      if reconstructSeq (r.seq % 2 ^ 16) 16 c.recvHint ≠ r.seq then (none, c)
      else if ¬ c.serverReplay.accepts r.seq then c.nextPayload rs
      else if r.contentType = ctApplicationData then (some (r.content, rs), c.acceptSeq r.seq)
      else (c.acceptSeq r.seq).nextPayload rs

theorem walkLoop_run (hcorrect : a.Correct) (hbound : a.NonceBound)
    (rs : List (ServerRecord a m k cid)) (hsize : ∀ r ∈ rs, r.content.length ≤ tlsPlaintextMax)
    (hc : c.Reads k cid) (atHead : Bool) :
    (walkLoop a m).run (atHead, wires rs, c) =
      match c.nextPayload rs with
      | (none, c') => (.ended, c')
      | (some (content, rest), c') => (.delivered content (wires rest), c') := by
  induction rs generalizing c atHead with
  | nil => exact Loop.run_of_leave rfl
  | cons r rs ih =>
    obtain ⟨hr, hrs⟩ := List.forall_mem_cons.mp hsize
    obtain ⟨outLen, hseal⟩ := r.sealed
    obtain ⟨tail, hwire⟩ := r.wire_eq_cons
    obtain ⟨hfixed, _, _, _, hepoch⟩ := (⟨3, r.seq, .two, cid⟩ : SealHeader).firstByte_flags
    have hbytes : wires (r :: rs) =
        (⟨3, r.seq, .two, cid⟩ : SealHeader).firstByte :: (tail ++ wires rs) := by
      rw [wires_cons, hwire]
      rfl
    have hcipher : isCiphertextRecord (⟨3, r.seq, .two, cid⟩ : SealHeader).firstByte = true :=
      decide_eq_true hfixed
    have hepoch3 : ¬ (atHead = true ∧
        (⟨3, r.seq, .two, cid⟩ : SealHeader).firstByte &&& 0b11 = 0b10) := by
      rintro ⟨_, h⟩
      have hbits : UInt8.ofNat 3 &&& hdrEpochLow2 = 0b10 := hepoch.symm.trans h
      exact absurd hbits (by decide)
    have hpass := walkLoop_body a m hbytes hcipher hepoch3 c
    rw [hc.serverApp] at hpass
    unfold nextPayload
    by_cases hseq : reconstructSeq (r.seq % 2 ^ 16) 16 c.recvHint = r.seq
    · have hopen := EpochKeys.openRecord_seal hcorrect hseal r.type_ne_zero hr hc.cidLen hc.cid_some
        hseq (wires rs)
      have hlen : r.wire.length ≠ 0 := by
        have := r.content_length_lt
        omega
      have hdrop : (wires (r :: rs)).drop r.wire.length = wires rs := List.drop_left' rfl
      simp only [wires_cons, hopen] at hpass hdrop
      rw [if_neg hlen, hdrop] at hpass
      rw [if_neg (not_not_intro hseq)]
      by_cases haccepted : c.serverReplay.accepts r.seq = true
      · rw [if_neg (not_not_intro haccepted)] at hpass ⊢
        by_cases happ : r.contentType = ctApplicationData
        · rw [if_pos happ] at hpass ⊢
          exact Loop.run_of_leave hpass
        · rw [if_neg happ] at hpass ⊢
          rw [← ih hrs (hc.acceptSeq r.seq) false]
          exact Loop.run_of_again hpass
      · rw [if_pos haccepted] at hpass ⊢
        rw [← ih hrs hc false]
        exact Loop.run_of_again hpass
    · have hopen := EpochKeys.openRecord_seal_error hbound hseal hc.cidLen hc.cid_some hc.hint_lt
        r.seq_lt hseq (wires rs)
      simp only [wires_cons, hopen] at hpass
      rw [if_pos hseq]
      exact Loop.run_of_leave hpass

/-- The walk keeps the stash, the keys and the connection id. -/
theorem nextPayload_reads {c' : DtlsReceiver} (hc : c.Reads k cid)
    {rs : List (ServerRecord a m k cid)} {found : Option (Bytes × List (ServerRecord a m k cid))}
    (h : c.nextPayload rs = (found, c')) : c'.Reads k cid ∧ c'.recvStash = c.recvStash := by
  fun_induction nextPayload c rs with
  | case1 c => cases h; exact ⟨hc, rfl⟩
  | case2 c r rs => cases h; exact ⟨hc, rfl⟩
  | case3 c r rs _ _ ih => exact ih hc h
  | case4 c r rs => cases h; exact ⟨hc.acceptSeq r.seq, rfl⟩
  | case5 c r rs _ _ _ ih => exact ih (hc.acceptSeq r.seq) h

theorem nextPayload_suffix {c' : DtlsReceiver} {rs rest : List (ServerRecord a m k cid)}
    {content : Bytes} (h : c.nextPayload rs = (some (content, rest), c')) : rest <:+ rs := by
  fun_induction nextPayload c rs with
  | case1 c => cases h
  | case2 c r rs => cases h
  | case3 c r rs _ _ ih => exact (ih h).trans (List.suffix_cons _ _)
  | case4 c r rs => cases h; exact List.suffix_cons _ _
  | case5 c r rs _ _ _ ih => exact (ih h).trans (List.suffix_cons _ _)

end DtlsReceiver

/-- The records of one datagram. -/
abbrev Coalesced (a : AeadBackend) (m : Masker) (k : EpochKeys) (cid : Option Bytes) :=
  { rs : List (ServerRecord a m k cid) // (ServerRecord.wires rs).length ≤ maxDatagram }

def Coalesced.datagram (d : Coalesced a m k cid) : Datagram := ⟨ServerRecord.wires d.val, d.property⟩

theorem Coalesced.content_length_le (d : Coalesced a m k cid) :
    ∀ r ∈ d.val, r.content.length ≤ tlsPlaintextMax := by
  intro r hr
  have hlen := ServerRecord.content_length_le_wires hr
  have hmax := d.property
  simp only [maxDatagram, tlsPlaintextMax] at hmax ⊢
  omega

theorem Coalesced.wires_suffix {d : Coalesced a m k cid} {rest : List (ServerRecord a m k cid)}
    (h : rest <:+ d.val) : (ServerRecord.wires rest).length ≤ maxDatagram := by
  obtain ⟨front, hfront⟩ := h
  have hmax := d.property
  rw [← hfront, ServerRecord.wires, List.flatMap_append, List.length_append] at hmax
  exact (Nat.le_add_left _ _).trans hmax

namespace DtlsLink
open ServerRecord
variable {ε : Type}
variable {d : Coalesced a m k cid}

/-- What the transport is going to answer: a datagram or a timeout. -/
def replies (inputs : List (Option (Coalesced a m k cid))) : List (Except ε (Option Datagram)) :=
  inputs.map fun input => .ok (input.map Coalesced.datagram)

/-- The datagrams ahead of the client; the first of them may be in the stash. -/
def Feeds (s : DtlsLink ε) (inputs : List (Option (Coalesced a m k cid))) : Prop :=
  s.client.recvStash = [] ∧ s.transport.recvs = replies inputs ∨
    ∃ d later, inputs = some d :: later ∧ s.client.recvStash = wires d.val ∧
      s.client.recvStash ≠ [] ∧ s.transport.recvs = replies later

variable {s : DtlsLink ε} {later : List (Option (Coalesced a m k cid))}

theorem recv_waits (hstash : s.client.recvStash = []) (hrecvs : s.transport.recvs = [])
    (bufLen : Nat) : (recv a m bufLen).exec s = none := by
  have hnext : s.nextInput = none := by
    simp [nextInput, hstash, DatagramTransport.recv, hrecvs]
  rw [recv, Program.exec_loop]
  simp [recvBody, recvPass, hnext]

theorem recv_timeout (h : s.Feeds (none :: later)) (bufLen : Nat) :
    ∃ s', (recv a m bufLen).exec s = some (.ok none, s') ∧ s'.client = s.client ∧ s'.Feeds later := by
  obtain ⟨hstash, hrecvs⟩ | ⟨d, later, ⟨⟩, _⟩ := h
  refine ⟨{ s with transport := { s.transport with recvs := replies later } }, ?_, rfl,
    .inl ⟨hstash, rfl⟩⟩
  have hnext : s.nextInput =
      some (.ok none, { s with transport := { s.transport with recvs := replies later } }) := by
    simp [nextInput, hstash, DatagramTransport.recv, hrecvs, replies, Except.map]
  rw [recv, Program.exec_loop]
  simp [recvBody, recvPass, hnext]

/-- A call walks the datagram in front, and goes on to the next if it has no payload. -/
theorem recv_walk (hcorrect : a.Correct) (hbound : a.NonceBound) {c : DtlsReceiver}
    {t : DatagramTransport ε} (hnext : s.nextInput = some (.ok (some (wires d.val)), ⟨c, t⟩))
    (hc : c.Reads k cid) (bufLen : Nat) :
    (recv a m bufLen).exec s = match c.nextPayload d.val with
      | (none, c) => (recv a m bufLen).exec ⟨c, t⟩
      | (some (content, rest), c) =>
          if content.length > bufLen then some (.error .bufferTooSmall, ⟨c, t⟩)
          else some (.ok (some content), ⟨c.withStash (wires rest), t⟩) := by
  have hwalk := DtlsReceiver.walkLoop_run hcorrect hbound d.val d.content_length_le hc true
  rw [recv, Program.exec_loop]
  simp only [recvBody, recvPass, Program.exec_ofFun, hnext, DtlsReceiver.walk, hwalk]
  rcases c.nextPayload d.val with ⟨_ | ⟨content, rest⟩, c⟩
  · rfl
  · by_cases hfits : content.length > bufLen
    · simp only [if_pos hfits]
    · simp only [if_neg hfits]

theorem nextInput_of_recvs {rest : List (Except ε (Option Datagram))}
    (hstash : s.client.recvStash = []) (hrecvs : s.transport.recvs = .ok (some d.datagram) :: rest) :
    s.nextInput = some (.ok (some (wires d.val)), ⟨s.client.withStash [],
      { s.transport with recvs := rest }⟩) := by
  have hclient : s.client.withStash [] = s.client := by
    rw [← hstash]
    rfl
  rw [hclient]
  simp [nextInput, hstash, DatagramTransport.recv, hrecvs, Except.map, Coalesced.datagram]

theorem recv_datagram (hcorrect : a.Correct) (hbound : a.NonceBound) (h : s.Feeds (some d :: later))
    (hc : s.client.Reads k cid) (bufLen : Nat) :
    ∃ t, t.recvs = replies later ∧
      (recv a m bufLen).exec s = match (s.client.withStash []).nextPayload d.val with
        | (none, c) => (recv a m bufLen).exec ⟨c, t⟩
        | (some (content, rest), c) =>
            if content.length > bufLen then some (.error .bufferTooSmall, ⟨c, t⟩)
            else some (.ok (some content), ⟨c.withStash (wires rest), t⟩) := by
  obtain ⟨hstash, hrecvs⟩ | ⟨d', later', heq, hstash, hne, hrecvs⟩ := h
  · exact ⟨_, rfl, recv_walk hcorrect hbound (nextInput_of_recvs hstash hrecvs) (hc.withStash []) bufLen⟩
  · cases heq
    have hnext : s.nextInput = some (.ok (some (wires d.val)), ⟨s.client.withStash [], s.transport⟩) := by
      simp [nextInput, hne, ← hstash]
    exact ⟨s.transport, hrecvs, recv_walk hcorrect hbound hnext (hc.withStash []) bufLen⟩

end DtlsLink

namespace DtlsReceiver

/-- The application payloads of a datagram that are still to be delivered. -/
def newPayloads (c : DtlsReceiver) : List (ServerRecord a m k cid) → List Bytes
  | [] => []
  | r :: rs =>
      if reconstructSeq (r.seq % 2 ^ 16) 16 c.recvHint ≠ r.seq then []
      else if ¬ c.serverReplay.accepts r.seq then c.newPayloads rs
      else if r.contentType = ctApplicationData then r.content :: (c.acceptSeq r.seq).newPayloads rs
      else (c.acceptSeq r.seq).newPayloads rs

theorem newPayloads_eq (c : DtlsReceiver) (rs : List (ServerRecord a m k cid)) :
    c.newPayloads rs = match c.nextPayload rs with
      | (none, _) => []
      | (some (content, rest), c') => content :: c'.newPayloads rest := by
  fun_induction nextPayload c rs with
  | case1 c => rfl
  | case2 c r rs hseq => rw [newPayloads, if_pos hseq]
  | case3 c r rs hseq hrefused ih => rw [newPayloads, if_neg hseq, if_pos hrefused, ih]
  | case4 c r rs hseq haccepted happ =>
    rw [newPayloads, if_neg hseq, if_neg haccepted, if_pos happ]
  | case5 c r rs hseq haccepted hother ih =>
    rw [newPayloads, if_neg hseq, if_neg haccepted, if_neg hother, ih]

end DtlsReceiver

namespace DtlsLink
variable {ε : Type}

/-- After a call that failed on datagram `d` for want of room, calls with enough room return all the
payloads of the datagram, whatever else the transport does. -/
def LosesNothing (ε : Type) (c : DtlsReceiver) (d : Coalesced a m k cid) (bufLen : Nat) : Prop :=
  ∀ t : DatagramTransport ε, t.recvs.head? = some (.ok (some d.datagram)) →
    ∀ s, (recv a m bufLen).exec ⟨c, t⟩ = some (.error .bufferTooSmall, s) →
      ∀ room, (∀ r ∈ d.val, r.content.length ≤ room) →
        ∃ s', s.recvAll a m (List.replicate (c.newPayloads d.val).length room) =
          some ((c.newPayloads d.val).map fun payload => .ok (some payload), s')

/-- The failed call has marked the record and dropped the datagram, so nothing is lost only if the
call does not fail: if the next payload fits. -/
theorem losesNothing_iff (hcorrect : a.Correct) (hbound : a.NonceBound) {c : DtlsReceiver}
    (hc : c.Reads k cid) (hstash : c.recvStash = []) (d : Coalesced a m k cid) (bufLen : Nat) :
    LosesNothing ε c d bufLen ↔ ∀ payload ∈ (c.newPayloads d.val).head?, payload.length ≤ bufLen := by
  have hself : c.withStash [] = c := by
    rw [← hstash]
    rfl
  -- the call, and what it finds, whatever is behind the datagram
  have hcall (t : DatagramTransport ε) {rest : List (Except ε (Option Datagram))}
      (ht : t.recvs = .ok (some d.datagram) :: rest) :
      (recv a m bufLen).exec ⟨c, t⟩ = match c.nextPayload d.val with
        | (none, c) => (recv a m bufLen).exec ⟨c, { t with recvs := rest }⟩
        | (some (content, more), c) =>
            if content.length > bufLen then
              some (.error .bufferTooSmall, ⟨c, { t with recvs := rest }⟩)
            else some (.ok (some content),
              ⟨c.withStash (ServerRecord.wires more), { t with recvs := rest }⟩) := by
    have hnext : (⟨c, t⟩ : DtlsLink ε).nextInput =
        some (.ok (some (ServerRecord.wires d.val)), ⟨c, { t with recvs := rest }⟩) := by
      rw [nextInput_of_recvs hstash ht, hself]
    exact recv_walk hcorrect hbound hnext hc bufLen
  have hnew := c.newPayloads_eq d.val
  rcases hnext : c.nextPayload d.val with ⟨_ | ⟨content, rest⟩, c'⟩
  · simp only [hnext] at hnew
    rw [hnew]
    simp only [List.head?_nil, Option.mem_def, reduceCtorEq, false_implies, implies_true, iff_true]
    intro t _ s _ room _
    rw [hnew]
    exact ⟨s, rfl⟩
  · simp only [hnext] at hnew hcall
    rw [hnew]
    simp only [List.head?_cons, Option.mem_def, Option.some.injEq, forall_eq']
    constructor
    · intro hnothing
      by_contra hlong
      rw [Nat.not_le] at hlong
      have hexec := hcall { recvs := [.ok (some d.datagram)] } rfl
      rw [if_pos hlong] at hexec
      obtain ⟨s', hall⟩ := hnothing _ rfl _ hexec maxDatagram fun r hr =>
        (ServerRecord.content_length_le_wires hr).trans d.property
      have hstash' := (DtlsReceiver.nextPayload_reads hc hnext).2.trans hstash
      have hwaits : (recv a m maxDatagram).exec (⟨c', { recvs := [] }⟩ : DtlsLink ε) = none :=
        recv_waits hstash' rfl maxDatagram
      rw [hnew, List.length_cons, List.replicate_succ, recvAll, hwaits] at hall
      cases hall
    · intro hfits t ht s hexec room _
      cases hrecvs : t.recvs with
      | nil =>
        rw [hrecvs] at ht
        cases ht
      | cons reply later =>
        rw [hrecvs] at ht
        cases ht
        rw [hcall t hrecvs, if_neg (Nat.not_lt.mpr hfits)] at hexec
        cases hexec

end DtlsLink

namespace Sample

/-- A client fresh from the handshake, with all-zero keys and no connection id. -/
def receiver : DtlsReceiver where
  serverApp := DtlsClient.sample.clientApp
  recvHint := 0
  serverReplay := .new
  finFlight := []
  finResendsLeft := 5
  recvCidLen := 0
  recvStash := []

abbrev Record := ServerRecord AeadBackend.clear DtlsClient.sampleMasker receiver.serverApp none

def record (seq : Nat) (contentType : UInt8) (content : Bytes) (hseq : seq < 2 ^ 64)
    (htype : contentType ≠ 0) (hlen : content.length ≤ 64) : Record where
  seq := seq
  contentType := contentType
  content := content
  wire := (receiver.serverApp.seal AeadBackend.clear DtlsClient.sampleMasker ⟨3, seq, .two, none⟩
    content contentType 128).toOption.getD []
  seq_lt := hseq
  type_ne_zero := htype
  sealed := by
    have hheader : (⟨3, seq, .two, none⟩ : SealHeader).headerLen = 5 := rfl
    obtain ⟨wire, hwire⟩ := (EpochKeys.seal_isOk_iff AeadBackend.clear_total DtlsClient.sampleMasker
      receiver.serverApp (by rw [hheader]; decide) content contentType 128).mpr
        ⟨by omega, by rw [hheader]; omega⟩
    exact ⟨128, by rw [hwire]; rfl⟩

def first : Record := record 0 ctApplicationData [1, 2] (by decide) (by decide) (by decide)
def second : Record := record 1 ctApplicationData [3] (by decide) (by decide) (by decide)
def ticket : Record := record 2 ctHandshake [4, 0, 0, 0] (by decide) (by decide) (by decide)

abbrev Input := Coalesced AeadBackend.clear DtlsClient.sampleMasker receiver.serverApp none

def firstTwo : Input := ⟨[first, second], by decide +kernel⟩
def lastTwo : Input := ⟨[ticket, second], by decide +kernel⟩

def link (inputs : List (Option Input)) : DtlsLink Unit where
  client := receiver
  transport := { recvs := DtlsLink.replies inputs }

theorem receiver_reads : receiver.Reads receiver.serverApp none :=
  ⟨rfl, rfl, by decide, by decide⟩

end Sample

/-- Two payloads in one datagram, and a buffer too short for the first: neither is returned. -/
theorem DtlsLink.recv_loses_datagram :
    ¬ LosesNothing Unit Sample.receiver Sample.firstTwo 1 := by
  intro hnothing
  obtain ⟨⟨result, s⟩, hexec, hcheck⟩ :=
    (Option.any_eq_true
      (fun (result, s) => decide (result = .error .bufferTooSmall) && decide
        ((s.recvAll AeadBackend.clear DtlsClient.sampleMasker [64, 64]).map Prod.fst =
          some [.ok none, .ok none]))
      ((DtlsLink.recv AeadBackend.clear DtlsClient.sampleMasker 1).exec
        (Sample.link [some Sample.firstTwo, none, none]))).mp (by decide +kernel)
  simp only [Bool.and_eq_true, decide_eq_true_eq] at hcheck
  obtain ⟨rfl, hretry⟩ := hcheck
  obtain ⟨s', hall⟩ := hnothing _ rfl s hexec 64 (by decide +kernel)
  have hnew : Sample.receiver.newPayloads Sample.firstTwo.val = [[1, 2], [3]] := by decide +kernel
  rw [hnew] at hall
  simp only [List.length_cons, List.length_nil, List.replicate_succ, List.replicate_zero] at hall
  rw [hall] at hretry
  cases hretry

theorem DtlsLink.losesNothing_of_room : LosesNothing Unit Sample.receiver Sample.firstTwo 2 :=
  (losesNothing_iff AeadBackend.clear_correct AeadBackend.clear_nonceBound Sample.receiver_reads rfl
    Sample.firstTwo 2).mpr (by decide +kernel)

end KrabiTls.Dtls
