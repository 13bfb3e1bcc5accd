import KrabiTls.Dtls.Client
import KrabiTls.Dtls.Framing
import KrabiTls.Lib.Entries
import KrabiTls.Lib.Layout
import KrabiTls.Lib.Loop
import KrabiTls.ServerHello

/-! The `ServerHello` and `HelloRetryRequest` of the plaintext flights. -/
namespace KrabiTls.Dtls
open Lib

def extCookie : Nat := 44
def extConnectionId : Nat := 54

inductive ParseError where
  | malformed
  | unexpectedGroup
  | missingCookie
  | missingKeyShare
  deriving DecidableEq, Repr

inductive ServerHelloKind where
  | retry (selectedSuite : Nat) (cookie : Bytes)
  | hello (selectedSuite : Nat) (serverKeyShare : Block 32) (serverCid : Option Bytes)
  deriving DecidableEq, Repr

/-- `b.get(start..stop)`. -/
def getRange (b : Bytes) (start stop : Nat) : Except ParseError Bytes :=
  if stop ≤ b.length then .ok (slice b start stop) else .error .malformed

def readU16 (b : Bytes) (i : Nat) : Except ParseError Nat :=
  (getRange b i (i + 2)).map ofBe

def readU8 (b : Bytes) (i : Nat) : Except ParseError Nat :=
  (getRange b i (i + 1)).map ofBe

/-- The extensions of interest seen so far. -/
structure HelloExtensions where
  cookie : Option Bytes := none
  keyShare : Option (Block 32) := none
  serverCid : Option Bytes := none

/-- The `match` on the type of an extension: a later one replaces an earlier one. -/
def HelloExtensions.add (x : HelloExtensions) (extType : Nat) (data : Bytes) :
    Except ParseError HelloExtensions :=
  if extType = extCookie then do
    let clen ← readU16 data 0
    let cookie ← getRange data 2 (2 + clen)
    pure { x with cookie := some cookie }
  else if extType = extConnectionId then do
    let clen ← readU8 data 0
    let cid ← getRange data 1 (1 + clen)
    pure { x with serverCid := some cid }
  else if extType = extKeyShare then do
    let group ← readU16 data 0
    ensure (group = namedGroupX25519) .unexpectedGroup
    let klen ← readU16 data 2
    let key ← getRange data 4 (4 + klen)
    if h : key.length = 32 then pure { x with keyShare := some ⟨key, h⟩ }
    else .error .unexpectedGroup
  else pure x

/-- One extension at offset `i`. Its data need not end before the extension block does. -/
def extensionAt (body : Bytes) (i : Nat) (x : HelloExtensions) :
    Except ParseError (Nat × HelloExtensions) := do
  let extType ← readU16 body i
  let extLen ← readU16 body (i + 2)
  let data ← getRange body (i + 4) (i + 4 + extLen)
  let x ← x.add extType data
  pure (i + 4 + extLen, x)

theorem extensionAt_le {body : Bytes} {i j : Nat} {x y : HelloExtensions}
    (h : extensionAt body i x = .ok (j, y)) : i + 4 ≤ j := by
  simp only [extensionAt, bind_eq_ok] at h
  obtain ⟨_, _, extLen, _, _, _, _, _, h⟩ := h
  cases h
  omega

def helloExtensionLoop (body : Bytes) (extEnd : Nat) :
    Loop (Except ParseError HelloExtensions) (Nat × HelloExtensions) where
  body s :=
    if s.1 + 4 ≤ extEnd then
      match extensionAt body s.1 s.2 with
      | .error e => .leave (.error e)
      | .ok s => .again s
    else .leave (.ok s.2)
  variant s := extEnd - s.1
  decreases s t h := by
    split at h
    · split at h
      · cases h
      · rename_i hext
        cases h
        have := extensionAt_le hext
        omega
    · cases h

/-- `parse_server_hello`: of the fixed fields only the random and the suite are looked at. -/
def parseServerHello (body : Bytes) : Except ParseError ServerHelloKind := do
  let random ← getRange body 2 34
  let sidLen ← readU8 body 34
  let selectedSuite ← readU16 body (35 + sidLen)
  let extLen ← readU16 body (38 + sidLen)
  let extEnd := 40 + sidLen + extLen
  ensure (extEnd ≤ body.length) .malformed
  let x ← (helloExtensionLoop body extEnd).run (40 + sidLen, {})
  if random = hrrRandom then
    match x.cookie with
    | none => .error .missingCookie
    | some cookie => pure (.retry selectedSuite cookie)
  else
    match x.keyShare with
    | none => .error .missingKeyShare
    | some share => pure (.hello selectedSuite share x.serverCid)

/-- `parse_hello_body`: the body, its `message_seq`, and how many bytes follow the record. -/
def parseHelloBody {ε : Type} (datagram : Bytes) :
    Except (DtlsClientError ε) (Bytes × Nat × Nat) := do
  let (rec, consumed) ← (PlaintextRecord.parse datagram).mapError fun _ => .protocol
  ensure (rec.contentType = ctHandshake) .protocol
  let hh ← (HandshakeHeader.parse rec.fragment).mapError fun _ => .protocol
  let body ← (getRange rec.fragment hsHeaderLen (hsHeaderLen + hh.fragmentLength)).mapError
    fun _ => .protocol
  pure (body, hh.messageSeq, datagram.length - consumed)

theorem getRange_eq_ok {b data : Bytes} {start stop : Nat} :
    getRange b start stop = .ok data ↔ stop ≤ b.length ∧ slice b start stop = data := by
  unfold getRange
  split <;> simp_all

theorem parseHelloBody_eq_ok {ε : Type} {dg body : Bytes} {seq trailing : Nat}
    (h : parseHelloBody (ε := ε) dg = .ok (body, seq, trailing)) :
    dg.headD 0 = ctHandshake ∧ 25 + body.length ≤ 13 + ofBe (slice dg 11 13) ∧
      13 + ofBe (slice dg 11 13) ≤ dg.length ∧
      body = slice dg 25 (25 + ofBe (slice dg 22 25)) ∧ body.length = ofBe (slice dg 22 25) ∧
      seq = ofBe (slice dg 17 19) ∧ trailing = dg.length - (13 + ofBe (slice dg 11 13)) := by
  simp only [parseHelloBody, bind_eq_ok, mapError_eq_ok, ensure_eq_ok, hsHeaderLen] at h
  obtain ⟨⟨rec, stop⟩, hrec, _, htype, hh, hhdr, body', hbody, h⟩ := h
  obtain ⟨hstop, hle, rfl⟩ := PlaintextRecord.parse_eq_ok.mp hrec
  obtain ⟨hlen, rfl⟩ := HandshakeHeader.parse_eq_ok.mp hhdr
  obtain ⟨hfits, rfl⟩ := getRange_eq_ok.mp hbody
  cases h
  have hfrag : (slice dg 13 stop).length = stop - 13 := slice_length_of_le hle
  dsimp only at hlen hfits htype
  rw [hfrag] at hlen hfits
  have hfl : slice (slice dg 13 stop) 9 12 = slice dg 22 25 := slice_slice (by omega)
  have hms : slice (slice dg 13 stop) 4 6 = slice dg 17 19 := slice_slice (by omega)
  rw [hfl] at hfits
  rw [hfl, hms]
  have hbody : slice (slice dg 13 stop) 12 (12 + ofBe (slice dg 22 25)) =
      slice dg 25 (25 + ofBe (slice dg 22 25)) := by
    rw [slice_slice (by omega)]
    congr 1
    omega
  rw [hbody, slice_length_of_le (by omega)]
  subst hstop
  exact ⟨htype, by omega, hle, rfl, by omega, rfl, rfl⟩

/-- Both parsers accept: the datagram carries a hello of this body. -/
def AcceptsHello (datagram body : Bytes) : Prop :=
  (∃ seq trailing, parseHelloBody (ε := Unit) datagram = .ok (body, seq, trailing)) ∧
    ∃ kind, parseServerHello body = .ok kind

/-- An unfragmented `ServerHello`, alone in a record of epoch 0, as the protocol has it written. -/
structure StrictHello where
  recordVersion : Block 2
  recordSeq : Block 6
  messageSeq : Block 2
  random : Block 32
  suite : Block 2
  extensions : List Entry
  fits : 52 + (extensions.flatMap Entry.encode).length < 2 ^ 16
  nodup : (extensions.map Entry.tag).Nodup
  version : ∃ e ∈ extensions, e.tag = extSupportedVersions ∧ e.data = toBe 2 dtls13Version

namespace StrictHello

def block (msg : StrictHello) : Bytes := msg.extensions.flatMap Entry.encode

def bodyFields (msg : StrictHello) : List Bytes :=
  [toBe 2 dtls12LegacyVersion, msg.random.val, [0], msg.suite.val, [0], toBe 2 msg.block.length,
    msg.block]

def body (msg : StrictHello) : Bytes := msg.bodyFields.flatten

def fields (msg : StrictHello) : List Bytes :=
  [[ctHandshake], msg.recordVersion.val, toBe 2 0, msg.recordSeq.val, toBe 2 (12 + msg.body.length),
    [hsServerHello], toBe 3 msg.body.length, msg.messageSeq.val, toBe 3 0,
    toBe 3 msg.body.length] ++ msg.bodyFields

def encode (msg : StrictHello) : Bytes := msg.fields.flatten

theorem body_length (msg : StrictHello) : msg.body.length = 40 + msg.block.length := by
  simp [body, bodyFields, msg.random.property, msg.suite.property]
  omega

/-- The widths of the fields in front of an extension block of `n` bytes. -/
def widths (n : Nat) : List Nat := [1, 2, 2, 6, 2, 1, 3, 2, 3, 3, 2, 32, 1, 2, 1, 2, n]

theorem fields_widths (msg : StrictHello) :
    msg.fields.map List.length = widths msg.block.length := by
  simp [fields, bodyFields, widths, msg.recordVersion.property, msg.recordSeq.property,
    msg.messageSeq.property, msg.random.property, msg.suite.property]

end StrictHello

/-- The datagram starts with a strictly written `ServerHello` of the given body. -/
def StartsStrict (datagram body : Bytes) : Prop :=
  ∃ (msg : StrictHello) (rest : Bytes), datagram = msg.encode ++ rest ∧ body = msg.body

/-- What the two parsers would still have to check, on the bytes of the datagram. -/
structure ChecksPass (dg : Bytes) : Prop where
  epoch : slice dg 3 5 = toBe 2 0
  msgType : slice dg 13 14 = [hsServerHello]
  offset : slice dg 19 22 = toBe 3 0
  whole : slice dg 14 17 = slice dg 22 25
  alone : ofBe (slice dg 11 13) = 12 + ofBe (slice dg 22 25)
  legacyVersion : slice dg 25 27 = toBe 2 dtls12LegacyVersion
  sessionId : slice dg 59 60 = [0]
  compression : slice dg 62 63 = [0]
  blockEnd : ofBe (slice dg 22 25) = 40 + ofBe (slice dg 63 65)
  entries : (Entry.split (slice dg 65 (65 + ofBe (slice dg 63 65)))).2 = []
  nodup : ((Entry.split (slice dg 65 (65 + ofBe (slice dg 63 65)))).1.map Entry.tag).Nodup
  version : ∃ e ∈ (Entry.split (slice dg 65 (65 + ofBe (slice dg 63 65)))).1,
    e.tag = extSupportedVersions ∧ e.data = toBe 2 dtls13Version

theorem StartsStrict.checksPass {dg body : Bytes} (h : StartsStrict dg body) : ChecksPass dg := by
  obtain ⟨msg, rest, hdg, rfl⟩ := h
  have hfits : 52 + msg.block.length < 2 ^ 16 := msg.fits
  have hlen := msg.body_length
  have hfields : fieldsAt dg 0 (StrictHello.widths msg.block.length) = msg.fields := by
    rw [hdg, ← msg.fields_widths]
    exact fieldsAt_flatten msg.fields rest
  simp only [StrictHello.widths, StrictHello.fields, StrictHello.bodyFields, fieldsAt,
    List.cons_append, List.nil_append, List.cons.injEq, and_true, Nat.reduceAdd] at hfields
  obtain ⟨-, -, hepoch, -, hrec, htype, hlength, -, hoffset, hfrag, hversion, -, hsid, -, hcomp,
    hext, hblock⟩ := hfields
  have hrec' : ofBe (slice dg 11 13) = 12 + msg.body.length := by
    rw [hrec, ofBe_toBe]
    exact Nat.mod_eq_of_lt (by omega)
  have hfrag' : ofBe (slice dg 22 25) = msg.body.length := by
    rw [hfrag, ofBe_toBe]
    exact Nat.mod_eq_of_lt (by omega)
  have hext' : ofBe (slice dg 63 65) = msg.block.length := by
    rw [hext, ofBe_toBe]
    exact Nat.mod_eq_of_lt (by omega)
  have hsplit : Entry.split (slice dg 65 (65 + ofBe (slice dg 63 65))) = (msg.extensions, []) := by
    have hend : Entry.next [] = none := Entry.next_eq_none_of_short (by decide)
    rw [hext', hblock, ← Entry.split_encode msg.extensions hend, List.append_nil, StrictHello.block]
  exact {
    epoch := hepoch
    msgType := htype
    offset := hoffset
    whole := hlength.trans hfrag.symm
    alone := by rw [hrec', hfrag']
    legacyVersion := hversion
    sessionId := hsid
    compression := hcomp
    blockEnd := by rw [hfrag', hext', hlen]
    entries := by rw [hsplit]
    nodup := by rw [hsplit]; exact msg.nodup
    version := by rw [hsplit]; exact msg.version }

theorem ChecksPass.startsStrict {dg body : Bytes} (h : ChecksPass dg)
    (haccepts : AcceptsHello dg body) : StartsStrict dg body := by
  obtain ⟨⟨seq, trailing, hhello⟩, -⟩ := haccepts
  obtain ⟨htype, -, hrecord, hbody, hlen, -, -⟩ := parseHelloBody_eq_ok hhello
  have halone := h.alone
  have hend := h.blockEnd
  have hlt : ofBe (slice dg 11 13) < 256 ^ 2 := ofBe_lt_of_length_le (by simp)
  have hjoin := Entry.split_join (slice dg 65 (65 + ofBe (slice dg 63 65)))
  rw [h.entries, List.append_nil] at hjoin
  have hblock : (slice dg 65 (65 + ofBe (slice dg 63 65))).length = ofBe (slice dg 63 65) := by
    rw [slice_length_of_le (by omega), Nat.add_sub_cancel_left]
  have hwidth {start stop : Nat} (hle : stop ≤ 65) : (slice dg start stop).length = stop - start :=
    slice_length_of_le (by omega)
  let msg : StrictHello := {
    recordVersion := ⟨slice dg 1 3, hwidth (by decide)⟩
    recordSeq := ⟨slice dg 5 11, hwidth (by decide)⟩
    messageSeq := ⟨slice dg 17 19, hwidth (by decide)⟩
    random := ⟨slice dg 27 59, hwidth (by decide)⟩
    suite := ⟨slice dg 60 62, hwidth (by decide)⟩
    extensions := (Entry.split (slice dg 65 (65 + ofBe (slice dg 63 65)))).1
    fits := by rw [hjoin, hblock]; omega
    nodup := h.nodup
    version := h.version }
  have hmsg : msg.block = slice dg 65 (65 + ofBe (slice dg 63 65)) := hjoin
  have hmsgLen : msg.body.length = ofBe (slice dg 22 25) := by
    rw [msg.body_length, hmsg, hblock, hend]
  have hbodyFields : msg.bodyFields =
      fieldsAt dg 25 [2, 32, 1, 2, 1, 2, ofBe (slice dg 63 65)] := by
    have hext : toBe 2 (ofBe (slice dg 63 65)) = slice dg 63 65 :=
      toBe_ofBe_of_length (hwidth (by decide))
    rw [StrictHello.bodyFields, hmsg, hblock, hext]
    simp only [fieldsAt, Nat.reduceAdd, h.legacyVersion, h.sessionId, h.compression, msg]
  have hfields : msg.fields = fieldsAt dg 0 (StrictHello.widths (ofBe (slice dg 63 65))) := by
    have hrec : toBe 2 (12 + ofBe (slice dg 22 25)) = slice dg 11 13 := by
      rw [← halone]
      exact toBe_ofBe_of_length (hwidth (by decide))
    have hfrag : toBe 3 (ofBe (slice dg 22 25)) = slice dg 22 25 :=
      toBe_ofBe_of_length (hwidth (by decide))
    have hhead : slice dg 0 1 = [ctHandshake] := by
      cases dg with
      | nil => simp at hrecord
      | cons b rest => simpa [slice] using htype
    rw [StrictHello.fields, hbodyFields, hmsgLen, hrec, hfrag]
    simp only [StrictHello.widths, fieldsAt, Nat.reduceAdd, List.cons_append, List.nil_append, hhead,
      h.epoch, h.msgType, h.offset, h.whole, msg]
  refine ⟨msg, dg.drop (StrictHello.widths (ofBe (slice dg 63 65))).sum, ?_, ?_⟩
  · rw [StrictHello.encode, hfields, flatten_fieldsAt_append_drop]
  · rw [StrictHello.body, hbodyFields, flatten_fieldsAt, hbody, hend]
    have hsum (n : Nat) : [2, 32, 1, 2, 1, 2, n].sum = 40 + n := by
      simp only [List.sum_cons, List.sum_nil]
      omega
    rw [hsum]

/-- An accepted datagram is strictly written exactly when it passes the checks that are not made. -/
theorem startsStrict_iff {dg body : Bytes} (haccepts : AcceptsHello dg body) :
    StartsStrict dg body ↔ ChecksPass dg :=
  ⟨StartsStrict.checksPass, fun h => h.startsStrict haccepts⟩

/-- A `ServerHello` of 86 bytes with `supported_versions` and a key share. -/
def sampleHello : Bytes :=
  toBe 2 dtls12LegacyVersion ++ List.replicate 32 7 ++ [0] ++ toBe 2 cipherAes128GcmSha256 ++ [0] ++
    toBe 2 46 ++ (toBe 2 extSupportedVersions ++ toBe 2 2 ++ toBe 2 dtls13Version) ++
    (toBe 2 extKeyShare ++ toBe 2 36 ++ toBe 2 namedGroupX25519 ++ toBe 2 32 ++ List.replicate 32 9)

def sampleHelloDatagram : Bytes :=
  [ctHandshake] ++ toBe 2 dtls12LegacyVersion ++ toBe 2 0 ++ toBe 6 0 ++ toBe 2 98 ++
    [hsServerHello] ++ toBe 3 86 ++ toBe 2 0 ++ toBe 3 0 ++ toBe 3 86 ++ sampleHello

/-- In epoch 5 and with the message type of a `Certificate`, the fragment at offset 1 of a message of
length 0: no version, a session id, compression 7, two key shares, and stray bytes behind the last
extension, behind the extension block and behind the message. -/
def laxHello : Bytes :=
  toBe 2 0 ++ List.replicate 32 7 ++ [1, 1] ++ toBe 2 cipherAes128GcmSha256 ++ [7] ++ toBe 2 83 ++
    (List.replicate 2
      (toBe 2 extKeyShare ++ toBe 2 36 ++ toBe 2 namedGroupX25519 ++ toBe 2 32 ++
        List.replicate 32 9)).flatten ++ [1, 2, 3] ++ [4]

def laxHelloDatagram : Bytes :=
  [ctHandshake] ++ toBe 2 0 ++ toBe 2 5 ++ toBe 6 0 ++ toBe 2 138 ++
    [hsCertificate] ++ toBe 3 0 ++ toBe 2 0 ++ toBe 3 1 ++ toBe 3 125 ++ laxHello ++ [5]

theorem acceptsHello_lax : AcceptsHello laxHelloDatagram laxHello ∧
    ¬ StartsStrict laxHelloDatagram laxHello := by
  refine ⟨⟨⟨0, 0, by decide +kernel⟩, .hello cipherAes128GcmSha256 ⟨List.replicate 32 9, rfl⟩ none,
    by decide +kernel⟩, fun hstrict => ?_⟩
  exact absurd hstrict.checksPass.epoch (by decide +kernel)

theorem startsStrict_sampleHello : StartsStrict sampleHelloDatagram sampleHello := by
  have haccepts : AcceptsHello sampleHelloDatagram sampleHello :=
    ⟨⟨0, 0, by decide +kernel⟩, .hello cipherAes128GcmSha256 ⟨List.replicate 32 9, rfl⟩ none,
      by decide +kernel⟩
  refine (startsStrict_iff haccepts).mpr ?_
  constructor <;> decide +kernel

end KrabiTls.Dtls
