import KrabiTls.Traits

/-! The TLS 1.3 and DTLS 1.3 key schedule on top of the HKDF backend. -/
namespace KrabiTls
open Lib

def ascii (s : String) : Bytes :=
  s.toList.map fun c => UInt8.ofNat c.toNat

inductive HkdfLabelError where
  | outputTooLong
  | labelTooLong
  | contextTooLong
  | encodedTooLong
  | expand (e : HkdfExpandError)
  | backend (e : HkdfBackendError)
  deriving DecidableEq, Repr

def hkdfLabelMax : Nat := 64

namespace HkdfSha256
variable (h : HkdfSha256)

def hkdfExpandLabelPrefixed (labelPrefix : Bytes) (secret : Secret) (label context : Bytes)
    (len : Nat) : Except HkdfLabelError (Block len) :=
  if len > 0xFFFF then .error .outputTooLong
  else if labelPrefix.length + label.length > 0xFF then .error .labelTooLong
  else if context.length > 0xFF then .error .contextTooLong
  else
    let info := toBe 2 len ++ toBe 1 (labelPrefix.length + label.length) ++ labelPrefix ++ label ++
      toBe 1 context.length ++ context
    if info.length > hkdfLabelMax then .error .encodedTooLong
    else (h.expand secret info len).mapError .expand

def hkdfExpandLabel := h.hkdfExpandLabelPrefixed (ascii "tls13 ")

def dtlsExpandLabel := h.hkdfExpandLabelPrefixed (ascii "dtls13")

def deriveSecret (secret : Secret) (label : String) (transcriptHash : TranscriptDigest) :
    Except HkdfLabelError Secret :=
  h.hkdfExpandLabel secret (ascii label) transcriptHash.val 32

def emptyTranscriptHash : TranscriptDigest :=
  ⟨[0xe3, 0xb0, 0xc4, 0x42, 0x98, 0xfc, 0x1c, 0x14, 0x9a, 0xfb, 0xf4, 0xc8, 0x99, 0x6f, 0xb9, 0x24,
    0x27, 0xae, 0x41, 0xe4, 0x64, 0x9b, 0x93, 0x4c, 0xa4, 0x95, 0x99, 0x1b, 0x78, 0x52, 0xb8, 0x55],
    rfl⟩

def earlySecret : Except HkdfLabelError Secret :=
  (h.extract (Block.zeros 32).val (Block.zeros 32).val).mapError .backend

def handshakeSecret (dhe : Bytes) : Except HkdfLabelError Secret := do
  let salt ← h.deriveSecret (← h.earlySecret) "derived" emptyTranscriptHash
  (h.extract salt.val dhe).mapError .backend

def handshakeTrafficSecrets (hs : Secret) (transcriptHashChSh : TranscriptDigest) :
    Except HkdfLabelError (Secret × Secret) := do
  let client ← h.deriveSecret hs "c hs traffic" transcriptHashChSh
  let server ← h.deriveSecret hs "s hs traffic" transcriptHashChSh
  pure (client, server)

def trafficKeys (n : Nat) (trafficSecret : Secret) : Except HkdfLabelError (Block n × AeadIv) := do
  let key ← h.hkdfExpandLabel trafficSecret (ascii "key") [] n
  let iv ← h.hkdfExpandLabel trafficSecret (ascii "iv") [] 12
  pure (key, iv)

def masterSecret (handshakeSecret : Secret) : Except HkdfLabelError Secret := do
  let salt ← h.deriveSecret handshakeSecret "derived" emptyTranscriptHash
  (h.extract salt.val (Block.zeros 32).val).mapError .backend

def applicationTrafficSecrets (masterSecret : Secret)
    (transcriptHashThroughServerFinished : TranscriptDigest) :
    Except HkdfLabelError (Secret × Secret) := do
  let client ← h.deriveSecret masterSecret "c ap traffic" transcriptHashThroughServerFinished
  let server ← h.deriveSecret masterSecret "s ap traffic" transcriptHashThroughServerFinished
  pure (client, server)

def nextApplicationTrafficSecret (secret : Secret) : Except HkdfLabelError Secret :=
  h.hkdfExpandLabel secret (ascii "traffic upd") [] 32

/-- HMAC-SHA256 under the `finished` key; `HKDF-Extract` is HMAC. -/
def finishedMac (trafficSecret : Secret) (transcriptHash : TranscriptDigest) :
    Except HkdfLabelError (Block 32) := do
  let finishedKey ← h.hkdfExpandLabel trafficSecret (ascii "finished") [] 32
  (h.extract finishedKey.val transcriptHash.val).mapError .backend

theorem hkdfExpandLabel_total {h : HkdfSha256} (htotal : h.Total) (secret : Secret) (label : Bytes)
    (len : Nat) (hlabel : label.length ≤ 32) (hlen : len ≤ 32) :
    ∃ okm, h.hkdfExpandLabel secret label [] len = .ok okm := by
  have hascii : (ascii "tls13 ").length = 6 := by decide
  unfold hkdfExpandLabel hkdfExpandLabelPrefixed
  rw [if_neg (by omega), if_neg (by rw [hascii]; omega), if_neg (by simp)]
  dsimp only
  rw [if_neg (by
    simp only [List.length_append, toBe_length, hascii, List.length_nil, hkdfLabelMax]; omega)]
  obtain ⟨okm, hok⟩ := htotal secret (toBe 2 len ++ toBe 1 ((ascii "tls13 ").length + label.length) ++
    ascii "tls13 " ++ label ++ toBe 1 ([] : Bytes).length ++ []) len (by omega)
  exact ⟨okm, by rw [hok]; rfl⟩

end HkdfSha256

inductive TranscriptError where
  | recordTooShort
  | backend (e : HkdfBackendError)
  deriving DecidableEq, Repr

/-- The running transcript, kept as the bytes fed to the hasher. -/
structure TranscriptHash where
  fed : Bytes
  deriving DecidableEq, Repr

namespace TranscriptHash

def new : TranscriptHash := ⟨[]⟩

def update (t : TranscriptHash) (msg : Bytes) : TranscriptHash :=
  ⟨t.fed ++ msg⟩

def updateRecord (t : TranscriptHash) (record : Bytes) : Except TranscriptError TranscriptHash :=
  if record.length < 5 then .error .recordTooShort
  else
    let stop := 5 + ofBe (slice record 3 5)
    if record.length < stop then .error .recordTooShort
    else .ok (t.update (slice record 5 stop))

def snapshot (t : TranscriptHash) (h : HkdfSha256) : Except TranscriptError TranscriptDigest :=
  (h.hash t.fed).mapError .backend

end TranscriptHash

end KrabiTls
