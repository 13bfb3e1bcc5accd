import KrabiTls.ClientHello.Grammar
import KrabiTls.Dtls.ClientHello
import KrabiTls.Lib.Vec

/-! The grammar of the DTLS `ClientHello`, a reference reader for it, and that the writer's output is
read back. -/
namespace KrabiTls.Dtls
open Lib

inductive HelloExtension where
  | supportedVersions (versions : List Nat)
  | supportedGroups (groups : List Nat)
  | recordSizeLimit (limit : Nat)
  | signatureAlgorithms (schemes : List Nat)
  | keyShare (shares : List (Nat × Bytes))
  | connectionId (cid : Bytes)
  | cookie (value : Bytes)
  deriving DecidableEq

namespace HelloExtension

def encode : HelloExtension → Nat × Bytes
  | supportedVersions versions => (extSupportedVersions, prefixed 1 (codePoints versions))
  | supportedGroups groups => (extSupportedGroups, prefixed 2 (codePoints groups))
  | recordSizeLimit limit => (extRecordSizeLimit, toBe 2 limit)
  | signatureAlgorithms schemes => (extSignatureAlgorithms, prefixed 2 (codePoints schemes))
  | keyShare shares => (extKeyShare, prefixed 2 (shares.flatMap tagged))
  | connectionId cid => (extConnectionId, prefixed 1 cid)
  | cookie value => (extCookie, prefixed 2 value)

def encodeAll (es : List HelloExtension) : Bytes := (es.map encode).flatMap tagged

theorem encodeAll_append (es es' : List HelloExtension) :
    encodeAll (es ++ es') = encodeAll es ++ encodeAll es' := by
  rw [encodeAll, List.map_append, List.flatMap_append]
  rfl

theorem encodeAll_singleton (e : HelloExtension) : encodeAll [e] = tagged e.encode :=
  List.append_nil _

def read (e : Nat × Bytes) : Option HelloExtension :=
  if e.1 = extSupportedVersions then
    supportedVersions <$> (whole (takePrefixed 1) e.2 >>= readMany (takeUint 2))
  else if e.1 = extSupportedGroups then
    supportedGroups <$> (whole (takePrefixed 2) e.2 >>= readMany (takeUint 2))
  else if e.1 = extRecordSizeLimit then recordSizeLimit <$> whole (takeUint 2) e.2
  else if e.1 = extSignatureAlgorithms then
    signatureAlgorithms <$> (whole (takePrefixed 2) e.2 >>= readMany (takeUint 2))
  else if e.1 = extKeyShare then
    keyShare <$> (whole (takePrefixed 2) e.2 >>= readMany takeTagged)
  else if e.1 = extConnectionId then connectionId <$> whole (takePrefixed 1) e.2
  else if e.1 = extCookie then cookie <$> whole (takePrefixed 2) e.2
  else none

def Fits : HelloExtension → Prop
  | supportedVersions versions => versions.length < 128 ∧ ∀ v ∈ versions, v < 2 ^ 16
  | supportedGroups codes | signatureAlgorithms codes =>
      codes.length < 2 ^ 14 ∧ ∀ v ∈ codes, v < 2 ^ 16
  | recordSizeLimit limit => limit < 2 ^ 16
  | keyShare shares =>
      (shares.flatMap tagged).length < 2 ^ 15 ∧ ∀ share ∈ shares, share.1 < 2 ^ 16
  | connectionId cid => cid.length < 2 ^ 8
  | cookie value => value.length < 2 ^ 15

theorem encode_tag_lt (e : HelloExtension) : e.encode.1 < 2 ^ 16 := by
  cases e <;> simp [encode, extSupportedVersions, extSupportedGroups, extRecordSizeLimit,
    extSignatureAlgorithms, extKeyShare, extConnectionId, extCookie]

theorem Fits.data_lt {e : HelloExtension} (h : e.Fits) : e.encode.2.length < 2 ^ 16 := by
  cases e <;> simp only [Fits] at h <;>
    simp only [encode, prefixed_length, codePoints_length, toBe_length] <;> omega

theorem read_encode {e : HelloExtension} (h : e.Fits) : read e.encode = some e := by
  cases e with
  | supportedVersions versions =>
    have hlen : (codePoints versions).length < 256 ^ 1 := by
      rw [codePoints_length]
      have hversions := h.1
      omega
    exact congrArg (supportedVersions <$> ·) (ClientHelloFields.readCodes hlen h.2)
  | supportedGroups groups =>
    have hlen : (codePoints groups).length < 256 ^ 2 := by
      rw [codePoints_length]
      have hgroups := h.1
      omega
    exact congrArg (supportedGroups <$> ·) (ClientHelloFields.readCodes hlen h.2)
  | recordSizeLimit limit =>
    exact congrArg (recordSizeLimit <$> ·) (whole_eq_some (takeUint_append [] h))
  | signatureAlgorithms schemes =>
    have hlen : (codePoints schemes).length < 256 ^ 2 := by
      rw [codePoints_length]
      have hschemes := h.1
      omega
    exact congrArg (signatureAlgorithms <$> ·) (ClientHelloFields.readCodes hlen h.2)
  | keyShare shares =>
    have hlen : (shares.flatMap tagged).length < 256 ^ 2 := Nat.lt_trans h.1 (by decide)
    have hshares : readMany takeTagged (shares.flatMap tagged) = some shares := by
      refine readMany_flatMap (fun share hshare rest => takeTagged_append rest (h.2 share hshare) ?_)
        (fun share _ => tagged_ne_nil share)
      have hmem := length_le_flatMap tagged hshare
      rw [tagged_length] at hmem
      omega
    have hread : (whole (takePrefixed 2) (prefixed 2 (shares.flatMap tagged)) >>= readMany takeTagged) =
        some shares := by
      rw [whole_prefixed hlen]
      exact hshares
    exact congrArg (keyShare <$> ·) hread
  | connectionId cid => exact congrArg (connectionId <$> ·) (whole_prefixed h)
  | cookie value =>
    exact congrArg (cookie <$> ·) (whole_prefixed (Nat.lt_trans h (by decide)))

end HelloExtension

/-- What a server reads from a `ClientHello`, the extensions in the order in which they come. -/
structure HelloFields where
  random : Bytes
  sessionId : Bytes
  suites : List Nat
  extensions : List HelloExtension
  deriving DecidableEq

namespace HelloFields

def front (m : HelloFields) : Bytes :=
  toBe 2 dtls12LegacyVersion ++ (m.random ++ (prefixed 1 m.sessionId ++ (prefixed 1 [] ++
    (prefixed 2 (codePoints m.suites) ++ prefixed 1 [0]))))

def block (m : HelloFields) : Bytes := HelloExtension.encodeAll m.extensions

def body (m : HelloFields) : Bytes := m.front ++ prefixed 2 m.block

/-- The reference reader: every length must be that of what it stands for, with nothing left over,
and the legacy cookie must be empty. -/
def readBody (body : Bytes) : Option HelloFields := do
  let rest ← expect (takeUint 2) dtls12LegacyVersion body
  let (random, rest) ← takeBytes 32 rest
  let (sessionId, rest) ← takePrefixed 1 rest
  let rest ← expect (takePrefixed 1) [] rest
  let (suites, rest) ← takePrefixed 2 rest
  let suites ← readMany (takeUint 2) suites
  let rest ← expect (takePrefixed 1) [0] rest
  let block ← whole (takePrefixed 2) rest
  let extensions ← readMany takeTagged block
  let extensions ← extensions.mapM HelloExtension.read
  pure ⟨random, sessionId, suites, extensions⟩

structure Fits (m : HelloFields) : Prop where
  random : m.random.length = 32
  sessionId : m.sessionId.length < 256
  suites : m.suites.length < 2 ^ 15
  codes : ∀ v ∈ m.suites, v < 2 ^ 16
  extensions : ∀ e ∈ m.extensions, e.Fits
  block : m.block.length < 2 ^ 16

theorem mapM_read {es : List HelloExtension} (h : ∀ e ∈ es, e.Fits) :
    (es.map HelloExtension.encode).mapM HelloExtension.read = some es := by
  induction es with
  | nil => rfl
  | cons e es ih =>
    obtain ⟨he, hes⟩ := List.forall_mem_cons.mp h
    rw [List.map_cons, List.mapM_cons, HelloExtension.read_encode he, ih hes]
    rfl

theorem readBody_body {m : HelloFields} (h : m.Fits) : readBody m.body = some m := by
  have hsuites : (codePoints m.suites).length < 256 ^ 2 := by
    have hlen := h.suites
    rw [codePoints_length]
    omega
  have hextensions : readMany takeTagged m.block = some (m.extensions.map HelloExtension.encode) := by
    refine readMany_flatMap (fun e he rest => ?_) (fun e _ => tagged_ne_nil e)
    obtain ⟨extension, hextension, rfl⟩ := List.mem_map.mp he
    exact takeTagged_append rest extension.encode_tag_lt (h.extensions extension hextension).data_lt
  unfold readBody body front
  simp only [List.append_assoc]
  rw [expect_eq_some (takeUint_append _ (by decide))]
  dsimp only [Option.bind_eq_bind, Option.bind_some]
  rw [takeBytes_append _ h.random, Option.bind_some]
  dsimp only
  rw [takePrefixed_append _ h.sessionId, Option.bind_some]
  dsimp only
  rw [expect_eq_some (takePrefixed_append _ (by decide)), Option.bind_some,
    takePrefixed_append _ hsuites, Option.bind_some]
  dsimp only
  rw [readMany_codePoints h.codes, Option.bind_some, expect_eq_some (takePrefixed_append _ (by decide)),
    Option.bind_some, whole_prefixed h.block, Option.bind_some, hextensions, Option.bind_some,
    mapM_read h.extensions]
  rfl

end HelloFields

/-! ### The cursor -/

namespace Cursor
variable {out data : Bytes} {c : Cursor}

/-- The cursor was given `data` from the start of `out` on: it has written all of it, or has run
over. -/
def Holds (out data : Bytes) (c : Cursor) : Prop :=
  if data.length ≤ out.length then c = ⟨data ++ out.drop data.length, data.length, false⟩
  else c.overflow = true

theorem holds_nil (out : Bytes) : Holds out [] { buf := out } := rfl

theorem Holds.pos (h : Holds out data c) (hfits : data.length ≤ out.length) : c.pos = data.length := by
  rw [Holds, if_pos hfits] at h
  rw [h]

theorem put_overflow (h : c.overflow = true) (bytes : Bytes) : (c.put bytes).overflow = true := by
  unfold put
  split
  · exact h
  · rfl

/-- After an overflow later writes may still fit, but it stays noted. -/
theorem Holds.put (h : Holds out data c) (bytes : Bytes) : Holds out (data ++ bytes) (c.put bytes) := by
  unfold Holds at h ⊢
  rw [List.length_append]
  by_cases hdata : data.length ≤ out.length
  · rw [if_pos hdata] at h
    have hlen : (data ++ out.drop data.length).length = out.length := by
      rw [List.length_append, List.length_drop]
      omega
    rw [h, Cursor.put]
    dsimp only
    rw [hlen]
    split
    · rename_i hfits
      rw [overwrite_eq (by rw [hlen]; exact hfits), List.take_left, List.drop_append,
        Nat.add_sub_cancel_left, List.drop_drop, List.drop_eq_nil_of_le (Nat.le_add_right _ _),
        List.nil_append, List.append_assoc]
    · rfl
  · rw [if_neg hdata] at h
    rw [if_neg (by omega)]
    exact put_overflow h bytes

theorem Holds.u8 (h : Holds out data c) (v : Nat) : Holds out (data ++ toBe 1 v) (c.u8 v) :=
  h.put _

theorem Holds.u16 (h : Holds out data c) (v : Nat) : Holds out (data ++ toBe 2 v) (c.u16 v) :=
  h.put _

theorem Holds.u16s (h : Holds out data c) (vs : List Nat) :
    Holds out (data ++ codePoints vs) (c.u16s vs) := by
  induction vs generalizing data c with
  | nil =>
    rw [codePoints, List.flatMap_nil, List.append_nil]
    exact h
  | cons v vs ih =>
    rw [codePoints, List.flatMap_cons, ← List.append_assoc]
    exact ih (h.u16 v)

/-- The distance of two positions is what was written in between. -/
theorem Holds.pos_sub {more : Bytes} {c' : Cursor} (h : Holds out data c)
    (h' : Holds out (data ++ more) c') (hfits : (data ++ more).length ≤ out.length) :
    c'.pos - c.pos = more.length := by
  have hdata : data.length ≤ out.length := by
    rw [List.length_append] at hfits
    omega
  rw [h.pos hdata, h'.pos hfits, List.length_append, Nat.add_sub_cancel_left]

/-- A placeholder is replaced in place. What goes there matters only if there was no overflow. -/
theorem Holds.patchU16 {front back : Bytes} {c' : Cursor} {measured v w : Nat}
    (h : Holds out front c) (h' : Holds out (front ++ (toBe 2 w ++ back)) c')
    (hv : (front ++ (toBe 2 w ++ back)).length ≤ out.length → measured = v) :
    Holds out (front ++ (toBe 2 v ++ back)) (c'.patchU16 c.pos measured) := by
  have hlen : (front ++ (toBe 2 v ++ back)).length = (front ++ (toBe 2 w ++ back)).length := by
    simp only [List.length_append, toBe_length]
  unfold Holds at h' ⊢
  rw [hlen]
  split at h'
  · rename_i hfits
    have hat : c.pos = front.length := by
      rw [List.length_append] at hfits
      exact h.pos (by omega)
    rw [if_pos hfits, h', Cursor.patchU16, hat, hv hfits]
    generalize out.drop _ = tail
    have hroom : front.length + 2 ≤ (front ++ (toBe 2 w ++ back) ++ tail).length := by
      simp only [List.length_append, toBe_length]
      omega
    have hbehind : (front ++ (toBe 2 w ++ (back ++ tail))).drop (front.length + 2) = back ++ tail := by
      rw [← List.append_assoc]
      exact List.drop_left' (by rw [List.length_append, toBe_length])
    dsimp only
    rw [if_pos hroom, overwrite_eq (by rw [toBe_length]; exact hroom), toBe_length]
    simp only [List.append_assoc, List.take_left, hbehind]
  · rename_i hover
    rw [if_neg hover]
    unfold Cursor.patchU16
    split <;> exact h'

end Cursor

/-! ### The writer -/

section Writer
variable (f : Features) (random x25519Pub : Block 32) (cipherSuite : Nat)
  (sessionId : Option (Block 32)) (cookie clientCid : Option Bytes)

/-- The signature schemes of the verifiers that are built in. -/
def helloSchemes : List Nat :=
  sigSchemeEd25519 :: ((if f.ecdsa then [sigSchemeEcdsaP256, sigSchemeEcdsaP384] else []) ++
    if f.rsa then [sigSchemeRsaPssRsaeSha256] else [])

def fixedHelloExtensions : List HelloExtension :=
  [.supportedVersions [dtls13Version], .supportedGroups [namedGroupX25519],
    .recordSizeLimit recordSizeLimit, .signatureAlgorithms (helloSchemes f),
    .keyShare [(namedGroupX25519, x25519Pub.val)]]

def helloMessage : HelloFields where
  random := random.val
  sessionId := sessionId.elim [] Subtype.val
  suites := [cipherSuite]
  extensions := fixedHelloExtensions f x25519Pub ++ (clientCid.map .connectionId).toList ++
    (cookie.map .cookie).toList

variable {out data : Bytes} {c : Cursor}
open Cursor

theorem holds_helloFields :
    Holds out (helloMessage f random x25519Pub cipherSuite sessionId cookie clientCid).front
      (helloFields random cipherSuite sessionId { buf := out }) := by
  have hrandom := ((holds_nil out).u16 dtls12LegacyVersion).put random.val
  unfold helloFields
  cases sessionId with
  | none =>
    have hfront := (((((hrandom.u8 0).u8 0).u16 2).u16 cipherSuite).u8 1).u8 0
    simp only [List.append_assoc] at hfront
    exact hfront
  | some id =>
    have hfront := ((((((hrandom.u8 legacySessionIdLen).put id.val).u8 0).u16 2).u16 cipherSuite).u8 1).u8 0
    simp only [List.append_assoc] at hfront
    have hid : prefixed 1 id.val = toBe 1 legacySessionIdLen ++ id.val := by
      rw [prefixed, id.property, legacySessionIdLen]
    unfold HelloFields.front helloMessage
    dsimp only [Option.elim_some]
    rw [hid, List.append_assoc]
    exact hfront

theorem holds_schemes (h : Holds out data c) :
    Holds out (data ++ codePoints (helloSchemes f))
      (let c := c.u16 sigSchemeEd25519
       let c := if f.ecdsa then (c.u16 sigSchemeEcdsaP256).u16 sigSchemeEcdsaP384 else c
       if f.rsa then c.u16 sigSchemeRsaPssRsaeSha256 else c) := by
  have hschemes := h.u16s (helloSchemes f)
  revert hschemes
  unfold helloSchemes
  cases f.ecdsa <;> cases f.rsa <;> exact id

theorem holds_signatureAlgorithms (h : Holds out data c) :
    Holds out (data ++ tagged (HelloExtension.encode (.signatureAlgorithms (helloSchemes f))))
      (signatureAlgorithms f c) := by
  have htag := h.u16 extSignatureAlgorithms
  have hext := htag.u16 0
  have hlist := hext.u16 0
  have hschemes := holds_schemes f hlist
  unfold signatureAlgorithms
  dsimp only at hschemes ⊢
  generalize (if f.rsa then _ else _ : Cursor) = last at hschemes ⊢
  generalize helloSchemes f = schemes at *
  have hwritten := hlist.pos_sub hschemes
  rw [List.append_assoc] at hschemes hwritten
  have hlistLen := hext.patchU16 hschemes hwritten
  rw [List.append_assoc] at hlistLen
  have hbytes : data ++ tagged (HelloExtension.encode (.signatureAlgorithms schemes)) =
      data ++ toBe 2 extSignatureAlgorithms ++ (toBe 2 (2 + (codePoints schemes).length) ++
        (toBe 2 (codePoints schemes).length ++ codePoints schemes)) := by
    simp only [HelloExtension.encode, tagged, prefixed, List.length_append, toBe_length, List.append_assoc]
  rw [hbytes]
  refine htag.patchU16 hlistLen fun hfits => ?_
  rw [hwritten (by simpa only [List.length_append, toBe_length, Nat.add_assoc] using hfits), Nat.add_comm]

/-- The fixed lengths in front of the key share are those of its parts. -/
theorem tagged_keyShare :
    tagged (HelloExtension.encode (.keyShare [(namedGroupX25519, x25519Pub.val)])) =
      codePoints [extKeyShare, 2 + 2 + 2 + 32, 2 + 2 + 32, namedGroupX25519, 32] ++ x25519Pub.val := by
  have hkey := x25519Pub.property
  simp [HelloExtension.encode, tagged, prefixed, codePoints, hkey]

theorem tagged_connectionId (cid : Bytes) :
    tagged (HelloExtension.encode (.connectionId cid)) =
      codePoints [extConnectionId, 1 + cid.length] ++ toBe 1 cid.length ++ cid := by
  simp [HelloExtension.encode, tagged, prefixed, codePoints]

theorem tagged_cookie (value : Bytes) :
    tagged (HelloExtension.encode (.cookie value)) =
      codePoints [extCookie, 2 + value.length, value.length] ++ value := by
  simp [HelloExtension.encode, tagged, prefixed, codePoints]

theorem holds_connectionId (h : Holds out data c) :
    Holds out (data ++ HelloExtension.encodeAll (clientCid.map .connectionId).toList)
      (match clientCid with
        | some cid => ((c.u16s [extConnectionId, 1 + cid.length]).u8 cid.length).put cid
        | none => c) := by
  cases clientCid with
  | none =>
    rw [← List.append_nil data] at h
    exact h
  | some cid =>
    have hput := ((h.u16s [extConnectionId, 1 + cid.length]).u8 cid.length).put cid
    rw [List.append_assoc, List.append_assoc, ← List.append_assoc (codePoints _),
      ← tagged_connectionId, ← HelloExtension.encodeAll_singleton] at hput
    exact hput

theorem holds_cookie (h : Holds out data c) :
    Holds out (data ++ HelloExtension.encodeAll (cookie.map .cookie).toList)
      (match cookie with
        | some cookie => (c.u16s [extCookie, 2 + cookie.length, cookie.length]).put cookie
        | none => c) := by
  cases cookie with
  | none =>
    rw [← List.append_nil data] at h
    exact h
  | some value =>
    have hput := (h.u16s [extCookie, 2 + value.length, value.length]).put value
    rw [List.append_assoc, ← tagged_cookie, ← HelloExtension.encodeAll_singleton] at hput
    exact hput

theorem encodeAll_fixedHelloExtensions :
    HelloExtension.encodeAll (fixedHelloExtensions f x25519Pub) =
      codePoints [extSupportedVersions, 3] ++ (toBe 1 2 ++ (toBe 2 dtls13Version ++
        (codePoints [extSupportedGroups, 4, 2, namedGroupX25519] ++
          (codePoints [extRecordSizeLimit, 2, recordSizeLimit] ++
            (tagged (HelloExtension.encode (.signatureAlgorithms (helloSchemes f))) ++
              tagged (HelloExtension.encode (.keyShare [(namedGroupX25519, x25519Pub.val)]))))))) := by
  simp only [HelloExtension.encodeAll, fixedHelloExtensions, List.map_cons, List.map_nil,
    List.flatMap_cons, List.flatMap_nil, List.append_nil]
  rfl

theorem holds_helloExtensions (h : Holds out data c) :
    Holds out (data ++ (helloMessage f random x25519Pub cipherSuite sessionId cookie clientCid).block)
      (helloExtensions f x25519Pub cookie clientCid c) := by
  have hversions := ((h.u16s [extSupportedVersions, 3]).u8 2).u16 dtls13Version
  have hgroups := hversions.u16s [extSupportedGroups, 4, 2, namedGroupX25519]
  have hlimit := hgroups.u16s [extRecordSizeLimit, 2, recordSizeLimit]
  have hschemes := holds_signatureAlgorithms f hlimit
  have hshare := (hschemes.u16s [extKeyShare, 2 + 2 + 2 + 32, 2 + 2 + 32, namedGroupX25519, 32]).put
    x25519Pub.val
  rw [List.append_assoc _ (codePoints _) x25519Pub.val, ← tagged_keyShare] at hshare
  simp only [List.append_assoc] at hshare
  rw [← encodeAll_fixedHelloExtensions] at hshare
  have hcookie := holds_cookie cookie (holds_connectionId clientCid hshare)
  rw [List.append_assoc, List.append_assoc] at hcookie
  rw [HelloFields.block, helloMessage, HelloExtension.encodeAll_append, HelloExtension.encodeAll_append,
    List.append_assoc]
  exact hcookie

/-- The writer in one equation: the body in front of the rest of the buffer, if it fits. -/
theorem writeClientHello_eq :
    writeClientHello f random x25519Pub cipherSuite sessionId cookie clientCid out =
      let body := (helloMessage f random x25519Pub cipherSuite sessionId cookie clientCid).body
      if clientCid.all (·.length ≤ maxCidLen) then
        if body.length ≤ out.length then .ok (body.length, body ++ out.drop body.length)
        else .error .bufferTooSmall
      else .error .cidTooLong := by
  have hfront : Holds out (helloMessage f random x25519Pub cipherSuite sessionId cookie clientCid).front _ :=
    holds_helloFields f random x25519Pub cipherSuite sessionId cookie clientCid
  have hextLen := hfront.u16 0
  have hblock := holds_helloExtensions f random x25519Pub cipherSuite sessionId cookie clientCid hextLen
  have hwritten := hextLen.pos_sub hblock
  rw [List.append_assoc] at hblock hwritten
  have hbody := hfront.patchU16 hblock hwritten
  unfold writeClientHello
  dsimp only
  generalize Cursor.patchU16 _ _ _ = last at hbody ⊢
  rw [← prefixed, ← HelloFields.body] at hbody
  by_cases hcid : clientCid.all (·.length ≤ maxCidLen) = true
  · rw [if_pos hcid, ensure, if_pos hcid]
    unfold Holds at hbody
    split at hbody
    · rename_i hfits
      rw [if_pos hfits, hbody]
      rfl
    · rename_i hover
      rw [if_neg hover]
      have hensure : ensure (last.overflow = false) ClientHelloError.bufferTooSmall =
          .error .bufferTooSmall := if_neg (by rw [hbody]; decide)
      dsimp only [bind, Except.bind]
      rw [hensure]
  · rw [if_neg hcid, ensure, if_neg hcid]
    rfl

theorem helloSchemes_spec : (helloSchemes f).length ≤ 4 ∧ ∀ v ∈ helloSchemes f, v < 2 ^ 16 := by
  unfold helloSchemes
  cases f.ecdsa <;> cases f.rsa <;> decide

variable {cipherSuite cookie clientCid}

theorem helloMessage_block_length (hcookie : ∀ value ∈ cookie, value.length ≤ 256)
    (hcid : ∀ cid ∈ clientCid, cid.length ≤ maxCidLen) :
    (helloMessage f random x25519Pub cipherSuite sessionId cookie clientCid).block.length ≤ 364 := by
  have hcount := (helloSchemes_spec f).1
  have hcidLen : (HelloExtension.encodeAll (clientCid.map .connectionId).toList).length ≤ 25 := by
    cases clientCid with
    | none => exact Nat.zero_le _
    | some cid =>
      rw [Option.map_some, Option.toList_some, HelloExtension.encodeAll_singleton, tagged_length,
        HelloExtension.encode, prefixed_length]
      have hlen := hcid cid rfl
      unfold maxCidLen at hlen
      omega
  have hcookieLen : (HelloExtension.encodeAll (cookie.map .cookie).toList).length ≤ 262 := by
    cases cookie with
    | none => exact Nat.zero_le _
    | some value =>
      rw [Option.map_some, Option.toList_some, HelloExtension.encodeAll_singleton, tagged_length,
        HelloExtension.encode, prefixed_length]
      have hlen := hcookie value rfl
      omega
  have hfixedLen : (HelloExtension.encodeAll (fixedHelloExtensions f x25519Pub)).length ≤ 77 := by
    rw [encodeAll_fixedHelloExtensions, tagged_keyShare]
    simp only [List.length_append, codePoints_length, tagged_length, HelloExtension.encode,
      prefixed_length, toBe_length, x25519Pub.property, List.length_cons, List.length_nil]
    omega
  rw [HelloFields.block, helloMessage, HelloExtension.encodeAll_append, HelloExtension.encodeAll_append,
    List.length_append, List.length_append]
  omega

theorem helloMessage_fits (hsuite : cipherSuite < 2 ^ 16) (hcookie : ∀ value ∈ cookie, value.length ≤ 256)
    (hcid : ∀ cid ∈ clientCid, cid.length ≤ maxCidLen) :
    (helloMessage f random x25519Pub cipherSuite sessionId cookie clientCid).Fits where
  random := random.property
  sessionId := by
    cases sessionId with
    | none => exact Nat.zero_lt_succ _
    | some id => exact lt_of_eq_of_lt id.property (by decide)
  suites := Nat.one_lt_two_pow (by decide)
  codes := by
    intro v hv
    rwa [List.mem_singleton.mp hv]
  extensions := by
    obtain ⟨hcount, hcodes⟩ := helloSchemes_spec f
    have hshares : ([(namedGroupX25519, x25519Pub.val)].flatMap tagged).length = 36 := by
      rw [List.flatMap_singleton, tagged_length, x25519Pub.property]
    intro e he
    simp only [helloMessage, fixedHelloExtensions, List.mem_append, List.mem_cons, List.not_mem_nil,
      or_false, Option.mem_toList, Option.map_eq_some_iff] at he
    obtain ((rfl | rfl | rfl | rfl | rfl) | ⟨cid, hmem, rfl⟩) | ⟨value, hmem, rfl⟩ := he
    · exact ⟨by decide, by decide⟩
    · exact ⟨by decide, by decide⟩
    · exact (by decide : recordSizeLimit < 2 ^ 16)
    · exact ⟨by omega, hcodes⟩
    · exact ⟨by omega, by simp [namedGroupX25519]⟩
    · exact lt_of_le_of_lt (hcid cid hmem) (by decide)
    · exact lt_of_le_of_lt (hcookie value hmem) (by decide)
  block := lt_of_le_of_lt (helloMessage_block_length f random x25519Pub sessionId hcookie hcid) (by decide)

end Writer

/-- The writer refuses connection ids of more than 20 bytes and buffers that are too short for the
message, and nothing else. What it writes is read back to the arguments. -/
theorem writeClientHello_exact (f : Features) (random x25519Pub : Block 32) (cipherSuite : UInt16)
    (sessionId : Option (Block 32)) (cookie : Option (Vec UInt8 256)) (clientCid : Option Bytes)
    (out : Bytes) :
    let result := writeClientHello f random x25519Pub cipherSuite.toNat sessionId
      (cookie.map Subtype.val) clientCid out
    let message := helloMessage f random x25519Pub cipherSuite.toNat sessionId
      (cookie.map Subtype.val) clientCid
    (result = .error .cidTooLong ↔ ∃ cid ∈ clientCid, 20 < cid.length) ∧
    ((¬∃ cid ∈ clientCid, 20 < cid.length) →
      (result = .error .bufferTooSmall ↔ out.length < message.body.length) ∧
      (message.body.length ≤ out.length → ∃ n buf, result = .ok (n, buf) ∧ n = message.body.length ∧
        HelloFields.readBody (buf.take n) = some message ∧ buf.drop n = out.drop n)) := by
  intro result message
  have hresult : result = _ := writeClientHello_eq f random x25519Pub cipherSuite.toNat sessionId
    (cookie.map Subtype.val) clientCid
  have hcid : clientCid.all (·.length ≤ maxCidLen) = true ↔ ¬∃ cid ∈ clientCid, 20 < cid.length := by
    cases clientCid with
    | none => simp
    | some cid => rw [Option.all_some, decide_eq_true_eq]; simp [maxCidLen]
  have hfits (hshort : ¬∃ cid ∈ clientCid, 20 < cid.length) : message.Fits := by
    refine helloMessage_fits f random x25519Pub sessionId cipherSuite.toNat_lt ?_ ?_
    · intro value hvalue
      obtain ⟨v, -, rfl⟩ := Option.map_eq_some_iff.mp hvalue
      exact v.property
    · intro cid hmem
      exact Nat.le_of_not_lt fun hlong => hshort ⟨cid, hmem, hlong⟩
  rw [hresult]
  dsimp only
  refine ⟨?_, fun hshort => ?_⟩
  · by_cases hlong : ∃ cid ∈ clientCid, 20 < cid.length
    · rw [if_neg (by rw [hcid]; exact not_not_intro hlong)]
      exact iff_of_true rfl hlong
    · rw [if_pos (hcid.mpr hlong)]
      refine iff_of_false ?_ hlong
      split <;> simp
  · rw [if_pos (hcid.mpr hshort)]
    constructor
    · split
      · rename_i hroom
        exact iff_of_false (by simp) (Nat.not_lt.mpr hroom)
      · rename_i hover
        exact iff_of_true rfl (Nat.lt_of_not_le hover)
    · intro hroom
      refine ⟨_, _, if_pos hroom, rfl, ?_, ?_⟩
      · rw [List.take_left]
        exact HelloFields.readBody_body (hfits hshort)
      · exact List.drop_left

end KrabiTls.Dtls
