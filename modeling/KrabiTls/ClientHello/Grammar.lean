import KrabiTls.ClientHello
import KrabiTls.Lib.Decoding

/-! The grammar of `ClientHello` and a reference reader for it. The reader takes nothing but whole
records: every length must be that of what it stands for, with nothing left over. -/
namespace KrabiTls
open Lib

/-- What a server can read from a `ClientHello`. -/
structure ClientHelloFields where
  random : Bytes
  sessionId : Bytes
  suites : List Nat
  versions : List Nat
  groups : List Nat
  sigAlgs : List Nat
  hostname : Option Bytes
  recordSizeLimit : Option Nat
  protocols : Option (List Bytes)
  keyShares : List (Nat × Bytes)
  deriving DecidableEq

def codePoints (values : List Nat) : Bytes := values.flatMap (toBe 2)

namespace ClientHelloFields

def serverNameData (hostname : Bytes) : Bytes :=
  prefixed 2 (toBe 1 sniNameTypeHostName.toNat ++ prefixed 2 hostname)

def alpnData (protocols : List Bytes) : Bytes := prefixed 2 (protocols.flatMap (prefixed 1))

section Encoding
variable (m : ClientHelloFields)

def extensions : List (Nat × Bytes) :=
  [(extSupportedVersions, prefixed 1 (codePoints m.versions)),
    (extSupportedGroups, prefixed 2 (codePoints m.groups)),
    (extSignatureAlgorithms, prefixed 2 (codePoints m.sigAlgs))] ++
  (m.hostname.map fun h => (extServerName, serverNameData h)).toList ++
  (m.recordSizeLimit.map fun limit => (extRecordSizeLimit, toBe 2 limit)).toList ++
  (m.protocols.map fun names => (extAlpn, alpnData names)).toList ++
  [(extKeyShare, prefixed 2 (m.keyShares.flatMap tagged))]

def body : Bytes :=
  toBe 2 legacyVersion ++ (m.random ++ (prefixed 1 m.sessionId ++ (prefixed 2 (codePoints m.suites) ++
    (prefixed 1 [0] ++ prefixed 2 (m.extensions.flatMap tagged)))))

/-- The bounds of the fields' encodings; all others follow from that of the record. -/
structure Fits : Prop where
  random : m.random.length = 32
  sessionId : m.sessionId.length < 256
  versions : m.versions.length < 128
  codes : ∀ v ∈ m.suites ++ m.versions ++ m.groups ++ m.sigAlgs, v < 2 ^ 16
  recordSizeLimit : ∀ limit ∈ m.recordSizeLimit, limit < 2 ^ 16
  protocols : ∀ names ∈ m.protocols, ∀ name ∈ names, name.length < 256
  keyShares : ∀ share ∈ m.keyShares, share.1 < 2 ^ 16
  record : 4 + m.body.length < 2 ^ 16

end Encoding

/-- The fields that the extensions hold, each extension at most once. -/
def readExtensions (random sessionId : Bytes) (suites : List Nat) (extensions : List (Nat × Bytes)) :
    Option ClientHelloFields := do
  if ¬ (extensions.map Prod.fst).Nodup then none
  let versions ← extensions.lookup extSupportedVersions >>= whole (takePrefixed 1) >>= readMany (takeUint 2)
  let groups ← extensions.lookup extSupportedGroups >>= whole (takePrefixed 2) >>= readMany (takeUint 2)
  let sigAlgs ← extensions.lookup extSignatureAlgorithms >>= whole (takePrefixed 2) >>=
    readMany (takeUint 2)
  let hostname ← (extensions.lookup extServerName).mapM fun data => do
    let list ← whole (takePrefixed 2) data
    let name ← expect (takeUint 1) sniNameTypeHostName.toNat list
    whole (takePrefixed 2) name
  let recordSizeLimit ← (extensions.lookup extRecordSizeLimit).mapM (whole (takeUint 2))
  let protocols ← (extensions.lookup extAlpn).mapM fun data =>
    whole (takePrefixed 2) data >>= readMany (takePrefixed 1)
  let keyShares ← extensions.lookup extKeyShare >>= whole (takePrefixed 2) >>= readMany takeTagged
  pure ⟨random, sessionId, suites, versions, groups, sigAlgs, hostname, recordSizeLimit, protocols,
    keyShares⟩

def readBody (body : Bytes) : Option ClientHelloFields := do
  let rest ← expect (takeUint 2) legacyVersion body
  let (random, rest) ← takeBytes 32 rest
  let (sessionId, rest) ← takePrefixed 1 rest
  let (suites, rest) ← takePrefixed 2 rest
  let suites ← readMany (takeUint 2) suites
  let rest ← expect (takePrefixed 1) [0] rest
  let block ← whole (takePrefixed 2) rest
  let extensions ← readMany takeTagged block
  readExtensions random sessionId suites extensions

end ClientHelloFields

def readClientHello (record : Bytes) : Option ClientHelloFields := do
  let rest ← expect (takeUint 1) ctHandshake.toNat record
  let rest ← expect (takeUint 2) legacyVersion rest
  let fragment ← whole (takePrefixed 2) rest
  let rest ← expect (takeUint 1) hsClientHello.toNat fragment
  let body ← whole (takePrefixed 3) rest
  ClientHelloFields.readBody body

theorem codePoints_length (values : List Nat) : (codePoints values).length = 2 * values.length := by
  simp [codePoints, List.length_flatMap, Nat.mul_comm]

theorem readMany_codePoints {values : List Nat} (h : ∀ v ∈ values, v < 2 ^ 16) :
    readMany (takeUint 2) (codePoints values) = some values :=
  readMany_flatMap (fun v hv rest => takeUint_append rest (h v hv))
    (fun v _ => List.ne_nil_of_length_pos (by rw [toBe_length]; decide))

namespace ClientHelloFields
variable {m : ClientHelloFields}

theorem lookup_extensions (m : ClientHelloFields) :
    m.extensions.lookup extSupportedVersions = some (prefixed 1 (codePoints m.versions)) ∧
    m.extensions.lookup extSupportedGroups = some (prefixed 2 (codePoints m.groups)) ∧
    m.extensions.lookup extSignatureAlgorithms = some (prefixed 2 (codePoints m.sigAlgs)) ∧
    m.extensions.lookup extServerName = m.hostname.map serverNameData ∧
    m.extensions.lookup extRecordSizeLimit = m.recordSizeLimit.map (toBe 2) ∧
    m.extensions.lookup extAlpn = m.protocols.map alpnData ∧
    m.extensions.lookup extKeyShare = some (prefixed 2 (m.keyShares.flatMap tagged)) := by
  rw [extensions]
  rcases m.hostname with _ | hostname <;> rcases m.recordSizeLimit with _ | limit <;>
    rcases m.protocols with _ | names <;> exact ⟨rfl, rfl, rfl, rfl, rfl, rfl, rfl⟩

theorem tags_sublist (m : ClientHelloFields) :
    (m.extensions.map Prod.fst).Sublist [extSupportedVersions, extSupportedGroups,
      extSignatureAlgorithms, extServerName, extRecordSizeLimit, extAlpn, extKeyShare] := by
  rw [extensions]
  rcases m.hostname with _ | hostname <;> rcases m.recordSizeLimit with _ | limit <;>
    rcases m.protocols with _ | names <;> simp

theorem nodup_extensions (m : ClientHelloFields) : (m.extensions.map Prod.fst).Nodup :=
  m.tags_sublist.nodup (by decide)

theorem Fits.block_lt (h : m.Fits) : (m.extensions.flatMap tagged).length < 2 ^ 16 := by
  have hrecord := h.record
  simp only [body, List.length_append, prefixed_length] at hrecord
  omega

theorem Fits.data_lt (h : m.Fits) {e : Nat × Bytes} (he : e ∈ m.extensions) : e.2.length < 2 ^ 16 := by
  have hmem := length_le_flatMap tagged he
  have hblock := h.block_lt
  rw [tagged_length] at hmem
  omega

theorem Fits.list_lt (h : m.Fits) (tag : Nat) (list : Bytes) (he : (tag, prefixed 2 list) ∈ m.extensions) :
    list.length < 256 ^ 2 := by
  have hdata := h.data_lt he
  rw [prefixed_length] at hdata
  omega

theorem readCodes {n : Nat} {values : List Nat} (hlen : (codePoints values).length < 256 ^ n)
    (hvalues : ∀ v ∈ values, v < 2 ^ 16) :
    (whole (takePrefixed n) (prefixed n (codePoints values)) >>= readMany (takeUint 2)) = some values := by
  rw [whole_prefixed hlen]
  exact readMany_codePoints hvalues

/-- An optional extension is read back if its data is. -/
theorem mapM_map_eq_some {α : Type} {o : Option α} {data : α → Bytes} {read : Bytes → Option α}
    (h : ∀ a ∈ o, read (data a) = some a) : (o.map data).mapM read = some o := by
  cases o with
  | none => rfl
  | some a => simp [h a rfl]

theorem readExtensions_extensions (h : m.Fits) :
    readExtensions m.random m.sessionId m.suites m.extensions = some m := by
  obtain ⟨hversions, hgroups, hsigAlgs, hhostname, hlimit, hprotocols, hshares⟩ := m.lookup_extensions
  have hcodes := h.codes
  simp only [List.forall_mem_append] at hcodes
  obtain ⟨⟨⟨-, hversionCodes⟩, hgroupCodes⟩, hsigAlgCodes⟩ := hcodes
  unfold readExtensions
  rw [hversions, hgroups, hsigAlgs, hhostname, hlimit, hprotocols, hshares]
  simp only [m.nodup_extensions, not_true_eq_false, if_false, Option.bind_eq_bind, Option.bind_some]
  refine Option.bind_eq_some_iff.mpr ⟨m.versions, readCodes ?_ hversionCodes, ?_⟩
  · have hlen := h.versions
    rw [codePoints_length]
    omega
  refine Option.bind_eq_some_iff.mpr ⟨m.groups, readCodes (h.list_lt extSupportedGroups _ ?_) hgroupCodes, ?_⟩
  · simp [extensions]
  refine Option.bind_eq_some_iff.mpr ⟨m.sigAlgs, readCodes (h.list_lt extSignatureAlgorithms _ ?_) hsigAlgCodes, ?_⟩
  · simp [extensions]
  refine Option.bind_eq_some_iff.mpr ⟨m.hostname, mapM_map_eq_some fun hostname hmem => ?_, ?_⟩
  · have hlist := h.list_lt extServerName (toBe 1 sniNameTypeHostName.toNat ++ prefixed 2 hostname)
      (by simp [extensions, serverNameData, Option.mem_def.mp hmem])
    have hname : hostname.length < 256 ^ 2 := by
      rw [List.length_append, prefixed_length] at hlist
      omega
    rw [serverNameData, whole_prefixed hlist, Option.bind_some,
      expect_eq_some (takeUint_append _ (by decide)), Option.bind_some, whole_prefixed hname]
  refine Option.bind_eq_some_iff.mpr ⟨m.recordSizeLimit, mapM_map_eq_some fun limit hmem => ?_, ?_⟩
  · have hread := takeUint_append (n := 2) [] (h.recordSizeLimit limit hmem)
    exact whole_eq_some hread
  refine Option.bind_eq_some_iff.mpr ⟨m.protocols, mapM_map_eq_some fun names hmem => ?_, ?_⟩
  · have hlist := h.list_lt extAlpn (names.flatMap (prefixed 1))
      (by simp [extensions, alpnData, Option.mem_def.mp hmem])
    rw [alpnData, whole_prefixed hlist]
    exact readMany_flatMap (fun name hname rest => takePrefixed_append rest (h.protocols names hmem name hname))
      (fun name _ => List.ne_nil_of_length_pos (by rw [prefixed_length]; omega))
  refine Option.bind_eq_some_iff.mpr ⟨m.keyShares, ?_, rfl⟩
  have hlist := h.list_lt extKeyShare (m.keyShares.flatMap tagged) (by simp [extensions])
  rw [whole_prefixed hlist]
  refine readMany_flatMap (fun share hshare rest => takeTagged_append rest (h.keyShares share hshare) ?_)
    (fun share _ => tagged_ne_nil share)
  have hlen := length_le_flatMap tagged hshare
  rw [tagged_length] at hlen
  omega

theorem extension_tag_lt (m : ClientHelloFields) {e : Nat × Bytes} (he : e ∈ m.extensions) :
    e.1 < 2 ^ 16 := by
  have htag := m.tags_sublist.subset (List.mem_map_of_mem he)
  revert htag
  generalize e.1 = tag
  revert tag
  decide

theorem readBody_body (h : m.Fits) : readBody m.body = some m := by
  have hrecord := h.record
  have hcodes := h.codes
  simp only [List.forall_mem_append] at hcodes
  obtain ⟨⟨⟨hsuites, -⟩, -⟩, -⟩ := hcodes
  have hsuitesLen : (codePoints m.suites).length < 256 ^ 2 := by
    simp only [body, List.length_append, prefixed_length] at hrecord
    omega
  have hextensions : readMany takeTagged (m.extensions.flatMap tagged) = some m.extensions :=
    readMany_flatMap (fun e he rest => takeTagged_append rest (m.extension_tag_lt he) (h.data_lt he))
      (fun e _ => tagged_ne_nil e)
  unfold readBody body
  rw [expect_eq_some (takeUint_append _ (by decide))]
  dsimp only [Option.bind_eq_bind, Option.bind_some]
  rw [takeBytes_append _ h.random, Option.bind_some]
  dsimp only
  rw [takePrefixed_append _ h.sessionId, Option.bind_some]
  dsimp only
  rw [takePrefixed_append _ hsuitesLen, Option.bind_some]
  dsimp only
  rw [readMany_codePoints hsuites, Option.bind_some, expect_eq_some (takePrefixed_append _ (by decide)),
    Option.bind_some, whole_prefixed h.block_lt, Option.bind_some, hextensions]
  exact readExtensions_extensions h

end ClientHelloFields

theorem readClientHello_record {m : ClientHelloFields} (h : m.Fits) :
    readClientHello (helloRecord hsClientHello m.body) = some m := by
  have hbody : m.body.length < 256 ^ 3 := by
    have hrecord := h.record
    omega
  have hfragment : (toBe 1 hsClientHello.toNat ++ prefixed 3 m.body).length = 4 + m.body.length := by
    simp only [List.length_append, toBe_length, prefixed_length]
    omega
  have hrecord : helloRecord hsClientHello m.body = toBe 1 ctHandshake.toNat ++
      (toBe 2 legacyVersion ++ prefixed 2 (toBe 1 hsClientHello.toNat ++ prefixed 3 m.body)) := by
    rw [prefixed, hfragment]
    rfl
  unfold readClientHello
  rw [hrecord, expect_eq_some (takeUint_append _ (by decide))]
  dsimp only [Option.bind_eq_bind, Option.bind_some]
  rw [expect_eq_some (takeUint_append _ (by decide)), Option.bind_some,
    whole_prefixed (by rw [hfragment]; exact h.record), Option.bind_some,
    expect_eq_some (takeUint_append _ (by decide)), Option.bind_some, whole_prefixed hbody,
    Option.bind_some, ClientHelloFields.readBody_body h]

end KrabiTls
