import KrabiTls.ClientHello.Grammar

/-! Sizer and writer agree as long as the size does not wrap: the writer then emits the number of bytes
it reports, and they read back to the options. -/
namespace KrabiTls
open Lib

namespace Features
variable (f : Features)

def namedGroups : List Nat :=
  f.keyShareGroup :: if f.secondGroup then [namedGroupSecp256r1] else []

def sigSchemes : List Nat :=
  sigSchemeEd25519 :: ((if f.ecdsa then [sigSchemeEcdsaP256, sigSchemeEcdsaP384] else []) ++
    ((if f.rsa then [sigSchemeRsaPssRsaeSha256] else []) ++
      if f.mldsa then [sigSchemeMlDsa44, sigSchemeMlDsa65, sigSchemeMlDsa87] else []))

theorem namedGroups_length : f.namedGroups.length = f.supportedGroupsCount := by
  have hsome := f.some_kx
  unfold namedGroups secondGroup supportedGroupsCount
  revert hsome
  cases f.p256Kx <;> cases f.x25519Kx <;> simp

theorem sigSchemes_length : f.sigSchemes.length = f.sigSchemeCount := by
  unfold sigSchemes sigSchemeCount
  cases f.ecdsa <;> cases f.rsa <;> cases f.mldsa <;> rfl

end Features

namespace ClientHelloOptions
variable {f : Features} (random : Block 32) (primaryPub : Block f.primaryPubLen)
  (opts : ClientHelloOptions f)

/-- The key shares that the build needs are there. -/
structure HasShares : Prop where
  mlkemEk : f.mlkem = true → opts.mlkemEk.isSome = true
  p256Pub : f.secondGroup = true → opts.p256Pub.isSome = true

def keyShares : List (Nat × Bytes) :=
  (f.keyShareGroup, (if f.mlkem then opts.mlkemEk.elim [] Subtype.val else []) ++ primaryPub.val) ::
    if f.secondGroup then [(namedGroupSecp256r1, opts.p256Pub.elim [] Subtype.val)] else []

def fields : ClientHelloFields where
  random := random.val
  sessionId := opts.sessionId.elim [] Subtype.val
  suites := opts.offeredSuites
  versions := [tls13]
  groups := f.namedGroups
  sigAlgs := f.sigSchemes
  hostname := opts.hostname
  recordSizeLimit := opts.recordSizeLimit
  protocols := opts.alpn
  keyShares := opts.keyShares primaryPub

/-- The arguments keep to the ranges that the writer documents. -/
structure InRange : Prop where
  hostname : (opts.hostname.getD []).length ≤ 0xFFFF
  recordSizeLimit : ∀ limit ∈ opts.recordSizeLimit, 64 ≤ limit ∧ limit ≤ 16385
  alpn : ∀ protocols ∈ opts.alpn, protocols ≠ [] ∧ ∀ name ∈ protocols, name ≠ [] ∧ name.length ≤ 255

variable {random primaryPub opts}

theorem nSuites_eq (opts : ClientHelloOptions f) : opts.nSuites = opts.offeredSuites.length := by
  obtain ⟨haes, hchacha⟩ := opts.suites_enabled
  have hsome := f.some_cipher
  unfold offeredSuites advertiseChacha advertiseAes nSuites Features.cipherSuitesCount
  revert haes hchacha hsome
  cases opts.suites <;> cases f.cipherAes <;> cases f.chacha20 <;> simp

theorem helloFields_eq (opts : ClientHelloOptions f) (random : Block 32) :
    opts.helloFields random = toBe 2 legacyVersion ++ (random.val ++
      (prefixed 1 (opts.sessionId.elim [] Subtype.val) ++ (prefixed 2 (codePoints opts.offeredSuites) ++
        prefixed 1 [0]))) := by
  have hsuites : codePoints opts.offeredSuites =
      (if opts.advertiseChacha then toBe 2 cipherChaCha20Poly1305Sha256 else []) ++
        if opts.advertiseAes then toBe 2 cipherAes128GcmSha256 else [] := by
    unfold offeredSuites codePoints
    cases opts.advertiseChacha <;> cases opts.advertiseAes <;> rfl
  have hlist : prefixed 2 (codePoints opts.offeredSuites) = toBe 2 (2 * opts.nSuites) ++
      ((if opts.advertiseChacha then toBe 2 cipherChaCha20Poly1305Sha256 else []) ++
        if opts.advertiseAes then toBe 2 cipherAes128GcmSha256 else []) := by
    rw [prefixed, codePoints_length, ← nSuites_eq, hsuites]
  rw [helloFields, hlist]
  cases opts.sessionId with
  | none =>
    simp only [List.append_assoc]
    rfl
  | some id =>
    rw [Option.elim_some, prefixed, id.property, legacySessionIdLen]
    simp only [List.append_assoc]
    rfl

theorem fixedExtensions_eq :
    fixedExtensions f = tagged (extSupportedVersions, prefixed 1 (codePoints [tls13])) ++
      (tagged (extSupportedGroups, prefixed 2 (codePoints f.namedGroups)) ++
        tagged (extSignatureAlgorithms, prefixed 2 (codePoints f.sigSchemes))) := by
  have hgroups : codePoints f.namedGroups =
      toBe 2 f.keyShareGroup ++ if f.secondGroup then toBe 2 namedGroupSecp256r1 else [] := by
    unfold Features.namedGroups codePoints
    cases f.secondGroup <;> rfl
  have hschemes : codePoints f.sigSchemes = toBe 2 sigSchemeEd25519 ++
      ((if f.ecdsa then toBe 2 sigSchemeEcdsaP256 ++ toBe 2 sigSchemeEcdsaP384 else []) ++
        ((if f.rsa then toBe 2 sigSchemeRsaPssRsaeSha256 else []) ++
          if f.mldsa then toBe 2 sigSchemeMlDsa44 ++ toBe 2 sigSchemeMlDsa65 ++ toBe 2 sigSchemeMlDsa87
          else [])) := by
    unfold Features.sigSchemes codePoints
    cases f.ecdsa <;> cases f.rsa <;> cases f.mldsa <;> rfl
  have hgroupList := codePoints_length f.namedGroups
  have hschemeList := codePoints_length f.sigSchemes
  rw [f.namedGroups_length] at hgroupList
  rw [f.sigSchemes_length] at hschemeList
  simp only [tagged, prefixed, List.length_append, toBe_length, hgroupList, hschemeList]
  rw [hgroups, hschemes, fixedExtensions]
  simp only [List.append_assoc]
  rfl

theorem serverName_eq (hostname : Bytes) :
    serverName hostname = tagged (extServerName, ClientHelloFields.serverNameData hostname) := by
  simp only [serverName, tagged, ClientHelloFields.serverNameData, prefixed, List.length_append, toBe_length,
    List.append_assoc, Nat.add_assoc]
  rfl

theorem recordSizeLimitExt_eq (limit : Nat) :
    recordSizeLimitExt limit = tagged (extRecordSizeLimit, toBe 2 limit) := by
  rw [recordSizeLimitExt, tagged, prefixed, toBe_length, List.append_assoc]

theorem alpnExt_eq (protocols : List Bytes) :
    alpnExt protocols = tagged (extAlpn, ClientHelloFields.alpnData protocols) := by
  have hnames : protocols.flatMap (prefixed 1) = alpnNames protocols := rfl
  simp only [alpnExt, tagged, ClientHelloFields.alpnData, prefixed.eq_def 2, List.length_append, toBe_length,
    hnames, alpnNames_length, List.append_assoc]

theorem primaryKey_length (h : opts.HasShares) :
    ((if f.mlkem then opts.mlkemEk.elim [] Subtype.val else []) ++ primaryPub.val).length =
      f.keyShareKeyLen := by
  rw [Features.keyShareKeyLen, List.length_append, primaryPub.property]
  by_cases hmlkem : f.mlkem = true
  · obtain ⟨ek, hek⟩ := Option.isSome_iff_exists.mp (h.mlkemEk hmlkem)
    rw [if_pos hmlkem, if_pos hmlkem, hek, Option.elim_some, ek.property, Features.primaryPubLen,
      if_pos (f.mlkem_x25519 hmlkem)]
  · rw [if_neg hmlkem, if_neg hmlkem, List.length_nil, Nat.zero_add]

theorem keyShares_length (h : opts.HasShares) :
    ((opts.keyShares primaryPub).flatMap tagged).length = f.keyShareListLen := by
  have hsecond : ((if f.secondGroup then
      [(namedGroupSecp256r1, opts.p256Pub.elim [] Subtype.val)] else []).flatMap tagged).length =
      f.p256KxEntryLen := by
    rw [Features.p256KxEntryLen]
    by_cases hsecond : f.secondGroup = true
    · obtain ⟨point, hpoint⟩ := Option.isSome_iff_exists.mp (h.p256Pub hsecond)
      rw [if_pos hsecond, if_pos hsecond, List.flatMap_singleton, tagged_length, hpoint, Option.elim_some,
        point.property]
      rfl
    · rw [if_neg hsecond, if_neg hsecond, List.flatMap_nil, List.length_nil]
  rw [keyShares, List.flatMap_cons, List.length_append, hsecond, tagged_length, primaryKey_length h,
    Features.keyShareListLen]

/-- With the shares that the build needs no write of the extension fails. -/
theorem keyShareWrites_eq (primaryPub : Block f.primaryPubLen) (h : opts.HasShares) :
    ∃ written : List Bytes, opts.keyShareWrites primaryPub = written.map .ok ∧
      written.flatten = tagged (extKeyShare, prefixed 2 ((opts.keyShares primaryPub).flatMap tagged)) := by
  refine ⟨[toBe 2 extKeyShare ++ toBe 2 (2 + f.keyShareListLen) ++ toBe 2 f.keyShareListLen ++
      toBe 2 f.keyShareGroup ++ toBe 2 f.keyShareKeyLen] ++
    (if f.mlkem then [opts.mlkemEk.elim [] Subtype.val] else []) ++ [primaryPub.val] ++
    (if f.secondGroup then [toBe 2 namedGroupSecp256r1 ++ toBe 2 p256ShareBytes,
      opts.p256Pub.elim [] Subtype.val] else []), ?_, ?_⟩
  · -- neither share is missing
    have hek : (if f.mlkem then
        [opts.mlkemEk.elim (Except.error ClientHelloError.missingMlKemKeyShare) (.ok ·.val)] else []) =
        (if f.mlkem then [opts.mlkemEk.elim [] Subtype.val] else []).map .ok := by
      split
      · rename_i hmlkem
        obtain ⟨ek, hek⟩ := Option.isSome_iff_exists.mp (h.mlkemEk hmlkem)
        rw [hek]
        rfl
      · rfl
    have hpoint : (if f.secondGroup then [.ok (toBe 2 namedGroupSecp256r1 ++ toBe 2 p256ShareBytes),
        opts.p256Pub.elim (Except.error ClientHelloError.missingP256KeyShare) (.ok ·.val)] else []) =
        (if f.secondGroup then [toBe 2 namedGroupSecp256r1 ++ toBe 2 p256ShareBytes,
          opts.p256Pub.elim [] Subtype.val] else []).map .ok := by
      split
      · rename_i hsecond
        obtain ⟨point, hpoint⟩ := Option.isSome_iff_exists.mp (h.p256Pub hsecond)
        rw [hpoint]
        rfl
      · rfl
    rw [keyShareWrites, hek, hpoint, List.map_append, List.map_append, List.map_append]
    rfl
  · have hsecond : (if f.secondGroup then
        [(namedGroupSecp256r1, opts.p256Pub.elim [] Subtype.val)] else []).flatMap tagged =
        (if f.secondGroup then [toBe 2 namedGroupSecp256r1 ++ toBe 2 p256ShareBytes,
          opts.p256Pub.elim [] Subtype.val] else []).flatten := by
      split
      · rename_i hsecond
        obtain ⟨point, hpoint⟩ := Option.isSome_iff_exists.mp (h.p256Pub hsecond)
        rw [List.flatMap_singleton, tagged_mk, hpoint, Option.elim_some, point.property]
        simp
      · rfl
    have hek : (if f.mlkem then [opts.mlkemEk.elim [] Subtype.val] else []).flatten =
        if f.mlkem then opts.mlkemEk.elim [] Subtype.val else [] := by
      split
      · exact List.flatten_singleton
      · rfl
    rw [tagged_mk, prefixed_length, prefixed, keyShares_length h, keyShares, List.flatMap_cons, tagged_mk,
      primaryKey_length h, hsecond]
    simp only [List.flatten_append, hek, List.flatten_singleton, List.append_assoc]

theorem flatMap_toList_map {α : Type} (o : Option α) {entry : α → Nat × Bytes} {ext : α → Bytes}
    (h : ∀ a, ext a = tagged (entry a)) : (o.map entry).toList.flatMap tagged = o.elim [] ext := by
  cases o with
  | none => rfl
  | some a => exact (List.flatMap_singleton tagged (entry a)).trans (h a).symm

theorem extensions_eq (random : Block 32) (primaryPub : Block f.primaryPubLen) (opts : ClientHelloOptions f) :
    (opts.fields random primaryPub).extensions.flatMap tagged = fixedExtensions f ++
      (opts.hostname.elim [] serverName ++ (opts.recordSizeLimit.elim [] recordSizeLimitExt ++
        (opts.alpn.elim [] alpnExt ++
          tagged (extKeyShare, prefixed 2 ((opts.keyShares primaryPub).flatMap tagged))))) := by
  have hhostname := flatMap_toList_map opts.hostname serverName_eq
  have hlimit := flatMap_toList_map opts.recordSizeLimit recordSizeLimitExt_eq
  have halpn := flatMap_toList_map opts.alpn alpnExt_eq
  rw [ClientHelloFields.extensions, fixedExtensions_eq]
  simp only [fields, List.flatMap_append, hhostname, hlimit, halpn, List.flatMap_cons, List.flatMap_nil,
    List.append_nil, List.append_assoc]

theorem extensionsTotal_eq (h : opts.HasShares) :
    ((opts.fields random primaryPub).extensions.flatMap tagged).length = opts.extensionsTotal := by
  obtain ⟨written, hwrites, hflatten⟩ := keyShareWrites_eq primaryPub h
  have hshares := keyShareWrites_length hwrites
  have hfixed := fixedExtensions_length (f := f)
  have hoptional := opts.optionalExtensions_length
  rw [extensions_eq, ← hflatten]
  simp only [List.length_append, extensionsTotal, Features.extensionsFixedTotal]
  omega

theorem bodyWrites_eq (random : Block 32) (primaryPub : Block f.primaryPubLen) (h : opts.HasShares) :
    ∃ written : List Bytes, opts.bodyWrites random primaryPub = written.map .ok ∧
      written.flatten = (opts.fields random primaryPub).body := by
  obtain ⟨shares, hwrites, hflatten⟩ := keyShareWrites_eq primaryPub h
  refine ⟨(opts.helloFields random ++ toBe 2 opts.extensionsTotal ++ fixedExtensions f ++
    opts.hostname.elim [] serverName ++ opts.recordSizeLimit.elim [] recordSizeLimitExt ++
    opts.alpn.elim [] alpnExt) :: shares, ?_, ?_⟩
  · rw [bodyWrites, hwrites]
    rfl
  · rw [List.flatten_cons, hflatten, helloFields_eq, ClientHelloFields.body,
      prefixed.eq_def 2 ((opts.fields random primaryPub).extensions.flatMap tagged), extensionsTotal_eq h,
      extensions_eq]
    simp only [fields, List.append_assoc]

theorem body_length (random : Block 32) (primaryPub : Block f.primaryPubLen) (h : opts.HasShares) :
    (opts.fields random primaryPub).body.length = opts.bodyLen := by
  obtain ⟨written, hwrites, hflatten⟩ := bodyWrites_eq random primaryPub h
  rw [← hflatten]
  exact bodyWrites_length hwrites

theorem codes_lt (opts : ClientHelloOptions f) :
    ∀ v ∈ opts.offeredSuites ++ [tls13] ++ f.namedGroups ++ f.sigSchemes, v < 2 ^ 16 := by
  have hgroup : f.keyShareGroup < 2 ^ 16 := by
    unfold Features.keyShareGroup
    repeat' split
    all_goals decide
  have hsuites : ∀ v ∈ opts.offeredSuites, v < 2 ^ 16 := by
    unfold offeredSuites
    cases opts.advertiseChacha <;> cases opts.advertiseAes <;> decide
  have hgroups : ∀ v ∈ f.namedGroups, v < 2 ^ 16 := by
    refine List.forall_mem_cons.mpr ⟨hgroup, ?_⟩
    cases f.secondGroup <;> decide
  have hschemes : ∀ v ∈ f.sigSchemes, v < 2 ^ 16 := by
    unfold Features.sigSchemes
    cases f.ecdsa <;> cases f.rsa <;> cases f.mldsa <;> decide
  simp only [List.forall_mem_append]
  exact ⟨⟨⟨hsuites, by decide⟩, hgroups⟩, hschemes⟩

theorem keyShares_groups (primaryPub : Block f.primaryPubLen) (opts : ClientHelloOptions f) :
    (opts.keyShares primaryPub).map Prod.fst = f.namedGroups := by
  rw [keyShares, Features.namedGroups, List.map_cons]
  cases f.secondGroup <;> rfl

theorem fields_fits (random : Block 32) (primaryPub : Block f.primaryPubLen) (h : opts.HasShares)
    (hrange : opts.InRange) (htotal : 5 + 4 + opts.bodyLen ≤ 5 + tlsPlaintextMax) :
    (opts.fields random primaryPub).Fits := by
  have hcodes := opts.codes_lt
  have hbody := body_length random primaryPub h
  simp only [tlsPlaintextMax] at htotal
  refine ⟨random.property, ?_, (by decide : 1 < 128), hcodes, ?_, ?_, ?_, by omega⟩
  · change (opts.sessionId.elim [] Subtype.val).length < 256
    cases opts.sessionId with
    | none => decide
    | some id => simp [id.property]
  · intro limit hlimit
    have hrsl := hrange.recordSizeLimit limit hlimit
    omega
  · intro names hnames name hname
    have halpn := ((hrange.alpn names hnames).2 name hname).2
    omega
  · intro share hshare
    have hgroup := List.mem_map_of_mem (f := Prod.fst) hshare
    rw [fields, keyShares_groups] at hgroup
    exact hcodes _ (List.mem_append_left _ (List.mem_append_right _ hgroup))

variable (random primaryPub opts)

/-- What is expected of the writer, whatever room it is given: it reports the size, which is at most that
of a record, and the bytes read back; or it fails for want of room, or for a documented reason. -/
structure WritesWhole : Prop where
  written : ∀ room n out, writeClientHelloWith room random primaryPub opts = .ok (n, out) →
    n = opts.clientHelloLenWith ∧ out.length = n ∧ n ≤ 5 + 2 ^ 14 ∧
      readClientHello out = some (opts.fields random primaryPub)
  refused : ∀ room e, writeClientHelloWith room random primaryPub opts = .error e →
    e = .write ∨
    e = .hostnameTooLong ∧ 0xFFFF < (opts.hostname.getD []).length ∨
    e = .recordSizeLimitOutOfRange ∧ (∃ limit ∈ opts.recordSizeLimit, limit < 64 ∨ 16385 < limit) ∨
    e = .alpnNameLen ∧ (∃ protocols ∈ opts.alpn,
      protocols = [] ∨ ∃ name ∈ protocols, name = [] ∨ 255 < name.length) ∨
    e = .messageTooLong ∧ 5 + 2 ^ 14 < 5 + 4 + opts.bodyLen

/-- The arguments are in range, and the size of the message overflows a word and leaves no more than a
record's size in it. -/
structure Wraps : Prop where
  inRange : opts.InRange
  overflow : 2 ^ f.usizeBits ≤ 5 + 4 + opts.bodyLen
  remainder : (5 + 4 + opts.bodyLen) % 2 ^ f.usizeBits ≤ 5 + 2 ^ 14

variable {random primaryPub opts}

theorem recordSizeLimit_checked :
    (opts.recordSizeLimit.all fun limit => 64 ≤ limit ∧ limit ≤ 16385) = true ↔
      ∀ limit ∈ opts.recordSizeLimit, 64 ≤ limit ∧ limit ≤ 16385 := by
  cases opts.recordSizeLimit <;> simp

theorem alpn_checked :
    (opts.alpn.all fun protocols =>
        protocols ≠ [] ∧ protocols.all fun name => name ≠ [] ∧ name.length ≤ 255) = true ↔
      ∀ protocols ∈ opts.alpn, protocols ≠ [] ∧ ∀ name ∈ protocols, name ≠ [] ∧ name.length ≤ 255 := by
  cases opts.alpn <;> simp

theorem writeClientHelloWith_inRange (random : Block 32) (primaryPub : Block f.primaryPubLen)
    (hrange : opts.InRange) (hlen : opts.clientHelloLenWith ≤ 5 + tlsPlaintextMax) (room : Nat) :
    writeClientHelloWith room random primaryPub opts =
      (writeAll .write room (opts.writes random primaryPub)).map fun out => (opts.clientHelloLenWith, out) := by
  unfold writeClientHelloWith
  simp only [ensure, if_pos hrange.hostname, if_pos (recordSizeLimit_checked.mpr hrange.recordSizeLimit),
    if_pos (alpn_checked.mpr hrange.alpn), if_pos hlen]
  exact map_eq_bind.symm

theorem writeClientHelloWith_eq_error {room : Nat} {e : ClientHelloError}
    (h : writeClientHelloWith room random primaryPub opts = .error e) :
    e = .hostnameTooLong ∧ 0xFFFF < (opts.hostname.getD []).length ∨
    e = .recordSizeLimitOutOfRange ∧ (∃ limit ∈ opts.recordSizeLimit, limit < 64 ∨ 16385 < limit) ∨
    e = .alpnNameLen ∧ (∃ protocols ∈ opts.alpn,
      protocols = [] ∨ ∃ name ∈ protocols, name = [] ∨ 255 < name.length) ∨
    e = .messageTooLong ∧ 5 + 2 ^ 14 < opts.clientHelloLenWith ∨
    opts.InRange ∧ opts.clientHelloLenWith ≤ 5 + 2 ^ 14 ∧
      writeAll .write room (opts.writes random primaryPub) = .error e := by
  unfold writeClientHelloWith at h
  rcases ensure_bind_eq_error.mp h with ⟨hhost, rfl⟩ | ⟨hhost, h⟩
  · exact .inl ⟨rfl, by omega⟩
  rcases ensure_bind_eq_error.mp h with ⟨hlimit, rfl⟩ | ⟨hlimit, h⟩
  · rw [recordSizeLimit_checked] at hlimit
    push Not at hlimit
    obtain ⟨limit, hmem, hlimit⟩ := hlimit
    exact .inr (.inl ⟨rfl, limit, hmem, by omega⟩)
  rcases ensure_bind_eq_error.mp h with ⟨halpn, rfl⟩ | ⟨halpn, h⟩
  · rw [alpn_checked] at halpn
    push Not at halpn
    obtain ⟨protocols, hmem, halpn⟩ := halpn
    refine .inr (.inr (.inl ⟨rfl, protocols, hmem, ?_⟩))
    by_cases hnil : protocols = []
    · exact .inl hnil
    · obtain ⟨name, hname, hbad⟩ := halpn hnil
      refine .inr ⟨name, hname, ?_⟩
      by_cases hempty : name = []
      · exact .inl hempty
      · exact .inr (hbad hempty)
  rcases ensure_bind_eq_error.mp h with ⟨hlen, rfl⟩ | ⟨hlen, h⟩
  · exact .inr (.inr (.inr (.inl ⟨rfl, by simpa [tlsPlaintextMax] using hlen⟩)))
  have hrange : opts.InRange :=
    ⟨hhost, recordSizeLimit_checked.mp hlimit, alpn_checked.mp halpn⟩
  refine .inr (.inr (.inr (.inr ⟨hrange, hlen, ?_⟩)))
  cases hwrites : writeAll .write room (opts.writes random primaryPub) with
  | error e' =>
    rw [hwrites] at h
    cases h
    rfl
  | ok out =>
    rw [hwrites] at h
    cases h

/-- A size that does not overflow is written as it is. -/
theorem writes_eq (random : Block 32) (primaryPub : Block f.primaryPubLen) (h : opts.HasShares)
    (hbody : opts.bodyLen < 2 ^ 16) :
    ∃ written : List Bytes, opts.writes random primaryPub = written.map .ok ∧
      written.flatten = helloRecord hsClientHello (opts.fields random primaryPub).body := by
  obtain ⟨written, hwrites, hflatten⟩ := bodyWrites_eq random primaryPub h
  have husize : 2 ^ 16 ≤ 2 ^ f.usizeBits := by
    rcases f.usizeBits_mem with h | h | h <;> rw [h] <;> decide
  have hu32 : opts.bodyLen % 2 ^ f.usizeBits % 2 ^ 32 = opts.bodyLen := by
    rw [Nat.mod_eq_of_lt (a := opts.bodyLen) (by omega)]
    exact Nat.mod_eq_of_lt (by omega)
  refine ⟨([ctHandshake] ++ toBe 2 legacyVersion ++ toBe 2 (4 + opts.bodyLen) ++ [hsClientHello]) ::
    toBe 3 opts.bodyLen :: written, ?_, ?_⟩
  · rw [writes, hwrites, hu32, writeU24, if_neg (by omega)]
    rfl
  · rw [List.flatten_cons, List.flatten_cons, hflatten, helloRecord, hsMessage, body_length random primaryPub h]
    simp only [List.append_assoc, List.cons_append, List.nil_append]

theorem size_of_not_wraps (hrange : opts.InRange) (hlen : opts.clientHelloLenWith ≤ 5 + 2 ^ 14)
    (hwraps : ¬ opts.Wraps) :
    opts.clientHelloLenWith = 5 + 4 + opts.bodyLen ∧ 5 + 4 + opts.bodyLen ≤ 5 + 2 ^ 14 := by
  have hlt : 5 + 4 + opts.bodyLen < 2 ^ f.usizeBits := by
    by_contra hover
    exact hwraps ⟨hrange, Nat.le_of_not_lt hover, hlen⟩
  have hsize : opts.clientHelloLenWith = 5 + 4 + opts.bodyLen := Nat.mod_eq_of_lt hlt
  exact ⟨hsize, hsize ▸ hlen⟩

theorem writesWhole_of_not_wraps (h : opts.HasShares) (hwraps : ¬ opts.Wraps) :
    opts.WritesWhole random primaryPub := by
  constructor
  · intro room n out hok
    simp only [writeClientHelloWith, bind_eq_ok, ensure_eq_ok] at hok
    obtain ⟨_, hhost, _, hlimit, _, halpn, _, hlen, out', hwrites, hout⟩ := hok
    cases hout
    have hrange : opts.InRange := ⟨hhost, recordSizeLimit_checked.mp hlimit, alpn_checked.mp halpn⟩
    obtain ⟨hsize, htotal⟩ := size_of_not_wraps hrange hlen hwraps
    obtain ⟨written, hmap, hflatten⟩ := writes_eq random primaryPub h (by omega)
    rw [hmap, writeAll_map_ok, hflatten] at hwrites
    split at hwrites
    · cases hwrites
      refine ⟨rfl, ?_, hlen, readClientHello_record (fields_fits random primaryPub h hrange htotal)⟩
      rw [helloRecord_length, body_length random primaryPub h, hsize]
    · cases hwrites
  · intro room e herr
    rcases writeClientHelloWith_eq_error herr with hhost | hlimit | halpn | ⟨rfl, hlen⟩ | ⟨hrange, hlen, herr⟩
    · exact .inr (.inl hhost)
    · exact .inr (.inr (.inl hlimit))
    · exact .inr (.inr (.inr (.inl halpn)))
    · exact .inr (.inr (.inr (.inr ⟨rfl, hlen.trans_le (Nat.mod_le _ _)⟩)))
    · obtain ⟨hsize, htotal⟩ := size_of_not_wraps hrange hlen hwraps
      obtain ⟨written, hmap, -⟩ := writes_eq random primaryPub h (by omega)
      rw [hmap, writeAll_map_ok] at herr
      split at herr
      · cases herr
      · cases herr
        exact .inl rfl

/-- A size that wraps into a record's passes the check. Then the length field of the handshake header is
refused, or all the bytes are written, many more than were counted. -/
theorem not_writesWhole_of_wraps (h : opts.HasShares) (hwraps : opts.Wraps) :
    ¬ opts.WritesWhole random primaryPub := by
  intro hwhole
  obtain ⟨hrange, hoverflow, hlen⟩ := hwraps
  obtain ⟨written, hwrites, hflatten⟩ := bodyWrites_eq random primaryPub h
  have hbody := body_length random primaryPub h
  rw [← hflatten] at hbody
  by_cases hu24 : opts.bodyLen % 2 ^ f.usizeBits % 2 ^ 32 > 0xFFFFFF
  · have herr : writeClientHelloWith 6 random primaryPub opts = .error .integerOverflow := by
      rw [writeClientHelloWith_inRange random primaryPub hrange hlen, writes, writeU24, if_pos hu24]
      rfl
    have hrefused := hwhole.refused 6 _ herr
    simp at hrefused
  · let pieces : List Bytes := ([ctHandshake] ++ toBe 2 legacyVersion ++ toBe 2 (4 + opts.bodyLen) ++
      [hsClientHello]) :: toBe 3 (opts.bodyLen % 2 ^ f.usizeBits % 2 ^ 32) :: written
    have hmap : opts.writes random primaryPub = pieces.map .ok := by
      rw [writes, hwrites, writeU24, if_neg hu24]
      rfl
    have hsize : pieces.flatten.length = 5 + 4 + opts.bodyLen := by
      simp only [pieces, List.flatten_cons, List.length_append, List.length_cons, List.length_nil,
        toBe_length, hbody]
      omega
    have hok : writeClientHelloWith (5 + 4 + opts.bodyLen) random primaryPub opts =
        .ok (opts.clientHelloLenWith, pieces.flatten) := by
      rw [writeClientHelloWith_inRange random primaryPub hrange hlen, hmap, writeAll_map_ok,
        if_pos hsize.le]
      rfl
    obtain ⟨-, hcount, -⟩ := hwhole.written _ _ _ hok
    have hlt : opts.clientHelloLenWith < 2 ^ f.usizeBits := Nat.mod_lt _ (Nat.two_pow_pos _)
    omega

/-- Sizer and writer agree exactly on the options whose size does not wrap into a record's. -/
theorem writesWhole_iff (random : Block 32) (primaryPub : Block f.primaryPubLen)
    (opts : ClientHelloOptions f) (h : opts.HasShares) :
    opts.WritesWhole random primaryPub ↔ ¬ opts.Wraps :=
  ⟨fun hwhole hwraps => not_writesWhole_of_wraps h hwraps hwhole, writesWhole_of_not_wraps h⟩

end ClientHelloOptions

namespace Sample

def narrowFeatures : Features := { Features.standard with usizeBits := 16, usizeBits_mem := Features.sixteen_mem }

def longName : Block 255 := Block.zeros 255

/-- A list of `count` protocol names of the greatest length. -/
def alpnOptions (f : Features) (count : Nat) : ClientHelloOptions f where
  hostname := none
  recordSizeLimit := none
  sessionId := none
  alpn := some (List.replicate count longName.val)
  suites := .default
  mlkemEk := none
  p256Pub := none
  suites_enabled := ⟨nofun, nofun⟩

theorem alpnOptions_inRange (f : Features) {count : Nat} (hcount : 0 < count) :
    (alpnOptions f count).InRange := by
  refine ⟨Nat.zero_le _, nofun, ?_⟩
  rintro protocols ⟨⟩
  refine ⟨List.ne_nil_of_length_pos (by rwa [List.length_replicate]), fun name hname => ?_⟩
  have hname : name.length = 255 := by
    rw [List.eq_of_mem_replicate hname, longName.property]
  exact ⟨List.ne_nil_of_length_pos (by omega), by omega⟩

theorem alpnOptions_bodyLen (f : Features) (count : Nat) :
    (alpnOptions f count).bodyLen =
      39 + (2 + 2 * f.cipherSuitesCount) + (f.extensionsFixedTotal + (6 + count * 256)) := by
  have hnames : alpnNamesLen (List.replicate count longName.val) = count * 256 := by
    rw [alpnNamesLen, List.map_replicate, List.sum_replicate_nat, longName.property]
  have halpn : alpnExtTotal (alpnOptions f count).alpn = 6 + count * 256 := by
    rw [alpnOptions, alpnExtTotal, hnames]
  rw [ClientHelloOptions.bodyLen, ClientHelloOptions.extensionsTotal, halpn]
  simp only [alpnOptions, ClientHelloOptions.nSuites, Option.elim_none, Option.isSome_none, Bool.false_eq_true,
    if_false]
  omega

end Sample

theorem writesWhole_two_names :
    (Sample.alpnOptions Features.standard 2).WritesWhole (Block.zeros _) (Block.zeros _) := by
  have hbody : (Sample.alpnOptions Features.standard 2).bodyLen = 626 :=
    Sample.alpnOptions_bodyLen Features.standard 2
  have hshares : (Sample.alpnOptions Features.standard 2).HasShares := ⟨nofun, nofun⟩
  refine (ClientHelloOptions.writesWhole_iff _ _ _ hshares).mpr fun hwraps => ?_
  have hoverflow := hwraps.overflow
  rw [hbody] at hoverflow
  exact absurd hoverflow (by decide)

/-- 256 names take 65536 bytes, which a 16-bit size does not see. -/
theorem not_writesWhole_256_names :
    ¬ (Sample.alpnOptions Sample.narrowFeatures 256).WritesWhole (Block.zeros _) (Block.zeros _) := by
  have hbody : (Sample.alpnOptions Sample.narrowFeatures 256).bodyLen = 65650 :=
    Sample.alpnOptions_bodyLen Sample.narrowFeatures 256
  refine ClientHelloOptions.not_writesWhole_of_wraps ⟨nofun, nofun⟩
    ⟨Sample.alpnOptions_inRange _ (by decide), ?_, ?_⟩
  · rw [hbody]
    decide
  · rw [hbody]
    decide

end KrabiTls
