import KrabiTls.Lib.Entries
import KrabiTls.Messages

/-! The grammar of the plaintext `ServerHello` record. -/
namespace KrabiTls
open Lib

def Features.serverShareLen (f : Features) (group : Nat) : Nat :=
  if group = f.keyShareGroup then
    if f.mlkem then mlkem768CtBytes + 32 else if f.x25519Kx then 32 else p256ShareBytes
  else p256ShareBytes

/-- The groups a `ClientHello` offers a share of. -/
def Features.Offers (f : Features) (group : Nat) : Prop :=
  group = f.keyShareGroup ∨ f.secondGroup = true ∧ group = namedGroupSecp256r1

/-- The parts of a `ServerHello` that vary. -/
structure ServerHelloMessage where
  random : Block 32
  sessionId : Bytes
  suite : Nat
  group : Nat
  key : Bytes
  /-- the order of the two extensions -/
  shareFirst : Bool

namespace ServerHelloMessage
variable (m : ServerHelloMessage)

def supportedVersions : Bytes :=
  toBe 2 extSupportedVersions ++ prefixed 2 (toBe 2 tls13)

def keyShare (group : Nat) (key : Bytes) : Bytes :=
  toBe 2 extKeyShare ++ prefixed 2 (toBe 2 group ++ prefixed 2 key)

def extensions : Bytes :=
  if m.shareFirst then keyShare m.group m.key ++ supportedVersions
  else supportedVersions ++ keyShare m.group m.key

def body : Bytes :=
  toBe 2 legacyVersion ++ (m.random.val ++ (prefixed 1 m.sessionId ++ (toBe 2 m.suite ++
    (0 :: prefixed 2 m.extensions))))

def record : Bytes :=
  ctHandshake :: (toBe 2 legacyVersion ++ prefixed 2 (hsServerHello :: prefixed 3 m.body))

theorem extensions_length : m.extensions.length = 14 + m.key.length := by
  unfold extensions supportedVersions keyShare
  split <;> simp <;> omega

theorem body_length : m.body.length = 54 + m.sessionId.length + m.key.length := by
  simp [body, m.random.property, m.extensions_length]
  omega

theorem record_length : m.record.length = 63 + m.sessionId.length + m.key.length := by
  simp [record, m.body_length]
  omega

variable (f : Features)

/-- What the locked profile asks of the parts. -/
structure Conforms : Prop where
  notRetryRequest : m.random.val ≠ hrrRandom
  notDowngraded : m.random.val.drop 24 ≠ downgradeTls12 ∧ m.random.val.drop 24 ≠ downgradeTls11OrBelow
  sessionId : m.sessionId.length ≤ 32
  suite : m.suite = cipherAes128GcmSha256 ∨ f.chacha20 = true ∧ m.suite = cipherChaCha20Poly1305Sha256
  group : f.Offers m.group
  key : m.key.length = f.serverShareLen m.group

/-- The fields as the parser hands them out: the share is listed under its group. -/
def view : ServerHelloView where
  random := m.random.val
  sessionIdEcho := m.sessionId
  cipherSuite := m.suite
  selectedVersion := tls13
  selectedGroup := m.group
  x25519Share :=
    if m.group = f.keyShareGroup ∧ f.x25519Kx then
      some (if f.mlkem then m.key.drop mlkem768CtBytes else m.key)
    else none
  hybridShare := if m.group = f.keyShareGroup ∧ f.mlkem then some m.key else none
  p256Share := if m.group = f.keyShareGroup ∧ f.x25519Kx then none else some m.key

end ServerHelloMessage

namespace HelloExtensions
variable {f : Features} {x x' : HelloExtensions} {group extType : Nat} {key extData : Bytes}

def withVersion (x : HelloExtensions) : HelloExtensions := { x with selectedVersion := some tls13 }

def withShare (f : Features) (x : HelloExtensions) (group : Nat) (key : Bytes) : HelloExtensions :=
  if group = f.keyShareGroup ∧ f.x25519Kx then
    if f.mlkem then
      { x with
        selectedGroup := some group
        x25519Share := some (key.drop mlkem768CtBytes)
        hybridShare := some key }
    else { x with selectedGroup := some group, x25519Share := some key }
  else { x with selectedGroup := some group, p256Share := some key }

theorem shareOfLen_bind_eq_ok {n : Nat} {set : Bytes → HelloExtensions} :
    (∃ x₁, (shareOfLen key n >>= fun point => pure (set point)) = .ok x₁ ∧
        { x₁ with selectedGroup := some group } = x') ↔
      key.length = n ∧ x' = { set key with selectedGroup := some group } := by
  unfold shareOfLen
  split
  · rename_i hlen
    constructor
    · rintro ⟨x₁, h, rfl⟩
      cases h
      exact ⟨hlen, rfl⟩
    · rintro ⟨-, rfl⟩
      exact ⟨_, rfl, rfl⟩
  · rename_i hlen
    constructor
    · rintro ⟨x₁, h, -⟩
      cases h
    · exact fun h => absurd h.1 hlen

/-- A share is taken in the groups on offer, at their length. -/
theorem addShare_eq_ok_iff :
    (∃ x₁, x.addShare f group key = .ok x₁ ∧ { x₁ with selectedGroup := some group } = x') ↔
      f.Offers group ∧ key.length = f.serverShareLen group ∧ x' = withShare f x group key := by
  by_cases hgroup : group = f.keyShareGroup
  · rw [and_iff_right (show f.Offers group from .inl hgroup)]
    by_cases hmlkem : f.mlkem = true
    · have hx25519 := f.mlkem_x25519 hmlkem
      simp only [addShare, Features.serverShareLen, withShare, hgroup, hmlkem, hx25519, and_self,
        ↓reduceIte]
      constructor
      · rintro ⟨x₁, h, hx'⟩
        obtain ⟨hlen, h⟩ := throwIf_eq_ok.mp h
        obtain ⟨hpoint, rfl⟩ := shareOfLen_bind_eq_ok.mp ⟨x₁, h, hx'⟩
        rw [List.length_drop] at hpoint
        exact ⟨by omega, rfl⟩
      · rintro ⟨hlen, rfl⟩
        have hpoint : (key.drop mlkem768CtBytes).length = 32 := by
          rw [List.length_drop]
          omega
        obtain ⟨x₁, h, hx'⟩ := shareOfLen_bind_eq_ok.mpr ⟨hpoint, rfl⟩
        exact ⟨x₁, throwIf_eq_ok.mpr ⟨by omega, h⟩, hx'⟩
    · by_cases hx25519 : f.x25519Kx = true
      · simp only [addShare, Features.serverShareLen, withShare, hgroup, hmlkem, hx25519, and_self,
          Bool.false_eq_true, ↓reduceIte]
        exact shareOfLen_bind_eq_ok
      · simp only [addShare, Features.serverShareLen, withShare, hgroup, hmlkem, hx25519, and_false,
          Bool.false_eq_true, ↓reduceIte]
        exact shareOfLen_bind_eq_ok
  · by_cases hsecond : f.p256Kx = true ∧ f.x25519Kx = true ∧ group = namedGroupSecp256r1
    · have hoffers : f.Offers group :=
        .inr ⟨by rw [Features.secondGroup, hsecond.1, hsecond.2.1]; rfl, hsecond.2.2⟩
      rw [and_iff_right hoffers]
      simp only [addShare, Features.serverShareLen, withShare, if_pos hsecond, hgroup, false_and,
        ↓reduceIte]
      exact shareOfLen_bind_eq_ok
    · simp only [addShare, if_neg hgroup, if_neg hsecond, reduceCtorEq, false_and, exists_false,
        false_iff]
      rintro ⟨hprimary | ⟨hboth, hsecp⟩, -⟩
      · exact hgroup hprimary
      · obtain ⟨hp256, hx25519⟩ := Bool.and_eq_true_iff.mp hboth
        exact hsecond ⟨hp256, hx25519, hsecp⟩

/-- The two extensions that are taken, each once. -/
theorem add_eq_ok_iff :
    x.add f extType extData = .ok x' ↔
      (extType = extSupportedVersions ∧ x.selectedVersion = none ∧ extData = toBe 2 tls13 ∧
        x' = x.withVersion) ∨
      (extType = extKeyShare ∧ x.selectedGroup = none ∧ ∃ group key,
        (extData = toBe 2 group ++ prefixed 2 key ∧ group < 2 ^ 16 ∧ key.length < 2 ^ 16) ∧
          f.Offers group ∧ key.length = f.serverShareLen group ∧ x' = withShare f x group key) := by
  have hne : extSupportedVersions ≠ extKeyShare := by decide
  have hnone {α : Type} {o : Option α} : ¬ o.isSome = true ↔ o = none := by simp
  by_cases htype : extType = extSupportedVersions
  · simp only [add, htype, ↓reduceIte, hne, true_and, false_and, or_false]
    constructor
    · intro h
      split at h
      · cases h
      split at h
      · cases h
      split at h
      · cases h
      rename_i hfirst hlen hvalue
      cases h
      rw [not_not] at hlen hvalue
      exact ⟨hnone.mp hfirst, by rw [← hvalue, toBe_ofBe_of_length hlen], by rw [withVersion, hvalue]⟩
    · rintro ⟨hfirst, rfl, rfl⟩
      have hvalue : ofBe (toBe 2 tls13) = tls13 := by decide
      simp [hfirst, hvalue, withVersion]
  · by_cases hshare : extType = extKeyShare
    · simp only [add, hshare, hne.symm, ↓reduceIte, false_and, false_or, true_and]
      split
      · rename_i hagain
        simp [Option.isSome_iff_ne_none.mp hagain]
      · rename_i hfirst
        rw [and_iff_right (hnone.mp hfirst)]
        constructor
        · intro h
          obtain ⟨⟨group, kr⟩, hgroup, h⟩ := bind_eq_ok.mp h
          obtain ⟨⟨key, kr'⟩, hkey, h⟩ := bind_eq_ok.mp h
          obtain ⟨hend, h⟩ := throwIf_eq_ok.mp h
          obtain ⟨x₁, hadd, h⟩ := bind_eq_ok.mp h
          cases h
          rw [not_not] at hend
          subst hend
          obtain ⟨rfl, hgroupLt⟩ := Reader.uint_eq_ok_iff.mp hgroup
          obtain ⟨rfl, hkeyLt⟩ := Reader.vec_eq_ok_iff.mp hkey
          exact ⟨group, key, ⟨by rw [List.append_nil], hgroupLt, hkeyLt⟩,
            addShare_eq_ok_iff.mp ⟨x₁, hadd, rfl⟩⟩
        · rintro ⟨group, key, ⟨rfl, hgroupLt, hkeyLt⟩, hshare⟩
          obtain ⟨x₁, hadd, rfl⟩ := addShare_eq_ok_iff.mpr hshare
          refine bind_eq_ok.mpr ⟨_, Reader.uint_eq_ok_iff.mpr ⟨rfl, hgroupLt⟩, ?_⟩
          refine bind_eq_ok.mpr ⟨_, Reader.vec_eq_ok_iff.mpr ⟨(List.append_nil _).symm, hkeyLt⟩, ?_⟩
          exact throwIf_eq_ok.mpr ⟨not_not_intro rfl, bind_eq_ok.mpr ⟨x₁, hadd, rfl⟩⟩
    · simp [add, htype, hshare]

@[simp] theorem withVersion_selectedGroup : x.withVersion.selectedGroup = x.selectedGroup := rfl

@[simp] theorem withVersion_selectedVersion : x.withVersion.selectedVersion = some tls13 := rfl

@[simp] theorem withShare_selectedGroup : (withShare f x group key).selectedGroup = some group := by
  unfold withShare
  repeat' split
  all_goals rfl

@[simp] theorem withShare_selectedVersion :
    (withShare f x group key).selectedVersion = x.selectedVersion := by
  unfold withShare
  repeat' split
  all_goals rfl

theorem withShare_primary (h : group = f.keyShareGroup) :
    (f.x25519Kx = true → (withShare f x group key).x25519Share ≠ none) ∧
      (¬ f.x25519Kx = true → (withShare f x group key).p256Share ≠ none) := by
  unfold withShare
  constructor
  · intro hx25519
    rw [if_pos ⟨h, hx25519⟩]
    split <;> exact Option.some_ne_none _
  · intro hx25519
    rw [if_neg (hx25519 ·.2)]
    exact Option.some_ne_none _

theorem withShare_withVersion : withShare f x.withVersion group key = (withShare f x group key).withVersion := by
  unfold withShare
  repeat' split
  all_goals rfl

end HelloExtensions

section Extensions
variable {f : Features} {r rest : Reader} {x x' : HelloExtensions}

theorem nextExtension_encode (e : Entry) (rest : Bytes) :
    nextExtension (e.encode ++ rest) = .ok (some (e.tag, e.data, rest)) := by
  have hne : e.encode ++ rest ≠ [] :=
    List.ne_nil_of_length_pos (by rw [List.length_append, e.encode_length]; omega)
  have hbytes : e.encode ++ rest = toBe 2 e.tag ++ (prefixed 2 e.data ++ rest) := by
    rw [Entry.encode_eq, List.append_assoc]
  rw [nextExtension, if_neg hne, hbytes]
  exact bind_eq_ok.mpr ⟨_, Reader.uint_eq_ok_iff.mpr ⟨rfl, e.tag_lt⟩,
    bind_eq_ok.mpr ⟨_, Reader.vec_eq_ok_iff.mpr ⟨rfl, e.data_lt⟩, rfl⟩⟩

theorem nextExtension_eq_some {extType : Nat} {extData : Bytes}
    (h : nextExtension r = .ok (some (extType, extData, rest))) :
    ∃ e : Entry, e.tag = extType ∧ e.data = extData ∧ r = e.encode ++ rest := by
  unfold nextExtension at h
  split at h
  · cases h
  · obtain ⟨⟨t, r₁⟩, htype, h⟩ := bind_eq_ok.mp h
    obtain ⟨⟨d, r₂⟩, hdata, h⟩ := bind_eq_ok.mp h
    cases h
    obtain ⟨hr, htypeLt⟩ := Reader.uint_eq_ok_iff.mp htype
    obtain ⟨hr₁, hdataLt⟩ := Reader.vec_eq_ok_iff.mp hdata
    refine ⟨⟨extType, extData, htypeLt, hdataLt⟩, rfl, rfl, ?_⟩
    rw [hr, hr₁, Entry.encode_eq, List.append_assoc]

theorem nextExtension_eq_none (h : nextExtension r = .ok none) : r = [] := by
  unfold nextExtension at h
  split at h
  · assumption
  · obtain ⟨_, -, h⟩ := bind_eq_ok.mp h
    obtain ⟨_, -, h⟩ := bind_eq_ok.mp h
    cases h

/-- The extension block is a sequence of entries, taken one after the other. -/
theorem helloExtensionLoop_eq_ok_iff :
    (helloExtensionLoop f).run (r, x) = .ok x' ↔
      ∃ entries : List Entry, r = entries.flatMap Entry.encode ∧
        entries.foldlM (fun x e => x.add f e.tag e.data) x = .ok x' := by
  constructor
  · refine Loop.run_induct (l := helloExtensionLoop f)
      (fun s => ∃ front : List Entry, r = front.flatMap Entry.encode ++ s.1 ∧
        front.foldlM (fun x e => x.add f e.tag e.data) x = .ok s.2)
      (fun result => result = .ok x' → _) ?_ ?_ (r, x) ⟨[], rfl, rfl⟩
    · rintro ⟨rest, y⟩ t ⟨front, hr, hfold⟩ hbody
      dsimp only [helloExtensionLoop] at hbody hr hfold
      split at hbody
      · cases hbody
      · cases hbody
      · rename_i hnext
        split at hbody
        · cases hbody
        · rename_i hadd
          cases hbody
          obtain ⟨e, rfl, rfl, hrest⟩ := nextExtension_eq_some hnext
          refine ⟨front ++ [e], ?_, ?_⟩
          · rw [hr, hrest, List.flatMap_append, List.flatMap_singleton, List.append_assoc]
          · rw [List.foldlM_append]
            exact bind_eq_ok.mpr ⟨y, hfold, bind_eq_ok.mpr ⟨_, hadd, rfl⟩⟩
    · rintro ⟨rest, y⟩ result ⟨front, hr, hfold⟩ hbody rfl
      dsimp only [helloExtensionLoop] at hbody hr hfold
      split at hbody
      · cases hbody
      · rename_i hnext
        cases hbody
        rw [nextExtension_eq_none hnext, List.append_nil] at hr
        exact ⟨front, hr, hfold⟩
      · split at hbody <;> cases hbody
  · rintro ⟨entries, rfl, hfold⟩
    induction entries generalizing x with
    | nil =>
      cases hfold
      exact Loop.run_of_leave rfl
    | cons e entries ih =>
      rw [List.foldlM_cons] at hfold
      obtain ⟨x₁, hadd, hfold⟩ := bind_eq_ok.mp hfold
      rw [List.flatMap_cons]
      refine (Loop.run_of_again ?_).trans (ih hfold)
      simp only [helloExtensionLoop, nextExtension_encode, hadd]

open ServerHelloMessage

theorem add_entry {e : Entry} (h : x.add f e.tag e.data = .ok x') :
    (x.selectedVersion = none ∧ e.encode = supportedVersions ∧ x' = x.withVersion) ∨
      (x.selectedGroup = none ∧ ∃ group key, f.Offers group ∧ key.length = f.serverShareLen group ∧
        e.encode = keyShare group key ∧ x' = HelloExtensions.withShare f x group key) := by
  obtain ⟨htype, hfirst, hdata, rfl⟩ | ⟨htype, hfirst, group, key, ⟨hdata, -⟩, hoffers, hkey, rfl⟩ :=
    HelloExtensions.add_eq_ok_iff.mp h
  · exact .inl ⟨hfirst, by rw [Entry.encode_eq, htype, hdata, supportedVersions], rfl⟩
  · exact .inr ⟨hfirst, group, key, hoffers, hkey,
      by rw [Entry.encode_eq, htype, hdata, keyShare], rfl⟩

/-- A block with both extensions has each once and nothing else. -/
theorem helloExtensionLoop_both {group version : Nat} (h : (helloExtensionLoop f).run (r, {}) = .ok x)
    (hgroup : x.selectedGroup = some group) (hversion : x.selectedVersion = some version) :
    ∃ (key : Bytes) (shareFirst : Bool), f.Offers group ∧ key.length = f.serverShareLen group ∧
      r = (if shareFirst then keyShare group key ++ supportedVersions
        else supportedVersions ++ keyShare group key) ∧
      x = (HelloExtensions.withShare f {} group key).withVersion := by
  obtain ⟨entries, rfl, hfold⟩ := helloExtensionLoop_eq_ok_iff.mp h
  match entries with
  | [] =>
    cases hfold
    cases hgroup
  | e₁ :: later =>
    rw [List.foldlM_cons] at hfold
    obtain ⟨x₁, hadd₁, hfold⟩ := bind_eq_ok.mp hfold
    match later with
    | [] =>
      cases hfold
      -- one extension leaves the other one out
      obtain ⟨-, -, rfl⟩ | ⟨-, group', key, -, -, -, rfl⟩ := add_entry hadd₁
      · cases hgroup
      · simp at hversion
    | e₂ :: later =>
      rw [List.foldlM_cons] at hfold
      obtain ⟨x₂, hadd₂, hfold⟩ := bind_eq_ok.mp hfold
      have hboth : x₂.selectedVersion ≠ none ∧ x₂.selectedGroup ≠ none ∧
          ∃ group key, ∃ shareFirst : Bool, f.Offers group ∧ key.length = f.serverShareLen group ∧
            e₁.encode ++ e₂.encode = (if shareFirst then keyShare group key ++ supportedVersions
              else supportedVersions ++ keyShare group key) ∧
            x₂ = (HelloExtensions.withShare f {} group key).withVersion := by
        obtain ⟨-, he₁, rfl⟩ | ⟨-, group', key, hoffers, hkey, he₁, rfl⟩ := add_entry hadd₁ <;>
          obtain ⟨hfirst, he₂, rfl⟩ | ⟨hfirst, group'', key', hoffers', hkey', he₂, rfl⟩ := add_entry hadd₂
        · cases hfirst
        · refine ⟨by simp, by simp, group'', key', false, hoffers', hkey', ?_,
            HelloExtensions.withShare_withVersion⟩
          rw [he₁, he₂]
          rfl
        · refine ⟨by simp, by simp, group', key, true, hoffers, hkey, ?_, rfl⟩
          rw [he₁, he₂]
          rfl
        · simp at hfirst
      obtain ⟨hversionSet, hgroupSet, group', key, shareFirst, hoffers, hkey, hbytes, hx₂⟩ := hboth
      match later with
      | [] =>
        cases hfold
        rw [hx₂, HelloExtensions.withVersion_selectedGroup, HelloExtensions.withShare_selectedGroup,
          Option.some.injEq] at hgroup
        subst hgroup
        exact ⟨key, shareFirst, hoffers, hkey, by simpa using hbytes, hx₂⟩
      | e₃ :: later =>
        -- a third one repeats one of the two
        rw [List.foldlM_cons] at hfold
        obtain ⟨x₃, hadd₃, -⟩ := bind_eq_ok.mp hfold
        obtain ⟨hfirst, -⟩ | ⟨hfirst, -⟩ := add_entry hadd₃
        · exact absurd hfirst hversionSet
        · exact absurd hfirst hgroupSet

theorem Features.Offers.lt {group : Nat} (h : f.Offers group) : group < 2 ^ 16 := by
  obtain rfl | ⟨-, rfl⟩ := h
  · unfold keyShareGroup
    repeat' split
    all_goals decide
  · decide

theorem Features.serverShareLen_lt (f : Features) (group : Nat) : f.serverShareLen group < 2 ^ 15 := by
  unfold serverShareLen mlkem768CtBytes p256ShareBytes
  repeat' split
  all_goals decide

/-- Both orders of the two extensions are taken. -/
theorem helloExtensionLoop_extensions {m : ServerHelloMessage} (h : m.Conforms f) :
    (helloExtensionLoop f).run (m.extensions, {}) =
      .ok (HelloExtensions.withShare f {} m.group m.key).withVersion := by
  have hkeyLt : m.key.length < 2 ^ 15 := h.key ▸ f.serverShareLen_lt m.group
  let versions : Entry := ⟨extSupportedVersions, toBe 2 tls13, by decide, by decide⟩
  let share : Entry := ⟨extKeyShare, toBe 2 m.group ++ prefixed 2 m.key, by decide, by
    rw [List.length_append, toBe_length, prefixed_length]
    omega⟩
  have hversions (x : HelloExtensions) (hfirst : x.selectedVersion = none) :
      x.add f versions.tag versions.data = .ok x.withVersion :=
    HelloExtensions.add_eq_ok_iff.mpr (.inl ⟨rfl, hfirst, rfl, rfl⟩)
  have hshare (x : HelloExtensions) (hfirst : x.selectedGroup = none) :
      x.add f share.tag share.data = .ok (HelloExtensions.withShare f x m.group m.key) :=
    HelloExtensions.add_eq_ok_iff.mpr (.inr ⟨rfl, hfirst, m.group, m.key,
      ⟨rfl, h.group.lt, by omega⟩, h.group, h.key, rfl⟩)
  rw [helloExtensionLoop_eq_ok_iff]
  cases horder : m.shareFirst with
  | false =>
    refine ⟨[versions, share], ?_, ?_⟩
    · simp [extensions, horder, Entry.encode_eq, versions, share, supportedVersions, keyShare]
    · refine bind_eq_ok.mpr ⟨_, hversions _ rfl, bind_eq_ok.mpr ⟨_, hshare _ rfl, ?_⟩⟩
      rw [HelloExtensions.withShare_withVersion]
      rfl
  | true =>
    refine ⟨[share, versions], ?_, ?_⟩
    · simp [extensions, horder, Entry.encode_eq, versions, share, supportedVersions, keyShare]
    · exact bind_eq_ok.mpr ⟨_, hshare _ rfl, bind_eq_ok.mpr ⟨_, hversions _ (by simp), rfl⟩⟩

end Extensions

namespace ServerHelloMessage
variable {f : Features} {m : ServerHelloMessage}

theorem view_eq (f : Features) (m : ServerHelloMessage) :
    let x := (HelloExtensions.withShare f {} m.group m.key).withVersion
    m.view f = {
      random := m.random.val, sessionIdEcho := m.sessionId, cipherSuite := m.suite
      selectedVersion := tls13, selectedGroup := m.group, x25519Share := x.x25519Share
      hybridShare := x.hybridShare, p256Share := x.p256Share } := by
  have hmlkem := f.mlkem_x25519
  unfold view HelloExtensions.withShare HelloExtensions.withVersion
  by_cases hprimary : m.group = f.keyShareGroup ∧ f.x25519Kx = true
  · by_cases hhybrid : f.mlkem = true
    · simp only [hprimary, hhybrid, and_self, ↓reduceIte]
    · simp only [hprimary, hhybrid, and_self, and_false, Bool.false_eq_true, ↓reduceIte]
  · have hother : ¬ (m.group = f.keyShareGroup ∧ f.mlkem = true) :=
      fun h => hprimary ⟨h.1, hmlkem h.2⟩
    simp only [if_neg hprimary, if_neg hother]

theorem parseServerHello_record (h : m.Conforms f) : parseServerHello f m.record = .ok (m.view f) := by
  have hkeyLt : m.key.length < 2 ^ 15 := h.key ▸ f.serverShareLen_lt m.group
  have hid := h.sessionId
  have hextensions := m.extensions_length
  have hbody := m.body_length
  have hsuite : m.suite < 256 ^ 2 := by
    obtain h | ⟨-, h⟩ := h.suite <;> rw [h] <;> decide
  have hvec {n : Nat} {b : Bytes} (hb : b.length < 256 ^ n) : Reader.vec (prefixed n b) n = .ok (b, []) :=
    Reader.vec_eq_ok_iff.mpr ⟨(List.append_nil _).symm, hb⟩
  unfold parseServerHello record
  refine bind_eq_ok.mpr ⟨_, Reader.u8_cons _ _, throwIf_eq_ok.mpr ⟨not_not_intro rfl, ?_⟩⟩
  refine bind_eq_ok.mpr ⟨_, Reader.uint_toBe (by decide) _, throwIf_eq_ok.mpr ⟨not_not_intro rfl, ?_⟩⟩
  refine bind_eq_ok.mpr ⟨_, hvec ?_, throwIf_eq_ok.mpr ⟨not_not_intro rfl, ?_⟩⟩
  · rw [List.length_cons, prefixed_length]
    omega
  refine bind_eq_ok.mpr ⟨_, Reader.u8_cons _ _, throwIf_eq_ok.mpr ⟨not_not_intro rfl, ?_⟩⟩
  refine bind_eq_ok.mpr ⟨_, hvec (by omega), throwIf_eq_ok.mpr ⟨not_not_intro rfl, ?_⟩⟩
  refine bind_eq_ok.mpr ⟨_, Reader.uint_toBe (by decide) _, throwIf_eq_ok.mpr ⟨not_not_intro rfl, ?_⟩⟩
  refine bind_eq_ok.mpr ⟨_, Reader.take_eq_ok_iff.mpr ⟨rfl, m.random.property⟩,
    throwIf_eq_ok.mpr ⟨h.notRetryRequest, throwIf_eq_ok.mpr ⟨not_or.mpr h.notDowngraded, ?_⟩⟩⟩
  refine bind_eq_ok.mpr ⟨_, Reader.vec_eq_ok_iff.mpr ⟨rfl, by omega⟩,
    throwIf_eq_ok.mpr ⟨not_lt_of_ge hid, ?_⟩⟩
  refine bind_eq_ok.mpr ⟨_, Reader.uint_toBe hsuite _,
    throwIf_eq_ok.mpr ⟨not_not_intro h.suite, ?_⟩⟩
  refine bind_eq_ok.mpr ⟨_, Reader.u8_cons _ _, throwIf_eq_ok.mpr ⟨not_not_intro rfl, ?_⟩⟩
  refine bind_eq_ok.mpr ⟨_, hvec (by omega), throwIf_eq_ok.mpr ⟨not_not_intro rfl, ?_⟩⟩
  refine bind_eq_ok.mpr ⟨_, helloExtensionLoop_extensions h, ?_⟩
  rw [HelloExtensions.withVersion_selectedGroup, HelloExtensions.withShare_selectedGroup]
  refine throwIf_eq_ok.mpr ⟨?_, throwIf_eq_ok.mpr ⟨?_, ?_⟩⟩
  · rintro ⟨hx25519, hprimary, hnone⟩
    exact (HelloExtensions.withShare_primary hprimary).1 hx25519 hnone
  · rintro ⟨hx25519, hprimary, hnone⟩
    exact (HelloExtensions.withShare_primary hprimary).2 hx25519 hnone
  · rw [HelloExtensions.withVersion_selectedVersion, view_eq]
    rfl

end ServerHelloMessage

/-- The parser accepts the records of the grammar and no other bytes. -/
theorem parseServerHello_eq_ok_iff {f : Features} {input : Bytes} {sh : ServerHelloView} :
    parseServerHello f input = .ok sh ↔
      ∃ m : ServerHelloMessage, m.Conforms f ∧ input = m.record ∧ sh = m.view f := by
  constructor
  · intro h
    unfold parseServerHello at h
    obtain ⟨⟨contentType, r⟩, htype, h⟩ := bind_eq_ok.mp h
    obtain ⟨hct, h⟩ := throwIf_eq_ok.mp h
    obtain ⟨⟨recordVersion, r₁⟩, hversion, h⟩ := bind_eq_ok.mp h
    obtain ⟨hrecordVersion, h⟩ := throwIf_eq_ok.mp h
    obtain ⟨⟨recordBody, r₂⟩, hbody, h⟩ := bind_eq_ok.mp h
    obtain ⟨hend, h⟩ := throwIf_eq_ok.mp h
    obtain ⟨⟨hsType, hr⟩, hhsType, h⟩ := bind_eq_ok.mp h
    obtain ⟨hhello, h⟩ := throwIf_eq_ok.mp h
    obtain ⟨⟨hsBody, hr₁⟩, hmsg, h⟩ := bind_eq_ok.mp h
    obtain ⟨hhsEnd, h⟩ := throwIf_eq_ok.mp h
    obtain ⟨⟨legacy, b⟩, hlegacy, h⟩ := bind_eq_ok.mp h
    obtain ⟨hlegacyVersion, h⟩ := throwIf_eq_ok.mp h
    obtain ⟨⟨random, b₁⟩, hrandom, h⟩ := bind_eq_ok.mp h
    obtain ⟨hretry, h⟩ := throwIf_eq_ok.mp h
    obtain ⟨hdowngrade, h⟩ := throwIf_eq_ok.mp h
    obtain ⟨⟨echo, b₂⟩, hecho, h⟩ := bind_eq_ok.mp h
    obtain ⟨hechoLen, h⟩ := throwIf_eq_ok.mp h
    obtain ⟨⟨suite, b₃⟩, hsuite, h⟩ := bind_eq_ok.mp h
    obtain ⟨hsupported, h⟩ := throwIf_eq_ok.mp h
    obtain ⟨⟨compression, b₄⟩, hcompression, h⟩ := bind_eq_ok.mp h
    obtain ⟨hnull, h⟩ := throwIf_eq_ok.mp h
    obtain ⟨⟨extBody, b₅⟩, hext, h⟩ := bind_eq_ok.mp h
    obtain ⟨hextEnd, h⟩ := throwIf_eq_ok.mp h
    obtain ⟨x, hwalk, h⟩ := bind_eq_ok.mp h
    split at h
    · rename_i group hgroup
      obtain ⟨-, h⟩ := throwIf_eq_ok.mp h
      obtain ⟨-, h⟩ := throwIf_eq_ok.mp h
      split at h
      · rename_i version hselected
        cases h
        obtain ⟨key, shareFirst, hoffers, hkey, hextBody, hx⟩ :=
          helloExtensionLoop_both hwalk hgroup hselected
        rw [not_not] at hct hrecordVersion hend hhello hhsEnd hlegacyVersion hsupported hnull hextEnd
        subst hct hrecordVersion hend hhello hhsEnd hlegacyVersion hnull hextEnd
        obtain ⟨hr, hrandomLen⟩ := Reader.take_eq_ok_iff.mp hrandom
        let m : ServerHelloMessage := ⟨⟨random, hrandomLen⟩, echo, suite, group, key, shareFirst⟩
        have hextensions : extBody = m.extensions := hextBody
        have hhsBody : hsBody = m.body := by
          rw [(Reader.uint_eq_ok_iff.mp hlegacy).1, hr, (Reader.vec_eq_ok_iff.mp hecho).1,
            (Reader.uint_eq_ok_iff.mp hsuite).1, Reader.u8_eq_ok_iff.mp hcompression,
            (Reader.vec_eq_ok_iff.mp hext).1, hextensions, List.append_nil]
          rfl
        refine ⟨m, ⟨hretry, not_or.mp hdowngrade, not_lt.mp hechoLen, hsupported, hoffers, hkey⟩, ?_, ?_⟩
        · rw [Reader.u8_eq_ok_iff.mp htype, (Reader.uint_eq_ok_iff.mp hversion).1,
            (Reader.vec_eq_ok_iff.mp hbody).1, Reader.u8_eq_ok_iff.mp hhsType,
            (Reader.vec_eq_ok_iff.mp hmsg).1, hhsBody, List.append_nil, List.append_nil]
          rfl
        · have hversion : version = tls13 := by
            rw [hx, HelloExtensions.withVersion_selectedVersion] at hselected
            exact (Option.some.inj hselected).symm
          rw [m.view_eq f, hx, hversion]
      · cases h
    · cases h
  · rintro ⟨m, hconforms, rfl, rfl⟩
    exact m.parseServerHello_record hconforms

/-- A suite that is taken is one of those written into the `ClientHello`. -/
theorem mem_offeredSuites {f : Features} {opts : ClientHelloOptions f} {cipherSuite : Nat}
    {suite : CipherSuite} (h : advertisedSuite f opts.suites cipherSuite = some suite) :
    cipherSuite ∈ opts.offeredSuites := by
  unfold advertisedSuite at h
  split at h
  · rename_i haes
    split at h
    · cases h
    · rename_i hnarrowed
      have hoffered : opts.advertiseAes = true := by
        simpa [ClientHelloOptions.advertiseAes, haes.1, imp_iff_not_or] using hnarrowed
      simp [ClientHelloOptions.offeredSuites, hoffered, haes.2]
  · split at h
    · rename_i hchacha
      split at h
      · cases h
      · rename_i hnarrowed
        have hoffered : opts.advertiseChacha = true := by
          simpa [ClientHelloOptions.advertiseChacha, hchacha.1] using hnarrowed
        simp [ClientHelloOptions.offeredSuites, hoffered, hchacha.2]
    · cases h

/-- The parser accepts the records of the grammar and no other bytes, in every build; a connection
goes on only with a record that answers the hello it has sent. -/
theorem serverHello_accepted_iff (input : Bytes) :
    (∀ (f : Features) (sh : ServerHelloView), parseServerHello f input = .ok sh ↔
      ∃ m : ServerHelloMessage, m.Conforms f ∧ input = m.record ∧ sh = m.view f) ∧
    ∀ (cfg : ClientConfig) (first : Init cfg) (outLen : Nat)
      (primaryPub : Block cfg.features.primaryPubLen) (opts : ClientHelloOptions cfg.features)
      (sent : Bytes) (conn : WaitServerHello cfg) (next : WaitServerFlight),
      first.writeClientHelloWith outLen primaryPub opts = .ok (sent, conn) →
      conn.readServerHello input = .ok next →
        ∃ m : ServerHelloMessage, m.Conforms cfg.features ∧ input = m.record ∧
          m.sessionId = (opts.sessionId.map Subtype.val).getD [] ∧ m.suite ∈ opts.offeredSuites := by
  refine ⟨fun f sh => parseServerHello_eq_ok_iff, ?_⟩
  intro cfg first outLen primaryPub opts sent conn next hsent hread
  simp only [Init.writeClientHelloWith, bind_eq_ok, mapError_eq_ok, ensure_eq_ok] at hsent
  obtain ⟨_, _, _, _, _, _, hconn⟩ := hsent
  cases hconn
  obtain ⟨sh, hparse, hread⟩ := bind_eq_ok.mp hread
  obtain ⟨m, hconforms, rfl, rfl⟩ := parseServerHello_eq_ok_iff.mp (mapError_eq_ok.mp hparse)
  split at hread
  · cases hread
  · rename_i hecho
    split at hread
    · cases hread
    · rename_i suite hsuite
      exact ⟨m, hconforms, rfl, not_not.mp hecho, mem_offeredSuites hsuite⟩

end KrabiTls
