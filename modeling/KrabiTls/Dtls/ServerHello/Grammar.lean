import KrabiTls.Dtls.ServerHello

/-! What the client reads from a strictly written `ServerHello` or `HelloRetryRequest`. -/
namespace KrabiTls.Dtls
open Lib

namespace StrictHello

theorem encode_eq (msg : StrictHello) : ∃ front : Bytes, msg.encode = front ++ msg.body ∧ front.length = 25 := by
  refine ⟨[[ctHandshake], msg.recordVersion.val, toBe 2 0, msg.recordSeq.val, toBe 2 (12 + msg.body.length),
    [hsServerHello], toBe 3 msg.body.length, msg.messageSeq.val, toBe 3 0,
    toBe 3 msg.body.length].flatten, ?_, ?_⟩
  · rw [encode, fields, List.flatten_append, body]
  · simp [msg.recordVersion.property, msg.recordSeq.property, msg.messageSeq.property]

theorem encode_length (msg : StrictHello) : msg.encode.length = 25 + msg.body.length := by
  obtain ⟨front, hencode, hfront⟩ := msg.encode_eq
  rw [hencode, List.length_append, hfront]

theorem parseHelloBody_encode {ε : Type} (msg : StrictHello) (rest : Bytes) :
    parseHelloBody (ε := ε) (msg.encode ++ rest) =
      .ok (msg.body, ofBe msg.messageSeq.val, rest.length) := by
  have hfits := msg.fits
  have hbodyLen := msg.body_length
  have hlength := msg.encode_length
  obtain ⟨front, hencode, hfront⟩ := msg.encode_eq
  have hread : fieldsAt (msg.encode ++ rest) 0 (widths msg.block.length) = msg.fields := by
    rw [← msg.fields_widths]
    exact fieldsAt_flatten msg.fields rest
  have hslice : slice (msg.encode ++ rest) 25 (25 + msg.body.length) = msg.body := by
    rw [hencode, List.append_assoc, slice, List.drop_left' hfront, Nat.add_sub_cancel_left,
      List.take_left' rfl]
  have hhead : (msg.encode ++ rest).headD 0 = ctHandshake := rfl
  generalize hdg : msg.encode ++ rest = dg at hread hslice hhead
  have hdgLen : dg.length = 25 + msg.body.length + rest.length := by
    rw [← hdg, List.length_append, hlength]
  simp only [widths, fields, bodyFields, fieldsAt, List.cons_append, List.nil_append, List.cons.injEq,
    and_true, Nat.reduceAdd] at hread
  obtain ⟨-, -, -, -, hrec, -, -, hseq, -, hfrag, -⟩ := hread
  have hblock : (msg.extensions.flatMap Entry.encode).length = msg.block.length := rfl
  have hstop : ofBe (slice dg 11 13) = 12 + msg.body.length := by
    rw [hrec, ofBe_toBe]
    exact Nat.mod_eq_of_lt (by omega)
  have hfragLen : ofBe (slice dg 22 25) = msg.body.length := by
    rw [hfrag, ofBe_toBe]
    exact Nat.mod_eq_of_lt (by omega)
  have hrecord : PlaintextRecord.parse dg = .ok (⟨dg.headD 0, ofBe (slice dg 3 5), ofBe (slice dg 5 11),
      slice dg 13 (25 + msg.body.length)⟩, 25 + msg.body.length) :=
    PlaintextRecord.parse_eq_ok.mpr ⟨by omega, by omega, rfl⟩
  have hfragment : (slice dg 13 (25 + msg.body.length)).length = 12 + msg.body.length := by
    rw [slice_length_of_le (by omega)]
    omega
  have hinner (start stop : Nat) (hle : stop ≤ 12 + msg.body.length) :
      slice (slice dg 13 (25 + msg.body.length)) start stop = slice dg (13 + start) (13 + stop) :=
    slice_slice (by omega)
  have hheader : HandshakeHeader.parse (slice dg 13 (25 + msg.body.length)) =
      .ok ⟨(slice dg 13 (25 + msg.body.length)).headD 0, ofBe (slice dg 14 17), ofBe (slice dg 17 19),
        ofBe (slice dg 19 22), msg.body.length⟩ := by
    rw [HandshakeHeader.parse_eq_ok, hinner 1 4 (by omega), hinner 4 6 (by omega), hinner 6 9 (by omega),
      hinner 9 12 (by omega), hfragLen]
    exact ⟨by omega, rfl⟩
  have hbody : getRange (slice dg 13 (25 + msg.body.length)) hsHeaderLen
      (hsHeaderLen + msg.body.length) = .ok msg.body := by
    rw [getRange_eq_ok, hsHeaderLen, hinner _ _ (Nat.le_refl _), ← Nat.add_assoc]
    exact ⟨by omega, hslice⟩
  unfold parseHelloBody
  refine bind_eq_ok.mpr ⟨_, mapError_eq_ok.mpr hrecord, bind_eq_ok.mpr ⟨(), ensure_eq_ok.mpr hhead,
    bind_eq_ok.mpr ⟨_, mapError_eq_ok.mpr hheader, bind_eq_ok.mpr ⟨_, mapError_eq_ok.mpr hbody, ?_⟩⟩⟩⟩
  dsimp only
  rw [hseq, hdgLen, Nat.add_sub_cancel_left]
  rfl

end StrictHello

def HelloExtensions.addEntry (x : HelloExtensions) (e : Entry) : Except ParseError HelloExtensions :=
  x.add e.tag e.data

section Extensions
variable {body : Bytes} {i : Nat}

theorem getRange_prefixed {n : Nat} {data rest : Bytes} (hbody : body.drop i = prefixed n data ++ rest)
    (hn : 0 < n) (hlt : data.length < 256 ^ n) :
    (∃ len, getRange body i (i + n) = .ok len ∧ ofBe len = data.length) ∧
      getRange body (i + n) (i + n + data.length) = .ok data := by
  have hlen := congrArg List.length hbody
  rw [List.length_drop, List.length_append, prefixed_length] at hlen
  exact ⟨⟨_, getRange_eq_ok.mpr ⟨by omega, rfl⟩, slice_prefixed_length hbody hlt⟩,
    getRange_eq_ok.mpr ⟨by omega, slice_prefixed_data hbody⟩⟩

theorem extensionAt_entry {e : Entry} {rest : Bytes} (hbody : body.drop i = e.encode ++ rest)
    (x : HelloExtensions) : extensionAt body i x =
      (x.addEntry e).map fun y => (i + e.encode.length, y) := by
  have hlen := congrArg List.length hbody
  rw [List.length_drop, List.length_append, e.encode_length] at hlen
  rw [e.encode_eq, List.append_assoc] at hbody
  have htag : readU16 body i = .ok e.tag := by
    have hslice : slice body i (i + 2) = toBe 2 e.tag := by
      rw [slice, hbody, Nat.add_sub_cancel_left, List.take_left' (toBe_length _ _)]
    rw [readU16, map_eq_ok]
    refine ⟨_, getRange_eq_ok.mpr ⟨by omega, hslice⟩, ?_⟩
    rw [ofBe_toBe]
    exact Nat.mod_eq_of_lt e.tag_lt
  have hprefixed : body.drop (i + 2) = prefixed 2 e.data ++ rest := by
    rw [← List.drop_drop, hbody]
    exact List.drop_left' (toBe_length _ _)
  obtain ⟨hdataLen, hdata⟩ := getRange_prefixed hprefixed (by decide) e.data_lt
  replace hdataLen : readU16 body (i + 2) = .ok e.data.length := map_eq_ok.mpr hdataLen
  rw [Nat.add_assoc i 2 2] at hdata
  rw [extensionAt, htag, e.encode_length, ← Nat.add_assoc]
  simp only [bind, Except.bind, hdataLen, hdata]
  cases hadd : x.add e.tag e.data <;> simp [HelloExtensions.addEntry, hadd] <;> rfl

theorem helloExtensionLoop_run {extEnd : Nat} (entries : List Entry)
    (hbody : body.drop i = entries.flatMap Entry.encode)
    (hend : i + (entries.flatMap Entry.encode).length = extEnd) (x : HelloExtensions) :
    (helloExtensionLoop body extEnd).run (i, x) =
      entries.foldlM HelloExtensions.addEntry x := by
  induction entries generalizing i x with
  | nil =>
    rw [List.flatMap_nil, List.length_nil] at hend
    exact Loop.run_of_leave (if_neg (by omega))
  | cons e entries ih =>
    rw [List.flatMap_cons] at hbody hend
    rw [List.length_append] at hend
    have hlen := e.encode_length
    have hext := extensionAt_entry hbody x
    have hguard : i + 4 ≤ extEnd := by omega
    rw [List.foldlM_cons]
    cases hadd : x.addEntry e with
    | error err =>
      rw [hadd] at hext
      exact Loop.run_of_leave (by simp only [helloExtensionLoop, if_pos hguard, hext]; rfl)
    | ok y =>
      rw [hadd] at hext
      have hagain : (helloExtensionLoop body extEnd).body (i, x) = .again (i + e.encode.length, y) := by
        simp only [helloExtensionLoop, if_pos hguard, hext]
        rfl
      have hdrop : body.drop (i + e.encode.length) = entries.flatMap Entry.encode := by
        rw [← List.drop_drop, hbody, List.drop_left]
      rw [Loop.run_of_again hagain]
      exact ih hdrop (by omega) y

end Extensions

namespace HelloExtensions

def data (x : HelloExtensions) (tag : Nat) : Option Bytes :=
  if tag = extCookie then x.cookie.map (prefixed 2)
  else if tag = extConnectionId then x.serverCid.map (prefixed 1)
  else if tag = extKeyShare then
    x.keyShare.map fun share => toBe 2 namedGroupX25519 ++ prefixed 2 share.val
  else none

def IsRead (tag : Nat) : Prop := tag = extCookie ∨ tag = extConnectionId ∨ tag = extKeyShare

instance (tag : Nat) : Decidable (IsRead tag) := inferInstanceAs (Decidable (_ ∨ _ ∨ _))

/-- `y` with the extension of the given type taken from `x`. -/
def copy (x y : HelloExtensions) (tag : Nat) : HelloExtensions where
  cookie := if tag = extCookie then x.cookie else y.cookie
  keyShare := if tag = extKeyShare then x.keyShare else y.keyShare
  serverCid := if tag = extConnectionId then x.serverCid else y.serverCid

theorem add_cookie {cookie : Bytes} (hlt : cookie.length < 2 ^ 16) (y : HelloExtensions) :
    y.add extCookie (prefixed 2 cookie) = .ok { y with cookie := some cookie } := by
  obtain ⟨hlen, hdata⟩ := getRange_prefixed (i := 0) (List.append_nil (prefixed 2 cookie)).symm
    (by decide) hlt
  rw [add, if_pos rfl]
  exact bind_eq_ok.mpr ⟨_, map_eq_ok.mpr hlen, bind_eq_ok.mpr ⟨_, hdata, rfl⟩⟩

theorem add_connectionId {cid : Bytes} (hlt : cid.length < 2 ^ 8) (y : HelloExtensions) :
    y.add extConnectionId (prefixed 1 cid) = .ok { y with serverCid := some cid } := by
  obtain ⟨hlen, hdata⟩ := getRange_prefixed (i := 0) (List.append_nil (prefixed 1 cid)).symm
    (by decide) hlt
  rw [add, if_neg (by decide), if_pos rfl]
  exact bind_eq_ok.mpr ⟨_, map_eq_ok.mpr hlen, bind_eq_ok.mpr ⟨_, hdata, rfl⟩⟩

theorem add_keyShare (share : Block 32) (y : HelloExtensions) :
    y.add extKeyShare (toBe 2 namedGroupX25519 ++ prefixed 2 share.val) =
      .ok { y with keyShare := some share } := by
  have hwidth : (toBe 2 namedGroupX25519).length = 2 := toBe_length _ _
  have hdrop : (toBe 2 namedGroupX25519 ++ prefixed 2 share.val).drop 2 = prefixed 2 share.val ++ [] := by
    rw [List.append_nil, List.drop_left' hwidth]
  have hlt : share.val.length < 2 ^ 16 := by rw [share.property]; decide
  obtain ⟨hlen, hdata⟩ := getRange_prefixed hdrop (by decide) hlt
  have hgroup : readU16 (toBe 2 namedGroupX25519 ++ prefixed 2 share.val) 0 = .ok namedGroupX25519 := by
    refine map_eq_ok.mpr ⟨toBe 2 namedGroupX25519, getRange_eq_ok.mpr ⟨by simp, ?_⟩, by decide⟩
    rw [slice, List.drop_zero]
    exact List.take_left' hwidth
  rw [add, if_neg (by decide), if_neg (by decide), if_pos rfl]
  refine bind_eq_ok.mpr ⟨_, hgroup, bind_eq_ok.mpr ⟨(), ensure_eq_ok.mpr rfl,
    bind_eq_ok.mpr ⟨_, map_eq_ok.mpr hlen, bind_eq_ok.mpr ⟨_, hdata, ?_⟩⟩⟩⟩
  rw [dif_pos share.property]
  rfl

theorem add_eq {x : HelloExtensions} (hcid : ∀ cid ∈ x.serverCid, cid.length < 2 ^ 8) {e : Entry}
    (he : IsRead e.tag → x.data e.tag = some e.data) (y : HelloExtensions) :
    y.addEntry e = .ok (x.copy y e.tag) := by
  have hlt := e.data_lt
  have hne : extCookie ≠ extConnectionId ∧ extCookie ≠ extKeyShare ∧ extConnectionId ≠ extKeyShare := by
    decide
  unfold addEntry
  by_cases hread : IsRead e.tag
  · have hdata := he hread
    rcases hread with htag | htag | htag
    · rw [htag, data, if_pos rfl] at hdata
      obtain ⟨cookie, hx, hcookie⟩ := Option.map_eq_some_iff.mp hdata
      rw [← hcookie, prefixed_length] at hlt
      rw [htag, ← hcookie, add_cookie (by omega)]
      simp [copy, hx, hne.1, hne.2.1]
    · rw [htag, data, if_neg hne.1.symm, if_pos rfl] at hdata
      obtain ⟨cid, hx, hcidData⟩ := Option.map_eq_some_iff.mp hdata
      rw [htag, ← hcidData, add_connectionId (hcid cid hx)]
      simp [copy, hx, hne.1.symm, hne.2.2]
    · rw [htag, data, if_neg hne.2.1.symm, if_neg hne.2.2.symm, if_pos rfl] at hdata
      obtain ⟨share, hx, hshare⟩ := Option.map_eq_some_iff.mp hdata
      rw [htag, ← hshare, add_keyShare]
      simp [copy, hx, hne.2.1.symm, hne.2.2.symm]
  · simp only [IsRead, not_or] at hread
    rw [add, if_neg hread.1, if_neg hread.2.1, if_neg hread.2.2]
    simp [copy, hread]
    rfl

theorem foldl_copy (x : HelloExtensions) (tags : List Nat) (y : HelloExtensions) :
    tags.foldl x.copy y = {
      cookie := if extCookie ∈ tags then x.cookie else y.cookie
      keyShare := if extKeyShare ∈ tags then x.keyShare else y.keyShare
      serverCid := if extConnectionId ∈ tags then x.serverCid else y.serverCid } := by
  induction tags generalizing y with
  | nil => simp
  | cons tag tags ih =>
    rw [List.foldl_cons, ih]
    simp only [copy, List.mem_cons]
    congr 1 <;> grind

end HelloExtensions

namespace StrictHello

/-- The extensions of interest are those of `x`, in any order and among others. -/
structure Says (msg : StrictHello) (x : HelloExtensions) : Prop where
  entries : ∀ e ∈ msg.extensions, HelloExtensions.IsRead e.tag → x.data e.tag = some e.data
  present : ∀ tag, (x.data tag).isSome → tag ∈ msg.extensions.map Entry.tag
  cid_lt : ∀ cid ∈ x.serverCid, cid.length < 2 ^ 8

variable {msg : StrictHello} {x : HelloExtensions}

theorem Says.extensions (h : msg.Says x) :
    msg.extensions.foldlM HelloExtensions.addEntry {} = .ok x := by
  have hfold (entries : List Entry) (hsub : entries ⊆ msg.extensions) (y : HelloExtensions) :
      entries.foldlM HelloExtensions.addEntry y =
        .ok ((entries.map Entry.tag).foldl x.copy y) := by
    induction entries generalizing y with
    | nil => rfl
    | cons e entries ih =>
      obtain ⟨he, hrest⟩ := List.cons_subset.mp hsub
      rw [List.foldlM_cons, HelloExtensions.add_eq h.cid_lt (h.entries e he)]
      exact ih hrest _
  have habsent (tag : Nat) (hnone : tag ∉ msg.extensions.map Entry.tag) : x.data tag = none := by
    rw [← Option.not_isSome_iff_eq_none]
    exact fun hsome => hnone (h.present tag hsome)
  rw [hfold _ (List.Subset.refl _), HelloExtensions.foldl_copy]
  obtain ⟨cookie, keyShare, serverCid⟩ := x
  have hcookie := habsent extCookie
  have hcid := habsent extConnectionId
  have hshare := habsent extKeyShare
  simp only [HelloExtensions.data, if_true, Option.map_eq_none_iff] at hcookie
  rw [HelloExtensions.data, if_neg (by decide), if_pos rfl, Option.map_eq_none_iff] at hcid
  rw [HelloExtensions.data, if_neg (by decide), if_neg (by decide), if_pos rfl,
    Option.map_eq_none_iff] at hshare
  dsimp only at hcookie hcid hshare ⊢
  congr 2 <;> split <;> simp_all

/-- The client reads a strictly written message as what it says. -/
theorem Says.parseServerHello (h : msg.Says x) :
    parseServerHello msg.body =
      if msg.random.val = hrrRandom then
        match x.cookie with
        | none => .error .missingCookie
        | some cookie => .ok (.retry (ofBe msg.suite.val) cookie)
      else
        match x.keyShare with
        | none => .error .missingKeyShare
        | some share => .ok (.hello (ofBe msg.suite.val) share x.serverCid) := by
  have hfits := msg.fits
  have hblock : (msg.extensions.flatMap Entry.encode).length = msg.block.length := rfl
  have hlen := msg.body_length
  have hread := fieldsAt_flatten msg.bodyFields []
  rw [List.append_nil] at hread
  have hdrop : msg.body.drop 40 = msg.extensions.flatMap Entry.encode := by
    have hfront : msg.body = [toBe 2 dtls12LegacyVersion, msg.random.val, [0], msg.suite.val, [0],
        toBe 2 msg.block.length].flatten ++ msg.block := by
      simp [body, bodyFields]
    rw [hfront]
    exact List.drop_left' (by simp [msg.random.property, msg.suite.property])
  change fieldsAt msg.body 0 (msg.bodyFields.map List.length) = _ at hread
  simp only [bodyFields, List.map_cons, List.map_nil, toBe_length, msg.random.property,
    List.length_singleton, msg.suite.property, fieldsAt, Nat.reduceAdd, List.cons.injEq, and_true] at hread
  obtain ⟨-, hrandom, hsid, hsuite, -, hextLen, -⟩ := hread
  have hsidLen : readU8 msg.body 34 = .ok 0 :=
    map_eq_ok.mpr ⟨[0], getRange_eq_ok.mpr ⟨by omega, hsid⟩, rfl⟩
  have hsuiteRead : readU16 msg.body (35 + 0) = .ok (ofBe msg.suite.val) :=
    map_eq_ok.mpr ⟨_, getRange_eq_ok.mpr ⟨by omega, hsuite⟩, rfl⟩
  have hextLenRead : readU16 msg.body (38 + 0) = .ok msg.block.length := by
    refine map_eq_ok.mpr ⟨_, getRange_eq_ok.mpr ⟨by omega, hextLen⟩, ?_⟩
    rw [ofBe_toBe]
    exact Nat.mod_eq_of_lt (by omega)
  have hloop : (helloExtensionLoop msg.body (40 + 0 + msg.block.length)).run (40 + 0, {}) = .ok x :=
    (helloExtensionLoop_run msg.extensions hdrop rfl {}).trans h.extensions
  unfold Dtls.parseServerHello
  rw [getRange_eq_ok.mpr ⟨by omega, hrandom⟩]
  simp only [bind, Except.bind, hsidLen, hsuiteRead, hextLenRead, ensure, hloop]
  rw [if_pos (by omega)]
  rfl

end StrictHello

end KrabiTls.Dtls
