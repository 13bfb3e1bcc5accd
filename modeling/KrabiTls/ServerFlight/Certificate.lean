import KrabiTls.Lib.Entries
import KrabiTls.Lib.Prefixed
import KrabiTls.ServerFlight

/-! The grammar of `Certificate` and of the extension vector of `CertificateRequest`, and which
inputs outside it the parsers take for messages. -/
namespace KrabiTls
open Lib

@[ext] structure CertificateEntry where
  certData : Bytes
  extensions : Bytes
  certData_lt : certData.length < 2 ^ 24
  extensions_lt : extensions.length < 2 ^ 16

namespace CertificateEntry

instance : DecidableEq CertificateEntry := fun _ _ =>
  decidable_of_iff _ CertificateEntry.ext_iff.symm

def encode (e : CertificateEntry) : Bytes :=
  prefixed 3 e.certData ++ prefixed 2 e.extensions

theorem encode_length (e : CertificateEntry) :
    e.encode.length = 5 + e.certData.length + e.extensions.length := by
  simp only [encode, List.length_append, prefixed_length]
  omega

end CertificateEntry

/-- The body of a `Certificate` message. -/
structure CertificateBody where
  context : Bytes
  entries : List CertificateEntry
  context_lt : context.length < 2 ^ 8
  list_lt : (entries.flatMap CertificateEntry.encode).length < 2 ^ 24

namespace CertificateBody

def encode (m : CertificateBody) : Bytes :=
  prefixed 1 m.context ++ prefixed 3 (m.entries.flatMap CertificateEntry.encode)

def chain (m : CertificateBody) : List Bytes :=
  m.entries.map CertificateEntry.certData

/-- Where the body ends is settled by its own lengths. -/
theorem encode_append_inj {m m' : CertificateBody} {rest rest' : Bytes}
    (h : m.encode ++ rest = m'.encode ++ rest') : rest = rest' := by
  simp only [encode, List.append_assoc] at h
  obtain ⟨-, h⟩ := prefixed_append_inj m.context_lt m'.context_lt h
  exact (prefixed_append_inj m.list_lt m'.list_lt h).2

end CertificateBody

section Chain
variable {max : Nat} {list rest : Bytes} {chain out : List Bytes}

theorem chainLoop_entry (max : Nat) (e : CertificateEntry) (rest : Bytes) (chain : List Bytes) :
    (chainLoop max).body (e.encode ++ rest, chain) =
      if chain.length ≥ max then .leave (.error .certChainTooLong)
      else .again (rest, chain ++ [e.certData]) := by
  generalize hlist : e.encode ++ rest = list
  have hlength : list.length = 5 + e.certData.length + e.extensions.length + rest.length := by
    rw [← hlist, List.length_append, e.encode_length]
  have hcert : list.drop 0 = prefixed 3 e.certData ++ (prefixed 2 e.extensions ++ rest) := by
    rw [← hlist, CertificateEntry.encode, List.append_assoc, List.drop_zero]
  have hexts : list.drop (3 + e.certData.length) = prefixed 2 e.extensions ++ rest := by
    have hdrop := drop_prefixed hcert
    rwa [Nat.zero_add] at hdrop
  have hcertLen : ofBe (list.take 3) = e.certData.length := by
    rw [take_eq_slice]
    exact slice_prefixed_length hcert e.certData_lt
  have hcertData : slice list 3 (3 + e.certData.length) = e.certData := by
    have hdata := slice_prefixed_data hcert
    rwa [Nat.zero_add] at hdata
  have hextsLen := slice_prefixed_length hexts e.extensions_lt
  have hne : list ≠ [] := List.ne_nil_of_length_pos (by omega)
  dsimp only [chainLoop]
  rw [if_neg hne, if_neg (by omega), hcertLen, if_neg (by omega), hcertData, hextsLen]
  split
  · rfl
  · rw [if_neg (by omega), drop_prefixed hexts]

/-- A pass that goes on has read a whole entry. -/
theorem chainLoop_again {t : Bytes × List Bytes} (h : (chainLoop max).body (list, chain) = .again t) :
    ∃ e : CertificateEntry, list = e.encode ++ t.1 ∧ t.2 = chain ++ [e.certData] ∧
      chain.length < max := by
  dsimp only [chainLoop] at h
  split at h
  · cases h
  split at h
  · cases h
  split at h
  · cases h
  split at h
  · cases h
  split at h
  · cases h
  rename_i hfits hroom hexts
  cases h
  rw [take_eq_slice] at hfits hexts ⊢
  generalize hcertEnd : 3 + ofBe (slice list 0 3) = certEnd at hfits hexts ⊢
  have hcertFits : 0 + 3 + ofBe (slice list 0 (0 + 3)) ≤ list.length := by
    rw [Nat.zero_add]
    omega
  have hcert := prefixed_slice hcertFits
  have hcertLt := prefixed_slice_lt hcertFits
  rw [Nat.zero_add, hcertEnd] at hcert hcertLt
  have hextsFits : certEnd + 2 + ofBe (slice list certEnd (certEnd + 2)) ≤ list.length := by omega
  refine ⟨⟨_, _, hcertLt, prefixed_slice_lt hextsFits⟩, ?_, rfl, by omega⟩
  rw [CertificateEntry.encode, List.append_assoc, ← prefixed_slice hextsFits, ← hcert, List.drop_zero]

/-- The walk ends well only at the end of the list. -/
theorem chainLoop_leave (h : (chainLoop max).body (list, chain) = .leave (.ok out)) :
    list = [] ∧ out = chain := by
  dsimp only [chainLoop] at h
  split at h
  · cases h
    exact ⟨‹_›, rfl⟩
  all_goals (repeat' split at h) <;> cases h

theorem chainLoop_run_entries (entries : List CertificateEntry) (h : chain.length ≤ max) :
    (chainLoop max).run (entries.flatMap CertificateEntry.encode, chain) =
      if chain.length + entries.length ≤ max then
        .ok (chain ++ entries.map CertificateEntry.certData)
      else .error .certChainTooLong := by
  induction entries generalizing chain with
  | nil =>
    rw [List.length_nil, Nat.add_zero, if_pos h, List.map_nil, List.append_nil]
    exact Loop.run_of_leave rfl
  | cons e entries ih =>
    have hstep := chainLoop_entry max e (entries.flatMap CertificateEntry.encode) chain
    rw [List.flatMap_cons, List.length_cons]
    split at hstep
    · rw [Loop.run_of_leave hstep, if_neg (by omega)]
    · have hlen : (chain ++ [e.certData]).length = chain.length + 1 := List.length_append
      rw [Loop.run_of_again hstep, ih (by omega), hlen, List.map_cons, List.append_assoc,
        List.singleton_append, Nat.add_assoc, Nat.add_comm 1]

theorem chainLoop_run_eq_ok (h : (chainLoop max).run (list, chain) = .ok out) :
    ∃ entries : List CertificateEntry, list = entries.flatMap CertificateEntry.encode ∧
      out = chain ++ entries.map CertificateEntry.certData := by
  revert h
  refine Loop.run_induct (l := chainLoop max)
    (fun s => ∃ entries : List CertificateEntry, list = entries.flatMap CertificateEntry.encode ++ s.1 ∧
      s.2 = chain ++ entries.map CertificateEntry.certData)
    (fun r => r = .ok out → _) ?_ ?_ _ ⟨[], rfl, (List.append_nil _).symm⟩
  · rintro ⟨rest, found⟩ t ⟨entries, hlist, hfound⟩ hbody
    obtain ⟨e, hrest, ht, -⟩ := chainLoop_again hbody
    dsimp only at hlist hfound
    refine ⟨entries ++ [e], ?_, ?_⟩
    · rw [hlist, hrest, List.flatMap_append, List.flatMap_singleton, List.append_assoc]
    · rw [ht, hfound, List.map_append, List.map_singleton, List.append_assoc]
  · rintro ⟨rest, found⟩ r ⟨entries, hlist, hfound⟩ hbody rfl
    obtain ⟨rfl, rfl⟩ := chainLoop_leave hbody
    exact ⟨entries, by rw [hlist, List.append_nil], hfound⟩

end Chain

/-- What `extract_chain` makes of a whole body, with or without bytes behind it. -/
theorem extractChain_encode (max : Nat) (m : CertificateBody) (rest : Bytes) :
    extractChain max (m.encode ++ rest) =
      if m.entries.length ≤ max then .ok m.chain else .error .certChainTooLong := by
  generalize hbody : m.encode ++ rest = body
  have hctx : body = prefixed 1 m.context ++
      (prefixed 3 (m.entries.flatMap CertificateEntry.encode) ++ rest) := by
    rw [← hbody, CertificateBody.encode, List.append_assoc]
  have hlist := drop_prefixed_one hctx
  have hlength := congrArg List.length hbody
  simp only [CertificateBody.encode, List.length_append, prefixed_length] at hlength
  have hne : body ≠ [] := List.ne_nil_of_length_pos (by omega)
  unfold extractChain
  rw [if_neg hne]
  dsimp only
  rw [headD_prefixed_one hctx m.context_lt, if_neg (by omega), slice_prefixed_length hlist m.list_lt, if_neg (by omega),
    slice_prefixed_data hlist, chainLoop_run_entries _ (Nat.zero_le _)]
  simp only [List.length_nil, Nat.zero_add, List.nil_append, CertificateBody.chain]

/-- An accepted body starts with a well-formed one. -/
theorem extractChain_eq_ok {max : Nat} {certBody : Bytes} {chain : List Bytes}
    (h : extractChain max certBody = .ok chain) :
    ∃ (m : CertificateBody) (rest : Bytes), certBody = m.encode ++ rest := by
  unfold extractChain at h
  split at h
  · cases h
  rename_i hne
  dsimp only at h
  split at h
  · cases h
  split at h
  · cases h
  rename_i hctxFits hlistFits
  obtain ⟨entries, hentries, -⟩ := chainLoop_run_eq_ok h
  obtain ⟨hctxLt, hctx⟩ := prefixed_one_front (show _ ≤ certBody.length by omega)
  generalize 1 + (certBody.headD 0).toNat = afterCtx at *
  have hlistFits' :
      afterCtx + 3 + ofBe (slice certBody afterCtx (afterCtx + 3)) ≤ certBody.length := by omega
  have hlistLt := prefixed_slice_lt hlistFits'
  have hlist := prefixed_slice hlistFits'
  rw [hentries] at hlistLt hlist
  refine ⟨⟨_, entries, hctxLt, hlistLt⟩,
    certBody.drop (afterCtx + 3 + ofBe (slice certBody afterCtx (afterCtx + 3))), ?_⟩
  rw [CertificateBody.encode, List.append_assoc, ← hlist]
  exact hctx

/-- `extract_chain` accepts the bytes that are a `Certificate` body of at most `max` entries, and no
others; a longer list is refused as too long. -/
structure ExactCertificate (max : Nat) (certBody : Bytes) : Prop where
  accepts : ∀ chain, extractChain max certBody = .ok chain ↔
    ∃ m : CertificateBody, certBody = m.encode ∧ m.entries.length ≤ max ∧ chain = m.chain
  tooLong : ∀ (m : CertificateBody) (rest : Bytes), certBody = m.encode ++ rest →
    max < m.entries.length → extractChain max certBody = .error .certChainTooLong

/-- The walk stops at the end of the list, so bytes behind it are never looked at. -/
theorem extractChain_exact_iff (max : Nat) (certBody : Bytes) :
    ExactCertificate max certBody ↔
      ¬ ∃ (m : CertificateBody) (rest : Bytes), rest ≠ [] ∧ m.entries.length ≤ max ∧
        certBody = m.encode ++ rest := by
  constructor
  · rintro ⟨haccepts, -⟩ ⟨m, rest, hrest, hlen, rfl⟩
    have hok := extractChain_encode max m rest
    rw [if_pos hlen, haccepts] at hok
    obtain ⟨m', hm', -⟩ := hok
    rw [← List.append_nil m'.encode] at hm'
    exact hrest (CertificateBody.encode_append_inj hm')
  · intro hexact
    refine ⟨fun chain => ⟨fun hok => ?_, ?_⟩, ?_⟩
    · obtain ⟨m, rest, rfl⟩ := extractChain_eq_ok hok
      rw [extractChain_encode] at hok
      split at hok
      · rename_i hlen
        cases hok
        have hrest : rest = [] := by
          by_contra hne
          exact hexact ⟨m, rest, hne, hlen, rfl⟩
        exact ⟨m, by rw [hrest, List.append_nil], hlen, rfl⟩
      · cases hok
    · rintro ⟨m, rfl, hlen, rfl⟩
      have hok := extractChain_encode max m []
      rwa [List.append_nil, if_pos hlen] at hok
    · rintro m rest rfl hlen
      rw [extractChain_encode, if_neg (by omega)]

/-- One certificate, and a byte behind the list. -/
theorem extractChain_trailing_byte :
    ¬ ExactCertificate 1 [0, 0, 0, 6, 0, 0, 1, 0x30, 0, 0, 0xFF] := by
  rintro ⟨haccepts, -⟩
  have hok : extractChain 1 [0, 0, 0, 6, 0, 0, 1, 0x30, 0, 0, 0xFF] = .ok [[0x30]] := by
    decide +kernel
  obtain ⟨m, hm, -⟩ := (haccepts _).mp hok
  let sent : CertificateBody := ⟨[], [⟨[0x30], [], by decide, by decide⟩], by decide, by decide⟩
  have hsent : sent.encode ++ [0xFF] = m.encode ++ [] := by
    rw [List.append_nil, ← hm]
    decide
  exact absurd (CertificateBody.encode_append_inj hsent) (by decide)

/-- The parts of a framed `CertificateRequest`; the 24-bit length is the framing's concern. -/
theorem certRequestParts_eq_ok {creqFull ctx exts : Bytes} :
    certRequestParts creqFull = .ok (ctx, exts) ↔
      ∃ len : Block 3, creqFull = hsCertificateRequest :: len.val ++ prefixed 1 ctx ++ prefixed 2 exts ∧
        ctx.length < 2 ^ 8 ∧ exts.length < 2 ^ 16 := by
  constructor
  · intro h
    unfold certRequestParts at h
    split at h
    · cases h
    rename_i htype
    split at h
    · cases h
    rename_i hfour
    dsimp only at h
    generalize hbody : creqFull.drop 4 = body at h
    split at h
    · cases h
    split at h
    · cases h
    split at h
    · cases h
    split at h
    · cases h
    split at h
    · cases h
    rename_i hctxFits hextsFits hlow hhigh
    cases h
    obtain ⟨hctxLt, hctx⟩ := prefixed_one_front (show _ ≤ body.length by omega)
    generalize 1 + (body.headD 0).toNat = ctxEnd at *
    have hextLen : (body.drop (ctxEnd + 2)).length = ofBe (slice body ctxEnd (ctxEnd + 2)) := by omega
    have hextsEnd : ctxEnd + 2 + ofBe (slice body ctxEnd (ctxEnd + 2)) = body.length := by
      rw [List.length_drop] at hextLen
      omega
    have hexts := prefixed_slice (Nat.le_of_eq hextsEnd)
    have hextsLt := prefixed_slice_lt (Nat.le_of_eq hextsEnd)
    have hwhole : slice body (ctxEnd + 2) body.length = body.drop (ctxEnd + 2) :=
      List.take_of_length_le (by rw [List.length_drop])
    rw [hextsEnd, hwhole] at hexts hextsLt
    rw [List.drop_length, List.append_nil] at hexts
    obtain ⟨t, after, rfl⟩ := List.exists_cons_of_ne_nil
      (List.ne_nil_of_length_pos (show 0 < creqFull.length by omega))
    have ht : t = hsCertificateRequest := by simpa using htype
    simp only [List.length_cons, List.drop_succ_cons] at hfour hbody
    refine ⟨⟨after.take 3, by rw [List.length_take]; omega⟩, ?_, hctxLt, hextsLt⟩
    rw [List.append_assoc, ← hexts, ← hctx, ← hbody, List.cons_append, List.take_append_drop, ht]
  · rintro ⟨⟨len, hlen⟩, rfl, hctxLt, hextsLt⟩
    generalize hbody : prefixed 1 ctx ++ prefixed 2 exts = body
    have hdrop : (hsCertificateRequest :: len ++ prefixed 1 ctx ++ prefixed 2 exts).drop 4 = body := by
      rw [List.append_assoc, hbody]
      exact List.drop_left' (by rw [List.length_cons, hlen])
    have hctx : body = prefixed 1 ctx ++ (prefixed 2 exts ++ []) := by rw [List.append_nil, hbody]
    have hexts := drop_prefixed_one hctx
    have hlength := congrArg List.length hbody
    simp only [List.length_append, prefixed_length] at hlength
    have hrest : body.drop (1 + ctx.length + 2) = exts := by
      rw [← List.drop_drop, hexts, List.append_nil, prefixed, List.drop_left' (toBe_length _ _)]
    unfold certRequestParts
    rw [if_neg (by simp), if_neg (by simp only [List.length_append, List.length_cons]; omega)]
    dsimp only
    rw [hdrop, if_neg (List.ne_nil_of_length_pos (by omega)), headD_prefixed_one hctx hctxLt,
      if_neg (by omega), if_neg (by omega), hrest, slice_prefixed_length hexts hextsLt,
      if_neg (by omega), if_neg (by omega), slice_prefixed_one hctx]

theorem sigAlgsOfExtension_error {data : Bytes} {e : FlightError}
    (h : sigAlgsOfExtension data = .error e) : e = .truncated := by
  unfold sigAlgsOfExtension at h
  split at h
  · cases h; rfl
  · dsimp only at h
    split at h
    · cases h; rfl
    · cases h

/-- The walk reads the first `signature_algorithms` extension, and looks at the end of the vector
only if there is none. -/
theorem sigAlgsLoop_run (exts : Bytes) :
    sigAlgsLoop.run exts =
      match (Entry.split exts).1.find? (fun e => e.tag = extSignatureAlgorithms) with
      | some e => sigAlgsOfExtension e.data
      | none => if (Entry.split exts).2 = [] then .ok [] else .error .truncated := by
  induction exts using Entry.split_induct with
  | none exts hnone =>
    rw [Entry.split_of_none hnone]
    apply Loop.run_of_leave
    have hshort := Entry.next_eq_none.mp hnone
    dsimp only [sigAlgsLoop, List.find?_nil]
    split
    · rfl
    · have hne : exts ≠ [] := List.ne_nil_of_length_pos (by omega)
      rw [if_pos (by omega), if_neg hne]
  | some exts e rest hsome ih =>
    obtain ⟨hfits, htag, -, hdata, hrest⟩ := Entry.next_parts hsome
    rw [Entry.split_of_some hsome, List.find?_cons]
    by_cases hsig : e.tag = extSignatureAlgorithms
    · rw [decide_eq_true hsig]
      apply Loop.run_of_leave
      dsimp only [sigAlgsLoop]
      rw [if_neg (by omega), if_neg (by omega), if_pos (htag ▸ hsig), ← hdata]
    · rw [decide_eq_false hsig]
      refine (Loop.run_of_again ?_).trans ih
      dsimp only [sigAlgsLoop]
      rw [if_neg (by omega), if_neg (by omega), if_neg (htag ▸ hsig), ← hrest]

/-- The vector is cut into extensions with nothing left over, and none comes twice. -/
def WellFormedExtensions (exts : Bytes) : Prop :=
  (Entry.split exts).2 = [] ∧ ((Entry.split exts).1.map Entry.tag).Nodup

/-- The whole vector is read: what is accepted is well-formed, and the order of the extensions is of
no consequence. -/
structure ReadsWholeRequest (creqFull : Bytes) : Prop where
  wellFormed : ∀ schemes, certificateRequestSigAlgs creqFull = .ok schemes →
    ∃ ctx exts, certRequestParts creqFull = .ok (ctx, exts) ∧ WellFormedExtensions exts
  order : ∀ creqFull' ctx ctx' exts exts', certRequestParts creqFull = .ok (ctx, exts) →
    certRequestParts creqFull' = .ok (ctx', exts') →
    (Entry.split exts').1.Perm (Entry.split exts).1 → (Entry.split exts').2 = (Entry.split exts).2 →
    certificateRequestSigAlgs creqFull' = certificateRequestSigAlgs creqFull

/-- An ill-formed vector that the walk takes in some order: it has a readable `signature_algorithms`
extension, or none at all and ends with an extension. -/
def OverlooksRest (exts : Bytes) : Prop :=
  ¬ WellFormedExtensions exts ∧
    ((∃ e ∈ (Entry.split exts).1, e.tag = extSignatureAlgorithms ∧
        (sigAlgsOfExtension e.data).isOk) ∨
      ((∀ e ∈ (Entry.split exts).1, e.tag ≠ extSignatureAlgorithms) ∧ (Entry.split exts).2 = []))

section SigAlgs
variable {creqFull ctx exts : Bytes}

theorem certificateRequestSigAlgs_of_parts (h : certRequestParts creqFull = .ok (ctx, exts)) :
    certificateRequestSigAlgs creqFull = sigAlgsLoop.run exts := by
  rw [certificateRequestSigAlgs, h]
  rfl

theorem overlooksRest_of_ok {schemes : Bytes} (hok : sigAlgsLoop.run exts = .ok schemes)
    (hbad : ¬ WellFormedExtensions exts) : OverlooksRest exts := by
  refine ⟨hbad, ?_⟩
  rw [sigAlgsLoop_run] at hok
  split at hok
  · rename_i e hfind
    have htag : e.tag = extSignatureAlgorithms := by simpa using List.find?_some hfind
    exact .inl ⟨e, List.mem_of_find?_eq_some hfind, htag, by rw [hok]; rfl⟩
  · rename_i hfind
    split at hok
    · rename_i htail
      exact .inr ⟨by simpa using hfind, htail⟩
    · cases hok

/-- No order of the extensions is accepted. -/
theorem sigAlgsLoop_refuses
    (hsig : ∀ e ∈ (Entry.split exts).1, e.tag = extSignatureAlgorithms →
      ¬ (sigAlgsOfExtension e.data).isOk)
    (hsome : (Entry.split exts).2 = [] →
      ∃ e ∈ (Entry.split exts).1, e.tag = extSignatureAlgorithms) :
    sigAlgsLoop.run exts = .error .truncated := by
  rw [sigAlgsLoop_run]
  split
  · rename_i e hfind
    have htag : e.tag = extSignatureAlgorithms := by simpa using List.find?_some hfind
    have hbad := hsig e (List.mem_of_find?_eq_some hfind) htag
    cases hdata : sigAlgsOfExtension e.data with
    | error err => rw [sigAlgsOfExtension_error hdata]
    | ok schemes => exact absurd (by rw [hdata]; rfl) hbad
  · rename_i hfind
    apply if_neg
    intro htail
    obtain ⟨e, hmem, htag⟩ := hsome htail
    exact absurd htag (by simpa using List.find?_eq_none.mp hfind e hmem)

theorem sigAlgsLoop_perm {exts' : Bytes} (h : ¬ OverlooksRest exts)
    (hperm : (Entry.split exts').1.Perm (Entry.split exts).1)
    (htail : (Entry.split exts').2 = (Entry.split exts).2) :
    sigAlgsLoop.run exts' = sigAlgsLoop.run exts := by
  by_cases hwf : WellFormedExtensions exts
  · rw [sigAlgsLoop_run, sigAlgsLoop_run, Entry.find?_tag_perm _ hperm hwf.2, htail]
  · have hrefused : (∀ e ∈ (Entry.split exts).1, e.tag = extSignatureAlgorithms →
        ¬ (sigAlgsOfExtension e.data).isOk) ∧ ((Entry.split exts).2 = [] →
          ∃ e ∈ (Entry.split exts).1, e.tag = extSignatureAlgorithms) := by
      unfold OverlooksRest at h
      push Not at h
      obtain ⟨hsig, hsome⟩ := h hwf
      refine ⟨by simpa using hsig, fun htail => ?_⟩
      by_contra hnone
      push Not at hnone
      exact hsome hnone htail
    rw [sigAlgsLoop_refuses hrefused.1 hrefused.2]
    apply sigAlgsLoop_refuses
    · intro e hmem
      exact hrefused.1 e (hperm.mem_iff.mp hmem)
    · intro hnil
      obtain ⟨e, hmem, htag⟩ := hrefused.2 (htail ▸ hnil)
      exact ⟨e, hperm.mem_iff.mpr hmem, htag⟩

theorem exists_reordered (h : certRequestParts creqFull = .ok (ctx, exts)) {entries : List Entry}
    (hperm : entries.Perm (Entry.split exts).1) :
    ∃ creqFull' exts', certRequestParts creqFull' = .ok (ctx, exts') ∧
      Entry.split exts' = (entries, (Entry.split exts).2) := by
  obtain ⟨len, -, hctx, hexts⟩ := certRequestParts_eq_ok.mp h
  have hlen : (entries.flatMap Entry.encode ++ (Entry.split exts).2).length = exts.length := by
    conv_rhs => rw [← Entry.split_join exts]
    rw [List.length_append, List.length_append, (hperm.flatMap_right _).length_eq]
  exact ⟨_, _, certRequestParts_eq_ok.mpr ⟨len, rfl, hctx, hlen ▸ hexts⟩,
    Entry.split_encode entries (Entry.next_split_tail exts)⟩

/-- A reordering of an overlooked vector is accepted. -/
theorem exists_accepted (h : certRequestParts creqFull = .ok (ctx, exts))
    (hoverlooks : OverlooksRest exts) :
    ∃ creqFull' exts' schemes, certRequestParts creqFull' = .ok (ctx, exts') ∧
      (Entry.split exts').1.Perm (Entry.split exts).1 ∧
      (Entry.split exts').2 = (Entry.split exts).2 ∧
      certificateRequestSigAlgs creqFull' = .ok schemes := by
  obtain ⟨-, ⟨e, hmem, htag, hdata⟩ | ⟨hnone, htail⟩⟩ := hoverlooks
  · have hperm := (List.perm_cons_erase hmem).symm
    obtain ⟨creqFull', exts', hparts, hsplit⟩ := exists_reordered h hperm
    cases hschemes : sigAlgsOfExtension e.data with
    | error err => rw [hschemes] at hdata; cases hdata
    | ok schemes =>
      refine ⟨creqFull', exts', schemes, hparts, by rw [hsplit]; exact hperm, by rw [hsplit], ?_⟩
      rw [certificateRequestSigAlgs_of_parts hparts, sigAlgsLoop_run, hsplit]
      dsimp only
      rw [List.find?_cons, decide_eq_true htag]
      exact hschemes
  · refine ⟨creqFull, exts, [], h, List.Perm.refl _, rfl, ?_⟩
    rw [certificateRequestSigAlgs_of_parts h, sigAlgsLoop_run,
      List.find?_eq_none.mpr (by simpa using hnone)]
    exact if_pos htail

end SigAlgs

/-- The walk leaves at the first `signature_algorithms` extension and keeps no record of the types it
has seen. -/
theorem certificateRequestSigAlgs_whole_iff (creqFull : Bytes) :
    ReadsWholeRequest creqFull ↔
      ∀ ctx exts, certRequestParts creqFull = .ok (ctx, exts) → ¬ OverlooksRest exts := by
  constructor
  · rintro ⟨hwellFormed, horder⟩ ctx exts hparts hoverlooks
    obtain ⟨creqFull', exts', schemes, hparts', hperm, htail, hok⟩ := exists_accepted hparts hoverlooks
    rw [horder _ _ _ _ _ hparts hparts' hperm htail] at hok
    obtain ⟨ctx', exts', hparts', hwf⟩ := hwellFormed schemes hok
    rw [hparts] at hparts'
    cases hparts'
    exact hoverlooks.1 hwf
  · intro h
    constructor
    · intro schemes hok
      obtain ⟨⟨ctx, exts⟩, hparts, hrun⟩ := bind_eq_ok.mp hok
      refine ⟨ctx, exts, hparts, ?_⟩
      by_contra hbad
      exact h ctx exts hparts (overlooksRest_of_ok hrun hbad)
    · intro creqFull' ctx ctx' exts exts' hparts hparts' hperm htail
      rw [certificateRequestSigAlgs_of_parts hparts, certificateRequestSigAlgs_of_parts hparts']
      exact sigAlgsLoop_perm (h ctx exts hparts) hperm htail

/-- A `signature_algorithms` extension with one scheme, and a stray byte behind it. -/
theorem certificateRequestSigAlgs_stray_byte :
    ¬ ReadsWholeRequest [hsCertificateRequest, 0, 0, 12, 0, 0, 9, 0, 13, 0, 4, 0, 2, 8, 4, 0xFF] := by
  rintro ⟨hwellFormed, -⟩
  obtain ⟨ctx, exts, hparts, hexact, -⟩ := hwellFormed [8, 4] (by decide +kernel)
  have hread : certRequestParts
      [hsCertificateRequest, 0, 0, 12, 0, 0, 9, 0, 13, 0, 4, 0, 2, 8, 4, 0xFF] =
        .ok ([], [0, 13, 0, 4, 0, 2, 8, 4, 0xFF]) := by decide +kernel
  rw [hread] at hparts
  cases hparts
  exact absurd hexact (by decide +kernel)

end KrabiTls
