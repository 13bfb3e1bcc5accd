import KrabiTls.Identity.Address

/-! The hostnames that a SubjectAltName binds. -/
namespace KrabiTls
open Lib

/-- `t` is an entry of `san`, with the entries `before` in front of it. -/
inductive SanEntry (usizeBits : Nat) : (san : Bytes) → (before : List Tlv) → (t : Tlv) → Prop
  | here {san : Bytes} {t : Tlv} (h : readTlv usizeBits san = some t) : SanEntry usizeBits san [] t
  | next {san : Bytes} {before : List Tlv} {e t : Tlv} (h : readTlv usizeBits san = some e)
      (tail : SanEntry usizeBits e.rest before t) : SanEntry usizeBits san (e :: before) t

/-- An `iPAddress` has 4 or 16 octets. -/
def Tlv.AddressSized (e : Tlv) : Prop :=
  e.tag = ipAddressTag → e.body.length = 4 ∨ e.body.length = 16

section Walk
variable {usizeBits : Nat} {tag : UInt8} {p : Bytes → Bool} {san : Bytes}

theorem sanEntryLoop_body {e : Tlv} (h : readTlv usizeBits san = some e) :
    (sanEntryLoop usizeBits tag p).body san =
      if e.tag ≠ tag then .again e.rest
      else if tag = ipAddressTag ∧ e.body.length ≠ 4 ∧ e.body.length ≠ 16 then
        .leave (.error .malformedSan)
      else if p e.body then .leave (.ok ())
      else .again e.rest := by
  have hne : san ≠ [] := by
    rintro rfl
    cases h
  show (if san = [] then _ else _) = _
  rw [if_neg hne, h]

theorem sanEntryLoop_undecodable (h : readTlv usizeBits san = none) :
    (sanEntryLoop usizeBits tag p).run san ≠ .ok () := by
  have hbody : ∃ e, (sanEntryLoop usizeBits tag p).body san = .leave (.error e) := by
    by_cases hnil : san = []
    · exact ⟨_, if_pos hnil⟩
    · refine ⟨.malformedSan, ?_⟩
      show (if san = [] then _ else _) = _
      rw [if_neg hnil, h]
  obtain ⟨e, hbody⟩ := hbody
  rw [Loop.run_of_leave hbody]
  simp

/-- The walk succeeds at a decodable entry if that matches, or is passed over and the walk succeeds
behind it. -/
theorem sanEntryLoop_run {e : Tlv} (h : readTlv usizeBits san = some e) :
    (sanEntryLoop usizeBits tag p).run san = .ok () ↔
      (tag = ipAddressTag → e.AddressSized) ∧
        (e.tag = tag ∧ p e.body = true ∨ (sanEntryLoop usizeBits tag p).run e.rest = .ok ()) := by
  have hbody : (sanEntryLoop usizeBits tag p).body san = _ := sanEntryLoop_body h
  by_cases htag : e.tag = tag
  · rw [if_neg (not_not_intro htag)] at hbody
    by_cases hsize : tag = ipAddressTag ∧ e.body.length ≠ 4 ∧ e.body.length ≠ 16
    · rw [if_pos hsize] at hbody
      rw [Loop.run_of_leave hbody]
      refine iff_of_false (by simp) fun ⟨hsized, _⟩ => ?_
      obtain h4 | h16 := hsized hsize.1 (htag.trans hsize.1)
      · exact hsize.2.1 h4
      · exact hsize.2.2 h16
    · rw [if_neg hsize] at hbody
      have hsized : tag = ipAddressTag → e.AddressSized := by
        intro hip _
        by_contra hneither
        exact hsize ⟨hip, not_or.mp hneither⟩
      by_cases hp : p e.body = true
      · rw [if_pos hp] at hbody
        rw [Loop.run_of_leave hbody]
        exact iff_of_true rfl ⟨hsized, .inl ⟨htag, hp⟩⟩
      · rw [if_neg hp] at hbody
        rw [Loop.run_of_again hbody]
        rw [and_iff_right hsized, or_iff_right fun hmatch => hp hmatch.2]
  · rw [if_pos htag] at hbody
    rw [Loop.run_of_again hbody]
    have hsized : tag = ipAddressTag → e.AddressSized := by
      intro hip hetag
      exact absurd (hetag.trans hip.symm) htag
    rw [and_iff_right hsized, or_iff_right fun hmatch => htag hmatch.1]

theorem sanEntryLoop_ok_iff :
    (sanEntryLoop usizeBits tag p).run san = .ok () ↔
      ∃ before t, SanEntry usizeBits san before t ∧ t.tag = tag ∧ p t.body = true ∧
        (tag = ipAddressTag → ∀ e ∈ before ++ [t], e.AddressSized) := by
  constructor
  · intro h
    -- each step of the walk leaves a shorter rest
    induction hn : san.length using Nat.strongRecOn generalizing san with
    | _ n ih =>
      cases hread : readTlv usizeBits san with
      | none => exact absurd h (sanEntryLoop_undecodable hread)
      | some e =>
        obtain ⟨hsized, ⟨htag, hp⟩ | hrest⟩ := (sanEntryLoop_run hread).mp h
        · refine ⟨[], e, .here hread, htag, hp, fun hip => ?_⟩
          exact List.forall_mem_singleton.mpr (hsized hip)
        · obtain ⟨before, t, hentry, htag, hp, hall⟩ :=
            ih e.rest.length (hn ▸ readTlv_rest_length hread) hrest rfl
          refine ⟨e :: before, t, .next hread hentry, htag, hp, fun hip => ?_⟩
          exact List.forall_mem_cons.mpr ⟨hsized hip, hall hip⟩
  · rintro ⟨before, t, hentry, htag, hp, hall⟩
    induction hentry with
    | here hread =>
      refine (sanEntryLoop_run hread).mpr ⟨fun hip => ?_, .inl ⟨htag, hp⟩⟩
      exact List.forall_mem_singleton.mp (hall hip)
    | next hread tail ih =>
      refine (sanEntryLoop_run hread).mpr ⟨fun hip => ?_, .inr (ih htag hp fun hip => ?_)⟩
      · exact (List.forall_mem_cons.mp (hall hip)).1
      · exact (List.forall_mem_cons.mp (hall hip)).2

end Walk

variable {hostname octets : Bytes}

/-! ### Names -/

/-- The patterns of a hostname: the name itself, or a wildcard for its first label, up to ASCII
case. -/
inductive DnsPattern (hostname : Bytes) : (pattern : Bytes) → Prop
  | exact {pattern : Bytes} (hstar : 0x2A ∉ pattern)
      (heq : asciiEqIgnoreCase pattern hostname = true) : DnsPattern hostname pattern
  | wildcard {label tail suffix : Bytes} (hhost : hostname = label ++ 0x2E :: tail) (hlabel : label ≠ [])
      (hdot : 0x2E ∉ label) (hsuffix : suffix ≠ []) (hstar : 0x2A ∉ suffix)
      (heq : asciiEqIgnoreCase tail suffix = true) : DnsPattern hostname (0x2A :: 0x2E :: suffix)

theorem dnsNameMatches_wildcard (suffix hostname : Bytes) :
    dnsNameMatches (0x2A :: 0x2E :: suffix) hostname =
      if suffix = [] ∨ suffix.contains 0x2A then false
      else if hostname.length ≤ suffix.length + 1 then false
      else
        let labelWithDot := hostname.take (hostname.length - suffix.length)
        decide (asciiEqIgnoreCase (hostname.drop (hostname.length - suffix.length)) suffix ∧
          labelWithDot.getLast? = some 0x2E ∧ labelWithDot.dropLast ≠ [] ∧
          ¬labelWithDot.dropLast.contains 0x2E) :=
  if_pos rfl

theorem dnsNameMatches_iff {pattern : Bytes} :
    dnsNameMatches pattern hostname = true ↔ DnsPattern hostname pattern := by
  constructor
  · intro h
    by_cases hfront : pattern.take 2 = [0x2A, 0x2E]
    · obtain ⟨suffix, rfl⟩ : ∃ suffix, pattern = 0x2A :: 0x2E :: suffix :=
        ⟨pattern.drop 2, by rw [← List.take_append_drop 2 pattern, hfront]; rfl⟩
      rw [dnsNameMatches_wildcard] at h
      split at h
      · cases h
      · rename_i hsuffix
        split at h
        · cases h
        · obtain ⟨heq, hlast, hlabel, hdot⟩ := of_decide_eq_true h
          obtain ⟨hnil, hstar⟩ := not_or.mp hsuffix
          obtain ⟨label, hsplit⟩ := List.getLast?_eq_some_iff.mp hlast
          have hhost : hostname = label ++ 0x2E :: hostname.drop (hostname.length - suffix.length) := by
            conv_lhs => rw [← List.take_append_drop (hostname.length - suffix.length) hostname, hsplit]
            rw [List.append_assoc, List.singleton_append]
          rw [hsplit, List.dropLast_concat] at hlabel hdot
          exact .wildcard hhost hlabel (fun hmem => hdot (List.contains_iff_mem.mpr hmem)) hnil
            (fun hmem => hstar (List.contains_iff_mem.mpr hmem)) heq
    · rw [dnsNameMatches, if_neg hfront] at h
      split at h
      · cases h
      · rename_i hstar
        exact .exact (fun hmem => hstar (List.contains_iff_mem.mpr hmem)) h
  · intro h
    cases h with
    | exact hstar heq =>
      have hfront : pattern.take 2 ≠ [0x2A, 0x2E] := by
        intro hfront
        exact hstar (List.mem_of_mem_take (hfront ▸ List.mem_cons_self))
      rw [dnsNameMatches, if_neg hfront, if_neg (fun hmem => hstar (List.contains_iff_mem.mp hmem))]
      exact heq
    | @wildcard label tail suffix hhost hlabel hdot hsuffix hstar heq =>
      have hlen : tail.length = suffix.length := by
        have hmaps := congrArg List.length (of_decide_eq_true heq)
        rwa [List.length_map, List.length_map] at hmaps
      have hpos := List.length_pos_iff.mpr hlabel
      have hsplit : hostname.length - suffix.length = label.length + 1 := by
        rw [hhost, List.length_append, List.length_cons]
        omega
      have hhost' : hostname = (label ++ [0x2E]) ++ tail := by
        rw [hhost, List.append_assoc, List.singleton_append]
      have hconcat : (label ++ [0x2E]).length = label.length + 1 := List.length_append
      have hroom : ¬hostname.length ≤ suffix.length + 1 := by omega
      have hvalid : ¬(suffix = [] ∨ suffix.contains 0x2A = true) :=
        not_or.mpr ⟨hsuffix, fun hmem => hstar (List.contains_iff_mem.mp hmem)⟩
      rw [dnsNameMatches_wildcard, if_neg hvalid, if_neg hroom, hsplit, hhost', List.take_left' hconcat,
        List.drop_left' hconcat]
      dsimp only
      rw [List.dropLast_concat]
      refine decide_eq_true ⟨heq, List.getLast?_concat, hlabel, ?_⟩
      exact fun hmem => hdot (List.contains_iff_mem.mp hmem)

/-! ### Addresses -/

theorem looksLikeIpLiteral_of_parseIpv4 (h : parseIpv4 hostname = some octets) :
    looksLikeIpLiteral hostname = true := by
  obtain ⟨-, hdigits, hdot⟩ := parseIpv4_eq_some h
  simp only [looksLikeIpLiteral, decide_eq_true_eq]
  refine .inr (.inr ⟨List.all_eq_true.mpr fun b hb => ?_, List.contains_iff_mem.mpr hdot⟩)
  exact decide_eq_true (hdigits b hb)

theorem looksLikeIpLiteral_of_parseIpv6 (h : parseIpv6 hostname = some octets) :
    looksLikeIpLiteral hostname = true := by
  simp only [looksLikeIpLiteral, decide_eq_true_eq]
  exact .inr (.inl (List.contains_iff_mem.mpr (parseIpv6_eq_some h).2))

theorem parseIpv6_eq_none_of_parseIpv4 {s : Bytes} (h : parseIpv4 s = some octets) :
    parseIpv6 s = none := by
  by_contra hv6
  obtain ⟨octets', hparse⟩ := Option.ne_none_iff_exists'.mp hv6
  obtain hdot | hdigit := (parseIpv4_eq_some h).2.1 0x3A (parseIpv6_eq_some hparse).2
  · cases hdot
  · cases hdigit

theorem IpLiteral.length {hostname octets : Bytes} (h : IpLiteral hostname octets) :
    octets.length = 4 ∨ octets.length = 16 := by
  obtain ⟨literal, -, hv4 | hv6⟩ := h
  · exact .inl (parseIpv4_eq_some hv4).1
  · exact .inr (parseIpv6_eq_some hv6).1

/-! ### Hostnames -/

section Hostname
variable (f : Features) (san hostname : Bytes)

/-- A `dNSName` that can be reached matches the hostname. -/
def DnsBound : Prop :=
  looksLikeIpLiteral hostname = false ∧
    ∃ before t, SanEntry f.usizeBits san before t ∧ t.tag = dnsNameTag ∧ DnsPattern hostname t.body

/-- An `iPAddress` that can be reached is the address that the hostname spells. -/
def IpBound : Prop :=
  looksLikeIpLiteral hostname = true ∧ ∃ octets, IpLiteral hostname octets ∧
    ∃ before t, SanEntry f.usizeBits san before t ∧ t.tag = ipAddressTag ∧ t.body = octets ∧
      ∀ e ∈ before, e.AddressSized

theorem matchIpAddress_ok_iff {octets : Bytes} (h : octets.length = 4 ∨ octets.length = 16) :
    (sanEntryLoop f.usizeBits ipAddressTag (· = octets)).run san = .ok () ↔
      ∃ before t, SanEntry f.usizeBits san before t ∧ t.tag = ipAddressTag ∧ t.body = octets ∧
        ∀ e ∈ before, e.AddressSized := by
  rw [sanEntryLoop_ok_iff]
  refine exists_congr fun before => exists_congr fun t => and_congr_right fun _ =>
    and_congr_right fun _ => ?_
  rw [decide_eq_true_eq]
  refine and_congr_right fun hbody => ⟨fun hall e he => ?_, fun hall _ => ?_⟩
  · exact hall rfl e (List.mem_append_left _ he)
  · refine List.forall_mem_append.mpr ⟨hall, List.forall_mem_singleton.mpr fun _ => ?_⟩
    rwa [hbody]

/-- A hostname spells at most one address, and that is the one looked for. -/
theorem ipHost_ok_iff :
    (match parseIpv4 (unbracket hostname), parseIpv6 (unbracket hostname) with
      | some octets, _ => (sanEntryLoop f.usizeBits ipAddressTag (· = octets)).run san
      | none, some octets => (sanEntryLoop f.usizeBits ipAddressTag (· = octets)).run san
      | none, none => .error .hostnameMismatch) = .ok () ↔
    ∃ octets, IpLiteral hostname octets ∧ ∃ before t, SanEntry f.usizeBits san before t ∧
      t.tag = ipAddressTag ∧ t.body = octets ∧ ∀ e ∈ before, e.AddressSized := by
  have hunique {octets : Bytes} (hliteral : ∀ octets', IpLiteral hostname octets' ↔ octets = octets') :
      (sanEntryLoop f.usizeBits ipAddressTag (· = octets)).run san = .ok () ↔
        ∃ octets', IpLiteral hostname octets' ∧ ∃ before t, SanEntry f.usizeBits san before t ∧
          t.tag = ipAddressTag ∧ t.body = octets' ∧ ∀ e ∈ before, e.AddressSized := by
    rw [matchIpAddress_ok_iff f san ((hliteral octets).mpr rfl).length]
    simp only [hliteral, exists_eq_left']
  cases hv4 : parseIpv4 (unbracket hostname) with
  | some octets =>
    refine hunique fun octets' => ?_
    rw [ipLiteral_iff, hv4, parseIpv6_eq_none_of_parseIpv4 hv4]
    simp
  | none =>
    cases hv6 : parseIpv6 (unbracket hostname) with
    | some octets =>
      refine hunique fun octets' => ?_
      rw [ipLiteral_iff, hv4, hv6]
      simp
    | none =>
      refine iff_of_false (by simp) ?_
      rintro ⟨octets, hliteral, -⟩
      rw [ipLiteral_iff, hv4, hv6] at hliteral
      simp at hliteral

/-- A hostname is accepted exactly if a name or, in builds with addresses, an address of the
certificate binds it; what is an address to the standard library is bound by addresses only. -/
theorem verifyHostname_ok_iff (view : CertView) :
    (verifyHostname f { view with san := some san } hostname = .ok () ↔
      DnsBound f san hostname ∨ f.ipHost = true ∧ IpBound f san hostname) ∧
    (∀ octets, parseIpv4 hostname = some octets ∨ parseIpv6 hostname = some octets →
      ¬DnsBound f san hostname) := by
  constructor
  · unfold verifyHostname
    dsimp only
    by_cases hip : looksLikeIpLiteral hostname = true
    · rw [if_pos hip]
      have hdns : ¬DnsBound f san hostname := by
        rintro ⟨hname, -⟩
        rw [hip] at hname
        cases hname
      rw [or_iff_right hdns]
      by_cases hhost : f.ipHost = true
      · rw [if_pos hhost, and_iff_right hhost, IpBound, and_iff_right hip]
        exact ipHost_ok_iff f san hostname
      · rw [if_neg hhost]
        exact iff_of_false (by simp) fun h => hhost h.1
    · rw [if_neg hip, sanEntryLoop_ok_iff]
      have haddress : ¬(f.ipHost = true ∧ IpBound f san hostname) := fun h => hip h.2.1
      rw [or_iff_left haddress, DnsBound, and_iff_right (Bool.eq_false_iff.mpr hip)]
      refine exists_congr fun before => exists_congr fun t => and_congr_right fun _ =>
        and_congr_right fun _ => ?_
      rw [dnsNameMatches_iff]
      exact and_iff_left fun htag => absurd htag (by decide)
  · rintro octets hparse ⟨hname, -⟩
    have hip : looksLikeIpLiteral hostname = true := by
      obtain hv4 | hv6 := hparse
      · exact looksLikeIpLiteral_of_parseIpv4 hv4
      · exact looksLikeIpLiteral_of_parseIpv6 hv6
    rw [hip] at hname
    cases hname

end Hostname

end KrabiTls
