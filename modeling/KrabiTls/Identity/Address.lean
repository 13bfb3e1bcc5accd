import KrabiTls.Identity
import Mathlib.Data.List.TakeWhile

/-! The shapes of textual IP addresses: what the parser reads consists of digits and dots, or has a
colon in it. -/
namespace KrabiTls
open Lib

variable {octets rest s : Bytes}

theorem isAsciiDigit_of_digit {b : UInt8} (h : (digit 10 b).isSome = true) : isAsciiDigit b = true := by
  by_contra hdigit
  obtain ⟨v, hv⟩ := Option.isSome_iff_exists.mp h
  obtain ⟨hhex, hlt⟩ := Option.filter_eq_some_iff.mp hv
  unfold hexDigit at hhex
  rw [if_neg hdigit] at hhex
  split at hhex
  · cases hhex
    simp at hlt
  · split at hhex
    · cases hhex
      simp at hlt
    · cases hhex

theorem readNumber_eq_some {radix maxDigits max v : Nat} {zeros : Bool}
    (h : readNumber radix maxDigits zeros max s = some (v, rest)) :
    ∃ digits, digits ≠ [] ∧ (∀ b ∈ digits, (digit radix b).isSome = true) ∧ s = digits ++ rest := by
  unfold readNumber at h
  dsimp only at h
  split at h
  · cases h
  · rename_i hdigits
    split at h
    · cases h
    · cases h
      exact ⟨s.takeWhile fun b => (digit radix b).isSome, fun hnil => hdigits (.inl hnil),
        fun b hb => List.mem_takeWhile_imp (p := fun b => (digit radix b).isSome) hb,
        (List.prefix_iff_eq_append.mp (List.takeWhile_prefix _)).symm⟩

theorem readGivenChar_eq_some {c : UInt8} : readGivenChar c s = some rest ↔ s = c :: rest := by
  cases s with
  | nil => simp [readGivenChar]
  | cons b s =>
    unfold readGivenChar
    rw [Option.ite_none_right_eq_some, Option.some.injEq, List.cons.injEq]

def DigitsAndDots (s : Bytes) : Prop := ∀ b ∈ s, b = 0x2E ∨ isAsciiDigit b = true

theorem readNumber_digits {maxDigits max v : Nat} {zeros : Bool}
    (h : readNumber 10 maxDigits zeros max s = some (v, rest)) :
    ∃ digits, DigitsAndDots digits ∧ s = digits ++ rest := by
  obtain ⟨digits, -, hdigits, rfl⟩ := readNumber_eq_some h
  exact ⟨digits, fun b hb => .inr (isAsciiDigit_of_digit (hdigits b hb)), rfl⟩

theorem DigitsAndDots.append {t : Bytes} (hs : DigitsAndDots s) (ht : DigitsAndDots t) :
    DigitsAndDots (s ++ t) :=
  List.forall_mem_append.mpr ⟨hs, ht⟩

theorem DigitsAndDots.dot (hs : DigitsAndDots s) : DigitsAndDots (0x2E :: s) :=
  List.forall_mem_cons.mpr ⟨.inl rfl, hs⟩

theorem readIpv4Addr_eq_some (h : readIpv4Addr s = some (octets, rest)) :
    octets.length = 4 ∧ ∃ front, DigitsAndDots front ∧ 0x2E ∈ front ∧ s = front ++ rest := by
  simp only [readIpv4Addr, Option.bind_eq_bind, Option.bind_eq_some_iff, readGivenChar_eq_some] at h
  obtain ⟨⟨a, s₁⟩, ha, s₂, rfl, ⟨b, s₃⟩, hb, s₄, rfl, ⟨c, s₅⟩, hc, s₆, rfl, ⟨d, s₇⟩, hd, h⟩ := h
  cases h
  obtain ⟨as, has, rfl⟩ := readNumber_digits ha
  obtain ⟨bs, hbs, rfl⟩ := readNumber_digits hb
  obtain ⟨cs, hcs, rfl⟩ := readNumber_digits hc
  obtain ⟨ds, hds, rfl⟩ := readNumber_digits hd
  refine ⟨rfl, as ++ 0x2E :: (bs ++ 0x2E :: (cs ++ 0x2E :: ds)), ?_, by simp, by simp⟩
  exact has.append (hbs.append (hcs.append hds.dot).dot).dot

theorem parseIpv4_eq_some (h : parseIpv4 s = some octets) :
    octets.length = 4 ∧ DigitsAndDots s ∧ 0x2E ∈ s := by
  obtain ⟨-, h⟩ := Option.ite_none_left_eq_some.mp h
  obtain ⟨⟨read, rest⟩, hread, h⟩ := Option.bind_eq_some_iff.mp h
  obtain ⟨rfl, h⟩ := Option.ite_none_right_eq_some.mp h
  cases h
  obtain ⟨hlen, front, hfront, hdot, rfl⟩ := readIpv4Addr_eq_some hread
  rw [List.append_nil]
  exact ⟨hlen, hfront, hdot⟩

theorem readSeparator_eq_some {sep : UInt8} {index : Nat}
    (h : readSeparator sep index s = some rest) : rest <:+ s ∧ (0 < index → sep ∈ s) := by
  unfold readSeparator at h
  split at h
  · rw [readGivenChar_eq_some.mp h]
    exact ⟨List.suffix_cons _ _, fun _ => List.mem_cons_self⟩
  · rename_i hindex
    cases h
    exact ⟨List.suffix_refl _, fun hpos => absurd hpos hindex⟩

/-- Group after group: all but the first have a colon in front, and a first one alone is short. -/
theorem readGroups_spec (left index : Nat) (s : Bytes) :
    let r := readGroups left index s
    r.2.2 <:+ s ∧ r.1.length ≤ 2 * left ∧
      (0x3A ∈ s ∨ r.1 = [] ∨ index = 0 ∧ r.1.length ≤ 4) := by
  induction left generalizing index s with
  | zero => exact ⟨List.suffix_refl _, Nat.le_refl _, .inr (.inl rfl)⟩
  | succ left ih =>
    unfold readGroups
    dsimp only
    split
    · rename_i octets rest h
      obtain ⟨hleft, h⟩ := Option.ite_none_right_eq_some.mp h
      obtain ⟨after, hsep, hread⟩ := Option.bind_eq_some_iff.mp h
      obtain ⟨hsuffix, hcolon⟩ := readSeparator_eq_some hsep
      obtain ⟨hlen, front, -, -, rfl⟩ := readIpv4Addr_eq_some hread
      refine ⟨(List.suffix_append _ _).trans hsuffix, by dsimp only; omega, ?_⟩
      by_cases hindex : 0 < index
      · exact .inl (hcolon hindex)
      · exact .inr (.inr ⟨by omega, Nat.le_of_eq hlen⟩)
    · split
      · exact ⟨List.suffix_refl _, Nat.zero_le _, .inr (.inl rfl)⟩
      · rename_i group rest h
        obtain ⟨after, hsep, hread⟩ := Option.bind_eq_some_iff.mp h
        obtain ⟨hsuffix, hcolon⟩ := readSeparator_eq_some hsep
        obtain ⟨digits, -, -, rfl⟩ := readNumber_eq_some hread
        obtain ⟨hrest, hlen, hmore⟩ := ih (index + 1) rest
        have hafter : rest <:+ s := (List.suffix_append _ _).trans hsuffix
        refine ⟨hrest.trans hafter, ?_, ?_⟩
        · rw [List.length_append, toBe_length]
          omega
        · by_cases hindex : 0 < index
          · exact .inl (hcolon hindex)
          · obtain hmem | hnil | ⟨hzero, -⟩ := hmore
            · exact .inl (hafter.mem hmem)
            · refine .inr (.inr ⟨by omega, ?_⟩)
              rw [hnil, List.append_nil, toBe_length]
              decide
            · omega

theorem parseIpv6_eq_some (h : parseIpv6 s = some octets) : octets.length = 16 ∧ 0x3A ∈ s := by
  obtain ⟨⟨read, rest⟩, hread, h⟩ := Option.bind_eq_some_iff.mp h
  obtain ⟨rfl, h⟩ := Option.ite_none_right_eq_some.mp h
  cases h
  obtain ⟨hsuffix, hlen, hcolon⟩ := readGroups_spec 8 0 s
  unfold readIpv6Addr at hread
  generalize readGroups 8 0 s = r at *
  obtain ⟨head, headIpv4, rest⟩ := r
  dsimp only at *
  split at hread
  · rename_i hfull
    cases hread
    refine ⟨hfull, ?_⟩
    obtain hmem | hnil | ⟨-, hshort⟩ := hcolon
    · exact hmem
    · rw [hnil] at hfull
      cases hfull
    · omega
  · rename_i hpartial
    split at hread
    · cases hread
    · simp only [Option.bind_eq_bind, Option.bind_eq_some_iff, readGivenChar_eq_some] at hread
      obtain ⟨_, rfl, tail, rfl, h⟩ := hread
      obtain ⟨-, htail, -⟩ := readGroups_spec (8 - (head.length / 2 + 1)) 0 tail
      obtain ⟨rfl, -⟩ := Prod.mk.inj (Option.some.inj h)
      refine ⟨?_, hsuffix.mem List.mem_cons_self⟩
      simp only [List.length_append, List.length_replicate]
      omega

theorem readNumber_bracket (radix maxDigits max : Nat) (zeros : Bool) (s : Bytes) :
    readNumber radix maxDigits zeros max (0x5B :: s) = none := by
  have hdigit : digit radix 0x5B = none := by
    rw [digit, show hexDigit 0x5B = none by decide]
    rfl
  rw [readNumber, List.takeWhile_cons_of_neg (by rw [hdigit]; decide)]
  exact if_pos (.inl rfl)

theorem parse_bracket (s : Bytes) : parseIpv4 (0x5B :: s) = none ∧ parseIpv6 (0x5B :: s) = none := by
  constructor
  · by_contra h
    obtain ⟨octets, hparse⟩ := Option.ne_none_iff_exists'.mp h
    obtain hdot | hdigit := (parseIpv4_eq_some hparse).2.1 0x5B List.mem_cons_self
    · cases hdot
    · cases hdigit
  · simp [parseIpv6, readIpv6Addr, readGroups, readSeparator, readIpv4Addr, readNumber_bracket,
      readGivenChar]

/-- Strings that are read as an address, with or without brackets. -/
def IpLiteral (hostname octets : Bytes) : Prop :=
  ∃ literal, (hostname = literal ∨ hostname = 0x5B :: (literal ++ [0x5D])) ∧
    (parseIpv4 literal = some octets ∨ parseIpv6 literal = some octets)

theorem ipLiteral_iff {hostname : Bytes} : IpLiteral hostname octets ↔
      parseIpv4 (unbracket hostname) = some octets ∨ parseIpv6 (unbracket hostname) = some octets := by
  constructor
  · rintro ⟨literal, rfl | rfl, hparse⟩
    · have hhead : hostname.head? ≠ some 0x5B := by
        intro hhead
        obtain ⟨rest, rfl⟩ := List.head?_eq_some_iff.mp hhead
        rw [(parse_bracket rest).1, (parse_bracket rest).2] at hparse
        obtain hparse | hparse := hparse <;> cases hparse
      rw [unbracket, if_neg (fun h => hhead h.1)]
      exact hparse
    · have hlast : (0x5B :: (literal ++ [0x5D])).getLast? = some 0x5D := by
        rw [← List.cons_append, List.getLast?_concat]
      have hbrackets : unbracket (0x5B :: (literal ++ [0x5D])) = literal := by
        rw [unbracket, if_pos ⟨rfl, by simp, hlast⟩, List.drop_one, List.tail_cons, List.dropLast_concat]
      rw [hbrackets]
      exact hparse
  · intro hparse
    unfold unbracket at hparse
    split at hparse
    · rename_i hbrackets
      obtain ⟨hhead, hlen, hlast⟩ := hbrackets
      obtain ⟨rest, rfl⟩ := List.head?_eq_some_iff.mp hhead
      obtain ⟨front, hfront⟩ := List.getLast?_eq_some_iff.mp hlast
      cases front with
      | nil =>
        rw [hfront] at hlen
        exact absurd hlen (by decide)
      | cons b literal =>
        rw [List.cons_append] at hfront
        obtain ⟨rfl, rfl⟩ := List.cons.inj hfront
        rw [List.drop_one, List.tail_cons, List.dropLast_concat] at hparse
        exact ⟨literal, .inr rfl, hparse⟩
    · exact ⟨hostname, .inl rfl, hparse⟩

end KrabiTls
