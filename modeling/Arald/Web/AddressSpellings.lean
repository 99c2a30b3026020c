import Arald.Web.PublicAddresses

/-!
# The address, not its spelling

The check of an address agrees with the ranges on the number that the address is: for
dotted decimal IPv4, and for IPv6 in hexadecimal groups whatever their case, their
leading zeros and the place of `::`.
-/

namespace Arald

open Foundations

/-! ### Joined texts -/

variable {sep x : Char} {part text : List Char} {parts : List (List Char)}

theorem intercalate_cons_flatMap (sep : Char) (part : List Char) (parts : List (List Char)) :
    [sep].intercalate (part :: parts) = part ++ parts.flatMap (sep :: ·) := by
  induction parts generalizing part with
  | nil => simp
  | cons p parts ih =>
    rw [List.intercalate_cons_cons, ih, List.flatMap_cons]
    simp

theorem mem_intercalate (hx : x ≠ sep) : x ∈ [sep].intercalate parts ↔ ∃ part ∈ parts, x ∈ part := by
  cases parts with
  | nil => simp
  | cons part parts =>
    rw [intercalate_cons_flatMap]
    simp [hx]

theorem mem_splitOn (hx : x ≠ sep) : x ∈ text ↔ ∃ part ∈ text.splitOn sep, x ∈ part := by
  have hjoin : [sep].intercalate (text.splitOn sep) = text := List.intercalate_splitOn sep
  rw [← mem_intercalate hx, hjoin]

theorem map_intercalate (f : Char → Char) (hf : f sep = sep) (parts : List (List Char)) :
    ([sep].intercalate parts).map f = [sep].intercalate (parts.map (·.map f)) := by
  cases parts with
  | nil => rfl
  | cons part parts =>
    rw [intercalate_cons_flatMap, List.map_cons, intercalate_cons_flatMap, List.map_append, List.map_flatMap,
      List.flatMap_map]
    simp [hf]

/-! ### IPv4 -/

theorem parseIpv4Number_of_isDecimal {part : List Char} (h : isDecimal part = true) :
    parseIpv4Number part = some (numeral 10 part) := by
  obtain ⟨⟨hne, hdigits⟩, hzero⟩ : (part ≠ [] ∧ ∀ c ∈ part, isDigit 10 c = true) ∧
      (part = ['0'] ∨ part.head? ≠ some '0') := by
    simpa [isDecimal] using h
  rcases hzero with rfl | hhead
  · rfl
  · unfold parseIpv4Number
    split
    · exact absurd rfl hne
    · rfl
    · simp at hhead
    · exact if_pos (List.all_eq_true.mpr hdigits)

/-- The bytes of an address, put together. -/
theorem bytes_eq {a b c d : ℕ} (ha : a ≤ 255) (hb : b ≤ 255) (hc : c ≤ 255) (hd : d ≤ 255) :
    (a <<< 24 ||| b <<< 16 ||| c <<< 8 ||| d) % 2 ^ 32 = a * 256 ^ 3 + b * 256 ^ 2 + c * 256 + d := by
  have hcd : c <<< 8 ||| d = c * 256 + d := by
    rw [← Nat.shiftLeft_add_eq_or_of_lt (by omega), Nat.shiftLeft_eq]
  have hbcd : b <<< 16 ||| (c <<< 8 ||| d) = b * 256 ^ 2 + (c * 256 + d) := by
    rw [hcd, ← Nat.shiftLeft_add_eq_or_of_lt (by omega), Nat.shiftLeft_eq]
    rfl
  have habcd : a <<< 24 ||| (b <<< 16 ||| (c <<< 8 ||| d)) = a * 256 ^ 3 + (b * 256 ^ 2 + (c * 256 + d)) := by
    rw [hbcd, ← Nat.shiftLeft_add_eq_or_of_lt (by omega), Nat.shiftLeft_eq]
    rfl
  rw [Nat.or_assoc, Nat.or_assoc, habcd, Nat.mod_eq_of_lt (by omega)]
  omega

theorem isIPv4_parts {text : List Char} (h : isIPv4 text = true) : ∃ a b c d,
    text.splitOn '.' = [a, b, c, d] ∧ ∀ part ∈ [a, b, c, d], isDecimal part = true ∧ numeral 10 part ≤ 255 := by
  obtain ⟨hlength, hparts⟩ : (text.splitOn '.').length = 4 ∧
      ∀ part ∈ text.splitOn '.', isDecimal part = true ∧ numeral 10 part ≤ 255 := by
    simpa [isIPv4] using h
  match hsplit : text.splitOn '.', hlength, hparts with
  | [a, b, c, d], _, hparts => exact ⟨a, b, c, d, rfl, hparts⟩

/-- The value of a dotted decimal address is the one the URL parser reads. -/
theorem parseIpv4_of_isIPv4 {text : List Char} (h : isIPv4 text = true) :
    parseIpv4 text = some (ipv4ToInt text) := by
  obtain ⟨a, b, c, d, hsplit, hparts⟩ := isIPv4_parts h
  obtain ⟨ha, hb, hc, hd⟩ : (isDecimal a = true ∧ numeral 10 a ≤ 255) ∧ (isDecimal b = true ∧ numeral 10 b ≤ 255) ∧
      (isDecimal c = true ∧ numeral 10 c ≤ 255) ∧ (isDecimal d = true ∧ numeral 10 d ≤ 255) := by
    simpa using hparts
  have hne : d ≠ [] := by
    rintro rfl
    exact absurd hd.1 (by decide)
  have hlast : ¬(1 < [a, b, c, d].length ∧ [a, b, c, d].getLast? = some []) := by simpa using hne
  have hvalue : ipv4ToInt text =
      numeral 10 a * 256 ^ 3 + numeral 10 b * 256 ^ 2 + numeral 10 c * 256 + numeral 10 d := by
    rw [ipv4ToInt, hsplit]
    exact bytes_eq ha.2 hb.2 hc.2 hd.2
  have hnumbers : [a, b, c, d].mapM parseIpv4Number =
      some [numeral 10 a, numeral 10 b, numeral 10 c, numeral 10 d] := by
    simp [parseIpv4Number_of_isDecimal, ha.1, hb.1, hc.1, hd.1]
  rw [parseIpv4, hsplit]
  rw [if_neg hlast, hnumbers, Option.bind_some, hvalue, ipv4OfNumbers]
  have hfits : ¬(4 < [numeral 10 a, numeral 10 b, numeral 10 c, numeral 10 d].length ∨
      [numeral 10 a, numeral 10 b, numeral 10 c].any (fun n => decide (255 < n)) = true ∨
      256 ^ (5 - [numeral 10 a, numeral 10 b, numeral 10 c, numeral 10 d].length) ≤ numeral 10 d) := by
    simp
    omega
  refine (if_neg hfits).trans ?_
  simp [Nat.add_assoc]

theorem reservedRanges_read : ∀ range ∈ ipv4ReservedRanges,
    parseIpv4 range.1.toList = some (ipv4ToInt range.1.toList) ∧
      parseIpv4 range.2.toList = some (ipv4ToInt range.2.toList) := by
  decide

/-- The branch for version 4 judges the address by its number. -/
theorem isPublicIpv4_eq (text : List Char) : isPublicIpv4 text = !isReservedIpv4 (ipv4ToInt text) := by
  have hsame : ∀ ranges ⊆ ipv4ReservedRanges,
      (ranges.any fun range => decide (ipv4ToInt range.1.toList ≤ ipv4ToInt text) &&
        decide (ipv4ToInt text ≤ ipv4ToInt range.2.toList)) =
      ranges.any fun range => (parseIpv4 range.1.toList).any (fun a => decide (a ≤ ipv4ToInt text)) &&
        (parseIpv4 range.2.toList).any fun b => decide (ipv4ToInt text ≤ b) := by
    intro ranges hranges
    induction ranges with
    | nil => rfl
    | cons range ranges ih =>
      obtain ⟨hfrom, hto⟩ := reservedRanges_read range (hranges List.mem_cons_self)
      rw [List.any_cons, List.any_cons, ih fun r hr => hranges (List.mem_cons_of_mem _ hr), hfrom, hto,
        Option.any_some, Option.any_some]
  rw [isPublicIpv4, isReservedIpv4, hsame _ (List.Subset.refl _)]

theorem colon_not_mem_of_digits {base : ℕ} {part : List Char} (h : part.all (isDigit base) = true) : ':' ∉ part := by
  intro hmem
  exact absurd (List.all_eq_true.mp h ':' hmem) (by simp [isDigit, digit?])

theorem colon_not_mem_of_parseIpv4Number {part : List Char} {n : ℕ} (h : parseIpv4Number part = some n) :
    ':' ∉ part := by
  unfold parseIpv4Number at h
  split at h
  · cases h
  · simp
  · split_ifs at h with hx hhex hoct
    · rcases hx with rfl | rfl <;> simpa using colon_not_mem_of_digits hhex
    · simpa using colon_not_mem_of_digits hoct
  · split_ifs at h with hdec
    exact colon_not_mem_of_digits hdec

theorem mapM_parse_some {numbers : List ℕ} (h : parts.mapM parseIpv4Number = some numbers) (hmem : part ∈ parts) :
    ∃ n, parseIpv4Number part = some n := by
  induction parts generalizing numbers with
  | nil => cases hmem
  | cons p parts ih =>
    rw [List.mapM_cons] at h
    obtain ⟨n, hn, hrest⟩ := Option.bind_eq_some_iff.mp h
    obtain ⟨ns, hns, -⟩ := Option.bind_eq_some_iff.mp hrest
    rcases List.mem_cons.mp hmem with rfl | hmem
    · exact ⟨n, hn⟩
    · exact ih hns hmem

/-- What the parser reads as an IPv4 address has no colon. -/
theorem colon_not_mem_of_parseIpv4 {n : ℕ} (h : parseIpv4 text = some n) : ':' ∉ text := by
  intro hmem
  obtain ⟨part, hpart, hcolon⟩ := (mem_splitOn (show ':' ≠ '.' by decide)).mp hmem
  obtain ⟨numbers, hnumbers, -⟩ := Option.bind_eq_some_iff.mp h
  obtain ⟨m, hm⟩ : ∃ m, parseIpv4Number part = some m := by
    refine mapM_parse_some hnumbers ?_
    split_ifs with hempty
    -- The part that is left out is empty, and this one is not.
    · have hsplit := List.dropLast_append_getLast? [] (Option.mem_def.mpr hempty.2)
      rw [← hsplit] at hpart
      rcases List.mem_append.mp hpart with hfront | hlast
      · exact hfront
      · rw [List.mem_singleton.mp hlast] at hcolon
        cases hcolon
    · exact hpart
  exact colon_not_mem_of_parseIpv4Number hm hcolon

theorem isIPv6_of_no_colon (h : ':' ∉ text) : isIPv6 text = false := by
  have hnone : splitDoubleColon text = none := by
    induction text with
    | nil => rfl
    | cons c text ih =>
      have hc : c ≠ ':' := fun hc => h (hc ▸ List.mem_cons_self)
      rw [splitDoubleColon, if_neg fun hp => hc hp.1, ih fun hmem => h (List.mem_cons_of_mem _ hmem)]
      rfl
  have hgroups : (splitGroups text).length ≤ 1 := by
    rw [splitGroups]
    split_ifs with hempty
    · simp
    · have hsplit : ([':'].intercalate [text]).splitOn ':' = [text] :=
        List.splitOn_intercalate ':' (by simpa using h) (List.cons_ne_nil text [])
      rw [List.intercalate_singleton] at hsplit
      rw [hsplit]
      simp
  rw [isIPv6, hnone]
  simp only [groupCount]
  split_ifs <;> simp <;> omega

/-- An IPv4 address is public exactly when it is written in dotted decimal and lies in none of
the ranges. -/
theorem isPublicAddress_ipv4 {n : ℕ} (h : parseIpv4 text = some n) :
    isPublicAddress text = (isIPv4 text && !isReservedIpv4 n) := by
  rw [isPublicAddress]
  split_ifs with hdotted hsix
  · have hvalue : n = ipv4ToInt text := Option.some.inj (h.symm.trans (parseIpv4_of_isIPv4 hdotted))
    rw [isPublicIpv4_eq, hvalue, hdotted, Bool.true_and]
  · rw [isIPv6_of_no_colon (colon_not_mem_of_parseIpv4 h)] at hsix
    cases hsix
  · rw [Bool.eq_false_iff.mpr hdotted, Bool.false_and]

/-! ### The groups of an IPv6 address -/

namespace HexGroup

theorem text_ne_nil (g : HexGroup) : g.text ≠ [] := by
  have h := g.isHex
  simp only [isHexGroup, Bool.and_eq_true, decide_eq_true_eq] at h
  exact h.1.1

theorem length_le (g : HexGroup) : g.text.length ≤ 4 := by
  have h := g.isHex
  simp only [isHexGroup, Bool.and_eq_true, decide_eq_true_eq] at h
  exact h.1.2

theorem isDigit_of_mem {c : Char} (g : HexGroup) (h : c ∈ g.text) : isDigit 16 c = true := by
  have hg := g.isHex
  simp only [isHexGroup, Bool.and_eq_true, List.all_eq_true] at hg
  exact hg.2 c h

theorem colon_not_mem (g : HexGroup) : ':' ∉ g.text := fun h => absurd (g.isDigit_of_mem h) (by decide)

/-- The group in lower case. -/
def lower (g : HexGroup) : HexGroup where
  text := g.text.map Char.toLower
  isHex := by
    have h := g.isHex
    simp only [isHexGroup, Bool.and_eq_true, decide_eq_true_eq, List.all_eq_true] at h ⊢
    refine ⟨⟨by simpa using h.1.1, by simpa using h.1.2⟩, fun c hc => ?_⟩
    obtain ⟨d, hd, rfl⟩ := List.mem_map.mp hc
    simpa [isDigit] using h.2 d hd

end HexGroup

theorem splitDoubleColon_append {g : List Char} (h : ':' ∉ g) (rest : List Char) :
    splitDoubleColon (g ++ rest) = (splitDoubleColon rest).map fun sides => (g ++ sides.1, sides.2) := by
  induction g with
  | nil => simp
  | cons c g ih =>
    have hc : c ≠ ':' := fun hc => h (hc ▸ List.mem_cons_self)
    rw [List.cons_append, splitDoubleColon, if_neg fun hp => hc hp.1,
      ih fun hmem => h (List.mem_cons_of_mem _ hmem), Option.map_map]
    rfl

/-- Groups are never empty, so no `::` stands between them. -/
theorem splitDoubleColon_flatMap (groups : List HexGroup) (rest : List Char) :
    splitDoubleColon (groups.flatMap (fun g => ':' :: g.text) ++ rest) =
      (splitDoubleColon rest).map fun sides => (groups.flatMap (fun g => ':' :: g.text) ++ sides.1, sides.2) := by
  induction groups with
  | nil => simp
  | cons g groups ih =>
    obtain ⟨c, cs, hg⟩ : ∃ c cs, g.text = c :: cs := List.exists_cons_of_ne_nil g.text_ne_nil
    have hc : c ≠ ':' := fun hc => g.colon_not_mem (by rw [hg, hc]; exact List.mem_cons_self)
    have hpair : ¬(':' = ':' ∧ (g.text ++ (groups.flatMap (fun g => ':' :: g.text) ++ rest)).head? = some ':') := by
      rw [hg]
      simpa using hc
    rw [List.flatMap_cons, List.cons_append, List.cons_append, List.append_assoc, splitDoubleColon, if_neg hpair,
      splitDoubleColon_append g.colon_not_mem, ih, Option.map_map, Option.map_map]
    simp [Function.comp_def]

namespace Ipv6Literal

theorem joinColons_cons (g : HexGroup) (groups : List HexGroup) :
    joinColons ((g :: groups).map HexGroup.text) = g.text ++ groups.flatMap fun g => ':' :: g.text := by
  rw [joinColons, List.map_cons, intercalate_cons_flatMap, List.flatMap_map]

theorem splitDoubleColon_joinColons (groups : List HexGroup) (rest : List Char) :
    splitDoubleColon (joinColons (groups.map HexGroup.text) ++ rest) =
      (splitDoubleColon rest).map fun sides => (joinColons (groups.map HexGroup.text) ++ sides.1, sides.2) := by
  cases groups with
  | nil => simp [joinColons]
  | cons g groups =>
    rw [joinColons_cons, List.append_assoc, splitDoubleColon_append g.colon_not_mem, splitDoubleColon_flatMap,
      Option.map_map]
    simp [Function.comp_def]

theorem splitDoubleColon_full (groups : List HexGroup) :
    splitDoubleColon (joinColons (groups.map HexGroup.text)) = none := by
  have h := splitDoubleColon_joinColons groups []
  rwa [List.append_nil] at h

theorem splitDoubleColon_compressed (head : List HexGroup) (rest : List Char) :
    splitDoubleColon (joinColons (head.map HexGroup.text) ++ ':' :: ':' :: rest) =
      some (joinColons (head.map HexGroup.text), rest) := by
  rw [splitDoubleColon_joinColons]
  simp [splitDoubleColon]

theorem splitOn_joinColons {groups : List HexGroup} (h : groups ≠ []) :
    (joinColons (groups.map HexGroup.text)).splitOn ':' = groups.map HexGroup.text := by
  refine List.splitOn_intercalate ':' (fun part hpart => ?_) (by simpa using h)
  obtain ⟨g, -, rfl⟩ := List.mem_map.mp hpart
  exact g.colon_not_mem

theorem splitGroups_joinColons (groups : List HexGroup) :
    splitGroups (joinColons (groups.map HexGroup.text)) = groups.map HexGroup.text := by
  cases groups with
  | nil => rfl
  | cons g groups =>
    have hne : joinColons ((g :: groups).map HexGroup.text) ≠ [] := by
      rw [joinColons_cons]
      simp [g.text_ne_nil]
    rw [splitGroups, if_neg hne, splitOn_joinColons (List.cons_ne_nil g groups)]

theorem groupCount_joinColons (quadAllowed : Bool) (groups : List HexGroup) :
    groupCount quadAllowed (joinColons (groups.map HexGroup.text)) = some groups.length := by
  have hall : (groups.map HexGroup.text).all isHexGroup = true := by
    rw [List.all_map]
    exact List.all_eq_true.mpr fun g _ => g.isHex
  simp only [groupCount]
  rw [splitGroups_joinColons, if_pos hall, List.length_map]

/-- The eight groups of an address without a dotted quad. -/
def expanded : Ipv6Literal → List HexGroup
  | full groups _ => groups
  | compressed head tail _ =>
    head ++ List.replicate (8 - head.length - tail.length) ⟨['0'], rfl⟩ ++ tail
  | fullQuad groups _ _ => groups
  | compressedQuad head tail _ _ => head ++ tail

def lower : Ipv6Literal → Ipv6Literal
  | full groups h => full (groups.map HexGroup.lower) (by simpa using h)
  | compressed head tail h => compressed (head.map HexGroup.lower) (tail.map HexGroup.lower) (by simpa using h)
  | fullQuad groups quad h => fullQuad (groups.map HexGroup.lower) quad (by simpa using h)
  | compressedQuad head tail quad h =>
    compressedQuad (head.map HexGroup.lower) (tail.map HexGroup.lower) quad (by simpa using h)

variable {literal : Ipv6Literal}

theorem map_joinColons (groups : List HexGroup) :
    (joinColons (groups.map HexGroup.text)).map Char.toLower =
      joinColons ((groups.map HexGroup.lower).map HexGroup.text) := by
  rw [joinColons, map_intercalate Char.toLower rfl, List.map_map, joinColons, List.map_map]
  rfl

theorem text_lower (h : literal.hasQuad = false) : literal.text.map Char.toLower = literal.lower.text := by
  cases literal with
  | full groups hlength => exact map_joinColons groups
  | compressed head tail hlength =>
    rw [text, List.map_append, List.map_cons, List.map_cons, map_joinColons, map_joinColons]
    rfl
  | fullQuad groups quad hlength => cases h
  | compressedQuad head tail quad hlength => cases h

theorem values_lower (groups : List HexGroup) : values (groups.map HexGroup.lower) = values groups := by
  rw [values, values, List.map_map]
  exact List.map_congr_left fun g _ => numeral_map_toLower 16 g.text

theorem address_lower (h : literal.hasQuad = false) : literal.lower.address = literal.address := by
  cases literal with
  | full groups hlength => exact values_lower groups
  | compressed head tail hlength =>
    simp only [lower, address]
    rw [values_lower, values_lower, List.length_map, List.length_map]
  | fullQuad groups quad hlength => cases h
  | compressedQuad head tail quad hlength => cases h

theorem values_expanded (h : literal.hasQuad = false) : values literal.expanded = literal.address := by
  cases literal with
  | full groups hlength => rfl
  | compressed head tail hlength =>
    simp only [expanded, address, values, List.map_append, List.map_replicate]
    rfl
  | fullQuad groups quad hlength => cases h
  | compressedQuad head tail quad hlength => cases h

theorem length_expanded (h : literal.hasQuad = false) : literal.expanded.length = 8 := by
  cases literal with
  | full groups hlength => exact hlength
  | compressed head tail hlength =>
    simp only [expanded, List.length_append, List.length_replicate]
    omega
  | fullQuad groups quad hlength => cases h
  | compressedQuad head tail quad hlength => cases h

theorem colon_mem (h : literal.hasQuad = false) : ':' ∈ literal.text := by
  cases literal with
  | full groups hlength =>
    match groups, hlength with
    | g :: g' :: groups, _ =>
      rw [text, joinColons_cons]
      simp
  | compressed head tail hlength => simp [text]
  | fullQuad groups quad hlength => cases h
  | compressedQuad head tail quad hlength => cases h

theorem not_isIPv4 (h : literal.hasQuad = false) : isIPv4 literal.text = false := by
  rw [Bool.eq_false_iff]
  intro hdotted
  exact colon_not_mem_of_parseIpv4 (parseIpv4_of_isIPv4 hdotted) (colon_mem h)

theorem isIPv6_text (h : literal.hasQuad = false) : isIPv6 literal.text = true := by
  cases literal with
  | full groups hlength =>
    rw [isIPv6, text, splitDoubleColon_full]
    simpa [groupCount_joinColons] using hlength
  | compressed head tail hlength =>
    rw [isIPv6, text, splitDoubleColon_compressed]
    simpa [groupCount_joinColons, splitDoubleColon_full] using hlength
  | fullQuad groups quad hlength => cases h
  | compressedQuad head tail quad hlength => cases h

theorem expandIPv6Groups_text (h : literal.hasQuad = false) :
    expandIPv6Groups literal.text = some (literal.expanded.map HexGroup.text) := by
  cases literal with
  | full groups hlength =>
    have hne : groups ≠ [] := List.ne_nil_of_length_pos (by omega)
    rw [expandIPv6Groups, text, splitDoubleColon_full]
    simp only [splitOn_joinColons hne, List.length_map, hlength, if_true]
    rfl
  | compressed head tail hlength =>
    rw [expandIPv6Groups, text, splitDoubleColon_compressed]
    have hfits : ¬8 < head.length + tail.length := by omega
    simp [splitDoubleColon_full, splitGroups_joinColons, hfits, expanded]
  | fullQuad groups quad hlength => cases h
  | compressedQuad head tail quad hlength => cases h

end Ipv6Literal

/-! ### The value of a group -/

theorem parseHex_of_digits (hne : text ≠ []) (h : ∀ c ∈ text, isDigit 16 c = true) :
    parseHex text = some (numeral 16 text) := by
  obtain ⟨c, cs, rfl⟩ := List.exists_cons_of_ne_nil hne
  rw [parseHex, List.takeWhile_eq_self_iff.mpr h]

theorem eq_f_of_digit {c : Char} (h : (digit? c).getD 0 = 15) : c.toLower = 'f' := by
  rw [digit?] at h
  split_ifs at h with hdecimal hlower hupper
  · have hc : c.toNat ≤ '9'.toNat := hdecimal.2
    simp at h hc
    omega
  · have hc : c = 'f' := Char.toNat_inj.mp (by simp at h ⊢; omega)
    rw [hc]
    rfl
  · have hc : c = 'F' := Char.toNat_inj.mp (by simp at h ⊢; omega)
    rw [hc]
    rfl
  · cases h

namespace HexGroup

theorem parseHex_text (g : HexGroup) : parseHex g.text = some (numeral 16 g.text) :=
  parseHex_of_digits g.text_ne_nil fun _ => g.isDigit_of_mem

theorem value_lt (g : HexGroup) : numeral 16 g.text < 65536 :=
  calc numeral 16 g.text < 16 ^ g.text.length := numeral_lt fun _ => g.isDigit_of_mem
    _ ≤ 16 ^ 4 := Nat.pow_le_pow_right (by decide) g.length_le
    _ = 65536 := rfl

/-- In lower case only one group has the value of `ffff`. -/
theorem lower_eq_ffff (g : HexGroup) : g.lower.text = "ffff".toList ↔ numeral 16 g.text = 0xffff := by
  have hvalue : numeral 16 g.lower.text = numeral 16 g.text := numeral_map_toLower 16 g.text
  constructor
  · intro h
    rw [← hvalue, h]
    rfl
  · intro h
    have hlength : g.text.length = 4 := by
      refine le_antisymm g.length_le (Nat.lt_of_not_le fun hshort => ?_)
      have hlt : numeral 16 g.text < 16 ^ g.text.length := numeral_lt fun _ => g.isDigit_of_mem
      have hpow : 16 ^ g.text.length ≤ 16 ^ 3 := Nat.pow_le_pow_right (by decide) (by omega)
      omega
    have hdigits : ∀ c ∈ g.text, (digit? c).getD 0 < 16 := fun c hc => digit_lt (g.isDigit_of_mem hc)
    change g.text.map Char.toLower = "ffff".toList
    match htext : g.text, hlength with
    | [a, b, c, d], _ =>
      rw [htext] at h hdigits
      simp only [numeral_cons, List.length_cons, List.length_nil, numeral_nil] at h
      have ha := hdigits a (by simp)
      have hb := hdigits b (by simp)
      have hc := hdigits c (by simp)
      have hd := hdigits d (by simp)
      simp [eq_f_of_digit (c := a) (by omega), eq_f_of_digit (c := b) (by omega), eq_f_of_digit (c := c) (by omega),
        eq_f_of_digit (c := d) (by omega)]

/-- The two bytes of a group, as the template literal shows them. -/
theorem showNumber_padStart4 (g : HexGroup) :
    showNumber (parseHex ((padStart4 g.text).take 2)) = Nat.toDigits 10 (numeral 16 g.text / 256) ∧
      showNumber (parseHex (((padStart4 g.text).drop 2).take 2)) = Nat.toDigits 10 (numeral 16 g.text % 256) := by
  have hlength : (padStart4 g.text).length = 4 := by
    have := g.length_le
    simp [padStart4]
    omega
  have hvalue : numeral 16 (padStart4 g.text) = numeral 16 g.text := numeral_replicate_zero_append 16 _ g.text
  have hdigits : ∀ c ∈ padStart4 g.text, isDigit 16 c = true := by
    intro c hc
    rcases List.mem_append.mp hc with hzero | hmem
    · rw [List.eq_of_mem_replicate hzero]
      rfl
    · exact g.isDigit_of_mem hmem
  rw [← hvalue]
  match htext : padStart4 g.text, hlength with
  | [a, b, c, d], _ =>
    rw [htext] at hdigits
    have hhigh : ∀ x ∈ [a, b], isDigit 16 x = true := fun x hx => hdigits x (by simp at hx ⊢; tauto)
    have hlow : ∀ x ∈ [c, d], isDigit 16 x = true := fun x hx => hdigits x (by simp at hx ⊢; tauto)
    have hsplit : numeral 16 [a, b, c, d] = numeral 16 [a, b] * 256 + numeral 16 [c, d] := numeral_append 16 [a, b] [c, d]
    have hlt : numeral 16 [c, d] < 256 := numeral_lt hlow
    constructor
    · change showNumber (parseHex [a, b]) = _
      rw [parseHex_of_digits (List.cons_ne_nil a [b]) hhigh, hsplit]
      exact congrArg (Nat.toDigits 10) (by omega)
    · change showNumber (parseHex [c, d]) = _
      rw [parseHex_of_digits (List.cons_ne_nil c [d]) hlow, hsplit]
      exact congrArg (Nat.toDigits 10) (by omega)

end HexGroup

/-! ### Dotted quads -/

namespace DottedQuad

def bytes (q : DottedQuad) : List (List Char) :=
  [Nat.toDigits 10 q.a, Nat.toDigits 10 q.b, Nat.toDigits 10 q.c, Nat.toDigits 10 q.d]

theorem splitOn_text (q : DottedQuad) : q.text.splitOn '.' = q.bytes := by
  refine List.splitOn_intercalate '.' (fun part hpart hmem => ?_) (by simp)
  obtain ⟨n, hn, rfl⟩ : ∃ n < 256, part = Nat.toDigits 10 n := by
    simp only [List.mem_cons, List.not_mem_nil, or_false] at hpart
    rcases hpart with rfl | rfl | rfl | rfl
    · exact ⟨_, q.a.isLt, rfl⟩
    · exact ⟨_, q.b.isLt, rfl⟩
    · exact ⟨_, q.c.isLt, rfl⟩
    · exact ⟨_, q.d.isLt, rfl⟩
  have hdecimal := (toDigits_byte hn).2.1
  simp only [isDecimal, Bool.and_eq_true, List.all_eq_true] at hdecimal
  exact absurd (hdecimal.1.2 '.' hmem) (by decide)

theorem isIPv4_text (q : DottedQuad) : isIPv4 q.text = true := by
  have hbyte : ∀ n : Fin 256, isDecimal (Nat.toDigits 10 n) = true ∧ numeral 10 (Nat.toDigits 10 n) ≤ 255 := by
    intro n
    have h := toDigits_byte n.isLt
    exact ⟨h.2.1, by omega⟩
  rw [isIPv4, splitOn_text]
  simp [bytes, hbyte]

theorem ipv4ToInt_text (q : DottedQuad) :
    ipv4ToInt q.text = q.a * 256 ^ 3 + q.b * 256 ^ 2 + q.c * 256 + q.d := by
  have hbyte : ∀ n : Fin 256, numeral 10 (Nat.toDigits 10 n) = n := fun n => (toDigits_byte n.isLt).1
  rw [ipv4ToInt, splitOn_text]
  simp only [bytes, List.getD_cons_zero, List.getD_cons_succ, hbyte]
  exact bytes_eq (by omega) (by omega) (by omega) (by omega)

end DottedQuad

/-! ### The check on eight groups -/

/-- The last two groups as four bytes. -/
def HexGroup.quad (high low : HexGroup) : DottedQuad where
  a := ⟨numeral 16 high.text / 256, Nat.div_lt_of_lt_mul high.value_lt⟩
  b := ⟨numeral 16 high.text % 256, Nat.mod_lt _ (by decide)⟩
  c := ⟨numeral 16 low.text / 256, Nat.div_lt_of_lt_mul low.value_lt⟩
  d := ⟨numeral 16 low.text % 256, Nat.mod_lt _ (by decide)⟩

theorem HexGroup.ipv4ToInt_quad (high low : HexGroup) :
    ipv4ToInt (high.quad low).text = 65536 * numeral 16 high.text + numeral 16 low.text := by
  rw [DottedQuad.ipv4ToInt_text]
  simp only [HexGroup.quad]
  omega

theorem embeddedIpv4_eq {groups : List (List Char)} {high low : HexGroup} (hhigh : groups.getD 6 [] = high.text)
    (hlow : groups.getD 7 [] = low.text) : embeddedIpv4 groups = (high.quad low).text := by
  rw [embeddedIpv4, hhigh, hlow, high.showNumber_padStart4.1, high.showNumber_padStart4.2, low.showNumber_padStart4.1,
    low.showNumber_padStart4.2]
  rfl

theorem isReservedIpv4_small {n : ℕ} (h : n ≤ 1) : isReservedIpv4 n = true := by
  rcases Nat.le_one_iff_eq_zero_or_eq_one.mp h with rfl | rfl
  · decide
  · decide

theorem HexGroup.parseHex_lower (g : HexGroup) : parseHex g.lower.text = some (numeral 16 g.text) := by
  rw [g.lower.parseHex_text]
  exact congrArg some (numeral_map_toLower 16 g.text)

/-- The order in which the ranges are tried does not matter. -/
theorem judged_same (linkLocal uniqueLocal zeros mapped compatible reserved unspecified loopback : Bool)
    (hspecial : (unspecified || loopback) = true → (zeros && compatible && reserved) = true) :
    (if linkLocal then false else if uniqueLocal then false
      else if zeros && mapped || zeros && compatible then true && !reserved else true) =
    !(unspecified || loopback || linkLocal || uniqueLocal || zeros && (compatible || mapped) && reserved) := by
  revert linkLocal uniqueLocal zeros mapped compatible reserved unspecified loopback
  decide

/-- In lower case the groups are judged by their values. -/
theorem isPublicGroups_lower {groups : List HexGroup} (h : groups.length = 8) :
    isPublicGroups ((groups.map HexGroup.lower).map HexGroup.text) = !isReservedIpv6 (Ipv6Literal.values groups) := by
  match groups, h with
  | [g0, g1, g2, g3, g4, g5, g6, g7], _ =>
    have hvalue : ∀ g : HexGroup, numeral 16 g.lower.text = numeral 16 g.text := fun g => numeral_map_toLower 16 g.text
    have hembedded : embeddedIpv4 (([g0, g1, g2, g3, g4, g5, g6, g7].map HexGroup.lower).map HexGroup.text) =
        (g6.lower.quad g7.lower).text := embeddedIpv4_eq rfl rfl
    have hnumber : ipv4ToInt (g6.lower.quad g7.lower).text = 65536 * numeral 16 g6.text + numeral 16 g7.text := by
      rw [HexGroup.ipv4ToInt_quad, hvalue, hvalue]
    rw [isPublicGroups, hembedded, DottedQuad.isIPv4_text, isPublicIpv4_eq, hnumber, isReservedIpv6]
    simp only [Ipv6Literal.values, List.map_cons, List.map_nil, List.getD_cons_zero, List.getD_cons_succ,
      HexGroup.parseHex_lower, HexGroup.lower_eq_ffff, Option.any_some, List.take_succ_cons, List.take_zero,
      List.all_cons, List.all_nil, Option.some.injEq, Bool.and_true]
    rw [← judged_same]
    · simp only [Bool.and_assoc]
    -- The unspecified address and the loopback address embed `0.0.0.0` and `0.0.0.1`.
    · intro hspecial
      simp only [Bool.or_eq_true, decide_eq_true_eq, List.cons.injEq, and_true] at hspecial
      rcases hspecial with ⟨h0, h1, h2, h3, h4, h5, h6, h7⟩ | ⟨h0, h1, h2, h3, h4, h5, h6, h7⟩
      · rw [h0, h1, h2, h3, h4, h5, h6, h7]
        exact isReservedIpv4_small (by decide)
      · rw [h0, h1, h2, h3, h4, h5, h6, h7]
        exact isReservedIpv4_small (by decide)

/-! ### Texts of IPv6 addresses -/

namespace Ipv6Literal

variable {literal : Ipv6Literal}

theorem expanded_lower (h : literal.hasQuad = false) : literal.lower.expanded = literal.expanded.map HexGroup.lower := by
  cases literal with
  | full groups hlength => rfl
  | compressed head tail hlength =>
    simp only [lower, expanded, List.map_append, List.map_replicate, List.length_map]
    rfl
  | fullQuad groups quad hlength => cases h
  | compressedQuad head tail quad hlength => cases h

theorem hasQuad_lower (h : literal.hasQuad = false) : literal.lower.hasQuad = false := by
  cases literal with
  | full groups hlength => rfl
  | compressed head tail hlength => rfl
  | fullQuad groups quad hlength => cases h
  | compressedQuad head tail quad hlength => cases h

/-- The address can be read off the expanded text. -/
theorem address_of_expandIPv6Groups {groups : List (List Char)} (h : literal.hasQuad = false)
    (hgroups : expandIPv6Groups (literal.text.map Char.toLower) = some groups) :
    literal.address = groups.map (numeral 16) := by
  rw [text_lower h, expandIPv6Groups_text (hasQuad_lower h)] at hgroups
  rw [← Option.some.inj hgroups, ← address_lower h, ← values_expanded (hasQuad_lower h), values, List.map_map]
  rfl

/-- An IPv6 address in hexadecimal groups is public exactly when it lies in none of the ranges. -/
theorem isPublicAddress_text (h : literal.hasQuad = false) :
    isPublicAddress literal.text = !isReservedIpv6 literal.address := by
  rw [isPublicAddress, if_neg (by rw [not_isIPv4 h]; decide), if_pos (isIPv6_text h)]
  dsimp only
  split_ifs with hspecial
  · rw [Bool.or_eq_true, decide_eq_true_eq, decide_eq_true_eq] at hspecial
    rcases hspecial with hloopback | hunspecified
    · have hexpand : expandIPv6Groups (literal.text.map Char.toLower) =
          some [['0'], ['0'], ['0'], ['0'], ['0'], ['0'], ['0'], ['1']] := by
        rw [hloopback]
        decide
      rw [address_of_expandIPv6Groups h hexpand]
      decide
    · have hexpand : expandIPv6Groups (literal.text.map Char.toLower) =
          some [['0'], ['0'], ['0'], ['0'], ['0'], ['0'], ['0'], ['0']] := by
        rw [hunspecified]
        decide
      rw [address_of_expandIPv6Groups h hexpand]
      decide
  · rw [text_lower h, expandIPv6Groups_text (hasQuad_lower h), expanded_lower h]
    exact (isPublicGroups_lower (length_expanded h)).trans (by rw [values_expanded h])

end Ipv6Literal

/-- The address `8.8.8.8`, mapped. -/
def mappedQuad : Ipv6Literal := .compressedQuad [] [⟨"ffff".toList, rfl⟩] ⟨8, 8, 8, 8⟩ (by decide)

end Arald
