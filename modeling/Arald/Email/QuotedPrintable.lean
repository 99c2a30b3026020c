import Arald.Foundations.Lines
import Arald.Content.Metadata
import Arald.Qr.Matrix

/-!
# Quoted-printable

The encoder of `smtp-client.ts`. What it emits is ASCII, so that its strings are given by
their octets.
-/

namespace Arald

open Foundations

/-- `Buffer.from(text, "utf8")`. -/
def utf8Bytes (text : List (BitVec 16)) : Buffer := (characters text).flatMap String.utf8EncodeChar

def qpLineLength : ℕ := 76

/-- A digit of `byte.toString(16).toUpperCase()`. -/
def hexDigit (n : ℕ) : UInt8 := UInt8.ofNat (if n < 10 then 0x30 + n else 0x37 + n)

def isPrintableAscii (byte : UInt8) : Bool := 0x21 ≤ byte.toNat && byte.toNat ≤ 0x7e && byte != 0x3d

def isBlank (byte : UInt8) : Bool := byte == 0x20 || byte == 0x09

def isSafeWhitespace (byte : UInt8) (isLast : Bool) : Bool := isBlank byte && !isLast

/-- What one byte adds to `encoded`. -/
def encodeByte (byte : UInt8) (isLast : Bool) : Buffer :=
  if isPrintableAscii byte || isSafeWhitespace byte isLast then [byte]
  else [0x3d, hexDigit (byte.toNat / 16), hexDigit (byte.toNat % 16)]

/-- The bytes of a line, each with whether it is the last one. -/
def withLast : Buffer → List (UInt8 × Bool)
  | [] => []
  | byte :: bytes => (byte, bytes.isEmpty) :: withLast bytes

def encodeAll (bytes : List (UInt8 × Bool)) : Buffer := bytes.flatMap fun b => encodeByte b.1 b.2

def softCut (rest : Buffer) : ℕ :=
  if rest[qpLineLength - 1]? = some 0x3d then qpLineLength - 1
  else if rest[qpLineLength - 2]? = some 0x3d then qpLineLength - 2
  else qpLineLength

theorem softCut_pos (rest : Buffer) : 0 < softCut rest := by
  rw [softCut, qpLineLength]
  split_ifs <;> decide

/-- The segments of an encoded line. -/
def softWrap (rest : Buffer) : List Buffer :=
  if qpLineLength < rest.length then
    (rest.take (softCut rest) ++ [0x3d]) :: softWrap (rest.drop (softCut rest))
  else [rest]
termination_by rest.length
decreasing_by
  have hpos := softCut_pos rest
  rw [List.length_drop]
  omega

def softWrapQuotedPrintable (encoded : Buffer) : Buffer := joinLines 13 10 (softWrap encoded)

def quotedPrintableEncodeLine (line : List (BitVec 16)) : Buffer :=
  softWrapQuotedPrintable (encodeAll (withLast (utf8Bytes line)))

def quotedPrintableEncode (text : List (BitVec 16)) : Buffer :=
  joinLines 13 10 ((splitLines 13 10 text).map quotedPrintableEncodeLine)

/-! ### What a decoder reads -/

def hexValue (digit : UInt8) : Option ℕ :=
  let n := digit.toNat
  if 0x30 ≤ n ∧ n ≤ 0x39 then some (n - 0x30)
  else if 0x41 ≤ n ∧ n ≤ 0x46 then some (n - 0x37)
  else none

/-- The bytes of a line without a break, `none` where an escape is not whole. -/
def decodeEscapes : Buffer → Option Buffer
  | [] => some []
  | byte :: rest =>
    if byte = 0x3d then
      match rest with
      | high :: low :: rest => do
        let h ← hexValue high
        let l ← hexValue low
        let bytes ← decodeEscapes rest
        return UInt8.ofNat (h * 16 + l) :: bytes
      | _ => none
    else (decodeEscapes rest).map (byte :: ·)

section
variable {byte : UInt8} {isLast : Bool} {bytes taken left : List (UInt8 × Bool)} {n : ℕ}

theorem hexDigit_toNat (h : n < 16) : (hexDigit n).toNat = if n < 10 then 0x30 + n else 0x37 + n := by
  rw [hexDigit, UInt8.toNat_ofNat']
  split_ifs <;> omega

theorem hexValue_hexDigit (h : n < 16) : hexValue (hexDigit n) = some n := by
  have hdigit := hexDigit_toNat h
  rw [hexValue]
  split_ifs at hdigit ⊢ <;> grind

/-- A byte that stands for itself is none that the encoding uses, and no blank at the end. -/
theorem literal_spec (h : (isPrintableAscii byte || isSafeWhitespace byte isLast) = true) :
    byte ≠ 0x3d ∧ byte ≠ 13 ∧ byte ≠ 10 ∧ (isLast = true → isBlank byte = false) := by
  rw [isPrintableAscii, isSafeWhitespace, isBlank] at h
  rw [isBlank]
  refine ⟨?_, ?_, ?_, ?_⟩
  · rintro rfl
    simp at h
  · rintro rfl
    simp at h
  · rintro rfl
    simp at h
  · rintro rfl
    simp only [Bool.not_true, Bool.and_false, Bool.or_false, Bool.and_eq_true, decide_eq_true_eq] at h
    rw [Bool.or_eq_false_iff, beq_eq_false_iff_ne, beq_eq_false_iff_ne]
    constructor
    · rintro rfl
      exact absurd h.1.1 (by decide)
    · rintro rfl
      exact absurd h.1.1 (by decide)

/-- Either the byte itself or its escape. -/
theorem encodeByte_cases (byte : UInt8) (isLast : Bool) :
    (encodeByte byte isLast = [byte] ∧ byte ≠ 0x3d ∧ byte ≠ 13 ∧ byte ≠ 10 ∧ (isLast = true → isBlank byte = false)) ∨
      encodeByte byte isLast = [0x3d, hexDigit (byte.toNat / 16), hexDigit (byte.toNat % 16)] := by
  rw [encodeByte]
  by_cases h : (isPrintableAscii byte || isSafeWhitespace byte isLast) = true
  · rw [if_pos h]
    exact .inl ⟨rfl, literal_spec h⟩
  · rw [if_neg h]
    exact .inr rfl

/-- A digit is no other octet that matters. -/
theorem hexDigit_ne (h : n < 16) :
    hexDigit n ≠ 0x3d ∧ hexDigit n ≠ 13 ∧ hexDigit n ≠ 10 ∧ isBlank (hexDigit n) = false := by
  interval_cases n <;> decide

theorem encodeAll_cons (b : UInt8 × Bool) (bytes : List (UInt8 × Bool)) :
    encodeAll (b :: bytes) = encodeByte b.1 b.2 ++ encodeAll bytes := rfl

theorem encodeAll_append (taken left : List (UInt8 × Bool)) :
    encodeAll (taken ++ left) = encodeAll taken ++ encodeAll left := List.flatMap_append

theorem noBreak_encodeAll (bytes : List (UInt8 × Bool)) : NoBreak 13 10 (encodeAll bytes) := by
  intro octet hmem
  obtain ⟨b, -, hmem⟩ := List.mem_flatMap.mp hmem
  have hhigh := hexDigit_ne (n := b.1.toNat / 16) (by have := b.1.toNat_lt; omega)
  have hlow := hexDigit_ne (n := b.1.toNat % 16) (by omega)
  rcases encodeByte_cases b.1 b.2 with ⟨hb, -, hcr, hlf, -⟩ | hb
  · rw [hb, List.mem_singleton] at hmem
    subst hmem
    exact ⟨hcr, hlf⟩
  · rw [hb] at hmem
    simp only [List.mem_cons, List.not_mem_nil, or_false] at hmem
    rcases hmem with rfl | rfl | rfl
    · decide
    · exact ⟨hhigh.2.1, hhigh.2.2.1⟩
    · exact ⟨hlow.2.1, hlow.2.2.1⟩

theorem decodeEscapes_cons (h : byte ≠ 0x3d) (rest : Buffer) :
    decodeEscapes (byte :: rest) = (decodeEscapes rest).map (byte :: ·) := by
  rw [decodeEscapes.eq_def]
  exact if_neg h

theorem decodeEscapes_encodeByte (byte : UInt8) (isLast : Bool) (rest : Buffer) :
    decodeEscapes (encodeByte byte isLast ++ rest) = (decodeEscapes rest).map (byte :: ·) := by
  have hlt := byte.toNat_lt
  rcases encodeByte_cases byte isLast with ⟨hb, hne, -⟩ | hb
  · rw [hb, List.singleton_append, decodeEscapes_cons hne]
  · have hbyte : UInt8.ofNat (byte.toNat / 16 * 16 + byte.toNat % 16) = byte := by
      rw [Nat.div_add_mod', UInt8.ofNat_toNat]
    rw [hb, List.cons_append, List.cons_append, List.cons_append, List.nil_append, decodeEscapes, if_pos rfl]
    simp only [hexValue_hexDigit (show byte.toNat / 16 < 16 by omega),
      hexValue_hexDigit (show byte.toNat % 16 < 16 by omega), Option.bind_eq_bind, Option.bind_some, hbyte]
    cases decodeEscapes rest <;> rfl

/-- What is encoded is read back. -/
theorem decodeEscapes_encodeAll (bytes : List (UInt8 × Bool)) :
    decodeEscapes (encodeAll bytes) = some (bytes.map Prod.fst) := by
  induction bytes with
  | nil => rfl
  | cons b bytes ih =>
    rw [encodeAll_cons, decodeEscapes_encodeByte, ih]
    rfl

theorem map_fst_withLast (bytes : Buffer) : (withLast bytes).map Prod.fst = bytes := by
  induction bytes with
  | nil => rfl
  | cons byte bytes ih => rw [withLast, List.map_cons, ih]

/-! ### Where a line is cut -/

/-- The octets that a byte takes. -/
def octets (byte : UInt8) (isLast : Bool) : ℕ := if isPrintableAscii byte || isSafeWhitespace byte isLast then 1 else 3

theorem length_encodeByte (byte : UInt8) (isLast : Bool) : (encodeByte byte isLast).length = octets byte isLast := by
  rw [encodeByte, octets]
  split_ifs <;> rfl

theorem octets_cases (byte : UInt8) (isLast : Bool) : octets byte isLast = 1 ∨ octets byte isLast = 3 := by
  rw [octets]
  split_ifs
  · exact .inl rfl
  · exact .inr rfl

/-- Only the first octet of an escape is the sign. -/
theorem encodeByte_sign {i : ℕ} (h : (encodeByte byte isLast)[i]? = some 0x3d) :
    i = 0 ∧ encodeByte byte isLast = [0x3d, hexDigit (byte.toNat / 16), hexDigit (byte.toNat % 16)] := by
  have hhigh := hexDigit_ne (n := byte.toNat / 16) (by have := byte.toNat_lt; omega)
  have hlow := hexDigit_ne (n := byte.toNat % 16) (by omega)
  rcases encodeByte_cases byte isLast with ⟨hb, hne, -⟩ | hb
  · rw [hb, List.getElem?_singleton] at h
    split_ifs at h
    exact absurd (Option.some.inj h) hne
  · rw [hb] at h
    match i, h with
    | 0, _ => exact ⟨rfl, hb⟩
    | 1, h => exact absurd (Option.some.inj h) hhigh.1
    | 2, h => exact absurd (Option.some.inj h) hlow.1

/-- Two digits follow the sign. -/
theorem sign_add_two_lt {i : ℕ} (h : (encodeAll bytes)[i]? = some 0x3d) : i + 2 < (encodeAll bytes).length := by
  induction bytes generalizing i with
  | nil => cases h
  | cons b bytes ih =>
    rw [encodeAll_cons, List.length_append]
    rw [encodeAll_cons] at h
    by_cases hi : i < (encodeByte b.1 b.2).length
    · rw [List.getElem?_append_left hi] at h
      obtain ⟨rfl, hb⟩ := encodeByte_sign h
      rw [hb]
      exact Nat.lt_add_right _ (Nat.lt_succ_self 2)
    · rw [List.getElem?_append_right (by omega)] at h
      have := ih h
      omega

/-- Up to some octet there are whole bytes, or the octet is inside an escape. -/
theorem exists_cut {k : ℕ} (hk : k ≤ (encodeAll bytes).length) : ∃ taken left, bytes = taken ++ left ∧
    ((encodeAll taken).length = k ∨ ∃ b rest, left = b :: rest ∧ octets b.1 b.2 = 3 ∧
      (encodeAll taken).length < k ∧ k < (encodeAll taken).length + 3) := by
  induction bytes generalizing k with
  | nil => exact ⟨[], [], rfl, .inl (Nat.le_zero.mp hk).symm⟩
  | cons b bytes ih =>
    have hlength : (encodeAll (b :: bytes)).length = octets b.1 b.2 + (encodeAll bytes).length := by
      rw [encodeAll_cons, List.length_append, length_encodeByte]
    by_cases hzero : k = 0
    · exact ⟨[], b :: bytes, rfl, .inl hzero.symm⟩
    · by_cases hinside : k < octets b.1 b.2
      · have hthree : octets b.1 b.2 = 3 := by
          rcases octets_cases b.1 b.2 with h | h <;> omega
        refine ⟨[], b :: bytes, rfl, .inr ⟨b, bytes, rfl, hthree, ?_, ?_⟩⟩
        · exact Nat.pos_of_ne_zero hzero
        · exact (hthree ▸ hinside).trans_le (Nat.le_add_left 3 _)
      · obtain ⟨taken, left, rfl, hcut⟩ := ih (k := k - octets b.1 b.2) (by omega)
        have htaken : (encodeAll (b :: taken)).length = octets b.1 b.2 + (encodeAll taken).length := by
          rw [encodeAll_cons, List.length_append, length_encodeByte]
        refine ⟨b :: taken, left, rfl, ?_⟩
        rcases hcut with hcut | ⟨next, rest, rfl, hthree, hlow, hhigh⟩
        · exact .inl (by omega)
        · exact .inr ⟨next, rest, rfl, hthree, by omega, by omega⟩

/-- The cut falls between two bytes: after 76 octets, or where an escape does not fit. -/
theorem softCut_spec (h : qpLineLength < (encodeAll bytes).length) : ∃ taken left, bytes = taken ++ left ∧
    (encodeAll taken).length = softCut (encodeAll bytes) ∧
      ((encodeAll taken).length = 76 ∨ (encodeAll taken).length < 76 ∧
        ∃ b rest, left = b :: rest ∧ 76 < (encodeAll taken).length + octets b.1 b.2) := by
  obtain ⟨taken, left, rfl, hcut⟩ := exists_cut h.le
  refine ⟨taken, left, rfl, ?_⟩
  rw [encodeAll_append, softCut]
  rw [qpLineLength] at hcut ⊢
  rcases hcut with hfull | ⟨b, rest, rfl, hthree, hlow, hhigh⟩
  · have hlast : (encodeAll taken ++ encodeAll left)[76 - 1]? ≠ some 0x3d := by
      rw [List.getElem?_append_left (by omega)]
      intro hsign
      have := sign_add_two_lt hsign
      omega
    have hsecond : (encodeAll taken ++ encodeAll left)[76 - 2]? ≠ some 0x3d := by
      rw [List.getElem?_append_left (by omega)]
      intro hsign
      have := sign_add_two_lt hsign
      omega
    rw [if_neg hlast, if_neg hsecond]
    exact ⟨hfull, .inl hfull⟩
  · obtain ⟨hliteral, -⟩ | hescape := encodeByte_cases b.1 b.2
    · have hone := length_encodeByte b.1 b.2
      rw [hliteral, hthree] at hone
      cases hone
    have hdigit := hexDigit_ne (n := b.1.toNat / 16) (by have := b.1.toNat_lt; omega)
    have hat : ∀ i, (encodeAll taken ++ encodeAll (b :: rest))[(encodeAll taken).length + i]? =
        (encodeAll (b :: rest))[i]? := by
      intro i
      rw [List.getElem?_append_right (Nat.le_add_right _ _), Nat.add_sub_cancel_left]
    have hfirst : (encodeAll (b :: rest))[0]? = some 0x3d := by
      rw [encodeAll_cons, hescape]
      rfl
    have hnext : (encodeAll (b :: rest))[1]? ≠ some 0x3d := by
      rw [encodeAll_cons, hescape]
      exact fun hsign => hdigit.1 (Option.some.inj hsign)
    refine and_iff_left_of_imp (fun hlength => ?_) |>.mpr ?_
    · exact .inr ⟨by omega, b, rest, rfl, by omega⟩
    · obtain hseventyfive | hseventyfour : (encodeAll taken).length = 75 ∨ (encodeAll taken).length = 74 := by omega
      · have hsign := hat 0
        rw [hseventyfive, hfirst] at hsign
        rw [if_pos hsign, hseventyfive]
      · have hsign := hat 0
        have hother := hat 1
        rw [hseventyfour] at hsign hother
        rw [if_neg (hother ▸ hnext), if_pos (hsign.trans hfirst), hseventyfour]

/-- One segment and what is left. -/
theorem softWrap_append (h : qpLineLength < (encodeAll (taken ++ left)).length)
    (hcut : (encodeAll taken).length = softCut (encodeAll (taken ++ left))) :
    softWrap (encodeAll (taken ++ left)) = (encodeAll taken ++ [0x3d]) :: softWrap (encodeAll left) := by
  rw [softWrap, if_pos h, ← hcut, encodeAll_append, List.take_left, List.drop_left]

theorem softWrap_of_le (h : (encodeAll bytes).length ≤ qpLineLength) :
    softWrap (encodeAll bytes) = [encodeAll bytes] := by
  rw [softWrap, if_neg (not_lt.mpr h)]

/-- To prove something about all lines: the short ones, and one more segment. -/
theorem softWrap_induction {P : List (UInt8 × Bool) → Prop}
    (short : ∀ bytes, (encodeAll bytes).length ≤ qpLineLength → P bytes)
    (wrapped : ∀ taken left, qpLineLength < (encodeAll (taken ++ left)).length →
      (encodeAll taken).length = softCut (encodeAll (taken ++ left)) →
      ((encodeAll taken).length = 76 ∨ (encodeAll taken).length < 76 ∧
        ∃ b rest, left = b :: rest ∧ 76 < (encodeAll taken).length + octets b.1 b.2) → P left → P (taken ++ left))
    (bytes : List (UInt8 × Bool)) : P bytes := by
  induction hlength : (encodeAll bytes).length using Nat.strong_induction_on generalizing bytes with
  | h n ih =>
    by_cases hlong : qpLineLength < (encodeAll bytes).length
    · obtain ⟨taken, left, rfl, hcut, hwhere⟩ := softCut_spec hlong
      have hpos := softCut_pos (encodeAll (taken ++ left))
      rw [encodeAll_append, List.length_append] at hlength
      exact wrapped taken left hlong hcut hwhere (ih _ (by omega) left rfl)
    · exact short bytes (not_lt.mp hlong)

/-! ### The limit -/

/-- Put one after another, with `column` octets on the line already, the bytes fill no line
to 76 octets unless they end there. -/
def fillsNoLine : ℕ → List ℕ → Bool
  | _, [] => true
  | column, width :: widths =>
    if column + width < 76 then fillsNoLine (column + width) widths
    else if column + width = 76 then widths.isEmpty
    else fillsNoLine width widths

theorem fillsNoLine_append {column : ℕ} {widths : List ℕ} (more : List ℕ) (h : column + widths.sum < 76) :
    fillsNoLine column (widths ++ more) = fillsNoLine (column + widths.sum) more := by
  induction widths generalizing column with
  | nil => rfl
  | cons width widths ih =>
    rw [List.sum_cons] at h ⊢
    rw [List.cons_append, fillsNoLine, if_pos (by omega), ih (by omega), Nat.add_assoc]

/-- A line that is full with more to come. -/
theorem fillsNoLine_of_full {column : ℕ} {widths more : List ℕ} (hpos : ∀ width ∈ widths, 0 < width)
    (hcolumn : column < 76) (hfull : column + widths.sum = 76) (hmore : more ≠ []) :
    fillsNoLine column (widths ++ more) = false := by
  induction widths generalizing column with
  | nil => exact absurd hfull (by simp; omega)
  | cons width widths ih =>
    rw [List.sum_cons] at hfull
    have hrest : ∀ width ∈ widths, 0 < width := fun other hmem => hpos other (List.mem_cons_of_mem _ hmem)
    rw [List.cons_append, fillsNoLine]
    by_cases hlt : column + width < 76
    · rw [if_pos hlt]
      exact ih hrest hlt (by omega)
    · rw [if_neg hlt, if_pos (by omega)]
      simp [hmore]

theorem fillsNoLine_of_le {column : ℕ} {widths : List ℕ} (hpos : ∀ width ∈ widths, 0 < width)
    (hle : column + widths.sum ≤ 76) : fillsNoLine column widths = true := by
  induction widths generalizing column with
  | nil => rfl
  | cons width widths ih =>
    rw [List.sum_cons] at hle
    have hrest : ∀ width ∈ widths, 0 < width := fun other hmem => hpos other (List.mem_cons_of_mem _ hmem)
    rw [fillsNoLine]
    by_cases hlt : column + width < 76
    · rw [if_pos hlt]
      exact ih hrest (by omega)
    · rw [if_neg hlt, if_pos (by omega)]
      cases widths with
      | nil => rfl
      | cons next widths =>
        have hnext := hrest next List.mem_cons_self
        rw [List.sum_cons] at hle
        omega

/-- The octets of each byte. -/
def widthsOf (bytes : List (UInt8 × Bool)) : List ℕ := bytes.map fun b => octets b.1 b.2

theorem length_encodeAll (bytes : List (UInt8 × Bool)) : (encodeAll bytes).length = (widthsOf bytes).sum := by
  induction bytes with
  | nil => rfl
  | cons b bytes ih =>
    rw [encodeAll_cons, List.length_append, length_encodeByte, ih]
    rfl

theorem widthsOf_pos : ∀ width ∈ widthsOf bytes, 0 < width := by
  intro width hmem
  obtain ⟨b, -, rfl⟩ := List.mem_map.mp hmem
  rcases octets_cases b.1 b.2 with h | h <;> rw [h] <;> decide

def WithinLimit (lines : List Buffer) : Prop := ∀ line ∈ lines, line.length ≤ qpLineLength

/-- Every line, without the sign of a soft break, holds whole escapes. -/
def SplitsNoEscape (lines : List Buffer) : Prop := ∀ line ∈ lines, (decodeEscapes line).isSome = true ∨
  ∃ segment, line = segment ++ [0x3d] ∧ (decodeEscapes segment).isSome = true

theorem withinLimit_softWrap_iff (bytes : List (UInt8 × Bool)) :
    WithinLimit (softWrap (encodeAll bytes)) ↔ fillsNoLine 0 (widthsOf bytes) = true := by
  induction bytes using softWrap_induction with
  | short bytes hle =>
    rw [softWrap_of_le hle]
    rw [length_encodeAll, qpLineLength] at hle
    refine iff_of_true (fun line hmem => ?_) (fillsNoLine_of_le widthsOf_pos (by omega))
    rw [List.mem_singleton.mp hmem, length_encodeAll]
    exact hle
  | wrapped taken left hlong hcut hwhere ih =>
    have hwidths : widthsOf (taken ++ left) = widthsOf taken ++ widthsOf left := List.map_append
    have hcons : ∀ b rest, widthsOf (b :: rest) = octets b.1 b.2 :: widthsOf rest := fun _ _ => rfl
    rw [softWrap_append hlong hcut, hwidths, WithinLimit, List.forall_mem_cons, List.length_append,
      List.length_singleton]
    rw [length_encodeAll, hwidths, List.sum_append] at hlong
    rw [length_encodeAll] at hwhere ⊢
    rw [qpLineLength] at hlong ⊢
    rcases hwhere with hfull | ⟨hlt, b, rest, rfl, hbeyond⟩
    · have hmore : widthsOf left ≠ [] := by
        intro hnil
        rw [hnil, List.sum_nil] at hlong
        omega
      refine iff_of_false (fun h => ?_) ?_
      · omega
      · rw [fillsNoLine_of_full widthsOf_pos (by decide) (by omega) hmore]
        exact Bool.false_ne_true
    · have hwidth := octets_cases b.1 b.2
      have hfirst : fillsNoLine 0 (widthsOf (b :: rest)) = fillsNoLine (octets b.1 b.2) (widthsOf rest) := by
        rw [hcons, fillsNoLine, if_pos (by omega), Nat.zero_add]
      have hnext : fillsNoLine (widthsOf taken).sum (widthsOf (b :: rest)) =
          fillsNoLine (octets b.1 b.2) (widthsOf rest) := by
        rw [hcons, fillsNoLine, if_neg (by omega), if_neg (by omega)]
      rw [fillsNoLine_append _ (by omega), Nat.zero_add, hnext, ← hfirst, ← ih]
      exact and_iff_right (by omega)

/-! ### The lines of a text -/

/-- The segments are the bytes in groups, the last of which is empty only if there are none. -/
theorem softWrap_groups (bytes : List (UInt8 × Bool)) : ∃ (groups : List (List (UInt8 × Bool))) (last : List (UInt8 × Bool)), bytes = groups.flatten ++ last ∧
    softWrap (encodeAll bytes) = groups.map (fun group => encodeAll group ++ [0x3d]) ++ [encodeAll last] ∧
      (last = [] → bytes = []) := by
  induction bytes using softWrap_induction with
  | short bytes hle => exact ⟨[], bytes, rfl, softWrap_of_le hle, id⟩
  | wrapped taken left hlong hcut hwhere ih =>
    obtain ⟨groups, last, hleft, hwrap, hlast⟩ := ih
    refine ⟨taken :: groups, last, ?_, ?_, fun hnil => ?_⟩
    · rw [hleft, List.flatten_cons, List.append_assoc]
    · rw [softWrap_append hlong hcut, hwrap]
      rfl
    · rw [hlast hnil, List.append_nil, qpLineLength] at hlong
      omega

theorem mem_softWrap {line : Buffer} (h : line ∈ softWrap (encodeAll bytes)) :
    ∃ group, line = encodeAll group ∨ line = encodeAll group ++ [0x3d] := by
  obtain ⟨groups, last, -, hwrap, -⟩ := softWrap_groups bytes
  rw [hwrap] at h
  rcases List.mem_append.mp h with h | h
  · obtain ⟨group, -, rfl⟩ := List.mem_map.mp h
    exact ⟨group, .inr rfl⟩
  · exact ⟨last, .inl (List.mem_singleton.mp h)⟩

theorem softWrap_ne_nil (bytes : List (UInt8 × Bool)) : softWrap (encodeAll bytes) ≠ [] := by
  obtain ⟨groups, last, -, hwrap, -⟩ := softWrap_groups bytes
  simp [hwrap]

theorem noBreak_softWrap : ∀ line ∈ softWrap (encodeAll bytes), NoBreak 13 10 line := by
  intro line hmem
  obtain ⟨group, rfl | rfl⟩ := mem_softWrap hmem
  · exact noBreak_encodeAll group
  · intro octet hmem
    rcases List.mem_append.mp hmem with h | h
    · exact noBreak_encodeAll group octet h
    · rw [List.mem_singleton.mp h]
      decide

theorem splitsNoEscape_softWrap (bytes : List (UInt8 × Bool)) : SplitsNoEscape (softWrap (encodeAll bytes)) := by
  intro line hmem
  obtain ⟨group, rfl | rfl⟩ := mem_softWrap hmem
  · exact .inl (by rw [decodeEscapes_encodeAll]; rfl)
  · exact .inr ⟨encodeAll group, rfl, by rw [decodeEscapes_encodeAll]; rfl⟩

end

/-- The segments of all lines of a text. -/
def encodedLines (text : List (BitVec 16)) : List Buffer :=
  (splitLines 13 10 text).flatMap fun line => softWrap (encodeAll (withLast (utf8Bytes line)))

theorem noBreak_encodedLines {text : List (BitVec 16)} : ∀ line ∈ encodedLines text, NoBreak 13 10 line := by
  intro line hmem
  obtain ⟨source, -, hmem⟩ := List.mem_flatMap.mp hmem
  exact noBreak_softWrap line hmem

theorem quotedPrintableEncode_eq (text : List (BitVec 16)) :
    quotedPrintableEncode text = joinLines 13 10 (encodedLines text) := by
  have hblocks : ∀ block ∈ (splitLines 13 10 text).map fun line => softWrap (encodeAll (withLast (utf8Bytes line))),
      block ≠ [] := by
    intro block hmem
    obtain ⟨line, -, rfl⟩ := List.mem_map.mp hmem
    exact softWrap_ne_nil _
  rw [encodedLines, List.flatMap_def, ← joinLines_map_joinLines hblocks, List.map_map]
  rfl

theorem encodedLines_ne_nil (text : List (BitVec 16)) : encodedLines text ≠ [] := by
  have hne : splitLines 13 10 text ≠ [] := splitLines_ne_nil text
  obtain ⟨line, lines, hlines⟩ := List.exists_cons_of_ne_nil hne
  rw [encodedLines, hlines, List.flatMap_cons]
  exact List.append_ne_nil_of_left_ne_nil (softWrap_ne_nil _) _

/-- The lines that the encoder emits. -/
theorem splitLines_quotedPrintableEncode (text : List (BitVec 16)) :
    splitLines 13 10 (quotedPrintableEncode text) = encodedLines text := by
  rw [quotedPrintableEncode_eq]
  exact splitLines_joinLines noBreak_encodedLines (encodedLines_ne_nil text)

theorem withinLimit_encodedLines_iff (text : List (BitVec 16)) : WithinLimit (encodedLines text) ↔
    ∀ line ∈ splitLines 13 10 text, fillsNoLine 0 (widthsOf (withLast (utf8Bytes line))) = true := by
  simp only [← withinLimit_softWrap_iff]
  exact List.forall_mem_flatMap

/-- The lines stay within the limit exactly if no line is filled with more to come. No soft
break is inside an escape. -/
theorem quotedPrintableEncode_lines_iff (text : List (BitVec 16)) :
    (WithinLimit (splitLines 13 10 (quotedPrintableEncode text)) ∧
          SplitsNoEscape (splitLines 13 10 (quotedPrintableEncode text)) ↔
        ∀ line ∈ splitLines 13 10 text, fillsNoLine 0 (widthsOf (withLast (utf8Bytes line))) = true) ∧
      SplitsNoEscape (splitLines 13 10 (quotedPrintableEncode text)) := by
  have hescapes : SplitsNoEscape (encodedLines text) := by
    intro line hmem
    obtain ⟨source, -, hmem⟩ := List.mem_flatMap.mp hmem
    exact splitsNoEscape_softWrap _ line hmem
  rw [splitLines_quotedPrintableEncode]
  exact ⟨(and_iff_left hescapes).trans (withinLimit_encodedLines_iff text), hescapes⟩

/-- A line of 77 letters is cut after 76 of them, and the sign makes 77 octets again. -/
theorem quotedPrintableEncode_letters : ¬∀ text : List (BitVec 16),
    WithinLimit (splitLines 13 10 (quotedPrintableEncode text)) ∧
      SplitsNoEscape (splitLines 13 10 (quotedPrintableEncode text)) := by
  intro h
  have hlimit := (h (List.replicate 77 0x61)).1
  rw [splitLines_quotedPrintableEncode, withinLimit_encodedLines_iff] at hlimit
  exact absurd hlimit (by decide)

end Arald
