import Mathlib

/-!
# Lossy UTF-8

The decoder of the Encoding Standard, which never fails: what begins a character and cannot be
continued becomes one U+FFFD, and so does every other byte that fits nowhere. It reads back
what was encoded. Decoding a text piece by piece gives the same, unless a cut between two
pieces falls inside a character.
-/

namespace Foundations

def replacementCharacter : Char := '\uFFFD'

/-- A character that has begun: the bytes that are missing, the bounds of the next one, and
the bits so far. -/
structure PendingChar where
  missing : ℕ
  low : ℕ
  high : ℕ
  bits : ℕ
  low_ge : 0x80 ≤ low
  high_le : high ≤ 0xBF
  deriving DecidableEq

namespace PendingChar

def continues (p : PendingChar) (b : UInt8) : Bool := p.low ≤ b.toNat && b.toNat ≤ p.high

/-- One more byte of the character. -/
def next (p : PendingChar) (b : UInt8) : Option PendingChar × List Char :=
  let bits := p.bits * 64 + (b.toNat - 0x80)
  if p.missing ≤ 1 then (none, [Char.ofNat bits])
  else (some ⟨p.missing - 1, 0x80, 0xBF, bits, le_rfl, le_rfl⟩, [])

end PendingChar

/-- The first byte of a character, with `low` and `high` as bounds of the second one. -/
def begin (missing low high bits : ℕ) (h : 0x80 ≤ low ∧ high ≤ 0xBF) : Option PendingChar × List Char :=
  (some ⟨missing, low, high, bits, h.1, h.2⟩, [])

/-- A byte where a character may begin. -/
def leadByte (b : UInt8) : Option PendingChar × List Char :=
  if b.toNat ≤ 0x7F then (none, [Char.ofNat b.toNat])
  else if b.toNat < 0xC2 then (none, [replacementCharacter])
  else if b.toNat ≤ 0xDF then begin 1 0x80 0xBF (b.toNat - 0xC0) (by decide)
  else if b.toNat = 0xE0 then begin 2 0xA0 0xBF 0 (by decide)
  else if b.toNat = 0xED then begin 2 0x80 0x9F 0xD (by decide)
  else if b.toNat ≤ 0xEF then begin 2 0x80 0xBF (b.toNat - 0xE0) (by decide)
  else if b.toNat = 0xF0 then begin 3 0x90 0xBF 0 (by decide)
  else if b.toNat ≤ 0xF3 then begin 3 0x80 0xBF (b.toNat - 0xF0) (by decide)
  else if b.toNat = 0xF4 then begin 3 0x80 0x8F 4 (by decide)
  else (none, [replacementCharacter])

def decodeByte (state : Option PendingChar) (b : UInt8) : Option PendingChar × List Char :=
  match state with
  | none => leadByte b
  | some p =>
    if p.continues b then p.next b else ((leadByte b).1, replacementCharacter :: (leadByte b).2)

def stateAfter (state : Option PendingChar) (bytes : List UInt8) : Option PendingChar :=
  bytes.foldl (fun state b => (decodeByte state b).1) state

/-- The characters that are known after some bytes. -/
def emitted : Option PendingChar → List UInt8 → List Char
  | _, [] => []
  | state, b :: bytes => (decodeByte state b).2 ++ emitted (decodeByte state b).1 bytes

/-- What is left at the end. -/
def flush (state : Option PendingChar) : List Char := if state.isSome then [replacementCharacter] else []

def decodeFrom (state : Option PendingChar) (bytes : List UInt8) : List Char :=
  emitted state bytes ++ flush (stateAfter state bytes)

def decodeUtf8 (bytes : List UInt8) : List Char := decodeFrom none bytes

/-- The character that has begun goes on in the bytes. -/
def cuts (state : Option PendingChar) (bytes : List UInt8) : Bool :=
  match state, bytes with
  | some p, b :: _ => p.continues b
  | _, _ => false

section
variable {state : Option PendingChar} {p : PendingChar} {b : UInt8} {bytes xs ys : List UInt8}
  {parts : List (List UInt8)}

/-! ### Two pieces -/

theorem decodeFrom_nil (state : Option PendingChar) : decodeFrom state [] = flush state := rfl

theorem decodeFrom_cons (state : Option PendingChar) (b : UInt8) (bytes : List UInt8) :
    decodeFrom state (b :: bytes) = (decodeByte state b).2 ++ decodeFrom (decodeByte state b).1 bytes := by
  rw [decodeFrom, emitted, List.append_assoc]
  rfl

theorem stateAfter_append (state : Option PendingChar) (xs ys : List UInt8) :
    stateAfter state (xs ++ ys) = stateAfter (stateAfter state xs) ys := List.foldl_append ..

theorem decodeFrom_append (state : Option PendingChar) (xs ys : List UInt8) :
    decodeFrom state (xs ++ ys) = emitted state xs ++ decodeFrom (stateAfter state xs) ys := by
  induction xs generalizing state with
  | nil => rfl
  | cons b xs ih =>
    rw [List.cons_append, decodeFrom_cons, ih, emitted, List.append_assoc]
    rfl

theorem leadByte_of_continues (h : p.continues b = true) : leadByte b = (none, [replacementCharacter]) := by
  rw [PendingChar.continues, Bool.and_eq_true, decide_eq_true_eq, decide_eq_true_eq] at h
  have hlow := p.low_ge
  have hhigh := p.high_le
  rw [leadByte, if_neg (by omega), if_pos (by omega)]

/-- Where the cut is between characters, nothing is lost. -/
theorem flush_append_decodeFrom (h : cuts state bytes = false) :
    flush state ++ decodeFrom none bytes = decodeFrom state bytes := by
  cases state with
  | none => rfl
  | some p =>
    cases bytes with
    | nil => rfl
    | cons b bytes =>
      have hcontinues : ¬p.continues b = true := by simpa [cuts] using h
      rw [decodeFrom_cons, decodeFrom_cons, decodeByte, decodeByte, if_neg hcontinues]
      rfl

theorem length_flush_le (state : Option PendingChar) : (flush state).length ≤ 1 := by
  rw [flush]
  split_ifs <;> simp

/-- A cut inside a character makes for more characters, if no cut after it makes for fewer. -/
theorem length_decodeFrom_lt_of_continues (hcontinues : p.continues b = true)
    (hle : ∀ state, (decodeFrom state bytes).length ≤ (flush state).length + (decodeFrom none bytes).length) :
    (decodeFrom (some p) (b :: bytes)).length < (flush (some p)).length + (decodeFrom none (b :: bytes)).length := by
  have hnext := hle (p.next b).1
  have hflush := length_flush_le (p.next b).1
  have hnone : (decodeFrom none (b :: bytes)).length = 1 + (decodeFrom none bytes).length := by
    rw [decodeFrom_cons, decodeByte, leadByte_of_continues hcontinues, List.length_append, List.length_singleton]
  have hsome : (flush (some p)).length = 1 := rfl
  rw [hnone, hsome, decodeFrom_cons, decodeByte, if_pos hcontinues, List.length_append]
  rw [PendingChar.next] at hnext hflush ⊢
  split_ifs at hnext hflush ⊢
  · rw [List.length_singleton]
    dsimp only
    omega
  · rw [List.length_nil]
    omega

/-- Whatever is pending makes for one character more at most. -/
theorem length_decodeFrom_le (state : Option PendingChar) (bytes : List UInt8) :
    (decodeFrom state bytes).length ≤ (flush state).length + (decodeFrom none bytes).length := by
  induction bytes generalizing state with
  | nil =>
    rw [decodeFrom_nil]
    exact Nat.le_add_right _ _
  | cons b bytes ih =>
    by_cases hcuts : cuts state (b :: bytes) = true
    · cases state with
      | none => cases hcuts
      | some p => exact (length_decodeFrom_lt_of_continues hcuts ih).le
    · rw [← flush_append_decodeFrom (Bool.eq_false_iff.mpr hcuts), List.length_append]

/-- A cut inside a character makes for more of them. -/
theorem length_decodeFrom_lt (h : cuts state bytes = true) :
    (decodeFrom state bytes).length < (flush state).length + (decodeFrom none bytes).length := by
  cases state with
  | none => cases bytes <;> cases h
  | some p =>
    cases bytes with
    | nil => cases h
    | cons b bytes => exact length_decodeFrom_lt_of_continues h fun state => length_decodeFrom_le state bytes

/-- Once a byte has been read after a cut between characters, the state is as if it were the first. -/
theorem cuts_stateAfter (h : cuts state (xs ++ ys) = false) :
    cuts (stateAfter state xs) ys = cuts (stateAfter none xs) ys := by
  cases xs with
  | nil => exact h.trans (by cases ys <;> rfl)
  | cons b xs =>
    cases state with
    | none => rfl
    | some p =>
      have hcontinues : ¬p.continues b = true := by simpa [cuts] using h
      have hsame : (decodeByte (some p) b).1 = (decodeByte none b).1 := by
        rw [decodeByte, decodeByte, if_neg hcontinues]
      rw [stateAfter, stateAfter, List.foldl_cons, List.foldl_cons, hsame]

/-! ### Many pieces -/

/-- Decoding piece by piece loses no character. -/
theorem length_decodeFrom_flatten_le (state : Option PendingChar) (parts : List (List UInt8)) :
    (decodeFrom state parts.flatten).length ≤ (flush state).length + (parts.flatMap decodeUtf8).length := by
  induction parts generalizing state with
  | nil => exact Nat.le_refl _
  | cons part parts ih =>
    have hstate := length_decodeFrom_le state (part ++ parts.flatten)
    have hrest := ih (stateAfter none part)
    have hpart : (decodeUtf8 part).length =
        (emitted none part).length + (flush (stateAfter none part)).length := List.length_append
    rw [decodeFrom_append none, List.length_append] at hstate
    rw [List.flatten_cons, List.flatMap_cons, List.length_append, hpart]
    omega

/-- Every cut between the pieces falls between two characters. -/
def CutsBetween (state : Option PendingChar) (parts : List (List UInt8)) : Prop :=
  ∀ before part after, parts = before ++ part :: after →
    cuts (stateAfter state (before.flatten ++ part)) after.flatten = false

theorem cutsBetween_cons {part : List UInt8} : CutsBetween state (part :: parts) ↔
    cuts (stateAfter state part) parts.flatten = false ∧ CutsBetween (stateAfter state part) parts := by
  constructor
  · intro h
    refine ⟨by simpa using h [] part parts rfl, ?_⟩
    rintro before next after rfl
    have hcut := h (part :: before) next after rfl
    rwa [List.flatten_cons, List.append_assoc, stateAfter_append] at hcut
  · rintro ⟨hfirst, hrest⟩ before next after hparts
    cases before with
    | nil =>
      obtain ⟨rfl, rfl⟩ := List.cons.inj hparts
      simpa using hfirst
    | cons first before =>
      obtain ⟨rfl, rfl⟩ := List.cons.inj hparts
      rw [List.flatten_cons, List.append_assoc, stateAfter_append]
      exact hrest before next after rfl

/-- After a cut between characters the later ones fall as they do from the beginning. -/
theorem cutsBetween_stateAfter {part : List UInt8} (h : cuts state (part ++ parts.flatten) = false) :
    CutsBetween (stateAfter state part) parts ↔ CutsBetween (stateAfter none part) parts := by
  unfold CutsBetween
  refine forall_congr' fun before => forall_congr' fun next => forall_congr' fun after => ?_
  refine imp_congr_right fun hparts => ?_
  rw [← stateAfter_append, ← stateAfter_append, cuts_stateAfter]
  rw [hparts] at h
  simpa using h

theorem flush_append_flatMap_iff (state : Option PendingChar) (parts : List (List UInt8)) :
    flush state ++ parts.flatMap decodeUtf8 = decodeFrom state parts.flatten ↔
      cuts state parts.flatten = false ∧ CutsBetween state parts := by
  induction parts generalizing state with
  | nil =>
    refine iff_of_true (List.append_nil _) ⟨by cases state <;> rfl, ?_⟩
    intro before part after hparts
    exact absurd hparts (by simp)
  | cons part parts ih =>
    by_cases hcuts : cuts state (part ++ parts.flatten) = true
    · refine iff_of_false (fun heq => ?_) fun h => Bool.eq_false_iff.mp h.1 hcuts
      have hlt := length_decodeFrom_lt hcuts
      have hle := length_decodeFrom_flatten_le none (part :: parts)
      have hlength := congrArg List.length heq
      rw [List.length_append, List.flatten_cons] at hlength
      rw [List.flatten_cons] at hle
      have hnone : (flush none).length = 0 := rfl
      omega
    · rw [Bool.not_eq_true] at hcuts
      rw [List.flatten_cons, ← flush_append_decodeFrom hcuts, List.append_cancel_left_eq, decodeFrom_append,
        List.flatMap_cons, decodeUtf8, decodeFrom, List.append_assoc, List.append_cancel_left_eq, ih,
        cutsBetween_cons, cuts_stateAfter hcuts, cutsBetween_stateAfter hcuts]
      exact ⟨fun h => ⟨hcuts, h⟩, fun h => h.2⟩

/-- Decoding piece by piece is decoding the whole exactly if no character is cut. -/
theorem flatMap_decodeUtf8_iff (parts : List (List UInt8)) :
    parts.flatMap decodeUtf8 = decodeUtf8 parts.flatten ↔ CutsBetween none parts := by
  have h := flush_append_flatMap_iff none parts
  rw [show flush none = [] from rfl, List.nil_append] at h
  rw [decodeUtf8, h]
  refine ⟨fun h => h.2, fun h => ⟨?_, h⟩⟩
  cases parts.flatten <;> rfl

end

/-! ### The round trip -/

section
variable {b : UInt8} {bytes : List UInt8} {p : PendingChar} {k n : ℕ}

theorem toNat_ofNat_of_lt (h : n < 256) : (UInt8.ofNat n).toNat = n := UInt8.toNat_ofNat_of_lt h

theorem leadByte_one (hb : b.toNat = k) (hk : k < 0x80) : leadByte b = (none, [Char.ofNat k]) := by
  rw [leadByte, hb, if_pos (by omega)]

theorem leadByte_two (hb : b.toNat = k + 0xC0) (hlow : 2 ≤ k) (hhigh : k < 0x20) :
    leadByte b = begin 1 0x80 0xBF k (by decide) := by
  rw [leadByte, if_neg (by omega), if_neg (by omega), if_pos (by omega)]
  simp [hb]

theorem leadByte_three (hb : b.toNat = k + 0xE0) (hk : k < 0x10) :
    leadByte b = begin 2 (if k = 0 then 0xA0 else 0x80) (if k = 0xD then 0x9F else 0xBF) k
      ⟨by split_ifs <;> decide, by split_ifs <;> decide⟩ := by
  interval_cases k <;> simp [leadByte, hb]

theorem leadByte_four (hb : b.toNat = k + 0xF0) (hk : k < 5) :
    leadByte b = begin 3 (if k = 0 then 0x90 else 0x80) (if k = 4 then 0x8F else 0xBF) k
      ⟨by split_ifs <;> decide, by split_ifs <;> decide⟩ := by
  interval_cases k <;> simp [leadByte, hb]

/-- A byte inside a character. -/
theorem decodeFrom_inside (hb : b.toNat = k + 0x80) (hlow : p.low ≤ k + 0x80) (hhigh : k + 0x80 ≤ p.high)
    (hmissing : 1 < p.missing) : decodeFrom (some p) (b :: bytes) =
      decodeFrom (some ⟨p.missing - 1, 0x80, 0xBF, p.bits * 64 + k, le_rfl, le_rfl⟩) bytes := by
  have hcontinues : p.continues b = true := by
    rw [PendingChar.continues, hb, decide_eq_true hlow, decide_eq_true hhigh]
    rfl
  rw [decodeFrom_cons, decodeByte, if_pos hcontinues, PendingChar.next]
  simp only [hb, Nat.add_sub_cancel, if_neg (not_le.mpr hmissing), List.nil_append]

/-- The last byte of a character. -/
theorem decodeFrom_last (hb : b.toNat = k + 0x80) (hlow : p.low ≤ k + 0x80) (hhigh : k + 0x80 ≤ p.high)
    (hmissing : p.missing ≤ 1) : decodeFrom (some p) (b :: bytes) =
      Char.ofNat (p.bits * 64 + k) :: decodeFrom none bytes := by
  have hcontinues : p.continues b = true := by
    rw [PendingChar.continues, hb, decide_eq_true hlow, decide_eq_true hhigh]
    rfl
  rw [decodeFrom_cons, decodeByte, if_pos hcontinues, PendingChar.next]
  simp only [hb, Nat.add_sub_cancel, if_pos hmissing, List.singleton_append]

theorem decodeFrom_utf8EncodeChar (c : Char) (bytes : List UInt8) :
    decodeFrom none (String.utf8EncodeChar c ++ bytes) = c :: decodeFrom none bytes := by
  have hvalid : c.val.toNat < 0xd800 ∨ (0xdfff < c.val.toNat ∧ c.val.toNat < 0x110000) := c.valid
  have hchar : Char.ofNat c.val.toNat = c := Char.ofNat_toNat c
  rw [String.utf8EncodeChar]
  split_ifs with hone htwo hthree
  · rw [List.singleton_append, decodeFrom_cons, decodeByte, leadByte_one (toNat_ofNat_of_lt (by omega)) (by omega),
      hchar, List.singleton_append]
  · have hbits : c.val.toNat / 64 % 32 * 64 + c.val.toNat % 64 = c.val.toNat := by omega
    simp only [List.cons_append, List.nil_append]
    rw [decodeFrom_cons, decodeByte, leadByte_two (toNat_ofNat_of_lt (by omega)) (by omega) (by omega), begin,
      List.nil_append,
      decodeFrom_last (toNat_ofNat_of_lt (by omega)) (by dsimp only; omega) (by dsimp only; omega) le_rfl]
    dsimp only
    rw [hbits, hchar]
  · have hbits : (c.val.toNat / 4096 % 16 * 64 + c.val.toNat / 64 % 64) * 64 + c.val.toNat % 64 = c.val.toNat := by
      omega
    simp only [List.cons_append, List.nil_append]
    rw [decodeFrom_cons, decodeByte, leadByte_three (toNat_ofNat_of_lt (by omega)) (by omega), begin,
      List.nil_append,
      decodeFrom_inside (toNat_ofNat_of_lt (by omega)) (by dsimp only; split_ifs <;> omega)
        (by dsimp only; split_ifs <;> omega) (by simp),
      decodeFrom_last (toNat_ofNat_of_lt (by omega)) (by dsimp only; omega) (by dsimp only; omega) le_rfl]
    dsimp only
    rw [hbits, hchar]
  · have hbits : ((c.val.toNat / 262144 % 8 * 64 + c.val.toNat / 4096 % 64) * 64 + c.val.toNat / 64 % 64) * 64 +
        c.val.toNat % 64 = c.val.toNat := by omega
    simp only [List.cons_append, List.nil_append]
    rw [decodeFrom_cons, decodeByte, leadByte_four (toNat_ofNat_of_lt (by omega)) (by omega), begin,
      List.nil_append,
      decodeFrom_inside (toNat_ofNat_of_lt (by omega)) (by dsimp only; split_ifs <;> omega)
        (by dsimp only; split_ifs <;> omega) (by simp),
      decodeFrom_inside (toNat_ofNat_of_lt (by omega)) (by dsimp only; omega) (by dsimp only; omega) (by simp),
      decodeFrom_last (toNat_ofNat_of_lt (by omega)) (by dsimp only; omega) (by dsimp only; omega) le_rfl]
    dsimp only
    rw [hbits, hchar]

end

/-- What was encoded is read back. -/
theorem decodeUtf8_utf8Encode (text : List Char) : decodeUtf8 (text.flatMap String.utf8EncodeChar) = text := by
  induction text with
  | nil => rfl
  | cons c text ih =>
    rw [List.flatMap_cons, decodeUtf8, decodeFrom_utf8EncodeChar]
    exact congrArg (c :: ·) ih

end Foundations
