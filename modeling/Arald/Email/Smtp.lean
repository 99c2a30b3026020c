import Arald.Email.QuotedPrintable

/-!
# The data of a message

What `sendEmail` of `smtp-client.ts` writes once the server has answered DATA with 354, and a
receiver that reads it: up to the first line that is a single dot, without the dots that were
put before others, without the header, and decoded.
-/

namespace Arald

open Foundations

/-- A text that is given by its characters, all of them ASCII. -/
def ascii (text : List Char) : List (BitVec 16) := text.map fun c => BitVec.ofNat 16 c.toNat

structure SmtpMessage where
  fromAddress : List (BitVec 16)
  toAddress : List (BitVec 16)
  subject : List (BitVec 16)
  bodyText : List (BitVec 16)

/-- The fields of a `Date` in UTC. -/
structure UtcDate where
  day : Fin 7
  date : ℕ
  month : Fin 12
  fullYear : ℕ
  hours : ℕ
  minutes : ℕ
  seconds : ℕ

def assertNoLineBreak (value : List (BitVec 16)) (fieldName : String) : Except String Unit :=
  if value.any fun u => u = 13 || u = 10 then throw ("SMTP " ++ fieldName ++ " must not contain a line break")
  else pure ()

/-! ### The header -/

def days : List String := ["Sun", "Mon", "Tue", "Wed", "Thu", "Fri", "Sat"]

def months : List String := ["Jan", "Feb", "Mar", "Apr", "May", "Jun", "Jul", "Aug", "Sep", "Oct", "Nov", "Dec"]

/-- `String(n).padStart(2, "0")`. -/
def pad (n : ℕ) : List Char :=
  let text := Nat.toDigits 10 n
  List.replicate (2 - text.length) '0' ++ text

def formatRfc5322Date (date : UtcDate) : List Char :=
  (days.get date.day).toList ++ [',', ' '] ++ pad date.date ++ [' '] ++ (months.get date.month).toList ++ [' '] ++
    Nat.toDigits 10 date.fullYear ++ [' '] ++ pad date.hours ++ [':'] ++ pad date.minutes ++ [':'] ++
    pad date.seconds ++ " +0000".toList

/-- `bytes.toString("hex")`. -/
def randomHex (bytes : Buffer) : List Char :=
  bytes.flatMap fun byte => [Nat.digitChar (byte.toNat / 16), Nat.digitChar (byte.toNat % 16)]

def headerField (name : String) (value : List (BitVec 16)) : List (BitVec 16) :=
  ascii (name.toList ++ [':', ' ']) ++ value

def headers (message : SmtpMessage) (now : UtcDate) (random : Buffer) : List (List (BitVec 16)) :=
  [headerField "From" message.fromAddress, headerField "To" message.toAddress, headerField "Subject" message.subject,
    headerField "Date" (ascii (formatRfc5322Date now)),
    headerField "Message-ID" (ascii ('<' :: randomHex random ++ "@arald-email-relay>".toList)),
    headerField "MIME-Version" (ascii "1.0".toList),
    headerField "Content-Type" (ascii "text/plain; charset=utf-8".toList),
    headerField "Content-Transfer-Encoding" (ascii "quoted-printable".toList)]

/-! ### What is written -/

/-- A line that begins with a dot gets another one. -/
def stuffLine (line : Buffer) : Buffer := if line.head? = some 46 then 46 :: line else line

def dotStuff (text : Buffer) : Buffer := joinLines 13 10 ((splitLines 13 10 text).map stuffLine)

/-- The octets that the socket makes of the source. -/
def buildMessageSource (message : SmtpMessage) (now : UtcDate) (random : Buffer) : Buffer :=
  utf8Bytes (joinLines 13 10 (headers message now random) ++ [13, 10, 13, 10]) ++
    dotStuff (quotedPrintableEncode message.bodyText)

def terminator (source : Buffer) : Buffer := if [13, 10] <:+ source then [46, 13, 10] else [13, 10, 46, 13, 10]

/-- What `sendEmail` writes after DATA, or the error with which it does not begin. -/
def messageData (message : SmtpMessage) (now : UtcDate) (random : Buffer) : Except String Buffer := do
  assertNoLineBreak message.fromAddress "from address"
  assertNoLineBreak message.toAddress "to address"
  assertNoLineBreak message.subject "subject"
  let source := buildMessageSource message now random
  return source ++ terminator source

/-! ### What is received -/

/-- The octets up to the first line of one dot, and those after it. -/
def readData : Buffer → Option (Buffer × Buffer)
  | [] => none
  | octet :: rest =>
    if [13, 10, 46, 13, 10].isPrefixOf (octet :: rest) then some ([13, 10], rest.drop 4)
    else (readData rest).map fun read => (octet :: read.1, read.2)

def unstuffLine (line : Buffer) : Buffer := if line.head? = some 46 then line.tail else line

/-- The bytes of lines that end in a break each, which a sign at the end takes back. Blanks at
the end of a line do not count. -/
def decodeQuotedPrintable : List Buffer → Option Buffer
  | [] => some []
  | line :: lines =>
    let line := line.rdropWhile isBlank
    if line.getLast? = some 0x3d then do
      let bytes ← decodeEscapes line.dropLast
      let more ← decodeQuotedPrintable lines
      return bytes ++ more
    else do
      let bytes ← decodeEscapes line
      let more ← decodeQuotedPrintable lines
      return bytes ++ 13 :: 10 :: more

/-- The body of the message and what comes after the message. -/
def receive (stream : Buffer) : Option (Buffer × Buffer) := do
  let (data, rest) ← readData stream
  let lines := (completeLines (strictLines 13 10 data)).map unstuffLine
  let body ← decodeQuotedPrintable (lines.dropWhile fun line => !line.isEmpty).tail
  return (body, rest)

/-- The bytes of a text with one kind of break, one of them at the end. -/
def normalizedBytes (text : List (BitVec 16)) : Buffer := utf8Bytes (endBreak 13 10 (unifyBreaks 13 10 text))

/-! ### Characters and bytes -/

section
variable {text line xs ys : List (BitVec 16)} {u : BitVec 16} {b : UInt8} {c : Char}

/-- A unit that is no part of a pair is a character of its own. -/
theorem characters_append_cons (xs ys : List (BitVec 16)) (h : u.toNat < 0xd800) :
    characters (xs ++ u :: ys) = characters xs ++ Char.ofNat u.toNat :: characters ys := by
  induction xs using characters.induct with
  | case1 =>
    cases ys with
    | nil => simp [characters, show ¬0xd800 ≤ u.toNat by omega]
    | cons v ys => simp [characters, show ¬0xd800 ≤ u.toNat by omega]
  | case2 v =>
    have hu := show ¬0xd800 ≤ u.toNat by omega
    have hlow := show ¬0xdc00 ≤ u.toNat by omega
    cases ys with
    | nil => simp [characters, hu, hlow]
    | cons w ys => simp [characters, hu, hlow]
  | case3 v w rest hpair ih =>
    rw [List.cons_append, List.cons_append, characters, if_pos hpair, ih, characters, if_pos hpair]
    rfl
  | case4 v w rest hpair ih =>
    rw [List.cons_append, List.cons_append, characters, if_neg hpair, ← List.cons_append, ih, characters,
      if_neg hpair]
    rfl

theorem utf8EncodeChar_of_lt {n : ℕ} (h : n < 0x80) : String.utf8EncodeChar (Char.ofNat n) = [UInt8.ofNat n] := by
  interval_cases n <;> decide

theorem utf8Bytes_append_cons (xs ys : List (BitVec 16)) (h : u.toNat < 0x80) :
    utf8Bytes (xs ++ u :: ys) = utf8Bytes xs ++ UInt8.ofNat u.toNat :: utf8Bytes ys := by
  rw [utf8Bytes, characters_append_cons xs ys (by omega), List.flatMap_append, List.flatMap_cons,
    utf8EncodeChar_of_lt h]
  rfl

theorem utf8Bytes_append_break (xs ys : List (BitVec 16)) :
    utf8Bytes (xs ++ 13 :: 10 :: ys) = utf8Bytes xs ++ 13 :: 10 :: utf8Bytes ys := by
  have hlf := utf8Bytes_append_cons (u := 10) [] ys (by decide)
  rw [List.nil_append] at hlf
  rw [utf8Bytes_append_cons xs _ (by decide), hlf]
  rfl

theorem utf8Bytes_joinLines (lines : List (List (BitVec 16))) :
    utf8Bytes (joinLines 13 10 lines) = joinLines 13 10 (lines.map utf8Bytes) := by
  induction lines with
  | nil => rfl
  | cons line lines ih =>
    cases lines with
    | nil => rfl
    | cons next lines =>
      rw [joinLines, utf8Bytes_append_break, ih]
      rfl

theorem utf8Bytes_closeLines (lines : List (List (BitVec 16))) :
    utf8Bytes (closeLines 13 10 lines) = closeLines 13 10 (lines.map utf8Bytes) := by
  have hlines := utf8Bytes_joinLines (lines ++ [[]])
  rw [List.map_append, List.map_singleton, joinLines_concat, joinLines_concat, List.append_nil] at hlines
  rw [hlines]
  exact List.append_nil _

/-- A byte of one bit less is a character of its own. -/
theorem toNat_of_mem_utf8EncodeChar (h : b ∈ String.utf8EncodeChar c) (hb : b.toNat < 0x80) : c.toNat = b.toNat := by
  have hc : c.toNat = c.val.toNat := rfl
  rw [String.utf8EncodeChar] at h
  split_ifs at h with hone htwo hthree
  · rw [List.mem_singleton] at h
    rw [h, hc, UInt8.toNat_ofNat']
    omega
  all_goals
    simp only [List.mem_cons, List.not_mem_nil, or_false] at h
    rcases h with rfl | rfl | rfl | rfl <;>
      · rw [UInt8.toNat_ofNat'] at hb
        omega

theorem toNat_charOfNat {n : ℕ} (h : n.isValidChar) : (Char.ofNat n).toNat = n := by
  rw [Char.ofNat, dif_pos h]
  rfl

/-- A small character is a unit. -/
theorem mem_of_mem_characters (h : c ∈ characters text) (hc : c.toNat < 0x80) : BitVec.ofNat 16 c.toNat ∈ text := by
  have hunit : ∀ u : BitVec 16, c = (if 0xd800 ≤ u.toNat ∧ u.toNat < 0xe000 then '\uFFFD' else Char.ofNat u.toNat) →
      BitVec.ofNat 16 c.toNat = u := by
    intro u hu
    have hlt := u.isLt
    by_cases hsurrogate : 0xd800 ≤ u.toNat ∧ u.toNat < 0xe000
    · rw [if_pos hsurrogate] at hu
      rw [hu] at hc
      exact absurd hc (by decide)
    · rw [if_neg hsurrogate] at hu
      rw [hu, toNat_charOfNat (by unfold Nat.isValidChar; omega), BitVec.ofNat_toNat, BitVec.setWidth_eq]
  induction text using characters.induct with
  | case1 => cases h
  | case2 u =>
    rw [characters, List.mem_singleton] at h
    rw [hunit u h]
    exact List.mem_cons_self
  | case3 u v rest hpair ih =>
    rw [characters, if_pos hpair] at h
    rcases List.mem_cons.mp h with h | h
    · rw [h, toNat_charOfNat (by unfold Nat.isValidChar; omega)] at hc
      omega
    · exact List.mem_cons_of_mem _ (List.mem_cons_of_mem _ (ih h))
  | case4 u v rest hpair ih =>
    rw [characters, if_neg hpair] at h
    rcases List.mem_cons.mp h with h | h
    · rw [hunit u h]
      exact List.mem_cons_self
    · exact List.mem_cons_of_mem _ (ih h)

theorem noBreak_utf8Bytes (h : NoBreak 13 10 line) : NoBreak 13 10 (utf8Bytes line) := by
  intro b hmem
  obtain ⟨c, hc, hb⟩ := List.mem_flatMap.mp hmem
  have hbreak : ∀ n : ℕ, n < 0x80 → (∀ u ∈ line, u ≠ BitVec.ofNat 16 n) → b ≠ UInt8.ofNat n := by
    rintro n hn hne rfl
    have hsmall : (UInt8.ofNat n).toNat = n := UInt8.toNat_ofNat_of_lt (hn.trans (by decide))
    have hnat := toNat_of_mem_utf8EncodeChar hb (by omega)
    have hunit := mem_of_mem_characters hc (by omega)
    rw [hnat, hsmall] at hunit
    exact hne _ hunit rfl
  exact ⟨hbreak 13 (by decide) fun u hu => (h u hu).1, hbreak 10 (by decide) fun u hu => (h u hu).2⟩

end

/-! ### Reading to the dot -/

section
variable {line next rest : Buffer} {lines : List Buffer}

theorem readData_cons {octet : UInt8} (h : octet ≠ 13) (rest : Buffer) :
    readData (octet :: rest) = (readData rest).map fun read => (octet :: read.1, read.2) := by
  have hprefix : [13, 10, 46, 13, 10].isPrefixOf (octet :: rest) = false := by
    simp [List.isPrefixOf, Ne.symm h]
  rw [readData, hprefix]
  rfl

theorem readData_append (h : NoBreak 13 10 line) (rest : Buffer) :
    readData (line ++ rest) = (readData rest).map fun read => (line ++ read.1, read.2) := by
  induction line with
  | nil => cases hread : readData rest <;> simp [hread]
  | cons octet line ih =>
    rw [noBreak_cons] at h
    rw [List.cons_append, readData_cons h.1.1, ih h.2]
    cases readData rest <;> rfl

theorem readData_dot (rest : Buffer) : readData (13 :: 10 :: 46 :: 13 :: 10 :: rest) = some ([13, 10], rest) := by
  rw [readData, if_pos (by simp [List.isPrefixOf])]
  rfl

/-- A break goes on unless a line of one dot follows. -/
theorem readData_break (hnext : NoBreak 13 10 next) (hdot : next ≠ [46]) (rest : Buffer) :
    readData (13 :: 10 :: (next ++ 13 :: 10 :: rest)) =
      (readData (next ++ 13 :: 10 :: rest)).map fun read => (13 :: 10 :: read.1, read.2) := by
  have hprefix : [13, 10, 46, 13, 10].isPrefixOf (13 :: 10 :: (next ++ 13 :: 10 :: rest)) = false := by
    match next, hnext, hdot with
    | [], _, _ => simp [List.isPrefixOf]
    | [octet], _, hdot =>
      have hne : octet ≠ 46 := fun heq => hdot (by rw [heq])
      simp [List.isPrefixOf, Ne.symm hne]
    | octet :: second :: next, hnext, _ =>
      have hsecond := (hnext second (by simp)).1
      simp [List.isPrefixOf, Ne.symm hsecond]
  rw [readData, hprefix]
  simp only [Bool.false_eq_true, if_false]
  rw [readData_cons (by decide)]
  cases readData (next ++ 13 :: 10 :: rest) <;> rfl

/-- Lines none of which is one dot are read up to the one that is. -/
theorem readData_closeLines (hlines : ∀ line ∈ lines, NoBreak 13 10 line ∧ line ≠ [46]) (hne : lines ≠ [])
    (rest : Buffer) :
    readData (closeLines 13 10 lines ++ 46 :: 13 :: 10 :: rest) = some (closeLines 13 10 lines, rest) := by
  have hcons : ∀ (line : Buffer) (lines : List Buffer) (rest : Buffer), closeLines 13 10 (line :: lines) ++ rest =
      line ++ 13 :: 10 :: (closeLines 13 10 lines ++ rest) := by
    intro line lines rest
    rw [closeLines, List.flatMap_cons, List.append_assoc, List.append_assoc]
    rfl
  induction lines with
  | nil => exact absurd rfl hne
  | cons line lines ih =>
    have hline := hlines line List.mem_cons_self
    have hothers := fun other hmem => hlines other (List.mem_cons_of_mem _ hmem)
    rw [hcons, readData_append hline.1]
    cases lines with
    | nil =>
      rw [closeLines, List.flatMap_nil, List.nil_append, readData_dot]
      simp [closeLines]
    | cons next lines =>
      have hnext := hothers next List.mem_cons_self
      have hread := ih hothers (List.cons_ne_nil _ _)
      rw [hcons] at hread ⊢
      rw [readData_break hnext.1 hnext.2, hread]
      simp [closeLines]

theorem unstuffLine_stuffLine (line : Buffer) : unstuffLine (stuffLine line) = line := by
  rw [stuffLine]
  split_ifs with hdot
  · rfl
  · rw [unstuffLine, if_neg hdot]

theorem stuffLine_ne_dot (line : Buffer) : stuffLine line ≠ [46] := by
  rw [stuffLine]
  split_ifs with hdot
  · rintro heq
    rw [List.cons.injEq] at heq
    rw [heq.2] at hdot
    cases hdot
  · rintro rfl
    exact hdot rfl

theorem noBreak_stuffLine (h : NoBreak 13 10 line) : NoBreak 13 10 (stuffLine line) := by
  rw [stuffLine]
  split_ifs
  · exact noBreak_cons.mpr ⟨by decide, h⟩
  · exact h

theorem stuffLine_eq_nil : stuffLine line = [] ↔ line = [] := by
  rw [stuffLine]
  split_ifs with hdot
  · refine iff_of_false (by simp) ?_
    rintro rfl
    cases hdot
  · exact Iff.rfl

end

/-! ### Decoding -/

section
variable {bytes : Buffer} {groups : List (List (UInt8 × Bool))} {last : List (UInt8 × Bool)}

theorem withLast_concat (bytes : Buffer) (b : UInt8) :
    withLast (bytes ++ [b]) = bytes.map (fun byte => (byte, false)) ++ [(b, true)] := by
  induction bytes with
  | nil => rfl
  | cons byte bytes ih =>
    rw [List.cons_append, withLast, ih, List.map_cons, List.cons_append]
    simp

/-- The last octet of a line is no blank and no sign. -/
theorem encodeByte_last (b : UInt8) : ∃ init octet, encodeByte b true = init ++ [octet] ∧ octet ≠ 0x3d ∧
    isBlank octet = false := by
  have hlow := hexDigit_ne (n := b.toNat % 16) (by omega)
  rcases encodeByte_cases b true with ⟨hb, hne, -, -, hblank⟩ | hb
  · exact ⟨[], b, hb, hne, hblank rfl⟩
  · exact ⟨[0x3d, hexDigit (b.toNat / 16)], _, hb, hlow.1, hlow.2.2.2⟩

theorem decode_soft (group : List (UInt8 × Bool)) (lines : List Buffer) :
    decodeQuotedPrintable ((encodeAll group ++ [0x3d]) :: lines) =
      (decodeQuotedPrintable lines).map (group.map Prod.fst ++ ·) := by
  rw [decodeQuotedPrintable, List.rdropWhile_concat_neg _ _ _ (by decide), List.getLast?_concat, if_pos rfl,
    List.dropLast_concat, decodeEscapes_encodeAll]
  cases decodeQuotedPrintable lines <;> rfl

theorem decode_softs (lines : List Buffer) :
    decodeQuotedPrintable (groups.map (fun group => encodeAll group ++ [0x3d]) ++ lines) =
      (decodeQuotedPrintable lines).map (groups.flatten.map Prod.fst ++ ·) := by
  induction groups with
  | nil => cases h : decodeQuotedPrintable lines <;> simp [h]
  | cons group groups ih =>
    rw [List.map_cons, List.cons_append, decode_soft, ih]
    cases decodeQuotedPrintable lines <;> simp

/-- The lines of one line are its bytes and a break. -/
theorem decode_softWrap (bytes : Buffer) (lines : List Buffer) :
    decodeQuotedPrintable (softWrap (encodeAll (withLast bytes)) ++ lines) =
      (decodeQuotedPrintable lines).map (bytes ++ 13 :: 10 :: ·) := by
  obtain ⟨groups, last, hsplit, hwrap, hlast⟩ := softWrap_groups (withLast bytes)
  have hbytes : groups.flatten.map Prod.fst ++ last.map Prod.fst = bytes := by
    rw [← List.map_append, ← hsplit, map_fst_withLast]
  have hend : encodeAll last = [] ∨ ∃ init octet, encodeAll last = init ++ [octet] ∧ octet ≠ 0x3d ∧
      isBlank octet = false := by
    rcases List.eq_nil_or_concat' last with rfl | ⟨init, b, rfl⟩
    · exact .inl rfl
    · have hflag : b.2 = true := by
        rcases List.eq_nil_or_concat' bytes with rfl | ⟨bytes, byte, rfl⟩
        · simp [withLast] at hsplit
        · rw [withLast_concat, ← List.append_assoc] at hsplit
          rw [← List.append_inj_right' hsplit rfl |> List.singleton_injective]
      obtain ⟨start, octet, hencode, hoctet⟩ := encodeByte_last b.1
      refine .inr ⟨encodeAll init ++ start, octet, ?_, hoctet⟩
      rw [encodeAll_append, encodeAll_cons, hflag, hencode, show encodeAll [] = [] from rfl, List.append_nil,
        List.append_assoc]
  have hhard : decodeQuotedPrintable (encodeAll last :: lines) =
      (decodeQuotedPrintable lines).map (last.map Prod.fst ++ 13 :: 10 :: ·) := by
    have hdecode := decodeEscapes_encodeAll last
    rw [decodeQuotedPrintable]
    rcases hend with hnil | ⟨init, octet, hconcat, hsign, hblank⟩
    · rw [hnil] at hdecode ⊢
      rw [List.rdropWhile_nil, List.getLast?_nil, if_neg (Option.some_ne_none _).symm, hdecode]
      cases decodeQuotedPrintable lines <;> rfl
    · rw [hconcat] at hdecode ⊢
      rw [List.rdropWhile_concat_neg _ _ _ (by simp [hblank]), List.getLast?_concat,
        if_neg (fun h => hsign (Option.some.inj h)), hdecode]
      cases decodeQuotedPrintable lines <;> rfl
  rw [hwrap, List.append_assoc, decode_softs, List.singleton_append, hhard, Option.map_map, ← hbytes]
  congr 1
  funext more
  exact (List.append_assoc _ _ _).symm

/-- The lines of a text are its bytes. -/
theorem decode_flatMap_softWrap (lines : List (List (BitVec 16))) :
    decodeQuotedPrintable (lines.flatMap fun line => softWrap (encodeAll (withLast (utf8Bytes line)))) =
      some (utf8Bytes (closeLines 13 10 lines)) := by
  rw [utf8Bytes_closeLines]
  induction lines with
  | nil => rfl
  | cons line lines ih =>
    rw [List.flatMap_cons, decode_softWrap, ih, List.map_cons, closeLines, closeLines, List.flatMap_cons,
      List.append_assoc]
    rfl

end

/-! ### The message -/

section
variable {message : SmtpMessage} {now : UtcDate} {random : Buffer} {line : List (BitVec 16)} {text : List Char}

/-- A character of the visible part of ASCII, or a space. -/
def isPlain (c : Char) : Bool := 32 ≤ c.toNat && c.toNat < 127

theorem noBreak_ascii (h : text.all isPlain = true) : NoBreak 13 10 (ascii text) := by
  intro u hmem
  obtain ⟨c, hc, rfl⟩ := List.mem_map.mp hmem
  have hplain := List.all_eq_true.mp h c hc
  rw [isPlain, Bool.and_eq_true, decide_eq_true_eq, decide_eq_true_eq] at hplain
  have hsmall : (BitVec.ofNat 16 c.toNat).toNat = c.toNat := by
    rw [BitVec.toNat_ofNat]
    omega
  have hcr : (13 : BitVec 16).toNat = 13 := rfl
  have hlf : (10 : BitVec 16).toNat = 10 := rfl
  constructor
  · intro heq
    rw [heq, hcr] at hsmall
    omega
  · intro heq
    rw [heq, hlf] at hsmall
    omega

theorem isPlain_toDigits (n : ℕ) : (Nat.toDigits 10 n).all isPlain = true := by
  refine List.all_eq_true.mpr fun c hc => ?_
  have hdigit := Char.isDigit_iff_toNat.mp (Nat.isDigit_of_mem_toDigits (by decide) (by decide) hc)
  have hlow : '0'.toNat = 48 := rfl
  have hhigh : '9'.toNat = 57 := rfl
  rw [isPlain, Bool.and_eq_true, decide_eq_true_eq, decide_eq_true_eq]
  omega

theorem isPlain_pad (n : ℕ) : (pad n).all isPlain = true := by
  rw [pad, List.all_append, isPlain_toDigits, Bool.and_true]
  refine List.all_eq_true.mpr fun c hc => ?_
  rw [List.eq_of_mem_replicate hc]
  rfl

theorem isPlain_formatRfc5322Date (now : UtcDate) : (formatRfc5322Date now).all isPlain = true := by
  have hday : ∀ day : Fin 7, (days.get day).toList.all isPlain = true := by decide
  have hmonth : ∀ month : Fin 12, (months.get month).toList.all isPlain = true := by decide
  simp only [formatRfc5322Date, List.all_append, isPlain_toDigits, isPlain_pad, hday, hmonth, Bool.and_true, Bool.true_and]
  rfl

theorem isPlain_randomHex (bytes : Buffer) : (randomHex bytes).all isPlain = true := by
  have hdigit : ∀ n < 16, isPlain (Nat.digitChar n) = true := by decide
  refine List.all_eq_true.mpr fun c hc => ?_
  obtain ⟨byte, -, hc⟩ := List.mem_flatMap.mp hc
  have hlt := byte.toNat_lt
  simp only [List.mem_cons, List.not_mem_nil, or_false] at hc
  rcases hc with rfl | rfl
  · exact hdigit _ (by omega)
  · exact hdigit _ (by omega)

/-- A field begins with a letter, and it is one line if its value is. -/
theorem headerField_spec {name : String} {value : List (BitVec 16)} (u : BitVec 16) (rest : List (BitVec 16))
    (hname : ascii (name.toList ++ [':', ' ']) = u :: rest) (hu : u.toNat < 0x80 ∧ u.toNat ≠ 46)
    (hplain : (name.toList ++ [':', ' ']).all isPlain = true) (hvalue : NoBreak 13 10 value) :
    NoBreak 13 10 (headerField name value) ∧
      ∃ octet octets, utf8Bytes (headerField name value) = octet :: octets ∧ octet ≠ 46 := by
  constructor
  · intro v hmem
    rcases List.mem_append.mp hmem with hmem | hmem
    · exact noBreak_ascii hplain v hmem
    · exact hvalue v hmem
  · refine ⟨UInt8.ofNat u.toNat, utf8Bytes (rest ++ value), ?_, ?_⟩
    · rw [headerField, hname]
      exact utf8Bytes_append_cons [] (rest ++ value) hu.1
    · intro heq
      have hnat := congrArg UInt8.toNat heq
      have hdot : UInt8.toNat 46 = 46 := rfl
      rw [UInt8.toNat_ofNat', hdot] at hnat
      omega

theorem noBreak_of_any (h : ¬(line.any fun u => u = 13 || u = 10) = true) : NoBreak 13 10 line := by
  intro u hmem
  simp only [List.any_eq_true, Bool.or_eq_true, decide_eq_true_eq, not_exists, not_and, not_or] at h
  exact h u hmem

/-- What is written was checked. -/
theorem messageData_ok {data : Buffer} (h : messageData message now random = .ok data) :
    (NoBreak 13 10 message.fromAddress ∧ NoBreak 13 10 message.toAddress ∧ NoBreak 13 10 message.subject) ∧
      data = buildMessageSource message now random ++ terminator (buildMessageSource message now random) := by
  rw [messageData, assertNoLineBreak, assertNoLineBreak, assertNoLineBreak] at h
  by_cases hfrom : (message.fromAddress.any fun u => u = 13 || u = 10) = true
  · rw [if_pos hfrom] at h
    cases h
  by_cases hto : (message.toAddress.any fun u => u = 13 || u = 10) = true
  · rw [if_neg hfrom, if_pos hto] at h
    cases h
  by_cases hsubject : (message.subject.any fun u => u = 13 || u = 10) = true
  · rw [if_neg hfrom, if_neg hto, if_pos hsubject] at h
    cases h
  rw [if_neg hfrom, if_neg hto, if_neg hsubject] at h
  exact ⟨⟨noBreak_of_any hfrom, noBreak_of_any hto, noBreak_of_any hsubject⟩, (Except.ok.inj h).symm⟩

theorem headers_spec (h : NoBreak 13 10 message.fromAddress ∧ NoBreak 13 10 message.toAddress ∧
    NoBreak 13 10 message.subject) (now : UtcDate) (random : Buffer) : ∀ line ∈ headers message now random, NoBreak 13 10 line ∧
      ∃ octet octets, utf8Bytes line = octet :: octets ∧ octet ≠ 46 := by
  have hid : ('<' :: randomHex random ++ "@arald-email-relay>".toList).all isPlain = true := by
    rw [List.cons_append, List.all_cons, List.all_append, isPlain_randomHex]
    rfl
  simp only [headers, List.forall_mem_cons]
  refine ⟨?_, ?_, ?_, ?_, ?_, ?_, ?_, ?_, nofun⟩
  · exact headerField_spec _ _ rfl (by decide) rfl h.1
  · exact headerField_spec _ _ rfl (by decide) rfl h.2.1
  · exact headerField_spec _ _ rfl (by decide) rfl h.2.2
  · exact headerField_spec _ _ rfl (by decide) rfl (noBreak_ascii (isPlain_formatRfc5322Date now))
  · exact headerField_spec _ _ rfl (by decide) rfl (noBreak_ascii hid)
  · exact headerField_spec _ _ rfl (by decide) rfl (noBreak_ascii rfl)
  · exact headerField_spec _ _ rfl (by decide) rfl (noBreak_ascii rfl)
  · exact headerField_spec _ _ rfl (by decide) rfl (noBreak_ascii rfl)

/-- The source is the lines of the header, an empty one and those of the body. -/
theorem buildMessageSource_eq (message : SmtpMessage) (now : UtcDate) (random : Buffer) :
    buildMessageSource message now random = joinLines 13 10
      ((headers message now random).map utf8Bytes ++ [] :: (encodedLines message.bodyText).map stuffLine) := by
  have hstuffed : (encodedLines message.bodyText).map stuffLine ≠ [] := by
    simpa using encodedLines_ne_nil message.bodyText
  have hbreak : utf8Bytes [13, 10] = [13, 10] := by decide
  rw [buildMessageSource, utf8Bytes_append_break, hbreak, utf8Bytes_joinLines, dotStuff,
    splitLines_quotedPrintableEncode, joinLines_append (by simp [headers]) (List.cons_ne_nil _ _),
    joinLines_cons [] hstuffed, List.append_assoc]
  rfl

theorem append_terminator (source : Buffer) :
    source ++ terminator source = endBreak 13 10 source ++ [46, 13, 10] := by
  rw [terminator, endBreak]
  split_ifs
  · rfl
  · rw [List.append_assoc]
    rfl

theorem utf8Bytes_ne_nil {line : List (BitVec 16)} (h : line ≠ []) : utf8Bytes line ≠ [] := by
  have hchar : ∀ (c : Char) (more : List Char), (c :: more).flatMap String.utf8EncodeChar ≠ [] := by
    intro c more heq
    have hnil := (List.append_eq_nil_iff.mp heq).1
    rw [String.utf8EncodeChar] at hnil
    split_ifs at hnil
  rw [utf8Bytes]
  match line, h with
  | [u], _ => exact hchar _ _
  | u :: v :: rest, _ =>
    rw [characters]
    split_ifs
    · exact hchar _ _
    · exact hchar _ _
    · exact hchar _ _

theorem encodeAll_ne_nil {bytes : List (UInt8 × Bool)} (h : bytes ≠ []) : encodeAll bytes ≠ [] := by
  obtain ⟨b, bytes, rfl⟩ := List.exists_cons_of_ne_nil h
  rw [encodeAll_cons]
  rcases encodeByte_cases b.1 b.2 with ⟨hb, -⟩ | hb <;> rw [hb] <;> exact List.cons_ne_nil _ _

/-- The last segment of a line that is not empty is not empty. -/
theorem completeLines_softWrap {line : List (BitVec 16)} (h : line ≠ []) :
    completeLines (softWrap (encodeAll (withLast (utf8Bytes line)))) =
      softWrap (encodeAll (withLast (utf8Bytes line))) := by
  obtain ⟨groups, last, hsplit, hwrap, hlast⟩ := softWrap_groups (withLast (utf8Bytes line))
  have hne : last ≠ [] := by
    intro hnil
    have hbytes := map_fst_withLast (utf8Bytes line)
    rw [hlast hnil] at hbytes
    exact utf8Bytes_ne_nil h hbytes.symm
  rw [hwrap, completeLines_concat _ (encodeAll_ne_nil hne)]

/-- The lines of the body that end in a break are those of the text. -/
theorem completeLines_encodedLines (text : List (BitVec 16)) :
    completeLines (encodedLines text) = (completeLines (splitLines 13 10 text)).flatMap fun line =>
      softWrap (encodeAll (withLast (utf8Bytes line))) := by
  obtain ⟨init, last, hsplit⟩ := List.eq_nil_or_concat' (splitLines 13 10 text) |>.resolve_left (splitLines_ne_nil text)
  rw [encodedLines, hsplit, List.flatMap_append, List.flatMap_singleton, completeLines_append _ (softWrap_ne_nil _)]
  by_cases hlast : last = []
  · rw [hlast, completeLines_concat_nil, show utf8Bytes [] = [] from rfl, withLast,
      softWrap_of_le (by decide)]
    exact List.append_nil _
  · rw [completeLines_softWrap hlast, completeLines_concat _ hlast, List.flatMap_append, List.flatMap_singleton]

end

/-- Whatever follows on the connection, the receiver finds the text and nothing else. -/
theorem receive_messageData (message : SmtpMessage) (now : UtcDate) (random rest data : Buffer)
    (hdata : messageData message now random = .ok data) (hbody : message.bodyText ≠ []) :
    receive (data ++ rest) = some (normalizedBytes message.bodyText, rest) := by
  obtain ⟨hchecked, rfl⟩ := messageData_ok hdata
  have hheaders := headers_spec hchecked now random
  have hfields : ∀ field ∈ (headers message now random).map utf8Bytes,
      NoBreak 13 10 field ∧ field ≠ [46] ∧ field ≠ [] ∧ unstuffLine field = field := by
    intro field hmem
    obtain ⟨line, hline, rfl⟩ := List.mem_map.mp hmem
    obtain ⟨hbreak, octet, octets, hbytes, hdot⟩ := hheaders line hline
    refine ⟨noBreak_utf8Bytes hbreak, ?_, ?_, ?_⟩
    · simp [hbytes, hdot]
    · simp [hbytes]
    · simp [unstuffLine, hbytes, hdot]
  have hlines : ∀ line ∈ (headers message now random).map utf8Bytes ++ [] ::
      (encodedLines message.bodyText).map stuffLine, NoBreak 13 10 line ∧ line ≠ [46] := by
    rw [List.forall_mem_append, List.forall_mem_cons]
    refine ⟨fun field hmem => ⟨(hfields field hmem).1, (hfields field hmem).2.1⟩, ⟨nofun, nofun⟩, ?_⟩
    intro line hmem
    obtain ⟨encoded, hencoded, rfl⟩ := List.mem_map.mp hmem
    exact ⟨noBreak_stuffLine (noBreak_encodedLines encoded hencoded), stuffLine_ne_dot encoded⟩
  have hstuffed : (encodedLines message.bodyText).map stuffLine ≠ [] := by
    simpa using encodedLines_ne_nil message.bodyText
  have hcomplete : completeLines ((headers message now random).map utf8Bytes ++ [] ::
      (encodedLines message.bodyText).map stuffLine) =
        (headers message now random).map utf8Bytes ++ [] ::
          (completeLines (encodedLines message.bodyText)).map stuffLine := by
    rw [completeLines_append _ (List.cons_ne_nil _ _), ← List.singleton_append, completeLines_append _ hstuffed,
      completeLines_map (fun line => stuffLine_eq_nil)]
    rfl
  -- the lines that the connection carries
  have hstream : buildMessageSource message now random ++ terminator (buildMessageSource message now random) ++ rest =
      closeLines 13 10 (completeLines ((headers message now random).map utf8Bytes ++ [] ::
        (encodedLines message.bodyText).map stuffLine)) ++ 46 :: 13 :: 10 :: rest := by
    rw [append_terminator, buildMessageSource_eq, endBreak_joinLines (fun line hmem => (hlines line hmem).1) (by simp)
      (by simp [headers]), List.append_assoc]
    rfl
  have hsub : ∀ line ∈ completeLines ((headers message now random).map utf8Bytes ++ [] ::
      (encodedLines message.bodyText).map stuffLine), NoBreak 13 10 line ∧ line ≠ [46] :=
    fun line hmem => hlines line (mem_of_mem_completeLines hmem)
  rw [hstream, receive, readData_closeLines hsub (by rw [hcomplete]; simp)]
  simp only [Option.bind_eq_bind, Option.bind_some]
  rw [strictLines_closeLines (fun line hmem => (hsub line hmem).1), completeLines_concat_nil, hcomplete,
    List.map_append, List.map_cons]
  have hmap : ((headers message now random).map utf8Bytes).map unstuffLine =
      (headers message now random).map utf8Bytes :=
    List.map_congr_left (fun field hmem => (hfields field hmem).2.2.2) |>.trans (List.map_id _)
  have hback : ((completeLines (encodedLines message.bodyText)).map stuffLine).map unstuffLine =
      completeLines (encodedLines message.bodyText) := by
    rw [List.map_map]
    exact List.map_congr_left (fun line _ => unstuffLine_stuffLine line) |>.trans (List.map_id _)
  have hempty : splitLines 13 10 message.bodyText ≠ [[]] := fun hsplit => hbody (splitLines_eq_singleton_nil hsplit)
  rw [hmap, hback, List.dropWhile_append_of_pos (fun field hmem => by simpa using (hfields field hmem).2.2.1),
    show unstuffLine [] = [] from rfl, List.dropWhile_cons_of_neg (by simp), List.tail_cons,
    completeLines_encodedLines, decode_flatMap_softWrap, normalizedBytes, ← joinLines_splitLines,
    endBreak_joinLines (fun line hmem => noBreak_of_mem_splitLines hmem) (splitLines_ne_nil _) hempty]
  rfl

/-- A dot of its own, a line that begins with one, and a break at the end. -/
theorem receive_messageData_dots :
    let message : SmtpMessage := ⟨ascii ['a'], ascii ['b'], ascii ['c'], [46, 13, 46, 0xe8, 10]⟩
    let now : UtcDate := ⟨3, 21, 8, 2026, 6, 45, 0⟩
    ∃ data, messageData message now [] = .ok data ∧
      receive (data ++ [81, 85, 73, 84, 13, 10]) =
        some ([46, 13, 10, 46, 0xc3, 0xa8, 13, 10], [81, 85, 73, 84, 13, 10]) := by
  intro message now
  have hdata : messageData message now [] =
      .ok (buildMessageSource message now [] ++ terminator (buildMessageSource message now [])) := rfl
  have hbytes : normalizedBytes message.bodyText = [46, 13, 10, 46, 0xc3, 0xa8, 13, 10] := by decide
  have hreceive := receive_messageData message now [] [81, 85, 73, 84, 13, 10] _ hdata (List.cons_ne_nil _ _)
  rw [hbytes] at hreceive
  exact ⟨_, hdata, hreceive⟩

end Arald
